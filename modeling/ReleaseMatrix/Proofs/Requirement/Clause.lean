/-
  Cutting requirements — which characters of a text matter, and where cuts fall.

  A clause is read as its list of pieces and nothing else, and one equation settles how pieces come
  about (`pieces_append_cons`): a separator cuts a text into two that are cut on their own.

  1. **Ends** — `trim` takes blanks from both ends (`exists_trim`), and nothing else
     (`trim_of_plain`).
  2. **Pieces** — gaps of separators at the ends or between two texts (`pieces_append_gap`,
     `pieces_gap_append`, `pieces_join`), texts without pieces (`pieces_eq_nil_iff`), texts that are
     one piece (`pieces_of_plain`), by themselves or between others (`pieces_surrounded`).
  3. **Tokens** — one piece after the other (`tokensFrom_sign`, `tokensFrom_glue`,
     `tokensFrom_range`, `tokensFrom_atom`); there are none only where there are no pieces
     (`tokens_eq_nil_iff`).
  4. **Bars** — a text without a bar is one clause (`alternatives_of_barless`); of two texts side by
     side the last and the first clause become one (`alternatives_append`); blanks at the ends of a
     text do not move its bars (`map_alternatives_trim`).
-/
import Mathlib.Data.List.TakeWhile
import ReleaseMatrix.Requirement.Clause

namespace ReleaseMatrix

/-! ## Ends of a text -/

namespace Text

/-- Trimming leaves a part between two stretches of blanks. -/
theorem exists_trim (cs : List Char) : ∃ lead trail, cs = lead ++ trim cs ++ trail ∧
    (∀ c ∈ lead, isBlank c = true) ∧ ∀ c ∈ trail, isBlank c = true := by
  let body := cs.dropWhile isBlank
  have hbody : body = trim cs ++ (body.reverse.takeWhile isBlank).reverse := by
    rw [trim, ← List.reverse_append, List.takeWhile_append_dropWhile, List.reverse_reverse]
  refine ⟨cs.takeWhile isBlank, (body.reverse.takeWhile isBlank).reverse, ?_, ?_, ?_⟩
  · rw [List.append_assoc, ← hbody]
    exact List.takeWhile_append_dropWhile.symm
  · exact List.all_eq_true.mp List.all_takeWhile
  · intro c hc
    exact List.all_eq_true.mp List.all_takeWhile c (List.mem_reverse.mp hc)

/-- Nothing is left iff there are only blanks. -/
theorem trim_eq_nil_iff {cs : List Char} : trim cs = [] ↔ ∀ c ∈ cs, isBlank c = true := by
  constructor
  · intro h
    obtain ⟨lead, trail, hcs, hlead, htrail⟩ := exists_trim cs
    rw [h, List.append_nil] at hcs
    rw [hcs]
    intro c hc
    rcases List.mem_append.mp hc with hc | hc
    · exact hlead c hc
    · exact htrail c hc
  · intro h
    have hdrop : cs.dropWhile isBlank = [] := List.dropWhile_eq_nil_iff.mpr h
    rw [trim, hdrop]
    rfl

/-- A text without blanks stays as it is. -/
theorem trim_of_plain {cs : List Char} (h : ∀ c ∈ cs, isBlank c = false) : trim cs = cs := by
  have hdrop {ds : List Char} (hds : ∀ c ∈ ds, isBlank c = false) : ds.dropWhile isBlank = ds := by
    cases ds with
    | nil => rfl
    | cons d ds => simp [hds d List.mem_cons_self]
  rw [trim, hdrop h, hdrop fun c hc => h c (List.mem_reverse.mp hc), List.reverse_reverse]

end Text

namespace Clause

open Text

theorem isSeparator_of_isBlank {c : Char} (h : isBlank c = true) : isSeparator c = true := by
  simp [isSeparator, h]

theorem isBlank_eq_false_of_plain {c : Char} (h : isSeparator c = false) : isBlank c = false :=
  (Bool.or_eq_false_iff.mp h).1

/-! ## Pieces -/

theorem pieces_nil : pieces [] = [] := rfl

/-- **A separator cuts a text in two.** -/
theorem pieces_append_cons (a b : List Char) {s : Char} (hs : isSeparator s = true) :
    pieces (a ++ s :: b) = pieces a ++ pieces b := by
  rw [pieces, splitWhere_append_cons isSeparator a b hs, List.filter_append]
  rfl

theorem pieces_cons (b : List Char) {s : Char} (hs : isSeparator s = true) :
    pieces (s :: b) = pieces b :=
  pieces_append_cons [] b hs

/-- Separators in front of a text do not count. -/
theorem pieces_gap_append {gap : List Char} (hgap : ∀ c ∈ gap, isSeparator c = true)
    (b : List Char) : pieces (gap ++ b) = pieces b := by
  induction gap with
  | nil => rfl
  | cons s gap ih =>
    rw [List.cons_append, pieces_cons _ (hgap s List.mem_cons_self)]
    exact ih fun c hc => hgap c (List.mem_cons_of_mem s hc)

/-- Separators between two texts keep these apart. -/
theorem pieces_join (a b : List Char) {gap : List Char} (hne : gap ≠ [])
    (hgap : ∀ c ∈ gap, isSeparator c = true) :
    pieces (a ++ gap ++ b) = pieces a ++ pieces b := by
  obtain ⟨s, rest, rfl⟩ := List.exists_cons_of_ne_nil hne
  rw [List.append_assoc, List.cons_append, pieces_append_cons a _ (hgap s List.mem_cons_self),
    pieces_gap_append fun c hc => hgap c (List.mem_cons_of_mem s hc)]

/-- Separators behind a text do not count. -/
theorem pieces_append_gap (a : List Char) {gap : List Char}
    (hgap : ∀ c ∈ gap, isSeparator c = true) : pieces (a ++ gap) = pieces a := by
  cases gap with
  | nil => rw [List.append_nil]
  | cons s gap =>
    have hjoin := pieces_join a [] (List.cons_ne_nil s gap) hgap
    rwa [pieces_nil, List.append_nil, List.append_nil] at hjoin

/-- A text that ends in a separator keeps apart from what stands behind it. -/
theorem pieces_append_of_getLast? {a : List Char} (h : ∀ s ∈ a.getLast?, isSeparator s = true)
    (b : List Char) : pieces (a ++ b) = pieces a ++ pieces b := by
  cases hlast : a.getLast? with
  | none =>
    rw [List.getLast?_eq_none_iff.mp hlast]
    rfl
  | some s =>
    obtain ⟨front, rfl⟩ := List.getLast?_eq_some_iff.mp hlast
    have hs : isSeparator s = true := h s hlast
    rw [List.append_assoc, List.singleton_append, pieces_append_cons _ _ hs,
      pieces_append_cons _ _ hs, pieces_nil, List.append_nil]

/-- A text that begins with a separator keeps apart from what stands before it. -/
theorem pieces_append_of_head? (a : List Char) {b : List Char}
    (h : ∀ s ∈ b.head?, isSeparator s = true) : pieces (a ++ b) = pieces a ++ pieces b := by
  cases b with
  | nil => rw [List.append_nil, pieces_nil, List.append_nil]
  | cons s b => rw [pieces_append_cons a b (h s rfl), pieces_cons b (h s rfl)]

/-- The pieces hold the other characters of a text, in order. -/
theorem flatten_pieces (cs : List Char) :
    (pieces cs).flatten = cs.filter fun c => !isSeparator c := by
  rw [← flatten_splitWhere, pieces]
  exact List.flatten_filter_not_isEmpty

/-- A clause of separators only has no pieces. -/
theorem pieces_eq_nil_iff {cs : List Char} : pieces cs = [] ↔ ∀ c ∈ cs, isSeparator c = true := by
  constructor
  · intro h
    have hfilter : cs.filter (fun c => !isSeparator c) = [] := by rw [← flatten_pieces, h]; rfl
    intro c hc
    simpa using List.filter_eq_nil_iff.mp hfilter c hc
  · intro h
    rw [← List.append_nil cs, pieces_gap_append h, pieces_nil]

/-- A text without separators is one piece. -/
theorem pieces_of_plain {cs : List Char} (hne : cs ≠ [])
    (h : ∀ c ∈ cs, isSeparator c = false) : pieces cs = [cs] := by
  rw [pieces, splitWhere_of_plain h]
  simp [hne]

/-- **A text between separators is a piece of its own.** -/
theorem pieces_surrounded {left piece right : List Char}
    (hleft : ∀ s ∈ left.getLast?, isSeparator s = true) (hne : piece ≠ [])
    (hpiece : ∀ c ∈ piece, isSeparator c = false)
    (hright : ∀ s ∈ right.head?, isSeparator s = true) :
    pieces (left ++ piece ++ right) = pieces left ++ piece :: pieces right := by
  rw [pieces_append_of_head? _ hright, pieces_append_of_getLast? hleft,
    pieces_of_plain hne hpiece, List.append_assoc, List.singleton_append]

/-! ## Tokens -/

section

variable {sign piece high : List Char} {rest : List (List Char)}

/-- A lone sign waits. -/
theorem tokensFrom_sign (h : Sign.standsAlone piece = true) :
    tokensFrom none (piece :: rest) = tokensFrom (some piece) rest := by
  rw [tokensFrom.eq_def]
  exact if_pos h

/-- The sign that waits goes to the next piece. -/
theorem tokensFrom_glue (h : ¬ Sign.standsAlone piece = true) :
    tokensFrom (some sign) (piece :: rest) = .atom (sign ++ piece) :: tokensFrom none rest := by
  rw [tokensFrom, if_neg h]

theorem tokensFrom_range (h : ¬ Sign.standsAlone piece = true) :
    tokensFrom none (piece :: ['-'] :: high :: rest) = .range piece high :: tokensFrom none rest := by
  rw [tokensFrom, if_neg h]

/-- Without a hyphen behind it a piece is an atom. -/
theorem tokensFrom_atom (h : ¬ Sign.standsAlone piece = true) (hhead : rest.head? ≠ some ['-']) :
    tokensFrom none (piece :: rest) = .atom piece :: tokensFrom none rest := by
  rw [tokensFrom, if_neg h]
  · rintro high behind rfl
    exact hhead rfl
  · rintro rfl
    exact hhead rfl

end

/-- A sign that waits becomes a token of its own at the latest, so only nothing makes no token. -/
theorem tokensFrom_eq_nil_iff {pending : Option (List Char)} {ps : List (List Char)} :
    tokensFrom pending ps = [] ↔ pending = none ∧ ps = [] := by
  fun_induction tokensFrom pending ps <;> simp_all

theorem tokens_eq_nil_iff {clause : List Char} :
    tokens clause = [] ↔ ∀ c ∈ clause, isSeparator c = true := by
  rw [tokens, tokensFrom_eq_nil_iff, pieces_eq_nil_iff]
  simp

/-! ## Bars -/

/-- A text has at least one clause. -/
theorem alternatives_ne_nil (cs : List Char) : alternatives cs ≠ [] := by
  fun_induction alternatives cs with
  | case1 => simp
  | case2 => simp
  | case3 => simp
  | case4 c rest _ _ ih =>
    cases h : alternatives rest with
    | nil => exact absurd h ih
    | cons => simp [consFirst]

/-- Every other character belongs to the clause that it stands in. -/
theorem alternatives_cons {c : Char} (hc : c ≠ '|') (rest : List Char) :
    alternatives (c :: rest) = consFirst c (alternatives rest) := by
  rw [alternatives]
  · rintro tail rfl
    exact absurd rfl hc
  · exact hc

/-- A text without a bar is one clause. -/
theorem alternatives_of_barless {cs : List Char} (h : '|' ∉ cs) : alternatives cs = [cs] := by
  induction cs with
  | nil => rfl
  | cons c cs ih =>
    rw [List.mem_cons, not_or] at h
    rw [alternatives_cons (Ne.symm h.1), ih h.2]
    rfl

/-- **Bars are found side by side**: the last clause of a text and the first one of what follows are
one clause, unless a bar at the seam becomes half of a double one. -/
theorem alternatives_append (front back : List Char)
    (h : front.getLast? ≠ some '|' ∨ back.head? ≠ some '|') :
    ∃ init last first rest, alternatives front = init ++ [last] ∧
      alternatives back = first :: rest ∧
      alternatives (front ++ back) = init ++ (last ++ first) :: rest := by
  obtain ⟨first, rest, hback⟩ := List.exists_cons_of_ne_nil (alternatives_ne_nil back)
  -- a text whose last character is a bar ends so behind its first characters too
  have htail {c : Char} {tail : List Char}
      (h : (c :: tail).getLast? ≠ some '|' ∨ back.head? ≠ some '|') :
      tail.getLast? ≠ some '|' ∨ back.head? ≠ some '|' := by
    refine h.imp_left fun hlast hbar => hlast ?_
    rw [List.getLast?_cons, hbar]
    rfl
  fun_induction alternatives front with
  | case1 => exact ⟨[], [], first, rest, rfl, hback, hback⟩
  | case2 tail ih =>
    obtain ⟨init, last, first, rest, htail, hback, happend⟩ := ih (htail (htail h))
    refine ⟨[] :: init, last, first, rest, by rw [htail]; rfl, hback, ?_⟩
    rw [List.cons_append, List.cons_append, alternatives, happend]
    rfl
  | case3 tail hsingle ih =>
    obtain ⟨init, last, first, rest, htail, hback, happend⟩ := ih (htail h)
    refine ⟨[] :: init, last, first, rest, by rw [htail]; rfl, hback, ?_⟩
    rw [List.cons_append, alternatives, happend]
    · rfl
    · rintro behind heq
      cases tail with
      | nil =>
        -- the bar of the front is the last one, so the back begins with another character
        have hhead : back.head? = some '|' := congrArg List.head? heq
        exact h.elim (fun hlast => hlast rfl) fun hne => hne hhead
      | cons d tail =>
        injection heq with hd
        exact hsingle tail (by rw [hd])
  | case4 c tail hdouble hc ih =>
    obtain ⟨init, last, first, rest, htail, hback, happend⟩ := ih (htail h)
    rw [List.cons_append, alternatives_cons hc, happend, htail]
    cases init with
    | nil => exact ⟨[], c :: last, first, rest, rfl, hback, rfl⟩
    | cons part init => exact ⟨(c :: part) :: init, last, first, rest, rfl, hback, rfl⟩

theorem getLast?_ne_of_barless {cs : List Char} (h : '|' ∉ cs) : cs.getLast? ≠ some '|' :=
  fun hlast => h (List.mem_of_getLast? hlast)

theorem head?_ne_of_barless {cs : List Char} (h : '|' ∉ cs) : cs.head? ≠ some '|' :=
  fun hhead => h (List.mem_of_head? hhead)

/-- Characters without a bar in front of a text go into its first clause. -/
theorem alternatives_barless_append {front : List Char} (h : '|' ∉ front) (cs : List Char) :
    ∃ first rest, alternatives cs = first :: rest ∧
      alternatives (front ++ cs) = (front ++ first) :: rest := by
  obtain ⟨init, last, first, rest, hfront, hcs, happend⟩ :=
    alternatives_append front cs (.inl (getLast?_ne_of_barless h))
  rw [alternatives_of_barless h] at hfront
  obtain ⟨rfl, hlast⟩ | ⟨-, hlast⟩ := List.append_eq_singleton_iff.1 hfront.symm
  · obtain rfl := List.singleton_inj.1 hlast
    exact ⟨first, rest, hcs, happend⟩
  · exact absurd hlast (List.cons_ne_nil _ _)

/-- Characters without a bar behind a text go into its last clause. -/
theorem alternatives_append_barless (cs : List Char) {back : List Char} (h : '|' ∉ back) :
    ∃ init last, alternatives cs = init ++ [last] ∧
      alternatives (cs ++ back) = init ++ [last ++ back] := by
  obtain ⟨init, last, first, rest, hcs, hback, happend⟩ :=
    alternatives_append cs back (.inr (head?_ne_of_barless h))
  rw [alternatives_of_barless h] at hback
  obtain ⟨rfl, rfl⟩ := List.cons.inj hback
  exact ⟨init, last, hcs, happend⟩

/-- **Blanks at the ends move no bar**: for what depends on pieces only, a text has the clauses of
what trimming leaves of it. -/
theorem map_alternatives_trim {β : Type} {f : List Char → β}
    (hf : ∀ a b, pieces a = pieces b → f a = f b) (cs : List Char) :
    (alternatives (trim cs)).map f = (alternatives cs).map f := by
  obtain ⟨lead, trail, hcs, hlead, htrail⟩ := exists_trim cs
  have hbar (part : List Char) (h : ∀ c ∈ part, isBlank c = true) : '|' ∉ part :=
    fun hmem => absurd (h '|' hmem) (by decide)
  have hsep (part : List Char) (h : ∀ c ∈ part, isBlank c = true) :
      ∀ c ∈ part, isSeparator c = true := fun c hc => isSeparator_of_isBlank (h c hc)
  obtain ⟨first, rest, hbody, hfront⟩ := alternatives_barless_append (hbar lead hlead) (trim cs)
  obtain ⟨init, last, hinit, hback⟩ :=
    alternatives_append_barless (lead ++ trim cs) (hbar trail htrail)
  rw [← hcs] at hback
  have hfirst : f (lead ++ first) = f first := hf _ _ (pieces_gap_append (hsep lead hlead) first)
  have hlast : f (last ++ trail) = f last := hf _ _ (pieces_append_gap last (hsep trail htrail))
  calc (alternatives (trim cs)).map f = (alternatives (lead ++ trim cs)).map f := by
        rw [hbody, hfront, List.map_cons, List.map_cons, hfirst]
    _ = (alternatives cs).map f := by
        rw [hback, hinit, List.map_append, List.map_append, List.map_singleton,
          List.map_singleton, hlast]

end Clause
end ReleaseMatrix
