/-
  Stability flags — where one may be put, and where it spoils the clause.

  A flag is dropped from the end of an atom before anything else is read of it.  The two ends of a
  range are not read as atoms, and there the `@` is a character like any other, in no literal:

      >=8.1@dev       >=8.1                   ^7.4 || > 8@RC       ^7.4 || > 8
      8.1@dev - 9     no range                8.1 - 9@dev          no range

  A requirement is looked at around one of its pieces: `pre` and `post` are what stands before and
  behind it, and of these only the last clause and the first one belong to the clause of the piece.

  1. **Places** — `alternatives_around`, and `IsOperand` for a piece that ends in a literal.
  2. **Pieces** — with no hyphen next to it a piece goes into an atom (`exists_atom`), and where all
     tokens are understood, what stands next to a hyphen is an accepted literal (`exists_bounds`).
  3. **Flags** — `Token.body_flag`, a flag changes nothing of an atom.
  4. **Requirements** — `flag_ignored_unless_bound`.
-/
import ReleaseMatrix.Proofs.Requirement.Alternatives
import ReleaseMatrix.Proofs.Requirement.LoneSign

namespace ReleaseMatrix

namespace Clause

open Sign (standsAlone)

/-! ## Places -/

/-- The clause that a text ends in. -/
def lastClause (cs : List Char) : List Char := (alternatives cs).getLast (alternatives_ne_nil cs)

/-- The clause that a text begins with. -/
def firstClause (cs : List Char) : List Char := (alternatives cs).head (alternatives_ne_nil cs)

/-- The last part of a text stands at its end. -/
theorem Cut.getLast_suffix {cs : List Char} {parts : List (List Char)} (h : Cut cs parts)
    (hne : parts ≠ []) : parts.getLast hne <:+ cs := by
  induction h with
  | last => exact List.suffix_rfl
  | @double clause rest parts hclause hrest ih =>
    have hparts : parts ≠ [] := cut_iff.mp hrest ▸ alternatives_ne_nil rest
    rw [List.getLast_cons hparts]
    exact (ih hparts).trans ⟨clause ++ ['|', '|'], by simp⟩
  | @single clause rest parts hclause hbar hrest ih =>
    have hparts : parts ≠ [] := cut_iff.mp hrest ▸ alternatives_ne_nil rest
    rw [List.getLast_cons hparts]
    exact (ih hparts).trans ⟨clause ++ ['|'], by simp⟩

/-- The first part stands at its beginning. -/
theorem Cut.head_prefix {cs : List Char} {parts : List (List Char)} (h : Cut cs parts)
    (hne : parts ≠ []) : parts.head hne <+: cs := by
  cases h with
  | last => exact List.prefix_rfl
  | double | single => exact List.prefix_append _ _

/-- A text that ends in a separator or a bar ends in a clause that is empty or ends in a separator. -/
theorem getLast?_lastClause {cs : List Char}
    (h : ∀ c ∈ cs.getLast?, isSeparator c = true ∨ c = '|') :
    ∀ c ∈ (lastClause cs).getLast?, isSeparator c = true := by
  intro c hc
  have hcut := cut_alternatives cs
  obtain ⟨front, hfront⟩ := hcut.getLast_suffix (alternatives_ne_nil cs)
  have hlast : cs.getLast? = some c := by
    rw [← hfront, List.getLast?_append]
    exact (congrArg (Option.or · _) hc).trans rfl
  refine (h c hlast).resolve_right ?_
  rintro rfl
  exact hcut.not_mem_of_mem (List.getLast_mem _) (List.mem_of_getLast? hc)

/-- A text that begins with a separator or a bar begins with a clause that is empty or begins with a
separator. -/
theorem head?_firstClause {cs : List Char} (h : ∀ c ∈ cs.head?, isSeparator c = true ∨ c = '|') :
    ∀ c ∈ (firstClause cs).head?, isSeparator c = true := by
  intro c hc
  have hcut := cut_alternatives cs
  obtain ⟨back, hback⟩ := hcut.head_prefix (alternatives_ne_nil cs)
  have hfirst : cs.head? = some c := by
    rw [← hback, List.head?_append]
    exact (congrArg (Option.or · _) hc).trans rfl
  refine (h c hfirst).resolve_right ?_
  rintro rfl
  exact hcut.not_mem_of_mem (List.head_mem _) (List.mem_of_head? hc)

/-- **What stands between two texts is in one clause with the last one of the first and the first one
of the second**, and the other clauses do not depend on it. -/
theorem alternatives_around (pre post : List Char) : ∃ before behind, ∀ mid, mid ≠ [] → '|' ∉ mid →
    alternatives (pre ++ mid ++ post) =
      before ++ (lastClause pre ++ mid ++ firstClause post) :: behind := by
  refine ⟨(alternatives pre).dropLast, (alternatives post).tail, fun mid hne hbar => ?_⟩
  obtain ⟨init, last, first, rest, hpre, hmid, happend⟩ :=
    alternatives_append pre mid (.inr (head?_ne_of_barless hbar))
  rw [alternatives_of_barless hbar] at hmid
  obtain ⟨rfl, rfl⟩ := List.cons.inj hmid
  -- no bar at either end of `mid` can join one of the text around it
  have hlast : (pre ++ mid).getLast? ≠ some '|' := by
    rw [List.getLast?_append, List.getLast?_eq_some_getLast hne]
    exact fun h => hbar (Option.some.inj h ▸ List.getLast_mem hne)
  obtain ⟨init', last', first, rest, hfront, hpost, happend'⟩ :=
    alternatives_append (pre ++ mid) post (.inl hlast)
  rw [happend] at hfront
  obtain ⟨rfl, hsame⟩ := List.append_inj' hfront rfl
  obtain rfl := List.singleton_inj.mp hsame
  rw [happend']
  simp only [lastClause, firstClause, hpre, hpost]
  simp

/-! ## Pieces -/

/-- **A piece with no hyphen next to it goes into an atom**, of which it is the end; the other tokens
do not depend on it. -/
theorem exists_atom {pending : Option (List Char)} {before behind : List (List Char)}
    (hpending : ∀ sign ∈ pending, standsAlone sign = true)
    (hbefore : before.getLast? ≠ some ['-']) (hbehind : behind.head? ≠ some ['-']) :
    ∃ ts sign, (sign = [] ∨ standsAlone sign = true) ∧
      ∀ piece, ¬ standsAlone piece = true → piece ≠ ['-'] →
        tokensFrom pending (before ++ piece :: behind) =
          ts ++ .atom (sign ++ piece) :: tokensFrom none behind := by
  have hpast {first : List Char} {rest : List (List Char)}
      (h : (first :: rest).getLast? ≠ some ['-']) : rest.getLast? ≠ some ['-'] := by
    intro hlast
    rw [List.getLast?_cons, hlast] at h
    exact h rfl
  fun_induction tokensFrom pending before with
  | case1 => exact ⟨[], [], .inl rfl, fun piece hpiece _ => tokensFrom_atom hpiece hbehind⟩
  | case2 sign =>
    exact ⟨[], sign, .inr (hpending sign rfl), fun piece hpiece _ => tokensFrom_glue hpiece⟩
  | case3 first rest hfirst sign ih =>
    -- a sign still waits: it becomes a token, and the new one waits in its place
    obtain ⟨ts, glued, hglued, htokens⟩ := ih (by simpa using hfirst) (hpast hbefore)
    refine ⟨.atom sign :: ts, glued, hglued, fun piece hpiece hhyphen => ?_⟩
    rw [List.cons_append, tokensFrom, if_pos hfirst, htokens piece hpiece hhyphen, List.cons_append]
  | case4 first rest hfirst ih =>
    -- a sign begins to wait
    obtain ⟨ts, glued, hglued, htokens⟩ := ih (by simpa using hfirst) (hpast hbefore)
    refine ⟨ts, glued, hglued, fun piece hpiece hhyphen => ?_⟩
    rw [List.cons_append, tokensFrom_sign hfirst, htokens piece hpiece hhyphen]
  | case5 first rest hfirst sign ih =>
    -- the sign that waits is glued to this piece, and no longer waits for the one that counts
    obtain ⟨ts, glued, hglued, htokens⟩ := ih (by simp) (hpast hbefore)
    refine ⟨.atom (sign ++ first) :: ts, glued, hglued, fun piece hpiece hhyphen => ?_⟩
    rw [List.cons_append, tokensFrom_glue hfirst, htokens piece hpiece hhyphen, List.cons_append]
  | case6 low hlow high rest ih =>
    -- three pieces go into a range, and what is left still ends with no hyphen
    obtain ⟨ts, glued, hglued, htokens⟩ := ih (by simp) (hpast (hpast (hpast hbefore)))
    refine ⟨.range low high :: ts, glued, hglued, fun piece hpiece hhyphen => ?_⟩
    simp only [List.cons_append]
    rw [tokensFrom_range hlow, htokens piece hpiece hhyphen]
  | case7 low hlow => exact absurd rfl hbefore
  | case8 first hfirst rest hrange hopen ih =>
    -- what follows is no hyphen, be it a piece or the one that counts
    obtain ⟨ts, glued, hglued, htokens⟩ := ih (by simp) (hpast hbefore)
    refine ⟨.atom first :: ts, glued, hglued, fun piece hpiece hhyphen => ?_⟩
    have hhead : (piece :: behind).head? ≠ some ['-'] := fun h => hhyphen (Option.some.inj h)
    rw [List.cons_append, tokensFrom_atom hfirst (head?_append_ne_hyphen hrange hopen hhead),
      htokens piece hpiece hhyphen, List.cons_append]

/-- **Around a hyphen stand two accepted literals**, if all tokens are understood. -/
theorem exists_bounds {pending : Option (List Char)} {before behind : List (List Char)}
    (hpending : ∀ sign ∈ pending, standsAlone sign = true)
    (h : Sound (tokensFrom pending (before ++ ['-'] :: behind))) :
    ∃ low high, before.getLast? = some low ∧ behind.head? = some high ∧
      (Literal.read? low).isSome = true ∧ (Literal.read? high).isSome = true := by
  have hhyphen : ¬ standsAlone ['-'] = true := by decide
  have hfurther {first : List Char} {rest : List (List Char)}
      (h : ∃ low high, rest.getLast? = some low ∧ behind.head? = some high ∧
        (Literal.read? low).isSome = true ∧ (Literal.read? high).isSome = true) :
      ∃ low high, (first :: rest).getLast? = some low ∧ behind.head? = some high ∧
        (Literal.read? low).isSome = true ∧ (Literal.read? high).isSome = true := by
    obtain ⟨low, high, hlow, hrest⟩ := h
    refine ⟨low, high, ?_, hrest⟩
    rw [List.getLast?_cons, hlow]
    rfl
  fun_induction tokensFrom pending before with
  | case1 => exact absurd rfl (head?_ne_hyphen h)
  | case2 sign =>
    rw [List.nil_append, tokensFrom_glue hhyphen] at h
    exact absurd (sound_cons.mp h).1 (Token.problem?_glued_hyphen (hpending sign rfl))
  | case3 first rest hfirst sign ih =>
    rw [List.cons_append, tokensFrom, if_pos hfirst] at h
    exact absurd (sound_cons.mp h).1 (Token.problem?_of_standsAlone (hpending sign rfl))
  | case4 first rest hfirst ih =>
    rw [List.cons_append, tokensFrom_sign hfirst] at h
    exact hfurther (ih (by simpa using hfirst) h)
  | case5 first rest hfirst sign ih =>
    rw [List.cons_append, tokensFrom_glue hfirst] at h
    exact hfurther (ih (by simp) (sound_cons.mp h).2)
  | case6 low hlow high rest ih =>
    simp only [List.cons_append] at h
    rw [tokensFrom_range hlow] at h
    exact hfurther (hfurther (hfurther (ih (by simp) (sound_cons.mp h).2)))
  | case7 low hlow =>
    -- of two hyphens in a row the second one is the end of the range
    simp only [List.cons_append, List.nil_append] at h
    rw [tokensFrom_range hlow, sound_cons, Token.problem?_range_iff] at h
    exact absurd h.1.2 (by decide)
  | case8 first hfirst rest hrange hopen ih =>
    cases rest with
    | nil =>
      rw [List.cons_append, List.nil_append] at h
      cases behind with
      | nil =>
        rw [tokensFrom, if_neg hfirst] at h
        exact absurd (sound_cons.mp h).1 (Token.problem?_openRange first)
      | cons high behind =>
        rw [tokensFrom_range hfirst, sound_cons, Token.problem?_range_iff] at h
        exact ⟨first, high, rfl, rfl, h.1⟩
    | cons next rest =>
      have hhead : (next :: rest ++ ['-'] :: behind).head? ≠ some ['-'] := by
        show (next :: rest).head? ≠ some ['-']
        exact head?_ne_of_noRange hrange hopen
      rw [List.cons_append, tokensFrom_atom hfirst hhead] at h
      exact hfurther (ih (by simp) (sound_cons.mp h).2)

/-! ## Flags -/

/-- A separator is compared as it is, since it is no letter. -/
theorem fold_of_isSeparator {c : Char} (h : isSeparator c = true) : Stability.fold c = c := by
  -- only this letter and the capitals are folded, and neither is a separator
  have hlong : ¬ (c == 'ſ') = true := by
    rw [beq_iff_eq]
    rintro rfl
    exact absurd h (by decide)
  have hupper : ¬ ('A'.val ≤ c.val ∧ c.val ≤ 'Z'.val) := by
    rintro ⟨hlow, hhigh⟩
    have hlow : 65 ≤ c.toNat := UInt32.le_iff_toNat_le.mp hlow
    have hhigh : c.toNat ≤ 90 := UInt32.le_iff_toNat_le.mp hhigh
    rw [isSeparator, Bool.or_eq_true, beq_iff_eq] at h
    rcases h with h | rfl
    · have := Text.toNat_of_isBlank h
      omega
    · exact absurd hlow (by decide)
  rw [Stability.fold, if_neg hlong]
  exact dif_neg hupper

/-- The names of flags are words. -/
theorem plain_of_isName {name : List Char} (h : Stability.isName name = true) :
    ∀ c ∈ name, isSeparator c = false ∧ c ≠ '|' := by
  have hnames : ∀ n ∈ Stability.names, ∀ c ∈ n, isSeparator c = false ∧ c ≠ '|' := by
    have hall : (Stability.names.all fun n => n.all fun c => !isSeparator c && c != '|') = true := by
      decide
    intro n hn c hc
    simpa using List.all_eq_true.mp (List.all_eq_true.mp hall n hn) c hc
  intro c hc
  -- the name may be in any case, but what holds of the folded one holds of it
  have hfold := hnames _ (List.contains_iff_mem.mp h) _ (List.mem_map_of_mem hc)
  constructor
  · rw [Bool.eq_false_iff]
    intro hsep
    rw [fold_of_isSeparator hsep, hsep] at hfold
    cases hfold.1
  · rintro rfl
    exact hfold.2 (by decide)

namespace Token

/-- The flag at the end of an atom without another `@` is dropped. -/
theorem body_flag {text name : List Char} (hne : text ≠ []) (hplain : '@' ∉ text)
    (hname : Stability.isName name = true) : body (text ++ '@' :: name) = body text := by
  have hflag : Stability.drop ('@' :: name) = [] := by
    rw [Stability.drop, hname]
    rfl
  have hdrop := Stability.drop_append hplain ('@' :: name)
  rw [hflag, List.append_nil] at hdrop
  rw [body_of_ne_nil (by rwa [hdrop]), body_of_ne_nil (by rwa [Stability.drop_eq_self hplain]),
    hdrop, Stability.drop_eq_self hplain]

/-- An atom that is understood has no `@` but that of its flag. -/
theorem not_mem_of_problem? {text : List Char} (hunflagged : Stability.drop text = text)
    (hne : text ≠ []) (h : (atom text).problem? = none) : '@' ∉ text := by
  have hbody : body text = text := by rw [body_of_ne_nil (by rwa [hunflagged]), hunflagged]
  rw [problem?_atom_iff, hbody] at h
  obtain ⟨spelling, hspelling, hcs⟩ := Sign.exists_spelling text
  obtain ⟨l, hl⟩ := Option.isSome_iff_exists.mp h.2
  intro hmem
  rw [hcs, List.mem_append] at hmem
  rcases hmem with hmem | hmem
  · exact (Sign.plain_of_mem_spellings _ hspelling '@' hmem).2.2 rfl
  · exact (Literal.plain_of_read? hl '@' hmem).2.2 rfl

/-- **A flag changes nothing of an atom that is understood.** -/
theorem read_flag {text name : List Char} (hunflagged : Stability.drop text = text)
    (hne : text ≠ []) (hname : Stability.isName name = true) (h : (atom text).problem? = none) :
    (atom (text ++ '@' :: name)).problem? = none ∧
    ∀ v, (atom (text ++ '@' :: name)).constraint.admits v = (atom text).constraint.admits v := by
  have hbody := body_flag hne (not_mem_of_problem? hunflagged hne h) hname
  obtain ⟨c, hread⟩ := problem?_eq_none_iff.mp h
  have hflagged : (atom (text ++ '@' :: name)).read = .ok c := by
    show readAtom _ = .ok c
    rw [readAtom_eq_ok_iff, hbody]
    exact readAtom_eq_ok_iff.mp hread
  refine ⟨problem?_eq_none_iff.mpr ⟨c, hflagged⟩, fun v => ?_⟩
  rw [admits_of_read hflagged, admits_of_read hread]

end Token

end Clause

namespace Requirement

open Clause

/-! ## Requirements -/

/-- A piece of a requirement that ends in a literal, between `pre` and `post`: it is neither a lone
sign nor the hyphen of a range. -/
structure IsOperand (pre piece post : List Char) : Prop where
  begins : ∀ c ∈ pre.getLast?, isSeparator c = true ∨ c = '|'
  ends : ∀ c ∈ post.head?, isSeparator c = true ∨ c = '|'
  filled : piece ≠ []
  plain : ∀ c ∈ piece, isSeparator c = false ∧ c ≠ '|'
  noSign : ¬ Sign.standsAlone piece = true
  noHyphen : piece ≠ ['-']

/-- The piece between the two texts stands next to a hyphen, in the same clause. -/
def NextToHyphen (pre post : List Char) : Prop :=
  (pieces (lastClause pre)).getLast? = some ['-'] ∨ (pieces (firstClause post)).head? = some ['-']

namespace IsOperand

variable {pre piece post name : List Char}

/-- The clause of the piece has the pieces of the two sides and this one between them. -/
theorem pieces_eq (h : IsOperand pre piece post) :
    pieces (lastClause pre ++ piece ++ firstClause post) =
      pieces (lastClause pre) ++ piece :: pieces (firstClause post) :=
  pieces_surrounded (getLast?_lastClause h.begins) h.filled (fun c hc => (h.plain c hc).1)
    (head?_firstClause h.ends)

theorem tokens_ne_nil (h : IsOperand pre piece post) :
    tokens (lastClause pre ++ piece ++ firstClause post) ≠ [] := by
  rw [tokens, h.pieces_eq, Ne, tokensFrom_eq_nil_iff]
  simp

/-- With a flag behind it the piece is still one that ends in a literal. -/
theorem flagged (h : IsOperand pre piece post) (hname : Stability.isName name = true) :
    IsOperand pre (piece ++ '@' :: name) post where
  begins := h.begins
  ends := h.ends
  filled := by simp
  plain := by
    rw [List.forall_mem_append, List.forall_mem_cons]
    exact ⟨h.plain, by decide, plain_of_isName hname⟩
  noSign := by
    -- no sign has an at-sign in it, and neither has a hyphen
    intro halone
    exact Sign.not_mem_of_standsAlone halone (by simp)
  noHyphen := by
    intro hhyphen
    have hmem : '@' ∈ ['-'] := by
      rw [← hhyphen]
      simp
    exact absurd hmem (by decide)

/-- A flagged piece is no literal. -/
theorem read?_flagged : ¬ (Literal.read? (piece ++ '@' :: name)).isSome = true := by
  intro hread
  obtain ⟨l, hl⟩ := Option.isSome_iff_exists.mp hread
  exact (Literal.plain_of_read? hl '@' (by simp)).2.2 rfl

/-- **Next to a hyphen** a flagged piece leaves some token that is not understood. -/
theorem not_sound_flagged (h : IsOperand pre piece post) (hname : Stability.isName name = true)
    (hhyphen : NextToHyphen pre post) :
    ¬ Sound (tokens (lastClause pre ++ (piece ++ '@' :: name) ++ firstClause post)) := by
  rw [tokens, (h.flagged hname).pieces_eq]
  intro hsound
  rcases hhyphen with hbefore | hbehind
  · obtain ⟨before, hbefore⟩ := List.getLast?_eq_some_iff.mp hbefore
    -- the flagged piece would be the upper bound
    rw [hbefore, List.append_assoc, List.singleton_append] at hsound
    obtain ⟨-, high, -, hhead, -, hread⟩ := exists_bounds (by simp) hsound
    rw [← Option.some.inj hhead] at hread
    exact read?_flagged hread
  · obtain ⟨behind, hbehind⟩ := List.head?_eq_some_iff.mp hbehind
    -- the flagged piece would be the lower bound
    rw [hbehind, ← List.singleton_append, ← List.append_assoc] at hsound
    obtain ⟨low, -, hlast, -, hread, -⟩ := exists_bounds (by simp) hsound
    rw [List.getLast?_concat] at hlast
    rw [← Option.some.inj hlast] at hread
    exact read?_flagged hread

/-- **Away from hyphens** the flag changes nothing of the clause. -/
theorem sound_flagged (h : IsOperand pre piece post) (hunflagged : Stability.drop piece = piece)
    (hname : Stability.isName name = true) (hhyphen : ¬ NextToHyphen pre post)
    (hsound : Sound (tokens (lastClause pre ++ piece ++ firstClause post))) :
    Sound (tokens (lastClause pre ++ (piece ++ '@' :: name) ++ firstClause post)) ∧
    ∀ v, (Clause.constraint
        (lastClause pre ++ (piece ++ '@' :: name) ++ firstClause post)).admits v =
      (Clause.constraint (lastClause pre ++ piece ++ firstClause post)).admits v := by
  rw [NextToHyphen, not_or] at hhyphen
  have hflagged := h.flagged hname
  have hnone : ∀ sign ∈ (none : Option (List Char)), Sign.standsAlone sign = true := by simp
  obtain ⟨ts, sign, hsign, htokens⟩ := exists_atom hnone hhyphen.1 hhyphen.2
  have hplain : tokens (lastClause pre ++ piece ++ firstClause post) =
      ts ++ .atom (sign ++ piece) :: tokensFrom none (pieces (firstClause post)) := by
    rw [tokens, h.pieces_eq, htokens piece h.noSign h.noHyphen]
  have hother : tokens (lastClause pre ++ (piece ++ '@' :: name) ++ firstClause post) =
      ts ++ .atom (sign ++ piece ++ '@' :: name) ::
        tokensFrom none (pieces (firstClause post)) := by
    rw [tokens, hflagged.pieces_eq, htokens _ hflagged.noSign hflagged.noHyphen, List.append_assoc]
  -- the two clauses differ in one atom, so it is enough to compare this one
  rw [hplain, sound_append, sound_cons] at hsound
  have hat : '@' ∉ sign := by
    rcases hsign with rfl | halone
    · exact List.not_mem_nil
    · exact Sign.not_mem_of_standsAlone halone
  have hdrop : Stability.drop (sign ++ piece) = sign ++ piece := by
    rw [Stability.drop_append hat, hunflagged]
  have hne : sign ++ piece ≠ [] := List.append_ne_nil_of_right_ne_nil _ h.filled
  obtain ⟨hproblem, hadmits⟩ := Token.read_flag hdrop hne hname hsound.2.1
  constructor
  · rw [hother, sound_append, sound_cons]
    exact ⟨hsound.1, hproblem, hsound.2.2⟩
  · intro v
    rw [Bool.eq_iff_iff, admits_constraint, admits_constraint, hother, hplain]
    simp only [List.forall_mem_append, List.forall_mem_cons, hadmits, ne_eq, List.append_eq_nil_iff,
      reduceCtorEq, and_false, not_false_eq_true, true_and]

end IsOperand

theorem IsOperand.not_isBlank {pre piece post : List Char} {text : String}
    (h : IsOperand pre piece post) (htext : text.toList = pre ++ piece ++ post) :
    ¬ IsBlank text := by
  intro hblank
  obtain ⟨c, hc⟩ := List.exists_mem_of_ne_nil piece h.filled
  have hsep : isSeparator c = true := isSeparator_of_isBlank (hblank c (by simp [htext, hc]))
  rw [(h.plain c hc).1] at hsep
  cases hsep

/-- **A flag says nothing, but not every literal can have one.**  In a requirement that is read
without a problem, a flag behind any literal without one leaves that so, and leaves what is
admitted, unless the literal stands next to the hyphen of a range: then the flag sinks the clause
of the range. -/
theorem flag_ignored_unless_bound {text flagged : String} {pre piece post name : List Char}
    (htext : text.toList = pre ++ piece ++ post) (h : IsOperand pre piece post)
    (hunflagged : Stability.drop piece = piece) (hname : Stability.isName name = true)
    (hflagged : flagged.toList = pre ++ (piece ++ '@' :: name) ++ post)
    (hsound : (ofText text).problems = []) :
    (¬ NextToHyphen pre post → Means flagged fun v => (ofText text).admits v = true) ∧
    (NextToHyphen pre post → ∃ clause ∈ alternatives flagged.toList,
      clause = lastClause pre ++ (piece ++ '@' :: name) ++ firstClause post ∧
        Sinks flagged clause) := by
  have hother := h.flagged hname
  obtain ⟨before, behind, haround⟩ := alternatives_around pre post
  have hclauses : alternatives text.toList =
      before ++ (lastClause pre ++ piece ++ firstClause post) :: behind := by
    rw [htext]
    exact haround piece h.filled fun hbar => (h.plain '|' hbar).2 rfl
  have hflaggedClauses : alternatives flagged.toList =
      before ++ (lastClause pre ++ (piece ++ '@' :: name) ++ firstClause post) :: behind := by
    rw [hflagged]
    exact haround _ hother.filled fun hbar => (hother.plain '|' hbar).2 rfl
  have hblank : ¬ IsBlank text := h.not_isBlank htext
  have hflaggedBlank : ¬ IsBlank flagged := hother.not_isBlank hflagged
  rw [problems_ofText_eq_nil_iff hblank, hclauses, List.forall_mem_append,
    List.forall_mem_cons] at hsound
  obtain ⟨hbefore, ⟨-, hclause⟩, hbehind⟩ := hsound
  constructor
  · intro hhyphen
    obtain ⟨hsound, hadmits⟩ := h.sound_flagged hunflagged hname hhyphen hclause
    constructor
    · rw [problems_ofText_eq_nil_iff hflaggedBlank, hflaggedClauses, List.forall_mem_append,
        List.forall_mem_cons]
      exact ⟨hbefore, ⟨hother.tokens_ne_nil, hsound⟩, hbehind⟩
    · intro v
      show (ofText flagged).admits v = true ↔ (ofText text).admits v = true
      rw [admits_ofText hflaggedBlank, admits_ofText hblank, hclauses, hflaggedClauses,
        List.any_append, List.any_append, List.any_cons, List.any_cons, hadmits v]
  · intro hhyphen
    have hmem : lastClause pre ++ (piece ++ '@' :: name) ++ firstClause post ∈
        alternatives flagged.toList := by
      rw [hflaggedClauses]
      simp
    refine ⟨_, hmem, rfl, ?_⟩
    rw [sinks_iff hmem hother.tokens_ne_nil]
    exact h.not_sound_flagged hname hhyphen

/-- A flag in small and capital letters, behind a number that a lone sign stands before, in the
second of three clauses. -/
theorem flag_ignored_unless_bound_mixed :
    let text := "5 - 6 || > 8.0, <9|7"
    let flagged := "5 - 6 || > 8.0@StaBle, <9|7"
    IsOperand "5 - 6 || > ".toList "8.0".toList ", <9|7".toList ∧
    Stability.isName "StaBle".toList = true ∧ (ofText text).problems = [] ∧
    Means flagged fun v => (ofText text).admits v = true := by
  have hoperand : IsOperand "5 - 6 || > ".toList "8.0".toList ", <9|7".toList := by
    refine ⟨fun c hc => ?_, fun c hc => ?_, by decide, ?_, by decide, by decide⟩
    · obtain rfl : ' ' = c := Option.some.inj hc
      decide
    · obtain rfl : ',' = c := Option.some.inj hc
      decide
    · simp [isSeparator, Text.isBlank]
  have hname : Stability.isName "StaBle".toList = true := by decide +kernel
  have hsound : (ofText "5 - 6 || > 8.0, <9|7").problems = [] := by decide +kernel
  have hhyphen : ¬ NextToHyphen "5 - 6 || > ".toList ", <9|7".toList := by
    unfold NextToHyphen
    decide +kernel
  refine ⟨hoperand, hname, hsound, ?_⟩
  exact (flag_ignored_unless_bound (by decide +kernel) hoperand (by decide +kernel) hname
    (by decide +kernel) hsound).1 hhyphen

/-- On either side of a hyphen a flag leaves nothing of the range. -/
theorem flag_spoils_bound :
    (ofText "7.4 - 8.2").problems = [] ∧ (ofText "7.4 - 8.2").satisfiedBy "8.1" = true ∧
    ∀ flagged ∈ ["7.4@dev - 8.2", "7.4 - 8.2@dev"],
      (ofText flagged).problems ≠ [] ∧ (ofText flagged).satisfiedBy "8.1" = false := by
  refine ⟨?_, ?_, ?_⟩ <;> decide +kernel

end Requirement
end ReleaseMatrix
