/-
  Lone signs — which piece a sign that stands alone takes for its literal.

  A sign waits for the next piece and is glued to it as text.  Blanks and commas are all the same to
  pieces, and the two texts that are glued may run together into a longer sign:

      >  8.1      is      >8.1            as it should be
      > ,8.1      is      >8.1            over a comma
      > =8.1      is      >=8.1           another sign than either
      > >8.1      is      >>8.1           no literal

  So a clause with a lone sign sinks when the clause ends behind it, when another lone sign follows,
  and when a piece with a sign of its own follows, but for the four pairs of `fusions`.

  1. **Gluing** — `problem?_glued_iff`, by where the sign of the glued text ends.
  2. **Clauses** — `sound_loneSign_iff`, what stands before and behind the two is read on its own.
  3. **Requirements** — `sinks_loneSign`.
-/
import ReleaseMatrix.Proofs.Requirement.Conjunction

namespace ReleaseMatrix

/-- What is left of a flagged text begins as the text does. -/
theorem Stability.exists_of_drop_eq_cons {cs rest : List Char} {c : Char}
    (h : drop cs = c :: rest) : ∃ tail, cs = c :: tail ∧ drop tail = rest := by
  cases cs with
  | nil => cases h
  | cons d tail =>
    rw [drop] at h
    split at h
    case isTrue => cases h
    case isFalse =>
      injection h with hd hrest
      exact ⟨tail, by rw [hd], hrest⟩

namespace Clause

open Sign (standsAlone spellings)

/-! ## Gluing -/

/-- The signs that a character behind them makes another sign, which is not refused. -/
def fusions : List (List Char × Char) := [(['<'], '>'), (['<'], '='), (['>'], '='), (['='], '=')]

/-- The piece, without its flag, is what the sign needs: an accepted literal, or the character that
makes another sign of it with an accepted literal behind. -/
def Completes (sign piece : List Char) : Prop :=
  (sign ≠ ['~', '>'] ∧ (Literal.read? (Stability.drop piece)).isSome = true) ∨
  ∃ c rest, piece = c :: rest ∧ (sign, c) ∈ fusions ∧
    (Literal.read? (Stability.drop rest)).isSome = true

/-- The characters of signs are in no literal. -/
theorem not_isWritten_of_mem_spelling :
    ∀ p ∈ spellings, ∀ c ∈ p.1.toList, Literal.isWritten c = false := by
  have hall : (spellings.all fun p => p.1.toList.all fun c => !Literal.isWritten c) = true := by
    decide
  intro p hp c hc
  have hc := List.all_eq_true.mp (List.all_eq_true.mp hall p hp) c hc
  rwa [Bool.not_eq_true'] at hc

/-- Of a sign and a longer one that begins with it, the longer one is refused or has one character
more. -/
theorem fusion_of_prefix : ∀ p ∈ spellings, ∀ q ∈ spellings, p.1 ≠ "" →
    p.1.toList <+: q.1.toList → q.2 ≠ .tildeArrow →
      p.1 = q.1 ∨ ∃ e ∈ fusions, e.1 = p.1.toList ∧ q.1.toList = p.1.toList ++ [e.2] := by
  decide

theorem exists_spelling_of_fusion :
    ∀ e ∈ fusions, ∃ p ∈ spellings, p.1.toList = e.1 ++ [e.2] ∧ p.2 ≠ .tildeArrow := by
  decide

theorem eq_of_tildeArrow : ∀ p ∈ spellings, p.2 = .tildeArrow → p.1.toList = ['~', '>'] := by
  decide

/-- Where the sign of a glued text ends, if a literal is left: with the lone sign, or one character
into what is glued to it. -/
theorem ends_of_split {sign cs literal : List Char} {glued : Sign} {l : Literal}
    (hsign : standsAlone sign = true) (hsplit : Sign.split (sign ++ cs) = (glued, literal))
    (harrow : glued ≠ .tildeArrow) (hread : Literal.read? literal = some l) :
    (sign ≠ ['~', '>'] ∧ literal = cs) ∨ ∃ c, (sign, c) ∈ fusions ∧ cs = c :: literal := by
  obtain ⟨⟨name, lone⟩, hlone, hname, rfl⟩ := Sign.exists_spelling_of_standsAlone hsign
  obtain ⟨spelling, hspelling, hcs⟩ := Sign.exists_spelling (name.toList ++ cs)
  simp only [hsplit] at hspelling hcs
  have hsame (h : name = spelling) : (name.toList ≠ ['~', '>'] ∧ literal = cs) := by
    subst h
    refine ⟨fun hrefused => harrow ?_, (List.append_cancel_left hcs).symm⟩
    obtain rfl : name = "~>" := String.toList_inj.mp hrefused
    simpa [spellings] using hspelling
  rcases List.append_eq_append_iff.mp hcs with ⟨more, hlonger, hrest⟩ | ⟨more, hshorter, hrest⟩
  · rcases fusion_of_prefix _ hlone _ hspelling hname ⟨more, hlonger.symm⟩ harrow with
      h | ⟨⟨short, c⟩, hfusion, rfl, hone⟩
    · exact .inl (hsame h)
    · -- the longer sign has one character more, the first one of what is glued
      rw [hlonger] at hone
      obtain rfl : more = [c] := List.append_cancel_left hone
      exact .inr ⟨c, hfusion, hrest⟩
  · -- a shorter sign would leave a literal that begins with a character of a sign
    cases more with
    | nil => exact .inl (hsame (String.toList_inj.mp (by simpa using hshorter)))
    | cons c more =>
      have hmem : c ∈ name.toList := by
        rw [hshorter]
        simp
      have hwritten : Literal.isWritten c = true :=
        Literal.isWritten_of_read? hread c (by rw [hrest]; exact List.mem_cons_self)
      rw [not_isWritten_of_mem_spelling _ hlone c hmem] at hwritten
      cases hwritten

/-- Signs and flags do not meet: gluing does not change what the flag of a piece is. -/
theorem Token.body_glued {sign : List Char} (hsign : standsAlone sign = true) (piece : List Char) :
    body (sign ++ piece) = sign ++ Stability.drop piece := by
  have hdrop := Stability.drop_append (Sign.not_mem_of_standsAlone hsign) piece
  rw [body_of_ne_nil, hdrop]
  rw [hdrop]
  exact List.append_ne_nil_of_left_ne_nil (Sign.ne_nil_of_standsAlone hsign) _

/-- **A lone sign and the piece that it is glued to are understood iff the piece completes it.** -/
theorem Token.problem?_glued_iff {sign piece : List Char} (hsign : standsAlone sign = true) :
    (atom (sign ++ piece)).problem? = none ↔ Completes sign piece := by
  rw [problem?_atom_iff, body_glued hsign]
  constructor
  · rcases hsplit : Sign.split (sign ++ Stability.drop piece) with ⟨glued, literal⟩
    rintro ⟨harrow, hread⟩
    obtain ⟨l, hl⟩ := Option.isSome_iff_exists.mp hread
    rcases ends_of_split hsign hsplit harrow hl with ⟨hrefused, rfl⟩ | ⟨c, hfusion, hcs⟩
    · exact .inl ⟨hrefused, hread⟩
    · obtain ⟨rest, rfl, rfl⟩ := Stability.exists_of_drop_eq_cons hcs
      exact .inr ⟨c, rest, rfl, hfusion, hread⟩
  · rintro (⟨hrefused, hread⟩ | ⟨c, rest, rfl, hfusion, hread⟩)
    · obtain ⟨l, hl⟩ := Option.isSome_iff_exists.mp hread
      obtain ⟨p, hp, -, rfl⟩ := Sign.exists_spelling_of_standsAlone hsign
      rw [Sign.split_append_literal hl p hp]
      exact ⟨fun harrow => hrefused (eq_of_tildeArrow p hp harrow), hread⟩
    · -- the two make a sign of their own, which the literal stands behind
      obtain ⟨l, hl⟩ := Option.isSome_iff_exists.mp hread
      obtain ⟨p, hp, hspelling, harrow⟩ := exists_spelling_of_fusion _ hfusion
      have hmem : c ∈ p.1.toList := by
        rw [hspelling]
        simp
      have hflag : '@' ∉ [c] := fun h =>
        (Sign.plain_of_mem_spellings p hp c hmem).2.2 (List.mem_singleton.mp h).symm
      have hdrop : Stability.drop (c :: rest) = c :: Stability.drop rest :=
        Stability.drop_append hflag rest
      rw [hdrop, ← List.singleton_append, ← List.append_assoc, ← hspelling,
        Sign.split_append_literal hl p hp]
      exact ⟨harrow, hread⟩

/-- A piece with an accepted literal has no sign of its own. -/
theorem split_eq_self_of_read {piece : List Char}
    (hread : (Literal.read? (Stability.drop piece)).isSome = true) :
    (Sign.split piece).2 = piece := by
  obtain ⟨l, hl⟩ := Option.isSome_iff_exists.mp hread
  obtain ⟨c, rest, hcons⟩ := List.exists_cons_of_ne_nil (Literal.ne_nil_of_read? hl)
  have hc : Literal.isWritten c = true :=
    Literal.isWritten_of_read? hl c (by rw [hcons]; exact List.mem_cons_self)
  obtain ⟨tail, rfl, -⟩ := Stability.exists_of_drop_eq_cons hcons
  have hsplit := Sign.split_append (Literal.not_mem_of_isWritten hc) tail ("", .compare .equal)
    (by decide)
  exact congrArg Prod.snd hsplit

/-! ## Clauses -/

/-- Two lone signs in a row are no longer sign with a literal. -/
theorem not_completes_of_standsAlone {sign piece : List Char} (hsign : standsAlone sign = true)
    (hpiece : standsAlone piece = true) : ¬ Completes sign piece := by
  have hall : ∀ p ∈ spellings, ∀ q ∈ spellings, p.1 ≠ "" → q.1 ≠ "" →
      (Token.atom (p.1.toList ++ q.1.toList)).problem? ≠ none := by
    decide
  rw [← Token.problem?_glued_iff hsign]
  obtain ⟨p, hp, hpne, rfl⟩ := Sign.exists_spelling_of_standsAlone hsign
  obtain ⟨q, hq, hqne, rfl⟩ := Sign.exists_spelling_of_standsAlone hpiece
  exact hall p hp q hq hpne hqne

/-- A range does not end in a lone sign. -/
theorem Token.problem?_range_sign (low : List Char) {sign : List Char}
    (hsign : standsAlone sign = true) : (range low sign).problem? ≠ none := by
  have hall : ∀ p ∈ spellings, p.1 ≠ "" → Literal.read? p.1.toList = none := by decide
  obtain ⟨p, hp, hne, rfl⟩ := Sign.exists_spelling_of_standsAlone hsign
  rw [Ne, problem?_range_iff, hall p hp hne]
  exact fun h => Bool.false_ne_true h.2

/-- A hyphen is no sign. -/
theorem head?_ne_of_standsAlone {sign : List Char} (hsign : standsAlone sign = true)
    (rest : List (List Char)) : (sign :: rest).head? ≠ some ['-'] := by
  intro h
  rw [Option.some.inj h] at hsign
  exact absurd hsign (by decide)

/-- The pieces in front of a lone sign are understood if all are: what waits or reaches for more
among them gets no literal from the sign. -/
theorem sound_of_append_sign {pending : Option (List Char)} {ps rest : List (List Char)}
    {sign : List Char} (hsign : standsAlone sign = true)
    (hpending : ∀ waiting ∈ pending, standsAlone waiting = true)
    (h : Sound (tokensFrom pending (ps ++ sign :: rest))) : Sound (tokensFrom pending ps) := by
  have hhyphen : (sign :: rest).head? ≠ some ['-'] := head?_ne_of_standsAlone hsign rest
  fun_induction tokensFrom pending ps with
  | case1 => exact sound_nil
  | case2 waiting =>
    -- the sign that waits becomes an atom of its own
    rw [List.nil_append, tokensFrom, if_pos hsign] at h
    exact absurd (sound_cons.mp h).1 (Token.problem?_of_standsAlone (hpending waiting rfl))
  | case3 piece behind hpiece waiting ih =>
    rw [List.cons_append, tokensFrom, if_pos hpiece] at h
    exact absurd (sound_cons.mp h).1 (Token.problem?_of_standsAlone (hpending waiting rfl))
  | case4 piece behind hpiece ih =>
    rw [List.cons_append, tokensFrom_sign hpiece] at h
    refine ih (fun waiting hmem => ?_) h
    rw [Option.mem_some.mp hmem] at hpiece
    exact hpiece
  | case5 piece behind hpiece waiting ih =>
    rw [List.cons_append, tokensFrom_glue hpiece] at h
    obtain ⟨hfirst, hbehind⟩ := sound_cons.mp h
    exact sound_cons.mpr ⟨hfirst, ih (by simp) hbehind⟩
  | case6 piece hpiece high behind ih =>
    simp only [List.cons_append] at h
    rw [tokensFrom_range hpiece] at h
    obtain ⟨hfirst, hbehind⟩ := sound_cons.mp h
    exact sound_cons.mpr ⟨hfirst, ih (by simp) hbehind⟩
  | case7 piece hpiece =>
    -- the hyphen at the end reaches for the sign
    simp only [List.cons_append, List.nil_append] at h
    rw [tokensFrom_range hpiece] at h
    exact absurd (sound_cons.mp h).1 (Token.problem?_range_sign piece hsign)
  | case8 piece hpiece behind hrange hopen ih =>
    rw [List.cons_append, tokensFrom_atom hpiece (head?_append_ne_hyphen hrange hopen hhyphen)] at h
    obtain ⟨hfirst, hbehind⟩ := sound_cons.mp h
    exact sound_cons.mpr ⟨hfirst, ih (by simp) hbehind⟩

/-- A sign that waits is understood iff the next piece completes it. -/
theorem sound_waiting_iff {sign : List Char} {ps : List (List Char)}
    (hsign : standsAlone sign = true) : Sound (tokensFrom (some sign) ps) ↔
      ∃ next rest, ps = next :: rest ∧ Completes sign next ∧ Sound (tokensFrom none rest) := by
  constructor
  · intro h
    cases ps with
    | nil => exact absurd (sound_cons.mp h).1 (Token.problem?_of_standsAlone hsign)
    | cons next rest =>
      -- a second sign leaves the first one without a literal
      by_cases hnext : standsAlone next = true
      · rw [tokensFrom, if_pos hnext] at h
        exact absurd (sound_cons.mp h).1 (Token.problem?_of_standsAlone hsign)
      · rw [tokensFrom_glue hnext, sound_cons, Token.problem?_glued_iff hsign] at h
        exact ⟨next, rest, rfl, h⟩
  · rintro ⟨next, rest, rfl, hnext, hrest⟩
    have halone : ¬ standsAlone next = true := fun halone =>
      not_completes_of_standsAlone hsign halone hnext
    rw [tokensFrom_glue halone, sound_cons, Token.problem?_glued_iff hsign]
    exact ⟨hnext, hrest⟩

/-- **A clause around a lone sign**: the pieces before it, the piece behind it, and the others are
each understood without the rest. -/
theorem sound_loneSign_iff {ps rest : List (List Char)} {sign : List Char}
    (hsign : standsAlone sign = true) : Sound (tokensFrom none (ps ++ sign :: rest)) ↔
      Sound (tokensFrom none ps) ∧ Sound (tokensFrom (some sign) rest) := by
  have happend (hps : Sound (tokensFrom none ps)) : tokensFrom none (ps ++ sign :: rest) =
      tokensFrom none ps ++ tokensFrom (some sign) rest := by
    rw [tokensFrom_append (by simp) hps (head?_ne_of_standsAlone hsign rest),
      tokensFrom_sign hsign]
  constructor
  · intro h
    have hps := sound_of_append_sign hsign (by simp) h
    rw [happend hps] at h
    exact sound_append.mp h
  · rintro ⟨hps, hrest⟩
    rw [happend hps]
    exact sound_append.mpr ⟨hps, hrest⟩

end Clause

namespace Requirement

open Clause

/-! ## Requirements -/

/-- The clause is cut around a sign that stands alone: `left` is what stands before it, and `right`
what stands behind it and the gap that follows it. -/
structure LoneSign (clause left sign right : List Char) : Prop where
  alone : Sign.standsAlone sign = true
  /-- The sign is no end of something else. -/
  apart : ∀ c ∈ left.getLast?, isSeparator c = true
  /-- Any gap of blanks and commas, and some gap if anything follows. -/
  gap : ∃ gap, clause = left ++ sign ++ (gap ++ right) ∧
    (∀ c ∈ gap, Text.isBlank c = true ∨ c = ',') ∧ (gap = [] → right = [])

/-- A sign that stands alone is a piece of its own. -/
theorem LoneSign.pieces_eq {clause left sign right : List Char}
    (h : LoneSign clause left sign right) :
    pieces clause = pieces left ++ sign :: pieces right := by
  obtain ⟨gap, rfl, hgap, hfilled⟩ := h.gap
  have hseparators : ∀ c ∈ gap, isSeparator c = true := fun c hc => by
    simpa [isSeparator] using hgap c hc
  -- behind the sign is a separator or nothing
  have hhead : ∀ c ∈ (gap ++ right).head?, isSeparator c = true := by
    cases gap with
    | nil => simp [hfilled rfl]
    | cons d gap =>
      intro c hc
      rw [← Option.some.inj hc]
      exact hseparators d List.mem_cons_self
  have hplain : ∀ c ∈ sign, isSeparator c = false := fun c hc =>
    (Sign.plain_of_standsAlone h.alone c hc).1
  rw [pieces_surrounded h.apart (Sign.ne_nil_of_standsAlone h.alone) hplain hhead,
    pieces_gap_append hseparators]

/-- **What a sign that stands alone is glued to.**  Its clause is read without a problem iff what
stands before it is, the next piece completes it, and what stands behind that piece is read so too;
whether there is a comma in the gap makes no difference.  Otherwise the clause sinks.  So it sinks
if nothing follows the sign, or another lone sign does, or a piece that begins with a sign, unless
the first character of this one makes another sign of the two. -/
theorem sinks_loneSign {text : String} {clause left sign right : List Char}
    (hmem : clause ∈ alternatives text.toList) (h : LoneSign clause left sign right) :
    (Sinks text clause ↔ ¬ (Sound (tokens left) ∧ ∃ next rest, pieces right = next :: rest ∧
      Completes sign next ∧ Sound (tokensFrom none rest))) ∧
    (pieces right = [] → Sinks text clause) ∧
    ∀ next rest, pieces right = next :: rest →
      (Sign.standsAlone next = true → Sinks text clause) ∧
      ((Sign.split next).2 ≠ next → (∀ c ∈ next.head?, (sign, c) ∉ fusions) →
        Sinks text clause) := by
  have htokens : tokens clause = tokensFrom none (pieces left ++ sign :: pieces right) := by
    rw [tokens, h.pieces_eq]
  have hne : tokens clause ≠ [] := by
    rw [htokens, Ne, tokensFrom_eq_nil_iff]
    simp
  have hsinks : Sinks text clause ↔ ¬ (Sound (tokens left) ∧ ∃ next rest,
      pieces right = next :: rest ∧ Completes sign next ∧ Sound (tokensFrom none rest)) := by
    rw [sinks_iff hmem hne, htokens, sound_loneSign_iff h.alone, sound_waiting_iff h.alone]
    rfl
  refine ⟨hsinks, ?_, ?_⟩
  · rintro hnil
    rw [hsinks]
    rintro ⟨-, next, rest, hcons, -⟩
    rw [hnil] at hcons
    cases hcons
  · intro next rest hnext
    -- there is but one next piece, so one that completes nothing decides
    have hcompletes (hbad : ¬ Completes sign next) : Sinks text clause := by
      rw [hsinks]
      rintro ⟨-, piece, behind, hcons, hgood, -⟩
      rw [hnext] at hcons
      injection hcons with hpiece
      exact hbad (hpiece ▸ hgood)
    refine ⟨fun halone => hcompletes (not_completes_of_standsAlone h.alone halone), ?_⟩
    intro hbegins hfusions
    refine hcompletes ?_
    rintro (⟨-, hread⟩ | ⟨c, tail, rfl, hfusion, -⟩)
    · exact hbegins (split_eq_self_of_read hread)
    · exact hfusions c rfl hfusion

/-- A sign and, over a comma, a piece with a sign of its own: the clause sinks, the other does not. -/
theorem sinks_loneSign_doubled :
    " 7 > , >=8.1".toList ∈ alternatives "<7 || 7 > , >=8.1".toList ∧
    LoneSign " 7 > , >=8.1".toList " 7 ".toList ">".toList ">=8.1".toList ∧
    Sinks "<7 || 7 > , >=8.1" " 7 > , >=8.1".toList := by
  have hmem : " 7 > , >=8.1".toList ∈ alternatives "<7 || 7 > , >=8.1".toList := by decide
  have hapart : ∀ c ∈ " 7 ".toList.getLast?, isSeparator c = true := by
    intro c hc
    obtain rfl : ' ' = c := Option.some.inj hc
    decide
  have hlone : LoneSign " 7 > , >=8.1".toList " 7 ".toList ">".toList ">=8.1".toList :=
    ⟨by decide, hapart, " , ".toList, by decide, by simp [Text.isBlank], by decide⟩
  have hbegins : ∀ c ∈ ">=8.1".toList.head?, (">".toList, c) ∉ fusions := by
    intro c hc
    obtain rfl : '>' = c := Option.some.inj hc
    decide
  refine ⟨hmem, hlone, ?_⟩
  exact ((sinks_loneSign hmem hlone).2.2 ">=8.1".toList [] (by decide)).2 (by decide) hbegins

/-- Neither a sign in front of the next piece nor a comma keeps a sign from it. -/
theorem loneSign_runs_on :
    LoneSign "> =8.1".toList [] ">".toList "=8.1".toList ∧
    (ofText "> =8.1").problems = [] ∧ (ofText "> =8.1").satisfiedBy "8.1" = true ∧
    LoneSign ">=,8.1".toList [] ">=".toList "8.1".toList ∧
    (ofText ">=,8.1").problems = [] ∧ (ofText ">=,8.1").satisfiedBy "8.2" = true := by
  refine ⟨⟨by decide, by simp, " ".toList, by decide, by simp [Text.isBlank], by decide⟩, ?_, ?_,
    ⟨by decide, by simp, ",".toList, by decide, by simp, by decide⟩, ?_, ?_⟩ <;> decide +kernel

end Requirement
end ReleaseMatrix
