/-
  Atoms — a sign and an accepted literal behind it are one atom, and are read as such.

  Literals are written in characters that no other part of a requirement uses (`isWritten`).  So in
  a sign with a literal behind it the sign ends where it ends (`Sign.split_append`), no flag is
  dropped, nothing is cut, and the whole text is one clause of one token:

      text = sign ++ literal      means      sign.constraint? of the value of literal

  1. **Reading** — `means_of_spelling`, for every spelling of every sign but `~>`.
  2. **Comparisons** — `means_comparison`, by the operator and the cell of the literal.
-/
import ReleaseMatrix.Proofs.Literal.Cell
import ReleaseMatrix.Proofs.Requirement.Meaning

namespace ReleaseMatrix

/-! ## Characters that no literal holds -/

namespace Literal

/-- No separator occurs in literals. -/
theorem isSeparator_eq_false_of_isWritten {c : Char} (h : isWritten c = true) :
    Clause.isSeparator c = false := by
  rw [Bool.eq_false_iff]
  intro hsep
  rw [Clause.isSeparator, Bool.or_eq_true, beq_iff_eq] at hsep
  rcases hsep with hblank | rfl
  · have hplace := Text.toNat_of_isBlank hblank
    simp only [isWritten, Text.isDigit_eq_false_of_isBlank hblank, isMark, Bool.or_eq_true,
      beq_iff_eq, Bool.false_eq_true, false_or] at h
    rcases h with (((halnum | rfl) | rfl) | rfl) | rfl
    · have := Text.toNat_of_isAlphanum halnum
      omega
    all_goals exact absurd hplace (by decide)
  · exact absurd h (by decide)

/-- The bar, the flag's `@`, and the characters of signs. -/
theorem not_mem_of_isWritten {c : Char} (h : isWritten c = true) :
    c ∉ ['|', '@', '<', '>', '=', '!', '~', '^'] := by
  intro hmem
  have hnone : ['|', '@', '<', '>', '=', '!', '~', '^'].all (fun d => !isWritten d) = true := by
    decide
  have hc := List.all_eq_true.mp hnone c hmem
  rw [h] at hc
  cases hc

/-- An accepted literal holds no separator, no bar and no flag. -/
theorem plain_of_read? {cs : List Char} {l : Literal} (h : read? cs = some l) :
    ∀ c ∈ cs, Clause.isSeparator c = false ∧ c ≠ '|' ∧ c ≠ '@' := by
  intro c hc
  have hwritten := isWritten_of_read? h c hc
  have hother := not_mem_of_isWritten hwritten
  refine ⟨isSeparator_eq_false_of_isWritten hwritten, ?_, ?_⟩ <;>
    · rintro rfl
      exact hother (by decide)

end Literal

/-! ## Signs -/

namespace Sign

/-- The spellings of the signs. -/
def spellings : List (String × Sign) :=
  [("", .compare .equal), ("=", .compare .equal), ("==", .compare .equal),
   ("!=", .compare .notEqual), ("<>", .compare .notEqual), ("<", .compare .less),
   ("<=", .compare .lessOrEqual), (">", .compare .greater), (">=", .compare .greaterOrEqual),
   ("~", .tilde), ("~>", .tildeArrow), ("^", .caret)]

/-- A sign ends where something begins that is no part of a sign. -/
theorem split_append {c : Char} (hc : c ∉ ['|', '@', '<', '>', '=', '!', '~', '^'])
    (rest : List Char) :
    ∀ p ∈ spellings, split (p.1.toList ++ c :: rest) = (p.2, c :: rest) := by
  simp only [List.mem_cons, List.not_mem_nil, or_false, not_or] at hc
  simp [spellings, split, hc]

/-- A sign ends where an accepted literal begins. -/
theorem split_append_literal {literal : List Char} {l : Literal}
    (h : Literal.read? literal = some l) :
    ∀ p ∈ spellings, split (p.1.toList ++ literal) = (p.2, literal) := by
  obtain ⟨c, rest, rfl⟩ := List.exists_cons_of_ne_nil (Literal.ne_nil_of_read? h)
  have hc : Literal.isWritten c = true := Literal.isWritten_of_read? h c List.mem_cons_self
  exact split_append (Literal.not_mem_of_isWritten hc) rest

/-- Whatever a text begins with, it is the spelling of its sign and the rest. -/
theorem exists_spelling (cs : List Char) :
    ∃ spelling, (spelling, (split cs).1) ∈ spellings ∧ cs = spelling.toList ++ (split cs).2 := by
  fun_cases split cs <;> dsimp only
  case case1 => exact ⟨"<>", by decide, rfl⟩
  case case2 => exact ⟨"<=", by decide, rfl⟩
  case case3 => exact ⟨"<", by decide, rfl⟩
  case case4 => exact ⟨">=", by decide, rfl⟩
  case case5 => exact ⟨">", by decide, rfl⟩
  case case6 => exact ⟨"!=", by decide, rfl⟩
  case case7 => exact ⟨"==", by decide, rfl⟩
  case case8 => exact ⟨"=", by decide, rfl⟩
  case case9 => exact ⟨"~>", by decide, rfl⟩
  case case10 => exact ⟨"~", by decide, rfl⟩
  case case11 => exact ⟨"^", by decide, rfl⟩
  case case12 => exact ⟨"", by decide, rfl⟩

/-- Signs hold no separator, no bar and no flag. -/
theorem plain_of_mem_spellings :
    ∀ p ∈ spellings, ∀ c ∈ p.1.toList, Clause.isSeparator c = false ∧ c ≠ '|' ∧ c ≠ '@' := by
  have hall : (spellings.all fun p => p.1.toList.all fun c =>
      !Clause.isSeparator c && c != '|' && c != '@') = true := by decide
  intro p hp c hc
  have hplain := List.all_eq_true.mp (List.all_eq_true.mp hall p hp) c hc
  simpa [and_assoc] using hplain

end Sign

namespace Stability

/-- What stands in front of the first `@` is kept. -/
theorem drop_append {front : List Char} (h : '@' ∉ front) (cs : List Char) :
    drop (front ++ cs) = front ++ drop cs := by
  induction front with
  | nil => rfl
  | cons c front ih =>
    rw [List.mem_cons, not_or] at h
    have hc : (c == '@') = false := beq_false_of_ne (Ne.symm h.1)
    rw [List.cons_append, drop, hc, Bool.false_and, if_neg Bool.false_ne_true, ih h.2]
    rfl

/-- Without `@` there is no flag. -/
theorem drop_eq_self {cs : List Char} (h : '@' ∉ cs) : drop cs = cs := by
  have hdrop := drop_append h []
  rwa [drop, List.append_nil] at hdrop

end Stability

/-! ## Reading a sign and a literal -/

namespace Clause

/-- A text without separators is one atom. -/
theorem tokens_of_plain {cs : List Char} (hne : cs ≠ [])
    (h : ∀ c ∈ cs, isSeparator c = false) : tokens cs = [.atom cs] := by
  rw [tokens, pieces_of_plain hne h]
  unfold tokensFrom
  split
  · rfl
  · rfl

namespace Token

/-- An atom without its flag; of one that is only a flag, `*` is left. -/
def body (atom : List Char) : List Char :=
  match Stability.drop atom with
  | [] => ['*']
  | rest => rest

/-- The body of an atom is what is left without its flag. -/
theorem body_of_ne_nil {atom : List Char} (h : Stability.drop atom ≠ []) :
    body atom = Stability.drop atom := by
  unfold body
  split
  case h_1 hnil => exact absurd hnil h
  case h_2 => rfl

theorem body_of_eq_nil {atom : List Char} (h : Stability.drop atom = []) : body atom = ['*'] := by
  rw [body, h]

/-- **An atom is read iff, without its flag, it is a sign and an accepted literal** of which the sign
can ask something. -/
theorem readAtom_eq_ok_iff {atom : List Char} {c : Constraint} :
    readAtom atom = .ok c ↔ ∃ l, Literal.read? (Sign.split (body atom)).2 = some l ∧
      (Sign.split (body atom)).1.constraint? l = some c := by
  rw [← Option.bind_eq_some_iff]
  fun_cases readAtom atom with
  | case1 _ rest literal hsplit =>
    rw [show body atom = rest from rfl, hsplit]
    cases Literal.read? literal <;> simp [Sign.constraint?]
  | case2 _ rest sign harrow hsplit =>
    -- the empty literal is told apart only for the sake of its own message
    have hnone : Literal.read? [] = none := by decide
    rw [show body atom = rest from rfl, hsplit, hnone]
    simp
  | case3 rest sign literal hsplit harrow hne read hread =>
    rw [show body atom = rest from rfl, hsplit, hread]
    simp
  | case4 _ rest sign literal hsplit harrow hne hread =>
    rw [show body atom = rest from rfl, hsplit, hread]
    simp

/-- An atom is understood iff its sign is not the refused one and its literal is accepted. -/
theorem problem?_atom_iff {text : List Char} : (atom text).problem? = none ↔
    (Sign.split (body text)).1 ≠ .tildeArrow ∧
      (Literal.read? (Sign.split (body text)).2).isSome = true := by
  have hasks (sign : Sign) (l : Literal) : (∃ c, sign.constraint? l = some c) ↔
      sign ≠ .tildeArrow := by
    cases sign <;> simp [Sign.constraint?]
  rw [problem?_eq_none_iff, Option.isSome_iff_exists]
  constructor
  · rintro ⟨c, hread⟩
    obtain ⟨l, hl, hsign⟩ := readAtom_eq_ok_iff.mp hread
    exact ⟨(hasks _ l).mp ⟨c, hsign⟩, l, hl⟩
  · rintro ⟨hsign, l, hl⟩
    obtain ⟨c, hc⟩ := (hasks _ l).mpr hsign
    exact ⟨c, readAtom_eq_ok_iff.mpr ⟨l, hl, hc⟩⟩

/-- A range that is read is two accepted literals. -/
theorem of_readRange {low high : List Char} {c : Constraint} (h : readRange low high = .ok c) :
    ∃ l k, Literal.read? low = some l ∧ Literal.read? high = some k ∧ c = l.hyphen k := by
  unfold readRange at h
  cases hlow : Literal.read? low with
  | none => simp [hlow] at h
  | some l =>
    cases hhigh : Literal.read? high with
    | none => simp [hlow, hhigh] at h
    | some k =>
      simp only [hlow, hhigh] at h
      exact ⟨l, k, rfl, rfl, (Except.ok.inj h).symm⟩

/-- A range is understood iff both of its ends are accepted. -/
theorem problem?_range_iff {low high : List Char} : (range low high).problem? = none ↔
    (Literal.read? low).isSome = true ∧ (Literal.read? high).isSome = true := by
  rw [problem?_eq_none_iff]
  constructor
  · rintro ⟨c, hread⟩
    obtain ⟨l, k, hl, hk, -⟩ := of_readRange hread
    rw [hl, hk]
    exact ⟨rfl, rfl⟩
  · rintro ⟨hlow, hhigh⟩
    obtain ⟨l, hl⟩ := Option.isSome_iff_exists.mp hlow
    obtain ⟨k, hk⟩ := Option.isSome_iff_exists.mp hhigh
    refine ⟨l.hyphen k, ?_⟩
    simp only [read, readRange, hl, hk]

end Token
end Clause

/-! ## Requirements of one atom -/

namespace Requirement

open Clause

/-- The text is read without a problem and admits the versions with the property. -/
def Means (text : String) (property : Version → Prop) : Prop :=
  (ofText text).problems = [] ∧ ∀ v, (ofText text).admits v = true ↔ property v

/-- A text that is one atom means what the atom is read as. -/
theorem means_of_readAtom {text : String} {c : Constraint}
    (hplain : ∀ d ∈ text.toList, isSeparator d = false) (hbar : '|' ∉ text.toList)
    (hne : text.toList ≠ []) (hread : Token.readAtom text.toList = .ok c) :
    Means text fun v => c.admits v = true := by
  have htokens := tokens_of_plain hne hplain
  have hblank : ¬ IsBlank text := not_isBlank_of_tokens (by simp [htokens])
  have hok : (Token.atom text.toList).read = .ok c := hread
  constructor
  · rw [problems_ofText_barless hblank hbar, problems_eq_nil_iff, htokens]
    simpa [Sound] using Token.problem?_eq_none_iff.mpr ⟨c, hok⟩
  · intro v
    rw [admits_ofText_barless hblank hbar, admits_constraint, htokens]
    simp [Token.admits_of_read hok]

section

variable {spelling literal : String} {sign : Sign} {l : Literal}
  (hspelling : (spelling, sign) ∈ Sign.spellings) (hread : Literal.read? literal.toList = some l)
include hread

theorem toList_spelling_ne_nil : (spelling ++ literal).toList ≠ [] := by
  rw [String.toList_append]
  exact List.append_ne_nil_of_right_ne_nil _ (Literal.ne_nil_of_read? hread)

include hspelling

/-- A sign and an accepted literal behind it hold no separator, no bar and no flag. -/
theorem plain_of_spelling : ∀ c ∈ (spelling ++ literal).toList,
    isSeparator c = false ∧ c ≠ '|' ∧ c ≠ '@' := by
  intro c hc
  rw [String.toList_append] at hc
  rcases List.mem_append.mp hc with hc | hc
  · exact Sign.plain_of_mem_spellings _ hspelling c hc
  · exact Literal.plain_of_read? hread c hc

/-- They are read as what the sign asks of the literal. -/
theorem readAtom_spelling {c : Constraint} (hsign : sign.constraint? l = some c) :
    Token.readAtom (spelling ++ literal).toList = .ok c := by
  have hsplit : Sign.split (spelling ++ literal).toList = (sign, literal.toList) := by
    rw [String.toList_append]
    exact Sign.split_append_literal hread _ hspelling
  have hdrop : Stability.drop (spelling ++ literal).toList = (spelling ++ literal).toList :=
    Stability.drop_eq_self fun h => (plain_of_spelling hspelling hread _ h).2.2 rfl
  have hbody : Token.body (spelling ++ literal).toList = (spelling ++ literal).toList := by
    rw [Token.body_of_ne_nil (by rw [hdrop]; exact toList_spelling_ne_nil hread), hdrop]
  rw [Token.readAtom_eq_ok_iff, hbody, hsplit]
  exact ⟨l, hread, hsign⟩

/-- **A sign and an accepted literal behind it** mean what the sign asks of the literal. -/
theorem means_of_spelling {c : Constraint} (hsign : sign.constraint? l = some c) :
    Means (spelling ++ literal) fun v => c.admits v = true := by
  have hplain := plain_of_spelling hspelling hread
  exact means_of_readAtom (fun c hc => (hplain c hc).1) (fun h => (hplain _ h).2.1 rfl)
    (toList_spelling_ne_nil hread) (readAtom_spelling hspelling hread hsign)

end

/-! ## Comparisons -/

/-- An operator and a literal ask for the versions so related to the cell of the literal. -/
theorem means_compared {spelling literal : String} {op : Operator} {l : Literal}
    (hspelling : (spelling, Sign.compare op) ∈ Sign.spellings)
    (hread : Literal.read? literal.toList = some l) :
    Means (spelling ++ literal) fun v => op.RelatesTo l.Cell v := by
  obtain ⟨hproblems, hadmits⟩ := means_of_spelling hspelling hread rfl
  refine ⟨hproblems, fun v => (hadmits v).trans ?_⟩
  exact Literal.admits_compared (Literal.bounded_of_read? hread) op v

/-- In front of a literal without numbers, an operator decides alone. -/
theorem means_compared_any {spelling literal : String} {op : Operator}
    (hspelling : (spelling, Sign.compare op) ∈ Sign.spellings)
    (hread : Literal.read? literal.toList = some .any) :
    Means (spelling ++ literal) fun _ => op ∈ Operator.reflexive := by
  obtain ⟨hproblems, hadmits⟩ := means_compared hspelling hread
  exact ⟨hproblems, fun v => (hadmits v).trans (Literal.relatesTo_any_iff op v)⟩

/-- **A comparison operator and an accepted literal**: the requirement is read without a problem,
and admits a version iff it is related to the cell of the literal as the operator says.  Bare
literals, `=` and `==` ask for a member of the cell, `!=` and `<>` for any other version, `>` for
one past the whole cell, `<` for one before it, `>=` and `<=` for one that reaches some member.
No increment of a number of the literal saturates; and if it gives none, the first, fifth and sixth
kind ask for nothing and the others cannot be met. -/
theorem means_comparison {literal : String} {l : Literal}
    (hread : Literal.read? literal.toList = some l) :
    (∀ spelling ∈ ["", "=", "=="], Means (spelling ++ literal) fun v => l.Cell v) ∧
    (∀ spelling ∈ ["!=", "<>"], Means (spelling ++ literal) fun v => ¬ l.Cell v) ∧
    Means (">" ++ literal) (fun v => ∀ w, l.Cell w → w < v) ∧
    Means ("<" ++ literal) (fun v => ∀ w, l.Cell w → v < w) ∧
    Means (">=" ++ literal) (fun v => ∃ w, l.Cell w ∧ w ≤ v) ∧
    Means ("<=" ++ literal) (fun v => ∃ w, l.Cell w ∧ v ≤ w) ∧
    (∀ n ∈ l.numbers, (Version.bump n).toNat = n.toNat + 1) ∧
    (l.isAny = true →
      (∀ spelling ∈ ["", "=", "==", ">=", "<="], Means (spelling ++ literal) fun _ => True) ∧
      ∀ spelling ∈ ["!=", "<>", ">", "<"], Means (spelling ++ literal) fun _ => False) := by
  have hcompared (op : Operator) (spelling : String)
      (h : (spelling, Sign.compare op) ∈ Sign.spellings) :
      Means (spelling ++ literal) fun v => op.RelatesTo l.Cell v := means_compared h hread
  refine ⟨?_, ?_, hcompared .greater ">" (by decide), hcompared .less "<" (by decide),
    hcompared .greaterOrEqual ">=" (by decide), hcompared .lessOrEqual "<=" (by decide),
    fun n => (Literal.bounded_of_read? hread).toNat_bump, ?_⟩
  · intro spelling h
    exact hcompared .equal spelling (by revert spelling; decide)
  · intro spelling h
    exact hcompared .notEqual spelling (by revert spelling; decide)
  · intro hany
    rw [Literal.eq_any_of_isAny hany] at hread
    constructor
    · intro spelling h
      -- the full wildcard holds with every operator that an equal satisfies, and with no other
      have hop : ∃ op ∈ Operator.reflexive, (spelling, Sign.compare op) ∈ Sign.spellings := by
        revert spelling
        decide
      obtain ⟨op, hreflexive, hspelling⟩ := hop
      simpa [hreflexive] using means_compared_any hspelling hread
    · intro spelling h
      have hop : ∃ op ∈ Operator.all, op ∉ Operator.reflexive ∧
          (spelling, Sign.compare op) ∈ Sign.spellings := by
        revert spelling
        decide
      obtain ⟨op, -, hstrict, hspelling⟩ := hop
      simpa [hstrict] using means_compared_any hspelling hread

/-- Sixteen nines have a successor: past `9999999999999999` comes a next major. -/
theorem means_comparison_widest :
    Literal.read? "v9999999999999999.x-RC1".toList = some (.major 9999999999999999) ∧
    Means (">" ++ "v9999999999999999.x-RC1") fun v =>
      ∀ w, (Literal.major 9999999999999999).Cell w → w < v :=
  ⟨by decide +kernel, (means_comparison (by decide +kernel)).2.2.1⟩

end Requirement
end ReleaseMatrix
