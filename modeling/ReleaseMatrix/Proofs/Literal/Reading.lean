/-
  What an accepted literal looks like — its characters, and the size of its numbers.

  Every part of a literal is made of characters of one class: digits of any script, ASCII letters,
  and `.  -  +  *`.  So an accepted text holds nothing else (`isWritten_of_read?`): no blank, no
  comma, no bar, no sign and no `@`, which is why a literal behind a sign is always one piece of one
  clause.

  A component has at most 16 digits, so its number stays below 10^16 and has a successor
  (`bounded_of_read?`).
-/
import ReleaseMatrix.Proofs.Literal.Grammar

namespace ReleaseMatrix

open Text

namespace Version

/-- A short run spells a number below 10^16. -/
theorem component?_lt {run : List Char} {n : UInt64} (hrun : isShort run = true)
    (h : component? run = some n) : n.toNat < 10 ^ maxDigits := by
  obtain ⟨m, hm, rfl⟩ := Option.map_eq_some_iff.mp h
  have hlen : run.length ≤ maxDigits := (isShort_iff.mp hrun).2
  calc (UInt64.ofNat m).toNat = m % 2 ^ 64 := UInt64.toNat_ofNat'
    _ ≤ m := Nat.mod_le ..
    _ < 10 ^ run.length := value?_lt hm
    _ ≤ 10 ^ maxDigits := Nat.pow_le_pow_right (by omega) hlen

end Version

namespace Literal

/-! ## Numbers -/

/-- The numbers that a literal gives, the major first. -/
def numbers : Literal → List UInt64
  | any => []
  | major a => [a]
  | minor a b => [a, b]
  | patch a b c => [a, b, c]

/-- Every number of the literal has at most 16 digits. -/
def Bounded (l : Literal) : Prop := ∀ n ∈ l.numbers, n.toNat < 10 ^ Version.maxDigits

/-- Only the full wildcard gives no number. -/
theorem eq_any_of_isAny {l : Literal} (h : l.isAny = true) : l = any := by
  cases l with
  | any => rfl
  | major | minor | patch => cases h

/-- A literal gives no number but those of its components. -/
theorem mem_of_mem_numbers {components : List Component} {n : UInt64}
    (h : n ∈ (ofComponents components).numbers) : Component.number n ∈ components := by
  unfold ofComponents at h
  split at h <;> grind [numbers]

/-! ## Characters -/

/-- A character that occurs in literals. -/
def isWritten (c : Char) : Bool := isDigit c || isMark c || c == '*' || c == '+'

theorem isWritten_of_isDigit {c : Char} (h : isDigit c = true) : isWritten c = true := by
  simp [isWritten, h]

theorem isWritten_of_isMark {c : Char} (h : isMark c = true) : isWritten c = true := by
  simp [isWritten, h]

theorem isWritten_of_isWildcard {c : Char} (h : isWildcard c = true) : isWritten c = true := by
  simp only [isWildcard, Bool.or_eq_true, beq_iff_eq] at h
  rcases h with (rfl | rfl) | rfl <;> decide

/-! ## Parts -/

/-- A component holds characters of literals, and spells no number of more than 16 digits. -/
theorem IsComponent.isWritten_and_lt {part : List Char} (h : IsComponent part) :
    (∀ c ∈ part, isWritten c = true) ∧
    ∀ n, Component.ofText part = .number n → n.toNat < 10 ^ Version.maxDigits := by
  -- a wildcard gives no number, and a run of digits gives its own
  rcases h with ⟨c, hwild, rfl⟩ | ⟨hshort, hdigits⟩
  · refine ⟨List.forall_mem_singleton.mpr (isWritten_of_isWildcard hwild), fun n hn => ?_⟩
    rw [Component.ofText_wildcard hwild] at hn
    cases hn
  · refine ⟨fun c hc => isWritten_of_isDigit (hdigits c hc), fun n hn => ?_⟩
    rw [Component.ofText] at hn
    cases hvalue : Version.component? part with
    | none => simp [hvalue] at hn
    | some m =>
      simp only [hvalue, Option.elim_some, Component.number.injEq] at hn
      exact hn ▸ Version.component?_lt hshort hvalue

/-- The fourth component, which is read and dropped. -/
theorem isWritten_of_isFourth {cs : List Char} (h : IsFourth cs) :
    ∀ c ∈ cs, isWritten c = true := by
  rcases h with rfl | ⟨run, rfl, -, hdigits⟩
  · simp
  · exact List.forall_mem_cons.mpr ⟨by decide, fun c hc => isWritten_of_isDigit (hdigits c hc)⟩

/-- The qualifier: its first character, and then marks. -/
theorem isWritten_of_isQualifier {cs : List Char} (h : IsQualifier cs) :
    ∀ c ∈ cs, isWritten c = true := by
  rcases h with rfl | ⟨c, marks, rfl, hmarks, hopen⟩
  · simp
  · refine List.forall_mem_cons.mpr ⟨?_, fun d hd => isWritten_of_isMark (hmarks d hd)⟩
    rcases hopen with ⟨rfl, -⟩ | halpha
    · decide
    · exact isWritten_of_isMark (by simp [isMark, Char.isAlphanum, halpha])

/-- The build: a plus, and then marks. -/
theorem isWritten_of_isBuild {cs : List Char} (h : isBuild cs = true) :
    ∀ c ∈ cs, isWritten c = true := by
  unfold isBuild at h
  split at h
  case h_1 => simp
  case h_2 c cs =>
    rw [Bool.and_eq_true, List.all_eq_true] at h
    have hmarks : ∀ d ∈ c :: cs, isMark d = true := List.forall_mem_cons.mpr h
    exact List.forall_mem_cons.mpr ⟨by decide, fun d hd => isWritten_of_isMark (hmarks d hd)⟩
  case h_3 => cases h

/-- What parts with a dot between them hold, apart from the dots. -/
theorem forall_mem_intercalate {P : Char → Prop} (hdot : P '.') {parts : List (List Char)}
    (h : ∀ part ∈ parts, ∀ c ∈ part, P c) : ∀ c ∈ ['.'].intercalate parts, P c := by
  induction parts with
  | nil => simp
  | cons part others ih =>
    have hothers := ih fun p hp => h p (List.mem_cons_of_mem _ hp)
    have hpart : ∀ c ∈ part, P c := h part List.mem_cons_self
    -- the dot stands only where another part follows
    cases others with
    | nil => rwa [List.intercalate_singleton]
    | cons next others =>
      rw [List.intercalate_cons_cons, List.append_assoc]
      exact List.forall_mem_append.mpr ⟨hpart, List.forall_mem_cons.mpr ⟨hdot, hothers⟩⟩

/-- A literal put together from its parts holds nothing that they do not hold. -/
theorem Parts.Proper.isWritten_text {p : Parts} (h : p.Proper) :
    ∀ c ∈ p.text, isWritten c = true := by
  have hmarker : ∀ c ∈ p.marker, isWritten c = true := by
    rcases h.marker with hm | hm | hm <;> rw [hm]
    · exact fun c hc => absurd hc List.not_mem_nil
    · exact List.forall_mem_singleton.mpr (by decide)
    · exact List.forall_mem_singleton.mpr (by decide)
  have hcomponents := forall_mem_intercalate (P := fun c => isWritten c = true) (by decide)
    fun part hpart => (h.components part hpart).isWritten_and_lt.1
  simp only [Parts.text, List.forall_mem_append]
  exact ⟨hmarker, hcomponents, isWritten_of_isFourth h.fourth,
    isWritten_of_isQualifier h.qualifier, isWritten_of_isBuild h.build⟩

/-! ## Literals -/

/-- **An accepted text holds only characters of literals.** -/
theorem isWritten_of_read? {cs : List Char} {l : Literal} (h : read? cs = some l) :
    ∀ c ∈ cs, isWritten c = true := by
  obtain ⟨p, hproper, rfl, -⟩ := read?_eq_some_iff.mp h
  exact hproper.isWritten_text

/-- **The numbers of an accepted text have at most 16 digits.** -/
theorem bounded_of_read? {cs : List Char} {l : Literal} (h : read? cs = some l) : l.Bounded := by
  obtain ⟨p, hproper, -, rfl⟩ := read?_eq_some_iff.mp h
  intro n hn
  obtain ⟨part, hpart, hvalue⟩ := List.mem_map.mp (mem_of_mem_numbers hn)
  exact (hproper.components part hpart).isWritten_and_lt.2 n hvalue

/-- The empty text is no literal. -/
theorem ne_nil_of_read? {cs : List Char} {l : Literal} (h : read? cs = some l) : cs ≠ [] := by
  rintro rfl
  have hnone : read? [] = none := by decide
  rw [hnone] at h
  cases h

end Literal
end ReleaseMatrix
