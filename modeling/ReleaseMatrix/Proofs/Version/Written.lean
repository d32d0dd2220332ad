/-
  Written versions — numbers in decimal, and what is read of them.

  A number is written without leading zeros, so one below 10^16 takes at most 16 digits and makes a
  run that can be a component; three of them with dots between are a literal without other parts:

      8.1.0      8 | . | 1 | . | 0

  1. **Numbers** — `isShort_toDigits_iff`, and that they are read as themselves.  Nothing is lost in
     writing either, as long as no digit follows (`toDigits_append_inj`, `text_append_inj`).
  2. **Literals** — `Literal.read?_text`: the text of a version is a full literal that names it.
  3. **Names** — `Version.bounded_of_extract?`: the version that a name holds is one that can be
     written so.
-/
import ReleaseMatrix.Proofs.Literal.Reading
import ReleaseMatrix.Proofs.Version.Runs

namespace ReleaseMatrix

/-! ## Numbers -/

namespace Text

theorem isDigit_of_mem_toDigits {n : Nat} {c : Char} (h : c ∈ Nat.toDigits 10 n) :
    c.isDigit = true :=
  Nat.isDigit_of_mem_toDigits (by omega) (by omega) h

/-- A text does not begin with a digit. -/
def NoDigit (cs : List Char) : Prop := ∀ c ∈ cs.head?, isDigit c = false

theorem noDigit_nil : NoDigit [] := fun _ hc => absurd hc (by simp)

theorem noDigit_cons {c : Char} (hc : isDigit c = false) (cs : List Char) : NoDigit (c :: cs) :=
  fun _ hd => Option.mem_some.mp hd ▸ hc

/-- A number in front of a text is told apart from it, unless a digit follows. -/
theorem toDigits_append_inj {m n : Nat} {r s : List Char} (hr : NoDigit r) (hs : NoDigit s)
    (h : Nat.toDigits 10 m ++ r = Nat.toDigits 10 n ++ s) : m = n ∧ r = s := by
  have hrun (k : Nat) : ∀ c ∈ Nat.toDigits 10 k, isDigit c = true := fun _ hc =>
    isDigit_of_ascii (isDigit_of_mem_toDigits hc)
  have hsplit : splitRun (Nat.toDigits 10 m ++ r) = splitRun (Nat.toDigits 10 n ++ s) := by rw [h]
  rw [splitRun_append_of_digits (hrun m) hr, splitRun_append_of_digits (hrun n) hs] at hsplit
  obtain ⟨hdigits, hrest⟩ := Prod.mk.inj hsplit
  have hvalue : value? (Nat.toDigits 10 m) = value? (Nat.toDigits 10 n) := by rw [hdigits]
  rw [value?_toDigits, value?_toDigits] at hvalue
  exact ⟨Option.some.inj hvalue, hrest⟩

end Text

namespace Version

/-- The numbers below 10^16 are those that are written in a run that can be a component. -/
theorem isShort_toDigits_iff {n : Nat} :
    isShort (Nat.toDigits 10 n) = true ↔ n < 10 ^ maxDigits := by
  have hpos : 0 < (Nat.toDigits 10 n).length := List.length_pos_iff.mpr Nat.toDigits_ne_nil
  rw [isShort_iff, and_iff_right hpos]
  exact Nat.length_toDigits_le_iff (by omega) (by decide)

/-- A written word is read as itself. -/
theorem component?_toDigits (n : UInt64) : component? (Nat.toDigits 10 n.toNat) = some n := by
  rw [component?, Text.value?_toDigits, Option.map_some, UInt64.ofNat_toNat]

/-- The characters of a written version. -/
theorem toList_text (v : Version) : v.text.toList = Nat.toDigits 10 v.major.toNat ++
    '.' :: (Nat.toDigits 10 v.minor.toNat ++ '.' :: Nat.toDigits 10 v.patch.toNat) := by
  simp [text]

/-- **A version in front of a text is told apart from it**, unless a digit follows. -/
theorem text_append_inj {v w : Version} {r s : List Char} (hr : Text.NoDigit r)
    (hs : Text.NoDigit s) (h : v.text.toList ++ r = w.text.toList ++ s) : v = w ∧ r = s := by
  have hdot : Text.isDigit '.' = false := by decide
  rw [toList_text, toList_text] at h
  simp only [List.append_assoc, List.cons_append] at h
  obtain ⟨hmajor, h⟩ := Text.toDigits_append_inj (Text.noDigit_cons hdot _)
    (Text.noDigit_cons hdot _) h
  obtain ⟨hminor, h⟩ := Text.toDigits_append_inj (Text.noDigit_cons hdot _)
    (Text.noDigit_cons hdot _) (List.cons.inj h).2
  obtain ⟨hpatch, hrest⟩ := Text.toDigits_append_inj hr hs (List.cons.inj h).2
  refine ⟨?_, hrest⟩
  cases v
  cases w
  rw [mk.injEq]
  exact ⟨UInt64.toNat_inj.mp hmajor, UInt64.toNat_inj.mp hminor, UInt64.toNat_inj.mp hpatch⟩

end Version

/-! ## Literals -/

namespace Literal

open Text

/-- A written word of at most 16 digits is a component. -/
theorem isComponent_toDigits {n : UInt64} (hn : n.toNat < 10 ^ Version.maxDigits) :
    IsComponent (Nat.toDigits 10 n.toNat) :=
  .inr ⟨Version.isShort_toDigits_iff.mpr hn, fun _ hc =>
    isDigit_of_ascii (isDigit_of_mem_toDigits hc)⟩

theorem Component.ofText_toDigits (n : UInt64) :
    ofText (Nat.toDigits 10 n.toNat) = .number n := by
  rw [ofText, Version.component?_toDigits, Option.elim_some]

/-- **A written version is a full literal that names it**, if its numbers have at most 16 digits. -/
theorem read?_text {v : Version} (h : (patch v.major v.minor v.patch).Bounded) :
    read? v.text.toList = some (patch v.major v.minor v.patch) := by
  -- the three numbers and nothing around them
  let p : Parts :=
    { marker := [], fourth := [], qualifier := [], build := [],
      components := (patch v.major v.minor v.patch).numbers.map fun n => Nat.toDigits 10 n.toNat }
  have hproper : p.Proper :=
    { marker := .inl rfl
      filled := by simp [p, numbers]
      atMostThree := by simp [p, numbers]
      components := by
        intro part hpart
        obtain ⟨n, hn, rfl⟩ := List.mem_map.mp hpart
        exact isComponent_toDigits (h n hn)
      fourth := .inl rfl
      fourthBehindThree := fun hne => absurd rfl hne
      qualifier := .inl rfl
      build := rfl }
  have htext : p.text = v.text.toList := by
    simp [p, Parts.text, Version.text, numbers]
  refine read?_eq_some_iff.mpr ⟨p, hproper, htext, ?_⟩
  simp [p, numbers, Component.ofText_toDigits, ofComponents]

end Literal

/-! ## Names -/

namespace Version

open Text

/-- What short runs spell stays below 10^16, by recursion on the runs. -/
theorem lt_of_mapM_component? {runs : List (List Char)} {ns : List UInt64}
    (hruns : ∀ run ∈ runs, isShort run = true) (h : runs.mapM component? = some ns) :
    ∀ n ∈ ns, n.toNat < 10 ^ maxDigits := by
  induction runs generalizing ns with
  | nil =>
    obtain rfl : [] = ns := Option.some.inj h
    intro n hn
    cases hn
  | cons run runs ih =>
    rw [List.mapM_cons] at h
    obtain ⟨m, hm, h⟩ := Option.bind_eq_some_iff.mp h
    obtain ⟨ms, hms, h⟩ := Option.bind_eq_some_iff.mp h
    obtain rfl : m :: ms = ns := Option.some.inj h
    intro n hn
    rcases List.mem_cons.mp hn with rfl | hn
    · exact component?_lt (hruns run List.mem_cons_self) hm
    · exact ih (fun run hrun => hruns run (List.mem_cons_of_mem _ hrun)) hms n hn

/-- **The numbers of the version that a name holds have at most 16 digits.** -/
theorem bounded_of_extract? {name : String} {v : Version} (h : extract? name = some v) :
    (Literal.patch v.major v.minor v.patch).Bounded := by
  have hzero : (0 : UInt64).toNat < 10 ^ maxDigits := by decide
  have hlt {ns : List UInt64} (hns : (componentRuns name.toList).mapM component? = some ns) :=
    lt_of_mapM_component? (fun _ => isShort_of_mem_componentRuns) hns
  intro n hn
  simp only [Literal.numbers, List.mem_cons, List.not_mem_nil, or_false] at hn
  unfold extract? at h
  split at h
  case h_1 major hns =>
    obtain rfl := Option.some.inj h
    rcases hn with rfl | rfl | rfl
    · exact hlt hns n (by simp)
    · exact hzero
    · exact hzero
  case h_2 major minor hns =>
    obtain rfl := Option.some.inj h
    rcases hn with rfl | rfl | rfl
    · exact hlt hns n (by simp)
    · exact hlt hns n (by simp)
    · exact hzero
  case h_3 major minor patch hns =>
    obtain rfl := Option.some.inj h
    rcases hn with rfl | rfl | rfl <;> exact hlt hns _ (by simp)
  case h_4 => cases h

end Version
end ReleaseMatrix
