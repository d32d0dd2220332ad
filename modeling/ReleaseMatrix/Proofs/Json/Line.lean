/-
  One line — the compact text of a value holds no line break.

  Between quotes a line break is the two characters `\n`, and neither brackets nor commas bring one
  in.  So a value may be printed where lines count:

      "8.1 or later", and in a second line "but not 9"      "8.1 or later\nbut not 9"

  Only a number might hold one, for it keeps whatever spelling it was given; so what is asked of the
  parts of an array or object is that each of them stays on its line.

  1. **Strings** — `newline_not_mem_quote`.
  2. **Sequences** — `newline_not_mem_joined`, and from it `newline_not_mem_array` and
     `newline_not_mem_object`.
-/
import Mathlib.Tactic.SplitIfs
import ReleaseMatrix.Json

namespace ReleaseMatrix.Json

/-! ## Strings -/

theorem hexDigit_ne_newline {n : Nat} (h : n < 16) : hexDigit n ≠ '\n' :=
  (by decide : ∀ n < 16, hexDigit n ≠ '\n') n h

/-- No character stands for itself between quotes if it would end the line. -/
theorem newline_not_mem_escaped (c : Char) : '\n' ∉ escaped c := by
  intro hmem
  unfold escaped at hmem
  split_ifs at hmem with _ _ hline _ _ _ _ hcontrol <;>
    simp only [List.mem_cons, List.not_mem_nil, or_false, Char.reduceEq, false_or] at hmem
  · -- of a control character there is a code, whose last two characters are digits
    rcases hmem with hhigh | hlow
    · exact hexDigit_ne_newline (by omega) hhigh.symm
    · exact hexDigit_ne_newline (by omega) hlow.symm
  · -- any other character stands for itself, and is no line break
    exact hline hmem.symm

/-- **A string stays on one line**, since its line breaks are written as two characters. -/
theorem newline_not_mem_quote (s : String) : '\n' ∉ (quote s).toList := by
  intro hmem
  simp only [quote, String.toList_ofList, List.mem_cons, List.mem_append, List.mem_flatMap,
    List.not_mem_nil, or_false] at hmem
  rcases hmem with (hquote | ⟨c, -, hc⟩) | hquote
  · exact absurd hquote (by decide)
  · exact newline_not_mem_escaped c hc
  · exact absurd hquote (by decide)

theorem newline_not_mem_string (s : String) : '\n' ∉ (string s).text.toList := by
  rw [text]
  exact newline_not_mem_quote s

/-! ## Sequences -/

theorem newline_not_mem_append {a b : String} (ha : '\n' ∉ a.toList) (hb : '\n' ∉ b.toList) :
    '\n' ∉ (a ++ b).toList := by
  rw [String.toList_append, List.mem_append, not_or]
  exact ⟨ha, hb⟩

/-- Texts on one line stay on one line with commas between them. -/
theorem newline_not_mem_joined {α : Type} (text : α → String) {joined : List α → String}
    (hnil : joined [] = "") (hone : ∀ x, joined [x] = text x)
    (hmore : ∀ x y rest, joined (x :: y :: rest) = text x ++ "," ++ joined (y :: rest))
    {xs : List α} (h : ∀ x ∈ xs, '\n' ∉ (text x).toList) : '\n' ∉ (joined xs).toList := by
  induction xs with
  | nil => simp [hnil]
  | cons x rest ih =>
    obtain ⟨hx, hrest⟩ := List.forall_mem_cons.mp h
    cases rest with
    | nil => rwa [hone]
    | cons y rest =>
      rw [hmore]
      exact newline_not_mem_append (newline_not_mem_append hx (by decide)) (ih hrest)

/-- Items on one line make an array on one line. -/
theorem newline_not_mem_array {items : List Json} (h : ∀ v ∈ items, '\n' ∉ v.text.toList) :
    '\n' ∉ (array items).text.toList := by
  have hitems : '\n' ∉ (itemTexts items).toList :=
    newline_not_mem_joined Json.text rfl (fun _ => rfl) (fun _ _ _ => rfl) h
  rw [text]
  exact newline_not_mem_append (newline_not_mem_append (by decide) hitems) (by decide)

/-- Values on one line make an object on one line; keys are strings. -/
theorem newline_not_mem_object {members : List (String × Json)}
    (h : ∀ m ∈ members, '\n' ∉ m.2.text.toList) : '\n' ∉ (object members).text.toList := by
  have hmembers : '\n' ∉ (memberTexts members).toList := by
    refine newline_not_mem_joined (fun m => quote m.1 ++ ":" ++ m.2.text) rfl (fun _ => rfl)
      (fun _ _ _ => rfl) fun m hm => ?_
    exact newline_not_mem_append
      (newline_not_mem_append (newline_not_mem_quote m.1) (by decide)) (h m hm)
  rw [text]
  exact newline_not_mem_append (newline_not_mem_append (by decide) hmembers) (by decide)

end ReleaseMatrix.Json
