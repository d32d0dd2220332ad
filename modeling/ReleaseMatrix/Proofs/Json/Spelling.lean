/-
  Spellings — the texts that stand for a JSON value.

  A value is spelled with blanks around its tokens as one likes, and its strings as `quote` writes
  them:

      {"data":["a"]}          [ ]  ,  { "data" : [ "a" ] }          the compact text, and others

  A number has many spellings, and only its own text is kept of it, so values with numbers are left
  out.

  1. **Layouts** — `Entries` and `Body` for what stands between brackets, `Member`, and `Spells` by
     recursion on the depth; `Spelled` for a whole document.
  2. **Compact text** — `Json.text` is a spelling, bracket by bracket (`spells_text_array`,
     `spells_text_object`).
-/
import ReleaseMatrix.Json.Reader

namespace ReleaseMatrix.Json

/-! ## Layouts -/

/-- Blanks and nothing else. -/
def IsGap (cs : List Char) : Prop := ∀ c ∈ cs, isBlank c = true

/-- Some entries, with a comma between them and gaps around each. -/
inductive Entries {α : Type} (P : List Char → α → Prop) : List Char → List α → Prop
  | last {lead cs trail : List Char} {x : α} (hlead : IsGap lead) (hcs : P cs x)
      (htrail : IsGap trail) : Entries P (lead ++ cs ++ trail) [x]
  | cons {lead cs trail more : List Char} {x : α} {xs : List α} (hlead : IsGap lead)
      (hcs : P cs x) (htrail : IsGap trail) (hmore : Entries P more xs) :
      Entries P (lead ++ cs ++ trail ++ ',' :: more) (x :: xs)

/-- Entries, or a gap where there are none. -/
def Body {α : Type} (P : List Char → α → Prop) (cs : List Char) (xs : List α) : Prop :=
  IsGap cs ∧ xs = [] ∨ Entries P cs xs

/-- A key, a colon and a value. -/
def Member (P : List Char → Json → Prop) (cs : List Char) (member : String × Json) : Prop :=
  ∃ before behind value, cs = (quote member.1).toList ++ before ++ ':' :: (behind ++ value) ∧
    IsGap before ∧ IsGap behind ∧ P value member.2

/-- The characters spell the value, which nests at most `depth` arrays and objects.  Strings are
spelled as they are written; numbers have many spellings and are left out. -/
def Spells : Nat → List Char → Json → Prop
  | _, cs, .null => cs = "null".toList
  | _, cs, .bool b => cs = (bool b).text.toList
  | _, _, .number _ => False
  | _, cs, .string s => cs = (quote s).toList
  | depth + 1, cs, .array items => ∃ body, cs = '[' :: body ++ [']'] ∧ Body (Spells depth) body items
  | depth + 1, cs, .object members =>
    ∃ body, cs = '\x7b' :: body ++ ['\x7d'] ∧ Body (Member (Spells depth)) body members
  | 0, _, .array _ => False
  | 0, _, .object _ => False

/-- The text spells the value, with blanks around it as one likes. -/
def Spelled (text : String) (v : Json) : Prop :=
  ∃ lead cs trail, text.toList = lead ++ cs ++ trail ∧ IsGap lead ∧ Spells maxDepth cs v ∧
    IsGap trail

theorem isGap_nil : IsGap [] := by
  intro c hc
  cases hc

theorem Spells.spelled {text : String} {v : Json} (h : Spells maxDepth text.toList v) :
    Spelled text v :=
  ⟨[], text.toList, [], by rw [List.nil_append, List.append_nil], isGap_nil, h, isGap_nil⟩

/-! ## Compact text -/

/-- Texts with a comma between them are entries without gaps. -/
theorem entries_joined {α : Type} {P : List Char → α → Prop} {text : α → String}
    {joined : List α → String} (hone : ∀ x, joined [x] = text x)
    (hmore : ∀ x y rest, joined (x :: y :: rest) = text x ++ "," ++ joined (y :: rest))
    {xs : List α} (hne : xs ≠ []) (h : ∀ x ∈ xs, P (text x).toList x) :
    Entries P (joined xs).toList xs := by
  induction xs with
  | nil => exact absurd rfl hne
  | cons x rest ih =>
    have hx : P (text x).toList x := h x List.mem_cons_self
    cases rest with
    | nil =>
      -- neither the comma nor the brackets have blanks around them
      have hlast := Entries.last isGap_nil hx isGap_nil
      rwa [List.nil_append, List.append_nil, ← hone] at hlast
    | cons y rest =>
      have hrest := ih (List.cons_ne_nil y rest) fun z hz => h z (List.mem_cons_of_mem _ hz)
      have hcons := Entries.cons isGap_nil hx isGap_nil hrest
      rw [hmore, String.toList_append, String.toList_append, List.append_assoc]
      rwa [List.nil_append, List.append_nil] at hcons

/-- The compact text of an array spells it if those of its items do. -/
theorem spells_text_array {depth : Nat} {items : List Json}
    (h : ∀ v ∈ items, Spells depth v.text.toList v) :
    Spells (depth + 1) (array items).text.toList (array items) := by
  rw [Spells]
  refine ⟨(itemTexts items).toList, by simp [text], ?_⟩
  by_cases hne : items = []
  · subst hne
    exact .inl ⟨isGap_nil, rfl⟩
  · exact .inr (entries_joined (fun _ => rfl) (fun _ _ _ => rfl) hne h)

/-- The compact text of an object spells it if those of its members' values do. -/
theorem spells_text_object {depth : Nat} {members : List (String × Json)}
    (h : ∀ m ∈ members, Spells depth m.2.text.toList m.2) :
    Spells (depth + 1) (object members).text.toList (object members) := by
  have hmember : ∀ m ∈ members,
      Member (Spells depth) (quote m.1 ++ ":" ++ m.2.text).toList m := by
    intro m hm
    exact ⟨[], [], m.2.text.toList, by simp, isGap_nil, isGap_nil, h m hm⟩
  rw [Spells]
  refine ⟨(memberTexts members).toList, by simp [text], ?_⟩
  by_cases hne : members = []
  · subst hne
    exact .inl ⟨isGap_nil, rfl⟩
  · exact .inr (entries_joined (fun _ => rfl) (fun _ _ _ => rfl) hne hmember)

end ReleaseMatrix.Json
