/-
  Cutting a text at separators.

  `splitWhere p` cuts at every character of a class and keeps the empty parts, so a text with `n`
  separators has `n + 1` parts (`length_splitWhere`); nothing but the separators is lost
  (`flatten_splitWhere`), and cutting goes part by part (`splitWhere_append_cons`).  Other characters
  go into the part that they stand in (`splitWhere_plain_append`).
-/
namespace ReleaseMatrix.Text

/-- Puts a character in front of the first part. -/
def consFirst (c : Char) : List (List Char) → List (List Char)
  | [] => [[c]]
  | part :: parts => (c :: part) :: parts

/-- The parts between the characters of a class. -/
def splitWhere (p : Char → Bool) : List Char → List (List Char)
  | [] => [[]]
  | c :: rest => if p c then [] :: splitWhere p rest else consFirst c (splitWhere p rest)

/-- There is always a part, though it may be empty. -/
theorem splitWhere_ne_nil (p : Char → Bool) (cs : List Char) : splitWhere p cs ≠ [] := by
  cases cs with
  | nil => simp [splitWhere]
  | cons c rest =>
    simp only [splitWhere]
    split
    · simp
    · cases splitWhere p rest <;> simp [consFirst]

theorem flatten_consFirst (c : Char) (parts : List (List Char)) :
    (consFirst c parts).flatten = c :: parts.flatten := by
  cases parts <;> rfl

/-- Put together, the parts are the text without its cuts. -/
theorem flatten_splitWhere (p : Char → Bool) (cs : List Char) :
    (splitWhere p cs).flatten = cs.filter (fun c => !p c) := by
  induction cs with
  | nil => rfl
  | cons c rest ih => by_cases h : p c <;> simp [splitWhere, h, ih, flatten_consFirst]

theorem length_consFirst (c : Char) {parts : List (List Char)} (h : parts ≠ []) :
    (consFirst c parts).length = parts.length := by
  cases parts <;> simp_all [consFirst]

/-- There is one part more than there are cuts. -/
theorem length_splitWhere (p : Char → Bool) (cs : List Char) :
    (splitWhere p cs).length = cs.countP p + 1 := by
  induction cs with
  | nil => rfl
  | cons c rest ih =>
    by_cases h : p c
    · simp [splitWhere, h, ih]
    · simp [splitWhere, h, ih, length_consFirst c (splitWhere_ne_nil p rest)]

theorem consFirst_append (c : Char) {parts : List (List Char)} (h : parts ≠ [])
    (more : List (List Char)) : consFirst c (parts ++ more) = consFirst c parts ++ more := by
  cases parts <;> simp_all [consFirst]

/-- A cut leaves two texts, each of which is split alone. -/
theorem splitWhere_append_cons (p : Char → Bool) (a b : List Char) {s : Char} (h : p s) :
    splitWhere p (a ++ s :: b) = splitWhere p a ++ splitWhere p b := by
  induction a with
  | nil => simp [splitWhere, h]
  | cons c rest ih =>
    by_cases hc : p c
    · simp [splitWhere, hc, ih]
    · simp [splitWhere, hc, ih, consFirst_append c (splitWhere_ne_nil p rest)]

/-- Characters that are no cuts go into the first part of what follows. -/
theorem splitWhere_plain_append {p : Char → Bool} {front : List Char}
    (h : ∀ c ∈ front, p c = false) {back first : List Char} {rest : List (List Char)}
    (hback : splitWhere p back = first :: rest) :
    splitWhere p (front ++ back) = (front ++ first) :: rest := by
  induction front with
  | nil => exact hback
  | cons c front ih =>
    rw [List.cons_append, splitWhere, h c List.mem_cons_self,
      ih fun d hd => h d (List.mem_cons_of_mem c hd)]
    rfl

/-- A text without cuts is one part. -/
theorem splitWhere_of_plain {p : Char → Bool} {cs : List Char} (h : ∀ c ∈ cs, p c = false) :
    splitWhere p cs = [cs] := by
  have hplain := splitWhere_plain_append h (show splitWhere p [] = [[]] from rfl)
  rwa [List.append_nil] at hplain

end ReleaseMatrix.Text
