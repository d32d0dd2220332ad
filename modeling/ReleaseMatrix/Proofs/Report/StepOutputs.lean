/-
  Step outputs read back — which values survive the file of a step's outputs.

  The file is read line by line.  A line is `key=value`, cut at its first `=`, unless `<<` comes
  before any `=`; then it is `key<<D`, and the value is made of the lines up to the first that is `D`:

      minimal=8.1                   minimal     8.1

      latest<<PHPVER_EOF
      8.3                           latest      8.3, line break, 8.4
      8.4
      PHPVER_EOF

  A value on one line is read back whatever it holds, since no key holds `=` or `<`.  A value of
  several lines stands between lines that are always the same, so it is read back unless one of its
  own lines is that delimiter.  Then its block ends early, and what follows is read as further
  outputs: this is exactly what can go wrong (`read_stepOutputs_iff`).

  1. **Reading** — `StepFile.head?`, `StepFile.lines`, `StepFile.readFrom`.
  2. **One output** — `readFrom_record`, and `readFrom_record_ne` for the values that break out.
  3. **The record of a report** — `read_stepOutputs_iff`; the matrix is always on one line
     (`newline_not_mem_matrixJson`).
-/
import Mathlib.Tactic.SplitIfs
import ReleaseMatrix.Proofs.Json.Line
import ReleaseMatrix.Report

namespace ReleaseMatrix

/-! ## The text of names -/

/-- The matrix is written on one line. -/
theorem Report.newline_not_mem_matrixJson (r : Report) : '\n' ∉ r.matrixJson.text.toList := by
  refine Json.newline_not_mem_array fun v hv => ?_
  obtain ⟨name, -, rfl⟩ := List.mem_map.mp hv
  exact Json.newline_not_mem_string name

/-! ## Reading a file of outputs -/

namespace StepFile

/-- The lines of a text, each ended by a line break.  What stands behind the last break is a line
only if there is something. -/
def lines (text : List Char) : List (List Char) :=
  let parts := text.splitOn '\n'
  if parts.getLast? = some [] then parts.dropLast else parts

/-- What a line outside of a block is. -/
inductive Head where
  /-- An output and its value. -/
  | pair (key value : List Char)
  /-- The start of a block: an output, and the line that ends its value. -/
  | opening (key delimiter : List Char)
deriving DecidableEq, Repr

/-- More of the key, in front of what there is. -/
def Head.withKey (front : List Char) : Head → Head
  | pair key value => pair (front ++ key) value
  | opening key delimiter => opening (front ++ key) delimiter

/-- A line outside of a block, by what comes first in it: `=` or `<<`. -/
def head? : List Char → Option Head
  | [] => none
  | '=' :: rest => some (.pair [] rest)
  | '<' :: '<' :: rest => some (.opening [] rest)
  | c :: rest => (head? rest).map (Head.withKey [c])

/-- A block that has been opened, with the lines of its value so far. -/
structure Block where
  key : List Char
  delimiter : List Char
  value : List (List Char)
deriving DecidableEq, Repr

/-- The output of a block that has been closed. -/
def Block.output (b : Block) : String × String :=
  (String.ofList b.key, String.ofList (['\n'].intercalate b.value))

/-- The outputs of the lines that are left, inside or outside of a block. -/
def readFrom : Option Block → List (List Char) → Option (List (String × String))
  | none, [] => some []
  | some _, [] => none
  | none, line :: rest =>
    match head? line with
    | none => none
    | some (.pair key value) =>
      (readFrom none rest).map ((String.ofList key, String.ofList value) :: ·)
    | some (.opening key delimiter) => readFrom (some ⟨key, delimiter, []⟩) rest
  | some b, line :: rest =>
    if line = b.delimiter then (readFrom none rest).map (b.output :: ·)
    else readFrom (some { b with value := b.value ++ [line] }) rest

/-- **Reading a file of outputs**; `none` if a line is no output, or a block is not closed. -/
def read (text : String) : Option (List (String × String)) := readFrom none (lines text.toList)

/-! ### Lines -/

theorem lines_nil : lines [] = [] := by
  simp [lines]

/-- Behind a line break the rest has lines of its own. -/
theorem lines_append_newline (line rest : List Char) :
    lines (line ++ '\n' :: rest) = line.splitOn '\n' ++ lines rest := by
  have hne : rest.splitOn '\n' ≠ [] := List.splitOn_ne_nil '\n' rest
  have hlast : (line.splitOn '\n' ++ rest.splitOn '\n').getLast? = (rest.splitOn '\n').getLast? := by
    rw [List.getLast?_append, List.getLast?_eq_some_getLast hne]
    rfl
  simp only [lines, List.splitOn_append_cons_self, hlast, List.dropLast_append_of_ne_nil hne]
  split <;> rfl

/-! ### Heads -/

/-- The key of an output: it holds nothing that would end it. -/
def IsKey (key : List Char) : Prop := ∀ c ∈ key, c ≠ '=' ∧ c ≠ '<' ∧ c ≠ '\n'

theorem head?_cons {c : Char} (heq : c ≠ '=') (hlt : c ≠ '<') (rest : List Char) :
    head? (c :: rest) = (head? rest).map (Head.withKey [c]) := by
  simp [head?, hlt]

/-- What a line is does not depend on its key. -/
theorem head?_append {key : List Char} (hkey : IsKey key) (rest : List Char) :
    head? (key ++ rest) = (head? rest).map (Head.withKey key) := by
  induction key with
  | nil =>
    have hnil : Head.withKey [] = id := by
      funext head
      cases head <;> rfl
    rw [hnil, Option.map_id, List.nil_append, id]
  | cons c key ih =>
    obtain ⟨⟨heq, hlt, -⟩, hkey⟩ := List.forall_mem_cons.mp hkey
    have hcons : Head.withKey [c] ∘ Head.withKey key = Head.withKey (c :: key) := by
      funext head
      cases head <;> rfl
    rw [List.cons_append, head?_cons heq hlt, ih hkey, Option.map_map, hcons]

theorem head?_pair {key : List Char} (hkey : IsKey key) (value : List Char) :
    head? (key ++ '=' :: value) = some (.pair key value) := by
  rw [head?_append hkey]
  simp [head?, Head.withKey]

theorem head?_opening {key : List Char} (hkey : IsKey key) (delimiter : List Char) :
    head? (key ++ '<' :: '<' :: delimiter) = some (.opening key delimiter) := by
  rw [head?_append hkey]
  simp [head?, Head.withKey]

/-! ### Blocks -/

/-- The lines up to the delimiter are the value of the block. -/
theorem readFrom_block {value : List (List Char)} (b : Block) (rest : List (List Char))
    (hvalue : b.delimiter ∉ value) :
    readFrom (some b) (value ++ b.delimiter :: rest)
      = (readFrom none rest).map ((Block.output { b with value := b.value ++ value }) :: ·) := by
  -- on the lines of the value, from whatever has been read before them
  induction value generalizing b with
  | nil => simp [readFrom]
  | cons line value ih =>
    have hline : line ≠ b.delimiter := fun h => hvalue (h ▸ List.mem_cons_self)
    have hrest := ih { b with value := b.value ++ [line] } fun h => hvalue (List.mem_cons_of_mem _ h)
    rw [List.cons_append, readFrom, if_neg hline]
    simpa only [List.append_assoc, List.singleton_append] using hrest

/-! ### One output -/

/-- A value that ends its own block: it has several lines, and one of them is the delimiter. -/
def BreaksOut (value : String) : Prop :=
  '\n' ∈ value.toList ∧ Report.delimiter.toList ∈ value.toList.splitOn '\n'

/-- The lines of one output. -/
def record (key value : String) : List (List Char) :=
  if '\n' ∈ value.toList then
    (key.toList ++ '<' :: '<' :: Report.delimiter.toList)
      :: (value.toList.splitOn '\n' ++ [Report.delimiter.toList])
  else [key.toList ++ '=' :: value.toList]

theorem newline_not_mem_delimiter : '\n' ∉ Report.delimiter.toList := by decide

theorem IsKey.newline_not_mem {key : List Char} (hkey : IsKey key) : '\n' ∉ key :=
  fun h => (hkey _ h).2.2 rfl

/-- What is written for an output is its lines. -/
theorem lines_outputLines {key : String} (hkey : IsKey key.toList) (value : String)
    (rest : List Char) :
    lines ((Report.outputLines key value).toList ++ rest) = record key value ++ lines rest := by
  have hdelimiter := newline_not_mem_delimiter
  have hstart := hkey.newline_not_mem
  -- a value of several lines is a block, any other one a pair
  by_cases hvalue : '\n' ∈ value.toList
  · have hopening : '\n' ∉ key.toList ++ '<' :: '<' :: Report.delimiter.toList := by
      simp [hstart, hdelimiter]
    have htext : (Report.outputLines key value).toList ++ rest
        = (key.toList ++ '<' :: '<' :: Report.delimiter.toList)
          ++ '\n' :: (value.toList ++ '\n' :: (Report.delimiter.toList ++ '\n' :: rest)) := by
      simp [Report.outputLines, hvalue]
    rw [htext, lines_append_newline, lines_append_newline, lines_append_newline,
      List.splitOn_eq_singleton hopening, List.splitOn_eq_singleton hdelimiter]
    simp [record, hvalue]
  · have hpair : '\n' ∉ key.toList ++ '=' :: value.toList := by
      simp [hstart, hvalue]
    have htext : (Report.outputLines key value).toList ++ rest
        = (key.toList ++ '=' :: value.toList) ++ '\n' :: rest := by
      simp [Report.outputLines, hvalue]
    rw [htext, lines_append_newline, List.splitOn_eq_singleton hpair]
    simp [record, hvalue]

/-- A block is the output of what stands before the first delimiter. -/
theorem readFrom_opening {key delimiter : List Char} {value : List (List Char)} (hkey : IsKey key)
    (hvalue : delimiter ∉ value) (rest : List (List Char)) :
    readFrom none ((key ++ '<' :: '<' :: delimiter) :: (value ++ delimiter :: rest))
      = (readFrom none rest).map
          ((String.ofList key, String.ofList (['\n'].intercalate value)) :: ·) := by
  simp only [readFrom, head?_opening hkey]
  exact readFrom_block ⟨key, delimiter, []⟩ rest hvalue

/-- **An output that does not break out is read back**, and the reader goes on behind it. -/
theorem readFrom_record {key value : String} (hkey : IsKey key.toList) (hvalue : ¬ BreaksOut value)
    (rest : List (List Char)) :
    readFrom none (record key value ++ rest) = (readFrom none rest).map ((key, value) :: ·) := by
  by_cases hlines : '\n' ∈ value.toList
  · have hsplit : Report.delimiter.toList ∉ value.toList.splitOn '\n' := fun h => hvalue ⟨hlines, h⟩
    have hread := readFrom_opening hkey hsplit rest
    rw [List.intercalate_splitOn, String.ofList_toList, String.ofList_toList] at hread
    simpa [record, hlines] using hread
  · simp [record, hlines, readFrom, head?_pair hkey]

example : read "minimal=8.1\nlatest<<PHPVER_EOF\n8.3\n8.4\nPHPVER_EOF\n" =
    some [("minimal", "8.1"), ("latest", "8.3\n8.4")] := by
  decide +kernel

/-- No line of a text holds a line break. -/
theorem newline_not_mem_of_mem_splitOn {text line : List Char} (h : line ∈ text.splitOn '\n') :
    '\n' ∉ line := by
  induction text generalizing line with
  | nil => simp_all
  | cons c text ih =>
    rw [List.splitOn_cons_eq_if_modifyHead] at h
    split_ifs at h with hc
    · rcases List.mem_cons.mp h with rfl | hrest
      · exact List.not_mem_nil
      · exact ih hrest
    · obtain ⟨first, others, hparts⟩ := List.exists_cons_of_ne_nil (List.splitOn_ne_nil '\n' text)
      rw [hparts, List.modifyHead_cons] at h
      rcases List.mem_cons.mp h with rfl | hrest
      · have hfirst : '\n' ∉ first := ih (hparts ▸ List.mem_cons_self)
        have hne : c ≠ '\n' := by simpa using hc
        exact List.not_mem_cons_of_ne_of_not_mem hne.symm hfirst
      · exact ih (hparts ▸ List.mem_cons_of_mem _ hrest)

/-- A text of several lines is not its lines up to one of them. -/
theorem intercalate_ne_of_splitOn {text line : List Char} {before after : List (List Char)}
    (htext : '\n' ∈ text) (hsplit : text.splitOn '\n' = before ++ line :: after) :
    ['\n'].intercalate before ≠ text := by
  rintro rfl
  have hbefore : ∀ l ∈ before, '\n' ∉ l := fun l hl =>
    newline_not_mem_of_mem_splitOn (hsplit ▸ List.mem_append_left _ hl)
  by_cases hne : before = []
  · simp [hne] at htext
  · rw [List.splitOn_intercalate '\n' hbefore hne] at hsplit
    simp at hsplit

/-- **An output that breaks out is not read back**: its block is closed by a line of the value. -/
theorem readFrom_record_ne {key value : String} (hkey : IsKey key.toList) (hvalue : BreaksOut value)
    (rest : List (List Char)) (outputs : List (String × String)) :
    readFrom none (record key value ++ rest) ≠ some ((key, value) :: outputs) := by
  obtain ⟨hlines, hmem⟩ := hvalue
  obtain ⟨before, after, hsplit, hbefore⟩ := List.eq_append_cons_of_mem hmem
  have hrecord : record key value ++ rest
      = (key.toList ++ '<' :: '<' :: Report.delimiter.toList)
        :: (before ++ Report.delimiter.toList :: (after ++ Report.delimiter.toList :: rest)) := by
    simp [record, hlines, hsplit]
  intro hread
  rw [hrecord, readFrom_opening hkey hbefore, Option.map_eq_some_iff] at hread
  obtain ⟨others, -, heq⟩ := hread
  have hsame : String.ofList (['\n'].intercalate before) = value :=
    congrArg Prod.snd (List.cons.inj heq).1
  exact intercalate_ne_of_splitOn hlines hsplit (by rw [← hsame, String.toList_ofList])

/-! ### All outputs -/

/-- What is written for the outputs is the lines of each. -/
theorem lines_join {outputs : List (String × String)}
    (hkeys : ∀ output ∈ outputs, IsKey output.1.toList) :
    lines (String.join (outputs.map fun (key, value) => Report.outputLines key value)).toList
      = outputs.flatMap fun (key, value) => record key value := by
  rw [String.toList_join]
  induction outputs with
  | nil => simp [lines_nil]
  | cons output outputs ih =>
    obtain ⟨hkey, hkeys⟩ := List.forall_mem_cons.mp hkeys
    simp only [List.map_cons, List.flatMap_cons, lines_outputLines hkey, ih hkeys]

/-- Outputs are read back together just if each is read back alone. -/
theorem readFrom_records_iff {outputs : List (String × String)}
    (hkeys : ∀ output ∈ outputs, IsKey output.1.toList) :
    readFrom none (outputs.flatMap fun (key, value) => record key value) = some outputs
      ↔ ∀ output ∈ outputs, ¬ BreaksOut output.2 := by
  induction outputs with
  | nil => simp [readFrom]
  | cons output outputs ih =>
    obtain ⟨key, value⟩ := output
    obtain ⟨hkey, hkeys⟩ := List.forall_mem_cons.mp hkeys
    rw [List.flatMap_cons, List.forall_mem_cons, ← ih hkeys]
    by_cases hvalue : BreaksOut value
    · simp only [hvalue, not_true_eq_false, false_and, iff_false]
      exact readFrom_record_ne hkey hvalue _ outputs
    · simp [readFrom_record hkey hvalue, hvalue]

end StepFile

/-! ## The record of a report -/

theorem Report.isKey_of_mem_outputs (r : Report) :
    ∀ output ∈ r.outputs, StepFile.IsKey output.1.toList := by
  simp [outputs, StepFile.IsKey]

/-- **What is read back of a step's outputs**: the four of the report, each once, in this order and
with its value, just if none of the values is of several lines with the delimiter among these.  The
names of the matrix may hold anything. -/
theorem Report.read_stepOutputs_iff (r : Report) :
    StepFile.read r.stepOutputs
        = some [("composer-php-version", r.requirement), ("matrix", r.matrixJson.text),
            ("minimal", r.minimal), ("latest", r.latest)]
      ↔ ∀ value ∈ [r.requirement, r.minimal, r.latest], ¬ StepFile.BreaksOut value := by
  have hmatrix : ¬ StepFile.BreaksOut r.matrixJson.text := fun h => r.newline_not_mem_matrixJson h.1
  have hread : StepFile.read r.stepOutputs = some r.outputs
      ↔ ∀ output ∈ r.outputs, ¬ StepFile.BreaksOut output.2 := by
    rw [StepFile.read, stepOutputs, StepFile.lines_join r.isKey_of_mem_outputs]
    exact StepFile.readFrom_records_iff r.isKey_of_mem_outputs
  simpa [outputs, hmatrix] using hread

/-- A report whose requirement breaks out. -/
def Report.breakout : Report where
  requirement := ">=8 ||\nPHPVER_EOF\nlatest=5.6\nx<<PHPVER_EOF"
  matrix := ["8.1"]
  minimal := "8.1"
  latest := "8.1"

/-- What stands behind the delimiter in its requirement is read as two more outputs: another
`latest`, and one that the report does not have. -/
theorem Report.read_stepOutputs_breakout :
    StepFile.read breakout.stepOutputs
        = some [("composer-php-version", ">=8 ||"), ("latest", "5.6"), ("x", ""),
            ("matrix", "[\"8.1\"]"), ("minimal", "8.1"), ("latest", "8.1")]
      ∧ StepFile.read breakout.stepOutputs
        ≠ some [("composer-php-version", breakout.requirement),
            ("matrix", breakout.matrixJson.text), ("minimal", breakout.minimal),
            ("latest", breakout.latest)] := by
  decide +kernel

end ReleaseMatrix
