/-
  Reports as JSON — what is printed is read back, whatever the values hold.

      {"composer-php-version":"^8.1","matrix":["8.1","8.2"],"minimal":"8.1","latest":"8.2"}

  A report is one line, since a line break in a value is written as two characters.  What is read of
  that line is the object with its four values, and no other value: quotes, backslashes and control
  characters come back as they were.  The names of the matrix are an array of their own among the
  outputs of a step, where they take one line for the same reason.
-/
import ReleaseMatrix.Proofs.Json.Reading
import ReleaseMatrix.Proofs.Report.StepOutputs

namespace ReleaseMatrix

/-! ## Documents -/

namespace Json

/-- A text is read as one value at most. -/
theorem Reads.unique {text : String} {v w : Json} (hv : Reads text v) (hw : Reads text w) :
    v = w := by
  obtain ⟨rest, hv, -⟩ := hv
  obtain ⟨rest', hw, -⟩ := hw
  exact congrArg Prod.fst (Except.ok.inj (hv.symm.trans hw))

/-- The compact text of a value is read as this value and no other, also if a line break ends it. -/
theorem reads_iff_of_spells {v : Json} (h : Spells maxDepth v.text.toList v) (w : Json) :
    (Reads v.text w ↔ w = v) ∧ (Reads (v.text ++ "\n") w ↔ w = v) := by
  have hiff {text : String} (hread : Reads text v) : Reads text w ↔ w = v :=
    ⟨fun hw => hw.unique hread, fun hw => hw ▸ hread⟩
  have hline : Spelled (v.text ++ "\n") v :=
    ⟨[], v.text.toList, ['\n'], String.toList_append, isGap_nil, h, by simp [IsGap, isBlank]⟩
  exact ⟨hiff (reads_of_spelled h.spelled), hiff (reads_of_spelled hline)⟩

theorem spells_string (depth : Nat) (s : String) :
    Spells depth (string s).text.toList (string s) := by
  rw [Spells, text]

end Json

namespace Report

/-- A matrix spells itself: its names in brackets. -/
theorem spells_matrixJson (r : Report) (depth : Nat) :
    Json.Spells (depth + 1) r.matrixJson.text.toList r.matrixJson := by
  refine Json.spells_text_array fun v hv => ?_
  obtain ⟨name, -, rfl⟩ := List.mem_map.mp hv
  exact Json.spells_string depth name

/-- A whole report spells itself. -/
theorem spells_toJson (r : Report) (depth : Nat) :
    Json.Spells (depth + 2) r.toJson.text.toList r.toJson := by
  refine Json.spells_text_object ?_
  simp only [List.forall_mem_cons, List.not_mem_nil, false_imp_iff, implies_true, and_true]
  exact ⟨Json.spells_string _ _, r.spells_matrixJson depth, Json.spells_string _ _,
    Json.spells_string _ _⟩

/-- A report is written without a line break. -/
theorem newline_not_mem_toJson (r : Report) : '\n' ∉ r.toJson.text.toList := by
  refine Json.newline_not_mem_object ?_
  simp only [List.forall_mem_cons, List.not_mem_nil, false_imp_iff, implies_true, and_true]
  exact ⟨Json.newline_not_mem_string _, r.newline_not_mem_matrixJson, Json.newline_not_mem_string _,
    Json.newline_not_mem_string _⟩

/-! ## Reports -/

theorem reads_matrixJson_iff (r : Report) (v : Json) :
    Json.Reads r.matrixJson.text v ↔ v = .array (r.matrix.map .string) :=
  (Json.reads_iff_of_spells (r.spells_matrixJson 126) v).1

/-- The outputs of a step in a row.  The matrix is on one line whatever its names are, so it needs no
block. -/
theorem stepOutputs_eq (r : Report) : r.stepOutputs =
    outputLines "composer-php-version" r.requirement ++ ("matrix=" ++ r.matrixJson.text ++ "\n") ++
      outputLines "minimal" r.minimal ++ outputLines "latest" r.latest := by
  have hmatrix : outputLines "matrix" r.matrixJson.text = "matrix=" ++ r.matrixJson.text ++ "\n" := by
    simp [outputLines, r.newline_not_mem_matrixJson]
  rw [← hmatrix]
  simp [stepOutputs, outputs, String.join, String.append_assoc]

/-- **A report survives as JSON.**  It is a single line, ended by the only line break, and what is
read of it is the object of its four values and nothing else.  Among the outputs of a step the matrix
is on one line too, behind its key, and read as the array of its names. -/
theorem reads_jsonLine_iff (r : Report) :
    (∃ line, r.jsonLine.toList = line ++ ['\n'] ∧ '\n' ∉ line) ∧
    (∀ v, Json.Reads r.jsonLine v ↔ v = .object [("composer-php-version", .string r.requirement),
      ("matrix", .array (r.matrix.map .string)), ("minimal", .string r.minimal),
      ("latest", .string r.latest)]) ∧
    ∃ names : String, '\n' ∉ names.toList ∧
      r.stepOutputs = outputLines "composer-php-version" r.requirement ++
        ("matrix=" ++ names ++ "\n") ++ outputLines "minimal" r.minimal ++
        outputLines "latest" r.latest ∧
      ∀ v, Json.Reads names v ↔ v = .array (r.matrix.map .string) := by
  refine ⟨⟨r.toJson.text.toList, String.toList_append, r.newline_not_mem_toJson⟩,
    fun v => (Json.reads_iff_of_spells (r.spells_toJson 125) v).2, ?_⟩
  exact ⟨r.matrixJson.text, r.newline_not_mem_matrixJson, r.stepOutputs_eq, r.reads_matrixJson_iff⟩

end Report
end ReleaseMatrix
