/-
  Records — what stands in the file of a step's outputs behind a report.

  Each output is a line, or a block of lines if its value has several:

      minimal=8.1                   latest<<PHPVER_EOF
                                    8.3
                                    8.4
                                    PHPVER_EOF

  `Written` says this for one output and `IsRecord` for a report, both of texts and not of a way to
  write them: a text is the record of a report iff it has the four outputs, each once and in order,
  with the matrix as a JSON array on one line (`isRecord_stepOutputs`).
-/
import ReleaseMatrix.Proofs.Report.JsonLine

namespace ReleaseMatrix.Report

/-- What is written for an output with this key and this value. -/
inductive Written (key : String) : String → String → Prop where
  /-- A value on one line stands behind its key. -/
  | line {value : String} (h : '\n' ∉ value.toList) :
      Written key value (key ++ "=" ++ value ++ "\n")
  /-- A value of several lines stands between two lines of its own. -/
  | block {value : String} (h : '\n' ∈ value.toList) :
      Written key value (key ++ "<<PHPVER_EOF\n" ++ value ++ "\nPHPVER_EOF\n")

/-- An output is written in the one of the two ways that is meant for its value. -/
theorem written_outputLines (key value : String) : Written key value (outputLines key value) := by
  unfold outputLines
  by_cases h : '\n' ∈ value.toList
  · have hblock : key ++ "<<" ++ delimiter ++ "\n" ++ value ++ "\n" ++ delimiter ++ "\n" =
        key ++ "<<PHPVER_EOF\n" ++ value ++ "\nPHPVER_EOF\n" := by
      simp [delimiter, String.append_assoc]
    rw [if_pos (by simpa using h), hblock]
    exact .block h
  · rw [if_neg (by simpa using h)]
    exact .line h

/-- The text is the record of a report: its four outputs, each once and in this order. -/
inductive IsRecord (r : Report) : String → Prop where
  | outputs {requirement names minimal latest : String}
      (hrequirement : Written "composer-php-version" r.requirement requirement)
      (hline : '\n' ∉ names.toList)
      (hnames : ∀ v, Json.Reads names v ↔ v = .array (r.matrix.map .string))
      (hminimal : Written "minimal" r.minimal minimal)
      (hlatest : Written "latest" r.latest latest) :
      IsRecord r (requirement ++ ("matrix=" ++ names ++ "\n") ++ minimal ++ latest)

/-- **What is written for a step is the record of the report.** -/
theorem isRecord_stepOutputs (r : Report) : IsRecord r r.stepOutputs := by
  rw [stepOutputs_eq]
  exact .outputs (written_outputLines _ _) r.newline_not_mem_matrixJson r.reads_matrixJson_iff
    (written_outputLines _ _) (written_outputLines _ _)

end ReleaseMatrix.Report
