/-
  Reports — what a run says in the end, in one of three formats.

      github   outputs of a workflow step, one `key=value` a line; a value of several lines stands
               between `key<<PHPVER_EOF` and a line `PHPVER_EOF`
      json     one JSON object on one line
      text     a table for people

  A failure is an `::error::` command in the first format, and a list of causes in the others.
-/
import ReleaseMatrix.Json
import ReleaseMatrix.Text.Style

namespace ReleaseMatrix

/-- How a run reports. -/
inductive Format where
  | github
  | json
  | text
deriving DecidableEq, Repr

namespace Format

/-- The name of a format. -/
def name : Format → String
  | github => "github"
  | json => "json"
  | text => "text"

/-- The formats. -/
def all : List Format := [github, json, text]

/-- The format of a name. -/
def named? (name : String) : Option Format := all.find? (·.name == name)

end Format

/-- What a successful run has found. -/
structure Report where
  requirement : String
  matrix : List String
  minimal : String
  latest : String
deriving DecidableEq, Repr

namespace Report

/-! ## JSON -/

/-- The names of the matrix as an array. -/
def matrixJson (r : Report) : Json := .array (r.matrix.map .string)

/-- The report as an object. -/
def toJson (r : Report) : Json :=
  .object [("composer-php-version", .string r.requirement), ("matrix", r.matrixJson),
    ("minimal", .string r.minimal), ("latest", .string r.latest)]

/-- The report on one line. -/
def jsonLine (r : Report) : String := r.toJson.text ++ "\n"

/-! ## Step outputs -/

/-- The line that ends a value of several lines. -/
def delimiter : String := "PHPVER_EOF"

/-- The outputs of a step, in order. -/
def outputs (r : Report) : List (String × String) :=
  [("composer-php-version", r.requirement), ("matrix", r.matrixJson.text), ("minimal", r.minimal),
    ("latest", r.latest)]

/-- One output as it is recorded. -/
def outputLines (key value : String) : String :=
  if value.toList.contains '\n' then
    key ++ "<<" ++ delimiter ++ "\n" ++ value ++ "\n" ++ delimiter ++ "\n"
  else key ++ "=" ++ value ++ "\n"

/-- The record of a step's outputs. -/
def stepOutputs (r : Report) : String :=
  String.join (r.outputs.map fun (key, value) => outputLines key value)

/-! ## Summary -/

/-- One line of the summary: a label and what it stands for. -/
def summaryLine (color : Bool) (label value : String) : String :=
  Text.styledIf color "1" (Text.padRight 16 label) ++ " " ++ value ++ "\n"

/-- The report for people, with colours or without. -/
def summary (color : Bool) (r : Report) : String :=
  summaryLine color "PHP requirement" (Text.styledIf color "36" r.requirement)
    ++ summaryLine color "Matrix" (", ".intercalate r.matrix)
    ++ summaryLine color "Minimal" (Text.styledIf color "32" r.minimal)
    ++ summaryLine color "Latest" (Text.styledIf color "32" r.latest)

/-- **The report** in a format. -/
def render (color : Bool) (r : Report) : Format → String
  | .github => r.stepOutputs
  | .json => r.jsonLine
  | .text => r.summary color

/-! ## Failures -/

/-- A character as it stands in the data of a workflow command. -/
def escapedInCommand (c : Char) : List Char :=
  if c = '%' then ['%', '2', '5']
  else if c = '\r' then ['%', '0', 'D']
  else if c = '\n' then ['%', '0', 'A']
  else [c]

/-- The data of a workflow command, on one line. -/
def commandData (text : String) : String := String.ofList (text.toList.flatMap escapedInCommand)

/-- What is said of a failure, given what failed and the causes behind it. -/
def failure (color : Bool) (what : String) (causes : List String) : Format → String
  | .github => "::error::" ++ commandData what ++ "\n"
  | .json | .text =>
    Text.styledIf color "1;31" "Error:" ++ " " ++ what ++ "\n"
      ++ String.join (causes.map fun cause => "  Caused by: " ++ cause ++ "\n")

end Report
end ReleaseMatrix
