/-
  Accounts — what a run that fails says of its failure.

  A failure has a chain of messages: what the run was about to do, and behind it what stood in its
  way, the nearest first.

      Failed to load release catalog from c.json
      Failed to read release catalog c.json: No such file or directory (os error 2)
      No such file or directory (os error 2)

  `Tells` is the format of the account.  In `json` and `text` format each message has its line.  In
  `github` format there is one line, a command; its data spell the first message, in the sense that
  reading the codes in them gives it back.

      Error: Failed to load release catalog from c.json
        Caused by: Failed to read release catalog c.json: No such file …
        Caused by: No such file or directory (os error 2)

      ::error::Failed to load release catalog from c.json

  1. **Chains** — `Failure.chain`, message by message (`chain_eq`).
  2. **Accounts** — `Tells`, and that a run that fails tells the chain of its failure (`tells_failure`).
-/
import ReleaseMatrix.Proofs.Run.Command

namespace ReleaseMatrix.Run

/-! ## Chains -/

/-- The messages of what is wrong with a configuration. -/
def configurationChain : Config.Failure → List String
  | .unreadable path cause => ["Failed to read " ++ path, cause.message]
  | .malformed path => ["Failed to parse " ++ path, "<toml>"]

/-- The messages of what is wrong with a manifest. -/
def manifestChain : Manifest.Failure → List String
  | .unreadable path cause => ["Failed to read " ++ path ++ ": " ++ cause.message, cause.message]
  | .malformed path fault => ["Failed to parse " ++ path ++ ": " ++ fault.message, fault.message]

/-- The message of what a run was about to do with a catalog. -/
def catalogContext : CatalogSource → String
  | .file path => "Failed to load release catalog from " ++ path
  | .url url => "Failed to fetch release catalog from " ++ url

/-- The messages of what is wrong with a catalog. -/
def catalogChain : Catalog.Failure → List String
  | .request => ["Request failed: <request>", "<request>"]
  | .status code url => ["HTTP " ++ code.repr ++ ": " ++ url]
  | .unreadable path cause =>
    ["Failed to read release catalog " ++ path ++ ": " ++ cause.message, cause.message]
  | .document fault => ["Failed to parse release catalog: " ++ fault.message, fault.message]

/-- **The messages of a failure**, from what the run was about to do to what stood in its way. -/
def Failure.chain : Failure → List String
  | .configuration failure => configurationChain failure
  | .manifest failure => manifestChain failure
  | .noRequirement => ["composer.json does not declare a PHP requirement"]
  | .catalog source failure => catalogContext source :: catalogChain failure
  | .matrix .noValidVersions => ["no valid versions"]
  | .output path cause => ["Failed to open " ++ path, cause.message]

/-- What is told of a failure is its message and the causes behind it. -/
theorem Failure.chain_eq (e : Failure) : e.chain = e.message :: e.causes := by
  cases e with
  | configuration failure => cases failure <;> rfl
  | manifest failure => cases failure <;> rfl
  | noRequirement => rfl
  | catalog source failure => cases source <;> cases failure <;> rfl
  | matrix failure => cases failure; rfl
  | output path cause => rfl

/-! ## Accounts -/

/-- What is in front of the first message, where it has a line: in bold red, if there are colours. -/
def label (color : Bool) : String := if color then "\x1b[1;31mError:\x1b[0m" else "Error:"

/-- The text tells a chain of messages in a format. -/
inductive Tells (color : Bool) : Format → List String → String → Prop where
  /-- A command, whose data spell the first message. -/
  | command {data what : String} {causes : List String}
      (hdata : Report.IsCommandData data.toList)
      (hread : Report.unescaped data.toList = what.toList) :
      Tells color .github (what :: causes) ("::error::" ++ data ++ "\n")
  /-- A line for each message. -/
  | listed {format : Format} (hformat : format ≠ .github) {what : String} {causes : List String} :
      Tells color format (what :: causes)
        (label color ++ " " ++ what ++ "\n"
          ++ String.join (causes.map fun cause => "  Caused by: " ++ cause ++ "\n"))

/-- The label is the word for an error, in bold red where reports are coloured. -/
theorem styledIf_label (color : Bool) : Text.styledIf color "1;31" "Error:" = label color := by
  cases color
  case false => rfl
  case true => decide +kernel

/-- What is said of a failure tells its message and its causes. -/
theorem tells_failure (color : Bool) (what : String) (causes : List String) (format : Format) :
    Tells color format (what :: causes) (Report.failure color what causes format) := by
  by_cases hformat : format = .github
  · -- the data of the command are the escaped message, and one pass reads it again
    subst hformat
    have hdata : Report.IsCommandData (Report.commandData what).toList :=
      Report.exists_commandData_iff.mp ⟨what, rfl⟩
    refine .command hdata ?_
    rw [Report.toList_commandData, Report.unescaped_flatMap]
  · have hlines : Report.failure color what causes format =
        label color ++ " " ++ what ++ "\n"
          ++ String.join (causes.map fun cause => "  Caused by: " ++ cause ++ "\n") := by
      rw [← styledIf_label]
      cases format with
      | github => exact absurd rfl hformat
      | json | text => rfl
    rw [hlines]
    exact .listed hformat

/-- **A run that fails tells the chain of its failure**, and leaves nothing else behind. -/
theorem outcome_tells {s : Surroundings} {c : CommandLine} {e : Failure}
    (h : (stages s c).result = .error e) :
    ∃ told, outcome s c = ⟨1, "", told, s.files⟩ ∧ Tells s.color c.format e.chain told := by
  refine ⟨_, outcome_of_error h, ?_⟩
  rw [e.chain_eq]
  exact tells_failure s.color e.message e.causes c.format

end ReleaseMatrix.Run
