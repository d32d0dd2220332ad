/-
  The program — a run as a process sees it: arguments and variables go in; a code, two texts and
  changed files come out.

  The variables also say what of the journal is written, and where colours are on.  The journal
  comes before the report of a failure.
-/
import ReleaseMatrix.Log.Filter
import ReleaseMatrix.Run

namespace ReleaseMatrix.Program

open CommandLine (Environment Rejection)
open Run (Outcome)

/-- The name and the version of the program. -/
def versionLine : String := "phpver 0.0.1\n"

/-- Stands for what the reader of arguments writes: how the program is called, and what is wrong with
a command line.  These texts are its own, and nothing here depends on them. -/
def usage : String := "<usage>"

/-! ## Environment -/

/-- The file for step outputs. -/
def outputFile (env : Environment) : Option String := env "GITHUB_OUTPUT"

/-- Reports are coloured: it takes a variable that is not `0`, since nothing is written to a
terminal. -/
def colorsReports (env : Environment) : Bool := (env "CLICOLOR_FORCE").any (· != "0")

/-- The journal is coloured. -/
def colorsJournal (env : Environment) : Bool :=
  match env "RUST_LOG_STYLE" with
  | some "always" => true
  | some "never" => false
  | _ =>
    let isSet (name : String) : Bool := (env name).any fun value => !value.isEmpty
    isSet "CLICOLOR_FORCE" && !isSet "NO_COLOR"

/-- The filter of the journal, as it is written. -/
def filterText (env : Environment) (verbose : Bool) : String :=
  match env "RUST_LOG" with
  | some text => text
  | none => if verbose || env "RUNNER_DEBUG" == some "1" then "debug" else "warn"

/-- What is written of a journal. -/
def journalText (env : Environment) (verbose : Bool) (records : List Log.Record) : String :=
  let (filter, complaints) := Log.Filter.read (filterText env verbose)
  String.join (complaints.map Log.Filter.Complaint.line)
    ++ String.join ((records.filter filter.admits).map (·.line (colorsJournal env)))

/-! ## Process -/

/-- What the program runs with. -/
def surroundings (env : Environment) (files : FileTree) (service : Catalog.Script) : Surroundings :=
  ⟨files, service, outputFile env, colorsReports env⟩

/-- What becomes of a command line without a run. -/
def answer (files : FileTree) : Rejection → Outcome
  | .help => ⟨0, usage, "", files⟩
  | .version => ⟨0, versionLine, "", files⟩
  | _ => ⟨2, "", usage, files⟩

/-- **The process.** -/
def run (args : List String) (env : Environment) (files : FileTree) (service : Catalog.Script) :
    Outcome :=
  match CommandLine.read args env with
  | .error rejection => answer files rejection
  | .ok c =>
    let s := surroundings env files service
    let outcome := Run.outcome s c
    { outcome with stderr := journalText env c.verbose (Run.stages s c).records ++ outcome.stderr }

end ReleaseMatrix.Program
