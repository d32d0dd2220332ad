/-
  Runs — from a command line to a report.

  1. the configuration that is nearest to the working directory, and with it the settings;
  2. the requirement: given, or else the one that the manifest declares;
  3. the catalog, from a file or from its service;
  4. the matrix of the requirement and its two ends;
  5. the report: to the file for step outputs, if there is one and the format is meant for it, else
     printed.

  The first stage that fails decides (`Run.report`, `Run.stages`), and nothing is printed or written
  but the failure (`Run.outcome`).
-/
import ReleaseMatrix.CommandLine
import ReleaseMatrix.Run.Journal
import ReleaseMatrix.Run.Stage

namespace ReleaseMatrix

/-- What a run finds around it. -/
structure Surroundings where
  files : FileTree
  /-- How the catalog's service takes requests. -/
  service : Catalog.Script
  /-- The file for step outputs, if there is one. -/
  outputFile : Option String
  /-- Reports are coloured. -/
  color : Bool

namespace Run

/-! ## Stages -/

/-- The configuration that a directory goes by. -/
def configuration (t : FileTree) (dir : String) : Stage (Option Config) :=
  ⟨Journal.configuration t dir, 0, (Config.load t dir).mapError .configuration⟩

/-- What the run goes by. -/
def settings (t : FileTree) (c : CommandLine) : Stage Settings := do
  let config? ← configuration t c.workingDirectory
  let s := Settings.resolve c.overrides config?
  Stage.say (Journal.settings s)
  return s

/-- What the manifest at a path declares. -/
def manifest (t : FileTree) (path : String) : Stage (Option String) :=
  let r := Manifest.load t path
  ⟨Journal.manifest path r, 0, r.mapError .manifest⟩

/-- The requirement of the manifest in a directory. -/
def declared (t : FileTree) (dir : String) : Stage String := do
  match ← manifest t (Manifest.path dir) with
  | some text => return text
  | none => Stage.ofResult (.error .noRequirement)

/-- The requirement. -/
def requirement (t : FileTree) (c : CommandLine) : Stage String := do
  let text ← match c.constraint with
    | some text => pure text
    | none => declared t c.workingDirectory
  Stage.say (Journal.requirement text)
  return text

/-- The releases that a catalog lists. -/
def releases (t : FileTree) (service : Catalog.Script) : CatalogSource → Stage (List Release)
  | .file path =>
    let r := Catalog.loadFile t path
    ⟨Journal.catalog r, 0, r.mapError (.catalog (.file path))⟩
  | .url url =>
    let transcript := Catalog.Fetch.run .default service url
    ⟨Journal.fetching url transcript, transcript.requests,
      transcript.result.mapError (.catalog (.url url))⟩

/-- The matrix. -/
def matrix (text : String) (releases : List Release) (f : Filters) : Stage (List String) :=
  ⟨Journal.matrix text releases f, 0, (Matrix.build text releases f).mapError .matrix⟩

/-- An end of the matrix. -/
def extreme (r : Except NoVersions String) : Stage String := .ofResult (r.mapError .matrix)

/-- What the run finds out. -/
def report (s : Surroundings) (c : CommandLine) : Stage Report := do
  let settings ← settings s.files c
  let text ← requirement s.files c
  let releases ← releases s.files s.service settings.catalog
  let names ← matrix text releases settings.filters
  return ⟨text, names, ← extreme (Name.minimum names), ← extreme (Name.maximum names)⟩

/-- What is printed in the end, and what the files are then. -/
structure Product where
  printed : String
  files : FileTree

/-- Puts the report where it belongs. -/
def deliver (s : Surroundings) (format : Format) (r : Report) : Stage Product :=
  match format, s.outputFile with
  | .github, some path =>
    ⟨Journal.output path, 0,
      match s.files.append path r.stepOutputs with
      | .error cause => .error (.output path cause)
      | .ok files => .ok ⟨"", files⟩⟩
  | _, _ => pure ⟨r.render s.color format, s.files⟩

/-- All stages. -/
def stages (s : Surroundings) (c : CommandLine) : Stage Product := do
  deliver s c.format (← report s c)

/-! ## Outcome -/

/-- What a run leaves behind. -/
structure Outcome where
  code : Nat
  stdout : String
  stderr : String
  files : FileTree

/-- What a run with this result leaves behind. -/
def Outcome.ofResult (s : Surroundings) (format : Format) : Except Failure Product → Outcome
  | .ok product => ⟨0, product.printed, "", product.files⟩
  | .error e => ⟨1, "", Report.failure s.color e.message e.causes format, s.files⟩

/-- **The outcome of a run.** -/
def outcome (s : Surroundings) (c : CommandLine) : Outcome :=
  .ofResult s c.format (stages s c).result

/-- How many requests a run sends. -/
def requests (s : Surroundings) (c : CommandLine) : Nat := (stages s c).requests

end Run
end ReleaseMatrix
