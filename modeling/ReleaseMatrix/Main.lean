/-
  The command line of the program: arguments, variables and files are read, and what comes out is
  written.  No catalog service is asked: its every request counts as dropped.
-/
import ReleaseMatrix.Program

namespace ReleaseMatrix.Main

/-- The variables that a run may ask for. -/
def variableNames : List String :=
  CommandLine.Key.all.filterMap CommandLine.Key.fallback?
    ++ ["GITHUB_OUTPUT", "CLICOLOR_FORCE", "NO_COLOR", "RUST_LOG", "RUST_LOG_STYLE", "RUNNER_DEBUG"]

/-- The values of these variables. -/
def environment : IO CommandLine.Environment := do
  let known ← variableNames.filterMapM fun name => do
    return (← IO.getEnv name).map fun value => (name, value)
  return fun name => known.lookup name

/-- The full text of a location. -/
def fullPath (l : Location) : String := "/" ++ "/".intercalate l

/-- What is found at a location. -/
def entry? (l : Location) : IO (Option Entry) := do
  try
    return some (.file (← IO.FS.readBinFile (fullPath l)))
  catch
    | .inappropriateType .. => return some .directory
    | _ => return none

/-- The locations that a path passes, from the root down. -/
def passed (current : Location) (path : String) : List Location :=
  let start := if Path.isAbsolute path then [] else current
  let move (l : Location) (name : String) : Location :=
    if name = "." then l else if name = ".." then l.dropLast else l ++ [name]
  let reached := (FileTree.names path).foldl (fun ls name => move (ls.headD []) name :: ls) [start]
  reached.flatMap fun l => (List.range (l.length + 1)).map fun n => l.take n

/-- The files and directories that these paths pass. -/
def snapshot (current : Location) (paths : List String) : IO FileTree := do
  let locations := (paths.flatMap (passed current)).eraseDups
  let entries ← locations.filterMapM fun l => do
    return (← entry? l).map fun e => (l, e)
  return ⟨fun l => entries.lookup l, current⟩

/-- The paths that a command line leads to, apart from those in its configuration. -/
def paths (current : String) (c : CommandLine) (outputFile : Option String) : List String :=
  let dir := c.workingDirectory
  (Path.selfAndAbove dir ++ Path.selfAndAbove (Path.join current dir)).map
      (Path.join · Config.fileName)
    ++ [Manifest.path dir] ++ c.overrides.catalogFile.toList ++ outputFile.toList

/-- The paths that a configuration leads to. -/
def configuredPaths (t : FileTree) (c : CommandLine) : List String :=
  match Config.load t c.workingDirectory with
  | .ok (some config) => config.catalogFile.toList
  | _ => []

/-- The files that a run needs. -/
def files (args : List String) (env : CommandLine.Environment) : IO FileTree := do
  let current := (← IO.currentDir).toString
  let root := FileTree.names current
  match CommandLine.read args env with
  | .error _ => snapshot root []
  | .ok c =>
    let known := paths current c (Program.outputFile env)
    let t ← snapshot root known
    snapshot root (known ++ configuredPaths t c)

/-- Writes the file for step outputs, if the run has changed it. -/
def save (path : String) (before after : FileTree) : IO Unit := do
  match after.locate path with
  | .error _ => return
  | .ok l =>
    match after.entry? l, before.entry? l with
    | some (.file content), some (.file old) =>
      if content != old then IO.FS.writeBinFile (fullPath l) content
    | some (.file content), _ => IO.FS.writeBinFile (fullPath l) content
    | _, _ => return

end ReleaseMatrix.Main

open ReleaseMatrix

/-- Runs the program. -/
def main (args : List String) : IO UInt32 := do
  let env ← Main.environment
  let before ← Main.files args env
  let outcome := Program.run args env before fun _ => .dropped
  if let some path := Program.outputFile env then Main.save path before outcome.files
  IO.print outcome.stdout
  IO.eprint outcome.stderr
  return outcome.code.toUInt32
