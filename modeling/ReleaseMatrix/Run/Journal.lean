/-
  The journal of a run — what is said about each of its stages.
-/
import ReleaseMatrix.Catalog.Fetch
import ReleaseMatrix.Log
import ReleaseMatrix.Manifest.Load
import ReleaseMatrix.Matrix
import ReleaseMatrix.Settings
import ReleaseMatrix.Text.Duration
import ReleaseMatrix.Text.Quoted

namespace ReleaseMatrix.Run.Journal

open Log (Record)

/-! ## Settings -/

/-- The word for a truth value. -/
def truth (b : Bool) : String := if b then "true" else "false"

/-- The word for a policy. -/
def policy : SupportPolicy → String
  | .secureOrMaintained => "SecureOrMaintained"
  | .secureOnly => "SecureOnly"

/-- A source of the catalog, by its kind. -/
def source : CatalogSource → String
  | .file path => "File(" ++ Text.quotedPath path ++ ")"
  | .url url => "Url(" ++ Text.quoted url ++ ")"

/-- Fields by name, between braces. -/
def fields (name : String) (values : List (String × String)) : String :=
  name ++ " \x7b " ++ ", ".intercalate (values.map fun (key, value) => key ++ ": " ++ value)
    ++ " \x7d"

/-- All settings on one line. -/
def settingsText (s : Settings) : String :=
  fields "Settings"
    [("options", fields "MatrixOptions"
        [("include_future", truth s.filters.includeFuture),
          ("include_unsupported", truth s.filters.includeUnsupported),
          ("support_policy", policy s.filters.policy)]),
      ("catalog", source s.catalog)]

/-- The configuration that a directory goes by. -/
def configuration (t : FileTree) (dir : String) : List Record :=
  match Config.find? t dir with
  | none => []
  | some found =>
    [⟨.debug, "phpver::config", "Using configuration from " ++ Path.join found Config.fileName⟩]

/-- The settings of a run. -/
def settings (s : Settings) : List Record :=
  [⟨.debug, "phpver", "Resolved settings: " ++ settingsText s⟩]

/-! ## Requirement -/

/-- What a manifest declares. -/
def manifest (path : String) (r : Except Manifest.Failure (Option String)) : List Record :=
  match r with
  | .error _ => []
  | .ok (some c) =>
    [⟨.debug, "phpver_matrix::manifest", "PHP version defined in " ++ path ++ " is " ++ c⟩]
  | .ok none => [⟨.debug, "phpver_matrix::manifest", path ++ " declares no PHP requirement"⟩]

/-- The requirement of a run. -/
def requirement (text : String) : List Record :=
  [⟨.info, "phpver", "PHP requirement is " ++ text⟩]

/-! ## Catalog -/

/-- How many releases a catalog lists. -/
def catalog (r : Except Catalog.Failure (List Release)) : List Record :=
  match r with
  | .error _ => []
  | .ok releases =>
    [⟨.debug, "phpver_matrix::catalog",
      "Release catalog lists " ++ releases.length.repr ++ " releases"⟩]

/-- A failure that is followed by another try. -/
def retry (failure : Catalog.Failure) (delay : Nat) : Record :=
  ⟨.warn, "phpver_matrix::catalog",
    failure.message ++ ", retrying in " ++ Text.duration delay⟩

/-- How a catalog was fetched. -/
def fetching (url : String) (t : Catalog.Fetch.Transcript) : List Record :=
  [⟨.info, "phpver_matrix::catalog", "Fetching release catalog from " ++ url⟩]
    ++ List.zipWith retry t.retried t.delays ++ catalog t.result

/-! ## Matrix -/

/-- A name that is passed over, since it holds no version. -/
def passedOver (name : String) : Record :=
  ⟨.trace, "phpver_semver::semver", "Skipping non-canonical version " ++ Text.quoted name⟩

/-- Whether a requirement admits a candidate. -/
def verdict (text : String) (r : Requirement) (c : Candidate) : Record :=
  ⟨.trace, "phpver_matrix::matrix",
    c.text ++ " against " ++ text ++ ": " ++ truth (r.admits c.version)⟩

/-- How the matrix of a requirement was built. -/
def matrix (text : String) (releases : List Release) (f : Filters) : List Record :=
  let r := Requirement.ofText text
  let names := f.names releases
  r.problems.map (fun p => ⟨.warn, "phpver_semver::version_parser", p.message⟩)
    ++ [⟨.debug, "phpver_matrix::matrix", names.length.repr ++ " of " ++ releases.length.repr
      ++ " releases pass the lifecycle filters"⟩]
    ++ (names.filter fun name => (Candidate.ofName? name).isNone).map passedOver
    ++ (Candidate.ofNames names).map (verdict text r)

/-! ## Outputs -/

/-- Where the outputs of a step go. -/
def output (path : String) : List Record :=
  [⟨.debug, "phpver::output", "Appending step outputs to " ++ path⟩]

end ReleaseMatrix.Run.Journal
