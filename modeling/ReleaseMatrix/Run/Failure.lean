/-
  Failures of a run — one kind for each stage that can fail, in the order of the stages.

  A failure is reported by what the run was about to do; what stood in its way are the *causes*
  behind it, the nearest first.
-/
import ReleaseMatrix.Candidate
import ReleaseMatrix.Catalog.Load
import ReleaseMatrix.Manifest.Load
import ReleaseMatrix.Settings

namespace ReleaseMatrix.Run

/-- Why a run failed. -/
inductive Failure where
  | configuration (failure : Config.Failure)
  | manifest (failure : Manifest.Failure)
  /-- The manifest declares no requirement. -/
  | noRequirement
  | catalog (source : CatalogSource) (failure : Catalog.Failure)
  | matrix (failure : NoVersions)
  | output (path : String) (cause : FileError)
deriving DecidableEq, Repr

namespace Failure

/-- What is reported first. -/
def message : Failure → String
  | configuration failure => failure.message
  | manifest failure => failure.message
  | noRequirement => "composer.json does not declare a PHP requirement"
  | catalog (.file path) _ => "Failed to load release catalog from " ++ path
  | catalog (.url url) _ => "Failed to fetch release catalog from " ++ url
  | matrix failure => failure.message
  | output path _ => "Failed to open " ++ path

/-- The causes behind it. -/
def causes : Failure → List String
  | configuration failure => [failure.cause]
  | manifest failure => [failure.cause]
  | noRequirement => []
  | catalog _ failure => failure.message :: failure.cause?.toList
  | matrix _ => []
  | output _ cause => [cause.message]

end Failure
end ReleaseMatrix.Run
