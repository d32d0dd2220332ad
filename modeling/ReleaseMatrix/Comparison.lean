/-
  Comparing two names by the versions that they hold.

  A comparison with a name that holds no version is false, whatever the operator: not even
  `equal "master" "master"` holds.
-/
import ReleaseMatrix.Constraint.Operator
import ReleaseMatrix.Version.Extraction

namespace ReleaseMatrix.Name

/-- Compares the version of `a` with that of `b`. -/
def compare (a : String) (op : Operator) (b : String) : Bool :=
  match Version.extract? a, Version.extract? b with
  | some v, some w => op.holds v w
  | _, _ => false

/-- Both hold the same version. -/
def equal (a b : String) : Bool := compare a .equal b

/-- Both hold versions, and these differ. -/
def notEqual (a b : String) : Bool := compare a .notEqual b

/-- The version of `a` comes before that of `b`. -/
def less (a b : String) : Bool := compare a .less b

/-- The version of `a` does not come after that of `b`. -/
def lessOrEqual (a b : String) : Bool := compare a .lessOrEqual b

/-- The version of `a` comes after that of `b`. -/
def greater (a b : String) : Bool := compare a .greater b

/-- The version of `a` does not come before that of `b`. -/
def greaterOrEqual (a b : String) : Bool := compare a .greaterOrEqual b

end ReleaseMatrix.Name
