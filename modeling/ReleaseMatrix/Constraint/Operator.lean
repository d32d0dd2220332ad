/-
  Comparison operators — the six ways to compare a candidate version with a bound.

  Each has one canonical spelling, the one that normalised requirements are written in.  Two more
  spellings are read, `=` for `==` and `<>` for `!=`; and no operator at all also means `==`.
-/
import ReleaseMatrix.Version

namespace ReleaseMatrix

/-- How a candidate is compared with a bound. -/
inductive Operator where
  | equal
  | notEqual
  | less
  | lessOrEqual
  | greater
  | greaterOrEqual
deriving DecidableEq, Repr, Inhabited

namespace Operator

/-! ## Meaning -/

/-- Whether a candidate that stands in this order to the bound is let through. -/
def admits : Operator → Ordering → Bool
  | equal, o => o.isEq
  | notEqual, o => o.isNe
  | less, o => o.isLT
  | lessOrEqual, o => o.isLE
  | greater, o => o.isGT
  | greaterOrEqual, o => o.isGE

/-- `a` compared with the bound `b`. -/
def holds (op : Operator) (a b : Version) : Bool := op.admits (a.compare b)

/-! ## Spelling -/

/-- The canonical spelling. -/
def text : Operator → String
  | equal => "=="
  | notEqual => "!="
  | less => "<"
  | lessOrEqual => "<="
  | greater => ">"
  | greaterOrEqual => ">="

instance : ToString Operator := ⟨text⟩

/-- The six operators. -/
def all : List Operator := [equal, less, lessOrEqual, greater, greaterOrEqual, notEqual]

/-- The spellings that are advertised, in the order in which they are. -/
def spellings : List String := ["=", "==", "<", "<=", ">", ">=", "!=", "<>"]

/-- The text is no operator. -/
structure Unknown where
  spelling : String
deriving DecidableEq, Repr

/-- What is reported for it. -/
def Unknown.message (u : Unknown) : String := "Invalid operator: " ++ u.spelling

/-- Reads a spelling; the empty text means `==`. -/
def read (spelling : String) : Except Unknown Operator :=
  match spelling with
  | "" | "=" | "==" => .ok equal
  | "!=" | "<>" => .ok notEqual
  | "<" => .ok less
  | "<=" => .ok lessOrEqual
  | ">" => .ok greater
  | ">=" => .ok greaterOrEqual
  | other => .error ⟨other⟩

end Operator
end ReleaseMatrix
