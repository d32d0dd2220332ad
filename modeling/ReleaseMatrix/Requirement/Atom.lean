/-
  Atoms — a sign and a literal, read as one constraint or refused for one reason.

  An atom loses its stability flag first.  Then
  1. `~>` is refused, whatever follows it;
  2. a sign without a literal is refused;
  3. what follows the sign must be a literal.
-/
import ReleaseMatrix.Requirement.Bounds
import ReleaseMatrix.Requirement.Clause
import ReleaseMatrix.Requirement.Stability

namespace ReleaseMatrix

/-- Why a part of a requirement could not be understood; `constraint` is that part. -/
inductive Problem where
  | emptyVersion (constraint : String)
  | invalidVersion (constraint version : String)
  | invalidOperator (constraint operator : String)
  | incompleteRange (constraint : String)
  | emptyClause (constraint : String)
deriving DecidableEq, Repr

namespace Problem

/-- The part that was not understood. -/
def constraint : Problem → String
  | emptyVersion c | invalidVersion c _ | invalidOperator c _ | incompleteRange c
  | emptyClause c => c

/-- What is wrong with it. -/
def reason : Problem → String
  | emptyVersion _ => "empty version"
  | invalidVersion _ version => "Invalid version \"" ++ version ++ "\""
  | invalidOperator _ operator => "Invalid operator \"" ++ operator ++ "\""
  | incompleteRange _ => "incomplete hyphen range"
  | emptyClause _ => "empty clause"

/-- What is reported. -/
def message (p : Problem) : String :=
  "Could not parse version constraint " ++ p.constraint ++ ": " ++ p.reason

end Problem

namespace Clause.Token

/-! ## Reading -/

/-- Reads one atom. -/
def readAtom (atom : List Char) : Except Problem Constraint :=
  let constraint := String.ofList atom
  -- an atom that was only a flag asks for any version
  let body := match Stability.drop atom with
    | [] => ['*']
    | body => body
  let (sign, literal) := Sign.split body
  if sign = .tildeArrow then .error (.invalidOperator constraint "~>")
  else if literal = [] then .error (.emptyVersion constraint)
  else
    match (Literal.read? literal).bind sign.constraint? with
    | some c => .ok c
    | none => .error (.invalidVersion constraint (String.ofList literal))

/-- Reads the two ends of a range, the left one first. -/
def readRange (low high : List Char) : Except Problem Constraint :=
  let constraint := (range low high).text
  match Literal.read? low with
  | none => .error (.invalidVersion constraint (String.ofList low))
  | some l =>
    match Literal.read? high with
    | none => .error (.invalidVersion constraint (String.ofList high))
    | some h => .ok (l.hyphen h)

/-- Reads a token. -/
def read : Clause.Token → Except Problem Constraint
  | atom text => readAtom text
  | range low high => readRange low high
  | openRange low => .error (.incompleteRange (openRange low).text)

/-- The constraint of a token under its label; what was not understood admits nothing. -/
def constraint (t : Clause.Token) : Constraint :=
  (match t.read with
    | .ok c => c
    | .error _ => Constraint.nothing).relabel (some t.text)

/-- What was not understood in a token. -/
def problem? (t : Clause.Token) : Option Problem :=
  match t.read with
  | .ok _ => none
  | .error p => some p

end Clause.Token
end ReleaseMatrix
