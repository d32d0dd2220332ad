/-
  Requirements — a constraint string, read once and asked many times.

  Reading never fails: what is not understood admits no version and is recorded as a problem, so it
  sinks its own clause and no other.  Clauses are alternatives; within a clause all tokens must
  hold.  A blank requirement admits everything, but a blank clause among others admits nothing.

  1. **Reading** — `Requirement.ofText`.
  2. **Asking** — `Requirement.admits` of a version, `Requirement.satisfiedBy` of a name.
-/
import ReleaseMatrix.Requirement.Atom
import ReleaseMatrix.Version.Extraction

namespace ReleaseMatrix

/-- A requirement that has been read. -/
structure Requirement where
  /-- The condition that it puts on versions. -/
  constraint : Constraint
  /-- What was not understood, in reading order. -/
  problems : List Problem

/-! ## Clauses -/

namespace Clause

/-- The condition of a clause: all of its tokens, or nothing at all if it has none. -/
def constraint (clause : List Char) : Constraint :=
  match tokens clause with
  | [] => Constraint.nothing
  | ts => Constraint.combine .all (ts.map Token.constraint)

/-- What was not understood in a clause of the requirement `whole`. -/
def problems (whole : String) (clause : List Char) : List Problem :=
  match tokens clause with
  | [] => [.emptyClause whole]
  | ts => ts.filterMap Token.problem?

end Clause

namespace Requirement

/-! ## Reading -/

/-- **Reading a requirement**; the root of the result is labelled with the text itself. -/
def ofText (text : String) : Requirement :=
  match Text.trim text.toList with
  | [] => ⟨.all (some text), []⟩
  | body =>
    let clauses := Clause.alternatives body
    ⟨(Constraint.combine .any (clauses.map Clause.constraint)).relabel (some text),
      clauses.flatMap (Clause.problems (String.ofList body))⟩

/-! ## Asking -/

/-- Whether a version meets the requirement. -/
def admits (r : Requirement) (v : Version) : Bool := r.constraint.admits v

/-- Whether the version that a name holds meets the requirement; a name without one does not. -/
def satisfiedBy (r : Requirement) (name : String) : Bool :=
  match Version.extract? name with
  | some v => r.admits v
  | none => false

/-- The names among these that satisfy the requirement, in their order. -/
def selection (r : Requirement) (names : List String) : List String :=
  names.filter r.satisfiedBy

/-- The requirement in normal form. -/
def text (r : Requirement) : String := r.constraint.text

end Requirement
end ReleaseMatrix
