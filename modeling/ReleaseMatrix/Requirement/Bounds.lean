/-
  From literals to constraints — what a sign in front of a literal asks for.

  A literal stands for all the versions that agree with the numbers it gives.  They are an interval:
  `floor` is the least of them and `ceiling` the first version past them.  So every sign comes down
  to one or two bounds:

      =  floor ≤ v < ceiling        ≥  floor ≤ v        >  ceiling ≤ v
      ≠  v < floor or ceiling ≤ v   <  v < floor        ≤  v < ceiling

  A literal that gives no number is agreed with by every version.
-/
import ReleaseMatrix.Constraint
import ReleaseMatrix.Version.Literal
import ReleaseMatrix.Requirement.Sign

namespace ReleaseMatrix.Literal

open Constraint

/-! ## Intervals -/

/-- The versions from `low` on and below a second bound, either of which may be absent. -/
def between (low : Option Version) (high : Option (Operator × Version)) : Constraint :=
  combine .all
    ((low.map (bound .greaterOrEqual)).toList ++ (high.map fun (op, v) => bound op v).toList)

/-- The versions from `low` on and before `high`. -/
def interval (low high : Version) : Constraint := between (some low) (some (.less, high))

/-! ## Comparisons -/

/-- The constraint of a literal behind a comparison operator. -/
def compared (op : Operator) (l : Literal) : Constraint :=
  match l with
  | .any =>
    match op with
    | .equal | .greaterOrEqual | .lessOrEqual => anything
    | .notEqual | .greater | .less => nothing
  | .patch a b c => bound op ⟨a, b, c⟩
  | .major _ | .minor _ _ =>
    match op with
    | .equal => interval l.floor l.ceiling
    | .notEqual => combine .any [bound .less l.floor, bound .greaterOrEqual l.ceiling]
    | .greater => bound .greaterOrEqual l.ceiling
    | .greaterOrEqual => bound .greaterOrEqual l.floor
    | .less => bound .less l.floor
    | .lessOrEqual => bound .less l.ceiling

/-! ## Tilde and caret -/

/-- The constraint of `~` and a literal: later versions of the minor line that it names, or of the
major line if it names no minor. -/
def tilde (l : Literal) : Constraint :=
  match l with
  | .any => anything
  | .major _ => interval l.floor l.floor.nextMajor
  | .minor _ _ | .patch _ _ _ => interval l.floor l.floor.nextMinor

/-- The first version that `^` and a literal excludes: the next one after the first number that is
not zero, or after the last that is given. -/
def caretEnd (l : Literal) : Version :=
  match l with
  | .any | .major _ => l.floor.nextMajor
  | .minor a _ => if a = 0 then l.floor.nextMinor else l.floor.nextMajor
  | .patch a b _ =>
    if a = 0 then if b = 0 then l.floor.nextPatch else l.floor.nextMinor
    else l.floor.nextMajor

/-- The constraint of `^` and a literal. -/
def caret (l : Literal) : Constraint :=
  match l with
  | .any => anything
  | _ => interval l.floor l.caretEnd

/-! ## Hyphen ranges -/

/-- The constraint of two literals with a hyphen between them: from the first of the versions that
the left one stands for to the last of those of the right one. -/
def hyphen (low high : Literal) : Constraint :=
  between (if low.isAny then none else some low.floor)
    (match high with
     | .any => none
     | .patch a b c => some (.lessOrEqual, ⟨a, b, c⟩)
     | .major _ | .minor _ _ => some (.less, high.ceiling))

end ReleaseMatrix.Literal

namespace ReleaseMatrix.Sign

/-- The constraint of a literal behind a sign; `~>` has none. -/
def constraint? (sign : Sign) (l : Literal) : Option Constraint :=
  match sign with
  | .compare op => some (l.compared op)
  | .tilde => some l.tilde
  | .caret => some l.caret
  | .tildeArrow => none

end ReleaseMatrix.Sign
