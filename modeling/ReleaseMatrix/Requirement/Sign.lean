/-
  Signs — what may stand in front of a literal in a requirement.

  A sign is the longest of `<>  !=  >  >=  <  <=  =  ==  ~  ~>  ^` that the text starts with, and no
  sign at all compares for equality.  `~>` is recognised only to be refused.
-/
import ReleaseMatrix.Constraint.Operator

namespace ReleaseMatrix

/-- What a literal is asked for. -/
inductive Sign where
  | compare (operator : Operator)
  | tilde
  | caret
  | tildeArrow
deriving DecidableEq, Repr

namespace Sign

/-- The sign that a text starts with, and the rest. -/
def split : List Char → Sign × List Char
  | '<' :: '>' :: rest => (.compare .notEqual, rest)
  | '<' :: '=' :: rest => (.compare .lessOrEqual, rest)
  | '<' :: rest => (.compare .less, rest)
  | '>' :: '=' :: rest => (.compare .greaterOrEqual, rest)
  | '>' :: rest => (.compare .greater, rest)
  | '!' :: '=' :: rest => (.compare .notEqual, rest)
  | '=' :: '=' :: rest => (.compare .equal, rest)
  | '=' :: rest => (.compare .equal, rest)
  | '~' :: '>' :: rest => (.tildeArrow, rest)
  | '~' :: rest => (.tilde, rest)
  | '^' :: rest => (.caret, rest)
  | rest => (.compare .equal, rest)

/-- The text is a sign and nothing else. -/
def standsAlone (cs : List Char) : Bool := !cs.isEmpty && (split cs).2.isEmpty

end Sign
end ReleaseMatrix
