/-
  Version literals — the operands of a requirement, such as `8`, `v8.1`, `8.x` or `8.1.0-RC1+x`.

  A literal is, in this order,
  1. an optional `v` or `V`;
  2. one to three components joined by dots, each 1 to 16 decimal digits or one of `x`, `X`, `*`;
  3. optionally a dot and 1 to 16 digits more, which count for nothing;
  4. optionally a qualifier: `-` and at least one of the characters `0-9 A-Z a-z . -`, or a letter
     and any number of them;
  5. optionally a build mark: `+` and at least one of these characters.

  Reading it left to right needs no second thoughts: a dot can only begin a component, and where a
  component ends no digit may follow.  The value is the chain of numbers up to the first wildcard;
  a component with a digit outside ASCII spells no number and ends the chain like a wildcard.
-/
import ReleaseMatrix.Version.Extraction

namespace ReleaseMatrix

/-- What a literal says of a version: the leading numbers that it gives. -/
inductive Literal where
  | any
  | major (major : UInt64)
  | minor (major minor : UInt64)
  | patch (major minor patch : UInt64)
deriving DecidableEq, Repr, Inhabited

namespace Literal

open Text

/-! ## Meaning -/

/-- No number is given: the literal starts with a wildcard. -/
def isAny : Literal → Bool
  | any => true
  | _ => false

/-- The version that a full literal names. -/
def full? : Literal → Option Version
  | patch a b c => some ⟨a, b, c⟩
  | _ => none

/-- The least version that agrees with the literal. -/
def floor : Literal → Version
  | any => ⟨0, 0, 0⟩
  | major a => ⟨a, 0, 0⟩
  | minor a b => ⟨a, b, 0⟩
  | patch a b c => ⟨a, b, c⟩

/-- The first version past those that agree with the literal: 8.3.0 for `8.2`. -/
def ceiling (l : Literal) : Version :=
  match l with
  | any | major _ => l.floor.nextMajor
  | minor _ _ => l.floor.nextMinor
  | patch _ _ _ => l.floor.nextPatch

/-! ## Components -/

/-- One component as written. -/
inductive Component where
  | number (n : UInt64)
  | wildcard
deriving DecidableEq, Repr

/-- One of the three characters that leave a component open. -/
def isWildcard (c : Char) : Bool := c == 'x' || c == 'X' || c == '*'

/-- The component at the start of a text and what follows it. -/
def Component.read? : List Char → Option (Component × List Char)
  | [] => none
  | c :: rest =>
    if isWildcard c then some (.wildcard, rest)
    else
      let run := splitRun (c :: rest)
      if Version.isShort run.1 then
        some ((Version.component? run.1).elim .wildcard .number, run.2)
      else none

/-- The components at the start of a text: one, then up to `more` behind a dot each.  A dot that
    no component follows spoils the whole literal. -/
def readComponents? : Nat → List Char → Option (List Component × List Char)
  | 0, cs => do
    let (first, rest) ← Component.read? cs
    return ([first], rest)
  | more + 1, cs => do
    let (first, rest) ← Component.read? cs
    match rest with
    | '.' :: behind => do
      let (others, rest) ← readComponents? more behind
      return (first :: others, rest)
    | _ => return ([first], rest)

/-- The chain of numbers up to the first wildcard. -/
def ofComponents : List Component → Literal
  | .number a :: .number b :: .number c :: _ => patch a b c
  | .number a :: .number b :: _ => minor a b
  | .number a :: _ => major a
  | _ => any

/-! ## What may follow the components -/

/-- A character of a qualifier or a build mark. -/
def isMark (c : Char) : Bool := c.isAlphanum || c == '.' || c == '-'

/-- Drops the fourth number, if there is one; `none` if a dot is followed by anything else. -/
def dropFourth? : List Char → Option (List Char)
  | '.' :: rest => if Version.isShort (splitRun rest).1 then some (splitRun rest).2 else none
  | cs => some cs

/-- Drops the qualifier, if there is one; `none` if a hyphen stands alone. -/
def dropQualifier? : List Char → Option (List Char)
  | '-' :: c :: rest => if isMark c then some (rest.dropWhile isMark) else none
  | ['-'] => none
  | c :: rest => some (if c.isAlpha then rest.dropWhile isMark else c :: rest)
  | [] => some []

/-- What is left must be nothing, or a build mark. -/
def isBuild : List Char → Bool
  | [] => true
  | '+' :: c :: rest => isMark c && rest.all isMark
  | _ => false

/-- What may stand behind the components of a literal. -/
def isTail (cs : List Char) : Bool :=
  match (dropFourth? cs).bind dropQualifier? with
  | some rest => isBuild rest
  | none => false

/-! ## Reading -/

/-- The text without a leading `v` or `V`. -/
def dropMarker : List Char → List Char
  | c :: rest => if c == 'v' || c == 'V' then rest else c :: rest
  | [] => []

/-- **Reading a literal**: the whole text must be one. -/
def read? (cs : List Char) : Option Literal :=
  match readComponents? 2 (dropMarker cs) with
  | some (components, rest) => if isTail rest then some (ofComponents components) else none
  | none => none

end Literal
end ReleaseMatrix
