/-
  Clauses — the alternatives of a requirement, and the tokens of each.

  1. A requirement is cut at every `||`, or at a single `|` where no second one follows.
  2. A clause is cut into *pieces* at blanks and commas.
  3. Pieces become *tokens*: a sign that stands alone is glued to the next piece, `a - b` is one
     range, every other piece is an atom of its own.

  Each piece goes into exactly one token, in the order of the clause.
-/
import ReleaseMatrix.Text.Blank
import ReleaseMatrix.Text.Split
import ReleaseMatrix.Requirement.Sign

namespace ReleaseMatrix.Clause

open Text

/-! ## Alternatives -/

/-- The alternatives of a requirement: the parts between its bars. -/
def alternatives : List Char → List (List Char)
  | [] => [[]]
  | '|' :: '|' :: rest => [] :: alternatives rest
  | '|' :: rest => [] :: alternatives rest
  | c :: rest => consFirst c (alternatives rest)

/-! ## Pieces -/

/-- What separates the pieces of a clause. -/
def isSeparator (c : Char) : Bool := isBlank c || c == ','

/-- The maximal parts of a clause without separators. -/
def pieces (clause : List Char) : List (List Char) :=
  (splitWhere isSeparator clause).filter (fun piece => !piece.isEmpty)

/-! ## Tokens -/

/-- What is read as one condition. -/
inductive Token where
  /-- A literal, or a sign, or a sign and its literal. -/
  | atom (text : List Char)
  /-- Two literals with a hyphen between them. -/
  | range (low high : List Char)
  /-- A literal and a hyphen that nothing follows. -/
  | openRange (low : List Char)
deriving DecidableEq, Repr

namespace Token

/-- The token as it is quoted in labels and reports. -/
def text : Token → String
  | atom text => String.ofList text
  | range low high => String.ofList low ++ " - " ++ String.ofList high
  | openRange low => String.ofList low ++ " -"

/-- The characters of the pieces that went into the token. -/
def content : Token → List Char
  | atom text => text
  | range low high => low ++ '-' :: high
  | openRange low => low ++ ['-']

end Token

/-- The tokens of a list of pieces, when `pending` is a lone sign that still waits for its literal.
A sign that another sign follows stays an atom of its own, and so does one that nothing follows. -/
def tokensFrom : Option (List Char) → List (List Char) → List Token
  | none, [] => []
  | some sign, [] => [.atom sign]
  | pending, piece :: rest =>
    if Sign.standsAlone piece then
      match pending with
      | some sign => .atom sign :: tokensFrom (some piece) rest
      | none => tokensFrom (some piece) rest
    else
      match pending with
      | some sign => .atom (sign ++ piece) :: tokensFrom none rest
      | none =>
        match rest with
        | ['-'] :: high :: rest => .range piece high :: tokensFrom none rest
        | [['-']] => [.openRange piece]
        | rest => .atom piece :: tokensFrom none rest

/-- The tokens of a clause. -/
def tokens (clause : List Char) : List Token := tokensFrom none (pieces clause)

end ReleaseMatrix.Clause
