/-
  Log filters — which records are written.

      info                  records of a level or a more important one
      off                   none
      phpver=debug          the same, for the targets that begin with a name
      phpver                all levels of them
      warn/cache            besides, only records whose message contains a text

  Several directives are separated by commas, and the one with the longest name that fits a target
  decides.  A directive that is not understood is passed over with a complaint; if none is left,
  only errors are written.
-/
import ReleaseMatrix.Log
import ReleaseMatrix.Text.Blank
import ReleaseMatrix.Text.Split

namespace ReleaseMatrix.Log

open Text

/-- A rule for the targets that begin with a name, or for all. -/
structure Directive where
  name : Option String
  /-- The least important level that is written; `none` if nothing is. -/
  threshold : Option Level
deriving DecidableEq, Repr

namespace Directive

/-- The rule is meant for a target. -/
def fits (d : Directive) (target : String) : Bool :=
  match d.name with
  | none => true
  | some name => name.toList.isPrefixOf target.toList

/-- The rule lets a level through. -/
def passes (d : Directive) (level : Level) : Bool :=
  match d.threshold with
  | none => false
  | some threshold => level.rank ≤ threshold.rank

/-- How long the name is. -/
def length (d : Directive) : Nat := d.name.elim 0 String.utf8ByteSize

end Directive

/-- Which records are written. -/
structure Filter where
  directives : List Directive
  /-- What a message must contain. -/
  needle : Option String
deriving DecidableEq, Repr

namespace Filter

/-! ## Asking -/

/-- A text occurs in another. -/
def occursIn (needle : List Char) : List Char → Bool
  | [] => needle.isEmpty
  | c :: rest => needle.isPrefixOf (c :: rest) || occursIn needle rest

/-- The rule that decides about a target: of the fitting ones that with the longest name, and the
last of several. -/
def decisive? (f : Filter) (target : String) : Option Directive :=
  (f.directives.mergeSort fun a b => decide (a.length ≤ b.length)).reverse.find? (·.fits target)

/-- Whether a record is written. -/
def admits (f : Filter) (r : Record) : Bool :=
  (f.decisive? r.target).any (·.passes r.level)
    && f.needle.all fun needle => occursIn needle.toList r.message.toList

/-! ## Reading -/

/-- Why a filter, or a part of it, is not understood. -/
inductive Complaint where
  | surplusSlash (filter : String)
  | badPart (text : String)
deriving DecidableEq, Repr

/-- What is said about it. -/
def Complaint.message : Complaint → String
  | surplusSlash filter => "invalid logging spec '" ++ filter ++ "' (too many '/'s)"
  | badPart text => "invalid logging spec '" ++ text ++ "'"

/-- The line that a complaint is. -/
def Complaint.line (c : Complaint) : String := "warning: " ++ c.message ++ ", ignoring it\n"

/-- The threshold that a word names, in any case. -/
def threshold? (word : List Char) : Option (Option Level) :=
  let word := String.ofList (word.map Char.toUpper)
  if word = "OFF" then some none
  else (Level.all.find? fun level => level.name == word).map some

/-- Reads one directive. -/
def readDirective (text : List Char) : Except Complaint Directive :=
  match splitWhere (· == '=') text with
  | [word] =>
    match threshold? word with
    | some threshold => .ok ⟨none, threshold⟩
    | none => .ok ⟨some (String.ofList word), some .trace⟩
  | [name, level] =>
    match trim level with
    | [] => .ok ⟨some (String.ofList name), some .trace⟩
    | word =>
      match threshold? word with
      | some threshold => .ok ⟨some (String.ofList name), threshold⟩
      | none => .error (.badPart (String.ofList word))
  | _ => .error (.badPart (String.ofList text))

/-- Adds a directive; it takes the place of one with the same name. -/
def put (d : Directive) : List Directive → List Directive
  | [] => [d]
  | e :: rest => if e.name = d.name then d :: rest else e :: put d rest

/-- Reads directives one after the other. -/
def readDirectives : List (List Char) → List Directive → List Directive × List Complaint
  | [], ds => (ds, [])
  | text :: rest, ds =>
    match readDirective text with
    | .ok d => readDirectives rest (put d ds)
    | .error c =>
      let (ds, cs) := readDirectives rest ds
      (ds, c :: cs)

/-- The filter with these directives, or with the one that stands in for none. -/
def ofDirectives (ds : List Directive) (needle : Option String) : Filter :=
  ⟨if ds.isEmpty then [⟨none, some .error⟩] else ds, needle⟩

/-- **Reading a filter**, and the complaints about it. -/
def read (text : String) : Filter × List Complaint :=
  let readWith (body : List Char) (needle : Option String) : Filter × List Complaint :=
    let parts := ((splitWhere (· == ',') body).map trim).filter fun part => !part.isEmpty
    let (ds, cs) := readDirectives parts []
    (ofDirectives ds needle, cs)
  match splitWhere (· == '/') text.toList with
  | [body] => readWith body none
  | [body, needle] => readWith body (some (String.ofList needle))
  | _ => (ofDirectives [] none, [.surplusSlash text])

end Filter
end ReleaseMatrix.Log
