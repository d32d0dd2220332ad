/-
  TOML values, and the tables that a document builds up line by line.

  Nothing is computed with numbers and dates, so a value only says that it is one.  A table knows
  how it came about, since that decides what may still be added to it:

      header   `[a]`, a row of `[[a]]`, or the document itself
      path     implied by a longer header: `a` in `[a.b]`
      dotted   implied by a dotted key: `a` in `a.b = 1`
      inline   `{…}`, which is closed once it is written

  Headers go into every table but inline ones, dotted keys only into implied ones.
-/
namespace ReleaseMatrix

namespace Toml

/-- How a table came about. -/
inductive Origin where
  | header
  | path
  | dotted
  | inline
deriving DecidableEq, Repr

end Toml

/-- A TOML value. -/
inductive Toml where
  | string (s : String)
  | boolean (b : Bool)
  | number
  | date
  | array (items : List Toml)
  | table (origin : Toml.Origin) (members : List (String × Toml))
  /-- The rows of an array of tables, last one first. -/
  | rows (tables : List (List (String × Toml)))
deriving Inhabited

namespace Toml

/-- The entries of a table, in the order in which they were added. -/
abbrev Members := List (String × Toml)

/-- A key, written as parts with dots between them. -/
abbrev Key := List String

/-! ## Entries -/

/-- Replaces the value under a key. -/
def replace (key : String) (value : Toml) (ms : Members) : Members :=
  ms.map fun m => if m.1 = key then (key, value) else m

/-- Adds an entry under a new key. -/
def add? (key : String) (value : Toml) (ms : Members) : Option Members :=
  if (ms.lookup key).isSome then none else some (ms ++ [(key, value)])

/-! ## Going down -/

/-- Changes the table that a path leads to, making the tables that are missing on the way. -/
def within (dotted : Bool) (change : Origin → Members → Option Members) :
    Key → Origin → Members → Option Members
  | [], origin, ms => change origin ms
  | k :: path, _, ms =>
    match ms.lookup k with
    | none => do
      let origin := if dotted then .dotted else .path
      return ms ++ [(k, .table origin (← within dotted change path origin []))]
    | some (.table origin inner) =>
      if origin = .inline || (dotted && origin = .header) then none
      else do return replace k (.table origin (← within dotted change path origin inner)) ms
    | some (.rows (row :: others)) => do
      return replace k (.rows ((← within dotted change path .header row) :: others)) ms
    | some _ => none

/-- Adds a value under a dotted key.  The parts before the last must lead to a table that dotted
keys made, or be none at all. -/
def assign? (key : Key) (value : Toml) (origin : Origin) (ms : Members) : Option Members :=
  match key.reverse with
  | [] => none
  | last :: above =>
    within true
      (fun origin ms => if above ≠ [] ∧ origin ≠ .dotted then none else add? last value ms)
      above.reverse origin ms

/-- Opens the table of a header `[key]`: a new one, or one that longer headers have implied. -/
def openTable? (key : Key) (ms : Members) : Option Members :=
  match key.reverse with
  | [] => none
  | last :: above =>
    within false
      (fun _ ms =>
        match ms.lookup last with
        | none => some (ms ++ [(last, .table .header [])])
        | some (.table .path inner) => some (replace last (.table .header inner) ms)
        | some _ => none)
      above.reverse .header ms

/-- Opens a new row for a header `[[key]]`. -/
def openRow? (key : Key) (ms : Members) : Option Members :=
  match key.reverse with
  | [] => none
  | last :: above =>
    within false
      (fun _ ms =>
        match ms.lookup last with
        | none => some (ms ++ [(last, .rows [[]])])
        | some (.rows tables) => some (replace last (.rows ([] :: tables)) ms)
        | some _ => none)
      above.reverse .header ms

end Toml
end ReleaseMatrix
