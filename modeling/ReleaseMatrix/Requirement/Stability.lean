/-
  Stability flags — `@stable`, `@RC`, `@beta`, `@alpha` and `@dev` at the end of an atom.

  Released versions are all stable, so a flag says nothing and is dropped; letter case does not
  matter, and the long s `ſ` is a variant of `s`.  An atom that is only a flag means any version.
-/
namespace ReleaseMatrix.Stability

/-- The names of the flags. -/
def names : List (List Char) :=
  ["stable".toList, "rc".toList, "beta".toList, "alpha".toList, "dev".toList]

/-- The small letter that a letter is compared as. -/
def fold (c : Char) : Char := if c == 'ſ' then 's' else c.toLower

/-- The text names a flag. -/
def isName (cs : List Char) : Bool := names.contains (cs.map fold)

/-- The text without the flag that it ends in, if it does. -/
def drop : List Char → List Char
  | [] => []
  | c :: rest => if c == '@' && isName rest then [] else c :: drop rest

end ReleaseMatrix.Stability
