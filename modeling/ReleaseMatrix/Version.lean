/-
  Versions — a major, a minor and a patch number, ordered lexicographically.

  The numbers are 64-bit words, and a successor saturates instead of wrapping: `nextMajor` of the
  greatest major is that major again.  Numbers read from text have at most 16 digits, so no bound
  that a requirement spells ever saturates.
-/
import ReleaseMatrix.Text.Digit

namespace ReleaseMatrix

/-- A version in comparable form. -/
structure Version where
  major : UInt64
  minor : UInt64
  patch : UInt64
deriving DecidableEq, Repr, Inhabited

namespace Version

/-- Version 0.0.0, below which there is none. -/
def zero : Version := ⟨0, 0, 0⟩

/-! ## Order -/

/-- Majors decide, then minors, then patches. -/
def compare (a b : Version) : Ordering :=
  (Ord.compare a.major b.major).then
    ((Ord.compare a.minor b.minor).then (Ord.compare a.patch b.patch))

instance : Ord Version := ⟨compare⟩
instance : LT Version := ltOfOrd
instance : LE Version := leOfOrd

/-! ## Successors -/

/-- The next word, or the greatest word itself. -/
def bump (n : UInt64) : UInt64 :=
  if n.toNat + 1 < UInt64.size then n + 1 else n

/-- The first version of the next major line: 9.0.0 after 8.1.3. -/
def nextMajor (v : Version) : Version := ⟨bump v.major, 0, 0⟩

/-- The first version of the next minor line: 8.2.0 after 8.1.3. -/
def nextMinor (v : Version) : Version := ⟨v.major, bump v.minor, 0⟩

/-- The next patch release: 8.1.4 after 8.1.3. -/
def nextPatch (v : Version) : Version := ⟨v.major, v.minor, bump v.patch⟩

/-! ## Text -/

/-- The three numbers in decimal, joined by dots. -/
def text (v : Version) : String :=
  v.major.toNat.repr ++ "." ++ v.minor.toNat.repr ++ "." ++ v.patch.toNat.repr

instance : ToString Version := ⟨text⟩

end Version
end ReleaseMatrix
