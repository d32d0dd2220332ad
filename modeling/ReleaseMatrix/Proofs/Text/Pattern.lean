/-
  Patterns — regular expressions whose matches have an order of preference.

  A pattern may match a text in several ways.  They are listed, the preferred one first, and a
  pattern that follows another picks the first way with which it can go on itself:

      a(b|bc)c?d     on  abcd      tries ab, c, d — and matches
                     on  abccd     tries ab, c, but no d; ab, but no d; abc, c, d — and matches

  A list of all ways has the same order as a search that takes one way at a time and comes back for
  the next one.  Repetitions prefer more, and of several places in a text the first one counts.

  1. **Patterns** — `Pattern`, with `Pattern.orEmpty` and `Pattern.oneUpTo`.
  2. **Ways** — `Pattern.ways`, from a spot in the text to the spots behind a match.
  3. **Repeated classes** — of many ways at most one lets a match go on, if what follows refuses the
     class: `ways_upTo`, `ways_oneUpTo`, `ways_group_oneUpTo`.
  4. **Words** — a word that is spelled out has one way, where a text begins with it, or none:
     `ways_spelled`, `map_ahead_ways_spelled`.
  5. **Searching** — `Pattern.find?`, the groups of the first match, and `Pattern.removeFirst`.
-/
namespace ReleaseMatrix

/-- A regular expression. -/
inductive Pattern where
  /-- Nothing, which is everywhere. -/
  | empty
  /-- The start of the text. -/
  | start
  /-- The end of the text. -/
  | finish
  /-- One character of a class. -/
  | one (p : Char → Bool)
  /-- One pattern behind the other. -/
  | seq (first second : Pattern)
  /-- One pattern, or else the other. -/
  | either (first second : Pattern)
  /-- A pattern whose match is kept under a number. -/
  | group (number : Nat) (inner : Pattern)

namespace Pattern

/-! ## Repetition -/

/-- The pattern once, or else not at all. -/
def orEmpty (a : Pattern) : Pattern := either a empty

/-- At most so many characters of a class, as many as possible. -/
def upTo (p : Char → Bool) : Nat → Pattern
  | 0 => empty
  | most + 1 => orEmpty (seq (one p) (upTo p most))

/-- At least one character of a class and at most so many, as many as possible. -/
def oneUpTo (p : Char → Bool) (most : Nat) : Pattern := seq (one p) (upTo p (most - 1))

/-! ## Ways -/

/-- A spot in a text, with what was kept on the way to it. -/
structure Spot where
  /-- Nothing stands before it. -/
  atStart : Bool
  /-- What stands behind it. -/
  ahead : List Char
  /-- The groups that have matched, in their order. -/
  groups : List (Nat × List Char)
deriving DecidableEq, Repr

/-- The spots behind the matches of a pattern at a spot, in order of preference. -/
def ways : Pattern → Spot → List Spot
  | empty, s => [s]
  | start, s => if s.atStart then [s] else []
  | finish, s => if s.ahead.isEmpty then [s] else []
  | one p, s =>
    match s.ahead with
    | [] => []
    | c :: rest => if p c then [⟨false, rest, s.groups⟩] else []
  | seq a b, s => (a.ways s).flatMap b.ways
  | either a b, s => a.ways s ++ b.ways s
  | group number a, s => (a.ways s).map fun t =>
      ⟨t.atStart, t.ahead, t.groups ++ [(number, s.ahead.take (s.ahead.length - t.ahead.length))]⟩

@[simp] theorem ways_empty (s : Spot) : empty.ways s = [s] := rfl

@[simp] theorem ways_seq (a b : Pattern) (s : Spot) :
    (seq a b).ways s = (a.ways s).flatMap b.ways := rfl

@[simp] theorem ways_either (a b : Pattern) (s : Spot) :
    (either a b).ways s = a.ways s ++ b.ways s := rfl

@[simp] theorem ways_orEmpty (a : Pattern) (s : Spot) : (orEmpty a).ways s = a.ways s ++ [s] := rfl

@[simp] theorem ways_one_nil (p : Char → Bool) (atStart : Bool) (groups : List (Nat × List Char)) :
    (one p).ways ⟨atStart, [], groups⟩ = [] := rfl

@[simp] theorem ways_one_cons (p : Char → Bool) (atStart : Bool) (c : Char) (rest : List Char)
    (groups : List (Nat × List Char)) :
    (one p).ways ⟨atStart, c :: rest, groups⟩ = if p c then [⟨false, rest, groups⟩] else [] := rfl

theorem ways_group (number : Nat) (a : Pattern) (s : Spot) :
    (group number a).ways s = (a.ways s).map fun t => ⟨t.atStart, t.ahead,
      t.groups ++ [(number, s.ahead.take (s.ahead.length - t.ahead.length))]⟩ := rfl

@[simp] theorem flatMap_ways_empty (spots : List Spot) : spots.flatMap empty.ways = spots :=
  List.flatMap_singleton' spots

/-! ## Repeated classes -/

/-- No match goes on where a character of the class follows. -/
def Refuses (p : Char → Bool) (go : Spot → List Spot) : Prop :=
  ∀ (c : Char) (rest : List Char) (groups : List (Nat × List Char)),
    p c = true → go ⟨false, c :: rest, groups⟩ = []

section

variable {p : Char → Bool} {go : Spot → List Spot} (hgo : Refuses p go)
include hgo

/-- Of up to so many characters of a class only all that there are let a match go on, for any less
leave one. -/
theorem ways_upTo (most : Nat) (cs : List Char) (groups : List (Nat × List Char)) :
    ((upTo p most).ways ⟨false, cs, groups⟩).flatMap go =
      if (cs.takeWhile p).length ≤ most then go ⟨false, cs.dropWhile p, groups⟩ else [] := by
  induction most generalizing cs with
  | zero =>
    cases cs with
    | nil => simp [upTo]
    | cons c cs => cases hc : p c <;> simp [upTo, hc, hgo c cs groups]
  | succ most ih =>
    cases cs with
    | nil => simp [upTo]
    | cons c cs => cases hc : p c <;> simp [upTo, hc, ih cs, hgo c cs groups]

/-- The same for at least one of them. -/
theorem ways_oneUpTo {most : Nat} (hmost : 0 < most) (s : Spot) :
    ((oneUpTo p most).ways s).flatMap go =
      if 0 < (s.ahead.takeWhile p).length ∧ (s.ahead.takeWhile p).length ≤ most then
        go ⟨false, s.ahead.dropWhile p, s.groups⟩
      else [] := by
  obtain ⟨atStart, ahead, groups⟩ := s
  cases ahead with
  | nil => simp [oneUpTo]
  | cons c cs =>
    cases hc : p c with
    | false => simp [oneUpTo, hc]
    | true =>
      have hlength : (cs.takeWhile p).length + 1 ≤ most ↔ (cs.takeWhile p).length ≤ most - 1 := by
        omega
      simp [oneUpTo, hc, ways_upTo hgo, hlength]

omit hgo in
/-- What lies between a text and what follows its characters of a class are these characters. -/
theorem take_length_sub_dropWhile (cs : List Char) :
    cs.take (cs.length - (cs.dropWhile p).length) = cs.takeWhile p := by
  have hsplit : cs.takeWhile p ++ cs.dropWhile p = cs := List.takeWhile_append_dropWhile
  have hlength : cs.length - (cs.dropWhile p).length = (cs.takeWhile p).length := by
    have := congrArg List.length hsplit
    rw [List.length_append] at this
    omega
  calc cs.take (cs.length - (cs.dropWhile p).length)
      = (cs.takeWhile p ++ cs.dropWhile p).take (cs.takeWhile p).length := by
        rw [hlength, hsplit]
    _ = cs.takeWhile p := List.take_left' rfl

/-- And they are what is kept, where they make up a group. -/
theorem ways_group_oneUpTo (number : Nat) {most : Nat} (hmost : 0 < most) (s : Spot) :
    ((group number (oneUpTo p most)).ways s).flatMap go =
      if 0 < (s.ahead.takeWhile p).length ∧ (s.ahead.takeWhile p).length ≤ most then
        go ⟨false, s.ahead.dropWhile p, s.groups ++ [(number, s.ahead.takeWhile p)]⟩
      else [] := by
  -- what is kept lies between the spot before the characters and the one behind them
  let kept (t : Spot) : Spot := ⟨t.atStart, t.ahead,
    t.groups ++ [(number, s.ahead.take (s.ahead.length - t.ahead.length))]⟩
  have hkept : Refuses p fun t => go (kept t) := fun c rest groups hc => hgo c rest _ hc
  have hways : (group number (oneUpTo p most)).ways s = ((oneUpTo p most).ways s).map kept :=
    ways_group number _ s
  rw [hways, List.flatMap_map, ways_oneUpTo hkept hmost]
  simp only [kept, take_length_sub_dropWhile]

end

/-- Where no character of the class follows, there are none of it. -/
theorem ways_upTo_of_head? {p : Char → Bool} {s : Spot} (h : ∀ c ∈ s.ahead.head?, p c = false)
    (most : Nat) : (upTo p most).ways s = [s] := by
  obtain ⟨atStart, ahead, groups⟩ := s
  cases most with
  | zero => rfl
  | succ most =>
    cases ahead with
    | nil => rfl
    | cons c rest =>
      have hc : p c = false := h c rfl
      simp [upTo, hc]

/-- What consists of characters of the class is taken as a whole, at first. -/
theorem head?_ways_upTo {p : Char → Bool} {most : Nat} {cs : List Char}
    (hcs : ∀ c ∈ cs, p c = true) (hlength : cs.length ≤ most) (atStart : Bool)
    (groups : List (Nat × List Char)) :
    ((upTo p most).ways ⟨atStart, cs, groups⟩).head? =
      some ⟨atStart && cs.isEmpty, [], groups⟩ := by
  induction cs generalizing atStart most with
  | nil =>
    rw [ways_upTo_of_head? (by simp)]
    simp
  | cons c cs ih =>
    obtain ⟨hc, hcs⟩ := List.forall_mem_cons.mp hcs
    rw [List.length_cons] at hlength
    obtain ⟨most, rfl⟩ : ∃ less, most = less + 1 := Nat.exists_eq_add_one.mpr (by omega)
    have hrest := ih hcs (Nat.le_of_succ_le_succ hlength) false
    simp [upTo, hc, hrest]

/-- A match that goes on at the preferred spot is the preferred match. -/
theorem head?_ways_seq {a b : Pattern} {s t u : Spot} (ha : (a.ways s).head? = some t)
    (hb : (b.ways t).head? = some u) : ((seq a b).ways s).head? = some u := by
  obtain ⟨others, hothers⟩ := List.head?_eq_some_iff.mp ha
  rw [ways_seq, hothers, List.flatMap_cons, List.head?_append, hb]
  rfl

/-! ## Words -/

/-- A word, character by character; a character of the text counts as what it is folded to. -/
def spelled (fold : Char → Char) : List Char → Pattern
  | [] => empty
  | c :: cs => seq (one fun d => fold d == c) (spelled fold cs)

/-- One of several patterns, the earlier the better. -/
def anyOf (as : List Pattern) : Pattern := as.foldr either (one fun _ => false)

/-- Of several patterns the ways of the first come first. -/
@[simp] theorem ways_anyOf (as : List Pattern) (s : Spot) :
    (anyOf as).ways s = as.flatMap fun a => a.ways s := by
  induction as with
  | nil =>
    obtain ⟨atStart, ahead, groups⟩ := s
    cases ahead <;> rfl
  | cons a as ih =>
    rw [List.flatMap_cons, ← ih]
    rfl

/-- **A word matches in one way, where the text begins with it, or in none.** -/
theorem ways_spelled {word : List Char} (hword : word ≠ []) (s : Spot) :
    (spelled id word).ways s =
      if word <+: s.ahead then [⟨false, s.ahead.drop word.length, s.groups⟩] else [] := by
  induction word generalizing s with
  | nil => exact absurd rfl hword
  | cons c word ih =>
    obtain ⟨atStart, ahead, groups⟩ := s
    cases ahead with
    | nil => simp [spelled]
    | cons d rest =>
      by_cases hd : d = c
      · subst hd
        cases word with
        | nil => simp [spelled]
        | cons e word =>
          have hmore := ih (List.cons_ne_nil e word) ⟨false, rest, groups⟩
          simpa [spelled, List.cons_prefix_cons] using hmore
      · have hc : ¬ c = d := fun h => hd h.symm
        simp [spelled, hd, hc, List.cons_prefix_cons]

/-- In front of the end a word matches what is folded to it, and nothing else. -/
theorem map_ahead_ways_spelled (fold : Char → Char) (word : List Char) (s : Spot) :
    ((seq (spelled fold word) finish).ways s).map Spot.ahead =
      if s.ahead.map fold = word then [[]] else [] := by
  induction word generalizing s with
  | nil =>
    obtain ⟨atStart, ahead, groups⟩ := s
    cases ahead <;> simp [spelled, ways]
  | cons c word ih =>
    obtain ⟨atStart, ahead, groups⟩ := s
    cases ahead with
    | nil => simp [spelled]
    | cons d rest =>
      by_cases hd : fold d = c
      · simpa [spelled, hd] using ih ⟨false, rest, groups⟩
      · simp [spelled, hd]

/-! ## Searching -/

/-- The groups of the first match, looked for from a spot on. -/
def findFrom (a : Pattern) : Bool → List Char → Option (List (Nat × List Char))
  | atStart, [] => (a.ways ⟨atStart, [], []⟩).head?.map Spot.groups
  | atStart, c :: rest =>
    ((a.ways ⟨atStart, c :: rest, []⟩).head?.map Spot.groups).or (findFrom a false rest)

/-- **Searching**: the groups of the first match in a text. -/
def find? (a : Pattern) (cs : List Char) : Option (List (Nat × List Char)) := a.findFrom true cs

/-- The text without the first match in it, looked for from a spot on. -/
def removeFirst (a : Pattern) : Bool → List Char → List Char
  | _, [] => []
  | atStart, c :: rest =>
    match (a.ways ⟨atStart, c :: rest, []⟩).head? with
    | some s => s.ahead
    | none => c :: removeFirst a false rest

/-- A pattern that begins at the start of the text is tried there and nowhere else. -/
theorem find?_start (a : Pattern) (cs : List Char) :
    (seq start a).find? cs = (a.ways ⟨true, cs, []⟩).head?.map Spot.groups := by
  have hnowhere (rest : List Char) : (seq start a).findFrom false rest = none := by
    induction rest with
    | nil => rfl
    | cons c rest ih =>
      rw [findFrom, ih]
      rfl
  cases cs with
  | nil => simp [find?, findFrom, ways]
  | cons c rest =>
    rw [find?, findFrom, hnowhere, Option.or_none]
    simp [ways]

/-- The second of the two texts above: the group `1` gives way twice. -/
example :
    (seq (one (· == 'a')) (seq (group 1 (either (one (· == 'b'))
      (seq (one (· == 'b')) (one (· == 'c'))))) (seq (orEmpty (one (· == 'c'))) (one (· == 'd'))))).find?
        "abccd".toList = some [(1, "bc".toList)] := by
  decide

end Pattern
end ReleaseMatrix
