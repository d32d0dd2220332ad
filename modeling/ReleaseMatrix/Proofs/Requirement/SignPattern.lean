/-
  Sign patterns — three tables of operators agree.

  Operators are told apart three times: by a pattern that says which pieces stand alone, by one that
  takes an operator off an atom, and by the names of comparisons.  The first two are made of the same
  alternatives, in the same order of preference:

      <>|!=|>=?|<=?|==?|~>?|\^        <>  !=  >=  >  <=  <  ==  =  ~>  ~  ^

  No operator of this list is the beginning of a later one, so the first that a text begins with is
  also the longest (`leads_of_find?`), and so is the sign that one reading from left to right finds
  (`leads_split`).  A text has one longest operator, hence both find the same.

  1. **Operators** — `Sign.operators`, and `Sign.Leads`, the longest one that a text begins with.
  2. **Patterns** — `isSome_find?_lonePattern`, and `find?_operatorPattern` for texts without
     separators.
  3. **Names** — `read_of_mem_spellings` for comparisons; the other signs have one spelling each.
  4. **Flags** — `removeFirst_flagPattern`.
-/
import ReleaseMatrix.Proofs.Requirement.Atom
import ReleaseMatrix.Proofs.Text.Pattern

namespace ReleaseMatrix

namespace Sign

open Text Pattern

/-! ## Operators -/

/-- The operators, the preferred ones first. -/
def operators : List (List Char) :=
  ["<>", "!=", ">=", ">", "<=", "<", "==", "=", "~>", "~", "^"].map String.toList

/-- The text is the longest operator that it begins with, or none, and what stands behind it. -/
structure Leads (cs operator behind : List Char) : Prop where
  parts : cs = operator ++ behind
  known : operator = [] ∨ operator ∈ operators
  longest : ∀ other ∈ operators, other <+: cs → other.length ≤ operator.length

theorem ne_nil_of_mem_operators : ∀ operator ∈ operators, operator ≠ [] := by decide

theorem length_le_two : ∀ operator ∈ operators, operator.length ≤ 2 := by decide

namespace Leads

variable {cs operator behind : List Char}

theorem begins (h : Leads cs operator behind) : operator <+: cs :=
  ⟨behind, h.parts.symm⟩

/-- **A text has one longest operator.** -/
theorem unique {operator' behind' : List Char} (h : Leads cs operator behind)
    (h' : Leads cs operator' behind') : operator = operator' ∧ behind = behind' := by
  have hle {a b x y : List Char} (ha : Leads cs a x) (hb : Leads cs b y) : a.length ≤ b.length := by
    rcases ha.known with rfl | hmem
    · exact Nat.zero_le _
    · exact hb.longest a hmem ha.begins
  have hlength : operator.length = operator'.length := Nat.le_antisymm (hle h h') (hle h' h)
  exact List.append_inj (h.parts.symm.trans h'.parts) hlength

/-- Nothing is left of an operator, and of no other text. -/
theorem behind_eq_nil_iff (h : Leads cs operator behind) (hne : cs ≠ []) :
    behind = [] ↔ cs ∈ operators := by
  have hlength := congrArg List.length h.parts
  rw [List.length_append] at hlength
  constructor
  · rintro rfl
    have hcs : cs = operator := h.parts.trans (List.append_nil _)
    rw [hcs] at hne ⊢
    exact h.known.resolve_left hne
  · intro hmem
    have hle := h.longest cs hmem (List.prefix_refl cs)
    exact List.eq_nil_of_length_eq_zero (by omega)

end Leads

/-- No operator is the beginning of a later one. -/
theorem pairwise_operators : operators.Pairwise fun a b => ¬ a <+: b := by decide

/-- Of two that both begin a text, the one further in front in the list is the longer one. -/
theorem leads_of_find? {cs operator : List Char}
    (h : operators.find? (fun op => decide (op <+: cs)) = some operator) :
    Leads cs operator (cs.drop operator.length) := by
  obtain ⟨hfound, earlier, later, hsplit, hearlier⟩ := List.find?_eq_some_iff_append.mp h
  have hbegins : operator <+: cs := of_decide_eq_true hfound
  refine ⟨(List.prefix_iff_eq_append.mp hbegins).symm, .inr ?_, ?_⟩
  · rw [hsplit]
    exact List.mem_append_right _ List.mem_cons_self
  · intro other hmem hother
    have hpairwise := pairwise_operators
    rw [hsplit] at hmem hpairwise
    rcases List.mem_append.mp hmem with hmem | hmem
    · have hno := hearlier other hmem
      simp [hother] at hno
    · rcases List.mem_cons.mp hmem with rfl | hmem
      · exact Nat.le_refl _
      · -- a longer one that begins the text would begin with the one that was found, and stand in
        -- front of it
        by_contra hlonger
        have hinner : operator <+: other :=
          List.prefix_of_prefix_length_le hbegins hother (Nat.le_of_lt (Nat.lt_of_not_le hlonger))
        have hlater := (List.pairwise_cons.mp (List.pairwise_append.mp hpairwise).2.1).1
        exact hlater other hmem hinner

/-- Where no operator begins, none leads. -/
theorem leads_of_find?_eq_none {cs : List Char}
    (h : operators.find? (fun op => decide (op <+: cs)) = none) : Leads cs [] cs where
  parts := rfl
  known := .inl rfl
  longest other hmem hother := by
    have hno := List.find?_eq_none.mp h other hmem
    simp [hother] at hno

/-- Two characters that are an operator are the longest. -/
theorem leads_two {a b : Char} (hmem : [a, b] ∈ operators) (behind : List Char) :
    Leads (a :: b :: behind) [a, b] behind where
  parts := rfl
  known := .inr hmem
  longest other hother _ := length_le_two other hother

/-- So is one that is an operator, unless the next one makes it another. -/
theorem leads_one {a : Char} {behind : List Char} (hmem : [a] ∈ operators)
    (hnext : ∀ b rest, behind = b :: rest → [a, b] ∉ operators) :
    Leads (a :: behind) [a] behind where
  parts := rfl
  known := .inr hmem
  longest := by
    intro other hother hbegins
    have hshort : other.length ≤ 2 := length_le_two other hother
    obtain ⟨rest, hrest⟩ := hbegins
    match other with
    | [] | [_] => simp
    | [c, b] =>
      obtain ⟨rfl, rfl⟩ := List.cons.inj hrest
      exact absurd hother (hnext b rest rfl)

/-- **The sign of a text is spelled by the longest operator that it begins with.** -/
theorem leads_split (cs : List Char) : ∃ spelling : String,
    (spelling, (split cs).1) ∈ spellings ∧ Leads cs spelling.toList (split cs).2 := by
  fun_cases split cs <;> dsimp only
  case case1 rest => exact ⟨"<>", by decide, leads_two (by decide) rest⟩
  case case2 rest => exact ⟨"<=", by decide, leads_two (by decide) rest⟩
  case case3 rest harrow hequal =>
    refine ⟨"<", by decide, leads_one (by decide) fun b tail hrest hmem => ?_⟩
    have hb : b = '>' ∨ b = '=' := by simpa [operators] using hmem
    rcases hb with rfl | rfl
    · exact harrow tail hrest
    · exact hequal tail hrest
  case case4 rest => exact ⟨">=", by decide, leads_two (by decide) rest⟩
  case case5 rest hequal =>
    refine ⟨">", by decide, leads_one (by decide) fun b tail hrest hmem => ?_⟩
    obtain rfl : b = '=' := by simpa [operators] using hmem
    exact hequal tail hrest
  case case6 rest => exact ⟨"!=", by decide, leads_two (by decide) rest⟩
  case case7 rest => exact ⟨"==", by decide, leads_two (by decide) rest⟩
  case case8 rest hequal =>
    refine ⟨"=", by decide, leads_one (by decide) fun b tail hrest hmem => ?_⟩
    obtain rfl : b = '=' := by simpa [operators] using hmem
    exact hequal tail hrest
  case case9 rest => exact ⟨"~>", by decide, leads_two (by decide) rest⟩
  case case10 rest harrow =>
    refine ⟨"~", by decide, leads_one (by decide) fun b tail hrest hmem => ?_⟩
    obtain rfl : b = '>' := by simpa [operators] using hmem
    exact harrow tail hrest
  case case11 rest =>
    refine ⟨"^", by decide, leads_one (by decide) fun b tail hrest hmem => ?_⟩
    simp [operators] at hmem
  case case12 hangles hle hlt hge hgt hne hequals heq harrow htilde hcaret =>
    refine ⟨"", by decide, rfl, .inl rfl, ?_⟩
    rintro other hmem ⟨behind, rfl⟩
    simp only [operators, List.map_cons, List.map_nil, List.mem_cons, List.not_mem_nil,
      or_false] at hmem
    -- no operator begins the text, since each of them has a case of its own
    rcases hmem with rfl | rfl | rfl | rfl | rfl | rfl | rfl | rfl | rfl | rfl | rfl
    · exact (hangles behind rfl).elim
    · exact (hne behind rfl).elim
    · exact (hge behind rfl).elim
    · exact (hgt behind rfl).elim
    · exact (hle behind rfl).elim
    · exact (hlt behind rfl).elim
    · exact (hequals behind rfl).elim
    · exact (heq behind rfl).elim
    · exact (harrow behind rfl).elim
    · exact (htilde behind rfl).elim
    · exact (hcaret behind rfl).elim

/-- A text is an operator iff it is a sign that stands alone. -/
theorem standsAlone_iff {cs : List Char} : standsAlone cs = true ↔ cs ∈ operators := by
  obtain ⟨spelling, -, hleads⟩ := leads_split cs
  by_cases hne : cs = []
  · subst hne
    decide
  · rw [← hleads.behind_eq_nil_iff hne]
    simp [standsAlone, hne]

/-! ## Patterns -/

/-- One character, and another behind it or not. -/
def optional (a b : Char) : Pattern := seq (one (· == a)) (orEmpty (one (· == b)))

/-- An operator. -/
def signPattern : Pattern :=
  anyOf [spelled id ['<', '>'], spelled id ['!', '='], optional '>' '=', optional '<' '=',
    optional '=' '=', optional '~' '>', spelled id ['^']]

/-- An operator and nothing else. -/
def lonePattern : Pattern := seq start (seq signPattern finish)

/-- Blanks and the rest of a line, which ends the text. -/
def behindPattern (longest : Nat) : Pattern :=
  seq (upTo isBlank longest) (seq (group 2 (upTo (· != '\n') longest)) finish)

/-- An operator or none, and what stands behind it; no repetition has more than `longest`
characters. -/
def operatorPattern (longest : Nat) : Pattern :=
  seq start (seq (orEmpty (group 1 signPattern)) (behindPattern longest))

/-- A second character that may be missing is taken if it is there. -/
theorem ways_optional (a b : Char) (s : Spot) :
    (optional a b).ways s = (spelled id [a, b]).ways s ++ (spelled id [a]).ways s := by
  obtain ⟨atStart, ahead, groups⟩ := s
  cases ahead with
  | nil => rfl
  | cons c rest =>
    by_cases hc : c = a
    · simp [optional, spelled, hc]
    · simp [optional, spelled, hc]

/-- The alternatives of the pattern are the operators. -/
theorem ways_signPattern (s : Spot) :
    signPattern.ways s = operators.flatMap fun op => (spelled id op).ways s := by
  simp [signPattern, operators, ways_optional]

/-- The first way takes the first operator that there is. -/
theorem head?_ways_signPattern (s : Spot) :
    (signPattern.ways s).head? = (operators.find? fun op => decide (op <+: s.ahead)).map fun op =>
      ⟨false, s.ahead.drop op.length, s.groups⟩ := by
  have hfirst {ops : List (List Char)} (hops : ∀ op ∈ ops, op ≠ []) :
      (ops.flatMap fun op => (spelled id op).ways s).head? =
        (ops.find? fun op => decide (op <+: s.ahead)).map fun op =>
          ⟨false, s.ahead.drop op.length, s.groups⟩ := by
    induction ops with
    | nil => rfl
    | cons op ops ih =>
      obtain ⟨hop, hops⟩ := List.forall_mem_cons.mp hops
      rw [List.flatMap_cons, ways_spelled hop, List.head?_append, ih hops, List.find?_cons]
      by_cases hbegins : op <+: s.ahead <;> simp [hbegins]
  rw [ways_signPattern, hfirst ne_nil_of_mem_operators]

/-- **What is found to be an operator and nothing else is a sign that stands alone.** -/
theorem isSome_find?_lonePattern (cs : List Char) :
    (lonePattern.find? cs).isSome = standsAlone cs := by
  have hways : (seq signPattern finish).ways ⟨true, cs, []⟩ =
      operators.flatMap fun op => (seq (spelled id op) finish).ways ⟨true, cs, []⟩ := by
    rw [ways_seq, ways_signPattern, List.flatMap_assoc]
    rfl
  have hahead : ((seq signPattern finish).ways ⟨true, cs, []⟩).map Spot.ahead =
      operators.flatMap fun op => if cs = op then [[]] else [] := by
    rw [hways, List.map_flatMap]
    simp only [map_ahead_ways_spelled, List.map_id]
  -- the whole text is one of the alternatives, or there is no way
  have hnil : (seq signPattern finish).ways ⟨true, cs, []⟩ = [] ↔ cs ∉ operators := by
    rw [← List.map_eq_nil_iff, hahead, List.flatMap_eq_nil_iff]
    constructor
    · intro hnone hmem
      simpa using hnone cs hmem
    · intro hmem op hop
      have hne : cs ≠ op := fun heq => hmem (heq ▸ hop)
      exact if_neg hne
  rw [Bool.eq_iff_iff, standsAlone_iff, lonePattern, find?_start, Option.isSome_map,
    ← not_iff_not, ← hnil]
  simp

/-- Behind the operator, a text without separators is kept as it is. -/
theorem head?_ways_behind {cs : List Char} {longest : Nat}
    (hplain : ∀ c ∈ cs, Clause.isSeparator c = false) (hlength : cs.length ≤ longest)
    (atStart : Bool) (groups : List (Nat × List Char)) :
    ((behindPattern longest).ways ⟨atStart, cs, groups⟩).head? =
      some ⟨atStart && cs.isEmpty, [], groups ++ [(2, cs)]⟩ := by
  have hblank : ∀ c ∈ cs, isBlank c = false := fun c hc =>
    Clause.isBlank_eq_false_of_plain (hplain c hc)
  -- a line break is a blank, and there is none
  have hline : ∀ c ∈ cs, (c != '\n') = true := by
    intro c hc
    rw [bne_iff_ne]
    rintro rfl
    exact absurd (hblank _ hc) (by decide)
  have hnone : ∀ c ∈ cs.head?, isBlank c = false := fun c hc =>
    hblank c (List.mem_of_mem_head? hc)
  have hall := head?_ways_upTo hline hlength atStart groups
  have hkept : ((group 2 (upTo (· != '\n') longest)).ways ⟨atStart, cs, groups⟩).head? =
      some ⟨atStart && cs.isEmpty, [], groups ++ [(2, cs)]⟩ := by
    rw [ways_group, List.head?_map, hall]
    simp
  rw [behindPattern, ways_seq, ways_upTo_of_head? hnone, List.flatMap_singleton]
  exact head?_ways_seq hkept rfl

/-- At the start of a text the longest operator is kept, if there is one. -/
theorem head?_ways_operator {cs operator behind : List Char} (h : Leads cs operator behind) :
    ((orEmpty (group 1 signPattern)).ways ⟨true, cs, []⟩).head? =
      some ⟨operator.isEmpty, behind, if operator = [] then [] else [(1, operator)]⟩ := by
  rw [ways_orEmpty, ways_group, List.head?_append, List.head?_map, head?_ways_signPattern]
  cases hfind : operators.find? fun op => decide (op <+: cs) with
  | none =>
    obtain ⟨rfl, rfl⟩ := h.unique (leads_of_find?_eq_none hfind)
    rfl
  | some op =>
    obtain ⟨rfl, hbehind⟩ := h.unique (leads_of_find? hfind)
    have hne : operator ≠ [] := ne_nil_of_mem_operators _ (List.mem_of_find?_eq_some hfind)
    have hkept : cs.take (cs.length - behind.length) = operator := by
      simp [h.parts]
    simp [hne, ← hbehind, hkept]

/-- **The operator pattern finds the longest operator** of a text without separators, and keeps the
rest. -/
theorem find?_operatorPattern {cs operator behind : List Char}
    (hplain : ∀ c ∈ cs, Clause.isSeparator c = false) (h : Leads cs operator behind) :
    (operatorPattern cs.length).find? cs =
      some ((if operator = [] then [] else [(1, operator)]) ++ [(2, behind)]) := by
  have hbehind : ∀ c ∈ behind, Clause.isSeparator c = false := fun c hc =>
    hplain c (by rw [h.parts]; exact List.mem_append_right _ hc)
  have hlength : behind.length ≤ cs.length := by
    simp [h.parts]
  rw [operatorPattern, find?_start,
    head?_ways_seq (head?_ways_operator h) (head?_ways_behind hbehind hlength _ _)]
  rfl

/-! ## Names -/

/-- **Each operator of a comparison has its name.** -/
theorem read_of_mem_spellings {spelling : String} {op : Operator}
    (h : (spelling, Sign.compare op) ∈ spellings) : Operator.read spelling = .ok op := by
  simp only [spellings, List.mem_cons, Prod.mk.injEq, List.not_mem_nil, or_false] at h
  rcases h with ⟨rfl, h⟩ | ⟨rfl, h⟩ | ⟨rfl, h⟩ | ⟨rfl, h⟩ | ⟨rfl, h⟩ | ⟨rfl, h⟩ | ⟨rfl, h⟩ |
    ⟨rfl, h⟩ | ⟨rfl, h⟩ | ⟨rfl, h⟩ | ⟨rfl, h⟩ | ⟨rfl, h⟩ <;> cases h <;> rfl

/-- The other three signs have one spelling each. -/
theorem special_of_mem_spellings : ∀ p ∈ spellings, (p.2 = .tilde ↔ p.1.toList = ['~']) ∧
    (p.2 = .caret ↔ p.1.toList = ['^']) ∧ (p.2 = .tildeArrow ↔ p.1.toList = ['~', '>']) := by
  decide

end Sign

/-! ## Flags -/

namespace Stability

open Pattern

/-- A flag at the end of a text. -/
def flagPattern : Pattern := seq (one (· == '@')) (seq (anyOf (names.map (spelled fold))) finish)

/-- At an at-sign the pattern matches up to the end of the text, if only a name stands between. -/
theorem head?_ways_flagPattern (atStart : Bool) (c : Char) (rest : List Char) :
    (flagPattern.ways ⟨atStart, c :: rest, []⟩).head?.map Spot.ahead =
      if c == '@' && isName rest then some [] else none := by
  -- of several names at most one matches, and it leaves nothing
  have hnames (word : List Char) (ns : List (List Char)) :
      (ns.flatMap fun n => if word = n then [([] : List Char)] else []).head? =
        if ns.contains word then some [] else none := by
    induction ns with
    | nil => rfl
    | cons n ns ih => by_cases hn : word = n <;> simp [hn, ih]
  cases hc : c == '@' with
  | false => simp [flagPattern, hc]
  | true =>
    have hways : flagPattern.ways ⟨atStart, c :: rest, []⟩ =
        names.flatMap fun n => (seq (spelled fold n) finish).ways ⟨false, rest, []⟩ := by
      simp [flagPattern, hc, List.flatMap_map, List.flatMap_assoc]
    rw [hways, ← List.head?_map, List.map_flatMap]
    simp only [map_ahead_ways_spelled, hnames, Bool.true_and, isName]

/-- **The first match of the pattern is the flag that is dropped.** -/
theorem removeFirst_flagPattern (atStart : Bool) (cs : List Char) :
    flagPattern.removeFirst atStart cs = drop cs := by
  induction cs generalizing atStart with
  | nil => rfl
  | cons c rest ih =>
    have hfirst := head?_ways_flagPattern atStart c rest
    rw [removeFirst, drop]
    split at hfirst
    case isTrue hflag =>
      obtain ⟨s, hs, hahead⟩ := Option.map_eq_some_iff.mp hfirst
      rw [hs, if_pos hflag, ← hahead]
    case isFalse hflag =>
      rw [Option.map_eq_none_iff.mp hfirst, if_neg hflag, ih]

end Stability
end ReleaseMatrix
