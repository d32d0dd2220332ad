/-
  Reading back — every text of a value is read as this value.

  Reading goes from left to right and stops where the value ends, so what is read of a text does not
  depend on what follows it, unless that goes on with a number:

      value (text ++ rest) = value, and rest is left

  The entries of a sequence are read one by one into a state.  What an entry does to the state is
  its *step*; a sequence does what its entries do in turn.  Since every entry takes a character, the
  length of the text is fuel enough.

  1. **Sequences** — `Readable.entries_body`, whatever the entries are read into.
  2. **Values** — `value_of_writes`, and `skip_of_writes` for values that are passed over.
  3. **Documents** — `reads_of_spelled`.
-/
import Mathlib.Data.List.DropRight
import ReleaseMatrix.Proofs.Json.Tokens

namespace ReleaseMatrix.Json

/-! ## Blanks -/

theorem skipBlanks_gap {gap : List Char} (hgap : IsGap gap) (cs : List Char) :
    skipBlanks (gap ++ cs) = skipBlanks cs :=
  List.dropWhile_append_of_pos hgap

theorem skipBlanks_cons {c : Char} (hc : isBlank c = false) (cs : List Char) :
    skipBlanks (c :: cs) = c :: cs := by
  rw [skipBlanks, List.dropWhile_cons_of_neg (by rw [hc]; exact Bool.false_ne_true)]

theorem skipBlanks_skipBlanks (cs : List Char) : skipBlanks (skipBlanks cs) = skipBlanks cs :=
  List.dropWhile_idempotent _ _

/-- Nothing is left behind a document but blanks. -/
theorem finish_gap {gap : List Char} (hgap : IsGap gap) : finish gap = .ok () := by
  have hnil : skipBlanks gap = [] := by
    rw [← List.append_nil gap, skipBlanks_gap hgap]
    rfl
  rw [finish, hnil]
  rfl

/-- A blank is no part of a number. -/
theorem goesOn_of_isBlank {c : Char} (hc : isBlank c = true) : goesOn c = false := by
  simp only [isBlank, Bool.or_eq_true, beq_iff_eq] at hc
  rcases hc with ((rfl | rfl) | rfl) | rfl <;> decide

/-- Behind a gap no number goes on, if it does not behind the rest. -/
theorem breaks_gap {gap : List Char} (hgap : IsGap gap) {rest : List Char} (hrest : Breaks rest) :
    Breaks (gap ++ rest) := by
  cases gap with
  | nil => exact hrest
  | cons c gap => exact avoids_cons (goesOn_of_isBlank (hgap c List.mem_cons_self)) _

/-! ## Sequences -/

section Sequences

variable {α σ : Type} {P : List Char → α → Prop} {close : Char}
  {entry : σ → List Char → Except Fault (σ × List Char)} {step : σ → α → Except Fault σ}
  {cs rest behind : List Char} {xs : List α} {state : σ}

/-- What is asked of the entries of a sequence, of their reader and of the closing bracket. -/
structure Readable (P : List Char → α → Prop) (close : Char)
    (entry : σ → List Char → Except Fault (σ × List Char)) (step : σ → α → Except Fault σ) :
    Prop where
  /-- An entry makes its step, and nothing behind it is read. -/
  reads : ∀ state cs x, P cs x → ∀ rest, Breaks rest →
    entry state (cs ++ rest) = (step state x).map fun state => (state, rest)
  /-- Blanks in front of an entry are passed over. -/
  ignores : ∀ state cs, entry state (skipBlanks cs) = entry state cs
  /-- An entry begins with neither a blank nor the bracket. -/
  opens : ∀ cs x, P cs x → ∃ c more, cs = c :: more ∧ isBlank c = false ∧ c ≠ close
  /-- The bracket is neither a blank nor a comma, and no part of a number. -/
  closes : isBlank close = false ∧ close ≠ ',' ∧ goesOn close = false

theorem entriesFrom_error {fault : Fault} (hread : entry state cs = .error fault) (fuel : Nat) :
    entriesFrom close entry (fuel + 1) state cs = .error fault := by
  rw [entriesFrom, hread]
  rfl

/-- The bracket behind an entry ends the sequence. -/
theorem entriesFrom_last {next : σ} (hread : entry state cs = .ok (next, behind))
    (hclose : skipBlanks behind = close :: rest) (fuel : Nat) :
    entriesFrom close entry (fuel + 1) state cs = .ok (next, rest) := by
  rw [entriesFrom, hread]
  dsimp only [bind, Except.bind]
  rw [hclose]
  exact if_pos rfl

namespace Readable

variable (h : Readable P close entry step)

include h

theorem entry_gap {lead : List Char} (hlead : IsGap lead) {x : α} (hcs : P cs x)
    (hrest : Breaks rest) (state : σ) :
    entry state (lead ++ cs ++ rest) = (step state x).map fun state => (state, rest) := by
  rw [← h.ignores, List.append_assoc, skipBlanks_gap hlead, h.ignores, h.reads state cs x hcs rest
    hrest]

/-- There are no more entries than characters, since each of them has one. -/
theorem length_le (hentries : Entries P cs xs) : xs.length ≤ cs.length := by
  have hpos {cs : List Char} {x : α} (hcs : P cs x) : 0 < cs.length := by
    obtain ⟨c, more, rfl, -⟩ := h.opens cs x hcs
    exact Nat.succ_pos _
  induction hentries with
  | last _ hcs =>
    have := hpos hcs
    simp only [List.length_append, List.length_singleton]
    omega
  | cons _ hcs _ _ ih =>
    have := hpos hcs
    simp only [List.length_append, List.length_cons]
    omega

/-- Behind its blanks a sequence begins with an entry, and there are no more entries than
characters. -/
theorem skipBlanks_entries (hentries : Entries P cs xs) (rest : List Char) :
    ∃ c more, skipBlanks (cs ++ rest) = c :: more ∧ c ≠ close ∧ xs.length ≤ (c :: more).length := by
  cases hentries with
  | @last lead cs trail x hlead hcs =>
    obtain ⟨c, more, rfl, hblank, hne⟩ := h.opens cs x hcs
    refine ⟨c, more ++ (trail ++ rest), ?_, hne, ?_⟩
    · simp only [List.append_assoc]
      rw [skipBlanks_gap hlead, List.cons_append, skipBlanks_cons hblank]
    · simp
  | @cons lead cs trail body x xs hlead hcs htrail hmore =>
    obtain ⟨c, more, rfl, hblank, hne⟩ := h.opens cs x hcs
    have hle := h.length_le hmore
    refine ⟨c, more ++ (trail ++ ',' :: (body ++ rest)), ?_, hne, ?_⟩
    · simp only [List.append_assoc, List.cons_append]
      rw [skipBlanks_gap hlead, skipBlanks_cons hblank]
    · simp only [List.length_cons, List.length_append]
      omega

/-- A sequence goes on the same behind blanks. -/
theorem entriesFrom_skipBlanks (fuel : Nat) (state : σ) (cs : List Char) :
    entriesFrom close entry fuel state (skipBlanks cs) = entriesFrom close entry fuel state cs := by
  cases fuel with
  | zero => rfl
  | succ fuel => rw [entriesFrom, entriesFrom, h.ignores]

/-- Behind a comma the sequence goes on with the next entry. -/
theorem entriesFrom_more {next : σ} (hread : entry state cs = .ok (next, behind))
    (hcomma : skipBlanks behind = ',' :: rest) (fuel : Nat) :
    entriesFrom close entry (fuel + 1) state cs = entriesFrom close entry fuel next rest := by
  rw [entriesFrom, hread]
  dsimp only [bind, Except.bind]
  rw [hcomma]
  show (if ',' = close then _ else _) = _
  rw [if_neg (Ne.symm h.closes.2.1), if_pos rfl, h.entriesFrom_skipBlanks]

/-- Entry by entry, with enough fuel for all of them; a step that fails ends the reading. -/
theorem entriesFrom_entries (hentries : Entries P cs xs) {fuel : Nat} (hfuel : xs.length ≤ fuel)
    (state : σ) (rest : List Char) :
    entriesFrom close entry fuel state (cs ++ close :: rest) =
      (xs.foldlM step state).map fun state => (state, rest) := by
  induction hentries generalizing fuel state with
  | @last lead cs trail x hlead hcs htrail =>
    obtain ⟨fuel, rfl⟩ := Nat.exists_eq_add_of_le' hfuel
    have hread := h.entry_gap hlead hcs (breaks_gap htrail (avoids_cons h.closes.2.2 rest)) state
    have hclose : skipBlanks (trail ++ close :: rest) = close :: rest := by
      rw [skipBlanks_gap htrail, skipBlanks_cons h.closes.1]
    rw [List.append_assoc (lead ++ cs), List.foldlM_cons]
    cases hstep : step state x with
    | error fault =>
      rw [hstep] at hread
      exact entriesFrom_error hread fuel
    | ok next =>
      rw [hstep] at hread
      exact entriesFrom_last hread hclose fuel
  | @cons lead cs trail body x xs hlead hcs htrail hmore ih =>
    obtain ⟨fuel, rfl⟩ := Nat.exists_eq_add_of_le' hfuel
    have hread := h.entry_gap hlead hcs
      (breaks_gap htrail (avoids_cons (show goesOn ',' = false by decide) (body ++ close :: rest)))
      state
    have hcomma : skipBlanks (trail ++ ',' :: (body ++ close :: rest)) =
        ',' :: (body ++ close :: rest) := by
      rw [skipBlanks_gap htrail, skipBlanks_cons (by decide)]
    rw [List.append_assoc (lead ++ cs ++ trail), List.append_assoc (lead ++ cs), List.cons_append,
      List.foldlM_cons, List.length_cons, ← Nat.add_assoc]
    cases hstep : step state x with
    | error fault =>
      rw [hstep] at hread
      exact entriesFrom_error hread (fuel + xs.length)
    | ok next =>
      rw [hstep] at hread
      rw [h.entriesFrom_more hread hcomma, ih (Nat.le_add_left ..)]
      rfl

/-- **A sequence is read entry by entry, up to its bracket.** -/
theorem entries_body (hbody : Body P cs xs) (start : σ) (rest : List Char) :
    entries close entry start (cs ++ close :: rest) =
      (xs.foldlM step start).map fun state => (state, rest) := by
  rcases hbody with ⟨hgap, rfl⟩ | hentries
  · rw [entries, skipBlanks_gap hgap, skipBlanks_cons h.closes.1]
    exact if_pos rfl
  · obtain ⟨c, more, hskip, hne, hle⟩ := h.skipBlanks_entries hentries (close :: rest)
    have hread := h.entriesFrom_entries hentries hle start rest
    rw [← h.entriesFrom_skipBlanks, hskip] at hread
    rw [entries, hskip]
    show (if c = close then _ else _) = _
    rw [if_neg hne, hread]

end Readable

end Sequences

/-! ## Entries that are kept -/

section

variable {α : Type} {P : List Char → α → Prop} {close : Char}
  {read : List Char → Except Fault (α × List Char)} {cs : List Char} {xs : List α}

/-- Reads one more entry in front of those that are known. -/
def push (read : List Char → Except Fault (α × List Char)) (known : List α) (cs : List Char) :
    Except Fault (List α × List Char) := do
  let (x, rest) ← read cs
  return (x :: known, rest)

/-- Entries that are read one at a time may be kept. -/
theorem readable_push
    (reads : ∀ cs x, P cs x → ∀ rest, Breaks rest → read (cs ++ rest) = .ok (x, rest))
    (ignores : ∀ cs, read (skipBlanks cs) = read cs)
    (opens : ∀ cs x, P cs x → ∃ c more, cs = c :: more ∧ isBlank c = false ∧ c ≠ close)
    (closes : isBlank close = false ∧ close ≠ ',' ∧ goesOn close = false) :
    Readable P close (push read) fun known x => .ok (x :: known) where
  reads := by
    intro known cs x hcs rest hrest
    rw [push, reads cs x hcs rest hrest]
    rfl
  ignores := by
    intro known cs
    rw [push, push, ignores]
  opens := opens
  closes := closes

/-- The entries that are kept are those of the sequence, the last one first. -/
theorem Readable.entries_push
    (h : Readable P close (push read) fun known x => .ok (x :: known)) (hbody : Body P cs xs)
    (rest : List Char) :
    entries close (push read) [] (cs ++ close :: rest) = .ok (xs.reverse, rest) := by
  have hfold (known : List α) :
      xs.foldlM (fun known x => (.ok (x :: known) : Except Fault (List α))) known =
        .ok (xs.reverse ++ known) := by
    -- the induction is on the entries, whatever is known before them
    clear hbody
    induction xs generalizing known with
    | nil => rfl
    | cons x xs ih =>
      rw [List.foldlM_cons, List.reverse_cons, List.append_assoc]
      exact ih (x :: known)
  rw [h.entries_body hbody, hfold, List.append_nil]
  rfl

end

/-! ## Values -/

/-- Without an opening bracket it is a scalar. -/
theorem value_of_scalar {cs more : List Char} {c : Char} (hskip : skipBlanks cs = c :: more)
    (harray : c ≠ '[') (hobject : c ≠ '\x7b') (care : Care) (depth : Nat) :
    value care depth cs = scalar care (c :: more) := by
  unfold value
  rw [hskip]
  split
  case h_1 h => exact absurd (List.cons.inj h).1 harray
  case h_2 h => exact absurd (List.cons.inj h).1 hobject
  case h_3 => rfl

/-- An array is its items, each one level further down. -/
theorem value_of_array {cs more : List Char} (hskip : skipBlanks cs = '[' :: more) (care : Care)
    (depth : Nat) : value care (depth + 1) cs =
      (entries ']' (push (value care depth)) [] more).map fun (items, rest) =>
        (array items.reverse, rest) := by
  rw [value, hskip]
  show (entries ']' (push (value care depth)) [] more).bind _ = _
  cases entries ']' (push (value care depth)) [] more <;> rfl

/-- Reads a member. -/
def memberFrom (care : Care) (depth : Nat) (cs : List Char) :
    Except Fault ((String × Json) × List Char) := do
  let (k, rest) ← key care cs
  let (v, rest) ← value care depth (← afterColon rest)
  return ((k, v), rest)

/-- An object is its members, each one level further down. -/
theorem value_of_object {cs more : List Char} (hskip : skipBlanks cs = '\x7b' :: more)
    (care : Care) (depth : Nat) : value care (depth + 1) cs =
      (entries '\x7d' (push (memberFrom care depth)) [] more).map fun (members, rest) =>
        (object members.reverse, rest) := by
  have hpush : (fun members cs => do
      let (k, rest) ← key care cs
      let (v, rest) ← value care depth (← afterColon rest)
      return ((k, v) :: members, rest)) = push (memberFrom care depth) := by
    funext members cs
    simp [push, memberFrom]
  rw [value, hskip, ← hpush]
  show (entries '\x7d' _ [] more).bind _ = _
  cases entries '\x7d' _ [] more <;> rfl

theorem value_skipBlanks (care : Care) (depth : Nat) (cs : List Char) :
    value care depth (skipBlanks cs) = value care depth cs := by
  unfold value
  rw [skipBlanks_skipBlanks]

theorem value_gap (care : Care) (depth : Nat) {gap : List Char} (hgap : IsGap gap)
    (cs : List Char) : value care depth (gap ++ cs) = value care depth cs := by
  rw [← value_skipBlanks, skipBlanks_gap hgap, value_skipBlanks]

theorem key_skipBlanks (care : Care) (cs : List Char) : key care (skipBlanks cs) = key care cs := by
  rw [key, key, skipBlanks_skipBlanks]

section

variable {care : Care} {depth : Nat} {cs rest : List Char} {v : Json}

/-- A number begins with its sign or a digit. -/
theorem Numeral.opens (h : Numeral care cs) :
    ∃ c more, cs = c :: more ∧ (c = '-' ∨ c.isDigit = true) := by
  obtain @⟨sign, whole, point, fraction, exponent, power, hsign, hwhole⟩ := h
  rcases hsign with rfl | rfl
  · obtain ⟨d, more, rfl⟩ := List.exists_cons_of_ne_nil hwhole.1.1
    exact ⟨d, _, rfl, .inr (hwhole.1.2 d List.mem_cons_self)⟩
  · exact ⟨'-', _, rfl, .inl rfl⟩

/-- What a number begins with does not begin anything else. -/
theorem isBlank_of_sign {c : Char} (hc : c = '-' ∨ c.isDigit = true) :
    isBlank c = false ∧ c ∉ ['[', ']', '\x7b', 'n', 't', 'f', '"'] := by
  constructor
  · rw [Bool.eq_false_iff]
    intro hblank
    simp only [isBlank, Bool.or_eq_true, beq_iff_eq] at hblank
    rcases hblank with ((rfl | rfl) | rfl) | rfl <;> exact absurd hc (by decide)
  · intro hmem
    simp only [List.mem_cons, List.not_mem_nil, or_false] at hmem
    rcases hmem with rfl | rfl | rfl | rfl | rfl | rfl | rfl <;> exact absurd hc (by decide)

/-- A value begins with a character of its own. -/
theorem Writes.opens (h : Writes care depth cs v) :
    ∃ c more, cs = c :: more ∧ isBlank c = false ∧ c ≠ ']' := by
  cases v with
  | null =>
    rw [Writes] at h
    exact ⟨'n', _, h, by decide, by decide⟩
  | bool b =>
    rw [Writes] at h
    cases b with
    | false => exact ⟨'f', _, h, by decide, by decide⟩
    | true => exact ⟨'t', _, h, by decide, by decide⟩
  | number spelling =>
    rw [Writes] at h
    obtain ⟨c, more, hcs, hc⟩ := h.2.opens
    obtain ⟨hblank, hmem⟩ := isBlank_of_sign hc
    exact ⟨c, more, hcs, hblank, by rintro rfl; exact hmem (by decide)⟩
  | string s =>
    rw [Writes] at h
    obtain ⟨body, rfl, -⟩ := h
    exact ⟨'"', _, rfl, by decide, by decide⟩
  | array items =>
    cases depth with
    | zero => simp only [Writes] at h
    | succ depth =>
      rw [Writes] at h
      obtain ⟨body, rfl, -⟩ := h
      exact ⟨'[', _, rfl, by decide, by decide⟩
  | object members =>
    cases depth with
    | zero => simp only [Writes] at h
    | succ depth =>
      rw [Writes] at h
      obtain ⟨body, rfl, -⟩ := h
      exact ⟨'\x7b', _, rfl, by decide, by decide⟩

/-- A quoted key is read as what it writes. -/
theorem key_quoted {s : String} (h : Quoted care cs s) (rest : List Char) :
    key care (cs ++ rest) = .ok (s, rest) := by
  obtain ⟨body, rfl, hbody⟩ := h
  rw [List.cons_append, List.cons_append, key, skipBlanks_cons (by decide), List.append_assoc]
  exact stringRest_characters hbody rest

theorem afterColon_gap {gap : List Char} (hgap : IsGap gap) (rest : List Char) :
    afterColon (gap ++ ':' :: rest) = .ok rest := by
  rw [afterColon, skipBlanks_gap hgap, skipBlanks_cons (by decide)]
  rfl

section

variable {P : String → List Char → Json → Prop} {member : String × Json}
  (h : Pair care P cs member)

include h

/-- A pair begins with the quote of its key. -/
theorem Pair.opens : ∃ c more, cs = c :: more ∧ isBlank c = false ∧ c ≠ '\x7d' := by
  obtain ⟨key, before, behind, value, rfl, ⟨body, rfl, -⟩, -⟩ := h
  exact ⟨'"', _, rfl, by decide, by decide⟩

/-- The key of a pair is read, then its colon, and then its value is next. -/
theorem Pair.reads (rest : List Char) : ∃ atColon gap body,
    key care (cs ++ rest) = .ok (member.1, atColon) ∧
      afterColon atColon = .ok (gap ++ (body ++ rest)) ∧ IsGap gap ∧ P member.1 body member.2 := by
  obtain ⟨name, before, gap, body, rfl, hname, hbefore, hgap, hbody⟩ := h
  refine ⟨before ++ ':' :: (gap ++ (body ++ rest)), gap, body, ?_, afterColon_gap hbefore _, hgap,
    hbody⟩
  rw [← key_quoted hname]
  simp only [List.append_assoc, List.cons_append]

end

/-- The readers of items and of members, given that values are read. -/
theorem readable_items (hreads : ∀ cs v, Writes care depth cs v → ∀ rest, Breaks rest →
    value care depth (cs ++ rest) = .ok (v, rest)) :
    Readable (Writes care depth) ']' (push (value care depth)) fun known x => .ok (x :: known) :=
  readable_push hreads (value_skipBlanks care depth) (fun _ _ h => h.opens) (by decide)

/-- Members are a key, a colon and a value. -/
theorem readable_members (hreads : ∀ cs v, Writes care depth cs v → ∀ rest, Breaks rest →
    value care depth (cs ++ rest) = .ok (v, rest)) :
    Readable (Pair care fun _ => Writes care depth) '\x7d' (push (memberFrom care depth))
      fun known x => .ok (x :: known) := by
  refine readable_push ?_ ?_ (fun _ _ h => h.opens) (by decide)
  · intro cs member hmember rest hrest
    obtain ⟨atColon, gap, body, hkey, hcolon, hgap, hbody⟩ := hmember.reads rest
    have hvalue : value care depth (gap ++ (body ++ rest)) = .ok (member.2, rest) := by
      rw [value_gap care depth hgap, hreads body member.2 hbody rest hrest]
    rw [memberFrom, hkey]
    dsimp only [bind, Except.bind]
    rw [hcolon]
    dsimp only
    rw [hvalue]
    rfl
  · intro cs
    rw [memberFrom, memberFrom, key_skipBlanks]

/-- Neither array nor object. -/
def isScalar : Json → Bool
  | array _ | object _ => false
  | _ => true

/-- A scalar is read as what it writes; the depth does not matter. -/
theorem value_of_writes_scalar (h : Writes care depth cs v) (hscalar : v.isScalar = true)
    (hrest : Breaks rest) : value care depth (cs ++ rest) = .ok (v, rest) := by
  cases v with
  | null =>
    rw [Writes] at h
    subst h
    exact value_of_scalar (skipBlanks_cons (by decide) _) (by decide) (by decide) care depth
  | bool b =>
    rw [Writes] at h
    subst h
    cases b <;>
      exact value_of_scalar (skipBlanks_cons (by decide) _) (by decide) (by decide) care depth
  | number spelling =>
    rw [Writes] at h
    obtain ⟨hspelling, hnumeral⟩ := h
    have hread := numeral_append hnumeral hrest
    obtain ⟨c, more, rfl, hc⟩ := hnumeral.opens
    obtain ⟨hblank, hmem⟩ := isBlank_of_sign hc
    simp only [List.mem_cons, List.not_mem_nil, or_false, not_or] at hmem
    -- with this first character all other readers are passed by
    obtain ⟨harray, -, hobject, hn, ht, hf, hquote⟩ := hmem
    rw [List.cons_append, value_of_scalar (skipBlanks_cons hblank _) harray hobject, scalar,
      if_neg hn, if_neg ht, if_neg hf, if_neg hquote, if_pos hc, ← List.cons_append, hread, hspelling,
      String.ofList_toList]
  | string s =>
    rw [Writes] at h
    obtain ⟨body, rfl, hbody⟩ := h
    rw [List.cons_append, List.cons_append,
      value_of_scalar (skipBlanks_cons (by decide) _) (by decide) (by decide) care depth,
      List.append_assoc]
    show (stringRest care (body ++ '"' :: rest)).bind _ = _
    rw [stringRest_characters hbody]
    rfl
  | array | object => cases hscalar

end

/-- **What is written is read**: a value is read from its text, and nothing behind it.  By induction
on the depth. -/
theorem value_of_writes {care : Care} {depth : Nat} {cs rest : List Char} {v : Json}
    (h : Writes care depth cs v) (hrest : Breaks rest) :
    value care depth (cs ++ rest) = .ok (v, rest) := by
  induction depth generalizing cs v rest with
  | zero =>
    cases v with
    | array | object => simp only [Writes] at h
    | null | bool | number | string => exact value_of_writes_scalar h rfl hrest
  | succ depth ih =>
    -- items and members are one level down
    have hreads : ∀ cs v, Writes care depth cs v → ∀ rest, Breaks rest →
        value care depth (cs ++ rest) = .ok (v, rest) := fun _ _ h _ hrest => ih h hrest
    cases v with
    | array items =>
      rw [Writes] at h
      obtain ⟨body, rfl, hbody⟩ := h
      rw [List.cons_append, List.cons_append, List.append_assoc, List.singleton_append,
        value_of_array (skipBlanks_cons (by decide) _), (readable_items hreads).entries_push hbody]
      simp [Except.map]
    | object members =>
      rw [Writes] at h
      obtain ⟨body, rfl, hbody⟩ := h
      rw [List.cons_append, List.cons_append, List.append_assoc, List.singleton_append,
        value_of_object (skipBlanks_cons (by decide) _),
        (readable_members hreads).entries_push hbody]
      simp [Except.map]
    | null | bool | number | string => exact value_of_writes_scalar h rfl hrest

/-- **A value is passed over**, however deeply it nests. -/
theorem skip_of_writes {depth : Nat} {gap cs rest : List Char} {v : Json} (hgap : IsGap gap)
    (h : Writes .skim depth cs v) (hrest : Breaks rest) : skip (gap ++ (cs ++ rest)) = .ok rest := by
  have hlength : cs.length ≤ (gap ++ (cs ++ rest)).length := by
    simp only [List.length_append]
    omega
  rw [skip, value_gap .skim _ hgap, value_of_writes (h.of_length_le hlength) hrest]
  rfl

/-! ## Documents -/

/-- The text is read as the value, and nothing is left but blanks. -/
def Reads (text : String) (v : Json) : Prop :=
  ∃ rest, value .exact maxDepth text.toList = .ok (v, rest) ∧ finish rest = .ok ()

/-- **A document is read to its end.** -/
theorem reads_of_spelled {text : String} {v : Json} (h : Spelled text v) : Reads text v := by
  obtain ⟨lead, cs, trail, htext, hlead, hcs, htrail⟩ := h
  have hbreaks : Breaks trail := by
    have hbreaks := breaks_gap htrail (avoids_nil goesOn)
    rwa [List.append_nil] at hbreaks
  refine ⟨trail, ?_, finish_gap htrail⟩
  rw [htext, List.append_assoc, value_gap .exact maxDepth hlead, value_of_writes hcs.writes hbreaks]

end ReleaseMatrix.Json
