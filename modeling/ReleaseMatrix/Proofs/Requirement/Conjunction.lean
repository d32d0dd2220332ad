/-
  Conjunctions — error-free parts with gaps between them hold together, in any order.

  Reading tokens carries a sign from piece to piece, and looks two pieces ahead for `a - b`.  So
  two clauses that are put side by side could run into each other:

      >   and   1          would be        > 1
      1   and   - 2        would be        1 - 2

  Neither of them is error-free.  A sign that still waits at the end of a clause becomes a token
  that is complained of, and so does a hyphen that a clause begins with.

  1. **Tokens** — `tokensFrom_append`, the tokens of an error-free clause and of one that does not
     begin with a hyphen are those of the two.
  2. **Two parts** — `IsPart.means_append`, with any gap of blanks and commas.
  3. **Any number of parts** — `Joined.means`, from which order and repetition follow.
-/
import ReleaseMatrix.Proofs.Requirement.Atom

namespace ReleaseMatrix

namespace Sign

/-- A sign without a literal is one of the spellings. -/
theorem exists_spelling_of_standsAlone {cs : List Char} (h : standsAlone cs = true) :
    ∃ p ∈ spellings, p.1 ≠ "" ∧ p.1.toList = cs := by
  rw [standsAlone, Bool.and_eq_true, List.isEmpty_iff] at h
  obtain ⟨hne, hrest⟩ := h
  obtain ⟨spelling, hmem, hcs⟩ := exists_spelling cs
  rw [hrest, List.append_nil] at hcs
  refine ⟨_, hmem, ?_, hcs.symm⟩
  rintro rfl
  rw [hcs] at hne
  exact absurd hne (by decide)

theorem ne_nil_of_standsAlone {cs : List Char} (h : standsAlone cs = true) : cs ≠ [] := by
  rintro rfl
  exact absurd h (by decide)

theorem plain_of_standsAlone {cs : List Char} (h : standsAlone cs = true) :
    ∀ c ∈ cs, Clause.isSeparator c = false ∧ c ≠ '|' ∧ c ≠ '@' := by
  obtain ⟨p, hp, -, rfl⟩ := exists_spelling_of_standsAlone h
  exact plain_of_mem_spellings p hp

/-- Signs hold no flag. -/
theorem not_mem_of_standsAlone {cs : List Char} (h : standsAlone cs = true) : '@' ∉ cs :=
  fun hmem => (plain_of_standsAlone h '@' hmem).2.2 rfl

end Sign

namespace Clause

/-! ## Tokens that are complained of -/

namespace Token

/-- A sign without a literal is complained of. -/
theorem problem?_of_standsAlone {cs : List Char} (h : Sign.standsAlone cs = true) :
    (atom cs).problem? ≠ none := by
  have hspellings : ∀ p ∈ Sign.spellings, p.1 ≠ "" → (atom p.1.toList).problem? ≠ none := by
    decide
  obtain ⟨p, hp, hne, rfl⟩ := Sign.exists_spelling_of_standsAlone h
  exact hspellings p hp hne

theorem problem?_hyphen : (atom ['-']).problem? ≠ none := by decide

/-- A sign with a hyphen in place of its literal is complained of. -/
theorem problem?_glued_hyphen {sign : List Char} (h : Sign.standsAlone sign = true) :
    (atom (sign ++ ['-'])).problem? ≠ none := by
  have hspellings : ∀ p ∈ Sign.spellings, (atom (p.1.toList ++ ['-'])).problem? ≠ none := by decide
  obtain ⟨p, hp, -, rfl⟩ := Sign.exists_spelling_of_standsAlone h
  exact hspellings p hp

theorem problem?_range_hyphen (high : List Char) : (range ['-'] high).problem? ≠ none := by
  rw [Ne, problem?_range_iff]
  exact fun h => absurd h.1 (by decide)

theorem problem?_openRange (low : List Char) : (openRange low).problem? ≠ none := by
  simp [problem?, read]

end Token

/-! ## Clauses side by side -/

/-- An error-free clause does not begin with a hyphen. -/
theorem head?_ne_hyphen {ps : List (List Char)} (h : Sound (tokensFrom none ps)) :
    ps.head? ≠ some ['-'] := by
  intro hhead
  obtain ⟨rest, rfl⟩ := List.head?_eq_some_iff.mp hhead
  have hsign : ¬ Sign.standsAlone ['-'] = true := by decide
  by_cases hrange : rest.head? = some ['-']
  · obtain ⟨behind, rfl⟩ := List.head?_eq_some_iff.mp hrange
    cases behind with
    | nil => exact Token.problem?_openRange ['-'] (sound_cons.mp h).1
    | cons high behind =>
      rw [tokensFrom_range hsign] at h
      exact Token.problem?_range_hyphen high (sound_cons.mp h).1
  · rw [tokensFrom_atom hsign hrange] at h
    exact Token.problem?_hyphen (sound_cons.mp h).1

/-- Pieces behind a literal that are no end of a range do not begin with a hyphen. -/
theorem head?_ne_of_noRange {ps : List (List Char)}
    (hrange : ∀ high rest, ps ≠ ['-'] :: high :: rest) (hopen : ps ≠ [['-']]) :
    ps.head? ≠ some ['-'] := by
  intro hhead
  obtain ⟨rest, rfl⟩ := List.head?_eq_some_iff.mp hhead
  cases rest with
  | nil => exact hopen rfl
  | cons high rest => exact hrange high rest rfl

/-- A hyphen that comes next would be the first piece of the other clause. -/
theorem head?_append_ne_hyphen {ps qs : List (List Char)}
    (hrange : ∀ high rest, ps ≠ ['-'] :: high :: rest) (hopen : ps ≠ [['-']])
    (hqs : qs.head? ≠ some ['-']) : (ps ++ qs).head? ≠ some ['-'] := by
  cases ps with
  | nil => exact hqs
  | cons next rest =>
    show (next :: rest).head? ≠ some ['-']
    exact head?_ne_of_noRange hrange hopen

/-- **Nothing runs from an error-free clause into the next**, whatever sign waits in front of it:
at its end no sign waits, and none of its last two pieces reaches for a hyphen. -/
theorem tokensFrom_append {pending : Option (List Char)} {ps qs : List (List Char)}
    (hpending : ∀ sign ∈ pending, Sign.standsAlone sign = true)
    (hps : Sound (tokensFrom pending ps)) (hqs : qs.head? ≠ some ['-']) :
    tokensFrom pending (ps ++ qs) = tokensFrom pending ps ++ tokensFrom none qs := by
  fun_induction tokensFrom pending ps with
  | case1 => rfl
  | case2 sign =>
    -- the sign still waits at the end
    exact absurd (sound_cons.mp hps).1 (Token.problem?_of_standsAlone (hpending sign rfl))
  | case3 piece rest hsign sign ih =>
    -- a second sign comes while the first one waits
    exact absurd (sound_cons.mp hps).1 (Token.problem?_of_standsAlone (hpending sign rfl))
  | case4 piece rest hsign ih =>
    rw [List.cons_append, tokensFrom_sign hsign]
    refine ih (fun sign hmem => ?_) hps
    rw [Option.mem_some.mp hmem] at hsign
    exact hsign
  | case5 piece rest hsign sign ih =>
    rw [List.cons_append, tokensFrom_glue hsign,
      ih (by simp) (sound_cons.mp hps).2]
    rfl
  | case6 piece hsign high rest ih =>
    simp only [List.cons_append]
    rw [tokensFrom_range hsign, ih (by simp) (sound_cons.mp hps).2]
  | case7 piece hsign =>
    exact absurd (sound_cons.mp hps).1 (Token.problem?_openRange piece)
  | case8 piece hsign rest hrange hopen ih =>
    -- the next piece is no hyphen, be it of this clause or the first one of the other
    rw [List.cons_append, tokensFrom_atom hsign (head?_append_ne_hyphen hrange hopen hqs),
      ih (by simp) (sound_cons.mp hps).2]
    rfl

end Clause

namespace Requirement

open Clause

/-! ## Parts of a conjunction -/

/-- A clause that is read without a problem when it stands alone. -/
structure IsPart (text : String) : Prop where
  /-- There is something to read. -/
  filled : ¬ IsBlank text
  /-- It has no alternatives. -/
  barless : '|' ∉ text.toList
  /-- Nothing is complained of. -/
  sound : (ofText text).problems = []

/-- What keeps two parts apart: blanks and commas, at least one of them. -/
def IsGap (gap : String) : Prop := gap ≠ "" ∧ ∀ c ∈ gap.toList, Text.isBlank c = true ∨ c = ','

theorem isGap_blank : IsGap " " := by simp [IsGap, Text.isBlank]

/-- A part has tokens, and none of them is complained of. -/
theorem isPart_iff {text : String} : IsPart text ↔
    '|' ∉ text.toList ∧ tokens text.toList ≠ [] ∧ Sound (tokens text.toList) := by
  constructor
  · rintro ⟨hfilled, hbarless, hsound⟩
    rw [problems_ofText_barless hfilled hbarless, problems_eq_nil_iff] at hsound
    exact ⟨hbarless, hsound⟩
  · rintro ⟨hbarless, htokens⟩
    have hfilled := not_isBlank_of_tokens htokens.1
    refine ⟨hfilled, hbarless, ?_⟩
    rw [problems_ofText_barless hfilled hbarless]
    exact problems_eq_nil_iff.mpr htokens

theorem IsPart.admits_iff {text : String} (h : IsPart text) (v : Version) :
    (ofText text).admits v = true ↔ ∀ t ∈ tokens text.toList, t.constraint.admits v = true := by
  rw [admits_ofText_barless h.filled h.barless, admits_constraint]
  exact and_iff_right (isPart_iff.mp h).2.1

/-- **A gap adds and loses nothing**: the tokens are those of the one part and of the other. -/
theorem IsPart.tokens_append {a gap b : String} (ha : IsPart a) (hgap : IsGap gap)
    (hb : IsPart b) :
    tokens (a ++ gap ++ b).toList = tokens a.toList ++ tokens b.toList := by
  have hne : gap.toList ≠ [] := fun h => hgap.1 (String.toList_eq_nil_iff.mp h)
  have hseparators : ∀ c ∈ gap.toList, isSeparator c = true := fun c hc => by
    simpa [isSeparator] using hgap.2 c hc
  rw [String.toList_append, String.toList_append, tokens, pieces_join _ _ hne hseparators]
  exact tokensFrom_append (by simp) (isPart_iff.mp ha).2.2 (head?_ne_hyphen (isPart_iff.mp hb).2.2)

/-- Parts with a gap between them are a part again. -/
theorem IsPart.append {a gap b : String} (ha : IsPart a) (hgap : IsGap gap) (hb : IsPart b) :
    IsPart (a ++ gap ++ b) := by
  obtain ⟨hbarA, hneA, hsoundA⟩ := isPart_iff.mp ha
  obtain ⟨hbarB, -, hsoundB⟩ := isPart_iff.mp hb
  refine isPart_iff.mpr ⟨?_, ?_, ?_⟩
  · intro hbar
    rw [String.toList_append, String.toList_append] at hbar
    rcases List.mem_append.mp hbar with hbar | hbar
    · rcases List.mem_append.mp hbar with hbar | hbar
      · exact hbarA hbar
      · exact absurd (hgap.2 '|' hbar) (by decide)
    · exact hbarB hbar
  · rw [ha.tokens_append hgap hb]
    exact List.append_ne_nil_of_left_ne_nil hneA _
  · rw [ha.tokens_append hgap hb, sound_append]
    exact ⟨hsoundA, hsoundB⟩

/-- **Both parts must admit the version.** -/
theorem IsPart.means_append {a gap b : String} (ha : IsPart a) (hgap : IsGap gap)
    (hb : IsPart b) : Means (a ++ gap ++ b) fun v =>
      (ofText a).admits v = true ∧ (ofText b).admits v = true := by
  have hboth := ha.append hgap hb
  refine ⟨hboth.sound, fun v => ?_⟩
  show _ ↔ (ofText a).admits v = true ∧ (ofText b).admits v = true
  rw [hboth.admits_iff, ha.admits_iff, hb.admits_iff, ha.tokens_append hgap hb]
  exact List.forall_mem_append

/-! ## Any number of parts -/

/-- The text is these parts in this order, with gaps between them. -/
inductive Joined : List String → String → Prop where
  /-- One part, without a gap. -/
  | part {text : String} (h : IsPart text) : Joined [text] text
  /-- Two such texts with a gap between them. -/
  | append {as bs : List String} {a gap b : String} (ha : Joined as a) (hgap : IsGap gap)
      (hb : Joined bs b) : Joined (as ++ bs) (a ++ gap ++ b)

/-- What is joined of parts is a part. -/
theorem Joined.isPart {parts : List String} {text : String} (h : Joined parts text) :
    IsPart text := by
  induction h with
  | part h => exact h
  | append ha hgap hb iha ihb => exact iha.append hgap ihb

/-- Each of the parts must admit the version. -/
theorem Joined.means {parts : List String} {text : String} (h : Joined parts text) :
    Means text fun v => ∀ part ∈ parts, (ofText part).admits v = true := by
  induction h with
  | @part text h =>
    refine ⟨h.sound, fun v => ?_⟩
    show _ ↔ ∀ part ∈ [text], (ofText part).admits v = true
    rw [List.forall_mem_singleton]
  | append ha hgap hb iha ihb =>
    obtain ⟨hsound, hadmits⟩ := ha.isPart.means_append hgap hb.isPart
    refine ⟨hsound, fun v => (hadmits v).trans ?_⟩
    exact (and_congr (iha.2 v) (ihb.2 v)).trans List.forall_mem_append.symm

/-- **Error-free parts are a conjunction.**  Two of them with any gap between them are read without
a problem, and admit what both admit.  So of however many parts a text is joined, only which parts
they are decides what it admits: not their order, not how often each of them stands there, and not
the gaps. -/
theorem conjunction_of_parts :
    (∀ {a gap b : String}, IsPart a → IsGap gap → IsPart b →
      Means (a ++ gap ++ b) fun v => (ofText a).admits v = true ∧ (ofText b).admits v = true) ∧
    ∀ {as bs : List String} {a b : String}, Joined as a → Joined bs b →
      (∀ part, part ∈ as ↔ part ∈ bs) → ∀ v, (ofText a).admits v = (ofText b).admits v := by
  refine ⟨IsPart.means_append, ?_⟩
  intro as bs a b ha hb hsame v
  rw [Bool.eq_iff_iff, ha.means.2, hb.means.2]
  constructor
  · intro hall part hmem
    exact hall part ((hsame part).mpr hmem)
  · intro hall part hmem
    exact hall part ((hsame part).mp hmem)

/-- A sign apart from its number and a hyphen, each between parts that could take them. -/
theorem conjunction_of_parts_loose :
    IsPart "> 7.4" ∧ IsPart "8 - 9" ∧ IsGap " , " ∧
    Means ("> 7.4" ++ " , " ++ "8 - 9") (fun v =>
      (ofText "> 7.4").admits v = true ∧ (ofText "8 - 9").admits v = true) ∧
    ∀ v, (ofText ("8 - 9" ++ " , " ++ ("> 7.4" ++ " , " ++ "8 - 9"))).admits v =
      (ofText ("> 7.4" ++ " , " ++ "8 - 9")).admits v := by
  have hsign : IsPart "> 7.4" := isPart_iff.mpr (by decide)
  have hrange : IsPart "8 - 9" := isPart_iff.mpr (by decide)
  have hgap : IsGap " , " := by
    have hall : (" , ".toList.all fun c => Text.isBlank c || c == ',') = true := by decide
    exact ⟨by decide, fun c hc => by simpa using List.all_eq_true.mp hall c hc⟩
  have hboth : Joined ["> 7.4", "8 - 9"] ("> 7.4" ++ " , " ++ "8 - 9") :=
    (Joined.part hsign).append hgap (.part hrange)
  refine ⟨hsign, hrange, hgap, conjunction_of_parts.1 hsign hgap hrange, ?_⟩
  exact conjunction_of_parts.2 ((Joined.part hrange).append hgap hboth) hboth (by simp)

end Requirement
end ReleaseMatrix
