/-
  The grammar of literals — which texts are accepted, and what is read of each.

  A literal is written in five parts, of which only the components must be there:

      marker   components       fourth   qualifier   build
      v        8 . 1 . x        .27      -RC1        +b7

  Components are joined by dots, one to three of them, and a fourth number can stand behind three
  only.  What one part may end with no other part begins with, so reading from left to right finds
  the parts: each reader takes its part off the front of the text and leaves the others.

  1. **Parts** — `Parts`, and `Parts.Proper` for what may stand in each.
  2. **Readers** — for each part, that the reader takes it off (`…_append`), and that whatever the
     reader takes off is such a part (`exists_…`).
  3. **Literals** — `read?_eq_some_iff`: the accepted texts are those of proper parts.
-/
import Mathlib.Data.List.TakeWhile
import ReleaseMatrix.Proofs.Text.Digit
import ReleaseMatrix.Version.Literal

namespace ReleaseMatrix.Literal

open Text

/-! ## Parts -/

/-- A component as it is written: a wildcard, or 1 to 16 digits. -/
def IsComponent (part : List Char) : Prop :=
  (∃ c, isWildcard c = true ∧ part = [c]) ∨
    Version.isShort part = true ∧ ∀ c ∈ part, isDigit c = true

/-- What a written component says. -/
def Component.ofText (part : List Char) : Component :=
  (Version.component? part).elim .wildcard .number

/-- The number that counts for nothing, or nothing. -/
def IsFourth (cs : List Char) : Prop :=
  cs = [] ∨ ∃ run, cs = '.' :: run ∧ Version.isShort run = true ∧ ∀ c ∈ run, isDigit c = true

/-- A hyphen and at least one mark, or a letter and any number of them, or nothing. -/
def IsQualifier (cs : List Char) : Prop :=
  cs = [] ∨ ∃ c marks, cs = c :: marks ∧ (∀ d ∈ marks, isMark d = true) ∧
    (c = '-' ∧ marks ≠ [] ∨ c.isAlpha = true)

/-- The parts of a literal, in the order in which they are written. -/
structure Parts where
  marker : List Char
  components : List (List Char)
  fourth : List Char
  qualifier : List Char
  build : List Char

namespace Parts

/-- The text of the parts. -/
def text (p : Parts) : List Char :=
  p.marker ++ (['.'].intercalate p.components ++ (p.fourth ++ (p.qualifier ++ p.build)))

/-- Each part is what may stand in its place. -/
structure Proper (p : Parts) : Prop where
  marker : p.marker = [] ∨ p.marker = ['v'] ∨ p.marker = ['V']
  filled : p.components ≠ []
  atMostThree : p.components.length ≤ 3
  components : ∀ part ∈ p.components, IsComponent part
  fourth : IsFourth p.fourth
  fourthBehindThree : p.fourth ≠ [] → p.components.length = 3
  qualifier : IsQualifier p.qualifier
  build : isBuild p.build = true

end Parts

/-! ## Components -/

theorem isDigit_eq_false_of_isWildcard {c : Char} (h : isWildcard c = true) :
    isDigit c = false := by
  simp only [isWildcard, Bool.or_eq_true, beq_iff_eq] at h
  rcases h with (rfl | rfl) | rfl <;> decide

/-- No digit is a wildcard. -/
theorem isWildcard_eq_false_of_isDigit {c : Char} (h : isDigit c = true) :
    isWildcard c = false := by
  rw [Bool.eq_false_iff]
  intro hwild
  rw [isDigit_eq_false_of_isWildcard hwild] at h
  cases h

theorem Component.ofText_wildcard {c : Char} (h : isWildcard c = true) :
    ofText [c] = .wildcard := by
  simp only [isWildcard, Bool.or_eq_true, beq_iff_eq] at h
  rcases h with (rfl | rfl) | rfl <;> decide

/-- A component begins with a wildcard or a digit. -/
theorem IsComponent.exists_cons {part : List Char} (h : IsComponent part) :
    ∃ c cs, part = c :: cs ∧ (isWildcard c = true ∨ isDigit c = true) := by
  rcases h with ⟨c, hwild, rfl⟩ | ⟨hshort, hdigits⟩
  · exact ⟨c, [], rfl, .inl hwild⟩
  · obtain ⟨c, cs, rfl⟩ := List.exists_cons_of_length_pos (Version.isShort_iff.mp hshort).1
    exact ⟨c, cs, rfl, .inr (hdigits c List.mem_cons_self)⟩

/-- Parts with a dot between them are the first one, and the others behind a dot each. -/
theorem intercalate_cons_eq (part : List Char) (others : List (List Char)) :
    ['.'].intercalate (part :: others) = part ++ others.flatMap ('.' :: ·) := by
  induction others generalizing part with
  | nil => simp
  | cons next others ih => simp [List.intercalate_cons_cons, ih]

/-- The components, each of them, stand in the text. -/
theorem Parts.mem_text {p : Parts} {part : List Char} (hpart : part ∈ p.components) {c : Char}
    (hc : c ∈ part) : c ∈ p.text := by
  have hmem : c ∈ ['.'].intercalate p.components := by
    obtain ⟨first, others, hcons⟩ := List.exists_cons_of_ne_nil (List.ne_nil_of_mem hpart)
    rw [hcons] at hpart ⊢
    rw [intercalate_cons_eq, List.mem_append]
    rcases List.mem_cons.mp hpart with rfl | hpart
    · exact .inl hc
    · exact .inr (List.mem_flatMap.mpr ⟨part, hpart, List.mem_cons_of_mem _ hc⟩)
  rw [text, List.mem_append, List.mem_append]
  exact .inr (.inl hmem)

/-- A component is taken off a text that goes on with no digit. -/
theorem Component.read?_append {part rest : List Char} (h : IsComponent part)
    (hrest : ∀ c ∈ rest.head?, isDigit c = false) :
    Component.read? (part ++ rest) = some (.ofText part, rest) := by
  rcases h with ⟨c, hwild, rfl⟩ | ⟨hshort, hdigits⟩
  · rw [List.singleton_append, Component.read?, if_pos hwild, ofText_wildcard hwild]
  · obtain ⟨c, cs, rfl⟩ := List.exists_cons_of_length_pos (Version.isShort_iff.mp hshort).1
    have hwild := isWildcard_eq_false_of_isDigit (hdigits c List.mem_cons_self)
    have hrun := splitRun_append_of_digits hdigits hrest
    rw [List.cons_append] at hrun ⊢
    rw [Component.read?, hwild, if_neg Bool.false_ne_true]
    simp only [hrun, if_pos hshort, ofText]

/-- What is read as a component is one. -/
theorem Component.exists_of_read? {cs rest : List Char} {k : Component}
    (h : Component.read? cs = some (k, rest)) :
    ∃ part, cs = part ++ rest ∧ IsComponent part ∧ k = .ofText part := by
  unfold Component.read? at h
  split at h
  case h_1 => cases h
  case h_2 c cs =>
    split at h
    case isTrue hwild =>
      cases h
      exact ⟨[c], rfl, .inl ⟨c, hwild, rfl⟩, (ofText_wildcard hwild).symm⟩
    case isFalse =>
      dsimp only at h
      split at h
      case isTrue hshort =>
        cases h
        exact ⟨_, (splitRun_append _).symm, .inr ⟨hshort, fun _ => isDigit_of_mem_run⟩, rfl⟩
      case isFalse => cases h

/-- One to `more + 1` components are taken off a text that goes on with no digit, nor with a dot
where another component is allowed. -/
theorem readComponents?_append {more : Nat} {parts : List (List Char)} {rest : List Char}
    (hfilled : parts ≠ []) (hlength : parts.length ≤ more + 1)
    (hparts : ∀ part ∈ parts, IsComponent part)
    (hrest : ∀ c ∈ rest.head?, isDigit c = false)
    (hdot : rest.head? = some '.' → parts.length = more + 1) :
    readComponents? more (['.'].intercalate parts ++ rest) =
      some (parts.map .ofText, rest) := by
  induction more generalizing parts with
  | zero =>
    obtain ⟨part, rfl⟩ : ∃ part, parts = [part] := by
      rw [← List.length_eq_one_iff]
      have := List.length_pos_iff.mpr hfilled
      omega
    rw [List.intercalate_singleton, readComponents?,
      Component.read?_append (hparts part List.mem_cons_self) hrest]
    rfl
  | succ more ih =>
    obtain ⟨part, others, rfl⟩ := List.exists_cons_of_ne_nil hfilled
    have hpart : IsComponent part := hparts part List.mem_cons_self
    cases others with
    | nil =>
      rw [List.intercalate_singleton, readComponents?, Component.read?_append hpart hrest]
      -- no component may follow, so the text does not go on with a dot
      have hnodot : rest.head? ≠ some '.' := fun h => by
        have := hdot h
        simp only [List.length_singleton] at this
        omega
      simp only [Option.bind_eq_bind, Option.bind_some]
      split
      · exact absurd rfl hnodot
      · rfl
    | cons next others =>
      have hothers := ih (List.cons_ne_nil next others) (by simpa using hlength)
        (fun p hp => hparts p (List.mem_cons_of_mem _ hp))
        (fun h => by simpa using hdot h)
      rw [List.intercalate_cons_cons, List.append_assoc, List.append_assoc, List.singleton_append,
        readComponents?, Component.read?_append hpart (by simp; decide)]
      simp only [Option.bind_eq_bind, Option.bind_some, hothers]
      rfl

/-- What is read as components are one to `more + 1` of them.  A dot behind them is no part of
another only if there are as many as may be. -/
theorem exists_of_readComponents? {more : Nat} {cs rest : List Char} {ks : List Component}
    (h : readComponents? more cs = some (ks, rest)) :
    ∃ parts, parts ≠ [] ∧ parts.length ≤ more + 1 ∧ (∀ part ∈ parts, IsComponent part) ∧
      cs = ['.'].intercalate parts ++ rest ∧ ks = parts.map .ofText ∧
      (rest.head? = some '.' → parts.length = more + 1) := by
  induction more generalizing cs ks with
  | zero =>
    simp only [readComponents?, Option.bind_eq_bind, Option.bind_eq_some_iff] at h
    obtain ⟨⟨first, behind⟩, hfirst, h⟩ := h
    cases h
    obtain ⟨part, rfl, hpart, rfl⟩ := Component.exists_of_read? hfirst
    exact ⟨[part], by simp, by simp, by simpa using hpart, by simp, rfl, by simp⟩
  | succ more ih =>
    simp only [readComponents?, Option.bind_eq_bind, Option.bind_eq_some_iff] at h
    obtain ⟨⟨first, behind⟩, hfirst, h⟩ := h
    obtain ⟨part, rfl, hpart, rfl⟩ := Component.exists_of_read? hfirst
    dsimp only at h
    split at h
    case h_1 behind =>
      simp only [Option.bind_eq_some_iff] at h
      obtain ⟨⟨others, rest⟩, hothers, h⟩ := h
      cases h
      obtain ⟨parts, hfilled, hlength, hparts, rfl, rfl, hdot⟩ := ih hothers
      refine ⟨part :: parts, List.cons_ne_nil _ _, by simpa using hlength, ?_, ?_, rfl, ?_⟩
      · exact List.forall_mem_cons.mpr ⟨hpart, hparts⟩
      · -- behind the dot there is at least one part
        obtain ⟨next, others, rfl⟩ := List.exists_cons_of_ne_nil hfilled
        rw [List.intercalate_cons_cons]
        simp only [List.append_assoc, List.cons_append, List.nil_append]
      · intro h
        rw [List.length_cons, hdot h]
    case h_2 hnodot =>
      cases h
      refine ⟨[part], by simp, by simp, by simpa using hpart, by simp, rfl, fun h => ?_⟩
      -- there was room for more, so no dot can be left
      obtain ⟨tail, htail⟩ := List.head?_eq_some_iff.mp h
      exact absurd htail (hnodot tail)

/-! ## What follows them -/

/-- Without a dot there is no fourth component. -/
theorem dropFourth?_of_ne {cs : List Char} (hdot : cs.head? ≠ some '.') :
    dropFourth? cs = some cs := by
  unfold dropFourth?
  split
  · exact absurd rfl hdot
  · rfl

/-- A fourth component is dropped, up to where it ends. -/
theorem dropFourth?_append {cs rest : List Char} (h : IsFourth cs)
    (hdigit : ∀ c ∈ rest.head?, isDigit c = false) (hdot : rest.head? ≠ some '.') :
    dropFourth? (cs ++ rest) = some rest := by
  rcases h with rfl | ⟨run, rfl, hshort, hdigits⟩
  · exact dropFourth?_of_ne hdot
  · rw [List.cons_append, dropFourth?, splitRun_append_of_digits hdigits hdigit, if_pos hshort]

/-- What was dropped is a fourth component. -/
theorem exists_of_dropFourth? {cs rest : List Char} (h : dropFourth? cs = some rest) :
    ∃ fourth, cs = fourth ++ rest ∧ IsFourth fourth := by
  unfold dropFourth? at h
  split at h
  case h_1 cs =>
    split at h
    case isTrue hshort =>
      cases h
      refine ⟨'.' :: (splitRun cs).1, ?_, .inr ⟨_, rfl, hshort, fun _ => isDigit_of_mem_run⟩⟩
      rw [List.cons_append, splitRun_append]
    case isFalse => cases h
  case h_2 =>
    cases h
    exact ⟨[], rfl, .inl rfl⟩

/-- A build mark begins with `+`, or is not there. -/
theorem head?_of_isBuild {cs : List Char} (h : isBuild cs = true) : ∀ c ∈ cs.head?, c = '+' := by
  unfold isBuild at h
  split at h
  · simp
  · intro c hc
    exact (Option.some.inj hc).symm
  · cases h

/-- The marks end where the build begins. -/
theorem dropWhile_isMark_append {marks rest : List Char} (h : ∀ c ∈ marks, isMark c = true)
    (hrest : isBuild rest = true) : (marks ++ rest).dropWhile isMark = rest := by
  rw [List.dropWhile_append_of_pos h]
  cases rest with
  | nil => rfl
  | cons c rest =>
    obtain rfl := head?_of_isBuild hrest c rfl
    rw [List.dropWhile_cons_of_neg (by decide)]

/-- Behind a letter the marks are dropped too; anything else is left for the build. -/
theorem dropQualifier?_cons {c : Char} (hhyphen : c ≠ '-') (cs : List Char) :
    dropQualifier? (c :: cs) = some (if c.isAlpha then cs.dropWhile isMark else c :: cs) := by
  rw [dropQualifier?]
  · exact fun _ _ h => absurd h hhyphen
  · exact fun h => absurd h hhyphen

/-- A qualifier is dropped, up to the build. -/
theorem dropQualifier?_append {cs rest : List Char} (h : IsQualifier cs)
    (hrest : isBuild rest = true) : dropQualifier? (cs ++ rest) = some rest := by
  rcases h with rfl | ⟨c, marks, rfl, hmarks, hopen⟩
  · cases rest with
    | nil => rfl
    | cons c rest =>
      obtain rfl := head?_of_isBuild hrest c rfl
      rw [List.nil_append, dropQualifier?_cons (by decide), if_neg (by decide)]
  · have hdrop := dropWhile_isMark_append hmarks hrest
    rcases hopen with ⟨rfl, hne⟩ | halpha
    · -- a hyphen needs a mark behind it, a letter does not
      obtain ⟨d, marks, rfl⟩ := List.exists_cons_of_ne_nil hne
      have hd : isMark d = true := hmarks d List.mem_cons_self
      rw [List.cons_append, List.dropWhile_cons_of_pos hd] at hdrop
      rw [List.cons_append, List.cons_append, dropQualifier?, if_pos hd, hdrop]
    · have hne : c ≠ '-' := by
        rintro rfl
        exact absurd halpha (by decide)
      rw [List.cons_append, dropQualifier?_cons hne, if_pos halpha, hdrop]

/-- What was dropped is a qualifier. -/
theorem exists_of_dropQualifier? {cs rest : List Char} (h : dropQualifier? cs = some rest) :
    ∃ qualifier, cs = qualifier ++ rest ∧ IsQualifier qualifier := by
  have hmarks (cs : List Char) : cs = cs.takeWhile isMark ++ cs.dropWhile isMark ∧
      ∀ c ∈ cs.takeWhile isMark, isMark c = true :=
    ⟨List.takeWhile_append_dropWhile.symm, List.all_eq_true.mp List.all_takeWhile⟩
  unfold dropQualifier? at h
  split at h
  case h_1 c cs =>
    split at h
    case isTrue hc =>
      cases h
      refine ⟨'-' :: c :: cs.takeWhile isMark, ?_, .inr ⟨'-', _, rfl, ?_, .inl ⟨rfl, by simp⟩⟩⟩
      · rw [List.cons_append, List.cons_append, ← (hmarks cs).1]
      · exact List.forall_mem_cons.mpr ⟨hc, (hmarks cs).2⟩
    case isFalse => cases h
  case h_2 => cases h
  case h_3 c cs _ _ =>
    split at h
    case isTrue hc =>
      cases h
      refine ⟨c :: cs.takeWhile isMark, ?_, .inr ⟨c, _, rfl, (hmarks cs).2, .inr hc⟩⟩
      rw [List.cons_append, ← (hmarks cs).1]
    case isFalse =>
      cases h
      exact ⟨[], rfl, .inl rfl⟩
  case h_4 =>
    cases h
    exact ⟨[], rfl, .inl rfl⟩

/-! ## Literals -/

/-- A marker is taken off the components that it stands in front of. -/
theorem dropMarker_append {marker cs : List Char}
    (h : marker = [] ∨ marker = ['v'] ∨ marker = ['V'])
    (hcs : ∃ c rest, cs = c :: rest ∧ (isWildcard c = true ∨ isDigit c = true)) :
    dropMarker (marker ++ cs) = cs := by
  rcases h with rfl | rfl | rfl
  · obtain ⟨c, rest, rfl, hc⟩ := hcs
    have hmarker : (c == 'v' || c == 'V') = false := by
      rw [Bool.eq_false_iff]
      intro hmarker
      rw [Bool.or_eq_true, beq_iff_eq, beq_iff_eq] at hmarker
      rcases hmarker with rfl | rfl <;> exact absurd hc (by decide)
    rw [List.nil_append, dropMarker, hmarker, if_neg Bool.false_ne_true]
  · rfl
  · rfl

/-- What was dropped in front is a marker, or nothing. -/
theorem exists_of_dropMarker (cs : List Char) : ∃ marker, cs = marker ++ dropMarker cs ∧
    (marker = [] ∨ marker = ['v'] ∨ marker = ['V']) := by
  unfold dropMarker
  split
  case h_1 c rest =>
    split
    case isTrue hc =>
      rw [Bool.or_eq_true, beq_iff_eq, beq_iff_eq] at hc
      rcases hc with rfl | rfl
      · exact ⟨['v'], rfl, .inr (.inl rfl)⟩
      · exact ⟨['V'], rfl, .inr (.inr rfl)⟩
    case isFalse => exact ⟨[], rfl, .inl rfl⟩
  case h_2 => exact ⟨[], rfl, .inl rfl⟩

namespace Parts.Proper

variable {p : Parts} (h : p.Proper)
include h

/-- What may follow the numbers begins with a hyphen, a letter or `+`. -/
theorem head?_mark : ∀ c ∈ (p.qualifier ++ p.build).head?, isDigit c = false ∧ c ≠ '.' := by
  intro c hc
  have hplus : isDigit '+' = false ∧ '+' ≠ '.' := by decide
  rcases h.qualifier with hnil | ⟨d, marks, hcons, -, hopen⟩
  · rw [hnil, List.nil_append] at hc
    rwa [head?_of_isBuild h.build c hc]
  · rw [hcons, List.cons_append, List.head?_cons, Option.mem_some_iff] at hc
    subst hc
    rcases hopen with ⟨rfl, -⟩ | halpha
    · decide
    · refine ⟨isDigit_eq_false_of_isAlpha halpha, ?_⟩
      rintro rfl
      exact absurd halpha (by decide)

/-- What may follow the components begins with no digit, and with a dot only behind three. -/
theorem head?_tail :
    (∀ c ∈ (p.fourth ++ (p.qualifier ++ p.build)).head?, isDigit c = false) ∧
    ((p.fourth ++ (p.qualifier ++ p.build)).head? = some '.' → p.components.length = 3) := by
  by_cases hnil : p.fourth = []
  · rw [hnil, List.nil_append]
    exact ⟨fun c hc => (h.head?_mark c hc).1, fun hdot => absurd rfl (h.head?_mark '.' hdot).2⟩
  · obtain ⟨run, hrun, -⟩ := h.fourth.resolve_left hnil
    refine ⟨fun c hc => ?_, fun _ => h.fourthBehindThree hnil⟩
    rw [hrun, List.cons_append, List.head?_cons, Option.mem_some_iff] at hc
    subst hc
    decide

/-- The marker is all that is taken off in front of the components. -/
theorem dropMarker_text : dropMarker p.text =
    ['.'].intercalate p.components ++ (p.fourth ++ (p.qualifier ++ p.build)) := by
  obtain ⟨first, others, hcons⟩ := List.exists_cons_of_ne_nil h.filled
  obtain ⟨c, cs, hfirst, hc⟩ := (h.components first (by simp [hcons])).exists_cons
  refine dropMarker_append h.marker ⟨c, ?_, ?_, hc⟩
  · exact cs ++ others.flatMap ('.' :: ·) ++ (p.fourth ++ (p.qualifier ++ p.build))
  · rw [hcons, hfirst, intercalate_cons_eq, List.cons_append, List.cons_append]

/-- The components are found in the text, and nothing else is taken for one. -/
theorem readComponents?_text : readComponents? 2 (dropMarker p.text) =
    some (p.components.map .ofText, p.fourth ++ (p.qualifier ++ p.build)) := by
  rw [h.dropMarker_text,
    readComponents?_append h.filled h.atMostThree h.components h.head?_tail.1 h.head?_tail.2]

/-- The text of proper parts is read as its components say. -/
theorem read?_text : read? p.text = some (ofComponents (p.components.map .ofText)) := by
  have htail : isTail (p.fourth ++ (p.qualifier ++ p.build)) = true := by
    have hmark := h.head?_mark
    rw [isTail, dropFourth?_append h.fourth (fun c hc => (hmark c hc).1)
      (fun hdot => (hmark '.' hdot).2 rfl), Option.bind_some,
      dropQualifier?_append h.qualifier h.build]
    exact h.build
  rw [read?, h.readComponents?_text]
  simp only [htail, if_true]

end Parts.Proper

/-- **The grammar of literals**: a text is accepted iff it is the text of proper parts, and what is
read of it is what its components say. -/
theorem read?_eq_some_iff {cs : List Char} {l : Literal} :
    read? cs = some l ↔
      ∃ p : Parts, p.Proper ∧ p.text = cs ∧ l = ofComponents (p.components.map .ofText) := by
  constructor
  · intro h
    unfold read? at h
    split at h
    case h_2 => cases h
    case h_1 components tail hcomponents =>
      split at h
      case isFalse => cases h
      case isTrue htail =>
        cases h
        obtain ⟨marker, hmarker, hproper⟩ := exists_of_dropMarker cs
        obtain ⟨parts, hfilled, hlength, hparts, hbehind, rfl, hdot⟩ :=
          exists_of_readComponents? hcomponents
        unfold isTail at htail
        split at htail
        case h_2 => cases htail
        case h_1 build hbuild =>
          obtain ⟨mid, hmid, hqualifier⟩ := Option.bind_eq_some_iff.mp hbuild
          obtain ⟨fourth, rfl, hfourth⟩ := exists_of_dropFourth? hmid
          obtain ⟨qualifier, rfl, hproperQualifier⟩ := exists_of_dropQualifier? hqualifier
          refine ⟨⟨marker, parts, fourth, qualifier, build⟩, ?_, ?_, rfl⟩
          · refine ⟨hproper, hfilled, hlength, hparts, hfourth, fun hne => ?_, hproperQualifier,
              htail⟩
            -- a fourth component begins with a dot, which is left only behind three
            obtain ⟨run, rfl, -⟩ := hfourth.resolve_left hne
            exact hdot rfl
          · rw [Parts.text, ← hbehind, ← hmarker]
  · rintro ⟨p, hproper, rfl, rfl⟩
    exact hproper.read?_text

end ReleaseMatrix.Literal
