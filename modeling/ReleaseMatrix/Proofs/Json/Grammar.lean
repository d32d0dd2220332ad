/-
  Grammar — all the texts that a JSON value may be written as.

  A character of a string has several spellings, and a number keeps the one that it has:

      é  \u00e9  \u00E9          /  \/          a line break  \n  \u000A          😀  \ud83d\ude00

  What counts as well formed depends on the care of the reader.  In a value that is kept, a leading
  surrogate is followed by a trailing one, and numbers stay in the range of a 64-bit float.  In a
  value that is passed over neither is asked; half of a pair then stands for U+FFFD.

  1. **Strings** — `Spelling` of one character, `Characters`, `Quoted`.
  2. **Numbers** — `Whole`, `Fraction`, `Exponent`, and `Numeral` of them.
  3. **Values** — `Pair`, and `Writes` by recursion on the depth.
  4. **Depth** — a text nests no deeper than it is long (`Writes.of_length_le`).
  5. **Own spellings** — what `Json.text` prints is of this grammar (`Spells.writes`).
-/
import ReleaseMatrix.Proofs.Json.Spelling

namespace ReleaseMatrix.Json

/-! ## Strings -/

/-- Four hexadecimal digits that spell a number. -/
def CodeUnit (cs : List Char) (n : Nat) : Prop :=
  ∃ a b c d, cs = [a, b, c, d] ∧ codeUnit? a b c d = some n

/-- A code unit that is half of a pair. -/
def isSurrogate (n : Nat) : Bool := isLeading n || isTrailing n

/-- What a character may be written as between quotes. -/
inductive Spelling (care : Care) : List Char → Char → Prop
  /-- Itself, unless it is a quote, a backslash or a control character. -/
  | plain {c : Char} (hquote : c ≠ '"') (hbackslash : c ≠ '\\') (hplain : ¬ c.toNat < 0x20) :
      Spelling care [c] c
  /-- A letter behind a backslash. -/
  | letter {letter c : Char} (h : shortEscape? letter = some c) : Spelling care ['\\', letter] c
  /-- Its code unit. -/
  | unit {ds : List Char} {n : Nat} (hds : CodeUnit ds n) (hn : isSurrogate n = false) :
      Spelling care ('\\' :: 'u' :: ds) (Char.ofNat n)
  /-- A pair of code units, for a character beyond U+FFFF. -/
  | pair {ds es : List Char} {high low : Nat} (hcare : care = .exact) (hds : CodeUnit ds high)
      (hhigh : isLeading high = true) (hes : CodeUnit es low) (hlow : isTrailing low = true) :
      Spelling care ('\\' :: 'u' :: ds ++ '\\' :: 'u' :: es)
        (Char.ofNat (0x10000 + (high - 0xD800) * 0x400 + (low - 0xDC00)))
  /-- Half of a pair, where nobody looks. -/
  | half {ds : List Char} {n : Nat} (hcare : care = .skim) (hds : CodeUnit ds n)
      (hn : isSurrogate n = true) : Spelling care ('\\' :: 'u' :: ds) '\uFFFD'

/-- Characters between quotes, one after the other. -/
inductive Characters (care : Care) : List Char → List Char → Prop
  | nil : Characters care [] []
  | cons {ds cs s : List Char} {c : Char} (hc : Spelling care ds c) (hcs : Characters care cs s) :
      Characters care (ds ++ cs) (c :: s)

/-- A string with its quotes. -/
def Quoted (care : Care) (cs : List Char) (s : String) : Prop :=
  ∃ body, cs = '"' :: body ++ ['"'] ∧ Characters care body s.toList

/-! ## Numbers -/

/-- At least one digit, and nothing else. -/
def IsDigits (ds : List Char) : Prop := ds ≠ [] ∧ ∀ d ∈ ds, d.isDigit = true

/-- The digits before the point; a zero stands alone. -/
def Whole (ds : List Char) : Prop := IsDigits ds ∧ (ds.head? = some '0' → ds = ['0'])

/-- A point and the digits behind it, or nothing. -/
inductive Fraction : List Char → List Char → Prop
  | absent : Fraction [] []
  | digits {ds : List Char} (hds : IsDigits ds) : Fraction ('.' :: ds) ds

/-- The sign of an exponent, if it has one, and whether that is a minus. -/
inductive ExponentSign : List Char → Bool → Prop
  | absent : ExponentSign [] false
  | plus : ExponentSign ['+'] false
  | minus : ExponentSign ['-'] true

/-- An exponent with its letter, or nothing. -/
inductive Exponent : List Char → Int → Prop
  | absent : Exponent [] 0
  | power {e : Char} {sign ds : List Char} {negative : Bool} (he : e = 'e' ∨ e = 'E')
      (hsign : ExponentSign sign negative) (hds : IsDigits ds) :
      Exponent (e :: (sign ++ ds))
        (if negative then -(Nat.ofDigitChars 10 ds 0 : Int) else Nat.ofDigitChars 10 ds 0)

/-- The characters are a number.  Only one that is kept has to stay in range. -/
inductive Numeral (care : Care) : List Char → Prop
  | parts {sign whole point fraction exponent : List Char} {power : Int}
      (hsign : sign = [] ∨ sign = ['-']) (hwhole : Whole whole) (hpoint : Fraction point fraction)
      (hexponent : Exponent exponent power)
      (hrange : care = .exact → (⟨whole, fraction, power⟩ : Digits).isHuge = false) :
      Numeral care (sign ++ (whole ++ (point ++ exponent)))

/-! ## Values -/

/-- A key, a colon and a value; what may be written as the value may depend on the key. -/
def Pair (care : Care) (P : String → List Char → Json → Prop) (cs : List Char)
    (member : String × Json) : Prop :=
  ∃ key before behind value, cs = key ++ before ++ ':' :: (behind ++ value) ∧
    Quoted care key member.1 ∧ IsGap before ∧ IsGap behind ∧ P member.1 value member.2

/-- **The characters write the value**, which nests at most `depth` arrays and objects. -/
def Writes (care : Care) : Nat → List Char → Json → Prop
  | _, cs, .null => cs = "null".toList
  | _, cs, .bool b => cs = (bool b).text.toList
  | _, cs, .number spelling => cs = spelling.toList ∧ Numeral care cs
  | _, cs, .string s => Quoted care cs s
  | depth + 1, cs, .array items =>
    ∃ body, cs = '[' :: body ++ [']'] ∧ Body (Writes care depth) body items
  | depth + 1, cs, .object members =>
    ∃ body, cs = '\x7b' :: body ++ ['\x7d'] ∧
      Body (Pair care fun _ => Writes care depth) body members
  | 0, _, .array _ => False
  | 0, _, .object _ => False

/-! ## Depth -/

section

variable {α : Type} {P Q : List Char → α → Prop} {cs : List Char} {xs : List α}

/-- Entries are judged one by one, and none is longer than all of them. -/
theorem Entries.imp (h : Entries P cs xs)
    (hPQ : ∀ ds x, ds.length ≤ cs.length → P ds x → Q ds x) : Entries Q cs xs := by
  induction h with
  | @last lead ds trail x hlead hds htrail =>
    refine .last hlead (hPQ ds x ?_ hds) htrail
    simp only [List.length_append]
    omega
  | @cons lead ds trail more x xs hlead hds htrail hmore ih =>
    refine .cons hlead (hPQ ds x ?_ hds) htrail (ih fun es y hes => hPQ es y ?_)
    · simp only [List.length_append, List.length_cons]
      omega
    · simp only [List.length_append, List.length_cons]
      omega

theorem Body.imp (h : Body P cs xs) (hPQ : ∀ ds x, ds.length ≤ cs.length → P ds x → Q ds x) :
    Body Q cs xs :=
  Or.imp id (fun hentries => hentries.imp hPQ) h

/-- Another kind of value makes another kind of pair; no value is longer than its pair. -/
theorem Pair.imp {care : Care} {P Q : String → List Char → Json → Prop} {cs : List Char}
    {member : String × Json} (h : Pair care P cs member)
    (hPQ : ∀ k ds v, ds.length ≤ cs.length → P k ds v → Q k ds v) : Pair care Q cs member := by
  obtain ⟨key, before, behind, value, hcs, hkey, hbefore, hbehind, hvalue⟩ := h
  refine ⟨key, before, behind, value, hcs, hkey, hbefore, hbehind, hPQ _ value _ ?_ hvalue⟩
  rw [hcs]
  simp only [List.length_append, List.length_cons]
  omega

end

/-- **A text nests no deeper than it is long**: each bracket takes a character.  By induction on the
depth that is known. -/
theorem Writes.of_length_le {care : Care} {depth n : Nat} {cs : List Char} {v : Json}
    (h : Writes care depth cs v) (hn : cs.length ≤ n) : Writes care n cs v := by
  induction depth generalizing n cs v with
  | zero =>
    cases v with
    | array | object => simp only [Writes] at h
    | null | bool | number | string => simpa only [Writes] using h
  | succ depth ih =>
    -- the body of a bracket is shorter than the whole by two
    have hbody {body : List Char} {opening close : Char}
        (hlength : (opening :: body ++ [close]).length ≤ n) :
        ∃ k, n = k + 1 ∧ body.length ≤ k := by
      simp only [List.cons_append, List.length_cons, List.length_append, List.length_nil] at hlength
      exact ⟨n - 1, by omega, by omega⟩
    cases v with
    | array items =>
      rw [Writes] at h
      obtain ⟨body, rfl, hitems⟩ := h
      obtain ⟨k, rfl, hk⟩ := hbody hn
      rw [Writes]
      exact ⟨body, rfl, hitems.imp fun ds v hle hds => ih hds (by omega)⟩
    | object members =>
      rw [Writes] at h
      obtain ⟨body, rfl, hmembers⟩ := h
      obtain ⟨k, rfl, hk⟩ := hbody hn
      rw [Writes]
      exact ⟨body, rfl, hmembers.imp fun ds m hle hds =>
        hds.imp fun _ es v hle' hes => ih hes (by omega)⟩
    | null | bool | number | string => simpa only [Writes] using h

/-! ## Own spellings -/

theorem hexValue?_hexDigit : ∀ n < 16, hexValue? (hexDigit n) = some n := by decide

/-- The two last digits of a control character say which one it is. -/
theorem codeUnit_control {c : Char} (hc : c.toNat < 0x20) :
    CodeUnit ['0', '0', hexDigit (c.toNat / 16), hexDigit (c.toNat % 16)] c.toNat := by
  have hzero : hexValue? '0' = some 0 := by decide
  have hhigh := hexValue?_hexDigit (c.toNat / 16) (by omega)
  have hlow := hexValue?_hexDigit (c.toNat % 16) (by omega)
  refine ⟨_, _, _, _, rfl, ?_⟩
  simp only [codeUnit?, hzero, hhigh, hlow, Option.bind_eq_bind, Option.bind_some, Option.pure_def,
    Option.some.injEq]
  omega

/-- The characters that are written with a letter behind a backslash. -/
def lettered : List (Char × Char) :=
  [('"', '"'), ('\\', '\\'), ('\n', 'n'), ('\r', 'r'), ('\t', 't'), ('\x08', 'b'), ('\x0c', 'f')]

/-- The letters stand for these characters again. -/
theorem shortEscape?_lettered : ∀ p ∈ lettered,
    escaped p.1 = ['\\', p.2] ∧ shortEscape? p.2 = some p.1 := by
  decide

/-- What is printed for a character is one of its spellings. -/
theorem spelling_escaped (care : Care) (c : Char) : Spelling care (escaped c) c := by
  -- three ways to write a character: its letter, its code, or itself
  by_cases hletter : c ∈ lettered.map Prod.fst
  · obtain ⟨p, hp, rfl⟩ := List.mem_map.mp hletter
    obtain ⟨hescaped, hread⟩ := shortEscape?_lettered p hp
    rw [hescaped]
    exact .letter hread
  · simp only [lettered, List.map_cons, List.map_nil, List.mem_cons, List.not_mem_nil, or_false,
      not_or] at hletter
    obtain ⟨hquote, hbackslash, hn, hr, ht, hb, hf⟩ := hletter
    rw [escaped, if_neg hquote, if_neg hbackslash, if_neg hn, if_neg hr, if_neg ht, if_neg hb,
      if_neg hf]
    by_cases hcontrol : c.toNat < 0x20
    · -- control characters are far below the surrogates
      have hsurrogate : isSurrogate c.toNat = false := by
        simp only [isSurrogate, isLeading, isTrailing, Bool.or_eq_false_iff, Bool.and_eq_false_iff,
          decide_eq_false_iff_not]
        omega
      have hunit := @Spelling.unit care _ _ (codeUnit_control hcontrol) hsurrogate
      rw [if_pos hcontrol]
      rwa [Char.ofNat_toNat] at hunit
    · rw [if_neg hcontrol]
      exact .plain hquote hbackslash hcontrol

theorem toList_quote (s : String) :
    (quote s).toList = '"' :: (s.toList.flatMap escaped ++ ['"']) := by
  rw [quote, String.toList_ofList]
  rfl

/-- A string that is printed is written. -/
theorem quoted_quote (care : Care) (s : String) : Quoted care (quote s).toList s := by
  have hcharacters (cs : List Char) : Characters care (cs.flatMap escaped) cs := by
    induction cs with
    | nil => exact .nil
    | cons c cs ih => exact .cons (spelling_escaped care c) ih
  exact ⟨s.toList.flatMap escaped, toList_quote s, hcharacters s.toList⟩

theorem Member.pair {care : Care} {P : List Char → Json → Prop} {cs : List Char}
    {member : String × Json} (h : Member P cs member) : Pair care (fun _ => P) cs member := by
  obtain ⟨before, behind, value, hcs, hbefore, hbehind, hvalue⟩ := h
  exact ⟨_, before, behind, value, hcs, quoted_quote care member.1, hbefore, hbehind, hvalue⟩

/-- **A spelling is of the grammar**, whatever care is taken.  By induction on the depth. -/
theorem Spells.writes {care : Care} {depth : Nat} {cs : List Char} {v : Json}
    (h : Spells depth cs v) : Writes care depth cs v := by
  have hstring {n : Nat} {cs : List Char} {s : String} (h : Spells n cs (string s)) :
      Writes care n cs (string s) := by
    rw [Spells] at h
    rw [Writes, h]
    exact quoted_quote care s
  induction depth generalizing cs v with
  | zero =>
    cases v with
    | array | object | number => simp only [Spells] at h
    | null | bool => simpa only [Spells, Writes] using h
    | string s => exact hstring h
  | succ depth ih =>
    cases v with
    | array items =>
      rw [Spells] at h
      obtain ⟨body, rfl, hitems⟩ := h
      rw [Writes]
      exact ⟨body, rfl, hitems.imp fun ds v _ hds => ih hds⟩
    | object members =>
      rw [Spells] at h
      obtain ⟨body, rfl, hmembers⟩ := h
      rw [Writes]
      exact ⟨body, rfl, hmembers.imp fun ds m _ hds =>
        Pair.imp hds.pair fun _ es v _ hes => ih hes⟩
    | number => simp only [Spells] at h
    | null | bool => simpa only [Spells, Writes] using h
    | string s => exact hstring h

end ReleaseMatrix.Json
