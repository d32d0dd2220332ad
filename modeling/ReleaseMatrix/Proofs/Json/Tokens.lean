/-
  Tokens — strings and numbers are read as what they write, up to where they end.

  A string ends with its quote.  A number has no such end: it goes on as long as it can, so what
  follows it must not look like more of it.

      "a\u0062" , …      ab,  and ` , …` is left
      12.5e3] …          12.5e3,  and `] …` is left          12.5e3 and then 0 would be 12.5e30

  1. **Strings** — `stringBody_spelling` for one character, `stringRest_characters` for all.
  2. **Numbers** — what follows: `Avoids`, `Breaks`; part by part `wholeDigits_append`,
     `fractionDigits_append`, `exponentPart_append`, and from them `numeral_append`.
-/
import ReleaseMatrix.Proofs.Json.Grammar

namespace ReleaseMatrix.Json

/-! ## Strings -/

section

variable {care : Care} {c : Char} {cs ds es s : List Char} {n : Nat}

theorem codeUnit_append (h : CodeUnit ds n) (rest : List Char) :
    codeUnit (ds ++ rest) = .ok (n, rest) := by
  obtain ⟨a, b, c, d, rfl, hunit⟩ := h
  simp [codeUnit, hunit]

/-- What stands behind a backslash is read as the character that it writes. -/
theorem escape_append (h : Spelling care ('\\' :: cs) c) (hcs : cs ≠ []) (rest : List Char) :
    escape care (cs ++ rest) = .ok (c, rest) := by
  cases h with
  | plain => exact absurd rfl hcs
  | @letter letter _ hletter =>
    have hu : letter ≠ 'u' := by
      rintro rfl
      rw [show shortEscape? 'u' = none by decide] at hletter
      cases hletter
    rw [List.singleton_append, escape, if_neg hu, hletter]
  | @unit ds n hds hn =>
    simp only [isSurrogate, Bool.or_eq_false_iff] at hn
    rw [List.cons_append, escape, if_pos rfl, codeEscape, codeUnit_append hds]
    simp [hn]
  | @pair ds es high low hcare hds hhigh hes hlow =>
    have hfirst : codeUnit (ds ++ '\\' :: 'u' :: es ++ rest) =
        .ok (high, '\\' :: 'u' :: (es ++ rest)) := by
      rw [List.append_assoc, codeUnit_append hds]
      rfl
    -- no code unit is both leading and trailing
    have hfree : isTrailing high = false := by
      simp only [isLeading, Bool.and_eq_true, decide_eq_true_eq] at hhigh
      simp only [isTrailing, Bool.and_eq_false_iff, decide_eq_false_iff_not]
      omega
    show escape care ('u' :: (ds ++ '\\' :: 'u' :: es ++ rest)) = _
    rw [escape, if_pos rfl, codeEscape, hfirst]
    simp [hhigh, hfree, hcare, pairEscape, codeUnit_append hes, hlow]
  | @half ds n hcare hds hn =>
    have hpair : (!isLeading n && !isTrailing n) = false := by
      rw [← Bool.not_or]
      exact congrArg not hn
    rw [List.cons_append, escape, if_pos rfl, codeEscape, codeUnit_append hds]
    simp [hpair, hcare]

/-- A character between quotes is read as what it writes. -/
theorem stringBody_spelling (h : Spelling care ds c) (rest : List Char) :
    stringBody care (ds ++ rest) =
      (stringBody care rest).map fun (cs, rest) => (c :: cs, rest) := by
  -- the four kinds of escape are read alike: `escape_append` knows them apart
  have hescape {cs : List Char} (hspelling : Spelling care ('\\' :: cs) c) (hcs : cs ≠ []) :
      stringBody care ('\\' :: (cs ++ rest)) =
        (stringBody care rest).map fun (cs, rest) => (c :: cs, rest) := by
    have hread := escape_append hspelling hcs rest
    rw [stringBody, if_neg (by decide), if_pos rfl]
    split
    case h_1 e he =>
      rw [hread] at he
      cases he
    case h_2 d behind hd =>
      rw [hread] at hd
      obtain ⟨rfl, rfl⟩ := Prod.mk.inj (Except.ok.inj hd)
      cases stringBody care rest <;> rfl
  cases h with
  | plain hquote hbackslash hplain =>
    rw [List.singleton_append, stringBody, if_neg hquote, if_neg hbackslash, if_neg hplain]
    cases stringBody care rest <;> rfl
  | letter hletter => exact hescape (.letter hletter) (List.cons_ne_nil _ _)
  | unit hds hn => exact hescape (.unit hds hn) (List.cons_ne_nil _ _)
  | pair hcare hds hhigh hes hlow =>
    exact hescape (.pair hcare hds hhigh hes hlow) (List.cons_ne_nil _ _)
  | half hcare hds hn => exact hescape (.half hcare hds hn) (List.cons_ne_nil _ _)

/-- The characters of a string are read up to its closing quote. -/
theorem stringBody_characters (h : Characters care cs s) (rest : List Char) :
    stringBody care (cs ++ '"' :: rest) = .ok (s, rest) := by
  induction h with
  | nil => rw [List.nil_append, stringBody, if_pos rfl]
  | cons hc hcs ih =>
    rw [List.append_assoc, stringBody_spelling hc, ih]
    rfl

/-- **A string is read as what it writes**, up to its closing quote. -/
theorem stringRest_characters {s : String} (h : Characters care cs s.toList) (rest : List Char) :
    stringRest care (cs ++ '"' :: rest) = .ok (s, rest) := by
  rw [stringRest, stringBody_characters h]
  show Except.ok (String.ofList s.toList, rest) = _
  rw [String.ofList_toList]

end

/-! ## Numbers -/

/-- The text does not begin with such a character. -/
def Avoids (p : Char → Bool) (cs : List Char) : Prop := ∀ c ∈ cs.head?, p c = false

theorem avoids_nil (p : Char → Bool) : Avoids p [] := by
  intro c hc
  cases hc

/-- A text that begins with another character. -/
theorem avoids_cons {p : Char → Bool} {c : Char} (hc : p c = false) (cs : List Char) :
    Avoids p (c :: cs) := by
  intro d hd
  obtain rfl := Option.some.inj hd
  exact hc

/-- A character that a number may go on with. -/
def goesOn (c : Char) : Bool := c.isDigit || c == '.' || c == 'e' || c == 'E'

/-- No number goes on here. -/
def Breaks (cs : List Char) : Prop := Avoids goesOn cs

section

variable {p : Char → Bool} {ds rest whole point fraction exponent : List Char} {power : Int}

/-- Avoiding more characters is avoiding fewer. -/
theorem Avoids.mono {q : Char → Bool} (hpq : ∀ c, p c = true → q c = true)
    (h : Avoids q rest) : Avoids p rest := by
  intro c hc
  have hq := h c hc
  cases hp : p c with
  | false => rfl
  | true =>
    rw [hpq c hp] at hq
    cases hq

theorem Breaks.noDigit (h : Breaks rest) : Avoids Char.isDigit rest :=
  Avoids.mono (fun c hc => by simp [goesOn, hc]) h

theorem Breaks.noPoint (h : Breaks rest) : Avoids (· == '.') rest :=
  Avoids.mono (fun c hc => by simp [goesOn, hc]) h

/-- Digits are read up to the first character that is none. -/
theorem someDigits_append (care : Care) (hds : IsDigits ds) (hrest : Avoids Char.isDigit rest) :
    someDigits care (ds ++ rest) = .ok (ds, rest) := by
  have htake : rest.takeWhile Char.isDigit = [] ∧ rest.dropWhile Char.isDigit = rest := by
    cases rest with
    | nil => exact ⟨rfl, rfl⟩
    | cons c rest =>
      have hc : ¬ c.isDigit = true := by rw [hrest c rfl]; exact Bool.false_ne_true
      exact ⟨List.takeWhile_cons_of_neg hc, List.dropWhile_cons_of_neg hc⟩
  obtain ⟨d, more, rfl⟩ := List.exists_cons_of_ne_nil hds.1
  rw [someDigits, List.takeWhile_append_of_pos hds.2, List.dropWhile_append_of_pos hds.2, htake.1,
    htake.2, List.append_nil]

/-- The whole part ends where the digits do; nothing may follow a leading zero. -/
theorem wholeDigits_append (care : Care) (hwhole : Whole whole)
    (hrest : Avoids Char.isDigit rest) : wholeDigits care (whole ++ rest) = .ok (whole, rest) := by
  rw [wholeDigits, someDigits_append care hwhole.1 hrest]
  dsimp only [bind, Except.bind]
  split
  case h_1 d more =>
    -- a zero stands alone
    exact absurd (hwhole.2 rfl) (by simp)
  case h_2 => rfl

/-- The fraction, which begins with its point or is absent. -/
theorem fractionDigits_append (care : Care) (hpoint : Fraction point fraction)
    (hdigit : Avoids Char.isDigit rest) (hdot : Avoids (· == '.') rest) :
    fractionDigits care (point ++ rest) = .ok (fraction, rest) := by
  cases hpoint with
  | absent =>
    rw [List.nil_append]
    unfold fractionDigits
    split
    case h_1 behind => exact absurd (hdot '.' rfl) (by decide)
    case h_2 => rfl
  | digits hds => exact someDigits_append care hds hdigit

/-- The exponent, which begins with its letter or is absent. -/
theorem exponentPart_append (care : Care) (hexponent : Exponent exponent power)
    (hrest : Breaks rest) : exponentPart care (exponent ++ rest) = .ok (power, rest) := by
  cases hexponent with
  | absent =>
    cases rest with
    | nil => rfl
    | cons c rest =>
      have hc : ¬ (c = 'e' ∨ c = 'E') := by
        rintro (rfl | rfl)
        · exact absurd (hrest 'e' rfl) (by decide)
        · exact absurd (hrest 'E' rfl) (by decide)
      rw [List.nil_append, exponentPart.eq_def]
      exact if_neg hc
  | @power e sign ds negative he hsign hds =>
    have hread := someDigits_append care hds hrest.noDigit
    obtain ⟨d, more, rfl⟩ := List.exists_cons_of_ne_nil hds.1
    have hd : d.isDigit = true := hds.2 d List.mem_cons_self
    cases hsign with
    | absent =>
      -- a digit is not a sign
      have hplus : d ≠ '+' := by rintro rfl; exact absurd hd (by decide)
      have hminus : d ≠ '-' := by rintro rfl; exact absurd hd (by decide)
      show exponentPart care (e :: d :: (more ++ rest)) = _
      rw [exponentPart, if_pos he]
      · show (someDigits care (d :: more ++ rest)).bind _ = _
        rw [hread]
        rfl
      · intro behind heq
        exact hminus (List.cons.inj heq).1
      · intro behind heq
        exact hplus (List.cons.inj heq).1
    | plus =>
      show exponentPart care (e :: '+' :: (d :: more ++ rest)) = _
      rw [exponentPart, if_pos he, hread]
      rfl
    | minus =>
      show exponentPart care (e :: '-' :: (d :: more ++ rest)) = _
      rw [exponentPart, if_pos he, hread]
      rfl

/-- What follows the digits of a number begins with its exponent, if it has one. -/
theorem avoids_exponent (hexponent : Exponent exponent power) (he : p 'e' = false)
    (hE : p 'E' = false) (hrest : Avoids p rest) : Avoids p (exponent ++ rest) := by
  cases hexponent with
  | absent => exact hrest
  | power hletter =>
    rcases hletter with rfl | rfl
    · exact avoids_cons he _
    · exact avoids_cons hE _

/-- What follows the whole part begins with the point, if there is one. -/
theorem avoids_point (hpoint : Fraction point fraction) (hdot : p '.' = false)
    (hrest : Avoids p rest) : Avoids p (point ++ rest) := by
  cases hpoint with
  | absent => exact hrest
  | digits => exact avoids_cons hdot _

/-- **The three parts of a number**, each of which ends where the next one begins. -/
theorem unsigned_append {care : Care} (hwhole : Whole whole) (hpoint : Fraction point fraction)
    (hexponent : Exponent exponent power)
    (hrange : care = .exact → (⟨whole, fraction, power⟩ : Digits).isHuge = false)
    (hrest : Breaks rest) :
    unsigned care (whole ++ (point ++ exponent) ++ rest) = .ok (⟨whole, fraction, power⟩, rest) := by
  have hdigit : Avoids Char.isDigit (exponent ++ rest) :=
    avoids_exponent hexponent (by decide) (by decide) hrest.noDigit
  have hdot : Avoids (· == '.') (exponent ++ rest) :=
    avoids_exponent hexponent (by decide) (by decide) hrest.noPoint
  have hdigit' : Avoids Char.isDigit (point ++ (exponent ++ rest)) :=
    avoids_point hpoint (by decide) hdigit
  have hhuge : (decide (care = .exact) && (⟨whole, fraction, power⟩ : Digits).isHuge) = false := by
    cases care with
    | exact => rw [hrange rfl, Bool.and_false]
    | skim => rfl
  rw [unsigned, List.append_assoc, List.append_assoc, wholeDigits_append care hwhole hdigit']
  dsimp only [bind, Except.bind]
  rw [fractionDigits_append care hpoint hdigit hdot]
  dsimp only
  rw [exponentPart_append care hexponent hrest]
  dsimp only
  rw [hhuge]
  rfl

/-- A number is what stands before the rest, with its sign. -/
theorem numeral_of_unsigned {care : Care} {sign digits : List Char} {n : Digits}
    (hsign : sign = [] ∧ Avoids (· == '-') digits ∨ sign = ['-'])
    (hread : unsigned care (digits ++ rest) = .ok (n, rest)) (hne : digits ≠ []) :
    numeral care (sign ++ digits ++ rest) = .ok (.number (String.ofList (sign ++ digits)), rest) := by
  have htake (cs : List Char) : (cs ++ rest).take ((cs ++ rest).length - rest.length) = cs := by
    rw [List.length_append, Nat.add_sub_cancel, List.take_left]
  rcases hsign with ⟨rfl, havoids⟩ | rfl
  · rw [List.nil_append, numeral, hread]
    · show Except.ok (number (String.ofList (List.take _ _)), rest) = _
      rw [htake]
    · intro behind heq
      obtain ⟨d, more, rfl⟩ := List.exists_cons_of_ne_nil hne
      obtain rfl : d = '-' := (List.cons.inj heq).1
      exact absurd (havoids '-' rfl) (by decide)
  · show numeral care ('-' :: (digits ++ rest)) = _
    rw [numeral, hread]
    show Except.ok (number (String.ofList (List.take _ (['-'] ++ digits ++ rest))), rest) = _
    rw [← List.cons_append, ← List.singleton_append, htake]

/-- **A number is read as far as it goes**, and keeps its spelling. -/
theorem numeral_append {care : Care} {cs : List Char} (h : Numeral care cs)
    (hrest : Breaks rest) : numeral care (cs ++ rest) = .ok (.number (String.ofList cs), rest) := by
  obtain @⟨sign, whole, point, fraction, exponent, power, hsign, hwhole, hpoint, hexponent, hrange⟩ :=
    h
  obtain ⟨d, more, rfl⟩ := List.exists_cons_of_ne_nil hwhole.1.1
  have hd : d.isDigit = true := hwhole.1.2 d List.mem_cons_self
  have hminus : (d == '-') = false := beq_false_of_ne (by rintro rfl; exact absurd hd (by decide))
  refine numeral_of_unsigned (hsign.imp_left fun hsign => ⟨hsign, ?_⟩)
    (unsigned_append hwhole hpoint hexponent hrange hrest) (List.cons_ne_nil _ _)
  exact @avoids_cons (· == '-') d hminus _

end

end ReleaseMatrix.Json
