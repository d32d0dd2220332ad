/-
  Tokens — which pieces of a clause go into which token.

  A clause is laid out as pieces with gaps of blanks and commas around them.  Its tokens cover the
  pieces from left to right, each piece once:

      <  <= , 9   7.4 - >= 8   1 -

      <       <=  9       7.4  -  >=       8       1  -         pieces
      <       <=9         7.4 - >=         8       1 -          tokens

  A sign that stands alone waits for the piece behind it, and the next token begins with this sign
  whatever comes.  So with the waiting sign put back in front, the pieces that are left are always
  covered by the tokens that are to come: this is what each turn of the reading keeps.

  1. **Pieces** — `LaidOut`, and that the pieces of a clause are the only ones (`laidOut_iff`).
  2. **Tokens** — `Token.Takes`, a constructor for each kind of token, and `Covers`; the tokens of a
     clause are the only cover of its pieces (`covers_iff`).
  3. **Contents** — `flatMap_content`, and all of this together in `tokens_cover_pieces`.
-/
import ReleaseMatrix.Proofs.Requirement.Conjunction

namespace ReleaseMatrix.Clause

open Sign (standsAlone)

/-! ## Pieces -/

/-- The text is a gap, a piece, a gap, a piece and so on, up to a last gap.  Gaps are made of
separators, and between two pieces there is one. -/
inductive LaidOut : List Char → List (List Char) → Prop where
  | gap {gap : List Char} (hgap : ∀ c ∈ gap, isSeparator c = true) : LaidOut gap []
  | piece {gap piece rest : List Char} {ps : List (List Char)}
      (hgap : ∀ c ∈ gap, isSeparator c = true) (hne : piece ≠ [])
      (hplain : ∀ c ∈ piece, isSeparator c = false)
      (hrest : ∀ c ∈ rest.head?, isSeparator c = true) (hmore : LaidOut rest ps) :
      LaidOut (gap ++ piece ++ rest) (piece :: ps)

namespace LaidOut

variable {cs : List Char} {ps : List (List Char)}

/-- What is laid out as pieces has these pieces. -/
theorem pieces_eq (h : LaidOut cs ps) : pieces cs = ps := by
  induction h with
  | gap hgap => exact pieces_eq_nil_iff.mpr hgap
  | piece hgap hne hplain hrest hmore ih =>
    rw [pieces_append_of_head? _ hrest, pieces_gap_append hgap, pieces_of_plain hne hplain, ih]
    rfl

/-- A separator in front makes the first gap longer. -/
theorem separator {s : Char} (hs : isSeparator s = true) (h : LaidOut cs ps) :
    LaidOut (s :: cs) ps := by
  cases h with
  | gap hgap => exact .gap (List.forall_mem_cons.mpr ⟨hs, hgap⟩)
  | @piece gap piece rest ps hgap hne hplain hrest hmore =>
    show LaidOut ((s :: gap) ++ piece ++ rest) _
    exact .piece (List.forall_mem_cons.mpr ⟨hs, hgap⟩) hne hplain hrest hmore

/-- Any other character goes into the first piece, or it is a piece of its own. -/
theorem plain {c : Char} (hc : isSeparator c = false) (h : LaidOut cs ps) :
    ∃ qs, LaidOut (c :: cs) qs := by
  have hone : ∀ d ∈ [c], isSeparator d = false := List.forall_mem_singleton.mpr hc
  have hown (hhead : ∀ d ∈ cs.head?, isSeparator d = true) :
      LaidOut ([] ++ [c] ++ cs) ([c] :: ps) :=
    .piece (by simp) (by simp) hone hhead h
  cases h with
  | gap hgap => exact ⟨_, hown fun d hd => hgap d (List.mem_of_mem_head? hd)⟩
  | @piece gap piece rest ps hgap hne hplain hrest hmore =>
    cases gap with
    | nil =>
      -- the next piece begins here, so it takes the character
      have hlonger : LaidOut ([] ++ (c :: piece) ++ rest) ((c :: piece) :: ps) :=
        .piece hgap (by simp) (List.forall_mem_cons.mpr ⟨hc, hplain⟩) hrest hmore
      exact ⟨_, hlonger⟩
    | cons s gap =>
      refine ⟨_, hown fun d hd => ?_⟩
      rw [← Option.some.inj hd]
      exact hgap s List.mem_cons_self

end LaidOut

/-- **Every clause is laid out somehow.** -/
theorem exists_laidOut (cs : List Char) : ∃ ps, LaidOut cs ps := by
  induction cs with
  | nil => exact ⟨[], .gap (by simp)⟩
  | cons c cs ih =>
    obtain ⟨ps, h⟩ := ih
    cases hc : isSeparator c with
    | true => exact ⟨ps, h.separator hc⟩
    | false => exact h.plain hc

/-- **A text is laid out as its pieces, and as no others.** -/
theorem laidOut_iff {cs : List Char} {ps : List (List Char)} :
    LaidOut cs ps ↔ ps = pieces cs := by
  constructor
  · exact fun h => h.pieces_eq.symm
  · rintro rfl
    obtain ⟨ps, h⟩ := exists_laidOut cs
    rwa [h.pieces_eq]

/-! ## Tokens -/

/-- The token is made of the pieces `taken`, with the pieces `rest` behind them. -/
inductive Token.Takes : Token → (taken rest : List (List Char)) → Prop where
  /-- A sign by itself, behind which no piece waits to be taken along. -/
  | sign {sign : List Char} {rest : List (List Char)} (hsign : standsAlone sign = true)
      (hnext : ∀ next ∈ rest.head?, standsAlone next = true) : Takes (.atom sign) [sign] rest
  /-- A sign and the piece behind it. -/
  | glued {sign piece : List Char} {rest : List (List Char)} (hsign : standsAlone sign = true)
      (hpiece : ¬ standsAlone piece = true) : Takes (.atom (sign ++ piece)) [sign, piece] rest
  /-- Two pieces with a hyphen between them. -/
  | range {low high : List Char} {rest : List (List Char)} (hlow : ¬ standsAlone low = true) :
      Takes (.range low high) [low, ['-'], high] rest
  /-- A piece and a hyphen at the end of the clause. -/
  | openRange {low : List Char} (hlow : ¬ standsAlone low = true) :
      Takes (.openRange low) [low, ['-']] []
  /-- Any other piece. -/
  | piece {piece : List Char} {rest : List (List Char)} (hpiece : ¬ standsAlone piece = true)
      (hnext : rest.head? ≠ some ['-']) : Takes (.atom piece) [piece] rest

/-- The tokens cover the pieces: in their order, with none left over and none taken twice. -/
inductive Covers : List (List Char) → List Token → Prop where
  | nil : Covers [] []
  | cons {t : Token} {taken rest : List (List Char)} {ts : List Token} (htakes : t.Takes taken rest)
      (hmore : Covers rest ts) : Covers (taken ++ rest) (t :: ts)

/-- **What each turn keeps**: the tokens to come cover the sign that waits and the pieces that are
left. -/
theorem covers_tokensFrom {pending : Option (List Char)} {ps : List (List Char)}
    (hpending : ∀ sign ∈ pending, standsAlone sign = true) :
    Covers (pending.toList ++ ps) (tokensFrom pending ps) := by
  fun_induction tokensFrom pending ps with
  | case1 => exact .nil
  | case2 sign => exact .cons (.sign (hpending sign rfl) (by simp)) .nil
  | case3 piece rest hpiece sign ih =>
    -- the sign that has waited is let go, and the piece waits in its place
    have hnext : ∀ next ∈ (piece :: rest).head?, standsAlone next = true := by simpa using hpiece
    exact .cons (.sign (hpending sign rfl) hnext) (ih (by simpa using hpiece))
  | case4 piece rest hpiece ih => exact ih (by simpa using hpiece)
  | case5 piece rest hpiece sign ih =>
    show Covers ([sign, piece] ++ rest) _
    exact .cons (.glued (hpending sign rfl) hpiece) (ih (by simp))
  | case6 low hlow high rest ih =>
    show Covers ([low, ['-'], high] ++ rest) _
    exact .cons (.range hlow) (ih (by simp))
  | case7 low hlow =>
    show Covers ([low, ['-']] ++ []) _
    exact .cons (.openRange hlow) .nil
  | case8 piece hpiece rest hrange hopen ih =>
    show Covers ([piece] ++ rest) _
    exact .cons (.piece hpiece (head?_ne_of_noRange hrange hopen)) (ih (by simp))

/-- There is no other cover: what follows a piece decides with which others it is taken. -/
theorem Covers.eq_tokensFrom {ps : List (List Char)} {ts : List Token} (h : Covers ps ts) :
    ts = tokensFrom none ps := by
  induction h with
  | nil => rfl
  | @cons t taken rest ts htakes hmore ih =>
    rw [ih]
    cases htakes with
    | @sign sign _ hsign hnext =>
      rw [List.singleton_append, tokensFrom_sign hsign]
      cases rest with
      | nil => rfl
      | cons next rest =>
        -- the sign is a token of its own only because another sign follows
        have halone : standsAlone next = true := hnext next rfl
        rw [tokensFrom_sign halone, tokensFrom.eq_def (some sign)]
        exact (if_pos halone).symm
    | glued hsign hpiece =>
      rw [List.cons_append, List.singleton_append, tokensFrom_sign hsign, tokensFrom_glue hpiece]
    | range hlow => exact (tokensFrom_range hlow).symm
    | @openRange low hlow =>
      rw [List.append_nil, tokensFrom.eq_def none]
      exact (if_neg hlow).symm
    | piece hpiece hnext => exact (tokensFrom_atom hpiece hnext).symm

/-- **The pieces of a clause have one cover, its tokens.** -/
theorem covers_iff {clause : List Char} {ts : List Token} :
    Covers (pieces clause) ts ↔ ts = tokens clause := by
  constructor
  · exact fun h => h.eq_tokensFrom
  · rintro rfl
    exact @covers_tokensFrom none (pieces clause) (by simp)

/-- A sign that waits is what the next token begins with. -/
theorem exists_tokensFrom_waiting (sign : List Char) (ps : List (List Char)) :
    ∃ more ts, tokensFrom (some sign) ps = .atom (sign ++ more) :: ts := by
  cases ps with
  | nil => exact ⟨[], [], by rw [List.append_nil]; rfl⟩
  | cons piece rest =>
    by_cases hpiece : standsAlone piece = true
    · refine ⟨[], tokensFrom (some piece) rest, ?_⟩
      rw [tokensFrom, if_pos hpiece, List.append_nil]
    · exact ⟨piece, _, tokensFrom_glue hpiece⟩

/-! ## Contents -/

theorem Token.Takes.content_eq {t : Token} {taken rest : List (List Char)}
    (h : t.Takes taken rest) : t.content = taken.flatten := by
  cases h <;> simp [Token.content]

/-- All tokens together hold all pieces. -/
theorem Covers.flatMap_content {ps : List (List Char)} {ts : List Token} (h : Covers ps ts) :
    ts.flatMap Token.content = ps.flatten := by
  induction h with
  | nil => rfl
  | cons htakes hmore ih => rw [List.flatMap_cons, List.flatten_append, htakes.content_eq, ih]

/-- The tokens of a clause hold the characters of its pieces. -/
theorem flatMap_content_tokens (clause : List Char) :
    (tokens clause).flatMap Token.content = (pieces clause).flatten :=
  (covers_iff.mpr rfl).flatMap_content

/-- A token holds no separator. -/
theorem plain_of_mem_tokens {clause : List Char} {t : Token} (ht : t ∈ tokens clause) :
    ∀ c ∈ t.content, isSeparator c = false := by
  intro c hc
  have hmem : c ∈ (tokens clause).flatMap Token.content := List.mem_flatMap_of_mem ht hc
  rw [flatMap_content_tokens, flatten_pieces] at hmem
  simpa using (List.mem_filter.mp hmem).2

/-- **Reading tokens loses nothing and takes nothing twice.**  A clause is laid out as its pieces
and as no others; its tokens are the one cover of these, so each piece goes into exactly one of them.
Their contents, one after the other, are the pieces one after the other.  And a sign that waits is
never dropped: whatever is left, the next token begins with it. -/
theorem tokens_cover_pieces (clause : List Char) :
    (∀ ps, LaidOut clause ps ↔ ps = pieces clause) ∧
    (∀ ts, Covers (pieces clause) ts ↔ ts = tokens clause) ∧
    (tokens clause).flatMap Token.content = (pieces clause).flatten ∧
    ∀ sign ps, ∃ more ts, tokensFrom (some sign) ps = .atom (sign ++ more) :: ts :=
  ⟨fun _ => laidOut_iff, fun _ => covers_iff, flatMap_content_tokens clause,
    exists_tokensFrom_waiting⟩

/-- The clause at the top: two signs in a row, a range that ends in a sign, and one that has no
end. -/
example : tokens "< <= , 9 7.4 - >= 8 1 -".toList =
    [.atom "<".toList, .atom "<=9".toList, .range "7.4".toList ">=".toList, .atom "8".toList,
      .openRange "1".toList] := by
  decide +kernel

end ReleaseMatrix.Clause
