/-
  Full paths — what joining and going up do to the path of a location.

  The full path of `[a, b]` is `/a/b`, that of the root is `/`.  If all names are proper, text and
  location say the same:

      names (full l)          = l
      parent? (full (l + n))  = full l           parent? (full [])  = none
      join (full l) file      = below l file     join (full l) n    = full (l + n)

  1. **Parts** — cutting at slashes undoes joining (`parts_ofParts`).
  2. **Full paths** — `names_full`, `join_full`.
  3. **Going up** — every step up makes a path shorter (`length_lt_of_parent?`), so the way up ends
     at a path that has nothing above (`isAscent_selfAndAbove`); from a full path, it goes through
     the locations above and ends at the root (`selfAndAbove_full`).
-/
import Mathlib.Data.List.Infix
import ReleaseMatrix.FileTree

namespace ReleaseMatrix

/-- A name that an entry of a directory can have. -/
structure IsName (name : String) : Prop where
  ne_empty : name ≠ ""
  ne_dot : name ≠ "."
  ne_dotDot : name ≠ ".."
  slash_notMem : '/' ∉ name.toList
  nul_notMem : '\x00' ∉ name.toList
  short : name.utf8ByteSize ≤ FileTree.maxName

instance (name : String) : Decidable (IsName name) :=
  decidable_of_iff (name ≠ "" ∧ name ≠ "." ∧ name ≠ ".." ∧ '/' ∉ name.toList ∧
      '\x00' ∉ name.toList ∧ name.utf8ByteSize ≤ FileTree.maxName)
    ⟨fun ⟨h₁, h₂, h₃, h₄, h₅, h₆⟩ => ⟨h₁, h₂, h₃, h₄, h₅, h₆⟩,
      fun ⟨h₁, h₂, h₃, h₄, h₅, h₆⟩ => ⟨h₁, h₂, h₃, h₄, h₅, h₆⟩⟩

theorem IsName.toList_ne_nil {name : String} (h : IsName name) : name.toList ≠ [] := by
  rw [Ne, String.toList_eq_nil_iff]
  exact h.ne_empty

namespace Path

open Text

/-! ## Parts -/

/-- Without a slash there is one part. -/
theorem parts_of_notMem {cs : List Char} (h : '/' ∉ cs) : parts cs = [cs] := by
  refine splitWhere_of_plain fun c hc => beq_false_of_ne ?_
  rintro rfl
  exact h hc

/-- A part ends at the first slash. -/
theorem parts_append_slash {part : List Char} (h : '/' ∉ part) (cs : List Char) :
    parts (part ++ '/' :: cs) = part :: parts cs := by
  have hcut : parts (part ++ '/' :: cs) = parts part ++ parts cs :=
    splitWhere_append_cons _ part cs rfl
  rw [hcut, parts_of_notMem h]
  rfl

/-- Joining and cutting again gives the same parts. -/
theorem parts_ofParts {ps : List (List Char)} (hne : ps ≠ []) (h : ∀ p ∈ ps, '/' ∉ p) :
    parts (ofParts ps) = ps := by
  induction ps with
  | nil => exact absurd rfl hne
  | cons p rest ih =>
    have hp : '/' ∉ p := h p List.mem_cons_self
    cases rest with
    | nil => exact parts_of_notMem hp
    | cons q more =>
      have hrest := ih (List.cons_ne_nil q more) fun p hmem => h p (List.mem_cons_of_mem _ hmem)
      rw [ofParts, parts_append_slash hp, hrest]
      exact List.cons_ne_nil q more

/-- Cutting and joining again gives the same text. -/
theorem ofParts_parts (cs : List Char) : ofParts (parts cs) = cs := by
  unfold parts
  induction cs with
  | nil => rfl
  | cons c rest ih =>
    obtain ⟨p, more, hparts⟩ := List.exists_cons_of_ne_nil (splitWhere_ne_nil (· == '/') rest)
    rw [hparts] at ih
    by_cases hc : c = '/'
    · -- a slash closes a part, and any other character goes into the first one
      subst hc
      simp only [splitWhere, beq_self_eq_true, if_true, hparts]
      rw [ofParts, ih]
      · rfl
      · exact List.cons_ne_nil p more
    · have hslash : (c == '/') = false := by simpa using hc
      simp only [splitWhere, hslash, Bool.false_eq_true, if_false, hparts, consFirst]
      cases more <;> simp_all [ofParts]

/-- Joining adds nothing but slashes. -/
theorem mem_ofParts {ps : List (List Char)} {c : Char} (h : c ∈ ofParts ps) :
    c = '/' ∨ ∃ p ∈ ps, c ∈ p := by
  induction ps with
  | nil => cases h
  | cons p rest ih =>
    cases rest with
    | nil => exact .inr ⟨p, List.mem_cons_self, h⟩
    | cons q more =>
      rcases List.mem_append.mp h with hp | hrest
      · exact .inr ⟨p, List.mem_cons_self, hp⟩
      · rcases List.mem_cons.mp hrest with rfl | hmem
        · exact .inl rfl
        · exact (ih hmem).imp_right fun ⟨r, hr, hin⟩ => ⟨r, List.mem_cons_of_mem p hr, hin⟩

/-- A part holds no slash, and only what the text holds. -/
theorem mem_of_mem_parts {cs part : List Char} {c : Char} (h : part ∈ parts cs) (hc : c ∈ part) :
    c ∈ cs ∧ c ≠ '/' := by
  have hflat : c ∈ (parts cs).flatten := List.mem_flatten.mpr ⟨part, h, hc⟩
  rw [parts, flatten_splitWhere, List.mem_filter] at hflat
  simpa using hflat

/-! ## Full paths -/

/-- The full path of a location. -/
def full (l : Location) : String := "/" ++ "/".intercalate l

/-- The path of a file, given from a location on. -/
def below (l : Location) (file : String) : String := "/" ++ String.join (l.map (· ++ "/")) ++ file

/-- A full path is a slash and its names. -/
theorem toList_full (l : Location) : (full l).toList = '/' :: ofParts (l.map String.toList) := by
  have hjoin (ps : List (List Char)) : ['/'].intercalate ps = ofParts ps := by
    induction ps with
    | nil => rfl
    | cons p rest ih => cases rest <;> simp_all [ofParts, List.intercalate]
  rw [full, String.toList_append, String.toList_intercalate]
  exact congrArg ('/' :: ·) (hjoin _)

/-- A file stands behind a slash of its own. -/
theorem toList_below (l : Location) (file : String) :
    (below l file).toList = '/' :: (l.flatMap (fun n => n.toList ++ ['/']) ++ file.toList) := by
  rw [below, String.toList_append, String.toList_append, String.toList_join, List.flatMap_map]
  simp only [String.toList_append]
  rfl

/-- One name further down, a full path is the path of this name from its directory. -/
theorem full_concat (l : Location) (n : String) : full (l ++ [n]) = below l n := by
  have hlast (ps : List (List Char)) (p : List Char) :
      ofParts (ps ++ [p]) = ps.flatMap (· ++ ['/']) ++ p := by
    induction ps with
    | nil => rfl
    | cons q rest ih => cases rest <;> simp_all [ofParts]
  apply String.toList_injective
  rw [toList_full, toList_below, List.map_append, List.map_singleton, hlast, List.flatMap_map]

variable {l : Location} {n file : String}

/-- The names of a path with a slash in it are those on both sides. -/
theorem names_append_slash (base file : String) :
    FileTree.names (base ++ "/" ++ file) = FileTree.names base ++ FileTree.names file := by
  have hcut : parts (base ++ "/" ++ file).toList = parts base.toList ++ parts file.toList := by
    rw [String.toList_append, String.toList_append, List.append_assoc]
    exact splitWhere_append_cons _ base.toList file.toList rfl
  rw [FileTree.names, hcut, List.filter_append, List.map_append]
  rfl

theorem names_of_isName (h : IsName n) : FileTree.names n = [n] := by
  have hempty : n.toList.isEmpty = false := by simpa using h.ne_empty
  simp [FileTree.names, parts_of_notMem h.slash_notMem, hempty]

/-- The names of a path from a proper location on are those of the location, and then its own. -/
theorem names_below (h : ∀ n ∈ l, IsName n) (file : String) :
    FileTree.names (below l file) = l ++ FileTree.names file := by
  induction l using List.reverseRecOn generalizing file with
  | nil =>
    have hroot : below [] file = "" ++ "/" ++ file := by simp [below]
    rw [hroot, names_append_slash]
    rfl
  | append_singleton l n ih =>
    rw [List.forall_mem_append] at h
    have hn : IsName n := h.2 n (List.mem_singleton_self n)
    have hlast : below (l ++ [n]) file = below l n ++ "/" ++ file := by
      simp [below, String.append_assoc]
    rw [hlast, names_append_slash, ih h.1, names_of_isName hn]

/-- The full path of a location has its names. -/
theorem names_full (h : ∀ n ∈ l, IsName n) : FileTree.names (full l) = l := by
  induction l using List.reverseRecOn with
  | nil => rfl
  | append_singleton l n _ =>
    rw [List.forall_mem_append] at h
    have hn : IsName n := h.2 n (List.mem_singleton_self n)
    rw [full_concat, names_below h.1, names_of_isName hn]

/-- Only the full path of the root ends in a slash. -/
theorem endsInSlash_full (h : IsName n) : FileTree.endsInSlash (full (l ++ [n])) = false := by
  rw [FileTree.endsInSlash, beq_eq_false_iff_ne, full_concat, toList_below, ← List.cons_append,
    List.getLast?_append_of_ne_nil _ h.toList_ne_nil]
  exact fun hend => h.slash_notMem (List.mem_of_getLast? hend)

/-- What is given relative to a location is joined to its full path. -/
theorem join_full (h : ∀ n ∈ l, IsName n) (hfile : isAbsolute file = false) :
    join (full l) file = below l file := by
  induction l using List.reverseRecOn with
  | nil =>
    apply String.toList_injective
    simp [join, hfile, full, below]
  | append_singleton l n _ =>
    -- below the root the path does not end in a slash, so one is put in between
    have hn : IsName n := h n (by simp)
    have hlast : ((full (l ++ [n])).toList.getLast? == some '/') = false := endsInSlash_full hn
    have hbase : (full (l ++ [n])).isEmpty = false := by
      rw [String.isEmpty_eq_false_iff, full]
      simp
    rw [join, hfile, hbase, Bool.or_false, if_neg Bool.false_ne_true, hlast,
      if_neg Bool.false_ne_true, full_concat]
    apply String.toList_injective
    simp [String.toList_append, toList_below]

/-! ## Going up -/

/-- Nothing but the end is dropped. -/
theorem dropIdle_suffix (relative : Bool) (ps : List (List Char)) :
    dropIdle relative ps <:+ ps := by
  induction ps with
  | nil => exact List.suffix_refl []
  | cons part before ih =>
    rw [dropIdle]
    split
    · exact ih.trans (List.suffix_cons part before)
    · exact List.suffix_refl _

/-- A last part that matters is not empty. -/
theorem ne_nil_of_dropIdle {relative : Bool} {ps before : List (List Char)} {part : List Char}
    (h : dropIdle relative ps = part :: before) : part ≠ [] := by
  induction ps with
  | nil => cases h
  | cons p rest ih =>
    rw [dropIdle] at h
    split at h
    · exact ih h
    case isFalse hidle =>
      obtain ⟨rfl, -⟩ := List.cons.inj h
      rintro rfl
      exact hidle rfl

/-- Parts are put together with a slash between any two. -/
theorem ofParts_append {a b : List (List Char)} (ha : a ≠ []) (hb : b ≠ []) :
    ofParts (a ++ b) = ofParts a ++ '/' :: ofParts b := by
  induction a with
  | nil => exact absurd rfl ha
  | cons p rest ih =>
    cases rest with
    | nil =>
      obtain ⟨q, more, rfl⟩ := List.exists_cons_of_ne_nil hb
      rfl
    | cons q more =>
      have hrest := ih (List.cons_ne_nil q more)
      simp only [List.cons_append, ofParts] at hrest ⊢
      rw [hrest, List.append_assoc]
      rfl

/-- Put together, parts are no shorter than each of them. -/
theorem length_le_ofParts {p : List Char} {ps : List (List Char)} (h : p ∈ ps) :
    p.length ≤ (ofParts ps).length := by
  induction ps with
  | nil => cases h
  | cons q rest ih =>
    cases rest with
    | nil => exact Nat.le_of_eq (congrArg List.length (List.mem_singleton.mp h))
    | cons r more =>
      rw [ofParts, List.length_append, List.length_cons]
      · rcases List.mem_cons.mp h with rfl | hmem
        · omega
        · have := ih hmem
          omega
      · exact List.cons_ne_nil r more

/-- The parts that stay when the last one that matters is cut off are a shorter path. -/
theorem length_ofParts_lt {relative : Bool} {body part : List Char} {before : List (List Char)}
    (h : dropIdle relative (parts body).reverse = part :: before) :
    (ofParts (dropIdle relative before).reverse).length < body.length := by
  obtain ⟨idle, hidle⟩ := dropIdle_suffix relative (parts body).reverse
  obtain ⟨idle', hidle'⟩ := dropIdle_suffix relative before
  rw [h] at hidle
  generalize dropIdle relative before = kept at hidle' ⊢
  have hparts : parts body = kept.reverse ++ (idle'.reverse ++ part :: idle.reverse) := by
    have hreverse := congrArg List.reverse hidle
    rw [List.reverse_reverse, ← hidle'] at hreverse
    simpa using hreverse.symm
  have hmem : part ∈ parts body := by
    rw [hparts]
    simp
  have hpart : 0 < part.length := List.length_pos_iff.mpr (ne_nil_of_dropIdle h)
  have hle := length_le_ofParts hmem
  -- with nothing kept there is no slash to lose, but the part that was cut off has a length
  by_cases hkept : kept.reverse = []
  · rw [ofParts_parts] at hle
    rw [hkept, ofParts, List.length_nil]
    omega
  · have hbody := congrArg List.length (ofParts_parts body)
    rw [hparts, ofParts_append hkept (by simp), List.length_append, List.length_cons] at hbody
    omega

/-- What stands above is shorter, so an ascent ends. -/
theorem length_lt_of_above {relative : Bool} {body cs : List Char}
    (h : (match dropIdle relative (parts body).reverse with
      | [] => none
      | _ :: before => some (ofParts (dropIdle relative before).reverse)) = some cs) :
    cs.length < body.length := by
  split at h
  · cases h
  case h_2 part before hparts =>
    obtain rfl := Option.some.inj h
    exact length_ofParts_lt hparts

/-- A path that has one above is longer than this. -/
theorem length_lt_of_parent? {path up : String} (h : parent? path = some up) :
    up.length < path.length := by
  rw [← String.length_toList, ← String.length_toList]
  simp only [parent?] at h
  split at h
  case h_1 body hpath =>
    obtain ⟨cs, hcs, rfl⟩ := Option.map_eq_some_iff.mp h
    have hlt := length_lt_of_above hcs
    rw [String.toList_ofList, hpath, List.length_cons, List.length_cons]
    omega
  case h_2 =>
    obtain ⟨cs, hcs, rfl⟩ := Option.map_eq_some_iff.mp h
    rw [String.toList_ofList]
    exact length_lt_of_above hcs

/-- The way up from a path: each path is the one above the path before, and nothing is above the
last. -/
inductive IsAscent : String → List String → Prop where
  | top {path : String} (h : parent? path = none) : IsAscent path [path]
  | up {path up : String} {rest : List String} (h : parent? path = some up)
      (hrest : IsAscent up rest) : IsAscent path (path :: rest)

/-- There is one ascent from a path. -/
theorem IsAscent.unique {path : String} {way way' : List String} (h : IsAscent path way)
    (h' : IsAscent path way') : way = way' := by
  induction h generalizing way' with
  | top hnone =>
    cases h' with
    | top => rfl
    | up hsome => simp [hnone] at hsome
  | up hsome _ ih =>
    cases h' with
    | top hnone => simp [hsome] at hnone
    | up hsome' hrest' =>
      obtain rfl := Option.some.inj (hsome.symm.trans hsome')
      rw [ih hrest']

/-- **The ascent that is computed is the one**, with a step for each character of the path. -/
theorem isAscent_go {steps : Nat} {path : String} (h : path.length ≤ steps) :
    IsAscent path (selfAndAbove.go steps path) := by
  induction steps generalizing path with
  | zero =>
    -- nothing is above the empty path
    have hempty : path = "" := by
      rw [← String.length_eq_zero_iff]
      exact Nat.le_zero.mp h
    subst hempty
    exact .top (by decide)
  | succ steps ih =>
    rw [selfAndAbove.go]
    split
    case h_1 hnone => exact .top hnone
    case h_2 up hsome =>
      have hlt := length_lt_of_parent? hsome
      exact .up hsome (ih (by omega))

/-- **The way up ends**, from every path. -/
theorem isAscent_selfAndAbove (path : String) : IsAscent path (selfAndAbove path) :=
  isAscent_go (Nat.le_refl path.length)

example : selfAndAbove "./a/../b/" = ["./a/../b/", "./a/..", "./a", ".", ""] := by decide

theorem parent?_root : parent? (full []) = none := by decide

/-- Above a full path is that of the directory. -/
theorem parent?_full (h : ∀ m ∈ l ++ [n], IsName m) :
    parent? (full (l ++ [n])) = some (full l) := by
  -- names are neither empty nor dots, so no part is idle
  have hkeep {m : String} (hm : IsName m) (ps : List (List Char)) :
      dropIdle false (m.toList :: ps) = m.toList :: ps := by
    have hempty : m.toList.isEmpty = false := by simpa using hm.ne_empty
    have hdot : (m.toList == ['.']) = false := by
      rw [beq_eq_false_iff_ne]
      exact fun hcs => hm.ne_dot (String.toList_injective hcs)
    rw [dropIdle, hempty, hdot]
    rfl
  have hbefore : dropIdle false (l.map String.toList).reverse = (l.map String.toList).reverse := by
    induction l using List.reverseRecOn with
    | nil => rfl
    | append_singleton l m _ =>
      rw [List.map_append, List.map_singleton, List.reverse_append, List.reverse_singleton]
      exact hkeep (h m (by simp)) _
  have hparts : parts (ofParts ((l ++ [n]).map String.toList)) = (l ++ [n]).map String.toList := by
    refine parts_ofParts (by simp) fun p hmem => ?_
    obtain ⟨m, hm, rfl⟩ := List.mem_map.mp hmem
    exact (h m hm).slash_notMem
  have hlast : dropIdle false (parts (ofParts ((l ++ [n]).map String.toList))).reverse
      = n.toList :: (l.map String.toList).reverse := by
    rw [hparts, List.map_append, List.map_singleton, List.reverse_append, List.reverse_singleton]
    exact hkeep (h n (by simp)) _
  simp only [parent?, toList_full, hlast, hbefore, List.reverse_reverse, Option.map_some,
    Option.some.injEq]
  rw [← toList_full, String.ofList_toList]

/-- **The way up from a full path** goes through the locations above and ends at the root. -/
theorem selfAndAbove_full (h : ∀ n ∈ l, IsName n) :
    selfAndAbove (full l) = l.inits.reverse.map full := by
  refine (isAscent_selfAndAbove _).unique ?_
  induction l using List.reverseRecOn with
  | nil => exact .top parent?_root
  | append_singleton l n ih =>
    have hway : (l ++ [n]).inits.reverse = (l ++ [n]) :: l.inits.reverse := by
      simp [List.inits_append]
    rw [hway, List.map_cons]
    exact .up (parent?_full h) (ih fun m hm => h m (List.mem_append_left [n] hm))

end Path
end ReleaseMatrix
