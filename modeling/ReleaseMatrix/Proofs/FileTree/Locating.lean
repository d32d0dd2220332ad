/-
  Locating — where paths lead in a tree.

  A path is walked name by name, and every step needs a directory to start from (`step_eq_ok_iff`).
  In a *tree* whatever exists lies in a directory and has a proper name (`IsTree`), so a walk never
  leaves it: a path leads to what exists (`IsTree.exists_of_locate`), and what exists is found again
  at its full path, unless this path is too long (`IsTree.hasFile_full_iff`).

  1. **Steps and walks** — `step_eq_ok_iff`, `locate_eq_ok_iff`.
  2. **Trees** — `IsTree`: names are proper (`IsTree.isName`), and all that is above something is a
     directory (`IsTree.directory`).
  3. **Full paths** — `IsTree.locate_full`, `IsTree.hasFile_full_iff`.
  4. **New files** — `exists_of_locateNew`, and that writing leaves a tree a tree (`IsTree.append`).
-/
import ReleaseMatrix.Proofs.Path.Full

namespace ReleaseMatrix.FileTree

variable {t t' : FileTree} {l l' p : Location} {path name : String}

/-! ## Steps and walks -/

/-- A file is at a place if there is content. -/
theorem isFileAt_iff : t.isFileAt l = true ↔ ∃ content, t.entry? l = some (.file content) := by
  unfold isFileAt
  cases h : t.entry? l with
  | none => simp
  | some entry => cases entry <;> simp

theorem isFileAt_eq_false_of_directory (h : t.entry? l = some .directory) :
    t.isFileAt l = false := by
  rw [isFileAt, h]

/-- What is there and no file is a directory. -/
theorem directory_of_not_file (h : (t.entry? l).isSome) (hfile : t.isFileAt l = false) :
    t.entry? l = some .directory := by
  obtain ⟨entry, hentry⟩ := Option.isSome_iff_exists.mp h
  cases entry with
  | directory => exact hentry
  | file => simp [isFileAt, hentry] at hfile

/-- All that a step can do: it stays, goes up, or goes down to what exists; and it starts from no
file. -/
theorem step_eq_ok_iff : t.step l name = .ok l' ↔
    t.isFileAt l = false ∧
      (name = "." ∧ l' = l ∨
        name = ".." ∧ l' = l.dropLast ∨
        (name ≠ "." ∧ name ≠ ".." ∧ name.utf8ByteSize ≤ maxName ∧
          (t.entry? (l ++ [name])).isSome ∧ l' = l ++ [name])) := by
  unfold step
  split_ifs with hfile hdot hdotDot hlong hsome
  · simp [hfile]
  · simp [hfile, hdot, eq_comm (a := l')]
  · simp [hfile, hdotDot, eq_comm (a := l')]
  · simp [hdot, hdotDot, Nat.not_le.mpr hlong]
  · simp [hfile, hdot, hdotDot, Nat.not_lt.mp hlong, hsome, eq_comm (a := l')]
  · simp [hdot, hdotDot, hsome]

/-- Where a name leads from a location, whatever exists. -/
def advance (k : Location) (name : String) : Location :=
  if name = "." then k else if name = ".." then k.dropLast else k ++ [name]

/-- Where a path starts, whatever exists. -/
def origin (t : FileTree) (path : String) : Location :=
  if Path.isAbsolute path then [] else t.current

/-- A step that succeeds goes where its name leads. -/
theorem eq_advance_of_step (h : t.step l name = .ok l') : l' = advance l name := by
  obtain ⟨-, ⟨rfl, rfl⟩ | ⟨rfl, rfl⟩ | ⟨hdot, hdotDot, -, -, rfl⟩⟩ := step_eq_ok_iff.mp h
  · rfl
  · rfl
  · rw [advance, if_neg hdot, if_neg hdotDot]

/-- A walk is a step and the rest of it. -/
theorem walk_cons_eq_ok_iff {rest : List String} :
    (name :: rest).foldlM t.step l = .ok l' ↔
      ∃ next, t.step l name = .ok next ∧ rest.foldlM t.step next = .ok l' := by
  rw [List.foldlM_cons]
  cases t.step l name <;> simp [bind, Except.bind]

/-- A walk goes where its names lead, if anywhere. -/
theorem eq_foldl_of_walk {walk : List String} (h : walk.foldlM t.step l = .ok l') :
    l' = walk.foldl advance l := by
  induction walk generalizing l with
  | nil => exact (Except.ok.inj h).symm
  | cons name rest ih =>
    obtain ⟨next, hstep, hrest⟩ := walk_cons_eq_ok_iff.mp h
    rw [List.foldl_cons, ← eq_advance_of_step hstep]
    exact ih hrest

/-- A path starts at its origin, if anywhere. -/
theorem eq_origin_of_start (h : t.start path = .ok l) : l = t.origin path := by
  unfold start at h
  split_ifs at h with _ _ _ habsolute
  all_goals
    obtain rfl := Except.ok.inj h
    rw [origin]
    simp [habsolute]

/-- Where a path leads: from its start along its names, and to no file if it ends in a slash. -/
theorem locate_eq_ok_iff : t.locate path = .ok l ↔
    ∃ first, t.start path = .ok first ∧ (names path).foldlM t.step first = .ok l ∧
      (endsInSlash path && t.isFileAt l) = false := by
  unfold locate
  cases hstart : t.start path with
  | error => simp [bind, Except.bind]
  | ok first =>
    cases hwalk : (names path).foldlM t.step first with
    | error => simp [bind, Except.bind, hwalk]
    | ok last =>
      simp only [bind, Except.bind, hwalk, Except.ok.injEq, exists_eq_left']
      split
      -- a path that ends in a slash names no file
      case isTrue hend =>
        constructor
        · intro h
          cases h
        · rintro ⟨rfl, hno⟩
          rw [hend] at hno
          cases hno
      case isFalse hend =>
        constructor
        · intro h
          cases h
          exact ⟨rfl, by simpa using hend⟩
        · rintro ⟨rfl, -⟩
          rfl

/-! ## Trees -/

/-- The entries of a directory tree: there is a root, everything else lies in a directory and has a
proper name, and relative paths start from a directory. -/
structure IsTree (t : FileTree) : Prop where
  root : t.entry? [] = some .directory
  inside : ∀ l name, (t.entry? (l ++ [name])).isSome → t.entry? l = some .directory
  named : ∀ l name, (t.entry? (l ++ [name])).isSome → IsName name
  current : t.entry? t.current = some .directory

/-- What the entries of a list make up, the first one of each location. -/
def ofEntries (entries : List (Location × Entry)) (current : Location) : FileTree :=
  ⟨fun l => entries.lookup l, current⟩

instance (found : Option Entry) : Decidable (found = some .directory) :=
  match found with
  | some .directory => isTrue rfl
  | some (.file _) => isFalse nofun
  | none => isFalse nofun

/-- The entries of a list make up a tree if each has its directory in the list. -/
theorem isTree_ofEntries {entries : List (Location × Entry)} {current : Location}
    (hroot : entries.lookup [] = some .directory)
    (h : ∀ e ∈ entries, e.1 = [] ∨
      entries.lookup e.1.dropLast = some .directory ∧ IsName (e.1.getLastD ""))
    (hcurrent : entries.lookup current = some .directory) : (ofEntries entries current).IsTree := by
  have hcases {l : Location} {name : String} (hsome : (entries.lookup (l ++ [name])).isSome) :
      entries.lookup l = some .directory ∧ IsName name := by
    obtain ⟨e, hmem, hkey⟩ := List.lookup_isSome_iff.mp hsome
    have hlocation : e.1 = l ++ [name] := (eq_of_beq hkey).symm
    rcases h e hmem with hnil | hinside
    · rw [hnil] at hlocation
      exact absurd hlocation.symm (List.concat_ne_nil name l)
    · simpa [hlocation] using hinside
  exact ⟨hroot, fun l name h => (hcases h).1, fun l name h => (hcases h).2, hcurrent⟩

/-- What exists has proper names only. -/
theorem IsTree.isName (ht : t.IsTree) (h : (t.entry? l).isSome) : ∀ n ∈ l, IsName n := by
  induction l using List.reverseRecOn with
  | nil => simp
  | append_singleton l name ih =>
    have hparent : (t.entry? l).isSome := by rw [ht.inside l name h]; rfl
    rw [List.forall_mem_append, List.forall_mem_singleton]
    exact ⟨ih hparent, ht.named l name h⟩

/-- All that is above something is a directory. -/
theorem IsTree.directory (ht : t.IsTree) (h : (t.entry? l).isSome) (hp : p <+: l) (hne : p ≠ l) :
    t.entry? p = some .directory := by
  induction l using List.reverseRecOn with
  | nil => exact absurd (List.prefix_nil.mp hp) hne
  | append_singleton l name ih =>
    have hparent : t.entry? l = some .directory := ht.inside l name h
    rcases List.prefix_concat_iff.mp hp with rfl | hp'
    · exact absurd rfl hne
    · by_cases hpl : p = l
      · rw [hpl, hparent]
      · exact ih (by rw [hparent]; rfl) hp' hpl

/-- No step leaves the tree. -/
theorem IsTree.exists_of_step (ht : t.IsTree) (h : (t.entry? l).isSome)
    (hstep : t.step l name = .ok l') : (t.entry? l').isSome := by
  obtain ⟨-, ⟨-, rfl⟩ | ⟨-, rfl⟩ | ⟨-, -, -, hsome, rfl⟩⟩ := step_eq_ok_iff.mp hstep
  · exact h
  · -- above the root there is the root again
    by_cases hroot : l.dropLast = l
    · rw [hroot]
      exact h
    · rw [ht.directory h l.dropLast_prefix hroot]
      rfl
  · exact hsome

/-- No walk leaves the tree. -/
theorem IsTree.exists_of_walk (ht : t.IsTree) {walk : List String} (h : (t.entry? l).isSome)
    (hwalk : walk.foldlM t.step l = .ok l') : (t.entry? l').isSome := by
  induction walk generalizing l with
  | nil =>
    obtain rfl := Except.ok.inj hwalk
    exact h
  | cons name rest ih =>
    obtain ⟨next, hstep, hrest⟩ := walk_cons_eq_ok_iff.mp hwalk
    exact ih (ht.exists_of_step h hstep) hrest

/-- Paths begin at something that is there. -/
theorem IsTree.exists_of_start (ht : t.IsTree) (h : t.start path = .ok l) :
    (t.entry? l).isSome := by
  rw [eq_origin_of_start h, origin]
  split
  · simp [ht.root]
  · simp [ht.current]

/-- **A path leads to what exists.** -/
theorem IsTree.exists_of_locate (ht : t.IsTree) (h : t.locate path = .ok l) :
    (t.entry? l).isSome := by
  obtain ⟨first, hstart, hwalk, -⟩ := locate_eq_ok_iff.mp h
  exact ht.exists_of_walk (ht.exists_of_start hstart) hwalk

/-! ## Full paths -/

/-- Proper names lead where they say. -/
theorem foldl_advance {walk : List String} (h : ∀ n ∈ walk, IsName n) (l : Location) :
    walk.foldl advance l = l ++ walk := by
  induction walk generalizing l with
  | nil => exact (List.append_nil l).symm
  | cons name rest ih =>
    have hname : IsName name := h name List.mem_cons_self
    rw [List.foldl_cons, ih fun n hn => h n (List.mem_cons_of_mem name hn)]
    simp [advance, hname.ne_dot, hname.ne_dotDot]

/-- The names of what exists are a walk to it. -/
theorem IsTree.walk_of_exists (ht : t.IsTree) (h : (t.entry? l).isSome) :
    l.foldlM t.step [] = .ok l := by
  induction l using List.reverseRecOn with
  | nil => rfl
  | append_singleton l name ih =>
    have hparent : t.entry? l = some .directory := ht.inside l name h
    have hname : IsName name := ht.named l name h
    have hstep : t.step l name = .ok (l ++ [name]) :=
      step_eq_ok_iff.mpr ⟨isFileAt_eq_false_of_directory hparent,
        .inr (.inr ⟨hname.ne_dot, hname.ne_dotDot, hname.short, h, rfl⟩)⟩
    rw [List.foldlM_append, ih (by rw [hparent]; rfl)]
    simp only [bind, Except.bind, List.foldlM_cons, List.foldlM_nil, hstep]
    rfl

/-- The walk along a full path begins at the root, unless the path is too long. -/
theorem start_full (h : ∀ n ∈ l, IsName n) :
    t.start (Path.full l)
      = if maxPath ≤ (Path.full l).utf8ByteSize then .error .nameTooLong else .ok [] := by
  -- of the ways to refuse a path only its length is left
  have hnul : '\x00' ∉ (Path.full l).toList := by
    rw [Path.toList_full, List.mem_cons, not_or]
    refine ⟨by decide, fun hmem => ?_⟩
    rcases Path.mem_ofParts hmem with hslash | ⟨part, hpart, hin⟩
    · exact absurd hslash (by decide)
    · obtain ⟨n, hn, rfl⟩ := List.mem_map.mp hpart
      exact (h n hn).nul_notMem hin
  have habsolute : Path.isAbsolute (Path.full l) = true := by
    rw [Path.isAbsolute, Path.toList_full]
    rfl
  have hempty : (Path.full l).isEmpty = false := by
    rw [String.isEmpty_eq_false_iff, Path.full]
    simp
  simp [start, hnul, habsolute, hempty]

/-- What exists is found at its full path, unless this is too long. -/
theorem IsTree.locate_full (ht : t.IsTree) (h : (t.entry? l).isSome)
    (hshort : (Path.full l).utf8ByteSize < maxPath) : t.locate (Path.full l) = .ok l := by
  have hnames := ht.isName h
  refine locate_eq_ok_iff.mpr ⟨[], ?_, ?_, ?_⟩
  · rw [start_full hnames, if_neg (Nat.not_le.mpr hshort)]
  · rw [Path.names_full hnames]
    exact ht.walk_of_exists h
  · induction l using List.reverseRecOn with
    | nil => rw [isFileAt_eq_false_of_directory ht.root, Bool.and_false]
    | append_singleton l n _ =>
      rw [Path.endsInSlash_full (hnames n (by simp)), Bool.false_and]

/-- **A file is there at a full path** iff it is there, and the path is not too long. -/
theorem IsTree.hasFile_full_iff (ht : t.IsTree) (h : ∀ n ∈ l, IsName n) :
    t.hasFile (Path.full l) = true ↔
      t.isFileAt l = true ∧ (Path.full l).utf8ByteSize < maxPath := by
  unfold hasFile
  constructor
  · intro hfile
    cases hlocate : t.locate (Path.full l) with
    | error => simp [hlocate] at hfile
    | ok l' =>
      rw [hlocate] at hfile
      obtain ⟨first, hstart, hwalk, -⟩ := locate_eq_ok_iff.mp hlocate
      -- a full path begins at the root and walks down its own names
      rw [start_full h] at hstart
      split_ifs at hstart with hlong
      obtain rfl := Except.ok.inj hstart
      rw [Path.names_full h] at hwalk
      obtain rfl : l' = l := (eq_foldl_of_walk hwalk).trans (foldl_advance h [])
      exact ⟨hfile, Nat.not_le.mp hlong⟩
  · rintro ⟨hfile, hshort⟩
    obtain ⟨content, hentry⟩ := isFileAt_iff.mp hfile
    rw [ht.locate_full (by rw [hentry]; rfl) hshort]
    exact hfile

/-- The text of a file is what its bytes spell. -/
theorem readText_of_locate {content : ByteArray} (h : t.locate path = .ok l)
    (hentry : t.entry? l = some (.file content)) :
    t.readText path = match String.fromUTF8? content with
      | some text => .ok text
      | none => .error .notText := by
  unfold readText
  simp only [h, hentry, bind, Except.bind]
  rfl

/-! ## New files -/

/-- All but the last name of a path are followed; what is written has this name. -/
theorem locateNew_eq (t : FileTree) {before : List String} {last : String}
    (hnames : names path = before ++ [last]) :
    t.locateNew path = (do
      let k ← before.foldlM t.step (← t.start path)
      if t.isFileAt k then throw .notDirectory
      if endsInSlash path || last = "." || last = ".." then throw .isDirectory
      if maxName < last.utf8ByteSize then throw .nameTooLong
      return k ++ [last]) := by
  unfold locateNew
  simp only [hnames, List.reverse_append, List.reverse_singleton, List.singleton_append,
    List.reverse_reverse]

/-- All that a new location can be: one name further down from a directory that is walked to. -/
theorem exists_of_locateNew (h : t.locateNew path = .ok l) :
    ∃ before last first dir, names path = before ++ [last] ∧ t.start path = .ok first ∧
      before.foldlM t.step first = .ok dir ∧ t.isFileAt dir = false ∧ last ≠ "." ∧ last ≠ ".." ∧
      last.utf8ByteSize ≤ maxName ∧ l = dir ++ [last] := by
  -- without a name there is nothing to make
  rcases List.eq_nil_or_concat (names path) with hnil | ⟨before, last, hnames⟩
  · unfold locateNew at h
    rw [hnil] at h
    cases hstart : t.start path <;> simp [hstart, bind, Except.bind] at h
  · rw [List.concat_eq_append] at hnames
    rw [locateNew_eq t hnames] at h
    cases hstart : t.start path with
    | error => simp [hstart, bind, Except.bind] at h
    | ok first =>
      cases hwalk : before.foldlM t.step first with
      | error => simp [hstart, hwalk, bind, Except.bind] at h
      | ok dir =>
        simp only [hstart, hwalk, bind, Except.bind] at h
        split_ifs at h with hfile hdots hlong
        cases h
        simp only [Bool.or_eq_true, decide_eq_true_eq, not_or] at hdots
        exact ⟨before, last, first, dir, hnames, rfl, hwalk, by simpa using hfile, hdots.1.2,
          hdots.2, Nat.not_lt.mp hlong, rfl⟩

/-- A name of a path that starts somewhere is proper, but for dots and its length. -/
theorem isName_of_mem_names {first : Location} (hstart : t.start path = .ok first)
    (h : name ∈ names path) (hdot : name ≠ ".") (hdotDot : name ≠ "..")
    (hshort : name.utf8ByteSize ≤ maxName) : IsName name := by
  obtain ⟨part, hpart, rfl⟩ := List.mem_map.mp h
  obtain ⟨hin, hne⟩ := List.mem_filter.mp hpart
  have hnul : '\x00' ∉ path.toList := by
    intro hmem
    simp [start, hmem] at hstart
  refine ⟨?_, hdot, hdotDot, ?_, ?_, hshort⟩
  · rintro hempty
    have hnil : part = [] := by simpa using hempty
    rw [hnil] at hne
    cases hne
  · rw [String.toList_ofList]
    exact fun hmem => (Path.mem_of_mem_parts hin hmem).2 rfl
  · rw [String.toList_ofList]
    exact fun hmem => hnul (Path.mem_of_mem_parts hin hmem).1

/-- A file with a proper name in a directory leaves a tree a tree. -/
theorem IsTree.put (ht : t.IsTree) {dir : Location} (hdir : t.entry? dir = some .directory)
    (hname : IsName name) (hwritable : t.entry? (dir ++ [name]) ≠ some .directory)
    (content : ByteArray) : (t.put (dir ++ [name]) content).IsTree := by
  generalize hafter : t.put (dir ++ [name]) content = after
  have hother {l : Location} (hne : l ≠ dir ++ [name]) : after.entry? l = t.entry? l := by
    rw [← hafter]
    exact if_neg hne
  -- no directory is written over, so what lies in one still does
  have hkept {l : Location} (h : t.entry? l = some .directory) :
      after.entry? l = some .directory := by
    rw [hother, h]
    rintro rfl
    exact hwritable h
  have hcases {l : Location} {n : String} (h : (after.entry? (l ++ [n])).isSome) :
      after.entry? l = some .directory ∧ IsName n := by
    by_cases hnew : l ++ [n] = dir ++ [name]
    · obtain ⟨rfl, hn⟩ := List.append_inj' hnew rfl
      obtain rfl := List.singleton_inj.mp hn
      exact ⟨hkept hdir, hname⟩
    · rw [hother hnew] at h
      exact ⟨hkept (ht.inside l n h), ht.named l n h⟩
  have hcurrent : after.current = t.current := by rw [← hafter]; rfl
  exact ⟨hkept ht.root, fun l n h => (hcases h).1, fun l n h => (hcases h).2,
    hcurrent ▸ hkept ht.current⟩

/-- **What is appended to leaves a tree a tree.** -/
theorem IsTree.append (ht : t.IsTree) {text : String} (h : t.append path text = .ok t') :
    t'.IsTree := by
  unfold FileTree.append at h
  cases hlocate : t.locateNew path with
  | error => simp [hlocate, bind, Except.bind] at h
  | ok l =>
    obtain ⟨before, last, first, dir, hnames, hstart, hwalk, hfile, hdot, hdotDot, hshort, rfl⟩ :=
      exists_of_locateNew hlocate
    have hlast : IsName last :=
      isName_of_mem_names hstart (by simp [hnames]) hdot hdotDot hshort
    -- the walk ended at something, and at no file
    have hdir : t.entry? dir = some .directory := by
      have hexists := ht.exists_of_walk (ht.exists_of_start hstart) hwalk
      exact directory_of_not_file hexists hfile
    simp only [hlocate, bind, Except.bind] at h
    cases hentry : t.entry? (dir ++ [last]) with
    | none =>
      rw [hentry] at h
      obtain rfl := Except.ok.inj h
      exact ht.put hdir hlast (by simp [hentry]) _
    | some entry =>
      cases entry with
      | directory => simp [hentry] at h
      | file content =>
        rw [hentry] at h
        obtain rfl := Except.ok.inj h
        exact ht.put hdir hlast (by simp [hentry]) _

end ReleaseMatrix.FileTree
