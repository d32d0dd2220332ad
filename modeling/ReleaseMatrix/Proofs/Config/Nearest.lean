/-
  The nearest configuration — whose file a directory goes by, and what is made of it.

  On the way from a location to the root, the first directory that holds `phpver.toml` as a file
  decides, for itself and for all below it down to the next one:

      /phpver.toml              decides for /, /a and /c
      /a/phpver.toml/           is a directory, and passed over
      /a/b/phpver.toml          decides for /a/b and /a/b/d; if it cannot be read, loading fails

  1. **Prefixes** — `IsDeepest`, and that a search from the longest one finds it.
  2. **The search** — `find?_eq_some_iff`, `find?_eq_none_iff`.
  3. **The file** — `load_of_nearest`, and where a catalog file in it lies (`join_eq_placed`).
  4. **Loading** — `load_nearest`.
-/
import ReleaseMatrix.Config
import ReleaseMatrix.Proofs.FileTree.Locating

namespace ReleaseMatrix.Config

variable {t : FileTree} {start : String} {l dir : Location}

/-! ## Prefixes -/

section

variable {α : Type} {l p : List α}

/-- The longest prefix in a class: all others in it are prefixes of this one. -/
structure IsDeepest (q : List α → Prop) (l p : List α) : Prop where
  holds : q p
  above : p <+: l
  deepest : ∀ p', p' <+: l → q p' → p' <+: p

/-- What is deepest is deepest for the same property said otherwise. -/
theorem IsDeepest.of_iff {q q' : List α → Prop} (h : IsDeepest q l p)
    (hiff : ∀ p', p' <+: l → (q p' ↔ q' p')) : IsDeepest q' l p where
  holds := (hiff p h.above).mp h.holds
  above := h.above
  deepest p' hp' hq' := h.deepest p' hp' ((hiff p' hp').mpr hq')

/-- Classes with the same prefixes have the same longest one. -/
theorem isDeepest_congr {q q' : List α → Prop} (h : ∀ p', p' <+: l → (q p' ↔ q' p')) :
    IsDeepest q l p ↔ IsDeepest q' l p :=
  ⟨fun hp => hp.of_iff h, fun hp => hp.of_iff fun p' hp' => (h p' hp').symm⟩

/-- A search that starts at the longest prefix finds the deepest. -/
theorem find?_inits_reverse_eq_some_iff {q : List α → Bool} :
    l.inits.reverse.find? q = some p ↔ IsDeepest (q · = true) l p := by
  induction l using List.reverseRecOn with
  | nil =>
    have hinits : ([] : List α).inits.reverse = [[]] := rfl
    rw [hinits, List.find?_singleton]
    constructor
    · intro h
      split at h
      case isTrue hq =>
        obtain rfl := Option.some.inj h
        exact ⟨hq, List.prefix_refl [], fun p' hp' _ => hp'⟩
      case isFalse => cases h
    · rintro ⟨hq, hp, -⟩
      obtain rfl := List.prefix_nil.mp hp
      rw [if_pos hq]
  | append_singleton l a ih =>
    have hinits : (l ++ [a]).inits.reverse = (l ++ [a]) :: l.inits.reverse := by
      simp [List.inits_append]
    rw [hinits, List.find?_cons]
    cases hq : q (l ++ [a]) with
    | true =>
      constructor
      · intro h
        obtain rfl := Option.some.inj h
        exact ⟨hq, List.prefix_refl _, fun p' hp' _ => hp'⟩
      · rintro ⟨-, hp, hdeepest⟩
        have hback := hdeepest (l ++ [a]) (List.prefix_refl _) hq
        rw [hback.eq_of_length_le hp.length_le]
    | false =>
      -- what is in the class is a prefix of the rest already
      have hother {p' : List α} (hp' : q p' = true) : p' <+: l ++ [a] ↔ p' <+: l := by
        rw [List.prefix_concat_iff]
        refine or_iff_right ?_
        rintro rfl
        simp [hq] at hp'
      rw [ih]
      constructor
      · rintro ⟨hp, hl, hdeepest⟩
        exact ⟨hp, (hother hp).mpr hl, fun p' hp' hin => hdeepest p' ((hother hin).mp hp') hin⟩
      · rintro ⟨hp, hl, hdeepest⟩
        exact ⟨hp, (hother hp).mp hl, fun p' hp' hin => hdeepest p' ((hother hin).mpr hp') hin⟩

end

/-! ## The search -/

/-- A directory holds a configuration file: a file of this name, at a path that is not too long. -/
def IsConfigured (t : FileTree) (dir : Location) : Prop :=
  t.isFileAt (dir ++ [fileName]) = true ∧
    (Path.full (dir ++ [fileName])).utf8ByteSize < FileTree.maxPath

instance (t : FileTree) (dir : Location) : Decidable (IsConfigured t dir) :=
  inferInstanceAs (Decidable (_ ∧ _))

/-- The deepest directory with a configuration file, at a location or above it. -/
def IsNearest (t : FileTree) (l dir : Location) : Prop := IsDeepest (IsConfigured t) l dir

theorem isName_fileName : IsName fileName := by decide

/-- The path of the configuration file of a directory. -/
theorem join_fileName (h : ∀ n ∈ dir, IsName n) :
    Path.join (Path.full dir) fileName = Path.full (dir ++ [fileName]) := by
  rw [Path.join_full h (by decide), Path.full_concat]

/-- What is looked for in a directory is there iff the directory is configured. -/
theorem hasFile_join_iff (ht : t.IsTree) (h : ∀ n ∈ dir, IsName n) :
    t.hasFile (Path.join (Path.full dir) fileName) = true ↔ IsConfigured t dir := by
  have hnames : ∀ n ∈ dir ++ [fileName], IsName n := by
    rw [List.forall_mem_append, List.forall_mem_singleton]
    exact ⟨h, isName_fileName⟩
  rw [join_fileName h, ht.hasFile_full_iff hnames]
  rfl

/-- An existing location is searched from itself upward. -/
theorem directories_of_locate (ht : t.IsTree) (h : t.locate start = .ok l) :
    directories t start = l.inits.reverse.map Path.full := by
  have hcanonical : t.canonical start = .ok (Path.full l) := by
    rw [FileTree.canonical, h]
    rfl
  rw [directories, hcanonical]
  exact Path.selfAndAbove_full (ht.isName (ht.exists_of_locate h))

/-- **The search finds the nearest directory with a configuration file.** -/
theorem find?_eq_some_iff (ht : t.IsTree) (h : t.locate start = .ok l) {path : String} :
    find? t start = some path ↔ ∃ dir, IsNearest t l dir ∧ Path.full dir = path := by
  have hnames := ht.isName (ht.exists_of_locate h)
  have hlooked {p : Location} (hp : p <+: l) :
      t.hasFile (Path.join (Path.full p) fileName) = true ↔ IsConfigured t p :=
    hasFile_join_iff ht fun n hn => hnames n (hp.subset hn)
  rw [find?, directories_of_locate ht h, List.find?_map, Option.map_eq_some_iff]
  refine exists_congr fun dir => and_congr_left fun _ => ?_
  rw [find?_inits_reverse_eq_some_iff]
  exact isDeepest_congr fun p hp => hlooked hp

/-- The search finds nothing iff there is nothing. -/
theorem find?_eq_none_iff (ht : t.IsTree) (h : t.locate start = .ok l) :
    find? t start = none ↔ ∀ dir, dir <+: l → ¬ IsConfigured t dir := by
  have hnames := ht.isName (ht.exists_of_locate h)
  rw [find?, directories_of_locate ht h, List.find?_map, Option.map_eq_none_iff,
    List.find?_eq_none]
  refine forall_congr' fun dir => ?_
  rw [List.mem_reverse, List.mem_inits]
  refine forall_congr' fun hdir => not_congr ?_
  exact hasFile_join_iff ht fun n hn => hnames n (hdir.subset hn)

/-- If any directory above is configured, one of them is the nearest. -/
theorem exists_isNearest (ht : t.IsTree) (h : t.locate start = .ok l) (hdir : dir <+: l)
    (hconfigured : IsConfigured t dir) : ∃ nearest, IsNearest t l nearest := by
  cases hfind : find? t start with
  | none => exact absurd hconfigured ((find?_eq_none_iff ht h).mp hfind dir hdir)
  | some path =>
    obtain ⟨nearest, hnearest, -⟩ := (find?_eq_some_iff ht h).mp hfind
    exact ⟨nearest, hnearest⟩

/-- Further down, a directory is still the nearest one if there is no other in between. -/
theorem IsNearest.of_below {l' : Location} (h : IsNearest t l dir) (hbelow : dir <+: l')
    (hbetween : ∀ p, dir <+: p → p <+: l' → IsConfigured t p → p = dir) :
    IsDeepest (IsConfigured t) l' dir where
  holds := h.holds
  above := hbelow
  deepest p hp hconfigured := by
    rcases List.prefix_or_prefix_of_prefix hp hbelow with hshorter | hlonger
    · exact hshorter
    · rw [hbetween p hlonger hp hconfigured]

/-! ## The file -/

/-- The path of a catalog file that the configuration of a directory names. -/
def placed (dir : Location) (file : String) : String :=
  if Path.isAbsolute file then file else Path.below dir file

/-- A path behind a directory is placed below it, unless it is absolute. -/
theorem join_eq_placed (h : ∀ n ∈ dir, IsName n) (file : String) :
    Path.join (Path.full dir) file = placed dir file := by
  unfold placed
  split
  case isTrue habsolute => rw [Path.join, habsolute, Bool.true_or, if_pos rfl]
  case isFalse hrelative => exact Path.join_full h (by simpa using hrelative)

/-- What the content of a directory's configuration file is worth. -/
def ofContent (dir : Location) (content : ByteArray) : Except Failure Config :=
  let path := Path.full (dir ++ [fileName])
  match String.fromUTF8? content with
  | none => .error (.unreadable path .notText)
  | some text =>
    match ofText? text with
    | none => .error (.malformed path)
    | some c => .ok { c with catalogFile := c.catalogFile.map (placed dir) }

/-- Loading from a configured directory is reading the content of its file. -/
theorem loadFrom_full (ht : t.IsTree) (h : IsConfigured t dir) {content : ByteArray}
    (hentry : t.entry? (dir ++ [fileName]) = some (.file content)) :
    loadFrom t (Path.full dir) = ofContent dir content := by
  have hexists : (t.entry? (dir ++ [fileName])).isSome := by rw [hentry]; rfl
  have hnames : ∀ n ∈ dir, IsName n :=
    fun n hn => ht.isName hexists n (List.mem_append_left _ hn)
  have hread := FileTree.readText_of_locate (ht.locate_full hexists h.2) hentry
  unfold loadFrom ofContent
  simp only [join_fileName hnames, hread]
  cases String.fromUTF8? content with
  | none => rfl
  | some text =>
    cases hparse : ofText? text with
    | none => simp [hparse]
    | some c =>
      have hplaced : Path.join (Path.full dir) = placed dir := funext (join_eq_placed hnames)
      simp [hparse, inDirectory, hplaced]

/-- The nearest configuration file decides, whatever it holds. -/
theorem load_of_nearest (ht : t.IsTree) (h : t.locate start = .ok l) (hnearest : IsNearest t l dir)
    {content : ByteArray} (hentry : t.entry? (dir ++ [fileName]) = some (.file content)) :
    load t start = (ofContent dir content).map some := by
  have hfind : find? t start = some (Path.full dir) :=
    (find?_eq_some_iff ht h).mpr ⟨dir, hnearest, rfl⟩
  rw [load, hfind, ← loadFrom_full ht hnearest.holds hentry]

/-! ## Loading -/

/-- What loading must give from a location. -/
structure NearestDecides (t : FileTree) (start : String) (l : Location) : Prop where
  /-- Nothing is loaded iff there is nothing. -/
  nothing : load t start = .ok none ↔ ∀ dir, dir <+: l → ¬ IsConfigured t dir
  /-- If there is anything, one directory is the nearest. -/
  nearest : ∀ dir, dir <+: l → IsConfigured t dir → ∃ nearest, IsNearest t l nearest
  /-- The bytes of its file may be no text; loading fails. -/
  unreadable : ∀ dir content, IsNearest t l dir →
    t.entry? (dir ++ [fileName]) = some (.file content) → String.fromUTF8? content = none →
    load t start = .error (.unreadable (Path.full (dir ++ [fileName])) .notText)
  /-- The text may be no configuration; loading fails. -/
  malformed : ∀ dir content text, IsNearest t l dir →
    t.entry? (dir ++ [fileName]) = some (.file content) → String.fromUTF8? content = some text →
    ofText? text = none → load t start = .error (.malformed (Path.full (dir ++ [fileName])))
  /-- Else it is loaded, with its catalog file placed in this directory. -/
  loaded : ∀ dir content text c, IsNearest t l dir →
    t.entry? (dir ++ [fileName]) = some (.file content) → String.fromUTF8? content = some text →
    ofText? text = some c →
    load t start = .ok (some { c with catalogFile := c.catalogFile.map (placed dir) })
  /-- A catalog file that is not given absolutely lies under the directory. -/
  relative : ∀ dir file, dir <+: l → Path.isAbsolute file = false →
    Path.isAbsolute (placed dir file) = true ∧
      FileTree.names (placed dir file) = dir ++ FileTree.names file
  /-- From everywhere else that has the same nearest directory, the same is loaded. -/
  shared : ∀ dir start' l', IsNearest t l dir → t.locate start' = .ok l' → dir <+: l' →
    (∀ p, dir <+: p → p <+: l' → IsConfigured t p → p = dir) → load t start' = load t start

/-- **The search finds the nearest configuration**, or none above the start. -/
theorem nearestDecides (ht : t.IsTree) (h : t.locate start = .ok l) : NearestDecides t start l where
  nothing := by
    rw [← find?_eq_none_iff ht h, load]
    cases hfind : find? t start with
    | none => simp
    | some path =>
      cases hload : loadFrom t path <;> simp [hload, Except.map]
  nearest dir hdir hconfigured := exists_isNearest ht h hdir hconfigured
  unreadable dir content hnearest hentry hbytes := by
    rw [load_of_nearest ht h hnearest hentry, ofContent, hbytes]
    rfl
  malformed dir content text hnearest hentry hbytes hparse := by
    rw [load_of_nearest ht h hnearest hentry, ofContent, hbytes]
    simp [hparse, Except.map]
  loaded dir content text c hnearest hentry hbytes hparse := by
    rw [load_of_nearest ht h hnearest hentry, ofContent, hbytes]
    simp [hparse, Except.map]
  relative dir file hdir hrelative := by
    have hnames : ∀ n ∈ dir, IsName n :=
      fun n hn => ht.isName (ht.exists_of_locate h) n (hdir.subset hn)
    rw [placed, hrelative, if_neg Bool.false_ne_true]
    exact ⟨by rw [Path.isAbsolute, Path.toList_below]; rfl, Path.names_below hnames file⟩
  shared dir start' l' hnearest h' hbelow hbetween := by
    obtain ⟨content, hentry⟩ := FileTree.isFileAt_iff.mp hnearest.holds.1
    rw [load_of_nearest ht h hnearest hentry,
      load_of_nearest ht h' (hnearest.of_below hbelow hbetween) hentry]

/-- **The nearest configuration decides.**  From every path, the search goes up until nothing is
above, so it ends.  In every tree, and from every path that leads somewhere, one file decides: the
`phpver.toml` of the deepest directory on the way to the root that has one.  A directory of this
name does not count, nor a file at a path too long to be followed.  Nothing is loaded only if there
is no such file.  If it is no text or no configuration, loading fails, whatever lies further up.  A
catalog file in it is kept if it is absolute, and else lies under the directory of the
configuration, wherever the search began; from every path further down the same is loaded, if no
other such file lies in between. -/
theorem load_nearest (t : FileTree) (start : String) :
    Path.IsAscent ((t.canonical start).toOption.getD start) (directories t start) ∧
      (t.IsTree → ∀ l, t.locate start = .ok l → NearestDecides t start l) := by
  refine ⟨?_, fun ht l h => nearestDecides ht h⟩
  rw [directories]
  cases t.canonical start <;> exact Path.isAscent_selfAndAbove _

/-- A project with a configuration file, below one that is malformed.  The directory `src` has only
a directory of that name. -/
def nested : FileTree :=
  .ofEntries
    [([], .directory),
      (["phpver.toml"], .file "[catalog".toUTF8),
      (["app"], .directory),
      (["app", "phpver.toml"], .file "[catalog]\nfile = \"versions.json\"".toUTF8),
      (["app", "src"], .directory),
      (["app", "src", "phpver.toml"], .directory)]
    ["app", "src"]

/-- The file of `app` decides for `src`, and its catalog lies in `app`. -/
theorem load_nearest_nested :
    nested.IsTree ∧ nested.locate "." = .ok ["app", "src"] ∧
      load nested "." = .ok (some { empty with catalogFile := some "/app/versions.json" }) := by
  have htree : nested.IsTree := FileTree.isTree_ofEntries (by decide) (by decide) (by decide)
  have hlocate : nested.locate "." = .ok ["app", "src"] := by decide
  have hparse : ofText? "[catalog]\nfile = \"versions.json\""
      = some { empty with catalogFile := some "versions.json" } := by decide
  have hnearest : IsNearest nested ["app", "src"] ["app"] := by
    refine ⟨by decide, by decide, fun p hp => ?_⟩
    rw [← List.mem_inits] at hp
    revert p
    decide
  refine ⟨htree, hlocate, ?_⟩
  exact ((load_nearest nested ".").2 htree _ hlocate).loaded ["app"] _ _ _ hnearest rfl
    (by decide) hparse

end ReleaseMatrix.Config
