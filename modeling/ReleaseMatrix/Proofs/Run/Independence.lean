/-
  Independence — what a run does not look at if its requirement is given.

  Two runs with the same arguments, in trees that differ only in the manifest of their working
  directory, do the same (`stages_same`): each stage either does not read the tree, or reads it at
  paths that keep clear of the manifest.

      configuration   phpver.toml, in the directory and above it: never the manifest
      requirement     given
      catalog         a path that must keep clear of the manifest
      matrix          reads nothing
      output          a path that must keep clear of the manifest

  1. **Configuration** — `Config.load_congr`.
  2. **Reports** — `report_congr`.
  3. **Products** — `SameProduct`, and `stages_same`.
  4. **Outcomes** — `SameOutcome`, and what is asked of a run all in all (`InOrder`).
  5. **The process** — `Program.stages_in_order`.
-/
import ReleaseMatrix.Proofs.Config.Nearest
import ReleaseMatrix.Proofs.FileTree.Sameness
import ReleaseMatrix.Proofs.Run.Account
import ReleaseMatrix.Proofs.Run.Order

namespace ReleaseMatrix

open FileTree (SameBut)

/-! ## Configuration -/

namespace Config

variable {t t' : FileTree} {start : String} {dir p : Location}

/-- A configuration file in a directory, or above it, is not the manifest of the directory. -/
theorem not_prefix_fileName (hp : p <+: dir) :
    ¬ dir ++ [Manifest.fileName] <+: p ++ [fileName] := by
  intro hbelow
  have hlength : (p ++ [fileName]).length ≤ (dir ++ [Manifest.fileName]).length := by
    have hle := hp.length_le
    simp only [List.length_append, List.length_singleton]
    omega
  obtain ⟨-, hname⟩ := List.append_inj' (hbelow.eq_of_length_le hlength) rfl
  exact absurd hname (by decide)

variable (ht : t.IsTree) (ht' : t'.IsTree) (h : t.locate start = .ok dir)
  (h' : t'.locate start = .ok dir) (hsame : SameBut (dir ++ [Manifest.fileName]) t t')

include hsame in
/-- In both trees, the same directory is the nearest. -/
theorem isNearest_congr : IsNearest t dir p ↔ IsNearest t' dir p := by
  refine isDeepest_congr fun p hp => ?_
  unfold IsConfigured
  rw [hsame.isFileAt (not_prefix_fileName hp)]

include ht ht' h h' hsame

/-- The search finds the same. -/
theorem find?_congr : find? t start = find? t' start := by
  apply Option.ext
  intro path
  rw [find?_eq_some_iff ht h, find?_eq_some_iff ht' h']
  exact exists_congr fun p => and_congr_left fun _ => isNearest_congr hsame

/-- The same is loaded. -/
theorem load_congr : load t start = load t' start := by
  rw [load, load, ← find?_congr ht ht' h h' hsame]
  cases hfind : find? t start with
  | none => rfl
  | some path =>
    obtain ⟨p, hnearest, rfl⟩ := (find?_eq_some_iff ht h).mp hfind
    have hnearest' := (isNearest_congr hsame).mp hnearest
    obtain ⟨content, hentry⟩ := FileTree.isFileAt_iff.mp hnearest.holds.1
    have hentry' := hentry
    rw [hsame.entries _ (not_prefix_fileName hnearest.above)] at hentry'
    simp only [loadFrom_full ht hnearest.holds hentry,
      loadFrom_full ht' hnearest'.holds hentry']

end Config

namespace Run

/-! ## Reports -/

/-- What follows a stage only matters for its result. -/
theorem bind_congr_of_result {α β : Type} {stage : Stage α} {next next' : α → Stage β}
    (h : ∀ a, stage.result = .ok a → next a = next' a) : stage >>= next = stage >>= next' := by
  show stage.andThen next = stage.andThen next'
  unfold Stage.andThen
  cases hresult : stage.result with
  | error => rfl
  | ok a => simp only [h a hresult]

/-- Two trees differ at most in the manifest of a directory, and in what is below it; the directory
is there in both. -/
structure SameButManifest (path : String) (l : Location) (t t' : FileTree) : Prop where
  left : t.IsTree
  right : t'.IsTree
  place : ∃ dir, t.locate path = .ok dir ∧ t'.locate path = .ok dir ∧ l = dir ++ [Manifest.fileName]
  same : SameBut l t t'

variable {s : Surroundings} {c : CommandLine} {l : Location} {t' : FileTree} {text : String}

/-- The settings do not depend on the manifest. -/
theorem settings_congr (hsame : SameButManifest c.workingDirectory l s.files t') :
    settings s.files c = settings t' c := by
  obtain ⟨dir, h, h', rfl⟩ := hsame.place
  have hfind := Config.find?_congr hsame.left hsame.right h h' hsame.same
  have hload := Config.load_congr hsame.left hsame.right h h' hsame.same
  have hconfiguration :
      configuration s.files c.workingDirectory = configuration t' c.workingDirectory := by
    unfold configuration Journal.configuration
    rw [hfind, hload]
  unfold settings
  rw [hconfiguration]

/-- A given requirement is not looked for. -/
theorem requirement_congr (hgiven : c.constraint = some text) (t t' : FileTree) :
    requirement t c = requirement t' c := by
  unfold requirement
  rw [hgiven]

/-- A catalog is the same if its file is not the manifest, nor below it. -/
theorem releases_congr (hsame : SameBut l s.files t') {source : CatalogSource}
    (hspares : ∀ path, source = .file path → s.files.Spares l path) :
    releases s.files s.service source = releases t' s.service source := by
  cases source with
  | url => rfl
  | file path =>
    have hload : Catalog.loadFile s.files path = Catalog.loadFile t' path := by
      unfold Catalog.loadFile
      rw [hsame.readText (hspares path rfl)]
    simp only [releases, hload]

/-- The same is found out. -/
theorem report_congr (hgiven : c.constraint = some text)
    (hsame : SameButManifest c.workingDirectory l s.files t')
    (hcatalog : ∀ found path, GoesBy s c found → found.catalog = .file path →
      s.files.Spares l path) :
    report s c = report { s with files := t' } c := by
  unfold report
  rw [← settings_congr hsame, ← requirement_congr hgiven s.files t']
  -- only the source that the run really goes by has to keep clear of the manifest
  refine bind_congr_of_result fun found hfound => ?_
  refine bind_congr_of_result fun text _ => ?_
  rw [releases_congr hsame.same fun path => hcatalog found path (settings_eq_ok_iff.mp hfound)]

/-! ## Products -/

/-- Two rows of stages do the same, and come to the same, but for a location of the tree. -/
structure SameProduct (l : Location) (stage stage' : Stage Product) : Prop where
  records : stage.records = stage'.records
  requests : stage.requests = stage'.requests
  result :
    (∃ e, stage.result = .error e ∧ stage'.result = .error e) ∨
      ∃ p p', stage.result = .ok p ∧ stage'.result = .ok p' ∧ p.printed = p'.printed ∧
        SameBut l p.files p'.files

/-- Stages after the same stage differ only as what follows it does. -/
theorem SameProduct.bind {α : Type} {next next' : α → Stage Product}
    (h : ∀ a, SameProduct l (next a) (next' a)) (stage : Stage α) :
    SameProduct l (stage >>= next) (stage >>= next') := by
  show SameProduct l (stage.andThen next) (stage.andThen next')
  unfold Stage.andThen
  cases stage.result with
  | error e => exact ⟨rfl, rfl, .inl ⟨e, rfl, rfl⟩⟩
  | ok a =>
    obtain ⟨hrecords, hrequests, hresult⟩ := h a
    exact ⟨congrArg (stage.records ++ ·) hrecords, congrArg (stage.requests + ·) hrequests,
      hresult⟩

/-- A report is delivered alike if its file is not the manifest, nor below it. -/
theorem deliver_same (hsame : SameBut l s.files t')
    (hspares : ∀ path, s.outputFile = some path → s.files.Spares l path) (format : Format)
    (r : Report) :
    SameProduct l (deliver s format r) (deliver { s with files := t' } format r) := by
  cases hsink : sink? s format with
  | none =>
    -- where a report goes is not a matter of the files
    have hsink' : sink? { s with files := t' } format = none := by
      cases format <;> exact hsink
    rw [deliver_of_no_sink hsink, deliver_of_no_sink hsink']
    exact ⟨rfl, rfl, .inr ⟨_, _, rfl, rfl, rfl, hsame⟩⟩
  | some path =>
    cases format with
    | json | text => cases hsink
    | github =>
      have hfile : s.outputFile = some path := hsink
      simp only [deliver, hfile]
      refine ⟨rfl, rfl, ?_⟩
      rcases hsame.append (hspares path hfile) r.stepOutputs with
        ⟨cause, hfails, hfails'⟩ | ⟨after, after', happend, happend', hafter⟩
      · exact .inl ⟨.output path cause, by rw [hfails], by rw [hfails']⟩
      · exact .inr ⟨⟨"", after⟩, ⟨"", after'⟩, by rw [happend], by rw [happend'], rfl, hafter⟩

/-- **Two runs do the same** if they only differ in a manifest that neither needs. -/
theorem stages_same (hgiven : c.constraint = some text)
    (hsame : SameButManifest c.workingDirectory l s.files t')
    (hcatalog : ∀ found path, GoesBy s c found → found.catalog = .file path →
      s.files.Spares l path)
    (houtput : ∀ path, s.outputFile = some path → s.files.Spares l path) :
    SameProduct l (stages s c) (stages { s with files := t' } c) := by
  unfold stages
  rw [← report_congr hgiven hsame hcatalog]
  exact .bind (fun r => deliver_same hsame.same houtput c.format r) _

/-! ## Outcomes -/

/-- Two outcomes are the same, but for a location of the tree. -/
structure SameOutcome (l : Location) (o o' : Outcome) : Prop where
  code : o.code = o'.code
  stdout : o.stdout = o'.stdout
  stderr : o.stderr = o'.stderr
  files : SameBut l o.files o'.files

/-- A run leaves a tree, where others may follow. -/
theorem isTree_outcome (h : s.files.IsTree) : (outcome s c).files.IsTree := by
  cases hresult : (stages s c).result with
  | error e =>
    rw [outcome_of_error hresult]
    exact h
  | ok p =>
    rw [outcome_of_ok hresult]
    obtain ⟨r, -, hdeliver⟩ := stages_eq_ok_iff.mp hresult
    cases hsink : sink? s c.format with
    | none =>
      rw [deliver_of_no_sink hsink] at hdeliver
      obtain rfl := Except.ok.inj hdeliver
      exact h
    | some path => exact h.append ((deliver_of_sink hsink).mp hdeliver).1

/-- Two runs whose stages differ in no more than the file have outcomes that differ in no more. -/
theorem SameProduct.outcome (hsame : SameBut l s.files t')
    (h : SameProduct l (stages s c) (stages { s with files := t' } c)) :
    SameOutcome l (outcome s c) (outcome { s with files := t' } c) := by
  rcases h.result with ⟨e, herror, herror'⟩ | ⟨p, p', hok, hok', hprinted, hfiles⟩
  · rw [outcome_of_error herror, outcome_of_error herror']
    exact ⟨rfl, rfl, rfl, hsame⟩
  · rw [outcome_of_ok hok, outcome_of_ok hok']
    exact ⟨rfl, hprinted, rfl, hfiles⟩

/-- What is asked of the stages of a run; `said` is its journal. -/
structure InOrder (s : Surroundings) (c : CommandLine) (said : String) (o : Outcome) : Prop where
  /-- Behind the journal stands the account of the first failure, and nothing else comes of the run. -/
  reported : ∀ e, FirstFailure s c e →
    ∃ told, o = ⟨1, "", said ++ told, s.files⟩ ∧ Tells s.color c.format e.chain told
  succeeds : (∀ e, ¬ FirstFailure s c e) → o.code = 0
  unique : ∀ e e', FirstFailure s c e → FirstFailure s c e' → e = e'
  /-- Nothing is sent if the configuration cannot be loaded, -/
  unconfigured : ∀ failure, Config.load s.files c.workingDirectory = .error failure →
    requests s c = 0
  /-- if there is no requirement, -/
  unrequired : (∀ text, ¬ Requires s c text) → requests s c = 0
  /-- or if the catalog is in a file. -/
  fromFile : ∀ settings path, GoesBy s c settings → settings.catalog = .file path →
    requests s c = 0
  /-- Else it is what it takes to load the catalog. -/
  asks : ∀ settings text, GoesBy s c settings → Requires s c text →
    requests s c = asked s settings.catalog

end Run

namespace Program

open CommandLine (Environment)
open Run (GoesBy InOrder SameButManifest SameOutcome)

/-! ## The process -/

/-- A process whose command line is understood goes through its stages in order. -/
theorem inOrder_run {args : List String} {env : Environment} {files : FileTree}
    {service : Catalog.Script} {c : CommandLine} (hread : CommandLine.read args env = .ok c) :
    let s := surroundings env files service
    InOrder s c (journalText env c.verbose (Run.stages s c).records)
      (run args env files service) := by
  intro s
  rw [run_of_read hread]
  constructor
  case reported =>
    intro e he
    obtain ⟨told, houtcome, htells⟩ := Run.outcome_tells (Run.stages_eq_error_iff.mpr he)
    refine ⟨told, ?_, htells⟩
    rw [houtcome]
  case succeeds =>
    intro hnone
    cases hresult : (Run.stages s c).result with
    | error e => exact absurd (Run.stages_eq_error_iff.mp hresult) (hnone e)
    | ok p => rw [Run.outcome_of_ok hresult]
  case unique =>
    intro e e' he he'
    have hresult := Run.stages_eq_error_iff.mpr he
    rw [Run.stages_eq_error_iff.mpr he'] at hresult
    exact (Except.error.inj hresult).symm
  case unconfigured =>
    intro failure hload
    refine Run.requests_eq_zero fun settings text hgoes => ?_
    obtain ⟨config?, hload', -⟩ := hgoes
    rw [hload] at hload'
    cases hload'
  case unrequired =>
    intro hnone
    exact Run.requests_eq_zero fun settings text _ => hnone text
  case fromFile =>
    intro settings path hgoes hfile
    -- with a requirement the run reads its file, and without one it does not come so far
    by_cases hrequires : ∃ text, Run.Requires s c text
    · obtain ⟨text, htext⟩ := hrequires
      rw [Run.requests_eq_asked hgoes htext, hfile, Run.asked]
    · exact Run.requests_eq_zero fun _ text _ htext => hrequires ⟨text, htext⟩
  case asks =>
    intro settings text hgoes hrequires
    exact Run.requests_eq_asked hgoes hrequires

/-- **Stages run in order, and only as needed.**  Whatever the files, the service and the arguments,
if these are read: the process tells the failure of the first stage that fails, in the order
configuration, requirement, catalog, matrix, and last the file for step outputs; it succeeds if none
fails.  What it tells is the chain of messages of this failure, a line for each, or in `github` format
one command whose data spell the first of them.  No request is sent if the configuration or the
requirement fails, or if the catalog is in a file.

If the requirement is given, the manifest makes no difference.  In any two trees that differ only in
the manifest of the working directory, or in what is below it, the process ends with the same code
and writes the same texts, and it goes by the same settings with as many requests.  Neither the file
of the catalog nor that for step outputs may be the manifest, or lie below it, nor may the way to
them pass there. -/
theorem stages_in_order (args : List String) (env : Environment) (service : Catalog.Script)
    (c : CommandLine) (hread : CommandLine.read args env = .ok c) :
    (∀ files, let s := surroundings env files service
      InOrder s c (journalText env c.verbose (Run.stages s c).records)
        (run args env files service)) ∧
    ∀ text l t t', c.constraint = some text → SameButManifest c.workingDirectory l t t' →
      (∀ settings path, GoesBy (surroundings env t service) c settings →
        settings.catalog = .file path → t.Spares l path) →
      (∀ path, outputFile env = some path → t.Spares l path) →
      let s := surroundings env t service
      let s' := surroundings env t' service
      SameOutcome l (run args env t service) (run args env t' service) ∧
        Run.requests s c = Run.requests s' c ∧
        ∀ settings, GoesBy s c settings ↔ GoesBy s' c settings := by
  refine ⟨fun files => inOrder_run hread, ?_⟩
  intro text l t t' hgiven hsame hcatalog houtput s s'
  have hstages : Run.SameProduct l (Run.stages s c) (Run.stages s' c) :=
    Run.stages_same hgiven hsame hcatalog houtput
  have houtcome := hstages.outcome hsame.same
  have hsettings : Run.settings t c = Run.settings t' c := Run.settings_congr (s := s) hsame
  refine ⟨?_, hstages.requests, fun settings => ?_⟩
  case refine_2 =>
    have hgoes : (Run.settings s.files c).result = .ok settings ↔
        (Run.settings s'.files c).result = .ok settings := by
      show (Run.settings t c).result = _ ↔ (Run.settings t' c).result = _
      rw [hsettings]
    rwa [Run.settings_eq_ok_iff, Run.settings_eq_ok_iff] at hgoes
  rw [run_of_read hread, run_of_read hread]
  refine ⟨houtcome.code, houtcome.stdout, ?_, houtcome.files⟩
  exact congrArg₂ (journalText env c.verbose · ++ ·) hstages.records houtcome.stderr

/-- The files of a project, whose manifest may be anything at all. -/
def project (manifest : Entry) : FileTree :=
  .ofEntries
    [([], .directory),
      (["composer.json"], manifest),
      (["versions.json"], .file "[\x7b\"name\": \"8.1.0\"\x7d]".toUTF8)]
    []

/-- A malformed manifest, or a directory in its place, makes no difference. -/
theorem stages_in_order_spoiled :
    let args := ["--constraint", ">=8.1", "--catalog-file", "versions.json"]
    let env : Environment := fun _ => none
    let t := project (.file "oops".toUTF8)
    let t' := project .directory
    let service : Catalog.Script := fun _ => .dropped
    SameBut ["composer.json"] t t' ∧
      SameOutcome ["composer.json"] (run args env t service) (run args env t' service) := by
  intro args env t t' service
  let c : CommandLine :=
    ⟨".", some ">=8.1", ⟨none, none, none, none, some "versions.json"⟩, .github, false⟩
  have hread : CommandLine.read args env = .ok c := by decide
  have hentries : SameBut ["composer.json"] t t' := by
    refine ⟨rfl, fun k hk => ?_⟩
    have hne : k ≠ ["composer.json"] := by
      rintro rfl
      exact hk (List.prefix_refl _)
    have hkey : (k == ["composer.json"]) = false := beq_eq_false_iff_ne.mpr hne
    simp only [t, t', project, FileTree.ofEntries, List.lookup_cons, hkey]
  have hsame : SameButManifest "." ["composer.json"] t t' :=
    { left := FileTree.isTree_ofEntries (by decide) (by decide) (by decide)
      right := FileTree.isTree_ofEntries (by decide) (by decide) (by decide)
      place := ⟨[], by decide, by decide, rfl⟩
      same := hentries }
  refine ⟨hentries, ((stages_in_order args env service c hread).2 ">=8.1" _ _ _ rfl hsame ?_ ?_).1⟩
  · rintro settings path ⟨config?, -, rfl⟩ hfile
    obtain rfl : "versions.json" = path := CatalogSource.file.inj hfile
    intro front hfront
    rw [← List.mem_inits] at hfront
    revert front
    decide
  · intro path hfile
    cases hfile

end Program
end ReleaseMatrix
