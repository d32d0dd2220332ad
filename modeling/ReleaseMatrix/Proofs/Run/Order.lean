/-
  Order — which stage of a run decides, and which are never reached.

      configuration   settings
      requirement     given, or else what the manifest declares
      catalog         a file, or what its service answers
      matrix
      output          only if the report goes to a file

  A run fails with the first stage that fails (`stages_eq_error_iff`), and what stands behind this
  stage is not begun: the service is only asked by a run that has its settings and its requirement
  (`requests_eq_zero`), and then as often as it takes to load the catalog (`requests_eq_asked`).

  1. **Stages** — each of them by what it is about: `GoesBy`, `Requires`, `listed`.
  2. **The first failure** — `FirstFailure`, and `stages_eq_error_iff`.
  3. **Requests** — `requests_eq_asked`, `requests_eq_zero`.
-/
import ReleaseMatrix.Proofs.Matrix.Extremes
import ReleaseMatrix.Proofs.Run.Footprint

namespace ReleaseMatrix.Run

variable {s : Surroundings} {c : CommandLine} {e : Failure} {text : String} {r : Report}

/-! ## Stages -/

/-- A run goes by these settings. -/
def GoesBy (s : Surroundings) (c : CommandLine) (settings : Settings) : Prop :=
  ∃ config?, Config.load s.files c.workingDirectory = .ok config? ∧
    Settings.resolve c.overrides config? = settings

/-- The manifest of a run, and what comes of loading it. -/
def manifestOf (s : Surroundings) (c : CommandLine) : Except Manifest.Failure (Option String) :=
  Manifest.load s.files (Manifest.path c.workingDirectory)

/-- A run has this requirement. -/
inductive Requires (s : Surroundings) (c : CommandLine) (text : String) : Prop where
  | given (h : c.constraint = some text)
  | declared (hnone : c.constraint = none) (h : manifestOf s c = .ok (some text))

/-- What comes of loading a catalog. -/
def listed (s : Surroundings) : CatalogSource → Except Catalog.Failure (List Release)
  | .file path => Catalog.loadFile s.files path
  | .url url => (Catalog.Fetch.run .default s.service url).result

/-- The settings stage loads what is configured and puts the command line over it. -/
theorem result_settings : (settings s.files c).result =
    ((Config.load s.files c.workingDirectory).mapError .configuration).map
      (Settings.resolve c.overrides) := by
  unfold settings configuration
  rw [Stage.result_bind]
  cases Config.load s.files c.workingDirectory <;> rfl

/-- The requirement stage takes the given requirement, or else asks the manifest. -/
theorem result_requirement : (requirement s.files c).result =
    match c.constraint with
    | some text => .ok text
    | none =>
      match manifestOf s c with
      | .error failure => .error (.manifest failure)
      | .ok none => .error .noRequirement
      | .ok (some text) => .ok text := by
  unfold requirement
  cases c.constraint with
  | some => rfl
  | none =>
    simp only [declared, manifest, Stage.result_bind]
    show ((((manifestOf s c).mapError _).bind _).bind _) = _
    cases manifestOf s c with
    | error => rfl
    | ok declared? => cases declared? <;> rfl

theorem result_releases (source : CatalogSource) :
    (releases s.files s.service source).result = (listed s source).mapError (.catalog source) := by
  cases source <;> rfl

section

variable {ε ε' α : Type} {f : ε → ε'} {x : Except ε α}

theorem mapError_eq_ok_iff {a : α} : x.mapError f = .ok a ↔ x = .ok a := by
  cases x <;> simp [Except.mapError]

theorem mapError_eq_error_iff {e : ε'} :
    x.mapError f = .error e ↔ ∃ cause, x = .error cause ∧ f cause = e := by
  cases x <;> simp [Except.mapError]

end

/-- The settings stage ends with what the run goes by. -/
theorem settings_eq_ok_iff {found : Settings} :
    (settings s.files c).result = .ok found ↔ GoesBy s c found := by
  rw [result_settings, GoesBy]
  cases Config.load s.files c.workingDirectory <;> simp [Except.mapError, Except.map]

theorem settings_eq_error_iff : (settings s.files c).result = .error e ↔
    ∃ failure, Config.load s.files c.workingDirectory = .error failure ∧
      .configuration failure = e := by
  rw [result_settings]
  cases Config.load s.files c.workingDirectory <;> simp [Except.mapError, Except.map]

/-- The requirement stage ends with the requirement. -/
theorem requirement_eq_ok_iff : (requirement s.files c).result = .ok text ↔ Requires s c text := by
  rw [result_requirement]
  constructor
  · intro h
    split at h
    case h_1 given hgiven =>
      obtain rfl := Except.ok.inj h
      exact .given hgiven
    case h_2 hnone =>
      split at h
      · cases h
      · cases h
      case h_3 declared hdeclared =>
        obtain rfl := Except.ok.inj h
        exact .declared hnone hdeclared
  · rintro (hgiven | ⟨hnone, hdeclared⟩)
    · rw [hgiven]
    · rw [hnone, hdeclared]

/-- It fails if there is no manifest to read, or if this declares nothing. -/
theorem requirement_eq_error_iff : (requirement s.files c).result = .error e ↔
    c.constraint = none ∧
      ((∃ failure, manifestOf s c = .error failure ∧ .manifest failure = e) ∨
        manifestOf s c = .ok none ∧ .noRequirement = e) := by
  rw [result_requirement]
  cases c.constraint with
  | some => simp
  | none =>
    cases manifestOf s c with
    | error => simp
    | ok declared? => cases declared? <;> simp

theorem releases_eq_ok_iff {source : CatalogSource} {found : List Release} :
    (releases s.files s.service source).result = .ok found ↔ listed s source = .ok found := by
  rw [result_releases, mapError_eq_ok_iff]

theorem releases_eq_error_iff {source : CatalogSource} :
    (releases s.files s.service source).result = .error e ↔
      ∃ failure, listed s source = .error failure ∧ .catalog source failure = e := by
  rw [result_releases, mapError_eq_error_iff]

/-! ## The first failure -/

/-- A run comes to a report. -/
structure Reports (s : Surroundings) (c : CommandLine) (settings : Settings) (found : List Release)
    (r : Report) : Prop where
  goes : GoesBy s c settings
  requires : Requires s c r.requirement
  listed : listed s settings.catalog = .ok found
  built : Matrix.build r.requirement found settings.filters = .ok r.matrix
  minimal : Name.minimum r.matrix = .ok r.minimal
  latest : Name.maximum r.matrix = .ok r.latest

/-- A run has a first stage that fails, and it fails like this: all stages before come to an end. -/
inductive FirstFailure (s : Surroundings) (c : CommandLine) : Failure → Prop where
  | configuration {failure : Config.Failure}
      (h : Config.load s.files c.workingDirectory = .error failure) :
      FirstFailure s c (.configuration failure)
  | manifest {settings : Settings} {failure : Manifest.Failure} (hgoes : GoesBy s c settings)
      (hnone : c.constraint = none) (h : manifestOf s c = .error failure) :
      FirstFailure s c (.manifest failure)
  | noRequirement {settings : Settings} (hgoes : GoesBy s c settings) (hnone : c.constraint = none)
      (h : manifestOf s c = .ok none) : FirstFailure s c .noRequirement
  | catalog {settings : Settings} {text : String} {failure : Catalog.Failure}
      (hgoes : GoesBy s c settings) (hrequires : Requires s c text)
      (h : listed s settings.catalog = .error failure) :
      FirstFailure s c (.catalog settings.catalog failure)
  | matrix {settings : Settings} {text : String} {found : List Release} {failure : NoVersions}
      (hgoes : GoesBy s c settings) (hrequires : Requires s c text)
      (hlisted : listed s settings.catalog = .ok found)
      (h : Matrix.build text found settings.filters = .error failure) :
      FirstFailure s c (.matrix failure)
  | output {settings : Settings} {found : List Release} {r : Report} {path : String}
      {cause : FileError} (hreports : Reports s c settings found r)
      (hsink : sink? s c.format = some path)
      (h : s.files.append path r.stepOutputs = .error cause) :
      FirstFailure s c (.output path cause)

/-- A report fails to be delivered only if it goes to a file. -/
theorem deliver_eq_error_iff {format : Format} : (deliver s format r).result = .error e ↔
    ∃ path cause, sink? s format = some path ∧ s.files.append path r.stepOutputs = .error cause ∧
      .output path cause = e := by
  cases hsink : sink? s format with
  | none => simp [deliver_of_no_sink hsink, Stage.result_pure]
  | some path =>
    cases format with
    | json | text => cases hsink
    | github =>
      have hfile : s.outputFile = some path := hsink
      simp only [deliver, hfile, Option.some.injEq, exists_and_left, exists_eq_left']
      cases s.files.append path r.stepOutputs <;> simp

/-- A report is what the stages come to. -/
theorem report_eq_ok_iff :
    (report s c).result = .ok r ↔ ∃ settings found, Reports s c settings found r := by
  constructor
  · intro h
    obtain ⟨settings, hsettings, h⟩ := Stage.result_bind_eq_ok_iff.mp h
    obtain ⟨text, htext, h⟩ := Stage.result_bind_eq_ok_iff.mp h
    obtain ⟨found, hfound, h⟩ := Stage.result_bind_eq_ok_iff.mp h
    obtain ⟨names, hnames, h⟩ := Stage.result_bind_eq_ok_iff.mp h
    obtain ⟨first, hfirst, h⟩ := Stage.result_bind_eq_ok_iff.mp h
    obtain ⟨last, hlast, h⟩ := Stage.result_bind_eq_ok_iff.mp h
    obtain rfl := Except.ok.inj h
    exact ⟨settings, found, settings_eq_ok_iff.mp hsettings, requirement_eq_ok_iff.mp htext,
      releases_eq_ok_iff.mp hfound, mapError_eq_ok_iff.mp hnames, mapError_eq_ok_iff.mp hfirst,
      mapError_eq_ok_iff.mp hlast⟩
  · rintro ⟨settings, found, h⟩
    have hmatrix : (matrix r.requirement found settings.filters).result = .ok r.matrix :=
      mapError_eq_ok_iff.mpr h.built
    have hends : (ends r.requirement r.matrix).result = .ok r := result_ends h.minimal h.latest
    rw [report, Stage.result_bind_of_ok (settings_eq_ok_iff.mpr h.goes),
      Stage.result_bind_of_ok (requirement_eq_ok_iff.mpr h.requires),
      Stage.result_bind_of_ok (releases_eq_ok_iff.mpr h.listed), Stage.result_bind_of_ok hmatrix]
    exact hends

/-- No report, because of the first stage that fails. -/
theorem firstFailure_of_report (h : (report s c).result = .error e) : FirstFailure s c e := by
  -- one stage after the other: it fails, or it ends and the next one is asked
  rcases Stage.result_bind_eq_error_iff.mp h with hsettings | ⟨settings, hsettings, h⟩
  · obtain ⟨failure, hload, rfl⟩ := settings_eq_error_iff.mp hsettings
    exact .configuration hload
  have hgoes : GoesBy s c settings := settings_eq_ok_iff.mp hsettings
  rcases Stage.result_bind_eq_error_iff.mp h with hrequirement | ⟨text, htext, h⟩
  · obtain ⟨hnone, ⟨failure, hload, rfl⟩ | ⟨hload, rfl⟩⟩ := requirement_eq_error_iff.mp hrequirement
    · exact .manifest hgoes hnone hload
    · exact .noRequirement hgoes hnone hload
  have hrequires : Requires s c text := requirement_eq_ok_iff.mp htext
  rcases Stage.result_bind_eq_error_iff.mp h with hreleases | ⟨found, hfound, h⟩
  · obtain ⟨failure, hlisted, rfl⟩ := releases_eq_error_iff.mp hreleases
    exact .catalog hgoes hrequires hlisted
  have hlisted : listed s settings.catalog = .ok found := releases_eq_ok_iff.mp hfound
  rcases Stage.result_bind_eq_error_iff.mp h with hmatrix | ⟨names, hnames, h⟩
  · obtain ⟨failure, hbuild, rfl⟩ := mapError_eq_error_iff.mp hmatrix
    exact .matrix hgoes hrequires hlisted hbuild
  -- a matrix that was built has both of its ends
  have hbuild : Matrix.build text found settings.filters = .ok names := mapError_eq_ok_iff.mp hnames
  obtain ⟨first, last, -, -, hfirst, hlast⟩ := Matrix.extremes_of_build hbuild
  have hends : (ends text names).result = .error e := h
  rw [result_ends hfirst hlast] at hends
  cases hends

/-- **A run fails like its first stage that fails**, and only if there is one. -/
theorem stages_eq_error_iff : (stages s c).result = .error e ↔ FirstFailure s c e := by
  constructor
  · intro h
    rcases Stage.result_bind_eq_error_iff.mp h with hreport | ⟨r, hreport, hdeliver⟩
    · exact firstFailure_of_report hreport
    · obtain ⟨settings, found, hreports⟩ := report_eq_ok_iff.mp hreport
      obtain ⟨path, cause, hsink, happend, rfl⟩ := deliver_eq_error_iff.mp hdeliver
      exact .output hreports hsink happend
  · -- the report fails, and then nothing is delivered
    have hreport (h : (report s c).result = .error e) : (stages s c).result = .error e :=
      Stage.result_bind_of_error h _
    intro h
    cases h with
    | configuration hload =>
      have hsettings := settings_eq_error_iff.mpr ⟨_, hload, rfl⟩
      exact hreport (Stage.result_bind_of_error hsettings _)
    | manifest hgoes hnone hload =>
      have hrequirement := requirement_eq_error_iff.mpr ⟨hnone, .inl ⟨_, hload, rfl⟩⟩
      apply hreport
      rw [report, Stage.result_bind_of_ok (settings_eq_ok_iff.mpr hgoes),
        Stage.result_bind_of_error hrequirement]
    | noRequirement hgoes hnone hload =>
      have hrequirement := requirement_eq_error_iff.mpr ⟨hnone, .inr ⟨hload, rfl⟩⟩
      apply hreport
      rw [report, Stage.result_bind_of_ok (settings_eq_ok_iff.mpr hgoes),
        Stage.result_bind_of_error hrequirement]
    | catalog hgoes hrequires hlisted =>
      have hreleases := releases_eq_error_iff.mpr ⟨_, hlisted, rfl⟩
      apply hreport
      rw [report, Stage.result_bind_of_ok (settings_eq_ok_iff.mpr hgoes),
        Stage.result_bind_of_ok (requirement_eq_ok_iff.mpr hrequires),
        Stage.result_bind_of_error hreleases]
    | matrix hgoes hrequires hlisted hbuild =>
      apply hreport
      rw [report, Stage.result_bind_of_ok (settings_eq_ok_iff.mpr hgoes),
        Stage.result_bind_of_ok (requirement_eq_ok_iff.mpr hrequires),
        Stage.result_bind_of_ok (releases_eq_ok_iff.mpr hlisted)]
      refine Stage.result_bind_of_error ?_ _
      exact mapError_eq_error_iff.mpr ⟨_, hbuild, rfl⟩
    | output hreports hsink happend =>
      rw [stages, Stage.result_bind_of_ok (report_eq_ok_iff.mpr ⟨_, _, hreports⟩)]
      exact deliver_eq_error_iff.mpr ⟨_, _, hsink, happend, rfl⟩

/-! ## Requests -/

/-- A stage after which nothing is sent counts alone. -/
theorem requests_bind_of_silent {α β : Type} {stage : Stage α} {next : α → Stage β}
    (h : ∀ a, (next a).requests = 0) : (stage >>= next).requests = stage.requests := by
  cases hresult : stage.result with
  | error => rw [Stage.requests_bind_of_error hresult]
  | ok a => rw [Stage.requests_bind_of_ok hresult, h a, Nat.add_zero]

/-- Settings are loaded without a request. -/
theorem requests_settings : (settings s.files c).requests = 0 := by
  rw [settings, requests_bind_of_silent]
  · rfl
  · exact fun _ => rfl

/-- So is the requirement. -/
theorem requests_requirement : (requirement s.files c).requests = 0 := by
  unfold requirement
  cases c.constraint with
  | some => rfl
  | none =>
    have hdeclared : (declared s.files c.workingDirectory).requests = 0 := by
      rw [declared, requests_bind_of_silent]
      · rfl
      · intro declared?
        cases declared? <;> rfl
    exact (requests_bind_of_silent fun _ => rfl).trans hdeclared

/-- How many requests it takes to load a catalog. -/
def asked (s : Surroundings) : CatalogSource → Nat
  | .file _ => 0
  | .url url => (Catalog.Fetch.run .default s.service url).requests

theorem requests_releases (source : CatalogSource) :
    (releases s.files s.service source).requests = asked s source := by
  cases source <;> rfl

theorem requests_deliver {format : Format} : (deliver s format r).requests = 0 := by
  unfold deliver
  split <;> rfl

theorem requests_eq_report : requests s c = (report s c).requests :=
  requests_bind_of_silent fun _ => requests_deliver

/-- A run that comes to its catalog sends what it takes to load it. -/
theorem requests_eq_asked {settings : Settings} (hgoes : GoesBy s c settings)
    (hrequires : Requires s c text) : requests s c = asked s settings.catalog := by
  rw [requests_eq_report, report, Stage.requests_bind_of_ok (settings_eq_ok_iff.mpr hgoes),
    requests_settings, Nat.zero_add,
    Stage.requests_bind_of_ok (requirement_eq_ok_iff.mpr hrequires), requests_requirement,
    Nat.zero_add, requests_bind_of_silent, requests_releases]
  intro found
  rw [requests_bind_of_silent]
  · rfl
  intro names
  rw [requests_bind_of_silent]
  · rfl
  exact fun first => requests_bind_of_silent fun last => rfl

/-- A run that does not come so far sends nothing. -/
theorem requests_eq_zero (h : ∀ settings text, GoesBy s c settings → ¬ Requires s c text) :
    requests s c = 0 := by
  rw [requests_eq_report, report]
  cases hsettings : (settings s.files c).result with
  | error => rw [Stage.requests_bind_of_error hsettings, requests_settings]
  | ok found =>
    rw [Stage.requests_bind_of_ok hsettings, requests_settings, Nat.zero_add]
    cases hrequirement : (requirement s.files c).result with
    | error => rw [Stage.requests_bind_of_error hrequirement, requests_requirement]
    | ok text =>
      exact absurd (requirement_eq_ok_iff.mp hrequirement)
        (h found text (settings_eq_ok_iff.mp hsettings))

end ReleaseMatrix.Run
