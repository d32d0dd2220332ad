/-
  Footprints — what a run leaves behind, on its output and in the files.

  A run that fails leaves only the report of its failure.  One that succeeds has a single place for
  its report:

      github, and a file for step outputs     behind what this file holds; nothing is printed
      github without one, json, text          printed; no file is touched

  The file is opened when the report is ready, and only then, so no stage that fails can leave a part
  of a record in it, or even an empty file.  What comes behind its content is the record of the report
  in the sense of `Report.IsRecord`: the four outputs, each once and in order.

  1. **Files** — `Appended`, all that appending a text changes (`append_eq_ok_iff`).
  2. **Runs** — `Footprint`, and that every run has it (`footprint_outcome`).
  3. **The process** — `Program.footprint_run`.
-/
import ReleaseMatrix.Program
import ReleaseMatrix.Proofs.Report.Record

namespace ReleaseMatrix

/-! ## Files -/

namespace FileTree

variable {t before after : FileTree} {l : Location} {path text : String}

/-- The bytes that an appended text comes behind; there are none if the file is missing. -/
def held (t : FileTree) (l : Location) : ByteArray :=
  match t.entry? l with
  | some (.file content) => content
  | _ => .empty

/-- The tree after a text has been appended to the file at a location, and nothing else. -/
structure Appended (before : FileTree) (l : Location) (text : String) (after : FileTree) :
    Prop where
  /-- There is a file, or nothing yet. -/
  writable : before.entry? l ≠ some .directory
  /-- The text comes behind all that was held. -/
  written : after.entry? l = some (.file (before.held l ++ text.toUTF8))
  /-- All other locations are as before. -/
  others : ∀ l', l' ≠ l → after.entry? l' = before.entry? l'
  current : after.current = before.current

/-- Text is put behind what a file already holds. -/
theorem appended_put (h : t.entry? l ≠ some .directory) :
    t.Appended l text (t.put l (t.held l ++ text.toUTF8)) where
  writable := h
  written := if_pos rfl
  others _ hne := if_neg hne
  current := rfl

/-- There is only one way to append a text. -/
theorem Appended.eq_put (h : before.Appended l text after) :
    after = before.put l (before.held l ++ text.toUTF8) := by
  obtain ⟨found, current⟩ := after
  obtain rfl : current = before.current := h.current
  refine congrArg (FileTree.mk · before.current) (funext fun l' => ?_)
  split
  case isTrue hl => exact hl ▸ h.written
  case isFalse hl => exact h.others l' hl

/-- A file that is there, or can be made, is written. -/
theorem append_of_writable (hlocate : t.locateNew path = .ok l)
    (hwritable : t.entry? l ≠ some .directory) :
    t.append path text = .ok (t.put l (t.held l ++ text.toUTF8)) := by
  unfold append held
  rw [hlocate]
  cases hentry : t.entry? l with
  | none => simp [bind, Except.bind, pure, Except.pure, hentry]
  | some entry =>
    cases entry with
    | directory => exact absurd hentry hwritable
    | file => simp [bind, Except.bind, pure, Except.pure, hentry]

/-- What is written has a location, and no directory is there. -/
theorem writable_of_append (h : t.append path text = .ok after) :
    ∃ l, t.locateNew path = .ok l ∧ t.entry? l ≠ some .directory := by
  unfold append at h
  cases hlocate : t.locateNew path with
  | error =>
    rw [hlocate] at h
    cases h
  | ok l =>
    refine ⟨l, rfl, fun hentry => ?_⟩
    simp only [hlocate, hentry, bind, Except.bind] at h
    cases h

/-- **A path is appended to iff it leads to a file or to where one can be made**, and then the tree
is other than before at this one location. -/
theorem append_eq_ok_iff :
    t.append path text = .ok after ↔ ∃ l, t.locateNew path = .ok l ∧ t.Appended l text after := by
  constructor
  · intro h
    obtain ⟨l, hlocate, hwritable⟩ := writable_of_append h
    rw [append_of_writable hlocate hwritable] at h
    obtain rfl := Except.ok.inj h
    exact ⟨l, hlocate, appended_put hwritable⟩
  · rintro ⟨l, hlocate, happended⟩
    rw [append_of_writable hlocate happended.writable, ← happended.eq_put]

end FileTree

/-! ## Runs -/

namespace Run

variable {s : Surroundings} {c : CommandLine} {format : Format} {r : Report} {p : Product}

/-- The file that a report goes to, if it goes to one. -/
def sink? (s : Surroundings) : Format → Option String
  | .github => s.outputFile
  | .json | .text => none

/-- A report that goes to no file is printed. -/
theorem deliver_of_no_sink (h : sink? s format = none) :
    deliver s format r = pure ⟨r.render s.color format, s.files⟩ := by
  cases format with
  | github =>
    have hfile : s.outputFile = none := h
    simp only [deliver, hfile]
  | json | text => rfl

/-- A report that goes to a file is appended to it, and not printed. -/
theorem deliver_of_sink {path : String} (h : sink? s format = some path) :
    (deliver s format r).result = .ok p ↔
      s.files.append path r.stepOutputs = .ok p.files ∧ p.printed = "" := by
  cases format with
  | json | text => cases h
  | github =>
    have hfile : s.outputFile = some path := h
    obtain ⟨printed, files⟩ := p
    simp only [deliver, hfile]
    cases s.files.append path r.stepOutputs with
    | error => simp
    | ok => simp [and_comm, eq_comm]

/-- The file that a report goes to can be opened, if it goes to one. -/
def Opens (s : Surroundings) (format : Format) : Prop :=
  ∀ path, sink? s format = some path →
    ∃ l, s.files.locateNew path = .ok l ∧ s.files.entry? l ≠ some .directory

/-- A report is delivered iff its file opens. -/
theorem exists_deliver_iff : (∃ p, (deliver s format r).result = .ok p) ↔ Opens s format := by
  cases hsink : sink? s format with
  | none => simp [Opens, hsink, deliver_of_no_sink hsink, Stage.result_pure]
  | some path =>
    simp only [Opens, hsink, Option.some.injEq, forall_eq', deliver_of_sink hsink]
    constructor
    · rintro ⟨p, happend, -⟩
      exact FileTree.writable_of_append happend
    · rintro ⟨l, hlocate, hwritable⟩
      exact ⟨⟨"", _⟩, FileTree.append_of_writable hlocate hwritable, rfl⟩

/-- A run comes to its end iff it has a report to deliver. -/
theorem stages_eq_ok_iff : (stages s c).result = .ok p ↔
    ∃ r, (report s c).result = .ok r ∧ (deliver s c.format r).result = .ok p :=
  Stage.result_bind_eq_ok_iff

theorem outcome_of_error {e : Failure} (h : (stages s c).result = .error e) :
    outcome s c = ⟨1, "", Report.failure s.color e.message e.causes c.format, s.files⟩ := by
  rw [outcome, h]
  rfl

theorem outcome_of_ok (h : (stages s c).result = .ok p) :
    outcome s c = ⟨0, p.printed, "", p.files⟩ := by
  rw [outcome, h]
  rfl

/-- What a run leaves behind, besides what it says of its way and of its failure. -/
structure Footprint (s : Surroundings) (c : CommandLine) (o : Outcome) : Prop where
  code : o.code = 0 ∨ o.code = 1
  /-- It takes a report, and a file that opens if the report goes to one. -/
  succeeds : o.code = 0 ↔ (∃ r, (report s c).result = .ok r) ∧ Opens s c.format
  /-- A failure prints nothing and leaves all files alone. -/
  failed : o.code = 1 → o.stdout = "" ∧ o.files = s.files
  /-- The record of the four outputs comes behind what the file held, and nothing is printed. -/
  appended : o.code = 0 → ∀ path, sink? s c.format = some path →
    o.stdout = "" ∧ ∃ r l record, (report s c).result = .ok r ∧ r.IsRecord record ∧
      s.files.locateNew path = .ok l ∧ s.files.Appended l record o.files
  /-- The report is printed, in its format; in `github` format this is the record too. -/
  printed : o.code = 0 → sink? s c.format = none →
    ∃ r, (report s c).result = .ok r ∧ o.stdout = r.render s.color c.format ∧
      (c.format = .github → r.IsRecord o.stdout)
  /-- If no report would go to a file, no file is touched. -/
  untouched : sink? s c.format = none → o.files = s.files

/-- What is written to the other output makes no difference. -/
theorem Footprint.withStderr {o : Outcome} (h : Footprint s c o) (text : String) :
    Footprint s c { o with stderr := text } :=
  ⟨h.code, h.succeeds, h.failed, h.appended, h.printed, h.untouched⟩

/-- A run that fails leaves nothing behind but what it says. -/
theorem footprint_of_error {e : Failure} (h : (stages s c).result = .error e) :
    Footprint s c (outcome s c) := by
  -- a report that can be delivered would have made the stages end
  have hfails : ¬ ((∃ r, (report s c).result = .ok r) ∧ Opens s c.format) := by
    rintro ⟨⟨r, hreport⟩, hopens⟩
    obtain ⟨p, hdeliver⟩ := exists_deliver_iff.mpr hopens
    have hok : (stages s c).result = .ok p := stages_eq_ok_iff.mpr ⟨r, hreport, hdeliver⟩
    rw [h] at hok
    cases hok
  rw [outcome_of_error h]
  exact {
    code := .inr rfl
    succeeds := iff_of_false Nat.one_ne_zero hfails
    failed := fun _ => ⟨rfl, rfl⟩
    appended := fun hcode => absurd hcode Nat.one_ne_zero
    printed := fun hcode => absurd hcode Nat.one_ne_zero
    untouched := fun _ => rfl }

/-- A run that succeeds leaves its report, at one place. -/
theorem footprint_of_ok (h : (stages s c).result = .ok p) : Footprint s c (outcome s c) := by
  obtain ⟨r, hreport, hdeliver⟩ := stages_eq_ok_iff.mp h
  have hopens : Opens s c.format := exists_deliver_iff.mp ⟨p, hdeliver⟩
  -- without a file to write to, the report is printed and no file is touched
  have hprints (hsink : sink? s c.format = none) :
      p = ⟨r.render s.color c.format, s.files⟩ := by
    rw [deliver_of_no_sink hsink] at hdeliver
    exact (Except.ok.inj hdeliver).symm
  rw [outcome_of_ok h]
  exact {
    code := .inl rfl
    succeeds := iff_of_true rfl ⟨⟨r, hreport⟩, hopens⟩
    failed := fun hcode => absurd hcode Nat.zero_ne_one
    appended := fun _ path hsink => by
      obtain ⟨happend, hprinted⟩ := (deliver_of_sink hsink).mp hdeliver
      obtain ⟨l, hlocate, happended⟩ := FileTree.append_eq_ok_iff.mp happend
      exact ⟨hprinted, r, l, r.stepOutputs, hreport, r.isRecord_stepOutputs, hlocate, happended⟩
    printed := fun _ hsink => by
      rw [hprints hsink]
      refine ⟨r, hreport, rfl, fun hformat => ?_⟩
      rw [hformat]
      exact r.isRecord_stepOutputs
    untouched := fun hsink => congrArg Product.files (hprints hsink) }

/-- So every run leaves a footprint of this kind. -/
theorem footprint_outcome (s : Surroundings) (c : CommandLine) :
    Footprint s c (outcome s c) := by
  cases h : (stages s c).result with
  | error => exact footprint_of_error h
  | ok => exact footprint_of_ok h

end Run

namespace Program

open CommandLine (Environment)

/-! ## The process -/

theorem run_of_read {args : List String} {env : Environment} {files : FileTree}
    {service : Catalog.Script} {c : CommandLine} (h : CommandLine.read args env = .ok c) :
    run args env files service =
      { Run.outcome (surroundings env files service) c with
        stderr := journalText env c.verbose (Run.stages (surroundings env files service) c).records
          ++ (Run.outcome (surroundings env files service) c).stderr } := by
  rw [run, h]

/-- **A failing process leaves all files alone, and one that succeeds only appends.**  Whatever the
arguments, the files and the catalog's service: if the arguments are read, the process ends with 0
or 1.  With 1, nothing is printed and the files are those from before, so no file for step outputs is
made or cut either.  With 0, the report is in one place.  In `github` format, if `GITHUB_OUTPUT` names
a file, the record of the four outputs is appended to this file, all else is as before, and nothing is
printed.  Else the report is printed, and no file is touched.  Arguments that are not read touch no
file. -/
theorem footprint_run (args : List String) (env : Environment) (files : FileTree)
    (service : Catalog.Script) :
    match CommandLine.read args env with
    | .ok c =>
      Run.Footprint ⟨files, service, env "GITHUB_OUTPUT", colorsReports env⟩ c
        (run args env files service)
    | .error _ => (run args env files service).files = files := by
  cases hread : CommandLine.read args env with
  | ok c =>
    show Run.Footprint _ c (run args env files service)
    rw [run_of_read hread]
    exact (Run.footprint_outcome _ c).withStderr _
  | error rejection =>
    show (run args env files service).files = files
    rw [run, hread]
    cases rejection <;> rfl

end Program
end ReleaseMatrix
