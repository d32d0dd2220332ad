/-
  Sameness — trees that differ at one location only, and what does not see the difference.

  What is below the location may differ with it.  A path that keeps clear of the location on all of
  its way leads to the same place in both trees, or to the same error, and what is read or written
  there is the same.  Whether it keeps clear is seen from its names alone:

      from /work, the location /work/composer.json
        versions.json, ./sub/../versions.json                        keep clear
        composer.json, composer.json/x, sub/../composer.json/../x    do not

  1. **Ways** — `Spares`.
  2. **Reading** — `SameBut`, and that the same is found and read (`SameBut.readText`).
  3. **Writing** — the same is written, and the trees stay the same elsewhere (`SameBut.append`).
-/
import ReleaseMatrix.Proofs.FileTree.Locating

namespace ReleaseMatrix.FileTree

variable {t t' : FileTree} {l k next : Location} {path name text : String}

/-! ## Ways -/

/-- No leading part of a path leads to a location or below it; nor does the path. -/
def Spares (t : FileTree) (l : Location) (path : String) : Prop :=
  ∀ front, front <+: names path → ¬ l <+: front.foldl advance (t.origin path)

/-- Where a spared path leads is clear of the location. -/
theorem Spares.not_prefix (hspares : Spares t l path) (h : t.locate path = .ok k) : ¬ l <+: k := by
  obtain ⟨first, hstart, hwalk, -⟩ := locate_eq_ok_iff.mp h
  rw [eq_foldl_of_walk hwalk, eq_origin_of_start hstart]
  exact hspares _ (List.prefix_refl _)

/-- So is where a file would be made. -/
theorem Spares.not_prefix_new (hspares : Spares t l path) (h : t.locateNew path = .ok k) :
    ¬ l <+: k := by
  obtain ⟨before, last, first, dir, hnames, hstart, hwalk, -, hdot, hdotDot, -, rfl⟩ :=
    exists_of_locateNew h
  have hadvance : advance dir last = dir ++ [last] := by
    rw [advance, if_neg hdot, if_neg hdotDot]
  have hwhole := hspares _ (List.prefix_refl _)
  rwa [hnames, List.foldl_append, ← eq_origin_of_start hstart, ← eq_foldl_of_walk hwalk,
    List.foldl_cons, List.foldl_nil, hadvance] at hwhole

/-! ## Reading -/

/-- Two trees are the same but for a location and what is below it. -/
structure SameBut (l : Location) (t t' : FileTree) : Prop where
  current : t.current = t'.current
  entries : ∀ k, ¬ l <+: k → t.entry? k = t'.entry? k

theorem SameBut.isFileAt (h : SameBut l t t') (hk : ¬ l <+: k) :
    t.isFileAt k = t'.isFileAt k := by
  rw [FileTree.isFileAt, FileTree.isFileAt, h.entries k hk]

theorem SameBut.start (h : SameBut l t t') (path : String) : t.start path = t'.start path := by
  unfold FileTree.start
  rw [h.current]

/-- A step does not see the difference if it keeps clear of it. -/
theorem SameBut.step (h : SameBut l t t') (hk : ¬ l <+: k) (hnext : ¬ l <+: advance k name) :
    t.step k name = t'.step k name := by
  unfold FileTree.step
  rw [h.isFileAt hk]
  by_cases hdot : name = "."
  · simp [hdot]
  · by_cases hdotDot : name = ".."
    · simp [hdotDot]
    · rw [advance, if_neg hdot, if_neg hdotDot] at hnext
      rw [h.entries _ hnext]

/-- Nor does a walk. -/
theorem SameBut.walk (h : SameBut l t t') {walk : List String}
    (hclear : ∀ front, front <+: walk → ¬ l <+: front.foldl advance k) :
    walk.foldlM t.step k = walk.foldlM t'.step k := by
  induction walk generalizing k with
  | nil => rfl
  | cons name rest ih =>
    -- the leading parts of the rest are those of the whole way, but for the first name
    have hk : ¬ l <+: k := hclear [] List.nil_prefix
    have hnext : ¬ l <+: advance k name := hclear [name] (by simp)
    rw [List.foldlM_cons, List.foldlM_cons, h.step hk hnext]
    cases hstep : t'.step k name with
    | error => rfl
    | ok k' =>
      rw [eq_advance_of_step hstep]
      refine ih fun front hfront => ?_
      have hlonger : name :: front <+: name :: rest := by simpa using hfront
      exact hclear (name :: front) hlonger

/-- **A spared path leads to the same place**, or to the same error. -/
theorem SameBut.locate (h : SameBut l t t') (hspares : Spares t l path) :
    t.locate path = t'.locate path := by
  unfold FileTree.locate
  rw [← h.start path]
  cases hstart : t.start path with
  | error => rfl
  | ok first =>
    have hwalk : (names path).foldlM t.step first = (names path).foldlM t'.step first := by
      rw [eq_origin_of_start hstart]
      exact h.walk hspares
    simp only [bind, Except.bind, ← hwalk]
    cases hlast : (names path).foldlM t.step first with
    | error => rfl
    | ok last =>
      -- the walk ends outside, so the same is there in both
      have hclear : ¬ l <+: last := by
        rw [eq_foldl_of_walk hlast, eq_origin_of_start hstart]
        exact hspares _ (List.prefix_refl _)
      simp only [h.isFileAt hclear]

/-- The same is read. -/
theorem SameBut.readText (h : SameBut l t t') (hspares : Spares t l path) :
    t.readText path = t'.readText path := by
  unfold FileTree.readText
  rw [← h.locate hspares]
  cases hlocate : t.locate path with
  | error => rfl
  | ok k =>
    simp only [bind, Except.bind, h.entries k (hspares.not_prefix hlocate)]

/-! ## Writing -/

/-- What is written to both makes no difference between them. -/
theorem SameBut.put (h : SameBut l t t') (k : Location) (content : ByteArray) :
    SameBut l (t.put k content) (t'.put k content) where
  current := h.current
  entries k' hk' := by
    show (if k' = k then _ else t.entry? k') = (if k' = k then _ else t'.entry? k')
    rw [h.entries k' hk']

/-- What is written at a spared path is at the same place, if it can be written at all. -/
theorem SameBut.locateNew (h : SameBut l t t') (hspares : Spares t l path) :
    t.locateNew path = t'.locateNew path := by
  rcases List.eq_nil_or_concat (names path) with hnil | ⟨before, last, hnames⟩
  · unfold FileTree.locateNew
    rw [hnil, h.start path]
    rfl
  · rw [List.concat_eq_append] at hnames
    -- only the way to the directory is walked, and the last name is not
    have hclear : ∀ front, front <+: before → ¬ l <+: front.foldl advance (t.origin path) := by
      intro front hfront
      exact hspares front (hnames ▸ hfront.trans (List.prefix_append before [last]))
    rw [t.locateNew_eq hnames, t'.locateNew_eq hnames, ← h.start path]
    cases hstart : t.start path with
    | error => rfl
    | ok first =>
      have hwalk : before.foldlM t.step first = before.foldlM t'.step first := by
        rw [eq_origin_of_start hstart]
        exact h.walk hclear
      simp only [bind, Except.bind, ← hwalk]
      cases hdir : before.foldlM t.step first with
      | error => rfl
      | ok dir =>
        have hdirectory : ¬ l <+: dir := by
          rw [eq_foldl_of_walk hdir, eq_origin_of_start hstart]
          exact hclear before (List.prefix_refl _)
        simp only [h.isFileAt hdirectory]

/-- **The same is written**: both fail for the same reason, or the trees stay the same elsewhere. -/
theorem SameBut.append (h : SameBut l t t') (hspares : Spares t l path) (text : String) :
    (∃ cause, t.append path text = .error cause ∧ t'.append path text = .error cause) ∨
      ∃ after after', t.append path text = .ok after ∧ t'.append path text = .ok after' ∧
        SameBut l after after' := by
  unfold FileTree.append
  rw [← h.locateNew hspares]
  cases hlocate : t.locateNew path with
  | error cause => exact .inl ⟨cause, rfl, rfl⟩
  | ok k =>
    simp only [bind, Except.bind, ← h.entries k (hspares.not_prefix_new hlocate)]
    cases t.entry? k with
    | none => exact .inr ⟨_, _, rfl, rfl, h.put k _⟩
    | some entry =>
      cases entry with
      | file => exact .inr ⟨_, _, rfl, rfl, h.put k _⟩
      | directory => exact .inl ⟨_, rfl, rfl⟩

end ReleaseMatrix.FileTree
