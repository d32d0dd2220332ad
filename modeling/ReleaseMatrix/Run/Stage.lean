/-
  Stages of a run — what a stage says on its way, how often it asks the catalog's service, and how
  it ends.

  Stages follow each other until one fails; they form a lawful monad, so a row of stages may be
  bracketed at will (`andThen_assoc`).  How they end is a matter of their results alone
  (`result_bind`), and the requests of a run are those of the stages that were reached
  (`requests_bind_of_error`, `requests_bind_of_ok`).
-/
import ReleaseMatrix.Log
import ReleaseMatrix.Run.Failure

namespace ReleaseMatrix.Run

/-- A stage that ends with a value, or fails. -/
structure Stage (α : Type) where
  /-- What it says. -/
  records : List Log.Record
  /-- How many requests it sends. -/
  requests : Nat
  result : Except Failure α

namespace Stage

variable {α β : Type}

/-- A stage that says nothing and ends in some way. -/
def ofResult (r : Except Failure α) : Stage α := ⟨[], 0, r⟩

/-- A stage that only says something. -/
def say (records : List Log.Record) : Stage Unit := ⟨records, 0, .ok ()⟩

/-- A stage, and what follows unless it fails. -/
def andThen (s : Stage α) (next : α → Stage β) : Stage β :=
  match s.result with
  | .error e => ⟨s.records, s.requests, .error e⟩
  | .ok a =>
    let rest := next a
    ⟨s.records ++ rest.records, s.requests + rest.requests, rest.result⟩

instance : Monad Stage where
  pure a := ofResult (.ok a)
  bind := andThen

/-! ## Laws -/

theorem andThen_done (s : Stage α) : (s.andThen fun a => ofResult (.ok a)) = s := by
  obtain ⟨records, requests, result⟩ := s
  cases result <;> simp [andThen, ofResult]

theorem done_andThen (a : α) (next : α → Stage β) : (ofResult (.ok a)).andThen next = next a := by
  simp [andThen, ofResult]

/-- What stages say is joined in order, their requests add up, and the first failure ends them,
however they are bracketed. -/
theorem andThen_assoc {γ : Type} (s : Stage α) (next : α → Stage β) (last : β → Stage γ) :
    (s.andThen next).andThen last = s.andThen fun a => (next a).andThen last := by
  obtain ⟨records, requests, result⟩ := s
  cases result with
  | error => rfl
  | ok a =>
    simp only [andThen]
    cases (next a).result <;> simp [Nat.add_assoc]

instance : LawfulMonad Stage := LawfulMonad.mk' Stage andThen_done done_andThen andThen_assoc

/-! ## Results and requests -/

theorem result_pure (a : α) : (pure a : Stage α).result = .ok a := rfl

/-- One stage after the other ends with what the second makes of the first. -/
theorem result_bind (s : Stage α) (next : α → Stage β) :
    (s >>= next).result = s.result.bind fun a => (next a).result := by
  show (s.andThen next).result = _
  unfold andThen
  cases s.result <;> rfl

theorem result_bind_of_error {s : Stage α} {e : Failure} (h : s.result = .error e)
    (next : α → Stage β) : (s >>= next).result = .error e := by
  rw [result_bind, h]
  rfl

theorem result_bind_of_ok {s : Stage α} {a : α} (h : s.result = .ok a) (next : α → Stage β) :
    (s >>= next).result = (next a).result := by
  rw [result_bind, h]
  rfl

/-- Stages in a row end with a value iff each of them does. -/
theorem result_bind_eq_ok_iff {s : Stage α} {next : α → Stage β} {b : β} :
    (s >>= next).result = .ok b ↔ ∃ a, s.result = .ok a ∧ (next a).result = .ok b := by
  rw [result_bind]
  cases s.result <;> simp [Except.bind]

/-- Stages in a row fail iff the first of them fails, or what follows it. -/
theorem result_bind_eq_error_iff {s : Stage α} {next : α → Stage β} {e : Failure} :
    (s >>= next).result = .error e ↔
      s.result = .error e ∨ ∃ a, s.result = .ok a ∧ (next a).result = .error e := by
  rw [result_bind]
  cases s.result <;> simp [Except.bind]

/-- Behind a failure nothing more is sent. -/
theorem requests_bind_of_error {s : Stage α} {e : Failure} (h : s.result = .error e)
    (next : α → Stage β) : (s >>= next).requests = s.requests := by
  show (s.andThen next).requests = _
  unfold andThen
  rw [h]

/-- Requests of two stages add up. -/
theorem requests_bind_of_ok {s : Stage α} {a : α} (h : s.result = .ok a) (next : α → Stage β) :
    (s >>= next).requests = s.requests + (next a).requests := by
  show (s.andThen next).requests = _
  unfold andThen
  rw [h]

end Stage
end ReleaseMatrix.Run
