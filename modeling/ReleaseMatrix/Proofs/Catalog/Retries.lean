/-
  Retries — when a client asks again, how long it waits before, and what it ends with.

  The client asks until an answer settles the fetch or its retries are used up.  With `n` retries
  its last request has the number

      k    if request k is the first that is not worth another try, and k ≤ n
      n    if none of the requests 0 … n settles anything

  and up to there requests and waits take turns:

      request 0   wait d₀   request 1   wait d₁   …   request k        dᵢ = delay base i

  Whatever the last answer says is the outcome: a document, a status, or no answer.  The delays double
  and stop at a minute, so they never decrease.

  1. **Answers** — `Exchange.Retryable` says which are worth another try, `Exchange.Arrives` what is
     read of a body, and `Exchange.Settles` what a fetch ends with.
  2. **Delays** — `delay_eq`, `delay_mono`, `delay_le_maxDelay`.
  3. **Fetching** — `runFrom_of_retryable` is one retry, `runFrom_eq` a whole fetch, `stops_run` the
     fetch of a client.
-/
import Mathlib.Algebra.Group.Nat.Defs
import Mathlib.Data.List.Basic
import Mathlib.Data.Nat.Find
import Mathlib.Order.MinMax
import ReleaseMatrix.Catalog.Fetch

namespace ReleaseMatrix.Catalog

/-! ## Answers -/

namespace Exchange

/-- Another try may turn out better: there was no answer, or its status was 429 or 5xx. -/
def Retryable : Exchange → Prop
  | dropped => True
  | answered status _ => status = 429 ∨ 500 ≤ status ∧ status ≤ 599

theorem isRetryable_iff {e : Exchange} : e.isRetryable = true ↔ e.Retryable := by
  cases e <;> simp [isRetryable, Retryable]

instance : DecidablePred Retryable := fun _ => decidable_of_iff _ isRetryable_iff

/-- What is read of a body. -/
inductive Arrives : Nat → Option String → String → Prop where
  /-- An answer 204 has no body, whatever is sent behind its head. -/
  | nothing (body : Option String) : Arrives 204 body ""
  /-- A byte order mark in front of a body does not belong to it. -/
  | marked {status : Nat} (hstatus : status ≠ 204) (text : String) :
      Arrives status (some ("\uFEFF" ++ text)) text
  /-- Any other body is the text that it is. -/
  | unmarked {status : Nat} (hstatus : status ≠ 204) {text : String}
      (hplain : ∀ rest, text ≠ "\uFEFF" ++ rest) : Arrives status (some text) text

/-- What a client ends with after its last exchange. -/
inductive Settles (url : String) : Exchange → Except Failure (List Release) → Prop where
  /-- The answer is a catalog. -/
  | listed {status : Nat} {body : Option String} {text : String} {releases : List Release}
      (haccepted : 200 ≤ status ∧ status ≤ 299) (hbody : Arrives status body text)
      (hread : ofText text = .ok releases) : Settles url (.answered status body) (.ok releases)
  /-- The answer is no catalog. -/
  | malformed {status : Nat} {body : Option String} {text : String} {fault : Json.Fault}
      (haccepted : 200 ≤ status ∧ status ≤ 299) (hbody : Arrives status body text)
      (hread : ofText text = .error fault) :
      Settles url (.answered status body) (.error (.document fault))
  /-- The answer breaks off. -/
  | broken {status : Nat} (haccepted : 200 ≤ status ∧ status ≤ 299) (hstatus : status ≠ 204) :
      Settles url (.answered status none) (.error .request)
  /-- The status is a bad one. -/
  | refused {status : Nat} {body : Option String}
      (hrefused : ¬ (200 ≤ status ∧ status ≤ 299)) :
      Settles url (.answered status body) (.error (.status status url))
  /-- There is no answer. -/
  | dropped : Settles url .dropped (.error .request)

/-- A body that has arrived is read without its byte order mark, if it has one. -/
theorem arrives_bodyText {status : Nat} (hstatus : status ≠ 204) (body : String) :
    Arrives status (some body) (bodyText status body) := by
  unfold bodyText
  rw [if_neg hstatus]
  split
  case h_1 rest hmarked =>
    have hbody : body = "\uFEFF" ++ String.ofList rest := by
      apply String.toList_injective
      simp [hmarked]
    rw [hbody]
    exact .marked hstatus _
  case h_2 hunmarked =>
    refine .unmarked hstatus fun rest hrest => hunmarked rest.toList ?_
    rw [hrest, String.toList_append]
    rfl

/-- A document that has arrived is a catalog, or it is not. -/
theorem settles_ofDocument (url : String) {status : Nat} {body : Option String} {text : String}
    (haccepted : 200 ≤ status ∧ status ≤ 299) (hbody : Arrives status body text) :
    Settles url (.answered status body) (ofDocument text) := by
  unfold ofDocument
  split
  case h_1 releases hread => exact .listed haccepted hbody hread
  case h_2 fault hread => exact .malformed haccepted hbody hread

/-- What the program makes of an exchange is what the exchange settles. -/
theorem settles_outcome (url : String) (e : Exchange) : Settles url e (e.outcome url) := by
  cases e with
  | dropped => exact .dropped
  | answered status body =>
    rw [outcome]
    split
    case isFalse hrefused => exact .refused (by simpa [isSuccess] using hrefused)
    case isTrue haccepted =>
      have haccepted : 200 ≤ status ∧ status ≤ 299 := by simpa [isSuccess] using haccepted
      by_cases hstatus : status = 204
      · -- nothing is read, so it makes no difference whether the connection breaks
        subst hstatus
        exact settles_ofDocument url haccepted (.nothing body)
      · rw [if_neg hstatus]
        cases body with
        | none => exact .broken haccepted hstatus
        | some body => exact settles_ofDocument url haccepted (arrives_bodyText hstatus body)

/-- What is worth another try is a failure as long as there is none. -/
theorem Settles.error_of_retryable {url : String} {e : Exchange}
    {result : Except Failure (List Release)} (h : Settles url e result) (hretry : e.Retryable) :
    ∃ failure, result = .error failure := by
  cases h with
  | listed haccepted =>
    -- no accepted status is one to try again
    simp only [Retryable] at hretry
    omega
  | malformed | broken | refused | dropped => exact ⟨_, rfl⟩

end Exchange

namespace Fetch

open Exchange (Retryable Settles)

/-! ## Delays -/

/-- The delay before a retry: doubled so many times, and a minute at most. -/
theorem delay_eq (base attempt : Nat) : delay base attempt =
    if attempt < 32 then min (base * 2 ^ attempt) (60 * second) else 60 * second := by
  unfold delay
  by_cases h : attempt < 32
  · rw [if_pos h, if_neg (Nat.not_le.mpr h)]
    rfl
  · rw [if_neg h, if_pos (Nat.not_lt.mp h)]
    rfl

/-- No delay is longer than a minute. -/
theorem delay_le_maxDelay (base attempt : Nat) : delay base attempt ≤ maxDelay := by
  unfold delay
  split
  case isTrue => exact Nat.le_refl maxDelay
  case isFalse => exact Nat.min_le_right ..

/-- Later retries are not waited for less. -/
theorem delay_mono (base : Nat) {i j : Nat} (h : i ≤ j) : delay base i ≤ delay base j := by
  unfold delay
  by_cases hi : 32 ≤ i
  · have hj : 32 ≤ j := Nat.le_trans hi h
    rw [if_pos hi, if_pos hj]
  · rw [if_neg hi]
    split
    case isTrue => exact Nat.min_le_right ..
    case isFalse =>
      have hpow : Nat.pow 2 i ≤ Nat.pow 2 j := Nat.pow_le_pow_right (by omega) h
      exact min_le_min_right maxDelay (Nat.mul_le_mul_left base hpow)

/-! ## Requests and waits -/

/-- A wait and the request behind it, for each of these retries. -/
def turns (base : Nat) (retries : List Nat) : List Event :=
  retries.flatMap fun i => [.wait (delay base i), .request (i + 1)]

/-- The events up to the request with this number: one wait before each request but the first. -/
def schedule (base last : Nat) : List Event := .request 0 :: turns base (List.range last)

theorem turns_cons (base i : Nat) (retries : List Nat) :
    turns base (i :: retries) =
      .wait (delay base i) :: .request (i + 1) :: turns base retries := rfl

/-- Each retry sends one request. -/
theorem countP_turns (base : Nat) (retries : List Nat) :
    (turns base retries).countP Event.isRequest = retries.length := by
  induction retries with
  | nil => rfl
  | cons i retries ih =>
    rw [turns_cons, List.countP_cons_of_neg (by simp [Event.isRequest]),
      List.countP_cons_of_pos rfl, ih, List.length_cons]

/-- Each retry waits once, and before its request. -/
theorem filterMap_turns (base : Nat) (retries : List Nat) :
    (turns base retries).filterMap Event.delay? = retries.map (delay base) := by
  induction retries with
  | nil => rfl
  | cons i retries ih =>
    simp only [turns_cons, List.filterMap_cons, Event.delay?, ih, List.map_cons]

theorem countP_schedule (base last : Nat) :
    (schedule base last).countP Event.isRequest = last + 1 := by
  rw [schedule, List.countP_cons_of_pos rfl, countP_turns, List.length_range]

theorem filterMap_schedule (base last : Nat) :
    (schedule base last).filterMap Event.delay? = (List.range last).map (delay base) := by
  rw [schedule, List.filterMap_cons_none rfl, filterMap_turns]

/-! ## Fetching -/

/-- One retry: the request, the wait, and the rest of the fetch. -/
theorem runFrom_of_retryable {script : Script} (url : String) (base left : Nat) {sent : Nat}
    (h : (script sent).Retryable) :
    (runFrom script url base (left + 1) sent).events =
        .request sent :: .wait (delay base sent) ::
          (runFrom script url base left (sent + 1)).events ∧
      (runFrom script url base (left + 1) sent).result =
        (runFrom script url base left (sent + 1)).result := by
  rw [runFrom, if_pos (Exchange.isRetryable_iff.mpr h)]
  exact ⟨rfl, rfl⟩

/-- The last request: no retry is left, or the answer settles the fetch. -/
theorem runFrom_of_last {script : Script} (url : String) (base : Nat) {left sent : Nat}
    (h : left = 0 ∨ ¬ (script sent).Retryable) :
    runFrom script url base left sent = ⟨[.request sent], [], (script sent).outcome url⟩ := by
  cases left with
  | zero => rw [runFrom]
  | succ left =>
    have hstop : ¬ (script sent).isRetryable = true := by
      rw [Exchange.isRetryable_iff]
      exact h.resolve_left (Nat.succ_ne_zero left)
    rw [runFrom, if_neg hstop]

/-- **A whole fetch**, by induction on the retries that are left: `last` retries, each of an answer
that is worth one, and then a request that is the last for one of the two reasons. -/
theorem runFrom_eq {script : Script} (url : String) (base : Nat) {left sent last : Nat}
    (hlast : last ≤ left) (hretry : ∀ j < last, (script (sent + j)).Retryable)
    (hstop : last = left ∨ ¬ (script (sent + last)).Retryable) :
    (runFrom script url base left sent).events =
        .request sent :: turns base (List.range' sent last) ∧
      (runFrom script url base left sent).result = (script (sent + last)).outcome url := by
  induction last generalizing left sent with
  | zero =>
    have hstop : left = 0 ∨ ¬ (script sent).Retryable := hstop.imp_left Eq.symm
    rw [runFrom_of_last url base hstop]
    exact ⟨rfl, rfl⟩
  | succ last ih =>
    -- there is a retry left for the first exchange, and the others are one further on in the script
    obtain ⟨left, rfl⟩ : ∃ n, left = n + 1 := ⟨left - 1, by omega⟩
    have hnext (j : Nat) : sent + 1 + j = sent + (j + 1) := by omega
    have hfirst : (script sent).Retryable := hretry 0 (by omega)
    have hothers (j : Nat) (hj : j < last) : (script (sent + 1 + j)).Retryable := by
      rw [hnext]
      exact hretry (j + 1) (by omega)
    have hend : last = left ∨ ¬ (script (sent + 1 + last)).Retryable := by
      rw [hnext]
      exact hstop.imp_left Nat.succ.inj
    obtain ⟨hevents, hresult⟩ := runFrom_of_retryable url base left hfirst
    obtain ⟨ihevents, ihresult⟩ := ih (Nat.le_of_succ_le_succ hlast) hothers hend
    rw [hevents, hresult, ihevents, ihresult, hnext]
    exact ⟨rfl, rfl⟩

/-! ## The fetch of a client -/

/-- What a client did and brought if its last request has the number `last`. -/
structure StopsAt (base : Nat) (url : String) (script : Script) (last : Nat) (t : Transcript) :
    Prop where
  /-- Requests and waits took turns, up to this request. -/
  events : t.events = schedule base last
  /-- So many requests were sent. -/
  requests : t.requests = last + 1
  /-- Before each request but the first it waited once. -/
  delays : t.delays = (List.range last).map (delay base)
  /-- It ends with what the last request came to. -/
  settles : Settles url (script last) t.result

/-- The last request is the one that is not worth another, or the one behind the last retry. -/
theorem stopsAt_run {p : Patience} {script : Script} {url : String} {last : Nat}
    (hlast : last ≤ p.retries) (hretry : ∀ j < last, (script j).Retryable)
    (hstop : last = p.retries ∨ ¬ (script last).Retryable) :
    StopsAt p.base url script last (run p script url) := by
  have hzero (j : Nat) : 0 + j = j := Nat.zero_add j
  obtain ⟨hevents, hresult⟩ := runFrom_eq url p.base hlast (fun j hj => (hzero j).symm ▸ hretry j hj)
    ((hzero last).symm ▸ hstop)
  have hschedule : (run p script url).events = schedule p.base last := by
    rw [run, hevents, schedule, List.range_eq_range']
  refine ⟨hschedule, ?_, ?_, ?_⟩
  · rw [Transcript.requests, hschedule, countP_schedule]
  · rw [Transcript.delays, hschedule, filterMap_schedule]
  · rw [run, hresult, hzero]
    exact Exchange.settles_outcome url _

/-- Every fetch has a last request, whose number is at most that of the retries. -/
theorem exists_stopsAt_le (p : Patience) (script : Script) (url : String) :
    ∃ last ≤ p.retries, StopsAt p.base url script last (run p script url) := by
  by_cases h : ∃ k, k ≤ p.retries ∧ ¬ (script k).Retryable
  · -- the first that is not worth another one
    obtain ⟨hle, hstop⟩ := Nat.find_spec h
    refine ⟨Nat.find h, hle, stopsAt_run hle (fun j hj => ?_) (.inr hstop)⟩
    by_contra hj'
    exact Nat.find_min h hj ⟨by omega, hj'⟩
  · -- none of them is, so the retries are used up
    refine ⟨p.retries, Nat.le_refl _, stopsAt_run (Nat.le_refl _) (fun j hj => ?_) (.inl rfl)⟩
    by_contra hj'
    exact h ⟨j, by omega, hj'⟩

theorem exists_stopsAt_run (p : Patience) (script : Script) (url : String) :
    ∃ last, StopsAt p.base url script last (run p script url) := by
  obtain ⟨last, -, hstops⟩ := exists_stopsAt_le p script url
  exact ⟨last, hstops⟩

theorem StopsAt.delays_ascending {base last : Nat} {url : String} {script : Script}
    {t : Transcript} (h : StopsAt base url script last t) : t.delays.Pairwise (· ≤ ·) := by
  rw [h.delays, List.pairwise_map]
  exact List.pairwise_le_range.imp (delay_mono base)

theorem StopsAt.delays_le_maxDelay {base last : Nat} {url : String} {script : Script}
    {t : Transcript} (h : StopsAt base url script last t) : ∀ d ∈ t.delays, d ≤ maxDelay := by
  intro d hd
  rw [h.delays] at hd
  obtain ⟨i, -, rfl⟩ := List.mem_map.mp hd
  exact delay_le_maxDelay base i

/-- **When a client stops.**  Let `n` be the number of its retries.  If the first request that is not
worth another one has a number up to `n`, that request is the last; if there is none, request `n` is,
and the fetch fails.  In both cases there is one wait before each request but the first, and the
outcome is what the last request came to: of an accepted answer the catalog that its body is read as,
or what is wrong with this; the status and the URL of another answer; or a failed request if there was
no answer or none that could be read.  The delay before retry `i` is the base doubled `i` times, and
at most a minute; the delays never decrease. -/
theorem stops_run (p : Patience) (script : Script) (url : String) :
    (∀ k ≤ p.retries, (∀ j < k, (script j).Retryable) → ¬ (script k).Retryable →
      StopsAt p.base url script k (run p script url)) ∧
    ((∀ k ≤ p.retries, (script k).Retryable) →
      StopsAt p.base url script p.retries (run p script url) ∧
        ∃ failure, (run p script url).result = .error failure) ∧
    (∀ i, delay p.base i = if i < 32 then min (p.base * 2 ^ i) (60 * second) else 60 * second) ∧
    (run p script url).delays.Pairwise (· ≤ ·) ∧
    ∀ d ∈ (run p script url).delays, d ≤ 60 * second := by
  obtain ⟨last, hstops⟩ := exists_stopsAt_run p script url
  refine ⟨fun k hk hretry hstop => stopsAt_run hk hretry (.inr hstop), fun hall => ?_,
    delay_eq p.base, hstops.delays_ascending, hstops.delays_le_maxDelay⟩
  have hexhausted : StopsAt p.base url script p.retries (run p script url) :=
    stopsAt_run (Nat.le_refl _) (fun j hj => hall j (Nat.le_of_lt hj)) (.inl rfl)
  exact ⟨hexhausted, hexhausted.settles.error_of_retryable (hall p.retries (Nat.le_refl _))⟩

/-- A status 503, a lost connection, then a catalog behind a byte order mark; and a server that is
never reached. -/
theorem stops_run_third :
    let script : Script := fun k =>
      if k = 0 then .answered 503 (some "")
      else if k = 1 then .dropped
      else .answered 200 (some "\uFEFF[]")
    let silent : Script := fun _ => .dropped
    (2 ≤ 3 ∧ (∀ j < 2, (script j).Retryable) ∧ ¬ (script 2).Retryable ∧
      StopsAt second "http://localhost/" script 2 (run .default script "http://localhost/")) ∧
    (∀ k ≤ 3, (silent k).Retryable) ∧
      StopsAt second "http://localhost/" silent 3 (run .default silent "http://localhost/") := by
  intro script silent
  have hretry : ∀ j < 2, (script j).Retryable := by decide
  have hstop : ¬ (script 2).Retryable := by decide
  have hall : ∀ k ≤ 3, (silent k).Retryable := fun _ _ => trivial
  exact ⟨⟨by decide, hretry, hstop, (stops_run .default script _).1 2 (by decide) hretry hstop⟩,
    hall, ((stops_run .default silent _).2.1 hall).1⟩

end Fetch
end ReleaseMatrix.Catalog
