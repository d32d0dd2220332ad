/-
  Fetching a catalog from its service, with retries.

  A *script* says what comes of the k-th request, counted from 0.  It stands for the network and for
  the HTTP client over it, so it also decides whether a request for some URL can be sent at all: one
  that cannot be sent is one without an answer.  A request is worth another try if there is no
  answer, or if its status is 429 or 5xx; any other answer settles the fetch.  Before the i-th retry
  the client waits for the base delay times 2^i, and for a minute at most.  A body that breaks off is
  not asked for again.

  1. **Delays** — `Fetch.delay`.
  2. **Fetching** — `Fetch.run`, whose transcript also tells the requests and the delays in the order
     in which they came.
-/
import ReleaseMatrix.Catalog.Load

namespace ReleaseMatrix.Catalog

/-- What comes of a request. -/
inductive Exchange where
  /-- There is no answer: the request could not be sent, or the connection was closed before one. -/
  | dropped
  /-- An answer; its body is missing if the connection breaks within it. -/
  | answered (status : Nat) (body : Option String)
deriving DecidableEq, Repr

/-- What comes of each request. -/
abbrev Script := Nat → Exchange

namespace Exchange

/-- The service accepted the request. -/
def isSuccess (status : Nat) : Bool := 200 ≤ status && status ≤ 299

/-- Another try may turn out better. -/
def isRetryable : Exchange → Bool
  | dropped => true
  | answered status _ => status == 429 || (500 ≤ status && status ≤ 599)

/-- The body as text: an answer 204 has none, and a byte order mark does not belong to it. -/
def bodyText (status : Nat) (body : String) : String :=
  if status = 204 then ""
  else
    match body.toList with
    | '\uFEFF' :: rest => String.ofList rest
    | _ => body

/-- What an exchange with this URL settles. -/
def outcome (url : String) : Exchange → Except Failure (List Release)
  | dropped => .error .request
  | answered status body =>
    if isSuccess status then
      match (if status = 204 then some "" else body) with
      | none => .error .request
      | some body => ofDocument (bodyText status body)
    else .error (.status status url)

end Exchange

namespace Fetch

/-- How often and how patiently a client retries. -/
structure Patience where
  /-- The most retries. -/
  retries : Nat
  /-- The delay before the first of them, in nanoseconds. -/
  base : Nat
deriving DecidableEq, Repr

/-- A second, in nanoseconds. -/
def second : Nat := 1000000000

/-- Three retries, the first after a second. -/
def Patience.default : Patience := ⟨3, second⟩

/-! ## Delays -/

/-- The longest delay: a minute. -/
def maxDelay : Nat := 60 * second

/-- The delay before the retry with this number.  From 2^32 on a factor is out of reach, and the
delay is the longest whatever the base. -/
def delay (base attempt : Nat) : Nat :=
  if 32 ≤ attempt then maxDelay else min (base * Nat.pow 2 attempt) maxDelay

/-! ## Fetching -/

/-- What a client does on its way. -/
inductive Event where
  /-- It sends the request with this number. -/
  | request (number : Nat)
  /-- It waits, so many nanoseconds. -/
  | wait (nanos : Nat)
deriving DecidableEq, Repr

namespace Event

/-- It is a request. -/
def isRequest : Event → Bool
  | request _ => true
  | wait _ => false

/-- How long it takes, if it is a wait. -/
def delay? : Event → Option Nat
  | request _ => none
  | wait nanos => some nanos

end Event

/-- What a fetch did and brought. -/
structure Transcript where
  /-- Requests and waits, in the order in which they came. -/
  events : List Event
  /-- The failures that were retried. -/
  retried : List Failure
  result : Except Failure (List Release)

namespace Transcript

/-- How many requests were sent. -/
def requests (t : Transcript) : Nat := t.events.countP Event.isRequest

/-- The delays before the retries. -/
def delays (t : Transcript) : List Nat := t.events.filterMap Event.delay?

end Transcript

/-- The failure that a retry follows. -/
def failureOf (r : Except Failure (List Release)) : List Failure :=
  match r with
  | .error e => [e]
  | .ok _ => []

/-- The rest of a fetch after some requests, with so many retries left. -/
def runFrom (script : Script) (url : String) (base : Nat) : Nat → Nat → Transcript
  | left, sent =>
    let answer := script sent
    let result := answer.outcome url
    match left with
    | 0 => ⟨[.request sent], [], result⟩
    | left + 1 =>
      if answer.isRetryable then
        let more := runFrom script url base left (sent + 1)
        { more with
          events := .request sent :: .wait (delay base sent) :: more.events
          retried := failureOf result ++ more.retried }
      else ⟨[.request sent], [], result⟩

/-- **Fetching** the catalog at a URL. -/
def run (p : Patience) (script : Script) (url : String) : Transcript :=
  runFrom script url p.base p.retries 0

end Fetch
end ReleaseMatrix.Catalog
