import FiveNinesEcho.Handoff
import Mathlib.Algebra.Group.Nat.Defs

/-!
# The control link of a worker role (`supervisor/control.rs`)

One `WorkerLink` per role (`control.rs:115-134` for what workers report), shared under a lock by the
connections a role's workers open, the admin and metrics queries and the role's supervisor. Each
operation here is one critical section.
-/

namespace FiveNinesEcho.Supervisor
open Handoff

structure RateLimiterStats where
  trackedIps : ℕ
  idleEvictions : ℕ
  lruEvictions : ℕ
  capRefused : ℕ
  deriving Repr, DecidableEq

structure WorkerStatus where
  role : String
  pid : Pid
  generation : ℕ
  startedAtUnixMs : ℕ
  inFlight : ℕ
  listenerAddr : Option String
  rateLimiterStats : Option RateLimiterStats
  deriving Repr, DecidableEq

/-- `WorkerLink` (`supervisor/control.rs:15-32`). `writer` names the connection the write half
belongs to by the epoch it was accepted at, `pendingStatus` the query whose sender is in the
slot. -/
structure WorkerLink (ι : Type) where
  writer : Option ℕ
  pendingStatus : Option ι
  lastGeneration : Option ℕ
  lastPid : Option Pid
  connEpoch : ℕ
  deriving Repr, DecidableEq

variable {ι : Type}

def WorkerLink.default : WorkerLink ι := ⟨none, none, none, none, 0⟩

def WorkerLink.accept (l : WorkerLink ι) : WorkerLink ι :=
  { l with connEpoch := (l.connEpoch + 1) % 2 ^ 64, writer := some ((l.connEpoch + 1) % 2 ^ 64) }

/-- A `StatusReport` arrives on any connection (`supervisor/control.rs:79-86`); the query it
answers is the one whose sender was in the slot. -/
def WorkerLink.statusReport (l : WorkerLink ι) (st : WorkerStatus) : WorkerLink ι :=
  { l with lastGeneration := some st.generation, lastPid := some st.pid, pendingStatus := none }

/-- The reader of the connection of that epoch ends (`supervisor/control.rs:96-103`). -/
def WorkerLink.disconnect (l : WorkerLink ι) (myEpoch : ℕ) : WorkerLink ι :=
  if l.connEpoch = myEpoch then
    { l with writer := none, lastGeneration := none, lastPid := none }
  else l

/-- The request half of `query_status` (`supervisor/control.rs:118-124`): nothing without a
connection. -/
def WorkerLink.request (l : WorkerLink ι) (i : ι) : Option (WorkerLink ι) :=
  if l.writer.isSome then some { l with pendingStatus := some i } else none

def WorkerLink.clearPending (l : WorkerLink ι) : WorkerLink ι := { l with pendingStatus := none }

/-- The critical section of `send_upgrade` and `send_shutdown` (`supervisor/control.rs:165-173`,
`supervisor/control.rs:184-192`). -/
def WorkerLink.takeWriter (l : WorkerLink ι) : WorkerLink ι :=
  { l with pendingStatus := none, writer := none }

end FiveNinesEcho.Supervisor
