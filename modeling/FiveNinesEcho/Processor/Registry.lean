import FiveNinesEcho.Handoff

/-!
# The session registry (`processor.rs:40-55`) and its way through an upgrade

Draining the registry into records, adopting records in the next image and re-adopting them after a
rollback. A registered session is given by what its task holds; what each system call on its
descriptor answers is an input.
-/

namespace FiveNinesEcho.Processor
open Handoff

structure SessionMetadata where
  peer : String
  ident : Option String
  traceId : String
  deriving Repr, DecidableEq

structure SessionHandle where
  udsFd : Fd
  unread : Bytes
  unsent : Bytes
  linesEchoed : ℕ
  connectedAtUnixMs : ℕ
  peer : String
  traceId : String
  deriving Repr, DecidableEq

/-- `SessionRegistry`; the list order of `sessions` stands for the map's iteration order. -/
structure Registry where
  nextId : ℕ
  sessions : List (ℕ × SessionHandle)
  metadata : String → Option SessionMetadata

def Registry.spawnSession (r : Registry) (h : SessionHandle) : Registry :=
  { r with nextId := r.nextId + 1, sessions := r.sessions ++ [(r.nextId, h)] }

structure Worker where
  listener : Option Fd
  registry : Registry
  fds : FdTable

/-! ### Draining (`processor.rs:389-403`, `processor/upgrade.rs:398-467`) -/

/-- How the task of a session reacts to its cancel: it has ended, it cannot give up its stream, or
it sends its record. -/
inductive TaskEnd where
  | ended
  | intoStd
  | sends
  deriving Repr, DecidableEq

inductive Reconstruct where
  | ok
  | setNonblocking
  | fromStd
  deriving Repr, DecidableEq

structure SessionEnv where
  task : TaskEnd
  clearCloexec : Fcntl
  reconstruct : Reconstruct
  deriving Repr, DecidableEq

def SessionHandle.record (h : SessionHandle) : SessionHandoff :=
  { udsFd := h.udsFd
    transport := .uds
    partialLineBytes := h.unread
    pendingWriteBytes := h.unsent
    linesEchoed := h.linesEchoed
    connectedAtUnixMs := h.connectedAtUnixMs
    peer := h.peer
    ident := none
    traceId := h.traceId
    version := schemaVersion }

def enrichHandoff (metadata : String → Option SessionMetadata) (h : SessionHandoff) :
    SessionHandoff :=
  match metadata h.peer with
  | some m => { h with ident := m.ident }
  | none => h

/-- `await_session_handoff` on one session (`processor/upgrade.rs:414-457`). A stream whose
`into_std` fails is dropped, and closed, by the task. -/
def awaitSessionHandoff (env : SessionEnv) (t : FdTable) (h : SessionHandle) :
    FdTable × Option SessionHandoff :=
  match env.task with
  | .ended => (t, none)
  | .intoStd => (t.close h.udsFd, none)
  | .sends =>
    if env.clearCloexec = .ok then (t.setFlag h.udsFd false .ok, some h.record)
    else (t.close h.udsFd, none)

def drainLoop (env : Fd → SessionEnv) (metadata : String → Option SessionMetadata) :
    FdTable → List (ℕ × SessionHandle) → FdTable × List SessionHandoff
  | t, [] => (t, [])
  | t, (_, h) :: hs =>
    let (t', r) := awaitSessionHandoff (env h.udsFd) t h
    let (t'', rs) := drainLoop env metadata t' hs
    (t'', (r.map (enrichHandoff metadata)).toList ++ rs)

/-- `drain_session_handoffs` (`processor/upgrade.rs:398-412`): the registry is taken, the metadata
kept. -/
def drainSessionHandoffs (env : Fd → SessionEnv) (w : Worker) : Worker × List SessionHandoff :=
  let (t, hs) := drainLoop env w.registry.metadata w.fds w.registry.sessions
  ({ w with registry := { w.registry with sessions := [] }, fds := t }, hs)

/-! ### Adopting (`processor/upgrade.rs:109-159`, `processor/upgrade.rs:470-514`) -/

def handleOf (h : SessionHandoff) : SessionHandle :=
  { udsFd := h.udsFd
    unread := h.partialLineBytes
    unsent := h.pendingWriteBytes
    linesEchoed := h.linesEchoed
    connectedAtUnixMs := h.connectedAtUnixMs
    peer := h.peer
    traceId := h.traceId }

def Registry.stash (r : Registry) (h : SessionHandoff) : Registry :=
  match h.ident with
  | some i => { r with metadata := Function.update r.metadata h.peer (some ⟨h.peer, some i, h.traceId⟩) }
  | none => r

/-- `reconstruct_uds` (`processor/upgrade.rs:244-250`): from its first line on the stream object
owns the descriptor, so a failure of either call drops, and closes, it. -/
def reconstructUds (t : FdTable) (fd : Fd) : Reconstruct → FdTable × Bool
  | .ok => (t, true)
  | .setNonblocking | .fromStd => (t.close fd, false)

/-- The body of the loops of `adopt_inflight_sessions` (`processor/upgrade.rs:109-159`) and
`readopt_sessions` (`processor/upgrade.rs:472-513`). -/
def Worker.takeOver (env : Fd → SessionEnv) (w : Worker) (h : SessionHandoff) : Worker :=
  let w := { w with registry := w.registry.stash h }
  match h.transport with
  | .tcp => { w with fds := w.fds.close h.udsFd }
  | .uds =>
    match reconstructUds w.fds h.udsFd (env h.udsFd).reconstruct with
    | (t, true) => { w with registry := w.registry.spawnSession (handleOf h), fds := t }
    | (t, false) => { w with fds := t.close h.udsFd }

def adoptInflightSessions (env : Fd → SessionEnv) (w : Worker) (payload : List SessionHandoff) :
    Worker :=
  (payload.filter fun h => isSchemaCompatible h.version).foldl (Worker.takeOver env) w

def readoptSessions (env : Fd → SessionEnv) (w : Worker) (handoffs : List SessionHandoff) :
    Worker :=
  handoffs.foldl (Worker.takeOver env) w

/-! ### What is left in the registry -/

def Registry.handles (r : Registry) : List SessionHandle := r.sessions.map Prod.snd

def resumes (env : Fd → SessionEnv) (h : SessionHandoff) : Bool :=
  h.transport = .uds && (env h.udsFd).reconstruct = .ok

def drains (env : Fd → SessionEnv) (h : SessionHandle) : Bool :=
  (env h.udsFd).task = .sends && (env h.udsFd).clearCloexec = .ok

@[simp] theorem Registry.stash_sessions (r : Registry) (h : SessionHandoff) :
    (r.stash h).sessions = r.sessions := by
  cases hi : h.ident <;> simp [Registry.stash, hi]

theorem takeOver_handles (env : Fd → SessionEnv) (w : Worker) (h : SessionHandoff) :
    (w.takeOver env h).registry.handles =
      w.registry.handles ++ if resumes env h then [handleOf h] else [] := by
  cases ht : h.transport with
  | tcp => simp [Worker.takeOver, ht, Registry.handles, resumes]
  | uds =>
    cases hr : (env h.udsFd).reconstruct <;>
      simp [Worker.takeOver, ht, hr, reconstructUds, Registry.handles, resumes,
        Registry.spawnSession]

theorem readopt_handles (env : Fd → SessionEnv) (w : Worker) (hs : List SessionHandoff) :
    (readoptSessions env w hs).registry.handles =
      w.registry.handles ++ (hs.filter (resumes env)).map handleOf := by
  induction hs generalizing w with
  | nil => simp [readoptSessions]
  | cons h hs ih =>
    have hcons : readoptSessions env w (h :: hs) = readoptSessions env (w.takeOver env h) hs := rfl
    rw [hcons, ih, takeOver_handles]
    cases hr : resumes env h <;> simp [hr]

theorem enrichHandoff_same (metadata : String → Option SessionMetadata) (h : SessionHandoff) :
    handleOf (enrichHandoff metadata h) = handleOf h ∧
    (enrichHandoff metadata h).transport = h.transport ∧
    (enrichHandoff metadata h).udsFd = h.udsFd := by
  cases hm : metadata h.peer <;> simp [enrichHandoff, hm, handleOf]

theorem drainLoop_records (env : Fd → SessionEnv) (metadata : String → Option SessionMetadata)
    (t : FdTable) (hs : List (ℕ × SessionHandle)) :
    ((drainLoop env metadata t hs).2.filter (resumes env)).map handleOf =
      (hs.map Prod.snd).filter fun h =>
        drains env h && (env h.udsFd).reconstruct = .ok := by
  induction hs generalizing t with
  | nil => rfl
  | cons p hs ih =>
    obtain ⟨id, h⟩ := p
    obtain ⟨hsame, htr, hfd⟩ := enrichHandoff_same metadata h.record
    have hres : resumes env (enrichHandoff metadata h.record) =
        decide ((env h.udsFd).reconstruct = .ok) := by
      rw [resumes, htr, hfd]
      rfl
    have hback : handleOf h.record = h := rfl
    simp only [drainLoop, List.map_cons, List.filter_append, List.map_append, ih]
    cases ht : (env h.udsFd).task with
    | ended => simp [awaitSessionHandoff, ht, drains]
    | intoStd => simp [awaitSessionHandoff, ht, drains]
    | sends =>
      by_cases hc : (env h.udsFd).clearCloexec = .ok
      · by_cases hr : (env h.udsFd).reconstruct = .ok <;>
          simp [awaitSessionHandoff, ht, hc, hr, drains, hres, hsame, hback]
      · simp [awaitSessionHandoff, ht, hc, drains]

end FiveNinesEcho.Processor
