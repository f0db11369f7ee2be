import FiveNinesEcho.Lib.Exec
import FiveNinesEcho.Processor.Registry
import Mathlib.Data.List.Nodup

/-!
# The registry while sessions come and go (`processor.rs:321-414`, `processor/sidecar.rs`)

The sessions of a processor and the metadata the scanner publishes for their peers, moved by all who
take the registry's lock: the detached tasks that start sessions, the session tasks as they end, the
sidecar, the upgrade that takes the sessions out, and the loop that puts records back in, at startup
and after a rollback. Each step is one critical section. A session is known by its descriptor and
its peer, which it keeps through a rollback; its number in the map it does not keep.
-/

namespace FiveNinesEcho.Processor
open Lib Handoff

/-! ### What is done under the lock -/

/-- `store_metadata_if_session_active` (`processor/sidecar.rs:44-50`). -/
def storeMetadataIfSessionActive (r : Registry) (m : SessionMetadata) : Registry × Bool :=
  let active := r.sessions.any fun e => e.2.peer = m.peer
  (if active then { r with metadata := Function.update r.metadata m.peer (some m) } else r, active)

def SessionHandle.isNot (fd : Fd) (peer : String) (h : SessionHandle) : Bool :=
  ¬ (h.udsFd = fd ∧ h.peer = peer)

def Registry.remove (r : Registry) (fd : Fd) (peer : String) : Registry :=
  { r with sessions := r.sessions.filter fun e => e.2.isNot fd peer }

/-- The end of `echo_loop` (`processor.rs:376-384`). A session that a drain has taken out of the map
looks for its peer among those that are in it. -/
def Registry.endSession (r : Registry) (fd : Fd) (peer : String) : Registry :=
  let r := r.remove fd peer
  if r.sessions.any fun e => e.2.peer = peer then r
  else { r with metadata := Function.update r.metadata peer none }

def SessionHandle.progress (fd : Fd) (unread unsent : Bytes) (linesEchoed : ℕ) (h : SessionHandle) :
    SessionHandle :=
  if h.udsFd = fd then
    { h with unread := unread, unsent := unsent, linesEchoed := linesEchoed }
  else h

/-! ### The processor -/

/-- Where the main task is: putting records into the registry, the metadata of the first one being
in already or not; in its accept loop; in the drain; waiting for the child; gone. -/
inductive HostPhase where
  | takingOver (stashed : Bool)
  | serving
  | draining
  | awaiting
  | exited
  deriving Repr, DecidableEq

/-- `pending` are the sessions the drain has taken and not awaited, `snapshot` the metadata it took
with them, `records` what it has awaited and what is to be put back; `flushing` the sessions that
came in with unsent bytes and have not flushed them. -/
structure Host where
  phase : HostPhase
  registry : Registry
  pending : List (ℕ × SessionHandle)
  snapshot : String → Option SessionMetadata
  records : List SessionHandoff
  flushing : List Fd

def Host.live (s : Host) : List SessionHandle := s.registry.handles ++ s.pending.map Prod.snd

/-- All that holds on to a session: the registry, the drain, the records. -/
def Host.holders (s : Host) : List SessionHandle := s.live ++ s.records.map handleOf

inductive HostAct where
  | start (h : SessionHandle)
  | work (fd : Fd) (unread unsent : Bytes) (linesEchoed : ℕ)
  | flushed (fd : Fd)
  | flushFails (fd : Fd) (peer : String)
  | finish (fd : Fd) (peer : String)
  | frame (m : SessionMetadata)
  | takeRegistry
  | handoff (ok : Bool)
  | spawn
  | commit
  | rollback
  | stash
  | takeOver (ok : Bool)
  | resume
  deriving Repr, DecidableEq

def Host.isLive (s : Host) (fd : Fd) (peer : String) : Bool :=
  s.live.any fun h => !h.isNot fd peer

def Host.dropPending (s : Host) (fd : Fd) (peer : String) : List (ℕ × SessionHandle) :=
  s.pending.filter fun e => e.2.isNot fd peer

/-- One critical section. `handoff ok` is the drain awaiting its next session, which takes its cancel
only once it has flushed what it came in with; it fails with `into_std` or `clear_cloexec`
(`processor/upgrade.rs:414-457`). `takeOver ok` is the rest of the loop body behind the metadata,
`ok` what `reconstruct_uds` answers. -/
def Host.move (s : Host) : HostAct → Option Host
  | .start h =>
    if h.udsFd ∉ s.holders.map (·.udsFd) ∧ h.unsent = [] ∧ h.linesEchoed = 0 then
      some { s with registry := s.registry.spawnSession h }
    else none
  | .work fd unread unsent n =>
    if fd ∈ s.live.map (·.udsFd) then
      some { s with
        registry := { s.registry with
          sessions := s.registry.sessions.map fun e => (e.1, e.2.progress fd unread unsent n) }
        pending := s.pending.map fun e => (e.1, e.2.progress fd unread unsent n) }
    else none
  | .flushed fd =>
    if fd ∈ s.flushing then some { s with flushing := s.flushing.filter (· ≠ fd) } else none
  | .flushFails fd peer =>
    if s.isLive fd peer = true ∧ fd ∈ s.flushing then
      some { s with
        registry := s.registry.remove fd peer
        pending := s.dropPending fd peer
        flushing := s.flushing.filter (· ≠ fd) }
    else none
  | .finish fd peer =>
    if s.isLive fd peer = true ∧ fd ∉ s.flushing then
      some { s with registry := s.registry.endSession fd peer, pending := s.dropPending fd peer }
    else none
  | .frame m => some { s with registry := (storeMetadataIfSessionActive s.registry m).1 }
  | .takeRegistry =>
    if s.phase = .serving then
      some { s with
        phase := .draining
        registry := { s.registry with sessions := [] }
        pending := s.registry.sessions
        snapshot := s.registry.metadata }
    else none
  | .handoff ok => match s.phase, s.pending with
    | .draining, (_, h) :: rest =>
      if h.udsFd ∈ s.flushing then none
      else some { s with
        pending := rest
        records := if ok then s.records ++ [enrichHandoff s.snapshot h.record] else s.records }
    | _, _ => none
  | .spawn => if s.phase = .draining ∧ s.pending = [] then some { s with phase := .awaiting } else none
  | .commit => if s.phase = .awaiting then some { s with phase := .exited } else none
  | .rollback => if s.phase = .awaiting then some { s with phase := .takingOver false } else none
  | .stash => match s.phase, s.records with
    | .takingOver false, h :: _ =>
      some { s with phase := .takingOver true, registry := s.registry.stash h }
    | _, _ => none
  | .takeOver ok => match s.phase, s.records with
    | .takingOver true, h :: rest =>
      if ok = true ∧ h.transport = .uds then
        some { s with
          phase := .takingOver false
          records := rest
          registry := s.registry.spawnSession (handleOf h)
          flushing := if h.pendingWriteBytes = [] then s.flushing else s.flushing ++ [h.udsFd] }
      else some { s with phase := .takingOver false, records := rest }
    | _, _ => none
  | .resume =>
    if s.phase = .takingOver false ∧ s.records = [] then some { s with phase := .serving } else none

def Host.step (s : Host) (a : HostAct) : Option Host :=
  if s.phase = .exited then none else s.move a

/-- A processor as it starts: `adopt_inflight_sessions` with the records of its own schema
(`processor/upgrade.rs:82-103`). -/
def Host.boot (payload : List SessionHandoff) : Host :=
  { phase := .takingOver false
    registry := ⟨0, [], fun _ => none⟩
    pending := []
    snapshot := fun _ => none
    records := payload.filter fun h => isSchemaCompatible h.version
    flushing := [] }

/-! ### Their effect on the sessions and on the metadata -/

theorem storeMetadata_sessions (r : Registry) (m : SessionMetadata) :
    (storeMetadataIfSessionActive r m).1.sessions = r.sessions := by
  unfold storeMetadataIfSessionActive
  dsimp only
  split <;> rfl

theorem endSession_sessions (r : Registry) (fd : Fd) (peer : String) :
    (r.endSession fd peer).sessions = (r.remove fd peer).sessions := by
  unfold Registry.endSession
  dsimp only
  split <;> rfl

theorem remove_handles (r : Registry) (fd : Fd) (peer : String) :
    (r.remove fd peer).handles = r.handles.filter (·.isNot fd peer) := by
  simp only [Registry.handles, Registry.remove, List.filter_map]
  rfl

theorem dropPending_handles (s : Host) (fd : Fd) (peer : String) :
    (s.dropPending fd peer).map Prod.snd = (s.pending.map Prod.snd).filter (·.isNot fd peer) := by
  simp only [Host.dropPending, List.filter_map]
  rfl

theorem spawnSession_handles (r : Registry) (h : SessionHandle) :
    (r.spawnSession h).handles = r.handles ++ [h] := by
  simp [Registry.handles, Registry.spawnSession]

theorem progress_peer (fd : Fd) (unread unsent : Bytes) (n : ℕ) (h : SessionHandle) :
    (h.progress fd unread unsent n).peer = h.peer := by
  unfold SessionHandle.progress
  split <;> rfl

theorem stash_handles (r : Registry) (h : SessionHandoff) : (r.stash h).handles = r.handles := by
  simp only [Registry.handles, Registry.stash_sessions]

/-! ### What a step can do -/

inductive HostMove (s : Host) : HostAct → Host → Prop where
  | start (h : SessionHandle) (hfresh : h.udsFd ∉ s.holders.map (·.udsFd)) :
      HostMove s (.start h) { s with registry := s.registry.spawnSession h }
  | work (fd : Fd) (unread unsent : Bytes) (n : ℕ) (hlive : fd ∈ s.live.map (·.udsFd)) :
      HostMove s (.work fd unread unsent n) { s with
        registry := { s.registry with
          sessions := s.registry.sessions.map fun e => (e.1, e.2.progress fd unread unsent n) }
        pending := s.pending.map fun e => (e.1, e.2.progress fd unread unsent n) }
  | flushed (fd : Fd) :
      HostMove s (.flushed fd) { s with flushing := s.flushing.filter (· ≠ fd) }
  | flushFails (fd : Fd) (peer : String) (hlive : s.isLive fd peer = true) :
      HostMove s (.flushFails fd peer) { s with
        registry := s.registry.remove fd peer
        pending := s.dropPending fd peer
        flushing := s.flushing.filter (· ≠ fd) }
  | finish (fd : Fd) (peer : String) (hlive : s.isLive fd peer = true) :
      HostMove s (.finish fd peer)
        { s with registry := s.registry.endSession fd peer, pending := s.dropPending fd peer }
  | frame (m : SessionMetadata) :
      HostMove s (.frame m) { s with registry := (storeMetadataIfSessionActive s.registry m).1 }
  | takeRegistry (hp : s.phase = .serving) :
      HostMove s .takeRegistry { s with
        phase := .draining
        registry := { s.registry with sessions := [] }
        pending := s.registry.sessions
        snapshot := s.registry.metadata }
  | handed (id : ℕ) (h : SessionHandle) (rest : List (ℕ × SessionHandle))
      (hp : s.phase = .draining) (hpend : s.pending = (id, h) :: rest) :
      HostMove s (.handoff true)
        { s with pending := rest, records := s.records ++ [enrichHandoff s.snapshot h.record] }
  | dropped (id : ℕ) (h : SessionHandle) (rest : List (ℕ × SessionHandle))
      (hp : s.phase = .draining) (hpend : s.pending = (id, h) :: rest) :
      HostMove s (.handoff false) { s with pending := rest }
  | stash (h : SessionHandoff) (rest : List SessionHandoff)
      (hp : s.phase = .takingOver false) (hrec : s.records = h :: rest) :
      HostMove s .stash { s with phase := .takingOver true, registry := s.registry.stash h }
  | taken (h : SessionHandoff) (rest : List SessionHandoff) (flushing : List Fd)
      (hp : s.phase = .takingOver true) (hrec : s.records = h :: rest) (huds : h.transport = .uds) :
      HostMove s (.takeOver true) { s with
        phase := .takingOver false
        records := rest
        registry := s.registry.spawnSession (handleOf h)
        flushing := flushing }
  | declined (ok : Bool) (h : SessionHandoff) (rest : List SessionHandoff)
      (hp : s.phase = .takingOver true) (hrec : s.records = h :: rest)
      (hbad : ¬ (ok = true ∧ h.transport = .uds)) :
      HostMove s (.takeOver ok) { s with phase := .takingOver false, records := rest }
  | turn (a : HostAct) (p : HostPhase) (ha : a = .spawn ∨ a = .commit ∨ a = .rollback ∨ a = .resume)
      (hdone : p ≠ .draining ∧ s.phase ≠ .serving)
      (hpend : s.phase = .draining → s.pending = []) (hrec : p = .serving → s.records = []) :
      HostMove s a { s with phase := p }

theorem Host.step_cases {s t : Host} {a : HostAct} (h : s.step a = some t) : HostMove s a t := by
  simp only [Host.step, Option.ite_none_left_eq_some] at h
  obtain ⟨-, h⟩ := h
  cases a with
  | start x =>
    simp only [Host.move, Option.ite_none_right_eq_some, Option.some.injEq] at h
    obtain ⟨⟨hfresh, -⟩, rfl⟩ := h
    exact .start x hfresh
  | work fd unread unsent n =>
    simp only [Host.move, Option.ite_none_right_eq_some, Option.some.injEq] at h
    obtain ⟨hlive, rfl⟩ := h
    exact .work fd unread unsent n hlive
  | flushed fd =>
    simp only [Host.move, Option.ite_none_right_eq_some, Option.some.injEq] at h
    obtain ⟨-, rfl⟩ := h
    exact .flushed fd
  | flushFails fd peer =>
    simp only [Host.move, Option.ite_none_right_eq_some, Option.some.injEq] at h
    obtain ⟨⟨hlive, -⟩, rfl⟩ := h
    exact .flushFails fd peer hlive
  | finish fd peer =>
    simp only [Host.move, Option.ite_none_right_eq_some, Option.some.injEq] at h
    obtain ⟨⟨hlive, -⟩, rfl⟩ := h
    exact .finish fd peer hlive
  | frame m =>
    simp only [Host.move, Option.some.injEq] at h
    subst h
    exact .frame m
  | takeRegistry =>
    simp only [Host.move, Option.ite_none_right_eq_some, Option.some.injEq] at h
    obtain ⟨hp, rfl⟩ := h
    exact .takeRegistry hp
  | handoff ok =>
    simp only [Host.move] at h
    split at h
    case h_1 id x rest hp hpend =>
      simp only [Option.ite_none_left_eq_some, Option.some.injEq] at h
      obtain ⟨-, rfl⟩ := h
      cases ok with
      | true => exact .handed id x rest hp hpend
      | false => exact .dropped id x rest hp hpend
    case h_2 => cases h
  | spawn =>
    simp only [Host.move, Option.ite_none_right_eq_some, Option.some.injEq] at h
    obtain ⟨⟨hp, hpend⟩, rfl⟩ := h
    exact .turn _ _ (by simp) (by simp [hp]) (fun _ => hpend) (by simp)
  | commit | rollback =>
    simp only [Host.move, Option.ite_none_right_eq_some, Option.some.injEq] at h
    obtain ⟨hp, rfl⟩ := h
    exact .turn _ _ (by simp) (by simp [hp]) (by simp [hp]) (by simp)
  | stash =>
    simp only [Host.move] at h
    split at h
    case h_1 x rest hp hrec =>
      cases h
      exact .stash x rest hp hrec
    case h_2 => cases h
  | takeOver ok =>
    simp only [Host.move] at h
    split at h
    case h_1 x rest hp hrec =>
      split at h
      · next hok =>
        cases h
        obtain ⟨rfl, huds⟩ := hok
        exact .taken x rest _ hp hrec huds
      · next hbad =>
        cases h
        exact .declined ok x rest hp hrec hbad
    case h_2 => cases h
  | resume =>
    simp only [Host.move, Option.ite_none_right_eq_some, Option.some.injEq] at h
    obtain ⟨⟨hp, hrec⟩, rfl⟩ := h
    exact .turn _ _ (by simp) (by simp [hp]) (by simp [hp]) (fun _ => hrec)

/-- Nothing is taken out outside an upgrade window, and what is put back has been awaited. -/
structure Host.Shape (s : Host) : Prop where
  serving : s.phase = .serving → s.records = []
  pending : s.phase ≠ .draining → s.pending = []

theorem Host.boot_shape (payload : List SessionHandoff) : (Host.boot payload).Shape :=
  ⟨by simp [Host.boot], fun _ => rfl⟩

theorem Host.step_shape {s t : Host} {a : HostAct} (hs : s.Shape) (h : s.step a = some t) :
    t.Shape := by
  cases Host.step_cases h with
  | start x _ => exact ⟨hs.serving, hs.pending⟩
  | work fd unread unsent n _ =>
    exact ⟨hs.serving, fun hp => by simp only [hs.pending hp, List.map_nil]⟩
  | flushed fd => exact ⟨hs.serving, hs.pending⟩
  | flushFails fd peer _ =>
    exact ⟨hs.serving, fun hp => by simp only [Host.dropPending, hs.pending hp, List.filter_nil]⟩
  | finish fd peer _ =>
    exact ⟨hs.serving, fun hp => by simp only [Host.dropPending, hs.pending hp, List.filter_nil]⟩
  | frame m => exact ⟨hs.serving, hs.pending⟩
  | takeRegistry hp => exact ⟨by simp, by simp⟩
  | handed id x rest hp _ => exact ⟨by simp [hp], by simp [hp]⟩
  | dropped id x rest hp _ => exact ⟨by simp [hp], by simp [hp]⟩
  | stash x rest hp _ => exact ⟨by simp, fun _ => hs.pending (by simp [hp])⟩
  | taken x rest flushing hp _ _ => exact ⟨by simp, fun _ => hs.pending (by simp [hp])⟩
  | declined ok x rest hp _ _ => exact ⟨by simp, fun _ => hs.pending (by simp [hp])⟩
  | turn _ p _ hdone hpend hrec =>
    refine ⟨hrec, fun _ => ?_⟩
    by_cases hp : s.phase = .draining
    · exact hpend hp
    · exact hs.pending hp

end FiveNinesEcho.Processor
