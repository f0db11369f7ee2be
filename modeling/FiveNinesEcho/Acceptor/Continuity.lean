import FiveNinesEcho.Acceptor.Plain

/-!
# A plain client across processor upgrades

`Acceptor.Plain` follows one client through the acceptor to one processor. Here the processor behind
the bridge is replaced while the client is connected: the drain of an upgrade reaches its session
(`processor/upgrade.rs:398-457`), the task hands its record over where it is suspended, and the next
image starts a task on it (`processor/upgrade.rs:88-143`). The stream is arbitrary bytes, the
refused lines included.

An interrupted session is read as if it had not been (`resumed`): a pending cancel is not looked at,
and a record is the task the next image will make of it. Seen like this an upgrade is no step at
all, and the invariant of the undisturbed bridge holds of every state of the disturbed one.
-/

namespace FiveNinesEcho.Processor
open Lib Handoff
variable {C : Codec}

/-! ### A task as if nobody had interrupted it -/

def Task.resumed (t : Task C) : Task C :=
  match t.pc with
  | .handedOff h => (adoptSession h).getD t
  | _ => { t with cancelled := false }

/-- Not a record that waits for the next image. -/
def Task.held (t : Task C) : Bool :=
  match t.pc with
  | .handedOff _ => false
  | _ => true

theorem Task.resumed_held {t : Task C} (h : t.held = true) :
    t.resumed = { t with cancelled := false } := by
  cases hp : t.pc <;> simp_all [Task.resumed, Task.held]

theorem Task.pollNext_setCancelled (t : Task C) (b : Bool) :
    ({ t with cancelled := b } : Task C).pollNext = { t.pollNext with cancelled := b } := by
  unfold Task.pollNext
  dsimp only
  split
  · split <;> rfl
  · rfl

theorem Task.poll_setCancelled (t : Task C) (b : Bool) :
    ({ t with cancelled := b } : Task C).poll =
      t.poll.map fun t' => { t' with cancelled := b } := by
  cases hp : t.pc with
  | next =>
    have hnext : ({ t with cancelled := b } : Task C).poll =
        some ({ t with cancelled := b } : Task C).pollNext := by
      simp only [Task.poll, hp]
    have hpoll : t.poll = some t.pollNext := by simp only [Task.poll, hp]
    rw [← hp, hnext, hpoll, Task.pollNext_setCancelled, Option.map_some]
  | select => simp only [Task.poll, hp, Option.map_some]
  | read => simp only [Task.poll, hp, Option.map_none]
  | ended => simp only [Task.poll, hp, Option.map_none]
  | handedOff r => simp only [Task.poll, hp, Option.map_none]
  | flushAdopted =>
    simp only [Task.poll, hp]
    split <;> rfl
  | ready l =>
    simp only [Task.poll, hp]
    split <;> rfl
  | flush =>
    simp only [Task.poll, hp]
    split <;> rfl

theorem Task.step_setCancelled (k : Sock) (t : Task C) (b : Bool) (a : TaskAct) (ha : a ≠ .cancel) :
    ({ t with cancelled := b } : Task C).step k a =
      (t.step k a).map fun p => (p.1, { p.2 with cancelled := b }) := by
  cases a with
  | poll =>
    simp only [Task.step, Task.poll_setCancelled, Option.map_map]
    rfl
  | recv n =>
    simp only [Task.step]
    split <;> rfl
  | recvEof =>
    simp only [Task.step]
    split
    · split <;> rfl
    · rfl
  | write n =>
    have hw : ({ t with cancelled := b } : Task C).writing = t.writing := rfl
    simp only [Task.step, hw]
    split <;> rfl
  | ioErr =>
    have hw : ({ t with cancelled := b } : Task C).writing = t.writing := rfl
    simp only [Task.step, hw]
    split <;> rfl
  | cancel => exact absurd rfl ha

theorem Task.step_held {k k' : Sock} {t t' : Task C} (a : TaskAct) (ha : a ≠ .cancel)
    (h : t.step k a = some (k', t')) : t.held = true ∧ t'.held = true := by
  have ht : t.held = true := by
    cases hp : t.pc <;> simp_all [Task.held]
    cases a <;> simp_all [Task.step, Task.poll, Task.writing]
  refine ⟨ht, ?_⟩
  cases a with
  | poll =>
    obtain ⟨-, hpoll⟩ := Task.step_poll k k' t t' h
    rcases t.poll_cases t' hpoll with ⟨-, -, rfl⟩ | ⟨-, rfl⟩ | ⟨-, rfl⟩ | ⟨l, -, -, rfl⟩ |
      ⟨-, -, rfl⟩
    · rfl
    · rfl
    · unfold Task.pollNext
      split
      · split
        · rfl
        · rfl
        · cases t.framed.eof <;> rfl
      · rfl
    · rfl
    · rfl
  | recv n =>
    simp only [Task.step, Option.ite_none_right_eq_some, Option.some.injEq, Prod.mk.injEq] at h
    obtain ⟨-, -, rfl⟩ := h
    rfl
  | recvEof =>
    simp only [Task.step, Option.ite_none_right_eq_some] at h
    obtain ⟨-, h⟩ := h
    split at h <;> cases h <;> rfl
  | write n =>
    simp only [Task.step, Option.ite_none_right_eq_some, Option.some.injEq, Prod.mk.injEq] at h
    obtain ⟨-, -, rfl⟩ := h
    exact ht
  | ioErr =>
    simp only [Task.step, Option.ite_none_right_eq_some, Option.some.injEq, Prod.mk.injEq] at h
    obtain ⟨-, -, rfl⟩ := h
    rfl
  | cancel => exact absurd rfl ha

/-- Where a task is suspended, all it holds is in the two buffers of its record: the task of the
next image goes on with the same answer. -/
theorem Steady.handOver {total wire ahead : Bytes} {t : Task C}
    (hs : Steady total wire ahead { t with cancelled := false }) (hsus : t.suspended = true) :
    Steady total wire ahead ({ t with pc := .handedOff t.handoff } : Task C).resumed := by
  have halive : t.alive = true := by
    cases hp : t.pc <;> simp_all [Task.alive, Task.suspended]
  have hf := hs.framing halive
  have howed : t.owed = t.framed.writeBuf := by
    cases hp : t.pc with
    | ready l =>
      have hwb : t.framed.writeBuf = [] := hf.idle (by simp only [Task.between, hp])
      have hpos := C.boundary_pos
      simp only [Task.suspended, hp, hwb, List.length_nil, decide_eq_true_eq] at hsus
      omega
    | _ => simp_all [Task.owed, Task.suspended]
  have hnext : ({ t with pc := .handedOff t.handoff } : Task C).resumed =
      spawnSession (framedWithLookahead t.framed.readBuf t.framed.writeBuf) t.udsFd t.peer t.counter
        t.connectedAtUnixMs t.traceId := by
    simp [Task.resumed, adoptSession, Task.handoff, isSchemaCompatible_iff, schemaVersion]
  rw [hnext]
  have hdue : wire ++ t.owed ++ reply (t.framed.readBuf ++ ahead) = total := hs.due halive
  rw [howed] at hdue
  have hpc := spawnSession_pc (C := C) (framedWithLookahead t.framed.readBuf t.framed.writeBuf)
    t.udsFd t.peer t.counter t.connectedAtUnixMs t.traceId
  generalize hu : spawnSession (C := C) (framedWithLookahead t.framed.readBuf t.framed.writeBuf)
    t.udsFd t.peer t.counter t.connectedAtUnixMs t.traceId = u at hpc ⊢
  have hframed : u.framed = framedWithLookahead t.framed.readBuf t.framed.writeBuf := by
    rw [← hu, spawnSession]
  have hcan : u.cancelled = false := by rw [← hu, spawnSession]
  have hu_alive : u.alive = true := by
    rcases hpc with ⟨hp, -⟩ | ⟨hp, -⟩ <;> simp only [Task.alive, hp]
  refine ⟨fun _ => ⟨?_, ?_, ?_, ?_, ?_, hcan⟩, fun _ => ?_, fun ha => ?_⟩
  · intro c
    rw [hframed]
    exact C.fresh_synced _
  · intro hb
    rcases hpc with ⟨-, hw⟩ | ⟨hp, -⟩
    · rw [hframed]
      exact hw
    · simp [Task.between, hp] at hb
  · intro hr
    rw [hframed] at hr ⊢
    simp only [framedWithLookahead, Bool.not_eq_false', List.isEmpty_iff] at hr
    simp [framedWithLookahead, hr]
  · simp [hframed, framedWithLookahead]
  · rcases hpc with ⟨hp, -⟩ | ⟨hp, -⟩ <;> simp [hp]
  · have huowed : u.owed = t.framed.writeBuf := by
      rcases hpc with ⟨hp, -⟩ | ⟨hp, -⟩ <;> simp only [Task.owed, hp, hframed, framedWithLookahead]
    rw [huowed, hframed]
    exact hdue
  · rw [hu_alive] at ha
    cases ha

theorem adoptSession_rank {t t' : Task C} {r : SessionHandoff} (hp : t.pc = .handedOff r)
    (h : adoptSession r = some t') : t'.rank < t.rank := by
  have hstep : Session.step ⟨Sock.open [] true 0, t⟩ .adopt =
      some ⟨Sock.open [] true 0, t'⟩ := by
    simp [Session.step, hp, h]
  have hlt := Session.step_rank _ _ .adopt rfl hstep
  simp only [Session.rank] at hlt
  omega

end FiveNinesEcho.Processor

namespace FiveNinesEcho.Acceptor
open Lib Handoff Processor
variable {C : Codec}

/-! ### The bridge with a processor that is upgraded -/

/-- The moves of the bridge over any number of committed processor upgrades: `sendCancel` is the
drain reaching the client's session, `adopt` the next image starting a task on its record. -/
inductive UpgradedAct where
  | plain (a : PlainAct)
  | sendCancel
  | adopt
  deriving Repr, DecidableEq

/-- Only a registered session has a cancel channel. -/
def Incoming.sendCancel : Incoming C → Option (Incoming C)
  | .session t =>
    if t.cancelled = false then some (.session { t with cancelled := true }) else none
  | _ => none

def Incoming.adopt : Incoming C → Option (Incoming C)
  | .session t => match t.pc with
    | .handedOff h => (adoptSession h).map .session
    | _ => none
  | _ => none

def Plain.setConn (s : Plain C) (c : Incoming C) : Plain C :=
  { s with ends := { s.ends with conn := c } }

def Plain.upgradedStep (S : Serde) (s : Plain C) : UpgradedAct → Option (Plain C)
  | .plain a => s.step S a
  | .sendCancel => s.ends.conn.sendCancel.map s.setConn
  | .adopt => s.ends.conn.adopt.map s.setConn

/-- Neither an I/O error nor the start of another upgrade. -/
def UpgradedAct.onward : UpgradedAct → Bool
  | .plain a => a.orderly
  | .sendCancel => false
  | .adopt => true

/-- Not an I/O error. -/
def UpgradedAct.orderly : UpgradedAct → Bool
  | .plain a => a.orderly
  | .sendCancel | .adopt => true

def Plain.UpgradedIdle (S : Serde) (s : Plain C) : Prop :=
  ∀ a : UpgradedAct, a.onward = true → s.upgradedStep S a = none

theorem UpgradedAct.orderly_of_onward {a : UpgradedAct} (h : a.onward = true) :
    a.orderly = true := by
  cases a with
  | plain a => exact h
  | sendCancel => rfl
  | adopt => rfl

/-! ### The bridge as if nobody had upgraded the processor -/

def Incoming.resumed : Incoming C → Incoming C
  | .session t => .session t.resumed
  | c => c

def Plain.resumed (s : Plain C) : Plain C := s.setConn s.ends.conn.resumed

theorem adoptSession_pc {h : SessionHandoff} {t : Task C} (ha : adoptSession h = some t) :
    t.held = true ∧ t.pc ≠ .ended ∧ t.cancelled = false := by
  simp only [adoptSession, Option.ite_none_right_eq_some, Option.some.injEq] at ha
  obtain ⟨-, rfl⟩ := ha
  rcases spawnSession_pc (C := C) (framedWithLookahead h.partialLineBytes h.pendingWriteBytes)
    h.udsFd h.peer h.linesEchoed h.connectedAtUnixMs h.traceId with ⟨hs, -⟩ | ⟨hs, -⟩
  · exact ⟨by simp only [Task.held, hs], by simp [hs], rfl⟩
  · exact ⟨by simp only [Task.held, hs], by simp [hs], rfl⟩

theorem Incoming.closed_resumed (c : Incoming C) : c.resumed.closed = c.closed := by
  cases c with
  | session t =>
    by_cases hh : t.held = true
    · rw [Incoming.resumed, Task.resumed_held hh]
      rfl
    · obtain ⟨h, hp⟩ : ∃ h, t.pc = .handedOff h := by
        cases hp : t.pc <;> simp_all [Task.held]
      cases ha : adoptSession (C := C) h with
      | none => simp [Incoming.resumed, Task.resumed, hp, ha]
      | some u => simp [Incoming.resumed, Task.resumed, hp, ha, Incoming.closed, adoptSession_pc ha]
  | dispatching t => rfl
  | sidecar f => rfl
  | dropped => rfl

/-- Not a session that waits for the next image. -/
def Incoming.held : Incoming C → Bool
  | .session t => t.held
  | _ => true

theorem dispatchIncoming_held (S : Serde) (t : Task C) (line : Bytes) :
    (dispatchIncoming S t line).held = true ∧
    (dispatchIncoming S t line).resumed = dispatchIncoming S t line := by
  unfold dispatchIncoming
  split
  · rename_i peer role traceId hs
    have hheld :
        (spawnSession t.framed t.udsFd peer 0 t.connectedAtUnixMs traceId).held = true := by
      rcases spawnSession_pc t.framed t.udsFd peer 0 t.connectedAtUnixMs traceId with
        ⟨hpc, -⟩ | ⟨hpc, -⟩ <;> simp only [Task.held, hpc]
    refine ⟨hheld, ?_⟩
    rw [Incoming.resumed, Task.resumed_held hheld]
    rfl
  · exact ⟨rfl, rfl⟩
  · exact ⟨rfl, rfl⟩

/-- A move of the processor's end is the same move of the end read as resumed, or it is the task
handing its record over. -/
theorem Incoming.step_resumed {S : Serde} {k k' : Sock} {c c' : Incoming C} (a : TaskAct)
    (h : c.step S k a = some (k', c')) :
    (c'.held = true ∧ c.resumed.step S k a = some (k', c'.resumed)) ∨
    (k' = k ∧ ∃ t, c = .session t ∧ t.suspended = true ∧
      c' = .session { t with pc := .handedOff t.handoff }) := by
  cases c with
  | session t =>
    simp only [Incoming.step, Option.map_eq_some_iff, Prod.mk.injEq] at h
    obtain ⟨⟨k₁, t₁⟩, ht, rfl, rfl⟩ := h
    by_cases ha : a = .cancel
    · subst ha
      simp only [Task.step, Option.ite_none_right_eq_some, Option.some.injEq, Prod.mk.injEq] at ht
      obtain ⟨⟨-, hsus⟩, rfl, rfl⟩ := ht
      exact Or.inr ⟨rfl, t, rfl, hsus, rfl⟩
    · obtain ⟨hheld, hheld'⟩ := Task.step_held a ha ht
      refine Or.inl ⟨hheld', ?_⟩
      simp only [Incoming.resumed, Incoming.step, Task.resumed_held hheld, Task.resumed_held hheld',
        Task.step_setCancelled k t false a ha, ht, Option.map_some]
  | dispatching t =>
    left
    have hres : c'.held = true ∧ c'.resumed = c' := by
      simp only [Incoming.step] at h
      split at h
      · rename_i line hp
        simp only [Option.ite_none_right_eq_some, Option.some.injEq, Prod.mk.injEq] at h
        obtain ⟨-, -, rfl⟩ := h
        exact dispatchIncoming_held S t line
      · simp only [Option.map_eq_some_iff, Prod.mk.injEq] at h
        obtain ⟨⟨k₁, t₁⟩, -, -, rfl⟩ := h
        exact ⟨rfl, rfl⟩
    rw [hres.2]
    exact ⟨hres.1, h⟩
  | sidecar f => simp [Incoming.step] at h
  | dropped => simp [Incoming.step] at h

/-- Nothing that the end could do as resumed is out of its reach while it is held. -/
theorem Incoming.resumed_blocked {S : Serde} {k : Sock} {c : Incoming C} (hh : c.held = true)
    (h : ∀ a, c.step S k a = none) (a : TaskAct) : c.resumed.step S k a = none := by
  cases c with
  | session t =>
    have ht : t.step k a = none := by simpa [Incoming.step] using h a
    simp only [Incoming.resumed, Incoming.step, Task.resumed_held hh, Option.map_eq_none_iff]
    by_cases ha : a = .cancel
    · subst ha
      simp [Task.step]
    · rw [Task.step_setCancelled k t false a ha, ht, Option.map_none]
  | dispatching t => exact h a
  | sidecar f => rfl
  | dropped => rfl

section Views
variable {S : Serde} {s s' : Plain C}

theorem Plain.resumed_up (S : Serde) (s : Plain C) (a : CopyAct) :
    s.resumed.step S (.up a) = (s.step S (.up a)).map Plain.resumed := by
  have hports : s.resumed.ends.upPorts false = s.ends.upPorts false := by
    simp only [Ends.upPorts, Ends.udsRoom, Plain.resumed, Plain.setConn, Incoming.closed_resumed]
  simp only [Plain.step, hports]
  by_cases hopen : s.ends.opening = []
  · have hopen' : s.resumed.ends.opening = [] := hopen
    simp only [hopen, hopen', if_true, Option.map_map]
    rfl
  · have hopen' : ¬ s.resumed.ends.opening = [] := hopen
    simp only [hopen, hopen', if_false, Option.map_none]

theorem Plain.resumed_down (S : Serde) (s : Plain C) (a : CopyAct) :
    s.resumed.step S (.down a) = (s.step S (.down a)).map Plain.resumed := by
  have hports : s.resumed.ends.downPorts false = s.ends.downPorts false := by
    simp only [Ends.downPorts, Plain.resumed, Plain.setConn, Incoming.closed_resumed]
  simp only [Plain.step, hports]
  by_cases hopen : s.ends.opening = []
  · have hopen' : s.resumed.ends.opening = [] := hopen
    simp only [hopen, hopen', if_true, Option.map_map]
    rfl
  · have hopen' : ¬ s.resumed.ends.opening = [] := hopen
    simp only [hopen, hopen', if_false, Option.map_none]

theorem Plain.resumed_client (S : Serde) (s : Plain C) (a : PeerAct) :
    s.resumed.step S (.ends (.client a)) = (s.step S (.ends (.client a))).map Plain.resumed := by
  have hadmits : s.resumed.ends.admits a = s.ends.admits a := by
    cases a <;> rfl
  simp only [Plain.step, Ends.step, hadmits]
  split
  · simp only [Option.map_map]
    rfl
  · rfl

theorem Plain.resumed_preamble (S : Serde) (s : Plain C) (n : ℕ) :
    s.resumed.step S (.ends (.preamble n)) =
      (s.step S (.ends (.preamble n))).map Plain.resumed := by
  have hroom : s.resumed.ends.udsRoom = s.ends.udsRoom := by
    simp only [Ends.udsRoom, Plain.resumed, Plain.setConn, Incoming.closed_resumed]
  have hopen : s.resumed.ends.opening = s.ends.opening := rfl
  simp only [Plain.step, Ends.step, hroom, hopen]
  split <;> rfl

/-- Only the processor's own moves change its end. -/
theorem Plain.resumed_step (S : Serde) (s : Plain C) (a : PlainAct)
    (ha : ∀ b, a ≠ .ends (.proc b)) :
    s.resumed.step S a = (s.step S a).map Plain.resumed ∧
    ∀ s', s.step S a = some s' → s'.ends.conn = s.ends.conn := by
  cases a with
  | ends a =>
    cases a with
    | client a =>
      refine ⟨Plain.resumed_client S s a, fun s' h => ?_⟩
      simp only [Plain.step, Ends.step, Option.map_eq_some_iff, Option.ite_none_right_eq_some] at h
      obtain ⟨e, ⟨-, k, -, rfl⟩, rfl⟩ := h
      rfl
    | preamble n =>
      refine ⟨Plain.resumed_preamble S s n, fun s' h => ?_⟩
      simp only [Plain.step, Ends.step, Option.map_eq_some_iff, Option.ite_none_right_eq_some,
        Option.some.injEq] at h
      obtain ⟨e, ⟨-, rfl⟩, rfl⟩ := h
      rfl
    | proc b => exact absurd rfl (ha b)
  | up a =>
    refine ⟨Plain.resumed_up S s a, fun s' h => ?_⟩
    simp only [Plain.step, Option.ite_none_right_eq_some, Option.map_eq_some_iff] at h
    obtain ⟨-, m, -, rfl⟩ := h
    rfl
  | down a =>
    refine ⟨Plain.resumed_down S s a, fun s' h => ?_⟩
    simp only [Plain.step, Option.ite_none_right_eq_some, Option.map_eq_some_iff] at h
    obtain ⟨-, m, -, rfl⟩ := h
    rfl

/-- An adopted end is the end read as resumed. -/
theorem Incoming.adopt_eq {c c' : Incoming C} (h : c.adopt = some c') :
    c' = c.resumed ∧ c'.held = true ∧ c'.resumed = c' := by
  cases c with
  | session t =>
    cases hp : t.pc with
    | handedOff r =>
      simp only [Incoming.adopt, hp, Option.map_eq_some_iff] at h
      obtain ⟨u, hu, rfl⟩ := h
      obtain ⟨hheld, -, hcan⟩ := adoptSession_pc hu
      refine ⟨?_, hheld, ?_⟩
      · simp only [Incoming.resumed, Task.resumed, hp, hu, Option.getD_some]
      · rw [Incoming.resumed, Task.resumed_held hheld, ← hcan]
    | _ => simp [Incoming.adopt, hp] at h
  | dispatching t => simp [Incoming.adopt] at h
  | sidecar f => simp [Incoming.adopt] at h
  | dropped => simp [Incoming.adopt] at h

end Views

/-! ### The invariant across upgrades -/

/-- Read as resumed the bridge is where an undisturbed one could be, and a session that was handed
over can be taken up. -/
structure Plain.Carried (line input : Bytes) (s : Plain C) : Prop where
  inv : s.resumed.Inv line input
  record : s.ends.conn.held = true ∨ ∃ c, s.ends.conn.adopt = some c

section Run
variable {S : Serde} {line input : Bytes} {s s' : Plain C}

theorem Plain.Carried.handOver (hi : s.Carried line input) {t : Task C}
    (hc : s.ends.conn = .session t) (hsus : t.suspended = true) :
    (s.setConn (.session { t with pc := .handedOff t.handoff })).Carried line input := by
  have hheld : t.held = true := by
    cases hp : t.pc <;> simp_all [Task.held, Task.suspended]
  have hres : s.resumed.ends.conn = .session { t with cancelled := false } := by
    simp only [Plain.resumed, Plain.setConn, hc, Incoming.resumed, Task.resumed_held hheld]
  obtain ⟨hl, huw, hdw, hus, hds⟩ := hi.inv
  have hsteady : Steady (reply input) s.ends.uds.wire
      (s.ends.uds.inbox ++ s.ends.upstream s.up) { t with cancelled := false } := by
    have hconn := hl.conn
    rw [hres] at hconn
    exact hconn
  refine ⟨⟨⟨?_, hl.shut, hl.forwarded, hl.taken, hl.received, hl.fin, hl.closes, hl.here, ?_⟩, huw,
    hdw, hus, ?_⟩, Or.inr ?_⟩
  · exact hsteady.handOver hsus
  · intro hopen
    obtain ⟨⟨u, hu⟩, -⟩ := hl.opened hopen
    rw [hres] at hu
    cases hu
  · intro hstop
    obtain ⟨hclosed, -⟩ := hds hstop
    rw [hres] at hclosed
    have hp : t.pc = .ended := by simpa [Incoming.closed] using hclosed
    simp [Task.suspended, hp] at hsus
  · refine ⟨.session (spawnSession (framedWithLookahead t.framed.readBuf t.framed.writeBuf) t.udsFd
      t.peer t.counter t.connectedAtUnixMs t.traceId), ?_⟩
    simp [Plain.setConn, Incoming.adopt, adoptSession, Task.handoff, isSchemaCompatible_iff,
      schemaVersion]

theorem Plain.Carried.plain (hC : C.Strict) (hS : S.Opens line) (hi : s.Carried line input)
    (a : PlainAct) (ha : a.orderly = true) (h : s.step S a = some s') : s'.Carried line input := by
  by_cases hproc : ∃ b, a = .ends (.proc b)
  · obtain ⟨b, rfl⟩ := hproc
    simp only [Plain.step, Ends.step, Option.map_eq_some_iff] at h
    obtain ⟨e, ⟨⟨k, c⟩, hk, rfl⟩, rfl⟩ := h
    rcases Incoming.step_resumed b hk with ⟨hheld, hstep⟩ | ⟨rfl, t, hc, hsus, rfl⟩
    · refine ⟨Plain.step_inv hC hS (.ends (.proc b)) ha hi.inv ?_, Or.inl hheld⟩
      have hconn : s.resumed.ends.conn.step S s.resumed.ends.uds b = some (k, c.resumed) := hstep
      simp only [Plain.step, Ends.step, hconn, Option.map_some]
      rfl
    · exact hi.handOver hc hsus
  · have hne : ∀ b, a ≠ .ends (.proc b) := by simpa using hproc
    obtain ⟨hres, hconn⟩ := Plain.resumed_step S s a hne
    refine ⟨Plain.step_inv hC hS a ha hi.inv ?_, ?_⟩
    · rw [hres, h, Option.map_some]
    · rw [hconn s' h]
      exact hi.record

theorem Plain.Carried.adopt (hi : s.Carried line input) {c : Incoming C}
    (h : s.ends.conn.adopt = some c) : (s.setConn c).Carried line input := by
  obtain ⟨hc, hheld, hres⟩ := Incoming.adopt_eq h
  have hsame : (s.setConn c).resumed = s.resumed := by
    simp only [Plain.resumed, Plain.setConn, hres, ← hc]
  exact ⟨hsame ▸ hi.inv, Or.inl hheld⟩

theorem Plain.Carried.sendCancel (hi : s.Carried line input) {c : Incoming C}
    (h : s.ends.conn.sendCancel = some c) : (s.setConn c).Carried line input := by
  obtain ⟨t, hc, rfl⟩ : ∃ t, s.ends.conn = .session t ∧
      c = .session { t with cancelled := true } := by
    cases hc : s.ends.conn with
    | session t =>
      simp only [hc, Incoming.sendCancel, Option.ite_none_right_eq_some, Option.some.injEq] at h
      exact ⟨t, rfl, h.2.symm⟩
    | _ => simp [hc, Incoming.sendCancel] at h
  have hres : (Task.resumed { t with cancelled := true }) = t.resumed := by
    rcases hi.record with hheld | ⟨c, hadopt⟩
    · rw [hc] at hheld
      rw [Task.resumed_held (t := { t with cancelled := true }) hheld, Task.resumed_held hheld]
    · rw [hc] at hadopt
      cases hp : t.pc with
      | handedOff r =>
        simp only [Incoming.adopt, hp, Option.map_eq_some_iff] at hadopt
        obtain ⟨u, hu, -⟩ := hadopt
        simp [Task.resumed, hp, hu]
      | _ => simp [Incoming.adopt, hp] at hadopt
  have hsame : (s.setConn (.session { t with cancelled := true })).resumed = s.resumed := by
    simp only [Plain.resumed, Plain.setConn, Incoming.resumed, hres, hc]
  refine ⟨hsame ▸ hi.inv, ?_⟩
  have hrec := hi.record
  rw [hc] at hrec
  exact hrec

theorem Plain.upgradedStep_carried (hC : C.Strict) (hS : S.Opens line) (a : UpgradedAct)
    (ha : a.orderly = true) (hi : s.Carried line input) (h : s.upgradedStep S a = some s') :
    s'.Carried line input := by
  cases a with
  | plain a => exact hi.plain hC hS a ha h
  | sendCancel =>
    obtain ⟨c, hc, rfl⟩ := Option.map_eq_some_iff.mp h
    exact hi.sendCancel hc
  | adopt =>
    obtain ⟨c, hc, rfl⟩ := Option.map_eq_some_iff.mp h
    exact hi.adopt hc

theorem Plain.upgradedStep_roomy (a : UpgradedAct) (hr : s.ends.Roomy)
    (h : s.upgradedStep S a = some s') : s'.ends.Roomy := by
  cases a with
  | plain a => exact Plain.step_roomy s s' a hr h
  | sendCancel =>
    obtain ⟨c, -, rfl⟩ := Option.map_eq_some_iff.mp h
    exact ⟨hr.tcpIn, hr.tcpOut, hr.udsIn, hr.udsOut⟩
  | adopt =>
    obtain ⟨c, -, rfl⟩ := Option.map_eq_some_iff.mp h
    exact ⟨hr.tcpIn, hr.tcpOut, hr.udsIn, hr.udsOut⟩

/-! ### Running out of work -/

/-- A bridge that has come to rest with its processor has nothing left to do in either reading. -/
theorem Plain.UpgradedIdle.resumed (h : s.UpgradedIdle S) (hi : s.Carried line input) :
    s.resumed.Idle S := by
  have hheld : s.ends.conn.held = true := by
    rcases hi.record with hheld | ⟨c, hc⟩
    · exact hheld
    · have hadopt := h .adopt rfl
      simp [Plain.upgradedStep, hc] at hadopt
  intro a ha
  have hstep : s.step S a = none := h (.plain a) ha
  by_cases hproc : ∃ b, a = .ends (.proc b)
  · obtain ⟨b, rfl⟩ := hproc
    have hnone : ∀ b, s.ends.conn.step S s.ends.uds b = none := by
      intro b
      simpa [Plain.upgradedStep, Plain.step, Ends.step] using h (.plain (.ends (.proc b))) rfl
    have hres : s.resumed.ends.conn.step S s.resumed.ends.uds b = none :=
      Incoming.resumed_blocked hheld hnone b
    simp only [Plain.step, Ends.step, hres, Option.map_none]
  · have hne : ∀ b, a ≠ .ends (.proc b) := by simpa using hproc
    rw [(Plain.resumed_step S s a hne).1, hstep, Option.map_none]

theorem Plain.setConn_rank (s : Plain C) (c : Incoming C) :
    (s.setConn c).rank + 8 * s.ends.conn.rank = s.rank + 8 * c.rank := by
  simp only [Plain.rank, Plain.setConn, Ends.upstream]
  omega

theorem Incoming.adopt_rank {c c' : Incoming C} (h : c.adopt = some c') : c'.rank < c.rank := by
  cases c with
  | session t =>
    cases hp : t.pc with
    | handedOff r =>
      simp only [Incoming.adopt, hp, Option.map_eq_some_iff] at h
      obtain ⟨u, hu, rfl⟩ := h
      exact adoptSession_rank hp hu
    | _ => simp [Incoming.adopt, hp] at h
  | _ => simp [Incoming.adopt] at h

/-- The forwarding loops do not look at the session, so their moves weigh what they weigh with the
session resumed. -/
theorem Plain.resumed_rank (a : PlainAct) (ha : a.orderly = true) (hne : ∀ b, a ≠ .ends b)
    (hi : s.Carried line input) (h : s.step S a = some s') : s'.rank < s.rank := by
  obtain ⟨hres, hconn⟩ := Plain.resumed_step S s a (fun b => hne (.proc b))
  rw [h, Option.map_some] at hres
  have hlt : s'.resumed.rank < s.resumed.rank := Plain.step_rank hi.inv a ha hres
  have hs := Plain.setConn_rank s s.ends.conn.resumed
  have hs' := Plain.setConn_rank s' s'.ends.conn.resumed
  rw [hconn s' h] at hs'
  simp only [Plain.resumed, hconn s' h] at hlt
  omega

theorem Plain.upgradedStep_rank (a : UpgradedAct) (ha : a.onward = true)
    (hi : s.Carried line input) (h : s.upgradedStep S a = some s') : s'.rank < s.rank := by
  cases a with
  | plain a =>
    cases a with
    | ends a => exact Plain.ends_rank a ((PlainAct.orderly_ends a).mp ha) h
    | up a => exact Plain.resumed_rank (S := S) (.up a) ha (by simp) hi h
    | down a => exact Plain.resumed_rank (S := S) (.down a) ha (by simp) hi h
  | sendCancel => cases ha
  | adopt =>
    obtain ⟨c, hc, rfl⟩ := Option.map_eq_some_iff.mp h
    have hlt := Incoming.adopt_rank hc
    have heq := Plain.setConn_rank s c
    omega

end Run

/-! ### End to end -/

theorem bridgePlainViaUds_carried (C : Codec) (S : Serde) (c : AcceptedClient) (input : Bytes)
    (b : Buffers) (fd : Fd) (now : ℕ) :
    (bridgePlainViaUds C S c input b fd now).Carried (S.toString (c.preamble "plain")) input :=
  ⟨bridgePlainViaUds_inv C S c input b fd now, Or.inl rfl⟩

/-- The echo outlives the processor. Take any client and any stream of bytes, lines that the codec
refuses included, and let the processor be upgraded any number of times while its session runs, at
whatever point of a read, a line or a write the drain finds it, with every chunking of the reads and
writes and every order of the two pumps, the processor and the upgrades. What the client has read is
at all times a front part of the one answer to its stream. When nothing is left to do it is all of
it, and that point is always within reach, at most `rank` steps away once no further upgrade
begins. -/
theorem plain_echo_across_upgrades (S : Serde) (c : AcceptedClient) (input : Bytes) (b : Buffers)
    (fd : Fd) (now : ℕ) (hserde : S.Faithful (c.preamble "plain")) (as : List UpgradedAct)
    (s : Plain linesCodec) (hok : ∀ a ∈ as, UpgradedAct.orderly a = true)
    (hrun : exec (Plain.upgradedStep S) (bridgePlainViaUds linesCodec S c input b fd now) as =
      some s) :
    s.delivered <+: reply input ∧
    (s.UpgradedIdle S → s.delivered = reply input) ∧
    (∃ bs t, (∀ a ∈ bs, UpgradedAct.onward a = true) ∧
      exec (Plain.upgradedStep S) s bs = some t ∧ t.UpgradedIdle S) ∧
    ∀ bs t, (∀ a ∈ bs, UpgradedAct.onward a = true) → exec (Plain.upgradedStep S) s bs = some t →
      bs.length ≤ s.rank := by
  have hS := hserde.opens plain_role_short
  have hinv : s.Carried (S.toString (c.preamble "plain")) input := by
    refine exec_along (G := fun _ a => UpgradedAct.orderly a = true) ?_ _ s as
      (bridgePlainViaUds_carried linesCodec S c input b fd now) ?_ hrun
    · intro s a t hi ha ht
      exact Plain.upgradedStep_carried linesCodec_strict hS a ha hi ht
    · exact along_of_forall _ (fun _ _ h => h) _ as hok
  have hroomy : s.ends.Roomy := by
    refine exec_invariant (fun s a t hr ht => Plain.upgradedStep_roomy a hr ht) _ s as ?_ hrun
    exact ⟨b.tcp_pos.1, b.tcp_pos.2, b.uds_pos.1, b.uds_pos.2⟩
  have hstep : ∀ (s t : Plain linesCodec) (a : UpgradedAct),
      s.Carried (S.toString (c.preamble "plain")) input → a.onward = true →
      s.upgradedStep S a = some t →
      t.Carried (S.toString (c.preamble "plain")) input ∧ t.rank < s.rank := by
    intro s t a hi ha ht
    have hi' := Plain.upgradedStep_carried linesCodec_strict hS a (UpgradedAct.orderly_of_onward ha)
      hi ht
    exact ⟨hi', Plain.upgradedStep_rank a ha hi ht⟩
  refine ⟨?_, ?_, ?_, ?_⟩
  · exact (List.take_prefix _ _).trans hinv.inv.ledger.forwarded_prefix
  · intro hidle
    have hroomy' : s.resumed.ends.Roomy :=
      ⟨hroomy.tcpIn, hroomy.tcpOut, hroomy.udsIn, hroomy.udsOut⟩
    exact (hidle.resumed hinv).delivered hinv.inv hroomy'
  · have hgoes : ∀ s : Plain linesCodec, s.Carried (S.toString (c.preamble "plain")) input →
        ¬ s.UpgradedIdle S → ∃ a t, UpgradedAct.onward a = true ∧ s.upgradedStep S a = some t ∧
          t.Carried (S.toString (c.preamble "plain")) input ∧ t.rank < s.rank := by
      intro s hi hidle
      simp only [Plain.UpgradedIdle, not_forall] at hidle
      obtain ⟨a, ha, hne⟩ := hidle
      obtain ⟨t, ht⟩ := Option.ne_none_iff_exists'.mp hne
      exact ⟨a, t, ha, ht, hstep s t a hi ha ht⟩
    obtain ⟨bs, t, hb, hbs, -, hidle⟩ := exec_to_goal Plain.rank hgoes s hinv
    exact ⟨bs, t, hb, hbs, hidle⟩
  · intro bs t hb hbs
    have hle := exec_length_le (I := fun s => s.Carried (S.toString (c.preamble "plain")) input)
      Plain.rank (fun s a t hi ha ht => hstep s t a hi ha ht) s t bs hinv hb hbs
    omega

/-- The second line has arrived in part when the processor is replaced, and is echoed by the next
one. -/
def upgradedRun : List UpgradedAct :=
  [.plain (.ends (.client (.send 5))), .plain (.ends (.preamble 97)), .plain (.up (.read 5)),
    .plain (.up (.write 5)), .plain (.ends (.proc .poll)), .plain (.ends (.proc (.recv 102))),
    .plain (.ends (.proc .poll)), .plain (.ends (.proc .poll)), .plain (.ends (.proc .poll)),
    .plain (.ends (.proc .poll)), .plain (.ends (.proc .poll)), .plain (.ends (.proc (.write 3))),
    .plain (.ends (.proc .poll)), .plain (.ends (.proc .poll)), .sendCancel,
    .plain (.ends (.proc .cancel)), .adopt,
    .plain (.ends (.client (.send 1))), .plain (.up (.read 1)), .plain (.up (.write 1)),
    .plain (.ends (.proc .poll)), .plain (.ends (.proc .poll)), .plain (.ends (.proc (.recv 1))),
    .plain (.ends (.proc .poll)), .plain (.ends (.proc .poll)), .plain (.ends (.proc (.write 3))),
    .plain (.down (.read 6)), .plain (.down (.write 6)), .plain (.ends (.client (.take 6)))]

theorem plain_echo_upgraded :
    ∃ s : Plain linesCodec,
      exec (Plain.upgradedStep localSerde)
        (bridgePlainViaUds linesCodec localSerde localClient [104, 105, 10, 121, 111, 10]
          localBuffers 7 0) upgradedRun = some s ∧
      s.delivered = [104, 105, 10, 121, 111, 10] ∧
      s.delivered <+: reply [104, 105, 10, 121, 111, 10] := by
  have hend : (exec (Plain.upgradedStep localSerde)
      (bridgePlainViaUds linesCodec localSerde localClient [104, 105, 10, 121, 111, 10]
        localBuffers 7 0) upgradedRun).map Plain.delivered =
      some [104, 105, 10, 121, 111, 10] := by decide +kernel
  obtain ⟨s, hs, hd⟩ := Option.map_eq_some_iff.mp hend
  refine ⟨s, hs, hd, ?_⟩
  exact (plain_echo_across_upgrades localSerde localClient [104, 105, 10, 121, 111, 10] localBuffers
    7 0 localSerde_plain upgradedRun s (by decide) hs).1

end FiveNinesEcho.Acceptor
