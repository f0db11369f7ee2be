import FiveNinesEcho.Acceptor.Ledger

/-!
# The plain bridge (`acceptor/data.rs:146-184`)

Two spawned `pump` tasks, one for each direction, each a copy loop over an 8 KiB buffer that shuts
its sink down when it stops: nothing is awaited between the two. The client's half-close reaches the
processor behind the last byte, the processor ends behind the last echo, and both pumps drain.
-/

namespace FiveNinesEcho.Acceptor
open Lib Handoff Processor
variable {C : Codec}

def bufferSize : ℕ := 8192

structure Plain (C : Codec) where
  ends : Ends C
  up : Copy Byte
  down : Copy Byte

inductive PlainAct where
  | ends (a : EndsAct)
  | up (a : CopyAct)
  | down (a : CopyAct)
  deriving Repr, DecidableEq

/-- The pumps are spawned when the preamble is out. -/
def Plain.step (S : Serde) (s : Plain C) : PlainAct → Option (Plain C)
  | .ends a => (s.ends.step S a).map fun e => { s with ends := e }
  | .up a =>
    if s.ends.opening = [] then
      (s.up.step bufferSize (s.ends.upPorts false) a).map fun m =>
        { s with ends := (s.ends.moveUp m).closeUp m.loop.isStopped, up := m.loop }
    else none
  | .down a =>
    if s.ends.opening = [] then
      (s.down.step bufferSize (s.ends.downPorts false) a).map fun m =>
        { s with ends := s.ends.moveDown m, down := m.loop }
    else none

def bridgePlainViaUds (C : Codec) (S : Serde) (c : AcceptedClient) (input : Bytes) (b : Buffers)
    (fd : Fd) (now : ℕ) : Plain C :=
  { ends := Ends.start C (openProcessorSession S c "plain") input b fd now
    up := .reading
    down := .reading }

def Plain.returned (s : Plain C) : Bool := s.up.isStopped && s.down.isStopped

/-- The bytes the client has read. -/
def Plain.delivered (s : Plain C) : Bytes := s.ends.client.wire.take s.ends.client.taken

/-- Not an I/O error. -/
def PlainAct.orderly : PlainAct → Bool
  | .ends (.client .hangup) | .up .fail | .down .fail => false
  | _ => true

theorem PlainAct.orderly_ends (a : EndsAct) :
    (PlainAct.ends a).orderly = true ↔ a ≠ .client .hangup := by
  rcases a with (b | b | b | b) | n | b <;> simp [PlainAct.orderly]

theorem PlainAct.orderly_up (a : CopyAct) : (PlainAct.up a).orderly = true ↔ a ≠ .fail := by
  cases a <;> simp [PlainAct.orderly]

theorem PlainAct.orderly_down (a : CopyAct) : (PlainAct.down a).orderly = true ↔ a ≠ .fail := by
  cases a <;> simp [PlainAct.orderly]

/-- No step is enabled. -/
def Plain.Idle (S : Serde) (s : Plain C) : Prop :=
  ∀ a : PlainAct, a.orderly = true → s.step S a = none

/-! ### The invariant of a run -/

structure Plain.Inv (line input : Bytes) (s : Plain C) : Prop where
  ledger : Ledger line input s.ends s.up s.down
  up_writing : s.up ≠ .writing []
  down_writing : s.down ≠ .writing []
  up_shut : s.ends.uds.shut = s.up.isStopped
  down_stopped : s.down.isStopped = true →
    s.ends.conn.closed = true ∧ s.ends.uds.taken = s.ends.uds.wire.length

section Run
variable {S : Serde} {line input : Bytes} {s s' : Plain C}

theorem Plain.step_up (hi : s.Inv line input) (a : CopyAct) (ha : a ≠ .fail)
    (h : s.step S (.up a) = some s') : s'.Inv line input := by
  simp only [Plain.step, Option.ite_none_right_eq_some, Option.map_eq_some_iff] at h
  obtain ⟨hopen, m, hm, rfl⟩ := h
  have hl := hi.ledger.moveUp hopen bufferSize false a ha m hm
  refine ⟨hl.closeUp _ ?_, Copy.step_writing _ _ _ a m hm, hi.down_writing, rfl, hi.down_stopped⟩
  -- the pump shuts the UDS down only at the client's end of stream, with nothing in its hands
  intro hstop
  obtain ⟨-, -, hready, hended, rfl⟩ := Copy.step_stops _ _ _ a m ha rfl hm hstop
  simp only [Ends.upPorts] at hready hended
  simp [Ends.upstream, Ends.moveUp, hopen, hready, hi.ledger.fin hended, Copy.held]

theorem Plain.step_down (hi : s.Inv line input) (a : CopyAct) (ha : a ≠ .fail)
    (h : s.step S (.down a) = some s') : s'.Inv line input := by
  simp only [Plain.step, Option.ite_none_right_eq_some, Option.map_eq_some_iff] at h
  obtain ⟨-, m, hm, rfl⟩ := h
  have hl := hi.ledger.moveDown bufferSize false a ha m hm
  refine ⟨hl, hi.up_writing, Copy.step_writing _ _ _ a m hm, hi.up_shut, ?_⟩
  intro hstop
  obtain ⟨-, -, hready, hended, rfl⟩ := Copy.step_stops _ _ _ a m ha rfl hm hstop
  simp only [Ends.downPorts, List.drop_eq_nil_iff] at hready hended
  exact ⟨hended, Nat.le_antisymm hi.ledger.taken hready⟩

theorem Plain.step_inv (hC : C.Strict) (hS : S.Opens line) (a : PlainAct) (ha : a.orderly = true)
    (hi : s.Inv line input) (h : s.step S a = some s') : s'.Inv line input := by
  cases a with
  | ends a =>
    simp only [Plain.step, Option.map_eq_some_iff] at h
    obtain ⟨e, he, rfl⟩ := h
    have hne := (PlainAct.orderly_ends a).mp ha
    obtain ⟨hshut, hclosed, htaken, -⟩ := Ends.step_frame S _ _ a he
    refine ⟨hi.ledger.ends hC hS a hne e he, hi.up_writing, hi.down_writing,
      hshut.trans hi.up_shut, ?_⟩
    intro hstop
    obtain ⟨hc, hall⟩ := hi.down_stopped hstop
    obtain ⟨hconn, hwire⟩ := hclosed hc
    simp only [hconn, hwire, htaken]
    exact ⟨hc, hall⟩
  | up a => exact Plain.step_up hi a ((PlainAct.orderly_up a).mp ha) h
  | down a => exact Plain.step_down hi a ((PlainAct.orderly_down a).mp ha) h

end Run

theorem bridgePlainViaUds_inv (C : Codec) (S : Serde) (c : AcceptedClient) (input : Bytes)
    (b : Buffers) (fd : Fd) (now : ℕ) :
    (bridgePlainViaUds C S c input b fd now).Inv (S.toString (c.preamble "plain")) input := by
  refine ⟨Ledger.start _ input b fd now, ?_, ?_, ?_, ?_⟩
  · simp [bridgePlainViaUds]
  · simp [bridgePlainViaUds]
  · simp [bridgePlainViaUds, Ends.start, Sock.open, Copy.isStopped]
  · simp [bridgePlainViaUds, Copy.isStopped]

theorem Plain.exec_inv {S : Serde} {line input : Bytes} (hC : C.Strict) (hS : S.Opens line)
    (s s' : Plain C) (as : List PlainAct) (hi : s.Inv line input)
    (ha : ∀ a ∈ as, PlainAct.orderly a = true) (h : exec (Plain.step S) s as = some s') :
    s'.Inv line input := by
  refine exec_along (G := fun _ a => PlainAct.orderly a = true) ?_ s s' as hi ?_ h
  · intro s a t hi ha ht
    exact Plain.step_inv hC hS a ha hi ht
  · exact along_of_forall _ (fun _ _ h => h) s as ha

/-- A pump that has seen the end of the UDS has forwarded the whole answer. -/
theorem Plain.Inv.drained {line input : Bytes} {s : Plain C} (hi : s.Inv line input)
    (hstop : s.down.isStopped = true) : s.ends.client.wire = reply input := by
  obtain ⟨hclosed, hall⟩ := hi.down_stopped hstop
  have hheld : s.down.held = [] := by rw [(Copy.isStopped_iff _).mp hstop]; rfl
  have hf := hi.ledger.forwarded
  rw [hheld, List.append_nil, hall, List.take_length] at hf
  rw [hf]
  exact hi.ledger.conn.closed hclosed

/-! ### Running out of work -/

/-- Every kernel buffer holds something. -/
structure Ends.Roomy (e : Ends C) : Prop where
  tcpIn : 0 < e.tcpIn
  tcpOut : 0 < e.client.cap
  udsIn : 0 < e.udsIn
  udsOut : 0 < e.uds.cap

theorem Plain.step_roomy {S : Serde} (s s' : Plain C) (a : PlainAct) (hr : s.ends.Roomy)
    (h : s.step S a = some s') : s'.ends.Roomy := by
  cases a with
  | ends a =>
    simp only [Plain.step, Option.map_eq_some_iff] at h
    obtain ⟨e, he, rfl⟩ := h
    obtain ⟨-, -, -, htcp, huds, hout, hcl⟩ := Ends.step_frame S _ _ a he
    refine ⟨?_, ?_, ?_, ?_⟩
    · rw [htcp]
      exact hr.tcpIn
    · rw [hcl]
      exact hr.tcpOut
    · rw [huds]
      exact hr.udsIn
    · rw [hout]
      exact hr.udsOut
  | up a =>
    simp only [Plain.step, Option.ite_none_right_eq_some, Option.map_eq_some_iff] at h
    obtain ⟨-, m, -, rfl⟩ := h
    exact ⟨hr.tcpIn, hr.tcpOut, hr.udsIn, hr.udsOut⟩
  | down a =>
    simp only [Plain.step, Option.ite_none_right_eq_some, Option.map_eq_some_iff] at h
    obtain ⟨-, m, -, rfl⟩ := h
    exact ⟨hr.tcpIn, hr.tcpOut, hr.udsIn, hr.udsOut⟩

section Idle
variable {S : Serde} {line input : Bytes} {s : Plain C}

theorem Plain.Idle.proc (h : s.Idle S) (a : TaskAct) : s.ends.conn.step S s.ends.uds a = none := by
  simpa [Plain.step, Ends.step] using h (.ends (.proc a)) rfl

theorem Plain.Idle.received (h : s.Idle S) (hi : s.Inv line input) :
    s.ends.client.taken = s.ends.client.wire.length := by
  have htake := h (.ends (.client (.take 1))) rfl
  have hle := hi.ledger.received
  simp [Plain.step, Ends.step, Ends.admits, Sock.peer] at htake
  omega

theorem Plain.Idle.conn (h : s.Idle S) (hi : s.Inv line input) (hclosed : s.ends.conn.closed = false)
    (hroom : 0 < s.ends.uds.room) : s.ends.uds.inbox = [] ∧ s.ends.uds.shut = false :=
  hi.ledger.conn.live.blocked S hclosed hi.ledger.here.2 hroom h.proc

theorem Plain.Idle.opened (h : s.Idle S) (hi : s.Inv line input) (hr : s.ends.Roomy) :
    s.ends.opening = [] := by
  by_contra hopen
  obtain ⟨t, hc, hp⟩ := hi.ledger.waits hopen
  have hclosed : s.ends.conn.closed = false := by
    rcases hp with hp | hp <;> simp [hc, Incoming.closed, hp]
  have hwire : s.ends.uds.wire = [] := by
    have hon := hi.ledger.conn
    rw [hc] at hon
    exact Opening.silent hon
  have hcap := hr.udsOut
  have hroom : 0 < s.ends.uds.room := by
    simp only [Sock.room, hwire, List.length_nil]
    omega
  obtain ⟨hin, -⟩ := h.conn hi hclosed hroom
  have hudsIn := hr.udsIn
  have hlen : 0 < s.ends.opening.length := List.length_pos_iff.mpr hopen
  have hwrite := h (.ends (.preamble 1)) rfl
  simp only [Plain.step, Ends.step, Ends.udsRoom, hclosed, hin, List.length_nil, Option.map_eq_none_iff,
    Bool.false_eq_true, if_false, Nat.sub_zero, ite_eq_right_iff, reduceCtorEq, imp_false] at hwrite
  omega

theorem Plain.Idle.pumps (h : s.Idle S) (hopen : s.ends.opening = []) (a : CopyAct)
    (ha : a ≠ .fail) : s.up.step bufferSize (s.ends.upPorts false) a = none ∧
      s.down.step bufferSize (s.ends.downPorts false) a = none := by
  have hup : s.step S (.up a) = none := h (.up a) ((PlainAct.orderly_up a).mpr ha)
  have hdown : s.step S (.down a) = none := h (.down a) ((PlainAct.orderly_down a).mpr ha)
  simp only [Plain.step, hopen, if_true, Option.map_eq_none_iff] at hup hdown
  exact ⟨hup, hdown⟩

/-- If the processor had not closed, some step would be enabled: the end of the client's stream is
on its way through the pump to the processor. -/
theorem Plain.Idle.closed (h : s.Idle S) (hi : s.Inv line input) (hr : s.ends.Roomy) :
    s.ends.conn.closed = true := by
  by_contra hc
  have hclosed : s.ends.conn.closed = false := by simpa using hc
  have hopen := h.opened hi hr
  have hrec := h.received hi
  have htcpOut := hr.tcpOut
  have hudsOut := hr.udsOut
  have hle := hi.ledger.taken
  -- the pump towards the client waits for the processor
  have hdown : s.ends.uds.taken = s.ends.uds.wire.length := by
    rcases Copy.blocked bufferSize _ s.down (by decide) hi.down_writing
      (fun a ha => (h.pumps hopen a ha).2) with hstop | ⟨-, -, hready, -⟩ | ⟨left, -, hroom⟩
    · exact (hi.down_stopped ((Copy.isStopped_iff _).mpr hstop)).2
    · simp only [Ends.downPorts, List.drop_eq_nil_iff] at hready
      exact Nat.le_antisymm hle hready
    · simp only [Ends.downPorts, Sock.room] at hroom
      omega
  have hroom : 0 < s.ends.uds.room := by
    simp only [Sock.room]
    omega
  obtain ⟨hin, hshut⟩ := h.conn hi hclosed hroom
  -- so does the pump towards the processor for the client
  have hup : s.ends.client.inbox = [] ∧ s.ends.client.shut = false := by
    rcases Copy.blocked bufferSize _ s.up (by decide) hi.up_writing
      (fun a ha => (h.pumps hopen a ha).1) with hstop | ⟨-, -, hready, hended⟩ | ⟨left, -, hfull⟩
    · have hs := hi.up_shut
      rw [hshut, hstop] at hs
      simp [Copy.isStopped] at hs
    · exact ⟨hready, hended⟩
    · have hudsIn := hr.udsIn
      simp only [Ends.upPorts, Ends.udsRoom, hclosed, hin, Bool.false_eq_true, if_false,
        List.length_nil] at hfull
      omega
  -- and the client has its last bytes and its half-close still to send
  have hsend := h (.ends (.client (.send 1))) rfl
  have hfin := h (.ends (.client .shut)) rfl
  have htcpIn := hr.tcpIn
  have hnil : s.ends.client.toSend = [] := by
    by_contra hne
    have hpos : 0 < s.ends.client.toSend.length := List.length_pos_iff.mpr hne
    simp [Plain.step, Ends.step, Ends.admits, Sock.peer, hup.1, hi.ledger.here.1,
      Nat.succ_le_iff, hpos, Nat.pos_iff_ne_zero.mp htcpIn] at hsend
  simp [Plain.step, Ends.step, Ends.admits, Sock.peer, hnil, hi.ledger.closes, hup.2] at hfin

/-- When no step is enabled, the client has the whole answer. -/
theorem Plain.Idle.delivered (h : s.Idle S) (hi : s.Inv line input) (hr : s.ends.Roomy) :
    s.delivered = reply input := by
  have hclosed := h.closed hi hr
  have hopen := h.opened hi hr
  have hrec := h.received hi
  have htcpOut := hr.tcpOut
  rw [Plain.delivered, hrec, List.take_length]
  apply hi.drained
  rcases Copy.blocked bufferSize _ s.down (by decide) hi.down_writing
    (fun a ha => (h.pumps hopen a ha).2) with hstop | ⟨-, -, -, hended⟩ | ⟨left, -, hroom⟩
  · exact (Copy.isStopped_iff _).mpr hstop
  · simp [Ends.downPorts, hclosed] at hended
  · simp only [Ends.downPorts, Sock.room] at hroom
    omega

end Idle

/-! ### How much work is left -/

def Incoming.rank : Incoming C → ℕ
  | .dispatching t | .session t => t.rank
  | .sidecar _ | .dropped => 0

/-- The rank of the session that the processor would run on the bytes upstream of it, and on top of
it the bytes that are still to be forwarded to the client. -/
def Plain.rank (s : Plain C) : ℕ :=
  8 * (14 * (s.ends.upstream s.up).length + s.ends.uds.rank + s.ends.conn.rank) +
    s.ends.client.rank + 2 * s.down.held.length + s.up.rank + s.down.rank

theorem dispatchIncoming_rank (S : Serde) (t : Task C) (line : Bytes) (hp : t.pc = .ready line) :
    (dispatchIncoming S t line).rank < t.rank := by
  have hpos : 0 < t.rank := by
    simp only [Task.rank, hp, Pc.rank]
    omega
  unfold dispatchIncoming
  split
  · simp only [Incoming.rank, Task.rank, Task.unread, Task.owed, hp, spawnSession]
    by_cases hw : t.framed.writeBuf.isEmpty = true <;> by_cases he : t.framed.eof = true <;>
      simp [hw, he, Pc.rank, encode] <;> omega
  · exact hpos
  · exact hpos

theorem Incoming.step_rank (S : Serde) (k k' : Sock) (c c' : Incoming C) (a : TaskAct)
    (h : c.step S k a = some (k', c')) : k'.rank + c'.rank < k.rank + c.rank := by
  cases c with
  | session t =>
    simp only [Incoming.step, Option.map_eq_some_iff, Prod.mk.injEq] at h
    obtain ⟨⟨k₁, t₁⟩, ht, rfl, rfl⟩ := h
    exact Task.step_rank _ _ t t₁ a ht
  | dispatching t =>
    simp only [Incoming.step] at h
    split at h
    · rename_i line hp
      simp only [Option.ite_none_right_eq_some, Option.some.injEq, Prod.mk.injEq] at h
      obtain ⟨-, rfl, rfl⟩ := h
      have hlt := dispatchIncoming_rank S t line hp
      simp only [Incoming.rank] at hlt ⊢
      omega
    · simp only [Option.map_eq_some_iff, Prod.mk.injEq] at h
      obtain ⟨⟨k₁, t₁⟩, ht, rfl, rfl⟩ := h
      exact Task.step_rank _ _ t t₁ a ht
  | sidecar f => simp [Incoming.step] at h
  | dropped => simp [Incoming.step] at h

section Rank
variable {S : Serde} {line input : Bytes} {s s' : Plain C}

theorem Plain.ends_rank (a : EndsAct) (ha : a ≠ .client .hangup)
    (h : s.step S (.ends a) = some s') : s'.rank < s.rank := by
  simp only [Plain.step, Option.map_eq_some_iff] at h
  obtain ⟨e, he, rfl⟩ := h
  cases a with
  | client a =>
    simp only [Ends.step, Option.ite_none_right_eq_some, Option.map_eq_some_iff] at he
    obtain ⟨-, k, hk, rfl⟩ := he
    have hlt := Sock.peer_rank _ _ a (fun hcon => ha (by rw [hcon])) hk
    have hup := Sock.peer_upstream _ _ a hk
    simp only [Plain.rank, Ends.upstream, List.length_append]
    omega
  | preamble n =>
    simp only [Ends.step, Option.ite_none_right_eq_some, Option.some.injEq] at he
    obtain ⟨⟨hn, hle, -⟩, rfl⟩ := he
    simp only [Plain.rank, Ends.upstream, Sock.rank, List.length_append, List.length_drop,
      List.length_take]
    omega
  | proc a =>
    simp only [Ends.step, Option.map_eq_some_iff] at he
    obtain ⟨⟨k, c⟩, hk, rfl⟩ := he
    have hlt := Incoming.step_rank S _ _ _ _ a hk
    simp only [Plain.rank, Ends.upstream]
    omega

theorem Plain.up_rank (hi : s.Inv line input) (a : CopyAct) (ha : a ≠ .fail)
    (h : s.step S (.up a) = some s') : s'.rank < s.rank := by
  simp only [Plain.step, Option.ite_none_right_eq_some, Option.map_eq_some_iff] at h
  obtain ⟨-, m, hm, rfl⟩ := h
  have hshut := hi.up_shut
  rcases Copy.step_cases _ _ _ a m ha hm with ⟨n, -, hc, -, hn, hle, rfl⟩ |
    ⟨-, hc, -, -, -, rfl⟩ | ⟨-, -, hs, -⟩ | ⟨n, left, -, hc, hn, hle, -, ht, hg, hh, hrun⟩
  · simp only [Ends.upPorts] at hle
    simp only [Plain.rank, Ends.upstream, Ends.moveUp, Ends.closeUp, Ends.upPorts, Sock.rank,
      Copy.rank, Copy.held, Copy.isStopped, hc, hshut, List.length_append, List.length_take,
      List.length_drop, List.append_nil, Bool.false_eq_true, if_false]
    omega
  · simp only [Plain.rank, Ends.upstream, Ends.moveUp, Ends.closeUp, Sock.rank, Copy.rank,
      Copy.held, Copy.isStopped, hc, hshut, List.length_append, List.drop_zero, List.append_nil,
      Bool.false_eq_true, if_false, if_true]
    omega
  · simp [Ends.upPorts] at hs
  · have hheld : s.up.held = left := by rw [hc]; rfl
    have hlive : s.up.isStopped = false := by rw [hc]; rfl
    simp only [Plain.rank, Ends.upstream, Ends.moveUp, Ends.closeUp, Sock.rank, Copy.rank, ht, hg,
      hh, hrun, hheld, hlive, hshut, List.length_append, List.drop_zero, List.length_take,
      List.length_drop, Bool.false_eq_true, if_false]
    omega

theorem Plain.down_rank (hi : s.Inv line input) (a : CopyAct) (ha : a ≠ .fail)
    (h : s.step S (.down a) = some s') : s'.rank < s.rank := by
  simp only [Plain.step, Option.ite_none_right_eq_some, Option.map_eq_some_iff] at h
  obtain ⟨-, m, hm, rfl⟩ := h
  have hrec := hi.ledger.received
  have htaken := hi.ledger.taken
  rcases Copy.step_cases _ _ _ a m ha hm with ⟨n, -, hc, -, hn, hle, rfl⟩ |
    ⟨-, hc, -, -, -, rfl⟩ | ⟨-, -, hs, -⟩ | ⟨n, left, -, hc, hn, hle, -, ht, hg, hh, hrun⟩
  · simp only [Ends.downPorts, List.length_drop] at hle
    dsimp only [Plain.rank, Ends.upstream, Ends.moveDown, Ends.downPorts, Sock.rank]
    simp only [Copy.rank, Copy.held, Copy.isStopped, hc, List.length_append, List.length_take,
      List.length_drop, List.length_nil, Bool.false_eq_true, if_false]
    omega
  · dsimp only [Plain.rank, Ends.upstream, Ends.moveDown, Sock.rank]
    simp only [Copy.rank, Copy.held, Copy.isStopped, hc, List.length_append, List.length_nil,
      Bool.false_eq_true, if_false, if_true]
    omega
  · simp [Ends.downPorts] at hs
  · have hheld : s.down.held = left := by rw [hc]; rfl
    have hlive : s.down.isStopped = false := by rw [hc]; rfl
    dsimp only [Plain.rank, Ends.upstream, Ends.moveDown, Sock.rank]
    simp only [Copy.rank, ht, hg, hh, hrun, hheld, hlive, List.length_append, List.length_take,
      List.length_drop, Bool.false_eq_true, if_false]
    omega

theorem Plain.step_rank (hi : s.Inv line input) (a : PlainAct) (ha : a.orderly = true)
    (h : s.step S a = some s') : s'.rank < s.rank := by
  cases a with
  | ends a => exact Plain.ends_rank a ((PlainAct.orderly_ends a).mp ha) h
  | up a => exact Plain.up_rank hi a ((PlainAct.orderly_up a).mp ha) h
  | down a => exact Plain.down_rank hi a ((PlainAct.orderly_down a).mp ha) h

end Rank

/-! ### End to end -/

theorem plain_role_short : ("plain" : String).utf8ByteSize ≤ 5 := by decide

/-- Plain path end-to-end echo. Take any client, any clean stream followed by a half-close, any
chunking of the reads on both sockets, the preamble coalesced with data or not, any partial writes
and any order of the two pumps and the processor's task, with no upgrade and no I/O error. What the
client has read is at all times a front part of the echo of its stream, in which the preamble has no
part. When no step is enabled it is all of it; and that point is always reached, within `rank`
further steps. -/
theorem plain_echo_end_to_end (S : Serde) (c : AcceptedClient) (input : Bytes) (b : Buffers)
    (fd : Fd) (now : ℕ) (hserde : S.Faithful (c.preamble "plain")) (hclean : Clean true input)
    (as : List PlainAct) (s : Plain linesCodec) (hok : ∀ a ∈ as, PlainAct.orderly a = true)
    (hrun : exec (Plain.step S) (bridgePlainViaUds linesCodec S c input b fd now) as = some s) :
    s.delivered <+: echo true input ∧
    (s.Idle S → s.delivered = echo true input) ∧
    (∃ bs t, (∀ a ∈ bs, PlainAct.orderly a = true) ∧ exec (Plain.step S) s bs = some t ∧
      t.Idle S) ∧
    ∀ bs t, (∀ a ∈ bs, PlainAct.orderly a = true) → exec (Plain.step S) s bs = some t →
      bs.length ≤ s.rank := by
  have hS := hserde.opens plain_role_short
  have hstart := bridgePlainViaUds_inv linesCodec S c input b fd now
  have hinv := Plain.exec_inv linesCodec_strict hS _ s as hstart hok hrun
  have hroomy : s.ends.Roomy := by
    refine exec_invariant (fun s a t hr ht => Plain.step_roomy s t a hr ht) _ s as ?_ hrun
    exact ⟨b.tcp_pos.1, b.tcp_pos.2, b.uds_pos.1, b.uds_pos.2⟩
  rw [← hclean.reply_eq]
  refine ⟨?_, fun hidle => hidle.delivered hinv hroomy, ?_, ?_⟩
  · exact (List.take_prefix _ _).trans hinv.ledger.forwarded_prefix
  · have hstep : ∀ s : Plain linesCodec, s.Inv (S.toString (c.preamble "plain")) input →
        ¬ s.Idle S → ∃ a t, PlainAct.orderly a = true ∧ s.step S a = some t ∧
          t.Inv (S.toString (c.preamble "plain")) input ∧ t.rank < s.rank := by
      intro s hi hidle
      simp only [Plain.Idle, not_forall] at hidle
      obtain ⟨a, ha, hne⟩ := hidle
      obtain ⟨t, ht⟩ := Option.ne_none_iff_exists'.mp hne
      exact ⟨a, t, ha, ht, Plain.step_inv linesCodec_strict hS a ha hi ht,
        Plain.step_rank hi a ha ht⟩
    obtain ⟨bs, t, hb, hbs, -, hidle⟩ := exec_to_goal Plain.rank hstep s hinv
    exact ⟨bs, t, hb, hbs, hidle⟩
  · intro bs t hb hbs
    have hle := exec_length_le (I := fun s => s.Inv (S.toString (c.preamble "plain")) input)
      Plain.rank (fun s a t hi ha ht => ⟨Plain.step_inv linesCodec_strict hS a ha hi ht,
        Plain.step_rank hi a ha ht⟩) s t bs hinv hb hbs
    omega

/-! ### One client -/

def localClient : AcceptedClient :=
  ⟨"127.0.0.1:5000", "0000002a-0000000000000007", by decide, by decide⟩

/-- The JSON text of the client's preamble around its role. -/
def localText (role : Bytes) : Bytes :=
  [123, 34, 107, 105, 110, 100, 34, 58, 34, 115, 101, 115, 115, 105, 111, 110, 34, 44, 34, 112,
   101, 101, 114, 34, 58, 34, 49, 50, 55, 46, 48, 46, 48, 46, 49, 58, 53, 48, 48, 48, 34, 44,
   34, 114, 111, 108, 101, 34, 58, 34] ++
    role ++
    [34, 44, 34, 116, 114, 97, 99, 101, 95, 105, 100, 34, 58, 34, 48, 48, 48, 48, 48, 48, 50,
     97, 45, 48, 48, 48, 48, 48, 48, 48, 48, 48, 48, 48, 48, 48, 48, 48, 55, 34, 125]

/-- `serde_json` as far as this client needs it. -/
def localSerde : Serde where
  toString
    | .session _ role _ =>
      if role = "tls" then localText [116, 108, 115] else localText [112, 108, 97, 105, 110]
    | .sidecar => [123, 34, 107, 105, 110, 100, 34, 58, 34, 115, 105, 100, 101, 99, 97, 114, 34, 125]
  fromStr l :=
    if l = localText [116, 108, 115] then some (localClient.preamble "tls")
    else if l = localText [112, 108, 97, 105, 110] then some (localClient.preamble "plain")
    else none

theorem localSerde_plain : localSerde.Faithful (localClient.preamble "plain") := by
  refine ⟨by decide, by decide, by decide, by decide, by decide⟩

def localBuffers : Buffers := ⟨8, 8, 256, 8, by decide, by decide⟩

theorem clean_hi : Clean true [104, 105, 10] := by
  refine ⟨?_, by decide, by decide⟩
  intro l hl
  have hl : l = [104, 105] := by simpa [lines, newline] using hl
  subst hl
  decide

/-- The data arrives with the preamble in one read. -/
def coalescedRun : List PlainAct :=
  [.ends (.client (.send 3)), .ends (.preamble 97), .up (.read 3), .up (.write 2), .up (.write 1),
    .ends (.proc .poll), .ends (.proc (.recv 100)), .ends (.proc .poll), .ends (.proc .poll),
    .ends (.proc .poll), .ends (.proc .poll), .ends (.proc .poll), .ends (.proc (.write 3)),
    .down (.read 2), .down (.write 2), .ends (.client (.take 2))]

theorem plain_echo_coalesced :
    ∃ s : Plain linesCodec,
      exec (Plain.step localSerde)
        (bridgePlainViaUds linesCodec localSerde localClient [104, 105, 10] localBuffers 7 0)
        coalescedRun = some s ∧
      s.delivered = [104, 105] ∧ s.delivered <+: echo true [104, 105, 10] := by
  have hend : (exec (Plain.step localSerde)
      (bridgePlainViaUds linesCodec localSerde localClient [104, 105, 10] localBuffers 7 0)
      coalescedRun).map Plain.delivered = some [104, 105] := by decide
  obtain ⟨s, hs, hd⟩ := Option.map_eq_some_iff.mp hend
  refine ⟨s, hs, hd, ?_⟩
  exact (plain_echo_end_to_end localSerde localClient [104, 105, 10] localBuffers 7 0
    localSerde_plain clean_hi coalescedRun s (by decide) hs).1

end FiveNinesEcho.Acceptor
