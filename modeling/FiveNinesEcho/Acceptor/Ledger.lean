import FiveNinesEcho.Acceptor.Ends
import FiveNinesEcho.Processor.Transparency

/-!
# The ledger of a bridged connection

Whatever the acceptor forwards with, and in whatever order the client, the two directions and the
processor move, the bytes are accounted for: the preamble line and then the client's stream reach
the processor in order, the preamble is consumed before the session starts and nothing but it, and
what the processor writes reaches the client in order. `Ledger` says so of a state and is kept by
every move that is not an I/O error.
-/

namespace FiveNinesEcho.Acceptor
open Lib Handoff Processor
variable {C : Codec}

/-! ### Where the stream is -/

/-- The dispatch on its way through the preamble: nothing was written, and the line and the client's
stream are still in front of it, or the line was just decoded. -/
structure Opening (line input wire ahead : Bytes) (t : Task C) : Prop where
  framing : Framing ahead t
  silent : wire = []
  stage : ((t.pc = .next ∨ t.pc = .read) ∧
      t.framed.readBuf ++ ahead = line ++ newline :: input) ∨
    (t.pc = .ready line ∧ t.framed.readBuf ++ ahead = input)

def Incoming.On (line input wire ahead : Bytes) : Incoming C → Prop
  | .dispatching t => Opening line input wire ahead t
  | .session t => Steady (reply input) wire ahead t
  | .sidecar _ => False
  | .dropped => False

theorem Opening.next {S : Serde} {line input wire ahead : Bytes} {t t' : Task C}
    (hS : S.Opens line) (ho : Opening line input wire ahead t) (hp : t.pc = .next)
    (hn : NextMove t t') : Opening line input wire ahead t' := by
  have hstream : t.framed.readBuf ++ ahead = line ++ newline :: input := by
    rcases ho.stage with ⟨-, h⟩ | ⟨hr, -⟩
    · exact h
    · exact absurd (hp.symm.trans hr) (by simp)
  have halive : t'.alive = true → Framing ahead t' := hn.framing ho.framing hp
  cases hn with
  | line l r st hr hb hl hacc hst =>
    rw [hb, List.append_assoc, List.cons_append] at hstream
    obtain ⟨rfl, hinput⟩ := front_unique newline l line _ input hl hS.one_line hstream
    refine ⟨halive rfl, ho.silent, Or.inr ⟨?_, hinput⟩⟩
    rw [hS.whole]
  | wait st hb he hst => exact ⟨halive rfl, ho.silent, Or.inl ⟨Or.inr rfl, hstream⟩⟩
  | last st he hb hre hst =>
    rw [(ho.framing.eof he).1, List.append_nil] at hstream
    exact absurd (by simp [hstream]) hb
  | finished f hre =>
    have hnil := hre ahead (fun he => (ho.framing.eof he).1)
    rw [hstream, reply_line line input hS.one_line hS.accepted] at hnil
    simp [echoLine, encode] at hnil

theorem Opening.step {S : Serde} {line input rest : Bytes} {k k' : Sock} {t t' : Task C}
    (hC : C.Strict) (hS : S.Opens line) (a : TaskAct)
    (ho : Opening line input k.wire (k.inbox ++ rest) t) (hp : t.pc = .next ∨ t.pc = .read)
    (hg : k.gone = false) (hshut : k.shut = true → rest = []) (h : t.step k a = some (k', t')) :
    Opening line input k'.wire (k'.inbox ++ rest) t' := by
  have hstream : t.framed.readBuf ++ (k.inbox ++ rest) = line ++ newline :: input := by
    rcases ho.stage with ⟨-, h⟩ | ⟨hr, -⟩
    · exact h
    · rcases hp with hp | hp <;> exact absurd (hp.symm.trans hr) (by simp)
  cases a with
  | poll =>
    obtain ⟨rfl, hpoll⟩ := Task.step_poll k k' t t' h
    rcases hp with hp | hp
    · have ht : t' = t.pollNext := by simpa [Task.poll, hp, eq_comm] using hpoll
      rw [ht]
      exact ho.next hS hp (pollNext_move hC ho.framing)
    · simp [Task.poll, hp] at hpoll
  | recv n =>
    obtain ⟨-, rfl, rfl, hf⟩ := ho.framing.recv n h
    refine ⟨hf, ho.silent, Or.inl ⟨Or.inl rfl, ?_⟩⟩
    rw [← hstream, append_take_drop]
  | recvEof =>
    obtain ⟨rfl, -, -, rfl, hf⟩ := ho.framing.recvEof hg hshut h
    exact ⟨hf, ho.silent, Or.inl ⟨Or.inl rfl, hstream⟩⟩
  | write n =>
    obtain ⟨hw, -⟩ := ho.framing.write n h
    rcases hp with hp | hp <;> simp [hp] at hw
  | ioErr => simp [Task.step, hg] at h
  | cancel => simp [Task.step, ho.framing.uncancelled] at h

/-- The session takes over the buffer behind the preamble. -/
theorem Opening.dispatch {S : Serde} {line input wire ahead : Bytes} {t : Task C}
    (hS : S.Opens line) (ho : Opening line input wire ahead t) (hp : t.pc = .ready line) :
    (dispatchIncoming S t line).On line input wire ahead := by
  obtain ⟨peer, role, traceId, hparsed⟩ := hS.parsed
  have hwb : t.framed.writeBuf = [] := ho.framing.idle (by simp only [Task.between, hp])
  have hinput : t.framed.readBuf ++ ahead = input := by
    rcases ho.stage with ⟨hn | hn, -⟩ | ⟨-, h⟩
    · exact absurd (hp.symm.trans hn) (by simp)
    · exact absurd (hp.symm.trans hn) (by simp)
    · exact h
  simp only [dispatchIncoming, hparsed, Incoming.On]
  have hpc : (spawnSession t.framed t.udsFd peer 0 t.connectedAtUnixMs traceId).pc = .select := by
    simp [spawnSession, hwb]
  refine ⟨fun _ => ?_, fun _ => ?_, fun ha => ?_⟩
  · exact ho.framing.move _ rfl rfl rfl rfl ho.framing.uncancelled.symm id (fun _ => hwb)
      (by simp [hpc])
  · simp only [Task.owed, hpc]
    simp only [spawnSession, hwb, ho.silent, List.nil_append, hinput]
  · simp [Task.alive, hpc] at ha

theorem Incoming.step_waiting (S : Serde) (k : Sock) (t : Task C) (a : TaskAct)
    (hp : t.pc = .next ∨ t.pc = .read) : (Incoming.dispatching t).step S k a =
      (t.step k a).map fun p => (p.1, .dispatching p.2) := by
  rcases hp with hp | hp <;> simp only [Incoming.step, hp]

theorem Incoming.On.step {S : Serde} {line input rest : Bytes} {k k' : Sock} {c c' : Incoming C}
    (hC : C.Strict) (hS : S.Opens line) (a : TaskAct)
    (ho : c.On line input k.wire (k.inbox ++ rest)) (hg : k.gone = false)
    (hshut : k.shut = true → rest = []) (h : c.step S k a = some (k', c')) :
    c'.On line input k'.wire (k'.inbox ++ rest) := by
  cases c with
  | session t =>
    simp only [Incoming.step, Option.map_eq_some_iff, Prod.mk.injEq] at h
    obtain ⟨⟨k₁, t₁⟩, ht, rfl, rfl⟩ := h
    exact Steady.step hC a ho hg hshut ht
  | dispatching t =>
    rcases ho.stage with ⟨hp, -⟩ | ⟨hp, -⟩
    · rw [Incoming.step_waiting S k t a hp] at h
      simp only [Option.map_eq_some_iff, Prod.mk.injEq] at h
      obtain ⟨⟨k₁, t₁⟩, ht, rfl, rfl⟩ := h
      exact Opening.step hC hS a ho hp hg hshut ht
    · simp only [Incoming.step, hp, Option.ite_none_right_eq_some, Option.some.injEq,
        Prod.mk.injEq] at h
      obtain ⟨-, rfl, rfl⟩ := h
      exact Opening.dispatch hS ho hp
  | sidecar f => exact ho.elim
  | dropped => exact ho.elim

theorem Incoming.On.written {line input wire ahead : Bytes} {c : Incoming C}
    (h : c.On line input wire ahead) : wire <+: reply input := by
  cases c with
  | session t => exact Steady.written h
  | dispatching t =>
    rw [Opening.silent h]
    exact List.nil_prefix
  | sidecar f => exact h.elim
  | dropped => exact h.elim

theorem Incoming.On.closed {line input wire ahead : Bytes} {c : Incoming C}
    (h : c.On line input wire ahead) (hc : c.closed = true) : wire = reply input := by
  cases c with
  | session t =>
    have hp : t.pc = .ended := by simpa [Incoming.closed] using hc
    exact (Steady.ended h (by simp only [Task.alive, hp])).2
  | dispatching t =>
    have hp : t.pc = .ended := by simpa [Incoming.closed] using hc
    rcases Opening.stage h with ⟨hn | hn, -⟩ | ⟨hn, -⟩ <;> exact absurd (hp.symm.trans hn) (by simp)
  | sidecar f => exact h.elim
  | dropped => exact h.elim

/-! ### A stream that is cut off -/

/-- `Incoming.On` for a stream that was cut off behind the preamble. -/
def Incoming.Live (line wire ahead : Bytes) : Incoming C → Prop
  | .dispatching t => ∃ input, Opening line input wire ahead t
  | .session t => ∃ total, Steady total wire ahead t
  | .sidecar _ => False
  | .dropped => False

theorem Incoming.On.live {line input wire ahead : Bytes} {c : Incoming C}
    (h : c.On line input wire ahead) : c.Live line wire ahead := by
  cases c with
  | dispatching t => exact ⟨input, h⟩
  | session t => exact ⟨reply input, h⟩
  | sidecar f => exact h.elim
  | dropped => exact h.elim

/-- A session that has ended does not care what else is on its way. -/
theorem Incoming.On.ended {line input wire ahead ahead' : Bytes} {c : Incoming C}
    (h : c.On line input wire ahead) (hc : c.closed = true) : c.On line input wire ahead' := by
  cases c with
  | session t =>
    have hp : t.pc = .ended := by simpa [Incoming.closed] using hc
    have ha : t.alive = false := by simp only [Task.alive, hp]
    refine ⟨?_, ?_, Steady.ended h⟩
    · simp [ha]
    · simp [ha]
  | dispatching t =>
    have hp : t.pc = .ended := by simpa [Incoming.closed] using hc
    rcases Opening.stage h with ⟨hn | hn, -⟩ | ⟨hn, -⟩ <;> exact absurd (hp.symm.trans hn) (by simp)
  | sidecar f => exact h.elim
  | dropped => exact h.elim

theorem Opening.cut {line input wire inbox rest : Bytes} {t : Task C}
    (ho : Opening line input wire (inbox ++ rest) t) (hle : rest.length ≤ input.length) :
    ∃ input', Opening line input' wire inbox t := by
  have hcut : ∀ xs ys : Bytes, xs ++ rest = ys ++ input → ∃ zs, xs = ys ++ zs := by
    intro xs ys h
    have hlen := congrArg List.length h
    simp only [List.length_append] at hlen
    have hpre : ys <+: xs :=
      List.prefix_of_prefix_length_le (h ▸ List.prefix_append ys input) (List.prefix_append xs rest)
        (by omega)
    obtain ⟨zs, hzs⟩ := hpre
    exact ⟨zs, hzs.symm⟩
  rcases ho.stage with ⟨hp, hstream⟩ | ⟨hp, hstream⟩
  · obtain ⟨zs, hzs⟩ := hcut (t.framed.readBuf ++ inbox) (line ++ [newline]) (by simpa using hstream)
    exact ⟨zs, ho.framing.cut, ho.silent, Or.inl ⟨hp, by simpa using hzs⟩⟩
  · exact ⟨t.framed.readBuf ++ inbox, ho.framing.cut, ho.silent, Or.inr ⟨hp, rfl⟩⟩

theorem Incoming.On.cut {line input wire inbox rest : Bytes} {c : Incoming C}
    (h : c.On line input wire (inbox ++ rest)) (hle : rest.length ≤ input.length) :
    c.Live line wire inbox := by
  cases c with
  | dispatching t => exact Opening.cut h hle
  | session t => exact Steady.cut h
  | sidecar f => exact h.elim
  | dropped => exact h.elim

theorem Incoming.Live.step {S : Serde} {line : Bytes} {k k' : Sock} {c c' : Incoming C}
    (hC : C.Strict) (hS : S.Opens line) (a : TaskAct) (hl : c.Live line k.wire k.inbox)
    (hg : k.gone = false) (h : c.step S k a = some (k', c')) : c'.Live line k'.wire k'.inbox := by
  cases c with
  | session t =>
    obtain ⟨total, hs⟩ := hl
    simp only [Incoming.step, Option.map_eq_some_iff, Prod.mk.injEq] at h
    obtain ⟨⟨k₁, t₁⟩, ht, rfl, rfl⟩ := h
    have hs' : Steady total k.wire (k.inbox ++ []) t := by rwa [List.append_nil]
    have hstep := Steady.step hC a hs' hg (fun _ => rfl) ht
    rw [List.append_nil] at hstep
    exact ⟨total, hstep⟩
  | dispatching t =>
    obtain ⟨input, ho⟩ := hl
    have ho' : (Incoming.dispatching t).On line input k.wire (k.inbox ++ []) := by
      rwa [List.append_nil]
    have hstep := Incoming.On.step hC hS a ho' hg (fun _ => rfl) h
    rw [List.append_nil] at hstep
    exact hstep.live
  | sidecar f => exact hl.elim
  | dropped => exact hl.elim

/-- The processor's end, when it has no move and can write, waits for bytes. -/
theorem Incoming.Live.blocked {line ahead : Bytes} {k : Sock} {c : Incoming C} (S : Serde)
    (hl : c.Live line k.wire ahead) (hclosed : c.closed = false) (hg : k.gone = false)
    (hroom : 0 < k.room) (h : ∀ a, c.step S k a = none) : k.inbox = [] ∧ k.shut = false := by
  cases c with
  | session t =>
    obtain ⟨total, hs⟩ := hl
    have ha : t.alive = true := by
      cases ha : t.alive with
      | true => rfl
      | false => simp [Incoming.closed, (hs.ended ha).1] at hclosed
    have hstep : ∀ a, t.step k a = none := by simpa [Incoming.step] using h
    exact (Task.blocked (hs.framing ha).idle ha hg hroom hstep).2
  | dispatching t =>
    obtain ⟨input, ho⟩ := hl
    rcases ho.stage with ⟨hp, -⟩ | ⟨hp, -⟩
    · have ha : t.alive = true := by rcases hp with hp | hp <;> simp only [Task.alive, hp]
      have hstep : ∀ a, t.step k a = none := by
        intro a
        have ha := h a
        rw [Incoming.step_waiting S _ t a hp] at ha
        simpa using ha
      exact (Task.blocked ho.framing.idle ha hg hroom hstep).2
    · have hpoll := h .poll
      simp [Incoming.step, hp] at hpoll
  | sidecar f => exact hl.elim
  | dropped => exact hl.elim

/-! ### The ledger of a bridged connection -/

def Ends.upstream (e : Ends C) (up : Copy Byte) : Bytes :=
  e.opening ++ up.held ++ e.client.inbox ++ e.client.toSend

/-- No byte is lost between the client and the processor in either direction: what is upstream of
the processor is still to come in order, and what it wrote is with the client, in the bridge's
hands, or unread. -/
structure Ledger (line input : Bytes) (e : Ends C) (up down : Copy Byte) : Prop where
  conn : e.conn.On line input e.uds.wire (e.uds.inbox ++ e.upstream up)
  shut : e.uds.shut = true → e.upstream up = []
  forwarded : e.client.wire ++ down.held = e.uds.wire.take e.uds.taken
  taken : e.uds.taken ≤ e.uds.wire.length
  received : e.client.taken ≤ e.client.wire.length
  fin : e.client.shut = true → e.client.toSend = []
  closes : e.client.closes = true
  here : e.client.gone = false ∧ e.uds.gone = false
  opened : e.opening ≠ [] → (∃ t, e.conn = .dispatching t) ∧
    up.held ++ e.client.inbox ++ e.client.toSend = input

theorem Ledger.forwarded_prefix {line input : Bytes} {e : Ends C} {up down : Copy Byte}
    (h : Ledger line input e up down) : e.client.wire <+: reply input := by
  have htake : e.uds.wire.take e.uds.taken <+: e.uds.wire := List.take_prefix _ _
  rw [← h.forwarded] at htake
  exact ((List.prefix_append _ _).trans htake).trans h.conn.written

/-- As long as the preamble is not out, the processor waits for the rest of it. -/
theorem Ledger.waits {line input : Bytes} {e : Ends C} {up down : Copy Byte}
    (h : Ledger line input e up down) (hopen : e.opening ≠ []) :
    ∃ t, e.conn = .dispatching t ∧ (t.pc = .next ∨ t.pc = .read) := by
  obtain ⟨⟨t, hc⟩, hrest⟩ := h.opened hopen
  refine ⟨t, hc, ?_⟩
  have hconn := h.conn
  rw [hc] at hconn
  rcases Opening.stage hconn with ⟨hp, -⟩ | ⟨-, hstream⟩
  · exact hp
  · have hlen := congrArg List.length hstream
    have hrestlen := congrArg List.length hrest
    have hpos : 0 < e.opening.length := List.length_pos_iff.mpr hopen
    simp only [Ends.upstream, List.length_append] at hlen hrestlen
    omega

theorem Ledger.start (line input : Bytes) (b : Buffers) (fd : Fd) (now : ℕ) :
    Ledger line input (Ends.start C (encode line) input b fd now) .reading .reading := by
  refine ⟨⟨⟨fun c => C.fresh_synced _, fun _ => rfl, ?_, ?_, ?_, rfl⟩, rfl, ?_⟩, ?_, ?_, ?_, ?_, ?_,
    rfl, ⟨rfl, rfl⟩, fun _ => ⟨⟨_, rfl⟩, ?_⟩⟩
  · simp
  · simp
  · simp
  · left
    simp [Ends.start, Ends.upstream, Sock.open, Copy.held, encode]
  · simp [Ends.start, Sock.open]
  · simp [Ends.start, Sock.open, Copy.held]
  · simp [Ends.start, Sock.open]
  · simp [Ends.start, Sock.open]
  · simp [Ends.start, Sock.open]
  · simp [Ends.start, Sock.open, Copy.held]

/-! ### Every move keeps the ledger -/

theorem Incoming.step_sock (S : Serde) (k k' : Sock) (c c' : Incoming C) (a : TaskAct)
    (h : c.step S k a = some (k', c')) :
    k'.shut = k.shut ∧ k'.gone = k.gone ∧ k'.taken = k.taken ∧ k.wire <+: k'.wire ∧
    k'.cap = k.cap := by
  have htask : ∀ (t t' : Task C), t.step k a = some (k', t') →
      k'.shut = k.shut ∧ k'.gone = k.gone ∧ k'.taken = k.taken ∧ k.wire <+: k'.wire ∧
      k'.cap = k.cap := by
    intro t t' ht
    obtain ⟨-, -, hs, hg, hk, hcap, hw, -⟩ := Task.step_sock k k' t t' a ht
    exact ⟨hs, hg, hk, hw, hcap⟩
  cases c with
  | session t =>
    simp only [Incoming.step, Option.map_eq_some_iff, Prod.mk.injEq] at h
    obtain ⟨⟨k₁, t₁⟩, ht, rfl, -⟩ := h
    exact htask t t₁ ht
  | dispatching t =>
    simp only [Incoming.step] at h
    split at h
    · simp only [Option.ite_none_right_eq_some, Option.some.injEq, Prod.mk.injEq] at h
      obtain ⟨-, rfl, -⟩ := h
      exact ⟨rfl, rfl, rfl, List.prefix_refl _, rfl⟩
    · simp only [Option.map_eq_some_iff, Prod.mk.injEq] at h
      obtain ⟨⟨k₁, t₁⟩, ht, rfl, -⟩ := h
      exact htask t t₁ ht
  | sidecar f => simp [Incoming.step] at h
  | dropped => simp [Incoming.step] at h

theorem Incoming.closed_step (S : Serde) (k : Sock) (c : Incoming C) (a : TaskAct)
    (h : c.closed = true) : c.step S k a = none := by
  cases c with
  | dispatching t =>
    have hp : t.pc = .ended := by simpa [Incoming.closed] using h
    simp only [Incoming.step, hp, Task.ended_step a hp, Option.map_none]
  | session t =>
    have hp : t.pc = .ended := by simpa [Incoming.closed] using h
    simp only [Incoming.step, Task.ended_step a hp, Option.map_none]
  | sidecar f => simp [Incoming.closed] at h
  | dropped => rfl

theorem Ends.step_frame (S : Serde) (e e' : Ends C) (a : EndsAct) (h : e.step S a = some e') :
    e'.uds.shut = e.uds.shut ∧
    (e.conn.closed = true → e'.conn = e.conn ∧ e'.uds.wire = e.uds.wire) ∧
    e'.uds.taken = e.uds.taken ∧ e'.tcpIn = e.tcpIn ∧ e'.udsIn = e.udsIn ∧
    e'.uds.cap = e.uds.cap ∧ e'.client.cap = e.client.cap := by
  cases a with
  | client a =>
    simp only [Ends.step, Option.ite_none_right_eq_some, Option.map_eq_some_iff] at h
    obtain ⟨-, k, hk, rfl⟩ := h
    obtain ⟨-, hcap, -⟩ := Sock.peer_sock _ _ a hk
    simp [hcap]
  | preamble n =>
    simp only [Ends.step, Option.ite_none_right_eq_some, Option.some.injEq] at h
    obtain ⟨-, rfl⟩ := h
    simp
  | proc a =>
    simp only [Ends.step, Option.map_eq_some_iff] at h
    obtain ⟨⟨k, c⟩, hk, rfl⟩ := h
    obtain ⟨hs, -, ht, -, hcap⟩ := Incoming.step_sock S _ _ _ _ a hk
    refine ⟨hs, ?_, ht, rfl, rfl, hcap, rfl⟩
    intro hc
    rw [Incoming.closed_step S _ _ a hc] at hk
    cases hk

section Moves
variable {line input : Bytes} {e : Ends C} {up down : Copy Byte}

theorem Ledger.client (hl : Ledger line input e up down) (a : PeerAct) (ha : a ≠ .hangup)
    (k : Sock) (h : e.client.peer a = some k) : Ledger line input { e with client := k } up down := by
  cases a with
  | send n =>
    simp only [Sock.peer, Option.ite_none_right_eq_some, Option.some.injEq] at h
    obtain ⟨⟨hn, hle, -⟩, rfl⟩ := h
    have hne : e.client.toSend ≠ [] := List.length_pos_iff.mp (by omega)
    have hup : e.opening ++ up.held ++ (e.client.inbox ++ e.client.toSend.take n) ++
        e.client.toSend.drop n = e.upstream up := by
      simp [Ends.upstream]
    refine ⟨?_, ?_, hl.forwarded, hl.taken, hl.received, fun hs => absurd (hl.fin hs) hne,
      hl.closes, hl.here, ?_⟩
    · simp only [Ends.upstream, hup]
      exact hl.conn
    · simp only [Ends.upstream, hup]
      exact hl.shut
    · intro hopen
      obtain ⟨hdisp, hrest⟩ := hl.opened hopen
      refine ⟨hdisp, ?_⟩
      rw [← hrest]
      simp
  | shut =>
    simp only [Sock.peer, Option.ite_none_right_eq_some, Option.some.injEq] at h
    obtain ⟨⟨hs, -, -⟩, rfl⟩ := h
    exact ⟨hl.conn, hl.shut, hl.forwarded, hl.taken, hl.received, fun _ => hs, hl.closes, hl.here,
      hl.opened⟩
  | take n =>
    simp only [Sock.peer, Option.ite_none_right_eq_some, Option.some.injEq] at h
    obtain ⟨⟨-, hle⟩, rfl⟩ := h
    exact ⟨hl.conn, hl.shut, hl.forwarded, hl.taken, hle, hl.fin, hl.closes, hl.here, hl.opened⟩
  | hangup => exact absurd rfl ha

theorem Ledger.preamble {S : Serde} (hl : Ledger line input e up down) (n : ℕ) (e' : Ends C)
    (h : e.step S (.preamble n) = some e') : Ledger line input e' up down := by
  simp only [Ends.step, Option.ite_none_right_eq_some, Option.some.injEq] at h
  obtain ⟨⟨hn, hle, -⟩, rfl⟩ := h
  have hne : e.opening ≠ [] := List.length_pos_iff.mp (by omega)
  have hahead : e.uds.inbox ++ e.opening.take n ++
      (e.opening.drop n ++ up.held ++ e.client.inbox ++ e.client.toSend) =
      e.uds.inbox ++ e.upstream up := by
    simp only [Ends.upstream, List.append_assoc (e.opening.drop n), List.append_assoc e.opening,
      append_take_drop]
  refine ⟨?_, ?_, hl.forwarded, hl.taken, hl.received, hl.fin, hl.closes, hl.here,
    fun _ => hl.opened hne⟩
  · simp only [Ends.upstream, hahead]
    exact hl.conn
  · intro hs
    have hnil := hl.shut hs
    simp [Ends.upstream, hne] at hnil

theorem Ledger.proc {S : Serde} (hC : C.Strict) (hS : S.Opens line)
    (hl : Ledger line input e up down) (a : TaskAct) (k : Sock) (c : Incoming C)
    (h : e.conn.step S e.uds a = some (k, c)) :
    Ledger line input { e with uds := k, conn := c } up down := by
  obtain ⟨hshut, hgone, htaken, hwire, -⟩ := Incoming.step_sock S _ _ _ _ a h
  have hle := hwire.length_le
  have hsame : k.wire.take k.taken = e.uds.wire.take e.uds.taken := by
    obtain ⟨x, hx⟩ := hwire
    rw [← hx, htaken, List.take_append_of_le_length hl.taken]
  refine ⟨Incoming.On.step hC hS a hl.conn hl.here.2 hl.shut h, ?_, ?_, ?_, hl.received, hl.fin,
    hl.closes, ⟨hl.here.1, hgone.trans hl.here.2⟩, ?_⟩
  · intro hs
    exact hl.shut (hshut.symm.trans hs)
  · rw [hsame]
    exact hl.forwarded
  · rw [htaken]
    exact Nat.le_trans hl.taken hle
  · intro hopen
    refine ⟨?_, (hl.opened hopen).2⟩
    obtain ⟨t, hc, hp⟩ := hl.waits hopen
    rw [hc, Incoming.step_waiting S _ t a hp, Option.map_eq_some_iff] at h
    obtain ⟨⟨k₁, t₁⟩, -, hk⟩ := h
    exact ⟨t₁, (Prod.mk.inj hk).2.symm⟩

/-- The client, the opening of the session and the processor. -/
theorem Ledger.ends {S : Serde} (hC : C.Strict) (hS : S.Opens line)
    (hl : Ledger line input e up down) (a : EndsAct) (ha : a ≠ .client .hangup) (e' : Ends C)
    (h : e.step S a = some e') : Ledger line input e' up down := by
  cases a with
  | client a =>
    simp only [Ends.step, Option.ite_none_right_eq_some, Option.map_eq_some_iff] at h
    obtain ⟨-, k, hk, rfl⟩ := h
    exact hl.client a (fun he => ha (by rw [he])) k hk
  | preamble n => exact hl.preamble n e' h
  | proc a =>
    simp only [Ends.step, Option.map_eq_some_iff] at h
    obtain ⟨⟨k, c⟩, hk, rfl⟩ := h
    exact hl.proc hC hS a k c hk

theorem Ends.moveUp_stream (hopen : e.opening = []) (size : ℕ) (stop : Bool) (a : CopyAct)
    (ha : a ≠ .fail) (m : Copied Byte) (h : up.step size (e.upPorts stop) a = some m) :
    (e.moveUp m).uds.inbox ++ (e.moveUp m).upstream m.loop = e.uds.inbox ++ e.upstream up := by
  have hcons := Copy.step_conserves size _ up a m ha h
  simp only [Ends.upPorts] at hcons
  simp only [Ends.moveUp, Ends.upstream, hopen, List.nil_append]
  rw [← hcons]
  simp only [List.append_assoc]

/-- The loop from the client to the processor. -/
theorem Ledger.moveUp (hl : Ledger line input e up down) (hopen : e.opening = []) (size : ℕ)
    (stop : Bool) (a : CopyAct) (ha : a ≠ .fail) (m : Copied Byte)
    (h : up.step size (e.upPorts stop) a = some m) : Ledger line input (e.moveUp m) m.loop down := by
  refine ⟨?_, ?_, hl.forwarded, hl.taken, hl.received, hl.fin, hl.closes, hl.here,
    fun hne => absurd hopen hne⟩
  · rw [Ends.moveUp_stream hopen size stop a ha m h]
    exact hl.conn
  · intro hs
    have hnil := hl.shut hs
    have hcons := Copy.step_conserves size _ up a m ha h
    simp only [Ends.upPorts] at hcons
    rw [Ends.upstream, hopen, List.nil_append, ← hcons] at hnil
    simp only [List.append_eq_nil_iff] at hnil
    simp only [Ends.upstream, Ends.moveUp, hopen, hnil.1.1.2, hnil.1.2, hnil.2, List.append_nil]

theorem Ledger.closeUp (hl : Ledger line input e up down) (b : Bool)
    (hb : b = true → e.upstream up = []) : Ledger line input (e.closeUp b) up down :=
  ⟨hl.conn, hb, hl.forwarded, hl.taken, hl.received, hl.fin, hl.closes, hl.here, hl.opened⟩

/-- The loop from the processor to the client. -/
theorem Ledger.moveDown (hl : Ledger line input e up down) (size : ℕ) (stop : Bool)
    (a : CopyAct) (ha : a ≠ .fail) (m : Copied Byte)
    (h : down.step size (e.downPorts stop) a = some m) :
    Ledger line input (e.moveDown m) up m.loop := by
  have htaken := Copy.step_taken size _ down a m ha h
  simp only [Ends.downPorts, List.length_drop] at htaken
  have hle := hl.taken
  refine ⟨hl.conn, hl.shut, ?_, ?_, ?_, hl.fin, hl.closes, hl.here, hl.opened⟩
  · exact Copy.step_forwards size _ down a m ha h _ _ _ rfl hl.forwarded
  · simp only [Ends.moveDown]
    omega
  · have hrec := hl.received
    simp only [Ends.moveDown, List.length_append]
    omega

end Moves

end FiveNinesEcho.Acceptor
