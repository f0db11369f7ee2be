import FiveNinesEcho.Acceptor.Plain

/-!
# When a plain bridge gives its slot back (`acceptor/data.rs:146-184`)

`spawn_client` holds the `SessionGuard` until `bridge_plain_via_uds` has joined its two pumps. A pump
that stops shuts its sink down, "cascading EOF to the peer pump". That works from the client to the
processor: the half-close ends the session, and the end of the session reaches the other pump. In
the other direction the half-close goes to the client, and the pump that reads from the client
learns of it only by what the client does next.
-/

namespace FiveNinesEcho.Acceptor
open Lib Handoff Processor
variable {C : Codec}

/-! ### Steps -/

/-- An I/O error has a cause: a read from the client fails when the client is gone, as does a write
to it; a write to the processor fails when the processor has closed its end, and a read from it then
fails at the end of what it wrote. -/
def Plain.caused (s : Plain C) : PlainAct → Bool
  | .up .fail => match s.up with
    | .reading => s.ends.client.gone
    | .writing _ => s.ends.conn.closed
    | .stopped => false
  | .down .fail => match s.down with
    | .reading => s.ends.conn.closed && (s.ends.uds.wire.drop s.ends.uds.taken).isEmpty
    | .writing _ => s.ends.client.gone
    | .stopped => false
  | _ => true

def PlainAct.byClient : PlainAct → Bool
  | .ends (.client _) => true
  | _ => false

def Plain.quiet (s : Plain C) (a : PlainAct) : Bool := s.caused a && !a.byClient

/-- Both pumps can be joined, and the guard dropped, with no further step by the client. -/
def Plain.CanComplete (S : Serde) (s : Plain C) : Prop :=
  ∃ as t, Along (Plain.step S) (fun s a => s.quiet a = true) s as ∧
    exec (Plain.step S) s as = some t ∧ t.returned = true

/-- A client that is still there has to have room for the whole answer when its stream has ended,
and something in its socket for the pump to see when the processor has ended. Of a client that is
gone the pump must not hold more than the UDS takes. -/
structure Plain.Releases (input : Bytes) (s : Plain C) : Prop where
  answered : s.up = .stopped → s.down = .stopped ∨ s.ends.client.gone = true ∨
    (reply input).length ≤ s.ends.client.cap + s.ends.client.taken
  noticed : s.up = .reading → s.ends.client.gone = true ∨ s.ends.client.inbox ≠ [] ∨
    s.ends.client.shut = true
  taken : ∀ left, s.up = .writing left → s.ends.conn.closed = true ∨ left.length ≤ s.ends.udsRoom

/-! ### The invariant of a run -/

/-- What holds in every run, with I/O errors. As long as the pump towards the processor runs,
nothing of the client's stream is lost; when it has stopped the processor has been sent a front part
of it, and the whole of it, or as much as it wanted, if the client is still there. -/
structure Plain.Bridged (line input : Bytes) (s : Plain C) : Prop where
  roomy : s.ends.Roomy
  here : s.ends.uds.gone = false
  up_writing : s.up ≠ .writing []
  down_writing : s.down ≠ .writing []
  up_shut : s.ends.uds.shut = s.up.isStopped
  opened : s.up ≠ .reading ∨ s.down ≠ .reading → s.ends.opening = []
  fin : s.ends.client.shut = true → s.ends.client.toSend = []
  below : (s.up.held ++ s.ends.client.inbox ++ s.ends.client.toSend).length ≤ input.length
  running : s.up ≠ .stopped →
    s.ends.conn.On line input s.ends.uds.wire (s.ends.uds.inbox ++ s.ends.upstream s.up)
  cut : s.up = .stopped → s.ends.conn.Live line s.ends.uds.wire s.ends.uds.inbox
  whole : s.up = .stopped → s.ends.client.gone = false →
    s.ends.conn.On line input s.ends.uds.wire s.ends.uds.inbox
  taken : s.ends.uds.taken ≤ s.ends.uds.wire.length
  filled : s.ends.client.wire.length ≤ s.ends.client.cap + s.ends.client.taken
  forwarded : s.ends.client.gone = false →
    s.ends.client.wire ++ s.down.held = s.ends.uds.wire.take s.ends.uds.taken
  drained : s.down = .stopped → s.ends.client.gone = true ∨
    (s.ends.conn.closed = true ∧ s.ends.uds.taken = s.ends.uds.wire.length)

theorem bridgePlainViaUds_bridged (C : Codec) (S : Serde) (c : AcceptedClient) (input : Bytes)
    (b : Buffers) (fd : Fd) (now : ℕ) :
    (bridgePlainViaUds C S c input b fd now).Bridged (S.toString (c.preamble "plain")) input := by
  have hl := Ledger.start (C := C) (S.toString (c.preamble "plain")) input b fd now
  have hroomy : (bridgePlainViaUds C S c input b fd now).ends.Roomy :=
    ⟨b.tcp_pos.1, b.tcp_pos.2, b.uds_pos.1, b.uds_pos.2⟩
  refine ⟨hroomy, rfl, ?_, ?_, rfl, ?_, hl.fin, ?_, fun _ => hl.conn, ?_, ?_, hl.taken, ?_,
    fun _ => hl.forwarded, ?_⟩
  · simp [bridgePlainViaUds]
  · simp [bridgePlainViaUds]
  · simp [bridgePlainViaUds]
  · simp [bridgePlainViaUds, Ends.start, Sock.open, Copy.held]
  · simp [bridgePlainViaUds]
  · simp [bridgePlainViaUds]
  · simp [bridgePlainViaUds, Ends.start, Sock.open]
  · simp [bridgePlainViaUds]

section Steps
variable {S : Serde} {line input : Bytes} {s s' : Plain C}

theorem Plain.Bridged.client (hb : s.Bridged line input) (a : PeerAct)
    (h : s.step S (.ends (.client a)) = some s') : s'.Bridged line input := by
  have hroomy := Plain.step_roomy s s' _ hb.roomy h
  simp only [Plain.step, Ends.step, Option.map_eq_some_iff, Option.ite_none_right_eq_some] at h
  obtain ⟨e, ⟨-, k, hk, rfl⟩, rfl⟩ := h
  cases a with
  | send n =>
    simp only [Sock.peer, Option.ite_none_right_eq_some, Option.some.injEq] at hk
    obtain ⟨⟨hn, hle, hg⟩, rfl⟩ := hk
    have hne : s.ends.client.toSend ≠ [] := List.length_pos_iff.mp (by omega)
    have hup : s.up.held ++ (s.ends.client.inbox ++ s.ends.client.toSend.take n) ++
        s.ends.client.toSend.drop n =
        s.up.held ++ s.ends.client.inbox ++ s.ends.client.toSend := by simp
    refine ⟨hroomy, hb.here, hb.up_writing, hb.down_writing, hb.up_shut, hb.opened,
      fun hs => absurd (hb.fin hs) hne, ?_, ?_, hb.cut, hb.whole, hb.taken, hb.filled,
      hb.forwarded, hb.drained⟩
    · rw [hup]
      exact hb.below
    · intro hrun
      have hsame : Ends.upstream { s.ends with client := { s.ends.client with
          toSend := s.ends.client.toSend.drop n
          inbox := s.ends.client.inbox ++ s.ends.client.toSend.take n } } s.up =
          s.ends.upstream s.up := by
        simp [Ends.upstream]
      rw [hsame]
      exact hb.running hrun
  | shut =>
    simp only [Sock.peer, Option.ite_none_right_eq_some, Option.some.injEq] at hk
    obtain ⟨⟨hs, -, -⟩, rfl⟩ := hk
    exact ⟨hroomy, hb.here, hb.up_writing, hb.down_writing, hb.up_shut, hb.opened, fun _ => hs,
      hb.below, hb.running, hb.cut, hb.whole, hb.taken, hb.filled, hb.forwarded, hb.drained⟩
  | take n =>
    simp only [Sock.peer, Option.ite_none_right_eq_some, Option.some.injEq] at hk
    obtain ⟨-, rfl⟩ := hk
    refine ⟨hroomy, hb.here, hb.up_writing, hb.down_writing, hb.up_shut, hb.opened, hb.fin,
      hb.below, hb.running, hb.cut, hb.whole, hb.taken, ?_, hb.forwarded, hb.drained⟩
    have hle := hb.filled
    show s.ends.client.wire.length ≤ s.ends.client.cap + (s.ends.client.taken + n)
    omega
  | hangup =>
    simp only [Sock.peer, Option.some.injEq] at hk
    subst hk
    refine ⟨hroomy, hb.here, hb.up_writing, hb.down_writing, hb.up_shut, hb.opened, hb.fin,
      hb.below, hb.running, hb.cut, ?_, hb.taken, hb.filled, ?_, fun _ => Or.inl rfl⟩
    · simp
    · simp

theorem Plain.Bridged.preamble (hb : s.Bridged line input) (n : ℕ)
    (h : s.step S (.ends (.preamble n)) = some s') : s'.Bridged line input := by
  have hroomy := Plain.step_roomy s s' _ hb.roomy h
  simp only [Plain.step, Ends.step, Option.map_eq_some_iff, Option.ite_none_right_eq_some,
    Option.some.injEq] at h
  obtain ⟨e, ⟨⟨hn, hle, -⟩, rfl⟩, rfl⟩ := h
  have hne : s.ends.opening ≠ [] := List.length_pos_iff.mp (by omega)
  -- no pump has moved yet
  have hfresh : ¬ (s.up ≠ .reading ∨ s.down ≠ .reading) := fun hm => hne (hb.opened hm)
  have hup : s.up = .reading := by
    by_contra hup
    exact hfresh (Or.inl hup)
  refine ⟨hroomy, hb.here, hb.up_writing, hb.down_writing, hb.up_shut, fun hm => absurd hm hfresh,
    hb.fin, hb.below, ?_, ?_, ?_, hb.taken, hb.filled, hb.forwarded, hb.drained⟩
  · intro hrun
    have hsame : s.ends.uds.inbox ++ s.ends.opening.take n ++ (s.ends.opening.drop n ++ s.up.held ++
        s.ends.client.inbox ++ s.ends.client.toSend) = s.ends.uds.inbox ++ s.ends.upstream s.up := by
      simp only [Ends.upstream, List.append_assoc (s.ends.opening.drop n),
        List.append_assoc s.ends.opening, append_take_drop]
    simp only [Ends.upstream, hsame]
    exact hb.running hrun
  · simp [hup]
  · simp [hup]

theorem Plain.Bridged.proc (hC : C.Strict) (hS : S.Opens line) (hb : s.Bridged line input)
    (a : TaskAct) (h : s.step S (.ends (.proc a)) = some s') : s'.Bridged line input := by
  have hroomy := Plain.step_roomy s s' _ hb.roomy h
  simp only [Plain.step, Ends.step, Option.map_eq_some_iff] at h
  obtain ⟨e, ⟨⟨k, c⟩, hk, rfl⟩, rfl⟩ := h
  obtain ⟨hshut, hgone, htaken, hwire, -⟩ := Incoming.step_sock S _ _ _ _ a hk
  have hle := hwire.length_le
  have hopen : s.ends.conn.closed = false := by
    by_contra hclosed
    rw [Incoming.closed_step S _ _ a (by simpa using hclosed)] at hk
    cases hk
  refine ⟨hroomy, hgone.trans hb.here, hb.up_writing, hb.down_writing, hshut.trans hb.up_shut,
    hb.opened, hb.fin, hb.below, ?_, ?_, ?_, ?_, hb.filled, ?_, ?_⟩
  · intro hrun
    refine Incoming.On.step hC hS a (hb.running hrun) hb.here ?_ hk
    intro hs
    rw [hb.up_shut, Copy.isStopped_iff] at hs
    exact absurd hs hrun
  · intro hstop
    exact Incoming.Live.step hC hS a (hb.cut hstop) hb.here hk
  · intro hstop hg
    have hon : s.ends.conn.On line input s.ends.uds.wire (s.ends.uds.inbox ++ []) := by
      rw [List.append_nil]
      exact hb.whole hstop hg
    have hstep := Incoming.On.step hC hS a hon hb.here (fun _ => rfl) hk
    rwa [List.append_nil] at hstep
  · show k.taken ≤ k.wire.length
    have := hb.taken
    omega
  · intro hg
    obtain ⟨x, hx⟩ := hwire
    show s.ends.client.wire ++ s.down.held = k.wire.take k.taken
    rw [← hx, htaken, List.take_append_of_le_length hb.taken]
    exact hb.forwarded hg
  · intro hstop
    rcases hb.drained hstop with hg | ⟨hclosed, -⟩
    · exact Or.inl hg
    · exact absurd (hopen.symm.trans hclosed) (by simp)

/-- The pump towards the processor stops, for whatever reason. -/
theorem Plain.Bridged.stopUp (hb : s.Bridged line input) (hopen : s.ends.opening = [])
    (hcut : s.ends.conn.Live line s.ends.uds.wire s.ends.uds.inbox)
    (hwhole : s.ends.client.gone = false →
      s.ends.conn.On line input s.ends.uds.wire s.ends.uds.inbox) :
    Plain.Bridged line input
      { s with ends := (s.ends.moveUp ⟨.stopped, 0, []⟩).closeUp true, up := .stopped } := by
  have hmove : s.ends.moveUp ⟨.stopped, 0, []⟩ = s.ends := by simp [Ends.moveUp]
  rw [hmove]
  refine ⟨⟨hb.roomy.tcpIn, hb.roomy.tcpOut, hb.roomy.udsIn, hb.roomy.udsOut⟩, hb.here, by simp,
    hb.down_writing, rfl, fun _ => hopen, hb.fin, ?_, by simp, fun _ => hcut, fun _ => hwhole,
    hb.taken, hb.filled, hb.forwarded, hb.drained⟩
  have hle := hb.below
  simp only [Ends.closeUp, Copy.held, List.length_append, List.length_nil] at hle ⊢
  omega

theorem Plain.Bridged.runUp (hb : s.Bridged line input) (hopen : s.ends.opening = [])
    (a : CopyAct) (ha : a ≠ .fail) (m : Copied Byte)
    (hm : s.up.step bufferSize (s.ends.upPorts false) a = some m) (hgo : m.loop.isStopped = false) :
    Plain.Bridged line input { s with ends := (s.ends.moveUp m).closeUp false, up := m.loop } := by
  have hrun : m.loop ≠ .stopped := by
    intro hs
    simp [hs, Copy.isStopped] at hgo
  have hlive : s.up ≠ .stopped := by
    intro hs
    rw [hs] at hm
    cases a <;> cases hm
  refine ⟨⟨hb.roomy.tcpIn, hb.roomy.tcpOut, hb.roomy.udsIn, hb.roomy.udsOut⟩, hb.here,
    Copy.step_writing _ _ _ a m hm, hb.down_writing, hgo.symm, fun _ => hopen, hb.fin, ?_, ?_,
    fun hs => absurd hs hrun, fun hs => absurd hs hrun, hb.taken, hb.filled, hb.forwarded, hb.drained⟩
  · have hlen := congrArg List.length (Copy.step_conserves _ _ _ a m ha hm)
    have hle := hb.below
    simp only [Ends.upPorts, Ends.closeUp, Ends.moveUp, List.length_append] at hlen hle ⊢
    omega
  · intro _
    have hon := hb.running hlive
    rw [← Ends.moveUp_stream hopen bufferSize false a ha m hm] at hon
    exact hon

theorem Plain.Bridged.up (hb : s.Bridged line input) (a : CopyAct)
    (ha : s.caused (.up a) = true) (h : s.step S (.up a) = some s') : s'.Bridged line input := by
  simp only [Plain.step, Option.ite_none_right_eq_some, Option.map_eq_some_iff] at h
  obtain ⟨hopen, m, hm, rfl⟩ := h
  by_cases hfail : a = .fail
  · subst hfail
    have hst := Copy.step_fail _ _ _ m hm
    subst hst
    cases hup : s.up with
    | reading =>
      -- the client is gone, and with it the part of its stream that was not read
      have hgone : s.ends.client.gone = true := by simpa [Plain.caused, hup] using ha
      have hon := hb.running (by simp [hup])
      refine hb.stopUp hopen (hon.cut ?_) (by simp [hgone])
      rw [Ends.upstream, hopen, List.nil_append]
      exact hb.below
    | writing left =>
      have hclosed : s.ends.conn.closed = true := by simpa [Plain.caused, hup] using ha
      have hon : s.ends.conn.On line input s.ends.uds.wire s.ends.uds.inbox :=
        (hb.running (by simp [hup])).ended hclosed
      exact hb.stopUp hopen hon.live (fun _ => hon)
    | stopped =>
      rw [hup] at hm
      cases hm
  · cases hstop : m.loop.isStopped with
    | true =>
      obtain ⟨-, hup, hready, hended, rfl⟩ := Copy.step_stops _ _ _ a m hfail rfl hm hstop
      simp only [Ends.upPorts] at hready hended
      have hon := hb.running (by simp [hup])
      have hnil : s.ends.upstream s.up = [] := by
        simp [Ends.upstream, hopen, hup, hready, hb.fin hended, Copy.held]
      rw [hnil, List.append_nil] at hon
      exact hb.stopUp hopen hon.live (fun _ => hon)
    | false => exact hb.runUp hopen a hfail m hm hstop

/-- The pump towards the client stops: the client is gone, or it was given everything. -/
theorem Plain.Bridged.stopDown (hb : s.Bridged line input) (hopen : s.ends.opening = [])
    (hcause : s.ends.client.gone = true ∨ (s.down = .reading ∧ s.ends.conn.closed = true ∧
      s.ends.uds.taken = s.ends.uds.wire.length)) :
    Plain.Bridged line input
      { s with ends := s.ends.moveDown ⟨.stopped, 0, []⟩, down := .stopped } := by
  have hmove : s.ends.moveDown ⟨.stopped, 0, []⟩ = s.ends := by simp [Ends.moveDown]
  rw [hmove]
  refine ⟨hb.roomy, hb.here, hb.up_writing, by simp, hb.up_shut, fun _ => hopen, hb.fin, hb.below,
    hb.running, hb.cut, hb.whole, hb.taken, hb.filled, ?_, ?_⟩
  · intro hg
    rcases hcause with hgone | ⟨hdown, -⟩
    · exact absurd (hg.symm.trans hgone) (by simp)
    · have hf := hb.forwarded hg
      rwa [hdown] at hf
  · intro _
    rcases hcause with hgone | ⟨-, hclosed⟩
    · exact Or.inl hgone
    · exact Or.inr hclosed

theorem Plain.Bridged.runDown (hb : s.Bridged line input) (hopen : s.ends.opening = [])
    (a : CopyAct) (ha : a ≠ .fail) (m : Copied Byte)
    (hm : s.down.step bufferSize (s.ends.downPorts false) a = some m)
    (hgo : m.loop.isStopped = false) :
    Plain.Bridged line input { s with ends := s.ends.moveDown m, down := m.loop } := by
  have hle := hb.taken
  refine ⟨⟨hb.roomy.tcpIn, hb.roomy.tcpOut, hb.roomy.udsIn, hb.roomy.udsOut⟩, hb.here,
    hb.up_writing, Copy.step_writing _ _ _ a m hm, hb.up_shut, fun _ => hopen, hb.fin, hb.below,
    hb.running, hb.cut, hb.whole, ?_, ?_, ?_, ?_⟩
  · have htaken := Copy.step_taken _ _ _ a m ha hm
    simp only [Ends.downPorts, List.length_drop] at htaken
    show s.ends.uds.taken + m.taken ≤ s.ends.uds.wire.length
    omega
  · have hfit := hb.filled
    have hgiven : m.given.length ≤ s.ends.client.room := Copy.step_given _ _ _ a m ha hm
    simp only [Sock.room] at hgiven
    simp only [Ends.moveDown, List.length_append]
    omega
  · intro hg
    exact Copy.step_forwards _ _ _ a m ha hm _ _ _ rfl (hb.forwarded hg)
  · intro (hs : m.loop = .stopped)
    simp [hs, Copy.isStopped] at hgo

theorem Plain.Bridged.down (hb : s.Bridged line input) (a : CopyAct)
    (ha : s.caused (.down a) = true) (h : s.step S (.down a) = some s') : s'.Bridged line input := by
  simp only [Plain.step, Option.ite_none_right_eq_some, Option.map_eq_some_iff] at h
  obtain ⟨hopen, m, hm, rfl⟩ := h
  have hle := hb.taken
  by_cases hfail : a = .fail
  · subst hfail
    have hst := Copy.step_fail _ _ _ m hm
    subst hst
    refine hb.stopDown hopen ?_
    cases hdown : s.down with
    | reading =>
      simp only [Plain.caused, hdown, Bool.and_eq_true, List.isEmpty_iff,
        List.drop_eq_nil_iff] at ha
      exact Or.inr ⟨rfl, ha.1, Nat.le_antisymm hle ha.2⟩
    | writing left =>
      left
      simpa [Plain.caused, hdown] using ha
    | stopped => simp [Plain.caused, hdown] at ha
  · cases hstop : m.loop.isStopped with
    | true =>
      obtain ⟨-, hdown, hready, hended, rfl⟩ := Copy.step_stops _ _ _ a m hfail rfl hm hstop
      simp only [Ends.downPorts, List.drop_eq_nil_iff] at hready hended
      exact hb.stopDown hopen (Or.inr ⟨hdown, hended, Nat.le_antisymm hle hready⟩)
    | false => exact hb.runDown hopen a hfail m hm hstop

theorem Plain.Bridged.step (hC : C.Strict) (hS : S.Opens line) (a : PlainAct)
    (hb : s.Bridged line input) (ha : s.caused a = true) (h : s.step S a = some s') :
    s'.Bridged line input := by
  cases a with
  | ends a =>
    cases a with
    | client a => exact hb.client a h
    | preamble n => exact hb.preamble n h
    | proc a => exact hb.proc hC hS a h
  | up a => exact hb.up a ha h
  | down a => exact hb.down a ha h

end Steps

/-! ### A client that does nothing more -/

section Quiet
variable {S : Serde} {line input : Bytes} {s s' : Plain C}

theorem Plain.step_up_of (hopen : s.ends.opening = []) (a : CopyAct) (m : Copied Byte)
    (hm : s.up.step bufferSize (s.ends.upPorts false) a = some m) : s.step S (.up a) =
      some { s with ends := (s.ends.moveUp m).closeUp m.loop.isStopped, up := m.loop } := by
  simp only [Plain.step, hopen, if_true, hm, Option.map_some]

theorem Plain.step_down_of (hopen : s.ends.opening = []) (a : CopyAct) (m : Copied Byte)
    (hm : s.down.step bufferSize (s.ends.downPorts false) a = some m) : s.step S (.down a) =
      some { s with ends := s.ends.moveDown m, down := m.loop } := by
  simp only [Plain.step, hopen, if_true, hm, Option.map_some]

theorem Plain.quiet_iff (a : PlainAct) :
    s.quiet a = true ↔ s.caused a = true ∧ a.byClient = false := by
  simp [Plain.quiet]

/-- What the client's own steps alone change. -/
theorem Plain.step_client (a : PlainAct) (ha : a.byClient = false) (h : s.step S a = some s') :
    s'.ends.client.gone = s.ends.client.gone ∧ s'.ends.client.shut = s.ends.client.shut ∧
    s'.ends.client.cap = s.ends.client.cap ∧ s'.ends.client.taken = s.ends.client.taken := by
  cases a with
  | ends a =>
    simp only [Plain.step, Option.map_eq_some_iff] at h
    obtain ⟨e, he, rfl⟩ := h
    cases a with
    | client a => simp [PlainAct.byClient] at ha
    | preamble n =>
      simp only [Ends.step, Option.ite_none_right_eq_some, Option.some.injEq] at he
      obtain ⟨-, rfl⟩ := he
      simp
    | proc a =>
      simp only [Ends.step, Option.map_eq_some_iff] at he
      obtain ⟨⟨k, c⟩, -, rfl⟩ := he
      simp
  | up a =>
    simp only [Plain.step, Option.ite_none_right_eq_some, Option.map_eq_some_iff] at h
    obtain ⟨-, m, -, rfl⟩ := h
    simp [Ends.closeUp, Ends.moveUp]
  | down a =>
    simp only [Plain.step, Option.ite_none_right_eq_some, Option.map_eq_some_iff] at h
    obtain ⟨-, m, -, rfl⟩ := h
    simp [Ends.moveDown]

theorem Plain.step_up_stopped (a : PlainAct) (hup : s.up = .stopped) (h : s.step S a = some s') :
    s'.up = .stopped := by
  cases a with
  | ends a =>
    simp only [Plain.step, Option.map_eq_some_iff] at h
    obtain ⟨e, -, rfl⟩ := h
    exact hup
  | up a =>
    simp only [Plain.step, hup, Option.ite_none_right_eq_some, Option.map_eq_some_iff] at h
    obtain ⟨-, m, hm, -⟩ := h
    cases a <;> cases hm
  | down a =>
    simp only [Plain.step, Option.ite_none_right_eq_some, Option.map_eq_some_iff] at h
    obtain ⟨-, m, -, rfl⟩ := h
    exact hup

/-! ### The stream has ended -/

/-- What is left to do behind a half-close: the rank of the processor's session, and the bytes that
are on their way to the client. -/
def Plain.backlog (s : Plain C) : ℕ :=
  8 * (s.ends.uds.rank + s.ends.conn.rank) + 2 * s.down.held.length + s.down.rank

theorem Plain.Bridged.writes (hb : s.Bridged line input) (hopen : s.ends.opening = [])
    (hup : s.up = .stopped) (hfit : s.ends.client.gone = true ∨
      (reply input).length ≤ s.ends.client.cap + s.ends.client.taken) (left : Bytes)
    (hdown : s.down = .writing left) :
    ∃ a t, s.quiet a = true ∧ s.step S a = some t ∧ t.backlog < s.backlog := by
  have hne : left ≠ [] := fun hnil => hb.down_writing (by rw [hdown, hnil])
  have hpos : 0 < left.length := List.length_pos_iff.mpr hne
  cases hg : s.ends.client.gone with
  | true =>
    refine ⟨.down .fail, _, by simp [Plain.quiet, Plain.caused, PlainAct.byClient, hdown, hg],
      Plain.step_down_of hopen .fail ⟨.stopped, 0, []⟩ (by rw [hdown]; rfl), ?_⟩
    dsimp only [Plain.backlog, Ends.moveDown, Sock.rank]
    simp only [hdown, Copy.held, Copy.rank,
      Copy.isStopped, List.length_nil, Nat.add_zero, if_true, Bool.false_eq_true, if_false]
    omega
  | false =>
    -- the client has a front part of the answer, which fits, and not all of it
    have hroom : 0 < s.ends.client.room := by
      have hf := hb.forwarded hg
      have hpre : s.ends.client.wire ++ left <+: reply input := by
        rw [hdown] at hf
        simp only [Copy.held] at hf
        rw [hf]
        exact (List.take_prefix _ _).trans (hb.whole hup hg).written
      have hlen := hpre.length_le
      have hle : (reply input).length ≤ s.ends.client.cap + s.ends.client.taken := by
        simpa [hg] using hfit
      simp only [List.length_append] at hlen
      simp only [Sock.room]
      omega
    have hm : s.down.step bufferSize (s.ends.downPorts false) (.write 1) =
        some ⟨if 1 = left.length then .reading else .writing (left.drop 1), 0, left.take 1⟩ := by
      have hok : 0 < 1 ∧ 1 ≤ left.length ∧ 1 ≤ (s.ends.downPorts false).room :=
        ⟨Nat.one_pos, hpos, hroom⟩
      simp only [hdown, Copy.step, if_pos hok]
    refine ⟨.down (.write 1), _, by simp [Plain.quiet, Plain.caused, PlainAct.byClient],
      Plain.step_down_of hopen _ _ hm, ?_⟩
    by_cases hone : 1 = left.length
    · dsimp only [Plain.backlog, Ends.moveDown, Sock.rank]
      simp only [hdown, Copy.held, Copy.rank,
        Copy.isStopped, if_pos hone, List.length_nil, Nat.add_zero, Bool.false_eq_true, if_false]
      omega
    · dsimp only [Plain.backlog, Ends.moveDown, Sock.rank]
      simp only [hdown, Copy.held, Copy.rank,
        Copy.isStopped, if_neg hone, List.length_drop, Nat.add_zero, Bool.false_eq_true, if_false]
      omega

theorem Plain.Bridged.reads (hb : s.Bridged line input) (hopen : s.ends.opening = [])
    (hup : s.up = .stopped) (hdown : s.down = .reading) :
    ∃ a t, s.quiet a = true ∧ s.step S a = some t ∧ t.backlog < s.backlog := by
  have hle := hb.taken
  by_cases hdry : s.ends.uds.wire.length ≤ s.ends.uds.taken
  · have hready : s.ends.uds.wire.drop s.ends.uds.taken = [] := List.drop_eq_nil_of_le hdry
    cases hclosed : s.ends.conn.closed with
    | true =>
      have hm : s.down.step bufferSize (s.ends.downPorts false) .eof = some ⟨.stopped, 0, []⟩ := by
        simp [hdown, Copy.step, Ends.downPorts, hready, hclosed]
      refine ⟨.down .eof, _, by simp [Plain.quiet, Plain.caused, PlainAct.byClient],
        Plain.step_down_of hopen _ _ hm, ?_⟩
      dsimp only [Plain.backlog, Ends.moveDown, Sock.rank]
      simp only [hdown, Copy.held, Copy.rank,
        Copy.isStopped, Nat.add_zero, if_true, Bool.false_eq_true, if_false]
      omega
    | false =>
      -- nothing is unread, so the processor has the whole buffer to write to
      have hcap := hb.roomy.udsOut
      have hroom : 0 < s.ends.uds.room := by
        simp only [Sock.room]
        omega
      have hshut : s.ends.uds.shut = true := by
        rw [hb.up_shut, hup]
        rfl
      have hmoves : ∃ a, s.ends.conn.step S s.ends.uds a ≠ none := by
        by_contra hno
        have hwait := (hb.cut hup).blocked S hclosed hb.here hroom (by simpa using hno)
        exact absurd (hwait.2.symm.trans hshut) (by simp)
      obtain ⟨a, ha⟩ := hmoves
      obtain ⟨⟨k, c⟩, hk⟩ := Option.ne_none_iff_exists'.mp ha
      have hlt := Incoming.step_rank S _ _ _ _ a hk
      refine ⟨.ends (.proc a), { s with ends := { s.ends with uds := k, conn := c } },
        by simp [Plain.quiet, Plain.caused, PlainAct.byClient], ?_, ?_⟩
      · simp only [Plain.step, Ends.step, hk, Option.map_some]
      · simp only [Plain.backlog]
        omega
  · have hm : s.down.step bufferSize (s.ends.downPorts false) (.read 1) =
        some ⟨.writing ((s.ends.uds.wire.drop s.ends.uds.taken).take 1), 1, []⟩ := by
      have hlen : 1 ≤ (s.ends.uds.wire.drop s.ends.uds.taken).length := by
        rw [List.length_drop]
        omega
      have hok : (s.ends.downPorts false).stop = false ∧ 0 < 1 ∧ 1 ≤ bufferSize ∧
          1 ≤ (s.ends.downPorts false).ready.length :=
        ⟨rfl, Nat.one_pos, by decide, hlen⟩
      simp only [hdown, Copy.step, if_pos hok]
      rfl
    refine ⟨.down (.read 1), _, by simp [Plain.quiet, Plain.caused, PlainAct.byClient],
      Plain.step_down_of hopen _ _ hm, ?_⟩
    dsimp only [Plain.backlog, Ends.moveDown, Sock.rank]
    simp only [hdown, Copy.held, Copy.rank,
      Copy.isStopped, List.length_take, List.length_drop, List.length_nil, Bool.false_eq_true,
      if_false]
    omega

/-- Behind the end of the client's stream the bridge runs out by itself. -/
theorem Plain.Bridged.completes (hC : C.Strict) (hS : S.Opens line) (hb : s.Bridged line input)
    (hup : s.up = .stopped) (hfit : s.ends.client.gone = true ∨
      (reply input).length ≤ s.ends.client.cap + s.ends.client.taken) : s.CanComplete S := by
  have hstep : ∀ s : Plain C, (s.Bridged line input ∧ s.up = .stopped ∧
      (s.ends.client.gone = true ∨
        (reply input).length ≤ s.ends.client.cap + s.ends.client.taken)) →
      ¬ s.returned = true → ∃ a t, s.quiet a = true ∧ s.step S a = some t ∧
        (t.Bridged line input ∧ t.up = .stopped ∧ (t.ends.client.gone = true ∨
          (reply input).length ≤ t.ends.client.cap + t.ends.client.taken)) ∧
        t.backlog < s.backlog := by
    intro s hs hret
    obtain ⟨hb, hup, hfit⟩ := hs
    have hopen : s.ends.opening = [] := hb.opened (Or.inl (by simp [hup]))
    have hmove : ∃ a t, s.quiet a = true ∧ s.step S a = some t ∧ t.backlog < s.backlog := by
      cases hdown : s.down with
      | reading => exact hb.reads hopen hup hdown
      | writing left => exact hb.writes hopen hup hfit left hdown
      | stopped => simp [Plain.returned, hup, hdown, Copy.isStopped] at hret
    obtain ⟨a, t, ha, ht, hlt⟩ := hmove
    obtain ⟨hcause, hclient⟩ := (Plain.quiet_iff a).mp ha
    obtain ⟨hg, -, hcap, htaken⟩ := Plain.step_client a hclient ht
    refine ⟨a, t, ha, ht, ⟨hb.step hC hS a hcause ht, Plain.step_up_stopped a hup ht, ?_⟩, hlt⟩
    rw [hg, hcap, htaken]
    exact hfit
  obtain ⟨as, t, hquiet, hrun, -, hret⟩ := exec_to_goal_along Plain.backlog hstep s ⟨hb, hup, hfit⟩
  exact ⟨as, t, hquiet, hrun, hret⟩

/-! ### The processor has ended -/

theorem Plain.CanComplete.cons (t : Plain C) (a : PlainAct) (ha : s.quiet a = true)
    (h : s.step S a = some t) (ht : t.CanComplete S) : s.CanComplete S := by
  obtain ⟨as, u, hquiet, hrun, hret⟩ := ht
  refine ⟨a :: as, u, ⟨ha, ?_⟩, by rw [exec_cons s t a as h]; exact hrun, hret⟩
  intro t' ht'
  cases h.symm.trans ht'
  exact hquiet

theorem Plain.canComplete_returned (h : s.returned = true) : s.CanComplete S :=
  ⟨[], s, trivial, rfl, h⟩

theorem Plain.canComplete_fail (hopen : s.ends.opening = []) (hdown : s.down = .stopped)
    (ha : s.caused (.up .fail) = true) : s.CanComplete S := by
  have hm : s.up.step bufferSize (s.ends.upPorts false) .fail = some ⟨.stopped, 0, []⟩ := by
    cases hup : s.up with
    | reading => rfl
    | writing left => rfl
    | stopped => simp [Plain.caused, hup] at ha
  refine Plain.CanComplete.cons _ (.up .fail) ?_ (Plain.step_up_of hopen _ _ hm)
    (Plain.canComplete_returned ?_)
  · simp [Plain.quiet, ha, PlainAct.byClient]
  · simp [Plain.returned, hdown, Copy.isStopped]

/-- The pump reads from the client after the processor has ended: what it finds there it cannot
write. -/
theorem Plain.Bridged.notices (hb : s.Bridged line input) (hdown : s.down = .stopped)
    (hup : s.up = .reading) (hsees : s.ends.client.gone = true ∨ s.ends.client.inbox ≠ [] ∨
      s.ends.client.shut = true) : s.CanComplete S := by
  have hopen : s.ends.opening = [] := hb.opened (Or.inr (by simp [hdown]))
  rcases hb.drained hdown with hg | ⟨hclosed, -⟩
  · exact Plain.canComplete_fail hopen hdown (by simp [Plain.caused, hup, hg])
  · by_cases hin : s.ends.client.inbox = []
    · rcases hsees with hg | hne | hshut
      · exact Plain.canComplete_fail hopen hdown (by simp [Plain.caused, hup, hg])
      · exact absurd hin hne
      · have hm : s.up.step bufferSize (s.ends.upPorts false) .eof = some ⟨.stopped, 0, []⟩ := by
          simp [hup, Copy.step, Ends.upPorts, hin, hshut]
        refine Plain.CanComplete.cons _ (.up .eof) ?_ (Plain.step_up_of hopen _ _ hm)
          (Plain.canComplete_returned ?_)
        · simp [Plain.quiet, Plain.caused, PlainAct.byClient]
        · simp [Plain.returned, hdown, Copy.isStopped]
    · have hpos : 1 ≤ s.ends.client.inbox.length := List.length_pos_iff.mpr hin
      have hm : s.up.step bufferSize (s.ends.upPorts false) (.read 1) =
          some ⟨.writing (s.ends.client.inbox.take 1), 1, []⟩ := by
        have hok : (s.ends.upPorts false).stop = false ∧ 0 < 1 ∧ 1 ≤ bufferSize ∧
            1 ≤ (s.ends.upPorts false).ready.length :=
          ⟨rfl, Nat.one_pos, by decide, hpos⟩
        simp only [hup, Copy.step, if_pos hok]
        rfl
      refine Plain.CanComplete.cons _ (.up (.read 1)) ?_ (Plain.step_up_of hopen _ _ hm)
        (Plain.canComplete_fail hopen hdown ?_)
      · simp [Plain.quiet, Plain.caused, PlainAct.byClient]
      · simpa [Plain.caused, Ends.closeUp, Ends.moveUp] using hclosed

/-- The pump is in the middle of a write to the processor. -/
theorem Plain.Bridged.gives (hb : s.Bridged line input) (hdown : s.down = .stopped)
    (left : Bytes) (hup : s.up = .writing left)
    (htakes : s.ends.conn.closed = true ∨ left.length ≤ s.ends.udsRoom) : s.CanComplete S := by
  have hopen : s.ends.opening = [] := hb.opened (Or.inr (by simp [hdown]))
  cases hclosed : s.ends.conn.closed with
  | true => exact Plain.canComplete_fail hopen hdown (by simp [Plain.caused, hup, hclosed])
  | false =>
    -- the pump towards the client did not stop at the end of the answer
    have hg : s.ends.client.gone = true := by
      rcases hb.drained hdown with hg | ⟨hc, -⟩
      · exact hg
      · exact absurd (hclosed.symm.trans hc) (by simp)
    have hroom : left.length ≤ s.ends.udsRoom := by simpa [hclosed] using htakes
    have hpos : 0 < left.length :=
      List.length_pos_iff.mpr fun hnil => hb.up_writing (by rw [hup, hnil])
    have hm : s.up.step bufferSize (s.ends.upPorts false) (.write left.length) =
        some ⟨.reading, 0, left⟩ := by
      have hok : 0 < left.length ∧ left.length ≤ left.length ∧
          left.length ≤ (s.ends.upPorts false).room := ⟨hpos, le_rfl, hroom⟩
      simp only [hup, Copy.step, if_pos hok, if_true, List.take_length]
    refine Plain.CanComplete.cons _ (.up (.write left.length)) ?_ (Plain.step_up_of hopen _ _ hm)
      (Plain.canComplete_fail hopen hdown ?_)
    · simp [Plain.quiet, Plain.caused, PlainAct.byClient]
    · simpa [Plain.caused, Ends.closeUp, Ends.moveUp] using hg

/-! ### The slot that is not released -/

/-- A pump that waits for a client that does nothing goes on waiting. -/
theorem Plain.step_waits (a : PlainAct) (ha : s.quiet a = true) (h : s.step S a = some s')
    (hup : s.up = .reading) (hin : s.ends.client.inbox = []) (hshut : s.ends.client.shut = false)
    (hg : s.ends.client.gone = false) : s'.up = .reading ∧ s'.ends.client.inbox = [] := by
  obtain ⟨hcause, hclient⟩ := (Plain.quiet_iff a).mp ha
  cases a with
  | ends a =>
    simp only [Plain.step, Option.map_eq_some_iff] at h
    obtain ⟨e, he, rfl⟩ := h
    cases a with
    | client a => simp [PlainAct.byClient] at hclient
    | preamble n =>
      simp only [Ends.step, Option.ite_none_right_eq_some, Option.some.injEq] at he
      obtain ⟨-, rfl⟩ := he
      exact ⟨hup, hin⟩
    | proc a =>
      simp only [Ends.step, Option.map_eq_some_iff] at he
      obtain ⟨⟨k, c⟩, -, rfl⟩ := he
      exact ⟨hup, hin⟩
  | up a =>
    by_cases hfail : a = .fail
    · simp [hfail, Plain.caused, hup, hg] at hcause
    · simp only [Plain.step, Option.ite_none_right_eq_some, Option.map_eq_some_iff] at h
      obtain ⟨-, m, hm, -⟩ := h
      rcases Copy.step_cases _ _ _ a m hfail hm with ⟨n, -, -, -, hn, hle, -⟩ |
        ⟨-, -, -, -, hended, -⟩ | ⟨-, -, hs, -⟩ | ⟨n, left, -, hw, -⟩
      · simp only [Ends.upPorts, hin, List.length_nil] at hle
        omega
      · simp [Ends.upPorts, hshut] at hended
      · simp [Ends.upPorts] at hs
      · simp [hup] at hw
  | down a =>
    simp only [Plain.step, Option.ite_none_right_eq_some, Option.map_eq_some_iff] at h
    obtain ⟨-, m, -, rfl⟩ := h
    exact ⟨hup, hin⟩

theorem Plain.waits_forever (hup : s.up = .reading) (hin : s.ends.client.inbox = [])
    (hshut : s.ends.client.shut = false) (hg : s.ends.client.gone = false) :
    ¬ s.CanComplete S := by
  rintro ⟨as, t, hquiet, hrun, hret⟩
  have hwait : (t.up = .reading ∧ t.ends.client.inbox = []) ∧ t.ends.client.shut = false ∧
      t.ends.client.gone = false := by
    refine exec_along (I := fun s : Plain C => (s.up = .reading ∧ s.ends.client.inbox = []) ∧
      s.ends.client.shut = false ∧ s.ends.client.gone = false) ?_ s t as
      ⟨⟨hup, hin⟩, hshut, hg⟩ hquiet hrun
    intro s a t hs ha ht
    obtain ⟨hg', hshut', -⟩ := Plain.step_client a ((Plain.quiet_iff a).mp ha).2 ht
    refine ⟨Plain.step_waits a ha ht hs.1.1 hs.1.2 hs.2.1 hs.2.2, ?_, ?_⟩
    · rw [hshut']
      exact hs.2.1
    · rw [hg']
      exact hs.2.2
  simp [Plain.returned, hwait.1.1, Copy.isStopped] at hret

/-- A bridge that has returned has given the client the whole answer. -/
theorem Plain.Bridged.fits (hC : C.Strict) (hS : S.Opens line) (hb : s.Bridged line input)
    (hg : s.ends.client.gone = false) (h : s.CanComplete S) :
    (reply input).length ≤ s.ends.client.cap + s.ends.client.taken := by
  obtain ⟨as, t, hquiet, hrun, hret⟩ := h
  have hend : t.Bridged line input ∧ t.ends.client.gone = false ∧
      t.ends.client.cap = s.ends.client.cap ∧ t.ends.client.taken = s.ends.client.taken := by
    refine exec_along (I := fun u : Plain C => u.Bridged line input ∧
      u.ends.client.gone = false ∧ u.ends.client.cap = s.ends.client.cap ∧
      u.ends.client.taken = s.ends.client.taken) ?_ s t as ⟨hb, hg, rfl, rfl⟩ hquiet hrun
    intro u a v hu ha hv
    obtain ⟨hcause, hclient⟩ := (Plain.quiet_iff a).mp ha
    obtain ⟨hg', -, hcap, htaken⟩ := Plain.step_client a hclient hv
    exact ⟨hu.1.step hC hS a hcause hv, hg'.trans hu.2.1, hcap.trans hu.2.2.1,
      htaken.trans hu.2.2.2⟩
  obtain ⟨hbt, hgt, hcap, htaken⟩ := hend
  simp only [Plain.returned, Bool.and_eq_true, Copy.isStopped_iff] at hret
  have hf := hbt.forwarded hgt
  have hfill := hbt.filled
  rcases hbt.drained hret.2 with hgone | ⟨hclosed, hall⟩
  · exact absurd (hgt.symm.trans hgone) (by simp)
  · have hheld : t.down.held = [] := by
      rw [hret.2]
      rfl
    rw [hheld, List.append_nil, hall, List.take_length, (hbt.whole hret.1 hgt).closed hclosed] at hf
    rw [← hf, ← hcap, ← htaken]
    exact hfill

end Quiet

/-- When a plain bridge releases its slot. Take any client, any stream and any order of the client,
the two pumps and the processor's task, with resets and with the I/O errors they cause, up to a state
in which one of the pumps has stopped. If the state `Releases`, the other pump can stop as well with
no further step by the client, and the guard is dropped. As long as the client is connected that is
the only way: a client that is silent behind a session the processor has closed, or does not read
the answer to the stream it has closed, holds its slot. -/
theorem plain_bridge_releases (S : Serde) (c : AcceptedClient) (input : Bytes) (b : Buffers)
    (fd : Fd) (now : ℕ) (hserde : S.Faithful (c.preamble "plain")) (as : List PlainAct)
    (s : Plain linesCodec)
    (hcaused : Along (Plain.step S) (fun s a => s.caused a = true)
      (bridgePlainViaUds linesCodec S c input b fd now) as)
    (hrun : exec (Plain.step S) (bridgePlainViaUds linesCodec S c input b fd now) as = some s)
    (hstop : s.up = .stopped ∨ s.down = .stopped) :
    (s.Releases input → s.CanComplete S) ∧
    (s.ends.client.gone = false → (s.CanComplete S ↔ s.Releases input)) := by
  have hS := hserde.opens plain_role_short
  have hb : s.Bridged (S.toString (c.preamble "plain")) input := by
    refine exec_along (fun s a t hi ha ht => Plain.Bridged.step linesCodec_strict hS a hi ha ht) _ s
      as (bridgePlainViaUds_bridged linesCodec S c input b fd now) hcaused hrun
  have hforth : s.Releases input → s.CanComplete S := by
    intro hr
    cases hup : s.up with
    | stopped =>
      rcases hr.answered hup with hdown | hfit
      · exact Plain.canComplete_returned (by simp [Plain.returned, hup, hdown, Copy.isStopped])
      · exact hb.completes linesCodec_strict hS hup hfit
    | reading =>
      have hdown : s.down = .stopped := by simpa [hup] using hstop
      exact hb.notices hdown hup (hr.noticed hup)
    | writing left =>
      have hdown : s.down = .stopped := by simpa [hup] using hstop
      exact hb.gives hdown left hup (hr.taken left hup)
  refine ⟨hforth, fun hg => ⟨fun hcan => ⟨?_, ?_, ?_⟩, hforth⟩⟩
  · intro _
    exact Or.inr (Or.inr (hb.fits linesCodec_strict hS hg hcan))
  · intro hup
    by_contra hno
    simp only [not_or, not_not, Bool.not_eq_true] at hno
    exact Plain.waits_forever hup hno.2.1 hno.2.2 hg hcan
  · intro left hup
    have hdown : s.down = .stopped := by simpa [hup] using hstop
    rcases hb.drained hdown with hgone | ⟨hclosed, -⟩
    · exact absurd (hg.symm.trans hgone) (by simp)
    · exact Or.inl hclosed

/-- The client sends a line and closes its sending side; the pump towards the processor has
stopped. -/
def halfClosedRun : List PlainAct :=
  [.ends (.client (.send 3)), .ends (.preamble 97), .up (.read 3), .up (.write 3),
    .ends (.client .shut), .up .eof]

theorem plain_bridge_releases_half_closed :
    ∃ s : Plain linesCodec,
      exec (Plain.step localSerde)
        (bridgePlainViaUds linesCodec localSerde localClient [104, 105, 10] localBuffers 7 0)
        halfClosedRun = some s ∧
      s.up = .stopped ∧ s.CanComplete localSerde := by
  have hend : ∃ s : Plain linesCodec,
      exec (Plain.step localSerde)
        (bridgePlainViaUds linesCodec localSerde localClient [104, 105, 10] localBuffers 7 0)
        halfClosedRun = some s ∧ s.up = .stopped ∧ s.ends.client.cap = 8 := ⟨_, rfl, rfl, rfl⟩
  obtain ⟨s, hs, hup, hcap⟩ := hend
  refine ⟨s, hs, hup, ?_⟩
  refine (plain_bridge_releases localSerde localClient [104, 105, 10] localBuffers 7 0
    localSerde_plain halfClosedRun s (by decide) hs (Or.inl hup)).1 ⟨fun _ => ?_, ?_, ?_⟩
  · have hlen : (reply [104, 105, 10]).length = 3 := by decide
    omega
  · simp [hup]
  · simp [hup]

/-- The client sends a line that is not UTF-8 and nothing more; the processor ends the session. -/
def refusedRun : List PlainAct :=
  [.ends (.client (.send 2)), .ends (.preamble 97), .up (.read 2), .up (.write 2),
    .ends (.proc .poll), .ends (.proc (.recv 99)), .ends (.proc .poll), .ends (.proc .poll),
    .ends (.proc .poll), .ends (.proc .poll), .down .eof]

/-- The processor has closed the session, the pump towards the client has stopped, the client is
connected and silent, and the slot is not released. -/
theorem plain_bridge_holds_slot :
    ∃ s : Plain linesCodec,
      Along (Plain.step localSerde) (fun s a => s.caused a = true)
        (bridgePlainViaUds linesCodec localSerde localClient [255, 10] localBuffers 7 0)
        refusedRun ∧
      exec (Plain.step localSerde)
        (bridgePlainViaUds linesCodec localSerde localClient [255, 10] localBuffers 7 0)
        refusedRun = some s ∧
      s.ends.conn.closed = true ∧ s.down = .stopped ∧ ¬ s.CanComplete localSerde := by
  have hend : ∃ s : Plain linesCodec,
      exec (Plain.step localSerde)
        (bridgePlainViaUds linesCodec localSerde localClient [255, 10] localBuffers 7 0)
        refusedRun = some s ∧ s.ends.conn.closed = true ∧ s.down = .stopped ∧ s.up = .reading ∧
      s.ends.client.inbox = [] ∧ s.ends.client.shut = false ∧ s.ends.client.gone = false :=
    ⟨_, rfl, rfl, rfl, rfl, rfl, rfl, rfl⟩
  obtain ⟨s, hs, hclosed, hdown, hup, hin, hshut, hg⟩ := hend
  exact ⟨s, by decide, hs, hclosed, hdown, Plain.waits_forever hup hin hshut hg⟩

end FiveNinesEcho.Acceptor
