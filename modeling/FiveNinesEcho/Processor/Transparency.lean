import FiveNinesEcho.Processor.Echo

/-!
# Handoffs do not show on the wire

The life of one session over any number of committed upgrades. The ledger of `Processor.Echo` is an
invariant of every run, a state in which nobody has anything left to do has written the whole echo,
and such a state is reached whatever the schedule did before. A run without a handoff is a run too,
so the interrupted and the uninterrupted session write the same bytes.
-/

namespace FiveNinesEcho.Processor
open Lib Handoff
variable {C : Codec}

/-! ### The invariant of a run -/

structure Session.Sound (total : Bytes) (s : Session C) : Prop where
  coherent : Coherent s.sock s.task
  due_eq : due s.sock s.task = total
  taken : s.sock.taken ≤ s.sock.wire.length
  cap : 0 < s.sock.cap

/-- What holds of every session: it never wrote anything but a front part of the echo. -/
structure Session.Safe (total : Bytes) (s : Session C) : Prop where
  sound : s.sock.gone = false → s.Sound total
  written : s.sock.wire <+: total

theorem Session.Sound.written {total : Bytes} {s : Session C} (h : s.Sound total) :
    s.sock.wire <+: total := by
  rw [← h.due_eq, due, List.append_assoc]
  exact List.prefix_append _ _

theorem Coherent.setCancelled {k : Sock} {t : Task C} (h : Coherent k t) (c : Bool) :
    Coherent k { t with cancelled := c } :=
  ⟨h.clean, h.shut, h.synced, h.idle, h.stale, h.eof, h.waiting, h.ended, h.record⟩

theorem Session.step_safe (total : Bytes) (s s' : Session C) (a : SessionAct)
    (hs : s.Safe total) (h : s.step a = some s') : s'.Safe total := by
  cases a with
  | peer a =>
    simp only [Session.step, Option.map_eq_some_iff] at h
    obtain ⟨k, hk, rfl⟩ := h
    obtain ⟨hwire, hcap, -, htaken, hgone⟩ := Sock.peer_sock _ _ a hk
    refine ⟨?_, by simpa only [hwire] using hs.written⟩
    intro hg
    obtain ⟨hg', ha⟩ := hgone hg
    have hsound := hs.sound hg'
    obtain ⟨hc, hd⟩ := peer_due hsound.coherent a ha k hk
    exact ⟨hc, hd.trans hsound.due_eq, htaken hsound.taken, by simpa only [hcap] using hsound.cap⟩
  | task a =>
    simp only [Session.step, Option.map_eq_some_iff] at h
    obtain ⟨⟨k, t⟩, hkt, rfl⟩ := h
    obtain ⟨-, -, -, hgone, htaken, hcap, hwire, hstill⟩ := Task.step_sock _ _ _ _ a hkt
    cases hg : s.sock.gone with
    | true =>
      refine ⟨?_, by simpa only [hstill hg] using hs.written⟩
      intro hg'
      exact absurd (hg.symm.trans (hgone.symm.trans hg')) (by simp)
    | false =>
      have hsound := hs.sound hg
      obtain ⟨hc, hd⟩ := task_due hsound.coherent hg a k t hkt
      have hle := hwire.length_le
      have hnew : Session.Sound total ⟨k, t⟩ := by
        refine ⟨hc, hd.trans hsound.due_eq, ?_, by simpa only [hcap] using hsound.cap⟩
        simp only [htaken]
        exact Nat.le_trans hsound.taken hle
      exact ⟨fun _ => hnew, hnew.written⟩
  | sendCancel =>
    simp only [Session.step, Option.ite_none_right_eq_some, Option.some.injEq] at h
    obtain ⟨-, rfl⟩ := h
    refine ⟨?_, hs.written⟩
    intro hg
    have hsound := hs.sound hg
    exact ⟨hsound.coherent.setCancelled true, hsound.due_eq, hsound.taken, hsound.cap⟩
  | adopt =>
    cases hp : s.task.pc with
    | handedOff r =>
      simp only [Session.step, hp, Option.map_eq_some_iff] at h
      obtain ⟨t, ht, rfl⟩ := h
      refine ⟨?_, hs.written⟩
      intro hg
      have hsound := hs.sound hg
      obtain ⟨hc, hd⟩ := adopt_due hsound.coherent r hp t ht
      exact ⟨hc, hd.trans hsound.due_eq, hsound.taken, hsound.cap⟩
    | _ => simp [Session.step, hp] at h

theorem Session.start_safe (lookahead input : Bytes) (closes : Bool) (cap : ℕ) (fd : Fd)
    (peer : String) (connectedAt : ℕ) (traceId : String)
    (hclean : Clean closes (lookahead ++ input)) (hcap : 0 < cap) :
    (Session.start C lookahead input closes cap fd peer connectedAt traceId).Safe
      (echo closes (lookahead ++ input)) := by
  have hsound : (Session.start C lookahead input closes cap fd peer connectedAt traceId).Sound
      (echo closes (lookahead ++ input)) := by
    refine ⟨⟨?_, ?_, fun _ c => C.fresh_synced _, fun _ => rfl, ?_, ?_, ?_, ?_, ?_⟩, ?_, ?_, hcap⟩
    · simpa [Session.start, Sock.open, Task.unread, spawnSession] using hclean
    all_goals simp [Session.start, Sock.open, spawnSession, due, Task.owed, Task.unread]
  exact ⟨fun _ => hsound, hsound.written⟩

/-! ### Running out of work -/

def SessionAct.onward : SessionAct → Bool
  | .sendCancel | .peer .hangup => false
  | _ => true

def SessionAct.uninterrupted : SessionAct → Bool
  | .sendCancel | .adopt => false
  | _ => true

/-- Nobody has anything left to do. -/
def Session.Idle (s : Session C) : Prop := ∀ a : SessionAct, a.onward = true → s.step a = none

theorem Session.Idle.task {s : Session C} (h : s.Idle) (a : TaskAct) :
    s.task.step s.sock a = none := by
  simpa [Session.step] using h (.task a) rfl

theorem Session.Idle.peer {s : Session C} (h : s.Idle) (hg : s.sock.gone = false)
    (ht : s.sock.taken ≤ s.sock.wire.length) :
    s.sock.toSend = [] ∧ s.sock.taken = s.sock.wire.length ∧
    (s.sock.closes = true → s.sock.shut = true) := by
  have hsend := h (.peer (.send 1)) rfl
  have hshut := h (.peer .shut) rfl
  have htake := h (.peer (.take 1)) rfl
  simp [Session.step, Sock.peer, hg, Nat.succ_le_iff, List.length_pos_iff] at hsend hshut htake
  exact ⟨hsend, by omega, hshut hsend⟩

theorem Session.Idle.wire {s : Session C} (h : s.Idle) (total : Bytes) (hs : s.Sound total)
    (hg : s.sock.gone = false) : s.sock.wire = total := by
  obtain ⟨hsend, htaken, hshut⟩ := h.peer hg hs.taken
  have hc := hs.coherent
  have hcap := hs.cap
  have hroom : 0 < s.sock.room := by
    rw [Sock.room, htaken]
    omega
  rw [← hs.due_eq]
  cases ha : s.task.alive with
  | true =>
    -- waiting for bytes that will not come: no line is unread and the client keeps its side open
    obtain ⟨hp, hin, hopen⟩ := Task.blocked hc.idle ha hg hroom h.task
    have hkept : s.sock.closes = false := by
      cases hcl : s.sock.closes with
      | false => rfl
      | true => exact absurd (hopen.symm.trans (hshut hcl)) (by simp)
    have hwb : s.task.framed.writeBuf = [] := hc.idle (by simp only [Task.between, hp])
    have hnl := hc.stale ha (hc.waiting hp)
    simp only [due, Task.owed, Task.unread, hp, hwb, hin, hsend, List.append_nil,
      echo_rest _ _ hnl, hkept, Bool.false_eq_true, if_false]
  | false =>
    cases hp : s.task.pc with
    | ended =>
      obtain ⟨hin, -, -⟩ := hc.ended hp
      simp only [due, Task.owed, Task.unread, hp, hin, hsend, List.append_nil, echo_nil]
    | handedOff r =>
      have hadopt := h .adopt rfl
      simp [Session.step, hp, adoptSession, hc.record r hp] at hadopt
    | _ => simp [Task.alive, hp] at ha

/-! ### How much work is left -/

def Pc.rank : Pc → ℕ
  | .ended => 0
  | .read => 1
  | .next => 2
  | .select | .flush => 3
  | .flushAdopted | .ready _ => 4
  | .handedOff _ => 10

/-- Each byte is sent, read, decoded, written and taken once, so it weighs less at every stage; a
cancel that is still pending costs one more record, adoption and second look at the end of input. -/
def Task.rank (t : Task C) : ℕ :=
  8 * t.unread.length + 2 * t.owed.length + (if t.framed.eof then 0 else 3) + t.pc.rank +
    match t.pc with
    | .handedOff _ => 0
    | _ => if t.cancelled then 20 else 0

def Sock.rank (k : Sock) : ℕ :=
  14 * k.toSend.length + 13 * k.inbox.length + (k.wire.length - k.taken) + if k.shut then 0 else 1

def Session.rank (s : Session C) : ℕ := s.sock.rank + s.task.rank

theorem Task.ended_rank (t : Task C) (f : Framed C) (hf : f.eof = t.framed.eof)
    (hp : 0 < t.pc.rank) (hh : ∀ r, t.pc ≠ .handedOff r) :
    ({ t with framed := f, pc := .ended } : Task C).rank < t.rank := by
  cases hpc : t.pc <;> simp_all [Task.rank, Task.unread, Task.owed, Pc.rank] <;> omega

theorem Task.pollNext_rank (t : Task C) (hp : t.pc = .next) : t.pollNext.rank < t.rank := by
  unfold Task.pollNext
  cases hr : t.framed.isReadable with
  | false => simp [Task.rank, Task.unread, Task.owed, Pc.rank, hp]
  | true =>
    rcases hd : t.framed.decode with ⟨st, b, d⟩
    cases d with
    | frame l =>
      have hsize : l.length + b.length ≤ t.framed.readBuf.length ∧
          b.length < t.framed.readBuf.length := by
        cases he : t.framed.eof with
        | true =>
          rw [Framed.decode, if_pos he] at hd
          exact C.decodeEof_consumes _ _ _ _ _ hd
        | false =>
          rw [Framed.decode, if_neg (by simp [he])] at hd
          have := C.decode_consumes _ _ _ _ _ hd
          omega
      simp only [Task.rank, Task.unread, Task.owed, Pc.rank, hp, encode, List.length_append,
        List.length_singleton, if_true]
      omega
    | failed => exact t.ended_rank _ rfl (by simp [hp, Pc.rank]) (by simp [hp])
    | pending =>
      cases he : t.framed.eof with
      | true => exact t.ended_rank _ rfl (by simp [hp, Pc.rank]) (by simp [hp])
      | false =>
        rw [Framed.decode, if_neg (by simp [he])] at hd
        have hkeep := C.decode_keeps _ _ _ _ hd
        simp only [Task.rank, Task.unread, Task.owed, Pc.rank, hp, he, if_true, if_false,
          Bool.false_eq_true]
        omega

theorem Task.poll_rank (t t' : Task C) (h : t.poll = some t') : t'.rank < t.rank := by
  rcases t.poll_cases t' h with ⟨hp, -, rfl⟩ | ⟨hp, rfl⟩ | ⟨hp, rfl⟩ | ⟨l, hp, -, rfl⟩ | ⟨hp, -, rfl⟩
  · simp [Task.rank, Task.unread, Task.owed, Pc.rank, hp]
  · simp [Task.rank, Task.unread, Task.owed, Pc.rank, hp]
  · exact t.pollNext_rank hp
  · simp [Task.rank, Task.unread, Task.owed, Pc.rank, hp]
  · simp [Task.rank, Task.unread, Task.owed, Pc.rank, hp]

theorem Task.write_rank (k k' : Sock) (t t' : Task C) (n : ℕ)
    (h : t.step k (.write n) = some (k', t')) : k'.rank + t'.rank < k.rank + t.rank := by
  simp only [Task.step, Option.ite_none_right_eq_some, Option.some.injEq, Prod.mk.injEq] at h
  obtain ⟨⟨hw, hn, hle, -, -⟩, rfl, rfl⟩ := h
  have htake : (t.framed.writeBuf.take n).length = n := by simp [hle]
  cases hp : t.pc <;> simp only [Task.writing, hp, Bool.false_eq_true] at hw <;>
    simp only [Sock.rank, Task.rank, Task.unread, Task.owed, hp, List.length_append, htake,
      List.length_drop] <;> omega

theorem Task.step_rank (k k' : Sock) (t t' : Task C) (a : TaskAct)
    (h : t.step k a = some (k', t')) : k'.rank + t'.rank < k.rank + t.rank := by
  cases a with
  | poll =>
    obtain ⟨rfl, hpoll⟩ := Task.step_poll k k' t t' h
    have := t.poll_rank t' hpoll
    omega
  | recv n =>
    simp only [Task.step, Option.ite_none_right_eq_some, Option.some.injEq, Prod.mk.injEq] at h
    obtain ⟨⟨hp, hn, hle⟩, rfl, rfl⟩ := h
    simp only [Sock.rank, Task.rank, Task.unread, Task.owed, Pc.rank, hp, List.length_append,
      List.length_take, List.length_drop, Bool.false_eq_true, if_false]
    omega
  | recvEof =>
    simp only [Task.step, Option.ite_none_right_eq_some] at h
    obtain ⟨⟨hp, -⟩, h⟩ := h
    cases he : t.framed.eof with
    | true =>
      simp only [he, if_true, Option.some.injEq, Prod.mk.injEq] at h
      obtain ⟨rfl, rfl⟩ := h
      have := t.ended_rank t.framed rfl (by simp [hp, Pc.rank]) (by simp [hp])
      omega
    | false =>
      simp only [he, Bool.false_eq_true, if_false, Option.some.injEq, Prod.mk.injEq] at h
      obtain ⟨rfl, rfl⟩ := h
      simp only [Task.rank, Task.unread, Task.owed, Pc.rank, hp, he, if_true, Bool.false_eq_true,
        if_false]
      omega
  | write n => exact Task.write_rank k k' t t' n h
  | ioErr =>
    simp only [Task.step, Option.ite_none_right_eq_some, Option.some.injEq, Prod.mk.injEq] at h
    obtain ⟨⟨-, hw⟩, rfl, rfl⟩ := h
    have hpc : 0 < t.pc.rank ∧ ∀ r, t.pc ≠ .handedOff r := by
      cases hp : t.pc <;> simp_all [Task.writing, Pc.rank]
    have := t.ended_rank t.framed rfl hpc.1 hpc.2
    omega
  | cancel =>
    simp only [Task.step, Option.ite_none_right_eq_some, Option.some.injEq, Prod.mk.injEq] at h
    obtain ⟨⟨hcan, hs⟩, rfl, rfl⟩ := h
    cases hp : t.pc <;> simp only [Task.suspended, hp, Bool.false_eq_true] at hs <;>
      simp only [Task.rank, Task.unread, Task.owed, Pc.rank, Task.handoff, hp, hcan, if_true,
        List.length_append] <;> omega

theorem Sock.peer_rank (k k' : Sock) (a : PeerAct) (ha : a ≠ .hangup) (h : k.peer a = some k') :
    k'.rank < k.rank := by
  cases a with
  | send n =>
    simp only [Sock.peer, Option.ite_none_right_eq_some, Option.some.injEq] at h
    obtain ⟨⟨hn, hle, -⟩, rfl⟩ := h
    simp only [Sock.rank, List.length_append, List.length_take, List.length_drop]
    omega
  | shut =>
    simp only [Sock.peer, Option.ite_none_right_eq_some, Option.some.injEq] at h
    obtain ⟨⟨-, -, hs⟩, rfl⟩ := h
    simp [Sock.rank, hs]
  | take n =>
    simp only [Sock.peer, Option.ite_none_right_eq_some, Option.some.injEq] at h
    obtain ⟨⟨hn, hle⟩, rfl⟩ := h
    simp only [Sock.rank]
    omega
  | hangup => exact absurd rfl ha

theorem Sock.peer_upstream (k k' : Sock) (a : PeerAct) (h : k.peer a = some k') :
    k'.inbox.length + k'.toSend.length = k.inbox.length + k.toSend.length := by
  cases a <;> simp only [Sock.peer, Option.ite_none_right_eq_some, Option.some.injEq] at h
  case send n =>
    obtain ⟨⟨-, hle, -⟩, rfl⟩ := h
    simp only [List.length_append, List.length_take, List.length_drop]
    omega
  case shut => rw [← h.2]
  case take n => rw [← h.2]
  case hangup => rw [← h]

theorem Session.step_rank (s s' : Session C) (a : SessionAct) (ha : a.onward = true)
    (h : s.step a = some s') : s'.rank < s.rank := by
  cases a with
  | peer a =>
    simp only [Session.step, Option.map_eq_some_iff] at h
    obtain ⟨k, hk, rfl⟩ := h
    have hne : a ≠ .hangup := by
      rintro rfl
      simp [SessionAct.onward] at ha
    have := Sock.peer_rank _ _ a hne hk
    simp only [Session.rank]
    omega
  | task a =>
    simp only [Session.step, Option.map_eq_some_iff] at h
    obtain ⟨⟨k, t⟩, hkt, rfl⟩ := h
    exact Task.step_rank _ _ _ _ a hkt
  | sendCancel => simp [SessionAct.onward] at ha
  | adopt =>
    cases hp : s.task.pc with
    | handedOff r =>
      simp only [Session.step, hp, adoptSession, Option.map_eq_some_iff,
        Option.ite_none_right_eq_some, Option.some.injEq] at h
      obtain ⟨t, ⟨-, rfl⟩, rfl⟩ := h
      simp only [Session.rank, Task.rank, Task.unread, Task.owed, hp, spawnSession,
        framedWithLookahead]
      by_cases hw : r.pendingWriteBytes.isEmpty <;> simp [hw, Pc.rank] <;> omega
    | _ => simp [Session.step, hp] at h

theorem Session.step_gone (s s' : Session C) (a : SessionAct) (ha : a.onward = true)
    (hg : s.sock.gone = false) (h : s.step a = some s') : s'.sock.gone = false := by
  cases a with
  | peer a =>
    simp only [Session.step, Option.map_eq_some_iff] at h
    obtain ⟨k, hk, rfl⟩ := h
    cases a <;> simp [SessionAct.onward] at ha <;>
      simp only [Sock.peer, Option.ite_none_right_eq_some, Option.some.injEq] at hk <;>
      obtain ⟨-, rfl⟩ := hk <;> exact hg
  | task a =>
    simp only [Session.step, Option.map_eq_some_iff] at h
    obtain ⟨⟨k, t⟩, hkt, rfl⟩ := h
    obtain ⟨-, -, -, hgone, -⟩ := Task.step_sock _ _ _ _ a hkt
    exact hgone.trans hg
  | sendCancel => simp [SessionAct.onward] at ha
  | adopt =>
    cases hp : s.task.pc with
    | handedOff r =>
      simp only [Session.step, hp, Option.map_eq_some_iff] at h
      obtain ⟨t, -, rfl⟩ := h
      exact hg
    | _ => simp [Session.step, hp] at h

theorem Session.reaches_idle (total : Bytes) (s : Session C) (hs : s.Safe total)
    (hg : s.sock.gone = false) :
    ∃ bs t, (∀ b ∈ bs, SessionAct.onward b = true) ∧ exec Session.step s bs = some t ∧ t.Idle ∧
      t.sock.wire = total := by
  have hstep : ∀ s : Session C, s.Safe total ∧ s.sock.gone = false → ¬ s.Idle →
      ∃ a t, SessionAct.onward a = true ∧ s.step a = some t ∧
        (t.Safe total ∧ t.sock.gone = false) ∧ t.rank < s.rank := by
    intro s ⟨hs, hg⟩ hidle
    simp only [Session.Idle, not_forall] at hidle
    obtain ⟨a, ha, hstep⟩ := hidle
    obtain ⟨t, ht⟩ := Option.ne_none_iff_exists'.mp hstep
    exact ⟨a, t, ha, ht, ⟨Session.step_safe total s t a hs ht, Session.step_gone s t a ha hg ht⟩,
      Session.step_rank s t a ha ht⟩
  obtain ⟨bs, t, hb, hrun, ⟨hsafe, hgone⟩, hidle⟩ := exec_to_goal Session.rank hstep s ⟨hs, hg⟩
  exact ⟨bs, t, hb, hrun, hidle, hidle.wire total (hsafe.sound hgone) hgone⟩

/-- Commit-path echo transparency. Take any clean stream, any chunking of its reads, any schedule
of partial writes and any number of handoffs at any suspension points. The generations together
never write anything but a front part of the stream's echo. As long as the client is there they
have written all of it, and what any uninterrupted session writes for the same stream, once nobody
has anything left to do; and that point is always reached, within `rank` further moves. -/
theorem Session.handoffs_transparent (C : Codec) (lookahead input : Bytes) (closes : Bool)
    (cap : ℕ) (fd : Fd) (peer : String) (connectedAt : ℕ) (traceId : String)
    (hclean : Clean closes (lookahead ++ input)) (hcap : 0 < cap)
    (as : List SessionAct) (s : Session C)
    (hrun : exec Session.step
      (Session.start C lookahead input closes cap fd peer connectedAt traceId) as = some s) :
    s.sock.wire <+: echo closes (lookahead ++ input) ∧
    (s.sock.gone = false →
      (s.Idle → s.sock.wire = echo closes (lookahead ++ input) ∧
        ∀ (us : List SessionAct) (u : Session C), (∀ a ∈ us, a.uninterrupted = true) →
          exec Session.step
            (Session.start C lookahead input closes cap fd peer connectedAt traceId) us = some u →
          u.sock.gone = false → u.Idle → s.sock.wire = u.sock.wire) ∧
      (∃ bs t, (∀ b ∈ bs, SessionAct.onward b = true) ∧ exec Session.step s bs = some t ∧
        t.Idle ∧ t.sock.wire = echo closes (lookahead ++ input)) ∧
      ∀ bs t, (∀ b ∈ bs, SessionAct.onward b = true) → exec Session.step s bs = some t →
        bs.length ≤ s.rank) := by
  have hstart := Session.start_safe (C := C) lookahead input closes cap fd peer connectedAt traceId
    hclean hcap
  have hreach : ∀ (bs : List SessionAct) (t : Session C), exec Session.step
      (Session.start C lookahead input closes cap fd peer connectedAt traceId) bs = some t →
      t.Safe (echo closes (lookahead ++ input)) :=
    fun bs t h => exec_invariant (fun s a t hs ht => Session.step_safe _ s t a hs ht) _ t bs hstart h
  have hsafe := hreach as s hrun
  refine ⟨hsafe.written, fun hg => ⟨fun hidle => ?_, ?_, ?_⟩⟩
  · have hwire := hidle.wire _ (hsafe.sound hg) hg
    refine ⟨hwire, ?_⟩
    intro us u _ hu hgu hidleu
    rw [hwire, hidleu.wire _ ((hreach us u hu).sound hgu) hgu]
  · exact Session.reaches_idle _ s hsafe hg
  · intro bs t hb hbs
    have hle := exec_length_le (I := fun _ => True) Session.rank
      (fun s a t _ ha ht => ⟨trivial, Session.step_rank s t a ha ht⟩) s t bs trivial hb hbs
    omega

def midflushRun : List SessionAct :=
  [.peer (.send 3), .task .poll, .task .poll, .task (.recv 3), .task .poll, .task .poll,
    .task (.write 1), .sendCancel, .task .cancel, .adopt, .task (.write 1), .peer (.take 2),
    .task (.write 1), .task .poll]

theorem handoffs_transparent_midflush :
    ∃ s : Session linesCodec,
      exec Session.step (Session.start linesCodec [] [104, 105, 10] false 2 7 "p" 0 "t")
        midflushRun = some s ∧
      s.sock.wire = [104, 105, 10] ∧ s.sock.wire <+: echo false ([] ++ [104, 105, 10]) := by
  have hclean : Clean false ([] ++ [104, 105, 10]) := by
    refine ⟨?_, by decide, by simp⟩
    intro l hl
    have hl : l = [104, 105] := by simpa [lines, newline] using hl
    subst hl
    decide
  have hwire : (exec Session.step (Session.start linesCodec [] [104, 105, 10] false 2 7 "p" 0 "t")
      midflushRun).map (·.sock.wire) = some [104, 105, 10] := by decide
  obtain ⟨s, hs, hw⟩ := Option.map_eq_some_iff.mp hwire
  refine ⟨s, hs, hw, ?_⟩
  exact (Session.handoffs_transparent linesCodec [] [104, 105, 10] false 2 7 "p" 0 "t" hclean
    (by decide) midflushRun s hs).1

end FiveNinesEcho.Processor
