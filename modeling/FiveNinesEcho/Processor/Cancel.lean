import FiveNinesEcho.Processor.Transparency

/-!
# Cancelling a session (`processor.rs:349-408`, `processor/upgrade.rs:398-457`)

An upgrade drains the registry one session after the other: it sends the cancel and waits, without
a deadline, for the record. `Session.own` is what a session task can do without its client. Every
wait of the task is a wait of the `select!` that also watches the cancel, with one exception: the
flush of an adopted write buffer comes before it.
-/

namespace FiveNinesEcho.Processor
open Lib Handoff
variable {C : Codec}

def Session.own (s : Session C) (a : TaskAct) : Option (Session C) := s.step (.task a)

def Session.CanFinish (s : Session C) : Prop :=
  ∃ as t, exec Session.own s as = some t ∧ t.task.alive = false

/-- Every run of the task's own moves is short, and stops only once the task has finished. -/
def Session.MustFinish (s : Session C) : Prop :=
  ∀ as t, exec Session.own s as = some t →
    as.length ≤ s.rank ∧ (t.task.alive = true → ∃ a u, t.own a = some u)

/-- The task is flushing an adopted write buffer that the send buffer of a client, still connected,
has no room for. -/
def Session.Blocked (s : Session C) : Prop :=
  s.task.pc = .flushAdopted ∧ s.sock.room < s.task.framed.writeBuf.length ∧ s.sock.gone = false

/-! ### One move -/

theorem Session.own_eq_some (s t : Session C) (a : TaskAct) :
    s.own a = some t ↔ s.task.step s.sock a = some (t.sock, t.task) := by
  simp only [Session.own, Session.step, Option.map_eq_some_iff]
  constructor
  · rintro ⟨⟨k, u⟩, h, rfl⟩
    exact h
  · exact fun h => ⟨_, h, rfl⟩

theorem own_of_step (s : Session C) (a : TaskAct) (h : s.task.step s.sock a ≠ none) :
    ∃ a t, s.own a = some t := by
  obtain ⟨p, hp⟩ := Option.ne_none_iff_exists'.mp h
  exact ⟨a, ⟨p.1, p.2⟩, (Session.own_eq_some s _ a).mpr hp⟩

theorem write_room (k k' : Sock) (t t' : Task C) (n : ℕ) (h : t.step k (.write n) = some (k', t')) :
    k'.room + n = k.room ∧ t'.framed.writeBuf.length + n = t.framed.writeBuf.length ∧
    t'.pc = t.pc := by
  simp only [Task.step, Option.ite_none_right_eq_some, Option.some.injEq, Prod.mk.injEq] at h
  obtain ⟨⟨-, -, hle, hroom, -⟩, rfl, rfl⟩ := h
  simp only [Sock.room, List.length_append, List.length_take, List.length_drop] at hroom ⊢
  exact ⟨by omega, by omega, trivial⟩

theorem flushAdopted_own (s t : Session C) (a : TaskAct) (hp : s.task.pc = .flushAdopted)
    (h : s.own a = some t) :
    (∃ n, a = .write n) ∨ (a = .poll ∧ s.task.framed.writeBuf = [] ∧ t.task.pc = .select) ∨
    (a = .ioErr ∧ s.sock.gone = true ∧ t.task.pc = .ended) := by
  rw [Session.own_eq_some] at h
  cases a with
  | write n => exact Or.inl ⟨n, rfl⟩
  | poll =>
    obtain ⟨-, hpoll⟩ := Task.step_poll _ _ _ _ h
    simp only [Task.poll, hp, Option.ite_none_right_eq_some, Option.some.injEq] at hpoll
    exact Or.inr (Or.inl ⟨rfl, hpoll.1, by rw [← hpoll.2]⟩)
  | ioErr =>
    simp only [Task.step, Option.ite_none_right_eq_some, Option.some.injEq, Prod.mk.injEq] at h
    exact Or.inr (Or.inr ⟨rfl, h.1.1, by rw [← h.2.2]⟩)
  | recv n => simp [Task.step, hp] at h
  | recvEof => simp [Task.step, hp] at h
  | cancel => simp [Task.step, Task.suspended, hp] at h

theorem pollNext_pc (t : Task C) : t.pollNext.pc ≠ .flushAdopted := by
  unfold Task.pollNext
  split
  · split
    · simp
    · simp
    · cases t.framed.eof <;> simp
  · simp

theorem own_pc (s t : Session C) (a : TaskAct) (hp : s.task.pc ≠ .flushAdopted)
    (h : s.own a = some t) : t.task.pc ≠ .flushAdopted := by
  rw [Session.own_eq_some] at h
  cases a with
  | poll =>
    obtain ⟨-, hpoll⟩ := Task.step_poll _ _ _ _ h
    rcases s.task.poll_cases t.task hpoll with ⟨hpc, -, -⟩ | ⟨-, ht⟩ | ⟨-, ht⟩ | ⟨l, -, -, ht⟩ |
      ⟨-, -, ht⟩
    · exact absurd hpc hp
    · simp [ht]
    · rw [ht]
      exact pollNext_pc s.task
    · simp [ht]
    · simp [ht]
  | recv n =>
    simp only [Task.step, Option.ite_none_right_eq_some, Option.some.injEq, Prod.mk.injEq] at h
    simp [← h.2.2]
  | recvEof =>
    simp only [Task.step, Option.ite_none_right_eq_some] at h
    obtain ⟨-, h⟩ := h
    split at h <;> simp only [Option.some.injEq, Prod.mk.injEq] at h <;> simp [← h.2]
  | write n => rw [(write_room _ _ _ _ n h).2.2]; exact hp
  | ioErr =>
    simp only [Task.step, Option.ite_none_right_eq_some, Option.some.injEq, Prod.mk.injEq] at h
    simp [← h.2.2]
  | cancel =>
    simp only [Task.step, Option.ite_none_right_eq_some, Option.some.injEq, Prod.mk.injEq] at h
    simp [← h.2.2]

theorem own_blocked_iff (s t : Session C) (a : TaskAct) (h : s.own a = some t) :
    t.Blocked ↔ s.Blocked := by
  have hgone : t.sock.gone = s.sock.gone := by
    rw [Session.own_eq_some] at h
    exact (Task.step_sock _ _ _ _ a h).2.2.2.1
  by_cases hp : s.task.pc = .flushAdopted
  · rcases flushAdopted_own s t a hp h with ⟨n, rfl⟩ | ⟨-, hwb, ht⟩ | ⟨-, hg, ht⟩
    · rw [Session.own_eq_some] at h
      obtain ⟨hroom, hlen, hpc⟩ := write_room _ _ _ _ n h
      simp only [Session.Blocked, hpc, hp, hgone, true_and]
      exact and_congr_left fun _ => by omega
    · simp [Session.Blocked, ht, hwb]
    · simp [Session.Blocked, ht, hg]
  · have ht := own_pc s t a hp h
    simp [Session.Blocked, hp, ht]

theorem own_enabled (s : Session C) (hc : s.task.cancelled = true) (ha : s.task.alive = true)
    (hb : ¬ s.Blocked) : ∃ a t, s.own a = some t := by
  have hcancel : s.task.suspended = true → ∃ a t, s.own a = some t := by
    intro hs
    exact own_of_step s .cancel (by simp [Task.step, hc, hs])
  have hpoll : s.task.poll ≠ none → ∃ a t, s.own a = some t := by
    intro ht
    exact own_of_step s .poll (by simpa [Task.step] using ht)
  cases hp : s.task.pc with
  | flushAdopted =>
    by_cases hwb : s.task.framed.writeBuf = []
    · exact hpoll (by simp [Task.poll, hp, hwb])
    · have hw : s.task.writing = true := by simp [Task.writing, hp, hwb]
      cases hg : s.sock.gone with
      | true => exact own_of_step s .ioErr (by simp [Task.step, hg, hw])
      | false =>
        have hlen : 1 ≤ s.task.framed.writeBuf.length := List.length_pos_iff.mpr hwb
        have hroom : 1 ≤ s.sock.room := by
          simp only [Session.Blocked, hp, hg, true_and, and_true, Nat.not_lt] at hb
          omega
        exact own_of_step s (.write 1) (by simp [Task.step, hg, hw, hlen, hroom])
  | select => exact hcancel (by simp [Task.suspended, hp])
  | read => exact hcancel (by simp [Task.suspended, hp])
  | next => exact hpoll (by simp [Task.poll, hp])
  | ready l =>
    by_cases hlt : s.task.framed.writeBuf.length < C.boundary
    · exact hpoll (by simp [Task.poll, hp, hlt])
    · exact hcancel (by simp [Task.suspended, hp, Nat.not_lt.mp hlt])
  | flush =>
    by_cases hwb : s.task.framed.writeBuf = []
    · exact hpoll (by simp [Task.poll, hp, hwb])
    · exact hcancel (by simp [Task.suspended, hp, hwb])
  | ended => simp [Task.alive, hp] at ha
  | handedOff r => simp [Task.alive, hp] at ha

theorem own_cancelled (s t : Session C) (a : TaskAct) (h : s.own a = some t) :
    t.task.cancelled = s.task.cancelled := by
  rw [Session.own_eq_some] at h
  exact Task.step_cancelled _ _ _ _ a h

theorem own_rank (s t : Session C) (a : TaskAct) (h : s.own a = some t) : t.rank < s.rank :=
  Session.step_rank s t (.task a) rfl h

/-! ### A run of the task alone -/

theorem canFinish_of_not_blocked (s : Session C) (hc : s.task.cancelled = true)
    (hb : ¬ s.Blocked) : s.CanFinish := by
  have hnext : ∀ s : Session C, s.task.cancelled = true ∧ ¬ s.Blocked → ¬ s.task.alive = false →
      ∃ a t, True ∧ s.own a = some t ∧ (t.task.cancelled = true ∧ ¬ t.Blocked) ∧
        t.rank < s.rank := by
    rintro s ⟨hc, hb⟩ halive
    obtain ⟨a, t, ht⟩ := own_enabled s hc (by simpa using halive) hb
    have hkept := (own_cancelled s t a ht).trans hc
    exact ⟨a, t, trivial, ht, ⟨hkept, fun h => hb ((own_blocked_iff s t a ht).mp h)⟩,
      own_rank s t a ht⟩
  obtain ⟨as, t, -, hrun, -, hdead⟩ :=
    exec_to_goal (P := fun _ => True) Session.rank hnext s ⟨hc, hb⟩
  exact ⟨as, t, hrun, hdead⟩

theorem blocked_run (s t : Session C) (as : List TaskAct) (hb : s.Blocked)
    (h : exec Session.own s as = some t) : t.Blocked :=
  exec_invariant (fun s a t hs ht => (own_blocked_iff s t a ht).mpr hs) s t as hb h

theorem Session.Blocked.alive {s : Session C} (h : s.Blocked) : s.task.alive = true := by
  simp [Task.alive, h.1]

theorem canFinish_iff (s : Session C) (hc : s.task.cancelled = true) :
    s.CanFinish ↔ ¬ s.Blocked := by
  constructor
  · rintro ⟨as, t, hrun, hdead⟩ hb
    rw [(blocked_run s t as hb hrun).alive] at hdead
    cases hdead
  · exact canFinish_of_not_blocked s hc

theorem mustFinish_of_not_blocked (s : Session C) (hc : s.task.cancelled = true)
    (hb : ¬ s.Blocked) : s.MustFinish := by
  intro as t hrun
  have hle := exec_length_le (I := fun _ => True) (P := fun _ => True) Session.rank
    (fun s a t _ _ ht => ⟨trivial, own_rank s t a ht⟩) s t as trivial (fun _ _ => trivial) hrun
  have hend : t.task.cancelled = true ∧ ¬ t.Blocked :=
    exec_invariant (I := fun s : Session C => s.task.cancelled = true ∧ ¬ s.Blocked)
      (fun s a t ⟨hc, hb⟩ ht => ⟨(own_cancelled s t a ht).trans hc,
        fun h => hb ((own_blocked_iff s t a ht).mp h)⟩) s t as ⟨hc, hb⟩ hrun
  exact ⟨by omega, fun halive => own_enabled t hend.1 halive hend.2⟩

/-! ### The drain -/

inductive DrainAct where
  | task (i : ℕ) (a : TaskAct)
  | cancel
  | next
  deriving Repr, DecidableEq

/-- `drain_session_handoffs` over the sessions it still has to wait for, in its order. -/
def drainStep (ss : List (Session C)) : DrainAct → Option (List (Session C))
  | .task i a => ss[i]?.bind fun s => (s.own a).map fun t => ss.set i t
  | .cancel => match ss with
    | s :: rest =>
      if s.task.cancelled = false then
        some ({ s with task := { s.task with cancelled := true } } :: rest)
      else none
    | [] => none
  | .next => match ss with
    | s :: rest => if s.task.cancelled = true ∧ s.task.alive = false then some rest else none
    | [] => none

def HasBlocked (ss : List (Session C)) : Prop :=
  ∃ (i : ℕ) (s : Session C), ss[i]? = some s ∧ s.Blocked

theorem drainStep_blocked (ss ss' : List (Session C)) (a : DrainAct) (hb : HasBlocked ss)
    (h : drainStep ss a = some ss') : HasBlocked ss' := by
  obtain ⟨i, s, hs, hb⟩ := hb
  cases a with
  | task j a =>
    simp only [drainStep, Option.bind_eq_some_iff, Option.map_eq_some_iff] at h
    obtain ⟨x, hx, t, ht, rfl⟩ := h
    by_cases hij : j = i
    · subst hij
      have hxs : x = s := Option.some.inj (hx.symm.trans hs)
      subst hxs
      have hlt : j < ss.length := (List.getElem?_eq_some_iff.mp hx).1
      exact ⟨j, t, List.getElem?_set_self hlt, (own_blocked_iff x t a ht).mpr hb⟩
    · exact ⟨i, s, by rw [List.getElem?_set_ne hij, hs], hb⟩
  | cancel =>
    cases ss with
    | nil => simp [drainStep] at h
    | cons x rest =>
      simp only [drainStep, Option.ite_none_right_eq_some, Option.some.injEq] at h
      obtain ⟨-, rfl⟩ := h
      cases i with
      | zero =>
        simp only [List.getElem?_cons_zero, Option.some.injEq] at hs
        subst hs
        exact ⟨0, _, rfl, hb⟩
      | succ i => exact ⟨i + 1, s, hs, hb⟩
  | next =>
    cases ss with
    | nil => simp [drainStep] at h
    | cons x rest =>
      simp only [drainStep, Option.ite_none_right_eq_some, Option.some.injEq] at h
      obtain ⟨⟨-, hdead⟩, rfl⟩ := h
      cases i with
      | zero =>
        -- the drain does not go past a task that still runs
        simp only [List.getElem?_cons_zero, Option.some.injEq] at hs
        subst hs
        rw [hb.alive] at hdead
        cases hdead
      | succ i => exact ⟨i, s, hs, hb⟩

theorem drain_stuck (ss : List (Session C)) (hb : HasBlocked ss) : ¬ Reachable drainStep ss [] := by
  rintro ⟨as, has⟩
  obtain ⟨j, x, hx, -⟩ := exec_invariant (I := HasBlocked)
    (fun ss a ss' hb h => drainStep_blocked ss ss' a hb h) ss [] as hb has
  simp at hx

theorem drain_head (s t : Session C) (rest : List (Session C)) (as : List TaskAct)
    (h : exec Session.own s as = some t) :
    exec drainStep (s :: rest) (as.map (.task 0)) = some (t :: rest) := by
  induction as generalizing s with
  | nil =>
    have hst : s = t := Option.some.inj h
    rw [hst]
    rfl
  | cons a as ih =>
    obtain ⟨m, hm, hrest⟩ := exec_cons_some s t a as h
    have hstep : drainStep (s :: rest) (.task 0 a) = some (m :: rest) := by
      simp [drainStep, hm]
    rw [List.map_cons, exec_cons _ _ _ _ hstep]
    exact ih m hrest

theorem drain_completes (ss : List (Session C)) (hb : ∀ s ∈ ss, ¬ s.Blocked) :
    Reachable drainStep ss [] := by
  induction ss with
  | nil => exact Reachable.refl []
  | cons s rest ih =>
    obtain ⟨hs, hrest⟩ := List.forall_mem_cons.mp hb
    obtain ⟨bs, hbs⟩ := ih hrest
    -- once the head has its cancel it finishes, and the drain goes on to the rest
    have hfinish : ∀ s : Session C, s.task.cancelled = true → ¬ s.Blocked →
        Reachable drainStep (s :: rest) [] := by
      intro s hc hs
      obtain ⟨as, t, hrun, hdead⟩ := canFinish_of_not_blocked s hc hs
      have hct : t.task.cancelled = true :=
        exec_invariant (I := fun s : Session C => s.task.cancelled = true)
          (fun s a t hc ht => (own_cancelled s t a ht).trans hc) s t as hc hrun
      have hnext : drainStep (t :: rest) .next = some rest := by simp [drainStep, hct, hdead]
      have hbs' : exec drainStep (t :: rest) (.next :: bs) = some [] := by
        rw [exec_cons _ _ _ _ hnext]
        exact hbs
      exact ⟨as.map (.task 0) ++ .next :: bs,
        exec_append _ _ _ _ _ (drain_head s t rest as hrun) hbs'⟩
    cases hc : s.task.cancelled with
    | true => exact hfinish s hc hs
    | false =>
      obtain ⟨as, has⟩ := hfinish { s with task := { s.task with cancelled := true } } rfl hs
      have hstep : drainStep (s :: rest) .cancel =
          some ({ s with task := { s.task with cancelled := true } } :: rest) := by
        simp [drainStep, hc]
      exact ⟨.cancel :: as, by rw [exec_cons _ _ _ _ hstep]; exact has⟩

/-- Exactly when a client cannot hold up an upgrade. A session that was told to stop can, and in
the end must, end or send its record by its own moves unless it is still flushing an adopted write
buffer into a full socket; and the drain of a registry gets through without any client moving
unless one of the sessions is in that state. -/
theorem cancel_responsive_iff (s : Session C) (hc : s.task.cancelled = true)
    (ss : List (Session C)) :
    (s.CanFinish ↔ ¬ s.Blocked) ∧ (¬ s.Blocked → s.MustFinish) ∧
    (Reachable drainStep ss [] ↔ ∀ s ∈ ss, ¬ s.Blocked) := by
  refine ⟨canFinish_iff s hc, mustFinish_of_not_blocked s hc, ?_,
    drain_completes ss⟩
  intro h s hs hb
  obtain ⟨i, hi⟩ := List.mem_iff_getElem?.mp hs
  exact drain_stuck ss ⟨i, s, hi, hb⟩ h

/-! ### A client that does not read -/

/-- The echo of `hi` meets a send buffer of one byte, the first handoff cuts its flush, and the
next upgrade cancels the session its successor adopted. -/
def fullSocketRun : List SessionAct :=
  [.peer (.send 3), .task .poll, .task .poll, .task (.recv 3), .task .poll, .task .poll,
    .task (.write 1), .sendCancel, .task .cancel, .adopt, .sendCancel]

theorem cancel_blocked :
    ∃ s : Session linesCodec,
      exec Session.step (Session.start linesCodec [] [104, 105, 10] false 1 7 "p" 0 "t")
        fullSocketRun = some s ∧
      s.task.cancelled = true ∧ ¬ s.CanFinish ∧ ¬ Reachable drainStep [s] [] := by
  have hend : (exec Session.step (Session.start linesCodec [] [104, 105, 10] false 1 7 "p" 0 "t")
      fullSocketRun).map (fun s => (s.task.cancelled, s.task.pc, s.sock.room,
        s.task.framed.writeBuf.length, s.sock.gone)) =
      some (true, .flushAdopted, 0, 2, false) := by decide
  obtain ⟨s, hs, hend⟩ := Option.map_eq_some_iff.mp hend
  simp only [Prod.mk.injEq] at hend
  obtain ⟨hc, hpc, hroom, hlen, hg⟩ := hend
  have hb : s.Blocked := ⟨hpc, by omega, hg⟩
  exact ⟨s, hs, hc, fun h => (canFinish_iff s hc).mp h hb, drain_stuck [s] ⟨0, s, rfl, hb⟩⟩

theorem cancel_responsive_reading :
    ∃ s : Session linesCodec,
      exec Session.step (Session.start linesCodec [] [104, 105, 10] false 1 7 "p" 0 "t")
        [.task .poll, .task .poll, .sendCancel] = some s ∧
      s.task.pc = .read ∧ s.CanFinish ∧ Reachable drainStep [s] [] := by
  have hend : (exec Session.step (Session.start linesCodec [] [104, 105, 10] false 1 7 "p" 0 "t")
      [.task .poll, .task .poll, .sendCancel]).map (fun s => (s.task.cancelled, s.task.pc)) =
      some (true, .read) := by decide
  obtain ⟨s, hs, hend⟩ := Option.map_eq_some_iff.mp hend
  simp only [Prod.mk.injEq] at hend
  obtain ⟨hc, hpc⟩ := hend
  have hb : ¬ s.Blocked := by simp [Session.Blocked, hpc]
  obtain ⟨hfin, -, hdrain⟩ := cancel_responsive_iff s hc [s]
  exact ⟨s, hs, hpc, hfin.mpr hb, hdrain.mpr (by simpa using hb)⟩

end FiveNinesEcho.Processor
