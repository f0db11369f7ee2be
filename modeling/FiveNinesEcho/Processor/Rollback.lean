import FiveNinesEcho.Processor.Transparency
import Mathlib.Data.Fintype.Basic
import Mathlib.Logic.Function.Basic

/-!
# An attempt that is rolled back (`processor/upgrade.rs:368-396`, `processor/upgrade.rs:470-514`)

During an upgrade attempt the parent and its candidate child hold the same session sockets. The
parent saves each session as a record before it spawns the child, and re-adopts those records once
the child is dead. The child starts a task for every record while it is still starting up
(`processor.rs:67`), before it has told the parent that it is ready (`processor.rs:91`), on a
multi-threaded runtime: what these tasks read and write the records do not show.
-/

namespace FiveNinesEcho.Processor.Rollback
open Lib Handoff
variable {ι : Type} {C : Codec}

/-! ### Clients -/

structure Client where
  lookahead : Bytes
  input : Bytes
  closes : Bool
  cap : ℕ
  fd : Fd
  peer : String
  connectedAtUnixMs : ℕ
  traceId : String
  clean : Clean closes (lookahead ++ input)
  cap_pos : 0 < cap

def Client.start (C : Codec) (c : Client) : Session C :=
  Session.start C c.lookahead c.input c.closes c.cap c.fd c.peer c.connectedAtUnixMs c.traceId

def Client.echo (c : Client) : Bytes := Processor.echo c.closes (c.lookahead ++ c.input)

/-- A session of the registry: its task runs and no drain has reached it. Earlier generations may
have handed it over any number of times. -/
structure Live (c : Client) (s : Session C) : Prop where
  reached : Reachable Session.step (c.start C) s
  alive : s.task.alive = true
  kept : s.task.cancelled = false

theorem Live.safe {c : Client} {s : Session C} (h : Live c s) : s.Safe c.echo := by
  obtain ⟨as, has⟩ := h.reached
  refine exec_invariant (fun s a t hs ht => Session.step_safe _ s t a hs ht) _ s as ?_ has
  exact Session.start_safe c.lookahead c.input c.closes c.cap c.fd c.peer c.connectedAtUnixMs
    c.traceId c.clean c.cap_pos

/-! ### The attempt -/

/-- Where the parent stands: in its accept loop, draining the registry, waiting for the child, or
re-adopting. -/
inductive Phase where
  | serving
  | draining
  | awaiting
  | restoring
  deriving Repr, DecidableEq

/-- The parent's sessions, each with its socket, and the tasks the child runs on the same sockets. -/
structure Attempt (ι : Type) (C : Codec) where
  phase : Phase
  childAlive : Bool
  session : ι → Session C
  child : ι → Option (Task C)

def saved (t : Task C) : Option SessionHandoff :=
  match t.pc with
  | .handedOff h => some h
  | _ => none

def readoptSession (t : Task C) (h : SessionHandoff) : Task C :=
  match h.transport with
  | .uds =>
    spawnSession (framedWithLookahead h.partialLineBytes h.pendingWriteBytes) h.udsFd h.peer
      h.linesEchoed h.connectedAtUnixMs h.traceId
  | .tcp => { t with pc := .ended }

inductive Act (ι : Type) where
  | peer (i : ι) (a : PeerAct)
  | parent (i : ι) (a : TaskAct)
  | beginUpgrade
  | sendCancel (i : ι)
  | spawn
  | childAdopt (i : ι)
  | child (i : ι) (a : TaskAct)
  | childStop
  | rollback
  | readopt (i : ι)
  | resume
  deriving Repr, DecidableEq

variable [DecidableEq ι]

def Attempt.setSession (s : Attempt ι C) (i : ι) (x : Session C) : Attempt ι C :=
  { s with session := Function.update s.session i x }

/-- One move of the clients, the parent or the child. `childStop` is the child's death at any point
of its startup, by itself or by the parent's kill after the ready timeout. -/
def Attempt.step [Fintype ι] (s : Attempt ι C) : Act ι → Option (Attempt ι C)
  | .peer i a => ((s.session i).step (.peer a)).map (s.setSession i)
  | .parent i a => ((s.session i).step (.task a)).map (s.setSession i)
  | .beginUpgrade => if s.phase = .serving then some { s with phase := .draining } else none
  | .sendCancel i =>
    if s.phase = .draining then ((s.session i).step .sendCancel).map (s.setSession i) else none
  | .spawn =>
    if s.phase = .draining ∧ ∀ i, (s.session i).task.alive = false then
      some { s with phase := .awaiting, childAlive := true, child := fun _ => none }
    else none
  | .childAdopt i =>
    if s.childAlive = true ∧ (s.child i).isNone = true then
      ((saved (s.session i).task).bind adoptSession).map fun t =>
        { s with child := Function.update s.child i (some t) }
    else none
  | .child i a =>
    if s.childAlive = true then (s.child i).bind fun t =>
      (t.step (s.session i).sock a).map fun p =>
        { s.setSession i { s.session i with sock := p.1 } with
          child := Function.update s.child i (some p.2) }
    else none
  | .childStop =>
    if s.childAlive = true then some { s with childAlive := false, child := fun _ => none }
    else none
  | .rollback =>
    if s.phase = .awaiting ∧ s.childAlive = false then some { s with phase := .restoring } else none
  | .readopt i =>
    if s.phase = .restoring then (saved (s.session i).task).map fun h =>
      s.setSession i { s.session i with task := readoptSession (s.session i).task h }
    else none
  | .resume =>
    if s.phase = .restoring ∧ ∀ i, saved (s.session i).task = none then
      some { s with phase := .serving }
    else none

def Attempt.start (sessions : ι → Session C) : Attempt ι C :=
  ⟨.serving, false, sessions, fun _ => none⟩

/-- A move by which the child's tasks reach for a session socket. -/
def Act.touches : Act ι → Bool
  | .child _ (.recv _) | .child _ (.write _) => true
  | _ => false

/-! ### The sockets during the attempt -/

theorem step_sock_eq (k k' : Sock) (t t' : Task C) (a : TaskAct) (hr : ∀ n, a ≠ .recv n)
    (hw : ∀ n, a ≠ .write n) (h : t.step k a = some (k', t')) : k' = k := by
  cases a with
  | poll => exact (Task.step_poll k k' t t' h).1
  | recv n => exact absurd rfl (hr n)
  | write n => exact absurd rfl (hw n)
  | recvEof =>
    simp only [Task.step, Option.ite_none_right_eq_some] at h
    obtain ⟨-, h⟩ := h
    split at h <;> cases h <;> rfl
  | ioErr =>
    simp only [Task.step, Option.ite_none_right_eq_some, Option.some.injEq, Prod.mk.injEq] at h
    exact h.2.1.symm
  | cancel =>
    simp only [Task.step, Option.ite_none_right_eq_some, Option.some.injEq, Prod.mk.injEq] at h
    exact h.2.1.symm

theorem readopt_safe (total : Bytes) (s : Session C) (h : SessionHandoff) (hs : s.Safe total)
    (hp : s.task.pc = .handedOff h) :
    Session.Safe total { s with task := readoptSession s.task h } := by
  refine ⟨?_, hs.written⟩
  intro hg
  have hsound := hs.sound hg
  obtain ⟨hv, htr⟩ := hsound.coherent.record h hp
  have hadopt : adoptSession h = some (readoptSession s.task h) := by
    simp only [adoptSession, readoptSession, hv, htr, and_self, if_true]
  obtain ⟨hc, hd⟩ := adopt_due hsound.coherent h hp _ hadopt
  exact ⟨hc, hd.trans hsound.due_eq, hsound.taken, hsound.cap⟩

/-! ### The tasks during the attempt -/

def Rested (t : Task C) : Prop := t.pc = .ended ∨ (t.alive = true ∧ t.cancelled = false)

theorem step_dead (k : Sock) (t : Task C) (a : TaskAct) (h : t.alive = false) :
    t.step k a = none := by
  cases hp : t.pc <;> simp [Task.alive, hp] at h <;>
    cases a <;> simp [Task.step, Task.poll, Task.writing, Task.suspended, hp]

theorem pollNext_alive (t : Task C) : t.pollNext.pc = .ended ∨ t.pollNext.alive = true := by
  unfold Task.pollNext
  split
  · split
    · exact Or.inr rfl
    · exact Or.inl rfl
    · cases he : t.framed.eof
      · exact Or.inr rfl
      · exact Or.inl rfl
  · exact Or.inr rfl

theorem step_rested (k k' : Sock) (t t' : Task C) (a : TaskAct) (hr : Rested t)
    (h : t.step k a = some (k', t')) : Rested t' := by
  rcases hr with hp | ⟨ha, hc⟩
  · rw [step_dead k t a (by simp [Task.alive, hp])] at h
    cases h
  cases a with
  | poll =>
    obtain ⟨-, hpoll⟩ := Task.step_poll k k' t t' h
    rcases t.poll_cases t' hpoll with ⟨-, -, rfl⟩ | ⟨-, rfl⟩ | ⟨-, rfl⟩ | ⟨l, -, -, rfl⟩ |
      ⟨-, -, rfl⟩
    · exact Or.inr ⟨rfl, hc⟩
    · exact Or.inr ⟨rfl, hc⟩
    · rcases pollNext_alive t with he | he
      · exact Or.inl he
      · exact Or.inr ⟨he, t.pollNext_cancelled.trans hc⟩
    · exact Or.inr ⟨rfl, hc⟩
    · exact Or.inr ⟨rfl, hc⟩
  | recv n =>
    simp only [Task.step, Option.ite_none_right_eq_some, Option.some.injEq, Prod.mk.injEq] at h
    obtain ⟨-, -, rfl⟩ := h
    exact Or.inr ⟨rfl, hc⟩
  | recvEof =>
    simp only [Task.step, Option.ite_none_right_eq_some] at h
    obtain ⟨-, h⟩ := h
    split at h <;> cases h
    · exact Or.inl rfl
    · exact Or.inr ⟨rfl, hc⟩
  | write n =>
    simp only [Task.step, Option.ite_none_right_eq_some, Option.some.injEq, Prod.mk.injEq] at h
    obtain ⟨-, -, rfl⟩ := h
    exact Or.inr ⟨ha, hc⟩
  | ioErr =>
    simp only [Task.step, Option.ite_none_right_eq_some, Option.some.injEq, Prod.mk.injEq] at h
    obtain ⟨-, -, rfl⟩ := h
    exact Or.inl rfl
  | cancel => simp [Task.step, hc] at h

theorem saved_eq_some (t : Task C) (h : SessionHandoff) :
    saved t = some h ↔ t.pc = .handedOff h := by
  cases hp : t.pc <;> simp [saved, hp]

theorem dead_cases (t : Task C) (h : t.alive = false) : t.pc = .ended ∨ (saved t).isSome = true := by
  cases hp : t.pc <;> simp_all [Task.alive, saved]

theorem readopt_rested (t : Task C) (h : SessionHandoff) : Rested (readoptSession t h) := by
  cases htr : h.transport with
  | tcp => exact Or.inl (by simp only [readoptSession, htr])
  | uds =>
    refine Or.inr ⟨?_, by simp only [readoptSession, htr, spawnSession]⟩
    simp only [readoptSession, htr]
    rcases spawnSession_pc (framedWithLookahead h.partialLineBytes h.pendingWriteBytes : Framed C)
      h.udsFd h.peer h.linesEchoed h.connectedAtUnixMs h.traceId with ⟨hp, -⟩ | ⟨hp, -⟩ <;>
      simp only [Task.alive, hp]

/-! ### The invariant -/

structure Attempt.Inv (c : ι → Client) (s : Attempt ι C) : Prop where
  safe : ∀ i, (s.session i).Safe (c i).echo
  serving : s.phase = .serving → ∀ i, Rested (s.session i).task
  awaiting : s.phase = .awaiting → ∀ i, (s.session i).task.alive = false
  restoring : s.phase = .restoring →
    ∀ i, Rested (s.session i).task ∨ (saved (s.session i).task).isSome = true

theorem setSession_forall {P : Session C → ι → Prop} (s : Attempt ι C) (i : ι) (x : Session C)
    (h : ∀ j, P (s.session j) j) (hx : P x i) (j : ι) : P ((s.setSession i x).session j) j := by
  by_cases hj : j = i
  · subst hj
    simpa only [Attempt.setSession, Function.update_self] using hx
  · simpa only [Attempt.setSession, Function.update_of_ne hj] using h j

theorem Attempt.Inv.setSock {c : ι → Client} {s : Attempt ι C} (h : s.Inv c) (i : ι)
    (x : Session C) (hx : x.Safe (c i).echo) (ht : x.task = (s.session i).task) :
    (s.setSession i x).Inv c := by
  constructor
  case safe => exact setSession_forall (P := fun y j => y.Safe (c j).echo) s i x h.safe hx
  case serving =>
    intro hp
    apply setSession_forall (P := fun y _ => Rested y.task) s i x (h.serving hp)
    rw [ht]
    exact h.serving hp i
  case awaiting =>
    intro hp
    apply setSession_forall (P := fun y _ => y.task.alive = false) s i x (h.awaiting hp)
    rw [ht]
    exact h.awaiting hp i
  case restoring =>
    intro hp
    apply setSession_forall
      (P := fun y _ => Rested y.task ∨ (saved y.task).isSome = true) s i x (h.restoring hp)
    rw [ht]
    exact h.restoring hp i

theorem Attempt.Inv.parent {c : ι → Client} {s : Attempt ι C} (h : s.Inv c) (i : ι) (a : TaskAct)
    (x : Session C) (hx : (s.session i).step (.task a) = some x) : (s.setSession i x).Inv c := by
  have hsafe := Session.step_safe _ _ _ _ (h.safe i) hx
  simp only [Session.step, Option.map_eq_some_iff] at hx
  obtain ⟨⟨k, t⟩, hkt, rfl⟩ := hx
  have hlive : (s.session i).task.alive = true := by
    cases ha : (s.session i).task.alive with
    | true => rfl
    | false => rw [step_dead _ _ a ha] at hkt; cases hkt
  constructor
  case safe => exact setSession_forall (P := fun y j => y.Safe (c j).echo) s i _ h.safe hsafe
  case serving =>
    intro hp
    exact setSession_forall (P := fun y _ => Rested y.task) s i _ (h.serving hp)
      (step_rested _ _ _ _ a (h.serving hp i) hkt)
  case awaiting =>
    intro hp
    exact absurd (hlive.symm.trans (h.awaiting hp i)) (by simp)
  case restoring =>
    intro hp
    apply setSession_forall (P := fun y _ => Rested y.task ∨ (saved y.task).isSome = true) s i _
      (h.restoring hp)
    apply Or.inl
    rcases h.restoring hp i with hr | hr
    · exact step_rested _ _ _ _ a hr hkt
    · obtain ⟨r, hr⟩ := Option.isSome_iff_exists.mp hr
      rw [saved_eq_some] at hr
      simp [Task.alive, hr] at hlive

theorem Attempt.step_inv [Fintype ι] (c : ι → Client) (s s' : Attempt ι C) (a : Act ι)
    (hs : s.Inv c) (ha : a.touches = false) (h : s.step a = some s') : s'.Inv c := by
  cases a with
  | peer i a =>
    simp only [Attempt.step, Option.map_eq_some_iff] at h
    obtain ⟨x, hx, rfl⟩ := h
    apply hs.setSock i x (Session.step_safe _ _ _ _ (hs.safe i) hx)
    simp only [Session.step, Option.map_eq_some_iff] at hx
    obtain ⟨k, -, rfl⟩ := hx
    rfl
  | parent i a =>
    simp only [Attempt.step, Option.map_eq_some_iff] at h
    obtain ⟨x, hx, rfl⟩ := h
    exact hs.parent i a x hx
  | beginUpgrade =>
    simp only [Attempt.step, Option.ite_none_right_eq_some, Option.some.injEq] at h
    obtain ⟨-, rfl⟩ := h
    exact ⟨hs.safe, by simp, by simp, by simp⟩
  | sendCancel i =>
    simp only [Attempt.step, Option.ite_none_right_eq_some, Option.map_eq_some_iff] at h
    obtain ⟨hp, x, hx, rfl⟩ := h
    refine ⟨setSession_forall (P := fun y j => y.Safe (c j).echo) s i x hs.safe
      (Session.step_safe _ _ _ _ (hs.safe i) hx), ?_, ?_, ?_⟩
    all_goals simp [Attempt.setSession, hp]
  | spawn =>
    simp only [Attempt.step, Option.ite_none_right_eq_some, Option.some.injEq] at h
    obtain ⟨⟨-, hdead⟩, rfl⟩ := h
    exact ⟨hs.safe, by simp, fun _ => hdead, by simp⟩
  | childAdopt i =>
    simp only [Attempt.step, Option.ite_none_right_eq_some, Option.map_eq_some_iff] at h
    obtain ⟨-, t, -, rfl⟩ := h
    exact ⟨hs.safe, hs.serving, hs.awaiting, hs.restoring⟩
  | child i a =>
    simp only [Attempt.step, Option.ite_none_right_eq_some, Option.bind_eq_some_iff,
      Option.map_eq_some_iff] at h
    obtain ⟨-, t, -, ⟨k, t'⟩, hkt, rfl⟩ := h
    have hk : k = (s.session i).sock := by
      refine step_sock_eq _ _ t t' a ?_ ?_ hkt <;> rintro n rfl <;> simp [Act.touches] at ha
    subst hk
    have hm := hs.setSock i (s.session i) (hs.safe i) rfl
    exact ⟨hm.safe, hm.serving, hm.awaiting, hm.restoring⟩
  | childStop =>
    simp only [Attempt.step, Option.ite_none_right_eq_some, Option.some.injEq] at h
    obtain ⟨-, rfl⟩ := h
    exact ⟨hs.safe, hs.serving, hs.awaiting, hs.restoring⟩
  | rollback =>
    simp only [Attempt.step, Option.ite_none_right_eq_some, Option.some.injEq] at h
    obtain ⟨⟨hp, -⟩, rfl⟩ := h
    refine ⟨hs.safe, by simp, by simp, ?_⟩
    intro _ i
    rcases dead_cases _ (hs.awaiting hp i) with he | he
    · exact Or.inl (Or.inl he)
    · exact Or.inr he
  | readopt i =>
    simp only [Attempt.step, Option.ite_none_right_eq_some, Option.map_eq_some_iff] at h
    obtain ⟨hp, r, hr, rfl⟩ := h
    rw [saved_eq_some] at hr
    refine ⟨setSession_forall (P := fun y j => y.Safe (c j).echo) s i _ hs.safe
      (readopt_safe _ _ r (hs.safe i) hr), ?_, ?_, ?_⟩
    · simp [Attempt.setSession, hp]
    · simp [Attempt.setSession, hp]
    · intro _
      exact setSession_forall (P := fun y _ => Rested y.task ∨ (saved y.task).isSome = true) s i _
        (hs.restoring hp) (Or.inl (readopt_rested _ r))
  | resume =>
    simp only [Attempt.step, Option.ite_none_right_eq_some, Option.some.injEq] at h
    obtain ⟨⟨hp, hnone⟩, rfl⟩ := h
    refine ⟨hs.safe, ?_, by simp, by simp⟩
    intro _ i
    rcases hs.restoring hp i with hr | hr
    · exact hr
    · simp [hnone i] at hr

omit [DecidableEq ι] in
theorem Attempt.start_inv (c : ι → Client) (sessions : ι → Session C)
    (h : ∀ i, Live (c i) (sessions i)) : (Attempt.start sessions).Inv c :=
  ⟨fun i => (h i).safe, fun _ i => Or.inr ⟨(h i).alive, (h i).kept⟩, by simp [Attempt.start],
    by simp [Attempt.start]⟩

/-! ### After the rollback -/

def Act.at (i : ι) : Act ι → Bool
  | .peer j _ | .parent j _ => j = i
  | _ => false

theorem Attempt.onward_step [Fintype ι] (c : ι → Client) (s : Attempt ι C) (i : ι) (hs : s.Inv c)
    (hp : s.phase = .serving) (hg : (s.session i).sock.gone = false)
    (hidle : ¬ (s.session i).Idle) :
    ∃ a t, Act.at i a = true ∧ s.step a = some t ∧
      (t.Inv c ∧ t.phase = .serving ∧ (t.session i).sock.gone = false) ∧
      (t.session i).rank < (s.session i).rank := by
  simp only [Session.Idle, not_forall] at hidle
  obtain ⟨a, ha, hstep⟩ := hidle
  obtain ⟨x, hx⟩ := Option.ne_none_iff_exists'.mp hstep
  have hrank := Session.step_rank _ _ a ha hx
  have hgone := Session.step_gone _ _ a ha hg hx
  have hat : ∀ y : Session C, (s.setSession i y).session i = y := by simp [Attempt.setSession]
  cases a with
  | peer a =>
    have hact : s.step (.peer i a) = some (s.setSession i x) := by
      simp only [Attempt.step, hx, Option.map_some]
    refine ⟨.peer i a, s.setSession i x, by simp [Act.at], hact,
      ⟨Attempt.step_inv c s _ _ hs rfl hact, hp, ?_⟩, ?_⟩ <;> rw [hat x] <;> assumption
  | task a =>
    have hact : s.step (.parent i a) = some (s.setSession i x) := by
      simp only [Attempt.step, hx, Option.map_some]
    refine ⟨.parent i a, s.setSession i x, by simp [Act.at], hact,
      ⟨Attempt.step_inv c s _ _ hs rfl hact, hp, ?_⟩, ?_⟩ <;> rw [hat x] <;> assumption
  | sendCancel => simp [SessionAct.onward] at ha
  | adopt =>
    -- no session waits for adoption while the parent serves
    rcases hs.serving hp i with hr | ⟨hr, -⟩
    · simp [Session.step, hr] at hx
    · cases hpc : (s.session i).task.pc <;> simp [Session.step, Task.alive, hpc] at hx hr

theorem Attempt.reaches_idle [Fintype ι] (c : ι → Client) (s : Attempt ι C) (i : ι) (hs : s.Inv c)
    (hp : s.phase = .serving) (hg : (s.session i).sock.gone = false) :
    ∃ bs t, (∀ b ∈ bs, Act.at i b = true) ∧ exec Attempt.step s bs = some t ∧
      t.phase = .serving ∧ (t.session i).Idle ∧ (t.session i).sock.wire = (c i).echo := by
  obtain ⟨bs, t, hb, hrun, ⟨hinv, hpt, hgt⟩, hidle⟩ :=
    exec_to_goal (I := fun s => s.Inv c ∧ s.phase = .serving ∧ (s.session i).sock.gone = false)
      (Q := fun s => (s.session i).Idle) (fun s => (s.session i).rank)
      (fun s ⟨hs, hp, hg⟩ => Attempt.onward_step c s i hs hp hg) s ⟨hs, hp, hg⟩
  exact ⟨bs, t, hb, hrun, hpt, hidle, hidle.wire _ ((hinv.safe i).sound hgt) hgt⟩

/-- Exactly once, as long as the children leave the session sockets alone. Take any set of live
sessions and any run of any number of attempts, each rolled back after its child stopped at any
point. Then no client was ever sent anything but a front part of its echo; and once the parent
serves again a client that is still there gets all of it, which is what its session would have
written had there been no attempt. -/
theorem rollback_exactly_once [Fintype ι] (c : ι → Client) (sessions : ι → Session C)
    (hlive : ∀ i, Live (c i) (sessions i)) (as : List (Act ι)) (s : Attempt ι C)
    (hquiet : ∀ a ∈ as, a.touches = false)
    (hrun : exec Attempt.step (Attempt.start sessions) as = some s) (i : ι) :
    (s.session i).sock.wire <+: (c i).echo ∧
    (s.phase = .serving → (s.session i).sock.gone = false →
      ((s.session i).Idle → (s.session i).sock.wire = (c i).echo ∧
        ∀ (us : List SessionAct) (u : Session C), (∀ a ∈ us, a.uninterrupted = true) →
          exec Session.step (sessions i) us = some u → u.sock.gone = false → u.Idle →
          (s.session i).sock.wire = u.sock.wire) ∧
      ∃ bs t, (∀ b ∈ bs, Act.at i b = true) ∧ exec Attempt.step s bs = some t ∧
        t.phase = .serving ∧ (t.session i).Idle ∧ (t.session i).sock.wire = (c i).echo) := by
  have hinv : s.Inv c := exec_along (G := fun _ a => a.touches = false)
    (fun s a t hs ha ht => Attempt.step_inv c s t a hs ha ht) _ s as
    (Attempt.start_inv c sessions hlive)
    (along_of_forall (fun a => a.touches = false) (fun _ _ h => h) _ as hquiet) hrun
  refine ⟨(hinv.safe i).written, fun hp hg => ⟨fun hidle => ?_, ?_⟩⟩
  · have hwire := hidle.wire _ ((hinv.safe i).sound hg) hg
    refine ⟨hwire, ?_⟩
    intro us u _ hu hgu hidleu
    have hsafe : u.Safe (c i).echo := exec_invariant
      (fun s a t hs ht => Session.step_safe _ s t a hs ht) _ u us (hlive i).safe hu
    rw [hwire, hidleu.wire _ (hsafe.sound hgu) hgu]
  · exact Attempt.reaches_idle c s i hinv hp hg

/-! ### A child that does not leave them alone -/

def lineClient : Client where
  lookahead := []
  input := [97, 10]
  closes := false
  cap := 8
  fd := 7
  peer := "p"
  connectedAtUnixMs := 0
  traceId := "t"
  clean := by
    refine ⟨?_, by decide, by simp⟩
    intro l hl
    have hl : l = [97] := by simpa [lines, newline] using hl
    subst hl
    decide
  cap_pos := by decide

theorem lineClient_live : Live lineClient (lineClient.start linesCodec) :=
  ⟨Reachable.refl _, rfl, rfl⟩

def parkedRun : List (Act Unit) :=
  [.peer () (.send 2), .parent () .poll, .parent () .poll, .parent () (.recv 2), .parent () .poll,
    .parent () .poll, .parent () (.write 1), .beginUpgrade, .sendCancel (), .parent () .cancel,
    .spawn, .childAdopt (), .childStop, .rollback, .readopt (), .resume, .parent () (.write 1)]

theorem rollback_exactly_once_parked :
    ∃ s : Attempt Unit linesCodec,
      exec Attempt.step (Attempt.start fun _ => lineClient.start linesCodec) parkedRun = some s ∧
      (s.session ()).sock.wire = [97, 10] ∧ (s.session ()).sock.wire <+: lineClient.echo := by
  have hwire : (exec Attempt.step (Attempt.start fun _ => lineClient.start linesCodec)
      parkedRun).map (fun s => (s.session ()).sock.wire) = some [97, 10] := by decide
  obtain ⟨s, hs, hw⟩ := Option.map_eq_some_iff.mp hwire
  refine ⟨s, hs, hw, ?_⟩
  exact (rollback_exactly_once (fun _ => lineClient) _ (fun _ => lineClient_live) parkedRun s
    (by decide) hs ()).1

def flushedRun : List (Act Unit) :=
  [.peer () (.send 2), .parent () .poll, .parent () .poll, .parent () (.recv 2), .parent () .poll,
    .parent () .poll, .parent () (.write 1), .beginUpgrade, .sendCancel (), .parent () .cancel,
    .spawn, .childAdopt (), .child () (.write 1), .childStop, .rollback, .readopt (), .resume,
    .parent () (.write 1)]

def swallowedRun : List (Act Unit) :=
  [.parent () .poll, .parent () .poll, .beginUpgrade, .sendCancel (), .parent () .cancel,
    .spawn, .childAdopt (), .child () .poll, .child () .poll, .peer () (.send 2),
    .child () (.recv 2), .childStop, .rollback, .readopt (), .resume, .parent () .poll,
    .parent () .poll]

/-- An echo byte sent twice, and a line that nobody holds any more and nobody echoed. -/
theorem rollback_not_exactly_once :
    (∃ s : Attempt Unit linesCodec,
      exec Attempt.step (Attempt.start fun _ => lineClient.start linesCodec) flushedRun = some s ∧
      s.phase = .serving ∧ (s.session ()).sock.wire = [97, 10, 10] ∧
      lineClient.echo = [97, 10]) ∧
    ∃ s : Attempt Unit linesCodec,
      exec Attempt.step (Attempt.start fun _ => lineClient.start linesCodec) swallowedRun = some s ∧
      s.phase = .serving ∧ (s.session ()).sock.wire = [] ∧ (s.session ()).sock.toSend = [] ∧
      (s.session ()).sock.inbox = [] ∧ (s.session ()).task.unread = [] ∧
      (s.session ()).task.owed = [] := by
  have hflushed : (exec Attempt.step (Attempt.start fun _ => lineClient.start linesCodec)
      flushedRun).map (fun s => (s.phase, (s.session ()).sock.wire)) =
      some (.serving, [97, 10, 10]) := by decide
  have hswallowed : (exec Attempt.step (Attempt.start fun _ => lineClient.start linesCodec)
      swallowedRun).map (fun s => (s.phase, [(s.session ()).sock.wire, (s.session ()).sock.toSend,
        (s.session ()).sock.inbox, (s.session ()).task.unread, (s.session ()).task.owed])) =
      some (.serving, [[], [], [], [], []]) := by decide
  obtain ⟨s, hs, hf⟩ := Option.map_eq_some_iff.mp hflushed
  obtain ⟨t, ht, hl⟩ := Option.map_eq_some_iff.mp hswallowed
  simp only [Prod.mk.injEq, List.cons.injEq, and_true] at hf hl
  exact ⟨⟨s, hs, hf.1, hf.2, by decide⟩, t, ht, hl⟩

end FiveNinesEcho.Processor.Rollback
