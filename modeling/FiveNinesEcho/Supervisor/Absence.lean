import FiveNinesEcho.Supervisor.Successor

/-!
# An adopted successor that rolls an upgrade back (`supervisor/worker.rs:356-386`)

`send_upgrade` takes the writer out of the link (`supervisor/control.rs:183-205`), and the worker
drops its control connection when it reads the message. It drains, spawns its own successor, waits
for it up to the configured `ready_timeout` (`config.rs:289-291`), and on expiry kills it, takes its
sessions back and dials again (`processor/upgrade.rs:368-389`, `processor.rs:214-231`). All this time
`monitor_successor` sees no writer, and after its own three seconds it gives the worker up. The worker's
side is the timer automaton `WorkerPc`, run next to the role.
-/

namespace FiveNinesEcho.Supervisor
open Lib Handoff

def readyTimeout (readyTimeoutSecs : ℕ) : ℕ := 1000 * readyTimeoutSecs

/-- What the worker is doing; `since` is when its connection went out of the link. -/
inductive WorkerPc where
  | serving
  | draining (since : ℕ)
  | waitingReady (since deadline : ℕ)
  | redialing (since : ℕ)
  deriving Repr, DecidableEq

def WorkerPc.away : WorkerPc → Option ℕ
  | .serving => none
  | .draining since => some since
  | .waitingReady since _ => some since
  | .redialing since => some since

structure Watch where
  role : Role
  pid : Pid
  worker : WorkerPc

inductive WatchAct where
  | sup (a : SupAct)
  | sendUpgrade
  | hangUp (c : Conn)
  | spawnChild (q : Pid)
  | expire
  | reconnect
  | env (a : EnvAct)
  deriving Repr, DecidableEq

/-- What happens around a worker that stays alive: other processes end, and connect while it is
away; whoever is connected reports. -/
def EnvAct.bystander (p : Pid) (serving : Bool) : EnvAct → Bool
  | .shutdown | .elapse _ | .report .. | .query _ | .giveUp => true
  | .exit q _ => q ≠ p
  | .accept q => q ≠ p ∧ serving = false
  | _ => false

def Watch.step (readyTimeoutSecs : ℕ) (s : Watch) : WatchAct → Option Watch
  | .sup a => (s.role.supStep a).map fun r => { s with role := r }
  | .sendUpgrade =>
    if s.worker = .serving ∧ s.role.link.writer.isSome = true then
      (s.role.envStep .takeWriter).map fun r =>
        { s with role := r, worker := .draining s.role.now }
    else none
  | .hangUp c =>
    (s.role.envStep (.disconnect c)).map fun r =>
      { s with
        role := r
        worker := if s.worker = .serving ∧ c.epoch = s.role.link.connEpoch then
          .redialing s.role.now else s.worker }
  | .spawnChild q => match s.worker with
    | .draining since => (s.role.envStep (.fork s.pid q)).map fun r =>
        { s with
          role := r
          worker := .waitingReady since (s.role.now + readyTimeout readyTimeoutSecs) }
    | _ => none
  | .expire => match s.worker with
    | .waitingReady since deadline =>
      if deadline ≤ s.role.now then some { s with worker := .redialing since } else none
    | _ => none
  | .reconnect => match s.worker with
    | .redialing _ => (s.role.envStep (.accept s.pid)).map fun r =>
        { s with role := r, worker := .serving }
    | _ => none
  | .env a =>
    if a.bystander s.pid (s.worker = .serving) then
      (s.role.envStep a).map fun r => { s with role := r }
    else none

def RolePc.minding : RolePc → Bool
  | .adopting _ | .monitoring .. => true
  | _ => false

/-- A worker under `supervise_adopted_successor`, connected, and seen so by the monitor. -/
structure Watch.Start (s : Watch) : Prop where
  minding : s.role.pc.minding = true
  serving : s.worker = .serving
  connected : s.role.link.writer.isSome = true
  alive : s.role.exitOf s.pid = none

/-- The worker is back in the link before the loss grace is over, and goes out of it again only
after the monitor has seen it there. -/
def Watch.Brief (s : Watch) : WatchAct → Prop
  | .env (.elapse d) => ∀ since ∈ s.worker.away, s.role.now + d < since + successorLossGrace
  | .sendUpgrade => s.role.pc.absent = none
  | .hangUp c => s.worker = .serving → c.epoch = s.role.link.connEpoch → s.role.pc.absent = none
  | _ => True

instance (s : Watch) (a : WatchAct) : Decidable (s.Brief a) := by
  unfold Watch.Brief
  split <;> infer_instance

/-! ### The invariant -/

structure Watch.Inv (readyTimeoutSecs : ℕ) (s : Watch) : Prop where
  minding : s.role.pc.minding = true
  connected : s.worker = .serving → s.role.link.writer.isSome = true
  alive : s.role.exitOf s.pid = none
  past : ∀ since ∈ s.worker.away, since ≤ s.role.now
  brief : ∀ since ∈ s.worker.away, s.role.now < since + successorLossGrace
  seen : ∀ since ∈ s.worker.away, ∀ m ∈ s.role.pc.absent, since ≤ m.2
  timer : ∀ since deadline, s.worker = .waitingReady since deadline →
    since + readyTimeout readyTimeoutSecs ≤ deadline

variable {secs : ℕ}

theorem Watch.Start.inv {s : Watch} (hs : s.Start) : s.Inv secs := by
  have haway : s.worker.away = none := by rw [hs.serving]; rfl
  refine ⟨hs.minding, fun _ => hs.connected, hs.alive, ?_, ?_, ?_, ?_⟩
  · simp [haway]
  · simp [haway]
  · simp [haway]
  · simp [hs.serving]

theorem RolePc.minding_bereft (pc : RolePc) (h : pc.minding = true) : pc.bereft = true := by
  cases pc <;> simp_all [RolePc.minding, RolePc.bereft]

theorem Watch.Inv.look {s : Watch} {r : Role} (hs : s.Inv secs) (hlink : r.link = s.role.link)
    (hnow : r.now = s.role.now) (hprocs : r.procs = s.role.procs) (hmind : r.pc.minding = true)
    (hseen : ∀ since ∈ s.worker.away, ∀ m ∈ r.pc.absent, since ≤ m.2) :
    ({ s with role := r } : Watch).Inv secs := by
  refine ⟨hmind, ?_, ?_, ?_, ?_, hseen, hs.timer⟩
  · intro hserving
    rw [hlink]
    exact hs.connected hserving
  · unfold Role.exitOf
    rw [hprocs]
    exact hs.alive
  · intro since hsince
    rw [hnow]
    exact hs.past since hsince
  · intro since hsince
    rw [hnow]
    exact hs.brief since hsince

/-- The loop around an adopted successor never leaves for a spawn. -/
theorem Watch.sup_inv {s : Watch} {a : SupAct} {r : Role} (hs : s.Inv secs)
    (h : s.role.supStep a = some r) :
    ({ s with role := r } : Watch).Inv secs ∧ spawns r = spawns s.role := by
  have hbereft := RolePc.minding_bereft s.role.pc hs.minding
  cases a with
  | head q | snapshot | reap q | proceed =>
    rw [Role.supStep_early h rfl] at hbereft
    cases hbereft
  | wake =>
    obtain ⟨wake, hpc, -⟩ := Role.wake_cases h
    have hmind := hs.minding
    simp [hpc, RolePc.minding] at hmind
  | pollSuccessor =>
    obtain ⟨child, base, deadline, wake, backoff, hpc, -⟩ := Role.pollSuccessor_cases h
    have hmind := hs.minding
    simp [hpc, RolePc.minding] at hmind
  | adopt =>
    obtain ⟨g, -, rfl⟩ := Role.adopt_cases h
    exact ⟨hs.look rfl rfl rfl rfl (by simp [RolePc.absent]), rfl⟩
  | pollMonitor =>
    obtain ⟨g, absentSince, wake, hpc, -, hlook⟩ := Role.pollMonitor_cases h
    rcases hlook with ⟨g', -, rfl⟩ | ⟨since, rfl, hw, -, hlate, rfl⟩ | ⟨w, pid, -, rfl⟩ |
      ⟨-, -, rfl⟩ | ⟨since, rfl, -, -, rfl⟩
    · exact ⟨hs.look rfl rfl rfl rfl (by simp [RolePc.absent]), rfl⟩
    · -- no writer: the worker is away, and it has not been so for long enough
      exfalso
      cases haway : s.worker.away with
      | none =>
        have hserving : s.worker = .serving := by
          cases hw' : s.worker <;> simp_all [WorkerPc.away]
        have hcon := hs.connected hserving
        simp [hw] at hcon
      | some gone =>
        have hbrief := hs.brief gone (by simp [haway])
        have hseen := hs.seen gone (by simp [haway]) (g, since) (by simp [hpc, RolePc.absent])
        simp only [successorLossGrace] at hbrief hseen hlate
        omega
    · exact ⟨hs.look rfl rfl rfl rfl (by simp [RolePc.absent]), rfl⟩
    · refine ⟨hs.look rfl rfl rfl rfl ?_, rfl⟩
      intro gone hgone m hm
      simp only [RolePc.absent, Option.mem_some_iff] at hm
      subst hm
      exact hs.past gone hgone
    · refine ⟨hs.look rfl rfl rfl rfl ?_, rfl⟩
      intro gone hgone m hm
      apply hs.seen gone hgone m
      simpa [hpc, RolePc.absent] using hm

/-! ### The worker and what is around it -/

theorem Role.bystander_frame {s t : Role} {p : Pid} {b : Bool} {a : EnvAct}
    (ha : a.bystander p b = true) (h : s.envStep a = some t) :
    (s.link.writer.isSome = true → t.link.writer.isSome = true) ∧
      (s.exitOf p = none → t.exitOf p = none) ∧
      (t.now = s.now ∨ ∃ d, a = .elapse d ∧ t.now = s.now + d) := by
  cases a with
  | shutdown | giveUp =>
    cases h
    exact ⟨id, id, Or.inl rfl⟩
  | elapse d =>
    cases h
    exact ⟨id, id, Or.inr ⟨d, rfl, rfl⟩⟩
  | report c st =>
    obtain ⟨-, rfl⟩ := Role.report_cases h
    exact ⟨id, id, Or.inl rfl⟩
  | query i =>
    obtain ⟨hw, rfl⟩ := Role.query_cases h
    exact ⟨id, id, Or.inl rfl⟩
  | exit q st =>
    obtain ⟨gen, -, -, rfl⟩ := Role.exit_cases h
    have hne : p ≠ q := by
      rintro rfl
      simp [EnvAct.bystander] at ha
    refine ⟨id, ?_, Or.inl rfl⟩
    intro hp
    rw [s.exitOf_exitProc, if_neg hne]
    exact hp
  | accept q =>
    obtain ⟨pr, -, rfl⟩ := Role.accept_cases h
    exact ⟨fun _ => rfl, id, Or.inl rfl⟩
  | fork q r | reexec q | disconnect c | takeWriter => simp [EnvAct.bystander] at ha

theorem Watch.env_inv {s : Watch} {a : EnvAct} {r : Role} (hs : s.Inv secs)
    (hg : s.Brief (.env a)) (ha : a.bystander s.pid (s.worker = .serving) = true)
    (h : s.role.envStep a = some r) :
    ({ s with role := r } : Watch).Inv secs ∧ spawns r = spawns s.role := by
  obtain ⟨-, hpc, -⟩ := Role.envStep_frame h
  obtain ⟨hwriter, halive, hnow⟩ := Role.bystander_frame ha h
  refine ⟨⟨?_, fun hserving => hwriter (hs.connected hserving), halive hs.alive, ?_, ?_, ?_,
    hs.timer⟩, Role.envStep_spawns h⟩
  · rw [hpc]
    exact hs.minding
  · intro since hsince
    have hle := hs.past since hsince
    rcases hnow with hsame | ⟨d, -, hd⟩
    · rw [hsame]
      exact hle
    · rw [hd]
      omega
  · intro since hsince
    rcases hnow with hsame | ⟨d, rfl, hd⟩
    · rw [hsame]
      exact hs.brief since hsince
    · rw [hd]
      exact hg since hsince
  · rw [hpc]
    exact hs.seen

theorem Watch.step_inv (w s : Watch) (a : WatchAct) (t : Watch)
    (hs : s.Inv secs ∧ spawns s.role = spawns w.role) (hg : s.Brief a)
    (h : s.step secs a = some t) : t.Inv secs ∧ spawns t.role = spawns w.role := by
  obtain ⟨hs, hcount⟩ := hs
  suffices hstep : t.Inv secs ∧ spawns t.role = spawns s.role from ⟨hstep.1, hstep.2.trans hcount⟩
  cases a with
  | sup a =>
    obtain ⟨r, hr, rfl⟩ := Option.map_eq_some_iff.mp h
    exact Watch.sup_inv hs hr
  | env a =>
    simp only [Watch.step, Option.ite_none_right_eq_some] at h
    obtain ⟨ha, h⟩ := h
    obtain ⟨r, hr, rfl⟩ := Option.map_eq_some_iff.mp h
    exact Watch.env_inv hs hg ha hr
  | sendUpgrade =>
    simp only [Watch.step, Option.ite_none_right_eq_some] at h
    obtain ⟨-, h⟩ := h
    cases h
    refine ⟨⟨hs.minding, by simp, hs.alive, by simp [WorkerPc.away], ?_, ?_, by simp⟩, rfl⟩
    · simp [WorkerPc.away, successorLossGrace]
    · intro since _ m hm
      have hnone : s.role.pc.absent = none := hg
      simp [hnone] at hm
  | hangUp c =>
    obtain ⟨r, hr, rfl⟩ := Option.map_eq_some_iff.mp h
    obtain ⟨-, rfl⟩ := Role.disconnect_cases hr
    refine ⟨?_, rfl⟩
    by_cases hgo : s.worker = .serving ∧ c.epoch = s.role.link.connEpoch
    · rw [if_pos hgo]
      refine ⟨hs.minding, by simp, hs.alive, by simp [WorkerPc.away], ?_, ?_, by simp⟩
      · simp [WorkerPc.away, successorLossGrace]
      · intro since _ m hm
        have hnone : s.role.pc.absent = none := hg hgo.1 hgo.2
        simp [hnone] at hm
    · rw [if_neg hgo]
      refine ⟨hs.minding, ?_, hs.alive, hs.past, hs.brief, hs.seen, hs.timer⟩
      intro hserving
      have hne : ¬ s.role.link.connEpoch = c.epoch := fun he => hgo ⟨hserving, he.symm⟩
      simp only [WorkerLink.disconnect, if_neg hne]
      exact hs.connected hserving
  | spawnChild q =>
    simp only [Watch.step] at h
    split at h
    · next since hw =>
      obtain ⟨r, hr, rfl⟩ := Option.map_eq_some_iff.mp h
      obtain ⟨gen, -, -, hq, rfl⟩ := Role.fork_cases hr
      have haway : since ∈ s.worker.away := by simp [hw, WorkerPc.away]
      have hpast := hs.past since haway
      refine ⟨⟨hs.minding, by simp, ?_, ?_, ?_, ?_, ?_⟩, rfl⟩
      · rw [s.role.exitOf_addProc q _ s.pid (by simp [Role.exitOf, hq])]
        exact hs.alive
      · simpa [WorkerPc.away, Role.addProc] using hpast
      · simpa [WorkerPc.away, Role.addProc] using hs.brief since haway
      · simpa [WorkerPc.away, Role.addProc] using hs.seen since haway
      · intro since' deadline heq
        simp only [WorkerPc.waitingReady.injEq] at heq
        obtain ⟨rfl, rfl⟩ := heq
        omega
    · cases h
  | expire =>
    simp only [Watch.step] at h
    split at h
    · next since deadline hw =>
      simp only [Option.ite_none_right_eq_some, Option.some.injEq] at h
      obtain ⟨-, rfl⟩ := h
      have haway : since ∈ s.worker.away := by simp [hw, WorkerPc.away]
      refine ⟨⟨hs.minding, by simp, hs.alive, ?_, ?_, ?_, by simp⟩, rfl⟩
      · simpa [WorkerPc.away] using hs.past since haway
      · simpa [WorkerPc.away] using hs.brief since haway
      · simpa [WorkerPc.away] using hs.seen since haway
    · cases h
  | reconnect =>
    simp only [Watch.step] at h
    split at h
    · obtain ⟨r, hr, rfl⟩ := Option.map_eq_some_iff.mp h
      obtain ⟨pr, -, rfl⟩ := Role.accept_cases hr
      exact ⟨⟨hs.minding, fun _ => rfl, hs.alive, by simp [WorkerPc.away], by simp [WorkerPc.away],
        by simp [WorkerPc.away], by simp⟩, rfl⟩
    · cases h

/-! ### How long is too long -/

/-- A monitor that looks when the writer is taken and again `d` later, nothing having changed, gives
the worker up exactly if `d` reaches the loss grace. -/
theorem Role.absence_lost_iff (s : Role) (g wake d : ℕ) (hpc : s.pc = .monitoring g none wake)
    (hwake : wake ≤ s.now) (hw : s.link.writer = none) (hg : s.link.above g = false)
    (hd : 100 ≤ d) :
    ∃ t, exec Role.step s [.inl .pollMonitor, .inr (.elapse d), .inl .pollMonitor] = some t ∧
      (t.pc = .head none ↔ successorLossGrace ≤ d) := by
  have hnone := WorkerLink.filter_below hg
  let m : Role := { s with pc := .monitoring g (some s.now) (s.now + 100) }
  have hm : s.step (.inl .pollMonitor) = some m := by
    simp [Role.step, Role.supStep, hpc, hwake, monitorSuccessorPoll, hnone, hw, m]
  have hlate : s.now + 100 ≤ s.now + d := by omega
  have hgap : s.now + d - s.now = d := by omega
  by_cases hlost : successorLossGrace ≤ d
  · refine ⟨{ m with now := s.now + d, currentPid := none, pc := .head none }, ?_, ?_⟩
    · rw [exec_cons s m _ _ hm]
      simp [exec, Role.step, Role.envStep, Role.supStep, m, hlate, monitorSuccessorPoll, hnone, hw,
        hgap, hlost]
    · exact iff_of_true rfl hlost
  · refine ⟨{ m with
      now := s.now + d, pc := .monitoring g (some s.now) (s.now + d + 100) }, ?_, ?_⟩
    · rw [exec_cons s m _ _ hm]
      simp [exec, Role.step, Role.envStep, Role.supStep, m, hlate, monitorSuccessorPoll, hnone, hw,
        hgap, hlost]
    · exact iff_of_false (by simp) hlost

/-- For every `ready_timeout`: in every run in which each absence of the worker is shorter than the
loss grace and begins after the monitor saw it connected, the worker is never declared lost and none
is spawned beside it. An upgrade that runs into the ready timeout is absent for at least that long,
so it can be brief only if the timeout is below the grace; and an absence of `d` milliseconds is
enough for a loss exactly if `d` reaches the grace. -/
theorem rolled_back_not_lost (readyTimeoutSecs : ℕ) (w s : Watch) (as : List WatchAct)
    (hw : w.Start) (hrun : exec (Watch.step readyTimeoutSecs) w as = some s)
    (hbrief : Along (Watch.step readyTimeoutSecs) Watch.Brief w as) :
    (s.role.pc.minding = true ∧ spawns s.role = spawns w.role ∧ s.role.exitOf s.pid = none) ∧
    (∀ since deadline, s.worker = .waitingReady since deadline → deadline ≤ s.role.now →
      readyTimeout readyTimeoutSecs < successorLossGrace) ∧
    ∀ (r : Role) g wake d, r.pc = .monitoring g none wake → wake ≤ r.now →
      r.link.writer = none → r.link.above g = false → 100 ≤ d →
      ∃ t, exec Role.step r [.inl .pollMonitor, .inr (.elapse d), .inl .pollMonitor] = some t ∧
        (t.pc = .head none ↔ successorLossGrace ≤ d) := by
  have hend := exec_along (Watch.step_inv w) w s as ⟨hw.inv, rfl⟩ hbrief hrun
  refine ⟨⟨hend.1.minding, hend.2, hend.1.alive⟩, ?_, Role.absence_lost_iff⟩
  intro since deadline hwait hdue
  have htimer := hend.1.timer since deadline hwait
  have hshort := hend.1.brief since (by simp [hwait, WorkerPc.away])
  omega

/-- Worker 8 of `askedRun`, adopted and monitored. -/
def monitored8 : Role := (exec Role.step successorUp askedRun).get (by decide)

def adopted8 : Watch := ⟨monitored8, 8, .serving⟩

theorem adopted8_start : adopted8.Start := ⟨by decide, rfl, by decide, by decide⟩

theorem adopted8_reachable :
    Reachable Role.step (Role.start (.cold .processor)) adopted8.role := by
  have hbefore : exec Role.step (Role.start (.cold .processor)) upToExit = some atExit :=
    (Option.some_get _).symm
  have hexit : atExit.step (.inr (.exit 7 (.exited 23))) = some exitedWith23 :=
    (Option.some_get _).symm
  have hduring : exec Role.step exitedWith23 upToAccept = some successorUp :=
    (Option.some_get _).symm
  have hafter : exec Role.step successorUp askedRun = some monitored8 :=
    (Option.some_get _).symm
  refine ⟨upToExit ++ .inr (.exit 7 (.exited 23)) :: (upToAccept ++ askedRun), ?_⟩
  apply exec_append _ _ _ _ _ hbefore
  rw [exec_cons _ _ _ _ hexit]
  exact exec_append _ _ _ _ _ hduring hafter

def quickRollback : List WatchAct :=
  [.sendUpgrade, .hangUp ⟨2, 8, 1⟩, .spawnChild 9, .env (.elapse 1000), .sup .pollMonitor, .expire,
    .env (.exit 9 ⟨9⟩), .env (.elapse 200), .reconnect, .sup .pollMonitor, .env (.elapse 60000),
    .sup .pollMonitor]

theorem rolled_back_not_lost_quick :
    ∃ s, exec (Watch.step 1) adopted8 quickRollback = some s ∧ s.worker = .serving ∧
      s.role.pc.minding = true ∧ spawns s.role = spawns adopted8.role := by
  have hend : (exec (Watch.step 1) adopted8 quickRollback).map (·.worker) = some .serving := by
    decide
  obtain ⟨s, hs, hserving⟩ := Option.map_eq_some_iff.mp hend
  have hbrief : Along (Watch.step 1) Watch.Brief adopted8 quickRollback := by decide
  obtain ⟨⟨hmind, hcount, -⟩, -⟩ :=
    rolled_back_not_lost 1 adopted8 s quickRollback adopted8_start hs hbrief
  exact ⟨s, hs, hserving, hmind, hcount⟩

/-- The default `ready_timeout` of three seconds: the worker rolls back and reconnects, but the
monitor has given it up and a fresh one runs beside it. -/
def defaultRollback : List WatchAct :=
  [.sendUpgrade, .hangUp ⟨2, 8, 1⟩, .env (.elapse 100), .sup .pollMonitor, .spawnChild 9,
    .env (.elapse 3000), .expire, .sup .pollMonitor, .sup (.head (some 10)), .env (.exit 9 ⟨9⟩),
    .reconnect]

theorem rolled_back_lost_default :
    adopted8.Start ∧ Reachable Role.step (Role.start (.cold .processor)) adopted8.role ∧
    ∃ s, exec (Watch.step 3) adopted8 defaultRollback = some s ∧ s.worker = .serving ∧
      s.role.exitOf 8 = none ∧ spawns s.role = spawns adopted8.role + 1 ∧
      s.role.pc = .snapshot (.owned 10) := by
  have hend : (exec (Watch.step 3) adopted8 defaultRollback).map
      (fun s => (s.worker, s.role.exitOf 8, spawns s.role, s.role.pc)) =
      some (.serving, none, spawns adopted8.role + 1, .snapshot (.owned 10)) := by decide
  obtain ⟨s, hs, hc⟩ := Option.map_eq_some_iff.mp hend
  simp only [Prod.mk.injEq] at hc
  exact ⟨adopted8_start, adopted8_reachable, s, hs, hc⟩

end FiveNinesEcho.Supervisor
