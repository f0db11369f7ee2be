import FiveNinesEcho.Supervisor.Handover
import FiveNinesEcho.Supervisor.Successor

/-!
# A self-upgrade that is rolled back (`supervisor.rs:636-677`, `self_upgrade.rs:125-153`)

The candidate starts its accept loops and one supervise loop per role before it acks. If each of its
loops has a worker to wait for and that worker stays, they only wait, and the old supervisor's run is
the one it would have had alone. A role for which no pid was handed over is spawned at once, and what
a killed candidate has spawned keeps running.
-/

namespace FiveNinesEcho.Supervisor
open Lib Handoff

/-! ### The old supervisor alone -/

def Roles.step (rs : Roles) (a : RoleName × RoleAct) : Option Roles :=
  if (rs a.1).fits a.2 then ((rs a.1).step a.2).map (Function.update rs a.1) else none

/-- What of a run the old supervisor's roles do. -/
def SelfUpgradeAct.ofRole : SelfUpgradeAct → Option (RoleName × RoleAct)
  | .role n a => some (n, a)
  | _ => none

/-! ### What keeps a candidate harmless -/

def WaitAnswer.fails : WaitAnswer → Bool
  | .ioError => true
  | .polled (.err _) _ => true
  | _ => false

/-- Every role was handed the pid of a process that exists; the candidate accepts no connection of a
worker; none of its waits fails, or finds its worker gone. -/
def SelfUpgrade.Harmless (s : SelfUpgrade) : SelfUpgradeAct → Prop
  | .boot => ∀ env, s.pc = .spawned env → ∀ n, ∃ p, (AdoptedState.ofEnv env).pid n = some p ∧
    ((s.roles n).procs p).isSome = true
  | .candidate _ (.inr (.accept _)) => False
  | .candidate n (.inl (.reap r)) => r.fails = false ∧ ∀ c, s.pc = .overlapping c →
    ∀ child base, (c n).pc = .waiting child base → (s.roles n).exitOf child.pid = none
  | _ => True

/-- The loop has an adopted worker, or has ended. -/
def RolePc.calm : RolePc → Bool
  | .head (some (.adopted _)) | .snapshot (.adopted _) | .waiting (.adopted _) _ | .done => true
  | _ => false

/-- A candidate's loop that has done nothing but wait. -/
structure Role.Idle (c : Role) : Prop where
  calm : c.pc.calm = true
  log : ∀ e ∈ c.log, e ≠ .spawnFn
  conns : c.conns = []

/-- The candidate sees the processes and the clock of the old supervisor. -/
def SelfUpgrade.Synced (s : SelfUpgrade) : Prop :=
  ∀ c, s.pc = .overlapping c → ∀ n, (c n).procs = (s.roles n).procs ∧ (c n).now = (s.roles n).now

def SelfUpgrade.Waiting (s : SelfUpgrade) : Prop :=
  ∀ c, s.pc = .overlapping c → ∀ n, (c n).Idle

theorem Role.rebuilt_idle {s : Role} {p : Pid} {gen : ℕ} (hp : (s.procs p).isSome = true) :
    (s.rebuilt (some p) gen).Idle := by
  constructor
  · simp [Role.rebuilt, hp, RolePc.calm]
  · simp [Role.rebuilt]
  · rfl

theorem Role.Idle.share {c r : Role} (hc : c.Idle) : (c.share r).Idle := ⟨hc.calm, hc.log, hc.conns⟩

theorem Role.waitStatus_alive (s : Role) (p : Pid) (r : WaitAnswer) (hr : r.fails = false)
    (hp : s.exitOf p = none) : s.waitStatus (.adopted p) r = none := by
  cases r with
  | exited => rfl
  | ioError => simp [WaitAnswer.fails] at hr
  | polled w alive =>
    cases w with
    | err e => simp [WaitAnswer.fails] at hr
    | stillAlive => simp [Role.waitStatus, waitAdoptedPoll, ChildHandle.isOwned]
    | terminated => simp [Role.waitStatus, ChildHandle.isOwned, ChildHandle.pid, hp]
    | echild =>
      cases alive <;>
        simp [Role.waitStatus, waitAdoptedPoll, ChildHandle.isOwned, ChildHandle.pid, hp]

/-! ### A candidate that only waits -/

theorem Role.Idle.supStep {c r : Role} {a : SupAct} (hc : c.Idle)
    (hreap : ∀ q, a = .reap q → q.fails = false ∧ ∀ child base, c.pc = .waiting child base →
      c.exitOf child.pid = none)
    (h : c.supStep a = some r) : r.Idle ∧ r.procs = c.procs ∧ r.now = c.now := by
  have hcalm := hc.calm
  cases Role.supStep_cases h with
  | stop => exact ⟨⟨rfl, hc.log, hc.conns⟩, rfl, rfl⟩
  | take q child hpc =>
    rw [hpc] at hcalm
    cases child with
    | owned p => cases hcalm
    | adopted p => exact ⟨⟨rfl, hc.log, hc.conns⟩, rfl, rfl⟩
  | snapshot child hpc =>
    rw [hpc] at hcalm
    cases child with
    | owned p => cases hcalm
    | adopted p => exact ⟨⟨rfl, hc.log, hc.conns⟩, rfl, rfl⟩
  | reap child base q st hpc hst =>
    obtain ⟨hq, halive⟩ := hreap q rfl
    have hexit := halive child base hpc
    rw [hpc] at hcalm
    cases child with
    | owned p => cases hcalm
    | adopted p =>
      rw [c.waitStatus_alive p q hq hexit] at hst
      cases hst
  | spawn q hpc hnew =>
    rw [hpc] at hcalm
    cases hcalm
  | commit child base st backoff hpc hst =>
    rw [hpc] at hcalm
    cases hcalm
  | crash child base st backoff hpc hst =>
    rw [hpc] at hcalm
    cases hcalm
  | again child base deadline wake wake' backoff hpc =>
    rw [hpc] at hcalm
    cases hcalm
  | settle pc pid w hfrom hto => cases hpc : c.pc <;> simp_all [RolePc.bereft, RolePc.calm]

theorem Role.Idle.envStep {c r : Role} {a : EnvAct} (hc : c.Idle) (hown : a.own = true)
    (haccept : ∀ p, a ≠ .accept p) (h : c.envStep a = some r) :
    r.Idle ∧ r.procs = c.procs ∧ r.now = c.now := by
  have hnone := hc.conns
  cases a with
  | elapse d => cases hown
  | fork p q => cases hown
  | reexec p => cases hown
  | exit p st => cases hown
  | accept p => exact absurd rfl (haccept p)
  | report k st =>
    obtain ⟨⟨hmem, -⟩, rfl⟩ := Role.report_cases h
    simp [hnone] at hmem
  | disconnect k =>
    obtain ⟨hmem, rfl⟩ := Role.disconnect_cases h
    simp [hnone] at hmem
  | query i =>
    obtain ⟨-, rfl⟩ := Role.query_cases h
    exact ⟨⟨hc.calm, hc.log, hc.conns⟩, rfl, rfl⟩
  | shutdown | giveUp | takeWriter =>
    cases h
    exact ⟨⟨hc.calm, hc.log, hc.conns⟩, rfl, rfl⟩

/-- The step of an idle candidate is its own affair. -/
theorem SelfUpgrade.candidate_idle {s t : SelfUpgrade} {n : RoleName} {a : RoleAct}
    (hsync : s.Synced) (hwait : s.Waiting) (hh : s.Harmless (.candidate n a))
    (h : s.step (.candidate n a) = some t) : t.roles = s.roles ∧ t.Waiting := by
  obtain ⟨c, r, hpc, hown, -, hr, rfl⟩ := SelfUpgrade.candidate_cases h
  obtain ⟨hprocs, hnow⟩ := hsync c hpc n
  have hidle : r.Idle ∧ r.procs = (c n).procs ∧ r.now = (c n).now := by
    cases a with
    | inl a =>
      apply (hwait c hpc n).supStep ?_ hr
      rintro q rfl
      refine ⟨hh.1, ?_⟩
      intro child base hchild
      have hexit := hh.2 c hpc child base hchild
      rw [Role.exitOf, hprocs]
      exact hexit
    | inr a =>
      apply (hwait c hpc n).envStep hown ?_ hr
      rintro p rfl
      exact hh
  obtain ⟨hr', hprocs', hnow'⟩ := hidle
  constructor
  · have hshare : (s.roles n).share r = s.roles n := by
      rw [Role.share, hprocs', hnow', hprocs, hnow]
    simp only [hshare, Function.update_eq_self]
  · intro c' hc'
    cases hc'
    apply (Function.forall_update_iff c fun _ r => r.Idle).mpr
    exact ⟨hr', fun m _ => hwait c hpc m⟩

/-! ### Whole attempts -/

theorem SelfUpgrade.step_synced (s : SelfUpgrade) (a : SelfUpgradeAct) (t : SelfUpgrade)
    (hs : s.Synced) (h : s.step a = some t) : t.Synced := by
  cases a with
  | role n a =>
    obtain ⟨r, -, -, rfl⟩ := SelfUpgrade.role_cases h
    intro c hc m
    cases hpc : s.pc with
    | overlapping c₀ =>
      simp only [hpc, HandoverPc.share, HandoverPc.overlapping.injEq] at hc
      subst hc
      by_cases hm : m = n
      · subst hm
        simp [Role.share]
      · simpa [Function.update_of_ne hm] using hs c₀ hpc m
    | _ => simp [hpc, HandoverPc.share] at hc
  | candidate n a =>
    obtain ⟨c₀, r, hpc, -, -, -, rfl⟩ := SelfUpgrade.candidate_cases h
    intro c hc m
    cases hc
    by_cases hm : m = n
    · subst hm
      simp [Role.share]
    · simpa [Function.update_of_ne hm] using hs c₀ hpc m
  | boot =>
    simp only [SelfUpgrade.step] at h
    split at h
    · cases h
      intro c hc n
      cases hc
      exact ⟨rfl, rfl⟩
    · cases h
  | sighup | readPid | readGen | spawn | commit | rollback =>
    simp only [SelfUpgrade.step] at h
    split at h <;> cases h <;> simp [SelfUpgrade.Synced]

/-- Not committed, and harmless. -/
def SelfUpgrade.Aborts (s : SelfUpgrade) (a : SelfUpgradeAct) : Prop :=
  a ≠ .commit ∧ s.Harmless a

theorem SelfUpgrade.step_waiting (s : SelfUpgrade) (a : SelfUpgradeAct) (t : SelfUpgrade)
    (hs : s.Synced ∧ s.Waiting) (hh : s.Aborts a) (h : s.step a = some t) :
    t.Synced ∧ t.Waiting := by
  refine ⟨SelfUpgrade.step_synced s a t hs.1 h, ?_⟩
  cases a with
  | role n a =>
    obtain ⟨r, -, -, rfl⟩ := SelfUpgrade.role_cases h
    intro c hc
    cases hpc : s.pc with
    | overlapping c₀ =>
      simp only [hpc, HandoverPc.share, HandoverPc.overlapping.injEq] at hc
      subst hc
      apply (Function.forall_update_iff c₀ fun _ r => r.Idle).mpr
      exact ⟨(hs.2 c₀ hpc n).share, fun m _ => hs.2 c₀ hpc m⟩
    | _ => simp [hpc, HandoverPc.share] at hc
  | candidate n a => exact (SelfUpgrade.candidate_idle hs.1 hs.2 hh.2 h).2
  | boot =>
    simp only [SelfUpgrade.step] at h
    split at h
    · next env hpc =>
      cases h
      intro c hc n
      cases hc
      obtain ⟨p, hpid, hp⟩ := hh.2 env hpc n
      simp only [hpid]
      exact Role.rebuilt_idle hp
    · cases h
  | sighup | readPid | readGen | spawn | commit | rollback =>
    simp only [SelfUpgrade.step] at h
    split at h <;> cases h <;> simp [SelfUpgrade.Waiting]

/-- Only the old supervisor's own steps change its roles. -/
theorem SelfUpgrade.step_unseen (s : SelfUpgrade) (a : SelfUpgradeAct) (t : SelfUpgrade)
    (hs : s.Synced ∧ s.Waiting) (hh : s.Aborts a) (ha : a.ofRole = none)
    (h : s.step a = some t) : t.roles = s.roles := by
  cases a with
  | role n a => cases ha
  | commit => exact absurd rfl hh.1
  | candidate n a => exact (SelfUpgrade.candidate_idle hs.1 hs.2 hh.2 h).1
  | sighup | readPid | readGen | spawn | boot | rollback =>
    simp only [SelfUpgrade.step] at h
    split at h <;> cases h <;> rfl

theorem SelfUpgrade.step_seen (s : SelfUpgrade) (a : SelfUpgradeAct) (t : SelfUpgrade)
    (b : RoleName × RoleAct) (hb : a.ofRole = some b) (h : s.step a = some t) :
    Roles.step s.roles b = some t.roles := by
  cases a with
  | role n a =>
    cases hb
    obtain ⟨r, hfits, hr, rfl⟩ := SelfUpgrade.role_cases h
    simp [Roles.step, hfits, hr]
  | _ => cases hb

theorem Role.rebuilt_spawns {s : Role} {pid : Option Pid} {q : Pid} (gen : ℕ)
    (hpid : ∀ p, pid = some p → s.procs p = none) (hq : s.procs q = none) :
    (s.rebuilt pid gen).step (.inl (.head (some q))) =
      some ((s.rebuilt pid gen).spawn (some q)) := by
  have hnext : (pid.bind fun p => if (s.procs p).isSome then some (ChildHandle.adopted p) else none) =
      none := by
    cases pid with
    | none => rfl
    | some p => simp [hpid p rfl]
  simp [Role.step, Role.supStep, Role.rebuilt, hnext, hq]

/-- A role without a worker to wait for is spawned by the candidate, and what it spawned is there
after the rollback, with the old loop where it was. -/
theorem SelfUpgrade.unhanded_spawned {s : SelfUpgrade} {env : Env} {n : RoleName} {q : Pid}
    (hpc : s.pc = .spawned env)
    (hpid : ∀ p, (AdoptedState.ofEnv env).pid n = some p → (s.roles n).procs p = none)
    (hq : (s.roles n).procs q = none) (hsize : q < 2 ^ 32) :
    ∃ t, exec SelfUpgrade.step s [.boot, .candidate n (.inl (.head (some q))), .rollback] =
        some t ∧ (t.roles n).procs q = some ⟨0, none⟩ ∧ (t.roles n).pc = (s.roles n).pc := by
  have hspawn := Role.rebuilt_spawns ((AdoptedState.ofEnv env).gen n) hpid hq
  have hfits : ∀ r : Role, r.fits (.inl (.head (some q))) = true := by
    intro r
    simpa [Role.fits] using hsize
  let r := ((s.roles n).rebuilt ((AdoptedState.ofEnv env).pid n)
    ((AdoptedState.ofEnv env).gen n)).spawn (some q)
  refine ⟨⟨Function.update s.roles n ((s.roles n).share r), .idle⟩, ?_, ?_, ?_⟩
  · simp [exec, SelfUpgrade.step, hpc, hspawn, RoleAct.own, hfits, r]
  · simp [Role.share, Role.spawn, Role.addProc, r]
  · simp [Role.share]

/-- For every interleaving with a candidate that never commits: as long as it is harmless, the old
supervisor's roles, their workers and loops are what the old supervisor's own steps make them, and
the candidate has spawned no worker and holds no connection of one. A candidate that was handed no
process for a role can spawn a worker at once, which outlives it. -/
theorem rolled_back_leaves_workers (before as : List SelfUpgradeAct) (s t : SelfUpgrade)
    (hbefore : exec SelfUpgrade.step SelfUpgrade.start before = some s) (hidle : s.pc = .idle)
    (hrun : exec SelfUpgrade.step s as = some t)
    (hharmless : Along SelfUpgrade.step SelfUpgrade.Aborts s as) :
    exec Roles.step s.roles (as.filterMap SelfUpgradeAct.ofRole) = some t.roles ∧
    (∀ c, t.pc = .overlapping c → ∀ n, spawns (c n) = 0 ∧ (c n).conns = []) ∧
    ∀ (u : SelfUpgrade) env n q, u.pc = .spawned env →
      (∀ p, (AdoptedState.ofEnv env).pid n = some p → (u.roles n).procs p = none) →
      (u.roles n).procs q = none → q < 2 ^ 32 →
      ∃ v, exec SelfUpgrade.step u [.boot, .candidate n (.inl (.head (some q))), .rollback] =
        some v ∧ (v.roles n).procs q = some ⟨0, none⟩ ∧ (v.roles n).pc = (u.roles n).pc := by
  have hsync : s.Synced := exec_invariant SelfUpgrade.step_synced _ s before
    (by simp [SelfUpgrade.Synced, SelfUpgrade.start]) hbefore
  have hwait : s.Waiting := by simp [SelfUpgrade.Waiting, hidle]
  refine ⟨?_, ?_, fun u env n q hpc hpid hq hsize => SelfUpgrade.unhanded_spawned hpc hpid hq hsize⟩
  · exact exec_project SelfUpgrade.roles SelfUpgradeAct.ofRole SelfUpgrade.step_waiting
      SelfUpgrade.step_unseen (fun s a t b _ _ => SelfUpgrade.step_seen s a t b) s t as
      ⟨hsync, hwait⟩ hharmless hrun
  · intro c hc n
    have hend := exec_along SelfUpgrade.step_waiting s t as ⟨hsync, hwait⟩ hharmless hrun
    obtain ⟨-, hlog, hconns⟩ := hend.2 c hc n
    exact ⟨List.count_eq_zero.mpr fun hmem => hlog _ hmem rfl, hconns⟩

/-- One worker for each role. -/
def fourWorkers : List SelfUpgradeAct :=
  [.role .processor (.inl (.head (some 11))), .role .plain (.inl (.head (some 12))),
    .role .tls (.inl (.head (some 13))), .role .scanner (.inl (.head (some 14)))]

def serving4 : SelfUpgrade := (exec SelfUpgrade.step SelfUpgrade.start fourWorkers).get (by decide)

def SelfUpgradeAct.innocent : SelfUpgradeAct → Bool
  | .boot | .commit | .candidate _ (.inr (.accept _)) | .candidate _ (.inl (.reap _)) => false
  | _ => true

theorem SelfUpgrade.innocent_aborts (s : SelfUpgrade) (a : SelfUpgradeAct)
    (ha : a.innocent = true) : s.Aborts a := by
  constructor
  · rintro rfl
    cases ha
  · unfold SelfUpgrade.Harmless
    split
    · cases ha
    · cases ha
    · cases ha
    · trivial

def waitedFor : List SelfUpgradeAct :=
  [.candidate .processor (.inl (.head none)), .candidate .tls (.inl (.head none)),
    .candidate .processor (.inl .snapshot), .role .plain (.inr (.elapse 3000)), .rollback]

theorem rolled_back_leaves_four :
    ∃ t, exec SelfUpgrade.step serving4 (swiftHandover ++ ([.boot] ++ waitedFor)) = some t ∧
      exec Roles.step serving4.roles [(.plain, .inr (.elapse 3000))] = some t.roles := by
  have hswift := SelfUpgrade.swift_snapshot (s := serving4) rfl
  have hboot : exec SelfUpgrade.step { serving4 with pc := .spawned serving4.snapshot.toEnv }
      [.boot] = some { serving4 with pc := .overlapping serving4.handedOver } := by
    have hall := SelfUpgrade.swift_boot (s := serving4) rfl
    obtain ⟨m, hm, hrest⟩ := exec_append_some _ _ _ _ hall
    cases hswift.symm.trans hm
    exact hrest
  let last := (exec SelfUpgrade.step { serving4 with pc := .overlapping serving4.handedOver }
    waitedFor).get (by decide)
  have hrun : exec SelfUpgrade.step serving4 (swiftHandover ++ ([.boot] ++ waitedFor)) = some last :=
    exec_append _ _ _ _ _ hswift (exec_append _ _ _ _ _ hboot (Option.some_get _).symm)
  have hinnocent : ∀ s, Along SelfUpgrade.step SelfUpgrade.Aborts s swiftHandover ∧
      Along SelfUpgrade.step SelfUpgrade.Aborts s waitedFor := by
    intro s
    exact ⟨along_of_forall _ SelfUpgrade.innocent_aborts s _ (by decide),
      along_of_forall _ SelfUpgrade.innocent_aborts s _ (by decide)⟩
  have hhanded : SelfUpgrade.Aborts { serving4 with pc := .spawned serving4.snapshot.toEnv }
      .boot := by
    refine ⟨by simp, ?_⟩
    intro env henv n
    cases henv
    rw [(serving4.snapshot.ofEnv_toEnv n).1]
    cases n with
    | processor => exact ⟨11, by decide, by decide⟩
    | plain => exact ⟨12, by decide, by decide⟩
    | tls => exact ⟨13, by decide, by decide⟩
    | scanner => exact ⟨14, by decide, by decide⟩
  have hrest : Along SelfUpgrade.step SelfUpgrade.Aborts
      { serving4 with pc := .spawned serving4.snapshot.toEnv } ([.boot] ++ waitedFor) :=
    ⟨hhanded, fun t _ => (hinnocent t).2⟩
  have hall := along_join hswift (hinnocent serving4).1 hrest
  exact ⟨last, hrun, (rolled_back_leaves_workers fourWorkers _ serving4 last
    (Option.some_get _).symm rfl hrun hall).1⟩

/-- The processor has crashed and its loop is about to back off. -/
def crashed7 : List SelfUpgradeAct :=
  [.role .processor (.inl (.head (some 7))), .role .processor (.inl .snapshot),
    .role .processor (.inr (.exit 7 ⟨9⟩)), .role .processor (.inl (.reap .exited))]

def backingOff : SelfUpgrade := (exec SelfUpgrade.step SelfUpgrade.start crashed7).get (by decide)

/-- The candidate spawns 9 and is killed; the old supervisor, after its backoff, spawns 10. -/
def spawnsBoth : List SelfUpgradeAct :=
  [.candidate .processor (.inl (.head (some 9))), .rollback, .role .processor (.inl .proceed),
    .role .processor (.inr (.elapse 400)), .role .processor (.inl .wake),
    .role .processor (.inl (.head (some 10)))]

theorem rolled_back_leaves_stray :
    ∃ t, exec SelfUpgrade.step SelfUpgrade.start
        (crashed7 ++ ((swiftHandover ++ [.boot]) ++ spawnsBoth)) = some t ∧
      (t.roles .processor).procs 9 = some ⟨0, none⟩ ∧
      (t.roles .processor).procs 10 = some ⟨0, none⟩ ∧
      (t.roles .processor).pc = .snapshot (.owned 10) ∧
      ∃ alone, exec Roles.step backingOff.roles (spawnsBoth.filterMap SelfUpgradeAct.ofRole) =
        some alone ∧ (alone .processor).procs 9 = none := by
  let last := (exec SelfUpgrade.step
    { backingOff with pc := .overlapping backingOff.handedOver } spawnsBoth).get (by decide)
  let alone := (exec Roles.step backingOff.roles
    (spawnsBoth.filterMap SelfUpgradeAct.ofRole)).get (by decide)
  have hrun := exec_append _ _ _ crashed7 ((swiftHandover ++ [.boot]) ++ spawnsBoth)
    (Option.some_get _).symm (exec_append _ _ last (swiftHandover ++ [.boot]) spawnsBoth
      (SelfUpgrade.swift_boot (s := backingOff) rfl) (Option.some_get _).symm)
  exact ⟨last, hrun, by decide, by decide, by decide, alone, (Option.some_get _).symm, by decide⟩

end FiveNinesEcho.Supervisor
