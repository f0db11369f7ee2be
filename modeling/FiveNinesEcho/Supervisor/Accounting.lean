import FiveNinesEcho.Supervisor.Successor
import Mathlib.Algebra.Group.Nat.Defs

/-!
# Crash accounting (`supervisor/worker.rs:170-311`, `supervisor/watchdog.rs:53-74`)

A worker that is lost soon after its start should count as a fast exit, so that a role that cannot
keep a worker ends up `Failed`. `supervise_role` has three ways back to its spawn branch, and only
one of them passes `record_exit`: a `spawn_fn` that fails is retried after half a second, and a
successor that `monitor_successor` gives up is replaced at once, both with nothing recorded.
-/

namespace FiveNinesEcho.Supervisor
open Lib Handoff

inductive LossForm where
  | spawnFailed
  | exited
  | lost
  deriving Repr, DecidableEq

/-- A role with what its losses are judged by: when each process ended, and how many fast losses
there have been in a row. -/
structure Ledger where
  role : Role
  diedAt : Pid → Option ℕ
  streak : ℕ

/-- The involuntary loss a step makes known, if any, and when it happened. -/
def Ledger.loss (s : Ledger) : RoleAct → Option (LossForm × ℕ)
  | .inl (.head none) =>
    if s.role.pc = .head none ∧ s.role.shutdown = false then some (.spawnFailed, s.role.now)
    else none
  | .inl (.reap _) => match s.role.pc with
    | .waiting child _ => match s.role.exitOf child.pid with
      | some st =>
        if st.isCommit then none else some (.exited, (s.diedAt child.pid).getD s.role.now)
      | none => none
    | _ => none
  | .inl .pollMonitor => match s.role.pc.absent with
    | some (g, since) =>
      if s.role.link.writer = none ∧ s.role.link.above g = false ∧
          successorLossGrace ≤ s.role.now - since then some (.lost, since)
      else none
    | none => none
  | _ => none

/-- When the worker that a loss is about was started. -/
def Ledger.startedAt (s : Ledger) : LossForm → Option ℕ
  | .spawnFailed => some s.role.now
  | _ => s.role.watchdog.lastSpawnedAt

/-- The form of the loss a step makes known, if it came within the healthy uptime of the start. -/
def Ledger.fastLoss (s : Ledger) (a : RoleAct) : Option LossForm :=
  (s.loss a).bind fun l =>
    if ∀ start ∈ s.startedAt l.1, l.2 < start + watchdogHealthyUptime then some l.1 else none

/-- Whether a step ends what was known of a worker in another way. -/
def Ledger.breaks (s : Ledger) (a : RoleAct) : Bool :=
  match a with
  | .inl (.reap _) => true
  | _ => (s.loss a).isSome

def Ledger.step (s : Ledger) (a : RoleAct) : Option Ledger :=
  (s.role.step a).map fun r =>
    { role := r
      diedAt := match a with
        | .inr (.exit p _) => Function.update s.diedAt p (some s.role.now)
        | _ => s.diedAt
      streak := if (s.fastLoss a).isSome then s.streak + 1
        else if s.breaks a then 0 else s.streak }

def Ledger.start {name : RoleName} (b : Boot name) : Ledger where
  role := Role.start b
  diedAt p := (b.procs p).bind fun pr => pr.exit.map fun _ => b.now
  streak := 0

def Ledger.count (s : Ledger) : ℕ := s.role.watchdog.consecutiveFastExits

/-- A fast loss made known by the step adds exactly one to the count. -/
def Ledger.Counted (s : Ledger) (a : RoleAct) : Prop :=
  ∀ t, s.step a = some t → (s.fastLoss a).isSome = true → t.count = s.count + 1

/-- A fast loss made known by the step is an exit, collected within the healthy uptime, and the
counter is not full. -/
def Ledger.Recorded (s : Ledger) (a : RoleAct) : Prop :=
  ∀ form ∈ s.fastLoss a, form = .exited ∧
    (∀ start ∈ s.role.watchdog.lastSpawnedAt, s.role.now - start < watchdogHealthyUptime) ∧
    s.count + 1 < 2 ^ 32

instance (s : Ledger) (a : RoleAct) : Decidable (s.Recorded a) :=
  inferInstanceAs (Decidable (∀ form ∈ s.fastLoss a, form = .exited ∧
    (∀ start ∈ s.role.watchdog.lastSpawnedAt, s.role.now - start < watchdogHealthyUptime) ∧
    s.count + 1 < 2 ^ 32))

/-! ### What a loss does to the count -/

theorem Ledger.fastLoss_loss {s : Ledger} {a : RoleAct} {form : LossForm}
    (h : s.fastLoss a = some form) : ∃ died, s.loss a = some (form, died) := by
  simp only [Ledger.fastLoss, Option.bind_eq_some_iff, Option.ite_none_right_eq_some,
    Option.some.injEq] at h
  obtain ⟨⟨form', died⟩, hloss, -, rfl⟩ := h
  exact ⟨died, hloss⟩

theorem Ledger.loss_reap {s : Ledger} {r : WaitAnswer} {form : LossForm} {died : ℕ}
    (h : s.loss (.inl (.reap r)) = some (form, died)) :
    form = .exited ∧ ∃ child base st, s.role.pc = .waiting child base ∧
      s.role.exitOf child.pid = some st ∧ st.isCommit = false := by
  simp only [Ledger.loss] at h
  split at h
  · next child base hpc =>
    split at h
    · next st hst =>
      simp only [Option.ite_none_left_eq_some, Option.some.injEq, Prod.mk.injEq] at h
      exact ⟨h.2.1.symm, child, base, st, hpc, hst, by simpa using h.1⟩
    · cases h
  · cases h

theorem Ledger.loss_not_reap {s : Ledger} {a : RoleAct} {form : LossForm} {died : ℕ}
    (h : s.loss a = some (form, died)) (ha : ∀ r, a ≠ .inl (.reap r)) : form ≠ .exited := by
  rintro rfl
  rcases a with a | a
  · cases a with
    | reap r => exact ha r rfl
    | head r =>
      cases r with
      | none => simp [Ledger.loss] at h
      | some p => simp [Ledger.loss] at h
    | pollMonitor =>
      simp only [Ledger.loss] at h
      split at h
      · simp at h
      · cases h
    | _ => simp [Ledger.loss] at h
  · simp [Ledger.loss] at h

theorem Ledger.step_cases {s t : Ledger} {a : RoleAct} (h : s.step a = some t) :
    s.role.step a = some t.role ∧
      t.streak = if (s.fastLoss a).isSome then s.streak + 1
        else if s.breaks a then 0 else s.streak := by
  obtain ⟨r, hr, rfl⟩ := Option.map_eq_some_iff.mp h
  exact ⟨hr, rfl⟩

theorem Role.step_fastExits {s t : Role} {a : RoleAct} (h : s.step a = some t)
    (ha : ∀ r, a ≠ .inl (.reap r)) :
    t.watchdog.consecutiveFastExits = s.watchdog.consecutiveFastExits := by
  rcases a with a | a
  · exact Role.supStep_fastExits h fun r hr => ha r (by rw [hr])
  · rw [Role.envStep_watchdog h]

/-- A real exit that is no commit is never collected as one. -/
theorem Role.waitStatus_crash (s : Role) (child : ChildHandle) (r : WaitAnswer)
    (st w : ExitStatus) (hexit : s.exitOf child.pid = some st) (hst : st.isCommit = false)
    (hw : s.waitStatus child r = some w) : w.isCommit = false := by
  by_cases hkept : child.isOwned = true ∧ r ≠ .ioError
  · rw [s.waitStatus_kept child r w st hkept hw hexit]
    exact hst
  · apply ExitStatus.isCommit_small w (s.waitStatus_small child r w ?_ hw)
    by_cases hown : child.isOwned = true
    · exact Or.inr (by_contra fun hne => hkept ⟨hown, hne⟩)
    · exact Or.inl (by simpa using hown)

theorem Ledger.counted_iff (s t : Ledger) (a : RoleAct) (h : s.step a = some t) :
    s.Counted a ↔ s.Recorded a := by
  obtain ⟨hrole, -⟩ := Ledger.step_cases h
  cases hf : s.fastLoss a with
  | none =>
    apply iff_of_true
    · intro t' _ hsome
      simp [hf] at hsome
    · intro form hform
      simp [hf] at hform
  | some form =>
    obtain ⟨died, hloss⟩ := Ledger.fastLoss_loss hf
    have hcounted : s.Counted a ↔ t.count = s.count + 1 := by
      constructor
      · exact fun hc => hc t h (by simp [hf])
      · intro hc t' ht' _
        cases h.symm.trans ht'
        exact hc
    have hrecorded : s.Recorded a ↔ form = .exited ∧
        (∀ start ∈ s.role.watchdog.lastSpawnedAt,
          s.role.now - start < watchdogHealthyUptime) ∧ s.count + 1 < 2 ^ 32 := by
      simp [Ledger.Recorded, hf]
    rw [hcounted, hrecorded]
    by_cases ha : ∃ r, a = .inl (.reap r)
    · obtain ⟨r, rfl⟩ := ha
      obtain ⟨rfl, child, base, st, hpc, hexit, hst⟩ := Ledger.loss_reap hloss
      obtain ⟨c, b, w, hpc', hw, ht⟩ := Role.reap_cases hrole
      cases hpc.symm.trans hpc'
      have hcrash := s.role.waitStatus_crash child r st w hexit hst hw
      have hcount : t.count =
          (s.role.watchdog.recordExit w s.role.now).consecutiveFastExits := by
        rw [Ledger.count, ht]
      rw [hcount, Ledger.count, recordExit_counts_iff s.role.watchdog w s.role.now hcrash]
      simp
    · have hnot : ∀ r, a ≠ .inl (.reap r) := fun r hr => ha ⟨r, hr⟩
      have hsame : t.count = s.count := Role.step_fastExits hrole hnot
      apply iff_of_false
      · omega
      · exact fun hform => Ledger.loss_not_reap hloss hnot hform.1

/-! ### Losses in a row -/

theorem Ledger.step_streak (s : Ledger) (a : RoleAct) (t : Ledger) (hs : s.streak ≤ s.count)
    (hg : s.Recorded a) (h : s.step a = some t) : t.streak ≤ t.count := by
  obtain ⟨hrole, hstreak⟩ := Ledger.step_cases h
  rw [hstreak]
  split
  · next hfast =>
    rw [(s.counted_iff t a h).mpr hg t h hfast]
    omega
  · split
    · exact Nat.zero_le _
    · next hno =>
      have hnot : ∀ r, a ≠ .inl (.reap r) := by
        rintro r rfl
        simp [Ledger.breaks] at hno
      have hsame : t.count = s.count := Role.step_fastExits hrole hnot
      omega

theorem Ledger.along_counted_iff (s t : Ledger) (as : List RoleAct)
    (h : exec Ledger.step s as = some t) :
    Along Ledger.step Ledger.Counted s as ↔ Along Ledger.step Ledger.Recorded s as := by
  induction as generalizing s with
  | nil => exact Iff.rfl
  | cons a as ih =>
    obtain ⟨m, hm, hrest⟩ := exec_cons_some s t a as h
    have hone := s.counted_iff m a hm
    have hall : (∀ m', s.step a = some m' → Along Ledger.step Ledger.Counted m' as) ↔
        ∀ m', s.step a = some m' → Along Ledger.step Ledger.Recorded m' as := by
      simp only [hm, Option.some.injEq, forall_eq']
      exact ih m hrest
    exact and_congr hone hall

/-- In every run, each fast loss adds exactly one to the count if and only if each of them is an exit
that is collected within the healthy uptime (while the counter is not full). In such a run as many
losses in a row as the threshold make the role `Failed`. -/
theorem losses_counted_iff {name : RoleName} (b : Boot name) (as : List RoleAct) (s : Ledger)
    (hrun : exec Ledger.step (Ledger.start b) as = some s) :
    (Along Ledger.step Ledger.Counted (Ledger.start b) as ↔
      Along Ledger.step Ledger.Recorded (Ledger.start b) as) ∧
    (Along Ledger.step Ledger.Recorded (Ledger.start b) as →
      watchdogFailThreshold ≤ s.streak → s.role.watchdog.isFailed = true ∧
        s.role.watchdog.healthState s.role.now = .failed) := by
  refine ⟨Ledger.along_counted_iff _ s as hrun, ?_⟩
  intro hrec hstreak
  have hle : s.streak ≤ s.count := exec_along (I := fun s => s.streak ≤ s.count)
    Ledger.step_streak _ s as (Nat.zero_le _) hrec hrun
  have hfailed : s.role.watchdog.isFailed = true := by
    simp only [WatchdogState.isFailed, decide_eq_true_eq]
    exact Nat.le_trans hstreak hle
  exact ⟨hfailed, (healthState_failed_iff s.role.watchdog s.role.now).mpr hfailed⟩

def crash (p : Pid) : List RoleAct :=
  [.inl (.head (some p)), .inl .snapshot, .inr (.exit p ⟨9⟩), .inl (.reap .exited)]

def respawnAfter (backoff : ℕ) : List RoleAct := [.inl .proceed, .inr (.elapse backoff), .inl .wake]

def crashLoop : List RoleAct :=
  crash 1 ++ respawnAfter 400 ++ crash 2 ++ respawnAfter 800 ++ crash 3 ++ respawnAfter 1600 ++
    crash 4 ++ respawnAfter 3200 ++ crash 5

theorem losses_counted_crash_loop :
    ∃ s, exec Ledger.step (Ledger.start (.cold .processor)) crashLoop = some s ∧ s.streak = 5 ∧
      Along Ledger.step Ledger.Counted (Ledger.start (.cold .processor)) crashLoop ∧
      s.role.watchdog.healthState s.role.now = .failed := by
  have hend : (exec Ledger.step (Ledger.start (.cold .processor)) crashLoop).map (·.streak) =
      some 5 := by decide
  obtain ⟨s, hs, hstreak⟩ := Option.map_eq_some_iff.mp hend
  have hrec : Along Ledger.step Ledger.Recorded (Ledger.start (.cold .processor)) crashLoop := by
    decide
  obtain ⟨hiff, hfail⟩ := losses_counted_iff (.cold .processor) crashLoop s hs
  exact ⟨s, hs, hstreak, hiff.mpr hrec, (hfail hrec (by rw [hstreak]; decide)).2⟩

/-- A `spawn_fn` that fails five times in a row is not counted once. -/
def spawnFailures : List RoleAct :=
  (List.replicate 5 [.inl (.head none), .inr (.elapse 500), .inl .wake]).flatten

theorem spawn_failures_not_counted :
    ∃ s, exec Ledger.step (Ledger.start (.cold .processor)) spawnFailures = some s ∧
      s.streak = 5 ∧ s.count = 0 ∧ s.role.watchdog.healthState s.role.now = .healthy ∧
      ¬ Along Ledger.step Ledger.Counted (Ledger.start (.cold .processor)) spawnFailures := by
  have hend : (exec Ledger.step (Ledger.start (.cold .processor)) spawnFailures).map
      (fun s => (s.streak, s.count, s.role.watchdog.healthState s.role.now)) =
      some (5, 0, .healthy) := by decide
  obtain ⟨s, hs, hc⟩ := Option.map_eq_some_iff.mp hend
  simp only [Prod.mk.injEq] at hc
  refine ⟨s, hs, hc.1, hc.2.1, hc.2.2, ?_⟩
  intro hall
  have hfirst := hall.1 _ rfl (by decide)
  exact absurd hfirst (by decide)

end FiveNinesEcho.Supervisor
