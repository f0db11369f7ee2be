import FiveNinesEcho.Handoff
import Mathlib.Algebra.Group.Nat.Defs

/-!
# The watchdog of a role (`supervisor/watchdog.rs`)

`WatchdogState` with its `record_*` methods and health state (`watchdog.rs:11-101`), for one role of
the map. An exit changes the restart policy: commit exits and exits of a healthy worker reset it, any
other exit is counted and doubles the backoff. Durations and times are in milliseconds, in which
every constant of the file is whole.
-/

namespace FiveNinesEcho.Supervisor
open Handoff

structure ExitStatus where
  raw : ℕ
  deriving Repr, DecidableEq

/-- `ExitStatus::code`: the second byte, unless a signal ended the process. -/
def ExitStatus.code (st : ExitStatus) : Option ℕ :=
  if st.raw % 128 = 0 then some (st.raw / 256 % 256) else none

def ExitStatus.exited (code : ℕ) : ExitStatus := ⟨code * 256⟩

theorem ExitStatus.code_small (st : ExitStatus) (n : ℕ) (h : st.raw < 256)
    (hc : st.code = some n) : n = 0 := by
  simp only [ExitStatus.code, Option.ite_none_right_eq_some, Option.some.injEq] at hc
  omega

def ExitStatus.isCommit (st : ExitStatus) : Bool := st.code = some upgradeCommitExitCode

theorem ExitStatus.isCommit_small (st : ExitStatus) (h : st.raw < 256) : st.isCommit = false := by
  by_contra hc
  have hcode : st.code = some upgradeCommitExitCode := by simpa [ExitStatus.isCommit] using hc
  have hzero := ExitStatus.code_small st _ h hcode
  simp [upgradeCommitExitCode] at hzero

def watchdogInitialBackoff : ℕ := 200
def watchdogMaxBackoff : ℕ := 30000
def watchdogHealthyUptime : ℕ := 5000

/-- `WatchdogState` (`watchdog.rs:22-29`). The wall-clock time of the last restart is only shown to
operators and left out. -/
structure WatchdogState where
  consecutiveFastExits : ℕ
  nextBackoff : ℕ
  lastSpawnedAt : Option ℕ
  totalRestarts : ℕ
  deriving Repr, DecidableEq

def WatchdogState.new : WatchdogState := ⟨0, watchdogInitialBackoff, none, 0⟩

def WatchdogState.recordSpawn (w : WatchdogState) (now : ℕ) : WatchdogState :=
  { w with lastSpawnedAt := some now, totalRestarts := (w.totalRestarts + 1) % 2 ^ 64 }

def WatchdogState.recordAdoption (w : WatchdogState) (now : ℕ) : WatchdogState :=
  { w with lastSpawnedAt := some now }

/-- `apply_exit` (`watchdog.rs:60-74`); the backoff it returns is the new `nextBackoff`. -/
def WatchdogState.applyExit (w : WatchdogState) (st : ExitStatus) (uptime : ℕ) : WatchdogState :=
  if st.code = some upgradeCommitExitCode then
    { w with consecutiveFastExits := 0, nextBackoff := watchdogInitialBackoff }
  else if uptime < watchdogHealthyUptime then
    { w with
      consecutiveFastExits := (w.consecutiveFastExits + 1) % 2 ^ 32
      nextBackoff := min (w.nextBackoff * 2) watchdogMaxBackoff }
  else
    { w with consecutiveFastExits := 0, nextBackoff := watchdogInitialBackoff }

def WatchdogState.recordExit (w : WatchdogState) (st : ExitStatus) (now : ℕ) : WatchdogState :=
  w.applyExit st (w.lastSpawnedAt.elim 0 (now - ·))

theorem recordExit_commit (w : WatchdogState) (st : ExitStatus) (now : ℕ)
    (h : st.isCommit = true) : (w.recordExit st now).consecutiveFastExits = 0 := by
  have hcode : st.code = some upgradeCommitExitCode := by simpa [ExitStatus.isCommit] using h
  simp [WatchdogState.recordExit, WatchdogState.applyExit, hcode]

/-! ### Health (`watchdog.rs:75-101`) -/

def watchdogFlapThreshold : ℕ := 4
def watchdogFailThreshold : ℕ := 5

inductive HealthState where
  | healthy
  | backoff
  | flapping
  | failed
  deriving Repr, DecidableEq

def WatchdogState.healthState (w : WatchdogState) (now : ℕ) : HealthState :=
  if watchdogFailThreshold ≤ w.consecutiveFastExits then .failed
  else if w.lastSpawnedAt.any (fun t => watchdogHealthyUptime ≤ now - t) then .healthy
  else if w.consecutiveFastExits = 0 then .healthy
  else if watchdogFlapThreshold ≤ w.consecutiveFastExits then .flapping
  else .backoff

def WatchdogState.isFailed (w : WatchdogState) : Bool :=
  watchdogFailThreshold ≤ w.consecutiveFastExits

theorem healthState_failed_iff (w : WatchdogState) (now : ℕ) :
    w.healthState now = .failed ↔ w.isFailed = true := by
  unfold WatchdogState.healthState WatchdogState.isFailed
  by_cases hfail : watchdogFailThreshold ≤ w.consecutiveFastExits
  · simp [hfail]
  · simp only [hfail, if_false, decide_false, Bool.false_eq_true, iff_false]
    split
    · simp
    · split
      · simp
      · split <;> simp

theorem healthState_healthy_iff (w : WatchdogState) (now : ℕ) :
    w.healthState now = .healthy ↔ w.consecutiveFastExits = 0 ∨
      w.isFailed = false ∧ ∃ start ∈ w.lastSpawnedAt, watchdogHealthyUptime ≤ now - start := by
  unfold WatchdogState.healthState WatchdogState.isFailed
  by_cases hfail : watchdogFailThreshold ≤ w.consecutiveFastExits
  · have hpos : w.consecutiveFastExits ≠ 0 := by
      simp only [watchdogFailThreshold] at hfail
      omega
    simp [hfail, hpos]
  · have hup : (w.lastSpawnedAt.any fun t => decide (watchdogHealthyUptime ≤ now - t)) = true ↔
        ∃ start ∈ w.lastSpawnedAt, watchdogHealthyUptime ≤ now - start := by
      simp [Option.any_eq_true]
    rw [if_neg hfail, ← hup]
    by_cases hold : (w.lastSpawnedAt.any fun t => decide (watchdogHealthyUptime ≤ now - t)) = true
    · simp [hold, hfail]
    · by_cases hzero : w.consecutiveFastExits = 0
      · simp [hzero]
      · simp only [hold, Bool.false_eq_true, if_false, hzero, and_false, or_self, iff_false]
        split <;> simp

theorem recordExit_counts_iff (w : WatchdogState) (st : ExitStatus) (now : ℕ)
    (hst : st.isCommit = false) :
    (w.recordExit st now).consecutiveFastExits = w.consecutiveFastExits + 1 ↔
      (∀ start ∈ w.lastSpawnedAt, now - start < watchdogHealthyUptime) ∧
        w.consecutiveFastExits + 1 < 2 ^ 32 := by
  have hcode : ¬ st.code = some upgradeCommitExitCode := by
    simpa [ExitStatus.isCommit] using hst
  have huptime : (w.lastSpawnedAt.elim 0 (now - ·) < watchdogHealthyUptime) ↔
      ∀ start ∈ w.lastSpawnedAt, now - start < watchdogHealthyUptime := by
    cases w.lastSpawnedAt with
    | none => simp [watchdogHealthyUptime]
    | some start => simp
  rw [← huptime]
  unfold WatchdogState.recordExit WatchdogState.applyExit
  rw [if_neg hcode]
  split
  · next hfast =>
    simp only [hfast, true_and]
    omega
  · next hslow =>
    simp [hslow]

theorem recordExit_pos (w : WatchdogState) (st : ExitStatus) (now : ℕ)
    (hpos : 0 < (w.recordExit st now).consecutiveFastExits) :
    st.isCommit = false ∧ ∀ start ∈ w.lastSpawnedAt, now - start < watchdogHealthyUptime := by
  unfold WatchdogState.recordExit WatchdogState.applyExit at hpos
  split at hpos
  · simp at hpos
  · next hcode =>
    split at hpos
    · next hfast =>
      refine ⟨by simpa [ExitStatus.isCommit] using hcode, ?_⟩
      intro start hstart
      rw [Option.mem_def.mp hstart] at hfast
      exact hfast
    · simp at hpos

end FiveNinesEcho.Supervisor
