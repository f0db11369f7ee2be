import FiveNinesEcho.Supervisor.Role
import Mathlib.Data.List.DropRight

/-!
# The watchdog over whole histories (`supervisor/watchdog.rs:11-101`)

`apply_exit` carries two fields from exit to exit. Both are functions of one number, the length of
the run of fast exits a history ends in: the counter is that number (modulo its width), the backoff
is 200 ms doubled so often and capped at 30 s. What the thresholds of the counter and the cap of the
backoff have to do with each other, and what `health_state` shows, follows from there.
-/

namespace FiveNinesEcho.Supervisor
open Lib Handoff

inductive WatchdogEvent where
  | spawn
  | adoption
  deriving Repr, DecidableEq

/-- A call of `record_watchdog_event` at a time, or of `apply_exit` with an uptime. -/
inductive WatchdogAct where
  | record (event : WatchdogEvent) (now : ℕ)
  | exit (status : ExitStatus) (uptime : ℕ)
  deriving Repr, DecidableEq

def WatchdogState.act (w : WatchdogState) : WatchdogAct → WatchdogState
  | .record .spawn now => w.recordSpawn now
  | .record .adoption now => w.recordAdoption now
  | .exit status uptime => w.applyExit status uptime

def WatchdogState.after (acts : List WatchdogAct) : WatchdogState :=
  acts.foldl WatchdogState.act .new

/-- `Duration::MAX` in whole milliseconds. -/
def durationMax : ℕ := (2 ^ 64 - 1) * 1000 + 999

def WatchdogAct.exited : WatchdogAct → Option (ExitStatus × ℕ)
  | .record _ _ => none
  | .exit status uptime => some (status, uptime)

def WatchdogAct.startedAt : WatchdogAct → Option ℕ
  | .record _ now => some now
  | .exit _ _ => none

def isFastExit (e : ExitStatus × ℕ) : Bool := !e.1.isCommit && e.2 < watchdogHealthyUptime

/-- How long the run of fast exits is that a history ends in. -/
def fastRun (acts : List WatchdogAct) : ℕ :=
  ((acts.filterMap WatchdogAct.exited).rtakeWhile isFastExit).length

def lastStart (acts : List WatchdogAct) : Option ℕ :=
  (acts.filterMap WatchdogAct.startedAt).getLast?

/-! ### One more event -/

theorem after_concat (acts : List WatchdogAct) (a : WatchdogAct) :
    WatchdogState.after (acts ++ [a]) = (WatchdogState.after acts).act a := by
  simp [WatchdogState.after, List.foldl_append]

theorem fastRun_record (acts : List WatchdogAct) (event : WatchdogEvent) (now : ℕ) :
    fastRun (acts ++ [.record event now]) = fastRun acts := by
  have hexits : (acts ++ [WatchdogAct.record event now]).filterMap WatchdogAct.exited =
      acts.filterMap WatchdogAct.exited := by
    simp [List.filterMap_append, List.filterMap_cons, WatchdogAct.exited]
  rw [fastRun, hexits, fastRun]

theorem fastRun_exit (acts : List WatchdogAct) (status : ExitStatus) (uptime : ℕ) :
    fastRun (acts ++ [.exit status uptime]) =
      if isFastExit (status, uptime) = true then fastRun acts + 1 else 0 := by
  have hexits : (acts ++ [WatchdogAct.exit status uptime]).filterMap WatchdogAct.exited =
      acts.filterMap WatchdogAct.exited ++ [(status, uptime)] := by
    simp [List.filterMap_append, WatchdogAct.exited]
  rw [fastRun, hexits, List.rtakeWhile_concat]
  split
  · rw [List.length_append, List.length_singleton, fastRun]
  · rfl

theorem lastStart_record (acts : List WatchdogAct) (event : WatchdogEvent) (now : ℕ) :
    lastStart (acts ++ [.record event now]) = some now := by
  simp [lastStart, List.filterMap_append, WatchdogAct.startedAt]

theorem lastStart_exit (acts : List WatchdogAct) (status : ExitStatus) (uptime : ℕ) :
    lastStart (acts ++ [.exit status uptime]) = lastStart acts := by
  simp [lastStart, List.filterMap_append, WatchdogAct.startedAt]

theorem applyExit_fast (w : WatchdogState) (status : ExitStatus) (uptime : ℕ)
    (h : isFastExit (status, uptime) = true) :
    w.applyExit status uptime =
      { w with
        consecutiveFastExits := (w.consecutiveFastExits + 1) % 2 ^ 32
        nextBackoff := min (w.nextBackoff * 2) watchdogMaxBackoff } := by
  simp only [isFastExit, ExitStatus.isCommit, Bool.and_eq_true, Bool.not_eq_true',
    decide_eq_false_iff_not, decide_eq_true_eq] at h
  rw [WatchdogState.applyExit, if_neg h.1, if_pos h.2]

theorem applyExit_slow (w : WatchdogState) (status : ExitStatus) (uptime : ℕ)
    (h : ¬ isFastExit (status, uptime) = true) :
    w.applyExit status uptime =
      { w with consecutiveFastExits := 0, nextBackoff := watchdogInitialBackoff } := by
  simp only [isFastExit, ExitStatus.isCommit, Bool.and_eq_true, Bool.not_eq_true',
    decide_eq_false_iff_not, decide_eq_true_eq] at h
  rw [WatchdogState.applyExit]
  split
  · rfl
  · next hcode =>
    rw [if_neg fun hfast => h ⟨hcode, hfast⟩]

/-! ### The closed form -/

def backoffAfter (k : ℕ) : ℕ := min (watchdogInitialBackoff * 2 ^ k) watchdogMaxBackoff

theorem backoffAfter_succ (k : ℕ) :
    min (backoffAfter k * 2) watchdogMaxBackoff = backoffAfter (k + 1) := by
  simp only [backoffAfter, watchdogInitialBackoff, watchdogMaxBackoff, pow_succ]
  omega

/-- The state of a watchdog with that history. -/
structure WatchdogState.Follows (w : WatchdogState) (acts : List WatchdogAct) : Prop where
  counter : w.consecutiveFastExits = fastRun acts % 2 ^ 32
  backoff : w.nextBackoff = backoffAfter (fastRun acts)
  started : w.lastSpawnedAt = lastStart acts

theorem new_follows : WatchdogState.new.Follows [] := ⟨rfl, rfl, rfl⟩

theorem WatchdogState.Follows.act {w : WatchdogState} {acts : List WatchdogAct}
    (h : w.Follows acts) (a : WatchdogAct) : (w.act a).Follows (acts ++ [a]) := by
  cases a with
  | record event now =>
    refine ⟨?_, ?_, ?_⟩
    · rw [fastRun_record, ← h.counter]
      cases event <;> rfl
    · rw [fastRun_record, ← h.backoff]
      cases event <;> rfl
    · rw [lastStart_record]
      cases event <;> rfl
  | exit status uptime =>
    have hstep : w.act (.exit status uptime) = w.applyExit status uptime := rfl
    rw [hstep]
    by_cases hfast : isFastExit (status, uptime) = true
    · have hrun : fastRun (acts ++ [.exit status uptime]) = fastRun acts + 1 := by
        rw [fastRun_exit, if_pos hfast]
      rw [applyExit_fast w status uptime hfast]
      refine ⟨?_, ?_, ?_⟩
      · simp only [hrun, h.counter]
        omega
      · simp only [hrun, h.backoff, backoffAfter_succ]
      · rw [lastStart_exit]
        exact h.started
    · have hrun : fastRun (acts ++ [.exit status uptime]) = 0 := by
        rw [fastRun_exit, if_neg hfast]
      rw [applyExit_slow w status uptime hfast]
      refine ⟨?_, ?_, ?_⟩
      · simp only [hrun, Nat.zero_mod]
      · simp only [hrun]
        rfl
      · rw [lastStart_exit]
        exact h.started

theorem after_follows (acts : List WatchdogAct) : (WatchdogState.after acts).Follows acts := by
  induction acts using List.reverseRecOn with
  | nil => exact new_follows
  | append_singleton acts a ih =>
    rw [after_concat]
    exact ih.act a

theorem fastRun_le (acts : List WatchdogAct) :
    fastRun acts ≤ (acts.filterMap WatchdogAct.exited).length :=
  (List.rtakeWhile_suffix isFastExit _).length_le

/-- The counter is the length of the run of fast exits at the end, the backoff returned by the last
exit is 200 ms doubled so often and at most 30 s, and the doubling on the way never leaves the range
of a `Duration`. -/
theorem watchdog_closed_form (acts : List WatchdogAct)
    (hfew : (acts.filterMap WatchdogAct.exited).length < 2 ^ 32) :
    (WatchdogState.after acts).consecutiveFastExits = fastRun acts ∧
    (WatchdogState.after acts).nextBackoff = min (200 * 2 ^ fastRun acts) 30000 ∧
    ∀ pre, pre <+: acts → (WatchdogState.after pre).nextBackoff * 2 ≤ durationMax := by
  have hend := after_follows acts
  have hrun := fastRun_le acts
  refine ⟨?_, hend.backoff, ?_⟩
  · rw [hend.counter]
    exact Nat.mod_eq_of_lt (by omega)
  · intro pre _
    rw [(after_follows pre).backoff]
    have hcap : backoffAfter (fastRun pre) ≤ watchdogMaxBackoff := min_le_right _ _
    simp only [watchdogMaxBackoff] at hcap
    simp only [durationMax]
    omega

theorem watchdog_closed_form_reset :
    (WatchdogState.after [.record .spawn 0, .exit ⟨9⟩ 10, .exit ⟨9⟩ 7000, .record .adoption 9000,
      .exit ⟨9⟩ 4999, .exit ⟨256⟩ 0]).nextBackoff = 800 := by
  have hform := watchdog_closed_form [.record .spawn 0, .exit ⟨9⟩ 10, .exit ⟨9⟩ 7000,
    .record .adoption 9000, .exit ⟨9⟩ 4999, .exit ⟨256⟩ 0] (by decide)
  exact hform.2.1

/-! ### Failed, and the cap -/

theorem backoffAfter_max_iff (k : ℕ) : backoffAfter k = watchdogMaxBackoff ↔ 8 ≤ k := by
  constructor
  · intro h
    by_contra hlt
    have hpow : 2 ^ k ≤ 2 ^ 7 := Nat.pow_le_pow_right (by decide) (by omega)
    simp only [backoffAfter, watchdogInitialBackoff, watchdogMaxBackoff] at h
    omega
  · intro h
    have hpow : 2 ^ 8 ≤ 2 ^ k := Nat.pow_le_pow_right (by decide) h
    simp only [backoffAfter, watchdogInitialBackoff, watchdogMaxBackoff]
    omega

/-- A failed role waits for the maximal backoff, unless the run of fast exits that made it fail is
still so short that the doubling has not got there. -/
theorem failed_at_max_iff (acts : List WatchdogAct) :
    ((WatchdogState.after acts).isFailed = true →
      (WatchdogState.after acts).nextBackoff = watchdogMaxBackoff) ↔
    ¬ (watchdogFailThreshold ≤ fastRun acts ∧ fastRun acts < 8) := by
  have hend := after_follows acts
  rw [hend.backoff, backoffAfter_max_iff, WatchdogState.isFailed, decide_eq_true_eq, hend.counter]
  simp only [watchdogFailThreshold]
  omega

def fastExits (k : ℕ) : List WatchdogAct := List.replicate k (.exit ⟨9⟩ 0)

theorem failed_below_max :
    (WatchdogState.after (fastExits 5)).isFailed = true ∧
      (WatchdogState.after (fastExits 5)).nextBackoff = 6400 ∧ 6400 ≠ watchdogMaxBackoff := by
  decide

/-! ### Down, and shown healthy -/

/-- Exactly when a role whose last event is a fast crash is not shown healthy: it has failed, or the
query comes within the healthy uptime of its last start (and the counter has not just come round to
zero). -/
theorem down_not_healthy_iff (acts : List WatchdogAct) (status : ExitStatus) (uptime query : ℕ)
    (hst : status.isCommit = false) (hfast : uptime < watchdogHealthyUptime) :
    (WatchdogState.after (acts ++ [.exit status uptime])).healthState query ≠ .healthy ↔
      (fastRun acts + 1) % 2 ^ 32 ≠ 0 ∧
        (watchdogFailThreshold ≤ (fastRun acts + 1) % 2 ^ 32 ∨
          ∀ start ∈ lastStart acts, query - start < watchdogHealthyUptime) := by
  have hend := after_follows (acts ++ [.exit status uptime])
  have hrun : fastRun (acts ++ [.exit status uptime]) = fastRun acts + 1 := by
    rw [fastRun_exit, if_pos]
    simp [isFastExit, hst, hfast]
  rw [Ne, healthState_healthy_iff, hend.started, lastStart_exit, WatchdogState.isFailed,
    hend.counter, hrun, not_or]
  refine and_congr Iff.rfl ?_
  rw [not_and_or]
  refine or_congr (by simp) ?_
  push Not
  rfl

theorem down_not_healthy_young :
    (WatchdogState.after ([.record .spawn 0] ++ [.exit ⟨9⟩ 4000])).healthState 4300 ≠ .healthy := by
  exact (down_not_healthy_iff [.record .spawn 0] ⟨9⟩ 4000 4300 (by decide) (by decide)).mpr
    (by decide)

/-- A worker that crashes 4.9 s after its start: 200 ms later the loop still sleeps its backoff, no
process runs, and the role is shown healthy. -/
def lateCrash : List RoleAct :=
  [.inl (.head (some 7)), .inl .snapshot, .inr (.elapse 4900), .inr (.exit 7 ⟨9⟩),
    .inl (.reap .exited), .inl .proceed, .inr (.elapse 200)]

theorem down_shown_healthy :
    (WatchdogState.after [.record .spawn 0, .exit ⟨9⟩ 4900]).healthState 5100 = .healthy ∧
    ∃ s, exec Role.step (Role.start (.cold .processor)) lateCrash = some s ∧
      s.watchdog = WatchdogState.after [.record .spawn 0, .exit ⟨9⟩ 4900] ∧ s.now = 5100 ∧
      s.pc = .sleeping 5300 ∧ s.runs 7 = false ∧ s.watchdog.healthState s.now = .healthy := by
  refine ⟨by decide, ?_⟩
  refine ⟨(exec Role.step (Role.start (.cold .processor)) lateCrash).get (by decide),
    (Option.some_get _).symm, ?_⟩
  decide

end FiveNinesEcho.Supervisor
