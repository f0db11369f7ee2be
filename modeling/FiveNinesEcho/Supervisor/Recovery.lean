import FiveNinesEcho.Supervisor.Canary

/-!
# Recovery of a failed role by an upgrade (`supervisor/watchdog.rs:53-78`, `supervisor/admin.rs:236-253`)

`Failed` is a count of fast exits, and only `record_exit` lowers it. An upgrade gets a role out of it
by the exit of the worker that commits. The TLS acceptor commits by `exec` in its own process
(`acceptor/tls_drain.rs:170-177`): nothing exits, nothing is recorded, and a TLS role that has failed
stays so however healthy its new image is.
-/

namespace FiveNinesEcho.Supervisor
open Lib Handoff

/-- The commit of that worker is an exit, and the loop has the worker as its child. -/
def Canary.waits (c : Canary) (p : Pid) : Bool :=
  !c.role.name.execsInPlace && c.role.pc.running.any fun child => child.pid = p

/-- A step after the commit of worker `p` in `c`: an exit that is collected is the commit's. -/
def Canary.causes (c : Canary) (p : Pid) (d : Canary) : CanaryAct → Bool
  | .inl (.inl (.reap r)) =>
    c.waits p && r ≠ .ioError && d.role.pc.running.any fun child => child.pid = p
  | _ => true

/-- A run in which a worker commits an upgrade, the walk reports `Done` for the role, and the loop has
seen of the commit what there is to see, and no other exit. -/
structure Recovery (name : RoleName) where
  boot : Boot name
  req : RollingUpgradeRequest
  before : List CanaryAct
  during : List CanaryAct
  committing : Canary
  committed : Canary
  last : Canary
  pid : Pid
  commit : EnvAct
  preGen : ℕ
  generation : ℕ
  run_before : exec Canary.step (Canary.start boot req) before = some committing
  commits : commit = .reexec pid ∨ ∃ st, st.isCommit = true ∧ commit = .exit pid st
  commit_step : committing.step (.inl (.inr commit)) = some committed
  run_during : exec Canary.step committed during = some last
  caused : Along Canary.step (fun d a => committing.causes pid d a = true) committed during
  processed : committing.waits pid = true → during.any CanaryAct.isReap = true
  done : .notify (.upgradeStep (doneStep name preGen generation)) ∈ last.walk.trace

/-! ### Adopted workers -/

/-- A worker taken over from the previous supervisor is the first of this one, whose watchdog has
seen no exit yet. -/
def Role.AdoptedFirst (s : Role) : Prop :=
  ∀ child ∈ s.pc.running, child.isOwned = false → s.watchdog.consecutiveFastExits = 0

theorem Role.adoptedFirst_of_none {s : Role} (h : s.pc.running = none) : s.AdoptedFirst := by
  intro child hchild
  rw [h] at hchild
  cases hchild

theorem RolePc.running_of_between {pc : RolePc} (h : pc.between = true) : pc.running = none := by
  cases pc with
  | head next =>
    cases next with
    | none => rfl
    | some child => cases h
  | adopting | monitoring | sleeping => rfl
  | _ => cases h

theorem Role.step_adoptedFirst {s t : Role} {a : RoleAct} (hs : s.AdoptedFirst)
    (h : s.step a = some t) : t.AdoptedFirst := by
  cases a with
  | inr a =>
    obtain ⟨-, hpc, -⟩ := Role.envStep_frame h
    intro child hchild hown
    rw [Role.envStep_watchdog h]
    rw [hpc] at hchild
    exact hs child hchild hown
  | inl a =>
    cases Role.supStep_cases h with
    | take r child hpc =>
      intro child' hchild' hown
      exact hs child' (by rw [hpc]; exact hchild') hown
    | snapshot child hpc =>
      intro child' hchild' hown
      exact hs child' (by rw [hpc]; exact hchild') hown
    | spawn r hpc hnew =>
      cases r with
      | none => exact Role.adoptedFirst_of_none rfl
      | some p =>
        intro child hchild hown
        cases hchild
        cases hown
    | settle a pc pid w hfrom hto =>
      exact Role.adoptedFirst_of_none (RolePc.running_of_between hto)
    | _ => exact Role.adoptedFirst_of_none rfl

theorem Canary.step_adoptedFirst (c : Canary) (a : CanaryAct) (d : Canary)
    (hc : c.role.AdoptedFirst) (h : c.step a = some d) : d.role.AdoptedFirst := by
  rcases Canary.step_cases h with ⟨b, -, hrole, -⟩ | ⟨b, -, -, -, hrole⟩
  · exact Role.step_adoptedFirst hc hrole
  · rw [hrole]
    exact hc

theorem Canary.start_adoptedFirst {name : RoleName} (b : Boot name) (req : RollingUpgradeRequest) :
    (Canary.start b req).role.AdoptedFirst := by
  intro child _ _
  simp only [Canary.start, Role.start]
  split <;> rfl

/-! ### The exit of a commit -/

theorem Canary.step_exitOf {c d : Canary} {a : CanaryAct} (h : c.step a = some d) (p : Pid)
    (st : ExitStatus) (hp : c.role.exitOf p = some st) : d.role.exitOf p = some st := by
  rcases Canary.step_cases h with ⟨b, -, hrole, -⟩ | ⟨b, -, -, -, hrole⟩
  · cases b with
    | inl b =>
      obtain ⟨-, -, -, hexit, -⟩ := (Role.supStep_cases hrole).frame
      rw [hexit]
      exact hp
    | inr b => exact Role.envStep_exited hrole p st hp
  · rw [hrole]
    exact hp

theorem recordExit_le (w : WatchdogState) (st : ExitStatus) (now : ℕ) :
    (w.recordExit st now).consecutiveFastExits ≤ w.consecutiveFastExits + 1 := by
  unfold WatchdogState.recordExit WatchdogState.applyExit
  split
  · exact Nat.zero_le _
  · split
    · exact Nat.mod_le _ _
    · exact Nat.zero_le _

/-- An owned child's commit is collected as one. An adopted child's is taken for a crash, the first
that is counted. -/
theorem Canary.reap_small {c d : Canary} {r : WaitAnswer} {p : Pid} {st : ExitStatus}
    (hfirst : c.role.AdoptedFirst) (hexit : c.role.exitOf p = some st) (hst : st.isCommit = true)
    (hr : r ≠ .ioError) (hchild : c.role.pc.running.any (fun child => child.pid = p) = true)
    (h : c.step (.inl (.inl (.reap r))) = some d) :
    d.role.watchdog.consecutiveFastExits ≤ 1 := by
  obtain ⟨role, hrole, rfl⟩ := Option.map_eq_some_iff.mp h
  obtain ⟨child, base, w, hpc, hw, rfl⟩ := Role.reap_cases hrole
  have hpid : child.pid = p := by simpa [hpc, RolePc.running] using hchild
  subst hpid
  cases hown : child.isOwned with
  | true =>
    have hsame := c.role.waitStatus_kept child r w st ⟨hown, hr⟩ hw hexit
    have hzero := recordExit_commit c.role.watchdog w c.role.now (by rw [hsame, hst])
    exact Nat.le_trans (Nat.le_of_eq hzero) (Nat.zero_le _)
  | false =>
    have hcount := hfirst child (by simp [hpc, RolePc.running]) hown
    have hle := recordExit_le c.role.watchdog w c.role.now
    rw [hcount] at hle
    exact hle

/-- What is kept after the commit of `p`, collected or not. -/
structure Canary.After (p : Pid) (st : ExitStatus) (d : Canary) : Prop where
  first : d.role.AdoptedFirst
  exited : d.role.exitOf p = some st

theorem Canary.step_after {p : Pid} {st : ExitStatus} {c d : Canary} {a : CanaryAct}
    (hc : c.After p st) (h : c.step a = some d) : d.After p st :=
  ⟨Canary.step_adoptedFirst c a d hc.first h, Canary.step_exitOf h p st hc.exited⟩

theorem Canary.causes_reap {c d : Canary} {p : Pid} {r : WaitAnswer}
    (h : c.causes p d (.inl (.inl (.reap r))) = true) :
    c.waits p = true ∧ r ≠ .ioError ∧
      d.role.pc.running.any (fun child => child.pid = p) = true := by
  simp only [Canary.causes, Bool.and_eq_true, decide_eq_true_eq] at h
  exact ⟨h.1.1, h.1.2, h.2⟩

/-- Once the commit has been collected the count is at most one, and stays so. -/
theorem Canary.exec_small {c : Canary} {p : Pid} {st : ExitStatus} (hst : st.isCommit = true)
    {d e : Canary} {as : List CanaryAct} (hd : d.After p st) (h : exec Canary.step d as = some e)
    (hcaused : Along Canary.step (fun d a => c.causes p d a = true) d as)
    (hreap : as.any CanaryAct.isReap = true ∨ d.role.watchdog.consecutiveFastExits ≤ 1) :
    e.role.watchdog.consecutiveFastExits ≤ 1 := by
  induction as generalizing d with
  | nil =>
    cases h
    simpa using hreap
  | cons a as ih =>
    obtain ⟨m, hm, hrest⟩ := exec_cons_some d e a as h
    refine ih (Canary.step_after hd hm) hrest (hcaused.2 m hm) ?_
    cases ha : a.isReap with
    | true =>
      obtain ⟨r, rfl⟩ := CanaryAct.reap_of_isReap ha
      obtain ⟨-, hr, hchild⟩ := Canary.causes_reap hcaused.1
      exact Or.inr (Canary.reap_small hd.first hd.exited hst hr hchild hm)
    | false =>
      simp only [List.any_cons, ha, Bool.false_or] at hreap
      rw [Canary.step_count hm ha]
      exact hreap

/-! ### Recovered, or not -/

theorem Recovery.exits {name : RoleName} (t : Recovery name)
    (hwaits : t.committing.waits t.pid = true) :
    ∃ st, st.isCommit = true ∧ t.committed.After t.pid st := by
  have hplace : t.committing.role.name.execsInPlace = false := by
    simp only [Canary.waits, Bool.and_eq_true, Bool.not_eq_true'] at hwaits
    exact hwaits.1
  have hfirst : t.committing.role.AdoptedFirst :=
    exec_invariant Canary.step_adoptedFirst _ _ t.before (Canary.start_adoptedFirst _ _)
      t.run_before
  have hfirst' := Canary.step_adoptedFirst _ _ _ hfirst t.commit_step
  obtain ⟨role, hrole, hcommitted⟩ := Option.map_eq_some_iff.mp t.commit_step
  rcases t.commits with hcommit | ⟨st, hst, hcommit⟩
  · rw [hcommit] at hrole
    obtain ⟨gen, -, hin, -⟩ := Role.reexec_cases hrole
    rw [hplace] at hin
    cases hin
  · rw [hcommit] at hrole
    obtain ⟨gen, -, -, rfl⟩ := Role.exit_cases hrole
    refine ⟨st, hst, hfirst', ?_⟩
    rw [← hcommitted]
    exact (Role.exitOf_exitProc _ _ _ _ _).trans (if_pos rfl)

theorem Recovery.unseen {name : RoleName} (t : Recovery name)
    (hwaits : t.committing.waits t.pid = false) : ∀ a ∈ t.during, a.isReap = false := by
  refine forall_of_along t.committed t.last t.during ?_ t.run_during
  refine along_of_invariant (I := fun _ => True) (fun _ _ _ _ _ _ => trivial) ?_ _ _ trivial
    t.caused
  intro d a _ hcaused
  cases ha : a.isReap with
  | false => rfl
  | true =>
    obtain ⟨r, rfl⟩ := CanaryAct.reap_of_isReap ha
    rw [(Canary.causes_reap hcaused).1] at hwaits
    cases hwaits

theorem isFailed_congr {v w : WatchdogState}
    (h : v.consecutiveFastExits = w.consecutiveFastExits) : v.isFailed = w.isFailed := by
  rw [WatchdogState.isFailed, WatchdogState.isFailed, h]

/-- A role whose upgrade has been committed and reported is out of `Failed` exactly when the loop had
a commit exit of its child to collect, or was not in it before. -/
theorem upgrade_recovers_iff {name : RoleName} (t : Recovery name) :
    t.last.role.watchdog.isFailed = false ↔
      t.committing.waits t.pid = true ∨ t.committing.role.watchdog.isFailed = false := by
  cases hwaits : t.committing.waits t.pid with
  | true =>
    obtain ⟨st, hst, hafter⟩ := t.exits hwaits
    have hsmall := Canary.exec_small hst hafter t.run_during t.caused (Or.inl (t.processed hwaits))
    have hbelow : ¬ watchdogFailThreshold ≤ t.last.role.watchdog.consecutiveFastExits := by
      simp only [watchdogFailThreshold]
      omega
    exact iff_of_true (by simp [WatchdogState.isFailed, hbelow]) (Or.inl rfl)
  | false =>
    have hstep := Canary.step_count t.commit_step rfl
    have hrun := Canary.exec_count t.run_during (t.unseen hwaits)
    rw [isFailed_congr (hrun.trans hstep)]
    simp

/-- A role that has failed, with worker 6 up and a walk that has asked it. -/
def failedRun (name : RoleName) : List CanaryAct :=
  (crashLoop ++ respawnAfter 6400).map Sum.inl ++
    [.inl (.inl (.head (some 6))), .inl (.inl .snapshot), .inl (.inr (.accept 6)), .inr .begin,
      .inr (.next .failed), .inr (.preStatus (some (workerAt name 6 0)))]

def onlyRole (name : RoleName) : RollingUpgradeRequest := ⟨none, true, none, some name.text⟩

def processorForks : List CanaryAct := failedRun .processor ++ [.inl (.inr (.fork 6 7))]

def processorCommitting : Canary :=
  (exec Canary.step (Canary.start (.cold .processor) (onlyRole .processor)) processorForks).get
    (by decide)

def processorCommitted : Canary :=
  (processorCommitting.step (.inl (.inr (.exit 6 (.exited upgradeCommitExitCode))))).get (by decide)

def processorDone : List CanaryAct :=
  [.inl (.inl (.reap .exited)), .inl (.inr (.accept 7)), .inr .poll,
    .inr (.status (some (workerAt .processor 7 1)))]

def processorRecovery : Recovery .processor where
  boot := .cold .processor
  req := onlyRole .processor
  before := processorForks
  during := processorDone
  committing := processorCommitting
  committed := processorCommitted
  last := (exec Canary.step processorCommitted processorDone).get (by decide)
  pid := 6
  commit := .exit 6 (.exited upgradeCommitExitCode)
  preGen := 0
  generation := 1
  run_before := (Option.some_get _).symm
  commits := Or.inr ⟨.exited upgradeCommitExitCode, by decide, rfl⟩
  commit_step := (Option.some_get _).symm
  run_during := (Option.some_get _).symm
  caused := by decide
  processed := fun _ => rfl
  done := by decide

theorem upgrade_recovers_processor :
    processorCommitting.role.watchdog.isFailed = true ∧
      processorRecovery.last.role.watchdog.isFailed = false :=
  ⟨by decide, (upgrade_recovers_iff processorRecovery).mpr (Or.inl (by decide))⟩

def tlsCommitting : Canary :=
  (exec Canary.step (Canary.start (.cold .tls) (onlyRole .tls)) (failedRun .tls)).get (by decide)

def tlsCommitted : Canary := (tlsCommitting.step (.inl (.inr (.reexec 6)))).get (by decide)

def tlsDone : List CanaryAct := [.inr .poll, .inr (.status (some (workerAt .tls 6 1)))]

/-- The failed TLS role is upgraded, reports its new generation, and is `Failed` still. -/
theorem upgrade_leaves_tls_failed :
    ∃ t : Recovery .tls, t.during = tlsDone ∧ t.preGen = 0 ∧ t.generation = 1 ∧
      t.last.role.runs 6 = true ∧ t.last.role.genOf 6 = some 1 ∧
      t.last.role.watchdog.healthState t.last.role.now = .failed := by
  let t : Recovery .tls :=
    { boot := .cold .tls, req := onlyRole .tls, before := failedRun .tls, during := tlsDone,
      committing := tlsCommitting, committed := tlsCommitted,
      last := (exec Canary.step tlsCommitted tlsDone).get (by decide), pid := 6,
      commit := .reexec 6, preGen := 0, generation := 1, run_before := (Option.some_get _).symm,
      commits := Or.inl rfl, commit_step := (Option.some_get _).symm,
      run_during := (Option.some_get _).symm, caused := by decide, processed := fun h => absurd h (by decide),
      done := by decide }
  exact ⟨t, rfl, rfl, rfl, by decide, by decide, by decide⟩

end FiveNinesEcho.Supervisor
