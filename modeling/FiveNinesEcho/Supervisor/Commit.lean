import FiveNinesEcho.Supervisor.Role

/-!
# Commit exits (`supervisor/worker.rs:170-257`)

When the current worker exits with the commit code, the loop has to wait for its successor before
it calls `spawn_fn` again, and the watchdog must not count the exit. Both hang on the status that
`child.wait()` returns: that of an owned child is the real one, `wait_adopted` knows only that the
process is gone and returns status 0.
-/

namespace FiveNinesEcho.Supervisor
open Lib Handoff

/-- Between the commit exit of a worker and any later call of `spawn_fn` there is a call of
`wait_for_successor`. -/
def Answered (log : List RoleEvent) : Prop :=
  ∀ pre child st mid post, log = pre ++ .exited child st :: (mid ++ .spawnFn :: post) →
    st.isCommit = true → ∃ c base, .waitForSuccessor c base ∈ mid

def owedAfter (b : Bool) : RoleEvent → Bool
  | .exited _ st => b || st.isCommit
  | .waitForSuccessor _ _ => false
  | _ => b

def owed (log : List RoleEvent) : Bool := log.foldl owedAfter false

theorem owed_append (log : List RoleEvent) (e : RoleEvent) :
    owed (log ++ [e]) = owedAfter (owed log) e := by
  simp [owed, List.foldl_append]

theorem foldl_owed (log : List RoleEvent) (h : log.foldl owedAfter true = false) :
    ∃ c base, .waitForSuccessor c base ∈ log := by
  induction log with
  | nil => simp at h
  | cons e log ih =>
    rw [List.foldl_cons] at h
    cases e with
    | waitForSuccessor c base => exact ⟨c, base, List.mem_cons_self ..⟩
    | exited child st =>
      obtain ⟨c, base, hmem⟩ := ih h
      exact ⟨c, base, List.mem_cons_of_mem _ hmem⟩
    | recorded child st before after =>
      obtain ⟨c, base, hmem⟩ := ih h
      exact ⟨c, base, List.mem_cons_of_mem _ hmem⟩
    | spawnFn =>
      obtain ⟨c, base, hmem⟩ := ih h
      exact ⟨c, base, List.mem_cons_of_mem _ hmem⟩

theorem answered_append (log : List RoleEvent) (e : RoleEvent) (h : Answered log)
    (he : e = .spawnFn → owed log = false) : Answered (log ++ [e]) := by
  intro pre child st mid post heq hst
  -- either the new event is the call of `spawn_fn`, or the call is older
  rcases List.eq_nil_or_concat post with rfl | ⟨post, x, rfl⟩
  · have hsplit : log ++ [e] = (pre ++ .exited child st :: mid) ++ [.spawnFn] := by simp [heq]
    obtain ⟨hlog, hlast⟩ := List.append_inj' hsplit rfl
    have hfalse := he (by simpa using hlast)
    rw [hlog, owed, List.foldl_append, List.foldl_cons] at hfalse
    simp only [owedAfter, hst, Bool.or_true] at hfalse
    exact foldl_owed mid hfalse
  · have hsplit : log ++ [e] =
        (pre ++ .exited child st :: (mid ++ .spawnFn :: post)) ++ [x] := by simp [heq]
    obtain ⟨hlog, -⟩ := List.append_inj' hsplit rfl
    exact h pre child st mid post hlog hst

/-! ### The invariant -/

theorem Role.waitStatus_kept (s : Role) (child : ChildHandle) (r : WaitAnswer)
    (st st' : ExitStatus) (hr : child.isOwned = true ∧ r ≠ .ioError)
    (h : s.waitStatus child r = some st) (hexit : s.exitOf child.pid = some st') : st = st' := by
  obtain ⟨hown, hne⟩ := hr
  cases r with
  | exited =>
    simp only [Role.waitStatus, hown, if_true, hexit, Option.some.injEq] at h
    exact h.symm
  | ioError => exact absurd rfl hne
  | polled w alive => simp [Role.waitStatus, hown] at h

def Role.Owing (s : Role) : Prop :=
  (∃ child st, s.pc.running = some child ∧ s.exitOf child.pid = some st ∧ st.isCommit = true) ∨
    (∃ child base st backoff, s.pc = .exited child base st backoff ∧ st.isCommit = true) ∨
    s.pc = .done

structure Role.CommitInv (s : Role) : Prop where
  answered : Answered s.log
  owing : owed s.log = true → s.Owing
  uncounted : ∀ child st before after, .recorded child (some st) before after ∈ s.log →
    st.isCommit = true → after = 0

def RoleAct.answer : RoleAct → Option WaitAnswer
  | .inl (.reap r) => some r
  | _ => none

/-- When the loop collects a commit, it is the commit of an owned child, and the wait gave its
status. -/
def Role.StatusKept (s : Role) (a : RoleAct) : Prop :=
  ∀ r ∈ a.answer, ∀ child ∈ s.pc.running, ∀ st ∈ s.exitOf child.pid,
    st.isCommit = true → child.isOwned = true ∧ r ≠ .ioError

instance (s : Role) (a : RoleAct) : Decidable (s.StatusKept a) :=
  inferInstanceAs (Decidable (∀ r ∈ a.answer, ∀ child ∈ s.pc.running, ∀ st ∈ s.exitOf child.pid,
    st.isCommit = true → child.isOwned = true ∧ r ≠ .ioError))

theorem Role.CommitInv.congr {s t : Role} (hs : s.CommitInv) (hlog : t.log = s.log)
    (hpc : t.pc = s.pc) (hexit : ∀ p, t.exitOf p = s.exitOf p) : t.CommitInv := by
  refine ⟨by rw [hlog]; exact hs.answered, fun ho => ?_, by rw [hlog]; exact hs.uncounted⟩
  rw [hlog] at ho
  rcases hs.owing ho with ⟨child, st, hrun, hst, hc⟩ | ⟨child, base, st, backoff, hp, hc⟩ | hp
  · exact Or.inl ⟨child, st, by rw [hpc, hrun], by rw [hexit, hst], hc⟩
  · exact Or.inr (Or.inl ⟨child, base, st, backoff, by rw [hpc, hp], hc⟩)
  · exact Or.inr (Or.inr (by rw [hpc, hp]))

theorem Role.CommitInv.not_owed {s : Role} (hs : s.CommitInv) (hrun : s.pc.running = none)
    (hpast : ∀ child base st backoff, s.pc = .exited child base st backoff → st.isCommit = false)
    (hdone : s.pc ≠ .done) : owed s.log = false := by
  by_contra ho
  rcases hs.owing (by simpa using ho) with ⟨child, st, h, -⟩ | ⟨child, base, st, backoff, h, hc⟩ | h
  · simp [hrun] at h
  · simp [hpast child base st backoff h] at hc
  · exact hdone h

theorem Role.CommitInv.quiet {s t : Role} (hs : s.CommitInv) (hlog : t.log = s.log)
    (ho : owed s.log = false) : t.CommitInv := by
  refine ⟨by rw [hlog]; exact hs.answered, fun h => ?_, by rw [hlog]; exact hs.uncounted⟩
  rw [hlog, ho] at h
  cases h

theorem Role.CommitInv.bereft {s : Role} (hs : s.CommitInv) (h : s.pc.bereft = true) :
    owed s.log = false := by
  refine hs.not_owed ?_ ?_ ?_
  · cases hpc : s.pc <;> simp_all [RolePc.bereft, RolePc.running]
  · intro child base st backoff hpc
    simp [hpc, RolePc.bereft] at h
  · intro hpc
    simp [hpc, RolePc.bereft] at h

theorem Role.supMove_commitInv {s t : Role} {a : SupAct} (hs : s.CommitInv)
    (hg : s.StatusKept (.inl a)) (hm : SupMove s a t) : t.CommitInv := by
  cases hm with
  | stop => exact ⟨hs.answered, fun _ => Or.inr (Or.inr rfl), hs.uncounted⟩
  | take r child hpc =>
    refine ⟨hs.answered, ?_, hs.uncounted⟩
    intro ho
    rcases hs.owing ho with ⟨c, st, hrun, hst, hc⟩ | ⟨c, base, st, backoff, hp, -⟩ | hp
    · simp only [hpc, RolePc.running] at hrun
      exact Or.inl ⟨c, st, hrun, hst, hc⟩
    · simp [hpc] at hp
    · simp [hpc] at hp
  | spawn r hpc hnew =>
    have ho : owed s.log = false := hs.not_owed (by simp [hpc, RolePc.running])
      (by simp [hpc]) (by simp [hpc])
    refine ⟨?_, ?_, ?_⟩
    · rw [s.spawn_log]
      exact answered_append s.log _ hs.answered fun _ => ho
    · intro h
      rw [s.spawn_log, owed_append] at h
      simp [owedAfter, ho] at h
    · intro child st before after hmem
      rw [s.spawn_log] at hmem
      exact hs.uncounted child st before after (by simpa using hmem)
  | snapshot child hpc =>
    refine ⟨hs.answered, ?_, hs.uncounted⟩
    intro ho
    rcases hs.owing ho with ⟨c, st, hrun, hst, hc⟩ | ⟨c, base, st, backoff, hp, -⟩ | hp
    · simp only [hpc, RolePc.running] at hrun
      exact Or.inl ⟨c, st, hrun, hst, hc⟩
    · simp [hpc] at hp
    · simp [hpc] at hp
  | reap child base r st hpc hst =>
    have hown : ∀ st', s.exitOf child.pid = some st' → st'.isCommit = true →
        child.isOwned = true ∧ r ≠ .ioError := fun st' hst' hc =>
      hg r rfl child (by simp [hpc, RolePc.running]) st' hst' hc
    refine ⟨answered_append s.log _ hs.answered (by simp), ?_, ?_⟩
    · intro ho
      rw [owed_append] at ho
      rcases hs.owing ho with ⟨c, st', hrun, hst', hc⟩ | ⟨c, base, st', backoff, hp, -⟩ | hp
      · simp only [hpc, RolePc.running, Option.some.injEq] at hrun
        subst hrun
        have hsame := s.waitStatus_kept child r st st' (hown st' hst' hc) hst hst'
        exact Or.inr (Or.inl ⟨child, base, st, _, rfl, by rw [hsame, hc]⟩)
      · simp [hpc] at hp
      · simp [hpc] at hp
    · intro c st' before after hmem hc
      rcases List.mem_append.mp hmem with hmem | hmem
      · exact hs.uncounted c st' before after hmem hc
      · simp only [List.mem_singleton, RoleEvent.recorded.injEq] at hmem
        obtain ⟨rfl, hst', -, rfl⟩ := hmem
        have hsame := s.waitStatus_kept c r st st' (hown st' hst'.symm hc) hst hst'.symm
        exact recordExit_commit s.watchdog st s.now (by rw [hsame, hc])
  | commit child base st backoff hpc hst =>
    refine ⟨answered_append s.log _ hs.answered (by simp), ?_, ?_⟩
    · intro ho
      simp [owed_append, owedAfter] at ho
    · intro c st' b a hmem
      exact hs.uncounted c st' b a (by simpa using hmem)
  | crash child base st backoff hpc hst =>
    refine hs.quiet rfl (hs.not_owed (by simp [hpc, RolePc.running]) ?_ (by simp [hpc]))
    intro c b st' k hp
    simp only [hpc, RolePc.exited.injEq] at hp
    obtain ⟨-, -, rfl, -⟩ := hp
    exact hst
  | again child base deadline wake wake' backoff hpc =>
    exact hs.quiet rfl (hs.bereft (by simp [hpc, RolePc.bereft]))
  | settle a pc pid w hfrom hto => exact hs.quiet rfl (hs.bereft hfrom)

theorem Role.exit_commitInv {s t : Role} {p : Pid} {st : ExitStatus} (hs : s.CommitInv)
    (h : s.envStep (.exit p st) = some t) : t.CommitInv := by
  obtain ⟨gen, -, -, rfl⟩ := Role.exit_cases h
  have hold : s.Owing → (s.exitProc p gen st).Owing := by
    rintro (⟨child, st', hrun, hst', hc⟩ | ⟨child, base, st', backoff, hpc, hc⟩ | hpc)
    · exact Or.inl ⟨child, st', hrun, Role.envStep_exited h _ _ hst', hc⟩
    · exact Or.inr (Or.inl ⟨child, base, st', backoff, hpc, hc⟩)
    · exact Or.inr (Or.inr hpc)
  cases hrun : s.pc.running.filter (fun h => h.pid = p) with
  | none =>
    have hlog : (s.exitProc p gen st).log = s.log := by simp [Role.exitProc, hrun]
    refine ⟨by rw [hlog]; exact hs.answered, fun ho => ?_, by rw [hlog]; exact hs.uncounted⟩
    rw [hlog] at ho
    exact hold (hs.owing ho)
  | some child =>
    have hlog : (s.exitProc p gen st).log = s.log ++ [.exited child st] := by
      simp [Role.exitProc, hrun]
    obtain ⟨hpc, hpid⟩ := Option.filter_eq_some_iff.mp hrun
    simp only [decide_eq_true_eq] at hpid
    refine ⟨?_, ?_, ?_⟩
    · rw [hlog]
      exact answered_append s.log _ hs.answered (by simp)
    · intro ho
      rw [hlog, owed_append] at ho
      simp only [owedAfter, Bool.or_eq_true] at ho
      rcases ho with ho | hc
      · exact hold (hs.owing ho)
      · exact Or.inl ⟨child, st, hpc, by rw [s.exitOf_exitProc p gen st, if_pos hpid], hc⟩
    · intro c st' before after hmem
      rw [hlog] at hmem
      exact hs.uncounted c st' before after (by simpa using hmem)

theorem Role.envStep_commitInv {s t : Role} {a : EnvAct} (hs : s.CommitInv)
    (h : s.envStep a = some t) : t.CommitInv := by
  cases Role.envStep_cases h with
  | fork p q gen hp hplace hq =>
    exact hs.congr rfl rfl fun r => s.exitOf_addProc q _ r (by simp [Role.exitOf, hq])
  | reexec p gen hp hplace =>
    exact hs.congr rfl rfl fun r => s.exitOf_addProc p _ r (by simp [Role.exitOf, hp])
  | exit p gen st hp hst => exact Role.exit_commitInv hs h
  | shutdown | elapse | link => exact hs.congr rfl rfl fun _ => rfl

theorem Role.start_commitInv {name : RoleName} (b : Boot name) : (Role.start b).CommitInv := by
  refine ⟨?_, ?_, by simp [Role.start]⟩
  · intro pre child st mid post h
    simp [Role.start] at h
  · intro h
    simp [Role.start, owed] at h

theorem Role.step_commitInv (s : Role) (a : RoleAct) (t : Role) (hs : s.CommitInv)
    (hg : s.StatusKept a) (h : s.step a = some t) : t.CommitInv := by
  cases a with
  | inl a => exact Role.supMove_commitInv hs hg (Role.supStep_cases h)
  | inr a => exact Role.envStep_commitInv hs h

/-! ### Which exits are recognised -/

/-- A commit collected by `child.wait()` leads into `wait_for_successor` exactly when the child is
owned and the wait did not fail. -/
theorem Role.recognised_iff (s : Role) (child : ChildHandle) (base : ℕ) (st w : ExitStatus)
    (r : WaitAnswer) (hpc : s.pc = .waiting child base) (hst : s.exitOf child.pid = some st)
    (hc : st.isCommit = true) (hrun : s.shutdown = false) (hw : s.waitStatus child r = some w) :
    ∃ t, exec Role.step s [.inl (.reap r), .inl .proceed] = some t ∧
      ((∃ deadline wake backoff, t.pc = .awaiting child base deadline wake backoff) ↔
        child.isOwned = true ∧ r ≠ .ioError) := by
  by_cases hkept : child.isOwned = true ∧ r ≠ .ioError
  · have hsame := s.waitStatus_kept child r w st hkept hw hst
    have hcode : w.code = some upgradeCommitExitCode := by
      simpa [hsame, ExitStatus.isCommit] using hc
    refine ⟨_, by simp [exec, Role.step, Role.supStep, hpc, hw, hrun, hcode]; rfl, ?_⟩
    exact iff_of_true ⟨_, _, _, rfl⟩ hkept
  · have hsmall : w.raw < 256 := by
      refine s.waitStatus_small child r w ?_ hw
      by_contra hno
      push Not at hno
      exact hkept ⟨by simpa using hno.1, hno.2⟩
    have hcode : ¬ w.code = some upgradeCommitExitCode := by
      simpa [ExitStatus.isCommit] using ExitStatus.isCommit_small w hsmall
    refine ⟨_, by simp [exec, Role.step, Role.supStep, hpc, hw, hrun, hcode]; rfl, ?_⟩
    exact iff_of_false (by simp) hkept

/-- In every run in which the loop collects commits from owned children only and no such wait
fails, every commit exit of the current worker is followed by `wait_for_successor` before any call
of `spawn_fn`, and the watchdog counts none of them. A commit collected in any other way is not
recognised. -/
theorem commit_exit_recognised {name : RoleName} (b : Boot name) (as : List RoleAct) (s : Role)
    (hrun : exec Role.step (Role.start b) as = some s)
    (hkept : Along Role.step Role.StatusKept (Role.start b) as) :
    (Answered s.log ∧ ∀ child st before after, .recorded child (some st) before after ∈ s.log →
      st.isCommit = true → after = 0) ∧
    ∀ (t : Role) child base st w r, t.pc = .waiting child base → t.exitOf child.pid = some st →
      st.isCommit = true → t.shutdown = false → t.waitStatus child r = some w →
      ∃ u, exec Role.step t [.inl (.reap r), .inl .proceed] = some u ∧
        ((∃ deadline wake backoff, u.pc = .awaiting child base deadline wake backoff) ↔
          child.isOwned = true ∧ r ≠ .ioError) := by
  have hinv : s.CommitInv :=
    exec_along Role.step_commitInv _ s as (Role.start_commitInv b) hkept hrun
  exact ⟨⟨hinv.answered, hinv.uncounted⟩, Role.recognised_iff⟩

def oneWorker (gen : ℕ) : Boot .processor where
  procs p := if p = 7 then some ⟨gen, none⟩ else none
  adoptedPid := some 7
  adoptedGen := gen
  now := 0
  noCommit := by simp [RoleName.execsInPlace]

def ownedCommitRun : List RoleAct :=
  [.inl (.head (some 7)), .inl .snapshot] ++ upgrading 1 0 7 8 ++ [.inl (.reap .exited),
    .inl .proceed, .inr (.accept 8),
    .inr (.report ⟨2, 8, 1⟩ ⟨"processor", 8, 1, 0, 0, none, none⟩), .inl .pollSuccessor,
    .inl .adopt, .inr (.disconnect ⟨2, 8, 1⟩), .inl .pollMonitor, .inr (.elapse 3000), .inl .pollMonitor,
    .inl (.head (some 9))]

theorem commit_exit_recognised_owned :
    ∃ s, exec Role.step (Role.start (.cold .processor)) ownedCommitRun = some s ∧
      Answered s.log ∧ s.log = [.spawnFn, .exited (.owned 7) (.exited 23),
        .recorded (.owned 7) (some (.exited 23)) 0 0, .waitForSuccessor (.owned 7) 0, .spawnFn] := by
  have hend : (exec Role.step (Role.start (.cold .processor)) ownedCommitRun).map (·.log) =
      some [.spawnFn, .exited (.owned 7) (.exited 23),
        .recorded (.owned 7) (some (.exited 23)) 0 0, .waitForSuccessor (.owned 7) 0,
        .spawnFn] := by decide
  obtain ⟨s, hs, hlog⟩ := Option.map_eq_some_iff.mp hend
  have hkept : Along Role.step Role.StatusKept (Role.start (.cold .processor)) ownedCommitRun := by
    decide
  exact ⟨s, hs, (commit_exit_recognised (.cold .processor) ownedCommitRun s hs hkept).1.1, hlog⟩

/-- A worker taken over from the previous supervisor commits an upgrade: the watchdog counts a fast
exit and `spawn_fn` is called with no wait for the successor, which serves meanwhile. -/
def adoptedCommitRun : List RoleAct :=
  [.inl (.head none), .inl .snapshot] ++ upgrading 1 3 7 8 ++ [.inr (.accept 8),
    .inl (.reap (.polled .echild false)), .inl .proceed, .inr (.elapse 400), .inl .wake,
    .inl (.head (some 9))]

theorem adopted_commit_not_recognised :
    ∃ s, exec Role.step (Role.start (oneWorker 3)) adoptedCommitRun = some s ∧
      s.log = [.exited (.adopted 7) (.exited 23),
        .recorded (.adopted 7) (some (.exited 23)) 0 1, .spawnFn] ∧ ¬ Answered s.log := by
  have hend : (exec Role.step (Role.start (oneWorker 3)) adoptedCommitRun).map (·.log) =
      some [.exited (.adopted 7) (.exited 23), .recorded (.adopted 7) (some (.exited 23)) 0 1,
        .spawnFn] := by decide
  obtain ⟨s, hs, hlog⟩ := Option.map_eq_some_iff.mp hend
  refine ⟨s, hs, hlog, ?_⟩
  intro hans
  obtain ⟨c, base, hmem⟩ := hans [] (.adopted 7) (.exited 23)
    [.recorded (.adopted 7) (some (.exited 23)) 0 1] [] (by simp [hlog]) (by decide)
  simp at hmem

end FiveNinesEcho.Supervisor
