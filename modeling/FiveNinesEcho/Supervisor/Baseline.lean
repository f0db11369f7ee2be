import FiveNinesEcho.Supervisor.Role

/-!
# The successor baseline (`supervisor/worker.rs:196-206`)

`pre_upgrade_gen` is read off the shared link right after a worker is started or taken over, and
falls back on the generation the loop knows. It is meant to be that worker's own generation. The
link, however, keeps the last report of whichever process made it, until that process's connection
ends as the newest one: a successor that reports after `wait_for_successor` has given up on it, for
one, has its generation taken for that of the fresh worker started beside it.
-/

namespace FiveNinesEcho.Supervisor
open Lib Handoff

/-- The link holds nothing of a process of another generation when the baseline is read, and a
worker taken over at start-up runs at the generation passed on for it if the link holds nothing. -/
def Role.Unstale (s : Role) (a : RoleAct) : Prop :=
  a = .inl .snapshot → ∀ child ∈ s.pc.running,
    (∀ q ∈ s.link.lastPid, s.genOf q = s.genOf child.pid) ∧
    (s.link.lastPid = none → child.isOwned = false →
      s.genOf child.pid = some s.currentGeneration)

instance (s : Role) (a : RoleAct) : Decidable (s.Unstale a) :=
  inferInstanceAs (Decidable (a = .inl .snapshot → ∀ child ∈ s.pc.running,
    (∀ q ∈ s.link.lastPid, s.genOf q = s.genOf child.pid) ∧
    (s.link.lastPid = none → child.isOwned = false →
      s.genOf child.pid = some s.currentGeneration)))

/-! ### What the link says -/

structure Role.LinkInv (s : Role) : Prop where
  silent : s.link.lastPid = none → s.link.lastGeneration = none
  conns : s.name.execsInPlace = false → ∀ c ∈ s.conns, s.genOf c.pid = some c.gen
  told : s.name.execsInPlace = false → ∀ q, s.link.lastPid = some q →
    ∃ g, s.genOf q = some g ∧ s.link.lastGeneration = some g

theorem Role.LinkInv.mono {s t : Role} (hs : s.LinkInv) (hname : t.name = s.name)
    (hpid : t.link.lastPid = s.link.lastPid)
    (hgen : t.link.lastGeneration = s.link.lastGeneration) (hconns : t.conns ⊆ s.conns)
    (hstable : s.name.execsInPlace = false → ∀ p g, s.genOf p = some g → t.genOf p = some g) :
    t.LinkInv := by
  refine ⟨by rw [hpid, hgen]; exact hs.silent, fun hplace c hc => ?_, fun hplace q hq => ?_⟩
  · rw [hname] at hplace
    exact hstable hplace _ _ (hs.conns hplace c (hconns hc))
  · rw [hname] at hplace
    rw [hpid] at hq
    obtain ⟨g, hg, hl⟩ := hs.told hplace q hq
    exact ⟨g, hstable hplace q g hg, by rw [hgen, hl]⟩

theorem Role.supMove_linkInv {s t : Role} {a : SupAct} (hs : s.LinkInv) (hm : SupMove s a t) :
    t.LinkInv := by
  obtain ⟨hname, hlink, hconns, -, hstable⟩ := hm.frame
  exact hs.mono hname (by rw [hlink]) (by rw [hlink]) (by rw [hconns]; exact List.Subset.refl _)
    fun _ => hstable

theorem Role.envStep_linkInv {s t : Role} {a : EnvAct} (hs : s.LinkInv)
    (h : s.envStep a = some t) : t.LinkInv := by
  obtain ⟨hname, -, -, hstable, -⟩ := Role.envStep_frame h
  have hkeep : t.link.lastPid = s.link.lastPid → t.link.lastGeneration = s.link.lastGeneration →
      t.conns ⊆ s.conns → t.LinkInv := fun h₁ h₂ h₃ => hs.mono hname h₁ h₂ h₃ hstable
  cases a with
  | fork p q =>
    obtain ⟨gen, -, -, -, rfl⟩ := Role.fork_cases h
    exact hkeep rfl rfl (List.Subset.refl _)
  | reexec p =>
    obtain ⟨gen, -, -, rfl⟩ := Role.reexec_cases h
    exact hkeep rfl rfl (List.Subset.refl _)
  | exit p st =>
    obtain ⟨gen, -, -, rfl⟩ := Role.exit_cases h
    exact hkeep rfl rfl (List.Subset.refl _)
  | accept p =>
    obtain ⟨pr, hp, rfl⟩ := Role.accept_cases h
    refine ⟨hs.silent, ?_, hs.told⟩
    intro hplace c hc
    rcases List.mem_append.mp hc with hc | hc
    · exact hs.conns hplace c hc
    · rw [List.mem_singleton.mp hc]
      simp [Role.genOf, hp]
  | report c st =>
    obtain ⟨⟨hc, hpid, hgen⟩, rfl⟩ := Role.report_cases h
    refine ⟨by simp [WorkerLink.statusReport], hs.conns, ?_⟩
    intro hplace q hq
    have hq : st.pid = q := by simpa [WorkerLink.statusReport] using hq
    refine ⟨c.gen, ?_, by simp [WorkerLink.statusReport, hgen]⟩
    rw [← hq, hpid]
    exact hs.conns hplace c hc
  | disconnect c =>
    obtain ⟨-, rfl⟩ := Role.disconnect_cases h
    by_cases he : s.link.connEpoch = c.epoch
    · refine ⟨?_, fun hplace d hd => hs.conns hplace d (List.mem_of_mem_erase hd), ?_⟩
      · simp [WorkerLink.disconnect, he]
      · simp [WorkerLink.disconnect, he]
    · have hsame : s.link.disconnect c.epoch = s.link := by simp [WorkerLink.disconnect, he]
      exact hkeep (by rw [hsame]) (by rw [hsame]) (List.erase_subset ..)
  | query i =>
    obtain ⟨-, rfl⟩ := Role.query_cases h
    exact hkeep rfl rfl (List.Subset.refl _)
  | shutdown | elapse d | giveUp | takeWriter =>
    cases h
    exact hkeep rfl rfl (List.Subset.refl _)

/-! ### What the loop knows of its worker -/

structure Role.WorkerInv (s : Role) : Prop where
  taken : ∀ child, s.pc = .head (some child) → child.isOwned = false
  spawned : s.name.execsInPlace = false → ∀ child, s.pc = .snapshot child →
    child.isOwned = true → s.genOf child.pid = some s.currentGeneration

theorem Role.supMove_workerInv {s t : Role} {a : SupAct} (hs : s.WorkerInv) (hm : SupMove s a t) :
    t.WorkerInv := by
  cases hm with
  | take r child hpc =>
    refine ⟨by simp, ?_⟩
    intro _ c hc hown
    cases hc
    simp [hs.taken child hpc] at hown
  | spawn r hpc hnew =>
    cases r with
    | none => exact ⟨by simp [Role.spawn], by simp [Role.spawn]⟩
    | some p =>
      refine ⟨by simp [Role.spawn], ?_⟩
      intro _ c hc _
      have hcp : c = .owned p := by simpa [Role.spawn] using hc.symm
      subst hcp
      exact (s.genOf_addProc p 0 p).trans (if_pos rfl)
  | settle a pc pid w hfrom hto =>
    constructor
    · rintro child rfl
      simp [RolePc.between] at hto
    · rintro - child rfl
      simp [RolePc.between] at hto
  | _ => exact ⟨by simp, by simp⟩

theorem Role.envStep_workerInv {s t : Role} {a : EnvAct} (hs : s.WorkerInv)
    (h : s.envStep a = some t) : t.WorkerInv := by
  obtain ⟨hname, hpc, hcur, hstable, -⟩ := Role.envStep_frame h
  refine ⟨by rw [hpc]; exact hs.taken, fun hplace child hc hown => ?_⟩
  rw [hname] at hplace
  rw [hpc] at hc
  rw [hcur]
  exact hstable hplace _ _ (hs.spawned hplace child hc hown)

theorem Role.snapshot_own_iff (s : Role) (hl : s.LinkInv) (hw : s.WorkerInv)
    (hplace : s.name.execsInPlace = false) (child : ChildHandle) (hpc : s.pc = .snapshot child) :
    s.genOf child.pid = some (s.link.lastGeneration.getD s.currentGeneration) ↔
      s.Unstale (.inl .snapshot) := by
  cases hlast : s.link.lastPid with
  | none =>
    have hun : s.Unstale (.inl .snapshot) ↔
        (child.isOwned = false → s.genOf child.pid = some s.currentGeneration) := by
      simp [Role.Unstale, hpc, hlast, RolePc.running]
    rw [hun, hl.silent hlast, Option.getD_none]
    constructor
    · exact fun h _ => h
    · intro h
      cases hown : child.isOwned with
      | true => exact hw.spawned hplace child hpc hown
      | false => exact h hown
  | some q =>
    have hun : s.Unstale (.inl .snapshot) ↔ s.genOf q = s.genOf child.pid := by
      simp [Role.Unstale, hpc, hlast, RolePc.running]
    obtain ⟨g, hq, hg⟩ := hl.told hplace q hlast
    rw [hun, hg, Option.getD_some, hq]
    exact eq_comm

/-! ### The baseline of every commit -/

/-- The baseline carried to `wait_for_successor`, and every one passed to it, is the worker's own
generation; a role that upgrades in place never gets there. -/
structure Role.BaseInv (s : Role) : Prop where
  link : s.LinkInv
  worker : s.WorkerInv
  noCommit : s.name.execsInPlace = true → ∀ p st, s.exitOf p = some st → st.isCommit = false
  waited : s.name.execsInPlace = false → ∀ child base, s.pc = .waiting child base →
    s.genOf child.pid = some base
  collected : ∀ child base st backoff, s.pc = .exited child base st backoff →
    st.isCommit = true → s.name.execsInPlace = false ∧ s.genOf child.pid = some base
  entered : ∀ child base deadline wake backoff,
    s.pc = .awaiting child base deadline wake backoff → .waitForSuccessor child base ∈ s.log
  passed : ∀ child base, .waitForSuccessor child base ∈ s.log →
    s.name.execsInPlace = false ∧ s.genOf child.pid = some base

theorem Role.start_baseInv {name : RoleName} (b : Boot name) : (Role.start b).BaseInv := by
  refine ⟨⟨fun _ => rfl, by simp [Role.start], by simp [Role.start, WorkerLink.default]⟩,
    ⟨fun child hc => ?_, by simp [Role.start]⟩, ?_, by simp [Role.start],
    by simp [Role.start], by simp [Role.start], by simp [Role.start]⟩
  · have hnext : b.next = some child := by simpa [Role.start] using hc
    simp only [Boot.next, Option.bind_eq_some_iff, Option.ite_none_right_eq_some,
      Option.some.injEq] at hnext
    obtain ⟨p, -, -, rfl⟩ := hnext
    rfl
  · intro hplace p st hst
    obtain ⟨pr, hp, hpr⟩ := Option.bind_eq_some_iff.mp hst
    exact b.noCommit hplace p pr st hp hpr

theorem Role.BaseInv.move {s t : Role} {a : SupAct} (hs : s.BaseInv) (hm : SupMove s a t)
    (hwaited : s.name.execsInPlace = false → ∀ child base, t.pc = .waiting child base →
      s.genOf child.pid = some base)
    (hcollected : ∀ child base st backoff, t.pc = .exited child base st backoff →
      st.isCommit = true → s.name.execsInPlace = false ∧ s.genOf child.pid = some base)
    (hentered : ∀ child base deadline wake backoff,
      t.pc = .awaiting child base deadline wake backoff → .waitForSuccessor child base ∈ t.log)
    (hpassed : ∀ child base, .waitForSuccessor child base ∈ t.log →
      s.name.execsInPlace = false ∧ s.genOf child.pid = some base) : t.BaseInv := by
  obtain ⟨hname, -, -, hexit, hstable⟩ := hm.frame
  refine ⟨Role.supMove_linkInv hs.link hm, Role.supMove_workerInv hs.worker hm, ?_, ?_, ?_,
    hentered, ?_⟩
  · intro hplace p st hst
    rw [hname] at hplace
    rw [hexit] at hst
    exact hs.noCommit hplace p st hst
  · intro hplace child base hpc
    rw [hname] at hplace
    exact hstable _ _ (hwaited hplace child base hpc)
  · intro child base st backoff hpc hc
    obtain ⟨hplace, hgen⟩ := hcollected child base st backoff hpc hc
    exact ⟨by rw [hname, hplace], hstable _ _ hgen⟩
  · intro child base hmem
    obtain ⟨hplace, hgen⟩ := hpassed child base hmem
    exact ⟨by rw [hname, hplace], hstable _ _ hgen⟩

theorem Role.waitStatus_commit (s : Role) (child : ChildHandle) (r : WaitAnswer) (st : ExitStatus)
    (h : s.waitStatus child r = some st) (hc : st.isCommit = true) :
    s.exitOf child.pid = some st := by
  by_cases hr : child.isOwned = false ∨ r = .ioError
  · have hsmall := ExitStatus.isCommit_small st (s.waitStatus_small child r st hr h)
    simp [hsmall] at hc
  · push Not at hr
    obtain ⟨hown, hne⟩ := hr
    cases r with
    | exited => simpa [Role.waitStatus, hown] using h
    | ioError => exact absurd rfl hne
    | polled w alive => simp [Role.waitStatus, hown] at h

theorem Role.supMove_baseInv {s t : Role} {a : SupAct} (hs : s.BaseInv)
    (hg : s.Unstale (.inl a)) (hm : SupMove s a t) : t.BaseInv := by
  have hmove := hs.move hm
  cases hm with
  | snapshot child hpc =>
    refine hmove (fun hplace c base hc => ?_) (by simp) (by simp) hs.passed
    simp only [RolePc.waiting.injEq] at hc
    obtain ⟨rfl, rfl⟩ := hc
    exact (s.snapshot_own_iff hs.link hs.worker hplace child hpc).mpr hg
  | reap child base r st hpc hst =>
    refine hmove (by simp) (fun c b st' k hc hcommit => ?_) (by simp) fun c b hmem => ?_
    · simp only [RolePc.exited.injEq] at hc
      obtain ⟨rfl, rfl, rfl, -⟩ := hc
      have hexit := s.waitStatus_commit child r st hst hcommit
      cases hplace : s.name.execsInPlace with
      | true => simp [hs.noCommit hplace _ st hexit] at hcommit
      | false => exact ⟨rfl, hs.waited hplace child base hpc⟩
    · exact hs.passed c b (by simpa using hmem)
  | commit child base st backoff hpc hst =>
    refine hmove (by simp) (by simp) (fun c b d w k hc => ?_) fun c b hmem => ?_
    · simp only [RolePc.awaiting.injEq] at hc
      simp [hc.1, hc.2.1]
    · rcases List.mem_append.mp hmem with hmem | hmem
      · exact hs.passed c b hmem
      · simp only [List.mem_singleton, RoleEvent.waitForSuccessor.injEq] at hmem
        obtain ⟨rfl, rfl⟩ := hmem
        exact hs.collected c b st backoff hpc hst
  | again child base deadline wake wake' backoff hpc =>
    refine hmove (by simp) (by simp) (fun c b d w k hc => ?_) hs.passed
    simp only [RolePc.awaiting.injEq] at hc
    rw [← hc.1, ← hc.2.1]
    exact hs.entered child base deadline wake backoff hpc
  | spawn r hpc hnew =>
    have hpassed : ∀ c b, .waitForSuccessor c b ∈ (s.spawn r).log →
        s.name.execsInPlace = false ∧ s.genOf c.pid = some b := by
      intro c b hmem
      rw [s.spawn_log] at hmem
      exact hs.passed c b (by simpa using hmem)
    cases r with
    | none | some p =>
      exact hmove (by simp [Role.spawn]) (by simp [Role.spawn]) (by simp [Role.spawn]) hpassed
  | settle a pc pid w hfrom hto =>
    refine hmove ?_ ?_ ?_ hs.passed
    · rintro - child base rfl
      simp [RolePc.between] at hto
    · rintro child base st backoff rfl
      simp [RolePc.between] at hto
    · rintro child base deadline wake backoff rfl
      simp [RolePc.between] at hto
  | _ => exact hmove (by simp) (by simp) (by simp) hs.passed

theorem Role.envStep_baseInv {s t : Role} {a : EnvAct} (hs : s.BaseInv)
    (h : s.envStep a = some t) : t.BaseInv := by
  obtain ⟨hname, hpc, -, hstable, hlog⟩ := Role.envStep_frame h
  refine ⟨Role.envStep_linkInv hs.link h, Role.envStep_workerInv hs.worker h, ?_, ?_, ?_, ?_, ?_⟩
  · intro hplace p st hst
    rw [hname] at hplace
    rcases Role.envStep_exitOf h p st hst with hold | hnew
    · exact hs.noCommit hplace p st hold
    · exact hnew hplace
  · intro hplace child base hc
    rw [hname] at hplace
    rw [hpc] at hc
    exact hstable hplace _ _ (hs.waited hplace child base hc)
  · intro child base st backoff hc hcommit
    rw [hpc] at hc
    obtain ⟨hplace, hgen⟩ := hs.collected child base st backoff hc hcommit
    exact ⟨by rw [hname, hplace], hstable hplace _ _ hgen⟩
  · intro child base deadline wake backoff hc
    rw [hpc] at hc
    exact (hlog child base).mpr (hs.entered child base deadline wake backoff hc)
  · intro child base hmem
    obtain ⟨hplace, hgen⟩ := hs.passed child base ((hlog child base).mp hmem)
    exact ⟨by rw [hname, hplace], hstable hplace _ _ hgen⟩

theorem Role.step_baseInv (s : Role) (a : RoleAct) (t : Role) (hs : s.BaseInv)
    (hg : s.Unstale a) (h : s.step a = some t) : t.BaseInv := by
  cases a with
  | inl a => exact Role.supMove_baseInv hs hg (Role.supStep_cases h)
  | inr a => exact Role.envStep_baseInv hs h

theorem Role.step_linkInv (s : Role) (a : RoleAct) (t : Role) (hs : s.LinkInv ∧ s.WorkerInv)
    (h : s.step a = some t) : t.LinkInv ∧ t.WorkerInv := by
  cases a with
  | inl a =>
    have hm := Role.supStep_cases h
    exact ⟨Role.supMove_linkInv hs.1 hm, Role.supMove_workerInv hs.2 hm⟩
  | inr a => exact ⟨Role.envStep_linkInv hs.1 h, Role.envStep_workerInv hs.2 h⟩

variable {ι : Type}

theorem waitForSuccessorPoll_own (l : WorkerLink ι) (gen deadline now : ℕ) :
    (l.lastGeneration = some (gen + 1) →
      waitForSuccessorPoll l gen deadline now = some (.adopted (gen + 1))) ∧
    (l.lastGeneration = some gen →
      ∀ g, waitForSuccessorPoll l gen deadline now ≠ some (.adopted g)) := by
  refine ⟨fun h => by simp [waitForSuccessorPoll, h], ?_⟩
  intro h g
  simp only [waitForSuccessorPoll, h, Nat.lt_irrefl, if_false]
  split <;> simp

/-- In every run in which the link holds nothing stale whenever a baseline is read, every baseline
passed to `wait_for_successor` is the generation of the worker that committed, so its successor is
accepted and what it reported itself is not. In every run, that is what it takes for a baseline to
be right. -/
theorem baseline_own_generation {name : RoleName} (b : Boot name) (as : List RoleAct) (s : Role)
    (hrun : exec Role.step (Role.start b) as = some s) :
    (Along Role.step Role.Unstale (Role.start b) as →
      (∀ child base, .waitForSuccessor child base ∈ s.log → s.genOf child.pid = some base) ∧
      ∀ child base deadline wake backoff, s.pc = .awaiting child base deadline wake backoff →
        ∃ gen, s.genOf child.pid = some gen ∧
          (s.link.lastGeneration = some (gen + 1) →
            waitForSuccessorPoll s.link base deadline s.now = some (.adopted (gen + 1))) ∧
          (s.link.lastGeneration = some gen →
            ∀ g, waitForSuccessorPoll s.link base deadline s.now ≠ some (.adopted g))) ∧
    ∀ child t, name.execsInPlace = false → s.pc = .snapshot child →
      s.step (.inl .snapshot) = some t → ∃ base, t.pc = .waiting child base ∧
        (s.genOf child.pid = some base ↔ s.Unstale (.inl .snapshot)) := by
  constructor
  · intro hun
    have hinv : s.BaseInv := exec_along Role.step_baseInv _ s as (Role.start_baseInv b) hun hrun
    refine ⟨fun child base hmem => (hinv.passed child base hmem).2, ?_⟩
    intro child base deadline wake backoff hpc
    have hmem := hinv.entered child base deadline wake backoff hpc
    exact ⟨base, (hinv.passed child base hmem).2, waitForSuccessorPoll_own ..⟩
  · intro child t hplace hpc hstep
    have hstart := Role.start_baseInv b
    have hinv : s.LinkInv ∧ s.WorkerInv :=
      exec_invariant Role.step_linkInv _ s as ⟨hstart.link, hstart.worker⟩ hrun
    have hname : s.name = name := exec_invariant (I := fun s : Role => s.name = name)
      (fun s a t hs h => (Role.step_name h).trans hs) _ s as rfl hrun
    simp only [Role.step, Role.supStep, hpc, Option.some.injEq] at hstep
    subst hstep
    exact ⟨_, rfl, s.snapshot_own_iff hinv.1 hinv.2 (by rw [hname, hplace]) child hpc⟩

def firstCommitRun : List RoleAct :=
  [.inl (.head (some 7)), .inl .snapshot] ++ upgrading 1 0 7 8 ++
    [.inl (.reap .exited), .inl .proceed]

theorem baseline_own_generation_first :
    ∃ s, exec Role.step (Role.start (.cold .processor)) firstCommitRun = some s ∧
      .waitForSuccessor (.owned 7) 0 ∈ s.log ∧ s.genOf 7 = some 0 := by
  have hend : (exec Role.step (Role.start (.cold .processor)) firstCommitRun).map (·.log) =
      some [.spawnFn, .exited (.owned 7) (.exited 23),
        .recorded (.owned 7) (some (.exited 23)) 0 0, .waitForSuccessor (.owned 7) 0] := by decide
  obtain ⟨s, hs, hlog⟩ := Option.map_eq_some_iff.mp hend
  have hun : Along Role.step Role.Unstale (Role.start (.cold .processor)) firstCommitRun := by
    decide
  have hmem : .waitForSuccessor (.owned 7) 0 ∈ s.log := by simp [hlog]
  exact ⟨s, hs, hmem,
    ((baseline_own_generation (.cold .processor) firstCommitRun s hs).1 hun).1 _ _ hmem⟩

/-- The successor of the first worker connects in time but is asked for its status only after the
window; the baseline read for the worker started beside it is the successor's generation. -/
def staleRun : List RoleAct :=
  firstCommitRun ++ [.inr (.accept 8), .inr (.elapse 5000), .inl .pollSuccessor,
    .inr (.report ⟨2, 8, 1⟩ ⟨"processor", 8, 1, 0, 0, none, none⟩), .inr (.elapse 200), .inl .wake,
    .inl (.head (some 9)), .inl .snapshot] ++ upgrading 3 0 9 10 ++ [.inl (.reap .exited),
    .inl .proceed, .inr (.accept 10),
    .inr (.report ⟨4, 10, 1⟩ ⟨"processor", 10, 1, 0, 0, none, none⟩)]

/-- The second worker commits at generation 0 and is waited for with baseline 1: its successor has
reported generation 1 and is not accepted. -/
theorem stale_baseline :
    ∃ s deadline wake backoff, exec Role.step (Role.start (.cold .processor)) staleRun = some s ∧
      s.pc = .awaiting (.owned 9) 1 deadline wake backoff ∧ s.genOf 9 = some 0 ∧
      s.link.lastGeneration = some 1 ∧
      waitForSuccessorPoll s.link 1 deadline s.now = none := by
  have hend : (exec Role.step (Role.start (.cold .processor)) staleRun).map
      (fun s => (s.pc, s.genOf 9, s.link.lastGeneration, waitForSuccessorPoll s.link 1 10200 s.now)) =
      some (.awaiting (.owned 9) 1 10200 5200 200, some 0, some 1, none) := by decide
  obtain ⟨s, hs, hend⟩ := Option.map_eq_some_iff.mp hend
  simp only [Prod.mk.injEq] at hend
  exact ⟨s, 10200, 5200, 200, hs, hend.1, hend.2.1, hend.2.2.1, hend.2.2.2⟩

end FiveNinesEcho.Supervisor
