import FiveNinesEcho.Supervisor.Accounting
import FiveNinesEcho.Supervisor.Frames
import Mathlib.Data.List.Induction

/-!
# The canary (`supervisor/admin.rs:91-156`)

A walk next to the loop of the role it upgrades. `canary_observe` sees nothing of the worker but the
watchdog's state, and of the ways a worker can die only one changes that state for the worse: its
exit is collected by `child.wait()`, with a status that is not a commit, less than
`WATCHDOG_HEALTHY_UPTIME` after the watchdog's last start mark. A successor that is monitored over
its control link dies without a trace there.
-/

namespace FiveNinesEcho.Supervisor
open Lib Handoff

structure Canary where
  role : Role
  walk : Walk

abbrev CanaryAct := RoleAct ⊕ WalkAct

def Canary.health (c : Canary) : HealthState := c.role.watchdog.healthState c.role.now

/-- A status that some process of the role can have given. -/
def Canary.canReport (c : Canary) (st : WorkerStatus) : Bool :=
  (c.role.procs st.pid).any fun pr => st.generation ≤ pr.gen

/-- What the walk reads about this role is what there is. -/
def Canary.reads (c : Canary) (a : WalkAct) : Bool :=
  match a, c.walk.pc with
  | .next baseline, .target (role :: _) => role = c.role.name → baseline = c.health
  | .preStatus (some st), .asking role _ _ => role = c.role.name → c.canReport st = true
  | .status (some st), .querying role _ _ _ _ => role = c.role.name → c.canReport st = true
  | .look state, .napping role _ _ _ _ => role = c.role.name → state = c.health
  | _, _ => true

def Canary.step (c : Canary) : CanaryAct → Option Canary
  | .inl a => (c.role.step a).map fun r => { c with role := r }
  | .inr a =>
    if c.reads a then (c.walk.step c.role.now true a).map fun w => { c with walk := w } else none

def Canary.start {name : RoleName} (b : Boot name) (req : RollingUpgradeRequest) : Canary :=
  ⟨Role.start b, ⟨req, .idle, []⟩⟩

/-- A run in which the role, healthy before, reported `Done` with its new worker, which then dies. -/
structure Trial (name : RoleName) where
  boot : Boot name
  req : RollingUpgradeRequest
  before : List CanaryAct
  during : List CanaryAct
  asked : Canary
  opened : Canary
  last : Canary
  st : WorkerStatus
  rest : List RoleName
  preGen : ℕ
  deadline : ℕ
  secs : ℕ
  run_before : exec Canary.step (Canary.start boot req) before = some asked
  querying : asked.walk.pc = .querying name rest .healthy preGen deadline
  window : asked.walk.req.canarySecs = some secs
  long : successorLossGrace ≤ 1000 * secs
  newer : preGen < st.generation
  genuine : asked.role.genOf st.pid = some st.generation
  reported : asked.step (.inr (.status (some st))) = some opened
  alive : opened.role.exitOf st.pid = none
  run_during : exec Canary.step opened during = some last
  dies : (last.role.exitOf st.pid).isSome = true

def Trial.closes {name : RoleName} (t : Trial name) : ℕ := t.opened.role.now + 1000 * t.secs

/-! ### The window -/

/-- In `canary_observe` for that role, which was healthy. -/
def WalkPc.inWindow (role : RoleName) (rest : List RoleName) (deadline : ℕ) (pc : WalkPc) : Prop :=
  pc = .watching role rest .healthy deadline ∨
    ∃ wake, pc = .napping role rest .healthy deadline wake

/-- Past the window: fewer targets are left. -/
def WalkPc.past (rest : List RoleName) : WalkPc → Prop
  | .idle => False
  | .target rest' => rest'.length ≤ rest.length
  | .asking _ rest' _ => rest'.length < rest.length
  | .polling _ rest' _ _ _ _ => rest'.length < rest.length
  | .querying _ rest' _ _ _ => rest'.length < rest.length
  | .watching _ rest' _ _ => rest'.length < rest.length
  | .napping _ rest' _ _ _ => rest'.length < rest.length
  | .rejected => True
  | .finished _ => True

theorem Walk.step_past {w w' : Walk} {now : ℕ} {free : Bool} {a : WalkAct} {rest : List RoleName}
    (h : w.step now free a = some w') (hpast : w.pc.past rest) : w'.pc.past rest := by
  unfold Walk.step at h
  split at h
  case h_1 hpc => simp [hpc, WalkPc.past] at hpast
  case h_3 hpc =>
    cases h
    simp only [hpc, WalkPc.past, List.length_cons] at hpast
    simp only [Walk.emit, WalkPc.past]
    omega
  case h_5 hpc =>
    cases h
    rw [hpc] at hpast
    exact hpast
  case h_6 hpc =>
    rw [hpc] at hpast
    simp only [Option.ite_none_right_eq_some] at h
    obtain ⟨-, h⟩ := h
    split at h
    · cases h
      trivial
    · cases h
      exact hpast
  case h_7 hpc =>
    rw [hpc] at hpast
    split at h
    · cases h
      simp only [Walk.emit]
      split
      · exact hpast
      · exact Nat.le_of_lt hpast
    · cases h
      exact hpast
  case h_8 hpc =>
    cases h
    rw [hpc] at hpast
    simp only [Walk.emit]
    split
    · exact hpast
    · exact Nat.le_of_lt hpast
  case h_9 hpc =>
    rw [hpc] at hpast
    simp only [Option.ite_none_right_eq_some] at h
    obtain ⟨-, h⟩ := h
    split at h
    · cases h
      trivial
    · cases h
      exact hpast
  case h_10 => cases h
  all_goals
    cases h
    trivial

theorem Walk.step_window {w w' : Walk} {now : ℕ} {free : Bool} {a : WalkAct} {role : RoleName}
    {rest : List RoleName} {deadline : ℕ} (h : w.step now free a = some w')
    (hwin : w.pc.inWindow role rest deadline) :
    (w'.pc.inWindow role rest deadline ∧ w'.trace = w.trace) ∨ w'.pc.past rest := by
  rcases hwin with hpc | ⟨wake, hpc⟩
  · cases a <;> simp [Walk.step, hpc] at h
    subst h
    by_cases hlate : now < deadline
    · rw [if_pos hlate]
      exact Or.inl ⟨Or.inr ⟨_, rfl⟩, by simp [Walk.emit]⟩
    · rw [if_neg hlate]
      exact Or.inr (Nat.le_refl _)
  · cases a <;> simp [Walk.step, hpc] at h
    obtain ⟨-, h⟩ := h
    split at h
    · cases h
      exact Or.inr trivial
    · cases h
      exact Or.inl ⟨Or.inl rfl, by simp [Walk.emit]⟩

theorem Canary.step_cases {c d : Canary} {a : CanaryAct} (h : c.step a = some d) :
    (∃ b, a = .inl b ∧ c.role.step b = some d.role ∧ d.walk = c.walk) ∨
      ∃ b, a = .inr b ∧ c.reads b = true ∧ c.walk.step c.role.now true b = some d.walk ∧
        d.role = c.role := by
  cases a with
  | inl b =>
    obtain ⟨r, hr, rfl⟩ := Option.map_eq_some_iff.mp h
    exact Or.inl ⟨b, rfl, hr, rfl⟩
  | inr b =>
    simp only [Canary.step, Option.ite_none_right_eq_some] at h
    obtain ⟨w, hw, rfl⟩ := Option.map_eq_some_iff.mp h.2
    exact Or.inr ⟨b, rfl, h.1, hw, rfl⟩

/-- From the opening on, the walk is in the window and has told nobody anything, or is past it. -/
def Canary.Since (role : RoleName) (rest : List RoleName) (deadline : ℕ) (trace : List WalkEvent)
    (c : Canary) : Prop :=
  (c.walk.pc.inWindow role rest deadline ∧ c.walk.trace = trace) ∨ c.walk.pc.past rest

theorem Canary.step_since {role : RoleName} {rest : List RoleName} {deadline : ℕ}
    {trace : List WalkEvent} (c : Canary) (a : CanaryAct) (d : Canary)
    (hc : c.Since role rest deadline trace) (h : c.step a = some d) :
    d.Since role rest deadline trace := by
  rcases Canary.step_cases h with ⟨b, -, -, hwalk⟩ | ⟨b, -, -, hwalk, -⟩
  · unfold Canary.Since
    rw [hwalk]
    exact hc
  · rcases hc with ⟨hwin, htrace⟩ | hpast
    · rcases Walk.step_window hwalk hwin with ⟨hwin', htrace'⟩ | hpast
      · exact Or.inl ⟨hwin', htrace'.trans htrace⟩
      · exact Or.inr hpast
    · exact Or.inr (Walk.step_past hwalk hpast)

theorem Canary.Since.napping {role : RoleName} {rest : List RoleName} {deadline wake : ℕ}
    {trace : List WalkEvent} {c : Canary} (hc : c.Since role rest deadline trace)
    (hpc : c.walk.pc = .napping role rest .healthy deadline wake) : c.walk.trace = trace := by
  rcases hc with ⟨-, htrace⟩ | hpast
  · exact htrace
  · rw [hpc] at hpast
    exact absurd hpast (Nat.lt_irrefl _)

theorem Canary.step_finished (allOk : Bool) (trace : List WalkEvent) (c : Canary) (a : CanaryAct)
    (d : Canary) (hc : c.walk.pc = .finished allOk ∧ c.walk.trace = trace)
    (h : c.step a = some d) : d.walk.pc = .finished allOk ∧ d.walk.trace = trace := by
  rcases Canary.step_cases h with ⟨b, -, -, hwalk⟩ | ⟨b, -, -, hwalk, -⟩
  · rw [hwalk]
    exact hc
  · cases b <;> simp [Walk.step, hc.1] at hwalk

theorem Trial.opens {name : RoleName} (t : Trial name) :
    t.opened.walk.pc = .watching name t.rest .healthy t.closes := by
  have hstep := t.reported
  simp only [Canary.step, Option.ite_none_right_eq_some] at hstep
  obtain ⟨w, hw, hopened⟩ := Option.map_eq_some_iff.mp hstep.2
  have hfilter : (some t.st).filter (fun st => t.preGen < st.generation) = some t.st := by
    simp [t.newer]
  simp only [Walk.step, t.querying, hfilter, t.window, Option.some.injEq] at hw
  rw [Trial.closes, ← hopened, ← hw]
  rfl

/-! ### What the watchdog has seen -/

/-- The last start of the role is less than the healthy uptime ago. -/
def Canary.Fresh (c : Canary) : Prop :=
  ∀ start ∈ c.role.watchdog.lastSpawnedAt, c.role.now - start < watchdogHealthyUptime

instance (c : Canary) : Decidable c.Fresh :=
  inferInstanceAs (Decidable (∀ start ∈ c.role.watchdog.lastSpawnedAt,
    c.role.now - start < watchdogHealthyUptime))

/-- `child.wait()` returns the exit of that process, as no commit and within the healthy uptime. -/
def Canary.Counts (c : Canary) (p : Pid) (r : WaitAnswer) : Prop :=
  ∃ child base st, c.role.pc = .waiting child base ∧ child.pid = p ∧
    c.role.waitStatus child r = some st ∧ st.isCommit = false ∧ c.Fresh

def CanaryAct.isReap : CanaryAct → Bool
  | .inl (.inl (.reap _)) => true
  | _ => false

theorem CanaryAct.reap_of_isReap {a : CanaryAct} (h : a.isReap = true) :
    ∃ r, a = .inl (.inl (.reap r)) := by
  unfold CanaryAct.isReap at h
  split at h
  · exact ⟨_, rfl⟩
  · cases h

theorem Canary.step_count {c d : Canary} {a : CanaryAct} (h : c.step a = some d)
    (ha : a.isReap = false) :
    d.role.watchdog.consecutiveFastExits = c.role.watchdog.consecutiveFastExits := by
  rcases Canary.step_cases h with ⟨b, rfl, hrole, -⟩ | ⟨b, -, -, -, hrole⟩
  · apply Role.step_fastExits hrole
    rintro r rfl
    simp [CanaryAct.isReap] at ha
  · rw [hrole]

theorem Canary.reap_count {c d : Canary} {p : Pid} {r : WaitAnswer} (hc : c.Counts p r)
    (hfull : c.role.watchdog.consecutiveFastExits + 1 < 2 ^ 32)
    (h : c.step (.inl (.inl (.reap r))) = some d) :
    d.role.watchdog.consecutiveFastExits = c.role.watchdog.consecutiveFastExits + 1 := by
  obtain ⟨child, base, st, hpc, -, hst, hcommit, hfresh⟩ := hc
  obtain ⟨role, hrole, rfl⟩ := Option.map_eq_some_iff.mp h
  obtain ⟨child', base', st', hpc', hst', rfl⟩ := Role.reap_cases hrole
  cases hpc.symm.trans hpc'
  cases hst.symm.trans hst'
  exact (recordExit_counts_iff _ _ _ hcommit).mpr ⟨hfresh, hfull⟩

/-- Counting is the only way up from nothing. -/
theorem Canary.reap_counts {c d : Canary} {r : WaitAnswer}
    (h : c.step (.inl (.inl (.reap r))) = some d)
    (hpos : 0 < d.role.watchdog.consecutiveFastExits) : ∃ p, c.Counts p r := by
  obtain ⟨role, hrole, rfl⟩ := Option.map_eq_some_iff.mp h
  obtain ⟨child, base, st, hpc, hst, rfl⟩ := Role.reap_cases hrole
  obtain ⟨hcommit, hfresh⟩ := recordExit_pos c.role.watchdog st c.role.now hpos
  exact ⟨child.pid, child, base, st, hpc, rfl, hst, hcommit, hfresh⟩

theorem Canary.exec_count {c d : Canary} {as : List CanaryAct}
    (h : exec Canary.step c as = some d) (has : ∀ a ∈ as, a.isReap = false) :
    d.role.watchdog.consecutiveFastExits = c.role.watchdog.consecutiveFastExits := by
  induction as generalizing c with
  | nil =>
    cases h
    rfl
  | cons a as ih =>
    obtain ⟨m, hm, hrest⟩ := exec_cons_some c d a as h
    rw [ih hrest fun b hb => has b (List.mem_cons_of_mem _ hb),
      Canary.step_count hm (has a (List.mem_cons_self ..))]

/-- A count above nothing goes back to an exit that was counted, the last one collected. -/
theorem Canary.exec_counted {c d : Canary} {as : List CanaryAct}
    (h : exec Canary.step c as = some d)
    (hzero : c.role.watchdog.consecutiveFastExits = 0)
    (hpos : 0 < d.role.watchdog.consecutiveFastExits) :
    ∃ xs r ys m p, as = xs ++ .inl (.inl (.reap r)) :: ys ∧ exec Canary.step c xs = some m ∧
      m.Counts p r ∧ ∀ a ∈ ys, a.isReap = false := by
  -- induction from the end: the last step is the exit, or the count was there before it
  induction as using List.reverseRecOn generalizing d with
  | nil =>
    cases h
    omega
  | append_singleton as a ih =>
    obtain ⟨m, hm, hlast⟩ := exec_append_some c d as [a] h
    obtain ⟨d', hstep, hd⟩ := exec_cons_some m d a [] hlast
    cases hd
    by_cases ha : a.isReap = true
    · obtain ⟨r, rfl⟩ := CanaryAct.reap_of_isReap ha
      obtain ⟨p, hp⟩ := Canary.reap_counts hstep hpos
      exact ⟨as, r, [], m, p, rfl, hm, hp, by simp⟩
    · rw [Bool.not_eq_true] at ha
      rw [Canary.step_count hstep ha] at hpos
      obtain ⟨xs, r, ys, k, p, rfl, hk, hp, hys⟩ := ih hm hpos
      refine ⟨xs, r, ys ++ [a], k, p, by simp, hk, hp, ?_⟩
      intro b hb
      rcases List.mem_append.mp hb with hb | hb
      · exact hys b hb
      · rw [List.mem_singleton.mp hb]
        exact ha

/-! ### The canary notices -/

/-- In the window the new worker's death is collected and counted, and before anything else is
collected there is a look less than the healthy uptime after the watchdog's last start mark. -/
def Trial.Noticed {name : RoleName} (t : Trial name) : Prop :=
  ∃ xs r ys state zs c d wake,
    t.during = xs ++ .inl (.inl (.reap r)) :: ys ++ .inr (.look state) :: zs ∧
    exec Canary.step t.opened xs = some c ∧ c.Counts t.st.pid r ∧
    c.role.watchdog.consecutiveFastExits + 1 < 2 ^ 32 ∧ (∀ a ∈ ys, a.isReap = false) ∧
    exec Canary.step t.opened (xs ++ .inl (.inl (.reap r)) :: ys) = some d ∧ d.Fresh ∧
    d.walk.pc = .napping name t.rest .healthy t.closes wake

theorem healthStateRank_pos_iff (state : HealthState) :
    healthStateRank .healthy < healthStateRank state ↔ state ≠ .healthy := by
  cases state <;> simp [healthStateRank]

theorem Canary.step_name (name : RoleName) (c : Canary) (a : CanaryAct) (d : Canary)
    (hc : c.role.name = name) (h : c.step a = some d) : d.role.name = name := by
  rcases Canary.step_cases h with ⟨b, -, hrole, -⟩ | ⟨b, -, -, -, hrole⟩
  · rw [Role.step_name hrole, hc]
  · rw [hrole, hc]

theorem Trial.name_at {name : RoleName} (t : Trial name) {as : List CanaryAct} {c : Canary}
    (h : exec Canary.step t.opened as = some c) : c.role.name = name := by
  have hasked : t.asked.role.name = name :=
    exec_invariant (Canary.step_name name) _ _ t.before rfl t.run_before
  have hopened := Canary.step_name name _ _ _ hasked t.reported
  exact exec_invariant (Canary.step_name name) _ _ as hopened h

/-- A look that finds the role worse than before ends the walk. -/
theorem Canary.look_aborts {c d : Canary} {state : HealthState} {role : RoleName}
    {rest : List RoleName} {deadline wake : ℕ} (hname : c.role.name = role)
    (hpc : c.walk.pc = .napping role rest .healthy deadline wake)
    (h : c.step (.inr (.look state)) = some d) :
    (c.health ≠ .healthy →
      d.walk.pc = .finished false ∧ d.walk.trace = c.walk.trace ++
        [.notify (.upgradeStep (canaryAbortedStep role c.health)),
          .notify (.upgradeComplete false)]) ∧
      (c.health = .healthy → d.walk.pc = .watching role rest .healthy deadline) := by
  simp only [Canary.step, Option.ite_none_right_eq_some] at h
  obtain ⟨hreads, h⟩ := h
  obtain ⟨w, hw, rfl⟩ := Option.map_eq_some_iff.mp h
  have hstate : state = c.health := by simpa [Canary.reads, hpc, hname] using hreads
  subst hstate
  simp only [Walk.step, hpc, Option.ite_none_right_eq_some, healthStateRank_pos_iff] at hw
  obtain ⟨-, hw⟩ := hw
  constructor
  · intro hbad
    rw [if_pos hbad] at hw
    cases hw
    exact ⟨rfl, rfl⟩
  · intro hgood
    rw [if_neg (by simp [hgood])] at hw
    cases hw
    rfl

theorem Canary.health_worse {c : Canary} (hpos : 0 < c.role.watchdog.consecutiveFastExits)
    (hfresh : c.Fresh) : c.health ≠ .healthy := by
  intro hgood
  rcases (healthState_healthy_iff _ _).mp hgood with hzero | ⟨-, start, hstart, hold⟩
  · omega
  · have hyoung := hfresh start hstart
    omega

theorem Canary.health_worse_pos {c : Canary} (h : c.health ≠ .healthy) :
    0 < c.role.watchdog.consecutiveFastExits ∧
      (c.Fresh ∨ c.role.watchdog.isFailed = true) := by
  have hnot := mt (healthState_healthy_iff c.role.watchdog c.role.now).mpr h
  rw [not_or] at hnot
  refine ⟨Nat.pos_of_ne_zero hnot.1, ?_⟩
  by_cases hfailed : c.role.watchdog.isFailed = true
  · exact Or.inr hfailed
  · refine Or.inl fun start hstart => ?_
    by_contra hold
    exact hnot.2 ⟨by simpa using hfailed, start, hstart, Nat.le_of_not_lt hold⟩

theorem Trial.since {name : RoleName} (t : Trial name) {as : List CanaryAct} {c : Canary}
    (h : exec Canary.step t.opened as = some c) :
    c.Since name t.rest t.closes t.opened.walk.trace :=
  exec_invariant Canary.step_since _ c as (Or.inl ⟨Or.inl t.opens, rfl⟩) h

/-- In every run in which the new worker's death is noticed as a fast exit while a look can still
see it, the canary returns false and no worker is sent an `Upgrade` any more. From a clean record
nothing else makes it return false: a look that does comes after a fast exit that was collected and
counted, the last one collected. -/
theorem canary_aborts_on_counted_exit {name : RoleName} (t : Trial name) :
    (t.Noticed → t.last.walk.pc = .finished false ∧
      (∃ state, .notify (.upgradeStep (canaryAbortedStep name state)) ∈ t.last.walk.trace) ∧
      ∃ events, t.last.walk.trace = t.opened.walk.trace ++ events ∧
        ∀ e ∈ events, e.isUpgrade = false) ∧
    (t.opened.role.watchdog.consecutiveFastExits = 0 → ∀ as state c d wake,
      exec Canary.step t.opened as = some c →
      c.walk.pc = .napping name t.rest .healthy t.closes wake →
      c.step (.inr (.look state)) = some d → d.walk.pc = .finished false →
      (∃ xs r ys m p, as = xs ++ .inl (.inl (.reap r)) :: ys ∧
        exec Canary.step t.opened xs = some m ∧ m.Counts p r ∧ ∀ a ∈ ys, a.isReap = false) ∧
      (c.Fresh ∨ c.role.watchdog.isFailed = true)) := by
  constructor
  · rintro ⟨xs, r, ys, state, zs, c, d, wake, hduring, hc, hcounts, hfull, hys, hd, hfresh, hpc⟩
    -- the reap counts, and what follows up to the look does not reset it
    have hpos : 0 < d.role.watchdog.consecutiveFastExits := by
      obtain ⟨c', hc', hrest⟩ := exec_append_some _ _ _ _ hd
      cases hc.symm.trans hc'
      obtain ⟨m, hm, hrun⟩ := exec_cons_some _ _ _ _ hrest
      rw [Canary.exec_count hrun hys, Canary.reap_count hcounts hfull hm]
      exact Nat.succ_pos _
    have htrace := (t.since hd).napping hpc
    have hrun := t.run_during
    rw [hduring] at hrun
    obtain ⟨d', hd', hrest⟩ := exec_append_some _ _ _ _ hrun
    cases hd.symm.trans hd'
    obtain ⟨e, he, hzs⟩ := exec_cons_some _ _ _ _ hrest
    obtain ⟨haborts, -⟩ := Canary.look_aborts (t.name_at hd) hpc he
    obtain ⟨hpc', htrace'⟩ := haborts (Canary.health_worse hpos hfresh)
    obtain ⟨hlast, hend⟩ := exec_invariant (Canary.step_finished false e.walk.trace) e t.last zs
      ⟨hpc', rfl⟩ hzs
    rw [htrace', htrace] at hend
    refine ⟨hlast, ⟨d.health, by simp [hend]⟩, _, hend, ?_⟩
    simp [WalkEvent.isUpgrade]
  · intro hzero as state c d wake hrun hpc hstep hfinished
    obtain ⟨-, hgood⟩ := Canary.look_aborts (t.name_at hrun) hpc hstep
    have hbad : c.health ≠ .healthy := by
      intro hhealthy
      rw [hgood hhealthy] at hfinished
      cases hfinished
    obtain ⟨hpos, hseen⟩ := Canary.health_worse_pos hbad
    exact ⟨Canary.exec_counted hrun hzero hpos, hseen⟩

def workerAt (role : RoleName) (pid : Pid) (generation : ℕ) : WorkerStatus :=
  ⟨role.text, pid, generation, 0, 0, none, none⟩

/-- TLS worker 7 is spawned, upgrades at once and dies in its new image. -/
def quickTls : List CanaryAct :=
  [.inl (.inl (.head (some 7))), .inl (.inl .snapshot), .inl (.inr (.accept 7)), .inr .begin,
    .inr (.next .healthy), .inr (.preStatus (some (workerAt .tls 7 0))), .inl (.inr (.reexec 7)),
    .inr .poll]

def quickTlsDies : List CanaryAct :=
  [.inr .observe, .inl (.inr (.exit 7 ⟨9⟩)), .inl (.inl (.reap .exited)),
    .inl (.inr (.elapse 200)), .inr (.look .backoff)]

def quickTlsAsked : Canary :=
  (exec Canary.step (Canary.start (.cold .tls) ⟨none, true, some 5, some "tls"⟩) quickTls).get
    (by decide)

def quickTlsOpened : Canary :=
  (quickTlsAsked.step (.inr (.status (some (workerAt .tls 7 1))))).get (by decide)

def quickTlsTrial : Trial .tls where
  boot := .cold .tls
  req := ⟨none, true, some 5, some "tls"⟩
  before := quickTls
  during := quickTlsDies
  asked := quickTlsAsked
  opened := quickTlsOpened
  last := (exec Canary.step quickTlsOpened quickTlsDies).get (by decide)
  st := workerAt .tls 7 1
  rest := []
  preGen := 0
  deadline := 10000
  secs := 5
  run_before := (Option.some_get _).symm
  querying := by decide
  window := by decide
  long := by decide
  newer := by decide
  genuine := by decide
  reported := (Option.some_get _).symm
  alive := by decide
  run_during := (Option.some_get _).symm
  dies := by decide

theorem canary_aborts_quick_tls :
    quickTlsTrial.Noticed ∧ quickTlsTrial.last.walk.pc = .finished false := by
  have hnoticed : quickTlsTrial.Noticed :=
    ⟨quickTlsDies.take 2, .exited, [.inl (.inr (.elapse 200))], .backoff, [],
      (exec Canary.step quickTlsOpened (quickTlsDies.take 2)).get (by decide),
      (exec Canary.step quickTlsOpened (quickTlsDies.take 4)).get (by decide), 200, rfl,
      (Option.some_get _).symm, ⟨.owned 7, 0, ⟨9⟩, by decide, rfl, by decide, by decide, by decide⟩,
      by decide, by simp [CanaryAct.isReap], (Option.some_get _).symm, by decide, by decide⟩
  exact ⟨hnoticed, ((canary_aborts_on_counted_exit quickTlsTrial).1 hnoticed).1⟩

/-- Processor 7 hands over to 8, which answers and is adopted. -/
def handover8 : List CanaryAct :=
  [.inl (.inl (.head (some 7))), .inl (.inl .snapshot), .inl (.inr (.accept 7)), .inr .begin,
    .inr (.next .healthy), .inr (.preStatus (some (workerAt .processor 7 0))),
    .inl (.inr (.fork 7 8)), .inl (.inr (.disconnect ⟨1, 7, 0⟩)),
    .inl (.inr (.exit 7 (.exited 23))), .inl (.inl (.reap .exited)), .inl (.inl .proceed),
    .inl (.inr (.accept 8)), .inr .poll,
    .inl (.inr (.report ⟨2, 8, 1⟩ (workerAt .processor 8 1)))]

def watched : List CanaryAct :=
  [.inr .observe, .inl (.inr (.elapse 200)), .inl (.inl .pollMonitor), .inr (.look .healthy)]

def unwatched : List CanaryAct :=
  [.inr .observe, .inl (.inr (.elapse 200)), .inr (.look .healthy)]

/-- Worker 8 dies 200 ms into the window of 5 s, is declared lost 3.2 s later and replaced; the
canary looks every 200 ms, and the walk goes on to the plain acceptor. -/
def monitoredDeath : List CanaryAct :=
  [.inl (.inl .pollSuccessor), .inl (.inl .adopt)] ++ watched ++
    [.inl (.inr (.exit 8 ⟨9⟩)), .inl (.inr (.disconnect ⟨2, 8, 1⟩))] ++
    (List.replicate 16 watched).flatten ++ [.inl (.inl (.head (some 9))), .inl (.inl .snapshot)] ++
    (List.replicate 8 unwatched).flatten ++
    [.inr .observe, .inr (.next .healthy), .inr (.preStatus (some (workerAt .plain 20 0)))]

def handover8Asked : Canary :=
  (exec Canary.step (Canary.start (.cold .processor) ⟨none, false, some 5, none⟩) handover8).get
    (by decide)

def handover8Opened : Canary :=
  (handover8Asked.step (.inr (.status (some (workerAt .processor 8 1))))).get (by decide)

theorem canary_misses_monitored_death :
    ∃ t : Trial .processor, t.during = monitoredDeath ∧ t.st.pid = 8 ∧
      t.opened.role.now + 200 + successorLossGrace < t.closes ∧
      .upgrade .plain none ∈ t.last.walk.trace ∧
      t.last.walk.trace.all (fun e => !e.aborts) = true := by
  let last := (exec Canary.step handover8Opened monitoredDeath).get (by decide)
  let t : Trial .processor :=
    { boot := .cold .processor, req := ⟨none, false, some 5, none⟩, before := handover8,
      during := monitoredDeath, asked := handover8Asked, opened := handover8Opened, last := last,
      st := workerAt .processor 8 1, rest := [.plain, .scanner], preGen := 0, deadline := 5000,
      secs := 5, run_before := (Option.some_get _).symm, querying := by decide,
      window := by decide, long := by decide, newer := by decide, genuine := by decide,
      reported := (Option.some_get _).symm, alive := by decide,
      run_during := (Option.some_get _).symm, dies := by decide }
  exact ⟨t, rfl, rfl, by decide, by decide, by decide⟩

end FiveNinesEcho.Supervisor
