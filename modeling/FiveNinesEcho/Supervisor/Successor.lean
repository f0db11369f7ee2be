import FiveNinesEcho.Supervisor.Commit

/-!
# The wait for a successor (`supervisor/worker.rs:228-257`, `supervisor/worker.rs:320-337`)

After a commit exit the loop must not call `spawn_fn` while the successor is connected. It does not
look at the connection: it waits for a generation above its baseline, which gets into the link only
when somebody else asks the successor for its status. A successor that nobody asks within the window
is given up, connected as it is.
-/

namespace FiveNinesEcho.Supervisor
open Lib Handoff

/-- A run in which a worker exits with the commit code and its successor's connection is accepted
within the window and stays up: `before` the exit, up to the moment both are `connected`, and
`after`. -/
structure Succession (name : RoleName) where
  boot : Boot name
  before : List RoleAct
  during : List RoleAct
  after : List RoleAct
  atExit : Role
  exited : Role
  connected : Role
  last : Role
  old : Pid
  status : ExitStatus
  conn : Conn
  run_before : exec Role.step (Role.start boot) before = some atExit
  exits : atExit.step (.inr (.exit old status)) = some exited
  commits : status.isCommit = true
  forked : .inr (.fork old conn.pid) ∈ before
  run_during : exec Role.step exited during = some connected
  accepted : conn ∈ connected.conns
  within : connected.now ≤ exited.now + successorWaitTimeout
  run_after : exec Role.step connected after = some last
  up : Along Role.step (fun s _ => conn ∈ s.conns) connected after
  up_last : conn ∈ last.conns

/-! ### When the loop stands down -/

def RolePc.standsDown : RolePc → Bool
  | .awaiting .. | .adopting _ | .monitoring .. | .done => true
  | _ => false

/-- The process is the child the loop waits for, or the loop stands down already: its worker is a
successor it holds no handle of. -/
def Role.Minds (s : Role) (p : Pid) : Prop :=
  (∃ child, s.pc.running = some child ∧ child.pid = p) ∨ s.pc.standsDown = true

def RolePc.window : RolePc → Option (ℕ × ℕ)
  | .awaiting _ base deadline _ _ => some (base, deadline)
  | _ => none

def RolePc.absent : RolePc → Option (ℕ × ℕ)
  | .monitoring g (some since) _ => some (g, since)
  | _ => none

/-- The look that would end the wait finds a generation above the baseline in the link. -/
def Role.Reported (s : Role) (a : RoleAct) : Prop :=
  a = .inl .pollSuccessor → ∀ w ∈ s.pc.window, w.2 ≤ s.now → s.link.above w.1 = true

instance (s : Role) (a : RoleAct) : Decidable (s.Reported a) :=
  inferInstanceAs (Decidable (a = .inl .pollSuccessor → ∀ w ∈ s.pc.window,
    w.2 ≤ s.now → s.link.above w.1 = true))

/-- The look that would end the monitoring finds a connection, or a newer generation. -/
def Role.Present (s : Role) (a : RoleAct) : Prop :=
  a = .inl .pollMonitor → ∀ m ∈ s.pc.absent, successorLossGrace ≤ s.now - m.2 →
    s.link.writer.isSome = true ∨ s.link.above m.1 = true

instance (s : Role) (a : RoleAct) : Decidable (s.Present a) :=
  inferInstanceAs (Decidable (a = .inl .pollMonitor → ∀ m ∈ s.pc.absent,
    successorLossGrace ≤ s.now - m.2 → s.link.writer.isSome = true ∨ s.link.above m.1 = true))

/-- The commit is collected as what it is, and no look at the link gives the successor up. -/
def Role.Noticed (s : Role) (a : RoleAct) : Prop := s.StatusKept a ∧ s.Reported a ∧ s.Present a

instance (s : Role) (a : RoleAct) : Decidable (s.Noticed a) :=
  inferInstanceAs (Decidable (s.StatusKept a ∧ s.Reported a ∧ s.Present a))

def Role.Settled (s : Role) : Prop := s.Owing ∨ s.pc.standsDown = true

def spawns (s : Role) : ℕ := s.log.count .spawnFn

theorem Role.settled_running {s : Role} (hs : s.Settled) (child : ChildHandle)
    (hrun : s.pc.running = some child) :
    ∃ st, s.exitOf child.pid = some st ∧ st.isCommit = true := by
  rcases hs with (⟨c, st, hc, hst, hcommit⟩ | ⟨c, base, st, backoff, hpc, -⟩ | hpc) | hdown
  · cases hrun.symm.trans hc
    exact ⟨st, hst, hcommit⟩
  · simp [hpc, RolePc.running] at hrun
  · simp [hpc, RolePc.running] at hrun
  · cases hpc : s.pc <;> simp_all [RolePc.running, RolePc.standsDown]

theorem Role.settled_exited {s : Role} (hs : s.Settled) (child : ChildHandle) (base : ℕ)
    (st : ExitStatus) (backoff : ℕ) (hpc : s.pc = .exited child base st backoff) :
    st.isCommit = true := by
  rcases hs with (⟨c, st', hc, -⟩ | ⟨c, b, st', k, hpc', hcommit⟩ | hpc') | hdown
  · simp [hpc, RolePc.running] at hc
  · cases hpc.symm.trans hpc'
    exact hcommit
  · simp [hpc] at hpc'
  · simp [hpc, RolePc.standsDown] at hdown

theorem Role.settled_not_idle {s : Role} (hs : s.Settled) :
    s.pc ≠ .head none ∧ ∀ wake, s.pc ≠ .sleeping wake := by
  rcases hs with (⟨c, st, hc, -⟩ | ⟨c, base, st, backoff, hpc, -⟩ | hpc) | hdown
  · constructor
    · intro hpc
      simp [hpc, RolePc.running] at hc
    · intro wake hpc
      simp [hpc, RolePc.running] at hc
  · simp [hpc]
  · simp [hpc]
  · constructor
    · intro hpc
      simp [hpc, RolePc.standsDown] at hdown
    · intro wake hpc
      simp [hpc, RolePc.standsDown] at hdown

/-! ### What a step keeps -/

theorem Role.early_settled {s t : Role} {a : SupAct} (hs : s.Settled)
    (hk : s.StatusKept (.inl a)) (ha : a.early = true) (h : s.supStep a = some t) :
    t.Settled ∧ spawns t = spawns s := by
  have hearly := Role.supStep_early h ha
  cases Role.supStep_cases h with
  | stop => exact ⟨Or.inr rfl, rfl⟩
  | take r child hpc =>
    obtain ⟨st, hst, hc⟩ := Role.settled_running hs child (by simp [hpc, RolePc.running])
    exact ⟨Or.inl (Or.inl ⟨child, st, rfl, hst, hc⟩), rfl⟩
  | spawn r hpc hnew => exact absurd hpc (Role.settled_not_idle hs).1
  | snapshot child hpc =>
    obtain ⟨st, hst, hc⟩ := Role.settled_running hs child (by simp [hpc, RolePc.running])
    exact ⟨Or.inl (Or.inl ⟨child, st, rfl, hst, hc⟩), rfl⟩
  | reap child base r st hpc hst =>
    have hrun : s.pc.running = some child := by simp [hpc, RolePc.running]
    obtain ⟨st', hst', hc⟩ := Role.settled_running hs child hrun
    have hsame := s.waitStatus_kept child r st st' (hk r rfl child hrun st' hst' hc) hst hst'
    constructor
    · exact Or.inl (Or.inr (Or.inl ⟨child, base, st, _, rfl, by rw [hsame, hc]⟩))
    · simp [spawns]
  | commit child base st backoff hpc hst =>
    exact ⟨Or.inr rfl, by simp [spawns]⟩
  | crash child base st backoff hpc hst =>
    rw [Role.settled_exited hs child base st backoff hpc] at hst
    cases hst
  | again child base deadline wake wake' backoff hpc => cases ha
  | settle a pc pid w hfrom hto =>
    rw [hearly] at hfrom
    cases hfrom

theorem Role.supStep_settled {s t : Role} {a : SupAct} (hs : s.Settled)
    (hn : s.Noticed (.inl a)) (h : s.supStep a = some t) : t.Settled ∧ spawns t = spawns s := by
  cases a with
  | head r => exact Role.early_settled hs hn.1 rfl h
  | snapshot => exact Role.early_settled hs hn.1 rfl h
  | reap r => exact Role.early_settled hs hn.1 rfl h
  | proceed => exact Role.early_settled hs hn.1 rfl h
  | wake =>
    obtain ⟨wake, hpc, -⟩ := Role.wake_cases h
    exact absurd hpc ((Role.settled_not_idle hs).2 wake)
  | adopt =>
    obtain ⟨g, -, rfl⟩ := Role.adopt_cases h
    exact ⟨Or.inr rfl, rfl⟩
  | pollSuccessor =>
    obtain ⟨child, base, deadline, wake, backoff, hpc, hlook⟩ := Role.pollSuccessor_cases h
    rcases hlook with ⟨g, -, rfl⟩ | ⟨hno, hlate, rfl⟩ | ⟨-, -, rfl⟩
    · exact ⟨Or.inr rfl, rfl⟩
    · have hseen := hn.2.1 rfl (base, deadline) (by simp [hpc, RolePc.window]) hlate
      simp [hno] at hseen
    · exact ⟨Or.inr rfl, rfl⟩
  | pollMonitor =>
    obtain ⟨g, absentSince, wake, hpc, -, hlook⟩ := Role.pollMonitor_cases h
    rcases hlook with ⟨g', -, rfl⟩ | ⟨since, rfl, hw, hno, hlate, rfl⟩ | ⟨w, pid, -, rfl⟩ |
      ⟨-, -, rfl⟩ | ⟨since, -, -, -, rfl⟩
    · exact ⟨Or.inr rfl, rfl⟩
    · have hseen := hn.2.2 rfl (g, since) (by simp [hpc, RolePc.absent]) hlate
      simp [hno, hw] at hseen
    · exact ⟨Or.inr rfl, rfl⟩
    · exact ⟨Or.inr rfl, rfl⟩
    · exact ⟨Or.inr rfl, rfl⟩

theorem Role.envStep_spawns {s t : Role} {a : EnvAct} (h : s.envStep a = some t) :
    spawns t = spawns s := by
  rcases Role.envStep_log h with hlog | ⟨child, st, hlog⟩
  · rw [spawns, hlog, spawns]
  · rw [spawns, hlog, spawns]
    simp

theorem Role.envStep_settled {s t : Role} {a : EnvAct} (hs : s.Settled)
    (h : s.envStep a = some t) : t.Settled ∧ spawns t = spawns s := by
  obtain ⟨-, hpc, -⟩ := Role.envStep_frame h
  refine ⟨?_, Role.envStep_spawns h⟩
  rcases hs with (⟨child, st, hrun, hst, hc⟩ | ⟨child, base, st, backoff, hp, hc⟩ | hp) | hdown
  · exact Or.inl (Or.inl ⟨child, st, by rw [hpc, hrun], Role.envStep_exited h _ _ hst, hc⟩)
  · exact Or.inl (Or.inr (Or.inl ⟨child, base, st, backoff, by rw [hpc, hp], hc⟩))
  · exact Or.inl (Or.inr (Or.inr (by rw [hpc, hp])))
  · exact Or.inr (by rw [hpc, hdown])

theorem Role.step_settled (n : ℕ) (s : Role) (a : RoleAct) (t : Role)
    (hs : s.Settled ∧ spawns s = n) (hn : s.Noticed a) (h : s.step a = some t) :
    t.Settled ∧ spawns t = n := by
  have hstep : t.Settled ∧ spawns t = spawns s := by
    cases a with
    | inl a => exact Role.supStep_settled hs.1 hn h
    | inr a => exact Role.envStep_settled hs.1 h
  exact ⟨hstep.1, hstep.2.trans hs.2⟩

theorem Role.exit_settled {s t : Role} {p : Pid} {st : ExitStatus} (hm : s.Minds p)
    (hst : st.isCommit = true) (h : s.step (.inr (.exit p st)) = some t) : t.Settled := by
  obtain ⟨gen, -, -, rfl⟩ := Role.exit_cases h
  rcases hm with ⟨child, hrun, rfl⟩ | hdown
  · exact Or.inl (Or.inl ⟨child, st, hrun, by rw [s.exitOf_exitProc, if_pos rfl], hst⟩)
  · exact Or.inr hdown

/-! ### What giving up leads to -/

theorem Role.head_spawns (s : Role) (hpc : s.pc = .head none) (hrun : s.shutdown = false) :
    ∃ t, s.step (.inl (.head none)) = some t ∧ t.conns = s.conns ∧ spawns t = spawns s + 1 := by
  refine ⟨s.spawn none, by simp [Role.step, Role.supStep, hpc, hrun], rfl, ?_⟩
  rw [spawns, s.spawn_log, spawns]
  simp

theorem Role.sleeping_spawns (s : Role) (wake : ℕ) (hpc : s.pc = .sleeping wake)
    (hrun : s.shutdown = false) :
    ∃ bs t, exec Role.step s bs = some t ∧ t.conns = s.conns ∧ spawns t = spawns s + 1 := by
  let u : Role := { s with now := s.now + wake, pc := .head none }
  obtain ⟨t, ht, hconns, hcount⟩ := Role.head_spawns u rfl hrun
  refine ⟨[.inr (.elapse wake), .inl .wake, .inl (.head none)], t, ?_, hconns, hcount⟩
  have hwake : wake ≤ s.now + wake := by omega
  have hu : exec Role.step s [.inr (.elapse wake), .inl .wake] = some u := by
    simp [exec, Role.step, Role.envStep, Role.supStep, hpc, hwake, u]
  exact exec_append s u t _ [.inl (.head none)] hu (by rw [exec_cons u t _ _ ht]; rfl)

theorem Role.not_present_spawns {s t : Role} {a : RoleAct} (hrun : s.shutdown = false)
    (h : s.step a = some t) (hp : ¬ s.Present a) :
    ∃ bs u, exec Role.step t bs = some u ∧ u.conns = s.conns ∧ spawns u = spawns s + 1 := by
  unfold Role.Present at hp
  push Not at hp
  obtain ⟨rfl, m, hm, hlate, hw, hab⟩ := hp
  obtain ⟨g, absentSince, wake, hpc, hwake, -⟩ := Role.pollMonitor_cases h
  cases absentSince with
  | none => simp [hpc, RolePc.absent] at hm
  | some since =>
    simp only [hpc, RolePc.absent, Option.mem_some_iff] at hm
    subst hm
    have hgone : s.link.writer = none := by simpa using hw
    have hnone := WorkerLink.filter_below (by simpa using hab : s.link.above g = false)
    -- the loop is back at its head
    have ht : t = { s with currentPid := none, pc := .head none } := by
      simp only [Role.step, Role.supStep, hpc, if_pos hwake, monitorSuccessorPoll, hnone, hgone,
        if_pos hlate, Option.some.injEq] at h
      exact h.symm
    subst ht
    obtain ⟨u, hu, hconns, hcount⟩ :=
      Role.head_spawns { s with currentPid := none, pc := .head none } rfl hrun
    exact ⟨[.inl (.head none)], u, by rw [exec_cons _ u _ _ hu]; rfl, hconns, hcount⟩

theorem Role.not_reported_spawns {s t : Role} {a : RoleAct} (hrun : s.shutdown = false)
    (h : s.step a = some t) (hr : ¬ s.Reported a) :
    ∃ bs u, exec Role.step t bs = some u ∧ u.conns = s.conns ∧ spawns u = spawns s + 1 := by
  unfold Role.Reported at hr
  push Not at hr
  obtain ⟨rfl, w, hw, hlate, hab⟩ := hr
  obtain ⟨child, base, deadline, wake, backoff, hpc, -⟩ := Role.pollSuccessor_cases h
  simp only [hpc, RolePc.window, Option.mem_some_iff] at hw
  subst hw
  have hno : s.link.above base = false := by simpa using hab
  -- the window has run out and the backoff is slept off
  have ht : t = { s with pc := .sleeping (s.now + backoff) } := by
    simp only [Role.step, Role.supStep, hpc,
      waitForSuccessorPoll_below s.link base deadline s.now hno, if_pos hlate,
      Option.ite_none_right_eq_some, Option.some.injEq] at h
    exact h.2.symm
  subst ht
  exact Role.sleeping_spawns { s with pc := .sleeping (s.now + backoff) } _ rfl hrun

theorem Role.not_kept_spawns {s t : Role} {a : RoleAct} (hrun : s.shutdown = false)
    (h : s.step a = some t) (hk : ¬ s.StatusKept a) :
    ∃ bs u, exec Role.step t bs = some u ∧ u.conns = s.conns ∧ spawns u = spawns s + 1 := by
  unfold Role.StatusKept at hk
  push Not at hk
  obtain ⟨r, hr, child, hchild, st, hst, hc, hlost⟩ := hk
  have ha : a = .inl (.reap r) := by
    rcases a with a | a
    · cases a <;> simp_all [RoleAct.answer]
    · simp [RoleAct.answer] at hr
  subst ha
  obtain ⟨c, base, w, hpc, hw, rfl⟩ := Role.reap_cases h
  simp only [hpc, RolePc.running, Option.mem_some_iff] at hchild
  subst hchild
  -- what the wait returned is no commit code
  have hsmall : w.raw < 256 := by
    apply s.waitStatus_small c r w ?_ hw
    by_cases hown : c.isOwned = true
    · exact Or.inr (hlost hown)
    · exact Or.inl (by simpa using hown)
  have hcode : ¬ w.code = some upgradeCommitExitCode := by
    simpa [ExitStatus.isCommit] using ExitStatus.isCommit_small w hsmall
  let m : Role := { s with
    currentPid := none
    watchdog := s.watchdog.recordExit w s.now
    pc := .sleeping (s.now + (s.watchdog.recordExit w s.now).nextBackoff)
    log := s.log ++ [.recorded c (s.exitOf c.pid) s.watchdog.consecutiveFastExits
      (s.watchdog.recordExit w s.now).consecutiveFastExits] }
  obtain ⟨bs, u, hu, hconns, hcount⟩ := Role.sleeping_spawns m _ rfl hrun
  refine ⟨.inl .proceed :: bs, u, ?_, hconns, ?_⟩
  · rw [exec_cons _ m _ _ (by simp [Role.step, Role.supStep, hrun, hcode, m])]
    exact hu
  · rw [hcount]
    simp [spawns, m]

theorem Role.not_noticed_spawns {s t : Role} {a : RoleAct} (hrun : s.shutdown = false)
    (h : s.step a = some t) (hn : ¬ s.Noticed a) :
    ∃ bs u, exec Role.step t bs = some u ∧ u.conns = s.conns ∧ spawns u = spawns s + 1 := by
  by_cases hk : s.StatusKept a
  · by_cases hr : s.Reported a
    · exact Role.not_present_spawns hrun h fun hp => hn ⟨hk, hr, hp⟩
    · exact Role.not_reported_spawns hrun h hr
  · exact Role.not_kept_spawns hrun h hk

/-- In every run with a commit exit of a worker the loop minds and a successor that connects in time
and stays connected, `spawn_fn` is not called as long as the commit is collected as such and every
look that would end the wait or the monitoring finds the successor in the link. A look that does
not can be followed by a call, the connection being up. -/
theorem no_respawn_beside_successor {name : RoleName} (r : Succession name)
    (hmind : r.atExit.Minds r.old)
    (hnoticed : Along Role.step Role.Noticed r.exited (r.during ++ r.after)) :
    spawns r.last = spawns r.connected ∧
    ∀ s a t, r.conn ∈ s.conns → s.shutdown = false → s.step a = some t → ¬ s.Noticed a →
      ∃ bs u, exec Role.step t bs = some u ∧ r.conn ∈ u.conns ∧ spawns u = spawns s + 1 := by
  have hexited := Role.exit_settled hmind r.commits r.exits
  obtain ⟨hduring, hafter⟩ := along_append r.run_during hnoticed
  have hconnected := exec_along (Role.step_settled (spawns r.exited)) r.exited r.connected r.during
    ⟨hexited, rfl⟩ hduring r.run_during
  have hlast := exec_along (Role.step_settled (spawns r.connected)) r.connected r.last r.after
    ⟨hconnected.1, rfl⟩ hafter r.run_after
  refine ⟨hlast.2, ?_⟩
  intro s a t hup hrun h hn
  obtain ⟨bs, u, hu, hconns, hcount⟩ := Role.not_noticed_spawns hrun h hn
  exact ⟨bs, u, hu, by rw [hconns]; exact hup, hcount⟩

def upToExit : List RoleAct :=
  [.inl (.head (some 7)), .inl .snapshot, .inr (.accept 7), .inr .takeWriter,
    .inr (.disconnect ⟨1, 7, 0⟩), .inr (.fork 7 8)]

def upToAccept : List RoleAct := [.inl (.reap .exited), .inl .proceed, .inr (.accept 8)]

def atExit : Role := (exec Role.step (Role.start (.cold .processor)) upToExit).get (by decide)

def exitedWith23 : Role := (atExit.step (.inr (.exit 7 (.exited 23)))).get (by decide)

def successorUp : Role := (exec Role.step exitedWith23 upToAccept).get (by decide)

/-- Worker 7 commits and worker 8 connects at once; what follows is left open. -/
def connectedAtOnce (after : List RoleAct) (last : Role)
    (hrun : exec Role.step successorUp after = some last)
    (hup : Along Role.step (fun s _ => (⟨2, 8, 1⟩ : Conn) ∈ s.conns) successorUp after)
    (hlast : (⟨2, 8, 1⟩ : Conn) ∈ last.conns) : Succession .processor where
  boot := .cold .processor
  before := upToExit
  during := upToAccept
  after := after
  atExit := atExit
  exited := exitedWith23
  connected := successorUp
  last := last
  old := 7
  status := .exited 23
  conn := ⟨2, 8, 1⟩
  run_before := (Option.some_get _).symm
  exits := (Option.some_get _).symm
  commits := by decide
  forked := by simp [upToExit]
  run_during := (Option.some_get _).symm
  accepted := by decide
  within := by decide
  run_after := hrun
  up := hup
  up_last := hlast

def askedRun : List RoleAct :=
  [.inr (.query 0), .inr (.report ⟨2, 8, 1⟩ ⟨"processor", 8, 1, 0, 0, none, none⟩),
    .inl .pollSuccessor, .inl .adopt, .inr (.elapse 6000), .inl .pollMonitor]

theorem no_respawn_beside_asked :
    ∃ r : Succession .processor, r.after = askedRun ∧ r.last.now = 6000 ∧
      spawns r.last = spawns r.connected := by
  let last := (exec Role.step successorUp askedRun).get (by decide)
  let r := connectedAtOnce askedRun last (Option.some_get _).symm (by decide) (by decide)
  have hmind : r.atExit.Minds r.old := Or.inl ⟨.owned 7, by decide, rfl⟩
  have hnoticed : Along Role.step Role.Noticed r.exited (r.during ++ r.after) := by decide
  exact ⟨r, rfl, by decide, (no_respawn_beside_successor r hmind hnoticed).1⟩

/-- Nobody asks the successor: its window runs out and a fresh worker is started beside it. -/
def unaskedRun : List RoleAct :=
  [.inr (.elapse 5000), .inl .pollSuccessor, .inr (.elapse 200), .inl .wake,
    .inl (.head (some 9))]

theorem respawn_beside_unasked :
    ∃ r : Succession .processor, r.after = unaskedRun ∧ r.conn ∈ r.last.conns ∧
      r.atExit.Minds r.old ∧ spawns r.last = spawns r.connected + 1 ∧
      r.last.procs 8 = some ⟨1, none⟩ ∧ r.last.procs 9 = some ⟨0, none⟩ := by
  let last := (exec Role.step successorUp unaskedRun).get (by decide)
  let r := connectedAtOnce unaskedRun last (Option.some_get _).symm (by decide) (by decide)
  have hmind : r.atExit.Minds r.old := Or.inl ⟨.owned 7, by decide, rfl⟩
  exact ⟨r, rfl, r.up_last, hmind, by decide, by decide, by decide⟩

end FiveNinesEcho.Supervisor
