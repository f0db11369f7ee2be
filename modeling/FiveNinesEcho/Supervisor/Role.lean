import FiveNinesEcho.Lib.Exec
import FiveNinesEcho.Supervisor.Link
import FiveNinesEcho.Supervisor.Watchdog
import Mathlib.Data.List.Basic
import Mathlib.Logic.Function.Basic

/-!
# The supervisor loop of a role (`supervisor/worker.rs`)

`supervise_role` as a program counter, next to what moves while it is suspended: the role's worker
processes, the control connections they open, the tasks that use the link, the shutdown flag and the
clock. A pid names one process for the whole run. Times are in milliseconds; a sleep may last longer
than asked.
-/

namespace FiveNinesEcho.Supervisor
open Lib Handoff

/-! ### Worker processes (`worker.rs:59-120`) -/

inductive RoleName where
  | processor
  | plain
  | tls
  | scanner
  deriving Repr, DecidableEq

/-- The TLS acceptor upgrades by `exec` in its own process (`acceptor/tls_drain.rs:170-177`) and has
no commit exit; the others spawn their successor and exit. -/
def RoleName.execsInPlace : RoleName → Bool
  | .tls => true
  | _ => false

structure Proc where
  gen : ℕ
  exit : Option ExitStatus
  deriving Repr, DecidableEq

structure Conn where
  epoch : ℕ
  pid : Pid
  gen : ℕ
  deriving Repr, DecidableEq

inductive ChildHandle where
  | owned (p : Pid)
  | adopted (p : Pid)
  deriving Repr, DecidableEq

def ChildHandle.pid : ChildHandle → Pid
  | .owned p => p
  | .adopted p => p

def ChildHandle.isOwned : ChildHandle → Bool
  | .owned _ => true
  | .adopted _ => false

inductive WaitPid where
  | stillAlive
  | terminated
  | echild
  | err (e : Fin 134)
  deriving Repr, DecidableEq

/-- One round of `wait_adopted` (`worker.rs:94-118`); `alive` is the answer of `kill(pid, 0)`. -/
def waitAdoptedPoll (w : WaitPid) (alive : Bool) : Option ExitStatus :=
  match w with
  | .stillAlive => none
  | .terminated => some ⟨0⟩
  | .echild => if alive then none else some ⟨0⟩
  | .err e => some ⟨e⟩

inductive WaitAnswer where
  | exited
  | ioError
  | polled (w : WaitPid) (alive : Bool)
  deriving Repr, DecidableEq

/-! ### The two polls (`worker.rs:30-56`, `worker.rs:320-386`) -/

inductive SuccessorOutcome where
  | adopted (generation : ℕ)
  | timeout
  deriving Repr, DecidableEq

inductive MonitorOutcome where
  | readopted (generation : ℕ)
  | lost
  deriving Repr, DecidableEq

def successorWaitTimeout : ℕ := 5000
def successorLossGrace : ℕ := 3000

variable {ι : Type}

/-- One round of `wait_for_successor` (`worker.rs:326-336`). -/
def waitForSuccessorPoll (link : WorkerLink ι) (oldGen deadline now : ℕ) :
    Option SuccessorOutcome :=
  match link.lastGeneration with
  | some seen =>
    if oldGen < seen then some (.adopted seen)
    else if deadline ≤ now then some .timeout else none
  | none => if deadline ≤ now then some .timeout else none

/-- One round of `monitor_successor` (`worker.rs:363-385`): an outcome, or the new `absent_since`
and `current_pid`. -/
def monitorSuccessorPoll (link : WorkerLink ι) (currentPid : Option Pid)
    (monitoredGen lossGrace : ℕ) (absentSince : Option ℕ) (now : ℕ) : MonitorOutcome ⊕ (Option ℕ × Option Pid) :=
  match link.lastGeneration.filter (monitoredGen < ·) with
  | some g => .inl (.readopted g)
  | none => match link.writer, absentSince with
    | some _, _ => .inr (none, link.lastPid <|> currentPid)
    | none, none => .inr (some now, currentPid)
    | none, some t => if lossGrace ≤ now - t then .inl .lost else .inr (some t, currentPid)

/-! ### The loop and its surroundings (`worker.rs:125-311`) -/

/-- Where `supervise_role` is: at the loop head with the handle in `next`, about to read the link,
in `child.wait()`, past `watchdog_record_exit`, in `wait_for_successor`, at the head of
`supervise_adopted_successor`'s loop, in `monitor_successor`, in a sleep before the next round, or
returned. -/
inductive RolePc where
  | head (next : Option ChildHandle)
  | snapshot (child : ChildHandle)
  | waiting (child : ChildHandle) (preUpgradeGen : ℕ)
  | exited (child : ChildHandle) (preUpgradeGen : ℕ) (exitStatus : ExitStatus) (backoff : ℕ)
  | awaiting (child : ChildHandle) (preUpgradeGen deadline wake backoff : ℕ)
  | adopting (generation : ℕ)
  | monitoring (generation : ℕ) (absentSince : Option ℕ) (wake : ℕ)
  | sleeping (wake : ℕ)
  | done
  deriving Repr, DecidableEq

/-- What the run is judged by: the exit of the current worker, the fast exits the watchdog has
counted before and after it recorded an exit (of a process with the given status), a call of
`spawn_fn`, a call of `wait_for_successor`. -/
inductive RoleEvent where
  | exited (child : ChildHandle) (exitStatus : ExitStatus)
  | recorded (child : ChildHandle) (exitStatus : Option ExitStatus) (before after : ℕ)
  | spawnFn
  | waitForSuccessor (child : ChildHandle) (preUpgradeGen : ℕ)
  deriving Repr, DecidableEq

structure Role where
  name : RoleName
  shutdown : Bool
  currentPid : Option Pid
  currentGeneration : ℕ
  watchdog : WatchdogState
  link : WorkerLink ℕ
  pc : RolePc
  procs : Pid → Option Proc
  conns : List Conn
  now : ℕ
  log : List RoleEvent

def RolePc.running : RolePc → Option ChildHandle
  | .head next => next
  | .snapshot child => some child
  | .waiting child _ => some child
  | _ => none

def Role.genOf (s : Role) (p : Pid) : Option ℕ := (s.procs p).map (·.gen)

def Role.exitOf (s : Role) (p : Pid) : Option ExitStatus := (s.procs p).bind (·.exit)

/-- What `child.wait()` returns. `waitpid` reports an end, and `kill` a missing process, only after
the end; an error is treated as status 0 (`worker.rs:211-214`). -/
def Role.waitStatus (s : Role) (child : ChildHandle) : WaitAnswer → Option ExitStatus
  | .exited => if child.isOwned then s.exitOf child.pid else none
  | .ioError => some ⟨0⟩
  | .polled w alive =>
    if child.isOwned then none
    else if (w = .terminated ∨ w = .echild ∧ alive = false) ∧ s.exitOf child.pid = none then none
    else waitAdoptedPoll w alive

inductive SupAct where
  | head (spawned : Option Pid)
  | snapshot
  | reap (r : WaitAnswer)
  | proceed
  | wake
  | pollSuccessor
  | adopt
  | pollMonitor
  deriving Repr, DecidableEq

inductive EnvAct where
  | shutdown
  | elapse (d : ℕ)
  | fork (p q : Pid)
  | reexec (p : Pid)
  | exit (p : Pid) (st : ExitStatus)
  | accept (p : Pid)
  | report (c : Conn) (st : WorkerStatus)
  | disconnect (c : Conn)
  | query (i : ℕ)
  | giveUp
  | takeWriter
  deriving Repr, DecidableEq

abbrev RoleAct := SupAct ⊕ EnvAct

def Role.addProc (s : Role) (p : Pid) (gen : ℕ) : Role :=
  { s with procs := Function.update s.procs p (some ⟨gen, none⟩) }

def Role.exitProc (s : Role) (p : Pid) (gen : ℕ) (st : ExitStatus) : Role :=
  { s with
    procs := Function.update s.procs p (some ⟨gen, some st⟩)
    log := match s.pc.running.filter (fun h => h.pid = p) with
      | some h => s.log ++ [.exited h st]
      | none => s.log }

def Role.spawn (s : Role) : Option Pid → Role
  | some p =>
    { s.addProc p 0 with
      currentGeneration := 0
      watchdog := s.watchdog.recordSpawn s.now
      currentPid := some p
      pc := .snapshot (.owned p)
      log := s.log ++ [.spawnFn] }
  | none =>
    { s with
      currentGeneration := 0
      watchdog := s.watchdog.recordSpawn s.now
      pc := .sleeping (s.now + 500)
      log := s.log ++ [.spawnFn] }

/-- `supervise_role` and what it calls (`worker.rs:136-311`), one step from one suspension to the
next. -/
def Role.supStep (s : Role) (a : SupAct) : Option Role :=
  match a, s.pc with
  | .head spawned, .head next =>
    if s.shutdown then some { s with pc := .done }
    else match next with
      | some h => some { s with currentPid := some h.pid, pc := .snapshot h }
      | none => if spawned.any (fun p => (s.procs p).isSome) then none else some (s.spawn spawned)
  | .snapshot, .snapshot child =>
    some { s with pc := .waiting child (s.link.lastGeneration.getD s.currentGeneration) }
  | .reap r, .waiting child base => match s.waitStatus child r with
    | none => none
    | some st =>
      let w := s.watchdog.recordExit st s.now
      some { s with
        currentPid := none
        watchdog := w
        pc := .exited child base st w.nextBackoff
        log := s.log ++ [.recorded child (s.exitOf child.pid) s.watchdog.consecutiveFastExits
          w.consecutiveFastExits] }
  | .proceed, .exited child base st backoff =>
    if s.shutdown then some { s with pc := .done }
    else if st.code = some upgradeCommitExitCode then
      some { s with
        pc := .awaiting child base (s.now + successorWaitTimeout) s.now backoff
        log := s.log ++ [.waitForSuccessor child base] }
    else some { s with pc := .sleeping (s.now + backoff) }
  | .wake, .sleeping t => if t ≤ s.now then some { s with pc := .head none } else none
  | .pollSuccessor, .awaiting child base deadline wake backoff =>
    if wake ≤ s.now then match waitForSuccessorPoll s.link base deadline s.now with
      | some (.adopted g) => some { s with pc := .adopting g }
      | some .timeout => some { s with pc := .sleeping (s.now + backoff) }
      | none => some { s with pc := .awaiting child base deadline (s.now + 50) backoff }
    else none
  | .adopt, .adopting g =>
    some { s with
      watchdog := s.watchdog.recordAdoption s.now
      currentPid := s.link.lastPid
      pc := .monitoring g none s.now }
  | .pollMonitor, .monitoring g absentSince wake =>
    if wake ≤ s.now then
      match monitorSuccessorPoll s.link s.currentPid g successorLossGrace absentSince s.now with
      | .inl (.readopted g') => some { s with pc := .adopting g' }
      | .inl .lost => some { s with currentPid := none, pc := .head none }
      | .inr (absent, pid) =>
        some { s with currentPid := pid, pc := .monitoring g absent (s.now + 100) }
    else none
  | _, _ => none

/-- What the workers, the other tasks and the clock do. A worker upgrades by its role's own way; its
reports carry its pid and its image's generation. -/
def Role.envStep (s : Role) : EnvAct → Option Role
  | .shutdown => some { s with shutdown := true }
  | .elapse d => some { s with now := s.now + d }
  | .fork p q => match s.procs p with
    | some ⟨gen, none⟩ =>
      if s.name.execsInPlace = false ∧ s.procs q = none then some (s.addProc q (gen + 1)) else none
    | _ => none
  | .reexec p => match s.procs p with
    | some ⟨gen, none⟩ => if s.name.execsInPlace then some (s.addProc p (gen + 1)) else none
    | _ => none
  | .exit p st => match s.procs p with
    | some ⟨gen, none⟩ =>
      if s.name.execsInPlace ∧ st.isCommit then none else some (s.exitProc p gen st)
    | _ => none
  | .accept p => match s.procs p with
    | some pr => some { s with
        link := s.link.accept
        conns := s.conns ++ [⟨s.link.accept.connEpoch, p, pr.gen⟩] }
    | none => none
  | .report c st =>
    if c ∈ s.conns ∧ st.pid = c.pid ∧ st.generation = c.gen then
      some { s with link := s.link.statusReport st }
    else none
  | .disconnect c =>
    if c ∈ s.conns then
      some { s with link := s.link.disconnect c.epoch, conns := s.conns.erase c }
    else none
  | .query i => (s.link.request i).map fun l => { s with link := l }
  | .giveUp => some { s with link := s.link.clearPending }
  | .takeWriter => some { s with link := s.link.takeWriter }

def Role.step (s : Role) : RoleAct → Option Role
  | .inl a => s.supStep a
  | .inr a => s.envStep a

/-- What a supervisor starts from: the processes there are (zombies included), none of them one that
cannot be, and what the previous supervisor passed on (`worker.rs:128-133`). -/
structure Boot (name : RoleName) where
  procs : Pid → Option Proc
  adoptedPid : Option Pid
  adoptedGen : ℕ
  now : ℕ
  noCommit : name.execsInPlace = true → ∀ p pr st, procs p = some pr → pr.exit = some st →
    st.isCommit = false

def Boot.cold (name : RoleName) : Boot name := ⟨fun _ => none, none, 0, 0, by simp⟩

def Boot.isProcessAlive {name : RoleName} (b : Boot name) (p : Pid) : Bool := (b.procs p).isSome

def Boot.next {name : RoleName} (b : Boot name) : Option ChildHandle :=
  b.adoptedPid.bind fun p => if b.isProcessAlive p then some (.adopted p) else none

def Role.start {name : RoleName} (b : Boot name) : Role where
  name := name
  shutdown := false
  currentPid := none
  currentGeneration := b.adoptedGen
  watchdog := if b.next.isSome then WatchdogState.new.recordAdoption b.now else .new
  link := .default
  pc := .head b.next
  procs := b.procs
  conns := []
  now := b.now
  log := []

/-! ### What a step can do -/

def RolePc.bereft : RolePc → Bool
  | .awaiting .. | .adopting _ | .monitoring .. | .sleeping _ => true
  | _ => false

def RolePc.between : RolePc → Bool
  | .adopting _ | .monitoring .. | .sleeping _ | .head none => true
  | _ => false

/-- The moves of `supervise_role`, those that end in the same kind of place taken together. -/
inductive SupMove (s : Role) : SupAct → Role → Prop where
  | stop (a : SupAct) : SupMove s a { s with pc := .done }
  | take (r : Option Pid) (child : ChildHandle) (hpc : s.pc = .head (some child)) :
      SupMove s (.head r) { s with currentPid := some child.pid, pc := .snapshot child }
  | spawn (r : Option Pid) (hpc : s.pc = .head none) (hnew : ∀ p, r = some p → s.procs p = none) :
      SupMove s (.head r) (s.spawn r)
  | snapshot (child : ChildHandle) (hpc : s.pc = .snapshot child) :
      SupMove s .snapshot
        { s with pc := .waiting child (s.link.lastGeneration.getD s.currentGeneration) }
  | reap (child : ChildHandle) (base : ℕ) (r : WaitAnswer) (st : ExitStatus)
      (hpc : s.pc = .waiting child base) (hst : s.waitStatus child r = some st) :
      SupMove s (.reap r) { s with
        currentPid := none
        watchdog := s.watchdog.recordExit st s.now
        pc := .exited child base st (s.watchdog.recordExit st s.now).nextBackoff
        log := s.log ++ [.recorded child (s.exitOf child.pid) s.watchdog.consecutiveFastExits
          (s.watchdog.recordExit st s.now).consecutiveFastExits] }
  | commit (child : ChildHandle) (base : ℕ) (st : ExitStatus) (backoff : ℕ)
      (hpc : s.pc = .exited child base st backoff) (hst : st.isCommit = true) :
      SupMove s .proceed { s with
        pc := .awaiting child base (s.now + successorWaitTimeout) s.now backoff
        log := s.log ++ [.waitForSuccessor child base] }
  | crash (child : ChildHandle) (base : ℕ) (st : ExitStatus) (backoff : ℕ)
      (hpc : s.pc = .exited child base st backoff) (hst : st.isCommit = false) :
      SupMove s .proceed { s with pc := .sleeping (s.now + backoff) }
  | again (child : ChildHandle) (base deadline wake wake' backoff : ℕ)
      (hpc : s.pc = .awaiting child base deadline wake backoff) :
      SupMove s .pollSuccessor { s with pc := .awaiting child base deadline wake' backoff }
  | settle (a : SupAct) (pc : RolePc) (pid : Option Pid) (w : WatchdogState)
      (hfrom : s.pc.bereft = true) (hto : pc.between = true) :
      SupMove s a { s with currentPid := pid, watchdog := w, pc := pc }

theorem Role.spawn_log (s : Role) (r : Option Pid) : (s.spawn r).log = s.log ++ [.spawnFn] := by
  cases r <;> rfl

theorem Role.supStep_cases {s t : Role} {a : SupAct} (h : s.supStep a = some t) :
    SupMove s a t := by
  unfold Role.supStep at h
  split at h
  case h_1 spawned next hpc =>
    split at h
    · cases h
      exact .stop _
    · cases next with
      | some child =>
        cases h
        exact .take _ child hpc
      | none =>
        simp only [Option.ite_none_left_eq_some, Option.some.injEq] at h
        obtain ⟨hnew, rfl⟩ := h
        apply SupMove.spawn spawned hpc
        rintro p rfl
        simpa using hnew
  case h_2 child hpc =>
    cases h
    exact .snapshot child hpc
  case h_3 r child base hpc =>
    split at h
    · cases h
    · next st hst =>
      cases h
      exact .reap child base r st hpc hst
  case h_4 child base st backoff hpc =>
    split at h
    · cases h
      exact .stop _
    · split at h
      · next hcode =>
        cases h
        exact .commit child base st backoff hpc (by simp [ExitStatus.isCommit, hcode])
      · next hcode =>
        cases h
        exact .crash child base st backoff hpc (by simp [ExitStatus.isCommit, hcode])
  case h_5 wake hpc =>
    simp only [Option.ite_none_right_eq_some, Option.some.injEq] at h
    obtain ⟨-, rfl⟩ := h
    exact .settle _ _ _ _ (by simp [hpc, RolePc.bereft]) rfl
  case h_6 child base deadline wake backoff hpc =>
    simp only [Option.ite_none_right_eq_some] at h
    have hfrom : s.pc.bereft = true := by simp [hpc, RolePc.bereft]
    obtain ⟨-, h⟩ := h
    split at h <;> cases h
    · exact .settle _ _ _ _ hfrom rfl
    · exact .settle _ _ _ _ hfrom rfl
    · exact .again child base deadline wake _ backoff hpc
  case h_7 g hpc =>
    cases h
    exact .settle _ _ _ _ (by simp [hpc, RolePc.bereft]) rfl
  case h_8 g absentSince wake hpc =>
    simp only [Option.ite_none_right_eq_some] at h
    have hfrom : s.pc.bereft = true := by simp [hpc, RolePc.bereft]
    obtain ⟨-, h⟩ := h
    split at h <;> cases h <;> exact .settle _ _ _ _ hfrom rfl
  case h_9 => cases h

/-- The link holds a generation above `base`. -/
def WorkerLink.above (l : WorkerLink ι) (base : ℕ) : Bool := l.lastGeneration.any (base < ·)

theorem WorkerLink.filter_below {l : WorkerLink ι} {base : ℕ} (h : l.above base = false) :
    l.lastGeneration.filter (base < ·) = none := by
  rw [Option.filter_eq_none_iff]
  intro g hg
  simpa [WorkerLink.above, hg] using h

theorem waitForSuccessorPoll_above (l : WorkerLink ι) (base deadline now : ℕ)
    (h : l.above base = true) :
    ∃ g, base < g ∧ waitForSuccessorPoll l base deadline now = some (.adopted g) := by
  obtain ⟨g, hg, hlt⟩ := (Option.any_eq_true _ _).mp h
  simp only [decide_eq_true_eq] at hlt
  exact ⟨g, hlt, by simp [waitForSuccessorPoll, hg, hlt]⟩

theorem waitForSuccessorPoll_below (l : WorkerLink ι) (base deadline now : ℕ)
    (h : l.above base = false) :
    waitForSuccessorPoll l base deadline now = if deadline ≤ now then some .timeout else none := by
  unfold waitForSuccessorPoll
  cases hg : l.lastGeneration with
  | none => rfl
  | some g =>
    have hle : ¬ base < g := by simpa [WorkerLink.above, hg] using h
    simp only [if_neg hle]

/-- What a look of `wait_for_successor` does. -/
theorem Role.pollSuccessor_cases {s t : Role} (h : s.supStep .pollSuccessor = some t) :
    ∃ child base deadline wake backoff, s.pc = .awaiting child base deadline wake backoff ∧
      ((∃ g, base < g ∧ t = { s with pc := .adopting g }) ∨
        (s.link.above base = false ∧ deadline ≤ s.now ∧
          t = { s with pc := .sleeping (s.now + backoff) }) ∨
        (s.link.above base = false ∧ s.now < deadline ∧
          t = { s with pc := .awaiting child base deadline (s.now + 50) backoff })) := by
  unfold Role.supStep at h
  split at h
  case h_6 child base deadline wake backoff _ hpc =>
    refine ⟨child, base, deadline, wake, backoff, hpc, ?_⟩
    simp only [Option.ite_none_right_eq_some] at h
    obtain ⟨-, h⟩ := h
    cases hab : s.link.above base with
    | true =>
      obtain ⟨g, hlt, hpoll⟩ := waitForSuccessorPoll_above s.link base deadline s.now hab
      rw [hpoll] at h
      cases h
      exact Or.inl ⟨g, hlt, rfl⟩
    | false =>
      rw [waitForSuccessorPoll_below s.link base deadline s.now hab] at h
      by_cases hd : deadline ≤ s.now
      · rw [if_pos hd] at h
        cases h
        exact Or.inr (Or.inl ⟨rfl, hd, rfl⟩)
      · rw [if_neg hd] at h
        cases h
        exact Or.inr (Or.inr ⟨rfl, by omega, rfl⟩)
  all_goals simp_all

/-- What a look of `monitor_successor` can answer. -/
theorem monitorSuccessorPoll_cases (l : WorkerLink ι) (pid : Option Pid) (g grace : ℕ)
    (absentSince : Option ℕ) (now : ℕ) :
    (∃ g', l.lastGeneration = some g' ∧ g < g' ∧
      monitorSuccessorPoll l pid g grace absentSince now = .inl (.readopted g')) ∨
    (l.above g = false ∧
      ((∃ w, l.writer = some w ∧ monitorSuccessorPoll l pid g grace absentSince now =
          .inr (none, l.lastPid <|> pid)) ∨
        (l.writer = none ∧ absentSince = none ∧
          monitorSuccessorPoll l pid g grace absentSince now = .inr (some now, pid)) ∨
        (∃ since, l.writer = none ∧ absentSince = some since ∧ grace ≤ now - since ∧
          monitorSuccessorPoll l pid g grace absentSince now = .inl .lost) ∨
        (∃ since, l.writer = none ∧ absentSince = some since ∧ now - since < grace ∧
          monitorSuccessorPoll l pid g grace absentSince now = .inr (some since, pid)))) := by
  unfold monitorSuccessorPoll
  cases hab : l.above g with
  | true =>
    obtain ⟨g', hg', hlt⟩ := (Option.any_eq_true _ _).mp hab
    have hf : l.lastGeneration.filter (g < ·) = some g' := by
      rw [Option.filter_eq_some_iff]
      exact ⟨hg', hlt⟩
    exact Or.inl ⟨g', hg', by simpa using hlt, by simp only [hf]⟩
  | false =>
    refine Or.inr ⟨rfl, ?_⟩
    simp only [WorkerLink.filter_below hab]
    cases hwr : l.writer with
    | some w => exact Or.inl ⟨w, rfl, rfl⟩
    | none =>
      cases absentSince with
      | none => exact Or.inr (Or.inl ⟨rfl, rfl, rfl⟩)
      | some since =>
        by_cases hlost : grace ≤ now - since
        · exact Or.inr (Or.inr (Or.inl ⟨since, rfl, rfl, hlost, if_pos hlost⟩))
        · exact Or.inr (Or.inr (Or.inr ⟨since, rfl, rfl, by omega, if_neg hlost⟩))

/-- What such a look does to the loop. -/
theorem Role.pollMonitor_cases {s t : Role} (h : s.supStep .pollMonitor = some t) :
    ∃ g absentSince wake, s.pc = .monitoring g absentSince wake ∧ wake ≤ s.now ∧
      ((∃ g', g < g' ∧ t = { s with pc := .adopting g' }) ∨
        (∃ since, absentSince = some since ∧ s.link.writer = none ∧ s.link.above g = false ∧
          successorLossGrace ≤ s.now - since ∧ t = { s with currentPid := none, pc := .head none }) ∨
        (∃ w pid, s.link.writer = some w ∧
          t = { s with currentPid := pid, pc := .monitoring g none (s.now + 100) }) ∨
        (s.link.writer = none ∧ absentSince = none ∧
          t = { s with pc := .monitoring g (some s.now) (s.now + 100) }) ∨
        (∃ since, absentSince = some since ∧ s.link.writer = none ∧
          s.now - since < successorLossGrace ∧
          t = { s with pc := .monitoring g (some since) (s.now + 100) })) := by
  unfold Role.supStep at h
  split at h
  case h_8 g absentSince wake _ hpc =>
    simp only [Option.ite_none_right_eq_some] at h
    obtain ⟨hw, h⟩ := h
    refine ⟨g, absentSince, wake, hpc, hw, ?_⟩
    rcases monitorSuccessorPoll_cases s.link s.currentPid g successorLossGrace absentSince s.now with
      ⟨g', -, hlt, hpoll⟩ | ⟨hab, ⟨w, hwr, hpoll⟩ | ⟨hwr, habs, hpoll⟩ |
        ⟨since, hwr, habs, hlost, hpoll⟩ | ⟨since, hwr, habs, hkeep, hpoll⟩⟩ <;>
      rw [hpoll] at h <;> cases h
    · exact Or.inl ⟨g', hlt, rfl⟩
    · exact Or.inr (Or.inr (Or.inl ⟨w, _, hwr, rfl⟩))
    · exact Or.inr (Or.inr (Or.inr (Or.inl ⟨hwr, habs, rfl⟩)))
    · exact Or.inr (Or.inl ⟨since, habs, hwr, hab, hlost, rfl⟩)
    · exact Or.inr (Or.inr (Or.inr (Or.inr ⟨since, habs, hwr, hkeep, rfl⟩)))
  all_goals simp_all

theorem Role.reap_cases {s t : Role} {r : WaitAnswer} (h : s.supStep (.reap r) = some t) :
    ∃ child base st, s.pc = .waiting child base ∧ s.waitStatus child r = some st ∧
      t = { s with
        currentPid := none
        watchdog := s.watchdog.recordExit st s.now
        pc := .exited child base st (s.watchdog.recordExit st s.now).nextBackoff
        log := s.log ++ [.recorded child (s.exitOf child.pid) s.watchdog.consecutiveFastExits
          (s.watchdog.recordExit st s.now).consecutiveFastExits] } := by
  unfold Role.supStep at h
  split at h
  case h_3 r' child base ha hpc =>
    cases ha
    split at h
    · cases h
    · next st hst =>
      cases h
      exact ⟨child, base, st, hpc, hst, rfl⟩
  all_goals simp_all

theorem Role.wake_cases {s t : Role} (h : s.supStep .wake = some t) :
    ∃ wake, s.pc = .sleeping wake ∧ wake ≤ s.now ∧ t = { s with pc := .head none } := by
  unfold Role.supStep at h
  split at h
  case h_5 wake _ hpc =>
    simp only [Option.ite_none_right_eq_some, Option.some.injEq] at h
    exact ⟨wake, hpc, h.1, h.2.symm⟩
  all_goals simp_all

theorem Role.adopt_cases {s t : Role} (h : s.supStep .adopt = some t) :
    ∃ g, s.pc = .adopting g ∧ t = { s with
      watchdog := s.watchdog.recordAdoption s.now
      currentPid := s.link.lastPid
      pc := .monitoring g none s.now } := by
  unfold Role.supStep at h
  split at h
  case h_7 g _ hpc =>
    cases h
    exact ⟨g, hpc, rfl⟩
  all_goals simp_all

/-- The moves up to the end of a worker's exit. -/
def SupAct.early : SupAct → Bool
  | .head _ | .snapshot | .reap _ | .proceed => true
  | _ => false

theorem Role.supStep_early {s t : Role} {a : SupAct} (h : s.supStep a = some t)
    (ha : a.early = true) : s.pc.bereft = false := by
  cases hpc : s.pc <;> cases a <;> simp_all [Role.supStep, SupAct.early, RolePc.bereft]

theorem Role.exitOf_addProc (s : Role) (p : Pid) (gen : ℕ) (q : Pid) (h : s.exitOf p = none) :
    (s.addProc p gen).exitOf q = s.exitOf q := by
  by_cases hq : q = p
  · subst hq
    rw [h]
    simp [Role.exitOf, Role.addProc]
  · simp [Role.exitOf, Role.addProc, Function.update_of_ne hq]

theorem Role.genOf_addProc (s : Role) (p : Pid) (gen : ℕ) (q : Pid) :
    (s.addProc p gen).genOf q = if q = p then some gen else s.genOf q := by
  by_cases hq : q = p
  · subst hq
    simp [Role.genOf, Role.addProc]
  · simp [Role.genOf, Role.addProc, hq]

theorem Role.exitOf_exitProc (s : Role) (p : Pid) (gen : ℕ) (st : ExitStatus) (q : Pid) :
    (s.exitProc p gen st).exitOf q = if q = p then some st else s.exitOf q := by
  by_cases hq : q = p
  · subst hq
    simp [Role.exitOf, Role.exitProc]
  · simp [Role.exitOf, Role.exitProc, hq]

theorem Role.genOf_exitProc (s : Role) (p : Pid) (pr : Proc) (st : ExitStatus) (q : Pid)
    (h : s.procs p = some pr) : (s.exitProc p pr.gen st).genOf q = s.genOf q := by
  by_cases hq : q = p
  · subst hq
    simp [Role.genOf, Role.exitProc, h]
  · simp [Role.genOf, Role.exitProc, hq]

theorem Role.fork_cases {s t : Role} {p q : Pid} (h : s.envStep (.fork p q) = some t) :
    ∃ gen, s.procs p = some ⟨gen, none⟩ ∧ s.name.execsInPlace = false ∧ s.procs q = none ∧
      t = s.addProc q (gen + 1) := by
  simp only [Role.envStep] at h
  split at h
  · next gen hp =>
    simp only [Option.ite_none_right_eq_some, Option.some.injEq] at h
    exact ⟨gen, hp, h.1.1, h.1.2, h.2.symm⟩
  · cases h

theorem Role.reexec_cases {s t : Role} {p : Pid} (h : s.envStep (.reexec p) = some t) :
    ∃ gen, s.procs p = some ⟨gen, none⟩ ∧ s.name.execsInPlace = true ∧
      t = s.addProc p (gen + 1) := by
  simp only [Role.envStep] at h
  split at h
  · next gen hp =>
    simp only [Option.ite_none_right_eq_some, Option.some.injEq] at h
    exact ⟨gen, hp, h.1, h.2.symm⟩
  · cases h

theorem Role.exit_cases {s t : Role} {p : Pid} {st : ExitStatus}
    (h : s.envStep (.exit p st) = some t) :
    ∃ gen, s.procs p = some ⟨gen, none⟩ ∧ (s.name.execsInPlace = true → st.isCommit = false) ∧
      t = s.exitProc p gen st := by
  simp only [Role.envStep] at h
  split at h
  · next gen hp =>
    simp only [Option.ite_none_left_eq_some, Option.some.injEq, not_and, Bool.not_eq_true] at h
    exact ⟨gen, hp, h.1, h.2.symm⟩
  · cases h

theorem Role.accept_cases {s t : Role} {p : Pid} (h : s.envStep (.accept p) = some t) :
    ∃ pr, s.procs p = some pr ∧ t = { s with
      link := s.link.accept
      conns := s.conns ++ [⟨s.link.accept.connEpoch, p, pr.gen⟩] } := by
  simp only [Role.envStep] at h
  split at h
  · next pr hp =>
    cases h
    exact ⟨pr, hp, rfl⟩
  · cases h

theorem Role.report_cases {s t : Role} {c : Conn} {st : WorkerStatus}
    (h : s.envStep (.report c st) = some t) :
    (c ∈ s.conns ∧ st.pid = c.pid ∧ st.generation = c.gen) ∧
      t = { s with link := s.link.statusReport st } := by
  simp only [Role.envStep, Option.ite_none_right_eq_some, Option.some.injEq] at h
  exact ⟨h.1, h.2.symm⟩

theorem Role.disconnect_cases {s t : Role} {c : Conn}
    (h : s.envStep (.disconnect c) = some t) :
    c ∈ s.conns ∧
      t = { s with link := s.link.disconnect c.epoch, conns := s.conns.erase c } := by
  simp only [Role.envStep, Option.ite_none_right_eq_some, Option.some.injEq] at h
  exact ⟨h.1, h.2.symm⟩

theorem Role.query_cases {s t : Role} {i : ℕ} (h : s.envStep (.query i) = some t) :
    s.link.writer.isSome = true ∧
      t = { s with link := { s.link with pendingStatus := some i } } := by
  simp only [Role.envStep, WorkerLink.request, Option.map_eq_some_iff,
    Option.ite_none_right_eq_some, Option.some.injEq] at h
  obtain ⟨l, ⟨hw, rfl⟩, rfl⟩ := h
  exact ⟨hw, rfl⟩

/-- The moves of the surroundings, those that leave the processes, the flag and the clock alone
taken together. -/
inductive EnvMove (s : Role) : EnvAct → Role → Prop where
  | shutdown : EnvMove s .shutdown { s with shutdown := true }
  | elapse (d : ℕ) : EnvMove s (.elapse d) { s with now := s.now + d }
  | fork (p q : Pid) (gen : ℕ) (hp : s.procs p = some ⟨gen, none⟩)
      (hplace : s.name.execsInPlace = false) (hq : s.procs q = none) :
      EnvMove s (.fork p q) (s.addProc q (gen + 1))
  | reexec (p : Pid) (gen : ℕ) (hp : s.procs p = some ⟨gen, none⟩)
      (hplace : s.name.execsInPlace = true) : EnvMove s (.reexec p) (s.addProc p (gen + 1))
  | exit (p : Pid) (gen : ℕ) (st : ExitStatus) (hp : s.procs p = some ⟨gen, none⟩)
      (hst : s.name.execsInPlace = true → st.isCommit = false) :
      EnvMove s (.exit p st) (s.exitProc p gen st)
  | link (a : EnvAct) (link : WorkerLink ℕ) (conns : List Conn) :
      EnvMove s a { s with link := link, conns := conns }

theorem Role.envStep_cases {s t : Role} {a : EnvAct} (h : s.envStep a = some t) :
    EnvMove s a t := by
  cases a with
  | shutdown =>
    cases h
    exact .shutdown
  | elapse d =>
    cases h
    exact .elapse d
  | fork p q =>
    obtain ⟨gen, hp, hplace, hq, rfl⟩ := Role.fork_cases h
    exact .fork p q gen hp hplace hq
  | reexec p =>
    obtain ⟨gen, hp, hplace, rfl⟩ := Role.reexec_cases h
    exact .reexec p gen hp hplace
  | exit p st =>
    obtain ⟨gen, hp, hst, rfl⟩ := Role.exit_cases h
    exact .exit p gen st hp hst
  | accept p =>
    obtain ⟨pr, -, rfl⟩ := Role.accept_cases h
    exact .link _ _ _
  | report c st =>
    obtain ⟨-, rfl⟩ := Role.report_cases h
    exact .link _ _ s.conns
  | disconnect c =>
    obtain ⟨-, rfl⟩ := Role.disconnect_cases h
    exact .link _ _ _
  | query i =>
    obtain ⟨-, rfl⟩ := Role.query_cases h
    exact .link _ _ s.conns
  | giveUp | takeWriter =>
    cases h
    exact .link _ _ s.conns

theorem SupMove.frame {s t : Role} {a : SupAct} (h : SupMove s a t) :
    t.name = s.name ∧ t.link = s.link ∧ t.conns = s.conns ∧ (∀ p, t.exitOf p = s.exitOf p) ∧
      ∀ p g, s.genOf p = some g → t.genOf p = some g := by
  cases h with
  | spawn r hpc hnew =>
    cases r with
    | none => exact ⟨rfl, rfl, rfl, fun _ => rfl, fun _ _ hp => hp⟩
    | some p =>
      have hp := hnew p rfl
      refine ⟨rfl, rfl, rfl, fun q => s.exitOf_addProc p 0 q (by simp [Role.exitOf, hp]), ?_⟩
      intro q g hq
      have hne : q ≠ p := by
        rintro rfl
        simp [Role.genOf, hp] at hq
      exact ((s.genOf_addProc p 0 q).trans (if_neg hne)).trans hq
  | _ => exact ⟨rfl, rfl, rfl, fun _ => rfl, fun _ _ hp => hp⟩

theorem Role.envStep_frame {s t : Role} {a : EnvAct} (h : s.envStep a = some t) :
    t.name = s.name ∧ t.pc = s.pc ∧ t.currentGeneration = s.currentGeneration ∧
      (s.name.execsInPlace = false → ∀ p g, s.genOf p = some g → t.genOf p = some g) ∧
      ∀ c b, .waitForSuccessor c b ∈ t.log ↔ .waitForSuccessor c b ∈ s.log := by
  cases Role.envStep_cases h with
  | fork p q gen hp hplace hq =>
    refine ⟨rfl, rfl, rfl, ?_, fun _ _ => Iff.rfl⟩
    intro _ r g hr
    have hne : r ≠ q := by
      rintro rfl
      simp [Role.genOf, hq] at hr
    rw [s.genOf_addProc, if_neg hne, hr]
  | reexec p gen hp hplace =>
    exact ⟨rfl, rfl, rfl, fun hno => by simp [hplace] at hno, fun _ _ => Iff.rfl⟩
  | exit p gen st hp hst =>
    refine ⟨rfl, rfl, rfl, fun _ r g hr => by rw [s.genOf_exitProc p _ st r hp, hr], ?_⟩
    intro c b
    simp only [Role.exitProc]
    split <;> simp
  | shutdown | elapse | link => exact ⟨rfl, rfl, rfl, fun _ _ _ hp => hp, fun _ _ => Iff.rfl⟩

theorem Role.step_name {s t : Role} {a : RoleAct} (h : s.step a = some t) : t.name = s.name := by
  cases a with
  | inl a => exact (Role.supStep_cases h).frame.1
  | inr a => exact (Role.envStep_frame h).1

theorem Role.envStep_exitOf {s t : Role} {a : EnvAct} (h : s.envStep a = some t) (p : Pid)
    (st : ExitStatus) (hp : t.exitOf p = some st) :
    s.exitOf p = some st ∨ (s.name.execsInPlace = true → st.isCommit = false) := by
  cases Role.envStep_cases h with
  | fork q r gen hq hplace hr =>
    exact Or.inl (by rwa [s.exitOf_addProc r _ p (by simp [Role.exitOf, hr])] at hp)
  | reexec q gen hq hplace =>
    exact Or.inl (by rwa [s.exitOf_addProc q _ p (by simp [Role.exitOf, hq])] at hp)
  | exit q gen st' hq hst =>
    rw [s.exitOf_exitProc] at hp
    split at hp
    · cases hp
      exact Or.inr hst
    · exact Or.inl hp
  | shutdown | elapse | link => exact Or.inl hp

theorem Role.envStep_exited {s t : Role} {a : EnvAct} (h : s.envStep a = some t) (p : Pid)
    (st : ExitStatus) (hp : s.exitOf p = some st) : t.exitOf p = some st := by
  cases Role.envStep_cases h with
  | fork q r gen hq hplace hr =>
    rw [s.exitOf_addProc r _ p (by simp [Role.exitOf, hr])]
    exact hp
  | reexec q gen hq hplace =>
    rw [s.exitOf_addProc q _ p (by simp [Role.exitOf, hq])]
    exact hp
  | exit q gen st' hq hst =>
    have hne : p ≠ q := by
      rintro rfl
      simp [Role.exitOf, hq] at hp
    rw [s.exitOf_exitProc, if_neg hne]
    exact hp
  | shutdown | elapse | link => exact hp

/-- Nothing outside the loop adds to the log but the exit of the current worker. -/
theorem Role.envStep_log {s t : Role} {a : EnvAct} (h : s.envStep a = some t) :
    t.log = s.log ∨ ∃ child st, t.log = s.log ++ [.exited child st] := by
  cases Role.envStep_cases h with
  | exit q gen st hq hst =>
    simp only [Role.exitProc]
    split
    · next child _ => exact Or.inr ⟨child, st, rfl⟩
    · exact Or.inl rfl
  | _ => exact Or.inl rfl

theorem Role.envStep_watchdog {s t : Role} {a : EnvAct} (h : s.envStep a = some t) :
    t.watchdog = s.watchdog := by
  cases Role.envStep_cases h <;> rfl

/-- Only `record_exit` changes the count of fast exits. -/
theorem Role.supStep_fastExits {s t : Role} {a : SupAct} (h : s.supStep a = some t)
    (ha : ∀ r, a ≠ .reap r) :
    t.watchdog.consecutiveFastExits = s.watchdog.consecutiveFastExits := by
  cases a with
  | reap r => exact absurd rfl (ha r)
  | wake =>
    obtain ⟨wake, -, -, rfl⟩ := Role.wake_cases h
    rfl
  | adopt =>
    obtain ⟨g, -, rfl⟩ := Role.adopt_cases h
    rfl
  | pollSuccessor =>
    obtain ⟨child, base, deadline, wake, backoff, -, hlook⟩ := Role.pollSuccessor_cases h
    rcases hlook with ⟨g, -, rfl⟩ | ⟨-, -, rfl⟩ | ⟨-, -, rfl⟩ <;> rfl
  | pollMonitor =>
    obtain ⟨g, absentSince, wake, -, -, hlook⟩ := Role.pollMonitor_cases h
    rcases hlook with ⟨g', -, rfl⟩ | ⟨since, -, -, -, -, rfl⟩ | ⟨w, pid, -, rfl⟩ |
      ⟨-, -, rfl⟩ | ⟨since, -, -, -, rfl⟩ <;> rfl
  | head r =>
    have hearly := Role.supStep_early h rfl
    cases Role.supStep_cases h with
    | spawn r hpc hnew => cases r <;> rfl
    | settle a pc pid w hfrom hto =>
      rw [hearly] at hfrom
      cases hfrom
    | stop | take r child hpc => rfl
  | snapshot | proceed =>
    have hearly := Role.supStep_early h rfl
    cases Role.supStep_cases h with
    | settle a pc pid w hfrom hto =>
      rw [hearly] at hfrom
      cases hfrom
    | _ => rfl

/-- What a step does to the processes: nothing, or one is spawned, forked, replaced by its own next
image, or ended. -/
inductive ProcMove (s : Role) : RoleAct → (Pid → Option Proc) → Prop where
  | same (a : RoleAct) : ProcMove s a s.procs
  | spawn (p : Pid) (hp : s.procs p = none) :
      ProcMove s (.inl (.head (some p))) (Function.update s.procs p (some ⟨0, none⟩))
  | fork (p q : Pid) (gen : ℕ) (hp : s.procs p = some ⟨gen, none⟩) (hq : s.procs q = none) :
      ProcMove s (.inr (.fork p q)) (Function.update s.procs q (some ⟨gen + 1, none⟩))
  | reexec (p : Pid) (gen : ℕ) (hp : s.procs p = some ⟨gen, none⟩) :
      ProcMove s (.inr (.reexec p)) (Function.update s.procs p (some ⟨gen + 1, none⟩))
  | exit (p : Pid) (gen : ℕ) (st : ExitStatus) (hp : s.procs p = some ⟨gen, none⟩) :
      ProcMove s (.inr (.exit p st)) (Function.update s.procs p (some ⟨gen, some st⟩))

theorem Role.supStep_procs {s t : Role} {a : SupAct} (h : s.supStep a = some t) :
    ProcMove s (.inl a) t.procs := by
  cases Role.supStep_cases h with
  | spawn r hpc hnew =>
    cases r with
    | none => exact .same _
    | some p => exact .spawn p (hnew p rfl)
  | _ => exact .same _

theorem Role.envStep_procs {s t : Role} {a : EnvAct} (h : s.envStep a = some t) :
    ProcMove s (.inr a) t.procs := by
  cases Role.envStep_cases h with
  | fork p q gen hp hplace hq => exact .fork p q gen hp hq
  | reexec p gen hp hplace => exact .reexec p gen hp
  | exit p gen st hp hst => exact .exit p gen st hp
  | shutdown | elapse | link => exact .same _

theorem Role.step_procs {s t : Role} {a : RoleAct} (h : s.step a = some t) :
    ProcMove s a t.procs := by
  cases a with
  | inl a => exact Role.supStep_procs h
  | inr a => exact Role.envStep_procs h

theorem Role.waitStatus_small (s : Role) (child : ChildHandle) (r : WaitAnswer) (st : ExitStatus)
    (hr : child.isOwned = false ∨ r = .ioError) (h : s.waitStatus child r = some st) :
    st.raw < 256 := by
  cases r with
  | exited =>
    rcases hr with hr | hr
    · simp [Role.waitStatus, hr] at h
    · simp at hr
  | ioError =>
    cases h
    simp
  | polled w alive =>
    simp only [Role.waitStatus, Option.ite_none_left_eq_some] at h
    obtain ⟨-, -, h⟩ := h
    cases w with
    | stillAlive => simp [waitAdoptedPoll] at h
    | terminated =>
      cases h
      simp
    | echild =>
      simp only [waitAdoptedPoll, Option.ite_none_left_eq_some, Option.some.injEq] at h
      obtain ⟨-, rfl⟩ := h
      simp
    | err e =>
      cases h
      exact Nat.lt_trans e.isLt (by decide)

/-- The process is there and has not ended. -/
def Role.runs (s : Role) (p : Pid) : Bool := (s.procs p).any fun pr => pr.exit = none

/-- The connection behind the link's writer, the newest of its epoch. -/
def Role.writerConn (s : Role) : Option Conn :=
  s.link.writer.bind fun e => s.conns.reverse.find? fun c => c.epoch = e

/-- A process that runs after a step ran before it, unless the step spawned or forked it. -/
theorem Role.runs_of_step {s t : Role} {a : RoleAct} (h : s.step a = some t) (p : Pid)
    (hp : t.runs p = true) :
    s.runs p = true ∨ s.procs p = none ∧ (a = .inl (.head (some p)) ∨ ∃ q, a = .inr (.fork q p)) := by
  unfold Role.runs at *
  have hmove := Role.step_procs h
  generalize t.procs = procs at hmove hp
  cases hmove with
  | same => exact Or.inl hp
  | spawn q hq =>
    by_cases hpq : p = q
    · subst hpq
      exact Or.inr ⟨hq, Or.inl rfl⟩
    · rw [Function.update_of_ne hpq] at hp
      exact Or.inl hp
  | fork q r gen _ hr =>
    by_cases hpr : p = r
    · subst hpr
      exact Or.inr ⟨hr, Or.inr ⟨q, rfl⟩⟩
    · rw [Function.update_of_ne hpr] at hp
      exact Or.inl hp
  | reexec q gen hq =>
    by_cases hpq : p = q
    · subst hpq
      exact Or.inl (by simp [hq])
    · rw [Function.update_of_ne hpq] at hp
      exact Or.inl hp
  | exit q gen st hq =>
    by_cases hpq : p = q
    · subst hpq
      simp at hp
    · rw [Function.update_of_ne hpq] at hp
      exact Or.inl hp

/-- One process, taken over from the previous supervisor. -/
def Boot.single (name : RoleName) (p : Pid) : Boot name where
  procs q := if q = p then some ⟨0, none⟩ else none
  adoptedPid := some p
  adoptedGen := 0
  now := 0
  noCommit := by
    intro _ q pr st hq hexit
    simp only [Option.ite_none_right_eq_some, Option.some.injEq] at hq
    obtain ⟨-, rfl⟩ := hq
    cases hexit

theorem Boot.single_runs {p q : Pid}
    (h : (if q = p then some (⟨0, none⟩ : Proc) else none).any (fun pr => pr.exit = none) = true) :
    q = p := by
  by_contra hq
  simp [hq] at h

def upgrading (epoch gen : ℕ) (p q : Pid) : List RoleAct :=
  [.inr (.accept p), .inr (.query 0),
    .inr (.report ⟨epoch, p, gen⟩ ⟨"processor", p, gen, 0, 0, none, none⟩), .inr .takeWriter,
    .inr (.disconnect ⟨epoch, p, gen⟩), .inr (.fork p q),
    .inr (.exit p (.exited upgradeCommitExitCode))]

end FiveNinesEcho.Supervisor
