import FiveNinesEcho.Processor.Registry

/-!
# One upgrade attempt (`processor/upgrade.rs:258-396`, `acceptor/upgrade.rs:49-149`)

`doUpgrade` and `doUpgradePlain` are the attempts of the processor and of the plain acceptor, step
by step, as state-keeping computations that a failing `?` leaves early and a commit leaves by
exiting the process. `Env` is everything the operating system and the child answer. The worker's
main loop passes the attempt's error on with a `?` of its own, so `runUpgrade` also says what
becomes of the worker.
-/

namespace FiveNinesEcho.Upgrade
open Handoff Processor

inductive Stop where
  | err (e : Error)
  | exit (code : ℕ)
  deriving Repr, DecidableEq

def osError (e : Option String) : Option Error := e.map (fun s => [s])

structure SessionsPipe where
  pipe : Option String
  clearRead : Fcntl
  setWrite : Fcntl

def makeSessionsPipe (p : SessionsPipe) : Option Error :=
  match p.pipe with
  | some e => some ["session handoff pipe", e]
  | none =>
    match context "clear CLOEXEC on session handoff read fd" p.clearRead.error with
    | some e => some e
    | none => context "set CLOEXEC on session handoff write fd" p.setWrite.error

inductive Writer where
  | ok
  | join (e : String)
  | write (e : String)
  deriving Repr, DecidableEq

def finishSessionsPipeWriter : Writer → Option Error
  | .ok => none
  | .join e => some ["session handoff writer join", e]
  | .write e => some ["write session handoff pipe", e]

/-- What an attempt meets, step by step. The plain acceptor has no sessions, no payload pipe and no
payload writer. -/
structure Env where
  freebsd : Bool
  targetOverridden : Bool
  intoStd : Option String
  clearCloexec : Fcntl
  session : Fd → SessionEnv
  readyPipe : ReadyPipe
  toJson : Option String
  sessionsPipe : SessionsPipe
  capMode : CapMode
  inCapsicumMode : Bool
  elfHasInterpreter : Bool
  spawn : Option String
  ready : Ready
  writer : Writer
  setNonblocking : Option String
  fromStd : Option String
  restoreCloexec : Fcntl

/-! ### The steps -/

section Steps
variable {σ α : Type} (fds : (FdTable → FdTable) → σ → σ)

def check (r : Option Error) : EStateM Stop σ Unit :=
  match r with
  | none => pure ()
  | some e => throw (.err e)

def checkOwner (fd : Fd) (r : Option Error) : EStateM Stop σ Unit :=
  match r with
  | none => pure ()
  | some e => do
    modify (fds (·.close fd))
    throw (.err e)

/-- The rest of a function that holds an armed `CloexecGuard` (`handoff.rs:641-669`): the guard is
dropped however the function is left, except by `process::exit`. -/
def guarded (fd : Fd) (restore : Fcntl) (body : EStateM Stop σ α) : EStateM Stop σ α := fun s =>
  match body s with
  | .ok a s' => .ok a (fds (·.setFlag fd true restore) s')
  | .error (.err e) s' => .error (.err e) (fds (·.setFlag fd true restore) s')
  | .error (.exit c) s' => .error (.exit c) s'

def checksBeforeSpawn (env : Env) : EStateM Stop σ Unit := do
  check (if env.freebsd then capModeHandoff env.targetOverridden env.capMode else none)
  check (if env.targetOverridden then none
    else requireStaticForCapmodeUpgrade (env.freebsd && env.inCapsicumMode) env.elfHasInterpreter)
  check (context "spawn upgrade child" (osError env.spawn))

def rewrapListener (env : Env) (fd : Fd) : EStateM Stop σ Unit := do
  checkOwner fds fd (osError env.setNonblocking)
  checkOwner fds fd (osError env.fromStd)

end Steps

def Worker.onFds (f : FdTable → FdTable) (w : Worker) : Worker := { w with fds := f w.fds }

def drain (env : Env) : EStateM Stop Worker (List SessionHandoff) := fun w =>
  let (w', hs) := drainSessionHandoffs env.session w
  .ok hs w'

/-- `finish_upgrade_attempt` (`processor/upgrade.rs:368-396`). Killing and reaping the child and
joining the writer cannot fail the rollback: their results are dropped. -/
def finishUpgradeAttempt (env : Env) (listenerFd : Fd) (handoffs : List SessionHandoff) :
    EStateM Stop Worker Fd :=
  match waitForChildReady env.ready with
  | some _ => do
    rewrapListener Worker.onFds env listenerFd
    modify fun w => readoptSessions env.session w handoffs
    pure listenerFd
  | none => do
    check (finishSessionsPipeWriter env.writer)
    throw (.exit upgradeCommitExitCode)

/-- `do_upgrade` (`processor/upgrade.rs:258-366`). -/
def doUpgrade (env : Env) (listenerFd : Fd) : EStateM Stop Worker Fd := do
  checkOwner Worker.onFds listenerFd (context "listener into_std" (osError env.intoStd))
  check (context "clear CLOEXEC on processor listener" env.clearCloexec.error)
  modify (Worker.onFds (·.setFlag listenerFd false .ok))
  guarded Worker.onFds listenerFd env.restoreCloexec do
    let handoffs ← drain env
    check (context "ready pipe" (makeReadyPipe env.readyPipe))
    check (osError env.toJson)
    check (makeSessionsPipe env.sessionsPipe)
    checksBeforeSpawn env
    finishUpgradeAttempt env listenerFd handoffs

structure PlainAcceptor where
  listener : Option Fd
  fds : FdTable

def PlainAcceptor.onFds (f : FdTable → FdTable) (w : PlainAcceptor) : PlainAcceptor :=
  { w with fds := f w.fds }

inductive Process where
  | serving
  | exited (code : ℕ)
  | failed (e : Error)
  deriving Repr, DecidableEq

/-- The upgrade arm of a worker's main loop (`processor.rs:205-240`, `acceptor.rs:229-271`): the
loop gives its listener away and takes it back from the attempt; an error ends the loop, and with
it the process. -/
def runUpgrade {σ : Type} (setListener : Option Fd → σ → σ)
    (attempt : Env → Fd → EStateM Stop σ Fd) (env : Env) (fd : Fd) (w : σ) : Process × σ :=
  match attempt env fd (setListener none w) with
  | .ok l w' => (.serving, setListener (some l) w')
  | .error (.err e) w' => (.failed e, w')
  | .error (.exit c) w' => (.exited c, w')

def runProcessorUpgrade : Env → Fd → Worker → Process × Worker :=
  runUpgrade (fun l w => { w with listener := l }) doUpgrade

section Run
variable {σ α : Type} (fds : (FdTable → FdTable) → σ → σ)

@[simp] theorem check_none_bind (k : Unit → EStateM Stop σ α) (s : σ) :
    (check none >>= k) s = k () s := rfl

@[simp] theorem check_some_bind (e : Error) (k : Unit → EStateM Stop σ α) (s : σ) :
    (check (some e) >>= k) s = .error (.err e) s := rfl

@[simp] theorem checkOwner_none_bind (fd : Fd) (k : Unit → EStateM Stop σ α) (s : σ) :
    (checkOwner fds fd none >>= k) s = k () s := rfl

@[simp] theorem checkOwner_some_bind (fd : Fd) (e : Error) (k : Unit → EStateM Stop σ α) (s : σ) :
    (checkOwner fds fd (some e) >>= k) s = .error (.err e) (fds (·.close fd) s) := rfl

@[simp] theorem modify_bind (f : σ → σ) (k : PUnit → EStateM Stop σ α) (s : σ) :
    ((modify f : EStateM Stop σ PUnit) >>= k) s = k ⟨⟩ (f s) := rfl

@[simp] theorem drain_bind (env : Env) (k : List SessionHandoff → EStateM Stop Worker α)
    (w : Worker) : (drain env >>= k) w =
      k (drainSessionHandoffs env.session w).2 (drainSessionHandoffs env.session w).1 := rfl

def Env.beforeSpawn (env : Env) : List (Option Error) :=
  [if env.freebsd then capModeHandoff env.targetOverridden env.capMode else none,
    if env.targetOverridden then none
      else requireStaticForCapmodeUpgrade (env.freebsd && env.inCapsicumMode) env.elfHasInterpreter,
    context "spawn upgrade child" (osError env.spawn)]

theorem checksBeforeSpawn_bind (env : Env) (k : Unit → EStateM Stop σ α) (s : σ) :
    (checksBeforeSpawn env >>= k) s =
      match env.beforeSpawn.findSome? id with
      | none => k () s
      | some e => .error (.err e) s := by
  simp only [Env.beforeSpawn]
  unfold checksBeforeSpawn
  generalize (if env.freebsd then capModeHandoff env.targetOverridden env.capMode else none) = a
  generalize (if env.targetOverridden then none else requireStaticForCapmodeUpgrade
    (env.freebsd && env.inCapsicumMode) env.elfHasInterpreter) = b
  generalize context "spawn upgrade child" (osError env.spawn) = c
  cases a <;> cases b <;> cases c <;> rfl

theorem rewrapListener_ok (env : Env) (fd : Fd) (k : Unit → EStateM Stop σ α) (s : σ)
    (h : env.setNonblocking = none ∧ env.fromStd = none) :
    (rewrapListener fds env fd >>= k) s = k () s := by
  simp only [rewrapListener, h.1, h.2]
  rfl

theorem rewrapListener_err (env : Env) (fd : Fd) (k : Unit → EStateM Stop σ α) (s : σ)
    (h : ¬ (env.setNonblocking = none ∧ env.fromStd = none)) :
    ∃ e, (rewrapListener fds env fd >>= k) s = .error (.err e) (fds (·.close fd) s) := by
  simp only [rewrapListener]
  cases hn : env.setNonblocking with
  | some a => exact ⟨_, rfl⟩
  | none =>
    cases hf : env.fromStd with
    | some a => exact ⟨_, rfl⟩
    | none => exact absurd ⟨hn, hf⟩ h

end Run

def Env.processorSteps (env : Env) : List (Option Error) :=
  [context "listener into_std" (osError env.intoStd),
    context "clear CLOEXEC on processor listener" env.clearCloexec.error,
    context "ready pipe" (makeReadyPipe env.readyPipe),
    osError env.toJson,
    makeSessionsPipe env.sessionsPipe] ++ env.beforeSpawn

def drained (env : Env) (fd : Fd) (w : Worker) : Worker × List SessionHandoff :=
  drainSessionHandoffs env.session (Worker.onFds (·.setFlag fd false .ok) w)

theorem findSome?_id_eq_none (l : List (Option Error)) :
    l.findSome? id = none ↔ ∀ r ∈ l, r = none := by
  simp [List.findSome?_eq_none_iff]

theorem doUpgrade_early (env : Env) (fd : Fd) (w : Worker) (e : Error)
    (h : env.processorSteps.findSome? id = some e) :
    ∃ w', doUpgrade env fd w = .error (.err e) w' := by
  simp only [Env.processorSteps, List.cons_append, List.nil_append, List.findSome?_cons, id] at h
  unfold doUpgrade
  cases h1 : context "listener into_std" (osError env.intoStd) with
  | some a =>
    simp only [h1, Option.some.injEq] at h
    subst h
    exact ⟨_, checkOwner_some_bind ..⟩
  | none =>
    rw [checkOwner_none_bind]
    cases h2 : context "clear CLOEXEC on processor listener" env.clearCloexec.error with
    | some a =>
      simp only [h1, h2, Option.some.injEq] at h
      subst h
      exact ⟨_, check_some_bind ..⟩
    | none =>
      rw [check_none_bind, modify_bind]
      -- from here on a failure also drops the guard
      cases h3 : context "ready pipe" (makeReadyPipe env.readyPipe) with
      | some a =>
        simp only [h1, h2, h3, Option.some.injEq] at h
        simp only [guarded, drain_bind, check_some_bind, h]
        exact ⟨_, rfl⟩
      | none =>
        cases h4 : osError env.toJson with
        | some a =>
          simp only [h1, h2, h3, h4, Option.some.injEq] at h
          simp only [guarded, drain_bind, check_none_bind, check_some_bind, h]
          exact ⟨_, rfl⟩
        | none =>
          cases h5 : makeSessionsPipe env.sessionsPipe with
          | some a =>
            simp only [h1, h2, h3, h4, h5, Option.some.injEq] at h
            simp only [guarded, drain_bind, check_none_bind, check_some_bind, h]
            exact ⟨_, rfl⟩
          | none =>
            simp only [h1, h2, h3, h4, h5] at h
            simp only [guarded, drain_bind, check_none_bind, checksBeforeSpawn_bind, h]
            exact ⟨_, rfl⟩

theorem doUpgrade_late (env : Env) (fd : Fd) (w : Worker)
    (h : env.processorSteps.findSome? id = none) :
    doUpgrade env fd w = guarded Worker.onFds fd env.restoreCloexec
      (fun _ => finishUpgradeAttempt env fd (drained env fd w).2 (drained env fd w).1) w := by
  simp only [Env.processorSteps, List.findSome?_append, Option.or_eq_none_iff] at h
  obtain ⟨hown, h6⟩ := h
  rw [findSome?_id_eq_none] at hown
  simp only [List.forall_mem_cons] at hown
  obtain ⟨h1, h2, h3, h4, h5, -⟩ := hown
  simp only [doUpgrade, h1, h2, h3, h4, h5, checkOwner_none_bind, check_none_bind, modify_bind,
    guarded, drain_bind, checksBeforeSpawn_bind, h6, drained]

theorem rollback_handles (env : Env) (fd : Fd) (w : Worker) :
    (readoptSessions env.session (drained env fd w).1 (drained env fd w).2).registry.handles =
      w.registry.handles.filter fun h =>
        drains env.session h && (env.session h.udsFd).reconstruct = .ok := by
  rw [readopt_handles]
  simp only [drained, drainSessionHandoffs, drainLoop_records, Registry.handles, List.map_nil,
    List.nil_append, Worker.onFds]

def missingBinary : Env where
  freebsd := false
  targetOverridden := true
  intoStd := none
  clearCloexec := .ok
  session := fun _ => ⟨.sends, .ok, .ok⟩
  readyPipe := ⟨none, .ok⟩
  toJson := none
  sessionsPipe := ⟨none, .ok, .ok⟩
  capMode := ⟨true, none, []⟩
  inCapsicumMode := false
  elfHasInterpreter := false
  spawn := some "No such file or directory (os error 2)"
  ready := .bytes okBytes
  writer := .ok
  setNonblocking := none
  fromStd := none
  restoreCloexec := .ok

def oneSession : Worker where
  listener := some 3
  registry := ⟨1, [(0, ⟨7, [], [], 0, 0, "p", "t"⟩)], fun _ => none⟩
  fds := ⟨fun _ => true, []⟩

end FiveNinesEcho.Upgrade
