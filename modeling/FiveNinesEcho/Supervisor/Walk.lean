import FiveNinesEcho.Supervisor.Query
import FiveNinesEcho.Supervisor.Role

/-!
# Rolling upgrades (`supervisor/admin.rs:53-256`, `admin.rs:86-162`)

Any number of callers, admin connections and SIGUSR2, run `rolling_upgrade` at once. Each is a `Walk`
with its program point and the trace of what it told its caller (`notify`) and sent to workers; the
upgrade lock and the clock are shared. The answers of `query_status` and the watchdog states read are
labels, so that every outcome is covered. `streamUpgrade` is the command line's own reading of the
frames.
-/

namespace FiveNinesEcho.Supervisor
open Lib

/-! ### Frames and requests -/

def RoleName.text : RoleName → String
  | .processor => "processor"
  | .plain => "plain"
  | .tls => "tls"
  | .scanner => "scanner"

def HealthState.debug : HealthState → String
  | .healthy => "Healthy"
  | .backoff => "Backoff"
  | .flapping => "Flapping"
  | .failed => "Failed"

def healthStateRank : HealthState → ℕ
  | .healthy => 0
  | .backoff => 1
  | .flapping => 2
  | .failed => 3

/-- `AdminResp` (`control.rs:225-254`), the health table of `Status` left out. -/
inductive AdminResp where
  | ok
  | status (workers : List WorkerStatus)
  | error (message : String)
  | upgradeStep (step : UpgradeStep)
  | upgradeComplete (allOk : Bool)
  deriving Repr, DecidableEq

structure RollingUpgradeRequest where
  binaryPath : Option String
  includeTls : Bool
  canarySecs : Option ℕ
  onlyRole : Option String
  deriving Repr, DecidableEq

/-- The targets of a request (`supervisor/admin.rs:66-90`), none for a role nobody knows. -/
def RollingUpgradeRequest.targets (req : RollingUpgradeRequest) : Option (List RoleName) :=
  match req.onlyRole with
  | none => some ([.processor, .plain, .scanner] ++ if req.includeTls then [.tls] else [])
  | some only =>
    if only = "processor" then some [.processor]
    else if only = "plain" then some [.plain]
    else if only = "scanner" then some [.scanner]
    else if only = "tls" then some [.tls]
    else none

def pollSecs (role : RoleName) : ℕ := if role = .tls then 10 else 5

def startingStep (role : RoleName) (preGen : ℕ) : UpgradeStep :=
  ⟨role.text, .starting, some preGen, none, true, none⟩

def doneStep (role : RoleName) (preGen generation : ℕ) : UpgradeStep :=
  ⟨role.text, .done, some preGen, some generation, true, none⟩

def timeoutStep (role : RoleName) (preGen : ℕ) : UpgradeStep :=
  ⟨role.text, .timeout, some preGen, none, false,
    some "worker did not reconnect with a new generation"⟩

def skippedStep (role : RoleName) : UpgradeStep :=
  ⟨role.text, .skipped, none, none, false, some "no control connection"⟩

def canaryAbortedStep (role : RoleName) (state : HealthState) : UpgradeStep :=
  ⟨role.text, .canaryAborted, none, none, false, some ("watchdog state " ++ state.debug)⟩

/-! ### A walk -/

/-- What a walk does to the outside: a frame for its caller, a `Status` or an `Upgrade` to a
worker. -/
inductive WalkEvent where
  | notify (resp : AdminResp)
  | status (role : RoleName)
  | upgrade (role : RoleName) (binaryPath : Option String)
  deriving Repr, DecidableEq

/-- Where a caller of `rolling_upgrade` is: not there yet, at the head of the loop over targets, in
the first `query_status` of `upgrade_one`, at the head of its polling loop, in the `query_status`
there, at the head of the loop of `canary_observe`, in its sleep, or returned. -/
inductive WalkPc where
  | idle
  | target (rest : List RoleName)
  | asking (role : RoleName) (rest : List RoleName) (baseline : HealthState)
  | polling (role : RoleName) (rest : List RoleName) (baseline : HealthState)
      (preGen deadline wake : ℕ)
  | querying (role : RoleName) (rest : List RoleName) (baseline : HealthState)
      (preGen deadline : ℕ)
  | watching (role : RoleName) (rest : List RoleName) (baseline : HealthState) (deadline : ℕ)
  | napping (role : RoleName) (rest : List RoleName) (baseline : HealthState)
      (deadline wake : ℕ)
  | rejected
  | finished (allOk : Bool)
  deriving Repr, DecidableEq

structure Walk where
  req : RollingUpgradeRequest
  pc : WalkPc
  trace : List WalkEvent
  deriving Repr, DecidableEq

def WalkPc.active : WalkPc → Bool
  | .idle | .rejected | .finished _ => false
  | _ => true

def Walk.returned (w : Walk) : Option Bool :=
  match w.pc with
  | .rejected => some false
  | .finished allOk => some allOk
  | _ => none

inductive WalkAct where
  | begin
  | next (baseline : HealthState)
  | preStatus (answer : Option WorkerStatus)
  | poll
  | status (answer : Option WorkerStatus)
  | observe
  | look (state : HealthState)
  deriving Repr, DecidableEq

def Walk.emit (w : Walk) (events : List WalkEvent) (pc : WalkPc) : Walk :=
  { w with pc := pc, trace := w.trace ++ events }

/-- The loop is left with that result. -/
def Walk.complete (w : Walk) (events : List WalkEvent) (allOk : Bool) : Walk :=
  w.emit (events ++ [.notify (.upgradeComplete allOk)]) (.finished allOk)

/-- `rolling_upgrade` from one suspension to the next; `free` says whether `try_lock` succeeds. -/
def Walk.step (w : Walk) (now : ℕ) (free : Bool) (a : WalkAct) : Option Walk :=
  match a, w.pc with
  | .begin, .idle => match free, w.req.targets with
    | true, some roles => some (w.emit [] (.target roles))
    | _, _ => some (w.emit [.notify (.upgradeComplete false)] .rejected)
  | .next _, .target [] => some (w.complete [] true)
  | .next baseline, .target (role :: rest) =>
    some (w.emit [.status role] (.asking role rest baseline))
  | .preStatus none, .asking role _ _ =>
    some (w.complete [.notify (.upgradeStep (skippedStep role))] false)
  | .preStatus (some pre), .asking role rest baseline =>
    some (w.emit
      [.notify (.upgradeStep (startingStep role pre.generation)), .upgrade role w.req.binaryPath]
      (.polling role rest baseline pre.generation (now + 1000 * pollSecs role) now))
  | .poll, .polling role rest baseline preGen deadline wake =>
    if wake ≤ now then
      if deadline < now then
        some (w.complete [.notify (.upgradeStep (timeoutStep role preGen))] false)
      else some (w.emit [.status role] (.querying role rest baseline preGen deadline))
    else none
  | .status answer, .querying role rest baseline preGen deadline =>
    match answer.filter (preGen < ·.generation) with
    | some st =>
      some (w.emit [.notify (.upgradeStep (doneStep role preGen st.generation))]
        (match w.req.canarySecs with
          | some secs => .watching role rest baseline (now + 1000 * secs)
          | none => .target rest))
    | none => some (w.emit [] (.polling role rest baseline preGen deadline (now + 100)))
  | .observe, .watching role rest baseline deadline =>
    some (w.emit [] (if now < deadline then .napping role rest baseline deadline (now + 200)
      else .target rest))
  | .look state, .napping role rest baseline deadline wake =>
    if wake ≤ now then
      if healthStateRank baseline < healthStateRank state then
        some (w.complete [.notify (.upgradeStep (canaryAbortedStep role state))] false)
      else some (w.emit [] (.watching role rest baseline deadline))
    else none
  | _, _ => none

/-! ### All of them -/

variable {ι : Type} [DecidableEq ι]

structure Upgrades (ι : Type) where
  now : ℕ
  lock : Option ι
  walks : ι → Walk

/-- `unlock` is the drop of the guard, after the last frame has been written. -/
inductive UpgradesAct (ι : Type) where
  | elapse (d : ℕ)
  | walk (i : ι) (a : WalkAct)
  | unlock (i : ι)
  deriving Repr, DecidableEq

def Upgrades.step (s : Upgrades ι) : UpgradesAct ι → Option (Upgrades ι)
  | .elapse d => some { s with now := s.now + d }
  | .walk i a => ((s.walks i).step s.now s.lock.isNone a).map fun w =>
      { s with
        lock := if a = .begin then s.lock.or (some i) else s.lock
        walks := Function.update s.walks i w }
  | .unlock i =>
    if s.lock = some i ∧ (s.walks i).pc.active = false then some { s with lock := none } else none

def Upgrades.start (reqs : ι → RollingUpgradeRequest) : Upgrades ι :=
  ⟨0, none, fun i => ⟨reqs i, .idle, []⟩⟩

/-! ### The command line (`admin.rs:86-162`) -/

/-- A line read back: nothing but blanks, no frame of this version, or a frame with its text. -/
inductive ReadLine where
  | blank
  | incompatible (trimmed : String)
  | frame (trimmed : String) (resp : AdminResp)
  deriving Repr, DecidableEq

/-- The reading loop of `stream_upgrade`; the list ends where the supervisor closed. -/
def streamUpgrade (overallOk : Bool) : List ReadLine → Except String Unit
  | [] => .error "supervisor closed connection without UpgradeComplete"
  | .blank :: rest => streamUpgrade overallOk rest
  | .incompatible trimmed :: _ => .error ("incompatible admin response: " ++ trimmed)
  | .frame _ (.upgradeStep step) :: rest => streamUpgrade (overallOk && step.ok) rest
  | .frame _ (.upgradeComplete allOk) :: _ =>
    if allOk && overallOk then .ok () else .error "upgrade failed"
  | .frame _ (.error message) :: _ => .error ("admin error: " ++ message)
  | .frame trimmed .ok :: _ =>
    .error ("unexpected response during rolling upgrade: " ++ trimmed)
  | .frame trimmed (.status _) :: _ =>
    .error ("unexpected response during rolling upgrade: " ++ trimmed)

def WalkEvent.frame : WalkEvent → Option AdminResp
  | .notify resp => some resp
  | _ => none

def Walk.frames (w : Walk) : List AdminResp := w.trace.filterMap WalkEvent.frame

/-- The frames over a connection that loses and garbles nothing. -/
def received (text : AdminResp → String) (frames : List AdminResp) : List ReadLine :=
  frames.map fun resp => .frame (text resp) resp

end FiveNinesEcho.Supervisor
