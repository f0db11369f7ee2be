import FiveNinesEcho.Lib.Serde
import FiveNinesEcho.Lib.Utf8

/-!
# Control messages on the wire (`control.rs:68-266`)

The three enums that travel in an envelope, with the integer widths of the source, and the members
their derived serialisers write and read. An enum is tagged by its `type` member, an absent option
is left out, and a field with a default may be missing. A record inside a message is read back from
what the envelope has buffered, so an enumeration there also takes `{}` for no data.
-/

namespace FiveNinesEcho.Control
open Lib

/-! ### The types -/

/-- A path is bytes; it is serialised as text. -/
abbrev PathBuf := List UInt8

inductive ControlMsg where
  | shutdown (graceMs : UInt64)
  | upgrade (binaryPath : Option PathBuf) (includeTls : Bool) (canarySecs : Option UInt64)
    (onlyRole : Option String)
  | status
  | drain
  | reload
  deriving Repr, DecidableEq

structure RateLimiterStats where
  trackedIps : UInt64
  idleEvictions : UInt64
  lruEvictions : UInt64
  capRefused : UInt64
  deriving Repr, DecidableEq

structure WorkerStatus where
  role : String
  pid : UInt32
  generation : UInt64
  startedAtUnixMs : UInt64
  inFlight : UInt64
  listenerAddr : Option String
  rateLimiterStats : Option RateLimiterStats
  deriving Repr, DecidableEq

inductive WorkerMsg where
  | statusReport (status : WorkerStatus)
  deriving Repr, DecidableEq

inductive HealthState where
  | healthy
  | backoff
  | flapping
  | failed
  deriving Repr, DecidableEq

structure RoleHealth where
  role : String
  state : HealthState
  consecutiveFastExits : UInt32
  nextBackoffMs : UInt64
  totalRestarts : UInt64
  lastRestartAtUnixMs : Option UInt64
  deriving Repr, DecidableEq

inductive UpgradePhase where
  | starting
  | done
  | timeout
  | skipped
  | canaryAborted
  deriving Repr, DecidableEq

inductive AdminResp where
  | ok
  | status (workers : List WorkerStatus) (health : List RoleHealth)
  | error (message : String)
  | upgradeStep (worker : String) (phase : UpgradePhase) (generationBefore : Option UInt64)
    (generationAfter : Option UInt64) (ok : Bool) (message : Option String)
  | upgradeComplete (allOk : Bool)
  deriving Repr, DecidableEq

/-! ### Records inside a message -/

def bufferedUnit : Json → Bool
  | .null | .obj [] => true
  | _ => false

def HealthState.name : HealthState → String
  | .healthy => "healthy"
  | .backoff => "backoff"
  | .flapping => "flapping"
  | .failed => "failed"

def HealthState.variant : String → Option HealthState
  | "healthy" => some .healthy
  | "backoff" => some .backoff
  | "flapping" => some .flapping
  | "failed" => some .failed
  | _ => none

def HealthState.shape : Shape HealthState :=
  enumeration bufferedUnit HealthState.name HealthState.variant fun s => by cases s <;> rfl

def UpgradePhase.name : UpgradePhase → String
  | .starting => "starting"
  | .done => "done"
  | .timeout => "timeout"
  | .skipped => "skipped"
  | .canaryAborted => "canary_aborted"

def UpgradePhase.variant : String → Option UpgradePhase
  | "starting" => some .starting
  | "done" => some .done
  | "timeout" => some .timeout
  | "skipped" => some .skipped
  | "canary_aborted" => some .canaryAborted
  | _ => none

def UpgradePhase.shape : Shape UpgradePhase :=
  enumeration bufferedUnit UpgradePhase.name UpgradePhase.variant fun p => by cases p <;> rfl

def RateLimiterStats.members (s : RateLimiterStats) : Members :=
  [("tracked_ips", u64.write s.trackedIps), ("idle_evictions", u64.write s.idleEvictions),
    ("lru_evictions", u64.write s.lruEvictions), ("cap_refused", u64.write s.capRefused)]

def RateLimiterStats.readFrom (s : Source) : Option RateLimiterStats := do
  let trackedIps ← s.field 0 "tracked_ips" u64.read none
  let idleEvictions ← s.field 1 "idle_evictions" u64.read none
  let lruEvictions ← s.field 2 "lru_evictions" u64.read none
  let capRefused ← s.field 3 "cap_refused" u64.read none
  return { trackedIps, idleEvictions, lruEvictions, capRefused }

theorem RateLimiterStats.readFrom_members (s : RateLimiterStats) :
    readFrom (.map s.members) = some s := by
  simp [readFrom, members, Source.field, Source.values, u64.read_write]

theorem RateLimiterStats.members_fit (s : RateLimiterStats) : FitsAll 0 s.members := by
  have hu64 : u64.depth ≤ 0 := by decide
  exact .cons _ _ _ hu64 (.cons _ _ _ hu64 (.cons _ _ _ hu64 (.cons _ _ _ hu64 (.nil 0))))

def RateLimiterStats.shape : Shape RateLimiterStats :=
  record 4 0 members readFrom readFrom_members members_fit

def WorkerStatus.members (s : WorkerStatus) : Members :=
  [("role", text.write s.role), ("pid", u32.write s.pid), ("generation", u64.write s.generation),
    ("started_at_unix_ms", u64.write s.startedAtUnixMs), ("in_flight", u64.write s.inFlight)] ++
  skipNone "listener_addr" text s.listenerAddr ++
  skipNone "rate_limiter_stats" RateLimiterStats.shape s.rateLimiterStats

def WorkerStatus.readFrom (s : Source) : Option WorkerStatus := do
  let role ← s.field 0 "role" text.read none
  let pid ← s.field 1 "pid" u32.read none
  let generation ← s.field 2 "generation" u64.read none
  let startedAtUnixMs ← s.field 3 "started_at_unix_ms" u64.read none
  let inFlight ← s.field 4 "in_flight" u64.read none
  let listenerAddr ← s.option 5 "listener_addr" text.read
  let rateLimiterStats ← s.option 6 "rate_limiter_stats" RateLimiterStats.shape.read
  return { role, pid, generation, startedAtUnixMs, inFlight, listenerAddr, rateLimiterStats }

theorem WorkerStatus.readFrom_members (s : WorkerStatus) : readFrom (.map s.members) = some s := by
  obtain ⟨role, pid, generation, startedAt, inFlight, _ | addr, _ | stats⟩ := s <;>
    simp [readFrom, members, skipNone, Source.option, Source.field, Source.values, text.read_write,
      u32.read_write, u64.read_write, readOption_write]

theorem WorkerStatus.members_fit (s : WorkerStatus) : FitsAll 1 s.members := by
  have hu64 : u64.depth ≤ 1 := by decide
  have htext : text.depth ≤ 1 := by decide
  refine (FitsAll.append ?_ (.skipNone _ _ _ htext)).append (.skipNone _ _ _ (by decide))
  exact .cons _ _ _ htext (.cons _ _ _ (by decide) (.cons _ _ _ hu64 (.cons _ _ _ hu64
    (.cons _ _ _ hu64 (.nil 1)))))

def WorkerStatus.shape : Shape WorkerStatus :=
  record 7 1 members readFrom readFrom_members members_fit

def RoleHealth.members (h : RoleHealth) : Members :=
  [("role", text.write h.role), ("state", HealthState.shape.write h.state),
    ("consecutive_fast_exits", u32.write h.consecutiveFastExits),
    ("next_backoff_ms", u64.write h.nextBackoffMs),
    ("total_restarts", u64.write h.totalRestarts)] ++
  skipNone "last_restart_at_unix_ms" u64 h.lastRestartAtUnixMs

def RoleHealth.readFrom (s : Source) : Option RoleHealth := do
  let role ← s.field 0 "role" text.read none
  let state ← s.field 1 "state" HealthState.shape.read none
  let consecutiveFastExits ← s.field 2 "consecutive_fast_exits" u32.read none
  let nextBackoffMs ← s.field 3 "next_backoff_ms" u64.read none
  let totalRestarts ← s.field 4 "total_restarts" u64.read none
  let lastRestartAtUnixMs ← s.option 5 "last_restart_at_unix_ms" u64.read
  return { role, state, consecutiveFastExits, nextBackoffMs, totalRestarts, lastRestartAtUnixMs }

theorem RoleHealth.readFrom_members (h : RoleHealth) : readFrom (.map h.members) = some h := by
  obtain ⟨role, state, exits, backoff, restarts, _ | last⟩ := h <;>
    simp [readFrom, members, skipNone, Source.option, Source.field, Source.values, text.read_write,
      u32.read_write, u64.read_write, HealthState.shape.read_write, readOption_write]

theorem RoleHealth.members_fit (h : RoleHealth) : FitsAll 0 h.members := by
  have hu64 : u64.depth ≤ 0 := by decide
  refine FitsAll.append ?_ (.skipNone _ _ _ hu64)
  exact .cons _ _ _ (by decide) (.cons _ _ _ (by decide) (.cons _ _ _ (by decide)
    (.cons _ _ _ hu64 (.cons _ _ _ hu64 (.nil 0)))))

def RoleHealth.shape : Shape RoleHealth := record 6 0 members readFrom readFrom_members members_fit

/-! ### Messages -/

/-- What travels beside the version of an envelope: the members a value is serialised to, if it can
be, and the value read from the members that are there. `Textual` says that the paths in a value are
UTF-8; no member is called `version`. -/
structure Wire (T : Type) where
  members : T → Option Members
  read : Members → Option T
  Textual : T → Prop
  written : ∀ t, Textual t → (members t).isSome = true
  read_members : ∀ t m, members t = some m → read m = some t
  unversioned : ∀ t m, members t = some m → valuesOf "version" m = []
  fit : ∀ t m, members t = some m → FitsAll 126 m

/-- `PathBuf` is serialised by `to_str`, which fails on bytes that are not UTF-8. -/
def writePath : Option PathBuf → Option (Option String)
  | none => some none
  | some p => (fromUtf8 p).map some

def readPath (j : Json) : Option PathBuf := (text.read j).map utf8

def ControlMsg.members : ControlMsg → Option Members
  | .shutdown graceMs =>
    some [("type", text.write "shutdown"), ("grace_ms", u64.write graceMs)]
  | .upgrade binaryPath includeTls canarySecs onlyRole => (writePath binaryPath).map fun path =>
    ("type", text.write "upgrade") :: skipNone "binary_path" text path ++
    [("include_tls", boolean.write includeTls)] ++ skipNone "canary_secs" u64 canarySecs ++
    skipNone "only_role" text onlyRole
  | .status => some [("type", text.write "status")]
  | .drain => some [("type", text.write "drain")]
  | .reload => some [("type", text.write "reload")]

def ControlMsg.read (m : Members) : Option ControlMsg := do
  let s := Source.map (m.without ["type"])
  match ← readTag "type" ["shutdown", "upgrade", "status", "drain", "reload"] m with
  | "shutdown" => return .shutdown (← s.field 0 "grace_ms" u64.read none)
  | "upgrade" =>
    let binaryPath ← s.option 0 "binary_path" readPath
    let includeTls ← s.field 1 "include_tls" boolean.read (some false)
    let canarySecs ← s.option 2 "canary_secs" u64.read
    let onlyRole ← s.option 3 "only_role" text.read
    return .upgrade binaryPath includeTls canarySecs onlyRole
  | "status" => return .status
  | "drain" => return .drain
  | "reload" => return .reload
  | _ => none

theorem writePath_isSome (p : Option PathBuf) (h : ∀ b, p = some b → ∃ s, b = utf8 s) :
    (writePath p).isSome = true := by
  cases p with
  | none => rfl
  | some b =>
    obtain ⟨s, rfl⟩ := h b rfl
    simp [writePath, fromUtf8_utf8]

theorem option_path (m : Members) (i : ℕ) (key : String) (p : Option PathBuf)
    (path : Option String) (hpath : writePath p = some path)
    (h : valuesOf key m = (path.map text.write).toList) :
    (Source.map m).option i key readPath = some p := by
  cases p with
  | none =>
    cases hpath
    exact Source.field_missing m i key _ _ h
  | some b =>
    simp only [writePath, Option.map_eq_some_iff] at hpath
    obtain ⟨s, hs, rfl⟩ := hpath
    rw [Source.option, Source.field_map m i key _ _ (text.write s) h, ← utf8_of_fromUtf8 b s hs]
    rfl

theorem ControlMsg.read_members (c : ControlMsg) (m : Members) (h : c.members = some m) :
    ControlMsg.read m = some c := by
  cases c with
  | shutdown graceMs =>
    cases h
    simp [ControlMsg.read, readTag, Source.field, Source.values, valuesOf_without, text,
      u64.read_write]
  | upgrade binaryPath includeTls canarySecs onlyRole =>
    simp only [ControlMsg.members, Option.map_eq_some_iff] at h
    obtain ⟨path, hpath, hm⟩ := h
    have htag : readTag "type" ["shutdown", "upgrade", "status", "drain", "reload"] m =
        some "upgrade" := by simp [← hm, readTag, text]
    have hbinary := option_path (m.without ["type"]) 0 "binary_path" binaryPath path hpath
      (by simp [← hm, valuesOf_without])
    have htls := Source.field_map (m.without ["type"]) 1 "include_tls" boolean.read (some false)
      (boolean.write includeTls) (by simp [← hm, valuesOf_without])
    have hcanary := Source.option_map (m.without ["type"]) 2 "canary_secs" u64 canarySecs
      (by simp [← hm, valuesOf_without])
    have hrole := Source.option_map (m.without ["type"]) 3 "only_role" text onlyRole
      (by simp [← hm, valuesOf_without])
    simp [ControlMsg.read, htag, hbinary, htls, hcanary, hrole, boolean.read_write]
  | status | drain | reload =>
    cases h
    simp [ControlMsg.read, readTag, text]

def ControlMsg.Textual : ControlMsg → Prop
  | .upgrade (some path) _ _ _ => ∃ s, path = utf8 s
  | _ => True

def ControlMsg.wire : Wire ControlMsg where
  members := ControlMsg.members
  read := ControlMsg.read
  Textual := ControlMsg.Textual
  written c h := by
    cases c with
    | upgrade path _ _ _ =>
      have hpath := writePath_isSome path fun b hb => by
        subst hb
        exact h
      simpa [ControlMsg.members] using hpath
    | shutdown _ | status | drain | reload => rfl
  read_members := ControlMsg.read_members
  unversioned c m h := by
    cases c with
    | upgrade path _ _ _ =>
      simp only [ControlMsg.members, Option.map_eq_some_iff] at h
      obtain ⟨path, -, rfl⟩ := h
      simp
    | shutdown _ | status | drain | reload =>
      cases h
      simp
  fit c m h := by
    have htext : text.depth ≤ 126 := by decide
    have hu64 : u64.depth ≤ 126 := by decide
    cases c with
    | shutdown graceMs =>
      cases h
      exact .cons _ _ _ htext (.cons _ _ _ hu64 (.nil _))
    | upgrade path _ _ _ =>
      simp only [ControlMsg.members, Option.map_eq_some_iff] at h
      obtain ⟨path, -, rfl⟩ := h
      refine (((FitsAll.cons _ _ _ htext (.skipNone _ _ _ htext)).append ?_).append
        (.skipNone _ _ _ hu64)).append (.skipNone _ _ _ htext)
      exact .cons _ _ _ (by decide) (.nil _)
    | status | drain | reload =>
      cases h
      exact .cons _ _ _ htext (.nil _)

def WorkerMsg.members : WorkerMsg → Members
  | .statusReport status => ("type", text.write "status_report") :: status.members

def WorkerMsg.read (m : Members) : Option WorkerMsg := do
  match ← readTag "type" ["status_report"] m with
  | "status_report" => return .statusReport (← WorkerStatus.readFrom (.map (m.without ["type"])))
  | _ => none

theorem WorkerMsg.read_members (w : WorkerMsg) : WorkerMsg.read w.members = some w := by
  obtain ⟨s⟩ := w
  have hname : valuesOf "type" s.members = [] := by simp [WorkerStatus.members]
  have htag : readTag "type" ["status_report"]
      (("type", text.write "status_report") :: s.members) = some "status_report" := by
    simp [readTag, text, hname]
  have hstatus := WorkerStatus.readFrom_members s
  rw [← without_cons_self "type" (text.write "status_report") s.members hname] at hstatus
  simp only [WorkerMsg.read, htag, Option.bind_eq_bind, Option.bind_some, WorkerMsg.members, hstatus,
    Option.pure_def]

def WorkerMsg.wire : Wire WorkerMsg where
  members w := some w.members
  read := WorkerMsg.read
  Textual _ := True
  written _ _ := rfl
  read_members w m h := by
    cases h
    exact WorkerMsg.read_members w
  unversioned w m h := by
    cases h
    simp [WorkerMsg.members, WorkerStatus.members]
  fit w m h := by
    cases h
    exact .cons _ _ _ (by decide) fun kv hkv => (w.1.members_fit kv hkv).mono (by decide)

def AdminResp.members : AdminResp → Members
  | .ok => [("type", text.write "ok")]
  | .status workers health =>
    [("type", text.write "status"), ("workers", (vec WorkerStatus.shape).write workers),
      ("health", (vec RoleHealth.shape).write health)]
  | .error message => [("type", text.write "error"), ("message", text.write message)]
  | .upgradeStep worker phase generationBefore generationAfter isOk message =>
    [("type", text.write "upgrade_step"), ("worker", text.write worker),
      ("phase", UpgradePhase.shape.write phase)] ++
    skipNone "generation_before" u64 generationBefore ++
    skipNone "generation_after" u64 generationAfter ++ [("ok", boolean.write isOk)] ++
    skipNone "message" text message
  | .upgradeComplete allOk =>
    [("type", text.write "upgrade_complete"), ("all_ok", boolean.write allOk)]

def AdminResp.variants : List String :=
  ["ok", "status", "error", "upgrade_step", "upgrade_complete"]

def AdminResp.read (m : Members) : Option AdminResp := do
  let s := Source.map (m.without ["type"])
  match ← readTag "type" AdminResp.variants m with
  | "ok" => return .ok
  | "status" =>
    let workers ← s.field 0 "workers" (vec WorkerStatus.shape).read none
    let health ← s.field 1 "health" (vec RoleHealth.shape).read (some [])
    return .status workers health
  | "error" => return .error (← s.field 0 "message" text.read none)
  | "upgrade_step" =>
    let worker ← s.field 0 "worker" text.read none
    let phase ← s.field 1 "phase" UpgradePhase.shape.read none
    let generationBefore ← s.option 2 "generation_before" u64.read
    let generationAfter ← s.option 3 "generation_after" u64.read
    let isOk ← s.field 4 "ok" boolean.read none
    let message ← s.option 5 "message" text.read
    return .upgradeStep worker phase generationBefore generationAfter isOk message
  | "upgrade_complete" => return .upgradeComplete (← s.field 0 "all_ok" boolean.read none)
  | _ => none

theorem AdminResp.read_members (r : AdminResp) : AdminResp.read r.members = some r := by
  cases r with
  | ok => simp [AdminResp.read, AdminResp.members, AdminResp.variants, readTag, text]
  | status workers health =>
    simp [AdminResp.read, AdminResp.members, AdminResp.variants, readTag, text, Source.field,
      Source.values, valuesOf_without, (vec WorkerStatus.shape).read_write,
      (vec RoleHealth.shape).read_write]
  | error message =>
    simp [AdminResp.read, AdminResp.members, AdminResp.variants, readTag, text, readText,
      Source.field, Source.values, valuesOf_without]
  | upgradeStep worker phase generationBefore generationAfter isOk message =>
    generalize hm : AdminResp.members
      (.upgradeStep worker phase generationBefore generationAfter isOk message) = m
    simp only [AdminResp.members] at hm
    have htag : readTag "type" AdminResp.variants m = some "upgrade_step" := by
      simp [← hm, readTag, text, AdminResp.variants]
    have hworker := Source.field_map (m.without ["type"]) 0 "worker" text.read none
      (text.write worker) (by simp [← hm, valuesOf_without])
    have hphase := Source.field_map (m.without ["type"]) 1 "phase" UpgradePhase.shape.read none
      (UpgradePhase.shape.write phase) (by simp [← hm, valuesOf_without])
    have hbefore := Source.option_map (m.without ["type"]) 2 "generation_before" u64
      generationBefore (by simp [← hm, valuesOf_without])
    have hafter := Source.option_map (m.without ["type"]) 3 "generation_after" u64 generationAfter
      (by simp [← hm, valuesOf_without])
    have hok := Source.field_map (m.without ["type"]) 4 "ok" boolean.read none
      (boolean.write isOk) (by simp [← hm, valuesOf_without])
    have hmessage := Source.option_map (m.without ["type"]) 5 "message" text message
      (by simp [← hm, valuesOf_without])
    simp [AdminResp.read, htag, hworker, hphase, hbefore, hafter, hok, hmessage, text.read_write,
      UpgradePhase.shape.read_write, boolean.read_write]
  | upgradeComplete allOk =>
    simp [AdminResp.read, AdminResp.members, AdminResp.variants, readTag, text, Source.field,
      Source.values, valuesOf_without, boolean.read_write]

def AdminResp.wire : Wire AdminResp where
  members r := some r.members
  read := AdminResp.read
  Textual _ := True
  written _ _ := rfl
  read_members r m h := by
    cases h
    exact AdminResp.read_members r
  unversioned r m h := by
    cases h
    cases r <;> simp [AdminResp.members]
  fit r m h := by
    cases h
    have htext : text.depth ≤ 126 := by decide
    have hu64 : u64.depth ≤ 126 := by decide
    have hbool : boolean.depth ≤ 126 := by decide
    cases r with
    | ok => exact .cons _ _ _ htext (.nil _)
    | status workers health =>
      exact .cons _ _ _ htext (.cons _ _ _ (by decide) (.cons _ _ _ (by decide) (.nil _)))
    | error message => exact .cons _ _ _ htext (.cons _ _ _ htext (.nil _))
    | upgradeStep worker phase _ _ _ _ =>
      refine (((FitsAll.append ?_ (.skipNone _ _ _ hu64)).append (.skipNone _ _ _ hu64)).append
        ?_).append (.skipNone _ _ _ htext)
      · exact .cons _ _ _ htext (.cons _ _ _ htext (.cons _ _ _ (by decide) (.nil _)))
      · exact .cons _ _ _ hbool (.nil _)
    | upgradeComplete allOk => exact .cons _ _ _ htext (.cons _ _ _ hbool (.nil _))

end FiveNinesEcho.Control
