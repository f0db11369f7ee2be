import FiveNinesEcho.Supervisor.SelfUpgrade
import FiveNinesEcho.Supervisor.Walk
import Mathlib.Data.Finset.Insert

/-!
# Reloading the allowlist (`config.rs:227-257`, `auth.rs:19-48`, `supervisor/admin.rs:167-173`,
`supervisor/admin.rs:378-396`, `processor/control.rs:91-103`)

An admin Reload makes the supervisor load its configuration and swap its allowlist, and then tells
every worker to do the same. The two loads are separate, in processes with an environment, an
account and a sandbox of their own: a processor that was upgraded in capability mode has its
configuration from its predecessor (`handoff.rs:341-371`) and not from the file.
-/

namespace FiveNinesEcho.Supervisor
open Lib Handoff

/-! ### The configuration -/

inductive SandboxMode where
  | off
  | strict
  | log
  deriving Repr, DecidableEq

/-- `SecurityConfig` (`config.rs:65-75`). -/
structure SecurityConfig where
  dropUid : Option String
  dropGid : Option String
  sandbox : SandboxMode
  sandboxOverrides : List (String × SandboxMode)
  deriving Repr, DecidableEq

def SecurityConfig.effectiveSandbox (c : SecurityConfig) (role : RoleName) : SandboxMode :=
  (c.sandboxOverrides.lookup role.text).getD c.sandbox

/-- The part of `Config` that is read below. -/
structure Config where
  socketsDir : String
  allowedUids : List ℕ
  security : SecurityConfig
  deriving Repr, DecidableEq

def Config.default : Config := ⟨"/tmp", [], ⟨none, none, .off, []⟩⟩

/-- `toml` and `serde_json`, which are not part of the repository. -/
structure Formats where
  toml : String → Option Config
  toJson : Config → String
  fromJson : String → Option Config

def envConfigPath : String := "FDPASS_CONFIG_PATH"

def envConfigJson : String := "FDPASS_CONFIG_JSON"

inductive LoadError where
  | inherited
  | read (path : String)
  | parse (path : String)
  deriving Repr, DecidableEq

def LoadError.context : LoadError → String
  | .inherited => "parse inherited config JSON"
  | .read path => "read config " ++ path
  | .parse path => "parse config " ++ path

/-- `Config::load`, for a process with this environment and this way to read a file. -/
def Config.load (F : Formats) (env : Env) (readToString : String → Option String)
    (path : Option String) : Except LoadError Config :=
  match env.lookup envConfigJson with
  | some json => match F.fromJson json with
    | some cfg => .ok cfg
    | none => .error .inherited
  | none =>
    let cfg : Except LoadError Config := match path.or (env.lookup envConfigPath) with
      | none => .ok Config.default
      | some p => match readToString p with
        | none => .error (.read p)
        | some text => match F.toml text with
          | none => .error (.parse p)
          | some cfg => .ok cfg
    cfg.map fun cfg => match env.lookup "RUNTIME_DIRECTORY" with
      | some rd => { cfg with socketsDir := rd }
      | none => cfg

/-! ### The environment of a child -/

def preservedEnv : List String := [envConfigPath, "FDPASS_LOG_FORMAT"]

def isFdpass (key : String) : Bool := "FDPASS_".toList.isPrefixOf key.toList

/-- `scrub_fdpass_env` (`handoff.rs:202-218`). -/
def scrubFdpassEnv (env : Env) : Env :=
  env.filter fun kv => !isFdpass kv.1 || preservedEnv.contains kv.1

theorem lookup_filter_key (p : String → Bool) (env : Env) (key : String) :
    (env.filter fun kv => p kv.1).lookup key = if p key then env.lookup key else none := by
  induction env with
  | nil => simp
  | cons kv env ih =>
    obtain ⟨k, v⟩ := kv
    by_cases hk : key = k
    · subst hk
      cases hp : p key with
      | true => simp [hp]
      | false =>
        rw [List.filter_cons_of_neg (by simp [hp]), ih]
        simp [hp]
    · have hne : (key == k) = false := beq_eq_false_iff_ne.mpr hk
      cases hp : p k with
      | true =>
        rw [List.filter_cons_of_pos (by simpa using hp), List.lookup_cons, List.lookup_cons]
        simp only [hne, ih]
      | false =>
        rw [List.filter_cons_of_neg (by simp [hp]), ih, List.lookup_cons]
        simp only [hne]

theorem scrubFdpassEnv_json (env : Env) : (scrubFdpassEnv env).lookup envConfigJson = none := by
  rw [scrubFdpassEnv, lookup_filter_key (fun k => !isFdpass k || preservedEnv.contains k)]
  rw [if_neg (by decide)]

theorem scrubFdpassEnv_path (env : Env) :
    (scrubFdpassEnv env).lookup envConfigPath = env.lookup envConfigPath := by
  rw [scrubFdpassEnv, lookup_filter_key (fun k => !isFdpass k || preservedEnv.contains k)]
  rw [if_pos (by decide)]

/-! ### The allowlist -/

structure PeerAllowlist where
  uids : Finset ℕ
  deriving DecidableEq

def PeerAllowlist.fromUids (uids : List ℕ) : PeerAllowlist := ⟨uids.toFinset⟩

def PeerAllowlist.currentUserOnly (euid : ℕ) : PeerAllowlist := .fromUids [euid]

/-- `PeerAllowlist::from_config` in a process with that effective uid. -/
def PeerAllowlist.fromConfig (euid : ℕ) (configured : List ℕ) : PeerAllowlist :=
  if configured.isEmpty then .currentUserOnly euid else .fromUids configured

/-! ### A process -/

inductive Os where
  | linux
  | freebsd
  | macos
  deriving Repr, DecidableEq

/-- The account a process runs as; its real, effective and saved ids are the same. -/
structure Cred where
  uid : ℕ
  gid : ℕ
  deriving Repr, DecidableEq

def Cred.setgid (c : Cred) (gid : ℕ) : Option Cred :=
  if c.uid = 0 ∨ gid = c.gid then some { c with gid := gid } else none

def Cred.setuid (c : Cred) (uid : ℕ) : Option Cred :=
  if c.uid = 0 ∨ uid = c.uid then some { c with uid := uid } else none

/-- The user and group databases, out of reach in capability mode. -/
structure Nss where
  user : String → Option ℕ
  group : String → Option ℕ

def resolveId (byName : String → Option ℕ) (capMode : Bool) (spec : String) : Option ℕ :=
  (parseUnsigned (2 ^ 32) spec).or (if capMode then none else byName spec)

def resolveUid (nss : Nss) (capMode : Bool) (spec : String) : Option ℕ :=
  resolveId nss.user capMode spec

def resolveGid (nss : Nss) (capMode : Bool) (spec : String) : Option ℕ :=
  resolveId nss.group capMode spec

/-- `drop_privileges` (`security.rs:40-105`): the ids it resolved go back into the configuration. -/
def dropPrivileges (nss : Nss) (capMode : Bool) (cred : Cred) (cfg : SecurityConfig) :
    Option (Cred × SecurityConfig) := do
  let targetUid ← cfg.dropUid.mapM (resolveUid nss capMode)
  let targetGid ← cfg.dropGid.mapM (resolveGid nss capMode)
  let withGid ← targetGid.elim (some cred) cred.setgid
  let dropped ← targetUid.elim (some withGid) withGid.setuid
  if cred.uid = 0 ∧ dropped.uid ≠ 0 ∧ (dropped.setuid 0).isSome then none
  else
    some (dropped, { cfg with
      dropUid := (targetUid.map Nat.repr).or cfg.dropUid
      dropGid := (targetGid.map Nat.repr).or cfg.dropGid })

/-- The configuration file: who may read it is up to its mode. -/
structure File where
  text : String
  mayRead : ℕ → Bool

abbrev Disk := String → Option File

/-- A supervisor or a processor with the configuration it started with. -/
structure Process where
  env : Env
  cred : Cred
  capMode : Bool
  config : Config
  allow : PeerAllowlist

/-- `std::fs::read_to_string`: in capability mode no path can be opened. -/
def readToString (disk : Disk) (uid : ℕ) (capMode : Bool) (path : String) : Option String :=
  if capMode then none
  else (disk path).bind fun f => if f.mayRead uid then some f.text else none

def Process.load (F : Formats) (disk : Disk) (p : Process) : Except LoadError Config :=
  Config.load F p.env (readToString disk p.cred.uid p.capMode) none

/-- `main` and `supervisor::run` up to the allowlist: a `--config` flag is put into the environment
(`main.rs:75-81`). -/
def startSupervisor (F : Formats) (disk : Disk) (env : Env) (cred : Cred) (flag : Option String) :
    Option Process :=
  let env := flag.elim env fun p => (envConfigPath, p) :: env
  match Config.load F env (readToString disk cred.uid false) flag with
  | .error _ => none
  | .ok config => some ⟨env, cred, false, config, .fromConfig cred.uid config.allowedUids⟩

/-- Whether `apply_sandbox` enters capability mode. -/
def SecurityConfig.entersCapMode (os : Os) (c : SecurityConfig) : Bool :=
  os == .freebsd && c.effectiveSandbox .processor != .off

/-- `processor::run` (`processor.rs:52-91`): the allowlist is made before the privileges are
dropped. -/
def startProcessor (F : Formats) (os : Os) (nss : Nss) (disk : Disk) (env : Env) (cred : Cred)
    (capMode : Bool) : Option Process :=
  match Config.load F env (readToString disk cred.uid capMode) none with
  | .error _ => none
  | .ok config => (dropPrivileges nss capMode cred config.security).map fun (dropped, security) =>
    { env := env
      cred := dropped
      capMode := capMode || security.entersCapMode os
      config := { config with security := security }
      allow := .fromConfig cred.uid config.allowedUids }

/-- `cap_mode_handoff` (`handoff.rs:341-371`), as far as the configuration goes. -/
def capModeHandoff (F : Formats) (os : Os) (config : Config) (targetOverridden : Bool) :
    List (String × String) :=
  if os ≠ .freebsd ∨ targetOverridden = true ∨ config.security.effectiveSandbox .processor = .off then
    []
  else [(envConfigJson, F.toJson config)]

def Process.successorEnv (F : Formats) (os : Os) (p : Process) (targetOverridden : Bool) : Env :=
  capModeHandoff F os p.config targetOverridden ++ scrubFdpassEnv p.env

/-- `reload_supervisor_allowlist` (`supervisor/admin.rs:167-173`). -/
def reloadSupervisorAllowlist (F : Formats) (disk : Disk) (p : Process) :
    Except LoadError (List ℕ × PeerAllowlist) :=
  (p.load F disk).map fun new =>
    (new.allowedUids, .fromConfig p.cred.uid new.allowedUids)

/-- The supervisor's part of an admin Reload: an error is logged and the previous list kept. -/
def Process.adminReload (F : Formats) (disk : Disk) (p : Process) : Process :=
  match reloadSupervisorAllowlist F disk p with
  | .ok (_, allow) => { p with allow := allow }
  | .error _ => p

/-- The Reload arm of the processor's `run_control_client` (`processor/control.rs:91-103`). -/
def Process.controlReload (F : Formats) (disk : Disk) (p : Process) : Process :=
  match p.load F disk with
  | .ok new => { p with allow := .fromConfig p.cred.uid new.allowedUids }
  | .error _ => p

/-! ### The daemon -/

/-- `pending` are the Reload messages on the processor's control connection. -/
structure Daemon where
  disk : Disk
  supervisor : Process
  processor : Option Process
  pending : ℕ

/-- The file is edited; an admin Reload, whose message to the processor is sent or finds no
connection; the processor reads a Reload; it dies and is spawned again; an in-place upgrade of it
and one of the supervisor commit. -/
inductive DaemonAct where
  | edit (path : String) (file : Option File)
  | reload (sent : Bool)
  | deliver
  | lose
  | spawn
  | upgrade (targetOverridden : Bool)
  | selfUpgrade

def DaemonAct.edits : DaemonAct → Bool
  | .edit _ _ => true
  | _ => false

def Daemon.step (F : Formats) (os : Os) (nss : Nss) (s : Daemon) : DaemonAct → Option Daemon
  | .edit path file => some { s with disk := Function.update s.disk path file }
  | .reload sent =>
    some { s with
      supervisor := s.supervisor.adminReload F s.disk
      pending := if sent && s.processor.isSome then s.pending + 1 else s.pending }
  | .deliver => match s.processor with
    | some p =>
      if 0 < s.pending then
        some { s with processor := some (p.controlReload F s.disk), pending := s.pending - 1 }
      else none
    | none => none
  | .lose => some { s with processor := none, pending := 0 }
  | .spawn => match s.processor with
    | some _ => none
    | none => (startProcessor F os nss s.disk (scrubFdpassEnv s.supervisor.env) s.supervisor.cred
        false).map fun p => { s with processor := some p, pending := 0 }
  | .upgrade targetOverridden => match s.processor with
    | some p =>
      -- `execvp` of another binary needs a path
      if targetOverridden && p.capMode then none
      else (startProcessor F os nss s.disk (p.successorEnv F os targetOverridden) p.cred
        p.capMode).map fun q => { s with processor := some q, pending := 0 }
    | none => none
  | .selfUpgrade =>
    (startSupervisor F s.disk (scrubFdpassEnv s.supervisor.env) s.supervisor.cred none).map
      fun q => { s with supervisor := q }

/-- The daemon as its operator starts it. -/
def Daemon.start (F : Formats) (disk : Disk) (env : Env) (cred : Cred) (flag : Option String) :
    Option Daemon :=
  (startSupervisor F disk env cred flag).map fun q => ⟨disk, q, none, 0⟩

/-! ### What a load comes to -/

section Load
variable {F : Formats} {os : Os} {nss : Nss} {disk : Disk}

theorem Config.load_inherited (env : Env) (read : String → Option String) (flag : Option String)
    (json : String) (hjson : env.lookup envConfigJson = some json) :
    Config.load F env read flag = match F.fromJson json with
      | some cfg => .ok cfg
      | none => .error .inherited := by
  simp only [Config.load, hjson]

/-- Without an inherited configuration the file decides; `RUNTIME_DIRECTORY` does not touch the
uids. -/
theorem Config.load_file (env : Env) (read : String → Option String) (path text : String)
    (cfg : Config) (hjson : env.lookup envConfigJson = none)
    (hpath : env.lookup envConfigPath = some path) (hread : read path = some text)
    (hparse : F.toml text = some cfg) :
    ∃ new, Config.load F env read none = .ok new ∧ new.allowedUids = cfg.allowedUids := by
  simp only [Config.load, hjson, hpath, hread, hparse, Option.none_or, Except.map]
  cases env.lookup "RUNTIME_DIRECTORY" with
  | none => exact ⟨cfg, rfl, rfl⟩
  | some rd => exact ⟨{ cfg with socketsDir := rd }, rfl, rfl⟩

theorem Config.load_unread (env : Env) (read : String → Option String) (path : String)
    (hjson : env.lookup envConfigJson = none) (hpath : env.lookup envConfigPath = some path)
    (hread : read path = none) : Config.load F env read none = .error (.read path) := by
  simp only [Config.load, hjson, hpath, hread, Option.none_or, Except.map]

theorem readToString_some (uid : ℕ) (capMode : Bool) (path : String) (f : File)
    (hf : disk path = some f) : readToString disk uid capMode path =
      if capMode = false ∧ f.mayRead uid = true then some f.text else none := by
  cases capMode with
  | true => simp [readToString]
  | false => simp [readToString, hf]

theorem startSupervisor_cases (env : Env) (cred : Cred) (flag : Option String) (q : Process)
    (h : startSupervisor F disk env cred flag = some q) :
    q.env = flag.elim env (fun p => (envConfigPath, p) :: env) ∧ q.cred = cred ∧
    q.capMode = false ∧ ∃ cfg, Config.load F q.env (readToString disk cred.uid false) flag = .ok cfg ∧
      q.allow = .fromConfig cred.uid cfg.allowedUids := by
  simp only [startSupervisor] at h
  split at h
  · cases h
  · rename_i cfg hload
    cases h
    exact ⟨rfl, rfl, rfl, cfg, hload, rfl⟩

theorem startProcessor_cases (env : Env) (cred : Cred) (capMode : Bool) (q : Process)
    (h : startProcessor F os nss disk env cred capMode = some q) :
    q.env = env ∧ (capMode = true → q.capMode = true) ∧
    (q.capMode = false → q.config.security.entersCapMode os = false) ∧
    ∃ cfg, Config.load F env (readToString disk cred.uid capMode) none = .ok cfg ∧
      q.config.allowedUids = cfg.allowedUids := by
  simp only [startProcessor] at h
  split at h
  · cases h
  · rename_i cfg hload
    obtain ⟨⟨dropped, security⟩, -, rfl⟩ := Option.map_eq_some_iff.mp h
    refine ⟨rfl, ?_, ?_, cfg, hload, rfl⟩
    · intro hcap
      simp [hcap]
    · intro hcap
      exact (Bool.or_eq_false_iff.mp hcap).2

theorem successorEnv_path (p : Process) (targetOverridden : Bool) :
    (p.successorEnv F os targetOverridden).lookup envConfigPath = p.env.lookup envConfigPath := by
  unfold Process.successorEnv capModeHandoff
  have hne : (envConfigPath == envConfigJson) = false := by decide
  split
  · exact scrubFdpassEnv_path p.env
  · rw [List.singleton_append, List.lookup_cons]
    simp only [hne]
    exact scrubFdpassEnv_path p.env

/-- Only a sandboxed processor hands its configuration on. -/
theorem successorEnv_json (p : Process) (targetOverridden : Bool) (json : String)
    (h : (p.successorEnv F os targetOverridden).lookup envConfigJson = some json) :
    p.config.security.entersCapMode os = true ∧ json = F.toJson p.config := by
  unfold Process.successorEnv capModeHandoff at h
  split at h
  · rw [List.nil_append, scrubFdpassEnv_json] at h
    cases h
  · rename_i hsandbox
    simp only [not_or, not_not] at hsandbox
    rw [List.singleton_append, List.lookup_cons_self] at h
    cases h
    simp [SecurityConfig.entersCapMode, hsandbox.1, hsandbox.2.2]

theorem adminReload_frame (F : Formats) (disk : Disk) (p : Process) :
    (p.adminReload F disk).env = p.env ∧
    (p.adminReload F disk).cred = p.cred ∧ (p.adminReload F disk).capMode = p.capMode := by
  unfold Process.adminReload
  split <;> exact ⟨rfl, rfl, rfl⟩

theorem controlReload_frame (F : Formats) (disk : Disk) (p : Process) :
    (p.controlReload F disk).env = p.env ∧
    (p.controlReload F disk).cred = p.cred ∧ (p.controlReload F disk).capMode = p.capMode ∧
    (p.controlReload F disk).config = p.config := by
  unfold Process.controlReload
  split <;> exact ⟨rfl, rfl, rfl, rfl⟩

theorem adminReload_ok (p : Process) (new : Config) (h : p.load F disk = .ok new) :
    (p.adminReload F disk).allow = .fromConfig p.cred.uid new.allowedUids := by
  simp only [Process.adminReload, reloadSupervisorAllowlist, h, Except.map]

theorem adminReload_error (p : Process) (e : LoadError) (h : p.load F disk = .error e) :
    p.adminReload F disk = p := by
  simp only [Process.adminReload, reloadSupervisorAllowlist, h, Except.map]

theorem controlReload_ok (p : Process) (new : Config) (h : p.load F disk = .ok new) :
    (p.controlReload F disk).allow = .fromConfig p.cred.uid new.allowedUids := by
  simp only [Process.controlReload, h]

theorem controlReload_error (p : Process) (e : LoadError) (h : p.load F disk = .error e) :
    p.controlReload F disk = p := by
  simp only [Process.controlReload, h]

end Load

/-! ### The invariant of a run -/

/-- A processor of this daemon: its environment names the file of its supervisor, and a
configuration it inherited is the one it started with, in capability mode. -/
structure Process.Sound (F : Formats) (os : Os) (path : Option String) (p : Process) : Prop where
  path : p.env.lookup envConfigPath = path
  sandboxed : p.capMode = false → p.config.security.entersCapMode os = false
  inherited : ∀ json, p.env.lookup envConfigJson = some json → p.capMode = true ∧
    ∃ cfg, F.fromJson json = some cfg ∧ cfg.allowedUids = p.config.allowedUids

structure Daemon.Inv (F : Formats) (os : Os) (s : Daemon) : Prop where
  uninherited : s.supervisor.env.lookup envConfigJson = none
  unsandboxed : s.supervisor.capMode = false
  processor : ∀ p, s.processor = some p →
    p.Sound F os (s.supervisor.env.lookup envConfigPath)

section Run
variable {F : Formats} {os : Os} {nss : Nss} {s t : Daemon}

/-- The start of a processor on an environment that carries a configuration only if the process is
in capability mode already. -/
theorem startProcessor_sound (disk : Disk) (env : Env) (cred : Cred) (capMode : Bool) (q : Process)
    (hjson : ∀ json, env.lookup envConfigJson = some json → capMode = true)
    (h : startProcessor F os nss disk env cred capMode = some q) :
    q.Sound F os (env.lookup envConfigPath) := by
  obtain ⟨henv, hcap, hsandbox, cfg, hload, huids⟩ := startProcessor_cases env cred capMode q h
  refine ⟨by rw [henv], hsandbox, ?_⟩
  intro json hj
  rw [henv] at hj
  refine ⟨hcap (hjson json hj), ?_⟩
  rw [Config.load_inherited env _ none json hj] at hload
  cases hparse : F.fromJson json with
  | none => simp [hparse] at hload
  | some new =>
    simp only [hparse, Except.ok.injEq] at hload
    exact ⟨new, rfl, by rw [hload, huids]⟩

theorem Process.Sound.upgrade {path : Option String} {p q : Process} (hp : p.Sound F os path)
    (disk : Disk) (targetOverridden : Bool) (h : startProcessor F os nss disk
      (p.successorEnv F os targetOverridden) p.cred p.capMode = some q) : q.Sound F os path := by
  have hq := startProcessor_sound disk _ p.cred p.capMode q ?_ h
  · rwa [successorEnv_path, hp.path] at hq
  · intro json hj
    by_contra hcap
    have hoff := hp.sandboxed (by simpa using hcap)
    exact absurd (hoff.symm.trans (successorEnv_json p targetOverridden json hj).1) (by simp)

/-- What a step can do. -/
inductive Daemon.Move (F : Formats) (os : Os) (nss : Nss) (s : Daemon) : DaemonAct → Daemon → Prop
  | edit (path : String) (file : Option File) :
      Move F os nss s (.edit path file) { s with disk := Function.update s.disk path file }
  | reload (sent : Bool) (pending : ℕ) : Move F os nss s (.reload sent)
      { s with supervisor := s.supervisor.adminReload F s.disk, pending := pending }
  | deliver (p : Process) (hp : s.processor = some p) : Move F os nss s .deliver
      { s with processor := some (p.controlReload F s.disk), pending := s.pending - 1 }
  | lose : Move F os nss s .lose { s with processor := none, pending := 0 }
  | spawn (q : Process) (hq : startProcessor F os nss s.disk (scrubFdpassEnv s.supervisor.env)
      s.supervisor.cred false = some q) :
      Move F os nss s .spawn { s with processor := some q, pending := 0 }
  | upgrade (targetOverridden : Bool) (p q : Process) (hp : s.processor = some p)
      (hq : startProcessor F os nss s.disk (p.successorEnv F os targetOverridden) p.cred p.capMode =
        some q) :
      Move F os nss s (.upgrade targetOverridden) { s with processor := some q, pending := 0 }
  | selfUpgrade (q : Process) (hq : startSupervisor F s.disk (scrubFdpassEnv s.supervisor.env)
      s.supervisor.cred none = some q) :
      Move F os nss s .selfUpgrade { s with supervisor := q }

theorem Daemon.step_move (a : DaemonAct) (h : s.step F os nss a = some t) :
    Daemon.Move F os nss s a t := by
  cases a with
  | edit path file =>
    cases h
    exact .edit path file
  | reload sent =>
    cases h
    exact .reload sent _
  | deliver =>
    simp only [Daemon.step] at h
    split at h
    · rename_i p hp
      simp only [Option.ite_none_right_eq_some, Option.some.injEq] at h
      obtain ⟨-, rfl⟩ := h
      exact .deliver p hp
    · cases h
  | lose =>
    cases h
    exact .lose
  | spawn =>
    simp only [Daemon.step] at h
    split at h
    · cases h
    · obtain ⟨q, hq, rfl⟩ := Option.map_eq_some_iff.mp h
      exact .spawn q hq
  | upgrade targetOverridden =>
    simp only [Daemon.step] at h
    split at h
    · rename_i p hp
      simp only [Option.ite_none_left_eq_some, Option.map_eq_some_iff] at h
      obtain ⟨-, q, hq, rfl⟩ := h
      exact .upgrade targetOverridden p q hp hq
    · cases h
  | selfUpgrade =>
    obtain ⟨q, hq, rfl⟩ := Option.map_eq_some_iff.mp h
    exact .selfUpgrade q hq

theorem Process.Sound.reload {path : Option String} {p : Process} (hp : p.Sound F os path)
    (disk : Disk) : (p.controlReload F disk).Sound F os path := by
  obtain ⟨henv, -, hcap, hconfig⟩ := controlReload_frame F disk p
  refine ⟨?_, ?_, ?_⟩
  · rw [henv]
    exact hp.path
  · rw [hcap, hconfig]
    exact hp.sandboxed
  · rw [henv, hcap, hconfig]
    exact hp.inherited

theorem Daemon.Inv.step (hi : s.Inv F os) (a : DaemonAct) (h : s.step F os nss a = some t) :
    t.Inv F os := by
  cases Daemon.step_move a h with
  | edit path file => exact ⟨hi.uninherited, hi.unsandboxed, hi.processor⟩
  | reload sent pending =>
    obtain ⟨henv, -, hcap⟩ := adminReload_frame F s.disk s.supervisor
    refine ⟨?_, hcap.trans hi.unsandboxed, ?_⟩
    · simp only [henv]
      exact hi.uninherited
    · simp only [henv]
      exact hi.processor
  | deliver p hp =>
    refine ⟨hi.uninherited, hi.unsandboxed, ?_⟩
    intro q hq
    cases hq
    exact (hi.processor p hp).reload s.disk
  | lose =>
    refine ⟨hi.uninherited, hi.unsandboxed, ?_⟩
    intro p hp
    cases hp
  | spawn q hq =>
    refine ⟨hi.uninherited, hi.unsandboxed, ?_⟩
    intro p hp
    cases hp
    have hsound := startProcessor_sound s.disk _ _ false q ?_ hq
    · rwa [scrubFdpassEnv_path] at hsound
    · intro json hj
      rw [scrubFdpassEnv_json] at hj
      cases hj
  | upgrade targetOverridden p q hp hq =>
    refine ⟨hi.uninherited, hi.unsandboxed, ?_⟩
    intro p' hp'
    cases hp'
    exact (hi.processor p hp).upgrade s.disk targetOverridden hq
  | selfUpgrade q hq =>
    obtain ⟨henv, -, hcap, -⟩ := startSupervisor_cases _ _ none q hq
    rw [Option.elim_none] at henv
    refine ⟨?_, hcap, ?_⟩
    · show q.env.lookup envConfigJson = none
      rw [henv, scrubFdpassEnv_json]
    · intro p hp
      show p.Sound F os (q.env.lookup envConfigPath)
      rw [henv, scrubFdpassEnv_path]
      exact hi.processor p hp

theorem Daemon.start_inv (os : Os) (disk : Disk) (env : Env) (cred : Cred) (flag : Option String)
    (start : Daemon) (henv : env.lookup envConfigJson = none)
    (h : Daemon.start F disk env cred flag = some start) : start.Inv F os := by
  obtain ⟨q, hq, rfl⟩ := Option.map_eq_some_iff.mp h
  obtain ⟨hqenv, -, hcap, -⟩ := startSupervisor_cases env cred flag q hq
  have hne : (envConfigJson == envConfigPath) = false := by decide
  refine ⟨?_, hcap, ?_⟩
  · show q.env.lookup envConfigJson = none
    rw [hqenv]
    cases flag with
    | none => exact henv
    | some path =>
      simp only [Option.elim_some, List.lookup_cons, hne]
      exact henv
  · intro p hp
    cases hp

/-! ### A Reload -/

/-- The configuration file of the daemon and what it says, as the supervisor can read it. -/
def Daemon.OnDisk (F : Formats) (f : File) (cfg : Config) (s : Daemon) : Prop :=
  ∃ path, s.supervisor.env.lookup envConfigPath = some path ∧ s.disk path = some f ∧
    F.toml f.text = some cfg ∧ f.mayRead s.supervisor.cred.uid = true

theorem Daemon.step_frame (a : DaemonAct) (ha : a.edits = false) (h : s.step F os nss a = some t) :
    t.disk = s.disk ∧ t.supervisor.cred = s.supervisor.cred ∧
    t.supervisor.env.lookup envConfigPath = s.supervisor.env.lookup envConfigPath := by
  cases Daemon.step_move a h with
  | edit path file => simp [DaemonAct.edits] at ha
  | reload sent pending =>
    obtain ⟨henv, hcred, -⟩ := adminReload_frame F s.disk s.supervisor
    exact ⟨rfl, hcred, by rw [henv]⟩
  | selfUpgrade q hq =>
    obtain ⟨henv, hcred, -, -⟩ := startSupervisor_cases _ _ none q hq
    refine ⟨rfl, hcred, ?_⟩
    show q.env.lookup envConfigPath = s.supervisor.env.lookup envConfigPath
    rw [henv, Option.elim_none, scrubFdpassEnv_path]
  | deliver | lose | spawn | upgrade => exact ⟨rfl, rfl, rfl⟩

theorem Daemon.onDisk_iff (f : File) (cfg : Config) (a : DaemonAct) (ha : a.edits = false)
    (h : s.step F os nss a = some t) : t.OnDisk F f cfg ↔ s.OnDisk F f cfg := by
  obtain ⟨hdisk, hcred, hpath⟩ := Daemon.step_frame a ha h
  simp only [Daemon.OnDisk, hdisk, hcred, hpath]

/-- The supervisor loads what is on disk. -/
theorem Daemon.OnDisk.load {f : File} {cfg : Config} (hd : s.OnDisk F f cfg) (env : Env)
    (hjson : env.lookup envConfigJson = none)
    (hpath : env.lookup envConfigPath = s.supervisor.env.lookup envConfigPath) :
    ∃ new, Config.load F env (readToString s.disk s.supervisor.cred.uid false) none = .ok new ∧
      new.allowedUids = cfg.allowedUids := by
  obtain ⟨path, hp, hf, hparse, hread⟩ := hd
  refine Config.load_file env _ path f.text cfg hjson (hpath.trans hp) ?_ hparse
  simp only [readToString_some _ _ path f hf, hread, and_self, if_true]

def Daemon.Fresh (cfg : Config) (s : Daemon) : Prop :=
  s.supervisor.allow = .fromConfig s.supervisor.cred.uid cfg.allowedUids

theorem Daemon.fresh_reload {f : File} {cfg : Config} (hi : s.Inv F os) (hd : s.OnDisk F f cfg)
    (sent : Bool) (h : s.step F os nss (.reload sent) = some t) : t.Fresh cfg := by
  cases h
  obtain ⟨new, hload, huids⟩ := hd.load s.supervisor.env hi.uninherited rfl
  have hok : s.supervisor.load F s.disk = .ok new := by
    rw [Process.load, hi.unsandboxed]
    exact hload
  obtain ⟨-, hcred, -⟩ := adminReload_frame F s.disk s.supervisor
  show (s.supervisor.adminReload F s.disk).allow = _
  rw [adminReload_ok _ new hok, huids]
  simp only [hcred]

/-- As long as the file is not edited, no load of the supervisor changes its list again. -/
theorem Daemon.fresh_step {f : File} {cfg : Config} (hi : s.Inv F os) (hd : s.OnDisk F f cfg)
    (hs : s.Fresh cfg) (a : DaemonAct) (ha : a.edits = false) (h : s.step F os nss a = some t) :
    t.Fresh cfg := by
  cases Daemon.step_move a h with
  | edit path file => simp [DaemonAct.edits] at ha
  | reload sent pending => exact Daemon.fresh_reload hi hd sent h
  | selfUpgrade q hq =>
    obtain ⟨henv, hcred, -, new, hload, hallow⟩ := startSupervisor_cases _ _ none q hq
    rw [Option.elim_none] at henv
    obtain ⟨new', hload', huids⟩ := hd.load q.env
      (by rw [henv, scrubFdpassEnv_json]) (by rw [henv, scrubFdpassEnv_path])
    rw [hload'] at hload
    cases hload
    show q.allow = _
    rw [hallow, hcred, huids]
  | deliver | lose | spawn | upgrade => exact hs

/-- The processor has read a Reload in `s`, after the supervisor's part of one and with the file as it
was then. -/
def Daemon.Reloaded (F : Formats) (os : Os) (nss : Nss) (start s t : Daemon) : Prop :=
  ∃ (pre mid : List DaemonAct) (sent : Bool) (u : Daemon),
    exec (Daemon.step F os nss) start pre = some u ∧
    exec (Daemon.step F os nss) u (.reload sent :: mid) = some s ∧
    (∀ a ∈ mid, DaemonAct.edits a = false) ∧ s.step F os nss .deliver = some t

theorem Daemon.Reloaded.supervisor {start : Daemon} {f : File} {cfg : Config}
    (hstart : start.Inv F os) (h : Daemon.Reloaded F os nss start s t) (hd : s.OnDisk F f cfg) :
    s.Inv F os ∧ s.Fresh cfg := by
  obtain ⟨pre, mid, sent, u, hpre, hmid, hquiet, -⟩ := h
  obtain ⟨v, hv, hrest⟩ := exec_cons_some u s _ mid hmid
  have hu : u.Inv F os := exec_invariant (fun s a t hi ht => hi.step a ht) _ _ pre hstart hpre
  have halong : Along (Daemon.step F os nss) (fun _ a => a.edits = false) v mid :=
    along_of_forall (fun a => a.edits = false) (fun _ _ h => h) v mid hquiet
  -- the file was the same when the supervisor loaded it
  have hback : s.OnDisk F f cfg → v.OnDisk F f cfg := by
    refine exec_along (I := fun x : Daemon => x.OnDisk F f cfg → v.OnDisk F f cfg) ?_ v s mid id
      halong hrest
    intro x a y hx ha hy hon
    exact hx ((Daemon.onDisk_iff f cfg a ha hy).mp hon)
  have hdv := hback hd
  have hdu : u.OnDisk F f cfg := (Daemon.onDisk_iff f cfg _ rfl hv).mp hdv
  have hend : s.Inv F os ∧ s.OnDisk F f cfg ∧ s.Fresh cfg := by
    refine exec_along (I := fun x : Daemon => x.Inv F os ∧ x.OnDisk F f cfg ∧ x.Fresh cfg) ?_ v s mid
      ⟨hu.step _ hv, hdv, Daemon.fresh_reload hu hdu sent hv⟩ halong hrest
    intro x a y hx ha hy
    exact ⟨hx.1.step a hy, (Daemon.onDisk_iff f cfg a ha hy).mpr hx.2.1,
      Daemon.fresh_step hx.1 hx.2.1 hx.2.2 a ha hy⟩
  exact ⟨hend.1, hend.2.2⟩

/-! ### The processor's part -/

/-- What a processor that does not read the file is left with: the configuration it inherited, or the
list it has. -/
def Process.standing (p : Process) : PeerAllowlist :=
  match p.env.lookup envConfigJson with
  | some _ => .fromConfig p.cred.uid p.config.allowedUids
  | none => p.allow

/-- The processor can open the file, or what it is left with happens to be what the file says. -/
def Process.Follows (f : File) (cfg : Config) (p : Process) : Prop :=
  (p.capMode = false ∧ f.mayRead p.cred.uid = true) ∨
    p.standing = .fromConfig p.cred.uid cfg.allowedUids

theorem Process.Sound.reload_iff {path : String} {p : Process} (disk : Disk) (f : File)
    (cfg : Config) (hp : p.Sound F os (some path)) (hf : disk path = some f)
    (hparse : F.toml f.text = some cfg) :
    (p.controlReload F disk).allow = .fromConfig p.cred.uid cfg.allowedUids ↔ p.Follows f cfg := by
  have hread := readToString_some p.cred.uid p.capMode path f hf
  cases hjson : p.env.lookup envConfigJson with
  | some json =>
    obtain ⟨hcap, new, hnew, huids⟩ := hp.inherited json hjson
    have hload : p.load F disk = .ok new := by
      rw [Process.load, Config.load_inherited _ _ _ json hjson, hnew]
    have hstand : p.standing = .fromConfig p.cred.uid p.config.allowedUids := by
      simp only [Process.standing, hjson]
    rw [controlReload_ok p new hload, huids]
    simp only [Process.Follows, hcap, hstand, Bool.true_eq_false, false_and, false_or]
  | none =>
    by_cases hopen : p.capMode = false ∧ f.mayRead p.cred.uid = true
    · rw [if_pos hopen] at hread
      obtain ⟨new, hload, huids⟩ := Config.load_file p.env _ path f.text cfg hjson hp.path hread hparse
      rw [controlReload_ok p new hload, huids]
      simp only [Process.Follows, hopen, and_self, true_or]
    · rw [if_neg hopen] at hread
      have hload : p.load F disk = .error (.read path) :=
        Config.load_unread p.env _ path hjson hp.path hread
      have hstand : p.standing = p.allow := by simp only [Process.standing, hjson]
      rw [controlReload_error p _ hload]
      simp only [Process.Follows, hopen, hstand, false_or]

theorem PeerAllowlist.fromConfig_eq_iff (a b : ℕ) (configured : List ℕ) :
    fromConfig a configured = fromConfig b configured ↔ configured ≠ [] ∨ a = b := by
  cases configured with
  | nil => simp [fromConfig, currentUserOnly, fromUids]
  | cons x xs => simp [fromConfig]

end Run

/-- Reload agreement. Take any daemon as its operator starts it, and any run of edits, Reloads,
upgrades of either process and losses of the processor. When the processor has read a Reload, with
the file as the supervisor found it, the supervisor's allowlist is the one of the file. The
processor's is if and only if it `Follows`: it is not in capability mode and its account may read the
file, or the list it is left with says the same. Both lists are then one list unless the file lists
nobody and the two run as different users. A load that fails leaves either list as it was. -/
theorem reload_agreement (F : Formats) (os : Os) (nss : Nss) (disk : Disk) (env : Env) (cred : Cred)
    (flag : Option String) (henv : env.lookup envConfigJson = none) (start : Daemon)
    (hstart : Daemon.start F disk env cred flag = some start) :
    (∀ s t f cfg, Daemon.Reloaded F os nss start s t → s.OnDisk F f cfg →
      ∃ p p', s.processor = some p ∧ t.processor = some p' ∧
        t.supervisor.allow = .fromConfig t.supervisor.cred.uid cfg.allowedUids ∧
        (p'.allow = .fromConfig p'.cred.uid cfg.allowedUids ↔ p.Follows f cfg) ∧
        (p.Follows f cfg → (t.supervisor.allow = p'.allow ↔
          cfg.allowedUids ≠ [] ∨ t.supervisor.cred.uid = p'.cred.uid))) ∧
    (∀ s t e, Reachable (Daemon.step F os nss) start s →
      (∀ sent, s.step F os nss (.reload sent) = some t → s.supervisor.load F s.disk = .error e →
        t.supervisor.allow = s.supervisor.allow) ∧
      (∀ p, s.processor = some p → s.step F os nss .deliver = some t →
        p.load F s.disk = .error e → ∃ p', t.processor = some p' ∧ p'.allow = p.allow)) := by
  have hinv := Daemon.start_inv os disk env cred flag start henv hstart
  refine ⟨?_, ?_⟩
  · intro s t f cfg hreloaded hd
    obtain ⟨hi, hfresh⟩ := hreloaded.supervisor hinv hd
    obtain ⟨-, -, -, -, -, -, -, hdeliver⟩ := hreloaded
    obtain ⟨path, hpath, hf, hparse, -⟩ := hd
    cases Daemon.step_move _ hdeliver with
    | deliver p hp =>
      have hsound := hi.processor p hp
      rw [hpath] at hsound
      obtain ⟨-, hcred, -, -⟩ := controlReload_frame F s.disk p
      have hiff := hsound.reload_iff s.disk f cfg hf hparse
      refine ⟨p, p.controlReload F s.disk, hp, rfl, hfresh, ?_, ?_⟩
      · rw [hcred]
        exact hiff
      · intro hfollows
        rw [hiff.mpr hfollows, hcred]
        show s.supervisor.allow = _ ↔ _
        rw [hfresh]
        exact PeerAllowlist.fromConfig_eq_iff _ _ _
  · intro s t e _
    constructor
    · intro sent h hload
      cases h
      show (s.supervisor.adminReload F s.disk).allow = s.supervisor.allow
      rw [adminReload_error _ e hload]
    · intro p hp h hload
      cases Daemon.step_move _ h with
      | deliver p₁ hp₁ =>
        cases hp.symm.trans hp₁
        exact ⟨_, rfl, by rw [controlReload_error p e hload]⟩

/-! ### One daemon -/

/-- A sandboxed daemon that admits one user. -/
def strictConfig (uid : ℕ) : Config := ⟨"/tmp", [uid], ⟨none, none, .strict, []⟩⟩

def strictText (uid : ℕ) : String :=
  "[auth]\nallowed_uids = [" ++ uid.repr ++ "]\n[security]\nsandbox = \"strict\"\n"

def strictJson : String :=
  "\x7b\"sockets_dir\":\"/tmp\",\"auth\":\x7b\"allowed_uids\":[42]\x7d,\"security\":" ++
    "\x7b\"drop_uid\":null,\"drop_gid\":null,\"sandbox\":\"strict\"," ++
    "\"sandbox_overrides\":\x7b\x7d\x7d\x7d"

/-- `toml` and `serde_json` as far as this daemon needs them. -/
def strictFormats : Formats where
  toml text :=
    if text = strictText 42 then some (strictConfig 42)
    else if text = strictText 7 then some (strictConfig 7) else none
  toJson cfg := if cfg = strictConfig 42 then strictJson else ""
  fromJson text := if text = strictJson then some (strictConfig 42) else none

def strictFile (uid : ℕ) : File := ⟨strictText uid, fun _ => true⟩

def strictDisk : Disk := fun path =>
  if path = "/etc/fdpass.toml" then some (strictFile 42) else none

def strictEnv : Env := [(envConfigPath, "/etc/fdpass.toml")]

def noNames : Nss := ⟨fun _ => none, fun _ => none⟩

/-- The file is edited behind an upgrade. -/
def editedRun : List DaemonAct :=
  [.spawn, .upgrade false, .edit "/etc/fdpass.toml" (some (strictFile 7))]

theorem reload_agreement_linux : ∃ start s t p',
    Daemon.start strictFormats strictDisk strictEnv ⟨0, 0⟩ none = some start ∧
    Daemon.Reloaded strictFormats .linux noNames start s t ∧
    s.OnDisk strictFormats (strictFile 7) (strictConfig 7) ∧
    t.processor = some p' ∧ p'.allow = .fromConfig p'.cred.uid [7] := by
  have hrun : ∃ start u s t p,
      Daemon.start strictFormats strictDisk strictEnv ⟨0, 0⟩ none = some start ∧
      exec (Daemon.step strictFormats .linux noNames) start editedRun = some u ∧
      exec (Daemon.step strictFormats .linux noNames) u [.reload true] = some s ∧
      s.step strictFormats .linux noNames .deliver = some t ∧
      s.supervisor.env.lookup envConfigPath = some "/etc/fdpass.toml" ∧
      s.disk "/etc/fdpass.toml" = some (strictFile 7) ∧
      s.processor = some p ∧ p.capMode = false :=
    ⟨_, _, _, _, _, rfl, rfl, rfl, rfl, rfl, rfl, rfl, rfl⟩
  obtain ⟨start, u, s, t, p, hstart, hu, hs, ht, hpath, hdisk, hp, hcap⟩ := hrun
  have hreloaded : Daemon.Reloaded strictFormats .linux noNames start s t :=
    ⟨editedRun, [], true, u, hu, hs, by simp, ht⟩
  have hd : s.OnDisk strictFormats (strictFile 7) (strictConfig 7) :=
    ⟨_, hpath, hdisk, by decide, rfl⟩
  obtain ⟨q, p', hq, hp', -, hiff, -⟩ := (reload_agreement strictFormats .linux noNames strictDisk
    strictEnv ⟨0, 0⟩ none (by decide) start hstart).1 s t _ _ hreloaded hd
  cases hp.symm.trans hq
  exact ⟨start, s, t, p', hstart, hreloaded, hd, hp', hiff.mpr (Or.inl ⟨hcap, rfl⟩)⟩

/-- In capability mode the processor goes back to the configuration its predecessor left it. -/
theorem reload_agreement_stale : ∃ start s t p',
    Daemon.start strictFormats strictDisk strictEnv ⟨0, 0⟩ none = some start ∧
    Daemon.Reloaded strictFormats .freebsd noNames start s t ∧
    s.OnDisk strictFormats (strictFile 7) (strictConfig 7) ∧
    t.supervisor.allow = .fromConfig t.supervisor.cred.uid [7] ∧
    t.processor = some p' ∧ p'.allow ≠ .fromConfig p'.cred.uid [7] := by
  have hrun : ∃ start u s t p',
      Daemon.start strictFormats strictDisk strictEnv ⟨0, 0⟩ none = some start ∧
      exec (Daemon.step strictFormats .freebsd noNames) start editedRun = some u ∧
      exec (Daemon.step strictFormats .freebsd noNames) u [.reload true] = some s ∧
      s.step strictFormats .freebsd noNames .deliver = some t ∧
      s.supervisor.env.lookup envConfigPath = some "/etc/fdpass.toml" ∧
      s.disk "/etc/fdpass.toml" = some (strictFile 7) ∧
      t.supervisor.allow = .fromConfig t.supervisor.cred.uid [7] ∧
      t.processor = some p' ∧ p'.cred.uid = 0 ∧ p'.allow = .fromUids [42] :=
    ⟨_, _, _, _, _, rfl, rfl, rfl, rfl, rfl, rfl, rfl, rfl, rfl, rfl⟩
  obtain ⟨start, u, s, t, p', hstart, hu, hs, ht, hpath, hdisk, hsup, hp', huid, hallow⟩ := hrun
  refine ⟨start, s, t, p', hstart, ⟨editedRun, [], true, u, hu, hs, by simp, ht⟩,
    ⟨_, hpath, hdisk, by decide, rfl⟩, hsup, hp', ?_⟩
  rw [hallow, huid]
  decide

end FiveNinesEcho.Supervisor
