import FiveNinesEcho.Lib.Mapping
import FiveNinesEcho.Lib.Environ
import FiveNinesEcho.Control.Messages

/-!
# The configuration (`config.rs:14-283`)

Every section and every field has a default. A path is bytes, and travels as text: `P` is the one or
the other. `toml`, which reads the file, is not part of the repository; `serde_json` is `JsonText`.
-/

namespace FiveNinesEcho.Configuration
open Lib Control

/-! ### Its sections -/

inductive SandboxMode where
  | off
  | strict
  | log
  deriving Repr, DecidableEq

structure FaultPointConfig where
  name : String
  kind : String
  message : String
  triggerBudget : UInt32

structure FaultInjectConfig where
  points : List FaultPointConfig

structure AuthConfig where
  allowedUids : List UInt32

structure TlsConfig (P : Type) where
  certPath : P
  keyPath : P

structure LimitsConfig where
  maxInFlightPerRole : UInt64
  tlsIdleTimeoutSecs : UInt64
  acceptRatePerIp : UInt32
  acceptRateBurst : UInt32
  rateLimitMaxTrackedIps : UInt64
  rateLimitBucketIdleTtlSecs : UInt64

structure MetricsConfig (P : Type) where
  path : P
  intervalSecs : UInt64

structure HealthConfig where
  bindAddr : String

structure SecurityConfig where
  dropUid : Option String
  dropGid : Option String
  sandbox : SandboxMode
  sandboxOverrides : OrderedMap String SandboxMode

def SecurityConfig.effectiveSandbox (c : SecurityConfig) (role : String) : SandboxMode :=
  (c.sandboxOverrides.get role).getD c.sandbox

structure Config (P : Type) where
  socketsDir : P
  plainPort : UInt16
  tlsPort : UInt16
  readyTimeoutSecs : UInt64
  identdPort : UInt16
  auth : AuthConfig
  tls : TlsConfig P
  limits : LimitsConfig
  metrics : MetricsConfig P
  health : HealthConfig
  security : SecurityConfig
  faultInject : FaultInjectConfig

/-! ### Defaults -/

def FaultPointConfig.default : FaultPointConfig := ⟨"", "", "", 0⟩
def FaultInjectConfig.default : FaultInjectConfig := ⟨[]⟩
def AuthConfig.default : AuthConfig := ⟨[]⟩
def TlsConfig.default : TlsConfig String := ⟨"certs/server.crt", "certs/server.key"⟩
def LimitsConfig.default : LimitsConfig := ⟨1024, 300, 50, 100, 65536, 300⟩
def MetricsConfig.default : MetricsConfig String := ⟨"", 15⟩
def HealthConfig.default : HealthConfig := ⟨"127.0.0.1:7079"⟩
def SecurityConfig.default : SecurityConfig := ⟨none, none, .off, .empty⟩

def Config.default : Config String where
  socketsDir := "/tmp"
  plainPort := 7070
  tlsPort := 7071
  readyTimeoutSecs := 3
  identdPort := 113
  limits := .default
  metrics := .default
  health := .default
  auth := .default
  tls := .default
  security := .default
  faultInject := .default

/-! ### Sections as documents -/

def SandboxMode.name : SandboxMode → String
  | .off => "off"
  | .strict => "strict"
  | .log => "log"

def SandboxMode.variant : String → Option SandboxMode
  | "off" => some .off
  | "strict" => some .strict
  | "log" => some .log
  | _ => none

def nullOnly : Json → Bool
  | .null => true
  | _ => false

def SandboxMode.shape : Shape SandboxMode :=
  enumeration nullOnly name variant fun a => by cases a <;> rfl

def FaultPointConfig.members (c : FaultPointConfig) : Members :=
  [("name", text.write c.name), ("kind", text.write c.kind), ("message", text.write c.message),
    ("trigger_budget", u32.write c.triggerBudget)]

def FaultPointConfig.readFrom (s : Source) : Option FaultPointConfig := do
  let name ← s.field 0 "name" text.read (some default.name)
  let kind ← s.field 1 "kind" text.read (some default.kind)
  let message ← s.field 2 "message" text.read (some default.message)
  let triggerBudget ← s.field 3 "trigger_budget" u32.read (some default.triggerBudget)
  return { name, kind, message, triggerBudget }

theorem FaultPointConfig.readFrom_members (c : FaultPointConfig) :
    readFrom (.map c.members) = some c := by
  simp [readFrom, members, Source.field, Source.values, text.read_write, u32.read_write]

theorem FaultPointConfig.members_fit (c : FaultPointConfig) : FitsAll 0 c.members :=
  .cons _ _ _ (by decide) (.cons _ _ _ (by decide) (.cons _ _ _ (by decide)
    (.cons _ _ _ (by decide) (.nil 0))))

def FaultPointConfig.shape : Shape FaultPointConfig :=
  record 4 0 members readFrom readFrom_members members_fit

def FaultInjectConfig.members (c : FaultInjectConfig) : Members :=
  [("points", (vec FaultPointConfig.shape).write c.points)]

def FaultInjectConfig.readFrom (s : Source) : Option FaultInjectConfig := do
  let points ← s.field 0 "points" (vec FaultPointConfig.shape).read (some default.points)
  return { points }

theorem FaultInjectConfig.readFrom_members (c : FaultInjectConfig) :
    readFrom (.map c.members) = some c := by
  simp [readFrom, members, Source.field, Source.values, (vec FaultPointConfig.shape).read_write]

theorem FaultInjectConfig.members_fit (c : FaultInjectConfig) : FitsAll 2 c.members :=
  .cons _ _ _ (by decide) (.nil 2)

def FaultInjectConfig.shape : Shape FaultInjectConfig :=
  record 1 2 members readFrom readFrom_members members_fit

def AuthConfig.members (c : AuthConfig) : Members :=
  [("allowed_uids", (vec u32).write c.allowedUids)]

def AuthConfig.readFrom (s : Source) : Option AuthConfig := do
  let allowedUids ← s.field 0 "allowed_uids" (vec u32).read (some default.allowedUids)
  return { allowedUids }

theorem AuthConfig.readFrom_members (c : AuthConfig) : readFrom (.map c.members) = some c := by
  simp [readFrom, members, Source.field, Source.values, (vec u32).read_write]

theorem AuthConfig.members_fit (c : AuthConfig) : FitsAll 1 c.members :=
  .cons _ _ _ (by decide) (.nil 1)

def AuthConfig.shape : Shape AuthConfig := record 1 1 members readFrom readFrom_members members_fit

def TlsConfig.members (c : TlsConfig String) : Members :=
  [("cert_path", text.write c.certPath), ("key_path", text.write c.keyPath)]

def TlsConfig.readFrom (s : Source) : Option (TlsConfig String) := do
  let certPath ← s.field 0 "cert_path" text.read (some default.certPath)
  let keyPath ← s.field 1 "key_path" text.read (some default.keyPath)
  return { certPath, keyPath }

theorem TlsConfig.readFrom_members (c : TlsConfig String) : readFrom (.map c.members) = some c := by
  simp [readFrom, members, Source.field, Source.values, text.read_write]

theorem TlsConfig.members_fit (c : TlsConfig String) : FitsAll 0 c.members :=
  .cons _ _ _ (by decide) (.cons _ _ _ (by decide) (.nil 0))

def TlsConfig.shape : Shape (TlsConfig String) :=
  record 2 0 members readFrom readFrom_members members_fit

def LimitsConfig.members (c : LimitsConfig) : Members :=
  [("max_in_flight_per_role", u64.write c.maxInFlightPerRole),
    ("tls_idle_timeout_secs", u64.write c.tlsIdleTimeoutSecs),
    ("accept_rate_per_ip", u32.write c.acceptRatePerIp),
    ("accept_rate_burst", u32.write c.acceptRateBurst),
    ("rate_limit_max_tracked_ips", u64.write c.rateLimitMaxTrackedIps),
    ("rate_limit_bucket_idle_ttl_secs", u64.write c.rateLimitBucketIdleTtlSecs)]

def LimitsConfig.readFrom (s : Source) : Option LimitsConfig := do
  let maxInFlightPerRole ← s.field 0 "max_in_flight_per_role" u64.read
    (some default.maxInFlightPerRole)
  let tlsIdleTimeoutSecs ← s.field 1 "tls_idle_timeout_secs" u64.read
    (some default.tlsIdleTimeoutSecs)
  let acceptRatePerIp ← s.field 2 "accept_rate_per_ip" u32.read (some default.acceptRatePerIp)
  let acceptRateBurst ← s.field 3 "accept_rate_burst" u32.read (some default.acceptRateBurst)
  let rateLimitMaxTrackedIps ← s.field 4 "rate_limit_max_tracked_ips" u64.read
    (some default.rateLimitMaxTrackedIps)
  let rateLimitBucketIdleTtlSecs ← s.field 5 "rate_limit_bucket_idle_ttl_secs" u64.read
    (some default.rateLimitBucketIdleTtlSecs)
  return ⟨maxInFlightPerRole, tlsIdleTimeoutSecs, acceptRatePerIp, acceptRateBurst,
    rateLimitMaxTrackedIps, rateLimitBucketIdleTtlSecs⟩

theorem LimitsConfig.readFrom_members (c : LimitsConfig) : readFrom (.map c.members) = some c := by
  simp [readFrom, members, Source.field, Source.values, u32.read_write, u64.read_write]

theorem LimitsConfig.members_fit (c : LimitsConfig) : FitsAll 0 c.members := by
  have hu32 : u32.depth ≤ 0 := by decide
  have hu64 : u64.depth ≤ 0 := by decide
  exact .cons _ _ _ hu64 (.cons _ _ _ hu64 (.cons _ _ _ hu32 (.cons _ _ _ hu32
    (.cons _ _ _ hu64 (.cons _ _ _ hu64 (.nil 0))))))

def LimitsConfig.shape : Shape LimitsConfig :=
  record 6 0 members readFrom readFrom_members members_fit

def MetricsConfig.members (c : MetricsConfig String) : Members :=
  [("path", text.write c.path), ("interval_secs", u64.write c.intervalSecs)]

def MetricsConfig.readFrom (s : Source) : Option (MetricsConfig String) := do
  let path ← s.field 0 "path" text.read (some default.path)
  let intervalSecs ← s.field 1 "interval_secs" u64.read (some default.intervalSecs)
  return { path, intervalSecs }

theorem MetricsConfig.readFrom_members (c : MetricsConfig String) :
    readFrom (.map c.members) = some c := by
  simp [readFrom, members, Source.field, Source.values, text.read_write, u64.read_write]

theorem MetricsConfig.members_fit (c : MetricsConfig String) : FitsAll 0 c.members :=
  .cons _ _ _ (by decide) (.cons _ _ _ (by decide) (.nil 0))

def MetricsConfig.shape : Shape (MetricsConfig String) :=
  record 2 0 members readFrom readFrom_members members_fit

def HealthConfig.members (c : HealthConfig) : Members := [("bind_addr", text.write c.bindAddr)]

def HealthConfig.readFrom (s : Source) : Option HealthConfig := do
  let bindAddr ← s.field 0 "bind_addr" text.read (some default.bindAddr)
  return { bindAddr }

theorem HealthConfig.readFrom_members (c : HealthConfig) : readFrom (.map c.members) = some c := by
  simp [readFrom, members, Source.field, Source.values, text.read_write]

theorem HealthConfig.members_fit (c : HealthConfig) : FitsAll 0 c.members :=
  .cons _ _ _ (by decide) (.nil 0)

def HealthConfig.shape : Shape HealthConfig :=
  record 1 0 members readFrom readFrom_members members_fit

/-- Nothing is left out where there is no account to drop to: the member is `null`. -/
def SecurityConfig.members (c : SecurityConfig) : Members :=
  [("drop_uid", writeOption text c.dropUid), ("drop_gid", writeOption text c.dropGid),
    ("sandbox", SandboxMode.shape.write c.sandbox),
    ("sandbox_overrides", (mapping SandboxMode.shape).write c.sandboxOverrides)]

def SecurityConfig.readFrom (s : Source) : Option SecurityConfig := do
  let dropUid ← s.field 0 "drop_uid" (readOption text.read) (some default.dropUid)
  let dropGid ← s.field 1 "drop_gid" (readOption text.read) (some default.dropGid)
  let sandbox ← s.field 2 "sandbox" SandboxMode.shape.read (some default.sandbox)
  let sandboxOverrides ← s.field 3 "sandbox_overrides" (mapping SandboxMode.shape).read
    (some default.sandboxOverrides)
  return { dropUid, dropGid, sandbox, sandboxOverrides }

theorem SecurityConfig.readFrom_members (c : SecurityConfig) :
    readFrom (.map c.members) = some c := by
  simp [readFrom, members, Source.field, Source.values, readOption_writeOption,
    SandboxMode.shape.read_write, (mapping SandboxMode.shape).read_write]

theorem SecurityConfig.members_fit (c : SecurityConfig) : FitsAll 1 c.members := by
  intro kv hkv
  simp only [members, List.mem_cons, List.not_mem_nil, or_false] at hkv
  rcases hkv with rfl | rfl | rfl | rfl
  · exact writeOption_fits text _ 1 (by decide)
  · exact writeOption_fits text _ 1 (by decide)
  · exact SandboxMode.shape.fits_of_le _ 1 (by decide)
  · exact (mapping SandboxMode.shape).fits _

def SecurityConfig.shape : Shape SecurityConfig :=
  record 4 1 members readFrom readFrom_members members_fit

/-! ### The whole of it -/

def Config.members (c : Config String) : Members :=
  [("sockets_dir", text.write c.socketsDir), ("plain_port", u16.write c.plainPort),
    ("tls_port", u16.write c.tlsPort), ("ready_timeout_secs", u64.write c.readyTimeoutSecs),
    ("identd_port", u16.write c.identdPort), ("auth", AuthConfig.shape.write c.auth),
    ("tls", TlsConfig.shape.write c.tls), ("limits", LimitsConfig.shape.write c.limits),
    ("metrics", MetricsConfig.shape.write c.metrics), ("health", HealthConfig.shape.write c.health),
    ("security", SecurityConfig.shape.write c.security),
    ("fault_inject", FaultInjectConfig.shape.write c.faultInject)]

def Config.readFrom (s : Source) : Option (Config String) := do
  let socketsDir ← s.field 0 "sockets_dir" text.read (some default.socketsDir)
  let plainPort ← s.field 1 "plain_port" u16.read (some default.plainPort)
  let tlsPort ← s.field 2 "tls_port" u16.read (some default.tlsPort)
  let readyTimeoutSecs ← s.field 3 "ready_timeout_secs" u64.read (some default.readyTimeoutSecs)
  let identdPort ← s.field 4 "identd_port" u16.read (some default.identdPort)
  let auth ← s.field 5 "auth" AuthConfig.shape.read (some default.auth)
  let tls ← s.field 6 "tls" TlsConfig.shape.read (some default.tls)
  let limits ← s.field 7 "limits" LimitsConfig.shape.read (some default.limits)
  let metrics ← s.field 8 "metrics" MetricsConfig.shape.read (some default.metrics)
  let health ← s.field 9 "health" HealthConfig.shape.read (some default.health)
  let security ← s.field 10 "security" SecurityConfig.shape.read (some default.security)
  let faultInject ← s.field 11 "fault_inject" FaultInjectConfig.shape.read
    (some default.faultInject)
  return ⟨socketsDir, plainPort, tlsPort, readyTimeoutSecs, identdPort, auth, tls, limits, metrics,
    health, security, faultInject⟩

theorem Config.readFrom_members (c : Config String) : readFrom (.map c.members) = some c := by
  simp [readFrom, members, Source.field, Source.values, text.read_write, u16.read_write,
    u64.read_write, AuthConfig.shape.read_write, TlsConfig.shape.read_write,
    LimitsConfig.shape.read_write, MetricsConfig.shape.read_write, HealthConfig.shape.read_write,
    SecurityConfig.shape.read_write, FaultInjectConfig.shape.read_write]

theorem Config.members_fit (c : Config String) : FitsAll 3 c.members := by
  have htext : text.depth ≤ 3 := by decide
  have hu16 : u16.depth ≤ 3 := by decide
  exact .cons _ _ _ htext (.cons _ _ _ hu16 (.cons _ _ _ hu16 (.cons _ _ _ (by decide)
    (.cons _ _ _ hu16 (.cons _ _ _ (by decide) (.cons _ _ _ (by decide) (.cons _ _ _ (by decide)
    (.cons _ _ _ (by decide) (.cons _ _ _ (by decide) (.cons _ _ _ (by decide)
    (.cons _ _ _ (by decide) (.nil 3))))))))))))

def Config.shape : Shape (Config String) :=
  record 12 3 members readFrom readFrom_members members_fit

/-! ### Paths -/

def Config.mapPaths {P Q : Type} (f : P → Q) (c : Config P) : Config Q :=
  { c with
    socketsDir := f c.socketsDir
    tls := ⟨f c.tls.certPath, f c.tls.keyPath⟩
    metrics := ⟨f c.metrics.path, c.metrics.intervalSecs⟩ }

/-- A path that was read as text is its bytes. -/
def Config.paths (c : Config String) : Config PathBuf := c.mapPaths utf8

/-- A path is written by `to_str`, if it is UTF-8. -/
def Config.texts (c : Config PathBuf) : Option (Config String) := do
  let socketsDir ← fromUtf8 c.socketsDir
  let certPath ← fromUtf8 c.tls.certPath
  let keyPath ← fromUtf8 c.tls.keyPath
  let path ← fromUtf8 c.metrics.path
  return { c with
    socketsDir := socketsDir
    tls := ⟨certPath, keyPath⟩
    metrics := ⟨path, c.metrics.intervalSecs⟩ }

theorem Config.texts_eq_some_iff (c : Config PathBuf) (t : Config String) :
    c.texts = some t ↔ c = t.paths := by
  constructor
  · intro h
    simp only [texts, Option.bind_eq_bind, Option.bind_eq_some_iff, Option.pure_def,
      Option.some.injEq] at h
    obtain ⟨dir, hdir, cert, hcert, key, hkey, path, hpath, rfl⟩ := h
    simp only [paths, mapPaths, utf8_of_fromUtf8 _ _ hdir, utf8_of_fromUtf8 _ _ hcert,
      utf8_of_fromUtf8 _ _ hkey, utf8_of_fromUtf8 _ _ hpath]
  · rintro rfl
    simp [texts, paths, mapPaths, fromUtf8_utf8]

/-! ### As JSON -/

/-- `serde_json::to_string`. -/
def Config.toJson (J : JsonText) (c : Config PathBuf) : Option String :=
  c.texts.map fun t => J.render (Config.shape.write t)

/-- `serde_json::from_str`. -/
def Config.fromJson (J : JsonText) (s : String) : Option (Config PathBuf) :=
  ((J.parse s).bind Config.shape.read).map Config.paths

theorem Config.write_fits (t : Config String) : (Config.shape.write t).Fits 127 :=
  (Config.shape.fits t).mono (by decide)

theorem Config.fromJson_render (J : JsonText) (t : Config String) :
    Config.fromJson J (J.render (Config.shape.write t)) = some t.paths := by
  rw [Config.fromJson, J.parse_render _ t.write_fits, Option.bind_some, Config.shape.read_write,
    Option.map_some]

end FiveNinesEcho.Configuration
