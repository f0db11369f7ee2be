import FiveNinesEcho.Control.Messages
import FiveNinesEcho.Lib.Exposition
import FiveNinesEcho.Supervisor.Counters
import FiveNinesEcho.Supervisor.SelfUpgrade

/-!
# The metrics file (`metrics.rs:76-359`, `supervisor/metrics.rs:34-57`)

A snapshot puts the watchdogs' view of the four roles together with what the workers that answered
said of themselves, and is rendered line by line. The counters are walked in the order of their hash
maps, which is any. What a scraper gets out of the file is the snapshot: the lines are families of
the text format, no series comes twice, and nothing of the snapshot is lost.
-/

namespace FiveNinesEcho.Metrics
open Lib Control
open Supervisor (RoleName UpgradeCounters allRoles)

/-! ### The snapshot -/

/-- What a watchdog knows of its role, with the health state worked out. -/
structure Vitals where
  state : HealthState
  consecutiveFastExits : UInt32
  nextBackoffMs : UInt64
  totalRestarts : UInt64
  lastRestartAtUnixMs : Option UInt64

def Vitals.snapshot (v : Vitals) (role : String) : RoleHealth :=
  ⟨role, v.state, v.consecutiveFastExits, v.nextBackoffMs, v.totalRestarts, v.lastRestartAtUnixMs⟩

def watchdogsSnapshot (wd : String → Vitals) : List RoleHealth :=
  ["processor", "plain", "tls", "scanner"].map fun r => (wd r).snapshot r

structure UpgradeMetric where
  role : String
  outcome : String
  value : ℕ
  deriving Repr, DecidableEq

/-- The order in which each map of the counters is walked. -/
structure WalkOrder where
  order : String → List RoleName
  perm : ∀ outcome, (order outcome).Perm allRoles

def UpgradeCounters.snapshot (c : UpgradeCounters) (walk : WalkOrder) : List UpgradeMetric :=
  [(c.committed, "committed"), (c.timedOut, "timed_out"), (c.canaryAborted, "canary_aborted"),
    (c.skipped, "skipped")].flatMap fun (map, outcome) =>
      (walk.order outcome).map fun role => ⟨role.text, outcome, map role⟩

structure RoleMetrics where
  role : String
  generation : UInt64
  inFlight : UInt64
  pid : UInt32
  health : HealthState
  consecutiveFastExits : UInt32
  totalRestarts : UInt64
  lastRestartAtUnixMs : Option UInt64
  rateLimiterStats : Option RateLimiterStats
  deriving Repr, DecidableEq

structure MetricsSnapshot where
  supervisorGeneration : UInt64
  supervisorStartedAtUnixMs : UInt64
  roles : List RoleMetrics
  upgrades : List UpgradeMetric
  deriving Repr, DecidableEq

def MetricsSnapshot.fromParts (supervisorGeneration supervisorStartedAtUnixMs : UInt64)
    (statuses : List WorkerStatus) (healths : List RoleHealth) (upgrades : List UpgradeMetric) :
    MetricsSnapshot where
  supervisorGeneration := supervisorGeneration
  supervisorStartedAtUnixMs := supervisorStartedAtUnixMs
  roles := healths.map fun h =>
    let status := statuses.find? fun s => s.role = h.role
    { role := h.role
      generation := (status.map (·.generation)).getD 0
      inFlight := (status.map (·.inFlight)).getD 0
      pid := (status.map (·.pid)).getD 0
      health := h.state
      consecutiveFastExits := h.consecutiveFastExits
      totalRestarts := h.totalRestarts
      lastRestartAtUnixMs := h.lastRestartAtUnixMs
      rateLimiterStats := status.bind (·.rateLimiterStats) }
  upgrades := upgrades

/-! ### Rendering -/

def padded (width n : ℕ) : String :=
  String.ofList (List.replicate (width - (Nat.toDigits 10 n).length) '0' ++ Nat.toDigits 10 n)

def unixMsAsSeconds (ms : UInt64) : String :=
  (ms.toNat / 1000).repr ++ "." ++ padded 3 (ms.toNat % 1000)

def HealthState.number : HealthState → ℕ
  | .healthy => 0
  | .backoff => 1
  | .flapping => 2
  | .failed => 3

/-- The reasons for which a bucket goes, with their counts. -/
def evictions (stats : RateLimiterStats) : List (String × UInt64) :=
  [("idle", stats.idleEvictions), ("lru", stats.lruEvictions), ("cap_refused", stats.capRefused)]

namespace MetricsSnapshot
variable (self : MetricsSnapshot)

/-- A line for each role. -/
def perRole (value : RoleMetrics → String) : List Sample :=
  self.roles.map fun r => ⟨[("role", r.role)], value r⟩

/-- The lines that only a role with a rate limiter has. -/
def perLimiter (samples : String → RateLimiterStats → List Sample) : List Sample :=
  self.roles.flatMap fun r => match r.rateLimiterStats with
    | none => []
    | some stats => samples r.role stats

def trackedSample (role : String) (stats : RateLimiterStats) : List Sample :=
  [⟨[("role", role)], stats.trackedIps.toNat.repr⟩]

def evictionSamples (role : String) (stats : RateLimiterStats) : List Sample :=
  (evictions stats).map fun (reason, count) =>
    ⟨[("role", role), ("reason", reason)], count.toNat.repr⟩

def writeSupervisorMetrics : List Family :=
  [⟨"fdpass_supervisor_generation", "Current supervisor generation.", "gauge",
      [⟨[], self.supervisorGeneration.toNat.repr⟩]⟩,
    ⟨"fdpass_supervisor_started_at_seconds", "Unix epoch when this supervisor started.", "gauge",
      [⟨[], unixMsAsSeconds self.supervisorStartedAtUnixMs⟩]⟩]

def writeWorkerIdentityMetrics : List Family :=
  [⟨"fdpass_worker_generation", "Current generation of the worker process.", "gauge",
      self.perRole fun r => r.generation.toNat.repr⟩,
    ⟨"fdpass_worker_in_flight", "Currently-tracked sessions for the worker.", "gauge",
      self.perRole fun r => r.inFlight.toNat.repr⟩,
    ⟨"fdpass_worker_pid", "Current worker pid (0 if no live worker).", "gauge",
      self.perRole fun r => r.pid.toNat.repr⟩]

def writeWorkerHealthMetrics : List Family :=
  [⟨"fdpass_worker_health", "Watchdog state (0=healthy 1=backoff 2=flapping 3=failed).", "gauge",
      self.perRole fun r => (HealthState.number r.health).repr⟩,
    ⟨"fdpass_worker_consecutive_fast_exits", "Current fast-exit counter.", "gauge",
      self.perRole fun r => r.consecutiveFastExits.toNat.repr⟩]

def writeWorkerRestartMetrics : List Family :=
  [⟨"fdpass_worker_restarts_total", "Total times the watchdog respawned the worker.", "counter",
      self.perRole fun r => r.totalRestarts.toNat.repr⟩,
    ⟨"fdpass_worker_last_restart_seconds", "Unix epoch of the most recent respawn (0 if never).",
      "gauge", self.perRole fun r => r.lastRestartAtUnixMs.elim "0" unixMsAsSeconds⟩]

def writeUpgradeMetrics : List Family :=
  [⟨"fdpass_upgrade_total",
      "Per-role upgrade outcomes (committed/timed_out/canary_aborted/skipped).", "counter",
      self.upgrades.map fun u => ⟨[("role", u.role), ("outcome", u.outcome)], u.value.repr⟩⟩]

def writeRateLimiterMetrics : List Family :=
  [⟨"fdpass_ratelimit_tracked_ips", "Current number of tracked IPs in per-IP rate limiter.",
      "gauge", self.perLimiter trackedSample⟩,
    ⟨"fdpass_ratelimit_evictions_total", "Total rate limiter bucket evictions by reason.",
      "counter", self.perLimiter evictionSamples⟩]

def families : List Family :=
  self.writeSupervisorMetrics ++ self.writeWorkerIdentityMetrics ++
    self.writeWorkerHealthMetrics ++ self.writeWorkerRestartMetrics ++ self.writeUpgradeMetrics ++
    self.writeRateLimiterMetrics

/-- `write_metric_header` and `writeln!` are the lines of `Family.lines`. -/
def render : String := exposition self.families

end MetricsSnapshot

/-! ### What one tick of the writer gathers -/

structure Gathered where
  supGeneration : UInt64
  startedAtUnixMs : UInt64
  watchdogs : String → Vitals
  statuses : List WorkerStatus
  upgradeCounters : UpgradeCounters
  walk : WalkOrder

def Gathered.snapshot (g : Gathered) : MetricsSnapshot :=
  .fromParts g.supGeneration g.startedAtUnixMs g.statuses (watchdogsSnapshot g.watchdogs)
    (UpgradeCounters.snapshot g.upgradeCounters g.walk)

/-! ### The values -/

theorem repr_injective {n m : ℕ} (h : n.repr = m.repr) : n = m := by
  have hdigits := congrArg (fun s : String => Nat.ofDigitChars 10 s.toList 0) h
  simpa only [Nat.toList_repr, Nat.ofDigitChars_ten_toDigits] using hdigits

theorem padded_toList (width n : ℕ) : (padded width n).toList =
    List.replicate (width - (Nat.toDigits 10 n).length) '0' ++ Nat.toDigits 10 n := by
  rw [padded, String.toList_ofList]

theorem padded_injective {width n m : ℕ} (h : padded width n = padded width m) : n = m := by
  have hzeros : ∀ k ds, Nat.ofDigitChars 10 (List.replicate k '0' ++ ds) 0 =
      Nat.ofDigitChars 10 ds 0 := by
    intro k ds
    induction k with
    | zero => rfl
    | succ k ih =>
      rw [List.replicate_succ, List.cons_append, ← ih]
      rfl
  have hdigits := congrArg (fun s : String => Nat.ofDigitChars 10 s.toList 0) h
  simpa only [padded_toList, hzeros, Nat.ofDigitChars_ten_toDigits] using hdigits

theorem toDigits_noDot (n : ℕ) : '.' ∉ Nat.toDigits 10 n := by
  intro hdot
  exact absurd (Nat.isDigit_of_mem_toDigits (by decide) (by decide) hdot) (by decide)

theorem unixMsAsSeconds_toList (ms : UInt64) : (unixMsAsSeconds ms).toList =
    Nat.toDigits 10 (ms.toNat / 1000) ++ '.' :: (padded 3 (ms.toNat % 1000)).toList := by
  simp only [unixMsAsSeconds, String.toList_append, Nat.toList_repr, List.append_assoc]
  rfl

theorem unixMsAsSeconds_injective {a b : UInt64} (h : unixMsAsSeconds a = unixMsAsSeconds b) :
    a = b := by
  have hlist := congrArg String.toList h
  rw [unixMsAsSeconds_toList, unixMsAsSeconds_toList] at hlist
  have hpad : ∀ n, '.' ∉ (padded 3 n).toList := by
    intro n
    rw [padded_toList, List.mem_append, not_or]
    exact ⟨by simp [List.mem_replicate], toDigits_noDot n⟩
  obtain ⟨hq, hr⟩ := front_unique '.' _ _ _ _ (toDigits_noDot _) (toDigits_noDot _) hlist
  have hdiv := congrArg (Nat.ofDigitChars 10 · 0) hq
  simp only [Nat.ofDigitChars_ten_toDigits] at hdiv
  have hmod := padded_injective (String.toList_inj.mp hr)
  apply UInt64.toNat_inj.mp
  omega

theorem lastRestart_injective {a b : Option UInt64}
    (h : a.elim "0" unixMsAsSeconds = b.elim "0" unixMsAsSeconds) : a = b := by
  have hdot : ∀ ms, unixMsAsSeconds ms ≠ "0" := by
    intro ms heq
    have hmem : '.' ∈ (unixMsAsSeconds ms).toList := by
      rw [unixMsAsSeconds_toList]
      simp
    rw [heq] at hmem
    exact absurd hmem (by decide)
  cases a with
  | none =>
    cases b with
    | none => rfl
    | some b => exact absurd h.symm (hdot b)
  | some a =>
    cases b with
    | none => exact absurd h (hdot a)
    | some b => rw [unixMsAsSeconds_injective h]

theorem HealthState.number_injective {a b : HealthState}
    (h : (HealthState.number a).repr = (HealthState.number b).repr) : a = b := by
  have hnumber := repr_injective h
  cases a <;> cases b <;> first | rfl | cases hnumber
/-! ### What a scraper reads -/

/-- The roles are distinct words, and so are the pairs that are counted. -/
structure MetricsSnapshot.Sound (s : MetricsSnapshot) : Prop where
  roles : (s.roles.map RoleMetrics.role).Nodup
  words : ∀ r ∈ s.roles, ∀ c ∈ r.role.toList, isNameChar c = true
  upgrades : (s.upgrades.map fun u => [("role", u.role), ("outcome", u.outcome)]).Nodup
  counted : ∀ u ∈ s.upgrades, (∀ c ∈ u.role.toList, isNameChar c = true) ∧
    ∀ c ∈ u.outcome.toList, isNameChar c = true

theorem word_plain {w : String} (h : ∀ c ∈ w.toList, isNameChar c = true) :
    ∀ c ∈ w.toList, c ≠ '"' ∧ c ≠ '\\' ∧ c ≠ '\n' := by
  intro c hc
  have hname := h c hc
  refine ⟨?_, ?_, ?_⟩
  all_goals
    rintro rfl
    exact absurd hname (by decide)

theorem sample_plain {labels : List (String × String)} {value : String}
    (hlabels : ∀ kv ∈ labels, (∀ c ∈ kv.1.toList, isNameChar c = true) ∧
      ∀ c ∈ kv.2.toList, isNameChar c = true)
    (hvalue : '\n' ∉ value.toList) : Sample.Plain ⟨labels, value⟩ :=
  ⟨fun kv hkv => ⟨(hlabels kv hkv).1, word_plain (hlabels kv hkv).2⟩, hvalue⟩

theorem repr_oneLine (n : ℕ) : '\n' ∉ n.repr.toList := by
  rw [Nat.toList_repr]
  intro hmem
  exact absurd (Nat.isDigit_of_mem_toDigits (by decide) (by decide) hmem) (by decide)

theorem unixMsAsSeconds_oneLine (ms : UInt64) : '\n' ∉ (unixMsAsSeconds ms).toList := by
  have hdigits := repr_oneLine
  simp only [Nat.toList_repr] at hdigits
  simp [unixMsAsSeconds_toList, padded_toList, hdigits, List.mem_replicate]

namespace MetricsSnapshot
variable {s : MetricsSnapshot}

theorem Sound.perRole_plain (hs : s.Sound) {value : RoleMetrics → String}
    (hvalue : ∀ r, '\n' ∉ (value r).toList) : ∀ x ∈ s.perRole value, x.Plain := by
  intro x hx
  obtain ⟨r, hr, rfl⟩ := List.mem_map.mp hx
  refine sample_plain ?_ (hvalue r)
  rintro kv hkv
  obtain rfl := List.mem_singleton.mp hkv
  exact ⟨nameChars_of_all (by dsimp only; decide +kernel), hs.words r hr⟩

theorem Sound.perLimiter_plain (hs : s.Sound) {samples : String → RateLimiterStats → List Sample}
    (h : ∀ role stats, (∀ c ∈ role.toList, isNameChar c = true) →
      ∀ x ∈ samples role stats, x.Plain) : ∀ x ∈ s.perLimiter samples, x.Plain := by
  intro x hx
  obtain ⟨r, hr, hmem⟩ := List.mem_flatMap.mp hx
  split at hmem
  · cases hmem
  · next stats _ => exact h r.role stats (hs.words r hr) x hmem

theorem Sound.families_plain (hs : s.Sound) : ∀ f ∈ s.families, f.Plain := by
  have hone : ∀ value, '\n' ∉ value.toList → ∀ x ∈ [(⟨[], value⟩ : Sample)], x.Plain := by
    intro value hvalue x hx
    obtain rfl := List.mem_singleton.mp hx
    exact sample_plain (fun _ h => by cases h) hvalue
  intro f hf
  simp only [families, writeSupervisorMetrics, writeWorkerIdentityMetrics,
    writeWorkerHealthMetrics, writeWorkerRestartMetrics, writeUpgradeMetrics,
    writeRateLimiterMetrics, List.cons_append, List.nil_append, List.mem_cons, List.not_mem_nil,
    or_false] at hf
  rcases hf with rfl | rfl | rfl | rfl | rfl | rfl | rfl | rfl | rfl | rfl | rfl | rfl
  all_goals refine ⟨⟨by dsimp only; decide, nameChars_of_all (by dsimp only; decide +kernel)⟩,
    by dsimp only; decide +kernel, by dsimp only; decide +kernel, ?_⟩
  · exact hone _ (repr_oneLine _)
  · exact hone _ (unixMsAsSeconds_oneLine _)
  · exact hs.perRole_plain fun r => repr_oneLine _
  · exact hs.perRole_plain fun r => repr_oneLine _
  · exact hs.perRole_plain fun r => repr_oneLine _
  · exact hs.perRole_plain fun r => repr_oneLine _
  · exact hs.perRole_plain fun r => repr_oneLine _
  · exact hs.perRole_plain fun r => repr_oneLine _
  · refine hs.perRole_plain fun r => ?_
    cases r.lastRestartAtUnixMs with
    | none => decide
    | some ms => exact unixMsAsSeconds_oneLine ms
  · intro x hx
    obtain ⟨u, hu, rfl⟩ := List.mem_map.mp hx
    refine sample_plain ?_ (repr_oneLine _)
    intro kv hkv
    simp only [List.mem_cons, List.not_mem_nil, or_false] at hkv
    rcases hkv with rfl | rfl
    · exact ⟨nameChars_of_all (by dsimp only; decide +kernel), (hs.counted u hu).1⟩
    · exact ⟨nameChars_of_all (by dsimp only; decide +kernel), (hs.counted u hu).2⟩
  · refine hs.perLimiter_plain fun role stats hrole x hx => ?_
    obtain rfl := List.mem_singleton.mp hx
    refine sample_plain ?_ (repr_oneLine _)
    intro kv hkv
    obtain rfl := List.mem_singleton.mp hkv
    exact ⟨nameChars_of_all (by dsimp only; decide +kernel), hrole⟩
  · refine hs.perLimiter_plain fun role stats hrole x hx => ?_
    obtain ⟨⟨reason, count⟩, hreason, rfl⟩ := List.mem_map.mp hx
    refine sample_plain ?_ (repr_oneLine _)
    have hword : ∀ c ∈ reason.toList, isNameChar c = true := by
      simp only [evictions, List.mem_cons, Prod.mk.injEq, List.not_mem_nil, or_false] at hreason
      rcases hreason with ⟨rfl, -⟩ | ⟨rfl, -⟩ | ⟨rfl, -⟩ <;>
        exact nameChars_of_all (by decide +kernel)
    intro kv hkv
    simp only [List.mem_cons, List.not_mem_nil, or_false] at hkv
    rcases hkv with rfl | rfl
    · exact ⟨nameChars_of_all (by dsimp only; decide +kernel), hrole⟩
    · exact ⟨nameChars_of_all (by dsimp only; decide +kernel), hword⟩

theorem Sound.perRole_labels (hs : s.Sound) (value : RoleMetrics → String) :
    ((s.perRole value).map Sample.labels).Nodup := by
  have hlabels := hs.roles.map (f := fun role => [("role", role)]) fun a b h => by simpa using h
  rw [List.map_map] at hlabels
  rw [perRole, List.map_map]
  exact hlabels

/-- The samples that are written for a role have its name as their first label. -/
def Headed (samples : String → RateLimiterStats → List Sample) : Prop :=
  ∀ role stats, ∀ x ∈ samples role stats, x.labels.head? = some ("role", role)

theorem trackedSample_headed : Headed trackedSample := by
  intro role stats x hx
  obtain rfl := List.mem_singleton.mp hx
  rfl

theorem evictionSamples_headed : Headed evictionSamples := by
  intro role stats x hx
  obtain ⟨kv, -, rfl⟩ := List.mem_map.mp hx
  rfl

theorem Headed.role {samples : String → RateLimiterStats → List Sample} (h : Headed samples)
    {role role' : String} {stats stats' : RateLimiterStats} {x x' : Sample}
    (hx : x ∈ samples role stats) (hx' : x' ∈ samples role' stats') (heq : x.labels = x'.labels) :
    role = role' := by
  have hhead := h role stats x hx
  rw [heq, h role' stats' x' hx'] at hhead
  exact (Prod.mk.inj (Option.some.inj hhead)).2.symm

theorem Sound.perLimiter_labels (hs : s.Sound)
    {samples : String → RateLimiterStats → List Sample} (hheaded : Headed samples)
    (hnodup : ∀ role stats, ((samples role stats).map Sample.labels).Nodup) :
    ((s.perLimiter samples).map Sample.labels).Nodup := by
  rw [perLimiter, List.map_flatMap, List.nodup_flatMap]
  constructor
  · intro r hr
    split
    · simp
    · exact hnodup _ _
  · refine (List.pairwise_map.mp hs.roles).imp ?_
    intro r r' hne
    simp only [Function.onFun, List.disjoint_left]
    intro labels h h'
    split at h
    · cases h
    · split at h'
      · cases h'
      · obtain ⟨x, hx, rfl⟩ := List.mem_map.mp h
        obtain ⟨x', hx', heq⟩ := List.mem_map.mp h'
        exact hne (hheaded.role hx hx' heq.symm)

theorem Sound.series_nodup (hs : s.Sound) : (series s.families).Nodup := by
  have hnames : (s.families.map Family.name).Nodup := by
    simp only [families, writeSupervisorMetrics, writeWorkerIdentityMetrics,
      writeWorkerHealthMetrics, writeWorkerRestartMetrics, writeUpgradeMetrics,
      writeRateLimiterMetrics, List.cons_append, List.nil_append, List.map_cons, List.map_nil]
    decide +kernel
  refine Lib.series_nodup hnames ?_
  intro f hf
  simp only [families, writeSupervisorMetrics, writeWorkerIdentityMetrics,
    writeWorkerHealthMetrics, writeWorkerRestartMetrics, writeUpgradeMetrics,
    writeRateLimiterMetrics, List.cons_append, List.nil_append, List.mem_cons, List.not_mem_nil,
    or_false] at hf
  rcases hf with rfl | rfl | rfl | rfl | rfl | rfl | rfl | rfl | rfl | rfl | rfl | rfl
  · simp
  · simp
  · exact hs.perRole_labels _
  · exact hs.perRole_labels _
  · exact hs.perRole_labels _
  · exact hs.perRole_labels _
  · exact hs.perRole_labels _
  · exact hs.perRole_labels _
  · exact hs.perRole_labels _
  · rw [List.map_map]
    exact hs.upgrades
  · refine hs.perLimiter_labels trackedSample_headed ?_
    simp [trackedSample]
  · refine hs.perLimiter_labels evictionSamples_headed ?_
    simp [evictionSamples, evictions]

/-! ### Nothing is lost -/

section Inverse
variable {t : MetricsSnapshot} {r r' : RoleMetrics} {stats : RateLimiterStats}

/-- A line about a limiter is in the other file as well, and there a line of the same role. -/
theorem perLimiter_find (ht : t.Sound) {samples : String → RateLimiterStats → List Sample}
    (hheaded : Headed samples) (heq : s.perLimiter samples = t.perLimiter samples)
    (hr : r ∈ s.roles) (hr' : r' ∈ t.roles) (hrole : r.role = r'.role)
    (hstats : r.rateLimiterStats = some stats) {x : Sample} (hx : x ∈ samples r.role stats) :
    ∃ stats', r'.rateLimiterStats = some stats' ∧ x ∈ samples r.role stats' := by
  have hmem : x ∈ t.perLimiter samples := by
    rw [← heq]
    refine List.mem_flatMap.mpr ⟨r, hr, ?_⟩
    rw [hstats]
    exact hx
  obtain ⟨q, hq, hxq⟩ := List.mem_flatMap.mp hmem
  split at hxq
  · cases hxq
  · next stats' hst =>
    have hname := hheaded.role hx hxq rfl
    have hsame : q = r' := List.inj_on_of_nodup_map ht.roles hq hr' (by rw [← hname, hrole])
    rw [hsame] at hst
    refine ⟨stats', hst, ?_⟩
    rwa [hname]

theorem perLimiter_stats (ht : t.Sound)
    (htracked : s.perLimiter trackedSample = t.perLimiter trackedSample)
    (hevictions : s.perLimiter evictionSamples = t.perLimiter evictionSamples)
    (hr : r ∈ s.roles) (hr' : r' ∈ t.roles) (hrole : r.role = r'.role)
    (hstats : r.rateLimiterStats = some stats) : r'.rateLimiterStats = some stats := by
  obtain ⟨st, hst, hx⟩ := perLimiter_find ht trackedSample_headed htracked hr hr' hrole hstats
    (x := ⟨[("role", r.role)], stats.trackedIps.toNat.repr⟩) (by simp [trackedSample])
  have hevicted : ∀ reason count, (reason, count) ∈ evictions stats →
      (reason, count) ∈ evictions st := by
    intro reason count hin
    obtain ⟨st', hst', hx'⟩ := perLimiter_find ht evictionSamples_headed hevictions hr hr' hrole
      hstats (List.mem_map_of_mem hin)
    cases hst.symm.trans hst'
    obtain ⟨⟨reason', count'⟩, hin', hsample⟩ := List.mem_map.mp hx'
    simp only [Sample.mk.injEq, List.cons.injEq, Prod.mk.injEq, and_true, true_and] at hsample
    obtain ⟨rfl, hcount⟩ := hsample
    rwa [← UInt64.toNat_inj.mp (repr_injective hcount)]
  have htr : stats.trackedIps = st.trackedIps := by
    simp only [trackedSample, List.mem_singleton, Sample.mk.injEq, true_and] at hx
    exact UInt64.toNat_inj.mp (repr_injective hx)
  have hall : stats = st := by
    have hidle := hevicted "idle" stats.idleEvictions (by simp [evictions])
    have hlru := hevicted "lru" stats.lruEvictions (by simp [evictions])
    have hcap := hevicted "cap_refused" stats.capRefused (by simp [evictions])
    simp only [evictions, List.mem_cons, Prod.mk.injEq, String.reduceEq, false_and, true_and,
      List.not_mem_nil, or_false, false_or] at hidle hlru hcap
    obtain ⟨a, b, c, d⟩ := stats
    obtain ⟨a', b', c', d'⟩ := st
    simp only [RateLimiterStats.mk.injEq]
    exact ⟨htr, hidle, hlru, hcap⟩
  rw [hst, hall]

theorem perRole_pointwise {value : RoleMetrics → String} (h : s.perRole value = t.perRole value)
    (i : ℕ) (hi : i < s.roles.length) (hi' : i < t.roles.length) :
    s.roles[i].role = t.roles[i].role ∧ value s.roles[i] = value t.roles[i] := by
  have hget := List.getElem_of_eq h (i := i) (by simpa [perRole] using hi)
  simp only [perRole, List.getElem_map, Sample.mk.injEq, List.cons.injEq, Prod.mk.injEq,
    true_and, and_true] at hget
  exact hget

/-- Two snapshots with the same families are the same. -/
theorem families_injective (hs : s.Sound) (ht : t.Sound) (h : s.families = t.families) : s = t := by
  simp only [families, writeSupervisorMetrics, writeWorkerIdentityMetrics,
    writeWorkerHealthMetrics, writeWorkerRestartMetrics, writeUpgradeMetrics,
    writeRateLimiterMetrics, List.cons_append, List.nil_append, List.cons.injEq, Family.mk.injEq,
    Sample.mk.injEq, true_and, and_true] at h
  obtain ⟨hgen, hstart, hwgen, hflight, hpid, hhealth, hexits, hrestarts, hlast, hup, htracked,
    hevictions⟩ := h
  have hlen : s.roles.length = t.roles.length := by
    simpa [perRole] using congrArg List.length hwgen
  have hroles : s.roles = t.roles := by
    refine List.ext_getElem hlen fun i hi hi' => ?_
    obtain ⟨hrole, h₁⟩ := perRole_pointwise hwgen i hi hi'
    obtain ⟨-, h₂⟩ := perRole_pointwise hflight i hi hi'
    obtain ⟨-, h₃⟩ := perRole_pointwise hpid i hi hi'
    obtain ⟨-, h₄⟩ := perRole_pointwise hhealth i hi hi'
    obtain ⟨-, h₅⟩ := perRole_pointwise hexits i hi hi'
    obtain ⟨-, h₆⟩ := perRole_pointwise hrestarts i hi hi'
    obtain ⟨-, h₇⟩ := perRole_pointwise hlast i hi hi'
    have hstats : s.roles[i].rateLimiterStats = t.roles[i].rateLimiterStats := by
      cases hst : s.roles[i].rateLimiterStats with
      | some stats =>
        exact (perLimiter_stats ht htracked hevictions (List.getElem_mem hi) (List.getElem_mem hi')
          hrole hst).symm
      | none =>
        cases hst' : t.roles[i].rateLimiterStats with
        | none => rfl
        | some stats =>
          have hfrom := perLimiter_stats hs htracked.symm hevictions.symm (List.getElem_mem hi')
            (List.getElem_mem hi) hrole.symm hst'
          rw [hfrom] at hst
          cases hst
    generalize s.roles[i] = r at *
    generalize t.roles[i] = r' at *
    obtain ⟨role, generation, inFlight, pid, health, exits, restarts, last, stats⟩ := r
    obtain ⟨role', generation', inFlight', pid', health', exits', restarts', last', stats'⟩ := r'
    simp only [RoleMetrics.mk.injEq]
    exact ⟨hrole, UInt64.toNat_inj.mp (repr_injective h₁), UInt64.toNat_inj.mp (repr_injective h₂),
      UInt32.toNat_inj.mp (repr_injective h₃), HealthState.number_injective h₄,
      UInt32.toNat_inj.mp (repr_injective h₅), UInt64.toNat_inj.mp (repr_injective h₆),
      lastRestart_injective h₇, hstats⟩
  have hupgrades : s.upgrades = t.upgrades := by
    refine List.map_injective_iff.mpr ?_ hup
    intro u u' heq
    simp only [Sample.mk.injEq, List.cons.injEq, Prod.mk.injEq, true_and, and_true] at heq
    obtain ⟨role, outcome, value⟩ := u
    obtain ⟨role', outcome', value'⟩ := u'
    simp only [UpgradeMetric.mk.injEq]
    exact ⟨heq.1.1, heq.1.2, repr_injective heq.2⟩
  obtain ⟨generation, start, roles, upgrades⟩ := s
  obtain ⟨generation', start', roles', upgrades'⟩ := t
  simp only [MetricsSnapshot.mk.injEq]
  exact ⟨UInt64.toNat_inj.mp (repr_injective hgen), unixMsAsSeconds_injective hstart, hroles,
    hupgrades⟩

end Inverse

end MetricsSnapshot

/-! ### The file of a tick -/

theorem UpgradeCounters.snapshot_nodup (c : UpgradeCounters) (walk : WalkOrder) :
    ((UpgradeCounters.snapshot c walk).map
      fun u => [("role", u.role), ("outcome", u.outcome)]).Nodup := by
  have hmap : ∀ outcome : String,
      ((walk.order outcome).map fun role => [("role", role.text), ("outcome", outcome)]).Nodup := by
    intro outcome
    have hall : allRoles.Nodup := by decide
    refine ((walk.perm outcome).nodup_iff.mpr hall).map ?_
    intro r r' h
    simp only [List.cons.injEq, Prod.mk.injEq, true_and, and_true] at h
    exact Supervisor.RoleName.text_injective r r' h
  rw [UpgradeCounters.snapshot, List.map_flatMap, List.nodup_flatMap]
  constructor
  · rintro ⟨map, outcome⟩ -
    rw [List.map_map]
    exact hmap outcome
  · simp [List.disjoint_left]

theorem RoleName.text_word (r : RoleName) : ∀ c ∈ r.text.toList, isNameChar c = true := by
  cases r <;> exact nameChars_of_all (by decide +kernel)

theorem Gathered.sound (g : Gathered) : g.snapshot.Sound := by
  refine ⟨?_, ?_, UpgradeCounters.snapshot_nodup _ _, ?_⟩
  · have hnames : (["processor", "plain", "tls", "scanner"] : List String).Nodup := by decide
    exact hnames
  · intro r hr
    have hname : r.role ∈ (["processor", "plain", "tls", "scanner"] : List String) :=
      List.mem_map_of_mem (f := RoleMetrics.role) hr
    have hwords : ∀ w ∈ (["processor", "plain", "tls", "scanner"] : List String),
        w.toList.all isNameChar = true := by decide +kernel
    exact nameChars_of_all (hwords r.role hname)
  · intro u hu
    obtain ⟨⟨map, outcome⟩, hpair, hin⟩ := List.mem_flatMap.mp hu
    obtain ⟨role, -, rfl⟩ := List.mem_map.mp hin
    refine ⟨RoleName.text_word role, ?_⟩
    have hwords : ∀ w ∈ (["committed", "timed_out", "canary_aborted", "skipped"] : List String),
        w.toList.all isNameChar = true := by decide +kernel
    refine nameChars_of_all (hwords outcome ?_)
    simp only [List.mem_cons, Prod.mk.injEq, List.not_mem_nil, or_false] at hpair ⊢
    rcases hpair with ⟨-, rfl⟩ | ⟨-, rfl⟩ | ⟨-, rfl⟩ | ⟨-, rfl⟩ <;> simp

/-- Whatever the workers report, in whatever order the counters are walked, a scraper reads from the
file the families that were rendered, in none of them or between them a series twice; and the file
tells the whole snapshot: another one with the same text is equal to it. -/
theorem textfile_reads_back (g : Gathered) :
    readExposition g.snapshot.render = some g.snapshot.families ∧
    (series g.snapshot.families).Nodup ∧
    ∀ g' : Gathered, g'.snapshot.render = g.snapshot.render → g'.snapshot = g.snapshot := by
  have hread : ∀ g : Gathered, readExposition g.snapshot.render = some g.snapshot.families :=
    fun g => readExposition_exposition _ g.sound.families_plain
  refine ⟨hread g, g.sound.series_nodup, fun g' h => ?_⟩
  refine MetricsSnapshot.families_injective g'.sound g.sound ?_
  apply Option.some.inj
  rw [← hread g', ← hread g, h]

end FiveNinesEcho.Metrics
