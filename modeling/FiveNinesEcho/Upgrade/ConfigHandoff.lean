import FiveNinesEcho.Configuration
import FiveNinesEcho.Lib.Exec
import FiveNinesEcho.Supervisor.Reload
import FiveNinesEcho.Upgrade.ChildEnv

/-!
# The configuration from one processor to the next (`config.rs:221-257`, `handoff.rs:336-376`,
`security.rs:40-104`, `processor.rs:57-91`)

A processor loads its configuration when it starts and puts the ids its accounts resolve to into it.
On FreeBSD a sandboxed one hands the result to its successor as JSON, in a variable of the block for
`fexecve`: the successor is in capability mode, where neither the file nor the user database can be
reached. Everywhere else, and if the binary is another one, the successor loads the file again.
-/

namespace FiveNinesEcho.Upgrade
open Lib Handoff Configuration
open Control (PathBuf)
open Supervisor (Cred Nss dropPrivileges resolveUid resolveGid resolveId parseUnsigned)

/-! ### Loading -/

/-- `Path::components`, by which paths are compared: empty parts do not count, nor does a `.` that
is not the first. -/
def components (p : PathBuf) : Bool × List PathBuf :=
  match p.splitOn 47 with
  | [] => (false, [])
  | first :: rest => (p.head? == some 47,
      (if first = [] then [] else [first]) ++ rest.filter fun c => c ≠ [] ∧ c ≠ [46])

inductive LoadError where
  | inherited
  | read (path : PathBuf)
  | parse (path : PathBuf)
  deriving Repr, DecidableEq

def overrideSocketsDir (c : Config PathBuf) : Option PathBuf → Config PathBuf
  | some dir => if components c.socketsDir ≠ components dir then { c with socketsDir := dir } else c
  | none => c

section Load
variable (J : JsonText) (toml : String → Option (Config PathBuf))

/-- `Config::load`; a value that is no text is passed over. -/
def load (readToString : PathBuf → Option String) (environ : List CString) (path : Option PathBuf) :
    Except LoadError (Config PathBuf) :=
  match (varOs environ (utf8 envConfigJson)).bind fromUtf8 with
  | some json => match Config.fromJson J json with
    | some cfg => .ok cfg
    | none => .error .inherited
  | none =>
    let cfg : Except LoadError (Config PathBuf) :=
      match path.or (varOs environ (utf8 envConfigPath)) with
      | none => .ok Config.default.paths
      | some p => match readToString p with
        | none => .error (.read p)
        | some text => match toml text with
          | none => .error (.parse p)
          | some cfg => .ok cfg
    cfg.map fun c => overrideSocketsDir c (varOs environ (utf8 "RUNTIME_DIRECTORY"))

/-! ### Starting -/

structure Generation where
  environ : List CString
  cred : Cred
  capMode : Bool
  config : Config PathBuf

def settleIds (nss : Nss) (capMode : Bool) (cred : Cred) (c : SecurityConfig) :
    Option (Cred × SecurityConfig) :=
  (dropPrivileges nss capMode cred ⟨c.dropUid, c.dropGid, .off, []⟩).map fun (dropped, ids) =>
    (dropped, { c with dropUid := ids.dropUid, dropGid := ids.dropGid })

variable (freebsd : Bool)

/-- `main` and `processor::run` up to the sandbox. -/
def start (nss : Nss) (readToString : PathBuf → Option String) (environ : List CString)
    (cred : Cred) (capMode : Bool) : Option Generation :=
  match load J toml (if capMode then fun _ => none else readToString) environ none with
  | .error _ => none
  | .ok config => (settleIds nss capMode cred config.security).map fun (dropped, security) =>
    { environ := environ
      cred := dropped
      capMode := capMode || (freebsd && security.effectiveSandbox "processor" != .off)
      config := { config with security := security } }

/-! ### Handing over -/

/-- What the attempt makes of the configuration. -/
def Generation.attempt (g : Generation) (u : ProcessorUpgrade) : ProcessorUpgrade :=
  { u with
    env := { u.env with
      freebsd := freebsd
      inCapsicumMode := g.capMode
      capMode := { u.env.capMode with
        sandboxOff := g.config.security.effectiveSandbox "processor" == .off
        configJson := if g.config.texts.isSome then none
          else some "path contains invalid UTF-8 characters" } }
    config := (g.config.texts.map Config.shape.write).getD .null
    config_fits := by
      cases g.config.texts with
      | none => exact .null 127
      | some t => exact t.write_fits }

/-- An attempt: how it goes, what the file and the user database are then, and whether the successor
gets to its acknowledgement. -/
structure GenerationAct where
  upgrade : ProcessorUpgrade
  nss : Nss
  readToString : PathBuf → Option String
  acked : Bool

variable (it : Iteration (Sigma fun _ : String => String))

/-- The successor an attempt starts, of the same account and in the same mode. -/
def Generation.child (g : Generation) (a : GenerationAct) : Option Generation :=
  match (g.attempt freebsd a.upgrade).childEnvp J it g.environ with
  | .ok environ => start J toml freebsd a.nss a.readToString environ g.cred g.capMode
  | .error _ => none

/-- The processor that serves after an attempt. -/
def Generation.step (g : Generation) (a : GenerationAct) : Option Generation :=
  some (if a.acked then (g.child J toml freebsd it a).getD g else g)

/-- Whether the configuration is handed over. -/
def Generation.handsOver (g : Generation) (a : GenerationAct) : Bool :=
  freebsd && !a.upgrade.env.targetOverridden &&
    g.config.security.effectiveSandbox "processor" != .off

end Load

/-! ### The environment of a successor -/

section Env
variable {J : JsonText} {it : Iteration (Sigma fun _ : String => String)}
  {environ environ' : List CString} {u : ProcessorUpgrade}

theorem wanted_kept_iff {explicit : List (String × String)} {k v : OsString} (hst : ¬ Stale k)
    (hstale : ∀ kv ∈ explicit, Stale (utf8 kv.1)) :
    Wanted environ explicit (k, v) ↔ (k, v) ∈ varsOs environ := by
  refine ⟨fun h => ?_, wanted_of_kept hst⟩
  refine h.ambient_or_explicit.resolve_right fun hmem => ?_
  obtain ⟨kv, hkv, heq⟩ := List.mem_map.mp hmem
  obtain ⟨rfl, -⟩ := Prod.mk.inj heq
  exact hst (hstale kv hkv)

theorem capModePairs_path (h : u.usesFexecve = false) : u.capModePairs J = [] := by
  unfold ProcessorUpgrade.capModePairs
  unfold ProcessorUpgrade.usesFexecve at h
  rw [if_pos]
  cases hfreebsd : u.env.freebsd <;> cases htarget : u.env.targetOverridden <;> simp_all

/-- A child of a clean environment has the variables of both blocks. -/
theorem child_vars (hclean : Clean environ) (h : u.childEnvp J it environ = .ok environ') :
    u.refusal = none ∧ ∀ var, var ∈ varsOs environ' ↔ Wanted environ (u.fexecveEnv J) var := by
  obtain ⟨cmd, fexec, -, -, hchild, hcmd, hfexec, -⟩ := hygienic_of_clean J it environ u hclean
  rw [h] at hchild
  cases hrefusal : u.refusal with
  | some e => simp [hrefusal] at hchild
  | none =>
    simp only [hrefusal, Except.ok.injEq] at hchild
    refine ⟨rfl, fun var => ?_⟩
    cases huses : u.usesFexecve with
    | true =>
      rw [huses, if_pos rfl] at hchild
      rw [hchild]
      exact hfexec var
    | false =>
      rw [huses, if_neg Bool.false_ne_true] at hchild
      rw [hchild, ProcessorUpgrade.fexecveEnv, capModePairs_path huses, List.append_nil]
      exact hcmd var

theorem child_clean (hclean : Clean environ) (h : u.childEnvp J it environ = .ok environ') :
    Clean environ' := by
  obtain ⟨-, hvars⟩ := child_vars hclean h
  have hproper := u.fexecveEnv_proper J
  refine ⟨fun var hvar => ?_, fun k v w hv hw hst => ?_⟩
  · rcases ((hvars var).mp hvar).ambient_or_explicit with hambient | hexplicit
    · exact hclean.unicode var hambient
    · obtain ⟨kv, -, rfl⟩ := List.mem_map.mp hexplicit
      exact ⟨⟨kv.1, rfl⟩, ⟨kv.2, rfl⟩⟩
  · rw [hvars, wanted_kept_iff hst hproper.stale] at hv hw
    exact hclean.single k v w hv hw hst

/-- A variable that no upgrade sets is handed on. -/
theorem child_kept (hclean : Clean environ) (h : u.childEnvp J it environ = .ok environ')
    {k : OsString} (hst : ¬ Stale k) : varOs environ' k = varOs environ k := by
  obtain ⟨-, hvars⟩ := child_vars hclean h
  have hclean' := child_clean hclean h
  ext v
  rw [varOs_eq_some_iff fun v w hv hw => hclean'.single k v w hv hw hst,
    varOs_eq_some_iff fun v w hv hw => hclean.single k v w hv hw hst, hvars,
    wanted_kept_iff hst (u.fexecveEnv_proper J).stale]

theorem child_explicit (hclean : Clean environ) (h : u.childEnvp J it environ = .ok environ')
    {k : OsString} (hst : Stale k) (v : OsString) :
    varOs environ' k = some v ↔ (k, v) ∈ (u.fexecveEnv J).map utf8Var := by
  obtain ⟨-, hvars⟩ := child_vars hclean h
  have hmem : ∀ v, (k, v) ∈ varsOs environ' ↔ (k, v) ∈ (u.fexecveEnv J).map utf8Var := by
    intro v
    rw [hvars, wanted_stale_iff hst]
  rw [varOs_eq_some_iff, hmem]
  intro v w hv hw
  exact explicit_single (u.fexecveEnv_proper J).names k v w ((hmem v).mp hv) ((hmem w).mp hw)

end Env

/-! ### The ids -/

/-- The ids in the configuration are numbers, those of the account. -/
structure Settled (cred : Cred) (c : SecurityConfig) : Prop where
  uid : ∀ s, c.dropUid = some s → s = cred.uid.repr ∧ cred.uid < 2 ^ 32
  gid : ∀ s, c.dropGid = some s → s = cred.gid.repr ∧ cred.gid < 2 ^ 32

/-- An id has 32 bits. -/
structure Bounded (nss : Nss) : Prop where
  user : ∀ name n, nss.user name = some n → n < 2 ^ 32
  group : ∀ name n, nss.group name = some n → n < 2 ^ 32

theorem resolveId_lt {byName : String → Option ℕ} (h : ∀ name n, byName name = some n → n < 2 ^ 32)
    {capMode : Bool} {spec : String} {n : ℕ} (hn : resolveId byName capMode spec = some n) :
    n < 2 ^ 32 := by
  unfold resolveId at hn
  rw [Option.or_eq_some_iff] at hn
  rcases hn with hn | ⟨-, hn⟩
  · exact Supervisor.parseUnsigned_lt hn
  · rw [Option.ite_none_left_eq_some] at hn
    exact h spec n hn.2

theorem resolveId_repr (byName : String → Option ℕ) (capMode : Bool) {n : ℕ} (h : n < 2 ^ 32) :
    resolveId byName capMode n.repr = some n := by
  rw [resolveId, Supervisor.parseUnsigned_repr, if_pos h, Option.some_or]

theorem mapM_settled (byName : String → Option ℕ) (capMode : Bool) {o : Option String} {n : ℕ}
    (h : ∀ s, o = some s → s = n.repr ∧ n < 2 ^ 32) :
    o.mapM (resolveId byName capMode) = some (o.map fun _ => n) ∧
      ((o.map fun _ => n).map Nat.repr).or o = o := by
  cases o with
  | none => exact ⟨rfl, rfl⟩
  | some s =>
    obtain ⟨rfl, hn⟩ := h s rfl
    exact ⟨by simp [resolveId_repr byName capMode hn], rfl⟩

/-- What is settled stays as it is, whatever the database says by then and though it is out of
reach. -/
theorem settleIds_of_settled {cred : Cred} {c : SecurityConfig} (h : Settled cred c) (nss : Nss)
    (capMode : Bool) : settleIds nss capMode cred c = some (cred, c) := by
  have huid : c.dropUid.mapM (resolveUid nss capMode) = some (c.dropUid.map fun _ => cred.uid) :=
    (mapM_settled nss.user capMode h.uid).1
  have hgid : c.dropGid.mapM (resolveGid nss capMode) = some (c.dropGid.map fun _ => cred.gid) :=
    (mapM_settled nss.group capMode h.gid).1
  have hset : (c.dropGid.map fun _ => cred.gid).elim (some cred) cred.setgid = some cred := by
    cases c.dropGid <;> simp [Cred.setgid]
  have hset' : (c.dropUid.map fun _ => cred.uid).elim (some cred) cred.setuid = some cred := by
    cases c.dropUid <;> simp [Cred.setuid]
  have hroot : ¬ (cred.uid = 0 ∧ cred.uid ≠ 0 ∧ (cred.setuid 0).isSome = true) := by
    rintro ⟨hzero, hne, -⟩
    exact hne hzero
  simp only [settleIds, dropPrivileges, huid, hgid, Option.bind_eq_bind, Option.bind_some, hset,
    hset', if_neg hroot, Option.map_some, (mapM_settled nss.user capMode h.uid).2,
    (mapM_settled nss.group capMode h.gid).2]

theorem setuid_ids {cred cred' : Cred} {target : Option ℕ}
    (h : target.elim (some cred) cred.setuid = some cred') :
    (∀ n, target = some n → cred'.uid = n) ∧ cred'.gid = cred.gid := by
  cases target with
  | none =>
    cases h
    exact ⟨by simp, rfl⟩
  | some n =>
    simp only [Option.elim_some, Cred.setuid, Option.ite_none_right_eq_some, Option.some.injEq] at h
    obtain ⟨-, rfl⟩ := h
    exact ⟨fun m hm => Option.some.inj hm, rfl⟩

theorem setgid_ids {cred cred' : Cred} {target : Option ℕ}
    (h : target.elim (some cred) cred.setgid = some cred') :
    ∀ n, target = some n → cred'.gid = n := by
  rintro n rfl
  simp only [Option.elim_some, Cred.setgid, Option.ite_none_right_eq_some, Option.some.injEq] at h
  obtain ⟨-, rfl⟩ := h
  rfl

/-- What goes back into the configuration is the number the name stood for. -/
theorem settled_spec {byName : String → Option ℕ}
    (hbound : ∀ name n, byName name = some n → n < 2 ^ 32) {capMode : Bool} {o : Option String} {target : Option ℕ} {id : ℕ}
    (h : o.mapM (resolveId byName capMode) = some target) (hid : ∀ n, target = some n → id = n) :
    ∀ s, (target.map Nat.repr).or o = some s → s = id.repr ∧ id < 2 ^ 32 := by
  cases o with
  | none =>
    cases h
    simp
  | some spec =>
    obtain ⟨n, hn, rfl⟩ : ∃ n, resolveId byName capMode spec = some n ∧ some n = target := by
      simpa using h
    rintro s hs
    cases hid n rfl
    exact ⟨(Option.some.inj hs).symm, resolveId_lt hbound hn⟩

theorem settled_of_settleIds {nss : Nss} (hnss : Bounded nss) {capMode : Bool} {cred dropped : Cred}
    {c c' : SecurityConfig} (h : settleIds nss capMode cred c = some (dropped, c')) :
    Settled dropped c' ∧ c'.sandbox = c.sandbox ∧ c'.sandboxOverrides = c.sandboxOverrides := by
  simp only [settleIds, dropPrivileges, Option.bind_eq_bind, Option.map_eq_some_iff,
    Option.bind_eq_some_iff, Option.ite_none_left_eq_some, Option.some.injEq, Prod.mk.injEq,
    Prod.exists] at h
  obtain ⟨d, ids, ⟨tu, htu, tg, htg, wg, hwg, d', hd', -, rfl, rfl⟩, rfl, rfl⟩ := h
  obtain ⟨huid, hgid⟩ := setuid_ids hd'
  refine ⟨⟨settled_spec hnss.user htu huid, settled_spec hnss.group htg fun n hn => ?_⟩, rfl, rfl⟩
  exact hgid.trans (setgid_ids hwg n hn)

/-! ### From one to the next -/

section Generations
variable {J : JsonText} {toml : String → Option (Config PathBuf)} {freebsd : Bool}
  {it : Iteration (Sigma fun _ : String => String)} {g c : Generation} {a : GenerationAct}

theorem start_eq_some_iff {nss : Nss} {readToString : PathBuf → Option String}
    {environ : List CString} {cred : Cred} {capMode : Bool} :
    start J toml freebsd nss readToString environ cred capMode = some g ↔
      ∃ config dropped security,
        load J toml (if capMode then fun _ => none else readToString) environ none = .ok config ∧
        settleIds nss capMode cred config.security = some (dropped, security) ∧
        g = ⟨environ, dropped,
          capMode || (freebsd && security.effectiveSandbox "processor" != .off),
          { config with security := security }⟩ := by
  unfold start
  cases load J toml (if capMode then fun _ => none else readToString) environ none with
  | error e => simp
  | ok config =>
    simp only [Option.map_eq_some_iff, Prod.exists, Except.ok.injEq]
    constructor
    · rintro ⟨dropped, security, hids, rfl⟩
      exact ⟨config, dropped, security, rfl, hids, rfl⟩
    · rintro ⟨config, dropped, security, rfl, hids, rfl⟩
      exact ⟨dropped, security, hids, rfl⟩

structure Generation.Inv (environ : List CString) (g : Generation) : Prop where
  clean : Clean g.environ
  settled : Settled g.cred g.config.security
  kept : ∀ k, ¬ Stale k → varOs g.environ k = varOs environ k

theorem capModePairs_attempt (g : Generation) (a : GenerationAct) :
    (g.attempt freebsd a.upgrade).capModePairs J =
      if g.handsOver freebsd a then
        (envConfigJson, J.render ((g.config.texts.map Config.shape.write).getD .null)) ::
          capModePrepare a.upgrade.selfExe a.upgrade.dirs
      else [] := by
  unfold ProcessorUpgrade.capModePairs Generation.handsOver
  cases freebsd <;> cases htarget : a.upgrade.env.targetOverridden <;>
    cases hmode : g.config.security.effectiveSandbox "processor" <;>
      simp [Generation.attempt, htarget, hmode]

/-- If nothing refuses the attempt, there is a text of the configuration to hand over. -/
theorem texts_of_handsOver (h : g.handsOver freebsd a = true)
    (hrefusal : (g.attempt freebsd a.upgrade).refusal = none) :
    ∃ t, g.config.texts = some t ∧ g.config = t.paths := by
  unfold Generation.handsOver at h
  simp only [Bool.and_eq_true, Bool.not_eq_true', bne_iff_ne] at h
  obtain ⟨⟨hfreebsd, htarget⟩, hmode⟩ := h
  cases htexts : g.config.texts with
  | some t => exact ⟨t, rfl, (Config.texts_eq_some_iff g.config t).mp htexts⟩
  | none =>
    have hoff : (g.config.security.effectiveSandbox "processor" == .off) = false := by
      simpa using hmode
    simp [ProcessorUpgrade.refusal, Env.beforeSpawn, Generation.attempt, capModeHandoff, hfreebsd,
      htarget, hoff, htexts] at hrefusal

theorem json_stale : Stale (utf8 envConfigJson) :=
  (attemptNames_proper envConfigJson (by decide)).1

theorem path_kept : ¬ Stale (utf8 envConfigPath) := by
  unfold Stale
  decide

theorem runtime_kept : ¬ Stale (utf8 "RUNTIME_DIRECTORY") := by
  unfold Stale
  decide

/-- The environment of a successor has the configuration of its predecessor, or none. -/
theorem child_json {environ : List CString} (hi : Clean g.environ)
    (h : (g.attempt freebsd a.upgrade).childEnvp J it g.environ = .ok environ) :
    (g.handsOver freebsd a = true →
      varOs environ (utf8 envConfigJson) =
        some (utf8 (J.render ((g.config.texts.map Config.shape.write).getD .null)))) ∧
    (g.handsOver freebsd a = false → varOs environ (utf8 envConfigJson) = none) := by
  constructor
  · intro hands
    rw [child_explicit hi h json_stale]
    refine List.mem_map.mpr ⟨(envConfigJson, _), ?_, rfl⟩
    rw [ProcessorUpgrade.fexecveEnv, capModePairs_attempt, if_pos hands]
    exact List.mem_append_right _ (List.mem_cons_self ..)
  · intro hands
    rw [Option.eq_none_iff_forall_ne_some]
    intro v hv
    rw [child_explicit hi h json_stale, ProcessorUpgrade.fexecveEnv, capModePairs_attempt, hands,
      if_neg Bool.false_ne_true, List.append_nil] at hv
    obtain ⟨kv, hkv, heq⟩ := List.mem_map.mp hv
    have hname : kv.1 = envConfigJson := utf8_injective (Prod.mk.inj heq).1
    have hmem : envConfigJson ∈ [envListenerFd, envSessionsFd, envUpgradeGeneration, envReadyFd] :=
      hname ▸ List.mem_map_of_mem (f := Prod.fst) hkv
    exact absurd hmem (by decide)

/-- A successor that was handed the configuration has it, in every field. -/
theorem child_of_handsOver {environ₀ : List CString} (hi : g.Inv environ₀)
    (hands : g.handsOver freebsd a = true)
    (hrefusal : (g.attempt freebsd a.upgrade).refusal = none) :
    ∃ c json, g.child J toml freebsd it a = some c ∧ g.config.toJson J = some json ∧
      varOs c.environ (utf8 envConfigJson) = some (utf8 json) ∧ c.config = g.config := by
  obtain ⟨t, htexts, hpaths⟩ := texts_of_handsOver hands hrefusal
  obtain ⟨cmd, fexec, -, -, hchild, -⟩ :=
    hygienic_of_clean J it g.environ (g.attempt freebsd a.upgrade) hi.clean
  simp only [hrefusal] at hchild
  generalize (if (g.attempt freebsd a.upgrade).usesFexecve = true then fexec else cmd) = environ
    at hchild
  have hjson := (child_json hi.clean hchild).1 hands
  rw [htexts, Option.map_some, Option.getD_some] at hjson
  have hload : load J toml (if g.capMode then fun _ => none else a.readToString) environ none =
      .ok g.config := by
    simp only [load, hjson, Option.bind_some, fromUtf8_utf8, Config.fromJson_render, ← hpaths]
  obtain ⟨c, hstart, henviron, hconfig⟩ :
      ∃ c, start J toml freebsd a.nss a.readToString environ g.cred g.capMode = some c ∧
        c.environ = environ ∧ c.config = g.config :=
    ⟨_, start_eq_some_iff.mpr ⟨g.config, g.cred, g.config.security, hload,
      settleIds_of_settled hi.settled a.nss g.capMode, rfl⟩, rfl, rfl⟩
  refine ⟨c, J.render (Config.shape.write t), ?_, ?_, ?_, hconfig⟩
  · rw [Generation.child, hchild]
    exact hstart
  · rw [Config.toJson, htexts, Option.map_some]
  · rw [henviron, hjson]

theorem environ_of_child (h : g.child J toml freebsd it a = some c) :
    (g.attempt freebsd a.upgrade).childEnvp J it g.environ = .ok c.environ := by
  unfold Generation.child at h
  cases hchild : (g.attempt freebsd a.upgrade).childEnvp J it g.environ with
  | error e => simp [hchild] at h
  | ok environ =>
    simp only [hchild] at h
    obtain ⟨config, dropped, security, -, -, rfl⟩ := start_eq_some_iff.mp h
    rfl

theorem child_inv {environ₀ : List CString} (hi : g.Inv environ₀) (hnss : Bounded a.nss)
    (h : g.child J toml freebsd it a = some c) : c.Inv environ₀ := by
  have hchild := environ_of_child h
  rw [Generation.child, hchild] at h
  obtain ⟨config, dropped, security, -, hids, hc⟩ := start_eq_some_iff.mp h
  refine ⟨child_clean hi.clean hchild, ?_, fun k hk => ?_⟩
  · rw [hc]
    exact (settled_of_settleIds hnss hids).1
  · rw [← hi.kept k hk]
    exact child_kept hi.clean hchild hk

theorem Generation.step_inv {environ₀ : List CString} (hi : g.Inv environ₀) (hnss : Bounded a.nss)
    (h : g.step J toml freebsd it a = some c) : c.Inv environ₀ := by
  cases h
  split
  · cases hchild : g.child J toml freebsd it a with
    | none => exact hi
    | some c => exact child_inv hi hnss hchild
  · exact hi

/-- If the configuration is handed over, it does not change, whatever becomes of the attempt. -/
theorem Generation.step_config {environ₀ : List CString} (hi : g.Inv environ₀)
    (hands : g.handsOver freebsd a = true) (h : g.step J toml freebsd it a = some c) :
    c.config = g.config := by
  cases h
  split
  · cases hchild : g.child J toml freebsd it a with
    | none => rfl
    | some c =>
      obtain ⟨hrefusal, -⟩ := child_vars hi.clean (environ_of_child hchild)
      obtain ⟨c', json, hchild', -, -, hconfig⟩ :=
        @child_of_handsOver J toml freebsd it g a environ₀ hi hands hrefusal
      cases hchild.symm.trans hchild'
      exact hconfig
  · rfl

end Generations

/-- A processor and all that follow it by upgrades, on any system, with attempts that fail or
succeed, a file that is edited and accounts that are renamed meanwhile. As long as each hands its
configuration over, it is the first one's, in every field. An attempt that nothing refuses then
starts a successor with it; and one that hands nothing over starts a successor that finds no
configuration in its environment, left by whatever generation, and the file where the first one
found it. -/
theorem config_crosses_upgrades (J : JsonText) (toml : String → Option (Config PathBuf))
    (freebsd : Bool) (it : Iteration (Sigma fun _ : String => String)) (nss : Nss)
    (readToString : PathBuf → Option String) (environ : List CString) (cred : Cred) (capMode : Bool)
    (g₀ g : Generation) (as : List GenerationAct)
    (hstart : start J toml freebsd nss readToString environ cred capMode = some g₀)
    (hclean : Clean environ) (hnss : Bounded nss) (hacts : ∀ a ∈ as, Bounded a.nss)
    (h : exec (Generation.step J toml freebsd it) g₀ as = some g) :
    (Along (Generation.step J toml freebsd it) (fun g a => g.handsOver freebsd a = true) g₀ as →
      g.config = g₀.config) ∧
    ∀ a,
      (g.handsOver freebsd a = true → (g.attempt freebsd a.upgrade).refusal = none →
        ∃ c json, g.child J toml freebsd it a = some c ∧ g.config.toJson J = some json ∧
          varOs c.environ (utf8 envConfigJson) = some (utf8 json) ∧ c.config = g.config) ∧
      ∀ c, g.handsOver freebsd a = false → g.child J toml freebsd it a = some c →
        varOs c.environ (utf8 envConfigJson) = none ∧
        varOs c.environ (utf8 envConfigPath) = varOs environ (utf8 envConfigPath) ∧
        varOs c.environ (utf8 "RUNTIME_DIRECTORY") = varOs environ (utf8 "RUNTIME_DIRECTORY") := by
  have hi₀ : g₀.Inv environ := by
    obtain ⟨config, dropped, security, -, hids, rfl⟩ := start_eq_some_iff.mp hstart
    exact ⟨hclean, (settled_of_settleIds hnss hids).1, fun _ _ => rfl⟩
  have hacts' : Along (Generation.step J toml freebsd it) (fun _ a => Bounded a.nss) g₀ as :=
    along_of_forall (fun a => Bounded a.nss) (fun _ _ ha => ha) g₀ as hacts
  have hi : g.Inv environ :=
    exec_along (fun _ _ _ hi hb hs => Generation.step_inv hi hb hs) g₀ g as hi₀ hacts' h
  refine ⟨fun hands => ?_, fun a => ⟨child_of_handsOver hi, fun c hands hc => ?_⟩⟩
  · have hboth : g.Inv environ ∧ g.config = g₀.config := by
      refine exec_along (I := fun g => g.Inv environ ∧ g.config = g₀.config) ?_ g₀ g as ⟨hi₀, rfl⟩
        (along_and hacts' hands) h
      intro s a t hs hg ht
      exact ⟨Generation.step_inv hs.1 hg.1 ht, (Generation.step_config hs.1 hg.2 ht).trans hs.2⟩
    exact hboth.2
  · have hchild := environ_of_child hc
    refine ⟨(child_json hi.clean hchild).2 hands, ?_, ?_⟩
    · rw [child_kept hi.clean hchild path_kept, hi.kept _ path_kept]
    · rw [child_kept hi.clean hchild runtime_kept, hi.kept _ runtime_kept]

def sandboxedConfig : Config String :=
  { Config.default with
    security := ⟨none, none, .strict, ⟨[("scanner", .off)], by simp⟩⟩ }

def sandboxedEnviron : List CString := [⟨utf8 "FDPASS_CONFIG_PATH=/etc/echod.toml", by decide⟩]

def sandboxedAct : GenerationAct := ⟨capModeUpgrade, Supervisor.noNames, fun _ => none, true⟩

def sandboxedGeneration : Generation where
  environ := sandboxedEnviron
  cred := ⟨1001, 1001⟩
  capMode := true
  config := sandboxedConfig.paths

theorem sandboxed_start :
    start compact (fun _ => some sandboxedConfig.paths) true Supervisor.noNames (fun _ => some "")
      sandboxedEnviron ⟨1001, 1001⟩ false = some sandboxedGeneration := by
  have hload : load compact (fun _ => some sandboxedConfig.paths) (fun _ => some "")
      sandboxedEnviron none = .ok sandboxedConfig.paths := by
    have hjson : varOs sandboxedEnviron (utf8 envConfigJson) = none := by decide
    have hpath : varOs sandboxedEnviron (utf8 envConfigPath) = some (utf8 "/etc/echod.toml") := by
      decide
    have hruntime : varOs sandboxedEnviron (utf8 "RUNTIME_DIRECTORY") = none := by decide
    simp only [load, hjson, hpath, hruntime]
    rfl
  have hsettled : Settled ⟨1001, 1001⟩ sandboxedConfig.paths.security :=
    ⟨by simp [sandboxedConfig, Config.paths, Config.mapPaths],
      by simp [sandboxedConfig, Config.paths, Config.mapPaths]⟩
  exact start_eq_some_iff.mpr ⟨_, _, _, hload, settleIds_of_settled hsettled _ _, rfl⟩

theorem sandboxedEnviron_clean : Clean sandboxedEnviron := by
  have hvars :
      varsOs sandboxedEnviron = [("FDPASS_CONFIG_PATH", "/etc/echod.toml")].map utf8Var := by
    decide
  refine ⟨?_, fun k v w hv hw _ => ?_⟩
  · rw [← vars_ok_iff]
    exact ⟨_, (vars_eq_ok_iff _ _).mpr hvars⟩
  · rw [hvars] at hv hw
    exact explicit_single (by decide) k v w hv hw

theorem sandboxed_handsOver (g : Generation) (h : g.config = sandboxedConfig.paths) :
    g.handsOver true sandboxedAct = true ∧
      (g.attempt true sandboxedAct.upgrade).refusal = none := by
  have hmode : g.config.security.effectiveSandbox "processor" = .strict := by
    rw [h]
    decide
  have htexts : g.config.texts = some sandboxedConfig := by
    rw [h]
    exact (Config.texts_eq_some_iff _ _).mpr rfl
  constructor
  · simp only [Generation.handsOver, hmode]
    decide
  · simp only [ProcessorUpgrade.refusal, Env.beforeSpawn, Generation.attempt, hmode, htexts,
      sandboxedAct, capModeUpgrade, missingBinary, capModeHandoff, requireStaticForCapmodeUpgrade]
    simp

/-- A sandboxed processor, its successor and the successor of that one. -/
theorem config_crosses_sandboxed :
    ∃ g c json, exec (Generation.step compact (fun _ => some sandboxedConfig.paths) true
        (Iteration.stored _)) sandboxedGeneration [sandboxedAct] = some g ∧
      g.config = sandboxedConfig.paths ∧
      g.child compact (fun _ => some sandboxedConfig.paths) true (Iteration.stored _) sandboxedAct =
        some c ∧
      varOs c.environ (utf8 envConfigJson) = some (utf8 json) ∧
      c.config = sandboxedConfig.paths := by
  have hbounded : Bounded Supervisor.noNames :=
    ⟨by simp [Supervisor.noNames], by simp [Supervisor.noNames]⟩
  obtain ⟨g, hg⟩ : ∃ g, exec (Generation.step compact (fun _ => some sandboxedConfig.paths) true
      (Iteration.stored _)) sandboxedGeneration [sandboxedAct] = some g := ⟨_, rfl⟩
  obtain ⟨hsame, hnext⟩ := config_crosses_upgrades compact (fun _ => some sandboxedConfig.paths)
    true (Iteration.stored _) Supervisor.noNames (fun _ => some "") sandboxedEnviron ⟨1001, 1001⟩
    false sandboxedGeneration g [sandboxedAct] sandboxed_start sandboxedEnviron_clean hbounded
    (fun a ha => by rw [List.mem_singleton.mp ha]; exact hbounded) hg
  have hconfig : g.config = sandboxedConfig.paths :=
    hsame ⟨(sandboxed_handsOver sandboxedGeneration rfl).1, fun _ _ => trivial⟩
  obtain ⟨hands, hrefusal⟩ := sandboxed_handsOver g hconfig
  obtain ⟨c, json, hc, -, hjson, hc'⟩ := (hnext sandboxedAct).1 hands hrefusal
  exact ⟨g, c, json, hg, hconfig, hc, hjson, hc'.trans hconfig⟩

end FiveNinesEcho.Upgrade
