import FiveNinesEcho.Lib.Environ
import FiveNinesEcho.Lib.Json
import FiveNinesEcho.Upgrade.Attempt

/-!
# The environment of an upgrade child (`handoff.rs:196-218`, `handoff.rs:343-376`,
`handoff.rs:529-567`, `processor/upgrade.rs:295-347`)

The child's environment is built twice: as changes to a `Command`, which `exec` by path passes on,
and by hand for `fexecve`, which FreeBSD uses where the image is the worker's own. Both come to the
same variables. But the stale names are looked for with `env::vars`, which panics on a variable that
is no text, whatever its name is.
-/

namespace FiveNinesEcho.Upgrade
open Lib Handoff

def envListenerFd : String := "FDPASS_LISTENER_FD"
def envSessionsFd : String := "FDPASS_SESSIONS_FD"
def envUpgradeGeneration : String := "FDPASS_GENERATION"
def envReadyFd : String := "FDPASS_READY_FD"
def envConfigJson : String := "FDPASS_CONFIG_JSON"
def envSocketsDirFd : String := "FDPASS_SOCKETS_DIR_FD"
def envCertDirFd : String := "FDPASS_CERT_DIR_FD"
def envKeyDirFd : String := "FDPASS_KEY_DIR_FD"
def envSelfExeFd : String := "FDPASS_SELF_EXE_FD"
def envSelfExePath : String := "FDPASS_SELF_EXE_PATH"
def envConfigPath : String := "FDPASS_CONFIG_PATH"

def preservedEnv : List String := [envConfigPath, "FDPASS_LOG_FORMAT"]

inductive Panic where
  | unwrap (s : OsString)
  | expect (message : String)
  deriving Repr, DecidableEq

inductive Failure where
  | panic (p : Panic)
  | err (e : Error)
  deriving Repr, DecidableEq

/-! ### The scrub -/

/-- `env::vars()`, walked to its end. -/
def envVars (environ : List CString) : Except Failure (List (String × String)) :=
  match vars environ with
  | .ok vs => .ok vs
  | .error s => .error (.panic (.unwrap s))

def isFdpass (k : OsString) : Bool := (utf8 "FDPASS_").isPrefixOf k

def fdpassEnvToRemove (environ : List CString) : Except Failure (List String) := do
  let vs ← envVars environ
  return (vs.filter fun kv => isFdpass (utf8 kv.1) && !preservedEnv.contains kv.1).map Prod.fst

def scrubFdpassEnv (environ : List CString) (cmd : Command) : Except Failure Command := do
  let ks ← fdpassEnvToRemove environ
  return ks.foldl (fun cmd k => cmd.envRemove (utf8 k)) cmd

/-! ### The block for `fexecve` -/

def expectCString (message s : String) : Except Failure CString :=
  match CString.new (utf8 s) with
  | some c => .ok c
  | none => .error (.panic (.expect message))

structure FexecvePreExecData where
  arg0 : CString
  arg1 : CString
  envp : List CString

/-- `fexecve_pre_exec` up to the fork; `it` is the order in which the hash map is walked. -/
def fexecvePreExec (it : Iteration (Sigma fun _ : String => String)) (environ : List CString)
    (exeArg0 roleArg : String) (extraEnv : List (String × String)) (envRemove : List String) :
    Except Failure FexecvePreExecData := do
  let arg0 ← expectCString "exe path has nul" exeArg0
  let arg1 ← expectCString "role has nul" roleArg
  let vs ← envVars environ
  let envMap : Table String String := Table.changed ∅ (vs.map setTo)
  let envMap := Table.changed envMap (envRemove.map unset)
  let envMap := Table.changed envMap (extraEnv.map setTo)
  let envp ← (Table.walk it envMap).mapM fun kv =>
    expectCString "env value has nul" (kv.1 ++ "=" ++ kv.2)
  return ⟨arg0, arg1, envp⟩

/-! ### The attempt -/

/-- The path is its `to_string_lossy`. A path has no NUL. -/
structure SelfExe where
  fd : Fd
  path : String
  noNul : 0 ∉ utf8 path

structure HandoffDirFds where
  sockets : Option Fd
  cert : Option Fd
  key : Option Fd

/-- The pairs of `CapModeHandoff::prepare`. -/
def capModePrepare (selfExe : SelfExe) (dirs : HandoffDirFds) : List (String × String) :=
  let named := [(envSocketsDirFd, dirs.sockets), (envCertDirFd, dirs.cert), (envKeyDirFd, dirs.key)]
  let specs := (envSelfExeFd, selfExe.fd) ::
    named.filterMap fun spec => spec.2.map fun fd => (spec.1, fd)
  specs.map (fun spec => (spec.1, toString spec.2)) ++ [(envSelfExePath, selfExe.path)]

structure ProcessorUpgrade where
  env : Env
  generation : UInt64
  listenerFd : Fd
  sessionsReadFd : Fd
  childWriteFd : Fd
  selfExe : SelfExe
  dirs : HandoffDirFds
  config : Json
  config_fits : config.Fits 127

namespace ProcessorUpgrade
variable (J : JsonText) (it : Iteration (Sigma fun _ : String => String)) (environ : List CString)
  (u : ProcessorUpgrade)

/-- The pairs `cap_mode_handoff` adds; what it fails with is `capModeHandoff`. -/
def capModePairs : List (String × String) :=
  if !u.env.freebsd || u.env.targetOverridden || u.env.capMode.sandboxOff then []
  else (envConfigJson, J.render u.config) :: capModePrepare u.selfExe u.dirs

/-- The command as `do_upgrade` sets it up. -/
def command : Except Failure Command := do
  let cmd ← scrubFdpassEnv environ Command.new
  let cmd := cmd.env (utf8 envListenerFd) (utf8 (toString u.listenerFd))
  let cmd := cmd.env (utf8 envSessionsFd) (utf8 (toString u.sessionsReadFd))
  let cmd := cmd.env (utf8 envUpgradeGeneration) (utf8 (toString (u.generation + 1)))
  return cmd.env (utf8 envReadyFd) (utf8 (toString u.childWriteFd))

/-- The pairs of the attempt itself. -/
def explicitEnv : List (String × String) :=
  [(envListenerFd, toString u.listenerFd), (envSessionsFd, toString u.sessionsReadFd),
    (envUpgradeGeneration, toString (u.generation + 1)), (envReadyFd, toString u.childWriteFd)]

def fexecveEnv : List (String × String) := u.explicitEnv ++ u.capModePairs J

/-- What `fexecve` passes on where it is used. -/
def fexecveEnvp : Except Failure (List CString) := do
  let ks ← fdpassEnvToRemove environ
  let data ← fexecvePreExec it environ u.selfExe.path "processor" (u.fexecveEnv J) ks
  return data.envp

def raise (r : Option Error) : Except Failure Unit :=
  match r with
  | none => .ok ()
  | some e => .error (.err e)

/-- `install_fexecve_pre_exec`, with the checks before it. -/
def hook : Except Failure (Option (List CString)) := do
  raise (if u.env.freebsd then capModeHandoff u.env.targetOverridden u.env.capMode else none)
  if u.env.targetOverridden then return none
  raise (requireStaticForCapmodeUpgrade (u.env.freebsd && u.env.inCapsicumMode)
    u.env.elfHasInterpreter)
  if u.env.freebsd then return some (← u.fexecveEnvp J it environ)
  let _ ← fdpassEnvToRemove environ
  return none

/-- What `exec` by path passes on: the environment as `Command` captures it at the spawn. -/
def spawnEnvp (cmd : Command) : Except Failure (List CString) :=
  match constructEnvp (Table.walk (byKey _) (cmd.captureEnv environ)) with
  | some envp => .ok envp
  | none => .error (.err ["spawn upgrade child", "nul byte found in provided data"])

def commandEnvp : Except Failure (List CString) := do
  spawnEnvp environ (← u.command environ)

/-- The environment the child starts with. The hook runs in the child before `exec` by path would,
and does not return. -/
def childEnvp : Except Failure (List CString) := do
  let cmd ← u.command environ
  let hook ← u.hook J it environ
  let envp ← spawnEnvp environ cmd
  return hook.getD envp

end ProcessorUpgrade

/-! ### What the child should have -/

def Stale (k : OsString) : Prop := isFdpass k = true ∧ k ∉ preservedEnv.map utf8

/-- Of the `FDPASS_*` variables the preserved ones and those set for the attempt; and every other. -/
def Wanted (environ : List CString) (explicit : List (String × String)) (var : Var) : Prop :=
  if isFdpass var.1 = true then
    (var.1 ∈ preservedEnv.map utf8 ∧ var ∈ varsOs environ) ∨ var ∈ explicit.map utf8Var
  else var ∈ varsOs environ

/-- Every variable is text, and none that is passed on has two values. -/
structure Clean (environ : List CString) : Prop where
  unicode : ∀ var ∈ varsOs environ, IsUnicode var.1 ∧ IsUnicode var.2
  single : ∀ k v w, (k, v) ∈ varsOs environ → (k, w) ∈ varsOs environ → ¬ Stale k → v = w

/-- Pairs to set whose names are new to a scrubbed environment. -/
structure Proper (explicit : List (String × String)) : Prop where
  names : (explicit.map Prod.fst).Nodup
  stale : ∀ kv ∈ explicit, Stale (utf8 kv.1)
  named : ∀ kv ∈ explicit, IsName (utf8 kv.1)
  noNul : ∀ kv ∈ explicit, 0 ∉ utf8 kv.1 ∧ 0 ∉ utf8 kv.2

section Wanted
variable {environ : List CString} {explicit : List (String × String)} {var : Var}

theorem wanted_of_kept (hst : ¬ Stale var.1) (h : var ∈ varsOs environ) :
    Wanted environ explicit var := by
  unfold Wanted
  split
  · next hfd =>
    refine Or.inl ⟨?_, h⟩
    by_contra hkeep
    exact hst ⟨hfd, hkeep⟩
  · exact h

theorem Wanted.ambient_or_explicit (h : Wanted environ explicit var) :
    var ∈ varsOs environ ∨ var ∈ explicit.map utf8Var := by
  unfold Wanted at h
  split at h
  · exact h.imp And.right id
  · exact Or.inl h

/-- A variable under a stale name is wanted only as it was set. -/
theorem wanted_stale_iff (hst : Stale var.1) :
    Wanted environ explicit var ↔ var ∈ explicit.map utf8Var := by
  unfold Wanted
  rw [if_pos hst.1, or_iff_right]
  rintro ⟨hkeep, -⟩
  exact hst.2 hkeep

end Wanted

/-! ### Both blocks are changes to the ambient one -/

def stale (vs : List (String × String)) : List String :=
  (vs.filter fun kv => isFdpass (utf8 kv.1) && !preservedEnv.contains kv.1).map Prod.fst

/-- The value a name has after the scrub and the explicit settings. -/
def outcome (vs : List (String × String)) (explicit : List (String × String)) (k : OsString) :
    Option OsString :=
  (Table.latest k ((vs.map utf8Var).map setTo ++ ((stale vs).map utf8).map unset ++
    (explicit.map utf8Var).map setTo)).join

theorem explicit_single {explicit : List (String × String)} (h : (explicit.map Prod.fst).Nodup)
    (k : OsString) (v w : OsString) (hv : (k, v) ∈ explicit.map utf8Var)
    (hw : (k, w) ∈ explicit.map utf8Var) : v = w := by
  obtain ⟨a, ha, heq⟩ := List.mem_map.mp hv
  obtain ⟨b, hb, heq'⟩ := List.mem_map.mp hw
  obtain ⟨rfl, rfl⟩ := Prod.mk.inj heq
  obtain ⟨hab, rfl⟩ := Prod.mk.inj heq'
  rw [List.inj_on_of_nodup_map h ha hb (utf8_injective hab).symm]

section Outcome
variable {environ : List CString} {vs : List (String × String)} (hvs : vars environ = .ok vs)
include hvs

theorem fdpassEnvToRemove_ok : fdpassEnvToRemove environ = .ok (stale vs) := by
  simp only [fdpassEnvToRemove, envVars, hvs]
  rfl

theorem command_ok (u : ProcessorUpgrade) :
    u.command environ = .ok (Command.new.changed
      (((stale vs).map utf8).map unset ++ (u.explicitEnv.map utf8Var).map setTo)) := by
  have hscrub : scrubFdpassEnv environ Command.new =
      .ok (Command.new.changed (((stale vs).map utf8).map unset)) := by
    simp only [scrubFdpassEnv, fdpassEnvToRemove_ok hvs, Command.changed, List.foldl_map]
    rfl
  simp only [ProcessorUpgrade.command, hscrub, Command.changed, List.foldl_append,
    ProcessorUpgrade.explicitEnv, List.map_cons, List.map_nil, List.foldl_cons, List.foldl_nil,
    Command.env, setTo, utf8Var]
  rfl

theorem mem_commandVars (u : ProcessorUpgrade) (cmd : Command) (hcmd : u.command environ = .ok cmd)
    (var : Var) : var ∈ Table.walk (byKey _) (cmd.captureEnv environ) ↔
      outcome vs u.explicitEnv var.1 = some var.2 := by
  rw [command_ok hvs u] at hcmd
  cases hcmd
  rw [Table.mem_walk, Command.lookup_captureEnv, (vars_eq_ok_iff environ vs).mp hvs,
    ← List.append_assoc]
  rfl

omit hvs in
/-- The hand-built map, in bytes. -/
theorem mem_fexecveVars (vs : List (String × String))
    (it : Iteration (Sigma fun _ : String => String)) (explicit : List (String × String))
    (var : Var) :
    var ∈ (Table.walk it (Table.changed (Table.changed (Table.changed ∅ (vs.map setTo))
      ((stale vs).map unset)) (explicit.map setTo))).map utf8Var ↔
      outcome vs explicit var.1 = some var.2 := by
  have hempty : ∀ s, AList.lookup s (∅ : Table String String) = none := AList.lookup_empty
  have hfold : Table.changed (Table.changed (Table.changed (∅ : Table String String) (vs.map setTo))
      ((stale vs).map unset)) (explicit.map setTo) = Table.changed ∅
        (vs.map setTo ++ (stale vs).map unset ++ explicit.map setTo) := by
    simp only [Table.changed, List.foldl_append]
  have hbytes : (vs.map utf8Var).map setTo ++ ((stale vs).map utf8).map unset ++
      (explicit.map utf8Var).map setTo =
      (vs.map setTo ++ (stale vs).map unset ++ explicit.map setTo).map
        fun c : String × Option String => (utf8 c.1, c.2.map utf8) := by
    simp only [List.map_append, List.map_map]
    rfl
  rw [hfold, outcome, hbytes]
  generalize vs.map setTo ++ (stale vs).map unset ++ explicit.map setTo = cs
  obtain ⟨k, v⟩ := var
  constructor
  · intro h
    obtain ⟨kv, hkv, heq⟩ := List.mem_map.mp h
    cases heq
    rw [Table.mem_walk, Table.lookup_changed, hempty] at hkv
    rw [Table.latest_map utf8_injective (Option.map utf8)]
    cases hl : Table.latest kv.1 cs with
    | none => simp [hl] at hkv
    | some c =>
      simp only [hl, Option.getD_some] at hkv
      simp [hkv]
  · intro h
    rw [Option.join_eq_some_iff] at h
    obtain ⟨⟨a, c⟩, hc, heq⟩ := List.mem_map.mp (Table.mem_of_latest h)
    obtain ⟨rfl, -⟩ := Prod.mk.inj heq
    rw [Table.latest_map utf8_injective (Option.map utf8), Option.map_eq_some_iff] at h
    obtain ⟨d, hd, hdv⟩ := h
    obtain ⟨t, rfl, rfl⟩ := Option.map_eq_some_iff.mp hdv
    refine List.mem_map.mpr ⟨(a, t), ?_, rfl⟩
    rw [Table.mem_walk, Table.lookup_changed, hd]
    rfl

theorem outcome_proper {explicit : List (String × String)} (hproper : Proper explicit) {k v : OsString}
    (h : outcome vs explicit k = some v) : IsName k ∧ 0 ∉ k ∧ 0 ∉ v := by
  have hmem := Table.mem_of_latest (Option.join_eq_some_iff.mp h)
  rw [← (vars_eq_ok_iff environ vs).mp hvs] at hmem
  simp only [List.mem_append, List.mem_map] at hmem
  rcases hmem with (⟨var, hvar, heq⟩ | ⟨k', -, heq⟩) | ⟨var, ⟨kv, hkv, rfl⟩, heq⟩
  · cases heq
    exact mem_varsOs hvar
  · cases heq
  · cases heq
    exact ⟨hproper.named kv hkv, hproper.noNul kv hkv⟩

theorem mem_stale_iff (k : OsString) :
    k ∈ (stale vs).map utf8 ↔ Stale k ∧ ∃ v, (k, v) ∈ varsOs environ := by
  rw [(vars_eq_ok_iff environ vs).mp hvs]
  simp only [stale, List.mem_map, List.mem_filter, Bool.and_eq_true, Bool.not_eq_true',
    List.contains_eq_mem, decide_eq_false_iff_not, Stale]
  constructor
  · rintro ⟨s, ⟨kv, ⟨hkv, hfd, hkeep⟩, rfl⟩, rfl⟩
    refine ⟨⟨hfd, ?_⟩, utf8 kv.2, kv, hkv, rfl⟩
    rintro ⟨t, ht, heq⟩
    rw [utf8_injective heq] at ht
    exact hkeep ht
  · rintro ⟨⟨hfd, hkeep⟩, v, kv, hkv, heq⟩
    cases heq
    refine ⟨kv.1, ⟨kv, ⟨hkv, hfd, ?_⟩, rfl⟩, rfl⟩
    intro hmem
    exact hkeep ⟨kv.1, hmem, rfl⟩

/-- Where no name that is passed on has two values, the outcome is what is wanted. -/
theorem outcome_iff_wanted (hclean : Clean environ) {explicit : List (String × String)}
    (hproper : Proper explicit) (var : Var) :
    outcome vs explicit var.1 = some var.2 ↔ Wanted environ explicit var := by
  obtain ⟨k, v⟩ := var
  have hread := (vars_eq_ok_iff environ vs).mp hvs
  have hremoved := mem_stale_iff hvs k
  simp only [outcome, Table.latest_append, latest_setTo, latest_unset, ← hread]
  cases hlast : Table.latest k (explicit.map utf8Var) with
  | some w =>
    -- set for the attempt: what was there under the name does not count
    obtain ⟨kv, hkv, heq⟩ := List.mem_map.mp (Table.mem_of_latest hlast)
    obtain ⟨rfl, rfl⟩ := Prod.mk.inj heq
    have honly : ∀ d e, (utf8 kv.1, d) ∈ explicit.map utf8Var →
        (utf8 kv.1, e) ∈ explicit.map utf8Var → d = e := explicit_single hproper.names _
    rw [wanted_stale_iff (hproper.stale kv hkv), ← Table.latest_eq_some_iff honly, hlast]
    simp
  | none =>
    have hnot := (Table.latest_eq_none_iff k _).mp hlast v
    by_cases hk : k ∈ (stale vs).map utf8
    · rw [wanted_stale_iff (hremoved.mp hk).1]
      simp [hk, hnot]
    · have hkept : ∀ x, (k, x) ∈ varsOs environ → ¬ Stale k :=
        fun x hx hst => hk (hremoved.mpr ⟨hst, x, hx⟩)
      have honly : ∀ d e, (k, d) ∈ varsOs environ → (k, e) ∈ varsOs environ → d = e :=
        fun d e hd he => hclean.single k d e hd he (hkept d hd)
      have hambient : ∀ o : Option OsString, ((Option.map some (none : Option OsString)).or
          ((none : Option (Option OsString)).or (o.map some))).join = o := by
        intro o
        cases o <;> rfl
      rw [if_neg hk, hambient, Table.latest_eq_some_iff honly]
      constructor
      · intro hmem
        exact wanted_of_kept (hkept v hmem) hmem
      · intro hwanted
        exact hwanted.ambient_or_explicit.resolve_right hnot

end Outcome

/-! ### The names of an attempt -/

def attemptNames : List String :=
  [envListenerFd, envSessionsFd, envUpgradeGeneration, envReadyFd, envConfigJson, envSelfExeFd,
    envSocketsDirFd, envCertDirFd, envKeyDirFd, envSelfExePath]

theorem attemptNames_nodup : attemptNames.Nodup := by decide

theorem attemptNames_proper :
    ∀ k ∈ attemptNames, Stale (utf8 k) ∧ IsName (utf8 k) ∧ 0 ∉ utf8 k := by
  unfold Stale IsName
  decide

namespace ProcessorUpgrade
variable (J : JsonText) (it : Iteration (Sigma fun _ : String => String)) (environ : List CString)
  (u : ProcessorUpgrade)

theorem capModePrepare_names (selfExe : SelfExe) (dirs : HandoffDirFds) :
    ((capModePrepare selfExe dirs).map Prod.fst).Sublist
      [envSelfExeFd, envSocketsDirFd, envCertDirFd, envKeyDirFd, envSelfExePath] := by
  obtain ⟨sockets, cert, key⟩ := dirs
  cases sockets <;> cases cert <;> cases key <;> simp [capModePrepare]

theorem fexecveEnv_names : ((u.fexecveEnv J).map Prod.fst).Sublist attemptNames := by
  have hcap : ((u.capModePairs J).map Prod.fst).Sublist
      [envConfigJson, envSelfExeFd, envSocketsDirFd, envCertDirFd, envKeyDirFd, envSelfExePath] := by
    unfold capModePairs
    split
    · exact List.nil_sublist _
    · exact (capModePrepare_names u.selfExe u.dirs).cons_cons envConfigJson
  rw [fexecveEnv, List.map_append]
  exact (List.Sublist.refl (u.explicitEnv.map Prod.fst)).append hcap

theorem capModePrepare_noNul (kv : String × String) (h : kv ∈ capModePrepare u.selfExe u.dirs) :
    0 ∉ utf8 kv.2 := by
  simp only [capModePrepare, List.mem_append, List.mem_map, List.mem_singleton] at h
  rcases h with ⟨spec, -, rfl⟩ | rfl
  · exact toString_noNul spec.2
  · exact u.selfExe.noNul

theorem fexecveEnv_noNul (kv : String × String) (h : kv ∈ u.fexecveEnv J) : 0 ∉ utf8 kv.2 := by
  rcases List.mem_append.mp h with h | h
  · simp only [explicitEnv, List.mem_cons, List.not_mem_nil, or_false] at h
    rcases h with rfl | rfl | rfl | rfl
    · exact toString_noNul _
    · exact toString_noNul _
    · exact toString_noNul (u.generation + 1).toNat
    · exact toString_noNul _
  · unfold capModePairs at h
    split at h
    · cases h
    · rcases List.mem_cons.mp h with rfl | h
      · refine utf8_noNul fun c hc => ?_
        have hplain := J.render_plain u.config u.config_fits c hc
        omega
      · exact capModePrepare_noNul u kv h

theorem fexecveEnv_proper : Proper (u.fexecveEnv J) := by
  have hname : ∀ kv ∈ u.fexecveEnv J, kv.1 ∈ attemptNames := by
    intro kv hkv
    exact (u.fexecveEnv_names J).subset (List.mem_map_of_mem hkv)
  refine ⟨(u.fexecveEnv_names J).nodup attemptNames_nodup, ?_, ?_, ?_⟩
  · intro kv hkv
    exact (attemptNames_proper kv.1 (hname kv hkv)).1
  · intro kv hkv
    exact (attemptNames_proper kv.1 (hname kv hkv)).2.1
  · intro kv hkv
    exact ⟨(attemptNames_proper kv.1 (hname kv hkv)).2.2, u.fexecveEnv_noNul J kv hkv⟩

theorem explicitEnv_proper : Proper u.explicitEnv := by
  -- the pairs of `fexecve` on a system without capability mode
  let v : ProcessorUpgrade := { u with env := { u.env with freebsd := false } }
  have hv : v.fexecveEnv compact = u.explicitEnv := rfl
  rw [← hv]
  exact v.fexecveEnv_proper compact

/-! ### The two blocks -/

section Blocks
variable {environ} {vs : List (String × String)} (hvs : vars environ = .ok vs)
include hvs

theorem commandEnvp_lists :
    ∃ envp, u.commandEnvp environ = .ok envp ∧
      Lists envp fun var => outcome vs u.explicitEnv var.1 = some var.2 := by
  have hcmd := command_ok hvs u
  generalize Command.new.changed _ = cmd at hcmd
  have hmem := mem_commandVars hvs u cmd hcmd
  obtain ⟨envp, henvp, hbytes⟩ := constructEnvp_spec _ fun var hvar =>
    (outcome_proper hvs u.explicitEnv_proper ((hmem var).mp hvar)).2
  refine ⟨envp, ?_, _, hbytes, Table.nodup_walk _ _, hmem⟩
  simp only [commandEnvp, hcmd, bind, Except.bind, spawnEnvp, henvp]

omit hvs in
theorem mapM_expectCString (message : String) (kvs : List (String × String)) (envp : List CString)
    (h : constructEnvp (kvs.map utf8Var) = some envp) :
    kvs.mapM (fun kv => expectCString message (kv.1 ++ "=" ++ kv.2)) = .ok envp := by
  induction kvs generalizing envp with
  | nil =>
    cases h
    rfl
  | cons kv kvs ih =>
    rw [constructEnvp, List.map_cons, List.mapM_cons] at h
    obtain ⟨c, hc, h⟩ := Option.bind_eq_some_iff.mp h
    obtain ⟨cs, hcs, h⟩ := Option.bind_eq_some_iff.mp h
    cases h
    have hfirst : expectCString message (kv.1 ++ "=" ++ kv.2) = .ok c := by
      simp only [expectCString, utf8_entry, hc]
    rw [List.mapM_cons, hfirst, ih cs hcs]
    rfl

theorem fexecveEnvp_lists :
    ∃ envp, u.fexecveEnvp J it environ = .ok envp ∧
      Lists envp fun var => outcome vs (u.fexecveEnv J) var.1 = some var.2 := by
  have hmem := mem_fexecveVars vs it (u.fexecveEnv J)
  obtain ⟨envp, henvp, hbytes⟩ := constructEnvp_spec _ fun var hvar =>
    (outcome_proper hvs (u.fexecveEnv_proper J) ((hmem var).mp hvar)).2
  have hnodup := (Table.nodup_walk it (Table.changed (Table.changed (Table.changed ∅ (vs.map setTo))
    ((stale vs).map unset)) ((u.fexecveEnv J).map setTo))).map utf8Var_injective
  refine ⟨envp, ?_, _, hbytes, hnodup, hmem⟩
  have harg0 : expectCString "exe path has nul" u.selfExe.path = .ok ⟨_, u.selfExe.noNul⟩ := by
    rw [expectCString, CString.new, dif_neg u.selfExe.noNul]
  have harg1 : expectCString "role has nul" "processor" = .ok ⟨utf8 "processor", by decide⟩ := by
    rw [expectCString, CString.new, dif_neg (by decide)]
  have henv := mapM_expectCString "env value has nul" _ envp henvp
  simp only [fexecveEnvp, fdpassEnvToRemove_ok hvs, fexecvePreExec, harg0, harg1, envVars, hvs,
    henv, bind, Except.bind, pure, Except.pure]

end Blocks

/-! ### The child -/

/-- What the checks before the spawn refuse the attempt with. -/
def refusal : Option Error := (u.env.beforeSpawn.take 2).findSome? id

def usesFexecve : Bool := u.env.freebsd && !u.env.targetOverridden

theorem hook_eq (ks : List String) (envp : List CString) (hks : fdpassEnvToRemove environ = .ok ks)
    (henvp : u.fexecveEnvp J it environ = .ok envp) :
    u.hook J it environ =
      match u.refusal with
      | some e => .error (.err e)
      | none => .ok (if u.usesFexecve then some envp else none) := by
  simp only [hook, refusal, usesFexecve, Env.beforeSpawn, List.take_succ_cons, List.take_zero,
    List.findSome?_cons, List.findSome?_nil, id, hks, henvp]
  generalize (if u.env.freebsd = true then capModeHandoff u.env.targetOverridden u.env.capMode
    else none) = first
  generalize requireStaticForCapmodeUpgrade (u.env.freebsd && u.env.inCapsicumMode)
    u.env.elfHasInterpreter = second
  cases first with
  | some e => rfl
  | none =>
    by_cases htarget : u.env.targetOverridden = true
    · simp only [htarget, if_true, Bool.not_true, Bool.and_false, Bool.false_eq_true, if_false]
      rfl
    · cases second with
      | some e =>
        simp only [htarget]
        rfl
      | none =>
        simp only [htarget, Bool.not_false, Bool.and_true]
        by_cases hfreebsd : u.env.freebsd = true
        · simp only [hfreebsd, if_true]
          rfl
        · simp only [hfreebsd]
          rfl

theorem childEnvp_eq (cmd fexec : List CString) (ks : List String)
    (hks : fdpassEnvToRemove environ = .ok ks) (hcmd : u.commandEnvp environ = .ok cmd)
    (hfexec : u.fexecveEnvp J it environ = .ok fexec) :
    u.childEnvp J it environ =
      match u.refusal with
      | some e => .error (.err e)
      | none => .ok (if u.usesFexecve then fexec else cmd) := by
  have hhook := u.hook_eq J it environ ks fexec hks hfexec
  cases hc : u.command environ with
  | error e => simp [commandEnvp, hc, bind, Except.bind] at hcmd
  | ok c =>
    simp only [commandEnvp, hc, bind, Except.bind] at hcmd
    simp only [childEnvp, hc, hhook, bind, Except.bind]
    cases u.refusal with
    | some e => rfl
    | none =>
      simp only [hcmd, pure, Except.pure]
      cases u.usesFexecve <;> rfl

/-- A variable that is no text ends the attempt at its scrub, on whatever system. -/
theorem commandEnvp_panics (s : OsString) (h : vars environ = .error s) :
    u.commandEnvp environ = .error (.panic (.unwrap s)) ∧
      u.childEnvp J it environ = .error (.panic (.unwrap s)) := by
  have hcmd : u.command environ = .error (.panic (.unwrap s)) := by
    simp only [command, scrubFdpassEnv, fdpassEnvToRemove, envVars, h]
    rfl
  simp only [commandEnvp, childEnvp, hcmd]
  exact ⟨rfl, rfl⟩

end ProcessorUpgrade

/-! ### Hygiene -/

/-- The child's environment is built, on both paths; it has the variables it should have; and the
block for `fexecve` is the one of the `Command` with the pairs of `cap_mode_handoff` added. The
attempt ends before the spawn only if a check refuses it. -/
def Hygienic (J : JsonText) (it : Iteration (Sigma fun _ : String => String))
    (environ : List CString) (u : ProcessorUpgrade) : Prop :=
  ∃ cmd fexec : List CString,
    u.commandEnvp environ = .ok cmd ∧ u.fexecveEnvp J it environ = .ok fexec ∧
    u.childEnvp J it environ =
      (match u.refusal with
      | some e => .error (.err e)
      | none => .ok (if u.usesFexecve then fexec else cmd)) ∧
    (∀ var, var ∈ varsOs cmd ↔ Wanted environ u.explicitEnv var) ∧
    (∀ var, var ∈ varsOs fexec ↔ Wanted environ (u.explicitEnv ++ u.capModePairs J) var) ∧
    (fexec.map CString.bytes).Perm
      (cmd.map CString.bytes ++ ((u.capModePairs J).map utf8Var).map entry)

theorem wanted_append {environ : List CString} {explicit more : List (String × String)}
    (hmore : ∀ kv ∈ more, Stale (utf8 kv.1)) (var : Var) :
    Wanted environ (explicit ++ more) var ↔
      Wanted environ explicit var ∨ var ∈ more.map utf8Var := by
  unfold Wanted
  split
  · rw [List.map_append, List.mem_append, or_assoc]
  · next hfd =>
    have hnot : var ∉ more.map utf8Var := by
      intro hmem
      obtain ⟨kv, hkv, rfl⟩ := List.mem_map.mp hmem
      exact hfd (hmore kv hkv).1
    simp [hnot]

section Hygiene
variable (J : JsonText) (it : Iteration (Sigma fun _ : String => String)) (environ : List CString)
  (u : ProcessorUpgrade)

theorem hygienic_of_clean (hclean : Clean environ) : Hygienic J it environ u := by
  obtain ⟨vs, hvs⟩ := (vars_ok_iff environ).mpr hclean.unicode
  obtain ⟨cmd, hcmd, hcmdLists⟩ := u.commandEnvp_lists hvs
  obtain ⟨fexec, hfexec, hfexecLists⟩ := u.fexecveEnvp_lists J it hvs
  have hown := u.explicitEnv_proper
  have hall := u.fexecveEnv_proper J
  have hmore : ∀ kv ∈ u.capModePairs J, kv ∈ u.fexecveEnv J :=
    fun kv hkv => List.mem_append_right _ hkv
  refine ⟨cmd, fexec, hcmd, hfexec,
    u.childEnvp_eq J it environ cmd fexec _ (fdpassEnvToRemove_ok hvs) hcmd hfexec, ?_, ?_, ?_⟩
  · intro var
    rw [← outcome_iff_wanted hvs hclean hown]
    exact hcmdLists.mem_varsOs_iff (fun _ h => (outcome_proper hvs hown h).1) var
  · intro var
    rw [← ProcessorUpgrade.fexecveEnv, ← outcome_iff_wanted hvs hclean hall]
    exact hfexecLists.mem_varsOs_iff (fun _ h => (outcome_proper hvs hall h).1) var
  · have hnames := hall.names
    rw [ProcessorUpgrade.fexecveEnv, List.map_append] at hnames
    refine hfexecLists.perm_append hcmdLists _ ?_ ?_ ?_
    · exact (List.Nodup.of_map _ hnames.of_append_right).map utf8Var_injective
    · -- no pair of `cap_mode_handoff` has the name of one of the attempt's own
      intro var hmem houtcome
      rw [outcome_iff_wanted hvs hclean hown] at houtcome
      obtain ⟨kv, hkv, rfl⟩ := List.mem_map.mp hmem
      have hset := (wanted_stale_iff (hall.stale kv (hmore kv hkv))).mp houtcome
      obtain ⟨kv', hkv', heq⟩ := List.mem_map.mp hset
      rw [utf8Var_injective heq] at hkv'
      exact List.disjoint_of_nodup_append hnames (List.mem_map_of_mem hkv')
        (List.mem_map_of_mem hkv)
    · intro var
      rw [outcome_iff_wanted hvs hclean hown, outcome_iff_wanted hvs hclean hall]
      exact wanted_append (fun kv hkv => hall.stale kv (hmore kv hkv)) var

/-- The child of every processor upgrade gets a clean environment, the same on both paths, exactly
when all the ambient variables are text and none that is passed on has two values. With a name or a
value that is no text, of whatever variable, the attempt panics. -/
theorem child_env_hygienic_iff : Hygienic J it environ u ↔ Clean environ := by
  refine ⟨?_, hygienic_of_clean J it environ u⟩
  rintro ⟨cmd, fexec, hcmd, -, -, hvars, -⟩
  cases hread : vars environ with
  | error s =>
    rw [(u.commandEnvp_panics J it environ s hread).1] at hcmd
    cases hcmd
  | ok vs =>
    refine ⟨(vars_ok_iff environ).mp ⟨vs, hread⟩, ?_⟩
    obtain ⟨envp, henvp, hlists⟩ := u.commandEnvp_lists hread
    rw [hcmd] at henvp
    cases henvp
    intro k v w hv hw hst
    have hpassed : ∀ x, (k, x) ∈ varsOs environ → outcome vs u.explicitEnv k = some x := by
      intro x hx
      have hwanted : Wanted environ u.explicitEnv (k, x) := wanted_of_kept hst hx
      rw [← hvars] at hwanted
      exact (hlists.mem_varsOs_iff
        (fun _ h => (outcome_proper hread u.explicitEnv_proper h).1) (k, x)).mp hwanted
    have hboth := hpassed v hv
    rw [hpassed w hw] at hboth
    exact (Option.some.inj hboth).symm

end Hygiene

/-- A self-upgrade on FreeBSD out of a sandbox. -/
def capModeUpgrade : ProcessorUpgrade where
  env := { missingBinary with freebsd := true, targetOverridden := false, capMode := ⟨false, none, []⟩ }
  generation := 4
  listenerFd := 3
  sessionsReadFd := 8
  childWriteFd := 9
  selfExe := ⟨5, "/opt/echod", by decide⟩
  dirs := ⟨some 11, none, none⟩
  config := .obj []
  config_fits := .obj 126 [] (by simp)

/-- Left over from the spawn of the worker itself, with what it was started with. -/
def staleEnviron : List CString :=
  [⟨utf8 "PATH=/bin", by decide⟩, ⟨utf8 "FDPASS_READY_FD=77", by decide⟩,
    ⟨utf8 "FDPASS_LOG_FORMAT=json", by decide⟩]

theorem child_env_hygienic_stale :
    Hygienic compact (Iteration.stored _) staleEnviron capModeUpgrade := by
  have hvars : varsOs staleEnviron =
      [("PATH", "/bin"), ("FDPASS_READY_FD", "77"), ("FDPASS_LOG_FORMAT", "json")].map utf8Var := by
    decide
  refine (child_env_hygienic_iff compact _ staleEnviron capModeUpgrade).mpr ⟨?_, ?_⟩
  · rw [← vars_ok_iff]
    exact ⟨_, (vars_eq_ok_iff _ _).mpr hvars⟩
  · intro k v w hv hw _
    rw [hvars] at hv hw
    exact explicit_single (by decide) k v w hv hw

/-- A configuration file whose name is not UTF-8, which `Config::load` takes as it is. -/
def latinEnviron : List CString := [⟨utf8 "FDPASS_CONFIG_PATH=/etc/echo" ++ [255], by decide⟩]

theorem child_env_panics :
    capModeUpgrade.refusal = none ∧
    capModeUpgrade.childEnvp compact (Iteration.stored _) latinEnviron =
      .error (.panic (.unwrap (utf8 "/etc/echo" ++ [255]))) ∧
    ¬ Hygienic compact (Iteration.stored _) latinEnviron capModeUpgrade := by
  have hread : vars latinEnviron = .error (utf8 "/etc/echo" ++ [255]) := by rfl
  have hpanic := capModeUpgrade.commandEnvp_panics compact (Iteration.stored _) latinEnviron _ hread
  refine ⟨by decide, hpanic.2, ?_⟩
  rintro ⟨cmd, fexec, hcmd, -⟩
  rw [hpanic.1] at hcmd
  cases hcmd

end FiveNinesEcho.Upgrade
