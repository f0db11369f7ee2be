import FiveNinesEcho.Supervisor.Listeners
import FiveNinesEcho.Upgrade.ChildEnv

/-!
# What a supervisor inherits (`supervisor/self_upgrade.rs:56-154`, `supervisor.rs:604-631`,
`handoff.rs:571-607`)

A self-upgrade clears the close-on-exec flags of the eleven sockets, writes their numbers into the
environment of a candidate, together with the workers' pids and generations, and waits for its ack.
The environment it starts from is its own, left over from the upgrade before: the scrub takes the
old numbers out. `SelfUpgrade` has the processes and who waits for whom; here are the sockets, and
the bytes of the environment they travel in.
-/

namespace FiveNinesEcho.Supervisor
open Lib Handoff
open Upgrade (Failure Panic Stale Proper outcome stale isFdpass preservedEnv)

/-! ### The command -/

def envSupGeneration : String := "FDPASS_SUP_GENERATION"

/-- The order in which `do_self_upgrade` walks through the sockets. -/
def guardOrder : List Slot :=
  [.admin, .ctrlProcessor, .ctrlPlain, .ctrlTls, .ctrlScanner, .drainer, .spawner, .processor,
    .plain, .tls, .scanner]

def Slot.label : Slot → String
  | .admin => "ctrl-admin"
  | .ctrlProcessor => "ctrl-processor"
  | .ctrlPlain => "ctrl-plain"
  | .ctrlTls => "ctrl-tls"
  | .ctrlScanner => "ctrl-scanner"
  | .drainer => "ctrl-drainer"
  | .spawner => "ctrl-spawner"
  | .processor => "listener-processor"
  | .plain => "listener-plain"
  | .tls => "listener-tls"
  | .scanner => "listener-scanner"

def handoffEnv (ctl : ControlFds) (pids : AdoptedState) (generation : UInt64)
    (childWriteFd : RawFd) : List (String × String) :=
  guardOrder.map (fun slot => (slot.envKey, (ctl slot).text)) ++ pids.toEnv ++
    [(envSupGeneration, toString (generation + 1)), (Upgrade.envReadyFd, childWriteFd.text)]

def selfUpgradeCommand (environ : List CString) (pairs : List (String × String)) :
    Except Failure Command := do
  let cmd ← Upgrade.scrubFdpassEnv environ Command.new
  return pairs.foldl (fun cmd kv => cmd.env (utf8 kv.1) (utf8 kv.2)) cmd

def selfUpgradeEnvp (environ : List CString) (pairs : List (String × String)) :
    Except Failure (List CString) := do
  let cmd ← selfUpgradeCommand environ pairs
  match constructEnvp (Table.walk (byKey _) (cmd.captureEnv environ)) with
  | some envp => return envp
  | none => throw (.err ["spawn self-upgrade child", "nul byte found in provided data"])

/-! ### The supervisor and the attempt -/

structure SupervisorImage (F : Type) extends Listening F where
  pid : Pid
  generation : UInt64

def supGeneration (environ : List CString) : UInt64 :=
  UInt64.ofNat (((envVar environ envSupGeneration).bind (parseUnsigned (2 ^ 64))).getD 0)

/-- The pids and generations `run` adopts, off the process environment. -/
def AdoptedState.ofEnviron (environ : List CString) : AdoptedState where
  pid n := (envVar environ n.pidVar).bind (parseUnsigned (2 ^ 32))
  gen n := ((envVar environ n.genVar).bind (parseUnsigned (2 ^ 64))).getD 0

section Attempt
variable {F : Type}

/-- `run` up to its open sockets. -/
def SupervisorImage.start (env : OpenEnv F) (address : Slot → String) (pid : Pid)
    (environ : List CString) (fds : Descriptors F) : Except Error (SupervisorImage F) := do
  let generation := supGeneration environ
  let l ← openSupervisorListeners env address pid environ (decide (0 < generation)) fds
  return { l with pid := pid, generation := generation }

/-- `signal_ready_to_parent`, up to the write: the pipe it writes to and then closes. -/
def signalReadyToParent (environ : List CString) : Except Error (Option RawFd) :=
  match envVar environ Upgrade.envReadyFd with
  | none => .ok none
  | some s => match RawFd.parse s with
    | none => .error [Upgrade.envReadyFd]
    | some fd => .ok (some fd)

/-- What one attempt meets: the answers to its own calls, and the candidate's. -/
structure AttemptEnv (F : Type) where
  clear : Slot → Fcntl
  currentExe : Option String
  readyPipe : ReadyPipe
  readFd : RawFd
  writeFd : RawFd
  readEnd : F
  writeEnd : F
  spawn : Except String Pid
  opens : OpenEnv F
  startup : Option Error
  ready : Ready
  restore : Slot → Fcntl

/-- The guards of the sockets up to the first that fails, in the order they were made. -/
def clearGuards (env : AttemptEnv F) (ctl : ControlFds) :
    List Slot → Descriptors F → List Slot × Descriptors F × Option Error
  | [], t => ([], t, none)
  | slot :: slots, t => match (env.clear slot).error with
    | some e => ([], t, some (("clear CLOEXEC " ++ slot.label) :: e))
    | none =>
      let (cleared, t', e) := clearGuards env ctl slots (t.flagged (ctl slot) false)
      (slot :: cleared, t', e)

def dropGuards (env : AttemptEnv F) (ctl : ControlFds) (cleared : List Slot) (t : Descriptors F) :
    Descriptors F :=
  cleared.foldl (fun t slot => match env.restore slot with
    | .ok => t.flagged (ctl slot) true
    | _ => t) t

inductive Outcome (F : Type) where
  | panicked (p : Panic)
  | failed (e : Error) (s : SupervisorImage F)
  | rolledBack (s : SupervisorImage F)
  | committed (s : SupervisorImage F)

/-- The candidate up to its ack, if it gets there. -/
def candidate (env : AttemptEnv F) (address : Slot → String) (pid : Pid) (envp : List CString)
    (fds : Descriptors F) : Option (SupervisorImage F) :=
  match SupervisorImage.start env.opens address pid envp fds with
  | .error _ => none
  | .ok c => match env.startup, signalReadyToParent c.environ with
    | none, .ok (some fd) => some { c with fds := c.fds.closed fd }
    | _, _ => none

def doSelfUpgrade (env : AttemptEnv F) (address : Slot → String) (pids : AdoptedState)
    (s : SupervisorImage F) : Outcome F :=
  let (cleared, t, err) := clearGuards env s.ctl guardOrder s.fds
  let back (t : Descriptors F) : SupervisorImage F :=
    { s with fds := dropGuards env s.ctl cleared t }
  match err with
  | some e => .failed e (back t)
  | none => match env.currentExe with
    | some e => .failed ["current_exe", e] (back t)
    | none => match context "ready pipe" (makeReadyPipe env.readyPipe) with
      | some e => .failed e (back t)
      | none =>
        let t := (t.opened env.readFd env.readEnd true).opened env.writeFd env.writeEnd false
        match selfUpgradeEnvp s.environ (handoffEnv s.ctl pids s.generation env.writeFd) with
        | .error (.panic p) => .panicked p
        -- the write end is a bare number here, which nothing closes
        | .error (.err e) => .failed e (back (t.closed env.readFd))
        | .ok envp => match env.spawn with
          | .error e => .failed ["spawn self-upgrade child", e] (back (t.closed env.readFd))
          | .ok pid =>
            match candidate env address pid envp t.inherited, waitForChildReady env.ready with
            | some c, none => .committed c
            | _, _ => .rolledBack (back ((t.closed env.writeFd).closed env.readFd))

/-- The supervisor that goes on after an attempt. -/
def Outcome.survivor : Outcome F → Option (SupervisorImage F)
  | .panicked _ => none
  | .failed _ s | .rolledBack s | .committed s => some s

def Outcome.isCommitted : Outcome F → Bool
  | .committed _ => true
  | _ => false

end Attempt

/-! ### The block of the candidate -/

section Block
variable {environ : List CString} {vs pairs : List (String × String)}

/-- A block read by name: it holds every name once, with the value that the changes came to. -/
theorem envVar_lists {envp : List CString} {value : OsString → Option OsString}
    (h : Lists envp fun var => value var.1 = some var.2)
    (hname : ∀ k v, value k = some v → IsName k) (key : String) :
    envVar envp key = (value (utf8 key)).bind fun b => (intoString b).toOption := by
  have hmem := h.mem_varsOs_iff fun var hv => hname var.1 var.2 hv
  unfold envVar
  cases hfind : (varsOs envp).find? fun var => var.1 == utf8 key with
  | none =>
    have hnone : value (utf8 key) = none := by
      by_contra hne
      obtain ⟨b, hb⟩ := Option.ne_none_iff_exists'.mp hne
      have hin := (hmem (utf8 key, b)).mpr hb
      have hnot := List.find?_eq_none.mp hfind _ hin
      simp at hnot
    rw [hnone]
    rfl
  | some var =>
    have hkey : var.1 = utf8 key := by simpa using List.find?_some hfind
    have hval := (hmem var).mp (List.mem_of_find?_eq_some hfind)
    rw [hkey] at hval
    rw [hval]
    rfl

theorem selfUpgradeEnvp_lists (hvs : vars environ = .ok vs) (hproper : Proper pairs) :
    ∃ envp, selfUpgradeEnvp environ pairs = .ok envp ∧
      Lists envp fun var => outcome vs pairs var.1 = some var.2 := by
  have hcmd : selfUpgradeCommand environ pairs = .ok (Command.new.changed
      (((stale vs).map utf8).map unset ++ (pairs.map utf8Var).map setTo)) := by
    simp only [selfUpgradeCommand, Upgrade.scrubFdpassEnv, Upgrade.fdpassEnvToRemove_ok hvs,
      Command.changed, List.foldl_append, List.foldl_map]
    rfl
  generalize hc : Command.new.changed _ = cmd at hcmd
  have hmem : ∀ var, var ∈ Table.walk (byKey _) (cmd.captureEnv environ) ↔
      outcome vs pairs var.1 = some var.2 := by
    intro var
    rw [← hc, Table.mem_walk, Command.lookup_captureEnv, (vars_eq_ok_iff environ vs).mp hvs,
      ← List.append_assoc]
    rfl
  obtain ⟨envp, henvp, hbytes⟩ := constructEnvp_spec _ fun var hvar =>
    (Upgrade.outcome_proper hvs hproper ((hmem var).mp hvar)).2
  refine ⟨envp, ?_, _, hbytes, Table.nodup_walk _ _, hmem⟩
  simp only [selfUpgradeEnvp, hcmd, henvp, bind, Except.bind, pure, Except.pure]

/-- A stale name has the value it was given for the attempt, and none if it was given none: what an
earlier generation left under it is gone. -/
theorem outcome_stale (hvs : vars environ = .ok vs) (hproper : Proper pairs) {key : String}
    (hst : Stale (utf8 key)) : outcome vs pairs (utf8 key) = (pairs.lookup key).map utf8 := by
  have hlast : Table.latest (utf8 key) (pairs.map utf8Var) = (pairs.lookup key).map utf8 := by
    cases hlook : pairs.lookup key with
    | none =>
      rw [Option.map_none, Table.latest_eq_none_iff]
      intro c hc
      obtain ⟨kv, hkv, heq⟩ := List.mem_map.mp hc
      obtain ⟨hk, -⟩ := Prod.mk.inj heq
      have hno := List.lookup_eq_none_iff.mp hlook kv hkv
      simp [utf8_injective hk] at hno
    | some v =>
      rw [Option.map_some, Table.latest_eq_some_iff (Upgrade.explicit_single hproper.names _)]
      obtain ⟨l₁, l₂, rfl, -⟩ := List.lookup_eq_some_iff.mp hlook
      exact List.mem_map.mpr ⟨(key, v), by simp, rfl⟩
  simp only [outcome, Table.latest_append, latest_setTo, latest_unset, hlast]
  cases pairs.lookup key with
  | some v => rfl
  | none =>
    by_cases hk : utf8 key ∈ (stale vs).map utf8
    · rw [if_pos hk]
      rfl
    · have habsent : Table.latest (utf8 key) (vs.map utf8Var) = none := by
        rw [Table.latest_eq_none_iff, ← (vars_eq_ok_iff environ vs).mp hvs]
        intro c hc
        exact hk ((Upgrade.mem_stale_iff hvs (utf8 key)).mpr ⟨hst, c, hc⟩)
      rw [if_neg hk, habsent]
      rfl

end Block

/-! ### The pairs of a handoff -/

def handoffNames : List String :=
  guardOrder.map Slot.envKey ++ allRoles.flatMap (fun n => [n.pidVar, n.genVar]) ++
    [envSupGeneration, Upgrade.envReadyFd]

theorem handoffNames_nodup : handoffNames.Nodup := by decide +kernel

theorem handoffNames_proper :
    ∀ k ∈ handoffNames, Stale (utf8 k) ∧ IsName (utf8 k) ∧ 0 ∉ utf8 k := by
  unfold Stale IsName
  decide +kernel

theorem guardOrder_all (slot : Slot) : slot ∈ guardOrder := by
  cases slot <;> decide

section Pairs
variable (ctl : ControlFds) (pids : AdoptedState) (generation : UInt64) (childWriteFd : RawFd)

theorem AdoptedState.vars_names (roles : List RoleName) :
    ((pids.vars roles).map Prod.fst).Sublist (roles.flatMap fun n => [n.pidVar, n.genVar]) := by
  induction roles with
  | nil => exact List.Sublist.refl _
  | cons n roles ih =>
    cases hp : pids.pid n with
    | none =>
      rw [pids.vars_none n roles hp, List.flatMap_cons]
      exact ih.trans (List.sublist_append_right _ _)
    | some p =>
      have hcons : pids.vars (n :: roles) =
          [(n.pidVar, p.repr), (n.genVar, (pids.gen n).repr)] ++ pids.vars roles := by
        simp [AdoptedState.vars, hp]
      rw [hcons, List.map_append, List.flatMap_cons]
      exact (List.Sublist.refl _).append ih

theorem handoffEnv_names :
    ((handoffEnv ctl pids generation childWriteFd).map Prod.fst).Sublist handoffNames := by
  simp only [handoffEnv, List.map_append, List.map_map, handoffNames]
  exact ((List.Sublist.refl _).append (pids.vars_names allRoles)).append (List.Sublist.refl _)

theorem AdoptedState.toEnv_noNul (kv : String × String) (h : kv ∈ pids.toEnv) : 0 ∉ utf8 kv.2 := by
  simp only [AdoptedState.toEnv, AdoptedState.vars, List.mem_flatMap] at h
  obtain ⟨n, -, hkv⟩ := h
  split at hkv
  · simp only [List.mem_cons, List.not_mem_nil, or_false] at hkv
    rcases hkv with rfl | rfl <;> exact toString_noNul _
  · cases hkv

theorem handoffEnv_proper : Proper (handoffEnv ctl pids generation childWriteFd) := by
  have hsub := handoffEnv_names ctl pids generation childWriteFd
  have hname : ∀ kv ∈ handoffEnv ctl pids generation childWriteFd, kv.1 ∈ handoffNames :=
    fun kv hkv => hsub.subset (List.mem_map_of_mem hkv)
  refine ⟨hsub.nodup handoffNames_nodup, ?_, ?_, ?_⟩
  · exact fun kv hkv => (handoffNames_proper kv.1 (hname kv hkv)).1
  · exact fun kv hkv => (handoffNames_proper kv.1 (hname kv hkv)).2.1
  · intro kv hkv
    refine ⟨(handoffNames_proper kv.1 (hname kv hkv)).2.2, ?_⟩
    simp only [handoffEnv, List.mem_append, List.mem_map, List.mem_cons, List.not_mem_nil,
      or_false] at hkv
    rcases hkv with (⟨slot, -, rfl⟩ | hkv) | rfl | rfl
    · exact RawFd.text_noNul _
    · exact pids.toEnv_noNul kv hkv
    · exact toString_noNul (generation + 1).toNat
    · exact RawFd.text_noNul _

theorem handoffEnv_slot (slot : Slot) :
    (handoffEnv ctl pids generation childWriteFd).lookup slot.envKey = some (ctl slot).text := by
  have hslots : ∀ slots : List Slot, slot ∈ slots →
      (slots.map fun slot => (slot.envKey, (ctl slot).text)).lookup slot.envKey =
        some (ctl slot).text := by
    intro slots
    induction slots with
    | nil => simp
    | cons a slots ih =>
      intro hmem
      by_cases ha : slot = a
      · simp [ha]
      · have hne : (slot.envKey == a.envKey) = false :=
          beq_eq_false_iff_ne.mpr fun h => ha (Slot.envKey_injective h)
        rw [List.map_cons, List.lookup_cons, hne]
        exact ih (List.mem_of_ne_of_mem ha hmem)
  rw [handoffEnv, List.append_assoc, List.lookup_append, hslots guardOrder (guardOrder_all slot)]
  rfl

/-- The names that are not a socket's are looked for behind the sockets. -/
theorem handoffEnv_other {key : String} (h : ∀ slot : Slot, slot.envKey ≠ key) :
    (handoffEnv ctl pids generation childWriteFd).lookup key =
      (pids.toEnv.lookup key).or ([(envSupGeneration, toString (generation + 1)),
        (Upgrade.envReadyFd, childWriteFd.text)].lookup key) := by
  have hnone : (guardOrder.map fun slot => (slot.envKey, (ctl slot).text)).lookup key = none := by
    rw [List.lookup_eq_none_iff]
    intro kv hkv
    obtain ⟨slot, -, rfl⟩ := List.mem_map.mp hkv
    exact bne_iff_ne.mpr (h slot).symm
  rw [handoffEnv, List.append_assoc, List.lookup_append, hnone, List.lookup_append]
  rfl

theorem AdoptedState.toEnv_none {key : String}
    (h : key ∉ allRoles.flatMap fun n => [n.pidVar, n.genVar]) : pids.toEnv.lookup key = none := by
  rw [List.lookup_eq_none_iff]
  intro kv hkv
  refine bne_iff_ne.mpr ?_
  rintro rfl
  exact h ((pids.vars_names allRoles).subset (List.mem_map_of_mem hkv))

theorem handoffEnv_generation :
    (handoffEnv ctl pids generation childWriteFd).lookup envSupGeneration =
      some (toString (generation + 1)) := by
  rw [handoffEnv_other _ _ _ _ (by intro slot; cases slot <;> decide),
    pids.toEnv_none (by decide)]
  rfl

theorem handoffEnv_ready :
    (handoffEnv ctl pids generation childWriteFd).lookup Upgrade.envReadyFd =
      some childWriteFd.text := by
  rw [handoffEnv_other _ _ _ _ (by intro slot; cases slot <;> decide),
    pids.toEnv_none (by decide)]
  rfl

theorem handoffEnv_role (n : RoleName) :
    (handoffEnv ctl pids generation childWriteFd).lookup n.pidVar = pids.toEnv.lookup n.pidVar ∧
    (handoffEnv ctl pids generation childWriteFd).lookup n.genVar = pids.toEnv.lookup n.genVar := by
  constructor
  · rw [handoffEnv_other _ _ _ _ (by intro slot; cases slot <;> cases n <;> decide)]
    cases n <;> exact Option.or_none
  · rw [handoffEnv_other _ _ _ _ (by intro slot; cases slot <;> cases n <;> decide)]
    cases n <;> exact Option.or_none

end Pairs

/-! ### What the candidate reads -/

section Candidate
variable {environ envp : List CString} {vs pairs : List (String × String)}

theorem envVar_candidate (hvs : vars environ = .ok vs) (hproper : Proper pairs)
    (h : selfUpgradeEnvp environ pairs = .ok envp) (key : String) :
    envVar envp key = (outcome vs pairs (utf8 key)).bind fun b => (intoString b).toOption := by
  obtain ⟨envp', h', hlists⟩ := selfUpgradeEnvp_lists hvs hproper
  cases h.symm.trans h'
  exact envVar_lists hlists (fun k v hv => (Upgrade.outcome_proper hvs hproper hv).1) key

theorem envVar_candidate_stale (hvs : vars environ = .ok vs) (hproper : Proper pairs)
    (h : selfUpgradeEnvp environ pairs = .ok envp) {key : String} (hst : Stale (utf8 key)) :
    envVar envp key = pairs.lookup key := by
  rw [envVar_candidate hvs hproper h, outcome_stale hvs hproper hst]
  cases pairs.lookup key with
  | none => rfl
  | some v =>
    have hv : intoString (utf8 v) = .ok v := (intoString_eq_ok_iff _ v).mpr rfl
    simp only [Option.map_some, Option.bind_some, hv]
    rfl

/-- Any other variable it has, the old supervisor had. -/
theorem envVar_candidate_ambient (hvs : vars environ = .ok vs) (hproper : Proper pairs)
    (h : selfUpgradeEnvp environ pairs = .ok envp) {key v : String} (hst : ¬ Stale (utf8 key))
    (hv : envVar envp key = some v) : (utf8 key, utf8 v) ∈ varsOs environ := by
  rw [envVar_candidate hvs hproper h, Option.bind_eq_some_iff] at hv
  obtain ⟨b, hb, hs⟩ := hv
  have hb' : b = utf8 v := by
    rw [← intoString_eq_ok_iff]
    cases hi : intoString b with
    | error e => simp [hi, Except.toOption] at hs
    | ok w => simpa [hi, Except.toOption] using hs
  have hmem := Table.mem_of_latest (Option.join_eq_some_iff.mp hb)
  rw [← (vars_eq_ok_iff environ vs).mp hvs] at hmem
  simp only [List.mem_append, List.mem_map] at hmem
  rcases hmem with (⟨var, hvar, heq⟩ | ⟨k', -, heq⟩) | ⟨var, ⟨kv, hkv, rfl⟩, heq⟩
  · obtain ⟨hkey, hval⟩ := Prod.mk.inj heq
    rw [← hb', ← hkey, ← Option.some.inj hval]
    exact hvar
  · cases (Prod.mk.inj heq).2
  · obtain ⟨hkey, -⟩ := Prod.mk.inj heq
    rw [← hkey] at hst
    exact absurd (hproper.stale kv hkv) hst

theorem selfUpgradeEnvp_unicode (hvs : vars environ = .ok vs) (hproper : Proper pairs)
    (h : selfUpgradeEnvp environ pairs = .ok envp) : ∃ ws, vars envp = .ok ws := by
  rw [vars_ok_iff]
  obtain ⟨envp', h', hlists⟩ := selfUpgradeEnvp_lists hvs hproper
  cases h.symm.trans h'
  intro var hvar
  have hval := (hlists.mem_varsOs_iff (fun var hv =>
    (Upgrade.outcome_proper hvs hproper hv).1) var).mp hvar
  have hmem := Table.mem_of_latest (Option.join_eq_some_iff.mp hval)
  simp only [List.mem_append, List.mem_map] at hmem
  rcases hmem with (⟨w, ⟨kv, -, rfl⟩, heq⟩ | ⟨k', -, heq⟩) | ⟨w, ⟨kv, -, rfl⟩, heq⟩
  · obtain ⟨hk, hv⟩ := Prod.mk.inj heq
    exact ⟨⟨kv.1, hk.symm⟩, ⟨kv.2, (Option.some.inj hv).symm⟩⟩
  · cases heq
  · obtain ⟨hk, hv⟩ := Prod.mk.inj heq
    exact ⟨⟨kv.1, hk.symm⟩, ⟨kv.2, (Option.some.inj hv).symm⟩⟩

section Handoff
variable {ctl : ControlFds} {pids : AdoptedState} {generation : UInt64} {fd : RawFd}
  (hvs : vars environ = .ok vs)
  (henvp : selfUpgradeEnvp environ (handoffEnv ctl pids generation fd) = .ok envp)
include hvs henvp

theorem envVar_handoff {key : String} (hkey : key ∈ handoffNames) :
    envVar envp key = (handoffEnv ctl pids generation fd).lookup key :=
  envVar_candidate_stale hvs (handoffEnv_proper ctl pids generation fd) henvp
    (handoffNames_proper key hkey).1

theorem envVar_slot (slot : Slot) : envVar envp slot.envKey = some (ctl slot).text := by
  rw [envVar_handoff hvs henvp (by cases slot <;> decide), handoffEnv_slot]

theorem signalReadyToParent_handoff : signalReadyToParent envp = .ok (some fd) := by
  have hname : Upgrade.envReadyFd ∈ handoffNames := by decide
  simp only [signalReadyToParent, envVar_handoff hvs henvp hname, handoffEnv_ready,
    RawFd.parse_text]

theorem supGeneration_handoff : supGeneration envp = generation + 1 := by
  have hgen := envVar_handoff hvs henvp (show envSupGeneration ∈ handoffNames by decide)
  rw [handoffEnv_generation] at hgen
  have hparse : parseUnsigned (2 ^ 64) (toString (generation + 1)) =
      some (generation + 1).toNat := by
    have hrepr := parseUnsigned_repr (2 ^ 64) (generation + 1).toNat
    rw [if_pos (generation + 1).toNat_lt] at hrepr
    exact hrepr
  simp only [supGeneration, hgen, Option.bind_some, hparse, Option.getD_some, UInt64.ofNat_toNat]

/-- The workers a candidate adopts are those its parent wrote down. -/
theorem ofEnviron_handoff (n : RoleName) :
    (AdoptedState.ofEnviron envp).pid n = (AdoptedState.ofEnv pids.toEnv).pid n ∧
      (AdoptedState.ofEnviron envp).gen n = (AdoptedState.ofEnv pids.toEnv).gen n := by
  obtain ⟨hp, hg⟩ := handoffEnv_role ctl pids generation fd n
  have hnames : n.pidVar ∈ handoffNames ∧ n.genVar ∈ handoffNames := by
    cases n <;> decide
  simp only [AdoptedState.ofEnviron, AdoptedState.ofEnv, envPid, envGeneration]
  rw [envVar_handoff hvs henvp hnames.1, envVar_handoff hvs henvp hnames.2, hp, hg]
  exact ⟨rfl, rfl⟩

end Handoff

end Candidate

theorem SdListeners.fromEnv_other_pid {pid : Pid} {environ environ' : List CString}
    {sd : SdListeners}
    (hpid : ∀ s, envVar environ "LISTEN_PID" = some s → parseUnsigned (2 ^ 32) s ≠ some pid)
    (h : SdListeners.fromEnv pid environ = .ok (sd, environ')) :
    sd = SdListeners.empty ∧ environ' = environ := by
  unfold SdListeners.fromEnv at h
  split at h
  · cases h
    exact ⟨rfl, rfl⟩
  · next s hs =>
    split at h
    · cases h
    · next p hp =>
      have hne : p ≠ pid := by
        rintro rfl
        exact hpid s hs hp
      rw [if_pos hne] at h
      cases h
      exact ⟨rfl, rfl⟩

/-- With every socket named in the environment nothing is opened and nothing removed. -/
theorem openSlots_adopts {F : Type} {env : OpenEnv F} {address : Slot → String}
    {environ : List CString} {isUpgrade : Bool} {slots : List Slot} {ctl ctl' : ControlFds}
    {o o' : Opening F} (hsd : o.sd.inner = [])
    (hvars : ∀ slot : Slot, envVar environ slot.envKey ≠ none)
    (h : openSlots env address environ isUpgrade slots ctl o = .ok (ctl', o')) : o' = o := by
  induction slots generalizing ctl o with
  | nil =>
    cases h
    rfl
  | cons a slots ih =>
    obtain ⟨fd, o₁, htook, hrest⟩ := openSlots_cons h
    cases htook with
    | systemd e he hfd hsd' hfds hun =>
      rw [hsd] at he
      cases he
    | environment s hnone hvar hfd ho =>
      rw [ho] at hrest
      exact ih hsd hrest
    | bound f hnone hvar hbind hsd' hfds => exact absurd hvar (hvars a)

/-! ### The guards -/

/-- With nothing left of socket activation, the number of a socket is the one its variable names. -/
theorem openSlots_handed {F : Type} {env : OpenEnv F} {address : Slot → String}
    {environ : List CString} {isUpgrade : Bool} {ctl ctl' handed : ControlFds} {o o' : Opening F}
    (hsd : o.sd.inner = []) (hvars : ∀ slot, envVar environ slot.envKey = some (handed slot).text)
    (h : openSlots env address environ isUpgrade openOrder ctl o = .ok (ctl', o')) :
    ctl' = handed := by
  funext slot
  rcases openSlots_ctl openOrder_nodup h (openOrder_all slot) with
    ⟨e, he, -⟩ | ⟨-, ⟨v, hv, hp⟩ | ⟨hv, -⟩⟩
  · rw [hsd] at he
    cases he
  · rw [hvars slot] at hv
    cases hv
    rw [RawFd.parse_text] at hp
    exact (Option.some.inj hp).symm
  · rw [hvars slot] at hv
    cases hv

section Guards
variable {F : Type} {env : AttemptEnv F} {ctl : ControlFds}

theorem clearGuards_file (slots : List Slot) (t : Descriptors F) :
    (clearGuards env ctl slots t).2.1.file = t.file := by
  induction slots generalizing t with
  | nil => rfl
  | cons a slots ih =>
    unfold clearGuards
    split
    · rfl
    · exact ih _

theorem clearGuards_flag {slots : List Slot} {t : Descriptors F} {fd : RawFd}
    (h : t.cloexec fd = false) : (clearGuards env ctl slots t).2.1.cloexec fd = false := by
  induction slots generalizing t with
  | nil => exact h
  | cons a slots ih =>
    unfold clearGuards
    split
    · exact h
    · refine ih ?_
      by_cases hfd : fd = ctl a
      · rw [hfd, Descriptors.cloexec_flagged_self]
      · rw [Descriptors.cloexec_flagged_of_ne _ _ hfd, h]

theorem clearGuards_cleared {slots : List Slot} {t : Descriptors F}
    (h : (clearGuards env ctl slots t).2.2 = none) {slot : Slot} (hslot : slot ∈ slots) :
    (clearGuards env ctl slots t).2.1.cloexec (ctl slot) = false := by
  induction slots generalizing t with
  | nil => cases hslot
  | cons a slots ih =>
    unfold clearGuards at h ⊢
    split at h
    · cases h
    · rcases List.mem_cons.mp hslot with rfl | hmem
      · exact clearGuards_flag (Descriptors.cloexec_flagged_self _ _ _)
      · exact ih h hmem

theorem dropGuards_file (cleared : List Slot) (t : Descriptors F) :
    (dropGuards env ctl cleared t).file = t.file := by
  unfold dropGuards
  induction cleared generalizing t with
  | nil => rfl
  | cons a cleared ih =>
    rw [List.foldl_cons, ih]
    cases env.restore a <;> rfl

end Guards

/-! ### One attempt -/

section Step
variable {F : Type} {env : AttemptEnv F} {address : Slot → String} {pids : AdoptedState}
  {s : SupervisorImage F}

/-- The two ends of the ready pipe. -/
def AttemptEnv.pipe (env : AttemptEnv F) : List RawFd := [env.readFd, env.writeFd]

/-- The table the candidate is spawned with, if it is. -/
def spawnFds (env : AttemptEnv F) (s : SupervisorImage F) : Descriptors F :=
  let t := (clearGuards env s.ctl guardOrder s.fds).2.1
  (t.opened env.readFd env.readEnd true).opened env.writeFd env.writeEnd false

theorem spawnFds_file {fd : RawFd} (h : fd ∉ env.pipe) :
    (spawnFds env s).file fd = s.fds.file fd := by
  simp only [AttemptEnv.pipe, List.mem_cons, List.not_mem_nil, or_false, not_or] at h
  rw [spawnFds, Descriptors.file_opened_of_ne _ _ _ h.2, Descriptors.file_opened_of_ne _ _ _ h.1,
    clearGuards_file]

/-- All that an attempt can come to: the old supervisor goes on with every other descriptor as it
was, the candidate takes over, or the scrub met a variable that is no text. -/
theorem doSelfUpgrade_cases (env : AttemptEnv F) (address : Slot → String) (pids : AdoptedState)
    (s : SupervisorImage F) :
    (∃ t : Descriptors F, (∀ fd ∉ env.pipe, t.file fd = s.fds.file fd) ∧
      ((∃ e, doSelfUpgrade env address pids s = .failed e { s with fds := t }) ∨
        doSelfUpgrade env address pids s = .rolledBack { s with fds := t })) ∨
    (∃ envp pid c, (clearGuards env s.ctl guardOrder s.fds).2.2 = none ∧
      selfUpgradeEnvp s.environ (handoffEnv s.ctl pids s.generation env.writeFd) = .ok envp ∧
      env.spawn = .ok pid ∧ candidate env address pid envp (spawnFds env s).inherited = some c ∧
      doSelfUpgrade env address pids s = .committed c) ∨
    ∃ p, selfUpgradeEnvp s.environ (handoffEnv s.ctl pids s.generation env.writeFd) =
      .error (.panic p) ∧ doSelfUpgrade env address pids s = .panicked p := by
  have hback : ∀ t : Descriptors F, (∀ fd ∉ env.pipe, t.file fd = s.fds.file fd) → ∀ fd ∉ env.pipe,
      (dropGuards env s.ctl (clearGuards env s.ctl guardOrder s.fds).1 t).file fd =
        s.fds.file fd := by
    intro t ht fd hfd
    rw [dropGuards_file, ht fd hfd]
  have hcleared : ∀ fd ∉ env.pipe,
      (clearGuards env s.ctl guardOrder s.fds).2.1.file fd = s.fds.file fd := by
    intro fd _
    rw [clearGuards_file]
  have hopened : ∀ fd ∉ env.pipe, (spawnFds env s).file fd = s.fds.file fd := fun fd hfd =>
    spawnFds_file hfd
  have hclosed : ∀ t : Descriptors F, (∀ fd ∉ env.pipe, t.file fd = s.fds.file fd) →
      ∀ x ∈ env.pipe, ∀ fd ∉ env.pipe, (t.closed x).file fd = s.fds.file fd := by
    intro t ht x hx fd hfd
    have hne : fd ≠ x := by
      rintro rfl
      exact hfd hx
    rw [Descriptors.file_closed_of_ne _ hne, ht fd hfd]
  have hread : env.readFd ∈ env.pipe := by simp [AttemptEnv.pipe]
  have hwrite : env.writeFd ∈ env.pipe := by simp [AttemptEnv.pipe]
  unfold doSelfUpgrade
  simp only
  split
  · next e _ => exact Or.inl ⟨_, hback _ hcleared, Or.inl ⟨e, rfl⟩⟩
  · next herr =>
    split
    · exact Or.inl ⟨_, hback _ hcleared, Or.inl ⟨_, rfl⟩⟩
    · split
      · exact Or.inl ⟨_, hback _ hcleared, Or.inl ⟨_, rfl⟩⟩
      · split
        · next p hp => exact Or.inr (Or.inr ⟨p, hp, rfl⟩)
        · exact Or.inl ⟨_, hback _ (hclosed _ hopened _ hread), Or.inl ⟨_, rfl⟩⟩
        · next envp henvp =>
          split
          · exact Or.inl ⟨_, hback _ (hclosed _ hopened _ hread), Or.inl ⟨_, rfl⟩⟩
          · next pid hpid =>
            split
            · next c hc _ => exact Or.inr (Or.inl ⟨envp, pid, c, herr, henvp, hpid, hc, rfl⟩)
            · exact Or.inl ⟨_, hback _ (hclosed _ (hclosed _ hopened _ hwrite) _ hread), Or.inr rfl⟩

/-- What the operating system promises of an attempt: the ends of a new pipe have numbers that were
free, and the candidate is not the process that systemd activated. -/
structure AttemptEnv.Sane (env : AttemptEnv F) (s : SupervisorImage F) : Prop where
  pipe : ∀ fd ∈ env.pipe, s.fds.file fd = none
  pid : ∀ pid v, env.spawn = .ok pid → (utf8 "LISTEN_PID", utf8 v) ∈ varsOs s.environ →
    parseUnsigned (2 ^ 32) v ≠ some pid

/-- The sockets of a supervisor are these open files under these numbers. -/
structure SupervisorImage.Holds (ctl : ControlFds) (files : Slot → Option F)
    (s : SupervisorImage F) : Prop where
  numbers : s.ctl = ctl
  file : ∀ slot f, files slot = some f → s.fds.file (ctl slot) = some f
  unicode : ∃ vs, vars s.environ = .ok vs

/-- A socket of the old supervisor is open in the candidate under its number, the ready pipe's
write end closed or not. -/
theorem spawnFds_inherited (hsane : env.Sane s)
    (hclear : (clearGuards env s.ctl guardOrder s.fds).2.2 = none) {slot : Slot} {f : F}
    (hf : s.fds.file (s.ctl slot) = some f) :
    (((spawnFds env s).inherited).closed env.writeFd).file (s.ctl slot) = some f := by
  have hfree : s.ctl slot ∉ env.pipe := by
    intro hmem
    rw [hsane.pipe _ hmem] at hf
    cases hf
  have hflag : (spawnFds env s).cloexec (s.ctl slot) = false := by
    simp only [AttemptEnv.pipe, List.mem_cons, List.not_mem_nil, or_false, not_or] at hfree
    have hcleared := clearGuards_cleared hclear (guardOrder_all slot)
    simp only [spawnFds, Descriptors.opened, Function.update_of_ne hfree.2,
      Function.update_of_ne hfree.1, hcleared]
  have hne : s.ctl slot ≠ env.writeFd := by
    rintro he
    exact hfree (by simp [AttemptEnv.pipe, he])
  rw [Descriptors.file_closed_of_ne _ hne, Descriptors.file_inherited _ hflag, spawnFds_file hfree,
    hf]

/-- A candidate that acked has read back everything it was told: the sockets under their numbers,
the generation, the workers; and has opened and removed nothing. -/
theorem candidate_reads {envp : List CString} {pid : Pid} {c : SupervisorImage F}
    (hsane : env.Sane s) (hunicode : ∃ vs, vars s.environ = .ok vs)
    (hclear : (clearGuards env s.ctl guardOrder s.fds).2.2 = none)
    (henvp : selfUpgradeEnvp s.environ (handoffEnv s.ctl pids s.generation env.writeFd) = .ok envp)
    (hspawn : env.spawn = .ok pid)
    (hc : candidate env address pid envp (spawnFds env s).inherited = some c) :
    c.ctl = s.ctl ∧ c.environ = envp ∧ c.unlinked = [] ∧ c.generation = s.generation + 1 ∧
    c.fds = ((spawnFds env s).inherited).closed env.writeFd ∧
    (∀ slot f, s.fds.file (s.ctl slot) = some f → c.fds.file (s.ctl slot) = some f) ∧
    (∀ n, (AdoptedState.ofEnviron c.environ).pid n = (AdoptedState.ofEnv pids.toEnv).pid n ∧
      (AdoptedState.ofEnviron c.environ).gen n = (AdoptedState.ofEnv pids.toEnv).gen n) := by
  obtain ⟨vs, hvs⟩ := hunicode
  have hproper := handoffEnv_proper s.ctl pids s.generation env.writeFd
  have hslot := envVar_slot hvs henvp
  unfold candidate SupervisorImage.start at hc
  cases hl : openSupervisorListeners env.opens address pid envp
      (decide (0 < supGeneration envp)) (spawnFds env s).inherited with
  | error e => simp [hl, bind, Except.bind] at hc
  | ok l =>
    obtain ⟨sd, ctl₀, o, hsd, hopen, hfds, hun⟩ := openSupervisorListeners_ok hl
    -- nothing is left of socket activation
    obtain ⟨rfl, hsame⟩ := SdListeners.fromEnv_other_pid (by
      intro v hv
      refine hsane.pid pid v hspawn (envVar_candidate_ambient hvs hproper henvp ?_ hv)
      unfold Stale
      decide) hsd
    rw [hsame] at hopen
    have ho := openSlots_adopts rfl (fun slot => by rw [hslot slot]; simp) hopen
    have hctl : l.ctl = s.ctl := openSlots_handed rfl hslot hopen
    have hready : signalReadyToParent l.environ = .ok (some env.writeFd) := by
      rw [hsame]
      exact signalReadyToParent_handoff hvs henvp
    simp only [hl, bind, Except.bind, pure, Except.pure, hready] at hc
    cases hstart : env.startup with
    | some e => simp [hstart] at hc
    | none =>
      simp only [hstart, Option.some.injEq] at hc
      subst hc
      have htable : l.fds = (spawnFds env s).inherited := by
        rw [hfds, ho]
        rfl
      refine ⟨hctl, hsame, by rw [hun, ho], supGeneration_handoff hvs henvp, by rw [htable],
        fun slot f hf => ?_, fun n => ?_⟩
      · rw [htable]
        exact spawnFds_inherited hsane hclear hf
      · rw [hsame]
        exact ofEnviron_handoff hvs henvp n

/-- One attempt. `address` is where the sockets are bound. -/
def SupervisorImage.step (address : Slot → String) (s : SupervisorImage F)
    (a : AdoptedState × AttemptEnv F) : Option (SupervisorImage F) :=
  (doSelfUpgrade a.2 address a.1 s).survivor

def SupervisorImage.commits (address : Slot → String) (s : SupervisorImage F)
    (a : AdoptedState × AttemptEnv F) : Bool :=
  (doSelfUpgrade a.2 address a.1 s).isCommitted

theorem SupervisorImage.step_holds (address : Slot → String) {ctl : ControlFds}
    {files : Slot → Option F} (a : AdoptedState × AttemptEnv F) (hs : s.Holds ctl files)
    (hsane : a.2.Sane s) :
    ∃ s', s.step address a = some s' ∧ s'.Holds ctl files ∧
      ((s.commits address a = true ∧ s'.generation = s.generation + 1 ∧ s'.unlinked = []) ∨
        (s.commits address a = false ∧ s'.generation = s.generation ∧
          s'.unlinked = s.unlinked)) := by
  obtain ⟨pids, env⟩ := a
  obtain ⟨hnum, hfile, hunicode⟩ := hs
  have hproper := handoffEnv_proper s.ctl pids s.generation env.writeFd
  rcases doSelfUpgrade_cases env address pids s with
    ⟨t, ht, hout⟩ | ⟨envp, pid, c, hclear, henvp, hspawn, hc, hout⟩ | ⟨p, hp, -⟩
  · have hkept : SupervisorImage.Holds ctl files { s with fds := t } := by
      refine ⟨hnum, fun slot f hf => ?_, hunicode⟩
      have hopen := hfile slot f hf
      have hfree : ctl slot ∉ env.pipe := by
        intro hmem
        rw [hsane.pipe _ hmem] at hopen
        cases hopen
      exact (ht _ hfree).trans hopen
    rcases hout with ⟨e, hout⟩ | hout
    · refine ⟨_, ?_, hkept, Or.inr ⟨?_, rfl, rfl⟩⟩
      · simp only [SupervisorImage.step, hout, Outcome.survivor]
      · simp only [SupervisorImage.commits, hout, Outcome.isCommitted]
    · refine ⟨_, ?_, hkept, Or.inr ⟨?_, rfl, rfl⟩⟩
      · simp only [SupervisorImage.step, hout, Outcome.survivor]
      · simp only [SupervisorImage.commits, hout, Outcome.isCommitted]
  · obtain ⟨hctl, henviron, hun, hgen, -, hfiles, -⟩ :=
      candidate_reads hsane hunicode hclear henvp hspawn hc
    obtain ⟨vs, hvs⟩ := hunicode
    refine ⟨c, ?_, ⟨hctl.trans hnum, fun slot f hf => ?_, ?_⟩, Or.inl ⟨?_, hgen, hun⟩⟩
    · simp only [SupervisorImage.step, hout, Outcome.survivor]
    · rw [← hnum]
      exact hfiles slot f (by rw [hnum]; exact hfile slot f hf)
    · rw [henviron]
      exact selfUpgradeEnvp_unicode hvs hproper henvp
    · simp only [SupervisorImage.commits, hout, Outcome.isCommitted]
  · -- an environment that is text does not panic
    obtain ⟨vs, hvs⟩ := hunicode
    obtain ⟨envp, henvp, -⟩ := selfUpgradeEnvp_lists hvs hproper
    rw [henvp] at hp
    cases hp

theorem SupervisorImage.exec_holds (address : Slot → String) (ctl : ControlFds)
    (files : Slot → Option F) (s : SupervisorImage F) (as : List (AdoptedState × AttemptEnv F))
    (hs : s.Holds ctl files)
    (hsane : Along (SupervisorImage.step address) (fun s a => a.2.Sane s) s as) :
    ∃ s', exec (SupervisorImage.step address) s as = some s' ∧ s'.Holds ctl files ∧
      s'.generation = s.generation +
        UInt64.ofNat (tally (SupervisorImage.step address) (SupervisorImage.commits address) s as) ∧
      (0 < tally (SupervisorImage.step address) (SupervisorImage.commits address) s as →
        s'.unlinked = []) ∧
      (tally (SupervisorImage.step address) (SupervisorImage.commits address) s as = 0 →
        s'.unlinked = s.unlinked) := by
  induction as generalizing s with
  | nil => exact ⟨s, rfl, hs, by simp [tally], by simp [tally], fun _ => rfl⟩
  | cons a as ih =>
    obtain ⟨s₁, hstep, hs₁, hout⟩ := SupervisorImage.step_holds address a hs hsane.1
    obtain ⟨s', hexec, hs', hgen, hpos, hzero⟩ := ih s₁ hs₁ (hsane.2 s₁ hstep)
    refine ⟨s', by rw [exec_cons s s₁ a as hstep]; exact hexec, hs', ?_⟩
    simp only [tally, hstep]
    rcases hout with ⟨hcom, hg, hun⟩ | ⟨hcom, hg, hun⟩
    · simp only [hcom, Bool.toNat_true]
      refine ⟨?_, fun _ => ?_, fun h => by omega⟩
      · rw [hgen, hg, UInt64.ofNat_add, UInt64.add_assoc]
        rfl
      · rcases Nat.eq_zero_or_pos (tally (SupervisorImage.step address)
          (SupervisorImage.commits address) s₁ as) with h | h
        · rw [hzero h, hun]
        · exact hpos h
    · simp only [hcom, Bool.toNat_false, Nat.zero_add]
      exact ⟨by rw [hgen, hg], hpos, fun h => by rw [hzero h, hun]⟩

/-- The listening sockets outlive every supervisor. Start from any supervisor whose environment is
text, and make any number of self-upgrades, each of which may fail at any of its steps, lose its
candidate, time out or commit. There is a supervisor at the end of it; its generation counts the
commits; each of its eleven sockets has the number it had and, if it was open, is the same open
file; and a supervisor that was handed them has neither bound nor unlinked any. -/
theorem listeners_survive_self_upgrades (address : Slot → String) (s : SupervisorImage F)
    (as : List (AdoptedState × AttemptEnv F)) (hunicode : ∃ vs, vars s.environ = .ok vs)
    (hsane : Along (SupervisorImage.step address) (fun s a => a.2.Sane s) s as) :
    ∃ s', exec (SupervisorImage.step address) s as = some s' ∧
      s'.generation = s.generation +
        UInt64.ofNat (tally (SupervisorImage.step address) (SupervisorImage.commits address) s as) ∧
      (∀ slot, s'.ctl slot = s.ctl slot) ∧
      (∀ slot f, s.fds.file (s.ctl slot) = some f → s'.fds.file (s'.ctl slot) = some f) ∧
      (0 < tally (SupervisorImage.step address) (SupervisorImage.commits address) s as →
        s'.unlinked = []) := by
  obtain ⟨s', hexec, hs', hgen, hpos, -⟩ := SupervisorImage.exec_holds address s.ctl
    (fun slot => s.fds.file (s.ctl slot)) s as ⟨rfl, fun _ _ h => h, hunicode⟩ hsane
  refine ⟨s', hexec, hgen, fun slot => by rw [hs'.numbers], fun slot f hf => ?_, hpos⟩
  rw [hs'.numbers]
  exact hs'.file slot f hf

/-! ### An attempt without a fault -/

/-- Every call of the attempt and of its candidate is answered. -/
structure AttemptEnv.Smooth (env : AttemptEnv F) : Prop where
  clear : ∀ slot, env.clear slot = .ok
  currentExe : env.currentExe = none
  readyPipe : makeReadyPipe env.readyPipe = none
  spawn : ∃ pid, env.spawn = .ok pid
  setNonblocking : ∀ slot, env.opens.setNonblocking slot = none
  fromStd : ∀ slot, env.opens.fromStd slot = none
  startup : env.startup = none
  ready : waitForChildReady env.ready = none

theorem openSlots_adopts_ok (address : Slot → String) (isUpgrade : Bool) {env : OpenEnv F}
    {environ : List CString} {fds : ControlFds} {o : Opening F} (hsd : o.sd = SdListeners.empty)
    (hvars : ∀ slot : Slot, envVar environ slot.envKey = some (fds slot).text)
    (hnb : ∀ slot, env.setNonblocking slot = none) (hstd : ∀ slot, env.fromStd slot = none)
    (slots : List Slot) (ctl : ControlFds) :
    ∃ ctl', openSlots env address environ isUpgrade slots ctl o = .ok (ctl', o) := by
  have hfd : ∀ slot : Slot, inheritedFd environ slot o = .ok (some (fds slot), o) := by
    intro slot
    simp only [inheritedFd, hsd, SdListeners.takeByName, SdListeners.empty, List.find?_nil,
      hvars slot, RawFd.parse_text]
  have hslot : ∀ slot : Slot, openSlot env address environ isUpgrade slot o =
      .ok (fds slot, o) := by
    intro slot
    cases slot <;> simp only [openSlot, adoptOrBindControl, adoptOrBindUdsWorker,
      adoptOrBindTcpWorker, hfd, hnb, hstd, orFail, bind, Except.bind, pure, Except.pure]
  induction slots generalizing ctl with
  | nil => exact ⟨ctl, rfl⟩
  | cons a slots ih =>
    simp only [openSlots, hslot, bind, Except.bind]
    exact ih _

theorem clearGuards_smooth (h : ∀ slot, env.clear slot = .ok) (ctl : ControlFds) (slots : List Slot)
    (t : Descriptors F) : (clearGuards env ctl slots t).2.2 = none := by
  induction slots generalizing t with
  | nil => rfl
  | cons a slots ih =>
    simp only [clearGuards, h, Fcntl.error]
    exact ih _

theorem doSelfUpgrade_commits (hsane : env.Sane s) (hunicode : ∃ vs, vars s.environ = .ok vs)
    (hlisten : ∀ v, (utf8 "LISTEN_PID", utf8 v) ∈ varsOs s.environ →
      (parseUnsigned (2 ^ 32) v).isSome = true)
    (hsmooth : env.Smooth) : ∃ c, doSelfUpgrade env address pids s = .committed c := by
  obtain ⟨vs, hvs⟩ := hunicode
  obtain ⟨pid, hspawn⟩ := hsmooth.spawn
  have hproper := handoffEnv_proper s.ctl pids s.generation env.writeFd
  obtain ⟨envp, henvp, -⟩ := selfUpgradeEnvp_lists hvs hproper
  have hslot := envVar_slot hvs henvp
  have hsd : SdListeners.fromEnv pid envp = .ok (SdListeners.empty, envp) := by
    unfold SdListeners.fromEnv
    cases hv : envVar envp "LISTEN_PID" with
    | none => rfl
    | some v =>
      have hmem := envVar_candidate_ambient hvs hproper henvp (by unfold Stale; decide) hv
      obtain ⟨p, hp⟩ := Option.isSome_iff_exists.mp (hlisten v hmem)
      have hne : p ≠ pid := by
        rintro rfl
        exact hsane.pid p v hspawn hmem hp
      simp only [hp, ne_eq, hne, not_false_eq_true, if_true]
  have hready := signalReadyToParent_handoff hvs henvp
  obtain ⟨ctl', hopen⟩ := openSlots_adopts_ok address (decide (0 < supGeneration envp))
    (o := ⟨SdListeners.empty, (spawnFds env s).inherited, []⟩) rfl hslot hsmooth.setNonblocking
    hsmooth.fromStd openOrder fun _ => RawFd.ofNat 0 (by decide)
  have hcandidate : ∃ c, candidate env address pid envp (spawnFds env s).inherited = some c := by
    simp only [candidate, SupervisorImage.start, openSupervisorListeners, hsd, hopen, bind,
      Except.bind, pure, Except.pure, hsmooth.startup, hready]
    exact ⟨_, rfl⟩
  obtain ⟨c, hc⟩ := hcandidate
  refine ⟨c, ?_⟩
  unfold spawnFds at hc
  simp only [doSelfUpgrade, clearGuards_smooth hsmooth.clear, hsmooth.currentExe,
    hsmooth.readyPipe, context, Option.map_none, henvp, hspawn, hc, hsmooth.ready]

/-- A commit hands over exactly the snapshot. Whatever numbers, pids and generations earlier
upgrades have left in the old supervisor's environment, the new one has the old one's sockets, the
next generation, and for each role the pid of the snapshot with its generation, or neither. And
every socket it has is one that its workers will inherit: nothing sets the flags again. -/
theorem committed_successor_reads_snapshot (env : AttemptEnv F) (address : Slot → String)
    (pids : AdoptedState) (s c : SupervisorImage F) (hsane : env.Sane s)
    (hunicode : ∃ vs, vars s.environ = .ok vs)
    (hpids : ∀ n p, pids.pid n = some p → p < 2 ^ 32) (hgens : ∀ n, pids.gen n < 2 ^ 64)
    (h : doSelfUpgrade env address pids s = .committed c) :
    c.ctl = s.ctl ∧ c.generation = s.generation + 1 ∧
    (∀ n, (AdoptedState.ofEnviron c.environ).pid n = pids.pid n ∧
      (AdoptedState.ofEnviron c.environ).gen n =
        if (pids.pid n).isSome then pids.gen n else 0) ∧
    ∀ slot, c.fds.cloexec (c.ctl slot) = false := by
  rcases doSelfUpgrade_cases env address pids s with
    ⟨t, -, ⟨e, hout⟩ | hout⟩ | ⟨envp, pid, c', hclear, henvp, hspawn, hc, hout⟩ | ⟨p, -, hout⟩
  · rw [hout] at h
    cases h
  · rw [hout] at h
    cases h
  · rw [hout] at h
    cases h
    obtain ⟨hctl, -, -, hgen, hfds, -, hadopted⟩ :=
      candidate_reads hsane hunicode hclear henvp hspawn hc
    refine ⟨hctl, hgen, fun n => ?_, fun slot => by rw [hfds]; rfl⟩
    obtain ⟨hp, hg⟩ := hadopted n
    obtain ⟨hp', hg'⟩ := AdoptedState.ofEnv_toEnv pids n
    rw [hp, hg, hp', hg']
    constructor
    · cases hpid : pids.pid n with
      | none => rfl
      | some p =>
        have hlt := hpids n p hpid
        simp only [Option.filter, decide_eq_true hlt, if_true]
    · simp only [hgens n, and_true]
  · rw [hout] at h
    cases h

end Step

/-! ### One commit -/

/-- A supervisor of the second generation with its sockets at 3 to 13. -/
def secondGeneration : SupervisorImage ℕ where
  environ := [⟨utf8 "HOME=/var", by decide⟩, ⟨utf8 "FDPASS_CTRL_ADMIN_FD=99", by decide⟩,
    ⟨utf8 "FDPASS_TLS_PID=41", by decide⟩]
  ctl slot := RawFd.wrap (3 + openOrder.idxOf slot)
  fds := ⟨fun fd => if 3 ≤ fd.1 ∧ fd.1 < 14 then some (100 + fd.1.toNat) else none, fun _ => true⟩
  unlinked := []
  pid := 50
  generation := 1

def workersSnapshot : AdoptedState where
  pid
    | .processor => some 60
    | _ => none
  gen
    | .processor => 4
    | _ => 0

def acks : AttemptEnv ℕ where
  clear _ := .ok
  currentExe := none
  readyPipe := ⟨none, .ok⟩
  readFd := RawFd.wrap 20
  writeFd := RawFd.wrap 21
  readEnd := 0
  writeEnd := 1
  spawn := .ok 51
  opens := bindsFrom10
  startup := none
  ready := .bytes [111, 107, 10]
  restore _ := .ok

theorem secondGeneration_vars : vars secondGeneration.environ =
    .ok [("HOME", "/var"), ("FDPASS_CTRL_ADMIN_FD", "99"), ("FDPASS_TLS_PID", "41")] := by
  rfl

theorem secondGeneration_inactive (v : String) :
    (utf8 "LISTEN_PID", utf8 v) ∉ varsOs secondGeneration.environ := by
  have hnames : ∀ kv ∈ [("HOME", "/var"), ("FDPASS_CTRL_ADMIN_FD", "99"), ("FDPASS_TLS_PID", "41")],
      kv.1 ≠ "LISTEN_PID" := by decide
  rw [(vars_eq_ok_iff _ _).mp secondGeneration_vars]
  intro hmem
  obtain ⟨kv, hkv, heq⟩ := List.mem_map.mp hmem
  exact hnames kv hkv (utf8_injective (Prod.mk.inj heq).1)

theorem acks_sane : acks.Sane secondGeneration := by
  refine ⟨by decide +kernel, ?_⟩
  intro pid v _ hv
  exact absurd hv (secondGeneration_inactive v)

theorem acks_commits :
    ∃ c, doSelfUpgrade acks Slot.sdName workersSnapshot secondGeneration = .committed c :=
  doSelfUpgrade_commits acks_sane ⟨_, secondGeneration_vars⟩
    (fun v hv => absurd hv (secondGeneration_inactive v))
    ⟨fun _ => rfl, rfl, rfl, ⟨51, rfl⟩, fun _ => rfl, fun _ => rfl, rfl, by decide⟩

theorem listeners_survive_one_commit :
    ∃ s', exec (SupervisorImage.step Slot.sdName) secondGeneration [(workersSnapshot, acks)] =
        some s' ∧ s'.generation = 2 ∧ s'.fds.file (s'.ctl .plain) = some 112 := by
  obtain ⟨s', hexec, hgen, hctl, hfile, -⟩ := listeners_survive_self_upgrades Slot.sdName
    secondGeneration [(workersSnapshot, acks)] ⟨_, secondGeneration_vars⟩
    ⟨acks_sane, fun _ _ => trivial⟩
  refine ⟨s', hexec, ?_, hfile .plain 112 (by decide +kernel)⟩
  obtain ⟨c, hc⟩ := acks_commits
  have htally : tally (SupervisorImage.step Slot.sdName) (SupervisorImage.commits Slot.sdName)
      secondGeneration [(workersSnapshot, acks)] = 1 := by
    simp only [tally, SupervisorImage.commits, SupervisorImage.step, hc, Outcome.isCommitted,
      Outcome.survivor]
    rfl
  rw [hgen, htally]
  rfl

theorem committed_successor_reads_processor :
    ∃ c, doSelfUpgrade acks Slot.sdName workersSnapshot secondGeneration = .committed c ∧
      (AdoptedState.ofEnviron c.environ).pid .processor = some 60 ∧
      (AdoptedState.ofEnviron c.environ).pid .tls = none := by
  obtain ⟨c, hc⟩ := acks_commits
  obtain ⟨-, -, hadopted, -⟩ := committed_successor_reads_snapshot acks Slot.sdName workersSnapshot
    secondGeneration c acks_sane ⟨_, secondGeneration_vars⟩
    (by
      intro n p hp
      cases n <;> simp [workersSnapshot] at hp
      subst hp
      norm_num)
    (by intro n; cases n <;> simp [workersSnapshot]) hc
  exact ⟨c, hc, (hadopted .processor).1, (hadopted .tls).1⟩

end FiveNinesEcho.Supervisor
