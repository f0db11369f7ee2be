import FiveNinesEcho.Supervisor.Role
import Mathlib.Algebra.Group.Nat.Defs

/-!
# Self-upgrade of the supervisor (`supervisor.rs:108-166`, `supervisor.rs:498-513`,
`supervisor.rs:604-677`, `supervisor/self_upgrade.rs`)

The four roles of a supervisor, and the handover to the candidate it spawns on SIGHUP: the pids are
read, then one link after the other, the answers go through the candidate's environment, and the
candidate starts its own loops on the same processes before it acks. Until the ack is read both run.
-/

namespace FiveNinesEcho.Supervisor
open Lib Handoff

/-! ### The environment of the candidate -/

abbrev Env := List (String × String)

/-- `str::parse` of an unsigned type with that many values: digits, possibly after a plus sign. -/
def parseUnsigned (size : ℕ) (s : String) : Option ℕ :=
  let digits := match s.toList with
    | '+' :: rest => rest
    | cs => cs
  if digits ≠ [] ∧ digits.all Char.isDigit then
    (some (Nat.ofDigitChars 10 digits 0)).filter (· < size)
  else none

theorem parseUnsigned_repr (size n : ℕ) :
    parseUnsigned size n.repr = if n < size then some n else none := by
  have hdigits : ∀ c ∈ Nat.toDigits 10 n, c.isDigit = true := fun c hc =>
    Nat.isDigit_of_mem_toDigits (by decide) (by decide) hc
  have hall : (Nat.toDigits 10 n).all Char.isDigit = true := List.all_eq_true.mpr hdigits
  have hsign : (match Nat.toDigits 10 n with
      | '+' :: rest => rest
      | cs => cs) = Nat.toDigits 10 n := by
    split
    · next rest heq =>
      have hplus := hdigits '+' (by simp [heq])
      simp at hplus
    · rfl
  unfold parseUnsigned
  simp only [Nat.toList_repr, hsign]
  rw [if_pos ⟨Nat.toDigits_ne_nil, hall⟩, Nat.ofDigitChars_ten_toDigits]
  by_cases h : n < size <;> simp [Option.filter, h]

theorem parseUnsigned_lt {size n : ℕ} {s : String} (h : parseUnsigned size s = some n) :
    n < size := by
  unfold parseUnsigned at h
  rw [Option.ite_none_right_eq_some] at h
  simpa using (Option.filter_eq_some_iff.mp h.2).2

def RoleName.pidVar : RoleName → String
  | .processor => "FDPASS_PROCESSOR_PID"
  | .plain => "FDPASS_PLAIN_PID"
  | .tls => "FDPASS_TLS_PID"
  | .scanner => "FDPASS_SCANNER_PID"

def RoleName.genVar : RoleName → String
  | .processor => "FDPASS_PROCESSOR_GEN"
  | .plain => "FDPASS_PLAIN_GEN"
  | .tls => "FDPASS_TLS_GEN"
  | .scanner => "FDPASS_SCANNER_GEN"

def envPid (env : Env) (key : String) : Option Pid :=
  (env.lookup key).bind (parseUnsigned (2 ^ 32))

def envGeneration (env : Env) (key : String) : ℕ :=
  ((env.lookup key).bind (parseUnsigned (2 ^ 64))).getD 0

/-- `AdoptedState` (`self_upgrade.rs:23-36`), a pid and a generation for each role. -/
structure AdoptedState where
  pid : RoleName → Option Pid
  gen : RoleName → ℕ

def allRoles : List RoleName := [.processor, .plain, .tls, .scanner]

/-- The variables of some roles (`self_upgrade.rs:106-121`). The environment is scrubbed of every
other variable of that prefix before. -/
def AdoptedState.vars (st : AdoptedState) (roles : List RoleName) : Env :=
  roles.flatMap fun n => match st.pid n with
    | some p => [(n.pidVar, p.repr), (n.genVar, (st.gen n).repr)]
    | none => []

def AdoptedState.toEnv (st : AdoptedState) : Env := st.vars allRoles

/-- What `run` starts from (`supervisor.rs:621-630`). -/
def AdoptedState.ofEnv (env : Env) : AdoptedState :=
  ⟨fun n => envPid env n.pidVar, fun n => envGeneration env n.genVar⟩

theorem RoleName.vars_ne (m n : RoleName) :
    m.pidVar ≠ n.genVar ∧ (m ≠ n → m.pidVar ≠ n.pidVar ∧ m.genVar ≠ n.genVar) := by
  cases m <;> cases n <;> decide

theorem AdoptedState.vars_none (st : AdoptedState) (n : RoleName) (roles : List RoleName)
    (hn : st.pid n = none) : st.vars (n :: roles) = st.vars roles := by
  simp [AdoptedState.vars, hn]

theorem AdoptedState.lookup_vars_of_not_mem (st : AdoptedState) (n : RoleName)
    (roles : List RoleName) (hn : n ∉ roles) :
    (st.vars roles).lookup n.pidVar = none ∧ (st.vars roles).lookup n.genVar = none := by
  induction roles with
  | nil => exact ⟨rfl, rfl⟩
  | cons m roles ih =>
    rw [List.mem_cons, not_or] at hn
    obtain ⟨hpid, hgen⟩ := ih hn.2
    obtain ⟨hmn, hdistinct⟩ := RoleName.vars_ne n m
    have hnm := (RoleName.vars_ne m n).1
    obtain ⟨hp, hg⟩ := hdistinct hn.1
    cases hm : st.pid m with
    | none =>
      rw [st.vars_none m roles hm]
      exact ⟨hpid, hgen⟩
    | some p =>
      simp only [AdoptedState.vars, List.flatMap_cons, hm, List.cons_append, List.nil_append,
        List.lookup_cons, beq_eq_false_iff_ne.mpr hp, beq_eq_false_iff_ne.mpr hmn,
        beq_eq_false_iff_ne.mpr hnm.symm, beq_eq_false_iff_ne.mpr hg]
      exact ⟨hpid, hgen⟩

theorem AdoptedState.lookup_vars (st : AdoptedState) (n : RoleName) (roles : List RoleName)
    (hnodup : roles.Nodup) (hn : n ∈ roles) :
    (st.vars roles).lookup n.pidVar = (st.pid n).map Nat.repr ∧
      (st.vars roles).lookup n.genVar = (st.pid n).map fun _ => (st.gen n).repr := by
  induction roles with
  | nil => cases hn
  | cons m roles ih =>
    rw [List.nodup_cons] at hnodup
    obtain ⟨hmn, hdistinct⟩ := RoleName.vars_ne n m
    have hnm := (RoleName.vars_ne m n).1
    by_cases heq : n = m
    · subst heq
      cases hp : st.pid n with
      | none =>
        rw [st.vars_none n roles hp]
        exact st.lookup_vars_of_not_mem n roles hnodup.1
      | some p =>
        simp [AdoptedState.vars, hp, List.lookup_cons, beq_eq_false_iff_ne.mpr hnm.symm]
    · obtain ⟨hpid, hgen⟩ := ih hnodup.2 (List.mem_of_ne_of_mem heq hn)
      obtain ⟨hp, hg⟩ := hdistinct heq
      cases hm : st.pid m with
      | none =>
        rw [st.vars_none m roles hm]
        exact ⟨hpid, hgen⟩
      | some p =>
        simp only [AdoptedState.vars, List.flatMap_cons, hm, List.cons_append, List.nil_append,
          List.lookup_cons, beq_eq_false_iff_ne.mpr hp, beq_eq_false_iff_ne.mpr hmn,
          beq_eq_false_iff_ne.mpr hnm.symm, beq_eq_false_iff_ne.mpr hg]
        exact ⟨hpid, hgen⟩

theorem AdoptedState.ofEnv_toEnv (st : AdoptedState) (n : RoleName) :
    (ofEnv st.toEnv).pid n = (st.pid n).filter (· < 2 ^ 32) ∧
      (ofEnv st.toEnv).gen n = if (st.pid n).isSome ∧ st.gen n < 2 ^ 64 then st.gen n else 0 := by
  obtain ⟨hpid, hgen⟩ := st.lookup_vars n allRoles (by decide) (by cases n <;> decide)
  simp only [ofEnv, envPid, envGeneration, toEnv, hpid, hgen]
  cases st.pid n with
  | none => simp
  | some p =>
    simp only [Option.map_some, Option.bind_some, parseUnsigned_repr, Option.isSome_some, true_and]
    constructor
    · simp [Option.filter]
    · split <;> rfl

/-! ### The supervisor and its candidate -/

abbrev Roles := RoleName → Role

/-- The loop of a role as the next supervisor starts it, on the processes there are
(`worker.rs:128-162`). -/
def Role.rebuilt (s : Role) (adoptedPid : Option Pid) (adoptedGen : ℕ) : Role :=
  let next : Option ChildHandle :=
    adoptedPid.bind fun p => if (s.procs p).isSome then some (.adopted p) else none
  { name := s.name
    shutdown := false
    currentPid := none
    currentGeneration := adoptedGen
    watchdog := if next.isSome then WatchdogState.new.recordAdoption s.now else .new
    link := .default
    pc := .head next
    procs := s.procs
    conns := []
    now := s.now
    log := [] }

theorem Role.rebuilt_eq_start {name : RoleName} (s : Role) (b : Boot name) (hname : s.name = name)
    (hprocs : b.procs = s.procs) (hnow : b.now = s.now) :
    s.rebuilt b.adoptedPid b.adoptedGen = Role.start b := by
  subst hname
  simp only [Role.rebuilt, Role.start, Boot.next, Boot.isProcessAlive, hprocs, hnow]

/-- Another supervisor moved: the processes and the clock are shared. -/
def Role.share (s other : Role) : Role := { s with procs := other.procs, now := other.now }

/-- What of its surroundings belongs to a supervisor alone. -/
def EnvAct.own : EnvAct → Bool
  | .elapse _ | .fork .. | .reexec _ | .exit .. => false
  | _ => true

def RoleAct.own : RoleAct → Bool
  | .inl _ => true
  | .inr a => a.own

/-- Pids and generations stay within `u32` and `u64`. -/
def Role.fits (s : Role) : RoleAct → Bool
  | .inl (.head (some p)) => p < 2 ^ 32
  | .inr (.fork p q) => q < 2 ^ 32 ∧ (s.genOf p).all (· + 1 < 2 ^ 64)
  | .inr (.reexec p) => (s.genOf p).all (· + 1 < 2 ^ 64)
  | .inr (.report _ st) => st.generation < 2 ^ 64
  | _ => true

/-- Where `run_supervisor_loop` is: in its select, reading the pids, reading the links, with a child
that has not come to `run` yet, or next to a candidate that has its loops. -/
inductive HandoverPc where
  | idle
  | pids (left : List RoleName) (pid : RoleName → Option Pid)
  | gens (left : List RoleName) (state : AdoptedState)
  | spawned (env : Env)
  | overlapping (candidate : Roles)

structure SelfUpgrade where
  roles : Roles
  pc : HandoverPc

inductive SelfUpgradeAct where
  | role (n : RoleName) (a : RoleAct)
  | sighup
  | readPid
  | readGen
  | spawn
  | boot
  | candidate (n : RoleName) (a : RoleAct)
  | commit
  | rollback
  deriving Repr, DecidableEq

/-- A worker and a candidate that is there see each other's processes. -/
def HandoverPc.share (pc : HandoverPc) (n : RoleName) (r : Role) : HandoverPc :=
  match pc with
  | .overlapping c => .overlapping (Function.update c n ((c n).share r))
  | pc => pc

def SelfUpgrade.step (s : SelfUpgrade) : SelfUpgradeAct → Option SelfUpgrade
  | .role n a =>
    if (s.roles n).fits a then ((s.roles n).step a).map fun r =>
      ⟨Function.update s.roles n r, s.pc.share n r⟩
    else none
  | .sighup => match s.pc with
    | .idle => some { s with pc := .pids allRoles fun _ => none }
    | _ => none
  | .readPid => match s.pc with
    | .pids (n :: left) pid =>
      some { s with pc := .pids left (Function.update pid n (s.roles n).currentPid) }
    | .pids [] pid => some { s with pc := .gens allRoles ⟨pid, fun _ => 0⟩ }
    | _ => none
  | .readGen => match s.pc with
    | .gens (n :: left) st => some { s with
        pc := .gens left { st with
          gen := Function.update st.gen n ((s.roles n).link.lastGeneration.getD 0) } }
    | _ => none
  | .spawn => match s.pc with
    | .gens [] st => some { s with pc := .spawned st.toEnv }
    | _ => none
  | .boot => match s.pc with
    | .spawned env =>
      let st := AdoptedState.ofEnv env
      some { s with pc := .overlapping fun n => (s.roles n).rebuilt (st.pid n) (st.gen n) }
    | _ => none
  | .candidate n a => match s.pc with
    | .overlapping c =>
      if a.own ∧ (c n).fits a then ((c n).step a).map fun r =>
        ⟨Function.update s.roles n ((s.roles n).share r), .overlapping (Function.update c n r)⟩
      else none
    | _ => none
  | .commit => match s.pc with
    | .overlapping c => some ⟨c, .idle⟩
    | _ => none
  | .rollback => match s.pc with
    | .gens [] _ | .spawned _ | .overlapping _ => some { s with pc := .idle }
    | _ => none

def SelfUpgrade.start : SelfUpgrade := ⟨fun n => Role.start (.cold n), .idle⟩

theorem SelfUpgrade.role_cases {s t : SelfUpgrade} {n : RoleName} {a : RoleAct}
    (h : s.step (.role n a) = some t) :
    ∃ r, (s.roles n).fits a = true ∧ (s.roles n).step a = some r ∧
      t = ⟨Function.update s.roles n r, s.pc.share n r⟩ := by
  simp only [SelfUpgrade.step, Option.ite_none_right_eq_some] at h
  obtain ⟨r, hr, rfl⟩ := Option.map_eq_some_iff.mp h.2
  exact ⟨r, h.1, hr, rfl⟩

theorem SelfUpgrade.candidate_cases {s t : SelfUpgrade} {n : RoleName} {a : RoleAct}
    (h : s.step (.candidate n a) = some t) :
    ∃ c r, s.pc = .overlapping c ∧ a.own = true ∧ (c n).fits a = true ∧ (c n).step a = some r ∧
      t = ⟨Function.update s.roles n ((s.roles n).share r),
        .overlapping (Function.update c n r)⟩ := by
  simp only [SelfUpgrade.step] at h
  split at h
  · next c hpc =>
    simp only [Option.ite_none_right_eq_some] at h
    obtain ⟨r, hr, rfl⟩ := Option.map_eq_some_iff.mp h.2
    exact ⟨c, r, hpc, h.1.1, h.1.2, hr, rfl⟩
  · cases h

end FiveNinesEcho.Supervisor
