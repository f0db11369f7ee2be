import FiveNinesEcho.Supervisor.Inheritance
import FiveNinesEcho.Supervisor.Watchdog

/-!
# The grandparent (`grandparent.rs`, `supervisor.rs:526-536`)

A thin process that starts the supervisor in a process group of its own and starts another one when
it crashes, after it has killed what is left of the group. A supervisor that has handed over to a
successor exits with a code that is not 0: the grandparent would take it for a crash, and the
successor is in the group. So it marks the environment of the supervisors it starts, and a marked
one refuses to hand over.
-/

namespace FiveNinesEcho.Supervisor
open Lib Handoff

/-! ### The environment of the supervisor -/

def envUnderGrandparent : String := "FDPASS_UNDER_GRANDPARENT"

def grandparentCommand : Command := Command.new.env (utf8 envUnderGrandparent) (utf8 "1")

def grandparentEnvp (environ : List CString) : Option (List CString) :=
  constructEnvp (Table.walk (byKey _) (grandparentCommand.captureEnv environ))

/-- A `SIGHUP` starts a self-upgrade only in an environment without the mark. -/
def selfUpgrades (environ : List CString) : Bool := (envVar environ envUnderGrandparent).isNone

theorem grandparentEnvp_marked (environ : List CString) :
    ∃ envp, grandparentEnvp environ = some envp ∧ selfUpgrades envp = false := by
  have hcmd : grandparentCommand =
      Command.new.changed [setTo (utf8 envUnderGrandparent, utf8 "1")] := rfl
  have hmem : ∀ k v, (k, v) ∈ Table.walk (byKey _) (grandparentCommand.captureEnv environ) ↔
      (Table.latest k ((varsOs environ).map setTo ++
        [setTo (utf8 envUnderGrandparent, utf8 "1")])).join = some v := by
    intro k v
    rw [Table.mem_walk, hcmd, Command.lookup_captureEnv]
  have hproper : ∀ k v, (k, v) ∈ Table.walk (byKey _) (grandparentCommand.captureEnv environ) →
      IsName k ∧ 0 ∉ k ∧ 0 ∉ v := by
    intro k v hkv
    have hlast := Table.mem_of_latest (Option.join_eq_some_iff.mp ((hmem k v).mp hkv))
    rcases List.mem_append.mp hlast with hold | hnew
    · obtain ⟨var, hvar, heq⟩ := List.mem_map.mp hold
      cases heq
      exact mem_varsOs hvar
    · cases List.mem_singleton.mp hnew
      unfold IsName
      decide
  obtain ⟨envp, henvp, hbytes⟩ := constructEnvp_spec _ fun var hvar =>
    (hproper var.1 var.2 hvar).2
  refine ⟨envp, henvp, ?_⟩
  have hlists : Lists envp fun var => (Table.latest var.1 ((varsOs environ).map setTo ++
      [setTo (utf8 envUnderGrandparent, utf8 "1")])).join = some var.2 :=
    ⟨_, hbytes, Table.nodup_walk _ _, fun var => hmem var.1 var.2⟩
  have hvar := envVar_lists hlists
    (fun k v hv => (hproper k v ((hmem k v).mpr hv)).1) envUnderGrandparent
  have hone : intoString (utf8 "1") = .ok "1" := (intoString_eq_ok_iff _ _).mpr rfl
  have hmark : (Table.latest (utf8 envUnderGrandparent) ((varsOs environ).map setTo ++
      [setTo (utf8 envUnderGrandparent, utf8 "1")])).join = some (utf8 "1") := by
    rw [Table.latest_append]
    simp [Table.latest, setTo]
  rw [selfUpgrades, hvar, hmark]
  simp [hone, Except.toOption]

/-! ### The loop -/

def minBackoff : ℕ := 500
def maxBackoff : ℕ := 30000
def healthyUptime : ℕ := 60000

/-- `ExitStatus::success`. -/
def ExitStatus.success (st : ExitStatus) : Bool := st.code = some 0

inductive GrandparentPc where
  | spawn
  | waiting (sup : Pid) (start : ℕ)
  | forwarding (sup : Pid)
  | sleeping (wake : ℕ)
  | returned
  deriving Repr, DecidableEq

/-- `procs` are the processes below the grandparent, each with its process group, `environ` is the
environment of the last supervisor it started, `exited` that one's status until it is waited for,
and `signalled` that a `SIGTERM` or `SIGINT` is there to be taken; `crashes` are the uptimes and
what was slept then. -/
structure Grandparent where
  now : ℕ
  backoff : ℕ
  pc : GrandparentPc
  procs : List (Pid × Pid)
  environ : List CString
  exited : Option ExitStatus
  signalled : Bool
  crashes : List (ℕ × ℕ)

def Grandparent.start : Grandparent := ⟨0, minBackoff, .spawn, [], [], none, false, []⟩

def GrandparentPc.supervisor : GrandparentPc → Option Pid
  | .waiting sup _ | .forwarding sup => some sup
  | _ => none

inductive GrandparentAct where
  | elapse (d : ℕ)
  | spawn (pid : Option Pid)
  | fork (p child : Pid)
  | die (p : Pid) (st : ExitStatus)
  | handOver (successor : Pid)
  | signal
  | childExits
  | forward
  | childReaped
  | wake

/-- A pid that the kernel may give out: it is neither a process nor a group, nor the supervisor,
which has not been waited for. -/
def Grandparent.free (s : Grandparent) (p : Pid) : Bool :=
  s.procs.all (fun e => e.1 != p && e.2 != p) && s.pc.supervisor != some p

def Grandparent.group (s : Grandparent) (p : Pid) : Option Pid := s.procs.lookup p

def Grandparent.die (s : Grandparent) (p : Pid) (st : ExitStatus) : Grandparent :=
  { s with
    procs := s.procs.filter fun e => e.1 != p
    exited := if s.pc.supervisor = some p then some st else s.exited }

/-- `killpg` with `SIGKILL`. -/
def Grandparent.killpg (s : Grandparent) (g : Pid) : Grandparent :=
  { s with procs := s.procs.filter fun e => e.2 != g }

/-- A supervisor that crashed: its group is killed, and the next one comes after the backoff, which
is the smallest again after a minute of uptime. -/
def Grandparent.crashed (s : Grandparent) (sup : Pid) (start : ℕ) : Grandparent :=
  let backoff := if healthyUptime < s.now - start then minBackoff else s.backoff
  { s.killpg sup with
    pc := .sleeping (s.now + backoff)
    backoff := min (backoff * 2) maxBackoff
    exited := none
    crashes := s.crashes ++ [(s.now - start, backoff)] }

/-- One move. A process is forked into the group of its parent; `handOver` is the commit of a
self-upgrade, with the successor in the group and the supervisor gone with the commit code. -/
def Grandparent.step (environ : List CString) (s : Grandparent) :
    GrandparentAct → Option Grandparent
  | .elapse d => some { s with now := s.now + d }
  | .spawn pid => match s.pc, pid, grandparentEnvp environ with
    | .spawn, some p, some envp =>
      if s.free p then
        some { s with
          pc := .waiting p s.now, procs := (p, p) :: s.procs, environ := envp, exited := none }
      else none
    | .spawn, _, _ => some { s with pc := .returned }
    | _, _, _ => none
  | .fork p child => match s.group p with
    | some g => if s.free child then some { s with procs := (child, g) :: s.procs } else none
    | none => none
  | .die p st => if (s.group p).isSome then some (s.die p st) else none
  | .handOver successor => match s.pc.supervisor.bind fun sup => (s.group sup).map (sup, ·) with
    | some (sup, g) =>
      if selfUpgrades s.environ && s.free successor then
        some ({ s with procs := (successor, g) :: s.procs }.die sup
          (.exited upgradeCommitExitCode))
      else none
    | none => none
  | .signal => some { s with signalled := true }
  | .childExits => match s.pc, s.exited with
    | .waiting sup start, some st =>
      some (if st.success then { s with pc := .returned } else s.crashed sup start)
    | _, _ => none
  | .forward => match s.pc with
    | .waiting sup _ =>
      if s.signalled then some { s with pc := .forwarding sup, signalled := false } else none
    | _ => none
  | .childReaped => match s.pc, s.exited with
    | .forwarding _, some _ => some { s with pc := .returned }
    | _, _ => none
  | .wake => match s.pc with
    | .sleeping wake => if wake ≤ s.now then some { s with pc := .spawn } else none
    | _ => none

/-! ### The backoff -/

/-- What is slept after crashes with these uptimes, when `c` short ones came before them: half a
second, doubled with each, and at most half a minute. -/
def delays : ℕ → List ℕ → List ℕ
  | _, [] => []
  | c, u :: us =>
    let c := if healthyUptime < u then 0 else c
    min (minBackoff * 2 ^ c) maxBackoff :: delays (c + 1) us

/-- The short ones in a row up to now. -/
def streak : ℕ → List ℕ → ℕ
  | c, [] => c
  | c, u :: us => streak ((if healthyUptime < u then 0 else c) + 1) us

theorem streak_concat (c : ℕ) (us : List ℕ) (u : ℕ) :
    streak c (us ++ [u]) = (if healthyUptime < u then 0 else streak c us) + 1 := by
  induction us generalizing c with
  | nil => rfl
  | cons v us ih => exact ih _

theorem delays_concat (c : ℕ) (us : List ℕ) (u : ℕ) :
    delays c (us ++ [u]) = delays c us ++
      [min (minBackoff * 2 ^ (if healthyUptime < u then 0 else streak c us)) maxBackoff] := by
  induction us generalizing c with
  | nil => rfl
  | cons v us ih =>
    simp only [List.cons_append, delays, ih, streak]

theorem backoff_doubles (c : ℕ) : min (min (minBackoff * 2 ^ c) maxBackoff * 2) maxBackoff =
    min (minBackoff * 2 ^ (c + 1)) maxBackoff := by
  simp only [minBackoff, maxBackoff, pow_succ]
  omega

/-! ### Every run -/

/-- All the processes are in the group of the supervisor there is, and when there is none there are
no processes. -/
def Grandparent.Below (s : Grandparent) : Prop :=
  match s.pc with
  | .waiting sup _ | .forwarding sup => ∀ e ∈ s.procs, e.2 = sup
  | .spawn | .sleeping _ => s.procs = []
  | .returned => ∃ sup, ∀ e ∈ s.procs, e.2 = sup

structure Grandparent.Inv (s : Grandparent) : Prop where
  below : s.Below
  marked : s.pc.supervisor.isSome = true → selfUpgrades s.environ = false
  backoff : s.backoff = min (minBackoff * 2 ^ streak 0 (s.crashes.map Prod.fst)) maxBackoff
  slept : s.crashes.map Prod.snd = delays 0 (s.crashes.map Prod.fst)

section Step
variable {s t : Grandparent} {environ : List CString}

theorem Grandparent.Below.one (hs : s.Below) : ∃ sup, ∀ e ∈ s.procs, e.2 = sup := by
  unfold Grandparent.Below at hs
  split at hs
  · exact ⟨_, hs⟩
  · exact ⟨_, hs⟩
  · exact ⟨0, by simp [hs]⟩
  · exact ⟨0, by simp [hs]⟩
  · exact hs

/-- The processes change and the grandparent does not move. -/
theorem Grandparent.Below.procs (hs : s.Below) (hpc : t.pc = s.pc)
    (hnil : s.procs = [] → t.procs = [])
    (hsup : ∀ sup, (∀ e ∈ s.procs, e.2 = sup) → ∀ e ∈ t.procs, e.2 = sup) : t.Below := by
  unfold Grandparent.Below at hs ⊢
  rw [hpc]
  split at hs
  · exact hsup _ hs
  · exact hsup _ hs
  · exact hnil hs
  · exact hnil hs
  · obtain ⟨sup, h⟩ := hs
    exact ⟨sup, hsup sup h⟩

theorem Grandparent.mem_of_group {p g : Pid} (h : s.group p = some g) : (p, g) ∈ s.procs := by
  obtain ⟨front, back, heq, -⟩ := List.lookup_eq_some_iff.mp h
  rw [heq]
  simp

theorem Grandparent.Inv.fork (hs : s.Inv) {p child : Pid}
    (h : s.step environ (.fork p child) = some t) : t.Inv := by
  simp only [Grandparent.step] at h
  split at h
  · next g hg =>
    simp only [Option.ite_none_right_eq_some, Option.some.injEq] at h
    obtain ⟨-, rfl⟩ := h
    have hin := Grandparent.mem_of_group hg
    refine ⟨hs.below.procs rfl ?_ ?_, hs.marked, hs.backoff, hs.slept⟩
    · intro hnil
      rw [hnil] at hin
      cases hin
    · intro sup hsup e he
      rcases List.mem_cons.mp he with rfl | he
      · exact hsup (p, g) hin
      · exact hsup e he
  · cases h

theorem Grandparent.Inv.die (hs : s.Inv) (p : Pid) (st : ExitStatus) : (s.die p st).Inv := by
  refine ⟨hs.below.procs rfl ?_ ?_, hs.marked, hs.backoff, hs.slept⟩
  · intro hnil
    simp [Grandparent.die, hnil]
  · exact fun sup hsup e he => hsup e (List.mem_of_mem_filter he)

theorem Grandparent.Inv.crashed (hs : s.Inv) {sup : Pid} {start : ℕ}
    (hpc : s.pc = .waiting sup start) : (s.crashed sup start).Inv := by
  have hbelow := hs.below
  simp only [Grandparent.Below, hpc] at hbelow
  have hbackoff : (if healthyUptime < s.now - start then minBackoff else s.backoff) =
      min (minBackoff * 2 ^ (if healthyUptime < s.now - start then 0
        else streak 0 (s.crashes.map Prod.fst))) maxBackoff := by
    split
    · rfl
    · exact hs.backoff
  refine ⟨?_, ?_, ?_, ?_⟩
  · simp only [Grandparent.Below, Grandparent.crashed, Grandparent.killpg, List.filter_eq_nil_iff]
    intro e he
    simp [hbelow e he]
  · simp [Grandparent.crashed, GrandparentPc.supervisor]
  · simp only [Grandparent.crashed, List.map_append, List.map_cons, List.map_nil, streak_concat,
      hbackoff, backoff_doubles]
  · simp only [Grandparent.crashed, List.map_append, List.map_cons, List.map_nil, delays_concat,
      hs.slept, hbackoff]

/-- Nobody hands over. -/
theorem Grandparent.Inv.no_handOver (hs : s.Inv) (successor : Pid) :
    s.step environ (.handOver successor) = none := by
  simp only [Grandparent.step]
  split
  · next sup g hsup =>
    obtain ⟨sup', hsup', -⟩ := Option.bind_eq_some_iff.mp hsup
    rw [hs.marked (by rw [hsup']; rfl)]
    rfl
  · rfl

theorem Grandparent.Inv.step (hs : s.Inv) (a : GrandparentAct) (h : s.step environ a = some t) :
    t.Inv := by
  cases a with
  | elapse d =>
    cases h
    exact ⟨hs.below, hs.marked, hs.backoff, hs.slept⟩
  | spawn pid =>
    simp only [Grandparent.step] at h
    split at h
    · next p envp hpc henvp =>
      simp only [Option.ite_none_right_eq_some, Option.some.injEq] at h
      obtain ⟨-, rfl⟩ := h
      have hnone := hs.below
      simp only [Grandparent.Below, hpc] at hnone
      obtain ⟨envp', henvp', hmark⟩ := grandparentEnvp_marked environ
      cases henvp.symm.trans henvp'
      refine ⟨?_, fun _ => hmark, hs.backoff, hs.slept⟩
      simp [Grandparent.Below, hnone]
    · next hpc =>
      cases h
      refine ⟨hs.below.one, ?_, hs.backoff, hs.slept⟩
      simp [GrandparentPc.supervisor]
    · cases h
  | fork p child => exact hs.fork h
  | die p st =>
    simp only [Grandparent.step, Option.ite_none_right_eq_some, Option.some.injEq] at h
    obtain ⟨-, rfl⟩ := h
    exact hs.die p st
  | handOver successor =>
    rw [hs.no_handOver] at h
    cases h
  | signal =>
    cases h
    exact ⟨hs.below, hs.marked, hs.backoff, hs.slept⟩
  | childExits =>
    simp only [Grandparent.step] at h
    split at h
    · next sup start st hpc hst =>
      cases h
      split
      · refine ⟨hs.below.one, ?_, hs.backoff, hs.slept⟩
        simp [GrandparentPc.supervisor]
      · exact hs.crashed hpc
    · cases h
  | forward =>
    simp only [Grandparent.step] at h
    split at h
    · next sup start hpc =>
      simp only [Option.ite_none_right_eq_some, Option.some.injEq] at h
      obtain ⟨-, rfl⟩ := h
      have hbelow := hs.below
      simp only [Grandparent.Below, hpc] at hbelow
      refine ⟨hbelow, fun _ => hs.marked (by simp [hpc, GrandparentPc.supervisor]), hs.backoff,
        hs.slept⟩
    · cases h
  | childReaped =>
    simp only [Grandparent.step] at h
    split at h
    · cases h
      refine ⟨hs.below.one, ?_, hs.backoff, hs.slept⟩
      simp [GrandparentPc.supervisor]
    · cases h
  | wake =>
    simp only [Grandparent.step] at h
    split at h
    · next wake hpc =>
      simp only [Option.ite_none_right_eq_some, Option.some.injEq] at h
      obtain ⟨-, rfl⟩ := h
      have hnone := hs.below
      simp only [Grandparent.Below, hpc] at hnone
      refine ⟨hnone, ?_, hs.backoff, hs.slept⟩
      simp [GrandparentPc.supervisor]
    · cases h

theorem Grandparent.start_inv : Grandparent.start.Inv :=
  ⟨rfl, by simp [Grandparent.start, GrandparentPc.supervisor], rfl, rfl⟩

end Step

/-- In every run, with processes that fork and die in any way: whatever lives below the grandparent
is in one process group, that of the supervisor it waits for, and when it starts one nothing of the
one before is left. It sleeps half a second after a crash, twice as long after each further one that
comes within a minute of uptime, and half a minute at most. No supervisor of its own hands over; if
one did, its exit would be a crash, and nothing of the successor would be left either. -/
theorem grandparent_keeps_one_tree (environ : List CString) (as : List GrandparentAct)
    (s : Grandparent) (h : exec (Grandparent.step environ) Grandparent.start as = some s) :
    (∀ e ∈ s.procs, ∀ e' ∈ s.procs, e.2 = e'.2) ∧
    (s.pc = .spawn → s.procs = []) ∧
    (∀ sup, s.pc.supervisor = some sup → ∀ e ∈ s.procs, e.2 = sup) ∧
    s.crashes.map Prod.snd = delays 0 (s.crashes.map Prod.fst) ∧
    (∀ successor, s.step environ (.handOver successor) = none) ∧
    ∀ sup start st, s.pc = .waiting sup start → s.exited = some st → st.isCommit = true →
      ∃ t, s.step environ .childExits = some t ∧ t.procs = [] := by
  have hs : s.Inv := exec_invariant (fun _ a _ hi hstep => hi.step a hstep) _ s as
    Grandparent.start_inv h
  refine ⟨?_, ?_, ?_, hs.slept, fun successor => hs.no_handOver successor, ?_⟩
  · obtain ⟨sup, hsup⟩ := hs.below.one
    exact fun e he e' he' => (hsup e he).trans (hsup e' he').symm
  · intro hpc
    have hnone := hs.below
    simpa only [Grandparent.Below, hpc] using hnone
  · intro sup hsup
    have hbelow := hs.below
    cases hpc : s.pc <;> simp only [hpc, GrandparentPc.supervisor, reduceCtorEq] at hsup
    all_goals
      cases hsup
      simpa only [Grandparent.Below, hpc] using hbelow
  · intro sup start st hpc hst hcommit
    have hcode : st.code = some upgradeCommitExitCode := by
      simpa [ExitStatus.isCommit] using hcommit
    have hfail : st.success = false := by
      simp [ExitStatus.success, hcode, upgradeCommitExitCode]
    refine ⟨s.crashed sup start, ?_, ?_⟩
    · simp [Grandparent.step, hpc, hst, hfail]
    · have hgone := (hs.crashed hpc).below
      simpa only [Grandparent.Below, Grandparent.crashed] using hgone

/-- A supervisor is killed with a worker left behind, and the worker is killed for it. -/
def supervisorKilled : List GrandparentAct :=
  [.spawn (some 7), .fork 7 8, .elapse 100, .die 7 ⟨9⟩, .childExits]

theorem grandparent_kills_the_rest :
    ∃ s, exec (Grandparent.step []) Grandparent.start supervisorKilled = some s ∧
      s.crashes = [(100, 500)] ∧ s.crashes.map Prod.snd = delays 0 (s.crashes.map Prod.fst) := by
  obtain ⟨envp, henvp, -⟩ := grandparentEnvp_marked []
  have hrun : ∃ s, exec (Grandparent.step []) Grandparent.start supervisorKilled = some s ∧
      s.crashes = [(100, 500)] := by
    simp only [supervisorKilled, exec, Grandparent.step, Grandparent.start, henvp]
    exact ⟨_, rfl, rfl⟩
  obtain ⟨s, hs, hcrashes⟩ := hrun
  exact ⟨s, hs, hcrashes, (grandparent_keeps_one_tree [] supervisorKilled s hs).2.2.2.1⟩

end FiveNinesEcho.Supervisor
