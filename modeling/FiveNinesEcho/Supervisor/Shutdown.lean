import FiveNinesEcho.Supervisor.Role

/-!
# Shutting down (`supervisor.rs:579-604`, `supervisor/control.rs:162-180`,
`supervisor/worker.rs:170-190`, `supervisor/worker.rs:424-430`)

`shutdown_supervisor` runs after SIGTERM or SIGINT, next to the four role loops, the walk and the
admin handlers, on a runtime of several threads. A loop reads the shutdown flag at its head and calls
`spawn_fn` after that; the flag may be stored in between. A worker started by `spawn_fn` is killed
when its handle is dropped, at the latest with the runtime; any other one is left to the message or
the signal it is sent.
-/

namespace FiveNinesEcho.Supervisor
open Lib Handoff

/-! ### The sequence -/

/-- Before the flag is stored, with the roles that are still to be sent a `Shutdown`, in the join of
the loops, and after the exit. The SIGTERM to the processor follows the last `Shutdown`. -/
inductive ShutdownPc where
  | serving
  | sending (rest : List RoleName)
  | joining
  | exited
  deriving Repr, DecidableEq

/-- `checked` are the loops that have read the flag as unset at their head and not gone on yet;
`owned` the processes started by `spawn_fn`, `told` those that were sent a `Shutdown` or a
SIGTERM. -/
structure Supervision where
  role : RoleName → Role
  flag : Bool
  checked : RoleName → Bool
  owned : RoleName → Pid → Bool
  told : RoleName → Pid → Bool
  pc : ShutdownPc

inductive SupervisionAct where
  | check (n : RoleName)
  | role (n : RoleName) (a : RoleAct)
  | adminShutdown (n : RoleName) (written : Bool)
  | store
  | send (written : Bool)
  | sigterm
  | exit
  deriving Repr, DecidableEq

def RolePc.atHead : RolePc → Bool
  | .head _ => true
  | _ => false

def Supervision.tell (s : Supervision) (n : RoleName) (p : Pid) : Supervision :=
  { s with told := Function.update s.told n (Function.update (s.told n) p true) }

def Role.takeWriter (s : Role) : Role := { s with link := s.link.takeWriter }

/-- `send_shutdown`: the writer is taken out of the link, and without one nothing is sent. -/
def Supervision.sendShutdown (s : Supervision) (n : RoleName) (written : Bool) : Supervision :=
  let taken := { s with role := Function.update s.role n (s.role n).takeWriter }
  match (s.role n).writerConn with
  | some c => if written then taken.tell n c.pid else taken
  | none => taken

/-- `send_sigterm` of the pid in the processor's slot (`supervisor/drainer.rs:81-87`). -/
def Supervision.sendSigterm (s : Supervision) : Supervision :=
  match (s.role .processor).currentPid with
  | some p => if p < 2 ^ 31 then s.tell .processor p else s
  | none => s

/-- Only the loop's own check lets it past its head, and only the flag ends it. -/
def Supervision.allows (s : Supervision) (n : RoleName) : RoleAct → Bool
  | .inl (.head _) => s.checked n || s.flag
  | .inr .shutdown => false
  | _ => true

def RoleAct.isHead : RoleAct → Bool
  | .inl (.head _) => true
  | _ => false

/-- A step of a loop or of its surroundings. The loop goes by the flag it read. -/
def Supervision.moved (s : Supervision) (n : RoleName) (a : RoleAct) (r : Role) : Supervision :=
  { s with
    role := Function.update s.role n (if a.isHead then { r with shutdown := s.flag } else r)
    checked := if a.isHead then Function.update s.checked n false else s.checked
    owned := match a with
      | .inl (.head (some p)) =>
        if (s.role n).procs p = none ∧ r.runs p then
          Function.update s.owned n (Function.update (s.owned n) p true)
        else s.owned
      | _ => s.owned }

def Supervision.step (s : Supervision) (a : SupervisionAct) : Option Supervision :=
  if s.pc = .exited then none else match a with
  | .check n =>
    if (s.role n).pc.atHead ∧ s.flag = false then
      some { s with checked := Function.update s.checked n true } else none
  | .role n a => if s.allows n a then ((s.role n).step a).map (s.moved n a) else none
  | .adminShutdown n written => some (s.sendShutdown n written)
  | .store =>
    if s.pc = .serving then some { s with
      flag := true
      role := fun n => if s.checked n then s.role n else { s.role n with shutdown := true }
      pc := .sending [.plain, .tls, .scanner, .processor] } else none
  | .send written => match s.pc with
    | .sending (n :: rest) => some { s.sendShutdown n written with pc := .sending rest }
    | _ => none
  | .sigterm => if s.pc = .sending [] then some { s.sendSigterm with pc := .joining } else none
  | .exit => if s.pc = .joining then some { s with pc := .exited } else none

def Supervision.start (boot : ∀ n, Boot n) : Supervision where
  role n := Role.start (boot n)
  flag := false
  checked _ := false
  owned _ _ := false
  told _ _ := false
  pc := .serving

/-- The step calls `spawn_fn`. -/
def Supervision.callsSpawnFn (s : Supervision) : SupervisionAct → Bool
  | .role n (.inl (.head _)) => (s.role n).pc = .head none ∧ (s.role n).shutdown = false ∧
      (s.checked n || s.flag)
  | _ => false

/-- Every live worker was sent a `Shutdown` or a SIGTERM, or is killed on drop. -/
def Supervision.Reached (s : Supervision) (n : RoleName) : Prop :=
  ∀ p, (s.role n).runs p = true → s.owned n p = true ∨ s.told n p = true

/-! ### When the shutdown reaches every worker -/

/-- The last message to the role is out. -/
def ShutdownPc.past (pc : ShutdownPc) (n : RoleName) : Bool :=
  match pc with
  | .serving => false
  | .sending rest => n ≠ .processor ∧ n ∉ rest
  | .joining | .exited => true

/-- The condition on a step: no loop is between its check and a spawn when the flag is stored; the
last message to a role goes to every live worker of it that is not owned and was not told before;
and no worker forks a successor after it. -/
def Supervision.Orderly (s : Supervision) : SupervisionAct → Prop
  | .store => ∀ n, s.checked n = true → (s.role n).pc ≠ .head none
  | .send written => ∀ n rest, s.pc = .sending (n :: rest) → n ≠ .processor →
      ∀ p, (s.role n).runs p = true → s.owned n p = true ∨ s.told n p = true ∨
        written = true ∧ ∃ c, (s.role n).writerConn = some c ∧ c.pid = p
  | .sigterm => ∀ p, (s.role .processor).runs p = true → s.owned .processor p = true ∨
      s.told .processor p = true ∨ (s.role .processor).currentPid = some p ∧ p < 2 ^ 31
  | .role n (.inr (.fork _ _)) => s.pc.past n = false
  | _ => True

/-! ### The invariant -/

/-- A loop that is not past its check goes by the flag, one that is is at its head; once the flag is
stored that one has a handle to take, and every role is reached as soon as its last message is
out. -/
structure Supervision.Inv (s : Supervision) : Prop where
  seen : ∀ n, s.checked n = false → (s.role n).shutdown = s.flag
  flagged : s.pc ≠ .serving → s.flag = true
  atHead : ∀ n, s.checked n = true → (s.role n).pc.atHead = true
  settled : s.flag = true → ∀ n, s.checked n = true → (s.role n).pc ≠ .head none
  reached : ∀ n, s.pc.past n = true → s.Reached n

theorem Supervision.start_inv (boot : ∀ n, Boot n) : (Supervision.start boot).Inv where
  seen _ _ := rfl
  flagged h := absurd rfl h
  atHead _ h := nomatch h
  settled h := nomatch h
  reached _ h := nomatch h

theorem Supervision.tell_self (s : Supervision) (n : RoleName) (p : Pid) :
    (s.tell n p).told n p = true := by
  simp [Supervision.tell]

theorem Supervision.tell_told (s : Supervision) (m n : RoleName) (p q : Pid)
    (h : s.told n q = true) : (s.tell m p).told n q = true := by
  by_cases hn : n = m
  · subst hn
    by_cases hq : q = p
    · subst hq
      exact s.tell_self n q
    · simpa [Supervision.tell, hq] using h
  · simpa [Supervision.tell, hn] using h

/-- What a message leaves as it was. -/
structure Supervision.Same (s t : Supervision) : Prop where
  flag : t.flag = s.flag
  checked : t.checked = s.checked
  owned : t.owned = s.owned
  shutdown : ∀ n, (t.role n).shutdown = (s.role n).shutdown
  pcs : ∀ n, (t.role n).pc = (s.role n).pc
  procs : ∀ n, (t.role n).procs = (s.role n).procs
  told : ∀ n p, s.told n p = true → t.told n p = true

theorem Supervision.same_self (s : Supervision) : s.Same s :=
  ⟨rfl, rfl, rfl, fun _ => rfl, fun _ => rfl, fun _ => rfl, fun _ _ h => h⟩

theorem Supervision.sendShutdown_same (s : Supervision) (n : RoleName) (written : Bool) :
    s.Same (s.sendShutdown n written) := by
  have hrole : ∀ m, (Function.update s.role n (s.role n).takeWriter m).shutdown =
        (s.role m).shutdown ∧
      (Function.update s.role n (s.role n).takeWriter m).pc = (s.role m).pc ∧
      (Function.update s.role n (s.role n).takeWriter m).procs = (s.role m).procs := by
    intro m
    by_cases hm : m = n
    · subst hm
      rw [Function.update_self]
      exact ⟨rfl, rfl, rfl⟩
    · rw [Function.update_of_ne hm]
      exact ⟨rfl, rfl, rfl⟩
  unfold Supervision.sendShutdown
  dsimp only
  split
  · split
    · exact ⟨rfl, rfl, rfl, fun m => (hrole m).1, fun m => (hrole m).2.1,
        fun m => (hrole m).2.2, fun m p h => Supervision.tell_told _ _ _ _ _ h⟩
    · exact ⟨rfl, rfl, rfl, fun m => (hrole m).1, fun m => (hrole m).2.1,
        fun m => (hrole m).2.2, fun _ _ h => h⟩
  · exact ⟨rfl, rfl, rfl, fun m => (hrole m).1, fun m => (hrole m).2.1,
        fun m => (hrole m).2.2, fun _ _ h => h⟩

theorem Supervision.sendSigterm_same (s : Supervision) : s.Same s.sendSigterm := by
  unfold Supervision.sendSigterm
  split
  · split
    · exact ⟨rfl, rfl, rfl, fun _ => rfl, fun _ => rfl, fun _ => rfl,
        fun m p h => s.tell_told _ _ _ _ h⟩
    · exact s.same_self
  · exact s.same_self

theorem Supervision.Same.withPc {s t : Supervision} (h : s.Same t) (pc : ShutdownPc) :
    s.Same { t with pc := pc } :=
  ⟨h.flag, h.checked, h.owned, h.shutdown, h.pcs, h.procs, h.told⟩

theorem Supervision.sendShutdown_pc (s : Supervision) (n : RoleName) (written : Bool) :
    (s.sendShutdown n written).pc = s.pc := by
  unfold Supervision.sendShutdown
  dsimp only
  split
  · split <;> rfl
  · rfl

theorem Supervision.Same.reached {s t : Supervision} (h : s.Same t) (n : RoleName)
    (hn : s.Reached n) : t.Reached n := by
  intro p hp
  rw [Role.runs, h.procs] at hp
  rcases hn p hp with howned | htold
  · exact Or.inl (by rw [h.owned, howned])
  · exact Or.inr (h.told n p htold)

/-- The invariant survives a message, with the role it settles. -/
theorem Supervision.Inv.same {s t : Supervision} (hi : s.Inv) (h : s.Same t)
    (hpc : s.pc = .serving → t.pc = .serving)
    (hpast : ∀ n, t.pc.past n = true → s.pc.past n = true ∨ t.Reached n) : t.Inv where
  seen n hn := by rw [h.shutdown, h.flag, hi.seen n (h.checked ▸ hn)]
  flagged hne := by
    rw [h.flag]
    exact hi.flagged (fun hs => hne (hpc hs))
  atHead n hn := by
    rw [h.pcs]
    exact hi.atHead n (h.checked ▸ hn)
  settled hf n hn := by
    rw [h.pcs]
    exact hi.settled (h.flag ▸ hf) n (h.checked ▸ hn)
  reached n hn := by
    rcases hpast n hn with hold | hnew
    · exact h.reached n (hi.reached n hold)
    · exact hnew

/-! ### Steps of a role -/

theorem Role.step_shutdown {s t : Role} {a : RoleAct} (h : s.step a = some t)
    (ha : a ≠ .inr .shutdown) : t.shutdown = s.shutdown := by
  cases a with
  | inl a =>
    cases Role.supStep_cases h with
    | spawn r hpc hnew => cases r <;> rfl
    | _ => rfl
  | inr a =>
    cases Role.envStep_cases h with
    | shutdown => exact absurd rfl ha
    | _ => rfl

/-- Only the check's own step leads away from the head. -/
theorem Role.step_head {s t : Role} {a : RoleAct} (h : s.step a = some t)
    (hpc : s.pc.atHead = true) (ha : a.isHead = false) : t.pc = s.pc := by
  cases a with
  | inl a =>
    obtain ⟨next, hnext⟩ : ∃ next, s.pc = .head next := by
      cases hs : s.pc with
      | head next => exact ⟨next, rfl⟩
      | _ => simp [hs, RolePc.atHead] at hpc
    cases a with
    | head r => cases ha
    | _ => simp [Role.step, Role.supStep, hnext] at h
  | inr a => exact (Role.envStep_frame h).2.1

theorem Supervision.moved_runs (s : Supervision) (n : RoleName) (a : RoleAct) (r : Role) (p : Pid) :
    ((s.moved n a r).role n).runs p = r.runs p := by
  simp only [Supervision.moved, Function.update_self]
  split <;> rfl

theorem Supervision.moved_other (s : Supervision) (n m : RoleName) (a : RoleAct) (r : Role)
    (hm : m ≠ n) : (s.moved n a r).role m = s.role m ∧ (s.moved n a r).checked m = s.checked m := by
  constructor
  · exact Function.update_of_ne hm _ _
  · simp only [Supervision.moved]
    split
    · exact Function.update_of_ne hm _ _
    · rfl

theorem Supervision.moved_owned (s : Supervision) (n m : RoleName) (a : RoleAct) (r : Role)
    (p : Pid) (h : s.owned m p = true) : (s.moved n a r).owned m p = true := by
  simp only [Supervision.moved]
  split
  · next q =>
    split
    · by_cases hm : m = n
      · subst hm
        by_cases hp : p = q
        · subst hp
          simp
        · simpa [hp] using h
      · simpa [hm] using h
    · exact h
  · exact h

theorem Supervision.moved_spawned (s : Supervision) (n : RoleName) (r : Role) (p : Pid)
    (hnew : (s.role n).procs p = none) (hruns : r.runs p = true) :
    (s.moved n (.inl (.head (some p))) r).owned n p = true := by
  simp [Supervision.moved, hnew, hruns]

/-- A loop that is past its check after a step was so before, and where it was. -/
theorem Supervision.moved_checked {s : Supervision} {n : RoleName} {a : RoleAct} {r : Role}
    (hi : s.Inv) (hr : (s.role n).step a = some r) (m : RoleName)
    (hm : (s.moved n a r).checked m = true) :
    s.checked m = true ∧ ((s.moved n a r).role m).pc = (s.role m).pc := by
  by_cases hmn : m = n
  · subst hmn
    by_cases hhead : a.isHead = true
    · simp [Supervision.moved, hhead] at hm
    · simp only [Supervision.moved, if_neg hhead] at hm ⊢
      rw [Function.update_self]
      exact ⟨hm, Role.step_head hr (hi.atHead m hm) (by simpa using hhead)⟩
  · obtain ⟨hrole, hchecked⟩ := s.moved_other n m a r hmn
    exact ⟨hchecked ▸ hm, by rw [hrole]⟩

theorem Supervision.Inv.role {s : Supervision} {n : RoleName} {a : RoleAct} {r : Role} (hi : s.Inv)
    (hallows : s.allows n a = true) (hfork : ∀ p q, a = .inr (.fork p q) → s.pc.past n = false)
    (hr : (s.role n).step a = some r) : (s.moved n a r).Inv where
  seen m hm := by
    by_cases hmn : m = n
    · subst hmn
      by_cases hhead : a.isHead = true
      · simp [Supervision.moved, hhead]
      · have hne : a ≠ .inr .shutdown := by
          rintro rfl
          cases hallows
        simp only [Supervision.moved, if_neg hhead] at hm ⊢
        rw [Function.update_self, Role.step_shutdown hr hne]
        exact hi.seen m hm
    · obtain ⟨hrole, hchecked⟩ := s.moved_other n m a r hmn
      rw [hrole]
      exact hi.seen m (hchecked ▸ hm)
  flagged := hi.flagged
  atHead m hm := (moved_checked hi hr m hm).2 ▸ hi.atHead m (moved_checked hi hr m hm).1
  settled hf m hm := (moved_checked hi hr m hm).2 ▸ hi.settled hf m (moved_checked hi hr m hm).1
  reached m hm := by
    intro p hp
    by_cases hmn : m = n
    · subst hmn
      rw [s.moved_runs] at hp
      rcases Role.runs_of_step hr p hp with hold | ⟨hnew, rfl | ⟨q, rfl⟩⟩
      · rcases hi.reached m hm p hold with howned | htold
        · exact Or.inl (s.moved_owned m m a r p howned)
        · exact Or.inr htold
      · exact Or.inl (s.moved_spawned m r p hnew hp)
      · exact absurd (hm.symm.trans (hfork q p rfl)) (by simp)
    · rw [(s.moved_other n m a r hmn).1] at hp
      rcases hi.reached m hm p hp with howned | htold
      · exact Or.inl (s.moved_owned n m a r p howned)
      · exact Or.inr htold

/-! ### Steps of the sequence -/

theorem Supervision.sendShutdown_told (s : Supervision) (n : RoleName) (c : Conn)
    (hc : (s.role n).writerConn = some c) : (s.sendShutdown n true).told n c.pid = true := by
  simp only [Supervision.sendShutdown, hc, if_true]
  exact Supervision.tell_self _ _ _

theorem Supervision.sendSigterm_told (s : Supervision) (p : Pid)
    (hp : (s.role .processor).currentPid = some p) (hsize : p < 2 ^ 31) :
    s.sendSigterm.told .processor p = true := by
  simp only [Supervision.sendSigterm, hp, hsize, if_true]
  exact s.tell_self _ _

theorem Supervision.Inv.send {s : Supervision} {written : Bool} {n : RoleName}
    {rest : List RoleName} (hi : s.Inv) (hpc : s.pc = .sending (n :: rest))
    (hg : s.Orderly (.send written)) :
    Supervision.Inv { s.sendShutdown n written with pc := .sending rest } := by
  have hsame := s.sendShutdown_same n written
  refine hi.same (hsame.withPc _) (fun hs => nomatch hpc.symm.trans hs) ?_
  intro m hm
  obtain ⟨hproc, hrest⟩ : m ≠ .processor ∧ m ∉ rest := by
    simpa [ShutdownPc.past] using hm
  by_cases hmn : m = n
  · subst hmn
    refine Or.inr fun p hp => ?_
    have hp' : (s.role m).runs p = true := by
      rw [Role.runs, ← hsame.procs m]
      exact hp
    rcases hg m rest hpc hproc p hp' with howned | htold | ⟨rfl, c, hc, rfl⟩
    · exact Or.inl (hsame.owned ▸ howned)
    · exact Or.inr (hsame.told m p htold)
    · exact Or.inr (s.sendShutdown_told m c hc)
  · refine Or.inl ?_
    rw [hpc]
    simp [ShutdownPc.past, hproc, hmn, hrest]

theorem Supervision.Inv.sigterm {s : Supervision} (hi : s.Inv) (hpc : s.pc = .sending [])
    (hg : s.Orderly .sigterm) : Supervision.Inv { s.sendSigterm with pc := .joining } := by
  have hsame := s.sendSigterm_same
  refine hi.same (hsame.withPc _) (fun hs => nomatch hpc.symm.trans hs) ?_
  intro m hm
  by_cases hmp : m = .processor
  · subst hmp
    refine Or.inr fun p hp => ?_
    have hp' : (s.role .processor).runs p = true := by
      rw [Role.runs, ← hsame.procs]
      exact hp
    rcases hg p hp' with howned | htold | ⟨hcurrent, hsize⟩
    · exact Or.inl (hsame.owned ▸ howned)
    · exact Or.inr (hsame.told _ p htold)
    · exact Or.inr (s.sendSigterm_told p hcurrent hsize)
  · refine Or.inl ?_
    rw [hpc]
    simp [ShutdownPc.past, hmp]

theorem Supervision.Inv.store {s : Supervision} (hi : s.Inv) (hg : s.Orderly .store) :
    Supervision.Inv { s with
      flag := true
      role := fun n => if s.checked n then s.role n else { s.role n with shutdown := true }
      pc := .sending [.plain, .tls, .scanner, .processor] } where
  seen n hn := by
    simp only at hn
    simp only [hn, Bool.false_eq_true, if_false]
  flagged _ := rfl
  atHead n hn := by
    simp only at hn
    simp only [hn, if_true]
    exact hi.atHead n hn
  settled _ n hn := by
    simp only at hn
    simp only [hn, if_true]
    exact hg n hn
  reached n hn := by
    cases n <;> simp [ShutdownPc.past] at hn

theorem Supervision.Inv.step (s : Supervision) (a : SupervisionAct) (t : Supervision) (hi : s.Inv)
    (hg : s.Orderly a) (h : s.step a = some t) : t.Inv := by
  simp only [Supervision.step, Option.ite_none_left_eq_some] at h
  obtain ⟨-, h⟩ := h
  cases a with
  | check n =>
    simp only [Option.ite_none_right_eq_some, Option.some.injEq] at h
    obtain ⟨⟨hhead, hflag⟩, rfl⟩ := h
    have hserving : s.pc = .serving := by
      by_contra hne
      exact absurd (hflag.symm.trans (hi.flagged hne)) (by simp)
    refine ⟨?_, hi.flagged, ?_, fun hf => absurd (hflag.symm.trans hf) (by simp), ?_⟩
    · intro m hm
      by_cases hmn : m = n
      · subst hmn
        simp at hm
      · simp only [Function.update_of_ne hmn] at hm
        exact hi.seen m hm
    · intro m hm
      by_cases hmn : m = n
      · subst hmn
        exact hhead
      · simp only [Function.update_of_ne hmn] at hm
        exact hi.atHead m hm
    · intro m hm
      simp [hserving, ShutdownPc.past] at hm
  | role n a =>
    simp only [Option.ite_none_right_eq_some, Option.map_eq_some_iff] at h
    obtain ⟨hallows, r, hr, rfl⟩ := h
    refine hi.role hallows ?_ hr
    rintro p q rfl
    exact hg
  | adminShutdown n written =>
    cases h
    have hpc := s.sendShutdown_pc n written
    exact hi.same (s.sendShutdown_same n written) (fun hs => hpc.trans hs)
      (fun m hm => Or.inl (hpc ▸ hm))
  | store =>
    simp only [Option.ite_none_right_eq_some, Option.some.injEq] at h
    obtain ⟨-, rfl⟩ := h
    exact hi.store hg
  | send written =>
    dsimp only at h
    split at h
    · next n rest hpc =>
      cases h
      exact hi.send hpc hg
    · cases h
  | sigterm =>
    simp only [Option.ite_none_right_eq_some, Option.some.injEq] at h
    obtain ⟨hpc, rfl⟩ := h
    exact hi.sigterm hpc hg
  | exit =>
    simp only [Option.ite_none_right_eq_some, Option.some.injEq] at h
    obtain ⟨hpc, rfl⟩ := h
    refine hi.same (s.same_self.withPc _) ?_ ?_
    · intro hs
      cases hpc.symm.trans hs
    · intro m _
      rw [hpc]
      exact Or.inl rfl

theorem Supervision.Inv.no_spawn {s : Supervision} (hi : s.Inv) (a : SupervisionAct)
    (hf : s.flag = true) : s.callsSpawnFn a = false := by
  unfold Supervision.callsSpawnFn
  split
  · next n r =>
    cases hc : s.checked n with
    | true => simp [hi.settled hf n hc]
    | false =>
      have hshutdown := hi.seen n hc
      rw [hf] at hshutdown
      simp [hshutdown]
  · rfl

/-- In every run that keeps to the condition, `spawn_fn` is not called once the flag is stored, and
at the exit every live worker has been told or is killed on drop. -/
theorem shutdown_reaches (boot : ∀ n, Boot n) (as : List SupervisionAct) (s : Supervision)
    (hrun : exec Supervision.step (.start boot) as = some s)
    (horderly : Along Supervision.step Supervision.Orderly (.start boot) as) :
    Along Supervision.step (fun s a => s.flag = true → s.callsSpawnFn a = false) (.start boot) as ∧
    (s.pc = .exited → ∀ n, s.Reached n) := by
  constructor
  · exact along_of_invariant Supervision.Inv.step (fun s a hi _ => hi.no_spawn a) _ as
      (Supervision.start_inv boot) horderly
  · intro hexited n
    have hi := exec_along Supervision.Inv.step _ s as (Supervision.start_inv boot) horderly hrun
    exact hi.reached n (by rw [hexited]; rfl)

/-- A processor 5 and a plain acceptor 7, both taken over. -/
def twoAdopted : ∀ n, Boot n
  | .processor => .single _ 5
  | .plain => .single _ 7
  | n => .cold n

def shutdownSequence : List SupervisionAct :=
  [.store, .send true, .send true, .send true, .send true, .sigterm, .exit]

def adoptedAndConnected : List SupervisionAct :=
  [.check .processor, .role .processor (.inl (.head none)), .role .plain (.inr (.accept 7))]

theorem shutdown_reaches_adopted :
    ∃ s, exec Supervision.step (.start twoAdopted) (adoptedAndConnected ++ shutdownSequence) =
        some s ∧
      s.pc = .exited ∧ (s.role .plain).runs 7 = true ∧ (s.role .processor).runs 5 = true ∧
      ∀ n, s.Reached n := by
  have hrun : ∃ s, exec Supervision.step (.start twoAdopted)
      (adoptedAndConnected ++ shutdownSequence) = some s ∧ s.pc = .exited ∧
      (s.role .plain).runs 7 = true ∧ (s.role .processor).runs 5 = true :=
    ⟨_, rfl, rfl, rfl, rfl⟩
  obtain ⟨s, hrun, hexited, h7, h5⟩ := hrun
  refine ⟨s, hrun, hexited, h7, h5, (shutdown_reaches twoAdopted _ s hrun ?_).2 hexited⟩
  -- the store, the sends and the signal are the steps the condition looks at
  refine ⟨trivial, fun t ht => ?_⟩
  cases ht
  refine ⟨trivial, fun t ht => ?_⟩
  cases ht
  refine ⟨trivial, fun t ht => ?_⟩
  cases ht
  refine ⟨?_, fun t ht => ?_⟩
  · intro n hn
    cases n <;> cases hn
  cases ht
  refine ⟨?_, fun t ht => ?_⟩
  · intro n rest hpc _ p hp
    cases hpc
    exact Or.inr (Or.inr ⟨rfl, ⟨1, 7, 0⟩, rfl, (Boot.single_runs hp).symm⟩)
  cases ht
  refine ⟨?_, fun t ht => ?_⟩
  · intro n rest hpc _ p hp
    cases hpc
    cases hp
  cases ht
  refine ⟨?_, fun t ht => ?_⟩
  · intro n rest hpc _ p hp
    cases hpc
    cases hp
  cases ht
  refine ⟨?_, fun t ht => ?_⟩
  · intro n rest hpc hne
    cases hpc
    exact absurd rfl hne
  cases ht
  refine ⟨?_, fun t _ => ⟨trivial, fun _ _ => trivial⟩⟩
  intro p hp
  have hp5 : p = 5 := Boot.single_runs hp
  subst hp5
  exact Or.inr (Or.inr ⟨rfl, by decide⟩)

/-- An adopted acceptor without a control connection is sent nothing, and a loop that read the flag
before it was stored spawns a worker after it. -/
theorem shutdown_misses_worker :
    (∃ s, exec Supervision.step (.start twoAdopted) shutdownSequence = some s ∧ s.pc = .exited ∧
      (s.role .plain).runs 7 = true ∧ s.owned .plain 7 = false ∧ s.told .plain 7 = false) ∧
    ∃ s t, exec Supervision.step (.start twoAdopted) [.check .tls, .store] = some s ∧
      s.flag = true ∧ s.step (.role .tls (.inl (.head (some 9)))) = some t ∧
      (s.role .tls).runs 9 = false ∧ (t.role .tls).runs 9 = true := by
  exact ⟨⟨_, rfl, rfl, rfl, rfl, rfl⟩, ⟨_, _, rfl, rfl, rfl, rfl, rfl⟩⟩

end FiveNinesEcho.Supervisor
