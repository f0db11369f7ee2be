import FiveNinesEcho.Supervisor.SelfUpgrade

/-!
# What a self-upgrade hands over (`supervisor.rs:126-152`, `self_upgrade.rs:104-123`)

A role's pid and generation are read from two places, at two times: `current_pid`, which is empty
between a worker and its successor, and the link's `last_generation`, which is empty until somebody
has asked the worker, in every supervisor anew. Nothing falls back to the generation the loop knows.
-/

namespace FiveNinesEcho.Supervisor
open Lib Handoff

/-! ### Live workers -/

def Role.live (s : Role) (p : Pid) : Prop := ∃ gen, s.procs p = some ⟨gen, none⟩

/-- If the role has a live worker, then that pid is one, at that generation. -/
def Role.Names (s : Role) (pid : Option Pid) (gen : ℕ) : Prop :=
  (∃ p, s.live p) → ∃ p, pid = some p ∧ s.procs p = some ⟨gen, none⟩

/-- A step that leaves the recorded worker alone: it does not exit or `exec`, and nothing is spawned
unless it is alive. -/
def Role.Undisturbed (s : Role) (pid : Option Pid) : RoleAct → Prop
  | .inl (.head (some _)) => ∃ p, pid = some p ∧ s.live p
  | .inr (.exit p _) => pid ≠ some p
  | .inr (.reexec p) => pid ≠ some p
  | _ => True

theorem Role.Names.of_update {s : Role} {pid : Option Pid} {gen : ℕ} (hs : s.Names pid gen)
    (hlive : ∃ p, s.live p) {t : Role} (q : Pid) (pr : Option Proc) (hq : pid ≠ some q)
    (ht : t.procs = Function.update s.procs q pr) : t.Names pid gen := by
  intro _
  obtain ⟨p, hpid, hp⟩ := hs hlive
  refine ⟨p, hpid, ?_⟩
  have hne : p ≠ q := by
    rintro rfl
    exact hq hpid
  rw [ht, Function.update_of_ne hne, hp]

theorem Role.step_names {s t : Role} {a : RoleAct} {pid : Option Pid} {gen : ℕ}
    (hs : s.Names pid gen) (hu : s.Undisturbed pid a) (h : s.step a = some t) :
    t.Names pid gen := by
  have hmove := Role.step_procs h
  generalize hprocs : t.procs = procs at hmove
  -- a new process cannot have the recorded worker's pid
  have hold : ∀ q, s.procs q = none → (∃ p, s.live p) → pid ≠ some q := by
    rintro q hq hlive rfl
    obtain ⟨p, hp, hproc⟩ := hs hlive
    cases hp
    rw [hq] at hproc
    cases hproc
  cases hmove with
  | same =>
    simp only [Role.Names, Role.live, hprocs]
    exact hs
  | spawn p hp =>
    obtain ⟨q, -, hq⟩ := hu
    exact hs.of_update ⟨q, hq⟩ p _ (hold p hp ⟨q, hq⟩) hprocs
  | fork p q g hp hq => exact hs.of_update ⟨p, g, hp⟩ q _ (hold q hq ⟨p, g, hp⟩) hprocs
  | reexec p g hp => exact hs.of_update ⟨p, g, hp⟩ p _ hu hprocs
  | exit p g st hp => exact hs.of_update ⟨p, g, hp⟩ p _ hu hprocs

/-! ### Sizes -/

structure Role.Fit (s : Role) : Prop where
  procs : ∀ p pr, s.procs p = some pr → p < 2 ^ 32 ∧ pr.gen < 2 ^ 64
  told : ∀ g, s.link.lastGeneration = some g → g < 2 ^ 64

theorem Role.step_lastGeneration {s t : Role} {a : RoleAct} (h : s.step a = some t) :
    t.link.lastGeneration = s.link.lastGeneration ∨ t.link.lastGeneration = none ∨
      ∃ c st, a = .inr (.report c st) ∧ t.link.lastGeneration = some st.generation := by
  cases a with
  | inl a =>
    obtain ⟨-, hlink, -⟩ := (Role.supStep_cases h).frame
    exact Or.inl (by rw [hlink])
  | inr a =>
    cases a with
    | fork p q =>
      obtain ⟨gen, -, -, -, rfl⟩ := Role.fork_cases h
      exact Or.inl rfl
    | reexec p =>
      obtain ⟨gen, -, -, rfl⟩ := Role.reexec_cases h
      exact Or.inl rfl
    | exit p st =>
      obtain ⟨gen, -, -, rfl⟩ := Role.exit_cases h
      exact Or.inl rfl
    | accept p =>
      obtain ⟨pr, -, rfl⟩ := Role.accept_cases h
      exact Or.inl rfl
    | report c st =>
      obtain ⟨-, rfl⟩ := Role.report_cases h
      exact Or.inr (Or.inr ⟨c, st, rfl, rfl⟩)
    | disconnect c =>
      obtain ⟨-, rfl⟩ := Role.disconnect_cases h
      simp only [WorkerLink.disconnect]
      split
      · exact Or.inr (Or.inl rfl)
      · exact Or.inl rfl
    | query i =>
      obtain ⟨-, rfl⟩ := Role.query_cases h
      exact Or.inl rfl
    | shutdown | elapse d | giveUp | takeWriter =>
      cases h
      exact Or.inl rfl

theorem Role.step_fit {s t : Role} {a : RoleAct} (hs : s.Fit) (ha : s.fits a = true)
    (h : s.step a = some t) : t.Fit := by
  constructor
  · have hmove := Role.step_procs h
    generalize t.procs = procs at hmove
    have hupdate : ∀ q pr', (q < 2 ^ 32 ∧ pr'.gen < 2 ^ 64) → ∀ p pr,
        Function.update s.procs q (some pr') p = some pr → p < 2 ^ 32 ∧ pr.gen < 2 ^ 64 := by
      intro q pr' hfit p pr hp
      by_cases hpq : p = q
      · subst hpq
        rw [Function.update_self] at hp
        cases hp
        exact hfit
      · rw [Function.update_of_ne hpq] at hp
        exact hs.procs p pr hp
    cases hmove with
    | same => exact hs.procs
    | spawn p hp =>
      have hsize : p < 2 ^ 32 := by simpa [Role.fits] using ha
      exact hupdate p _ ⟨hsize, Nat.two_pow_pos 64⟩
    | fork p q g hp hq =>
      have hsize : q < 2 ^ 32 ∧ g + 1 < 2 ^ 64 := by simpa [Role.fits, Role.genOf, hp] using ha
      exact hupdate q _ hsize
    | reexec p g hp =>
      have hsize : g + 1 < 2 ^ 64 := by simpa [Role.fits, Role.genOf, hp] using ha
      exact hupdate p _ ⟨(hs.procs p _ hp).1, hsize⟩
    | exit p g st hp => exact hupdate p ⟨g, some st⟩ (hs.procs p ⟨g, none⟩ hp)
  · intro g hg
    rcases Role.step_lastGeneration h with hsame | hnone | ⟨c, st, rfl, hst⟩
    · exact hs.told g (hsame ▸ hg)
    · rw [hnone] at hg
      cases hg
    · rw [hst] at hg
      cases hg
      simpa [Role.fits] using ha

/-! ### Every handover -/

/-- The pid recorded for a role so far. -/
def HandoverPc.recorded (pc : HandoverPc) (n : RoleName) : Option (Option Pid) :=
  match pc with
  | .pids left pid => if n ∈ left then none else some (pid n)
  | .gens _ st => some (st.pid n)
  | .spawned env => some ((AdoptedState.ofEnv env).pid n)
  | _ => none

/-- At the read of a pid, `current_pid` names a live worker if there is one; at the read of a link,
it has told the recorded worker's generation (or nothing, at generation 0); from the one read to the
rebuild the recorded worker is left alone. -/
def SelfUpgrade.Undisturbed (s : SelfUpgrade) : SelfUpgradeAct → Prop
  | .role n a => ∀ pid ∈ s.pc.recorded n, (s.roles n).Undisturbed pid a
  | .readPid => ∀ n left pid, s.pc = .pids (n :: left) pid →
    ∃ gen, (s.roles n).Names (s.roles n).currentPid gen
  | .readGen => ∀ n left st, s.pc = .gens (n :: left) st →
    (s.roles n).Names (st.pid n) ((s.roles n).link.lastGeneration.getD 0)
  | _ => True

/-- What the candidate rebuilds names each role's live worker and its generation. -/
def SelfUpgrade.Carries (s : SelfUpgrade) (a : SelfUpgradeAct) : Prop :=
  a = .boot → ∀ env, s.pc = .spawned env → ∀ n,
    (s.roles n).Names ((AdoptedState.ofEnv env).pid n) ((AdoptedState.ofEnv env).gen n)

/-- What is recorded so far names the live workers. -/
def HandoverPc.Right (pc : HandoverPc) (roles : Roles) : Prop :=
  match pc with
  | .pids left pid => left.Nodup ∧ ∀ n, n ∉ left → ∃ gen, (roles n).Names (pid n) gen
  | .gens left st => left.Nodup ∧ (∀ n, ∃ gen, (roles n).Names (st.pid n) gen) ∧
    ∀ n, n ∉ left → (roles n).Names (st.pid n) (st.gen n)
  | .spawned env => ∀ n,
    (roles n).Names ((AdoptedState.ofEnv env).pid n) ((AdoptedState.ofEnv env).gen n)
  | _ => True

structure SelfUpgrade.Fit (s : SelfUpgrade) : Prop where
  roles : ∀ n, (s.roles n).Fit
  candidate : ∀ c, s.pc = .overlapping c → ∀ n, (c n).Fit

theorem Role.Fit.share {s r : Role} (hs : s.Fit) (hr : r.Fit) : (s.share r).Fit :=
  ⟨hr.procs, hs.told⟩

theorem Role.Fit.rebuilt {s : Role} (hs : s.Fit) (pid : Option Pid) (gen : ℕ) :
    (s.rebuilt pid gen).Fit :=
  ⟨hs.procs, by simp [Role.rebuilt, WorkerLink.default]⟩

theorem SelfUpgrade.role_fit {s t : SelfUpgrade} {n : RoleName} {a : RoleAct} (hs : s.Fit)
    (h : s.step (.role n a) = some t) : t.Fit := by
  obtain ⟨r, hfits, hr, rfl⟩ := SelfUpgrade.role_cases h
  have hfit := Role.step_fit (hs.roles n) hfits hr
  constructor
  · apply (Function.forall_update_iff s.roles fun _ r => r.Fit).mpr
    exact ⟨hfit, fun m _ => hs.roles m⟩
  · intro c hc
    cases hpc : s.pc with
    | overlapping c₀ =>
      simp only [hpc, HandoverPc.share, HandoverPc.overlapping.injEq] at hc
      subst hc
      apply (Function.forall_update_iff c₀ fun _ r => r.Fit).mpr
      exact ⟨(hs.candidate c₀ hpc n).share hfit, fun m _ => hs.candidate c₀ hpc m⟩
    | _ => simp [hpc, HandoverPc.share] at hc

theorem SelfUpgrade.candidate_fit {s t : SelfUpgrade} {n : RoleName} {a : RoleAct} (hs : s.Fit)
    (h : s.step (.candidate n a) = some t) : t.Fit := by
  obtain ⟨c, r, hpc, -, hfits, hr, rfl⟩ := SelfUpgrade.candidate_cases h
  have hfit := Role.step_fit (hs.candidate c hpc n) hfits hr
  constructor
  · apply (Function.forall_update_iff s.roles fun _ r => r.Fit).mpr
    exact ⟨(hs.roles n).share hfit, fun m _ => hs.roles m⟩
  · intro c' hc'
    cases hc'
    apply (Function.forall_update_iff c fun _ r => r.Fit).mpr
    exact ⟨hfit, fun m _ => hs.candidate c hpc m⟩

theorem SelfUpgrade.step_fit (s : SelfUpgrade) (a : SelfUpgradeAct) (t : SelfUpgrade) (hs : s.Fit)
    (h : s.step a = some t) : t.Fit := by
  cases a with
  | role n a => exact SelfUpgrade.role_fit hs h
  | candidate n a => exact SelfUpgrade.candidate_fit hs h
  | boot =>
    simp only [SelfUpgrade.step] at h
    split at h
    · cases h
      refine ⟨hs.roles, ?_⟩
      intro c hc
      cases hc
      exact fun n => (hs.roles n).rebuilt _ _
    · cases h
  | commit =>
    simp only [SelfUpgrade.step] at h
    split at h
    · next c hpc =>
      cases h
      exact ⟨hs.candidate c hpc, by simp⟩
    · cases h
  | sighup | readPid | readGen | spawn | rollback =>
    simp only [SelfUpgrade.step] at h
    split at h <;> cases h <;> exact ⟨hs.roles, by simp⟩

/-- The recorded workers are named still after an undisturbed step of one role. -/
theorem HandoverPc.Right.role {s : SelfUpgrade} {n : RoleName} {a : RoleAct} {r : Role}
    (hs : s.pc.Right s.roles) (hu : ∀ pid ∈ s.pc.recorded n, (s.roles n).Undisturbed pid a)
    (h : (s.roles n).step a = some r) :
    (s.pc.share n r).Right (Function.update s.roles n r) := by
  have hkeep : ∀ m pid gen, (m = n → pid ∈ s.pc.recorded n) → (s.roles m).Names pid gen →
      (Function.update s.roles n r m).Names pid gen := by
    intro m pid gen hrec hnames
    by_cases hm : m = n
    · subst hm
      rw [Function.update_self]
      exact Role.step_names hnames (hu pid (hrec rfl)) h
    · rw [Function.update_of_ne hm]
      exact hnames
  cases hpc : s.pc with
  | idle => trivial
  | overlapping c => trivial
  | pids left pid =>
    rw [hpc] at hs hkeep
    refine ⟨hs.1, ?_⟩
    intro m hm
    obtain ⟨gen, hgen⟩ := hs.2 m hm
    refine ⟨gen, hkeep m _ gen ?_ hgen⟩
    rintro rfl
    simp [HandoverPc.recorded, hm]
  | gens left st =>
    rw [hpc] at hs hkeep
    have hrec : ∀ m, m = n → st.pid m ∈ (HandoverPc.gens left st).recorded n := by
      rintro m rfl
      rfl
    refine ⟨hs.1, ?_, ?_⟩
    · intro m
      obtain ⟨gen, hgen⟩ := hs.2.1 m
      exact ⟨gen, hkeep m _ gen (hrec m) hgen⟩
    · intro m hm
      exact hkeep m _ _ (hrec m) (hs.2.2 m hm)
  | spawned env =>
    rw [hpc] at hs hkeep
    intro m
    apply hkeep m _ _ ?_ (hs m)
    rintro rfl
    rfl

/-- The environment loses nothing that is there. -/
theorem Role.Names.ofEnv {s : Role} {st : AdoptedState} {n : RoleName} (hfit : s.Fit)
    (h : s.Names (st.pid n) (st.gen n)) :
    s.Names ((AdoptedState.ofEnv st.toEnv).pid n) ((AdoptedState.ofEnv st.toEnv).gen n) := by
  intro hlive
  obtain ⟨p, hpid, hp⟩ := h hlive
  obtain ⟨hsize, hgen⟩ := hfit.procs p _ hp
  obtain ⟨hpid', hgen'⟩ := st.ofEnv_toEnv n
  rw [hpid', hgen', hpid]
  exact ⟨p, by simpa [Option.filter] using hsize, by rw [if_pos ⟨rfl, hgen⟩]; exact hp⟩

/-- A handover with nothing in between, up to the start of the candidate. -/
def swiftHandover : List SelfUpgradeAct :=
  [.sighup, .readPid, .readPid, .readPid, .readPid, .readPid, .readGen, .readGen, .readGen,
    .readGen, .spawn]

def SelfUpgrade.snapshot (s : SelfUpgrade) : AdoptedState :=
  ⟨fun n => (s.roles n).currentPid, fun n => (s.roles n).link.lastGeneration.getD 0⟩

theorem SelfUpgrade.swift_snapshot {s : SelfUpgrade} (hpc : s.pc = .idle) :
    exec SelfUpgrade.step s swiftHandover =
      some { s with pc := .spawned s.snapshot.toEnv } := by
  have hpid : ∀ f : RoleName → Option Pid,
      Function.update (Function.update (Function.update (Function.update (fun _ => none)
        .processor (f .processor)) .plain (f .plain)) .tls (f .tls)) .scanner (f .scanner) = f := by
    intro f
    funext n
    cases n <;> simp
  have hgen : ∀ f : RoleName → ℕ,
      Function.update (Function.update (Function.update (Function.update (fun _ => 0)
        .processor (f .processor)) .plain (f .plain)) .tls (f .tls)) .scanner (f .scanner) = f := by
    intro f
    funext n
    cases n <;> simp
  simp only [swiftHandover, exec, SelfUpgrade.step, hpc, allRoles]
  rw [hpid fun n => (s.roles n).currentPid,
    hgen fun n => (s.roles n).link.lastGeneration.getD 0]
  rfl

/-- The candidate's loops after a handover with nothing in between. -/
def SelfUpgrade.handedOver (s : SelfUpgrade) : Roles := fun n =>
  (s.roles n).rebuilt ((s.roles n).currentPid.filter (· < 2 ^ 32))
    (if (s.roles n).currentPid.isSome ∧ (s.roles n).link.lastGeneration.getD 0 < 2 ^ 64 then
      (s.roles n).link.lastGeneration.getD 0 else 0)

theorem SelfUpgrade.swift_boot {s : SelfUpgrade} (hpc : s.pc = .idle) :
    exec SelfUpgrade.step s (swiftHandover ++ [.boot]) =
      some { s with pc := .overlapping s.handedOver } := by
  apply exec_append _ _ _ _ _ (SelfUpgrade.swift_snapshot hpc)
  simp only [exec, SelfUpgrade.step, Option.some.injEq, SelfUpgrade.mk.injEq,
    HandoverPc.overlapping.injEq, true_and]
  funext n
  obtain ⟨hpid, hgen⟩ := s.snapshot.ofEnv_toEnv n
  rw [hpid, hgen]
  rfl

end FiveNinesEcho.Supervisor
