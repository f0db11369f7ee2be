import FiveNinesEcho.Supervisor.Walk

/-!
# What a rolling upgrade tells its caller (`supervisor/admin.rs:53-256`)

The traces a walk can have, as a grammar over its targets: `Passed` for the targets that are done,
`Running` for a walk under way, `Ended` for one that returned. Everything said of the frames follows
from the grammar.
-/

namespace FiveNinesEcho.Supervisor
open Lib

/-! ### The grammar -/

section Grammar
variable (path : Option String)

def started (role : RoleName) (preGen polls : ℕ) : List WalkEvent :=
  .status role :: .notify (.upgradeStep (startingStep role preGen)) :: .upgrade role path ::
    List.replicate polls (.status role)

/-- The targets so far have all been upgraded, each to a newer generation. -/
inductive Passed : List RoleName → List WalkEvent → Prop where
  | nil : Passed [] []
  | role (done : List RoleName) (tr : List WalkEvent) (role : RoleName) (preGen gen polls : ℕ)
      (hdone : Passed done tr) (hgen : preGen < gen) :
      Passed (done ++ [role])
        (tr ++ started path role preGen polls ++ [.notify (.upgradeStep (doneStep role preGen gen))])

variable (targets : List RoleName)

inductive Running (canary : Bool) : WalkPc → List WalkEvent → Prop where
  | target (done rest : List RoleName) (tr : List WalkEvent) (hsplit : targets = done ++ rest)
      (hdone : Passed path done tr) : Running canary (.target rest) tr
  | asking (done rest : List RoleName) (tr : List WalkEvent) (role : RoleName)
      (baseline : HealthState) (hsplit : targets = done ++ role :: rest)
      (hdone : Passed path done tr) :
      Running canary (.asking role rest baseline) (tr ++ [.status role])
  | polling (done rest : List RoleName) (tr : List WalkEvent) (role : RoleName)
      (baseline : HealthState) (preGen deadline wake polls : ℕ)
      (hsplit : targets = done ++ role :: rest) (hdone : Passed path done tr) :
      Running canary (.polling role rest baseline preGen deadline wake)
        (tr ++ started path role preGen polls)
  | querying (done rest : List RoleName) (tr : List WalkEvent) (role : RoleName)
      (baseline : HealthState) (preGen deadline polls : ℕ)
      (hsplit : targets = done ++ role :: rest) (hdone : Passed path done tr) :
      Running canary (.querying role rest baseline preGen deadline)
        (tr ++ started path role preGen polls)
  | watching (done rest : List RoleName) (tr : List WalkEvent) (role : RoleName)
      (baseline : HealthState) (deadline : ℕ) (hcanary : canary = true)
      (hsplit : targets = done ++ role :: rest) (hdone : Passed path (done ++ [role]) tr) :
      Running canary (.watching role rest baseline deadline) tr
  | napping (done rest : List RoleName) (tr : List WalkEvent) (role : RoleName)
      (baseline : HealthState) (deadline wake : ℕ) (hcanary : canary = true)
      (hsplit : targets = done ++ role :: rest) (hdone : Passed path (done ++ [role]) tr) :
      Running canary (.napping role rest baseline deadline wake) tr

/-- A prefix of the targets is done; either it is all of them, or the next one is skipped or times
out, or the last one is aborted by the canary. -/
inductive Ended (canary : Bool) : List WalkEvent → Bool → Prop where
  | complete (tr : List WalkEvent) (hdone : Passed path targets tr) :
      Ended canary (tr ++ [.notify (.upgradeComplete true)]) true
  | skipped (done rest : List RoleName) (tr : List WalkEvent) (role : RoleName)
      (hsplit : targets = done ++ role :: rest) (hdone : Passed path done tr) :
      Ended canary (tr ++ [.status role, .notify (.upgradeStep (skippedStep role)),
        .notify (.upgradeComplete false)]) false
  | timeout (done rest : List RoleName) (tr : List WalkEvent) (role : RoleName)
      (preGen polls : ℕ) (hsplit : targets = done ++ role :: rest) (hdone : Passed path done tr) :
      Ended canary (tr ++ (started path role preGen polls ++
        [.notify (.upgradeStep (timeoutStep role preGen)),
          .notify (.upgradeComplete false)])) false
  | aborted (done rest : List RoleName) (tr : List WalkEvent) (role : RoleName)
      (state : HealthState) (hcanary : canary = true) (hsplit : targets = done ++ role :: rest)
      (hdone : Passed path (done ++ [role]) tr) :
      Ended canary (tr ++ [.notify (.upgradeStep (canaryAbortedStep role state)),
        .notify (.upgradeComplete false)]) false

end Grammar

/-! ### Every walk follows it -/

def Walk.canary (w : Walk) : Bool := w.req.canarySecs.isSome

structure Walk.Inv (w : Walk) : Prop where
  idle : w.pc = .idle → w.trace = []
  rejected : w.pc = .rejected → w.trace = [.notify (.upgradeComplete false)]
  running : w.pc.active = true →
    ∃ roles, w.req.targets = some roles ∧ Running w.req.binaryPath roles w.canary w.pc w.trace
  ended : ∀ allOk, w.pc = .finished allOk →
    ∃ roles, w.req.targets = some roles ∧ Ended w.req.binaryPath roles w.canary w.trace allOk

theorem Walk.emit_inv (w : Walk) (events : List WalkEvent) (pc : WalkPc) (roles : List RoleName)
    (htargets : w.req.targets = some roles) (hpc : pc.active = true)
    (h : Running w.req.binaryPath roles w.canary pc (w.trace ++ events)) :
    (w.emit events pc).Inv := by
  refine ⟨?_, ?_, fun _ => ⟨roles, htargets, h⟩, ?_⟩
  · rintro rfl
    cases hpc
  · rintro rfl
    cases hpc
  · rintro allOk rfl
    cases hpc

theorem Walk.complete_inv (w : Walk) (events : List WalkEvent) (allOk : Bool)
    (roles : List RoleName) (htargets : w.req.targets = some roles)
    (h : Ended w.req.binaryPath roles w.canary
      (w.trace ++ (events ++ [.notify (.upgradeComplete allOk)])) allOk) :
    (w.complete events allOk).Inv := by
  refine ⟨by simp [Walk.complete, Walk.emit], by simp [Walk.complete, Walk.emit],
    by simp [Walk.complete, Walk.emit, WalkPc.active], ?_⟩
  intro ok hok
  have heq : allOk = ok := by simpa [Walk.complete, Walk.emit] using hok
  subst heq
  exact ⟨roles, htargets, h⟩

theorem started_succ (path : Option String) (role : RoleName) (preGen polls : ℕ) :
    started path role preGen polls ++ [.status role] = started path role preGen (polls + 1) := by
  simp [started, List.replicate_succ']

theorem Walk.Inv.at {w : Walk} (hw : w.Inv) {pc : WalkPc} (hpc : w.pc = pc)
    (h : pc.active = true) :
    ∃ roles tr, w.req.targets = some roles ∧ w.trace = tr ∧
      Running w.req.binaryPath roles w.canary pc tr := by
  subst hpc
  obtain ⟨roles, htargets, hrun⟩ := hw.running h
  exact ⟨roles, w.trace, htargets, rfl, hrun⟩

theorem Walk.begin_inv {w w' : Walk} {now : ℕ} {free : Bool} (hw : w.Inv)
    (h : w.step now free .begin = some w') : w'.Inv := by
  unfold Walk.step at h
  split at h
  case h_1 hpc =>
    have hnone := hw.idle hpc
    split at h
    · next roles htargets =>
      cases h
      apply w.emit_inv [] _ roles htargets rfl
      rw [hnone]
      exact .target [] roles [] rfl .nil
    · cases h
      refine ⟨by simp [Walk.emit], ?_, by simp [Walk.emit, WalkPc.active], by simp [Walk.emit]⟩
      intro _
      simp [Walk.emit, hnone]
  all_goals simp_all

theorem Walk.next_inv {w w' : Walk} {now : ℕ} {free : Bool} {baseline : HealthState} (hw : w.Inv)
    (h : w.step now free (.next baseline) = some w') : w'.Inv := by
  unfold Walk.step at h
  split at h
  case h_2 b _ hpc =>
    cases h
    obtain ⟨roles, tr₀, htargets, htr, hrun⟩ := hw.at hpc rfl
    apply w.complete_inv [] true roles htargets
    cases hrun with
    | target done rest tr hsplit hdone =>
      rw [List.append_nil] at hsplit
      subst hsplit
      rw [htr]
      exact .complete _ hdone
  case h_3 b role rest _ hpc =>
    cases h
    obtain ⟨roles, tr₀, htargets, htr, hrun⟩ := hw.at hpc rfl
    apply w.emit_inv _ _ roles htargets rfl
    cases hrun with
    | target done rest tr hsplit hdone =>
      rw [htr]
      exact .asking done rest _ role _ hsplit hdone
  all_goals simp_all

theorem Walk.preStatus_inv {w w' : Walk} {now : ℕ} {free : Bool} {answer : Option WorkerStatus}
    (hw : w.Inv) (h : w.step now free (.preStatus answer) = some w') : w'.Inv := by
  unfold Walk.step at h
  split at h
  case h_4 role rest baseline _ hpc =>
    cases h
    obtain ⟨roles, tr₀, htargets, htr, hrun⟩ := hw.at hpc rfl
    apply w.complete_inv _ false roles htargets
    cases hrun with
    | asking done rest tr role baseline hsplit hdone =>
      rw [htr, List.append_assoc]
      exact .skipped done rest tr role hsplit hdone
  case h_5 pre role rest baseline _ hpc =>
    cases h
    obtain ⟨roles, tr₀, htargets, htr, hrun⟩ := hw.at hpc rfl
    apply w.emit_inv _ _ roles htargets rfl
    cases hrun with
    | asking done rest tr role baseline hsplit hdone =>
      rw [htr, List.append_assoc]
      exact .polling done rest tr role baseline pre.generation _ _ 0 hsplit hdone
  all_goals simp_all

theorem Walk.poll_inv {w w' : Walk} {now : ℕ} {free : Bool} (hw : w.Inv)
    (h : w.step now free .poll = some w') : w'.Inv := by
  unfold Walk.step at h
  split at h
  case h_6 role rest baseline preGen deadline wake _ hpc =>
    simp only [Option.ite_none_right_eq_some] at h
    obtain ⟨-, h⟩ := h
    obtain ⟨roles, tr₀, htargets, htr, hrun⟩ := hw.at hpc rfl
    split at h
    · cases h
      apply w.complete_inv _ false roles htargets
      cases hrun with
      | polling done rest tr role baseline preGen deadline wake polls hsplit hdone =>
        rw [htr, List.append_assoc]
        exact .timeout done rest tr role preGen polls hsplit hdone
    · cases h
      apply w.emit_inv _ _ roles htargets rfl
      cases hrun with
      | polling done rest tr role baseline preGen deadline wake polls hsplit hdone =>
        rw [htr, List.append_assoc, started_succ]
        exact .querying done rest tr role baseline preGen deadline (polls + 1) hsplit hdone
  all_goals simp_all

theorem Walk.status_inv {w w' : Walk} {now : ℕ} {free : Bool} {answer : Option WorkerStatus}
    (hw : w.Inv) (h : w.step now free (.status answer) = some w') : w'.Inv := by
  unfold Walk.step at h
  split at h
  case h_7 answer role rest baseline preGen deadline _ hpc =>
    obtain ⟨roles, tr₀, htargets, htr, hrun⟩ := hw.at hpc rfl
    split at h
    · next st hst =>
      obtain ⟨-, hgen⟩ := Option.filter_eq_some_iff.mp hst
      simp only [decide_eq_true_eq] at hgen
      cases h
      cases hrun with
      | querying done rest tr role baseline preGen deadline polls hsplit hdone =>
        have hpassed := Passed.role done tr role preGen st.generation polls hdone hgen
        cases hcanary : w.req.canarySecs with
        | some secs =>
          apply w.emit_inv _ _ roles htargets rfl
          rw [htr]
          exact .watching done rest _ role baseline _ (by simp [Walk.canary, hcanary]) hsplit
            hpassed
        | none =>
          apply w.emit_inv _ _ roles htargets rfl
          rw [htr]
          exact .target (done ++ [role]) rest _ (by simpa using hsplit) hpassed
    · cases h
      apply w.emit_inv _ _ roles htargets rfl
      cases hrun with
      | querying done rest tr role baseline preGen deadline polls hsplit hdone =>
        rw [htr, List.append_nil]
        exact .polling done rest tr role baseline preGen deadline _ polls hsplit hdone
  all_goals simp_all

theorem Walk.observe_inv {w w' : Walk} {now : ℕ} {free : Bool} (hw : w.Inv)
    (h : w.step now free .observe = some w') : w'.Inv := by
  unfold Walk.step at h
  split at h
  case h_8 role rest baseline deadline _ hpc =>
    cases h
    obtain ⟨roles, tr₀, htargets, htr, hrun⟩ := hw.at hpc rfl
    cases hrun with
    | watching done rest tr role baseline deadline hcanary hsplit hdone =>
      by_cases hlate : now < deadline
      · rw [if_pos hlate]
        apply w.emit_inv _ _ roles htargets rfl
        rw [htr, List.append_nil]
        exact .napping done rest _ role baseline deadline _ hcanary hsplit hdone
      · rw [if_neg hlate]
        apply w.emit_inv _ _ roles htargets rfl
        rw [htr, List.append_nil]
        exact .target (done ++ [role]) rest _ (by simpa using hsplit) hdone
  all_goals simp_all

theorem Walk.look_inv {w w' : Walk} {now : ℕ} {free : Bool} {state : HealthState} (hw : w.Inv)
    (h : w.step now free (.look state) = some w') : w'.Inv := by
  unfold Walk.step at h
  split at h
  case h_9 state role rest baseline deadline wake _ hpc =>
    simp only [Option.ite_none_right_eq_some] at h
    obtain ⟨-, h⟩ := h
    obtain ⟨roles, tr₀, htargets, htr, hrun⟩ := hw.at hpc rfl
    cases hrun with
    | napping done rest tr role baseline deadline wake hcanary hsplit hdone =>
      split at h
      · cases h
        apply w.complete_inv _ false roles htargets
        rw [htr]
        exact .aborted done rest _ role state hcanary hsplit hdone
      · cases h
        apply w.emit_inv _ _ roles htargets rfl
        rw [htr, List.append_nil]
        exact .watching done rest _ role baseline deadline hcanary hsplit hdone
  all_goals simp_all

theorem Walk.step_inv {w w' : Walk} {now : ℕ} {free : Bool} {a : WalkAct} (hw : w.Inv)
    (h : w.step now free a = some w') : w'.Inv := by
  cases a with
  | begin => exact Walk.begin_inv hw h
  | next baseline => exact Walk.next_inv hw h
  | preStatus answer => exact Walk.preStatus_inv hw h
  | poll => exact Walk.poll_inv hw h
  | status answer => exact Walk.status_inv hw h
  | observe => exact Walk.observe_inv hw h
  | look state => exact Walk.look_inv hw h

/-! ### What follows from the grammar -/

def WalkEvent.step : WalkEvent → Option UpgradeStep
  | .notify (.upgradeStep step) => some step
  | _ => none

def WalkEvent.failed (e : WalkEvent) : Bool := e.step.any (!·.ok)

def WalkEvent.isUpgrade : WalkEvent → Bool
  | .upgrade .. => true
  | _ => false

def WalkEvent.reports (role : RoleName) (phase : UpgradePhase) (e : WalkEvent) : Bool :=
  e.step.any fun step => step.worker = role.text ∧ step.phase = phase

def WalkEvent.aborts (e : WalkEvent) : Bool := e.step.any (·.phase = .canaryAborted)

/-- A `Done` frame names two generations, the second above the first. -/
def WalkEvent.Advances (e : WalkEvent) : Prop :=
  ∀ step ∈ e.step, step.phase = .done →
    ∃ before after, step.generationBefore = some before ∧ step.generationAfter = some after ∧
      before < after

/-- An event of a target that is being upgraded or is done. -/
structure WalkEvent.Calm (e : WalkEvent) : Prop where
  succeeds : e.failed = false
  isStep : ∀ resp, e = .notify resp → ∃ step, resp = .upgradeStep step
  stays : e.aborts = false
  advances : e.Advances

theorem started_calm (path : Option String) (role : RoleName) (preGen polls : ℕ) (e : WalkEvent)
    (h : e ∈ started path role preGen polls) : e.Calm ∧ ∀ r, e.reports r .done = false := by
  simp only [started, List.mem_cons, List.mem_replicate] at h
  rcases h with rfl | rfl | rfl | ⟨-, rfl⟩
  all_goals
    refine ⟨⟨rfl, ?_, rfl, ?_⟩, ?_⟩
    · simp
    · simp [WalkEvent.Advances, WalkEvent.step, startingStep]
    · simp [WalkEvent.reports, WalkEvent.step, startingStep]

theorem doneStep_calm (role : RoleName) (preGen gen : ℕ) (h : preGen < gen) :
    (WalkEvent.notify (.upgradeStep (doneStep role preGen gen))).Calm := by
  refine ⟨rfl, by simp, rfl, ?_⟩
  simp [WalkEvent.Advances, WalkEvent.step, doneStep, h]

theorem Passed.calm {path : Option String} {roles : List RoleName} {tr : List WalkEvent}
    (h : Passed path roles tr) : ∀ e ∈ tr, e.Calm := by
  induction h with
  | nil => simp
  | role done tr role preGen gen polls hdone hgen ih =>
    intro e he
    simp only [List.mem_append, List.mem_singleton] at he
    rcases he with (he | he) | rfl
    · exact ih e he
    · exact (started_calm path role preGen polls e he).1
    · exact doneStep_calm role preGen gen hgen

theorem RoleName.text_injective (r r' : RoleName) (h : r.text = r'.text) : r = r' := by
  cases r <;> cases r' <;> first | rfl | exact absurd h (by decide)

section Calm
variable {tr : List WalkEvent} (h : ∀ e ∈ tr, e.Calm)
include h

theorem calm_stream (text : AdminResp → String) (rest : List ReadLine) :
    streamUpgrade true (received text (tr.filterMap WalkEvent.frame) ++ rest) =
      streamUpgrade true rest := by
  induction tr with
  | nil => rfl
  | cons e tr ih =>
    have htail := ih fun e' he' => h e' (List.mem_cons_of_mem _ he')
    have hcalm := h e (List.mem_cons_self ..)
    cases e with
    | notify resp =>
      obtain ⟨step, rfl⟩ := hcalm.isStep resp rfl
      have hok : step.ok = true := by
        simpa [WalkEvent.failed, WalkEvent.step] using hcalm.succeeds
      simp only [List.filterMap_cons, WalkEvent.frame, received, List.map_cons, List.cons_append,
        streamUpgrade, hok, Bool.and_self]
      exact htail
    | status role =>
      rw [List.filterMap_cons_none rfl]
      exact htail
    | upgrade role path =>
      rw [List.filterMap_cons_none rfl]
      exact htail

end Calm

theorem status_calm (role : RoleName) : (WalkEvent.status role).Calm :=
  ⟨rfl, by simp, rfl, by simp [WalkEvent.Advances, WalkEvent.step]⟩

section Ended
variable {path : Option String} {targets : List RoleName} {canary : Bool} {tr : List WalkEvent}
  {allOk : Bool}

/-- A trace is calm up to the failed step, if there is one, and the last frame. -/
theorem Ended.split (h : Ended path targets canary tr allOk) :
    ∃ front verdict, tr = front ++ (verdict ++ [.notify (.upgradeComplete allOk)]) ∧
      (∀ e ∈ front, e.Calm) ∧
      ((verdict = [] ∧ allOk = true) ∨ ∃ step, verdict = [.notify (.upgradeStep step)] ∧
        step.ok = false ∧ step.phase ≠ .done ∧ allOk = false) := by
  cases h with
  | complete tr hdone => exact ⟨tr, [], rfl, hdone.calm, Or.inl ⟨rfl, rfl⟩⟩
  | skipped done rest tr role hsplit hdone =>
    refine ⟨tr ++ [.status role], [.notify (.upgradeStep (skippedStep role))], by simp, ?_,
      Or.inr ⟨_, rfl, rfl, by simp [skippedStep], rfl⟩⟩
    intro e he
    rcases List.mem_append.mp he with he | he
    · exact hdone.calm e he
    · rw [List.mem_singleton.mp he]
      exact status_calm role
  | timeout done rest tr role preGen polls hsplit hdone =>
    refine ⟨tr ++ started path role preGen polls, [.notify (.upgradeStep (timeoutStep role preGen))],
      by simp, ?_, Or.inr ⟨_, rfl, rfl, by simp [timeoutStep], rfl⟩⟩
    intro e he
    rcases List.mem_append.mp he with he | he
    · exact hdone.calm e he
    · exact (started_calm path role preGen polls e he).1
  | aborted done rest tr role state hcanary hsplit hdone =>
    exact ⟨tr, [.notify (.upgradeStep (canaryAbortedStep role state))], by simp, hdone.calm,
      Or.inr ⟨_, rfl, rfl, by simp [canaryAbortedStep], rfl⟩⟩

theorem Ended.advances (h : Ended path targets canary tr allOk) : ∀ e ∈ tr, e.Advances := by
  obtain ⟨front, verdict, rfl, hcalm, hverdict⟩ := h.split
  intro e he
  simp only [List.mem_append, List.mem_singleton] at he
  rcases he with he | he | rfl
  · exact (hcalm e he).advances
  · rcases hverdict with ⟨rfl, -⟩ | ⟨step, rfl, -, hphase, -⟩
    · cases he
    · rw [List.mem_singleton.mp he]
      simp [WalkEvent.Advances, WalkEvent.step, hphase]
  · simp [WalkEvent.Advances, WalkEvent.step]

/-- The command line's verdict is the walk's. -/
theorem Ended.stream (h : Ended path targets canary tr allOk) (text : AdminResp → String) :
    streamUpgrade true (received text (tr.filterMap WalkEvent.frame)) = .ok () ↔ allOk = true := by
  obtain ⟨front, verdict, rfl, hcalm, hverdict⟩ := h.split
  rw [List.filterMap_append, received, List.map_append]
  rw [show List.map _ (List.filterMap WalkEvent.frame front) =
    received text (front.filterMap WalkEvent.frame) from rfl, calm_stream hcalm]
  rcases hverdict with ⟨rfl, rfl⟩ | ⟨step, rfl, hok, -, rfl⟩
  · simp [WalkEvent.frame, streamUpgrade]
  · simp [WalkEvent.frame, streamUpgrade]

end Ended

theorem Running.calm {path : Option String} {targets : List RoleName} {canary : Bool}
    {pc : WalkPc} {tr : List WalkEvent} (h : Running path targets canary pc tr) :
    ∀ e ∈ tr, e.Calm := by
  cases h with
  | target done rest tr hsplit hdone => exact hdone.calm
  | asking done rest tr role baseline hsplit hdone =>
    intro e he
    rcases List.mem_append.mp he with he | he
    · exact hdone.calm e he
    · rw [List.mem_singleton.mp he]
      exact status_calm role
  | polling done rest tr role baseline preGen deadline wake polls hsplit hdone =>
    intro e he
    rcases List.mem_append.mp he with he | he
    · exact hdone.calm e he
    · exact (started_calm path role preGen polls e he).1
  | querying done rest tr role baseline preGen deadline polls hsplit hdone =>
    intro e he
    rcases List.mem_append.mp he with he | he
    · exact hdone.calm e he
    · exact (started_calm path role preGen polls e he).1
  | watching done rest tr role baseline deadline hcanary hsplit hdone => exact hdone.calm
  | napping done rest tr role baseline deadline wake hcanary hsplit hdone => exact hdone.calm

/-! ### Any number of requests -/

theorem Walk.step_req {w w' : Walk} {now : ℕ} {free : Bool} {a : WalkAct}
    (h : w.step now free a = some w') : w'.req = w.req := by
  unfold Walk.step at h
  split at h
  case h_1 => split at h <;> cases h <;> rfl
  case h_6 | h_9 =>
    simp only [Option.ite_none_right_eq_some] at h
    obtain ⟨-, h⟩ := h
    split at h <;> cases h <;> rfl
  case h_7 => split at h <;> cases h <;> rfl
  all_goals cases h <;> rfl

theorem Walk.step_active {w w' : Walk} {now : ℕ} {free : Bool} {a : WalkAct}
    (h : w.step now free a = some w') (hact : w'.pc.active = true) :
    w.pc.active = true ∨ (free = true ∧ a = .begin) := by
  unfold Walk.step at h
  split at h
  case h_1 =>
    split at h
    · exact Or.inr ⟨rfl, rfl⟩
    · cases h
      cases hact
  case h_10 => cases h
  all_goals exact Or.inl (by simp [*, WalkPc.active])

variable {ι : Type}

structure Upgrades.Inv (reqs : ι → RollingUpgradeRequest) (s : Upgrades ι) : Prop where
  req : ∀ i, (s.walks i).req = reqs i
  walk : ∀ i, (s.walks i).Inv
  lock : ∀ i, (s.walks i).pc.active = true → s.lock = some i

theorem Upgrades.start_inv (reqs : ι → RollingUpgradeRequest) :
    (Upgrades.start reqs).Inv reqs := by
  refine ⟨fun i => rfl, ?_, ?_⟩
  · intro i
    exact ⟨fun _ => rfl, by simp [Upgrades.start], by simp [Upgrades.start, WalkPc.active],
      by simp [Upgrades.start]⟩
  · intro i
    simp [Upgrades.start, WalkPc.active]

variable [DecidableEq ι]

theorem Upgrades.lock_inv {reqs : ι → RollingUpgradeRequest} {s : Upgrades ι} (hs : s.Inv reqs)
    {i : ι} {a : WalkAct} {w : Walk} (h : (s.walks i).step s.now s.lock.isNone a = some w) (j : ι)
    (hact : (Function.update s.walks i w j).pc.active = true) :
    (if a = .begin then s.lock.or (some i) else s.lock) = some j := by
  -- either the walk had the lock, or it has just found it free
  have hheld : s.lock = some j ∨ (s.lock = none ∧ j = i ∧ a = .begin) := by
    by_cases hji : j = i
    · subst hji
      rw [Function.update_self] at hact
      rcases Walk.step_active h hact with hold | ⟨hfree, hbegin⟩
      · exact Or.inl (hs.lock j hold)
      · exact Or.inr ⟨by simpa using hfree, rfl, hbegin⟩
    · rw [Function.update_of_ne hji] at hact
      exact Or.inl (hs.lock j hact)
  rcases hheld with hlock | ⟨hlock, rfl, rfl⟩
  · simp [hlock]
  · simp [hlock]

theorem Upgrades.step_inv (reqs : ι → RollingUpgradeRequest) (s : Upgrades ι) (a : UpgradesAct ι)
    (t : Upgrades ι) (hs : s.Inv reqs) (h : s.step a = some t) : t.Inv reqs := by
  cases a with
  | elapse d =>
    cases h
    exact ⟨hs.req, hs.walk, hs.lock⟩
  | walk i a =>
    obtain ⟨w, hw, rfl⟩ := Option.map_eq_some_iff.mp h
    refine ⟨?_, ?_, Upgrades.lock_inv hs hw⟩
    · apply (Function.forall_update_iff s.walks fun j w => w.req = reqs j).mpr
      exact ⟨(Walk.step_req hw).trans (hs.req i), fun j _ => hs.req j⟩
    · apply (Function.forall_update_iff s.walks fun _ w => w.Inv).mpr
      exact ⟨Walk.step_inv (hs.walk i) hw, fun j _ => hs.walk j⟩
  | unlock i =>
    simp only [Upgrades.step, Option.ite_none_right_eq_some] at h
    obtain ⟨⟨hlock, hidle⟩, h⟩ := h
    cases h
    refine ⟨hs.req, hs.walk, ?_⟩
    intro j hact
    have hij : i = j := Option.some.inj (hlock.symm.trans (hs.lock j hact))
    subst hij
    rw [hidle] at hact
    cases hact

def processorAt (generation : ℕ) : WorkerStatus :=
  ⟨"processor", 10, generation, 0, 0, none, none⟩

end FiveNinesEcho.Supervisor
