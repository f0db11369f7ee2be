import FiveNinesEcho.Supervisor.Frames

/-!
# The upgrade counters (`metrics.rs:24-74`)

`upgrade_one` counts an attempt as skipped, timed out or committed, and `canary_observe`, which runs
after it and knows nothing of that, as aborted. An attempt whose canary aborts has been counted as
committed before. The counters are `AtomicU64`s, and their `fetch_add` wraps.
-/

namespace FiveNinesEcho.Supervisor
open Lib

structure UpgradeCounters where
  committed : RoleName → ℕ
  timedOut : RoleName → ℕ
  canaryAborted : RoleName → ℕ
  skipped : RoleName → ℕ

def UpgradeCounters.new : UpgradeCounters := ⟨fun _ => 0, fun _ => 0, fun _ => 0, fun _ => 0⟩

def fetchAdd (m : RoleName → ℕ) (role : RoleName) : RoleName → ℕ :=
  Function.update m role ((m role + 1) % 2 ^ 64)

def UpgradeCounters.incrCommitted (c : UpgradeCounters) (role : RoleName) : UpgradeCounters :=
  { c with committed := fetchAdd c.committed role }

def UpgradeCounters.incrTimedOut (c : UpgradeCounters) (role : RoleName) : UpgradeCounters :=
  { c with timedOut := fetchAdd c.timedOut role }

def UpgradeCounters.incrCanaryAborted (c : UpgradeCounters) (role : RoleName) : UpgradeCounters :=
  { c with canaryAborted := fetchAdd c.canaryAborted role }

def UpgradeCounters.incrSkipped (c : UpgradeCounters) (role : RoleName) : UpgradeCounters :=
  { c with skipped := fetchAdd c.skipped role }

def UpgradeCounters.total (c : UpgradeCounters) (role : RoleName) : ℕ :=
  c.committed role + c.timedOut role + c.canaryAborted role + c.skipped role

/-- A look of `canary_observe` that finds the role worse than its baseline. -/
def Walk.regresses (w : Walk) (now : ℕ) (role : RoleName) (a : WalkAct) : Bool :=
  match a, w.pc with
  | .look state, .napping role' _ baseline _ wake =>
    role' = role && wake ≤ now && healthStateRank baseline < healthStateRank state
  | _, _ => false

/-- The calls of `incr_*` a move of a walk makes (`supervisor/admin.rs:129`, `admin.rs:186`,
`admin.rs:220`, `admin.rs:239`). -/
def Walk.count (w : Walk) (now : ℕ) (a : WalkAct) (c : UpgradeCounters) : UpgradeCounters :=
  match a, w.pc with
  | .preStatus none, .asking role _ _ => c.incrSkipped role
  | .poll, .polling role _ _ _ deadline wake =>
    if wake ≤ now ∧ deadline < now then c.incrTimedOut role else c
  | .status answer, .querying role _ _ preGen _ =>
    if (answer.filter (preGen < ·.generation)).isSome then c.incrCommitted role else c
  | .look _, .napping role _ _ _ _ =>
    if w.regresses now role a then c.incrCanaryAborted role else c
  | _, _ => c

/-- The attempt a move begins: `upgrade_one` is called for the role. -/
def Walk.attempts (w : Walk) (role : RoleName) (a : WalkAct) : Bool :=
  match a, w.pc with
  | .next _, .target (role' :: _) => role' = role
  | _, _ => false

variable {ι : Type} [DecidableEq ι]

/-- All the walks, the counters they share, and how many attempts of each role there have been. -/
structure Books (ι : Type) where
  upgrades : Upgrades ι
  counters : UpgradeCounters
  attempts : RoleName → ℕ

def Books.step (s : Books ι) (a : UpgradesAct ι) : Option (Books ι) :=
  (s.upgrades.step a).map fun u =>
    { upgrades := u
      counters := match a with
        | .walk i b => (s.upgrades.walks i).count s.upgrades.now b s.counters
        | _ => s.counters
      attempts := match a with
        | .walk i b => fun role =>
            s.attempts role + ((s.upgrades.walks i).attempts role b).toNat
        | _ => s.attempts }

def Books.start (reqs : ι → RollingUpgradeRequest) : Books ι :=
  ⟨Upgrades.start reqs, .new, fun _ => 0⟩

def Books.regresses (role : RoleName) (s : Books ι) : UpgradesAct ι → Bool
  | .walk i b => (s.upgrades.walks i).regresses s.upgrades.now role b
  | _ => false

/-! ### One walk -/

/-- In `upgrade_one` for that role. -/
def WalkPc.trying (role : RoleName) : WalkPc → ℕ
  | .asking role' _ _ | .polling role' _ _ _ _ _ | .querying role' _ _ _ _ =>
    (role' = role : Bool).toNat
  | _ => 0

/-- In `canary_observe` for that role. -/
def WalkPc.watched (role : RoleName) : WalkPc → ℕ
  | .watching role' _ _ _ | .napping role' _ _ _ _ => (role' = role : Bool).toNat
  | _ => 0

structure Outcomes where
  committed : ℕ
  timedOut : ℕ
  canaryAborted : ℕ
  skipped : ℕ

/-- The counters of a role as numbers that do not wrap. -/
structure Outcomes.Shown (n : Outcomes) (c : UpgradeCounters) (role : RoleName) : Prop where
  committed : c.committed role = n.committed % 2 ^ 64
  timedOut : c.timedOut role = n.timedOut % 2 ^ 64
  canaryAborted : c.canaryAborted role = n.canaryAborted % 2 ^ 64
  skipped : c.skipped role = n.skipped % 2 ^ 64

theorem fetchAdd_shown {m : RoleName → ℕ} {role : RoleName} {n : ℕ} (role' : RoleName)
    (h : m role = n % 2 ^ 64) :
    fetchAdd m role' role = (n + (role' = role : Bool).toNat) % 2 ^ 64 := by
  by_cases hr : role' = role
  · subst hr
    simp [fetchAdd, h]
  · have hne : role ≠ role' := fun he => hr he.symm
    simp [fetchAdd, Function.update_of_ne hne, h, hr]

/-- What a move of a walk adds to the numbers. -/
structure Outcomes.Moves (role : RoleName) (w w' : Walk) (now : ℕ) (a : WalkAct)
    (n m : Outcomes) : Prop where
  concluded : m.committed + m.timedOut + m.skipped + w'.pc.trying role =
    n.committed + n.timedOut + n.skipped + w.pc.trying role + (w.attempts role a).toNat
  aborted : m.canaryAborted = n.canaryAborted + (w.regresses now role a).toNat
  watched : m.canaryAborted + n.committed + w'.pc.watched role ≤
    n.canaryAborted + m.committed + w.pc.watched role

/-- Where nothing is counted the attempt goes on as it is, or a new one begins. -/
theorem Outcomes.Moves.quiet {role : RoleName} {w w' : Walk} {now : ℕ} {a : WalkAct} (n : Outcomes)
    (htrying : w'.pc.trying role = w.pc.trying role + (w.attempts role a).toNat)
    (hregresses : w.regresses now role a = false)
    (hwatched : w'.pc.watched role ≤ w.pc.watched role) :
    Outcomes.Moves role w w' now a n n := by
  refine ⟨by omega, ?_, by omega⟩
  rw [hregresses]
  rfl

section Counted
variable {w w' : Walk} {now : ℕ} {free : Bool} {role role' : RoleName} {rest : List RoleName}
  {baseline : HealthState} {preGen deadline wake : ℕ} {n : Outcomes} {c : UpgradeCounters}

theorem Walk.poll_moves (hpc : w.pc = .polling role' rest baseline preGen deadline wake)
    (h : w.step now free .poll = some w') (hn : n.Shown c role) :
    ∃ m, m.Shown (w.count now .poll c) role ∧ Outcomes.Moves role w w' now .poll n m := by
  simp only [Walk.step, hpc, Option.ite_none_right_eq_some] at h
  obtain ⟨hwake, h⟩ := h
  by_cases hlate : deadline < now
  · rw [if_pos hlate] at h
    cases h
    refine ⟨{ n with timedOut := n.timedOut + (role' = role : Bool).toNat }, ?_, ?_, rfl, ?_⟩
    · simp only [Walk.count, hpc, hwake, hlate, and_self, if_true]
      exact ⟨hn.committed, fetchAdd_shown role' hn.timedOut, hn.canaryAborted, hn.skipped⟩
    · simp only [Walk.complete, Walk.emit, hpc, WalkPc.trying, Walk.attempts, Bool.toNat_false]
      omega
    · simp [Walk.complete, Walk.emit, hpc, WalkPc.watched]
  · rw [if_neg hlate] at h
    cases h
    refine ⟨n, by simpa [Walk.count, hpc, hlate] using hn, .quiet n ?_ rfl ?_⟩ <;>
      simp [Walk.emit, hpc, WalkPc.trying, WalkPc.watched, Walk.attempts]

theorem Walk.status_moves {answer : Option WorkerStatus}
    (hpc : w.pc = .querying role' rest baseline preGen deadline)
    (h : w.step now free (.status answer) = some w') (hn : n.Shown c role) :
    ∃ m, m.Shown (w.count now (.status answer) c) role ∧
      Outcomes.Moves role w w' now (.status answer) n m := by
  simp only [Walk.step, hpc] at h
  split at h
  · next st hst =>
    cases h
    refine ⟨{ n with committed := n.committed + (role' = role : Bool).toNat }, ?_, ?_⟩
    · simp only [Walk.count, hpc, hst, Option.isSome_some, if_true]
      exact ⟨fetchAdd_shown role' hn.committed, hn.timedOut, hn.canaryAborted, hn.skipped⟩
    · -- the canary, where there is one, watches what has just been counted
      cases hsecs : w.req.canarySecs with
      | none =>
        refine ⟨?_, rfl, ?_⟩
        · simp only [Walk.emit, hpc, WalkPc.trying, Walk.attempts, Bool.toNat_false]
          omega
        · simp only [Walk.emit, hpc, WalkPc.watched]
          omega
      | some secs =>
        refine ⟨?_, rfl, ?_⟩
        · simp only [Walk.emit, hpc, WalkPc.trying, Walk.attempts, Bool.toNat_false]
          omega
        · simp only [Walk.emit, hpc, WalkPc.watched]
          omega
  · next hst =>
    cases h
    refine ⟨n, by simpa [Walk.count, hpc, hst] using hn, .quiet n ?_ rfl ?_⟩ <;>
      simp [Walk.emit, hpc, WalkPc.trying, WalkPc.watched, Walk.attempts]

/-- A look that finds the role worse aborts the canary of an attempt already committed. -/
theorem Walk.look_moves {state : HealthState}
    (hpc : w.pc = .napping role' rest baseline deadline wake)
    (h : w.step now free (.look state) = some w') (hn : n.Shown c role) :
    ∃ m, m.Shown (w.count now (.look state) c) role ∧
      Outcomes.Moves role w w' now (.look state) n m := by
  simp only [Walk.step, hpc, Option.ite_none_right_eq_some] at h
  obtain ⟨hwake, h⟩ := h
  have hregresses : ∀ r, w.regresses now r (.look state) =
      (role' = r && (healthStateRank baseline < healthStateRank state : Bool)) := by
    intro r
    simp [Walk.regresses, hpc, hwake]
  by_cases hworse : healthStateRank baseline < healthStateRank state
  · rw [if_pos hworse] at h
    cases h
    refine ⟨{ n with canaryAborted := n.canaryAborted + (role' = role : Bool).toNat }, ?_, ?_⟩
    · simp only [Walk.count, hpc, hregresses, hworse, decide_true, Bool.and_self, if_true]
      exact ⟨hn.committed, hn.timedOut, fetchAdd_shown role' hn.canaryAborted, hn.skipped⟩
    · refine ⟨?_, ?_, ?_⟩
      · simp [Walk.complete, Walk.emit, hpc, WalkPc.trying, Walk.attempts]
      · simp [hregresses, hworse]
      · simp only [Walk.complete, Walk.emit, hpc, WalkPc.watched]
        omega
  · rw [if_neg hworse] at h
    cases h
    refine ⟨n, by simpa [Walk.count, hpc, hregresses, hworse] using hn, .quiet n ?_ ?_ ?_⟩
    · simp [Walk.emit, hpc, WalkPc.trying, Walk.attempts]
    · simp [hregresses, hworse]
    · simp [Walk.emit, hpc, WalkPc.watched]

end Counted

theorem Walk.step_moves {w w' : Walk} {now : ℕ} {free : Bool} {a : WalkAct}
    (h : w.step now free a = some w') (role : RoleName) (n : Outcomes) (c : UpgradeCounters)
    (hn : n.Shown c role) :
    ∃ m, m.Shown (w.count now a c) role ∧ Outcomes.Moves role w w' now a n m := by
  have hstep := h
  unfold Walk.step at h
  split at h
  case h_1 hpc =>
    refine ⟨n, hn, .quiet n ?_ rfl ?_⟩ <;> split at h <;> cases h <;>
      simp [Walk.emit, hpc, WalkPc.trying, WalkPc.watched, Walk.attempts]
  case h_2 hpc =>
    cases h
    refine ⟨n, hn, .quiet n ?_ rfl ?_⟩ <;>
      simp [Walk.complete, Walk.emit, hpc, WalkPc.trying, WalkPc.watched, Walk.attempts]
  case h_3 hpc =>
    cases h
    refine ⟨n, hn, .quiet n ?_ rfl ?_⟩ <;>
      simp [Walk.emit, hpc, WalkPc.trying, WalkPc.watched, Walk.attempts]
  case h_4 role' rest baseline hpc =>
    cases h
    refine ⟨{ n with skipped := n.skipped + (role' = role : Bool).toNat }, ?_, ?_⟩
    · simp only [Walk.count, hpc]
      exact ⟨hn.committed, hn.timedOut, hn.canaryAborted, fetchAdd_shown role' hn.skipped⟩
    · constructor <;> simp [Walk.complete, Walk.emit, hpc, WalkPc.trying, WalkPc.watched,
        Walk.attempts, Walk.regresses, Nat.add_assoc]
  case h_5 hpc =>
    cases h
    refine ⟨n, hn, .quiet n ?_ rfl ?_⟩ <;>
      simp [Walk.emit, hpc, WalkPc.trying, WalkPc.watched, Walk.attempts]
  case h_6 hpc => exact Walk.poll_moves hpc hstep hn
  case h_7 hpc => exact Walk.status_moves hpc hstep hn
  case h_8 role' rest baseline deadline hpc =>
    cases h
    refine ⟨n, hn, .quiet n ?_ rfl ?_⟩ <;> by_cases hopen : now < deadline <;>
      simp [Walk.emit, hpc, hopen, WalkPc.trying, WalkPc.watched, Walk.attempts]
  case h_9 hpc => exact Walk.look_moves hpc hstep hn
  case h_10 => cases h

/-! ### All of them -/

/-- A number read off the walk that has the lock. -/
def Upgrades.held (s : Upgrades ι) (f : WalkPc → ℕ) : ℕ := s.lock.elim 0 fun i => f (s.walks i).pc

theorem Walk.step_idle {w w' : Walk} {now : ℕ} {free : Bool} {a : WalkAct}
    (h : w.step now free a = some w') (hpc : w.pc.active = false) :
    a = .begin ∧ (free = false → w'.pc.active = false) := by
  cases hp : w.pc <;> simp [hp, WalkPc.active] at hpc <;> cases a <;> simp [Walk.step, hp] at h
  refine ⟨rfl, ?_⟩
  rintro rfl
  cases h
  rfl

/-- The walk that moves is the one with the lock, or it counts for nothing before and after. -/
theorem Upgrades.held_step {reqs : ι → RollingUpgradeRequest} {s t : Upgrades ι} {i : ι}
    {a : WalkAct} (hs : s.Inv reqs) (h : s.step (.walk i a) = some t) (f : WalkPc → ℕ)
    (hf : ∀ pc, pc.active = false → f pc = 0) :
    t.held f + f (s.walks i).pc = s.held f + f (t.walks i).pc := by
  obtain ⟨w, hw, rfl⟩ := Option.map_eq_some_iff.mp h
  by_cases hact : (s.walks i).pc.active = true
  · have hlock := hs.lock i hact
    simp only [Upgrades.held, hlock, Option.some_or, ite_self, Option.elim_some,
      Function.update_self]
    omega
  · rw [Bool.not_eq_true] at hact
    obtain ⟨rfl, hrejected⟩ := Walk.step_idle hw hact
    simp only [Upgrades.held, if_true, hf _ hact, Function.update_self]
    cases hlock : s.lock with
    | none => simp
    | some j =>
      have hoff : f w.pc = 0 := hf _ (hrejected (by simp [hlock]))
      by_cases hij : j = i
      · subst hij
        simp [hf _ hact, hoff]
      · simp [Function.update_of_ne hij, hoff]

/-- Every attempt that is not still going on has been counted once as committed, timed out or
skipped; and every abort on top of that as well. -/
structure Books.Inv (reqs : ι → RollingUpgradeRequest) (role : RoleName) (aborts : ℕ)
    (s : Books ι) : Prop where
  walks : s.upgrades.Inv reqs
  kept : ∃ n : Outcomes, n.Shown s.counters role ∧
    n.committed + n.timedOut + n.skipped + s.upgrades.held (WalkPc.trying role) =
      s.attempts role ∧
    n.canaryAborted = aborts ∧
    n.canaryAborted + s.upgrades.held (WalkPc.watched role) ≤ n.committed

theorem Books.step_inv {reqs : ι → RollingUpgradeRequest} {role : RoleName} {aborts : ℕ}
    {s t : Books ι} {a : UpgradesAct ι} (hs : s.Inv reqs role aborts) (h : s.step a = some t) :
    t.Inv reqs role (aborts + (s.regresses role a).toNat) := by
  obtain ⟨u, hu, rfl⟩ := Option.map_eq_some_iff.mp h
  refine ⟨Upgrades.step_inv reqs _ _ _ hs.walks hu, ?_⟩
  obtain ⟨n, hn, hattempts, haborts, hwatched⟩ := hs.kept
  cases a with
  | elapse d =>
    cases hu
    exact ⟨n, hn, hattempts, haborts, hwatched⟩
  | unlock i =>
    simp only [Upgrades.step, Option.ite_none_right_eq_some, Option.some.injEq] at hu
    obtain ⟨⟨hlock, hidle⟩, rfl⟩ := hu
    have htrying : s.upgrades.held (WalkPc.trying role) = 0 := by
      simp only [Upgrades.held, hlock, Option.elim_some]
      cases hp : (s.upgrades.walks i).pc <;> simp [hp, WalkPc.active] at hidle <;> rfl
    refine ⟨n, hn, ?_, haborts, ?_⟩
    · simp only [Upgrades.held, Option.elim_none]
      omega
    · simp only [Upgrades.held, Option.elim_none]
      omega
  | walk i b =>
    obtain ⟨w, hw, hwu⟩ := Option.map_eq_some_iff.mp hu
    have hat : u.walks i = w := by simp [← hwu]
    obtain ⟨m, hm, hmoves⟩ := Walk.step_moves hw role n s.counters hn
    have htrying := Upgrades.held_step hs.walks hu (WalkPc.trying role) (by
      intro pc hpc
      cases pc <;> simp [WalkPc.active] at hpc <;> rfl)
    have hwatch := Upgrades.held_step hs.walks hu (WalkPc.watched role) (by
      intro pc hpc
      cases pc <;> simp [WalkPc.active] at hpc <;> rfl)
    rw [hat] at htrying hwatch
    have hconcluded := hmoves.concluded
    have hmore := hmoves.watched
    refine ⟨m, hm, ?_, ?_, ?_⟩
    · simp only
      omega
    · rw [hmoves.aborted, haborts]
      rfl
    · simp only
      omega

omit [DecidableEq ι] in
theorem Books.start_inv (reqs : ι → RollingUpgradeRequest) (role : RoleName) :
    (Books.start reqs).Inv reqs role 0 :=
  ⟨Upgrades.start_inv reqs, ⟨0, 0, 0, 0⟩, ⟨rfl, rfl, rfl, rfl⟩, rfl, rfl, Nat.le_refl _⟩

theorem Books.run_inv (reqs : ι → RollingUpgradeRequest) (role : RoleName)
    (as : List (UpgradesAct ι)) (s : Books ι)
    (hrun : exec Books.step (Books.start reqs) as = some s) :
    s.Inv reqs role (tally Books.step (Books.regresses role) (Books.start reqs) as) := by
  refine exec_history (I := fun as s => Books.Inv reqs role
    (tally Books.step (Books.regresses role) (Books.start reqs) as) s) _ ?_ ?_ as s hrun
  · exact Books.start_inv reqs role
  · intro as s a t hs hinv ht
    rw [tally_concat _ _ _ as a hs]
    exact Books.step_inv hinv ht

/-- How many attempts of the role are going on, none or one. -/
def Books.open (s : Books ι) (role : RoleName) : ℕ := s.upgrades.held (WalkPc.trying role)

/-- In every sequence of rolling upgrades, by any callers, the four counters of a role add up to its
finished attempts, one for each, exactly when no canary of that role has seen it regress: an attempt
whose canary aborts is counted twice. (The counters are 64 bits wide.) -/
theorem outcome_once_iff (reqs : ι → RollingUpgradeRequest) (as : List (UpgradesAct ι))
    (s : Books ι) (hrun : exec Books.step (Books.start reqs) as = some s) (role : RoleName)
    (hfew : s.attempts role < 2 ^ 64) :
    s.counters.total role + s.open role = s.attempts role ↔
      Along Books.step (fun s a => s.regresses role a = false) (Books.start reqs) as := by
  obtain ⟨n, hn, hattempts, haborts, hwatched⟩ := (Books.run_inv reqs role as s hrun).kept
  rw [← tally_eq_zero_iff _ _ s as hrun, ← haborts]
  have hopen : s.open role = s.upgrades.held (WalkPc.trying role) := rfl
  have htotal : s.counters.total role =
      n.committed + n.timedOut + n.canaryAborted + n.skipped := by
    rw [UpgradeCounters.total, hn.committed, hn.timedOut, hn.canaryAborted, hn.skipped]
    rw [Nat.mod_eq_of_lt (by omega), Nat.mod_eq_of_lt (by omega), Nat.mod_eq_of_lt (by omega),
      Nat.mod_eq_of_lt (by omega)]
  omega

def canaryRequest : RollingUpgradeRequest := ⟨none, false, some 1, some "processor"⟩

/-- One processor upgrade with a canary of a second, up to the canary's first look. -/
def canaryRun (seen : HealthState) : List (UpgradesAct Unit) :=
  [.walk () .begin, .walk () (.next .healthy), .walk () (.preStatus (some (processorAt 0))),
    .walk () .poll, .walk () (.status (some (processorAt 1))), .walk () .observe, .elapse 200,
    .walk () (.look seen)]

def canaryBooks (seen : HealthState) : Option (Books Unit) :=
  exec Books.step (Books.start fun _ => canaryRequest) (canaryRun seen)

theorem outcome_once_calm :
    ∃ s, canaryBooks .healthy = some s ∧ s.counters.total .processor = 1 ∧
      s.counters.total .processor + s.open .processor = s.attempts .processor := by
  refine ⟨(canaryBooks .healthy).get (by decide), (Option.some_get _).symm, by decide, ?_⟩
  exact (outcome_once_iff (fun _ => canaryRequest) (canaryRun .healthy) _ (Option.some_get _).symm
    .processor (by decide)).mpr (by decide)

theorem aborted_counted_twice :
    ∃ s, canaryBooks .backoff = some s ∧ s.attempts .processor = 1 ∧ s.open .processor = 0 ∧
      s.counters.committed .processor = 1 ∧ s.counters.canaryAborted .processor = 1 ∧
      s.counters.total .processor = 2 := by
  refine ⟨(canaryBooks .backoff).get (by decide), (Option.some_get _).symm, ?_⟩
  decide

end FiveNinesEcho.Supervisor
