import FiveNinesEcho.Acceptor.Accept
import FiveNinesEcho.Lib.Exec
import Mathlib.Algebra.Ring.Nat

/-!
# The session cap under contention (`limits.rs:15-73`)

`try_acquire` runs in many threads over one atomic counter: with a cap it loads the counter, checks
it and tries to exchange it for the next value, from the start again when another thread was
quicker; without one it adds. A guard lives from the exchange or addition that counted it to its
drop, which any thread may perform. Each atomic operation is one step, and the threads take turns
in any way.
-/

namespace FiveNinesEcho.Limits.SessionCap
open Lib

/-- Where a thread is in `try_acquire`. -/
inductive Pc where
  | idle
  | adding
  | loading
  | loaded (cur : UInt64)
  | exchanging (cur : UInt64)
  | returned (guard : Option ℕ)
  deriving Repr, DecidableEq

/-- `handles` counts the clones of the `SessionCap`; they and the guards share the counter. -/
structure State (Thread : Type) where
  inFlight : UInt64
  handles : ℕ
  live : List ℕ
  nextGuard : ℕ
  pcs : Thread → Pc

def State.new (Thread : Type) : State Thread :=
  { inFlight := 0
    handles := 1
    live := []
    nextGuard := 0
    pcs := fun _ => .idle }

/-- `Arc::clone` aborts the process above this many references. -/
def maxRefcount : ℕ := 2 ^ 63 - 1

inductive Act (Thread : Type) where
  | call (t : Thread)
  | fetchAdd (t : Thread)
  | load (t : Thread)
  | check (t : Thread)
  | compareExchange (t : Thread)
  | drop (guard : ℕ)
  | clone
  | release
  deriving Repr, DecidableEq

variable {Thread : Type} [DecidableEq Thread]

def State.goto (s : State Thread) (t : Thread) (pc : Pc) : State Thread :=
  { s with pcs := Function.update s.pcs t pc }

/-- Count a session and return its guard, which holds a clone of the counter; where the clone
aborts, the run is over. -/
def State.acquire (s : State Thread) (t : Thread) : Option (State Thread) :=
  if maxRefcount < s.handles + s.live.length then none
  else some
    { s with
      inFlight := s.inFlight + 1
      live := s.nextGuard :: s.live
      nextGuard := s.nextGuard + 1
      pcs := Function.update s.pcs t (.returned (some s.nextGuard)) }

def step (cap : UInt64) (s : State Thread) : Act Thread → Option (State Thread)
  | .call t => match s.pcs t with
    | .idle | .returned _ => some (s.goto t (if cap = 0 then .adding else .loading))
    | _ => none
  | .fetchAdd t => match s.pcs t with
    | .adding => s.acquire t
    | _ => none
  | .load t => match s.pcs t with
    | .loading => some (s.goto t (.loaded s.inFlight))
    | _ => none
  | .check t => match s.pcs t with
    | .loaded cur => some (s.goto t (if cap ≤ cur then .returned none else .exchanging cur))
    | _ => none
  | .compareExchange t => match s.pcs t with
    | .exchanging cur => if s.inFlight = cur then s.acquire t else some (s.goto t .loading)
    | _ => none
  | .drop guard =>
    if guard ∈ s.live then
      some { s with inFlight := s.inFlight - 1, live := s.live.erase guard }
    else none
  | .clone =>
    if maxRefcount < s.handles + s.live.length then none
    else some { s with handles := s.handles + 1 }
  | .release => if 0 < s.handles then some { s with handles := s.handles - 1 } else none

theorem acquire_some {s u : State Thread} {t : Thread} (h : s.acquire t = some u) :
    s.handles + s.live.length ≤ maxRefcount ∧
      u = { s with
        inFlight := s.inFlight + 1
        live := s.nextGuard :: s.live
        nextGuard := s.nextGuard + 1
        pcs := Function.update s.pcs t (.returned (some s.nextGuard)) } := by
  unfold State.acquire at h
  split at h
  · cases h
  · next hroom => exact ⟨not_lt.mp hroom, (Option.some.inj h).symm⟩

/-- The steps of a thread that count nothing, with the place they lead to. -/
inductive Moves (cap : UInt64) (s : State Thread) (t : Thread) : Act Thread → Pc → Prop
  | uncapped (h : cap = 0) : Moves cap s t (.call t) .adding
  | capped (h : cap ≠ 0) : Moves cap s t (.call t) .loading
  | load : Moves cap s t (.load t) (.loaded s.inFlight)
  | full (cur : UInt64) (hpc : s.pcs t = .loaded cur) (h : cap ≤ cur) :
      Moves cap s t (.check t) (.returned none)
  | below (cur : UInt64) (hpc : s.pcs t = .loaded cur) (h : cur < cap) :
      Moves cap s t (.check t) (.exchanging cur)
  | overtaken : Moves cap s t (.compareExchange t) .loading

/-- What one step does: a thread moves on, a session is counted, a guard goes, or only the handles
change. -/
theorem step_cases {cap : UInt64} {s u : State Thread} {a : Act Thread} (h : step cap s a = some u) :
    (∃ t pc, u = s.goto t pc ∧ Moves cap s t a pc) ∨
    (∃ t, s.acquire t = some u ∧
      (a = .fetchAdd t ∧ s.pcs t = .adding ∨
        a = .compareExchange t ∧ s.pcs t = .exchanging s.inFlight)) ∨
    (∃ g, a = .drop g ∧ g ∈ s.live ∧
      u = { s with inFlight := s.inFlight - 1, live := s.live.erase g }) ∨
    ((a = .clone ∨ a = .release) ∧ ∃ n, u = { s with handles := n }) := by
  cases a with
  | call t =>
    have hmove : ∃ pc, s.goto t pc = s.goto t (if cap = 0 then .adding else .loading) ∧
        Moves cap s t (.call t) pc := by
      by_cases hzero : cap = 0
      · exact ⟨.adding, by rw [if_pos hzero], .uncapped hzero⟩
      · exact ⟨.loading, by rw [if_neg hzero], .capped hzero⟩
    obtain ⟨pc, heq, hpc⟩ := hmove
    simp only [step] at h
    rw [← heq] at h
    split at h
    · cases h
      exact Or.inl ⟨t, pc, rfl, hpc⟩
    · cases h
      exact Or.inl ⟨t, pc, rfl, hpc⟩
    · cases h
  | fetchAdd t =>
    simp only [step] at h
    split at h
    · next hpc => exact Or.inr (Or.inl ⟨t, h, Or.inl ⟨rfl, hpc⟩⟩)
    · cases h
  | load t =>
    simp only [step] at h
    split at h
    · cases h
      exact Or.inl ⟨t, _, rfl, .load⟩
    · cases h
  | check t =>
    simp only [step] at h
    split at h
    · next cur hpc =>
      cases h
      refine Or.inl ⟨t, _, rfl, ?_⟩
      split
      · next hfull => exact .full cur hpc hfull
      · next hbelow => exact .below cur hpc (UInt64.not_le.mp hbelow)
    · cases h
  | compareExchange t =>
    simp only [step] at h
    split at h
    · next cur hpc =>
      split at h
      · next heq => exact Or.inr (Or.inl ⟨t, h, Or.inr ⟨rfl, by rw [heq]; exact hpc⟩⟩)
      · cases h
        exact Or.inl ⟨t, _, rfl, .overtaken⟩
    · cases h
  | drop g =>
    simp only [step] at h
    split at h
    · next hlive =>
      cases h
      exact Or.inr (Or.inr (Or.inl ⟨g, rfl, hlive, rfl⟩))
    · cases h
  | clone =>
    simp only [step] at h
    split at h
    · cases h
    · cases h
      exact Or.inr (Or.inr (Or.inr ⟨Or.inl rfl, _, rfl⟩))
  | release =>
    simp only [step] at h
    split at h
    · cases h
      exact Or.inr (Or.inr (Or.inr ⟨Or.inr rfl, _, rfl⟩))
    · cases h

/-! ### The invariant -/

/-- The counter counts the live guards; who is about to add has no cap to keep, who is about to
exchange has seen a count below it. -/
structure Counts (cap : UInt64) (s : State Thread) : Prop where
  count : s.inFlight.toNat = s.live.length
  small : s.live.length ≤ 2 ^ 63
  capped : cap ≠ 0 → s.live.length ≤ cap.toNat
  adding : ∀ t, s.pcs t = .adding → cap = 0
  exchanging : ∀ t cur, s.pcs t = .exchanging cur → cur < cap

omit [DecidableEq Thread] in
theorem counts_new (cap : UInt64) : Counts cap (State.new Thread) where
  count := rfl
  small := Nat.zero_le _
  capped _ := Nat.zero_le _
  adding t h := by cases h
  exchanging t cur h := by cases h

/-- A property of a thread's place, after the thread `t` went to `pc`. -/
theorem update_place {P : Thread → Pc → Prop} {pcs : Thread → Pc} {t : Thread} {pc : Pc}
    (h : ∀ x, P x (pcs x)) (ht : P t pc) (x : Thread) : P x (Function.update pcs t pc x) := by
  by_cases hxt : x = t
  · subst hxt
    rw [Function.update_self]
    exact ht
  · rw [Function.update_of_ne hxt]
    exact h x

theorem Counts.goto {cap : UInt64} {s : State Thread} {a : Act Thread} {t : Thread} {pc : Pc}
    (h : Counts cap s) (hmove : Moves cap s t a pc) : Counts cap (s.goto t pc) where
  count := h.count
  small := h.small
  capped := h.capped
  adding := by
    refine update_place (P := fun _ pc => pc = .adding → cap = 0) h.adding ?_
    intro hpc
    cases hmove with
    | uncapped hzero => exact hzero
    | capped | load | full | below | overtaken => cases hpc
  exchanging := by
    refine update_place (P := fun _ pc => ∀ cur, pc = .exchanging cur → cur < cap) h.exchanging ?_
    intro cur hpc
    cases hmove with
    | below c _ hlt =>
      cases hpc
      exact hlt
    | uncapped | capped | load | full | overtaken => cases hpc

/-- Counting one more session stays below the word and below the cap. -/
theorem Counts.acquire {cap : UInt64} {s u : State Thread} {t : Thread} (h : Counts cap s)
    (hu : s.acquire t = some u) (hcap : cap ≠ 0 → s.inFlight < cap) : Counts cap u := by
  obtain ⟨hroom, rfl⟩ := acquire_some hu
  have hlen : s.live.length < 2 ^ 63 := by
    unfold maxRefcount at hroom
    omega
  refine ⟨?_, hlen, fun hne => ?_, ?_, ?_⟩
  · have hone : (1 : UInt64).toNat = 1 := rfl
    rw [UInt64.toNat_add, h.count, hone, List.length_cons]
    exact Nat.mod_eq_of_lt (by omega)
  · have hlt := UInt64.lt_iff_toNat_lt.mp (hcap hne)
    have hcount := h.count
    simp only [List.length_cons]
    omega
  · exact update_place (P := fun _ pc => pc = .adding → cap = 0) h.adding (fun hpc => by cases hpc)
  · exact update_place (P := fun _ pc => ∀ cur, pc = .exchanging cur → cur < cap) h.exchanging
      (fun cur hpc => by cases hpc)

omit [DecidableEq Thread] in
/-- A live guard was counted, so its drop does not wrap the counter. -/
theorem Counts.drop {cap : UInt64} {s : State Thread} {g : ℕ} (h : Counts cap s) (hg : g ∈ s.live) :
    (s.inFlight - 1).toNat + 1 = s.inFlight.toNat ∧ (s.live.erase g).length + 1 = s.live.length := by
  have hpos := List.length_pos_of_mem hg
  have hcount := h.count
  have hone : (1 : UInt64).toNat = 1 := rfl
  constructor
  · have hle : (1 : UInt64) ≤ s.inFlight := UInt64.le_iff_toNat_le.mpr (by omega)
    rw [UInt64.toNat_sub_of_le _ _ hle]
    omega
  · rw [List.length_erase_of_mem hg]
    omega

theorem Counts.step {cap : UInt64} {s u : State Thread} {a : Act Thread} (h : Counts cap s)
    (hstep : step cap s a = some u) : Counts cap u := by
  rcases step_cases hstep with ⟨t, pc, rfl, hmove⟩ | ⟨t, hu, hwhy⟩ | ⟨g, rfl, hg, rfl⟩ |
    ⟨_, n, rfl⟩
  · exact h.goto hmove
  · refine h.acquire hu (fun hne => ?_)
    rcases hwhy with ⟨_, hpc⟩ | ⟨_, hpc⟩
    · exact absurd (h.adding t hpc) hne
    · exact h.exchanging t _ hpc
  · obtain ⟨hsub, hlen⟩ := h.drop hg
    have hcount := h.count
    have hsmall := h.small
    refine ⟨?_, ?_, fun hne => ?_, h.adding, h.exchanging⟩
    · simp only
      omega
    · simp only
      omega
    · have hcap := h.capped hne
      simp only
      omega
  · exact ⟨h.count, h.small, h.capped, h.adding, h.exchanging⟩

/-! ### Refusals -/

/-- The last load of `t` in the run `acts` found `cur`. -/
def LastLoad (cap : UInt64) (acts : List (Act Thread)) (t : Thread) (cur : UInt64) : Prop :=
  ∃ before during s, acts = before ++ .load t :: during ∧ .load t ∉ during ∧
    exec (step cap) (State.new Thread) before = some s ∧ s.inFlight = cur

theorem LastLoad.snoc {cap : UInt64} {acts : List (Act Thread)} {t : Thread} {cur : UInt64}
    (h : LastLoad cap acts t cur) {a : Act Thread} (ha : a ≠ .load t) :
    LastLoad cap (acts ++ [a]) t cur := by
  obtain ⟨before, during, s, rfl, hnot, hrun, hcur⟩ := h
  refine ⟨before, during ++ [a], s, by simp, ?_, hrun, hcur⟩
  intro hmem
  rcases List.mem_append.mp hmem with hold | hnew
  · exact hnot hold
  · exact ha (List.mem_singleton.mp hnew).symm

/-- What a thread knows of the counter, it knows from its last load. -/
structure Knows (cap : UInt64) (acts : List (Act Thread)) (pc : Pc) (t : Thread) : Prop where
  loaded : ∀ cur, pc = .loaded cur → LastLoad cap acts t cur
  refused : pc = .returned none → ∃ cur, LastLoad cap acts t cur ∧ cap ≤ cur

theorem Knows.snoc {cap : UInt64} {acts : List (Act Thread)} {pc : Pc} {t : Thread} {a : Act Thread}
    (h : Knows cap acts pc t) (ha : a = .load t → pc = .loading) : Knows cap (acts ++ [a]) pc t := by
  refine ⟨fun cur hpc => (h.loaded cur hpc).snoc (fun hload => ?_), fun hpc => ?_⟩
  · cases (ha hload).symm.trans hpc
  · obtain ⟨cur, hlast, hle⟩ := h.refused hpc
    refine ⟨cur, hlast.snoc (fun hload => ?_), hle⟩
    cases (ha hload).symm.trans hpc

theorem Knows.nothing {cap : UInt64} {acts : List (Act Thread)} {pc : Pc} {t : Thread}
    (hload : ∀ cur, pc ≠ .loaded cur) (hnone : pc ≠ .returned none) : Knows cap acts pc t :=
  ⟨fun cur hpc => absurd hpc (hload cur), fun hpc => absurd hpc hnone⟩

/-- The place a thread moves to is known from the run with this step. -/
theorem Moves.knows {cap : UInt64} {acts : List (Act Thread)} {s : State Thread} {t : Thread}
    {a : Act Thread} {pc : Pc} (h : Moves cap s t a pc)
    (hrun : exec (step cap) (State.new Thread) acts = some s) (hold : Knows cap acts (s.pcs t) t) :
    Knows cap (acts ++ [a]) pc t := by
  cases h with
  | uncapped | capped | below | overtaken => exact .nothing (by simp) (by simp)
  | load =>
    refine ⟨fun cur hpc => ?_, fun hpc => by cases hpc⟩
    cases hpc
    exact ⟨acts, [], s, rfl, List.not_mem_nil, hrun, rfl⟩
  | full cur hpc hle =>
    refine ⟨fun c hc => (by cases hc), fun _ => ⟨cur, ?_, hle⟩⟩
    exact (hold.loaded cur hpc).snoc (by simp)

omit [DecidableEq Thread] in
theorem Moves.other {cap : UInt64} {s : State Thread} {t x : Thread} {a : Act Thread} {pc : Pc}
    (h : Moves cap s t a pc) (hx : x ≠ t) : a ≠ .load x := by
  cases h with
  | load =>
    intro heq
    cases heq
    exact hx rfl
  | uncapped | capped | full | below | overtaken => simp

theorem knows_run (cap : UInt64) (acts : List (Act Thread)) (s : State Thread)
    (h : exec (step cap) (State.new Thread) acts = some s) (t : Thread) :
    Knows cap acts (s.pcs t) t := by
  revert t
  refine exec_history (I := fun acts s => ∀ t, Knows cap acts (s.pcs t) t) (State.new Thread) ?_ ?_
    acts s h
  · intro t
    exact .nothing (by simp [State.new]) (by simp [State.new])
  · intro acts s a u hrun hold hstep x
    have hkeep : a ≠ .load x → Knows cap (acts ++ [a]) (s.pcs x) x :=
      fun ha => (hold x).snoc (fun heq => absurd heq ha)
    rcases step_cases hstep with ⟨t, pc, rfl, hmove⟩ | ⟨t, hu, hwhy⟩ | ⟨g, rfl, _, rfl⟩ |
      ⟨hwhy, n, rfl⟩
    · by_cases hxt : x = t
      · subst hxt
        simp only [State.goto, Function.update_self]
        exact hmove.knows hrun (hold x)
      · simp only [State.goto, Function.update_of_ne hxt]
        exact hkeep (hmove.other hxt)
    · obtain ⟨_, rfl⟩ := acquire_some hu
      by_cases hxt : x = t
      · subst hxt
        simp only [Function.update_self]
        exact .nothing (by simp) (by simp)
      · simp only [Function.update_of_ne hxt]
        refine hkeep ?_
        rcases hwhy with ⟨rfl, _⟩ | ⟨rfl, _⟩ <;> simp
    · exact hkeep (by simp)
    · refine hkeep ?_
      rcases hwhy with rfl | rfl <;> simp

/-- For every cap and every interleaving: the counter is the number of live guards, it keeps to the
cap, no drop takes it below zero, and who is refused had found it at the cap or above. -/
theorem cap_holds (cap : UInt64) (acts : List (Act Thread)) (s : State Thread)
    (h : exec (step cap) (State.new Thread) acts = some s) :
    s.inFlight.toNat = s.live.length ∧ (cap ≠ 0 → s.inFlight ≤ cap) ∧
      (∀ g u, step cap s (.drop g) = some u → u.inFlight.toNat + 1 = s.inFlight.toNat) ∧
      ∀ t, s.pcs t = .returned none → ∃ cur, LastLoad cap acts t cur ∧ cap ≤ cur := by
  have hcounts : Counts cap s :=
    exec_invariant (fun s a u hs hu => hs.step hu) (State.new Thread) s acts (counts_new cap) h
  refine ⟨hcounts.count, fun hne => ?_, fun g u hu => ?_, fun t ht => (knows_run cap acts s h t).refused ht⟩
  · rw [UInt64.le_iff_toNat_le, hcounts.count]
    exact hcounts.capped hne
  · simp only [step] at hu
    split at hu
    · next hg =>
      cases hu
      exact (hcounts.drop hg).1
    · cases hu

/-- Two threads over a cap of one: both load 0, the slower exchange fails, and its thread finds the
cap reached. -/
theorem cap_holds_race :
    let acts : List (Act ℕ) := [.call 0, .call 1, .load 0, .load 1, .check 0, .check 1,
      .compareExchange 1, .compareExchange 0, .load 0, .check 0]
    ∃ s, exec (step 1) (State.new ℕ) acts = some s ∧ s.pcs 0 = .returned none ∧
      ∃ cur, LastLoad 1 acts 0 cur ∧ 1 ≤ cur := by
  intro acts
  have hrun : ∃ s, exec (step 1) (State.new ℕ) acts = some s ∧ s.pcs 0 = .returned none :=
    ⟨_, rfl, rfl⟩
  obtain ⟨s, hs, hnone⟩ := hrun
  exact ⟨s, hs, hnone, (cap_holds 1 acts s hs).2.2.2 0 hnone⟩

/-! ### Alone -/

theorem goto_pcs (s : State Thread) (t : Thread) (pc : Pc) : (s.goto t pc).pcs t = pc :=
  Function.update_self ..

theorem goto_goto (s : State Thread) (t : Thread) (pc pc' : Pc) :
    (s.goto t pc).goto t pc' = s.goto t pc' := by
  simp only [State.goto, Function.update_idem]

theorem acquire_goto (s : State Thread) (t : Thread) (pc : Pc)
    (hroom : s.handles + s.live.length ≤ maxRefcount) :
    ∃ u, (s.goto t pc).acquire t = some u ∧ u.inFlight = s.inFlight + 1 ∧
      ∃ g ∈ u.live, u.pcs t = .returned (some g) := by
  refine ⟨_, if_neg (not_lt.mpr hroom), rfl, s.nextGuard, List.mem_cons_self .., ?_⟩
  exact Function.update_self ..

/-- A thread that nobody disturbs gets what `tryAcquire` gives on the counter as a number. -/
theorem acquire_alone {cap : UInt64} {s : State Thread} (h : Counts cap s) (t : Thread)
    (hidle : s.pcs t = .idle) (hroom : s.handles + s.live.length ≤ maxRefcount) :
    ∃ acts u, exec (step cap) s acts = some u ∧
      match Acceptor.SessionCap.tryAcquire ⟨s.inFlight.toNat, cap.toNat⟩ with
      | some c => u.inFlight.toNat = c.inFlight ∧ ∃ g ∈ u.live, u.pcs t = .returned (some g)
      | none => u.inFlight = s.inFlight ∧ u.pcs t = .returned none := by
  have hplus : (s.inFlight + 1).toNat = s.inFlight.toNat + 1 := by
    have hone : (1 : UInt64).toNat = 1 := rfl
    have hcount := h.count
    unfold maxRefcount at hroom
    rw [UInt64.toNat_add, hone]
    exact Nat.mod_eq_of_lt (by omega)
  by_cases hzero : cap = 0
  · have hcall : step cap s (.call t) = some (s.goto t .adding) := by
      simp only [step, hidle, hzero, if_true]
    obtain ⟨u, hu, hcount, hguard⟩ := acquire_goto s t .adding hroom
    have hadd : step cap (s.goto t .adding) (.fetchAdd t) = some u := by
      simp only [step, goto_pcs]
      exact hu
    refine ⟨[.call t, .fetchAdd t], u, ?_, ?_⟩
    · rw [exec_cons _ _ _ _ hcall, exec_cons _ _ _ _ hadd]
      rfl
    · have hsome : Acceptor.SessionCap.tryAcquire ⟨s.inFlight.toNat, cap.toNat⟩ =
          some ⟨s.inFlight.toNat + 1, cap.toNat⟩ := if_pos (Or.inl (by rw [hzero]; rfl))
      rw [hsome]
      exact ⟨by rw [hcount, hplus], hguard⟩
  · have hcall : step cap s (.call t) = some (s.goto t .loading) := by
      simp only [step, hidle, hzero, if_false]
    have hload : step cap (s.goto t .loading) (.load t) = some (s.goto t (.loaded s.inFlight)) := by
      simp only [step, goto_pcs, goto_goto]
      rfl
    have hcapNat : cap.toNat ≠ 0 := fun h0 => hzero (UInt64.toNat_inj.mp h0)
    by_cases hfull : cap ≤ s.inFlight
    · have hcheck : step cap (s.goto t (.loaded s.inFlight)) (.check t) =
          some (s.goto t (.returned none)) := by
        simp only [step, goto_pcs, hfull, if_true, goto_goto]
      refine ⟨[.call t, .load t, .check t], s.goto t (.returned none), ?_, ?_⟩
      · rw [exec_cons _ _ _ _ hcall, exec_cons _ _ _ _ hload, exec_cons _ _ _ _ hcheck]
        rfl
      · have hle := UInt64.le_iff_toNat_le.mp hfull
        have hnone : Acceptor.SessionCap.tryAcquire ⟨s.inFlight.toNat, cap.toNat⟩ = none :=
          if_neg (by simp only; omega)
        rw [hnone]
        exact ⟨rfl, goto_pcs s t _⟩
    · have hcheck : step cap (s.goto t (.loaded s.inFlight)) (.check t) =
          some (s.goto t (.exchanging s.inFlight)) := by
        simp only [step, goto_pcs, hfull, if_false, goto_goto]
      obtain ⟨u, hu, hcount, hguard⟩ := acquire_goto s t (.exchanging s.inFlight) hroom
      have hexchange : step cap (s.goto t (.exchanging s.inFlight)) (.compareExchange t) = some u := by
        have hsame : (s.goto t (.exchanging s.inFlight)).inFlight = s.inFlight := rfl
        simp only [step, goto_pcs]
        rw [if_pos hsame]
        exact hu
      refine ⟨[.call t, .load t, .check t, .compareExchange t], u, ?_, ?_⟩
      · rw [exec_cons _ _ _ _ hcall, exec_cons _ _ _ _ hload, exec_cons _ _ _ _ hcheck,
          exec_cons _ _ _ _ hexchange]
        rfl
      · have hlt := UInt64.lt_iff_toNat_lt.mp (UInt64.not_le.mp hfull)
        have hsome : Acceptor.SessionCap.tryAcquire ⟨s.inFlight.toNat, cap.toNat⟩ =
            some ⟨s.inFlight.toNat + 1, cap.toNat⟩ := if_pos (Or.inr hlt)
        rw [hsome]
        exact ⟨by rw [hcount, hplus], hguard⟩

end FiveNinesEcho.Limits.SessionCap
