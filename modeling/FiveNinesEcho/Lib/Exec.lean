import Mathlib.Data.List.Basic
import Mathlib.Data.List.Induction

/-!
# Partial step functions and their runs

A program, or several programs taking turns, is given by a partial step function
`step : σ → α → Option σ`: a label `a : α` says who moves and how, `none` says that the move is not
enabled. `exec` follows a list of labels. The rules below are what every development over such a
function needs once: a step invariant is a run invariant, a rank that falls bounds the runs, and a
rank that can be made to fall reaches a goal.
-/

namespace FiveNinesEcho.Lib
variable {σ α : Type*}

/-- Follow a list of labels; `none` as soon as one of them is not enabled. -/
def exec (step : σ → α → Option σ) : σ → List α → Option σ
  | s, [] => some s
  | s, a :: as => match step s a with
    | none => none
    | some t => exec step t as

/-- Every step taken from `s` along the labels meets `G`, which may look at the state before it. -/
def Along (step : σ → α → Option σ) (G : σ → α → Prop) : σ → List α → Prop
  | _, [] => True
  | s, a :: as => G s a ∧ ∀ t, step s a = some t → Along step G t as

instance decidableAlong (step : σ → α → Option σ) (G : σ → α → Prop)
    [∀ s a, Decidable (G s a)] : ∀ s as, Decidable (Along step G s as)
  | _, [] => isTrue trivial
  | s, a :: as => match h : step s a with
    | none => decidable_of_iff (G s a) (by simp [Along, h])
    | some t =>
      haveI := decidableAlong step G t as
      decidable_of_iff (G s a ∧ Along step G t as) (by simp [Along, h])

/-- How many steps along the labels meet `P`. -/
def tally (step : σ → α → Option σ) (P : σ → α → Bool) : σ → List α → ℕ
  | _, [] => 0
  | s, a :: as => (P s a).toNat + match step s a with
    | none => 0
    | some t => tally step P t as

def Reachable (step : σ → α → Option σ) (s t : σ) : Prop := ∃ as, exec step s as = some t

variable {step : σ → α → Option σ}

theorem exec_cons (s t : σ) (a : α) (as : List α) (h : step s a = some t) :
    exec step s (a :: as) = exec step t as := by
  simp only [exec, h]

theorem exec_cons_some (s u : σ) (a : α) (as : List α) (h : exec step s (a :: as) = some u) :
    ∃ t, step s a = some t ∧ exec step t as = some u := by
  cases ha : step s a with
  | none => simp [exec, ha] at h
  | some t => exact ⟨t, rfl, by simpa only [exec, ha] using h⟩

theorem exec_append (s t u : σ) (as bs : List α) (ha : exec step s as = some t)
    (hb : exec step t bs = some u) : exec step s (as ++ bs) = some u := by
  induction as generalizing s with
  | nil =>
    have hst : s = t := Option.some.inj ha
    rw [hst]
    exact hb
  | cons a as ih =>
    obtain ⟨m, hm, hrest⟩ := exec_cons_some s t a as ha
    rw [List.cons_append, exec_cons s m a _ hm]
    exact ih m hrest

theorem exec_append_some (s u : σ) (as bs : List α) (h : exec step s (as ++ bs) = some u) :
    ∃ t, exec step s as = some t ∧ exec step t bs = some u := by
  induction as generalizing s with
  | nil => exact ⟨s, rfl, h⟩
  | cons a as ih =>
    obtain ⟨m, hm, hrest⟩ := exec_cons_some s u a (as ++ bs) h
    obtain ⟨t, ht, hu⟩ := ih m hrest
    exact ⟨t, by rw [exec_cons s m a as hm]; exact ht, hu⟩

theorem Reachable.refl (s : σ) : Reachable step s s := ⟨[], rfl⟩

/-- Run rule with a guard: an invariant kept by every step that meets `G` holds at the end of
every run whose steps all meet `G`. -/
theorem exec_along {I : σ → Prop} {G : σ → α → Prop}
    (hstep : ∀ s a t, I s → G s a → step s a = some t → I t) (s t : σ) (as : List α) (hs : I s)
    (hg : Along step G s as) (h : exec step s as = some t) : I t := by
  induction as generalizing s with
  | nil =>
    have hst : s = t := Option.some.inj h
    rw [← hst]
    exact hs
  | cons a as ih =>
    obtain ⟨m, hm, hrest⟩ := exec_cons_some s t a as h
    exact ih m (hstep s a m hs hg.1 hm) (hg.2 m hm) hrest

theorem along_append {G : σ → α → Prop} {s t : σ} {as bs : List α} (h : exec step s as = some t)
    (hg : Along step G s (as ++ bs)) : Along step G s as ∧ Along step G t bs := by
  induction as generalizing s with
  | nil =>
    have hst : s = t := Option.some.inj h
    subst hst
    exact ⟨trivial, hg⟩
  | cons a as ih =>
    obtain ⟨m, hm, hrest⟩ := exec_cons_some s t a as h
    obtain ⟨hleft, hright⟩ := ih hrest (hg.2 m hm)
    refine ⟨⟨hg.1, ?_⟩, hright⟩
    intro m' hm'
    cases hm.symm.trans hm'
    exact hleft

theorem along_join {G : σ → α → Prop} {s t : σ} {as bs : List α} (h : exec step s as = some t)
    (has : Along step G s as) (hbs : Along step G t bs) : Along step G s (as ++ bs) := by
  induction as generalizing s with
  | nil =>
    have hst : s = t := Option.some.inj h
    subst hst
    exact hbs
  | cons a as ih =>
    obtain ⟨m, hm, hrest⟩ := exec_cons_some s t a as h
    refine ⟨has.1, ?_⟩
    intro m' hm'
    cases hm.symm.trans hm'
    exact ih hrest (has.2 m hm)

theorem along_and {G H : σ → α → Prop} {s : σ} {as : List α} (hg : Along step G s as)
    (hh : Along step H s as) : Along step (fun s a => G s a ∧ H s a) s as := by
  induction as generalizing s with
  | nil => trivial
  | cons a as ih => exact ⟨⟨hg.1, hh.1⟩, fun t ht => ih (hg.2 t ht) (hh.2 t ht)⟩

theorem along_true (s : σ) (as : List α) : Along step (fun _ _ => True) s as := by
  induction as generalizing s with
  | nil => trivial
  | cons a as ih => exact ⟨trivial, fun t _ => ih t⟩

theorem along_of_forall {G : σ → α → Prop} (P : α → Prop) (hP : ∀ s a, P a → G s a) (s : σ)
    (as : List α) (h : ∀ a ∈ as, P a) : Along step G s as := by
  induction as generalizing s with
  | nil => trivial
  | cons a as ih =>
    refine ⟨hP s a (h a (List.mem_cons_self ..)), fun t _ => ih t ?_⟩
    exact fun b hb => h b (List.mem_cons_of_mem _ hb)

/-- A property of steps that an invariant and the guard give together holds along the run. -/
theorem along_of_invariant {I : σ → Prop} {G P : σ → α → Prop}
    (hstep : ∀ s a t, I s → G s a → step s a = some t → I t)
    (hprop : ∀ s a, I s → G s a → P s a) (s : σ) (as : List α) (hs : I s)
    (hg : Along step G s as) : Along step P s as := by
  induction as generalizing s with
  | nil => trivial
  | cons a as ih =>
    refine ⟨hprop s a hs hg.1, ?_⟩
    intro t ht
    exact ih t (hstep s a t hs hg.1 ht) (hg.2 t ht)

/-- Read backwards: where a step off the guard spoils the run for good, a run that ends unspoilt
kept to the guard. -/
theorem along_of_end {I B : σ → Prop} {P : α → Prop} {G : σ → α → Prop}
    (hstep : ∀ s a t, I s → P a → step s a = some t → I t ∧ (¬ G s a → B t))
    (hbad : ∀ s a t, I s → B s → P a → step s a = some t → B t) (s t : σ) (as : List α)
    (hs : I s) (hP : ∀ a ∈ as, P a) (h : exec step s as = some t) (hend : ¬ B t) :
    Along step G s as := by
  induction as generalizing s with
  | nil => trivial
  | cons a as ih =>
    have ha := hP a (List.mem_cons_self ..)
    have has : ∀ b ∈ as, P b := fun b hb => hP b (List.mem_cons_of_mem _ hb)
    obtain ⟨m, hm, hrest⟩ := exec_cons_some s t a as h
    obtain ⟨hi, hoff⟩ := hstep s a m hs ha hm
    constructor
    · by_contra hg
      apply hend
      have hkeep : I t ∧ B t := by
        refine exec_along (I := fun s => I s ∧ B s) (G := fun _ a => P a) ?_ m t as
          ⟨hi, hoff hg⟩ (along_of_forall P (fun _ _ h => h) m as has) hrest
        intro s a t hs ha ht
        exact ⟨(hstep s a t hs.1 ha ht).1, hbad s a t hs.1 hs.2 ha ht⟩
      exact hkeep.2
    · intro m' hm'
      cases hm.symm.trans hm'
      exact ih m hi has hrest

/-- A run seen through a view: where every step either leaves the view alone or is a step of the
viewed machine, the labels that are seen make a run of it. -/
theorem exec_project {τ β : Type*} {step' : τ → β → Option τ} {I : σ → Prop} {G : σ → α → Prop}
    (view : σ → τ) (label : α → Option β)
    (hinv : ∀ s a t, I s → G s a → step s a = some t → I t)
    (hnone : ∀ s a t, I s → G s a → label a = none → step s a = some t → view t = view s)
    (hsome : ∀ s a t b, I s → G s a → label a = some b → step s a = some t →
      step' (view s) b = some (view t)) (s t : σ) (as : List α) (hs : I s)
    (hg : Along step G s as) (h : exec step s as = some t) :
    exec step' (view s) (as.filterMap label) = some (view t) := by
  induction as generalizing s with
  | nil =>
    have hst : s = t := Option.some.inj h
    rw [hst]
    rfl
  | cons a as ih =>
    obtain ⟨m, hm, hrest⟩ := exec_cons_some s t a as h
    have hview := ih m (hinv s a m hs hg.1 hm) (hg.2 m hm) hrest
    cases ha : label a with
    | none =>
      rw [List.filterMap_cons_none ha, ← hnone s a m hs hg.1 ha hm]
      exact hview
    | some b =>
      rw [List.filterMap_cons_some ha, exec_cons _ _ b _ (hsome s a m b hs hg.1 ha hm)]
      exact hview

/-- Run rule for a simulation: where every step of one machine is matched by a run of the other,
so is every run. -/
theorem exec_simulate {τ β : Type*} {step' : τ → β → Option τ} {R : σ → τ → Prop}
    (hstep : ∀ s a t x, R s x → step s a = some t → ∃ bs y, exec step' x bs = some y ∧ R t y)
    (s t : σ) (x : τ) (as : List α) (hs : R s x) (h : exec step s as = some t) :
    ∃ bs y, exec step' x bs = some y ∧ R t y := by
  induction as generalizing s x with
  | nil =>
    have hst : s = t := Option.some.inj h
    subst hst
    exact ⟨[], x, rfl, hs⟩
  | cons a as ih =>
    obtain ⟨m, hm, hrest⟩ := exec_cons_some s t a as h
    obtain ⟨bs, y, hbs, hy⟩ := hstep s a m x hs hm
    obtain ⟨cs, z, hcs, hz⟩ := ih m y hy hrest
    exact ⟨bs ++ cs, z, exec_append x y z bs cs hbs hcs, hz⟩

theorem exec_invariant {I : σ → Prop} (hstep : ∀ s a t, I s → step s a = some t → I t) (s t : σ)
    (as : List α) (hs : I s) (h : exec step s as = some t) : I t :=
  exec_along (G := fun _ _ => True) (fun s a t hi _ ht => hstep s a t hi ht) s t as hs
    (along_true s as) h

/-- Run rule for a property of the run so far: it holds of the empty run and each step extends it. -/
theorem exec_history {I : List α → σ → Prop} (s : σ) (hs : I [] s)
    (hstep : ∀ as t a u, exec step s as = some t → I as t → step t a = some u → I (as ++ [a]) u)
    (as : List α) (t : σ) (h : exec step s as = some t) : I as t := by
  induction as using List.reverseRecOn generalizing t with
  | nil =>
    have hst : s = t := Option.some.inj h
    rw [← hst]
    exact hs
  | append_singleton as a ih =>
    obtain ⟨m, hm, hlast⟩ := exec_append_some s t as [a] h
    obtain ⟨u, hu, hend⟩ := exec_cons_some m t a [] hlast
    cases hend
    exact hstep as m a t hm (ih m hm) hu

theorem tally_concat (P : σ → α → Bool) (s t : σ) (as : List α) (a : α)
    (h : exec step s as = some t) :
    tally step P s (as ++ [a]) = tally step P s as + (P t a).toNat := by
  induction as generalizing s with
  | nil =>
    have hst : s = t := Option.some.inj h
    subst hst
    simp only [List.nil_append, tally, Nat.zero_add, Nat.add_eq_left]
    split <;> rfl
  | cons b as ih =>
    obtain ⟨m, hm, hrest⟩ := exec_cons_some s t b as h
    simp only [List.cons_append, tally, hm, ih m hrest, Nat.add_assoc]

theorem tally_eq_zero_iff (P : σ → α → Bool) (s t : σ) (as : List α)
    (h : exec step s as = some t) :
    tally step P s as = 0 ↔ Along step (fun s a => P s a = false) s as := by
  induction as generalizing s with
  | nil => simp [tally, Along]
  | cons a as ih =>
    obtain ⟨m, hm, hrest⟩ := exec_cons_some s t a as h
    simp only [tally, hm, Along, Nat.add_eq_zero_iff, ih m hrest, Option.some.injEq, forall_eq',
      Bool.toNat_eq_zero]

/-- A rank that falls with every step of a class bounds the number of such steps in a row. -/
theorem exec_length_le {I : σ → Prop} {P : α → Prop} (rank : σ → ℕ)
    (hstep : ∀ s a t, I s → P a → step s a = some t → I t ∧ rank t < rank s) (s t : σ)
    (as : List α) (hs : I s) (hP : ∀ a ∈ as, P a) (h : exec step s as = some t) :
    as.length + rank t ≤ rank s := by
  induction as generalizing s with
  | nil =>
    have hst : s = t := Option.some.inj h
    rw [hst]
    simp
  | cons a as ih =>
    obtain ⟨m, hm, hrest⟩ := exec_cons_some s t a as h
    obtain ⟨hi, hlt⟩ := hstep s a m hs (hP a (List.mem_cons_self ..)) hm
    have hle := ih m hi (fun b hb => hP b (List.mem_cons_of_mem _ hb)) hrest
    simp only [List.length_cons]
    omega

/-- If in every state short of the goal some step that meets `G` lowers the rank, the goal is reached
by such steps alone. -/
theorem exec_to_goal_along {I Q : σ → Prop} {G : σ → α → Prop} (rank : σ → ℕ)
    (hstep : ∀ s, I s → ¬ Q s → ∃ a t, G s a ∧ step s a = some t ∧ I t ∧ rank t < rank s)
    (s : σ) (hs : I s) :
    ∃ as t, Along step G s as ∧ exec step s as = some t ∧ I t ∧ Q t := by
  -- induction on the rank: a goal state needs no step, any other one a single step downwards
  induction hn : rank s using Nat.strongRecOn generalizing s with
  | _ n ih =>
    by_cases hg : Q s
    · exact ⟨[], s, trivial, rfl, hs, hg⟩
    · obtain ⟨a, m, ha, hm, hi, hlt⟩ := hstep s hs hg
      obtain ⟨as, t, hG, hrun, hit, hgt⟩ := ih (rank m) (by omega) m hi rfl
      refine ⟨a :: as, t, ⟨ha, ?_⟩, by rw [exec_cons s m a as hm]; exact hrun, hit, hgt⟩
      intro m' hm'
      cases hm.symm.trans hm'
      exact hG

theorem forall_of_along {P : α → Prop} (s t : σ) (as : List α)
    (hg : Along step (fun _ a => P a) s as) (h : exec step s as = some t) : ∀ a ∈ as, P a := by
  induction as generalizing s with
  | nil => simp
  | cons a as ih =>
    obtain ⟨m, hm, hrest⟩ := exec_cons_some s t a as h
    intro b hb
    rcases List.mem_cons.mp hb with rfl | hb
    · exact hg.1
    · exact ih m (hg.2 m hm) hrest b hb

/-- If in every state short of the goal some step of a class lowers the rank, the goal is reached
by steps of that class alone. -/
theorem exec_to_goal {I Q : σ → Prop} {P : α → Prop} (rank : σ → ℕ)
    (hstep : ∀ s, I s → ¬ Q s → ∃ a t, P a ∧ step s a = some t ∧ I t ∧ rank t < rank s)
    (s : σ) (hs : I s) :
    ∃ as t, (∀ a ∈ as, P a) ∧ exec step s as = some t ∧ I t ∧ Q t := by
  obtain ⟨as, t, hg, hrun, hi, hq⟩ := exec_to_goal_along (G := fun _ a => P a) rank hstep s hs
  exact ⟨as, t, forall_of_along s t as hg hrun, hrun, hi, hq⟩

end FiveNinesEcho.Lib
