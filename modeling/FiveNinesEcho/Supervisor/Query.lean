import FiveNinesEcho.Lib.Exec
import FiveNinesEcho.Supervisor.Link
import Mathlib.Logic.Function.Basic

/-!
# Concurrent status queries (`supervisor/control.rs:116-132`)

Any number of `query_status` calls on the link of one worker that stays connected and answers every
`Status` before its window is over. All calls share the one slot for a reply: a request overwrites
the sender it finds there, which closes the channel of the call that put it there; that call then
gives up and clears the slot, whoever's sender is in it by then.
-/

namespace FiveNinesEcho.Supervisor
open Lib
variable {ι : Type}

def statusWindow : ℕ := 750

/-- One call: not begun, waiting since its request, waiting on a channel whose sender is gone, with
the reply in its channel, about to clear the slot, returned. -/
inductive CallPc where
  | idle
  | waiting (since : ℕ)
  | dropped
  | answered (st : WorkerStatus)
  | clearing
  | returned (r : Option WorkerStatus)
  deriving Repr, DecidableEq

structure Queries (ι : Type) where
  link : WorkerLink ι
  call : ι → CallPc
  asked : List ℕ
  reports : List WorkerStatus
  now : ℕ

inductive QueryAct (ι : Type) where
  | request (i : ι)
  | answer (st : WorkerStatus)
  | resolve (i : ι)
  | clear (i : ι)
  | tick
  deriving Repr, DecidableEq

def CallPc.close : CallPc → CallPc
  | .waiting _ => .dropped
  | c => c

def CallPc.deliver (st : WorkerStatus) : CallPc → CallPc
  | .waiting _ => .answered st
  | c => c

variable [DecidableEq ι]

def Queries.atSlot (s : Queries ι) (f : CallPc → CallPc) : ι → CallPc :=
  match s.link.pendingStatus with
  | none => s.call
  | some j => Function.update s.call j (f (s.call j))

/-- One step of a call, the worker or the clock. The clock does not pass the end of a window whose
answer is outstanding: that is the worker's part. -/
def Queries.step (s : Queries ι) : QueryAct ι → Option (Queries ι)
  | .request i =>
    if s.call i = .idle then match s.link.request i with
      | some l => some { s with
          link := l
          call := Function.update (s.atSlot CallPc.close) i (.waiting s.now)
          asked := s.asked ++ [s.now] }
      | none => some { s with call := Function.update s.call i (.returned none) }
    else none
  | .answer st => match s.asked with
    | [] => none
    | _ :: rest => some { s with
        link := s.link.statusReport st
        call := s.atSlot (CallPc.deliver st)
        asked := rest
        reports := s.reports ++ [st] }
  | .resolve i => match s.call i with
    | .answered st => some { s with call := Function.update s.call i (.returned (some st)) }
    | .dropped => some { s with call := Function.update s.call i .clearing }
    | .waiting since =>
      if since + statusWindow ≤ s.now then
        some { s with call := Function.update s.call i .clearing }
      else none
    | _ => none
  | .clear i =>
    if s.call i = .clearing then
      some { s with
        link := s.link.clearPending
        call := Function.update (s.atSlot CallPc.close) i (.returned none) }
    else none
  | .tick =>
    if ∀ t ∈ s.asked, s.now + 1 < t + statusWindow then some { s with now := s.now + 1 } else none

def Queries.start (epoch : ℕ) (generation : Option ℕ) (pid : Option Handoff.Pid) : Queries ι :=
  ⟨⟨some epoch, none, generation, pid, epoch⟩, fun _ => .idle, [], [], 0⟩

def Queries.Alone (s : Queries ι) : QueryAct ι → Prop
  | .request _ => s.link.pendingStatus = none
  | _ => True

/-- The call has returned, or will return, nothing. -/
def CallPc.Doomed : CallPc → Prop
  | .dropped | .clearing | .returned none => True
  | _ => False

/-! ### While every request finds the slot empty -/

/-- The one call that waits, if any, is the one in the slot, and its request is the one the worker
still has to answer. -/
structure Queries.Inv (s : Queries ι) : Prop where
  connected : s.link.writer.isSome = true
  free : s.link.pendingStatus = none → s.asked = [] ∧ ∀ i t, s.call i ≠ .waiting t
  taken : ∀ j, s.link.pendingStatus = some j →
    ∃ t, s.call j = .waiting t ∧ s.asked = [t] ∧ s.now < t + statusWindow ∧
      ∀ i t', s.call i = .waiting t' → i = j
  calm : ∀ i, ¬ (s.call i).Doomed
  reported : ∀ i st, s.call i = .answered st ∨ s.call i = .returned (some st) → st ∈ s.reports

omit [DecidableEq ι] in
theorem Queries.start_inv (epoch : ℕ) (generation : Option ℕ) (pid : Option Handoff.Pid) :
    (Queries.start epoch generation pid : Queries ι).Inv := by
  constructor <;> simp [Queries.start, CallPc.Doomed]

omit [DecidableEq ι] in
theorem Queries.Inv.window {s : Queries ι} (hs : s.Inv) (i : ι) (since : ℕ)
    (hi : s.call i = .waiting since) : s.now < since + statusWindow := by
  cases hslot : s.link.pendingStatus with
  | none => exact absurd hi ((hs.free hslot).2 i since)
  | some j =>
    obtain ⟨t, hj, -, hnow, honly⟩ := hs.taken j hslot
    have hij := honly i since hi
    subst hij
    rw [hi, CallPc.waiting.injEq] at hj
    rwa [hj]

/-! One call changes: what is known of the others carries over. -/

theorem Queries.Inv.calm_update {s : Queries ι} (hs : s.Inv) (i : ι) (c : CallPc)
    (hc : ¬ c.Doomed) (k : ι) : ¬ (Function.update s.call i c k).Doomed := by
  apply (Function.forall_update_iff s.call fun _ c => ¬ c.Doomed).mpr
  exact ⟨hc, fun k _ => hs.calm k⟩

theorem Queries.Inv.reported_update {s : Queries ι} (hs : s.Inv) (i : ι) (c : CallPc)
    (reports : List WorkerStatus) (hsub : s.reports ⊆ reports)
    (hc : ∀ st, c = .answered st ∨ c = .returned (some st) → st ∈ reports) :
    ∀ k st, Function.update s.call i c k = .answered st ∨
      Function.update s.call i c k = .returned (some st) → st ∈ reports := by
  apply (Function.forall_update_iff s.call fun _ c =>
    ∀ st, c = .answered st ∨ c = .returned (some st) → st ∈ reports).mpr
  exact ⟨hc, fun k _ st hk => hsub (hs.reported k st hk)⟩

theorem update_waiting (call : ι → CallPc) (i : ι) (c : CallPc) (hc : ∀ t, c ≠ .waiting t) (k : ι)
    (t : ℕ) (hk : Function.update call i c k = .waiting t) : k ≠ i ∧ call k = .waiting t := by
  by_cases hki : k = i
  · subst hki
    rw [Function.update_self] at hk
    exact absurd hk (hc t)
  · rw [Function.update_of_ne hki] at hk
    exact ⟨hki, hk⟩

theorem Queries.request_inv (s t : Queries ι) (i : ι) (hs : s.Inv) (hg : s.Alone (.request i))
    (h : s.step (.request i) = some t) : t.Inv := by
  simp only [Queries.step, WorkerLink.request, hs.connected, if_true,
    Option.ite_none_right_eq_some, Option.some.injEq] at h
  obtain ⟨-, rfl⟩ := h
  have hslot : s.link.pendingStatus = none := hg
  obtain ⟨hasked, hnone⟩ := hs.free hslot
  have hat : s.atSlot CallPc.close = s.call := by simp only [Queries.atSlot, hslot]
  rw [hat]
  refine ⟨hs.connected, by simp, ?_, hs.calm_update i _ (by simp [CallPc.Doomed]),
    hs.reported_update i _ _ (List.Subset.refl _) (by simp)⟩
  intro j hj
  simp only [Option.some.injEq] at hj
  subst hj
  refine ⟨s.now, by simp, by simp [hasked], by simp [statusWindow], ?_⟩
  intro k t' hk
  by_contra hne
  simp only [Function.update_of_ne hne] at hk
  exact hnone k t' hk

theorem Queries.answer_inv (s t : Queries ι) (st : WorkerStatus) (hs : s.Inv)
    (h : s.step (.answer st) = some t) : t.Inv := by
  cases hslot : s.link.pendingStatus with
  | none =>
    obtain ⟨hasked, -⟩ := hs.free hslot
    simp [Queries.step, hasked] at h
  | some j =>
    obtain ⟨since, hj, hasked, -, honly⟩ := hs.taken j hslot
    have hat : s.atSlot (CallPc.deliver st) = Function.update s.call j (.answered st) := by
      simp only [Queries.atSlot, hslot, hj, CallPc.deliver]
    simp only [Queries.step, hasked, hat, Option.some.injEq] at h
    subst h
    refine ⟨hs.connected, fun _ => ⟨rfl, ?_⟩, by simp [WorkerLink.statusReport],
      hs.calm_update j _ (by simp [CallPc.Doomed]),
      hs.reported_update j _ _ (List.subset_append_left ..) (by simp)⟩
    intro k t hk
    obtain ⟨hkj, hk⟩ := update_waiting s.call j (.answered st) (by simp) k t hk
    exact hkj (honly k t hk)

theorem Queries.resolve_inv (s t : Queries ι) (i : ι) (hs : s.Inv)
    (h : s.step (.resolve i) = some t) : t.Inv := by
  cases hc : s.call i with
  | answered st =>
    simp only [Queries.step, hc, Option.some.injEq] at h
    subst h
    have hother := update_waiting s.call i (.returned (some st)) (by simp)
    have hst := hs.reported i st (Or.inl hc)
    refine ⟨hs.connected, fun hn => ⟨(hs.free hn).1, ?_⟩, ?_,
      hs.calm_update i _ (by simp [CallPc.Doomed]),
      hs.reported_update i _ _ (List.Subset.refl _) (by simp [hst])⟩
    · intro k t hk
      exact (hs.free hn).2 k t (hother k t hk).2
    · intro j hj
      obtain ⟨since, hjw, hasked, hnow, honly⟩ := hs.taken j hj
      have hji : j ≠ i := by
        rintro rfl
        simp [hc] at hjw
      exact ⟨since, by simp [Function.update_of_ne hji, hjw], hasked, hnow,
        fun k t hk => honly k t (hother k t hk).2⟩
  | waiting since =>
    -- the window of a waiting call is not over: its answer is still outstanding
    have hwin := hs.window i since hc
    simp only [Queries.step, hc, Option.ite_none_right_eq_some] at h
    omega
  | dropped => exact absurd (by simp [hc, CallPc.Doomed]) (hs.calm i)
  | idle => simp [Queries.step, hc] at h
  | clearing => simp [Queries.step, hc] at h
  | returned r => simp [Queries.step, hc] at h

theorem Queries.step_inv (s t : Queries ι) (a : QueryAct ι) (hs : s.Inv) (hg : s.Alone a)
    (h : s.step a = some t) : t.Inv := by
  cases a with
  | request i => exact Queries.request_inv s t i hs hg h
  | answer st => exact Queries.answer_inv s t st hs h
  | resolve i => exact Queries.resolve_inv s t i hs h
  | clear i =>
    simp only [Queries.step, Option.ite_none_right_eq_some] at h
    exact absurd (by simp [h.1, CallPc.Doomed]) (hs.calm i)
  | tick =>
    simp only [Queries.step, Option.ite_none_right_eq_some, Option.some.injEq] at h
    obtain ⟨hwin, rfl⟩ := h
    refine ⟨hs.connected, hs.free, ?_, hs.calm, hs.reported⟩
    intro j hj
    obtain ⟨since, hjw, hasked, -, honly⟩ := hs.taken j hj
    exact ⟨since, hjw, hasked, hwin since (by simp [hasked]), honly⟩

/-! ### When a request finds another one -/

theorem atSlot_doomed (s : Queries ι) (f : CallPc → CallPc) (hf : ∀ c, c.Doomed → (f c).Doomed)
    (i : ι) (h : (s.call i).Doomed) : (s.atSlot f i).Doomed := by
  cases hslot : s.link.pendingStatus with
  | none => simpa only [Queries.atSlot, hslot] using h
  | some j =>
    simp only [Queries.atSlot, hslot]
    by_cases hij : i = j
    · subst hij
      rw [Function.update_self]
      exact hf _ h
    · rw [Function.update_of_ne hij]
      exact h

omit [DecidableEq ι] in
theorem close_doomed (c : CallPc) (h : c.Doomed) : c.close.Doomed := by
  cases c <;> simp_all [CallPc.close, CallPc.Doomed]

omit [DecidableEq ι] in
theorem deliver_doomed (st : WorkerStatus) (c : CallPc) (h : c.Doomed) : (c.deliver st).Doomed := by
  cases c <;> simp_all [CallPc.deliver, CallPc.Doomed]

theorem Queries.step_doomed (s t : Queries ι) (a : QueryAct ι) (i : ι) (hd : (s.call i).Doomed)
    (h : s.step a = some t) : (t.call i).Doomed := by
  cases a with
  | request j =>
    simp only [Queries.step, Option.ite_none_right_eq_some] at h
    obtain ⟨hidle, h⟩ := h
    have hij : i ≠ j := by
      rintro rfl
      simp [hidle, CallPc.Doomed] at hd
    split at h <;> cases h <;> simp only [Function.update_of_ne hij]
    · exact atSlot_doomed s CallPc.close close_doomed i hd
    · exact hd
  | answer st =>
    simp only [Queries.step] at h
    split at h
    · cases h
    · cases h
      exact atSlot_doomed s (CallPc.deliver st) (deliver_doomed st) i hd
  | resolve j =>
    by_cases hij : i = j
    · subst hij
      cases hc : s.call i with
      | dropped =>
        simp only [Queries.step, hc, Option.some.injEq] at h
        simp [← h, CallPc.Doomed]
      | answered st => simp [hc, CallPc.Doomed] at hd
      | waiting since => simp [hc, CallPc.Doomed] at hd
      | idle => simp [Queries.step, hc] at h
      | clearing => simp [Queries.step, hc] at h
      | returned r => simp [Queries.step, hc] at h
    · have hcall : t.call i = s.call i := by
        simp only [Queries.step] at h
        split at h
        · cases h
          exact Function.update_of_ne hij _ _
        · cases h
          exact Function.update_of_ne hij _ _
        · split at h <;> cases h
          exact Function.update_of_ne hij _ _
        · cases h
      rw [hcall]
      exact hd
  | clear j =>
    simp only [Queries.step, Option.ite_none_right_eq_some, Option.some.injEq] at h
    obtain ⟨-, rfl⟩ := h
    by_cases hij : i = j
    · subst hij
      simp [CallPc.Doomed]
    · simp only [Function.update_of_ne hij]
      exact atSlot_doomed s CallPc.close close_doomed i hd
  | tick =>
    simp only [Queries.step, Option.ite_none_right_eq_some, Option.some.injEq] at h
    obtain ⟨-, rfl⟩ := h
    exact hd

theorem Queries.overwrite_doomed (s t : Queries ι) (a : QueryAct ι) (hs : s.Inv)
    (hg : ¬ s.Alone a) (h : s.step a = some t) : ∃ j, (t.call j).Doomed := by
  cases a with
  | request i =>
    obtain ⟨j, hslot⟩ := Option.ne_none_iff_exists'.mp hg
    obtain ⟨since, hj, -⟩ := hs.taken j hslot
    simp only [Queries.step, WorkerLink.request, hs.connected, if_true,
      Option.ite_none_right_eq_some, Option.some.injEq] at h
    obtain ⟨hidle, rfl⟩ := h
    have hji : j ≠ i := by
      rintro rfl
      simp [hidle] at hj
    refine ⟨j, ?_⟩
    simp [Function.update_of_ne hji, Queries.atSlot, hslot, hj, CallPc.close, CallPc.Doomed]
  | answer st => exact absurd trivial hg
  | resolve i => exact absurd trivial hg
  | clear i => exact absurd trivial hg
  | tick => exact absurd trivial hg

theorem Queries.alone_iff (s t : Queries ι) (as : List (QueryAct ι)) (hs : s.Inv)
    (h : exec Queries.step s as = some t) :
    Along Queries.step Queries.Alone s as ↔ ∀ i, ¬ (t.call i).Doomed := by
  induction as generalizing s with
  | nil =>
    have hst : s = t := Option.some.inj h
    subst hst
    exact iff_of_true trivial hs.calm
  | cons a as ih =>
    obtain ⟨m, hm, hrest⟩ := exec_cons_some s t a as h
    by_cases hg : s.Alone a
    · rw [← ih m (Queries.step_inv s m a hs hg hm) hrest]
      constructor
      · exact fun hal => hal.2 m hm
      · intro hal
        refine ⟨hg, ?_⟩
        intro m' hm'
        have hmm : m = m' := Option.some.inj (hm.symm.trans hm')
        exact hmm ▸ hal
    · obtain ⟨j, hj⟩ := Queries.overwrite_doomed s m a hs hg hm
      have hend : (t.call j).Doomed := exec_invariant (I := fun s : Queries ι => (s.call j).Doomed)
        (fun s a t hd h => Queries.step_doomed s t a j hd h) m t as hj hrest
      exact iff_of_false (fun hal => hg hal.1) (fun hno => hno j hend)

/-! ### What the callers see -/

inductive UpgradePhase where
  | starting
  | done
  | timeout
  | skipped
  | canaryAborted
  deriving Repr, DecidableEq

structure UpgradeStep where
  worker : String
  phase : UpgradePhase
  generationBefore : Option ℕ
  generationAfter : Option ℕ
  ok : Bool
  message : Option String
  deriving Repr, DecidableEq

/-- The first step `upgrade_one` reports (`supervisor/admin.rs:195-225`). -/
def upgradeOneFirst (role : String) : Option WorkerStatus → UpgradeStep
  | none => ⟨role, .skipped, none, none, false, some "no control connection"⟩
  | some st => ⟨role, .starting, some st.generation, none, true, none⟩

theorem Queries.Inv.returns {s : Queries ι} (hs : s.Inv) (i : ι) (hi : s.call i ≠ .idle)
    (st : WorkerStatus) :
    ∃ bs t r, bs.Sublist [.answer st, .resolve i] ∧ exec Queries.step s bs = some t ∧
      t.call i = .returned (some r) ∧ r ∈ t.reports := by
  cases hc : s.call i with
  | idle => exact absurd hc hi
  | returned r =>
    cases r with
    | none => exact absurd (by simp [hc, CallPc.Doomed]) (hs.calm i)
    | some r => exact ⟨[], s, r, by simp, rfl, hc, hs.reported i r (Or.inr hc)⟩
  | answered r =>
    refine ⟨[.resolve i], { s with call := Function.update s.call i (.returned (some r)) }, r,
      by simp, ?_, by simp, hs.reported i r (Or.inl hc)⟩
    simp [exec, Queries.step, hc]
  | waiting since =>
    cases hslot : s.link.pendingStatus with
    | none => exact absurd hc ((hs.free hslot).2 i since)
    | some j =>
      obtain ⟨t', -, hasked, -, honly⟩ := hs.taken j hslot
      have hij := honly i since hc
      subst hij
      refine ⟨[.answer st, .resolve i],
        { s with
          link := s.link.statusReport st
          call := Function.update (Function.update s.call i (.answered st)) i (.returned (some st))
          asked := []
          reports := s.reports ++ [st] }, st, List.Sublist.refl _, ?_, by simp, by simp⟩
      simp [exec, Queries.step, hasked, Queries.atSlot, hslot, hc, CallPc.deliver]
  | dropped => exact absurd (by simp [hc, CallPc.Doomed]) (hs.calm i)
  | clearing => exact absurd (by simp [hc, CallPc.Doomed]) (hs.calm i)

/-- Exactly when no reply is lost. In a run of any number of calls on the link of a worker that
answers in time, every request finding the slot empty is what it takes for no call to return
nothing; then no window runs out, and each call that has begun returns a status the worker reported,
so `upgrade_one` does not skip the role. -/
theorem status_replies_iff (epoch : ℕ) (generation : Option ℕ) (pid : Option Handoff.Pid)
    (as : List (QueryAct ι)) (s : Queries ι)
    (hrun : exec Queries.step (Queries.start epoch generation pid) as = some s) :
    (Along Queries.step Queries.Alone (Queries.start epoch generation pid) as ↔
      ∀ i, ¬ (s.call i).Doomed) ∧
    (Along Queries.step Queries.Alone (Queries.start epoch generation pid) as →
      (∀ i r, s.call i = .returned r → (∃ st, r = some st ∧ st ∈ s.reports) ∧
        ∀ role, (upgradeOneFirst role r).phase = .starting) ∧
      (∀ i since, s.call i = .waiting since → s.now < since + statusWindow) ∧
      ∀ i (st : WorkerStatus), s.call i ≠ .idle → ∃ bs t r, bs.Sublist [.answer st, .resolve i] ∧
        exec Queries.step s bs = some t ∧ t.call i = .returned (some r) ∧ r ∈ t.reports) := by
  have hstart := Queries.start_inv (ι := ι) epoch generation pid
  refine ⟨Queries.alone_iff _ s as hstart hrun, ?_⟩
  intro halone
  have hinv : s.Inv := exec_along (fun s a t hs hg h => Queries.step_inv s t a hs hg h) _ s as
    hstart halone hrun
  refine ⟨?_, hinv.window, fun i st hi => hinv.returns i hi st⟩
  intro i r hr
  cases r with
  | none => exact absurd (by simp [hr, CallPc.Doomed]) (hinv.calm i)
  | some st => exact ⟨⟨st, rfl, hinv.reported i st (Or.inr hr)⟩, fun role => rfl⟩

def someStatus : WorkerStatus := ⟨"processor", 42, 3, 0, 0, none, none⟩

def sequentialRun : List (QueryAct ℕ) :=
  [.request 0, .answer someStatus, .resolve 0, .tick, .request 1, .answer someStatus, .resolve 1]

theorem status_replies_sequential :
    ∃ s, exec Queries.step (Queries.start 1 none none) sequentialRun = some s ∧
      s.call 1 = .returned (some someStatus) ∧ someStatus ∈ s.reports := by
  have hend : (exec Queries.step (Queries.start 1 none none) sequentialRun).map (·.call 1) =
      some (.returned (some someStatus)) := by decide
  obtain ⟨s, hs, hc⟩ := Option.map_eq_some_iff.mp hend
  have halone : Along Queries.step Queries.Alone (Queries.start 1 none none) sequentialRun := by
    simp [Along, sequentialRun, Queries.Alone, Queries.step, Queries.start, WorkerLink.request,
      WorkerLink.statusReport, Queries.atSlot, CallPc.deliver]
  obtain ⟨-, hret⟩ := status_replies_iff 1 none none sequentialRun s hs
  obtain ⟨⟨st, hst, hm⟩, -⟩ := (hret halone).1 1 _ hc
  exact ⟨s, hs, hc, Option.some.inj hst ▸ hm⟩

/-- Two queries at once on a worker that answers both: neither gets a reply, and an `upgrade_one`
that asked first skips the role. -/
theorem status_replies_lost :
    ∃ s, exec Queries.step (Queries.start 1 none none)
        [.request (0 : ℕ), .request 1, .resolve 0, .clear 0, .answer someStatus, .answer someStatus,
          .resolve 1, .clear 1] = some s ∧
      s.call 0 = .returned none ∧ s.call 1 = .returned none ∧ s.now = 0 ∧ s.asked = [] ∧
      upgradeOneFirst "processor" none =
        ⟨"processor", .skipped, none, none, false, some "no control connection"⟩ := by
  have hend : (exec Queries.step (Queries.start 1 none none)
      [.request (0 : ℕ), .request 1, .resolve 0, .clear 0, .answer someStatus, .answer someStatus,
        .resolve 1, .clear 1]).map (fun s => (s.call 0, s.call 1, s.now, s.asked)) =
      some (.returned none, .returned none, 0, []) := by decide
  obtain ⟨s, hs, hc⟩ := Option.map_eq_some_iff.mp hend
  simp only [Prod.mk.injEq] at hc
  exact ⟨s, hs, hc.1, hc.2.1, hc.2.2.1, hc.2.2.2, rfl⟩

end FiveNinesEcho.Supervisor
