import FiveNinesEcho.Lib.Exec
import FiveNinesEcho.Handoff

/-!
# Accepting during an upgrade (`processor.rs:205-344`, `processor/upgrade.rs:368-412`)

A connection is accepted by the main loop, reads its preamble in a detached task
(`dispatch_incoming`) and only then enters the registry (`spawn_session`). The upgrade takes the
registry once, waits for those sessions one by one, and streams their records to the child. The
accept loop stands still meanwhile, the detached tasks do not: a connection accepted before the
upgrade can register after the registry was taken, or not at all before the process exits.
-/

namespace FiveNinesEcho.Processor
open Lib Handoff

inductive ConnKind where
  | session
  | sidecar
  | bad
  deriving Repr, DecidableEq

/-- How far a connection has come: in `dispatch_incoming`, in a session task, in a record, ended,
closed because its record could not be made, or attached as the scanner's sidecar. -/
inductive ConnStage where
  | preamble
  | running
  | handed
  | ended
  | dropped
  | sidecar
  deriving Repr, DecidableEq

structure Conn where
  kind : ConnKind
  stage : ConnStage
  deriving Repr, DecidableEq

/-- Where the main loop stands: accepting; in `do_upgrade` before and after the registry was taken;
waiting for the child; gone. -/
inductive LoopPhase where
  | serving
  | upgrading
  | draining
  | awaiting
  | exited (code : ℕ)
  deriving Repr, DecidableEq

/-- A processor and the connections it accepted, numbered in order. `pending` is what the drain has
taken and not awaited yet, `payload` what it has the records of. -/
structure Dispatch where
  phase : LoopPhase
  next : ℕ
  conn : ℕ → Option Conn
  registry : List ℕ
  pending : List ℕ
  payload : List ℕ

inductive DispatchAct where
  | accept (k : ConnKind)
  | preamble (i : ℕ)
  | sessionEnd (i : ℕ)
  | beginUpgrade
  | takeRegistry
  | handoff
  | handoffFails
  | spawn
  | commit
  | rollback
  deriving Repr, DecidableEq

def Dispatch.setStage (s : Dispatch) (i : ℕ) (c : Conn) (g : ConnStage) : Dispatch :=
  { s with conn := Function.update s.conn i (some { c with stage := g }) }

def LoopPhase.up : LoopPhase → Bool
  | .exited _ => false
  | _ => true

def LoopPhase.early : LoopPhase → Bool
  | .serving | .upgrading => true
  | _ => false

def Dispatch.readPreamble (s : Dispatch) (i : ℕ) (c : Conn) : Dispatch :=
  match c.kind with
  | .session => { s.setStage i c .running with registry := s.registry ++ [i] }
  | .sidecar => s.setStage i c .sidecar
  | .bad => s.setStage i c .ended

/-- One move of the main loop or of a detached task. `handoff` awaits the next session of the
drain: a record, or nothing from a session that ended meanwhile. -/
def Dispatch.step (s : Dispatch) : DispatchAct → Option Dispatch
  | .accept k =>
    if s.phase = .serving then
      some { s with conn := Function.update s.conn s.next (some ⟨k, .preamble⟩), next := s.next + 1 }
    else none
  | .preamble i => (s.conn i).bind fun c =>
    if s.phase.up = true ∧ c.stage = .preamble then some (s.readPreamble i c) else none
  | .sessionEnd i => (s.conn i).bind fun c =>
    if s.phase.up = true ∧ c.stage = .running then
      some { s.setStage i c .ended with registry := s.registry.filter (· ≠ i) }
    else none
  | .beginUpgrade => if s.phase = .serving then some { s with phase := .upgrading } else none
  | .takeRegistry =>
    if s.phase = .upgrading then
      some { s with phase := .draining, pending := s.registry, registry := [] }
    else none
  | .handoff =>
    if s.phase = .draining then match s.pending with
      | [] => none
      | i :: rest => (s.conn i).bind fun c =>
        if c.stage = .running then
          some { s.setStage i c .handed with pending := rest, payload := s.payload ++ [i] }
        else some { s with pending := rest }
    else none
  | .handoffFails =>
    if s.phase = .draining then match s.pending with
      | [] => none
      | i :: rest => (s.conn i).bind fun c =>
        if c.stage = .running then some { s.setStage i c .dropped with pending := rest } else none
    else none
  | .spawn =>
    if s.phase = .draining ∧ s.pending = [] then some { s with phase := .awaiting } else none
  | .commit =>
    if s.phase = .awaiting then some { s with phase := .exited upgradeCommitExitCode } else none
  | .rollback =>
    if s.phase = .awaiting then
      some { s with
        phase := .serving
        conn := fun i =>
          if i ∈ s.payload then (s.conn i).map fun c => { c with stage := .running } else s.conn i
        registry := s.registry ++ s.payload
        payload := [] }
    else none

def Dispatch.start (n : ℕ) : Dispatch :=
  { phase := .serving
    next := n
    conn := fun i => if i < n then some ⟨.session, .running⟩ else none
    registry := List.range n
    pending := []
    payload := [] }

/-- The registry is only taken when no session connection is still on its way into it, and every
session the drain comes to gives up its record. -/
def Dispatch.Settled (s : Dispatch) : DispatchAct → Prop
  | .takeRegistry => ∀ i c, s.conn i = some c → c.kind = .session → c.stage ≠ .preamble
  | .handoffFails => False
  | _ => True

/-! ### Where a session connection can be -/

def Conn.Accounted (s : Dispatch) (i : ℕ) (c : Conn) : Prop :=
  match c.stage with
  | .preamble => s.phase.early = true
  | .running => i ∈ s.pending ∨ (i ∈ s.registry ∧ s.phase.early = true)
  | .handed => i ∈ s.payload
  | .ended => True
  | .dropped | .sidecar => False

structure Dispatch.Inv (s : Dispatch) : Prop where
  accounted : ∀ i c, s.conn i = some c → c.kind = .session → c.Accounted s i
  quiet : s.phase ≠ .draining → s.pending = []

theorem Dispatch.start_inv (n : ℕ) : (Dispatch.start n).Inv := by
  refine ⟨?_, fun _ => rfl⟩
  intro i c hc _
  simp only [Dispatch.start, Option.ite_none_right_eq_some, Option.some.injEq] at hc
  obtain ⟨hi, rfl⟩ := hc
  exact Or.inr ⟨by simpa [Dispatch.start] using hi, rfl⟩

theorem Conn.Accounted.mono {s t : Dispatch} {i : ℕ} {c : Conn} (h : c.Accounted s i)
    (he : s.phase.early = true → t.phase.early = true) (hp : i ∈ s.pending → i ∈ t.pending)
    (hr : i ∈ s.registry → i ∈ t.registry) (hl : i ∈ s.payload → i ∈ t.payload) :
    c.Accounted t i := by
  cases hg : c.stage <;> simp only [Conn.Accounted, hg] at h ⊢
  · exact he h
  · exact h.imp hp (fun h => ⟨hr h.1, he h.2⟩)
  · exact hl h

theorem Dispatch.Inv.setStage {s t : Dispatch} (hs : s.Inv) (i : ℕ) (c : Conn) (g : ConnStage)
    (hconn : t.conn = Function.update s.conn i (some { c with stage := g }))
    (hquiet : t.phase ≠ .draining → t.pending = [])
    (hself : c.kind = .session → Conn.Accounted t i { c with stage := g })
    (hother : ∀ j (d : Conn), j ≠ i → d.Accounted s j → d.Accounted t j) : t.Inv := by
  refine ⟨?_, hquiet⟩
  intro j d hj hk
  rw [hconn] at hj
  by_cases hji : j = i
  · subst hji
    rw [Function.update_self, Option.some.injEq] at hj
    subst hj
    exact hself hk
  · rw [Function.update_of_ne hji] at hj
    exact hother j d hji (hs.accounted j d hj hk)

theorem Dispatch.preamble_inv (s : Dispatch) (hs : s.Inv) (i : ℕ) (c : Conn)
    (hc : s.conn i = some c) (hg : c.stage = .preamble) : (s.readPreamble i c).Inv := by
  cases hk : c.kind with
  | session =>
    have hearly : s.phase.early = true := by
      have h := hs.accounted i c hc hk
      simpa only [Conn.Accounted, hg] using h
    simp only [Dispatch.readPreamble, hk]
    refine hs.setStage i c .running rfl hs.quiet (fun _ => ?_) fun j d hj h => ?_
    · exact Or.inr ⟨by simp, hearly⟩
    · exact h.mono id id (fun h => List.mem_append_left _ h) id
  | sidecar =>
    simp only [Dispatch.readPreamble, hk]
    exact hs.setStage i c .sidecar rfl hs.quiet (by simp [hk]) fun j d _ h =>
      h.mono id id id id
  | bad =>
    simp only [Dispatch.readPreamble, hk]
    exact hs.setStage i c .ended rfl hs.quiet (fun _ => trivial) fun j d _ h =>
      h.mono id id id id

theorem Dispatch.handoff_inv (s t : Dispatch) (hs : s.Inv) (h : s.step .handoff = some t) :
    t.Inv := by
  simp only [Dispatch.step, Option.ite_none_right_eq_some] at h
  obtain ⟨hp, h⟩ := h
  cases hpend : s.pending with
  | nil => simp [hpend] at h
  | cons i rest =>
    simp only [hpend, Option.bind_eq_some_iff] at h
    obtain ⟨c, hc, h⟩ := h
    have hkeep : ∀ j, j ≠ i → j ∈ s.pending → j ∈ rest := by
      intro j hj hm
      rw [hpend] at hm
      exact (List.mem_cons.mp hm).resolve_left hj
    split at h
    · cases h
      refine hs.setStage i c .handed rfl (fun h => absurd hp h) (fun _ => ?_) fun j d hj h => ?_
      · simp [Conn.Accounted]
      · exact h.mono id (hkeep j hj) id (fun h => List.mem_append_left _ h)
    · rename_i hg
      cases h
      refine ⟨?_, fun h => absurd hp h⟩
      intro j d hj hk
      have hacc := hs.accounted j d hj hk
      by_cases hji : j = i
      · -- the session the drain passes over has ended: its task does not run any more
        subst hji
        have hd : d = c := Option.some.inj (hj.symm.trans hc)
        subst hd
        cases hst : d.stage <;> simp only [Conn.Accounted, hst] at hacc ⊢
        · exact hacc
        · exact absurd hst hg
        · exact hacc
      · exact hacc.mono id (hkeep j hji) id id

theorem Dispatch.rollback_inv (s t : Dispatch) (hs : s.Inv) (h : s.step .rollback = some t) :
    t.Inv := by
  simp only [Dispatch.step, Option.ite_none_right_eq_some, Option.some.injEq] at h
  obtain ⟨hp, rfl⟩ := h
  refine ⟨?_, fun _ => hs.quiet (by simp [hp])⟩
  intro i c hc hk
  by_cases hi : i ∈ s.payload
  · simp only [hi, if_true, Option.map_eq_some_iff] at hc
    obtain ⟨d, -, rfl⟩ := hc
    exact Or.inr ⟨by simp [hi], rfl⟩
  · simp only [hi, if_false] at hc
    have hacc := hs.accounted i c hc hk
    cases hst : c.stage <;> simp only [Conn.Accounted, hst] at hacc ⊢
    · rfl
    · exact hacc.imp id fun h => ⟨List.mem_append_left _ h.1, rfl⟩
    · exact absurd hacc hi

theorem Dispatch.step_inv (s t : Dispatch) (a : DispatchAct) (hs : s.Inv) (hg : s.Settled a)
    (h : s.step a = some t) : t.Inv := by
  cases a with
  | accept k =>
    simp only [Dispatch.step, Option.ite_none_right_eq_some, Option.some.injEq] at h
    obtain ⟨hp, rfl⟩ := h
    refine ⟨?_, hs.quiet⟩
    intro i c hc hk
    by_cases hi : i = s.next
    · subst hi
      simp only [Function.update_self, Option.some.injEq] at hc
      subst hc
      simp [Conn.Accounted, hp, LoopPhase.early]
    · simp only [Function.update_of_ne hi] at hc
      exact (hs.accounted i c hc hk).mono id id id id
  | preamble i =>
    simp only [Dispatch.step, Option.bind_eq_some_iff, Option.ite_none_right_eq_some,
      Option.some.injEq] at h
    obtain ⟨c, hc, ⟨-, hst⟩, rfl⟩ := h
    exact s.preamble_inv hs i c hc hst
  | sessionEnd i =>
    simp only [Dispatch.step, Option.bind_eq_some_iff, Option.ite_none_right_eq_some,
      Option.some.injEq] at h
    obtain ⟨c, hc, -, rfl⟩ := h
    refine hs.setStage i c .ended rfl hs.quiet (fun _ => trivial) fun j d hj h => ?_
    exact h.mono id id (fun h => List.mem_filter.mpr ⟨h, by simpa using hj⟩) id
  | beginUpgrade =>
    simp only [Dispatch.step, Option.ite_none_right_eq_some, Option.some.injEq] at h
    obtain ⟨hp, rfl⟩ := h
    refine ⟨?_, fun _ => hs.quiet (by simp [hp])⟩
    intro i c hc hk
    exact (hs.accounted i c hc hk).mono (fun _ => rfl) id id id
  | takeRegistry =>
    simp only [Dispatch.step, Option.ite_none_right_eq_some, Option.some.injEq] at h
    obtain ⟨hp, rfl⟩ := h
    refine ⟨?_, fun h => absurd rfl h⟩
    intro i c hc hk
    have hacc := hs.accounted i c hc hk
    have hempty := hs.quiet (by simp [hp])
    cases hst : c.stage <;> simp only [Conn.Accounted, hst] at hacc ⊢
    · exact absurd hst (hg i c hc hk)
    · rw [hempty] at hacc
      exact Or.inl (hacc.resolve_left (by simp)).1
    · exact hacc
  | handoff => exact s.handoff_inv t hs h
  | handoffFails => exact hg.elim
  | spawn =>
    simp only [Dispatch.step, Option.ite_none_right_eq_some, Option.some.injEq] at h
    obtain ⟨⟨hp, hempty⟩, rfl⟩ := h
    refine ⟨?_, fun _ => hempty⟩
    intro i c hc hk
    exact (hs.accounted i c hc hk).mono (by simp [hp, LoopPhase.early]) id id id
  | commit =>
    simp only [Dispatch.step, Option.ite_none_right_eq_some, Option.some.injEq] at h
    obtain ⟨hp, rfl⟩ := h
    refine ⟨?_, fun _ => hs.quiet (by simp [hp])⟩
    intro i c hc hk
    exact (hs.accounted i c hc hk).mono (by simp [hp, LoopPhase.early]) id id id
  | rollback => exact s.rollback_inv t hs h

/-- In every run whose drains find no session connection on its way into the registry and get every
record, a processor that has exited by commit left every session connection it held, and that had
not ended, in the payload. -/
theorem no_session_lost (n : ℕ) (as : List DispatchAct) (s : Dispatch)
    (hsettled : Along Dispatch.step Dispatch.Settled (Dispatch.start n) as)
    (hrun : exec Dispatch.step (Dispatch.start n) as = some s)
    (hexit : s.phase = .exited upgradeCommitExitCode) (i : ℕ) (c : Conn) (hc : s.conn i = some c)
    (hk : c.kind = .session) (hlive : c.stage ≠ .ended) : i ∈ s.payload := by
  have hinv : s.Inv := exec_along (fun s a t hs hg h => Dispatch.step_inv s t a hs hg h) _ s as
    (Dispatch.start_inv n) hsettled hrun
  have hacc := hinv.accounted i c hc hk
  have hempty := hinv.quiet (by simp [hexit])
  cases hst : c.stage <;> simp only [Conn.Accounted, hst, hexit, hempty, LoopPhase.early] at hacc
  · cases hacc
  · simp at hacc
  · exact hacc
  · exact absurd hst hlive

def registeredRun : List DispatchAct :=
  [.accept .session, .preamble 0, .beginUpgrade, .takeRegistry, .handoff, .spawn, .commit]

theorem no_session_lost_registered :
    ∃ s, exec Dispatch.step (Dispatch.start 0) registeredRun = some s ∧
      s.conn 0 = some ⟨.session, .handed⟩ ∧ 0 ∈ s.payload := by
  have hsettled : Along Dispatch.step Dispatch.Settled (Dispatch.start 0) registeredRun := by
    simp [Along, registeredRun, Dispatch.Settled, Dispatch.step, Dispatch.start,
      Dispatch.readPreamble, Dispatch.setStage, LoopPhase.up, Function.update_apply]
  have hend : (exec Dispatch.step (Dispatch.start 0) registeredRun).map
      (fun s => (s.phase, s.conn 0)) =
      some (.exited upgradeCommitExitCode, some ⟨.session, .handed⟩) := by decide
  obtain ⟨s, hs, hend⟩ := Option.map_eq_some_iff.mp hend
  simp only [Prod.mk.injEq] at hend
  exact ⟨s, hs, hend.2, no_session_lost 0 registeredRun s hsettled hs hend.1 0 _ hend.2 rfl
    (by simp)⟩

/-- A connection that reads its preamble when the registry is taken: it registers too late, or is
still reading when the processor exits. -/
theorem session_lost_at_commit :
    (∃ s, exec Dispatch.step (Dispatch.start 0) [.accept .session, .beginUpgrade, .takeRegistry,
        .preamble 0, .spawn, .commit] = some s ∧
      s.phase = .exited upgradeCommitExitCode ∧ s.conn 0 = some ⟨.session, .running⟩ ∧
      0 ∉ s.payload) ∧
    ∃ s, exec Dispatch.step (Dispatch.start 0) [.accept .session, .beginUpgrade, .takeRegistry,
        .spawn, .commit] = some s ∧
      s.phase = .exited upgradeCommitExitCode ∧ s.conn 0 = some ⟨.session, .preamble⟩ ∧
      0 ∉ s.payload := by
  have hlate : (exec Dispatch.step (Dispatch.start 0) [.accept .session, .beginUpgrade,
      .takeRegistry, .preamble 0, .spawn, .commit]).map (fun s => (s.phase, s.conn 0, s.payload)) =
      some (.exited upgradeCommitExitCode, some ⟨.session, .running⟩, []) := by decide
  have hnever : (exec Dispatch.step (Dispatch.start 0) [.accept .session, .beginUpgrade,
      .takeRegistry, .spawn, .commit]).map (fun s => (s.phase, s.conn 0, s.payload)) =
      some (.exited upgradeCommitExitCode, some ⟨.session, .preamble⟩, []) := by decide
  obtain ⟨s, hs, hl⟩ := Option.map_eq_some_iff.mp hlate
  obtain ⟨t, ht, hn⟩ := Option.map_eq_some_iff.mp hnever
  simp only [Prod.mk.injEq] at hl hn
  exact ⟨⟨s, hs, hl.1, hl.2.1, by simp [hl.2.2]⟩, t, ht, hn.1, hn.2.1, by simp [hn.2.2]⟩

end FiveNinesEcho.Processor
