import FiveNinesEcho.Processor.Registry
import Mathlib.Data.List.Nodup

/-!
# Who owns a session descriptor after adoption

A descriptor crosses an upgrade as a raw integer in a record. Whoever takes the record over has to
give it exactly one end: a session that owns it, or one `close`. `owners` and `closes` count both,
and the loops of `adopt_inflight_sessions` and `readopt_sessions` add to them record by record.
-/

namespace FiveNinesEcho.Processor
open Handoff

def Worker.owners (w : Worker) (fd : Fd) : ℕ := (w.registry.handles.map (·.udsFd)).count fd

def Worker.closes (w : Worker) (fd : Fd) : ℕ := w.fds.closed.count fd

/-- From `w` to `w'` the descriptor found one owner, or was closed once. -/
def Settled (w w' : Worker) (fd : Fd) : Prop :=
  (w'.owners fd = 1 ∧ w'.closes fd = w.closes fd) ∨
  (w'.owners fd = 0 ∧ w'.closes fd = w.closes fd + 1)

/-- How often taking a record over closes its descriptor: a stream that could not be set up closes
it when it is dropped, and the error branch closes the number again. -/
def closesOf (env : Fd → SessionEnv) (h : SessionHandoff) : ℕ :=
  match h.transport with
  | .tcp => 1
  | .uds => if (env h.udsFd).reconstruct = .ok then 0 else 2

theorem takeOver_owners (env : Fd → SessionEnv) (w : Worker) (h : SessionHandoff) (fd : Fd) :
    (w.takeOver env h).owners fd =
      w.owners fd + if h.udsFd = fd ∧ resumes env h = true then 1 else 0 := by
  rw [Worker.owners, takeOver_handles, List.map_append, List.count_append, Worker.owners]
  cases hr : resumes env h
  · simp
  · by_cases hf : h.udsFd = fd <;> simp [handleOf, hf]

theorem takeOver_closes (env : Fd → SessionEnv) (w : Worker) (h : SessionHandoff) (fd : Fd) :
    (w.takeOver env h).closes fd = w.closes fd + if h.udsFd = fd then closesOf env h else 0 := by
  cases ht : h.transport with
  | tcp =>
    by_cases hf : h.udsFd = fd <;>
      simp [Worker.takeOver, ht, Worker.closes, FdTable.close, closesOf, hf]
  | uds =>
    cases hr : (env h.udsFd).reconstruct <;> by_cases hf : h.udsFd = fd <;>
      simp [Worker.takeOver, ht, hr, reconstructUds, Worker.closes, FdTable.close, closesOf, hf] <;>
      simp_all

theorem readopt_other (env : Fd → SessionEnv) (w : Worker) (hs : List SessionHandoff) (fd : Fd)
    (hfd : fd ∉ hs.map (·.udsFd)) :
    (readoptSessions env w hs).owners fd = w.owners fd ∧
    (readoptSessions env w hs).closes fd = w.closes fd := by
  induction hs generalizing w with
  | nil => exact ⟨rfl, rfl⟩
  | cons h hs ih =>
    simp only [List.map_cons, List.mem_cons, not_or] at hfd
    have hne : ¬ h.udsFd = fd := fun he => hfd.1 he.symm
    obtain ⟨ho, hc⟩ := ih (w.takeOver env h) hfd.2
    have hcons : readoptSessions env w (h :: hs) = readoptSessions env (w.takeOver env h) hs := rfl
    rw [hcons, ho, hc, takeOver_owners, takeOver_closes]
    simp [hne]

theorem readopt_self (env : Fd → SessionEnv) (w : Worker) (hs : List SessionHandoff)
    (hnodup : (hs.map (·.udsFd)).Nodup) (h : SessionHandoff) (hh : h ∈ hs) :
    (readoptSessions env w hs).owners h.udsFd =
      w.owners h.udsFd + (if resumes env h then 1 else 0) ∧
    (readoptSessions env w hs).closes h.udsFd = w.closes h.udsFd + closesOf env h := by
  induction hs generalizing w with
  | nil => cases hh
  | cons x hs ih =>
    simp only [List.map_cons, List.nodup_cons] at hnodup
    have hcons : readoptSessions env w (x :: hs) = readoptSessions env (w.takeOver env x) hs := rfl
    rw [hcons]
    rcases List.mem_cons.mp hh with rfl | hh
    · obtain ⟨ho, hc⟩ := readopt_other env (w.takeOver env h) hs h.udsFd hnodup.1
      rw [ho, hc, takeOver_owners, takeOver_closes]
      simp
    · obtain ⟨ho, hc⟩ := ih (w.takeOver env x) hnodup.2 hh
      have hne : ¬ x.udsFd = h.udsFd := fun he => hnodup.1 (he ▸ List.mem_map_of_mem hh)
      rw [ho, hc, takeOver_owners, takeOver_closes]
      simp [hne]

theorem readopt_settled_iff (env : Fd → SessionEnv) (w : Worker) (hs : List SessionHandoff)
    (hnodup : (hs.map (·.udsFd)).Nodup) (h : SessionHandoff) (hh : h ∈ hs)
    (hfree : w.owners h.udsFd = 0) :
    Settled w (readoptSessions env w hs) h.udsFd ↔
      (h.transport = .uds → (env h.udsFd).reconstruct = .ok) := by
  obtain ⟨ho, hc⟩ := readopt_self env w hs hnodup h hh
  rw [Settled, ho, hc, hfree]
  cases ht : h.transport with
  | tcp => simp [resumes, closesOf, ht]
  | uds =>
    by_cases hr : (env h.udsFd).reconstruct = .ok <;> simp [resumes, closesOf, ht, hr]

/-- Exactly when adoption and re-adoption settle every descriptor of a payload. A record of another
schema version is filtered out with its descriptor still open, and a stream that could not be set
up has its descriptor closed twice. -/
theorem fds_settled_iff (env : Fd → SessionEnv) (w : Worker) (payload : List SessionHandoff)
    (hdistinct : (payload.map (·.udsFd)).Nodup) (hfree : ∀ h ∈ payload, w.owners h.udsFd = 0) :
    ((∀ h ∈ payload, Settled w (adoptInflightSessions env w payload) h.udsFd) ↔
      ∀ h ∈ payload, isSchemaCompatible h.version = true ∧
        (h.transport = .uds → (env h.udsFd).reconstruct = .ok)) ∧
    ((∀ h ∈ payload, Settled w (readoptSessions env w payload) h.udsFd) ↔
      ∀ h ∈ payload, h.transport = .uds → (env h.udsFd).reconstruct = .ok) := by
  refine ⟨forall₂_congr fun h hh => ?_, forall₂_congr fun h hh => ?_⟩
  · have hsub : (payload.filter fun h => isSchemaCompatible h.version).Sublist payload :=
      List.filter_sublist
    have hnodup := hdistinct.sublist (hsub.map (·.udsFd))
    cases hv : isSchemaCompatible h.version with
    | true =>
      have hkept : h ∈ payload.filter fun h => isSchemaCompatible h.version :=
        List.mem_filter.mpr ⟨hh, hv⟩
      rw [eq_self_iff_true, true_and]
      exact readopt_settled_iff env w _ hnodup h hkept (hfree h hh)
    | false =>
      -- the descriptor of a filtered record does not occur among the records that are left
      have hgone : h.udsFd ∉ (payload.filter fun h => isSchemaCompatible h.version).map (·.udsFd) := by
        intro hm
        obtain ⟨x, hx, hfd⟩ := List.mem_map.mp hm
        obtain ⟨hx, hvx⟩ := List.mem_filter.mp hx
        have hxh : x = h := List.inj_on_of_nodup_map hdistinct hx hh hfd
        rw [hxh, hv] at hvx
        cases hvx
      obtain ⟨ho, hc⟩ := readopt_other env w _ h.udsFd hgone
      have hadopt : adoptInflightSessions env w payload = readoptSessions env w
        (payload.filter fun h => isSchemaCompatible h.version) := rfl
      rw [hadopt, Settled, ho, hc, hfree h hh]
      simp
  · exact readopt_settled_iff env w payload hdistinct h hh (hfree h hh)

def freshWorker : Worker := ⟨some 3, ⟨0, [], fun _ => none⟩, ⟨fun _ => true, []⟩⟩

def currentRecord : SessionHandoff := ⟨7, .uds, [], [], 0, 0, "p", none, "t", 1⟩
def newerRecord : SessionHandoff := { currentRecord with udsFd := 8, version := 2 }

theorem fds_settled_current :
    Settled freshWorker
      (adoptInflightSessions (fun _ => ⟨.sends, .ok, .ok⟩) freshWorker [currentRecord]) 7 ∧
    Settled freshWorker
      (readoptSessions (fun _ => ⟨.sends, .ok, .ok⟩) freshWorker [currentRecord]) 7 := by
  have hiff := fds_settled_iff (fun _ => ⟨.sends, .ok, .ok⟩) freshWorker [currentRecord] (by simp)
    (by decide)
  exact ⟨hiff.1.mpr (by decide) currentRecord (by simp),
    hiff.2.mpr (by decide) currentRecord (by simp)⟩

/-- The descriptor of the newer record stays open without an owner; the descriptor of a record
whose stream cannot be made non-blocking is closed twice, on adoption and on re-adoption. -/
theorem fds_not_settled :
    ([currentRecord, newerRecord].map (·.udsFd)).Nodup ∧
    (adoptInflightSessions (fun _ => ⟨.sends, .ok, .ok⟩) freshWorker
      [currentRecord, newerRecord]).owners 8 = 0 ∧
    (adoptInflightSessions (fun _ => ⟨.sends, .ok, .ok⟩) freshWorker
      [currentRecord, newerRecord]).closes 8 = 0 ∧
    (adoptInflightSessions (fun _ => ⟨.sends, .ok, .setNonblocking⟩) freshWorker
      [currentRecord]).closes 7 = 2 ∧
    (readoptSessions (fun _ => ⟨.sends, .ok, .setNonblocking⟩) freshWorker
      [currentRecord]).closes 7 = 2 := by
  decide

end FiveNinesEcho.Processor
