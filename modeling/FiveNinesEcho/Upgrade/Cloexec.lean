import FiveNinesEcho.Upgrade.Attempt

/-!
# Close-on-exec flags after a rollback (`handoff.rs:631-680`, `processor/upgrade.rs:436-457`)

An attempt clears `FD_CLOEXEC` on the listener, under a `CloexecGuard` whose drop sets it again, and
on every session descriptor it drains, under none. The rollback wraps the same descriptors again and
leaves their flags as they are, so each of them is inherited by whatever the process spawns next.
-/

namespace FiveNinesEcho.Upgrade
open Handoff Processor

/-- The descriptors of the worker: its listener and those its sessions own. -/
def Worker.owned (w : Worker) : List Fd := w.listener.toList ++ w.registry.handles.map (·.udsFd)

/-- Those of them that an unrelated child spawned now would inherit. -/
def Worker.inheritable (w : Worker) : List Fd := (Worker.owned w).filter fun x => !w.fds.cloexec x

/-- The descriptors that the attempt clears the flag of. -/
def clearedBy (env : Env) (fd : Fd) (w : Worker) : List Fd :=
  fd :: (w.registry.handles.filter (drains env.session)).map (·.udsFd)

/-! ### The flags along the attempt -/

theorem awaitSessionHandoff_cloexec (env : Fd → SessionEnv) (t : FdTable) (h : SessionHandle) :
    (awaitSessionHandoff (env h.udsFd) t h).1.cloexec =
      if drains env h = true then Function.update t.cloexec h.udsFd false else t.cloexec := by
  cases htask : (env h.udsFd).task with
  | ended => simp [awaitSessionHandoff, drains, htask]
  | intoStd => simp [awaitSessionHandoff, drains, htask, FdTable.close]
  | sends =>
    by_cases hc : (env h.udsFd).clearCloexec = .ok
    · simp [awaitSessionHandoff, drains, htask, hc, FdTable.setFlag]
    · simp [awaitSessionHandoff, drains, htask, hc, FdTable.close]

theorem drainLoop_cloexec (env : Fd → SessionEnv) (metadata : String → Option SessionMetadata)
    (t : FdTable) (hs : List (ℕ × SessionHandle)) (x : Fd) :
    (drainLoop env metadata t hs).1.cloexec x =
      if x ∈ ((hs.map Prod.snd).filter (drains env)).map (·.udsFd) then false
      else t.cloexec x := by
  induction hs generalizing t with
  | nil => rfl
  | cons p hs ih =>
    obtain ⟨id, h⟩ := p
    have hflags := congrFun (awaitSessionHandoff_cloexec env t h) x
    simp only [drainLoop, ih, hflags, List.map_cons]
    cases hd : drains env h with
    | false =>
      rw [List.filter_cons_of_neg (by simp [hd])]
      rfl
    | true =>
      rw [List.filter_cons_of_pos (by simp [hd]), List.map_cons]
      by_cases hx : x = h.udsFd
      · simp [hx]
      · simp only [if_true, Function.update_of_ne hx, List.mem_cons, hx, false_or]

theorem takeOver_cloexec (env : Fd → SessionEnv) (w : Worker) (h : SessionHandoff) :
    (w.takeOver env h).fds.cloexec = w.fds.cloexec := by
  cases htr : h.transport with
  | tcp => simp [Worker.takeOver, htr, FdTable.close]
  | uds =>
    cases hr : (env h.udsFd).reconstruct <;>
      simp [Worker.takeOver, htr, hr, reconstructUds, FdTable.close]

theorem readopt_cloexec (env : Fd → SessionEnv) (w : Worker) (hs : List SessionHandoff) :
    (readoptSessions env w hs).fds.cloexec = w.fds.cloexec := by
  induction hs generalizing w with
  | nil => rfl
  | cons h hs ih =>
    have hcons : readoptSessions env w (h :: hs) = readoptSessions env (w.takeOver env h) hs := rfl
    rw [hcons, ih, takeOver_cloexec]

theorem runProcessorUpgrade_serving {env : Env} {fd : Fd} {w : Worker}
    (h : (runProcessorUpgrade env fd w).1 = .serving) :
    (runProcessorUpgrade env fd w).2 =
      { Worker.onFds (·.setFlag fd true env.restoreCloexec)
          (readoptSessions env.session (drained env fd { w with listener := none }).1
            (drained env fd { w with listener := none }).2) with listener := some fd } := by
  cases hearly : env.processorSteps.findSome? id with
  | some e =>
    obtain ⟨w', hfail⟩ := doUpgrade_early env fd { w with listener := none } e hearly
    simp [runProcessorUpgrade, runUpgrade, hfail] at h
  | none =>
    have hlate := doUpgrade_late env fd { w with listener := none } hearly
    simp only [runProcessorUpgrade, runUpgrade, hlate, guarded, finishUpgradeAttempt] at h ⊢
    cases hready : waitForChildReady env.ready with
    | none =>
      simp only [hready] at h
      cases hw : env.writer with
      | ok =>
        simp only [hw, finishSessionsPipeWriter] at h
        cases h
      | join | write =>
        simp only [hw, finishSessionsPipeWriter] at h
        cases h
    | some e =>
      simp only [hready] at h ⊢
      by_cases hwrap : env.setNonblocking = none ∧ env.fromStd = none
      · simp only [rewrapListener_ok _ env fd _ _ hwrap, modify_bind, pure, EStateM.pure]
      · obtain ⟨a, hfail⟩ := rewrapListener_err Worker.onFds env fd (fun _ => do
          modify fun w' => readoptSessions env.session w' (drained env fd { w with listener := none }).2
          pure fd) (drained env fd { w with listener := none }).1 hwrap
        rw [hfail] at h
        cases h

/-! ### Restored, or not -/

/-- Every descriptor that the attempt cleared the flag of and that the worker still has, has it
again. -/
def CloexecRestored (env : Env) (fd : Fd) (w w' : Worker) : Prop :=
  ∀ x ∈ clearedBy env fd w, x ∈ Worker.owned w' → w'.fds.cloexec x = true

theorem cloexecRestored_iff_inheritable (env : Env) (fd : Fd) (w w' : Worker) :
    CloexecRestored env fd w w' ↔ ∀ x ∈ Worker.inheritable w', x ∉ clearedBy env fd w := by
  simp only [CloexecRestored, Worker.inheritable, List.mem_filter, Bool.not_eq_true', and_imp]
  constructor
  · intro h x hown hclear hx
    rw [h x hx hown] at hclear
    cases hclear
  · intro h x hx hown
    by_contra hclear
    exact h x hown (by simpa using hclear) hx

theorem serving_cloexec {env : Env} {fd : Fd} {w : Worker}
    (h : (runProcessorUpgrade env fd w).1 = .serving) (x : Fd) :
    (runProcessorUpgrade env fd w).2.fds.cloexec x =
      if x = fd ∧ env.restoreCloexec = .ok then true
      else if x ∈ clearedBy env fd w then false else w.fds.cloexec x := by
  rw [runProcessorUpgrade_serving h]
  have hdrained : (readoptSessions env.session (drained env fd { w with listener := none }).1
      (drained env fd { w with listener := none }).2).fds.cloexec x =
      if x ∈ clearedBy env fd w then false else w.fds.cloexec x := by
    rw [readopt_cloexec]
    simp only [drained, drainSessionHandoffs, drainLoop_cloexec, Worker.onFds, FdTable.setFlag,
      clearedBy, List.mem_cons, Registry.handles]
    by_cases hx : x = fd
    · simp [hx]
    · simp only [hx, false_or, Function.update_of_ne hx]
  cases hr : env.restoreCloexec with
  | ok =>
    by_cases hx : x = fd
    · simp [Worker.onFds, FdTable.setFlag, hx]
    · simp only [Worker.onFds, FdTable.setFlag, Function.update_of_ne hx, hdrained, hx, false_and,
        if_false]
  | getfd e => simpa [Worker.onFds, FdTable.setFlag] using hdrained
  | setfd e => simpa [Worker.onFds, FdTable.setFlag] using hdrained

theorem serving_owned {env : Env} {fd : Fd} {w : Worker}
    (h : (runProcessorUpgrade env fd w).1 = .serving) :
    Worker.owned (runProcessorUpgrade env fd w).2 =
      fd :: (w.registry.handles.filter fun h =>
        drains env.session h && (env.session h.udsFd).reconstruct = .ok).map (·.udsFd) := by
  rw [runProcessorUpgrade_serving h]
  have hback := rollback_handles env fd { w with listener := none }
  simp only [Worker.owned, Worker.onFds, hback, Option.toList_some, List.singleton_append]

/-- Exactly when a rollback restores the flags: the guard of the listener could set its flag, and no
session was taken back, for a session that is taken back is left inheritable. -/
theorem rollback_restores_cloexec_iff (env : Env) (fd : Fd) (w : Worker)
    (hserving : (runProcessorUpgrade env fd w).1 = .serving)
    (hfd : fd ∉ w.registry.handles.map (·.udsFd)) :
    CloexecRestored env fd w (runProcessorUpgrade env fd w).2 ↔
      env.restoreCloexec = .ok ∧
        ∀ h ∈ w.registry.handles, ¬ (drains env.session h = true ∧
          (env.session h.udsFd).reconstruct = .ok) := by
  have howned := serving_owned hserving
  have hflags := serving_cloexec hserving
  constructor
  · intro h
    have hlistener := h fd (List.mem_cons_self ..) (by rw [howned]; exact List.mem_cons_self ..)
    refine ⟨?_, ?_⟩
    · by_contra hr
      simp [hflags, hr, clearedBy] at hlistener
    · rintro s hs ⟨hdrains, hback⟩
      have hne : s.udsFd ≠ fd := fun he => hfd (he ▸ List.mem_map_of_mem hs)
      have hcleared : s.udsFd ∈ clearedBy env fd w :=
        List.mem_cons_of_mem _ (List.mem_map_of_mem (List.mem_filter.mpr ⟨hs, hdrains⟩))
      have hkept : s.udsFd ∈ Worker.owned (runProcessorUpgrade env fd w).2 := by
        rw [howned]
        exact List.mem_cons_of_mem _ (List.mem_map_of_mem
          (List.mem_filter.mpr ⟨hs, by simp [hdrains, hback]⟩))
      have hset := h s.udsFd hcleared hkept
      simp [hflags, hne, hcleared] at hset
  · rintro ⟨hr, hnone⟩ x - hx
    rw [howned, List.filter_eq_nil_iff.mpr (by simpa using hnone)] at hx
    have hxfd : x = fd := by simpa using hx
    simp [hflags, hxfd, hr]

/-- An attempt whose child never signals. -/
def timedOut : Env :=
  { missingBinary with spawn := none, ready := .timedOut "deadline has elapsed" }

def noSession : Worker := { oneSession with registry := ⟨0, [], fun _ => none⟩ }

theorem rollback_restores_cloexec_listener :
    (runProcessorUpgrade timedOut 3 noSession).1 = .serving ∧
      CloexecRestored timedOut 3 noSession (runProcessorUpgrade timedOut 3 noSession).2 := by
  have hserving : (runProcessorUpgrade timedOut 3 noSession).1 = .serving := rfl
  exact ⟨hserving, (rollback_restores_cloexec_iff timedOut 3 noSession hserving (by decide)).mpr
    ⟨rfl, by decide⟩⟩

/-- One live session: after the rollback its descriptor is inheritable. -/
theorem rollback_leaks_session :
    (runProcessorUpgrade timedOut 3 oneSession).1 = .serving ∧
      oneSession.fds.cloexec 7 = true ∧
      Worker.owned (runProcessorUpgrade timedOut 3 oneSession).2 = [3, 7] ∧
      Worker.inheritable (runProcessorUpgrade timedOut 3 oneSession).2 = [7] ∧
      ¬ CloexecRestored timedOut 3 oneSession (runProcessorUpgrade timedOut 3 oneSession).2 := by
  have hinherit : Worker.inheritable (runProcessorUpgrade timedOut 3 oneSession).2 = [7] := by rfl
  refine ⟨rfl, rfl, rfl, hinherit, ?_⟩
  rw [cloexecRestored_iff_inheritable, hinherit]
  decide

end FiveNinesEcho.Upgrade
