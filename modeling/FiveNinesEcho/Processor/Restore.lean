import FiveNinesEcho.Processor.Eviction
import Mathlib.Data.List.Perm.Basic

/-!
# What a rollback restores (`processor/upgrade.rs:398-412`, `processor/upgrade.rs:459-514`)

The drain takes the sessions out of the map and a snapshot of the metadata, the rollback puts both
back. In between the sidecar goes on under its own rule: a frame counts if the map has a session of
its peer. `unattempted` is the same run as it would have been without the attempt.
-/

namespace FiveNinesEcho.Processor
open Lib Handoff

/-- The session that is closed by a step. -/
def Host.closes (s : Host) : HostAct → Option (Fd × String)
  | .flushFails fd peer | .finish fd peer => some (fd, peer)
  | .handoff false => s.pending.head?.map fun e => (e.2.udsFd, e.2.peer)
  | .takeOver ok => match s.records with
    | h :: _ => if ok = true ∧ h.transport = .uds then none else some (h.udsFd, h.peer)
    | [] => none
  | _ => none

/-- What a step does to a registry that no attempt is made on: a session that is closed ends like
any other, and otherwise the steps of the attempt do nothing. -/
def Registry.unattempted (r : Registry) (s : Host) (a : HostAct) : Registry :=
  match s.closes a with
  | some (fd, peer) => r.endSession fd peer
  | none => match a with
    | .start h => r.spawnSession h
    | .work fd unread unsent n =>
      { r with sessions := r.sessions.map fun e => (e.1, e.2.progress fd unread unsent n) }
    | .frame m => (storeMetadataIfSessionActive r m).1
    | _ => r

/-- The processor and, beside it, the registry as it would be. -/
def Host.beside (p : Host × Registry) (a : HostAct) : Option (Host × Registry) :=
  (p.1.step a).map fun t => (t, p.2.unattempted p.1 a)

def Host.taken (s : Host) : List SessionHandle := s.pending.map Prod.snd ++ s.records.map handleOf

def peersBut (fd : Fd) (peer : String) (hs : List SessionHandle) : List String :=
  (hs.filter (·.isNot fd peer)).map (·.peer)

/-- No frame comes for a peer whose session is out of the map; a session that ends does not leave
the metadata of its peer to one that is out; the metadata taken with a session carries that
session's trace id if it has an ident; a session given up on the way leaves none behind. -/
def Host.Calm (s : Host) (a : HostAct) : Prop :=
  match a with
  | .frame m => m.peer ∉ s.taken.map (·.peer)
  | .finish fd peer => s.registry.metadata peer = none ∨ peer ∉ peersBut fd peer s.taken ∨
    peer ∈ peersBut fd peer s.registry.handles
  | .takeRegistry => ∀ h ∈ s.registry.handles, ∀ m ∈ s.registry.metadata h.peer,
    m.ident ≠ none → m.traceId = h.traceId
  | a => s.Tidy a

instance decidableCalm (s : Host) : ∀ a, Decidable (s.Calm a)
  | .frame m => inferInstanceAs (Decidable (m.peer ∉ s.taken.map (·.peer)))
  | .finish fd peer => inferInstanceAs (Decidable (s.registry.metadata peer = none ∨
      peer ∉ peersBut fd peer s.taken ∨ peer ∈ peersBut fd peer s.registry.handles))
  | .takeRegistry => inferInstanceAs (Decidable (∀ h ∈ s.registry.handles,
      ∀ m ∈ s.registry.metadata h.peer, m.ident ≠ none → m.traceId = h.traceId))
  | .start _ | .work .. | .flushed _ | .flushFails .. | .handoff _ | .spawn | .commit | .rollback
  | .stash | .takeOver _ | .resume => inferInstanceAs (Decidable (s.Tidy _))

/-! ### What holds with or without an attempt -/

structure Host.Sound (s : Host) : Prop where
  shape : s.Shape
  fds : (s.holders.map (·.udsFd)).Nodup
  keyed : ∀ p m, s.registry.metadata p = some m → m.peer = p

theorem Host.boot_sound (payload : List SessionHandoff) (hp : (payload.map (·.udsFd)).Nodup) :
    (Host.boot payload).Sound := by
  refine ⟨Host.boot_shape payload, ?_, by simp [Host.boot]⟩
  have hsub := (List.filter_sublist (p := fun h : SessionHandoff => isSchemaCompatible h.version)
    (l := payload)).map (·.udsFd)
  simpa [Host.boot, Host.holders, Host.live, Registry.handles, handleOf, Function.comp_def]
    using hp.sublist hsub

theorem any_peer (r : Registry) (peer : String) :
    (r.sessions.any fun e => e.2.peer = peer) = decide (peer ∈ r.handles.map (·.peer)) := by
  rw [Bool.eq_iff_iff, decide_eq_true_iff]
  simp [Registry.handles, List.any_eq_true]

theorem endSession_metadata_eq (r : Registry) (fd : Fd) (peer : String) :
    (r.endSession fd peer).metadata =
      if peer ∈ peersBut fd peer r.handles then r.metadata
      else Function.update r.metadata peer none := by
  unfold Registry.endSession
  dsimp only
  rw [any_peer, remove_handles, ← peersBut]
  by_cases hmem : peer ∈ peersBut fd peer r.handles
  · simp [hmem, Registry.remove]
  · simp [hmem, Registry.remove]

/-- The sessions after a step, wherever they are. -/
def Host.afterwards (s : Host) (a : HostAct) (hs : List SessionHandle) : List SessionHandle :=
  match s.closes a with
  | some (fd, peer) => hs.filter (·.isNot fd peer)
  | none => match a with
    | .start h => hs ++ [h]
    | .work fd unread unsent n => hs.map (·.progress fd unread unsent n)
    | _ => hs

theorem Host.afterwards_closes {s : Host} {a : HostAct} {fd : Fd} {peer : String}
    (h : s.closes a = some (fd, peer)) (hs : List SessionHandle) :
    s.afterwards a hs = hs.filter (·.isNot fd peer) := by
  unfold Host.afterwards
  split
  · next hcl =>
    cases h.symm.trans hcl
    rfl
  · next hcl => cases h.symm.trans hcl

theorem unattempted_closes {s : Host} {a : HostAct} {fd : Fd} {peer : String}
    (h : s.closes a = some (fd, peer)) (r : Registry) :
    r.unattempted s a = r.endSession fd peer := by
  unfold Registry.unattempted
  split
  · next hcl =>
    cases h.symm.trans hcl
    rfl
  · next hcl => cases h.symm.trans hcl

theorem unattempted_handles (r : Registry) (s : Host) (a : HostAct) :
    (r.unattempted s a).handles = s.afterwards a r.handles := by
  unfold Registry.unattempted Host.afterwards
  split
  · next fd peer _ =>
    rw [← remove_handles, Registry.handles, Registry.handles, endSession_sessions]
  · cases a with
    | start h => exact spawnSession_handles r h
    | work fd unread unsent n => simp [Registry.handles, Function.comp_def]
    | frame m => simp only [Registry.handles, storeMetadata_sessions]
    | _ => rfl

theorem Host.afterwards_perm (s : Host) (a : HostAct) {hs hs' : List SessionHandle}
    (h : hs.Perm hs') : (s.afterwards a hs).Perm (s.afterwards a hs') := by
  unfold Host.afterwards
  split
  · exact h.filter _
  · split
    · exact h.append_right _
    · exact h.map _
    · exact h

theorem progress_udsFd (fd : Fd) (unread unsent : Bytes) (n : ℕ) (h : SessionHandle) :
    (h.progress fd unread unsent n).udsFd = h.udsFd := by
  unfold SessionHandle.progress
  split <;> rfl

theorem filter_isNot_of_fresh (hs : List SessionHandle) (fd : Fd) (peer : String)
    (hf : fd ∉ hs.map (·.udsFd)) : hs.filter (·.isNot fd peer) = hs := by
  rw [List.filter_eq_self]
  intro h hh
  have hne : h.udsFd ≠ fd := fun he => hf (he ▸ List.mem_map_of_mem hh)
  simp [SessionHandle.isNot, hne]

/-- With distinct descriptors, to leave out one session is to leave out its descriptor. -/
theorem filter_isNot_middle (as bs : List SessionHandle) (h : SessionHandle)
    (hn : ((as ++ h :: bs).map (·.udsFd)).Nodup) :
    (as ++ h :: bs).filter (·.isNot h.udsFd h.peer) = as ++ bs := by
  simp only [List.map_append, List.map_cons] at hn
  rw [List.nodup_middle] at hn
  obtain ⟨hfresh, -⟩ := List.nodup_cons.mp hn
  rw [List.mem_append, not_or] at hfresh
  rw [List.filter_append, List.filter_cons_of_neg (by simp [SessionHandle.isNot]),
    filter_isNot_of_fresh as _ _ hfresh.1, filter_isNot_of_fresh bs _ _ hfresh.2]

theorem Host.live_fresh {s : Host} {fd : Fd} (hs : s.Sound) (hlive : fd ∈ s.live.map (·.udsFd)) :
    fd ∉ (s.records.map handleOf).map (·.udsFd) := by
  have hn := hs.fds
  rw [Host.holders, List.map_append] at hn
  exact List.disjoint_of_nodup_append hn hlive

theorem Host.isLive_fd {s : Host} {fd : Fd} {peer : String} (hlive : s.isLive fd peer = true) :
    fd ∈ s.live.map (·.udsFd) := by
  obtain ⟨h, hh, hnot⟩ := List.any_eq_true.mp hlive
  have hfd : h.udsFd = fd ∧ h.peer = peer := by simpa [SessionHandle.isNot] using hnot
  rw [← hfd.1]
  exact List.mem_map_of_mem hh

theorem map_progress_of_fresh (hs : List SessionHandle) (fd : Fd) (unread unsent : Bytes) (n : ℕ)
    (hf : fd ∉ hs.map (·.udsFd)) : hs.map (·.progress fd unread unsent n) = hs := by
  conv_rhs => rw [← List.map_id hs]
  refine List.map_congr_left ?_
  intro h hh
  have hne : h.udsFd ≠ fd := fun he => hf (he ▸ List.mem_map_of_mem hh)
  simp [SessionHandle.progress, hne]

/-- A live session that ends is left out of all three places, the records having none of it. -/
theorem Host.holders_remove {s : Host} {fd : Fd} {peer : String} (hs : s.Sound)
    (hlive : s.isLive fd peer = true) :
    s.holders.filter (·.isNot fd peer) = (s.registry.remove fd peer).handles ++
      (s.dropPending fd peer).map Prod.snd ++ s.records.map handleOf := by
  rw [Host.holders, Host.live, List.filter_append, List.filter_append, remove_handles,
    dropPending_handles,
    filter_isNot_of_fresh _ fd peer (Host.live_fresh hs (Host.isLive_fd hlive))]

theorem Host.step_holders {s t : Host} {a : HostAct} (hs : s.Sound) (h : s.step a = some t) :
    t.holders.Perm (s.afterwards a s.holders) := by
  cases Host.step_cases h with
  | start x _ =>
    show List.Perm _ (s.holders ++ [x])
    simp only [Host.holders, Host.live, spawnSession_handles, List.append_assoc]
    refine List.Perm.append_left _ ?_
    rw [← List.append_assoc (s.pending.map Prod.snd)]
    exact List.perm_append_comm
  | work fd unread unsent n hlive =>
    show List.Perm _ (s.holders.map (·.progress fd unread unsent n))
    simp only [Host.holders, List.map_append]
    rw [map_progress_of_fresh _ _ _ _ _ (Host.live_fresh hs hlive)]
    simp [Host.live, Registry.handles, Function.comp_def]
  | flushed fd => exact List.Perm.refl _
  | flushFails fd peer hlive =>
    show List.Perm _ (s.holders.filter (·.isNot fd peer))
    rw [Host.holders_remove hs hlive]
    rfl
  | finish fd peer hlive =>
    show List.Perm _ (s.holders.filter (·.isNot fd peer))
    rw [Host.holders_remove hs hlive, Host.holders, Host.live, Registry.handles,
      endSession_sessions]
    rfl
  | frame m =>
    show List.Perm _ s.holders
    simp only [Host.holders, Host.live, Registry.handles, storeMetadata_sessions]
    exact List.Perm.refl _
  | takeRegistry hp =>
    show List.Perm _ s.holders
    simp only [Host.holders, Host.live, hs.shape.pending (by simp [hp])]
    simp [Registry.handles]
  | handed n x rest _ hpend =>
    show List.Perm _ s.holders
    have hsame := (enrichHandoff_same s.snapshot x.record).1
    have hx : handleOf x.record = x := rfl
    simp only [Host.holders, Host.live, hpend, List.map_append, List.map_cons, List.map_nil, hsame,
      hx, List.append_assoc]
    refine List.Perm.append_left _ ?_
    rw [← List.append_assoc]
    exact List.perm_append_singleton x _
  | dropped n x rest _ hpend =>
    have hcl : s.closes (.handoff false) = some (x.udsFd, x.peer) := by simp [Host.closes, hpend]
    have hn := hs.fds
    rw [Host.afterwards_closes hcl]
    simp only [Host.holders, Host.live, hpend, List.map_cons, List.append_assoc,
      List.cons_append] at hn ⊢
    rw [filter_isNot_middle _ _ x hn]
  | stash x rest _ _ =>
    show List.Perm _ s.holders
    simp only [Host.holders, Host.live, stash_handles]
    exact List.Perm.refl _
  | taken x rest flushing _ hrec huds =>
    have hcl : s.closes (.takeOver true) = none := by simp [Host.closes, hrec, huds]
    have hkeep : s.afterwards (.takeOver true) s.holders = s.holders := by
      simp only [Host.afterwards, hcl]
    rw [hkeep]
    simp only [Host.holders, Host.live, hrec, spawnSession_handles, List.map_cons,
      List.append_assoc]
    refine List.Perm.append_left _ ?_
    rw [List.singleton_append]
    exact List.perm_middle.symm
  | declined ok x rest _ hrec hbad =>
    have hcl : s.closes (.takeOver ok) = some ((handleOf x).udsFd, (handleOf x).peer) := by
      simp [Host.closes, hrec, hbad, handleOf]
    have hn := hs.fds
    rw [Host.afterwards_closes hcl]
    simp only [Host.holders, Host.live, hrec, List.map_cons] at hn ⊢
    rw [filter_isNot_middle _ _ (handleOf x) hn]
  | turn _ p ha _ _ _ =>
    rcases ha with rfl | rfl | rfl | rfl <;> exact List.Perm.refl _

theorem Host.afterwards_fds {s t : Host} {a : HostAct} (hs : s.Sound) (h : s.step a = some t) :
    ((s.afterwards a s.holders).map (·.udsFd)).Nodup := by
  unfold Host.afterwards
  split
  · exact hs.fds.sublist (List.filter_sublist.map _)
  · split
    · next x _ =>
      cases Host.step_cases h with
      | start _ hfresh =>
        rw [List.map_append, List.map_singleton, List.nodup_append_comm]
        exact List.nodup_cons.mpr ⟨hfresh, hs.fds⟩
      | turn _ _ ha _ _ _ => rcases ha with ha | ha | ha | ha <;> cases ha
    · simpa only [List.map_map, Function.comp_def, progress_udsFd] using hs.fds
    · exact hs.fds

theorem Host.step_keyed {s t : Host} {a : HostAct} (hs : s.Sound) (h : s.step a = some t) :
    ∀ p m, t.registry.metadata p = some m → m.peer = p := by
  cases Host.step_cases h with
  | finish fd peer _ =>
    intro p m hm
    rw [endSession_metadata_eq] at hm
    split at hm
    · exact hs.keyed p m hm
    · by_cases hp : p = peer
      · simp [hp] at hm
      · exact hs.keyed p m (by simpa [Function.update_of_ne hp] using hm)
  | frame x =>
    intro p m hm
    unfold storeMetadataIfSessionActive at hm
    dsimp only at hm
    split at hm
    · by_cases hp : p = x.peer
      · subst hp
        simp only [Function.update_self, Option.some.injEq] at hm
        rw [hm]
      · exact hs.keyed p m (by simpa [Function.update_of_ne hp] using hm)
    · exact hs.keyed p m hm
  | stash x rest _ _ =>
    intro p m hm
    unfold Registry.stash at hm
    split at hm
    · by_cases hp : p = x.peer
      · subst hp
        simp only [Function.update_self, Option.some.injEq] at hm
        rw [← hm]
      · exact hs.keyed p m (by simpa [Function.update_of_ne hp] using hm)
    · exact hs.keyed p m hm
  | _ => exact hs.keyed

theorem Host.step_sound {s t : Host} {a : HostAct} (hs : s.Sound) (h : s.step a = some t) :
    t.Sound := by
  refine ⟨Host.step_shape hs.shape h, ?_, Host.step_keyed hs h⟩
  exact ((Host.step_holders hs h).map _).nodup_iff.mpr (Host.afterwards_fds hs h)

/-! ### The two runs side by side -/

structure Host.Agrees (s : Host) (r : Registry) : Prop where
  sound : s.Sound
  handles : s.holders.Perm r.handles
  metadata : s.registry.metadata = r.metadata
  pending : ∀ h ∈ s.pending.map Prod.snd, s.snapshot h.peer = s.registry.metadata h.peer ∧
    ∀ m ∈ s.registry.metadata h.peer, m.ident ≠ none → m.traceId = h.traceId
  records : ∀ h ∈ s.records, ∀ i, h.ident = some i →
    s.registry.metadata h.peer = some ⟨h.peer, some i, h.traceId⟩

theorem Host.step_agrees_handles {s t : Host} {a : HostAct} {r : Registry} (hs : s.Agrees r)
    (h : s.step a = some t) : t.holders.Perm (r.unattempted s a).handles := by
  rw [unattempted_handles]
  exact (Host.step_holders hs.sound h).trans (s.afterwards_perm a hs.handles)

/-- A session that is given up leaves no metadata, or leaves it to another one. -/
theorem Host.unattempted_tidy {s t : Host} {a : HostAct} {r : Registry} {fd : Fd} {peer : String}
    (hs : s.Agrees r) (h : s.step a = some t) (hcl : s.closes a = some (fd, peer))
    (hl : s.loses a = some (peer, t.holders)) (htidy : s.Tidy a) :
    s.registry.metadata = (r.unattempted s a).metadata := by
  have hperm : t.holders.Perm (r.handles.filter (·.isNot fd peer)) := by
    have hall := (Host.step_holders hs.sound h).trans (s.afterwards_perm a hs.handles)
    rwa [Host.afterwards_closes hcl] at hall
  have hmem : peer ∈ t.holders.map (·.peer) ↔ peer ∈ peersBut fd peer r.handles :=
    (hperm.map _).mem_iff
  have hor := htidy _ hl
  rw [unattempted_closes hcl, endSession_metadata_eq, ← hs.metadata]
  split
  · rfl
  · next hnot =>
    have hnone := hor.resolve_right (hmem.not.mpr hnot)
    rw [← hnone, Function.update_eq_self]

theorem mem_peersBut_holders (s : Host) (fd : Fd) (peer : String) :
    peer ∈ peersBut fd peer s.holders ↔
      peer ∈ peersBut fd peer s.registry.handles ∨ peer ∈ peersBut fd peer s.taken := by
  simp only [peersBut, Host.holders, Host.live, Host.taken, List.filter_append, List.map_append,
    List.mem_append, or_assoc]

theorem Host.step_agrees_metadata {s t : Host} {a : HostAct} {r : Registry} (hs : s.Agrees r)
    (hcalm : s.Calm a) (h : s.step a = some t) :
    t.registry.metadata = (r.unattempted s a).metadata := by
  cases Host.step_cases h with
  | start x _ => exact hs.metadata
  | work fd unread unsent n _ => exact hs.metadata
  | flushed fd => exact hs.metadata
  | flushFails fd peer hlive =>
    refine Host.unattempted_tidy hs h rfl ?_ hcalm
    simp only [Host.loses, Host.holders, Host.live, remove_handles, dropPending_handles,
      List.filter_append]
  | finish fd peer hlive =>
    have hperm : peer ∈ peersBut fd peer r.handles ↔ peer ∈ peersBut fd peer s.holders :=
      ((hs.handles.symm.filter _).map _).mem_iff
    show (s.registry.endSession fd peer).metadata = (r.endSession fd peer).metadata
    rw [endSession_metadata_eq, endSession_metadata_eq, ← hs.metadata]
    have hsplit := mem_peersBut_holders s fd peer
    by_cases hin : peer ∈ peersBut fd peer s.registry.handles
    · rw [if_pos hin, if_pos (hperm.mpr (hsplit.mpr (Or.inl hin)))]
    · rw [if_neg hin]
      rcases hcalm with hnone | hout | hin'
      · rw [← hnone, Function.update_eq_self, ite_self]
      · rw [if_neg (fun hr => (hsplit.mp (hperm.mp hr)).elim hin hout)]
      · exact absurd hin' hin
  | frame m =>
    have hmem : m.peer ∈ r.handles.map (·.peer) ↔ m.peer ∈ s.registry.handles.map (·.peer) := by
      rw [← (hs.handles.map _).mem_iff, Host.holders, Host.live, List.append_assoc,
        List.map_append, List.mem_append]
      exact or_iff_left hcalm
    have hall : (s.registry.sessions.any fun e => e.2.peer = m.peer) =
        r.sessions.any fun e => e.2.peer = m.peer := by
      rw [any_peer, any_peer, decide_eq_decide]
      exact hmem.symm
    show _ = (storeMetadataIfSessionActive r m).1.metadata
    unfold storeMetadataIfSessionActive
    dsimp only
    rw [hall]
    split
    · rw [← hs.metadata]
    · exact hs.metadata
  | takeRegistry hp => exact hs.metadata
  | handed n x rest _ hpend => exact hs.metadata
  | dropped n x rest _ hpend =>
    have hcl : s.closes (.handoff false) = some (x.udsFd, x.peer) := by simp [Host.closes, hpend]
    refine Host.unattempted_tidy hs h hcl ?_ hcalm
    simp [Host.loses, hpend, Host.holders, Host.live]
  | stash x rest _ hrec =>
    show (s.registry.stash x).metadata = r.metadata
    rw [← hs.metadata]
    unfold Registry.stash
    split
    · next i hi =>
      have hold := hs.records x (by simp [hrec]) i hi
      rw [← hold, Function.update_eq_self]
    · rfl
  | taken x rest flushing _ hrec huds =>
    have hcl : s.closes (.takeOver true) = none := by simp [Host.closes, hrec, huds]
    have hkeep : r.unattempted s (.takeOver true) = r := by
      simp only [Registry.unattempted, hcl]
    rw [hkeep]
    exact hs.metadata
  | declined ok x rest _ hrec hbad =>
    have hcl : s.closes (.takeOver ok) = some (x.udsFd, x.peer) := by
      simp [Host.closes, hrec, hbad]
    refine Host.unattempted_tidy hs h hcl ?_ hcalm
    simp [Host.loses, hrec, hbad, Host.holders, Host.live]
  | turn _ p ha _ _ _ =>
    rcases ha with rfl | rfl | rfl | rfl <;> exact hs.metadata

/-- The metadata of a peer whose session is out of the map stays as it is. -/
theorem Host.step_metadata_taken {s t : Host} {a : HostAct} {r : Registry} {p : String}
    (hs : s.Agrees r) (hcalm : s.Calm a) (h : s.step a = some t) (hp : p ∈ t.taken.map (·.peer)) :
    t.registry.metadata p = s.registry.metadata p := by
  have hsame := Host.step_agrees_metadata hs hcalm h
  cases Host.step_cases h with
  | finish fd peer hlive =>
    have hfresh := Host.live_fresh hs.sound (Host.isLive_fd hlive)
    show (s.registry.endSession fd peer).metadata p = _
    rw [endSession_metadata_eq]
    split
    · rfl
    · next hnot =>
      by_cases he : p = peer
      · subst he
        have hout : p ∈ peersBut fd p s.taken := by
          rw [peersBut, Host.taken, List.filter_append, ← dropPending_handles,
            filter_isNot_of_fresh _ fd p hfresh]
          exact hp
        rcases hcalm with hnone | hcalm | hin
        · rw [← hnone, Function.update_eq_self]
        · exact absurd hout hcalm
        · exact absurd hin hnot
      · rw [Function.update_of_ne he]
  | frame m =>
    have hne : p ≠ m.peer := by
      intro he
      subst he
      exact hcalm hp
    show (storeMetadataIfSessionActive s.registry m).1.metadata p = _
    unfold storeMetadataIfSessionActive
    dsimp only
    split
    · exact Function.update_of_ne hne _ _
    · rfl
  | stash x rest _ _ => rw [hsame, hs.metadata]; rfl
  | _ => rfl

/-- Who is pending was so before the step, or was in the map when the drain took it. -/
theorem Host.step_pending {s t : Host} {a : HostAct} (h : s.step a = some t) (x : SessionHandle)
    (hx : x ∈ t.pending.map Prod.snd) :
    (t.snapshot = s.snapshot ∧
      ∃ y ∈ s.pending.map Prod.snd, y.peer = x.peer ∧ y.traceId = x.traceId) ∨
    (a = .takeRegistry ∧ x ∈ s.registry.handles ∧ t.snapshot = t.registry.metadata ∧
      t.registry.metadata = s.registry.metadata) := by
  cases Host.step_cases h with
  | work fd unread unsent n _ =>
    left
    simp only [List.map_map, List.mem_map, Function.comp] at hx
    obtain ⟨e, he, rfl⟩ := hx
    refine ⟨rfl, e.2, List.mem_map_of_mem he, (progress_peer ..).symm, ?_⟩
    unfold SessionHandle.progress
    split <;> rfl
  | flushFails fd peer _ | finish fd peer _ =>
    left
    rw [dropPending_handles] at hx
    exact ⟨rfl, x, (List.mem_filter.mp hx).1, rfl, rfl⟩
  | takeRegistry hp => exact Or.inr ⟨rfl, hx, rfl, rfl⟩
  | handed n y rest _ hpend | dropped n y rest _ hpend =>
    left
    refine ⟨rfl, x, ?_, rfl, rfl⟩
    rw [hpend]
    exact List.mem_cons_of_mem _ hx
  | _ => exact Or.inl ⟨rfl, x, hx, rfl, rfl⟩

theorem Host.step_records {s t : Host} {a : HostAct} (h : s.step a = some t) (x : SessionHandoff)
    (hx : x ∈ t.records) :
    x ∈ s.records ∨ ∃ y ∈ s.pending.map Prod.snd, x = enrichHandoff s.snapshot y.record := by
  cases Host.step_cases h with
  | handed n y rest _ hpend =>
    rcases List.mem_append.mp hx with hx | hx
    · exact Or.inl hx
    · exact Or.inr ⟨y, by simp [hpend], List.mem_singleton.mp hx⟩
  | taken y rest flushing _ hrec _ | declined ok y rest _ hrec _ =>
    left
    rw [hrec]
    exact List.mem_cons_of_mem _ hx
  | _ => exact Or.inl hx

/-- A record names the metadata that is in the map, as long as the snapshot it was made from does. -/
theorem Host.record_ident {s : Host} {r : Registry} (hs : s.Agrees r) {y : SessionHandle}
    (hy : y ∈ s.pending.map Prod.snd) (i : String)
    (hi : (enrichHandoff s.snapshot y.record).ident = some i) :
    s.registry.metadata y.peer = some ⟨y.peer, some i, y.traceId⟩ := by
  obtain ⟨hsnap, htrace⟩ := hs.pending y hy
  have hpeer : y.record.peer = y.peer := rfl
  cases hm : s.registry.metadata y.peer with
  | none => simp [enrichHandoff, hsnap, hm, SessionHandle.record] at hi
  | some m =>
    have hid : m.ident = some i := by simpa [enrichHandoff, hpeer, hsnap, hm] using hi
    have hkey := hs.sound.keyed y.peer m hm
    have htr := htrace m hm (by simp [hid])
    rw [← hid, ← htr, ← hkey]

theorem enrichHandoff_traceId (metadata : String → Option SessionMetadata) (h : SessionHandoff) :
    (enrichHandoff metadata h).peer = h.peer ∧ (enrichHandoff metadata h).traceId = h.traceId := by
  unfold enrichHandoff
  split <;> exact ⟨rfl, rfl⟩

theorem Host.step_agrees {s t : Host} {a : HostAct} {r : Registry} (hs : s.Agrees r)
    (hcalm : s.Calm a) (h : s.step a = some t) : t.Agrees (r.unattempted s a) := by
  refine ⟨Host.step_sound hs.sound h, Host.step_agrees_handles hs h,
    Host.step_agrees_metadata hs hcalm h, ?_, ?_⟩
  · intro x hx
    have hin : x.peer ∈ t.taken.map (·.peer) :=
      List.mem_map_of_mem (List.mem_append_left _ hx)
    have hkeep := Host.step_metadata_taken hs hcalm h hin
    rcases Host.step_pending h x hx with ⟨hsnap, y, hy, hpeer, htrace⟩ | ⟨rfl, hreg, hsnap, hmeta⟩
    · rw [hkeep, hsnap, ← hpeer, ← htrace]
      exact hs.pending y hy
    · exact ⟨congrFun hsnap x.peer, by rw [hmeta]; exact hcalm x hreg⟩
  · intro x hx i hi
    have hin : x.peer ∈ t.taken.map (·.peer) :=
      List.mem_map_of_mem (List.mem_append_right _ (List.mem_map_of_mem hx))
    have hkeep := Host.step_metadata_taken hs hcalm h hin
    rw [hkeep]
    rcases Host.step_records h x hx with hx | ⟨y, hy, rfl⟩
    · exact hs.records x hx i hi
    · obtain ⟨hpeer, htrace⟩ := enrichHandoff_traceId s.snapshot y.record
      rw [hpeer, htrace]
      exact Host.record_ident hs hy i hi

theorem Host.agrees_serving {s : Host} (hs : s.Sound) (hp : s.phase = .serving) :
    s.Agrees s.registry := by
  have hpend := hs.shape.pending (by simp [hp])
  have hrec := hs.shape.serving hp
  refine ⟨hs, ?_, rfl, by simp [hpend], by simp [hrec]⟩
  simp [Host.holders, Host.live, hpend, hrec]

/-- From a processor that serves any set of sessions, through any number of attempts that end in a
rollback: the sessions that are open, with all their tasks hold, and the metadata are what they would
be without them. -/
theorem rollback_restores (payload : List SessionHandoff) (before as : List HostAct) (s t : Host)
    (r : Registry) (hfds : (payload.map (·.udsFd)).Nodup)
    (hs : exec Host.step (Host.boot payload) before = some s) (hserving : s.phase = .serving)
    (h : exec Host.beside (s, s.registry) as = some (t, r)) (hp : t.phase = .serving)
    (hcalm : Along Host.beside (fun p => p.1.Calm) (s, s.registry) as) :
    t.registry.handles.Perm r.handles ∧ t.registry.metadata = r.metadata := by
  have hsound : s.Sound :=
    exec_invariant (fun _ _ _ hs ht => Host.step_sound hs ht) _ s before
      (Host.boot_sound payload hfds) hs
  have hagrees : t.Agrees r := by
    refine exec_along (I := fun p => p.1.Agrees p.2) ?_ _ (t, r) as
      (Host.agrees_serving hsound hserving) hcalm h
    intro p a q hp hc hq
    obtain ⟨u, hu, rfl⟩ := Option.map_eq_some_iff.mp hq
    exact Host.step_agrees hp hc hu
  have hpend := hagrees.sound.shape.pending (by simp [hp])
  have hrec := hagrees.sound.shape.serving hp
  have hperm := hagrees.handles
  simp only [Host.holders, Host.live, hpend, hrec, List.map_nil, List.append_nil] at hperm
  exact ⟨hperm, hagrees.metadata⟩

/-- The record of `echoingRecord` with its line sent, as its session comes up in the next image. -/
def serveEchoing : List HostAct := [.stash, .takeOver true, .flushed 7, .resume]

/-- An attempt that fails while another client comes in and is identified. -/
def calmAttempt : List HostAct :=
  [.work 7 [] [] 1, .frame ⟨"p", some "jo", "t"⟩, .takeRegistry,
    .start ⟨8, [], [], 0, 0, "q", "u"⟩, .frame ⟨"q", none, "u"⟩, .handoff true, .spawn, .rollback,
    .stash, .takeOver true, .resume]

theorem rollback_restores_frame :
    ∃ s t r, exec Host.step (Host.boot [echoingRecord]) serveEchoing = some s ∧
      exec Host.beside (s, s.registry) calmAttempt = some (t, r) ∧
      t.registry.handles.Perm r.handles ∧ t.registry.metadata = r.metadata := by
  refine ⟨_, _, _, rfl, rfl, ?_⟩
  exact rollback_restores [echoingRecord] serveEchoing calmAttempt _ _ _ (by decide) rfl rfl rfl
    rfl (by decide)

/-- A frame for the session that is out is dropped, and where another session of its peer has come
in meanwhile it is stored and then overwritten by the older ident of the record. -/
theorem rollback_loses_frame :
    (∃ s t r, exec Host.step (Host.boot [{ echoingRecord with ident := none }]) serveEchoing =
        some s ∧
      exec Host.beside (s, s.registry) [.takeRegistry, .handoff true, .spawn,
        .frame ⟨"p", some "jo", "t"⟩, .rollback, .stash, .takeOver true, .resume] = some (t, r) ∧
      t.phase = .serving ∧ t.registry.metadata "p" = none ∧
      r.metadata "p" = some ⟨"p", some "jo", "t"⟩) ∧
    (∃ s t r, exec Host.step (Host.boot [echoingRecord]) serveEchoing = some s ∧
      exec Host.beside (s, s.registry) [.takeRegistry, .handoff true,
        .start ⟨8, [], [], 0, 0, "p", "u"⟩, .frame ⟨"p", some "jo", "u"⟩, .spawn, .rollback, .stash,
        .takeOver true, .resume] = some (t, r) ∧
      t.phase = .serving ∧ t.registry.metadata "p" = some ⟨"p", some "joe", "t"⟩ ∧
      r.metadata "p" = some ⟨"p", some "jo", "u"⟩) := by
  refine ⟨⟨_, _, _, rfl, rfl, ?_⟩, ⟨_, _, _, rfl, rfl, ?_⟩⟩ <;> decide

end FiveNinesEcho.Processor
