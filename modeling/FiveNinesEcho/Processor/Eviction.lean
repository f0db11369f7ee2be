import FiveNinesEcho.Processor.Sidecar

/-!
# Metadata and the sessions it is for (`processor.rs:50-54`, `processor.rs:354-386`)

Metadata is put in for a session of the peer and taken out when the last one ends. Three ways of
giving up a session skip the second half: the flush of an adopted write buffer that fails, a record
that cannot be made in the drain, and a record that cannot be taken over, whose metadata has just
been put in.
-/

namespace FiveNinesEcho.Processor
open Lib Handoff

def Host.peers (s : Host) : List String := s.holders.map (·.peer)

/-- Every peer with metadata has a session, be it in the registry or on its way through an
upgrade. -/
def Host.Covered (s : Host) : Prop := ∀ p, s.registry.metadata p ≠ none → p ∈ s.peers

/-- The session a step gives up without looking at the metadata, by its peer, and the sessions that
are left. -/
def Host.loses (s : Host) : HostAct → Option (String × List SessionHandle)
  | .flushFails fd peer =>
    some (peer, s.live.filter (·.isNot fd peer) ++ s.records.map handleOf)
  | .handoff false => match s.pending with
    | (_, h) :: rest =>
      some (h.peer, s.registry.handles ++ rest.map Prod.snd ++ s.records.map handleOf)
    | [] => none
  | .takeOver ok => match s.records with
    | h :: rest =>
      if ok = true ∧ h.transport = .uds then none else some (h.peer, s.live ++ rest.map handleOf)
    | [] => none
  | _ => none

/-- Where a session is given up so, its peer has no metadata or another session. -/
def Host.Tidy (s : Host) (a : HostAct) : Prop :=
  ∀ l, s.loses a = some l → s.registry.metadata l.1 = none ∨ l.1 ∈ l.2.map (·.peer)

instance decidableTidy (s : Host) (a : HostAct) : Decidable (s.Tidy a) :=
  match h : s.loses a with
  | none => isTrue (by simp [Host.Tidy, h])
  | some l => decidable_of_iff (s.registry.metadata l.1 = none ∨ l.1 ∈ l.2.map (·.peer))
      (by simp [Host.Tidy, h])

theorem Host.mem_peers (s : Host) (p : String) :
    p ∈ s.peers ↔ (∃ h ∈ s.registry.handles, h.peer = p) ∨
      (∃ h ∈ s.pending.map Prod.snd, h.peer = p) ∨ ∃ h ∈ s.records, h.peer = p := by
  simp only [Host.peers, Host.holders, Host.live, List.map_append, List.mem_append, List.mem_map,
    List.map_map, Function.comp, or_assoc]
  simp [handleOf]

theorem filter_isNot_peer (hs : List SessionHandle) (fd : Fd) (peer p : String) (hne : p ≠ peer) :
    (∃ h ∈ hs.filter (·.isNot fd peer), h.peer = p) ↔ ∃ h ∈ hs, h.peer = p := by
  constructor
  · intro ⟨h, hh, hp⟩
    exact ⟨h, (List.mem_filter.mp hh).1, hp⟩
  · intro ⟨h, hh, hp⟩
    refine ⟨h, List.mem_filter.mpr ⟨hh, ?_⟩, hp⟩
    simp [SessionHandle.isNot, hp, hne]

/-- A step that gives up a session and leaves the metadata as it was. -/
theorem Host.covered_loss {s t : Host} {a : HostAct} {peer : String} {rest : List SessionHandle}
    (hs : s.Covered) (hl : s.loses a = some (peer, rest))
    (hmeta : t.registry.metadata = s.registry.metadata) (hrest : t.holders = rest)
    (hpeers : ∀ p, p ≠ peer → p ∈ s.peers → p ∈ t.peers) : t.Covered ↔ s.Tidy a := by
  have htidy : s.Tidy a ↔ (s.registry.metadata peer = none ∨ peer ∈ t.peers) := by
    simp only [Host.Tidy, hl, Option.some.injEq, forall_eq', Host.peers, hrest]
  rw [htidy]
  constructor
  · intro ht
    by_cases hnone : s.registry.metadata peer = none
    · exact Or.inl hnone
    · exact Or.inr (ht peer (by rw [hmeta]; exact hnone))
  · intro hor p hp
    rw [hmeta] at hp
    by_cases he : p = peer
    · subst he
      exact hor.resolve_left hp
    · exact hpeers p he (hs p hp)

/-- A step that gives up no session and puts in no metadata. -/
theorem Host.covered_mono {s t : Host} (hs : s.Covered)
    (hmeta : ∀ p, t.registry.metadata p ≠ none → s.registry.metadata p ≠ none)
    (hpeers : ∀ p, p ∈ s.peers → p ∈ t.peers) : t.Covered :=
  fun p hp => hpeers p (hs p (hmeta p hp))

theorem stash_metadata (r : Registry) (h : SessionHandoff) (p : String)
    (hp : (r.stash h).metadata p ≠ none) : p = h.peer ∨ r.metadata p ≠ none := by
  unfold Registry.stash at hp
  split at hp
  · by_cases he : p = h.peer
    · exact Or.inl he
    · exact Or.inr (by simpa [Function.update_of_ne he] using hp)
  · exact Or.inr hp

theorem endSession_metadata (r : Registry) (fd : Fd) (peer p : String)
    (hp : (r.endSession fd peer).metadata p ≠ none) :
    r.metadata p ≠ none ∧ (p = peer → ∃ h ∈ (r.remove fd peer).handles, h.peer = peer) := by
  unfold Registry.endSession at hp
  dsimp only at hp
  split at hp
  · next hany =>
    refine ⟨hp, fun _ => ?_⟩
    obtain ⟨e, he, hpeer⟩ := List.any_eq_true.mp hany
    exact ⟨e.2, List.mem_map_of_mem he, by simpa using hpeer⟩
  · by_cases he : p = peer
    · simp [he] at hp
    · simp only [Function.update_of_ne he] at hp
      exact ⟨hp, fun h => absurd h he⟩

/-- The end of a session takes the peer's metadata with its last session. -/
theorem Host.finish_covered {s : Host} (hs : s.Covered) (fd : Fd) (peer : String) :
    Host.Covered { s with
      registry := s.registry.endSession fd peer, pending := s.dropPending fd peer } := by
  intro p hp
  obtain ⟨hmeta, hused⟩ := endSession_metadata s.registry fd peer p hp
  have hold := (s.mem_peers p).mp (hs p hmeta)
  rw [Host.mem_peers, Registry.handles, endSession_sessions, dropPending_handles]
  by_cases he : p = peer
  · subst he
    exact Or.inl (hused rfl)
  · rcases hold with hold | hold | hold
    · left
      have hrem := remove_handles s.registry fd peer
      rw [Registry.handles] at hrem
      rw [hrem]
      exact (filter_isNot_peer _ fd peer p he).mpr hold
    · exact Or.inr (Or.inl ((filter_isNot_peer _ fd peer p he).mpr hold))
    · exact Or.inr (Or.inr hold)

/-- Metadata is stored for the peer of a registered session only. -/
theorem Host.frame_covered {s : Host} (hs : s.Covered) (m : SessionMetadata) :
    Host.Covered { s with registry := (storeMetadataIfSessionActive s.registry m).1 } := by
  intro p hp
  rw [Host.mem_peers, Registry.handles, storeMetadata_sessions]
  unfold storeMetadataIfSessionActive at hp
  dsimp only at hp
  split at hp
  · next hany =>
    by_cases he : p = m.peer
    · obtain ⟨e, hmem, hpeer⟩ := List.any_eq_true.mp hany
      exact Or.inl ⟨e.2, List.mem_map_of_mem hmem, by simpa [he] using hpeer⟩
    · exact (s.mem_peers p).mp (hs p (by simpa [Function.update_of_ne he] using hp))
  · exact (s.mem_peers p).mp (hs p hp)

theorem Host.step_tidy {s t : Host} {a : HostAct} (hshape : s.Shape) (hs : s.Covered)
    (h : s.step a = some t) : t.Covered ↔ s.Tidy a := by
  have hkeep : s.loses a = none → t.Covered → (t.Covered ↔ s.Tidy a) := by
    intro hl ht
    simp [Host.Tidy, hl, ht]
  cases Host.step_cases h with
  | start x _ =>
    apply hkeep rfl
    refine Host.covered_mono hs (fun _ => id) ?_
    intro p hp
    simp only [Host.mem_peers, spawnSession_handles] at hp ⊢
    rcases hp with ⟨y, hy, hp⟩ | hp
    · exact Or.inl ⟨y, List.mem_append_left _ hy, hp⟩
    · exact Or.inr hp
  | work fd unread unsent n _ =>
    apply hkeep rfl
    refine Host.covered_mono hs (fun _ => id) ?_
    intro p hp
    simp only [Host.mem_peers, Registry.handles, List.map_map, List.mem_map, Function.comp] at hp ⊢
    rcases hp with ⟨y, ⟨e, he, rfl⟩, hp⟩ | ⟨y, ⟨e, he, rfl⟩, hp⟩ | hp
    · exact Or.inl ⟨_, ⟨e, he, rfl⟩, (progress_peer ..).trans hp⟩
    · exact Or.inr (Or.inl ⟨_, ⟨e, he, rfl⟩, (progress_peer ..).trans hp⟩)
    · exact Or.inr (Or.inr hp)
  | flushed fd => exact hkeep rfl hs
  | flushFails fd peer _ =>
    refine Host.covered_loss hs rfl rfl ?_ ?_
    · simp only [Host.holders, Host.live, remove_handles, dropPending_handles, List.filter_append]
    · intro p hne hp
      simp only [Host.mem_peers, remove_handles, dropPending_handles] at hp ⊢
      rw [filter_isNot_peer _ fd peer p hne, filter_isNot_peer _ fd peer p hne]
      exact hp
  | finish fd peer _ => exact hkeep rfl (Host.finish_covered hs fd peer)
  | frame m => exact hkeep rfl (Host.frame_covered hs m)
  | takeRegistry hp =>
    apply hkeep rfl
    refine Host.covered_mono hs (fun _ => id) ?_
    intro p hp'
    simp only [Host.mem_peers, hshape.pending (by simp [hp])] at hp' ⊢
    rcases hp' with hp' | ⟨y, hy, -⟩ | hp'
    · exact Or.inr (Or.inl hp')
    · cases hy
    · exact Or.inr (Or.inr hp')
  | handed n x rest _ hpend =>
    apply hkeep rfl
    refine Host.covered_mono hs (fun _ => id) ?_
    intro p hp
    simp only [Host.mem_peers, hpend, List.map_cons] at hp ⊢
    rcases hp with hp | ⟨y, hy, hp⟩ | ⟨y, hy, hp⟩
    · exact Or.inl hp
    · rcases List.mem_cons.mp hy with rfl | hy
      · refine Or.inr (Or.inr ⟨_, List.mem_append_right _ (List.mem_singleton_self _), ?_⟩)
        rw [← hp]
        exact congrArg SessionHandle.peer (enrichHandoff_same s.snapshot y.record).1
      · exact Or.inr (Or.inl ⟨y, hy, hp⟩)
    · exact Or.inr (Or.inr ⟨y, List.mem_append_left _ hy, hp⟩)
  | dropped n x rest _ hpend =>
    have hl : s.loses (.handoff false) = some (x.peer,
        s.registry.handles ++ rest.map Prod.snd ++ s.records.map handleOf) := by
      simp only [Host.loses, hpend]
    refine Host.covered_loss hs hl rfl rfl ?_
    intro p hne hp
    simp only [Host.mem_peers, hpend, List.map_cons, List.mem_cons] at hp ⊢
    rcases hp with hp | ⟨y, rfl | hy, hp⟩ | hp
    · exact Or.inl hp
    · exact absurd hp.symm hne
    · exact Or.inr (Or.inl ⟨y, hy, hp⟩)
    · exact Or.inr (Or.inr hp)
  | stash x rest _ hrec =>
    apply hkeep rfl
    intro p hp
    rw [Host.mem_peers, stash_handles]
    rcases stash_metadata s.registry x p hp with rfl | hp
    · exact Or.inr (Or.inr ⟨x, by simp [hrec], rfl⟩)
    · exact (s.mem_peers p).mp (hs p hp)
  | taken x rest flushing _ hrec huds =>
    apply hkeep (by simp [Host.loses, hrec, huds])
    refine Host.covered_mono hs (fun _ => id) ?_
    intro p hp
    simp only [Host.mem_peers, spawnSession_handles, hrec, List.mem_cons] at hp ⊢
    rcases hp with ⟨y, hy, hp⟩ | hp | ⟨y, rfl | hy, hp⟩
    · exact Or.inl ⟨y, List.mem_append_left _ hy, hp⟩
    · exact Or.inr (Or.inl hp)
    · exact Or.inl ⟨handleOf y, List.mem_append_right _ (List.mem_singleton_self _), hp⟩
    · exact Or.inr (Or.inr ⟨y, hy, hp⟩)
  | declined ok x rest _ hrec hbad =>
    have hl : s.loses (.takeOver ok) = some (x.peer, s.live ++ rest.map handleOf) := by
      simp only [Host.loses, hrec, hbad, if_false]
    refine Host.covered_loss hs hl rfl rfl ?_
    intro p hne hp
    simp only [Host.mem_peers, hrec, List.mem_cons] at hp ⊢
    rcases hp with hp | hp | ⟨y, rfl | hy, hp⟩
    · exact Or.inl hp
    · exact Or.inr (Or.inl hp)
    · exact absurd hp.symm hne
    · exact Or.inr (Or.inr ⟨y, hy, hp⟩)
  | turn _ p ha _ _ _ =>
    rcases ha with rfl | rfl | rfl | rfl <;> exact hkeep rfl hs

/-- Outside an upgrade window: every key is the peer of a registered session. -/
def Registry.Evicted (r : Registry) : Prop :=
  ∀ p, r.metadata p ≠ none → ∃ h ∈ r.handles, h.peer = p

theorem Host.evicted_iff {s : Host} (hs : s.Shape) (hp : s.phase = .serving) :
    s.registry.Evicted ↔ s.Covered := by
  have hpend := hs.pending (by simp [hp])
  have hrec := hs.serving hp
  simp [Registry.Evicted, Host.Covered, Host.mem_peers, hpend, hrec]

/-- In a run in which no session with the only claim to its peer's metadata is given up without a
look at it, metadata never outlives its sessions, so there is never more of it than there are
sessions. A step that does give one up leaves the metadata behind. -/
theorem metadata_evicted (payload : List SessionHandoff) (as : List HostAct) (t : Host)
    (h : exec Host.step (Host.boot payload) as = some t)
    (hg : Along Host.step Host.Tidy (Host.boot payload) as) :
    (t.phase = .serving → t.registry.Evicted ∧
      ∃ keys : List String, keys.length ≤ t.registry.sessions.length ∧
        ∀ p, t.registry.metadata p ≠ none → p ∈ keys) ∧
    (∀ a u, t.step a = some u → u.phase = .serving → (u.registry.Evicted ↔ t.Tidy a)) := by
  have hinv : t.Shape ∧ t.Covered := by
    refine exec_along (I := fun s => s.Shape ∧ s.Covered) ?_ _ t as
      ⟨Host.boot_shape payload, fun p hp => absurd rfl hp⟩ hg h
    intro s a t hs hg ht
    exact ⟨Host.step_shape hs.1 ht, (Host.step_tidy hs.1 hs.2 ht).mpr hg⟩
  constructor
  · intro hp
    have hev := (Host.evicted_iff hinv.1 hp).mpr hinv.2
    refine ⟨hev, t.registry.handles.map (·.peer), by simp [Registry.handles], ?_⟩
    intro p hne
    obtain ⟨x, hx, rfl⟩ := hev p hne
    exact List.mem_map_of_mem hx
  · intro a u hu hp
    rw [Host.evicted_iff (Host.step_shape hinv.1 hu) hp]
    exact Host.step_tidy hinv.1 hinv.2 hu

/-- A session in mid-echo with the ident its client was found to have. -/
def echoingRecord : SessionHandoff := ⟨7, .uds, [], [104, 105, 10], 0, 0, "p", some "joe", "t", 1⟩

theorem metadata_evicted_flushed :
    ∃ t, exec Host.step (Host.boot [echoingRecord])
      [.stash, .takeOver true, .flushed 7, .resume, .frame ⟨"q", none, "u"⟩, .finish 7 "p"] =
        some t ∧ t.registry.Evicted := by
  refine ⟨_, rfl, ?_⟩
  exact ((metadata_evicted [echoingRecord]
    [.stash, .takeOver true, .flushed 7, .resume, .frame ⟨"q", none, "u"⟩, .finish 7 "p"] _ rfl
    (by decide)).1 rfl).1

/-- The client is gone when the adopted session flushes: the session ends and its metadata stays. So
it does for a record whose descriptor is bad. -/
theorem metadata_outlives_session :
    (∃ t, exec Host.step (Host.boot [echoingRecord])
      [.stash, .takeOver true, .resume, .flushFails 7 "p"] = some t ∧
      t.phase = .serving ∧ t.registry.sessions = [] ∧ t.registry.metadata "p" ≠ none) ∧
    (∃ t, exec Host.step (Host.boot [echoingRecord]) [.stash, .takeOver false, .resume] = some t ∧
      t.phase = .serving ∧ t.registry.sessions = [] ∧ t.registry.metadata "p" ≠ none) := by
  refine ⟨⟨_, rfl, ?_⟩, ⟨_, rfl, ?_⟩⟩ <;> decide

end FiveNinesEcho.Processor
