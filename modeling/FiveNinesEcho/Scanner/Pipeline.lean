import FiveNinesEcho.Scanner.Wire
import FiveNinesEcho.Processor.Hearing
import Mathlib.Data.Finset.Card

/-!
# From an observed session to the processor (`scanner.rs:285-356`, `scanner/sidecar.rs`)

The scanner runs a task for each request an acceptor sends it, with the request's id in its registry
from the time it has been read until the probe is over. What the probe finds goes, if there is room,
into a channel of 256 entries, and one publisher takes it from there to the processor, over one
connection after another: a connection is given up at the first failed write, with the frame that
was being written. `Pipeline` is all of it together with the processor's readers of these
connections, each of which may also go away with its process at any time.
-/

namespace FiveNinesEcho.Scanner
open Lib Handoff Processor Acceptor
variable {J : JsonText} {C : Codec}

/-! ### The state -/

/-- The task of a request: waiting for its line, probing, about to leave the registry, over. -/
inductive Request where
  | reading
  | probing (id : ℕ) (request : ScanRequest)
  | leaving (id : ℕ)
  | done
  deriving Repr, DecidableEq

def Request.id? : Request → Option ℕ
  | .probing id _ | .leaving id => some id
  | .reading | .done => none

/-- A connection of the publisher. `frames` are the entries it took for it and `sent` the bytes it
wrote, `left` those of the preamble or frame in hand that it did not write. -/
structure Link (C : Codec) where
  frames : List SessionMetadata
  sent : Bytes
  left : Bytes
  up : Bool
  sock : Sock
  reader : Hearing C

/-- `completed` are the finished probes and `accepted` those that found room in the channel. -/
structure Pipeline (C : Codec) where
  nextId : ℕ
  inFlight : Finset ℕ
  requests : List Request
  queue : List SessionMetadata
  links : List (Link C)
  completed : List SessionMetadata
  accepted : List SessionMetadata

def capacity : ℕ := 256

def Pipeline.start (C : Codec) : Pipeline C := ⟨0, ∅, [], [], [], [], []⟩

/-! ### Its moves -/

inductive PipelineAct where
  | accept
  | line (i : ℕ) (text : Option String)
  | probed (i : ℕ) (ident : Option String)
  | leave (i : ℕ)
  | dial
  | recv
  | write (n : ℕ)
  | writeFails
  | hear (i : ℕ) (a : TaskAct)
  | kill (i : ℕ)
  deriving Repr, DecidableEq

/-- A request that cannot be read ends its task; one that can is registered under the next id. -/
def Pipeline.readLine (J : JsonText) (s : Pipeline C) (i : ℕ) (text : Option String) : Pipeline C :=
  match text.bind (parseRequest J) with
  | none => { s with requests := s.requests.set i .done }
  | some request =>
    { s with
      nextId := s.nextId + 1
      inFlight := insert s.nextId s.inFlight
      requests := s.requests.set i (.probing s.nextId request) }

/-- `try_send`: a full channel drops the entry. -/
def Pipeline.trySend (s : Pipeline C) (m : SessionMetadata) : Pipeline C :=
  if s.queue.length < capacity then
    { s with queue := s.queue ++ [m], accepted := s.accepted ++ [m] }
  else s

def Pipeline.probed (s : Pipeline C) (i id : ℕ) (m : SessionMetadata) : Pipeline C :=
  { s.trySend m with
    completed := s.completed ++ [m]
    requests := s.requests.set i (.leaving id) }

/-- What the publisher does with its connection, which is the last one. -/
def Pipeline.onLink (s : Pipeline C) (f : Link C → Option (Link C)) : Option (Pipeline C) :=
  match s.links.getLast? with
  | some l =>
    if l.up then (f l).map fun l' => { s with links := s.links.dropLast ++ [l'] } else none
  | none => none

def Link.dialed (J : JsonText) (C : Codec) : Link C where
  frames := []
  sent := []
  left := encode (preambleLine J .sidecar)
  up := true
  sock := Sock.open [] false 0
  reader := Hearing.start C 0 0

def Link.take (J : JsonText) (m : SessionMetadata) (l : Link C) : Option (Link C) :=
  if l.left = [] then
    some { l with frames := l.frames ++ [m], left := encode (metadataLine J m) }
  else none

/-- Part of a `write_all`. The kernel refuses it once the reader has closed its end. -/
def Link.write (n : ℕ) (l : Link C) : Option (Link C) :=
  if 0 < n ∧ n ≤ l.left.length ∧ l.reader.task.pc ≠ .ended then
    some { l with
      sent := l.sent ++ l.left.take n
      left := l.left.drop n
      sock := { l.sock with inbox := l.sock.inbox ++ l.left.take n } }
  else none

/-- A failed write drops the stream. -/
def Link.fail (l : Link C) : Option (Link C) :=
  if l.left ≠ [] then some { l with up := false, sock := { l.sock with shut := true } } else none

def opensSidecar (J : JsonText) (l : Bytes) : Bool := decide (parsePreamble J l = some .sidecar)

def Link.hear (J : JsonText) (a : TaskAct) (l : Link C) : Option (Link C) :=
  (l.reader.step (opensSidecar J) l.sock a).map fun p => { l with sock := p.1, reader := p.2 }

def Link.kill (l : Link C) : Link C := { l with reader := l.reader.kill }

def Pipeline.step (J : JsonText) (s : Pipeline C) : PipelineAct → Option (Pipeline C)
  | .accept => some { s with requests := s.requests ++ [.reading] }
  | .line i text => if s.requests[i]? = some .reading then some (s.readLine J i text) else none
  | .probed i ident => match s.requests[i]? with
    | some (.probing id request) => some (s.probed i id (spawnRequest (fun _ _ _ => ident) request))
    | _ => none
  | .leave i => match s.requests[i]? with
    | some (.leaving id) =>
      some { s with inFlight := s.inFlight.erase id, requests := s.requests.set i .done }
    | _ => none
  | .dial =>
    if s.links.all (fun l => !l.up) then some { s with links := s.links ++ [Link.dialed J C] }
    else none
  | .recv => match s.queue with
    | m :: queue => (s.onLink (Link.take J m)).map fun t => { t with queue := queue }
    | [] => none
  | .write n => s.onLink (Link.write n)
  | .writeFails => s.onLink Link.fail
  | .hear i a => match s.links[i]? with
    | some l => (l.hear J a).map fun l' => { s with links := s.links.set i l' }
    | none => none
  | .kill i => match s.links[i]? with
    | some l => some { s with links := s.links.set i l.kill }
    | none => none

/-- What the processor got over a connection, behind the preamble (`processor/sidecar.rs:11-42`). -/
def Link.received (J : JsonText) (l : Link C) : List SessionMetadata :=
  (l.reader.heard.drop 1).filterMap (parseMetadata J)

/-! ### One connection -/

def texts (J : JsonText) (frames : List SessionMetadata) : List Bytes :=
  preambleLine J .sidecar :: frames.map (metadataLine J)

theorem texts_append (frames : List SessionMetadata) (m : SessionMetadata) :
    texts J (frames ++ [m]) = texts J frames ++ [metadataLine J m] := by
  simp [texts]

theorem notMem_texts (frames : List SessionMetadata) (b : Byte) (hb : b.toNat < 0x20) :
    ∀ l ∈ texts J frames, b ∉ l := by
  intro l hl
  rcases List.mem_cons.mp hl with rfl | hl
  · exact Control.notMem_utf8_render J _ (preambleMembers_fit _) b hb
  · obtain ⟨m, -, rfl⟩ := List.mem_map.mp hl
    exact Control.notMem_utf8_render J _ (metadata_fits m) b hb

structure Link.Ok (J : JsonText) (l : Link C) : Prop where
  stream : l.sent ++ l.left = (texts J l.frames).flatMap encode
  last : ∀ x ∈ (texts J l.frames).getLast?, l.left.length ≤ (encode x).length
  on : l.reader.On l.sent l.sock
  whole : l.sock.gone = false
  eof : l.reader.task.framed.eof = true → l.reader.task.pc ≠ .ended → l.sock.shut = true
  shut : l.sock.shut = true → l.up = false

theorem Link.dialed_ok : (Link.dialed J C).Ok J := by
  refine ⟨?_, ?_, Hearing.start_on 0 0 _ rfl, rfl, ?_, ?_⟩
  · simp [Link.dialed, texts]
  · simp [Link.dialed, texts]
  · simp [Link.dialed, Hearing.start]
  · simp [Link.dialed, Sock.open]

section Moves
variable {l l' : Link C}

theorem Link.take_ok (m : SessionMetadata) (ho : l.Ok J) (h : l.take J m = some l') :
    l'.Ok J ∧ l'.frames = l.frames ++ [m] := by
  simp only [Link.take, Option.ite_none_right_eq_some, Option.some.injEq] at h
  obtain ⟨hleft, rfl⟩ := h
  refine ⟨⟨?_, ?_, ho.on, ho.whole, ho.eof, ho.shut⟩, rfl⟩
  · have hs := ho.stream
    rw [hleft, List.append_nil] at hs
    rw [texts_append, List.flatMap_append, ← hs]
    simp
  · intro x hx
    rw [texts_append, List.getLast?_concat] at hx
    rw [Option.some.inj hx]

theorem Link.write_ok (n : ℕ) (ho : l.Ok J) (hup : l.up = true) (h : l.write n = some l') :
    l'.Ok J ∧ l'.frames = l.frames := by
  simp only [Link.write, Option.ite_none_right_eq_some, Option.some.injEq] at h
  obtain ⟨⟨-, -, hne⟩, rfl⟩ := h
  refine ⟨⟨?_, ?_, ?_, ho.whole, ho.eof, ho.shut⟩, rfl⟩
  · rw [List.append_assoc, List.take_append_drop]
    exact ho.stream
  · intro x hx
    have hlen := ho.last x hx
    rw [List.length_drop]
    omega
  · refine ho.on.arrive _ rfl fun he _ => ?_
    -- the reader saw the end of a stream that is not shut
    have hdown := ho.shut (ho.eof he hne)
    exact absurd (hup.symm.trans hdown) (by simp)

theorem Link.fail_ok (ho : l.Ok J) (h : l.fail = some l') : l'.Ok J ∧ l'.frames = l.frames := by
  simp only [Link.fail, Option.ite_none_right_eq_some, Option.some.injEq] at h
  obtain ⟨-, rfl⟩ := h
  refine ⟨⟨ho.stream, ho.last, ?_, ho.whole, fun _ _ => rfl, fun _ => rfl⟩, rfl⟩
  have hsame : { l.sock with shut := true }.inbox = l.sock.inbox ++ [] := by simp
  have harrive := ho.on.arrive [] hsame fun _ _ => rfl
  rwa [List.append_nil] at harrive

theorem Link.hear_ok (hC : C.Strict) (a : TaskAct) (ho : l.Ok J) (h : l.hear J a = some l') :
    l'.Ok J ∧ l'.frames = l.frames := by
  obtain ⟨⟨k, r⟩, hstep, rfl⟩ := Option.map_eq_some_iff.mp h
  obtain ⟨hon, hshut, hgone, heof⟩ := ho.on.step hC ho.whole hstep
  refine ⟨⟨ho.stream, ho.last, hon, hgone, fun he hne => ?_, fun hs => ho.shut (hshut ▸ hs)⟩, rfl⟩
  rcases heof he hne with hk | hk
  · exact hshut.trans hk
  · refine hshut.trans (ho.eof hk fun hp => ?_)
    simp [Hearing.step, hp] at hstep

theorem Link.kill_ok (ho : l.Ok J) : l.kill.Ok J :=
  ⟨ho.stream, ho.last, ho.on.kill, ho.whole, by simp [Link.kill, Hearing.kill], ho.shut⟩

end Moves

theorem filterMap_metadataLine (frames : List SessionMetadata) :
    (frames.map (metadataLine J)).filterMap (parseMetadata J) = frames := by
  induction frames with
  | nil => rfl
  | cons m frames ih => simp [parseMetadata_line, ih]

theorem filterMap_texts_prefix {frames : List SessionMetadata} {ls : List Bytes}
    (h : ls <+: texts J frames) : (ls.drop 1).filterMap (parseMetadata J) <+: frames := by
  have hdrop := (h.drop 1).filterMap (parseMetadata J)
  rwa [texts, List.drop_succ_cons, List.drop_zero, filterMap_metadataLine] at hdrop

/-- The processor gets the first of the frames of a connection, in their order and each once. -/
theorem Link.Ok.received_front {l : Link C} (hJ : J.CutProof) (ho : l.Ok J) :
    l.received J <+: l.frames := by
  have hdelivered := ho.on.delivered (notMem_texts _ newline (by decide))
    (notMem_texts _ carriageReturn (by decide)) ho.stream
  have hheard := l.reader.heard_prefix
  cases hdelivered with
  | whole h => exact filterMap_texts_prefix (hheard.trans h)
  | cut front text part hls htexts hpart hne =>
    rw [hls, List.prefix_concat_iff] at hheard
    have hfront : front <+: texts J l.frames := (List.prefix_append _ _).trans htexts
    rcases hheard with hheard | hheard
    · -- the part of a frame that came last
      rw [Link.received, hheard]
      cases front with
      | nil => exact List.nil_prefix
      | cons first front =>
        obtain ⟨m, rfl⟩ : ∃ m, text = metadataLine J m := by
          obtain ⟨more, hmore⟩ := htexts
          simp only [texts, List.cons_append, List.append_assoc, List.cons.injEq] at hmore
          have hmem : text ∈ l.frames.map (metadataLine J) := by
            rw [← hmore.2]
            simp
          obtain ⟨m, -, rfl⟩ := List.mem_map.mp hmem
          exact ⟨m, rfl⟩
        have hnone := parseMetadata_cut J hJ m part hpart hne
        have hkeep := filterMap_texts_prefix hfront
        simpa [hnone] using hkeep
    · exact filterMap_texts_prefix (hheard.trans hfront)

/-- A reader that has caught up got every frame but the one whose write is not over. -/
theorem Link.Ok.received_caughtUp {l : Link C} (ho : l.Ok J) (hp : l.reader.task.pc = .read)
    (hk : l.sock.inbox = []) :
    l.received J = if l.left = [] then l.frames else l.frames.dropLast := by
  have hheard := ho.on.caughtUp (notMem_texts _ newline (by decide))
    (notMem_texts _ carriageReturn (by decide)) ho.stream ho.last hp hk
  rw [Link.received, hheard]
  split
  · rw [texts, List.drop_succ_cons, List.drop_zero, filterMap_metadataLine]
  · have hdrop : ((texts J l.frames).dropLast).drop 1 = l.frames.dropLast.map (metadataLine J) := by
      rw [texts, List.map_dropLast]
      cases hf : l.frames with
      | nil => rfl
      | cons m frames => simp
    rw [hdrop, filterMap_metadataLine]

/-! ### The whole of it -/

/-- The ids in the registry are those of the requests at work, each of them once. -/
structure Pipeline.Registered (s : Pipeline C) : Prop where
  ids : s.inFlight = (s.requests.filterMap Request.id?).toFinset
  nodup : (s.requests.filterMap Request.id?).Nodup
  fresh : ∀ id ∈ s.requests.filterMap Request.id?, id < s.nextId

structure Pipeline.Inv (J : JsonText) (s : Pipeline C) : Prop where
  registered : s.Registered
  kept : s.accepted.Sublist s.completed
  taken : s.accepted = s.links.flatMap Link.frames ++ s.queue
  room : s.queue.length ≤ capacity
  links : ∀ l ∈ s.links, l.Ok J

theorem Pipeline.start_inv : (Pipeline.start C).Inv J :=
  ⟨⟨rfl, List.nodup_nil, by simp [Pipeline.start]⟩, List.Sublist.refl _, rfl,
    by simp [Pipeline.start], by simp [Pipeline.start]⟩

section Requests
variable {s : Pipeline C}

/-- What becomes of the ids when one task moves on. -/
theorem filterMap_id_set (rs : List Request) (i : ℕ) (r r' : Request) (h : rs[i]? = some r) :
    ∃ front back, rs.filterMap Request.id? = front ++ r.id?.toList ++ back ∧
      (rs.set i r').filterMap Request.id? = front ++ r'.id?.toList ++ back := by
  obtain ⟨hi, rfl⟩ := List.getElem?_eq_some_iff.mp h
  refine ⟨(rs.take i).filterMap Request.id?, (rs.drop (i + 1)).filterMap Request.id?, ?_, ?_⟩
  · have hsplit : rs.take i ++ rs[i] :: rs.drop (i + 1) = rs := by
      rw [← List.drop_eq_getElem_cons hi, List.take_append_drop]
    refine (congrArg (List.filterMap Request.id?) hsplit).symm.trans ?_
    rw [List.filterMap_append, List.filterMap_cons]
    cases rs[i].id? <;> simp
  · rw [List.set_eq_take_append_cons_drop, if_pos hi]
    cases hr : r'.id? <;> simp [hr]

theorem Pipeline.Registered.set (hs : s.Registered) (i : ℕ) (r r' : Request)
    (h : s.requests[i]? = some r) (hid : r'.id? = r.id?) {t : Pipeline C}
    (hin : t.inFlight = s.inFlight) (hnext : t.nextId = s.nextId)
    (hreq : t.requests = s.requests.set i r') : t.Registered := by
  obtain ⟨front, back, hold, hnew⟩ := filterMap_id_set s.requests i r r' h
  rw [hid, ← hold] at hnew
  refine ⟨?_, ?_, ?_⟩
  · rw [hin, hreq, hnew]
    exact hs.ids
  · rw [hreq, hnew]
    exact hs.nodup
  · rw [hreq, hnew, hnext]
    exact hs.fresh

/-- The ids with one more of them, wherever it stands. -/
theorem perm_middle_single (front back : List ℕ) (id : ℕ) :
    (front ++ [id] ++ back).Perm (id :: (front ++ back)) := by
  rw [List.append_assoc, List.singleton_append]
  exact List.perm_middle

theorem Pipeline.Registered.accept (hs : s.Registered) :
    ({ s with requests := s.requests ++ [Request.reading] } : Pipeline C).Registered := by
  have hsame : (s.requests ++ [Request.reading]).filterMap Request.id? =
      s.requests.filterMap Request.id? := by simp [Request.id?]
  exact ⟨by rw [hsame]; exact hs.ids, by rw [hsame]; exact hs.nodup, by rw [hsame]; exact hs.fresh⟩

theorem Pipeline.Registered.readLine (hs : s.Registered) (i : ℕ) (text : Option String)
    (h : s.requests[i]? = some .reading) : (s.readLine J i text).Registered := by
  unfold Pipeline.readLine
  split
  · exact hs.set i .reading .done h rfl rfl rfl rfl
  · next request _ =>
    obtain ⟨front, back, hold, hnew⟩ :=
      filterMap_id_set s.requests i .reading (.probing s.nextId request) h
    simp only [Request.id?, Option.toList_none, Option.toList_some, List.append_nil] at hold hnew
    have hperm := perm_middle_single front back s.nextId
    rw [← hnew, ← hold] at hperm
    have hunused : s.nextId ∉ s.requests.filterMap Request.id? :=
      fun hm => lt_irrefl _ (hs.fresh _ hm)
    refine ⟨?_, ?_, ?_⟩
    · rw [List.toFinset_eq_of_perm _ _ hperm, List.toFinset_cons, ← hs.ids]
    · exact hperm.nodup_iff.mpr (List.nodup_cons.mpr ⟨hunused, hs.nodup⟩)
    · intro id hid
      rcases List.mem_cons.mp (hperm.mem_iff.mp hid) with rfl | hid
      · exact Nat.lt_succ_self _
      · exact Nat.lt_succ_of_lt (hs.fresh id hid)

theorem Pipeline.Registered.leave (hs : s.Registered) (i id : ℕ)
    (h : s.requests[i]? = some (.leaving id)) :
    ({ s with inFlight := s.inFlight.erase id, requests := s.requests.set i .done } :
      Pipeline C).Registered := by
  obtain ⟨front, back, hold, hnew⟩ := filterMap_id_set s.requests i (.leaving id) .done h
  simp only [Request.id?, Option.toList_none, Option.toList_some, List.append_nil] at hold hnew
  have hperm := perm_middle_single front back id
  rw [← hnew, ← hold] at hperm
  obtain ⟨hgone, hnodup⟩ := List.nodup_cons.mp (hperm.nodup_iff.mp hs.nodup)
  refine ⟨?_, hnodup, fun x hx => hs.fresh x (hperm.mem_iff.mpr (List.mem_cons_of_mem _ hx))⟩
  rw [hs.ids, List.toFinset_eq_of_perm _ _ hperm, List.toFinset_cons, Finset.erase_insert]
  rwa [List.mem_toFinset]

end Requests

section Links
variable {s t : Pipeline C}

/-- A step of the publisher changes its connection and nothing else. -/
theorem Pipeline.onLink_some {f : Link C → Option (Link C)} (h : s.onLink f = some t) :
    ∃ front l l', s.links = front ++ [l] ∧ l.up = true ∧ f l = some l' ∧
      t = { s with links := front ++ [l'] } := by
  unfold Pipeline.onLink at h
  split at h
  · next l hl =>
    simp only [Option.ite_none_right_eq_some, Option.map_eq_some_iff] at h
    obtain ⟨hup, l', hf, rfl⟩ := h
    obtain ⟨front, hfront⟩ := List.getLast?_eq_some_iff.mp hl
    exact ⟨front, l, l', hfront, hup, hf, by rw [hfront, List.dropLast_concat]⟩
  · simp at h

/-- A step of a connection that takes no frame. -/
theorem Pipeline.Inv.onLink (hs : s.Inv J) {f : Link C → Option (Link C)}
    (hf : ∀ l l', l.Ok J → l.up = true → f l = some l' → l'.Ok J ∧ l'.frames = l.frames)
    (h : s.onLink f = some t) : t.Inv J := by
  obtain ⟨front, l, l', hlinks, hup, hl, rfl⟩ := Pipeline.onLink_some h
  have hmem : ∀ x ∈ front ++ [l], x.Ok J := hlinks ▸ hs.links
  obtain ⟨hok, hframes⟩ := hf l l' (hmem l (by simp)) hup hl
  refine ⟨⟨hs.registered.ids, hs.registered.nodup, hs.registered.fresh⟩, hs.kept, ?_, hs.room, ?_⟩
  · have htaken := hs.taken
    rw [hlinks] at htaken
    simpa [hframes] using htaken
  · intro x hx
    rcases List.mem_append.mp hx with hx | hx
    · exact hmem x (List.mem_append_left _ hx)
    · rwa [List.mem_singleton.mp hx]

theorem Pipeline.Inv.setLink (hs : s.Inv J) (i : ℕ) (l l' : Link C) (h : s.links[i]? = some l)
    (hl : l.Ok J → l'.Ok J ∧ l'.frames = l.frames) :
    ({ s with links := s.links.set i l' } : Pipeline C).Inv J := by
  obtain ⟨hok, hframes⟩ := hl (hs.links l (List.mem_of_getElem? h))
  refine ⟨⟨hs.registered.ids, hs.registered.nodup, hs.registered.fresh⟩, hs.kept, ?_, hs.room, ?_⟩
  · have hmap : (s.links.set i l').map Link.frames = s.links.map Link.frames := by
      obtain ⟨hi, rfl⟩ := List.getElem?_eq_some_iff.mp h
      have hself := @List.set_getElem_self _ (s.links.map Link.frames) i (by simpa using hi)
      rw [List.getElem_map] at hself
      rw [List.map_set, hframes, hself]
    rw [hs.taken, List.flatMap_def, List.flatMap_def, hmap]
  · intro x hx
    rcases List.mem_or_eq_of_mem_set hx with hx | rfl
    · exact hs.links x hx
    · exact hok

theorem Pipeline.Inv.recv (hs : s.Inv J) (h : s.step J .recv = some t) : t.Inv J := by
  simp only [Pipeline.step] at h
  split at h
  · next m queue hq =>
    obtain ⟨u, hu, rfl⟩ := Option.map_eq_some_iff.mp h
    obtain ⟨front, l, l', hlinks, hup, hl, rfl⟩ := Pipeline.onLink_some hu
    have hmem : ∀ x ∈ front ++ [l], x.Ok J := hlinks ▸ hs.links
    obtain ⟨hok, hframes⟩ := Link.take_ok m (hmem l (by simp)) hl
    refine ⟨⟨hs.registered.ids, hs.registered.nodup, hs.registered.fresh⟩, hs.kept, ?_, ?_, ?_⟩
    · have htaken := hs.taken
      rw [hlinks, hq] at htaken
      simpa [hframes] using htaken
    · have hroom := hs.room
      rw [hq, List.length_cons] at hroom
      exact Nat.le_of_succ_le hroom
    · intro x hx
      rcases List.mem_append.mp hx with hx | hx
      · exact hmem x (List.mem_append_left _ hx)
      · rwa [List.mem_singleton.mp hx]
  · simp at h

theorem Pipeline.Inv.probed (hs : s.Inv J) (i id : ℕ) (request : ScanRequest) (m : SessionMetadata)
    (h : s.requests[i]? = some (.probing id request)) : (s.probed i id m).Inv J := by
  have hreg : (s.probed i id m).Registered := by
    refine hs.registered.set i (.probing id request) (.leaving id) h rfl ?_ ?_ rfl
    · simp only [Pipeline.probed, Pipeline.trySend]
      split <;> rfl
    · simp only [Pipeline.probed, Pipeline.trySend]
      split <;> rfl
  refine ⟨hreg, ?_, ?_, ?_, ?_⟩
  all_goals simp only [Pipeline.probed, Pipeline.trySend]
  · split
    · exact hs.kept.append (List.Sublist.refl [m])
    · exact hs.kept.trans (List.sublist_append_left _ _)
  · split
    · simp [hs.taken]
    · exact hs.taken
  · split
    · next hroom => simpa [Nat.succ_le_iff] using hroom
    · exact hs.room
  · split
    · exact hs.links
    · exact hs.links

end Links

theorem Pipeline.step_inv (hC : C.Strict) {s t : Pipeline C} (a : PipelineAct) (hs : s.Inv J)
    (h : s.step J a = some t) : t.Inv J := by
  cases a with
  | accept =>
    obtain rfl := Option.some.inj h
    exact ⟨hs.registered.accept, hs.kept, hs.taken, hs.room, hs.links⟩
  | line i text =>
    simp only [Pipeline.step, Option.ite_none_right_eq_some, Option.some.injEq] at h
    obtain ⟨hi, rfl⟩ := h
    refine ⟨hs.registered.readLine i text hi, ?_, ?_, ?_, ?_⟩
    all_goals
      simp only [Pipeline.readLine]
      split
    · exact hs.kept
    · exact hs.kept
    · exact hs.taken
    · exact hs.taken
    · exact hs.room
    · exact hs.room
    · exact hs.links
    · exact hs.links
  | probed i ident =>
    simp only [Pipeline.step] at h
    split at h
    · next id request hi =>
      obtain rfl := Option.some.inj h
      exact hs.probed i id request _ hi
    · simp at h
  | leave i =>
    simp only [Pipeline.step] at h
    split at h
    · next id hi =>
      obtain rfl := Option.some.inj h
      exact ⟨hs.registered.leave i id hi, hs.kept, hs.taken, hs.room, hs.links⟩
    · simp at h
  | dial =>
    simp only [Pipeline.step, Option.ite_none_right_eq_some, Option.some.injEq] at h
    obtain ⟨-, rfl⟩ := h
    refine ⟨⟨hs.registered.ids, hs.registered.nodup, hs.registered.fresh⟩, hs.kept, ?_, hs.room, ?_⟩
    · rw [hs.taken]
      simp [Link.dialed]
    · intro l hl
      rcases List.mem_append.mp hl with hl | hl
      · exact hs.links l hl
      · rw [List.mem_singleton.mp hl]
        exact Link.dialed_ok
  | recv => exact hs.recv h
  | write n => exact hs.onLink (fun _ _ ho hup hl => Link.write_ok n ho hup hl) h
  | writeFails => exact hs.onLink (fun _ _ ho _ hl => Link.fail_ok ho hl) h
  | hear i a =>
    simp only [Pipeline.step] at h
    split at h
    · next l hi =>
      obtain ⟨l', hl, rfl⟩ := Option.map_eq_some_iff.mp h
      exact hs.setLink i l l' hi fun ho => Link.hear_ok hC a ho hl
    · simp at h
  | kill i =>
    simp only [Pipeline.step] at h
    split at h
    · next l hi =>
      obtain rfl := Option.some.inj h
      exact hs.setLink i l l.kill hi fun ho => ⟨Link.kill_ok ho, rfl⟩
    · simp at h

theorem flatMap_sublist (ls : List (Link C)) (hJ : J.CutProof) (hls : ∀ l ∈ ls, l.Ok J) :
    (ls.flatMap (Link.received J)).Sublist (ls.flatMap Link.frames) := by
  induction ls with
  | nil => exact List.Sublist.refl _
  | cons l ls ih =>
    rw [List.flatMap_cons, List.flatMap_cons]
    exact ((hls l (List.mem_cons_self ..)).received_front hJ).sublist.append
      (ih fun x hx => hls x (List.mem_cons_of_mem _ hx))

/-- In every run, with any interleaving of requests, probes, dials, partial and failed writes and
readers that read or die: the registry holds one id for each request at work; the entries that
found room in the channel are on its connections or still in it; over each connection the processor
gets the first of its entries, and a reader that has caught up got all of them but the one whose
write is not over; and over all the connections it gets finished probes in the order they finished,
none of them twice. -/
theorem metadata_in_order (hJ : J.CutProof) (hC : C.Strict) (as : List PipelineAct) (s : Pipeline C)
    (h : exec (Pipeline.step J) (Pipeline.start C) as = some s) :
    s.inFlight.card = s.requests.countP (fun r => r.id?.isSome) ∧
    s.accepted.Sublist s.completed ∧ s.queue.length ≤ 256 ∧
    s.accepted = s.links.flatMap Link.frames ++ s.queue ∧
    (∀ l ∈ s.links, l.received J <+: l.frames ∧
      (l.reader.task.pc = .read → l.sock.inbox = [] →
        l.received J = if l.left = [] then l.frames else l.frames.dropLast)) ∧
    (s.links.flatMap (Link.received J)).Sublist s.completed := by
  have hs : s.Inv J := exec_invariant (fun _ a _ hi hstep => Pipeline.step_inv hC a hi hstep) _ s as
    Pipeline.start_inv h
  refine ⟨?_, hs.kept, hs.room, hs.taken, ?_, ?_⟩
  · rw [hs.registered.ids, List.toFinset_card_of_nodup hs.registered.nodup,
      List.length_filterMap_eq_countP]
  · exact fun l hl => ⟨(hs.links l hl).received_front hJ, (hs.links l hl).received_caughtUp⟩
  · refine (flatMap_sublist s.links hJ hs.links).trans (List.Sublist.trans ?_ hs.kept)
    rw [hs.taken]
    exact List.sublist_append_left _ _

def observedRequest : ScanRequest := ⟨"10.0.0.1", 5000, 7070, "plain", "t"⟩

/-- A request is probed and its metadata written in two parts, each read as it comes. -/
def observedRun : List PipelineAct :=
  [.accept, .line 0 (some (requestLine compact observedRequest)), .probed 0 none, .leave 0, .dial,
    .write 19, .hear 0 .poll, .hear 0 (.recv 19), .hear 0 .poll, .hear 0 .poll, .recv, .write 5,
    .hear 0 .poll, .hear 0 (.recv 5), .hear 0 .poll, .write 35, .hear 0 (.recv 35), .hear 0 .poll,
    .hear 0 .poll, .hear 0 .poll]

theorem metadata_in_order_observed :
    ∃ s, exec (Pipeline.step compact) (Pipeline.start linesCodec) observedRun = some s ∧
      s.links.map (Link.received compact) = [[⟨"10.0.0.1:5000", none, "t"⟩]] ∧
      (s.links.flatMap (Link.received compact)).Sublist s.completed := by
  have hrun : (exec (Pipeline.step compact) (Pipeline.start linesCodec) observedRun).map
      (fun s => s.links.map (Link.received compact)) = some [[⟨"10.0.0.1:5000", none, "t"⟩]] := by
    decide +kernel
  obtain ⟨s, hs, hreceived⟩ := Option.map_eq_some_iff.mp hrun
  exact ⟨s, hs, hreceived,
    (metadata_in_order compact_cutProof linesCodec_strict observedRun s hs).2.2.2.2.2⟩

end FiveNinesEcho.Scanner
