import FiveNinesEcho.Lib.Serde
import FiveNinesEcho.Lib.Utf8
import FiveNinesEcho.Handoff

/-!
# The session payload of an upgrade (`processor/upgrade.rs:174-222`, `processor/upgrade.rs:292-294`)

The records of the live sessions cross an upgrade as one JSON array, over a pipe whose read end the
next image inherits. The two images need not be of one version: fields the writer does not know of
are missing and take their defaults. `serde_json` is not part of the repository; `JsonText` is what
is relied on of it, and the reading of a record is that of its derived deserialiser.
-/

namespace FiveNinesEcho.Payload
open Lib Processor Handoff

/-! ### Records (`handoff.rs:124-173`) -/

/-- `SessionHandoff` with the integer widths of the source. -/
structure SessionHandoff where
  udsFd : Int32
  transport : Transport
  partialLineBytes : Bytes
  pendingWriteBytes : Bytes
  linesEchoed : UInt64
  connectedAtUnixMs : UInt64
  peer : String
  ident : Option String
  traceId : String
  version : UInt32
  deriving Repr, DecidableEq

def transportName : Transport → String
  | .uds => "uds"
  | .tcp => "tcp"

def transportVariant : String → Option Transport
  | "uds" => some .uds
  | "tcp" => some .tcp
  | _ => none

def isNull : Json → Bool
  | .null => true
  | _ => false

def transport : Shape Transport :=
  enumeration isNull transportName transportVariant fun t => by cases t <;> rfl

def SessionHandoff.members (h : SessionHandoff) : Members :=
  [("uds_fd", i32.write h.udsFd), ("transport", Payload.transport.write h.transport),
    ("partial_line_bytes", (vec u8).write h.partialLineBytes),
    ("pending_write_bytes", (vec u8).write h.pendingWriteBytes),
    ("lines_echoed", u64.write h.linesEchoed),
    ("connected_at_unix_ms", u64.write h.connectedAtUnixMs), ("peer", text.write h.peer)] ++
  skipNone "ident" text h.ident ++
  [("trace_id", text.write h.traceId), ("version", u32.write h.version)]

/-- `default_schema_version` (`handoff.rs:115-117`). -/
def defaultVersion : UInt32 := 1

def SessionHandoff.readFrom (s : Source) : Option SessionHandoff := do
  let udsFd ← s.field 0 "uds_fd" i32.read none
  let transport ← s.field 1 "transport" Payload.transport.read (some .uds)
  let partialLineBytes ← s.field 2 "partial_line_bytes" (vec u8).read none
  let pendingWriteBytes ← s.field 3 "pending_write_bytes" (vec u8).read (some [])
  let linesEchoed ← s.field 4 "lines_echoed" u64.read none
  let connectedAtUnixMs ← s.field 5 "connected_at_unix_ms" u64.read none
  let peer ← s.field 6 "peer" text.read (some "")
  let ident ← s.option 7 "ident" text.read
  let traceId ← s.field 8 "trace_id" text.read (some "")
  let version ← s.field 9 "version" u32.read (some defaultVersion)
  return { udsFd, transport, partialLineBytes, pendingWriteBytes, linesEchoed, connectedAtUnixMs,
           peer, ident, traceId, version }

/-- The fields with a `#[serde(default)]`. -/
def defaulted : List String :=
  ["transport", "pending_write_bytes", "peer", "ident", "trace_id", "version"]

/-- A record as it is after the fields `keys` were left out of it. -/
def SessionHandoff.withDefaults (h : SessionHandoff) (keys : List String) : SessionHandoff :=
  { h with
    transport := if "transport" ∈ keys then .uds else h.transport
    pendingWriteBytes := if "pending_write_bytes" ∈ keys then [] else h.pendingWriteBytes
    peer := if "peer" ∈ keys then "" else h.peer
    ident := if "ident" ∈ keys then none else h.ident
    traceId := if "trace_id" ∈ keys then "" else h.traceId
    version := if "version" ∈ keys then defaultVersion else h.version }

theorem SessionHandoff.readFrom_without (h : SessionHandoff) (keys : List String)
    (hkeys : ∀ k ∈ keys, k ∈ defaulted) :
    readFrom (.map (h.members.without keys)) = some (h.withDefaults keys) := by
  have hfd := Source.field_without h.members keys 0 "uds_fd" i32 none h.udsFd
    (by simp [members])
  have htransport := Source.field_without h.members keys 1 "transport" Payload.transport (some .uds)
    h.transport (by simp [members])
  have hpartial := Source.field_without h.members keys 2 "partial_line_bytes" (vec u8) none
    h.partialLineBytes (by simp [members])
  have hpending := Source.field_without h.members keys 3 "pending_write_bytes" (vec u8) (some [])
    h.pendingWriteBytes (by simp [members])
  have hlines := Source.field_without h.members keys 4 "lines_echoed" u64 none h.linesEchoed
    (by simp [members])
  have hconnected := Source.field_without h.members keys 5 "connected_at_unix_ms" u64 none
    h.connectedAtUnixMs (by simp [members])
  have hpeer := Source.field_without h.members keys 6 "peer" text (some "") h.peer
    (by simp [members])
  have hident := Source.option_without h.members keys 7 "ident" text h.ident (by simp [members])
  have htrace := Source.field_without h.members keys 8 "trace_id" text (some "") h.traceId
    (by simp [members])
  have hversion := Source.field_without h.members keys 9 "version" u32 (some defaultVersion)
    h.version (by simp [members])
  -- no field without a default is among the missing ones
  have hrequired : ∀ k, k ∉ defaulted → k ∉ keys := fun k hk hmem => hk (hkeys k hmem)
  rw [if_neg (hrequired "uds_fd" (by decide))] at hfd
  rw [if_neg (hrequired "partial_line_bytes" (by decide))] at hpartial
  rw [if_neg (hrequired "lines_echoed" (by decide))] at hlines
  rw [if_neg (hrequired "connected_at_unix_ms" (by decide))] at hconnected
  rw [← apply_ite some] at htransport hpending hpeer htrace hversion
  simp only [readFrom, hfd, htransport, hpartial, hpending, hlines, hconnected, hpeer, hident,
    htrace, hversion, Option.bind_eq_bind, Option.bind_some, Option.pure_def, withDefaults]

theorem SessionHandoff.withDefaults_nil (h : SessionHandoff) : h.withDefaults [] = h := rfl

theorem SessionHandoff.readFrom_members (h : SessionHandoff) :
    readFrom (.map h.members) = some h := by
  have hread := readFrom_without h [] (by simp)
  rw [withDefaults_nil] at hread
  simpa [Members.without] using hread

theorem SessionHandoff.members_fit (h : SessionHandoff) : FitsAll 1 h.members := by
  have hvec : (vec u8).depth ≤ 1 := by decide
  have hu64 : u64.depth ≤ 1 := by decide
  have htext : text.depth ≤ 1 := by decide
  refine (FitsAll.append ?_ (.skipNone _ _ _ htext)).append ?_
  · exact .cons _ _ _ (by decide) (.cons _ _ _ (by decide) (.cons _ _ _ hvec (.cons _ _ _ hvec
      (.cons _ _ _ hu64 (.cons _ _ _ hu64 (.cons _ _ _ htext (.nil 1)))))))
  · exact .cons _ _ _ htext (.cons _ _ _ (by decide) (.nil 1))

def SessionHandoff.shape : Shape SessionHandoff :=
  record 10 1 members readFrom readFrom_members members_fit

/-! ### What a document says of a session -/

/-- The field `key` is given once, in one of its forms, or it is missing where it may be. -/
def Gives (s : Source) (i : ℕ) (key : String) (forms : List Json) (missing : Prop) : Prop :=
  (∃ j ∈ forms, s.values i key = [j]) ∨ (s.values i key = [] ∧ missing)

/-- Each field is given as the record has it, and only one that is at its default is missing. -/
structure Describes (s : Source) (h : SessionHandoff) : Prop where
  udsFd : Gives s 0 "uds_fd" [i32.write h.udsFd] False
  transport : Gives s 1 "transport"
    [.str (transportName h.transport), .obj [(transportName h.transport, .null)]]
    (h.transport = .uds)
  partialLineBytes : Gives s 2 "partial_line_bytes" [(vec u8).write h.partialLineBytes] False
  pendingWriteBytes : Gives s 3 "pending_write_bytes" [(vec u8).write h.pendingWriteBytes]
    (h.pendingWriteBytes = [])
  linesEchoed : Gives s 4 "lines_echoed" [u64.write h.linesEchoed] False
  connectedAtUnixMs : Gives s 5 "connected_at_unix_ms" [u64.write h.connectedAtUnixMs] False
  peer : Gives s 6 "peer" [.str h.peer] (h.peer = "")
  ident : Gives s 7 "ident" [(h.ident.map Json.str).getD .null] (h.ident = none)
  traceId : Gives s 8 "trace_id" [.str h.traceId] (h.traceId = "")
  version : Gives s 9 "version" [u32.write h.version] (h.version = defaultVersion)

theorem gives_iff {α : Type} (s : Source) (i : ℕ) (key : String) (read : Json → Option α)
    (default : Option α) (a : α) (forms : List Json) (missing : Prop)
    (hforms : ∀ j, read j = some a ↔ j ∈ forms) (hmissing : default = some a ↔ missing) :
    s.field i key read default = some a ↔ Gives s i key forms missing := by
  rw [Source.field_eq_some_iff, Gives, hmissing]
  constructor
  · rintro (⟨j, hj, hread⟩ | h)
    · exact Or.inl ⟨j, (hforms j).mp hread, hj⟩
    · exact Or.inr h
  · rintro (⟨j, hmem, hj⟩ | h)
    · exact Or.inl ⟨j, hj, (hforms j).mpr hmem⟩
    · exact Or.inr h

theorem gives_exact {α : Type} (s : Source) (i : ℕ) (key : String) (shape : Shape α)
    (hexact : shape.Exact) (default : Option α) (a : α) (missing : Prop)
    (hmissing : default = some a ↔ missing) :
    s.field i key shape.read default = some a ↔ Gives s i key [shape.write a] missing := by
  apply gives_iff
  · intro j
    rw [hexact.read_iff, List.mem_singleton]
  · exact hmissing

theorem transportVariant_iff (s : String) (t : Transport) :
    transportVariant s = some t ↔ s = transportName t := by
  constructor
  · intro h
    unfold transportVariant at h
    split at h <;> cases h <;> rfl
  · rintro rfl
    cases t <;> rfl

theorem transport_read_iff (j : Json) (t : Transport) :
    Payload.transport.read j = some t ↔
      j ∈ [.str (transportName t), .obj [(transportName t, .null)]] := by
  simp only [Payload.transport, enumeration, List.mem_cons, List.not_mem_nil, or_false]
  unfold readVariant
  split
  · rw [transportVariant_iff]
    simp
  · rename_i k v
    cases v <;> simp [isNull, transportVariant_iff]
  · rename_i hstr hobj
    simp only [reduceCtorEq, false_iff, not_or]
    exact ⟨hstr _, hobj _ _⟩

theorem ident_read_iff (j : Json) (o : Option String) :
    readOption text.read j = some o ↔ j ∈ [(o.map Json.str).getD .null] := by
  cases j <;> cases o <;> simp [readOption, text, readText]

theorem readFrom_iff (s : Source) (h : SessionHandoff) :
    SessionHandoff.readFrom s = some h ↔ Describes s h := by
  have hnone : ∀ {α : Type} (a : α), (none = some a ↔ False) := by simp
  have hsome : ∀ {α : Type} (a b : α), (some a = some b ↔ b = a) := by
    intro α a b
    rw [Option.some.injEq, eq_comm]
  have hfd := gives_exact s 0 "uds_fd" i32 (integer_exact _) none h.udsFd False (hnone _)
  have htransport := gives_iff s 1 "transport" Payload.transport.read (some .uds) h.transport _
    (h.transport = .uds) (fun j => transport_read_iff j h.transport) (hsome _ _)
  have hpartial := gives_exact s 2 "partial_line_bytes" (vec u8) (vec_exact u8 (integer_exact _)) none
    h.partialLineBytes False (hnone _)
  have hpending := gives_exact s 3 "pending_write_bytes" (vec u8) (vec_exact u8 (integer_exact _))
    (some []) h.pendingWriteBytes (h.pendingWriteBytes = []) (hsome _ _)
  have hlines := gives_exact s 4 "lines_echoed" u64 (integer_exact _) none h.linesEchoed False
    (hnone _)
  have hconnected := gives_exact s 5 "connected_at_unix_ms" u64 (integer_exact _) none
    h.connectedAtUnixMs False (hnone _)
  have hpeer := gives_exact s 6 "peer" text text_exact (some "") h.peer (h.peer = "")
    (hsome _ _)
  have hident := gives_iff s 7 "ident" (readOption text.read) (some none) h.ident _ (h.ident = none)
    (fun j => ident_read_iff j h.ident) (hsome _ _)
  have htrace := gives_exact s 8 "trace_id" text text_exact (some "") h.traceId (h.traceId = "")
    (hsome _ _)
  have hversion := gives_exact s 9 "version" u32 (integer_exact _) (some defaultVersion) h.version
    (h.version = defaultVersion) (hsome _ _)
  constructor
  · intro hread
    simp only [SessionHandoff.readFrom, Option.bind_eq_bind, Option.bind_eq_some_iff,
      Option.pure_def, Option.some.injEq] at hread
    obtain ⟨_, h0, _, h1, _, h2, _, h3, _, h4, _, h5, _, h6, _, h7, _, h8, _, h9, rfl⟩ := hread
    exact ⟨hfd.mp h0, htransport.mp h1, hpartial.mp h2, hpending.mp h3, hlines.mp h4,
      hconnected.mp h5, hpeer.mp h6, hident.mp h7, htrace.mp h8, hversion.mp h9⟩
  · intro hd
    simp only [SessionHandoff.readFrom, Source.option, hfd.mpr hd.udsFd,
      htransport.mpr hd.transport, hpartial.mpr hd.partialLineBytes,
      hpending.mpr hd.pendingWriteBytes, hlines.mpr hd.linesEchoed,
      hconnected.mpr hd.connectedAtUnixMs, hpeer.mpr hd.peer, hident.mpr hd.ident,
      htrace.mpr hd.traceId, hversion.mpr hd.version, Option.bind_eq_bind, Option.bind_some,
      Option.pure_def]

/-- The document stands for the record: an object, or an array of at most ten fields in order, that
describes it. -/
def StandsFor (j : Json) (h : SessionHandoff) : Prop := ∃ s, j.source 10 = some s ∧ Describes s h

theorem read_iff_standsFor (j : Json) (h : SessionHandoff) :
    SessionHandoff.shape.read j = some h ↔ StandsFor j h := by
  simp only [SessionHandoff.shape, record, Option.bind_eq_some_iff, readFrom_iff, StandsFor]

/-! ### The payload -/

inductive HandoffSessionsSource where
  | env
  | fd
  deriving Repr, DecidableEq

structure HandoffSessionsPayload where
  json : String
  source : HandoffSessionsSource
  deriving Repr, DecidableEq

/-- `serde_json::to_string(&handoffs)` (`processor/upgrade.rs:292`). -/
def sessionsJson (J : JsonText) (handoffs : List SessionHandoff) : String :=
  J.render ((vec SessionHandoff.shape).write handoffs)

/-- What the next image finds under `FDPASS_SESSIONS_FD`, and where that is a descriptor, what
reading it to the end gives. -/
inductive SessionsFdVar where
  | notPresent
  | notUnicode (e : String)
  | unparsable (e : String)
  | fd (fd : Int32) (contents : Except String Bytes)

def readContext (fd : Int32) : String := "read FDPASS_SESSIONS_FD fd " ++ toString fd.toInt

/-- `read_handoff_sessions_json` (`processor/upgrade.rs:174-202`): a legacy parent leaves the payload
in the environment. -/
def readHandoffSessionsJson (sessionsFd : SessionsFdVar) (sessions : Option String) :
    Except Error (Option HandoffSessionsPayload) :=
  match sessionsFd with
  | .fd fd (.ok b) => match fromUtf8 b with
    | some json => .ok (some ⟨json, .fd⟩)
    | none => .error [readContext fd, "stream did not contain valid UTF-8"]
  | .fd fd (.error e) => .error [readContext fd, e]
  | .unparsable e => .error ["parse FDPASS_SESSIONS_FD", e]
  | .notPresent => .ok (sessions.map fun json => ⟨json, .env⟩)
  | .notUnicode e => .error ["FDPASS_SESSIONS_FD", e]

/-- `parse_handoff_sessions_payload` (`processor/upgrade.rs:204-222`); the cause of its error is
`serde_json`'s and is left out. -/
def parseHandoffSessionsPayload (J : JsonText) (payload : HandoffSessionsPayload) :
    Except Error (Option (List SessionHandoff)) :=
  match (J.parse payload.json).bind (vec SessionHandoff.shape).read with
  | some sessions => .ok (some sessions)
  | none => match payload.source with
    | .fd => .error ["parse session handoff JSON from FDPASS_SESSIONS_FD"]
    | .env => .ok none

/-- The first two steps of `adopt_inflight_sessions` (`processor/upgrade.rs:84-89`). -/
def inflightSessions (J : JsonText) (sessionsFd : SessionsFdVar) (sessions : Option String) :
    Except Error (Option (List SessionHandoff)) := do
  match ← readHandoffSessionsJson sessionsFd sessions with
  | none => return none
  | some payload => parseHandoffSessionsPayload J payload

/-- The bytes are text, the text is a JSON array, and its elements stand for the records, one for
one. -/
def Carries (J : JsonText) (b : Bytes) (hs : List SessionHandoff) : Prop :=
  ∃ json js, fromUtf8 b = some json ∧ J.parse json = some (.arr js) ∧ List.Forall₂ StandsFor js hs

theorem read_iff_forall₂ (j : Json) (hs : List SessionHandoff) :
    (vec SessionHandoff.shape).read j = some hs ↔
      ∃ js, j = .arr js ∧ List.Forall₂ StandsFor js hs := by
  cases j with
  | arr js =>
    have hread : (vec SessionHandoff.shape).read (.arr js) = js.mapM SessionHandoff.shape.read := rfl
    simp only [hread, mapM_iff_forall₂, read_iff_standsFor, Json.arr.injEq, exists_eq_left']
  | null | bool b | int n | float x | str x | obj m => simp [vec, readVec]

theorem inflightSessions_inherited (J : JsonText) (fd : Int32) (b : Bytes) (sessions : Option String) :
    (∃ hs, inflightSessions J (.fd fd (.ok b)) sessions = .ok (some hs) ∧ Carries J b hs) ∨
    ((∃ e, inflightSessions J (.fd fd (.ok b)) sessions = .error e) ∧ ¬ ∃ hs, Carries J b hs) := by
  cases htext : fromUtf8 b with
  | none =>
    refine Or.inr ⟨⟨[readContext fd, "stream did not contain valid UTF-8"], ?_⟩, ?_⟩
    · simp only [inflightSessions, readHandoffSessionsJson, htext]
      rfl
    · rintro ⟨hs, json, js, hjson, -⟩
      rw [htext] at hjson
      cases hjson
  | some json =>
    have hpayload : inflightSessions J (.fd fd (.ok b)) sessions =
        parseHandoffSessionsPayload J ⟨json, .fd⟩ := by
      simp only [inflightSessions, readHandoffSessionsJson, htext]
      rfl
    rw [hpayload]
    cases hread : (J.parse json).bind (vec SessionHandoff.shape).read with
    | some hs =>
      obtain ⟨j, hparse, hj⟩ := Option.bind_eq_some_iff.mp hread
      obtain ⟨js, rfl, hstands⟩ := (read_iff_forall₂ j hs).mp hj
      refine Or.inl ⟨hs, ?_, json, js, htext, hparse, hstands⟩
      simp only [parseHandoffSessionsPayload, hread]
    | none =>
      refine Or.inr ⟨⟨["parse session handoff JSON from FDPASS_SESSIONS_FD"], ?_⟩, ?_⟩
      · simp only [parseHandoffSessionsPayload, hread]
      · rintro ⟨hs, json', js, hjson', hparse, hstands⟩
        rw [htext] at hjson'
        cases hjson'
        rw [hparse, Option.bind_some, (read_iff_forall₂ _ hs).mpr ⟨js, rfl, hstands⟩] at hread
        cases hread

theorem parse_sessionsJson (J : JsonText) (handoffs : List SessionHandoff)
    (source : HandoffSessionsSource) :
    parseHandoffSessionsPayload J ⟨sessionsJson J handoffs, source⟩ = .ok (some handoffs) := by
  have hfits : ((vec SessionHandoff.shape).write handoffs).Fits 127 :=
    (vec SessionHandoff.shape).fits_of_le handoffs 127 (by decide)
  simp only [parseHandoffSessionsPayload, sessionsJson, J.parse_render _ hfits, Option.bind_some,
    (vec SessionHandoff.shape).read_write]

/-- The document of records each of which lacks some fields. -/
def legacyDocument (rs : List (SessionHandoff × List String)) : Json :=
  .arr (rs.map fun r => .obj (r.1.members.without r.2))

theorem legacyDocument_fits (rs : List (SessionHandoff × List String)) :
    (legacyDocument rs).Fits 127 := by
  refine .arr 126 _ fun j hj => ?_
  obtain ⟨r, -, rfl⟩ := List.mem_map.mp hj
  refine .obj 125 _ fun kv hkv => ?_
  exact (r.1.members_fit kv (List.mem_of_mem_filter hkv)).mono (by decide)

theorem read_legacyDocument (rs : List (SessionHandoff × List String))
    (hkeys : ∀ r ∈ rs, ∀ k ∈ r.2, k ∈ defaulted) :
    (vec SessionHandoff.shape).read (legacyDocument rs) =
      some (rs.map fun r => r.1.withDefaults r.2) := by
  have hread : ∀ r ∈ rs, SessionHandoff.shape.read (.obj (r.1.members.without r.2)) =
      some (r.1.withDefaults r.2) := by
    intro r hr
    exact r.1.readFrom_without r.2 (hkeys r hr)
  change (rs.map fun r => Json.obj (r.1.members.without r.2)).mapM SessionHandoff.shape.read = _
  rw [mapM_iff_forall₂, List.forall₂_map_left_iff, List.forall₂_map_right_iff, List.forall₂_same]
  exact hread

theorem parse_legacy (J : JsonText) (rs : List (SessionHandoff × List String))
    (hkeys : ∀ r ∈ rs, ∀ k ∈ r.2, k ∈ defaulted) (source : HandoffSessionsSource) (json : String)
    (hjson : J.parse json = some (legacyDocument rs)) :
    parseHandoffSessionsPayload J ⟨json, source⟩ =
      .ok (some (rs.map fun r => r.1.withDefaults r.2)) := by
  simp only [parseHandoffSessionsPayload, hjson, Option.bind_some, read_legacyDocument rs hkeys]

/-- The records of an upgrade read back as they were written. Where a document lacks any of the
fields with a default, in each record its own, it reads as the same records with just those at
their defaults. And what the next image reads off the inherited descriptor is either a list it
takes whole, or it is no such list and the image fails. -/
theorem sessions_payload_faithful (J : JsonText) :
    (∀ handoffs source,
      parseHandoffSessionsPayload J ⟨sessionsJson J handoffs, source⟩ = .ok (some handoffs)) ∧
    (∀ (rs : List (SessionHandoff × List String)) source,
      (∀ r ∈ rs, ∀ k ∈ r.2, k ∈ defaulted) →
      parseHandoffSessionsPayload J ⟨J.render (legacyDocument rs), source⟩ =
        .ok (some (rs.map fun r => r.1.withDefaults r.2)) ∧
      ∀ json, J.parse json = some (legacyDocument rs) →
        parseHandoffSessionsPayload J ⟨json, source⟩ =
          .ok (some (rs.map fun r => r.1.withDefaults r.2))) ∧
    (∀ fd b sessions,
      (∃ hs, inflightSessions J (.fd fd (.ok b)) sessions = .ok (some hs) ∧ Carries J b hs) ∨
      ((∃ e, inflightSessions J (.fd fd (.ok b)) sessions = .error e) ∧ ¬ ∃ hs, Carries J b hs)) := by
  refine ⟨parse_sessionsJson J, ?_, inflightSessions_inherited J⟩
  intro rs source hkeys
  exact ⟨parse_legacy J rs hkeys source _ (J.parse_render _ (legacyDocument_fits rs)),
    fun json hjson => parse_legacy J rs hkeys source json hjson⟩

/-- The record as the sessions' own modules have it, their integers without a width. -/
def SessionHandoff.toHandoff (h : SessionHandoff) : Handoff.SessionHandoff :=
  { udsFd := h.udsFd.toInt.toNat
    transport := h.transport
    partialLineBytes := h.partialLineBytes
    pendingWriteBytes := h.pendingWriteBytes
    linesEchoed := h.linesEchoed.toNat
    connectedAtUnixMs := h.connectedAtUnixMs.toNat
    peer := h.peer
    ident := h.ident
    traceId := h.traceId
    version := h.version.toNat }

structure InRange (r : Handoff.SessionHandoff) : Prop where
  udsFd : r.udsFd < 2 ^ 31
  linesEchoed : r.linesEchoed < 2 ^ 64
  connectedAtUnixMs : r.connectedAtUnixMs < 2 ^ 64
  version : r.version < 2 ^ 32

theorem exists_toHandoff (r : Handoff.SessionHandoff) (h : InRange r) :
    ∃ w : SessionHandoff, w.toHandoff = r := by
  have hint : ∀ n : ℕ, n < 2 ^ 31 → (Int32.ofInt n).toInt = n :=
    fun n hn => Int32.toInt_ofInt_of_le (by omega) (by omega)
  have hfd := hint r.udsFd h.udsFd
  have hlines : (UInt64.ofNat r.linesEchoed).toNat = r.linesEchoed := by
    rw [UInt64.toNat_ofNat', Nat.mod_eq_of_lt h.linesEchoed]
  have hconnected : (UInt64.ofNat r.connectedAtUnixMs).toNat = r.connectedAtUnixMs := by
    rw [UInt64.toNat_ofNat', Nat.mod_eq_of_lt h.connectedAtUnixMs]
  have hversion : (UInt32.ofNat r.version).toNat = r.version := by
    rw [UInt32.toNat_ofNat', Nat.mod_eq_of_lt h.version]
  refine ⟨⟨Int32.ofInt r.udsFd, r.transport, r.partialLineBytes, r.pendingWriteBytes,
    UInt64.ofNat r.linesEchoed, UInt64.ofNat r.connectedAtUnixMs, r.peer, r.ident, r.traceId,
    UInt32.ofNat r.version⟩, ?_⟩
  simp only [SessionHandoff.toHandoff, hfd, hlines, hconnected, hversion, Int.toNat_natCast]

/-- The records a drain collects cross the payload as they are. -/
theorem handoffs_cross (J : JsonText) (rs : List Handoff.SessionHandoff) (h : ∀ r ∈ rs, InRange r) :
    ∃ hs : List SessionHandoff, hs.map SessionHandoff.toHandoff = rs ∧
      parseHandoffSessionsPayload J ⟨sessionsJson J hs, .fd⟩ = .ok (some hs) := by
  have hws : ∃ hs : List SessionHandoff, hs.map SessionHandoff.toHandoff = rs := by
    induction rs with
    | nil => exact ⟨[], rfl⟩
    | cons r rs ih =>
      obtain ⟨w, hw⟩ := exists_toHandoff r (h r (List.mem_cons_self ..))
      obtain ⟨hs, hhs⟩ := ih fun r hr => h r (List.mem_cons_of_mem _ hr)
      exact ⟨w :: hs, by rw [List.map_cons, hw, hhs]⟩
  obtain ⟨hs, hhs⟩ := hws
  exact ⟨hs, hhs, parse_sessionsJson J hs .fd⟩

def sampleHandoff : SessionHandoff :=
  { udsFd := 42
    transport := .uds
    partialLineBytes := [0, 255, 10]
    pendingWriteBytes := [13, 10]
    linesEchoed := 7
    connectedAtUnixMs := 1700000000000
    peer := "10.0.0.1:5555"
    ident := some "al\"ice"
    traceId := "t\n1"
    version := 1 }

theorem sessions_payload_faithful_compact :
    parseHandoffSessionsPayload compact ⟨sessionsJson compact [sampleHandoff], .fd⟩ =
      .ok (some [sampleHandoff]) ∧
    parseHandoffSessionsPayload compact
      ⟨compact.render (legacyDocument [(sampleHandoff, ["peer", "ident"]), (sampleHandoff, [])]), .env⟩ =
      .ok (some [{ sampleHandoff with peer := "", ident := none }, sampleHandoff]) := by
  obtain ⟨hround, hlegacy, -⟩ := sessions_payload_faithful compact
  refine ⟨hround [sampleHandoff] .fd, ?_⟩
  exact (hlegacy [(sampleHandoff, ["peer", "ident"]), (sampleHandoff, [])] .env (by decide)).1

end FiveNinesEcho.Payload
