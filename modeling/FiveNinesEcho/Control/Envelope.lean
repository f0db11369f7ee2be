import FiveNinesEcho.Control.Messages
import FiveNinesEcho.Processor.Framing
import FiveNinesEcho.Handoff

/-!
# The versioned envelope (`control.rs:13-66`)

A message travels as one line: its members with a `version` beside them, as JSON. `serde_json` is
not part of the repository; `JsonText` is what is relied on of it. The derived reader of an
`Envelope` takes the `version` member out and leaves the others to the message, which finds its
`type` among them.
-/

namespace FiveNinesEcho.Control
open Lib Handoff Processor
variable {T : Type}

/-- The error of a line: `serde_json`'s own, or the one `into_msg` bails out with. -/
inductive EnvelopeError where
  | json
  | incompatible (message : String)
  deriving Repr, DecidableEq

/-- `default_schema_version` (`handoff.rs:115-117`). -/
def defaultSchemaVersion : UInt32 := 1

def incompatibleMessage (version : UInt32) : String :=
  "incompatible schema version " ++ toString version ++ " (supported: " ++
    toString minCompatibleVersion ++ "..=" ++ toString schemaVersion ++ ")"

/-- `Envelope::into_msg`. -/
def intoMsg (version : UInt32) (msg : T) : Except EnvelopeError T :=
  if isSchemaCompatible version.toNat then .ok msg
  else .error (.incompatible (incompatibleMessage version))

/-- The members of a frame, as `BorrowedEnvelope` is serialised. -/
def Wire.frame (W : Wire T) (t : T) : Option Members :=
  (W.members t).map fun m => ("version", u32.write (UInt32.ofNat schemaVersion)) :: m

/-- `envelope_line` (`control.rs:51-59`). -/
def envelopeLine (J : JsonText) (W : Wire T) (t : T) : Option String :=
  (W.frame t).map fun m => J.render (.obj m) ++ "\n"

/-- `parse_envelope` (`control.rs:61-66`). -/
def parseEnvelope (J : JsonText) (W : Wire T) (line : String) : Except EnvelopeError T :=
  match J.parse line with
  | some (.obj m) =>
    match (Source.map m).field 0 "version" u32.read (some defaultSchemaVersion),
      W.read (Members.without m ["version"]) with
    | some version, some msg => intoMsg version msg
    | _, _ => .error .json
  | _ => .error .json

/-- What the far end of a connection makes of the chunks it reads, line by line, and whether the
stream ended cleanly. -/
def receive (J : JsonText) (C : Codec) (W : Wire T) (chunks : List Bytes) :
    List (Except EnvelopeError T) × Bool :=
  ((framedRead C C.fresh [] chunks).1.map fun l =>
      (fromUtf8 l).elim (.error .json) (parseEnvelope J W),
    (framedRead C C.fresh [] chunks).2)

/-! ### One frame -/

section Frame
variable (J : JsonText) (W : Wire T)

theorem parseEnvelope_of_members (line : String) (t : T) (m n : Members)
    (ht : W.members t = some m) (hline : J.parse line = some (.obj n))
    (hn : n.without ["version"] = m) (version : UInt32)
    (hversion : (Source.map n).field 0 "version" u32.read (some defaultSchemaVersion) = some version)
    (hok : isSchemaCompatible version.toNat = true) : parseEnvelope J W line = .ok t := by
  simp only [parseEnvelope, hline, hversion, hn, W.read_members t m ht, intoMsg, hok, if_true]

theorem frame_fits (t : T) (n : Members) (h : W.frame t = some n) : (Json.obj n).Fits 127 := by
  simp only [Wire.frame, Option.map_eq_some_iff] at h
  obtain ⟨m, hm, rfl⟩ := h
  exact .obj 126 _ (FitsAll.cons _ _ _ (by decide) (W.fit t m hm))

theorem parseEnvelope_frame (t : T) (n : Members) (h : W.frame t = some n) :
    parseEnvelope J W (J.render (.obj n)) = .ok t := by
  have hparse := J.parse_render (.obj n) (frame_fits W t n h)
  simp only [Wire.frame, Option.map_eq_some_iff] at h
  obtain ⟨m, hm, rfl⟩ := h
  have hother := W.unversioned t m hm
  refine parseEnvelope_of_members J W _ t m _ hm hparse (without_cons_self _ _ m hother)
    (UInt32.ofNat schemaVersion) ?_ (by decide)
  rw [Source.field_map _ 0 "version" u32.read _ (u32.write (UInt32.ofNat schemaVersion))
    (by simp [hother])]
  exact u32.read_write _

/-- A frame without its version is one of version 1, the first there was. -/
theorem parseEnvelope_legacy (t : T) (n : Members) (h : W.frame t = some n) (line : String)
    (hline : J.parse line = some (.obj (n.without ["version"]))) :
    parseEnvelope J W line = .ok t := by
  simp only [Wire.frame, Option.map_eq_some_iff] at h
  obtain ⟨m, hm, rfl⟩ := h
  have hother := W.unversioned t m hm
  rw [without_cons_self "version" _ m hother] at hline
  refine parseEnvelope_of_members J W line t m m hm hline (without_of_valuesOf _ m hother)
    defaultSchemaVersion ?_ (by decide)
  exact Source.field_missing m 0 "version" _ _ hother

/-- A version of the window `MIN_COMPATIBLE_VERSION..=SCHEMA_VERSION`. -/
def InWindow (v : Json) : Prop :=
  ∃ n : ℕ, v = .int n ∧ minCompatibleVersion ≤ n ∧ n ≤ schemaVersion

theorem parseEnvelope_outside (line : String) (n : Members) (v : Json)
    (hline : J.parse line = some (.obj n)) (hv : ("version", v) ∈ n) (hout : ¬ InWindow v) :
    ∃ e, parseEnvelope J W line = .error e := by
  have hmem := (mem_valuesOf "version" v n).mpr hv
  cases hfield : (Source.map n).field 0 "version" u32.read (some defaultSchemaVersion) with
  | none => exact ⟨.json, by simp only [parseEnvelope, hline, hfield]⟩
  | some version =>
    -- the version was given once, as a number: `v` is that number
    have hv : v = .int version.toNat := by
      cases hvalues : valuesOf "version" n with
      | nil => simp [hvalues] at hmem
      | cons j js =>
        cases js with
        | cons j' js => simp [Source.field, Source.values, hvalues] at hfield
        | nil =>
          rw [Source.field_map n 0 "version" _ _ j hvalues] at hfield
          have hj := integer_exact _ j version hfield
          rw [hvalues, List.mem_singleton] at hmem
          rw [hmem, hj]
          rfl
    have hbad : isSchemaCompatible version.toNat = false := by
      rw [Bool.eq_false_iff]
      intro hok
      apply hout
      simp only [isSchemaCompatible, Bool.and_eq_true, decide_eq_true_eq] at hok
      exact ⟨version.toNat, hv, hok⟩
    cases hread : W.read (n.without ["version"]) with
    | none => exact ⟨.json, by simp only [parseEnvelope, hline, hfield, hread]⟩
    | some msg =>
      refine ⟨.incompatible (incompatibleMessage version), ?_⟩
      simp only [parseEnvelope, hline, hfield, hread, intoMsg, hbad, Bool.false_eq_true, if_false]

end Frame

/-! ### A stream of frames -/

/-- What the two ends of a connection may rely on for messages of one type: what is written comes
out as it was, in whatever chunks it is read; a frame that carries no version is read as it is; and
one whose version is not in the window is refused, whatever else it holds. -/
structure Wire.Faithful (J : JsonText) (C : Codec) (W : Wire T) : Prop where
  stream : ∀ ts : List T, (∀ t ∈ ts, W.Textual t) →
    ∃ frames : List String, ts.mapM (envelopeLine J W) = some frames ∧
      ((∀ f ∈ frames, (utf8 f).length ≤ maxLength + 1) →
        ∀ chunks : List Bytes, chunks.flatten = frames.flatMap utf8 →
          receive J C W chunks = (ts.map .ok, true))
  legacy : ∀ t n, W.frame t = some n →
    parseEnvelope J W (J.render (.obj (n.without ["version"]))) = .ok t ∧
    ∀ line, J.parse line = some (.obj (n.without ["version"])) → parseEnvelope J W line = .ok t
  window : ∀ line n v, J.parse line = some (.obj n) → ("version", v) ∈ n → ¬ InWindow v →
    ∃ e, parseEnvelope J W line = .error e

theorem utf8_newline : utf8 "\n" = [newline] := by decide

theorem notMem_utf8_render (J : JsonText) (j : Json) (h : j.Fits 127) (b : Byte)
    (hb : b.toNat < 0x20) : b ∉ utf8 (J.render j) := by
  intro hm
  obtain ⟨c, hc, hcb⟩ := mem_utf8_low _ b hm (by omega)
  have hplain := J.render_plain j h c hc
  omega

section Stream
variable (J : JsonText) (C : Codec) (W : Wire T)

theorem frames_exist (ts : List T) (h : ∀ t ∈ ts, W.Textual t) :
    ∃ ns, List.Forall₂ (fun t n => W.frame t = some n) ts ns := by
  induction ts with
  | nil => exact ⟨[], .nil⟩
  | cons t ts ih =>
    obtain ⟨m, hm⟩ := Option.isSome_iff_exists.mp (W.written t (h t (List.mem_cons_self ..)))
    obtain ⟨ns, hns⟩ := ih fun t ht => h t (List.mem_cons_of_mem _ ht)
    have hframe : W.frame t = some (("version", u32.write (UInt32.ofNat schemaVersion)) :: m) := by
      simp only [Wire.frame, hm, Option.map_some]
    exact ⟨_, .cons hframe hns⟩

theorem mapM_envelopeLine (ts : List T) (ns : List Members)
    (h : List.Forall₂ (fun t n => W.frame t = some n) ts ns) :
    ts.mapM (envelopeLine J W) = some (ns.map fun n => J.render (.obj n) ++ "\n") := by
  induction h with
  | nil => rfl
  | cons ht _ ih => simp [List.mapM_cons, envelopeLine, ht, ih]

theorem map_parseEnvelope (ts : List T) (ns : List Members)
    (h : List.Forall₂ (fun t n => W.frame t = some n) ts ns) :
    ns.map (fun n => parseEnvelope J W (J.render (.obj n))) = ts.map .ok := by
  induction h with
  | nil => rfl
  | cons ht _ ih => rw [List.map_cons, List.map_cons, parseEnvelope_frame J W _ _ ht, ih]

theorem frames_fit (ts : List T) (ns : List Members)
    (h : List.Forall₂ (fun t n => W.frame t = some n) ts ns) : ∀ n ∈ ns, (Json.obj n).Fits 127 := by
  induction h with
  | nil => simp
  | cons ht _ ih =>
    intro n hn
    rcases List.mem_cons.mp hn with rfl | hn
    · exact frame_fits W _ _ ht
    · exact ih n hn

theorem receive_frames (ts : List T) (ns : List Members)
    (h : List.Forall₂ (fun t n => W.frame t = some n) ts ns)
    (hlen : ∀ n ∈ ns, (utf8 (J.render (.obj n))).length ≤ maxLength) (chunks : List Bytes)
    (hchunks : chunks.flatten = ns.flatMap fun n => utf8 (J.render (.obj n) ++ "\n")) :
    receive J C W chunks = (ts.map .ok, true) := by
  have hfit := frames_fit W ts ns h
  have hlow : ∀ s ∈ ns.map (fun n => J.render (.obj n)), ∀ b : Byte, b.toNat < 0x20 → b ∉ utf8 s := by
    intro s hs b hb
    obtain ⟨n, hn, rfl⟩ := List.mem_map.mp hs
    exact notMem_utf8_render J _ (hfit n hn) b hb
  have hstream : chunks.flatten =
      (ns.map fun n => J.render (.obj n)).flatMap fun s => encode (utf8 s) := by
    simp only [hchunks, List.flatMap_map, utf8_append, utf8_newline, encode]
  have hread := framedRead_text (C := C) (ns.map fun n => J.render (.obj n))
    (fun s hs => hlow s hs newline (by decide)) (fun s hs => hlow s hs carriageReturn (by decide))
    (by simpa using hlen) chunks hstream
  simp only [receive, hread, List.map_map]
  rw [← map_parseEnvelope J W ts ns h]
  refine congrArg (·, true) (List.map_congr_left fun n _ => ?_)
  simp only [Function.comp_apply, fromUtf8_utf8, Option.elim_some]

theorem Wire.faithful : W.Faithful J C where
  stream ts hts := by
    obtain ⟨ns, hns⟩ := frames_exist W ts hts
    refine ⟨_, mapM_envelopeLine J W ts ns hns, ?_⟩
    intro hlen chunks hchunks
    refine receive_frames J C W ts ns hns ?_ chunks ?_
    · intro n hn
      have hle := hlen _ (List.mem_map_of_mem hn)
      simp only [utf8_append, utf8_newline, List.length_append, List.length_singleton] at hle
      omega
    · rw [hchunks, List.flatMap_map]
  legacy t n hn := by
    refine ⟨parseEnvelope_legacy J W t n hn _ (J.parse_render _ ?_),
      fun line hline => parseEnvelope_legacy J W t n hn line hline⟩
    cases frame_fits W t n hn with
    | obj _ _ hfit => exact .obj 126 _ fun kv hkv => hfit kv (List.mem_of_mem_filter hkv)
  window line n v hline hv hout := parseEnvelope_outside J W line n v hline hv hout

end Stream

/-- Control messages, worker reports and admin responses all come through their envelopes, with any
JSON library and line codec that keep to what is relied on of them. -/
theorem envelopes_faithful (J : JsonText) (C : Codec) :
    ControlMsg.wire.Faithful J C ∧ WorkerMsg.wire.Faithful J C ∧ AdminResp.wire.Faithful J C :=
  ⟨ControlMsg.wire.faithful J C, WorkerMsg.wire.faithful J C, AdminResp.wire.faithful J C⟩

def sampleUpgrade : ControlMsg :=
  .upgrade (some (utf8 "/opt/a b\n")) true none (some "tls\r\"\n")

theorem envelopes_faithful_upgrade :
    ∃ frames : List String,
      [sampleUpgrade, .status].mapM (envelopeLine compact ControlMsg.wire) = some frames ∧
      ∀ chunks : List Bytes, chunks.flatten = frames.flatMap utf8 →
        receive compact linesCodec ControlMsg.wire chunks = ([.ok sampleUpgrade, .ok .status], true) := by
  obtain ⟨frames, hframes, hstream⟩ :=
    (envelopes_faithful compact linesCodec).1.stream [sampleUpgrade, .status] (by
      intro t ht
      simp only [List.mem_cons, List.not_mem_nil, or_false] at ht
      rcases ht with rfl | rfl
      · exact ⟨_, rfl⟩
      · trivial)
  refine ⟨frames, hframes, hstream ?_⟩
  have hpath : writePath (some (utf8 "/opt/a b\n")) = some (some "/opt/a b\n") := by
    simp only [writePath, fromUtf8_utf8, Option.map_some]
  simp only [List.mapM_cons, List.mapM_nil, envelopeLine, Wire.frame, ControlMsg.wire,
    ControlMsg.members, sampleUpgrade, hpath, Option.map_some, Option.pure_def, Option.bind_eq_bind,
    Option.bind_some, Option.some.injEq] at hframes
  subst hframes
  decide

end FiveNinesEcho.Control
