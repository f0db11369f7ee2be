import FiveNinesEcho.Lib.JsonCut
import FiveNinesEcho.Control.Envelope
import FiveNinesEcho.Acceptor.Accept

/-!
# The scanner's two wires (`scanner.rs:48-62`, `control.rs:133-170`)

An acceptor writes a `ScanRequest` to the scanner, one line on a connection of its own; the scanner
writes the processor a `ProcessorPreamble` and then one `SessionMetadata` a line. Each is a JSON
object, the first two with the name of their variant among the members.
-/

namespace FiveNinesEcho.Scanner
open Lib Handoff Processor Acceptor Control

/-! ### Enumerations with an internal tag -/

/-- The variant and what its fields are read from: the members, or the items behind the tag. -/
def taggedSource (tag : String) (variants : List String) : Json → Option (String × Source)
  | .obj m => (readTag tag variants m).map fun v => (v, .map m)
  | .arr (t :: items) => (readTag tag variants [(tag, t)]).map fun v => (v, .seq items)
  | _ => none

/-! ### Requests -/

def requestMembers (r : ScanRequest) : Members :=
  [("type", .str "session_observed"), ("client_ip", text.write r.clientIp),
    ("client_port", u16.write r.clientPort), ("server_port", u16.write r.serverPort),
    ("role", text.write r.role), ("trace_id", text.write r.traceId)]

def requestFrom (s : Source) : Option ScanRequest := do
  let clientIp ← s.field 0 "client_ip" text.read none
  let clientPort ← s.field 1 "client_port" u16.read none
  let serverPort ← s.field 2 "server_port" u16.read none
  let role ← s.field 3 "role" text.read none
  let traceId ← s.field 4 "trace_id" text.read (some "")
  return { clientIp, clientPort, serverPort, role, traceId }

def Source.fits (fields : ℕ) : Source → Bool
  | .map _ => true
  | .seq items => items.length ≤ fields

def readRequest (j : Json) : Option ScanRequest :=
  match taggedSource "type" ["session_observed"] j with
  | some (_, s) => if Source.fits 5 s then requestFrom s else none
  | none => none

def requestLine (J : JsonText) (r : ScanRequest) : String := J.render (.obj (requestMembers r))

def parseRequest (J : JsonText) (line : String) : Option ScanRequest :=
  (J.parse line).bind readRequest

theorem requestMembers_fit (r : ScanRequest) : (Json.obj (requestMembers r)).Fits 127 := by
  have htext : text.depth ≤ 0 := by decide
  have hu16 : u16.depth ≤ 0 := by decide
  have hall : FitsAll 0 (requestMembers r) :=
    .cons _ text "session_observed" htext (.cons _ _ _ htext (.cons _ _ _ hu16 (.cons _ _ _ hu16
      (.cons _ _ _ htext (.cons _ _ _ htext (.nil 0))))))
  exact (Json.Fits.obj 0 _ hall).mono (by decide)

theorem readRequest_members (r : ScanRequest) : readRequest (.obj (requestMembers r)) = some r := by
  simp [readRequest, taggedSource, readTag, requestMembers, requestFrom, Source.fits, Source.field,
    Source.values, text.read_write, u16.read_write]

/-- The scanner reads the request the acceptor wrote. -/
theorem parseRequest_line (J : JsonText) (r : ScanRequest) :
    parseRequest J (requestLine J r) = some r := by
  rw [parseRequest, requestLine, J.parse_render _ (requestMembers_fit r), Option.bind_some,
    readRequest_members]

/-! ### Preambles -/

def preambleMembers : ProcessorPreamble → Members
  | .session peer role traceId =>
    [("kind", .str "session"), ("peer", text.write peer), ("role", text.write role),
      ("trace_id", text.write traceId)]
  | .sidecar => [("kind", .str "sidecar")]

def readPreamble (j : Json) : Option ProcessorPreamble :=
  match taggedSource "kind" ["session", "sidecar"] j with
  | some ("session", s) =>
    if Source.fits 3 s then do
      let peer ← s.field 0 "peer" text.read none
      let role ← s.field 1 "role" text.read none
      let traceId ← s.field 2 "trace_id" text.read (some "")
      return .session peer role traceId
    else none
  | some (_, s) => if Source.fits 0 s then some .sidecar else none
  | none => none

def preambleLine (J : JsonText) (p : ProcessorPreamble) : Bytes :=
  utf8 (J.render (.obj (preambleMembers p)))

def parsePreamble (J : JsonText) (l : Bytes) : Option ProcessorPreamble :=
  (fromUtf8 l).bind fun s => (J.parse s).bind readPreamble

theorem preambleMembers_fit (p : ProcessorPreamble) : (Json.obj (preambleMembers p)).Fits 127 := by
  have htext : text.depth ≤ 0 := by decide
  have hall : FitsAll 0 (preambleMembers p) := by
    cases p with
    | session peer role traceId =>
      exact .cons _ text "session" htext (.cons _ _ _ htext (.cons _ _ _ htext
        (.cons _ _ _ htext (.nil 0))))
    | sidecar => exact .cons _ text "sidecar" htext (.nil 0)
  exact (Json.Fits.obj 0 _ hall).mono (by decide)

theorem readPreamble_members (p : ProcessorPreamble) :
    readPreamble (.obj (preambleMembers p)) = some p := by
  cases p with
  | session peer role traceId =>
    simp [readPreamble, taggedSource, readTag, preambleMembers, Source.fits, Source.field,
      Source.values, text.read_write]
  | sidecar => simp [readPreamble, taggedSource, readTag, preambleMembers, Source.fits]

theorem parsePreamble_line (J : JsonText) (p : ProcessorPreamble) :
    parsePreamble J (preambleLine J p) = some p := by
  rw [parsePreamble, preambleLine, fromUtf8_utf8, Option.bind_some,
    J.parse_render _ (preambleMembers_fit p), Option.bind_some, readPreamble_members]

/-! ### Metadata -/

def metadataMembers (m : SessionMetadata) : Members :=
  [("peer", text.write m.peer)] ++ skipNone "ident" text m.ident ++
    [("trace_id", text.write m.traceId)]

def metadataFrom (s : Source) : Option SessionMetadata := do
  let peer ← s.field 0 "peer" text.read none
  let ident ← s.option 1 "ident" text.read
  let traceId ← s.field 2 "trace_id" text.read (some "")
  return { peer, ident, traceId }

theorem metadataFrom_members (m : SessionMetadata) :
    metadataFrom (.map (metadataMembers m)) = some m := by
  obtain ⟨peer, _ | ident, traceId⟩ := m <;>
    simp [metadataFrom, metadataMembers, skipNone, Source.option, Source.field, Source.values,
      text.read_write, readOption_write]

theorem metadataMembers_fit (m : SessionMetadata) : FitsAll 0 (metadataMembers m) := by
  have htext : text.depth ≤ 0 := by decide
  exact (FitsAll.append (.cons _ _ _ htext (.nil 0)) (.skipNone _ _ _ htext)).append
    (.cons _ _ _ htext (.nil 0))

def metadata : Shape SessionMetadata :=
  record 3 0 metadataMembers metadataFrom metadataFrom_members metadataMembers_fit

def metadataLine (J : JsonText) (m : SessionMetadata) : Bytes := utf8 (J.render (metadata.write m))

def parseMetadata (J : JsonText) (l : Bytes) : Option SessionMetadata :=
  (fromUtf8 l).bind fun s => (J.parse s).bind metadata.read

theorem metadata_fits (m : SessionMetadata) : (metadata.write m).Fits 127 :=
  metadata.fits_of_le m 127 (by decide)

theorem parseMetadata_line (J : JsonText) (m : SessionMetadata) :
    parseMetadata J (metadataLine J m) = some m := by
  rw [parseMetadata, metadataLine, fromUtf8_utf8, Option.bind_some,
    J.parse_render _ (metadata_fits m), Option.bind_some, metadata.read_write]

/-- A frame that lost its end is not read as metadata. -/
theorem parseMetadata_cut (J : JsonText) (hJ : J.CutProof) (m : SessionMetadata) (part : Bytes)
    (h : part <+: metadataLine J m) (hne : part ≠ metadataLine J m) :
    parseMetadata J part = none := by
  cases hs : fromUtf8 part with
  | none => simp [parseMetadata, hs]
  | some s =>
    have hpart := utf8_of_fromUtf8 part s hs
    obtain ⟨xs, hxs⟩ := h
    rw [← hpart] at hxs hne
    obtain ⟨u, hu, -⟩ := utf8_front s _ xs hxs
    have hnone := hJ (metadataMembers m) s u (metadata_fits m) hu.symm (by
      rintro rfl
      exact hne (by rw [metadataLine, hu, String.append_empty]))
    rw [parseMetadata, hs, Option.bind_some, hnone, Option.bind_none]

end FiveNinesEcho.Scanner
