import FiveNinesEcho.Lib.Copy
import FiveNinesEcho.Processor.Reply

/-!
# The two ends of a bridged connection

An acceptor stands between a client and the processor. It opens a UDS session for the client
(`acceptor/tls_client.rs:183-201`), writes the preamble line, and from then on forwards bytes both
ways. The processor reads the preamble as the first line of the same `Framed` that the session then
runs on (`dispatch_incoming`, `processor.rs:279-319`). `Ends` is everything but the forwarding: the
client's connection, the UDS and the processor's task. Who forwards, and when it stops, is the
business of the two bridges.
-/

namespace FiveNinesEcho.Acceptor
open Lib Handoff Processor
variable {C : Codec}

/-! ### The preamble (`control.rs:137-158`) -/

inductive ProcessorPreamble where
  | session (peer role traceId : String)
  | sidecar
  deriving Repr, DecidableEq

def ProcessorPreamble.size : ProcessorPreamble → ℕ
  | .session peer role traceId => peer.utf8ByteSize + role.utf8ByteSize + traceId.utf8ByteSize
  | .sidecar => 0

/-- `serde_json` on preambles, which is not part of the repository. -/
structure Serde where
  toString : ProcessorPreamble → Bytes
  fromStr : Bytes → Option ProcessorPreamble

/-- What is relied on of it: JSON text reads back as the value it was written from, is UTF-8, ends
in a brace and escapes every control character; an escape takes at most six bytes, and 52 bytes are
keys and punctuation. -/
structure Serde.Faithful (S : Serde) (p : ProcessorPreamble) : Prop where
  round_trip : S.fromStr (S.toString p) = some p
  one_line : newline ∉ S.toString p
  braced : (S.toString p).getLast? ≠ some carriageReturn
  utf8 : validUtf8 (S.toString p) = true
  short : (S.toString p).length ≤ 52 + 6 * p.size

/-- What the accept path hands on (`acceptor.rs:336-352`): the address as `SocketAddr` prints it, at
most 58 bytes, and a `new_trace_id` (`handoff.rs:188-194`), which has 25. -/
structure AcceptedClient where
  peerAddr : String
  traceId : String
  peerAddr_short : peerAddr.utf8ByteSize ≤ 58
  traceId_length : traceId.utf8ByteSize = 25

def AcceptedClient.preamble (c : AcceptedClient) (role : String) : ProcessorPreamble :=
  .session c.peerAddr role c.traceId

/-- The bytes `open_processor_session` writes before it returns the stream. -/
def openProcessorSession (S : Serde) (c : AcceptedClient) (role : String) : Bytes :=
  encode (S.toString (c.preamble role))

/-- A line the processor takes for the preamble of a session. -/
structure Serde.Opens (S : Serde) (line : Bytes) : Prop where
  one_line : newline ∉ line
  whole : stripCr line = line
  accepted : accepted line = true
  parsed : ∃ peer role traceId, S.fromStr line = some (.session peer role traceId)

theorem Serde.Faithful.opens {S : Serde} {c : AcceptedClient} {role : String}
    (h : S.Faithful (c.preamble role)) (hrole : role.utf8ByteSize ≤ 5) :
    S.Opens (S.toString (c.preamble role)) := by
  have hwhole : stripCr (S.toString (c.preamble role)) = S.toString (c.preamble role) := by
    rw [stripCr, if_neg h.braced]
  have hlen : (S.toString (c.preamble role)).length ≤ maxLength := by
    have hp := c.peerAddr_short
    have ht := c.traceId_length
    have hs := h.short
    simp only [AcceptedClient.preamble, ProcessorPreamble.size] at hs
    simp only [AcceptedClient.preamble, maxLength]
    omega
  refine ⟨h.one_line, hwhole, ?_, ⟨_, _, _, h.round_trip⟩⟩
  simp only [Processor.accepted, hwhole, h.utf8, hlen, decide_true, Bool.and_self]

/-! ### The processor's end -/

/-- A connection at the processor: waiting for its preamble, a session, the scanner's sidecar, or
dropped. The wait is `framed.next()` as in a session, so it is told as a task that has no peer
yet. -/
inductive Incoming (C : Codec) where
  | dispatching (t : Task C)
  | session (t : Task C)
  | sidecar (framed : Framed C)
  | dropped

/-- `dispatch_incoming` once it has a line: the session goes on with the same `Framed`. -/
def dispatchIncoming (S : Serde) (t : Task C) (line : Bytes) : Incoming C :=
  match S.fromStr line with
  | some (.session peer _ traceId) =>
    .session (spawnSession t.framed t.udsFd peer 0 t.connectedAtUnixMs traceId)
  | some .sidecar => .sidecar t.framed
  | none => .dropped

def Incoming.step (S : Serde) (k : Sock) : Incoming C → TaskAct → Option (Sock × Incoming C)
  | .dispatching t, a => match t.pc with
    | .ready line => if a = .poll then some (k, dispatchIncoming S t line) else none
    | _ => (t.step k a).map fun p => (p.1, .dispatching p.2)
  | .session t, a => (t.step k a).map fun p => (p.1, .session p.2)
  | .sidecar _, _ => none
  | .dropped, _ => none

/-- Whether the processor has let go of its end, after which the acceptor reads to the end of what
was written and writes nothing more. -/
def Incoming.closed : Incoming C → Bool
  | .dispatching t | .session t => t.pc == .ended
  | .sidecar _ => false
  | .dropped => true

/-! ### Both ends -/

/-- `client` is the client's connection as the acceptor sees it and `uds` the processor's; the
kernel holds at most `tcpIn` and `udsIn` bytes towards the acceptor and towards the processor.
`opening` is what `open_processor_session` has yet to write. -/
structure Ends (C : Codec) where
  client : Sock
  tcpIn : ℕ
  opening : Bytes
  uds : Sock
  udsIn : ℕ
  conn : Incoming C

inductive EndsAct where
  | client (a : PeerAct)
  | preamble (n : ℕ)
  | proc (a : TaskAct)
  deriving Repr, DecidableEq

def Ends.udsRoom (e : Ends C) : ℕ := if e.conn.closed then 0 else e.udsIn - e.uds.inbox.length

def Ends.admits (e : Ends C) : PeerAct → Bool
  | .send n => e.client.inbox.length + n ≤ e.tcpIn
  | _ => true

def Ends.step (S : Serde) (e : Ends C) : EndsAct → Option (Ends C)
  | .client a =>
    if e.admits a = true then (e.client.peer a).map fun k => { e with client := k } else none
  | .preamble n =>
    if 0 < n ∧ n ≤ e.opening.length ∧ n ≤ e.udsRoom then
      some { e with
        opening := e.opening.drop n
        uds := { e.uds with inbox := e.uds.inbox ++ e.opening.take n } }
    else none
  | .proc a => (e.conn.step S e.uds a).map fun p => { e with uds := p.1, conn := p.2 }

/-- The direction from the client to the processor, for a loop that may have been told to stop. -/
def Ends.upPorts (e : Ends C) (stop : Bool) : Ports Byte :=
  ⟨e.client.inbox, e.client.shut, e.udsRoom, stop⟩

def Ends.downPorts (e : Ends C) (stop : Bool) : Ports Byte :=
  ⟨e.uds.wire.drop e.uds.taken, e.conn.closed, e.client.room, stop⟩

def Ends.moveUp (e : Ends C) (m : Copied Byte) : Ends C :=
  { e with
    client := { e.client with inbox := e.client.inbox.drop m.taken }
    uds := { e.uds with inbox := e.uds.inbox ++ m.given } }

def Ends.moveDown (e : Ends C) (m : Copied Byte) : Ends C :=
  { e with
    client := { e.client with wire := e.client.wire ++ m.given }
    uds := { e.uds with taken := e.uds.taken + m.taken } }

def Ends.closeUp (e : Ends C) (shut : Bool) : Ends C :=
  { e with uds := { e.uds with shut := shut } }

/-- The kernel's buffers of the two sockets: each of them holds something. -/
structure Buffers where
  tcpIn : ℕ
  tcpOut : ℕ
  udsIn : ℕ
  udsOut : ℕ
  tcp_pos : 0 < tcpIn ∧ 0 < tcpOut
  uds_pos : 0 < udsIn ∧ 0 < udsOut

/-- `Framed::new` on a fresh connection, the acceptor about to write its preamble. -/
def Ends.start (C : Codec) (opening input : Bytes) (b : Buffers) (fd : Fd) (now : ℕ) : Ends C :=
  { client := Sock.open input true b.tcpOut
    tcpIn := b.tcpIn
    opening := opening
    uds := Sock.open [] true b.udsOut
    udsIn := b.udsIn
    conn := .dispatching
      { framed := ⟨[], [], C.fresh, false, false⟩
        pc := .next
        cancelled := false
        counter := 0
        udsFd := fd
        peer := ""
        connectedAtUnixMs := now
        traceId := "" } }

end FiveNinesEcho.Acceptor
