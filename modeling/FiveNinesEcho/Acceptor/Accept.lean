import FiveNinesEcho.Acceptor.Ends
import FiveNinesEcho.Lib.Addr
import FiveNinesEcho.Processor.Sidecar

/-!
# Accepting a client (`acceptor.rs:307-353`, `acceptor/data.rs:46-82`, `scanner.rs:286-356`)

What the accept loop does with a connection: it drops it, or it tells the scanner about the client
and starts the task that opens the processor session. Both go out under the client's address, the
one as an IP address and a port that the scanner puts together again, the other as `SocketAddr`
prints it.
-/

namespace FiveNinesEcho.Acceptor
open Lib Handoff Processor

inductive Role where
  | plain
  | tls
  deriving Repr, DecidableEq

def Role.name : Role → String
  | .plain => "plain"
  | .tls => "tls"

structure ListenPorts where
  plainPort : UInt16
  tlsPort : UInt16
  deriving Repr, DecidableEq

def Role.port (config : ListenPorts) : Role → UInt16
  | .plain => config.plainPort
  | .tls => config.tlsPort

/-- `SessionCap` (`limits.rs:28-72`). -/
structure SessionCap where
  inFlight : ℕ
  cap : ℕ
  deriving Repr, DecidableEq

/-- A cap of 0 is none, but the sessions are still counted. -/
def SessionCap.tryAcquire (c : SessionCap) : Option SessionCap :=
  if c.cap = 0 ∨ c.inFlight < c.cap then some { c with inFlight := c.inFlight + 1 } else none

/-! ### Trace ids (`handoff.rs:188-194`) -/

def hexPadded (width n : ℕ) : String :=
  String.ofList (List.replicate (width - (Nat.toDigits 16 n).length) '0') ++
    String.ofList (Nat.toDigits 16 n)

def newTraceId (pid : UInt32) (n : UInt64) : String :=
  hexPadded 8 pid.toNat ++ "-" ++ hexPadded 16 n.toNat

theorem replicate_zero_size (k : ℕ) : (String.ofList (List.replicate k '0')).utf8ByteSize = k := by
  induction k with
  | zero => rfl
  | succ k ih =>
    have hone : (String.ofList ['0']).utf8ByteSize = 1 := rfl
    rw [List.replicate_succ', String.ofList_append, String.utf8ByteSize_append, ih, hone]

theorem hexPadded_size (width n : ℕ) (hw : 0 < width) (hn : n < 16 ^ width) :
    (hexPadded width n).utf8ByteSize = width := by
  have hlen := (Nat.length_toDigits_le_iff (by decide) hw).mpr hn
  rw [hexPadded, String.utf8ByteSize_append, replicate_zero_size, utf8ByteSize_toDigits _ _ (by decide)]
  omega

theorem newTraceId_size (pid : UInt32) (n : UInt64) : (newTraceId pid n).utf8ByteSize = 25 := by
  have hdash : "-".utf8ByteSize = 1 := rfl
  rw [newTraceId, String.utf8ByteSize_append, String.utf8ByteSize_append,
    hexPadded_size 8 _ (by decide) pid.toNat_lt, hexPadded_size 16 _ (by decide) n.toNat_lt, hdash]

/-! ### The accept -/

/-- `ScanRequest::SessionObserved`. -/
structure ScanRequest where
  clientIp : String
  clientPort : UInt16
  serverPort : UInt16
  role : String
  traceId : String
  deriving Repr, DecidableEq

def fireScanRequest (role : Role) (peer : SocketAddr) (serverPort : UInt16) (traceId : String) :
    ScanRequest :=
  { clientIp := peer.ip.text
    clientPort := peer.port
    serverPort := serverPort
    role := role.name
    traceId := traceId }

/-- What the loop looks at; `traces` is the counter behind `new_trace_id`. -/
structure AcceptorLoop where
  role : Role
  config : ListenPorts
  drained : Bool
  sessions : SessionCap
  pid : UInt32
  traces : UInt64
  deriving Repr, DecidableEq

inductive Accepted where
  | failed
  | drained
  | rateLimited
  | capReached
  | session (request : ScanRequest) (client : AcceptedClient)

/-- `handle_acceptor_accept`; `tryTake` is what the rate limiter answers for an address. -/
def handleAcceptorAccept (runtime : AcceptorLoop) (tryTake : IpAddr → Bool) :
    Option SocketAddr → AcceptorLoop × Accepted
  | none => (runtime, .failed)
  | some peer =>
    if runtime.drained then (runtime, .drained)
    else if !tryTake peer.ip then (runtime, .rateLimited)
    else match runtime.sessions.tryAcquire with
      | none => (runtime, .capReached)
      | some sessions =>
        let traceId := newTraceId runtime.pid runtime.traces
        ({ runtime with sessions := sessions, traces := runtime.traces + 1 },
          .session (fireScanRequest runtime.role peer (runtime.role.port runtime.config) traceId)
            ⟨peer.text, traceId, peer.text_size, newTraceId_size _ _⟩)

/-- `spawn_request`: what the scanner publishes for a request, `identLookup` being what it learns
from the client's identd. -/
def spawnRequest (identLookup : String → UInt16 → UInt16 → Option String) (r : ScanRequest) :
    SessionMetadata :=
  { peer := r.clientIp ++ ":" ++ toString r.clientPort.toNat
    ident := identLookup r.clientIp r.clientPort r.serverPort
    traceId := r.traceId }

/-- A session starts only if the loop is not drained, and then under the client's address. -/
theorem accept_session {runtime next : AcceptorLoop} {tryTake : IpAddr → Bool} {peer : SocketAddr}
    {request : ScanRequest} {client : AcceptedClient}
    (h : handleAcceptorAccept runtime tryTake (some peer) = (next, .session request client)) :
    runtime.drained = false ∧ client.peerAddr = peer.text ∧
      request = fireScanRequest runtime.role peer (runtime.role.port runtime.config)
        client.traceId := by
  unfold handleAcceptorAccept at h
  dsimp only at h
  split at h
  · cases h
  · next hd =>
    split at h
    · cases h
    · split at h
      · cases h
      · cases h
        exact ⟨by simpa using hd, rfl, rfl⟩

/-! ### The key of the metadata -/

theorem storeMetadata_other (r : Registry) (m : SessionMetadata) (p : String) (hp : p ≠ m.peer) :
    (storeMetadataIfSessionActive r m).1.metadata p = r.metadata p := by
  unfold storeMetadataIfSessionActive
  dsimp only
  split
  · exact Function.update_of_ne hp _ _
  · rfl

theorem storeMetadata_registered (r : Registry) (m : SessionMetadata) (h : SessionHandle)
    (hh : h ∈ r.handles) (hp : h.peer = m.peer) :
    (storeMetadataIfSessionActive r m).1.metadata h.peer = some m := by
  have hany : (r.sessions.any fun e => e.2.peer = m.peer) = true := by
    obtain ⟨e, he, rfl⟩ := List.mem_map.mp hh
    exact List.any_eq_true.mpr ⟨e, he, by simpa using hp⟩
  simp only [storeMetadataIfSessionActive, hany, if_true, hp, Function.update_self]

/-- For every address: the scanner publishes under the key of the client's session exactly if it is
an IPv4 address. Then the frame is bound to the session, otherwise it does not touch its entry. -/
theorem scanner_key_iff (runtime next : AcceptorLoop) (tryTake : IpAddr → Bool) (peer : SocketAddr)
    (request : ScanRequest) (client : AcceptedClient)
    (identLookup : String → UInt16 → UInt16 → Option String) (r : Registry) (h : SessionHandle)
    (haccept : handleAcceptorAccept runtime tryTake (some peer) = (next, .session request client))
    (hreg : h ∈ r.handles)
    (hpeer : client.preamble runtime.role.name = .session h.peer runtime.role.name client.traceId) :
    ((spawnRequest identLookup request).peer = h.peer ↔ peer.isIpv4 = true) ∧
    (storeMetadataIfSessionActive r (spawnRequest identLookup request)).1.metadata h.peer =
      if peer.isIpv4 = true then some (spawnRequest identLookup request)
      else r.metadata h.peer := by
  obtain ⟨-, haddr, hreq⟩ := accept_session haccept
  have hkey : h.peer = peer.text := by
    simp only [AcceptedClient.preamble, ProcessorPreamble.session.injEq] at hpeer
    rw [← hpeer.1, haddr]
  have hiff : (spawnRequest identLookup request).peer = h.peer ↔ peer.isIpv4 = true := by
    rw [hkey, hreq, ← peer.text_joined_iff]
    rfl
  refine ⟨hiff, ?_⟩
  split
  · next hv4 => exact storeMetadata_registered r _ h hreg (hiff.mpr hv4).symm
  · next hv6 => exact storeMetadata_other r _ _ (fun he => hv6 (hiff.mp he.symm))

def tlsLoop : AcceptorLoop := ⟨.tls, ⟨7000, 7001⟩, false, ⟨0, 4⟩, 77, 0⟩

def registered (peer : String) : Registry :=
  ⟨1, [(0, ⟨9, [], [], 0, 0, peer, newTraceId 77 0⟩)], fun _ => none⟩

theorem scanner_key_loopback :
    ∃ next request client,
      handleAcceptorAccept tlsLoop (fun _ => true) (some (.v4 ⟨127, 0, 0, 1⟩ 40000)) =
        (next, .session request client) ∧
      (storeMetadataIfSessionActive (registered "127.0.0.1:40000")
        (spawnRequest (fun _ _ _ => none) request)).1.metadata "127.0.0.1:40000" ≠ none := by
  refine ⟨_, _, _, rfl, ?_⟩
  have hbound := (scanner_key_iff tlsLoop _ (fun _ => true) (.v4 ⟨127, 0, 0, 1⟩ 40000) _ _
    (fun _ _ _ => none) (registered "127.0.0.1:40000") _ rfl (List.mem_singleton_self _)
    (by decide)).2
  exact fun hnone => nomatch hbound.symm.trans hnone

/-- The client `[::1]:40000` is scanned as `::1:40000`, and its session gets no metadata. -/
theorem scanner_key_ipv6 :
    ∃ next request client,
      handleAcceptorAccept tlsLoop (fun _ => true)
        (some (.v6 ⟨[0, 0, 0, 0, 0, 0, 0, 1], rfl⟩ 40000 0 0)) =
        (next, .session request client) ∧
      client.preamble "tls" = .session "[::1]:40000" "tls" client.traceId ∧
      (spawnRequest (fun _ _ _ => none) request).peer = "::1:40000" ∧
      (storeMetadataIfSessionActive (registered "[::1]:40000")
        (spawnRequest (fun _ _ _ => none) request)).1.metadata "[::1]:40000" = none := by
  refine ⟨_, _, _, rfl, ?_⟩
  decide

end FiveNinesEcho.Acceptor
