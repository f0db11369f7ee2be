import FiveNinesEcho.Lib.Exec
import FiveNinesEcho.Handoff

/-!
# A session task (`processor.rs:321-440`)

One client session as the processor runs it: the socket with its two directions, tokio-util's
`Framed` around it, and the task `spawn_session` starts, with the program points at which it can be
suspended. `Task.step` is one move of the task: a run of code up to the next I/O call (`poll`), a
read or a partial write the kernel grants, an I/O error, or the `cancel_rx` arm of the `select!`.
The peer moves by `Sock.peer`. Nothing here says who runs the task: the same task is driven by one
processor generation after another, or by two of them at once.
-/

namespace FiveNinesEcho.Processor
open Lib Handoff

/-! ### The socket -/

/-- A session socket seen from both ends. `toSend` is what the client has yet to send and `inbox`
what it sent and the processor has not read; `wire` is everything the processor ever wrote, of
which the client has read the first `taken` bytes. The kernel holds at most `cap` unread bytes. -/
structure Sock where
  toSend : Bytes
  closes : Bool
  shut : Bool
  gone : Bool
  inbox : Bytes
  wire : Bytes
  taken : ℕ
  cap : ℕ
  deriving Repr, DecidableEq

def Sock.room (k : Sock) : ℕ := k.cap + k.taken - k.wire.length

def Sock.atEof (k : Sock) : Bool := k.inbox.isEmpty && (k.shut || k.gone)

def Sock.open (input : Bytes) (closes : Bool) (cap : ℕ) : Sock :=
  ⟨input, closes, false, false, [], [], 0, cap⟩

/-- What the client and the network do: `n` bytes arrive, the sending side is shut down, the client
reads `n` bytes, the client goes away. -/
inductive PeerAct where
  | send (n : ℕ)
  | shut
  | take (n : ℕ)
  | hangup
  deriving Repr, DecidableEq

def Sock.peer (k : Sock) : PeerAct → Option Sock
  | .send n =>
    if 0 < n ∧ n ≤ k.toSend.length ∧ k.gone = false then
      some { k with toSend := k.toSend.drop n, inbox := k.inbox ++ k.toSend.take n }
    else none
  | .shut =>
    if k.toSend = [] ∧ k.closes = true ∧ k.shut = false then some { k with shut := true } else none
  | .take n =>
    if 0 < n ∧ k.taken + n ≤ k.wire.length then some { k with taken := k.taken + n } else none
  | .hangup => some { k with gone := true }

/-! ### `Framed` -/

structure Framed (C : Codec) where
  readBuf : Bytes
  writeBuf : Bytes
  codec : C.State
  isReadable : Bool
  eof : Bool

variable {C : Codec}

/-- `framed_with_lookahead` (`processor/upgrade.rs:40-49`): `FramedParts` marks a non-empty read
buffer readable, so lines that were already buffered are decoded before the next read. -/
def framedWithLookahead (readLookahead writeLookahead : Bytes) : Framed C :=
  ⟨readLookahead, writeLookahead, C.fresh, !readLookahead.isEmpty, false⟩

/-! ### The task -/

/-- Where the task of a session stands. `select` is the `select!` not polled yet; `next` and `read`
are inside `framed.next()`, about to decode and waiting for bytes; `ready` and `flush` are inside
`framed.send(line)`, before and after the line is in the write buffer. -/
inductive Pc where
  | flushAdopted
  | select
  | next
  | read
  | ready (line : Bytes)
  | flush
  | ended
  | handedOff (h : SessionHandoff)
  deriving Repr, DecidableEq

structure Task (C : Codec) where
  framed : Framed C
  pc : Pc
  cancelled : Bool
  counter : ℕ
  udsFd : Fd
  peer : String
  connectedAtUnixMs : ℕ
  traceId : String

/-- `spawn_session` (`processor.rs:321-364`): a task whose write buffer came in non-empty flushes
it first, outside the `select!`. -/
def spawnSession (framed : Framed C) (fd : Fd) (peer : String) (initialCount connectedAtUnixMs : ℕ)
    (traceId : String) : Task C :=
  { framed := framed
    pc := if framed.writeBuf.isEmpty then .select else .flushAdopted
    cancelled := false
    counter := initialCount
    udsFd := fd
    peer := peer
    connectedAtUnixMs := connectedAtUnixMs
    traceId := traceId }

def Task.handoff (t : Task C) : SessionHandoff :=
  { udsFd := t.udsFd
    transport := .uds
    partialLineBytes := t.framed.readBuf
    pendingWriteBytes := t.framed.writeBuf
    linesEchoed := t.counter
    connectedAtUnixMs := t.connectedAtUnixMs
    peer := t.peer
    ident := none
    traceId := t.traceId
    version := schemaVersion }

/-- What the next image makes of a record (`processor/upgrade.rs:88-143`), the descriptor being
good. -/
def adoptSession (h : SessionHandoff) : Option (Task C) :=
  if isSchemaCompatible h.version = true ∧ h.transport = .uds then
    some (spawnSession (framedWithLookahead h.partialLineBytes h.pendingWriteBytes) h.udsFd h.peer
      h.linesEchoed h.connectedAtUnixMs h.traceId)
  else none

def Task.suspended (t : Task C) : Bool :=
  match t.pc with
  | .select | .read => true
  | .ready _ => C.boundary ≤ t.framed.writeBuf.length
  | .flush => !t.framed.writeBuf.isEmpty
  | _ => false

def Task.writing (t : Task C) : Bool :=
  match t.pc with
  | .flushAdopted | .flush => !t.framed.writeBuf.isEmpty
  | .ready _ => C.boundary ≤ t.framed.writeBuf.length
  | _ => false

def Framed.decode (f : Framed C) : C.State × Bytes × Decoded :=
  if f.eof then C.decodeEof f.codec f.readBuf else C.decode f.codec f.readBuf

/-- `framed.next()` up to its frame, its end of stream or its read. -/
def Task.pollNext (t : Task C) : Task C :=
  if t.framed.isReadable then
    match t.framed.decode with
    | (st, b, .frame l) =>
      { t with framed := { t.framed with codec := st, readBuf := b }, pc := .ready l }
    | (st, b, .failed) =>
      { t with framed := { t.framed with codec := st, readBuf := b }, pc := .ended }
    | (st, b, .pending) =>
      { t with
        framed := { t.framed with codec := st, readBuf := b, isReadable := false }
        pc := if t.framed.eof then .ended else .read }
  else { t with pc := .read }

def Task.poll (t : Task C) : Option (Task C) :=
  match t.pc with
  | .flushAdopted => if t.framed.writeBuf = [] then some { t with pc := .select } else none
  | .select => some { t with pc := .next }
  | .next => some t.pollNext
  | .ready l =>
    if t.framed.writeBuf.length < C.boundary then
      some { t with
        framed := { t.framed with writeBuf := t.framed.writeBuf ++ encode l }
        pc := .flush }
    else none
  | .flush =>
    if t.framed.writeBuf = [] then some { t with counter := t.counter + 1, pc := .next } else none
  | .read | .ended | .handedOff _ => none

inductive TaskAct where
  | poll
  | recv (n : ℕ)
  | recvEof
  | write (n : ℕ)
  | ioErr
  | cancel
  deriving Repr, DecidableEq

def Task.step (k : Sock) (t : Task C) : TaskAct → Option (Sock × Task C)
  | .poll => t.poll.map fun t' => (k, t')
  | .recv n =>
    if t.pc = .read ∧ 0 < n ∧ n ≤ k.inbox.length then
      some ({ k with inbox := k.inbox.drop n },
        { t with
          framed := { t.framed with
            readBuf := t.framed.readBuf ++ k.inbox.take n, isReadable := true, eof := false }
          pc := .next })
    else none
  | .recvEof =>
    if t.pc = .read ∧ k.atEof = true then
      if t.framed.eof then some (k, { t with pc := .ended })
      else some (k, { t with framed := { t.framed with isReadable := true, eof := true }, pc := .next })
    else none
  | .write n =>
    if t.writing = true ∧ 0 < n ∧ n ≤ t.framed.writeBuf.length ∧ n ≤ k.room ∧ k.gone = false then
      some ({ k with wire := k.wire ++ t.framed.writeBuf.take n },
        { t with framed := { t.framed with writeBuf := t.framed.writeBuf.drop n } })
    else none
  | .ioErr =>
    if k.gone = true ∧ (t.writing = true ∨ t.pc = .read) then some (k, { t with pc := .ended })
    else none
  | .cancel =>
    if t.cancelled = true ∧ t.suspended = true then some (k, { t with pc := .handedOff t.handoff })
    else none

/-! ### A session and its generations -/

structure Session (C : Codec) where
  sock : Sock
  task : Task C

/-- The moves in the life of a session over any number of committed upgrades: `sendCancel` is the
drain of an upgrade reaching this session, `adopt` the next image starting a task on the record. -/
inductive SessionAct where
  | peer (a : PeerAct)
  | task (a : TaskAct)
  | sendCancel
  | adopt
  deriving Repr, DecidableEq

def Session.step (s : Session C) : SessionAct → Option (Session C)
  | .peer a => (s.sock.peer a).map fun k => { s with sock := k }
  | .task a => (s.task.step s.sock a).map fun p => ⟨p.1, p.2⟩
  | .sendCancel =>
    if s.task.cancelled = false then some { s with task := { s.task with cancelled := true } }
    else none
  | .adopt => match s.task.pc with
    | .handedOff h => (adoptSession h).map fun t => { s with task := t }
    | _ => none

/-- A session as `dispatch_incoming` starts it: the codec has just decoded the preamble, and
`lookahead` came in with it. -/
def Session.start (C : Codec) (lookahead input : Bytes) (closes : Bool) (cap : ℕ) (fd : Fd)
    (peer : String) (connectedAtUnixMs : ℕ) (traceId : String) : Session C :=
  { sock := Sock.open input closes cap
    task := spawnSession ⟨lookahead, [], C.fresh, true, false⟩ fd peer 0 connectedAtUnixMs traceId }

/-! ### Shape of a step -/

theorem spawnSession_pc (f : Framed C) (fd : Fd) (peer : String) (n connectedAt : ℕ)
    (traceId : String) :
    ((spawnSession f fd peer n connectedAt traceId).pc = .select ∧ f.writeBuf = []) ∨
    ((spawnSession f fd peer n connectedAt traceId).pc = .flushAdopted ∧ f.writeBuf ≠ []) := by
  by_cases hw : f.writeBuf = [] <;> simp [spawnSession, hw]

theorem Task.step_poll (k k' : Sock) (t t' : Task C) (h : t.step k .poll = some (k', t')) :
    k' = k ∧ t.poll = some t' := by
  simp only [Task.step, Option.map_eq_some_iff, Prod.mk.injEq] at h
  obtain ⟨u, hu, rfl, rfl⟩ := h
  exact ⟨rfl, hu⟩

theorem Task.poll_cases (t t' : Task C) (h : t.poll = some t') :
    (t.pc = .flushAdopted ∧ t.framed.writeBuf = [] ∧ t' = { t with pc := .select }) ∨
    (t.pc = .select ∧ t' = { t with pc := .next }) ∨
    (t.pc = .next ∧ t' = t.pollNext) ∨
    (∃ l, t.pc = .ready l ∧ t.framed.writeBuf.length < C.boundary ∧
      t' = { t with
        framed := { t.framed with writeBuf := t.framed.writeBuf ++ encode l }
        pc := .flush }) ∨
    (t.pc = .flush ∧ t.framed.writeBuf = [] ∧
      t' = { t with counter := t.counter + 1, pc := .next }) := by
  cases hp : t.pc with
  | flushAdopted =>
    simp only [Task.poll, hp, Option.ite_none_right_eq_some, Option.some.injEq] at h
    exact Or.inl ⟨rfl, h.1, h.2.symm⟩
  | select =>
    simp only [Task.poll, hp, Option.some.injEq] at h
    exact Or.inr (Or.inl ⟨rfl, h.symm⟩)
  | next =>
    simp only [Task.poll, hp, Option.some.injEq] at h
    exact Or.inr (Or.inr (Or.inl ⟨rfl, h.symm⟩))
  | ready l =>
    simp only [Task.poll, hp, Option.ite_none_right_eq_some, Option.some.injEq] at h
    exact Or.inr (Or.inr (Or.inr (Or.inl ⟨l, rfl, h.1, h.2.symm⟩)))
  | flush =>
    simp only [Task.poll, hp, Option.ite_none_right_eq_some, Option.some.injEq] at h
    exact Or.inr (Or.inr (Or.inr (Or.inr ⟨rfl, h.1, h.2.symm⟩)))
  | read => simp [Task.poll, hp] at h
  | ended => simp [Task.poll, hp] at h
  | handedOff r => simp [Task.poll, hp] at h

theorem Task.step_sock (k k' : Sock) (t t' : Task C) (a : TaskAct)
    (h : t.step k a = some (k', t')) :
    k'.toSend = k.toSend ∧ k'.closes = k.closes ∧ k'.shut = k.shut ∧ k'.gone = k.gone ∧
    k'.taken = k.taken ∧ k'.cap = k.cap ∧ k.wire <+: k'.wire ∧
    (k.gone = true → k'.wire = k.wire) := by
  cases a with
  | poll =>
    obtain ⟨rfl, -⟩ := Task.step_poll k k' t t' h
    simp
  | recv n =>
    simp only [Task.step, Option.ite_none_right_eq_some, Option.some.injEq, Prod.mk.injEq] at h
    obtain ⟨-, rfl, -⟩ := h
    simp
  | recvEof =>
    simp only [Task.step, Option.ite_none_right_eq_some] at h
    obtain ⟨-, h⟩ := h
    split at h <;> cases h <;> simp
  | write n =>
    simp only [Task.step, Option.ite_none_right_eq_some, Option.some.injEq, Prod.mk.injEq] at h
    obtain ⟨⟨-, -, -, -, hg⟩, rfl, -⟩ := h
    simp [hg]
  | ioErr =>
    simp only [Task.step, Option.ite_none_right_eq_some, Option.some.injEq, Prod.mk.injEq] at h
    obtain ⟨-, rfl, -⟩ := h
    simp
  | cancel =>
    simp only [Task.step, Option.ite_none_right_eq_some, Option.some.injEq, Prod.mk.injEq] at h
    obtain ⟨-, rfl, -⟩ := h
    simp

theorem Task.pollNext_cancelled (t : Task C) : t.pollNext.cancelled = t.cancelled := by
  unfold Task.pollNext
  split
  · split <;> rfl
  · rfl

theorem Task.step_cancelled (k k' : Sock) (t t' : Task C) (a : TaskAct)
    (h : t.step k a = some (k', t')) : t'.cancelled = t.cancelled := by
  cases a with
  | poll =>
    obtain ⟨-, hpoll⟩ := Task.step_poll k k' t t' h
    rcases t.poll_cases t' hpoll with ⟨-, -, rfl⟩ | ⟨-, rfl⟩ | ⟨-, rfl⟩ | ⟨l, -, -, rfl⟩ |
      ⟨-, -, rfl⟩
    · rfl
    · rfl
    · exact t.pollNext_cancelled
    · rfl
    · rfl
  | recvEof =>
    simp only [Task.step, Option.ite_none_right_eq_some] at h
    obtain ⟨-, h⟩ := h
    split at h <;> cases h <;> rfl
  | recv n | write n | ioErr | cancel =>
    simp only [Task.step, Option.ite_none_right_eq_some, Option.some.injEq, Prod.mk.injEq] at h
    rw [← h.2.2]

theorem Sock.peer_sock (k k' : Sock) (a : PeerAct) (h : k.peer a = some k') :
    k'.wire = k.wire ∧ k'.cap = k.cap ∧ k'.closes = k.closes ∧
    (k.taken ≤ k.wire.length → k'.taken ≤ k'.wire.length) ∧
    (k'.gone = false → k.gone = false ∧ a ≠ .hangup) := by
  cases a with
  | hangup =>
    simp only [Sock.peer, Option.some.injEq] at h
    subst h
    simp
  | take n =>
    simp only [Sock.peer, Option.ite_none_right_eq_some, Option.some.injEq] at h
    obtain ⟨⟨-, hle⟩, rfl⟩ := h
    simp [hle]
  | send n =>
    simp only [Sock.peer, Option.ite_none_right_eq_some, Option.some.injEq] at h
    obtain ⟨-, rfl⟩ := h
    simp
  | shut =>
    simp only [Sock.peer, Option.ite_none_right_eq_some, Option.some.injEq] at h
    obtain ⟨-, rfl⟩ := h
    simp

end FiveNinesEcho.Processor
