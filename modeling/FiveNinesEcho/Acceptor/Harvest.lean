import FiveNinesEcho.Acceptor.Bridge
import FiveNinesEcho.Lib.Slots
import Mathlib.Data.List.Nodup

/-!
# Harvesting the TLS clients (`acceptor/tls_client.rs:203-294`, `acceptor/tls_drain.rs:54-119`)

`run_tls_client` for every client of the acceptor, and the upgrade that takes the registry, sends
each client its cancel, waits for what it hands over and forks. A cancel finds a client in its
handshake, in its dial to the processor or in its bridge, and each reacts in its own way. What rustls
holds of a connection is any type `κ`.
-/

namespace FiveNinesEcho.Acceptor
open Lib Handoff Processor

/-! ### One client -/

structure TlsHandoff (κ : Type*) where
  tcpFd : Fd
  udsFd : Fd
  conn : κ
  peerAddr : String
  deriving Repr, DecidableEq

inductive EndReason where
  | handshakeFailed
  | handshakeCancelled
  | processorUnavailable
  | dialCancelled
  | bridgeEnded
  | handoffFailed
  | handedOff
  deriving Repr, DecidableEq

/-- Where `run_tls_client` is; `ending` has not yet taken itself out of the registry. -/
inductive ClientPc where
  | accepted
  | handshaking
  | dialing
  | bridging (b : Bridge)
  | handing
  | ending (r : EndReason)
  | gone (r : EndReason)
  deriving Repr, DecidableEq

/-- `shook` is set when the registry is taken: the handshake was complete by then. -/
structure Client (κ : Type*) where
  peer : String
  tcpFd : Fd
  udsFd : Option Fd
  conn : Option κ
  pc : ClientPc
  registered : Bool
  cancelSent : Bool
  handoff : Option (TlsHandoff κ)
  shook : Bool
  deriving Repr, DecidableEq

inductive ClientAct (κ : Type*) where
  | register
  | shake (conn : κ)
  | shakeFails
  | shakeCancelled
  | dialed (fd : Fd) (idle now nowUnixMs : ℕ)
  | dialFails
  | dialCancelled
  | bridge (a : BridgeAct) (conn : κ)
  | leave
  | handOver (ok : Bool)
  | remove
  deriving Repr, DecidableEq

variable {κ : Type*}

def Client.ends (c : Client κ) (r : EndReason) : Client κ := { c with pc := .ending r }

/-- The bridge gets the cancel's receiver as it is, with the cancel in it or not. -/
def Client.openBridge (c : Client κ) (idle now nowUnixMs : ℕ) : Bridge :=
  { Bridge.start idle now nowUnixMs with cancel := if c.cancelSent then .sent else .waiting }

def Client.step (c : Client κ) : ClientAct κ → Option (Client κ)
  | .register =>
    if c.pc = .accepted then some { c with pc := .handshaking, registered := true } else none
  | .shake conn =>
    if c.pc = .handshaking then some { c with pc := .dialing, conn := some conn } else none
  | .shakeFails => if c.pc = .handshaking then some (c.ends .handshakeFailed) else none
  | .shakeCancelled =>
    if c.pc = .handshaking ∧ c.cancelSent = true then some (c.ends .handshakeCancelled) else none
  | .dialed fd idle now wall =>
    if c.pc = .dialing then
      some { c with pc := .bridging (c.openBridge idle now wall), udsFd := some fd }
    else none
  | .dialFails => if c.pc = .dialing then some (c.ends .processorUnavailable) else none
  | .dialCancelled =>
    if c.pc = .dialing ∧ c.cancelSent = true then some (c.ends .dialCancelled) else none
  | .bridge a conn => match c.pc with
    | .bridging b =>
      if a ≠ .sendCancel ∧ a ≠ .dropCancel then
        (b.step a).map fun b => { c with pc := .bridging b, conn := some conn }
      else none
    | _ => none
  | .leave => match c.pc with
    | .bridging b => b.exit.map fun
      | .ended => c.ends .bridgeEnded
      | .cancelled => { c with pc := .handing }
    | _ => none
  -- `into_std` may fail on either stream
  | .handOver ok => match c.pc, c.conn, c.udsFd with
    | .handing, some conn, some fd =>
      some (if ok then { c.ends .handedOff with handoff := some ⟨c.tcpFd, fd, conn, c.peer⟩ }
        else c.ends .handoffFailed)
    | _, _, _ => none
  | .remove => match c.pc with
    | .ending r => some { c with pc := .gone r, registered := false }
    | _ => none

/-- The upgrade's `cancel.send(())`, as the client will find it. -/
def Client.sendCancel (c : Client κ) : Client κ :=
  { c with
    cancelSent := true
    pc := match c.pc with
      | .bridging b => .bridging { b with cancel := .sent }
      | pc => pc }

/-! ### The upgrade -/

inductive HarvestPhase where
  | serving
  | cancelling
  | awaiting
  | forked
  deriving Repr, DecidableEq

/-- A client's number is its place in `clients`, the list of all there ever were. The upgrade holds
the clients to cancel, the receivers to await and those it is done with, and the handoffs, each with
the client it came from. -/
structure Harvest (κ : Type*) where
  clients : List (Client κ)
  phase : HarvestPhase
  todo : List ℕ
  rxs : List ℕ
  done : List ℕ
  handoffs : List (ℕ × TlsHandoff κ)
  deriving Repr, DecidableEq

inductive HarvestAct (κ : Type*) where
  | accept (peer : String) (tcpFd : Fd)
  | client (i : ℕ) (a : ClientAct κ)
  | take
  | cancel
  | await
  | fork
  deriving Repr, DecidableEq

def ClientPc.ended : ClientPc → Option EndReason
  | .ending r | .gone r => some r
  | _ => none

def ClientPc.isGone : ClientPc → Bool
  | .gone _ => true
  | _ => false

/-- Past the handshake. -/
def ClientPc.isShaken : ClientPc → Bool
  | .accepted | .handshaking => false
  | .dialing | .bridging _ | .handing => true
  | .ending r | .gone r => r ≠ .handshakeFailed ∧ r ≠ .handshakeCancelled

def newClient (peer : String) (tcpFd : Fd) : Client κ :=
  { peer := peer
    tcpFd := tcpFd
    udsFd := none
    conn := none
    pc := .accepted
    registered := false
    cancelSent := false
    handoff := none
    shook := false }

def Client.taken (c : Client κ) : Client κ :=
  { c with registered := false, shook := c.pc.isShaken }

def registeredIds (clients : List (Client κ)) : List ℕ :=
  (List.range clients.length).filter fun i => clients[i]?.any (·.registered)

/-- `await` is the loop over the receivers: one that has been sent a handoff, or whose sender was
dropped with the task. The accept loop does not run while it is in the upgrade. -/
def Harvest.step (s : Harvest κ) : HarvestAct κ → Option (Harvest κ)
  | .accept peer tcpFd =>
    if s.phase = .serving then some { s with clients := s.clients ++ [newClient peer tcpFd] }
    else none
  | .client i a =>
    if s.phase = .forked then none
    else s.clients[i]?.bind fun c => (c.step a).map fun c => { s with clients := s.clients.set i c }
  | .take =>
    if s.phase = .serving then
      some { s with
        phase := .cancelling
        clients := s.clients.map Client.taken
        todo := registeredIds s.clients }
    else none
  | .cancel => match s.phase, s.todo with
    | .cancelling, i :: todo => s.clients[i]?.map fun c =>
      { s with clients := s.clients.set i c.sendCancel, todo := todo, rxs := s.rxs ++ [i] }
    | .cancelling, [] => some { s with phase := .awaiting }
    | _, _ => none
  | .await => match s.phase, s.rxs with
    | .awaiting, i :: rxs => s.clients[i]?.bind fun c => match c.handoff with
      | some h => some { s with
        rxs := rxs, done := s.done ++ [i], handoffs := s.handoffs ++ [(i, h)] }
      | none => if c.pc.isGone then some { s with rxs := rxs, done := s.done ++ [i] } else none
    | _, _ => none
  | .fork => if s.phase = .awaiting ∧ s.rxs = [] then some { s with phase := .forked } else none

def Harvest.start : Harvest κ := ⟨[], .serving, [], [], [], []⟩

/-! ### What is to hold when the process forks -/

/-- Ended on its own: the processor could not be reached, the bridge ended with the client, the
processor or the idle timeout, or a stream could not be given up. -/
def EndReason.isOther : EndReason → Bool
  | .processorUnavailable | .bridgeEnded | .handoffFailed => true
  | _ => false

def Harvest.Accounted (s : Harvest κ) (i : ℕ) (c : Client κ) : Prop :=
  (∃ r, c.pc.ended = some r ∧ r.isOther = true) ∨
  ∃ conn fd, c.conn = some conn ∧ c.udsFd = some fd ∧
    s.handoffs.filter (·.1 = i) = [(i, ⟨c.tcpFd, fd, conn, c.peer⟩)]

def Harvest.IsComplete (s : Harvest κ) : Prop :=
  ∀ i c, s.clients[i]? = some c → c.shook = true → s.Accounted i c

/-- No client that was past its handshake gives up its dial for the cancel. -/
def Harvest.Unbroken (s : Harvest κ) : HarvestAct κ → Prop
  | .client i .dialCancelled => ∀ c, s.clients[i]? = some c → c.shook = false
  | _ => True

instance decidableUnbroken (s : Harvest κ) : ∀ a, Decidable (s.Unbroken a)
  | .client i .dialCancelled =>
    inferInstanceAs (Decidable (∀ c, s.clients[i]? = some c → c.shook = false))
  | .client _ .register | .client _ (.shake _) | .client _ .shakeFails
  | .client _ .shakeCancelled | .client _ (.dialed ..) | .client _ .dialFails
  | .client _ (.bridge ..) | .client _ .leave | .client _ (.handOver _) | .client _ .remove
  | .accept .. | .take | .cancel | .await | .fork => isTrue trivial

/-! ### What a client can do -/

/-- Where a client can only be on account of its cancel. -/
def ClientPc.heeds : ClientPc → Bool
  | .handing => true
  | .bridging b => b.upgrade || b.cancel == .sent
  | .ending r | .gone r => r = .handshakeCancelled ∨ r = .dialCancelled ∨ r = .handedOff
  | _ => false

inductive ClientMove (c : Client κ) : ClientAct κ → Client κ → Prop where
  | goes (a : ClientAct κ) (pc : ClientPc) (registered : Bool) (conn : Option κ)
      (udsFd : Option Fd) (hs : c.pc.ended = none) (ht : pc.ended = none)
      (hshake : c.pc.isShaken = true → pc.isShaken = true)
      (hheed : pc.heeds = true → c.pc.heeds = true ∨ c.cancelSent = true)
      (hreg : registered = true ∨ c.pc ≠ .accepted ∧ registered = c.registered) :
      ClientMove c a { c with pc := pc, registered := registered, conn := conn, udsFd := udsFd }
  | ends (a : ClientAct κ) (r : EndReason) (hs : c.pc.ended = none) (hin : c.pc ≠ .accepted)
      (hr : r ≠ .handedOff)
      (hshake : c.pc.isShaken = true → (ClientPc.ending r).isShaken = true)
      (hheed : (ClientPc.ending r).heeds = true → c.cancelSent = true)
      (hdial : r = .dialCancelled → a = .dialCancelled) : ClientMove c a (c.ends r)
  | hands (conn : κ) (fd : Fd) (hs : c.pc = .handing) (hconn : c.conn = some conn)
      (hfd : c.udsFd = some fd) :
      ClientMove c (.handOver true)
        { c.ends .handedOff with handoff := some ⟨c.tcpFd, fd, conn, c.peer⟩ }
  | removes (r : EndReason) (hs : c.pc = .ending r) :
      ClientMove c .remove { c with pc := .gone r, registered := false }

theorem Bridge.settle_cancel (b : Bridge) (old new : Copy Byte) :
    (b.settle old new).cancel = b.cancel ∧ (b.settle old new).upgrade = b.upgrade := by
  unfold Bridge.settle
  split <;> split <;> exact ⟨rfl, rfl⟩

/-- Only the relay believes in an upgrade, and only once the cancel is there. -/
theorem Bridge.step_heeds {b b' : Bridge} {a : BridgeAct} (h : b.step a = some b')
    (ha : a ≠ .sendCancel) (hb : (ClientPc.bridging b').heeds = true) :
    (ClientPc.bridging b).heeds = true := by
  simp only [Bridge.step, Option.ite_none_right_eq_some] at h
  obtain ⟨-, h⟩ := h
  cases a with
  | dir1 d | dir2 d =>
    simp only [Bridge.move, Option.map_eq_some_iff] at h
    obtain ⟨d', -, rfl⟩ := h
    simpa only [ClientPc.heeds, Bridge.settle_cancel] using hb
  | sendCancel => exact absurd rfl ha
  | dropCancel =>
    simp only [Bridge.move, Option.ite_none_right_eq_some, Option.some.injEq] at h
    obtain ⟨-, rfl⟩ := h
    have hup : b.upgrade = true := by simpa [ClientPc.heeds] using hb
    simp [ClientPc.heeds, hup]
  | relayCancel =>
    simp only [Bridge.move, Option.ite_none_right_eq_some, Option.some.injEq] at h
    obtain ⟨⟨-, hsent⟩, rfl⟩ := h
    simp [ClientPc.heeds, hsent]
  | watchWake =>
    simp only [Bridge.move] at h
    split at h
    · simp only [Option.ite_none_right_eq_some] at h
      obtain ⟨-, h⟩ := h
      split at h <;> cases h <;> exact hb
    · cases h
  | elapse d wall =>
    simp only [Bridge.move, Option.some.injEq] at h
    subst h
    exact hb
  | grace =>
    simp only [Bridge.move, Option.bind_eq_some_iff, Option.ite_none_right_eq_some,
      Option.some.injEq] at h
    obtain ⟨n, -, -, rfl⟩ := h
    exact hb
  | relayDropped | relayStop | watchStop =>
    simp only [Bridge.move, Option.ite_none_right_eq_some, Option.some.injEq] at h
    obtain ⟨-, rfl⟩ := h
    exact hb

/-- A bridge that answers `Cancelled` has been told of the upgrade. -/
theorem Bridge.exit_cancelled_heeds {b : Bridge} (h : b.exit = some .cancelled) :
    (ClientPc.bridging b).heeds = true := by
  unfold Bridge.exit at h
  split at h
  · cases hu : b.upgrade with
    | true => simp [ClientPc.heeds, hu]
    | false => simp [hu] at h
  · cases h

theorem Client.step_cases {c c' : Client κ} {a : ClientAct κ} (h : c.step a = some c') :
    ClientMove c a c' := by
  cases a with
  | register =>
    simp only [Client.step, Option.ite_none_right_eq_some, Option.some.injEq] at h
    obtain ⟨hp, rfl⟩ := h
    exact .goes _ .handshaking true c.conn c.udsFd (by simp [hp, ClientPc.ended]) rfl
      (by simp [hp, ClientPc.isShaken]) (by simp [ClientPc.heeds]) (Or.inl rfl)
  | shake conn =>
    simp only [Client.step, Option.ite_none_right_eq_some, Option.some.injEq] at h
    obtain ⟨hp, rfl⟩ := h
    exact .goes _ .dialing c.registered (some conn) c.udsFd (by simp [hp, ClientPc.ended]) rfl
      (fun _ => rfl) (by simp [ClientPc.heeds]) (Or.inr ⟨by simp [hp], rfl⟩)
  | shakeFails =>
    simp only [Client.step, Option.ite_none_right_eq_some, Option.some.injEq] at h
    obtain ⟨hp, rfl⟩ := h
    exact .ends _ _ (by simp [hp, ClientPc.ended]) (by simp [hp]) (by simp) (by simp [hp, ClientPc.isShaken])
      (by simp [ClientPc.heeds]) (by simp)
  | shakeCancelled =>
    simp only [Client.step, Option.ite_none_right_eq_some, Option.some.injEq] at h
    obtain ⟨⟨hp, hsent⟩, rfl⟩ := h
    exact .ends _ _ (by simp [hp, ClientPc.ended]) (by simp [hp]) (by simp) (by simp [hp, ClientPc.isShaken])
      (fun _ => hsent) (by simp)
  | dialed fd idle now wall =>
    simp only [Client.step, Option.ite_none_right_eq_some, Option.some.injEq] at h
    obtain ⟨hp, rfl⟩ := h
    refine .goes _ _ c.registered c.conn (some fd) (by simp [hp, ClientPc.ended]) rfl
      (fun _ => rfl) ?_ (Or.inr ⟨by simp [hp], rfl⟩)
    intro hheed
    right
    simp only [ClientPc.heeds, Client.openBridge, Bridge.start, Bool.false_or] at hheed
    cases hsent : c.cancelSent with
    | true => rfl
    | false => simp [hsent] at hheed
  | dialFails =>
    simp only [Client.step, Option.ite_none_right_eq_some, Option.some.injEq] at h
    obtain ⟨hp, rfl⟩ := h
    exact .ends _ _ (by simp [hp, ClientPc.ended]) (by simp [hp]) (by simp) (fun _ => rfl)
      (by simp [ClientPc.heeds]) (by simp)
  | dialCancelled =>
    simp only [Client.step, Option.ite_none_right_eq_some, Option.some.injEq] at h
    obtain ⟨⟨hp, hsent⟩, rfl⟩ := h
    exact .ends _ _ (by simp [hp, ClientPc.ended]) (by simp [hp]) (by simp) (fun _ => rfl) (fun _ => hsent)
      (fun _ => rfl)
  | bridge b conn =>
    simp only [Client.step] at h
    split at h
    · next br hp =>
      simp only [Option.ite_none_right_eq_some, Option.map_eq_some_iff] at h
      obtain ⟨⟨hne, -⟩, br', hbr, rfl⟩ := h
      refine .goes _ (.bridging br') c.registered (some conn) c.udsFd (by simp [hp, ClientPc.ended])
        rfl (fun _ => rfl) ?_ (Or.inr ⟨by simp [hp], rfl⟩)
      intro hheed
      left
      rw [hp]
      exact Bridge.step_heeds hbr hne hheed
    · cases h
  | leave =>
    simp only [Client.step] at h
    split at h
    · next br hp =>
      obtain ⟨e, he, rfl⟩ := Option.map_eq_some_iff.mp h
      cases e with
      | ended =>
        exact .ends _ _ (by simp [hp, ClientPc.ended]) (by simp [hp]) (by simp) (fun _ => rfl)
          (by simp [ClientPc.heeds]) (by simp)
      | cancelled =>
        refine .goes _ .handing c.registered c.conn c.udsFd (by simp [hp, ClientPc.ended]) rfl
          (fun _ => rfl) ?_ (Or.inr ⟨by simp [hp], rfl⟩)
        intro _
        left
        rw [hp]
        exact Bridge.exit_cancelled_heeds he
    · cases h
  | handOver ok =>
    simp only [Client.step] at h
    split at h
    · next conn fd hp hconn hfd =>
      cases ok with
      | true =>
        cases h
        exact .hands conn fd hp hconn hfd
      | false =>
        cases h
        exact .ends _ _ (by simp [hp, ClientPc.ended]) (by simp [hp]) (by simp) (fun _ => rfl)
          (by simp [ClientPc.heeds]) (by simp)
    · cases h
  | remove =>
    simp only [Client.step] at h
    split at h
    · next r hp =>
      cases h
      exact .removes r hp
    · cases h

/-! ### What holds of a client -/

structure Client.Inv (c : Client κ) : Prop where
  asked : c.pc.heeds = true → c.cancelSent = true
  shook : c.shook = true → c.pc.isShaken = true
  handoff : ∀ h, c.handoff = some h → c.pc.ended = some .handedOff ∧
    ∃ conn fd, c.conn = some conn ∧ c.udsFd = some fd ∧ h = ⟨c.tcpFd, fd, conn, c.peer⟩
  handed : c.pc.ended = some .handedOff → c.handoff ≠ none

theorem newClient_inv (peer : String) (tcpFd : Fd) : (newClient peer tcpFd : Client κ).Inv :=
  ⟨by simp [newClient, ClientPc.heeds], by simp [newClient], by simp [newClient],
    by simp [newClient, ClientPc.ended]⟩

/-- In the registry, not yet there or gone from it; as long as nobody takes it. -/
def Client.Member (c : Client κ) : Prop :=
  c.registered = true ∨ c.pc = .accepted ∨ c.pc.isGone = true

/-- What a client has done it does not undo. -/
structure Client.Follows (c c' : Client κ) : Prop where
  inv : c'.Inv
  shook : c'.shook = c.shook
  ended : ∀ r, c.pc.ended = some r → c'.pc.ended = some r
  gone : c.pc.isGone = true → c'.pc.isGone = true
  handoff : ∀ h, c.handoff = some h → c'.handoff = some h
  lost : c.pc.isGone = true → c.handoff = none → c'.handoff = none

theorem ClientPc.isGone_of_live {pc : ClientPc} (h : pc.ended = none) : pc.isGone = false := by
  cases pc <;> simp_all [ClientPc.ended, ClientPc.isGone]

theorem Client.Inv.handoff_of_live {c : Client κ} (hc : c.Inv) (h : c.pc.ended = none) :
    c.handoff = none := by
  cases hh : c.handoff with
  | none => rfl
  | some x =>
    have hend := (hc.handoff x hh).1
    rw [h] at hend
    cases hend

/-- A client that has not ended has nothing yet that a step could undo. -/
theorem Client.Inv.follows_of_live {c c' : Client κ} (hc : c.Inv) (h : c.pc.ended = none)
    (hc' : c'.Inv) (hs : c'.shook = c.shook) : c.Follows c' := by
  have hgone := ClientPc.isGone_of_live h
  have hnone := hc.handoff_of_live h
  refine ⟨hc', hs, ?_, ?_, ?_, ?_⟩
  · intro r hr
    rw [h] at hr
    cases hr
  · simp [hgone]
  · intro x hx
    rw [hnone] at hx
    cases hx
  · simp [hgone]

theorem Client.step_follows {c c' : Client κ} {a : ClientAct κ} (hc : c.Inv)
    (h : c.step a = some c') :
    c.Follows c' ∧ c'.cancelSent = c.cancelSent ∧ (c.Member → c'.Member) := by
  cases Client.step_cases h with
  | goes _ pc registered conn udsFd hs ht hshake hheed hreg =>
    refine ⟨hc.follows_of_live hs ⟨?_, fun hk => hshake (hc.shook hk), ?_, ?_⟩ rfl, rfl, ?_⟩
    · intro hp
      rcases hheed hp with hp | hp
      · exact hc.asked hp
      · exact hp
    · intro x hx
      have hnone := hc.handoff_of_live hs
      rw [show c.handoff = some x from hx] at hnone
      cases hnone
    · intro hp
      rw [show pc.ended = some .handedOff from hp] at ht
      cases ht
    · rintro (hm | hm | hm)
      · exact Or.inl (hreg.elim id (fun hr => hr.2.trans hm))
      · exact Or.inl (hreg.resolve_right (fun hr => hr.1 hm))
      · simp [ClientPc.isGone_of_live hs] at hm
  | ends _ r hs hin hr hshake hheed _ =>
    refine ⟨hc.follows_of_live hs ⟨hheed, fun hk => hshake (hc.shook hk), ?_, ?_⟩ rfl, rfl, ?_⟩
    · intro x hx
      have hnone := hc.handoff_of_live hs
      rw [show c.handoff = some x from hx] at hnone
      cases hnone
    · intro hp
      exact absurd (Option.some.inj hp) hr
    · rintro (hm | hm | hm)
      · exact Or.inl hm
      · exact absurd hm hin
      · simp [ClientPc.isGone_of_live hs] at hm
  | hands conn fd hs hconn hfd =>
    have hend : c.pc.ended = none := by simp [hs, ClientPc.ended]
    have hsent := hc.asked (by simp [hs, ClientPc.heeds])
    refine ⟨hc.follows_of_live hend ⟨fun _ => hsent, fun _ => rfl, ?_, by simp⟩ rfl, rfl, ?_⟩
    · intro x hx
      cases hx
      exact ⟨rfl, conn, fd, hconn, hfd, rfl⟩
    · rintro (hm | hm | hm)
      · exact Or.inl hm
      · simp [hs] at hm
      · simp [ClientPc.isGone_of_live hend] at hm
  | removes r hs =>
    refine ⟨⟨⟨?_, ?_, ?_, ?_⟩, rfl, ?_, fun _ => rfl, fun _ => id, fun _ => id⟩, rfl,
      fun _ => Or.inr (Or.inr rfl)⟩
    · have hold := hc.asked
      rw [hs] at hold
      exact hold
    · have hold := hc.shook
      rw [hs] at hold
      exact hold
    · have hold := hc.handoff
      rw [hs] at hold
      exact hold
    · have hold := hc.handed
      rw [hs] at hold
      exact hold
    · intro r' hr'
      rw [hs] at hr'
      exact hr'

theorem Client.sendCancel_pc (c : Client κ) :
    c.sendCancel.pc.ended = c.pc.ended ∧ c.sendCancel.pc.isGone = c.pc.isGone ∧
    c.sendCancel.pc.isShaken = c.pc.isShaken := by
  unfold Client.sendCancel
  dsimp only
  split
  · next b hp =>
    rw [hp]
    exact ⟨rfl, rfl, rfl⟩
  · exact ⟨rfl, rfl, rfl⟩

theorem Client.sendCancel_follows {c : Client κ} (hc : c.Inv) : c.Follows c.sendCancel := by
  obtain ⟨hend, hgone, hshaken⟩ := c.sendCancel_pc
  refine ⟨⟨fun _ => rfl, ?_, ?_, ?_⟩, rfl, fun r hr => hend.trans hr, fun hg => hgone.trans hg,
    fun _ => id, fun _ => id⟩
  · rw [hshaken]
    exact hc.shook
  · rw [hend]
    exact hc.handoff
  · rw [hend]
    exact hc.handed

/-! ### What the acceptor can do -/

inductive HarvestMove (s : Harvest κ) : HarvestAct κ → Harvest κ → Prop where
  | accept (peer : String) (tcpFd : Fd) (hp : s.phase = .serving) :
      HarvestMove s (.accept peer tcpFd) { s with clients := s.clients ++ [newClient peer tcpFd] }
  | client (i : ℕ) (a : ClientAct κ) (c c' : Client κ) (hp : s.phase ≠ .forked)
      (hc : s.clients[i]? = some c) (hstep : c.step a = some c') :
      HarvestMove s (.client i a) { s with clients := s.clients.set i c' }
  | take (hp : s.phase = .serving) :
      HarvestMove s .take { s with
        phase := .cancelling
        clients := s.clients.map Client.taken
        todo := registeredIds s.clients }
  | cancel (i : ℕ) (todo : List ℕ) (c : Client κ) (hp : s.phase = .cancelling)
      (ht : s.todo = i :: todo) (hc : s.clients[i]? = some c) :
      HarvestMove s .cancel
        { s with clients := s.clients.set i c.sendCancel, todo := todo, rxs := s.rxs ++ [i] }
  | cancelled (hp : s.phase = .cancelling) (ht : s.todo = []) :
      HarvestMove s .cancel { s with phase := .awaiting }
  | receive (i : ℕ) (rxs : List ℕ) (c : Client κ) (h : TlsHandoff κ) (hp : s.phase = .awaiting)
      (hr : s.rxs = i :: rxs) (hc : s.clients[i]? = some c) (hh : c.handoff = some h) :
      HarvestMove s .await
        { s with rxs := rxs, done := s.done ++ [i], handoffs := s.handoffs ++ [(i, h)] }
  | skip (i : ℕ) (rxs : List ℕ) (c : Client κ) (hp : s.phase = .awaiting)
      (hr : s.rxs = i :: rxs) (hc : s.clients[i]? = some c) (hh : c.handoff = none)
      (hg : c.pc.isGone = true) :
      HarvestMove s .await { s with rxs := rxs, done := s.done ++ [i] }
  | fork (hp : s.phase = .awaiting) (hr : s.rxs = []) :
      HarvestMove s .fork { s with phase := .forked }

theorem Harvest.step_cases {s t : Harvest κ} {a : HarvestAct κ} (h : s.step a = some t) :
    HarvestMove s a t := by
  cases a with
  | accept peer tcpFd =>
    simp only [Harvest.step, Option.ite_none_right_eq_some, Option.some.injEq] at h
    obtain ⟨hp, rfl⟩ := h
    exact .accept peer tcpFd hp
  | client i b =>
    simp only [Harvest.step, Option.ite_none_left_eq_some, Option.bind_eq_some_iff,
      Option.map_eq_some_iff] at h
    obtain ⟨hp, c, hc, c', hstep, rfl⟩ := h
    exact .client i b c c' hp hc hstep
  | take =>
    simp only [Harvest.step, Option.ite_none_right_eq_some, Option.some.injEq] at h
    obtain ⟨hp, rfl⟩ := h
    exact .take hp
  | cancel =>
    simp only [Harvest.step] at h
    split at h
    · next i todo hp ht =>
      obtain ⟨c, hc, rfl⟩ := Option.map_eq_some_iff.mp h
      exact .cancel i todo c hp ht hc
    · next hp ht =>
      cases h
      exact .cancelled hp ht
    · cases h
  | await =>
    simp only [Harvest.step] at h
    split at h
    · next i rxs hp hr =>
      obtain ⟨c, hc, h⟩ := Option.bind_eq_some_iff.mp h
      split at h
      · next x hx =>
        cases h
        exact .receive i rxs c x hp hr hc hx
      · next hx =>
        simp only [Option.ite_none_right_eq_some, Option.some.injEq] at h
        obtain ⟨hg, rfl⟩ := h
        exact .skip i rxs c hp hr hc hx hg
    · cases h
  | fork =>
    simp only [Harvest.step, Option.ite_none_right_eq_some, Option.some.injEq] at h
    obtain ⟨⟨hp, hr⟩, rfl⟩ := h
    exact .fork hp hr

/-! ### The books of the upgrade -/

/-- Every client that was past its handshake is on one of the lists of the upgrade or had ended by
itself, and what was received of a client is in the handoffs once. -/
structure Harvest.Inv (s : Harvest κ) : Prop where
  clients : ∀ (i : ℕ) (c : Client κ), s.clients[i]? = some c → c.Inv
  sent : ∀ (i : ℕ) (c : Client κ), s.clients[i]? = some c → c.cancelSent = true → i ∈ s.done ++ s.rxs
  nodup : (s.done ++ s.rxs ++ s.todo).Nodup
  done : ∀ i ∈ s.done, ∃ c, s.clients[i]? = some c ∧
    ((∃ h, c.handoff = some h ∧ s.handoffs.filter (·.1 = i) = [(i, h)]) ∨
      c.pc.isGone = true ∧ c.handoff = none ∧ s.handoffs.filter (·.1 = i) = [])
  rest : ∀ i, i ∉ s.done → s.handoffs.filter (·.1 = i) = []
  serving : s.phase = .serving → s.done ++ s.rxs ++ s.todo = [] ∧
    ∀ (i : ℕ) (c : Client κ), s.clients[i]? = some c → c.shook = false ∧ c.Member
  shook : ∀ (i : ℕ) (c : Client κ), s.clients[i]? = some c → c.shook = true →
    i ∈ s.done ++ s.rxs ++ s.todo ∨ ∃ r, c.pc.ended = some r ∧ r.isOther = true
  awaiting : s.phase = .awaiting ∨ s.phase = .forked → s.todo = []
  forked : s.phase = .forked → s.rxs = []

theorem Harvest.start_inv : (Harvest.start : Harvest κ).Inv := by
  constructor <;> simp [Harvest.start]

section Books
variable {s : Harvest κ} {i : ℕ} {c c' : Client κ}

/-- One client moves on; the lists of the upgrade stay. -/
theorem Harvest.Inv.done_set (hs : s.Inv) (hc : s.clients[i]? = some c) (hf : c.Follows c') :
    ∀ j ∈ s.done, ∃ d, (s.clients.set i c')[j]? = some d ∧
      ((∃ h, d.handoff = some h ∧ s.handoffs.filter (·.1 = j) = [(j, h)]) ∨
        d.pc.isGone = true ∧ d.handoff = none ∧ s.handoffs.filter (·.1 = j) = []) := by
  intro j hj
  obtain ⟨d, hd, hor⟩ := hs.done j hj
  obtain ⟨w, hw, ⟨rfl, rfl⟩ | ⟨-, rfl⟩⟩ := getElem?_set_exists (x := c') hc hd
  · cases hc.symm.trans hd
    refine ⟨_, hw, ?_⟩
    rcases hor with ⟨h, hh, hin⟩ | ⟨hg, hh, hin⟩
    · exact Or.inl ⟨h, hf.handoff h hh, hin⟩
    · exact Or.inr ⟨hf.gone hg, hf.lost hg hh, hin⟩
  · exact ⟨_, hw, hor⟩

theorem Harvest.Inv.clients_set (hs : s.Inv) (hf : c.Follows c') :
    ∀ (j : ℕ) (d : Client κ), (s.clients.set i c')[j]? = some d → d.Inv := by
  intro j d hd
  rcases getElem?_set_some hd with ⟨-, rfl⟩ | ⟨-, hd⟩
  · exact hf.inv
  · exact hs.clients j d hd

theorem Harvest.Inv.shook_set (hs : s.Inv) (hc : s.clients[i]? = some c) (hf : c.Follows c') :
    ∀ (j : ℕ) (d : Client κ), (s.clients.set i c')[j]? = some d → d.shook = true →
      j ∈ s.done ++ s.rxs ++ s.todo ∨ ∃ r, d.pc.ended = some r ∧ r.isOther = true := by
  intro j d hd hk
  rcases getElem?_set_some hd with ⟨rfl, rfl⟩ | ⟨-, hd⟩
  · rcases hs.shook j c hc (hf.shook.symm.trans hk) with hin | ⟨r, hr, ho⟩
    · exact Or.inl hin
    · exact Or.inr ⟨r, hf.ended r hr, ho⟩
  · exact hs.shook j d hd hk

end Books

theorem mem_registeredIds (clients : List (Client κ)) (i : ℕ) (c : Client κ)
    (hc : clients[i]? = some c) (hr : c.registered = true) : i ∈ registeredIds clients := by
  have hi := (List.getElem?_eq_some_iff.mp hc).1
  refine List.mem_filter.mpr ⟨List.mem_range.mpr hi, ?_⟩
  rw [hc]
  exact hr

theorem registeredIds_nodup (clients : List (Client κ)) : (registeredIds clients).Nodup :=
  List.nodup_range.filter _

theorem getElem?_snoc {α : Type*} {l : List α} {x y : α} {j : ℕ} (h : (l ++ [x])[j]? = some y) :
    l[j]? = some y ∨ y = x := by
  rw [List.getElem?_append] at h
  split at h
  · exact Or.inl h
  · right
    exact List.mem_singleton.mp (List.mem_of_getElem? h)

/-- A client that the take does not find in the registry but past its handshake ended by itself. -/
theorem Client.unregistered_other {c : Client κ} (hc : c.Inv) (hsent : c.cancelSent = false)
    (hm : c.Member) (hr : c.registered = false) (hk : c.pc.isShaken = true) :
    ∃ r, c.pc.ended = some r ∧ r.isOther = true := by
  rcases hm with hm | hm | hm
  · simp [hr] at hm
  · simp [hm, ClientPc.isShaken] at hk
  · have hheed : c.pc.heeds = false := by
      cases hh : c.pc.heeds with
      | false => rfl
      | true =>
        have hasked := hc.asked hh
        simp [hsent] at hasked
    cases hp : c.pc with
    | gone r =>
      rw [hp] at hk hheed
      refine ⟨r, rfl, ?_⟩
      cases r <;> simp_all [ClientPc.isShaken, ClientPc.heeds, EndReason.isOther]
    | _ => simp [hp, ClientPc.isGone] at hm

theorem Client.taken_inv {c : Client κ} (hc : c.Inv) : c.taken.Inv :=
  ⟨hc.asked, fun hk => hk, hc.handoff, hc.handed⟩

/-- The next receiver is dealt with. -/
theorem Harvest.Inv.awaited {s : Harvest κ} {i : ℕ} {rxs : List ℕ} {c : Client κ} (hs : s.Inv)
    (hp : s.phase = .awaiting) (hr : s.rxs = i :: rxs) (hc : s.clients[i]? = some c)
    (handoffs : List (ℕ × TlsHandoff κ))
    (hother : ∀ j, j ≠ i → handoffs.filter (·.1 = j) = s.handoffs.filter (·.1 = j))
    (hi : (∃ h, c.handoff = some h ∧ handoffs.filter (·.1 = i) = [(i, h)]) ∨
      c.pc.isGone = true ∧ c.handoff = none ∧ handoffs.filter (·.1 = i) = []) :
    Harvest.Inv { s with rxs := rxs, done := s.done ++ [i], handoffs := handoffs } := by
  have hlists : s.done ++ [i] ++ rxs = s.done ++ s.rxs := by simp [hr]
  have htodo := hs.awaiting (Or.inl hp)
  have hn := hs.nodup
  rw [hr] at hn
  refine ⟨hs.clients, ?_, ?_, ?_, ?_, by simp [hp], ?_, fun _ => htodo, by simp [hp]⟩
  · show ∀ (j : ℕ) (d : Client κ), s.clients[j]? = some d → d.cancelSent = true →
      j ∈ s.done ++ [i] ++ rxs
    rw [hlists]
    exact hs.sent
  · show (s.done ++ [i] ++ rxs ++ s.todo).Nodup
    rw [hlists]
    exact hs.nodup
  · intro j hj
    by_cases hji : j = i
    · subst hji
      exact ⟨c, hc, hi⟩
    · have hj' : j ∈ s.done := by simpa [hji] using hj
      rw [hother j hji]
      exact hs.done j hj'
  · intro j hj
    have hj' : j ∉ s.done ∧ j ≠ i := by simpa using hj
    rw [hother j hj'.2]
    exact hs.rest j hj'.1
  · show ∀ (j : ℕ) (d : Client κ), s.clients[j]? = some d → d.shook = true →
      j ∈ s.done ++ [i] ++ rxs ++ s.todo ∨ ∃ r, d.pc.ended = some r ∧ r.isOther = true
    rw [hlists]
    exact hs.shook

/-- Of a client that is still awaited nothing has been received. -/
theorem Harvest.Inv.awaited_fresh {s : Harvest κ} {i : ℕ} {rxs : List ℕ} (hs : s.Inv)
    (hr : s.rxs = i :: rxs) : s.handoffs.filter (·.1 = i) = [] := by
  apply hs.rest
  intro hin
  have hn := hs.nodup
  rw [hr, List.append_assoc] at hn
  exact List.disjoint_of_nodup_append hn hin (by simp)

theorem Harvest.step_inv {s t : Harvest κ} {a : HarvestAct κ} (hs : s.Inv)
    (h : s.step a = some t) : t.Inv := by
  cases Harvest.step_cases h with
  | accept peer tcpFd hp =>
    obtain ⟨hlists, hall⟩ := hs.serving hp
    have hnew : ∀ (j : ℕ) (d : Client κ), (s.clients ++ [newClient peer tcpFd])[j]? = some d →
        s.clients[j]? = some d ∨ d = newClient peer tcpFd := fun j d hd => getElem?_snoc hd
    refine ⟨?_, ?_, hs.nodup, ?_, hs.rest, fun _ => ⟨hlists, ?_⟩, ?_, hs.awaiting, hs.forked⟩
    · intro j d hd
      rcases hnew j d hd with hd | rfl
      · exact hs.clients j d hd
      · exact newClient_inv peer tcpFd
    · intro j d hd hsent
      rcases hnew j d hd with hd | rfl
      · exact hs.sent j d hd hsent
      · cases hsent
    · have hnone : s.done = [] := by simp_all
      simp [hnone]
    · intro j d hd
      rcases hnew j d hd with hd | rfl
      · exact hall j d hd
      · exact ⟨rfl, Or.inr (Or.inl rfl)⟩
    · intro j d hd hk
      rcases hnew j d hd with hd | rfl
      · exact hs.shook j d hd hk
      · cases hk
  | client i b c c' hp hc hstep =>
    obtain ⟨hf, hsent, hmem⟩ := Client.step_follows (hs.clients i c hc) hstep
    refine ⟨hs.clients_set hf, ?_, hs.nodup, hs.done_set hc hf, hs.rest, ?_, hs.shook_set hc hf,
      hs.awaiting, hs.forked⟩
    · intro j d hd hk
      rcases getElem?_set_some hd with ⟨rfl, rfl⟩ | ⟨-, hd⟩
      · exact hs.sent j c hc (hsent.symm.trans hk)
      · exact hs.sent j d hd hk
    · intro hp
      obtain ⟨hlists, hall⟩ := hs.serving hp
      refine ⟨hlists, ?_⟩
      intro j d hd
      rcases getElem?_set_some hd with ⟨rfl, rfl⟩ | ⟨-, hd⟩
      · exact ⟨hf.shook.trans (hall j c hc).1, hmem (hall j c hc).2⟩
      · exact hall j d hd
  | take hp =>
    obtain ⟨hlists, hall⟩ := hs.serving hp
    have hnone : s.done = [] ∧ s.rxs = [] := by simp_all
    have hold : ∀ (j : ℕ) (d : Client κ), (s.clients.map Client.taken)[j]? = some d →
        ∃ c, s.clients[j]? = some c ∧ d = c.taken := by
      intro j d hd
      rw [List.getElem?_map] at hd
      obtain ⟨c, hc, rfl⟩ := Option.map_eq_some_iff.mp hd
      exact ⟨c, hc, rfl⟩
    refine ⟨?_, ?_, ?_, by simp [hnone.1], hs.rest, by simp, ?_, by simp, by simp⟩
    · intro j d hd
      obtain ⟨c, hc, rfl⟩ := hold j d hd
      exact Client.taken_inv (hs.clients j c hc)
    · intro j d hd hk
      obtain ⟨c, hc, rfl⟩ := hold j d hd
      exact hs.sent j c hc hk
    · simpa [hnone] using registeredIds_nodup s.clients
    · intro j d hd hk
      obtain ⟨c, hc, rfl⟩ := hold j d hd
      by_cases hr : c.registered = true
      · left
        simpa [hnone] using mem_registeredIds s.clients j c hc hr
      · right
        have hsent : c.cancelSent = false := by
          cases hsent : c.cancelSent with
          | false => rfl
          | true =>
            have hin := hs.sent j c hc hsent
            simp [hnone] at hin
        exact Client.unregistered_other (c := c) (hs.clients j c hc) hsent (hall j c hc).2
          (by simpa using hr) hk
  | cancel i todo c hp ht hc =>
    have hf := Client.sendCancel_follows (hs.clients i c hc)
    have hlists : s.done ++ (s.rxs ++ [i]) ++ todo = s.done ++ s.rxs ++ s.todo := by simp [ht]
    refine ⟨hs.clients_set hf, ?_, ?_, hs.done_set hc hf, hs.rest, by simp [hp], ?_, by simp [hp],
      by simp [hp]⟩
    · intro j d hd hk
      rcases getElem?_set_some hd with ⟨rfl, -⟩ | ⟨-, hd⟩
      · simp
      · have hin := hs.sent j d hd hk
        simp only [← List.append_assoc]
        exact List.mem_append_left _ hin
    · show (s.done ++ (s.rxs ++ [i]) ++ todo).Nodup
      rw [hlists]
      exact hs.nodup
    · show ∀ (j : ℕ) (d : Client κ), (s.clients.set i c.sendCancel)[j]? = some d → d.shook = true →
        j ∈ s.done ++ (s.rxs ++ [i]) ++ todo ∨ ∃ r, d.pc.ended = some r ∧ r.isOther = true
      rw [hlists]
      exact hs.shook_set hc hf
  | cancelled hp ht =>
    exact ⟨hs.clients, hs.sent, hs.nodup, hs.done, hs.rest, by simp, hs.shook, fun _ => ht, by simp⟩
  | receive i rxs c x hp hr hc hh =>
    refine hs.awaited hp hr hc _ ?_ (Or.inl ⟨x, hh, ?_⟩)
    · intro j hj
      simpa [List.filter_append] using fun he : i = j => hj he.symm
    · simp [List.filter_append, hs.awaited_fresh hr]
  | skip i rxs c hp hr hc hh hg =>
    exact hs.awaited hp hr hc s.handoffs (fun _ _ => rfl) (Or.inr ⟨hg, hh, hs.awaited_fresh hr⟩)
  | fork hp hr =>
    exact ⟨hs.clients, hs.sent, hs.nodup, hs.done, hs.rest, by simp, hs.shook,
      fun _ => hs.awaiting (Or.inl hp), fun _ => hr⟩

/-! ### Complete or not -/

/-- A client that was past its handshake has given up its dial for the cancel. -/
def Harvest.Broken (s : Harvest κ) : Prop :=
  ∃ (i : ℕ) (c : Client κ), s.clients[i]? = some c ∧ c.shook = true ∧
    c.pc.ended = some .dialCancelled

theorem Harvest.complete_iff {s : Harvest κ} (hs : s.Inv) (hp : s.phase = .forked) :
    s.IsComplete ↔ ¬ s.Broken := by
  have hlists : s.done ++ s.rxs ++ s.todo = s.done := by
    simp [hs.forked hp, hs.awaiting (Or.inr hp)]
  constructor
  · intro hall ⟨i, c, hc, hk, hend⟩
    rcases hall i c hc hk with ⟨r, hr, ho⟩ | ⟨conn, fd, -, -, hin⟩
    · cases hend.symm.trans hr
      cases ho
    · by_cases hdone : i ∈ s.done
      · obtain ⟨d, hd, ⟨h, hh, -⟩ | ⟨-, -, hnone⟩⟩ := hs.done i hdone
        · cases hc.symm.trans hd
          cases hend.symm.trans ((hs.clients i c hc).handoff h hh).1
        · rw [hnone] at hin
          cases hin
      · rw [hs.rest i hdone] at hin
        cases hin
  · intro hno i c hc hk
    rcases hs.shook i c hc hk with hin | hother
    · rw [hlists] at hin
      obtain ⟨d, hd, ⟨h, hh, hone⟩ | ⟨hgone, hnone, -⟩⟩ := hs.done i hin
      · cases hc.symm.trans hd
        obtain ⟨-, conn, fd, hconn, hfd, rfl⟩ := (hs.clients i c hc).handoff h hh
        exact Or.inr ⟨conn, fd, hconn, hfd, hone⟩
      · cases hc.symm.trans hd
        left
        have hinv := hs.clients i c hc
        have hshaken := hinv.shook hk
        cases hpc : c.pc with
        | gone r =>
          refine ⟨r, rfl, ?_⟩
          have hhanded : r ≠ .handedOff := fun he => hinv.handed (by simp [hpc, he, ClientPc.ended]) hnone
          have hdial : r ≠ .dialCancelled :=
            fun he => hno ⟨i, c, hc, hk, by simp [hpc, he, ClientPc.ended]⟩
          rw [hpc] at hshaken
          cases r <;> simp_all [ClientPc.isShaken, EndReason.isOther]
        | _ => simp [hpc, ClientPc.isGone] at hgone
    · exact Or.inl hother

theorem Harvest.Broken.step {s t : Harvest κ} {a : HarvestAct κ} (hs : s.Inv) (hb : s.Broken)
    (h : s.step a = some t) : t.Broken := by
  obtain ⟨i, c, hc, hk, hend⟩ := hb
  have hset : ∀ (j : ℕ) (d d' : Client κ), s.clients[j]? = some d → d.Follows d' →
      ∃ (i : ℕ) (c : Client κ), (s.clients.set j d')[i]? = some c ∧ c.shook = true ∧
        c.pc.ended = some .dialCancelled := by
    intro j d d' hd hf
    obtain ⟨w, hw, ⟨rfl, rfl⟩ | ⟨-, rfl⟩⟩ := getElem?_set_exists (x := d') hd hc
    · cases hc.symm.trans hd
      exact ⟨_, _, hw, hf.shook.trans hk, hf.ended _ hend⟩
    · exact ⟨i, _, hw, hk, hend⟩
  cases Harvest.step_cases h with
  | accept peer tcpFd hp =>
    have hi := (List.getElem?_eq_some_iff.mp hc).1
    refine ⟨i, c, ?_, hk, hend⟩
    rw [List.getElem?_append_left hi]
    exact hc
  | client j b d d' hp hd hstep => exact hset j d d' hd (Client.step_follows (hs.clients j d hd) hstep).1
  | take hp => simp [((hs.serving hp).2 i c hc).1] at hk
  | cancel j todo d hp ht hd => exact hset j d _ hd (Client.sendCancel_follows (hs.clients j d hd))
  | cancelled _ _ | receive _ _ _ _ _ _ _ _ | skip _ _ _ _ _ _ _ _ | fork _ _ =>
    exact ⟨i, c, hc, hk, hend⟩

/-- The step that goes off the guard is the one that breaks the harvest. -/
theorem Harvest.step_broken_iff {s t : Harvest κ} {a : HarvestAct κ} (hs : s.Inv)
    (hb : ¬ s.Broken) (h : s.step a = some t) : t.Broken ↔ ¬ s.Unbroken a := by
  cases Harvest.step_cases h with
  | client i b c c' hp hc hstep =>
    have hf := (Client.step_follows (hs.clients i c hc) hstep).1
    constructor
    · rintro ⟨j, d, hd, hk, hend⟩ hun
      rcases getElem?_set_some hd with ⟨rfl, rfl⟩ | ⟨-, hd⟩
      · cases Client.step_cases hstep with
        | goes _ pc registered conn udsFd _ ht _ _ _ => cases ht.symm.trans hend
        | ends _ r _ _ _ _ _ hdial =>
          have hr : r = .dialCancelled := Option.some.inj hend
          rw [hdial hr] at hun
          have hno := hun c hc
          rw [show c.shook = true from hk] at hno
          cases hno
        | hands conn fd _ _ _ => cases hend
        | removes r hp =>
          refine hb ⟨j, c, hc, hk, ?_⟩
          rw [hp]
          exact hend
      · exact hb ⟨j, d, hd, hk, hend⟩
    · intro hoff
      cases b with
      | dialCancelled =>
        simp only [Client.step, Option.ite_none_right_eq_some, Option.some.injEq] at hstep
        obtain ⟨-, rfl⟩ := hstep
        have hk : c.shook = true := by
          by_contra hk
          refine hoff ?_
          intro d hd
          cases hc.symm.trans hd
          simpa using hk
        exact ⟨i, _, getElem?_set_of_some hc, hk, rfl⟩
      | _ => exact absurd trivial hoff
  | accept peer tcpFd hp =>
    refine iff_of_false ?_ (fun hoff => hoff trivial)
    rintro ⟨j, d, hd, hk, hend⟩
    rcases getElem?_snoc hd with hd | rfl
    · exact hb ⟨j, d, hd, hk, hend⟩
    · cases hk
  | take hp =>
    refine iff_of_false ?_ (fun hoff => hoff trivial)
    rintro ⟨j, d, hd, -, hend⟩
    -- nobody has been sent a cancel yet
    rw [List.getElem?_map] at hd
    obtain ⟨c, hc, rfl⟩ := Option.map_eq_some_iff.mp hd
    have hheed : c.pc.heeds = true := by
      have hend' : c.pc.ended = some .dialCancelled := hend
      cases hpc : c.pc <;> simp_all [ClientPc.ended, ClientPc.heeds]
    have hin := hs.sent j c hc ((hs.clients j c hc).asked hheed)
    have hlists := (hs.serving hp).1
    simp_all
  | cancel i todo c hp ht hc =>
    refine iff_of_false ?_ (fun hoff => hoff trivial)
    rintro ⟨j, d, hd, hk, hend⟩
    rcases getElem?_set_some hd with ⟨rfl, rfl⟩ | ⟨-, hd⟩
    · rw [c.sendCancel_pc.1] at hend
      exact hb ⟨j, c, hc, hk, hend⟩
    · exact hb ⟨j, d, hd, hk, hend⟩
  | cancelled _ _ | receive _ _ _ _ _ _ _ _ | skip _ _ _ _ _ _ _ _ | fork _ _ =>
    exact iff_of_false hb (fun hoff => hoff trivial)

/-- When the process forks, every client that was past its handshake when the registry was taken has
ended by itself or is in the handoffs, once and as it is, exactly if none of them gave up its dial. -/
theorem harvest_complete_iff (as : List (HarvestAct κ)) (t : Harvest κ)
    (h : exec Harvest.step Harvest.start as = some t) (hp : t.phase = .forked) :
    t.IsComplete ↔ Along Harvest.step Harvest.Unbroken Harvest.start as := by
  have hinv : t.Inv := exec_invariant (fun _ _ _ hs ht => Harvest.step_inv hs ht) _ t as
    Harvest.start_inv h
  have hnew : ¬ (Harvest.start : Harvest κ).Broken := by simp [Harvest.Broken, Harvest.start]
  rw [Harvest.complete_iff hinv hp]
  constructor
  · intro hno
    refine along_of_end (I := Harvest.Inv) (B := Harvest.Broken) (P := fun _ => True) ?_ ?_ _ t as
      Harvest.start_inv (fun _ _ => trivial) h hno
    · intro s a u hs _ hu
      refine ⟨Harvest.step_inv hs hu, fun hoff => ?_⟩
      by_cases hb : s.Broken
      · exact hb.step hs hu
      · exact (Harvest.step_broken_iff hs hb hu).mpr hoff
    · intro s a u hs hb _ hu
      exact hb.step hs hu
  · intro hg
    refine (exec_along (I := fun s => s.Inv ∧ ¬ s.Broken) ?_ _ t as ⟨Harvest.start_inv, hnew⟩ hg
      h).2
    intro s a u hs hun hu
    exact ⟨Harvest.step_inv hs.1 hu,
      fun hb => (Harvest.step_broken_iff hs.1 hs.2 hu).mp hb hun⟩

/-- One client whose bridge is cancelled, one that cannot reach the processor, one in its
handshake. -/
def twoOutOfThree : List (HarvestAct ℕ) :=
  [.accept "p" 7, .accept "q" 8, .accept "r" 9, .client 0 .register, .client 1 .register,
    .client 2 .register, .client 0 (.shake 1), .client 1 (.shake 2), .client 0 (.dialed 17 0 0 0),
    .take, .cancel, .cancel, .cancel, .cancel, .client 2 .shakeCancelled, .client 2 .remove,
    .client 1 .dialFails, .client 1 .remove, .client 0 (.bridge .relayCancel 5),
    .client 0 (.bridge (.dir1 .stop) 5), .client 0 (.bridge (.dir2 .stop) 5),
    .client 0 (.bridge .watchStop 5), .client 0 .leave, .client 0 (.handOver true), .await, .await,
    .await, .fork]

theorem harvest_complete_three :
    ∃ t, exec Harvest.step Harvest.start twoOutOfThree = some t ∧ t.IsComplete ∧
      t.handoffs = [(0, ⟨7, 17, 5, "p"⟩)] := by
  refine ⟨_, rfl, ?_, rfl⟩
  exact (harvest_complete_iff twoOutOfThree _ rfl rfl).mpr (by decide)

/-- A client that has shaken hands and is waiting for the processor when the cancel comes. -/
theorem harvest_drops_dialing :
    ∃ t : Harvest ℕ, exec Harvest.step Harvest.start
      [.accept "p" 7, .client 0 .register, .client 0 (.shake 1), .take, .cancel, .cancel,
        .client 0 .dialCancelled, .client 0 .remove, .await, .fork] = some t ∧
      t.phase = .forked ∧ t.clients.map (·.shook) = [true] ∧ t.handoffs = [] ∧ ¬ t.IsComplete := by
  refine ⟨_, rfl, rfl, rfl, rfl, ?_⟩
  intro hall
  rcases hall 0 _ rfl rfl with ⟨r, hr, ho⟩ | ⟨conn, fd, -, -, hin⟩
  · cases hr
    cases ho
  · cases hin

end FiveNinesEcho.Acceptor
