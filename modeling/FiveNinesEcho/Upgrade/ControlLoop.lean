import FiveNinesEcho.Lib.Exec
import FiveNinesEcho.Lib.Slots
import FiveNinesEcho.Lib.Watch

/-!
# The control client and the worker's loop (`processor.rs:96-240`, `processor/control.rs:39-114`,
`acceptor.rs:119-271`, `acceptor/control.rs:68-137`)

A worker's control client passes an `Upgrade` or a `Shutdown` on to the main loop through a watch
channel each, and ends; after a rollback the loop spawns another one. `run` and the loop keep
senders of their own, so that the end of a client does not close a channel: a closed one would wake
the loop on the request it had run before. The tasks run on several threads, so a client that has
sent may still be on its way out while the loop goes on.
-/

namespace FiveNinesEcho.Upgrade
open Lib

/-! ### The tasks -/

inductive WorkerKind where
  | processor
  | plain
  deriving Repr, DecidableEq

structure UpgradeReq where
  binaryPath : Option String
  deriving Repr, DecidableEq

/-- Where `run_control_client` is; one that is `leaving` has sent a terminal message on and only
returns. -/
inductive ClientPc where
  | dialing
  | connected
  | backoff
  | leaving
  deriving Repr, DecidableEq

def ClientPc.isActive : ClientPc → Bool
  | .leaving => false
  | _ => true

/-- What the client's reader yields. A status reply may fail; other lines concern neither channel. -/
inductive ControlLine where
  | upgrade (req : UpgradeReq)
  | shutdown (graceMs : ℕ)
  | status (written : Bool)
  | other
  | closed
  deriving Repr, DecidableEq

inductive Arm where
  | upgrade
  | shutdown
  deriving Repr, DecidableEq

inductive LoopEnd where
  | signal
  | shutdown
  | failed
  | committed
  deriving Repr, DecidableEq

/-- Where the loop is: in its `select!`, past a `changed()` and before it looks at the value, in
`do_upgrade`, in the acceptor's sleep before it returns, or out. -/
inductive LoopPc where
  | select
  | took (arm : Arm)
  | upgrading (req : UpgradeReq)
  | stopping
  | ended (how : LoopEnd)
  deriving Repr, DecidableEq

/-- The loop has a terminal message in hand, or has ended on one. -/
def LoopPc.busy : LoopPc → ℕ
  | .select | .ended .signal => 0
  | _ => 1

def LoopPc.running : LoopPc → Bool
  | .ended _ => false
  | _ => true

/-- `received`, `calls` and `shutdowns` are the history: the requests read by clients, the calls of
`do_upgrade`, the `Shutdown` messages read. The processor's shutdown channel holds a bool, here
whether there is a value. -/
structure WorkerLoop where
  kind : WorkerKind
  loop : LoopPc
  clients : List ClientPc
  upgrade : Watch (Option UpgradeReq)
  shutdown : Watch (Option ℕ)
  received : List UpgradeReq
  calls : List UpgradeReq
  shutdowns : ℕ
  deriving Repr, DecidableEq

inductive UpgradeEnd where
  | rolledBack
  | failed
  | committed
  deriving Repr, DecidableEq

inductive LoopAct where
  | dial (i : ℕ) (ok : Bool)
  | read (i : ℕ) (line : ControlLine)
  | wake (i : ℕ)
  | leave (i : ℕ)
  | accept
  | signal
  | take (arm : Arm)
  | borrow
  | stopped
  | upgradeDone (how : UpgradeEnd)
  deriving Repr, DecidableEq

namespace WorkerLoop

def setClient (s : WorkerLoop) (i : ℕ) (pc : ClientPc) : WorkerLoop :=
  { s with clients := s.clients.set i pc }

/-- A client returns and its senders are dropped. -/
def dropClient (s : WorkerLoop) (i : ℕ) : WorkerLoop :=
  { s with
    clients := s.clients.eraseIdx i
    upgrade := s.upgrade.dropSender
    shutdown := s.shutdown.dropSender }

/-- `spawn_processor_control` and `spawn_acceptor_control`. -/
def spawnClient (s : WorkerLoop) : WorkerLoop :=
  { s with
    clients := s.clients ++ [.dialing]
    upgrade := s.upgrade.cloneSender
    shutdown := s.shutdown.cloneSender }

/-- The loop returns, with its receivers, its senders and those of `run`. -/
def endLoop (s : WorkerLoop) (how : LoopEnd) : WorkerLoop :=
  { s with
    loop := .ended how
    upgrade := s.upgrade.dropReceiver.dropSender.dropSender
    shutdown := s.shutdown.dropReceiver.dropSender.dropSender }

/-- The process is gone. -/
def exit (s : WorkerLoop) (how : LoopEnd) : WorkerLoop := { s.endLoop how with clients := [] }

def readLine (s : WorkerLoop) (i : ℕ) : ControlLine → WorkerLoop
  | .upgrade req => { s.setClient i .leaving with
      upgrade := s.upgrade.send (some req), received := s.received ++ [req] }
  | .shutdown graceMs => { s.setClient i .leaving with
      shutdown := s.shutdown.send (some graceMs), shutdowns := s.shutdowns + 1 }
  | .status true | .other => s
  | .status false | .closed => s.setClient i .backoff

/-- The body of an arm: `changed()` may also have failed, the value is looked at all the same. -/
def borrow (s : WorkerLoop) : Arm → WorkerLoop
  | .upgrade => match s.upgrade.value with
    | none => { s with loop := .select }
    | some req => { s with loop := .upgrading req, calls := s.calls ++ [req] }
  | .shutdown => match s.kind, s.shutdown.value with
    | .processor, none => { s with loop := .select }
    | .processor, some _ => s.endLoop .shutdown
    | .plain, _ => { s with loop := .stopping }

/-- One step of a client or of the loop. `accept` stands for every arm that touches neither channel
(the acceptor's drain, reload and SIGHUP too); SIGTERM and SIGINT are an arm of the processor's loop
and the end of a plain acceptor. -/
def step (s : WorkerLoop) : LoopAct → Option WorkerLoop
  | .dial i ok =>
    if s.clients[i]? = some .dialing then
      some (if ok then s.setClient i .connected else s.dropClient i) else none
  | .read i line => if s.clients[i]? = some .connected then some (s.readLine i line) else none
  | .wake i => if s.clients[i]? = some .backoff then some (s.setClient i .dialing) else none
  | .leave i => if s.clients[i]? = some .leaving then some (s.dropClient i) else none
  | .accept => if s.loop = .select then some s else none
  | .signal => match s.kind, s.loop with
    | .processor, .select => some (s.endLoop .signal)
    | .processor, _ => none
    | .plain, .ended _ => none
    | .plain, _ => some (s.exit .signal)
  | .take arm => if s.loop = .select then match arm with
      | .upgrade => s.upgrade.changed.map fun w => { s with upgrade := w, loop := .took .upgrade }
      | .shutdown =>
        s.shutdown.changed.map fun w => { s with shutdown := w, loop := .took .shutdown }
    else none
  | .borrow => match s.loop with
    | .took arm => some (s.borrow arm)
    | _ => none
  | .stopped => if s.loop = .stopping then some (s.endLoop .shutdown) else none
  | .upgradeDone how => match s.loop with
    | .upgrading _ => some (match how with
      | .rolledBack => { s.spawnClient with loop := .select }
      | .failed => s.endLoop .failed
      | .committed => s.exit .committed)
    | _ => none

/-- `run` after the channels are made: one sender its own, one the loop's, one the client's. -/
def start (kind : WorkerKind) : WorkerLoop where
  kind := kind
  loop := .select
  clients := [.dialing]
  upgrade := .channel none 3
  shutdown := .channel none 3
  received := []
  calls := []
  shutdowns := 0

/-! ### One terminal message at a time -/

/-- The clients that can still read a message. -/
def active (s : WorkerLoop) : ℕ := s.clients.countP (·.isActive)

/-- The right to act on a terminal message: a client has it until it has read one, then the message
in its channel, then the loop. -/
def tokens (s : WorkerLoop) : ℕ :=
  s.active + s.upgrade.unseen.toNat + s.shutdown.unseen.toNat + s.loop.busy

/-- The request that `do_upgrade` has yet to be called for. -/
def pending (s : WorkerLoop) : List UpgradeReq :=
  if s.upgrade.unseen = true ∨ s.loop = .took .upgrade then s.upgrade.value.toList else []

/-- The loop is about to stop, or has stopped, for a `Shutdown`. -/
def Asked (s : WorkerLoop) : Prop :=
  s.shutdown.unseen = true ∨ s.loop = .took .shutdown ∨ s.loop = .stopping ∨
    s.loop = .ended .shutdown

structure Inv (s : WorkerLoop) : Prop where
  token : s.tokens ≤ 1
  held : s.loop.running = true →
    s.upgrade.senders = s.clients.length + 2 ∧ s.shutdown.senders = s.clients.length + 2
  receivers : s.upgrade.receiver = s.loop.running ∧ s.shutdown.receiver = s.loop.running
  filled : s.upgrade.unseen = true ∨ s.loop = .took .upgrade → s.upgrade.value.isSome = true
  once : s.loop.running = true → s.received = s.calls ++ s.pending
  sound : s.calls <+: s.received
  asked : s.Asked → 0 < s.shutdowns

theorem start_inv (kind : WorkerKind) : (start kind).Inv where
  token := Nat.le_refl 1
  held _ := ⟨rfl, rfl⟩
  receivers := ⟨rfl, rfl⟩
  filled := by simp [start, Watch.channel]
  once _ := rfl
  sound := List.prefix_refl _
  asked := by simp [Asked, start, Watch.channel]

/-- A step that only moves clients, with the senders they hold. -/
theorem Inv.withClients {s : WorkerLoop} (hi : s.Inv) (clients : List ClientPc) (m n : ℕ)
    (hactive : clients.countP (·.isActive) ≤ s.active)
    (hheld : s.loop.running = true → m = clients.length + 2 ∧ n = clients.length + 2) :
    Inv { s with
      clients := clients
      upgrade := { s.upgrade with senders := m }
      shutdown := { s.shutdown with senders := n } } where
  token := by
    have htoken := hi.token
    simp only [tokens, active] at hactive htoken ⊢
    omega
  held := hheld
  receivers := hi.receivers
  filled := hi.filled
  once := hi.once
  sound := hi.sound
  asked := hi.asked

theorem Inv.setClient {s : WorkerLoop} (hi : s.Inv) {i : ℕ} {c : ClientPc} (pc : ClientPc)
    (hc : s.clients[i]? = some c) (hactive : c.isActive = true) : (s.setClient i pc).Inv := by
  refine hi.withClients _ s.upgrade.senders s.shutdown.senders ?_ ?_
  · have hadd := countP_set_add (·.isActive) s.clients i c pc hc
    rw [if_pos hactive] at hadd
    unfold active
    split at hadd <;> omega
  · rw [List.length_set]
    exact hi.held

theorem Inv.dropClient {s : WorkerLoop} (hi : s.Inv) {i : ℕ} {c : ClientPc}
    (hc : s.clients[i]? = some c) : (s.dropClient i).Inv := by
  have hlt := (List.getElem?_eq_some_iff.mp hc).1
  refine hi.withClients _ (s.upgrade.senders - 1) (s.shutdown.senders - 1) ?_ ?_
  · have hadd := countP_eraseIdx_add (·.isActive) s.clients i c hc
    unfold active
    omega
  · intro hrun
    obtain ⟨hup, hdown⟩ := hi.held hrun
    rw [List.length_eraseIdx_of_lt hlt]
    omega

/-- A client that can read a message finds both channels seen and the loop free or gone. -/
theorem Inv.of_active {s : WorkerLoop} (hi : s.Inv) {i : ℕ} (hc : s.clients[i]? = some .connected) :
    s.upgrade.unseen = false ∧ s.shutdown.unseen = false ∧
      (s.loop = .select ∨ s.loop = .ended .signal) ∧
      (s.clients.set i .leaving).countP (·.isActive) = 0 := by
  have hadd : (s.clients.set i .leaving).countP (·.isActive) + 1 = s.clients.countP (·.isActive) :=
    countP_set_add (·.isActive) s.clients i _ .leaving hc
  have htoken := hi.token
  unfold tokens active at htoken
  have hbusy : s.loop.busy = 0 := by omega
  refine ⟨Bool.toNat_eq_zero.mp (by omega), Bool.toNat_eq_zero.mp (by omega), ?_, by omega⟩
  unfold LoopPc.busy at hbusy
  split at hbusy
  · next h => exact Or.inl h
  · next h => exact Or.inr h
  · cases hbusy

theorem Inv.readUpgrade {s : WorkerLoop} (hi : s.Inv) {i : ℕ} (req : UpgradeReq)
    (hc : s.clients[i]? = some .connected) : (s.readLine i (.upgrade req)).Inv := by
  obtain ⟨hup, hdown, hloop, hactive⟩ := hi.of_active hc
  have hprefix : s.calls <+: s.received ++ [req] := hi.sound.trans (List.prefix_append ..)
  rcases hloop with hloop | hloop
  · have hrecv : s.upgrade.receiver = true := by rw [hi.receivers.1, hloop]; rfl
    obtain ⟨hvalue, hunseen⟩ := s.upgrade.send_open (some req) hrecv
    have hall : s.received = s.calls := by
      have honce := hi.once (by rw [hloop]; rfl)
      simpa [pending, hup, hloop] using honce
    constructor
    · show (s.clients.set i .leaving).countP _ + (s.upgrade.send (some req)).unseen.toNat +
        s.shutdown.unseen.toNat + s.loop.busy ≤ 1
      rw [hactive, hunseen, hdown, hloop]
      decide
    · intro hrun
      show (s.upgrade.send (some req)).senders = (s.clients.set i .leaving).length + 2 ∧
        s.shutdown.senders = (s.clients.set i .leaving).length + 2
      rw [s.upgrade.send_senders, List.length_set]
      exact hi.held hrun
    · show (s.upgrade.send (some req)).receiver = s.loop.running ∧ _
      rw [s.upgrade.send_receiver]
      exact hi.receivers
    · intro _
      show (s.upgrade.send (some req)).value.isSome = true
      rw [hvalue]
      rfl
    · intro _
      have hpend : (s.readLine i (.upgrade req)).pending = [req] := by
        show (if (s.upgrade.send (some req)).unseen = true ∨ s.loop = .took .upgrade then
          (s.upgrade.send (some req)).value.toList else []) = [req]
        rw [if_pos (Or.inl hunseen), hvalue]
        rfl
      rw [hpend]
      show s.received ++ [req] = s.calls ++ [req]
      rw [hall]
    · exact hprefix
    · exact hi.asked
  · have hrecv : s.upgrade.receiver = false := by rw [hi.receivers.1, hloop]; rfl
    have hsend := s.upgrade.send_closed (some req) hrecv
    have hmoved := hi.setClient .leaving hc rfl
    have heq : s.readLine i (.upgrade req) =
        { s.setClient i .leaving with received := s.received ++ [req] } := by
      simp only [readLine, hsend]
      rfl
    rw [heq]
    refine ⟨hmoved.token, hmoved.held, hmoved.receivers, hmoved.filled, ?_, hprefix, hmoved.asked⟩
    intro hrun
    rw [show ({ s.setClient i .leaving with received := s.received ++ [req] } : WorkerLoop).loop =
      .ended .signal from hloop] at hrun
    cases hrun

theorem Inv.readShutdown {s : WorkerLoop} (hi : s.Inv) {i : ℕ} (graceMs : ℕ)
    (hc : s.clients[i]? = some .connected) : (s.readLine i (.shutdown graceMs)).Inv := by
  obtain ⟨hup, hdown, hloop, hactive⟩ := hi.of_active hc
  refine ⟨?_, ?_, ?_, hi.filled, hi.once, hi.sound, fun _ => Nat.succ_pos _⟩
  · show (s.clients.set i .leaving).countP _ + s.upgrade.unseen.toNat +
      (s.shutdown.send (some graceMs)).unseen.toNat + s.loop.busy ≤ 1
    have hbusy : s.loop.busy = 0 := by rcases hloop with h | h <;> rw [h] <;> rfl
    have hone := Bool.toNat_le (s.shutdown.send (some graceMs)).unseen
    rw [hactive, hup, hbusy, Bool.toNat_false]
    omega
  · intro hrun
    show s.upgrade.senders = (s.clients.set i .leaving).length + 2 ∧
      (s.shutdown.send (some graceMs)).senders = (s.clients.set i .leaving).length + 2
    rw [s.shutdown.send_senders, List.length_set]
    exact hi.held hrun
  · show _ ∧ (s.shutdown.send (some graceMs)).receiver = s.loop.running
    rw [s.shutdown.send_receiver]
    exact hi.receivers

theorem Inv.readLine {s : WorkerLoop} (hi : s.Inv) {i : ℕ} (line : ControlLine)
    (hc : s.clients[i]? = some .connected) : (s.readLine i line).Inv := by
  cases line with
  | upgrade req => exact hi.readUpgrade req hc
  | shutdown graceMs => exact hi.readShutdown graceMs hc
  | status written =>
    cases written with
    | true => exact hi
    | false => exact hi.setClient .backoff hc rfl
  | other => exact hi
  | closed => exact hi.setClient .backoff hc rfl

/-! ### The loop -/

/-- The loop ends: what was to be run no longer is. -/
theorem Inv.endLoop {s : WorkerLoop} (hi : s.Inv) (how : LoopEnd)
    (hbusy : (LoopPc.ended how).busy ≤ s.loop.busy)
    (hasked : how = .shutdown → 0 < s.shutdowns) : (s.endLoop how).Inv where
  token := by
    have htoken := hi.token
    show s.active + s.upgrade.unseen.toNat + s.shutdown.unseen.toNat + (LoopPc.ended how).busy ≤ 1
    unfold tokens at htoken
    omega
  held h := nomatch h
  receivers := ⟨rfl, rfl⟩
  filled h := by
    rcases h with h | h
    · exact hi.filled (Or.inl h)
    · cases h
  once h := nomatch h
  sound := hi.sound
  asked h := by
    rcases h with h | h | h | h
    · exact hi.asked (Or.inl h)
    · cases h
    · cases h
    · cases h
      exact hasked rfl

theorem Inv.exit {s : WorkerLoop} (hi : s.Inv) (how : LoopEnd)
    (hbusy : (LoopPc.ended how).busy ≤ s.loop.busy) (hhow : how ≠ .shutdown) :
    (s.exit how).Inv :=
  (hi.endLoop how hbusy (fun h => absurd h hhow)).withClients [] _ _ (Nat.zero_le _)
    (fun h => nomatch h)

/-- `changed` of either channel resolves only for a value that was not seen. -/
theorem Inv.take_unseen {s t : WorkerLoop} (hi : s.Inv) {arm : Arm}
    (h : s.step (.take arm) = some t) : s.loop = .select ∧
      match arm with
      | .upgrade => s.upgrade.unseen = true ∧
        t = { s with upgrade := { s.upgrade with unseen := false }, loop := .took .upgrade }
      | .shutdown => s.shutdown.unseen = true ∧
        t = { s with shutdown := { s.shutdown with unseen := false }, loop := .took .shutdown } := by
  simp only [step, Option.ite_none_right_eq_some] at h
  obtain ⟨hloop, h⟩ := h
  obtain ⟨hup, hdown⟩ := hi.held (by rw [hloop]; rfl)
  refine ⟨hloop, ?_⟩
  cases arm with
  | upgrade =>
    simp only [Option.map_eq_some_iff] at h
    obtain ⟨w, hw, rfl⟩ := h
    obtain ⟨hunseen, rfl⟩ := (s.upgrade.changed_iff w (by omega)).mp hw
    exact ⟨hunseen, rfl⟩
  | shutdown =>
    simp only [Option.map_eq_some_iff] at h
    obtain ⟨w, hw, rfl⟩ := h
    obtain ⟨hunseen, rfl⟩ := (s.shutdown.changed_iff w (by omega)).mp hw
    exact ⟨hunseen, rfl⟩

theorem Inv.take {s t : WorkerLoop} (hi : s.Inv) {arm : Arm} (h : s.step (.take arm) = some t) :
    t.Inv := by
  obtain ⟨hloop, harm⟩ := hi.take_unseen h
  have hheld := hi.held (by rw [hloop]; rfl)
  have hrecv := hi.receivers
  have honce := hi.once (by rw [hloop]; rfl)
  have htoken : s.active + s.upgrade.unseen.toNat + s.shutdown.unseen.toNat ≤ 1 := by
    have htoken := hi.token
    rw [tokens, hloop] at htoken
    exact htoken
  rw [hloop] at hrecv
  cases arm with
  | upgrade =>
    obtain ⟨hunseen, rfl⟩ := harm
    rw [hunseen, Bool.toNat_true] at htoken
    refine ⟨?_, fun _ => hheld, hrecv, fun _ => hi.filled (Or.inl hunseen), ?_, hi.sound, ?_⟩
    · show s.active + 0 + s.shutdown.unseen.toNat + 1 ≤ 1
      omega
    · intro _
      rw [pending, if_pos (Or.inl hunseen)] at honce
      exact honce.trans (by simp [pending])
    · rintro (h | h | h | h)
      · exact hi.asked (Or.inl h)
      all_goals cases h
  | shutdown =>
    obtain ⟨hunseen, rfl⟩ := harm
    rw [hunseen, Bool.toNat_true] at htoken
    have hseen : s.upgrade.unseen = false := Bool.toNat_eq_zero.mp (by omega)
    refine ⟨?_, fun _ => hheld, hrecv, ?_, ?_, hi.sound, fun _ => hi.asked (Or.inl hunseen)⟩
    · show s.active + s.upgrade.unseen.toNat + 0 + 1 ≤ 1
      omega
    · rintro (h | h)
      · exact hi.filled (Or.inl h)
      · cases h
    · intro _
      simpa [pending, hseen, hloop] using honce

/-- With the loop in an arm, both channels are seen and no client can read. -/
theorem Inv.of_busy {s : WorkerLoop} (hi : s.Inv) (hbusy : s.loop.busy = 1) :
    s.active = 0 ∧ s.upgrade.unseen = false ∧ s.shutdown.unseen = false := by
  have htoken := hi.token
  rw [tokens, hbusy] at htoken
  exact ⟨by omega, Bool.toNat_eq_zero.mp (by omega), Bool.toNat_eq_zero.mp (by omega)⟩

/-- The upgrade arm finds the request it was woken for, and calls `do_upgrade` with it. -/
theorem Inv.borrow_upgrade {s : WorkerLoop} (hi : s.Inv) (hloop : s.loop = .took .upgrade) :
    ∃ req, s.upgrade.value = some req ∧ s.received = s.calls ++ [req] ∧
      s.borrow .upgrade = { s with loop := .upgrading req, calls := s.calls ++ [req] } := by
  obtain ⟨req, hreq⟩ := Option.isSome_iff_exists.mp (hi.filled (Or.inr hloop))
  have honce := hi.once (by rw [hloop]; rfl)
  rw [pending, if_pos (Or.inr hloop), hreq] at honce
  exact ⟨req, hreq, honce, by simp only [borrow, hreq]⟩

theorem Inv.borrow {s : WorkerLoop} (hi : s.Inv) {arm : Arm} (hloop : s.loop = .took arm) :
    (s.borrow arm).Inv := by
  obtain ⟨hactive, hup, hdown⟩ := hi.of_busy (by rw [hloop]; rfl)
  have hheld := hi.held (by rw [hloop]; rfl)
  have hrecv := hi.receivers
  rw [hloop] at hrecv
  cases arm with
  | upgrade =>
    obtain ⟨req, -, hall, hborrow⟩ := hi.borrow_upgrade hloop
    rw [hborrow]
    refine ⟨?_, fun _ => hheld, hrecv, ?_, ?_, ?_, ?_⟩
    · show s.active + s.upgrade.unseen.toNat + s.shutdown.unseen.toNat + 1 ≤ 1
      rw [hactive, hup, hdown]
      decide
    · rintro (h | h)
      · exact hi.filled (Or.inl h)
      · cases h
    · intro _
      simpa [pending, hup] using hall
    · exact hall ▸ List.prefix_refl _
    · rintro (h | h | h | h)
      · exact hi.asked (Or.inl h)
      all_goals cases h
  | shutdown =>
    have hasked : 0 < s.shutdowns := hi.asked (Or.inr (Or.inl hloop))
    have honce : s.received = s.calls := by
      have honce := hi.once (by rw [hloop]; rfl)
      simpa [pending, hup, hloop] using honce
    have hgo : ∀ pc : LoopPc, pc.running = true → pc ≠ .took .upgrade →
        Inv { s with loop := pc } := by
      intro pc hrun hpc
      refine ⟨?_, fun _ => hheld, ?_, ?_, ?_, hi.sound, fun _ => hasked⟩
      · show s.active + s.upgrade.unseen.toNat + s.shutdown.unseen.toNat + pc.busy ≤ 1
        rw [hactive, hup, hdown]
        unfold LoopPc.busy
        split <;> decide
      · show s.upgrade.receiver = pc.running ∧ s.shutdown.receiver = pc.running
        rw [hrun]
        exact hrecv
      · rintro (h | h)
        · exact hi.filled (Or.inl h)
        · exact absurd h hpc
      · intro _
        simpa [pending, hup, hpc] using honce
    unfold WorkerLoop.borrow
    dsimp only
    split
    · exact hgo .select rfl (by simp)
    · exact hi.endLoop .shutdown (by rw [hloop]; decide) (fun _ => hasked)
    · exact hgo .stopping rfl (by simp)

/-- After a rollback there is one client that can read a message. -/
theorem Inv.rollBack {s : WorkerLoop} {req : UpgradeReq} (hi : s.Inv)
    (hloop : s.loop = .upgrading req) : Inv { s.spawnClient with loop := .select } := by
  obtain ⟨hactive, hup, hdown⟩ := hi.of_busy (by rw [hloop]; rfl)
  obtain ⟨hheldUp, hheldDown⟩ := hi.held (by rw [hloop]; rfl)
  have hrecv := hi.receivers
  rw [hloop] at hrecv
  refine ⟨?_, fun _ => ?_, hrecv, ?_, fun _ => ?_, hi.sound, ?_⟩
  · show (s.clients ++ [ClientPc.dialing]).countP (·.isActive) + s.upgrade.unseen.toNat +
      s.shutdown.unseen.toNat + 0 ≤ 1
    unfold active at hactive
    rw [List.countP_append, hactive, hup, hdown]
    decide
  · show s.upgrade.senders + 1 = (s.clients ++ [ClientPc.dialing]).length + 2 ∧
      s.shutdown.senders + 1 = (s.clients ++ [ClientPc.dialing]).length + 2
    rw [List.length_append, List.length_singleton]
    omega
  · rintro (h | h)
    · exact hi.filled (Or.inl h)
    · cases h
  · have honce := hi.once (by rw [hloop]; rfl)
    simp only [pending, hup, hloop] at honce
    simpa [pending, spawnClient, Watch.cloneSender, hup] using honce
  · rintro (h | h | h | h)
    · exact hi.asked (Or.inl h)
    all_goals cases h

theorem Inv.step {s t : WorkerLoop} (a : LoopAct) (hi : s.Inv) (h : s.step a = some t) :
    t.Inv := by
  cases a with
  | dial i ok =>
    simp only [WorkerLoop.step, Option.ite_none_right_eq_some, Option.some.injEq] at h
    obtain ⟨hc, rfl⟩ := h
    cases ok with
    | true => exact hi.setClient .connected hc rfl
    | false => exact hi.dropClient hc
  | read i line =>
    simp only [WorkerLoop.step, Option.ite_none_right_eq_some, Option.some.injEq] at h
    obtain ⟨hc, rfl⟩ := h
    exact hi.readLine line hc
  | wake i =>
    simp only [WorkerLoop.step, Option.ite_none_right_eq_some, Option.some.injEq] at h
    obtain ⟨hc, rfl⟩ := h
    exact hi.setClient .dialing hc rfl
  | leave i =>
    simp only [WorkerLoop.step, Option.ite_none_right_eq_some, Option.some.injEq] at h
    obtain ⟨hc, rfl⟩ := h
    exact hi.dropClient hc
  | accept =>
    simp only [WorkerLoop.step, Option.ite_none_right_eq_some, Option.some.injEq] at h
    obtain ⟨-, rfl⟩ := h
    exact hi
  | signal =>
    simp only [WorkerLoop.step] at h
    split at h
    · cases h
      exact hi.endLoop .signal (Nat.zero_le _) (by simp)
    · cases h
    · cases h
    · cases h
      exact hi.exit .signal (Nat.zero_le _) (by simp)
  | take arm => exact hi.take h
  | borrow =>
    simp only [WorkerLoop.step] at h
    split at h
    · next arm hloop =>
      cases h
      exact hi.borrow hloop
    · cases h
  | stopped =>
    simp only [WorkerLoop.step, Option.ite_none_right_eq_some, Option.some.injEq] at h
    obtain ⟨hloop, rfl⟩ := h
    exact hi.endLoop .shutdown (by rw [hloop]; decide)
      (fun _ => hi.asked (Or.inr (Or.inr (Or.inl hloop))))
  | upgradeDone how =>
    simp only [WorkerLoop.step] at h
    split at h
    · next req hloop =>
      cases h
      cases how with
      | rolledBack => exact hi.rollBack hloop
      | failed => exact hi.endLoop .failed (by rw [hloop]; exact Nat.le_refl 1) (by simp)
      | committed => exact hi.exit .committed (by rw [hloop]; exact Nat.le_refl 1) (by simp)
    · cases h

theorem step_calls {s t : WorkerLoop} {a : LoopAct} (h : s.step a = some t) :
    s.calls <+: t.calls := by
  cases a with
  | dial i ok =>
    simp only [step, Option.ite_none_right_eq_some, Option.some.injEq] at h
    obtain ⟨-, rfl⟩ := h
    cases ok <;> exact List.prefix_refl _
  | read i line =>
    simp only [step, Option.ite_none_right_eq_some, Option.some.injEq] at h
    obtain ⟨-, rfl⟩ := h
    unfold readLine
    split <;> exact List.prefix_refl _
  | wake i | leave i | accept | stopped =>
    simp only [step, Option.ite_none_right_eq_some, Option.some.injEq] at h
    obtain ⟨-, rfl⟩ := h
    exact List.prefix_refl _
  | signal =>
    simp only [step] at h
    split at h <;> cases h <;> exact List.prefix_refl _
  | take arm =>
    simp only [step, Option.ite_none_right_eq_some] at h
    obtain ⟨-, h⟩ := h
    cases arm with
    | upgrade | shutdown =>
      simp only [Option.map_eq_some_iff] at h
      obtain ⟨w, -, rfl⟩ := h
      exact List.prefix_refl _
  | borrow =>
    simp only [step] at h
    split at h
    · cases h
      unfold borrow
      split
      · split
        · exact List.prefix_refl _
        · exact List.prefix_append ..
      · split <;> exact List.prefix_refl _
    · cases h
  | upgradeDone how =>
    simp only [step] at h
    split at h
    · cases h
      cases how <;> exact List.prefix_refl _
    · cases h

/-! ### A request that is owed -/

/-- The request is in the channel, and the loop will look at it next time or is about to. -/
def Owes (s : WorkerLoop) (req : UpgradeReq) : Prop :=
  s.upgrade.value = some req ∧
    (s.loop = .select ∧ s.upgrade.unseen = true ∨ s.loop = .took .upgrade)

theorem Inv.owes_of_pending {s : WorkerLoop} (hi : s.Inv) (hrun : s.loop.running = true)
    (hp : s.pending ≠ []) : ∃ req, s.pending = [req] ∧ s.Owes req := by
  have hcond : s.upgrade.unseen = true ∨ s.loop = .took .upgrade := by
    by_contra hne
    exact hp (if_neg hne)
  obtain ⟨req, hreq⟩ := Option.isSome_iff_exists.mp (hi.filled hcond)
  refine ⟨req, by rw [pending, if_pos hcond, hreq]; rfl, hreq, ?_⟩
  rcases hcond with hunseen | htook
  · have htoken := hi.token
    rw [tokens, hunseen, Bool.toNat_true] at htoken
    have hbusy : s.loop.busy = 0 := by omega
    refine Or.inl ⟨?_, hunseen⟩
    unfold LoopPc.busy at hbusy
    split at hbusy
    · next h => exact h
    · next h =>
      rw [h] at hrun
      cases hrun
    · cases hbusy
  · exact Or.inr htook

/-- Nobody else can act while a request is owed. -/
theorem Inv.idle_of_owes {s : WorkerLoop} (hi : s.Inv) {req : UpgradeReq} (ho : s.Owes req) :
    s.active = 0 ∧ s.shutdown.unseen = false := by
  have htoken := hi.token
  unfold tokens at htoken
  rcases ho.2 with ⟨-, hunseen⟩ | hloop
  · rw [hunseen, Bool.toNat_true] at htoken
    exact ⟨by omega, Bool.toNat_eq_zero.mp (by omega)⟩
  · have hbusy := hi.of_busy (by rw [hloop]; rfl)
    exact ⟨hbusy.1, hbusy.2.2⟩

theorem not_active {s : WorkerLoop} (h : s.active = 0) {i : ℕ} {c : ClientPc}
    (hc : s.clients[i]? = some c) : c.isActive = false := by
  have hnone := List.countP_eq_zero.mp h c (List.mem_of_getElem? hc)
  simpa using hnone

/-- Until `do_upgrade` is called with it, a request stays owed; only a signal ends the loop before. -/
theorem Inv.owes_step {s t : WorkerLoop} {req : UpgradeReq} (a : LoopAct) (hi : s.Inv)
    (ho : s.Owes req) (ha : a ≠ .signal) (h : s.step a = some t) :
    t.Owes req ∧ t.calls = s.calls ∨ t.calls = s.calls ++ [req] := by
  obtain ⟨hactive, hdown⟩ := hi.idle_of_owes ho
  cases a with
  | dial i ok | read i line | wake i =>
    simp only [WorkerLoop.step, Option.ite_none_right_eq_some] at h
    cases not_active hactive h.1
  | leave i =>
    simp only [WorkerLoop.step, Option.ite_none_right_eq_some, Option.some.injEq] at h
    obtain ⟨-, rfl⟩ := h
    exact Or.inl ⟨ho, rfl⟩
  | accept =>
    simp only [WorkerLoop.step, Option.ite_none_right_eq_some, Option.some.injEq] at h
    obtain ⟨-, rfl⟩ := h
    exact Or.inl ⟨ho, rfl⟩
  | signal => exact absurd rfl ha
  | take arm =>
    obtain ⟨-, harm⟩ := hi.take_unseen h
    cases arm with
    | upgrade =>
      obtain ⟨-, rfl⟩ := harm
      exact Or.inl ⟨⟨ho.1, Or.inr rfl⟩, rfl⟩
    | shutdown => cases hdown.symm.trans harm.1
  | borrow =>
    rcases ho.2 with ⟨hloop, -⟩ | hloop
    · simp [WorkerLoop.step, hloop] at h
    · obtain ⟨req', hvalue, -, hborrow⟩ := hi.borrow_upgrade hloop
      cases ho.1.symm.trans hvalue
      simp only [WorkerLoop.step, hloop, hborrow, Option.some.injEq] at h
      subst h
      exact Or.inr rfl
  | stopped | upgradeDone how =>
    rcases ho.2 with ⟨hloop, -⟩ | hloop <;> simp [WorkerLoop.step, hloop] at h

theorem Inv.owes_run {s t : WorkerLoop} {req : UpgradeReq} (hi : s.Inv) (ho : s.Owes req)
    (as : List LoopAct) (hno : ∀ a ∈ as, a ≠ .signal) (h : exec WorkerLoop.step s as = some t) :
    t.Owes req ∨ ∃ rest, t.calls = s.calls ++ req :: rest := by
  have hkeep : t.Inv ∧ (t.Owes req ∧ t.calls = s.calls ∨ s.calls ++ [req] <+: t.calls) := by
    refine exec_along (I := fun u => u.Inv ∧
        (u.Owes req ∧ u.calls = s.calls ∨ s.calls ++ [req] <+: u.calls))
      (G := fun _ a => a ≠ .signal) ?_ s t as ⟨hi, Or.inl ⟨ho, rfl⟩⟩
      (along_of_forall _ (fun _ _ h => h) s as hno) h
    intro u a v hu ha hv
    refine ⟨hu.1.step a hv, ?_⟩
    rcases hu.2 with ⟨howes, hcalls⟩ | hdone
    · rcases hu.1.owes_step a howes ha hv with ⟨howes, hsame⟩ | hnew
      · exact Or.inl ⟨howes, hsame.trans hcalls⟩
      · rw [hnew, hcalls]
        exact Or.inr (List.prefix_refl _)
    · exact Or.inr (hdone.trans (step_calls hv))
  rcases hkeep.2 with ⟨howes, -⟩ | ⟨rest, hrest⟩
  · exact Or.inl howes
  · exact Or.inr ⟨rest, by rw [← hrest, List.append_assoc]; rfl⟩

theorem Inv.take_upgrade_iff {s : WorkerLoop} (hi : s.Inv) (hloop : s.loop = .select) :
    (s.step (.take .upgrade)).isSome = true ↔ s.pending ≠ [] := by
  constructor
  · intro h
    obtain ⟨t, ht⟩ := Option.isSome_iff_exists.mp h
    obtain ⟨-, hunseen, -⟩ := hi.take_unseen ht
    obtain ⟨req, hreq⟩ := Option.isSome_iff_exists.mp (hi.filled (Or.inl hunseen))
    rw [pending, if_pos (Or.inl hunseen), hreq]
    simp
  · intro hp
    obtain ⟨req, -, -, ⟨-, hunseen⟩ | htook⟩ := hi.owes_of_pending (by rw [hloop]; rfl) hp
    · simp [WorkerLoop.step, hloop, Watch.changed, Watch.ready, hunseen]
    · cases hloop.symm.trans htook

end WorkerLoop

/-- For every interleaving: `do_upgrade` has been called once, in order, for each request received
but the one the loop still owes, which it owes until the call unless a signal ends it; the arms are
woken by messages alone; and of the clients at most one can still read a message. -/
theorem upgrade_exactly_once (kind : WorkerKind) (as : List LoopAct) (s : WorkerLoop)
    (hrun : exec WorkerLoop.step (.start kind) as = some s) :
    s.calls <+: s.received ∧
    (s.loop.running = true → s.received = s.calls ++ s.pending ∧
      (s.pending = [] ∨ ∃ req, s.pending = [req] ∧ s.Owes req)) ∧
    (∀ req, s.Owes req → ∀ bs t, (∀ b ∈ bs, b ≠ .signal) → exec WorkerLoop.step s bs = some t →
      t.Owes req ∨ ∃ rest, t.calls = s.calls ++ req :: rest) ∧
    (s.loop = .select → ((s.step (.take .upgrade)).isSome = true ↔ s.pending ≠ []) ∧
      ((s.step (.take .shutdown)).isSome = true → 0 < s.shutdowns)) ∧
    (s.Asked → 0 < s.shutdowns) ∧ s.active ≤ 1 := by
  have hi : s.Inv := exec_invariant (fun _ a _ hi h => hi.step a h) _ s as
    (WorkerLoop.start_inv kind) hrun
  refine ⟨hi.sound, ?_, ?_, ?_, hi.asked, ?_⟩
  · intro hrunning
    refine ⟨hi.once hrunning, ?_⟩
    by_cases hp : s.pending = []
    · exact Or.inl hp
    · exact Or.inr (hi.owes_of_pending hrunning hp)
  · intro req ho bs t hno h
    exact hi.owes_run ho bs hno h
  · intro hloop
    refine ⟨hi.take_upgrade_iff hloop, ?_⟩
    intro h
    obtain ⟨t, ht⟩ := Option.isSome_iff_exists.mp h
    obtain ⟨-, hunseen, -⟩ := hi.take_unseen ht
    exact hi.asked (Or.inl hunseen)
  · have htoken := hi.token
    unfold WorkerLoop.tokens at htoken
    omega

def rolledBackOnce : List LoopAct :=
  [.dial 0 true, .read 0 (.upgrade ⟨none⟩), .take .upgrade, .borrow, .upgradeDone .rolledBack]

/-- Two requests with a rollback and a reconnect between them; the loop owes the second. -/
theorem upgrade_exactly_once_again :
    ∃ s, exec WorkerLoop.step (.start .processor) (rolledBackOnce ++
      [.leave 0, .dial 0 true, .read 0 .closed, .wake 0, .dial 0 true,
        .read 0 (.upgrade ⟨some "next"⟩)]) = some s ∧
      s.received = [⟨none⟩, ⟨some "next"⟩] ∧ s.received = s.calls ++ s.pending ∧
      (s.step (.take .upgrade)).isSome = true ∧ s.active ≤ 1 := by
  have hrun : ∃ s, exec WorkerLoop.step (.start .processor) (rolledBackOnce ++
      [.leave 0, .dial 0 true, .read 0 .closed, .wake 0, .dial 0 true,
        .read 0 (.upgrade ⟨some "next"⟩)]) = some s ∧
      s.received = [⟨none⟩, ⟨some "next"⟩] ∧ s.loop = .select ∧ s.pending ≠ [] :=
    ⟨_, rfl, rfl, rfl, by decide⟩
  obtain ⟨s, hrun, hreceived, hloop, hpending⟩ := hrun
  obtain ⟨-, honce, -, harms, -, hactive⟩ := upgrade_exactly_once .processor _ s hrun
  exact ⟨s, hrun, hreceived, (honce (by rw [hloop]; rfl)).1, (harms hloop).1.mpr hpending, hactive⟩

/-- The loop spawns a client while the one that sent the request is still on its way out. -/
theorem two_control_clients :
    ∃ s, exec WorkerLoop.step (.start .processor) rolledBackOnce = some s ∧
      s.clients = [.leaving, .dialing] ∧ ¬ s.clients.length ≤ 1 :=
  ⟨_, rfl, rfl, by decide⟩

end FiveNinesEcho.Upgrade
