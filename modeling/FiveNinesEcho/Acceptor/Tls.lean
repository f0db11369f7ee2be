import FiveNinesEcho.Acceptor.Plain

/-!
# The TLS bridge (`acceptor/tls_client.rs:58-178`)

`bidirectional_with_idle` with the idle timeout off and no upgrade: two copy loops in one task that
share a cancellation token. A loop that stops for whatever reason cancels the token, and the other
one stops where it is about to read; neither shuts its sink down. Once the token is cancelled the
bridge is torn down after `BRIDGE_DRAIN_GRACE` even with a write in flight. So the end of the
client's stream does not wait for the processor's last echoes, as it does in the plain bridge, and
the processor never sees it.
-/

namespace FiveNinesEcho.Acceptor
open Lib Handoff Processor
variable {C : Codec}

/-- Milliseconds. -/
def bridgeDrainGrace : ℕ := 500

/-- `cancelledAt` is the token, with the time it was cancelled; `tornDown` says that the drain grace
won the `select!` against the two loops. -/
structure Tls (C : Codec) where
  ends : Ends C
  dir1 : Copy Byte
  dir2 : Copy Byte
  now : ℕ
  cancelledAt : Option ℕ
  tornDown : Bool

inductive TlsAct where
  | ends (a : EndsAct)
  | dir1 (a : CopyAct)
  | dir2 (a : CopyAct)
  | tick
  | grace
  deriving Repr, DecidableEq

/-- The token after a loop has moved: the loop cancels it as it stops, and the first cancel
counts. -/
def Tls.token (s : Tls C) (loop : Copy Byte) : Option ℕ :=
  s.cancelledAt <|> if loop.isStopped then some s.now else none

def Tls.step (S : Serde) (s : Tls C) : TlsAct → Option (Tls C)
  | .ends a => (s.ends.step S a).map fun e => { s with ends := e }
  | .dir1 a =>
    if s.ends.opening = [] ∧ s.tornDown = false then
      (s.dir1.step bufferSize (s.ends.upPorts s.cancelledAt.isSome) a).map fun m =>
        { s with ends := s.ends.moveUp m, dir1 := m.loop, cancelledAt := s.token m.loop }
    else none
  | .dir2 a =>
    if s.ends.opening = [] ∧ s.tornDown = false then
      (s.dir2.step bufferSize (s.ends.downPorts s.cancelledAt.isSome) a).map fun m =>
        { s with ends := s.ends.moveDown m, dir2 := m.loop, cancelledAt := s.token m.loop }
    else none
  | .tick => some { s with now := s.now + 1 }
  | .grace => s.cancelledAt.bind fun at_ =>
    if at_ + bridgeDrainGrace ≤ s.now ∧ s.tornDown = false then some { s with tornDown := true }
    else none

def bidirectionalWithIdle (C : Codec) (S : Serde) (c : AcceptedClient) (input : Bytes)
    (b : Buffers) (fd : Fd) (now : ℕ) : Tls C :=
  { ends := Ends.start C (openProcessorSession S c "tls") input b fd now
    dir1 := .reading
    dir2 := .reading
    now := now
    cancelledAt := none
    tornDown := false }

def Tls.returned (s : Tls C) : Bool := s.tornDown || (s.dir1.isStopped && s.dir2.isStopped)

def TlsAct.orderly : TlsAct → Bool
  | .ends (.client .hangup) | .dir1 .fail | .dir2 .fail => false
  | _ => true

theorem TlsAct.orderly_ends (a : EndsAct) :
    (TlsAct.ends a).orderly = true ↔ a ≠ .client .hangup := by
  rcases a with (b | b | b | b) | n | b <;> simp [TlsAct.orderly]

theorem TlsAct.orderly_dir1 (a : CopyAct) : (TlsAct.dir1 a).orderly = true ↔ a ≠ .fail := by
  cases a <;> simp [TlsAct.orderly]

theorem TlsAct.orderly_dir2 (a : CopyAct) : (TlsAct.dir2 a).orderly = true ↔ a ≠ .fail := by
  cases a <;> simp [TlsAct.orderly]

/-! ### What is lost -/

def afterLine (xs : Bytes) : Bytes := (xs.dropWhile (· != newline)).drop 1

/-- What the processor would still write if its input ended behind the bytes in the socket. -/
def Incoming.owes (inbox : Bytes) : Incoming C → Bytes
  | .dispatching t => match t.pc with
    | .ready _ => reply (t.framed.readBuf ++ inbox)
    | _ => reply (afterLine (t.framed.readBuf ++ inbox))
  | .session t =>
    if t.pc = .ended then [] else t.owed ++ reply (t.framed.readBuf ++ inbox)
  | .sidecar _ | .dropped => []

/-- When the loop from the client reads the end of the stream, the other loop has read back all that
the processor wrote, and the processor has nothing more to write; and the drain grace does not end
with a write towards the client in flight. -/
def Tls.Settled (s : Tls C) (a : TlsAct) : Prop :=
  (a = .dir1 .eof → s.ends.uds.taken = s.ends.uds.wire.length ∧
    s.ends.conn.owes s.ends.uds.inbox = []) ∧
  (a = .grace → s.dir2.held = [])

instance decidableSettled (s : Tls C) (a : TlsAct) : Decidable (s.Settled a) :=
  inferInstanceAs (Decidable (_ ∧ _))

theorem afterLine_line (l r : Bytes) (h : newline ∉ l) : afterLine (l ++ newline :: r) = r := by
  have hdrop : (l ++ newline :: r).dropWhile (· != newline) = newline :: r := by
    rw [List.dropWhile_append_of_pos]
    · simp
    · intro x hx
      simp only [bne_iff_ne, ne_eq]
      exact fun he => h (he ▸ hx)
  rw [afterLine, hdrop]
  rfl

/-- With nothing upstream of the socket, what was written and what is owed are the whole answer. -/
theorem Incoming.On.owes {S : Serde} {line input wire inbox : Bytes} {c : Incoming C}
    (hS : S.Opens line) (h : c.On line input wire inbox) : wire ++ c.owes inbox = reply input := by
  cases c with
  | session t =>
    by_cases hp : t.pc = .ended
    · have hend := Steady.ended h (by simp only [Task.alive, hp])
      simp only [Incoming.owes, hp, if_true, List.append_nil, hend.2]
    · have ha : t.alive = true := by
        cases ha : t.alive with
        | true => rfl
        | false => exact absurd (Steady.ended h ha).1 hp
      have hdue := Steady.due h ha
      rw [List.append_assoc] at hdue
      simp only [Incoming.owes, hp, if_false, hdue]
  | dispatching t =>
    rw [Opening.silent h, List.nil_append]
    rcases Opening.stage h with ⟨hp, hstream⟩ | ⟨hp, hstream⟩
    · have hafter : afterLine (t.framed.readBuf ++ inbox) = input := by
        rw [hstream]
        exact afterLine_line line input hS.one_line
      rcases hp with hp | hp <;> simp only [Incoming.owes, hp, hafter]
    · simp only [Incoming.owes, hp, hstream]
  | sidecar f => exact h.elim
  | dropped => exact h.elim

/-! ### The invariant of a run -/

structure Tls.Inv (line input : Bytes) (s : Tls C) : Prop where
  ledger : Ledger line input s.ends s.dir1 s.dir2
  uncancelled : s.cancelledAt = none →
    s.dir1.isStopped = false ∧ s.dir2.isStopped = false ∧ s.tornDown = false

theorem Tls.token_none {s : Tls C} {loop : Copy Byte} (h : s.token loop = none) :
    s.cancelledAt = none ∧ loop.isStopped = false := by
  unfold Tls.token at h
  cases hc : s.cancelledAt with
  | none => simpa [hc] using h
  | some n => simp [hc] at h

theorem bidirectionalWithIdle_inv (C : Codec) (S : Serde) (c : AcceptedClient) (input : Bytes)
    (b : Buffers) (fd : Fd) (now : ℕ) :
    (bidirectionalWithIdle C S c input b fd now).Inv (S.toString (c.preamble "tls")) input :=
  ⟨Ledger.start _ input b fd now, fun _ => ⟨rfl, rfl, rfl⟩⟩

section Run
variable {S : Serde} {line input : Bytes} {s s' : Tls C}

/-- What a step of the bridge can be. -/
theorem Tls.step_cases (a : TlsAct) (ha : a.orderly = true) (h : s.step S a = some s') :
    (∃ b e, a = .ends b ∧ b ≠ .client .hangup ∧ s.ends.step S b = some e ∧
      s' = { s with ends := e }) ∨
    (∃ b m, a = .dir1 b ∧ b ≠ .fail ∧ s.ends.opening = [] ∧ s.tornDown = false ∧
      s.dir1.step bufferSize (s.ends.upPorts s.cancelledAt.isSome) b = some m ∧
      s' = { s with ends := s.ends.moveUp m, dir1 := m.loop, cancelledAt := s.token m.loop }) ∨
    (∃ b m, a = .dir2 b ∧ b ≠ .fail ∧ s.ends.opening = [] ∧ s.tornDown = false ∧
      s.dir2.step bufferSize (s.ends.downPorts s.cancelledAt.isSome) b = some m ∧
      s' = { s with ends := s.ends.moveDown m, dir2 := m.loop, cancelledAt := s.token m.loop }) ∨
    (a = .tick ∧ s' = { s with now := s.now + 1 }) ∨
    (a = .grace ∧ s.cancelledAt ≠ none ∧ s' = { s with tornDown := true }) := by
  cases a with
  | ends b =>
    simp only [Tls.step, Option.map_eq_some_iff] at h
    obtain ⟨e, he, rfl⟩ := h
    exact Or.inl ⟨b, e, rfl, (TlsAct.orderly_ends b).mp ha, he, rfl⟩
  | dir1 b =>
    simp only [Tls.step, Option.ite_none_right_eq_some, Option.map_eq_some_iff] at h
    obtain ⟨⟨hopen, htorn⟩, m, hm, rfl⟩ := h
    have hb := (TlsAct.orderly_dir1 b).mp ha
    exact Or.inr (Or.inl ⟨b, m, rfl, hb, hopen, htorn, hm, rfl⟩)
  | dir2 b =>
    simp only [Tls.step, Option.ite_none_right_eq_some, Option.map_eq_some_iff] at h
    obtain ⟨⟨hopen, htorn⟩, m, hm, rfl⟩ := h
    have hb := (TlsAct.orderly_dir2 b).mp ha
    exact Or.inr (Or.inr (Or.inl ⟨b, m, rfl, hb, hopen, htorn, hm, rfl⟩))
  | tick =>
    simp only [Tls.step, Option.some.injEq] at h
    exact Or.inr (Or.inr (Or.inr (Or.inl ⟨rfl, h.symm⟩)))
  | grace =>
    simp only [Tls.step, Option.bind_eq_some_iff, Option.ite_none_right_eq_some,
      Option.some.injEq] at h
    obtain ⟨n, hn, -, rfl⟩ := h
    exact Or.inr (Or.inr (Or.inr (Or.inr ⟨rfl, by simp [hn], rfl⟩)))

theorem Tls.step_inv (hC : C.Strict) (hS : S.Opens line) (a : TlsAct) (ha : a.orderly = true)
    (hi : s.Inv line input) (h : s.step S a = some s') : s'.Inv line input := by
  rcases Tls.step_cases a ha h with ⟨b, e, -, hb, he, rfl⟩ | ⟨b, m, -, hb, hopen, -, hm, rfl⟩ |
    ⟨b, m, -, hb, -, -, hm, rfl⟩ | ⟨-, rfl⟩ | ⟨-, hc, rfl⟩
  · exact ⟨hi.ledger.ends hC hS b hb e he, hi.uncancelled⟩
  · refine ⟨hi.ledger.moveUp hopen bufferSize _ b hb m hm, ?_⟩
    intro hnone
    obtain ⟨hn, hrun⟩ := Tls.token_none hnone
    exact ⟨hrun, (hi.uncancelled hn).2⟩
  · refine ⟨hi.ledger.moveDown bufferSize _ b hb m hm, ?_⟩
    intro hnone
    obtain ⟨hn, hrun⟩ := Tls.token_none hnone
    exact ⟨(hi.uncancelled hn).1, hrun, (hi.uncancelled hn).2.2⟩
  · exact ⟨hi.ledger, hi.uncancelled⟩
  · exact ⟨hi.ledger, fun hn => absurd hn hc⟩

/-! ### The end of the stream -/

/-- The bridge was asked to stop with an echo it will not read, or was torn down with one in its
hands. -/
def Tls.Lost (input : Bytes) (s : Tls C) : Prop :=
  s.cancelledAt ≠ none ∧ (s.ends.uds.taken < (reply input).length ∨
    (s.tornDown = true ∧ s.dir2.held ≠ []))

theorem Tls.token_some (loop : Copy Byte) (h : s.cancelledAt ≠ none) : s.token loop ≠ none := by
  intro hn
  exact h (Tls.token_none hn).1

/-- Once the token is cancelled nothing more is read back from the processor. -/
theorem Tls.step_cancelled (a : TlsAct) (ha : a.orderly = true) (h : s.step S a = some s')
    (hc : s.cancelledAt ≠ none) :
    s'.cancelledAt ≠ none ∧ s'.ends.uds.taken = s.ends.uds.taken ∧
    (s.tornDown = true → s'.tornDown = true ∧ s'.dir2 = s.dir2) ∧
    (s.tornDown = false → s'.tornDown = true → a = .grace ∧ s'.dir2 = s.dir2) := by
  rcases Tls.step_cases a ha h with ⟨b, e, -, hb, he, rfl⟩ | ⟨b, m, -, hb, -, ht, hm, rfl⟩ |
    ⟨b, m, -, hb, -, ht, hm, rfl⟩ | ⟨-, rfl⟩ | ⟨rfl, -, rfl⟩
  · obtain ⟨-, -, htaken, -⟩ := Ends.step_frame S _ _ b he
    exact ⟨hc, htaken, fun ht => ⟨ht, rfl⟩, fun hf ht => absurd (hf.symm.trans ht) (by simp)⟩
  · refine ⟨Tls.token_some _ hc, rfl, fun htr => absurd (ht.symm.trans htr) (by simp), ?_⟩
    exact fun _ htr => absurd (ht.symm.trans htr) (by simp)
  · have hnone : m.taken = 0 := by
      rcases Copy.step_cases _ _ _ b m hb hm with ⟨n, -, -, hs, -⟩ | ⟨-, -, -, -, -, rfl⟩ |
        ⟨-, -, -, rfl⟩ | ⟨n, left, -, -, -, -, -, hzero, -⟩
      · exact absurd (Option.isSome_eq_false_iff.mp hs) (by simpa using hc)
      · rfl
      · rfl
      · exact hzero
    refine ⟨Tls.token_some _ hc, ?_, fun htr => absurd (ht.symm.trans htr) (by simp), ?_⟩
    · simp only [Ends.moveDown, hnone, Nat.add_zero]
    · exact fun _ htr => absurd (ht.symm.trans htr) (by simp)
  · exact ⟨hc, rfl, fun ht => ⟨ht, rfl⟩, fun hf ht => absurd (hf.symm.trans ht) (by simp)⟩
  · exact ⟨hc, rfl, fun _ => ⟨rfl, rfl⟩, fun _ _ => ⟨rfl, rfl⟩⟩

/-- What cancels the token: the end of the client's stream, with the whole of it handed on, or the
processor closing, with the whole answer read back. -/
theorem Tls.step_cancels (hi : s.Inv line input) (a : TlsAct) (ha : a.orderly = true)
    (h : s.step S a = some s') (hn : s.cancelledAt = none) (hc : s'.cancelledAt ≠ none) :
    s'.tornDown = false ∧
    ((a = .dir1 .eof ∧ s.ends.upstream s.dir1 = [] ∧ s'.ends.uds.taken = s.ends.uds.taken) ∨
      (a = .dir2 .eof ∧ (reply input).length ≤ s'.ends.uds.taken)) := by
  have htorn := (hi.uncancelled hn).2.2
  have hsome : s.cancelledAt.isSome = false := by simp [hn]
  rcases Tls.step_cases a ha h with ⟨b, e, -, -, -, rfl⟩ | ⟨b, m, rfl, hb, hopen, -, hm, rfl⟩ |
    ⟨b, m, rfl, hb, -, -, hm, rfl⟩ | ⟨-, rfl⟩ | ⟨-, hcan, -⟩
  · exact absurd hn hc
  · have hstop : m.loop.isStopped = true := by simpa [Tls.token, hn] using hc
    obtain ⟨rfl, hread, hready, hended, rfl⟩ := Copy.step_stops _ _ _ b m hb hsome hm hstop
    simp only [Ends.upPorts] at hready hended
    refine ⟨htorn, Or.inl ⟨rfl, ?_, rfl⟩⟩
    simp [Ends.upstream, hopen, hread, hready, hi.ledger.fin hended, Copy.held]
  · have hstop : m.loop.isStopped = true := by simpa [Tls.token, hn] using hc
    obtain ⟨rfl, -, hready, hended, rfl⟩ := Copy.step_stops _ _ _ b m hb hsome hm hstop
    simp only [Ends.downPorts, List.drop_eq_nil_iff] at hready hended
    refine ⟨htorn, Or.inr ⟨rfl, ?_⟩⟩
    rw [← hi.ledger.conn.closed hended]
    exact hready
  · exact absurd hn hc
  · exact absurd hn hcan

theorem Tls.Lost.step (a : TlsAct) (ha : a.orderly = true) (hl : s.Lost input)
    (h : s.step S a = some s') : s'.Lost input := by
  obtain ⟨hc, hl⟩ := hl
  obtain ⟨hc', htaken, htorn, -⟩ := Tls.step_cancelled a ha h hc
  refine ⟨hc', ?_⟩
  rcases hl with hlt | ⟨ht, hheld⟩
  · left
    rw [htaken]
    exact hlt
  · obtain ⟨ht', hsame⟩ := htorn ht
    right
    rw [hsame]
    exact ⟨ht', hheld⟩

/-- At the end of the client's stream the bridge has read the whole answer back exactly if nothing
is unread and the processor owes nothing. -/
theorem Tls.Inv.settled_iff (hS : S.Opens line) (hi : s.Inv line input)
    (hup : s.ends.upstream s.dir1 = []) :
    (s.ends.uds.taken = s.ends.uds.wire.length ∧ s.ends.conn.owes s.ends.uds.inbox = []) ↔
      (reply input).length ≤ s.ends.uds.taken := by
  have hconn := hi.ledger.conn
  rw [hup, List.append_nil] at hconn
  have hlen := congrArg List.length (Incoming.On.owes hS hconn)
  have hle := hi.ledger.taken
  rw [List.length_append] at hlen
  constructor
  · intro ⟨htaken, howes⟩
    rw [howes, List.length_nil] at hlen
    omega
  · intro hge
    refine ⟨by omega, ?_⟩
    apply List.length_eq_zero_iff.mp
    omega

theorem Tls.step_eof (h : s.step S (.dir1 .eof) = some s') :
    s.cancelledAt = none ∧ s'.cancelledAt ≠ none := by
  simp only [Tls.step, Option.ite_none_right_eq_some, Option.map_eq_some_iff] at h
  obtain ⟨-, m, hm, rfl⟩ := h
  rcases Copy.step_cases _ _ _ _ m (by simp) hm with ⟨n, he, -⟩ | ⟨-, -, hs, -, -, rfl⟩ | ⟨he, -⟩ |
    ⟨n, left, he, -⟩
  · cases he
  · have hn : s.cancelledAt = none := by simpa [Ends.upPorts] using hs
    exact ⟨hn, by simp [Tls.token, hn, Copy.isStopped]⟩
  · cases he
  · cases he

theorem Tls.unsettled_lost (hS : S.Opens line) (hi : s.Inv line input) (a : TlsAct)
    (ha : a.orderly = true) (h : s.step S a = some s') (hg : ¬ s.Settled a) : s'.Lost input := by
  rw [Tls.Settled, not_and_or, Classical.not_imp, Classical.not_imp] at hg
  rcases hg with ⟨rfl, hg⟩ | ⟨rfl, hheld⟩
  · obtain ⟨hn, hc⟩ := Tls.step_eof h
    obtain ⟨-, ⟨-, hup, htaken⟩ | ⟨he, -⟩⟩ := Tls.step_cancels hi _ ha h hn hc
    · refine ⟨hc, Or.inl ?_⟩
      rw [hi.settled_iff hS hup, Nat.not_le] at hg
      rw [htaken]
      exact hg
    · cases he
  · obtain ⟨b, e, he, -⟩ | ⟨b, m, he, -⟩ | ⟨b, m, he, -⟩ | ⟨he, -⟩ | ⟨-, hc, rfl⟩ :=
      Tls.step_cases _ ha h
    · cases he
    · cases he
    · cases he
    · cases he
    · exact ⟨hc, Or.inr ⟨rfl, hheld⟩⟩

theorem Tls.settled_kept (hS : S.Opens line) (hi : s.Inv line input) (a : TlsAct)
    (ha : a.orderly = true) (h : s.step S a = some s') (hg : s.Settled a)
    (hl : ¬ s.Lost input) : ¬ s'.Lost input := by
  intro ⟨hc', hlost⟩
  by_cases hn : s.cancelledAt = none
  · obtain ⟨htorn, ⟨rfl, hup, htaken⟩ | ⟨rfl, hge⟩⟩ := Tls.step_cancels hi a ha h hn hc'
    · have hge := (hi.settled_iff hS hup).mp (hg.1 rfl)
      rcases hlost with hlt | ⟨ht, -⟩
      · omega
      · exact absurd (htorn.symm.trans ht) (by simp)
    · rcases hlost with hlt | ⟨ht, -⟩
      · omega
      · exact absurd (htorn.symm.trans ht) (by simp)
  · obtain ⟨-, htaken, htorn, hgrace⟩ := Tls.step_cancelled a ha h hn
    apply hl
    refine ⟨hn, ?_⟩
    rcases hlost with hlt | ⟨ht, hheld⟩
    · left
      rw [← htaken]
      exact hlt
    · right
      cases hs : s.tornDown with
      | true => exact ⟨rfl, (htorn hs).2 ▸ hheld⟩
      | false =>
        obtain ⟨hact, hsame⟩ := hgrace hs ht
        exact absurd (hg.2 hact) (hsame ▸ hheld)

/-- A bridge that has returned has written the whole answer exactly if nothing was lost. -/
theorem Tls.Inv.returned_iff (hi : s.Inv line input) (hr : s.returned = true) :
    s.ends.client.wire = reply input ↔ ¬ s.Lost input := by
  have hf := hi.ledger.forwarded
  have hle := hi.ledger.taken
  have hpre := hi.ledger.conn.written
  have hlen := congrArg List.length hf
  have hwire := hpre.length_le
  simp only [List.length_append, List.length_take] at hlen
  have hc : s.cancelledAt ≠ none := by
    intro hn
    obtain ⟨h1, -, ht⟩ := hi.uncancelled hn
    simp [Tls.returned, h1, ht] at hr
  constructor
  · intro heq hl
    obtain ⟨-, hlost⟩ := hl
    rw [heq] at hlen
    rcases hlost with hlt | ⟨-, hheld⟩
    · omega
    · have hpos := List.length_pos_iff.mpr hheld
      omega
  · intro hl
    have hge : (reply input).length ≤ s.ends.uds.taken := by
      by_contra hlt
      exact hl ⟨hc, Or.inl (Nat.not_le.mp hlt)⟩
    have hheld : s.dir2.held = [] := by
      cases ht : s.tornDown with
      | true =>
        by_contra hne
        exact hl ⟨hc, Or.inr ⟨ht, hne⟩⟩
      | false =>
        simp only [Tls.returned, ht, Bool.false_or, Bool.and_eq_true] at hr
        rw [(Copy.isStopped_iff _).mp hr.2]
        rfl
    have hall : s.ends.uds.wire = reply input := hpre.eq_of_length (by omega)
    rw [hheld, List.append_nil, List.take_of_length_le (by omega), hall] at hf
    exact hf

theorem Tls.along_settled_iff (hC : C.Strict) (hS : S.Opens line) (as : List TlsAct)
    (hi : s.Inv line input) (hs : s.cancelledAt = none)
    (ha : ∀ a ∈ as, TlsAct.orderly a = true) (h : exec (Tls.step S) s as = some s') :
    s'.Inv line input ∧ (Along (Tls.step S) Tls.Settled s as ↔ ¬ s'.Lost input) := by
  have horder : Along (Tls.step S) (fun _ a => TlsAct.orderly a = true) s as :=
    along_of_forall _ (fun _ _ h => h) s as ha
  have hinv : s'.Inv line input := by
    refine exec_along (G := fun _ a => TlsAct.orderly a = true) ?_ s s' as hi horder h
    exact fun s a t hi ha ht => Tls.step_inv hC hS a ha hi ht
  refine ⟨hinv, ⟨?_, ?_⟩⟩
  · intro hg
    have hboth : Along (Tls.step S) (fun s a => TlsAct.orderly a = true ∧ s.Settled a) s as :=
      along_and horder hg
    refine (exec_along (I := fun s => s.Inv line input ∧ ¬ s.Lost input) ?_ s s' as
      ⟨hi, fun hl => hl.1 hs⟩ hboth h).2
    intro s a t hs hg ht
    exact ⟨Tls.step_inv hC hS a hg.1 hs.1 ht, Tls.settled_kept hS hs.1 a hg.1 ht hg.2 hs.2⟩
  · intro hl
    refine along_of_end (I := fun s => s.Inv line input) (P := fun a => TlsAct.orderly a = true)
      ?_ ?_ s s' as hi ha h hl
    · intro s a t hi ha ht
      exact ⟨Tls.step_inv hC hS a ha hi ht, Tls.unsettled_lost hS hi a ha ht⟩
    · intro s a t _ hl ha ht
      exact hl.step a ha ht

end Run

/-! ### The two bridges side by side -/

theorem tls_role_short : ("tls" : String).utf8ByteSize ≤ 5 := by decide

/-- The TLS bridge against the plain bridge. Take any stream followed by a half-close, any two
chunkings and schedules of the two bridges in front of the same processor, with no upgrade, no idle
timeout and no I/O error, and let both bridges return. They have written the same bytes towards
their clients exactly if the run of the TLS bridge was settled: it read the end of the stream only
when every echo had been read back, and was not torn down with an echo in its hands. -/
theorem tls_delivers_like_plain (S : Serde) (c d : AcceptedClient) (input : Bytes)
    (b b' : Buffers) (fd fd' : Fd) (now now' : ℕ) (hplain : S.Faithful (c.preamble "plain"))
    (htls : S.Faithful (d.preamble "tls")) (ps : List PlainAct) (p : Plain linesCodec)
    (hps : ∀ a ∈ ps, PlainAct.orderly a = true)
    (hp : exec (Plain.step S) (bridgePlainViaUds linesCodec S c input b fd now) ps = some p)
    (hpr : p.returned = true) (ts : List TlsAct) (t : Tls linesCodec)
    (hts : ∀ a ∈ ts, TlsAct.orderly a = true)
    (ht : exec (Tls.step S) (bidirectionalWithIdle linesCodec S d input b' fd' now') ts = some t)
    (htr : t.returned = true) :
    t.ends.client.wire = p.ends.client.wire ↔
      Along (Tls.step S) Tls.Settled (bidirectionalWithIdle linesCodec S d input b' fd' now') ts := by
  have hwhole : p.ends.client.wire = reply input := by
    have hinv := Plain.exec_inv linesCodec_strict (hplain.opens plain_role_short) _ p ps
      (bridgePlainViaUds_inv linesCodec S c input b fd now) hps hp
    simp only [Plain.returned, Bool.and_eq_true] at hpr
    exact hinv.drained hpr.2
  obtain ⟨hinv, hiff⟩ := Tls.along_settled_iff linesCodec_strict (htls.opens tls_role_short) ts
    (bidirectionalWithIdle_inv linesCodec S d input b' fd' now') rfl hts ht
  rw [hwhole, hiff]
  exact hinv.returned_iff htr

theorem localSerde_tls : localSerde.Faithful (localClient.preamble "tls") := by
  refine ⟨by decide, by decide, by decide, by decide, by decide⟩

/-- The plain bridge from the first byte to its return. -/
def plainToReturn : List PlainAct :=
  coalescedRun ++ [.down (.read 1), .down (.write 1), .ends (.client .shut), .up .eof,
    .ends (.proc .poll), .ends (.proc .poll), .ends (.proc .recvEof), .ends (.proc .poll), .down .eof]

/-- The client waits for its echo before it closes, as a ping-pong test does. -/
def patientRun : List TlsAct :=
  [.ends (.client (.send 3)), .ends (.preamble 95), .dir1 (.read 3), .dir1 (.write 3),
    .ends (.proc .poll), .ends (.proc (.recv 98)), .ends (.proc .poll), .ends (.proc .poll),
    .ends (.proc .poll), .ends (.proc .poll), .ends (.proc .poll), .ends (.proc (.write 3)),
    .dir2 (.read 3), .dir2 (.write 3), .ends (.client (.take 3)), .ends (.client .shut),
    .ends (.proc .poll), .ends (.proc .poll), .dir1 .eof, .dir2 .stop]

/-- The client sends its line and closes; the end of the stream overtakes the echo. -/
def hastyRun : List TlsAct :=
  [.ends (.client (.send 3)), .ends (.client .shut), .ends (.preamble 95), .dir1 (.read 3),
    .dir1 (.write 3), .dir1 .eof, .dir2 .stop]

theorem plain_hi_returns :
    ∃ p : Plain linesCodec,
      exec (Plain.step localSerde)
        (bridgePlainViaUds linesCodec localSerde localClient [104, 105, 10] localBuffers 7 0)
        plainToReturn = some p ∧
      p.returned = true ∧ p.ends.client.wire = [104, 105, 10] := by
  have hend : (exec (Plain.step localSerde)
      (bridgePlainViaUds linesCodec localSerde localClient [104, 105, 10] localBuffers 7 0)
      plainToReturn).map (fun p => (p.returned, p.ends.client.wire)) =
      some (true, [104, 105, 10]) := by decide
  obtain ⟨p, hp, hends⟩ := Option.map_eq_some_iff.mp hend
  simp only [Prod.mk.injEq] at hends
  exact ⟨p, hp, hends⟩

theorem tls_patient_like_plain :
    ∃ (p : Plain linesCodec) (t : Tls linesCodec),
      exec (Plain.step localSerde)
        (bridgePlainViaUds linesCodec localSerde localClient [104, 105, 10] localBuffers 7 0)
        plainToReturn = some p ∧ p.returned = true ∧
      exec (Tls.step localSerde)
        (bidirectionalWithIdle linesCodec localSerde localClient [104, 105, 10] localBuffers 8 0)
        patientRun = some t ∧ t.returned = true ∧
      t.ends.client.wire = p.ends.client.wire := by
  obtain ⟨p, hp, hpr, -⟩ := plain_hi_returns
  have hend : (exec (Tls.step localSerde)
      (bidirectionalWithIdle linesCodec localSerde localClient [104, 105, 10] localBuffers 8 0)
      patientRun).map Tls.returned = some true := by decide
  obtain ⟨t, ht, htr⟩ := Option.map_eq_some_iff.mp hend
  refine ⟨p, t, hp, hpr, ht, htr, ?_⟩
  exact (tls_delivers_like_plain localSerde localClient localClient [104, 105, 10] localBuffers
    localBuffers 7 8 0 0 localSerde_plain localSerde_tls plainToReturn p (by decide) hp hpr
    patientRun t (by decide) ht htr).mpr (by decide)

/-- The same line over the two bridges: the plain client gets its echo, the TLS client nothing. -/
theorem tls_drops_last_echo :
    (∃ p : Plain linesCodec,
      exec (Plain.step localSerde)
        (bridgePlainViaUds linesCodec localSerde localClient [104, 105, 10] localBuffers 7 0)
        plainToReturn = some p ∧ (∀ a ∈ plainToReturn, PlainAct.orderly a = true) ∧
      p.returned = true ∧ p.ends.client.wire = [104, 105, 10]) ∧
    ∃ t : Tls linesCodec,
      exec (Tls.step localSerde)
        (bidirectionalWithIdle linesCodec localSerde localClient [104, 105, 10] localBuffers 8 0)
        hastyRun = some t ∧ (∀ a ∈ hastyRun, TlsAct.orderly a = true) ∧
      t.returned = true ∧ t.ends.client.wire = [] := by
  obtain ⟨p, hp, hpr, hpw⟩ := plain_hi_returns
  have hend : (exec (Tls.step localSerde)
      (bidirectionalWithIdle linesCodec localSerde localClient [104, 105, 10] localBuffers 8 0)
      hastyRun).map (fun t => (t.returned, t.ends.client.wire)) = some (true, []) := by decide
  obtain ⟨t, ht, hends⟩ := Option.map_eq_some_iff.mp hend
  simp only [Prod.mk.injEq] at hends
  exact ⟨⟨p, hp, by decide, hpr, hpw⟩, t, ht, by decide, hends.1, hends.2⟩

end FiveNinesEcho.Acceptor
