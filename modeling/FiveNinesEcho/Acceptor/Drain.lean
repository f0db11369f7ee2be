import FiveNinesEcho.Lib.Exec
import FiveNinesEcho.Lib.Lane
import FiveNinesEcho.Processor.Codec

/-!
# Draining one TLS session (`acceptor/tls_drain.rs:339-445`)

`drain_one_tls_session`, the poll loop of the drainer child, one system call a step. rustls is a
FIFO lane in each direction: plaintext on its way from the client to the UDS, and output on its way
from the UDS to the client, counted in the bytes that went in. The loop has four ways of returning
`Ok`, and none of them looks at what the lanes still hold.
-/

namespace FiveNinesEcho.Acceptor
open Lib Processor

/-- Where the loop is. `uds` is what the poll said of the UDS, which is looked at after the TCP
socket; `sending` has that many bytes of its buffer left to write. -/
inductive DrainPc where
  | setup
  | head
  | poll
  | tcp (uds : Bool)
  | reader (uds : Bool)
  | sending (left : ℕ) (uds : Bool)
  | uds
  | flush
  | done (ok : Bool)
  deriving Repr, DecidableEq

/-- `inbound` is put in by the TLS layer as it decrypts and comes out on the UDS, `outbound` goes in
from the UDS and comes out on the socket. `idle` is the time since the last progress. `unread` says
that the plaintext of the handoff has not been asked for: rustls is only read after a `read_tls`. -/
structure Drain where
  pc : DrainPc
  inbound : Lane Byte
  outbound : Lane Byte
  idle : ℕ
  unread : Bool

def Drain.wantsWrite (s : Drain) : Bool := !s.outbound.pending.isEmpty

def drainBuffer : ℕ := 8192
def idleTimeout : ℕ := 1500
def pollTimeout : ℕ := 250

/-- What the calls answer: `skip` goes on where there is nothing to do, `blocks` is `WouldBlock`,
`zero` a write that takes nothing, `timeout` a poll that reports nothing after that long. -/
inductive DrainAct where
  | skip
  | blocks
  | fail
  | eof
  | zero
  | writeTls (n : ℕ)
  | interrupted
  | timeout (waited : ℕ)
  | ready (tcp uds : Bool)
  | readTls (decrypted : Bytes)
  | read (n : ℕ)
  | writeUds (n : ℕ)
  | readUds (bs : Bytes)
  | tick (d : ℕ)
  deriving Repr, DecidableEq

/-- The plaintext and the output a call brings in. -/
def DrainAct.brings : DrainAct → Bytes × Bytes
  | .readTls decrypted => (decrypted, [])
  | .readUds bs => ([], bs)
  | _ => ([], [])

def afterTcp (uds : Bool) : DrainPc := if uds then .uds else .head

def Drain.at (s : Drain) (pc : DrainPc) : Drain := { s with pc := pc }

/-- The next call of the loop and what follows from its answer. -/
def Drain.call (s : Drain) (a : DrainAct) : Option Drain :=
  match s.pc, a with
  | .setup, .skip => some (s.at .head)
  | .setup, .fail => some (s.at (.done false))
  | .head, .skip => if s.wantsWrite then none else some (s.at .poll)
  | .head, .writeTls n =>
    if s.wantsWrite = true ∧ n ≤ s.outbound.pending.length then
      some { s with pc := .poll, outbound := s.outbound.take n, idle := 0 }
    else none
  | .head, .blocks => if s.wantsWrite then some (s.at .poll) else none
  | .head, .fail => if s.wantsWrite then some (s.at (.done false)) else none
  | .poll, .interrupted => some (s.at .head)
  | .poll, .fail => some (s.at (.done false))
  | .poll, .timeout waited =>
    if pollTimeout ≤ waited then
      some { s with
        pc := if idleTimeout < s.idle + waited then .done true else .head
        idle := s.idle + waited }
    else none
  | .poll, .ready tcp uds => some (s.at (if tcp then .tcp uds else afterTcp uds))
  | .tcp _, .eof => some (s.at (.done true))
  | .tcp uds, .readTls decrypted =>
    some { s with pc := .reader uds, inbound := s.inbound.push decrypted, unread := false }
  | .tcp uds, .blocks => some (s.at (afterTcp uds))
  | .tcp _, .fail => some (s.at (.done false))
  | .reader uds, .read n =>
    if 0 < n ∧ n ≤ drainBuffer ∧ n ≤ s.inbound.pending.length then some (s.at (.sending n uds))
    else none
  | .reader uds, .skip => if s.inbound.pending = [] then some (s.at (afterTcp uds)) else none
  | .reader _, .fail => some (s.at (.done false))
  | .sending left uds, .writeUds n =>
    if 0 < n ∧ n ≤ left then
      if n = left then some { s with pc := .reader uds, inbound := s.inbound.take n, idle := 0 }
      else some { s with pc := .sending (left - n) uds, inbound := s.inbound.take n }
    else none
  | .sending _ _, .zero => some (s.at (.done true))
  | .sending _ _, .blocks => some s
  | .sending _ _, .fail => some (s.at (.done false))
  | .uds, .eof => some (s.at (.done true))
  | .uds, .readUds bs =>
    if bs ≠ [] ∧ bs.length ≤ drainBuffer then
      some { s with pc := .flush, outbound := s.outbound.push bs, idle := 0 }
    else none
  | .uds, .blocks => some (s.at .head)
  | .uds, .fail => some (s.at (.done false))
  | .flush, .skip => if s.wantsWrite then none else some (s.at .head)
  | .flush, .writeTls n =>
    if s.wantsWrite = true ∧ n ≤ s.outbound.pending.length then
      some { s with outbound := s.outbound.take n }
    else none
  | .flush, .blocks => if s.wantsWrite then some (s.at .head) else none
  | .flush, .fail => if s.wantsWrite then some (s.at (.done false)) else none
  | _, _ => none

def DrainPc.returned : DrainPc → Bool
  | .done _ => true
  | _ => false

def Drain.step (s : Drain) : DrainAct → Option Drain
  | .tick d => if s.pc.returned then none else some { s with idle := s.idle + d }
  | a => s.call a

/-- A session as it was handed over: plaintext nobody has read and output nobody has written. -/
def drainOneTlsSession (plaintext output : Bytes) : Drain :=
  { pc := .setup
    inbound := .ofPending plaintext
    outbound := .ofPending output
    idle := 0
    unread := !plaintext.isEmpty }

/-- Every plaintext byte is on the UDS and every byte read from there on the socket, with all that
was handed over. -/
structure Drain.Kept (s : Drain) : Prop where
  inbound : s.inbound.got = s.inbound.put
  outbound : s.outbound.got = s.outbound.put

/-- No write to the UDS takes nothing; and in the round that returns, the socket has taken all the
output at the head of the loop, and the plaintext of the handoff has been asked for. -/
def Drain.Lossless (s : Drain) : DrainAct → Prop
  | .zero => False
  | .eof => s.wantsWrite = false ∧ s.unread = false
  | .timeout waited => idleTimeout < s.idle + waited → s.wantsWrite = false ∧ s.unread = false
  | _ => True

instance decidableLossless (s : Drain) : ∀ a, Decidable (s.Lossless a)
  | .zero => isFalse id
  | .eof => inferInstanceAs (Decidable (s.wantsWrite = false ∧ s.unread = false))
  | .timeout waited => inferInstanceAs (Decidable
      (idleTimeout < s.idle + waited → s.wantsWrite = false ∧ s.unread = false))
  | .skip | .blocks | .fail | .writeTls _ | .interrupted | .ready .. | .readTls _ | .read _
  | .writeUds _ | .readUds _ | .tick _ => isTrue trivial

/-! ### What a step can do -/

/-- Not between a `read_tls` and the end of what it brought. -/
def DrainPc.between : DrainPc → Bool
  | .reader _ | .sending _ _ | .done _ => false
  | _ => true

inductive DrainMove (s : Drain) (a : DrainAct) : Drain → Prop where
  | goes (pc : DrainPc) (idle : ℕ) (hl : s.Lossless a) (hb : a.brings = ([], []))
      (hs : s.pc.between = true) (ht : pc.between = true) :
      DrainMove s a { s with pc := pc, idle := idle }
  | waits (idle : ℕ) (hl : s.Lossless a) (hb : a.brings = ([], [])) (hs : s.pc.returned = false) :
      DrainMove s a { s with idle := idle }
  | writes (n : ℕ) (pc : DrainPc) (idle : ℕ) (hl : s.Lossless a) (hb : a.brings = ([], []))
      (hs : s.pc.between = true) (ht : pc.between = true) :
      DrainMove s a { s with pc := pc, outbound := s.outbound.take n, idle := idle }
  | fetches (uds : Bool) (decrypted : Bytes) (hl : s.Lossless a) (hb : a.brings = (decrypted, []))
      (hs : s.pc.between = true) :
      DrainMove s a
        { s with pc := .reader uds, inbound := s.inbound.push decrypted, unread := false }
  | reads (uds : Bool) (n : ℕ) (hl : s.Lossless a) (hb : a.brings = ([], []))
      (hs : s.pc = .reader uds) (hn : 0 < n ∧ n ≤ s.inbound.pending.length) :
      DrainMove s a (s.at (.sending n uds))
  | passes (left n : ℕ) (uds : Bool) (pc : DrainPc) (idle : ℕ) (hl : s.Lossless a)
      (hb : a.brings = ([], [])) (hs : s.pc = .sending left uds) (hn : n ≤ left)
      (ht : pc = .reader uds ∨ n < left ∧ pc = .sending (left - n) uds) :
      DrainMove s a { s with pc := pc, inbound := s.inbound.take n, idle := idle }
  | empties (uds : Bool) (hl : s.Lossless a) (hb : a.brings = ([], [])) (hs : s.pc = .reader uds)
      (hempty : s.inbound.pending = []) : DrainMove s a (s.at (afterTcp uds))
  | takes (bs : Bytes) (hl : s.Lossless a) (hb : a.brings = ([], bs)) (hs : s.pc = .uds) :
      DrainMove s a { s with pc := .flush, outbound := s.outbound.push bs, idle := 0 }
  | errs (hl : s.Lossless a) (hb : a.brings = ([], [])) : DrainMove s a (s.at (.done false))
  | exits (idle : ℕ) (hb : a.brings = ([], [])) (hs : s.pc.between = true)
      (hl : s.Lossless a ↔ s.wantsWrite = false ∧ s.unread = false) :
      DrainMove s a { s with pc := .done true, idle := idle }
  | gives (left : ℕ) (uds : Bool) (hb : a.brings = ([], [])) (hs : s.pc = .sending left uds)
      (hl : ¬ s.Lossless a) : DrainMove s a (s.at (.done true))

theorem afterTcp_between (uds : Bool) : (afterTcp uds).between = true := by
  cases uds <;> rfl

theorem Drain.call_cases {s t : Drain} {a : DrainAct} (h : s.call a = some t) :
    DrainMove s a t := by
  unfold Drain.call at h
  cases hpc : s.pc with
  | setup =>
    rw [hpc] at h
    cases a with
    | skip =>
      simp only [Option.some.injEq] at h
      subst h
      exact .goes _ _ trivial rfl (by simp [hpc, DrainPc.between]) rfl
    | fail =>
      simp only [Option.some.injEq] at h
      subst h
      exact .errs trivial rfl
    | _ => cases h
  | head =>
    rw [hpc] at h
    have hs : s.pc.between = true := by simp [hpc, DrainPc.between]
    cases a with
    | skip =>
      simp only [Option.ite_none_left_eq_some, Option.some.injEq] at h
      obtain ⟨-, rfl⟩ := h
      exact .goes _ _ trivial rfl hs rfl
    | writeTls n =>
      simp only [Option.ite_none_right_eq_some, Option.some.injEq] at h
      obtain ⟨-, rfl⟩ := h
      exact .writes n _ _ trivial rfl hs rfl
    | blocks =>
      simp only [Option.ite_none_right_eq_some, Option.some.injEq] at h
      obtain ⟨-, rfl⟩ := h
      exact .goes _ _ trivial rfl hs rfl
    | fail =>
      simp only [Option.ite_none_right_eq_some, Option.some.injEq] at h
      obtain ⟨-, rfl⟩ := h
      exact .errs trivial rfl
    | _ => cases h
  | poll =>
    rw [hpc] at h
    have hs : s.pc.between = true := by simp [hpc, DrainPc.between]
    cases a with
    | interrupted =>
      simp only [Option.some.injEq] at h
      subst h
      exact .goes _ _ trivial rfl hs rfl
    | fail =>
      simp only [Option.some.injEq] at h
      subst h
      exact .errs trivial rfl
    | timeout waited =>
      simp only [Option.ite_none_right_eq_some, Option.some.injEq] at h
      obtain ⟨-, rfl⟩ := h
      by_cases hidle : idleTimeout < s.idle + waited
      · rw [if_pos hidle]
        exact .exits _ rfl hs (by simp [Drain.Lossless, hidle])
      · rw [if_neg hidle]
        exact .goes _ _ (fun hlt => absurd hlt hidle) rfl hs rfl
    | ready tcp uds =>
      simp only [Option.some.injEq] at h
      subst h
      refine .goes _ _ trivial rfl hs ?_
      cases tcp <;> cases uds <;> rfl
    | _ => cases h
  | tcp uds =>
    rw [hpc] at h
    have hs : s.pc.between = true := by simp [hpc, DrainPc.between]
    cases a with
    | eof =>
      simp only [Option.some.injEq] at h
      subst h
      exact .exits _ rfl hs Iff.rfl
    | readTls decrypted =>
      simp only [Option.some.injEq] at h
      subst h
      exact .fetches uds decrypted trivial rfl hs
    | blocks =>
      simp only [Option.some.injEq] at h
      subst h
      exact .goes _ _ trivial rfl hs (afterTcp_between uds)
    | fail =>
      simp only [Option.some.injEq] at h
      subst h
      exact .errs trivial rfl
    | _ => cases h
  | reader uds =>
    rw [hpc] at h
    cases a with
    | read n =>
      simp only [Option.ite_none_right_eq_some, Option.some.injEq] at h
      obtain ⟨⟨hn, -, hle⟩, rfl⟩ := h
      exact .reads uds n trivial rfl hpc ⟨hn, hle⟩
    | skip =>
      simp only [Option.ite_none_right_eq_some, Option.some.injEq] at h
      obtain ⟨hempty, rfl⟩ := h
      exact .empties uds trivial rfl hpc hempty
    | fail =>
      simp only [Option.some.injEq] at h
      subst h
      exact .errs trivial rfl
    | _ => cases h
  | sending left uds =>
    rw [hpc] at h
    cases a with
    | writeUds n =>
      simp only [Option.ite_none_right_eq_some] at h
      obtain ⟨⟨-, hle⟩, h⟩ := h
      split at h
      · cases h
        exact .passes left n uds _ _ trivial rfl hpc hle (Or.inl rfl)
      · next hne =>
        cases h
        exact .passes left n uds _ _ trivial rfl hpc hle (Or.inr ⟨by omega, rfl⟩)
    | zero =>
      simp only [Option.some.injEq] at h
      subst h
      exact .gives left uds rfl hpc id
    | blocks =>
      simp only [Option.some.injEq] at h
      subst h
      exact .waits (s := s) (a := .blocks) s.idle trivial rfl (by simp [hpc, DrainPc.returned])
    | fail =>
      simp only [Option.some.injEq] at h
      subst h
      exact .errs trivial rfl
    | _ => cases h
  | uds =>
    rw [hpc] at h
    have hs : s.pc.between = true := by simp [hpc, DrainPc.between]
    cases a with
    | eof =>
      simp only [Option.some.injEq] at h
      subst h
      exact .exits _ rfl hs Iff.rfl
    | readUds bs =>
      simp only [Option.ite_none_right_eq_some, Option.some.injEq] at h
      obtain ⟨-, rfl⟩ := h
      exact .takes bs trivial rfl hpc
    | blocks =>
      simp only [Option.some.injEq] at h
      subst h
      exact .goes _ _ trivial rfl hs rfl
    | fail =>
      simp only [Option.some.injEq] at h
      subst h
      exact .errs trivial rfl
    | _ => cases h
  | flush =>
    rw [hpc] at h
    have hs : s.pc.between = true := by simp [hpc, DrainPc.between]
    cases a with
    | skip =>
      simp only [Option.ite_none_left_eq_some, Option.some.injEq] at h
      obtain ⟨-, rfl⟩ := h
      exact .goes _ _ trivial rfl hs rfl
    | writeTls n =>
      simp only [Option.ite_none_right_eq_some, Option.some.injEq] at h
      obtain ⟨-, rfl⟩ := h
      exact .writes n _ _ trivial rfl hs rfl
    | blocks =>
      simp only [Option.ite_none_right_eq_some, Option.some.injEq] at h
      obtain ⟨-, rfl⟩ := h
      exact .goes _ _ trivial rfl hs rfl
    | fail =>
      simp only [Option.ite_none_right_eq_some, Option.some.injEq] at h
      obtain ⟨-, rfl⟩ := h
      exact .errs trivial rfl
    | _ => cases h
  | done ok =>
    rw [hpc] at h
    cases a <;> cases h

theorem Drain.step_cases {s t : Drain} {a : DrainAct} (h : s.step a = some t) :
    DrainMove s a t := by
  cases a with
  | tick d =>
    simp only [Drain.step, Option.ite_none_left_eq_some, Option.some.injEq] at h
    obtain ⟨hp, rfl⟩ := h
    exact .waits (s := s) (a := .tick d) (s.idle + d) trivial rfl (by simpa using hp)
  | _ => exact Drain.call_cases h

theorem Drain.step_returned (s : Drain) (a : DrainAct) (ok : Bool) (h : s.pc = .done ok) :
    s.step a = none := by
  obtain ⟨pc, inbound, outbound, idle, unread⟩ := s
  cases h
  cases a <;> rfl

/-! ### What the lanes hold -/

/-- Outside the reader loop plaintext is pending only if it came with the handoff; inside, what is
left of the buffer is still pending. -/
structure Drain.Inv (s : Drain) : Prop where
  unread : s.pc.between = true → (s.inbound.pending = [] ↔ s.unread = false)
  asked : s.pc.between = false → s.pc.returned = false → s.unread = false
  sending : ∀ left uds, s.pc = .sending left uds → 0 < left ∧ left ≤ s.inbound.pending.length

theorem Drain.kept_iff (s : Drain) :
    s.Kept ↔ s.inbound.pending = [] ∧ s.outbound.pending = [] := by
  rw [← s.inbound.got_eq_put_iff, ← s.outbound.got_eq_put_iff]
  exact ⟨fun h => ⟨h.inbound, h.outbound⟩, fun h => ⟨h.1, h.2⟩⟩

theorem Drain.wantsWrite_iff (s : Drain) : s.wantsWrite = false ↔ s.outbound.pending = [] := by
  simp [Drain.wantsWrite]

theorem Drain.step_inv {s t : Drain} {a : DrainAct} (hs : s.Inv) (h : s.step a = some t) :
    t.Inv := by
  cases Drain.step_cases h with
  | goes pc idle _ _ hp ht => exact ⟨fun _ => hs.unread hp, by simp [ht], by rintro _ _ rfl; cases ht⟩
  | waits idle _ _ _ => exact ⟨hs.unread, hs.asked, hs.sending⟩
  | writes n pc idle _ _ hp ht =>
    exact ⟨fun _ => hs.unread hp, by simp [ht], by rintro _ _ rfl; cases ht⟩
  | fetches uds decrypted _ _ _ => exact ⟨by simp [DrainPc.between], fun _ _ => rfl, by simp⟩
  | reads uds n _ _ hp hn =>
    refine ⟨by simp [Drain.at, DrainPc.between], fun _ _ => ?_, ?_⟩
    · exact hs.asked (by simp [hp, DrainPc.between]) (by simp [hp, DrainPc.returned])
    · intro left uds' he
      simp only [Drain.at, DrainPc.sending.injEq] at he
      rw [← he.1]
      exact hn
  | passes left n uds pc idle _ _ hp hn ht =>
    have hasked := hs.asked (by simp [hp, DrainPc.between]) (by simp [hp, DrainPc.returned])
    have hleft := (hs.sending left uds hp).2
    rcases ht with rfl | ⟨hlt, rfl⟩
    · exact ⟨by simp [DrainPc.between], fun _ _ => hasked, by simp⟩
    · refine ⟨by simp [DrainPc.between], fun _ _ => hasked, ?_⟩
      intro left' uds' he
      simp only [DrainPc.sending.injEq] at he
      rw [← he.1, Lane.pending_take, List.length_drop]
      omega
  | empties uds _ _ hp hempty =>
    have hasked := hs.asked (by simp [hp, DrainPc.between]) (by simp [hp, DrainPc.returned])
    refine ⟨fun _ => ⟨fun _ => hasked, fun _ => hempty⟩, ?_, ?_⟩
    · intro hb
      exact absurd (afterTcp_between uds) (by simpa [Drain.at] using hb)
    · intro left uds' he
      cases uds <;> cases he
  | takes bs _ _ hp =>
    exact ⟨fun _ => hs.unread (by simp [hp, DrainPc.between]), by simp [DrainPc.between], by simp⟩
  | errs _ _ => exact ⟨by simp [Drain.at, DrainPc.between], by simp [Drain.at, DrainPc.returned], by simp [Drain.at]⟩
  | exits idle _ _ _ => exact ⟨by simp [DrainPc.between], by simp [DrainPc.returned], by simp⟩
  | gives left uds _ _ _ =>
    exact ⟨by simp [Drain.at, DrainPc.between], by simp [Drain.at, DrainPc.returned], by simp [Drain.at]⟩

/-- The step that returns `Ok` decides: whatever it leaves in a lane is lost. -/
theorem Drain.step_kept {s t : Drain} {a : DrainAct} (hs : s.Inv) (h : s.step a = some t)
    (hok : t.pc = .done true) : t.Kept ↔ s.Lossless a := by
  rw [Drain.kept_iff]
  cases Drain.step_cases h with
  | exits idle _ hp hl =>
    show s.inbound.pending = [] ∧ s.outbound.pending = [] ↔ _
    rw [hl, s.wantsWrite_iff, hs.unread hp]
    exact And.comm
  | gives left uds _ hp hl =>
    obtain ⟨hpos, hle⟩ := hs.sending left uds hp
    refine iff_of_false ?_ hl
    intro hk
    have hempty : s.inbound.pending = [] := hk.1
    rw [hempty, List.length_nil] at hle
    omega
  | goes pc idle _ _ _ ht | writes n pc idle _ _ _ ht =>
    have hpc : pc = .done true := hok
    subst hpc
    cases ht
  | waits idle _ _ hp =>
    rw [hok] at hp
    cases hp
  | passes left n uds pc idle _ _ _ _ ht => rcases ht with rfl | ⟨-, rfl⟩ <;> cases hok
  | empties uds _ _ _ _ => cases uds <;> cases hok
  | fetches uds decrypted _ _ _ | reads uds n _ _ _ _ | takes bs _ _ _ | errs _ _ => cases hok

theorem Drain.step_lossless {s t : Drain} {a : DrainAct} (h : s.step a = some t)
    (hok : t.pc ≠ .done true) : s.Lossless a := by
  cases Drain.step_cases h with
  | exits idle _ _ _ => exact absurd rfl hok
  | gives left uds _ _ _ => exact absurd rfl hok
  | _ => assumption

theorem Drain.step_put {s t : Drain} {a : DrainAct} (h : s.step a = some t) :
    t.inbound.put = s.inbound.put ++ a.brings.1 ∧ t.outbound.put = s.outbound.put ++ a.brings.2 := by
  cases Drain.step_cases h with
  | fetches uds decrypted _ hb _ => simp [hb]
  | takes bs _ hb _ => simp [hb]
  | goes _ _ _ hb _ _ | waits _ _ hb _ | writes _ _ _ _ hb _ _ | reads _ _ _ hb _ _
  | passes _ _ _ _ _ _ hb _ _ _ | empties _ _ hb _ _ | errs _ hb | exits _ hb _ _
  | gives _ _ hb _ _ => simp [hb, Drain.at]

theorem Drain.exec_put (s t : Drain) (as : List DrainAct) (h : exec Drain.step s as = some t) :
    t.inbound.put = s.inbound.put ++ as.flatMap (·.brings.1) ∧
    t.outbound.put = s.outbound.put ++ as.flatMap (·.brings.2) := by
  induction as generalizing s with
  | nil =>
    have hst : s = t := Option.some.inj h
    simp [hst]
  | cons a as ih =>
    obtain ⟨m, hm, hrest⟩ := exec_cons_some s t a as h
    obtain ⟨hin, hout⟩ := Drain.step_put hm
    obtain ⟨hin', hout'⟩ := ih m hrest
    rw [hin', hout', hin, hout]
    simp [List.append_assoc]

theorem drainOneTlsSession_inv (plaintext output : Bytes) :
    (drainOneTlsSession plaintext output).Inv := by
  refine ⟨fun _ => ?_, by simp [drainOneTlsSession, DrainPc.between], by simp [drainOneTlsSession]⟩
  simp [drainOneTlsSession]

/-- A run that returns `Ok` has passed on all the plaintext there was at the handoff and came later,
and all the output, exactly if no step of it went off the guard. -/
theorem drained_clean_iff (plaintext output : Bytes) (as : List DrainAct) (t : Drain)
    (h : exec Drain.step (drainOneTlsSession plaintext output) as = some t)
    (hok : t.pc = .done true) :
    (t.inbound.got = plaintext ++ as.flatMap (·.brings.1) ∧
      t.outbound.got = output ++ as.flatMap (·.brings.2)) ↔
    Along Drain.step Drain.Lossless (drainOneTlsSession plaintext output) as := by
  obtain ⟨hin, hout⟩ := Drain.exec_put _ t as h
  have hkept : (t.inbound.got = plaintext ++ as.flatMap (·.brings.1) ∧
      t.outbound.got = output ++ as.flatMap (·.brings.2)) ↔ t.Kept := by
    rw [show plaintext ++ as.flatMap (·.brings.1) = t.inbound.put from hin.symm,
      show output ++ as.flatMap (·.brings.2) = t.outbound.put from hout.symm]
    exact ⟨fun hk => ⟨hk.1, hk.2⟩, fun hk => ⟨hk.inbound, hk.outbound⟩⟩
  rw [hkept]
  constructor
  · intro hk
    refine along_of_end (I := Drain.Inv) (B := fun s => s.pc = .done true ∧ ¬ s.Kept)
      (P := fun _ => True) ?_ ?_ _ t as (drainOneTlsSession_inv plaintext output)
      (fun _ _ => trivial) h (fun hbad => hbad.2 hk)
    · intro s a u hs _ hu
      refine ⟨Drain.step_inv hs hu, fun hoff => ?_⟩
      by_cases hd : u.pc = .done true
      · exact ⟨hd, fun hk => hoff ((Drain.step_kept hs hu hd).mp hk)⟩
      · exact absurd (Drain.step_lossless hu hd) hoff
    · intro s a u _ hbad _ hu
      exact absurd hu (by simp [Drain.step_returned s a true hbad.1])
  · intro hg
    have hinv : t.Inv ∧ (t.pc = .done true → t.Kept) := by
      refine exec_along (I := fun s => s.Inv ∧ (s.pc = .done true → s.Kept)) ?_ _ t as
        ⟨drainOneTlsSession_inv plaintext output, by simp [drainOneTlsSession]⟩ hg h
      intro s a u hs hl hu
      exact ⟨Drain.step_inv hs.1 hu, fun hd => (Drain.step_kept hs.1 hu hd).mpr hl⟩
    exact hinv.2 hok

/-- A client that sends a line, reads its echo and goes. -/
def cleanDrain : List DrainAct :=
  [.skip, .writeTls 2, .ready true false, .readTls [104, 10], .read 3, .writeUds 1, .blocks,
    .writeUds 2, .skip, .skip, .ready false true, .readUds [104, 10], .writeTls 1, .blocks,
    .writeTls 1, .ready true false, .eof]

theorem drained_clean_echo :
    ∃ t, exec Drain.step (drainOneTlsSession [105] [1, 2]) cleanDrain = some t ∧
      t.pc = .done true ∧ t.inbound.got = [105, 104, 10] ∧ t.outbound.got = [1, 2, 104, 10] := by
  refine ⟨_, rfl, rfl, ?_⟩
  exact (drained_clean_iff [105] [1, 2] cleanDrain _ rfl rfl).mpr (by decide)

/-- The four ways out, each with bytes left behind: the client has sent its last and still reads, the
processor closes, the UDS takes nothing, and a client that stalls. -/
theorem drained_with_losses :
    (∃ t, exec Drain.step (drainOneTlsSession [105] [1, 2])
      [.skip, .blocks, .ready true false, .eof] = some t ∧
      t.pc = .done true ∧ t.inbound.got = [] ∧ t.outbound.got = []) ∧
    (∃ t, exec Drain.step (drainOneTlsSession [105] [])
      [.skip, .skip, .ready false true, .eof] = some t ∧
      t.pc = .done true ∧ t.inbound.got = []) ∧
    (∃ t, exec Drain.step (drainOneTlsSession [105] [])
      [.skip, .skip, .ready true false, .readTls [], .read 1, .zero] = some t ∧
      t.pc = .done true ∧ t.inbound.got = []) ∧
    (∃ t, exec Drain.step (drainOneTlsSession [] [1, 2])
      [.skip, .blocks, .timeout 1501] = some t ∧ t.pc = .done true ∧ t.outbound.got = []) := by
  refine ⟨⟨_, rfl, ?_⟩, ⟨_, rfl, ?_⟩, ⟨_, rfl, ?_⟩, ⟨_, rfl, ?_⟩⟩ <;> decide

end FiveNinesEcho.Acceptor
