import Mathlib.Data.Nat.Notation

/-!
# Watch channels

A channel that holds its last value. A waiting receiver is woken by a value it has not seen, and
also when the last sender is gone; it cannot tell the two apart by looking at the value.
-/

namespace FiveNinesEcho.Lib
variable {α : Type*}

/-- A channel with one receiver; `senders` counts the handles that can still send. -/
structure Watch (α : Type*) where
  value : α
  unseen : Bool
  senders : ℕ
  receiver : Bool
  deriving Repr, DecidableEq

namespace Watch

/-- The receiver of a new channel has seen the first value. -/
def channel (value : α) (senders : ℕ) : Watch α := ⟨value, false, senders, true⟩

/-- Without a receiver nothing is stored. -/
def send (w : Watch α) (value : α) : Watch α :=
  if w.receiver then { w with value := value, unseen := true } else w

def ready (w : Watch α) : Bool := w.unseen || w.senders == 0

def changed (w : Watch α) : Option (Watch α) :=
  if w.ready then some { w with unseen := false } else none

def cloneSender (w : Watch α) : Watch α := { w with senders := w.senders + 1 }

def dropSender (w : Watch α) : Watch α := { w with senders := w.senders - 1 }

def dropReceiver (w : Watch α) : Watch α := { w with receiver := false }

theorem send_senders (w : Watch α) (value : α) : (w.send value).senders = w.senders := by
  unfold send
  split <;> rfl

theorem send_receiver (w : Watch α) (value : α) : (w.send value).receiver = w.receiver := by
  unfold send
  split <;> rfl

theorem send_open (w : Watch α) (value : α) (h : w.receiver = true) :
    (w.send value).value = value ∧ (w.send value).unseen = true := by
  rw [send, if_pos h]
  exact ⟨rfl, rfl⟩

theorem send_closed (w : Watch α) (value : α) (h : w.receiver = false) : w.send value = w := by
  simp [send, h]

/-- While a sender is held elsewhere, only a new value wakes the receiver. -/
theorem changed_iff (w w' : Watch α) (h : 0 < w.senders) :
    w.changed = some w' ↔ w.unseen = true ∧ w' = { w with unseen := false } := by
  have hsenders : (w.senders == 0) = false := by simp; omega
  simp only [changed, ready, hsenders, Bool.or_false, Option.ite_none_right_eq_some,
    Option.some.injEq]
  exact and_congr_right fun _ => eq_comm

end Watch

end FiveNinesEcho.Lib
