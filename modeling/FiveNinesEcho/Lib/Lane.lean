import Mathlib.Data.List.Basic

/-!
# FIFO lanes

A lane is a queue with its books: all that went in and all that came out of it. What came out is a
part of what went in, in the same order, whatever the pieces were; the rest is pending.
-/

namespace FiveNinesEcho.Lib
variable {α : Type*}

structure Lane (α : Type*) where
  put : List α
  got : List α
  fifo : got <+: put

namespace Lane

/-- A lane that was filled before anyone looked. -/
def ofPending (xs : List α) : Lane α := ⟨xs, [], List.nil_prefix⟩

def pending (l : Lane α) : List α := l.put.drop l.got.length

def push (l : Lane α) (xs : List α) : Lane α :=
  ⟨l.put ++ xs, l.got, l.fifo.trans (List.prefix_append ..)⟩

def take (l : Lane α) (n : ℕ) : Lane α :=
  ⟨l.put, l.put.take (l.got.length + n), List.take_prefix ..⟩

theorem got_append_pending (l : Lane α) : l.got ++ l.pending = l.put :=
  List.prefix_iff_eq_append.mp l.fifo

@[simp] theorem push_put (l : Lane α) (xs : List α) : (l.push xs).put = l.put ++ xs := rfl

@[simp] theorem take_put (l : Lane α) (n : ℕ) : (l.take n).put = l.put := rfl

/-- Nothing is lost exactly if nothing is pending. -/
theorem got_eq_put_iff (l : Lane α) : l.got = l.put ↔ l.pending = [] := by
  have hall := l.got_append_pending
  constructor
  · intro h
    rw [h] at hall
    exact List.append_right_eq_self.mp hall
  · intro h
    rw [h, List.append_nil] at hall
    exact hall

@[simp] theorem pending_ofPending (xs : List α) : (ofPending xs).pending = xs := rfl

theorem pending_take (l : Lane α) (n : ℕ) : (l.take n).pending = l.pending.drop n := by
  have hle := l.fifo.length_le
  unfold pending take
  rw [List.drop_drop]
  by_cases h : l.got.length + n ≤ l.put.length
  · rw [List.length_take, Nat.min_eq_left h]
  · rw [List.length_take, Nat.min_eq_right (by omega), List.drop_length,
      List.drop_eq_nil_of_le (by omega)]

end Lane

end FiveNinesEcho.Lib
