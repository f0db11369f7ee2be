import Mathlib.Data.List.Basic

/-!
# A copy loop

One direction of a proxy: read at most `size` elements, write all of them, read again, until the
source is at its end, an operation fails, or the loop finds that it was asked to stop. It looks for
that request only where it is about to read. `Ports` is what the loop sees of its two ends when it
moves. A move answers how much it took from the source and what it gave to the sink; what the two
ends do with that is the caller's business.
-/

namespace FiveNinesEcho.Lib
variable {α : Type*}

inductive Copy (α : Type*) where
  | reading
  | writing (left : List α)
  | stopped
  deriving Repr, DecidableEq

inductive CopyAct where
  | read (n : ℕ)
  | eof
  | write (n : ℕ)
  | stop
  | fail
  deriving Repr, DecidableEq

/-- `ended` says that nothing will follow the elements that are ready, `room` how many elements the
sink takes, `stop` that the loop was asked to stop. -/
structure Ports (α : Type*) where
  ready : List α
  ended : Bool
  room : ℕ
  stop : Bool

structure Copied (α : Type*) where
  loop : Copy α
  taken : ℕ
  given : List α

def Copy.held : Copy α → List α
  | .writing left => left
  | _ => []

def Copy.isStopped : Copy α → Bool
  | .stopped => true
  | _ => false

def Copy.rank (c : Copy α) : ℕ := if c.isStopped then 0 else 1

def Copy.step (size : ℕ) (p : Ports α) : Copy α → CopyAct → Option (Copied α)
  | .reading, .read n =>
    if p.stop = false ∧ 0 < n ∧ n ≤ size ∧ n ≤ p.ready.length then
      some ⟨.writing (p.ready.take n), n, []⟩
    else none
  | .reading, .eof =>
    if p.stop = false ∧ p.ready.isEmpty = true ∧ p.ended = true then some ⟨.stopped, 0, []⟩
    else none
  | .reading, .stop => if p.stop = true then some ⟨.stopped, 0, []⟩ else none
  | .reading, .fail => if p.stop = false then some ⟨.stopped, 0, []⟩ else none
  | .writing left, .write n =>
    if 0 < n ∧ n ≤ left.length ∧ n ≤ p.room then
      some ⟨if n = left.length then .reading else .writing (left.drop n), 0, left.take n⟩
    else none
  | .writing _, .fail => some ⟨.stopped, 0, []⟩
  | _, _ => none

theorem Copy.isStopped_iff (c : Copy α) : c.isStopped = true ↔ c = .stopped := by
  cases c <;> simp [Copy.isStopped]

/-- What a loop that does not fail can do. -/
theorem Copy.step_cases (size : ℕ) (p : Ports α) (c : Copy α) (a : CopyAct) (m : Copied α)
    (ha : a ≠ .fail) (h : c.step size p a = some m) :
    (∃ n, a = .read n ∧ c = .reading ∧ p.stop = false ∧ 0 < n ∧ n ≤ p.ready.length ∧
      m = ⟨.writing (p.ready.take n), n, []⟩) ∨
    (a = .eof ∧ c = .reading ∧ p.stop = false ∧ p.ready = [] ∧ p.ended = true ∧
      m = ⟨.stopped, 0, []⟩) ∨
    (a = .stop ∧ c = .reading ∧ p.stop = true ∧ m = ⟨.stopped, 0, []⟩) ∨
    (∃ n left, a = .write n ∧ c = .writing left ∧ 0 < n ∧ n ≤ left.length ∧ n ≤ p.room ∧
      m.taken = 0 ∧ m.given = left.take n ∧ m.loop.held = left.drop n ∧
      m.loop.isStopped = false) := by
  cases c with
  | reading =>
    cases a with
    | read n =>
      simp only [Copy.step, Option.ite_none_right_eq_some, Option.some.injEq] at h
      obtain ⟨⟨hs, hn, -, hle⟩, rfl⟩ := h
      exact Or.inl ⟨n, rfl, rfl, hs, hn, hle, rfl⟩
    | eof =>
      simp only [Copy.step, Option.ite_none_right_eq_some, Option.some.injEq,
        List.isEmpty_iff] at h
      obtain ⟨⟨hs, hr, he⟩, rfl⟩ := h
      exact Or.inr (Or.inl ⟨rfl, rfl, hs, hr, he, rfl⟩)
    | stop =>
      simp only [Copy.step, Option.ite_none_right_eq_some, Option.some.injEq] at h
      exact Or.inr (Or.inr (Or.inl ⟨rfl, rfl, h.1, h.2.symm⟩))
    | write n => simp [Copy.step] at h
    | fail => exact absurd rfl ha
  | writing left =>
    cases a with
    | write n =>
      simp only [Copy.step, Option.ite_none_right_eq_some, Option.some.injEq] at h
      obtain ⟨⟨hn, hle, hroom⟩, rfl⟩ := h
      refine Or.inr (Or.inr (Or.inr ⟨n, left, rfl, rfl, hn, hle, hroom, rfl, rfl, ?_, ?_⟩))
      · by_cases hall : n = left.length
        · simp [hall, Copy.held]
        · simp [hall, Copy.held]
      · by_cases hall : n = left.length
        · simp [hall, Copy.isStopped]
        · simp [hall, Copy.isStopped]
    | fail => exact absurd rfl ha
    | read n => simp [Copy.step] at h
    | eof => simp [Copy.step] at h
    | stop => simp [Copy.step] at h
  | stopped => cases a <;> simp [Copy.step] at h

theorem Copy.step_fail (size : ℕ) (p : Ports α) (c : Copy α) (m : Copied α)
    (h : c.step size p .fail = some m) : m = ⟨.stopped, 0, []⟩ := by
  cases c with
  | reading =>
    simp only [Copy.step, Option.ite_none_right_eq_some, Option.some.injEq] at h
    exact h.2.symm
  | writing left =>
    simp only [Copy.step, Option.some.injEq] at h
    exact h.symm
  | stopped => cases h

/-- A loop that nobody asked to stop stops at the end of its source. -/
theorem Copy.step_stops (size : ℕ) (p : Ports α) (c : Copy α) (a : CopyAct) (m : Copied α)
    (ha : a ≠ .fail) (hrun : p.stop = false) (h : c.step size p a = some m)
    (hs : m.loop.isStopped = true) :
    a = .eof ∧ c = .reading ∧ p.ready = [] ∧ p.ended = true ∧ m = ⟨.stopped, 0, []⟩ := by
  rcases Copy.step_cases size p c a m ha h with ⟨n, -, -, -, -, -, rfl⟩ |
    ⟨rfl, hc, -, hready, hended, hm⟩ | ⟨-, -, hstop, -⟩ | ⟨n, left, -, -, -, -, -, -, -, -, hgo⟩
  · simp [Copy.isStopped] at hs
  · exact ⟨rfl, hc, hready, hended, hm⟩
  · exact absurd (hrun.symm.trans hstop) (by simp)
  · exact absurd (hs.symm.trans hgo) (by simp)

/-- Nothing is lost or invented on the way: what was held and ready is what was given, is held now
and is ready now, in this order. -/
theorem Copy.step_conserves (size : ℕ) (p : Ports α) (c : Copy α) (a : CopyAct) (m : Copied α)
    (ha : a ≠ .fail) (h : c.step size p a = some m) :
    m.given ++ m.loop.held ++ p.ready.drop m.taken = c.held ++ p.ready := by
  rcases Copy.step_cases size p c a m ha h with ⟨n, -, rfl, -, -, -, rfl⟩ |
    ⟨-, rfl, -, -, -, rfl⟩ | ⟨-, rfl, -, rfl⟩ | ⟨n, left, -, rfl, -, -, -, ht, hg, hh, -⟩
  · simp [Copy.held]
  · simp [Copy.held]
  · simp [Copy.held]
  · rw [ht, hg, hh]
    simp [Copy.held]

theorem Copy.step_taken (size : ℕ) (p : Ports α) (c : Copy α) (a : CopyAct) (m : Copied α)
    (ha : a ≠ .fail) (h : c.step size p a = some m) : m.taken ≤ p.ready.length := by
  rcases Copy.step_cases size p c a m ha h with ⟨n, -, -, -, -, hle, rfl⟩ |
    ⟨-, -, -, -, -, rfl⟩ | ⟨-, -, -, rfl⟩ | ⟨n, left, -, -, -, -, -, ht, -⟩
  · exact hle
  · exact Nat.zero_le _
  · exact Nat.zero_le _
  · rw [ht]
    exact Nat.zero_le _

theorem Copy.step_given (size : ℕ) (p : Ports α) (c : Copy α) (a : CopyAct) (m : Copied α)
    (ha : a ≠ .fail) (h : c.step size p a = some m) : m.given.length ≤ p.room := by
  rcases Copy.step_cases size p c a m ha h with ⟨n, -, -, -, -, -, rfl⟩ |
    ⟨-, -, -, -, -, rfl⟩ | ⟨-, -, -, rfl⟩ | ⟨n, left, -, -, -, -, hroom, -, hg, -⟩
  · exact Nat.zero_le _
  · exact Nat.zero_le _
  · exact Nat.zero_le _
  · rw [hg, List.length_take]
    omega

/-- The sink has a front part of the source, up to what the loop holds. -/
theorem Copy.step_forwards (size : ℕ) (p : Ports α) (c : Copy α) (a : CopyAct) (m : Copied α)
    (ha : a ≠ .fail) (h : c.step size p a = some m) (sink source : List α) (t : ℕ)
    (hready : p.ready = source.drop t) (hs : sink ++ c.held = source.take t) :
    sink ++ m.given ++ m.loop.held = source.take (t + m.taken) := by
  have hcons := Copy.step_conserves size p c a m ha h
  rw [hready, List.drop_drop] at hcons
  have hall : sink ++ m.given ++ m.loop.held ++ source.drop (t + m.taken) = source := by
    calc sink ++ m.given ++ m.loop.held ++ source.drop (t + m.taken)
        = sink ++ (m.given ++ m.loop.held ++ source.drop (t + m.taken)) := by
          simp only [List.append_assoc]
      _ = sink ++ c.held ++ source.drop t := by rw [hcons, List.append_assoc]
      _ = source := by rw [hs, List.take_append_drop]
  exact List.append_cancel_right (hall.trans (List.take_append_drop (t + m.taken) source).symm)

theorem Copy.step_writing (size : ℕ) (p : Ports α) (c : Copy α) (a : CopyAct) (m : Copied α)
    (h : c.step size p a = some m) : m.loop ≠ .writing [] := by
  cases c <;> cases a <;>
    simp only [Copy.step, Option.ite_none_right_eq_some, Option.some.injEq, reduceCtorEq] at h
  case reading.read n =>
    obtain ⟨⟨-, hn, -, hle⟩, rfl⟩ := h
    have hne : p.ready ≠ [] := List.length_pos_iff.mp (by omega)
    simp only [ne_eq, Copy.writing.injEq, List.take_eq_nil_iff, hne, or_false]
    omega
  case writing.write left n =>
    obtain ⟨⟨-, hle, -⟩, rfl⟩ := h
    by_cases hall : n = left.length
    · simp [hall]
    · simp only [hall, if_false, ne_eq, Copy.writing.injEq, List.drop_eq_nil_iff]
      omega
  all_goals first | (rw [← h]; simp) | (rw [← h.2]; simp)

/-- A loop that can neither read, stop nor write has stopped, or waits on one of its ends. -/
theorem Copy.blocked (size : ℕ) (p : Ports α) (c : Copy α) (hsize : 0 < size)
    (hne : c ≠ .writing []) (h : ∀ a, a ≠ .fail → c.step size p a = none) :
    (c = .stopped) ∨ (c = .reading ∧ p.stop = false ∧ p.ready = [] ∧ p.ended = false) ∨
    (∃ left, c = .writing left ∧ p.room = 0) := by
  cases c with
  | stopped => exact Or.inl rfl
  | reading =>
    have hstop : p.stop = false := by simpa [Copy.step] using h .stop (by simp)
    have hread := h (.read 1) (by simp)
    have heof := h .eof (by simp)
    have hready : p.ready = [] := by
      simpa [Copy.step, hstop, Nat.succ_le_iff, hsize, List.length_pos_iff] using hread
    have hended : p.ended = false := by simpa [Copy.step, hstop, hready] using heof
    exact Or.inr (Or.inl ⟨rfl, hstop, hready, hended⟩)
  | writing left =>
    have hne : left ≠ [] := fun he => hne (by rw [he])
    have hwrite := h (.write 1) (by simp)
    have hroom : p.room = 0 := by
      simpa [Copy.step, Nat.succ_le_iff, List.length_pos_iff, hne] using hwrite
    exact Or.inr (Or.inr ⟨left, rfl, hroom⟩)

end FiveNinesEcho.Lib
