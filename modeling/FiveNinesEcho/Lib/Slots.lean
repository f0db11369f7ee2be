import Mathlib.Data.List.Basic

/-!
# Slots

A list whose entries are replaced in place or taken out: tasks, threads or clients, each at its own
index. What a replacement does to the entries and to how many of them have a property.
-/

namespace FiveNinesEcho.Lib
variable {α : Type*} {l : List α} {i j : ℕ} {x y z : α}

theorem getElem?_set_some (h : (l.set i x)[j]? = some y) :
    (j = i ∧ y = x) ∨ (j ≠ i ∧ l[j]? = some y) := by
  rw [List.getElem?_set] at h
  split at h
  · next he =>
    left
    split at h
    · exact ⟨he.symm, (Option.some.inj h).symm⟩
    · cases h
  · next hne => exact Or.inr ⟨fun he => hne he.symm, h⟩

theorem getElem?_set_of_some (h : l[i]? = some y) : (l.set i x)[i]? = some x := by
  have hi := (List.getElem?_eq_some_iff.mp h).1
  rw [List.getElem?_set_self hi]

theorem getElem?_set_exists (hz : l[i]? = some z) (h : l[j]? = some y) :
    ∃ w, (l.set i x)[j]? = some w ∧ ((j = i ∧ w = x) ∨ (j ≠ i ∧ w = y)) := by
  by_cases hij : j = i
  · subst hij
    exact ⟨x, getElem?_set_of_some h, Or.inl ⟨rfl, rfl⟩⟩
  · refine ⟨y, ?_, Or.inr ⟨hij, rfl⟩⟩
    rw [List.getElem?_set_ne (fun he => hij he.symm)]
    exact h

variable (p : α → Bool) (l : List α) (i : ℕ) (x y : α)

theorem countP_set_add (h : l[i]? = some x) :
    (l.set i y).countP p + (if p x then 1 else 0) = l.countP p + if p y then 1 else 0 := by
  induction l generalizing i with
  | nil => cases h
  | cons z l ih =>
    cases i with
    | zero =>
      have hz : z = x := by simpa using h
      subst hz
      simp only [List.set_cons_zero, List.countP_cons]
      omega
    | succ i =>
      have hrest := ih i (by simpa using h)
      simp only [List.set_cons_succ, List.countP_cons]
      omega

theorem countP_set_same (h : l[i]? = some x) (hp : p y = p x) :
    (l.set i y).countP p = l.countP p := by
  have hadd := countP_set_add p l i x y h
  rw [hp] at hadd
  omega

theorem countP_set_new (h : l[i]? = some x) (hx : p x = false) (hy : p y = true) :
    (l.set i y).countP p = l.countP p + 1 := by
  have hadd := countP_set_add p l i x y h
  simpa only [hx, hy, Bool.false_eq_true, if_false, if_true, Nat.add_zero] using hadd

theorem countP_eraseIdx_add (h : l[i]? = some x) :
    (l.eraseIdx i).countP p + (if p x then 1 else 0) = l.countP p := by
  induction l generalizing i with
  | nil => cases h
  | cons z l ih =>
    cases i with
    | zero =>
      have hz : z = x := by simpa using h
      subst hz
      simp only [List.eraseIdx_cons_zero, List.countP_cons]
    | succ i =>
      have hrest := ih i (by simpa using h)
      simp only [List.eraseIdx_cons_succ, List.countP_cons]
      omega

end FiveNinesEcho.Lib
