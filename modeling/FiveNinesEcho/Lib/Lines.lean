import Mathlib.Data.List.Basic

/-!
# Splitting a sequence at a separator

`lines sep xs` are the parts of `xs` that a separator ends, in order, and `rest sep xs` is what
follows the last separator. The lemmas say how both read off the front of a sequence, which is how
an incremental reader consumes it.
-/

namespace FiveNinesEcho.Lib
variable {α : Type*} [DecidableEq α]

def lines (sep : α) : List α → List (List α)
  | [] => []
  | x :: xs =>
    if x = sep then [] :: lines sep xs
    else match lines sep xs with
      | [] => []
      | l :: ls => (x :: l) :: ls

def rest (sep : α) : List α → List α
  | [] => []
  | x :: xs => if sep ∈ x :: xs then rest sep xs else x :: xs

theorem lines_of_notMem (sep : α) (xs : List α) (h : sep ∉ xs) : lines sep xs = [] := by
  induction xs with
  | nil => rfl
  | cons x xs ih =>
    simp only [List.mem_cons, not_or] at h
    have hx : x ≠ sep := fun he => h.1 he.symm
    simp only [lines, if_neg hx, ih h.2]

theorem rest_of_notMem (sep : α) (xs : List α) (h : sep ∉ xs) : rest sep xs = xs := by
  cases xs with
  | nil => rfl
  | cons x xs => simp only [rest, if_neg h]

theorem lines_append_sep (sep : α) (l r : List α) (h : sep ∉ l) :
    lines sep (l ++ sep :: r) = l :: lines sep r := by
  induction l with
  | nil => simp only [List.nil_append, lines, if_true]
  | cons x l ih =>
    simp only [List.mem_cons, not_or] at h
    have hx : x ≠ sep := fun he => h.1 he.symm
    simp only [List.cons_append, lines, if_neg hx, ih h.2]

theorem lines_length (sep : α) (xs : List α) : (lines sep xs).length = xs.count sep := by
  induction xs with
  | nil => rfl
  | cons x xs ih =>
    by_cases hx : x = sep
    · simp [lines, hx, ih]
    · rw [List.count_cons_of_ne hx, ← ih, lines, if_neg hx]
      cases lines sep xs <;> rfl

theorem rest_append_sep (sep : α) (l r : List α) : rest sep (l ++ sep :: r) = rest sep r := by
  induction l with
  | nil => simp only [List.nil_append, rest, List.mem_cons, true_or, if_true]
  | cons x l ih =>
    have hm : sep ∈ x :: (l ++ sep :: r) := by simp
    rw [List.cons_append, rest, if_pos hm, ih]

theorem front_unique (sep : α) (l l' r r' : List α) (hl : sep ∉ l) (hl' : sep ∉ l')
    (h : l ++ sep :: r = l' ++ sep :: r') : l = l' ∧ r = r' := by
  have hlines := congrArg (lines sep) h
  rw [lines_append_sep sep l r hl, lines_append_sep sep l' r' hl', List.cons.injEq] at hlines
  obtain ⟨rfl, -⟩ := hlines
  simpa using h

theorem front_cases (sep : α) (xs : List α) :
    (∃ l r, xs = l ++ sep :: r ∧ sep ∉ l) ∨ sep ∉ xs := by
  by_cases h : sep ∈ xs
  · exact Or.inl (by simpa using List.eq_append_cons_of_mem h)
  · exact Or.inr h

theorem notMem_rest (sep : α) (xs : List α) : sep ∉ rest sep xs := by
  induction xs with
  | nil => simp [rest]
  | cons x xs ih =>
    rw [rest]
    split
    · exact ih
    · assumption

/-- A sequence is its lines, each ended, and its rest. -/
theorem eq_lines_rest (sep : α) (xs : List α) :
    xs = (lines sep xs).flatMap (· ++ [sep]) ++ rest sep xs := by
  induction hn : xs.length using Nat.strongRecOn generalizing xs with
  | _ n ih =>
    rcases front_cases sep xs with ⟨l, r, rfl, hl⟩ | hx
    · simp only [List.length_append, List.length_cons] at hn
      have hr := ih r.length (by omega) r rfl
      rw [lines_append_sep sep l r hl, rest_append_sep, List.flatMap_cons, List.append_assoc, ← hr,
        List.append_assoc, List.singleton_append]
    · rw [lines_of_notMem sep xs hx, rest_of_notMem sep xs hx]
      rfl

theorem lines_flatMap_append (sep : α) (ls : List (List α)) (xs : List α) (h : ∀ l ∈ ls, sep ∉ l) :
    lines sep (ls.flatMap (· ++ [sep]) ++ xs) = ls ++ lines sep xs := by
  induction ls with
  | nil => rfl
  | cons l ls ih =>
    have hls := ih fun k hk => h k (List.mem_cons_of_mem _ hk)
    rw [List.flatMap_cons, List.append_assoc, List.append_assoc, List.singleton_append,
      lines_append_sep sep l _ (h l (List.mem_cons_self ..)), hls, List.cons_append]

theorem rest_flatMap_append (sep : α) (ls : List (List α)) (xs : List α) :
    rest sep (ls.flatMap (· ++ [sep]) ++ xs) = rest sep xs := by
  induction ls with
  | nil => rfl
  | cons l ls ih =>
    rw [List.flatMap_cons, List.append_assoc, List.append_assoc, List.singleton_append,
      rest_append_sep, ih]

theorem notMem_of_mem_lines (sep : α) (xs l : List α) (h : l ∈ lines sep xs) : sep ∉ l := by
  induction xs generalizing l with
  | nil => simp [lines] at h
  | cons x xs ih =>
    by_cases hx : x = sep
    · rw [lines, if_pos hx] at h
      rcases List.mem_cons.mp h with rfl | h
      · simp
      · exact ih l h
    · rw [lines, if_neg hx] at h
      cases hls : lines sep xs with
      | nil => simp [hls] at h
      | cons k ks =>
        rw [hls] at h ih
        rcases List.mem_cons.mp h with rfl | h
        · simp only [List.mem_cons, not_or]
          exact ⟨fun he => hx he.symm, ih k (List.mem_cons_self ..)⟩
        · exact ih l (List.mem_cons_of_mem _ h)

/-- A reader that has taken the lines of the front part goes on with its rest. -/
theorem lines_append (sep : α) (xs ys : List α) :
    lines sep (xs ++ ys) = lines sep xs ++ lines sep (rest sep xs ++ ys) := by
  conv_lhs => rw [eq_lines_rest sep xs, List.append_assoc]
  exact lines_flatMap_append sep _ _ (notMem_of_mem_lines sep xs)

theorem rest_append (sep : α) (xs ys : List α) :
    rest sep (xs ++ ys) = rest sep (rest sep xs ++ ys) := by
  conv_lhs => rw [eq_lines_rest sep xs, List.append_assoc]
  exact rest_flatMap_append sep _ _

/-- Whole lines at the front of a sequence of ended lines are its first lines. -/
theorem flatMap_sep_front (sep : α) (raw ls : List (List α)) (xs : List α)
    (hraw : ∀ l ∈ raw, sep ∉ l) (hls : ∀ l ∈ ls, sep ∉ l)
    (h : raw.flatMap (· ++ [sep]) ++ xs = ls.flatMap (· ++ [sep])) :
    ∃ more, ls = raw ++ more ∧ xs = more.flatMap (· ++ [sep]) := by
  induction raw generalizing ls with
  | nil => exact ⟨ls, rfl, h⟩
  | cons l raw ih =>
    cases ls with
    | nil => simp at h
    | cons k ls =>
      simp only [List.flatMap_cons, List.append_assoc, List.singleton_append] at h
      obtain ⟨rfl, hrest⟩ := front_unique sep l k _ _ (hraw l (List.mem_cons_self ..))
        (hls k (List.mem_cons_self ..)) h
      obtain ⟨more, rfl, hxs⟩ := ih ls (fun x hx => hraw x (List.mem_cons_of_mem _ hx))
        (fun x hx => hls x (List.mem_cons_of_mem _ hx)) hrest
      exact ⟨more, rfl, hxs⟩

omit [DecidableEq α] in
/-- What stands before the first separator of ended lines is part of the first of them. -/
theorem front_of_flatMap_sep (sep : α) (ls : List (List α)) (xs ys : List α) (hxs : sep ∉ xs)
    (hne : xs ≠ []) (h : xs ++ ys = ls.flatMap (· ++ [sep])) :
    ∃ l more, ls = l :: more ∧ xs <+: l := by
  cases ls with
  | nil => simp [hne] at h
  | cons l ls =>
    refine ⟨l, ls, rfl, ?_⟩
    simp only [List.flatMap_cons, List.append_assoc, List.singleton_append] at h
    rcases List.append_eq_append_iff.mp h with ⟨zs, hl, -⟩ | ⟨zs, hl, hrest⟩
    · exact ⟨zs, hl.symm⟩
    · cases zs with
      | nil => exact ⟨[], by simpa using hl⟩
      | cons z zs =>
        simp only [List.cons_append, List.cons.injEq] at hrest
        exact absurd (by rw [hl, hrest.1]; simp) hxs

omit [DecidableEq α] in
/-- Before the last of ended lines there is a separator for each of the others. -/
theorem init_of_flatMap_sep (sep : α) (ls : List (List α)) (last xs ys : List α) (hxs : sep ∉ xs)
    (hlen : ys.length ≤ last.length + 1) (h : xs ++ ys = (ls ++ [last]).flatMap (· ++ [sep])) :
    ls = [] := by
  cases ls with
  | nil => rfl
  | cons l ls =>
    exfalso
    rw [List.flatMap_append] at h
    obtain ⟨zs, hzs⟩ : (l :: ls).flatMap (· ++ [sep]) <+: xs := by
      have hall : (l :: ls).flatMap (· ++ [sep]) <+: xs ++ ys := ⟨_, h.symm⟩
      refine List.prefix_of_prefix_length_le hall (List.prefix_append _ _) ?_
      have hsize := congrArg List.length h
      simp only [List.length_append, List.flatMap_cons, List.flatMap_nil, List.length_nil,
        List.length_singleton] at hsize ⊢
      omega
    exact hxs (by rw [← hzs]; simp)

omit [DecidableEq α] in
theorem append_take_drop (a b c : List α) (n : ℕ) :
    a ++ b.take n ++ (b.drop n ++ c) = a ++ (b ++ c) := by
  rw [List.append_assoc, ← List.append_assoc (b.take n), List.take_append_drop]

end FiveNinesEcho.Lib
