import Mathlib.Data.List.Basic
import Mathlib.Logic.Function.Basic

/-!
# A directory

Names for files, and what is in the files. A file that is open stays what it was when its name is
given to another one, so two processes may write to one file under different names: `rename` is
atomic for the name, not for what is written to the file before or after.
-/

namespace FiveNinesEcho.Lib
variable {ν : Type} [DecidableEq ν]

/-- `fresh` and everything above are files that do not exist yet. -/
structure Directory (ν : Type) where
  names : ν → Option ℕ
  data : ℕ → List UInt8
  fresh : ℕ
  named : ∀ n i, names n = some i → i < fresh
  distinct : ∀ n m i, names n = some i → names m = some i → n = m

namespace Directory

/-- What is in the file of that name. -/
def read (d : Directory ν) (n : ν) : Option (List UInt8) := (d.names n).map d.data

/-- `open` with `O_CREAT | O_TRUNC`: the file of that name emptied, or a new one. -/
def create (d : Directory ν) (n : ν) : Directory ν × ℕ :=
  match h : d.names n with
  | some i => ({ d with data := Function.update d.data i [] }, i)
  | none =>
    ({ names := Function.update d.names n (some d.fresh)
       data := Function.update d.data d.fresh []
       fresh := d.fresh + 1
       named := by
         intro m i hm
         by_cases hmn : m = n
         · subst hmn
           simp only [Function.update_self, Option.some.injEq] at hm
           omega
         · rw [Function.update_of_ne hmn] at hm
           exact Nat.lt_succ_of_lt (d.named m i hm)
       distinct := by
         intro m m' i hm hm'
         have hlt : ∀ k j, d.names k = some j → j ≠ d.fresh := fun k j hk => by
           have := d.named k j hk
           omega
         by_cases hmn : m = n
         · by_cases hmn' : m' = n
           · rw [hmn, hmn']
           · subst hmn
             simp only [Function.update_self, Option.some.injEq] at hm
             rw [Function.update_of_ne hmn'] at hm'
             exact absurd hm.symm (hlt m' i hm')
         · rw [Function.update_of_ne hmn] at hm
           by_cases hmn' : m' = n
           · subst hmn'
             simp only [Function.update_self, Option.some.injEq] at hm'
             exact absurd hm'.symm (hlt m i hm)
           · rw [Function.update_of_ne hmn'] at hm'
             exact d.distinct m m' i hm hm' }, d.fresh)

/-- Bytes put at an offset; a gap is filled with zeros. -/
def overwrite (old : List UInt8) (offset : ℕ) (bs : List UInt8) : List UInt8 :=
  (old ++ List.replicate (offset - old.length) 0).take offset ++ bs ++ old.drop (offset + bs.length)

/-- A write to an open file. -/
def writeAt (d : Directory ν) (i offset : ℕ) (bs : List UInt8) : Directory ν :=
  { d with data := Function.update d.data i (overwrite (d.data i) offset bs) }

/-- `rename`: fails when there is no file of the old name. -/
def rename (d : Directory ν) (old new : ν) : Option (Directory ν) :=
  match h : d.names old with
  | none => none
  | some i => some { d with
      names := Function.update (Function.update d.names old none) new (some i)
      named := by
        intro n j hn
        by_cases hnew : n = new
        · subst hnew
          simp only [Function.update_self, Option.some.injEq] at hn
          subst hn
          exact d.named old i h
        · rw [Function.update_of_ne hnew] at hn
          by_cases hold : n = old
          · subst hold
            simp at hn
          · rw [Function.update_of_ne hold] at hn
            exact d.named n j hn
      distinct := by
        intro n m j hn hm
        have hback : ∀ k, k ≠ new →
            Function.update (Function.update d.names old none) new (some i) k = some j →
            k ≠ old ∧ d.names k = some j := by
          intro k hk hkj
          rw [Function.update_of_ne hk] at hkj
          by_cases hold : k = old
          · subst hold
            simp at hkj
          · rw [Function.update_of_ne hold] at hkj
            exact ⟨hold, hkj⟩
        by_cases hnn : n = new
        · by_cases hmn : m = new
          · rw [hnn, hmn]
          · obtain ⟨hold, hmj⟩ := hback m hmn hm
            rw [hnn, Function.update_self, Option.some.injEq] at hn
            rw [← hn] at hmj
            exact absurd (d.distinct m old i hmj h) hold
        · obtain ⟨hold, hnj⟩ := hback n hnn hn
          by_cases hmn : m = new
          · rw [hmn, Function.update_self, Option.some.injEq] at hm
            rw [← hm] at hnj
            exact absurd (d.distinct n old i hnj h) hold
          · exact d.distinct n m j hnj (hback m hmn hm).2 }

/-! ### What an operation changes -/

theorem create_names (d : Directory ν) (n : ν) :
    (d.create n).1.names n = some (d.create n).2 := by
  unfold create
  split
  · next i h => exact h
  · simp

theorem create_existing {d : Directory ν} {n : ν} {i : ℕ} (h : d.names n = some i) :
    (d.create n).2 = i := by
  unfold create
  split
  · next j hj =>
    cases hj.symm.trans h
    rfl
  · next hnone =>
    rw [hnone] at h
    cases h

theorem create_data (d : Directory ν) (n : ν) : (d.create n).1.data (d.create n).2 = [] := by
  unfold create
  split <;> simp

theorem create_read_of_ne (d : Directory ν) {n m : ν} (h : m ≠ n) :
    (d.create n).1.read m = d.read m := by
  unfold create
  split
  · next i hi =>
    simp only [read]
    cases hm : d.names m with
    | none => rfl
    | some j =>
      have hne : j ≠ i := by
        rintro rfl
        exact h (d.distinct m n j hm hi)
      simp [Function.update_of_ne hne]
  · simp only [read, Function.update_of_ne h]
    cases hm : d.names m with
    | none => rfl
    | some j =>
      have hne : j ≠ d.fresh := by
        have hlt := d.named m j hm
        omega
      simp [Function.update_of_ne hne]

omit [DecidableEq ν] in
theorem writeAt_read_of_ne (d : Directory ν) {i : ℕ} {m : ν} (h : d.names m ≠ some i) (offset : ℕ)
    (bs : List UInt8) : (d.writeAt i offset bs).read m = d.read m := by
  simp only [read, writeAt]
  cases hm : d.names m with
  | none => rfl
  | some j =>
    have hne : j ≠ i := by
      rintro rfl
      exact h hm
    simp [Function.update_of_ne hne]

theorem rename_some {d : Directory ν} {old : ν} {i : ℕ} (h : d.names old = some i) (new : ν) :
    ∃ d', d.rename old new = some d' ∧ d'.data = d.data ∧ d'.names new = some i ∧
      d'.read new = some (d.data i) := by
  unfold rename
  split
  · next hnone =>
    rw [hnone] at h
    cases h
  · next j hj =>
    cases hj.symm.trans h
    refine ⟨_, rfl, rfl, by simp, by simp [read]⟩

/-- A file written from the front has the front of the text. -/
theorem overwrite_take (text : List UInt8) {offset : ℕ} (h : offset ≤ text.length) (n : ℕ) :
    overwrite (text.take offset) offset ((text.drop offset).take n) = text.take (offset + n) := by
  have hlen : (text.take offset).length = offset := by simp [h]
  simp only [overwrite, hlen, Nat.sub_self, List.replicate_zero, List.append_nil,
    List.take_take, Nat.min_self, List.drop_take, List.take_add]
  have hgone : offset - (offset + ((text.drop offset).take n).length) = 0 := by omega
  rw [hgone, List.take_zero, List.append_nil]

end Directory

end FiveNinesEcho.Lib
