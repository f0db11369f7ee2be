import FiveNinesEcho.Lib.Environ
import Mathlib.Algebra.Order.Ring.Int
import Mathlib.Data.Nat.Digits.Defs

/-!
# Descriptors

A descriptor is an `i32` that a process has an open file under; the same number in another process
is another descriptor. What `exec` keeps are the descriptors without the close-on-exec flag, so a
number written into a child's environment means the parent's file there exactly if the flag was
clear.
-/

namespace FiveNinesEcho.Lib

/-! ### The number and its text -/

def RawFd := { z : ℤ // -2 ^ 31 ≤ z ∧ z < 2 ^ 31 }
  deriving DecidableEq

def RawFd.ofInt (z : ℤ) : Option RawFd := if h : -2 ^ 31 ≤ z ∧ z < 2 ^ 31 then some ⟨z, h⟩ else none

def RawFd.ofNat (n : ℕ) (h : n < 2 ^ 31) : RawFd := ⟨n, by omega, by omega⟩

def RawFd.text (fd : RawFd) : String := toString fd.1

def ofDigits (ds : List Char) : Option ℕ :=
  if ds ≠ [] ∧ ds.all Char.isDigit = true then some (Nat.ofDigitChars 10 ds 0) else none

/-- `str::parse` of an `i32`: digits after at most one sign. -/
def RawFd.parse (s : String) : Option RawFd :=
  match s.toList with
  | '-' :: ds => (ofDigits ds).bind fun n => RawFd.ofInt (-n)
  | '+' :: ds => (ofDigits ds).bind fun n => RawFd.ofInt n
  | ds => (ofDigits ds).bind fun n => RawFd.ofInt n

theorem toDigits_isDigit (n : ℕ) : ∀ c ∈ Nat.toDigits 10 n, c.isDigit = true := fun _ hc =>
  Nat.isDigit_of_mem_toDigits (by decide) (by decide) hc

theorem ofDigits_toDigits (n : ℕ) : ofDigits (Nat.toDigits 10 n) = some n := by
  rw [ofDigits, if_pos ⟨Nat.toDigits_ne_nil, List.all_eq_true.mpr (toDigits_isDigit n)⟩,
    Nat.ofDigitChars_ten_toDigits]

theorem RawFd.ofInt_val (fd : RawFd) : RawFd.ofInt fd.1 = some fd := by
  rw [RawFd.ofInt, dif_pos fd.2]
  rfl

theorem RawFd.parse_digits {s : String} {n : ℕ} (h : s.toList = Nat.toDigits 10 n) :
    RawFd.parse s = RawFd.ofInt n := by
  have hplain : ∀ c ds, Nat.toDigits 10 n = c :: ds → c ≠ '-' ∧ c ≠ '+' := by
    intro c ds h
    have hdigit := toDigits_isDigit n c (by simp [h])
    constructor
    · rintro rfl
      simp at hdigit
    · rintro rfl
      simp at hdigit
  unfold RawFd.parse
  rw [h]
  split
  · next ds h => exact absurd rfl (hplain _ _ h).1
  · next ds h => exact absurd rfl (hplain _ _ h).2
  · rw [ofDigits_toDigits, Option.bind_some]

theorem RawFd.parse_negative {s : String} {n : ℕ} (h : s.toList = '-' :: Nat.toDigits 10 n) :
    RawFd.parse s = RawFd.ofInt (-n) := by
  simp only [RawFd.parse, h, ofDigits_toDigits, Option.bind_some]

theorem RawFd.parse_text (fd : RawFd) : RawFd.parse fd.text = some fd := by
  rw [← RawFd.ofInt_val fd, RawFd.text]
  generalize fd.1 = z
  cases z with
  | ofNat n =>
    apply RawFd.parse_digits
    simp only [toString, Int.repr, Nat.toList_repr]
  | negSucc n =>
    rw [Int.negSucc_eq]
    apply RawFd.parse_negative (n := n + 1)
    rw [← Int.negSucc_eq]
    simp only [toString, Int.repr, String.toList_append, Nat.toList_repr]
    rfl

theorem RawFd.text_noNul (fd : RawFd) : 0 ∉ utf8 fd.text := by
  refine utf8_noNul fun c hc => ?_
  obtain ⟨z, hz⟩ := fd
  have hdigit : ∀ n : ℕ, ∀ c ∈ Nat.toDigits 10 n, c.toNat ≠ 0 := by
    intro n c hc hzero
    have hnul : c = '\x00' := Char.toNat_inj.mp hzero
    have hd := toDigits_isDigit n c hc
    rw [hnul] at hd
    cases hd
  cases z with
  | ofNat n =>
    simp only [RawFd.text, toString, Int.repr, Nat.toList_repr] at hc
    exact hdigit n c hc
  | negSucc n =>
    simp only [RawFd.text, toString, Int.repr, String.toList_append, Nat.toList_repr,
      List.mem_append] at hc
    rcases hc with hc | hc
    · have hc : c = '-' := by simpa using hc
      rw [hc]
      decide
    · exact hdigit _ c hc

/-! ### The table of a process -/

structure Descriptors (F : Type) where
  file : RawFd → Option F
  cloexec : RawFd → Bool

namespace Descriptors
variable {F : Type}

def opened (t : Descriptors F) (fd : RawFd) (f : F) (cloexec : Bool) : Descriptors F :=
  ⟨Function.update t.file fd (some f), Function.update t.cloexec fd cloexec⟩

def closed (t : Descriptors F) (fd : RawFd) : Descriptors F :=
  { t with file := Function.update t.file fd none }

def flagged (t : Descriptors F) (fd : RawFd) (flag : Bool) : Descriptors F :=
  { t with cloexec := Function.update t.cloexec fd flag }

/-- What the image that a child executes finds open, with no flag set. -/
def inherited (t : Descriptors F) : Descriptors F :=
  ⟨fun fd => if t.cloexec fd = true then none else t.file fd, fun _ => false⟩

@[simp] theorem file_flagged (t : Descriptors F) (fd : RawFd) (flag : Bool) :
    (t.flagged fd flag).file = t.file := rfl

@[simp] theorem cloexec_flagged_self (t : Descriptors F) (fd : RawFd) (flag : Bool) :
    (t.flagged fd flag).cloexec fd = flag := by
  simp [flagged]

theorem cloexec_flagged_of_ne (t : Descriptors F) {fd fd' : RawFd} (flag : Bool) (h : fd' ≠ fd) :
    (t.flagged fd flag).cloexec fd' = t.cloexec fd' := by
  simp [flagged, h]

theorem file_closed_of_ne (t : Descriptors F) {fd fd' : RawFd} (h : fd' ≠ fd) :
    (t.closed fd).file fd' = t.file fd' := by
  simp [closed, h]

theorem file_opened_of_ne (t : Descriptors F) {fd fd' : RawFd} (f : F) (c : Bool) (h : fd' ≠ fd) :
    (t.opened fd f c).file fd' = t.file fd' := by
  simp [opened, h]

theorem file_inherited (t : Descriptors F) {fd : RawFd} (h : t.cloexec fd = false) :
    t.inherited.file fd = t.file fd := by
  simp [inherited, h]

end Descriptors

end FiveNinesEcho.Lib
