import Mathlib.Algebra.Order.Field.Basic
import Mathlib.Tactic.Linarith
import Mathlib.Tactic.Ring

/-!
# Refilling a token bucket

A bucket of capacity `cap` that fills at `rate` tokens per unit of time and is only brought up to
date when somebody looks at it: `level` is what `tokens` have become after a time `dt`. Everything
an admission bound needs is that the level grows no faster than the rate, and that a look in between
changes nothing.
-/

namespace FiveNinesEcho.Lib.TokenBucket
variable {K : Type*} [Field K] [LinearOrder K]

/-- `tokens` after `dt`, never above the capacity. -/
def level (cap rate tokens dt : K) : K := min (tokens + dt * rate) cap

variable {cap rate tokens dt dt' : K}

theorem level_le_cap : level cap rate tokens dt ≤ cap := min_le_right _ _

theorem level_zero (h : tokens ≤ cap) : level cap rate tokens 0 = tokens := by
  rw [level, zero_mul, add_zero]
  exact min_eq_left h

theorem level_of_full (h : cap ≤ tokens + dt * rate) : level cap rate tokens dt = cap :=
  min_eq_right h

variable [IsStrictOrderedRing K]

theorem le_level (hrate : 0 ≤ rate) (hdt : 0 ≤ dt) (h : tokens ≤ cap) :
    tokens ≤ level cap rate tokens dt := by
  refine le_min ?_ h
  have := mul_nonneg hdt hrate
  linarith

theorem level_nonneg (hcap : 0 ≤ cap) (hrate : 0 ≤ rate) (hdt : 0 ≤ dt) (h : 0 ≤ tokens) :
    0 ≤ level cap rate tokens dt :=
  le_min (add_nonneg h (mul_nonneg hdt hrate)) hcap

theorem one_le_level (hcap : 1 ≤ cap) (hrate : 0 ≤ rate) (hdt : 0 ≤ dt) (h : 1 ≤ tokens) :
    1 ≤ level cap rate tokens dt := by
  refine le_min ?_ hcap
  have := mul_nonneg hdt hrate
  linarith

/-- The level rises at the rate or slower. -/
theorem level_le_add (cap tokens : K) (hrate : 0 ≤ rate) (h : dt ≤ dt') :
    level cap rate tokens dt' ≤ level cap rate tokens dt + (dt' - dt) * rate := by
  have hgrow : 0 ≤ (dt' - dt) * rate := mul_nonneg (sub_nonneg.mpr h) hrate
  have hsplit : tokens + dt' * rate = tokens + dt * rate + (dt' - dt) * rate := by ring
  rw [level, level, hsplit, ← min_add_add_right]
  exact min_le_min le_rfl (by linarith)

end FiveNinesEcho.Lib.TokenBucket
