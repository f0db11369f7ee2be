import FiveNinesEcho.Lib.Table
import FiveNinesEcho.Lib.TokenBucket
import Mathlib.Algebra.Order.Ring.Rat
import Mathlib.Data.List.MinMax
import Mathlib.Data.Prod.Lex
import Mathlib.Order.OrderDual
import Mathlib.Tactic.NormNum
import Mathlib.Tactic.Positivity

/-!
# The rate limiter (`limits.rs:75-258`)

One token bucket for each client address, in a hash map under a mutex. A call first drops the
buckets that nobody has touched for the idle TTL; if its own address is then untracked and the map
is at its cap, it looks for a bucket to evict and is refused where it finds none; at last it brings
its bucket up to date and takes a token if there is one.

Token counts are rationals, instants and durations are nanoseconds as `Instant` and `Duration` keep
them, and the statistics do not overflow. The eviction scan walks the map in an order of its own,
which a call brings along.
-/

namespace FiveNinesEcho.Limits
open Lib TokenBucket

structure Bucket where
  tokens : ℚ
  lastRefill : ℕ
  lastTouch : ℕ
  deriving Repr, DecidableEq

structure LimiterInner (Ip : Type) where
  buckets : Table Ip Bucket := ∅
  idleEvictions : ℕ := 0
  lruEvictions : ℕ := 0
  capRefused : ℕ := 0

/-- What `RateLimiter` keeps beside the state behind its mutex. -/
structure RateLimiter where
  capacity : ℚ
  refillPerSec : ℚ
  idleTtl : ℕ
  maxTracked : ℕ
  one_le_capacity : 1 ≤ capacity
  refill_nonneg : 0 ≤ refillPerSec

def nanosPerSec : ℕ := 1000000000

/-- `Duration::as_secs_f64`. -/
def secs (nanos : ℕ) : ℚ := nanos / nanosPerSec

def RateLimiter.withLimits (refillPerSec burst : UInt32) (maxTracked : ℕ) (idleTtlSecs : UInt64) :
    RateLimiter where
  capacity := (max burst.toNat 1 : ℕ)
  refillPerSec := refillPerSec.toNat
  idleTtl := idleTtlSecs.toNat * nanosPerSec
  maxTracked := maxTracked
  one_le_capacity := by exact_mod_cast le_max_right _ _
  refill_nonneg := Nat.cast_nonneg _

def RateLimiter.enabled (limiter : RateLimiter) : Bool := 0 < limiter.refillPerSec

/-- The count a bucket is brought to at `now`; `duration_since` saturates at zero. -/
def Bucket.refilled (limiter : RateLimiter) (now : ℕ) (b : Bucket) : ℚ :=
  level limiter.capacity limiter.refillPerSec b.tokens (secs (now - b.lastRefill))

namespace LimiterInner
variable {Ip : Type}

def evictIdleBuckets (now idleTtl : ℕ) (inner : LimiterInner Ip) : LimiterInner Ip :=
  let kept := Table.retain (fun b => now - b.lastTouch < idleTtl) inner.buckets
  { inner with
    buckets := kept
    idleEvictions := inner.idleEvictions + (Table.size inner.buckets - Table.size kept) }

/-- The two variables of the loop in `evict_at_cap`. -/
structure Scan (Ip : Type) where
  bestCandidate : Option (Ip × ℚ × ℕ) := none
  allThrottled : Bool := true

/-- One turn of the loop: most tokens first, ties by the oldest touch. -/
def Scan.visit (acc : Scan Ip) (entry : Sigma fun _ : Ip => Bucket) : Scan Ip :=
  let tokens := entry.2.tokens
  let lastTouch := entry.2.lastTouch
  { allThrottled := if 1 ≤ tokens then false else acc.allThrottled
    bestCandidate := match acc.bestCandidate with
      | some (bestIp, bestTokens, bestTouch) =>
        if bestTokens < tokens ∨ (tokens = bestTokens ∧ lastTouch < bestTouch) then
          some (entry.1, tokens, lastTouch)
        else some (bestIp, bestTokens, bestTouch)
      | none => some (entry.1, tokens, lastTouch) }

variable [DecidableEq Ip]

def evictAtCap (it : Iteration (Sigma fun _ : Ip => Bucket)) (inner : LimiterInner Ip) :
    LimiterInner Ip × Bool :=
  let scan := (it.order inner.buckets.entries).foldl Scan.visit {}
  if scan.allThrottled then (inner, false)
  else match scan.bestCandidate with
    | some (ip, _, _) =>
      ({ inner with
          buckets := inner.buckets.erase ip
          lruEvictions := inner.lruEvictions + 1 }, true)
    | none => (inner, false)

/-- `try_take_at` from `entry(ip)` on. -/
def takeToken (limiter : RateLimiter) (now : ℕ) (ip : Ip) (inner : LimiterInner Ip) :
    LimiterInner Ip × Bool :=
  let bucket := (inner.buckets.lookup ip).getD ⟨limiter.capacity, now, now⟩
  let tokens := bucket.refilled limiter now
  if 1 ≤ tokens then
    ({ inner with buckets := inner.buckets.insert ip ⟨tokens - 1, now, now⟩ }, true)
  else ({ inner with buckets := inner.buckets.insert ip ⟨tokens, now, now⟩ }, false)

end LimiterInner

/-- A call, with the order its eviction scan meets the buckets in. -/
structure Call (Ip : Type) where
  now : ℕ
  ip : Ip
  scan : Iteration (Sigma fun _ : Ip => Bucket)

namespace LimiterInner
variable {Ip : Type} [DecidableEq Ip]

def tryTakeAt (limiter : RateLimiter) (call : Call Ip) (inner : LimiterInner Ip) :
    LimiterInner Ip × Bool :=
  let swept := inner.evictIdleBuckets call.now limiter.idleTtl
  if 0 < limiter.maxTracked ∧ limiter.maxTracked ≤ Table.size swept.buckets ∧
      call.ip ∉ swept.buckets then
    match swept.evictAtCap call.scan with
    | (made, true) => made.takeToken limiter call.now call.ip
    | (full, false) => ({ full with capRefused := full.capRefused + 1 }, false)
  else swept.takeToken limiter call.now call.ip

end LimiterInner

/-- A refill rate of 0 disables the limiter. -/
def RateLimiter.tryTake {Ip : Type} [DecidableEq Ip] (limiter : RateLimiter) (call : Call Ip)
    (inner : LimiterInner Ip) : LimiterInner Ip × Bool :=
  if limiter.enabled then inner.tryTakeAt limiter call else (inner, true)

/-! ### The eviction scan -/

/-- What the scan compares: more tokens, then the older touch. -/
def Bucket.rank (b : Bucket) : ℚ ×ₗ ℕᵒᵈ := toLex (b.tokens, OrderDual.toDual b.lastTouch)

theorem Bucket.rank_lt {b c : Bucket} :
    b.rank < c.rank ↔ b.tokens < c.tokens ∨ (c.tokens = b.tokens ∧ c.lastTouch < b.lastTouch) := by
  rw [Prod.Lex.lt_iff]
  exact or_congr Iff.rfl (and_congr eq_comm Iff.rfl)

theorem Bucket.rank_le {b c : Bucket} :
    b.rank ≤ c.rank ↔ b.tokens < c.tokens ∨ (b.tokens = c.tokens ∧ c.lastTouch ≤ b.lastTouch) := by
  rw [Prod.Lex.le_iff]
  exact Iff.rfl

namespace LimiterInner
variable {Ip : Type}

def candidate (entry : Sigma fun _ : Ip => Bucket) : Ip × ℚ × ℕ :=
  (entry.1, entry.2.tokens, entry.2.lastTouch)

/-- The loop computes the first bucket of greatest rank and whether all hold less than a token. -/
theorem foldl_visit (l : List (Sigma fun _ : Ip => Bucket))
    (best : Option (Sigma fun _ : Ip => Bucket)) (throttled : Bool) :
    l.foldl Scan.visit ⟨best.map candidate, throttled⟩ =
      ⟨(l.foldl (List.argAux fun b c => c.2.rank < b.2.rank) best).map candidate,
        l.all (fun e => decide (e.2.tokens < 1)) && throttled⟩ := by
  induction l generalizing best throttled with
  | nil => simp
  | cons e l ih =>
    have hbest : (Scan.visit ⟨best.map candidate, throttled⟩ e).bestCandidate =
        (List.argAux (fun b c => c.2.rank < b.2.rank) best e).map candidate := by
      cases best with
      | none => rfl
      | some c =>
        simp only [Scan.visit, Option.map_some, candidate, List.argAux, Bucket.rank_lt]
        split <;> rfl
    have hall : (Scan.visit ⟨best.map candidate, throttled⟩ e).allThrottled =
        (decide (e.2.tokens < 1) && throttled) := by
      by_cases ht : 1 ≤ e.2.tokens
      · simp [Scan.visit, ht]
      · simp [Scan.visit, ht, lt_of_not_ge ht]
    have hvisit : Scan.visit ⟨best.map candidate, throttled⟩ e =
        ⟨(List.argAux (fun b c => c.2.rank < b.2.rank) best e).map candidate,
          decide (e.2.tokens < 1) && throttled⟩ := by
      rw [← hbest, ← hall]
    rw [List.foldl_cons, hvisit, ih, List.foldl_cons, List.all_cons]
    simp only [Scan.mk.injEq, true_and]
    ac_rfl

theorem scan_eq (l : List (Sigma fun _ : Ip => Bucket)) :
    l.foldl Scan.visit {} =
      ⟨(l.argmax (fun e => e.2.rank)).map candidate, l.all (fun e => decide (e.2.tokens < 1))⟩ := by
  have h := foldl_visit l none true
  rw [Bool.and_true] at h
  exact h

/-- No bucket is ahead of `b` in the scan. -/
def Fullest [DecidableEq Ip] (inner : LimiterInner Ip) (b : Bucket) : Prop :=
  ∀ ip c, inner.buckets.lookup ip = some c →
    c.tokens ≤ b.tokens ∧ (c.tokens = b.tokens → b.lastTouch ≤ c.lastTouch)

variable [DecidableEq Ip]

/-- `inner` less the bucket of `ip`, which counts as one LRU eviction. -/
def evicted (ip : Ip) (inner : LimiterInner Ip) : LimiterInner Ip :=
  { inner with
    buckets := inner.buckets.erase ip
    lruEvictions := inner.lruEvictions + 1 }

theorem Fullest.agree {inner : LimiterInner Ip} {ip ip' : Ip} {b b' : Bucket}
    (h : inner.buckets.lookup ip = some b) (h' : inner.buckets.lookup ip' = some b')
    (hb : inner.Fullest b) (hb' : inner.Fullest b') :
    b.tokens = b'.tokens ∧ b.lastTouch = b'.lastTouch := by
  obtain ⟨hle, htie⟩ := hb ip' b' h'
  obtain ⟨hle', htie'⟩ := hb' ip b h
  have htokens := le_antisymm hle' hle
  exact ⟨htokens, le_antisymm (htie htokens.symm) (htie' htokens)⟩

theorem evictAtCap_cases (it : Iteration (Sigma fun _ : Ip => Bucket)) (inner : LimiterInner Ip) :
    ((∀ ip b, inner.buckets.lookup ip = some b → b.tokens < 1) ∧
      inner.evictAtCap it = (inner, false)) ∨
    (∃ ip b, inner.buckets.lookup ip = some b ∧ inner.Fullest b ∧ 1 ≤ b.tokens ∧
      inner.evictAtCap it = (inner.evicted ip, true)) := by
  have hmem := Table.mem_order it inner.buckets
  by_cases hall : ∀ e ∈ it.order inner.buckets.entries, e.2.tokens < 1
  · refine Or.inl ⟨fun ip b hb => hall ⟨ip, b⟩ ((hmem ip b).mpr hb), ?_⟩
    have hthrottled : (it.order inner.buckets.entries).all (fun e => decide (e.2.tokens < 1)) = true :=
      List.all_eq_true.mpr (fun e he => decide_eq_true (hall e he))
    simp only [evictAtCap, scan_eq, hthrottled, if_true]
  · -- a bucket holds a token, so the best one does
    right
    obtain ⟨e, he, hone⟩ : ∃ e ∈ it.order inner.buckets.entries, 1 ≤ e.2.tokens := by
      simpa using hall
    have hnotAll : (it.order inner.buckets.entries).all (fun e => decide (e.2.tokens < 1)) = false := by
      rw [List.all_eq_false]
      exact ⟨e, he, by simpa using hone⟩
    cases hbest : (it.order inner.buckets.entries).argmax (fun e => e.2.rank) with
    | none =>
      rw [List.argmax_eq_none.mp hbest] at he
      cases he
    | some v =>
      have hle : ∀ e ∈ it.order inner.buckets.entries, e.2.rank ≤ v.2.rank :=
        fun e he => List.le_of_mem_argmax (f := fun e => e.2.rank) he hbest
      refine ⟨v.1, v.2, (hmem v.1 v.2).mp (List.argmax_mem hbest), ?_, ?_, ?_⟩
      · intro ip c hc
        rcases Bucket.rank_le.mp (hle ⟨ip, c⟩ ((hmem ip c).mpr hc)) with hlt | ⟨heq, htouch⟩
        · exact ⟨hlt.le, fun h => absurd h hlt.ne⟩
        · exact ⟨heq.le, fun _ => htouch⟩
      · rcases Bucket.rank_le.mp (hle e he) with hlt | ⟨heq, _⟩
        · exact hone.trans hlt.le
        · exact hone.trans heq.le
      · simp only [evictAtCap, scan_eq, hnotAll, hbest, Option.map_some, candidate,
          Bool.false_eq_true, if_false]
        rfl

/-! ### One call -/

/-- The count the bucket of an address has at `now`, a new one where there is none. -/
def current (limiter : RateLimiter) (now : ℕ) (o : Option Bucket) : ℚ :=
  (o.getD ⟨limiter.capacity, now, now⟩).refilled limiter now

/-- The bucket after a call of its address, and the answer. -/
def taken (limiter : RateLimiter) (now : ℕ) (o : Option Bucket) : Bucket × Bool :=
  if 1 ≤ current limiter now o then (⟨current limiter now o - 1, now, now⟩, true)
  else (⟨current limiter now o, now, now⟩, false)

theorem takeToken_eq (limiter : RateLimiter) (now : ℕ) (ip : Ip) (inner : LimiterInner Ip) :
    inner.takeToken limiter now ip =
      ({ inner with
          buckets := inner.buckets.insert ip (taken limiter now (inner.buckets.lookup ip)).1 },
        (taken limiter now (inner.buckets.lookup ip)).2) := by
  unfold takeToken taken current
  dsimp only
  split <;> rfl

omit [DecidableEq Ip] in
theorem secs_nonneg (nanos : ℕ) : 0 ≤ secs nanos := by
  unfold secs
  positivity

/-- The untracked address of a call meets a full map. -/
def AtCap (limiter : RateLimiter) (call : Call Ip) (swept : LimiterInner Ip) : Prop :=
  0 < limiter.maxTracked ∧ limiter.maxTracked ≤ Table.size swept.buckets ∧
    call.ip ∉ swept.buckets

instance decidableAtCap (limiter : RateLimiter) (call : Call Ip) (swept : LimiterInner Ip) :
    Decidable (AtCap limiter call swept) :=
  inferInstanceAs (Decidable (_ ∧ _ ∧ _))

/-- Everything a call can do after its sweep: it is refused, it evicts, or neither. -/
theorem tryTakeAt_cases (limiter : RateLimiter) (call : Call Ip) (inner swept : LimiterInner Ip)
    (hswept : inner.evictIdleBuckets call.now limiter.idleTtl = swept) :
    (AtCap limiter call swept ∧ (∀ ip b, swept.buckets.lookup ip = some b → b.tokens < 1) ∧
      inner.tryTakeAt limiter call = ({ swept with capRefused := swept.capRefused + 1 }, false)) ∨
    (AtCap limiter call swept ∧ ∃ ip b, swept.buckets.lookup ip = some b ∧ swept.Fullest b ∧
      1 ≤ b.tokens ∧
      inner.tryTakeAt limiter call = (swept.evicted ip).takeToken limiter call.now call.ip) ∨
    (¬ AtCap limiter call swept ∧
      inner.tryTakeAt limiter call = swept.takeToken limiter call.now call.ip) := by
  unfold tryTakeAt AtCap
  dsimp only
  rw [hswept]
  split
  · next hcap =>
    rcases evictAtCap_cases call.scan swept with ⟨hlow, heq⟩ | ⟨ip, b, hb, hfull, hone, heq⟩
    · exact Or.inl ⟨hcap, hlow, by rw [heq]⟩
    · exact Or.inr (Or.inl ⟨hcap, ip, b, hb, hfull, hone, by rw [heq]⟩)
  · next hcap => exact Or.inr (Or.inr ⟨hcap, rfl⟩)

end LimiterInner

end FiveNinesEcho.Limits
