import FiveNinesEcho.Limits.Accounting

/-!
# One address at a time

Without a cap on the tracked addresses a call reads and writes the bucket of its own address; all it
does to the others is the idle sweep. So the limiter falls apart into one small machine for each
address, `kept` for the sweep and `taken` for the call, and two runs are compared by comparing what
these would answer from now on.
-/

namespace FiveNinesEcho.Limits
open Lib TokenBucket
namespace LimiterInner
variable {Ip : Type} [DecidableEq Ip]

/-- The answers of a run, each with its address; `take` is the call. -/
def answers (take : Call Ip → LimiterInner Ip → LimiterInner Ip × Bool) :
    LimiterInner Ip → List (Call Ip) → List (Ip × Bool)
  | _, [] => []
  | inner, call :: calls => (call.ip, (take call inner).2) :: answers take (take call inner).1 calls

/-- The same call of a limiter that never evicts. -/
def tryTakeKeeping (limiter : RateLimiter) (call : Call Ip) (inner : LimiterInner Ip) :
    LimiterInner Ip × Bool :=
  inner.takeToken limiter call.now call.ip

/-- What the idle sweep at `now` leaves of a bucket. -/
def kept (limiter : RateLimiter) (now : ℕ) (o : Option Bucket) : Option Bucket :=
  o.filter (fun b => now - b.lastTouch < limiter.idleTtl)

theorem kept_some (limiter : RateLimiter) (now : ℕ) (b : Bucket) :
    kept limiter now (some b) = if now - b.lastTouch < limiter.idleTtl then some b else none := by
  rw [kept, Option.filter_some]
  simp only [decide_eq_true_eq]

theorem kept_kept (limiter : RateLimiter) {t now : ℕ} (h : t ≤ now) (o : Option Bucket) :
    kept limiter now (kept limiter t o) = kept limiter now o := by
  cases o with
  | none => rfl
  | some b =>
    rw [kept_some limiter t]
    split
    · rfl
    · next ht =>
      rw [kept_some, if_neg (by omega)]
      rfl

/-- Without a cap a call is the sweep and the token. -/
theorem tryTakeAt_uncapped {limiter : RateLimiter} (h : limiter.maxTracked = 0) (call : Call Ip)
    (inner : LimiterInner Ip) :
    inner.tryTakeAt limiter call =
      (inner.evictIdleBuckets call.now limiter.idleTtl).takeToken limiter call.now call.ip := by
  rcases tryTakeAt_cases limiter call inner _ rfl with ⟨hcap, _⟩ | ⟨hcap, _⟩ | ⟨_, heq⟩
  · exact absurd hcap.1 (by omega)
  · exact absurd hcap.1 (by omega)
  · exact heq

theorem lookup_takeToken (limiter : RateLimiter) (now : ℕ) (ip a : Ip) (inner : LimiterInner Ip) :
    (inner.takeToken limiter now ip).1.buckets.lookup a =
      if a = ip then some (taken limiter now (inner.buckets.lookup ip)).1
      else inner.buckets.lookup a := by
  rw [takeToken_eq]
  split
  · next h =>
    subst h
    exact AList.lookup_insert _
  · next h => exact AList.lookup_insert_ne h

theorem takeToken_answer (limiter : RateLimiter) (now : ℕ) (ip : Ip) (inner : LimiterInner Ip) :
    (inner.takeToken limiter now ip).2 = (taken limiter now (inner.buckets.lookup ip)).2 := by
  rw [takeToken_eq]

theorem lookup_swept (limiter : RateLimiter) (now : ℕ) (a : Ip) (inner : LimiterInner Ip) :
    (inner.evictIdleBuckets now limiter.idleTtl).buckets.lookup a =
      kept limiter now (inner.buckets.lookup a) :=
  Table.lookup_retain _ _ _

/-! ### Isolation -/

/-- From `t` on the two buckets are swept to the same. -/
def SameFrom (limiter : RateLimiter) (t : ℕ) (o o' : Option Bucket) : Prop :=
  ∀ now, t ≤ now → kept limiter now o = kept limiter now o'

theorem answers_isolated (limiter : RateLimiter) (h : limiter.maxTracked = 0) (a : Ip)
    (calls : List (Call Ip)) (hc : Chronological calls) (t : ℕ) (inner alone : LimiterInner Ip)
    (hfrom : ∀ c ∈ calls, t ≤ c.now)
    (hsame : SameFrom limiter t (inner.buckets.lookup a) (alone.buckets.lookup a)) :
    (answers (tryTakeAt limiter) inner calls).filter (fun r => decide (r.1 = a)) =
      answers (tryTakeAt limiter) alone (calls.filter (fun c => decide (c.ip = a))) := by
  induction calls generalizing t inner alone with
  | nil => rfl
  | cons c calls ih =>
    obtain ⟨hfirst, hrest⟩ := List.pairwise_cons.mp hc
    have htc := hfrom c (List.mem_cons_self ..)
    have hnow := hsame c.now htc
    by_cases hip : c.ip = a
    · -- both runs take from the same bucket
      subst hip
      have hbucket : ∀ s : LimiterInner Ip, (s.tryTakeAt limiter c).1.buckets.lookup c.ip =
          some (taken limiter c.now (kept limiter c.now (s.buckets.lookup c.ip))).1 := by
        intro s
        rw [tryTakeAt_uncapped h, lookup_takeToken, if_pos rfl, lookup_swept]
      have hanswer : ∀ s : LimiterInner Ip, (s.tryTakeAt limiter c).2 =
          (taken limiter c.now (kept limiter c.now (s.buckets.lookup c.ip))).2 := by
        intro s
        rw [tryTakeAt_uncapped h, takeToken_answer, lookup_swept]
      simp only [List.filter_cons, decide_true, if_true, answers]
      rw [hanswer inner, hanswer alone, hnow]
      congr 1
      refine ih hrest c.now _ _ hfirst (fun now _ => ?_)
      rw [hbucket, hbucket, hnow]
    · -- the call of another address only sweeps
      simp only [List.filter_cons, hip, decide_false, Bool.false_eq_true, if_false, answers]
      refine ih hrest c.now _ _ hfirst (fun now hle => ?_)
      rw [tryTakeAt_uncapped h, lookup_takeToken, if_neg (fun h => hip h.symm), lookup_swept,
        kept_kept limiter hle]
      exact hsame now (htc.trans hle)

theorem answers_disabled {limiter : RateLimiter} (h : limiter.enabled = false) (inner : LimiterInner Ip)
    (calls : List (Call Ip)) :
    answers limiter.tryTake inner calls = calls.map (fun c => (c.ip, true)) := by
  induction calls generalizing inner with
  | nil => rfl
  | cons c calls ih => simp [answers, RateLimiter.tryTake, h, ih]

theorem tryTake_enabled {limiter : RateLimiter} (h : limiter.enabled = true) :
    (limiter.tryTake : Call Ip → LimiterInner Ip → LimiterInner Ip × Bool) = tryTakeAt limiter := by
  funext call inner
  simp [RateLimiter.tryTake, h]

/-- What an address is answered does not depend on the calls of the others. -/
theorem answers_per_ip (refillPerSec burst : UInt32) (idleTtlSecs : UInt64) (calls : List (Call Ip))
    (hc : Chronological calls) (a : Ip) :
    let limiter := RateLimiter.withLimits refillPerSec burst 0 idleTtlSecs
    let own := calls.filter (fun c => decide (c.ip = a))
    (answers (tryTakeAt limiter) {} calls).filter (fun r => decide (r.1 = a)) =
        answers (tryTakeAt limiter) {} own ∧
      (answers limiter.tryTake {} calls).filter (fun r => decide (r.1 = a)) =
        answers limiter.tryTake {} own := by
  intro limiter own
  have hat := answers_isolated limiter rfl a calls hc 0 {} {} (fun c _ => Nat.zero_le _)
    (fun _ _ => rfl)
  refine ⟨hat, ?_⟩
  cases hon : limiter.enabled with
  | true =>
    rw [tryTake_enabled hon]
    exact hat
  | false =>
    rw [answers_disabled hon, answers_disabled hon, List.filter_map]
    rfl

/-- Two addresses taking turns, a TTL of one second, and a bucket that the other one sweeps away. -/
theorem answers_per_ip_swept :
    let limiter := RateLimiter.withLimits 1 1 0 1
    let a := IpAddr.v4 ⟨10, 0, 0, 1⟩
    let b := IpAddr.v4 ⟨10, 0, 0, 2⟩
    let calls : List (Call IpAddr) := [⟨0, a, Iteration.stored _⟩, ⟨1, b, Iteration.stored _⟩,
      ⟨nanosPerSec, b, Iteration.stored _⟩, ⟨nanosPerSec, a, Iteration.stored _⟩]
    (answers (tryTakeAt limiter) {} calls).filter (fun r => decide (r.1 = a)) =
      answers (tryTakeAt limiter) {} [⟨0, a, Iteration.stored _⟩, ⟨nanosPerSec, a, Iteration.stored _⟩] := by
  intro limiter a b calls
  exact (answers_per_ip 1 1 1 calls (by decide) a).1

/-! ### Forgetting a full bucket -/

/-- From `t` on the two buckets answer the same, the first of them being swept before each call. -/
def AnswersAlike (limiter : RateLimiter) (t : ℕ) (o o' : Option Bucket) : Prop :=
  ∀ now, t ≤ now → taken limiter now (kept limiter now o) = taken limiter now o'

theorem taken_congr {limiter : RateLimiter} {now : ℕ} {o o' : Option Bucket}
    (h : current limiter now o = current limiter now o') :
    taken limiter now o = taken limiter now o' := by
  unfold taken
  rw [h]

/-- A bucket that is full again after the TTL may be forgotten. -/
theorem answersAlike_self {limiter : RateLimiter}
    (hfull : limiter.capacity ≤ secs limiter.idleTtl * limiter.refillPerSec) {t : ℕ} {b : Bucket}
    (hb : 0 ≤ b.tokens) (hrefill : b.lastRefill = t) (htouch : b.lastTouch = t) :
    AnswersAlike limiter t (some b) (some b) := by
  intro now _
  rw [kept_some]
  split
  · rfl
  · next hidle =>
    refine taken_congr ?_
    have hlong : secs limiter.idleTtl ≤ secs (now - b.lastRefill) := secs_mono (by omega)
    have hmul := mul_le_mul_of_nonneg_right hlong limiter.refill_nonneg
    have hlevel : current limiter now (some b) = limiter.capacity :=
      level_of_full (show limiter.capacity ≤ b.tokens + secs (now - b.lastRefill) * _ by linarith)
    rw [current_none, hlevel]

theorem answers_keeping {limiter : RateLimiter} (h : limiter.maxTracked = 0)
    (hfull : limiter.capacity ≤ secs limiter.idleTtl * limiter.refillPerSec)
    (calls : List (Call Ip)) (hc : Chronological calls) (t : ℕ) (inner keeping : LimiterInner Ip)
    (hfrom : ∀ c ∈ calls, t ≤ c.now)
    (halike : ∀ a, AnswersAlike limiter t (inner.buckets.lookup a) (keeping.buckets.lookup a))
    (hpos : ∀ a b, keeping.buckets.lookup a = some b → 0 ≤ b.tokens) :
    answers (tryTakeAt limiter) inner calls = answers (tryTakeKeeping limiter) keeping calls := by
  induction calls generalizing t inner keeping with
  | nil => rfl
  | cons c calls ih =>
    obtain ⟨hfirst, hrest⟩ := List.pairwise_cons.mp hc
    have htc := hfrom c (List.mem_cons_self ..)
    have hnow := halike c.ip c.now htc
    have htaken := taken_nonneg limiter c.now (keeping.buckets.lookup c.ip) (hpos c.ip)
    have htimes := taken_times limiter c.now (keeping.buckets.lookup c.ip)
    simp only [answers]
    rw [tryTakeAt_uncapped h, takeToken_answer, lookup_swept, hnow]
    congr 1
    · rw [tryTakeKeeping, takeToken_answer]
    · refine ih hrest c.now _ _ hfirst (fun a => ?_) (fun a b hb => ?_)
      · rw [lookup_takeToken, tryTakeKeeping, lookup_takeToken, lookup_swept, lookup_swept, hnow]
        split
        · exact answersAlike_self hfull htaken htimes.1 htimes.2
        · intro now hle
          rw [kept_kept limiter hle]
          exact halike a now (htc.trans hle)
      · rw [tryTakeKeeping, lookup_takeToken] at hb
        split at hb
        · cases hb
          exact htaken
        · exact hpos a b hb

omit [DecidableEq Ip] in
theorem answers_append (take : Call Ip → LimiterInner Ip → LimiterInner Ip × Bool)
    (inner : LimiterInner Ip) (calls more : List (Call Ip)) :
    answers take inner (calls ++ more) = answers take inner calls ++
      answers take (calls.foldl (fun inner call => (take call inner).1) inner) more := by
  induction calls generalizing inner with
  | nil => rfl
  | cons c calls ih => simp only [List.cons_append, answers, List.foldl_cons, ih]

def burst (k now : ℕ) (a : Ip) : List (Call Ip) := List.replicate k ⟨now, a, Iteration.stored _⟩

/-- As many calls at one instant as the bucket has tokens, or as a new one holds, are admitted. -/
theorem burst_admitted {limiter : RateLimiter} (h : limiter.maxTracked = 0) (a : Ip) (now k : ℕ)
    (hk : (k : ℚ) ≤ limiter.capacity) (inner : LimiterInner Ip)
    (hstock : ∀ b, kept limiter now (inner.buckets.lookup a) = some b →
      (k : ℚ) ≤ current limiter now (some b)) :
    answers (tryTakeAt limiter) inner (burst k now a) = List.replicate k (a, true) := by
  induction k generalizing inner with
  | zero => rfl
  | succ k ih =>
    have henough : (k : ℚ) + 1 ≤ current limiter now (kept limiter now (inner.buckets.lookup a)) := by
      push_cast at hk hstock
      cases hkept : kept limiter now (inner.buckets.lookup a) with
      | none =>
        rw [current_none]
        exact hk
      | some b => exact hstock b hkept
    have hk0 : (0 : ℚ) ≤ k := Nat.cast_nonneg k
    have htaken : taken limiter now (kept limiter now (inner.buckets.lookup a)) =
        (⟨current limiter now (kept limiter now (inner.buckets.lookup a)) - 1, now, now⟩, true) := by
      unfold taken
      rw [if_pos (by linarith)]
    have hcap := current_le_cap limiter now (kept limiter now (inner.buckets.lookup a))
    simp only [burst, List.replicate_succ, answers]
    rw [tryTakeAt_uncapped h, takeToken_answer, lookup_swept, htaken]
    congr 1
    refine ih (by push_cast at hk; linarith) _ (fun b hb => ?_)
    rw [lookup_takeToken, if_pos rfl, lookup_swept, htaken, kept_some] at hb
    split at hb
    · cases hb
      have hle : current limiter now (kept limiter now (inner.buckets.lookup a)) - 1 ≤
          limiter.capacity := by linarith
      refine le_of_le_of_eq ?_ (refilled_now rfl hle).symm
      exact le_sub_iff_add_le.mpr henough
    · cases hb

/-- A limiter that forgets nothing gives one address its stock, or one new bucket, and the refill. -/
theorem keeping_bound (limiter : RateLimiter) (a : Ip) (calls : List (Call Ip))
    (hc : Chronological calls) (hown : ∀ c ∈ calls, c.ip = a) {t e : ℕ}
    (hfrom : ∀ c ∈ calls, t ≤ c.now) (hto : ∀ c ∈ calls, c.now ≤ e) (hte : t ≤ e)
    (keeping : LimiterInner Ip) (hpos : ∀ b, keeping.buckets.lookup a = some b → 0 ≤ b.tokens) :
    ((answers (tryTakeKeeping limiter) keeping calls).countP (fun r => r.2) : ℚ) ≤
      stock limiter t (keeping.buckets.lookup a) +
        limiter.capacity * (if a ∈ keeping.buckets then 0 else 1) +
        secs (e - t) * limiter.refillPerSec := by
  have hcap : 0 ≤ limiter.capacity := zero_le_one.trans limiter.one_le_capacity
  induction calls generalizing t keeping with
  | nil =>
    have hrefill := mul_nonneg (secs_nonneg (e - t)) limiter.refill_nonneg
    have hnew : 0 ≤ limiter.capacity * (if a ∈ keeping.buckets then 0 else 1) :=
      mul_nonneg hcap (by split <;> norm_num)
    have hstock := option_stock_nonneg limiter t _ hpos
    simp only [answers, List.countP_nil, Nat.cast_zero]
    linarith
  | cons c calls ih =>
    obtain ⟨hfirst, hrest⟩ := List.pairwise_cons.mp hc
    have hip := hown c (List.mem_cons_self ..)
    have htc := hfrom c (List.mem_cons_self ..)
    have hce := hto c (List.mem_cons_self ..)
    subst hip
    have hafter : (tryTakeKeeping limiter c keeping).1.buckets.lookup c.ip =
        some (taken limiter c.now (keeping.buckets.lookup c.ip)).1 := by
      rw [tryTakeKeeping, lookup_takeToken, if_pos rfl]
    have hmem : c.ip ∈ (tryTakeKeeping limiter c keeping).1.buckets :=
      AList.lookup_isSome.mp (by rw [hafter]; rfl)
    have hih := ih hrest (fun d hd => hown d (List.mem_cons_of_mem _ hd)) hfirst
      (fun d hd => hto d (List.mem_cons_of_mem _ hd)) hce (tryTakeKeeping limiter c keeping).1
      (fun b hb => by
        cases hafter.symm.trans hb
        exact taken_nonneg _ _ _ hpos)
    have hgrow := stock_grows limiter htc (keeping.buckets.lookup c.ip)
    have hpaid := stock_takeToken limiter c.now keeping c.ip c.ip
    have hsplit : secs (e - t) = secs (c.now - t) + secs (e - c.now) := by
      rw [← secs_add]
      congr 1
      omega
    simp only [true_and, AList.lookup_eq_none, ite_not] at hpaid
    simp only [hmem, if_true, mul_zero, add_zero] at hih
    simp only [answers, List.countP_cons, Nat.cast_add, Nat.cast_ite, Nat.cast_one, Nat.cast_zero]
    rw [hsplit]
    change stock limiter c.now ((tryTakeKeeping limiter c keeping).1.buckets.lookup c.ip) +
      (if (tryTakeKeeping limiter c keeping).2 = true then 1 else 0) ≤ _ at hpaid
    linarith

omit [DecidableEq Ip] in
theorem mem_burst {k now : ℕ} {a : Ip} {c : Call Ip} (h : c ∈ burst k now a) :
    c.now = now ∧ c.ip = a := by
  obtain rfl := List.eq_of_mem_replicate h
  exact ⟨rfl, rfl⟩

omit [DecidableEq Ip] in
theorem chronological_bursts (k : ℕ) {t now : ℕ} (h : t ≤ now) (a : Ip) :
    Chronological (burst k t a ++ burst k now a) := by
  refine List.pairwise_append.mpr ⟨?_, ?_, fun c hc d hd => ?_⟩
  · exact List.pairwise_replicate.mpr (Or.inr le_rfl)
  · exact List.pairwise_replicate.mpr (Or.inr le_rfl)
  · rw [(mem_burst hc).1, (mem_burst hd).1]
    exact h

/-- After the TTL the bucket of the first burst is gone, and the second is admitted like it. -/
theorem bursts_admitted {limiter : RateLimiter} (h : limiter.maxTracked = 0) (n : ℕ)
    (hn : limiter.capacity = n) (a : Ip) :
    answers (tryTakeAt limiter) {} (burst n 0 a ++ burst n limiter.idleTtl a) =
      List.replicate (n + n) (a, true) := by
  have hsound : Sound limiter 0 (run limiter {} (burst n 0 a)) :=
    (sound_empty limiter 0).run _ (List.pairwise_replicate.mpr (Or.inr le_rfl))
      (fun c _ => Nat.zero_le _) 0 le_rfl (fun c hc => (mem_burst hc).1.le)
  have hfirst := burst_admitted h a 0 n hn.ge {} (fun b hb => by simp [kept] at hb)
  have hsecond := burst_admitted h a limiter.idleTtl n hn.ge (run limiter {} (burst n 0 a))
    (fun b hb => by
      exfalso
      cases hlook : (run limiter {} (burst n 0 a)).buckets.lookup a with
      | none =>
        rw [hlook] at hb
        cases hb
      | some c =>
        have htouch := (hsound.times a c hlook).2
        rw [hlook, kept_some, if_neg (by omega)] at hb
        cases hb)
  rw [answers_append, hfirst]
  change _ ++ answers (tryTakeAt limiter) (run limiter {} (burst n 0 a)) _ = _
  rw [hsecond, List.replicate_append_replicate]

/-- A full burst at 0 and another one after the TTL tell the two limiters apart, unless the refill
in between fills the bucket. -/
theorem full_of_answers (limiter : RateLimiter) (h : limiter.maxTracked = 0) (n : ℕ)
    (hn : limiter.capacity = n) (a : Ip)
    (hsame : answers (tryTakeAt limiter) {} (burst n 0 a ++ burst n limiter.idleTtl a) =
      answers (tryTakeKeeping limiter) {} (burst n 0 a ++ burst n limiter.idleTtl a)) :
    (n : ℚ) ≤ secs limiter.idleTtl * limiter.refillPerSec := by
  have htimes : ∀ c ∈ burst n 0 a ++ burst n limiter.idleTtl a, c.ip = a ∧ c.now ≤ limiter.idleTtl := by
    intro c hc
    rcases List.mem_append.mp hc with hc | hc
    · exact ⟨(mem_burst hc).2, (mem_burst hc).1.le.trans (Nat.zero_le _)⟩
    · exact ⟨(mem_burst hc).2, (mem_burst hc).1.le⟩
  have hbound := keeping_bound limiter a _ (chronological_bursts n (Nat.zero_le _) a)
    (fun c hc => (htimes c hc).1) (fun c _ => Nat.zero_le _) (fun c hc => (htimes c hc).2)
    (Nat.zero_le _) {} (fun b hb => by simp at hb)
  rw [← hsame, bursts_admitted h n hn a] at hbound
  simp only [List.countP_replicate, if_true, AList.lookup_empty, stock, AList.notMem_empty,
    if_false, Nat.sub_zero, hn, Nat.cast_add] at hbound
  linarith

/-- Forgetting idle buckets shows in no answer exactly when the refill of the idle TTL fills a
bucket. -/
theorem answers_keeping_iff (refillPerSec burst : UInt32) (idleTtlSecs : UInt64) :
    let limiter := RateLimiter.withLimits refillPerSec burst 0 idleTtlSecs
    (∀ calls : List (Call IpAddr), Chronological calls →
        answers (tryTakeAt limiter) {} calls = answers (tryTakeKeeping limiter) {} calls) ↔
      max burst.toNat 1 ≤ refillPerSec.toNat * idleTtlSecs.toNat := by
  intro limiter
  have httl : secs limiter.idleTtl * limiter.refillPerSec =
      ((refillPerSec.toNat * idleTtlSecs.toNat : ℕ) : ℚ) := by
    have hnanos : (nanosPerSec : ℚ) ≠ 0 := by norm_num [nanosPerSec]
    change ((idleTtlSecs.toNat * nanosPerSec : ℕ) : ℚ) / nanosPerSec * (refillPerSec.toNat : ℚ) = _
    push_cast
    rw [mul_div_cancel_right₀ _ hnanos, mul_comm]
  constructor
  · intro hsame
    have hfull := full_of_answers limiter rfl (max burst.toNat 1) rfl (.v4 ⟨10, 0, 0, 1⟩)
      (hsame _ (chronological_bursts _ (Nat.zero_le _) _))
    rw [httl] at hfull
    exact_mod_cast hfull
  · intro hfull calls hc
    refine answers_keeping rfl ?_ calls hc 0 {} {} (fun c _ => Nat.zero_le _) (fun a now _ => rfl)
      (fun a b hb => by simp at hb)
    have hcap : limiter.capacity = ((max burst.toNat 1 : ℕ) : ℚ) := rfl
    rw [httl, hcap]
    exact_mod_cast hfull

end LimiterInner

end FiveNinesEcho.Limits
