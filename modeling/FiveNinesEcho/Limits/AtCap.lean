import FiveNinesEcho.Limits.Accounting

/-!
# The decision at the cap

What `evict_at_cap` finds does not depend on the order in which the map hands out its buckets. What
it looks at are the stored counts, though, and a bucket's count is brought up to date only by a call
of its own address: the decision is the one the documentation describes exactly as long as the
stored counts still order the buckets as their counts by now would.
-/

namespace FiveNinesEcho.Limits
open Lib TokenBucket
namespace LimiterInner
variable {Ip : Type} [DecidableEq Ip]

theorem taken_admits {limiter : RateLimiter} {now : ℕ} {o : Option Bucket}
    (h : ∀ b, o = some b → 1 ≤ b.tokens) : (taken limiter now o).2 = true := by
  have hone : 1 ≤ current limiter now o := by
    cases o with
    | none =>
      rw [current_none]
      exact limiter.one_le_capacity
    | some b =>
      exact one_le_level limiter.one_le_capacity limiter.refill_nonneg (secs_nonneg _) (h b rfl)
  unfold taken
  rw [if_pos hone]

/-- A bucket with a token left: its address is admitted, if it has not lost its place. -/
theorem tryTakeAt_stocked (limiter : RateLimiter) (call : Call Ip) (inner : LimiterInner Ip)
    (h : ∀ b, inner.buckets.lookup call.ip = some b → 1 ≤ b.tokens) :
    (inner.tryTakeAt limiter call).2 = true ∨
      (inner.tryTakeAt limiter call).1.capRefused = inner.capRefused + 1 := by
  rcases tryTakeAt_room limiter call inner _ rfl with ⟨_, _, heq⟩ | ⟨_, base, hroom, heq⟩
  · right
    rw [heq]
    rfl
  · left
    rw [heq, takeToken_eq, hroom.own]
    exact taken_admits (fun b hb => h b (Table.retain_subset hb).1)

theorem evicted_inj {inner : LimiterInner Ip} {ip ip' : Ip} {b : Bucket}
    (h : inner.buckets.lookup ip = some b) (heq : inner.evicted ip = inner.evicted ip') : ip = ip' := by
  by_contra hne
  have hgone : (inner.evicted ip).buckets.lookup ip = none := AList.lookup_erase _ _
  rw [heq] at hgone
  have hkept : (inner.evicted ip').buckets.lookup ip = some b := (AList.lookup_erase_ne hne).trans h
  rw [hgone] at hkept
  cases hkept

/-- The scan in any order: it gives up exactly when no bucket holds a token, and otherwise removes
one with the most tokens stored and, among those, the oldest touch. -/
theorem evictAtCap_any_order (inner : LimiterInner Ip) (it : Iteration (Sigma fun _ : Ip => Bucket)) :
    ((inner.evictAtCap it).2 = false ↔
      ∀ ip b, inner.buckets.lookup ip = some b → b.tokens < 1) ∧
    ((inner.evictAtCap it).2 = false → (inner.evictAtCap it).1 = inner) ∧
    ((inner.evictAtCap it).2 = true → ∃ ip b, inner.buckets.lookup ip = some b ∧
      (inner.evictAtCap it).1 = inner.evicted ip ∧ inner.Fullest b ∧ 1 ≤ b.tokens ∧
      ∀ limiter now scan, (inner.tryTakeAt limiter ⟨now, ip, scan⟩).2 = true ∨
        (inner.tryTakeAt limiter ⟨now, ip, scan⟩).1.capRefused = inner.capRefused + 1) ∧
    ∀ it' ip ip' b b', inner.buckets.lookup ip = some b → inner.buckets.lookup ip' = some b' →
      inner.evictAtCap it = (inner.evicted ip, true) →
      inner.evictAtCap it' = (inner.evicted ip', true) →
      b.tokens = b'.tokens ∧ b.lastTouch = b'.lastTouch := by
  have hvictim : ∀ it ip b, inner.buckets.lookup ip = some b →
      inner.evictAtCap it = (inner.evicted ip, true) → inner.Fullest b := by
    intro it ip b hb hev
    rcases evictAtCap_cases it inner with ⟨_, heq⟩ | ⟨v, c, hc, hfull, _, heq⟩
    · rw [heq] at hev
      cases (Prod.mk.inj hev).2
    · rw [heq] at hev
      have hv := evicted_inj hc (Prod.mk.inj hev).1
      subst hv
      cases hb.symm.trans hc
      exact hfull
  refine ⟨?_, ?_, ?_, ?_⟩
  · rcases evictAtCap_cases it inner with ⟨hlow, heq⟩ | ⟨v, c, hc, _, hone, heq⟩
    · rw [heq]
      exact ⟨fun _ => hlow, fun _ => rfl⟩
    · rw [heq]
      refine ⟨fun h => (by cases h), fun hlow => ?_⟩
      exact absurd (hlow v c hc) (not_lt.mpr hone)
  · intro hfalse
    rcases evictAtCap_cases it inner with ⟨_, heq⟩ | ⟨v, c, _, _, _, heq⟩
    · rw [heq]
    · rw [heq] at hfalse
      cases hfalse
  · intro htrue
    rcases evictAtCap_cases it inner with ⟨_, heq⟩ | ⟨v, c, hc, hfull, hone, heq⟩
    · rw [heq] at htrue
      cases htrue
    · refine ⟨v, c, hc, by rw [heq], hfull, hone, fun limiter now scan => ?_⟩
      refine tryTakeAt_stocked limiter ⟨now, v, scan⟩ inner (fun b hb => ?_)
      cases hc.symm.trans hb
      exact hone
  · intro it' ip ip' b b' hb hb' hev hev'
    exact Fullest.agree hb hb' (hvictim it ip b hb hev) (hvictim it' ip' b' hb' hev')

/-! ### Stored counts and counts by now -/

/-- The decision at the cap as documented: the new address is refused where every bucket, brought
up to `now`, is throttled, and otherwise the fullest bucket by now goes. -/
def DecidesByNow (limiter : RateLimiter) (call : Call Ip) (inner : LimiterInner Ip) : Prop :=
  let swept := inner.evictIdleBuckets call.now limiter.idleTtl
  let after := (inner.tryTakeAt limiter call).1
  ((inner.tryTakeAt limiter call).2 = false ∧ after.capRefused = inner.capRefused + 1 ∧
      ∀ ip b, swept.buckets.lookup ip = some b → b.refilled limiter call.now < 1) ∨
    ∃ victim b, swept.buckets.lookup victim = some b ∧ after.buckets.lookup victim = none ∧
      (∀ ip, ip ≠ victim → ip ≠ call.ip →
        after.buckets.lookup ip = swept.buckets.lookup ip) ∧
      after.lruEvictions = inner.lruEvictions + 1 ∧
      ∀ ip c, swept.buckets.lookup ip = some c →
        c.refilled limiter call.now ≤ b.refilled limiter call.now

/-- No bucket has, since its last touch, refilled past what the stored counts show: either all are
throttled even by now, or one has a token stored and the fullest by its stored count, longest
untouched, is the fullest by now. -/
def Undisturbed (limiter : RateLimiter) (now : ℕ) (swept : LimiterInner Ip) : Prop :=
  (∀ ip b, swept.buckets.lookup ip = some b → b.refilled limiter now < 1) ∨
    (∃ ip b, swept.buckets.lookup ip = some b ∧ 1 ≤ b.tokens) ∧
      ∀ ip b, swept.buckets.lookup ip = some b → swept.Fullest b →
        ∀ ip' c, swept.buckets.lookup ip' = some c → c.refilled limiter now ≤ b.refilled limiter now

theorem Sound.le_refilled {limiter : RateLimiter} {t : ℕ} {inner : LimiterInner Ip}
    (h : Sound limiter t inner) (now : ℕ) {ip : Ip} {b : Bucket}
    (hb : inner.buckets.lookup ip = some b) : b.tokens ≤ b.refilled limiter now :=
  le_level limiter.refill_nonneg (secs_nonneg _) (h.tokens ip b hb).2

/-- Buckets level in the scan are level by now as well: both were refilled when last touched. -/
theorem Sound.fullest_refilled {limiter : RateLimiter} {t : ℕ} {inner : LimiterInner Ip}
    (h : Sound limiter t inner) (now : ℕ) {ip ip' : Ip} {b b' : Bucket}
    (hb : inner.buckets.lookup ip = some b) (hb' : inner.buckets.lookup ip' = some b')
    (hfull : inner.Fullest b) (hfull' : inner.Fullest b') :
    b.refilled limiter now = b'.refilled limiter now := by
  obtain ⟨htokens, htouch⟩ := Fullest.agree hb hb' hfull hfull'
  have hrefill : b.lastRefill = b'.lastRefill := by
    rw [(h.times ip b hb).1, (h.times ip' b' hb').1, htouch]
  rw [Bucket.refilled, Bucket.refilled, htokens, hrefill]

theorem decides_iff {limiter : RateLimiter} {t : ℕ} {inner : LimiterInner Ip}
    (h : Sound limiter t inner) (call : Call Ip)
    (hcap : AtCap limiter call (inner.evictIdleBuckets call.now limiter.idleTtl)) :
    DecidesByNow limiter call inner ↔
      Undisturbed limiter call.now (inner.evictIdleBuckets call.now limiter.idleTtl) := by
  have hs := h.swept call.now limiter.idleTtl
  generalize hswept : inner.evictIdleBuckets call.now limiter.idleTtl = swept at hcap hs ⊢
  unfold DecidesByNow Undisturbed
  simp only [hswept]
  rcases tryTakeAt_cases limiter call inner swept hswept with
    ⟨_, hlow, heq⟩ | ⟨_, v, c, hc, hfull, hone, heq⟩ | ⟨hnot, _⟩
  · -- refused: no stored count reaches a token
    rw [heq]
    constructor
    · rintro (⟨_, _, hall⟩ | ⟨victim, b, hb, hgone, _⟩)
      · exact Or.inl hall
      · cases hgone.symm.trans hb
    · rintro (hall | ⟨⟨ip, b, hb, hone⟩, _⟩)
      · refine Or.inl ⟨rfl, ?_, hall⟩
        rw [← hswept]
        rfl
      · exact absurd (hlow ip b hb) (not_lt.mpr hone)
  · -- the bucket of `v` goes
    have hother : ∀ ip, ip ≠ call.ip →
        (inner.tryTakeAt limiter call).1.buckets.lookup ip = (swept.evicted v).buckets.lookup ip := by
      intro ip hip
      rw [heq, takeToken_eq]
      exact AList.lookup_insert_ne hip
    have hnew : ∀ ip b, swept.buckets.lookup ip = some b → ip ≠ call.ip := by
      rintro ip b hb rfl
      exact hcap.2.2 (AList.lookup_isSome.mp (by rw [hb]; rfl))
    constructor
    · rintro (⟨_, _, hall⟩ | ⟨victim, b, hb, hgone, _, _, hmax⟩)
      · exact Or.inl hall
      · have hv : victim = v := by
          by_contra hne
          rw [hother victim (hnew victim b hb)] at hgone
          have hkept : (swept.evicted v).buckets.lookup victim = some b :=
            (AList.lookup_erase_ne hne).trans hb
          cases hgone.symm.trans hkept
        subst hv
        refine Or.inr ⟨⟨victim, c, hc, hone⟩, fun ip b' hb' hfull' ip' d hd => ?_⟩
        cases hb.symm.trans hc
        exact (hmax ip' d hd).trans (hs.fullest_refilled call.now hb hb' hfull hfull').le
    · rintro (hall | ⟨_, hmax⟩)
      · exact absurd (hall v c hc) (not_lt.mpr (hone.trans (hs.le_refilled call.now hc)))
      · refine Or.inr ⟨v, c, hc, ?_, fun ip hip hne => ?_, ?_, hmax v c hc hfull⟩
        · exact (hother v (hnew v c hc)).trans (AList.lookup_erase _ _)
        · exact (hother ip hne).trans (AList.lookup_erase_ne hip)
        · rw [heq, takeToken_eq, ← hswept]
          rfl
  · exact absurd hcap hnot

/-- In every state a run can reach, at every instant from its last call on, in every order of the
scan: the decision at the cap is the documented one exactly when the stored counts are undisturbed. -/
theorem decides_by_now_iff (refillPerSec burst : UInt32) (maxTracked : ℕ) (idleTtlSecs : UInt64)
    (calls : List (Call Ip)) (hc : Chronological calls) (call : Call Ip)
    (hnow : ∀ c ∈ calls, c.now ≤ call.now) :
    let limiter := RateLimiter.withLimits refillPerSec burst maxTracked idleTtlSecs
    let inner := run limiter {} calls
    let swept := inner.evictIdleBuckets call.now limiter.idleTtl
    AtCap limiter call swept →
      (DecidesByNow limiter call inner ↔ Undisturbed limiter call.now swept) := by
  intro limiter inner swept hcap
  have hsound : Sound limiter call.now inner :=
    (sound_empty limiter 0).run calls hc (fun c _ => Nat.zero_le _) call.now (Nat.zero_le _) hnow
  exact decides_iff hsound call hcap

/-- One address drained at 0; ten seconds later its bucket is full again, but the new address is
refused. -/
theorem decides_by_now_stale :
    let limiter := RateLimiter.withLimits 1 1 1 300
    let calls : List (Call IpAddr) := [⟨0, .v4 ⟨10, 0, 0, 1⟩, Iteration.stored _⟩]
    let call : Call IpAddr := ⟨10 * nanosPerSec, .v4 ⟨10, 0, 0, 2⟩, Iteration.stored _⟩
    let inner := run limiter {} calls
    Chronological calls ∧ (∀ c ∈ calls, c.now ≤ call.now) ∧
      AtCap limiter call (inner.evictIdleBuckets call.now limiter.idleTtl) ∧
      ¬ DecidesByNow limiter call inner := by
  intro limiter calls call inner
  have hc : Chronological calls := by decide
  have hnow : ∀ c ∈ calls, c.now ≤ call.now := by decide
  have hcap : AtCap limiter call (inner.evictIdleBuckets call.now limiter.idleTtl) := by
    decide +kernel
  have hlook : (inner.evictIdleBuckets call.now limiter.idleTtl).buckets.lookup
      (.v4 ⟨10, 0, 0, 1⟩) = some ⟨0, 0, 0⟩ := by decide +kernel
  have honly : ∀ e ∈ (inner.evictIdleBuckets call.now limiter.idleTtl).buckets.entries,
      e.2.tokens < 1 := by decide +kernel
  have hfull : ¬ Bucket.refilled limiter call.now ⟨0, 0, 0⟩ < 1 := by decide +kernel
  refine ⟨hc, hnow, hcap, ?_⟩
  have hsound : Sound limiter call.now inner :=
    (sound_empty limiter 0).run calls hc (fun c _ => Nat.zero_le _) call.now (Nat.zero_le _) hnow
  rw [decides_iff hsound call hcap]
  rintro (hall | ⟨⟨ip, b, hb, hone⟩, _⟩)
  · exact hfull (hall _ _ hlook)
  · exact absurd (honly ⟨ip, b⟩ (AList.mem_lookup_iff.mp hb)) (not_lt.mpr hone)

/-- A bucket touched at this very instant is undisturbed, and makes room. -/
theorem decides_by_now_fresh :
    let limiter := RateLimiter.withLimits 1 2 1 300
    let calls : List (Call IpAddr) := [⟨0, .v4 ⟨10, 0, 0, 1⟩, Iteration.stored _⟩]
    let call : Call IpAddr := ⟨0, .v4 ⟨10, 0, 0, 2⟩, Iteration.stored _⟩
    let inner := run limiter {} calls
    DecidesByNow limiter call inner := by
  intro limiter calls call inner
  have hcap : AtCap limiter call (inner.evictIdleBuckets call.now limiter.idleTtl) := by
    decide +kernel
  have honly : ∀ e ∈ (inner.evictIdleBuckets call.now limiter.idleTtl).buckets.entries,
      e = ⟨.v4 ⟨10, 0, 0, 1⟩, ⟨1, 0, 0⟩⟩ := by decide +kernel
  have hlook : (inner.evictIdleBuckets call.now limiter.idleTtl).buckets.lookup
      (.v4 ⟨10, 0, 0, 1⟩) = some ⟨1, 0, 0⟩ := by decide +kernel
  refine (decides_by_now_iff 1 2 1 300 calls (by decide) call (by decide) hcap).mpr (Or.inr ⟨⟨_, _, hlook, le_rfl⟩, ?_⟩)
  intro ip b hb _ ip' c hc
  have hb' := honly ⟨ip, b⟩ (AList.mem_lookup_iff.mp hb)
  have hc' := honly ⟨ip', c⟩ (AList.mem_lookup_iff.mp hc)
  cases hb'
  cases hc'
  exact le_rfl

end LimiterInner

end FiveNinesEcho.Limits
