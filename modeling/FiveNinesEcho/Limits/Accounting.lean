import FiveNinesEcho.Lib.Addr
import FiveNinesEcho.Limits.RateLimiter

/-!
# What the limiter holds and what it lets through

A run of the limiter is a list of calls, its `trace` what each of them met and did. The invariant
`Sound` bounds the map and the buckets; the statistics balance against the buckets that were ever
created; and the stock of one address, the tokens its bucket would have by now, pays for every
admission.
-/

namespace FiveNinesEcho.Limits
open Lib TokenBucket
namespace LimiterInner
variable {Ip : Type} [DecidableEq Ip]

def run (limiter : RateLimiter) (inner : LimiterInner Ip) (calls : List (Call Ip)) :
    LimiterInner Ip :=
  calls.foldl (fun inner call => (inner.tryTakeAt limiter call).1) inner

def Chronological (calls : List (Call Ip)) : Prop := calls.Pairwise (fun c d => c.now ≤ d.now)

instance decidableChronological (calls : List (Call Ip)) : Decidable (Chronological calls) :=
  inferInstanceAs (Decidable (calls.Pairwise _))

/-- One call of a run. -/
structure Turn (Ip : Type) where
  before : LimiterInner Ip
  call : Call Ip
  admitted : Bool
  after : LimiterInner Ip

def turn (limiter : RateLimiter) (inner : LimiterInner Ip) (call : Call Ip) : Turn Ip :=
  ⟨inner, call, (inner.tryTakeAt limiter call).2, (inner.tryTakeAt limiter call).1⟩

def trace (limiter : RateLimiter) : LimiterInner Ip → List (Call Ip) → List (Turn Ip)
  | _, [] => []
  | inner, call :: calls =>
    turn limiter inner call :: trace limiter (inner.tryTakeAt limiter call).1 calls

namespace Turn

def swept (limiter : RateLimiter) (turn : Turn Ip) : LimiterInner Ip :=
  turn.before.evictIdleBuckets turn.call.now limiter.idleTtl

/-- The call found no bucket of its address and left one. -/
def Created (limiter : RateLimiter) (turn : Turn Ip) : Prop :=
  turn.call.ip ∉ (turn.swept limiter).buckets ∧ turn.call.ip ∈ turn.after.buckets

/-- The address of the call is new to a full map none of whose buckets holds a token. -/
def NoRoom (limiter : RateLimiter) (turn : Turn Ip) : Prop :=
  AtCap limiter turn.call (turn.swept limiter) ∧
    ∀ e ∈ (turn.swept limiter).buckets.entries, e.2.tokens < 1

instance decidableCreated (limiter : RateLimiter) (turn : Turn Ip) :
    Decidable (turn.Created limiter) :=
  inferInstanceAs (Decidable (_ ∧ _))

instance decidableNoRoom (limiter : RateLimiter) (turn : Turn Ip) :
    Decidable (turn.NoRoom limiter) :=
  inferInstanceAs (Decidable (_ ∧ _))

end Turn

/-! ### The room a call takes its token in -/

/-- `base` is what the eviction leaves of `swept` when the call may go on. -/
structure Room (limiter : RateLimiter) (call : Call Ip) (swept base : LimiterInner Ip) : Prop where
  own : base.buckets.lookup call.ip = swept.buckets.lookup call.ip
  others : ∀ ip, base.buckets.lookup ip = swept.buckets.lookup ip ∨ base.buckets.lookup ip = none
  ledger : Table.size base.buckets + base.lruEvictions =
    Table.size swept.buckets + swept.lruEvictions
  idle : base.idleEvictions = swept.idleEvictions
  refused : base.capRefused = swept.capRefused
  fits : 0 < limiter.maxTracked → Table.size swept.buckets ≤ limiter.maxTracked →
    Table.size base.buckets ≤ limiter.maxTracked ∧
      (call.ip ∉ base.buckets → Table.size base.buckets < limiter.maxTracked)

theorem Room.keep {limiter : RateLimiter} {call : Call Ip} {swept : LimiterInner Ip}
    (h : ¬ AtCap limiter call swept) : Room limiter call swept swept where
  own := rfl
  others _ := Or.inl rfl
  ledger := rfl
  idle := rfl
  refused := rfl
  fits hmax hle := by
    refine ⟨hle, fun hip => ?_⟩
    by_contra hfull
    exact h ⟨hmax, not_lt.mp hfull, hip⟩

theorem Room.evict {limiter : RateLimiter} {call : Call Ip} {swept : LimiterInner Ip} {ip : Ip}
    {b : Bucket} (h : AtCap limiter call swept) (hb : swept.buckets.lookup ip = some b) :
    Room limiter call swept (swept.evicted ip) where
  own := by
    have hne : call.ip ≠ ip := by
      rintro rfl
      exact h.2.2 (AList.lookup_isSome.mp (by rw [hb]; rfl))
    exact AList.lookup_erase_ne hne
  others x := by
    by_cases hx : x = ip
    · subst hx
      exact Or.inr (AList.lookup_erase _ _)
    · exact Or.inl (AList.lookup_erase_ne hx)
  ledger := by
    have := Table.size_erase hb
    simp only [evicted]
    omega
  idle := rfl
  refused := rfl
  fits hmax hle := by
    have := Table.size_erase hb
    simp only [evicted]
    omega

/-- A call is refused for lack of room, or it takes its token in the room it has. -/
theorem tryTakeAt_room (limiter : RateLimiter) (call : Call Ip) (inner swept : LimiterInner Ip)
    (hswept : inner.evictIdleBuckets call.now limiter.idleTtl = swept) :
    (AtCap limiter call swept ∧ (∀ ip b, swept.buckets.lookup ip = some b → b.tokens < 1) ∧
      inner.tryTakeAt limiter call = ({ swept with capRefused := swept.capRefused + 1 }, false)) ∨
    ((¬ AtCap limiter call swept ∨ ∃ ip b, swept.buckets.lookup ip = some b ∧ 1 ≤ b.tokens) ∧
      ∃ base, Room limiter call swept base ∧
        inner.tryTakeAt limiter call = base.takeToken limiter call.now call.ip) := by
  rcases tryTakeAt_cases limiter call inner swept hswept with
    hrefused | ⟨hcap, ip, b, hb, _, hone, heq⟩ | ⟨hcap, heq⟩
  · exact Or.inl hrefused
  · exact Or.inr ⟨Or.inr ⟨ip, b, hb, hone⟩, _, Room.evict hcap hb, heq⟩
  · exact Or.inr ⟨Or.inl hcap, _, Room.keep hcap, heq⟩

/-! ### The invariant -/

/-- A bucket that was just brought up to date stays as it is. -/
theorem refilled_now {limiter : RateLimiter} {now : ℕ} {b : Bucket} (hrefill : b.lastRefill = now)
    (hle : b.tokens ≤ limiter.capacity) : b.refilled limiter now = b.tokens := by
  have hzero : secs (now - b.lastRefill) = 0 := by simp [hrefill, secs]
  rw [Bucket.refilled, hzero, level_zero hle]

theorem current_le_cap (limiter : RateLimiter) (now : ℕ) (o : Option Bucket) :
    current limiter now o ≤ limiter.capacity := level_le_cap

theorem current_none (limiter : RateLimiter) (now : ℕ) :
    current limiter now none = limiter.capacity :=
  refilled_now rfl le_rfl

theorem current_nonneg (limiter : RateLimiter) (now : ℕ) (o : Option Bucket)
    (h : ∀ b, o = some b → 0 ≤ b.tokens) : 0 ≤ current limiter now o := by
  have hcap : 0 ≤ limiter.capacity := zero_le_one.trans limiter.one_le_capacity
  cases o with
  | none =>
    rw [current_none]
    exact hcap
  | some b => exact level_nonneg hcap limiter.refill_nonneg (secs_nonneg _) (h b rfl)

/-- A call spends one token or none of what its bucket has by then. -/
theorem taken_spent (limiter : RateLimiter) (now : ℕ) (o : Option Bucket) :
    (taken limiter now o).1.tokens + (if (taken limiter now o).2 then 1 else 0) =
      current limiter now o := by
  unfold taken
  split <;> simp

theorem taken_times (limiter : RateLimiter) (now : ℕ) (o : Option Bucket) :
    (taken limiter now o).1.lastRefill = now ∧ (taken limiter now o).1.lastTouch = now := by
  unfold taken
  split <;> exact ⟨rfl, rfl⟩

theorem taken_nonneg (limiter : RateLimiter) (now : ℕ) (o : Option Bucket)
    (h : ∀ b, o = some b → 0 ≤ b.tokens) : 0 ≤ (taken limiter now o).1.tokens := by
  unfold taken
  split
  · next hone => exact sub_nonneg.mpr hone
  · exact current_nonneg limiter now o h

theorem taken_le_cap (limiter : RateLimiter) (now : ℕ) (o : Option Bucket) :
    (taken limiter now o).1.tokens ≤ limiter.capacity := by
  have hle := current_le_cap limiter now o
  unfold taken
  split
  · exact (sub_le_self _ zero_le_one).trans hle
  · exact hle

/-- What a limiter whose last call was no later than `now` looks like. -/
structure Sound (limiter : RateLimiter) (now : ℕ) (inner : LimiterInner Ip) : Prop where
  bounded : 0 < limiter.maxTracked → Table.size inner.buckets ≤ limiter.maxTracked
  tokens : ∀ ip b, inner.buckets.lookup ip = some b → 0 ≤ b.tokens ∧ b.tokens ≤ limiter.capacity
  times : ∀ ip b, inner.buckets.lookup ip = some b → b.lastRefill = b.lastTouch ∧ b.lastTouch ≤ now

theorem sound_empty (limiter : RateLimiter) (now : ℕ) : Sound limiter now ({} : LimiterInner Ip) where
  bounded _ := Nat.zero_le _
  tokens ip b hb := by simp at hb
  times ip b hb := by simp at hb

theorem Sound.later {limiter : RateLimiter} {now now' : ℕ} {inner : LimiterInner Ip}
    (h : Sound limiter now inner) (hle : now ≤ now') : Sound limiter now' inner where
  bounded := h.bounded
  tokens := h.tokens
  times ip b hb := ⟨(h.times ip b hb).1, (h.times ip b hb).2.trans hle⟩

theorem Sound.swept {limiter : RateLimiter} {now : ℕ} {inner : LimiterInner Ip}
    (h : Sound limiter now inner) (at' ttl : ℕ) :
    Sound limiter now (inner.evictIdleBuckets at' ttl) where
  bounded hmax := (Table.size_retain_le _ _).trans (h.bounded hmax)
  tokens ip b hb := h.tokens ip b (Table.retain_subset hb).1
  times ip b hb := h.times ip b (Table.retain_subset hb).1

theorem Sound.room {limiter : RateLimiter} {now : ℕ} {call : Call Ip} {swept base : LimiterInner Ip}
    (h : Sound limiter now swept) (hroom : Room limiter call swept base) :
    Sound limiter now base := by
  have hsub : ∀ ip b, base.buckets.lookup ip = some b → swept.buckets.lookup ip = some b := by
    intro ip b hb
    rcases hroom.others ip with heq | hnone
    · rw [← heq]
      exact hb
    · rw [hnone] at hb
      cases hb
  exact ⟨fun hmax => (hroom.fits hmax (h.bounded hmax)).1, fun ip b hb => h.tokens ip b (hsub ip b hb),
    fun ip b hb => h.times ip b (hsub ip b hb)⟩

theorem size_insert_le (m : Table Ip Bucket) (ip : Ip) (b : Bucket) (n : ℕ) (hle : Table.size m ≤ n)
    (hlt : ip ∉ m → Table.size m < n) : Table.size (m.insert ip b) ≤ n := by
  cases hlook : m.lookup ip with
  | none =>
    rw [Table.size_insert_new b hlook]
    exact hlt (AList.lookup_eq_none.mp hlook)
  | some c =>
    rw [Table.size_insert_old b hlook]
    exact hle

theorem Sound.step {limiter : RateLimiter} {now : ℕ} {inner : LimiterInner Ip}
    (h : Sound limiter now inner) (call : Call Ip) (hle : now ≤ call.now) :
    Sound limiter call.now (inner.tryTakeAt limiter call).1 := by
  have hs := (h.later hle).swept call.now limiter.idleTtl
  rcases tryTakeAt_room limiter call inner _ rfl with ⟨_, _, heq⟩ | ⟨_, base, hroom, heq⟩
  · rw [heq]
    exact ⟨hs.bounded, hs.tokens, hs.times⟩
  · have hbase := hs.room hroom
    rw [heq, takeToken_eq]
    refine ⟨fun hmax => ?_, fun ip b hb => ?_, fun ip b hb => ?_⟩
    · obtain ⟨hfit, hnew⟩ := hroom.fits hmax (hs.bounded hmax)
      exact size_insert_le _ _ _ _ hfit hnew
    · by_cases hip : ip = call.ip
      · subst hip
        cases (AList.lookup_insert _).symm.trans hb
        exact ⟨taken_nonneg _ _ _ (fun c hc => (hbase.tokens _ c hc).1), taken_le_cap _ _ _⟩
      · exact hbase.tokens ip b ((AList.lookup_insert_ne hip).symm.trans hb)
    · by_cases hip : ip = call.ip
      · subst hip
        cases (AList.lookup_insert _).symm.trans hb
        obtain ⟨hrefill, htouch⟩ := taken_times limiter call.now (base.buckets.lookup call.ip)
        exact ⟨hrefill.trans htouch.symm, htouch.le⟩
      · exact hbase.times ip b ((AList.lookup_insert_ne hip).symm.trans hb)

theorem Sound.run {limiter : RateLimiter} {now : ℕ} {inner : LimiterInner Ip}
    (h : Sound limiter now inner) (calls : List (Call Ip)) (hc : Chronological calls)
    (hfrom : ∀ c ∈ calls, now ≤ c.now) (until' : ℕ) (hnow : now ≤ until')
    (hto : ∀ c ∈ calls, c.now ≤ until') : Sound limiter until' (run limiter inner calls) := by
  induction calls generalizing now inner with
  | nil => exact h.later hnow
  | cons c calls ih =>
    obtain ⟨hfirst, hrest⟩ := List.pairwise_cons.mp hc
    have hstep := h.step c (hfrom c (List.mem_cons_self ..))
    exact ih hstep hrest hfirst (hto c (List.mem_cons_self ..))
      (fun d hd => hto d (List.mem_cons_of_mem _ hd))

/-! ### The statistics -/

theorem swept_ledger (limiter : RateLimiter) (inner : LimiterInner Ip) (call : Call Ip) :
    Table.size ((turn limiter inner call).swept limiter).buckets +
        ((turn limiter inner call).swept limiter).idleEvictions =
      Table.size inner.buckets + inner.idleEvictions := by
  have hle : Table.size ((turn limiter inner call).swept limiter).buckets ≤ Table.size inner.buckets :=
    Table.size_retain_le _ _
  have hidle : ((turn limiter inner call).swept limiter).idleEvictions = inner.idleEvictions +
      (Table.size inner.buckets - Table.size ((turn limiter inner call).swept limiter).buckets) := rfl
  omega

/-- What a call does to the buckets and the counters. -/
structure Turn.Counted (limiter : RateLimiter) (t : Turn Ip) : Prop where
  ledger : Table.size t.after.buckets + t.after.idleEvictions + t.after.lruEvictions =
    Table.size t.before.buckets + t.before.idleEvictions + t.before.lruEvictions +
      (if t.Created limiter then 1 else 0)
  refused : t.after.capRefused = t.before.capRefused + (if t.NoRoom limiter then 1 else 0)
  untracked : t.NoRoom limiter ↔ t.call.ip ∉ t.after.buckets
  unchanged : t.NoRoom limiter → t.admitted = false ∧
    t.after = { t.swept limiter with capRefused := t.before.capRefused + 1 }

theorem counted_refused {limiter : RateLimiter} {inner : LimiterInner Ip} {call : Call Ip}
    {swept : LimiterInner Ip} (hswept : (turn limiter inner call).swept limiter = swept)
    (hcap : AtCap limiter call swept)
    (hlow : ∀ ip b, swept.buckets.lookup ip = some b → b.tokens < 1)
    (heq : inner.tryTakeAt limiter call = ({ swept with capRefused := swept.capRefused + 1 }, false)) :
    (turn limiter inner call).Counted limiter := by
  have hledger := swept_ledger limiter inner call
  have hafter : (turn limiter inner call).after = { swept with capRefused := swept.capRefused + 1 } := by
    simp only [turn, heq]
  have hadmitted : (turn limiter inner call).admitted = false := by simp only [turn, heq]
  have hno : (turn limiter inner call).NoRoom limiter := by
    unfold Turn.NoRoom
    rw [hswept]
    refine ⟨hcap, fun e he => hlow e.1 e.2 ?_⟩
    rw [← Option.mem_def, AList.mem_lookup_iff]
    exact he
  have hnew : ¬ (turn limiter inner call).Created limiter := by
    intro hc
    have := hc.2
    rw [hafter] at this
    exact hcap.2.2 this
  have hcounters : swept.capRefused = inner.capRefused ∧ swept.lruEvictions = inner.lruEvictions := by
    subst hswept
    exact ⟨rfl, rfl⟩
  rw [hswept] at hledger
  refine ⟨?_, ?_, ⟨fun _ => ?_, fun _ => hno⟩, fun _ => ⟨hadmitted, ?_⟩⟩
  · rw [hafter, if_neg hnew]
    simp only [turn]
    omega
  · rw [hafter, if_pos hno]
    simp only [turn]
    omega
  · rw [hafter]
    exact hcap.2.2
  · rw [hafter, hswept, hcounters.1]
    rfl

theorem counted_took {limiter : RateLimiter} {inner : LimiterInner Ip} {call : Call Ip}
    {swept base : LimiterInner Ip} (hswept : (turn limiter inner call).swept limiter = swept)
    (hwhy : ¬ AtCap limiter call swept ∨ ∃ ip b, swept.buckets.lookup ip = some b ∧ 1 ≤ b.tokens)
    (hroom : Room limiter call swept base)
    (heq : inner.tryTakeAt limiter call = base.takeToken limiter call.now call.ip) :
    (turn limiter inner call).Counted limiter := by
  have hledger := swept_ledger limiter inner call
  have hcounters : swept.capRefused = inner.capRefused ∧ swept.lruEvictions = inner.lruEvictions := by
    subst hswept
    exact ⟨rfl, rfl⟩
  have hno : ¬ (turn limiter inner call).NoRoom limiter := by
    unfold Turn.NoRoom
    rw [hswept]
    rintro ⟨hcap, hlow⟩
    rcases hwhy with hnot | ⟨ip, b, hb, hone⟩
    · exact hnot hcap
    · exact absurd (hlow ⟨ip, b⟩ (AList.mem_lookup_iff.mp hb)) (not_lt.mpr hone)
  have hafter : (turn limiter inner call).after = { base with
      buckets := base.buckets.insert call.ip
        (taken limiter call.now (base.buckets.lookup call.ip)).1 } := by
    simp only [turn, heq, takeToken_eq]
  have hmem : call.ip ∈ (turn limiter inner call).after.buckets := by
    rw [hafter]
    exact (AList.mem_insert _).mpr (Or.inl rfl)
  have hnew : (turn limiter inner call).Created limiter ↔ base.buckets.lookup call.ip = none := by
    unfold Turn.Created
    rw [hswept, hroom.own, AList.lookup_eq_none]
    exact and_iff_left hmem
  have hsum := hroom.ledger
  have hidle := hroom.idle
  rw [hswept] at hledger
  refine ⟨?_, ?_, ⟨fun h => absurd h hno, fun h => absurd hmem h⟩, fun h => absurd h hno⟩
  · rw [hafter]
    simp only [hnew]
    cases hlook : base.buckets.lookup call.ip with
    | none =>
      rw [if_pos rfl, Table.size_insert_new _ hlook]
      simp only [turn]
      omega
    | some b =>
      rw [if_neg (by simp), Table.size_insert_old _ hlook]
      simp only [turn]
      omega
  · rw [hafter, if_neg hno]
    exact hroom.refused.trans hcounters.1

theorem turn_counted (limiter : RateLimiter) (inner : LimiterInner Ip) (call : Call Ip) :
    (turn limiter inner call).Counted limiter := by
  rcases tryTakeAt_room limiter call inner _ rfl with ⟨hcap, hlow, heq⟩ | ⟨hwhy, base, hroom, heq⟩
  · exact counted_refused rfl hcap hlow heq
  · exact counted_took rfl hwhy hroom heq

theorem trace_counted (limiter : RateLimiter) (inner : LimiterInner Ip) (calls : List (Call Ip)) :
    ∀ t ∈ trace limiter inner calls, t.Counted limiter := by
  induction calls generalizing inner with
  | nil => intro t ht; cases ht
  | cons c calls ih =>
    intro t ht
    rcases List.mem_cons.mp ht with rfl | hrest
    · exact turn_counted limiter inner c
    · exact ih _ t hrest

theorem run_counted (limiter : RateLimiter) (inner : LimiterInner Ip) (calls : List (Call Ip)) :
    Table.size (run limiter inner calls).buckets + (run limiter inner calls).idleEvictions +
        (run limiter inner calls).lruEvictions =
      Table.size inner.buckets + inner.idleEvictions + inner.lruEvictions +
        (trace limiter inner calls).countP (fun t => decide (t.Created limiter)) ∧
    (run limiter inner calls).capRefused =
      inner.capRefused + (trace limiter inner calls).countP (fun t => decide (t.NoRoom limiter)) := by
  induction calls generalizing inner with
  | nil => exact ⟨rfl, rfl⟩
  | cons c calls ih =>
    have hstep := turn_counted limiter inner c
    have hledger := hstep.ledger
    have hrefused := hstep.refused
    obtain ⟨hsize, hcap⟩ := ih (turn limiter inner c).after
    have hrun : run limiter inner (c :: calls) = run limiter (turn limiter inner c).after calls := rfl
    have htrace : trace limiter inner (c :: calls) =
        turn limiter inner c :: trace limiter (turn limiter inner c).after calls := rfl
    have hbefore : (turn limiter inner c).before = inner := rfl
    simp only [hrun, htrace, List.countP_cons, decide_eq_true_eq]
    rw [hbefore] at hledger hrefused
    exact ⟨by omega, by omega⟩

/-- Over a whole run: the map keeps to its cap, every bucket is between empty and full and was last
seen no later than now, and the statistics are exact. -/
theorem limiter_represents (refillPerSec burst : UInt32) (maxTracked : ℕ) (idleTtlSecs : UInt64)
    (calls : List (Call Ip)) (hc : Chronological calls) :
    let limiter := RateLimiter.withLimits refillPerSec burst maxTracked idleTtlSecs
    let inner := run limiter {} calls
    let turns := trace limiter {} calls
    (0 < maxTracked → Table.size inner.buckets ≤ maxTracked) ∧
    (∀ ip b, inner.buckets.lookup ip = some b →
      0 ≤ b.tokens ∧ b.tokens ≤ (max burst.toNat 1 : ℕ) ∧ b.lastRefill = b.lastTouch ∧
        ∀ now, (∀ c ∈ calls, c.now ≤ now) → b.lastTouch ≤ now) ∧
    turns.countP (fun t => decide (t.Created limiter)) =
      Table.size inner.buckets + inner.idleEvictions + inner.lruEvictions ∧
    inner.capRefused = turns.countP (fun t => decide (t.NoRoom limiter)) ∧
    ∀ t ∈ turns, (t.NoRoom limiter ↔ t.call.ip ∉ t.after.buckets) ∧
      (t.NoRoom limiter → t.admitted = false ∧
        t.after = { t.swept limiter with capRefused := t.before.capRefused + 1 }) := by
  intro limiter inner turns
  have hsound : ∀ now, (∀ c ∈ calls, c.now ≤ now) → Sound limiter now inner := fun now hto =>
    (sound_empty limiter 0).run calls hc (fun c _ => Nat.zero_le _) now (Nat.zero_le _) hto
  obtain ⟨last, hlast⟩ : ∃ now, ∀ c ∈ calls, c.now ≤ now := by
    refine ⟨(calls.map Call.now).sum, fun c hmem => ?_⟩
    exact List.le_sum_of_mem (List.mem_map_of_mem hmem)
  have hs := hsound last hlast
  obtain ⟨hcreated, hrefused⟩ := run_counted limiter ({} : LimiterInner Ip) calls
  refine ⟨hs.bounded, fun ip b hb => ?_, ?_, ?_, fun t ht => ?_⟩
  · refine ⟨(hs.tokens ip b hb).1, (hs.tokens ip b hb).2, (hs.times ip b hb).1, fun now hto => ?_⟩
    exact ((hsound now hto).times ip b hb).2
  · have hzero : Table.size ({} : LimiterInner Ip).buckets = 0 := rfl
    rw [hzero, Nat.zero_add, Nat.zero_add, Nat.zero_add] at hcreated
    exact hcreated.symm
  · rw [Nat.zero_add] at hrefused
    exact hrefused
  · have hcount := trace_counted limiter {} calls t ht
    exact ⟨hcount.untracked, hcount.unchanged⟩

/-- Two addresses over a cap of one: the second finds the first one's bucket empty. -/
theorem limiter_represents_refusal :
    let limiter := RateLimiter.withLimits 1 1 1 10
    let calls : List (Call IpAddr) :=
      [⟨0, .v4 ⟨10, 0, 0, 1⟩, Iteration.stored _⟩, ⟨1, .v4 ⟨10, 0, 0, 2⟩, Iteration.stored _⟩]
    (run limiter {} calls).capRefused = 1 ∧
      (trace limiter {} calls).countP (fun t => decide (t.NoRoom limiter)) = 1 := by
  intro limiter calls
  have hrun : (run limiter {} calls).capRefused = 1 := by decide +kernel
  have hcounts := limiter_represents 1 1 1 10 calls (by decide)
  exact ⟨hrun, hcounts.2.2.2.1.symm.trans hrun⟩

/-! ### The stock of one address -/

/-- The tokens a bucket has at `now`; nothing is in stock where there is none. -/
def stock (limiter : RateLimiter) (now : ℕ) : Option Bucket → ℚ
  | none => 0
  | some b => b.refilled limiter now

theorem option_stock_nonneg (limiter : RateLimiter) (now : ℕ) (o : Option Bucket)
    (h : ∀ b, o = some b → 0 ≤ b.tokens) : 0 ≤ stock limiter now o := by
  cases o with
  | none => exact le_rfl
  | some b => exact current_nonneg limiter now (some b) h

theorem stock_nonneg {limiter : RateLimiter} {t : ℕ} {inner : LimiterInner Ip}
    (h : Sound limiter t inner) (now : ℕ) (ip : Ip) : 0 ≤ stock limiter now (inner.buckets.lookup ip) :=
  option_stock_nonneg limiter now _ (fun b hb => (h.tokens ip b hb).1)

theorem stock_le_cap (limiter : RateLimiter) (now : ℕ) (o : Option Bucket) :
    stock limiter now o ≤ limiter.capacity := by
  cases o with
  | none => exact zero_le_one.trans limiter.one_le_capacity
  | some b => exact level_le_cap

theorem secs_mono {m n : ℕ} (h : m ≤ n) : secs m ≤ secs n := by
  unfold secs nanosPerSec
  gcongr

theorem secs_add (m n : ℕ) : secs (m + n) = secs m + secs n := by
  unfold secs
  push_cast
  ring

/-- Between two instants a stock grows by what the refill rate gives. -/
theorem stock_grows (limiter : RateLimiter) {t now : ℕ} (h : t ≤ now) (o : Option Bucket) :
    stock limiter now o ≤ stock limiter t o + secs (now - t) * limiter.refillPerSec := by
  have hrate := limiter.refill_nonneg
  cases o with
  | none =>
    have := mul_nonneg (secs_nonneg (now - t)) hrate
    simpa [stock] using this
  | some b =>
    have hgrow := level_le_add limiter.capacity b.tokens hrate
      (secs_mono (Nat.sub_le_sub_right h b.lastRefill))
    have hgap : secs (now - b.lastRefill) - secs (t - b.lastRefill) ≤ secs (now - t) := by
      have hle := secs_mono (show now - b.lastRefill ≤ (t - b.lastRefill) + (now - t) by omega)
      rw [secs_add] at hle
      linarith
    have hmul := mul_le_mul_of_nonneg_right hgap hrate
    simp only [stock, Bucket.refilled]
    linarith

theorem stock_swept {limiter : RateLimiter} {t : ℕ} {inner : LimiterInner Ip}
    (h : Sound limiter t inner) (at' ttl now : ℕ) (ip : Ip) :
    stock limiter now ((inner.evictIdleBuckets at' ttl).buckets.lookup ip) ≤
      stock limiter now (inner.buckets.lookup ip) := by
  have hpos := stock_nonneg h now ip
  simp only [evictIdleBuckets, Table.lookup_retain]
  cases hlook : inner.buckets.lookup ip with
  | none => exact le_rfl
  | some b =>
    rw [hlook] at hpos
    simp only [Option.filter_some]
    split
    · exact le_rfl
    · exact hpos

theorem stock_taken (limiter : RateLimiter) (now : ℕ) (o : Option Bucket) :
    stock limiter now (some (taken limiter now o).1) + (if (taken limiter now o).2 then 1 else 0) =
      current limiter now o := by
  have hstored := refilled_now (taken_times limiter now o).1 (taken_le_cap limiter now o)
  rw [stock, hstored]
  exact taken_spent limiter now o

theorem stock_room {limiter : RateLimiter} {t : ℕ} {call : Call Ip} {swept base : LimiterInner Ip}
    (h : Sound limiter t swept) (hroom : Room limiter call swept base) (now : ℕ) (ip : Ip) :
    stock limiter now (base.buckets.lookup ip) ≤ stock limiter now (swept.buckets.lookup ip) := by
  rcases hroom.others ip with heq | hnone
  · rw [heq]
  · rw [hnone]
    exact stock_nonneg h now ip

/-- The token of an admission comes out of the stock, or out of a new bucket. -/
theorem stock_takeToken (limiter : RateLimiter) (now : ℕ) (base : LimiterInner Ip) (ip a : Ip) :
    stock limiter now ((base.takeToken limiter now ip).1.buckets.lookup a) +
        (if ip = a ∧ (base.takeToken limiter now ip).2 then 1 else 0) ≤
      stock limiter now (base.buckets.lookup a) +
        limiter.capacity * (if ip = a ∧ base.buckets.lookup ip = none then 1 else 0) := by
  rw [takeToken_eq]
  by_cases hip : ip = a
  · subst hip
    have hpaid := stock_taken limiter now (base.buckets.lookup ip)
    simp only [AList.lookup_insert, true_and]
    rw [hpaid]
    cases base.buckets.lookup ip with
    | none => simp [current_none, stock]
    | some b => simp [current, stock]
  · simp only [hip, false_and, if_false, mul_zero]
    rw [AList.lookup_insert_ne (Ne.symm hip)]

/-- One call: the stock of `a` pays for the admission of `a`, a new bucket being filled for it. -/
theorem stock_step {limiter : RateLimiter} {t : ℕ} {inner : LimiterInner Ip}
    (h : Sound limiter t inner) (call : Call Ip) (hle : t ≤ call.now) (a : Ip) :
    stock limiter call.now ((turn limiter inner call).after.buckets.lookup a) +
        (if call.ip = a ∧ (turn limiter inner call).admitted then 1 else 0) ≤
      stock limiter t (inner.buckets.lookup a) + secs (call.now - t) * limiter.refillPerSec +
        limiter.capacity * (if call.ip = a ∧ (turn limiter inner call).Created limiter then 1 else 0) := by
  have hgrow := stock_grows limiter hle (inner.buckets.lookup a)
  have hswept := stock_swept h call.now limiter.idleTtl call.now a
  have hs := h.swept call.now limiter.idleTtl
  rcases tryTakeAt_room limiter call inner _ rfl with ⟨_, _, heq⟩ | ⟨_, base, hroom, heq⟩
  · have hcap : 0 ≤ limiter.capacity := zero_le_one.trans limiter.one_le_capacity
    have hcreated : (0 : ℚ) ≤ limiter.capacity *
        (if call.ip = a ∧ (turn limiter inner call).Created limiter then 1 else 0) :=
      mul_nonneg hcap (by split <;> norm_num)
    simp only [turn, heq, Bool.false_eq_true, and_false, if_false] at hcreated ⊢
    linarith
  · have hbase := stock_room hs hroom call.now a
    have htake := stock_takeToken limiter call.now base call.ip a
    have hcreated : (turn limiter inner call).Created limiter ↔
        base.buckets.lookup call.ip = none := by
      rw [hroom.own, AList.lookup_eq_none]
      refine and_iff_left ?_
      simp only [turn, heq, takeToken_eq]
      exact (AList.mem_insert _).mpr (Or.inl rfl)
    simp only [hcreated]
    simp only [turn, heq]
    linarith

def Turn.AdmittedIn (a : Ip) (s e : ℕ) (t : Turn Ip) : Prop :=
  t.call.ip = a ∧ s ≤ t.call.now ∧ t.call.now ≤ e ∧ t.admitted = true

def Turn.CreatedIn (limiter : RateLimiter) (a : Ip) (s e : ℕ) (t : Turn Ip) : Prop :=
  t.call.ip = a ∧ s ≤ t.call.now ∧ t.call.now ≤ e ∧ t.Created limiter

instance decidableAdmittedIn (a : Ip) (s e : ℕ) (t : Turn Ip) : Decidable (t.AdmittedIn a s e) :=
  inferInstanceAs (Decidable (_ ∧ _ ∧ _ ∧ _))

instance decidableCreatedIn (limiter : RateLimiter) (a : Ip) (s e : ℕ) (t : Turn Ip) :
    Decidable (t.CreatedIn limiter a s e) :=
  inferInstanceAs (Decidable (_ ∧ _ ∧ _ ∧ _))

def admissions (limiter : RateLimiter) (a : Ip) (s e : ℕ) (inner : LimiterInner Ip)
    (calls : List (Call Ip)) : ℕ :=
  (trace limiter inner calls).countP (fun t => decide (t.AdmittedIn a s e))

def creations (limiter : RateLimiter) (a : Ip) (s e : ℕ) (inner : LimiterInner Ip)
    (calls : List (Call Ip)) : ℕ :=
  (trace limiter inner calls).countP (fun t => decide (t.CreatedIn limiter a s e))

theorem admissions_cons (limiter : RateLimiter) (a : Ip) (s e : ℕ) (inner : LimiterInner Ip)
    (c : Call Ip) (calls : List (Call Ip)) :
    admissions limiter a s e inner (c :: calls) =
      admissions limiter a s e (turn limiter inner c).after calls +
        (if (turn limiter inner c).AdmittedIn a s e then 1 else 0) := by
  simp only [admissions, trace, List.countP_cons, decide_eq_true_eq]
  rfl

theorem creations_cons (limiter : RateLimiter) (a : Ip) (s e : ℕ) (inner : LimiterInner Ip)
    (c : Call Ip) (calls : List (Call Ip)) :
    creations limiter a s e inner (c :: calls) =
      creations limiter a s e (turn limiter inner c).after calls +
        (if (turn limiter inner c).CreatedIn limiter a s e then 1 else 0) := by
  simp only [creations, trace, List.countP_cons, decide_eq_true_eq]
  rfl

theorem admissions_past (limiter : RateLimiter) (a : Ip) (s e : ℕ) (inner : LimiterInner Ip)
    (calls : List (Call Ip)) (h : ∀ c ∈ calls, e < c.now) :
    admissions limiter a s e inner calls = 0 := by
  induction calls generalizing inner with
  | nil => rfl
  | cons c calls ih =>
    have hnot : ¬ (turn limiter inner c).AdmittedIn a s e := by
      rintro ⟨_, _, hle, _⟩
      exact absurd hle (not_le.mpr (h c (List.mem_cons_self ..)))
    rw [admissions_cons, if_neg hnot, ih _ (fun d hd => h d (List.mem_cons_of_mem _ hd))]

/-- Inside the window the stock at its opening, the refill and the new buckets pay for all. -/
theorem admissions_le_stock {limiter : RateLimiter} (a : Ip) {s e t : ℕ} {inner : LimiterInner Ip}
    (h : Sound limiter t inner) (calls : List (Call Ip)) (hc : Chronological calls)
    (hfrom : ∀ c ∈ calls, t ≤ c.now) (hst : s ≤ t) (hte : t ≤ e) :
    (admissions limiter a s e inner calls : ℚ) ≤ stock limiter t (inner.buckets.lookup a) +
      limiter.capacity * creations limiter a s e inner calls +
      secs (e - t) * limiter.refillPerSec := by
  have hcap : 0 ≤ limiter.capacity := zero_le_one.trans limiter.one_le_capacity
  induction calls generalizing t inner with
  | nil =>
    have hstock := stock_nonneg h t a
    have hrefill := mul_nonneg (secs_nonneg (e - t)) limiter.refill_nonneg
    simp only [admissions, creations, trace, List.countP_nil, Nat.cast_zero, mul_zero]
    linarith
  | cons c calls ih =>
    obtain ⟨hfirst, hrest⟩ := List.pairwise_cons.mp hc
    have htc := hfrom c (List.mem_cons_self ..)
    by_cases hce : c.now ≤ e
    · have hstep := stock_step h c htc a
      have hih := ih (h.step c htc) hrest hfirst (hst.trans htc) hce
      have hsplit : secs (e - t) = secs (c.now - t) + secs (e - c.now) := by
        rw [← secs_add]
        congr 1
        omega
      have hadmitted : (turn limiter inner c).AdmittedIn a s e ↔
          c.ip = a ∧ (turn limiter inner c).admitted = true :=
        ⟨fun ⟨hip, _, _, hyes⟩ => ⟨hip, hyes⟩, fun ⟨hip, hyes⟩ => ⟨hip, hst.trans htc, hce, hyes⟩⟩
      have hcreated : (turn limiter inner c).CreatedIn limiter a s e ↔
          c.ip = a ∧ (turn limiter inner c).Created limiter :=
        ⟨fun ⟨hip, _, _, hyes⟩ => ⟨hip, hyes⟩, fun ⟨hip, hyes⟩ => ⟨hip, hst.trans htc, hce, hyes⟩⟩
      rw [admissions_cons, creations_cons, hsplit]
      simp only [hadmitted, hcreated, Nat.cast_add, Nat.cast_ite, Nat.cast_one, Nat.cast_zero]
      change (admissions limiter a s e (turn limiter inner c).after calls : ℚ) ≤
        stock limiter c.now ((turn limiter inner c).after.buckets.lookup a) +
          limiter.capacity * creations limiter a s e (turn limiter inner c).after calls +
          secs (e - c.now) * limiter.refillPerSec at hih
      linarith
    · -- the clock has left the window for good
      have hpast : ∀ d ∈ c :: calls, e < d.now := by
        intro d hd
        rcases List.mem_cons.mp hd with rfl | hd
        · exact not_le.mp hce
        · exact (not_le.mp hce).trans_le (hfirst d hd)
      rw [admissions_past limiter a s e inner _ hpast, Nat.cast_zero]
      have hstock := stock_nonneg h t a
      have hrefill := mul_nonneg (secs_nonneg (e - t)) limiter.refill_nonneg
      have hcount : (0 : ℚ) ≤ creations limiter a s e inner (c :: calls) := Nat.cast_nonneg _
      have hnew := mul_nonneg hcap hcount
      linarith

/-- At its opening no stock is above the capacity. -/
theorem admissions_le_open {limiter : RateLimiter} (a : Ip) {s e : ℕ} {inner : LimiterInner Ip}
    (h : Sound limiter s inner) (calls : List (Call Ip)) (hc : Chronological calls)
    (hfrom : ∀ c ∈ calls, s ≤ c.now) (hse : s ≤ e) :
    (admissions limiter a s e inner calls : ℚ) ≤
      limiter.capacity * (1 + creations limiter a s e inner calls) +
        limiter.refillPerSec * secs (e - s) := by
  have hbound := admissions_le_stock a h calls hc hfrom le_rfl hse
  have hcap := stock_le_cap limiter s (inner.buckets.lookup a)
  linarith

/-- Before the window nothing counts. -/
theorem admissions_le {limiter : RateLimiter} (a : Ip) {s e t : ℕ} {inner : LimiterInner Ip}
    (h : Sound limiter t inner) (calls : List (Call Ip)) (hc : Chronological calls)
    (hfrom : ∀ c ∈ calls, t ≤ c.now) (hts : t ≤ s) (hse : s ≤ e) :
    (admissions limiter a s e inner calls : ℚ) ≤
      limiter.capacity * (1 + creations limiter a s e inner calls) +
        limiter.refillPerSec * secs (e - s) := by
  induction calls generalizing t inner with
  | nil => exact admissions_le_open a (h.later hts) [] hc (fun c hc => by cases hc) hse
  | cons c calls ih =>
    obtain ⟨hfirst, hrest⟩ := List.pairwise_cons.mp hc
    by_cases hcs : s ≤ c.now
    · refine admissions_le_open a (h.later hts) _ hc (fun d hd => ?_) hse
      rcases List.mem_cons.mp hd with rfl | hd
      · exact hcs
      · exact hcs.trans (hfirst d hd)
    · have hadmitted : ¬ (turn limiter inner c).AdmittedIn a s e := fun hin => hcs hin.2.1
      have hcreated : ¬ (turn limiter inner c).CreatedIn limiter a s e := fun hin => hcs hin.2.1
      rw [admissions_cons, creations_cons, if_neg hadmitted, if_neg hcreated]
      exact ih (h.step c (hfrom c (List.mem_cons_self ..))) hrest hfirst (not_le.mp hcs).le

/-- In any window an address gets at most a full bucket, one more for each time its bucket was made
anew, and what the rate refills. -/
theorem admission_bound (refillPerSec burst : UInt32) (maxTracked : ℕ) (idleTtlSecs : UInt64)
    (calls : List (Call Ip)) (hc : Chronological calls) (a : Ip) (s e : ℕ) (hse : s ≤ e) :
    let limiter := RateLimiter.withLimits refillPerSec burst maxTracked idleTtlSecs
    (admissions limiter a s e {} calls : ℚ) ≤
      (max burst.toNat 1 : ℕ) * (1 + creations limiter a s e {} calls) +
        refillPerSec.toNat * secs (e - s) := by
  intro limiter
  exact admissions_le a (sound_empty limiter 0) calls hc (fun c _ => Nat.zero_le _) (Nat.zero_le s) hse

/-- A burst of two in the middle of a window, and the token refilled at its end. -/
theorem admission_bound_refill :
    let limiter := RateLimiter.withLimits 1 2 0 10
    let a := IpAddr.v4 ⟨10, 0, 0, 1⟩
    let at' : ℕ → Call IpAddr := fun now => ⟨now, a, Iteration.stored _⟩
    let calls := [at' 5, at' 6, at' 7, at' 1000000005]
    admissions limiter a 6 1000000005 {} calls = 2 ∧
      (admissions limiter a 6 1000000005 {} calls : ℚ) ≤
        (max (2 : UInt32).toNat 1 : ℕ) * (1 + creations limiter a 6 1000000005 {} calls) +
          (1 : UInt32).toNat * secs (1000000005 - 6) := by
  intro limiter a at' calls
  exact ⟨by decide +kernel, admission_bound 1 2 0 10 calls (by decide) a 6 1000000005 (by decide)⟩

end LimiterInner

end FiveNinesEcho.Limits
