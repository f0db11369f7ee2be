import FiveNinesEcho.Lib.Exec
import FiveNinesEcho.Supervisor.Inheritance

/-!
# The systemd watchdog (`systemd.rs:170-264`, `supervisor.rs:499-517`)

Under a unit with `WatchdogSec=` systemd kills the supervisor unless it hears `WATCHDOG=1` at least
once in `WATCHDOG_USEC`. The supervisor's loop advances a counter, the beacon, four times in that
interval, and a task of its own looks at it twice and pings systemd only if it has moved. `Vigil` is
the three of them with a clock in microseconds; how late the loop and the task come to their timers
is left open.
-/

namespace FiveNinesEcho.Supervisor
open Lib Handoff

/-! ### The intervals -/

/-- `watchdog_usec`: on only if the interval is a number that is not 0, and then only in the process
that `WATCHDOG_PID` names, if that is set. -/
def watchdogUsec (environ : List CString) (pid : Pid) : Option ℕ :=
  match (envVar environ "WATCHDOG_USEC").bind (parseUnsigned (2 ^ 64)) with
  | none => none
  | some usec =>
    if usec = 0 then none
    else match envVar environ "WATCHDOG_PID" with
      | none => some usec
      | some v => if parseUnsigned (2 ^ 32) v ≠ some pid then none else some usec

def beaconTickInterval : Option ℕ → ℕ
  | some usec => max (usec / 4) 1
  | none => 10000000

def pingInterval (usec : ℕ) : ℕ := max (usec / 2) 1

/-! ### The loop, the task and systemd -/

/-- `tickDue` and `checkDue` are when the two timers next fire, and `pinged` is when systemd last
heard of the supervisor. -/
structure Vigil where
  now : ℕ
  beacon : UInt64
  lastSeen : Option UInt64
  tickDue : ℕ
  checkDue : ℕ
  pinged : ℕ
  deriving Repr, DecidableEq

/-- Both timers fire at once when they are made; `READY=1` starts systemd's clock. -/
def Vigil.start : Vigil := ⟨0, 0, none, 0, 0, 0⟩

inductive VigilAct where
  | pass (d : ℕ)
  | tick
  | check
  deriving Repr, DecidableEq

/-- `MissedTickBehavior::Skip`: the next multiple of the period that is still to come. -/
def skipDue (period due now : ℕ) : ℕ := now + period - (now - due) % period

def Vigil.step (usec : ℕ) (s : Vigil) : VigilAct → Option Vigil
  | .pass d => some { s with now := s.now + d }
  | .tick =>
    if s.tickDue ≤ s.now then
      some { s with
        beacon := s.beacon + 1
        tickDue := skipDue (beaconTickInterval (some usec)) s.tickDue s.now }
    else none
  | .check =>
    if s.checkDue ≤ s.now then
      let s := { s with checkDue := s.checkDue + pingInterval usec }
      match s.lastSeen with
      -- the first look only remembers where the beacon stands
      | none => some { s with lastSeen := some s.beacon }
      | some seen =>
        if s.beacon = seen then some s
        else some { s with lastSeen := some s.beacon, pinged := s.now }
    else none

/-- Time does not pass a timer by more than its owner's delay. -/
def TickWithin (late : ℕ) (s : Vigil) : VigilAct → Prop
  | .pass d => s.now + d ≤ s.tickDue + late
  | _ => True

def CheckWithin (late : ℕ) (s : Vigil) : VigilAct → Prop
  | .pass d => s.now + d ≤ s.checkDue + late
  | _ => True

theorem skipDue_bounds (period due now : ℕ) (hp : 0 < period) :
    now < skipDue period due now ∧ skipDue period due now ≤ now + period := by
  have hmod := Nat.mod_lt (now - due) hp
  unfold skipDue
  omega

theorem tickInterval_pos (usec : ℕ) : 0 < beaconTickInterval (some usec) := by
  simp [beaconTickInterval]

/-! ### A supervisor that keeps its time is not killed -/

/-- `k` is how often the beacon was advanced since the task last looked. -/
inductive Vigil.Seen (usec tickLate : ℕ) (s : Vigil) : Prop
  | never (hseen : s.lastSeen = none) (hdue : s.checkDue = 0) (hpinged : s.pinged = 0)
  | looked (seen : UInt64) (k : ℕ) (hseen : s.lastSeen = some seen)
      (hbeacon : s.beacon = seen + UInt64.ofNat k)
      (hk : k + s.checkDue ≤ s.tickDue + pingInterval usec + tickLate)
      (hsoon : 0 < k ∨ s.tickDue + tickLate < s.checkDue)
      (hpinged : s.checkDue ≤ s.pinged + pingInterval usec)

structure Vigil.Kept (usec tickLate checkLate : ℕ) (s : Vigil) : Prop where
  tick : s.now ≤ s.tickDue + tickLate
  soon : s.tickDue ≤ s.now + beaconTickInterval (some usec)
  check : s.now ≤ s.checkDue + checkLate
  seen : s.Seen usec tickLate

section Kept
variable {usec tickLate checkLate : ℕ} {s t : Vigil}

theorem Vigil.start_kept : Vigil.start.Kept usec tickLate checkLate :=
  ⟨Nat.zero_le _, Nat.zero_le _, Nat.zero_le _, .never rfl rfl rfl⟩

/-- The beacon cannot come round between two looks. -/
theorem beacon_moved (hu : usec < 2 ^ 64)
    (hslack : beaconTickInterval (some usec) + tickLate + checkLate < pingInterval usec)
    (hs : s.Kept usec tickLate checkLate) (seen : UInt64) (k : ℕ)
    (hbeacon : s.beacon = seen + UInt64.ofNat k)
    (hk : k + s.checkDue ≤ s.tickDue + pingInterval usec + tickLate) (hpos : 0 < k) :
    s.beacon ≠ seen := by
  have hsoon := hs.soon
  have hcheck := hs.check
  have hsmall : k < 2 ^ 64 := by
    simp only [pingInterval, beaconTickInterval] at *
    omega
  intro heq
  rw [heq] at hbeacon
  have hnat := congrArg UInt64.toNat hbeacon
  have hlt := seen.toNat_lt
  simp only [UInt64.toNat_add, UInt64.toNat_ofNat'] at hnat
  omega

theorem Vigil.Kept.pass (hs : s.Kept usec tickLate checkLate) (d : ℕ)
    (htick : s.now + d ≤ s.tickDue + tickLate) (hcheck : s.now + d ≤ s.checkDue + checkLate) :
    ({ s with now := s.now + d } : Vigil).Kept usec tickLate checkLate := by
  have hsoon := hs.soon
  refine ⟨htick, by simp only; omega, hcheck, ?_⟩
  cases hs.seen with
  | never hseen hdue hpinged => exact .never hseen hdue hpinged
  | looked seen k hseen hbeacon hk hsoon hpinged =>
    exact .looked seen k hseen hbeacon hk hsoon hpinged

theorem Vigil.Kept.ticked (hs : s.Kept usec tickLate checkLate)
    (h : s.step usec .tick = some t) : t.Kept usec tickLate checkLate := by
  simp only [Vigil.step, Option.ite_none_right_eq_some, Option.some.injEq] at h
  obtain ⟨hdue, rfl⟩ := h
  obtain ⟨hlow, hhigh⟩ := skipDue_bounds (beaconTickInterval (some usec)) s.tickDue s.now
    (tickInterval_pos usec)
  refine ⟨by simp only; omega, hhigh, hs.check, ?_⟩
  cases hs.seen with
  | never hseen hdue hpinged => exact .never hseen hdue hpinged
  | looked seen k hseen hbeacon hk hsoon hpinged =>
    refine .looked seen (k + 1) hseen ?_ (by simp only; omega) (Or.inl (Nat.succ_pos k)) hpinged
    rw [hbeacon, UInt64.ofNat_add, UInt64.add_assoc]
    rfl

/-- Every look but the first finds the beacon moved. -/
theorem Vigil.Kept.checked (hu : usec < 2 ^ 64)
    (hslack : beaconTickInterval (some usec) + tickLate + checkLate < pingInterval usec)
    (hs : s.Kept usec tickLate checkLate) (h : s.step usec .check = some t) :
    t.Kept usec tickLate checkLate := by
  have htick := hs.tick
  have hsoon := hs.soon
  have hcheck := hs.check
  simp only [Vigil.step, Option.ite_none_right_eq_some] at h
  obtain ⟨hdue, h⟩ := h
  cases hs.seen with
  | never hseen hzero hpinged =>
    simp only [hseen, Option.some.injEq] at h
    subst h
    refine ⟨htick, hsoon, by simp only; omega, ?_⟩
    exact .looked s.beacon 0 rfl (by simp) (by simp only; omega) (Or.inr (by simp only; omega))
      (by simp only; omega)
  | looked seen k hseen hbeacon hk hmove hpinged =>
    -- the loop was due before the task and is not that late
    have hpos : 0 < k := by omega
    have hne := beacon_moved hu hslack hs seen k hbeacon hk hpos
    simp only [hseen, if_neg hne, Option.some.injEq] at h
    subst h
    refine ⟨htick, hsoon, by simp only; omega, ?_⟩
    exact .looked s.beacon 0 rfl (by simp) (by simp only; omega) (Or.inr (by simp only; omega))
      (by simp only; omega)

theorem Vigil.Kept.step (hu : usec < 2 ^ 64)
    (hslack : beaconTickInterval (some usec) + tickLate + checkLate < pingInterval usec)
    (hs : s.Kept usec tickLate checkLate) (a : VigilAct) (htick : TickWithin tickLate s a)
    (hcheck : CheckWithin checkLate s a) (h : s.step usec a = some t) :
    t.Kept usec tickLate checkLate := by
  cases a with
  | pass d =>
    obtain rfl := Option.some.inj h
    exact hs.pass d htick hcheck
  | tick => exact hs.ticked h
  | check => exact hs.checked hu hslack h

theorem Vigil.Kept.heard
    (hslack : beaconTickInterval (some usec) + tickLate + checkLate < pingInterval usec)
    (hs : s.Kept usec tickLate checkLate) : s.now ≤ s.pinged + usec := by
  have hcheck := hs.check
  simp only [beaconTickInterval, pingInterval] at hslack
  cases hs.seen with
  | never hseen hzero hpinged => omega
  | looked seen k hseen hbeacon hk hmove hpinged =>
    simp only [pingInterval] at hpinged
    omega

end Kept

/-! ### A loop that stands still is reported -/

/-- What holds of any run: the next look is at most an interval away. -/
structure Vigil.Sound (usec : ℕ) (s : Vigil) : Prop where
  due : s.checkDue ≤ s.now + pingInterval usec
  pinged : s.pinged ≤ s.now

/-- The loop stands still since `s₀`: the task has not looked again yet, or has seen where the
beacon is and will not find it moved. -/
inductive Vigil.Stalled (checkLate : ℕ) (s s₀ : Vigil) : Prop
  | waiting (hdue : s.checkDue = s₀.checkDue) (hpinged : s.pinged = s₀.pinged)
      (hnow : s.now ≤ max s₀.now (s₀.checkDue + checkLate))
  | caught (hseen : s.lastSeen = some s.beacon)
      (hpinged : s.pinged ≤ max s₀.now (s₀.checkDue + checkLate))

section Stalled
variable {usec checkLate : ℕ} {s₀ s t : Vigil}

theorem Vigil.Sound.step (hs : s.Sound usec) (a : VigilAct) (h : s.step usec a = some t) :
    t.Sound usec := by
  have hdue := hs.due
  have hpinged := hs.pinged
  cases a with
  | pass d =>
    obtain rfl := Option.some.inj h
    exact ⟨by simp only; omega, by simp only; omega⟩
  | tick =>
    simp only [Vigil.step, Option.ite_none_right_eq_some, Option.some.injEq] at h
    obtain ⟨-, rfl⟩ := h
    exact ⟨hdue, hpinged⟩
  | check =>
    simp only [Vigil.step, Option.ite_none_right_eq_some] at h
    obtain ⟨hle, h⟩ := h
    split at h
    · cases h
      exact ⟨by simp only; omega, hpinged⟩
    · split at h
      · cases h
        exact ⟨by simp only; omega, hpinged⟩
      · cases h
        exact ⟨by simp only; omega, Nat.le_refl _⟩

theorem Vigil.Stalled.step (hsound : s₀.Sound usec) (hs : s.Stalled checkLate s₀) (a : VigilAct)
    (htick : a ≠ .tick) (hcheck : CheckWithin checkLate s a) (h : s.step usec a = some t) :
    t.Stalled checkLate s₀ := by
  cases a with
  | pass d =>
    obtain rfl := Option.some.inj h
    simp only [CheckWithin] at hcheck
    cases hs with
    | waiting hdue hpinged hnow =>
      exact .waiting hdue hpinged (by rw [hdue] at hcheck; exact le_max_of_le_right hcheck)
    | caught hseen hpinged => exact .caught hseen hpinged
  | tick => exact absurd rfl htick
  | check =>
    simp only [Vigil.step, Option.ite_none_right_eq_some] at h
    obtain ⟨-, h⟩ := h
    have hold : s.pinged ≤ max s₀.now (s₀.checkDue + checkLate) := by
      cases hs with
      | waiting hdue hpinged hnow =>
        rw [hpinged]
        exact le_max_of_le_left hsound.pinged
      | caught hseen hpinged => exact hpinged
    split at h
    · cases h
      exact .caught rfl hold
    · next seen hseen =>
      split at h
      · next heq =>
        cases h
        exact .caught (by rw [heq]; exact hseen) hold
      · next hne =>
        cases h
        cases hs with
        | waiting hdue hpinged hnow => exact .caught rfl hnow
        | caught hseen' hpinged => exact absurd (Option.some.inj (hseen'.symm.trans hseen)) hne

end Stalled

/-- The watchdog tells a supervisor that keeps its time from one that stands still. If the loop and
the task are late for their timers by less than a quarter of the interval between them, systemd is
never left without a ping for the whole interval. And if from some moment of any run on the loop
does not come round any more, while it awaits an upgrade or because it hangs, then the task pings no
later than half an interval and its own delay after that moment. -/
theorem watchdog_reports_stalls (usec tickLate checkLate : ℕ) (hu : usec < 2 ^ 64)
    (hslack : beaconTickInterval (some usec) + tickLate + checkLate < pingInterval usec) :
    (∀ as s,
      Along (Vigil.step usec) (fun s a => TickWithin tickLate s a ∧ CheckWithin checkLate s a)
        Vigil.start as → exec (Vigil.step usec) Vigil.start as = some s →
      s.now ≤ s.pinged + usec) ∧
    ∀ as s bs t, exec (Vigil.step usec) Vigil.start as = some s → .tick ∉ bs →
      Along (Vigil.step usec) (CheckWithin checkLate) s bs → exec (Vigil.step usec) s bs = some t →
      t.pinged ≤ s.now + pingInterval usec + checkLate := by
  constructor
  · intro as s hg h
    have hs := exec_along (fun s a t hi hg ht => Vigil.Kept.step hu hslack hi a hg.1 hg.2 ht) _ s as
      Vigil.start_kept hg h
    exact hs.heard hslack
  · intro as s bs t h hbs hg ht
    have hsound : s.Sound usec := exec_invariant (fun _ a _ hi hs => hi.step a hs) _ s as
      ⟨by simp [Vigil.start], Nat.le_refl _⟩ h
    have hstill : Along (Vigil.step usec) (fun _ a => a ≠ .tick) s bs :=
      along_of_forall (fun a => a ≠ .tick) (fun _ _ ha => ha) s bs fun a ha he => hbs (he ▸ ha)
    have hs : t.Stalled checkLate s :=
      exec_along (fun _ a _ hi hg hstep => Vigil.Stalled.step hsound hi a hg.1 hg.2 hstep) s t bs
        (.waiting rfl rfl (le_max_left _ _)) (along_and hstill hg) ht
    have hlate : max s.now (s.checkDue + checkLate) ≤ s.now + pingInterval usec + checkLate := by
      have hdue := hsound.due
      omega
    cases hs with
    | waiting hdue hpinged hnow =>
      rw [hpinged]
      exact (le_max_of_le_left hsound.pinged).trans hlate
    | caught hseen hpinged => exact hpinged.trans hlate

theorem watchdog_reports_stalls_thirty :
    beaconTickInterval (some 30000000) + 3000000 + 3000000 < pingInterval 30000000 ∧
    ∀ bs t, .tick ∉ bs → Along (Vigil.step 30000000) (CheckWithin 3000000) Vigil.start bs →
      exec (Vigil.step 30000000) Vigil.start bs = some t → t.pinged ≤ 18000000 :=
  ⟨by decide, fun bs t hbs hg ht =>
    (watchdog_reports_stalls 30000000 3000000 3000000 (by decide) (by decide)).2 [] Vigil.start bs t
      rfl hbs hg ht⟩

/-! ### The watchdog across a self-upgrade -/

/-- The variable is given once. -/
def GivenOnce (environ : List CString) (key : String) : Prop :=
  ∀ v w, (utf8 key, v) ∈ varsOs environ → (utf8 key, w) ∈ varsOs environ → v = w

theorem envVar_latest {environ : List CString} {key : String} (h : GivenOnce environ key) :
    envVar environ key =
      (Table.latest (utf8 key) (varsOs environ)).bind fun b => (intoString b).toOption := by
  unfold envVar
  cases hfind : (varsOs environ).find? fun var => var.1 == utf8 key with
  | none =>
    have hnone : Table.latest (utf8 key) (varsOs environ) = none := by
      rw [Table.latest_eq_none_iff]
      intro v hv
      simpa using List.find?_eq_none.mp hfind _ hv
    rw [hnone]
    rfl
  | some var =>
    have hkey : var.1 = utf8 key := by simpa using List.find?_some hfind
    have hmem : (utf8 key, var.2) ∈ varsOs environ := by
      rw [← hkey]
      exact List.mem_of_find?_eq_some hfind
    rw [(Table.latest_eq_some_iff h).mpr hmem]
    rfl

section Candidate
variable {environ envp : List CString} {vs pairs : List (String × String)} {key : String}

/-- The scrub and the numbers of the handoff leave any other variable as it was. -/
theorem outcome_ambient (hvs : vars environ = .ok vs) (hproper : Upgrade.Proper pairs)
    (hst : ¬ Upgrade.Stale (utf8 key)) :
    Upgrade.outcome vs pairs (utf8 key) = Table.latest (utf8 key) (varsOs environ) := by
  have hpairs : Table.latest (utf8 key) (pairs.map utf8Var) = none := by
    rw [Table.latest_eq_none_iff]
    intro v hv
    obtain ⟨kv, hkv, heq⟩ := List.mem_map.mp hv
    have hstale := hproper.stale kv hkv
    rw [show utf8 kv.1 = utf8 key from (Prod.mk.inj heq).1] at hstale
    exact hst hstale
  have hkept : utf8 key ∉ (Upgrade.stale vs).map utf8 := by
    rw [Upgrade.mem_stale_iff hvs]
    exact fun h => hst h.1
  simp only [Upgrade.outcome, Table.latest_append, latest_setTo, latest_unset, hpairs, if_neg hkept,
    (vars_eq_ok_iff environ vs).mp hvs]
  cases Table.latest (utf8 key) (vs.map utf8Var) <;> rfl

theorem envVar_handed (key : String) (hvs : vars environ = .ok vs) (hproper : Upgrade.Proper pairs)
    (h : selfUpgradeEnvp environ pairs = .ok envp) (hst : ¬ Upgrade.Stale (utf8 key))
    (hone : GivenOnce environ key) :
    envVar envp key = envVar environ key ∧ GivenOnce envp key := by
  constructor
  · rw [envVar_candidate hvs hproper h, outcome_ambient hvs hproper hst, envVar_latest hone]
  · obtain ⟨envp', h', hlists⟩ := selfUpgradeEnvp_lists hvs hproper
    cases h.symm.trans h'
    intro v w hv hw
    have hmem := hlists.mem_varsOs_iff fun var hv => (Upgrade.outcome_proper hvs hproper hv).1
    have hv' := (hmem _).mp hv
    have hw' := (hmem _).mp hw
    exact Option.some.inj (hv'.symm.trans hw')

end Candidate

/-- The two variables of the watchdog are those of `environ`. -/
structure Handed (environ : List CString) {F : Type} (s : SupervisorImage F) : Prop where
  unicode : ∃ vs, vars s.environ = .ok vs
  usec : envVar s.environ "WATCHDOG_USEC" = envVar environ "WATCHDOG_USEC"
  pid : envVar s.environ "WATCHDOG_PID" = envVar environ "WATCHDOG_PID"
  usecOnce : GivenOnce s.environ "WATCHDOG_USEC"
  pidOnce : GivenOnce s.environ "WATCHDOG_PID"

section Image
variable {F : Type} {environ : List CString} {address : Slot → String}

theorem candidate_pid {env : AttemptEnv F} {pid : Pid} {envp : List CString} {fds : Descriptors F}
    {c : SupervisorImage F} (h : candidate env address pid envp fds = some c) : c.pid = pid := by
  unfold candidate at h
  split at h
  · cases h
  · next d hd =>
    have hpid : d.pid = pid := by
      cases hl : openSupervisorListeners env.opens address pid envp
        (decide (0 < supGeneration envp)) fds with
      | error e => simp [SupervisorImage.start, hl, bind, Except.bind] at hd
      | ok l =>
        simp only [SupervisorImage.start, hl, bind, Except.bind, pure, Except.pure,
          Except.ok.injEq] at hd
        rw [← hd]
    split at h
    · cases h
      exact hpid
    · cases h

theorem Handed.step {s s' : SupervisorImage F} (a : AdoptedState × AttemptEnv F)
    (hs : Handed environ s) (hsane : a.2.Sane s) (h : s.step address a = some s') :
    Handed environ s' := by
  obtain ⟨pids, env⟩ := a
  rcases doSelfUpgrade_cases env address pids s with
    ⟨t, -, ⟨e, hout⟩ | hout⟩ | ⟨envp, pid, c, hclear, henvp, hspawn, hc, hout⟩ | ⟨p, -, hout⟩
  · simp only [SupervisorImage.step, hout, Outcome.survivor, Option.some.injEq] at h
    subst h
    exact ⟨hs.unicode, hs.usec, hs.pid, hs.usecOnce, hs.pidOnce⟩
  · simp only [SupervisorImage.step, hout, Outcome.survivor, Option.some.injEq] at h
    subst h
    exact ⟨hs.unicode, hs.usec, hs.pid, hs.usecOnce, hs.pidOnce⟩
  · simp only [SupervisorImage.step, hout, Outcome.survivor, Option.some.injEq] at h
    subst h
    obtain ⟨-, henviron, -⟩ := candidate_reads hsane hs.unicode hclear henvp hspawn hc
    obtain ⟨vs, hvs⟩ := hs.unicode
    have hproper := handoffEnv_proper s.ctl pids s.generation env.writeFd
    have husec := envVar_handed "WATCHDOG_USEC" hvs hproper henvp
      (by unfold Upgrade.Stale; decide) hs.usecOnce
    have hpid := envVar_handed "WATCHDOG_PID" hvs hproper henvp
      (by unfold Upgrade.Stale; decide) hs.pidOnce
    rw [← henviron] at husec hpid
    refine ⟨?_, husec.1.trans hs.usec, hpid.1.trans hs.pid, husec.2, hpid.2⟩
    rw [henviron]
    exact selfUpgradeEnvp_unicode hvs hproper henvp
  · simp [SupervisorImage.step, hout, Outcome.survivor] at h

/-- A self-upgrade hands the watchdog's variables on, and with them the pid of the process that
systemd watches. Whatever self-upgrades are made, failed, rolled back or committed, the supervisor
at the end of them pings as the first one did if `WATCHDOG_PID` was not set or it is still the same
process, and not at all if it is another one, as every successor is. -/
theorem watchdog_stays_with_pid (s s' : SupervisorImage F)
    (as : List (AdoptedState × AttemptEnv F)) (usec : ℕ)
    (hunicode : ∃ vs, vars s.environ = .ok vs) (husec : GivenOnce s.environ "WATCHDOG_USEC")
    (hpid : GivenOnce s.environ "WATCHDOG_PID")
    (hon : watchdogUsec s.environ s.pid = some usec)
    (hsane : Along (SupervisorImage.step address) (fun s a => a.2.Sane s) s as)
    (h : exec (SupervisorImage.step address) s as = some s') :
    watchdogUsec s'.environ s'.pid =
      if envVar s.environ "WATCHDOG_PID" = none ∨ s'.pid = s.pid then some usec else none := by
  have hs : Handed s.environ s' := exec_along (fun _ a _ hi hg hstep => Handed.step a hi hg hstep)
    s s' as ⟨hunicode, rfl, rfl, husec, hpid⟩ hsane h
  unfold watchdogUsec at hon ⊢
  rw [hs.usec, hs.pid]
  split at hon
  · cases hon
  · next n hn =>
    rw [Option.ite_none_left_eq_some] at hon
    obtain ⟨hne, hon⟩ := hon
    rw [if_neg hne]
    cases hv : envVar s.environ "WATCHDOG_PID" with
    | none =>
      rw [hv] at hon
      cases hon
      simp
    | some v =>
      rw [hv, Option.ite_none_left_eq_some, not_not] at hon
      obtain ⟨hmine, heq⟩ := hon
      cases heq
      simp only [hmine]
      by_cases hp : s'.pid = s.pid
      · simp [hp]
      · simp [hp, Ne.symm hp]

end Image

/-- The second generation under `WatchdogSec=30`, itself the process systemd watches. -/
def watchedGeneration : SupervisorImage ℕ :=
  { secondGeneration with
    environ := [⟨utf8 "WATCHDOG_USEC=30000000", by decide⟩, ⟨utf8 "WATCHDOG_PID=50", by decide⟩] }

theorem watchedGeneration_vars : vars watchedGeneration.environ =
    .ok [("WATCHDOG_USEC", "30000000"), ("WATCHDOG_PID", "50")] := by
  rfl

theorem watchedGeneration_once (key : String) : GivenOnce watchedGeneration.environ key := by
  intro v w hv hw
  rw [(vars_eq_ok_iff _ _).mp watchedGeneration_vars] at hv hw
  simp only [List.map_cons, List.map_nil, List.mem_cons, List.not_mem_nil, or_false, utf8Var,
    Prod.mk.injEq] at hv hw
  rcases hv with ⟨hk, rfl⟩ | ⟨hk, rfl⟩ <;> rcases hw with ⟨hk', rfl⟩ | ⟨hk', rfl⟩
  · rfl
  · exact absurd (utf8_injective (hk.symm.trans hk')) (by decide)
  · exact absurd (utf8_injective (hk.symm.trans hk')) (by decide)
  · rfl

theorem watchedGeneration_inactive (v : String) :
    (utf8 "LISTEN_PID", utf8 v) ∉ varsOs watchedGeneration.environ := by
  rw [(vars_eq_ok_iff _ _).mp watchedGeneration_vars]
  intro hmem
  obtain ⟨kv, hkv, heq⟩ := List.mem_map.mp hmem
  have hname := utf8_injective (Prod.mk.inj heq).1
  simp only [List.mem_cons, List.not_mem_nil, or_false] at hkv
  rcases hkv with rfl | rfl <;> simp at hname

theorem watchdog_stays_with_first :
    ∃ c, doSelfUpgrade acks Slot.sdName workersSnapshot watchedGeneration = .committed c ∧
      watchdogUsec watchedGeneration.environ watchedGeneration.pid = some 30000000 ∧
      watchdogUsec c.environ c.pid = none := by
  have hsane : acks.Sane watchedGeneration :=
    ⟨by decide +kernel, fun pid v _ hv => absurd hv (watchedGeneration_inactive v)⟩
  have hon : watchdogUsec watchedGeneration.environ watchedGeneration.pid = some 30000000 := by
    decide +kernel
  obtain ⟨c, hc⟩ : ∃ c, doSelfUpgrade acks Slot.sdName workersSnapshot watchedGeneration =
      .committed c := doSelfUpgrade_commits hsane ⟨_, watchedGeneration_vars⟩
    (fun v hv => absurd hv (watchedGeneration_inactive v))
    ⟨fun _ => rfl, rfl, rfl, ⟨51, rfl⟩, fun _ => rfl, fun _ => rfl, rfl, by decide⟩
  have hstep : exec (SupervisorImage.step Slot.sdName) watchedGeneration [(workersSnapshot, acks)] =
      some c := by
    simp only [exec, SupervisorImage.step, hc, Outcome.survivor]
  have hpid : c.pid = 51 := by
    rcases doSelfUpgrade_cases acks Slot.sdName workersSnapshot watchedGeneration with
      ⟨t, -, ⟨e, hout⟩ | hout⟩ | ⟨envp, pid, d, -, -, hspawn, hd, hout⟩ | ⟨p, -, hout⟩
    all_goals cases hc.symm.trans hout
    cases hspawn
    exact candidate_pid hd
  refine ⟨c, hc, hon, ?_⟩
  rw [watchdog_stays_with_pid watchedGeneration c [(workersSnapshot, acks)] 30000000
    ⟨_, watchedGeneration_vars⟩ (watchedGeneration_once _) (watchedGeneration_once _) hon
    ⟨hsane, fun _ _ => trivial⟩ hstep, if_neg]
  rw [hpid]
  decide +kernel

end FiveNinesEcho.Supervisor
