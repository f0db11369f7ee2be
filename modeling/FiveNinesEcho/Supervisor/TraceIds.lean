import FiveNinesEcho.Supervisor.AdminDrain

/-!
# Trace ids across upgrades (`handoff.rs:185-194`, `acceptor.rs:307-353`)

`new_trace_id` prints the pid and a counter that starts at 0 with every image. A plain acceptor
hands over to a process with another pid; the TLS acceptor execs the new image in its own process,
which keeps the pid and loses the counter.
-/

namespace FiveNinesEcho.Acceptor
open Lib

/-! ### Reading an id back -/

def hexDigit (c : Char) : ℕ := if c.toNat < 58 then c.toNat - 48 else c.toNat - 87

def hexValue (cs : List Char) : ℕ := cs.foldl (fun v c => 16 * v + hexDigit c) 0

theorem hexDigit_digitChar {d : ℕ} (h : d < 16) : hexDigit (Nat.digitChar d) = d := by
  have hall : ∀ d : Fin 16, hexDigit (Nat.digitChar d) = d := by decide
  exact hall ⟨d, h⟩

theorem hexValue_snoc (cs : List Char) (c : Char) :
    hexValue (cs ++ [c]) = 16 * hexValue cs + hexDigit c := by
  simp [hexValue]

theorem hexValue_toDigits (n : ℕ) : hexValue (Nat.toDigits 16 n) = n := by
  induction n using Nat.strongRecOn with
  | _ n ih =>
    by_cases hn : n < 16
    · rw [Nat.toDigits_of_lt_base hn]
      have hvalue := hexValue_snoc [] (Nat.digitChar n)
      rw [hexDigit_digitChar hn] at hvalue
      simpa [hexValue] using hvalue
    · rw [Nat.toDigits_of_base_le (by decide) (by omega), hexValue_snoc, ih (n / 16) (by omega),
        hexDigit_digitChar (Nat.mod_lt _ (by decide))]
      omega

theorem hexValue_zeros (k : ℕ) (cs : List Char) :
    hexValue (List.replicate k '0' ++ cs) = hexValue cs := by
  induction k with
  | zero => rfl
  | succ k ih =>
    rw [List.replicate_succ, List.cons_append, ← ih]
    rfl

theorem hexPadded_toList (width n : ℕ) : (hexPadded width n).toList =
    List.replicate (width - (Nat.toDigits 16 n).length) '0' ++ Nat.toDigits 16 n := by
  rw [hexPadded, String.toList_append, String.toList_ofList, String.toList_ofList]

theorem hexPadded_inj {width n m : ℕ} (h : (hexPadded width n).toList = (hexPadded width m).toList) :
    n = m := by
  have hvalue := congrArg hexValue h
  rw [hexPadded_toList, hexPadded_toList, hexValue_zeros, hexValue_zeros, hexValue_toDigits,
    hexValue_toDigits] at hvalue
  exact hvalue

theorem hexPadded_length {width n : ℕ} (hw : 0 < width) (hn : n < 16 ^ width) :
    (hexPadded width n).toList.length = width := by
  have hlen := (Nat.length_toDigits_le_iff (by decide) hw).mpr hn
  rw [hexPadded_toList, List.length_append, List.length_replicate]
  omega

/-- The id of a session tells the pid and the number. -/
theorem newTraceId_inj {pid pid' : UInt32} {n n' : UInt64}
    (h : newTraceId pid n = newTraceId pid' n') : pid = pid' ∧ n = n' := by
  have hlist := congrArg String.toList h
  simp only [newTraceId, String.toList_append, List.append_assoc] at hlist
  have hlen : (hexPadded 8 pid.toNat).toList.length = (hexPadded 8 pid'.toNat).toList.length := by
    rw [hexPadded_length (by decide) pid.toNat_lt, hexPadded_length (by decide) pid'.toNat_lt]
  obtain ⟨hpid, hrest⟩ := List.append_inj hlist hlen
  have hn := List.append_cancel_left hrest
  exact ⟨UInt32.toNat_inj.mp (hexPadded_inj hpid), UInt64.toNat_inj.mp (hexPadded_inj hn)⟩

end FiveNinesEcho.Acceptor

namespace FiveNinesEcho.Supervisor
open Lib Handoff Acceptor

/-! ### The ids of a run -/

/-- A session that was accepted: by which process, by which image of it, and under which id. -/
structure Mint where
  pid : Pid
  gen : ℕ
  traceId : String
  deriving Repr, DecidableEq

/-- The two sessions were accepted by the same image. -/
def Mint.sameImage (m m' : Mint) : Bool := m.pid = m'.pid && m.gen = m'.gen

def AcceptorRole.minted (s : AcceptorRole) : AcceptorAct → Option Mint
  | .accept p tryTake peer =>
    if s.inPhase p .serving then
      match (handleAcceptorAccept (s.processes p).loop (fun _ => tryTake) peer).2 with
      | .session _ client => some ⟨p, (s.sup.genOf p).getD 0, client.traceId⟩
      | _ => none
    else none
  | _ => none

/-- The sessions a run accepts, in their order. -/
def AcceptorRole.mints : AcceptorRole → List AcceptorAct → List Mint
  | _, [] => []
  | s, a :: as => match s.step a with
    | none => []
    | some t => (s.minted a).toList ++ AcceptorRole.mints t as

theorem AcceptorRole.mints_snoc {s t u : AcceptorRole} {as : List AcceptorAct} {a : AcceptorAct}
    (h : exec AcceptorRole.step s as = some t) (hu : t.step a = some u) :
    s.mints (as ++ [a]) = s.mints as ++ (t.minted a).toList := by
  induction as generalizing s with
  | nil =>
    have hst : s = t := Option.some.inj h
    subst hst
    simp [AcceptorRole.mints, hu]
  | cons b as ih =>
    obtain ⟨m, hm, hrest⟩ := exec_cons_some s t b as h
    simp only [List.cons_append, AcceptorRole.mints, hm, ih hrest, List.append_assoc]

/-! ### Numbering -/

/-- Every session got the number of those its image had accepted before it. -/
inductive Numbered : List Mint → Prop
  | nil : Numbered []
  | snoc (ms : List Mint) (m : Mint) (h : Numbered ms)
      (hid : m.traceId = newTraceId (UInt32.ofNat m.pid)
        (UInt64.ofNat (ms.countP (m.sameImage ·)))) : Numbered (ms ++ [m])

theorem Mint.sameImage_iff {m m' : Mint} :
    m.sameImage m' = true ↔ m.pid = m'.pid ∧ m.gen = m'.gen := by
  simp [Mint.sameImage]

theorem countP_sameImage_congr {m m' : Mint} (h : m.sameImage m' = true) (ms : List Mint) :
    ms.countP (m.sameImage ·) = ms.countP (m'.sameImage ·) := by
  obtain ⟨hpid, hgen⟩ := Mint.sameImage_iff.mp h
  simp only [Mint.sameImage, hpid, hgen]

/-- A number is below the count of its image. -/
theorem Numbered.number_lt {ms : List Mint} (h : Numbered ms) {m : Mint} (hm : m ∈ ms) :
    ∃ k, k < ms.countP (m.sameImage ·) ∧
      m.traceId = newTraceId (UInt32.ofNat m.pid) (UInt64.ofNat k) := by
  induction h with
  | nil => cases hm
  | snoc ms m' h hid ih =>
    rw [List.countP_append]
    rcases List.mem_append.mp hm with hold | hnew
    · obtain ⟨k, hk, hmid⟩ := ih hold
      exact ⟨k, by omega, hmid⟩
    · cases List.mem_singleton.mp hnew
      refine ⟨_, ?_, hid⟩
      have hself : m.sameImage m = true := Mint.sameImage_iff.mpr ⟨rfl, rfl⟩
      simp [hself]

/-- An image that accepted a session accepted one under the number 0. -/
theorem Numbered.first {ms : List Mint} (h : Numbered ms) {m : Mint} (hm : m ∈ ms) :
    ∃ m' ∈ ms, m.sameImage m' = true ∧ m'.traceId = newTraceId (UInt32.ofNat m.pid) 0 := by
  induction h generalizing m with
  | nil => cases hm
  | snoc ms new h hid ih =>
    have hold : ∀ x ∈ ms, m.sameImage x = true → ∃ y ∈ ms ++ [new], m.sameImage y = true ∧
        y.traceId = newTraceId (UInt32.ofNat m.pid) 0 := by
      intro x hx hsame
      obtain ⟨y, hy, hxy, hyid⟩ := ih hx
      rw [Mint.sameImage_iff] at hsame hxy
      refine ⟨y, List.mem_append_left _ hy, ?_, by rw [hsame.1, hyid]⟩
      exact Mint.sameImage_iff.mpr ⟨hsame.1.trans hxy.1, hsame.2.trans hxy.2⟩
    rcases List.mem_append.mp hm with hmem | hnew
    · exact hold m hmem (Mint.sameImage_iff.mpr ⟨rfl, rfl⟩)
    · cases List.mem_singleton.mp hnew
      by_cases hzero : ms.countP (new.sameImage ·) = 0
      · refine ⟨new, hm, Mint.sameImage_iff.mpr ⟨rfl, rfl⟩, ?_⟩
        rw [hid, hzero]
        rfl
      · -- an earlier one of the same image has it
        obtain ⟨x, hx, hsame⟩ := List.countP_pos_iff.mp (Nat.pos_of_ne_zero hzero)
        exact hold x hx hsame

/-- The sessions accepted under one pid were accepted by one image of it. -/
def OneImage (ms : List Mint) : Prop :=
  ∀ m ∈ ms, ∀ m' ∈ ms, m.pid = m'.pid → m.gen = m'.gen

/-- Pids are 32 bits wide and no image wraps its counter. -/
structure Fits (ms : List Mint) : Prop where
  pid : ∀ m ∈ ms, m.pid < 2 ^ 32
  count : ∀ m ∈ ms, ms.countP (m.sameImage ·) ≤ 2 ^ 64

theorem Fits.init {ms : List Mint} {m : Mint} (h : Fits (ms ++ [m])) : Fits ms where
  pid x hx := h.pid x (List.mem_append_left _ hx)
  count x hx := by
    have hle := h.count x (List.mem_append_left _ hx)
    rw [List.countP_append] at hle
    omega

theorem pid_of_ofNat {p q : Pid} (hp : p < 2 ^ 32) (hq : q < 2 ^ 32)
    (h : UInt32.ofNat p = UInt32.ofNat q) : p = q := by
  have hnat := congrArg UInt32.toNat h
  rwa [UInt32.toNat_ofNat_of_lt' hp, UInt32.toNat_ofNat_of_lt' hq] at hnat

/-- A new session of an image does not get the id of an earlier session. -/
theorem Numbered.fresh {ms : List Mint} {m : Mint} (h : Numbered ms)
    (hid : m.traceId = newTraceId (UInt32.ofNat m.pid) (UInt64.ofNat (ms.countP (m.sameImage ·))))
    (hfits : Fits (ms ++ [m])) (hone : OneImage (ms ++ [m])) : m.traceId ∉ ms.map Mint.traceId := by
  intro hmem
  obtain ⟨x, hx, hxid⟩ := List.mem_map.mp hmem
  have hlast : m ∈ ms ++ [m] := List.mem_append_right _ (List.mem_singleton.mpr rfl)
  have hold : x ∈ ms ++ [m] := List.mem_append_left _ hx
  obtain ⟨k, hk, hkid⟩ := h.number_lt hx
  rw [hid, hkid] at hxid
  obtain ⟨hpid, hnum⟩ := newTraceId_inj hxid
  have hpid := pid_of_ofNat (hfits.pid x hold) (hfits.pid m hlast) hpid
  have hsame : x.sameImage m = true := Mint.sameImage_iff.mpr ⟨hpid, hone x hold m hlast hpid⟩
  rw [countP_sameImage_congr hsame] at hk
  have hbound := hfits.count m hlast
  have hself : m.sameImage m = true := Mint.sameImage_iff.mpr ⟨rfl, rfl⟩
  rw [List.countP_append, List.countP_singleton, if_pos hself] at hbound
  have hnat := congrArg UInt64.toNat hnum
  rw [UInt64.toNat_ofNat_of_lt' (show k < 2 ^ 64 by omega),
    UInt64.toNat_ofNat_of_lt' (show ms.countP (m.sameImage ·) < 2 ^ 64 by omega)] at hnat
  omega

theorem Numbered.nodup_iff {ms : List Mint} (h : Numbered ms) (hfits : Fits ms) :
    (ms.map Mint.traceId).Nodup ↔ OneImage ms := by
  constructor
  · intro hnodup m hm m' hm' hpid
    obtain ⟨x, hx, hsame, hxid⟩ := h.first hm
    obtain ⟨y, hy, hsame', hyid⟩ := h.first hm'
    have hxy : x = y := List.inj_on_of_nodup_map hnodup hx hy (by rw [hxid, hyid, hpid])
    rw [Mint.sameImage_iff] at hsame hsame'
    rw [hsame.2, hsame'.2, hxy]
  · intro hone
    induction h with
    | nil => exact List.nodup_nil
    | snoc ms m h hid ih =>
      have hsub : OneImage ms := fun x hx y hy =>
        hone x (List.mem_append_left _ hx) y (List.mem_append_left _ hy)
      have hfresh := h.fresh hid hfits hone
      rw [List.map_append]
      refine List.nodup_append.mpr ⟨ih hfits.init hsub, List.nodup_singleton _, ?_⟩
      intro i hi j hj heq
      cases List.mem_singleton.mp hj
      exact hfresh (heq ▸ hi)

/-! ### The images of a role -/

/-- A step leaves the image of a process alone, starts the process, or execs the next image in it,
which only the TLS acceptor does. -/
theorem Role.genOf_step {s t : Role} {a : RoleAct} (h : s.step a = some t) (q : Pid) :
    t.genOf q = s.genOf q ∨ s.genOf q = none ∨
      ∃ g, s.genOf q = some g ∧ t.genOf q = some (g + 1) ∧ s.name.execsInPlace = true := by
  unfold Role.genOf
  have hmove := Role.step_procs h
  generalize t.procs = procs at hmove ⊢
  cases hmove with
  | same => exact Or.inl rfl
  | spawn p hp =>
    by_cases hq : q = p
    · subst hq
      exact Or.inr (Or.inl (by rw [hp]; rfl))
    · exact Or.inl (by rw [Function.update_of_ne hq])
  | fork p r gen _ hr =>
    by_cases hq : q = r
    · subst hq
      exact Or.inr (Or.inl (by rw [hr]; rfl))
    · exact Or.inl (by rw [Function.update_of_ne hq])
  | reexec p gen hp =>
    by_cases hq : q = p
    · subst hq
      obtain ⟨-, -, hplace, -⟩ := Role.reexec_cases h
      exact Or.inr (Or.inr ⟨gen, by rw [hp]; rfl, by rw [Function.update_self]; rfl, hplace⟩)
    · exact Or.inl (by rw [Function.update_of_ne hq])
  | exit p gen st hp =>
    by_cases hq : q = p
    · subst hq
      exact Or.inl (by rw [Function.update_self, hp]; rfl)
    · exact Or.inl (by rw [Function.update_of_ne hq])

/-- An accept that starts a session uses up a number, any other one does not. -/
theorem accept_traces (runtime : AcceptorLoop) (tryTake : IpAddr → Bool) (peer : Option SocketAddr) :
    (handleAcceptorAccept runtime tryTake peer).1.pid = runtime.pid ∧
      ((∃ request client, (handleAcceptorAccept runtime tryTake peer).2 = .session request client ∧
          client.traceId = newTraceId runtime.pid runtime.traces ∧
          (handleAcceptorAccept runtime tryTake peer).1.traces = runtime.traces + 1) ∨
        (∀ request client, (handleAcceptorAccept runtime tryTake peer).2 ≠ .session request client) ∧
          (handleAcceptorAccept runtime tryTake peer).1.traces = runtime.traces) := by
  cases peer with
  | none => exact ⟨rfl, Or.inr ⟨fun _ _ h => (by cases h), rfl⟩⟩
  | some peer =>
    unfold handleAcceptorAccept
    dsimp only
    split
    · exact ⟨rfl, Or.inr ⟨fun _ _ h => (by cases h), rfl⟩⟩
    · split
      · exact ⟨rfl, Or.inr ⟨fun _ _ h => (by cases h), rfl⟩⟩
      · split
        · exact ⟨rfl, Or.inr ⟨fun _ _ h => (by cases h), rfl⟩⟩
        · exact ⟨rfl, Or.inl ⟨_, _, rfl, rfl, rfl⟩⟩

/-- Only an accept moves a counter; a step of the supervisor side may start images. -/
theorem AcceptorRole.step_loops {s t : AcceptorRole} {a : AcceptorAct} (h : s.step a = some t) :
    (s.minted a = none ∧ ∃ b, s.sup.step b = some t.sup ∧
      ∀ q, t.processes q = if t.sup.genOf q = s.sup.genOf q then s.processes q else s.fresh q) ∨
    (s.minted a = none ∧ t.sup = s.sup ∧ ∀ q, (t.processes q).loop.pid = (s.processes q).loop.pid ∧
      (t.processes q).loop.traces = (s.processes q).loop.traces) ∨
    (∃ p g, s.sup.genOf p = some g ∧ s.minted a = some ⟨p, g, newTraceId (s.processes p).loop.pid
        (s.processes p).loop.traces⟩ ∧
      t.sup = s.sup ∧ ∀ q, (t.processes q).loop.pid = (s.processes q).loop.pid ∧
        (t.processes q).loop.traces =
          (s.processes q).loop.traces + (if q = p then 1 else 0)) := by
  have hkeep : ∀ p w, w.loop.pid = (s.processes p).loop.pid →
      w.loop.traces = (s.processes p).loop.traces →
      ∀ q, ((s.setProcess p w).processes q).loop.pid = (s.processes q).loop.pid ∧
        ((s.setProcess p w).processes q).loop.traces = (s.processes q).loop.traces := by
    intro p w hpid htraces q
    by_cases hq : q = p
    · subst hq
      simp only [AcceptorRole.setProcess, Function.update_self]
      exact ⟨hpid, htraces⟩
    · have hold : (s.setProcess p w).processes q = s.processes q := Function.update_of_ne hq ..
      rw [hold]
      exact ⟨rfl, rfl⟩
  cases a with
  | sup b =>
    simp only [AcceptorRole.step, Option.ite_none_right_eq_some, Option.map_eq_some_iff] at h
    obtain ⟨-, sup, hsup, rfl⟩ := h
    exact Or.inl ⟨rfl, b, hsup, fun q => rfl⟩
  | accept p tryTake peer =>
    simp only [AcceptorRole.step, Option.ite_none_right_eq_some, Option.some.injEq] at h
    obtain ⟨hphase, rfl⟩ := h
    obtain ⟨hpid, ⟨request, client, hsession, hid, htraces⟩ | ⟨hnone, htraces⟩⟩ :=
      accept_traces (s.processes p).loop (fun _ => tryTake) peer
    · obtain ⟨g, hg⟩ : ∃ g, s.sup.genOf p = some g := by
        obtain ⟨hlive, -⟩ := (s.inPhase_iff p _).mp hphase
        cases hp : s.sup.procs p with
        | none => simp [AcceptorRole.live, Role.runs, hp] at hlive
        | some pr => exact ⟨pr.gen, by rw [Role.genOf, hp]; rfl⟩
      refine Or.inr (Or.inr ⟨p, g, hg, ?_, rfl, fun q => ?_⟩)
      · simp only [AcceptorRole.minted, hphase, if_true, hsession, hg, Option.getD_some, hid]
      · by_cases hq : q = p
        · subst hq
          simp only [AcceptorRole.setProcess, Function.update_self, if_true]
          exact ⟨hpid, htraces⟩
        · have hold : ∀ w, (s.setProcess p w).processes q = s.processes q :=
            fun w => Function.update_of_ne hq ..
          rw [hold, if_neg hq]
          exact ⟨rfl, (UInt64.add_zero _).symm⟩
    · refine Or.inr (Or.inl ⟨?_, rfl, hkeep p _ hpid htraces⟩)
      simp only [AcceptorRole.minted, hphase, if_true]
  | endSession p =>
    cases h
    exact Or.inr (Or.inl ⟨rfl, rfl, hkeep p _ rfl rfl⟩)
  | readDrain i c =>
    simp only [AcceptorRole.step, Option.ite_none_right_eq_some, Option.some.injEq] at h
    obtain ⟨-, rfl⟩ := h
    exact Or.inr (Or.inl ⟨rfl, rfl, hkeep c.pid _ rfl rfl⟩)
  | serve p | upgrade p | rollback p | takeDrain p =>
    simp only [AcceptorRole.step, Option.ite_none_right_eq_some, Option.some.injEq] at h
    obtain ⟨-, rfl⟩ := h
    exact Or.inr (Or.inl ⟨rfl, rfl, hkeep p _ rfl rfl⟩)

/-- What a run has accepted, seen from its state: a counter has counted the sessions of its image,
and no session is of an image yet to come. -/
structure Minting (s : AcceptorRole) (ms : List Mint) : Prop where
  numbered : Numbered ms
  pid : ∀ p, (s.processes p).loop.pid = UInt32.ofNat p
  counter : ∀ m : Mint, s.sup.genOf m.pid = some m.gen →
    (s.processes m.pid).loop.traces = UInt64.ofNat (ms.countP (m.sameImage ·))
  earlier : ∀ m ∈ ms, ∃ g, s.sup.genOf m.pid = some g ∧ m.gen ≤ g ∧
    (s.sup.name.execsInPlace = false → m.gen = g)

/-- A new image has accepted nothing yet. -/
theorem Minting.unborn {s : AcceptorRole} {ms : List Mint} (h : Minting s ms) {m : Mint}
    (hm : s.sup.genOf m.pid = none ∨ ∃ g, s.sup.genOf m.pid = some g ∧ m.gen = g + 1) :
    ms.countP (m.sameImage ·) = 0 := by
  rw [List.countP_eq_zero]
  intro x hx hsame
  obtain ⟨hpid, hgen⟩ := Mint.sameImage_iff.mp hsame
  obtain ⟨g, hg, hle, -⟩ := h.earlier x hx
  rw [← hpid] at hg
  rcases hm with hnone | ⟨g', hg', hnext⟩
  · cases hnone.symm.trans hg
  · cases hg'.symm.trans hg
    omega

theorem Minting.sup {s t : AcceptorRole} {ms : List Mint} (h : Minting s ms) {b : RoleAct}
    (hsup : s.sup.step b = some t.sup)
    (hproc : ∀ q, t.processes q = if t.sup.genOf q = s.sup.genOf q then s.processes q else s.fresh q) :
    Minting t ms := by
  refine ⟨h.numbered, fun p => ?_, fun m hm => ?_, fun m hm => ?_⟩
  · rw [hproc]
    split
    · exact h.pid p
    · rfl
  · rw [hproc]
    rcases Role.genOf_step hsup m.pid with hsame | hnone | ⟨g, hg, hnext, -⟩
    · rw [if_pos hsame]
      exact h.counter m (hsame ▸ hm)
    · rw [if_neg (by rw [hm, hnone]; simp), h.unborn (Or.inl hnone)]
      rfl
    · rw [if_neg (by rw [hnext, hg]; simp)]
      have hgen := Option.some.inj (hm.symm.trans hnext)
      rw [h.unborn (Or.inr ⟨g, hg, hgen⟩)]
      rfl
  · obtain ⟨g, hg, hle, hplain⟩ := h.earlier m hm
    have hname := Role.step_name hsup
    rcases Role.genOf_step hsup m.pid with hsame | hnone | ⟨g', hg', hnext, hplace⟩
    · exact ⟨g, hsame.trans hg, hle, fun hp => hplain (hname ▸ hp)⟩
    · cases hnone.symm.trans hg
    · cases hg'.symm.trans hg
      refine ⟨g + 1, hnext, by omega, fun hp => ?_⟩
      rw [hname, hplace] at hp
      cases hp

theorem Minting.accept {s t : AcceptorRole} {ms : List Mint} (h : Minting s ms) {p : Pid} {g : ℕ}
    (hg : s.sup.genOf p = some g) (hsup : t.sup = s.sup)
    (hloop : ∀ q, (t.processes q).loop.pid = (s.processes q).loop.pid ∧
      (t.processes q).loop.traces = (s.processes q).loop.traces + (if q = p then 1 else 0)) :
    Minting t (ms ++ [⟨p, g, newTraceId (s.processes p).loop.pid (s.processes p).loop.traces⟩]) := by
  generalize hnew : (⟨p, g, newTraceId (s.processes p).loop.pid (s.processes p).loop.traces⟩ : Mint) = new
  have hpid : new.pid = p := by rw [← hnew]
  have hgen : new.gen = g := by rw [← hnew]
  have hid : new.traceId = newTraceId (UInt32.ofNat new.pid)
      (UInt64.ofNat (ms.countP (new.sameImage ·))) := by
    rw [← h.counter new (by rw [hpid, hgen]; exact hg), hpid, ← h.pid p, ← hnew]
  refine ⟨.snoc ms new h.numbered hid, fun q => (hloop q).1.trans (h.pid q), fun m hm => ?_,
    fun m hm => ?_⟩
  · rw [hsup] at hm
    rw [(hloop m.pid).2, h.counter m hm, List.countP_append, List.countP_singleton]
    by_cases hp : m.pid = p
    · have hsame : m.sameImage new = true := by
        rw [hp, hg] at hm
        exact Mint.sameImage_iff.mpr ⟨hp.trans hpid.symm, (Option.some.inj hm).symm.trans hgen.symm⟩
      rw [if_pos hp, if_pos hsame, UInt64.ofNat_add]
      rfl
    · have hother : ¬ m.sameImage new = true := by
        intro hsame
        exact hp ((Mint.sameImage_iff.mp hsame).1.trans hpid)
      rw [if_neg hp, if_neg hother]
      exact UInt64.add_zero _
  · rw [hsup]
    rcases List.mem_append.mp hm with hold | hlast
    · exact h.earlier m hold
    · cases List.mem_singleton.mp hlast
      exact ⟨g, by rw [hpid]; exact hg, hgen.le, fun _ => hgen⟩

theorem Minting.step {s t : AcceptorRole} {ms : List Mint} {a : AcceptorAct} (h : Minting s ms)
    (hstep : s.step a = some t) : Minting t (ms ++ (s.minted a).toList) := by
  rcases AcceptorRole.step_loops hstep with ⟨hnone, b, hsup, hproc⟩ | ⟨hnone, hsup, hloop⟩ |
    ⟨p, g, hg, hsome, hsup, hloop⟩
  · rw [hnone, Option.toList_none, List.append_nil]
    exact h.sup hsup hproc
  · rw [hnone, Option.toList_none, List.append_nil]
    refine ⟨h.numbered, fun q => (hloop q).1.trans (h.pid q), fun m hm => ?_, fun m hm => ?_⟩
    · rw [hsup] at hm
      rw [(hloop m.pid).2]
      exact h.counter m hm
    · rw [hsup]
      exact h.earlier m hm
  · rw [hsome, Option.toList_some]
    exact h.accept hg hsup hloop

/-- A role under a supervisor none of whose processes has accepted a session yet. -/
def AcceptorRole.boot (kind : Acceptor.Role) (config : ListenPorts) (cap : ℕ)
    (boot : Boot (roleName kind)) : AcceptorRole :=
  { kind := kind
    config := config
    cap := cap
    sup := Role.start boot
    processes := fun p => ⟨.starting, false, ⟨kind, config, false, ⟨0, cap⟩, UInt32.ofNat p, 0⟩⟩
    inFlight := [] }

theorem minting_run (kind : Acceptor.Role) (config : ListenPorts) (cap : ℕ)
    (boot : Boot (roleName kind)) (acts : List AcceptorAct) (s : AcceptorRole)
    (h : exec AcceptorRole.step (.boot kind config cap boot) acts = some s) :
    Minting s ((AcceptorRole.boot kind config cap boot).mints acts) := by
  refine exec_history (I := fun acts s => Minting s ((AcceptorRole.boot kind config cap boot).mints acts))
    _ ?_ ?_ acts s h
  · exact ⟨.nil, fun _ => rfl, fun _ _ => rfl, fun m hm => (by cases hm)⟩
  · intro acts s a t hrun hmint hstep
    rw [AcceptorRole.mints_snoc hrun hstep]
    exact hmint.step hstep

/-- In every run of a role no two sessions get the same id, exactly if no process accepts sessions in
two of its images; a plain acceptor's processes have one image each. -/
theorem trace_ids_unique_iff (kind : Acceptor.Role) (config : ListenPorts) (cap : ℕ)
    (boot : Boot (roleName kind)) (acts : List AcceptorAct) (s : AcceptorRole)
    (hrun : exec AcceptorRole.step (.boot kind config cap boot) acts = some s)
    (hfits : Fits ((AcceptorRole.boot kind config cap boot).mints acts)) :
    let ms := (AcceptorRole.boot kind config cap boot).mints acts
    ((ms.map Mint.traceId).Nodup ↔ OneImage ms) ∧ (kind = .plain → (ms.map Mint.traceId).Nodup) := by
  intro ms
  have hmint := minting_run kind config cap boot acts s hrun
  have hiff := hmint.numbered.nodup_iff hfits
  refine ⟨hiff, fun hplain => hiff.mpr ?_⟩
  have hname : s.sup.name.execsInPlace = false := by
    have hkeep : s.sup.name = roleName kind := by
      refine exec_invariant (I := fun u => u.sup.name = roleName kind) ?_ _ s acts rfl hrun
      intro u a t hu hstep
      rcases AcceptorRole.step_loops hstep with ⟨-, b, hsup, -⟩ | ⟨-, hsup, -⟩ | ⟨-, -, -, -, hsup, -⟩
      · exact (Role.step_name hsup).trans hu
      · exact (congrArg Role.name hsup).trans hu
      · exact (congrArg Role.name hsup).trans hu
    rw [hkeep, hplain]
    rfl
  intro m hm m' hm' hpid
  obtain ⟨g, hg, -, hgen⟩ := hmint.earlier m hm
  obtain ⟨g', hg', -, hgen'⟩ := hmint.earlier m' hm'
  rw [hpid, hg'] at hg
  rw [hgen hname, hgen' hname, Option.some.inj hg]

def someClient : SocketAddr := .v4 ⟨192, 0, 2, 1⟩ 40000

/-- The TLS acceptor accepts a session, execs its next image and accepts another one. -/
def tlsUpgrade (p : Pid) : List AcceptorAct :=
  [.sup (.inl (.head (some p))), .serve p, .accept p true (some someClient), .upgrade p,
    .sup (.inr (.reexec p)), .serve p, .accept p true (some someClient)]

/-- The plain acceptor hands over to another process between the two. -/
def plainUpgrade (p q : Pid) : List AcceptorAct :=
  [.sup (.inl (.head (some p))), .serve p, .accept p true (some someClient), .upgrade p,
    .sup (.inr (.fork p q)), .serve q, .accept q true (some someClient)]

/-- Both sessions of the TLS acceptor are number 0 under the pid 7. -/
theorem trace_ids_collide :
    (∃ s, exec AcceptorRole.step (.boot .tls ⟨7000, 7001⟩ 0 (.cold .tls)) (tlsUpgrade 7) = some s) ∧
      ¬ (((AcceptorRole.boot .tls ⟨7000, 7001⟩ 0 (.cold .tls)).mints (tlsUpgrade 7)).map
        Mint.traceId).Nodup := by
  have hmints : (AcceptorRole.boot .tls ⟨7000, 7001⟩ 0 (.cold .tls)).mints (tlsUpgrade 7) =
      [⟨7, 0, newTraceId 7 0⟩, ⟨7, 1, newTraceId 7 0⟩] := rfl
  refine ⟨⟨_, rfl⟩, ?_⟩
  rw [hmints]
  simp

theorem trace_ids_unique_plain :
    (((AcceptorRole.boot .plain ⟨7000, 7001⟩ 0 (.cold .plain)).mints (plainUpgrade 7 9)).map
      Mint.traceId).Nodup := by
  have hrun : ∃ s, exec AcceptorRole.step (.boot .plain ⟨7000, 7001⟩ 0 (.cold .plain))
      (plainUpgrade 7 9) = some s := ⟨_, rfl⟩
  obtain ⟨s, hs⟩ := hrun
  have hmints : (AcceptorRole.boot .plain ⟨7000, 7001⟩ 0 (.cold .plain)).mints (plainUpgrade 7 9) =
      [⟨7, 0, newTraceId 7 0⟩, ⟨9, 1, newTraceId 9 0⟩] := rfl
  have hfits : Fits ((AcceptorRole.boot .plain ⟨7000, 7001⟩ 0 (.cold .plain)).mints
      (plainUpgrade 7 9)) := by
    rw [hmints]
    constructor <;> simp [Mint.sameImage]
  exact (trace_ids_unique_iff .plain _ _ _ _ s hs hfits).2 rfl

end FiveNinesEcho.Supervisor
