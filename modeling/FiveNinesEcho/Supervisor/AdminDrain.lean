import FiveNinesEcho.Supervisor.Role
import FiveNinesEcho.Acceptor.Accept

/-!
# The admin `Drain` (`supervisor/admin.rs:370-377`, `supervisor/control.rs:141-155`,
`acceptor.rs:119-352`, `acceptor/control.rs:68-137`)

The two acceptor roles under their supervisor loops, with the accept loop of every process of them,
the `Drain` lines on the control connections and the admin handlers that write them. The flag a
`Drain` sets belongs to one image of one process: `run` makes a new one.
-/

namespace FiveNinesEcho.Supervisor
open Lib Handoff Acceptor

/-! ### A process of an acceptor role -/

/-- Where `acceptor::run` is: before `run_acceptor_loop`, in its `select!`, or in `do_upgrade` in
the upgrade arm. -/
inductive AcceptorPhase where
  | starting
  | serving
  | upgrading
  deriving Repr, DecidableEq

/-- `drainTx` is the value in the `drain` watch channel, which the control client sets; the flag
`drained` is the loop's. -/
structure AcceptorProcess where
  phase : AcceptorPhase
  drainTx : Bool
  loop : AcceptorLoop
  deriving Repr, DecidableEq

/-- Some `Drain` has been read from the control connection. -/
def AcceptorProcess.told (w : AcceptorProcess) : Bool := w.loop.drained || w.drainTx

/-- The loop has yet to see the value in the channel. -/
def AcceptorProcess.unseen (w : AcceptorProcess) : Bool := w.drainTx && !w.loop.drained

/-- The `drain` arm (`acceptor.rs:272-277`). -/
def AcceptorProcess.takeDrain (w : AcceptorProcess) : AcceptorProcess :=
  { w with loop := { w.loop with drained := w.loop.drained || w.drainTx } }

/-- The release of a session's guard. -/
def AcceptorProcess.endSession (w : AcceptorProcess) : AcceptorProcess :=
  { w with loop := { w.loop with
    sessions := { w.loop.sessions with inFlight := w.loop.sessions.inFlight - 1 } } }

/-! ### A role -/

/-- `inFlight` holds the `Drain` lines that were written and not read, each with the number of the
admin request it is from; one on a connection that closes stays unread. -/
structure AcceptorRole where
  kind : Acceptor.Role
  config : ListenPorts
  cap : ℕ
  sup : Role
  processes : Pid → AcceptorProcess
  inFlight : List (ℕ × Conn)

def AcceptorRole.live (s : AcceptorRole) (p : Pid) : Bool := s.sup.runs p

/-- What `run` starts an image with (`acceptor.rs:119-151`). -/
def AcceptorRole.fresh (s : AcceptorRole) (p : Pid) : AcceptorProcess :=
  ⟨.starting, false, ⟨s.kind, s.config, false, ⟨0, s.cap⟩, UInt32.ofNat p, 0⟩⟩

def AcceptorRole.setProcess (s : AcceptorRole) (p : Pid) (w : AcceptorProcess) : AcceptorRole :=
  { s with processes := Function.update s.processes p w }

/-- `send_drain` (`control.rs:141-155`): no connection and a failed write are only logged. -/
def AcceptorRole.sendDrain (s : AcceptorRole) (request : ℕ) (written : Bool) : AcceptorRole :=
  match s.sup.writerConn with
  | none => s
  | some c => if written then { s with inFlight := s.inFlight ++ [(request, c)] } else s

inductive AcceptorAct where
  | sup (a : RoleAct)
  | serve (p : Pid)
  | upgrade (p : Pid)
  | rollback (p : Pid)
  | accept (p : Pid) (tryTake : Bool) (peer : Option SocketAddr)
  | endSession (p : Pid)
  | readDrain (request : ℕ) (c : Conn)
  | takeDrain (p : Pid)

/-- A process starts its next image only from the upgrade arm. -/
def AcceptorRole.forks (s : AcceptorRole) : RoleAct → Bool
  | .inr (.fork p _) => (s.processes p).phase = .upgrading
  | .inr (.reexec p) => (s.processes p).phase = .upgrading
  | _ => true

def AcceptorRole.inPhase (s : AcceptorRole) (p : Pid) (phase : AcceptorPhase) : Bool :=
  s.live p && (s.processes p).phase = phase

/-- One step of the supervisor loop, of a process or of its surroundings. An image that is new has
the flags of `fresh`. The TLS role does not come back from `do_upgrade`, it execs or ends
(`acceptor/upgrade.rs:40-45`). The control client ends with the `Upgrade` it reads, so none runs in
the upgrade arm. -/
def AcceptorRole.step (s : AcceptorRole) : AcceptorAct → Option AcceptorRole
  | .sup a =>
    if s.forks a then (s.sup.step a).map fun sup => { s with
        sup := sup
        processes := fun q => if sup.genOf q = s.sup.genOf q then s.processes q else s.fresh q }
    else none
  | .serve p =>
    if s.inPhase p .starting then
      some (s.setProcess p { s.processes p with phase := .serving }) else none
  | .upgrade p =>
    if s.inPhase p .serving then
      some (s.setProcess p { s.processes p with phase := .upgrading }) else none
  | .rollback p =>
    if s.inPhase p .upgrading ∧ s.sup.name.execsInPlace = false then
      some (s.setProcess p { s.processes p with phase := .serving }) else none
  | .accept p tryTake peer =>
    if s.inPhase p .serving then
      some (s.setProcess p { s.processes p with
        loop := (handleAcceptorAccept (s.processes p).loop (fun _ => tryTake) peer).1 }) else none
  | .endSession p => some (s.setProcess p (s.processes p).endSession)
  | .readDrain i c =>
    if (i, c) ∈ s.inFlight ∧ c ∈ s.sup.conns ∧ s.sup.procs c.pid = some ⟨c.gen, none⟩ ∧
        (s.processes c.pid).phase ≠ .upgrading then
      some { s.setProcess c.pid { s.processes c.pid with drainTx := true } with
        inFlight := s.inFlight.erase (i, c) } else none
  | .takeDrain p =>
    if s.inPhase p .serving then some (s.setProcess p (s.processes p).takeDrain) else none

/-- The step accepts a connection and starts a session for it. -/
def AcceptorRole.startsSession (s : AcceptorRole) : AcceptorAct → Bool
  | .accept p tryTake peer => s.inPhase p .serving &&
    match (handleAcceptorAccept (s.processes p).loop (fun _ => tryTake) peer).2 with
    | .session .. => true
    | _ => false
  | _ => false

/-! ### Both roles and the admin handlers -/

/-- `handle_admin_request` for a `Drain`: before the first write, between the two, and after the
answer `Ok`. -/
inductive DrainPc where
  | idle
  | plainSent
  | ok
  deriving Repr, DecidableEq

structure Acceptors where
  role : Acceptor.Role → AcceptorRole
  handler : ℕ → DrainPc

inductive AcceptorsAct where
  | role (r : Acceptor.Role) (a : AcceptorAct)
  | drain (request : ℕ) (written : Bool)

def Acceptors.send (s : Acceptors) (r : Acceptor.Role) (request : ℕ) (written : Bool)
    (pc : DrainPc) : Acceptors where
  role := Function.update s.role r ((s.role r).sendDrain request written)
  handler := Function.update s.handler request pc

def Acceptors.step (s : Acceptors) : AcceptorsAct → Option Acceptors
  | .role r a => ((s.role r).step a).map fun t => { s with role := Function.update s.role r t }
  | .drain i written => match s.handler i with
    | .idle => some (s.send .plain i written .plainSent)
    | .plainSent => some (s.send .tls i written .ok)
    | .ok => none

def Acceptors.startsSession (s : Acceptors) : AcceptorsAct → Bool
  | .role r a => (s.role r).startsSession a
  | .drain .. => false

/-- Every line the request wrote has been read, and what was read has reached the accept loop. -/
def Acceptors.Delivered (s : Acceptors) (request : ℕ) : Prop :=
  ∀ r, (∀ m ∈ (s.role r).inFlight, m.1 ≠ request) ∧
    ∀ p, (s.role r).live p = true → ((s.role r).processes p).unseen = false

def roleName : Acceptor.Role → RoleName
  | .plain => .plain
  | .tls => .tls

/-- What a supervisor starts from; the processes it takes over may have been drained before. -/
def Acceptors.start (config : ListenPorts) (cap : ℕ) (boot : ∀ r, Boot (roleName r))
    (processes : Acceptor.Role → Pid → AcceptorProcess) : Acceptors where
  role r := ⟨r, config, cap, Role.start (boot r), processes r, []⟩
  handler _ := .idle

/-! ### When the drain binds -/

/-- Every process in its accept loop has read a `Drain`, or the line goes to it. -/
def AcceptorRole.Reached (s : AcceptorRole) (written : Bool) : Prop :=
  ∀ p, s.inPhase p .serving = true → (s.processes p).told = true ∨
    written = true ∧ ∃ c, s.sup.writerConn = some c ∧ c.pid = p

def Acceptors.sent (s : Acceptors) (request : ℕ) : Acceptor.Role → Bool
  | .plain => s.handler request ≠ .idle
  | .tls => s.handler request = .ok

/-- The condition on a step: a line of the request reaches the processes it is for, and once it is
sent no process enters its accept loop and none comes back to it that has not read a `Drain`. -/
def Acceptors.Binds (request : ℕ) (s : Acceptors) : AcceptorsAct → Prop
  | .drain j written => j = request → match s.handler request with
    | .idle => (s.role .plain).Reached written
    | .plainSent => (s.role .tls).Reached written
    | .ok => True
  | .role r (.serve _) => s.sent request r = false
  | .role r (.rollback p) => s.sent request r = true → ((s.role r).processes p).told = true
  | .role _ _ => True

/-! ### What a step can do -/

/-- What a step makes of a process that is live after it. -/
inductive ProcessMove (s : AcceptorRole) (a : AcceptorAct) (q : Pid) : AcceptorProcess → Prop where
  | fresh : ProcessMove s a q (s.fresh q)
  | serve (w : AcceptorProcess) (ha : a = .serve q) : ProcessMove s a q w
  | upgrade (h : s.inPhase q .serving = true) :
      ProcessMove s a q { s.processes q with phase := .upgrading }
  | rollback (ha : a = .rollback q) (h : s.inPhase q .upgrading = true) :
      ProcessMove s a q { s.processes q with phase := .serving }
  | keep (w : AcceptorProcess) (hlive : s.live q = true) (hphase : w.phase = (s.processes q).phase)
      (htx : w.drainTx = (s.processes q).drainTx)
      (hdrained : w.loop.drained = (s.processes q).loop.drained) : ProcessMove s a q w
  | readDrain (i : ℕ) (c : Conn) (ha : a = .readDrain i c) (hc : c.pid = q)
      (hlive : s.live q = true) (hphase : (s.processes q).phase ≠ .upgrading) :
      ProcessMove s a q { s.processes q with drainTx := true }
  | takeDrain (h : s.inPhase q .serving = true) : ProcessMove s a q (s.processes q).takeDrain

theorem accept_drained (runtime : AcceptorLoop) (tryTake : IpAddr → Bool)
    (peer : Option SocketAddr) :
    (handleAcceptorAccept runtime tryTake peer).1.drained = runtime.drained := by
  cases peer with
  | none => rfl
  | some peer =>
    unfold handleAcceptorAccept
    dsimp only
    split
    · rfl
    · split
      · rfl
      · split <;> rfl

theorem AcceptorRole.inPhase_iff (s : AcceptorRole) (p : Pid) (phase : AcceptorPhase) :
    s.inPhase p phase = true ↔ s.live p = true ∧ (s.processes p).phase = phase := by
  simp [AcceptorRole.inPhase]

theorem AcceptorRole.setProcess_move (s : AcceptorRole) {a : AcceptorAct} {q : Pid} (p : Pid)
    (w : AcceptorProcess) (hlive : s.live q = true) (hself : q = p → ProcessMove s a q w) :
    ProcessMove s a q ((s.setProcess p w).processes q) := by
  by_cases hq : q = p
  · have hnew : (s.setProcess p w).processes q = w := by
      rw [hq]
      exact Function.update_self ..
    rw [hnew]
    exact hself hq
  · have hold : (s.setProcess p w).processes q = s.processes q := Function.update_of_ne hq ..
    rw [hold]
    exact .keep _ hlive rfl rfl rfl

theorem AcceptorRole.step_process {s t : AcceptorRole} {a : AcceptorAct} (h : s.step a = some t)
    (q : Pid) (hlive : t.live q = true) : ProcessMove s a q (t.processes q) := by
  cases a with
  | sup a =>
    simp only [AcceptorRole.step, Option.ite_none_right_eq_some, Option.map_eq_some_iff] at h
    obtain ⟨-, sup, hsup, rfl⟩ := h
    by_cases hgen : sup.genOf q = s.sup.genOf q
    · have hold : s.live q = true := by
        rcases Role.runs_of_step hsup q hlive with hold | ⟨hnone, -⟩
        · exact hold
        · -- no image before, so none after
          have hgone : sup.procs q = none := by
            simpa [Role.genOf, hnone] using hgen
          simp [AcceptorRole.live, Role.runs, hgone] at hlive
      simp only [if_pos hgen]
      exact .keep _ hold rfl rfl rfl
    · simp only [if_neg hgen]
      exact .fresh
  | serve p =>
    simp only [AcceptorRole.step, Option.ite_none_right_eq_some, Option.some.injEq] at h
    obtain ⟨-, rfl⟩ := h
    exact s.setProcess_move p _ hlive (fun hq => .serve _ (hq ▸ rfl))
  | upgrade p =>
    simp only [AcceptorRole.step, Option.ite_none_right_eq_some, Option.some.injEq] at h
    obtain ⟨hphase, rfl⟩ := h
    apply s.setProcess_move p _ hlive
    rintro rfl
    exact .upgrade hphase
  | rollback p =>
    simp only [AcceptorRole.step, Option.ite_none_right_eq_some, Option.some.injEq] at h
    obtain ⟨⟨hphase, -⟩, rfl⟩ := h
    apply s.setProcess_move p _ hlive
    rintro rfl
    exact .rollback rfl hphase
  | accept p tryTake peer =>
    simp only [AcceptorRole.step, Option.ite_none_right_eq_some, Option.some.injEq] at h
    obtain ⟨-, rfl⟩ := h
    apply s.setProcess_move p _ hlive
    rintro rfl
    exact .keep _ hlive rfl rfl (accept_drained _ _ _)
  | endSession p =>
    cases h
    apply s.setProcess_move p _ hlive
    rintro rfl
    exact .keep _ hlive rfl rfl rfl
  | readDrain i c =>
    simp only [AcceptorRole.step, Option.ite_none_right_eq_some, Option.some.injEq] at h
    obtain ⟨⟨-, -, -, hphase⟩, rfl⟩ := h
    apply s.setProcess_move c.pid _ hlive
    rintro rfl
    exact .readDrain i c rfl rfl hlive hphase
  | takeDrain p =>
    simp only [AcceptorRole.step, Option.ite_none_right_eq_some, Option.some.injEq] at h
    obtain ⟨hphase, rfl⟩ := h
    apply s.setProcess_move p _ hlive
    rintro rfl
    exact .takeDrain hphase

/-- A line stays on its connection until its process has read it. -/
theorem AcceptorRole.step_inFlight {s t : AcceptorRole} {a : AcceptorAct} (h : s.step a = some t)
    (i : ℕ) (c : Conn) (hc : (i, c) ∈ s.inFlight) :
    (i, c) ∈ t.inFlight ∨ (t.processes c.pid).told = true := by
  cases a with
  | sup a =>
    simp only [AcceptorRole.step, Option.ite_none_right_eq_some, Option.map_eq_some_iff] at h
    obtain ⟨-, sup, -, rfl⟩ := h
    exact Or.inl hc
  | readDrain j d =>
    simp only [AcceptorRole.step, Option.ite_none_right_eq_some, Option.some.injEq] at h
    obtain ⟨-, rfl⟩ := h
    by_cases heq : (i, c) = (j, d)
    · cases heq
      refine Or.inr ?_
      simp [AcceptorRole.setProcess, AcceptorProcess.told]
    · exact Or.inl ((List.mem_erase_of_ne heq).mpr hc)
  | endSession p =>
    cases h
    exact Or.inl hc
  | serve p | upgrade p | rollback p | accept p tryTake peer | takeDrain p =>
    simp only [AcceptorRole.step, Option.ite_none_right_eq_some, Option.some.injEq] at h
    obtain ⟨-, rfl⟩ := h
    exact Or.inl hc

/-! ### From the write to the delivery -/

/-- A process that serves has read a `Drain`, or one of the request is on its way to it. -/
def AcceptorRole.Told (request : ℕ) (s : AcceptorRole) : Prop :=
  ∀ p, s.inPhase p .serving = true → (s.processes p).told = true ∨
    ∃ c, (request, c) ∈ s.inFlight ∧ c.pid = p

theorem AcceptorRole.sendDrain_frame (s : AcceptorRole) (i : ℕ) (written : Bool) :
    (s.sendDrain i written).processes = s.processes ∧ (s.sendDrain i written).sup = s.sup := by
  unfold AcceptorRole.sendDrain
  split
  · exact ⟨rfl, rfl⟩
  · split <;> exact ⟨rfl, rfl⟩

theorem AcceptorRole.sendDrain_inPhase (s : AcceptorRole) (i : ℕ) (written : Bool) (p : Pid)
    (phase : AcceptorPhase) : (s.sendDrain i written).inPhase p phase = s.inPhase p phase := by
  obtain ⟨hproc, hsup⟩ := s.sendDrain_frame i written
  simp only [AcceptorRole.inPhase, AcceptorRole.live, hproc, hsup]

theorem AcceptorRole.mem_sendDrain (s : AcceptorRole) (i : ℕ) (written : Bool) (m : ℕ × Conn)
    (hm : m ∈ s.inFlight) : m ∈ (s.sendDrain i written).inFlight := by
  unfold AcceptorRole.sendDrain
  split
  · exact hm
  · split
    · exact List.mem_append_left _ hm
    · exact hm

theorem AcceptorRole.Told.send {s : AcceptorRole} {i : ℕ} (h : s.Told i) (j : ℕ)
    (written : Bool) : (s.sendDrain j written).Told i := by
  intro p hp
  rw [s.sendDrain_inPhase] at hp
  rw [(s.sendDrain_frame j written).1]
  rcases h p hp with htold | ⟨c, hc, hcp⟩
  · exact Or.inl htold
  · exact Or.inr ⟨c, s.mem_sendDrain j written _ hc, hcp⟩

theorem AcceptorRole.Reached.told {s : AcceptorRole} {written : Bool} (h : s.Reached written)
    (i : ℕ) : (s.sendDrain i written).Told i := by
  intro p hp
  rw [s.sendDrain_inPhase] at hp
  rw [(s.sendDrain_frame i written).1]
  rcases h p hp with htold | ⟨hw, c, hc, hcp⟩
  · exact Or.inl htold
  · refine Or.inr ⟨c, ?_, hcp⟩
    simp [AcceptorRole.sendDrain, hc, hw]

theorem AcceptorRole.Told.step {s t : AcceptorRole} {i : ℕ} {a : AcceptorAct} (hi : s.Told i)
    (hserve : ∀ p, a ≠ .serve p)
    (hroll : ∀ p, a = .rollback p → (s.processes p).told = true) (h : s.step a = some t) :
    t.Told i := by
  intro q hq
  rw [AcceptorRole.inPhase_iff] at hq
  obtain ⟨hlive, hphase⟩ := hq
  -- the line that was on its way to `q` still is, unless this step reads it
  have hold : s.live q = true → (s.processes q).phase = .serving →
      (s.processes q).told = true ∨ (t.processes q).told = true ∨
        ∃ c, (i, c) ∈ t.inFlight ∧ c.pid = q := by
    intro hl hp
    rcases hi q ((s.inPhase_iff q _).mpr ⟨hl, hp⟩) with htold | ⟨c, hc, rfl⟩
    · exact Or.inl htold
    · rcases AcceptorRole.step_inFlight h i c hc with hstill | hread
      · exact Or.inr (Or.inr ⟨c, hstill, rfl⟩)
      · exact Or.inr (Or.inl hread)
  have hmove := AcceptorRole.step_process h q hlive
  generalize t.processes q = w at hmove hphase hold ⊢
  cases hmove with
  | fresh => cases hphase
  | serve w ha => exact absurd ha (hserve q)
  | upgrade hserving => cases hphase
  | rollback ha hup => exact Or.inl (hroll q ha)
  | keep w hl hw htx hdrained =>
    rcases hold hl (hw ▸ hphase) with htold | hnew
    · rw [AcceptorProcess.told, ← htx, ← hdrained] at htold
      exact Or.inl htold
    · exact hnew
  | readDrain j c ha hc hl hup => exact Or.inl (by simp [AcceptorProcess.told])
  | takeDrain hserving =>
    obtain ⟨hl, hp⟩ := (s.inPhase_iff q _).mp hserving
    rcases hold hl hp with htold | hnew
    · refine Or.inl ?_
      show ((s.processes q).told || (s.processes q).drainTx) = true
      rw [htold, Bool.true_or]
    · exact hnew

/-! ### After the delivery -/

/-- A process that serves is drained, and one in the upgrade arm has nothing left to see when it
comes back. -/
def AcceptorRole.Drained (s : AcceptorRole) : Prop :=
  ∀ p, s.live p = true →
    ((s.processes p).phase = .serving → (s.processes p).loop.drained = true) ∧
    ((s.processes p).phase = .upgrading → (s.processes p).unseen = false)

theorem AcceptorProcess.drained_of_told {w : AcceptorProcess} (htold : w.told = true)
    (hseen : w.unseen = false) : w.loop.drained = true := by
  cases hd : w.loop.drained with
  | true => rfl
  | false =>
    rw [AcceptorProcess.told, hd, Bool.false_or] at htold
    rw [AcceptorProcess.unseen, hd, htold] at hseen
    cases hseen

theorem AcceptorRole.Told.drained {s : AcceptorRole} {i : ℕ} (h : s.Told i)
    (hread : ∀ m ∈ s.inFlight, m.1 ≠ i)
    (hseen : ∀ p, s.live p = true → (s.processes p).unseen = false) : s.Drained := by
  intro p hlive
  refine ⟨?_, fun _ => hseen p hlive⟩
  intro hphase
  rcases h p ((s.inPhase_iff p _).mpr ⟨hlive, hphase⟩) with htold | ⟨c, hc, -⟩
  · exact AcceptorProcess.drained_of_told htold (hseen p hlive)
  · exact absurd rfl (hread _ hc)

theorem AcceptorRole.Drained.step {s t : AcceptorRole} {a : AcceptorAct} (hd : s.Drained)
    (hserve : ∀ p, a ≠ .serve p)
    (hroll : ∀ p, a = .rollback p → (s.processes p).told = true) (h : s.step a = some t) :
    t.Drained := by
  intro q hlive
  have hmove := AcceptorRole.step_process h q hlive
  generalize t.processes q = w at hmove ⊢
  cases hmove with
  | fresh => exact ⟨fun hp => (nomatch hp), fun hp => (nomatch hp)⟩
  | serve w ha => exact absurd ha (hserve q)
  | upgrade hserving =>
    obtain ⟨hl, hp⟩ := (s.inPhase_iff q _).mp hserving
    have hdrained := (hd q hl).1 hp
    exact ⟨fun hp => (nomatch hp), fun _ => by simp [AcceptorProcess.unseen, hdrained]⟩
  | rollback ha hup =>
    obtain ⟨hl, hp⟩ := (s.inPhase_iff q _).mp hup
    have hdrained := AcceptorProcess.drained_of_told (hroll q ha) ((hd q hl).2 hp)
    exact ⟨fun _ => hdrained, fun hp => (nomatch hp)⟩
  | keep w hl hw htx hdrained =>
    rw [AcceptorProcess.unseen, hw, htx, hdrained]
    exact hd q hl
  | readDrain j c ha hc hl hup => exact ⟨(hd q hl).1, fun hp => absurd hp hup⟩
  | takeDrain hserving =>
    obtain ⟨hl, hp⟩ := (s.inPhase_iff q _).mp hserving
    have hdrained := (hd q hl).1 hp
    exact ⟨fun _ => by simp [AcceptorProcess.takeDrain, hdrained], fun hup => nomatch hp.symm.trans hup⟩

theorem AcceptorRole.Drained.send {s : AcceptorRole} (h : s.Drained) (i : ℕ) (written : Bool) :
    (s.sendDrain i written).Drained := by
  obtain ⟨hproc, hsup⟩ := s.sendDrain_frame i written
  unfold AcceptorRole.Drained AcceptorRole.live
  rw [hproc, hsup]
  exact h

theorem AcceptorRole.Drained.no_session {s : AcceptorRole} (h : s.Drained) (a : AcceptorAct) :
    s.startsSession a = false := by
  cases a with
  | accept p tryTake peer =>
    unfold AcceptorRole.startsSession
    by_cases hp : s.inPhase p .serving = true
    · obtain ⟨hl, hphase⟩ := (s.inPhase_iff p _).mp hp
      have hdrained := (h p hl).1 hphase
      cases peer with
      | none => simp [handleAcceptorAccept]
      | some peer => simp [handleAcceptorAccept, hdrained]
    · simp [hp]
  | _ => rfl

/-! ### The run -/

theorem Acceptors.role_step {s t : Acceptors} {r : Acceptor.Role} {a : AcceptorAct}
    (h : s.step (.role r a) = some t) :
    t.handler = s.handler ∧ (∃ u, (s.role r).step a = some u ∧ t.role r = u) ∧
      ∀ r', r' ≠ r → t.role r' = s.role r' := by
  simp only [Acceptors.step, Option.map_eq_some_iff] at h
  obtain ⟨u, hu, rfl⟩ := h
  exact ⟨rfl, ⟨u, hu, Function.update_self ..⟩, fun r' hr => Function.update_of_ne hr ..⟩

/-- A handler writes to one role and moves on. -/
theorem Acceptors.drain_step {s t : Acceptors} {i : ℕ} {written : Bool}
    (h : s.step (.drain i written) = some t) :
    s.handler i = .idle ∧ t = s.send .plain i written .plainSent ∨
      s.handler i = .plainSent ∧ t = s.send .tls i written .ok := by
  simp only [Acceptors.step] at h
  split at h
  · next hpc => exact Or.inl ⟨hpc, (Option.some.inj h).symm⟩
  · next hpc => exact Or.inr ⟨hpc, (Option.some.inj h).symm⟩
  · cases h

theorem Acceptors.send_same (s : Acceptors) (r : Acceptor.Role) (i : ℕ) (written : Bool)
    (pc : DrainPc) : (s.send r i written pc).role r = (s.role r).sendDrain i written :=
  Function.update_self ..

theorem Acceptors.send_other (s : Acceptors) (r r' : Acceptor.Role) (i : ℕ) (written : Bool)
    (pc : DrainPc) (hr : r' ≠ r) : (s.send r i written pc).role r' = s.role r' :=
  Function.update_of_ne hr ..

/-- A property of a role that a write keeps is kept by the write to either role. -/
theorem Acceptors.send_role {s : Acceptors} {P : AcceptorRole → Prop}
    (hsend : ∀ u i written, P u → P (u.sendDrain i written)) (r r' : Acceptor.Role) (i : ℕ)
    (written : Bool) (pc : DrainPc) (h : P (s.role r')) :
    P ((s.send r i written pc).role r') := by
  by_cases hr : r' = r
  · rw [hr] at h ⊢
    rw [s.send_same]
    exact hsend _ i written h
  · rw [s.send_other r r' i written pc hr]
    exact h

/-- What the guard says of a step of a role the request has been sent to. -/
theorem Acceptors.Binds.role {i : ℕ} {s : Acceptors} {r : Acceptor.Role} {a : AcceptorAct}
    (h : s.Binds i (.role r a)) (hsent : s.sent i r = true) :
    (∀ p, a ≠ .serve p) ∧ ∀ p, a = .rollback p → ((s.role r).processes p).told = true := by
  constructor
  · rintro p rfl
    exact absurd (hsent.symm.trans h) (by simp)
  · rintro p rfl
    exact h hsent

def Acceptors.Sent (i : ℕ) (s : Acceptors) : Prop :=
  ∀ r, s.sent i r = true → (s.role r).Told i

theorem Acceptors.Sent.step {i : ℕ} (s : Acceptors) (a : AcceptorsAct) (t : Acceptors)
    (hi : s.Sent i) (hg : s.Binds i a) (h : s.step a = some t) : t.Sent i := by
  intro r hr
  cases a with
  | role r' a =>
    obtain ⟨hhandler, ⟨u, hu, hru⟩, hother⟩ := Acceptors.role_step h
    have hsent : s.sent i r = true := by
      cases r <;> simpa [Acceptors.sent, hhandler] using hr
    by_cases hrr : r = r'
    · subst hrr
      obtain ⟨hserve, hroll⟩ := Acceptors.Binds.role hg hsent
      rw [hru]
      exact (hi r hsent).step hserve hroll hu
    · rw [hother r hrr]
      exact hi r hsent
  | drain j written =>
    by_cases hj : j = i
    · subst hj
      have hreach := hg rfl
      rcases Acceptors.drain_step h with ⟨hpc, rfl⟩ | ⟨hpc, rfl⟩
      · rw [hpc] at hreach
        cases r with
        | plain =>
          rw [s.send_same]
          exact hreach.told j
        | tls => simp [Acceptors.sent, Acceptors.send] at hr
      · rw [hpc] at hreach
        cases r with
        | plain =>
          rw [s.send_other _ _ _ _ _ (by decide)]
          exact hi .plain (by simp [Acceptors.sent, hpc])
        | tls =>
          rw [s.send_same]
          exact hreach.told j
    · have hpc : ∀ r' pc, (s.send r' j written pc).handler i = s.handler i := fun r' pc =>
        Function.update_of_ne (Ne.symm hj) _ _
      have hsend : ∀ u k w, AcceptorRole.Told i u → (u.sendDrain k w).Told i :=
        fun u k w hu => hu.send k w
      rcases Acceptors.drain_step h with ⟨-, rfl⟩ | ⟨-, rfl⟩
      all_goals
        have hsent : s.sent i r = true := by
          cases r <;> simpa [Acceptors.sent, hpc] using hr
        exact Acceptors.send_role hsend _ r j written _ (hi r hsent)

def Acceptors.Bound (i : ℕ) (s : Acceptors) : Prop :=
  s.handler i = .ok ∧ ∀ r, (s.role r).Drained

theorem Acceptors.Bound.step {i : ℕ} (s : Acceptors) (a : AcceptorsAct) (t : Acceptors)
    (hb : s.Bound i) (hg : s.Binds i a) (h : s.step a = some t) : t.Bound i := by
  obtain ⟨hok, hd⟩ := hb
  cases a with
  | role r a =>
    obtain ⟨hhandler, ⟨u, hu, hru⟩, hother⟩ := Acceptors.role_step h
    have hsent : s.sent i r = true := by
      cases r <;> simp [Acceptors.sent, hok]
    obtain ⟨hserve, hroll⟩ := Acceptors.Binds.role hg hsent
    refine ⟨by rw [hhandler, hok], fun r' => ?_⟩
    by_cases hr : r' = r
    · rw [hr, hru]
      exact (hd r).step hserve hroll hu
    · rw [hother r' hr]
      exact hd r'
  | drain j written =>
    have hj : i ≠ j := by
      rintro rfl
      rcases Acceptors.drain_step h with ⟨hpc, -⟩ | ⟨hpc, -⟩ <;> simp [hok] at hpc
    have hsend : ∀ u k w, AcceptorRole.Drained u → (u.sendDrain k w).Drained :=
      fun u k w hu => hu.send k w
    have hpc : ∀ r' pc, (s.send r' j written pc).handler i = .ok := fun r' pc =>
      (Function.update_of_ne hj _ _).trans hok
    rcases Acceptors.drain_step h with ⟨-, rfl⟩ | ⟨-, rfl⟩
    all_goals exact ⟨hpc _ _, fun r => Acceptors.send_role hsend _ r j written _ (hd r)⟩

/-- In every run that keeps to the condition, no connection accepted after the answer and the
delivery starts a session. -/
theorem drain_binding (config : ListenPorts) (cap : ℕ) (boot : ∀ r, Boot (roleName r))
    (processes : Acceptor.Role → Pid → AcceptorProcess) (i : ℕ) (before after : List AcceptorsAct)
    (s : Acceptors) (hrun : exec Acceptors.step (.start config cap boot processes) before = some s)
    (hok : s.handler i = .ok) (hdelivered : s.Delivered i)
    (hbinds : Along Acceptors.step (Acceptors.Binds i) (.start config cap boot processes)
      (before ++ after)) :
    Along Acceptors.step (fun s a => s.startsSession a = false) s after := by
  obtain ⟨hbefore, hafter⟩ := along_append hrun hbinds
  have hsent : s.Sent i := by
    refine exec_along Acceptors.Sent.step _ s before ?_ hbefore hrun
    intro r hr
    cases r <;> simp [Acceptors.sent, Acceptors.start] at hr
  have hbound : s.Bound i := by
    refine ⟨hok, fun r => ?_⟩
    have htold := hsent r (by cases r <;> simp [Acceptors.sent, hok])
    exact htold.drained (hdelivered r).1 (hdelivered r).2
  refine along_of_invariant Acceptors.Bound.step ?_ s after hbound hafter
  intro s a hb _
  cases a with
  | role r a => exact (hb.2 r).no_session a
  | drain j written => rfl

def acceptorPid : Acceptor.Role → Pid
  | .plain => 7
  | .tls => 8

/-- One process of each role, taken over while it serves. -/
def bothServing : Acceptors :=
  .start ⟨7000, 7001⟩ 4 (fun r => .single (roleName r) (acceptorPid r))
    fun r p => ⟨.serving, false, ⟨r, ⟨7000, 7001⟩, false, ⟨0, 4⟩, UInt32.ofNat p, 0⟩⟩

def drainDelivered : List AcceptorsAct :=
  [.role .plain (.sup (.inr (.accept 7))), .role .tls (.sup (.inr (.accept 8))),
    .drain 0 true, .drain 0 true, .role .plain (.readDrain 0 ⟨1, 7, 0⟩),
    .role .tls (.readDrain 0 ⟨1, 8, 0⟩), .role .plain (.takeDrain 7), .role .tls (.takeDrain 8)]

def client : Option SocketAddr := some (.v4 ⟨127, 0, 0, 1⟩ 40000)

theorem drainDelivered_state : ∃ s, exec Acceptors.step bothServing drainDelivered = some s ∧
    s.handler 0 = .ok ∧ s.Delivered 0 := by
  refine ⟨_, rfl, rfl, ?_⟩
  intro r
  cases r with
  | plain =>
    refine ⟨by decide, fun p hp => ?_⟩
    have hp7 : p = 7 := Boot.single_runs hp
    subst hp7
    rfl
  | tls =>
    refine ⟨by decide, fun p hp => ?_⟩
    have hp8 : p = 8 := Boot.single_runs hp
    subst hp8
    rfl

theorem drain_binding_delivered :
    ∃ s, exec Acceptors.step bothServing drainDelivered = some s ∧ s.handler 0 = .ok ∧
      s.Delivered 0 ∧ Along Acceptors.step (fun s a => s.startsSession a = false) s
        [.role .plain (.accept 7 true client), .role .tls (.accept 8 true client)] := by
  obtain ⟨s, hrun, hok, hdelivered⟩ := drainDelivered_state
  refine ⟨s, hrun, hok, hdelivered, drain_binding _ _ _ _ 0 drainDelivered _ s hrun hok hdelivered ?_⟩
  -- the two writes are the steps the condition looks at
  refine ⟨trivial, fun t ht => ?_⟩
  cases ht
  refine ⟨trivial, fun t ht => ?_⟩
  cases ht
  refine ⟨fun _ p hp => Or.inr ⟨rfl, ⟨1, 7, 0⟩, rfl, ?_⟩, fun t ht => ?_⟩
  · exact (Boot.single_runs ((AcceptorRole.inPhase_iff _ p _).mp hp).1).symm
  cases ht
  refine ⟨fun _ p hp => Or.inr ⟨rfl, ⟨1, 8, 0⟩, rfl, ?_⟩, fun t ht => ?_⟩
  · exact (Boot.single_runs ((AcceptorRole.inPhase_iff _ p _).mp hp).1).symm
  exact ⟨trivial, fun _ _ => ⟨trivial, fun _ _ => ⟨trivial, fun _ _ => ⟨trivial, fun _ _ =>
    ⟨trivial, fun _ _ => ⟨trivial, fun _ _ => trivial⟩⟩⟩⟩⟩⟩

/-- `Ok` without a control connection, or a later upgrade: a client is served. -/
theorem drain_not_binding :
    (∃ s, exec Acceptors.step bothServing [.drain 0 true, .drain 0 true] = some s ∧
      s.handler 0 = .ok ∧ s.Delivered 0 ∧
      s.startsSession (.role .plain (.accept 7 true client)) = true) ∧
    ∃ s t, exec Acceptors.step bothServing drainDelivered = some s ∧
      s.handler 0 = .ok ∧ s.Delivered 0 ∧
      exec Acceptors.step s [.role .plain (.upgrade 7), .role .plain (.sup (.inr (.fork 7 9))),
        .role .plain (.serve 9)] = some t ∧
      t.startsSession (.role .plain (.accept 9 true client)) = true := by
  constructor
  · refine ⟨_, rfl, rfl, ?_, by decide⟩
    intro r
    cases r with
    | plain => exact ⟨by decide, fun _ _ => rfl⟩
    | tls => exact ⟨by decide, fun _ _ => rfl⟩
  · obtain ⟨s, hrun, hok, hdelivered⟩ := drainDelivered_state
    have hlater : ∃ t, exec Acceptors.step bothServing (drainDelivered ++
        [.role .plain (.upgrade 7), .role .plain (.sup (.inr (.fork 7 9))),
          .role .plain (.serve 9)]) = some t ∧
        t.startsSession (.role .plain (.accept 9 true client)) = true :=
      ⟨_, rfl, by decide⟩
    obtain ⟨t, ht, hstarts⟩ := hlater
    obtain ⟨s', hs', hst⟩ := exec_append_some _ _ _ _ ht
    cases hrun.symm.trans hs'
    exact ⟨s, t, hrun, hok, hdelivered, hst, hstarts⟩

end FiveNinesEcho.Supervisor
