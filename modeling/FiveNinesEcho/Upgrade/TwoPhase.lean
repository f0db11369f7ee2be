import FiveNinesEcho.Lib.Exec
import FiveNinesEcho.Handoff

/-!
# Two-phase commit between a worker and its successor

The parent (`processor/upgrade.rs:349-396`, `acceptor/upgrade.rs:119-148`) gives up its accept
loop, spawns the child, streams the session payload from a blocking thread and waits for the ack;
the child (`processor.rs:56-136`, `acceptor.rs:58-110`) adopts the listener, reads the payload to
its end, writes the ack and starts accepting. The child may stop at any point, the parent's timeout
may fire at any point of its wait, and a kill takes effect some time after it was sent. The steps
before the spawn are those of `Upgrade.Attempt`, here one step.
-/

namespace FiveNinesEcho.Upgrade
open Lib Handoff

inductive UpgradeRole where
  | processor
  | plain
  deriving Repr, DecidableEq

/-- The parent. `spawned` still holds its read end of the payload pipe, `readDropped` and `writing`
its write end of the ready pipe; `joining` awaits the payload writer after the ack, `rollbackJoin`
after the child is gone. `failed` is the error of that join on its way up. -/
inductive ParentPc where
  | accepting
  | preparing
  | spawned
  | readDropped
  | writing
  | waiting
  | joining
  | killing
  | reaping
  | rollbackJoin
  | restoring
  | exited (code : ℕ)
  | failed
  deriving Repr, DecidableEq

inductive ChildPc where
  | none
  | started
  | adopted
  | reading
  | prepared
  | acked
  | accepting
  | dead
  deriving Repr, DecidableEq

/-- The thread of `spawn_sessions_pipe_writer`; `ok` and `failed` have closed the write end. -/
inductive WriterPc where
  | idle
  | running
  | ok
  | failed
  deriving Repr, DecidableEq

/-- Both processes, the writer thread and the two pipes. `listener` is the descriptor the attempt
passes on and, after a rollback, wraps again; `ack`, `adoptedListener` and `readToEof` are what the
child has done. -/
structure TwoPhase where
  parent : ParentPc
  child : ChildPc
  writer : WriterPc
  listener : Fd
  attempts : ℕ
  killed : Bool
  ack : Bool
  adoptedListener : Bool
  readToEof : Bool
  unsent : ℕ
  buffered : ℕ
  received : ℕ
  deriving Repr

def TwoPhase.start (listener : Fd) : TwoPhase :=
  ⟨.accepting, .none, .idle, listener, 0, false, false, false, false, 0, 0, 0⟩

def ChildPc.holdsRead : ChildPc → Bool
  | .started | .adopted | .reading => true
  | _ => false

def ChildPc.holdsReady : ChildPc → Bool
  | .started | .adopted | .reading | .prepared => true
  | _ => false

def ChildPc.gone : ChildPc → Bool
  | .none | .dead => true
  | _ => false

inductive ParentAct where
  | begin
  | spawn
  | dropRead
  | startWriter
  | closeReady
  | readAck
  | readEof
  | timeout
  | kill
  | reap
  | joinRollback
  | restore
  | joinWriter
  deriving Repr, DecidableEq

inductive ChildAct where
  | adoptListener
  | openSessions
  | read (n : ℕ)
  | readEof
  | noSessions
  | signalReady
  | serve
  | die
  deriving Repr, DecidableEq

inductive WriterAct where
  | write (n : ℕ)
  | epipe
  | done
  deriving Repr, DecidableEq

section Steps
variable (role : UpgradeRole) (payload cap : ℕ)

/-- The parent's steps, system calls on its own descriptors succeeding. -/
def TwoPhase.parentStep (s : TwoPhase) : ParentAct → Option TwoPhase
  | .begin =>
    if s.parent = .accepting then some { s with parent := .preparing, attempts := s.attempts + 1 }
    else none
  | .spawn =>
    if s.parent = .preparing then
      some { s with
        parent := .spawned, child := .started, writer := .idle, killed := false, ack := false
        adoptedListener := false, readToEof := false
        unsent := payload, buffered := 0, received := 0 }
    else none
  | .dropRead =>
    if role = .processor ∧ s.parent = .spawned then some { s with parent := .readDropped } else none
  | .startWriter =>
    if s.parent = .readDropped then some { s with parent := .writing, writer := .running } else none
  | .closeReady =>
    if s.parent = .writing ∨ (role = .plain ∧ s.parent = .spawned) then
      some { s with parent := .waiting }
    else none
  | .readAck =>
    if s.parent = .waiting ∧ s.ack = true then match role with
      | .processor => some { s with parent := .joining }
      | .plain => some { s with parent := .exited upgradeCommitExitCode }
    else none
  | .readEof =>
    if s.parent = .waiting ∧ s.ack = false ∧ s.child.holdsReady = false then
      some { s with parent := .killing }
    else none
  | .timeout => if s.parent = .waiting then some { s with parent := .killing } else none
  | .kill =>
    if s.parent = .killing then some { s with parent := .reaping, killed := true } else none
  | .reap =>
    if s.parent = .reaping ∧ s.child = .dead then match role with
      | .processor => some { s with parent := .rollbackJoin }
      | .plain => some { s with parent := .restoring }
    else none
  | .joinRollback =>
    if s.parent = .rollbackJoin ∧ (s.writer = .ok ∨ s.writer = .failed) then
      some { s with parent := .restoring }
    else none
  | .restore => if s.parent = .restoring then some { s with parent := .accepting } else none
  | .joinWriter =>
    if s.parent = .joining then match s.writer with
      | .ok => some { s with parent := .exited upgradeCommitExitCode }
      | .failed => some { s with parent := .failed }
      | _ => none
    else none

/-- The child's steps. The end of the payload shows once the pipe is empty and the writer has
closed its end. -/
def TwoPhase.childStep (s : TwoPhase) : ChildAct → Option TwoPhase
  | .adoptListener =>
    if s.child = .started then some { s with child := .adopted, adoptedListener := true } else none
  | .openSessions =>
    if role = .processor ∧ s.child = .adopted then some { s with child := .reading } else none
  | .read n =>
    if s.child = .reading ∧ 0 < n ∧ n ≤ s.buffered then
      some { s with buffered := s.buffered - n, received := s.received + n }
    else none
  | .readEof =>
    if s.child = .reading ∧ s.buffered = 0 ∧ (s.writer = .ok ∨ s.writer = .failed) then
      some { s with child := .prepared, readToEof := true }
    else none
  | .noSessions =>
    if role = .plain ∧ s.child = .adopted then some { s with child := .prepared } else none
  | .signalReady =>
    if s.child = .prepared then some { s with child := .acked, ack := true } else none
  | .serve => if s.child = .acked then some { s with child := .accepting } else none
  | .die => if s.child.gone = false then some { s with child := .dead } else none

/-- The writer's steps; without a reader a write fails. -/
def TwoPhase.writerStep (s : TwoPhase) : WriterAct → Option TwoPhase
  | .write n =>
    if s.writer = .running ∧ 0 < n ∧ n ≤ s.unsent ∧ s.buffered + n ≤ cap ∧
        s.child.holdsRead = true then
      some { s with unsent := s.unsent - n, buffered := s.buffered + n }
    else none
  | .epipe =>
    if s.writer = .running ∧ 0 < s.unsent ∧ s.child.holdsRead = false then
      some { s with writer := .failed }
    else none
  | .done => if s.writer = .running ∧ s.unsent = 0 then some { s with writer := .ok } else none

inductive TwoPhaseAct where
  | parent (a : ParentAct)
  | child (a : ChildAct)
  | writer (a : WriterAct)
  deriving Repr, DecidableEq

def TwoPhase.step (s : TwoPhase) : TwoPhaseAct → Option TwoPhase
  | .parent a => s.parentStep role payload a
  | .child a => s.childStep role a
  | .writer a => s.writerStep cap a

end Steps

/-! ### What holds at every moment -/

def ChildPc.ready : ChildPc → Bool
  | .prepared | .acked | .accepting => true
  | _ => false

def ParentPc.committing : ParentPc → Bool
  | .spawned | .readDropped | .writing | .waiting | .joining | .exited _ => true
  | _ => false

def ParentPc.alone : ParentPc → Bool
  | .accepting | .preparing | .rollbackJoin | .restoring => true
  | _ => false

structure TwoPhase.Inv (role : UpgradeRole) (payload : ℕ) (fd : Fd) (s : TwoPhase) : Prop where
  listener : s.listener = fd
  alone : s.parent.alone = true → s.child.gone = true
  tried : s.parent ≠ .preparing → s.child = .none → s.attempts = 0 ∧ s.parent = .accepting
  unkilled : s.parent.committing = true → s.killed = false
  prepared : s.child.ready = true ∨ s.ack = true →
    s.adoptedListener = true ∧ (role = .processor → s.readToEof = true)
  ended : s.readToEof = true → s.writer = .ok ∧ s.received = payload
  reader : s.writer = .failed → s.child.holdsRead = false
  conserved : s.child ≠ .none → s.received + s.buffered + s.unsent = payload
  written : s.writer = .ok → s.unsent = 0
  acked : s.parent = .joining ∨ (∃ c, s.parent = .exited c) → s.ack = true
  joining : s.parent = .joining → role = .processor
  code : ∀ c, s.parent = .exited c → c = upgradeCommitExitCode
  noError : s.parent ≠ .failed
  idle : s.parent = .spawned ∨ s.parent = .readDropped → s.writer = .idle
  listening : s.child = .adopted ∨ s.child = .reading → s.adoptedListener = true

theorem TwoPhase.start_inv (role : UpgradeRole) (payload : ℕ) (fd : Fd) :
    (TwoPhase.start fd).Inv role payload fd := by
  constructor <;> simp [TwoPhase.start, ChildPc.gone, ParentPc.committing, ChildPc.ready]

section Invariant
variable {role : UpgradeRole} {payload : ℕ} {fd : Fd} {s : TwoPhase}

theorem TwoPhase.Inv.setParent (hs : s.Inv role payload fd) (p : ParentPc)
    (halone : p.alone = true → s.child.gone = true)
    (htried : p ≠ .preparing → s.child = .none → s.attempts = 0 ∧ p = .accepting)
    (hkill : p.committing = true → s.killed = false)
    (hack : p = .joining ∨ (∃ c, p = .exited c) → s.ack = true)
    (hjoin : p = .joining → role = .processor)
    (hcode : ∀ c, p = .exited c → c = upgradeCommitExitCode) (herr : p ≠ .failed)
    (hidle : p = .spawned ∨ p = .readDropped → s.writer = .idle) :
    TwoPhase.Inv role payload fd { s with parent := p } :=
  ⟨hs.listener, halone, htried, hkill, hs.prepared, hs.ended, hs.reader, hs.conserved, hs.written,
    hack, hjoin, hcode, herr, hidle, hs.listening⟩

theorem TwoPhase.Inv.spawned (hs : s.Inv role payload fd) (h1 : s.parent ≠ .preparing)
    (h2 : s.parent ≠ .accepting) : s.child ≠ .none := fun hn => h2 (hs.tried h1 hn).2

/-- A parent on its way to the commit that takes a step further on it. -/
theorem TwoPhase.Inv.advance (hs : s.Inv role payload fd) (p : ParentPc)
    (hfrom : s.parent.committing = true) (hto : p.committing = true)
    (hack : p = .joining ∨ (∃ c, p = .exited c) → s.ack = true)
    (hjoin : p = .joining → role = .processor)
    (hcode : ∀ c, p = .exited c → c = upgradeCommitExitCode)
    (hidle : p = .spawned ∨ p = .readDropped → s.writer = .idle) :
    TwoPhase.Inv role payload fd { s with parent := p } := by
  have hchild : s.child ≠ .none := by
    apply hs.spawned
    · intro hp
      rw [hp] at hfrom
      cases hfrom
    · intro hp
      rw [hp] at hfrom
      cases hfrom
  refine hs.setParent p ?_ (fun _ hn => absurd hn hchild) (fun _ => hs.unkilled hfrom) hack hjoin
    hcode ?_ hidle
  · intro halone
    cases p <;> simp [ParentPc.committing, ParentPc.alone] at hto halone
  · rintro rfl
    cases hto

/-- A parent that gives the attempt up owes the invariant only this much: where it goes back to
being alone its child is gone. -/
theorem TwoPhase.Inv.fallBack (hs : s.Inv role payload fd) (p : ParentPc)
    (hp : p.committing = false) (herr : p ≠ .failed) (hchild : s.child ≠ .none)
    (halone : p.alone = true → s.child.gone = true) :
    TwoPhase.Inv role payload fd { s with parent := p } := by
  refine hs.setParent p halone (fun _ hn => absurd hn hchild) ?_ ?_ ?_ ?_ herr ?_
  · intro h
    exact absurd (hp.symm.trans h) (by simp)
  · rintro (rfl | ⟨c, rfl⟩) <;> cases hp
  · rintro rfl
    cases hp
  · rintro c rfl
    cases hp
  · rintro (rfl | rfl) <;> cases hp

theorem TwoPhase.Inv.ack_writer (hs : s.Inv .processor payload fd) (h : s.ack = true) :
    s.writer = .ok :=
  (hs.ended ((hs.prepared (Or.inr h)).2 rfl)).1

theorem TwoPhase.parentStep_inv (hs : s.Inv role payload fd) (t : TwoPhase) (a : ParentAct)
    (h : s.parentStep role payload a = some t) : t.Inv role payload fd := by
  cases a with
  | begin =>
    simp only [TwoPhase.parentStep, Option.ite_none_right_eq_some, Option.some.injEq] at h
    obtain ⟨hp, rfl⟩ := h
    have halone := hs.alone (by simp [hp, ParentPc.alone])
    exact ⟨hs.listener, fun _ => halone, by simp, by simp [ParentPc.committing], hs.prepared,
      hs.ended, hs.reader, hs.conserved, hs.written, by simp, by simp, by simp, by simp, by simp,
      hs.listening⟩
  | spawn =>
    simp only [TwoPhase.parentStep, Option.ite_none_right_eq_some, Option.some.injEq] at h
    obtain ⟨-, rfl⟩ := h
    exact ⟨hs.listener, by simp [ParentPc.alone], by simp, by simp, by simp [ChildPc.ready],
      by simp, by simp, by simp, by simp, by simp, by simp, by simp, by simp, by simp, by simp⟩
  | dropRead =>
    simp only [TwoPhase.parentStep, Option.ite_none_right_eq_some, Option.some.injEq] at h
    obtain ⟨⟨-, hp⟩, rfl⟩ := h
    have hidle := hs.idle (Or.inl hp)
    exact hs.advance _ (by simp [hp, ParentPc.committing]) rfl (by simp) (by simp) (by simp)
      (fun _ => hidle)
  | startWriter =>
    simp only [TwoPhase.parentStep, Option.ite_none_right_eq_some, Option.some.injEq] at h
    obtain ⟨hp, rfl⟩ := h
    have hchild := hs.spawned (by simp [hp]) (by simp [hp])
    have hkill := hs.unkilled (by simp [hp, ParentPc.committing])
    -- nobody can have seen the end of a payload that no writer has started on
    have hnot : s.readToEof = true → False := fun he => by
      have hok := (hs.ended he).1
      rw [hs.idle (Or.inr hp)] at hok
      cases hok
    exact ⟨hs.listener, by simp [ParentPc.alone], fun _ hn => absurd hn hchild, fun _ => hkill,
      hs.prepared, fun he => (hnot he).elim, by simp, hs.conserved, by simp, by simp, by simp,
      by simp, by simp, by simp, hs.listening⟩
  | closeReady =>
    simp only [TwoPhase.parentStep, Option.ite_none_right_eq_some, Option.some.injEq] at h
    obtain ⟨hp, rfl⟩ := h
    have hp : s.parent = .writing ∨ s.parent = .spawned := hp.imp id And.right
    have hfrom : s.parent.committing = true := by
      rcases hp with hp | hp <;> simp [hp, ParentPc.committing]
    exact hs.advance _ hfrom rfl (by simp) (by simp) (by simp) (by simp)
  | readAck =>
    simp only [TwoPhase.parentStep, Option.ite_none_right_eq_some] at h
    obtain ⟨⟨hp, hack⟩, h⟩ := h
    have hfrom : s.parent.committing = true := by simp [hp, ParentPc.committing]
    cases hr : role with
    | processor =>
      subst hr
      simp only [Option.some.injEq] at h
      subst h
      exact hs.advance _ hfrom rfl (fun _ => hack) (fun _ => rfl) (by simp) (by simp)
    | plain =>
      subst hr
      simp only [Option.some.injEq] at h
      subst h
      exact hs.advance _ hfrom rfl (fun _ => hack) (by simp) (by simp) (by simp)
  | readEof =>
    simp only [TwoPhase.parentStep, Option.ite_none_right_eq_some, Option.some.injEq] at h
    obtain ⟨⟨hp, -, -⟩, rfl⟩ := h
    have hchild := hs.spawned (by simp [hp]) (by simp [hp])
    exact hs.fallBack _ rfl (by simp) hchild (by simp [ParentPc.alone])
  | timeout =>
    simp only [TwoPhase.parentStep, Option.ite_none_right_eq_some, Option.some.injEq] at h
    obtain ⟨hp, rfl⟩ := h
    have hchild := hs.spawned (by simp [hp]) (by simp [hp])
    exact hs.fallBack _ rfl (by simp) hchild (by simp [ParentPc.alone])
  | kill =>
    simp only [TwoPhase.parentStep, Option.ite_none_right_eq_some, Option.some.injEq] at h
    obtain ⟨hp, rfl⟩ := h
    have hchild := hs.spawned (by simp [hp]) (by simp [hp])
    exact ⟨hs.listener, by simp [ParentPc.alone], fun _ hn => absurd hn hchild,
      by simp [ParentPc.committing], hs.prepared, hs.ended, hs.reader, hs.conserved, hs.written,
      by simp, by simp, by simp, by simp, by simp, hs.listening⟩
  | reap =>
    simp only [TwoPhase.parentStep, Option.ite_none_right_eq_some] at h
    obtain ⟨⟨hp, hdead⟩, h⟩ := h
    have hgone : s.child.gone = true := by simp [hdead, ChildPc.gone]
    have hchild := hs.spawned (by simp [hp]) (by simp [hp])
    cases hr : role <;> subst hr <;> simp only [Option.some.injEq] at h <;> subst h <;>
      exact hs.fallBack _ rfl (by simp) hchild (fun _ => hgone)
  | joinRollback =>
    simp only [TwoPhase.parentStep, Option.ite_none_right_eq_some, Option.some.injEq] at h
    obtain ⟨⟨hp, -⟩, rfl⟩ := h
    have hgone := hs.alone (by simp [hp, ParentPc.alone])
    have hchild := hs.spawned (by simp [hp]) (by simp [hp])
    exact hs.fallBack _ rfl (by simp) hchild (fun _ => hgone)
  | restore =>
    simp only [TwoPhase.parentStep, Option.ite_none_right_eq_some, Option.some.injEq] at h
    obtain ⟨hp, rfl⟩ := h
    have hgone := hs.alone (by simp [hp, ParentPc.alone])
    have hchild := hs.spawned (by simp [hp]) (by simp [hp])
    exact hs.fallBack _ rfl (by simp) hchild (fun _ => hgone)
  | joinWriter =>
    simp only [TwoPhase.parentStep, Option.ite_none_right_eq_some] at h
    obtain ⟨hp, h⟩ := h
    have hrole := hs.joining hp
    subst hrole
    have hack := hs.acked (Or.inl hp)
    have hok := hs.ack_writer hack
    split at h
    · cases h
      exact hs.advance _ (by simp [hp, ParentPc.committing]) rfl (fun _ => hack) (by simp) (by simp)
        (by simp)
    · rename_i hfail
      exact absurd (hok.symm.trans hfail) (by simp)
    · cases h

theorem TwoPhase.Inv.setChild (hs : s.Inv role payload fd) (c : ChildPc) (adopted ack : Bool)
    (hlive : s.child.gone = false) (hc : c ≠ .none)
    (hready : c.ready = true ∨ ack = true →
      adopted = true ∧ (role = .processor → s.readToEof = true))
    (hread : c.holdsRead = true → s.child.holdsRead = true) (hack : s.ack = true → ack = true)
    (hlisten : c = .adopted ∨ c = .reading → adopted = true) :
    TwoPhase.Inv role payload fd { s with child := c, adoptedListener := adopted, ack := ack } := by
  have hnone : s.child ≠ .none := fun hn => by simp [hn, ChildPc.gone] at hlive
  have halone : ¬ s.parent.alone = true := fun h => by simp [hs.alone h] at hlive
  refine ⟨hs.listener, fun h => absurd h halone, fun _ hn => absurd hn hc, hs.unkilled, hready,
    hs.ended, ?_, fun _ => hs.conserved hnone, hs.written, fun h => hack (hs.acked h),
    hs.joining, hs.code, hs.noError, hs.idle, hlisten⟩
  intro hw
  have hno := hs.reader hw
  cases hr : c.holdsRead with
  | false => rfl
  | true => exact absurd (hno.symm.trans (hread hr)) (by simp)

theorem TwoPhase.childStep_inv (hs : s.Inv role payload fd) (t : TwoPhase) (a : ChildAct)
    (h : s.childStep role a = some t) : t.Inv role payload fd := by
  cases a with
  | adoptListener =>
    simp only [TwoPhase.childStep, Option.ite_none_right_eq_some, Option.some.injEq] at h
    obtain ⟨hp, rfl⟩ := h
    exact hs.setChild .adopted true s.ack (by simp [hp, ChildPc.gone]) (by simp)
      (fun h => ⟨rfl, (hs.prepared (h.imp_left (by simp [ChildPc.ready]))).2⟩)
      (by simp [hp, ChildPc.holdsRead]) id (by simp)
  | openSessions =>
    simp only [TwoPhase.childStep, Option.ite_none_right_eq_some, Option.some.injEq] at h
    obtain ⟨⟨-, hp⟩, rfl⟩ := h
    have hadopted := hs.listening (Or.inl hp)
    exact hs.setChild .reading s.adoptedListener s.ack (by simp [hp, ChildPc.gone]) (by simp)
      (fun h => hs.prepared (h.imp_left (by simp [ChildPc.ready])))
      (by simp [hp, ChildPc.holdsRead]) id (fun _ => hadopted)
  | read n =>
    simp only [TwoPhase.childStep, Option.ite_none_right_eq_some, Option.some.injEq] at h
    obtain ⟨⟨hp, hn, hle⟩, rfl⟩ := h
    have hcons := hs.conserved (by simp [hp])
    -- a child that still reads has not seen the end
    refine ⟨hs.listener, hs.alone, hs.tried, hs.unkilled, hs.prepared, ?_, hs.reader,
      ?_, hs.written, hs.acked, hs.joining, hs.code, hs.noError, hs.idle, hs.listening⟩
    · intro he
      obtain ⟨hok, hall⟩ := hs.ended he
      omega
    · intro _
      simp only
      omega
  | readEof =>
    simp only [TwoPhase.childStep, Option.ite_none_right_eq_some, Option.some.injEq] at h
    obtain ⟨⟨hp, hempty, hw⟩, rfl⟩ := h
    have hreads : s.child.holdsRead = true := by simp [hp, ChildPc.holdsRead]
    have hok : s.writer = .ok := hw.resolve_right fun hf =>
      absurd ((hs.reader hf).symm.trans hreads) (by simp)
    have hcons := hs.conserved (by simp [hp])
    have hsent := hs.written hok
    have hadopted := hs.listening (Or.inr hp)
    have halone : ¬ s.parent.alone = true := fun h => by
      have hgone := hs.alone h
      simp [hp, ChildPc.gone] at hgone
    exact ⟨hs.listener, fun h => absurd h halone, by simp, hs.unkilled,
      fun _ => ⟨hadopted, fun _ => rfl⟩, fun _ => ⟨hok, by simp only; omega⟩,
      by simp [ChildPc.holdsRead], fun _ => hcons, hs.written, hs.acked, hs.joining, hs.code,
      hs.noError, hs.idle, by simp⟩
  | noSessions =>
    simp only [TwoPhase.childStep, Option.ite_none_right_eq_some, Option.some.injEq] at h
    obtain ⟨⟨hr, hp⟩, rfl⟩ := h
    have hadopted := hs.listening (Or.inl hp)
    exact hs.setChild .prepared s.adoptedListener s.ack (by simp [hp, ChildPc.gone]) (by simp)
      (fun _ => ⟨hadopted, by simp [hr]⟩) (by simp [ChildPc.holdsRead]) id (by simp)
  | signalReady =>
    simp only [TwoPhase.childStep, Option.ite_none_right_eq_some, Option.some.injEq] at h
    obtain ⟨hp, rfl⟩ := h
    have hdone := hs.prepared (Or.inl (by simp [hp, ChildPc.ready]))
    exact hs.setChild .acked s.adoptedListener true (by simp [hp, ChildPc.gone]) (by simp)
      (fun _ => hdone) (by simp [ChildPc.holdsRead]) (fun _ => rfl) (by simp)
  | serve =>
    simp only [TwoPhase.childStep, Option.ite_none_right_eq_some, Option.some.injEq] at h
    obtain ⟨hp, rfl⟩ := h
    have hdone := hs.prepared (Or.inl (by simp [hp, ChildPc.ready]))
    exact hs.setChild .accepting s.adoptedListener s.ack (by simp [hp, ChildPc.gone]) (by simp)
      (fun _ => hdone) (by simp [ChildPc.holdsRead]) id (by simp)
  | die =>
    simp only [TwoPhase.childStep, Option.ite_none_right_eq_some, Option.some.injEq] at h
    obtain ⟨hp, rfl⟩ := h
    exact hs.setChild .dead s.adoptedListener s.ack hp (by simp)
      (fun h => hs.prepared (h.imp_left (by simp [ChildPc.ready]))) (by simp [ChildPc.holdsRead]) id
      (by simp)

theorem TwoPhase.writerStep_inv (cap : ℕ) (hs : s.Inv role payload fd) (t : TwoPhase)
    (a : WriterAct) (h : s.writerStep cap a = some t) : t.Inv role payload fd := by
  -- the writer only runs between its start and the end of the payload
  have hended : s.writer = .running → ¬ s.readToEof = true := fun hw he =>
    absurd (hw.symm.trans (hs.ended he).1) (by simp)
  have hidle : s.writer = .running → ¬ (s.parent = .spawned ∨ s.parent = .readDropped) :=
    fun hw hp => absurd (hw.symm.trans (hs.idle hp)) (by simp)
  cases a with
  | write n =>
    simp only [TwoPhase.writerStep, Option.ite_none_right_eq_some, Option.some.injEq] at h
    obtain ⟨⟨hw, hn, hle, -, -⟩, rfl⟩ := h
    refine ⟨hs.listener, hs.alone, hs.tried, hs.unkilled, hs.prepared,
      fun he => absurd he (hended hw), hs.reader, ?_, by simp [hw], hs.acked, hs.joining,
      hs.code, hs.noError, hs.idle, hs.listening⟩
    intro hc
    have hcons := hs.conserved hc
    simp only
    omega
  | epipe =>
    simp only [TwoPhase.writerStep, Option.ite_none_right_eq_some, Option.some.injEq] at h
    obtain ⟨⟨hw, -, hno⟩, rfl⟩ := h
    exact ⟨hs.listener, hs.alone, hs.tried, hs.unkilled, hs.prepared,
      fun he => absurd he (hended hw), fun _ => hno, hs.conserved, by simp, hs.acked, hs.joining,
      hs.code, hs.noError, fun hp => absurd hp (hidle hw), hs.listening⟩
  | done =>
    simp only [TwoPhase.writerStep, Option.ite_none_right_eq_some, Option.some.injEq] at h
    obtain ⟨⟨hw, hz⟩, rfl⟩ := h
    exact ⟨hs.listener, hs.alone, hs.tried, hs.unkilled, hs.prepared,
      fun he => absurd he (hended hw), by simp, hs.conserved, fun _ => hz, hs.acked, hs.joining,
      hs.code, hs.noError, fun hp => absurd hp (hidle hw), hs.listening⟩

theorem TwoPhase.step_inv (cap : ℕ) (t : TwoPhase) (a : TwoPhaseAct) (hs : s.Inv role payload fd)
    (h : s.step role payload cap a = some t) : t.Inv role payload fd := by
  cases a with
  | parent a => exact TwoPhase.parentStep_inv hs t a h
  | child a => exact TwoPhase.childStep_inv hs t a h
  | writer a => exact TwoPhase.writerStep_inv cap hs t a h

end Invariant

/-! ### The two outcomes -/

def TwoPhase.Finished (s : TwoPhase) : Prop :=
  s.attempts ≠ 0 ∧ (s.parent = .accepting ∨ (∃ c, s.parent = .exited c) ∨ s.parent = .failed)

def TwoPhase.Committed (role : UpgradeRole) (payload : ℕ) (s : TwoPhase) : Prop :=
  s.parent = .exited upgradeCommitExitCode ∧ s.ack = true ∧ s.adoptedListener = true ∧
  (role = .processor → s.readToEof = true ∧ s.received = payload) ∧ s.killed = false

def TwoPhase.RolledBack (fd : Fd) (s : TwoPhase) : Prop :=
  s.parent = .accepting ∧ s.listener = fd ∧ s.child = .dead

/-- Two-phase commit. In every interleaving of the parent, its payload writer and its successive
children the two processes never accept at once; an ack comes after the listener was adopted and
the payload read to its end; an attempt that is over has exactly one of the two outcomes; and a
parent that has read the ack finds the writer done, so its join returns at once and without
error. -/
theorem two_phase_agreement (role : UpgradeRole) (payload cap : ℕ) (fd : Fd)
    (as : List TwoPhaseAct) (s : TwoPhase)
    (hrun : exec (TwoPhase.step role payload cap) (TwoPhase.start fd) as = some s) :
    ¬ (s.parent = .accepting ∧ s.child = .accepting) ∧
    (s.ack = true → s.adoptedListener = true ∧
      (role = .processor → s.readToEof = true ∧ s.received = payload)) ∧
    (s.Finished → (s.Committed role payload ∧ ¬ s.RolledBack fd) ∨
      (s.RolledBack fd ∧ ¬ s.Committed role payload)) ∧
    (s.parent = .joining → s.writer = .ok ∧
      s.parentStep role payload .joinWriter =
        some { s with parent := .exited upgradeCommitExitCode }) := by
  have hinv : s.Inv role payload fd := exec_invariant
    (fun s a t hs ht => TwoPhase.step_inv cap t a hs ht) _ s as
    (TwoPhase.start_inv role payload fd) hrun
  have hacked : s.ack = true → s.adoptedListener = true ∧
      (role = .processor → s.readToEof = true ∧ s.received = payload) := by
    intro hack
    obtain ⟨hadopted, heof⟩ := hinv.prepared (Or.inr hack)
    exact ⟨hadopted, fun hr => ⟨heof hr, (hinv.ended (heof hr)).2⟩⟩
  refine ⟨?_, hacked, ?_, ?_⟩
  · rintro ⟨hp, hc⟩
    have hgone := hinv.alone (by simp [hp, ParentPc.alone])
    simp [hc, ChildPc.gone] at hgone
  · rintro ⟨htried, hp | ⟨c, hp⟩ | hp⟩
    · refine Or.inr ⟨⟨hp, hinv.listener, ?_⟩, by simp [TwoPhase.Committed, hp]⟩
      have hgone := hinv.alone (by simp [hp, ParentPc.alone])
      cases hc : s.child <;> simp [hc, ChildPc.gone] at hgone ⊢
      exact absurd (hinv.tried (by simp [hp]) hc).1 htried
    · have hcode := hinv.code c hp
      subst hcode
      have hack := hinv.acked (Or.inr ⟨_, hp⟩)
      refine Or.inl ⟨⟨hp, hack, (hacked hack).1, (hacked hack).2, ?_⟩, by simp [TwoPhase.RolledBack, hp]⟩
      exact hinv.unkilled (by simp [hp, ParentPc.committing])
    · exact absurd hp hinv.noError
  · intro hp
    have hrole := hinv.joining hp
    subst hrole
    have hok := hinv.ack_writer (hinv.acked (Or.inl hp))
    refine ⟨hok, ?_⟩
    simp only [TwoPhase.parentStep, hp, if_true]
    split
    · rfl
    · rename_i hfail
      exact absurd (hok.symm.trans hfail) (by simp)
    · rename_i hno _
      exact absurd hok hno

def commitRun : List TwoPhaseAct :=
  [.parent .begin, .parent .spawn, .child .adoptListener, .parent .dropRead, .parent .startWriter,
    .child .openSessions, .writer (.write 3), .parent .closeReady, .child (.read 3), .writer .done,
    .child .readEof, .child .signalReady, .child .serve, .parent .readAck, .parent .joinWriter]

/-- A child that acks, and even accepts, after the parent's timeout. -/
def lateAckRun : List TwoPhaseAct :=
  [.parent .begin, .parent .spawn, .child .adoptListener, .parent .dropRead, .parent .startWriter,
    .child .openSessions, .writer (.write 3), .parent .closeReady, .child (.read 3), .writer .done,
    .child .readEof, .parent .timeout, .child .signalReady, .child .serve, .parent .kill,
    .child .die, .parent .reap, .parent .joinRollback, .parent .restore]

theorem two_phase_agreement_runs :
    (∃ s, exec (TwoPhase.step .processor 3 8) (TwoPhase.start 3) commitRun = some s ∧
      s.Finished ∧ s.Committed .processor 3) ∧
    ∃ s, exec (TwoPhase.step .processor 3 8) (TwoPhase.start 3) lateAckRun = some s ∧
      s.Finished ∧ s.ack = true ∧ s.RolledBack 3 := by
  have hcommit : (exec (TwoPhase.step .processor 3 8) (TwoPhase.start 3) commitRun).map
      (fun s => (s.parent, s.attempts)) = some (.exited upgradeCommitExitCode, 1) := by decide
  have hlate : (exec (TwoPhase.step .processor 3 8) (TwoPhase.start 3) lateAckRun).map
      (fun s => (s.parent, s.attempts, s.ack)) = some (.accepting, 1, true) := by decide
  obtain ⟨s, hs, hc⟩ := Option.map_eq_some_iff.mp hcommit
  obtain ⟨t, ht, hl⟩ := Option.map_eq_some_iff.mp hlate
  simp only [Prod.mk.injEq] at hc hl
  have hfs : s.Finished := ⟨by simp [hc.2], Or.inr (Or.inl ⟨_, hc.1⟩)⟩
  have hft : t.Finished := ⟨by simp [hl.2.1], Or.inl hl.1⟩
  obtain ⟨-, -, hs', -⟩ := two_phase_agreement .processor 3 8 3 commitRun s hs
  obtain ⟨-, -, ht', -⟩ := two_phase_agreement .processor 3 8 3 lateAckRun t ht
  refine ⟨⟨s, hs, hfs, ?_⟩, t, ht, hft, hl.2.2, ?_⟩
  · exact ((hs' hfs).resolve_right fun h => by simp [TwoPhase.RolledBack, hc.1] at h).1
  · exact ((ht' hft).resolve_left fun h => by simp [TwoPhase.Committed, hl.1] at h).1

end FiveNinesEcho.Upgrade
