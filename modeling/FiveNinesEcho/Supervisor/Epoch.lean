import FiveNinesEcho.Lib.Exec
import FiveNinesEcho.Supervisor.Link
import Mathlib.Algebra.Group.Nat.Defs
import Mathlib.Data.List.Basic

/-!
# Who may write the link (`supervisor/control.rs:54-103`)

Every accepted connection has a reader task of its own, and several of them may be running: a worker
that is being replaced still has one when its successor connects. `conn_epoch` is there to keep an
old reader from touching what a newer connection put into the link. It is checked where a reader
ends. Where a report is stored it is not, and an accept leaves the last report in place.
-/

namespace FiveNinesEcho.Supervisor
open Lib

/-- A `query_status` call and the connection its request was written to. -/
structure Ask where
  call : ℕ
  epoch : ℕ
  deriving Repr, DecidableEq

/-- A link with its readers, by their epochs. `told` is the report in the link with the epoch of the
connection it came on; `answers` pairs each answered call with the epoch its answer came on. -/
structure Ends where
  link : WorkerLink Ask
  readers : List ℕ
  told : Option (ℕ × WorkerStatus)
  answers : List (Ask × ℕ)

inductive EndsAct where
  | accept
  | report (epoch : ℕ) (st : WorkerStatus)
  | disconnect (epoch : ℕ)
  | queryStatus (call : ℕ)
  | giveUp
  | sendUpgrade
  | sendShutdown
  deriving Repr, DecidableEq

def Ends.start : Ends := ⟨.default, [], none, []⟩

def Ends.step (s : Ends) : EndsAct → Option Ends
  | .accept => some { s with
      link := s.link.accept
      readers := s.readers ++ [s.link.accept.connEpoch] }
  | .report epoch st =>
    if epoch ∈ s.readers then
      some { s with
        link := s.link.statusReport st
        told := some (epoch, st)
        answers := s.answers ++ s.link.pendingStatus.toList.map fun q => (q, epoch) }
    else none
  | .disconnect epoch =>
    if epoch ∈ s.readers then
      some { s with
        link := s.link.disconnect epoch
        readers := s.readers.erase epoch
        told := if s.link.connEpoch = epoch then none else s.told }
    else none
  | .queryStatus call => match s.link.writer with
    | some epoch => (s.link.request ⟨call, epoch⟩).map fun l => { s with link := l }
    | none => none
  | .giveUp => some { s with link := s.link.clearPending }
  | .sendUpgrade | .sendShutdown => some { s with link := s.link.takeWriter }

/-! ### What ownership asks for -/

/-- Both fields are what the connection with the current epoch reported. -/
def Ends.Owned (s : Ends) : Prop :=
  (∀ g, s.link.lastGeneration = some g →
    ∃ st, s.told = some (s.link.connEpoch, st) ∧ st.generation = g) ∧
  (∀ p, s.link.lastPid = some p → ∃ st, s.told = some (s.link.connEpoch, st) ∧ st.pid = p)

def EndsAct.reader : EndsAct → Option ℕ
  | .report epoch _ => some epoch
  | .disconnect epoch => some epoch
  | _ => none

/-- A reader of another epoch changes nothing of the newest connection and answers none of its
queries. -/
def Ends.Ceded (s : Ends) (a : EndsAct) (t : Ends) : Prop :=
  ∀ epoch, a.reader = some epoch → epoch ≠ s.link.connEpoch →
    t.link.writer = s.link.writer ∧ t.link.lastGeneration = s.link.lastGeneration ∧
    t.link.lastPid = s.link.lastPid ∧
    ∀ q, (q, epoch) ∈ t.answers → (q, epoch) ∉ s.answers → q.epoch ≠ s.link.connEpoch

def Ends.Lawful (s : Ends) (a : EndsAct) : Prop :=
  ∀ t, s.step a = some t → t.Owned ∧ s.Ceded a t

/-- Reports come on the newest connection only, and a connection is accepted only while the link
holds no report. -/
def Ends.Fenced (s : Ends) : EndsAct → Prop
  | .report epoch _ => epoch = s.link.connEpoch
  | .accept => s.told = none
  | _ => True

instance (s : Ends) (a : EndsAct) : Decidable (s.Fenced a) := by
  cases a <;> unfold Ends.Fenced <;> infer_instance

/-! ### The fields and the report they come from -/

structure Ends.Inv (s : Ends) : Prop where
  generation : s.link.lastGeneration = s.told.map (·.2.generation)
  pid : s.link.lastPid = s.told.map (·.2.pid)

theorem Ends.owned_iff (s : Ends) (hs : s.Inv) :
    s.Owned ↔ ∀ epoch st, s.told = some (epoch, st) → epoch = s.link.connEpoch := by
  constructor
  · intro howned epoch st htold
    obtain ⟨st', htold', -⟩ := howned.1 st.generation (by rw [hs.generation, htold]; rfl)
    rw [htold] at htold'
    exact congrArg Prod.fst (Option.some.inj htold')
  · intro hepoch
    constructor
    · intro g hg
      rw [hs.generation] at hg
      obtain ⟨⟨epoch, st⟩, htold, rfl⟩ := Option.map_eq_some_iff.mp hg
      exact ⟨st, by rw [htold, hepoch epoch st htold], rfl⟩
    · intro p hp
      rw [hs.pid] at hp
      obtain ⟨⟨epoch, st⟩, htold, rfl⟩ := Option.map_eq_some_iff.mp hp
      exact ⟨st, by rw [htold, hepoch epoch st htold], rfl⟩

theorem Ends.report_cases {s t : Ends} {epoch : ℕ} {st : WorkerStatus}
    (h : s.step (.report epoch st) = some t) :
    epoch ∈ s.readers ∧ t = { s with
      link := s.link.statusReport st
      told := some (epoch, st)
      answers := s.answers ++ s.link.pendingStatus.toList.map fun q => (q, epoch) } := by
  simp only [Ends.step, Option.ite_none_right_eq_some, Option.some.injEq] at h
  exact ⟨h.1, h.2.symm⟩

theorem Ends.disconnect_cases {s t : Ends} {epoch : ℕ}
    (h : s.step (.disconnect epoch) = some t) :
    epoch ∈ s.readers ∧ t = { s with
      link := s.link.disconnect epoch
      readers := s.readers.erase epoch
      told := if s.link.connEpoch = epoch then none else s.told } := by
  simp only [Ends.step, Option.ite_none_right_eq_some, Option.some.injEq] at h
  exact ⟨h.1, h.2.symm⟩

theorem Ends.queryStatus_cases {s t : Ends} {call : ℕ}
    (h : s.step (.queryStatus call) = some t) :
    ∃ epoch, s.link.writer = some epoch ∧
      t = { s with link := { s.link with pendingStatus := some ⟨call, epoch⟩ } } := by
  simp only [Ends.step] at h
  split at h
  · next epoch hw =>
    have hsome : s.link.writer.isSome = true := by rw [hw]; rfl
    simp only [WorkerLink.request, hsome, if_true, Option.map_some, Option.some.injEq] at h
    exact ⟨epoch, hw, h.symm⟩
  · cases h

theorem Ends.step_inv (s : Ends) (a : EndsAct) (t : Ends) (hs : s.Inv) (h : s.step a = some t) :
    t.Inv := by
  cases a with
  | report epoch st =>
    obtain ⟨-, rfl⟩ := Ends.report_cases h
    exact ⟨rfl, rfl⟩
  | disconnect epoch =>
    obtain ⟨-, rfl⟩ := Ends.disconnect_cases h
    by_cases he : s.link.connEpoch = epoch
    · constructor <;> simp [WorkerLink.disconnect, he]
    · constructor
      · simp only [WorkerLink.disconnect, if_neg he]
        exact hs.generation
      · simp only [WorkerLink.disconnect, if_neg he]
        exact hs.pid
  | queryStatus call =>
    obtain ⟨epoch, -, rfl⟩ := Ends.queryStatus_cases h
    exact ⟨hs.generation, hs.pid⟩
  | accept | giveUp | sendUpgrade | sendShutdown =>
    cases h
    exact ⟨hs.generation, hs.pid⟩

/-! ### One step -/

theorem accept_connEpoch_ne {ι : Type} (l : WorkerLink ι) : l.accept.connEpoch ≠ l.connEpoch := by
  simp only [WorkerLink.accept]
  omega

theorem Ends.step_owned (s : Ends) (a : EndsAct) (t : Ends) (hs : s.Inv) (ho : s.Owned)
    (hg : s.Fenced a) (h : s.step a = some t) : t.Owned := by
  have hold := (s.owned_iff hs).mp ho
  apply (t.owned_iff (s.step_inv a t hs h)).mpr
  intro epoch st htold
  cases a with
  | accept =>
    cases h
    have hnone : s.told = none := hg
    rw [hnone] at htold
    cases htold
  | report e st' =>
    obtain ⟨-, rfl⟩ := Ends.report_cases h
    cases htold
    exact hg
  | disconnect e =>
    obtain ⟨-, rfl⟩ := Ends.disconnect_cases h
    simp only [WorkerLink.disconnect] at htold ⊢
    split at htold
    · cases htold
    · next he =>
      rw [if_neg he]
      exact hold epoch st htold
  | queryStatus call =>
    obtain ⟨e, -, rfl⟩ := Ends.queryStatus_cases h
    exact hold epoch st htold
  | giveUp | sendUpgrade | sendShutdown =>
    cases h
    exact hold epoch st htold

theorem Ends.step_ceded (s : Ends) (a : EndsAct) (t : Ends) (hg : s.Fenced a)
    (h : s.step a = some t) : s.Ceded a t := by
  intro epoch hreader hne
  cases a with
  | report e st =>
    cases hreader
    exact absurd hg hne
  | disconnect e =>
    cases hreader
    obtain ⟨-, rfl⟩ := Ends.disconnect_cases h
    have hlink : s.link.disconnect epoch = s.link := if_neg fun he => hne he.symm
    refine ⟨by rw [hlink], by rw [hlink], by rw [hlink], ?_⟩
    intro q hin hout
    exact absurd hin hout
  | accept | queryStatus call | giveUp | sendUpgrade | sendShutdown => cases hreader

theorem Ends.fenced_of_owned (s : Ends) (a : EndsAct) (t : Ends) (hs : s.Inv) (ho : s.Owned)
    (h : s.step a = some t) (ht : t.Owned) : s.Fenced a := by
  have hnew := (t.owned_iff (s.step_inv a t hs h)).mp ht
  cases a with
  | accept =>
    cases h
    show s.told = none
    by_contra hsome
    obtain ⟨⟨epoch, st⟩, htold⟩ := Option.ne_none_iff_exists'.mp hsome
    have hbefore := (s.owned_iff hs).mp ho epoch st htold
    have hafter := hnew epoch st htold
    exact accept_connEpoch_ne s.link (hafter.symm.trans hbefore)
  | report epoch st =>
    obtain ⟨-, rfl⟩ := Ends.report_cases h
    exact hnew epoch st rfl
  | disconnect epoch | queryStatus call | giveUp | sendUpgrade | sendShutdown => trivial

theorem Ends.lawful_iff (s : Ends) (a : EndsAct) (t : Ends) (hs : s.Inv) (ho : s.Owned)
    (h : s.step a = some t) : s.Lawful a ↔ s.Fenced a := by
  constructor
  · intro hlaw
    exact s.fenced_of_owned a t hs ho h (hlaw t h).1
  · intro hg t' ht'
    exact ⟨s.step_owned a t' hs ho hg ht', s.step_ceded a t' hg ht'⟩

/-! ### Every run -/

theorem Ends.start_inv : Ends.start.Inv := ⟨rfl, rfl⟩

theorem Ends.start_owned : Ends.start.Owned :=
  (Ends.start.owned_iff Ends.start_inv).mpr fun _ _ h => by cases h

theorem Ends.along_lawful_iff (s t : Ends) (as : List EndsAct) (hs : s.Inv) (ho : s.Owned)
    (h : exec Ends.step s as = some t) :
    Along Ends.step Ends.Lawful s as ↔ Along Ends.step Ends.Fenced s as := by
  -- the run is followed as long as its states are owned; the first step that is not decides
  induction as generalizing s with
  | nil => exact Iff.rfl
  | cons a as ih =>
    obtain ⟨m, hm, hrest⟩ := exec_cons_some s t a as h
    have hone := s.lawful_iff a m hs ho hm
    have hnext : m.Owned → (Along Ends.step Ends.Lawful m as ↔ Along Ends.step Ends.Fenced m as) :=
      fun hmo => ih m (s.step_inv a m hs hm) hmo hrest
    constructor
    · rintro ⟨hlaw, hall⟩
      refine ⟨hone.mp hlaw, ?_⟩
      intro m' hm'
      cases hm.symm.trans hm'
      exact (hnext (hlaw m hm).1).mp (hall m hm)
    · rintro ⟨hg, hall⟩
      have hlaw := hone.mpr hg
      refine ⟨hlaw, ?_⟩
      intro m' hm'
      cases hm.symm.trans hm'
      exact (hnext (hlaw m hm).1).mpr (hall m hm)

/-- In every interleaving, each state reached is owned by the newest connection and no older reader
writes to it or answers its queries, exactly when every report came on the newest connection and
every accept found no report in the link. -/
theorem link_owned_iff (as : List EndsAct) (s : Ends)
    (hrun : exec Ends.step Ends.start as = some s) :
    Along Ends.step Ends.Lawful Ends.start as ↔ Along Ends.step Ends.Fenced Ends.start as :=
  Ends.along_lawful_iff Ends.start s as Ends.start_inv Ends.start_owned hrun

def reportOf (pid generation : ℕ) : WorkerStatus :=
  ⟨"processor", pid, generation, 0, 0, none, none⟩

def takeoverRun : List EndsAct :=
  [.accept, .queryStatus 0, .report 1 (reportOf 7 0), .sendUpgrade, .disconnect 1, .accept,
    .queryStatus 1, .report 2 (reportOf 8 1)]

theorem link_owned_takeover :
    ∃ s, exec Ends.step Ends.start takeoverRun = some s ∧
      Along Ends.step Ends.Lawful Ends.start takeoverRun ∧ s.link.lastPid = some 8 ∧
      s.answers = [(⟨0, 1⟩, 1), (⟨1, 2⟩, 2)] := by
  have hend : (exec Ends.step Ends.start takeoverRun).map (fun s => (s.link.lastPid, s.answers)) =
      some (some 8, [(⟨0, 1⟩, 1), (⟨1, 2⟩, 2)]) := by decide
  obtain ⟨s, hs, hc⟩ := Option.map_eq_some_iff.mp hend
  simp only [Prod.mk.injEq] at hc
  exact ⟨s, hs, (link_owned_iff takeoverRun s hs).mpr (by decide), hc.1, hc.2⟩

/-- The reply of an old worker is read after its successor connected: it answers the call sent to the
successor and puts the old generation and pid into the successor's link. -/
theorem link_late_reply :
    ∃ s, exec Ends.step Ends.start
        [.accept, .queryStatus 0, .accept, .queryStatus 1, .report 1 (reportOf 7 0)] = some s ∧
      s.link.connEpoch = 2 ∧ s.link.lastPid = some 7 ∧ s.told = some (1, reportOf 7 0) ∧
      s.answers = [(⟨1, 2⟩, 1)] ∧ ¬ s.Owned := by
  have hend : (exec Ends.step Ends.start
      [.accept, .queryStatus 0, .accept, .queryStatus 1, .report 1 (reportOf 7 0)]).map
      (fun s => (s.link, s.told, s.answers)) =
      some (⟨some 2, none, some 0, some 7, 2⟩, some (1, reportOf 7 0), [(⟨1, 2⟩, 1)]) := by decide
  obtain ⟨s, hs, hc⟩ := Option.map_eq_some_iff.mp hend
  simp only [Prod.mk.injEq] at hc
  obtain ⟨hlink, htold, hanswers⟩ := hc
  have hepoch : s.link.connEpoch = 2 := by rw [hlink]
  have hpid : s.link.lastPid = some 7 := by rw [hlink]
  refine ⟨s, hs, hepoch, hpid, htold, hanswers, ?_⟩
  intro howned
  obtain ⟨st, hst, -⟩ := howned.2 7 hpid
  rw [hepoch, htold] at hst
  cases hst

end FiveNinesEcho.Supervisor
