import FiveNinesEcho.Supervisor.Role

/-!
# The monitor of an adopted successor (`supervisor/worker.rs:269-386`)

`wait_for_successor`, `monitor_successor` and `supervise_adopted_successor` as they run against a
link that other tasks change as they like between any two looks. A `Look` is what one critical
section on the link sees and when; a history of the link and a schedule of the polls give a list of
looks, and here the list is arbitrary.
-/

namespace FiveNinesEcho.Supervisor
open Lib Handoff
variable {ι : Type}

structure Look (ι : Type) where
  now : ℕ
  link : WorkerLink ι
  deriving Repr, DecidableEq

/-- `wait_for_successor` (`worker.rs:320-337`) over the looks it makes; `none` while it waits. With
the outcome come the looks that are left. -/
def waitForSuccessor (oldGen deadline : ℕ) :
    List (Look ι) → Option (SuccessorOutcome × List (Look ι))
  | [] => none
  | look :: looks => match waitForSuccessorPoll look.link oldGen deadline look.now with
    | some outcome => some (outcome, looks)
    | none => waitForSuccessor oldGen deadline looks

/-- `monitor_successor` (`worker.rs:356-386`) from a given `absent_since` on. -/
def monitorSuccessor (monitoredGen lossGrace : ℕ) :
    Option ℕ → Option Pid → List (Look ι) →
      Option (MonitorOutcome × Option Pid × List (Look ι))
  | _, _, [] => none
  | absentSince, currentPid, look :: looks =>
    match monitorSuccessorPoll look.link currentPid monitoredGen lossGrace absentSince look.now with
    | .inl outcome => some (outcome, currentPid, looks)
    | .inr (absentSince, currentPid) =>
      monitorSuccessor monitoredGen lossGrace absentSince currentPid looks

theorem monitorSuccessor_rest {g grace : ℕ} {absentSince : Option ℕ} {pid pid' : Option Pid}
    {looks rest : List (Look ι)} {outcome : MonitorOutcome}
    (h : monitorSuccessor g grace absentSince pid looks = some (outcome, pid', rest)) :
    rest.length < looks.length := by
  induction looks generalizing absentSince pid with
  | nil => simp [monitorSuccessor] at h
  | cons look looks ih =>
    simp only [monitorSuccessor] at h
    split at h
    · cases h
      exact Nat.lt_succ_self _
    · exact Nat.lt_succ_of_lt (ih h)

/-- `supervise_adopted_successor` (`worker.rs:269-311`): the generations it adopts in turn, and
whether the last of them was lost. The look at its head only reads the pid. -/
def superviseAdoptedSuccessor (lossGrace generation : ℕ) : List (Look ι) → List ℕ × Bool
  | [] => ([generation], false)
  | look :: looks =>
    match _h : monitorSuccessor generation lossGrace none look.link.lastPid looks with
    | none => ([generation], false)
    | some (.lost, _, _) => ([generation], true)
    | some (.readopted newGen, _, rest) =>
      let (adopted, lost) := superviseAdoptedSuccessor lossGrace newGen rest
      (generation :: adopted, lost)
termination_by looks => looks.length
decreasing_by
  have hrest := monitorSuccessor_rest _h
  simp only [List.length_cons]
  omega

/-! ### Where `monitor_successor` returns -/

/-- It returns at a look up to which it had not returned, and what it says there is what the poll
says. -/
theorem monitorSuccessor_returns {g grace : ℕ} {absentSince : Option ℕ} {pid pid' : Option Pid}
    {looks rest : List (Look ι)} {outcome : MonitorOutcome}
    (h : monitorSuccessor g grace absentSince pid looks = some (outcome, pid', rest)) :
    ∃ front last, looks = front ++ last :: rest ∧
      monitorSuccessor g grace absentSince pid front = none ∧
      ∃ since, monitorSuccessorPoll last.link pid' g grace since last.now = .inl outcome := by
  induction looks generalizing absentSince pid with
  | nil => simp [monitorSuccessor] at h
  | cons look looks ih =>
    simp only [monitorSuccessor] at h
    split at h
    · next hpoll =>
      cases h
      exact ⟨[], look, rfl, rfl, absentSince, hpoll⟩
    · next absent' pid'' hpoll =>
      obtain ⟨front, last, rfl, hfront, hlast⟩ := ih h
      exact ⟨look :: front, last, rfl, by simp only [monitorSuccessor, hpoll, hfront], hlast⟩

theorem monitorSuccessor_running {g grace : ℕ} {absentSince : Option ℕ} {pid : Option Pid}
    {looks : List (Look ι)} (h : monitorSuccessor g grace absentSince pid looks = none) :
    ∀ look ∈ looks, look.link.above g = false := by
  induction looks generalizing absentSince pid with
  | nil => simp
  | cons look looks ih =>
    simp only [monitorSuccessor] at h
    split at h
    · cases h
    · next hpoll =>
      intro l hl
      rcases List.mem_cons.mp hl with rfl | hl
      · rcases monitorSuccessorPoll_cases l.link pid g grace absentSince l.now with
          ⟨g', -, -, hread⟩ | ⟨hab, -⟩
        · cases hpoll.symm.trans hread
        · exact hab
      · exact ih h l hl

/-- A look that sees a newer generation ends it, whatever was seen before. -/
theorem monitorSuccessor_sees {g grace : ℕ} {absentSince : Option ℕ} {pid : Option Pid}
    {front : List (Look ι)} (look : Look ι) (rest : List (Look ι)) (g' : ℕ)
    (hfront : monitorSuccessor g grace absentSince pid front = none)
    (hseen : look.link.lastGeneration = some g') (hlt : g < g') :
    ∃ pid', monitorSuccessor g grace absentSince pid (front ++ look :: rest) =
      some (.readopted g', pid', rest) := by
  induction front generalizing absentSince pid with
  | nil =>
    refine ⟨pid, ?_⟩
    simp [monitorSuccessor, monitorSuccessorPoll, hseen, Option.filter, hlt]
  | cons l front ih =>
    simp only [monitorSuccessor] at hfront
    split at hfront
    · cases hfront
    · next hpoll =>
      obtain ⟨pid', hrun⟩ := ih hfront
      exact ⟨pid', by simp only [List.cons_append, monitorSuccessor, hpoll, hrun]⟩

theorem readopted_iff (g grace : ℕ) (pid : Option Pid) (looks rest : List (Look ι)) (g' : ℕ) :
    (∃ pid', monitorSuccessor g grace none pid looks = some (.readopted g', pid', rest)) ↔
      ∃ front look, looks = front ++ look :: rest ∧
        monitorSuccessor g grace none pid front = none ∧
        look.link.lastGeneration = some g' ∧ g < g' := by
  constructor
  · rintro ⟨pid', h⟩
    obtain ⟨front, last, hlooks, hfront, since, hpoll⟩ := monitorSuccessor_returns h
    refine ⟨front, last, hlooks, hfront, ?_⟩
    rcases monitorSuccessorPoll_cases last.link pid' g grace since last.now with
      ⟨g'', hseen, hlt, hread⟩ | ⟨-, ⟨w, -, hother⟩ | ⟨-, -, hother⟩ | ⟨t, -, -, -, hother⟩ |
        ⟨t, -, -, -, hother⟩⟩
    · cases hpoll.symm.trans hread
      exact ⟨hseen, hlt⟩
    all_goals cases hpoll.symm.trans hother
  · rintro ⟨front, look, rfl, hfront, hseen, hlt⟩
    exact monitorSuccessor_sees look rest g' hfront hseen hlt

/-! ### How an absence is measured -/

/-- `Lost` at the last of a row of looks without a writer, which is `grace` after `absent_since`; and
that is the time of the first look of the row, or was there to begin with. -/
theorem monitorSuccessor_lost {g grace : ℕ} {absentSince : Option ℕ} {pid pid' : Option Pid}
    {looks rest : List (Look ι)}
    (h : monitorSuccessor g grace absentSince pid looks = some (.lost, pid', rest)) :
    (∃ since span last, absentSince = some since ∧ looks = span ++ last :: rest ∧
      (∀ look ∈ span ++ [last], look.link.writer = none) ∧ grace ≤ last.now - since) ∨
    ∃ front first span last, looks = front ++ first :: (span ++ last :: rest) ∧
      (∀ look ∈ first :: (span ++ [last]), look.link.writer = none) ∧
      grace ≤ last.now - first.now := by
  induction looks generalizing absentSince pid with
  | nil => simp [monitorSuccessor] at h
  | cons look looks ih =>
    rcases monitorSuccessorPoll_cases look.link pid g grace absentSince look.now with
      ⟨g', -, -, hpoll⟩ | ⟨-, ⟨w, hwr, hpoll⟩ | ⟨hwr, habs, hpoll⟩ |
        ⟨since, hwr, habs, hlost, hpoll⟩ | ⟨since, hwr, habs, -, hpoll⟩⟩ <;>
      simp only [monitorSuccessor, hpoll] at h
    · cases h
    · -- a writer: the measurement starts anew
      rcases ih h with ⟨since, span, last, hnone, -⟩ | ⟨front, first, span, last, rfl, hrow⟩
      · cases hnone
      · exact Or.inr ⟨look :: front, first, span, last, rfl, hrow⟩
    · -- the first look without one
      rcases ih h with ⟨since, span, last, hsince, rfl, hrow, hlong⟩ |
        ⟨front, first, span, last, rfl, hrow⟩
      · cases hsince
        refine Or.inr ⟨[], look, span, last, rfl, ?_, hlong⟩
        intro l hl
        rcases List.mem_cons.mp hl with rfl | hl
        · exact hwr
        · exact hrow l hl
      · exact Or.inr ⟨look :: front, first, span, last, rfl, hrow⟩
    · cases h
      refine Or.inl ⟨since, [], look, habs, rfl, ?_, hlost⟩
      intro l hl
      rw [List.mem_singleton.mp hl]
      exact hwr
    · rcases ih h with ⟨since', span, last, hsince, rfl, hrow, hlong⟩ |
        ⟨front, first, span, last, rfl, hrow⟩
      · cases hsince
        refine Or.inl ⟨since, look :: span, last, habs, rfl, ?_, hlong⟩
        intro l hl
        rcases List.mem_cons.mp hl with rfl | hl
        · exact hwr
        · exact hrow l hl
      · exact Or.inr ⟨look :: front, first, span, last, rfl, hrow⟩

theorem lost_unseen {g grace : ℕ} {absentSince : Option ℕ} {pid pid' : Option Pid}
    {looks rest : List (Look ι)}
    (h : monitorSuccessor g grace absentSince pid looks = some (.lost, pid', rest)) :
    ∃ front last, looks = front ++ last :: rest ∧
      ∀ look ∈ front ++ [last], look.link.above g = false := by
  obtain ⟨front, last, hlooks, hfront, since, hpoll⟩ := monitorSuccessor_returns h
  refine ⟨front, last, hlooks, ?_⟩
  intro look hlook
  rcases List.mem_append.mp hlook with hlook | hlook
  · exact monitorSuccessor_running hfront look hlook
  · rw [List.mem_singleton.mp hlook]
    rcases monitorSuccessorPoll_cases last.link pid' g grace since last.now with
      ⟨g', -, -, hread⟩ | ⟨hab, -⟩
    · cases hpoll.symm.trans hread
    · exact hab

/-! ### The generations adopted -/

theorem waitForSuccessor_above {oldGen deadline g : ℕ} {looks rest : List (Look ι)}
    (h : waitForSuccessor oldGen deadline looks = some (.adopted g, rest)) : oldGen < g := by
  induction looks with
  | nil => simp [waitForSuccessor] at h
  | cons look looks ih =>
    simp only [waitForSuccessor] at h
    split at h
    · next outcome hpoll =>
      cases h
      cases hab : look.link.above oldGen with
      | true =>
        obtain ⟨g', hlt, hadopt⟩ := waitForSuccessorPoll_above look.link oldGen deadline look.now hab
        cases hpoll.symm.trans hadopt
        exact hlt
      | false =>
        rw [waitForSuccessorPoll_below look.link oldGen deadline look.now hab] at hpoll
        split at hpoll <;> cases hpoll
    · exact ih h

theorem superviseAdoptedSuccessor_increasing (grace generation : ℕ) (looks : List (Look ι)) :
    ∃ later, (superviseAdoptedSuccessor grace generation looks).1 = generation :: later ∧
      (generation :: later).Pairwise (· < ·) := by
  -- induction along the calls of `monitor_successor`; each begins with fewer looks left
  induction hn : looks.length using Nat.strongRecOn generalizing generation looks with
  | _ n ih =>
    cases looks with
    | nil => exact ⟨[], by rw [superviseAdoptedSuccessor], by simp⟩
    | cons look looks =>
      rw [superviseAdoptedSuccessor]
      split
      · exact ⟨[], rfl, by simp⟩
      · exact ⟨[], rfl, by simp⟩
      · next newGen pid' rest hrun =>
        have hlen : rest.length < n := by
          have hrest := monitorSuccessor_rest hrun
          simp only [List.length_cons] at hn
          omega
        obtain ⟨-, -, -, -, -, hlt⟩ := (readopted_iff _ _ _ _ _ _).mp ⟨pid', hrun⟩
        obtain ⟨later, heq, hpair⟩ := ih rest.length hlen newGen rest rfl
        refine ⟨newGen :: later, by simp only [heq], ?_⟩
        refine List.pairwise_cons.mpr ⟨?_, hpair⟩
        intro x hx
        rcases List.mem_cons.mp hx with rfl | hx
        · exact hlt
        · exact Nat.lt_trans hlt ((List.pairwise_cons.mp hpair).1 x hx)

/-- `monitor_successor` is sound. `Lost` comes only at the end of an uninterrupted row of looks that
all saw no writer and that lasted the grace, no look up to then having seen a newer generation;
`Readopted` comes at the first look that sees a newer generation, and only there; and what is adopted
in turn rises strictly from above the baseline on. -/
theorem monitor_successor_sound (looks : List (Look ι)) :
    (∀ g grace pid pid' rest,
      monitorSuccessor g grace none pid looks = some (.lost, pid', rest) →
      (∃ front first span last, looks = front ++ first :: (span ++ last :: rest) ∧
        (∀ look ∈ first :: (span ++ [last]), look.link.writer = none) ∧
        grace ≤ last.now - first.now) ∧
      ∃ front last, looks = front ++ last :: rest ∧
        ∀ look ∈ front ++ [last], look.link.above g = false) ∧
    (∀ g grace pid g' rest,
      (∃ pid', monitorSuccessor g grace none pid looks = some (.readopted g', pid', rest)) ↔
        ∃ front look, looks = front ++ look :: rest ∧
          monitorSuccessor g grace none pid front = none ∧
          (∀ before ∈ front, before.link.above g = false) ∧
          look.link.lastGeneration = some g' ∧ g < g') ∧
    ∀ preUpgradeGen deadline grace g rest,
      waitForSuccessor preUpgradeGen deadline looks = some (.adopted g, rest) →
      (superviseAdoptedSuccessor grace g rest).1.Pairwise (· < ·) ∧
        ∀ adopted ∈ (superviseAdoptedSuccessor grace g rest).1, preUpgradeGen < adopted := by
  refine ⟨?_, ?_, ?_⟩
  · intro g grace pid pid' rest h
    refine ⟨?_, lost_unseen h⟩
    rcases monitorSuccessor_lost h with ⟨since, span, last, hnone, -⟩ | hrow
    · cases hnone
    · exact hrow
  · intro g grace pid g' rest
    rw [readopted_iff]
    constructor
    · rintro ⟨front, look, hlooks, hfront, hseen⟩
      exact ⟨front, look, hlooks, hfront, monitorSuccessor_running hfront, hseen⟩
    · rintro ⟨front, look, hlooks, hfront, -, hseen⟩
      exact ⟨front, look, hlooks, hfront, hseen⟩
  · intro base deadline grace g rest h
    have hbase := waitForSuccessor_above h
    obtain ⟨later, heq, hpair⟩ := superviseAdoptedSuccessor_increasing grace g rest
    rw [heq]
    refine ⟨hpair, ?_⟩
    intro x hx
    rcases List.mem_cons.mp hx with rfl | hx
    · exact hbase
    · exact Nat.lt_trans hbase ((List.pairwise_cons.mp hpair).1 x hx)

def lookAt (now : ℕ) (writer lastGeneration : Option ℕ) : Look ℕ :=
  ⟨now, ⟨writer, none, lastGeneration, none, 1⟩⟩

/-- The writer is gone, back, and gone for good: only the second absence is measured. -/
def flappingLink : List (Look ℕ) :=
  [lookAt 0 none (some 1), lookAt 100 (some 1) (some 1), lookAt 200 none none,
    lookAt 1700 none none, lookAt 3200 none none]

theorem monitor_successor_flapping :
    monitorSuccessor 1 successorLossGrace none none flappingLink = some (.lost, none, []) ∧
    ∃ front first span last, flappingLink = front ++ first :: (span ++ [last]) ∧
      (∀ look ∈ first :: (span ++ [last]), look.link.writer = none) ∧
      successorLossGrace ≤ last.now - first.now := by
  have hlost : monitorSuccessor 1 successorLossGrace none none flappingLink =
      some (.lost, none, []) := by decide
  exact ⟨hlost, ((monitor_successor_sound flappingLink).1 _ _ _ _ _ hlost).1⟩

end FiveNinesEcho.Supervisor
