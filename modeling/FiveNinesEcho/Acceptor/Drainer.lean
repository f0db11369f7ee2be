import FiveNinesEcho.Acceptor.Drain
import FiveNinesEcho.Lib.Slots

/-!
# The drainer child and its event stream (`acceptor/tls_drain.rs:235-337`)

`run_tls_drainer_child` with its reporter connection up: one thread for each session, the main
thread that starts and joins them, and the deadline thread. All of them write frames to one stream,
one frame at a time under its lock, and share a counter that each session thread lowers after its
frame. Either of the other two ends the process.
-/

namespace FiveNinesEcho.Acceptor
open Lib Processor

inductive SessionOutcome where
  | cleanEof
  | error (message : String)
  deriving Repr, DecidableEq

inductive DrainerEvent where
  | hello (role : String) (pid generation sessionCount : ℕ)
  | sessionDone (peer : String) (outcome : SessionOutcome)
  | complete
  | deadlineExit (remaining : ℕ)
  deriving Repr, DecidableEq

def DrainerEvent.isDone : DrainerEvent → Bool
  | .sessionDone .. => true
  | _ => false

/-! ### The threads -/

/-- A session thread: not started, in `drain_one_tls_session`, back from it, past its frame, past the
counter and so at its end. -/
inductive ThreadPc where
  | unspawned (d : Drain)
  | draining (d : Drain)
  | returned (outcome : SessionOutcome)
  | reported
  | counted

structure DrainThread where
  peer : String
  pc : ThreadPc

inductive MainPc where
  | spawning (next : ℕ)
  | joining
  | completed
  deriving Repr, DecidableEq

inductive DeadlinePc where
  | sleeping
  | loaded (r : ℕ)
  | reported
  deriving Repr, DecidableEq

structure Drainer where
  threads : List DrainThread
  remaining : ℕ
  main : MainPc
  deadline : DeadlinePc
  events : List DrainerEvent
  exited : Bool

inductive ThreadAct where
  | drain (a : DrainAct)
  | back (message : String)
  | report
  | count
  deriving Repr, DecidableEq

inductive DrainerAct where
  | spawn
  | thread (i : ℕ) (a : ThreadAct)
  | complete
  | exit
  | load
  | deadline
  | deadlineExit
  deriving Repr, DecidableEq

def ThreadPc.isCounted : ThreadPc → Bool
  | .counted => true
  | _ => false

def Drainer.setThread (s : Drainer) (i : ℕ) (x : DrainThread) (pc : ThreadPc) : Drainer :=
  { s with threads := s.threads.set i { x with pc := pc } }

def Drainer.send (s : Drainer) (e : DrainerEvent) : Drainer := { s with events := s.events ++ [e] }

/-- The move of a session thread. -/
def Drainer.thread (s : Drainer) (i : ℕ) (x : DrainThread) : ThreadAct → Option Drainer
  | .drain a => match x.pc with
    | .draining d => (d.step a).map fun d => s.setThread i x (.draining d)
    | _ => none
  | .back message => match x.pc with
    | .draining d => match d.pc with
      | .done ok => some (s.setThread i x (.returned (if ok then .cleanEof else .error message)))
      | _ => none
    | _ => none
  | .report => match x.pc with
    | .returned outcome => some ((s.setThread i x .reported).send (.sessionDone x.peer outcome))
    | _ => none
  | .count => match x.pc with
    | .reported => some { s.setThread i x .counted with remaining := s.remaining - 1 }
    | _ => none

def Drainer.move (s : Drainer) : DrainerAct → Option Drainer
  | .spawn => match s.main with
    | .spawning k => match s.threads[k]? with
      | some x => match x.pc with
        | .unspawned d => some { s.setThread k x (.draining d) with main := .spawning (k + 1) }
        | _ => none
      | none => some { s with main := .joining }
    | _ => none
  | .thread i a => s.threads[i]?.bind fun x => s.thread i x a
  | .complete =>
    if s.main = .joining ∧ s.threads.all (·.pc.isCounted) = true then
      some { s.send .complete with main := .completed }
    else none
  | .exit => if s.main = .completed then some { s with exited := true } else none
  | .load =>
    if s.deadline = .sleeping then some { s with deadline := .loaded s.remaining } else none
  | .deadline => match s.deadline with
    | .loaded r => some { s.send (.deadlineExit r) with deadline := .reported }
    | _ => none
  | .deadlineExit => if s.deadline = .reported then some { s with exited := true } else none

def Drainer.step (s : Drainer) (a : DrainerAct) : Option Drainer :=
  if s.exited then none else s.move a

/-- What a session is handed over with, as far as its drain goes: its peer, the plaintext nobody has
read and the output nobody has written. -/
structure TlsSession where
  peerAddr : String
  plaintext : Bytes
  output : Bytes
  deriving Repr, DecidableEq

def helloOf (pid generation : ℕ) (sessions : List TlsSession) : DrainerEvent :=
  .hello "tls" pid generation sessions.length

def runTlsDrainerChild (pid generation : ℕ) (sessions : List TlsSession) : Drainer :=
  { threads := sessions.map fun h => ⟨h.peerAddr, .unspawned (drainOneTlsSession h.plaintext h.output)⟩
    remaining := sessions.length
    main := .spawning 0
    deadline := .sleeping
    events := [helloOf pid generation sessions]
    exited := false }

/-- A whole stream as the supervisor expects it (`supervisor/drainer.rs:15-17`). -/
def EventProtocol (hello : DrainerEvent) (n : ℕ) (events : List DrainerEvent) : Prop :=
  ∃ dones terminal, events = hello :: dones ++ [terminal] ∧ (∀ e ∈ dones, e.isDone = true) ∧
    dones.length ≤ n ∧
    (terminal = .complete ∧ dones.length = n ∨
      ∃ r, terminal = .deadlineExit r ∧ r + dones.length = n)

def ThreadPc.isBusy : ThreadPc → Bool
  | .unspawned _ | .draining _ => true
  | _ => false

/-- Every drain that has returned has been counted, and one has not returned. -/
def Drainer.Settled (s : Drainer) : Prop :=
  (∀ x ∈ s.threads, x.pc.isBusy = true ∨ x.pc.isCounted = true) ∧
  ∃ x ∈ s.threads, x.pc.isBusy = true

instance decidableCounterSettled (s : Drainer) : Decidable s.Settled :=
  inferInstanceAs (Decidable (_ ∧ _))

/-- The deadline thread reads the counter when it is settled, and no drain returns after that. -/
def Drainer.Timely (s : Drainer) : DrainerAct → Prop
  | .load => s.Settled
  | .thread _ (.back _) => s.deadline = .sleeping
  | _ => True

instance decidableTimely (s : Drainer) : ∀ a, Decidable (s.Timely a)
  | .load => inferInstanceAs (Decidable s.Settled)
  | .thread _ (.back _) => inferInstanceAs (Decidable (s.deadline = .sleeping))
  | .thread _ (.drain _) | .thread _ .report | .thread _ .count | .spawn | .complete | .exit
  | .deadline | .deadlineExit => isTrue trivial

/-! ### What a step can do -/

inductive DrainerMove (s : Drainer) : DrainerAct → Drainer → Prop where
  | works (a : DrainerAct) (i : ℕ) (x : DrainThread) (pc : ThreadPc) (main : MainPc)
      (hx : s.threads[i]? = some x) (hs : x.pc.isBusy = true) (ht : pc.isBusy = true)
      (hm : s.main ≠ .completed → main ≠ .completed) (hd : main = .completed → s.main = .completed) :
      DrainerMove s a { s.setThread i x pc with main := main }
  | joins (hm : s.main ≠ .completed) : DrainerMove s .spawn { s with main := .joining }
  | back (i : ℕ) (message : String) (x : DrainThread) (outcome : SessionOutcome)
      (hx : s.threads[i]? = some x) (hs : x.pc.isBusy = true) :
      DrainerMove s (.thread i (.back message)) (s.setThread i x (.returned outcome))
  | report (i : ℕ) (x : DrainThread) (outcome : SessionOutcome) (hx : s.threads[i]? = some x)
      (hs : x.pc = .returned outcome) :
      DrainerMove s (.thread i .report)
        ((s.setThread i x .reported).send (.sessionDone x.peer outcome))
  | count (i : ℕ) (x : DrainThread) (hx : s.threads[i]? = some x) (hs : x.pc = .reported) :
      DrainerMove s (.thread i .count) { s.setThread i x .counted with remaining := s.remaining - 1 }
  | complete (hm : s.main = .joining) (hall : ∀ x ∈ s.threads, x.pc.isCounted = true) :
      DrainerMove s .complete { s.send .complete with main := .completed }
  | exit (hm : s.main = .completed) : DrainerMove s .exit { s with exited := true }
  | load (hd : s.deadline = .sleeping) :
      DrainerMove s .load { s with deadline := .loaded s.remaining }
  | deadline (r : ℕ) (hd : s.deadline = .loaded r) :
      DrainerMove s .deadline { s.send (.deadlineExit r) with deadline := .reported }
  | deadlineExit (hd : s.deadline = .reported) :
      DrainerMove s .deadlineExit { s with exited := true }

theorem Drainer.thread_cases {s t : Drainer} {i : ℕ} {x : DrainThread} {a : ThreadAct}
    (hx : s.threads[i]? = some x) (h : s.thread i x a = some t) : DrainerMove s (.thread i a) t := by
  cases a with
  | drain b =>
    simp only [Drainer.thread] at h
    split at h
    · next d hpc =>
      obtain ⟨d', -, rfl⟩ := Option.map_eq_some_iff.mp h
      exact .works _ i x (.draining d') s.main hx (by rw [hpc]; rfl) rfl id id
    · cases h
  | back message =>
    simp only [Drainer.thread] at h
    split at h
    · next d hpc =>
      split at h
      · cases h
        exact .back i message x _ hx (by rw [hpc]; rfl)
      · cases h
    · cases h
  | report =>
    simp only [Drainer.thread] at h
    split at h
    · next outcome hpc =>
      cases h
      exact .report i x outcome hx hpc
    · cases h
  | count =>
    simp only [Drainer.thread] at h
    split at h
    · next hpc =>
      cases h
      exact .count i x hx hpc
    · cases h

theorem Drainer.step_cases {s t : Drainer} {a : DrainerAct} (h : s.step a = some t) :
    s.exited = false ∧ DrainerMove s a t := by
  simp only [Drainer.step, Option.ite_none_left_eq_some, Bool.not_eq_true] at h
  obtain ⟨hlive, h⟩ := h
  refine ⟨hlive, ?_⟩
  cases a with
  | thread i b =>
    obtain ⟨x, hx, h⟩ := Option.bind_eq_some_iff.mp h
    exact Drainer.thread_cases hx h
  | spawn =>
    simp only [Drainer.move] at h
    split at h
    · next k hm =>
      split at h
      · next x hx =>
        split at h
        · next d hpc =>
          cases h
          exact .works _ k x (.draining d) _ hx (by rw [hpc]; rfl) rfl (by simp) (by simp)
        · cases h
      · cases h
        exact .joins (by simp [hm])
    · cases h
  | complete =>
    simp only [Drainer.move, Option.ite_none_right_eq_some, Option.some.injEq] at h
    obtain ⟨⟨hm, hall⟩, rfl⟩ := h
    exact .complete hm (by simpa using hall)
  | exit =>
    simp only [Drainer.move, Option.ite_none_right_eq_some, Option.some.injEq] at h
    obtain ⟨hm, rfl⟩ := h
    exact .exit hm
  | load =>
    simp only [Drainer.move, Option.ite_none_right_eq_some, Option.some.injEq] at h
    obtain ⟨hd, rfl⟩ := h
    exact .load hd
  | deadline =>
    simp only [Drainer.move] at h
    split at h
    · next r hd =>
      cases h
      exact .deadline r hd
    · cases h
  | deadlineExit =>
    simp only [Drainer.move, Option.ite_none_right_eq_some, Option.some.injEq] at h
    obtain ⟨hd, rfl⟩ := h
    exact .deadlineExit hd

/-! ### The books -/

/-- Past its frame. -/
def ThreadPc.isWritten : ThreadPc → Bool
  | .reported | .counted => true
  | _ => false

/-- The frames written so far, and what the counter says of them. -/
structure Drainer.Books (s : Drainer) (n : ℕ) (dones : List DrainerEvent) : Prop where
  size : s.threads.length = n
  counter : s.remaining + s.threads.countP (·.pc.isCounted) = n
  frames : ∀ e ∈ dones, e.isDone = true
  length : dones.length = s.threads.countP (·.pc.isWritten)

theorem ThreadPc.busy_not {pc : ThreadPc} (h : pc.isBusy = true) :
    pc.isCounted = false ∧ pc.isWritten = false := by
  cases pc <;> simp_all [ThreadPc.isBusy, ThreadPc.isCounted, ThreadPc.isWritten]

section Books
variable {s : Drainer} {n i : ℕ} {x : DrainThread} {dones : List DrainerEvent}

theorem Drainer.Books.same (hb : s.Books n dones) (hx : s.threads[i]? = some x) (pc : ThreadPc)
    (main : MainPc) (hc : pc.isCounted = x.pc.isCounted) (hw : pc.isWritten = x.pc.isWritten) :
    Drainer.Books { s.setThread i x pc with main := main } n dones := by
  refine ⟨by simpa [Drainer.setThread] using hb.size, ?_, hb.frames, ?_⟩
  · simp only [Drainer.setThread]
    rw [countP_set_same (·.pc.isCounted) s.threads i x _ hx hc]
    exact hb.counter
  · simp only [Drainer.setThread]
    rw [countP_set_same (·.pc.isWritten) s.threads i x _ hx hw]
    exact hb.length

theorem Drainer.Books.report (hb : s.Books n dones) (hx : s.threads[i]? = some x)
    {outcome : SessionOutcome} (hp : x.pc = .returned outcome) :
    ((s.setThread i x .reported).send (.sessionDone x.peer outcome)).Books n
      (dones ++ [.sessionDone x.peer outcome]) := by
  refine ⟨by simpa [Drainer.setThread, Drainer.send] using hb.size, ?_, ?_, ?_⟩
  · simp only [Drainer.setThread, Drainer.send]
    rw [countP_set_same (·.pc.isCounted) s.threads i x _ hx (by rw [hp]; rfl)]
    exact hb.counter
  · intro e he
    rcases List.mem_append.mp he with he | he
    · exact hb.frames e he
    · rw [List.mem_singleton.mp he]
      rfl
  · simp only [Drainer.setThread, Drainer.send, List.length_append, List.length_singleton]
    rw [countP_set_new (·.pc.isWritten) s.threads i x _ hx (by rw [hp]; rfl) rfl, hb.length]

theorem Drainer.Books.count (hb : s.Books n dones) (hx : s.threads[i]? = some x)
    (hp : x.pc = .reported) :
    Drainer.Books { s.setThread i x .counted with remaining := s.remaining - 1 } n dones := by
  have hcount := countP_set_new (·.pc.isCounted) s.threads i x { x with pc := .counted } hx
    (by rw [hp]; rfl) rfl
  have hle := List.countP_le_length (p := fun y : DrainThread => y.pc.isCounted)
    (l := s.threads.set i { x with pc := .counted })
  rw [List.length_set, hb.size] at hle
  refine ⟨by simpa [Drainer.setThread] using hb.size, ?_, hb.frames, ?_⟩
  · -- the thread was not counted, so the counter was not down to 0
    have hold := hb.counter
    simp only [Drainer.setThread]
    omega
  · simp only [Drainer.setThread]
    rw [countP_set_same (·.pc.isWritten) s.threads i x _ hx (by rw [hp]; rfl)]
    exact hb.length

/-- With every thread at its end all frames are written. -/
theorem Drainer.Books.all (hb : s.Books n dones)
    (hall : ∀ x ∈ s.threads, x.pc.isCounted = true) : dones.length = n := by
  have hwritten : s.threads.countP (·.pc.isWritten) = s.threads.length := by
    rw [List.countP_eq_length]
    intro x hx
    have hc := hall x hx
    cases hpc : x.pc <;> simp_all [ThreadPc.isCounted, ThreadPc.isWritten]
  rw [hb.length, hwritten, hb.size]

/-- With the counter settled, what it says is what is not written. -/
theorem Drainer.Books.settled (hb : s.Books n dones) (hs : s.Settled) :
    s.remaining + dones.length = n := by
  have hsame : s.threads.countP (·.pc.isWritten) = s.threads.countP (·.pc.isCounted) := by
    refine List.countP_congr ?_
    intro x hx
    rcases hs.1 x hx with hbusy | hc
    · simp [(ThreadPc.busy_not hbusy).1, (ThreadPc.busy_not hbusy).2]
    · cases hpc : x.pc <;> simp_all [ThreadPc.isCounted, ThreadPc.isWritten]
  rw [hb.length, hsame]
  exact hb.counter

end Books

/-! ### The stream -/

/-- Where a timely run is: before both ends of it, past `Complete`, or on the deadline's way out with
sessions that stay where they are. -/
inductive Drainer.Inv (hello : DrainerEvent) (n : ℕ) (s : Drainer) : Prop where
  | running (dones : List DrainerEvent) (hb : s.Books n dones) (hm : s.main ≠ .completed)
      (hd : s.deadline = .sleeping) (he : s.exited = false) (hev : s.events = hello :: dones)
  | completed (dones : List DrainerEvent) (hf : ∀ e ∈ dones, e.isDone = true)
      (hall : ∀ x ∈ s.threads, x.pc.isCounted = true) (hm : s.main = .completed)
      (hd : s.deadline = .sleeping) (hlen : dones.length = n)
      (hev : s.events = hello :: dones ++ [.complete])
  | leaving (r : ℕ) (dones : List DrainerEvent) (hf : ∀ e ∈ dones, e.isDone = true)
      (hs : s.Settled) (hm : s.main ≠ .completed) (hlen : r + dones.length = n)
      (hd : s.deadline = .loaded r ∧ s.exited = false ∧ s.events = hello :: dones ∨
        s.deadline = .reported ∧ s.events = hello :: dones ++ [.deadlineExit r])

theorem Drainer.Settled.works {s : Drainer} {i : ℕ} {x : DrainThread} (hs : s.Settled)
    (hx : s.threads[i]? = some x) (pc : ThreadPc) (hpc : pc.isBusy = true) (main : MainPc) :
    Drainer.Settled { s.setThread i x pc with main := main } := by
  constructor
  · intro y hy
    rcases List.mem_or_eq_of_mem_set hy with hy | rfl
    · exact hs.1 y hy
    · exact Or.inl hpc
  · have hi : i < s.threads.length := (List.getElem?_eq_some_iff.mp hx).1
    exact ⟨{ x with pc := pc }, List.mem_set hi _, hpc⟩

theorem Drainer.Settled.at_rest {s : Drainer} {i : ℕ} {x : DrainThread} (hs : s.Settled)
    (hx : s.threads[i]? = some x) : x.pc.isBusy = true ∨ x.pc.isCounted = true :=
  hs.1 x (List.mem_of_getElem? hx)

theorem Drainer.step_inv {hello : DrainerEvent} {n : ℕ} {s t : Drainer} {a : DrainerAct}
    (hs : s.Inv hello n) (hg : s.Timely a) (h : s.step a = some t) : t.Inv hello n := by
  obtain ⟨hlive, hmove⟩ := Drainer.step_cases h
  cases hs with
  | running dones hb hm hd he hev =>
    cases hmove with
    | works _ i x pc main hx hp ht hmain _ =>
      have hold := ThreadPc.busy_not hp
      have hnew := ThreadPc.busy_not ht
      exact .running dones (hb.same hx pc main (by rw [hold.1, hnew.1]) (by rw [hold.2, hnew.2]))
        (hmain hm) hd he hev
    | joins _ => exact .running dones ⟨hb.size, hb.counter, hb.frames, hb.length⟩ (by simp) hd he hev
    | back i message x outcome hx hp =>
      have hold := ThreadPc.busy_not hp
      exact .running dones (hb.same hx (.returned outcome) s.main hold.1.symm hold.2.symm) hm hd he
        hev
    | report i x outcome hx hp =>
      refine .running _ (hb.report hx hp) hm hd he ?_
      simp [Drainer.send, Drainer.setThread, hev]
    | count i x hx hp => exact .running dones (hb.count hx hp) hm hd he hev
    | complete _ hall =>
      refine .completed dones hb.frames hall rfl hd (hb.all hall) ?_
      simp [Drainer.send, hev]
    | exit hm' => exact absurd hm' hm
    | load _ =>
      exact .leaving s.remaining dones hb.frames hg hm (hb.settled hg) (Or.inl ⟨rfl, he, hev⟩)
    | deadline r hd' => cases hd.symm.trans hd'
    | deadlineExit hd' => cases hd.symm.trans hd'
  | completed dones hf hall hm hd hlen hev =>
    have hdone : ∀ i (x : DrainThread), s.threads[i]? = some x → x.pc.isCounted = true :=
      fun i x hx => hall x (List.mem_of_getElem? hx)
    cases hmove with
    | works _ i x pc main hx hp _ _ _ =>
      exact absurd (hdone i x hx) (by simp [(ThreadPc.busy_not hp).1])
    | joins hm' => exact absurd hm hm'
    | back i message x outcome hx hp =>
      exact absurd (hdone i x hx) (by simp [(ThreadPc.busy_not hp).1])
    | report i x outcome hx hp => exact absurd (hdone i x hx) (by simp [hp, ThreadPc.isCounted])
    | count i x hx hp => exact absurd (hdone i x hx) (by simp [hp, ThreadPc.isCounted])
    | complete hm' _ => cases hm.symm.trans hm'
    | exit _ => exact .completed dones hf hall hm hd hlen hev
    | load _ =>
      obtain ⟨x, hx, hbusy⟩ := hg.2
      exact absurd (hall x hx) (by simp [(ThreadPc.busy_not hbusy).1])
    | deadline r hd' => cases hd.symm.trans hd'
    | deadlineExit hd' => cases hd.symm.trans hd'
  | leaving r dones hf hset hm hlen hd =>
    -- the sessions that are not counted stay in their drains, so only the deadline thread gets on
    have hawake : s.deadline ≠ .sleeping := by rcases hd with ⟨hd, -⟩ | ⟨hd, -⟩ <;> simp [hd]
    cases hmove with
    | works _ i x pc main hx hp ht hmain _ =>
      exact .leaving r dones hf (hset.works hx pc ht main) (hmain hm) hlen hd
    | joins _ => exact .leaving r dones hf hset (by simp) hlen hd
    | back i message x outcome hx hp => exact absurd hg hawake
    | report i x outcome hx hp =>
      exact absurd (hset.at_rest hx) (by simp [hp, ThreadPc.isBusy, ThreadPc.isCounted])
    | count i x hx hp =>
      exact absurd (hset.at_rest hx) (by simp [hp, ThreadPc.isBusy, ThreadPc.isCounted])
    | complete _ hall =>
      obtain ⟨x, hx, hbusy⟩ := hset.2
      exact absurd (hall x hx) (by simp [(ThreadPc.busy_not hbusy).1])
    | exit hm' => exact absurd hm' hm
    | load hd' => exact absurd hd' hawake
    | deadline r' hd' =>
      rcases hd with ⟨hd, he, hev⟩ | ⟨hd, -⟩
      · cases hd.symm.trans hd'
        refine .leaving r dones hf hset hm hlen (Or.inr ⟨rfl, ?_⟩)
        simp [Drainer.send, hev]
      · cases hd.symm.trans hd'
    | deadlineExit hd' =>
      rcases hd with ⟨hd, -⟩ | ⟨hd, hev⟩
      · cases hd.symm.trans hd'
      · exact .leaving r dones hf hset hm hlen (Or.inr ⟨hd, hev⟩)

theorem runTlsDrainerChild_inv (pid generation : ℕ) (sessions : List TlsSession) :
    (runTlsDrainerChild pid generation sessions).Inv (helloOf pid generation sessions)
      sessions.length := by
  refine .running [] ⟨by simp [runTlsDrainerChild], ?_, by simp, ?_⟩ (by simp [runTlsDrainerChild])
    rfl rfl rfl
  · have hnone : (sessions.map fun h => DrainThread.mk h.peerAddr
        (.unspawned (drainOneTlsSession h.plaintext h.output))).countP (·.pc.isCounted) = 0 := by
      simp [List.countP_eq_zero, ThreadPc.isCounted]
    simp only [runTlsDrainerChild, hnone]
    omega
  · symm
    simp [runTlsDrainerChild, List.countP_eq_zero, ThreadPc.isWritten]

/-- What has been written can be completed to a whole stream, and is one when the process is gone. -/
theorem Drainer.Inv.stream {hello : DrainerEvent} {n : ℕ} {s : Drainer} (hs : s.Inv hello n) :
    (s.exited = true → EventProtocol hello n s.events) ∧
    ∃ rest, EventProtocol hello n (s.events ++ rest) := by
  cases hs with
  | running dones hb hm hd he hev =>
    refine ⟨by simp [he], [.deadlineExit (n - dones.length)], dones, _, by rw [hev], hb.frames, ?_⟩
    have hle : dones.length ≤ n := by
      rw [hb.length, ← hb.size]
      exact List.countP_le_length
    exact ⟨hle, Or.inr ⟨_, rfl, by omega⟩⟩
  | completed dones hf hall hm hd hlen hev =>
    have hwhole : EventProtocol hello n s.events :=
      ⟨dones, .complete, hev, hf, by omega, Or.inl ⟨rfl, hlen⟩⟩
    exact ⟨fun _ => hwhole, [], by rwa [List.append_nil]⟩
  | leaving r dones hf hset hm hlen hd =>
    rcases hd with ⟨-, he, hev⟩ | ⟨-, hev⟩
    · exact ⟨by simp [he], [.deadlineExit r], dones, _, by rw [hev], hf, by omega,
        Or.inr ⟨r, rfl, hlen⟩⟩
    · have hwhole : EventProtocol hello n s.events :=
        ⟨dones, .deadlineExit r, hev, hf, by omega, Or.inr ⟨r, rfl, hlen⟩⟩
      exact ⟨fun _ => hwhole, [], by rwa [List.append_nil]⟩

/-- In every interleaving in which no session ends around the deadline, the stream is a hello, the
frames of the sessions and one last frame, with the numbers right. -/
theorem drainer_event_protocol (pid generation : ℕ) (sessions : List TlsSession)
    (as : List DrainerAct) (t : Drainer)
    (h : exec Drainer.step (runTlsDrainerChild pid generation sessions) as = some t)
    (hg : Along Drainer.step Drainer.Timely (runTlsDrainerChild pid generation sessions) as) :
    (t.exited = true →
      EventProtocol (helloOf pid generation sessions) sessions.length t.events) ∧
    ∃ rest, EventProtocol (helloOf pid generation sessions) sessions.length (t.events ++ rest) :=
  (exec_along (I := Drainer.Inv (helloOf pid generation sessions) sessions.length)
    (fun _ _ _ hs hg ht => Drainer.step_inv hs hg ht) _ t as
    (runTlsDrainerChild_inv pid generation sessions) hg h).stream

/-- Two sessions: one whose processor closes, and one that is still there at the deadline. -/
def twoSessions : List TlsSession := [⟨"p", [], []⟩, ⟨"q", [], []⟩]

def closesFirst : List DrainerAct :=
  [.spawn, .spawn, .spawn, .thread 0 (.drain .skip), .thread 0 (.drain .skip),
    .thread 0 (.drain (.ready false true)), .thread 0 (.drain .eof), .thread 0 (.back "")]

theorem drainer_event_protocol_deadline :
    ∃ t, exec Drainer.step (runTlsDrainerChild 9 3 twoSessions)
      (closesFirst ++ [.thread 0 .report, .thread 0 .count, .load, .deadline, .deadlineExit]) =
        some t ∧
      EventProtocol (helloOf 9 3 twoSessions) 2 t.events := by
  refine ⟨_, rfl, ?_⟩
  exact (drainer_event_protocol 9 3 twoSessions
    (closesFirst ++ [.thread 0 .report, .thread 0 .count, .load, .deadline, .deadlineExit]) _ rfl
    (by decide)).1 rfl

theorem EventProtocol.of_two {hello a b : DrainerEvent} {n : ℕ}
    (h : EventProtocol hello n [hello, a, b]) :
    a.isDone = true ∧ (b = .complete ∧ n = 1 ∨ b = .deadlineExit (n - 1) ∧ n ≠ 0) := by
  obtain ⟨dones, terminal, hev, hf, -, hor⟩ := h
  have hlen : dones.length = 1 := by simpa using (congrArg List.length hev).symm
  obtain ⟨d, rfl⟩ := List.length_eq_one_iff.mp hlen
  simp only [List.cons_append, List.nil_append, List.cons.injEq, and_true, true_and] at hev
  obtain ⟨rfl, rfl⟩ := hev
  refine ⟨hf a (List.mem_singleton_self a), ?_⟩
  rcases hor with ⟨rfl, hn⟩ | ⟨r, rfl, hn⟩
  · exact Or.inl ⟨rfl, hn.symm⟩
  · right
    rw [List.length_singleton] at hn
    exact ⟨by rw [← hn]; rfl, by omega⟩

/-- A session that reports in the 100 ms before the exit, a session that is counted too late, and the
deadline thread waking up between `Complete` and the exit. -/
theorem drainer_stream_broken :
    (∃ t, exec Drainer.step (runTlsDrainerChild 9 3 twoSessions)
      (closesFirst ++ [.load, .deadline, .thread 0 .report, .deadlineExit]) = some t ∧
      t.exited = true ∧
      t.events = [.hello "tls" 9 3 2, .deadlineExit 2, .sessionDone "p" .cleanEof] ∧
      ¬ EventProtocol (helloOf 9 3 twoSessions) 2 t.events) ∧
    (∃ t, exec Drainer.step (runTlsDrainerChild 9 3 twoSessions)
      (closesFirst ++ [.thread 0 .report, .load, .thread 0 .count, .deadline, .deadlineExit]) =
        some t ∧
      t.exited = true ∧
      t.events = [.hello "tls" 9 3 2, .sessionDone "p" .cleanEof, .deadlineExit 2] ∧
      ¬ EventProtocol (helloOf 9 3 twoSessions) 2 t.events) ∧
    (∃ t, exec Drainer.step (runTlsDrainerChild 9 3 [])
      [.spawn, .complete, .load, .deadline, .exit] = some t ∧
      t.exited = true ∧ t.events = [.hello "tls" 9 3 0, .complete, .deadlineExit 0] ∧
      ¬ EventProtocol (helloOf 9 3 []) 0 t.events) := by
  refine ⟨⟨_, rfl, rfl, rfl, ?_⟩, ⟨_, rfl, rfl, rfl, ?_⟩, ⟨_, rfl, rfl, rfl, ?_⟩⟩
  · exact fun h => nomatch h.of_two.1
  · intro h
    rcases h.of_two.2 with ⟨hb, -⟩ | ⟨hb, -⟩ <;> cases hb
  · exact fun h => nomatch h.of_two.1

end FiveNinesEcho.Acceptor
