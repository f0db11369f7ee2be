import FiveNinesEcho.Acceptor.Tls

/-!
# How the TLS bridge stops (`acceptor/tls_client.rs:31-178`)

All of `bidirectional_with_idle`: the two copy loops, the idle watchdog, the relay of the upgrade's
cancel and the drain grace, which race over one token. The streams are not modelled here: a read
brings any bytes, a write is granted in any pieces, and either may fail. `upgrade` is set by the
relay alone, and what the bridge answers is read off it, whatever the loops were doing when they
were stopped.
-/

namespace FiveNinesEcho.Acceptor
open Lib Processor

inductive BridgeExit where
  | ended
  | cancelled
  deriving Repr, DecidableEq

/-! ### One direction (`acceptor/tls_client.rs:156-178`) -/

/-- `copy_direction`, with all that it ever read from its source and wrote to its sink. -/
structure Direction where
  loop : Copy Byte
  taken : Bytes
  given : Bytes
  deriving Repr, DecidableEq

inductive DirAct where
  | read (bs : Bytes)
  | eof
  | write (n : ℕ)
  | stop
  | fail
  deriving Repr, DecidableEq

def DirAct.copy : DirAct → CopyAct
  | .read bs => .read bs.length
  | .eof => .eof
  | .write n => .write n
  | .stop => .stop
  | .fail => .fail

def DirAct.ports (stop : Bool) : DirAct → Ports Byte
  | .read bs => ⟨bs, false, 0, stop⟩
  | .eof => ⟨[], true, 0, stop⟩
  | .write n => ⟨[], false, n, stop⟩
  | .stop | .fail => ⟨[], false, 0, stop⟩

def Direction.step (d : Direction) (stop : Bool) (a : DirAct) : Option Direction :=
  (d.loop.step bufferSize (a.ports stop) a.copy).map fun m =>
    { loop := m.loop
      taken := d.taken ++ (a.ports stop).ready.take m.taken
      given := d.given ++ m.given }

/-! ### The bridge (`acceptor/tls_client.rs:58-150`) -/

/-- The caller's oneshot: unused, holding the upgrade's cancel, or with its sender dropped. -/
inductive Oneshot where
  | waiting
  | sent
  | dropped
  deriving Repr, DecidableEq

/-- `external`: in its `select!`, or, the sender having been dropped, waiting for the token. -/
inductive Relay where
  | listening
  | orphaned
  | returned
  deriving Repr, DecidableEq

/-- `watchdog`: without a timeout it only waits for the token. -/
inductive IdleWatch where
  | off
  | sleeping (wake : ℕ)
  | returned
  deriving Repr, DecidableEq

/-- Times are in milliseconds: `now` is the clock of the sleeps and `nowUnixMs` the wall clock that
`last_ms` is stamped with. `cancelledAt` is the token, with the time it was cancelled; `tornDown`
says that the drain grace won the last `select!`. -/
structure Bridge where
  idle : ℕ
  dir1 : Direction
  dir2 : Direction
  cancel : Oneshot
  external : Relay
  watchdog : IdleWatch
  upgrade : Bool
  lastMs : ℕ
  now : ℕ
  nowUnixMs : ℕ
  cancelledAt : Option ℕ
  tornDown : Bool
  deriving Repr, DecidableEq

def watchInterval (idle : ℕ) : ℕ := max (idle / 4) 100

def Bridge.start (idle now nowUnixMs : ℕ) : Bridge :=
  { idle := idle
    dir1 := ⟨.reading, [], []⟩
    dir2 := ⟨.reading, [], []⟩
    cancel := .waiting
    external := .listening
    watchdog := if idle = 0 then .off else .sleeping (now + watchInterval idle)
    upgrade := false
    lastMs := nowUnixMs
    now := now
    nowUnixMs := nowUnixMs
    cancelledAt := none
    tornDown := false }

/-- `join!` is done when all four futures are. -/
def Bridge.joined (s : Bridge) : Bool :=
  s.dir1.loop.isStopped && s.dir2.loop.isStopped && s.external == .returned &&
    s.watchdog == .returned

def Bridge.exit (s : Bridge) : Option BridgeExit :=
  if s.tornDown || s.joined then some (if s.upgrade then .cancelled else .ended) else none

inductive BridgeAct where
  | dir1 (a : DirAct)
  | dir2 (a : DirAct)
  | sendCancel
  | dropCancel
  | relayCancel
  | relayDropped
  | relayStop
  | watchWake
  | watchStop
  | elapse (d nowUnixMs : ℕ)
  | grace
  deriving Repr, DecidableEq

/-- `token.cancel()`: the first one counts. -/
def Bridge.cancelToken (s : Bridge) : Bridge :=
  { s with cancelledAt := s.cancelledAt <|> some s.now }

/-- After a loop has moved: a finished write stamps `last_ms`, a loop that stops cancels the
token. -/
def Bridge.settle (s : Bridge) (old new : Copy Byte) : Bridge :=
  let s := if old.held ≠ [] ∧ new = .reading then { s with lastMs := s.nowUnixMs } else s
  if new.isStopped then s.cancelToken else s

def Bridge.move (s : Bridge) : BridgeAct → Option Bridge
  | .dir1 a => (s.dir1.step s.cancelledAt.isSome a).map fun d =>
    { s with dir1 := d }.settle s.dir1.loop d.loop
  | .dir2 a => (s.dir2.step s.cancelledAt.isSome a).map fun d =>
    { s with dir2 := d }.settle s.dir2.loop d.loop
  | .sendCancel => if s.cancel = .waiting then some { s with cancel := .sent } else none
  | .dropCancel => if s.cancel = .waiting then some { s with cancel := .dropped } else none
  -- the `select!` of the relay is not biased: a cancel that is there may win over the token
  | .relayCancel =>
    if s.external = .listening ∧ s.cancel = .sent then
      some { s.cancelToken with upgrade := true, external := .returned }
    else none
  | .relayDropped =>
    if s.external = .listening ∧ s.cancel = .dropped then some { s with external := .orphaned }
    else none
  | .relayStop =>
    if s.external ≠ .returned ∧ s.cancelledAt.isSome = true then
      some { s with external := .returned }
    else none
  | .watchWake => match s.watchdog with
    | .sleeping wake =>
      if wake ≤ s.now then
        if s.idle < s.nowUnixMs - s.lastMs then some { s.cancelToken with watchdog := .returned }
        else some { s with watchdog := .sleeping (s.now + watchInterval s.idle) }
      else none
    | _ => none
  | .watchStop =>
    if s.watchdog ≠ .returned ∧ s.cancelledAt.isSome = true then
      some { s with watchdog := .returned }
    else none
  | .elapse d wall => some { s with now := s.now + d, nowUnixMs := wall }
  | .grace => s.cancelledAt.bind fun at_ =>
    if at_ + bridgeDrainGrace ≤ s.now then some { s with tornDown := true } else none

def Bridge.step (s : Bridge) (a : BridgeAct) : Option Bridge :=
  if s.exit = none then s.move a else none

/-! ### What a direction keeps -/

/-- What was read and not yet written is in the loop's hands. -/
def Direction.Whole (d : Direction) : Prop := d.taken = d.given ++ d.loop.held

/-- The loop is over and something it read will never be written. -/
def Direction.Torn (d : Direction) : Prop := d.loop = .stopped ∧ d.taken ≠ d.given

theorem Direction.Whole.level_iff {d : Direction} (h : d.Whole) :
    d.taken = d.given ↔ d.loop.held = [] := by
  rw [Direction.Whole] at h
  simp [h]

theorem Direction.step_whole {d d' : Direction} {stop : Bool} {a : DirAct} (hd : d.Whole)
    (ha : a ≠ .fail) (h : d.step stop a = some d') : d'.Whole := by
  simp only [Direction.step, Option.map_eq_some_iff] at h
  obtain ⟨m, hm, rfl⟩ := h
  have hcopy : a.copy ≠ .fail := by cases a <;> simp_all [DirAct.copy]
  have hkeep := Copy.step_conserves _ _ _ _ m hcopy hm
  have hmoved : m.given ++ m.loop.held = d.loop.held ++ (a.ports stop).ready.take m.taken := by
    have hall : m.given ++ m.loop.held ++ (a.ports stop).ready.drop m.taken =
        d.loop.held ++ (a.ports stop).ready.take m.taken ++ (a.ports stop).ready.drop m.taken := by
      rw [hkeep, List.append_assoc, List.take_append_drop]
    exact List.append_cancel_right hall
  simp only [Direction.Whole] at hd ⊢
  rw [hd, List.append_assoc, List.append_assoc, hmoved]

theorem Direction.step_fail {d d' : Direction} {stop : Bool} (h : d.step stop .fail = some d') :
    d' = { d with loop := .stopped } := by
  simp only [Direction.step, Option.map_eq_some_iff] at h
  obtain ⟨m, hm, rfl⟩ := h
  rw [Copy.step_fail _ _ _ m hm]
  simp [DirAct.ports]

theorem Direction.Torn.no_step {d : Direction} (hd : d.Torn) (stop : Bool) (a : DirAct) :
    d.step stop a = none := by
  rw [Direction.step, hd.1]
  cases a <;> rfl

/-! ### What a step of the bridge keeps -/

theorem Bridge.settle_dirs (s : Bridge) (old new : Copy Byte) :
    (s.settle old new).dir1 = s.dir1 ∧ (s.settle old new).dir2 = s.dir2 ∧
    (s.settle old new).tornDown = s.tornDown := by
  unfold Bridge.settle
  split <;> split <;> exact ⟨rfl, rfl, rfl⟩

/-- A step moves one direction, tears the bridge down, or leaves the loops alone. -/
theorem Bridge.step_cases {s t : Bridge} {a : BridgeAct} (h : s.step a = some t) :
    s.tornDown = false ∧
    ((∃ b, a = .dir1 b ∧ s.dir1.step s.cancelledAt.isSome b = some t.dir1 ∧ t.dir2 = s.dir2 ∧
        t.tornDown = false) ∨
      (∃ b, a = .dir2 b ∧ s.dir2.step s.cancelledAt.isSome b = some t.dir2 ∧ t.dir1 = s.dir1 ∧
        t.tornDown = false) ∨
      (t.dir1 = s.dir1 ∧ t.dir2 = s.dir2 ∧ (∀ b, a ≠ .dir1 b) ∧ (∀ b, a ≠ .dir2 b) ∧
        (t.tornDown = true ↔ a = .grace))) := by
  simp only [Bridge.step, Option.ite_none_right_eq_some] at h
  obtain ⟨hexit, h⟩ := h
  have htorn : s.tornDown = false := by
    cases ht : s.tornDown with
    | false => rfl
    | true => simp [Bridge.exit, ht] at hexit
  refine ⟨htorn, ?_⟩
  cases a with
  | dir1 b =>
    simp only [Bridge.move, Option.map_eq_some_iff] at h
    obtain ⟨d, hd, rfl⟩ := h
    obtain ⟨h1, h2, ht⟩ := Bridge.settle_dirs { s with dir1 := d } s.dir1.loop d.loop
    exact Or.inl ⟨b, rfl, by rw [h1]; exact hd, h2, ht.trans htorn⟩
  | dir2 b =>
    simp only [Bridge.move, Option.map_eq_some_iff] at h
    obtain ⟨d, hd, rfl⟩ := h
    obtain ⟨h1, h2, ht⟩ := Bridge.settle_dirs { s with dir2 := d } s.dir2.loop d.loop
    exact Or.inr (Or.inl ⟨b, rfl, by rw [h2]; exact hd, h1, ht.trans htorn⟩)
  | grace =>
    simp only [Bridge.move, Option.bind_eq_some_iff, Option.ite_none_right_eq_some,
      Option.some.injEq] at h
    obtain ⟨n, -, -, rfl⟩ := h
    exact Or.inr (Or.inr ⟨rfl, rfl, by simp, by simp, by simp⟩)
  | watchWake =>
    simp only [Bridge.move] at h
    split at h
    · simp only [Option.ite_none_right_eq_some] at h
      obtain ⟨-, h⟩ := h
      split at h <;> cases h <;>
        exact Or.inr (Or.inr ⟨rfl, rfl, by simp, by simp, by simp [Bridge.cancelToken, htorn]⟩)
    · cases h
  | elapse d wall =>
    simp only [Bridge.move, Option.some.injEq] at h
    subst h
    exact Or.inr (Or.inr ⟨rfl, rfl, by simp, by simp, by simp [htorn]⟩)
  | sendCancel | dropCancel | relayCancel | relayDropped | relayStop | watchStop =>
    simp only [Bridge.move, Option.ite_none_right_eq_some, Option.some.injEq] at h
    obtain ⟨-, rfl⟩ := h
    exact Or.inr (Or.inr ⟨rfl, rfl, by simp, by simp, by simp [Bridge.cancelToken, htorn]⟩)

/-! ### When `Cancelled` means that nothing is in flight -/

/-- No write fails, and the drain grace does not end with a write in flight. -/
def Bridge.Undisturbed (s : Bridge) (a : BridgeAct) : Prop :=
  (a = .dir1 .fail → s.dir1.loop.held = []) ∧ (a = .dir2 .fail → s.dir2.loop.held = []) ∧
  (a = .grace → s.dir1.loop.held = [] ∧ s.dir2.loop.held = [])

instance decidableUndisturbed (s : Bridge) (a : BridgeAct) : Decidable (s.Undisturbed a) :=
  inferInstanceAs (Decidable (_ ∧ _ ∧ _))

/-- In each direction all that was read was written. -/
def Bridge.Quiesced (s : Bridge) : Prop :=
  s.dir1.taken = s.dir1.given ∧ s.dir2.taken = s.dir2.given

instance decidableQuiesced (s : Bridge) : Decidable s.Quiesced :=
  inferInstanceAs (Decidable (_ ∧ _))

structure Bridge.Kept (s : Bridge) : Prop where
  dir1 : s.dir1.Whole
  dir2 : s.dir2.Whole
  torn : s.tornDown = true → s.dir1.loop.held = [] ∧ s.dir2.loop.held = []

theorem Direction.step_kept {d d' : Direction} {stop : Bool} {a : DirAct} (hd : d.Whole)
    (ha : a = .fail → d.loop.held = []) (h : d.step stop a = some d') : d'.Whole := by
  by_cases hf : a = .fail
  · subst hf
    rw [Direction.step_fail h, Direction.Whole, hd.level_iff.mpr (ha rfl)]
    simp [Copy.held]
  · exact Direction.step_whole hd hf h

theorem Bridge.step_kept {s t : Bridge} {a : BridgeAct} (hs : s.Kept) (hg : s.Undisturbed a)
    (h : s.step a = some t) : t.Kept := by
  obtain ⟨hg1, hg2, hgrace⟩ := hg
  obtain ⟨-, ⟨b, rfl, hd, hsame, htorn⟩ | ⟨b, rfl, hd, hsame, htorn⟩ |
    ⟨h1, h2, -, -, htorn⟩⟩ := Bridge.step_cases h
  · refine ⟨Direction.step_kept hs.dir1 ?_ hd, by rw [hsame]; exact hs.dir2, ?_⟩
    · rintro rfl
      exact hg1 rfl
    · intro ht
      simp [htorn] at ht
  · refine ⟨by rw [hsame]; exact hs.dir1, Direction.step_kept hs.dir2 ?_ hd, ?_⟩
    · rintro rfl
      exact hg2 rfl
    · intro ht
      simp [htorn] at ht
  · refine ⟨by rw [h1]; exact hs.dir1, by rw [h2]; exact hs.dir2, ?_⟩
    intro ht
    rw [h1, h2]
    exact hgrace (htorn.mp ht)

/-- A loop that failed with something in its hands, or a bridge that was torn down with it. -/
def Bridge.Lost (s : Bridge) : Prop :=
  s.dir1.Torn ∨ s.dir2.Torn ∨ (s.tornDown = true ∧ ¬ s.Quiesced)

theorem Bridge.Lost.not_quiesced {s : Bridge} (h : s.Lost) : ¬ s.Quiesced := by
  intro hq
  rcases h with h | h | h
  · exact h.2 hq.1
  · exact h.2 hq.2
  · exact h.2 hq

def Direction.Booked (d : Direction) : Prop := d.Whole ∨ d.Torn

theorem Direction.step_booked {d d' : Direction} {stop : Bool} {a : DirAct} (hd : d.Booked)
    (h : d.step stop a = some d') :
    d'.Booked ∧ (a = .fail → d.loop.held ≠ [] → d'.Torn) := by
  rcases hd with hd | hd
  · by_cases hf : a = .fail
    · subst hf
      have hstop := Direction.step_fail h
      by_cases hheld : d.loop.held = []
      · exact ⟨Or.inl (Direction.step_kept hd (fun _ => hheld) h), fun _ hn => absurd hheld hn⟩
      · have htorn : d'.Torn := by
          rw [hstop]
          exact ⟨rfl, fun he => hheld (hd.level_iff.mp he)⟩
        exact ⟨Or.inr htorn, fun _ _ => htorn⟩
    · exact ⟨Or.inl (Direction.step_whole hd hf h), fun he => absurd he hf⟩
  · rw [hd.no_step] at h
    cases h

theorem Bridge.step_booked {s t : Bridge} {a : BridgeAct}
    (hs : s.dir1.Booked ∧ s.dir2.Booked) (h : s.step a = some t) :
    (t.dir1.Booked ∧ t.dir2.Booked) ∧ (¬ s.Undisturbed a → t.Lost) := by
  obtain ⟨-, ⟨b, rfl, hd, hsame, -⟩ | ⟨b, rfl, hd, hsame, -⟩ | ⟨h1, h2, hn1, hn2, htorn⟩⟩ :=
    Bridge.step_cases h
  · obtain ⟨hbook, hlost⟩ := Direction.step_booked hs.1 hd
    refine ⟨⟨hbook, by rw [hsame]; exact hs.2⟩, ?_⟩
    intro hg
    have hfail : b = .fail ∧ s.dir1.loop.held ≠ [] := by simpa [Bridge.Undisturbed] using hg
    exact Or.inl (hlost hfail.1 hfail.2)
  · obtain ⟨hbook, hlost⟩ := Direction.step_booked hs.2 hd
    refine ⟨⟨by rw [hsame]; exact hs.1, hbook⟩, ?_⟩
    intro hg
    have hfail : b = .fail ∧ s.dir2.loop.held ≠ [] := by simpa [Bridge.Undisturbed] using hg
    exact Or.inr (Or.inl (hlost hfail.1 hfail.2))
  · refine ⟨⟨by rw [h1]; exact hs.1, by rw [h2]; exact hs.2⟩, ?_⟩
    intro hg
    have hgrace : a = .grace ∧ ¬ (s.dir1.loop.held = [] ∧ s.dir2.loop.held = []) := by
      simpa [Bridge.Undisturbed, hn1, hn2] using hg
    -- torn down with bytes in hand: they are lost, unless a loop had lost some before
    rcases hs.1 with hw1 | ht1
    · rcases hs.2 with hw2 | ht2
      · refine Or.inr (Or.inr ⟨htorn.mpr hgrace.1, ?_⟩)
        intro hq
        rw [Bridge.Quiesced, h1, h2] at hq
        exact hgrace.2 ⟨hw1.level_iff.mp hq.1, hw2.level_iff.mp hq.2⟩
      · exact Or.inr (Or.inl (by rw [h2]; exact ht2))
    · exact Or.inl (by rw [h1]; exact ht1)

theorem Bridge.Lost.step {s t : Bridge} {a : BridgeAct} (hs : s.Lost) (h : s.step a = some t) :
    t.Lost := by
  obtain ⟨htorn, hcases⟩ := Bridge.step_cases h
  rcases hs with hl | hl | ⟨hl, -⟩
  · rcases hcases with ⟨b, -, hd, -⟩ | ⟨b, -, -, hsame, -⟩ | ⟨h1, -⟩
    · rw [hl.no_step] at hd
      cases hd
    · exact Or.inl (by rw [hsame]; exact hl)
    · exact Or.inl (by rw [h1]; exact hl)
  · rcases hcases with ⟨b, -, -, hsame, -⟩ | ⟨b, -, hd, -⟩ | ⟨-, h2, -⟩
    · exact Or.inr (Or.inl (by rw [hsame]; exact hl))
    · rw [hl.no_step] at hd
      cases hd
    · exact Or.inr (Or.inl (by rw [h2]; exact hl))
  · simp [htorn] at hl

theorem Bridge.Kept.quiesced {s : Bridge} (h : s.Kept) (hexit : s.exit ≠ none) : s.Quiesced := by
  have hheld : s.dir1.loop.held = [] ∧ s.dir2.loop.held = [] := by
    cases ht : s.tornDown with
    | true => exact h.torn ht
    | false =>
      have hjoin : s.joined = true := by
        cases hj : s.joined with
        | true => rfl
        | false => simp [Bridge.exit, ht, hj] at hexit
      simp only [Bridge.joined, Bool.and_eq_true, Copy.isStopped_iff] at hjoin
      obtain ⟨⟨⟨hd1, hd2⟩, -⟩, -⟩ := hjoin
      rw [hd1, hd2]
      exact ⟨rfl, rfl⟩
  exact ⟨h.dir1.level_iff.mpr hheld.1, h.dir2.level_iff.mpr hheld.2⟩

/-- A bridge that answers `Cancelled` has written all that it read exactly if no write failed and
the drain grace did not end with a write in flight. -/
theorem cancelled_quiesced_iff (idle now nowUnixMs : ℕ) (as : List BridgeAct) (t : Bridge)
    (h : exec Bridge.step (Bridge.start idle now nowUnixMs) as = some t)
    (hexit : t.exit = some .cancelled) :
    t.Quiesced ↔ Along Bridge.step Bridge.Undisturbed (Bridge.start idle now nowUnixMs) as := by
  constructor
  · intro hq
    refine along_of_end (I := fun s => s.dir1.Booked ∧ s.dir2.Booked) (B := Bridge.Lost)
      (P := fun _ => True) ?_ ?_ _ t as ⟨Or.inl rfl, Or.inl rfl⟩ (fun _ _ => trivial) h
      (fun hl => hl.not_quiesced hq)
    · intro s a t hs _ ht
      exact Bridge.step_booked hs ht
    · intro s a t _ hl _ ht
      exact hl.step ht
  · intro hg
    have hstart : (Bridge.start idle now nowUnixMs).Kept := ⟨rfl, rfl, by simp [Bridge.start]⟩
    have hkept : t.Kept :=
      exec_along (fun s a t hs hg ht => Bridge.step_kept hs hg ht) _ t as hstart hg h
    exact hkept.quiesced (by simp [hexit])

/-- The upgrade cancels the bridge while the first direction writes; the write is finished in two
pieces before the loops stop. -/
def patientCancel : List BridgeAct :=
  [.dir1 (.read [104, 105]), .sendCancel, .relayCancel, .dir1 (.write 1), .dir1 (.write 1),
    .dir1 .stop, .dir2 .stop, .watchStop]

theorem cancelled_quiesced_patient :
    (∃ t, exec Bridge.step (Bridge.start 30000 0 0) patientCancel = some t ∧
      t.exit = some .cancelled ∧ t.Quiesced) := by
  obtain ⟨t, ht⟩ : ∃ t, exec Bridge.step (Bridge.start 30000 0 0) patientCancel = some t :=
    Option.isSome_iff_exists.mp (by decide)
  have hexit : t.exit = some .cancelled := by
    have hrun : (exec Bridge.step (Bridge.start 30000 0 0) patientCancel).bind Bridge.exit =
        some .cancelled := by decide
    rwa [ht] at hrun
  refine ⟨t, ht, hexit, ?_⟩
  exact (cancelled_quiesced_iff 30000 0 0 patientCancel t ht hexit).mpr (by decide)

/-- A client that stopped reading: the echo that was read for it is neither written nor handed on
when the grace ends. And a write that fails after the cancel. -/
theorem cancelled_in_flight :
    (∃ t, exec Bridge.step (Bridge.start 30000 0 0)
      [.dir2 (.read [104, 105]), .sendCancel, .relayCancel, .dir1 .stop, .watchStop,
        .elapse 500 500, .grace] = some t ∧
      t.exit = some .cancelled ∧ t.dir2.taken = [104, 105] ∧ t.dir2.given = []) ∧
    (∃ t, exec Bridge.step (Bridge.start 30000 0 0)
      [.dir1 (.read [104, 105]), .sendCancel, .relayCancel, .dir1 .fail, .dir2 .stop,
        .watchStop] = some t ∧
      t.exit = some .cancelled ∧ t.dir1.taken = [104, 105] ∧ t.dir1.given = []) := by
  refine ⟨⟨_, rfl, ?_⟩, ⟨_, rfl, ?_⟩⟩ <;> decide

/-! ### The bridge between its ends

The bridge of `Tls` is this one with the idle timeout off and no upgrade, its streams being the
client's connection and the processor's. -/

structure Tls.Seen {C : Codec} (s : Tls C) (b : Bridge) : Prop where
  dir1 : b.dir1.loop = s.dir1
  dir2 : b.dir2.loop = s.dir2
  token : b.cancelledAt = s.cancelledAt
  torn : b.tornDown = s.tornDown
  clock : s.tornDown = false → b.now = s.now
  quiet : b.external = .listening ∧ b.upgrade = false

section Simulation
variable {C : Codec} {s s' : Tls C} {b : Bridge}

theorem Tls.Seen.open (hb : s.Seen b) (ht : s.tornDown = false) : b.exit = none := by
  simp [Bridge.exit, Bridge.joined, hb.torn, ht, hb.quiet.1]

/-- What a copy loop did between its ends, as an action on streams. -/
theorem Direction.step_follows (d : Direction) (p : Ports Byte) (a : CopyAct) (m : Copied Byte)
    (h : d.loop.step bufferSize p a = some m) :
    ∃ a' d', d.step p.stop a' = some d' ∧ d'.loop = m.loop := by
  cases hd : d.loop with
  | reading =>
    rw [hd] at h
    cases a with
    | read n =>
      simp only [Copy.step, Option.ite_none_right_eq_some, Option.some.injEq] at h
      obtain ⟨⟨hs, hn, hsize, hle⟩, rfl⟩ := h
      refine ⟨.read (p.ready.take n), ⟨.writing (p.ready.take n), d.taken ++ p.ready.take n,
        d.given⟩, ?_, rfl⟩
      simp [Direction.step, DirAct.ports, DirAct.copy, hd, Copy.step, hs, hn, hsize, hle,
        List.take_take]
    | eof =>
      simp only [Copy.step, Option.ite_none_right_eq_some, Option.some.injEq] at h
      obtain ⟨⟨hs, -⟩, rfl⟩ := h
      exact ⟨.eof, ⟨.stopped, d.taken, d.given⟩, by
        simp [Direction.step, DirAct.ports, DirAct.copy, hd, Copy.step, hs], rfl⟩
    | stop =>
      simp only [Copy.step, Option.ite_none_right_eq_some, Option.some.injEq] at h
      obtain ⟨hs, rfl⟩ := h
      exact ⟨.stop, ⟨.stopped, d.taken, d.given⟩, by
        simp [Direction.step, DirAct.ports, DirAct.copy, hd, Copy.step, hs], rfl⟩
    | fail =>
      simp only [Copy.step, Option.ite_none_right_eq_some, Option.some.injEq] at h
      obtain ⟨hs, rfl⟩ := h
      exact ⟨.fail, ⟨.stopped, d.taken, d.given⟩, by
        simp [Direction.step, DirAct.ports, DirAct.copy, hd, Copy.step, hs], rfl⟩
    | write n => cases h
  | writing left =>
    rw [hd] at h
    cases a with
    | write n =>
      simp only [Copy.step, Option.ite_none_right_eq_some, Option.some.injEq] at h
      obtain ⟨⟨hn, hle, -⟩, rfl⟩ := h
      refine ⟨.write n, ⟨if n = left.length then .reading else .writing (left.drop n), d.taken,
        d.given ++ left.take n⟩, ?_, rfl⟩
      simp [Direction.step, DirAct.ports, DirAct.copy, hd, Copy.step, hn, hle]
    | fail =>
      simp only [Copy.step, Option.some.injEq] at h
      subst h
      exact ⟨.fail, ⟨.stopped, d.taken, d.given⟩, by
        simp [Direction.step, DirAct.ports, DirAct.copy, hd, Copy.step], rfl⟩
    | read n | eof | stop => cases h
  | stopped =>
    rw [hd] at h
    cases a <;> cases h

theorem Bridge.settle_seen (b : Bridge) (old new : Copy Byte) :
    (b.settle old new).cancelledAt =
      (b.cancelledAt <|> if new.isStopped then some b.now else none) ∧
    (b.settle old new).now = b.now ∧ (b.settle old new).external = b.external ∧
    (b.settle old new).upgrade = b.upgrade := by
  by_cases hw : old.held ≠ [] ∧ new = .reading
  · simp [Bridge.settle, hw, Copy.isStopped]
  · cases hn : new.isStopped <;> simp [Bridge.settle, hw, hn, Bridge.cancelToken]

theorem Tls.step_seen (S : Serde) (a : TlsAct) (hb : s.Seen b) (h : s.step S a = some s') :
    ∃ as b', exec Bridge.step b as = some b' ∧ s'.Seen b' := by
  cases a with
  | ends a =>
    simp only [Tls.step, Option.map_eq_some_iff] at h
    obtain ⟨e, -, rfl⟩ := h
    exact ⟨[], b, rfl, hb.dir1, hb.dir2, hb.token, hb.torn, hb.clock, hb.quiet⟩
  | tick =>
    simp only [Tls.step, Option.some.injEq] at h
    subst h
    by_cases ht : s.tornDown = false
    · refine ⟨[.elapse 1 b.nowUnixMs], { b with now := b.now + 1 }, ?_, hb.dir1, hb.dir2, hb.token,
        hb.torn, fun _ => by simp [hb.clock ht], hb.quiet⟩
      simp [exec, Bridge.step, hb.open ht, Bridge.move]
    · exact ⟨[], b, rfl, hb.dir1, hb.dir2, hb.token, hb.torn, fun hf => absurd hf ht, hb.quiet⟩
  | grace =>
    simp only [Tls.step, Option.bind_eq_some_iff, Option.ite_none_right_eq_some,
      Option.some.injEq] at h
    obtain ⟨n, hn, ⟨hle, ht⟩, rfl⟩ := h
    refine ⟨[.grace], { b with tornDown := true }, ?_, hb.dir1, hb.dir2, hb.token, rfl, by simp,
      hb.quiet⟩
    simp [exec, Bridge.step, hb.open ht, Bridge.move, hb.token, hn, hb.clock ht, hle]
  | dir1 a =>
    simp only [Tls.step, Option.ite_none_right_eq_some, Option.map_eq_some_iff] at h
    obtain ⟨⟨-, ht⟩, m, hm, rfl⟩ := h
    rw [← hb.dir1] at hm
    obtain ⟨a', d', hd', hloop⟩ := b.dir1.step_follows _ a m hm
    have hstop : (s.ends.upPorts s.cancelledAt.isSome).stop = b.cancelledAt.isSome := by
      rw [hb.token]
      rfl
    rw [hstop] at hd'
    obtain ⟨h1, h2, htorn⟩ := Bridge.settle_dirs { b with dir1 := d' } b.dir1.loop d'.loop
    obtain ⟨htok, hnow, hext, hup⟩ := Bridge.settle_seen { b with dir1 := d' } b.dir1.loop d'.loop
    refine ⟨[.dir1 a'], { b with dir1 := d' }.settle b.dir1.loop d'.loop, ?_, ?_⟩
    · simp [exec, Bridge.step, hb.open ht, Bridge.move, hd']
    · refine ⟨by rw [h1]; exact hloop, by rw [h2]; exact hb.dir2, ?_, htorn.trans hb.torn,
        fun _ => hnow.trans (hb.clock ht), hext.trans hb.quiet.1, hup.trans hb.quiet.2⟩
      rw [htok, hloop]
      simp only [Tls.token, hb.token, hb.clock ht]
  | dir2 a =>
    simp only [Tls.step, Option.ite_none_right_eq_some, Option.map_eq_some_iff] at h
    obtain ⟨⟨-, ht⟩, m, hm, rfl⟩ := h
    rw [← hb.dir2] at hm
    obtain ⟨a', d', hd', hloop⟩ := b.dir2.step_follows _ a m hm
    have hstop : (s.ends.downPorts s.cancelledAt.isSome).stop = b.cancelledAt.isSome := by
      rw [hb.token]
      rfl
    rw [hstop] at hd'
    obtain ⟨h1, h2, htorn⟩ := Bridge.settle_dirs { b with dir2 := d' } b.dir2.loop d'.loop
    obtain ⟨htok, hnow, hext, hup⟩ := Bridge.settle_seen { b with dir2 := d' } b.dir2.loop d'.loop
    refine ⟨[.dir2 a'], { b with dir2 := d' }.settle b.dir2.loop d'.loop, ?_, ?_⟩
    · simp [exec, Bridge.step, hb.open ht, Bridge.move, hd']
    · refine ⟨by rw [h1]; exact hb.dir1, by rw [h2]; exact hloop, ?_, htorn.trans hb.torn,
        fun _ => hnow.trans (hb.clock ht), hext.trans hb.quiet.1, hup.trans hb.quiet.2⟩
      rw [htok, hloop]
      simp only [Tls.token, hb.token, hb.clock ht]

/-- Every run of the bridge between its ends is one of the bridge on streams. -/
theorem Tls.simulated (S : Serde) (c : AcceptedClient) (input : Bytes) (bufs : Buffers)
    (fd : Handoff.Fd) (now : ℕ) (as : List TlsAct)
    (h : exec (Tls.step S) (bidirectionalWithIdle C S c input bufs fd now) as = some s) :
    ∃ bs b, exec Bridge.step (Bridge.start 0 now now) bs = some b ∧ s.Seen b :=
  exec_simulate (fun _ a _ _ hb ht => Tls.step_seen S a hb ht) _ s _ as
    ⟨rfl, rfl, rfl, rfl, fun _ => rfl, rfl, rfl⟩ h

end Simulation

end FiveNinesEcho.Acceptor
