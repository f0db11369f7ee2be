import FiveNinesEcho.Lib.Directory
import FiveNinesEcho.Lib.Exec
import FiveNinesEcho.Lib.Utf8
import FiveNinesEcho.Metrics.Textfile

/-!
# How the metrics file is put in place (`metrics.rs:361-392`, `supervisor/metrics.rs:34-62`)

The writer fills a file beside the metrics file and renames it, so that a scraper never sees half a
file. The name of the file beside is fixed. A supervisor starts its writer before it reports ready
(`supervisor.rs:668-674`), so while one takes over from another there are two, in two processes, and
they fill the same file.
-/

namespace FiveNinesEcho.Metrics
open Lib

/-! ### The writers -/

def MetricsSnapshot.text (s : MetricsSnapshot) : List UInt8 := utf8 s.render

def tmpName (file : List UInt8) : List UInt8 := file ++ utf8 ".tmp"

theorem tmpName_ne (file : List UInt8) : file ≠ tmpName file := by
  intro h
  have hlen := congrArg List.length h
  simp only [tmpName, List.length_append] at hlen
  have htmp : (utf8 ".tmp").length = 4 := by decide
  omega

/-- The task of a supervisor: not running, asleep or gathering, or in `write_textfile` with its open
file and how much of the text is in it. -/
inductive WriterTask where
  | stopped
  | waiting
  | writing (snapshot : MetricsSnapshot) (file written : ℕ)

/-- The directory of the metrics file and the supervisors; `renamed` are the snapshots that were put
in place. -/
structure Publication where
  dir : Directory (List UInt8)
  tasks : ℕ → WriterTask
  renamed : List MetricsSnapshot

inductive PublicationAct where
  | start (p : ℕ)
  | stop (p : ℕ)
  | create (p : ℕ) (snapshot : MetricsSnapshot)
  | write (p n : ℕ)
  | giveUp (p : ℕ)
  | rename (p : ℕ)

def Publication.set (s : Publication) (p : ℕ) (task : WriterTask) : Publication :=
  { s with tasks := Function.update s.tasks p task }

/-- One move. `stop` is the end of a process, however it comes; `giveUp` is any error of
`write_textfile` once the file is open, after which the task sleeps and tries again. -/
def Publication.step (file : List UInt8) (s : Publication) : PublicationAct → Option Publication
  | .start p => match s.tasks p with
    | .stopped => some (s.set p .waiting)
    | _ => none
  | .stop p => match s.tasks p with
    | .stopped => none
    | _ => some (s.set p .stopped)
  | .create p snapshot => match s.tasks p with
    | .waiting =>
      let (dir, i) := s.dir.create (tmpName file)
      some ({ s with dir := dir }.set p (.writing snapshot i 0))
    | _ => none
  | .write p n => match s.tasks p with
    | .writing snapshot i written =>
      if written + n ≤ snapshot.text.length then
        some ({ s with dir := s.dir.writeAt i written ((snapshot.text.drop written).take n) }.set p
          (.writing snapshot i (written + n)))
      else none
    | _ => none
  | .giveUp p => match s.tasks p with
    | .writing _ _ _ => some (s.set p .waiting)
    | _ => none
  | .rename p => match s.tasks p with
    | .writing snapshot _ written =>
      if written = snapshot.text.length then
        match s.dir.rename (tmpName file) file with
        | none => some (s.set p .waiting)
        | some dir =>
          some ({ s with dir := dir, renamed := s.renamed ++ [snapshot] }.set p .waiting)
      else none
    | _ => none

/-- A supervisor starts only when there is no other: a restart, not a self-upgrade. -/
def Publication.Sole (s : Publication) : PublicationAct → Prop
  | .start _ => ∀ q, s.tasks q = .stopped
  | _ => True

/-! ### One writer at a time -/

/-- What a scraper finds: the last snapshot that was put in place, or what was there before. -/
def lastRenamed (before : Option (List UInt8)) (renamed : List MetricsSnapshot) :
    Option (List UInt8) :=
  (renamed.getLast?.map MetricsSnapshot.text).or before

structure Publication.Inv (file : List UInt8) (before : Option (List UInt8)) (s : Publication) :
    Prop where
  published : s.dir.read file = lastRenamed before s.renamed
  one : ∀ p q, s.tasks p ≠ .stopped → s.tasks q ≠ .stopped → p = q
  filling : ∀ p snapshot i written, s.tasks p = .writing snapshot i written →
    s.dir.names (tmpName file) = some i ∧ s.dir.data i = snapshot.text.take written ∧
      written ≤ snapshot.text.length

section Step
variable {file : List UInt8} {before : Option (List UInt8)} {s t : Publication}

/-- A move of the only task: what it leaves behind is what counts. -/
theorem Publication.Inv.move (hs : s.Inv file before) (p : ℕ) (dir : Directory (List UInt8))
    (renamed : List MetricsSnapshot) (task : WriterTask) (hp : s.tasks p ≠ .stopped)
    (hpub : dir.read file = lastRenamed before renamed)
    (hfill : ∀ snapshot i written, task = .writing snapshot i written →
      dir.names (tmpName file) = some i ∧ dir.data i = snapshot.text.take written ∧
        written ≤ snapshot.text.length) :
    (({ s with dir := dir, renamed := renamed } : Publication).set p task).Inv file before := by
  have hothers : ∀ q, q ≠ p → s.tasks q = .stopped := by
    intro q hq
    by_contra hrun
    exact hq (hs.one q p hrun hp)
  refine ⟨hpub, ?_, ?_⟩
  · intro q q' hq hq'
    have honly : ∀ r, Function.update s.tasks p task r ≠ .stopped → r = p := by
      intro r hr
      by_contra hne
      rw [Function.update_of_ne hne, hothers r hne] at hr
      exact hr rfl
    rw [honly q hq, honly q' hq']
  · intro q snapshot i written hq
    by_cases hqp : q = p
    · subst hqp
      exact hfill snapshot i written (by simpa [Publication.set] using hq)
    · have hstop := hothers q hqp
      simp only [Publication.set, Function.update_of_ne hqp, hstop] at hq
      cases hq

theorem Publication.Inv.start (hs : s.Inv file before) (p : ℕ) (hsole : ∀ q, s.tasks q = .stopped)
    (h : s.step file (.start p) = some t) : t.Inv file before := by
  simp only [Publication.step, hsole p, Option.some.injEq] at h
  subst h
  refine ⟨hs.published, ?_, ?_⟩
  · have honly : ∀ r, Function.update s.tasks p .waiting r ≠ .stopped → r = p := by
      intro r hr
      by_contra hne
      rw [Function.update_of_ne hne, hsole r] at hr
      exact hr rfl
    intro q q' hq hq'
    rw [honly q hq, honly q' hq']
  · intro q snapshot i written hq
    by_cases hqp : q = p
    · subst hqp
      simp [Publication.set] at hq
    · simp only [Publication.set, Function.update_of_ne hqp, hsole q] at hq
      cases hq

theorem Publication.Inv.stop (hs : s.Inv file before) (p : ℕ)
    (h : s.step file (.stop p) = some t) : t.Inv file before := by
  simp only [Publication.step] at h
  split at h
  · cases h
  · next hrun =>
    cases h
    exact hs.move p s.dir s.renamed .stopped hrun hs.published (fun _ _ _ h => by cases h)

theorem Publication.Inv.create (hs : s.Inv file before) (p : ℕ) (snapshot : MetricsSnapshot)
    (h : s.step file (.create p snapshot) = some t) : t.Inv file before := by
  simp only [Publication.step] at h
  split at h
  · next hwait =>
    cases h
    refine hs.move p _ s.renamed _ (by rw [hwait]; simp) ?_ ?_
    · rw [Directory.create_read_of_ne _ (tmpName_ne file)]
      exact hs.published
    · intro snapshot' i written heq
      cases heq
      refine ⟨Directory.create_names _ _, ?_, Nat.zero_le _⟩
      rw [Directory.create_data, List.take_zero]
  · cases h

theorem Publication.Inv.write (hs : s.Inv file before) (p n : ℕ)
    (h : s.step file (.write p n) = some t) : t.Inv file before := by
  simp only [Publication.step] at h
  split at h
  · next snapshot i written hw =>
    obtain ⟨hname, hdata, hle⟩ := hs.filling p snapshot i written hw
    simp only [Option.ite_none_right_eq_some, Option.some.injEq] at h
    obtain ⟨hroom, rfl⟩ := h
    refine hs.move p _ s.renamed _ (by rw [hw]; simp) ?_ ?_
    · rw [Directory.writeAt_read_of_ne]
      · exact hs.published
      · intro hfile
        exact tmpName_ne file (s.dir.distinct _ _ i hfile hname)
    · intro snapshot' i' written' heq
      cases heq
      refine ⟨hname, ?_, hroom⟩
      simp only [Directory.writeAt, Function.update_self, hdata, Directory.overwrite_take _ hle]
  · cases h

theorem Publication.Inv.giveUp (hs : s.Inv file before) (p : ℕ)
    (h : s.step file (.giveUp p) = some t) : t.Inv file before := by
  simp only [Publication.step] at h
  split at h
  · next hw =>
    cases h
    exact hs.move p s.dir s.renamed .waiting (by rw [hw]; simp) hs.published
      (fun _ _ _ h => by cases h)
  · cases h

theorem Publication.Inv.rename (hs : s.Inv file before) (p : ℕ)
    (h : s.step file (.rename p) = some t) : t.Inv file before := by
  simp only [Publication.step] at h
  split at h
  · next snapshot i written hw =>
    obtain ⟨hname, hdata, -⟩ := hs.filling p snapshot i written hw
    simp only [Option.ite_none_right_eq_some] at h
    obtain ⟨hall, h⟩ := h
    obtain ⟨dir, hdir, -, -, hread⟩ := Directory.rename_some hname file
    rw [hdir] at h
    cases h
    refine hs.move p dir _ .waiting (by rw [hw]; simp) ?_ (fun _ _ _ h => by cases h)
    rw [hread, hdata, hall, List.take_length, lastRenamed, List.getLast?_concat]
    rfl
  · cases h

theorem Publication.Inv.step (hs : s.Inv file before) (a : PublicationAct) (hsole : s.Sole a)
    (h : s.step file a = some t) : t.Inv file before := by
  cases a with
  | start p => exact hs.start p hsole h
  | stop p => exact hs.stop p h
  | create p snapshot => exact hs.create p snapshot h
  | write p n => exact hs.write p n h
  | giveUp p => exact hs.giveUp p h
  | rename p => exact hs.rename p h

theorem Publication.Inv.run (hs : s.Inv file before) (as : List PublicationAct)
    (hsole : Along (Publication.step file) Publication.Sole s as)
    (h : exec (Publication.step file) s as = some t) : t.Inv file before :=
  exec_along (fun _ a _ hs ha ht => hs.step a ha ht) s t as hs hsole h

end Step

/-- A tick in which no call fails. -/
def tick (p : ℕ) (snapshot : MetricsSnapshot) : List PublicationAct :=
  [.create p snapshot, .write p snapshot.text.length, .rename p]

theorem tick_publishes (file : List UInt8) {s : Publication} {p : ℕ} (hp : s.tasks p = .waiting)
    (snapshot : MetricsSnapshot) :
    ∃ t, exec (Publication.step file) s (tick p snapshot) = some t ∧
      t.renamed = s.renamed ++ [snapshot] := by
  obtain ⟨d₁, i, hcreate⟩ : ∃ d i, s.dir.create (tmpName file) = (d, i) := ⟨_, _, rfl⟩
  have hname : d₁.names (tmpName file) = some i := by
    have hnames := s.dir.create_names (tmpName file)
    rwa [hcreate] at hnames
  obtain ⟨d₂, hd₂⟩ : ∃ d, d = d₁.writeAt i 0 snapshot.text := ⟨_, rfl⟩
  obtain ⟨d₃, hrename, -⟩ := Directory.rename_some (d := d₂) (by rw [hd₂]; exact hname) file
  refine ⟨⟨d₃, Function.update s.tasks p .waiting, s.renamed ++ [snapshot]⟩, ?_, rfl⟩
  simp only [tick, exec, Publication.step, Publication.set, hp, Function.update_self, hcreate,
    Nat.zero_add, Nat.le_refl, if_true, List.drop_zero, List.take_length, ← hd₂, hrename,
    Function.update_idem]

/-- As long as supervisors only follow one another, a scraper finds at any moment the whole text of
the snapshot that was put in place last, or what it would have found at first: whatever a supervisor
was doing when it died, and whatever it left beside the file. And the next tick without an error
puts its snapshot in place. -/
theorem scrapers_see_whole_snapshots (file : List UInt8) (s t : Publication)
    (as : List PublicationAct) (hrest : ∀ p, s.tasks p = .stopped) (hnone : s.renamed = [])
    (hsole : Along (Publication.step file) Publication.Sole s as)
    (h : exec (Publication.step file) s as = some t) :
    t.dir.read file = lastRenamed (s.dir.read file) t.renamed ∧
    ∀ p snapshot, t.tasks p = .waiting →
      ∃ u, exec (Publication.step file) t (tick p snapshot) = some u ∧
        u.dir.read file = some snapshot.text := by
  have hstart : s.Inv file (s.dir.read file) := by
    refine ⟨by rw [hnone]; rfl, ?_, ?_⟩
    · intro p q hp
      exact absurd (hrest p) hp
    · intro p snapshot i written hp
      rw [hrest p] at hp
      cases hp
  have hend := hstart.run as hsole h
  refine ⟨hend.published, fun p snapshot hp => ?_⟩
  obtain ⟨u, hu, hrenamed⟩ := tick_publishes file hp snapshot
  have hnext := hend.run (tick p snapshot)
    ⟨trivial, fun _ _ => ⟨trivial, fun _ _ => ⟨trivial, fun _ _ => trivial⟩⟩⟩ hu
  refine ⟨u, hu, ?_⟩
  rw [hnext.published, hrenamed, lastRenamed, List.getLast?_concat]
  rfl

def emptyDirectory : Directory (List UInt8) where
  names _ := none
  data _ := []
  fresh := 0
  named _ _ h := by cases h
  distinct _ _ _ h := by cases h

def emptySnapshot : MetricsSnapshot := ⟨0, 0, [], []⟩

/-- A supervisor dies with its file open, and the next one starts. -/
def restartedWriter : List PublicationAct := [.start 1, .create 1 emptySnapshot, .stop 1, .start 2]

theorem scrapers_see_restarted :
    ∃ t u, exec (Publication.step (utf8 "m.prom")) ⟨emptyDirectory, fun _ => .stopped, []⟩
        restartedWriter = some t ∧
      exec (Publication.step (utf8 "m.prom")) t (tick 2 emptySnapshot) = some u ∧
      t.dir.read (utf8 "m.prom") = none ∧
      u.dir.read (utf8 "m.prom") = some emptySnapshot.text := by
  obtain ⟨t, ht⟩ : ∃ t, exec (Publication.step (utf8 "m.prom"))
      ⟨emptyDirectory, fun _ => .stopped, []⟩ restartedWriter = some t := ⟨_, rfl⟩
  have hseen := scrapers_see_whole_snapshots (utf8 "m.prom") _ t restartedWriter (fun _ => rfl) rfl
    ?_ ht
  · cases ht
    obtain ⟨u, hu, hread⟩ := hseen.2 2 emptySnapshot rfl
    exact ⟨_, u, rfl, hu, hseen.1, hread⟩
  · refine ⟨fun _ => rfl, fun s₁ h₁ => ⟨trivial, fun s₂ h₂ => ⟨trivial, fun s₃ h₃ =>
      ⟨fun q => ?_, fun _ _ => trivial⟩⟩⟩⟩
    cases h₁
    cases h₂
    cases h₃
    simp [Publication.set]

/-! ### Two writers -/

section Overlap
variable {file : List UInt8} {s : Publication} {p q : ℕ}

/-- The old supervisor has filled the file beside, the new one opens it again and has come as far
as `n`, and the old one puts that in place. -/
def overlap (p q : ℕ) (a b : MetricsSnapshot) (n : ℕ) : List PublicationAct :=
  [.start q, .create p a, .write p a.text.length, .create q b, .write q n, .rename p]

/-- While a supervisor takes over from another, the whole of the file that the old one has written
may be replaced by any front part of the new one's, in place for every scraper to see: no call of
either of them fails, and the rename is of a snapshot that was written to the end. -/
theorem self_upgrade_exposes_any_front (hp : s.tasks p = .waiting) (hq : s.tasks q = .stopped)
    (a b : MetricsSnapshot) (n : ℕ) (hn : n ≤ b.text.length) :
    ∃ t, exec (Publication.step file) s (overlap p q a b n) = some t ∧
      t.renamed = s.renamed ++ [a] ∧ t.dir.read file = some (b.text.take n) := by
  have hpq : p ≠ q := by
    rintro rfl
    rw [hp] at hq
    cases hq
  obtain ⟨d₁, i, hcreate⟩ : ∃ d i, s.dir.create (tmpName file) = (d, i) := ⟨_, _, rfl⟩
  have hname₁ : d₁.names (tmpName file) = some i := by
    have hnames := s.dir.create_names (tmpName file)
    rwa [hcreate] at hnames
  have hdata₁ : d₁.data i = [] := by
    have hdata := s.dir.create_data (tmpName file)
    rwa [hcreate] at hdata
  -- the old one's text is complete
  obtain ⟨d₂, hd₂⟩ : ∃ d, d = d₁.writeAt i 0 a.text := ⟨_, rfl⟩
  have hname₂ : d₂.names (tmpName file) = some i := by
    rw [hd₂]
    exact hname₁
  -- the same file is emptied
  obtain ⟨d₃, hcreate₃⟩ : ∃ d, d₂.create (tmpName file) = (d, i) :=
    ⟨_, Prod.ext rfl (Directory.create_existing hname₂)⟩
  have hname₃ : d₃.names (tmpName file) = some i := by
    have hnames := d₂.create_names (tmpName file)
    rwa [hcreate₃] at hnames
  have hdata₃ : d₃.data i = [] := by
    have hdata := d₂.create_data (tmpName file)
    rwa [hcreate₃] at hdata
  obtain ⟨d₄, hd₄⟩ : ∃ d, d = d₃.writeAt i 0 (b.text.take n) := ⟨_, rfl⟩
  have hname₄ : d₄.names (tmpName file) = some i := by
    rw [hd₄]
    exact hname₃
  have hdata₄ : d₄.data i = b.text.take n := by
    have hover := Directory.overwrite_take b.text (Nat.zero_le _) n
    simp only [List.take_zero, List.drop_zero, Nat.zero_add] at hover
    simp only [hd₄, Directory.writeAt, Function.update_self, hdata₃, hover]
  obtain ⟨d₅, hrename, -, -, hread⟩ := Directory.rename_some hname₄ file
  rw [hdata₄] at hread
  refine ⟨⟨d₅, Function.update (Function.update s.tasks q (.writing b i n)) p .waiting,
    s.renamed ++ [a]⟩, ?_, rfl, hread⟩
  have hqp := hpq.symm
  have hfull : a.text.take a.text.length = a.text := List.take_length
  simp only [overlap, exec, Publication.step, Publication.set, hq, hp, Function.update_self,
    Function.update_of_ne hpq, hcreate, Nat.zero_add, Nat.le_refl,
    if_true, List.drop_zero, hfull, ← hd₂, hcreate₃, hn, ← hd₄, hrename, Function.update_comm hqp,
    Function.update_idem]

end Overlap

/-- The scraper finds an empty file. -/
theorem self_upgrade_exposes_nothing :
    ∃ t, exec (Publication.step (utf8 "m.prom"))
        ⟨emptyDirectory, fun p => if p = 1 then .waiting else .stopped, []⟩
        (overlap 1 2 emptySnapshot emptySnapshot 0) = some t ∧
      t.renamed = [emptySnapshot] ∧ t.dir.read (utf8 "m.prom") = some [] :=
  self_upgrade_exposes_any_front rfl rfl emptySnapshot emptySnapshot 0 (Nat.zero_le _)

end FiveNinesEcho.Metrics
