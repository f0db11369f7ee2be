import FiveNinesEcho.Lib.Descriptors
import FiveNinesEcho.Supervisor.SelfUpgrade

/-!
# The listeners of a supervisor (`systemd.rs:25-110`, `supervisor/listeners.rs`,
`supervisor.rs:168-302`)

Eleven sockets, each taken from systemd by its name, from the environment of a self-upgrade, or
bound, in this order of preference. A descriptor of systemd's that no socket has claimed when the
last one is open is closed.
-/

namespace FiveNinesEcho.Supervisor
open Lib Handoff

/-! ### The process environment -/

/-- `env::var`: the first entry of the name, if its value is text. -/
def envVar (environ : List CString) (key : String) : Option String :=
  ((varsOs environ).find? fun var => var.1 == utf8 key).bind fun var => (intoString var.2).toOption

/-- `env::remove_var`. -/
def removeVar (environ : List CString) (key : String) : List CString :=
  environ.filter fun e => (readVar e.bytes).all fun var => var.1 != utf8 key

/-! ### Socket activation -/

structure SdListeners where
  inner : List (String × RawFd)

def sdListenFdsStart : ℕ := 3

/-- `i32` addition as a release build has it. -/
def RawFd.wrap (z : ℤ) : RawFd := ⟨Int.bmod z (2 ^ 32), by
  have hlo := @Int.le_bmod z (2 ^ 32) (by decide)
  have hhi := @Int.bmod_lt z (2 ^ 32) (by decide)
  norm_num at hlo hhi ⊢
  omega⟩

def SdListeners.empty : SdListeners := ⟨[]⟩

/-- The entry for the `i`-th descriptor; a name that is missing reads `unknown`. -/
def SdListeners.entry (names : List String) (i : ℕ) : String × RawFd :=
  (names.getD i "unknown", RawFd.wrap (sdListenFdsStart + i))

def listenFdNames (environ : List CString) : List String :=
  let namesEnv := (envVar environ "LISTEN_FDNAMES").getD ""
  if namesEnv = "" then [] else (namesEnv.toList.splitOn ':').map String.ofList

/-- The listeners, and the environment the process goes on with. -/
def SdListeners.fromEnv (pid : Pid) (environ : List CString) :
    Except Error (SdListeners × List CString) :=
  match envVar environ "LISTEN_PID" with
  | none => .ok (empty, environ)
  | some s => match parseUnsigned (2 ^ 32) s with
    | none => .error ["parse LISTEN_PID"]
    | some listenPid =>
      if listenPid ≠ pid then .ok (empty, environ)
      else match envVar environ "LISTEN_FDS" with
        | none => .ok (empty, environ)
        | some s => match RawFd.parse s with
          | none => .error ["parse LISTEN_FDS"]
          | some count =>
            if count.1 ≤ 0 then .ok (empty, environ)
            else .ok (⟨(List.range count.1.toNat).map (entry (listenFdNames environ))⟩,
              removeVar (removeVar (removeVar environ "LISTEN_PID") "LISTEN_FDS") "LISTEN_FDNAMES")

def SdListeners.takeByName (sd : SdListeners) (name : String) : Option RawFd × SdListeners :=
  match sd.inner.find? (·.1 == name) with
  | none => (none, sd)
  | some e => (some e.2, ⟨sd.inner.eraseP (·.1 == name)⟩)

/-! ### The sockets -/

inductive Slot where
  | admin
  | ctrlProcessor
  | ctrlPlain
  | ctrlTls
  | ctrlScanner
  | drainer
  | spawner
  | processor
  | scanner
  | plain
  | tls
  deriving Repr, DecidableEq

def Slot.envKey : Slot → String
  | .admin => "FDPASS_CTRL_ADMIN_FD"
  | .ctrlProcessor => "FDPASS_CTRL_PROCESSOR_FD"
  | .ctrlPlain => "FDPASS_CTRL_PLAIN_FD"
  | .ctrlTls => "FDPASS_CTRL_TLS_FD"
  | .ctrlScanner => "FDPASS_CTRL_SCANNER_FD"
  | .drainer => "FDPASS_CTRL_DRAINER_FD"
  | .spawner => "FDPASS_CTRL_SPAWNER_FD"
  | .processor => "FDPASS_LISTENER_PROCESSOR_FD"
  | .scanner => "FDPASS_LISTENER_SCANNER_FD"
  | .plain => "FDPASS_LISTENER_PLAIN_FD"
  | .tls => "FDPASS_LISTENER_TLS_FD"

def Slot.sdName : Slot → String
  | .admin => "admin"
  | .ctrlProcessor => "ctrl-processor"
  | .ctrlPlain => "ctrl-plain"
  | .ctrlTls => "ctrl-tls"
  | .ctrlScanner => "ctrl-scanner"
  | .drainer => "drainer"
  | .spawner => "spawner"
  | .processor => "processor"
  | .scanner => "scanner"
  | .plain => "plain"
  | .tls => "tls"

theorem Slot.sdName_injective : Function.Injective Slot.sdName := by
  intro a b h
  cases a <;> cases b <;> first | rfl | exact absurd h (by decide)

theorem Slot.envKey_injective : Function.Injective Slot.envKey := by
  intro a b h
  cases a <;> cases b <;> first | rfl | exact absurd h (by decide)

/-- `ControlFds` (`self_upgrade.rs:41-53`). -/
abbrev ControlFds := Slot → RawFd

/-- What the operating system answers while the sockets are opened. -/
structure OpenEnv (F : Type) where
  setNonblocking : Slot → Option String
  fromStd : Slot → Option String
  bind : Slot → Except String (RawFd × F)
  setPermissions : Slot → Option String

/-- A start in progress: what systemd has left, the descriptors, and the socket files removed. -/
structure Opening (F : Type) where
  sd : SdListeners
  fds : Descriptors F
  unlinked : List Slot

section Open
variable {F : Type} (env : OpenEnv F) (address : Slot → String) (environ : List CString)
  (isUpgrade : Bool)

/-- `with_context(..)?` on a call of the operating system. -/
def orFail (contexts : List String) : Option String → Except Error Unit
  | none => .ok ()
  | some e => .error (contexts ++ [e])

/-- A listener of systemd's, or else the one the environment names. -/
def inheritedFd (slot : Slot) (o : Opening F) : Except Error (Option RawFd × Opening F) :=
  match o.sd.takeByName slot.sdName with
  | (some fd, sd) => .ok (some fd, { o with sd := sd })
  | (none, _) => match envVar environ slot.envKey with
    | none => .ok (none, o)
    | some s => match RawFd.parse s with
      | none => .error [slot.envKey]
      | some fd => .ok (some fd, o)

def Opening.bound (o : Opening F) (fd : RawFd) (f : F) : Opening F :=
  { o with fds := o.fds.opened fd f true }

def Opening.unlink (o : Opening F) (slot : Slot) : Opening F :=
  { o with unlinked := o.unlinked ++ [slot] }

def bindTo (slot : Slot) (o : Opening F) : Except Error (RawFd × Opening F) :=
  match env.bind slot with
  | .ok (fd, f) => .ok (fd, o.bound fd f)
  | .error e => .error ["bind " ++ address slot, e]

/-- The supervisor accepts on these itself. -/
def adoptOrBindControl (slot : Slot) (o : Opening F) : Except Error (RawFd × Opening F) := do
  match ← inheritedFd environ slot o with
  | (some fd, o) =>
    orFail [] (env.setNonblocking slot)
    orFail [] (env.fromStd slot)
    return (fd, o)
  | (none, o) => bindTo env address slot (if isUpgrade then o else o.unlink slot)

/-- Those of the workers it only keeps. -/
def adoptOrBindUdsWorker (slot : Slot) (o : Opening F) : Except Error (RawFd × Opening F) := do
  match ← inheritedFd environ slot o with
  | (some fd, o) => return (fd, o)
  | (none, o) =>
    let (fd, o) ← bindTo env address slot (if isUpgrade then o else o.unlink slot)
    orFail [] (env.setPermissions slot)
    return (fd, o)

def adoptOrBindTcpWorker (slot : Slot) (o : Opening F) : Except Error (RawFd × Opening F) := do
  match ← inheritedFd environ slot o with
  | (some fd, o) => return (fd, o)
  | (none, o) => bindTo env address slot o

def openSlot (slot : Slot) (o : Opening F) : Except Error (RawFd × Opening F) :=
  match slot with
  | .processor | .scanner => adoptOrBindUdsWorker env address environ isUpgrade slot o
  | .plain | .tls => adoptOrBindTcpWorker env address environ slot o
  | _ => adoptOrBindControl env address environ isUpgrade slot o

/-- The order of `open_supervisor_listeners` and `open_worker_listener_fds`. -/
def openOrder : List Slot :=
  [.admin, .ctrlProcessor, .ctrlPlain, .ctrlTls, .ctrlScanner, .drainer, .spawner, .processor,
    .scanner, .plain, .tls]

def openSlots : List Slot → ControlFds → Opening F → Except Error (ControlFds × Opening F)
  | [], ctl, o => .ok (ctl, o)
  | slot :: slots, ctl, o => do
    let (fd, o) ← openSlot env address environ isUpgrade slot o
    openSlots slots (Function.update ctl slot fd) o

end Open

/-- The descriptors left unclaimed are dropped with the handle. -/
def SdListeners.dropped {F : Type} (sd : SdListeners) (t : Descriptors F) : Descriptors F :=
  sd.inner.foldl (fun t e => t.closed e.2) t

/-- A supervisor with its sockets open. -/
structure Listening (F : Type) where
  environ : List CString
  ctl : ControlFds
  fds : Descriptors F
  unlinked : List Slot

def openSupervisorListeners {F : Type} (env : OpenEnv F) (address : Slot → String) (pid : Pid)
    (environ : List CString) (isUpgrade : Bool) (fds : Descriptors F) :
    Except Error (Listening F) := do
  let (sd, environ) ← match SdListeners.fromEnv pid environ with
    | .ok r => Except.ok r
    | .error e => .error ("read systemd listeners" :: e)
  let (ctl, o) ← openSlots env address environ isUpgrade openOrder
    (fun _ => RawFd.ofNat 0 (by decide)) ⟨sd, fds, []⟩
  return ⟨environ, ctl, o.sd.dropped o.fds, o.unlinked⟩

/-! ### What one socket takes -/

theorem SdListeners.takeByName_some {sd sd' : SdListeners} {name : String} {fd : RawFd}
    (h : sd.takeByName name = (some fd, sd')) :
    ∃ e, sd.inner.find? (·.1 == name) = some e ∧ fd = e.2 ∧
      sd'.inner = sd.inner.eraseP (·.1 == name) := by
  unfold SdListeners.takeByName at h
  split at h
  · cases h
  · next e he =>
    cases h
    exact ⟨e, he, rfl, rfl⟩

theorem SdListeners.takeByName_none {sd sd' : SdListeners} {name : String}
    (h : sd.takeByName name = (none, sd')) : sd.inner.find? (·.1 == name) = none := by
  unfold SdListeners.takeByName at h
  split at h
  · next he => exact he
  · cases h

/-- How a socket came by its descriptor, and what that did to the start. -/
inductive Took {F : Type} (env : OpenEnv F) (environ : List CString) (slot : Slot) (o : Opening F)
    (fd : RawFd) (o' : Opening F) : Prop where
  | systemd (e : String × RawFd) (he : o.sd.inner.find? (·.1 == slot.sdName) = some e)
      (hfd : fd = e.2) (hsd : o'.sd.inner = o.sd.inner.eraseP (·.1 == slot.sdName))
      (hfds : o'.fds = o.fds) (hun : o'.unlinked = o.unlinked)
  | environment (s : String) (hnone : o.sd.inner.find? (·.1 == slot.sdName) = none)
      (hvar : envVar environ slot.envKey = some s) (hfd : RawFd.parse s = some fd) (ho : o' = o)
  | bound (f : F) (hnone : o.sd.inner.find? (·.1 == slot.sdName) = none)
      (hvar : envVar environ slot.envKey = none) (hbind : env.bind slot = .ok (fd, f))
      (hsd : o'.sd = o.sd) (hfds : o'.fds = o.fds.opened fd f true)

section Open
variable {F : Type} {env : OpenEnv F} {address : Slot → String} {environ : List CString}
  {isUpgrade : Bool} {slot : Slot} {o o' : Opening F} {fd : RawFd}

theorem inheritedFd_some (h : inheritedFd environ slot o = .ok (some fd, o')) :
    Took env environ slot o fd o' := by
  unfold inheritedFd at h
  split at h
  · next fd' sd hsd =>
    cases h
    obtain ⟨e, he, rfl, hrest⟩ := SdListeners.takeByName_some hsd
    exact .systemd e he rfl hrest rfl rfl
  · next hsd =>
    split at h
    · cases h
    · next s hs =>
      split at h
      · cases h
      · next hp =>
        cases h
        exact .environment s (SdListeners.takeByName_none hsd) hs hp rfl

theorem inheritedFd_none (h : inheritedFd environ slot o = .ok (none, o')) :
    o' = o ∧ o.sd.inner.find? (·.1 == slot.sdName) = none ∧ envVar environ slot.envKey = none := by
  unfold inheritedFd at h
  split at h
  · cases h
  · next hsd =>
    split at h
    · next hs =>
      cases h
      exact ⟨rfl, SdListeners.takeByName_none hsd, hs⟩
    · split at h <;> cases h

theorem bindTo_ok (h : bindTo env address slot o = .ok (fd, o')) :
    ∃ f, env.bind slot = .ok (fd, f) ∧ o' = o.bound fd f := by
  unfold bindTo at h
  split at h
  · next f hf =>
    cases h
    exact ⟨f, hf, rfl⟩
  · cases h

/-- A socket bound by whoever found nothing to inherit. -/
theorem took_bound {o₁ : Opening F} (hnone : inheritedFd environ slot o = .ok (none, o'))
    (hsame : o₁.sd = o'.sd ∧ o₁.fds = o'.fds) {o₂ : Opening F}
    (h : bindTo env address slot o₁ = .ok (fd, o₂)) : Took env environ slot o fd o₂ := by
  obtain ⟨rfl, hsd, hvar⟩ := inheritedFd_none hnone
  obtain ⟨f, hf, rfl⟩ := bindTo_ok h
  exact .bound f hsd hvar hf hsame.1 (by rw [Opening.bound, hsame.2])

theorem unlink_same (b : Bool) : (if b then o else o.unlink slot).sd = o.sd ∧
    (if b then o else o.unlink slot).fds = o.fds := by
  cases b <;> exact ⟨rfl, rfl⟩

theorem adoptOrBindControl_took
    (h : adoptOrBindControl env address environ isUpgrade slot o = .ok (fd, o')) :
    Took env environ slot o fd o' := by
  unfold adoptOrBindControl at h
  cases hi : inheritedFd environ slot o with
  | error e => simp [hi, bind, Except.bind] at h
  | ok r =>
    obtain ⟨fd?, o₁⟩ := r
    cases fd? with
    | some fd₁ =>
      simp only [hi, bind, Except.bind, pure, Except.pure] at h
      split at h
      · cases h
      · split at h
        · cases h
        · cases h
          exact inheritedFd_some hi
    | none =>
      simp only [hi, bind, Except.bind] at h
      exact took_bound hi (unlink_same isUpgrade) h

theorem adoptOrBindUdsWorker_took
    (h : adoptOrBindUdsWorker env address environ isUpgrade slot o = .ok (fd, o')) :
    Took env environ slot o fd o' := by
  unfold adoptOrBindUdsWorker at h
  cases hi : inheritedFd environ slot o with
  | error e => simp [hi, bind, Except.bind] at h
  | ok r =>
    obtain ⟨fd?, o₁⟩ := r
    cases fd? with
    | some fd₁ =>
      simp only [hi, bind, Except.bind, pure, Except.pure, Except.ok.injEq, Prod.mk.injEq] at h
      obtain ⟨rfl, rfl⟩ := h
      exact inheritedFd_some hi
    | none =>
      simp only [hi, bind, Except.bind, pure, Except.pure] at h
      split at h
      · cases h
      · next r hb =>
        split at h
        · cases h
        · cases h
          exact took_bound hi (unlink_same isUpgrade) hb

theorem adoptOrBindTcpWorker_took
    (h : adoptOrBindTcpWorker env address environ slot o = .ok (fd, o')) :
    Took env environ slot o fd o' := by
  unfold adoptOrBindTcpWorker at h
  cases hi : inheritedFd environ slot o with
  | error e => simp [hi, bind, Except.bind] at h
  | ok r =>
    obtain ⟨fd?, o₁⟩ := r
    cases fd? with
    | some fd₁ =>
      simp only [hi, bind, Except.bind, pure, Except.pure, Except.ok.injEq, Prod.mk.injEq] at h
      obtain ⟨rfl, rfl⟩ := h
      exact inheritedFd_some hi
    | none =>
      simp only [hi, bind, Except.bind] at h
      exact took_bound hi ⟨rfl, rfl⟩ h

theorem openSlot_took (h : openSlot env address environ isUpgrade slot o = .ok (fd, o')) :
    Took env environ slot o fd o' := by
  cases slot with
  | processor | scanner => exact adoptOrBindUdsWorker_took h
  | plain | tls => exact adoptOrBindTcpWorker_took h
  | _ => exact adoptOrBindControl_took h

end Open

/-! ### Who gets what of systemd's -/

theorem find?_eraseP_of_ne {β : Type} (l : List (String × β)) {m n : String} (h : m ≠ n) :
    (l.eraseP (·.1 == m)).find? (·.1 == n) = l.find? (·.1 == n) := by
  induction l with
  | nil => rfl
  | cons e l ih =>
    by_cases hm : e.1 = m
    · have hn : ¬ e.1 = n := fun hn => h (hm.symm.trans hn)
      simp [hm, h]
    · simp only [List.eraseP_cons, beq_eq_false_iff_ne.mpr hm, cond_false, List.find?_cons, ih]

/-- Of entries that are all different, the first of a name is the one that is gone. -/
theorem mem_eraseP_iff {β : Type} {l : List (String × β)} (hl : l.Nodup) (m : String)
    (e : String × β) : e ∈ l.eraseP (·.1 == m) ↔ e ∈ l ∧ l.find? (·.1 == m) ≠ some e := by
  induction l with
  | nil => simp
  | cons a l ih =>
    obtain ⟨ha, hl⟩ := List.nodup_cons.mp hl
    by_cases hm : a.1 = m
    · simp only [List.eraseP_cons, hm, beq_self_eq_true, List.find?_cons, List.mem_cons]
      constructor
      · intro he
        refine ⟨Or.inr he, ?_⟩
        rintro heq
        cases heq
        exact ha he
      · rintro ⟨rfl | he, hne⟩
        · exact absurd rfl hne
        · exact he
    · simp only [List.eraseP_cons, beq_eq_false_iff_ne.mpr hm, cond_false, List.find?_cons,
        List.mem_cons, ih hl]
      constructor
      · rintro (rfl | ⟨he, hne⟩)
        · refine ⟨Or.inl rfl, fun heq => ?_⟩
          have hfound := List.find?_some heq
          exact hm (by simpa using hfound)
        · exact ⟨Or.inr he, hne⟩
      · rintro ⟨rfl | he, hne⟩
        · exact Or.inl rfl
        · exact Or.inr ⟨he, hne⟩

/-- The entries no socket of `slots` asked for first. -/
def SdListeners.left (sd : SdListeners) (slots : List Slot) : List (String × RawFd) :=
  slots.foldl (fun l slot => l.eraseP (·.1 == slot.sdName)) sd.inner

theorem left_iff (l : List (String × RawFd)) (hl : l.Nodup) (slots : List Slot)
    (hslots : slots.Nodup) (e : String × RawFd) :
    e ∈ slots.foldl (fun l slot => l.eraseP (·.1 == slot.sdName)) l ↔
      e ∈ l ∧ ∀ slot ∈ slots, l.find? (·.1 == slot.sdName) ≠ some e := by
  induction slots generalizing l with
  | nil => simp
  | cons a slots ih =>
    obtain ⟨ha, hslots⟩ := List.nodup_cons.mp hslots
    have hothers : ∀ slot ∈ slots, (l.eraseP (·.1 == a.sdName)).find? (·.1 == slot.sdName) =
        l.find? (·.1 == slot.sdName) := by
      intro slot hmem
      refine find?_eraseP_of_ne l fun heq => ?_
      rw [Slot.sdName_injective heq] at ha
      exact ha hmem
    rw [List.foldl_cons, ih _ (hl.sublist (List.eraseP_sublist ..)) hslots, mem_eraseP_iff hl]
    constructor
    · rintro ⟨⟨he, hfirst⟩, hrest⟩
      refine ⟨he, fun slot hmem => ?_⟩
      rcases List.mem_cons.mp hmem with rfl | hmem
      · exact hfirst
      · rw [← hothers slot hmem]
        exact hrest slot hmem
    · rintro ⟨he, hall⟩
      refine ⟨⟨he, hall a List.mem_cons_self⟩, fun slot hmem => ?_⟩
      rw [hothers slot hmem]
      exact hall slot (List.mem_cons_of_mem _ hmem)

section Open
variable {F : Type} {env : OpenEnv F} {address : Slot → String} {environ : List CString}
  {isUpgrade : Bool}

theorem openSlots_cons {slot : Slot} {slots : List Slot} {ctl ctl' : ControlFds} {o o' : Opening F}
    (h : openSlots env address environ isUpgrade (slot :: slots) ctl o = .ok (ctl', o')) :
    ∃ fd o₁, Took env environ slot o fd o₁ ∧
      openSlots env address environ isUpgrade slots (Function.update ctl slot fd) o₁ =
        .ok (ctl', o') := by
  simp only [openSlots, bind, Except.bind] at h
  split at h
  · cases h
  · next r hr =>
    obtain ⟨fd, o₁⟩ := r
    exact ⟨fd, o₁, openSlot_took hr, h⟩

theorem openSlots_others {slots : List Slot} {ctl ctl' : ControlFds} {o o' : Opening F}
    (h : openSlots env address environ isUpgrade slots ctl o = .ok (ctl', o')) {slot : Slot}
    (hslot : slot ∉ slots) : ctl' slot = ctl slot := by
  induction slots generalizing ctl o with
  | nil =>
    cases h
    rfl
  | cons a slots ih =>
    obtain ⟨fd, o₁, -, h⟩ := openSlots_cons h
    rw [List.mem_cons, not_or] at hslot
    rw [ih h hslot.2, Function.update_of_ne hslot.1]

/-- Each socket's descriptor, told from what systemd passed before anyone had taken any of it. -/
theorem openSlots_ctl {slots : List Slot} (hslots : slots.Nodup) {ctl ctl' : ControlFds}
    {o o' : Opening F} (h : openSlots env address environ isUpgrade slots ctl o = .ok (ctl', o'))
    {slot : Slot} (hslot : slot ∈ slots) :
    (∃ e, o.sd.inner.find? (·.1 == slot.sdName) = some e ∧ ctl' slot = e.2) ∨
    (o.sd.inner.find? (·.1 == slot.sdName) = none ∧
      ((∃ s, envVar environ slot.envKey = some s ∧ RawFd.parse s = some (ctl' slot)) ∨
        (envVar environ slot.envKey = none ∧ ∃ f, env.bind slot = .ok (ctl' slot, f)))) := by
  induction slots generalizing ctl o with
  | nil => cases hslot
  | cons a slots ih =>
    obtain ⟨ha, hslots⟩ := List.nodup_cons.mp hslots
    obtain ⟨fd, o₁, htook, h⟩ := openSlots_cons h
    rcases List.mem_cons.mp hslot with rfl | hmem
    · rw [openSlots_others h ha, Function.update_self]
      cases htook with
      | systemd e he hfd hsd hfds hun => exact Or.inl ⟨e, he, hfd⟩
      | environment s hnone hvar hfd ho => exact Or.inr ⟨hnone, Or.inl ⟨s, hvar, hfd⟩⟩
      | bound f hnone hvar hbind hsd hfds => exact Or.inr ⟨hnone, Or.inr ⟨hvar, f, hbind⟩⟩
    · have hne : a.sdName ≠ slot.sdName := fun heq => ha (Slot.sdName_injective heq ▸ hmem)
      have hsame : o₁.sd.inner.find? (·.1 == slot.sdName) =
          o.sd.inner.find? (·.1 == slot.sdName) := by
        cases htook with
        | systemd e he hfd hsd hfds hun => rw [hsd, find?_eraseP_of_ne _ hne]
        | environment s hnone hvar hfd ho => rw [ho]
        | bound f hnone hvar hbind hsd hfds => rw [hsd]
      rw [← hsame]
      exact ih hslots h hmem

theorem openSlots_left {slots : List Slot} {ctl ctl' : ControlFds} {o o' : Opening F}
    (h : openSlots env address environ isUpgrade slots ctl o = .ok (ctl', o')) :
    o'.sd.inner = o.sd.left slots := by
  induction slots generalizing ctl o with
  | nil =>
    cases h
    rfl
  | cons a slots ih =>
    obtain ⟨fd, o₁, htook, h⟩ := openSlots_cons h
    rw [ih h]
    simp only [SdListeners.left, List.foldl_cons]
    congr 1
    cases htook with
    | systemd e he hfd hsd hfds hun => exact hsd
    | environment s hnone hvar hfd ho =>
      rw [ho, List.eraseP_of_forall_not]
      simpa using List.find?_eq_none.mp hnone
    | bound f hnone hvar hbind hsd hfds =>
      rw [hsd, List.eraseP_of_forall_not]
      simpa using List.find?_eq_none.mp hnone

/-- A descriptor that was open stays what it was while the sockets are opened. -/
theorem openSlots_file {slots : List Slot} {ctl ctl' : ControlFds} {o o' : Opening F}
    (h : openSlots env address environ isUpgrade slots ctl o = .ok (ctl', o')) {fd : RawFd}
    (hfresh : ∀ slot f, env.bind slot ≠ .ok (fd, f)) : o'.fds.file fd = o.fds.file fd := by
  induction slots generalizing ctl o with
  | nil =>
    cases h
    rfl
  | cons a slots ih =>
    obtain ⟨fd', o₁, htook, h⟩ := openSlots_cons h
    rw [ih h]
    cases htook with
    | systemd e he hfd hsd hfds hun => rw [hfds]
    | environment s hnone hvar hfd ho => rw [ho]
    | bound f hnone hvar hbind hsd hfds =>
      rw [hfds, Descriptors.file_opened_of_ne]
      rintro rfl
      exact hfresh a f hbind

end Open

theorem openOrder_all (slot : Slot) : slot ∈ openOrder := by
  cases slot <;> decide

theorem openOrder_nodup : openOrder.Nodup := by decide

/-! ### The handle as it is read -/

theorem RawFd.wrap_injective {a b : ℕ} (ha : a < 2 ^ 32) (hb : b < 2 ^ 32)
    (h : RawFd.wrap a = RawFd.wrap b) : a = b := by
  have hmod := congrArg (fun fd : RawFd => fd.1 % ((2 ^ 32 : ℕ) : ℤ)) h
  simp only [RawFd.wrap, Int.bmod_emod] at hmod
  norm_num at ha hb hmod
  omega

theorem SdListeners.entries_nodup (names : List String) (n : ℕ) (hn : n < 2 ^ 31) :
    ((List.range n).map (SdListeners.entry names)).Nodup ∧
    (((List.range n).map (SdListeners.entry names)).map Prod.snd).Nodup := by
  have hfds : (((List.range n).map (SdListeners.entry names)).map Prod.snd).Nodup := by
    rw [List.map_map]
    refine List.Nodup.map_on ?_ List.nodup_range
    intro i hi j hj h
    rw [List.mem_range] at hi hj
    have hbound : ∀ k < n, sdListenFdsStart + k < 2 ^ 32 := by
      intro k hk
      norm_num [sdListenFdsStart] at hn ⊢
      omega
    have hij := RawFd.wrap_injective (hbound i hi) (hbound j hj)
      (by simpa [SdListeners.entry] using h)
    omega
  exact ⟨List.Nodup.of_map _ hfds, hfds⟩

theorem SdListeners.fromEnv_nodup {pid : Pid} {environ environ' : List CString} {sd : SdListeners}
    (h : SdListeners.fromEnv pid environ = .ok (sd, environ')) :
    sd.inner.Nodup ∧ (sd.inner.map Prod.snd).Nodup := by
  unfold SdListeners.fromEnv at h
  repeat' split at h
  all_goals cases h
  all_goals first
    | exact ⟨List.nodup_nil, List.nodup_nil⟩
    | skip
  next count hc hpos =>
    refine SdListeners.entries_nodup _ _ ?_
    have hlt := count.2.2
    norm_num at hlt ⊢
    omega

theorem SdListeners.dropped_file {F : Type} (l : List (String × RawFd)) (t : Descriptors F)
    (fd : RawFd) : (l.foldl (fun t e => t.closed e.2) t).file fd =
      if fd ∈ l.map Prod.snd then none else t.file fd := by
  induction l generalizing t with
  | nil => rfl
  | cons e l ih =>
    rw [List.foldl_cons, ih, List.map_cons]
    by_cases hmem : fd ∈ l.map Prod.snd
    · rw [if_pos hmem, if_pos (List.mem_cons_of_mem _ hmem)]
    · by_cases he : fd = e.2
      · subst he
        simp [Descriptors.closed]
      · rw [if_neg hmem, if_neg (by simp only [List.mem_cons, he, hmem, or_self, not_false_iff]),
          Descriptors.file_closed_of_ne _ he]

theorem openSupervisorListeners_ok {F : Type} {env : OpenEnv F} {address : Slot → String}
    {pid : Pid} {environ : List CString} {isUpgrade : Bool} {fds : Descriptors F} {l : Listening F}
    (h : openSupervisorListeners env address pid environ isUpgrade fds = .ok l) :
    ∃ sd ctl o, SdListeners.fromEnv pid environ = .ok (sd, l.environ) ∧
      openSlots env address l.environ isUpgrade openOrder ctl ⟨sd, fds, []⟩ = .ok (l.ctl, o) ∧
      l.fds = o.sd.dropped o.fds ∧ l.unlinked = o.unlinked := by
  cases hsd : SdListeners.fromEnv pid environ with
  | error e => simp [openSupervisorListeners, hsd, bind, Except.bind] at h
  | ok r =>
    obtain ⟨sd, environ'⟩ := r
    simp only [openSupervisorListeners, hsd, bind, Except.bind, pure, Except.pure] at h
    split at h
    · cases h
    · next r hr =>
      cases h
      exact ⟨sd, _, r.2, rfl, hr, rfl, rfl⟩

/-- What systemd passes is owned once. Let it pass any number of descriptors under any names, and
let any of the eleven sockets be opened in any other way. The first descriptor of a socket's name
is the socket's, and the file under it is untouched. Every other one, a second descriptor of the
same name included, is closed once the sockets are open. And no socket that the environment does not
name sits on a descriptor of systemd's that is not its own. -/
theorem systemd_listeners_claimed_once {F : Type} (env : OpenEnv F) (address : Slot → String)
    (pid : Pid) (environ environ' : List CString) (isUpgrade : Bool) (fds : Descriptors F)
    (sd : SdListeners) (l : Listening F)
    (hsd : SdListeners.fromEnv pid environ = .ok (sd, environ'))
    (hpassed : ∀ e ∈ sd.inner, fds.file e.2 ≠ none)
    (hnew : ∀ slot fd f, env.bind slot = .ok (fd, f) → fds.file fd = none)
    (h : openSupervisorListeners env address pid environ isUpgrade fds = .ok l) :
    (∀ slot e, sd.inner.find? (·.1 == slot.sdName) = some e →
      l.ctl slot = e.2 ∧ l.fds.file e.2 = fds.file e.2) ∧
    (∀ e ∈ sd.inner, (∀ slot : Slot, sd.inner.find? (·.1 == slot.sdName) ≠ some e) →
      l.fds.file e.2 = none) ∧
    (∀ slot, ∀ e ∈ sd.inner, l.ctl slot = e.2 → envVar environ' slot.envKey = none →
      sd.inner.find? (·.1 == slot.sdName) = some e) := by
  obtain ⟨sd', ctl, o, hsd', hopen, hfds, -⟩ := openSupervisorListeners_ok h
  rw [hsd] at hsd'
  obtain ⟨rfl, henviron⟩ := Prod.mk.inj (Except.ok.inj hsd')
  obtain ⟨hnodup, hfdNodup⟩ := SdListeners.fromEnv_nodup hsd
  have hleft := openSlots_left hopen
  have hmem : ∀ e, e ∈ o.sd.inner ↔
      e ∈ sd.inner ∧ ∀ slot : Slot, sd.inner.find? (·.1 == slot.sdName) ≠ some e := by
    intro e
    rw [hleft, SdListeners.left, left_iff _ hnodup _ openOrder_nodup]
    simp only [openOrder_all, forall_const]
  have hsame : ∀ a ∈ sd.inner, ∀ b ∈ sd.inner, a.2 = b.2 → a = b := fun a ha b hb =>
    List.inj_on_of_nodup_map hfdNodup ha hb
  refine ⟨fun slot e he => ?_, fun e he hun => ?_, fun slot e he hctl hvar => ?_⟩
  · have hein := List.mem_of_find?_eq_some he
    constructor
    · rcases openSlots_ctl openOrder_nodup hopen (openOrder_all slot) with
        ⟨e', he', hctl⟩ | ⟨hnone, -⟩
      · rw [he] at he'
        cases he'
        exact hctl
      · rw [he] at hnone
        cases hnone
    · have hnot : e.2 ∉ o.sd.inner.map Prod.snd := by
        rintro hfd
        obtain ⟨e', he', heq⟩ := List.mem_map.mp hfd
        obtain ⟨hin, hun⟩ := (hmem e').mp he'
        rw [hsame e' hin e hein heq] at hun
        exact hun slot he
      rw [hfds, SdListeners.dropped, SdListeners.dropped_file, if_neg hnot,
        openSlots_file hopen fun slot f hb => hpassed e hein (hnew slot e.2 f hb)]
  · have hfd : e.2 ∈ o.sd.inner.map Prod.snd := List.mem_map_of_mem ((hmem e).mpr ⟨he, hun⟩)
    rw [hfds, SdListeners.dropped, SdListeners.dropped_file, if_pos hfd]
  · rcases openSlots_ctl openOrder_nodup hopen (openOrder_all slot) with
      ⟨e', he', hctl'⟩ | ⟨-, ⟨s, hs, -⟩ | ⟨-, f, hbind⟩⟩
    · have heq := hsame e' (List.mem_of_find?_eq_some he') e he (hctl'.symm.trans hctl)
      rw [he', heq]
    · rw [← henviron, hvar] at hs
      cases hs
    · rw [hctl] at hbind
      exact absurd (hnew slot e.2 f hbind) (hpassed e he)

/-- Two sockets named `plain` and one named `tls`. -/
def activatedEnviron : List CString :=
  [⟨utf8 "LISTEN_PID=7", by decide⟩, ⟨utf8 "LISTEN_FDS=3", by decide⟩,
    ⟨utf8 "LISTEN_FDNAMES=plain:plain:tls", by decide⟩]

/-- The sockets are bound to the descriptors from 10 on. -/
def bindsFrom10 : OpenEnv ℕ where
  setNonblocking _ := none
  fromStd _ := none
  bind slot := .ok (RawFd.wrap (10 + openOrder.idxOf slot), 100 + openOrder.idxOf slot)
  setPermissions _ := none

def activatedFds : Descriptors ℕ where
  file fd := if 3 ≤ fd.1 ∧ fd.1 < 6 then some fd.1.toNat else none
  cloexec _ := false

theorem systemd_listeners_second_plain :
    ∃ l, openSupervisorListeners bindsFrom10 Slot.sdName 7 activatedEnviron false activatedFds =
        .ok l ∧
      l.ctl .plain = RawFd.wrap 3 ∧ l.fds.file (RawFd.wrap 4) = none ∧
      l.ctl .tls = RawFd.wrap 5 := by
  have hsd : SdListeners.fromEnv 7 activatedEnviron =
      .ok (⟨[("plain", RawFd.wrap 3), ("plain", RawFd.wrap 4), ("tls", RawFd.wrap 5)]⟩, []) := by
    rfl
  cases hl : openSupervisorListeners bindsFrom10 Slot.sdName 7 activatedEnviron false
      activatedFds with
  | error e =>
    have hok : (openSupervisorListeners bindsFrom10 Slot.sdName 7 activatedEnviron false
      activatedFds).isOk = true := by decide +kernel
    rw [hl] at hok
    cases hok
  | ok l =>
    obtain ⟨hfirst, hrest, -⟩ := systemd_listeners_claimed_once bindsFrom10 Slot.sdName 7
      activatedEnviron [] false activatedFds _ l hsd (by decide +kernel)
      (by
        intro slot fd f hb
        simp only [bindsFrom10, Except.ok.injEq, Prod.mk.injEq] at hb
        rw [← hb.1]
        cases slot <;> decide +kernel) hl
    exact ⟨l, rfl, (hfirst .plain ("plain", RawFd.wrap 3) (by decide +kernel)).1,
      hrest ("plain", RawFd.wrap 4) (by decide +kernel)
        (by intro slot; cases slot <;> decide +kernel),
      (hfirst .tls ("tls", RawFd.wrap 5) (by decide +kernel)).1⟩

end FiveNinesEcho.Supervisor
