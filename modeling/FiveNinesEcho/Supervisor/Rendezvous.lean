import FiveNinesEcho.Lib.Serde
import FiveNinesEcho.Supervisor.Inheritance
import FiveNinesEcho.Supervisor.Walk

/-!
# Where a worker listens (`supervisor/spawner.rs`, `worker_common/{listeners,scm}.rs`)

The supervisor keeps the listening sockets of its workers and hands a worker that it starts its own
one over the spawner socket. A worker that is not answered binds a socket itself; a successor in an
upgrade adopts the one of its predecessor. Clients find a worker by its address, a TCP port or the
path of a UDS. `Rendezvous` is which socket the address names and which one the worker accepts on:
the service is there as long as they are the same.
-/

namespace FiveNinesEcho.Supervisor
open Lib Handoff

/-! ### The exchange -/

def RoleName.slot : RoleName → Slot
  | .processor => .processor
  | .plain => .plain
  | .tls => .tls
  | .scanner => .scanner

def RoleName.isUds : RoleName → Bool
  | .processor | .scanner => true
  | .plain | .tls => false

/-- `SpawnRequest { role }`. -/
def spawnRequest : Shape String :=
  record 1 0 (fun role => [("role", text.write role)]) (fun s => s.field 0 "role" text.read none)
    (by simp [Source.field, Source.values, text.read_write])
    fun _ => .cons _ _ _ (by decide) (.nil 0)

inductive SpawnReply (F : Type) where
  | closed
  | text (payload : List UInt8)
  | descriptor (file : F) (payload : List UInt8)

def spawnerFd (ctl : ControlFds) : String → Option RawFd
  | "processor" => some (ctl .processor)
  | "plain" => some (ctl .plain)
  | "tls" => some (ctl .tls)
  | "scanner" => some (ctl .scanner)
  | _ => none

section Exchange
variable {F : Type}

/-- A request that cannot be read, and a descriptor that cannot be sent, drop the connection. -/
def handleSpawnRequest (J : JsonText) (s : SupervisorImage F) (line : String) : SpawnReply F :=
  match (J.parse line).bind spawnRequest.read with
  | none => .closed
  | some role => match spawnerFd s.ctl role with
    | none => .text (utf8 ("err: unknown role " ++ role ++ "\n"))
    | some fd => match s.fds.file fd with
      | none => .closed
      | some f => .descriptor f (utf8 "ok\n")

def recvFdSync (recvmsg : Option String) : SpawnReply F → Except Error (F × List UInt8)
  | reply => match recvmsg, reply with
    | some e, _ => .error [e]
    | none, .closed => .error ["spawner closed before sending FD"]
    | none, .text _ => .error ["spawner reply missing SCM_RIGHTS attachment"]
    | none, .descriptor f payload => .ok (f, payload.take 256)

/-- What the calls of a starting worker come to; `connect` is the error of each attempt. -/
structure StartEnv (F : Type) where
  connect : ℕ → Option String
  checkPeer : Option String
  write : Option String
  recvmsg : Option String
  setNonblocking : Option String
  fromStd : Option String
  bind : Except String F
  setPermissions : Option String

/-- `dial_with_retry`: the first of fifty attempts that connects, or the last error. -/
def dialWithRetry (connect : ℕ → Option String) : Option String :=
  if (List.range 50).any fun n => (connect n).isNone then none else connect 49

def requestListenerFd (J : JsonText) (sock : String) (env : StartEnv F) (s : SupervisorImage F)
    (role : String) : Except Error F := do
  orFail ["dial spawner " ++ sock] (dialWithRetry env.connect)
  orFail [] env.write
  let reply := if env.checkPeer.isSome then .closed
    else handleSpawnRequest J s (J.render (spawnRequest.write role))
  let (f, payload) ← recvFdSync env.recvmsg reply
  if (utf8 "ok").isPrefixOf payload then return f
  else throw ["spawner replied: " ++ ((fromUtf8 payload).getD "")]

/-! ### The listener of a worker -/

/-- The listener that the environment names by number. -/
def adoptListener (env : StartEnv F) (fds : Descriptors F) (fdStr : String) : Except Error F :=
  match RawFd.parse fdStr with
  | none => .error [Upgrade.envListenerFd]
  | some fd => match fds.file fd with
    | none => .error ["Bad file descriptor"]
    | some f => do
      orFail [] env.setNonblocking
      orFail [] env.fromStd
      return f

/-- A worker as it starts: the supervisor it asks, what its environment says of a listener, its
descriptors, and the socket its address names. -/
structure Starting (F : Type) where
  supervisor : SupervisorImage F
  listenerFd : Option String
  fds : Descriptors F
  bound : Option F

/-- What follows once the spawner has answered or has not; `fallback` is the bind. -/
def adoptOrBind (J : JsonText) (sock : String) (role : String) (env : StartEnv F) (w : Starting F)
    (fallback : Except Error F × Option F) : Except Error F × Option F :=
  match w.listenerFd with
  | some fdStr => (adoptListener env w.fds fdStr, w.bound)
  | none => match requestListenerFd J sock env w.supervisor role with
    | .ok f => (do orFail [] env.setNonblocking; orFail [] env.fromStd; return f, w.bound)
    | .error _ => fallback

/-- The socket file is removed before the bind, whose it was. -/
def adoptOrBindUdsListener (J : JsonText) (sock path role : String) (env : StartEnv F)
    (w : Starting F) : Except Error F × Option F :=
  adoptOrBind J sock role env w <| match env.bind with
    | .error e => (.error ["bind " ++ path, e], none)
    | .ok f => (do orFail [] env.setPermissions; return f, some f)

/-- A port that is bound cannot be bound again. -/
def adoptOrBindTcpListener (J : JsonText) (sock addr role : String) (env : StartEnv F)
    (w : Starting F) : Except Error F × Option F :=
  adoptOrBind J sock role env w <| match w.bound, env.bind with
    | some _, _ => (.error ["bind " ++ addr, "Address already in use"], w.bound)
    | none, .error e => (.error ["bind " ++ addr, e], none)
    | none, .ok f => (.ok f, some f)

def RoleName.adoptOrBind (J : JsonText) (sock : String) (address : Slot → String) (r : RoleName)
    (env : StartEnv F) (w : Starting F) : Except Error F × Option F :=
  if r.isUds then adoptOrBindUdsListener J sock (address r.slot) r.text env w
  else adoptOrBindTcpListener J sock (address r.slot) r.text env w

end Exchange

/-! ### The supervisor and its workers -/

structure Serving (F : Type) where
  listener : F
  generation : ℕ

structure Rendezvous (F : Type) where
  supervisor : SupervisorImage F
  bound : RoleName → Option F
  worker : RoleName → Option (Serving F)

inductive RendezvousAct (F : Type) where
  | selfUpgrade (a : AdoptedState × AttemptEnv F)
  | start (r : RoleName) (env : StartEnv F)
  | crash (r : RoleName)
  | exit (r : RoleName)
  | upgrade (r : RoleName) (fd : RawFd) (env : StartEnv F) (acked : Bool)

section World
variable {F : Type}

/-- The worker that the supervisor starts: the scrub has left it no number of a listener. -/
def Rendezvous.starting (s : Rendezvous F) (r : RoleName) : Starting F :=
  ⟨s.supervisor, none, ⟨fun _ => none, fun _ => false⟩, s.bound r⟩

/-- The successor that a worker starts, with the number of its own listener. -/
def Rendezvous.succeeding (s : Rendezvous F) (r : RoleName) (w : Serving F) (fd : RawFd) :
    Starting F :=
  ⟨s.supervisor, some fd.text, ⟨fun x => if x = fd then some w.listener else none, fun _ => false⟩,
    s.bound r⟩

/-- `exit` is an end by `SIGTERM`, `SIGINT` or `Shutdown`: a UDS worker of generation 0 removes the
socket file (`processor/upgrade.rs:76-81`, `scanner.rs:160-164`). -/
def Rendezvous.step (J : JsonText) (sock : String) (address : Slot → String) (s : Rendezvous F) :
    RendezvousAct F → Option (Rendezvous F)
  | .selfUpgrade a => (s.supervisor.step address a).map fun sup => { s with supervisor := sup }
  | .start r env => match s.worker r with
    | some _ => none
    | none =>
      let (listener, bound) := r.adoptOrBind J sock address env (s.starting r)
      some { s with
        bound := Function.update s.bound r bound
        worker := Function.update s.worker r (listener.toOption.map fun f => ⟨f, 0⟩) }
  | .crash r => match s.worker r with
    | none => none
    | some _ => some { s with worker := Function.update s.worker r none }
  | .exit r => match s.worker r with
    | none => none
    | some w => some { s with
        bound := if r.isUds ∧ w.generation = 0 then Function.update s.bound r none else s.bound
        worker := Function.update s.worker r none }
  | .upgrade r fd env acked => match s.worker r with
    | none => none
    | some w =>
      let (listener, bound) := r.adoptOrBind J sock address env (s.succeeding r w fd)
      let s := { s with bound := Function.update s.bound r bound }
      match listener, acked with
      | .ok f, true =>
        some { s with worker := Function.update s.worker r (some ⟨f, w.generation + 1⟩) }
      | _, _ => some s

/-- The steps that take the address of `r` away from the supervisor's socket: a UDS worker of
generation 0 ends, or a UDS worker that the spawner did not answer binds for itself. -/
def Rendezvous.detaches (J : JsonText) (sock : String) (r : RoleName) (s : Rendezvous F) :
    RendezvousAct F → Bool
  | .start q env => q = r && r.isUds && (s.worker r).isNone &&
    match requestListenerFd J sock env s.supervisor r.text with
    | .ok _ => false
    | .error _ => true
  | .exit q => q = r && r.isUds && (s.worker r).any fun w => w.generation = 0
  | _ => false

/-- What the operating system promises of a step: see `AttemptEnv.Sane`; and a bind makes a new
socket. -/
def Rendezvous.Usual (s : Rendezvous F) : RendezvousAct F → Prop
  | .selfUpgrade a => a.2.Sane s.supervisor
  | .start _ env => ∀ f, env.bind = .ok f →
    ∀ r : RoleName, s.supervisor.fds.file (s.supervisor.ctl r.slot) ≠ some f
  | _ => True

end World

/-! ### One start -/

section Start
variable {F : Type} {J : JsonText} {sock : String} {address : Slot → String} {env : StartEnv F}

theorem spawnerFd_text (ctl : ControlFds) (r : RoleName) :
    spawnerFd ctl r.text = some (ctl r.slot) := by
  cases r <;> rfl

/-- The spawner answers a worker with the supervisor's socket of its role. -/
theorem handleSpawnRequest_role (s : SupervisorImage F) (r : RoleName) :
    handleSpawnRequest J s (J.render (spawnRequest.write r.text)) =
      match s.fds.file (s.ctl r.slot) with
      | none => .closed
      | some f => .descriptor f (utf8 "ok\n") := by
  have hparse := J.parse_render _ (spawnRequest.fits_of_le r.text 127 (by decide))
  simp only [handleSpawnRequest, hparse, Option.bind_some, spawnRequest.read_write,
    spawnerFd_text]

theorem requestListenerFd_ok {s : SupervisorImage F} {r : RoleName} {f : F}
    (h : requestListenerFd J sock env s r.text = .ok f) :
    s.fds.file (s.ctl r.slot) = some f := by
  unfold requestListenerFd at h
  cases hdial : dialWithRetry env.connect with
  | some e => simp [hdial, orFail, bind, Except.bind] at h
  | none =>
    cases hwrite : env.write with
    | some e => simp [hdial, hwrite, orFail, bind, Except.bind] at h
    | none =>
      cases hrecv : env.recvmsg with
      | some e => simp [hdial, hwrite, hrecv, orFail, bind, Except.bind, recvFdSync] at h
      | none =>
        cases hpeer : env.checkPeer with
        | some e => simp [hdial, hwrite, hrecv, hpeer, orFail, bind, Except.bind, recvFdSync] at h
        | none =>
          simp only [hdial, hwrite, hrecv, hpeer, orFail, bind, Except.bind, Option.isSome_none,
            Bool.false_eq_true, if_false, handleSpawnRequest_role] at h
          cases hfile : s.fds.file (s.ctl r.slot) with
          | none => simp [hfile, recvFdSync] at h
          | some g =>
            simp only [hfile, recvFdSync] at h
            split at h
            · cases h
              rfl
            · cases h

theorem orFail_ok {e : Option String} {f g : F} {cs : List String}
    (h : (do orFail cs e; return f : Except Error F) = .ok g) : g = f := by
  cases e with
  | none =>
    cases h
    rfl
  | some e => cases h

/-- A successor has the listener of its predecessor, if it gets that far, and binds nothing. -/
theorem adoptOrBind_succeeding (env : StartEnv F) (s : Rendezvous F) (r : RoleName)
    (w : Serving F) (fd : RawFd) :
    (r.adoptOrBind J sock address env (s.succeeding r w fd)).2 = s.bound r ∧
    ∀ f, (r.adoptOrBind J sock address env (s.succeeding r w fd)).1 = .ok f → f = w.listener := by
  have hadopt : r.adoptOrBind J sock address env (s.succeeding r w fd) =
      (adoptListener env (s.succeeding r w fd).fds fd.text, s.bound r) := by
    unfold RoleName.adoptOrBind
    split <;> rfl
  rw [hadopt]
  refine ⟨rfl, fun f hf => ?_⟩
  simp only [adoptListener, RawFd.parse_text, Rendezvous.succeeding, if_true] at hf
  cases hnb : env.setNonblocking with
  | some e => simp [hnb, orFail, bind, Except.bind] at hf
  | none =>
    simp only [hnb] at hf
    exact orFail_ok hf

/-- A worker that the spawner answered. -/
theorem adoptOrBind_answered (address : Slot → String) {s : Rendezvous F} {r : RoleName} {f : F}
    (h : requestListenerFd J sock env s.supervisor r.text = .ok f) :
    (r.adoptOrBind J sock address env (s.starting r)).2 = s.bound r ∧
    ∀ g, (r.adoptOrBind J sock address env (s.starting r)).1 = .ok g → g = f := by
  have hstart : r.adoptOrBind J sock address env (s.starting r) =
      (do orFail [] env.setNonblocking; orFail [] env.fromStd; return f, s.bound r) := by
    unfold RoleName.adoptOrBind
    split
    · simp only [adoptOrBindUdsListener, adoptOrBind, Rendezvous.starting, h]
    · simp only [adoptOrBindTcpListener, adoptOrBind, Rendezvous.starting, h]
  rw [hstart]
  refine ⟨rfl, fun g hg => ?_⟩
  cases hnb : env.setNonblocking with
  | some e => simp [hnb, orFail, bind, Except.bind] at hg
  | none =>
    simp only [hnb] at hg
    exact orFail_ok hg

/-- One that it did not answer: a UDS is taken over, a TCP port that is taken is not. -/
theorem adoptOrBind_unanswered (address : Slot → String) {s : Rendezvous F} {r : RoleName}
    {e : Error}
    (h : requestListenerFd J sock env s.supervisor r.text = .error e) :
    (r.isUds = true → (r.adoptOrBind J sock address env (s.starting r)).2 = none ∨
      ∃ f, env.bind = .ok f ∧ (r.adoptOrBind J sock address env (s.starting r)).2 = some f) ∧
    (r.isUds = false → ∀ f, s.bound r = some f →
      (r.adoptOrBind J sock address env (s.starting r)).2 = some f ∧
      ∃ e, (r.adoptOrBind J sock address env (s.starting r)).1 = .error e) := by
  constructor
  · intro huds
    simp only [RoleName.adoptOrBind, huds, if_true, adoptOrBindUdsListener, adoptOrBind,
      Rendezvous.starting, h]
    cases hbind : env.bind with
    | error e => exact Or.inl rfl
    | ok f => exact Or.inr ⟨f, rfl, rfl⟩
  · intro htcp f hf
    simp only [RoleName.adoptOrBind, htcp, Bool.false_eq_true, if_false, adoptOrBindTcpListener,
      adoptOrBind, Rendezvous.starting, h, hf]
    exact ⟨trivial, _, rfl⟩

end Start

/-! ### Every run -/

/-- The supervisor has the sockets `files`; each address names its one as long as it was not taken
away, `lost` times, and the worker then listens there. -/
structure Rendezvous.Keeps {F : Type} (ctl : ControlFds) (files : RoleName → F)
    (lost : RoleName → ℕ) (s : Rendezvous F) : Prop where
  holds : s.supervisor.Holds ctl fun slot => (allRoles.find? fun r => r.slot = slot).map files
  bound : ∀ r, s.bound r = some (files r) ↔ lost r = 0
  worker : ∀ r, lost r = 0 → ∀ w, s.worker r = some w → w.listener = files r
  tcp : ∀ r : RoleName, r.isUds = false → lost r = 0

section Run
variable {F : Type} {J : JsonText} {sock : String} {address : Slot → String} {ctl : ControlFds}
  {files : RoleName → F} {lost : RoleName → ℕ} {s t : Rendezvous F}

theorem Rendezvous.Keeps.file (hs : s.Keeps ctl files lost) (r : RoleName) :
    s.supervisor.fds.file (s.supervisor.ctl r.slot) = some (files r) := by
  rw [hs.holds.numbers]
  exact hs.holds.file r.slot (files r) (by cases r <;> rfl)

theorem Rendezvous.Keeps.selfUpgrade (hs : s.Keeps ctl files lost) (a : AdoptedState × AttemptEnv F)
    (hsane : a.2.Sane s.supervisor) (h : s.step J sock address (.selfUpgrade a) = some t) :
    t.Keeps ctl files lost := by
  obtain ⟨sup, hsup, rfl⟩ := Option.map_eq_some_iff.mp h
  obtain ⟨sup', hstep, hholds, -⟩ := SupervisorImage.step_holds address a hs.holds hsane
  cases hsup.symm.trans hstep
  exact ⟨hholds, hs.bound, hs.worker, hs.tcp⟩

/-- A step that concerns one role: what has to be shown of it, and that it is no other's. -/
theorem Rendezvous.Keeps.at_role (hs : s.Keeps ctl files lost) (r : RoleName) (lost' : RoleName → ℕ)
    (bound : Option F) (worker : Option (Serving F))
    (hother : ∀ q, q ≠ r → lost' q = lost q)
    (hbound : bound = some (files r) ↔ lost' r = 0)
    (hworker : lost' r = 0 → ∀ w, worker = some w → w.listener = files r)
    (htcp : r.isUds = false → lost' r = 0) :
    ({ s with
      bound := Function.update s.bound r bound
      worker := Function.update s.worker r worker } : Rendezvous F).Keeps ctl files lost' := by
  refine ⟨hs.holds, fun q => ?_, fun q hq => ?_, fun q hq => ?_⟩
  · by_cases hqr : q = r
    · subst hqr
      simpa using hbound
    · simp only [Function.update_of_ne hqr, hother q hqr]
      exact hs.bound q
  · by_cases hqr : q = r
    · subst hqr
      simpa using hworker hq
    · simp only [Function.update_of_ne hqr]
      exact hs.worker q (hother q hqr ▸ hq)
  · by_cases hqr : q = r
    · subst hqr
      exact htcp hq
    · rw [hother q hqr]
      exact hs.tcp q hq

theorem ok_of_toOption {x : Except Error F} {f : F} (h : x.toOption = some f) : x = .ok f := by
  cases x with
  | error e => cases h
  | ok g =>
    cases h
    rfl

theorem Rendezvous.Keeps.start (hs : s.Keeps ctl files lost) (r : RoleName) (env : StartEnv F)
    (hfresh : ∀ f, env.bind = .ok f → ∀ r : RoleName,
      s.supervisor.fds.file (s.supervisor.ctl r.slot) ≠ some f)
    (h : s.step J sock address (.start r env) = some t) :
    t.Keeps ctl files fun q => lost q + (s.detaches J sock q (.start r env)).toNat := by
  simp only [Rendezvous.step] at h
  split at h
  · cases h
  · next hidle =>
    obtain rfl := Option.some.inj h
    have hother : ∀ q, q ≠ r → lost q + (s.detaches J sock q (.start r env)).toNat = lost q := by
      intro q hq
      simp [Rendezvous.detaches, Ne.symm hq]
    cases hreq : requestListenerFd J sock env s.supervisor r.text with
    | ok f =>
      have hfile := requestListenerFd_ok hreq
      rw [hs.file r] at hfile
      obtain ⟨hb, hl⟩ := adoptOrBind_answered address hreq
      have hkept : (s.detaches J sock r (.start r env)).toNat = 0 := by
        simp [Rendezvous.detaches, hreq]
      refine hs.at_role r _ _ _ hother ?_ ?_ ?_
      · rw [hb, hkept, Nat.add_zero]
        exact hs.bound r
      · intro _ w hw
        obtain ⟨g, hg, rfl⟩ := Option.map_eq_some_iff.mp hw
        rw [hl g (ok_of_toOption hg)]
        exact (Option.some.inj hfile).symm
      · intro htcp
        rw [hkept, Nat.add_zero]
        exact hs.tcp r htcp
    | error e =>
      obtain ⟨huds, htcp⟩ := adoptOrBind_unanswered address hreq
      cases hkind : r.isUds with
      | true =>
        have hlost : (s.detaches J sock r (.start r env)).toNat = 1 := by
          simp [Rendezvous.detaches, hreq, hkind, hidle]
        refine hs.at_role r _ _ _ hother ?_ ?_ ?_
        · rw [hlost]
          refine iff_of_false ?_ (by omega)
          rcases huds hkind with hb | ⟨f, hf, hb⟩
          · rw [hb]
            simp
          · rw [hb]
            intro heq
            exact hfresh f hf r (by rw [hs.file r, ← heq])
        · intro hzero
          rw [hlost] at hzero
          omega
        · intro hno
          rw [hkind] at hno
          cases hno
      | false =>
        have hzero := hs.tcp r hkind
        have hkept : (s.detaches J sock r (.start r env)).toNat = 0 := by
          simp [Rendezvous.detaches, hkind]
        obtain ⟨hb, e', he'⟩ := htcp hkind (files r) ((hs.bound r).mpr hzero)
        refine hs.at_role r _ _ _ hother ?_ ?_ ?_
        · rw [hb, hkept, hzero]
          simp
        · intro _ w hw
          rw [he'] at hw
          cases hw
        · rw [hkept, hzero]
          simp

theorem Rendezvous.Keeps.crash (hs : s.Keeps ctl files lost) (r : RoleName)
    (h : s.step J sock address (.crash r) = some t) : t.Keeps ctl files lost := by
  simp only [Rendezvous.step] at h
  split at h
  · cases h
  · obtain rfl := Option.some.inj h
    have hgone := hs.at_role r lost (s.bound r) none (fun _ _ => rfl) (hs.bound r)
      (fun _ _ hw => by cases hw) (hs.tcp r)
    rwa [Function.update_eq_self] at hgone

theorem Rendezvous.Keeps.exit (hs : s.Keeps ctl files lost) (r : RoleName)
    (h : s.step J sock address (.exit r) = some t) :
    t.Keeps ctl files fun q => lost q + (s.detaches J sock q (.exit r)).toNat := by
  simp only [Rendezvous.step] at h
  split at h
  · cases h
  · next w hw =>
    obtain rfl := Option.some.inj h
    have hother : ∀ q, q ≠ r → lost q + (s.detaches J sock q (.exit r)).toNat = lost q := by
      intro q hq
      simp [Rendezvous.detaches, Ne.symm hq]
    by_cases hfirst : r.isUds = true ∧ w.generation = 0
    · have hlost : (s.detaches J sock r (.exit r)).toNat = 1 := by
        simp [Rendezvous.detaches, hw, hfirst.1, hfirst.2]
      rw [if_pos hfirst]
      refine hs.at_role r _ none none hother ?_ (fun _ _ hw => by cases hw) ?_
      · rw [hlost]
        simp
      · intro htcp
        rw [hfirst.1] at htcp
        cases htcp
    · have hkept : (s.detaches J sock r (.exit r)).toNat = 0 := by
        simpa [Rendezvous.detaches, hw] using hfirst
      rw [if_neg hfirst]
      have hgone := hs.at_role r (fun q => lost q + (s.detaches J sock q (.exit r)).toNat)
        (s.bound r) none hother (by rw [hkept]; exact hs.bound r) (fun _ _ hw => by cases hw)
        (by rw [hkept]; exact hs.tcp r)
      rwa [Function.update_eq_self] at hgone

theorem Rendezvous.Keeps.upgrade (hs : s.Keeps ctl files lost) (r : RoleName) (fd : RawFd)
    (env : StartEnv F) (acked : Bool)
    (h : s.step J sock address (.upgrade r fd env acked) = some t) : t.Keeps ctl files lost := by
  simp only [Rendezvous.step] at h
  split at h
  · cases h
  · next w hw =>
    obtain ⟨hb, hl⟩ := adoptOrBind_succeeding env s r w fd
    rw [hb, Function.update_eq_self] at h
    split at h
    · next f hf =>
      obtain rfl := Option.some.inj h
      have hnext := hs.at_role r lost (s.bound r) (some ⟨f, w.generation + 1⟩) (fun _ _ => rfl)
        (hs.bound r) ?_ (hs.tcp r)
      · rwa [Function.update_eq_self] at hnext
      · intro hzero w' hw'
        cases hw'
        rw [hl f hf]
        exact hs.worker r hzero w hw
    · obtain rfl := Option.some.inj h
      exact hs

theorem Rendezvous.Keeps.step (hs : s.Keeps ctl files lost) (a : RendezvousAct F)
    (husual : s.Usual a) (h : s.step J sock address a = some t) :
    t.Keeps ctl files fun q => lost q + (s.detaches J sock q a).toNat := by
  cases a with
  | selfUpgrade a => exact hs.selfUpgrade a husual h
  | start r env => exact hs.start r env husual h
  | crash r => exact hs.crash r h
  | exit r => exact hs.exit r h
  | upgrade r fd env acked => exact hs.upgrade r fd env acked h

theorem Rendezvous.Keeps.run (hs : s.Keeps ctl files lost) (as : List (RendezvousAct F))
    (husual : Along (Rendezvous.step J sock address) Rendezvous.Usual s as)
    (h : exec (Rendezvous.step J sock address) s as = some t) :
    t.Keeps ctl files fun q =>
      lost q + tally (Rendezvous.step J sock address) (Rendezvous.detaches J sock q) s as := by
  induction as generalizing s lost with
  | nil =>
    cases h
    exact hs
  | cons a as ih =>
    obtain ⟨m, hm, hrest⟩ := exec_cons_some s t a as h
    have hend := ih (hs.step a husual.1 hm) (husual.2 m hm) hrest
    simpa only [tally, hm, Nat.add_assoc] using hend

end Run

/-- In every run of self-upgrades, starts, crashes, ends and upgrades of workers, the supervisor
keeps the socket of every role under the number it had. The address of a role names that socket
exactly as long as no UDS worker of generation 0 has ended by a signal or by `Shutdown` and none has
bound for itself because the spawner gave it nothing; then the worker that runs listens there. A
TCP port is never lost. -/
theorem workers_stay_reachable {F : Type} (J : JsonText) (sock : String) (address : Slot → String)
    (s t : Rendezvous F) (files : RoleName → F) (as : List (RendezvousAct F))
    (hunicode : ∃ vs, vars s.supervisor.environ = .ok vs)
    (hfiles : ∀ r : RoleName,
      s.supervisor.fds.file (s.supervisor.ctl r.slot) = some (files r))
    (hbound : ∀ r, s.bound r = some (files r)) (hidle : ∀ r, s.worker r = none)
    (husual : Along (Rendezvous.step J sock address) Rendezvous.Usual s as)
    (h : exec (Rendezvous.step J sock address) s as = some t) (r : RoleName) :
    t.supervisor.ctl = s.supervisor.ctl ∧
    t.supervisor.fds.file (t.supervisor.ctl r.slot) = some (files r) ∧
    (t.bound r = some (files r) ↔
      Along (Rendezvous.step J sock address) (fun s a => s.detaches J sock r a = false) s as) ∧
    (t.bound r = some (files r) → ∀ w, t.worker r = some w → w.listener = files r) ∧
    (r.isUds = false → t.bound r = some (files r)) := by
  have hstart : s.Keeps s.supervisor.ctl files fun _ => 0 := by
    refine ⟨⟨rfl, fun slot f hf => ?_, hunicode⟩, fun q => by simp [hbound q], ?_, fun _ _ => rfl⟩
    · obtain ⟨q, hq, rfl⟩ := Option.map_eq_some_iff.mp hf
      have hslot : q.slot = slot := by simpa using List.find?_some hq
      rw [← hslot]
      exact hfiles q
    · intro q _ w hw
      rw [hidle q] at hw
      cases hw
  have hend := hstart.run as husual h
  have hlost := hend.bound r
  rw [Nat.zero_add] at hlost
  refine ⟨hend.holds.numbers, hend.file r, ?_, ?_, ?_⟩
  · rw [hlost, tally_eq_zero_iff _ s t as h]
  · intro hb w hw
    exact hend.worker r ((hend.bound r).mp hb) w hw
  · intro htcp
    exact (hend.bound r).mpr (hend.tcp r htcp)

def secondGenerationFile (r : RoleName) : ℕ := 103 + openOrder.idxOf r.slot

def noWorkersYet : Rendezvous ℕ where
  supervisor := secondGeneration
  bound r := some (secondGenerationFile r)
  worker _ := none

def spawnerAnswers : StartEnv ℕ :=
  ⟨fun _ => none, none, none, none, none, none, .error "", none⟩

/-- A processor of generation 1 may end; one of generation 0 takes the path with it. -/
def processorRestarts : List (RendezvousAct ℕ) :=
  [.start .processor spawnerAnswers, .upgrade .processor (RawFd.wrap 4) spawnerAnswers true,
    .exit .processor, .start .processor spawnerAnswers]

theorem processor_reachable_after_restart :
    ∃ t, exec (Rendezvous.step compact "spawner.sock" Slot.sdName) noWorkersYet
        processorRestarts = some t ∧
      t.bound .processor = some (secondGenerationFile .processor) ∧
      ∀ w, t.worker .processor = some w → w.listener = secondGenerationFile .processor := by
  have hruns : (exec (Rendezvous.step compact "spawner.sock" Slot.sdName) noWorkersYet
      processorRestarts).isSome = true := by
    decide +kernel
  obtain ⟨t, ht⟩ := Option.isSome_iff_exists.mp hruns
  obtain ⟨-, -, hiff, hworker, -⟩ := workers_stay_reachable compact "spawner.sock" Slot.sdName
    noWorkersYet t secondGenerationFile processorRestarts ⟨_, secondGeneration_vars⟩
    (by intro r; cases r <;> decide +kernel) (fun _ => rfl) (fun _ => rfl)
    ⟨fun f hf => (by cases hf), fun _ _ => ⟨trivial, fun _ _ => ⟨trivial, fun _ _ =>
      ⟨fun f hf => (by cases hf), fun _ _ => trivial⟩⟩⟩⟩ ht .processor
  have hbound := hiff.mpr (by decide +kernel)
  exact ⟨t, ht, hbound, hworker hbound⟩

end FiveNinesEcho.Supervisor
