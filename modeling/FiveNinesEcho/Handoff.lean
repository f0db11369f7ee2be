import FiveNinesEcho.Processor.Codec
import Mathlib.Logic.Function.Basic

/-!
# What crosses an upgrade (`handoff.rs`)

The schema window (`handoff.rs:105-110`), the sentinel exit code (`handoff.rs:122`), the record a
live session is serialised as, and the steps every upgrade path shares: the close-on-exec flags, the
ready pipe, the checks before the spawn and the wait for the child's ack. What the operating system
answers is an input of these steps; they return the error they would return, innermost cause last.
-/

namespace FiveNinesEcho.Handoff
open Processor

abbrev Fd := ℕ
abbrev Pid := ℕ

def schemaVersion : ℕ := 1
def minCompatibleVersion : ℕ := 1

def isSchemaCompatible (v : ℕ) : Bool := minCompatibleVersion ≤ v && v ≤ schemaVersion

theorem isSchemaCompatible_iff (v : ℕ) : isSchemaCompatible v = true ↔ v = 1 := by
  rw [isSchemaCompatible, Bool.and_eq_true, decide_eq_true_iff, decide_eq_true_iff]
  simp only [minCompatibleVersion, schemaVersion]
  omega

def upgradeCommitExitCode : ℕ := 23

inductive Transport where
  | uds
  | tcp
  deriving Repr, DecidableEq

/-- `SessionHandoff` (`handoff.rs:138-173`). -/
structure SessionHandoff where
  udsFd : Fd
  transport : Transport
  partialLineBytes : Bytes
  pendingWriteBytes : Bytes
  linesEchoed : ℕ
  connectedAtUnixMs : ℕ
  peer : String
  ident : Option String
  traceId : String
  version : ℕ
  deriving Repr, DecidableEq

/-! ### Fallible steps (`handoff.rs:343-404`, `handoff.rs:574-629`, `handoff.rs:673-681`) -/

/-- An `anyhow::Error`: the contexts put around it, outermost first, then its cause. -/
abbrev Error := List String

def context (c : String) (r : Option Error) : Option Error := r.map (c :: ·)

inductive Fcntl where
  | ok
  | getfd (e : String)
  | setfd (e : String)
  deriving Repr, DecidableEq

def Fcntl.error : Fcntl → Option Error
  | .ok => none
  | .getfd e => some ["F_GETFD", e]
  | .setfd e => some ["F_SETFD", e]

/-- The flags of a process's descriptors, and the `close` calls it has made, in order. -/
structure FdTable where
  cloexec : Fd → Bool
  closed : List Fd

/-- `clear_cloexec` and `set_cloexec` (`handoff.rs:583-590`, `handoff.rs:673-681`). -/
def FdTable.setFlag (t : FdTable) (fd : Fd) (flag : Bool) : Fcntl → FdTable
  | .ok => { t with cloexec := Function.update t.cloexec fd flag }
  | _ => t

def FdTable.close (t : FdTable) (fd : Fd) : FdTable := { t with closed := t.closed ++ [fd] }

structure ReadyPipe where
  pipe : Option String
  setCloexec : Fcntl

def makeReadyPipe (r : ReadyPipe) : Option Error :=
  match r.pipe with
  | some e => some ["pipe", e]
  | none => r.setCloexec.error

/-- `cap_mode_handoff` (`handoff.rs:343-376`), which only FreeBSD builds have: `fds` are the
answers for the self-exe descriptor and the directory descriptors at hand. -/
structure CapMode where
  sandboxOff : Bool
  configJson : Option String
  fds : List Fcntl

def capModeHandoff (targetOverridden : Bool) (m : CapMode) : Option Error :=
  if targetOverridden || m.sandboxOff then none
  else match m.configJson with
    | some e => some ["serialize config for handoff", e]
    | none => m.fds.findSome? Fcntl.error

def staticMessage : String :=
  "in-place upgrade under FreeBSD Capsicum capability mode requires a statically-linked binary — " ++
  "build with scripts/build-static.sh. A dynamically-linked successor cannot exec because fexecve " ++
  "triggers a path-based load of /libexec/ld-elf.so.1, which ECAPMODE rejects."

def requireStaticForCapmodeUpgrade (inCapsicumMode elfHasInterpreter : Bool) : Option Error :=
  if inCapsicumMode && elfHasInterpreter then some [staticMessage] else none

inductive Ready where
  | timedOut (e : String)
  | join (e : String)
  | read (e : String)
  | bytes (b : Bytes)
  deriving Repr, DecidableEq

def okBytes : Bytes := [111, 107]

/-- `wait_for_child_ready` (`handoff.rs:610-629`). -/
def waitForChildReady : Ready → Option Error
  | .timedOut e => some ["upgrade ready signal timed out", e]
  | .join e => some ["ready-wait join", e]
  | .read e => some ["read ready pipe", e]
  | .bytes b =>
    if b = [] then some ["upgrade child closed ready pipe without signaling"]
    else if okBytes.isPrefixOf b then none
    else some ["upgrade child sent non-ok ready signal"]

end FiveNinesEcho.Handoff
