import FiveNinesEcho.Control.Envelope
import FiveNinesEcho.Supervisor.SelfUpgrade
import FiveNinesEcho.Supervisor.Walk

/-!
# `echod upgrade` (`main.rs:66-146`, `admin.rs:15-98`, `supervisor/admin.rs:301-345`)

The command line is read twice. `--config` and the word after it are taken out first, wherever they
stand, be it behind an option that wants a value; the subcommand reads what is left from left to
right. What was read goes to the supervisor as one line and becomes the request of a rolling
upgrade.
-/

namespace FiveNinesEcho.Admin
open Lib Control Processor
open Supervisor (parseUnsigned RollingUpgradeRequest RoleName)

/-! ### Reading the command line -/

def extractConfigFlag : List String → Option PathBuf × List String
  | [] => (none, [])
  | [a] => (none, [a])
  | a :: v :: rest =>
    if a = "--config" then
      ((extractConfigFlag rest).1.or (some (utf8 v)), (extractConfigFlag rest).2)
    else ((extractConfigFlag (v :: rest)).1, a :: (extractConfigFlag (v :: rest)).2)

def subcommands : List String :=
  ["grandparent", "supervisor", "processor", "plain", "tls", "scanner", "upgrade", "status",
    "drain", "reload", "help", "--help", "-h"]

def parseCliArgs (args : List String) : Except String (String × Option PathBuf × List String) :=
  let (configPath, args) := extractConfigFlag args
  let sub := args.headD "supervisor"
  if sub ∈ subcommands then .ok (sub, configPath, args.tail)
  else .error ("unknown subcommand: " ++ sub)

structure UpgradeArgs where
  binaryPath : Option PathBuf
  includeTls : Bool
  canarySecs : Option UInt64
  onlyRole : Option String
  deriving Repr, DecidableEq

def UpgradeArgs.none : UpgradeArgs := ⟨.none, false, .none, .none⟩

def UpgradeArgs.msg (a : UpgradeArgs) : ControlMsg :=
  .upgrade a.binaryPath a.includeTls a.canarySecs a.onlyRole

/-- The loop of `run_upgrade`: the message to send, or nothing when help was asked for. -/
def runUpgrade (st : UpgradeArgs) : List String → Except String (Option ControlMsg)
  | [] => .ok (some st.msg)
  | a :: rest =>
    if a = "--target" ∨ a = "-t" then match rest with
      | v :: rest => runUpgrade { st with binaryPath := some (utf8 v) } rest
      | [] => .error "--target requires a path argument"
    else if a = "--include-tls" then runUpgrade { st with includeTls := true } rest
    else if a = "--canary" then match rest with
      | v :: rest => match parseUnsigned (2 ^ 64) v with
        | some n => runUpgrade { st with canarySecs := some (UInt64.ofNat n) } rest
        | none => .error "--canary must be a non-negative integer"
      | [] => .error "--canary requires a seconds value"
    else if a = "--role" ∨ a = "-r" then match rest with
      | v :: rest => runUpgrade { st with onlyRole := some v } rest
      | [] => .error "--role requires a worker name"
    else if a = "--help" ∨ a = "-h" then .ok none
    else .error ("unknown argument: " ++ a)

/-- `main` for this subcommand: where the configuration is, and the message. -/
def upgradeCommand (args : List String) : Except String (Option (Option PathBuf × ControlMsg)) := do
  let (role, configPath, rest) ← parseCliArgs args
  if role = "upgrade" then return (← runUpgrade .none rest).map (configPath, ·)
  else return none

/-- The request `handle_admin_request` makes of the message; a path it was given as text is text. -/
def upgradeRequest : ControlMsg → Option RollingUpgradeRequest
  | .upgrade binaryPath includeTls canarySecs onlyRole =>
    some ⟨binaryPath.bind fromUtf8, includeTls, canarySecs.map UInt64.toNat, onlyRole⟩
  | _ => none

/-! ### The words of the first reading -/

inductive Word where
  | config (path : String)
  | other (word : String)
  deriving Repr, DecidableEq

def Word.words : Word → List String
  | .config path => ["--config", path]
  | .other word => [word]

def Word.config? : Word → Option String
  | .config path => some path
  | .other _ => none

def Word.other? : Word → Option String
  | .config _ => none
  | .other word => some word

/-- A `--config` that has nothing after it is a word like any other. -/
def Readable (ws : List Word) : Prop := ∀ w ∈ ws.dropLast, w ≠ .other "--config"

theorem getLast?_cons_or {α : Type} (a : α) (l : List α) :
    (a :: l).getLast? = l.getLast?.or (some a) := by
  rw [List.getLast?_cons]
  cases l.getLast? <;> rfl

theorem Readable.tail {w : Word} {ws : List Word} (h : Readable (w :: ws)) : Readable ws := by
  intro x hx
  cases ws with
  | nil => simp at hx
  | cons w' ws => exact h x (List.mem_cons_of_mem _ hx)

theorem Readable.cons {w : Word} {ws : List Word} (hw : w ≠ .other "--config") (h : Readable ws) :
    Readable (w :: ws) := by
  intro x hx
  cases ws with
  | nil => simp at hx
  | cons w' ws =>
    rcases List.mem_cons.mp hx with rfl | hx
    · exact hw
    · exact h x hx

theorem extractConfigFlag_words (ws : List Word) (h : Readable ws) :
    extractConfigFlag (ws.flatMap Word.words) =
      ((ws.filterMap Word.config?).getLast?.map utf8, ws.filterMap Word.other?) := by
  induction ws with
  | nil => rfl
  | cons w ws ih =>
    have ih := ih h.tail
    cases w with
    | config path =>
      rw [List.flatMap_cons, Word.words, List.cons_append, List.cons_append, List.nil_append,
        extractConfigFlag, if_pos rfl, ih]
      simp only [List.filterMap_cons, Word.config?, Word.other?, getLast?_cons_or, Option.map_or,
        Option.map_some]
    | other word =>
      cases hrest : ws.flatMap Word.words with
      | nil =>
        rw [hrest] at ih
        obtain ⟨hconfig, hother⟩ := Prod.mk.inj ih
        simp only [List.flatMap_cons, hrest, Word.words, List.append_nil, extractConfigFlag,
          List.filterMap_cons, Word.config?, Word.other?, ← hconfig, ← hother]
      | cons v rest =>
        -- something follows, so the word is not `--config`
        have hne : word ≠ "--config" := by
          cases ws with
          | nil => simp at hrest
          | cons w' ws =>
            intro heq
            exact h (.other word) (List.mem_cons_self ..) (by rw [heq])
        rw [hrest] at ih
        rw [List.flatMap_cons, hrest, Word.words, List.cons_append, List.nil_append,
          extractConfigFlag, if_neg hne, ih]
        simp only [List.filterMap_cons, Word.config?, Word.other?]

theorem readable_words (args : List String) :
    ∃ ws, Readable ws ∧ args = ws.flatMap Word.words := by
  fun_induction extractConfigFlag args with
  | case1 => exact ⟨[], by simp [Readable], rfl⟩
  | case2 a => exact ⟨[.other a], by simp [Readable], rfl⟩
  | case3 v rest ih =>
    obtain ⟨ws, hws, rfl⟩ := ih
    exact ⟨.config v :: ws, hws.cons (by simp), rfl⟩
  | case4 a v rest hne ih =>
    obtain ⟨ws, hws, heq⟩ := ih
    exact ⟨.other a :: ws, hws.cons (by simpa using hne), by rw [List.flatMap_cons, ← heq]; rfl⟩

/-! ### The options of the second -/

inductive UpgradeOption where
  | target (short : Bool) (path : String)
  | includeTls
  | canary (secs : String)
  | role (short : Bool) (name : String)
  deriving Repr, DecidableEq

namespace UpgradeOption

def words : UpgradeOption → List String
  | .target short path => [if short then "-t" else "--target", path]
  | .includeTls => ["--include-tls"]
  | .canary secs => ["--canary", secs]
  | .role short name => [if short then "-r" else "--role", name]

def target? : UpgradeOption → Option String
  | .target _ path => some path
  | _ => none

/-- The seconds of a `--canary`, one that is a number of 64 bits. -/
def canary? : UpgradeOption → Option ℕ
  | .canary secs => parseUnsigned (2 ^ 64) secs
  | _ => none

def role? : UpgradeOption → Option String
  | .role _ name => some name
  | _ => none

def Accepted : UpgradeOption → Prop
  | .canary secs => (parseUnsigned (2 ^ 64) secs).isSome = true
  | _ => True

def apply (st : UpgradeArgs) : UpgradeOption → UpgradeArgs
  | .target _ path => { st with binaryPath := some (utf8 path) }
  | .includeTls => { st with includeTls := true }
  | .canary secs => { st with canarySecs := (parseUnsigned (2 ^ 64) secs).map UInt64.ofNat }
  | .role _ name => { st with onlyRole := some name }

end UpgradeOption

/-- What a sequence of options says: the last of each kind. -/
def UpgradeArgs.of (opts : List UpgradeOption) : UpgradeArgs where
  binaryPath := (opts.filterMap UpgradeOption.target?).getLast?.map utf8
  includeTls := opts.contains .includeTls
  canarySecs := (opts.filterMap UpgradeOption.canary?).getLast?.map UInt64.ofNat
  onlyRole := (opts.filterMap UpgradeOption.role?).getLast?

theorem runUpgrade_option (o : UpgradeOption) (ho : o.Accepted) (st : UpgradeArgs)
    (rest : List String) : runUpgrade st (o.words ++ rest) = runUpgrade (o.apply st) rest := by
  cases o with
  | target short path => cases short <;> rfl
  | includeTls => cases rest <;> rfl
  | canary secs =>
    obtain ⟨n, hn⟩ := Option.isSome_iff_exists.mp ho
    have happly : UpgradeOption.apply st (.canary secs) =
        { st with canarySecs := some (UInt64.ofNat n) } := by
      rw [UpgradeOption.apply, hn, Option.map_some]
    have hread : runUpgrade st ("--canary" :: secs :: rest) =
        match parseUnsigned (2 ^ 64) secs with
        | some n => runUpgrade { st with canarySecs := some (UInt64.ofNat n) } rest
        | none => .error "--canary must be a non-negative integer" := rfl
    rw [UpgradeOption.words, List.cons_append, List.cons_append, List.nil_append, hread, hn, happly]
  | role short name => cases short <;> rfl

theorem runUpgrade_options (opts : List UpgradeOption) (h : ∀ o ∈ opts, o.Accepted)
    (st : UpgradeArgs) : runUpgrade st (opts.flatMap UpgradeOption.words) =
      .ok (some (opts.foldl UpgradeOption.apply st).msg) := by
  induction opts generalizing st with
  | nil => rfl
  | cons o opts ih =>
    rw [List.flatMap_cons, runUpgrade_option o (h o (List.mem_cons_self ..)),
      ih fun x hx => h x (List.mem_cons_of_mem _ hx)]
    rfl

/-- The words are accepted options, and the message says what they make of `st`. -/
def Spells (st : UpgradeArgs) (args : List String) (msg : ControlMsg) : Prop :=
  ∃ opts : List UpgradeOption, (∀ o ∈ opts, o.Accepted) ∧
    args = opts.flatMap UpgradeOption.words ∧ msg = (opts.foldl UpgradeOption.apply st).msg

theorem Spells.cons {st : UpgradeArgs} {args : List String} {msg : ControlMsg} (o : UpgradeOption)
    (ho : o.Accepted) (h : Spells (o.apply st) args msg) : Spells st (o.words ++ args) msg := by
  obtain ⟨opts, hall, rfl, rfl⟩ := h
  exact ⟨o :: opts, List.forall_mem_cons.mpr ⟨ho, hall⟩, rfl, rfl⟩

theorem spells_of_runUpgrade {st : UpgradeArgs} {args : List String} {msg : ControlMsg}
    (h : runUpgrade st args = .ok (some msg)) : Spells st args msg := by
  fun_induction runUpgrade st args with
  | case1 st =>
    cases h
    exact ⟨[], by simp, rfl, rfl⟩
  | case2 st a ha v rest ih =>
    have hrest := ih h
    rcases ha with rfl | rfl
    · exact hrest.cons (.target false v) trivial
    · exact hrest.cons (.target true v) trivial
  | case4 st rest _ ih => exact (ih h).cons .includeTls trivial
  | case5 st v rest n hn _ _ ih =>
    refine Spells.cons (.canary v) (Option.isSome_iff_exists.mpr ⟨n, hn⟩) ?_
    rw [UpgradeOption.apply, hn]
    exact ih h
  | case8 st a _ _ _ ha v rest ih =>
    have hrest := ih h
    rcases ha with rfl | rfl
    · exact hrest.cons (.role false v) trivial
    · exact hrest.cons (.role true v) trivial
  | _ => cases h

/-- What is said later counts. -/
def UpgradeArgs.over (new old : UpgradeArgs) : UpgradeArgs where
  binaryPath := new.binaryPath.or old.binaryPath
  includeTls := new.includeTls || old.includeTls
  canarySecs := new.canarySecs.or old.canarySecs
  onlyRole := new.onlyRole.or old.onlyRole

theorem UpgradeArgs.over_none (a : UpgradeArgs) : a.over .none = a := by
  simp [UpgradeArgs.over, UpgradeArgs.none]

theorem UpgradeArgs.of_cons (o : UpgradeOption) (ho : o.Accepted) (opts : List UpgradeOption)
    (st : UpgradeArgs) :
    (UpgradeArgs.of opts).over (o.apply st) = (UpgradeArgs.of (o :: opts)).over st := by
  cases o with
  | target short path =>
    simp only [UpgradeArgs.of, UpgradeArgs.over, UpgradeOption.apply, UpgradeOption.target?,
      UpgradeOption.canary?, UpgradeOption.role?, List.filterMap_cons, getLast?_cons_or,
      Option.map_or, Option.map_some, Option.or_assoc]
    simp
  | includeTls =>
    simp [UpgradeArgs.of, UpgradeArgs.over, UpgradeOption.apply, UpgradeOption.target?,
      UpgradeOption.canary?, UpgradeOption.role?]
  | canary secs =>
    obtain ⟨n, hn⟩ := Option.isSome_iff_exists.mp ho
    simp only [UpgradeArgs.of, UpgradeArgs.over, UpgradeOption.apply, UpgradeOption.target?,
      UpgradeOption.canary?, UpgradeOption.role?, List.filterMap_cons, hn, getLast?_cons_or,
      Option.map_or, Option.map_some, Option.or_assoc]
    simp
  | role short name =>
    simp [UpgradeArgs.of, UpgradeArgs.over, UpgradeOption.apply, UpgradeOption.target?,
      UpgradeOption.canary?, UpgradeOption.role?, getLast?_cons_or]

theorem foldl_apply (opts : List UpgradeOption) (h : ∀ o ∈ opts, o.Accepted) (st : UpgradeArgs) :
    opts.foldl UpgradeOption.apply st = (UpgradeArgs.of opts).over st := by
  induction opts generalizing st with
  | nil => simp [UpgradeArgs.of, UpgradeArgs.over]
  | cons o opts ih =>
    obtain ⟨ho, hopts⟩ := List.forall_mem_cons.mp h
    rw [List.foldl_cons, ih hopts, UpgradeArgs.of_cons o ho]

theorem runUpgrade_iff (args : List String) (msg : ControlMsg) :
    runUpgrade .none args = .ok (some msg) ↔
      ∃ opts : List UpgradeOption, (∀ o ∈ opts, o.Accepted) ∧
        args = opts.flatMap UpgradeOption.words ∧ msg = (UpgradeArgs.of opts).msg := by
  constructor
  · intro h
    obtain ⟨opts, hall, hargs, hmsg⟩ := spells_of_runUpgrade h
    exact ⟨opts, hall, hargs, by rw [hmsg, foldl_apply opts hall, UpgradeArgs.over_none]⟩
  · rintro ⟨opts, hall, rfl, rfl⟩
    rw [runUpgrade_options opts hall, foldl_apply opts hall, UpgradeArgs.over_none]

/-! ### Both readings -/

theorem upgradeCommand_iff_parts (args : List String) (config : Option PathBuf) (msg : ControlMsg) :
    upgradeCommand args = .ok (some (config, msg)) ↔
      ∃ rest, extractConfigFlag args = (config, "upgrade" :: rest) ∧
        runUpgrade .none rest = .ok (some msg) := by
  rcases hextract : extractConfigFlag args with ⟨c, words⟩
  have hparse : parseCliArgs args =
      if words.headD "supervisor" ∈ subcommands then
        .ok (words.headD "supervisor", c, words.tail)
      else .error ("unknown subcommand: " ++ words.headD "supervisor") := by
    simp only [parseCliArgs, hextract]
  have hword : (∃ rest, words = "upgrade" :: rest) ↔ words.headD "supervisor" = "upgrade" := by
    cases words <;> simp
  unfold upgradeCommand
  rw [hparse]
  constructor
  · intro h
    by_cases hup : words.headD "supervisor" = "upgrade"
    · obtain ⟨rest, rfl⟩ := hword.mpr hup
      rw [if_pos (by rw [hup]; decide)] at h
      cases hrun : runUpgrade .none rest with
      | error e => simp [bind, Except.bind, hrun] at h
      | ok m =>
        simp only [bind, Except.bind, List.headD_cons, if_true, List.tail_cons, hrun, pure,
          Except.pure, Except.ok.injEq, Option.map_eq_some_iff, Prod.mk.injEq] at h
        obtain ⟨m', rfl, rfl, rfl⟩ := h
        exact ⟨rest, rfl, hrun⟩
    · split at h
      · simp only [bind, Except.bind, if_neg hup, pure, Except.pure, Except.ok.injEq] at h
        cases h
      · cases h
  · rintro ⟨rest, heq, hrun⟩
    obtain ⟨rfl, rfl⟩ := Prod.mk.inj heq
    rw [if_pos (by simp [subcommands])]
    simp [bind, Except.bind, pure, Except.pure, hrun]

theorem UpgradeArgs.of_textual (opts : List UpgradeOption) :
    ControlMsg.Textual (UpgradeArgs.of opts).msg := by
  unfold UpgradeArgs.msg UpgradeArgs.of
  cases (opts.filterMap UpgradeOption.target?).getLast? with
  | none => trivial
  | some path => exact ⟨path, rfl⟩

theorem UpgradeArgs.of_request (opts : List UpgradeOption) :
    upgradeRequest (UpgradeArgs.of opts).msg = some
      { binaryPath := (opts.filterMap UpgradeOption.target?).getLast?
        includeTls := opts.contains .includeTls
        canarySecs := (opts.filterMap UpgradeOption.canary?).getLast?
        onlyRole := (opts.filterMap UpgradeOption.role?).getLast? } := by
  have hpath : ((opts.filterMap UpgradeOption.target?).getLast?.map utf8).bind fromUtf8 =
      (opts.filterMap UpgradeOption.target?).getLast? := by
    cases (opts.filterMap UpgradeOption.target?).getLast? with
    | none => rfl
    | some path => exact fromUtf8_utf8 path
  have hsecs : ((opts.filterMap UpgradeOption.canary?).getLast?.map UInt64.ofNat).map UInt64.toNat =
      (opts.filterMap UpgradeOption.canary?).getLast? := by
    cases hlast : (opts.filterMap UpgradeOption.canary?).getLast? with
    | none => rfl
    | some n =>
      obtain ⟨o, -, ho⟩ := List.mem_filterMap.mp (List.mem_of_getLast? hlast)
      have hn : n < 2 ^ 64 := by
        cases o <;> simp only [UpgradeOption.canary?, reduceCtorEq] at ho
        exact Supervisor.parseUnsigned_lt ho
      rw [Option.map_some, Option.map_some, UInt64.toNat_ofNat', Nat.mod_eq_of_lt hn]
  simp only [UpgradeArgs.msg, UpgradeArgs.of, upgradeRequest, hpath, hsecs]

/-- The command line `echod upgrade` understands, and what becomes of it. It is a sequence of words
from which `--config` and its values are taken, wherever they stand; the rest is `upgrade` and
options, the last of each kind counting. The message has a line, and whoever reads the line in
whatever chunks, if it is not longer than a line may be, gets the message; the supervisor's request
names the same binary, the same seconds and the same role. -/
theorem upgrade_command_arrives (J : JsonText) (C : Codec) (args : List String)
    (config : Option PathBuf) (msg : ControlMsg) :
    (upgradeCommand args = .ok (some (config, msg)) ↔
      ∃ (ws : List Word) (opts : List UpgradeOption), Readable ws ∧ args = ws.flatMap Word.words ∧
        ws.filterMap Word.other? = "upgrade" :: opts.flatMap UpgradeOption.words ∧
        (∀ o ∈ opts, o.Accepted) ∧
        config = (ws.filterMap Word.config?).getLast?.map utf8 ∧
        msg = (UpgradeArgs.of opts).msg) ∧
    ∀ opts : List UpgradeOption, msg = (UpgradeArgs.of opts).msg →
      ∃ line, envelopeLine J ControlMsg.wire msg = some line ∧
        ((utf8 line).length ≤ maxLength + 1 → ∀ chunks : List Bytes, chunks.flatten = utf8 line →
          receive J C ControlMsg.wire chunks = ([.ok msg], true)) ∧
        upgradeRequest msg = some
          { binaryPath := (opts.filterMap UpgradeOption.target?).getLast?
            includeTls := opts.contains .includeTls
            canarySecs := (opts.filterMap UpgradeOption.canary?).getLast?
            onlyRole := (opts.filterMap UpgradeOption.role?).getLast? } := by
  refine ⟨?_, fun opts hmsg => ?_⟩
  · rw [upgradeCommand_iff_parts]
    constructor
    · rintro ⟨rest, hextract, hrun⟩
      obtain ⟨ws, hws, rfl⟩ := readable_words args
      obtain ⟨opts, hall, rfl, rfl⟩ := (runUpgrade_iff rest msg).mp hrun
      obtain ⟨hconfig, hother⟩ := Prod.mk.inj ((extractConfigFlag_words ws hws).symm.trans hextract)
      exact ⟨ws, opts, hws, rfl, hother, hall, hconfig.symm, rfl⟩
    · rintro ⟨ws, opts, hws, rfl, hother, hall, rfl, rfl⟩
      refine ⟨opts.flatMap UpgradeOption.words, ?_, (runUpgrade_iff _ _).mpr ⟨opts, hall, rfl, rfl⟩⟩
      rw [extractConfigFlag_words ws hws, hother]
  · have htextual : ∀ t ∈ [msg], ControlMsg.wire.Textual t := by
      intro t ht
      rw [List.mem_singleton.mp ht, hmsg]
      exact UpgradeArgs.of_textual opts
    obtain ⟨frames, hframes, hread⟩ := (ControlMsg.wire.faithful J C).stream [msg] htextual
    simp only [List.mapM_cons, List.mapM_nil, Option.pure_def, Option.bind_eq_bind,
      Option.bind_some, Option.bind_eq_some_iff, Option.some.injEq] at hframes
    obtain ⟨line, hline, rfl⟩ := hframes
    refine ⟨line, hline, fun hlen chunks hchunks => ?_, ?_⟩
    · exact hread (by simpa using hlen) chunks (by simpa using hchunks)
    · rw [hmsg]
      exact UpgradeArgs.of_request opts

end FiveNinesEcho.Admin
