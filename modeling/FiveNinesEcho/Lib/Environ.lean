import FiveNinesEcho.Lib.Table
import FiveNinesEcho.Lib.Utf8
import Mathlib.Data.List.Perm.Basic
import Mathlib.Data.List.TakeDrop
import Mathlib.Data.List.TakeWhile

/-!
# The environment of a process

An environment block is a list of C strings `name=value`. `varsOs` are the variables a process reads
off its block, as bytes, and `vars` the same as text, for a program that insists on text. `Command`
is the environment a program has set up for a child: changes to the one it has itself, made when the
child is started.
-/

namespace FiveNinesEcho.Lib

abbrev OsString := List UInt8

structure CString where
  bytes : List UInt8
  noNul : 0 ∉ bytes
  deriving DecidableEq

def CString.new (b : List UInt8) : Option CString := if h : 0 ∈ b then none else some ⟨b, h⟩

/-! ### Reading a block -/

abbrev Var := OsString × OsString

def equals : UInt8 := 61

def entry (var : Var) : OsString := var.1 ++ equals :: var.2

/-- A name is not empty, so it may begin with a `=`; what has no `=` after that is skipped. -/
def readVar : List UInt8 → Option Var
  | [] => none
  | b :: bs => match bs.span (· != equals) with
    | (_, []) => none
    | (name, _ :: value) => some (b :: name, value)

def varsOs (environ : List CString) : List Var := environ.filterMap fun e => readVar e.bytes

/-- The error is the string that is no text. -/
def intoString (b : OsString) : Except OsString String :=
  match fromUtf8 b with
  | some s => .ok s
  | none => .error b

def intoStrings (var : Var) : Except OsString (String × String) := do
  return (← intoString var.1, ← intoString var.2)

def vars (environ : List CString) : Except OsString (List (String × String)) :=
  (varsOs environ).mapM intoStrings

def IsName (k : OsString) : Prop := k ≠ [] ∧ equals ∉ k.tail

theorem readVar_entry (k v : OsString) (h : IsName k) : readVar (entry (k, v)) = some (k, v) := by
  obtain ⟨hne, htail⟩ := h
  cases k with
  | nil => exact absurd rfl hne
  | cons b k =>
    have hname : ∀ c ∈ k, (c != equals) = true := by
      intro c hc
      rw [bne_iff_ne]
      rintro rfl
      exact htail hc
    have hspan : (k ++ equals :: v).span (· != equals) = (k, equals :: v) := by
      rw [List.span_eq_takeWhile_dropWhile, List.takeWhile_append_of_pos hname,
        List.dropWhile_append_of_pos hname]
      simp
    simp only [entry, List.cons_append, readVar, hspan]

theorem entry_of_readVar {b : List UInt8} {k v : OsString} (h : readVar b = some (k, v)) :
    b = entry (k, v) ∧ IsName k := by
  cases b with
  | nil => cases h
  | cons c bs =>
    have hbs := List.takeWhile_append_dropWhile (p := (· != equals)) (l := bs)
    simp only [readVar, List.span_eq_takeWhile_dropWhile] at h
    split at h
    · cases h
    · next name d value hspan =>
      cases h
      obtain ⟨hname, hrest⟩ := Prod.mk.inj hspan
      have hd : d = equals := by
        have hhead := List.head?_dropWhile_not (· != equals) bs
        simp only [hrest, List.head?_cons] at hhead
        simpa using hhead
      rw [hname, hrest, hd] at hbs
      refine ⟨by rw [entry, ← hbs]; rfl, List.cons_ne_nil _ _, ?_⟩
      intro hmem
      rw [List.tail_cons, ← hname] at hmem
      have hpos := List.mem_takeWhile_imp hmem
      simp at hpos

theorem mem_varsOs {environ : List CString} {k v : OsString} (h : (k, v) ∈ varsOs environ) :
    IsName k ∧ 0 ∉ k ∧ 0 ∉ v := by
  obtain ⟨e, -, he⟩ := List.mem_filterMap.mp h
  obtain ⟨hentry, hname⟩ := entry_of_readVar he
  have hnul := e.noNul
  rw [hentry] at hnul
  simp only [entry, List.mem_append, List.mem_cons, not_or] at hnul
  exact ⟨hname, hnul.1, hnul.2.2⟩

/-- `env::var_os`: the value of the first entry of the name. -/
def varOs (environ : List CString) (key : OsString) : Option OsString :=
  ((varsOs environ).find? fun var => var.1 == key).map Prod.snd

theorem varOs_eq_none_iff (environ : List CString) (key : OsString) :
    varOs environ key = none ↔ ∀ v, (key, v) ∉ varsOs environ := by
  simp only [varOs, Option.map_eq_none_iff, List.find?_eq_none, beq_iff_eq, Prod.forall]
  constructor
  · intro h v hv
    exact h key v hv rfl
  · rintro h k v hv rfl
    exact h v hv

/-- A name that has one value has it, wherever its entries stand. -/
theorem varOs_eq_some_iff {environ : List CString} {key : OsString}
    (h : ∀ v w, (key, v) ∈ varsOs environ → (key, w) ∈ varsOs environ → v = w) (v : OsString) :
    varOs environ key = some v ↔ (key, v) ∈ varsOs environ := by
  constructor
  · intro hv
    obtain ⟨⟨k, w⟩, hfind, rfl⟩ := Option.map_eq_some_iff.mp hv
    have hk : k = key := by simpa using List.find?_some hfind
    exact hk ▸ List.mem_of_find?_eq_some hfind
  · intro hv
    cases hw : varOs environ key with
    | none => exact absurd hv ((varOs_eq_none_iff environ key).mp hw v)
    | some w =>
      obtain ⟨⟨k, w'⟩, hfind, rfl⟩ := Option.map_eq_some_iff.mp hw
      have hk : k = key := by simpa using List.find?_some hfind
      rw [h v w' hv (hk ▸ List.mem_of_find?_eq_some hfind)]

/-! ### Reading it as text -/

def IsUnicode (b : OsString) : Prop := ∃ s, b = utf8 s

theorem intoString_eq_ok_iff (b : OsString) (s : String) : intoString b = .ok s ↔ b = utf8 s := by
  unfold intoString
  constructor
  · intro h
    split at h
    · next t ht =>
      cases h
      exact (utf8_of_fromUtf8 b s ht).symm
    · cases h
  · rintro rfl
    rw [fromUtf8_utf8]

def utf8Var (kv : String × String) : Var := (utf8 kv.1, utf8 kv.2)

theorem utf8Var_injective : Function.Injective utf8Var := by
  intro a b h
  obtain ⟨hk, hv⟩ := Prod.mk.inj h
  exact Prod.ext (utf8_injective hk) (utf8_injective hv)

theorem intoStrings_eq_ok_iff (var : Var) (kv : String × String) :
    intoStrings var = .ok kv ↔ var = utf8Var kv := by
  obtain ⟨k, v⟩ := var
  have hk := intoString_eq_ok_iff k
  have hv := intoString_eq_ok_iff v
  simp only [intoStrings, utf8Var, Prod.mk.injEq]
  rw [← hk, ← hv]
  cases intoString k with
  | error e => simp [bind, Except.bind]
  | ok s =>
    cases intoString v with
    | error e => simp [bind, Except.bind]
    | ok t => simp [bind, Except.bind, pure, Except.pure, Prod.ext_iff]

theorem vars_eq_ok_iff (environ : List CString) (vs : List (String × String)) :
    vars environ = .ok vs ↔ varsOs environ = vs.map utf8Var := by
  unfold vars
  generalize varsOs environ = l
  induction l generalizing vs with
  | nil => cases vs <;> simp [pure, Except.pure]
  | cons var l ih =>
    have hvar := intoStrings_eq_ok_iff var
    rw [List.mapM_cons]
    constructor
    · intro h
      cases hs : intoStrings var with
      | error e => simp [hs, bind, Except.bind] at h
      | ok kv =>
        cases hl : l.mapM intoStrings with
        | error e => simp [hs, hl, bind, Except.bind] at h
        | ok ws =>
          simp only [hs, hl, bind, Except.bind, pure, Except.pure, Except.ok.injEq] at h
          subst h
          rw [List.map_cons, (hvar kv).mp hs, (ih ws).mp hl]
    · intro h
      cases vs with
      | nil => cases h
      | cons kv ws =>
        obtain ⟨h1, h2⟩ := List.cons.inj h
        rw [(hvar kv).mpr h1, (ih ws).mpr h2]
        rfl

theorem vars_ok_iff (environ : List CString) :
    (∃ vs, vars environ = .ok vs) ↔
      ∀ var ∈ varsOs environ, IsUnicode var.1 ∧ IsUnicode var.2 := by
  simp only [vars_eq_ok_iff]
  generalize varsOs environ = l
  constructor
  · rintro ⟨vs, rfl⟩ var hvar
    obtain ⟨kv, -, rfl⟩ := List.mem_map.mp hvar
    exact ⟨⟨kv.1, rfl⟩, ⟨kv.2, rfl⟩⟩
  · intro h
    induction l with
    | nil => exact ⟨[], rfl⟩
    | cons var l ih =>
      obtain ⟨⟨k, hk⟩, ⟨v, hv⟩⟩ := h var List.mem_cons_self
      obtain ⟨vs, hvs⟩ := ih fun w hw => h w (List.mem_cons_of_mem _ hw)
      exact ⟨(k, v) :: vs, by rw [List.map_cons, ← hvs, utf8Var, ← hk, ← hv]⟩

theorem toString_noNul (n : ℕ) : 0 ∉ utf8 (toString n) := by
  refine utf8_noNul fun c hc => ?_
  rw [Nat.toString_eq_ofList_toDigits, String.toList_ofList] at hc
  have hdigit := Nat.isDigit_of_mem_toDigits (by decide) (by decide) hc
  rintro hzero
  have hnul : c = '\x00' := Char.toNat_inj.mp hzero
  rw [hnul] at hdigit
  cases hdigit

theorem utf8_entry (kv : String × String) : utf8 (kv.1 ++ "=" ++ kv.2) = entry (utf8Var kv) := by
  have hequals : utf8 "=" = [equals] := by decide
  rw [utf8_append, utf8_append, hequals, entry, utf8Var, List.append_assoc, List.singleton_append]

/-! ### The environment of a child -/

/-- The order of a `BTreeMap`. -/
def byKey (β : Type) : Iteration (Sigma fun _ : OsString => β) where
  order l := l.mergeSort fun e f => decide (e.1 ≤ f.1)
  perm l := List.mergeSort_perm l _

/-- The variables set, and those removed, of the ones the child would inherit. -/
structure Command where
  envs : Table OsString (Option OsString)

def Command.new : Command := ⟨∅⟩

def Command.env (cmd : Command) (k v : OsString) : Command := ⟨cmd.envs.insert k (some v)⟩

def Command.envRemove (cmd : Command) (k : OsString) : Command := ⟨cmd.envs.insert k none⟩

def setTo {α β : Type} (kv : α × β) : α × Option β := (kv.1, some kv.2)

def unset {α β : Type} (k : α) : α × Option β := (k, none)

def Command.captureEnv (cmd : Command) (environ : List CString) : Table OsString OsString :=
  Table.changed (Table.changed ∅ ((varsOs environ).map setTo)) (Table.walk (byKey _) cmd.envs)

/-- The block for a list of variables; there is none if a NUL is found in one. -/
def constructEnvp (vars : List Var) : Option (List CString) :=
  vars.mapM fun var => CString.new (entry var)

def Command.changed (cmd : Command) (cs : List (OsString × Option OsString)) : Command :=
  cs.foldl (fun cmd c => ⟨cmd.envs.insert c.1 c.2⟩) cmd

theorem latest_setTo {α β : Type} [DecidableEq α] (k : α) (l : List (α × β)) :
    Table.latest k (l.map setTo) = (Table.latest k l).map some :=
  Table.latest_map Function.injective_id some k l

theorem latest_unset {α β : Type} [DecidableEq α] (k : α) (ks : List α) :
    Table.latest k (ks.map (unset (β := β))) = if k ∈ ks then some none else none := by
  cases h : Table.latest k (ks.map (unset (β := β))) with
  | none =>
    rw [if_neg]
    intro hk
    exact (Table.latest_eq_none_iff k _).mp h none (List.mem_map_of_mem hk)
  | some c =>
    obtain ⟨a, ha, heq⟩ := List.mem_map.mp (Table.mem_of_latest h)
    obtain ⟨rfl, rfl⟩ := Prod.mk.inj heq
    rw [if_pos ha]

theorem Command.lookup_changed (cmd : Command) (cs : List (OsString × Option OsString))
    (k : OsString) :
    (cmd.changed cs).envs.lookup k = (Table.latest k cs).or (cmd.envs.lookup k) := by
  induction cs generalizing cmd with
  | nil => rfl
  | cons c cs ih =>
    have hcons : cmd.changed (c :: cs) = Command.changed ⟨cmd.envs.insert c.1 c.2⟩ cs := rfl
    rw [hcons, ih, Table.latest, Option.or_assoc]
    congr 1
    by_cases hc : c.1 = k
    · subst hc
      simp [AList.lookup_insert]
    · simp [AList.lookup_insert_ne (Ne.symm hc), hc]

/-- What a child inherits that was set up by `cs`: the changes come after what there was. -/
theorem Command.lookup_captureEnv (cs : List (OsString × Option OsString)) (environ : List CString)
    (k : OsString) :
    ((Command.new.changed cs).captureEnv environ).lookup k =
      (Table.latest k ((varsOs environ).map setTo ++ cs)).join := by
  have hempty : AList.lookup k (∅ : Table OsString OsString) = none := AList.lookup_empty k
  have hnew : AList.lookup k Command.new.envs = none := AList.lookup_empty k
  rw [Command.captureEnv, Table.lookup_changed, Table.latest_walk, Command.lookup_changed,
    Table.lookup_changed, Table.latest_append, hempty, hnew]
  cases Table.latest k cs with
  | none =>
    cases Table.latest k ((varsOs environ).map setTo) with
    | none => rfl
    | some c => rfl
  | some c => rfl

theorem entry_noNul {var : Var} (hk : 0 ∉ var.1) (hv : 0 ∉ var.2) : 0 ∉ entry var := by
  simp only [entry, List.mem_append, List.mem_cons, not_or]
  exact ⟨hk, by decide, hv⟩

theorem constructEnvp_spec (vars : List Var) (h : ∀ var ∈ vars, 0 ∉ var.1 ∧ 0 ∉ var.2) :
    ∃ envp, constructEnvp vars = some envp ∧ envp.map CString.bytes = vars.map entry := by
  induction vars with
  | nil => exact ⟨[], rfl, rfl⟩
  | cons var vars ih =>
    obtain ⟨hk, hv⟩ := h var List.mem_cons_self
    have hnul := entry_noNul hk hv
    obtain ⟨envp, henvp, hbytes⟩ := ih fun w hw => h w (List.mem_cons_of_mem _ hw)
    refine ⟨⟨entry var, hnul⟩ :: envp, ?_, by rw [List.map_cons, List.map_cons, hbytes]⟩
    have hnew : CString.new (entry var) = some ⟨entry var, hnul⟩ := dif_neg hnul
    rw [constructEnvp] at henvp ⊢
    rw [List.mapM_cons, hnew, henvp]
    rfl

/-- The block holds just these variables, each once. -/
def Lists (envp : List CString) (P : Var → Prop) : Prop :=
  ∃ vars : List Var, envp.map CString.bytes = vars.map entry ∧ vars.Nodup ∧ ∀ var, var ∈ vars ↔ P var

theorem varsOs_of_entries {envp : List CString} {vars : List Var}
    (h : envp.map CString.bytes = vars.map entry) (hname : ∀ var ∈ vars, IsName var.1) :
    varsOs envp = vars := by
  have hread : varsOs envp = (envp.map CString.bytes).filterMap readVar := by
    rw [varsOs, List.filterMap_map]
    rfl
  rw [hread, h, List.filterMap_map]
  clear h hread
  induction vars with
  | nil => rfl
  | cons var vars ih =>
    have hvar := readVar_entry var.1 var.2 (hname var List.mem_cons_self)
    rw [List.filterMap_cons, Function.comp_apply, hvar, ih fun w hw =>
      hname w (List.mem_cons_of_mem _ hw)]

theorem Lists.mem_varsOs_iff {envp : List CString} {P : Var → Prop} (h : Lists envp P)
    (hname : ∀ var, P var → IsName var.1) (var : Var) : var ∈ varsOs envp ↔ P var := by
  obtain ⟨vars, hbytes, -, hvars⟩ := h
  rw [varsOs_of_entries hbytes fun w hw => hname w ((hvars w).mp hw)]
  exact hvars var

/-- A block that holds some variables more than another. -/
theorem Lists.perm_append {envp fewer : List CString} {P Q : Var → Prop} (h : Lists envp P)
    (hfewer : Lists fewer Q) (more : List Var) (hnodup : more.Nodup)
    (hout : ∀ var ∈ more, ¬ Q var) (hiff : ∀ var, P var ↔ Q var ∨ var ∈ more) :
    (envp.map CString.bytes).Perm (fewer.map CString.bytes ++ more.map entry) := by
  obtain ⟨vars, hbytes, hvarsNodup, hvars⟩ := h
  obtain ⟨base, hbase, hbaseNodup, hbaseVars⟩ := hfewer
  rw [hbytes, hbase, ← List.map_append]
  apply List.Perm.map
  have hboth : (base ++ more).Nodup := by
    refine List.nodup_append'.mpr ⟨hbaseNodup, hnodup, ?_⟩
    intro var hb hm
    exact hout var hm ((hbaseVars var).mp hb)
  rw [List.perm_ext_iff_of_nodup hvarsNodup hboth]
  intro var
  rw [List.mem_append, hvars, hbaseVars, hiff]

end FiveNinesEcho.Lib
