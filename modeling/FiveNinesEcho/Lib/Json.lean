import Mathlib.Algebra.Group.Int.Defs
import Mathlib.Algebra.Group.Nat.Defs
import Mathlib.Data.List.Basic

/-!
# JSON values and their text

`Json` is a JSON document as a reader sees it: members of an object in the order of the text, and
twice if they are given twice. `JsonText` is what a conforming library does between values and
text; `compact` is one, a printer without white space and a reader for what it prints.
-/

namespace FiveNinesEcho.Lib

/-- A number is `int` where it is written as an integer of at most 64 bits, else `float`, kept as
its text. -/
inductive Json where
  | null
  | bool (b : Bool)
  | int (n : ℤ)
  | float (text : String)
  | str (s : String)
  | arr (items : List Json)
  | obj (members : List (String × Json))
  deriving Repr

/-- Documents whose integers have 64 bits and that nest at most `d` deep. -/
inductive Json.Fits : ℕ → Json → Prop where
  | null (d : ℕ) : Fits d .null
  | bool (d : ℕ) (b : Bool) : Fits d (.bool b)
  | int (d : ℕ) (n : ℤ) (hlow : -2 ^ 63 ≤ n) (hhigh : n < 2 ^ 64) : Fits d (.int n)
  | str (d : ℕ) (s : String) : Fits d (.str s)
  | arr (d : ℕ) (items : List Json) (h : ∀ j ∈ items, Fits d j) : Fits (d + 1) (.arr items)
  | obj (d : ℕ) (members : List (String × Json)) (h : ∀ m ∈ members, Fits d m.2) :
    Fits (d + 1) (.obj members)

theorem Json.Fits.mono {d e : ℕ} {j : Json} (h : j.Fits d) (hle : d ≤ e) : j.Fits e := by
  induction h generalizing e with
  | null d => exact .null e
  | bool d b => exact .bool e b
  | int d n hlow hhigh => exact .int e n hlow hhigh
  | str d s => exact .str e s
  | arr d items _ ih =>
    obtain ⟨e, rfl⟩ := Nat.exists_eq_add_of_lt hle
    exact .arr _ items fun j hj => ih j hj (Nat.le_add_right d e)
  | obj d members _ ih =>
    obtain ⟨e, rfl⟩ := Nat.exists_eq_add_of_lt hle
    exact .obj _ members fun m hm => ih m hm (Nat.le_add_right d e)

/-- What is relied on of a JSON library: it reads back what it prints, to a nesting depth of 127,
and what it prints has no control character in it, so none of a text's own. -/
structure JsonText where
  render : Json → String
  parse : String → Option Json
  parse_render : ∀ j : Json, j.Fits 127 → parse (render j) = some j
  render_plain : ∀ j : Json, j.Fits 127 → ∀ c ∈ (render j).toList, 0x20 ≤ c.toNat

/-! ### A compact printer -/

def escapeChar (c : Char) : List Char :=
  match c with
  | '"' => ['\\', '"']
  | '\\' => ['\\', '\\']
  | '\n' => ['\\', 'n']
  | '\r' => ['\\', 'r']
  | '\t' => ['\\', 't']
  | '\x08' => ['\\', 'b']
  | '\x0c' => ['\\', 'f']
  | c => if c.toNat < 0x20 then
      ['\\', 'u', '0', '0', Nat.digitChar (c.toNat / 16), Nat.digitChar (c.toNat % 16)]
    else [c]

def renderStr (s : String) : List Char := '"' :: s.toList.flatMap escapeChar ++ ['"']

def renderInt (n : ℤ) : List Char :=
  if n < 0 then '-' :: Nat.toDigits 10 n.natAbs else Nat.toDigits 10 n.natAbs

mutual
def renderValue : Json → List Char
  | .null => ['n', 'u', 'l', 'l']
  | .bool true => ['t', 'r', 'u', 'e']
  | .bool false => ['f', 'a', 'l', 's', 'e']
  | .int n => renderInt n
  | .float text => text.toList
  | .str s => renderStr s
  | .arr [] => ['[', ']']
  | .arr (j :: js) => '[' :: (renderValue j ++ renderItems js)
  | .obj [] => ['{', '}']
  | .obj ((k, j) :: ms) => '{' :: (renderStr k ++ ':' :: (renderValue j ++ renderMembers ms))
def renderItems : List Json → List Char
  | [] => [']']
  | j :: js => ',' :: (renderValue j ++ renderItems js)
def renderMembers : List (String × Json) → List Char
  | [] => ['}']
  | (k, j) :: ms => ',' :: (renderStr k ++ ':' :: (renderValue j ++ renderMembers ms))
end

/-! ### Its reader -/

def hexValue (c : Char) : Option ℕ :=
  if c.isDigit then some (c.toNat - 48)
  else if 97 ≤ c.toNat ∧ c.toNat ≤ 102 then some (c.toNat - 87)
  else none

/-- The characters of a string up to its closing quote, and what follows it. -/
def parseChars : List Char → Option (List Char × List Char)
  | [] => none
  | '"' :: cs => some ([], cs)
  | '\\' :: 'u' :: '0' :: '0' :: a :: b :: cs =>
    match hexValue a, hexValue b, parseChars cs with
    | some a, some b, some (s, cs) => some (Char.ofNat (16 * a + b) :: s, cs)
    | _, _, _ => none
  | '\\' :: 'n' :: cs => (parseChars cs).map fun p => ('\n' :: p.1, p.2)
  | '\\' :: 'r' :: cs => (parseChars cs).map fun p => ('\r' :: p.1, p.2)
  | '\\' :: 't' :: cs => (parseChars cs).map fun p => ('\t' :: p.1, p.2)
  | '\\' :: 'b' :: cs => (parseChars cs).map fun p => ('\x08' :: p.1, p.2)
  | '\\' :: 'f' :: cs => (parseChars cs).map fun p => ('\x0c' :: p.1, p.2)
  | '\\' :: '"' :: cs => (parseChars cs).map fun p => ('"' :: p.1, p.2)
  | '\\' :: '\\' :: cs => (parseChars cs).map fun p => ('\\' :: p.1, p.2)
  | c :: cs =>
    if c.toNat < 0x20 ∨ c = '\\' then none
    else (parseChars cs).map fun p => (c :: p.1, p.2)

def parseNat (cs : List Char) : Option (ℕ × List Char) :=
  match cs.takeWhile Char.isDigit with
  | [] => none
  | ds => some (Nat.ofDigitChars 10 ds 0, cs.dropWhile Char.isDigit)

mutual
def parseValue : ℕ → List Char → Option (Json × List Char)
  | 0, _ => none
  | fuel + 1, cs => match cs with
    | 'n' :: 'u' :: 'l' :: 'l' :: cs => some (.null, cs)
    | 't' :: 'r' :: 'u' :: 'e' :: cs => some (.bool true, cs)
    | 'f' :: 'a' :: 'l' :: 's' :: 'e' :: cs => some (.bool false, cs)
    | '"' :: cs => (parseChars cs).map fun p => (.str (String.ofList p.1), p.2)
    | '[' :: ']' :: cs => some (.arr [], cs)
    | '[' :: cs => match parseValue fuel cs with
      | some (j, cs) => (parseItems fuel cs).map fun p => (.arr (j :: p.1), p.2)
      | none => none
    | '{' :: '}' :: cs => some (.obj [], cs)
    | '{' :: cs => (parseMember fuel cs).map fun p => (.obj p.1, p.2)
    | '-' :: cs => (parseNat cs).map fun p => (.int (-p.1), p.2)
    | cs => (parseNat cs).map fun p => (.int p.1, p.2)
def parseItems : ℕ → List Char → Option (List Json × List Char)
  | 0, _ => none
  | fuel + 1, cs => match cs with
    | ']' :: cs => some ([], cs)
    | ',' :: cs => match parseValue fuel cs with
      | some (j, cs) => (parseItems fuel cs).map fun p => (j :: p.1, p.2)
      | none => none
    | _ => none
def parseMember : ℕ → List Char → Option (List (String × Json) × List Char)
  | 0, _ => none
  | fuel + 1, cs => match cs with
    | '"' :: cs => match parseChars cs with
      | some (k, ':' :: cs) => match parseValue fuel cs with
        | some (j, cs) =>
          (parseMembers fuel cs).map fun p => ((String.ofList k, j) :: p.1, p.2)
        | none => none
      | _ => none
    | _ => none
def parseMembers : ℕ → List Char → Option (List (String × Json) × List Char)
  | 0, _ => none
  | fuel + 1, cs => match cs with
    | '}' :: cs => some ([], cs)
    | ',' :: cs => parseMember fuel cs
    | _ => none
end

def parseText (cs : List Char) : Option Json :=
  match parseValue (cs.length + 1) cs with
  | some (j, []) => some j
  | _ => none

/-! ### What is printed reads back -/

theorem hexValue_digitChar : ∀ n < 16, hexValue (Nat.digitChar n) = some n := by decide

theorem parseChars_escapeChar (c : Char) (cs : List Char) :
    parseChars (escapeChar c ++ cs) = (parseChars cs).map fun p => (c :: p.1, p.2) := by
  unfold escapeChar
  split
  · simp [parseChars]
  · simp [parseChars]
  · simp [parseChars]
  · simp [parseChars]
  · simp [parseChars]
  · simp [parseChars]
  · simp [parseChars]
  · rename_i hquote hslash hn hr ht hb hf
    split
    · have hhigh := hexValue_digitChar (c.toNat / 16) (by omega)
      have hlow := hexValue_digitChar (c.toNat % 16) (by omega)
      have hc : Char.ofNat (16 * (c.toNat / 16) + c.toNat % 16) = c := by
        rw [Nat.div_add_mod, Char.ofNat_toNat]
      simp only [List.cons_append, List.nil_append, parseChars, hhigh, hlow]
      cases parseChars cs with
      | none => rfl
      | some p => simp only [hc, Option.map_some]
    · rename_i hplain
      simp only [List.cons_append, List.nil_append]
      rw [parseChars.eq_def]
      split
      case h_11 heq =>
        obtain ⟨rfl, rfl⟩ := List.cons.inj heq
        rw [if_neg (by rintro (h | h); exacts [hplain h, hslash h])]
      all_goals simp_all

theorem parseChars_renderStr (s cs : List Char) :
    parseChars (s.flatMap escapeChar ++ '"' :: cs) = some (s, cs) := by
  induction s with
  | nil => simp [parseChars]
  | cons c s ih => simp [List.flatMap_cons, List.append_assoc, parseChars_escapeChar, ih]

/-- What may follow a number. -/
def NoDigit (cs : List Char) : Prop := ∀ c ∈ cs.head?, c.isDigit = false

theorem parseNat_toDigits (n : ℕ) (cs : List Char) (h : NoDigit cs) :
    parseNat (Nat.toDigits 10 n ++ cs) = some (n, cs) := by
  have hdigits : ∀ c ∈ Nat.toDigits 10 n, c.isDigit = true :=
    fun c hc => Nat.isDigit_of_mem_toDigits (by decide) (by decide) hc
  have htake : cs.takeWhile Char.isDigit = [] := by
    cases cs with
    | nil => rfl
    | cons c cs => simp [h c (by simp)]
  have hdrop : cs.dropWhile Char.isDigit = cs := by
    cases cs with
    | nil => rfl
    | cons c cs => simp [h c (by simp)]
  rw [parseNat, List.takeWhile_append_of_pos hdigits, List.dropWhile_append_of_pos hdigits, htake,
    hdrop, List.append_nil]
  cases hn : Nat.toDigits 10 n with
  | nil => exact absurd hn Nat.toDigits_ne_nil
  | cons d ds => simp only [← hn, Nat.ofDigitChars_ten_toDigits]

theorem parseValue_digit (fuel : ℕ) (d : Char) (cs : List Char) (hd : d.isDigit = true) :
    parseValue (fuel + 1) (d :: cs) = (parseNat (d :: cs)).map fun p => (.int p.1, p.2) := by
  rw [parseValue.eq_def]
  simp only
  split
  case h_10 => rfl
  all_goals
    rename_i heq
    simp only [List.cons.injEq] at heq
    obtain ⟨rfl, -⟩ := heq
    exact absurd hd (by decide)

theorem parseValue_renderInt (n : ℤ) (fuel : ℕ) (cs : List Char) (h : NoDigit cs) :
    parseValue (fuel + 1) (renderInt n ++ cs) = some (.int n, cs) := by
  unfold renderInt
  split
  · have hn : -(n.natAbs : ℤ) = n := by omega
    simp only [List.cons_append, parseValue, parseNat_toDigits n.natAbs cs h, Option.map_some, hn]
  · have hn : (n.natAbs : ℤ) = n := by omega
    cases hds : Nat.toDigits 10 n.natAbs with
    | nil => exact absurd hds Nat.toDigits_ne_nil
    | cons d ds =>
      have hd : d.isDigit = true :=
        Nat.isDigit_of_mem_toDigits (by decide) (by decide) (hds ▸ List.mem_cons_self ..)
      rw [List.cons_append, parseValue_digit fuel d _ hd, ← List.cons_append, ← hds,
        parseNat_toDigits n.natAbs cs h, Option.map_some, hn]

/-- The printed form of `j` is read back off the front of any text that does not go on with a digit,
given fuel for its length. -/
def ReadsBack (j : Json) : Prop :=
  ∀ fuel cs, (renderValue j).length ≤ fuel → NoDigit cs →
    parseValue fuel (renderValue j ++ cs) = some (j, cs)

theorem noDigit_renderItems (js : List Json) (cs : List Char) : NoDigit (renderItems js ++ cs) := by
  cases js <;> simp [renderItems, NoDigit]

theorem noDigit_renderMembers (ms : List (String × Json)) (cs : List Char) :
    NoDigit (renderMembers ms ++ cs) := by
  cases ms <;> simp [renderMembers, NoDigit]

theorem parseItems_render (js : List Json) (h : ∀ j ∈ js, ReadsBack j) (fuel : ℕ) (cs : List Char)
    (hfuel : (renderItems js).length ≤ fuel) :
    parseItems fuel (renderItems js ++ cs) = some (js, cs) := by
  induction js generalizing fuel with
  | nil =>
    simp only [renderItems, List.length_singleton] at hfuel
    obtain ⟨fuel, rfl⟩ := Nat.exists_eq_add_of_lt hfuel
    simp [renderItems, parseItems]
  | cons j js ih =>
    simp only [renderItems, List.length_cons, List.length_append] at hfuel
    obtain ⟨fuel, rfl⟩ : ∃ n, fuel = n + 1 := ⟨fuel - 1, by omega⟩
    have hj := h j (List.mem_cons_self ..) fuel (renderItems js ++ cs) (by omega)
      (noDigit_renderItems js cs)
    have hjs := ih (fun j hj => h j (List.mem_cons_of_mem _ hj)) fuel (by omega)
    simp only [renderItems, List.cons_append, List.append_assoc, parseItems, hj, hjs,
      Option.map_some]

theorem parseMember_render (k : String) (j : Json) (ms : List (String × Json)) (fuel : ℕ)
    (cs : List Char) (hj : ReadsBack j)
    (hms : parseMembers fuel (renderMembers ms ++ cs) = some (ms, cs))
    (hfuel : (renderValue j).length ≤ fuel) :
    parseMember (fuel + 1)
      (renderStr k ++ ':' :: (renderValue j ++ renderMembers ms) ++ cs) = some ((k, j) :: ms, cs) := by
  have hk := parseChars_renderStr k.toList (':' :: (renderValue j ++ (renderMembers ms ++ cs)))
  have hval := hj fuel (renderMembers ms ++ cs) hfuel (noDigit_renderMembers ms cs)
  simp only [renderStr, List.cons_append, List.append_assoc, List.nil_append, parseMember, hk, hval,
    hms, Option.map_some, String.ofList_toList]

theorem parseMembers_render (ms : List (String × Json)) (h : ∀ m ∈ ms, ReadsBack m.2) (fuel : ℕ)
    (cs : List Char) (hfuel : (renderMembers ms).length ≤ fuel) :
    parseMembers fuel (renderMembers ms ++ cs) = some (ms, cs) := by
  induction ms generalizing fuel with
  | nil =>
    simp only [renderMembers, List.length_singleton] at hfuel
    obtain ⟨fuel, rfl⟩ := Nat.exists_eq_add_of_lt hfuel
    simp [renderMembers, parseMembers]
  | cons m ms ih =>
    obtain ⟨k, j⟩ := m
    simp only [renderMembers, List.length_cons, List.length_append] at hfuel
    obtain ⟨fuel, rfl⟩ : ∃ n, fuel = n + 2 := ⟨fuel - 2, by omega⟩
    have hms := ih (fun m hm => h m (List.mem_cons_of_mem _ hm)) fuel (by omega)
    have hmember := parseMember_render k j ms fuel cs (h (k, j) (List.mem_cons_self ..)) hms
      (by omega)
    simpa only [renderMembers, List.cons_append, parseMembers] using hmember

theorem renderValue_head (d : ℕ) (j : Json) (h : j.Fits d) :
    ∃ c cs, renderValue j = c :: cs ∧ c ≠ ']' := by
  cases h with
  | null => exact ⟨_, _, rfl, by decide⟩
  | bool d b => cases b <;> exact ⟨_, _, rfl, by decide⟩
  | str d s => exact ⟨_, _, rfl, by decide⟩
  | arr d items _ => cases items <;> exact ⟨_, _, rfl, by decide⟩
  | obj d members _ => cases members <;> exact ⟨_, _, rfl, by decide⟩
  | int d n _ _ =>
    simp only [renderValue, renderInt]
    split
    · exact ⟨_, _, rfl, by decide⟩
    · cases hds : Nat.toDigits 10 n.natAbs with
      | nil => exact absurd hds Nat.toDigits_ne_nil
      | cons c cs =>
        have hc : c.isDigit = true :=
          Nat.isDigit_of_mem_toDigits (by decide) (by decide) (hds ▸ List.mem_cons_self ..)
        refine ⟨c, cs, rfl, ?_⟩
        rintro rfl
        exact absurd hc (by decide)

theorem readsBack_of_succ (d : ℕ) (j : Json) (hfits : j.Fits d)
    (h : ∀ fuel cs, (renderValue j).length ≤ fuel + 1 → NoDigit cs →
      parseValue (fuel + 1) (renderValue j ++ cs) = some (j, cs)) : ReadsBack j := by
  intro fuel cs hfuel hcs
  obtain ⟨c, t, ht, -⟩ := renderValue_head d j hfits
  obtain ⟨fuel, rfl⟩ : ∃ n, fuel = n + 1 := by
    rw [ht, List.length_cons] at hfuel
    exact ⟨fuel - 1, by omega⟩
  exact h fuel cs hfuel hcs

theorem parseValue_open (fuel : ℕ) (c : Char) (cs : List Char) (hc : c ≠ ']') :
    parseValue (fuel + 1) ('[' :: c :: cs) = match parseValue fuel (c :: cs) with
      | some (j, cs) => (parseItems fuel cs).map fun p => (.arr (j :: p.1), p.2)
      | none => none := by
  simp [parseValue, hc]

theorem parseValue_brace (fuel : ℕ) (c : Char) (cs : List Char) (hc : c ≠ '}') :
    parseValue (fuel + 1) ('{' :: c :: cs) =
      (parseMember fuel (c :: cs)).map fun p => (.obj p.1, p.2) := by
  simp [parseValue, hc]

theorem readsBack (d : ℕ) (j : Json) (h : j.Fits d) : ReadsBack j := by
  induction h with
  | null d =>
    refine readsBack_of_succ d _ (.null d) fun fuel cs _ _ => ?_
    simp [renderValue, parseValue]
  | bool d b =>
    refine readsBack_of_succ d _ (.bool d b) fun fuel cs _ _ => ?_
    cases b <;> simp [renderValue, parseValue]
  | int d n hlow hhigh =>
    exact readsBack_of_succ d _ (.int d n hlow hhigh) fun fuel cs _ hcs =>
      parseValue_renderInt n fuel cs hcs
  | str d s =>
    refine readsBack_of_succ d _ (.str d s) fun fuel cs _ _ => ?_
    have hs := parseChars_renderStr s.toList cs
    simp only [renderValue, renderStr, List.cons_append, List.append_assoc, List.nil_append,
      parseValue, hs, Option.map_some, String.ofList_toList]
  | arr d items h ih =>
    refine readsBack_of_succ (d + 1) _ (.arr d items h) fun fuel cs hfuel _ => ?_
    cases items with
    | nil => simp [renderValue, parseValue]
    | cons j js =>
      obtain ⟨c, t, ht, hc⟩ := renderValue_head d j (h j (List.mem_cons_self ..))
      simp only [renderValue, List.length_cons, List.length_append] at hfuel
      have hj := ih j (List.mem_cons_self ..) fuel (renderItems js ++ cs) (by omega)
        (noDigit_renderItems js cs)
      have hjs := parseItems_render js (fun j hj => ih j (List.mem_cons_of_mem _ hj)) fuel cs
        (by omega)
      rw [ht, List.cons_append] at hj
      simp only [renderValue, ht, List.cons_append, List.append_assoc, parseValue_open fuel c _ hc,
        hj, hjs, Option.map_some]
  | obj d members h ih =>
    refine readsBack_of_succ (d + 1) _ (.obj d members h) fun fuel cs hfuel _ => ?_
    cases members with
    | nil => simp [renderValue, parseValue]
    | cons m ms =>
      obtain ⟨k, j⟩ := m
      simp only [renderValue, renderStr, List.length_cons, List.length_append] at hfuel
      obtain ⟨fuel, rfl⟩ : ∃ n, fuel = n + 1 := ⟨fuel - 1, by omega⟩
      have hms := parseMembers_render ms (fun m hm => ih m (List.mem_cons_of_mem _ hm)) fuel cs
        (by omega)
      have hmember := parseMember_render k j ms fuel cs (ih (k, j) (List.mem_cons_self ..)) hms
        (by omega)
      simp only [renderStr, List.cons_append] at hmember
      simp only [renderValue, renderStr, List.cons_append,
        parseValue_brace (fuel + 1) '"' _ (by decide), hmember, Option.map_some]

theorem parseText_render (d : ℕ) (j : Json) (h : j.Fits d) : parseText (renderValue j) = some j := by
  have hread := readsBack d j h ((renderValue j).length + 1) [] (by omega) (by simp [NoDigit])
  rw [List.append_nil] at hread
  rw [parseText, hread]

/-! ### What is printed is plain -/

def Plain (cs : List Char) : Prop := ∀ c ∈ cs, 0x20 ≤ c.toNat

theorem Plain.nil : Plain [] := by
  simp [Plain]

theorem Plain.append {cs ds : List Char} (hc : Plain cs) (hd : Plain ds) : Plain (cs ++ ds) := by
  intro x hx
  rcases List.mem_append.mp hx with hx | hx
  · exact hc x hx
  · exact hd x hx

theorem Plain.cons {cs : List Char} (c : Char) (hc : 0x20 ≤ c.toNat) (h : Plain cs) :
    Plain (c :: cs) := by
  intro x hx
  rcases List.mem_cons.mp hx with rfl | hx
  · exact hc
  · exact h x hx

theorem escapeChar_plain (c : Char) : Plain (escapeChar c) := by
  have hdigit : ∀ n < 16, 0x20 ≤ (Nat.digitChar n).toNat := by decide
  unfold escapeChar Plain
  split
  case h_8 =>
    split
    · have hhigh := hdigit (c.toNat / 16) (by omega)
      have hlow := hdigit (c.toNat % 16) (by omega)
      simp [hhigh, hlow]
    · simpa using Nat.not_lt.mp ‹_›
  all_goals exact Plain.cons _ (by decide) (Plain.cons _ (by decide) Plain.nil)

theorem renderStr_plain (s : String) : Plain (renderStr s) := by
  have hbody : Plain (s.toList.flatMap escapeChar) := by
    intro x hx
    obtain ⟨c, -, hc⟩ := List.mem_flatMap.mp hx
    exact escapeChar_plain c x hc
  exact Plain.cons _ (by decide) (hbody.append (Plain.cons _ (by decide) Plain.nil))

theorem renderInt_plain (n : ℤ) : Plain (renderInt n) := by
  have hdigits : Plain (Nat.toDigits 10 n.natAbs) := by
    intro x hx
    have hd : x.isDigit = true := Nat.isDigit_of_mem_toDigits (by decide) (by decide) hx
    simp only [Char.isDigit, Bool.and_eq_true, decide_eq_true_eq] at hd
    have hle : (48 : UInt32).toNat ≤ x.val.toNat := hd.1
    simp only [UInt32.reduceToNat] at hle
    exact Nat.le_trans (by decide) hle
  unfold renderInt
  split
  · exact Plain.cons _ (by decide) hdigits
  · exact hdigits

theorem renderItems_plain (js : List Json) (h : ∀ j ∈ js, Plain (renderValue j)) :
    Plain (renderItems js) := by
  induction js with
  | nil => simp [renderItems, Plain]
  | cons j js ih =>
    have hj := h j (List.mem_cons_self ..)
    have hjs := ih fun j hj => h j (List.mem_cons_of_mem _ hj)
    rw [renderItems]
    exact Plain.cons _ (by decide) (hj.append hjs)

theorem renderMembers_plain (ms : List (String × Json)) (h : ∀ m ∈ ms, Plain (renderValue m.2)) :
    Plain (renderMembers ms) := by
  induction ms with
  | nil => simp [renderMembers, Plain]
  | cons m ms ih =>
    have hm := h m (List.mem_cons_self ..)
    have hms := ih fun m hm => h m (List.mem_cons_of_mem _ hm)
    rw [renderMembers]
    exact Plain.cons _ (by decide)
      ((renderStr_plain m.1).append (Plain.cons _ (by decide) (hm.append hms)))

theorem renderValue_plain (d : ℕ) (j : Json) (h : j.Fits d) : Plain (renderValue j) := by
  induction h with
  | null d => simp [renderValue, Plain]
  | bool d b => cases b <;> simp [renderValue, Plain]
  | int d n _ _ => exact renderInt_plain n
  | str d s => exact renderStr_plain s
  | arr d items _ ih =>
    cases items with
    | nil => simp [renderValue, Plain]
    | cons j js =>
      have hj := ih j (List.mem_cons_self ..)
      have hjs := renderItems_plain js fun j hj => ih j (List.mem_cons_of_mem _ hj)
      rw [renderValue]
      exact Plain.cons _ (by decide) (hj.append hjs)
  | obj d members _ ih =>
    cases members with
    | nil => simp [renderValue, Plain]
    | cons m ms =>
      have hm := ih m (List.mem_cons_self ..)
      have hms := renderMembers_plain ms fun m hm => ih m (List.mem_cons_of_mem _ hm)
      rw [renderValue]
      exact Plain.cons _ (by decide)
        ((renderStr_plain m.1).append (Plain.cons _ (by decide) (hm.append hms)))

def compact : JsonText where
  render j := String.ofList (renderValue j)
  parse s := parseText s.toList
  parse_render j h := by
    rw [String.toList_ofList]
    exact parseText_render 127 j h
  render_plain j h := by
    rw [String.toList_ofList]
    exact renderValue_plain 127 j h

end FiveNinesEcho.Lib
