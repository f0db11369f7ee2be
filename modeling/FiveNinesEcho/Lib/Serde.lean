import FiveNinesEcho.Lib.Json
import Mathlib.Data.List.Forall2

/-!
# Typed values as JSON

A `Shape` is a type with its JSON form. The shapes here are those a deriving serialiser gives to
integers, texts, lists and enumerations without data; a record is an object with a member for each
field, and is also read from an array of its fields in order. A field that is given twice is an
error, an unknown member is skipped, and a missing field takes its default if it has one.
-/

namespace FiveNinesEcho.Lib
variable {α : Type}

abbrev Members := List (String × Json)

/-! ### Members by name -/

def valuesOf (key : String) (m : Members) : List Json :=
  (m.filter fun kv => kv.1 = key).map Prod.snd

def Members.without (m : Members) (keys : List String) : Members :=
  m.filter fun kv => kv.1 ∉ keys

@[simp] theorem valuesOf_nil (key : String) : valuesOf key [] = [] := rfl

@[simp] theorem valuesOf_cons (key k : String) (j : Json) (m : Members) :
    valuesOf key ((k, j) :: m) = if k = key then j :: valuesOf key m else valuesOf key m := by
  by_cases hk : k = key <;> simp [valuesOf, hk]

@[simp] theorem valuesOf_append (key : String) (m n : Members) :
    valuesOf key (m ++ n) = valuesOf key m ++ valuesOf key n := by
  simp [valuesOf]

theorem valuesOf_without (key : String) (m : Members) (keys : List String) :
    valuesOf key (m.without keys) = if key ∈ keys then [] else valuesOf key m := by
  induction m with
  | nil => simp [Members.without]
  | cons kv m ih =>
    obtain ⟨k, j⟩ := kv
    by_cases hkey : k = key
    · subst hkey
      by_cases hm : k ∈ keys <;> simp_all [Members.without]
    · by_cases hm : k ∈ keys <;> simp_all [Members.without]

theorem without_of_valuesOf (key : String) (m : Members) (h : valuesOf key m = []) :
    m.without [key] = m := by
  rw [Members.without, List.filter_eq_self]
  intro kv hkv
  rw [decide_eq_true_iff, List.mem_singleton]
  rintro rfl
  have hmem : kv.2 ∈ valuesOf kv.1 m := by simpa [valuesOf] using hkv
  simp [h] at hmem

theorem without_cons_self (key : String) (j : Json) (m : Members) (h : valuesOf key m = []) :
    Members.without ((key, j) :: m) [key] = m := by
  rw [Members.without, List.filter_cons_of_neg (by simp)]
  exact without_of_valuesOf key m h

theorem mem_valuesOf (key : String) (j : Json) (m : Members) :
    j ∈ valuesOf key m ↔ (key, j) ∈ m := by
  simp [valuesOf]

/-! ### Shapes -/

structure Shape (α : Type) where
  write : α → Json
  read : Json → Option α
  depth : ℕ
  read_write : ∀ a, read (write a) = some a
  write_ne_null : ∀ a, write a ≠ .null
  fits : ∀ a, (write a).Fits depth

/-- No other document is read as the value than the one it is written as. -/
def Shape.Exact (s : Shape α) : Prop := ∀ j a, s.read j = some a → j = s.write a

/-- Integers of a machine type, by the range of the type. -/
structure Machine (α : Type) where
  low : ℤ
  high : ℤ
  toInt : α → ℤ
  ofInt : ℤ → α
  low_ge : -2 ^ 63 ≤ low
  high_le : high ≤ 2 ^ 64
  range : ∀ a, low ≤ toInt a ∧ toInt a < high
  ofInt_toInt : ∀ a, ofInt (toInt a) = a
  toInt_ofInt : ∀ n, low ≤ n → n < high → toInt (ofInt n) = n

def readInteger (t : Machine α) : Json → Option α
  | .int n => if t.low ≤ n ∧ n < t.high then some (t.ofInt n) else none
  | _ => none

def integer (t : Machine α) : Shape α where
  write a := .int (t.toInt a)
  read := readInteger t
  depth := 0
  read_write a := by simp only [readInteger, if_pos (t.range a), t.ofInt_toInt]
  write_ne_null a := by simp
  fits a := by
    have hrange := t.range a
    have hlow := t.low_ge
    have hhigh := t.high_le
    exact .int 0 _ (by omega) (by omega)

theorem integer_exact (t : Machine α) : (integer t).Exact := by
  intro j a h
  cases j with
  | int n =>
    simp only [integer, readInteger, Option.ite_none_right_eq_some, Option.some.injEq] at h
    obtain ⟨⟨hlow, hhigh⟩, rfl⟩ := h
    simp only [integer, t.toInt_ofInt n hlow hhigh]
  | null | bool b | float x | str s | arr js | obj m => simp [integer, readInteger] at h

/-- The unsigned type of `w` bits. -/
def unsigned (w : ℕ) (hw : w ≤ 64) (toNat : α → ℕ) (ofNat : ℕ → α) (hlt : ∀ a, toNat a < 2 ^ w)
    (hof : ∀ a, ofNat (toNat a) = a) (hto : ∀ n < 2 ^ w, toNat (ofNat n) = n) : Machine α where
  low := 0
  high := 2 ^ w
  toInt a := toNat a
  ofInt n := ofNat n.toNat
  low_ge := by decide
  high_le := by exact_mod_cast Nat.pow_le_pow_right (by decide) hw
  range a := ⟨by omega, by exact_mod_cast hlt a⟩
  ofInt_toInt a := by simp [hof]
  toInt_ofInt n hlow hhigh := by
    have hn : n.toNat < 2 ^ w := by
      rw [Int.toNat_lt hlow]
      exact_mod_cast hhigh
    rw [hto _ hn]
    omega

def u8 : Shape UInt8 :=
  integer (unsigned 8 (by decide) UInt8.toNat UInt8.ofNat UInt8.toNat_lt
    (fun _ => UInt8.ofNat_toNat) fun n hn => by rw [UInt8.toNat_ofNat']; omega)

def u16 : Shape UInt16 :=
  integer (unsigned 16 (by decide) UInt16.toNat UInt16.ofNat UInt16.toNat_lt
    (fun _ => UInt16.ofNat_toNat) fun n hn => by rw [UInt16.toNat_ofNat']; omega)

def u32 : Shape UInt32 :=
  integer (unsigned 32 (by decide) UInt32.toNat UInt32.ofNat UInt32.toNat_lt
    (fun _ => UInt32.ofNat_toNat) fun n hn => by rw [UInt32.toNat_ofNat']; omega)

def u64 : Shape UInt64 :=
  integer (unsigned 64 (by decide) UInt64.toNat UInt64.ofNat UInt64.toNat_lt
    (fun _ => UInt64.ofNat_toNat) fun n hn => by rw [UInt64.toNat_ofNat']; omega)

def i32 : Shape Int32 := integer
  { low := -2 ^ 31
    high := 2 ^ 31
    toInt := Int32.toInt
    ofInt := Int32.ofInt
    low_ge := by decide
    high_le := by decide
    range := fun a => ⟨a.le_toInt, a.toInt_lt⟩
    ofInt_toInt := Int32.ofInt_toInt
    toInt_ofInt := fun n hlow hhigh => Int32.toInt_ofInt_of_le hlow hhigh }

def readBoolean : Json → Option Bool
  | .bool b => some b
  | _ => none

def boolean : Shape Bool where
  write := .bool
  read := readBoolean
  depth := 0
  read_write b := rfl
  write_ne_null b := by simp
  fits b := .bool 0 b

def readText : Json → Option String
  | .str s => some s
  | _ => none

def text : Shape String where
  write := .str
  read := readText
  depth := 0
  read_write s := rfl
  write_ne_null s := by simp
  fits s := .str 0 s

theorem text_exact : text.Exact := by
  intro j s h
  cases j <;> simp_all [text, readText]

def readVec (read : Json → Option α) : Json → Option (List α)
  | .arr js => js.mapM read
  | _ => none

theorem mapM_iff_forall₂ {α β : Type} (f : α → Option β) (as : List α) (bs : List β) :
    as.mapM f = some bs ↔ List.Forall₂ (fun a b => f a = some b) as bs := by
  induction as generalizing bs with
  | nil => simp [eq_comm]
  | cons a as ih =>
    simp only [List.mapM_cons, Option.bind_eq_bind, Option.bind_eq_some_iff, Option.pure_def,
      Option.some.injEq, ih, List.forall₂_cons_left_iff]
    constructor
    · rintro ⟨b, hb, bs', hbs', rfl⟩
      exact ⟨b, bs', hb, hbs', rfl⟩
    · rintro ⟨b, bs', hb, hbs', rfl⟩
      exact ⟨b, hb, bs', hbs', rfl⟩

def vec (s : Shape α) : Shape (List α) where
  write as := .arr (as.map s.write)
  read := readVec s.read
  depth := s.depth + 1
  read_write as := by
    change (as.map s.write).mapM s.read = some as
    rw [mapM_iff_forall₂, List.forall₂_map_left_iff, List.forall₂_same]
    exact fun a _ => s.read_write a
  write_ne_null as := by simp
  fits as := by
    refine .arr _ _ fun j hj => ?_
    obtain ⟨a, -, rfl⟩ := List.mem_map.mp hj
    exact s.fits a

theorem vec_exact (s : Shape α) (h : s.Exact) : (vec s).Exact := by
  intro j as hj
  cases j with
  | arr js =>
    have hjs := (mapM_iff_forall₂ s.read js as).mp hj
    have heq : js = as.map s.write := by
      clear hj
      induction hjs with
      | nil => rfl
      | cons hread _ ih => rw [List.map_cons, ← h _ _ hread, ← ih]
    rw [heq]
    rfl
  | null | bool b | int n | float x | str x | obj m => cases hj

/-! ### Enumerations without data -/

/-- A variant by its name, or as an object with the name over what stands for no data. -/
def readVariant (noData : Json → Bool) (variant : String → Option α) : Json → Option α
  | .str s => variant s
  | .obj [(k, j)] => if noData j then variant k else none
  | _ => none

def enumeration (noData : Json → Bool) (name : α → String) (variant : String → Option α)
    (h : ∀ a, variant (name a) = some a) : Shape α where
  write a := .str (name a)
  read := readVariant noData variant
  depth := 0
  read_write := h
  write_ne_null a := by simp
  fits a := .str 0 (name a)

/-- The variant an internal tag names, by name or by position. -/
def readTag (tag : String) (variants : List String) (m : Members) : Option String :=
  match valuesOf tag m with
  | [.str s] => if s ∈ variants then some s else none
  | [.int n] => if 0 ≤ n then variants[n.toNat]? else none
  | _ => none

/-! ### Records -/

/-- What a record is read from. -/
inductive Source where
  | map (m : Members)
  | seq (items : List Json)

def Json.source (fields : ℕ) : Json → Option Source
  | .obj m => some (.map m)
  | .arr items => if items.length ≤ fields then some (.seq items) else none
  | _ => none

def Source.values (s : Source) (i : ℕ) (key : String) : List Json :=
  match s with
  | .map m => valuesOf key m
  | .seq items => items[i]?.toList

/-- The field at position `i` named `key`, with its default if it has one. -/
def Source.field (s : Source) (i : ℕ) (key : String) (read : Json → Option α)
    (default : Option α) : Option α :=
  match s.values i key with
  | [] => default
  | [j] => read j
  | _ => none

def readOption (read : Json → Option α) : Json → Option (Option α)
  | .null => some none
  | j => (read j).map some

/-- An optional field: missing and `null` are both `none`. -/
def Source.option (s : Source) (i : ℕ) (key : String) (read : Json → Option α) :
    Option (Option α) :=
  s.field i key (readOption read) (some none)

/-- The member of an optional field, left out where there is none. -/
def skipNone (key : String) (s : Shape α) : Option α → Members
  | none => []
  | some a => [(key, s.write a)]

@[simp] theorem valuesOf_skipNone (key k : String) (s : Shape α) (o : Option α) :
    valuesOf key (skipNone k s o) = if k = key then (o.map s.write).toList else [] := by
  cases o <;> by_cases hk : k = key <;> simp [skipNone, hk]

theorem Source.field_map (m : Members) (i : ℕ) (key : String) (read : Json → Option α)
    (default : Option α) (j : Json) (h : valuesOf key m = [j]) :
    (Source.map m).field i key read default = read j := by
  simp only [Source.field, Source.values, h]

theorem Source.field_missing (m : Members) (i : ℕ) (key : String) (read : Json → Option α)
    (default : Option α) (h : valuesOf key m = []) :
    (Source.map m).field i key read default = default := by
  simp only [Source.field, Source.values, h]

theorem readOption_write (s : Shape α) (a : α) : readOption s.read (s.write a) = some (some a) := by
  have hread := s.read_write a
  have hnull := s.write_ne_null a
  cases hj : s.write a <;> simp_all [readOption]

/-- An optional value where it is always given a place: `null` stands for none. -/
def writeOption (s : Shape α) (o : Option α) : Json := o.elim .null s.write

theorem readOption_writeOption (s : Shape α) (o : Option α) :
    readOption s.read (writeOption s o) = some o := by
  cases o with
  | none => rfl
  | some a => exact readOption_write s a

theorem writeOption_fits (s : Shape α) (o : Option α) (d : ℕ) (h : s.depth ≤ d) :
    (writeOption s o).Fits d := by
  cases o with
  | none => exact .null d
  | some a => exact (s.fits a).mono h

theorem Source.option_map (m : Members) (i : ℕ) (key : String) (s : Shape α) (o : Option α)
    (h : valuesOf key m = (o.map s.write).toList) :
    (Source.map m).option i key s.read = some o := by
  cases o with
  | none => exact Source.field_missing m i key _ _ h
  | some a =>
    rw [Source.option, Source.field_map m i key _ _ (s.write a) h]
    exact readOption_write s a

theorem Source.field_without (m : Members) (keys : List String) (i : ℕ) (key : String)
    (s : Shape α) (default : Option α) (a : α) (h : valuesOf key m = [s.write a]) :
    (Source.map (m.without keys)).field i key s.read default =
      if key ∈ keys then default else some a := by
  have hvalues := valuesOf_without key m keys
  split
  · rename_i hkey
    rw [if_pos hkey] at hvalues
    exact Source.field_missing _ i key _ _ hvalues
  · rename_i hkey
    rw [if_neg hkey, h] at hvalues
    rw [Source.field_map _ i key _ _ _ hvalues, s.read_write]

theorem Source.option_without (m : Members) (keys : List String) (i : ℕ) (key : String)
    (s : Shape α) (o : Option α) (h : valuesOf key m = (o.map s.write).toList) :
    (Source.map (m.without keys)).option i key s.read = some (if key ∈ keys then none else o) := by
  apply Source.option_map
  rw [valuesOf_without, h]
  split <;> rfl

/-- A field is read as `a` when it is given once, in a form of `a`, or is missing and defaults to
`a`. -/
theorem Source.field_eq_some_iff (s : Source) (i : ℕ) (key : String) (read : Json → Option α)
    (default : Option α) (a : α) :
    s.field i key read default = some a ↔
      (∃ j, s.values i key = [j] ∧ read j = some a) ∨ (s.values i key = [] ∧ default = some a) := by
  unfold Source.field
  cases hvalues : s.values i key with
  | nil => simp
  | cons j js => cases js <;> simp

theorem Shape.Exact.read_iff {s : Shape α} (h : s.Exact) (j : Json) (a : α) :
    s.read j = some a ↔ j = s.write a := by
  constructor
  · exact h j a
  · rintro rfl
    exact s.read_write a

def FitsAll (d : ℕ) (m : Members) : Prop := ∀ kv ∈ m, kv.2.Fits d

theorem Shape.fits_of_le (s : Shape α) (a : α) (d : ℕ) (h : s.depth ≤ d) : (s.write a).Fits d :=
  (s.fits a).mono h

theorem FitsAll.nil (d : ℕ) : FitsAll d [] := by
  simp [FitsAll]

theorem FitsAll.cons {d : ℕ} {m : Members} (key : String) (s : Shape α) (a : α) (h : s.depth ≤ d)
    (hm : FitsAll d m) : FitsAll d ((key, s.write a) :: m) := by
  intro kv hkv
  rcases List.mem_cons.mp hkv with rfl | hkv
  · exact s.fits_of_le a d h
  · exact hm kv hkv

theorem FitsAll.append {d : ℕ} {m n : Members} (hm : FitsAll d m) (hn : FitsAll d n) :
    FitsAll d (m ++ n) := by
  intro kv hkv
  rcases List.mem_append.mp hkv with hkv | hkv
  · exact hm kv hkv
  · exact hn kv hkv

theorem FitsAll.skipNone {d : ℕ} (key : String) (s : Shape α) (o : Option α) (h : s.depth ≤ d) :
    FitsAll d (skipNone key s o) := by
  cases o with
  | none => exact .nil d
  | some a => exact .cons key s a h (.nil d)

/-- A record of so many fields, none of them deeper than `depth`. -/
def record (fields depth : ℕ) (members : α → Members) (readFrom : Source → Option α)
    (hread : ∀ a, readFrom (.map (members a)) = some a) (hfits : ∀ a, FitsAll depth (members a)) :
    Shape α where
  write a := .obj (members a)
  read j := (j.source fields).bind readFrom
  depth := depth + 1
  read_write a := by simp only [Json.source, Option.bind_some, hread]
  write_ne_null a := by simp
  fits a := .obj depth _ (hfits a)

end FiveNinesEcho.Lib
