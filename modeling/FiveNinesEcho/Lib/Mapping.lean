import FiveNinesEcho.Lib.Serde
import Mathlib.Data.String.Basic

/-!
# Ordered maps as documents

A map kept in the order of its keys, with one value for each, and its serialised form: an object
with the keys in that order. Whatever order a document has them in, and however often it gives one,
reading inserts its members one after another, so that the last value of a key is the one kept.
-/

namespace FiveNinesEcho.Lib
variable {κ α : Type} [LinearOrder κ]

structure OrderedMap (κ α : Type) [LinearOrder κ] where
  entries : List (κ × α)
  ordered : entries.Pairwise (·.1 < ·.1)

namespace OrderedMap

def put (k : κ) (a : α) : List (κ × α) → List (κ × α)
  | [] => [(k, a)]
  | e :: rest =>
    if k < e.1 then (k, a) :: e :: rest
    else if k = e.1 then (k, a) :: rest
    else e :: put k a rest

theorem mem_put {k : κ} {a : α} {l : List (κ × α)} {e : κ × α} (h : e ∈ put k a l) :
    e = (k, a) ∨ e ∈ l := by
  induction l with
  | nil => exact Or.inl (List.mem_singleton.mp h)
  | cons e' rest ih =>
    unfold put at h
    split at h
    · exact List.mem_cons.mp h
    · split at h
      · exact (List.mem_cons.mp h).imp id (List.mem_cons_of_mem _)
      · rcases List.mem_cons.mp h with rfl | h
        · exact Or.inr (List.mem_cons_self ..)
        · exact (ih h).imp id (List.mem_cons_of_mem _)

theorem put_ordered (k : κ) (a : α) (l : List (κ × α)) (h : l.Pairwise (·.1 < ·.1)) :
    (put k a l).Pairwise (·.1 < ·.1) := by
  induction l with
  | nil => simp [put]
  | cons e rest ih =>
    obtain ⟨hfirst, hrest⟩ := List.pairwise_cons.mp h
    unfold put
    split
    · next hlt =>
      refine List.pairwise_cons.mpr ⟨fun x hx => ?_, h⟩
      rcases List.mem_cons.mp hx with rfl | hx
      · exact hlt
      · exact hlt.trans (hfirst x hx)
    · next hge =>
      split
      · next heq =>
        refine List.pairwise_cons.mpr ⟨fun x hx => ?_, hrest⟩
        rw [heq]
        exact hfirst x hx
      · next hne =>
        have hgt : e.1 < k := lt_of_le_of_ne (not_lt.mp hge) (Ne.symm hne)
        refine List.pairwise_cons.mpr ⟨fun x hx => ?_, ih hrest⟩
        rcases mem_put hx with rfl | hx
        · exact hgt
        · exact hfirst x hx

def empty : OrderedMap κ α := ⟨[], .nil⟩

def insert (m : OrderedMap κ α) (e : κ × α) : OrderedMap κ α :=
  ⟨put e.1 e.2 m.entries, put_ordered _ _ _ m.ordered⟩

def get (m : OrderedMap κ α) (k : κ) : Option α := m.entries.lookup k

def ofList (es : List (κ × α)) : OrderedMap κ α := es.foldl insert empty

/-- A key above all others goes to the end. -/
theorem put_last (k : κ) (a : α) (l : List (κ × α)) (h : ∀ e ∈ l, e.1 < k) :
    put k a l = l ++ [(k, a)] := by
  induction l with
  | nil => rfl
  | cons e rest ih =>
    have he := h e (List.mem_cons_self ..)
    rw [put, if_neg he.not_gt, if_neg (Ne.symm he.ne),
      ih fun x hx => h x (List.mem_cons_of_mem _ hx)]
    rfl

theorem foldl_insert (m : OrderedMap κ α) (es : List (κ × α))
    (h : (m.entries ++ es).Pairwise (·.1 < ·.1)) :
    (es.foldl insert m).entries = m.entries ++ es := by
  induction es generalizing m with
  | nil => simp
  | cons e es ih =>
    obtain ⟨-, -, hcross⟩ := List.pairwise_append.mp h
    have hput : (m.insert e).entries = m.entries ++ [e] :=
      put_last e.1 e.2 m.entries fun x hx => hcross x hx e (List.mem_cons_self ..)
    rw [List.foldl_cons, ih (m.insert e) (by rw [hput]; simpa using h), hput]
    simp

theorem ofList_entries (m : OrderedMap κ α) : ofList m.entries = m := by
  have hentries : (ofList m.entries).entries = m.entries := foldl_insert empty m.entries m.ordered
  obtain ⟨es, hes⟩ := m
  simp only [ofList] at hentries ⊢
  generalize es.foldl insert empty = n at hentries
  obtain ⟨ns, hns⟩ := n
  simp only at hentries
  subst hentries
  rfl

end OrderedMap

/-! ### As a document -/

def readMapping (read : Json → Option α) : Json → Option (OrderedMap String α)
  | .obj m => (m.mapM fun kv => (read kv.2).map fun a => (kv.1, a)).map OrderedMap.ofList
  | _ => none

theorem mapM_write (s : Shape α) (es : List (String × α)) :
    (es.map fun e => (e.1, s.write e.2)).mapM (fun kv => (s.read kv.2).map fun a => (kv.1, a)) =
      some es := by
  induction es with
  | nil => rfl
  | cons e es ih => simp [List.mapM_cons, s.read_write, ih]

def mapping (s : Shape α) : Shape (OrderedMap String α) where
  write m := .obj (m.entries.map fun e => (e.1, s.write e.2))
  read := readMapping s.read
  depth := s.depth + 1
  read_write m := by
    rw [readMapping, mapM_write, Option.map_some, OrderedMap.ofList_entries]
  write_ne_null m := by simp
  fits m := by
    refine .obj s.depth _ fun kv hkv => ?_
    obtain ⟨e, -, rfl⟩ := List.mem_map.mp hkv
    exact s.fits e.2

end FiveNinesEcho.Lib
