import Mathlib.Data.List.AList

/-!
# Tables without an order

A hash map is an association list with distinct keys whose order means nothing: what walks over it
sees the entries in an order of its own, an `Iteration`, and two walks over one table may differ.
Changes are made to a table one after another, and at each key the latest counts.
-/

namespace FiveNinesEcho.Lib

abbrev Table (α β : Type*) := AList (fun _ : α => β)

/-- The order in which a walk hands out the entries. -/
structure Iteration (γ : Type*) where
  order : List γ → List γ
  perm : ∀ l, (order l).Perm l

def Iteration.stored (γ : Type*) : Iteration γ := ⟨id, List.Perm.refl⟩

namespace Table
variable {α β : Type*}

def size (m : Table α β) : ℕ := m.entries.length

/-- Keep the entries that pass. -/
def retain (p : β → Bool) (m : Table α β) : Table α β :=
  ⟨m.entries.filter (fun e => p e.2), m.nodupKeys.sublist List.filter_sublist⟩

theorem size_retain_le (p : β → Bool) (m : Table α β) : size (retain p m) ≤ size m :=
  List.length_filter_le _ _

theorem size_keys (m : Table α β) : size m = m.keys.length := by
  simp [size, AList.keys, List.keys]

variable [DecidableEq α]

theorem mem_order (it : Iteration (Sigma fun _ : α => β)) (m : Table α β) (a : α) (b : β) :
    ⟨a, b⟩ ∈ it.order m.entries ↔ m.lookup a = some b := by
  rw [(it.perm m.entries).mem_iff, ← AList.mem_lookup_iff, Option.mem_def]

theorem lookup_retain (p : β → Bool) (m : Table α β) (a : α) :
    (retain p m).lookup a = (m.lookup a).filter p := by
  have hmem : ∀ b, (retain p m).lookup a = some b ↔ (m.lookup a).filter p = some b := by
    intro b
    rw [Option.filter_eq_some_iff, ← Option.mem_def, AList.mem_lookup_iff, ← Option.mem_def,
      AList.mem_lookup_iff]
    exact List.mem_filter
  exact Option.ext hmem

theorem retain_subset {p : β → Bool} {m : Table α β} {a : α} {b : β}
    (h : (retain p m).lookup a = some b) : m.lookup a = some b ∧ p b = true := by
  rw [lookup_retain, Option.filter_eq_some_iff] at h
  exact h

theorem size_insert_new {m : Table α β} {a : α} (b : β) (h : m.lookup a = none) :
    size (m.insert a b) = size m + 1 := by
  rw [size, AList.entries_insert_of_notMem (AList.lookup_eq_none.mp h)]
  rfl

theorem size_insert_old {m : Table α β} {a : α} {b : β} (b' : β) (h : m.lookup a = some b) :
    size (m.insert a b') = size m := by
  have hmem : a ∈ m.keys := AList.mem_keys.mp (AList.lookup_isSome.mp (by rw [h]; rfl))
  have hpos := List.length_pos_of_mem hmem
  rw [size_keys, size_keys, AList.keys_insert, List.length_cons, List.length_erase_of_mem hmem]
  omega

theorem size_erase {m : Table α β} {a : α} {b : β} (h : m.lookup a = some b) :
    size (m.erase a) + 1 = size m := by
  have hmem : a ∈ m.keys := AList.mem_keys.mp (AList.lookup_isSome.mp (by rw [h]; rfl))
  have hpos := List.length_pos_of_mem hmem
  rw [size_keys, size_keys, AList.keys_erase, List.length_erase_of_mem hmem]
  omega

/-! ### Walks -/

def walk (it : Iteration (Sigma fun _ : α => β)) (m : Table α β) : List (α × β) :=
  (it.order m.entries).map fun e => (e.1, e.2)

theorem mem_walk (it : Iteration (Sigma fun _ : α => β)) (m : Table α β) (a : α) (b : β) :
    (a, b) ∈ m.walk it ↔ m.lookup a = some b := by
  rw [← mem_order it m a b, walk, List.mem_map]
  constructor
  · rintro ⟨e, he, heq⟩
    cases heq
    exact he
  · intro h
    exact ⟨⟨a, b⟩, h, rfl⟩

omit [DecidableEq α] in
theorem nodup_walk (it : Iteration (Sigma fun _ : α => β)) (m : Table α β) : (m.walk it).Nodup := by
  have hentries : (it.order m.entries).Nodup :=
    (it.perm m.entries).nodup_iff.mpr (List.NodupKeys.nodup m.nodupKeys)
  refine hentries.map ?_
  intro e f hef
  cases e
  cases f
  cases hef
  rfl

/-! ### Changes -/

/-- What the last of the pairs for `a` says. -/
def latest {γ : Type*} (a : α) : List (α × γ) → Option γ
  | [] => none
  | (a', c) :: cs => (latest a cs).or (if a' = a then some c else none)

/-- A value is put in, or the key is taken out. -/
def change (m : Table α β) (c : α × Option β) : Table α β :=
  match c.2 with
  | some b => m.insert c.1 b
  | none => m.erase c.1

def changed (m : Table α β) (cs : List (α × Option β)) : Table α β := cs.foldl change m

section Latest
variable {γ : Type*}

theorem latest_append (a : α) (cs ds : List (α × γ)) :
    latest a (cs ++ ds) = (latest a ds).or (latest a cs) := by
  induction cs with
  | nil => simp [latest]
  | cons c cs ih => simp only [List.cons_append, latest, ih, Option.or_assoc]

theorem latest_map {α' δ : Type*} [DecidableEq α'] {f : α → α'} (hf : Function.Injective f)
    (g : γ → δ) (a : α) (cs : List (α × γ)) :
    latest (f a) (cs.map fun c => (f c.1, g c.2)) = (latest a cs).map g := by
  induction cs with
  | nil => rfl
  | cons c cs ih =>
    simp only [List.map_cons, latest, ih, hf.eq_iff]
    cases latest a cs with
    | some d => rfl
    | none =>
      by_cases hc : c.1 = a
      · simp [hc]
      · simp [hc]

theorem mem_of_latest {a : α} {c : γ} {cs : List (α × γ)} (h : latest a cs = some c) :
    (a, c) ∈ cs := by
  induction cs with
  | nil => cases h
  | cons d cs ih =>
    rw [latest, Option.or_eq_some_iff] at h
    rcases h with h | ⟨-, h⟩
    · exact List.mem_cons_of_mem _ (ih h)
    · rw [Option.ite_none_right_eq_some] at h
      obtain ⟨rfl, h⟩ := h
      cases h
      exact List.mem_cons_self

theorem latest_eq_none_iff (a : α) (cs : List (α × γ)) :
    latest a cs = none ↔ ∀ c, (a, c) ∉ cs := by
  induction cs with
  | nil => simp [latest]
  | cons d cs ih =>
    obtain ⟨a', c'⟩ := d
    simp only [latest, Option.or_eq_none_iff, ih, List.mem_cons, Prod.mk.injEq, not_or, not_and]
    constructor
    · rintro ⟨hcs, hd⟩ c
      refine ⟨fun ha => ?_, hcs c⟩
      simp [ha] at hd
    · intro h
      refine ⟨fun c => (h c).2, ?_⟩
      by_cases ha : a = a'
      · exact absurd rfl ((h c').1 ha)
      · simp [Ne.symm ha]

/-- Where a key has one value only, the latest is the one. -/
theorem latest_eq_some_iff {a : α} {c : γ} {cs : List (α × γ)}
    (h : ∀ d e, (a, d) ∈ cs → (a, e) ∈ cs → d = e) : latest a cs = some c ↔ (a, c) ∈ cs := by
  constructor
  · exact mem_of_latest
  · intro hc
    cases hl : latest a cs with
    | none => exact absurd hc ((latest_eq_none_iff a cs).mp hl c)
    | some d => rw [h d c (mem_of_latest hl) hc]

end Latest

theorem lookup_change (m : Table α β) (c : α × Option β) (a : α) :
    (m.change c).lookup a = if c.1 = a then c.2 else m.lookup a := by
  obtain ⟨a', b⟩ := c
  by_cases ha : a' = a
  · subst ha
    cases b with
    | none => simp [change, AList.lookup_erase]
    | some b => simp [change, AList.lookup_insert]
  · have hne : a ≠ a' := Ne.symm ha
    cases b with
    | none => simp [change, AList.lookup_erase_ne hne, ha]
    | some b => simp [change, AList.lookup_insert_ne hne, ha]

theorem lookup_changed (m : Table α β) (cs : List (α × Option β)) (a : α) :
    (m.changed cs).lookup a = (latest a cs).getD (m.lookup a) := by
  induction cs generalizing m with
  | nil => rfl
  | cons c cs ih =>
    have hcons : m.changed (c :: cs) = (m.change c).changed cs := rfl
    rw [hcons, ih, lookup_change, latest]
    cases latest a cs with
    | some d => rfl
    | none =>
      by_cases hc : c.1 = a
      · simp [hc]
      · simp [hc]

/-- In a walk over a table no change undoes another. -/
theorem latest_walk (it : Iteration (Sigma fun _ : α => β)) (m : Table α β) (a : α) :
    latest a (m.walk it) = m.lookup a := by
  have hsingle : ∀ c d, (a, c) ∈ m.walk it → (a, d) ∈ m.walk it → c = d := by
    intro c d hc hd
    rw [mem_walk] at hc hd
    rw [hc] at hd
    exact Option.some.inj hd
  apply Option.ext
  intro b
  rw [latest_eq_some_iff hsingle, mem_walk]

end Table

end FiveNinesEcho.Lib
