import FiveNinesEcho.Lib.Json
import FiveNinesEcho.Lib.Utf8
import Mathlib.Data.List.TakeWhile

/-!
# JSON texts that are cut short

A reader that has read a value goes on reading the same value when more text follows, unless the
value is a number, which more digits would make longer. So no front part of a printed object is a
document of its own: a text cut short on its way is not taken for another one.
-/

namespace FiveNinesEcho.Lib

/-- A printed object that lost its end is not read. -/
def JsonText.CutProof (J : JsonText) : Prop :=
  ∀ (m : List (String × Json)) (s t : String), (Json.obj m).Fits 127 → s ++ t = J.render (.obj m) →
    t ≠ "" → J.parse s = none

theorem parseChars_ordinary (c : Char) (cs : List Char) (hq : c ≠ '"')
    (hc : ¬(c.toNat < 0x20 ∨ c = '\\')) :
    parseChars (c :: cs) = (parseChars cs).map fun p => (c :: p.1, p.2) := by
  obtain ⟨hlow, hb⟩ := not_or.mp hc
  rw [parseChars.eq_def]
  split
  case h_11 heq =>
    obtain ⟨rfl, rfl⟩ := List.cons.inj heq
    rw [if_neg hc]
  all_goals simp_all

theorem map_parse_append {α β : Type} (parse : List Char → Option (α × List Char)) (f : α → β)
    (cs ds r : List Char) (b : β)
    (ih : ∀ a r, parse cs = some (a, r) → parse (cs ++ ds) = some (a, r ++ ds))
    (h : ((parse cs).map fun p => (f p.1, p.2)) = some (b, r)) :
    ((parse (cs ++ ds)).map fun p => (f p.1, p.2)) = some (b, r ++ ds) := by
  obtain ⟨⟨a, r'⟩, hp, heq⟩ := Option.map_eq_some_iff.mp h
  simp only [Prod.mk.injEq] at heq
  obtain ⟨rfl, rfl⟩ := heq
  rw [ih a r' hp, Option.map_some]

theorem parseChars_append (cs ds s r : List Char) (h : parseChars cs = some (s, r)) :
    parseChars (cs ++ ds) = some (s, r ++ ds) := by
  fun_induction parseChars cs generalizing s r with
  | case1 => simp at h
  | case2 cs =>
    simp only [Option.some.injEq, Prod.mk.injEq] at h
    obtain ⟨rfl, rfl⟩ := h
    rfl
  | case3 a b cs x y t u hcs hy hx ih =>
    simp only [Option.some.injEq, Prod.mk.injEq] at h
    obtain ⟨rfl, rfl⟩ := h
    simp only [List.cons_append, parseChars, hx, hy, ih t u hcs]
  | case4 | case12 => simp at h
  | case13 c cs hquote _ _ _ _ _ _ _ _ hplain ih =>
    rw [List.cons_append, parseChars_ordinary c _ hquote hplain]
    exact map_parse_append parseChars (c :: ·) cs ds r s ih h
  | case5 cs ih | case6 cs ih | case7 cs ih | case8 cs ih | case9 cs ih | case10 cs ih
  | case11 cs ih =>
    simp only [List.cons_append, parseChars]
    exact map_parse_append parseChars (_ :: ·) cs ds r s ih h

/-- A number goes on with more digits, but not behind something else. -/
theorem parseNat_append (cs ds r : List Char) (n : ℕ) (h : parseNat cs = some (n, r))
    (hr : r ≠ []) : parseNat (cs ++ ds) = some (n, r ++ ds) := by
  have hdrop : cs.dropWhile Char.isDigit = r := by
    unfold parseNat at h
    split at h
    · simp at h
    · exact (Prod.mk.inj (Option.some.inj h)).2
  have hsplit := List.takeWhile_append_dropWhile (p := Char.isDigit) (l := cs)
  obtain ⟨c, t, rfl⟩ := List.exists_cons_of_ne_nil hr
  have hc : c.isDigit = false := by
    have := List.head?_dropWhile_not Char.isDigit cs
    rw [hdrop] at this
    simpa using this
  have hdigits : ∀ d ∈ cs.takeWhile Char.isDigit, d.isDigit = true :=
    fun d hd => List.mem_takeWhile_imp hd
  have htake : (cs ++ ds).takeWhile Char.isDigit = cs.takeWhile Char.isDigit := by
    conv_lhs => rw [← hsplit, hdrop, List.append_assoc, List.takeWhile_append_of_pos hdigits]
    simp [hc]
  have hrest : (cs ++ ds).dropWhile Char.isDigit = c :: t ++ ds := by
    conv_lhs => rw [← hsplit, hdrop, List.append_assoc, List.dropWhile_append_of_pos hdigits]
    simp [hc]
  unfold parseNat at h ⊢
  rw [htake, hrest]
  rw [hdrop] at h
  split at h
  · simp at h
  · next hne =>
    obtain ⟨rfl, -⟩ := Prod.mk.inj (Option.some.inj h)
    rfl

theorem parseNat_head (cs : List Char) (p : ℕ × List Char) (h : parseNat cs = some p) :
    ∃ d t, cs = d :: t ∧ d.isDigit = true := by
  cases cs with
  | nil => simp [parseNat] at h
  | cons d t =>
    refine ⟨d, t, rfl, ?_⟩
    by_contra hd
    simp [parseNat, hd] at h

/-- What is read with some fuel is read, and left over, with more fuel and more text behind it. -/
structure Extends (ds : List Char) (fuel : ℕ) : Prop where
  value : ∀ cs j r, parseValue fuel cs = some (j, r) → (r = [] → ∀ n, j ≠ .int n) →
    ∀ g, fuel ≤ g → parseValue g (cs ++ ds) = some (j, r ++ ds)
  items : ∀ cs js r, parseItems fuel cs = some (js, r) →
    ∀ g, fuel ≤ g → parseItems g (cs ++ ds) = some (js, r ++ ds)
  member : ∀ cs ms r, parseMember fuel cs = some (ms, r) →
    ∀ g, fuel ≤ g → parseMember g (cs ++ ds) = some (ms, r ++ ds)
  members : ∀ cs ms r, parseMembers fuel cs = some (ms, r) →
    ∀ g, fuel ≤ g → parseMembers g (cs ++ ds) = some (ms, r ++ ds)

theorem parseItems_ne_nil (fuel : ℕ) (p : List Json × List Char) (cs : List Char)
    (h : parseItems fuel cs = some p) : cs ≠ [] := by
  rintro rfl
  cases fuel <;> simp [parseItems] at h

theorem parseMembers_ne_nil (fuel : ℕ) (p : List (String × Json) × List Char) (cs : List Char)
    (h : parseMembers fuel cs = some p) : cs ≠ [] := by
  rintro rfl
  cases fuel <;> simp [parseMembers] at h

variable {ds : List Char} {fuel : ℕ}

theorem Extends.items_succ (h : Extends ds fuel) (cs : List Char) (js : List Json) (r : List Char)
    (hp : parseItems (fuel + 1) cs = some (js, r)) (g : ℕ) (hg : fuel + 1 ≤ g) :
    parseItems g (cs ++ ds) = some (js, r ++ ds) := by
  obtain ⟨g, rfl⟩ : ∃ n, g = n + 1 := ⟨g - 1, by omega⟩
  rw [parseItems.eq_def] at hp
  simp only at hp
  split at hp
  · next cs =>
    obtain ⟨rfl, rfl⟩ := Prod.mk.inj (Option.some.inj hp)
    simp [parseItems]
  · next cs =>
    split at hp
    · next j t hj =>
      obtain ⟨⟨js', r'⟩, hitems, heq⟩ := Option.map_eq_some_iff.mp hp
      simp only [Prod.mk.injEq] at heq
      obtain ⟨rfl, rfl⟩ := heq
      have hne := parseItems_ne_nil fuel _ t hitems
      have hv := h.value cs j t hj (fun hnil => absurd hnil hne) g (by omega)
      have hi := h.items t js' r' hitems g (by omega)
      simp only [List.cons_append, parseItems, hv, hi, Option.map_some]
    · simp at hp
  · simp at hp

theorem Extends.member_succ (h : Extends ds fuel) (cs : List Char) (ms : List (String × Json))
    (r : List Char) (hp : parseMember (fuel + 1) cs = some (ms, r)) (g : ℕ) (hg : fuel + 1 ≤ g) :
    parseMember g (cs ++ ds) = some (ms, r ++ ds) := by
  obtain ⟨g, rfl⟩ : ∃ n, g = n + 1 := ⟨g - 1, by omega⟩
  rw [parseMember.eq_def] at hp
  simp only at hp
  split at hp
  · next cs =>
    split at hp
    · next k t hk =>
      split at hp
      · next j u hj =>
        obtain ⟨⟨ms', r'⟩, hmembers, heq⟩ := Option.map_eq_some_iff.mp hp
        simp only [Prod.mk.injEq] at heq
        obtain ⟨rfl, rfl⟩ := heq
        have hne := parseMembers_ne_nil fuel _ u hmembers
        have hc := parseChars_append cs ds k (':' :: t) hk
        have hv := h.value t j u hj (fun hnil => absurd hnil hne) g (by omega)
        have hm := h.members u ms' r' hmembers g (by omega)
        rw [List.cons_append] at hc
        simp only [List.cons_append, parseMember, hc, hv, hm, Option.map_some]
      · simp at hp
    · simp at hp
  · simp at hp

theorem Extends.members_succ (h : Extends ds fuel) (cs : List Char) (ms : List (String × Json))
    (r : List Char) (hp : parseMembers (fuel + 1) cs = some (ms, r)) (g : ℕ) (hg : fuel + 1 ≤ g) :
    parseMembers g (cs ++ ds) = some (ms, r ++ ds) := by
  obtain ⟨g, rfl⟩ : ∃ n, g = n + 1 := ⟨g - 1, by omega⟩
  rw [parseMembers.eq_def] at hp
  simp only at hp
  split at hp
  · next cs =>
    obtain ⟨rfl, rfl⟩ := Prod.mk.inj (Option.some.inj hp)
    simp [parseMembers]
  · next cs =>
    have hm := h.member cs ms r hp g (by omega)
    simp only [List.cons_append, parseMembers, hm]
  · simp at hp

theorem Extends.value_succ (h : Extends ds fuel) (cs : List Char) (j : Json) (r : List Char)
    (hp : parseValue (fuel + 1) cs = some (j, r)) (hr : r = [] → ∀ n, j ≠ .int n) (g : ℕ)
    (hg : fuel + 1 ≤ g) : parseValue g (cs ++ ds) = some (j, r ++ ds) := by
  obtain ⟨g, rfl⟩ : ∃ n, g = n + 1 := ⟨g - 1, by omega⟩
  rw [parseValue.eq_def] at hp
  simp only at hp
  split at hp
  · obtain ⟨rfl, rfl⟩ := Prod.mk.inj (Option.some.inj hp)
    simp [parseValue]
  · obtain ⟨rfl, rfl⟩ := Prod.mk.inj (Option.some.inj hp)
    simp [parseValue]
  · obtain ⟨rfl, rfl⟩ := Prod.mk.inj (Option.some.inj hp)
    simp [parseValue]
  · next cs =>
    simp only [List.cons_append, parseValue]
    exact map_parse_append parseChars (fun s => .str (String.ofList s)) cs ds r j
      (fun s r => parseChars_append cs ds s r) hp
  · obtain ⟨rfl, rfl⟩ := Prod.mk.inj (Option.some.inj hp)
    simp [parseValue]
  · next cs hclose =>
    split at hp
    · next v t hv =>
      obtain ⟨⟨js, r'⟩, hitems, heq⟩ := Option.map_eq_some_iff.mp hp
      simp only [Prod.mk.injEq] at heq
      obtain ⟨rfl, rfl⟩ := heq
      have hne := parseItems_ne_nil fuel _ t hitems
      have hv' := h.value cs v t hv (fun hnil => absurd hnil hne) g (by omega)
      have hi := h.items t js r' hitems g (by omega)
      cases cs with
      | nil => cases fuel <;> simp [parseValue, parseNat] at hv
      | cons c cs =>
        have hc : c ≠ ']' := fun he => hclose cs (by rw [he])
        rw [List.cons_append] at hv'
        simp only [List.cons_append, parseValue_open _ c _ hc, hv', hi, Option.map_some]
    · simp at hp
  · obtain ⟨rfl, rfl⟩ := Prod.mk.inj (Option.some.inj hp)
    simp [parseValue]
  · next cs hclose =>
    cases cs with
    | nil => cases fuel <;> simp [parseMember] at hp
    | cons c cs =>
      have hc : c ≠ '}' := fun he => hclose cs (by rw [he])
      simp only [List.cons_append, parseValue_brace _ c _ hc]
      obtain ⟨⟨ms, r'⟩, hmember, heq⟩ := Option.map_eq_some_iff.mp hp
      simp only [Prod.mk.injEq] at heq
      obtain ⟨rfl, rfl⟩ := heq
      have hm := h.member (c :: cs) ms r' hmember g (by omega)
      rw [List.cons_append] at hm
      rw [hm, Option.map_some]
  · next cs =>
    obtain ⟨⟨n, r'⟩, hn, heq⟩ := Option.map_eq_some_iff.mp hp
    simp only [Prod.mk.injEq] at heq
    obtain ⟨rfl, rfl⟩ := heq
    have hn' := parseNat_append cs ds r' n hn fun hnil => hr hnil _ rfl
    simp only [List.cons_append, parseValue, hn', Option.map_some]
  · obtain ⟨⟨n, r'⟩, hn, heq⟩ := Option.map_eq_some_iff.mp hp
    simp only [Prod.mk.injEq] at heq
    obtain ⟨rfl, rfl⟩ := heq
    have hn' := parseNat_append cs ds r' n hn fun hnil => hr hnil _ rfl
    obtain ⟨d, t, rfl, hd⟩ := parseNat_head cs _ hn
    rw [List.cons_append] at hn' ⊢
    rw [parseValue_digit _ d _ hd, hn', Option.map_some]

theorem extends_all (ds : List Char) (fuel : ℕ) : Extends ds fuel := by
  induction fuel with
  | zero => constructor <;> simp [parseValue, parseItems, parseMember, parseMembers]
  | succ fuel ih => exact ⟨ih.value_succ, ih.items_succ, ih.member_succ, ih.members_succ⟩

theorem parseValue_object (fuel : ℕ) (cs : List Char) (j : Json) (r : List Char)
    (h : parseValue fuel ('{' :: cs) = some (j, r)) : ∃ m, j = .obj m := by
  cases fuel with
  | zero => simp [parseValue] at h
  | succ fuel =>
    rw [parseValue.eq_def] at h
    simp only at h
    split at h <;> simp_all
    · exact ⟨_, h.1.symm⟩
    · obtain ⟨m, -, rfl⟩ := h
      exact ⟨m, rfl⟩

theorem parseText_cut (cs ds : List Char) (j : Json) (h : parseText ('{' :: cs ++ ds) = some j)
    (hds : ds ≠ []) : parseText ('{' :: cs) = none := by
  unfold parseText at h ⊢
  split
  · next v hv =>
    obtain ⟨m, rfl⟩ := parseValue_object _ cs v [] hv
    -- with the rest of the text the same object would be read, and the rest left over
    have hext := (extends_all ds _).value _ _ _ hv (by simp) (('{' :: cs ++ ds).length + 1)
      (by simp only [List.length_append]; omega)
    rw [hext] at h
    obtain ⟨d, t, rfl⟩ := List.exists_cons_of_ne_nil hds
    simp at h
  · rfl

theorem compact_cutProof : compact.CutProof := by
  intro m s t hfits hst ht
  have htext : s.toList ++ t.toList = renderValue (.obj m) := by
    rw [← String.toList_append, hst]
    exact String.toList_ofList
  change parseText s.toList = none
  obtain ⟨c, hc⟩ : ∃ c, renderValue (.obj m) = '{' :: c := by
    cases m <;> simp [renderValue]
  have hparse := parseText_render 127 (.obj m) hfits
  cases hs : s.toList with
  | nil => rfl
  | cons d cs =>
    rw [hs, hc, List.cons_append, List.cons.injEq] at htext
    obtain ⟨rfl, htext⟩ := htext
    rw [hc, ← htext] at hparse
    refine parseText_cut cs t.toList _ hparse fun hnil => ht ?_
    exact String.toList_inj.mp hnil

end FiveNinesEcho.Lib
