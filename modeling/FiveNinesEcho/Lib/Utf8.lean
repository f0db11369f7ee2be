import Mathlib.Data.List.Basic

/-!
# Text as bytes

`utf8 s` is the encoding of a text as a list of bytes and `fromUtf8` reads one back. A byte below
`0x80` of an encoding is a character of its own, so what separates or ends a line of text does so
for its bytes.
-/

namespace FiveNinesEcho.Lib

def utf8 (s : String) : List UInt8 := s.toList.flatMap String.utf8EncodeChar

def fromUtf8 (b : List UInt8) : Option String := String.fromUTF8? b.toByteArray

theorem toByteArray_utf8 (s : String) : (utf8 s).toByteArray = s.toByteArray := by
  rw [← String.utf8Encode_toList]
  rfl

theorem fromUtf8_utf8 (s : String) : fromUtf8 (utf8 s) = some s := by
  rw [fromUtf8, toByteArray_utf8, String.fromUTF8?, dif_pos s.isValidUTF8]
  rfl

theorem utf8_of_fromUtf8 (b : List UInt8) (s : String) (h : fromUtf8 b = some s) : utf8 s = b := by
  have hs : s.toByteArray = b.toByteArray := by
    rw [fromUtf8, String.fromUTF8?] at h
    split at h
    · cases h
      rfl
    · cases h
  rw [← toByteArray_utf8] at hs
  have hdata := congrArg (fun a : ByteArray => a.data.toList) hs
  simpa only [List.data_toByteArray, List.toList_toArray] using hdata

theorem utf8_injective : Function.Injective utf8 := by
  intro s t h
  have hs := fromUtf8_utf8 s
  rw [h, fromUtf8_utf8] at hs
  exact (Option.some.inj hs).symm

theorem utf8_append (s t : String) : utf8 (s ++ t) = utf8 s ++ utf8 t := by
  simp only [utf8, String.toList_append, List.flatMap_append]

theorem utf8EncodeChar_low (c : Char) (b : UInt8) (h : b ∈ String.utf8EncodeChar c)
    (hb : b.toNat < 0x80) : c.toNat = b.toNat := by
  unfold String.utf8EncodeChar at h
  simp only at h
  split at h
  · simp only [List.mem_singleton] at h
    subst h
    simp only [Char.toNat, UInt8.toNat_ofNat']
    omega
  · -- every other byte of an encoding is a lead or a continuation byte
    exfalso
    split at h
    · simp only [List.mem_cons, List.not_mem_nil, or_false] at h
      rcases h with rfl | rfl <;> simp only [UInt8.toNat_ofNat'] at hb <;> omega
    · split at h
      · simp only [List.mem_cons, List.not_mem_nil, or_false] at h
        rcases h with rfl | rfl | rfl <;> simp only [UInt8.toNat_ofNat'] at hb <;> omega
      · simp only [List.mem_cons, List.not_mem_nil, or_false] at h
        rcases h with rfl | rfl | rfl | rfl <;> simp only [UInt8.toNat_ofNat'] at hb <;> omega

theorem mem_utf8_low (s : String) (b : UInt8) (h : b ∈ utf8 s) (hb : b.toNat < 0x80) :
    ∃ c ∈ s.toList, c.toNat = b.toNat := by
  simp only [utf8, List.mem_flatMap] at h
  obtain ⟨c, hc, hm⟩ := h
  exact ⟨c, hc, utf8EncodeChar_low c b hm hb⟩

theorem utf8_noNul {s : String} (h : ∀ c ∈ s.toList, c.toNat ≠ 0) : 0 ∉ utf8 s := by
  intro hmem
  obtain ⟨c, hc, hzero⟩ := mem_utf8_low s 0 hmem (by decide)
  exact h c hc hzero

theorem utf8EncodeChar_front (c d : Char) (xs ys : List UInt8)
    (h : String.utf8EncodeChar c ++ xs = String.utf8EncodeChar d ++ ys) : c = d ∧ xs = ys := by
  have hdecode := congrArg (fun b : List UInt8 => b.toByteArray.utf8DecodeChar? 0) h
  simp only [List.toByteArray_append, ByteArray.utf8DecodeChar?_utf8EncodeChar_append,
    Option.some.injEq] at hdecode
  subst hdecode
  exact ⟨rfl, List.append_cancel_left h⟩

/-- A text whose bytes begin the bytes of another begins it. -/
theorem utf8_front (s t : String) (xs : List UInt8) (h : utf8 s ++ xs = utf8 t) :
    ∃ u, t = s ++ u ∧ xs = utf8 u := by
  have hlist : ∀ cs ds : List Char,
      cs.flatMap String.utf8EncodeChar ++ xs = ds.flatMap String.utf8EncodeChar →
      ∃ es, ds = cs ++ es ∧ xs = es.flatMap String.utf8EncodeChar := by
    intro cs
    induction cs with
    | nil => exact fun ds hds => ⟨ds, rfl, hds⟩
    | cons c cs ih =>
      intro ds hds
      cases ds with
      | nil =>
        have hpos := c.utf8Size_pos
        have hlen := congrArg List.length hds
        simp only [List.flatMap_cons, List.length_append, String.length_utf8EncodeChar,
          List.flatMap_nil, List.length_nil] at hlen
        omega
      | cons d ds =>
        rw [List.flatMap_cons, List.flatMap_cons, List.append_assoc] at hds
        obtain ⟨rfl, hrest⟩ := utf8EncodeChar_front c d _ _ hds
        obtain ⟨es, rfl, hes⟩ := ih ds hrest
        exact ⟨es, rfl, hes⟩
  obtain ⟨es, hes, hxs⟩ := hlist s.toList t.toList h
  refine ⟨String.ofList es, ?_, ?_⟩
  · rw [← String.toList_inj, String.toList_append, String.toList_ofList, hes]
  · rw [utf8, String.toList_ofList]
    exact hxs

end FiveNinesEcho.Lib
