import FiveNinesEcho.Lib.Utf8
import FiveNinesEcho.Processor.Codec

/-!
# Lines of text off a byte stream

`FramedRead<_, LinesCodec>` turns the chunks of a connection into lines (`supervisor/control.rs:67`
and its siblings). What a peer wrote as lines of text comes out as those lines, however the bytes
are split into reads: text is valid for the codec, and a line waits in the buffer until it is whole.
-/

namespace FiveNinesEcho.Processor
open Lib

/-! ### Encoded text is valid -/

theorem isCont_iff (b : Byte) : isCont b = true ↔ 0x80 ≤ b.toNat ∧ b.toNat ≤ 0xBF := by
  simp only [isCont, Bool.and_eq_true, decide_eq_true_eq, UInt8.le_iff_toNat_le]
  rfl

theorem isCont_low (v : ℕ) : isCont (UInt8.ofNat (v % 0x40 + 0x80)) = true := by
  rw [isCont_iff, UInt8.toNat_ofNat']
  omega

theorem lead2_iff (a : Byte) : lead2 a = true ↔ 0xC2 ≤ a.toNat ∧ a.toNat ≤ 0xDF := by
  simp only [lead2, Bool.and_eq_true, decide_eq_true_eq, UInt8.le_iff_toNat_le]
  rfl

theorem lead3_iff (a : Byte) : lead3 a = true ↔ 0xE0 ≤ a.toNat ∧ a.toNat ≤ 0xEF := by
  simp only [lead3, Bool.and_eq_true, decide_eq_true_eq, UInt8.le_iff_toNat_le]
  rfl

theorem lead4_iff (a : Byte) : lead4 a = true ↔ 0xF0 ≤ a.toNat ∧ a.toNat ≤ 0xF4 := by
  simp only [lead4, Bool.and_eq_true, decide_eq_true_eq, UInt8.le_iff_toNat_le]
  rfl

theorem second_of (a b : Byte) (hb : isCont b = true) (h0 : a.toNat = 0xE0 → 0xA0 ≤ b.toNat)
    (hd : a.toNat = 0xED → b.toNat ≤ 0x9F) (hf : a.toNat = 0xF0 → 0x90 ≤ b.toNat)
    (h4 : a.toNat = 0xF4 → b.toNat ≤ 0x8F) : second a b = true := by
  simp only [second, hb, Bool.true_and, Bool.and_eq_true, Bool.or_eq_true, bne_iff_ne, ne_eq,
    decide_eq_true_eq, UInt8.le_iff_toNat_le, ← UInt8.toNat_inj, UInt8.reduceToNat]
  omega

theorem validUtf8_one (a : Byte) (t : Bytes) (ha : a.toNat < 0x80) :
    validUtf8 (a :: t) = validUtf8 t := by
  have hlow : a < 0x80 := UInt8.lt_iff_toNat_lt.mpr ha
  rw [validUtf8.eq_def]
  simp only [hlow, if_true]

theorem validUtf8_two (a b : Byte) (t : Bytes) (ha : lead2 a = true) (hb : isCont b = true) :
    validUtf8 (a :: b :: t) = validUtf8 t := by
  have hrange := (lead2_iff a).mp ha
  have hlow : ¬ a < 0x80 := by
    rw [UInt8.lt_iff_toNat_lt]
    simp only [UInt8.reduceToNat]
    omega
  rw [validUtf8.eq_def]
  simp only [hlow, ha, hb, if_true, if_false, Bool.true_and]

theorem validUtf8_three (a b c : Byte) (t : Bytes) (ha : lead3 a = true) (hb : second a b = true)
    (hc : isCont c = true) : validUtf8 (a :: b :: c :: t) = validUtf8 t := by
  have hrange := (lead3_iff a).mp ha
  have hlow : ¬ a < 0x80 := by
    rw [UInt8.lt_iff_toNat_lt]
    simp only [UInt8.reduceToNat]
    omega
  have h2 : lead2 a = false := by
    rw [Bool.eq_false_iff, ne_eq, lead2_iff]
    omega
  rw [validUtf8.eq_def]
  simp only [hlow, h2, ha, hb, hc, if_true, if_false, Bool.false_eq_true, Bool.true_and]

theorem validUtf8_four (a b c d : Byte) (t : Bytes) (ha : lead4 a = true) (hb : second a b = true)
    (hc : isCont c = true) (hd : isCont d = true) :
    validUtf8 (a :: b :: c :: d :: t) = validUtf8 t := by
  have hrange := (lead4_iff a).mp ha
  have hlow : ¬ a < 0x80 := by
    rw [UInt8.lt_iff_toNat_lt]
    simp only [UInt8.reduceToNat]
    omega
  have h2 : lead2 a = false := by
    rw [Bool.eq_false_iff, ne_eq, lead2_iff]
    omega
  have h3 : lead3 a = false := by
    rw [Bool.eq_false_iff, ne_eq, lead3_iff]
    omega
  rw [validUtf8.eq_def]
  simp only [hlow, h2, h3, ha, hb, hc, hd, if_true, if_false, Bool.false_eq_true, Bool.true_and]

theorem validUtf8_encodeChar (c : Char) (t : Bytes) :
    validUtf8 (String.utf8EncodeChar c ++ t) = validUtf8 t := by
  have hvalid := c.valid
  simp only [UInt32.isValidChar, Nat.isValidChar] at hvalid
  unfold String.utf8EncodeChar
  simp only
  split
  · apply validUtf8_one
    rw [UInt8.toNat_ofNat']
    omega
  · split
    · refine validUtf8_two _ _ t ((lead2_iff _).mpr ?_) (isCont_low _)
      rw [UInt8.toNat_ofNat']
      omega
    · split
      · refine validUtf8_three _ _ _ t ((lead3_iff _).mpr ?_) ?_ (isCont_low _)
        · rw [UInt8.toNat_ofNat']
          omega
        · apply second_of _ _ (isCont_low _) <;> simp only [UInt8.toNat_ofNat'] <;> omega
      · refine validUtf8_four _ _ _ _ t ((lead4_iff _).mpr ?_) ?_ (isCont_low _) (isCont_low _)
        · rw [UInt8.toNat_ofNat']
          omega
        · apply second_of _ _ (isCont_low _) <;> simp only [UInt8.toNat_ofNat'] <;> omega

theorem validUtf8_utf8 (s : String) : validUtf8 (utf8 s) = true := by
  unfold utf8
  induction s.toList with
  | nil => rfl
  | cons c cs ih => rw [List.flatMap_cons, validUtf8_encodeChar, ih]

/-! ### `FramedRead` -/

/-- The lines the buffer holds, and what it is left with to go on reading; nothing once the codec
has failed. Each line takes at least its line end off the buffer, so the fuel is the length of it. -/
def readLines (C : Codec) : ℕ → C.State → Bytes → List Bytes × Option (C.State × Bytes)
  | 0, _, _ => ([], none)
  | fuel + 1, st, b => match C.decode st b with
    | (st, b, .frame l) => (l :: (readLines C fuel st b).1, (readLines C fuel st b).2)
    | (st, b, .pending) => ([], some (st, b))
    | (_, _, .failed) => ([], none)

/-- The lines the buffer holds at the end of input, and whether that is how the stream ends. -/
def readLast (C : Codec) : ℕ → C.State → Bytes → List Bytes × Bool
  | 0, _, _ => ([], false)
  | fuel + 1, st, b => match C.decodeEof st b with
    | (st, b, .frame l) => (l :: (readLast C fuel st b).1, (readLast C fuel st b).2)
    | (_, _, .pending) => ([], true)
    | (_, _, .failed) => ([], false)

/-- The lines of a connection whose reads return the given chunks and then the end of input. -/
def framedRead (C : Codec) : C.State → Bytes → List Bytes → List Bytes × Bool
  | st, b, [] => readLast C (b.length + 1) st b
  | st, b, c :: cs => match readLines C ((b ++ c).length + 1) st (b ++ c) with
    | (ls, some (st, b)) => (ls ++ (framedRead C st b cs).1, (framedRead C st b cs).2)
    | (ls, none) => (ls, false)

variable {C : Codec}

theorem Clean.after_lines {closes : Bool} {b ys : Bytes} (h : Clean closes (b ++ ys)) :
    Clean closes (rest newline b ++ ys) := by
  obtain ⟨hlines, hshort, hok⟩ := h
  rw [lines_append] at hlines
  rw [rest_append] at hshort hok
  exact ⟨fun l hl => hlines l (List.mem_append_right _ hl), hshort, hok⟩

theorem readLines_clean {closes : Bool} (fuel : ℕ) (st : C.State) (b ys : Bytes)
    (hsync : C.Synced st b) (hclean : Clean closes (b ++ ys)) (hfuel : b.length < fuel) :
    ∃ st', readLines C fuel st b = ((lines newline b).map stripCr, some (st', rest newline b)) ∧
      ∀ c, C.Synced st' (rest newline b ++ c) := by
  induction fuel generalizing st b with
  | zero => omega
  | succ fuel ih =>
    rcases front_cases newline b with ⟨l, r, rfl, hl⟩ | hb
    · rw [List.append_assoc, List.cons_append] at hclean
      obtain ⟨hlen, hv⟩ := hclean.line hl
      obtain ⟨st₁, hd, hst₁⟩ := C.decode_frame st l r hsync hl hlen (validUtf8_stripCr l hv)
      simp only [List.length_append, List.length_cons] at hfuel
      obtain ⟨st₂, hread, hst₂⟩ := ih st₁ r (hst₁ r) (hclean.after_line hl) (by omega)
      refine ⟨st₂, ?_, ?_⟩
      · simp only [readLines, hd, hread, lines_append_sep newline l r hl, rest_append_sep,
          List.map_cons]
      · rw [rest_append_sep]
        exact hst₂
    · obtain ⟨st₁, hd, hst₁⟩ := C.decode_pending st b hsync hb (hclean.front_short hb)
      refine ⟨st₁, ?_, ?_⟩
      · simp only [readLines, hd, lines_of_notMem newline b hb, rest_of_notMem newline b hb,
          List.map_nil]
      · rw [rest_of_notMem newline b hb]
        exact hst₁

/-- A stream of clean lines that ends with one comes out line by line, in whatever chunks it is
read. -/
theorem framedRead_clean (chunks : List Bytes) (st : C.State) (b : Bytes)
    (hsync : ∀ c, C.Synced st (b ++ c)) (hb : newline ∉ b)
    (hclean : Clean false (b ++ chunks.flatten)) (hrest : rest newline (b ++ chunks.flatten) = []) :
    framedRead C st b chunks = ((lines newline (b ++ chunks.flatten)).map stripCr, true) := by
  induction chunks generalizing st b with
  | nil =>
    rw [List.flatten_nil, List.append_nil, rest_of_notMem newline b hb] at hrest
    subst hrest
    have hsync := hsync []
    rw [List.append_nil] at hsync
    obtain ⟨st', hd⟩ := C.decodeEof_done st [] hsync (Or.inl rfl)
    simp only [framedRead, readLast, hd]
    rfl
  | cons c cs ih =>
    rw [List.flatten_cons, ← List.append_assoc] at hclean hrest ⊢
    obtain ⟨st', hread, hst'⟩ := readLines_clean ((b ++ c).length + 1) st (b ++ c) cs.flatten
      (hsync c) hclean (by omega)
    rw [rest_append] at hrest
    have hgo := ih st' (rest newline (b ++ c)) hst' (notMem_rest newline _) hclean.after_lines hrest
    rw [lines_append newline (b ++ c), List.map_append]
    simp only [framedRead, hread, hgo]

theorem framedRead_text (texts : List String) (hplain : ∀ s ∈ texts, newline ∉ utf8 s)
    (hcr : ∀ s ∈ texts, carriageReturn ∉ utf8 s) (hlen : ∀ s ∈ texts, (utf8 s).length ≤ maxLength)
    (chunks : List Bytes) (h : chunks.flatten = texts.flatMap fun s => encode (utf8 s)) :
    framedRead C C.fresh [] chunks = (texts.map utf8, true) := by
  have hstream : chunks.flatten = (texts.map utf8).flatMap (· ++ [newline]) ++ [] := by
    rw [h, List.append_nil, List.flatMap_map]
    rfl
  have hnl : ∀ l ∈ texts.map utf8, newline ∉ l := by
    intro l hl
    obtain ⟨s, hs, rfl⟩ := List.mem_map.mp hl
    exact hplain s hs
  have hlines : lines newline chunks.flatten = texts.map utf8 := by
    rw [hstream, lines_flatMap_append newline _ _ hnl, lines, List.append_nil]
  have hrest : rest newline chunks.flatten = [] := by
    rw [hstream, rest_flatMap_append, rest]
  have hclean : Clean false chunks.flatten := by
    refine ⟨?_, by rw [hrest]; simp, by simp⟩
    intro l hl
    rw [hlines] at hl
    obtain ⟨s, hs, rfl⟩ := List.mem_map.mp hl
    exact ⟨hlen s hs, validUtf8_utf8 s⟩
  have hread := framedRead_clean (C := C) chunks C.fresh [] (fun c => C.fresh_synced _) (by simp)
    hclean hrest
  rw [List.nil_append, hlines] at hread
  rw [hread, List.map_map]
  refine congrArg (·, true) (List.map_congr_left fun s hs => ?_)
  have hlast : (utf8 s).getLast? ≠ some carriageReturn :=
    fun hl => hcr s hs (List.mem_of_getLast? hl)
  simp only [Function.comp_apply, stripCr, if_neg hlast]

end FiveNinesEcho.Processor
