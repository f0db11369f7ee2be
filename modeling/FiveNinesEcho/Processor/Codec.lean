import FiveNinesEcho.Lib.Lines
import Mathlib.Data.Option.Basic

/-!
# Lines on the wire

The processor reads and writes its sessions through tokio-util's `Framed<_, LinesCodec>`, which is
not part of the repository. `Codec` holds what the session code relies on of it: a line is taken
off the front of the read buffer, an unfinished line waits for more bytes, end of input turns what
is left into a last line, and a send is held back only above the write buffer's back-pressure
boundary. `linesCodec` is the codec the processor builds, `LinesCodec::new_with_max_length(64 *
1024)`, with its scan position. `echo` is what a session is for: the bytes a client is owed.
-/

namespace FiveNinesEcho.Processor
open Lib

abbrev Byte := UInt8
abbrev Bytes := List Byte

def newline : Byte := 10
def carriageReturn : Byte := 13

def maxLength : ℕ := 64 * 1024

def stripCr (l : Bytes) : Bytes :=
  if l.getLast? = some carriageReturn then l.dropLast else l

def encode (line : Bytes) : Bytes := line ++ [newline]

def isCont (b : Byte) : Bool := 0x80 ≤ b && b ≤ 0xBF

def lead2 (a : Byte) : Bool := 0xC2 ≤ a && a ≤ 0xDF
def lead3 (a : Byte) : Bool := 0xE0 ≤ a && a ≤ 0xEF
def lead4 (a : Byte) : Bool := 0xF0 ≤ a && a ≤ 0xF4

def second (a b : Byte) : Bool :=
  isCont b && (a != 0xE0 || 0xA0 ≤ b) && (a != 0xED || b ≤ 0x9F) && (a != 0xF0 || 0x90 ≤ b) &&
    (a != 0xF4 || b ≤ 0x8F)

def validUtf8 : Bytes → Bool
  | [] => true
  | a :: t =>
    if a < 0x80 then validUtf8 t
    else if lead2 a then match t with
      | b :: t => isCont b && validUtf8 t
      | [] => false
    else if lead3 a then match t with
      | b :: c :: t => second a b && isCont c && validUtf8 t
      | _ => false
    else if lead4 a then match t with
      | b :: c :: d :: t => second a b && isCont c && isCont d && validUtf8 t
      | _ => false
    else false

theorem isCont_carriageReturn : isCont carriageReturn = false := by decide

theorem validUtf8_of_append_cr (l : Bytes) (h : validUtf8 (l ++ [carriageReturn]) = true) :
    validUtf8 l = true := by
  fun_induction validUtf8 l with
  | case1 => rfl
  | case2 a t ha ih =>
    rw [List.cons_append, validUtf8.eq_def] at h
    exact ih (by simpa only [ha, if_true] using h)
  | case3 a ha h2 b t ih =>
    rw [List.cons_append, List.cons_append, validUtf8.eq_def] at h
    simp only [ha, h2, if_true, if_false, Bool.and_eq_true] at h ⊢
    exact ⟨h.1, ih h.2⟩
  | case4 a ha h2 =>
    rw [List.cons_append, List.nil_append, validUtf8.eq_def] at h
    simp [ha, h2, isCont_carriageReturn] at h
  | case5 a ha h2 h3 b c t ih =>
    rw [List.cons_append, List.cons_append, List.cons_append, validUtf8.eq_def] at h
    simp only [ha, h2, h3, if_true, if_false, Bool.false_eq_true, Bool.and_eq_true] at h ⊢
    exact ⟨h.1, ih h.2⟩
  | case6 a t ha h2 h3 hshort =>
    -- too short for three bytes, and the `\r` cannot be a continuation byte
    rw [List.cons_append, validUtf8.eq_def] at h
    simp only [ha, h2, h3, if_true, if_false, Bool.false_eq_true] at h
    match t, hshort with
    | [], _ => simp at h
    | [b], _ => simp [isCont_carriageReturn] at h
    | b :: c :: t, hshort => exact absurd rfl (hshort b c t)
  | case7 a ha h2 h3 h4 b c d t ih =>
    rw [List.cons_append, List.cons_append, List.cons_append, List.cons_append,
      validUtf8.eq_def] at h
    simp only [ha, h2, h3, h4, if_true, if_false, Bool.false_eq_true, Bool.and_eq_true] at h ⊢
    exact ⟨h.1, ih h.2⟩
  | case8 a t ha h2 h3 h4 hshort =>
    rw [List.cons_append, validUtf8.eq_def] at h
    simp only [ha, h2, h3, h4, if_true, if_false, Bool.false_eq_true] at h
    match t, hshort with
    | [], _ => simp at h
    | [b], _ => simp at h
    | [b, c], _ => simp [isCont_carriageReturn] at h
    | b :: c :: d :: t, hshort => exact absurd rfl (hshort b c d t)
  | case9 a t ha h2 h3 h4 =>
    rw [List.cons_append, validUtf8.eq_def] at h
    simp [ha, h2, h3, h4] at h

theorem validUtf8_stripCr (l : Bytes) (h : validUtf8 l = true) : validUtf8 (stripCr l) = true := by
  unfold stripCr
  split
  · rename_i hl
    have hsplit : l.dropLast ++ [carriageReturn] = l := List.dropLast_append_getLast? _ hl
    rw [← hsplit] at h
    exact validUtf8_of_append_cr l.dropLast h
  · exact h

theorem stripCr_length_le (l : Bytes) : (stripCr l).length ≤ l.length := by
  unfold stripCr
  split
  · simp only [List.length_dropLast]
    omega
  · exact Nat.le_refl _

/-! ### What a client is owed -/

def echoLine (l : Bytes) : Bytes := encode (stripCr l)

/-- The echo of an unterminated last line once the client has closed its sending side; nothing and
a lone `\r` are no line. -/
def tailEcho (t : Bytes) : Bytes :=
  if t = [] ∨ t = [carriageReturn] then [] else echoLine t

/-- The echo of a byte stream: each complete line, in order, once; then, if the client closes its
sending side after the stream, the unterminated line it left. -/
def echo (closes : Bool) (xs : Bytes) : Bytes :=
  (lines newline xs).flatMap echoLine ++ if closes then tailEcho (rest newline xs) else []

theorem echo_line (closes : Bool) (l r : Bytes) (h : newline ∉ l) :
    echo closes (l ++ newline :: r) = echoLine l ++ echo closes r := by
  simp only [echo, lines_append_sep newline l r h, rest_append_sep, List.flatMap_cons,
    List.append_assoc]

theorem echo_rest (closes : Bool) (t : Bytes) (h : newline ∉ t) :
    echo closes t = if closes then tailEcho t else [] := by
  simp only [echo, lines_of_notMem newline t h, rest_of_notMem newline t h, List.flatMap_nil,
    List.nil_append]

theorem echo_nil (closes : Bool) : echo closes [] = [] := by
  rw [echo_rest closes [] (by simp)]
  simp [tailEcho]

/-- A stream made of lines that are valid UTF-8 and at most 64 KiB; the line it stops in is held to
the same, its encoding only where the end of input completes it. -/
structure Clean (closes : Bool) (xs : Bytes) : Prop where
  lines_ok : ∀ l ∈ lines newline xs, l.length ≤ maxLength ∧ validUtf8 l = true
  rest_short : (rest newline xs).length ≤ maxLength
  rest_ok : closes = true → validUtf8 (rest newline xs) = true

theorem Clean.line {closes : Bool} {l r : Bytes} (h : Clean closes (l ++ newline :: r))
    (hl : newline ∉ l) : l.length ≤ maxLength ∧ validUtf8 l = true := by
  apply h.lines_ok l
  rw [lines_append_sep newline l r hl]
  exact List.mem_cons_self ..

theorem Clean.after_line {closes : Bool} {l r : Bytes} (h : Clean closes (l ++ newline :: r))
    (hl : newline ∉ l) : Clean closes r := by
  obtain ⟨hlines, hshort, hok⟩ := h
  rw [lines_append_sep newline l r hl] at hlines
  rw [rest_append_sep] at hshort hok
  exact ⟨fun k hk => hlines k (List.mem_cons_of_mem _ hk), hshort, hok⟩

theorem Clean.tail {closes : Bool} {t : Bytes} (h : Clean closes t) (ht : newline ∉ t) :
    t.length ≤ maxLength ∧ (closes = true → validUtf8 t = true) := by
  have hr := rest_of_notMem newline t ht
  exact ⟨hr ▸ h.rest_short, fun hc => hr ▸ h.rest_ok hc⟩

theorem clean_nil (closes : Bool) : Clean closes [] :=
  ⟨by simp [lines], by simp [rest], fun _ => rfl⟩

theorem Clean.front_short {closes : Bool} {t u : Bytes} (h : Clean closes (t ++ u))
    (ht : newline ∉ t) : t.length ≤ maxLength := by
  rcases front_cases newline u with ⟨l, r, hu, hl⟩ | hu
  · have hx : t ++ u = (t ++ l) ++ newline :: r := by rw [hu, List.append_assoc]
    rw [hx] at h
    have hm : newline ∉ t ++ l := by simp [ht, hl]
    have hlen := (h.line hm).1
    simp only [List.length_append] at hlen
    omega
  · have hm : newline ∉ t ++ u := by simp [ht, hu]
    have hlen := (h.tail hm).1
    simp only [List.length_append] at hlen
    omega

/-! ### The codec -/

inductive Decoded where
  | frame (line : Bytes)
  | pending
  | failed
  deriving Repr, DecidableEq

/-- What the session code relies on of `Framed` and `LinesCodec`. `Synced st b` says that the
codec's own state agrees with the read buffer `b` it is about to be shown. -/
structure Codec where
  State : Type
  fresh : State
  decode : State → Bytes → State × Bytes × Decoded
  decodeEof : State → Bytes → State × Bytes × Decoded
  boundary : ℕ
  boundary_pos : 0 < boundary
  Synced : State → Bytes → Prop
  fresh_synced : ∀ b, Synced fresh b
  decode_frame : ∀ st l r, Synced st (l ++ newline :: r) → newline ∉ l → l.length ≤ maxLength →
    validUtf8 (stripCr l) = true →
    ∃ st', decode st (l ++ newline :: r) = (st', r, .frame (stripCr l)) ∧ ∀ b, Synced st' b
  decode_pending : ∀ st b, Synced st b → newline ∉ b → b.length ≤ maxLength →
    ∃ st', decode st b = (st', b, .pending) ∧ ∀ c, Synced st' (b ++ c)
  decodeEof_frame : ∀ st l r, Synced st (l ++ newline :: r) → newline ∉ l → l.length ≤ maxLength →
    validUtf8 (stripCr l) = true →
    ∃ st', decodeEof st (l ++ newline :: r) = (st', r, .frame (stripCr l)) ∧ ∀ b, Synced st' b
  decodeEof_last : ∀ st b, Synced st b → newline ∉ b → b.length ≤ maxLength →
    b ≠ [] → b ≠ [carriageReturn] → validUtf8 (stripCr b) = true →
    ∃ st', decodeEof st b = (st', [], .frame (stripCr b)) ∧ ∀ b, Synced st' b
  decodeEof_done : ∀ st b, Synced st b → b = [] ∨ b = [carriageReturn] →
    ∃ st', decodeEof st b = (st', b, .pending)
  decode_consumes : ∀ st b st' b' l, decode st b = (st', b', .frame l) →
    l.length + 1 + b'.length ≤ b.length
  decode_keeps : ∀ st b st' b', decode st b = (st', b', .pending) → b'.length ≤ b.length
  decodeEof_consumes : ∀ st b st' b' l, decodeEof st b = (st', b', .frame l) →
    l.length + b'.length ≤ b.length ∧ b'.length < b.length

/-! ### `LinesCodec` -/

def scan (nextIndex : ℕ) (b : Bytes) : Option ℕ :=
  (((b.take (maxLength + 1)).drop nextIndex).findIdx? (· == newline)).map (· + nextIndex)

/-- `LinesCodec::decode` on a codec that is not discarding an over-long line; every caller here
gives the stream up at the first error, so the discarding codec is never polled. -/
def linesDecode (nextIndex : ℕ) (b : Bytes) : ℕ × Bytes × Decoded :=
  match scan nextIndex b with
  | some i =>
    let line := stripCr (b.take i)
    (0, b.drop (i + 1), if validUtf8 line then .frame line else .failed)
  | none =>
    if maxLength < b.length then (nextIndex, b, .failed)
    else (min (maxLength + 1) b.length, b, .pending)

def linesDecodeEof (nextIndex : ℕ) (b : Bytes) : ℕ × Bytes × Decoded :=
  match linesDecode nextIndex b with
  | (_, b', .pending) =>
    if b' = [] ∨ b' = [carriageReturn] then (0, b', .pending)
    else (0, [], if validUtf8 (stripCr b') then .frame (stripCr b') else .failed)
  | r => r

theorem findIdx?_newline (l r : Bytes) (h : newline ∉ l) :
    (l ++ newline :: r).findIdx? (· == newline) = some l.length := by
  have hl : l.findIdx? (· == newline) = none := by
    simp only [List.findIdx?_eq_none_iff, beq_eq_false_iff_ne]
    exact fun x hx he => h (he ▸ hx)
  rw [List.findIdx?_append, hl]
  simp [List.findIdx?_cons]

theorem scan_newline (n : ℕ) (l r : Bytes) (hn : newline ∉ (l ++ newline :: r).take n)
    (h : newline ∉ l) (hl : l.length ≤ maxLength) : scan n (l ++ newline :: r) = some l.length := by
  have hle : n ≤ l.length := by
    by_contra hlt
    apply hn
    have hsplit : (l ++ newline :: r).take n =
        l ++ newline :: r.take (n - l.length - 1) := by
      rw [List.take_append, List.take_of_length_le (by omega),
        show n - l.length = (n - l.length - 1) + 1 by omega, List.take_succ_cons]
      simp
    rw [hsplit]
    simp
  have htake : (l ++ newline :: r).take (maxLength + 1) =
      l ++ newline :: r.take (maxLength - l.length) := by
    rw [List.take_append, List.take_of_length_le (by omega),
      show maxLength + 1 - l.length = (maxLength - l.length) + 1 by omega, List.take_succ_cons]
  have hdrop : newline ∉ l.drop n := fun hm => h (List.mem_of_mem_drop hm)
  rw [scan, htake, List.drop_append_of_le_length hle, findIdx?_newline _ _ hdrop]
  simp only [List.length_drop, Option.map_some, Option.some.injEq]
  omega

theorem scan_none (n : ℕ) (b : Bytes) (h : newline ∉ b) : scan n b = none := by
  have hm : newline ∉ (b.take (maxLength + 1)).drop n :=
    fun hm => h (List.mem_of_mem_take (List.mem_of_mem_drop hm))
  simp only [scan, Option.map_eq_none_iff, List.findIdx?_eq_none_iff, beq_eq_false_iff_ne]
  exact fun x hx he => hm (he ▸ hx)

theorem scan_lt (n i : ℕ) (b : Bytes) (h : scan n b = some i) : i < b.length := by
  simp only [scan, Option.map_eq_some_iff] at h
  obtain ⟨k, hk, rfl⟩ := h
  have hlt := (List.findIdx?_eq_some_iff_findIdx_eq.mp hk).1
  simp only [List.length_drop, List.length_take] at hlt
  omega

theorem linesDecode_frame (n : ℕ) (l r : Bytes) (hn : newline ∉ (l ++ newline :: r).take n)
    (h : newline ∉ l) (hl : l.length ≤ maxLength) (hv : validUtf8 (stripCr l) = true) :
    linesDecode n (l ++ newline :: r) = (0, r, .frame (stripCr l)) := by
  have ht : (l ++ newline :: r).take l.length = l := by simp
  have hd : (l ++ newline :: r).drop (l.length + 1) = r := by simp
  simp only [linesDecode, scan_newline n l r hn h hl, ht, hd, hv, if_true]

theorem linesDecode_pending (n : ℕ) (b : Bytes) (h : newline ∉ b) (hl : b.length ≤ maxLength) :
    linesDecode n b = (b.length, b, .pending) := by
  have hmin : min (maxLength + 1) b.length = b.length := by omega
  simp only [linesDecode, scan_none n b h, if_neg (Nat.not_lt.mpr hl), hmin]

theorem linesDecode_size (n : ℕ) (b : Bytes) (n' : ℕ) (b' l : Bytes)
    (h : linesDecode n b = (n', b', .frame l)) : l.length + 1 + b'.length ≤ b.length := by
  unfold linesDecode at h
  cases hs : scan n b with
  | none =>
    simp only [hs] at h
    split at h <;> cases h
  | some i =>
    simp only [hs] at h
    have hi := scan_lt n i b hs
    split at h
    · cases h
      have hle := stripCr_length_le (b.take i)
      simp only [List.length_take, List.length_drop] at hle ⊢
      omega
    · cases h

theorem linesDecode_keeps (n : ℕ) (b : Bytes) (n' : ℕ) (b' : Bytes)
    (h : linesDecode n b = (n', b', .pending)) : b' = b := by
  unfold linesDecode at h
  cases hs : scan n b with
  | some i =>
    simp only [hs] at h
    split at h <;> cases h
  | none =>
    simp only [hs] at h
    split at h <;> cases h
    rfl

theorem linesDecodeEof_size (n : ℕ) (b : Bytes) (n' : ℕ) (b' l : Bytes)
    (h : linesDecodeEof n b = (n', b', .frame l)) :
    l.length + b'.length ≤ b.length ∧ b'.length < b.length := by
  unfold linesDecodeEof at h
  rcases hd : linesDecode n b with ⟨m, c, d⟩
  cases d with
  | frame k =>
    rw [hd] at h
    have hsize := linesDecode_size n b m c k hd
    cases h
    omega
  | failed => rw [hd] at h; cases h
  | pending =>
    rw [hd] at h
    have hc := linesDecode_keeps n b m c hd
    subst hc
    by_cases hend : c = [] ∨ c = [carriageReturn]
    · simp [hend] at h
    · simp only [hend, if_false] at h
      have hpos : 0 < c.length := List.length_pos_iff.mpr (fun hc => hend (Or.inl hc))
      have hle := stripCr_length_le c
      split at h <;> cases h
      exact ⟨by simpa using hle, by simpa using hpos⟩

/-- The codec every session is built with; `Framed`'s write buffer blocks from 8 KiB on. -/
def linesCodec : Codec where
  State := ℕ
  fresh := 0
  decode := linesDecode
  decodeEof := linesDecodeEof
  boundary := 8 * 1024
  boundary_pos := by decide
  Synced n b := newline ∉ b.take n
  fresh_synced b := by simp
  decode_frame n l r hn h hl hv :=
    ⟨0, linesDecode_frame n l r hn h hl hv, fun b => by simp⟩
  decode_pending n b _ h hl :=
    ⟨b.length, linesDecode_pending n b h hl, fun c => by simpa using h⟩
  decodeEof_frame n l r hn h hl hv := by
    refine ⟨0, ?_, fun b => by simp⟩
    simp only [linesDecodeEof, linesDecode_frame n l r hn h hl hv]
  decodeEof_last n b _ h hl hne hcr hv := by
    refine ⟨0, ?_, fun b => by simp⟩
    simp only [linesDecodeEof, linesDecode_pending n b h hl, hne, hcr, hv, or_self, if_true,
      if_false]
  decodeEof_done n b _ hb := by
    have hnl : newline ∉ b := by rcases hb with rfl | rfl <;> decide
    have hlen : b.length ≤ maxLength := by rcases hb with rfl | rfl <;> decide
    refine ⟨0, ?_⟩
    simp only [linesDecodeEof, linesDecode_pending n b hnl hlen, hb, if_true]
  decode_consumes := linesDecode_size
  decode_keeps n b n' b' h := Nat.le_of_eq (congrArg List.length (linesDecode_keeps n b n' b' h))
  decodeEof_consumes := linesDecodeEof_size

end FiveNinesEcho.Processor
