import FiveNinesEcho.Processor.Echo
import Mathlib.Data.List.TakeWhile

/-!
# What a session answers to any stream

`Processor.Echo` keeps the ledger of a session whose client sends clean lines. Here the stream is
arbitrary: the session echoes line by line up to the first line the codec refuses (longer than
64 KiB, or not UTF-8) and ends there. `reply` is what it writes in all, and `Steady` the ledger of
an uninterrupted task, told against the bytes that are still `ahead` of its read buffer wherever
they are: in the socket, in a proxy, or with the client.
-/

namespace FiveNinesEcho.Processor
open Lib Handoff
variable {C : Codec}

/-! ### The answer to a stream -/

def accepted (l : Bytes) : Bool := decide (l.length ≤ maxLength) && validUtf8 (stripCr l)

/-- The bytes a session writes for a stream after which the client closes its sending side. -/
def reply (xs : Bytes) : Bytes :=
  ((lines newline xs).takeWhile accepted).flatMap echoLine ++
    if (lines newline xs).all accepted && accepted (rest newline xs) then
      tailEcho (rest newline xs)
    else []

theorem reply_line (l r : Bytes) (hl : newline ∉ l) (ha : accepted l = true) :
    reply (l ++ newline :: r) = echoLine l ++ reply r := by
  simp only [reply, lines_append_sep newline l r hl, rest_append_sep,
    List.takeWhile_cons_of_pos ha, List.flatMap_cons, List.all_cons, ha, Bool.true_and,
    List.append_assoc]

theorem reply_refused (l r : Bytes) (hl : newline ∉ l) (ha : accepted l = false) :
    reply (l ++ newline :: r) = [] := by
  simp [reply, lines_append_sep newline l r hl, ha]

theorem reply_rest (t : Bytes) (ht : newline ∉ t) :
    reply t = if accepted t then tailEcho t else [] := by
  simp [reply, lines_of_notMem newline t ht, rest_of_notMem newline t ht]

theorem accepted_overlong (l : Bytes) (h : maxLength < l.length) : accepted l = false := by
  simp only [accepted, Bool.and_eq_false_iff, decide_eq_false_iff_not]
  exact Or.inl (Nat.not_le.mpr h)

theorem reply_overlong (t u : Bytes) (ht : newline ∉ t) (hlen : maxLength < t.length) :
    reply (t ++ u) = [] := by
  rcases front_cases newline u with ⟨l, r, rfl, hl⟩ | hu
  · have hm : newline ∉ t ++ l := by simp [ht, hl]
    have hlong : maxLength < (t ++ l).length := by
      simp only [List.length_append]
      omega
    rw [← List.append_assoc]
    exact reply_refused (t ++ l) r hm (accepted_overlong _ hlong)
  · have hm : newline ∉ t ++ u := by simp [ht, hu]
    have hlong : maxLength < (t ++ u).length := by
      simp only [List.length_append]
      omega
    rw [reply_rest _ hm, accepted_overlong _ hlong]
    rfl

theorem Clean.accepted_line {closes : Bool} {xs l : Bytes} (h : Clean closes xs)
    (hl : l ∈ lines newline xs) : accepted l = true := by
  obtain ⟨hlen, hv⟩ := h.lines_ok l hl
  simp only [accepted, hlen, validUtf8_stripCr l hv, decide_true, Bool.and_self]

/-- On a clean stream nothing is refused. -/
theorem Clean.reply_eq {xs : Bytes} (h : Clean true xs) : reply xs = echo true xs := by
  have hlines : ∀ l ∈ lines newline xs, accepted l = true := fun l hl => h.accepted_line hl
  have hrest : accepted (rest newline xs) = true := by
    have hv := validUtf8_stripCr _ (h.rest_ok rfl)
    simp only [accepted, h.rest_short, hv, decide_true, Bool.and_self]
  have hall : (lines newline xs).all accepted = true := List.all_eq_true.mpr hlines
  have htake : (lines newline xs).takeWhile accepted = lines newline xs :=
    List.takeWhile_eq_self_iff.mpr hlines
  simp only [reply, echo, htake, hall, hrest, Bool.and_self, if_true]

/-! ### The codec on a line it refuses -/

structure Codec.Strict (C : Codec) : Prop where
  decode_refused : ∀ st l r, C.Synced st (l ++ newline :: r) → newline ∉ l → accepted l = false →
    ∃ st' b', C.decode st (l ++ newline :: r) = (st', b', .failed)
  decode_overlong : ∀ st b, C.Synced st b → newline ∉ b → maxLength < b.length →
    ∃ st' b', C.decode st b = (st', b', .failed)
  decodeEof_refused : ∀ st l r, C.Synced st (l ++ newline :: r) → newline ∉ l →
    accepted l = false → ∃ st' b', C.decodeEof st (l ++ newline :: r) = (st', b', .failed)
  decodeEof_last_refused : ∀ st b, C.Synced st b → newline ∉ b → b ≠ [] → b ≠ [carriageReturn] →
    accepted b = false → ∃ st' b', C.decodeEof st b = (st', b', .failed)

theorem scan_out_of_reach (n : ℕ) (l r : Bytes) (h : newline ∉ l) (hl : maxLength < l.length) :
    scan n (l ++ r) = none := by
  have htake : (l ++ r).take (maxLength + 1) = l.take (maxLength + 1) :=
    List.take_append_of_le_length hl
  have hm : newline ∉ (l.take (maxLength + 1)).drop n :=
    fun hm => h (List.mem_of_mem_take (List.mem_of_mem_drop hm))
  simp only [scan, htake, Option.map_eq_none_iff, List.findIdx?_eq_none_iff, beq_eq_false_iff_ne]
  exact fun x hx he => hm (he ▸ hx)

theorem linesDecode_overlong (n : ℕ) (l r : Bytes) (h : newline ∉ l) (hl : maxLength < l.length) :
    linesDecode n (l ++ r) = (n, l ++ r, .failed) := by
  have hlong : maxLength < (l ++ r).length := by
    simp only [List.length_append]
    omega
  simp only [linesDecode, scan_out_of_reach n l r h hl, if_pos hlong]

theorem linesDecode_refused (n : ℕ) (l r : Bytes) (hn : newline ∉ (l ++ newline :: r).take n)
    (h : newline ∉ l) (ha : accepted l = false) :
    ∃ st' b', linesDecode n (l ++ newline :: r) = (st', b', .failed) := by
  by_cases hl : l.length ≤ maxLength
  · have hv : validUtf8 (stripCr l) = false := by simpa [accepted, hl] using ha
    have ht : (l ++ newline :: r).take l.length = l := by simp
    refine ⟨0, (l ++ newline :: r).drop (l.length + 1), ?_⟩
    simp only [linesDecode, scan_newline n l r hn h hl, ht, hv, Bool.false_eq_true, if_false]
  · exact ⟨_, _, linesDecode_overlong n l (newline :: r) h (Nat.not_le.mp hl)⟩

theorem linesCodec_strict : linesCodec.Strict where
  decode_refused n l r hn h ha := linesDecode_refused n l r hn h ha
  decode_overlong n b _ h hl := by
    have hd := linesDecode_overlong n b [] h hl
    rw [List.append_nil] at hd
    exact ⟨n, b, hd⟩
  decodeEof_refused n l r hn h ha := by
    obtain ⟨st, b, hd⟩ := linesDecode_refused n l r hn h ha
    exact ⟨st, b, by simp only [linesCodec, linesDecodeEof, hd]⟩
  decodeEof_last_refused n b _ h hne hcr ha := by
    by_cases hl : b.length ≤ maxLength
    · have hv : validUtf8 (stripCr b) = false := by simpa [accepted, hl] using ha
      refine ⟨(0 : ℕ), [], ?_⟩
      simp only [linesCodec, linesDecodeEof, linesDecode_pending n b h hl, hne, hcr, hv, or_self,
        Bool.false_eq_true, if_false]
    · have hd := linesDecode_overlong n b [] h (Nat.not_le.mp hl)
      rw [List.append_nil] at hd
      exact ⟨n, b, by simp only [linesCodec, linesDecodeEof, hd]⟩

/-! ### One decode -/

/-- The codec's side of a task that has not been interrupted: `ahead` is what follows its read
buffer. -/
structure Framing (ahead : Bytes) (t : Task C) : Prop where
  synced : ∀ c, C.Synced t.framed.codec (t.framed.readBuf ++ c)
  idle : t.between = true → t.framed.writeBuf = []
  stale : t.framed.isReadable = false → newline ∉ t.framed.readBuf
  eof : t.framed.eof = true → ahead = [] ∧ t.framed.isReadable = true
  waiting : t.pc = .read → t.framed.isReadable = false
  uncancelled : t.cancelled = false

/-- What `framed.next()` comes to: a line, a wait for more bytes, the unterminated last line, or
the end of the stream. -/
inductive NextMove (t : Task C) : Task C → Prop
  | line (l r : Bytes) (st : C.State) (hr : t.framed.isReadable = true)
      (hb : t.framed.readBuf = l ++ newline :: r) (hl : newline ∉ l) (ha : accepted l = true)
      (hst : ∀ b, C.Synced st b) : NextMove t
        { t with framed := { t.framed with codec := st, readBuf := r }, pc := .ready (stripCr l) }
  | wait (st : C.State) (hb : newline ∉ t.framed.readBuf) (he : t.framed.eof = false)
      (hst : ∀ c, C.Synced st (t.framed.readBuf ++ c)) : NextMove t
        { t with framed := { t.framed with codec := st, isReadable := false }, pc := .read }
  | last (st : C.State) (he : t.framed.eof = true) (hb : newline ∉ t.framed.readBuf)
      (hre : reply t.framed.readBuf = encode (stripCr t.framed.readBuf))
      (hst : ∀ b, C.Synced st b) : NextMove t
        { t with
          framed := { t.framed with codec := st, readBuf := [] }
          pc := .ready (stripCr t.framed.readBuf) }
  | finished (f : Framed C)
      (hre : ∀ ahead, (t.framed.eof = true → ahead = []) → reply (t.framed.readBuf ++ ahead) = []) :
      NextMove t { t with framed := f, pc := .ended }

section PollNext
variable {ahead : Bytes} {t : Task C}

theorem Framed.decode_line (hC : C.Strict) (f : Framed C) (l r : Bytes)
    (hsync : C.Synced f.codec f.readBuf) (hb : f.readBuf = l ++ newline :: r) (hl : newline ∉ l) :
    (accepted l = true ∧ ∃ st, f.decode = (st, r, .frame (stripCr l)) ∧ ∀ b, C.Synced st b) ∨
    (accepted l = false ∧ ∃ st b, f.decode = (st, b, .failed)) := by
  rw [hb] at hsync
  cases ha : accepted l with
  | true =>
    obtain ⟨hlen, hv⟩ : l.length ≤ maxLength ∧ validUtf8 (stripCr l) = true := by
      simpa [accepted] using ha
    left
    refine ⟨rfl, ?_⟩
    cases he : f.eof with
    | true =>
      obtain ⟨st, hd, hst⟩ := C.decodeEof_frame _ l r hsync hl hlen hv
      exact ⟨st, by rw [Framed.decode, if_pos he, hb, hd], hst⟩
    | false =>
      obtain ⟨st, hd, hst⟩ := C.decode_frame _ l r hsync hl hlen hv
      exact ⟨st, by rw [Framed.decode, if_neg (by simp [he]), hb, hd], hst⟩
  | false =>
    right
    refine ⟨rfl, ?_⟩
    cases he : f.eof with
    | true =>
      obtain ⟨st, b, hd⟩ := hC.decodeEof_refused _ l r hsync hl ha
      exact ⟨st, b, by rw [Framed.decode, if_pos he, hb, hd]⟩
    | false =>
      obtain ⟨st, b, hd⟩ := hC.decode_refused _ l r hsync hl ha
      exact ⟨st, b, by rw [Framed.decode, if_neg (by simp [he]), hb, hd]⟩

theorem Task.pollNext_failed (hr : t.framed.isReadable = true) (st : C.State) (b : Bytes)
    (hd : t.framed.decode = (st, b, .failed)) : t.pollNext =
      { t with framed := { t.framed with codec := st, readBuf := b }, pc := .ended } := by
  simp only [Task.pollNext, hr, if_true, hd]

theorem pollNext_open (hC : C.Strict) (hf : Framing ahead t) (hr : t.framed.isReadable = true)
    (hb : newline ∉ t.framed.readBuf) (he : t.framed.eof = false) : NextMove t t.pollNext := by
  have hsync := hf.synced []
  rw [List.append_nil] at hsync
  have hdec : t.framed.decode = C.decode t.framed.codec t.framed.readBuf := by
    rw [Framed.decode, if_neg (by simp [he])]
  by_cases hlen : t.framed.readBuf.length ≤ maxLength
  · obtain ⟨st, hd, hst⟩ := C.decode_pending _ _ hsync hb hlen
    have hn : t.pollNext =
        { t with framed := { t.framed with codec := st, isReadable := false }, pc := .read } := by
      simp only [Task.pollNext, hr, if_true, hdec, hd, he, Bool.false_eq_true, if_false]
    rw [hn]
    exact .wait st hb he hst
  · obtain ⟨st, b, hd⟩ := hC.decode_overlong _ _ hsync hb (Nat.not_le.mp hlen)
    rw [t.pollNext_failed hr st b (hdec.trans hd)]
    exact .finished _ fun ahead _ => reply_overlong _ ahead hb (Nat.not_le.mp hlen)

theorem pollNext_eof (hC : C.Strict) (hf : Framing ahead t) (hr : t.framed.isReadable = true)
    (hb : newline ∉ t.framed.readBuf) (he : t.framed.eof = true) : NextMove t t.pollNext := by
  have hsync := hf.synced []
  rw [List.append_nil] at hsync
  have hdec : t.framed.decode = C.decodeEof t.framed.codec t.framed.readBuf := by
    rw [Framed.decode, if_pos he]
  have hrest := reply_rest _ hb
  have hover : reply t.framed.readBuf = [] →
      ∀ ahead, (t.framed.eof = true → ahead = []) → reply (t.framed.readBuf ++ ahead) = [] := by
    intro hre ahead hah
    rw [hah he, List.append_nil]
    exact hre
  by_cases hend : t.framed.readBuf = [] ∨ t.framed.readBuf = [carriageReturn]
  · obtain ⟨st, hd⟩ := C.decodeEof_done _ _ hsync hend
    have hn : t.pollNext =
        { t with framed := { t.framed with codec := st, isReadable := false }, pc := .ended } := by
      simp only [Task.pollNext, hr, if_true, hdec, hd, he]
    rw [hn]
    refine .finished _ (hover ?_)
    rw [hrest, tailEcho, if_pos hend, ite_self]
  · obtain ⟨hne, hcr⟩ := not_or.mp hend
    cases ha : accepted t.framed.readBuf with
    | true =>
      obtain ⟨hlen, hv⟩ : t.framed.readBuf.length ≤ maxLength ∧
          validUtf8 (stripCr t.framed.readBuf) = true := by
        simpa [accepted] using ha
      obtain ⟨st, hd, hst⟩ := C.decodeEof_last _ _ hsync hb hlen hne hcr hv
      have hn : t.pollNext =
          { t with
            framed := { t.framed with codec := st, readBuf := [] }
            pc := .ready (stripCr t.framed.readBuf) } := by
        simp only [Task.pollNext, hr, if_true, hdec, hd]
      rw [hn]
      refine .last st he hb ?_ hst
      rw [hrest, ha, if_pos rfl, tailEcho, if_neg hend, echoLine]
    | false =>
      obtain ⟨st, b, hd⟩ := hC.decodeEof_last_refused _ _ hsync hb hne hcr ha
      rw [t.pollNext_failed hr st b (hdec.trans hd)]
      refine .finished _ (hover ?_)
      rw [hrest, ha]
      rfl

theorem pollNext_move (hC : C.Strict) (hf : Framing ahead t) : NextMove t t.pollNext := by
  cases hr : t.framed.isReadable with
  | false =>
    have he : t.framed.eof = false := by
      cases he : t.framed.eof with
      | false => rfl
      | true => exact absurd ((hf.eof he).2.symm.trans hr) (by simp)
    have hsame : ({ t.framed with isReadable := false } : Framed C) = t.framed := by rw [← hr]
    have hn : t.pollNext =
        { t with framed := { t.framed with isReadable := false }, pc := .read } := by
      rw [Task.pollNext, if_neg (by simp [hr]), hsame]
    rw [hn]
    exact .wait _ (hf.stale hr) he hf.synced
  | true =>
    rcases front_cases newline t.framed.readBuf with ⟨l, r, hb, hl⟩ | hb
    · have hsync := hf.synced []
      rw [List.append_nil] at hsync
      rcases t.framed.decode_line hC l r hsync hb hl with ⟨ha, st, hd, hst⟩ | ⟨ha, st, b, hd⟩
      · have hn : t.pollNext = { t with
            framed := { t.framed with codec := st, readBuf := r }, pc := .ready (stripCr l) } := by
          simp only [Task.pollNext, hr, if_true, hd]
        rw [hn]
        exact .line l r st hr hb hl ha hst
      · rw [t.pollNext_failed hr st b hd]
        refine .finished _ fun ahead _ => ?_
        rw [hb, List.append_assoc, List.cons_append]
        exact reply_refused l (r ++ ahead) hl ha
    · cases he : t.framed.eof with
      | false => exact pollNext_open hC hf hr hb he
      | true => exact pollNext_eof hC hf hr hb he

end PollNext

/-! ### One move -/

theorem Framing.move {ahead ahead' : Bytes} {t : Task C} (hf : Framing ahead t) (t' : Task C)
    (hrb : t'.framed.readBuf = t.framed.readBuf) (hco : t'.framed.codec = t.framed.codec)
    (hir : t'.framed.isReadable = t.framed.isReadable) (heof : t'.framed.eof = t.framed.eof)
    (hca : t'.cancelled = t.cancelled) (hah : ahead = [] → ahead' = [])
    (hb : t'.between = true → t'.framed.writeBuf = []) (hr : t'.pc = .read → t.pc = .read) :
    Framing ahead' t' := by
  refine ⟨?_, hb, ?_, ?_, ?_, hca.trans hf.uncancelled⟩
  · rw [hco, hrb]
    exact hf.synced
  · rw [hir, hrb]
    exact hf.stale
  · intro he
    obtain ⟨ha, hi⟩ := hf.eof (heof ▸ he)
    exact ⟨hah ha, hir.trans hi⟩
  · intro hp
    exact hir.trans (hf.waiting (hr hp))

theorem Framing.cut {inbox rest : Bytes} {t : Task C} (hf : Framing (inbox ++ rest) t) :
    Framing inbox t :=
  hf.move t rfl rfl rfl rfl rfl (fun h => (List.append_eq_nil_iff.mp h).1) hf.idle id

theorem NextMove.framing {ahead : Bytes} {t t' : Task C} (hn : NextMove t t')
    (hf : Framing ahead t) (hp : t.pc = .next) (ha : t'.alive = true) : Framing ahead t' := by
  have hwb : t.framed.writeBuf = [] := hf.idle (by simp only [Task.between, hp])
  cases hn with
  | line l r st hr hb hl hacc hst =>
    exact ⟨fun c => hst _, fun _ => hwb, fun hi => absurd (hr.symm.trans hi) (by simp), hf.eof,
      by simp, hf.uncancelled⟩
  | wait st hb he hst =>
    exact ⟨hst, fun _ => hwb, fun _ => hb, fun he' => absurd (he.symm.trans he') (by simp),
      fun _ => rfl, hf.uncancelled⟩
  | last st he hb hre hst =>
    exact ⟨fun c => hst _, fun _ => hwb, by simp, hf.eof, by simp, hf.uncancelled⟩
  | finished f hre => simp [Task.alive] at ha

section Step
variable {k k' : Sock} {t t' : Task C} {rest : Bytes}

theorem Framing.poll (hC : C.Strict) (ahead : Bytes) (hf : Framing ahead t)
    (h : t.poll = some t') (ha : t'.alive = true) : Framing ahead t' := by
  rcases t.poll_cases t' h with ⟨hp, hwb, rfl⟩ | ⟨hp, rfl⟩ | ⟨hp, rfl⟩ | ⟨l, hp, -, rfl⟩ |
    ⟨hp, hwb, rfl⟩
  · exact hf.move _ rfl rfl rfl rfl rfl id (fun _ => hwb) (by simp)
  · have hwb : t.framed.writeBuf = [] := hf.idle (by simp only [Task.between, hp])
    exact hf.move _ rfl rfl rfl rfl rfl id (fun _ => hwb) (by simp)
  · exact (pollNext_move hC hf).framing hf hp ha
  · exact hf.move _ rfl rfl rfl rfl rfl id (by simp [Task.between]) (by simp)
  · exact hf.move _ rfl rfl rfl rfl rfl id (fun _ => hwb) (by simp)

theorem Framing.recvEof (hf : Framing (k.inbox ++ rest) t) (hg : k.gone = false)
    (hshut : k.shut = true → rest = []) (h : t.step k .recvEof = some (k', t')) :
    k' = k ∧ k.inbox ++ rest = [] ∧ t.pc = .read ∧
    t' = { t with framed := { t.framed with isReadable := true, eof := true }, pc := .next } ∧
    Framing (k.inbox ++ rest) t' := by
  simp only [Task.step, Option.ite_none_right_eq_some] at h
  obtain ⟨⟨hp, heof⟩, h⟩ := h
  have hwait := hf.waiting hp
  have he : t.framed.eof = false := by
    cases he : t.framed.eof with
    | false => rfl
    | true => exact absurd (hwait.symm.trans (hf.eof he).2) (by simp)
  simp only [he, Bool.false_eq_true, if_false, Option.some.injEq, Prod.mk.injEq] at h
  obtain ⟨rfl, rfl⟩ := h
  simp only [Sock.atEof, hg, Bool.or_false, Bool.and_eq_true, List.isEmpty_iff] at heof
  have hnil : k.inbox ++ rest = [] := by rw [heof.1, hshut heof.2]; rfl
  have hwb : t.framed.writeBuf = [] := hf.idle (by simp only [Task.between, hp])
  exact ⟨rfl, hnil, hp, rfl, ⟨hf.synced, fun _ => hwb, by simp, fun _ => ⟨hnil, rfl⟩, by simp,
    hf.uncancelled⟩⟩

theorem Framing.recv (n : ℕ) (hf : Framing (k.inbox ++ rest) t)
    (h : t.step k (.recv n) = some (k', t')) :
    t.pc = .read ∧ k' = { k with inbox := k.inbox.drop n } ∧
    t' = { t with
      framed := { t.framed with
        readBuf := t.framed.readBuf ++ k.inbox.take n, isReadable := true, eof := false }
      pc := .next } ∧
    Framing (k'.inbox ++ rest) t' := by
  simp only [Task.step, Option.ite_none_right_eq_some, Option.some.injEq, Prod.mk.injEq] at h
  obtain ⟨⟨hp, -, -⟩, rfl, rfl⟩ := h
  have hwb : t.framed.writeBuf = [] := hf.idle (by simp only [Task.between, hp])
  refine ⟨hp, rfl, rfl, ⟨fun c => ?_, fun _ => hwb, by simp, by simp, by simp, hf.uncancelled⟩⟩
  rw [List.append_assoc]
  exact hf.synced _

theorem Framing.write (n : ℕ) (hf : Framing (k.inbox ++ rest) t)
    (h : t.step k (.write n) = some (k', t')) :
    (t.pc = .flushAdopted ∨ t.pc = .flush) ∧
    k' = { k with wire := k.wire ++ t.framed.writeBuf.take n } ∧
    t' = { t with framed := { t.framed with writeBuf := t.framed.writeBuf.drop n } } ∧
    Framing (k'.inbox ++ rest) t' := by
  simp only [Task.step, Option.ite_none_right_eq_some, Option.some.injEq, Prod.mk.injEq] at h
  obtain ⟨⟨hw, -⟩, rfl, rfl⟩ := h
  obtain ⟨hp, -⟩ := Task.writing_pc hf.idle hw
  refine ⟨hp, rfl, rfl, hf.move _ rfl rfl rfl rfl rfl id ?_ id⟩
  rcases hp with hp | hp <;> simp [Task.between, hp]

theorem Task.ended_step (a : TaskAct) (hp : t.pc = .ended) :
    t.step k a = none := by
  cases a <;> simp [Task.step, Task.poll, Task.writing, Task.suspended, hp]

end Step

/-! ### The ledger -/

/-- An uninterrupted task on its way through a stream: what it has written, what it is about to
write and the answer to what it has not decoded add up to `total`; a task that has ended has
written all of it. -/
structure Steady (total wire ahead : Bytes) (t : Task C) : Prop where
  framing : t.alive = true → Framing ahead t
  due : t.alive = true → wire ++ t.owed ++ reply (t.framed.readBuf ++ ahead) = total
  ended : t.alive = false → t.pc = .ended ∧ wire = total

section Ledger
variable {total wire ahead : Bytes} {t : Task C}

theorem Steady.written (h : Steady total wire ahead t) : wire <+: total := by
  cases ha : t.alive with
  | true =>
    rw [← h.due ha, List.append_assoc]
    exact List.prefix_append _ _
  | false => exact (h.ended ha).2 ▸ List.prefix_refl wire

/-- A task whose stream is cut off behind its socket answers what it was sent. -/
theorem Steady.cut {inbox rest : Bytes} (hs : Steady total wire (inbox ++ rest) t) :
    ∃ total', Steady total' wire inbox t := by
  cases ha : t.alive with
  | true =>
    refine ⟨wire ++ t.owed ++ reply (t.framed.readBuf ++ inbox), ?_, ?_, ?_⟩
    · exact fun _ => (hs.framing ha).cut
    · exact fun _ => rfl
    · simp [ha]
  | false =>
    refine ⟨wire, ?_, ?_, ?_⟩
    · simp [ha]
    · simp [ha]
    · exact fun _ => ⟨(hs.ended ha).1, rfl⟩

theorem NextMove.steady {t' : Task C} (hn : NextMove t t') (hs : Steady total wire ahead t)
    (hp : t.pc = .next) : Steady total wire ahead t' := by
  have ha : t.alive = true := by simp only [Task.alive, hp]
  have hf := hs.framing ha
  have hwb : t.framed.writeBuf = [] := hf.idle (by simp only [Task.between, hp])
  have hdue := hs.due ha
  simp only [Task.owed, hp, hwb, List.append_nil] at hdue
  refine ⟨hn.framing hf hp, ?_, ?_⟩
  · intro ha'
    cases hn with
    | line l r st hr hb hl hacc hst =>
      simp only [Task.owed, hwb, List.nil_append, List.append_assoc]
      rw [← hdue, hb, List.append_assoc, List.cons_append, reply_line l _ hl hacc]
      rfl
    | wait st hb he hst =>
      simp only [Task.owed, hwb, List.append_nil]
      exact hdue
    | last st he hb hre hst =>
      rw [(hf.eof he).1, List.append_nil, hre] at hdue
      have hnil : reply [] = [] := rfl
      simp only [Task.owed, hwb, List.nil_append, (hf.eof he).1, hnil, List.append_nil]
      exact hdue
    | finished f hre => simp [Task.alive] at ha'
  · intro ha'
    cases hn with
    | finished f hre =>
      refine ⟨rfl, ?_⟩
      rw [← hdue, hre ahead (fun he => (hf.eof he).1), List.append_nil]
    | line l r st hr hb hl hacc hst => simp [Task.alive] at ha'
    | wait st hb he hst => simp [Task.alive] at ha'
    | last st he hb hre hst => simp [Task.alive] at ha'

theorem Steady.poll {t' : Task C} (hC : C.Strict) (hs : Steady total wire ahead t)
    (h : t.poll = some t') : Steady total wire ahead t' := by
  have ha : t.alive = true := by
    cases hp : t.pc <;> simp_all [Task.alive, Task.poll]
  have hf := hs.framing ha
  have hdue := hs.due ha
  rcases t.poll_cases t' h with ⟨hp, hwb, rfl⟩ | ⟨hp, rfl⟩ | ⟨hp, rfl⟩ | ⟨l, hp, -, rfl⟩ |
    ⟨hp, hwb, rfl⟩
  · refine ⟨hf.poll hC ahead h, fun _ => ?_, by simp [Task.alive]⟩
    simpa [Task.owed, hp] using hdue
  · refine ⟨hf.poll hC ahead h, fun _ => ?_, by simp [Task.alive]⟩
    simpa [Task.owed, hp] using hdue
  · exact (pollNext_move hC hf).steady hs hp
  · refine ⟨hf.poll hC ahead h, fun _ => ?_, by simp [Task.alive]⟩
    simpa [Task.owed, hp] using hdue
  · refine ⟨hf.poll hC ahead h, fun _ => ?_, by simp [Task.alive]⟩
    simpa [Task.owed, hp] using hdue

/-- One move of a task that nobody interrupts keeps the ledger. -/
theorem Steady.step {k k' : Sock} {t' : Task C} {rest : Bytes} (hC : C.Strict) (a : TaskAct)
    (hs : Steady total k.wire (k.inbox ++ rest) t) (hg : k.gone = false)
    (hshut : k.shut = true → rest = []) (h : t.step k a = some (k', t')) :
    Steady total k'.wire (k'.inbox ++ rest) t' := by
  have ha : t.alive = true := by
    cases hp : t.pc <;> cases a <;>
      simp_all [Task.alive, Task.step, Task.poll, Task.writing, Task.suspended]
  have hf := hs.framing ha
  have hdue := hs.due ha
  cases a with
  | poll =>
    obtain ⟨rfl, hpoll⟩ := Task.step_poll k k' t t' h
    exact hs.poll hC hpoll
  | recv n =>
    obtain ⟨hp, rfl, rfl, hf'⟩ := hf.recv n h
    refine ⟨fun _ => hf', fun _ => ?_, by simp [Task.alive]⟩
    simp only [Task.owed, hp] at hdue ⊢
    rw [← hdue, append_take_drop]
  | recvEof =>
    obtain ⟨rfl, -, hp, rfl, hf'⟩ := hf.recvEof hg hshut h
    refine ⟨fun _ => hf', fun _ => ?_, by simp [Task.alive]⟩
    simpa only [Task.owed, hp] using hdue
  | write n =>
    obtain ⟨hp, rfl, rfl, hf'⟩ := hf.write n h
    refine ⟨fun _ => hf', fun _ => ?_, ?_⟩
    · rcases hp with hp | hp <;> simp only [Task.owed, hp] at hdue ⊢ <;>
        rw [← hdue, List.append_assoc k.wire, List.take_append_drop]
    · rcases hp with hp | hp <;> simp [Task.alive, hp]
  | ioErr => simp [Task.step, hg] at h
  | cancel => simp [Task.step, hf.uncancelled] at h

end Ledger

end FiveNinesEcho.Processor
