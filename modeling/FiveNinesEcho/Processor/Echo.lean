import FiveNinesEcho.Processor.Session

/-!
# Echo transparency

What a session owes its client is conserved: at every point of its life the bytes written so far,
the bytes encoded and not yet written, and the echo of the bytes not yet decoded add up to the echo
of the whole stream (`Session.due`). A committed upgrade cuts the session at a suspension point,
where nothing is held outside the two buffers the record carries.
-/

namespace FiveNinesEcho.Processor
open Lib Handoff
variable {C : Codec}

/-! ### The ledger -/

def Task.unread (t : Task C) : Bytes :=
  match t.pc with
  | .ended => []
  | .handedOff h => h.partialLineBytes
  | _ => t.framed.readBuf

def Task.owed (t : Task C) : Bytes :=
  match t.pc with
  | .ended => []
  | .handedOff h => h.pendingWriteBytes
  | .ready l => t.framed.writeBuf ++ encode l
  | _ => t.framed.writeBuf

/-- Everything the client will have been sent once the session has run out of work. -/
def due (k : Sock) (t : Task C) : Bytes :=
  k.wire ++ t.owed ++ echo k.closes (t.unread ++ k.inbox ++ k.toSend)

def Task.alive (t : Task C) : Bool :=
  match t.pc with
  | .ended | .handedOff _ => false
  | _ => true

def Task.between (t : Task C) : Bool :=
  match t.pc with
  | .select | .next | .read | .ready _ => true
  | _ => false

/-- What every reachable task satisfies on its socket: the codec's scan position is good for the
buffer and whatever follows it, between two sends the write buffer is empty, a buffer that is not
worth decoding holds no line, and the end of input was seen only after all of it. -/
structure Coherent (k : Sock) (t : Task C) : Prop where
  clean : Clean k.closes (t.unread ++ k.inbox ++ k.toSend)
  shut : k.shut = true → k.toSend = [] ∧ k.closes = true
  synced : t.alive = true → ∀ c, C.Synced t.framed.codec (t.framed.readBuf ++ c)
  idle : t.between = true → t.framed.writeBuf = []
  stale : t.alive = true → t.framed.isReadable = false → newline ∉ t.framed.readBuf
  eof : t.alive = true → t.framed.eof = true →
    k.inbox = [] ∧ k.toSend = [] ∧ k.closes = true ∧ t.framed.isReadable = true
  waiting : t.pc = .read → t.framed.isReadable = false
  ended : t.pc = .ended → k.inbox = [] ∧ k.toSend = [] ∧ k.closes = true
  record : ∀ h, t.pc = .handedOff h → isSchemaCompatible h.version = true ∧ h.transport = .uds

/-! ### One decode -/

section PollNext
variable {k : Sock} {t : Task C}

theorem pollNext_line (hc : Coherent k t) (hp : t.pc = .next) (hr : t.framed.isReadable = true)
    (l r : Bytes) (hb : t.framed.readBuf = l ++ newline :: r) (hl : newline ∉ l) :
    ∃ st, (∀ b, C.Synced st b) ∧ t.pollNext =
      { t with framed := { t.framed with codec := st, readBuf := r }, pc := .ready (stripCr l) } := by
  have hun : t.unread = t.framed.readBuf := by simp only [Task.unread, hp]
  have hclean := hc.clean
  rw [hun, hb, List.append_assoc, List.append_assoc, List.cons_append] at hclean
  obtain ⟨hlen, hv⟩ := hclean.line hl
  have hsync := hc.synced (by simp only [Task.alive, hp]) []
  rw [List.append_nil, hb] at hsync
  have hstrip := validUtf8_stripCr l hv
  cases he : t.framed.eof with
  | true =>
    obtain ⟨st, hd, hst⟩ := C.decodeEof_frame _ l r hsync hl hlen hstrip
    refine ⟨st, hst, ?_⟩
    simp only [Task.pollNext, hr, if_true, Framed.decode, he, hb, hd]
  | false =>
    obtain ⟨st, hd, hst⟩ := C.decode_frame _ l r hsync hl hlen hstrip
    refine ⟨st, hst, ?_⟩
    simp only [Task.pollNext, hr, if_true, Framed.decode, he, hb, hd, Bool.false_eq_true, if_false]

theorem pollNext_wait (hc : Coherent k t) (hp : t.pc = .next) (hr : t.framed.isReadable = true)
    (hb : newline ∉ t.framed.readBuf) (he : t.framed.eof = false) :
    ∃ st, (∀ c, C.Synced st (t.framed.readBuf ++ c)) ∧ t.pollNext =
      { t with framed := { t.framed with codec := st, isReadable := false }, pc := .read } := by
  have hun : t.unread = t.framed.readBuf := by simp only [Task.unread, hp]
  have hclean := hc.clean
  rw [hun, List.append_assoc] at hclean
  have hlen := hclean.front_short hb
  have hsync := hc.synced (by simp only [Task.alive, hp]) []
  rw [List.append_nil] at hsync
  obtain ⟨st, hd, hst⟩ := C.decode_pending _ _ hsync hb hlen
  refine ⟨st, hst, ?_⟩
  simp only [Task.pollNext, hr, if_true, Framed.decode, he, hd, Bool.false_eq_true, if_false]

theorem pollNext_last (hc : Coherent k t) (hp : t.pc = .next) (he : t.framed.eof = true)
    (hb : newline ∉ t.framed.readBuf) (hne : t.framed.readBuf ≠ [])
    (hcr : t.framed.readBuf ≠ [carriageReturn]) :
    ∃ st, (∀ b, C.Synced st b) ∧ t.pollNext =
      { t with
        framed := { t.framed with codec := st, readBuf := [] }
        pc := .ready (stripCr t.framed.readBuf) } := by
  have halive : t.alive = true := by simp only [Task.alive, hp]
  obtain ⟨hi, hs, hcl, hr⟩ := hc.eof halive he
  have hun : t.unread = t.framed.readBuf := by simp only [Task.unread, hp]
  have hclean := hc.clean
  rw [hun, hi, hs, List.append_nil, List.append_nil] at hclean
  obtain ⟨hlen, hv⟩ := hclean.tail hb
  have hsync := hc.synced halive []
  rw [List.append_nil] at hsync
  obtain ⟨st, hd, hst⟩ := C.decodeEof_last _ _ hsync hb hlen hne hcr (validUtf8_stripCr _ (hv hcl))
  refine ⟨st, hst, ?_⟩
  simp only [Task.pollNext, hr, if_true, Framed.decode, he, hd]

theorem pollNext_done (hc : Coherent k t) (hp : t.pc = .next) (he : t.framed.eof = true)
    (hb : t.framed.readBuf = [] ∨ t.framed.readBuf = [carriageReturn]) :
    ∃ f : Framed C, t.pollNext = { t with framed := f, pc := .ended } := by
  have halive : t.alive = true := by simp only [Task.alive, hp]
  have hr := (hc.eof halive he).2.2.2
  have hsync := hc.synced halive []
  rw [List.append_nil] at hsync
  obtain ⟨st, hd⟩ := C.decodeEof_done _ _ hsync hb
  refine ⟨{ t.framed with codec := st, isReadable := false }, ?_⟩
  simp only [Task.pollNext, hr, if_true, Framed.decode, he, hd]

theorem due_next (hc : Coherent k t) (hp : t.pc = .next) :
    due k t = k.wire ++ echo k.closes (t.framed.readBuf ++ k.inbox ++ k.toSend) := by
  have hwb : t.framed.writeBuf = [] := hc.idle (by simp only [Task.between, hp])
  simp only [due, Task.owed, Task.unread, hp, hwb, List.append_nil]

theorem line_due (hc : Coherent k t) (hp : t.pc = .next) (hr : t.framed.isReadable = true)
    (l r : Bytes) (hb : t.framed.readBuf = l ++ newline :: r) (hl : newline ∉ l) :
    Coherent k t.pollNext ∧ due k t.pollNext = due k t := by
  have halive : t.alive = true := by simp only [Task.alive, hp]
  have hwb : t.framed.writeBuf = [] := hc.idle (by simp only [Task.between, hp])
  have hclean := hc.clean
  simp only [Task.unread, hp, hb, List.append_assoc, List.cons_append] at hclean
  obtain ⟨st, hst, hn⟩ := pollNext_line hc hp hr l r hb hl
  rw [due_next hc hp, hn]
  refine ⟨⟨?_, hc.shut, fun _ c => hst _, fun _ => hwb, fun _ hf => ?_, fun _ => hc.eof halive,
    by simp, by simp, by simp⟩, ?_⟩
  · rw [Task.unread, List.append_assoc]
    exact hclean.after_line hl
  · exact absurd (hr.symm.trans hf) (by simp)
  · simp only [due, Task.owed, Task.unread, hwb, hb, List.nil_append, List.append_assoc,
      List.cons_append, echo_line _ l _ hl, echoLine]

theorem wait_due (hc : Coherent k t) (hp : t.pc = .next) (hr : t.framed.isReadable = true)
    (hb : newline ∉ t.framed.readBuf) (he : t.framed.eof = false) :
    Coherent k t.pollNext ∧ due k t.pollNext = due k t := by
  have hwb : t.framed.writeBuf = [] := hc.idle (by simp only [Task.between, hp])
  have hclean := hc.clean
  simp only [Task.unread, hp] at hclean
  obtain ⟨st, hst, hn⟩ := pollNext_wait hc hp hr hb he
  rw [due_next hc hp, hn]
  refine ⟨⟨hclean, hc.shut, fun _ => hst, fun _ => hwb, fun _ _ => hb, fun _ hf => ?_,
    fun _ => rfl, by simp, by simp⟩, ?_⟩
  · exact absurd (hf.symm.trans he) (by simp)
  · simp only [due, Task.owed, Task.unread, hwb, List.append_nil]

theorem last_due (hc : Coherent k t) (hp : t.pc = .next) (he : t.framed.eof = true)
    (hb : newline ∉ t.framed.readBuf) (hne : t.framed.readBuf ≠ [])
    (hcr : t.framed.readBuf ≠ [carriageReturn]) :
    Coherent k t.pollNext ∧ due k t.pollNext = due k t := by
  have halive : t.alive = true := by simp only [Task.alive, hp]
  have hwb : t.framed.writeBuf = [] := hc.idle (by simp only [Task.between, hp])
  obtain ⟨hi, hs, hcl, hr⟩ := hc.eof halive he
  obtain ⟨st, hst, hn⟩ := pollNext_last hc hp he hb hne hcr
  have hecho : echo k.closes t.framed.readBuf = encode (stripCr t.framed.readBuf) := by
    rw [echo_rest _ _ hb, hcl]
    simp only [tailEcho, hne, hcr, or_self, if_true, if_false, echoLine]
  rw [due_next hc hp, hn]
  refine ⟨⟨?_, hc.shut, fun _ c => hst _, fun _ => hwb, fun _ hf => ?_, fun _ => hc.eof halive,
    by simp, by simp, by simp⟩, ?_⟩
  · simp only [Task.unread, hi, hs, List.append_nil]
    exact clean_nil _
  · exact absurd (hr.symm.trans hf) (by simp)
  · simp only [due, Task.owed, Task.unread, hi, hs, hwb, List.append_nil, List.nil_append, hecho,
      echo_nil]

theorem done_due (hc : Coherent k t) (hp : t.pc = .next) (he : t.framed.eof = true)
    (hb : t.framed.readBuf = [] ∨ t.framed.readBuf = [carriageReturn]) :
    Coherent k t.pollNext ∧ due k t.pollNext = due k t := by
  obtain ⟨hi, hs, hcl, -⟩ := hc.eof (by simp only [Task.alive, hp]) he
  obtain ⟨f, hn⟩ := pollNext_done hc hp he hb
  have hnl : newline ∉ t.framed.readBuf := by rcases hb with hb | hb <;> rw [hb] <;> decide
  have hecho : echo k.closes t.framed.readBuf = [] := by
    rw [echo_rest _ _ hnl, hcl]
    simp only [tailEcho, hb, if_true]
  rw [due_next hc hp, hn]
  refine ⟨⟨?_, hc.shut, by simp [Task.alive], by simp [Task.between], by simp [Task.alive],
    by simp [Task.alive], by simp, fun _ => ⟨hi, hs, hcl⟩, by simp⟩, ?_⟩
  · simp only [Task.unread, hi, hs, List.append_nil]
    exact clean_nil _
  · simp only [due, Task.owed, Task.unread, hi, hs, List.append_nil, hecho, echo_nil]

/-- One decode keeps the task coherent and what is due unchanged. -/
theorem pollNext_due (hc : Coherent k t) (hp : t.pc = .next) :
    Coherent k t.pollNext ∧ due k t.pollNext = due k t := by
  cases hr : t.framed.isReadable with
  | false =>
    have halive : t.alive = true := by simp only [Task.alive, hp]
    have hwb : t.framed.writeBuf = [] := hc.idle (by simp only [Task.between, hp])
    have hclean := hc.clean
    simp only [Task.unread, hp] at hclean
    have hn : t.pollNext = { t with pc := .read } := by
      simp only [Task.pollNext, hr, Bool.false_eq_true, if_false]
    rw [due_next hc hp, hn]
    refine ⟨⟨hclean, hc.shut, fun _ => hc.synced halive, fun _ => hwb, fun _ => hc.stale halive,
      fun _ => hc.eof halive, fun _ => hr, by simp, by simp⟩, ?_⟩
    simp only [due, Task.owed, Task.unread, hwb, List.append_nil]
  | true =>
    rcases front_cases newline t.framed.readBuf with ⟨l, r, hb, hl⟩ | hb
    · exact line_due hc hp hr l r hb hl
    · cases he : t.framed.eof with
      | false => exact wait_due hc hp hr hb he
      | true =>
        by_cases hend : t.framed.readBuf = [] ∨ t.framed.readBuf = [carriageReturn]
        · exact done_due hc hp he hend
        · rw [not_or] at hend
          exact last_due hc hp he hb hend.1 hend.2

end PollNext

/-! ### One move -/

section Moves
variable {k : Sock} {t : Task C}

theorem Task.unread_alive (h : t.alive = true) : t.unread = t.framed.readBuf := by
  cases hp : t.pc <;> simp_all [Task.alive, Task.unread]

theorem Coherent.move (hc : Coherent k t) (ha : t.alive = true) (t' : Task C)
    (ha' : t'.alive = true) (hrb : t'.framed.readBuf = t.framed.readBuf)
    (hco : t'.framed.codec = t.framed.codec) (hir : t'.framed.isReadable = t.framed.isReadable)
    (heof : t'.framed.eof = t.framed.eof) (hb : t'.between = true → t'.framed.writeBuf = [])
    (hr : t'.pc ≠ .read) : Coherent k t' := by
  refine ⟨?_, hc.shut, ?_, hb, ?_, ?_, fun hp => absurd hp hr, ?_, ?_⟩
  · rw [Task.unread_alive ha', hrb, ← Task.unread_alive ha]
    exact hc.clean
  · intro _
    rw [hco, hrb]
    exact hc.synced ha
  · intro _ hf
    rw [hrb]
    exact hc.stale ha (hir ▸ hf)
  · intro _ hf
    rw [hir]
    exact hc.eof ha (heof ▸ hf)
  · intro hp
    simp [Task.alive, hp] at ha'
  · intro h hp
    simp [Task.alive, hp] at ha'

theorem poll_due (hc : Coherent k t) (t' : Task C) (h : t.poll = some t') :
    Coherent k t' ∧ due k t' = due k t := by
  rcases t.poll_cases t' h with ⟨hp, hwb, rfl⟩ | ⟨hp, rfl⟩ | ⟨hp, rfl⟩ | ⟨l, hp, -, rfl⟩ |
    ⟨hp, hwb, rfl⟩
  · refine ⟨hc.move ?_ _ rfl rfl rfl rfl rfl (fun _ => hwb) (by simp), ?_⟩
    · simp only [Task.alive, hp]
    · simp only [due, Task.owed, Task.unread, hp]
  · have hwb : t.framed.writeBuf = [] := hc.idle (by simp only [Task.between, hp])
    refine ⟨hc.move ?_ _ rfl rfl rfl rfl rfl (fun _ => hwb) (by simp), ?_⟩
    · simp only [Task.alive, hp]
    · simp only [due, Task.owed, Task.unread, hp]
  · exact pollNext_due hc hp
  · refine ⟨hc.move ?_ _ rfl rfl rfl rfl rfl (by simp [Task.between]) (by simp), ?_⟩
    · simp only [Task.alive, hp]
    · simp only [due, Task.owed, Task.unread, hp]
  · refine ⟨hc.move ?_ _ rfl rfl rfl rfl rfl (fun _ => hwb) (by simp), ?_⟩
    · simp only [Task.alive, hp]
    · simp only [due, Task.owed, Task.unread, hp]

theorem recv_due (hc : Coherent k t) (n : ℕ) (k' : Sock) (t' : Task C)
    (h : t.step k (.recv n) = some (k', t')) : Coherent k' t' ∧ due k' t' = due k t := by
  simp only [Task.step, Option.ite_none_right_eq_some, Option.some.injEq, Prod.mk.injEq] at h
  obtain ⟨⟨hp, hn, hle⟩, rfl, rfl⟩ := h
  have halive : t.alive = true := by simp only [Task.alive, hp]
  have hwb : t.framed.writeBuf = [] := hc.idle (by simp only [Task.between, hp])
  have hsplit : t.framed.readBuf ++ k.inbox.take n ++ k.inbox.drop n ++ k.toSend =
      t.framed.readBuf ++ k.inbox ++ k.toSend := by simp
  have hclean := hc.clean
  simp only [Task.unread, hp] at hclean
  refine ⟨⟨?_, hc.shut, fun _ c => ?_, fun _ => hwb, by simp, by simp, by simp, by simp, by simp⟩,
    ?_⟩
  · simp only [Task.unread, hsplit]
    exact hclean
  · simp only [List.append_assoc]
    exact hc.synced halive _
  · simp only [due, Task.owed, Task.unread, hp, hsplit]

theorem recvEof_due (hc : Coherent k t) (hg : k.gone = false) (k' : Sock) (t' : Task C)
    (h : t.step k .recvEof = some (k', t')) : Coherent k' t' ∧ due k' t' = due k t := by
  simp only [Task.step, Option.ite_none_right_eq_some] at h
  obtain ⟨⟨hp, heof⟩, h⟩ := h
  have halive : t.alive = true := by simp only [Task.alive, hp]
  have hwait := hc.waiting hp
  -- a second end of input in a row does not occur: the first one is decoded to the end
  have he : t.framed.eof = false := by
    cases he : t.framed.eof with
    | false => rfl
    | true => exact absurd (hwait.symm.trans (hc.eof halive he).2.2.2) (by simp)
  simp only [he, Bool.false_eq_true, if_false, Option.some.injEq, Prod.mk.injEq] at h
  obtain ⟨rfl, rfl⟩ := h
  simp only [Sock.atEof, hg, Bool.or_false, Bool.and_eq_true, List.isEmpty_iff] at heof
  obtain ⟨hs, hcl⟩ := hc.shut heof.2
  have hwb : t.framed.writeBuf = [] := hc.idle (by simp only [Task.between, hp])
  have hclean := hc.clean
  simp only [Task.unread, hp] at hclean
  refine ⟨⟨hclean, hc.shut, fun _ => hc.synced halive, fun _ => hwb, by simp,
    fun _ _ => ⟨heof.1, hs, hcl, rfl⟩, by simp, by simp, by simp⟩, ?_⟩
  simp only [due, Task.owed, Task.unread, hp]

theorem Task.writing_pc (hidle : t.between = true → t.framed.writeBuf = [])
    (h : t.writing = true) :
    (t.pc = .flushAdopted ∨ t.pc = .flush) ∧ t.framed.writeBuf ≠ [] := by
  cases hp : t.pc with
  | ready l =>
    have hwb : t.framed.writeBuf = [] := hidle (by simp only [Task.between, hp])
    have hpos := C.boundary_pos
    simp only [Task.writing, hp, hwb, List.length_nil, decide_eq_true_eq] at h
    omega
  | flushAdopted => exact ⟨Or.inl rfl, by simpa [Task.writing, hp] using h⟩
  | flush => exact ⟨Or.inr rfl, by simpa [Task.writing, hp] using h⟩
  | select => simp [Task.writing, hp] at h
  | next => simp [Task.writing, hp] at h
  | read => simp [Task.writing, hp] at h
  | ended => simp [Task.writing, hp] at h
  | handedOff r => simp [Task.writing, hp] at h

/-- A task that has no move on a socket it can write to waits for bytes that are not there. -/
theorem Task.blocked (hidle : t.between = true → t.framed.writeBuf = []) (ha : t.alive = true)
    (hg : k.gone = false) (hroom : 0 < k.room) (h : ∀ a, t.step k a = none) :
    t.pc = .read ∧ k.inbox = [] ∧ k.shut = false := by
  have hpoll : t.poll = none := by simpa [Task.step] using h .poll
  have hquiet : t.writing = false := by
    cases hw : t.writing with
    | false => rfl
    | true =>
      have hlen : 0 < t.framed.writeBuf.length :=
        List.length_pos_iff.mpr (Task.writing_pc hidle hw).2
      have hwrite := h (.write 1)
      simp [Task.step, hw, hg, Nat.succ_le_iff, hlen, Nat.pos_iff_ne_zero.mp hroom] at hwrite
  cases hp : t.pc with
  | flushAdopted =>
    simp [Task.writing, hp] at hquiet
    simp [Task.poll, hp, hquiet] at hpoll
  | select => simp [Task.poll, hp] at hpoll
  | next => simp [Task.poll, hp] at hpoll
  | ready l =>
    simp only [Task.writing, hp, decide_eq_false_iff_not, Nat.not_le] at hquiet
    simp [Task.poll, hp, hquiet] at hpoll
  | flush =>
    simp [Task.writing, hp] at hquiet
    simp [Task.poll, hp, hquiet] at hpoll
  | read =>
    have hin : k.inbox = [] := by
      simpa [Task.step, hp, Nat.succ_le_iff, List.length_pos_iff] using h (.recv 1)
    have heof := h .recvEof
    refine ⟨rfl, hin, ?_⟩
    cases hs : k.shut with
    | false => rfl
    | true =>
      have hat : k.atEof = true := by simp [Sock.atEof, hin, hs]
      simp only [Task.step, hp, hat, true_and, if_true] at heof
      split at heof <;> cases heof
  | ended => simp [Task.alive, hp] at ha
  | handedOff r => simp [Task.alive, hp] at ha

theorem write_due (hc : Coherent k t) (n : ℕ) (k' : Sock) (t' : Task C)
    (h : t.step k (.write n) = some (k', t')) : Coherent k' t' ∧ due k' t' = due k t := by
  simp only [Task.step, Option.ite_none_right_eq_some, Option.some.injEq, Prod.mk.injEq] at h
  obtain ⟨⟨hw, -⟩, rfl, rfl⟩ := h
  have hsplit : k.wire ++ t.framed.writeBuf.take n ++ t.framed.writeBuf.drop n =
      k.wire ++ t.framed.writeBuf := by simp
  obtain ⟨hp | hp, -⟩ := Task.writing_pc hc.idle hw
  all_goals
    have hm := hc.move (by simp only [Task.alive, hp])
      { t with framed := { t.framed with writeBuf := t.framed.writeBuf.drop n } }
      (by simp only [Task.alive, hp]) rfl rfl rfl rfl (by simp [Task.between, hp]) (by simp [hp])
    refine ⟨⟨hm.clean, hm.shut, hm.synced, hm.idle, hm.stale, hm.eof, hm.waiting, hm.ended,
      hm.record⟩, ?_⟩
    simp only [due, Task.owed, Task.unread, hp, hsplit]

theorem cancel_due (hc : Coherent k t) (k' : Sock) (t' : Task C)
    (h : t.step k .cancel = some (k', t')) : Coherent k' t' ∧ due k' t' = due k t := by
  simp only [Task.step, Option.ite_none_right_eq_some, Option.some.injEq, Prod.mk.injEq] at h
  obtain ⟨⟨-, hs⟩, rfl, rfl⟩ := h
  have hready : ∀ l, t.pc ≠ .ready l := by
    intro l hp
    have hwb : t.framed.writeBuf = [] := hc.idle (by simp only [Task.between, hp])
    have hpos := C.boundary_pos
    simp only [Task.suspended, hp, hwb, List.length_nil, decide_eq_true_eq] at hs
    omega
  have halive : t.alive = true := by cases hp : t.pc <;> simp_all [Task.alive, Task.suspended]
  have howed : t.owed = t.framed.writeBuf := by
    cases hp : t.pc <;> simp_all [Task.owed, Task.suspended]
  have hclean := hc.clean
  rw [Task.unread_alive halive] at hclean
  refine ⟨⟨hclean, hc.shut, by simp [Task.alive], by simp [Task.between], by simp [Task.alive],
    by simp [Task.alive], by simp, by simp, ?_⟩, ?_⟩
  · intro h hh
    simp only [Pc.handedOff.injEq] at hh
    subst hh
    exact ⟨by simp [Task.handoff, isSchemaCompatible_iff, schemaVersion], rfl⟩
  · simp only [due, howed, Task.unread_alive halive]
    simp only [Task.owed, Task.unread, Task.handoff]

theorem task_due (hc : Coherent k t) (hg : k.gone = false) (a : TaskAct) (k' : Sock) (t' : Task C)
    (h : t.step k a = some (k', t')) : Coherent k' t' ∧ due k' t' = due k t := by
  cases a with
  | poll =>
    obtain ⟨rfl, hpoll⟩ := Task.step_poll k k' t t' h
    exact poll_due hc t' hpoll
  | recv n => exact recv_due hc n k' t' h
  | recvEof => exact recvEof_due hc hg k' t' h
  | write n => exact write_due hc n k' t' h
  | ioErr => simp [Task.step, hg] at h
  | cancel => exact cancel_due hc k' t' h

theorem peer_due (hc : Coherent k t) (a : PeerAct) (ha : a ≠ .hangup) (k' : Sock)
    (h : k.peer a = some k') : Coherent k' t ∧ due k' t = due k t := by
  cases a with
  | send n =>
    simp only [Sock.peer, Option.ite_none_right_eq_some, Option.some.injEq] at h
    obtain ⟨⟨hn, hle, -⟩, rfl⟩ := h
    have hne : k.toSend ≠ [] := by rw [← List.length_pos_iff]; omega
    have hsplit : t.unread ++ (k.inbox ++ k.toSend.take n) ++ k.toSend.drop n =
        t.unread ++ k.inbox ++ k.toSend := by simp
    refine ⟨⟨?_, fun hs => absurd (hc.shut hs).1 hne, hc.synced, hc.idle, hc.stale,
      fun ha he => absurd (hc.eof ha he).2.1 hne, hc.waiting,
      fun hp => absurd (hc.ended hp).2.1 hne, hc.record⟩, ?_⟩
    · simp only [hsplit]
      exact hc.clean
    · simp only [due, hsplit]
  | shut =>
    simp only [Sock.peer, Option.ite_none_right_eq_some, Option.some.injEq] at h
    obtain ⟨⟨hs, hcl, -⟩, rfl⟩ := h
    exact ⟨⟨hc.clean, fun _ => ⟨hs, hcl⟩, hc.synced, hc.idle, hc.stale, hc.eof, hc.waiting,
      hc.ended, hc.record⟩, rfl⟩
  | take n =>
    simp only [Sock.peer, Option.ite_none_right_eq_some, Option.some.injEq] at h
    obtain ⟨-, rfl⟩ := h
    exact ⟨⟨hc.clean, hc.shut, hc.synced, hc.idle, hc.stale, hc.eof, hc.waiting, hc.ended,
      hc.record⟩, rfl⟩
  | hangup => exact absurd rfl ha

theorem adopt_due (hc : Coherent k t) (r : SessionHandoff) (hp : t.pc = .handedOff r)
    (t' : Task C) (h : adoptSession r = some t') : Coherent k t' ∧ due k t' = due k t := by
  simp only [adoptSession, Option.ite_none_right_eq_some, Option.some.injEq] at h
  obtain ⟨-, ht⟩ := h
  have hclean := hc.clean
  simp only [Task.unread, hp] at hclean
  have hf : t'.framed = framedWithLookahead r.partialLineBytes r.pendingWriteBytes := by
    rw [← ht, spawnSession]
  have hpc : (t'.pc = .select ∧ r.pendingWriteBytes = []) ∨
      (t'.pc = .flushAdopted ∧ r.pendingWriteBytes ≠ []) := by
    rw [← ht]
    exact spawnSession_pc _ _ _ _ _ _
  have halive : t'.alive = true := by
    rcases hpc with ⟨hpc, -⟩ | ⟨hpc, -⟩ <;> simp only [Task.alive, hpc]
  have howed : t'.owed = r.pendingWriteBytes := by
    rcases hpc with ⟨hpc, -⟩ | ⟨hpc, -⟩ <;> simp only [Task.owed, hpc, hf, framedWithLookahead]
  have hunread : t'.unread = r.partialLineBytes := by
    rw [Task.unread_alive halive, hf, framedWithLookahead]
  refine ⟨⟨by rw [hunread]; exact hclean, hc.shut, fun _ c => ?_, fun hb => ?_, fun _ hr => ?_,
    by simp [hf, framedWithLookahead], ?_, ?_, ?_⟩, ?_⟩
  · rw [hf]
    exact C.fresh_synced _
  · rcases hpc with ⟨-, hw⟩ | ⟨hpc, -⟩
    · rw [hf]
      exact hw
    · simp [Task.between, hpc] at hb
  · rw [hf] at hr ⊢
    simp only [framedWithLookahead, Bool.not_eq_false', List.isEmpty_iff] at hr
    simp [framedWithLookahead, hr]
  · rcases hpc with ⟨hpc, -⟩ | ⟨hpc, -⟩ <;> simp [hpc]
  · rcases hpc with ⟨hpc, -⟩ | ⟨hpc, -⟩ <;> simp [hpc]
  · rcases hpc with ⟨hpc, -⟩ | ⟨hpc, -⟩ <;> simp [hpc]
  · simp only [due, howed, hunread]
    simp only [Task.owed, Task.unread, hp]

end Moves

end FiveNinesEcho.Processor
