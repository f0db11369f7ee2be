import FiveNinesEcho.Processor.Transparency

/-!
# The count of echoed lines across handoffs

`echo_loop` counts a line when `framed.send` returns (`processor.rs:421-424`), and the record of a
handoff carries the count. A handoff that cuts a send leaves the rest of its bytes to the flush
`spawn_session` makes before the `select!` (`processor.rs:360-368`), and nobody counts that line.
The books balance with one more column: lines complete on the wire are the lines counted and the
sends cut. Nothing is assumed of the client's bytes here: lines too long or not text end the
session, they do not unbalance it.
-/

namespace FiveNinesEcho.Processor
open Lib Handoff

/-! ### A decoded line holds no line end -/

theorem notMem_take_scan (n i : ℕ) (b : Bytes) (hn : newline ∉ b.take n) (h : scan n b = some i) :
    newline ∉ b.take i := by
  simp only [scan, Option.map_eq_some_iff] at h
  obtain ⟨k, hk, rfl⟩ := h
  obtain ⟨hlt, -, hbefore⟩ := List.findIdx?_eq_some_iff_getElem.mp hk
  intro hm
  obtain ⟨j, hj, hget⟩ := List.mem_iff_getElem.mp hm
  rw [List.getElem_take] at hget
  simp only [List.length_take, List.length_drop] at hj hlt
  by_cases hjn : j < n
  · apply hn
    rw [List.mem_take_iff_getElem]
    exact ⟨j, by omega, hget⟩
  · have hne := hbefore (j - n) (by omega)
    apply hne
    have hidx : n + (j - n) = j := by omega
    simp only [List.getElem_drop, List.getElem_take, hidx, hget, beq_self_eq_true]

theorem notMem_of_scan_none (n : ℕ) (b : Bytes) (hn : newline ∉ b.take n)
    (hlen : b.length ≤ maxLength) (h : scan n b = none) : newline ∉ b := by
  simp only [scan, Option.map_eq_none_iff, List.findIdx?_eq_none_iff, beq_eq_false_iff_ne] at h
  rw [List.take_of_length_le (by omega)] at h
  intro hm
  rw [← List.take_append_drop n b, List.mem_append] at hm
  rcases hm with hm | hm
  · exact hn hm
  · exact h newline hm rfl

theorem notMem_stripCr (l : Bytes) (h : newline ∉ l) : newline ∉ stripCr l := by
  unfold stripCr
  split
  · exact fun hm => h (List.dropLast_subset l hm)
  · exact h

/-- What one decode leaves, whatever the bytes: a frame without a line end in it, and a scan
position that is good for the buffer and whatever follows. -/
def DecodesClean (r : ℕ × Bytes × Decoded) : Prop :=
  (∀ l, r.2.2 = .frame l → newline ∉ l) ∧
  (r.2.2 ≠ .failed → ∀ c, newline ∉ (r.2.1 ++ c).take r.1)

theorem linesDecode_clean (n : ℕ) (b : Bytes) (hn : newline ∉ b.take n) :
    DecodesClean (linesDecode n b) := by
  unfold linesDecode
  cases hs : scan n b with
  | some i =>
    have hline := notMem_stripCr _ (notMem_take_scan n i b hn hs)
    refine ⟨?_, by simp⟩
    intro l hl
    simp only at hl
    split at hl <;> cases hl
    exact hline
  | none =>
    by_cases hlen : maxLength < b.length
    · simp [hlen, DecodesClean]
    · have hnone := notMem_of_scan_none n b hn (by omega) hs
      refine ⟨by simp [hlen], ?_⟩
      intro _ c
      simp only [hlen, if_false, show min (maxLength + 1) b.length = b.length by omega,
        List.take_left]
      exact hnone

theorem linesDecodeEof_clean (n : ℕ) (b : Bytes) (hn : newline ∉ b.take n) :
    DecodesClean (linesDecodeEof n b) := by
  have hclean := linesDecode_clean n b hn
  unfold linesDecodeEof
  rcases hd : linesDecode n b with ⟨m, b', d⟩
  rw [hd] at hclean
  cases d with
  | frame l => exact hclean
  | failed => exact hclean
  | pending =>
    by_cases hend : b' = [] ∨ b' = [carriageReturn]
    · simp [hend, DecodesClean]
    · -- the codec has scanned the whole buffer, so what the end of input completes is one line
      have hb' : newline ∉ b' := by
        unfold linesDecode at hd
        cases hs : scan n b with
        | some i =>
          simp only [hs] at hd
          split at hd <;> cases hd
        | none =>
          simp only [hs] at hd
          split at hd <;> cases hd
          exact notMem_of_scan_none n b hn (by omega) hs
      have hline := notMem_stripCr b' hb'
      refine ⟨?_, by simp [hend]⟩
      intro l hl
      simp only [hend, if_false] at hl
      split at hl <;> cases hl
      exact hline

theorem Framed.decode_clean (f : Framed linesCodec) (h : newline ∉ f.readBuf.take f.codec) :
    DecodesClean f.decode := by
  unfold Framed.decode
  split
  · exact linesDecodeEof_clean f.codec f.readBuf h
  · exact linesDecode_clean f.codec f.readBuf h

/-! ### The balance -/

variable {C : Codec}

/-- Encoded bytes that are not on the wire yet. -/
def Task.pending (t : Task C) : Bytes :=
  match t.pc with
  | .handedOff h => h.pendingWriteBytes
  | _ => t.framed.writeBuf

/-- The count the session stands at: the one its record carries while it is between generations. -/
def Task.linesEchoed (t : Task C) : ℕ :=
  match t.pc with
  | .handedOff h => h.linesEchoed
  | _ => t.counter

/-- Lines accounted for: a send under way counts its line when it returns. -/
def Task.accounted (t : Task C) : ℕ :=
  match t.pc with
  | .flush => t.counter + 1
  | _ => t.linesEchoed

/-- Idle with an empty write buffer: no send and no flush under way. -/
def Task.idle (t : Task C) : Bool :=
  match t.pc with
  | .select | .next | .read => t.framed.writeBuf.isEmpty
  | .handedOff h => h.pendingWriteBytes.isEmpty
  | _ => false

/-- The `cancel_rx` arm fires while `framed.send` is still flushing its line. -/
def Session.cutsSend (s : Session C) : SessionAct → Bool
  | .task .cancel => decide (s.task.pc = .flush)
  | _ => false

structure Balanced (cuts : ℕ) (k : Sock) (t : Task linesCodec) : Prop where
  synced : t.alive = true → ∀ c, newline ∉ (t.framed.readBuf ++ c).take t.framed.codec
  line : ∀ l, t.pc = .ready l → newline ∉ l
  between : t.between = true → t.framed.writeBuf = []
  balance : t.pc ≠ .ended →
    k.wire.count newline + t.pending.count newline = t.accounted + cuts

section Moves
variable {cuts : ℕ} {k : Sock} {t : Task linesCodec}

theorem encode_count (l : Bytes) (h : newline ∉ l) : (encode l).count newline = 1 := by
  rw [encode, List.count_append, List.count_eq_zero_of_not_mem h]
  rfl

theorem Balanced.move (hb : Balanced cuts k t) (ha : t.alive = true) (t' : Task linesCodec)
    (hrb : t'.framed.readBuf = t.framed.readBuf) (hco : t'.framed.codec = t.framed.codec)
    (hline : ∀ l, t'.pc ≠ .ready l) (hbetween : t'.between = true → t'.framed.writeBuf = [])
    (hsum : k.wire.count newline + t'.pending.count newline = t'.accounted + cuts) :
    Balanced cuts k t' := by
  refine ⟨?_, fun l hl => absurd hl (hline l), hbetween, fun _ => hsum⟩
  intro _ c
  rw [hrb, hco]
  exact hb.synced ha c

theorem Balanced.ended (hp : t.pc = .ended) : Balanced cuts k t := by
  refine ⟨?_, ?_, ?_, fun hne => absurd hp hne⟩
  · simp [Task.alive, hp]
  · simp [hp]
  · simp [Task.between, hp]

/-- Waiting for bytes, a task has sent and counted all it has taken. -/
theorem Balanced.waiting (hb : Balanced cuts k t) (hp : t.pc = .next ∨ t.pc = .read) :
    t.framed.writeBuf = [] ∧ (∀ c, newline ∉ (t.framed.readBuf ++ c).take t.framed.codec) ∧
      k.wire.count newline + t.framed.writeBuf.count newline = t.counter + cuts := by
  have hsum := hb.balance
  refine ⟨hb.between ?_, hb.synced ?_, ?_⟩
  · rcases hp with hp | hp <;> simp only [Task.between, hp]
  · rcases hp with hp | hp <;> simp only [Task.alive, hp]
  · rcases hp with hp | hp <;>
      simpa [Task.pending, Task.accounted, Task.linesEchoed, hp] using hsum

theorem pollNext_balanced (hb : Balanced cuts k t) (hp : t.pc = .next) :
    Balanced cuts k t.pollNext := by
  obtain ⟨hwb, hsynced, hsum⟩ := hb.waiting (.inl hp)
  unfold Task.pollNext
  cases hr : t.framed.isReadable with
  | false => exact ⟨fun _ => hsynced, by simp, fun _ => hwb, fun _ => hsum⟩
  | true =>
    have hstart := hsynced []
    rw [List.append_nil] at hstart
    have hclean := t.framed.decode_clean hstart
    rcases hd : t.framed.decode with ⟨st, b, d⟩
    rw [hd] at hclean
    cases d with
    | frame l =>
      refine ⟨fun _ => hclean.2 (by simp), ?_, fun _ => hwb, fun _ => hsum⟩
      intro l' hl'
      cases hl'
      exact hclean.1 l rfl
    | failed => exact .ended rfl
    | pending =>
      cases he : t.framed.eof with
      | true => exact .ended rfl
      | false => exact ⟨fun _ => hclean.2 (by simp), by simp, fun _ => hwb, fun _ => hsum⟩

theorem poll_balanced (hb : Balanced cuts k t) (t' : Task linesCodec) (h : t.poll = some t') :
    Balanced cuts k t' := by
  have hsum := hb.balance
  rcases t.poll_cases t' h with ⟨hp, hwb, rfl⟩ | ⟨hp, rfl⟩ | ⟨hp, rfl⟩ | ⟨l, hp, -, rfl⟩ |
    ⟨hp, hwb, rfl⟩
  · have ha : t.alive = true := by simp only [Task.alive, hp]
    simp only [hp, Task.pending, Task.accounted, Task.linesEchoed] at hsum
    exact hb.move ha _ rfl rfl (by simp) (fun _ => hwb) (hsum (by simp))
  · have ha : t.alive = true := by simp only [Task.alive, hp]
    have hwb : t.framed.writeBuf = [] := hb.between (by simp only [Task.between, hp])
    simp only [hp, Task.pending, Task.accounted, Task.linesEchoed] at hsum
    exact hb.move ha _ rfl rfl (by simp) (fun _ => hwb) (hsum (by simp))
  · exact pollNext_balanced hb hp
  · -- the line goes into an empty buffer: one line end more is pending, one more is under way
    have ha : t.alive = true := by simp only [Task.alive, hp]
    have hwb : t.framed.writeBuf = [] := hb.between (by simp only [Task.between, hp])
    have hcount := encode_count l (hb.line l hp)
    simp only [hp, Task.pending, Task.accounted, Task.linesEchoed, hwb, List.count_nil] at hsum
    refine hb.move ha _ rfl rfl (by simp) (by simp [Task.between]) ?_
    simp only [Task.pending, Task.accounted, hwb, List.nil_append, hcount]
    have := hsum (by simp)
    omega
  · have ha : t.alive = true := by simp only [Task.alive, hp]
    simp only [hp, Task.pending, Task.accounted] at hsum
    exact hb.move ha _ rfl rfl (by simp) (fun _ => hwb) (hsum (by simp))

theorem write_balanced (hb : Balanced cuts k t) (n : ℕ) (k' : Sock) (t' : Task linesCodec)
    (h : t.step k (.write n) = some (k', t')) : Balanced cuts k' t' := by
  simp only [Task.step, Option.ite_none_right_eq_some, Option.some.injEq, Prod.mk.injEq] at h
  obtain ⟨⟨hw, -⟩, rfl, rfl⟩ := h
  have hsplit : (t.framed.writeBuf.take n).count newline + (t.framed.writeBuf.drop n).count newline =
      t.framed.writeBuf.count newline := by
    rw [← List.count_append, List.take_append_drop]
  have hsum := hb.balance
  have hpc := (Task.writing_pc hb.between hw).1
  refine ⟨hb.synced, hb.line, ?_, ?_⟩
  · rcases hpc with hp | hp <;> simp [Task.between, hp]
  · intro hne
    have hsum := hsum hne
    rcases hpc with hp | hp <;>
      simp only [Task.pending, Task.accounted, Task.linesEchoed, hp, List.count_append] at hsum ⊢ <;>
      omega

theorem cancel_balanced (hb : Balanced cuts k t) (k' : Sock) (t' : Task linesCodec)
    (h : t.step k .cancel = some (k', t')) :
    Balanced (cuts + (decide (t.pc = .flush)).toNat) k' t' := by
  simp only [Task.step, Option.ite_none_right_eq_some, Option.some.injEq, Prod.mk.injEq] at h
  obtain ⟨⟨-, hs⟩, rfl, rfl⟩ := h
  have hsum := hb.balance
  refine ⟨by simp [Task.alive], by simp, by simp [Task.between], fun _ => ?_⟩
  simp only [Task.pending, Task.accounted, Task.linesEchoed, Task.handoff]
  cases hp : t.pc with
  | select | read =>
    simp only [hp, Task.pending, Task.accounted, Task.linesEchoed] at hsum
    simpa using hsum (by simp)
  | flush =>
    simp only [hp, Task.pending, Task.accounted] at hsum
    have := hsum (by simp)
    simp only [decide_true, Bool.toNat_true]
    omega
  | ready l =>
    -- the write buffer is empty before a send, so it is never held back
    have hwb : t.framed.writeBuf = [] := hb.between (by simp only [Task.between, hp])
    have hpos := linesCodec.boundary_pos
    simp only [Task.suspended, hp, hwb, List.length_nil, decide_eq_true_eq] at hs
    omega
  | flushAdopted | next | ended | handedOff r => simp [Task.suspended, hp] at hs

theorem task_balanced (hb : Balanced cuts k t) (a : TaskAct) (k' : Sock) (t' : Task linesCodec)
    (h : t.step k a = some (k', t')) :
    Balanced (cuts + (Session.cutsSend ⟨k, t⟩ (.task a)).toNat) k' t' := by
  have hkeep : ∀ u, Balanced (cuts + false.toNat) k' u ↔ Balanced cuts k' u := fun u => Iff.rfl
  cases a with
  | poll =>
    obtain ⟨rfl, hpoll⟩ := Task.step_poll k k' t t' h
    exact (hkeep t').mpr (poll_balanced hb t' hpoll)
  | recv n =>
    simp only [Task.step, Option.ite_none_right_eq_some, Option.some.injEq, Prod.mk.injEq] at h
    obtain ⟨⟨hp, -, -⟩, rfl, rfl⟩ := h
    obtain ⟨hwb, hsynced, hsum⟩ := hb.waiting (.inr hp)
    refine ⟨?_, by simp, fun _ => hwb, fun _ => hsum⟩
    intro _ c
    simp only [List.append_assoc]
    exact hsynced _
  | recvEof =>
    simp only [Task.step, Option.ite_none_right_eq_some] at h
    obtain ⟨⟨hp, -⟩, h⟩ := h
    obtain ⟨hwb, hsynced, hsum⟩ := hb.waiting (.inr hp)
    split at h <;> cases h
    · exact .ended rfl
    · exact ⟨fun _ => hsynced, by simp, fun _ => hwb, fun _ => hsum⟩
  | write n => exact (hkeep t').mpr (write_balanced hb n k' t' h)
  | ioErr =>
    simp only [Task.step, Option.ite_none_right_eq_some, Option.some.injEq, Prod.mk.injEq] at h
    obtain ⟨-, rfl, rfl⟩ := h
    exact .ended rfl
  | cancel => exact cancel_balanced hb k' t' h

theorem adopt_balanced (hb : Balanced cuts k t) (r : SessionHandoff) (hp : t.pc = .handedOff r)
    (t' : Task linesCodec) (h : adoptSession r = some t') : Balanced cuts k t' := by
  simp only [adoptSession, Option.ite_none_right_eq_some, Option.some.injEq] at h
  obtain ⟨-, rfl⟩ := h
  have hsum := hb.balance (by simp [hp])
  simp only [Task.pending, Task.accounted, Task.linesEchoed, hp] at hsum
  have hsynced : ∀ b c : Bytes, newline ∉ (b ++ c).take (linesCodec.fresh : ℕ) :=
    fun b c => linesCodec.fresh_synced (b ++ c)
  -- the adopted session starts at the flush if it has anything to flush
  have hpc : (spawnSession (framedWithLookahead (C := linesCodec) r.partialLineBytes
      r.pendingWriteBytes) r.udsFd r.peer r.linesEchoed r.connectedAtUnixMs r.traceId).pc =
      if r.pendingWriteBytes.isEmpty then .select else .flushAdopted := rfl
  cases hw : r.pendingWriteBytes.isEmpty with
  | true =>
    rw [hw, if_pos rfl] at hpc
    refine ⟨fun _ => hsynced _, by simp [hpc], fun _ => List.isEmpty_iff.mp hw, fun _ => ?_⟩
    simp only [Task.pending, Task.accounted, Task.linesEchoed, hpc]
    exact hsum
  | false =>
    rw [hw, if_neg (by simp)] at hpc
    refine ⟨fun _ => hsynced _, by simp [hpc], by simp [Task.between, hpc], fun _ => ?_⟩
    simp only [Task.pending, Task.accounted, Task.linesEchoed, hpc]
    exact hsum

end Moves

/-! ### Whole runs -/

theorem Session.step_balanced (cuts : ℕ) (s s' : Session linesCodec) (a : SessionAct)
    (hb : Balanced cuts s.sock s.task) (h : s.step a = some s') :
    Balanced (cuts + (s.cutsSend a).toNat) s'.sock s'.task := by
  cases a with
  | peer a =>
    simp only [Session.step, Option.map_eq_some_iff] at h
    obtain ⟨k, hk, rfl⟩ := h
    have hwire := (Sock.peer_sock _ _ a hk).1
    refine ⟨hb.synced, hb.line, hb.between, ?_⟩
    simp only [hwire]
    exact hb.balance
  | task a =>
    simp only [Session.step, Option.map_eq_some_iff] at h
    obtain ⟨⟨k, t⟩, hkt, rfl⟩ := h
    exact task_balanced hb a k t hkt
  | sendCancel =>
    simp only [Session.step, Option.ite_none_right_eq_some, Option.some.injEq] at h
    obtain ⟨-, rfl⟩ := h
    exact ⟨hb.synced, hb.line, hb.between, hb.balance⟩
  | adopt =>
    cases hp : s.task.pc with
    | handedOff r =>
      simp only [Session.step, hp, Option.map_eq_some_iff] at h
      obtain ⟨t, ht, rfl⟩ := h
      exact adopt_balanced hb r hp t ht
    | _ => simp [Session.step, hp] at h

theorem Session.start_balanced (lookahead input : Bytes) (closes : Bool) (cap : ℕ) (fd : Fd)
    (peer : String) (connectedAt : ℕ) (traceId : String) :
    Balanced 0 (Session.start linesCodec lookahead input closes cap fd peer connectedAt traceId).sock
      (Session.start linesCodec lookahead input closes cap fd peer connectedAt traceId).task := by
  have hsynced : ∀ c : Bytes, newline ∉ (lookahead ++ c).take (linesCodec.fresh : ℕ) :=
    fun c => linesCodec.fresh_synced (lookahead ++ c)
  refine ⟨fun _ => hsynced, ?_, fun _ => rfl, fun _ => ?_⟩
  all_goals simp [Session.start, Sock.open, spawnSession, Task.pending, Task.accounted,
    Task.linesEchoed]

/-- An idle session has counted the lines on the wire but for the sends that were cut. -/
theorem Balanced.idle_count {cuts : ℕ} {k : Sock} {t : Task linesCodec} (hb : Balanced cuts k t)
    (h : t.idle = true) : (lines newline k.wire).length = t.linesEchoed + cuts := by
  rw [lines_length]
  cases hp : t.pc with
  | select | next | read =>
    have hwb : t.framed.writeBuf = [] := by simpa [Task.idle, hp] using h
    simpa [Task.pending, Task.accounted, hp, hwb] using hb.balance
  | handedOff r =>
    have hwb : r.pendingWriteBytes = [] := by simpa [Task.idle, hp] using h
    simpa [Task.pending, Task.accounted, hp, hwb] using hb.balance
  | flushAdopted | flush | ended | ready l => simp [Task.idle, hp] at h

/-- Whatever the client sends, however its bytes and the session's writes are split, and however
many handoffs the session goes through: when it is idle its count is the number of lines complete
on the wire exactly if no handoff of the run cut a send. -/
theorem Session.linesEchoed_conserved_iff (lookahead input : Bytes) (closes : Bool) (cap : ℕ)
    (fd : Fd) (peer : String) (connectedAt : ℕ) (traceId : String) (as : List SessionAct)
    (s : Session linesCodec)
    (hrun : exec Session.step
      (Session.start linesCodec lookahead input closes cap fd peer connectedAt traceId) as = some s)
    (hidle : s.task.idle = true) :
    s.task.linesEchoed = (lines newline s.sock.wire).length ↔
      Along Session.step (fun s a => s.cutsSend a = false)
        (Session.start linesCodec lookahead input closes cap fd peer connectedAt traceId) as := by
  have hbalanced := exec_history
    (I := fun bs (t : Session linesCodec) => Balanced
      (tally Session.step Session.cutsSend
        (Session.start linesCodec lookahead input closes cap fd peer connectedAt traceId) bs)
      t.sock t.task)
    _ (Session.start_balanced lookahead input closes cap fd peer connectedAt traceId)
    (fun bs t a u hbs hb hu => by
      rw [tally_concat Session.cutsSend _ t bs a hbs]
      exact Session.step_balanced _ t u a hb hu)
    as s hrun
  have hcount := hbalanced.idle_count hidle
  rw [← tally_eq_zero_iff Session.cutsSend _ s as hrun, hcount]
  omega

def twoLinesRun : List SessionAct :=
  [.peer (.send 5), .task .poll, .task .poll, .task (.recv 5), .task .poll, .task .poll,
    .task (.write 3), .task .poll, .task .poll, .task .poll, .task (.write 2), .task .poll,
    .task .poll, .sendCancel, .task .cancel, .adopt]

theorem linesEchoed_conserved_waiting :
    ∃ s : Session linesCodec,
      exec Session.step (Session.start linesCodec [] [104, 105, 10, 97, 10] false 9 7 "p" 0 "t")
        twoLinesRun = some s ∧
      s.task.idle = true ∧ s.task.linesEchoed = 2 ∧ (lines newline s.sock.wire).length = 2 := by
  have hend : (exec Session.step
      (Session.start linesCodec [] [104, 105, 10, 97, 10] false 9 7 "p" 0 "t") twoLinesRun).map
      (fun s => (s.task.idle, s.task.linesEchoed)) = some (true, 2) := by decide
  have hwhole : tally Session.step Session.cutsSend
      (Session.start linesCodec [] [104, 105, 10, 97, 10] false 9 7 "p" 0 "t") twoLinesRun = 0 := by
    decide
  obtain ⟨s, hs, hidle⟩ := Option.map_eq_some_iff.mp hend
  obtain ⟨hidle, hcount⟩ := Prod.mk.inj hidle
  have hconserved := (Session.linesEchoed_conserved_iff [] [104, 105, 10, 97, 10] false 9 7 "p" 0 "t"
    twoLinesRun s hs hidle).mpr ((tally_eq_zero_iff Session.cutsSend _ s _ hs).mp hwhole)
  exact ⟨s, hs, hidle, hcount, by rw [← hconserved, hcount]⟩

/-- A line whose send was cut after its first byte reaches the client and is never counted. -/
theorem linesEchoed_misses_cut_line :
    ∃ s : Session linesCodec,
      exec Session.step (Session.start linesCodec [] [104, 105, 10] false 2 7 "p" 0 "t")
        midflushRun = some s ∧
      s.task.idle = true ∧ s.task.linesEchoed = 0 ∧ (lines newline s.sock.wire).length = 1 := by
  have hend : (exec Session.step (Session.start linesCodec [] [104, 105, 10] false 2 7 "p" 0 "t")
      midflushRun).map
      (fun s => (s.task.idle, s.task.linesEchoed, (lines newline s.sock.wire).length)) =
      some (true, 0, 1) := by decide
  obtain ⟨s, hs, hview⟩ := Option.map_eq_some_iff.mp hend
  obtain ⟨hidle, hview⟩ := Prod.mk.inj hview
  obtain ⟨hcount, hlines⟩ := Prod.mk.inj hview
  exact ⟨s, hs, hidle, hcount, hlines⟩

end FiveNinesEcho.Processor
