import FiveNinesEcho.Processor.Reply

/-!
# A connection that is only listened to (`processor.rs:279-319`, `processor/sidecar.rs:11-42`)

The scanner's connection to the processor: `dispatch_incoming` reads its preamble, and `run_sidecar`
goes on reading lines off the same `Framed` and answers nothing. `Hearing` is the task with the
lines it has taken. What it takes is told from the bytes it has consumed: the lines in them, and,
once the other end has closed, what came after the last of them.
-/

namespace FiveNinesEcho.Processor
open Lib Handoff
variable {C : Codec}

structure Hearing (C : Codec) where
  task : Task C
  heard : List Bytes

/-- A connection whose first line is not the sidecar's preamble is not listened to. -/
def Hearing.take (opens : Bytes → Bool) (h : Hearing C) (l : Bytes) : Hearing C where
  task := { h.task with pc := if h.heard = [] ∧ opens l = false then .ended else .next }
  heard := h.heard ++ [l]

def Hearing.step (opens : Bytes → Bool) (k : Sock) (h : Hearing C) (a : TaskAct) :
    Option (Sock × Hearing C) :=
  match h.task.pc with
  | .ready l => if a = .poll then some (k, h.take opens l) else none
  | .next | .read => (h.task.step k a).map fun p => (p.1, { h with task := p.2 })
  | _ => none

def Hearing.start (C : Codec) (fd : Fd) (now : ℕ) : Hearing C where
  task :=
    { framed := ⟨[], [], C.fresh, false, false⟩
      pc := .next
      cancelled := false
      counter := 0
      udsFd := fd
      peer := ""
      connectedAtUnixMs := now
      traceId := "" }
  heard := []

/-- The lines taken, the one in hand included. -/
def Hearing.decoded (h : Hearing C) : List Bytes :=
  match h.task.pc with
  | .ready l => h.heard ++ [l]
  | _ => h.heard

theorem Hearing.decoded_cases (h : Hearing C) :
    h.decoded = h.heard ∨ ∃ l, h.decoded = h.heard ++ [l] := by
  unfold Hearing.decoded
  split
  · exact Or.inr ⟨_, rfl⟩
  · exact Or.inl rfl

theorem Hearing.heard_prefix (h : Hearing C) : h.heard <+: h.decoded := by
  rcases h.decoded_cases with heq | ⟨l, heq⟩
  · simp only [heq, List.prefix_rfl]
  · rw [heq]
    exact List.prefix_append _ _

/-! ### What was consumed -/

/-- The lines in the consumed bytes, in order, and nothing else; at the end of the stream also what
follows the last of them. -/
inductive Consumed (past : Bytes) (ls : List Bytes) (t : Task C) : Prop
  | whole (raw : List Bytes) (rest : Bytes) (hraw : ∀ l ∈ raw, newline ∉ l)
      (hls : ls = raw.map stripCr) (hpast : past = raw.flatMap encode ++ rest)
      (hrest : t.pc ≠ .ended → rest = t.framed.readBuf)
  | cut (raw : List Bytes) (last : Bytes) (hraw : ∀ l ∈ raw, newline ∉ l) (hlast : newline ∉ last)
      (hne : last ≠ []) (hls : ls = raw.map stripCr ++ [stripCr last])
      (hpast : past = raw.flatMap encode ++ last)
      (heof : t.pc ≠ .ended → t.framed.readBuf = [] ∧ t.framed.eof = true)

/-- The reader of a connection on which `sent` was written, of which `k.inbox` is unread. -/
structure Hearing.On (sent : Bytes) (k : Sock) (h : Hearing C) : Prop where
  framing : h.task.pc ≠ .ended → Framing k.inbox h.task
  place : h.task.pc = .next ∨ h.task.pc = .read ∨ h.task.pc = .ended ∨ ∃ l, h.task.pc = .ready l
  consumed : ∃ past, sent = past ++ k.inbox ∧ Consumed past h.decoded h.task
  silent : h.task.framed.eof = true → h.task.pc ≠ .ended → k.inbox = []

theorem Hearing.start_on (fd : Fd) (now : ℕ) (k : Sock) (hk : k.inbox = []) :
    (Hearing.start C fd now).On [] k := by
  refine ⟨fun _ => ⟨fun c => C.fresh_synced _, fun _ => rfl, ?_, ?_, ?_, rfl⟩, Or.inl rfl, ?_, ?_⟩
  · simp [Hearing.start]
  · simp [Hearing.start]
  · simp [Hearing.start]
  · exact ⟨[], by rw [hk]; rfl, .whole [] [] (by simp) rfl rfl fun _ => rfl⟩
  · simp [Hearing.start]

/-- More bytes arrive at a connection that is not at its end. -/
theorem Hearing.On.arrive {sent : Bytes} {k k' : Sock} {h : Hearing C} (ho : h.On sent k)
    (more : Bytes) (hk : k'.inbox = k.inbox ++ more)
    (hopen : h.task.framed.eof = true → h.task.pc ≠ .ended → more = []) :
    h.On (sent ++ more) k' := by
  refine ⟨fun hne => ?_, ho.place, ?_, ?_⟩
  · have hf := ho.framing hne
    refine ⟨hf.synced, hf.idle, hf.stale, fun he => ?_, hf.waiting, hf.uncancelled⟩
    obtain ⟨hnil, hr⟩ := hf.eof he
    exact ⟨by rw [hk, hnil, hopen he hne]; rfl, hr⟩
  · obtain ⟨past, hsent, hc⟩ := ho.consumed
    exact ⟨past, by rw [hsent, hk, List.append_assoc], hc⟩
  · intro he hne
    rw [hk, ho.silent he hne, hopen he hne]
    rfl

section Step
variable {sent : Bytes} {k k' : Sock} {h h' : Hearing C} {opens : Bytes → Bool} {a : TaskAct}

theorem Hearing.On.take (ho : h.On sent k) {l : Bytes} (hp : h.task.pc = .ready l) :
    (h.take opens l).On sent k := by
  have hne : h.task.pc ≠ .ended := by simp [hp]
  have hf := ho.framing hne
  have hwb : h.task.framed.writeBuf = [] := hf.idle (by simp only [Task.between, hp])
  have hdec : (h.take opens l).decoded = h.decoded := by
    have hpc : ∀ l', (h.take opens l).task.pc ≠ .ready l' := by
      intro l'
      simp only [Hearing.take]
      split <;> simp
    unfold Hearing.decoded
    rw [hp]
    split
    · next l' hl' => exact absurd hl' (hpc l')
    · rfl
  refine ⟨fun _ => ?_, ?_, ?_, fun he _ => ho.silent he hne⟩
  · refine hf.move _ rfl rfl rfl rfl rfl id (fun _ => hwb) ?_
    simp only [Hearing.take]
    split <;> simp
  · simp only [Hearing.take]
    split <;> simp
  · obtain ⟨past, hsent, hc⟩ := ho.consumed
    refine ⟨past, hsent, ?_⟩
    rw [hdec]
    cases hc with
    | whole raw rest hraw hls hpast hrest =>
      exact .whole raw rest hraw hls hpast fun _ => hrest hne
    | cut raw last hraw hlast hlne hls hpast heof =>
      exact .cut raw last hraw hlast hlne hls hpast fun _ => heof hne

theorem ne_nil_of_reply (b : Bytes) (h : reply b = encode (stripCr b)) : b ≠ [] := by
  rintro rfl
  simp [reply, tailEcho, encode, lines, rest] at h

theorem Hearing.On.next (hC : C.Strict) (ho : h.On sent k) (hp : h.task.pc = .next) :
    ({ h with task := h.task.pollNext } : Hearing C).On sent k := by
  have hne : h.task.pc ≠ .ended := by simp [hp]
  have hf := ho.framing hne
  have hmove := pollNext_move hC hf
  have hdec : h.decoded = h.heard := by simp only [Hearing.decoded, hp]
  obtain ⟨past, hsent, hc⟩ := ho.consumed
  rw [hdec] at hc
  have hframing : h.task.pollNext.pc ≠ .ended → h.task.pollNext.alive = true →
      Framing k.inbox h.task.pollNext := fun _ halive => hmove.framing hf hp halive
  generalize h.task.pollNext = t at hmove hframing
  cases hmove with
  | line l r st hr hb hl hacc hst =>
    refine ⟨fun hne' => hframing hne' rfl, Or.inr (Or.inr (Or.inr ⟨_, rfl⟩)), ⟨past, hsent, ?_⟩,
      fun he _ => ho.silent he hne⟩
    cases hc with
    | whole raw rest hraw hls hpast hrest =>
      refine .whole (raw ++ [l]) r ?_ ?_ ?_ fun _ => rfl
      · intro l' hl'
        rcases List.mem_append.mp hl' with h' | h'
        · exact hraw l' h'
        · rw [List.mem_singleton.mp h']
          exact hl
      · simp [Hearing.decoded, hls]
      · rw [hpast, hrest hne, hb]
        simp [encode]
    | cut raw last hraw hlast hlne hls hpast heof =>
      have hnil := (heof hne).1
      rw [hb] at hnil
      simp at hnil
  | wait st hb he hst =>
    refine ⟨fun hne' => hframing hne' rfl, Or.inr (Or.inl rfl), ⟨past, hsent, ?_⟩,
      fun he' _ => ho.silent he' hne⟩
    cases hc with
    | whole raw rest hraw hls hpast hrest =>
      exact .whole raw rest hraw hls hpast fun _ => hrest hne
    | cut raw last hraw hlast hlne hls hpast heof =>
      exact absurd (he.symm.trans (heof hne).2) (by simp)
  | last st he hb hre hst =>
    refine ⟨fun hne' => hframing hne' rfl, Or.inr (Or.inr (Or.inr ⟨_, rfl⟩)), ⟨past, hsent, ?_⟩,
      fun he' _ => ho.silent he' hne⟩
    cases hc with
    | whole raw rest hraw hls hpast hrest =>
      refine .cut raw h.task.framed.readBuf hraw hb ?_ ?_ ?_ fun _ => ⟨rfl, he⟩
      · exact ne_nil_of_reply _ hre
      · simp [Hearing.decoded, hls]
      · rw [hpast, hrest hne]
    | cut raw last hraw hlast hlne hls hpast heof =>
      -- nothing is left to be a last line
      exact absurd (heof hne).1 (ne_nil_of_reply _ hre)
  | finished f hre =>
    refine ⟨by simp, by simp, ⟨past, hsent, ?_⟩, by simp⟩
    cases hc with
    | whole raw rest hraw hls hpast hrest => exact .whole raw rest hraw hls hpast (by simp)
    | cut raw last hraw hlast hlne hls hpast heof =>
      exact .cut raw last hraw hlast hlne hls hpast (by simp)

theorem Hearing.On.recv (ho : h.On sent k) (hp : h.task.pc = .read) {t : Task C} (n : ℕ)
    (hs : h.task.step k (.recv n) = some (k', t)) :
    ({ h with task := t } : Hearing C).On sent k' ∧ t.framed.eof = false := by
  have hne : h.task.pc ≠ .ended := by simp [hp]
  have hf : Framing (k.inbox ++ []) h.task := by
    rw [List.append_nil]
    exact ho.framing hne
  obtain ⟨-, rfl, rfl, hf'⟩ := hf.recv n hs
  rw [List.append_nil] at hf'
  have hdec : h.decoded = h.heard := by simp only [Hearing.decoded, hp]
  obtain ⟨past, hsent, hc⟩ := ho.consumed
  rw [hdec] at hc
  refine ⟨⟨fun _ => hf', Or.inl rfl, ⟨past ++ k.inbox.take n, ?_, ?_⟩, by simp⟩, rfl⟩
  · rw [hsent, List.append_assoc, List.take_append_drop]
  · cases hc with
    | whole raw rest hraw hls hpast hrest =>
      refine .whole raw _ hraw hls ?_ fun _ => rfl
      rw [hpast, hrest hne, List.append_assoc]
    | cut raw last hraw hlast hlne hls hpast heof =>
      have hwait := hf.waiting hp
      exact absurd (hwait.symm.trans (hf.eof (heof hne).2).2) (by simp)

theorem Hearing.On.recvEof (ho : h.On sent k) (hg : k.gone = false) (hp : h.task.pc = .read)
    {t : Task C} (hs : h.task.step k .recvEof = some (k', t)) :
    k' = k ∧ k.shut = true ∧ ({ h with task := t } : Hearing C).On sent k := by
  have hne : h.task.pc ≠ .ended := by simp [hp]
  have hf : Framing (k.inbox ++ []) h.task := by
    rw [List.append_nil]
    exact ho.framing hne
  have hshut : k.shut = true := by
    simp only [Task.step, Option.ite_none_right_eq_some] at hs
    have heof := hs.1.2
    simp only [Sock.atEof, hg, Bool.or_false, Bool.and_eq_true] at heof
    exact heof.2
  obtain ⟨rfl, hnil, -, rfl, hf'⟩ := hf.recvEof hg (fun _ => rfl) hs
  rw [List.append_nil] at hf' hnil
  have hdec : h.decoded = h.heard := by simp only [Hearing.decoded, hp]
  obtain ⟨past, hsent, hc⟩ := ho.consumed
  rw [hdec] at hc
  refine ⟨rfl, hshut, ⟨fun _ => hf', Or.inl rfl, ⟨past, hsent, ?_⟩, fun _ _ => hnil⟩⟩
  cases hc with
  | whole raw rest hraw hls hpast hrest => exact .whole raw rest hraw hls hpast fun _ => hrest hne
  | cut raw last hraw hlast hlne hls hpast heof =>
    exact .cut raw last hraw hlast hlne hls hpast fun _ => ⟨(heof hne).1, rfl⟩

/-- One move of the reader, on a connection that is not broken. -/
theorem Hearing.On.step (hC : C.Strict) (ho : h.On sent k) (hg : k.gone = false)
    (hs : h.step opens k a = some (k', h')) :
    h'.On sent k' ∧ k'.shut = k.shut ∧ k'.gone = false ∧
    (h'.task.framed.eof = true → h'.task.pc ≠ .ended →
      k.shut = true ∨ h.task.framed.eof = true) := by
  rcases ho.place with hp | hp | hp | ⟨l, hp⟩
  · simp only [Hearing.step, hp, Option.map_eq_some_iff, Prod.mk.injEq] at hs
    obtain ⟨⟨k₁, t⟩, ht, rfl, rfl⟩ := hs
    have hne : h.task.pc ≠ .ended := by simp [hp]
    cases a with
    | poll =>
      obtain ⟨rfl, hpoll⟩ := Task.step_poll k k₁ h.task t ht
      have htask : t = h.task.pollNext := by simpa [Task.poll, hp, eq_comm] using hpoll
      subst htask
      refine ⟨ho.next hC hp, rfl, hg, fun he hne' => Or.inr ?_⟩
      have hmove := pollNext_move hC (ho.framing hne)
      change h.task.pollNext.framed.eof = true at he
      change h.task.pollNext.pc ≠ .ended at hne'
      generalize h.task.pollNext = t at hmove he hne'
      cases hmove with
      | finished f hre => exact absurd rfl hne'
      | _ => exact he
    | cancel => simp [Task.step, (ho.framing hne).uncancelled] at ht
    | _ => simp [Task.step, hp, Task.writing, hg] at ht
  · simp only [Hearing.step, hp, Option.map_eq_some_iff, Prod.mk.injEq] at hs
    obtain ⟨⟨k₁, t⟩, ht, rfl, rfl⟩ := hs
    have hne : h.task.pc ≠ .ended := by simp [hp]
    cases a with
    | recv n =>
      obtain ⟨hon, heof⟩ := ho.recv hp n ht
      obtain ⟨-, -, hshut, hgone, -⟩ := Task.step_sock k k₁ h.task t _ ht
      exact ⟨hon, hshut, hgone.trans hg, fun he _ => absurd (he.symm.trans heof) (by simp)⟩
    | recvEof =>
      obtain ⟨rfl, hshut, hon⟩ := ho.recvEof hg hp ht
      exact ⟨hon, rfl, hg, fun _ _ => Or.inl hshut⟩
    | cancel => simp [Task.step, (ho.framing hne).uncancelled] at ht
    | _ => simp [Task.step, Task.poll, hp, Task.writing, hg] at ht
  · simp [Hearing.step, hp] at hs
  · simp only [Hearing.step, hp, Option.ite_none_right_eq_some, Option.some.injEq,
      Prod.mk.injEq] at hs
    obtain ⟨-, rfl, rfl⟩ := hs
    exact ⟨ho.take hp, rfl, hg, fun he _ => Or.inr he⟩

end Step

/-- The process of the reader goes away, and a line in hand with it. -/
def Hearing.kill (h : Hearing C) : Hearing C := { h with task := { h.task with pc := .ended } }

theorem Hearing.On.kill {sent : Bytes} {k : Sock} {h : Hearing C} (ho : h.On sent k) :
    h.kill.On sent k := by
  refine ⟨by simp [Hearing.kill], by simp [Hearing.kill], ?_, by simp [Hearing.kill]⟩
  obtain ⟨past, hsent, hc⟩ := ho.consumed
  refine ⟨past, hsent, ?_⟩
  have hdec : h.kill.decoded = h.heard := rfl
  rw [hdec]
  cases hc with
  | whole raw rest hraw hls hpast hrest =>
    rcases h.decoded_cases with hheard | ⟨l, hheard⟩
    · exact .whole raw rest hraw (hheard ▸ hls) hpast (by simp [Hearing.kill])
    · rw [hheard] at hls
      rcases List.eq_nil_or_concat' raw with rfl | ⟨init, x, rfl⟩
      · simp at hls
      · rw [List.map_append] at hls
        refine .whole init (encode x ++ rest) (fun y hy => hraw y (by simp [hy])) ?_ ?_ ?_
        · exact (List.append_inj' hls rfl).1
        · rw [hpast]
          simp
        · simp [Hearing.kill]
  | cut raw last hraw hlast hlne hls hpast heof =>
    rcases h.decoded_cases with hheard | ⟨l, hheard⟩
    · exact .cut raw last hraw hlast hlne (hheard ▸ hls) hpast (by simp [Hearing.kill])
    · rw [hheard] at hls
      exact .whole raw last hraw (List.append_inj' hls rfl).1 hpast (by simp [Hearing.kill])

/-! ### A stream of texts -/

theorem stripCr_of_notMem (l : Bytes) (h : carriageReturn ∉ l) : stripCr l = l := by
  rw [stripCr, if_neg]
  exact fun hlast => h (List.mem_of_getLast? hlast)

/-- What can be decoded of `texts` when their stream broke off: the first of them, and a part of the
next one. -/
inductive Delivered (texts ls : List Bytes) : Prop
  | whole (h : ls <+: texts)
  | cut (front : List Bytes) (text part : Bytes) (hls : ls = front ++ [part])
      (htexts : front ++ [text] <+: texts) (hpart : part <+: text) (hne : part ≠ text)

section Stream
variable {sent left : Bytes} {k : Sock} {h : Hearing C} {texts : List Bytes}

theorem map_stripCr_front (hcr : ∀ l ∈ texts, carriageReturn ∉ l) (raw : List Bytes)
    (hraw : raw <+: texts) : raw.map stripCr = raw := by
  conv_rhs => rw [← List.map_id raw]
  exact List.map_congr_left fun l hl => stripCr_of_notMem l (hcr l (hraw.subset hl))

/-- Of the texts written to the connection, each ended, the reader decodes the first ones as they
are. -/
theorem Hearing.On.delivered (ho : h.On sent k) (hline : ∀ l ∈ texts, newline ∉ l)
    (hcr : ∀ l ∈ texts, carriageReturn ∉ l) (hstream : sent ++ left = texts.flatMap encode) :
    Delivered texts h.decoded := by
  obtain ⟨past, hsent, hc⟩ := ho.consumed
  rw [hsent] at hstream
  cases hc with
  | whole raw rest hraw hls hpast hrest =>
    rw [hpast, List.append_assoc, List.append_assoc] at hstream
    obtain ⟨more, rfl, -⟩ := flatMap_sep_front newline raw texts _ hraw hline hstream
    rw [map_stripCr_front hcr raw (List.prefix_append _ _)] at hls
    rw [hls]
    exact .whole (List.prefix_append _ _)
  | cut raw last hraw hlast hlne hls hpast heof =>
    rw [hpast, List.append_assoc, List.append_assoc] at hstream
    obtain ⟨more, rfl, hmore⟩ := flatMap_sep_front newline raw texts _ hraw hline hstream
    obtain ⟨text, tail, rfl, hpart⟩ :=
      front_of_flatMap_sep newline more last _ hlast hlne hmore
    have hlast' : carriageReturn ∉ last := fun hm => hcr text (by simp) (hpart.subset hm)
    rw [map_stripCr_front hcr raw (List.prefix_append _ _), stripCr_of_notMem last hlast'] at hls
    by_cases hwhole : last = text
    · subst hwhole
      exact .whole ⟨tail, by rw [hls]; simp⟩
    · exact .cut raw text last hls ⟨tail, by simp⟩ hpart hwhole

/-- A reader that waits and has nothing left to read has decoded all the texts, or all but the one
that is being written. -/
theorem Hearing.On.caughtUp (ho : h.On sent k) (hline : ∀ l ∈ texts, newline ∉ l)
    (hcr : ∀ l ∈ texts, carriageReturn ∉ l) (hstream : sent ++ left = texts.flatMap encode)
    (hleft : ∀ l ∈ texts.getLast?, left.length ≤ (encode l).length) (hp : h.task.pc = .read)
    (hk : k.inbox = []) : h.heard = if left = [] then texts else texts.dropLast := by
  have hne : h.task.pc ≠ .ended := by simp [hp]
  have hf := ho.framing hne
  have hdec : h.decoded = h.heard := by simp only [Hearing.decoded, hp]
  obtain ⟨past, hsent, hc⟩ := ho.consumed
  rw [hdec] at hc
  rw [hsent, hk, List.append_nil] at hstream
  cases hc with
  | whole raw rest hraw hls hpast hrest =>
    have hclean : newline ∉ rest := by
      rw [hrest hne]
      exact hf.stale (hf.waiting hp)
    rw [hpast, List.append_assoc] at hstream
    obtain ⟨more, rfl, hmore⟩ := flatMap_sep_front newline raw texts _ hraw hline hstream
    rw [map_stripCr_front hcr raw (List.prefix_append _ _)] at hls
    rw [hls]
    rcases List.eq_nil_or_concat' more with rfl | ⟨init, last, rfl⟩
    · obtain ⟨-, rfl⟩ := List.append_eq_nil_iff.mp hmore
      simp
    · have hinit : init = [] := by
        refine init_of_flatMap_sep newline init last rest left hclean ?_ ?_
        · have := hleft last (by simp)
          simpa [encode] using this
        · simpa using hmore
      subst hinit
      have hnil : left ≠ [] := by
        rintro rfl
        rw [List.append_nil] at hmore
        exact hclean (by rw [hmore]; simp)
      rw [if_neg hnil]
      simp
  | cut raw last hraw hlast hlne hls hpast heof =>
    have hread := (hf.eof (heof hne).2).2
    exact absurd ((hf.waiting hp).symm.trans hread) (by simp)

end Stream

end FiveNinesEcho.Processor
