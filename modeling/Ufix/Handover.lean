import Ufix.Delivery
import Ufix.LittleEndian

/-!
Which numbers the application gets, across restarts.

The consumer takes a message, passes it to the application, appends its number to the file of
processed numbers and frees the slot. A process that starts again knows the last number of that
file only: the ring is empty, and what gap fills did to the head is lost.
-/

namespace Ufix.Handover

open Ufix.Runs Ufix.LittleEndian

/-- `PManager::write_seq_processed` on the file of processed numbers. -/
def writeSeqProcessed (file : List Byte) (seq : ℕ) : List Byte := file ++ bytesOf 8 seq

/-- `PManager::read_last_seq_processed`: the size of the file is kept in an `int`. -/
def readLastSeqProcessed (file : List Byte) : ℕ :=
  if file.length % 2 ^ 32 = 0 then 0 else numberOf (file.drop (file.length - 8))

/-- A number passed to `on_msg`: in which process, and whether it reached the file. -/
structure Handed where
  process : ℕ
  seq : ℕ
  written : Bool
  deriving DecidableEq, Repr

/-- Where the consumer is in an iteration of `process_recv_queue_msgs`, with the slot it works
on and, after `on_msg`, the number it passed. -/
inductive Stage
  | waiting
  | taken (index : ℕ)
  | handed (index seq : ℕ)
  | done (index : ℕ)
  deriving DecidableEq, Repr

/-- `past` are the numbers passed to the application in the iterations that went on to write
theirs, or were cut off by the end of a process. -/
structure State where
  queue : RecvQueue
  stage : Stage
  seqsProcessed : List Byte
  process : ℕ
  past : List Handed

def State.log (s : State) : List Handed :=
  match s.stage with
  | .handed _ seq => s.past ++ [⟨s.process, seq, false⟩]
  | _ => s.past

inductive Act
  | put (msg : RMessage)
  | updateSeq (currentSeqNo newSeqNo : UInt64)
  | wait (ts : ℤ)
  | get
  | onMsg
  | write
  | reset
  | restart

/-- The consumer's steps follow the source: a gap fill is neither passed on nor written. A
process can end in every state; the next one starts from the file. -/
def step (s : State) : Act → Option State
  | .put msg =>
    if msg.seq < 2 ^ 64 then (s.queue.put msg).map fun q => { s with queue := q } else none
  | .updateSeq c n => some { s with queue := s.queue.updateSeq c.toNat n.toNat }
  | .wait ts =>
    if s.stage = .waiting then (s.queue.waitMsg ts).map fun q => { s with queue := q } else none
  | .get =>
    if s.stage = .waiting then
      s.queue.get.map fun (q, index) => { s with queue := q, stage := .taken index }
    else none
  | .onMsg =>
    match s.stage with
    | .taken index =>
      if (s.queue.msgsRecv index).isGf then some { s with stage := .done index }
      else some { s with stage := .handed index (s.queue.msgsRecv index).seq }
    | _ => none
  | .write =>
    match s.stage with
    | .handed index seq =>
      some
        { s with
          stage := .done index
          seqsProcessed := writeSeqProcessed s.seqsProcessed (s.queue.msgsRecv index).seq
          past := s.past ++ [⟨s.process, seq, true⟩] }
    | _ => none
  | .reset =>
    match s.stage with
    | .done index => some { s with stage := .waiting, queue := s.queue.resetSlot index }
    | _ => none
  | .restart =>
    some
      { queue := (RecvQueue.new s.queue.qSize).setHeadSeq (readLastSeqProcessed s.seqsProcessed)
        stage := .waiting
        seqsProcessed := s.seqsProcessed
        process := s.process + 1
        past := s.log }

def fileOf (seqs : List UInt64) : List Byte := seqs.flatMap fun n => bytesOf 8 n.toNat

def start (size : ℕ) (seqs : List UInt64) : State where
  queue := (RecvQueue.new size).setHeadSeq (readLastSeqProcessed (fileOf seqs))
  stage := .waiting
  seqsProcessed := fileOf seqs
  process := 0
  past := []

/-- The slot of a message that the consumer took and whose number it still has to write. -/
def Stage.index : Stage → Option ℕ
  | .taken index | .handed index _ => some index
  | .waiting | .done _ => none

/-- No gap fill goes to the slot whose message is in work. -/
def Undisturbed (s : State) : Act → Prop
  | .updateSeq c n => ∀ i ∈ RecvQueue.gapFill c.toNat n.toNat,
      s.stage.index ≠ some (i % s.queue.qSize)
  | _ => True

/-- What the order of two numbers passed to the application has to be: above a number that was
written come larger ones only, and a number that was not written was the last of its process. -/
def Before (a b : Handed) : Prop :=
  (a.written = true → a.seq < b.seq) ∧ (a.written = false → a.process < b.process)

structure Inv (s : State) : Prop where
  order : s.past.Pairwise Before
  written : ∀ a ∈ s.past, a.written = true → a.seq ≤ readLastSeqProcessed s.seqsProcessed
  lost : ∀ a ∈ s.past, a.written = false → a.process < s.process
  slots : ∀ i, (s.queue.msgsRecv i).seq < 2 ^ 64
  head : readLastSeqProcessed s.seqsProcessed ≤ s.queue.headSeq
  work : ∀ index, s.stage.index = some index →
    (s.queue.msgsRecv index).seq = s.queue.headSeq ∧
      readLastSeqProcessed s.seqsProcessed < s.queue.headSeq
  number : ∀ index seq, s.stage = .handed index seq → seq = s.queue.headSeq

/-! ### The file -/

@[simp] lemma writeSeqProcessed_length (file : List Byte) (n : ℕ) :
    (writeSeqProcessed file n).length = file.length + 8 := by
  simp [writeSeqProcessed]

lemma readLast_write {file : List Byte} {n : ℕ} (hn : n < 2 ^ 64)
    (hlen : (writeSeqProcessed file n).length < 2 ^ 31) :
    readLastSeqProcessed (writeSeqProcessed file n) = n := by
  have hlen' := hlen
  rw [writeSeqProcessed_length] at hlen'
  unfold readLastSeqProcessed
  rw [writeSeqProcessed_length, if_neg (by omega), Nat.add_sub_cancel, writeSeqProcessed,
    List.drop_left, numberOf_bytesOf_of_lt (by omega)]

/-! ### What one step preserves -/

variable {s t : State}

lemma Inv.queue {q : RecvQueue} (h : Inv s) (hslots : ∀ i, (q.msgsRecv i).seq < 2 ^ 64)
    (hhead : q.headSeq = s.queue.headSeq)
    (hwork : ∀ index, s.stage.index = some index → (s.queue.msgsRecv index).seq ≠ 0 →
      (q.msgsRecv index).seq = (s.queue.msgsRecv index).seq) : Inv { s with queue := q } := by
  refine ⟨h.order, h.written, h.lost, hslots, ?_, fun index hi => ?_, fun index seq hi => ?_⟩
  · rw [hhead]
    exact h.head
  · obtain ⟨hseq, hlt⟩ := h.work index hi
    rw [hhead]
    exact ⟨(hwork index hi (by omega)).trans hseq, hlt⟩
  · rw [hhead]
    exact h.number index seq hi

lemma Inv.put {q : RecvQueue} {msg : RMessage} (h : Inv s) (hlt : msg.seq < 2 ^ 64)
    (hq : s.queue.put msg = some q) : Inv { s with queue := q } := by
  rcases RecvQueue.put_cases hq with rfl | ⟨h0, -, -, -, hhead, hslot⟩
  · exact h
  · refine h.queue (fun i => ?_) hhead fun index hi hne => ?_
    · rw [hslot]
      split
      · exact hlt
      · exact h.slots i
    · rw [hslot, if_neg]
      rintro rfl
      exact hne h0

lemma Inv.fill (h : Inv s) (l : List ℕ) (hl : ∀ i ∈ l, i < 2 ^ 64)
    (hwork : ∀ i ∈ l, s.stage.index ≠ some (i % s.queue.qSize)) :
    Inv { s with queue := l.foldl RecvQueue.setGf s.queue } := by
  induction l generalizing s with
  | nil => exact h
  | cons n l ih =>
    refine ih (s := { s with queue := s.queue.setGf n }) (h.queue (fun i => ?_) rfl
      fun index hi _ => ?_) (fun i hi => hl i (by simp [hi])) fun i hi => hwork i (by simp [hi])
    · rw [RecvQueue.setGf_seq]
      split
      · exact hl n (by simp)
      · exact h.slots i
    · rw [RecvQueue.setGf_seq, if_neg]
      rintro rfl
      exact hwork n (by simp) hi

lemma Inv.take {q : RecvQueue} {index : ℕ} (h : Inv s) (hq : s.queue.get = some (q, index)) :
    Inv { s with queue := q, stage := .taken index } := by
  obtain ⟨rfl, -, hlt, rfl⟩ := RecvQueue.get_eq_some hq
  have hhead := h.head
  refine ⟨h.order, h.written, h.lost, h.slots, by simp only; omega, fun index hi => ?_,
    fun index seq hi => (by cases hi)⟩
  cases hi
  exact ⟨rfl, by simp only; omega⟩

lemma Inv.concat {n : ℕ} {b : Bool} (h : Inv s)
    (hn : readLastSeqProcessed s.seqsProcessed < n) :
    (s.past ++ [Handed.mk s.process n b]).Pairwise Before := by
  rw [List.pairwise_append]
  refine ⟨h.order, List.pairwise_singleton _ _, fun a ha c hc => ?_⟩
  rw [List.mem_singleton.mp hc]
  refine ⟨fun hw => ?_, h.lost a ha⟩
  have hle := h.written a ha hw
  simp only
  omega

lemma Inv.log (h : Inv s) : s.log.Pairwise Before := by
  unfold State.log
  split
  · next index seq hstage =>
    have hwork := (h.work index (by rw [hstage]; rfl)).2
    rw [h.number index seq hstage]
    exact h.concat hwork
  · exact h.order

lemma Inv.written_step {index seq : ℕ} (h : Inv s) (hstage : s.stage = .handed index seq)
    (hlen : (writeSeqProcessed s.seqsProcessed (s.queue.msgsRecv index).seq).length < 2 ^ 31) :
    Inv
      { s with
        stage := .done index
        seqsProcessed := writeSeqProcessed s.seqsProcessed (s.queue.msgsRecv index).seq
        past := s.past ++ [⟨s.process, seq, true⟩] } := by
  obtain ⟨hseq, hlt⟩ := h.work index (by rw [hstage]; rfl)
  have hnum := h.number index seq hstage
  have hlast := readLast_write (h.slots index) hlen
  rw [hseq] at hlast
  refine ⟨?_, fun a ha hw => ?_, fun a ha hw => ?_, h.slots, ?_, fun i hi => (by cases hi),
    fun i n hi => (by cases hi)⟩
  · rw [hnum]
    exact h.concat hlt
  · simp only [hseq, hlast]
    rcases List.mem_append.mp ha with ha | ha
    · have hle := h.written a ha hw
      omega
    · rw [List.mem_singleton.mp ha, hnum]
  · rcases List.mem_append.mp ha with ha | ha
    · exact h.lost a ha hw
    · rw [List.mem_singleton.mp ha] at hw
      cases hw
  · simp only [hseq, hlast]
    exact le_rfl

/-- A new process: the number in work, if any, is the last of the old one. -/
lemma Inv.restart (h : Inv s) (hs : step s .restart = some t) : Inv t := by
  cases hs
  have hlog : ∀ a ∈ s.log, a ∈ s.past ∨ a.process = s.process ∧ a.written = false := by
    intro a ha
    unfold State.log at ha
    split at ha
    · rcases List.mem_append.mp ha with ha | ha
      · exact Or.inl ha
      · rw [List.mem_singleton.mp ha]
        exact Or.inr ⟨rfl, rfl⟩
    · exact Or.inl ha
  refine ⟨h.log, fun a ha hw => ?_, fun a ha hw => ?_, fun i => ?_, le_rfl,
    fun i hi => (by cases hi), fun i n hi => (by cases hi)⟩
  · rcases hlog a ha with ha | ⟨-, hf⟩
    · exact h.written a ha hw
    · rw [hf] at hw
      cases hw
  · simp only
    rcases hlog a ha with ha | ⟨hp, -⟩
    · have := h.lost a ha hw
      omega
    · omega
  · simp [RecvQueue.setHeadSeq, RecvQueue.new]

lemma step_inv {a : Act} (h : Inv s) (hok : Undisturbed s a) (hs : step s a = some t)
    (hlen : t.seqsProcessed.length < 2 ^ 31) : Inv t := by
  cases a with
  | put msg =>
    simp only [step] at hs
    split at hs
    · next hlt =>
      obtain ⟨q, hq, rfl⟩ := Option.map_eq_some_iff.mp hs
      exact h.put hlt hq
    · cases hs
  | updateSeq c n =>
    cases hs
    exact h.fill _ (fun i hi => Delivery.gapFill_lt hi) hok
  | wait ts =>
    simp only [step] at hs
    split at hs
    · obtain ⟨q, hq, rfl⟩ := Option.map_eq_some_iff.mp hs
      have hsame := RecvQueue.waitMsg_same hq
      exact h.queue (fun i => by rw [hsame.seq]; exact h.slots i) hsame.headSeq
        fun index _ _ => hsame.seq index
    · cases hs
  | get =>
    simp only [step] at hs
    split at hs
    · obtain ⟨⟨q, index⟩, hq, rfl⟩ := Option.map_eq_some_iff.mp hs
      exact h.take hq
    · cases hs
  | onMsg =>
    simp only [step] at hs
    split at hs
    · next index hstage =>
      have hwork := h.work index (by rw [hstage]; rfl)
      split at hs
      · cases hs
        exact ⟨h.order, h.written, h.lost, h.slots, h.head, fun i hi => (by cases hi),
          fun i n hi => (by cases hi)⟩
      · cases hs
        refine ⟨h.order, h.written, h.lost, h.slots, h.head, fun i hi => ?_, fun i n hi => ?_⟩
        · cases hi
          exact hwork
        · cases hi
          exact hwork.1
    · cases hs
  | write =>
    simp only [step] at hs
    split at hs
    · next index seq hstage =>
      cases hs
      exact h.written_step hstage hlen
    · cases hs
  | reset =>
    simp only [step] at hs
    split at hs
    · next index hstage =>
      cases hs
      refine ⟨h.order, h.written, h.lost, fun i => ?_, h.head, fun i hi => (by cases hi),
        fun i n hi => (by cases hi)⟩
      simp only [RecvQueue.resetSlot_seq]
      split
      · decide
      · exact h.slots i
    · cases hs
  | restart => exact h.restart hs

/-- The file only grows. -/
lemma step_length {a : Act} (hs : step s a = some t) :
    s.seqsProcessed.length ≤ t.seqsProcessed.length := by
  cases a with
  | put msg =>
    simp only [step] at hs
    split at hs
    · obtain ⟨q, -, rfl⟩ := Option.map_eq_some_iff.mp hs
      exact le_rfl
    · cases hs
  | updateSeq c n =>
    cases hs
    exact le_rfl
  | wait ts =>
    simp only [step] at hs
    split at hs
    · obtain ⟨q, -, rfl⟩ := Option.map_eq_some_iff.mp hs
      exact le_rfl
    · cases hs
  | get =>
    simp only [step] at hs
    split at hs
    · obtain ⟨⟨q, index⟩, -, rfl⟩ := Option.map_eq_some_iff.mp hs
      exact le_rfl
    · cases hs
  | onMsg =>
    simp only [step] at hs
    split at hs
    · split at hs <;> (cases hs; exact le_rfl)
    · cases hs
  | write =>
    simp only [step] at hs
    split at hs
    · cases hs
      simp
    · cases hs
  | reset =>
    simp only [step] at hs
    split at hs
    · cases hs
      exact le_rfl
    · cases hs
  | restart =>
    cases hs
    exact le_rfl

lemma start_inv (size : ℕ) (seqs : List UInt64) : Inv (start size seqs) := by
  refine ⟨List.Pairwise.nil, fun a ha => (by cases ha), fun a ha => (by cases ha), fun i => ?_,
    le_rfl, fun i hi => (by cases hi), fun i n hi => (by cases hi)⟩
  simp [start, RecvQueue.setHeadSeq, RecvQueue.new]

/-- **Each number once, across restarts.** In every run that stores no gap fill in the slot of the
message in work, every number passed to the application after one that was written is larger, and
a number that was not written was the last of its process. -/
theorem log_ordered {size : ℕ} {seqs : List UInt64} {acts : List Act}
    (hok : Meets step Undisturbed (start size seqs) acts) {s : State}
    (hr : run step (start size seqs) acts = some s) (hlen : s.seqsProcessed.length < 2 ^ 31) :
    s.log.Pairwise Before := by
  have hinv : s.seqsProcessed.length < 2 ^ 31 → Inv s :=
    run_induct (P := fun s => s.seqsProcessed.length < 2 ^ 31 → Inv s)
      (fun u a v hu ha hv hlen => step_inv (hu (by have := step_length hv; omega)) ha hv hlen)
      (fun _ => start_inv size seqs) hok hr
  exact (hinv hlen).log

/-! ### What can still come twice -/

/-- Number `1` is filled and `2` passed to the application, then the process ends. -/
def cutOff : List Act :=
  [.updateSeq 0 2, .get, .onMsg, .reset, .put (.new [] 0 2), .get, .onMsg, .restart,
    .put (.new [] 0 1), .get, .onMsg]

lemma cutOff_undisturbed : Meets step Undisturbed (start 4 []) cutOff := by
  have hcalm : ∀ s a, (∀ c n, a ≠ .updateSeq c n) → Undisturbed s a := by
    intro s a ha
    cases a with
    | updateSeq c n => exact absurd rfl (ha c n)
    | _ => trivial
  refine fun t _ => ⟨fun i _ h => (by cases h), (meets_of_mem ?_ t).mono hcalm⟩
  simp

theorem log_ordered_cutOff :
    ((run step (start 4 []) cutOff).get rfl).log.Pairwise Before :=
  log_ordered cutOff_undisturbed (Option.some_get _).symm (by decide)

/-- A replayed gap fill over the slot of `3`, after it was passed on and before it is written. -/
def replayed : List Act :=
  [.put (.new [] 0 3), .get, .onMsg, .updateSeq 0 2, .write, .reset, .restart,
    .put (.new [] 0 2), .get, .onMsg, .write, .reset, .put (.new [] 0 3), .get, .onMsg]

/-- Larger each time, except that a number not written may come again. -/
def Increasing (l : List Handed) : Prop :=
  l.Pairwise fun a b => a.seq < b.seq ∨ (a.written = false ∧ b.seq = a.seq)

instance (l : List Handed) : Decidable (Increasing l) :=
  inferInstanceAs (Decidable (l.Pairwise _))

/-- After the loss of `2` comes `1`; and `3` comes again although its iteration wrote. -/
theorem log_not_increasing :
    (run step (start 4 []) cutOff).map State.log = some [⟨0, 2, false⟩, ⟨1, 1, false⟩] ∧
      ¬ Increasing [⟨0, 2, false⟩, ⟨1, 1, false⟩] ∧
      (run step (start 2 [2]) replayed).map State.log =
        some [⟨0, 3, true⟩, ⟨1, 2, true⟩, ⟨1, 3, false⟩] ∧
      ¬ Increasing [⟨0, 3, true⟩, ⟨1, 2, true⟩, ⟨1, 3, false⟩] := by
  decide

end Ufix.Handover
