import Ufix.SentMark

/-!
The files of a session that the sender writes and reads back, and what the marks on disk say
about each queue.

An append is atomic, so a file is the list of its records.
-/

namespace Ufix

abbrev Byte := UInt8

/-- The files of the session: the marks in `seqs_s`, and the messages in the file of each data
queue. -/
structure PManager where
  seqsSent : List SeqSentInfo
  dataQueue : ℕ → List (List Byte)

namespace PManager

def empty : PManager := ⟨[], fun _ => []⟩

def writeSeqSent (pm : PManager) (qIndex seq dataSeq : ℕ) : PManager :=
  { pm with seqsSent := pm.seqsSent ++ [⟨qIndex, seq, dataSeq⟩] }

/-- `SendQueue::write_data` on the file of queue `i`. -/
def writeData (pm : PManager) (i : ℕ) (data : List Byte) : PManager :=
  { pm with dataQueue := Function.update pm.dataQueue i (pm.dataQueue i ++ [data]) }

@[simp] lemma writeSeqSent_seqsSent (pm : PManager) (q n d : ℕ) :
    (pm.writeSeqSent q n d).seqsSent = pm.seqsSent ++ [⟨q, n, d⟩] := rfl

@[simp] lemma writeSeqSent_dataQueue (pm : PManager) (q n d : ℕ) :
    (pm.writeSeqSent q n d).dataQueue = pm.dataQueue := rfl

@[simp] lemma writeData_seqsSent (pm : PManager) (i : ℕ) (data : List Byte) :
    (pm.writeData i data).seqsSent = pm.seqsSent := rfl

/-- The locals of the loop of `read_sent_marks`. The same number can be marked twice, so a
difference of numbers can be `-1` and the entries of `last_seqs` are integers. -/
structure ReadState where
  marks : SentMark
  lastSeqs : ℕ → ℤ
  lastSeq : ℕ
  lastQIndex : ℕ

/-- One record of `seqs_s`: when the queue changes, the numbers since the last record are
counted for the queue that is left. -/
def readMark (s : ReadState) (r : SeqSentInfo) : ReadState :=
  let lastSeqs :=
    if r.qIndex ≠ s.lastQIndex then
      Function.update s.lastSeqs s.lastQIndex
        (s.lastSeqs s.lastQIndex + ((r.msgSeq : ℤ) - 1 - s.lastSeq))
    else s.lastSeqs
  { marks := s.marks.setMark r.qIndex r.msgSeq r.dataSeq
    lastSeqs := Function.update lastSeqs r.qIndex r.dataSeq
    lastSeq := r.msgSeq
    lastQIndex := r.qIndex }

/-- `read_sent_marks` on the zeroed `last_seqs` of `init_p_manager`. -/
def readSentMarks (pm : PManager) (marks : SentMark) : ReadState :=
  pm.seqsSent.foldl readMark ⟨marks, fun _ => 0, 0, 0⟩

/-! ### What the loop computes -/

/-- The number of the last record, `0` for no record. -/
def lastNum (recs : List SeqSentInfo) : ℕ := (recs.getLast?.map SeqSentInfo.msgSeq).getD 0

/-- The queue of the last record, `0` for no record. -/
def lastQueue (recs : List SeqSentInfo) : ℕ := (recs.getLast?.map SeqSentInfo.qIndex).getD 0

@[simp] lemma lastNum_nil : lastNum [] = 0 := rfl

@[simp] lemma lastNum_concat (recs : List SeqSentInfo) (r : SeqSentInfo) :
    lastNum (recs ++ [r]) = r.msgSeq := by simp [lastNum]

@[simp] lemma lastQueue_nil : lastQueue [] = 0 := rfl

@[simp] lemma lastQueue_concat (recs : List SeqSentInfo) (r : SeqSentInfo) :
    lastQueue (recs ++ [r]) = r.qIndex := by simp [lastQueue]

/-- What `last_seqs` holds for queue `i` after the records. -/
def lastSeqsOf (recs : List SeqSentInfo) (i : ℕ) : ℤ :=
  (recs.foldl readMark ⟨SentMark.new 0, fun _ => 0, 0, 0⟩).lastSeqs i

@[simp] lemma lastSeqsOf_nil (i : ℕ) : lastSeqsOf [] i = 0 := rfl

lemma readMark_fold (recs : List SeqSentInfo) (t u : SentMark) :
    let a := recs.foldl readMark ⟨t, fun _ => 0, 0, 0⟩
    let b := recs.foldl readMark ⟨u, fun _ => 0, 0, 0⟩
    a.lastSeqs = b.lastSeqs ∧ a.lastSeq = b.lastSeq ∧ a.lastQIndex = b.lastQIndex := by
  induction recs using List.reverseRecOn with
  | nil => exact ⟨rfl, rfl, rfl⟩
  | append_singleton recs r ih =>
    obtain ⟨h1, h2, h3⟩ := ih
    simp [readMark, h1, h2, h3]

lemma readMark_last (recs : List SeqSentInfo) (t : SentMark) :
    (recs.foldl readMark ⟨t, fun _ => 0, 0, 0⟩).lastSeq = lastNum recs ∧
      (recs.foldl readMark ⟨t, fun _ => 0, 0, 0⟩).lastQIndex = lastQueue recs := by
  induction recs using List.reverseRecOn with
  | nil => exact ⟨rfl, rfl⟩
  | append_singleton recs r ih => simp [readMark]

@[simp] lemma readSentMarks_lastSeq (pm : PManager) (t : SentMark) :
    (pm.readSentMarks t).lastSeq = lastNum pm.seqsSent := (readMark_last _ _).1

@[simp] lemma readSentMarks_lastSeqs (pm : PManager) (t : SentMark) :
    (pm.readSentMarks t).lastSeqs = lastSeqsOf pm.seqsSent := (readMark_fold _ _ _).1

@[simp] lemma readSentMarks_marks (pm : PManager) (M : ℕ) :
    (pm.readSentMarks (SentMark.new M)).marks = SentMark.ofRecords M pm.seqsSent := by
  unfold readSentMarks
  induction pm.seqsSent using List.reverseRecOn with
  | nil => rfl
  | append_singleton recs r ih =>
    rw [SentMark.ofRecords_concat, ← ih]
    simp [readMark]

/-- **One more record**: its queue takes its message, the queue it leaves counts the numbers in
between, the others keep what they had. -/
lemma lastSeqsOf_concat (recs : List SeqSentInfo) (r : SeqSentInfo) (i : ℕ) :
    lastSeqsOf (recs ++ [r]) i =
      if i = r.qIndex then (r.dataSeq : ℤ)
      else if i = lastQueue recs then
        lastSeqsOf recs i + ((r.msgSeq : ℤ) - 1 - lastNum recs)
      else lastSeqsOf recs i := by
  obtain ⟨hn, hq⟩ := readMark_last recs (SentMark.new 0)
  simp only [lastSeqsOf, List.foldl_append, List.foldl_cons, List.foldl_nil, readMark]
  rw [hn, hq]
  by_cases hi : i = r.qIndex
  · simp [hi]
  · rw [Function.update_of_ne hi, if_neg hi]
    by_cases hl : i = lastQueue recs
    · have : r.qIndex ≠ lastQueue recs := fun h => hi (by rw [hl, h])
      rw [if_pos this, if_pos hl, hl, Function.update_self]
    · rw [if_neg hl]
      split
      · rw [Function.update_of_ne hl]
      · rfl

end PManager

end Ufix
