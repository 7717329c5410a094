import Ufix.PManager

/-!
A send queue: messages numbered from `1` in the order they were accepted, of which the last
`q_size` are kept, and a head that stands at the oldest one not sent yet.

A slot has the bytes that `add_msg` was given. Where in `q_buf` they lie, and what is written over
them there, is left to `QueueBuf`.
-/

namespace Ufix

structure SendQueueInfo where
  dataSeq : ℕ
  data : List Byte
  deriving DecidableEq, Repr

structure SendQueue where
  qSize : ℕ
  qMaxMsgs : ℤ
  msgsQueue : ℕ → SendQueueInfo
  dataSeq : ℕ
  recoverDataSeq : ℕ
  headDataSeq : ℕ
  qFlag : ℤ
  qFlagThreshold : ℤ

namespace SendQueue

def queueClose : ℤ := 0
def queueOpen : ℤ := 1

def recoverMsg (q : SendQueue) (msg : List Byte) : SendQueue :=
  { q with
    msgsQueue := Function.update q.msgsQueue (q.recoverDataSeq % q.qSize) ⟨q.recoverDataSeq, msg⟩
    recoverDataSeq := q.recoverDataSeq + 1 }

/-- `recover_data`: the messages of the file, one after the other. -/
def recoverData (q : SendQueue) (file : List (List Byte)) : SendQueue :=
  let q := file.foldl recoverMsg q
  { q with dataSeq := q.recoverDataSeq }

/-- What the constructor sets before the recovery; every slot has number `0`. -/
def blank (size reserve : ℕ) : SendQueue where
  qSize := size
  qMaxMsgs := (size : ℤ) - reserve
  msgsQueue := fun _ => ⟨0, []⟩
  dataSeq := 1
  recoverDataSeq := 1
  headDataSeq := 1
  qFlag := queueClose
  qFlagThreshold := queueOpen

def new (size reserve : ℕ) (file : List (List Byte)) : SendQueue :=
  recoverData (blank size reserve) file

/-- A queue whose flag is below the threshold is closed; each look raises a flag that was
raised once. -/
def isClose (q : SendQueue) : Bool × SendQueue :=
  if q.qFlag < q.qFlagThreshold then
    (true, if q.qFlag > queueClose then { q with qFlag := q.qFlag + 1 } else q)
  else (false, q)

def setOpen (q : SendQueue) : SendQueue := { q with qFlag := queueOpen }
def setClose (q : SendQueue) : SendQueue := { q with qFlag := queueClose }

def markMsgSent (q : SendQueue) : SendQueue := { q with headDataSeq := q.headDataSeq + 1 }

/-- A number already behind the head, or past what was recovered, changes nothing. -/
def markSeqSent (q : SendQueue) (seq : ℕ) : SendQueue :=
  if seq < q.headDataSeq then q
  else if seq ≥ q.recoverDataSeq then q
  else { q with headDataSeq := seq + 1 }

def isQueueFull (q : SendQueue) : Bool := (q.dataSeq : ℤ) - q.headDataSeq ≥ q.qMaxMsgs

def isQueueEmpty (q : SendQueue) : Bool := q.dataSeq = q.headDataSeq

/-- `add_msg` once the lock is held: `none` while the queue is full. -/
def addMsg (q : SendQueue) (data : List Byte) : Option SendQueue :=
  if q.isQueueFull then none
  else some
    { q with
      msgsQueue := Function.update q.msgsQueue (q.dataSeq % q.qSize) ⟨q.dataSeq, data⟩
      dataSeq := q.dataSeq + 1 }

/-- The slot of the head, whatever number it holds. -/
def getMsg (q : SendQueue) : Option SendQueueInfo :=
  if q.isQueueEmpty then none else some (q.msgsQueue (q.headDataSeq % q.qSize))

/-- The message numbered `seq`, for a resend. A number looked up is taken as sent, and so is
the one before a number not reached yet. -/
def getSentMsg (q : SendQueue) (seq : ℕ) : SendQueue × Option SendQueueInfo :=
  let info := q.msgsQueue (seq % q.qSize)
  if info.dataSeq ≠ seq then
    if info.dataSeq < seq then
      let head := q.msgsQueue (q.headDataSeq % q.qSize)
      if head.dataSeq ≠ 0 ∧ head.dataSeq + q.qSize ≥ seq then (q.markSeqSent (seq - 1), none)
      else (q, none)
    else (q.markSeqSent seq, none)
  else (q.markSeqSent seq, some info)

/-! ### What moves and what stays -/

/-- Slots, numbering and recovered part agree: the queues differ at most in head and flag. -/
structure SameMsgs (q q' : SendQueue) : Prop where
  qSize : q'.qSize = q.qSize
  qMaxMsgs : q'.qMaxMsgs = q.qMaxMsgs
  msgsQueue : q'.msgsQueue = q.msgsQueue
  dataSeq : q'.dataSeq = q.dataSeq
  recoverDataSeq : q'.recoverDataSeq = q.recoverDataSeq

lemma SameMsgs.refl (q : SendQueue) : SameMsgs q q := ⟨rfl, rfl, rfl, rfl, rfl⟩

lemma SameMsgs.trans {q₁ q₂ q₃ : SendQueue} (h : SameMsgs q₁ q₂) (h' : SameMsgs q₂ q₃) :
    SameMsgs q₁ q₃ :=
  ⟨h'.1.trans h.1, h'.2.trans h.2, h'.3.trans h.3, h'.4.trans h.4, h'.5.trans h.5⟩

lemma markSeqSent_same (q : SendQueue) (seq : ℕ) : SameMsgs q (q.markSeqSent seq) := by
  unfold markSeqSent
  split
  · exact .refl q
  · split
    · exact .refl q
    · exact ⟨rfl, rfl, rfl, rfl, rfl⟩

lemma getSentMsg_same (q : SendQueue) (seq : ℕ) : SameMsgs q (q.getSentMsg seq).1 := by
  simp only [getSentMsg]
  split
  · split
    · split
      · exact markSeqSent_same q _
      · exact .refl q
    · exact markSeqSent_same q _
  · exact markSeqSent_same q _

lemma isClose_same (q : SendQueue) :
    SameMsgs q q.isClose.2 ∧ q.isClose.2.headDataSeq = q.headDataSeq := by
  unfold isClose
  split
  · split
    · exact ⟨⟨rfl, rfl, rfl, rfl, rfl⟩, rfl⟩
    · exact ⟨.refl q, rfl⟩
  · exact ⟨.refl q, rfl⟩

lemma addMsg_eq_some {q q' : SendQueue} {data : List Byte} :
    q.addMsg data = some q' ↔ (q.dataSeq : ℤ) - q.headDataSeq < q.qMaxMsgs ∧
      q' = { q with
        msgsQueue := Function.update q.msgsQueue (q.dataSeq % q.qSize) ⟨q.dataSeq, data⟩
        dataSeq := q.dataSeq + 1 } := by
  by_cases hfull : q.isQueueFull = true
  · simp only [isQueueFull, decide_eq_true_eq] at hfull
    simp [addMsg, isQueueFull, hfull]
  · simp only [isQueueFull, decide_eq_true_eq, not_le] at hfull
    simp [addMsg, isQueueFull, hfull, eq_comm]

lemma getMsg_eq_some {q : SendQueue} {info : SendQueueInfo} :
    q.getMsg = some info ↔
      q.dataSeq ≠ q.headDataSeq ∧ q.msgsQueue (q.headDataSeq % q.qSize) = info := by
  by_cases h : q.dataSeq = q.headDataSeq <;> simp [getMsg, isQueueEmpty, h]

lemma getSentMsg_snd (q : SendQueue) (seq : ℕ) :
    (q.getSentMsg seq).2 =
      if (q.msgsQueue (seq % q.qSize)).dataSeq = seq then some (q.msgsQueue (seq % q.qSize))
      else none := by
  by_cases h : (q.msgsQueue (seq % q.qSize)).dataSeq = seq
  · simp [getSentMsg, h]
  · simp only [getSentMsg, ne_eq, h, not_false_eq_true, if_true, if_false]
    split
    · split <;> rfl
    · rfl

lemma markSeqSent_headDataSeq (q : SendQueue) (seq : ℕ) :
    (q.markSeqSent seq).headDataSeq =
      if seq < q.headDataSeq ∨ q.recoverDataSeq ≤ seq then q.headDataSeq else seq + 1 := by
  unfold markSeqSent
  by_cases h1 : seq < q.headDataSeq
  · simp [h1]
  · by_cases h2 : q.recoverDataSeq ≤ seq <;> simp [h1, h2]

lemma markSeqSent_of_lt {q : SendQueue} {seq : ℕ} (h : seq < q.headDataSeq) :
    q.markSeqSent seq = q := if_pos h

lemma markSeqSent_of_ge {q : SendQueue} {seq : ℕ} (h : q.recoverDataSeq ≤ seq) :
    q.markSeqSent seq = q := by
  simp [markSeqSent, h]

lemma getSentMsg_of_fresh {q : SendQueue} (hr : q.recoverDataSeq = 1)
    (hh : 1 ≤ q.headDataSeq) (seq : ℕ) : (q.getSentMsg seq).1 = q := by
  have hm : ∀ n, q.markSeqSent n = q := by
    intro n
    rcases Nat.lt_or_ge n q.headDataSeq with h | h
    · exact markSeqSent_of_lt h
    · exact markSeqSent_of_ge (by omega)
  simp only [getSentMsg]
  split
  · split
    · split
      · exact hm _
      · rfl
    · exact hm _
  · exact hm _

/-! ### Recovery -/

lemma recoverMsg_fold (file : List (List Byte)) (q : SendQueue) :
    (file.foldl recoverMsg q).recoverDataSeq = q.recoverDataSeq + file.length ∧
      (file.foldl recoverMsg q).headDataSeq = q.headDataSeq ∧
      (file.foldl recoverMsg q).qSize = q.qSize ∧
      (file.foldl recoverMsg q).qMaxMsgs = q.qMaxMsgs := by
  induction file generalizing q with
  | nil => exact ⟨rfl, rfl, rfl, rfl⟩
  | cons msg file ih =>
    obtain ⟨h1, h2, h3, h4⟩ := ih (q.recoverMsg msg)
    rw [List.foldl_cons, h1, h2, h3, h4]
    refine ⟨?_, rfl, rfl, rfl⟩
    simp only [recoverMsg, List.length_cons]
    omega

@[simp] lemma new_recoverDataSeq (size reserve : ℕ) (file : List (List Byte)) :
    (new size reserve file).recoverDataSeq = file.length + 1 := by
  have h := (recoverMsg_fold file (blank size reserve)).1
  rw [Nat.add_comm] at h
  exact h

@[simp] lemma new_dataSeq (size reserve : ℕ) (file : List (List Byte)) :
    (new size reserve file).dataSeq = file.length + 1 :=
  new_recoverDataSeq size reserve file

@[simp] lemma new_headDataSeq (size reserve : ℕ) (file : List (List Byte)) :
    (new size reserve file).headDataSeq = 1 :=
  (recoverMsg_fold file (blank size reserve)).2.1

@[simp] lemma new_qSize (size reserve : ℕ) (file : List (List Byte)) :
    (new size reserve file).qSize = size :=
  (recoverMsg_fold file (blank size reserve)).2.2.1

@[simp] lemma new_qMaxMsgs (size reserve : ℕ) (file : List (List Byte)) :
    (new size reserve file).qMaxMsgs = (size : ℤ) - reserve :=
  (recoverMsg_fold file (blank size reserve)).2.2.2

lemma recoverMsg_fold_slot_le (file : List (List Byte)) {q : SendQueue} {n : ℕ}
    (hn : q.recoverDataSeq + file.length ≤ n + 1) (h : ∀ j, (q.msgsQueue j).dataSeq ≤ n) (j : ℕ) :
    ((file.foldl recoverMsg q).msgsQueue j).dataSeq ≤ n := by
  induction file generalizing q with
  | nil => exact h j
  | cons msg file ih =>
    rw [List.length_cons] at hn
    refine ih (q := q.recoverMsg msg) (by simp only [recoverMsg]; omega) fun j => ?_
    by_cases hj : j = q.recoverDataSeq % q.qSize
    · subst hj
      simp only [recoverMsg, Function.update_self]
      omega
    · simpa only [recoverMsg, Function.update_of_ne hj] using h j

lemma new_slot_le (size reserve : ℕ) (file : List (List Byte)) (j : ℕ) :
    ((new size reserve file).msgsQueue j).dataSeq ≤ file.length :=
  recoverMsg_fold_slot_le file (Nat.add_comm 1 _).le (fun _ => Nat.zero_le _) j

end SendQueue

end Ufix
