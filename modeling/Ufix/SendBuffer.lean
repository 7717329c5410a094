import Ufix.Memory
import Ufix.Runs
import Ufix.SendQueue

/-!
The buffer of a send queue: the messages lie one after the other in `q_buf`, from the front again
once the position is past `q_buf_size`, and a slot designates its message there.

While the last `q_size` messages fit into `q_buf_size` bytes, none of them is overwritten, and the
queue is the one whose slots hold the bytes themselves.
-/

namespace Ufix

open Memory

/-- A slot: its number, and where in `q_buf` its message lies. -/
structure SendBufferInfo where
  dataSeq : ℕ
  data : ℕ
  len : ℕ
  deriving DecidableEq, Repr

structure SendBuffer where
  qSize : ℕ
  qMaxMsgs : ℤ
  qBufSize : ℕ
  qBuf : ℕ → Byte
  qBufPos : ℕ
  msgsQueue : ℕ → SendBufferInfo
  dataSeq : ℕ
  recoverDataSeq : ℕ
  headDataSeq : ℕ

namespace SendBuffer

/-- A queue with no recovered data; `mem` is what the allocated memory held. -/
def new (size reserve avgMsgSize : ℕ) (mem : ℕ → Byte) : SendBuffer where
  qSize := size
  qMaxMsgs := (size : ℤ) - reserve
  qBufSize := size * avgMsgSize
  qBuf := mem
  qBufPos := 0
  msgsQueue := fun _ => ⟨0, 0, 0⟩
  dataSeq := 1
  recoverDataSeq := 1
  headDataSeq := 1

def markMsgSent (q : SendBuffer) : SendBuffer := { q with headDataSeq := q.headDataSeq + 1 }

def markSeqSent (q : SendBuffer) (seq : ℕ) : SendBuffer :=
  if seq < q.headDataSeq then q
  else if seq ≥ q.recoverDataSeq then q
  else { q with headDataSeq := seq + 1 }

def isQueueFull (q : SendBuffer) : Bool := (q.dataSeq : ℤ) - q.headDataSeq ≥ q.qMaxMsgs

def isQueueEmpty (q : SendBuffer) : Bool := q.dataSeq = q.headDataSeq

/-- `add_msg` of a copied message, once the lock is held: `none` while the queue is full. -/
def addMsg (q : SendBuffer) (data : List Byte) : Option SendBuffer :=
  if q.isQueueFull then none
  else some
    { q with
      qBuf := write q.qBuf q.qBufPos data
      msgsQueue := Function.update q.msgsQueue (q.dataSeq % q.qSize)
        ⟨q.dataSeq, q.qBufPos, data.length⟩
      qBufPos := advance q.qBufSize q.qBufPos data.length
      dataSeq := q.dataSeq + 1 }

def info (q : SendBuffer) (index : ℕ) : SendQueueInfo :=
  ⟨(q.msgsQueue index).dataSeq, read q.qBuf (q.msgsQueue index).data (q.msgsQueue index).len⟩

def getMsg (q : SendBuffer) : Option SendQueueInfo :=
  if q.isQueueEmpty then none else some (q.info (q.headDataSeq % q.qSize))

def getSentMsg (q : SendBuffer) (seq : ℕ) : SendBuffer × Option SendQueueInfo :=
  let info := q.msgsQueue (seq % q.qSize)
  if info.dataSeq ≠ seq then
    if info.dataSeq < seq then
      let head := q.msgsQueue (q.headDataSeq % q.qSize)
      if head.dataSeq ≠ 0 ∧ head.dataSeq + q.qSize ≥ seq then (q.markSeqSent (seq - 1), none)
      else (q, none)
    else (q.markSeqSent seq, none)
  else (q.markSeqSent seq, some (q.info (seq % q.qSize)))

lemma markSeqSent_qBuf (q : SendBuffer) (seq : ℕ) :
    (q.markSeqSent seq).qBuf = q.qBuf ∧ (q.markSeqSent seq).qBufPos = q.qBufPos := by
  unfold markSeqSent
  split
  · exact ⟨rfl, rfl⟩
  · split <;> exact ⟨rfl, rfl⟩

lemma addMsg_eq_some {q q' : SendBuffer} {data : List Byte} :
    q.addMsg data = some q' ↔ (q.dataSeq : ℤ) - q.headDataSeq < q.qMaxMsgs ∧
      q' = { q with
        qBuf := write q.qBuf q.qBufPos data
        msgsQueue := Function.update q.msgsQueue (q.dataSeq % q.qSize)
          ⟨q.dataSeq, q.qBufPos, data.length⟩
        qBufPos := advance q.qBufSize q.qBufPos data.length
        dataSeq := q.dataSeq + 1 } := by
  by_cases hfull : q.isQueueFull = true
  · simp only [isQueueFull, decide_eq_true_eq] at hfull
    simp [addMsg, isQueueFull, hfull]
  · simp only [isQueueFull, decide_eq_true_eq, not_le] at hfull
    simp [addMsg, isQueueFull, hfull, eq_comm]

/-! ### The queue of the bytes -/

def toQueue (q : SendBuffer) : SendQueue where
  qSize := q.qSize
  qMaxMsgs := q.qMaxMsgs
  msgsQueue := q.info
  dataSeq := q.dataSeq
  recoverDataSeq := q.recoverDataSeq
  headDataSeq := q.headDataSeq
  qFlag := SendQueue.queueClose
  qFlagThreshold := SendQueue.queueOpen

lemma toQueue_getMsg (q : SendBuffer) : q.getMsg = q.toQueue.getMsg := rfl

lemma toQueue_markSeqSent (q : SendBuffer) (seq : ℕ) :
    (q.markSeqSent seq).toQueue = q.toQueue.markSeqSent seq := by
  unfold markSeqSent SendQueue.markSeqSent
  rw [apply_ite toQueue, apply_ite toQueue]
  rfl

lemma toQueue_getSentMsg (q : SendBuffer) (seq : ℕ) :
    ((q.getSentMsg seq).1.toQueue, (q.getSentMsg seq).2) = q.toQueue.getSentMsg seq := by
  simp only [getSentMsg, SendQueue.getSentMsg]
  have hinfo : ∀ i, (q.toQueue.msgsQueue i).dataSeq = (q.msgsQueue i).dataSeq := fun _ => rfl
  have hsize : q.toQueue.qSize = q.qSize := rfl
  have hhead : q.toQueue.headDataSeq = q.headDataSeq := rfl
  simp only [hinfo, hsize, hhead, ← toQueue_markSeqSent]
  split
  · split
    · split <;> rfl
    · rfl
  · rfl

/-- No message that a slot designates is overwritten by `len` more bytes. -/
def Spares (q : SendBuffer) (len : ℕ) : Prop :=
  ∀ i, i ≠ q.dataSeq % q.qSize →
    Apart (q.msgsQueue i).data (q.msgsQueue i).len q.qBufPos len

lemma toQueue_addMsg {q : SendBuffer} {data : List Byte} (h : q.Spares data.length) :
    (q.addMsg data).map toQueue = q.toQueue.addMsg data := by
  have hfull : q.toQueue.isQueueFull = q.isQueueFull := rfl
  unfold addMsg SendQueue.addMsg
  rw [hfull]
  split
  · rfl
  · simp only [Option.map_some, Option.some.injEq, toQueue, SendQueue.mk.injEq, and_true, true_and]
    funext i
    by_cases hi : i = q.dataSeq % q.qSize
    · subst hi
      simp [info, read_write]
    · simp only [info, Function.update_of_ne hi, SendQueueInfo.mk.injEq, true_and]
      exact read_write_of_apart (h i hi)

end SendBuffer

end Ufix
