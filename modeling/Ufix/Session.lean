import Ufix.SendQueue
import Ufix.SessionOption

/-!
The session as the sender sees it: the message counter, the queues, the marks in memory and on
disk, and how all of it is rebuilt when a process starts.

The counter is kept as a number; in the source it is a decimal string of `max_msg_seq_size`
digits.
-/

namespace Ufix

/-- The queue index of session messages. -/
def queueSession : ℕ := 0

/-- What a `WMessage` carries: the bytes of a session message, those of a gap fill up to
`newSeqNo`, or the ones of message `d` of queue `q`. -/
inductive Content
  | session
  | gapFill (newSeqNo : ℕ)
  | queued (q d : ℕ)
  deriving DecidableEq, Repr

/-- A message on its way out: its queue index, the number `finalize` gave it and its
`data_seq`, which the constructor does not set for a session message. -/
structure WMsg where
  qIndex : ℕ
  seq : ℕ
  dataSeq : ℕ
  content : Content
  deriving DecidableEq, Repr

structure Session where
  msgSeq : ℕ
  lastQIndexSent : ℤ
  sentMarks : SentMark
  sendQueues : ℕ → SendQueue
  pManager : PManager

namespace Session

variable (o : SessionOption) (M : ℕ)

/-- The number `init_p_manager` starts from: past everything the last mark can stand for. -/
def startSeq (pm : PManager) : ℕ :=
  let r := pm.readSentMarks (SentMark.new M)
  let info := if r.lastSeq > 0 then r.marks.getMark r.lastSeq else none
  match info with
  | none => 1
  | some _ => r.lastSeq + o.windowMarkSize + 1

/-- Queue `i` as `init_send_queues` builds it. -/
def initSendQueue (pm : PManager) (i : ℕ) : SendQueue :=
  let qSize := match o.sendQueuesSize with
    | none => o.recvQueueSize
    | some sizes => sizes i
  let qReserve := match o.sendQueuesReserve with
    | none => qSize / 8
    | some reserves => reserves i
  let q := SendQueue.new qSize qReserve (pm.dataQueue i)
  match o.sendQueuesFlag with
  | none => q.setOpen
  | some flags => if flags i = SendQueue.queueOpen then q.setOpen else q.setClose

/-- `init_session` with a ring of `M` marks. Nothing sets `last_q_index_sent`: it starts with
whatever the memory held. -/
def init (pm : PManager) (lastQ : ℤ) : Session where
  msgSeq := startSeq o M pm
  lastQIndexSent := lastQ
  sentMarks := (pm.readSentMarks (SentMark.new M)).marks
  sendQueues := fun i =>
    (initSendQueue o pm i).markSeqSent ((pm.readSentMarks (SentMark.new M)).lastSeqs i).toNat
  pManager := pm

def incrementMsgSeqNum (s : Session) : Session := { s with msgSeq := s.msgSeq + 1 }

def setQueue (s : Session) (i : ℕ) (q : SendQueue) : Session :=
  { s with sendQueues := Function.update s.sendQueues i q }

/-- `Session::add_msg` on queue `i`, one attempt: the message is written to the file of the
queue and put into it. -/
def addMsg (s : Session) (i : ℕ) (data : List Byte) : Option Session :=
  (s.sendQueues i).addMsg data |>.map fun q =>
    { s.setQueue i q with pManager := s.pManager.writeData i data }

def markMsgSent (s : Session) (msg : WMsg) : Session :=
  s.setQueue msg.qIndex (s.sendQueues msg.qIndex).markMsgSent

/-- Whether `write_msg_sent` marks a number: on a change of queue, for a session message, and
at the multiples of the window. -/
def marksSeq (s : Session) (q n : ℕ) : Bool :=
  (q : ℤ) ≠ s.lastQIndexSent ∨ q = 0 ∨ n % o.windowMarkSize = 0

/-- `flag` is the new-message flag of `send_msg`. -/
def writeMsgSent (s : Session) (msg : WMsg) (flag : Bool) : Session :=
  if flag then
    if s.marksSeq o msg.qIndex msg.seq then
      { s with
        lastQIndexSent := msg.qIndex
        pManager := s.pManager.writeSeqSent msg.qIndex msg.seq msg.dataSeq
        sentMarks := s.sentMarks.setMark msg.qIndex msg.seq msg.dataSeq }
    else s
  else s

/-- The marks' answer in `get_sent_msg`: an absent mark that the code reads through, a number
that is no data message, or message `d` of queue `q`. -/
inductive Resolved
  | null
  | notData
  | data (q d : ℕ)
  deriving DecidableEq, Repr

/-- The part of `get_sent_msg` before the queue is asked. -/
def resolve (t : SentMark) (seq : ℕ) : Resolved :=
  match t.getMark seq with
  | none =>
    match t.getLastMark seq with
    | none => .null
    | some info =>
      if info.qIndex = queueSession then .notData
      else .data info.qIndex (info.dataSeq + seq - info.msgSeq)
  | some info =>
    if info.msgSeq ≠ seq then .notData
    else if info.qIndex = queueSession then .notData
    else .data info.qIndex info.dataSeq

/-- `get_sent_msg`: `none` when it reads through a null mark; else the message it returns with
the queue that had it, if it returns `1`. -/
def getSentMsg (s : Session) (seq : ℕ) : Option (Session × Option (ℕ × SendQueueInfo)) :=
  match resolve s.sentMarks seq with
  | .null => none
  | .notData => some (s, none)
  | .data q d =>
    let r := (s.sendQueues q).getSentMsg d
    some (s.setQueue q r.1, r.2.map fun info => (q, info))

@[simp] lemma setQueue_msgSeq (s : Session) (i : ℕ) (q : SendQueue) :
    (s.setQueue i q).msgSeq = s.msgSeq := rfl

@[simp] lemma setQueue_lastQIndexSent (s : Session) (i : ℕ) (q : SendQueue) :
    (s.setQueue i q).lastQIndexSent = s.lastQIndexSent := rfl

@[simp] lemma setQueue_sentMarks (s : Session) (i : ℕ) (q : SendQueue) :
    (s.setQueue i q).sentMarks = s.sentMarks := rfl

@[simp] lemma setQueue_pManager (s : Session) (i : ℕ) (q : SendQueue) :
    (s.setQueue i q).pManager = s.pManager := rfl

@[simp] lemma setQueue_sendQueues (s : Session) (i : ℕ) (q : SendQueue) :
    (s.setQueue i q).sendQueues = Function.update s.sendQueues i q := rfl

@[simp] lemma markMsgSent_msgSeq (s : Session) (msg : WMsg) :
    (s.markMsgSent msg).msgSeq = s.msgSeq := rfl

@[simp] lemma markMsgSent_lastQIndexSent (s : Session) (msg : WMsg) :
    (s.markMsgSent msg).lastQIndexSent = s.lastQIndexSent := rfl

@[simp] lemma markMsgSent_sentMarks (s : Session) (msg : WMsg) :
    (s.markMsgSent msg).sentMarks = s.sentMarks := rfl

@[simp] lemma markMsgSent_pManager (s : Session) (msg : WMsg) :
    (s.markMsgSent msg).pManager = s.pManager := rfl

/-! ### The number a process starts from -/

lemma startSeq_of_nil {pm : PManager} (h : pm.seqsSent = []) : startSeq o M pm = 1 := by
  simp [startSeq, h]

lemma startSeq_of_concat {pm : PManager} {recs : List SeqSentInfo} {r : SeqSentInfo}
    (h : pm.seqsSent = recs ++ [r]) (hr : 0 < r.msgSeq) :
    startSeq o M pm = r.msgSeq + o.windowMarkSize + 1 := by
  simp [startSeq, h, hr, SentMark.getMark_ofRecords_concat]

/-! ### A queue when its process starts -/

lemma initSendQueue_spec (pm : PManager) (i : ℕ) :
    (initSendQueue o pm i).dataSeq = (pm.dataQueue i).length + 1 ∧
      (initSendQueue o pm i).recoverDataSeq = (pm.dataQueue i).length + 1 ∧
      (initSendQueue o pm i).headDataSeq = 1 := by
  simp only [initSendQueue]
  split
  · exact ⟨SendQueue.new_dataSeq _ _ _, SendQueue.new_recoverDataSeq _ _ _,
      SendQueue.new_headDataSeq _ _ _⟩
  · split <;> exact ⟨SendQueue.new_dataSeq _ _ _, SendQueue.new_recoverDataSeq _ _ _,
      SendQueue.new_headDataSeq _ _ _⟩

lemma init_dataSeq (pm : PManager) (lastQ : ℤ) (i : ℕ) :
    ((init o M pm lastQ).sendQueues i).dataSeq = (pm.dataQueue i).length + 1 :=
  (SendQueue.markSeqSent_same _ _).dataSeq.trans (initSendQueue_spec o pm i).1

lemma init_recoverDataSeq (pm : PManager) (lastQ : ℤ) (i : ℕ) :
    ((init o M pm lastQ).sendQueues i).recoverDataSeq = (pm.dataQueue i).length + 1 :=
  (SendQueue.markSeqSent_same _ _).recoverDataSeq.trans (initSendQueue_spec o pm i).2.1

lemma init_slot_le (pm : PManager) (lastQ : ℤ) (i j : ℕ) :
    (((init o M pm lastQ).sendQueues i).msgsQueue j).dataSeq ≤ (pm.dataQueue i).length := by
  simp only [init]
  rw [(SendQueue.markSeqSent_same _ _).msgsQueue]
  simp only [initSendQueue]
  split
  · exact SendQueue.new_slot_le _ _ _ j
  · split <;> exact SendQueue.new_slot_le _ _ _ j

lemma init_headDataSeq (pm : PManager) (lastQ : ℤ) (i : ℕ) :
    ((init o M pm lastQ).sendQueues i).headDataSeq =
      if (PManager.lastSeqsOf pm.seqsSent i).toNat = 0 ∨
        (pm.dataQueue i).length < (PManager.lastSeqsOf pm.seqsSent i).toNat then 1
      else (PManager.lastSeqsOf pm.seqsSent i).toNat + 1 := by
  obtain ⟨-, hr, hh⟩ := initSendQueue_spec o pm i
  simp only [init, PManager.readSentMarks_lastSeqs]
  rw [SendQueue.markSeqSent_headDataSeq, hr, hh]
  split <;> split <;> omega

/-! ### The lookup through the marks -/

/-- **The youngest mark decides**: exact hit and interpolation are one rule, the last mark at or
below the number. -/
lemma resolve_eq (t : SentMark) (seq : ℕ) :
    resolve t seq =
      match t.getLastMark (seq + 1) with
      | none => .null
      | some info =>
        if info.qIndex = queueSession then .notData
        else .data info.qIndex (info.dataSeq + seq - info.msgSeq) := by
  simp only [resolve, SentMark.getLastMark]
  cases h : t.getMark seq with
  | none => rfl
  | some info =>
    have hs := SentMark.getMark_msgSeq h
    simp [hs]

/-! ### What a lookup leaves alone -/

/-- The sessions differ at most in the heads and flags of their queues. -/
structure SameButHeads (s t : Session) : Prop where
  msgSeq : t.msgSeq = s.msgSeq
  lastQIndexSent : t.lastQIndexSent = s.lastQIndexSent
  sentMarks : t.sentMarks = s.sentMarks
  pManager : t.pManager = s.pManager
  queues : ∀ i, (s.sendQueues i).SameMsgs (t.sendQueues i)

lemma SameButHeads.refl (s : Session) : SameButHeads s s :=
  ⟨rfl, rfl, rfl, rfl, fun _ => .refl _⟩

lemma SameButHeads.trans {s t u : Session} (h : SameButHeads s t) (h' : SameButHeads t u) :
    SameButHeads s u :=
  ⟨h'.1.trans h.1, h'.2.trans h.2, h'.3.trans h.3, h'.4.trans h.4,
    fun i => (h.queues i).trans (h'.queues i)⟩

lemma setQueue_same {s : Session} {i : ℕ} {q : SendQueue} (h : (s.sendQueues i).SameMsgs q) :
    SameButHeads s (s.setQueue i q) := by
  refine ⟨rfl, rfl, rfl, rfl, fun j => ?_⟩
  by_cases hj : j = i
  · subst hj
    simpa [setQueue] using h
  · simpa [setQueue, hj] using .refl (s.sendQueues j)

lemma getSentMsg_eq_some {s t : Session} {seq : ℕ} {r : Option (ℕ × SendQueueInfo)} :
    s.getSentMsg seq = some (t, r) ↔
      resolve s.sentMarks seq = .notData ∧ t = s ∧ r = none ∨
      ∃ q d, resolve s.sentMarks seq = .data q d ∧
        t = s.setQueue q ((s.sendQueues q).getSentMsg d).1 ∧
        r = ((s.sendQueues q).getSentMsg d).2.map fun info => (q, info) := by
  simp only [getSentMsg]
  cases resolve s.sentMarks seq with
  | null => simp
  | notData => simp [eq_comm]
  | data q d => simp [eq_comm]

lemma getSentMsg_same {s t : Session} {seq : ℕ} {r : Option (ℕ × SendQueueInfo)}
    (h : s.getSentMsg seq = some (t, r)) : SameButHeads s t := by
  rcases getSentMsg_eq_some.mp h with ⟨-, rfl, -⟩ | ⟨q, d, -, rfl, -⟩
  · exact .refl t
  · exact setQueue_same (SendQueue.getSentMsg_same _ _)

lemma getSentMsg_answer {s t : Session} (h : SameButHeads s t) (seq : ℕ) :
    (t.getSentMsg seq).map Prod.snd = (s.getSentMsg seq).map Prod.snd := by
  simp only [getSentMsg, h.sentMarks]
  cases resolve s.sentMarks seq with
  | null => rfl
  | notData => rfl
  | data q d =>
    have hq := h.queues q
    simp [SendQueue.getSentMsg_snd, hq.msgsQueue, hq.qSize]

end Session

end Ufix
