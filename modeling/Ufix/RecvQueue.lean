import Ufix.SocketConnector

/-!
The receive queue: received messages wait in a ring, each in the slot of its number, until the
consumer takes them in order.

The receiver thread puts messages and gap fills, the consumer thread takes a message, works on
it and resets its slot. A message is given by the bytes its data pointer and length designate.
-/

namespace Ufix

structure RMessage where
  timestamp : ℤ
  data : List Byte
  msgTypePos : ℤ
  seq : ℕ
  deriving DecidableEq, Repr

namespace RMessage

def new (data : List Byte) (msgTypePos : ℤ) (seq : ℕ) : RMessage := ⟨0, data, msgTypePos, seq⟩

/-- The timestamp of the slot stays. -/
def copy (m msg : RMessage) : RMessage :=
  { m with data := msg.data, msgTypePos := msg.msgTypePos, seq := msg.seq }

def setGf (m : RMessage) (seqNo : ℕ) : RMessage := { m with timestamp := -1, seq := seqNo }
def isGf (m : RMessage) : Bool := m.timestamp = -1
def setTimestamp (m : RMessage) (ts : ℤ) : RMessage := { m with timestamp := ts }
def reset (m : RMessage) : RMessage := { m with timestamp := 0, seq := 0 }
def isEmpty (m : RMessage) : Bool := m.seq = 0

end RMessage

/-- `cmds` are the resend requests handed to the sender, begin and end. -/
structure RecvQueue where
  qSize : ℕ
  msgsRecv : ℕ → RMessage
  head : ℕ
  headSeq : ℕ
  tailSeq : ℕ
  cmds : List (ℕ × ℕ)

namespace RecvQueue

def new (size : ℕ) : RecvQueue where
  qSize := size
  msgsRecv := fun _ => ⟨0, [], 0, 0⟩
  head := 1
  headSeq := 0
  tailSeq := 0
  cmds := []

def setHeadSeq (q : RecvQueue) (seq : ℕ) : RecvQueue :=
  { q with head := ulong (seq + 1) % q.qSize, headSeq := seq, tailSeq := seq }

def setSlot (q : RecvQueue) (index : ℕ) (m : RMessage) : RecvQueue :=
  { q with msgsRecv := Function.update q.msgsRecv index m }

/-- `put`: a number not above the one in its slot is discarded; `none` while the slot is
occupied, when the receiver waits. -/
def put (q : RecvQueue) (msg : RMessage) : Option RecvQueue :=
  let index := msg.seq % q.qSize
  let slot := q.msgsRecv index
  if slot.seq ≥ msg.seq then some q
  else if slot.isEmpty then
    some
      { q.setSlot index (slot.copy msg) with
        tailSeq := if q.tailSeq < msg.seq then msg.seq else q.tailSeq }
  else none

def isEmpty (q : RecvQueue) (index : ℕ) : Bool :=
  (q.msgsRecv index).isEmpty || q.headSeq ≥ (q.msgsRecv index).seq

/-- One round of `update_seq`. -/
def setGf (q : RecvQueue) (i : ℕ) : RecvQueue :=
  q.setSlot (i % q.qSize) ((q.msgsRecv (i % q.qSize)).setGf i)

/-- The numbers a gap fill stands for. -/
def gapFill (currentSeqNo newSeqNo : ℕ) : List ℕ :=
  List.range' (ulong (currentSeqNo + 1)) (newSeqNo - ulong (currentSeqNo + 1))

def updateSeq (q : RecvQueue) (currentSeqNo newSeqNo : ℕ) : RecvQueue :=
  (gapFill currentSeqNo newSeqNo).foldl setGf q

/-- The loop of `add_resend_request`: the slots from `endSeqNo` on that wait for a message are
stamped. With no message in the whole ring it does not end, and the result is `none`. -/
def stampMissing (ts : ℤ) : ℕ → ℕ → RecvQueue → Option (RecvQueue × ℕ)
  | 0, _, _ => none
  | n + 1, endSeqNo, q =>
    let index := endSeqNo % q.qSize
    if q.isEmpty index then
      stampMissing ts n (ulong (endSeqNo + 1))
        (q.setSlot index ((q.msgsRecv index).setTimestamp ts))
    else some (q, endSeqNo)

/-- The request is made once: the slot of the missing number keeps its time. -/
def addResendRequest (q : RecvQueue) (ts : ℤ) : Option (RecvQueue × Bool) :=
  let beginSeqNo := ulong (q.headSeq + 1)
  let index := beginSeqNo % q.qSize
  if (q.msgsRecv index).timestamp ≠ 0 then some (q, false)
  else
    (stampMissing ts q.qSize (ulong (beginSeqNo + 1))
      (q.setSlot index ((q.msgsRecv index).setTimestamp ts))).map fun (q, endSeqNo) =>
        ({ q with cmds := q.cmds ++ [(beginSeqNo, ulong (endSeqNo + (2 ^ 64 - 1)))] }, true)

/-- One round of the waiting loop of `get` at time `ts`. -/
def waitMsg (q : RecvQueue) (ts : ℤ) : Option RecvQueue :=
  if q.isEmpty q.head then
    if q.tailSeq > q.headSeq then (q.addResendRequest ts).map Prod.fst else some q
  else none

/-- `get` once it has stopped waiting, with the slot of the message it returns. -/
def get (q : RecvQueue) : Option (RecvQueue × ℕ) :=
  if q.isEmpty q.head then none
  else
    some ({ q with
      head := if q.head + 1 = q.qSize then 0 else q.head + 1
      headSeq := (q.msgsRecv q.head).seq }, q.head)

def resetSlot (q : RecvQueue) (index : ℕ) : RecvQueue :=
  q.setSlot index (q.msgsRecv index).reset

/-! ### Numbers, whatever the timestamps -/

/-- The queues agree in everything but timestamps and requests. -/
structure SameSeqs (q q' : RecvQueue) : Prop where
  qSize : q'.qSize = q.qSize
  head : q'.head = q.head
  headSeq : q'.headSeq = q.headSeq
  seq : ∀ i, (q'.msgsRecv i).seq = (q.msgsRecv i).seq

lemma SameSeqs.refl (q : RecvQueue) : SameSeqs q q := ⟨rfl, rfl, rfl, fun _ => rfl⟩

lemma SameSeqs.trans {q₁ q₂ q₃ : RecvQueue} (h : SameSeqs q₁ q₂) (h' : SameSeqs q₂ q₃) :
    SameSeqs q₁ q₃ :=
  ⟨h'.1.trans h.1, h'.2.trans h.2, h'.3.trans h.3, fun i => (h'.4 i).trans (h.4 i)⟩

lemma setTimestamp_same (q : RecvQueue) (index : ℕ) (ts : ℤ) :
    SameSeqs q (q.setSlot index ((q.msgsRecv index).setTimestamp ts)) := by
  refine ⟨rfl, rfl, rfl, fun i => ?_⟩
  by_cases hi : i = index
  · subst hi
    simp [setSlot, RMessage.setTimestamp]
  · simp [setSlot, hi]

lemma stampMissing_same {ts : ℤ} {n endSeqNo k : ℕ} {q q' : RecvQueue}
    (h : stampMissing ts n endSeqNo q = some (q', k)) : SameSeqs q q' := by
  induction n generalizing endSeqNo q with
  | zero => cases h
  | succ n ih =>
    simp only [stampMissing] at h
    split at h
    · exact (setTimestamp_same q _ ts).trans (ih h)
    · cases h
      exact .refl _

lemma waitMsg_same {q q' : RecvQueue} {ts : ℤ} (h : q.waitMsg ts = some q') : SameSeqs q q' := by
  unfold waitMsg at h
  split at h
  · split at h
    · obtain ⟨⟨r, b⟩, hr, rfl⟩ := Option.map_eq_some_iff.mp h
      unfold addResendRequest at hr
      simp only at hr
      split at hr
      · cases hr
        exact .refl _
      · obtain ⟨⟨u, k⟩, hu, hr⟩ := Option.map_eq_some_iff.mp hr
        cases hr
        have hs := (setTimestamp_same q _ ts).trans (stampMissing_same hu)
        exact ⟨hs.qSize, hs.head, hs.headSeq, hs.seq⟩
    · cases h
      exact .refl _
  · cases h

lemma put_eq_some {q q' : RecvQueue} {msg : RMessage} (h : q.put msg = some q') :
    msg.seq ≤ (q.msgsRecv (msg.seq % q.qSize)).seq ∧ q' = q ∨
      (q.msgsRecv (msg.seq % q.qSize)).seq = 0 ∧ 0 < msg.seq ∧
        q' = { q.setSlot (msg.seq % q.qSize) ((q.msgsRecv (msg.seq % q.qSize)).copy msg) with
          tailSeq := if q.tailSeq < msg.seq then msg.seq else q.tailSeq } := by
  unfold put at h
  simp only at h
  split at h
  · next hge =>
    cases h
    exact Or.inl ⟨hge, rfl⟩
  · next hlt =>
    split at h
    · next he =>
      cases h
      exact Or.inr ⟨by simpa [RMessage.isEmpty] using he, by omega, rfl⟩
    · cases h

lemma put_cases {q q' : RecvQueue} {msg : RMessage} (h : q.put msg = some q') :
    q' = q ∨
      ((q.msgsRecv (msg.seq % q.qSize)).seq = 0 ∧ 0 < msg.seq ∧ q'.qSize = q.qSize ∧
        q'.head = q.head ∧ q'.headSeq = q.headSeq ∧
        ∀ i, (q'.msgsRecv i).seq =
          if i = msg.seq % q.qSize then msg.seq else (q.msgsRecv i).seq) := by
  rcases put_eq_some h with ⟨-, rfl⟩ | ⟨h0, hpos, rfl⟩
  · exact Or.inl rfl
  · refine Or.inr ⟨h0, hpos, rfl, rfl, rfl, fun i => ?_⟩
    by_cases hi : i = msg.seq % q.qSize
    · subst hi
      simp [setSlot, RMessage.copy]
    · simp [setSlot, hi]

lemma setGf_seq (q : RecvQueue) (n i : ℕ) :
    ((q.setGf n).msgsRecv i).seq =
      if i = n % q.qSize then n else (q.msgsRecv i).seq := by
  by_cases hi : i = n % q.qSize
  · subst hi
    simp [setGf, setSlot, RMessage.setGf]
  · simp [setGf, setSlot, hi]

lemma resetSlot_seq (q : RecvQueue) (k i : ℕ) :
    ((q.resetSlot k).msgsRecv i).seq = if i = k then 0 else (q.msgsRecv i).seq := by
  by_cases hi : i = k
  · subst hi
    simp [resetSlot, setSlot, RMessage.reset]
  · simp [resetSlot, setSlot, hi]

lemma get_eq_some {q q' : RecvQueue} {index : ℕ} (h : q.get = some (q', index)) :
    index = q.head ∧ (q.msgsRecv q.head).seq ≠ 0 ∧ q.headSeq < (q.msgsRecv q.head).seq ∧
      q' = { q with
        head := if q.head + 1 = q.qSize then 0 else q.head + 1
        headSeq := (q.msgsRecv q.head).seq } := by
  unfold get at h
  split at h
  · cases h
  · next he =>
    cases h
    simp only [isEmpty, RMessage.isEmpty, Bool.or_eq_true, decide_eq_true_eq, not_or] at he
    exact ⟨rfl, he.1, by omega, rfl⟩

end RecvQueue

end Ufix
