import Ufix.Locker
import Ufix.QueueOrder
import Ufix.RecvQueue

/-!
The two classes built on the lock: the receive queue, where the consumer waits for the next message,
and the session, whose sender waits for a message in an open queue.
-/

namespace Ufix.EventSources

open Locker

/-! ### The receive queue -/

/-- What the consumer does between two waits. -/
inductive Consume
  | get
  | reset (index : ℕ)

/-- A message whose number is in the ring already is discarded, without a signal. -/
def publish (q : RecvQueue) (msg : RMessage) : Option RecvQueue :=
  if (q.msgsRecv (msg.seq % q.qSize)).seq ≥ msg.seq then none else q.put msg

def consume (q : RecvQueue) : Consume → Option RecvQueue
  | .get => q.get.map Prod.fst
  | .reset index => some (q.resetSlot index)

lemma publish_keeps {q q' : RecvQueue} {msg : RMessage} (h : publish q msg = some q')
    (he : q.isEmpty q.head = false) : q'.isEmpty q'.head = false := by
  unfold publish RecvQueue.put at h
  split at h
  · cases h
  · next hnew =>
    rw [if_neg hnew, Option.ite_none_right_eq_some, Option.some.injEq] at h
    obtain ⟨hslot, rfl⟩ := h
    -- the slot of the head is occupied, that of the message is not
    have hne : q.head ≠ msg.seq % q.qSize := by
      intro heq
      rw [← heq] at hslot
      simp [RecvQueue.isEmpty, hslot] at he
    simpa [RecvQueue.isEmpty, RecvQueue.setSlot, Function.update_of_ne hne] using he

lemma consume_makes_none {q q' : RecvQueue} {k : Consume} (h : consume q k = some q')
    (he : q'.isEmpty q'.head = false) : q.isEmpty q.head = false := by
  cases k with
  | get =>
    simp only [consume, RecvQueue.get, Option.map_eq_some_iff] at h
    obtain ⟨r, hr, -⟩ := h
    split at hr
    · cases hr
    · next hhead => simpa using hhead
  | reset index =>
    cases h
    rcases eq_or_ne q.head index with heq | hne
    · simp [RecvQueue.isEmpty, RecvQueue.resetSlot, RecvQueue.setSlot, heq, RMessage.reset,
        RMessage.isEmpty] at he
    · simpa [RecvQueue.isEmpty, RecvQueue.resetSlot, RecvQueue.setSlot,
        Function.update_of_ne hne] using he

/-- `RecvQueue::has_event`, with `put` and `get`. -/
def recvQueue : Source RecvQueue RMessage Consume where
  hasEvent q := (!q.isEmpty q.head, q)
  publish := publish
  withdraw := consume

lemma recvQueue_steady : recvQueue.Steady fun _ => True where
  hasEvent_ok _ := trivial
  publish_ok _ _ := trivial
  withdraw_ok _ _ := trivial
  hasEvent_same _ := rfl
  publish_keeps _ h he := by simpa [recvQueue] using publish_keeps h (by simpa [recvQueue] using he)
  withdraw_makes_none _ h he := by
    simpa [recvQueue] using consume_makes_none h (by simpa [recvQueue] using he)

/-! ### The queues of a session -/

/-- The loop of `Session::has_event`: it ends at the first queue that is open and has a message.
Each look at a closed queue may raise its flag. -/
def hasEvent : List SendQueue → Bool × List SendQueue
  | [] => (false, [])
  | q :: qs =>
    let (close, q) := q.isClose
    if !close && !q.isQueueEmpty then (true, q :: qs)
    else
      let (event, qs) := hasEvent qs
      (event, q :: qs)

/-- The numbers of a queue are in order, and its flag is compared with `QUEUE_OPEN`, as the
constructor has it. -/
structure Plain (q : SendQueue) : Prop where
  head : q.headDataSeq ≤ q.dataSeq
  recovered : q.recoverDataSeq ≤ q.dataSeq
  threshold : q.qFlagThreshold = SendQueue.queueOpen

lemma flags_getSentMsg (q : SendQueue) (seq : ℕ) :
    (q.getSentMsg seq).1.qFlag = q.qFlag ∧
      (q.getSentMsg seq).1.qFlagThreshold = q.qFlagThreshold := by
  have hmark : ∀ seq, (q.markSeqSent seq).qFlag = q.qFlag ∧
      (q.markSeqSent seq).qFlagThreshold = q.qFlagThreshold := by
    intro seq
    unfold SendQueue.markSeqSent
    split
    · exact ⟨rfl, rfl⟩
    · split <;> exact ⟨rfl, rfl⟩
  simp only [SendQueue.getSentMsg]
  split
  · split
    · split
      · exact hmark _
      · exact ⟨rfl, rfl⟩
    · exact hmark _
  · exact hmark _

namespace Plain

variable {q : SendQueue}

lemma addMsg {q' : SendQueue} {data : List Byte} (h : Plain q) (hq : q.addMsg data = some q') :
    Plain q' := by
  obtain ⟨h1, h2, h3⟩ := h
  simp only [SendQueue.addMsg, Option.ite_none_left_eq_some, Option.some.injEq] at hq
  obtain ⟨-, rfl⟩ := hq
  exact ⟨Nat.le_succ_of_le h1, Nat.le_succ_of_le h2, h3⟩

lemma isClose_eq (h : Plain q) : q.isClose = (decide (q.qFlag < SendQueue.queueOpen), q) := by
  have hthreshold := h.threshold
  unfold SendQueue.isClose
  split
  · next hlt =>
    rw [hthreshold] at hlt
    have hnot : ¬ q.qFlag > SendQueue.queueClose := by
      unfold SendQueue.queueOpen at hlt
      unfold SendQueue.queueClose
      omega
    rw [if_neg hnot, decide_eq_true hlt]
  · next hge =>
    rw [hthreshold] at hge
    rw [decide_eq_false hge]

lemma setOpen (h : Plain q) : Plain q.setOpen := ⟨h.1, h.2, h.3⟩
lemma setClose (h : Plain q) : Plain q.setClose := ⟨h.1, h.2, h.3⟩

lemma markMsgSent (h : Plain q) (hq : q.isQueueEmpty = false) : Plain q.markMsgSent := by
  have hne : q.dataSeq ≠ q.headDataSeq := by simpa [SendQueue.isQueueEmpty] using hq
  exact ⟨Nat.lt_of_le_of_ne h.1 hne.symm, h.2, h.3⟩

lemma getSentMsg (h : Plain q) (seq : ℕ) : Plain (q.getSentMsg seq).1 := by
  have hsame := SendQueue.getSentMsg_same q seq
  have hrecovered := h.recovered
  refine ⟨?_, by rwa [hsame.recoverDataSeq, hsame.dataSeq],
    (flags_getSentMsg q seq).2 ▸ h.threshold⟩
  rw [hsame.dataSeq]
  rcases (QueueOrder.getSentMsg_le q seq).2 with heq | hle
  · exact heq ▸ h.head
  · exact hle.trans h.recovered

end Plain

def canSend (q : SendQueue) : Bool := decide (SendQueue.queueOpen ≤ q.qFlag) && !q.isQueueEmpty

lemma canSend_iff {q : SendQueue} (h : Plain q) :
    canSend q = true ↔ SendQueue.queueOpen ≤ q.qFlag ∧ q.headDataSeq < q.dataSeq := by
  have hhead := h.head
  simp only [canSend, SendQueue.isQueueEmpty, Bool.and_eq_true, Bool.not_eq_true',
    decide_eq_false_iff_not, decide_eq_true_eq]
  omega

lemma hasEvent_eq {qs : List SendQueue} (h : ∀ q ∈ qs, Plain q) :
    hasEvent qs = (qs.any canSend, qs) := by
  induction qs with
  | nil => rfl
  | cons q qs ih =>
    obtain ⟨hq, hqs⟩ := List.forall_mem_cons.mp h
    have hcan : (!decide (q.qFlag < SendQueue.queueOpen) && !q.isQueueEmpty) = canSend q := by
      simp only [canSend, ← decide_not, not_lt]
    simp only [hasEvent, hq.isClose_eq, ih hqs, hcan, List.any_cons]
    cases canSend q <;> rfl

inductive Offer
  | add (index : ℕ) (data : List Byte)
  | setOpen (index : ℕ)

inductive Retract
  | setClose (index : ℕ)
  | isQueueAvailable (index : ℕ)
  | markMsgSent (index : ℕ)
  | getSentMsg (index seq : ℕ)

/-- Queue `index` changes, which stands at place `index - 1`. -/
def change (qs : List SendQueue) (index : ℕ) (f : SendQueue → Option SendQueue) :
    Option (List SendQueue) :=
  if index = 0 then none
  else qs[index - 1]?.bind fun q => (f q).map fun q' => qs.set (index - 1) q'

/-- `Session::add_msg` and `set_queue_open`. -/
def Offer.apply : Offer → SendQueue → Option SendQueue
  | .add _ data, q => q.addMsg data
  | .setOpen _, q => some q.setOpen

/-- `set_queue_close`, the look at a flag in front of `get_queued_msg`, `mark_msg_sent` for a
message taken from its queue, and the lookups of a resend. -/
def Retract.apply : Retract → SendQueue → Option SendQueue
  | .setClose _, q => some q.setClose
  | .isQueueAvailable _, q => some q.isClose.2
  | .markMsgSent _, q => if q.isQueueEmpty then none else some q.markMsgSent
  | .getSentMsg _ seq, q => some (q.getSentMsg seq).1

def Offer.index : Offer → ℕ
  | .add index _ | .setOpen index => index

def Retract.index : Retract → ℕ
  | .setClose index | .isQueueAvailable index | .markMsgSent index | .getSentMsg index _ => index

/-- `Session::has_event`, with what adds messages to its queues and what takes them. -/
def session : Source (List SendQueue) Offer Retract where
  hasEvent := hasEvent
  publish qs x := change qs x.index x.apply
  withdraw qs k := change qs k.index k.apply

lemma change_any {qs qs' : List SendQueue} {index : ℕ} {f : SendQueue → Option SendQueue}
    (h : change qs index f = some qs') :
    ∃ q ∈ qs, ∃ q', f q = some q' ∧ (∀ p ∈ qs', p = q' ∨ p ∈ qs) ∧ ∃ rest : Bool,
      qs.any canSend = (canSend q || rest) ∧ qs'.any canSend = (canSend q' || rest) := by
  simp only [change, Option.ite_none_left_eq_some, Option.bind_eq_some_iff,
    Option.map_eq_some_iff] at h
  obtain ⟨-, q, hq, q', hf, rfl⟩ := h
  obtain ⟨hlt, hget⟩ := List.getElem?_eq_some_iff.mp hq
  have hany : ∀ x, (qs.set (index - 1) x).any canSend =
      (canSend x || (qs.take (index - 1) ++ qs.drop (index - 1 + 1)).any canSend) := by
    intro x
    rw [List.set_eq_take_append_cons_drop, if_pos hlt, List.any_append, List.any_cons,
      List.any_append, Bool.or_left_comm]
  refine ⟨q, List.mem_of_getElem? hq, q', hf, fun p hp => (List.mem_or_eq_of_mem_set hp).symm, _,
    ?_, hany q'⟩
  rw [← hany q, ← hget, List.set_getElem_self]

lemma Offer.apply_plain {x : Offer} {q q' : SendQueue} (h : Plain q) (hq : x.apply q = some q') :
    Plain q' ∧ (canSend q = true → canSend q' = true) := by
  cases x with
  | add index data =>
    have hplain := h.addMsg hq
    obtain ⟨-, rfl⟩ := SendQueue.addMsg_eq_some.mp hq
    refine ⟨hplain, fun hs => ?_⟩
    rw [canSend_iff h] at hs
    rw [canSend_iff hplain]
    exact ⟨hs.1, Nat.lt_succ_of_lt hs.2⟩
  | setOpen index =>
    cases hq
    refine ⟨h.setOpen, fun hs => ?_⟩
    rw [canSend_iff h] at hs
    rw [canSend_iff h.setOpen]
    exact ⟨le_rfl, hs.2⟩

lemma Retract.apply_plain {k : Retract} {q q' : SendQueue} (h : Plain q)
    (hq : k.apply q = some q') : Plain q' ∧ (canSend q' = true → canSend q = true) := by
  cases k with
  | setClose index =>
    cases hq
    refine ⟨h.setClose, fun hs => ?_⟩
    rw [canSend_iff h.setClose] at hs
    exact absurd hs.1 (show ¬ SendQueue.queueOpen ≤ SendQueue.queueClose by decide)
  | isQueueAvailable index =>
    simp only [Retract.apply, h.isClose_eq, Option.some.injEq] at hq
    subst hq
    exact ⟨h, id⟩
  | markMsgSent index =>
    simp only [Retract.apply, Option.ite_none_left_eq_some, Bool.not_eq_true,
      Option.some.injEq] at hq
    obtain ⟨hempty, rfl⟩ := hq
    refine ⟨h.markMsgSent hempty, fun hs => ?_⟩
    rw [canSend_iff (h.markMsgSent hempty)] at hs
    rw [canSend_iff h]
    exact ⟨hs.1, Nat.lt_of_succ_lt hs.2⟩
  | getSentMsg index seq =>
    cases hq
    refine ⟨h.getSentMsg seq, fun hs => ?_⟩
    rw [canSend_iff (h.getSentMsg seq), (flags_getSentMsg q seq).1,
      (SendQueue.getSentMsg_same q seq).dataSeq] at hs
    rw [canSend_iff h]
    exact ⟨hs.1, lt_of_le_of_lt (QueueOrder.getSentMsg_le q seq).1 hs.2⟩

lemma change_plain {qs qs' : List SendQueue} {index : ℕ} {f : SendQueue → Option SendQueue}
    {R : Bool → Bool → Prop} (h : change qs index f = some qs') (hqs : ∀ q ∈ qs, Plain q)
    (hf : ∀ q q', Plain q → f q = some q' → Plain q' ∧
      ∀ rest, R (canSend q || rest) (canSend q' || rest)) :
    (∀ q ∈ qs', Plain q) ∧ R (hasEvent qs).1 (hasEvent qs').1 := by
  obtain ⟨q, hmem, q', hq, hmem', rest, hany, hany'⟩ := change_any h
  obtain ⟨hplain, hR⟩ := hf q q' (hqs q hmem) hq
  have hqs' : ∀ p ∈ qs', Plain p := fun p hp => (hmem' p hp).elim (fun he => he ▸ hplain) (hqs p)
  refine ⟨hqs', ?_⟩
  rw [hasEvent_eq hqs, hasEvent_eq hqs', hany, hany']
  exact hR rest

lemma offer_plain {qs qs' : List SendQueue} {x : Offer} (hqs : ∀ q ∈ qs, Plain q)
    (h : session.publish qs x = some qs') :
    (∀ q ∈ qs', Plain q) ∧ ((hasEvent qs).1 = true → (hasEvent qs').1 = true) := by
  refine change_plain (R := fun e e' => e = true → e' = true) h hqs fun q q' hq hf => ?_
  obtain ⟨hplain, hkeeps⟩ := x.apply_plain hq hf
  refine ⟨hplain, fun rest he => ?_⟩
  rw [Bool.or_eq_true] at he ⊢
  exact he.imp_left hkeeps

lemma retract_plain {qs qs' : List SendQueue} {k : Retract} (hqs : ∀ q ∈ qs, Plain q)
    (h : session.withdraw qs k = some qs') :
    (∀ q ∈ qs', Plain q) ∧ ((hasEvent qs').1 = true → (hasEvent qs).1 = true) := by
  refine change_plain (R := fun e e' => e' = true → e = true) h hqs fun q q' hq hf => ?_
  obtain ⟨hplain, hnone⟩ := k.apply_plain hq hf
  refine ⟨hplain, fun rest he => ?_⟩
  rw [Bool.or_eq_true] at he ⊢
  exact he.imp_left hnone

lemma session_steady : session.Steady fun qs => ∀ q ∈ qs, Plain q where
  hasEvent_ok h := by simpa only [session, hasEvent_eq h] using h
  publish_ok h hx := (offer_plain h hx).1
  withdraw_ok h hk := (retract_plain h hk).1
  hasEvent_same h := by simp only [session, hasEvent_eq h]
  publish_keeps h hx := (offer_plain h hx).2
  withdraw_makes_none h hk := (retract_plain h hk).2

end Ufix.EventSources
