import Ufix.Compose
import Ufix.History
import Ufix.InPlace
import Ufix.QueueBuf

/-!
The sender with the buffers of its queues, where `finalize_new` and `finalize_resend` rewrite the
messages they send.

In the sender machine a slot stays as `add_msg` filled it. The machine here takes the same steps,
and reads and writes the bytes where the slots point, whatever has been written there since.
-/

namespace Ufix

open Ufix.Decimal Ufix.Compose

/-- `'Y'`. -/
def posDupYes : Byte := 89

namespace WMessage

/-- `WMessage(index)`, switched to the bytes of a slot. -/
def ofSlot (data : List Byte) : WMessage := ⟨.preFin, 0, data, 0, 0, 0⟩

/-- The number, the flag and the time are replaced, the second time only where it starts with a
zero; the checksum is summed up again. -/
def finalizeResend (m : WMessage) (msgSeqPos : ℕ) (msgSeq : List Byte) (sendingTimePos : ℕ)
    (utcTime : List Byte) : Option WMessage := do
  let data ← patch m.data msgSeqPos msgSeq
  let data ← patch data (sendingTimePos - 5) [posDupYes]
  let data ← patch data sendingTimePos utcTime
  let orig ← data[sendingTimePos + distanceSendingOrigSending]?
  let data ← if orig = digit 0 then
      patch data (sendingTimePos + distanceSendingOrigSending) utcTime
    else some data
  let cks := (data.take (data.length - checksumSize)).foldl
    (fun cks b => uint (cks + charVal b)) 0
  let data ← patch data (data.length - checksumValuePartSize) (setChecksum cks)
  some { m with data := data, seq := convertAtollLen msgSeq }

end WMessage

/-- The number in the `w` digits of `seq_buf`; one with more digits does not fit. -/
def seqBuf (w seq : ℕ) : Option (List Byte) :=
  (convertLtoa ((seq : ℤ).bmod (2 ^ 64))).bind fun buf =>
    if buf.length ≤ w then some (zeros (w - buf.length) ++ buf) else none

lemma seqBuf_of_lt {w seq : ℕ} (h1 : 1 ≤ w) (hw : w ≤ 18) (hseq : seq < 10 ^ w) :
    seqBuf w seq = some (padded w seq) := by
  have h18 : seq < 10 ^ 18 := lt_of_lt_of_le hseq (Nat.pow_le_pow_right (by omega) hw)
  have hlen : (decimal seq).length ≤ w := by
    rw [decimal, padded_length]
    exact width_le h1 hseq
  rw [seqBuf, bmod_of_lt (by omega), convertLtoa_of_lt h18, Option.bind_some, if_pos hlen,
    padded_eq_decimal h1 hseq, decimal, padded_length]
  rfl

/-- `Session::finalize_msg(msg, seq, resend_flag)` with the flag set. -/
def finalizeMsgResend (o : SessionOption) (seq : ℕ) (utcTime : List Byte) (m : WMessage) :
    Option WMessage :=
  let p := calculateMsgsPositions o
  let add := getMsgTypeSize o m - 1
  (seqBuf o.maxMsgSeqSize seq).bind fun msgSeq =>
    m.finalizeResend (p.msgSeqPos + add).toNat msgSeq (p.sendingTimePos + add).toNat utcTime

/-- Whether a gap fill has room for its number; `NewSeqNo` is written with as many digits as it
has. -/
def gapFits (o : SessionOption) (start newSeqNo : ℕ) : Bool :=
  (seqBuf o.maxMsgSeqSize start).isSome && (convertLtoa ((newSeqNo : ℤ).bmod (2 ^ 64))).isSome

namespace SlotBytes

open Ufix.InPlace Ufix.Runs Ufix.Sender

/-- A data message as it was passed to the socket. -/
structure Passed where
  qIndex : ℕ
  dataSeq : ℕ
  bytes : List Byte

/-- The sender, whose slots keep what `add_msg` was given, the buffers of its queues, and the data
messages it passed to the socket. -/
structure State where
  connector : SocketConnector
  bufs : ℕ → QueueBuf
  passed : List Passed

inductive Act
  /-- a direct message is written at the position of queue `i` -/
  | build (i : ℕ) (data : List Byte)
  | act (a : Sender.Act)

namespace State

def queue (s : State) (i : ℕ) : SendQueue := s.connector.session.sendQueues i

/-- The slot of message `d` of queue `i`. -/
def index (s : State) (i d : ℕ) : ℕ := d % (s.queue i).qSize

/-- The bytes that lie where the slot of the message points. -/
def bytes (s : State) (i d : ℕ) : List Byte := (s.bufs i).bytes (s.index i d)

/-- No later message of the queue lies over the one in the slot. -/
def Whole (s : State) (i d : ℕ) : Prop := QueueBuf.Whole (s.queue i) (s.bufs i) (s.index i d)

instance (s : State) (i d : ℕ) : Decidable (s.Whole i d) :=
  inferInstanceAs (Decidable (QueueBuf.Whole _ _ _))

def setBuf (s : State) (i : ℕ) (b : QueueBuf) : State :=
  { s with bufs := Function.update s.bufs i b }

/-- Message `d` of queue `i`, switched to slot `j` and finalized there, is passed to the socket. -/
def pass (s : State) (i j d : ℕ) (data : List Byte) : State :=
  { s.setBuf i ((s.bufs i).rewrite j data) with passed := s.passed ++ [⟨i, d, data⟩] }

@[simp] lemma bytes_pass_self (s : State) (i j d d' : ℕ) (data : List Byte) :
    (s.pass i j d data).bytes i d' = ((s.bufs i).rewrite j data).bytes (s.index i d') := by
  simp only [bytes, pass, setBuf, Function.update_self]
  rfl

@[simp] lemma bytes_pass_of_ne {s : State} {i i' j d d' : ℕ} {data : List Byte} (h : i' ≠ i) :
    (s.pass i j d data).bytes i' d' = s.bytes i' d' := by
  simp only [bytes, pass, setBuf, Function.update_of_ne h]
  rfl

def setSession (s : State) (session : Session) : State :=
  { s with connector := { s.connector with session := session } }

/-- `Session::get_sent_msg`: the message found comes with the bytes its slot points to. -/
def getSentMsg (s : State) (n : ℕ) : Option (State × Option ((ℕ × SendQueueInfo) × List Byte)) :=
  (s.connector.session.getSentMsg n).map fun r =>
    (s.setSession r.1, r.2.map fun m => (m, s.bytes m.1 m.2.dataSeq))

/-- `finalize_msg` on the message that `get_sent_msg` found, for a resend. -/
def finalizeSent (o : SessionOption) (utcTime : List Byte) (s : State) (seq : ℕ)
    (m : (ℕ × SendQueueInfo) × List Byte) :
    Option (State × ((ℕ × SendQueueInfo) × List Byte)) :=
  (finalizeMsgResend o seq utcTime (.ofSlot m.2)).map fun msg =>
    (s.pass m.1.1 (s.index m.1.1 m.1.2.dataSeq) m.1.2.dataSeq msg.data, (m.1, msg.data))

end State

variable (o : SessionOption) (utc : ℕ → List Byte)

/-- One round of the inner loop of `send_data`; `utc k` is the time when the `k`-th message is
passed to the socket. -/
def sendQueuedMsg (s : State) (i : ℕ) (ok : Bool) : Option State :=
  let head := (s.queue i).headDataSeq
  (s.queue i).getMsg.bind fun info =>
    (finalizeMsg o (padded o.maxMsgSeqSize s.connector.session.msgSeq)
      (utc s.connector.wire.length) (.ofSlot (s.bytes i head))).bind fun msg =>
        (s.connector.sendQueuedMsg o i ok).map fun p =>
          { s.pass i (s.index i head) info.dataSeq msg.data with connector := p }

/-- `send_sequence_reset(cmd)`. -/
def sendSequenceReset (s : State) (beginSeqNo endSeqNo : ℕ) (ok : ℕ → Bool) : Option State :=
  let p := s.connector
  let endSeqNo := p.resendEnd endSeqNo
  let r := resendInPlace State.getSentMsg
    (fun k => State.finalizeSent o (utc (p.wire.length + k))) (gapFits o)
    (fun k => ok (p.wire.length + k)) endSeqNo (rounds beginSeqNo endSeqNo) s
    beginSeqNo beginSeqNo []
  r.map fun r =>
    { r.1 with
      connector := { p with
        session := r.1.connector.session
        socketSendFlag := p.socketSendFlag && r.2.all Prod.snd
        wire := p.wire ++ (r.2.map (outMap Prod.fst)).map SocketConnector.resendPacket } }

def step (s : State) : Act → Option State
  | .build i data => if IsQueue o i then some (s.setBuf i ((s.bufs i).build data)) else none
  | .act (.addMsg i data) =>
    (Sender.step o s.connector (.addMsg i data)).map fun p =>
      { s.setBuf i ((s.bufs i).put (s.index i (s.queue i).dataSeq) data) with connector := p }
  | .act (.data i ok) =>
    if s.connector.logonSent ∧ IsQueue o i then sendQueuedMsg o utc s i ok else none
  | .act (.resend b e ok) =>
    if s.connector.logonSent then sendSequenceReset o utc s b.toNat e.toNat ok else none
  | .act a => (Sender.step o s.connector a).map fun p => { s with connector := p }

/-- A process as it starts: the files are recovered into the buffers, where the memory of queue `i`
held `mem i`. -/
def boot (M : ℕ) (files : PManager) (lastQ : ℤ) (mem : ℕ → ℕ → Byte) : State where
  connector := History.boot o M files lastQ
  bufs := fun i =>
    let size := ((Session.init o M files lastQ).sendQueues i).qSize
    .recover size 1 (.new size o.fixMsgAvgLength o.fixMsgMaxLength (mem i)) (files.dataQueue i)
  passed := []

variable {o utc} {s s' : State}

/-- A resend is the resend of the sender machine, message by message. -/
lemma sendSequenceReset_sender {b e : ℕ} {ok : ℕ → Bool}
    (h : sendSequenceReset o utc s b e ok = some s') :
    s.connector.sendSequenceReset b e ok = some s'.connector := by
  obtain ⟨⟨t, outs⟩, hr, rfl⟩ := Option.map_eq_some_iff.mp h
  have hget : ∀ (s : State) k, s.connector.session.getSentMsg k =
      (s.getSentMsg k).map fun r => (r.1.connector.session, r.2.map Prod.fst) := by
    intro s k
    cases hs : s.connector.session.getSentMsg k with
    | none => simp [State.getSentMsg, hs]
    | some r => simp [State.getSentMsg, hs, State.setSession, Option.map_map, Function.comp_def]
  have hloop := resendInPlace_forget (f := fun s : State => s.connector.session) (g := Prod.fst)
    hget
    (fun j s k m t x hx => by
      obtain ⟨msg, -, heq⟩ := Option.map_eq_some_iff.mp hx
      cases heq
      exact ⟨rfl, rfl⟩) hr
  rw [List.map_nil] at hloop
  have hall : (outs.map (outMap Prod.fst)).all Prod.snd = outs.all Prod.snd := by
    rw [List.all_map]
    congr 1
    funext out
    rcases out with ⟨⟨seq, n⟩ | ⟨seq, m⟩, ok⟩ <;> rfl
  simp only [SocketConnector.sendSequenceReset, hloop, Option.map_some, hall]

/-- **A step is a step of the sender machine.** -/
theorem step_sender {a : Sender.Act} (h : step o utc s (.act a) = some s') :
    Sender.step o s.connector a = some s'.connector := by
  cases a with
  | addMsg i data =>
    obtain ⟨p, hp, rfl⟩ := Option.map_eq_some_iff.mp h
    exact hp
  | data i ok =>
    simp only [step, Sender.step] at h ⊢
    split at h
    · next hl =>
      obtain ⟨info, -, h⟩ := Option.bind_eq_some_iff.mp h
      obtain ⟨msg, -, h⟩ := Option.bind_eq_some_iff.mp h
      obtain ⟨p, hp, rfl⟩ := Option.map_eq_some_iff.mp h
      rw [if_pos hl]
      exact hp
    · cases h
  | resend b e ok =>
    simp only [step, Sender.step] at h ⊢
    split at h
    · next hl =>
      rw [if_pos hl]
      exact sendSequenceReset_sender h
    · cases h
  | reconnect =>
    simp only [step, Option.map_eq_some_iff] at h
    obtain ⟨p, hp, rfl⟩ := h
    exact hp
  | poll i =>
    simp only [step, Option.map_eq_some_iff] at h
    obtain ⟨p, hp, rfl⟩ := h
    exact hp
  | logon junk ok =>
    simp only [step, Option.map_eq_some_iff] at h
    obtain ⟨p, hp, rfl⟩ := h
    exact hp
  | session junk ok =>
    simp only [step, Option.map_eq_some_iff] at h
    obtain ⟨p, hp, rfl⟩ := h
    exact hp

end SlotBytes

end Ufix
