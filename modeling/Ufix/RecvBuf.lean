import Ufix.Delivery
import Ufix.Receiver

/-!
The receive buffer over the life of a session: chunks appended at the tail, messages cut off at
the head and put into the receive queue by their pointers, the wrap of the buffer, disconnects, and
the hand-over of the buffer from one connector to the next.

The buffer has room for one more chunk behind `recv_buf_size`. Whether the tail is still in front
of that place is looked at on one path only.
-/

namespace Ufix.RecvBuf

open Ufix.Memory Ufix.Runs

def socketRecvWindows : ℕ := 2 ^ 16

/-- The length of the buffer in which the first message of a connection is received. -/
def acceptBufSize : ℕ := 8192

/-- Where the receiver thread is: there is none, it has just been started with bytes read before,
it is about to call `recv`, or it cuts messages off what `recv` gave. -/
inductive Phase
  | down
  | starting
  | receiving
  | cutting
  deriving DecidableEq

/-- `saved` are the head and tail the session keeps, `slots` the data pointer and length in each
slot of the queue, and `reading` is the slot whose message the application works on. -/
structure Connection where
  acceptor : Bool
  fixVersionLen : ℕ
  recvBuf : ℕ → Byte
  recvBufSize : ℕ
  recvBufHead : ℤ
  recvBufTail : ℤ
  saved : ℤ × ℤ
  phase : Phase
  delivery : Delivery.State
  slots : ℕ → ℕ × ℕ
  reading : Option ℕ

inductive Act
  | recv (chunk : List Byte)
  | round
  | lost
  | stop
  | accept (tempBuf : List Byte)
  | updateSeq (currentSeqNo newSeqNo : UInt64)
  | wait (ts : ℤ)
  | get
  | reset

namespace Connection

/-- A session whose queue stands at `seq`, with the connector of an initiator, or before the first
one of an acceptor; `mem` is what the allocated memory held. -/
def new (acceptor : Bool) (fixVersionLen size qSize : ℕ) (seq : UInt64) (mem : ℕ → Byte) :
    Connection where
  acceptor := acceptor
  fixVersionLen := fixVersionLen
  recvBuf := mem
  recvBufSize := size
  recvBufHead := 0
  recvBufTail := 0
  saved := (0, 0)
  phase := if acceptor then .down else .receiving
  delivery := Delivery.start qSize seq
  slots := fun _ => (0, 0)
  reading := none

/-- The memory `init_recv_buf` allocates. -/
def allocated (c : Connection) : List Byte :=
  Memory.read c.recvBuf 0 (c.recvBufSize + socketRecvWindows)

/-- `recv` gives up to one window of bytes. -/
def recv (c : Connection) (chunk : List Byte) : Option Connection :=
  if c.phase = .receiving ∧ 0 ≤ c.recvBufTail ∧ chunk ≠ [] ∧ chunk.length ≤ socketRecvWindows then
    some { c with
      recvBuf := write c.recvBuf c.recvBufTail.toNat chunk
      recvBufTail := c.recvBufTail + chunk.length
      phase := .cutting }
  else none

def moveToFront (c : Connection) : Connection :=
  { c with
    recvBuf := write c.recvBuf 0
      (Memory.read c.recvBuf c.recvBufHead.toNat (c.recvBufTail - c.recvBufHead).toNat)
    recvBufHead := 0
    recvBufTail := c.recvBufTail - c.recvBufHead }

/-- `process_new_data` returned `1`. What a thread does before its loop is not looked at. -/
def allCut (c : Connection) : Connection :=
  let c' := if c.phase = .cutting ∧ c.recvBufTail > c.recvBufSize then c.moveToFront else c
  { c' with phase := .receiving }

/-- The connection is given up. An acceptor hands the buffer back and ends. -/
def disconnect (c : Connection) : Connection :=
  let c' := { c with recvBufTail := c.recvBufHead }
  if c.acceptor then { c' with saved := (c'.recvBufHead, c'.recvBufTail), phase := .down }
  else { c' with phase := .receiving }

/-- `process_new_data` returned `0`. -/
def reject (c : Connection) : Connection :=
  if c.phase = .cutting then c.disconnect else { c with phase := .receiving }

def putMsg (c : Connection) (m : RMessage) (msgLen : ℤ) : Option Connection :=
  let q := c.delivery.queue
  let index := m.seq % q.qSize
  (Delivery.step c.delivery (.put m)).map fun d =>
    { c with
      delivery := d
      slots := if (q.msgsRecv index).seq ≥ m.seq then c.slots
        else Function.update c.slots index (c.recvBufHead.toNat, msgLen.toNat)
      recvBufHead := c.recvBufHead + msgLen }

/-- One round of `process_new_data`; `none` also while the queue does not take the message. -/
def round (c : Connection) : Option Connection :=
  if c.phase = .starting ∨ c.phase = .cutting then
    match nextMsg c.fixVersionLen c.allocated c.recvBufHead c.recvBufTail with
    | none => none
    | some .wait => some c.allCut
    | some .noSeq => some c.reject
    | some (.msg m msgLen) => c.putMsg m msgLen
  else none

/-- A new connector of an acceptor goes on where the session's buffer was handed back, with the
bytes read so far. -/
def accept (c : Connection) (tempBuf : List Byte) : Option Connection :=
  if c.acceptor ∧ c.phase = .down ∧ 0 ≤ c.saved.2 ∧ tempBuf.length ≤ acceptBufSize then
    some { c with
      recvBuf := write c.recvBuf c.saved.2.toNat tempBuf
      recvBufHead := c.saved.1
      recvBufTail := c.saved.2 + tempBuf.length
      phase := .starting }
  else none

/-- What the queue does apart from taking messages. -/
def deliver (c : Connection) (a : Delivery.Act) : Option Connection :=
  (Delivery.step c.delivery a).map fun d => { c with delivery := d }

/-- The application works on the message of the slot, if it is one. -/
def get (c : Connection) : Option Connection :=
  (c.deliver .get).map fun c' =>
    { c' with reading := c'.delivery.taken.filter fun i =>
        !(c'.delivery.queue.msgsRecv i).isGf }

/-- One step. The thread of an acceptor may also end because sending failed, and then it hands
nothing back. -/
def step (c : Connection) : Act → Option Connection
  | .recv chunk => c.recv chunk
  | .round => c.round
  | .lost => if c.phase = .receiving then some c.disconnect else none
  | .stop => if c.acceptor ∧ c.phase = .receiving then some { c with phase := .down } else none
  | .accept tempBuf => c.accept tempBuf
  | .updateSeq cur n => c.deliver (.updateSeq cur n)
  | .wait ts => c.deliver (.wait ts)
  | .get => c.get
  | .reset => (c.deliver .reset).map fun c' => { c' with reading := none }

end Connection

deriving instance DecidableEq for Round

def numbered (digit : Byte) : List Byte :=
  [56, 61, 70, 73, 88, 46, 52, 46, 50, 1, 57, 61, 49, 48, 1, 51, 53, 61, 48, 1, 51, 52, 61, digit,
    1, 49, 48, 61, 48, 48, 48, 1]

/-! ### What a message is cut from -/

lemma cutMsg_msg {mem : List Byte} {head tail msgTypePos msgLen len : ℤ} {m : RMessage}
    (h : cutMsg mem head tail msgTypePos len = some (.msg m msgLen)) :
    msgLen ≤ tail - head ∧ 0 ≤ head ∧ m.data = (mem.drop head.toNat).take msgLen.toNat := by
  obtain ⟨-, hr⟩ | ⟨hle, hr | ⟨hhead, seq, hr⟩⟩ := cutMsg_some h
  · cases hr
  · cases hr
  · cases hr
    exact ⟨hle, hhead, rfl⟩

lemma nextMsg_msg {n : ℕ} {mem : List Byte} {head tail msgLen : ℤ} {m : RMessage}
    (h : nextMsg n mem head tail = some (.msg m msgLen)) :
    msgLen ≤ tail - head ∧ 0 ≤ head ∧ m.data = (mem.drop head.toNat).take msgLen.toNat := by
  unfold nextMsg at h
  split at h
  · cases h
  · obtain ⟨sohPos, -, h⟩ := Option.bind_eq_some_iff.mp h
    cases sohPos with
    | none => cases h
    | some pos =>
      obtain ⟨sohPos, -, h⟩ := Option.bind_eq_some_iff.mp h
      cases sohPos with
      | none => cases h
      | some pos' =>
        simp only [Option.bind_eq_bind, Option.bind_eq_some_iff] at h
        obtain ⟨lenBytes, -, bodyLen, -, h⟩ := h
        exact cutMsg_msg h

namespace Connection

/-! ### What a step can do -/

variable {c c' : Connection}

lemma recv_eq_some {chunk : List Byte} (h : c.recv chunk = some c') :
    (c.phase = .receiving ∧ 0 ≤ c.recvBufTail ∧ chunk ≠ [] ∧ chunk.length ≤ socketRecvWindows) ∧
      c' = { c with
        recvBuf := write c.recvBuf c.recvBufTail.toNat chunk
        recvBufTail := c.recvBufTail + chunk.length
        phase := .cutting } := by
  unfold recv at h
  split at h
  · next hok => exact ⟨hok, (Option.some.inj h).symm⟩
  · cases h

lemma accept_eq_some {tempBuf : List Byte} (h : c.accept tempBuf = some c') :
    (c.acceptor ∧ c.phase = .down ∧ 0 ≤ c.saved.2 ∧ tempBuf.length ≤ acceptBufSize) ∧
      c' = { c with
        recvBuf := write c.recvBuf c.saved.2.toNat tempBuf
        recvBufHead := c.saved.1
        recvBufTail := c.saved.2 + tempBuf.length
        phase := .starting } := by
  unfold accept at h
  split at h
  · next hok => exact ⟨hok, (Option.some.inj h).symm⟩
  · cases h

/-- One round of cutting: everything is cut, a message is refused, or one is put. -/
lemma round_cases (h : c.round = some c') :
    (c.phase = .starting ∨ c.phase = .cutting) ∧
      ((nextMsg c.fixVersionLen c.allocated c.recvBufHead c.recvBufTail = some .wait ∧
          c' = c.allCut) ∨
        (nextMsg c.fixVersionLen c.allocated c.recvBufHead c.recvBufTail = some .noSeq ∧
          c' = c.reject) ∨
        ∃ m msgLen, nextMsg c.fixVersionLen c.allocated c.recvBufHead c.recvBufTail =
            some (.msg m msgLen) ∧ c.putMsg m msgLen = some c') := by
  unfold round at h
  split at h
  · next hphase =>
    refine ⟨hphase, ?_⟩
    cases hnext : nextMsg c.fixVersionLen c.allocated c.recvBufHead c.recvBufTail with
    | none =>
      rw [hnext] at h
      cases h
    | some r =>
      rw [hnext] at h
      cases r with
      | wait => exact Or.inl ⟨rfl, (Option.some.inj h).symm⟩
      | noSeq => exact Or.inr (Or.inl ⟨rfl, (Option.some.inj h).symm⟩)
      | msg m msgLen => exact Or.inr (Or.inr ⟨m, msgLen, rfl, h⟩)
  · cases h

/-- The parts of a connection that only its own thread changes. -/
structure SameBuf (c c' : Connection) : Prop where
  acceptor : c'.acceptor = c.acceptor
  recvBuf : c'.recvBuf = c.recvBuf
  recvBufSize : c'.recvBufSize = c.recvBufSize
  recvBufHead : c'.recvBufHead = c.recvBufHead
  recvBufTail : c'.recvBufTail = c.recvBufTail
  saved : c'.saved = c.saved
  phase : c'.phase = c.phase
  slots : c'.slots = c.slots

lemma deliver_sameBuf {a : Delivery.Act} (h : c.deliver a = some c') :
    SameBuf c c' ∧ c'.reading = c.reading ∧ Delivery.step c.delivery a = some c'.delivery := by
  obtain ⟨d, hd, rfl⟩ := Option.map_eq_some_iff.mp h
  exact ⟨⟨rfl, rfl, rfl, rfl, rfl, rfl, rfl, rfl⟩, rfl, hd⟩

lemma putMsg_eq_some {m : RMessage} {msgLen : ℤ} (h : c.putMsg m msgLen = some c') :
    ∃ d, Delivery.step c.delivery (.put m) = some d ∧ c' = { c with
      delivery := d
      slots := if (c.delivery.queue.msgsRecv (m.seq % c.delivery.queue.qSize)).seq ≥ m.seq then
          c.slots
        else Function.update c.slots (m.seq % c.delivery.queue.qSize)
          (c.recvBufHead.toNat, msgLen.toNat)
      recvBufHead := c.recvBufHead + msgLen } := by
  obtain ⟨d, hd, rfl⟩ := Option.map_eq_some_iff.mp h
  exact ⟨d, hd, rfl⟩

lemma consumer_sameBuf {a : Act} (h : c.step a = some c')
    (ha : (∃ cur n, a = .updateSeq cur n) ∨ (∃ ts, a = .wait ts) ∨ a = .get ∨ a = .reset) :
    SameBuf c c' := by
  obtain ⟨cur, n, rfl⟩ | ⟨ts, rfl⟩ | rfl | rfl := ha
  · exact (deliver_sameBuf h).1
  · exact (deliver_sameBuf h).1
  · obtain ⟨c₁, h₁, rfl⟩ := Option.map_eq_some_iff.mp h
    obtain ⟨h1, h2, h3, h4, h5, h6, h7, h8⟩ := (deliver_sameBuf h₁).1
    exact ⟨h1, h2, h3, h4, h5, h6, h7, h8⟩
  · obtain ⟨c₁, h₁, rfl⟩ := Option.map_eq_some_iff.mp h
    obtain ⟨h1, h2, h3, h4, h5, h6, h7, h8⟩ := (deliver_sameBuf h₁).1
    exact ⟨h1, h2, h3, h4, h5, h6, h7, h8⟩

end Connection

end Ufix.RecvBuf
