import Ufix.Framing
import Ufix.InTurn
import Ufix.PendingBytes
import Ufix.RecvBound

/-!
The stream of a connection through the receive buffer, and from there to the application.

The buffer is finite and starts over at the front, the queue holds pointers into it, and the
application reads through them. While nothing that is still to be read is written over, the
application reads the messages of the stream one after the other, for as long as the connection
lasts.
-/

namespace Ufix.BufferStream

open Ufix.Memory Ufix.Runs Ufix.Framing Ufix.Decimal Ufix.InTurn
open Ufix.RecvBuf Ufix.RecvBuf.Connection
open Ufix.PendingBytes (Live regionBytes Spares)

/-- The receiver and the consumer of a connection, with the bytes that `recv` gave, and with the
numbers and the bytes of the messages the application is done with. -/
structure Reader where
  conn : Connection
  received : List Byte
  read : List (ℕ × List Byte)

/-- What the application finds where the message it works on should be. -/
def beingRead (c : Connection) : List (ℕ × List Byte) :=
  c.reading.toList.map fun i => ((c.delivery.queue.msgsRecv i).seq, regionBytes c i)

def step (l : Reader) : RecvBuf.Act → Option Reader
  | .recv chunk => (l.conn.step (.recv chunk)).map fun c => ⟨c, l.received ++ chunk, l.read⟩
  | .reset => (l.conn.step .reset).map fun c => ⟨c, l.received, l.read ++ beingRead l.conn⟩
  | a => (l.conn.step a).map fun c => ⟨c, l.received, l.read⟩

/-- A connection whose queue stands at `seq`. -/
def start (n size qSize : ℕ) (seq : UInt64) (mem : ℕ → Byte) : Reader :=
  ⟨.new false n size qSize seq mem, [], []⟩

def unread (c : Connection) : List Byte :=
  Memory.read c.recvBuf c.recvBufHead.toNat (c.recvBufTail - c.recvBufHead).toNat

instance (c : Connection) (i : ℕ) : Decidable (Live c i) :=
  inferInstanceAs (Decidable ((_ ∧ _) ∨ _))

/-- The condition on a step: the bytes are those of the peer's stream, they end in front of the end
of the memory, and no write reaches a message still to be read. The connection stays. -/
def Undisturbed (stream : List Byte) (l : Reader) : RecvBuf.Act → Prop
  | .recv chunk => l.received ++ chunk <+: stream ∧
      l.conn.recvBufTail + chunk.length < l.conn.recvBufSize + socketRecvWindows ∧
      ∀ i < l.conn.delivery.queue.qSize, Live l.conn i →
        l.conn.recvBufTail ≤ (l.conn.slots i).1 →
          l.conn.recvBufTail + chunk.length ≤ (l.conn.slots i).1
  | .round => l.conn.phase = .cutting → l.conn.recvBufSize < l.conn.recvBufTail →
      nextMsg l.conn.fixVersionLen l.conn.allocated l.conn.recvBufHead l.conn.recvBufTail =
        some .wait →
          ∀ i < l.conn.delivery.queue.qSize, Live l.conn i →
            l.conn.recvBufTail - l.conn.recvBufHead ≤ (l.conn.slots i).1
  | .wait _ | .get | .reset => True
  | .lost | .stop | .accept _ | .updateSeq _ _ => False

instance (stream : List Byte) (l : Reader) : DecidablePred (Undisturbed stream l)
  | .recv _ => inferInstanceAs (Decidable (_ ∧ _ ∧ _))
  | .round => inferInstanceAs (Decidable (_ → _ → _ → _))
  | .wait _ | .get | .reset => inferInstanceAs (Decidable True)
  | .lost | .stop | .accept _ | .updateSeq _ _ => inferInstanceAs (Decidable False)

/-! ### The messages of the stream -/

variable {n : ℕ}

/-- Messages numbered one after the other behind `seq`. -/
structure InSequence (seq : ℕ) (ms : List (FixMessage n)) : Prop where
  number : ∀ k m, ms[k]? = some m → value m.seq = seq + k + 1
  bound : seq + ms.length + 1 < 2 ^ 64
  int : ∀ m ∈ ms, m.bytes.length < 2 ^ 31

def entry (m : FixMessage n) : ℕ × List Byte := (value m.seq, m.bytes)

/-- What `process_new_data` makes of the message numbered `k`. -/
def msgAt (seq : ℕ) (ms : List (FixMessage n)) (k : ℕ) : RMessage :=
  (ms[k - (seq + 1)]?.map fun m => RMessage.new m.bytes m.msgTypePos k).getD (.new [] 0 k)

lemma numbered (seq : ℕ) (ms : List (FixMessage n)) : Numbered (msgAt seq ms) := by
  intro k
  unfold msgAt
  cases ms[k - (seq + 1)]? <;> exact ⟨rfl, rfl⟩

lemma InSequence.msgAt_eq {seq k : ℕ} {ms : List (FixMessage n)} (h : InSequence seq ms)
    {m : FixMessage n} (hm : ms[k]? = some m) : msgAt seq ms (seq + 1 + k) = m.received := by
  have hvalue := h.number k m hm
  have hlt := (List.getElem?_eq_some_iff.mp hm).1
  have hbound := h.bound
  have hnum : ulong (value m.seq) = seq + 1 + k := by
    rw [ulong_of_lt (by omega), hvalue]
    omega
  rw [msgAt, Nat.add_sub_cancel_left, hm, FixMessage.received, hnum]
  rfl

/-! ### The invariant -/

/-- What was received is cut into messages up to the head, and the application has read all of them
but those in the queue. -/
structure Inv (seq : ℕ) (ms : List (FixMessage n)) (l : Reader) : Prop where
  bytes : PendingBytes.Inv l.conn
  version : l.conn.fixVersionLen = n
  inside : l.conn.recvBufTail < l.conn.recvBufSize + socketRecvWindows
  phase : l.conn.phase = .receiving ∨ l.conn.phase = .cutting
  source : l.received <+: stream ms
  cut : ∃ done todo, ms = done ++ todo ∧ l.conn.delivery.queue.tailSeq = seq + done.length ∧
    l.received = stream done ++ unread l.conn ∧
    (l.conn.phase = .receiving → Unfinished (unread l.conn) todo)
  steady : Steady (msgAt seq ms) l.conn.delivery
  reading : l.conn.reading = l.conn.delivery.taken
  count : seq + 1 + l.read.length = first l.conn.delivery
  read : l.read <+: ms.map entry

variable {seq : ℕ} {ms : List (FixMessage n)} {l l' : Reader} {c : Connection}

lemma allocated_eq (h : PendingBytes.Inv c) :
    c.allocated = Memory.read c.recvBuf 0 c.recvBufHead.toNat ++ (unread c ++
      Memory.read c.recvBuf c.recvBufTail.toNat
        (c.recvBufSize + socketRecvWindows - c.recvBufTail.toNat)) := by
  have hhead := h.head
  have horder := h.order
  have halloc := h.allocated
  have hsize : c.recvBufSize + socketRecvWindows = c.recvBufHead.toNat +
      ((c.recvBufTail - c.recvBufHead).toNat +
        (c.recvBufSize + socketRecvWindows - c.recvBufTail.toNat)) := by omega
  have htail : c.recvBufHead.toNat + (c.recvBufTail - c.recvBufHead).toNat =
      c.recvBufTail.toNat := by omega
  rw [allocated, hsize, read_add, read_add, Nat.zero_add, htail, unread]
  congr 3
  omega

lemma unread_length (h : PendingBytes.Inv c) :
    (unread c).length = c.recvBufTail - c.recvBufHead := by
  have horder := h.order
  rw [unread, read_length]
  omega

/-- **What the next round comes to**: it waits for more of a message, or it finds the next one. -/
lemma nextMsg_unread (h : PendingBytes.Inv c) (hversion : c.fixVersionLen = n)
    (hinside : c.recvBufTail < c.recvBufSize + socketRecvWindows) {todo : List (FixMessage n)}
    (hbegin : unread c <+: stream todo) (hint : ∀ m ∈ todo, m.bytes.length < 2 ^ 31) :
    (nextMsg c.fixVersionLen c.allocated c.recvBufHead c.recvBufTail = some .wait ∧
      Unfinished (unread c) todo) ∨
    ∃ m todo', todo = m :: todo' ∧ m.bytes <+: unread c ∧
      nextMsg c.fixVersionLen c.allocated c.recvBufHead c.recvBufTail =
        some (.msg m.received m.bytes.length) := by
  have hmem := allocated_eq h
  have hlen := unread_length h
  have hhead := h.head
  have hpre : c.recvBufHead = (Memory.read c.recvBuf 0 c.recvBufHead.toNat).length := by
    rw [read_length]
    omega
  have hstale : Memory.read c.recvBuf c.recvBufTail.toNat
      (c.recvBufSize + socketRecvWindows - c.recvBufTail.toNat) ≠ [] := by
    intro hnil
    have := congrArg List.length hnil
    rw [read_length, List.length_nil] at this
    omega
  obtain ⟨done, todo', part, rfl, hdata, hpart⟩ := exists_unfinished hbegin
  rw [hversion]
  cases done with
  | nil =>
    refine Or.inl ⟨?_, hdata ▸ hpart⟩
    rw [show stream ([] : List (FixMessage n)) = [] from rfl, List.nil_append] at hdata
    cases todo' with
    | nil =>
      obtain rfl : part = [] := hpart
      rw [hdata, List.length_nil] at hlen
      rw [nextMsg, if_pos (by omega)]
    | cons m todo' =>
      obtain ⟨p, hp, rfl⟩ := hpart
      rw [hdata] at hmem hlen
      rw [List.length_take, Nat.min_eq_left hp.le] at hlen
      exact m.nextMsg_partial hmem hstale hpre hp (by omega) (hint m (by simp))
  | cons m done =>
    refine Or.inr ⟨m, done ++ todo', rfl, ?_, ?_⟩
    · rw [hdata, stream_cons, List.append_assoc]
      exact List.prefix_append _ _
    · rw [hdata, stream_cons, List.append_assoc, List.append_assoc] at hmem
      have hle := congrArg List.length hdata
      rw [stream_cons, List.length_append, List.length_append] at hle
      exact m.nextMsg_complete hmem hpre (by omega) (hint m (by simp))

lemma Inv.unread_begins (h : Inv seq ms l) {done todo : List (FixMessage n)}
    (hms : ms = done ++ todo) (hdata : l.received = stream done ++ unread l.conn) :
    unread l.conn <+: stream todo := by
  have hsource := h.source
  rw [hdata, hms, stream_append] at hsource
  exact (List.prefix_append_right_inj _).mp hsource

lemma Inv.live_lt (h : Inv seq ms l) {i : ℕ} (hi : Live l.conn i) :
    i < l.conn.delivery.queue.qSize := by
  by_contra hle
  rcases hi with ⟨hempty, -⟩ | hreading
  · have hzero := h.steady.outside i (by omega)
    simp [RecvQueue.isEmpty, RMessage.isEmpty, hzero] at hempty
  · rw [h.reading] at hreading
    have := Nat.mod_lt l.conn.delivery.queue.headSeq h.steady.size
    have := (h.steady.taken i hreading).1
    omega

/-! ### What a step does -/

lemma unread_recv (h : PendingBytes.Inv c) (chunk : List Byte) :
    Memory.read (write c.recvBuf c.recvBufTail.toNat chunk) c.recvBufHead.toNat
        (c.recvBufTail + chunk.length - c.recvBufHead).toNat = unread c ++ chunk := by
  have hhead := h.head
  have horder := h.order
  have hlen : (c.recvBufTail + chunk.length - c.recvBufHead).toNat =
      (c.recvBufTail - c.recvBufHead).toNat + chunk.length := by omega
  have htail : c.recvBufHead.toNat + (c.recvBufTail - c.recvBufHead).toNat =
      c.recvBufTail.toNat := by omega
  have hapart : Apart c.recvBufHead.toNat (c.recvBufTail - c.recvBufHead).toNat
      c.recvBufTail.toNat chunk.length := by
    unfold Apart
    omega
  rw [hlen, read_add, htail, read_write_of_apart hapart, read_write, unread]

/-- An undisturbed step spares the messages still to be read. -/
lemma Inv.spares (h : Inv seq ms l) (hms : InSequence seq ms) {a : RecvBuf.Act}
    (hok : Undisturbed (stream ms) l a) : Spares l.conn a := by
  cases a with
  | recv chunk =>
    obtain ⟨-, hinside, hspares⟩ := hok
    exact ⟨hinside.le, fun i hi => hspares i (h.live_lt hi) hi⟩
  | round =>
    refine ⟨fun h1 h2 h3 i hi => hok h1 h2 h3 i (h.live_lt hi) hi, fun m msgLen hnext => ?_⟩
    obtain ⟨done, todo, hsplit, -, hdata, -⟩ := h.cut
    have hint : ∀ m ∈ todo, m.bytes.length < 2 ^ 31 := fun m hm =>
      hms.int m (by rw [hsplit]; exact List.mem_append_right _ hm)
    rcases nextMsg_unread h.bytes h.version h.inside (h.unread_begins hsplit hdata) hint with
      ⟨hwait, -⟩ | ⟨m', todo', -, -, hmsg⟩
    · rw [hwait] at hnext
      cases hnext
    · rw [hmsg] at hnext
      cases hnext
      exact Int.natCast_nonneg _
  | accept tempBuf => exact hok.elim
  | _ => trivial

lemma Inv.recv (h : Inv seq ms l) (hms : InSequence seq ms) {chunk : List Byte}
    (hok : Undisturbed (stream ms) l (.recv chunk)) (hs : step l (.recv chunk) = some l') :
    Inv seq ms l' := by
  have hspares := h.spares hms hok
  obtain ⟨hsource, hinside, -⟩ := hok
  obtain ⟨c, hc, rfl⟩ := Option.map_eq_some_iff.mp hs
  have hbytes := h.bytes.step hspares hc
  obtain ⟨-, rfl⟩ := recv_eq_some hc
  obtain ⟨done, todo, hms, htail, hdata, -⟩ := h.cut
  refine ⟨hbytes, h.version, hinside, Or.inr rfl, hsource, ⟨done, todo, hms, htail, ?_, ?_⟩,
    h.steady, h.reading, h.count, h.read⟩
  · rw [hdata, List.append_assoc]
    exact congrArg _ (unread_recv h.bytes chunk).symm
  · exact fun hphase => absurd hphase (by simp)

lemma allCut_unread (h : PendingBytes.Inv c) : unread c.allCut = unread c := by
  unfold allCut
  split_ifs
  · have hlen := unread_length h
    have hmove : Memory.read (write c.recvBuf 0 (unread c)) 0 (unread c).length = unread c :=
      read_write _ _ _
    have hsize : (c.recvBufTail - c.recvBufHead - 0).toNat = (unread c).length := by omega
    exact (congrArg _ hsize).trans hmove
  · rfl

lemma allCut_same (c : Connection) : c.allCut.delivery = c.delivery ∧ c.allCut.reading = c.reading ∧
    c.allCut.phase = .receiving ∧ c.allCut.fixVersionLen = c.fixVersionLen := by
  unfold allCut
  split_ifs <;> exact ⟨rfl, rfl, rfl, rfl⟩

lemma unread_cut (h : PendingBytes.Inv c) {b rest : List Byte} (hdata : unread c = b ++ rest) :
    Memory.read c.recvBuf (c.recvBufHead + b.length).toNat
      (c.recvBufTail - (c.recvBufHead + b.length)).toNat = rest := by
  have hhead := h.head
  have hlen := unread_length h
  rw [hdata, List.length_append] at hlen
  have hsplit : (c.recvBufTail - c.recvBufHead).toNat = b.length + rest.length := by omega
  have hpos : (c.recvBufHead + b.length).toNat = c.recvBufHead.toNat + b.length := by omega
  have hrest : (c.recvBufTail - (c.recvBufHead + b.length)).toNat = rest.length := by omega
  rw [unread, hsplit, read_add] at hdata
  rw [hpos, hrest]
  exact (List.append_inj hdata (read_length _ _ _)).2

lemma Inv.round (h : Inv seq ms l) (hms : InSequence seq ms)
    (hok : Undisturbed (stream ms) l .round) (hs : step l .round = some l') : Inv seq ms l' := by
  obtain ⟨c, hc, rfl⟩ := Option.map_eq_some_iff.mp hs
  obtain ⟨done, todo, hsplit, htail, hdata, hunfinished⟩ := h.cut
  have hbegin := h.unread_begins hsplit hdata
  have hint : ∀ m ∈ todo, m.bytes.length < 2 ^ 31 := fun m hm =>
    hms.int m (by rw [hsplit]; exact List.mem_append_right _ hm)
  have hcases := nextMsg_unread h.bytes h.version h.inside hbegin hint
  have hbytes := h.bytes.step (h.spares hms hok) hc
  obtain ⟨-, ⟨hwait, rfl⟩ | ⟨hnoSeq, -⟩ | ⟨m, msgLen, hnext, hput⟩⟩ := round_cases hc
  · -- the rest waits for more
    obtain ⟨hsame, hreading, hphase, hversion⟩ := allCut_same l.conn
    have hunread := allCut_unread h.bytes
    have hpart : Unfinished (unread l.conn) todo := by
      rcases hcases with ⟨-, hpart⟩ | ⟨m', todo', -, -, hmsg⟩
      · exact hpart
      · rw [hmsg] at hwait
        cases hwait
    refine ⟨hbytes, hversion.trans h.version, ?_, Or.inl hphase, h.source,
      ⟨done, todo, hsplit, ?_, ?_, fun _ => ?_⟩, ?_, ?_, ?_, h.read⟩
    · obtain ⟨-, -, hsize, -, htail'⟩ := RecvBound.allCut_spec l.conn
      have hinside := h.inside
      have hhead := h.bytes.head
      simp only [hsize, htail']
      split <;> omega
    · simp only [hsame]
      exact htail
    · simp only [hunread]
      exact hdata
    · simp only [hunread]
      exact hpart
    · simp only [hsame]
      exact h.steady
    · simp only [hsame, hreading]
      exact h.reading
    · simp only [hsame]
      exact h.count
  · -- every message has a number
    rcases hcases with ⟨hwait, -⟩ | ⟨m', todo', -, -, hmsg⟩
    · rw [hwait] at hnoSeq
      cases hnoSeq
    · rw [hmsg] at hnoSeq
      cases hnoSeq
  · rcases hcases with ⟨hwait, -⟩ | ⟨m', todo', rfl, ⟨rest, hrest⟩, hmsg⟩
    · rw [hwait] at hnext
      cases hnext
    rw [hmsg] at hnext
    cases hnext
    obtain ⟨d, hd, rfl⟩ := putMsg_eq_some hput
    have hat : ms[done.length]? = some m' := by
      rw [hsplit, List.getElem?_append_right le_rfl, Nat.sub_self]
      rfl
    have hm : m'.received = msgAt seq ms (l.conn.delivery.queue.tailSeq + 1) := by
      rw [htail, Nat.add_right_comm, hms.msgAt_eq hat]
    rw [hm] at hd
    obtain ⟨hsteady, htail', hhead', htaken'⟩ := h.steady.put (numbered seq ms) hd
    refine ⟨hbytes, h.version, h.inside, h.phase, h.source,
      ⟨done ++ [m'], todo', by rw [hsplit, List.append_assoc]; rfl, ?_, ?_, fun hphase => ?_⟩,
      hsteady, h.reading.trans htaken'.symm, ?_, h.read⟩
    · rw [List.length_append, List.length_singleton, ← Nat.add_assoc, ← htail]
      exact htail'
    · have hcut := unread_cut h.bytes hrest.symm
      change l.received = stream (done ++ [m']) ++ Memory.read l.conn.recvBuf
        (l.conn.recvBufHead + m'.bytes.length).toNat
        (l.conn.recvBufTail - (l.conn.recvBufHead + m'.bytes.length)).toNat
      rw [hcut, hdata, ← hrest, stream_append, List.append_assoc]
      simp [stream]
    · -- a thread that receives does not cut
      obtain ⟨hphase', -⟩ := round_cases hc
      change l.conn.phase = .receiving at hphase
      rw [hphase] at hphase'
      rcases hphase' with hphase' | hphase' <;> cases hphase'
    · have hfirst : first d = first l.conn.delivery := by
        unfold first
        rw [htaken', hhead']
      exact h.count.trans hfirst.symm

lemma unread_sameBuf {c' : Connection} (h : SameBuf c c') : unread c' = unread c := by
  rw [unread, h.recvBuf, h.recvBufHead, h.recvBufTail, unread]

/-- A step of the consumer on the queue. -/
lemma Inv.consume (h : Inv seq ms l) {c : Connection} (hbytes : PendingBytes.Inv c)
    (hsame : SameBuf l.conn c) (hversion : c.fixVersionLen = l.conn.fixVersionLen)
    (htail : c.delivery.queue.tailSeq = l.conn.delivery.queue.tailSeq)
    (hsteady : Steady (msgAt seq ms) c.delivery) (hreading : c.reading = c.delivery.taken)
    {read : List (ℕ × List Byte)} (hcount : seq + 1 + read.length = first c.delivery)
    (hread : read <+: ms.map entry) : Inv seq ms ⟨c, l.received, read⟩ := by
  obtain ⟨done, todo, hsplit, htail', hdata, hunfinished⟩ := h.cut
  have hunread := unread_sameBuf hsame
  refine ⟨hbytes, hversion.trans h.version, ?_, ?_, h.source,
    ⟨done, todo, hsplit, htail.trans htail', ?_, fun hphase => ?_⟩, hsteady, hreading, hcount,
    hread⟩
  · change c.recvBufTail < c.recvBufSize + socketRecvWindows
    rw [hsame.recvBufTail, hsame.recvBufSize]
    exact h.inside
  · change c.phase = .receiving ∨ c.phase = .cutting
    rw [hsame.phase]
    exact h.phase
  · exact hdata.trans (congrArg _ hunread.symm)
  · change c.phase = .receiving at hphase
    rw [hsame.phase] at hphase
    rw [hunread]
    exact hunfinished hphase

lemma Inv.wait (h : Inv seq ms l) {ts : ℤ} (hs : step l (.wait ts) = some l') : Inv seq ms l' := by
  obtain ⟨c, hc, rfl⟩ := Option.map_eq_some_iff.mp hs
  obtain ⟨hsame, hreading, hd⟩ := deliver_sameBuf hc
  have hd' := h.steady.wait (numbered seq ms) hd
  have hversion : c.fixVersionLen = l.conn.fixVersionLen := by
    obtain ⟨d, -, rfl⟩ := Option.map_eq_some_iff.mp hc
    rfl
  refine h.consume (h.bytes.step (a := .wait ts) trivial hc) hsame hversion (by rw [hd']) ?_ ?_ ?_
    h.read
  · rw [hd']
    exact h.steady
  · rw [hreading, hd']
    exact h.reading
  · rw [hd']
    exact h.count

lemma Inv.get (h : Inv seq ms l) (hs : step l .get = some l') : Inv seq ms l' := by
  obtain ⟨c, hc, rfl⟩ := Option.map_eq_some_iff.mp hs
  have hsame := consumer_sameBuf hc (Or.inr (Or.inr (Or.inl rfl)))
  have hbytes := h.bytes.step (a := .get) trivial hc
  obtain ⟨c₁, h₁, rfl⟩ := Option.map_eq_some_iff.mp hc
  obtain ⟨d, hd, rfl⟩ := Option.map_eq_some_iff.mp h₁
  obtain ⟨hsteady, htail, hhead, htaken, i, hi, hslot⟩ := h.steady.get (numbered seq ms) hd
  refine h.consume hbytes hsame rfl htail hsteady ?_ ?_ h.read
  · -- the message is no gap fill
    have hgf : (d.queue.msgsRecv i).isGf = false := by
      rw [hslot, RMessage.isGf, (numbered seq ms _).2]
      rfl
    change d.taken.filter (fun i => !(d.queue.msgsRecv i).isGf) = d.taken
    rw [hi, Option.filter_some, hgf]
    rfl
  · change _ = first d
    rw [first_of_some hi, hhead, h.count, first_of_none htaken]

lemma Inv.reset (h : Inv seq ms l) (hms : InSequence seq ms) (hs : step l .reset = some l') :
    Inv seq ms l' := by
  obtain ⟨c, hc, rfl⟩ := Option.map_eq_some_iff.mp hs
  have hsame := consumer_sameBuf hc (Or.inr (Or.inr (Or.inr rfl)))
  have hbytes := h.bytes.step (a := .reset) trivial hc
  obtain ⟨c₁, h₁, rfl⟩ := Option.map_eq_some_iff.mp hc
  obtain ⟨d, hd, rfl⟩ := Option.map_eq_some_iff.mp h₁
  obtain ⟨hsteady, htail, hhead, htaken⟩ := h.steady.reset hd
  obtain ⟨i, hi⟩ : ∃ i, l.conn.delivery.taken = some i := by
    obtain ⟨i, hi, -⟩ := Option.map_eq_some_iff.mp hd
    exact ⟨i, hi⟩
  have hfirst := first_of_some hi
  have hcount := h.count
  obtain ⟨done, todo, hsplit, htail', -, -⟩ := h.cut
  have horder := h.steady.order
  have hlt : l.read.length < ms.length := by
    rw [hsplit, List.length_append]
    omega
  have hat : ms[l.read.length]? = some ms[l.read.length] := List.getElem?_eq_getElem hlt
  -- the message is there as it was received
  have hslot : l.conn.delivery.queue.msgsRecv i = (ms[l.read.length]).received := by
    obtain ⟨rfl, -⟩ := h.steady.taken i hi
    rw [h.steady.held _ hfirst.le horder, ← hms.msgAt_eq hat]
    congr 1
    omega
  have hintact : regionBytes l.conn i = (l.conn.delivery.queue.msgsRecv i).data :=
    h.bytes.intact i (Or.inr (h.reading.trans hi))
  have hnumber : ulong (value (ms[l.read.length]).seq) = value (ms[l.read.length]).seq := by
    have hbound := hms.bound
    have hvalue := hms.number _ _ hat
    exact ulong_of_lt (by omega)
  have hbeing : beingRead l.conn = [entry ms[l.read.length]] := by
    rw [beingRead, h.reading, hi]
    simp only [Option.toList_some, List.map_cons, List.map_nil, hintact, hslot]
    simp only [FixMessage.received, RMessage.new, hnumber, entry]
  refine h.consume hbytes hsame rfl htail hsteady htaken.symm ?_ ?_
  · change _ = first d
    rw [hbeing, List.length_append, List.length_singleton, first_of_none htaken, hhead]
    omega
  · obtain ⟨rest, hrest⟩ := h.read
    have hlen : l.read.length < (ms.map entry).length := by rwa [List.length_map]
    have htake : l.read = (ms.map entry).take l.read.length := by rw [← hrest, List.take_left]
    have hnext : l.read ++ [entry ms[l.read.length]] = (ms.map entry).take (l.read.length + 1) := by
      rw [List.take_add_one, List.getElem?_map, hat, ← htake]
      rfl
    rw [hbeing, hnext]
    exact List.take_prefix _ _

/-- **A step keeps the invariant.** -/
lemma step_inv {a : RecvBuf.Act} (hms : InSequence seq ms) (h : Inv seq ms l)
    (hok : Undisturbed (stream ms) l a) (hs : step l a = some l') : Inv seq ms l' := by
  cases a with
  | recv chunk => exact h.recv hms hok hs
  | round => exact h.round hms hok hs
  | wait ts => exact h.wait hs
  | get => exact h.get hs
  | reset => exact h.reset hms hs
  | lost => exact hok.elim
  | stop => exact hok.elim
  | accept tempBuf => exact hok.elim
  | updateSeq cur new => exact hok.elim

/-! ### Runs -/

lemma exists_step {a : RecvBuf.Act} (hs : l.conn.step a = some c) :
    ∃ l', step l a = some l' ∧ l'.conn = c := by
  cases a <;> simp [step, hs]

lemma meets_spares (hms : InSequence seq ms) (h : Inv seq ms l) {acts : List RecvBuf.Act}
    (hok : Meets step (Undisturbed (stream ms)) l acts) :
    Meets Connection.step Spares l.conn acts := by
  induction acts generalizing l with
  | nil => trivial
  | cons a acts ih =>
    intro c hc
    obtain ⟨l', hs, rfl⟩ := exists_step hc
    obtain ⟨ha, hrest⟩ := hok l' hs
    exact ⟨h.spares hms ha, ih (step_inv hms h ha hs) hrest⟩

lemma start_inv {size qSize : ℕ} (hsize : 0 < qSize) {seq : UInt64} {ms : List (FixMessage n)}
    (hms : InSequence seq.toNat ms) (mem : ℕ → Byte) :
    Inv seq.toNat ms (start n size qSize seq mem) := by
  refine ⟨PendingBytes.inv_new _ _ _ _ _ _, rfl, ?_, Or.inl rfl, List.nil_prefix,
    ⟨[], ms, rfl, rfl, rfl, fun _ => ?_⟩, start_steady hsize ?_, rfl, rfl, List.nil_prefix⟩
  · change (0 : ℤ) < size + socketRecvWindows
    have : 0 < socketRecvWindows := by decide
    omega
  · cases ms with
    | nil => rfl
    | cons m ms => exact ⟨0, by rw [m.bytes_length]; exact Nat.add_pos_right _ (by decide), rfl⟩
  · have hbound := hms.bound
    omega

lemma Inv.consumer_rest (h : Inv seq ms l) (hget : step l .get = none)
    (hreset : step l .reset = none) :
    l.conn.delivery.taken = none ∧
      l.conn.delivery.queue.headSeq = l.conn.delivery.queue.tailSeq := by
  have htaken : l.conn.delivery.taken = none := by
    simp only [step, Connection.step, deliver, Delivery.step, Option.map_eq_none_iff] at hreset
    exact hreset
  refine ⟨htaken, le_antisymm h.steady.order ?_⟩
  by_contra hlt
  have hsome := h.steady.get_isSome (numbered seq ms) htaken (by omega)
  simp only [step, Connection.step, Connection.get, deliver, Option.map_eq_none_iff] at hget
  rw [hget] at hsome
  cases hsome

/-- The receiver is blocked only while the queue is full. -/
lemma Inv.receiver_rest (h : Inv seq ms l) (hms : InSequence seq ms)
    (hround : step l .round = none) (htaken : l.conn.delivery.taken = none)
    (hempty : l.conn.delivery.queue.headSeq = l.conn.delivery.queue.tailSeq) :
    l.conn.phase = .receiving := by
  refine h.phase.resolve_right fun hcutting => ?_
  obtain ⟨done, todo, hsplit, htail, hdata, -⟩ := h.cut
  have hint : ∀ m ∈ todo, m.bytes.length < 2 ^ 31 := fun m hm =>
    hms.int m (by rw [hsplit]; exact List.mem_append_right _ hm)
  simp only [step, Connection.step, Connection.round, hcutting, or_true, if_true,
    Option.map_eq_none_iff] at hround
  rcases nextMsg_unread h.bytes h.version h.inside (h.unread_begins hsplit hdata) hint with
    ⟨hwait, -⟩ | ⟨m, todo', rfl, -, hmsg⟩
  · rw [hwait] at hround
    cases hround
  · have hat : ms[done.length]? = some m := by
      rw [hsplit, List.getElem?_append_right le_rfl, Nat.sub_self]
      rfl
    have hm : m.received = msgAt seq ms (l.conn.delivery.queue.tailSeq + 1) := by
      rw [htail, Nat.add_right_comm, hms.msgAt_eq hat]
    have hbound := hms.bound
    have hlen : ms.length = done.length + (todo'.length + 1) := by
      rw [hsplit, List.length_append, List.length_cons]
    have hsize := h.steady.size
    have hfirst := first_of_none htaken
    have hsome := h.steady.put_isSome (numbered seq ms) (by omega) (by omega)
    rw [hmsg, hm] at hround
    simp only [Connection.putMsg, Option.map_eq_none_iff] at hround
    rw [hround] at hsome
    cases hsome

lemma Inv.read_begins (h : Inv seq ms l) {done todo : List (FixMessage n)} {part : List Byte}
    (hmsgs : ms = done ++ todo) (hpart : Unfinished part todo)
    (hbegin : l.received <+: stream done ++ part) : l.read <+: done.map entry := by
  obtain ⟨done', todo', hsplit, htail, hdata, -⟩ := h.cut
  rw [hdata] at hbegin
  have hle : done'.length ≤ done.length :=
    length_le_of_begins (hmsgs.symm.trans hsplit) hpart hbegin
  have hcount := h.count
  have hfirst := first_le l.conn.delivery
  have horder := h.steady.order
  have hread := h.read
  rw [hmsgs, List.map_append] at hread
  refine List.prefix_of_prefix_length_le hread (List.prefix_append _ _) ?_
  rw [List.length_map]
  omega

lemma Inv.read_all (h : Inv seq ms l) (hms : InSequence seq ms) {done todo : List (FixMessage n)}
    {part : List Byte} (hmsgs : ms = done ++ todo) (hpart : Unfinished part todo)
    (hall : l.received = stream done ++ part) (hround : step l .round = none)
    (hget : step l .get = none) (hreset : step l .reset = none) : l.read = done.map entry := by
  obtain ⟨htaken, hempty⟩ := h.consumer_rest hget hreset
  have hphase := h.receiver_rest hms hround htaken hempty
  obtain ⟨done', todo', hsplit, htail, hdata, hunfinished⟩ := h.cut
  obtain rfl : done = done' :=
    done_unique (hmsgs.symm.trans hsplit) (hall.symm.trans hdata) hpart (hunfinished hphase)
  have hcount := h.count
  rw [first_of_none htaken, hempty, htail] at hcount
  refine (h.read_begins hmsgs hpart (by rw [hall])).eq_of_length ?_
  rw [List.length_map]
  omega

/-- **A stream of any length passes through the buffer**: in every interleaving of the receiver
with the consumer in which no write reaches a message still to be read, the application reads the
messages of the stream, each with its own bytes, in order and once; and when the whole stream was
received and neither thread can go on, it has read all of them. -/
theorem run_read {size qSize : ℕ} (hsize : 0 < qSize) {seq : UInt64} {mem : ℕ → Byte}
    {ms : List (FixMessage n)} (hms : InSequence seq.toNat ms) {acts : List RecvBuf.Act}
    (hok : Meets step (Undisturbed (stream ms)) (start n size qSize seq mem) acts) {l : Reader}
    (hr : run step (start n size qSize seq mem) acts = some l) :
    l.read <+: ms.map entry ∧
      (l.received = stream ms → step l .round = none → step l .get = none →
        step l .reset = none → l.read = ms.map entry) := by
  have h : Inv seq.toNat ms l :=
    run_induct (fun l a l' h hok hs => step_inv hms h hok hs) (start_inv hsize hms mem) hok hr
  refine ⟨h.read, fun hall => h.read_all hms (List.append_nil ms).symm rfl ?_⟩
  rw [hall, List.append_nil]

/-! #### An example -/

lemma isDigit_ten : ∀ b ∈ ([49, 48] : List Byte), IsDigit b :=
  List.forall_mem_cons.mpr ⟨by decide, List.forall_mem_singleton.mpr (by decide)⟩

/-- `8=FIX.4.4|9=10|35=0|34=d|10=000|`. -/
def beat (digit : Byte) (h : IsDigit digit) : FixMessage 7 :=
  { heartbeat with
    bodyLen := [49, 48]
    seq := [digit]
    after := []
    bodyLen_digits := isDigit_ten
    bodyLen_length := by decide
    seq_digits := List.forall_mem_singleton.mpr h
    bodyLen_value := rfl }

def beats : List (FixMessage 7) :=
  [beat 49 (by decide), beat 50 (by decide), beat 51 (by decide)]

lemma beats_inSequence : InSequence (0 : UInt64).toNat beats := by
  refine ⟨fun k m hm => ?_, by decide, by decide⟩
  obtain ⟨hlt, rfl⟩ := List.getElem?_eq_some_iff.mp hm
  have hall : ∀ k (h : k < beats.length), value (beats[k]).seq = (0 : UInt64).toNat + k + 1 := by
    decide
  exact hall k hlt

/-- The third message is received where the first one was, while the second waits behind it. -/
def wrappedActs : List RecvBuf.Act :=
  [.recv ((stream beats).take 64), .round, .round, .round, .get, .reset,
    .recv ((stream beats).drop 64), .round, .round, .get, .reset, .get, .reset]

/-- The number and the bytes of what was read, and where the tail came to stand. -/
def outcome (l : Reader) : List (ℕ × List Byte) × ℤ := (l.read, l.conn.recvBufTail)

lemma wrappedActs_ends :
    (run step (start 7 40 4 0 fun _ => 0) wrappedActs).map outcome =
      some (beats.map entry, 32) := by
  decide +kernel

lemma wrappedActs_undisturbed :
    Meets step (Undisturbed (stream beats)) (start 7 40 4 0 fun _ => 0) wrappedActs := by
  decide +kernel

theorem run_read_wrapped :
    ∃ l, run step (start 7 40 4 0 fun _ => 0) wrappedActs = some l ∧ l.read <+: beats.map entry ∧
      l.conn.recvBufTail = 32 := by
  obtain ⟨l, hl, hout⟩ := Option.map_eq_some_iff.mp wrappedActs_ends
  exact ⟨l, hl, (run_read (by decide) beats_inSequence wrappedActs_undisturbed hl).1,
    congrArg Prod.snd hout⟩

/-- All the while the second message stays as it is. -/
theorem always_intact_wrapped :
    Always Connection.step PendingBytes.Intact (.new false 7 40 4 0 fun _ => 0) wrappedActs :=
  PendingBytes.always_intact
    (meets_spares beats_inSequence (start_inv (by decide) beats_inSequence _)
      wrappedActs_undisturbed)

end Ufix.BufferStream
