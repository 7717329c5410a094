import Ufix.QueueBuf

/-!
In which order the messages of a send queue leave it, from whatever file it was recovered.

`get_msg` takes the slot of the head without a look at the number in it, and the bytes that lie
where the slot points. The slots hold the last `q_size` messages, and `add_msg` sees to it that the
head is among them; a recovery does not. Nothing sees to it that the bytes of the head are spared.
-/

namespace Ufix.QueueOrder

open Ufix.Runs Ufix.SendWindow

/-- The queue, whose slots keep what `add_msg` was given, and its buffer, where the bytes lie; what
it accepted with the messages of its file in front, the head and the message that `get_msg` returned
last, and the messages marked as sent. -/
structure State where
  queue : SendQueue
  buf : QueueBuf
  accepted : List (List Byte)
  got : Option (ℕ × SendQueueInfo)
  sent : List SendQueueInfo

inductive Act
  | markSeqSent (seq : ℕ)
  /-- a direct message is written at the position of the queue -/
  | build (data : List Byte)
  | addMsg (data : List Byte)
  | getSentMsg (seq : ℕ)
  | getMsg
  | markMsgSent

def State.head (s : State) : ℕ := s.queue.headDataSeq % s.queue.qSize

/-- `get_msg`: the number in the slot of the head, and the bytes where it points. -/
def State.getMsg (s : State) : Option SendQueueInfo :=
  s.queue.getMsg.map fun info => ⟨info.dataSeq, s.buf.bytes s.head⟩

def step (s : State) : Act → Option State
  | .markSeqSent seq => some { s with queue := s.queue.markSeqSent seq }
  | .build data => some { s with buf := s.buf.build data }
  | .addMsg data =>
    (s.queue.addMsg data).map fun q =>
      { s with
        queue := q
        buf := s.buf.put (s.queue.dataSeq % s.queue.qSize) data
        accepted := s.accepted ++ [data] }
  | .getSentMsg seq => some { s with queue := (s.queue.getSentMsg seq).1 }
  | .getMsg => some { s with got := s.getMsg.map fun info => (s.queue.headDataSeq, info) }
  | .markMsgSent => s.got.map fun g =>
      { s with queue := s.queue.markMsgSent, got := none, sent := s.sent ++ [g.2] }

/-- The queue `recover_data` leaves; `mem` is what the allocated memory held. -/
def start (size reserve avgMsgSize maxMsgSize : ℕ) (mem : ℕ → Byte) (file : List (List Byte)) :
    State where
  queue := .new size reserve file
  buf := .recover size 1 (.new size avgMsgSize maxMsgSize mem) file
  accepted := file
  got := none
  sent := []

/-- Messages stay within the memory allocated, one that is added was built where it is put, if at
all, and the head that is marked is the one that was got. -/
def Keeps (s : State) : Act → Prop
  | .build data => s.buf.Room data.length
  | .addMsg data => s.buf.Takes data.length
  | .markMsgSent => ∀ g ∈ s.got, g.1 = s.queue.headDataSeq
  | _ => True

instance (s : State) : DecidablePred (Keeps s)
  | .build data => inferInstanceAs (Decidable (s.buf.Room data.length))
  | .addMsg data => inferInstanceAs (Decidable (s.buf.Takes data.length))
  | .markMsgSent => inferInstanceAs (Decidable (∀ g ∈ s.got, g.1 = s.queue.headDataSeq))
  | .markSeqSent _ | .getSentMsg _ | .getMsg => inferInstanceAs (Decidable True)

/-- The head is among the last `q_size` messages. -/
def HeadInWindow (q : SendQueue) : Prop := q.dataSeq ≤ q.headDataSeq + q.qSize

instance (q : SendQueue) : Decidable (HeadInWindow q) := inferInstanceAs (Decidable (_ ≤ _))

/-- No later message lies over the bytes of the head. -/
def HeadWhole (s : State) : Prop := QueueBuf.Whole s.queue s.buf s.head

instance (s : State) : Decidable (HeadWhole s) :=
  inferInstanceAs (Decidable (QueueBuf.Whole s.queue s.buf s.head))

def GetsRight (s : State) : Act → Prop
  | .getMsg => HeadInWindow s.queue ∧ HeadWhole s
  | _ => True

instance (s : State) : DecidablePred (GetsRight s)
  | .getMsg => inferInstanceAs (Decidable (HeadInWindow s.queue ∧ HeadWhole s))
  | .build _ | .addMsg _ | .markMsgSent | .markSeqSent _ | .getSentMsg _ =>
    inferInstanceAs (Decidable True)

/-- `info` is message `n` of those accepted. -/
def IsMsg (accepted : List (List Byte)) (n : ℕ) (info : SendQueueInfo) : Prop :=
  info.dataSeq = n ∧ accepted[n - 1]? = some info.data

/-- The bytes of every whole message are the ones that were accepted. -/
def Shown (q : SendQueue) (b : QueueBuf) : Prop :=
  ∀ j, (q.msgsQueue j).dataSeq ≠ 0 → QueueBuf.Whole q b j → b.bytes j = (q.msgsQueue j).data

structure Inv (size : ℕ) (s : State) : Prop where
  window : Window s.queue s.accepted
  qSize : s.queue.qSize = size
  pos : 1 ≤ size
  maxMsgs : s.queue.qMaxMsgs ≤ size
  recover : s.queue.recoverDataSeq ≤ s.queue.dataSeq
  head_pos : 1 ≤ s.queue.headDataSeq
  head_le : s.queue.headDataSeq ≤ s.queue.dataSeq
  got : ∀ g ∈ s.got, g.1 < s.queue.dataSeq
  shown : Shown s.queue s.buf

variable {size : ℕ} {s t : State} {q : SendQueue} {b : QueueBuf}

/-- **What `get_msg` returns** is the message of the head only where the head is in the window, and
it is where the head is whole besides. -/
lemma Inv.getMsg_iff (h : Inv size s) {info : SendQueueInfo} (hg : s.getMsg = some info) :
    (IsMsg s.accepted s.queue.headDataSeq info → HeadInWindow s.queue) ∧
      (HeadWhole s → HeadInWindow s.queue → IsMsg s.accepted s.queue.headDataSeq info) := by
  obtain ⟨slot, hslot, rfl⟩ := Option.map_eq_some_iff.mp hg
  obtain ⟨hne, hslot⟩ := SendQueue.getMsg_eq_some.mp hslot
  have hpos := h.head_pos
  have hle := h.head_le
  have hseq := h.window.dataSeq
  unfold IsMsg HeadInWindow
  constructor
  · rintro ⟨hnum, -⟩
    have hin := h.window.slot s.head
    rw [State.head, hslot] at hin
    simp only at hnum
    have hlt := (hin (by omega)).2.2
    omega
  · intro hwhole hin
    have hget : s.accepted[s.queue.headDataSeq - 1]? =
        some s.accepted[s.queue.headDataSeq - 1] := List.getElem?_eq_getElem (by omega)
    have hheld := h.window.held _ _ hget (by omega)
    rw [Nat.sub_add_cancel hpos] at hheld
    have hshown := h.shown s.head (by rw [State.head, hheld]; exact Nat.ne_of_gt hpos) hwhole
    rw [State.head, hheld] at hshown
    rw [← hslot, hheld, State.head, hshown]
    exact ⟨rfl, hget⟩

/-! ### Steps -/

lemma Inv.moved (h : Inv size s) (hsame : s.queue.SameMsgs q)
    (hle : s.queue.headDataSeq ≤ q.headDataSeq)
    (hhead : q.headDataSeq = s.queue.headDataSeq ∨ q.headDataSeq ≤ s.queue.recoverDataSeq) :
    Inv size { s with queue := q } := by
  have hrecover := h.recover
  refine ⟨h.window.congr hsame, hsame.qSize.trans h.qSize, h.pos, by rw [hsame.qMaxMsgs]; exact
    h.maxMsgs, ?_, h.head_pos.trans hle, ?_, fun g hg => ?_, fun j hj hwhole => ?_⟩
  · simp only [hsame.recoverDataSeq, hsame.dataSeq]
    exact hrecover
  · have := h.head_le
    simp only [hsame.dataSeq]
    omega
  · simp only [hsame.dataSeq]
    exact h.got g hg
  · simp only [hsame.msgsQueue] at hj ⊢
    exact h.shown j hj (hwhole.congr hsame.qSize.symm fun k => by rw [hsame.msgsQueue])

lemma markSeqSent_le (q : SendQueue) (seq : ℕ) :
    q.headDataSeq ≤ (q.markSeqSent seq).headDataSeq ∧
      ((q.markSeqSent seq).headDataSeq = q.headDataSeq ∨
        (q.markSeqSent seq).headDataSeq ≤ q.recoverDataSeq) := by
  rw [SendQueue.markSeqSent_headDataSeq]
  split <;> omega

lemma getSentMsg_le (q : SendQueue) (seq : ℕ) :
    q.headDataSeq ≤ (q.getSentMsg seq).1.headDataSeq ∧
      ((q.getSentMsg seq).1.headDataSeq = q.headDataSeq ∨
        (q.getSentMsg seq).1.headDataSeq ≤ q.recoverDataSeq) := by
  simp only [SendQueue.getSentMsg]
  split
  · split
    · split
      · exact markSeqSent_le q _
      · exact ⟨le_rfl, Or.inl rfl⟩
    · exact markSeqSent_le q _
  · exact markSeqSent_le q _

lemma Shown.put {q q' : SendQueue} {accepted : List (List Byte)} {data : List Byte}
    (h : Shown q b) (hw : Window q accepted) (hpos : 0 < q.qSize) (hsize : q'.qSize = q.qSize)
    (hslots : q'.msgsQueue = Function.update q.msgsQueue (q.dataSeq % q.qSize) ⟨q.dataSeq, data⟩)
    (hbuilt : b.built ≤ data.length) : Shown q' (b.put (q.dataSeq % q.qSize) data) := by
  intro j hj hwhole
  by_cases hnew : j = q.dataSeq % q.qSize
  · subst hnew
    rw [QueueBuf.bytes_put_self, hslots, Function.update_self]
  · rw [hslots, Function.update_of_ne hnew] at hj ⊢
    obtain ⟨hold, hbytes⟩ := hwhole.of_put hw hpos hsize hslots hbuilt hnew hj
    rw [hbytes]
    exact h j hj hold

/-- `add_msg` keeps the head in the window. -/
lemma Inv.addMsg (h : Inv size s) {data : List Byte} (hq : s.queue.addMsg data = some q)
    (hbuilt : s.buf.built ≤ data.length) :
    Inv size { s with
      queue := q
      buf := s.buf.put (s.queue.dataSeq % s.queue.qSize) data
      accepted := s.accepted ++ [data] } ∧ HeadInWindow q := by
  have hpos : 0 < s.queue.qSize := by rw [h.qSize]; exact h.pos
  have hwindow := h.window.addMsg hpos hq
  have hsize := h.qSize
  have hmax := h.maxMsgs
  have hrecover := h.recover
  have hle := h.head_le
  obtain ⟨hroom, rfl⟩ := SendQueue.addMsg_eq_some.mp hq
  refine ⟨⟨hwindow, hsize, h.pos, hmax, by simp only; omega, h.head_pos, by simp only; omega,
    fun g hg => ?_, h.shown.put h.window hpos rfl rfl hbuilt⟩, ?_⟩
  · have := h.got g hg
    simp only
    omega
  · simp only [HeadInWindow]
    omega

lemma Inv.markMsgSent (h : Inv size s) {g : ℕ × SendQueueInfo} (hg : s.got = some g)
    (hhead : g.1 = s.queue.headDataSeq) :
    Inv size { s with
      queue := s.queue.markMsgSent, got := none, sent := s.sent ++ [g.2] } := by
  have hlt := h.got g hg
  have hpos := h.head_pos
  refine ⟨⟨h.window.dataSeq, h.window.slot, h.window.held⟩, h.qSize, h.pos, h.maxMsgs, h.recover,
    ?_, ?_, fun _ hno => (by cases hno), h.shown⟩
  · simp only [SendQueue.markMsgSent]
    omega
  · simp only [SendQueue.markMsgSent]
    omega

lemma step_inv {a : Act} (h : Inv size s) (hok : Keeps s a) (hs : step s a = some t) :
    Inv size t := by
  cases a with
  | markSeqSent seq =>
    cases hs
    obtain ⟨hle, hhead⟩ := markSeqSent_le s.queue seq
    exact h.moved (SendQueue.markSeqSent_same _ _) hle hhead
  | build data =>
    cases hs
    refine ⟨h.window, h.qSize, h.pos, h.maxMsgs, h.recover, h.head_pos, h.head_le, h.got,
      fun j hj hwhole => ?_⟩
    obtain ⟨hold, hbytes⟩ := hwhole.of_build
    rw [hbytes]
    exact h.shown j hj hold
  | addMsg data =>
    obtain ⟨q, hq, rfl⟩ := Option.map_eq_some_iff.mp hs
    exact (h.addMsg hq hok.2).1
  | getSentMsg seq =>
    cases hs
    obtain ⟨hle, hhead⟩ := getSentMsg_le s.queue seq
    exact h.moved (SendQueue.getSentMsg_same _ _) hle hhead
  | getMsg =>
    cases hs
    refine ⟨h.window, h.qSize, h.pos, h.maxMsgs, h.recover, h.head_pos, h.head_le, fun g hg => ?_,
      h.shown⟩
    obtain ⟨info, hinfo, rfl⟩ := Option.map_eq_some_iff.mp hg
    obtain ⟨slot, hslot, -⟩ := Option.map_eq_some_iff.mp hinfo
    have hne := (SendQueue.getMsg_eq_some.mp hslot).1
    have hle := h.head_le
    simp only
    omega
  | markMsgSent =>
    obtain ⟨g, hg, rfl⟩ := Option.map_eq_some_iff.mp hs
    exact h.markMsgSent hg (hok g hg)

/-- Once the head is in the window it stays there. -/
lemma step_headInWindow {a : Act} (h : Inv size s) (hin : HeadInWindow s.queue) (hok : Keeps s a)
    (hs : step s a = some t) : HeadInWindow t.queue := by
  unfold HeadInWindow at hin ⊢
  cases a with
  | markSeqSent seq =>
    cases hs
    have hsame := SendQueue.markSeqSent_same s.queue seq
    have hle := (markSeqSent_le s.queue seq).1
    simp only [hsame.dataSeq, hsame.qSize]
    omega
  | build data =>
    cases hs
    exact hin
  | addMsg data =>
    obtain ⟨q, hq, rfl⟩ := Option.map_eq_some_iff.mp hs
    exact (h.addMsg hq hok.2).2
  | getSentMsg seq =>
    cases hs
    have hsame := SendQueue.getSentMsg_same s.queue seq
    have hle := (getSentMsg_le s.queue seq).1
    simp only [hsame.dataSeq, hsame.qSize]
    omega
  | getMsg =>
    cases hs
    exact hin
  | markMsgSent =>
    obtain ⟨g, -, rfl⟩ := Option.map_eq_some_iff.mp hs
    simp only [SendQueue.markMsgSent]
    omega

lemma Shown.recover {q : SendQueue} {accepted : List (List Byte)} {n : ℕ}
    (hw : Window { q with dataSeq := q.recoverDataSeq } accepted) (hpos : 1 ≤ q.qSize)
    (hn : n = q.recoverDataSeq) (hb : b.built = 0) (h : Shown q b) (file : List (List Byte)) :
    Shown (file.foldl SendQueue.recoverMsg q) (b.recover q.qSize n file) := by
  induction file generalizing q b accepted n with
  | nil => exact h
  | cons msg file ih =>
    subst hn
    have hnext : Window { q.recoverMsg msg with
        dataSeq := (q.recoverMsg msg).recoverDataSeq } (accepted ++ [msg]) :=
      hw.store msg hpos rfl rfl rfl
    have hput : Shown (q.recoverMsg msg) (b.put (q.recoverDataSeq % q.qSize) msg) :=
      Shown.put (q := { q with dataSeq := q.recoverDataSeq }) h hw hpos rfl rfl
        (hb ▸ Nat.zero_le _)
    exact ih hnext hpos rfl rfl hput

lemma start_inv {size : ℕ} (hsize : 1 ≤ size) (reserve avgMsgSize maxMsgSize : ℕ) (mem : ℕ → Byte)
    (file : List (List Byte)) :
    Inv size (start size reserve avgMsgSize maxMsgSize mem file) := by
  refine ⟨window_new_file hsize reserve file, ?_, hsize, ?_, le_rfl, ?_, ?_,
    fun _ hno => (by cases hno), ?_⟩
  · rw [start, SendQueue.new_qSize]
  · rw [start, SendQueue.new_qMaxMsgs]
    omega
  · rw [start, SendQueue.new_headDataSeq]
  · rw [start, SendQueue.new_headDataSeq, SendQueue.new_dataSeq]
    omega
  · have hw : Window { SendQueue.blank size reserve with
        dataSeq := (SendQueue.blank size reserve).recoverDataSeq } [] :=
      ⟨rfl, fun _ h => absurd rfl h, fun d data h => by simp at h⟩
    exact Shown.recover hw hsize rfl rfl (fun _ h => absurd rfl h) file

/-! ### The memory allocated -/

/-- Nothing is written past what was allocated, and the position is not past its limit. -/
structure Bounded (size avgMsgSize maxMsgSize : ℕ) (mem : ℕ → Byte) (b : QueueBuf) : Prop where
  allocated : b.allocated = size * avgMsgSize + maxMsgSize
  qBufSize : b.qBufSize = size * avgMsgSize
  pos : b.qBufPos ≤ size * avgMsgSize
  rest : ∀ k, size * avgMsgSize + maxMsgSize ≤ k → b.qBuf k = mem k

variable {avgMsgSize maxMsgSize : ℕ} {mem : ℕ → Byte}

lemma Bounded.put (h : Bounded size avgMsgSize maxMsgSize mem b) {data : List Byte}
    (hroom : b.Room data.length) (j : ℕ) :
    Bounded size avgMsgSize maxMsgSize mem (b.put j data) := by
  obtain ⟨h1, h2, h3, h4⟩ := h
  refine ⟨h1, h2, ?_, fun k hk => ?_⟩
  · rw [← h2]
    exact Memory.advance_le _ _ _
  · rw [← h4 k hk]
    exact Memory.write_of_ge (hroom.trans (h1.trans_le hk))

lemma Bounded.recover (h : Bounded size avgMsgSize maxMsgSize mem b) {file : List (List Byte)}
    (hfile : ∀ msg ∈ file, msg.length ≤ maxMsgSize) (n : ℕ) :
    Bounded size avgMsgSize maxMsgSize mem (b.recover size n file) := by
  induction file generalizing b n with
  | nil => exact h
  | cons msg file ih =>
    have hlen := hfile msg (by simp)
    have hroom : b.Room msg.length := by
      have := h.pos
      rw [QueueBuf.Room, h.allocated]
      omega
    exact ih (h.put hroom _) (fun m hm => hfile m (by simp [hm])) _

lemma step_bounded {a : Act} (h : Bounded size avgMsgSize maxMsgSize mem s.buf) (hok : Keeps s a)
    (hs : step s a = some t) : Bounded size avgMsgSize maxMsgSize mem t.buf := by
  cases a with
  | build data =>
    cases hs
    obtain ⟨h1, h2, h3, h4⟩ := h
    refine ⟨h1, h2, h3, fun k hk => ?_⟩
    rw [← h4 k hk]
    have hroom : s.buf.qBufPos + data.length ≤ s.buf.allocated := hok
    exact Memory.write_of_ge (hroom.trans (h1.trans_le hk))
  | addMsg data =>
    obtain ⟨q, -, rfl⟩ := Option.map_eq_some_iff.mp hs
    exact h.put hok.1 _
  | markMsgSent =>
    obtain ⟨g, -, rfl⟩ := Option.map_eq_some_iff.mp hs
    exact h
  | markSeqSent seq =>
    cases hs
    exact h
  | getSentMsg seq =>
    cases hs
    exact h
  | getMsg =>
    cases hs
    exact h

/-! ### What leaves -/

/-- The message got is that of its head; the messages sent lie before the head, each under its
number and behind those sent before. -/
structure InOrder (s : State) : Prop where
  got : ∀ g ∈ s.got, IsMsg s.accepted g.1 g.2
  sent : ∀ info ∈ s.sent, info.dataSeq < s.queue.headDataSeq ∧
    IsMsg s.accepted info.dataSeq info
  sorted : s.sent.Pairwise fun info info' => info.dataSeq < info'.dataSeq

lemma IsMsg.append {accepted : List (List Byte)} {n : ℕ} {info : SendQueueInfo}
    (h : IsMsg accepted n info) (data : List Byte) : IsMsg (accepted ++ [data]) n info := by
  obtain ⟨hnum, hget⟩ := h
  have hlt : n - 1 < accepted.length := (List.getElem?_eq_some_iff.mp hget).1
  exact ⟨hnum, by rw [List.getElem?_append_left hlt, hget]⟩

lemma InOrder.moved (h : InOrder s) (hle : s.queue.headDataSeq ≤ q.headDataSeq) :
    InOrder { s with queue := q } :=
  ⟨h.got, fun info hi => ⟨lt_of_lt_of_le (h.sent info hi).1 hle, (h.sent info hi).2⟩, h.sorted⟩

lemma step_inOrder {a : Act} (hinv : Inv size s) (h : InOrder s)
    (hok : Keeps s a ∧ GetsRight s a) (hs : step s a = some t) : InOrder t := by
  cases a with
  | markSeqSent seq =>
    cases hs
    exact h.moved (markSeqSent_le s.queue seq).1
  | build data =>
    cases hs
    exact ⟨h.got, h.sent, h.sorted⟩
  | addMsg data =>
    obtain ⟨q, hq, rfl⟩ := Option.map_eq_some_iff.mp hs
    have hhead : q.headDataSeq = s.queue.headDataSeq := by
      rw [(SendQueue.addMsg_eq_some.mp hq).2]
    refine ⟨fun g hg => (h.got g hg).append data, fun info hi => ?_, h.sorted⟩
    simp only [hhead]
    exact ⟨(h.sent info hi).1, (h.sent info hi).2.append data⟩
  | getSentMsg seq =>
    cases hs
    exact h.moved (getSentMsg_le s.queue seq).1
  | getMsg =>
    cases hs
    refine ⟨fun g hg => ?_, h.sent, h.sorted⟩
    obtain ⟨info, hinfo, rfl⟩ := Option.map_eq_some_iff.mp hg
    exact (hinv.getMsg_iff hinfo).2 hok.2.2 hok.2.1
  | markMsgSent =>
    obtain ⟨g, hg, rfl⟩ := Option.map_eq_some_iff.mp hs
    have hmsg := h.got g hg
    rw [hok.1 g hg] at hmsg
    obtain ⟨hnum, hget⟩ := hmsg
    refine ⟨fun _ hno => (by cases hno), fun info hi => ?_, ?_⟩
    · simp only [SendQueue.markMsgSent]
      rcases List.mem_append.mp hi with hi | hi
      · obtain ⟨hlt, hinfo⟩ := h.sent info hi
        exact ⟨by omega, hinfo⟩
      · rw [List.mem_singleton.mp hi]
        exact ⟨by omega, rfl, by rw [hnum]; exact hget⟩
    · refine List.pairwise_append.mpr
        ⟨h.sorted, List.pairwise_singleton _ _, fun info hi g' hg' => ?_⟩
      rw [List.mem_singleton.mp hg', hnum]
      exact (h.sent info hi).1

/-- **The head message and the window**: in every run whose messages stay within the memory
allocated and in which nothing moves the head between `get_msg` and `mark_msg_sent`, the head lies
between `1` and the next number. `get_msg` returns the message of the head only if this is among the
last `q_size` ones, and does so if no later message lies over its bytes besides. Where it always is
so, the messages leave in the order they were accepted. -/
theorem getMsg_head_iff {size reserve avgMsgSize maxMsgSize : ℕ} (hsize : 1 ≤ size)
    {mem : ℕ → Byte} {file : List (List Byte)} (hfile : ∀ msg ∈ file, msg.length ≤ maxMsgSize)
    {acts : List Act}
    (hok : Meets step Keeps (start size reserve avgMsgSize maxMsgSize mem file) acts)
    (hr : run step (start size reserve avgMsgSize maxMsgSize mem file) acts = some s) :
    1 ≤ s.queue.headDataSeq ∧ s.queue.headDataSeq ≤ s.queue.dataSeq ∧
      (∀ info, s.getMsg = some info →
        (IsMsg s.accepted s.queue.headDataSeq info →
          s.queue.dataSeq ≤ s.queue.headDataSeq + size) ∧
        (HeadWhole s → s.queue.dataSeq ≤ s.queue.headDataSeq + size →
          IsMsg s.accepted s.queue.headDataSeq info)) ∧
      (Meets step GetsRight (start size reserve avgMsgSize maxMsgSize mem file) acts →
        (s.sent.Pairwise fun info info' => info.dataSeq < info'.dataSeq) ∧
          ∀ info ∈ s.sent, IsMsg s.accepted info.dataSeq info) ∧
      ∀ k, size * avgMsgSize + maxMsgSize ≤ k → s.buf.qBuf k = mem k := by
  have hstart := start_inv hsize reserve avgMsgSize maxMsgSize mem file
  have hinv : Inv size s := run_induct (fun _ _ _ h ha hs => step_inv h ha hs) hstart hok hr
  refine ⟨hinv.head_pos, hinv.head_le, fun info hg => ?_, fun hin => ?_, ?_⟩
  · have h := hinv.getMsg_iff hg
    rwa [HeadInWindow, hinv.qSize] at h
  · have hempty : InOrder (start size reserve avgMsgSize maxMsgSize mem file) :=
      ⟨fun _ hno => (by cases hno), fun _ hi => (List.not_mem_nil hi).elim, List.Pairwise.nil⟩
    have horder := (run_induct (P := fun s => Inv size s ∧ InOrder s)
      (fun _ _ _ h ha hs => ⟨step_inv h.1 ha.1 hs, step_inOrder h.1 h.2 ha hs⟩)
      ⟨hstart, hempty⟩ (hok.and hin) hr).2
    exact ⟨horder.sorted, fun info hi => (horder.sent info hi).2⟩
  · have hnew : Bounded size avgMsgSize maxMsgSize mem (.new size avgMsgSize maxMsgSize mem) :=
      ⟨rfl, rfl, Nat.zero_le _, fun _ _ => rfl⟩
    exact (run_induct (P := fun s => Bounded size avgMsgSize maxMsgSize mem s.buf)
      (fun _ _ _ h ha hs => step_bounded h ha hs) (hnew.recover hfile 1) hok hr).rest

/-- Of two recovered messages one goes, a direct one takes its slot, and the ring goes round. -/
def recoveredThenBuilt : List Act :=
  [.getMsg, .markMsgSent, .build [7], .build [7, 8], .addMsg [7, 8], .getMsg, .markMsgSent]

theorem getMsg_head_iff_recoveredThenBuilt :
    let s₀ := start 2 0 2 4 (fun _ => 0) [[1], [2]]
    let s := (run step s₀ recoveredThenBuilt).get rfl
    s.getMsg = some ⟨3, [7, 8]⟩ ∧ IsMsg s.accepted 3 ⟨3, [7, 8]⟩ ∧
      s.sent.map SendQueueInfo.data = [[1], [2]] ∧
      (s.sent.Pairwise fun info info' => info.dataSeq < info'.dataSeq) ∧
      (∀ info ∈ s.sent, IsMsg s.accepted info.dataSeq info) ∧ s.buf.qBuf 8 = 0 := by
  intro s₀ s
  have hok : Meets step Keeps (start 2 0 2 4 (fun _ => 0) [[1], [2]]) recoveredThenBuilt := by
    decide
  have hrun : run step (start 2 0 2 4 (fun _ => 0) [[1], [2]]) recoveredThenBuilt = some s :=
    (Option.some_get _).symm
  have h := getMsg_head_iff (by decide) (by decide) hok hrun
  have hget : s.getMsg = some ⟨3, [7, 8]⟩ := by decide
  have hhead : s.queue.headDataSeq = 3 := by decide
  have hmsg := (h.2.2.1 _ hget).2 (by decide) (by decide)
  rw [hhead] at hmsg
  obtain ⟨h1, h2⟩ := h.2.2.2.1 (by decide)
  exact ⟨hget, hmsg, by decide, h1, h2, h.2.2.2.2 8 (by decide)⟩

/-- Three messages recovered into two slots: `get_msg` returns the third for the first. -/
theorem getMsg_recovered :
    (start 2 0 256 1024 (fun _ => 0) [[1], [2], [3]]).queue.headDataSeq = 1 ∧
      (start 2 0 256 1024 (fun _ => 0) [[1], [2], [3]]).getMsg = some ⟨3, [3]⟩ ∧
      ¬ IsMsg (start 2 0 256 1024 (fun _ => 0) [[1], [2], [3]]).accepted 1 ⟨3, [3]⟩ := by
  refine ⟨rfl, rfl, fun h => ?_⟩
  exact absurd h.1 (by decide)

/-- Four slots for messages of two bytes: of three longer ones the last lies over the first. -/
example : (run step (start 4 0 2 8 (fun _ => 0) [])
    [.addMsg [1, 1, 1, 1, 1], .addMsg [2, 2, 2, 2, 2], .addMsg [3, 3, 3, 3, 3]]).map (fun s =>
      (s.getMsg, decide (HeadInWindow s.queue), decide (HeadWhole s))) =
    some (some ⟨1, [3, 3, 3, 3, 3]⟩, true, false) := by decide

/-- **A file with no more messages than there are slots does no harm**: the head is always in the
window. -/
theorem always_headInWindow {size reserve avgMsgSize maxMsgSize : ℕ} (hsize : 1 ≤ size)
    {mem : ℕ → Byte} {file : List (List Byte)} (hfile : file.length ≤ size) {acts : List Act}
    (hok : Meets step Keeps (start size reserve avgMsgSize maxMsgSize mem file) acts) :
    Always step (fun s => HeadInWindow s.queue) (start size reserve avgMsgSize maxMsgSize mem file)
      acts := by
  refine (always_of_meets (P := fun s => Inv size s ∧ HeadInWindow s.queue)
    (fun _ _ _ h ha hs => ⟨step_inv h.1 ha hs, step_headInWindow h.1 h.2 ha hs⟩)
    ⟨start_inv hsize reserve avgMsgSize maxMsgSize mem file, ?_⟩ hok).mono fun _ h => h.2
  simp only [HeadInWindow, start, SendQueue.new_dataSeq, SendQueue.new_headDataSeq,
    SendQueue.new_qSize]
  omega

end Ufix.QueueOrder
