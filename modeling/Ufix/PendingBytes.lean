import Ufix.RecvBuf

/-!
Whether the bytes of a message are still there when the consumer reads them.

The queue keeps pointers into the receive buffer. What is appended lies behind every message cut
off since the last wrap, but after a wrap, or with the positions of an older hand-over, it lies in
front of messages from before, and nothing looks at how far they reach.
-/

namespace Ufix.PendingBytes

open Ufix.Memory Ufix.Runs Ufix.RecvBuf Ufix.RecvBuf.Connection

variable {c c' : Connection} {a : Act} {i : ℕ}

/-- The slot holds a message that `get` has not returned. -/
def Waits (q : RecvQueue) (i : ℕ) : Prop := q.isEmpty i = false ∧ (q.msgsRecv i).isGf = false

/-- The bytes of the slot are still to be read: its message waits, or is being worked on. -/
def Live (c : Connection) (i : ℕ) : Prop := Waits c.delivery.queue i ∨ c.reading = some i

def regionBytes (c : Connection) (i : ℕ) : List Byte :=
  Memory.read c.recvBuf (c.slots i).1 (c.slots i).2

/-- Every message still to be read has the bytes it had when its pointer was copied. -/
def Intact (c : Connection) : Prop :=
  ∀ i, Live c i → regionBytes c i = (c.delivery.queue.msgsRecv i).data

/-- The condition on a step: messages have a length, writes stay in the buffer, and what is
written does not reach a message still to be read. Behind the tail only messages that lie ahead of
it matter. -/
def Spares (c : Connection) : Act → Prop
  | .recv chunk => c.recvBufTail + chunk.length ≤ c.recvBufSize + socketRecvWindows ∧
      ∀ i, Live c i → c.recvBufTail ≤ (c.slots i).1 →
        c.recvBufTail + chunk.length ≤ (c.slots i).1
  | .round =>
      (c.phase = .cutting → c.recvBufSize < c.recvBufTail →
        nextMsg c.fixVersionLen c.allocated c.recvBufHead c.recvBufTail = some .wait →
        ∀ i, Live c i → c.recvBufTail - c.recvBufHead ≤ (c.slots i).1) ∧
      ∀ m msgLen, nextMsg c.fixVersionLen c.allocated c.recvBufHead c.recvBufTail =
        some (.msg m msgLen) → 0 ≤ msgLen
  | .accept tempBuf => c.saved.2 + tempBuf.length ≤ c.recvBufSize + socketRecvWindows ∧
      ∀ i, Live c i → (c.slots i).1 + (c.slots i).2 ≤ c.saved.2 ∨
        c.saved.2 + tempBuf.length ≤ (c.slots i).1
  | _ => True

/-! ### The consumer -/

def Keeps (q q' : RecvQueue) : Prop :=
  ∀ i, (q'.msgsRecv i).data = (q.msgsRecv i).data ∧ (Waits q' i → Waits q i)

lemma Keeps.refl (q : RecvQueue) : Keeps q q := fun _ => ⟨rfl, id⟩

lemma Keeps.trans {q₁ q₂ q₃ : RecvQueue} (h : Keeps q₁ q₂) (h' : Keeps q₂ q₃) : Keeps q₁ q₃ :=
  fun i => ⟨(h' i).1.trans (h i).1, fun hw => (h i).2 ((h' i).2 hw)⟩

lemma keeps_setSlot {q : RecvQueue} {index : ℕ} {m : RMessage}
    (hdata : m.data = (q.msgsRecv index).data)
    (hwaits : Waits (q.setSlot index m) index → Waits q index) : Keeps q (q.setSlot index m) := by
  intro i
  by_cases hi : i = index
  · subst hi
    have hslot : (q.setSlot i m).msgsRecv i = m := Function.update_self _ _ _
    exact ⟨by rw [hslot, hdata], hwaits⟩
  · have hslot : (q.setSlot index m).msgsRecv i = q.msgsRecv i := Function.update_of_ne hi _ _
    refine ⟨by rw [hslot], fun hw => ?_⟩
    unfold Waits RecvQueue.isEmpty at hw ⊢
    rwa [hslot] at hw

lemma keeps_setGf (q : RecvQueue) (n : ℕ) : Keeps q (q.setGf n) := by
  refine keeps_setSlot rfl fun hw => ?_
  have hgf := hw.2
  simp [RecvQueue.setSlot, RMessage.setGf, RMessage.isGf] at hgf

lemma keeps_resetSlot (q : RecvQueue) (index : ℕ) : Keeps q (q.resetSlot index) := by
  refine keeps_setSlot rfl fun hw => ?_
  have hempty := hw.1
  simp [RecvQueue.setSlot, RecvQueue.isEmpty, RMessage.reset, RMessage.isEmpty] at hempty

lemma keeps_setTimestamp {q : RecvQueue} {index : ℕ} {ts : ℤ}
    (h : q.isEmpty index = true ∨ (q.msgsRecv index).timestamp = 0) :
    Keeps q (q.setSlot index ((q.msgsRecv index).setTimestamp ts)) := by
  refine keeps_setSlot rfl fun hw => ?_
  have hempty : q.isEmpty index = false := by
    have hempty := hw.1
    simp only [RecvQueue.isEmpty, RecvQueue.setSlot, Function.update_self, RMessage.isEmpty,
      RMessage.setTimestamp] at hempty
    simp only [RecvQueue.isEmpty, RMessage.isEmpty]
    exact hempty
  rcases h with h | h
  · rw [hempty] at h
    cases h
  · exact ⟨hempty, by simp [RMessage.isGf, h]⟩

lemma keeps_stampMissing {ts : ℤ} {n endSeqNo k : ℕ} {q q' : RecvQueue}
    (h : RecvQueue.stampMissing ts n endSeqNo q = some (q', k)) : Keeps q q' := by
  induction n generalizing endSeqNo q with
  | zero => cases h
  | succ n ih =>
    simp only [RecvQueue.stampMissing] at h
    split at h
    · next hempty => exact (keeps_setTimestamp (Or.inl hempty)).trans (ih h)
    · cases h
      exact .refl _

lemma keeps_waitMsg {q q' : RecvQueue} {ts : ℤ} (h : q.waitMsg ts = some q') : Keeps q q' := by
  unfold RecvQueue.waitMsg at h
  split at h
  · split at h
    · obtain ⟨⟨r, b⟩, hr, rfl⟩ := Option.map_eq_some_iff.mp h
      unfold RecvQueue.addResendRequest at hr
      simp only at hr
      split at hr
      · cases hr
        exact .refl _
      · next hts =>
        obtain ⟨⟨u, k⟩, hu, hr⟩ := Option.map_eq_some_iff.mp hr
        cases hr
        have hfirst : (q.msgsRecv (ulong (q.headSeq + 1) % q.qSize)).timestamp = 0 := by
          simpa using hts
        have hkeeps : Keeps q u :=
          (keeps_setTimestamp (Or.inr hfirst)).trans (keeps_stampMissing hu)
        exact hkeeps
    · cases h
      exact .refl _
  · cases h

lemma keeps_updateSeq (q : RecvQueue) (current new : ℕ) : Keeps q (q.updateSeq current new) := by
  unfold RecvQueue.updateSeq
  generalize RecvQueue.gapFill current new = numbers
  induction numbers generalizing q with
  | nil => exact .refl q
  | cons n numbers ih => exact (keeps_setGf q n).trans (ih _)

lemma keeps_get {q q' : RecvQueue} {index : ℕ} (h : q.get = some (q', index)) : Keeps q q' := by
  obtain ⟨-, -, hlt, rfl⟩ := RecvQueue.get_eq_some h
  refine fun i => ⟨rfl, fun hw => ⟨?_, hw.2⟩⟩
  have hempty := hw.1
  simp only [RecvQueue.isEmpty, Bool.or_eq_false_iff, decide_eq_false_iff_not] at hempty ⊢
  exact ⟨hempty.1, by omega⟩

/-! ### The invariant -/

/-- Messages still to be read lie behind the head or ahead of the tail, and are intact. -/
structure Inv (c : Connection) : Prop where
  head : 0 ≤ c.recvBufHead
  order : c.recvBufHead ≤ c.recvBufTail
  allocated : c.recvBufTail ≤ c.recvBufSize + socketRecvWindows
  saved : 0 ≤ c.saved.1 ∧ c.saved.1 = c.saved.2
  apart : ∀ i, Live c i → (c.slots i).1 + (c.slots i).2 ≤ c.recvBufHead ∨
    c.recvBufTail ≤ (c.slots i).1
  intact : Intact c

lemma read_write_region {pos : ℤ} {l : List Byte} (h0 : 0 ≤ pos)
    (h : (c.slots i).1 + (c.slots i).2 ≤ pos ∨ pos + l.length ≤ (c.slots i).1) :
    Memory.read (write c.recvBuf pos.toNat l) (c.slots i).1 (c.slots i).2 = regionBytes c i := by
  refine read_write_of_apart ?_
  unfold Apart
  omega

lemma Inv.of_keeps (h : Inv c) (hs : SameBuf c c')
    (hk : Keeps c.delivery.queue c'.delivery.queue)
    (hreading : ∀ i, c'.reading = some i → Live c i) : Inv c' := by
  obtain ⟨-, h2, h3, h4, h5, h6, -, h8⟩ := hs
  have hlive : ∀ i, Live c' i → Live c i := by
    rintro i (hw | hr)
    · exact Or.inl ((hk i).2 hw)
    · exact hreading i hr
  refine ⟨by rw [h4]; exact h.head, by rw [h4, h5]; exact h.order,
    by rw [h5, h3]; exact h.allocated, by rw [h6]; exact h.saved, ?_, ?_⟩
  · intro i hi
    rw [h4, h5, h8]
    exact h.apart i (hlive i hi)
  · intro i hi
    have hbytes : regionBytes c' i = regionBytes c i := by
      unfold regionBytes
      rw [h2, h8]
    rw [hbytes, (hk i).1]
    exact h.intact i (hlive i hi)

/-- What the queue does without the receiver thread. -/
lemma keeps_of_step {d d' : Delivery.State} {a : Delivery.Act} (hput : ∀ m, a ≠ .put m)
    (h : Delivery.step d a = some d') : Keeps d.queue d'.queue := by
  cases a with
  | put m => exact absurd rfl (hput m)
  | updateSeq cur n =>
    cases h
    exact keeps_updateSeq _ _ _
  | wait ts =>
    simp only [Delivery.step] at h
    split at h
    · obtain ⟨q, hq, rfl⟩ := Option.map_eq_some_iff.mp h
      exact keeps_waitMsg hq
    · cases h
  | get =>
    simp only [Delivery.step] at h
    split at h
    · obtain ⟨⟨q, index⟩, hq, rfl⟩ := Option.map_eq_some_iff.mp h
      exact keeps_get hq
    · cases h
  | reset =>
    obtain ⟨index, -, rfl⟩ := Option.map_eq_some_iff.mp h
    exact keeps_resetSlot _ _

lemma waits_of_get {d d' : Delivery.State} (h : Delivery.step d .get = some d')
    (hi : d'.taken = some i) (hgf : (d'.queue.msgsRecv i).isGf = false) : Waits d.queue i := by
  simp only [Delivery.step] at h
  split at h
  · obtain ⟨⟨q, index⟩, hq, rfl⟩ := Option.map_eq_some_iff.mp h
    obtain ⟨rfl, hne, hlt, rfl⟩ := RecvQueue.get_eq_some hq
    cases hi
    refine ⟨?_, hgf⟩
    simp [RecvQueue.isEmpty, RMessage.isEmpty, hne]
    omega
  · cases h

lemma put_slots {q q' : RecvQueue} {m : RMessage} (h : q.put m = some q') :
    (m.seq ≤ (q.msgsRecv (m.seq % q.qSize)).seq ∧ q' = q) ∨
      ((q.msgsRecv (m.seq % q.qSize)).seq < m.seq ∧ q'.headSeq = q.headSeq ∧
        q'.msgsRecv = Function.update q.msgsRecv (m.seq % q.qSize)
          ((q.msgsRecv (m.seq % q.qSize)).copy m)) := by
  unfold RecvQueue.put at h
  simp only at h
  split at h
  · next hge =>
    cases h
    exact Or.inl ⟨hge, rfl⟩
  · next hlt =>
    split at h
    · cases h
      exact Or.inr ⟨by omega, rfl, rfl⟩
    · cases h

/-- A message that is put is intact: its pointer designates the bytes it was cut from. -/
lemma Inv.putMsg {m : RMessage} {msgLen : ℤ} (h : Inv c) (hlen : 0 ≤ msgLen)
    (hnext : nextMsg c.fixVersionLen c.allocated c.recvBufHead c.recvBufTail =
      some (.msg m msgLen)) (hput : c.putMsg m msgLen = some c') : Inv c' := by
  obtain ⟨hle, -, hdata⟩ := nextMsg_msg hnext
  obtain ⟨d, hd, rfl⟩ := putMsg_eq_some hput
  have hhead := h.head
  have halloc := h.allocated
  simp only [Delivery.step] at hd
  split at hd
  swap
  · cases hd
  obtain ⟨q, hq, rfl⟩ := Option.map_eq_some_iff.mp hd
  have hregion : Memory.read c.recvBuf c.recvBufHead.toNat msgLen.toNat = m.data := by
    rw [hdata]
    exact (take_drop_read _ (by omega)).symm
  rcases put_slots hq with ⟨hge, rfl⟩ | ⟨hlt, hheadSeq, hslots⟩
  · -- the queue refused the message
    refine ⟨by simp only; omega, by simp only; omega, halloc, h.saved, ?_, ?_⟩
    · intro i hi
      simp only [if_pos hge]
      rcases h.apart i hi with hi | hi
      · exact Or.inl (by omega)
      · exact Or.inr hi
    · intro i hi
      unfold regionBytes
      simp only [if_pos hge]
      exact h.intact i hi
  · have hnot : ¬ (c.delivery.queue.msgsRecv (m.seq % c.delivery.queue.qSize)).seq ≥ m.seq := by
      omega
    have hother : ∀ i, i ≠ m.seq % c.delivery.queue.qSize →
        q.msgsRecv i = c.delivery.queue.msgsRecv i := fun i hi => by
      rw [hslots, Function.update_of_ne hi]
    have hlive : ∀ i, i ≠ m.seq % c.delivery.queue.qSize →
        Waits q i ∨ c.reading = some i → Live c i := by
      rintro i hi (hw | hr)
      · refine Or.inl ?_
        unfold Waits RecvQueue.isEmpty at hw ⊢
        rwa [hother i hi, hheadSeq] at hw
      · exact Or.inr hr
    refine ⟨by simp only; omega, by simp only; omega, halloc, h.saved, ?_, ?_⟩
    · intro i hi
      simp only [if_neg hnot]
      by_cases hindex : i = m.seq % c.delivery.queue.qSize
      · rw [hindex, Function.update_self]
        exact Or.inl (by simp only; omega)
      · rw [Function.update_of_ne hindex]
        rcases h.apart i (hlive i hindex hi) with hi | hi
        · exact Or.inl (by omega)
        · exact Or.inr hi
    · intro i hi
      unfold regionBytes
      simp only [if_neg hnot]
      by_cases hindex : i = m.seq % c.delivery.queue.qSize
      · rw [hindex, Function.update_self, hslots, Function.update_self]
        exact hregion
      · rw [Function.update_of_ne hindex, hother i hindex]
        exact h.intact i (hlive i hindex hi)

lemma Inv.moveToFront (h : Inv c) (hspares : ∀ i, Live c i →
    c.recvBufTail - c.recvBufHead ≤ (c.slots i).1) : Inv c.moveToFront := by
  have hhead := h.head
  have horder := h.order
  have halloc := h.allocated
  have hlen : (Memory.read c.recvBuf c.recvBufHead.toNat
      (c.recvBufTail - c.recvBufHead).toNat).length = (c.recvBufTail - c.recvBufHead).toNat :=
    read_length _ _ _
  refine ⟨le_rfl, by simp only [Connection.moveToFront]; omega,
    by simp only [Connection.moveToFront]; omega, h.saved, fun i hi => Or.inr (hspares i hi), ?_⟩
  intro i hi
  have hspared := hspares i hi
  have hbytes : regionBytes c.moveToFront i = regionBytes c i :=
    read_write_region le_rfl (Or.inr (by rw [hlen]; omega))
  rw [hbytes]
  exact h.intact i hi

lemma Inv.setPhase (h : Inv c) (phase : Phase) : Inv { c with phase := phase } :=
  ⟨h.head, h.order, h.allocated, h.saved, h.apart, h.intact⟩

lemma Inv.allCut (h : Inv c) (hspares : c.phase = .cutting → c.recvBufSize < c.recvBufTail →
    ∀ i, Live c i → c.recvBufTail - c.recvBufHead ≤ (c.slots i).1) : Inv c.allCut := by
  unfold Connection.allCut
  split_ifs with hwrap
  · exact (h.moveToFront (hspares hwrap.1 hwrap.2)).setPhase _
  · exact h.setPhase _

lemma Inv.disconnect (h : Inv c) : Inv c.disconnect := by
  have hhead := h.head
  have horder := h.order
  have halloc := h.allocated
  have happart : ∀ i, Live c i → (c.slots i).1 + (c.slots i).2 ≤ c.recvBufHead ∨
      c.recvBufHead ≤ (c.slots i).1 := by
    intro i hi
    rcases h.apart i hi with hi | hi
    · exact Or.inl hi
    · exact Or.inr (by omega)
  unfold Connection.disconnect
  split_ifs
  · exact ⟨hhead, le_rfl, by simp only; omega, ⟨hhead, rfl⟩, happart, h.intact⟩
  · exact ⟨hhead, le_rfl, by simp only; omega, h.saved, happart, h.intact⟩

lemma Inv.reject (h : Inv c) : Inv c.reject := by
  unfold Connection.reject
  split_ifs
  · exact h.disconnect
  · exact h.setPhase _

/-- A step that spares the messages still to be read keeps the invariant. -/
lemma Inv.step (h : Inv c) (hw : Spares c a) (hs : c.step a = some c') : Inv c' := by
  have hhead := h.head
  have horder := h.order
  cases a with
  | recv chunk =>
    obtain ⟨hfits, hspares⟩ := hw
    obtain ⟨⟨-, htail, -, -⟩, rfl⟩ := recv_eq_some hs
    refine ⟨hhead, by simp only; omega, hfits, h.saved, fun i hi => ?_, fun i hi => ?_⟩
    · rcases h.apart i hi with hi' | hi'
      · exact Or.inl hi'
      · exact Or.inr (hspares i hi hi')
    · have hapart : (c.slots i).1 + (c.slots i).2 ≤ c.recvBufTail ∨
          c.recvBufTail + chunk.length ≤ (c.slots i).1 := by
        rcases h.apart i hi with hi' | hi'
        · exact Or.inl (by omega)
        · exact Or.inr (hspares i hi hi')
      exact (read_write_region htail hapart).trans (h.intact i hi)
  | round =>
    obtain ⟨hwrap, hlen⟩ := hw
    obtain ⟨-, ⟨hnext, rfl⟩ | ⟨-, rfl⟩ | ⟨m, msgLen, hnext, hput⟩⟩ := round_cases hs
    · exact h.allCut fun hcut hgt => hwrap hcut hgt hnext
    · exact h.reject
    · exact h.putMsg (hlen m msgLen hnext) hnext hput
  | lost =>
    change (if c.phase = .receiving then some c.disconnect else none) = some c' at hs
    split_ifs at hs
    cases hs
    exact h.disconnect
  | stop =>
    change (if c.acceptor ∧ c.phase = .receiving then some { c with phase := .down } else none) =
      some c' at hs
    split_ifs at hs
    cases hs
    exact h.setPhase _
  | accept tempBuf =>
    obtain ⟨hfits, hspares⟩ := hw
    obtain ⟨⟨-, -, h0, -⟩, rfl⟩ := accept_eq_some hs
    obtain ⟨hsaved, heq⟩ := h.saved
    refine ⟨hsaved, by simp only; omega, hfits, h.saved, fun i hi => ?_, fun i hi => ?_⟩
    · rcases hspares i hi with hi' | hi'
      · exact Or.inl (by simp only; omega)
      · exact Or.inr hi'
    · exact (read_write_region h0 (hspares i hi)).trans (h.intact i hi)
  | updateSeq cur n =>
    have hsame := consumer_sameBuf hs (Or.inl ⟨cur, n, rfl⟩)
    obtain ⟨-, hreading, hd⟩ := deliver_sameBuf hs
    refine h.of_keeps hsame (keeps_of_step (fun m => by simp) hd) fun i hi => Or.inr ?_
    rwa [hreading] at hi
  | wait ts =>
    have hsame := consumer_sameBuf hs (Or.inr (Or.inl ⟨ts, rfl⟩))
    obtain ⟨-, hreading, hd⟩ := deliver_sameBuf hs
    refine h.of_keeps hsame (keeps_of_step (fun m => by simp) hd) fun i hi => Or.inr ?_
    rwa [hreading] at hi
  | get =>
    have hsame := consumer_sameBuf hs (Or.inr (Or.inr (Or.inl rfl)))
    obtain ⟨c₁, h₁, rfl⟩ := Option.map_eq_some_iff.mp hs
    obtain ⟨-, -, hd⟩ := deliver_sameBuf h₁
    refine h.of_keeps hsame (keeps_of_step (fun m => by simp) hd) fun i hi => Or.inl ?_
    obtain ⟨htaken, hgf⟩ := Option.filter_eq_some_iff.mp hi
    exact waits_of_get hd htaken (by simpa using hgf)
  | reset =>
    have hsame := consumer_sameBuf hs (Or.inr (Or.inr (Or.inr rfl)))
    obtain ⟨c₁, h₁, rfl⟩ := Option.map_eq_some_iff.mp hs
    obtain ⟨-, -, hd⟩ := deliver_sameBuf h₁
    exact h.of_keeps hsame (keeps_of_step (fun m => by simp) hd) fun i hi => by cases hi

lemma not_live_new {acceptor : Bool} {fixVersionLen size qSize : ℕ} {seq : UInt64}
    {mem : ℕ → Byte} : ¬ Live (.new acceptor fixVersionLen size qSize seq mem) i := by
  rintro (hw | hr)
  · have hempty := hw.1
    simp [Connection.new, Delivery.start, RecvQueue.setHeadSeq, RecvQueue.new, RecvQueue.isEmpty,
      RMessage.isEmpty] at hempty
  · cases hr

lemma inv_new (acceptor : Bool) (fixVersionLen size qSize : ℕ) (seq : UInt64) (mem : ℕ → Byte) :
    Inv (.new acceptor fixVersionLen size qSize seq mem) := by
  refine ⟨le_rfl, le_rfl, ?_, ⟨le_rfl, rfl⟩, fun i hi => absurd hi not_live_new,
    fun i hi => absurd hi not_live_new⟩
  simp only [Connection.new]
  omega

/-- **A message stays until it has been consumed as long as every write spares it**: in every
state of a run whose steps meet the condition, with any chunks, messages, disconnects, hand-overs
and any interleaving with the consumer, the bytes each slot still to be read designates are those
its message had when it was put. -/
theorem always_intact {acceptor : Bool} {fixVersionLen size qSize : ℕ} {seq : UInt64}
    {mem : ℕ → Byte} {acts : List Act}
    (hm : Meets step Spares (.new acceptor fixVersionLen size qSize seq mem) acts) :
    Always step Intact (.new acceptor fixVersionLen size qSize seq mem) acts := by
  have hinv := always_of_meets (fun c a c' h hw hs => h.step hw hs)
    (inv_new acceptor fixVersionLen size qSize seq mem) hm
  exact hinv.mono fun c h => h.intact

/-- The next message of the gap is written over one that waits behind the gap. -/
theorem not_always_intact_gap :
    ¬ Always step Intact (.new false 7 40 4 0 fun _ => 0)
      [.recv (numbered 50 ++ numbered 51), .round, .round, .round, .recv (numbered 49), .round,
        .get, .reset, .get] := by
  intro h
  have hend : (run step (.new false 7 40 4 0 fun _ => 0)
      [.recv (numbered 50 ++ numbered 51), .round, .round, .round, .recv (numbered 49), .round,
        .get, .reset, .get]).map (fun c => (c.reading, regionBytes c 2,
          (c.delivery.queue.msgsRecv 2).data)) = some (some 2, numbered 49, numbered 50) := by
    decide +kernel
  obtain ⟨c, hc, hval⟩ := Option.map_eq_some_iff.mp hend
  simp only [Prod.mk.injEq] at hval
  obtain ⟨hreading, hbytes, hdata⟩ := hval
  have hintact := h.last hc 2 (Or.inr hreading)
  rw [hbytes, hdata] at hintact
  revert hintact
  decide

end Ufix.PendingBytes
