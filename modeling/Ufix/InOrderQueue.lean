import Ufix.Delivery
import Ufix.Reassembly

/-!
The receive queue as an in-order reassembly buffer.

While every number stored lies at most one size of the ring past the head, the occupied slots
are the entries that wait, each under its own number. A message is taken and its slot reset in
one step here.
-/

namespace Ufix.InOrderQueue

open Ufix.Runs Ufix.Memory Ufix.Delivery Ufix.Reassembly

inductive Entry
  | msg (data : List Byte) (msgTypePos : ℤ)
  | gapFill
  deriving DecidableEq, Repr

def entryOf (m : RMessage) : Entry :=
  if m.isGf then .gapFill else .msg m.data m.msgTypePos

/-- The queue, and what `get` returned so far, number by number. -/
structure State where
  queue : RecvQueue
  got : List (ℕ × Entry)

inductive Act
  | put (msg : RMessage)
  | updateSeq (currentSeqNo newSeqNo : UInt64)
  /-- a round of waiting in `get`, at a time of the clock -/
  | wait (ts : ℕ)
  | get

def step (s : State) : Act → Option State
  | .put msg =>
    if msg.seq < 2 ^ 64 then (s.queue.put msg).map fun q => { s with queue := q } else none
  | .updateSeq c n => some { s with queue := s.queue.updateSeq c.toNat n.toNat }
  | .wait ts => (s.queue.waitMsg ts).map fun q => { s with queue := q }
  | .get => s.queue.get.map fun (q, index) =>
      ⟨q.resetSlot index, s.got ++ [((q.msgsRecv index).seq, entryOf (q.msgsRecv index))]⟩

def start (size : ℕ) (seq : UInt64) : State := ⟨(RecvQueue.new size).setHeadSeq seq.toNat, []⟩

/-- The entry that waits under a number. -/
def pendingOf (q : RecvQueue) (n : ℕ) : Option Entry :=
  if q.headSeq < n ∧ (q.msgsRecv (n % q.qSize)).seq = n then
    some (entryOf (q.msgsRecv (n % q.qSize)))
  else none

def toBuffer (s : State) : Buffer Entry := ⟨s.queue.headSeq, pendingOf s.queue, s.got⟩

def toOp : Act → Op Entry
  | .put msg => .store [(msg.seq, .msg msg.data msg.msgTypePos)]
  | .updateSeq c n => .store ((RecvQueue.gapFill c.toNat n.toNat).map fun i => (i, .gapFill))
  | .wait _ => .wait
  | .get => .take

/-- Every number stored is past the head by at most the size, and no gap fill covers a message
that waits. -/
def Admitted (s : State) : Act → Prop
  | .put msg => Awaited s.queue msg.seq
  | .updateSeq c n => ∀ i ∈ RecvQueue.gapFill c.toNat n.toNat,
      Awaited s.queue i ∧ ∀ data pos, pendingOf s.queue i ≠ some (.msg data pos)
  | .wait _ | .get => True

structure Inv (q : RecvQueue) : Prop where
  ordered : Ordered ⟨q, none⟩
  current : Current ⟨q, none⟩
  unmarked : ∀ i, (q.msgsRecv i).seq = 0 → (q.msgsRecv i).timestamp ≠ -1
  tail : q.headSeq < q.tailSeq → (q.msgsRecv (q.tailSeq % q.qSize)).seq = q.tailSeq

variable {q q' : RecvQueue} {n i : ℕ}

/-! ### Slots and pending numbers -/

lemma pendingOf_eq_some {e : Entry} : pendingOf q n = some e ↔
    q.headSeq < n ∧ (q.msgsRecv (n % q.qSize)).seq = n ∧
      entryOf (q.msgsRecv (n % q.qSize)) = e := by
  unfold pendingOf
  split
  · next h => simp [h]
  · next h => simp only [reduceCtorEq, false_iff]; exact fun h' => h ⟨h'.1, h'.2.1⟩

lemma Inv.slot (h : Inv q) (hi : (q.msgsRecv i).seq ≠ 0) :
    (q.msgsRecv i).seq % q.qSize = i ∧ Awaited q (q.msgsRecv i).seq :=
  ⟨(h.ordered.slot i hi).1, h.current i (by simp) hi, (h.ordered.slot i hi).2.2⟩

lemma Inv.seq_slot (h : Inv q) (hn : Awaited q n) :
    (q.msgsRecv (n % q.qSize)).seq = 0 ∨ (q.msgsRecv (n % q.qSize)).seq = n := by
  by_cases h0 : (q.msgsRecv (n % q.qSize)).seq = 0
  · exact Or.inl h0
  · obtain ⟨hmod, hlt, hreach⟩ := h.slot h0
    exact Or.inr (eq_of_mod_eq hlt hreach hn.1 hn.2 hmod)

lemma Inv.pendingOf_awaited (h : Inv q) (hn : pendingOf q n ≠ none) : Awaited q n := by
  obtain ⟨e, he⟩ := Option.ne_none_iff_exists'.mp hn
  obtain ⟨hlt, hseq, -⟩ := pendingOf_eq_some.mp he
  have hslot := h.slot (i := n % q.qSize) (by omega)
  rw [hseq] at hslot
  exact hslot.2

lemma Inv.pendingOf_slot (h : Inv q) (hi : (q.msgsRecv i).seq ≠ 0) :
    pendingOf q (q.msgsRecv i).seq = some (entryOf (q.msgsRecv i)) := by
  obtain ⟨hmod, hlt, -⟩ := h.slot hi
  rw [pendingOf_eq_some, hmod]
  exact ⟨hlt, rfl, rfl⟩

lemma pendingOf_setSlot {m : RMessage} (hn : q.headSeq < n)
    (hold : (q.msgsRecv (n % q.qSize)).seq = 0 ∨ (q.msgsRecv (n % q.qSize)).seq = n)
    (hm : m.seq = n) (hsize : q'.qSize = q.qSize) (hhead : q'.headSeq = q.headSeq)
    (hslots : q'.msgsRecv = Function.update q.msgsRecv (n % q.qSize) m) :
    pendingOf q' = Function.update (pendingOf q) n (some (entryOf m)) := by
  funext k
  by_cases hk : k = n
  · subst hk
    simp [pendingOf, hsize, hhead, hslots, hn, hm]
  · rw [Function.update_of_ne hk]
    simp only [pendingOf, hsize, hhead, hslots]
    by_cases hmod : k % q.qSize = n % q.qSize
    · -- the slot held nothing for `k` and now holds `n`
      rw [hmod, Function.update_self, hm, if_neg (by omega), if_neg (by omega)]
    · rw [Function.update_of_ne hmod]

/-! ### Waiting -/

/-- Slots that wait for a message were stamped, and nothing else changed. -/
def Stamped (ts : ℤ) (q q' : RecvQueue) : Prop :=
  q'.tailSeq = q.tailSeq ∧ ∀ i, q'.msgsRecv i = q.msgsRecv i ∨
    q.isEmpty i = true ∧ q'.msgsRecv i = (q.msgsRecv i).setTimestamp ts

lemma Stamped.refl (ts : ℤ) (q : RecvQueue) : Stamped ts q q := ⟨rfl, fun _ => Or.inl rfl⟩

lemma isEmpty_stamp (q : RecvQueue) (index i : ℕ) (ts : ℤ) :
    (q.setSlot index ((q.msgsRecv index).setTimestamp ts)).isEmpty i = q.isEmpty i := by
  have hs := RecvQueue.setTimestamp_same q index ts
  simp only [RecvQueue.isEmpty, RMessage.isEmpty, hs.seq, hs.headSeq]

lemma Stamped.cons {ts : ℤ} {index : ℕ} (he : q.isEmpty index = true)
    (h : Stamped ts (q.setSlot index ((q.msgsRecv index).setTimestamp ts)) q') :
    Stamped ts q q' := by
  obtain ⟨htail, hslot⟩ := h
  refine ⟨htail, fun i => ?_⟩
  have h := hslot i
  rw [isEmpty_stamp] at h
  by_cases hi : i = index
  · subst hi
    refine Or.inr ⟨he, ?_⟩
    rcases h with h | ⟨-, h⟩
    · rw [h]
      simp [RecvQueue.setSlot]
    · rw [h]
      simp [RecvQueue.setSlot, RMessage.setTimestamp]
  · have hother : (q.setSlot index ((q.msgsRecv index).setTimestamp ts)).msgsRecv i =
        q.msgsRecv i := by simp [RecvQueue.setSlot, hi]
    rwa [hother] at h

lemma stampMissing_stamped {ts : ℤ} {fuel endSeqNo k : ℕ}
    (h : RecvQueue.stampMissing ts fuel endSeqNo q = some (q', k)) : Stamped ts q q' := by
  induction fuel generalizing endSeqNo q with
  | zero => cases h
  | succ fuel ih =>
    simp only [RecvQueue.stampMissing] at h
    split at h
    · next he => exact .cons he (ih h)
    · cases h
      exact .refl ts _

lemma stampMissing_isSome {ts : ℤ} {fuel endSeqNo m : ℕ} (hle : endSeqNo ≤ m)
    (hm : m < endSeqNo + fuel) (hlt : m < 2 ^ 64) (hthere : q.isEmpty (m % q.qSize) = false) :
    (RecvQueue.stampMissing ts fuel endSeqNo q).isSome := by
  induction fuel generalizing endSeqNo q with
  | zero => omega
  | succ fuel ih =>
    simp only [RecvQueue.stampMissing]
    split
    · next he =>
      have hne : endSeqNo ≠ m := by
        rintro rfl
        rw [he] at hthere
        cases hthere
      rw [ulong_of_lt (by omega)]
      refine ih (by omega) (by omega) ?_
      rw [isEmpty_stamp]
      exact hthere
    · rfl

lemma Inv.isEmpty_iff (h : Inv q) : q.isEmpty i = true ↔ (q.msgsRecv i).seq = 0 := by
  simp only [RecvQueue.isEmpty, RMessage.isEmpty, Bool.or_eq_true, decide_eq_true_eq]
  refine ⟨fun hi => ?_, Or.inl⟩
  by_contra hne
  have hlt := (h.slot hne).2.1
  omega

lemma Inv.tail_awaited (h : Inv q) (ht : q.headSeq < q.tailSeq) :
    Awaited q q.tailSeq ∧ q.tailSeq < 2 ^ 64 := by
  have hseq := h.tail ht
  have hne : (q.msgsRecv (q.tailSeq % q.qSize)).seq ≠ 0 := by omega
  have hslot := (h.slot hne).2
  have hlt := (h.ordered.slot _ hne).2.1
  simp only at hlt
  rw [hseq] at hslot hlt
  exact ⟨hslot, hlt⟩

lemma Inv.head_eq (h : Inv q) (hlt : q.headSeq + 1 < 2 ^ 64) :
    (q.headSeq + 1) % q.qSize = q.head := (h.ordered.head hlt).symm

lemma waitMsg_stamped {ts : ℤ} (h : Inv q) (hw : q.waitMsg ts = some q') :
    Stamped ts q q' := by
  unfold RecvQueue.waitMsg at hw
  split at hw
  · next hempty =>
    split at hw
    · next ht =>
      obtain ⟨⟨r, b⟩, hr, rfl⟩ := Option.map_eq_some_iff.mp hw
      obtain ⟨hreach, hlt⟩ := h.tail_awaited ht
      simp only [RecvQueue.addResendRequest, ulong_of_lt (show q.headSeq + 1 < 2 ^ 64 by omega),
        h.head_eq (by omega)] at hr
      split at hr
      · cases hr
        exact .refl ts _
      · obtain ⟨⟨u, k⟩, hu, hr⟩ := Option.map_eq_some_iff.mp hr
        cases hr
        obtain ⟨htail, hslot⟩ := Stamped.cons hempty (stampMissing_stamped hu)
        exact ⟨htail, hslot⟩
    · cases hw
      exact .refl ts _
  · cases hw

/-- A waiting round comes to its end where nothing lies at the head. -/
lemma waitMsg_isSome (h : Inv q) (ts : ℤ) (hempty : (q.msgsRecv q.head).seq = 0) :
    (q.waitMsg ts).isSome := by
  unfold RecvQueue.waitMsg
  rw [if_pos (h.isEmpty_iff.mpr hempty)]
  split
  · next ht =>
    obtain ⟨hreach, hlt⟩ := h.tail_awaited ht
    have hseq := h.tail ht
    have hone : ulong (q.headSeq + 1) = q.headSeq + 1 := ulong_of_lt (by omega)
    have hne : q.tailSeq ≠ q.headSeq + 1 := by
      intro he
      rw [he, h.head_eq (by omega), hempty] at hseq
      omega
    have htwo : ulong (q.headSeq + 1 + 1) = q.headSeq + 1 + 1 :=
      ulong_of_lt (by have := hreach.1; omega)
    have hthere : q.isEmpty (q.tailSeq % q.qSize) = false := by
      rw [Bool.eq_false_iff, ne_eq, h.isEmpty_iff, hseq]
      omega
    simp only [RecvQueue.addResendRequest, hone, htwo, Option.isSome_map]
    split
    · rfl
    · rw [Option.isSome_map]
      have hin := hreach.2
      unfold InReach at hin
      exact stampMissing_isSome (m := q.tailSeq) (by omega) (by omega) hlt
        (by rw [isEmpty_stamp]; exact hthere)
  · rfl

lemma wait_inv {ts : ℕ} (h : Inv q) (hw : q.waitMsg ts = some q') :
    Inv q' ∧ pendingOf q' = pendingOf q := by
  have hsame := RecvQueue.waitMsg_same hw
  obtain ⟨htail, hslot⟩ := waitMsg_stamped h hw
  refine ⟨⟨h.ordered.congr hsame, h.current.congr hsame rfl, fun i hi => ?_, ?_⟩, ?_⟩
  · rw [hsame.seq] at hi
    rcases hslot i with hs | ⟨-, hs⟩
    · rw [hs]
      exact h.unmarked i hi
    · rw [hs]
      simp only [RMessage.setTimestamp]
      omega
  · rw [hsame.headSeq, htail, hsame.seq, hsame.qSize]
    exact h.tail
  · funext k
    simp only [pendingOf, hsame.headSeq, hsame.seq, hsame.qSize]
    split
    · next hk =>
      rcases hslot (k % q.qSize) with hs | ⟨he, -⟩
      · rw [hs]
      · have := h.isEmpty_iff.mp he
        omega
    · rfl

/-! ### Storing -/

/-- A number in the window is stored in its slot. -/
lemma store_inv (q' : RecvQueue) {m : RMessage} (h : Inv q) (hn : Awaited q n)
    (hlt : n < 2 ^ 64) (hm : m.seq = n) (hsize : q'.qSize = q.qSize)
    (hhead : q'.head = q.head) (hseq : q'.headSeq = q.headSeq)
    (hslots : q'.msgsRecv = Function.update q.msgsRecv (n % q.qSize) m)
    (htail : q'.tailSeq = q.tailSeq ∨ q'.tailSeq = n) :
    Inv q' ∧ pendingOf q' = Function.update (pendingOf q) n (some (entryOf m)) := by
  have hslot : ∀ i, (q'.msgsRecv i).seq =
      if i = n % q.qSize then n else (q.msgsRecv i).seq := by
    intro i
    rw [hslots]
    by_cases hi : i = n % q.qSize
    · subst hi
      simp [hm]
    · simp [hi]
  have hpos := hn.1
  refine ⟨⟨h.ordered.store hlt hn.2 hsize hhead hseq hslot,
    h.current.store hn.1 hseq rfl hslot, fun i hi => ?_, fun ht => ?_⟩,
    pendingOf_setSlot hn.1 (h.seq_slot hn) hm hsize hseq hslots⟩
  · rw [hslot] at hi
    split at hi
    · omega
    · next hne =>
      rw [hslots, Function.update_of_ne hne]
      exact h.unmarked i hi
  · rw [hsize, hslot]
    rw [hseq] at ht
    rcases htail with he | he
    · rw [he] at ht ⊢
      split
      · next hmod =>
        -- the tail was in this slot
        have ha := h.tail_awaited ht
        exact (eq_of_mod_eq ha.1.1 ha.1.2 hn.1 hn.2 hmod).symm
      · exact h.tail ht
    · rw [he, if_pos rfl]

lemma put_inv {msg : RMessage} (h : Inv q) (hn : Awaited q msg.seq) (hlt : msg.seq < 2 ^ 64)
    (hq : q.put msg = some q') (got : List (ℕ × Entry)) :
    Inv q' ∧ toBuffer ⟨q', got⟩ =
      (toBuffer ⟨q, got⟩).store msg.seq (.msg msg.data msg.msgTypePos) := by
  have hpos := hn.1
  unfold RecvQueue.put at hq
  simp only at hq
  split at hq
  · next hge =>
    cases hq
    have hseq : (q.msgsRecv (msg.seq % q.qSize)).seq = msg.seq := by
      rcases h.seq_slot hn with h0 | h0
      · omega
      · exact h0
    have hsome : pendingOf q msg.seq = some (entryOf (q.msgsRecv (msg.seq % q.qSize))) :=
      pendingOf_eq_some.mpr ⟨hn.1, hseq, rfl⟩
    exact ⟨h, (Buffer.store_eq_of_some (b := toBuffer ⟨q, got⟩) hsome).symm⟩
  · split at hq
    · next he =>
      cases hq
      have h0 : (q.msgsRecv (msg.seq % q.qSize)).seq = 0 := by simpa [RMessage.isEmpty] using he
      have hnone : pendingOf q msg.seq = none := by
        rw [pendingOf, if_neg]
        omega
      have hentry : entryOf ((q.msgsRecv (msg.seq % q.qSize)).copy msg) =
          .msg msg.data msg.msgTypePos := by
        have := h.unmarked _ h0
        simp [entryOf, RMessage.isGf, RMessage.copy, this]
      obtain ⟨hinv, hpending⟩ := store_inv
        { q.setSlot (msg.seq % q.qSize) ((q.msgsRecv (msg.seq % q.qSize)).copy msg) with
          tailSeq := if q.tailSeq < msg.seq then msg.seq else q.tailSeq }
        (m := (q.msgsRecv (msg.seq % q.qSize)).copy msg) h hn hlt rfl rfl rfl rfl rfl
        (by simp only; split <;> simp)
      refine ⟨hinv, ?_⟩
      rw [Buffer.store_eq_of_none hnone]
      simp only [toBuffer, hpending, hentry]
      rfl
    · cases hq

lemma put_isSome {msg : RMessage} (h : Inv q) (hn : Awaited q msg.seq) :
    (q.put msg).isSome := by
  unfold RecvQueue.put
  simp only
  rcases h.seq_slot hn with h0 | h0
  · split
    · rfl
    · simp [RMessage.isEmpty, h0]
  · simp [h0]

lemma setGf_inv (h : Inv q) (hn : Awaited q n) (hlt : n < 2 ^ 64)
    (hdata : ∀ data pos, pendingOf q n ≠ some (.msg data pos)) (got : List (ℕ × Entry)) :
    Inv (q.setGf n) ∧
      toBuffer ⟨q.setGf n, got⟩ = (toBuffer ⟨q, got⟩).store n .gapFill := by
  have hentry : entryOf ((q.msgsRecv (n % q.qSize)).setGf n) = .gapFill := rfl
  obtain ⟨hinv, hpending⟩ := store_inv (q.setGf n) h hn hlt rfl rfl rfl rfl rfl (Or.inl rfl)
  refine ⟨hinv, ?_⟩
  have hgap : pendingOf q n = none ∨ pendingOf q n = some .gapFill := by
    rcases hp : pendingOf q n with - | ⟨data, pos⟩ | -
    · exact Or.inl rfl
    · exact absurd hp (hdata data pos)
    · exact Or.inr rfl
  rcases hgap with hp | hp
  · rw [Buffer.store_eq_of_none (b := toBuffer ⟨q, got⟩) hp]
    simp only [toBuffer, hpending, hentry]
    rfl
  · rw [Buffer.store_eq_of_some (b := toBuffer ⟨q, got⟩) hp]
    simp only [toBuffer, hpending, hentry, ← hp, Function.update_eq_self]
    rfl

lemma fill_inv (h : Inv q) (l : List ℕ) (hl : ∀ i ∈ l, i < 2 ^ 64 ∧ Awaited q i ∧
    ∀ data pos, pendingOf q i ≠ some (.msg data pos)) (got : List (ℕ × Entry)) :
    Inv (l.foldl RecvQueue.setGf q) ∧ toBuffer ⟨l.foldl RecvQueue.setGf q, got⟩ =
      (l.map fun i => (i, Entry.gapFill)).foldl (fun b ne => b.store ne.1 ne.2)
        (toBuffer ⟨q, got⟩) := by
  induction l generalizing q with
  | nil => exact ⟨h, rfl⟩
  | cons n l ih =>
    obtain ⟨hlt, hn, hdata⟩ := hl n (by simp)
    obtain ⟨hinv, hbuf⟩ := setGf_inv h hn hlt hdata got
    rw [List.foldl_cons, List.map_cons, List.foldl_cons, ← hbuf]
    refine ih hinv fun i hi => ?_
    obtain ⟨hlt', hn', hdata'⟩ := hl i (by simp [hi])
    refine ⟨hlt', hn', fun data pos => ?_⟩
    have hpending : pendingOf (q.setGf n) i = ((toBuffer ⟨q, got⟩).store n .gapFill).pending i := by
      rw [← hbuf]
      rfl
    rw [hpending, Buffer.store]
    by_cases hin : i = n
    · subst hin
      simp only [Function.update_self]
      rcases hp : pendingOf q i with - | ⟨d, p⟩ | -
      · simp [toBuffer, hp]
      · exact absurd hp (hdata d p)
      · simp [toBuffer, hp]
    · simp only [Function.update_of_ne hin]
      exact hdata' data pos

/-! ### Taking -/

/-- `get` goes on if and only if the next number is there. -/
lemma Inv.get_isSome_iff (h : Inv q) :
    q.get.isSome ↔ (pendingOf q (q.headSeq + 1)).isSome := by
  rw [Option.isSome_iff_exists, Option.isSome_iff_exists]
  constructor
  · rintro ⟨⟨q', index⟩, hg⟩
    have hnext := h.ordered.get_seq hg
    obtain ⟨rfl, hne, -, -⟩ := RecvQueue.get_eq_some hg
    rw [← hnext]
    exact ⟨_, h.pendingOf_slot hne⟩
  · rintro ⟨e, he⟩
    obtain ⟨-, hseq, -⟩ := pendingOf_eq_some.mp he
    have hne : (q.msgsRecv ((q.headSeq + 1) % q.qSize)).seq ≠ 0 := by omega
    have hlt := (h.ordered.slot _ hne).2.1
    simp only [hseq] at hlt
    rw [h.head_eq hlt] at hseq
    have hempty : q.isEmpty q.head = false := by
      rw [Bool.eq_false_iff, ne_eq, h.isEmpty_iff, hseq]
      omega
    simp [RecvQueue.get, hempty]

/-- The entry of the next number is returned, and its slot is free again. -/
lemma get_inv (h : Inv q) {index : ℕ} (hg : q.get = some (q', index)) (got : List (ℕ × Entry)) :
    Inv (q'.resetSlot index) ∧ (toBuffer ⟨q, got⟩).take = some (toBuffer ⟨q'.resetSlot index,
      got ++ [((q'.msgsRecv index).seq, entryOf (q'.msgsRecv index))]⟩) := by
  have hnext := h.ordered.get_seq hg
  have hordered := (h.ordered.take hg).reset index
  have hcurrent := (h.current.take h.ordered rfl hg).reset
  obtain ⟨rfl, hne, hlt, rfl⟩ := RecvQueue.get_eq_some hg
  simp only at hnext hne
  have hpending := h.pendingOf_slot hne
  have hmod := (h.slot hne).1
  rw [hnext] at hpending hmod
  refine ⟨⟨hordered, hcurrent, fun i hi => ?_, fun ht => ?_⟩, ?_⟩
  · by_cases he : i = q.head
    · subst he
      simp [RecvQueue.resetSlot, RecvQueue.setSlot, RMessage.reset]
    · rw [RecvQueue.resetSlot_seq, if_neg he] at hi
      simpa [RecvQueue.resetSlot, RecvQueue.setSlot, he] using h.unmarked i hi
  · simp only [RecvQueue.resetSlot, RecvQueue.setSlot, hnext] at ht ⊢
    have htail := h.tail (by omega)
    have hother : q.tailSeq % q.qSize ≠ q.head := by
      intro he
      rw [he, hnext] at htail
      omega
    rw [Function.update_of_ne hother]
    exact htail
  · rw [Buffer.take_eq_some (b := toBuffer ⟨q, got⟩) hpending]
    simp only [toBuffer, RecvQueue.resetSlot, RecvQueue.setSlot, hnext, Option.some.injEq,
      Buffer.mk.injEq, and_true, true_and]
    funext k
    by_cases hk : k = q.headSeq + 1
    · subst hk
      simp [pendingOf]
    · rw [Function.update_of_ne hk]
      by_cases hslot : k % q.qSize = q.head
      · -- the slot held the number taken
        simp only [pendingOf, hslot, Function.update_self, RMessage.reset, hnext]
        rw [if_neg (by omega), if_neg (by omega)]
      · simp only [pendingOf, Function.update_of_ne hslot]
        have hiff : q.headSeq + 1 < k ∧ (q.msgsRecv (k % q.qSize)).seq = k ↔
            q.headSeq < k ∧ (q.msgsRecv (k % q.qSize)).seq = k := by
          constructor <;> rintro ⟨h1, h2⟩ <;> exact ⟨by omega, h2⟩
        simp only [hiff]

/-! ### Runs -/

lemma step_refines {s t : State} {a : Act} (h : Inv s.queue) (hok : Admitted s a)
    (hs : step s a = some t) :
    Inv t.queue ∧ Buffer.step (toBuffer s) (toOp a) = some (toBuffer t) := by
  cases a with
  | put msg =>
    simp only [step] at hs
    split at hs
    · next hlt =>
      obtain ⟨q, hq, rfl⟩ := Option.map_eq_some_iff.mp hs
      obtain ⟨hinv, hbuf⟩ := put_inv h hok hlt hq s.got
      exact ⟨hinv, congrArg some hbuf.symm⟩
    · cases hs
  | updateSeq c n =>
    cases hs
    obtain ⟨hinv, hbuf⟩ := fill_inv h _ (fun i hi => ⟨gapFill_lt hi, hok i hi⟩) s.got
    exact ⟨hinv, congrArg some hbuf.symm⟩
  | wait ts =>
    obtain ⟨q, hq, rfl⟩ := Option.map_eq_some_iff.mp hs
    obtain ⟨hinv, hpending⟩ := wait_inv h hq
    have hsame := RecvQueue.waitMsg_same hq
    refine ⟨hinv, ?_⟩
    have hnone : ¬ (pendingOf s.queue (s.queue.headSeq + 1)).isSome := by
      rw [← h.get_isSome_iff]
      unfold RecvQueue.waitMsg at hq
      split at hq
      · next he => simp [RecvQueue.get, he]
      · cases hq
    have hstep : (toBuffer s).step .wait = some (toBuffer s) := if_neg hnone
    rw [toOp, hstep, toBuffer, toBuffer, hpending, hsame.headSeq]
  | get =>
    obtain ⟨⟨q, index⟩, hq, rfl⟩ := Option.map_eq_some_iff.mp hs
    exact get_inv h hq s.got

lemma start_inv {size : ℕ} (hsize : 2 ≤ size) (seq : UInt64) : Inv (start size seq).queue := by
  refine ⟨start_ordered (by omega) seq, fun _ _ hne => absurd rfl hne, fun _ _ => ?_,
    fun h => ?_⟩
  · simp [start, RecvQueue.setHeadSeq, RecvQueue.new]
  · exact absurd h (lt_irrefl _)

lemma start_toBuffer (size : ℕ) (seq : UInt64) :
    toBuffer (start size seq) = Buffer.new seq.toNat := by
  simp only [toBuffer, Buffer.new, Buffer.mk.injEq]
  refine ⟨rfl, funext fun n => ?_, rfl⟩
  simp only [pendingOf, start, RecvQueue.setHeadSeq, RecvQueue.new]
  exact if_neg fun h => by omega

lemma run_toBuffer {size : ℕ} (hsize : 2 ≤ size) {seq : UInt64} {acts : List Act}
    (hok : Meets step Admitted (start size seq) acts) {s : State}
    (hr : run step (start size seq) acts = some s) :
    Inv s.queue ∧ run Buffer.step (Buffer.new seq.toNat) (acts.map toOp) = some (toBuffer s) := by
  obtain ⟨b, hb, hinv, rfl⟩ := run_sim (f := toOp) (R := fun s b => Inv s.queue ∧ b = toBuffer s)
    (fun s b a t hR hok hs => by
      obtain ⟨hinv, rfl⟩ := hR
      obtain ⟨hinv', hstep⟩ := step_refines hinv hok hs
      exact ⟨_, hstep, hinv', rfl⟩)
    ⟨start_inv hsize seq, rfl⟩ hok hr
  rw [start_toBuffer] at hb
  exact ⟨hinv, hb⟩

/-- **The receive queue is an in-order reassembly buffer.** Every run that stores only numbers
in the window, and no gap fill over a message, is a run of the buffer. The occupied slots are the
numbers that wait; `get` goes on if and only if the next number is among them, and no message has
to wait for its slot. -/
theorem run_refines {size : ℕ} (hsize : 2 ≤ size) {seq : UInt64} {acts : List Act}
    (hok : Meets step Admitted (start size seq) acts) {s : State}
    (hr : run step (start size seq) acts = some s) :
    run Buffer.step (Buffer.new seq.toNat) (acts.map toOp) = some (toBuffer s) ∧
      (∀ n, pendingOf s.queue n ≠ none → Awaited s.queue n) ∧
      (∀ i, (s.queue.msgsRecv i).seq ≠ 0 → i = (s.queue.msgsRecv i).seq % s.queue.qSize ∧
        pendingOf s.queue (s.queue.msgsRecv i).seq = some (entryOf (s.queue.msgsRecv i))) ∧
      ((step s .get).isSome ↔ (pendingOf s.queue (s.queue.headSeq + 1)).isSome) ∧
      ∀ msg, msg.seq < 2 ^ 64 → Awaited s.queue msg.seq → (step s (.put msg)).isSome := by
  obtain ⟨hinv, hb⟩ := run_toBuffer hsize hok hr
  refine ⟨hb, fun n hn => hinv.pendingOf_awaited hn,
    fun i hi => ⟨(hinv.slot hi).1.symm, hinv.pendingOf_slot hi⟩, ?_, fun msg hlt hn => ?_⟩
  · rw [← hinv.get_isSome_iff, step, Option.isSome_map]
  · rw [step, if_pos hlt, Option.isSome_map]
    exact put_isSome hinv hn

/-- Number `2` arrives before `1`, and both are taken. -/
def crossed : List Act := [.put (.new [7] 0 2), .put (.new [8] 0 1), .get, .get]

def afterCrossed : State := (run step (start 4 0) crossed).get rfl

theorem run_refines_crossed :
    run Buffer.step (Buffer.new (UInt64.toNat 0)) (crossed.map toOp) =
        some (toBuffer afterCrossed) ∧
      (∀ n, pendingOf afterCrossed.queue n ≠ none → Awaited afterCrossed.queue n) ∧
      (∀ i, (afterCrossed.queue.msgsRecv i).seq ≠ 0 →
        i = (afterCrossed.queue.msgsRecv i).seq % afterCrossed.queue.qSize ∧
          pendingOf afterCrossed.queue (afterCrossed.queue.msgsRecv i).seq =
            some (entryOf (afterCrossed.queue.msgsRecv i))) ∧
      ((step afterCrossed .get).isSome ↔
        (pendingOf afterCrossed.queue (afterCrossed.queue.headSeq + 1)).isSome) ∧
      ∀ msg, msg.seq < 2 ^ 64 → Awaited afterCrossed.queue msg.seq →
        (step afterCrossed (.put msg)).isSome := by
  have hok : Meets step Admitted (start 4 0) crossed := by
    refine fun t ht => ⟨⟨by decide, by unfold InReach; decide⟩, fun u hu => ⟨?_, ?_⟩⟩
    · cases ht
      exact ⟨by decide, by unfold InReach; decide⟩
    · exact fun v hv => ⟨trivial, fun w hw => ⟨trivial, trivial⟩⟩
  exact run_refines (by decide) hok (Option.some_get _).symm

/-- **The consumer never gets stuck**: in every state of such a run `get` takes the next message,
or there is none and the waiting round comes to its end. -/
theorem run_goesOn {size : ℕ} (hsize : 2 ≤ size) {seq : UInt64} {acts : List Act}
    (hok : Meets step Admitted (start size seq) acts) {s : State}
    (hr : run step (start size seq) acts = some s) (ts : ℕ) :
    (step s .get).isSome ∨ (step s (.wait ts)).isSome := by
  obtain ⟨hinv, -⟩ := run_toBuffer hsize hok hr
  by_cases hempty : (s.queue.msgsRecv s.queue.head).seq = 0
  · right
    rw [step, Option.isSome_map]
    exact waitMsg_isSome hinv ts hempty
  · left
    rw [step, Option.isSome_map, RecvQueue.get, if_neg (mt hinv.isEmpty_iff.mp hempty)]
    rfl

end Ufix.InOrderQueue
