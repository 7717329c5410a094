import Ufix.Delivery

/-!
The data messages that `put` accepted and `get` did not return yet, against the gap fills of
`update_seq`.

A gap fill is written to the slot of its number, whatever lies there. Where no range meets the
slot of such a message, and no step runs past it, it stays as it came until `get` returns it.
-/

namespace Ufix.Undelivered

open Ufix.Runs Ufix.Delivery

/-- The queue with its consumer, the messages accepted and not returned yet, and the slots as
`get` returned them. -/
structure State where
  queue : RecvQueue
  taken : Option ℕ
  pending : List RMessage
  got : List RMessage

/-- What lies in a slot is this message, with its number and its bytes and not as a gap fill. -/
def Holds (slot msg : RMessage) : Prop :=
  slot.seq = msg.seq ∧ slot.data = msg.data ∧ slot.msgTypePos = msg.msgTypePos ∧
    slot.isGf = false

instance (slot msg : RMessage) : Decidable (Holds slot msg) :=
  inferInstanceAs (Decidable (_ ∧ _ ∧ _ ∧ _))

def slotOf (q : RecvQueue) (msg : RMessage) : RMessage := q.msgsRecv (msg.seq % q.qSize)

/-- `put` takes the message and does not discard it. -/
def accepts (q : RecvQueue) (msg : RMessage) : Bool := (slotOf q msg).seq < msg.seq

def step (s : State) (a : Act) : Option State :=
  (Delivery.step ⟨s.queue, s.taken⟩ a).map fun t =>
    match a with
    | .put msg =>
      ⟨t.queue, t.taken, if accepts s.queue msg then s.pending ++ [msg] else s.pending, s.got⟩
    | .get =>
      let slot := s.queue.msgsRecv s.queue.head
      ⟨t.queue, t.taken, s.pending.filter fun msg => ¬ Holds slot msg, s.got ++ [slot]⟩
    | _ => ⟨t.queue, t.taken, s.pending, s.got⟩

def start (size : ℕ) (seq : UInt64) : State :=
  ⟨(Delivery.start size seq).queue, none, [], []⟩

/-- No number of the gap fill has the slot of a message that waits. -/
def Clear (s : State) (currentSeqNo newSeqNo : UInt64) : Prop :=
  ∀ i ∈ RecvQueue.gapFill currentSeqNo.toNat newSeqNo.toNat, ∀ msg ∈ s.pending,
    i % s.queue.qSize ≠ msg.seq % s.queue.qSize

/-- A gap fill meets no message that waits; a message is accepted past the head and in a slot
without the mark of a gap fill; what `get` returns does not run past a message that waits. -/
def Undisturbed (s : State) : Act → Prop
  | .put msg => accepts s.queue msg = true →
      s.queue.headSeq < msg.seq ∧ (slotOf s.queue msg).isGf = false
  | .updateSeq c n => Clear s c n
  | .wait ts => ts ≠ -1
  | .get => ∀ msg ∈ s.pending, (s.queue.msgsRecv s.queue.head).seq ≤ msg.seq
  | .reset => True

/-- The messages that wait lie in their slots, and the head is before them. -/
def Intact (s : State) : Prop :=
  ∀ msg ∈ s.pending, Holds (slotOf s.queue msg) msg ∧ s.queue.headSeq < msg.seq

/-- What holds in every state of an undisturbed run: each number lies in its own slot, and the slot
the consumer holds is neither free nor that of a message that waits. -/
structure Inv (s : State) : Prop where
  slot : ∀ i, (s.queue.msgsRecv i).seq ≠ 0 → (s.queue.msgsRecv i).seq % s.queue.qSize = i
  head : s.queue.head < s.queue.qSize
  held : ∀ i, s.taken = some i →
    (s.queue.msgsRecv i).seq ≠ 0 ∨ (s.queue.msgsRecv i).isGf = true
  apart : ∀ i, s.taken = some i → ∀ msg ∈ s.pending, msg.seq % s.queue.qSize ≠ i
  intact : Intact s

/-! ### Slots -/

def Kept (q q' : RecvQueue) : Prop :=
  q'.qSize = q.qSize ∧ q'.head = q.head ∧ q'.headSeq = q.headSeq ∧
    ∀ i, (q'.msgsRecv i).seq = (q.msgsRecv i).seq ∧ (q'.msgsRecv i).data = (q.msgsRecv i).data ∧
      (q'.msgsRecv i).msgTypePos = (q.msgsRecv i).msgTypePos ∧
      ((q.msgsRecv i).isGf = false → (q'.msgsRecv i).isGf = false)

lemma Kept.refl (q : RecvQueue) : Kept q q := ⟨rfl, rfl, rfl, fun _ => ⟨rfl, rfl, rfl, id⟩⟩

lemma Kept.trans {q₁ q₂ q₃ : RecvQueue} (h : Kept q₁ q₂) (h' : Kept q₂ q₃) : Kept q₁ q₃ := by
  obtain ⟨h1, h2, h3, h4⟩ := h
  obtain ⟨h1', h2', h3', h4'⟩ := h'
  refine ⟨h1'.trans h1, h2'.trans h2, h3'.trans h3, fun i => ?_⟩
  obtain ⟨ha, hb, hc, hd⟩ := h4 i
  obtain ⟨ha', hb', hc', hd'⟩ := h4' i
  exact ⟨ha'.trans ha, hb'.trans hb, hc'.trans hc, fun h => hd' (hd h)⟩

lemma setTimestamp_kept (q : RecvQueue) (index : ℕ) {ts : ℤ} (hts : ts ≠ -1) :
    Kept q (q.setSlot index ((q.msgsRecv index).setTimestamp ts)) := by
  refine ⟨rfl, rfl, rfl, fun i => ?_⟩
  by_cases hi : i = index
  · subst hi
    simp [RecvQueue.setSlot, RMessage.setTimestamp, RMessage.isGf, hts]
  · simp [RecvQueue.setSlot, hi]

lemma stampMissing_kept {ts : ℤ} (hts : ts ≠ -1) {n endSeqNo k : ℕ} {q q' : RecvQueue}
    (h : RecvQueue.stampMissing ts n endSeqNo q = some (q', k)) : Kept q q' := by
  induction n generalizing endSeqNo q with
  | zero => cases h
  | succ n ih =>
    simp only [RecvQueue.stampMissing] at h
    split at h
    · exact (setTimestamp_kept q _ hts).trans (ih h)
    · cases h
      exact .refl _

lemma waitMsg_kept {ts : ℤ} (hts : ts ≠ -1) {q q' : RecvQueue} (h : q.waitMsg ts = some q') :
    Kept q q' := by
  unfold RecvQueue.waitMsg at h
  split at h
  · split at h
    · obtain ⟨⟨r, b⟩, hr, rfl⟩ := Option.map_eq_some_iff.mp h
      unfold RecvQueue.addResendRequest at hr
      simp only at hr
      split at hr
      · cases hr
        exact .refl _
      · obtain ⟨⟨u, k⟩, hu, hr⟩ := Option.map_eq_some_iff.mp hr
        cases hr
        have hkept := (setTimestamp_kept q _ hts).trans (stampMissing_kept hts hu)
        exact ⟨hkept.1, hkept.2.1, hkept.2.2.1, hkept.2.2.2⟩
    · cases h
      exact .refl _
  · cases h

lemma Kept.holds {q q' : RecvQueue} (h : Kept q q') {msg : RMessage}
    (hm : Holds (slotOf q msg) msg) : Holds (slotOf q' msg) msg := by
  obtain ⟨hsize, -, -, hslot⟩ := h
  obtain ⟨h1, h2, h3, h4⟩ := hslot (msg.seq % q.qSize)
  obtain ⟨g1, g2, g3, g4⟩ := hm
  unfold slotOf at g1 g2 g3 g4 ⊢
  rw [hsize]
  exact ⟨h1.trans g1, h2.trans g2, h3.trans g3, h4 g4⟩

lemma put_spec {q q' : RecvQueue} {msg : RMessage} (h : q.put msg = some q') :
    accepts q msg = false ∧ q' = q ∨
      accepts q msg = true ∧ (slotOf q msg).seq = 0 ∧ q'.qSize = q.qSize ∧ q'.head = q.head ∧
        q'.headSeq = q.headSeq ∧ q'.msgsRecv =
          Function.update q.msgsRecv (msg.seq % q.qSize) ((slotOf q msg).copy msg) := by
  rcases RecvQueue.put_eq_some h with ⟨hge, rfl⟩ | ⟨h0, hpos, rfl⟩
  · exact Or.inl ⟨decide_eq_false (not_lt.mpr hge), rfl⟩
  · exact Or.inr ⟨decide_eq_true (by rw [slotOf, h0]; exact hpos), h0, rfl, rfl, rfl, rfl⟩

section Fill

variable {q : RecvQueue} {l : List ℕ}

lemma fill_same (q : RecvQueue) (l : List ℕ) :
    (l.foldl RecvQueue.setGf q).qSize = q.qSize ∧ (l.foldl RecvQueue.setGf q).head = q.head ∧
      (l.foldl RecvQueue.setGf q).headSeq = q.headSeq := by
  induction l generalizing q with
  | nil => exact ⟨rfl, rfl, rfl⟩
  | cons n l ih => exact ih (q.setGf n)

/-- The slot of no number of the range stays; the others are marked, with a number of theirs. -/
lemma fill_slot (q : RecvQueue) (l : List ℕ) (j : ℕ) :
    ((∀ i ∈ l, i % q.qSize ≠ j) ∧ (l.foldl RecvQueue.setGf q).msgsRecv j = q.msgsRecv j) ∨
      ∃ i ∈ l, i % q.qSize = j ∧
        (l.foldl RecvQueue.setGf q).msgsRecv j = (q.msgsRecv j).setGf i := by
  induction l using List.reverseRecOn with
  | nil => exact Or.inl ⟨fun i hi => (List.not_mem_nil hi).elim, rfl⟩
  | append_singleton l n ih =>
    have hsize := (fill_same q l).1
    rw [List.foldl_append, List.foldl_cons, List.foldl_nil]
    -- the last number of the slot counts
    by_cases hn : n % q.qSize = j
    · refine Or.inr ⟨n, by simp, hn, ?_⟩
      subst hn
      simp only [RecvQueue.setGf, RecvQueue.setSlot, hsize, Function.update_self]
      rcases ih with ⟨-, h⟩ | ⟨i, -, -, h⟩
      · rw [h]
      · rw [h]
        rfl
    · have hother : ((l.foldl RecvQueue.setGf q).setGf n).msgsRecv j =
          (l.foldl RecvQueue.setGf q).msgsRecv j := by
        simp only [RecvQueue.setGf, RecvQueue.setSlot, hsize]
        exact Function.update_of_ne (Ne.symm hn) _ _
      rw [hother]
      rcases ih with ⟨hne, h⟩ | ⟨i, hi, hmod, h⟩
      · refine Or.inl ⟨fun i hi => ?_, h⟩
        rcases List.mem_append.mp hi with hi | hi
        · exact hne i hi
        · rw [List.mem_singleton.mp hi]
          exact hn
      · exact Or.inr ⟨i, List.mem_append_left _ hi, hmod, h⟩

end Fill

/-! ### Steps -/

variable {s t : State}

/-- **Exactly the gap fills that meet a message that waits change one.** -/
lemma Inv.updateSeq_iff (h : Inv s) (c n : UInt64) :
    (∀ msg ∈ s.pending, slotOf (s.queue.updateSeq c.toNat n.toNat) msg = slotOf s.queue msg) ↔
      Clear s c n := by
  have hsize := (fill_same s.queue (RecvQueue.gapFill c.toNat n.toNat)).1
  simp only [slotOf, RecvQueue.updateSeq, hsize]
  constructor
  · intro hsame i hi msg hmsg hmod
    have hgf := (h.intact msg hmsg).1.2.2.2
    rcases fill_slot s.queue (RecvQueue.gapFill c.toNat n.toNat) (msg.seq % s.queue.qSize) with
      ⟨hne, -⟩ | ⟨k, -, -, hk⟩
    · exact hne i hi hmod
    · have := hsame msg hmsg
      rw [hk] at this
      rw [slotOf, ← this] at hgf
      simp [RMessage.setGf, RMessage.isGf] at hgf
  · intro hclear msg hmsg
    rcases fill_slot s.queue (RecvQueue.gapFill c.toNat n.toNat) (msg.seq % s.queue.qSize) with
      ⟨-, heq⟩ | ⟨k, hk, hmod, -⟩
    · exact heq
    · exact absurd hmod (hclear k hk msg hmsg)

lemma Inv.put (h : Inv s) {msg : RMessage} {q : RecvQueue} (hq : s.queue.put msg = some q)
    (hok : Undisturbed s (.put msg)) :
    Inv ⟨q, s.taken,
      if accepts s.queue msg then s.pending ++ [msg] else s.pending, s.got⟩ := by
  rcases put_spec hq with ⟨hacc, rfl⟩ | ⟨hacc, h0, hsize, hhead, hseq, hslots⟩
  · rw [hacc]
    exact h
  obtain ⟨hlt, hgf⟩ := hok hacc
  have hself : ∀ i, i = msg.seq % s.queue.qSize → q.msgsRecv i = (slotOf s.queue msg).copy msg := by
    intro i hi
    rw [hslots, hi, Function.update_self]
  have hother : ∀ i, i ≠ msg.seq % s.queue.qSize → q.msgsRecv i = s.queue.msgsRecv i := by
    intro i hi
    rw [hslots, Function.update_of_ne hi]
  -- the slot the consumer holds is not free
  have htaken : ∀ i, s.taken = some i → i ≠ msg.seq % s.queue.qSize := by
    rintro i hi rfl
    rcases h.held _ hi with hne | hmark
    · exact hne h0
    · rw [slotOf] at hgf
      rw [hgf] at hmark
      cases hmark
  rw [if_pos hacc]
  refine ⟨fun i hi => ?_, ?_, fun i hi => ?_, fun i hi m hm => ?_, fun m hm => ?_⟩
  · simp only at hi ⊢
    rw [hsize]
    by_cases he : i = msg.seq % s.queue.qSize
    · rw [hself i he]
      exact he.symm
    · rw [hother i he] at hi ⊢
      exact h.slot i hi
  · simp only
    rw [hhead, hsize]
    exact h.head
  · simp only
    rw [hother i (htaken i hi)]
    exact h.held i hi
  · simp only
    rw [hsize]
    rcases List.mem_append.mp hm with hm | hm
    · exact h.apart i hi m hm
    · rw [List.mem_singleton.mp hm]
      exact (htaken i hi).symm
  · simp only [slotOf]
    rw [hsize, hseq]
    rcases List.mem_append.mp hm with hm | hm
    · obtain ⟨hholds, hbefore⟩ := h.intact m hm
      have hne : m.seq % s.queue.qSize ≠ msg.seq % s.queue.qSize := by
        intro he
        have hmseq := hholds.1
        rw [slotOf, he] at hmseq
        rw [slotOf] at h0
        omega
      rw [hother _ hne]
      exact ⟨hholds, hbefore⟩
    · rw [List.mem_singleton.mp hm, hself _ rfl]
      exact ⟨⟨rfl, rfl, rfl, hgf⟩, hlt⟩

lemma Inv.updateSeq (h : Inv s) {c n : UInt64} (hclear : Clear s c n) :
    Inv { s with queue := s.queue.updateSeq c.toNat n.toNat } := by
  obtain ⟨hsize, hhead, hseq⟩ := fill_same s.queue (RecvQueue.gapFill c.toNat n.toNat)
  have hsame := (h.updateSeq_iff c n).mpr hclear
  refine ⟨fun i hi => ?_, ?_, fun i hi => ?_, fun i hi m hm => ?_, fun m hm => ?_⟩
  · simp only [RecvQueue.updateSeq] at hi ⊢
    rw [hsize]
    rcases fill_slot s.queue (RecvQueue.gapFill c.toNat n.toNat) i with ⟨-, heq⟩ | ⟨k, -, hk, heq⟩
    · rw [heq] at hi ⊢
      exact h.slot i hi
    · rw [heq]
      exact hk
  · simp only [RecvQueue.updateSeq]
    rw [hhead, hsize]
    exact h.head
  · simp only [RecvQueue.updateSeq]
    rcases fill_slot s.queue (RecvQueue.gapFill c.toNat n.toNat) i with ⟨-, heq⟩ | ⟨k, -, -, heq⟩
    · rw [heq]
      exact h.held i hi
    · rw [heq]
      exact Or.inr rfl
  · simp only [RecvQueue.updateSeq]
    rw [hsize]
    exact h.apart i hi m hm
  · simp only
    rw [hsame m hm]
    refine ⟨(h.intact m hm).1, ?_⟩
    rw [RecvQueue.updateSeq, hseq]
    exact (h.intact m hm).2

lemma Inv.kept (h : Inv s) {q : RecvQueue} (hk : Kept s.queue q) (hnone : s.taken = none) :
    Inv { s with queue := q } := by
  have hholds := fun m hm => hk.holds (h.intact m hm).1
  obtain ⟨hsize, hhead, hseq, hslot⟩ := hk
  refine ⟨fun i hi => ?_, ?_, fun i hi => ?_, fun i hi => ?_, fun m hm => ⟨hholds m hm, ?_⟩⟩
  · simp only at hi ⊢
    rw [(hslot i).1] at hi ⊢
    rw [hsize]
    exact h.slot i hi
  · simp only
    rw [hhead, hsize]
    exact h.head
  · rw [hnone] at hi
    cases hi
  · rw [hnone] at hi
    cases hi
  · simp only
    rw [hseq]
    exact (h.intact m hm).2

lemma Inv.holds_head (h : Inv s) {msg : RMessage} (hm : msg ∈ s.pending)
    (hhead : msg.seq % s.queue.qSize = s.queue.head) :
    Holds (s.queue.msgsRecv s.queue.head) msg := by
  rw [← hhead]
  exact (h.intact msg hm).1

lemma Inv.get (h : Inv s) {q : RecvQueue} {index : ℕ} (hg : s.queue.get = some (q, index))
    (hok : Undisturbed s .get) :
    Inv ⟨q, some index,
      s.pending.filter fun msg => ¬ Holds (s.queue.msgsRecv s.queue.head) msg,
      s.got ++ [s.queue.msgsRecv s.queue.head]⟩ := by
  obtain ⟨rfl, hne, hlt, rfl⟩ := RecvQueue.get_eq_some hg
  have hhead := h.head
  have hmod := h.slot _ hne
  have hwaits : ∀ m ∈ s.pending.filter fun msg => ¬ Holds (s.queue.msgsRecv s.queue.head) msg,
      m ∈ s.pending ∧ m.seq % s.queue.qSize ≠ s.queue.head := by
    intro m hm
    obtain ⟨hm, hnot⟩ := List.mem_filter.mp hm
    exact ⟨hm, fun he => by simp [h.holds_head hm he] at hnot⟩
  refine ⟨h.slot, ?_, fun i hi => ?_, fun i hi m hm => ?_, fun m hm => ?_⟩
  · simp only
    split <;> omega
  · cases hi
    exact Or.inl hne
  · cases hi
    exact (hwaits m hm).2
  · obtain ⟨hm, hslot⟩ := hwaits m hm
    obtain ⟨hholds, -⟩ := h.intact m hm
    refine ⟨hholds, lt_of_le_of_ne (hok m hm) fun he => hslot ?_⟩
    rw [← he]
    exact hmod

lemma Inv.reset (h : Inv s) {index : ℕ} (ht : s.taken = some index) :
    Inv { s with queue := s.queue.resetSlot index, taken := none } := by
  have hother : ∀ i, i ≠ index →
      (s.queue.resetSlot index).msgsRecv i = s.queue.msgsRecv i :=
    fun i hi => Function.update_of_ne hi _ _
  refine ⟨fun i hi => ?_, h.head, fun i hi => (Option.some_ne_none _ hi.symm).elim,
    fun i hi => (Option.some_ne_none _ hi.symm).elim, fun m hm => ?_⟩
  · simp only at hi ⊢
    by_cases he : i = index
    · rw [RecvQueue.resetSlot_seq, if_pos he] at hi
      exact absurd rfl hi
    · rw [hother i he] at hi ⊢
      exact h.slot i hi
  · have hslot : slotOf (s.queue.resetSlot index) m = slotOf s.queue m :=
      hother _ (h.apart index ht m hm)
    rw [hslot]
    exact h.intact m hm

/-- **What a step preserves.** -/
lemma step_inv {a : Act} (h : Inv s) (hok : Undisturbed s a) (hs : step s a = some t) :
    Inv t := by
  obtain ⟨base, hbase, rfl⟩ := Option.map_eq_some_iff.mp hs
  cases a with
  | put msg =>
    simp only [Delivery.step] at hbase
    split at hbase
    · obtain ⟨q, hq, rfl⟩ := Option.map_eq_some_iff.mp hbase
      exact h.put hq hok
    · cases hbase
  | updateSeq c n =>
    cases hbase
    exact h.updateSeq hok
  | wait ts =>
    simp only [Delivery.step] at hbase
    split at hbase
    · next hnone =>
      obtain ⟨q, hq, rfl⟩ := Option.map_eq_some_iff.mp hbase
      exact h.kept (waitMsg_kept hok hq) hnone
    · cases hbase
  | get =>
    simp only [Delivery.step] at hbase
    split at hbase
    · obtain ⟨⟨q, index⟩, hq, rfl⟩ := Option.map_eq_some_iff.mp hbase
      exact h.get hq hok
    · cases hbase
  | reset =>
    obtain ⟨index, ht, rfl⟩ := Option.map_eq_some_iff.mp hbase
    exact h.reset ht

/-! ### Until it is delivered -/

/-- How many slots the head is before that of the message. -/
def distance (q : RecvQueue) (msg : RMessage) : ℕ :=
  (msg.seq % q.qSize + q.qSize - q.head) % q.qSize

def isGet : Act → Bool
  | .get => true
  | _ => false

def gets (acts : List Act) : ℕ := acts.countP isGet

/-- A step that takes no message leaves the head, the messages and what was returned. -/
lemma step_other {a : Act} (ha : isGet a = false) (hs : step s a = some t) :
    t.queue.qSize = s.queue.qSize ∧ t.queue.head = s.queue.head ∧ t.got = s.got ∧
      ∀ msg ∈ s.pending, msg ∈ t.pending := by
  obtain ⟨b, hb, rfl⟩ := Option.map_eq_some_iff.mp hs
  cases a with
  | put msg =>
    simp only [Delivery.step] at hb
    split at hb
    · obtain ⟨q, hq, rfl⟩ := Option.map_eq_some_iff.mp hb
      have hpending : ∀ m ∈ s.pending,
          m ∈ if accepts s.queue msg then s.pending ++ [msg] else s.pending := by
        intro m hm
        split
        · exact List.mem_append_left _ hm
        · exact hm
      rcases put_spec hq with ⟨-, rfl⟩ | ⟨-, -, hsize, hhead, -, -⟩
      · exact ⟨rfl, rfl, rfl, hpending⟩
      · exact ⟨hsize, hhead, rfl, hpending⟩
    · cases hb
  | updateSeq c n =>
    cases hb
    obtain ⟨hsize, hhead, -⟩ := fill_same s.queue (RecvQueue.gapFill c.toNat n.toNat)
    exact ⟨hsize, hhead, rfl, fun _ hm => hm⟩
  | wait ts =>
    simp only [Delivery.step] at hb
    split at hb
    · obtain ⟨q, hq, rfl⟩ := Option.map_eq_some_iff.mp hb
      have hsame := RecvQueue.waitMsg_same hq
      exact ⟨hsame.qSize, hsame.head, rfl, fun _ hm => hm⟩
    · cases hb
  | get => cases ha
  | reset =>
    obtain ⟨index, -, rfl⟩ := Option.map_eq_some_iff.mp hb
    exact ⟨rfl, rfl, rfl, fun _ hm => hm⟩

/-- A `get` returns the message or comes one slot closer to it. -/
lemma Inv.step_get (h : Inv s) (hs : step s .get = some t) :
    (∀ x ∈ s.got, x ∈ t.got) ∧ ∀ msg ∈ s.pending, (∃ x ∈ t.got, Holds x msg) ∨
      msg ∈ t.pending ∧ distance t.queue msg + 1 = distance s.queue msg := by
  obtain ⟨b, hb, rfl⟩ := Option.map_eq_some_iff.mp hs
  simp only [Delivery.step] at hb
  split at hb
  · obtain ⟨⟨q, index⟩, hq, rfl⟩ := Option.map_eq_some_iff.mp hb
    obtain ⟨-, -, -, rfl⟩ := RecvQueue.get_eq_some hq
    refine ⟨fun x hx => List.mem_append_left _ hx, fun msg hm => ?_⟩
    by_cases hholds : Holds (s.queue.msgsRecv s.queue.head) msg
    · exact Or.inl ⟨_, List.mem_append_right _ (List.mem_singleton_self _), hholds⟩
    · have hne : msg.seq % s.queue.qSize ≠ s.queue.head := fun he => hholds (h.holds_head hm he)
      have hhead := h.head
      have hslot := Nat.mod_lt msg.seq (show 0 < s.queue.qSize by omega)
      refine Or.inr ⟨List.mem_filter.mpr ⟨hm, by simp [hholds]⟩, ?_⟩
      simp only [distance]
      generalize msg.seq % s.queue.qSize = j at hne hslot ⊢
      rcases Nat.lt_or_ge s.queue.head j with hlt | hge
      · rw [if_neg (by omega), show j + s.queue.qSize - s.queue.head =
            j - s.queue.head + s.queue.qSize by omega,
          show j + s.queue.qSize - (s.queue.head + 1) =
            j - (s.queue.head + 1) + s.queue.qSize by omega,
          Nat.add_mod_right, Nat.add_mod_right, Nat.mod_eq_of_lt (by omega),
          Nat.mod_eq_of_lt (by omega)]
        omega
      · rw [Nat.mod_eq_of_lt (show j + s.queue.qSize - s.queue.head < s.queue.qSize by omega)]
        split
        · rw [Nat.sub_zero, Nat.add_mod_right, Nat.mod_eq_of_lt hslot]
          omega
        · rw [Nat.mod_eq_of_lt (by omega)]
          omega
  · cases hb

/-- A message that waits is returned, or the head has come closer to it by what was taken. -/
lemma run_delivers {acts : List Act} (h : Inv s) (hok : Meets step Undisturbed s acts)
    (hr : run step s acts = some t) :
    (∀ x ∈ s.got, x ∈ t.got) ∧ ∀ msg ∈ s.pending, (∃ x ∈ t.got, Holds x msg) ∨
      msg ∈ t.pending ∧ distance t.queue msg + gets acts = distance s.queue msg := by
  induction acts generalizing s with
  | nil =>
    cases hr
    exact ⟨fun _ hx => hx, fun msg hm => Or.inr ⟨hm, rfl⟩⟩
  | cons a acts ih =>
    obtain ⟨u, hu, hr⟩ := (run_cons_eq_some step).mp hr
    obtain ⟨ha, hok⟩ := hok u hu
    obtain ⟨hgot, hdelivers⟩ := ih (step_inv h ha hu) hok hr
    have hcount : gets (a :: acts) = gets acts + if isGet a then 1 else 0 := List.countP_cons
    cases hget : isGet a with
    | false =>
      obtain ⟨hsize, hhead, hsame, hpending⟩ := step_other hget hu
      rw [hsame] at hgot
      refine ⟨hgot, fun msg hm => ?_⟩
      have hdist : distance u.queue msg = distance s.queue msg := by
        simp only [distance, hsize, hhead]
      rw [hcount, hget, ← hdist]
      exact hdelivers msg (hpending msg hm)
    | true =>
      obtain rfl : a = .get := by
        cases a with
        | get => rfl
        | _ => cases hget
      obtain ⟨hgot', hstep⟩ := h.step_get hu
      refine ⟨fun x hx => hgot x (hgot' x hx), fun msg hm => ?_⟩
      rcases hstep msg hm with ⟨x, hx, hholds⟩ | ⟨hm', hdist⟩
      · exact Or.inl ⟨x, hgot x hx, hholds⟩
      · rw [hcount, hget, ← hdist]
        rcases hdelivers msg hm' with hdone | ⟨hwaits, hsum⟩
        · exact Or.inl hdone
        · refine Or.inr ⟨hwaits, ?_⟩
          rw [← hsum, if_pos rfl, Nat.add_assoc]

lemma start_inv {size : ℕ} (hsize : 0 < size) (seq : UInt64) : Inv (start size seq) :=
  ⟨fun _ hi => absurd rfl hi, Nat.mod_lt _ hsize, fun _ hi => (Option.some_ne_none _ hi.symm).elim,
    fun _ hi => (Option.some_ne_none _ hi.symm).elim, fun _ hm => (List.not_mem_nil hm).elim⟩

/-- **Messages that wait are kept and delivered**: in every undisturbed run the messages accepted
and not returned yet lie in their slots as they came. A gap fill leaves them there if and only if
it meets none of their slots, and as many further `get`s as there are slots return them all. -/
theorem run_intact {size : ℕ} (hsize : 0 < size) {seq : UInt64} {acts : List Act}
    (hok : Meets step Undisturbed (start size seq) acts)
    (hr : run step (start size seq) acts = some s) :
    Intact s ∧
      (∀ c n : UInt64, (∀ msg ∈ s.pending,
        slotOf (s.queue.updateSeq c.toNat n.toNat) msg = slotOf s.queue msg) ↔ Clear s c n) ∧
      ∀ acts' t, Meets step Undisturbed s acts' → run step s acts' = some t →
        s.queue.qSize ≤ gets acts' → ∀ msg ∈ s.pending, ∃ x ∈ t.got, Holds x msg := by
  have hinv : Inv s :=
    run_induct (fun _ _ _ h ha hs => step_inv h ha hs) (start_inv hsize seq) hok hr
  refine ⟨hinv.intact, hinv.updateSeq_iff, fun acts' t hok' hr' hgets msg hm => ?_⟩
  rcases (run_delivers hinv hok' hr').2 msg hm with hdone | ⟨-, hsum⟩
  · exact hdone
  · have hlt : distance s.queue msg < s.queue.qSize :=
      Nat.mod_lt _ (lt_of_le_of_lt (Nat.zero_le _) hinv.head)
    omega

/-- Four slots, and number `2` arrived before `1`. -/
def secondArrived : State := (run step (start 4 0) [.put (.new [7] 0 2)]).get rfl

theorem run_intact_secondArrived :
    Intact secondArrived ∧
      (∀ c n : UInt64, (∀ msg ∈ secondArrived.pending,
        slotOf (secondArrived.queue.updateSeq c.toNat n.toNat) msg =
          slotOf secondArrived.queue msg) ↔ Clear secondArrived c n) ∧
      ∀ acts' t, Meets step Undisturbed secondArrived acts' →
        run step secondArrived acts' = some t → secondArrived.queue.qSize ≤ gets acts' →
          ∀ msg ∈ secondArrived.pending, ∃ x ∈ t.got, Holds x msg := by
  have hok : Meets step Undisturbed (start 4 0) [.put (.new [7] 0 2)] :=
    fun _ _ => ⟨fun _ => ⟨by decide, rfl⟩, trivial⟩
  exact run_intact (by decide) hok (Option.some_get _).symm

/-- Number `1` is a SequenceReset to `4`, and `2` has arrived before it: `2` is returned as a gap
fill, and its bytes are lost. -/
theorem updateSeq_overwrites :
    ¬ Clear secondArrived 1 4 ∧ secondArrived.pending = [.new [7] 0 2] ∧
      slotOf secondArrived.queue (.new [7] 0 2) = ⟨0, [7], 0, 2⟩ ∧
      slotOf (secondArrived.queue.updateSeq 1 4) (.new [7] 0 2) = ⟨-1, [7], 0, 2⟩ ∧
      (run step secondArrived [.put (.new [8] 0 1), .updateSeq 1 4, .get, .reset, .get]).map
          (fun s => (s.pending, s.got.map fun slot => (slot.seq, slot.isGf))) =
        some ([.new [7] 0 2], [(1, false), (2, true)]) := by
  refine ⟨fun h => ?_, rfl, rfl, rfl, by decide⟩
  exact h 2 (by decide) (.new [7] 0 2) (by decide) rfl

end Ufix.Undelivered
