import Ufix.Delivery

/-!
The receive queue of a connection on which nothing is lost: the numbers come one after the other.

The messages put and not reset then stand in their slots without a gap, and nothing is asked for
again.
-/

namespace Ufix.InTurn

open Ufix.Delivery Ufix.Memory

/-- The first number whose slot may be occupied: the one the consumer holds, or the next one. -/
def first (s : State) : ℕ := if s.taken.isSome then s.queue.headSeq else s.queue.headSeq + 1

/-- `msgAt n` is a message numbered `n`, as `process_new_data` makes it. -/
def Numbered (msgAt : ℕ → RMessage) : Prop := ∀ n, (msgAt n).seq = n ∧ (msgAt n).timestamp = 0

structure Steady (msgAt : ℕ → RMessage) (s : State) : Prop where
  size : 0 < s.queue.qSize
  head : s.queue.head = (s.queue.headSeq + 1) % s.queue.qSize
  order : s.queue.headSeq ≤ s.queue.tailSeq
  room : s.queue.tailSeq < first s + s.queue.qSize
  taken : ∀ i, s.taken = some i → i = s.queue.headSeq % s.queue.qSize ∧ 0 < s.queue.headSeq
  held : ∀ n, first s ≤ n → n ≤ s.queue.tailSeq →
    s.queue.msgsRecv (n % s.queue.qSize) = msgAt n
  free : ∀ n, s.queue.tailSeq < n → n < first s + s.queue.qSize →
    (s.queue.msgsRecv (n % s.queue.qSize)).seq = 0 ∧
      (s.queue.msgsRecv (n % s.queue.qSize)).timestamp = 0
  outside : ∀ i, s.queue.qSize ≤ i → (s.queue.msgsRecv i).seq = 0

variable {msgAt : ℕ → RMessage} {s t : State}

lemma first_le (s : State) :
    s.queue.headSeq ≤ first s ∧ first s ≤ s.queue.headSeq + 1 := by
  unfold first
  split <;> omega

lemma first_of_none (h : s.taken = none) : first s = s.queue.headSeq + 1 := by
  simp [first, h]

lemma first_of_some {i : ℕ} (h : s.taken = some i) : first s = s.queue.headSeq := by
  simp [first, h]

lemma Steady.first_pos (h : Steady msgAt s) : 0 < first s := by
  cases htaken : s.taken with
  | none =>
    rw [first_of_none htaken]
    omega
  | some i =>
    rw [first_of_some htaken]
    exact (h.taken i htaken).2

lemma Steady.next_slot (h : Steady msgAt s) (hnum : Numbered msgAt) :
    (s.queue.msgsRecv ((s.queue.tailSeq + 1) % s.queue.qSize)).seq = 0 ∧
        s.queue.tailSeq + 1 < first s + s.queue.qSize ∨
      s.queue.tailSeq + 1 = first s + s.queue.qSize ∧
        (s.queue.msgsRecv ((s.queue.tailSeq + 1) % s.queue.qSize)).seq = first s := by
  have hroom := h.room
  have hsize := h.size
  rcases Nat.lt_or_ge (s.queue.tailSeq + 1) (first s + s.queue.qSize) with hlt | hge
  · exact Or.inl ⟨(h.free _ (Nat.lt_succ_self _) hlt).1, hlt⟩
  · have heq : s.queue.tailSeq + 1 = first s + s.queue.qSize := by omega
    refine Or.inr ⟨heq, ?_⟩
    rw [heq, Nat.add_mod_right, h.held _ le_rfl (by omega), (hnum _).1]

lemma next_mod {q : ℕ} (hq : 0 < q) (n : ℕ) :
    (if n % q + 1 = q then 0 else n % q + 1) = (n + 1) % q := by
  have hlt := Nat.mod_lt n hq
  rw [← Nat.mod_add_mod n q 1]
  split
  · next he => rw [he, Nat.mod_self]
  · exact (Nat.mod_eq_of_lt (by omega)).symm

/-! ### What a step does -/

lemma copy_free {m msg : RMessage} (hm : m.seq = 0 ∧ m.timestamp = 0) (hmsg : msg.timestamp = 0) :
    m.copy msg = msg := by
  obtain ⟨ts, data, pos, seq⟩ := msg
  simp only at hmsg
  simp [RMessage.copy, hm.2, hmsg]

/-- **The next message is put** behind those that wait. -/
lemma Steady.put (h : Steady msgAt s) (hnum : Numbered msgAt)
    (hs : step s (.put (msgAt (s.queue.tailSeq + 1))) = some t) :
    Steady msgAt t ∧ t.queue.tailSeq = s.queue.tailSeq + 1 ∧
      t.queue.headSeq = s.queue.headSeq ∧ t.taken = s.taken := by
  obtain ⟨hseq, hts⟩ := hnum (s.queue.tailSeq + 1)
  have hpos := h.first_pos
  have hsize := h.size
  have hfirst := first_le s
  have horder := h.order
  rw [step] at hs
  split at hs
  swap
  · cases hs
  obtain ⟨q, hq, rfl⟩ := Option.map_eq_some_iff.mp hs
  rcases RecvQueue.put_eq_some hq with ⟨hge, -⟩ | ⟨hzero, -, rfl⟩
  · rw [hseq] at hge
    rcases h.next_slot hnum with ⟨h0, -⟩ | ⟨h1, h2⟩ <;> omega
  rw [hseq] at hzero
  have hlt : s.queue.tailSeq + 1 < first s + s.queue.qSize := by
    rcases h.next_slot hnum with ⟨-, hlt⟩ | ⟨-, h2⟩
    · exact hlt
    · omega
  have hfree := h.free _ (Nat.lt_succ_self _) hlt
  have hslot : ∀ n, first s ≤ n → n < first s + s.queue.qSize → n ≠ s.queue.tailSeq + 1 →
      Function.update s.queue.msgsRecv ((s.queue.tailSeq + 1) % s.queue.qSize)
        (msgAt (s.queue.tailSeq + 1)) (n % s.queue.qSize) =
      s.queue.msgsRecv (n % s.queue.qSize) := by
    intro n h1 h2 hne
    refine Function.update_of_ne (fun he => hne ?_) _ _
    exact @eq_of_mod_eq s.queue.qSize n (s.queue.tailSeq + 1) (first s - 1) (by omega) (by omega)
      (by omega) (by omega) he
  refine ⟨⟨hsize, h.head, ?_, ?_, h.taken, ?_, ?_, ?_⟩, ?_, rfl, rfl⟩ <;>
    simp only [hseq, copy_free hfree hts, Nat.lt_succ_self, if_true]
  · exact Nat.le_succ_of_le horder
  · exact hlt
  · intro n h1 h2
    by_cases hn : n = s.queue.tailSeq + 1
    · rw [hn]
      exact Function.update_self _ _ _
    · exact (hslot n h1 (by omega) hn).trans (h.held n h1 (by omega))
  · intro n h1 h2
    have hn := hslot n (by omega) h2 (by omega)
    simp only [RecvQueue.setSlot]
    rw [hn]
    exact h.free n (by omega) h2
  · intro i hi
    simp only [RecvQueue.setSlot] at hi ⊢
    rw [Function.update_of_ne]
    · exact h.outside i hi
    · have := Nat.mod_lt (s.queue.tailSeq + 1) hsize
      omega

lemma Steady.put_isSome (h : Steady msgAt s) (hnum : Numbered msgAt)
    (hlt : s.queue.tailSeq + 1 < 2 ^ 64) (hroom : s.queue.tailSeq + 1 < first s + s.queue.qSize) :
    (step s (.put (msgAt (s.queue.tailSeq + 1)))).isSome := by
  obtain ⟨hseq, -⟩ := hnum (s.queue.tailSeq + 1)
  have hfree : (s.queue.msgsRecv ((s.queue.tailSeq + 1) % s.queue.qSize)).seq = 0 :=
    (h.free _ (Nat.lt_succ_self _) hroom).1
  rw [step, hseq, if_pos hlt]
  simp [RecvQueue.put, hseq, hfree, RMessage.isEmpty]

lemma Steady.slot_head (h : Steady msgAt s) :
    s.queue.msgsRecv s.queue.head =
      s.queue.msgsRecv ((s.queue.headSeq + 1) % s.queue.qSize) := by rw [h.head]

/-- While the consumer waits there is nothing to take, and nothing to ask for. -/
lemma Steady.wait (h : Steady msgAt s) (hnum : Numbered msgAt) {ts : ℤ}
    (hs : step s (.wait ts) = some t) : t = s := by
  rw [step] at hs
  split at hs
  swap
  · cases hs
  rename_i htaken
  obtain ⟨q, hq, rfl⟩ := Option.map_eq_some_iff.mp hs
  have hfirst := first_of_none htaken
  rw [RecvQueue.waitMsg] at hq
  split at hq
  swap
  · cases hq
  rename_i hempty
  have htail : ¬ s.queue.tailSeq > s.queue.headSeq := by
    intro hgt
    have hheld := h.held (s.queue.headSeq + 1) hfirst.le hgt
    simp only [RecvQueue.isEmpty, RMessage.isEmpty, h.slot_head, hheld, (hnum _).1, Bool.or_eq_true,
      decide_eq_true_eq] at hempty
    omega
  rw [if_neg htail] at hq
  cases hq
  rfl

/-- **The consumer takes the next message.** -/
lemma Steady.get (h : Steady msgAt s) (hnum : Numbered msgAt) (hs : step s .get = some t) :
    Steady msgAt t ∧ t.queue.tailSeq = s.queue.tailSeq ∧
      t.queue.headSeq = s.queue.headSeq + 1 ∧ s.taken = none ∧
      ∃ i, t.taken = some i ∧ t.queue.msgsRecv i = msgAt (s.queue.headSeq + 1) := by
  rw [step] at hs
  split at hs
  swap
  · cases hs
  rename_i htaken
  obtain ⟨⟨q, index⟩, hq, rfl⟩ := Option.map_eq_some_iff.mp hs
  obtain ⟨rfl, hne, hlt, rfl⟩ := RecvQueue.get_eq_some hq
  have hfirst := first_of_none htaken
  have horder := h.order
  have hroom := h.room
  have hsize := h.size
  have htail : s.queue.headSeq + 1 ≤ s.queue.tailSeq := by
    by_contra hgt
    rw [h.slot_head] at hne
    exact hne (h.free _ (by omega) (by omega)).1
  have hheld := h.held (s.queue.headSeq + 1) hfirst.le htail
  have hseq : (s.queue.msgsRecv s.queue.head).seq = s.queue.headSeq + 1 := by
    rw [h.slot_head, hheld, (hnum _).1]
  refine ⟨⟨hsize, ?_, ?_, ?_, ?_, ?_, ?_, h.outside⟩, rfl, hseq, htaken, _, rfl, ?_⟩
  · simp only [hseq]
    rw [h.head]
    exact next_mod hsize _
  · simp only [hseq]
    exact htail
  · simp only [first, Option.isSome_some, if_true, hseq]
    omega
  · intro i hi
    cases hi
    simp only [hseq]
    exact ⟨h.head, by omega⟩
  · intro n h1 h2
    simp only [first, Option.isSome_some, if_true, hseq] at h1
    exact h.held n (by omega) h2
  · intro n h1 h2
    simp only [first, Option.isSome_some, if_true, hseq] at h2
    exact h.free n h1 (by omega)
  · rw [← hheld]
    exact h.slot_head

lemma Steady.get_isSome (h : Steady msgAt s) (hnum : Numbered msgAt) (htaken : s.taken = none)
    (hlt : s.queue.headSeq < s.queue.tailSeq) : (step s .get).isSome := by
  have hheld := h.held (s.queue.headSeq + 1) (first_of_none htaken).le hlt
  have hempty : s.queue.isEmpty s.queue.head = false := by
    simp [RecvQueue.isEmpty, RMessage.isEmpty, h.slot_head, hheld, (hnum _).1]
  simp [step, htaken, RecvQueue.get, hempty]

/-- **The slot of the message taken becomes free.** -/
lemma Steady.reset (h : Steady msgAt s) (hs : step s .reset = some t) :
    Steady msgAt t ∧ t.queue.tailSeq = s.queue.tailSeq ∧ t.queue.headSeq = s.queue.headSeq ∧
      t.taken = none := by
  obtain ⟨i, hi, rfl⟩ := Option.map_eq_some_iff.mp hs
  obtain ⟨rfl, hpos⟩ := h.taken i hi
  have hfirst := first_of_some hi
  have hroom := h.room
  have hslot : ∀ n, s.queue.headSeq < n → n < s.queue.headSeq + s.queue.qSize →
      (s.queue.resetSlot (s.queue.headSeq % s.queue.qSize)).msgsRecv (n % s.queue.qSize) =
        s.queue.msgsRecv (n % s.queue.qSize) := fun n h1 h2 =>
    Function.update_of_ne (mod_ne_of_lt h1 h2).symm _ _
  refine ⟨⟨h.size, h.head, h.order, ?_, fun i hi => absurd hi (by simp), ?_, ?_, ?_⟩,
    rfl, rfl, rfl⟩
  · change s.queue.tailSeq < s.queue.headSeq + 1 + s.queue.qSize
    omega
  · intro n h1 h2
    change s.queue.headSeq + 1 ≤ n at h1
    change n ≤ s.queue.tailSeq at h2
    exact (hslot n h1 (by omega)).trans (h.held n (by omega) h2)
  · intro n h1 h2
    change s.queue.tailSeq < n at h1
    change n < s.queue.headSeq + 1 + s.queue.qSize at h2
    have horder := h.order
    by_cases hn : n = s.queue.headSeq + s.queue.qSize
    · have hmod : n % s.queue.qSize = s.queue.headSeq % s.queue.qSize := by
        rw [hn, Nat.add_mod_right]
      have hself : (s.queue.resetSlot (s.queue.headSeq % s.queue.qSize)).msgsRecv
          (n % s.queue.qSize) = (s.queue.msgsRecv (s.queue.headSeq % s.queue.qSize)).reset := by
        rw [hmod]
        exact Function.update_self _ _ _
      simp only [RecvQueue.resetSlot, RecvQueue.setSlot] at hself ⊢
      rw [hself]
      exact ⟨rfl, rfl⟩
    · have hn' := hslot n (by omega) (by omega)
      simp only [RecvQueue.resetSlot, RecvQueue.setSlot] at hn' ⊢
      rw [hn']
      exact h.free n h1 (by omega)
  · intro i hi
    rw [RecvQueue.resetSlot_seq]
    split
    · rfl
    · exact h.outside i hi

/-! ### Where it starts -/

lemma start_steady {size : ℕ} (hsize : 0 < size) {seq : UInt64} (hseq : seq.toNat + 1 < 2 ^ 64) :
    Steady msgAt (start size seq) := by
  refine ⟨hsize, ?_, le_rfl, ?_, fun i hi => absurd hi (by simp [start]), fun n h1 h2 => ?_,
    fun _ _ _ => ⟨rfl, rfl⟩, fun _ _ => rfl⟩
  · simp only [start, RecvQueue.setHeadSeq, RecvQueue.new, ulong_of_lt hseq]
  · change seq.toNat < seq.toNat + 1 + size
    omega
  · change seq.toNat + 1 ≤ n at h1
    change n ≤ seq.toNat at h2
    omega

end Ufix.InTurn
