import Ufix.History

/-!
The new messages of a process as a log: numbers from `1` on, and each data queue in its own
order.

Where two messages of the log lie in the same queue, the distance of their numbers is the
distance within the queue just when no other queue came in between. This is what a lookup by
interpolation relies on.
-/

namespace Ufix.SentLog

/-- How many messages of queue `i` are in the log. -/
def countOf (i : ℕ) (l : List Packet) : ℕ := l.countP fun pk => pk.msg.qIndex = i

/-- The message may follow the log: the next number, and for a data message the next one of its
queue. -/
def NextOf (l : List Packet) (pk : Packet) : Prop :=
  pk.msg.seq = l.length + 1 ∧
    (pk.msg.qIndex = queueSession ∧ pk.msg.content = .session ∨
      pk.msg.qIndex ≠ queueSession ∧ pk.msg.dataSeq = countOf pk.msg.qIndex l + 1 ∧
        pk.msg.content = .queued pk.msg.qIndex pk.msg.dataSeq)

def InOrder (l : List Packet) : Prop := ∀ k pk, l[k]? = some pk → NextOf (l.take k) pk

lemma countOf_concat (i : ℕ) (l : List Packet) (pk : Packet) :
    countOf i (l ++ [pk]) = countOf i l + if pk.msg.qIndex = i then 1 else 0 := by
  simp only [countOf, List.countP_append, List.countP_singleton, decide_eq_true_eq]

lemma inOrder_nil : InOrder [] := by
  intro k pk h
  simp at h

lemma InOrder.concat {l : List Packet} (h : InOrder l) {pk : Packet} (hn : NextOf l pk) :
    InOrder (l ++ [pk]) := by
  intro k a ha
  rcases Nat.lt_or_ge k l.length with hk | hk
  · rw [List.getElem?_append_left hk] at ha
    rw [List.take_append_of_le_length hk.le]
    exact h k a ha
  · rw [List.getElem?_append_right hk] at ha
    obtain ⟨h0, h1⟩ := List.getElem?_eq_some_iff.mp ha
    simp only [List.length_singleton] at h0
    have hkl : k = l.length := by omega
    subst hkl
    simp only [Nat.sub_self, List.getElem_cons_zero] at h1
    rw [List.take_left, ← h1]
    exact hn

section Order

variable {l : List Packet} {a b : Packet}

lemma InOrder.getElem? (h : InOrder l) (ha : a ∈ l) :
    ∃ k, a.msg.seq = k + 1 ∧ k < l.length ∧ l[k]? = some a := by
  obtain ⟨k, hk⟩ := List.mem_iff_getElem?.mp ha
  have hlt := (List.getElem?_eq_some_iff.mp hk).1
  refine ⟨k, ?_, hlt, hk⟩
  have := (h k a hk).1
  rwa [List.length_take, Nat.min_eq_left hlt.le] at this

lemma InOrder.seq_le (h : InOrder l) (ha : a ∈ l) : 1 ≤ a.msg.seq ∧ a.msg.seq ≤ l.length := by
  obtain ⟨k, hk, hlt, -⟩ := h.getElem? ha
  omega

lemma InOrder.exists_seq (h : InOrder l) {n : ℕ} (h1 : 1 ≤ n) (hn : n ≤ l.length) :
    ∃ a ∈ l, a.msg.seq = n := by
  have hlt : n - 1 < l.length := by omega
  refine ⟨l[n - 1], List.getElem_mem hlt, ?_⟩
  have := (h (n - 1) _ (List.getElem?_eq_getElem hlt)).1
  rw [List.length_take, Nat.min_eq_left hlt.le] at this
  omega

lemma InOrder.seq_inj (h : InOrder l) (ha : a ∈ l) (hb : b ∈ l) (he : a.msg.seq = b.msg.seq) :
    a = b := by
  obtain ⟨i, hi, -, hia⟩ := h.getElem? ha
  obtain ⟨j, hj, -, hjb⟩ := h.getElem? hb
  have : i = j := by omega
  rw [this, hjb] at hia
  exact (Option.some.inj hia).symm

lemma InOrder.queued_iff (h : InOrder l) (hb : b ∈ l) {q d : ℕ} :
    b.msg.content = .queued q d ↔
      b.msg.qIndex ≠ queueSession ∧ b.msg.qIndex = q ∧ b.msg.dataSeq = d := by
  obtain ⟨k, -, -, hk⟩ := h.getElem? hb
  rcases (h k b hk).2 with ⟨hb0, hc⟩ | ⟨hb0, -, hc⟩
  · simp [hc, hb0]
  · simp [hc, hb0]

lemma InOrder.dataSeq_eq (h : InOrder l) {k : ℕ} (hk : l[k]? = some a)
    (hq : a.msg.qIndex ≠ queueSession) :
    a.msg.dataSeq = countOf a.msg.qIndex (l.take k) + 1 := by
  rcases (h k a hk).2 with ⟨h0, -⟩ | ⟨-, hd, -⟩
  · exact absurd h0 hq
  · exact hd

/-- The messages between two places of the log are those numbered between. -/
lemma InOrder.mem_between (h : InOrder l) {i j : ℕ} (ha : a ∈ l) :
    a ∈ (l.drop i).take (j - i) ↔ i < a.msg.seq ∧ a.msg.seq ≤ j := by
  obtain ⟨k, hk, hkl, hka⟩ := h.getElem? ha
  constructor
  · intro hm
    obtain ⟨n, hn⟩ := List.mem_iff_getElem?.mp hm
    rw [List.getElem?_take] at hn
    split at hn
    · next hlt =>
      rw [List.getElem?_drop] at hn
      have hseq := (h _ _ hn).1
      have hlen := (List.getElem?_eq_some_iff.mp hn).1
      rw [List.length_take] at hseq
      omega
    · cases hn
  · rintro ⟨h1, h2⟩
    refine List.mem_iff_getElem?.mpr ⟨k - i, ?_⟩
    rw [List.getElem?_take, if_pos (by omega), List.getElem?_drop,
      Nat.add_sub_cancel' (by omega)]
    exact hka

/-- **Distance in numbers is distance in the queue** if and only if all messages in between are
of the same queue. -/
theorem InOrder.interpolate_iff (h : InOrder l) (ha : a ∈ l) (hb : b ∈ l)
    (hq : a.msg.qIndex ≠ queueSession) (hab : a.msg.seq ≤ b.msg.seq) :
    (b.msg.qIndex = a.msg.qIndex ∧ b.msg.dataSeq + a.msg.seq = a.msg.dataSeq + b.msg.seq) ↔
      ∀ pk ∈ l, a.msg.seq < pk.msg.seq → pk.msg.seq ≤ b.msg.seq →
        pk.msg.qIndex = a.msg.qIndex := by
  obtain ⟨i, hi, hil, hia⟩ := h.getElem? ha
  obtain ⟨j, hj, hjl, hjb⟩ := h.getElem? hb
  set seg := (l.drop i).take (j - i) with hseg
  have hlen : seg.length = j - i := by
    rw [hseg, List.length_take, List.length_drop]
    omega
  have hsplit : l.take j = l.take i ++ seg := by
    rw [hseg, ← List.take_add, Nat.add_sub_cancel' (by omega)]
  have hcount : countOf a.msg.qIndex (l.take j) =
      countOf a.msg.qIndex (l.take i) + seg.countP fun pk => pk.msg.qIndex = a.msg.qIndex := by
    rw [hsplit]
    exact List.countP_append
  have hda := h.dataSeq_eq hia hq
  have hdb : b.msg.qIndex = a.msg.qIndex →
      b.msg.dataSeq = countOf a.msg.qIndex (l.take j) + 1 := by
    intro hqb
    have := h.dataSeq_eq hjb (by rwa [hqb])
    rwa [hqb] at this
  constructor
  · rintro ⟨hqb, hd⟩ pk hpk h1 h2
    have hall : seg.countP (fun pk => pk.msg.qIndex = a.msg.qIndex) = seg.length := by
      have := hdb hqb
      omega
    rcases Nat.lt_or_ge pk.msg.seq b.msg.seq with h3 | h3
    · have := List.countP_eq_length.mp hall pk ((h.mem_between hpk).mpr ⟨by omega, by omega⟩)
      simpa using this
    · rw [h.seq_inj hpk hb (by omega)]
      exact hqb
  · intro hall
    have hqb : b.msg.qIndex = a.msg.qIndex := by
      rcases Nat.lt_or_ge a.msg.seq b.msg.seq with h3 | h3
      · exact hall b hb h3 le_rfl
      · rw [h.seq_inj hb ha (by omega)]
    have hseg' : seg.countP (fun pk => pk.msg.qIndex = a.msg.qIndex) = seg.length := by
      refine List.countP_eq_length.mpr fun pk hpk => ?_
      have hpkl : pk ∈ l := List.mem_of_mem_drop (List.mem_of_mem_take hpk)
      obtain ⟨h1, h2⟩ := (h.mem_between hpkl).mp hpk
      rcases Nat.lt_or_ge a.msg.seq pk.msg.seq with h3 | h3
      · simpa using hall pk hpkl h3 (by omega)
      · rw [h.seq_inj hpkl ha (by omega)]
        simp
    have := hdb hqb
    exact ⟨hqb, by omega⟩

end Order

end Ufix.SentLog
