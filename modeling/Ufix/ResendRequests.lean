import Ufix.InOrderQueue

/-!
The resend requests of the receive queue: what a waiting `get` asks the peer for, and that it asks
once.

A request takes the numbers from the head to the first one received. Their slots are stamped, and
the stamps stay until the numbers are delivered, so a later request begins behind all earlier ones.
-/

namespace Ufix.ResendRequests

open Ufix.Runs Ufix.Memory Ufix.Delivery

/-- Messages are put at most one size of the ring past the head, there are no gap fills, and the
clock is running. -/
def Admitted (s : State) : Act → Prop
  | .put msg => Awaited s.queue msg.seq
  | .updateSeq _ _ => False
  | .wait ts => 0 < ts
  | .get | .reset => True

instance (s : State) : DecidablePred (Admitted s)
  | .put _ => inferInstanceAs (Decidable (Awaited _ _))
  | .updateSeq _ _ => inferInstanceAs (Decidable False)
  | .wait _ => inferInstanceAs (Decidable (_ < _))
  | .get | .reset => inferInstanceAs (Decidable True)

def Received (acts : List Act) (n : ℕ) : Prop := ∃ msg, Act.put msg ∈ acts ∧ msg.seq = n

def slotOf (q : RecvQueue) (n : ℕ) : RMessage := q.msgsRecv (n % q.qSize)

/-- A request made lies in reach of the head, and the numbers not delivered yet are stamped. -/
structure Made (q : RecvQueue) (r : ℕ × ℕ) : Prop where
  begin_le : r.1 ≤ q.headSeq + 1
  end_lt : r.2 < q.headSeq + q.qSize
  stamped : ∀ n, r.1 ≤ n → n ≤ r.2 → q.headSeq < n → (slotOf q n).timestamp ≠ 0

structure Inv (s : State) : Prop where
  ordered : Ordered s
  current : Current s
  held : ∀ i, s.taken = some i →
    (s.queue.msgsRecv i).seq = s.queue.headSeq ∧ 0 < s.queue.headSeq
  tail : s.queue.headSeq < s.queue.tailSeq → (slotOf s.queue s.queue.tailSeq).seq = s.queue.tailSeq
  made : ∀ r ∈ s.queue.cmds, Made s.queue r
  apart : s.queue.cmds.Pairwise fun r r' => r.2 < r'.1

variable {s t : State} {q q' : RecvQueue} {n : ℕ}

/-! ### One request -/

/-- The scan ends at the first number received, and stamps those before it. -/
lemma stampMissing_spec (ts : ℤ) (fuel : ℕ) {b m : ℕ} (hle : b ≤ m) (hm : m < b + fuel)
    (hlt : m < 2 ^ 64) (hthere : q.isEmpty (m % q.qSize) = false) :
    ∃ q' k, RecvQueue.stampMissing ts fuel b q = some (q', k) ∧ b ≤ k ∧ k ≤ m ∧
      q.isEmpty (k % q.qSize) = false ∧
      (∀ n, b ≤ n → n < k → q.isEmpty (n % q.qSize) = true ∧ (slotOf q' n).timestamp = ts) ∧
      (∀ i, (q'.msgsRecv i).timestamp = (q.msgsRecv i).timestamp ∨
        (q'.msgsRecv i).timestamp = ts) ∧
      q'.cmds = q.cmds ∧ q'.tailSeq = q.tailSeq ∧ q.SameSeqs q' := by
  induction fuel generalizing b q with
  | zero => omega
  | succ fuel ih =>
    simp only [RecvQueue.stampMissing]
    cases he : q.isEmpty (b % q.qSize) with
    | false =>
      exact ⟨q, b, rfl, le_rfl, hle, he, fun n h1 h2 => by omega, fun _ => Or.inl rfl, rfl, rfl,
        .refl q⟩
    | true =>
      have hne : b ≠ m := by
        rintro rfl
        rw [he] at hthere
        cases hthere
      obtain ⟨q', k, hk, h1, h2, h3, h4, h5, h6, h7, h8⟩ := ih (b := b + 1)
        (q := q.setSlot (b % q.qSize) ((q.msgsRecv (b % q.qSize)).setTimestamp ts)) (by omega)
        (by omega) (by rw [InOrderQueue.isEmpty_stamp]; exact hthere)
      have hself : (slotOf q' b).timestamp = ts := by
        have hsize : q'.qSize = q.qSize := h8.qSize
        rw [slotOf, hsize]
        rcases h5 (b % q.qSize) with h | h
        · rw [h]
          simp [RecvQueue.setSlot, RMessage.setTimestamp]
        · exact h
      simp only [if_true, ulong_of_lt (show b + 1 < 2 ^ 64 by omega)]
      refine ⟨q', k, hk, by omega, h2, ?_, fun n hb hn => ?_, fun i => ?_, h6, h7,
        (RecvQueue.setTimestamp_same q _ ts).trans h8⟩
      · rwa [InOrderQueue.isEmpty_stamp] at h3
      · rcases Nat.lt_or_ge b n with hlt | hge
        · have := h4 n hlt hn
          rwa [InOrderQueue.isEmpty_stamp] at this
        · rw [show n = b by omega]
          exact ⟨he, hself⟩
      · rcases h5 i with h | h
        · by_cases hi : i = b % q.qSize
          · subst hi
            exact Or.inr (by rw [h]; simp [RecvQueue.setSlot, RMessage.setTimestamp])
          · exact Or.inl (by rw [h]; simp [RecvQueue.setSlot, hi])
        · exact Or.inr h

/-- A request up to number `e`. -/
structure Request (q : RecvQueue) (ts : ℤ) (q' : RecvQueue) (e : ℕ) : Prop where
  cmds : q'.cmds = q.cmds ++ [(q.headSeq + 1, e)]
  begin_le : q.headSeq + 1 ≤ e
  missing : ∀ n, q.headSeq < n → n ≤ e → q.isEmpty (n % q.qSize) = true
  closed : q.isEmpty ((e + 1) % q.qSize) = false
  inReach : InReach q (e + 1)
  stamped : ∀ n, q.headSeq < n → n ≤ e → (slotOf q' n).timestamp = ts
  timestamp : ∀ i, (q'.msgsRecv i).timestamp = (q.msgsRecv i).timestamp ∨
    (q'.msgsRecv i).timestamp = ts
  tailSeq : q'.tailSeq = q.tailSeq
  same : q.SameSeqs q'

lemma Inv.isEmpty_iff (h : Inv s) (hnone : s.taken = none) (i : ℕ) :
    s.queue.isEmpty i = true ↔ (s.queue.msgsRecv i).seq = 0 := by
  simp only [RecvQueue.isEmpty, RMessage.isEmpty, Bool.or_eq_true, decide_eq_true_eq]
  refine ⟨fun hi => ?_, Or.inl⟩
  by_contra hne
  have := h.current i (by rw [hnone]; simp) hne
  omega

lemma Inv.tail_inReach (h : Inv s) (ht : s.queue.headSeq < s.queue.tailSeq) :
    s.queue.tailSeq < 2 ^ 64 ∧ InReach s.queue s.queue.tailSeq := by
  have hseq := h.tail ht
  have hslot := h.ordered.slot (s.queue.tailSeq % s.queue.qSize)
  rw [← slotOf, hseq] at hslot
  exact (hslot (by omega)).2

/-- **What `add_resend_request` does** where the head waits for a message and a later one has come:
nothing if the next number was asked for before, else it asks for all that is missing there. -/
lemma Inv.addResendRequest (h : Inv s) (hnone : s.taken = none)
    (hempty : s.queue.isEmpty s.queue.head = true) (ht : s.queue.headSeq < s.queue.tailSeq)
    (ts : ℤ) :
    (slotOf s.queue (s.queue.headSeq + 1)).timestamp ≠ 0 ∧
        s.queue.addResendRequest ts = some (s.queue, false) ∨
      (slotOf s.queue (s.queue.headSeq + 1)).timestamp = 0 ∧
        ∃ q' e, s.queue.addResendRequest ts = some (q', true) ∧ Request s.queue ts q' e := by
  obtain ⟨hlt, hreach⟩ := h.tail_inReach ht
  have hhead := h.ordered.head (by omega)
  have hthere : s.queue.isEmpty (s.queue.tailSeq % s.queue.qSize) = false := by
    rw [Bool.eq_false_iff, ne_eq, h.isEmpty_iff hnone, ← slotOf, h.tail ht]
    omega
  have hne : s.queue.tailSeq ≠ s.queue.headSeq + 1 := by
    intro he
    rw [he, ← hhead, hempty] at hthere
    cases hthere
  simp only [RecvQueue.addResendRequest, slotOf, ulong_of_lt (show s.queue.headSeq + 1 < 2 ^ 64 by
    omega), ulong_of_lt (show s.queue.headSeq + 1 + 1 < 2 ^ 64 by omega)]
  by_cases hstamp :
      (s.queue.msgsRecv ((s.queue.headSeq + 1) % s.queue.qSize)).timestamp = 0
  · rw [if_neg (not_not.mpr hstamp)]
    obtain ⟨q', k, hk, h1, h2, h3, h4, h5, h6, h7, h8⟩ := stampMissing_spec ts
      s.queue.qSize (b := s.queue.headSeq + 1 + 1) (m := s.queue.tailSeq)
      (q := s.queue.setSlot ((s.queue.headSeq + 1) % s.queue.qSize)
        ((s.queue.msgsRecv ((s.queue.headSeq + 1) % s.queue.qSize)).setTimestamp ts))
      (by omega) (by unfold InReach at hreach; omega) hlt
      (by rw [InOrderQueue.isEmpty_stamp]; exact hthere)
    rw [InOrderQueue.isEmpty_stamp] at h3
    have hend : ulong (k + (2 ^ 64 - 1)) = k - 1 := by
      unfold ulong
      omega
    have hfirst : (q'.msgsRecv ((s.queue.headSeq + 1) % s.queue.qSize)).timestamp = ts := by
      rcases h5 ((s.queue.headSeq + 1) % s.queue.qSize) with h | h
      · rw [h]
        simp [RecvQueue.setSlot, RMessage.setTimestamp]
      · exact h
    refine Or.inr ⟨hstamp, { q' with cmds := q'.cmds ++ [(s.queue.headSeq + 1, k - 1)] }, k - 1, ?_,
      ?_⟩
    · rw [hk, Option.map_some, hend]
    have hsame := (RecvQueue.setTimestamp_same s.queue
      ((s.queue.headSeq + 1) % s.queue.qSize) ts).trans h8
    refine ⟨by rw [h6]; rfl, by omega, fun n hn hle => ?_, ?_, ?_, fun n hn hle => ?_, fun i => ?_,
      h7, ⟨hsame.1, hsame.2, hsame.3, hsame.4⟩⟩
    · rcases Nat.lt_or_ge (s.queue.headSeq + 1) n with h | h
      · have := (h4 n h (by omega)).1
        rwa [InOrderQueue.isEmpty_stamp] at this
      · rw [show n = s.queue.headSeq + 1 by omega, ← hhead]
        exact hempty
    · rw [Nat.sub_add_cancel (by omega)]
      exact h3
    · unfold InReach at hreach ⊢
      omega
    · rcases Nat.lt_or_ge (s.queue.headSeq + 1) n with h | h
      · exact (h4 n h (by omega)).2
      · rw [show n = s.queue.headSeq + 1 by omega, slotOf]
        simp only [hsame.qSize]
        exact hfirst
    · rcases h5 i with h | h
      · by_cases hi : i = (s.queue.headSeq + 1) % s.queue.qSize
        · subst hi
          exact Or.inr hfirst
        · exact Or.inl (by rw [h]; simp [RecvQueue.setSlot, hi])
      · exact Or.inr h
  · rw [if_pos hstamp]
    exact Or.inl ⟨hstamp, rfl⟩

/-! ### Steps -/

lemma Inv.put (h : Inv s) {msg : RMessage} (hn : Awaited s.queue msg.seq) (hlt : msg.seq < 2 ^ 64)
    (hq : s.queue.put msg = some q) : Inv { s with queue := q } := by
  rcases RecvQueue.put_eq_some hq with ⟨-, rfl⟩ | ⟨h0, hpos, rfl⟩
  · exact h
  have hslot : ∀ i, ((s.queue.setSlot (msg.seq % s.queue.qSize)
      ((s.queue.msgsRecv (msg.seq % s.queue.qSize)).copy msg)).msgsRecv i).seq =
        if i = msg.seq % s.queue.qSize then msg.seq else (s.queue.msgsRecv i).seq := by
    intro i
    by_cases hi : i = msg.seq % s.queue.qSize
    · subst hi
      simp [RecvQueue.setSlot, RMessage.copy]
    · simp [RecvQueue.setSlot, hi]
  -- the stamp of the slot stays
  have hstamp : ∀ i, ((s.queue.setSlot (msg.seq % s.queue.qSize)
      ((s.queue.msgsRecv (msg.seq % s.queue.qSize)).copy msg)).msgsRecv i).timestamp =
        (s.queue.msgsRecv i).timestamp := by
    intro i
    by_cases hi : i = msg.seq % s.queue.qSize
    · subst hi
      simp [RecvQueue.setSlot, RMessage.copy]
    · simp [RecvQueue.setSlot, hi]
  refine ⟨h.ordered.store hlt hn.2 rfl rfl rfl hslot, h.current.store hn.1 rfl rfl hslot,
    fun i hi => ?_, fun ht => ?_, fun r hr => ?_, h.apart⟩
  · have hheld := h.held i hi
    refine ⟨?_, hheld.2⟩
    rw [hslot, if_neg]
    · exact hheld.1
    · rintro rfl
      omega
  · simp only [slotOf] at ht ⊢
    by_cases hnew : s.queue.tailSeq < msg.seq
    · simp only [if_pos hnew]
      rw [hslot]
      exact if_pos rfl
    · simp only [if_neg hnew] at ht ⊢
      have htail := h.tail ht
      rw [slotOf] at htail
      rw [hslot, if_neg]
      · exact htail
      · intro he
        change s.queue.tailSeq % s.queue.qSize = _ at he
        rw [he] at htail
        omega
  · obtain ⟨h1, h2, h3⟩ := h.made r hr
    refine ⟨h1, h2, fun n hb he hlt' => ?_⟩
    simp only [slotOf, hstamp]
    exact h3 n hb he hlt'

lemma Inv.wait (h : Inv s) (hnone : s.taken = none) {ts : ℤ} (hts : 0 < ts)
    (hq : s.queue.waitMsg ts = some q) : Inv { s with queue := q } := by
  unfold RecvQueue.waitMsg at hq
  split at hq
  · next hempty =>
    split at hq
    · next ht =>
      obtain ⟨⟨u, added⟩, hu, rfl⟩ := Option.map_eq_some_iff.mp hq
      rcases h.addResendRequest hnone hempty ht ts with ⟨-, heq⟩ | ⟨hzero, q', e, heq, hreq⟩
      · rw [heq] at hu
        cases hu
        exact h
      · rw [heq] at hu
        cases hu
        have hheadSeq := hreq.same.headSeq
        have hsize := hreq.same.qSize
        have hmade : ∀ r ∈ s.queue.cmds, Made u r := by
          intro r hr
          obtain ⟨h1, h2, h3⟩ := h.made r hr
          refine ⟨by rw [hheadSeq]; exact h1, by rw [hheadSeq, hsize]; exact h2,
            fun n hb hle hlt => ?_⟩
          rw [hheadSeq] at hlt
          have hold := h3 n hb hle hlt
          rw [slotOf] at hold ⊢
          rw [hsize]
          rcases hreq.timestamp (n % s.queue.qSize) with hsame | hnew <;> omega
        refine ⟨h.ordered.congr hreq.same, h.current.congr hreq.same rfl, fun i hi => ?_,
          fun hlt => ?_, fun r hr => ?_, ?_⟩
        · rw [hnone] at hi
          cases hi
        · simp only [slotOf, hreq.tailSeq, hreq.same.seq, hsize, hheadSeq] at hlt ⊢
          exact h.tail hlt
        · rw [hreq.cmds] at hr
          rcases List.mem_append.mp hr with hr | hr
          · exact hmade r hr
          · rw [List.mem_singleton.mp hr]
            refine ⟨by rw [hheadSeq], ?_, fun n hb hle hlt => ?_⟩
            · have := hreq.inReach
              unfold InReach at this
              rw [hheadSeq, hsize]
              omega
            · rw [hreq.stamped n hb hle]
              omega
        · -- a request that reaches the next number would have stamped it
          rw [hreq.cmds, List.pairwise_append]
          refine ⟨h.apart, List.pairwise_singleton _ _, fun r hr r' hr' => ?_⟩
          rw [List.mem_singleton.mp hr']
          by_contra hge
          obtain ⟨h1, -, h3⟩ := h.made r hr
          exact h3 (s.queue.headSeq + 1) h1 (by simp only at hge; omega) (by omega) hzero
    · cases hq
      exact h
  · cases hq

lemma Inv.get (h : Inv s) (hnone : s.taken = none) {index : ℕ}
    (hg : s.queue.get = some (q, index)) : Inv ⟨q, some index⟩ := by
  have hnext := h.ordered.get_seq hg
  have hordered := h.ordered.take hg
  have hcurrent := h.current.take h.ordered hnone hg
  obtain ⟨rfl, hne, hlt, rfl⟩ := RecvQueue.get_eq_some hg
  refine ⟨hordered, hcurrent, fun i hi => ?_, fun ht => ?_, fun r hr => ?_, h.apart⟩
  · cases hi
    exact ⟨rfl, by simp only; omega⟩
  · exact h.tail (by simp only at ht; omega)
  · obtain ⟨h1, h2, h3⟩ := h.made r hr
    refine ⟨?_, ?_, fun n hb hle hlt' => h3 n hb hle ?_⟩
    · simp only
      omega
    · simp only
      omega
    · simp only at hlt'
      omega

lemma Inv.held_slot (h : Inv s) {index : ℕ} (ht : s.taken = some index) :
    index = s.queue.headSeq % s.queue.qSize := by
  obtain ⟨hseq, hpos⟩ := h.held index ht
  have hmod := (h.ordered.slot index (by omega)).1
  rw [hseq] at hmod
  exact hmod.symm

lemma Inv.reset (h : Inv s) {index : ℕ} (ht : s.taken = some index) :
    Inv ⟨s.queue.resetSlot index, none⟩ := by
  obtain ⟨hseq, hpos⟩ := h.held index ht
  have hindex := h.held_slot ht
  have hcurrent : Current ⟨s.queue, some index⟩ := by
    rw [← ht]
    exact h.current
  refine ⟨h.ordered.reset index, hcurrent.reset,
    fun i hi => (Option.some_ne_none _ hi.symm).elim, fun hlt => ?_, fun r hr => ?_, h.apart⟩
  · have htail := h.tail hlt
    rw [slotOf] at htail ⊢
    rw [RecvQueue.resetSlot_seq]
    split
    · next he =>
      change s.queue.tailSeq % s.queue.qSize = index at he
      rw [he, hseq] at htail
      exact absurd htail (ne_of_lt hlt)
    · exact htail
  · obtain ⟨h1, h2, h3⟩ := h.made r hr
    refine ⟨h1, h2, fun n hb hle hlt => ?_⟩
    have hother : n % s.queue.qSize ≠ index := by
      rw [hindex]
      intro he
      have hsize := h.ordered.size
      change s.queue.headSeq < n at hlt
      have hn := eq_of_mod_eq (q := s.queue.qSize) (b := s.queue.headSeq + s.queue.qSize) hlt
        (by omega) (by omega) le_rfl (by rw [he, Nat.add_mod_right])
      omega
    have hslot : slotOf (s.queue.resetSlot index) n = slotOf s.queue n :=
      Function.update_of_ne hother _ _
    rw [hslot]
    exact h3 n hb hle hlt

/-- **What a step preserves.** -/
lemma step_inv {a : Act} (h : Inv s) (hok : Admitted s a) (hs : step s a = some t) : Inv t := by
  cases a with
  | put msg =>
    simp only [step] at hs
    split at hs
    · next hlt =>
      obtain ⟨q, hq, rfl⟩ := Option.map_eq_some_iff.mp hs
      exact h.put hok hlt hq
    · cases hs
  | updateSeq c n => exact hok.elim
  | wait ts =>
    simp only [step] at hs
    split at hs
    · next hnone =>
      obtain ⟨q, hq, rfl⟩ := Option.map_eq_some_iff.mp hs
      exact h.wait hnone hok hq
    · cases hs
  | get =>
    simp only [step] at hs
    split at hs
    · next hnone =>
      obtain ⟨⟨q, index⟩, hq, rfl⟩ := Option.map_eq_some_iff.mp hs
      exact h.get hnone hq
    · cases hs
  | reset =>
    obtain ⟨index, ht, rfl⟩ := Option.map_eq_some_iff.mp hs
    exact h.reset ht

/-! ### Numbers received -/

/-- A message that is put is in its slot, and the others stay in theirs. -/
lemma Inv.put_received (h : Inv s) {msg : RMessage} (hok : Awaited s.queue msg.seq)
    (hq : s.queue.put msg = some q) : s.queue.headSeq ≤ q.headSeq ∧ ∀ n, q.headSeq < n →
      ((slotOf q n).seq = n ↔ (slotOf s.queue n).seq = n ∨ msg.seq = n) := by
  rcases RecvQueue.put_eq_some hq with ⟨hge, rfl⟩ | ⟨h0, hpos, rfl⟩
  · -- discarded, since it is there already
    refine ⟨le_rfl, fun n hn => ?_⟩
    rw [iff_self_or]
    rintro rfl
    have hlt := hok.1
    have hslot := h.ordered.slot (msg.seq % s.queue.qSize) (by omega)
    have hcurrent := h.current (msg.seq % s.queue.qSize) (fun ht => by
      have := (h.held _ ht).1
      omega) (by omega)
    exact eq_of_mod_eq hcurrent hslot.2.2 hok.1 hok.2 hslot.1
  · refine ⟨le_rfl, fun n hn => ?_⟩
    simp only [slotOf, RecvQueue.setSlot]
    by_cases hmod : n % s.queue.qSize = msg.seq % s.queue.qSize
    · rw [hmod, Function.update_self, h0]
      simp only [RMessage.copy]
      exact ⟨Or.inr, fun h => h.resolve_left (by simp only at hn; omega)⟩
    · rw [Function.update_of_ne hmod]
      refine ⟨Or.inl, fun h => h.resolve_right ?_⟩
      rintro rfl
      exact hmod rfl

/-- A number past the head is in its slot if it was there before or is put now. -/
lemma Inv.step_received (h : Inv s) {a : Act} (hok : Admitted s a) (hs : step s a = some t) :
    s.queue.headSeq ≤ t.queue.headSeq ∧ ∀ n, t.queue.headSeq < n →
      ((slotOf t.queue n).seq = n ↔ (slotOf s.queue n).seq = n ∨ Received [a] n) := by
  have hother : ∀ n, (∀ msg, a ≠ .put msg) → ¬ Received [a] n := by
    rintro n hne ⟨msg, hmem, -⟩
    exact hne msg (List.mem_singleton.mp hmem).symm
  cases a with
  | put msg =>
    simp only [step] at hs
    split at hs
    · obtain ⟨q, hq, rfl⟩ := Option.map_eq_some_iff.mp hs
      have hput : ∀ n, Received [.put msg] n ↔ msg.seq = n := by
        intro n
        simp [Received]
      simp only [hput]
      exact h.put_received hok hq
    · cases hs
  | updateSeq c n => exact hok.elim
  | wait ts =>
    simp only [step] at hs
    split at hs
    · obtain ⟨q, hq, rfl⟩ := Option.map_eq_some_iff.mp hs
      have hsame := RecvQueue.waitMsg_same hq
      refine ⟨hsame.headSeq.ge, fun n _ => ?_⟩
      simp only [slotOf, hsame.qSize, hsame.seq]
      exact (or_iff_left (hother n fun _ h => by cases h)).symm
    · cases hs
  | get =>
    simp only [step] at hs
    split at hs
    · obtain ⟨⟨q, index⟩, hq, rfl⟩ := Option.map_eq_some_iff.mp hs
      obtain ⟨-, -, hlt, rfl⟩ := RecvQueue.get_eq_some hq
      exact ⟨hlt.le, fun n _ => (or_iff_left (hother n fun _ h => by cases h)).symm⟩
    · cases hs
  | reset =>
    obtain ⟨index, ht, rfl⟩ := Option.map_eq_some_iff.mp hs
    refine ⟨le_rfl, fun n hn => ?_⟩
    rw [or_iff_left (hother n fun _ h => by cases h)]
    change s.queue.headSeq < n at hn
    have hheld := (h.held index ht).1
    simp only [slotOf, RecvQueue.resetSlot_seq]
    split
    · next he =>
      change n % s.queue.qSize = index at he
      rw [he, hheld]
      omega
    · rfl

lemma run_received {acts : List Act} (h : Inv s) (hok : Meets step Admitted s acts)
    (hr : run step s acts = some t) :
    s.queue.headSeq ≤ t.queue.headSeq ∧ ∀ n, t.queue.headSeq < n →
      ((slotOf t.queue n).seq = n ↔ (slotOf s.queue n).seq = n ∨ Received acts n) := by
  induction acts generalizing s with
  | nil =>
    cases hr
    exact ⟨le_rfl, fun n _ => (or_iff_left fun ⟨_, hm, _⟩ => by cases hm).symm⟩
  | cons a acts ih =>
    obtain ⟨u, hu, hr⟩ := (run_cons_eq_some step).mp hr
    obtain ⟨ha, hok⟩ := hok u hu
    obtain ⟨hle, hstep⟩ := h.step_received ha hu
    obtain ⟨hle', hrun⟩ := ih (step_inv h ha hu) hok hr
    refine ⟨hle.trans hle', fun n hn => ?_⟩
    have hcons : Received (a :: acts) n ↔ Received [a] n ∨ Received acts n := by
      simp only [Received, List.mem_cons, List.not_mem_nil, or_false, or_and_right, exists_or]
    rw [hrun n hn, hstep n (lt_of_le_of_lt hle' hn), hcons, or_assoc]

lemma start_inv {size : ℕ} (hsize : 0 < size) (seq : UInt64) : Inv (start size seq) :=
  ⟨start_ordered hsize seq, fun _ _ hne => absurd rfl hne,
    fun _ hi => (Option.some_ne_none _ hi.symm).elim, fun ht => absurd ht (lt_irrefl _),
    fun _ hr => (List.not_mem_nil hr).elim, List.Pairwise.nil⟩

/-- **A waiting `get` asks for the missing numbers, and for each of them once.** No two requests of
a run share a number. Where the head waits while a later number has come, `add_resend_request`
comes to its end; what it asks for begins after the head, all of it is missing, and the number
behind it was received. -/
theorem request_missing_once {size : ℕ} (hsize : 0 < size) {seq : UInt64} {acts : List Act}
    (hok : Meets step Admitted (start size seq) acts)
    (hr : run step (start size seq) acts = some s) :
    (s.queue.cmds.Pairwise fun r r' => ∀ n, ¬ (r.1 ≤ n ∧ n ≤ r.2 ∧ r'.1 ≤ n ∧ n ≤ r'.2)) ∧
      (s.taken = none → s.queue.isEmpty s.queue.head = true →
        s.queue.headSeq < s.queue.tailSeq → ∀ ts,
          s.queue.addResendRequest ts = some (s.queue, false) ∨
            ∃ q e, s.queue.addResendRequest ts = some (q, true) ∧
              q.cmds = s.queue.cmds ++ [(s.queue.headSeq + 1, e)] ∧ s.queue.headSeq + 1 ≤ e ∧
              (∀ n, s.queue.headSeq + 1 ≤ n → n ≤ e → ¬ Received acts n) ∧
              Received acts (e + 1)) := by
  have hstart := start_inv hsize seq
  have hinv : Inv s := run_induct (fun _ _ _ h ha hs => step_inv h ha hs) hstart hok hr
  have hreceived : ∀ n, s.queue.headSeq < n → ((slotOf s.queue n).seq = n ↔ Received acts n) := by
    intro n hn
    rw [(run_received hstart hok hr).2 n hn, or_iff_right]
    intro h0
    change 0 = n at h0
    omega
  refine ⟨hinv.apart.imp fun hlt n hn => by omega, fun hnone hempty ht ts => ?_⟩
  rcases hinv.addResendRequest hnone hempty ht ts with ⟨-, heq⟩ | ⟨-, q, e, heq, hreq⟩
  · exact Or.inl heq
  refine Or.inr ⟨q, e, heq, hreq.cmds, hreq.begin_le, fun n hn hle => ?_, ?_⟩
  · rw [← hreceived n hn, slotOf, (hinv.isEmpty_iff hnone _).mp (hreq.missing n hn hle)]
    omega
  · have hle := hreq.begin_le
    have hne : (slotOf s.queue (e + 1)).seq ≠ 0 := by
      rw [slotOf, ne_eq, ← hinv.isEmpty_iff hnone, hreq.closed]
      exact Bool.false_ne_true
    have hslot := hinv.ordered.slot _ hne
    have hcurrent := hinv.current _ (by rw [hnone]; simp) hne
    rw [← hreceived (e + 1) (by omega)]
    exact eq_of_mod_eq hcurrent hslot.2.2 (by omega) hreq.inReach hslot.1

/-- Four slots. `1` and `2` are asked for and come, and then `6` comes without `4` and `5`. -/
def gapAgain : List Act :=
  [.put (.new [] 0 3), .wait 7, .put (.new [] 0 1), .put (.new [] 0 2), .get, .reset, .get, .reset,
    .get, .reset, .put (.new [] 0 6)]

def afterGapAgain : State := (run step (start 4 0) gapAgain).get rfl

theorem request_missing_once_gapAgain :
    ∃ q, afterGapAgain.queue.addResendRequest 8 = some (q, true) ∧ q.cmds = [(1, 2), (4, 5)] ∧
      (∀ n, 4 ≤ n → n ≤ 5 → ¬ Received gapAgain n) ∧ Received gapAgain 6 := by
  have hok : Meets step Admitted (start 4 0) gapAgain := by decide
  have hr : run step (start 4 0) gapAgain = some afterGapAgain := (Option.some_get _).symm
  have hasks : (afterGapAgain.queue.addResendRequest 8).map (fun r => (r.1.cmds, r.2)) =
      some ([(1, 2), (4, 5)], true) := by decide
  rcases (request_missing_once (by decide) hok hr).2 rfl rfl (by decide) 8 with
    hq | ⟨q, e, hq, hcmds, -, hmissing, hbehind⟩
  · rw [hq] at hasks
    cases hasks
  · rw [hq, Option.map_some, Option.some.injEq, Prod.mk.injEq] at hasks
    have he : [(1, 2), (4, 5)] = [(1, 2)] ++ [(4, e)] := hasks.1.symm.trans hcmds
    obtain rfl : 5 = e := by simpa using he
    exact ⟨q, hq, hasks.1, hmissing, hbehind⟩

end Ufix.ResendRequests
