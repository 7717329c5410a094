import Ufix.Memory
import Ufix.Runs
import Ufix.RecvQueue

/-!
In which order the consumer gets the numbers that the peer chose.

The slot of a number is its residue, so the ring tells numbers apart only within one size of the
head. `get` checks that the number in the slot is not behind the head; nothing checks that it is
not too far ahead, and `put` does not compare with the head at all.
-/

namespace Ufix.Delivery

open Ufix.Runs Ufix.Memory

/-- The queue, and the slot the consumer holds between `get` and `reset`. -/
structure State where
  queue : RecvQueue
  taken : Option ℕ

inductive Act
  | put (msg : RMessage)
  | updateSeq (currentSeqNo newSeqNo : UInt64)
  | wait (ts : ℤ)
  | get
  | reset

def step (s : State) : Act → Option State
  | .put msg =>
    if msg.seq < 2 ^ 64 then (s.queue.put msg).map fun q => { s with queue := q } else none
  | .updateSeq c n => some { s with queue := s.queue.updateSeq c.toNat n.toNat }
  | .wait ts =>
    if s.taken = none then (s.queue.waitMsg ts).map fun q => { s with queue := q } else none
  | .get =>
    if s.taken = none then s.queue.get.map fun (q, index) => ⟨q, some index⟩ else none
  | .reset => s.taken.map fun index => ⟨s.queue.resetSlot index, none⟩

/-- A queue of `size` slots whose head was set to `seq`. -/
def start (size : ℕ) (seq : UInt64) : State :=
  ⟨(RecvQueue.new size).setHeadSeq seq.toNat, none⟩

/-- Every number an action stores satisfies `ok`. -/
def Stores (ok : RecvQueue → ℕ → Prop) (s : State) : Act → Prop
  | .put msg => (s.queue.msgsRecv (msg.seq % s.queue.qSize)).seq = 0 → 0 < msg.seq →
      ok s.queue msg.seq
  | .updateSeq c n => ∀ i ∈ RecvQueue.gapFill c.toNat n.toNat, ok s.queue i
  | _ => True

/-- The ring can tell the number from the next one to deliver. -/
def InReach (q : RecvQueue) (n : ℕ) : Prop := n ≤ q.headSeq + q.qSize

/-- Nor was it delivered. -/
def Awaited (q : RecvQueue) (n : ℕ) : Prop := q.headSeq < n ∧ InReach q n

instance (q : RecvQueue) (n : ℕ) : Decidable (InReach q n) := inferInstanceAs (Decidable (_ ≤ _))
instance (q : RecvQueue) (n : ℕ) : Decidable (Awaited q n) := inferInstanceAs (Decidable (_ ∧ _))

instance (ok : RecvQueue → ℕ → Prop) [∀ q n, Decidable (ok q n)] (s : State) :
    DecidablePred (Stores ok s)
  | .put _ => inferInstanceAs (Decidable (_ → _ → _))
  | .updateSeq _ _ => inferInstanceAs (Decidable (∀ _ ∈ _, _))
  | .wait _ | .get | .reset => inferInstanceAs (Decidable True)

/-! ### Order -/

/-- Occupied slots hold numbers of their residue in reach of the head, and the head stands at the
slot of the next number. -/
structure Ordered (s : State) : Prop where
  size : 0 < s.queue.qSize
  headLt : s.queue.head < s.queue.qSize
  head : s.queue.headSeq + 1 < 2 ^ 64 → s.queue.head = (s.queue.headSeq + 1) % s.queue.qSize
  slot : ∀ i, (s.queue.msgsRecv i).seq ≠ 0 → (s.queue.msgsRecv i).seq % s.queue.qSize = i ∧
    (s.queue.msgsRecv i).seq < 2 ^ 64 ∧ InReach s.queue (s.queue.msgsRecv i).seq

lemma Ordered.get_seq {s : State} (h : Ordered s) {q' : RecvQueue} {index : ℕ}
    (hg : s.queue.get = some (q', index)) :
    (s.queue.msgsRecv index).seq = s.queue.headSeq + 1 := by
  obtain ⟨rfl, hne, hlt, -⟩ := RecvQueue.get_eq_some hg
  obtain ⟨hmod, hulong, hreach⟩ := h.slot _ hne
  have hhead := h.head (by omega)
  have hsize := h.size
  refine eq_of_mod_eq hlt hreach (by omega) (by omega) ?_
  rw [hmod, ← hhead]

lemma Ordered.congr {s t : State} (h : Ordered s) (hs : s.queue.SameSeqs t.queue) : Ordered t := by
  obtain ⟨h1, h2, h3, h4⟩ := h
  refine ⟨?_, ?_, ?_, fun i => ?_⟩
  · rw [hs.qSize]; exact h1
  · rw [hs.head, hs.qSize]; exact h2
  · rw [hs.headSeq, hs.head, hs.qSize]; exact h3
  · rw [InReach, hs.seq, hs.qSize, hs.headSeq]; exact h4 i

lemma Ordered.store {s t : State} (h : Ordered s) {n : ℕ} (hn : n < 2 ^ 64)
    (hreach : InReach s.queue n) (hsize : t.queue.qSize = s.queue.qSize)
    (hhead : t.queue.head = s.queue.head) (hseq : t.queue.headSeq = s.queue.headSeq)
    (hslot : ∀ i, (t.queue.msgsRecv i).seq =
      if i = n % s.queue.qSize then n else (s.queue.msgsRecv i).seq) : Ordered t := by
  obtain ⟨h1, h2, h3, h4⟩ := h
  refine ⟨by rw [hsize]; exact h1, by rw [hhead, hsize]; exact h2,
    by rw [hseq, hhead, hsize]; exact h3, fun i hi => ?_⟩
  rw [hslot] at hi ⊢
  rw [InReach, hsize, hseq]
  split
  · next he => exact ⟨he.symm, hn, hreach⟩
  · next he =>
    rw [if_neg he] at hi
    exact h4 i hi

lemma Ordered.fill {s : State} (h : Ordered s) (l : List ℕ)
    (hl : ∀ n ∈ l, n < 2 ^ 64 ∧ InReach s.queue n) :
    Ordered { s with queue := l.foldl RecvQueue.setGf s.queue } := by
  induction l generalizing s with
  | nil => exact h
  | cons n l ih =>
    obtain ⟨hn, hreach⟩ := hl n (by simp)
    exact ih (s := { s with queue := s.queue.setGf n })
      (h.store hn hreach rfl rfl rfl fun i => RecvQueue.setGf_seq s.queue n i)
      fun m hm => hl m (by simp [hm])

lemma gapFill_lt {c n : UInt64} {i : ℕ} (hi : i ∈ RecvQueue.gapFill c.toNat n.toNat) :
    i < 2 ^ 64 := by
  have := UInt64.toNat_lt n
  simp only [RecvQueue.gapFill, List.mem_range'_1] at hi
  omega

lemma Ordered.take {s : State} (h : Ordered s) {q' : RecvQueue} {index : ℕ}
    (hg : s.queue.get = some (q', index)) : Ordered ⟨q', some index⟩ := by
  have hnext := h.get_seq hg
  obtain ⟨rfl, hne, hlt, rfl⟩ := RecvQueue.get_eq_some hg
  have hulong := (h.slot _ hne).2.1
  have hhead := h.head (by omega)
  have hsize := h.size
  refine ⟨hsize, ?_, fun _ => ?_, fun i hi => ?_⟩
  · have := h.headLt
    simp only
    split <;> omega
  · simp only [hnext]
    have hmod : (s.queue.headSeq + 1 + 1) % s.queue.qSize =
        ((s.queue.headSeq + 1) % s.queue.qSize + 1) % s.queue.qSize := by
      rw [Nat.mod_add_mod]
    have hb := Nat.mod_lt (s.queue.headSeq + 1) (show 0 < s.queue.qSize by omega)
    rw [hmod, ← hhead]
    split
    · next he => rw [he, Nat.mod_self]
    · rw [Nat.mod_eq_of_lt (by omega)]
  · obtain ⟨hm, hl, hr⟩ := h.slot i hi
    refine ⟨hm, hl, ?_⟩
    simp only [InReach] at hr ⊢
    omega

lemma Ordered.reset {s : State} (h : Ordered s) (k : ℕ) :
    Ordered ⟨s.queue.resetSlot k, none⟩ := by
  obtain ⟨h1, h2, h3, h4⟩ := h
  refine ⟨h1, h2, h3, fun i hi => ?_⟩
  rw [RecvQueue.resetSlot_seq] at hi ⊢
  split
  · next he =>
    rw [if_pos he] at hi
    exact absurd rfl hi
  · next he =>
    rw [if_neg he] at hi
    exact h4 i hi

lemma step_ordered {s t : State} {a : Act} (h : Ordered s) (hok : Stores InReach s a)
    (hs : step s a = some t) : Ordered t := by
  cases a with
  | put msg =>
    simp only [step] at hs
    split at hs
    · next hlt =>
      obtain ⟨q, hq, rfl⟩ := Option.map_eq_some_iff.mp hs
      rcases RecvQueue.put_cases hq with rfl | ⟨h0, hpos, h1, h2, h3, h4⟩
      · exact h
      · exact h.store hlt (hok h0 hpos) h1 h2 h3 h4
    · cases hs
  | updateSeq c n =>
    cases hs
    exact h.fill _ fun i hi => ⟨gapFill_lt hi, hok i hi⟩
  | wait ts =>
    simp only [step] at hs
    split at hs
    · obtain ⟨q, hq, rfl⟩ := Option.map_eq_some_iff.mp hs
      exact h.congr (RecvQueue.waitMsg_same hq)
    · cases hs
  | get =>
    simp only [step] at hs
    split at hs
    · obtain ⟨⟨q, index⟩, hq, rfl⟩ := Option.map_eq_some_iff.mp hs
      exact h.take hq
    · cases hs
  | reset =>
    obtain ⟨index, -, rfl⟩ := Option.map_eq_some_iff.mp hs
    exact h.reset index

lemma start_ordered {size : ℕ} (hsize : 0 < size) (seq : UInt64) : Ordered (start size seq) := by
  refine ⟨hsize, Nat.mod_lt _ hsize, fun h => ?_, fun i hi => absurd rfl hi⟩
  have hu : ulong (seq.toNat + 1) = seq.toNat + 1 := ulong_of_lt h
  change ulong (seq.toNat + 1) % size = (seq.toNat + 1) % size
  rw [hu]

/-- **Delivery in order.** In every run that stores no number more than the size of the ring past
the head, each `get` returns the number after the head. -/
theorem get_next {size : ℕ} (hsize : 2 ≤ size) {seq : UInt64} {acts : List Act}
    (hok : Meets step (Stores InReach) (start size seq) acts) {s : State}
    (hr : run step (start size seq) acts = some s) {q' : RecvQueue} {index : ℕ}
    (hg : s.queue.get = some (q', index)) :
    (s.queue.msgsRecv index).seq = s.queue.headSeq + 1 :=
  (run_induct (fun _ _ _ h ha hs => step_ordered h ha hs) (start_ordered (by omega) seq) hok
    hr).get_seq hg

/-- Number `3` comes late, `5` takes the slot of `1`, and a gap fill stands for `6`. -/
def lateThird : List Act :=
  [.put (.new [] 0 1), .put (.new [] 0 2), .get, .put (.new [] 0 4), .reset, .get, .reset, .wait 7,
    .put (.new [] 0 5), .put (.new [] 0 3), .get, .reset, .updateSeq 5 7, .get, .reset]

def afterLateThird : State := (run step (start 4 0) lateThird).get rfl

theorem get_next_lateThird :
    (afterLateThird.queue.msgsRecv 1).seq = afterLateThird.queue.headSeq + 1 := by
  have hr : run step (start 4 0) lateThird = some afterLateThird := (Option.some_get _).symm
  have hok : Meets step (Stores InReach) (start 4 0) lateThird := by decide
  obtain ⟨⟨q', index⟩, hg⟩ := Option.isSome_iff_exists.mp
    (rfl : afterLateThird.queue.get.isSome = true)
  have hindex : index = 1 := (RecvQueue.get_eq_some hg).1
  have hnext := get_next (by decide) hok hr hg
  rwa [hindex] at hnext

/-- Number `5` is put first and shares the slot of `1`: the first `get` returns it. -/
theorem get_skips :
    (run step (start 4 0) [.put (RMessage.new [] 0 5)]).map (fun s =>
        (s.queue.headSeq, s.queue.get.map fun r => (s.queue.msgsRecv r.2).seq)) =
      some (0, some 5) := by
  decide

/-! ### No stale entries -/

/-- Every occupied slot, but for the one the consumer holds, has a number still to come. -/
def Current (s : State) : Prop :=
  ∀ i, s.taken ≠ some i → (s.queue.msgsRecv i).seq ≠ 0 →
    s.queue.headSeq < (s.queue.msgsRecv i).seq

lemma Current.congr {s t : State} (h : Current s) (hs : s.queue.SameSeqs t.queue)
    (ht : t.taken = s.taken) : Current t := by
  intro i
  rw [ht, hs.seq, hs.headSeq]
  exact h i

lemma Current.store {s t : State} (h : Current s) {n : ℕ} (hn : s.queue.headSeq < n)
    (hseq : t.queue.headSeq = s.queue.headSeq) (ht : t.taken = s.taken)
    (hslot : ∀ i, (t.queue.msgsRecv i).seq =
      if i = n % s.queue.qSize then n else (s.queue.msgsRecv i).seq) : Current t := by
  intro i hi hne
  rw [ht] at hi
  rw [hslot] at hne ⊢
  rw [hseq]
  split
  · exact hn
  · next he =>
    rw [if_neg he] at hne
    exact h i hi hne

lemma Current.fill {s : State} (h : Current s) (l : List ℕ)
    (hl : ∀ n ∈ l, s.queue.headSeq < n) :
    Current { s with queue := l.foldl RecvQueue.setGf s.queue } := by
  induction l generalizing s with
  | nil => exact h
  | cons n l ih =>
    exact ih (s := { s with queue := s.queue.setGf n })
      (h.store (hl n (by simp)) rfl rfl fun i => RecvQueue.setGf_seq s.queue n i)
      fun m hm => hl m (by simp [hm])

lemma Current.take {s : State} (h : Current s) (ho : Ordered s) (hnone : s.taken = none)
    {q' : RecvQueue} {index : ℕ} (hg : s.queue.get = some (q', index)) :
    Current ⟨q', some index⟩ := by
  have hnext := ho.get_seq hg
  obtain ⟨rfl, hne, -, rfl⟩ := RecvQueue.get_eq_some hg
  intro i hi hi0
  have hlt := h i (by rw [hnone]; nofun) hi0
  have hmod := (ho.slot i hi0).1
  have hmod' := (ho.slot _ hne).1
  simp only [hnext] at hi hi0 hlt ⊢
  rcases Nat.lt_or_ge (s.queue.headSeq + 1) (s.queue.msgsRecv i).seq with h1 | h1
  · exact h1
  · refine absurd ?_ hi
    rw [← hmod, ← hmod', hnext, show (s.queue.msgsRecv i).seq = s.queue.headSeq + 1 by omega]

lemma Current.reset {q : RecvQueue} {k : ℕ} (h : Current ⟨q, some k⟩) :
    Current ⟨q.resetSlot k, none⟩ := by
  intro i _ hne
  rw [RecvQueue.resetSlot_seq] at hne ⊢
  split
  · next he =>
    rw [if_pos he] at hne
    exact absurd rfl hne
  · next he =>
    rw [if_neg he] at hne
    exact h i (by simpa using Ne.symm he) hne

lemma step_current {s t : State} {a : Act} (h : Ordered s ∧ Current s)
    (hok : Stores Awaited s a) (hs : step s a = some t) : Ordered t ∧ Current t := by
  have hreach : Stores InReach s a := by
    cases a with
    | put msg => exact fun h0 hpos => (hok h0 hpos).2
    | updateSeq c n => exact fun i hi => (hok i hi).2
    | wait ts => trivial
    | get => trivial
    | reset => trivial
  refine ⟨step_ordered h.1 hreach hs, ?_⟩
  obtain ⟨ho, hc⟩ := h
  cases a with
  | put msg =>
    simp only [step] at hs
    split at hs
    · obtain ⟨q, hq, rfl⟩ := Option.map_eq_some_iff.mp hs
      rcases RecvQueue.put_cases hq with rfl | ⟨h0, hpos, -, -, h3, h4⟩
      · exact hc
      · exact hc.store (hok h0 hpos).1 h3 rfl h4
    · cases hs
  | updateSeq c n =>
    cases hs
    exact hc.fill _ fun i hi => (hok i hi).1
  | wait ts =>
    simp only [step] at hs
    split at hs
    · obtain ⟨q, hq, rfl⟩ := Option.map_eq_some_iff.mp hs
      exact hc.congr (RecvQueue.waitMsg_same hq) rfl
    · cases hs
  | get =>
    simp only [step] at hs
    split at hs
    · next hnone =>
      obtain ⟨⟨q, index⟩, hq, rfl⟩ := Option.map_eq_some_iff.mp hs
      exact hc.take ho hnone hq
    · cases hs
  | reset =>
    obtain ⟨index, hi, rfl⟩ := Option.map_eq_some_iff.mp hs
    obtain ⟨q, taken⟩ := s
    subst hi
    exact hc.reset

/-- **No stale entry.** In every run that stores only numbers past the head and at most the size
of the ring past it, every occupied slot but the one the consumer holds has a number greater than
`head_seq`, in every state passed through. -/
theorem always_current {size : ℕ} (hsize : 2 ≤ size) {seq : UInt64} {acts : List Act}
    (hok : Meets step (Stores Awaited) (start size seq) acts) :
    Always step Current (start size seq) acts :=
  (always_of_meets (P := fun s => Ordered s ∧ Current s)
    (fun _ _ _ h ha hs => step_current h ha hs)
    ⟨start_ordered (by omega) seq, fun _ _ hne => absurd rfl hne⟩ hok).mono fun _ h => h.2

theorem always_current_lateThird : Always step Current (start 4 0) lateThird :=
  always_current (by decide) (by decide)

/-- Number `1` was delivered and arrives again: it stays in its slot, `get` does not take it, and
number `3` waits for the slot. -/
theorem stale_entry_stays :
    (run step (start 2 0) [.put (RMessage.new [] 0 1), .get, .reset,
        .put (RMessage.new [] 0 1)]).map (fun s =>
          (s.taken, s.queue.headSeq, (s.queue.msgsRecv 1).seq,
            (s.queue.put (RMessage.new [] 0 3)).isNone)) =
      some (none, 1, 1, true) := by
  decide

end Ufix.Delivery
