import Ufix.LastSeqs
import Ufix.SendQueue

/-!
One data queue across restarts: what was transmitted, where its head stands, and where the
marks on disk put the head after a crash.
-/

namespace Ufix.QueueWindow

open PManager

/-- With `d` the greatest message transmitted: the head is not past an untransmitted message,
and at most a window of transmitted ones is behind it. -/
def InWindow (W d head : ℕ) : Prop := head ≤ 1 + d ∧ 1 + d ≤ head + W

instance (W d head : ℕ) : Decidable (InWindow W d head) := inferInstanceAs (Decidable (_ ∧ _))

/-- The marks count the queue right: the number after its last mark belongs to the same process,
or every message that a restart counted was in fact transmitted, or the count is past the end of
the file and no more than a window was ever transmitted. -/
def Counted (W : ℕ) (recs : List SeqSentInfo) (d n i : ℕ) : Prop :=
  ∀ r r', Leaves recs i r r' →
    r'.msgSeq ≤ r.msgSeq + W ∨ r.dataSeq + W ≤ d ∨ n < r.dataSeq + W ∧ d ≤ W

/-- Message `d` is at most a window past the one of the queue's last mark, or past that one and
the numbers between this mark and the next. -/
def Near (W : ℕ) (recs : List SeqSentInfo) (i d : ℕ) : Prop :=
  d ≤ lastData recs i + W ∨
    ∃ r r', Leaves recs i r r' ∧ d + r.msgSeq + 1 ≤ r.dataSeq + r'.msgSeq + W

/-- Where a restart puts the head: `est` is the value `read_sent_marks` gives, and the file
holds `n` messages. -/
def headAt (est n : ℕ) : ℕ := if est = 0 ∨ n < est then 1 else est + 1

lemma headAt_le (est n : ℕ) : headAt est n ≤ n + 1 := by
  unfold headAt
  split <;> omega

/-- Marks of one process differ by a window at most, and by one more across a restart. -/
def Spaced (W : ℕ) (a b : SeqSentInfo) : Prop :=
  a.msgSeq < b.msgSeq ∧ b.msgSeq ≤ a.msgSeq + W + 1

/-- Of `n` messages in the file the greatest transmitted is `d`: it is at most a window past what
the marks count, and not less than a count within one process says. -/
structure OnDisk (W : ℕ) (recs : List SeqSentInfo) (d n i : ℕ) : Prop where
  file : d ≤ n
  base : d ≤ lastSeqsOf recs i + W
  count : LeftInProcess W recs i → lastSeqsOf recs i ≤ d

variable {W c d n i : ℕ} {recs : List SeqSentInfo} {x : SeqSentInfo}

lemma Near.le_lastSeqsOf (h : Near W recs i d) (hi : i ≠ 0) (hc : recs.IsChain (Spaced W)) :
    d ≤ lastSeqsOf recs i + W := by
  rcases h with h | ⟨r, r', hl, h⟩
  · rcases leaves_or recs hi with hno | hlast | ⟨r, r', hl⟩
    · obtain ⟨h1, h2⟩ := lastSeqsOf_of_no_mark hi hno
      omega
    · have := lastSeqsOf_of_last hi hlast
      omega
    · obtain ⟨h1, h2⟩ := lastSeqsOf_of_leaves hi hl
      have := (hl.rel hc).1
      omega
  · have := (lastSeqsOf_of_leaves hi hl).1
    omega

/-- **A restart puts the head of a queue in the window if and only if the marks count the queue
right.** -/
theorem inWindow_iff_counted (hW : 1 ≤ W) (hi : i ≠ 0) (hc : recs.IsChain (Spaced W))
    (h : OnDisk W recs d n i) :
    InWindow W d (headAt (lastSeqsOf recs i).toNat n) ↔ Counted W recs d n i := by
  obtain ⟨hfile, hbase, hcount⟩ := h
  unfold InWindow headAt
  rcases leaves_or recs hi with hno | hlast | ⟨r, r', hl⟩
  · have h1 := (lastSeqsOf_of_no_mark hi hno).1
    have : Counted W recs d n i := fun r r' hl => absurd hl (not_leaves_of_no_mark hno)
    simp only [h1, this, iff_true, Int.toNat_zero, true_or, if_true]
    omega
  · have h1 := lastSeqsOf_of_last hi hlast
    have h2 := hcount fun r r' hl => absurd hl (not_leaves_of_last hlast)
    have : Counted W recs d n i := fun r r' hl => absurd hl (not_leaves_of_last hlast)
    simp only [this, iff_true]
    split <;> omega
  · have h1 := (lastSeqsOf_of_leaves hi hl).1
    obtain ⟨hlt, hle⟩ := hl.rel hc
    have hiff : Counted W recs d n i ↔
        r'.msgSeq ≤ r.msgSeq + W ∨ r.dataSeq + W ≤ d ∨ n < r.dataSeq + W ∧ d ≤ W := by
      constructor
      · exact fun h => h r r' hl
      · intro h s s' hs
        obtain ⟨rfl, rfl⟩ := leaves_unique hl hs
        exact h
    have hproc : r'.msgSeq ≤ r.msgSeq + W → lastSeqsOf recs i ≤ d := by
      intro h
      refine hcount fun s s' hs => ?_
      obtain ⟨rfl, rfl⟩ := leaves_unique hl hs
      exact h
    rw [hiff]
    rcases Nat.lt_or_ge (r.msgSeq + W) r'.msgSeq with hjump | hjump
    · split <;> omega
    · have := hproc hjump
      split <;> omega

lemma chain_concat (h : recs.IsChain (Spaced W))
    (hx : recs ≠ [] → lastNum recs < x.msgSeq ∧ x.msgSeq ≤ lastNum recs + W + 1) :
    (recs ++ [x]).IsChain (Spaced W) := by
  rcases List.eq_nil_or_concat' recs with rfl | ⟨pre, r, rfl⟩
  · exact List.isChain_singleton x
  · have hx := hx (by simp)
    rw [lastNum_concat] at hx
    refine List.isChain_append.mpr ⟨h, List.isChain_singleton x, fun a ha b hb => ?_⟩
    simp only [List.getLast?_concat, Option.mem_def, Option.some.injEq] at ha
    simp only [List.head?_cons, Option.mem_def, Option.some.injEq] at hb
    rw [← ha, ← hb]
    exact hx

/-! ### The queue while its process runs -/

/-- A queue of a running process with counter `c`; `logon` says that the process has sent a
message. While the last mark is one of the queue, the numbers past it are messages of the queue:
they are behind the head, and they were transmitted. -/
structure QueueInv (W : ℕ) (recs : List SeqSentInfo) (c d n : ℕ) (logon : Prop)
    (q : SendQueue) (i : ℕ) : Prop where
  dataSeq : q.dataSeq = n + 1
  recover : q.recoverDataSeq ≤ n + 1
  head : q.headDataSeq ≤ n + 1
  slots : ∀ j, (q.msgsQueue j).dataSeq ≤ n
  behind : d ≤ q.headDataSeq + W
  disk : OnDisk W recs d n i
  counting : logon → lastQueue recs = i →
    lastData recs i + c ≤ q.headDataSeq + lastNum recs ∧
      lastData recs i + c ≤ 1 + d + lastNum recs

variable {logon : Prop} {q q' : SendQueue}

/-- Another queue is marked with the counter's number. -/
lemma QueueInv.onDisk_other (h : QueueInv W recs c d n logon q i) (hi : i ≠ 0)
    (hx : x.qIndex ≠ i) (hc : x.msgSeq = c) (hnext : recs ≠ [] → lastNum recs < c)
    (hjump : ¬ logon → recs ≠ [] → c = lastNum recs + W + 1) :
    OnDisk W (recs ++ [x]) d n i := by
  obtain ⟨hfile, hbase, hcount⟩ := h.disk
  by_cases hl : lastQueue recs = i
  · have hne : recs ≠ [] := fun he => hi (by rw [← hl, he, lastQueue_nil])
    have hlt := hnext hne
    have hlast := lastSeqsOf_of_last hi hl
    have hest : lastSeqsOf (recs ++ [x]) i = lastSeqsOf recs i + ((c : ℤ) - 1 - lastNum recs) := by
      rw [lastSeqsOf_concat, if_neg (Ne.symm hx), if_pos hl.symm, hc]
    refine ⟨hfile, by omega, fun hleft => ?_⟩
    by_cases hlogon : logon
    · have := (h.counting hlogon hl).2
      omega
    · -- the number after the queue's last mark is the first one of this process
      obtain ⟨r, hr, hnum⟩ := leaves_of_last hi hl hx
      have h1 := hleft r x hr
      have h2 := hjump hlogon hne
      omega
  · have hest : lastSeqsOf (recs ++ [x]) i = lastSeqsOf recs i := by
      rw [lastSeqsOf_concat, if_neg (Ne.symm hx), if_neg (Ne.symm hl)]
    rw [← hest] at hbase hcount
    exact ⟨hfile, hbase, fun hleft => hcount (hleft.of_concat hx)⟩

lemma QueueInv.otherMark (h : QueueInv W recs c d n logon q i) (hi : i ≠ 0)
    (hx : x.qIndex ≠ i) (hc : x.msgSeq = c) (hnext : recs ≠ [] → lastNum recs < c)
    (hjump : ¬ logon → recs ≠ [] → c = lastNum recs + W + 1) :
    QueueInv W (recs ++ [x]) (c + 1) d n True q i := by
  refine ⟨h.dataSeq, h.recover, h.head, h.slots, h.behind,
    h.onDisk_other hi hx hc hnext hjump, fun _ hl => ?_⟩
  rw [lastQueue_concat] at hl
  exact absurd hl hx

lemma QueueInv.otherUnmarked (h : QueueInv W recs c d n logon q i)
    (hl : lastQueue recs ≠ i) : QueueInv W recs (c + 1) d n logon q i :=
  ⟨h.dataSeq, h.recover, h.head, h.slots, h.behind, h.disk, fun _ he => absurd he hl⟩

lemma onDisk_ownMark (hfile : d ≤ n) (hx : x.qIndex = i) (h1 : x.dataSeq ≤ d)
    (h2 : d ≤ x.dataSeq + W) : OnDisk W (recs ++ [x]) d n i := by
  have hest : lastSeqsOf (recs ++ [x]) i = x.dataSeq := by
    rw [lastSeqsOf_concat, if_pos hx.symm]
  exact ⟨hfile, by omega, fun _ => by omega⟩

lemma QueueInv.ownMark (h : QueueInv W recs c d n logon q i) (hx : x.qIndex = i)
    (hc : x.msgSeq = c) (hd : x.dataSeq = q.headDataSeq) (hne : q.dataSeq ≠ q.headDataSeq) :
    QueueInv W (recs ++ [x]) (c + 1) (max d q.headDataSeq) n True q.markMsgSent i := by
  obtain ⟨hn, hrec, hhead, hslots, hbehind, ⟨hfile, -, -⟩, -⟩ := h
  refine ⟨hn, hrec, ?_, hslots, ?_, onDisk_ownMark (by omega) hx (by omega) (by omega),
    fun _ _ => ?_⟩
  · simp only [SendQueue.markMsgSent]
    omega
  · simp only [SendQueue.markMsgSent]
    omega
  · rw [lastNum_concat, lastData_concat, if_pos hx, hc, hd]
    simp only [SendQueue.markMsgSent]
    omega

lemma QueueInv.ownUnmarked (h : QueueInv W recs c d n logon q i) (hi : i ≠ 0) (hlogon : logon)
    (hl : lastQueue recs = i) (hnear : q.headDataSeq ≤ lastData recs i + W)
    (hne : q.dataSeq ≠ q.headDataSeq) :
    QueueInv W recs (c + 1) (max d q.headDataSeq) n logon q.markMsgSent i := by
  obtain ⟨hn, hrec, hhead, hslots, hbehind, ⟨hfile, hbase, hcount⟩, hcounting⟩ := h
  have hlast := lastSeqsOf_of_last hi hl
  obtain ⟨hc1, hc2⟩ := hcounting hlogon hl
  refine ⟨hn, hrec, ?_, hslots, ?_, ⟨by omega, by omega, fun hleft => ?_⟩, fun _ _ => ?_⟩
  · simp only [SendQueue.markMsgSent]
    omega
  · simp only [SendQueue.markMsgSent]
    omega
  · have := hcount hleft
    omega
  · simp only [SendQueue.markMsgSent]
    omega

lemma QueueInv.add (h : QueueInv W recs c d n logon q i) {data : List Byte}
    (hq : q.addMsg data = some q') : QueueInv W recs c d (n + 1) logon q' i := by
  obtain ⟨-, rfl⟩ := SendQueue.addMsg_eq_some.mp hq
  obtain ⟨hn, hrec, hhead, hslots, hbehind, ⟨hfile, hbase, hcount⟩, hcounting⟩ := h
  refine ⟨by simp [hn], by simp only; omega, by simp only; omega, fun j => ?_, hbehind,
    ⟨by omega, hbase, hcount⟩, hcounting⟩
  by_cases hj : j = q.dataSeq % q.qSize
  · subst hj
    simp [hn]
  · have := hslots j
    simp only [Function.update_of_ne hj]
    omega

lemma QueueInv.same (h : QueueInv W recs c d n logon q i) (hs : q.SameMsgs q')
    (hh : q'.headDataSeq = q.headDataSeq) : QueueInv W recs c d n logon q' i := by
  obtain ⟨h1, h2, h3, h4, h5, h6, h7⟩ := h
  rw [← hh] at h3 h5 h7
  exact ⟨hs.dataSeq.trans h1, by rwa [hs.recoverDataSeq], h3, by rwa [hs.msgsQueue], h5, h6, h7⟩

/-! ### Lookups for a resend -/

def found (q : SendQueue) (d : ℕ) : ℕ := if (q.msgsQueue (d % q.qSize)).dataSeq = d then d else 0

/-- A lookup of message `d` that the marks can follow, where `t` was transmitted before: what it
transmits first is near the marks, and at most a window past the head it leaves. -/
def LookupOk (W : ℕ) (recs : List SeqSentInfo) (i t : ℕ) (q : SendQueue) (d : ℕ) : Prop :=
  found q d ≤ t ∨
    Near W recs i (found q d) ∧ found q d ≤ (q.getSentMsg d).1.headDataSeq + W

lemma markSeqSent_head_mem (q : SendQueue) (seq : ℕ) :
    q.headDataSeq ≤ (q.markSeqSent seq).headDataSeq ∧
      (q.markSeqSent seq).headDataSeq ≤ max q.headDataSeq q.recoverDataSeq := by
  rw [SendQueue.markSeqSent_headDataSeq]
  split <;> omega

lemma getSentMsg_head_mem (q : SendQueue) (d : ℕ) :
    q.headDataSeq ≤ (q.getSentMsg d).1.headDataSeq ∧
      (q.getSentMsg d).1.headDataSeq ≤ max q.headDataSeq q.recoverDataSeq := by
  simp only [SendQueue.getSentMsg]
  split
  · split
    · split
      · exact markSeqSent_head_mem q _
      · exact ⟨le_rfl, le_max_left _ _⟩
    · exact markSeqSent_head_mem q _
  · exact markSeqSent_head_mem q _

lemma QueueInv.lookup (h : QueueInv W recs c d n logon q i) (hi : i ≠ 0)
    (hchain : recs.IsChain (Spaced W)) {k : ℕ} (hok : LookupOk W recs i d q k) :
    QueueInv W recs c (max d (found q k)) n logon (q.getSentMsg k).1 i := by
  obtain ⟨hn, hrec, hhead, hslots, hbehind, ⟨hfile, hbase, hcount⟩, hcounting⟩ := h
  have hs := SendQueue.getSentMsg_same q k
  obtain ⟨hge, hle⟩ := getSentMsg_head_mem q k
  have hfound : found q k ≤ n := by
    unfold found
    split
    · next he => exact he ▸ hslots _
    · exact Nat.zero_le n
  have hnear : (found q k : ℤ) ≤ lastSeqsOf recs i + W ∧
      found q k ≤ (q.getSentMsg k).1.headDataSeq + W := by
    rcases hok with hok | ⟨hok, hwin⟩
    · omega
    · exact ⟨hok.le_lastSeqsOf hi hchain, hwin⟩
  refine ⟨hs.dataSeq.trans hn, by rwa [hs.recoverDataSeq], by omega, by rwa [hs.msgsQueue],
    by omega, ⟨by omega, by omega, fun hl => ?_⟩, fun hlogon hl => ?_⟩
  · have := hcount hl
    omega
  · have := hcounting hlogon hl
    omega

end Ufix.QueueWindow
