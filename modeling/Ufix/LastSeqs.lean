import Mathlib.Data.List.Chain
import Ufix.PManager

/-!
What the marks on disk say about one data queue.

The last mark of the queue names one of its messages. When a mark of another queue follows, the
numbers in between are counted as messages of the queue; this is all `read_sent_marks` knows of
them.
-/

namespace Ufix.PManager

/-- The message of the last mark of queue `i`, `0` for no mark. -/
def lastData (recs : List SeqSentInfo) (i : ℕ) : ℕ :=
  recs.foldl (fun d r => if r.qIndex = i then r.dataSeq else d) 0

/-- Queue `i` was left for good: `r` is its last mark and `r'` the next one. -/
def Leaves (recs : List SeqSentInfo) (i : ℕ) (r r' : SeqSentInfo) : Prop :=
  ∃ pre post, recs = pre ++ r :: r' :: post ∧ r.qIndex = i ∧ ∀ x ∈ r' :: post, x.qIndex ≠ i

@[simp] lemma lastData_nil (i : ℕ) : lastData [] i = 0 := rfl

lemma lastData_concat (recs : List SeqSentInfo) (x : SeqSentInfo) (i : ℕ) :
    lastData (recs ++ [x]) i = if x.qIndex = i then x.dataSeq else lastData recs i := by
  simp [lastData]

lemma not_leaves_nil (i : ℕ) (r r' : SeqSentInfo) : ¬ Leaves [] i r r' := by
  rintro ⟨pre, post, h, -, -⟩
  simp at h

lemma leaves_concat {recs : List SeqSentInfo} {x r r' : SeqSentInfo} {i : ℕ} :
    Leaves (recs ++ [x]) i r r' ↔
      x.qIndex ≠ i ∧
        (Leaves recs i r r' ∨ ∃ pre, recs = pre ++ [r] ∧ r.qIndex = i ∧ r' = x) := by
  constructor
  · rintro ⟨pre, post, h, hr, hpost⟩
    induction post using List.reverseRecOn with
    | nil =>
      have h' : recs ++ [x] = (pre ++ [r]) ++ [r'] := by simpa using h
      obtain ⟨rfl, hx⟩ := List.append_inj' h' rfl
      cases hx
      exact ⟨hpost x (by simp), Or.inr ⟨pre, rfl, hr, rfl⟩⟩
    | append_singleton post y _ =>
      have h' : recs ++ [x] = (pre ++ r :: r' :: post) ++ [y] := by simpa using h
      obtain ⟨rfl, hx⟩ := List.append_inj' h' rfl
      cases hx
      exact ⟨hpost x (by simp), Or.inl ⟨pre, post, rfl, hr, fun z hz => hpost z (by
        rcases List.mem_cons.mp hz with rfl | hz <;> simp [*])⟩⟩
  · rintro ⟨hx, ⟨pre, post, rfl, hr, hpost⟩ | ⟨pre, rfl, hr, rfl⟩⟩
    · refine ⟨pre, post ++ [x], by simp, hr, fun z hz => ?_⟩
      rcases List.mem_append.mp (by simpa using hz : z ∈ (r' :: post) ++ [x]) with hz | hz
      · exact hpost z hz
      · rw [List.mem_singleton.mp hz]
        exact hx
    · exact ⟨pre, [], by simp, hr, fun z hz => by rwa [List.mem_singleton.mp hz]⟩

variable {recs : List SeqSentInfo} {r r' x : SeqSentInfo} {i : ℕ}

lemma not_leaves_of_last (h : lastQueue recs = i) : ¬ Leaves recs i r r' := by
  rcases List.eq_nil_or_concat' recs with rfl | ⟨pre, x, rfl⟩
  · exact not_leaves_nil i r r'
  · rw [lastQueue_concat] at h
    exact fun hl => (leaves_concat.mp hl).1 h

lemma not_leaves_of_no_mark (h : ∀ x ∈ recs, x.qIndex ≠ i) : ¬ Leaves recs i r r' := by
  rintro ⟨pre, post, rfl, hr, -⟩
  exact h r (by simp) hr

lemma leaves_unique {s s' : SeqSentInfo} (h : Leaves recs i r r') (h' : Leaves recs i s s') :
    r = s ∧ r' = s' := by
  induction recs using List.reverseRecOn with
  | nil => exact absurd h (not_leaves_nil i r r')
  | append_singleton recs x ih =>
    obtain ⟨-, h | ⟨pre, rfl, hr, rfl⟩⟩ := leaves_concat.mp h
    · obtain ⟨-, h' | ⟨pre, rfl, hs, -⟩⟩ := leaves_concat.mp h'
      · exact ih h h'
      · exact absurd h (not_leaves_of_last (by rw [lastQueue_concat, hs]))
    · obtain ⟨-, h' | ⟨pre', he, -, rfl⟩⟩ := leaves_concat.mp h'
      · exact absurd h' (not_leaves_of_last (by rw [lastQueue_concat, hr]))
      · exact ⟨List.singleton_inj.mp (List.append_inj' he rfl).2, rfl⟩

lemma Leaves.rel {R : SeqSentInfo → SeqSentInfo → Prop} (h : Leaves recs i r r')
    (hc : recs.IsChain R) : R r r' := by
  obtain ⟨pre, post, rfl, -, -⟩ := h
  exact (List.isChain_append_cons_cons.mp hc).2.1

/-- A queue has no mark, or its mark is the last, or it was left. -/
lemma leaves_or (recs : List SeqSentInfo) (hi : i ≠ 0) :
    (∀ x ∈ recs, x.qIndex ≠ i) ∨ lastQueue recs = i ∨ ∃ r r', Leaves recs i r r' := by
  induction recs using List.reverseRecOn with
  | nil => exact Or.inl nofun
  | append_singleton recs x ih =>
    by_cases hx : x.qIndex = i
    · exact Or.inr (Or.inl (by rw [lastQueue_concat, hx]))
    · rcases ih with h | h | ⟨r, r', h⟩
      · refine Or.inl fun y hy => ?_
        rcases List.mem_append.mp hy with hy | hy
        · exact h y hy
        · rwa [List.mem_singleton.mp hy]
      · rcases List.eq_nil_or_concat' recs with rfl | ⟨pre, r, rfl⟩
        · exact absurd h (Ne.symm hi)
        · rw [lastQueue_concat] at h
          exact Or.inr (Or.inr ⟨r, x, leaves_concat.mpr ⟨hx, Or.inr ⟨pre, rfl, h, rfl⟩⟩⟩)
      · exact Or.inr (Or.inr ⟨r, r', leaves_concat.mpr ⟨hx, Or.inl h⟩⟩)

/-! ### What is counted for the queue -/

lemma lastSeqsOf_of_no_mark (hi : i ≠ 0) (h : ∀ x ∈ recs, x.qIndex ≠ i) :
    lastSeqsOf recs i = 0 ∧ lastData recs i = 0 := by
  induction recs using List.reverseRecOn with
  | nil => exact ⟨rfl, rfl⟩
  | append_singleton recs x ih =>
    have hx : x.qIndex ≠ i := h x (by simp)
    have hrecs : ∀ y ∈ recs, y.qIndex ≠ i := fun y hy => h y (by simp [hy])
    have hlast : i ≠ lastQueue recs := by
      rcases List.eq_nil_or_concat' recs with rfl | ⟨pre, r, rfl⟩
      · exact hi
      · rw [lastQueue_concat]
        exact (hrecs r (by simp)).symm
    obtain ⟨h1, h2⟩ := ih hrecs
    rw [lastSeqsOf_concat, lastData_concat, if_neg hx, if_neg (Ne.symm hx), if_neg hlast]
    exact ⟨h1, h2⟩

lemma lastSeqsOf_of_last (hi : i ≠ 0) (h : lastQueue recs = i) :
    lastSeqsOf recs i = lastData recs i := by
  rcases List.eq_nil_or_concat' recs with rfl | ⟨pre, r, rfl⟩
  · exact absurd h (Ne.symm hi)
  · rw [lastQueue_concat] at h
    rw [lastSeqsOf_concat, lastData_concat, if_pos h, if_pos h.symm]

/-- Once the queue was left, the numbers up to the next mark are added. -/
lemma lastSeqsOf_of_leaves (hi : i ≠ 0) (h : Leaves recs i r r') :
    lastSeqsOf recs i = (r.dataSeq : ℤ) + (r'.msgSeq - 1 - r.msgSeq) ∧
      lastData recs i = r.dataSeq := by
  induction recs using List.reverseRecOn with
  | nil => exact absurd h (not_leaves_nil i r r')
  | append_singleton recs x ih =>
    obtain ⟨hx, h | ⟨pre, rfl, hr, rfl⟩⟩ := leaves_concat.mp h
    · have hlast : i ≠ lastQueue recs := fun he => not_leaves_of_last he.symm h
      obtain ⟨h1, h2⟩ := ih h
      rw [lastSeqsOf_concat, lastData_concat, if_neg hx, if_neg (Ne.symm hx), if_neg hlast]
      exact ⟨h1, h2⟩
    · have hlast : i = lastQueue (pre ++ [r]) := by rw [lastQueue_concat, hr]
      rw [lastSeqsOf_concat, lastData_concat, if_neg hx, if_neg (Ne.symm hx), if_pos hlast,
        lastSeqsOf_of_last hi hlast.symm, lastData_concat, if_pos hr, lastNum_concat]
      exact ⟨rfl, rfl⟩

/-! ### Marks of one process -/

/-- The mark that follows the last one of the queue was written by the same process: a process
starts more than a window past the last mark. -/
def LeftInProcess (W : ℕ) (recs : List SeqSentInfo) (i : ℕ) : Prop :=
  ∀ r r', Leaves recs i r r' → r'.msgSeq ≤ r.msgSeq + W

lemma LeftInProcess.of_concat {W : ℕ} (h : LeftInProcess W (recs ++ [x]) i) (hx : x.qIndex ≠ i) :
    LeftInProcess W recs i :=
  fun r r' hl => h r r' (leaves_concat.mpr ⟨hx, Or.inl hl⟩)

lemma leaves_of_last (hi : i ≠ 0) (h : lastQueue recs = i) (hx : x.qIndex ≠ i) :
    ∃ r, Leaves (recs ++ [x]) i r x ∧ r.msgSeq = lastNum recs := by
  rcases List.eq_nil_or_concat' recs with rfl | ⟨pre, r, rfl⟩
  · exact absurd h (Ne.symm hi)
  · rw [lastQueue_concat] at h
    exact ⟨r, leaves_concat.mpr ⟨hx, Or.inr ⟨pre, rfl, h, rfl⟩⟩, (lastNum_concat _ _).symm⟩

end Ufix.PManager
