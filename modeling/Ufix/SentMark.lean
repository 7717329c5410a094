import Mathlib.Algebra.Order.Ring.Int
import Mathlib.Data.List.Induction
import Mathlib.Logic.Function.Basic

/-!
The ring of marks: under which number of which queue a sent message is found again.

Only some numbers are marked. A mark written at a number replaces whatever the slot of that
number's residue held, so an old mark can be lost while an older one survives.
-/

namespace Ufix

/-- `seq_sent_info`: the number `msgSeq` went out with message `dataSeq` of queue `qIndex`. -/
structure SeqSentInfo where
  qIndex : ℕ
  msgSeq : ℕ
  dataSeq : ℕ
  deriving DecidableEq, Repr

structure SentMark where
  markSize : ℕ
  marks : ℕ → SeqSentInfo

namespace SentMark

/-- The constructor zeroes every slot. -/
def new (size : ℕ) : SentMark := ⟨size, fun _ => ⟨0, 0, 0⟩⟩

def getMark (t : SentMark) (seq : ℕ) : Option SeqSentInfo :=
  let info := t.marks (seq % t.markSize)
  if info.msgSeq = seq then some info else none

/-- The first mark found going down from `seq - 1`; `none` is the `NULL` below number `0`. -/
def getLastMark (t : SentMark) : ℕ → Option SeqSentInfo
  | 0 => none
  | seq + 1 =>
    match t.getMark seq with
    | some info => some info
    | none => getLastMark t seq

def setMark (t : SentMark) (qIndex msgSeq dataSeq : ℕ) : SentMark :=
  { t with marks := Function.update t.marks (msgSeq % t.markSize) ⟨qIndex, msgSeq, dataSeq⟩ }

@[simp] lemma setMark_markSize (t : SentMark) (q n d : ℕ) :
    (t.setMark q n d).markSize = t.markSize := rfl

lemma getMark_msgSeq {t : SentMark} {seq : ℕ} {r : SeqSentInfo} (h : t.getMark seq = some r) :
    r.msgSeq = seq := by
  simp only [getMark] at h
  split at h
  · next hs => cases h; exact hs
  · cases h

lemma getMark_new (M x : ℕ) : (new M).getMark x = if x = 0 then some ⟨0, 0, 0⟩ else none := by
  by_cases hx : x = 0 <;> simp [getMark, new, hx, eq_comm]

lemma getMark_setMark (t : SentMark) (q n d x : ℕ) :
    (t.setMark q n d).getMark x =
      if x % t.markSize = n % t.markSize then (if n = x then some ⟨q, n, d⟩ else none)
      else t.getMark x := by
  by_cases h : x % t.markSize = n % t.markSize
  · simp [getMark, setMark, h]
  · simp [getMark, setMark, h]

/-- What the downward search returns is the youngest mark below `seq`. -/
lemma getLastMark_eq_some {t : SentMark} {seq : ℕ} {r : SeqSentInfo} :
    t.getLastMark seq = some r ↔
      ∃ x < seq, t.getMark x = some r ∧ ∀ y, x < y → y < seq → t.getMark y = none := by
  induction seq with
  | zero => simp [getLastMark]
  | succ n ih =>
    simp only [getLastMark]
    cases hn : t.getMark n with
    | some info =>
      constructor
      · intro h
        cases h
        exact ⟨n, by omega, hn, fun y h1 h2 => by omega⟩
      · rintro ⟨x, hx, hr, hnone⟩
        rcases Nat.lt_or_ge x n with h1 | h1
        · rw [hnone n h1 (by omega)] at hn
          cases hn
        · have : x = n := by omega
          subst this
          simpa [hn] using hr
    | none =>
      rw [ih]
      constructor
      · rintro ⟨x, hx, hr, hnone⟩
        refine ⟨x, by omega, hr, fun y h1 h2 => ?_⟩
        rcases Nat.lt_or_ge y n with h3 | h3
        · exact hnone y h1 h3
        · have : y = n := by omega
          rw [this, hn]
      · rintro ⟨x, hx, hr, hnone⟩
        have hxn : x ≠ n := by
          rintro rfl
          rw [hn] at hr
          cases hr
        exact ⟨x, by omega, hr, fun y h1 h2 => hnone y h1 (by omega)⟩

/-! ### The ring left by a list of marks -/

/-- The ring after the marks of `recs` were set in order. -/
def ofRecords (M : ℕ) (recs : List SeqSentInfo) : SentMark :=
  recs.foldl (fun t r => t.setMark r.qIndex r.msgSeq r.dataSeq) (new M)

@[simp] lemma ofRecords_nil (M : ℕ) : ofRecords M [] = new M := rfl

lemma ofRecords_concat (M : ℕ) (recs : List SeqSentInfo) (r : SeqSentInfo) :
    ofRecords M (recs ++ [r]) = (ofRecords M recs).setMark r.qIndex r.msgSeq r.dataSeq := by
  simp [ofRecords]

@[simp] lemma ofRecords_markSize (M : ℕ) (recs : List SeqSentInfo) :
    (ofRecords M recs).markSize = M := by
  induction recs using List.reverseRecOn with
  | nil => rfl
  | append_singleton recs r ih => rw [ofRecords_concat, setMark_markSize, ih]

/-- A mark found in the ring was set, but for the zeroed slot, which answers for number `0`. -/
lemma mem_of_getMark_ofRecords {M x : ℕ} {recs : List SeqSentInfo} {r : SeqSentInfo}
    (h : (ofRecords M recs).getMark x = some r) : r ∈ recs ∨ x = 0 ∧ r = ⟨0, 0, 0⟩ := by
  induction recs using List.reverseRecOn with
  | nil =>
    rw [ofRecords_nil, getMark_new] at h
    split at h
    · next hx => cases h; exact Or.inr ⟨hx, rfl⟩
    · cases h
  | append_singleton recs r' ih =>
    rw [ofRecords_concat, getMark_setMark] at h
    split at h
    · split at h
      · cases h
        simp
      · cases h
    · rcases ih h with h | h
      · exact Or.inl (List.mem_append_left _ h)
      · exact Or.inr h

lemma getMark_ofRecords_concat (M : ℕ) (recs : List SeqSentInfo) (r : SeqSentInfo) :
    (ofRecords M (recs ++ [r])).getMark r.msgSeq = some r := by
  simp [ofRecords_concat, getMark_setMark]

/-- A mark is found as long as no younger one fell into its slot. -/
lemma getMark_ofRecords {M : ℕ} {recs : List SeqSentInfo} {r : SeqSentInfo}
    (hsort : recs.Pairwise (fun a b => a.msgSeq < b.msgSeq)) (hr : r ∈ recs)
    (hyoung : ∀ r' ∈ recs, r'.msgSeq % M = r.msgSeq % M → r'.msgSeq ≤ r.msgSeq) :
    (ofRecords M recs).getMark r.msgSeq = some r := by
  induction recs using List.reverseRecOn with
  | nil => simp at hr
  | append_singleton recs a ih =>
    rcases List.mem_append.mp hr with hr' | hr'
    · have hlt : r.msgSeq < a.msgSeq := (List.pairwise_append.mp hsort).2.2 r hr' a (by simp)
      have hne : r.msgSeq % M ≠ a.msgSeq % M := by
        intro he
        have := hyoung a (by simp) he.symm
        omega
      rw [ofRecords_concat, getMark_setMark, ofRecords_markSize, if_neg hne]
      exact ih (List.pairwise_append.mp hsort).1 hr'
        fun r' h' => hyoung r' (List.mem_append_left _ h')
    · have : r = a := by simpa using hr'
      subst this
      exact getMark_ofRecords_concat M recs r

end SentMark

end Ufix
