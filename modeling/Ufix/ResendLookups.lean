import Ufix.Resend

/-!
Which numbers a resend looks up.

The loop of `send_sequence_reset` is followed round by round. It ends where the number after the
one looked up is the end of the range, so it looks at one number before it can stop.
-/

namespace Ufix.ResendLookups

open Ufix.Resend

variable {σ μ : Type*}

/-- The loop of `send_sequence_reset` before a round. -/
structure Resending (σ μ : Type*) where
  state : σ
  seq : ℕ
  startResetSeq : ℕ
  outs : List (Out μ × Bool)

/-- The messages of a round, with the next `start_reset_seq`; `none` when a send fails. -/
def sendFound (ok : ℕ → Bool) (seq start : ℕ) (outs : List (Out μ × Bool)) :
    Option μ → Option (ℕ × List (Out μ × Bool))
  | none => some (start, outs)
  | some m =>
    if start < seq then
      if ok outs.length ∧ ok (outs.length + 1) then
        some (ulong (seq + 1), outs ++ [(.gap start seq, true), (.msg seq m, true)])
      else none
    else if ok outs.length then some (ulong (start + 1), outs ++ [(.msg seq m, true)])
    else none

/-- A round after which there is another one. -/
def round (getSent : σ → ℕ → Option (σ × Option μ)) (ok : ℕ → Bool) (endSeqNo : ℕ)
    (c : Resending σ μ) : Option (Resending σ μ) :=
  (getSent c.state c.seq).bind fun r =>
    (sendFound ok c.seq c.startResetSeq c.outs r.2).bind fun sent =>
      if ulong (c.seq + 1) = endSeqNo then none
      else some ⟨r.1, ulong (c.seq + 1), sent.1, sent.2⟩

/-- The loop after `k` rounds, if there are so many; it looks up `seq` then. -/
def after (getSent : σ → ℕ → Option (σ × Option μ)) (ok : ℕ → Bool) (endSeqNo : ℕ) :
    ℕ → Resending σ μ → Option (Resending σ μ)
  | 0, c => some c
  | k + 1, c => (round getSent ok endSeqNo c).bind (after getSent ok endSeqNo k)

section Rounds

variable {getSent : σ → ℕ → Option (σ × Option μ)} {ok : ℕ → Bool} {e n k : ℕ}
  {c c' : Resending σ μ}

/-- A round is one of the loop that `send_sequence_reset` is: it goes on where the round says, and
where there is no further round the rest of the fuel does not matter. -/
lemma resendLoop_succ :
    resendLoop getSent ok e (n + 1) c.state c.seq c.startResetSeq c.outs =
      match round getSent ok e c with
      | some c' => resendLoop getSent ok e n c'.state c'.seq c'.startResetSeq c'.outs
      | none => resendLoop getSent ok e 1 c.state c.seq c.startResetSeq c.outs := by
  cases hr : getSent c.state c.seq with
  | none => simp only [resendLoop, round, hr, Option.bind_none]
  | some r =>
    obtain ⟨s, found⟩ := r
    by_cases hend : ulong (c.seq + 1) = e
    · cases hsent : sendFound ok c.seq c.startResetSeq c.outs found <;>
        simp only [resendLoop, round, hr, hend, if_true, hsent, Option.bind_some, Option.bind_none]
    · cases found with
      | none =>
        simp only [resendLoop, round, sendFound, hr, if_neg hend, Option.bind_some]
      | some m =>
        simp only [resendLoop, round, sendFound, hr, if_neg hend, Option.bind_some]
        by_cases hlt : c.startResetSeq < c.seq
        · cases hok : ok c.outs.length <;> cases hok' : ok (c.outs.length + 1) <;>
            simp [hlt, hok']
        · cases hok : ok c.outs.length <;> simp [hlt]

/-- **The rounds are those of the loop**: `k` of them use up as much fuel and leave the loop where
`after` says. -/
theorem resendLoop_after (h : after getSent ok e k c = some c') (n : ℕ) :
    resendLoop getSent ok e (k + n) c.state c.seq c.startResetSeq c.outs =
      resendLoop getSent ok e n c'.state c'.seq c'.startResetSeq c'.outs := by
  induction k generalizing c with
  | zero =>
    cases h
    rw [Nat.zero_add]
  | succ k ih =>
    obtain ⟨c₁, h₁, h⟩ := Option.bind_eq_some_iff.mp h
    rw [Nat.succ_add, resendLoop_succ, h₁]
    exact ih h

lemma round_seq (h : round getSent ok e c = some c') :
    c'.seq = ulong (c.seq + 1) ∧ ulong (c.seq + 1) ≠ e := by
  obtain ⟨r, -, h⟩ := Option.bind_eq_some_iff.mp h
  obtain ⟨sent, -, h⟩ := Option.bind_eq_some_iff.mp h
  split at h
  · cases h
  · next hne =>
    cases h
    exact ⟨rfl, hne⟩

/-- **The number of each round**: the numbers go up by one, and the end was not among them. -/
lemma after_seq (hseq : c.seq < 2 ^ 64) (h : after getSent ok e k c = some c') :
    c'.seq = ulong (c.seq + k) ∧ ∀ j, 0 < j → j ≤ k → ulong (c.seq + j) ≠ e := by
  induction k generalizing c with
  | zero =>
    cases h
    exact ⟨(ulong_of_lt hseq).symm, fun j h0 hj => by omega⟩
  | succ k ih =>
    obtain ⟨c₁, h₁, h⟩ := Option.bind_eq_some_iff.mp h
    obtain ⟨hs, hne⟩ := round_seq h₁
    have hshift : ∀ j, ulong (c₁.seq + j) = ulong (c.seq + (j + 1)) := by
      intro j
      rw [hs]
      unfold ulong
      omega
    obtain ⟨hc', hbefore⟩ := ih (by rw [hs]; exact ulong_lt _) h
    refine ⟨hc'.trans (hshift k), fun j h0 hj => ?_⟩
    rcases Nat.lt_or_ge 1 j with h1 | h1
    · have := hbefore (j - 1) (by omega) (by omega)
      rwa [hshift, Nat.sub_add_cancel h0] at this
    · rw [show j = 1 by omega]
      exact hne

/-- While every number can be looked up and every send succeeds, only the end stops the loop. -/
lemma after_isSome {I : σ → Prop} {found : ℕ → Option μ} (hA : Answers getSent I found 0 (2 ^ 64))
    (hI : I c.state) (hok : ∀ j, ok j = true) (hseq : c.seq < 2 ^ 64)
    (hne : ∀ j, 0 < j → j ≤ k → ulong (c.seq + j) ≠ e) : (after getSent ok e k c).isSome := by
  induction k generalizing c with
  | zero => rfl
  | succ k ih =>
    obtain ⟨s, hs, hIs⟩ := hA c.state c.seq hI (Nat.zero_le _) hseq
    obtain ⟨sent, hsent⟩ : ∃ sent,
        sendFound ok c.seq c.startResetSeq c.outs (found c.seq) = some sent := by
      cases found c.seq with
      | none => exact ⟨_, rfl⟩
      | some m => by_cases hlt : c.startResetSeq < c.seq <;> simp [sendFound, hlt, hok]
    have hround : round getSent ok e c = some ⟨s, ulong (c.seq + 1), sent.1, sent.2⟩ := by
      rw [round, hs, Option.bind_some, hsent, Option.bind_some,
        if_neg (hne 1 (by omega) (by omega))]
    rw [after, hround, Option.bind_some]
    refine ih hIs (ulong_lt _) fun j h0 hj => ?_
    have hshift : ulong (ulong (c.seq + 1) + j) = ulong (c.seq + (j + 1)) := by
      unfold ulong
      omega
    rw [hshift]
    exact hne (j + 1) (by omega) (by omega)

end Rounds

/-! ### The range of a `ResendRequest` -/

/-- The end of the range as a number, which `ULONG` need not hold. -/
def rangeEnd (p : SocketConnector) (endSeqNo : ℕ) : ℕ :=
  if endSeqNo = 0 then ulong p.session.msgSeq else endSeqNo + 1

lemma ulong_rangeEnd (p : SocketConnector) (endSeqNo : ℕ) :
    ulong (rangeEnd p endSeqNo) = p.resendEnd endSeqNo := by
  unfold rangeEnd SocketConnector.resendEnd
  split
  · exact ulong_of_lt (ulong_lt _)
  · rfl

/-- The loop of `send_sequence_reset` after `k` rounds. -/
def lookedUp (p : SocketConnector) (beginSeqNo endSeqNo : ℕ) (ok : ℕ → Bool) (k : ℕ) :
    Option (Resending Session (ℕ × SendQueueInfo)) :=
  after Session.getSentMsg (fun j => ok (p.wire.length + j)) (p.resendEnd endSeqNo) k
    ⟨p.session, beginSeqNo, beginSeqNo, []⟩

/-- The loop looks up numbers of the range only, and each round at most once. -/
def StaysInRange (p : SocketConnector) (beginSeqNo endSeqNo : ℕ) (ok : ℕ → Bool) : Prop :=
  ∀ k c, lookedUp p beginSeqNo endSeqNo ok k = some c →
    beginSeqNo ≤ c.seq ∧ c.seq < rangeEnd p endSeqNo ∧ k < rangeEnd p endSeqNo - beginSeqNo

/-- **A resend stays in its range if and only if the range is not empty.** -/
theorem staysInRange_iff (p : SocketConnector) (beginSeqNo endSeqNo : UInt64) (ok : ℕ → Bool) :
    StaysInRange p beginSeqNo.toNat endSeqNo.toNat ok ↔
      beginSeqNo.toNat < rangeEnd p endSeqNo.toNat := by
  have hb := beginSeqNo.toNat_lt
  have he : rangeEnd p endSeqNo.toNat ≤ 2 ^ 64 := by
    have := endSeqNo.toNat_lt
    have := ulong_lt p.session.msgSeq
    unfold rangeEnd
    split <;> omega
  constructor
  · -- the first round comes before any test
    intro h
    obtain ⟨-, hlt, -⟩ := h 0 _ rfl
    exact hlt
  · intro hlt k c hc
    obtain ⟨hseq, hne⟩ := after_seq hb hc
    have hend : ulong (beginSeqNo.toNat + (rangeEnd p endSeqNo.toNat - beginSeqNo.toNat)) =
        p.resendEnd endSeqNo.toNat := by
      rw [Nat.add_sub_cancel' hlt.le, ulong_rangeEnd]
    have hk : k < rangeEnd p endSeqNo.toNat - beginSeqNo.toNat := by
      by_contra hge
      exact hne _ (by omega) (by omega) hend
    have hval : c.seq = beginSeqNo.toNat + k := by
      rw [hseq]
      exact ulong_of_lt (by dsimp only; omega)
    omega

/-- A session of which nothing is left to resend, asked for everything from its next number on:
the number after the next and the one after that are looked up too. -/
theorem staysInRange_nextNumber :
    rangeEnd twoSent (0 : UInt64).toNat = 3 ∧
      (lookedUp twoSent (3 : UInt64).toNat (0 : UInt64).toNat (fun _ => true) 2).map
        Resending.seq = some 5 ∧
      ¬ StaysInRange twoSent (3 : UInt64).toNat (0 : UInt64).toNat fun _ => true := by
  have hseq : (lookedUp twoSent (3 : UInt64).toNat (0 : UInt64).toNat (fun _ => true) 2).map
      Resending.seq = some 5 := rfl
  refine ⟨rfl, hseq, fun h => ?_⟩
  obtain ⟨c, hc, h5⟩ := Option.map_eq_some_iff.mp hseq
  obtain ⟨-, hlt, -⟩ := h 2 c hc
  rw [h5] at hlt
  exact absurd hlt (by decide)

/-- **An empty range is searched the long way round**: unless a send fails, all numbers but those
from the end of the range up to its begin are looked up. -/
theorem lookedUp_isSome (p : SocketConnector) {b endSeqNo k : ℕ} (hb : b < 2 ^ 64)
    (hget : ∀ n < 2 ^ 64, (p.session.getSentMsg n).isSome) (hempty : p.resendEnd endSeqNo ≤ b)
    (hk : k < 2 ^ 64 - (b - p.resendEnd endSeqNo)) :
    (lookedUp p b endSeqNo (fun _ => true) k).isSome := by
  have he := p.resendEnd_lt endSeqNo
  have hanswers : Answers Session.getSentMsg (Session.SameButHeads p.session)
      (fun n => (p.session.getSentMsg n).bind Prod.snd) 0 (2 ^ 64) :=
    answers_session fun n _ hn => by
      obtain ⟨r, hr⟩ := Option.isSome_iff_exists.mp (hget n hn)
      rw [hr]
      rfl
  refine after_isSome hanswers (.refl _) (fun _ => rfl) hb fun j h0 hj => ?_
  change ulong (b + j) ≠ _
  unfold ulong
  omega

end Ufix.ResendLookups
