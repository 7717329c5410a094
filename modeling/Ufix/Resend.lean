import Mathlib.Tactic.IntervalCases
import Ufix.Runs
import Ufix.SocketConnector

/-!
What a resend covers: each number of the range once and in order, but for a last number that
is missing alone.

The loop covers a number late, when the next message found shows where the gap ends. At every
round the messages passed so far cover the numbers below `start`, and the numbers from `start`
up to the round's own were all missing.
-/

namespace Ufix.Resend

variable {σ μ : Type*}

/-- On the numbers of `[b, e)` the lookup answers as `found` says, in every state that `I`
holds of, and it keeps `I`. -/
def Answers (getSent : σ → ℕ → Option (σ × Option μ)) (I : σ → Prop) (found : ℕ → Option μ)
    (b e : ℕ) : Prop :=
  ∀ s n, I s → b ≤ n → n < e → ∃ s', getSent s n = some (s', found n) ∧ I s'

/-- The last number is found, or it is not missing alone. -/
def Filled (found : ℕ → Option μ) (start e : ℕ) : Prop :=
  (found (e - 1)).isSome ∨ start + 2 ≤ e ∧ found (e - 2) = none

def covers (outs : List (Out μ × Bool)) : List ℕ := outs.flatMap fun out => out.1.covered

@[simp] lemma covers_nil : covers ([] : List (Out μ × Bool)) = [] := rfl

@[simp] lemma covers_concat (outs : List (Out μ × Bool)) (out : Out μ) (ok : Bool) :
    covers (outs ++ [(out, ok)]) = covers outs ++ out.covered := by simp [covers]

lemma range'_append_range' {a b c : ℕ} (h1 : a ≤ b) (h2 : b ≤ c) :
    List.range' a (b - a) ++ List.range' b (c - b) = List.range' a (c - a) := by
  have h := List.range'_append_1 (s := a) (m := b - a) (n := c - b)
  rwa [Nat.add_sub_cancel' h1, show b - a + (c - b) = c - a by omega] at h

lemma covers_gap {outs : List (Out μ × Bool)} {b start seq : ℕ} (hb : b ≤ start)
    (hs : start ≤ seq) (hc : covers outs = List.range' b (start - b)) :
    covers (outs ++ [(.gap start seq, true)]) = List.range' b (seq - b) := by
  rw [covers_concat, hc]
  exact range'_append_range' hb hs

lemma covers_msg {outs : List (Out μ × Bool)} {b seq : ℕ} {m : μ} (hb : b ≤ seq)
    (hc : covers outs = List.range' b (seq - b)) :
    covers (outs ++ [(.msg seq m, true)]) = List.range' b (seq + 1 - b) := by
  rw [covers_concat, hc, ← range'_append_range' hb (show seq ≤ seq + 1 by omega),
    Nat.add_sub_cancel_left]
  rfl

lemma covers_found {outs : List (Out μ × Bool)} {b start seq : ℕ} {m : μ} (hb : b ≤ start)
    (hs : start ≤ seq) (hc : covers outs = List.range' b (start - b)) :
    covers ((if start < seq then outs ++ [(.gap start seq, true)] else outs) ++
      [(.msg seq m, true)]) = List.range' b (seq + 1 - b) := by
  split
  · exact covers_msg (hb.trans hs) (covers_gap hb hs hc)
  · have : start = seq := by omega
    subst this
    exact covers_msg hb hc

lemma filled_advance {found : ℕ → Option μ} {start seq e : ℕ} (hs : start ≤ seq)
    (he : seq + 1 < e) (hf : (found seq).isSome) :
    Filled found (seq + 1) e ↔ Filled found start e := by
  unfold Filled
  constructor
  · rintro (h | h)
    · exact Or.inl h
    · exact Or.inr ⟨by omega, h.2⟩
  · rintro (h | ⟨h1, h2⟩)
    · exact Or.inl h
    · have hne : e - 2 ≠ seq := by
        intro hk
        rw [hk] at h2
        simp [h2] at hf
      exact Or.inr ⟨by omega, h2⟩

lemma rounds_eq {b e : ℕ} (hbe : b < e) (he : e < 2 ^ 64) : rounds b e = e - b := by
  unfold rounds ulong
  omega

section Loop

variable {getSent : σ → ℕ → Option (σ × Option μ)} {e n : ℕ} {s s' : σ} {seq start : ℕ}
  {outs : List (Out μ × Bool)}

lemma resendLoop_miss (h : getSent s seq = some (s', none)) :
    resendLoop getSent (fun _ => true) e (n + 1) s seq start outs =
      if ulong (seq + 1) = e then
        if start < ulong (ulong (seq + 1) + (2 ^ 64 - 1)) then
          some (s', outs ++ [(.gap start (ulong (seq + 1)), true)])
        else some (s', outs)
      else resendLoop getSent (fun _ => true) e n s' (ulong (seq + 1)) start outs := by
  simp only [resendLoop, h]

lemma resendLoop_hit {m : μ} (h : getSent s seq = some (s', some m)) :
    resendLoop getSent (fun _ => true) e (n + 1) s seq start outs =
      let outs' := (if start < seq then outs ++ [(.gap start seq, true)] else outs) ++
        [(.msg seq m, true)]
      let start' := ulong ((if start < seq then seq else start) + 1)
      if ulong (seq + 1) = e then
        if start' < ulong (ulong (seq + 1) + (2 ^ 64 - 1)) then
          some (s', outs' ++ [(.gap start' (ulong (seq + 1)), true)])
        else some (s', outs')
      else resendLoop getSent (fun _ => true) e n s' (ulong (seq + 1)) start' outs' := by
  simp only [resendLoop, h]
  by_cases hs : start < seq <;> simp [hs]

variable {I : σ → Prop} {found : ℕ → Option μ} {b : ℕ}

/-- **The loop invariant**, carried to the end of the range. -/
lemma resendLoop_covers (hA : Answers getSent I found b e) (he : e < 2 ^ 64) (hI : I s)
    (hb : b ≤ start) (hs : start ≤ seq) (hn : seq + (n + 1) = e)
    (hmiss : ∀ k, start ≤ k → k < seq → found k = none)
    (hc : covers outs = List.range' b (start - b)) :
    ∃ t outs' fin, resendLoop getSent (fun _ => true) e (n + 1) s seq start outs =
        some (t, outs') ∧ I t ∧ covers outs' = List.range' b (fin - b) ∧
      (fin = e ∧ Filled found start e ∨ fin = e - 1 ∧ ¬ Filled found start e) := by
  induction n generalizing s seq start outs with
  | zero =>
    -- the last number of the range
    obtain ⟨t, ht, hIt⟩ := hA s seq hI (by omega) (by omega)
    have hu : ulong (seq + 1) = e := by rw [ulong_of_lt (by omega)]; omega
    have hp : ulong (e + (2 ^ 64 - 1)) = seq := by unfold ulong; omega
    have hlast : e - 1 = seq := by omega
    cases hf : found seq with
    | none =>
      rw [hf] at ht
      rw [resendLoop_miss ht, if_pos hu, hu, hp]
      by_cases hlt : start < seq
      · rw [if_pos hlt]
        refine ⟨t, _, e, rfl, hIt, covers_gap hb (by omega) hc, Or.inl ⟨rfl, Or.inr ?_⟩⟩
        exact ⟨by omega, hmiss _ (by omega) (by omega)⟩
      · rw [if_neg hlt]
        refine ⟨t, _, e - 1, rfl, hIt, ?_, Or.inr ⟨rfl, ?_⟩⟩
        · rw [hc, hlast, show start = seq by omega]
        · rintro (h | h)
          · rw [hlast, hf] at h
            cases h
          · omega
    | some m =>
      rw [hf] at ht
      have hfill : Filled found start e := Or.inl (by rw [hlast, hf]; rfl)
      have hstart : ulong ((if start < seq then seq else start) + 1) = e := by
        split <;> rw [ulong_of_lt (by omega)] <;> omega
      rw [resendLoop_hit ht]
      simp only [hu, hp, hstart, if_true]
      rw [if_neg (by omega)]
      refine ⟨t, _, e, rfl, hIt, ?_, Or.inl ⟨rfl, hfill⟩⟩
      rw [covers_found hb hs hc, hn]
  | succ n ih =>
    obtain ⟨t, ht, hIt⟩ := hA s seq hI (by omega) (by omega)
    have hu : ulong (seq + 1) = seq + 1 := ulong_of_lt (by omega)
    cases hf : found seq with
    | none =>
      rw [hf] at ht
      rw [resendLoop_miss ht, hu, if_neg (by omega)]
      refine ih hIt hb (by omega) (by omega) (fun k h1 h2 => ?_) hc
      rcases Nat.lt_or_ge k seq with h3 | h3
      · exact hmiss k h1 h3
      · rw [show k = seq by omega, hf]
    | some m =>
      rw [hf] at ht
      have hstart : ulong ((if start < seq then seq else start) + 1) = seq + 1 := by
        split <;> rw [ulong_of_lt (by omega)]
        omega
      rw [resendLoop_hit ht]
      simp only [hu, hstart]
      rw [if_neg (by omega), ← filled_advance hs (by omega) (by rw [hf]; rfl)]
      exact ih hIt (by omega) le_rfl (by omega) (fun k h1 h2 => by omega) (covers_found hb hs hc)

end Loop

/-- **What a whole loop covers**: the range, up to a last number missing alone. -/
theorem resendLoop_covers_iff {getSent : σ → ℕ → Option (σ × Option μ)} {I : σ → Prop}
    {found : ℕ → Option μ} {b e : ℕ} {s : σ} (hA : Answers getSent I found b e) (hI : I s)
    (hbe : b < e) (he : e < 2 ^ 64) :
    ∃ t outs, resendLoop getSent (fun _ => true) e (rounds b e) s b b [] = some (t, outs) ∧ I t ∧
      (covers outs = List.range' b (e - b) ↔ Filled found b e) := by
  obtain ⟨n, hn⟩ : ∃ n, e - b = n + 1 := ⟨e - b - 1, by omega⟩
  obtain ⟨t, outs, fin, hr, hIt, hc, hfin⟩ := resendLoop_covers (n := n) hA he hI le_rfl
    le_rfl (by omega) (fun k h1 h2 => by omega) (covers_nil.trans (by simp))
  rw [rounds_eq hbe he, hn]
  refine ⟨t, outs, hr, hIt, ?_⟩
  rw [hc]
  rcases hfin with ⟨rfl, hf⟩ | ⟨rfl, hf⟩
  · exact ⟨fun _ => hf, fun _ => by rw [hn]⟩
  · refine ⟨fun h => ?_, fun h => absurd h hf⟩
    have := congrArg List.length h
    simp only [List.length_range'] at this
    omega

/-! ### What every round keeps -/

/-- `Q` holds of every old message passed so far and of the number it went under. -/
def Msgs (Q : ℕ → μ → Prop) (outs : List (Out μ × Bool)) : Prop :=
  ∀ seq m b, (Out.msg seq m, b) ∈ outs → Q seq m

lemma Msgs.nil (Q : ℕ → μ → Prop) : Msgs Q [] := fun _ _ _ h => by simp at h

lemma Msgs.gap {Q : ℕ → μ → Prop} {outs : List (Out μ × Bool)} (h : Msgs Q outs) (a b : ℕ)
    (ok : Bool) : Msgs Q (outs ++ [(.gap a b, ok)]) :=
  fun seq m b hm => h seq m b (by simpa using hm)

lemma Msgs.msg {Q : ℕ → μ → Prop} {outs : List (Out μ × Bool)} (h : Msgs Q outs) {seq : ℕ}
    {m : μ} (hm : Q seq m) (ok : Bool) : Msgs Q (outs ++ [(.msg seq m, ok)]) := by
  intro seq' m' b hb
  rcases List.mem_append.mp hb with hb | hb
  · exact h seq' m' b hb
  · simp only [List.mem_singleton, Prod.mk.injEq, Out.msg.injEq] at hb
    obtain ⟨⟨rfl, rfl⟩, -⟩ := hb
    exact hm

/-- **The round rule**: a property of the state that the lookups keep, and one of the messages
they find, hold at the end of the loop. The numbers looked up are the `n` ones from `seq` on. -/
theorem resendLoop_inv {getSent : σ → ℕ → Option (σ × Option μ)} {P : σ → Prop}
    {Q : ℕ → μ → Prop} {ok : ℕ → Bool} {e n : ℕ} {s t : σ} {seq start : ℕ}
    {outs outs' : List (Out μ × Bool)}
    (hget : ∀ k < n, ∀ s t r, P s → getSent s (ulong (seq + k)) = some (t, r) →
      P t ∧ ∀ m, r = some m → Q (ulong (seq + k)) m)
    (hseq : seq < 2 ^ 64) (hs : P s) (houts : Msgs Q outs)
    (h : resendLoop getSent ok e n s seq start outs = some (t, outs')) :
    P t ∧ Msgs Q outs' := by
  induction n generalizing s seq start outs with
  | zero => cases h
  | succ n ih =>
    -- what a finished round hands over: the next one, or the end
    have next : ∀ (s : σ) (start : ℕ) (outs : List (Out μ × Bool)), P s → Msgs Q outs →
        (if ulong (seq + 1) = e then
          if start < ulong (ulong (seq + 1) + (2 ^ 64 - 1)) then
            some (s, outs ++ [(.gap start (ulong (seq + 1)), ok outs.length)])
          else some (s, outs)
        else resendLoop getSent ok e n s (ulong (seq + 1)) start outs) = some (t, outs') →
        P t ∧ Msgs Q outs' := by
      intro s start outs hs houts h
      split at h
      · split at h
        · cases h
          exact ⟨hs, houts.gap _ _ _⟩
        · cases h
          exact ⟨hs, houts⟩
      · refine ih (fun k hk s t r hs hr => ?_) (ulong_lt _) hs houts h
        have hk' : ulong (ulong (seq + 1) + k) = ulong (seq + (k + 1)) := by
          unfold ulong
          omega
        rw [hk'] at hr ⊢
        exact hget (k + 1) (by omega) s t r hs hr
    have hseq0 : ulong (seq + 0) = seq := ulong_of_lt hseq
    cases hr : getSent s seq with
    | none => simp [resendLoop, hr] at h
    | some r =>
      obtain ⟨u, found⟩ := r
      obtain ⟨hu, hfound⟩ := hget 0 (by omega) s u found hs (by rw [hseq0]; exact hr)
      rw [hseq0] at hfound
      cases found with
      | none =>
        simp only [resendLoop, hr] at h
        exact next u start outs hu houts h
      | some m =>
        have hm := hfound m rfl
        simp only [resendLoop, hr] at h
        split at h
        · -- the gap before the message first
          split at h
          · split at h
            · exact next u _ _ hu ((houts.gap _ _ _).msg hm _) h
            · cases h
              exact ⟨hu, (houts.gap _ _ _).msg hm _⟩
          · cases h
            exact ⟨hu, houts.gap _ _ _⟩
        · split at h
          · exact next u _ _ hu (houts.msg hm _) h
          · cases h
            exact ⟨hu, houts.msg hm _⟩

/-! ### The loop as a run of lookups -/

def lookup (getSent : σ → ℕ → Option (σ × Option μ)) (x : σ × List μ) (n : ℕ) :
    Option (σ × List μ) :=
  (getSent x.1 n).map fun r => (r.1, x.2 ++ r.2.toList)

/-- The numbers `n` rounds from `seq` on look up. -/
def numbers (seq n : ℕ) : List ℕ := (List.range n).map fun k => ulong (seq + k)

def resent (outs : List (Out μ × Bool)) : List μ :=
  outs.filterMap fun out =>
    match out with
    | (.msg _ m, true) => some m
    | _ => none

lemma resent_hit (outs : List (Out μ × Bool)) (start seq : ℕ) (m : μ) :
    resent ((if start < seq then outs ++ [(.gap start seq, true)] else outs) ++
      [(.msg seq m, true)]) = resent outs ++ [m] := by
  split <;> simp [resent]

lemma resent_of_end {c : Prop} [Decidable c] {u t : σ} {a b : ℕ} {outs outs' : List (Out μ × Bool)}
    (h : (if c then some (u, outs ++ [(.gap a b, true)]) else some (u, outs)) =
      some (t, outs')) : u = t ∧ resent outs' = resent outs := by
  by_cases hc : c
  · rw [if_pos hc] at h
    cases h
    exact ⟨rfl, by simp [resent]⟩
  · rw [if_neg hc] at h
    cases h
    exact ⟨rfl, rfl⟩

lemma numbers_succ {seq : ℕ} (hseq : seq < 2 ^ 64) (n : ℕ) :
    numbers seq (n + 1) = seq :: numbers (ulong (seq + 1)) n := by
  simp only [numbers, List.range_succ_eq_map, List.map_cons, List.map_map, Nat.add_zero,
    ulong_of_lt hseq]
  congr 1
  refine List.map_congr_left fun k _ => ?_
  simp only [Function.comp_apply, ulong]
  omega

/-- **When every send succeeds, the loop is the run of its lookups.** -/
theorem resendLoop_run {getSent : σ → ℕ → Option (σ × Option μ)} {e n : ℕ} {s t : σ}
    {seq start : ℕ} {outs outs' : List (Out μ × Bool)} (hseq : seq < 2 ^ 64)
    (hend : ulong (seq + (n + 1)) = e) (hfirst : ∀ k, 0 < k → k ≤ n → ulong (seq + k) ≠ e)
    (h : resendLoop getSent (fun _ => true) e (n + 1) s seq start outs = some (t, outs')) :
    Runs.run (lookup getSent) (s, resent outs) (numbers seq (n + 1)) =
      some (t, resent outs') := by
  induction n generalizing s seq start outs with
  | zero =>
    cases hr : getSent s seq with
    | none => simp [resendLoop, hr] at h
    | some r =>
      obtain ⟨u, found⟩ := r
      rw [numbers_succ hseq]
      cases found with
      | none =>
        rw [resendLoop_miss hr, if_pos hend] at h
        obtain ⟨rfl, hres⟩ := resent_of_end h
        simp [lookup, hr, numbers, hres]
      | some m =>
        rw [resendLoop_hit hr] at h
        simp only [if_pos hend] at h
        obtain ⟨rfl, hres⟩ := resent_of_end h
        rw [hres, resent_hit]
        simp [lookup, hr, numbers]
  | succ n ih =>
    have hne : ulong (seq + 1) ≠ e := hfirst 1 (by omega) (by omega)
    have hshift : ∀ k, ulong (ulong (seq + 1) + k) = ulong (seq + (k + 1)) := by
      intro k
      unfold ulong
      omega
    have ih' := fun s start (outs : List (Out μ × Bool)) =>
      @ih s (ulong (seq + 1)) start outs (ulong_lt (seq + 1))
        (by rw [hshift]; exact hend)
        (fun k h0 hk => by rw [hshift]; exact hfirst (k + 1) (by omega) (by omega))
    rw [numbers_succ hseq]
    cases hr : getSent s seq with
    | none => simp [resendLoop, hr] at h
    | some r =>
      obtain ⟨u, found⟩ := r
      cases found with
      | none =>
        rw [resendLoop_miss hr, if_neg hne] at h
        simpa [lookup, hr] using ih' u start outs h
      | some m =>
        rw [resendLoop_hit hr] at h
        simp only [if_neg hne] at h
        have := ih' u _ _ h
        rw [resent_hit] at this
        simpa [lookup, hr] using this

lemma rounds_end {b e : ℕ} (hb : b < 2 ^ 64) (he : e < 2 ^ 64) :
    ulong (b + rounds b e) = e ∧ ∀ k, 0 < k → k < rounds b e → ulong (b + k) ≠ e := by
  unfold rounds ulong
  refine ⟨by omega, fun k h0 hk => by omega⟩

/-! ### The resend of a session -/

lemma covers_eq (outs : List (Out (ℕ × SendQueueInfo) × Bool)) :
    (outs.map SocketConnector.resendPacket).flatMap Packet.covered = covers outs := by
  induction outs with
  | nil => rfl
  | cons out outs ih =>
    simp only [List.map_cons, List.flatMap_cons, ih, covers]
    congr 1
    rcases out with ⟨⟨seq, n⟩ | ⟨seq, q, info⟩, ok⟩ <;> rfl

lemma answers_session {s : Session} {found : ℕ → Option (ℕ × SendQueueInfo)} {b e : ℕ}
    (h : ∀ n, b ≤ n → n < e → (s.getSentMsg n).map Prod.snd = some (found n)) :
    Answers Session.getSentMsg (Session.SameButHeads s) found b e := by
  intro t n ht hb he
  have ha := (Session.getSentMsg_answer ht n).trans (h n hb he)
  obtain ⟨⟨u, r⟩, hu, hr⟩ := Option.map_eq_some_iff.mp ha
  cases hr
  exact ⟨u, hu, ht.trans (Session.getSentMsg_same hu)⟩

lemma resendLoop_same {s t : Session} {ok : ℕ → Bool} {e n seq start : ℕ}
    {outs : List (Out (ℕ × SendQueueInfo) × Bool)} (hseq : seq < 2 ^ 64)
    (h : resendLoop Session.getSentMsg ok e n s seq start [] = some (t, outs)) :
    s.SameButHeads t :=
  (resendLoop_inv (P := s.SameButHeads) (Q := fun _ _ => True)
    (fun _ _ _ _ _ hs hr => ⟨hs.trans (Session.getSentMsg_same hr), fun _ _ => trivial⟩) hseq
    (.refl s) (.nil _) h).1

/-- **A resend covers its range if and only if the last number is found or not missing alone.**
`found` is the pattern of numbers that `get_sent_msg` finds; every send succeeds. -/
theorem sendSequenceReset_covers_iff (p : SocketConnector) {b endSeqNo : ℕ}
    {found : ℕ → Option (ℕ × SendQueueInfo)} (hbe : b < p.resendEnd endSeqNo)
    (hle : p.resendEnd endSeqNo ≤ p.session.msgSeq) (hc : p.session.msgSeq < 2 ^ 64)
    (hfound : ∀ n, b ≤ n → n < p.resendEnd endSeqNo →
      (p.session.getSentMsg n).map Prod.snd = some (found n)) :
    ∃ p' sent, p.sendSequenceReset b endSeqNo (fun _ => true) = some p' ∧
      p'.wire = p.wire ++ sent ∧
      (sent.flatMap Packet.covered = List.range' b (p.resendEnd endSeqNo - b) ↔
        (found (p.resendEnd endSeqNo - 1)).isSome ∨
          b + 2 ≤ p.resendEnd endSeqNo ∧ found (p.resendEnd endSeqNo - 2) = none) := by
  obtain ⟨t, outs, hr, -, hcov⟩ := resendLoop_covers_iff (answers_session hfound)
    (Session.SameButHeads.refl p.session) hbe (by omega)
  refine ⟨{ p with
      session := t
      socketSendFlag := p.socketSendFlag && outs.all Prod.snd
      wire := p.wire ++ outs.map SocketConnector.resendPacket },
    outs.map SocketConnector.resendPacket, ?_, rfl, ?_⟩
  · simp only [SocketConnector.sendSequenceReset]
    rw [hr]
    rfl
  · rw [covers_eq]
    exact hcov

/-- A session of one queue that has sent its Logon and a heartbeat, numbers `1` and `2`. -/
def twoSent : SocketConnector :=
  let p : SocketConnector := ⟨Session.init .oneQueue 8 PManager.empty 0, true, true, []⟩
  ((p.sendSessionMsg .oneQueue 0 true).1.sendSessionMsg .oneQueue 0 true).1

theorem sendSequenceReset_covers_iff_twoSent :
    ∃ p' sent, twoSent.sendSequenceReset 1 0 (fun _ => true) = some p' ∧
      p'.wire = twoSent.wire ++ sent ∧
      (sent.flatMap Packet.covered = List.range' 1 2 ↔
        (none : Option (ℕ × SendQueueInfo)).isSome ∨
          1 + 2 ≤ 3 ∧ (none : Option (ℕ × SendQueueInfo)) = none) := by
  have hfound : ∀ n, 1 ≤ n → n < twoSent.resendEnd 0 →
      (twoSent.session.getSentMsg n).map Prod.snd = some ((fun _ => none) n) := by
    intro n h1 h2
    have h3 : n < 3 := h2
    interval_cases n <;> rfl
  exact sendSequenceReset_covers_iff twoSent (by decide) (by decide) (by decide) hfound

/-- A heartbeat asked for alone is not covered: nothing is sent for number `2`, and the peer
that lacks it goes on waiting. -/
theorem resend_last_missing_alone :
    twoSent.session.msgSeq = 3 ∧ twoSent.resendEnd 2 = 3 ∧
      (twoSent.session.getSentMsg 2).map Prod.snd = some none ∧
      (twoSent.sendSequenceReset 2 2 fun _ => true).map (fun p' => p'.wire) =
        some (twoSent.wire) ∧
      ∀ p' sent, twoSent.sendSequenceReset 2 2 (fun _ => true) = some p' →
        p'.wire = twoSent.wire ++ sent → sent.flatMap Packet.covered ≠ List.range' 2 (3 - 2) := by
  have hw : (twoSent.sendSequenceReset 2 2 fun _ => true).map (fun p' => p'.wire) =
      some (twoSent.wire) := by rfl
  refine ⟨rfl, rfl, rfl, hw, fun p' sent hp hs => ?_⟩
  rw [hp] at hw
  have : sent = [] := by
    have := Option.some.inj hw
    simpa [hs] using this
  subst this
  decide

end Ufix.Resend
