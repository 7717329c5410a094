import Ufix.Resend

/-!
The resend loop with the rewriting of what it finds.

Whatever the messages are, a round looks up a number, fills the gap before a message found, and
rewrites that message where it lies before it passes it on. With the rewriting forgotten this is
the loop of lookups.
-/

namespace Ufix.InPlace

variable {σ μ : Type*}

/-- `send_sequence_reset(start, end)`; `fits` says whether there is room for its numbers. -/
def gapFill (fits : ℕ → ℕ → Bool) (ok : ℕ → Bool) (start seq : ℕ) (outs : List (Out μ × Bool)) :
    Option (List (Out μ × Bool)) :=
  if fits start seq then some (outs ++ [(.gap start seq, ok outs.length)]) else none

/-- The loop of `send_sequence_reset` with the calls of `finalize_msg`, `n` more rounds at most:
`finalize k` rewrites the message that is then the `k`-th one passed to the socket. -/
def resendInPlace (getSent : σ → ℕ → Option (σ × Option μ))
    (finalize : ℕ → σ → ℕ → μ → Option (σ × μ)) (fits : ℕ → ℕ → Bool) (ok : ℕ → Bool)
    (endSeqNo : ℕ) :
    ℕ → σ → ℕ → ℕ → List (Out μ × Bool) → Option (σ × List (Out μ × Bool))
  | 0, _, _, _, _ => none
  | n + 1, s, seq, start, outs =>
    match getSent s seq with
    | none => none
    | some (s, found) =>
      let next := fun (s : σ) (start : ℕ) (outs : List (Out μ × Bool)) =>
        let seq := ulong (seq + 1)
        if seq = endSeqNo then
          if start < ulong (seq + (2 ^ 64 - 1)) then
            (gapFill fits ok start seq outs).map fun outs => (s, outs)
          else some (s, outs)
        else resendInPlace getSent finalize fits ok endSeqNo n s seq start outs
      match found with
      | none => next s start outs
      | some m =>
        (if start < seq then gapFill fits ok start seq outs else some outs).bind fun filled =>
          -- after a gap fill that failed the message is not touched
          if start < seq ∧ ok outs.length = false then some (s, filled)
          else
            (finalize filled.length s seq m).bind fun r =>
              let outs' := filled ++ [(.msg seq r.2, ok filled.length)]
              if ok filled.length then
                next r.1 (ulong ((if start < seq then seq else start) + 1)) outs'
              else some (r.1, outs')

/-- How a round at number `seq` ends: with the last gap fill, or in the next round. -/
def nextRound (getSent : σ → ℕ → Option (σ × Option μ))
    (finalize : ℕ → σ → ℕ → μ → Option (σ × μ)) (fits : ℕ → ℕ → Bool) (ok : ℕ → Bool)
    (endSeqNo n : ℕ) (s : σ) (seq start : ℕ) (outs : List (Out μ × Bool)) :
    Option (σ × List (Out μ × Bool)) :=
  if ulong (seq + 1) = endSeqNo then
    if start < ulong (ulong (seq + 1) + (2 ^ 64 - 1)) then
      (gapFill fits ok start (ulong (seq + 1)) outs).map fun outs => (s, outs)
    else some (s, outs)
  else resendInPlace getSent finalize fits ok endSeqNo n s (ulong (seq + 1)) start outs

/-- What a round at number `seq` leaves: the state, where the next gap starts, what was passed to
the socket, and whether the loop goes on. -/
inductive Round (getSent : σ → ℕ → Option (σ × Option μ))
    (finalize : ℕ → σ → ℕ → μ → Option (σ × μ)) (fits : ℕ → ℕ → Bool) (ok : ℕ → Bool)
    (seq start : ℕ) (outs : List (Out μ × Bool)) (s : σ) :
    σ → ℕ → List (Out μ × Bool) → Bool → Prop
  | miss {u} : getSent s seq = some (u, none) →
      Round getSent finalize fits ok seq start outs s u start outs true
  | hit {u v m x} : getSent s seq = some (u, some m) → ¬ start < seq →
      finalize outs.length u seq m = some (v, x) →
      Round getSent finalize fits ok seq start outs s v (ulong (start + 1))
        (outs ++ [(.msg seq x, ok outs.length)]) (ok outs.length)
  | cut {u m} : getSent s seq = some (u, some m) → start < seq → fits start seq = true →
      ok outs.length = false →
      Round getSent finalize fits ok seq start outs s u start
        (outs ++ [(.gap start seq, false)]) false
  | gap {u v m x} : getSent s seq = some (u, some m) → start < seq → fits start seq = true →
      ok outs.length = true → finalize (outs.length + 1) u seq m = some (v, x) →
      Round getSent finalize fits ok seq start outs s v (ulong (seq + 1))
        (outs ++ [(.gap start seq, true), (.msg seq x, ok (outs.length + 1))])
        (ok (outs.length + 1))

section Round

variable {getSent : σ → ℕ → Option (σ × Option μ)}
  {finalize : ℕ → σ → ℕ → μ → Option (σ × μ)} {fits : ℕ → ℕ → Bool} {ok : ℕ → Bool}
  {e n : ℕ} {s t u : σ} {seq start : ℕ} {outs outs' : List (Out μ × Bool)}

lemma gapFill_eq_some :
    gapFill fits ok start seq outs = some outs' ↔
      fits start seq = true ∧ outs' = outs ++ [(.gap start seq, ok outs.length)] := by
  unfold gapFill
  split
  · next h => simp [h, eq_comm]
  · next h => simp [h]

lemma resendInPlace_null (h : getSent s seq = none) :
    resendInPlace getSent finalize fits ok e (n + 1) s seq start outs = none := by
  simp only [resendInPlace, h]

lemma resendInPlace_miss (h : getSent s seq = some (u, none)) :
    resendInPlace getSent finalize fits ok e (n + 1) s seq start outs =
      nextRound getSent finalize fits ok e n u seq start outs := by
  simp only [resendInPlace, h, nextRound]

lemma resendInPlace_hit {m : μ} (h : getSent s seq = some (u, some m)) (hs : ¬ start < seq) :
    resendInPlace getSent finalize fits ok e (n + 1) s seq start outs =
      (finalize outs.length u seq m).bind fun r =>
        let outs' := outs ++ [(.msg seq r.2, ok outs.length)]
        if ok outs.length then
          nextRound getSent finalize fits ok e n r.1 seq (ulong (start + 1)) outs'
        else some (r.1, outs') := by
  simp only [resendInPlace, h, nextRound, hs, if_false, false_and, Option.bind_some]

lemma resendInPlace_gap {m : μ} (h : getSent s seq = some (u, some m)) (hs : start < seq) :
    resendInPlace getSent finalize fits ok e (n + 1) s seq start outs =
      (gapFill fits ok start seq outs).bind fun filled =>
        if ok outs.length then
          (finalize filled.length u seq m).bind fun r =>
            let outs' := filled ++ [(.msg seq r.2, ok filled.length)]
            if ok filled.length then
              nextRound getSent finalize fits ok e n r.1 seq (ulong (seq + 1)) outs'
            else some (r.1, outs')
        else some (u, filled) := by
  simp only [resendInPlace, h, nextRound, if_pos hs]
  congr 1
  funext filled
  cases hok : ok outs.length <;> simp [hs]

/-- A loop that is defined is a round, and the rest if it goes on. -/
lemma resendInPlace_round
    (h : resendInPlace getSent finalize fits ok e (n + 1) s seq start outs = some (t, outs')) :
    ∃ v start₁ outs₁ more, Round getSent finalize fits ok seq start outs s v start₁ outs₁ more ∧
      (more = true ∧ nextRound getSent finalize fits ok e n v seq start₁ outs₁ = some (t, outs') ∨
        more = false ∧ t = v ∧ outs' = outs₁) := by
  cases hr : getSent s seq with
  | none =>
    rw [resendInPlace_null hr] at h
    cases h
  | some r =>
    obtain ⟨u, _ | m⟩ := r
    · rw [resendInPlace_miss hr] at h
      exact ⟨u, start, outs, true, .miss hr, Or.inl ⟨rfl, h⟩⟩
    by_cases hlt : start < seq
    · rw [resendInPlace_gap hr hlt] at h
      obtain ⟨filled, hfill, h⟩ := Option.bind_eq_some_iff.mp h
      obtain ⟨hroom, rfl⟩ := gapFill_eq_some.mp hfill
      cases hok : ok outs.length with
      | false =>
        rw [hok] at h
        cases h
        exact ⟨_, start, _, false, .cut hr hlt hroom hok, Or.inr ⟨rfl, rfl, rfl⟩⟩
      | true =>
        simp only [hok, if_true, List.length_append, List.length_singleton, List.append_assoc,
          List.singleton_append] at h
        obtain ⟨⟨v, x⟩, hx, h⟩ := Option.bind_eq_some_iff.mp h
        refine ⟨v, _, _, _, .gap hr hlt hroom hok hx, ?_⟩
        cases hok' : ok (outs.length + 1) with
        | true =>
          simp only [hok', if_true] at h
          exact Or.inl ⟨rfl, h⟩
        | false =>
          simp only [hok', Bool.false_eq_true, if_false] at h
          cases h
          exact Or.inr ⟨rfl, rfl, rfl⟩
    · rw [resendInPlace_hit hr hlt] at h
      obtain ⟨⟨v, x⟩, hx, h⟩ := Option.bind_eq_some_iff.mp h
      refine ⟨v, _, _, _, .hit hr hlt hx, ?_⟩
      cases hok : ok outs.length with
      | true =>
        simp only [hok, if_true] at h
        exact Or.inl ⟨rfl, h⟩
      | false =>
        simp only [hok, Bool.false_eq_true, if_false] at h
        cases h
        exact Or.inr ⟨rfl, rfl, rfl⟩

/-- A round that ends well goes on, or was the last one. -/
lemma nextRound_some
    (h : nextRound getSent finalize fits ok e n s seq start outs = some (t, outs')) :
    ulong (seq + 1) ≠ e ∧
        resendInPlace getSent finalize fits ok e n s (ulong (seq + 1)) start outs =
          some (t, outs') ∨
      ulong (seq + 1) = e ∧ t = s ∧
        (start < ulong (ulong (seq + 1) + (2 ^ 64 - 1)) ∧ fits start (ulong (seq + 1)) = true ∧
            outs' = outs ++ [(.gap start (ulong (seq + 1)), ok outs.length)] ∨
          ¬ start < ulong (ulong (seq + 1) + (2 ^ 64 - 1)) ∧ outs' = outs) := by
  unfold nextRound at h
  by_cases he : ulong (seq + 1) = e
  · rw [if_pos he] at h
    by_cases hlt : start < ulong (ulong (seq + 1) + (2 ^ 64 - 1))
    · rw [if_pos hlt] at h
      obtain ⟨filled, hfill, heq⟩ := Option.map_eq_some_iff.mp h
      obtain ⟨hroom, rfl⟩ := gapFill_eq_some.mp hfill
      cases heq
      exact Or.inr ⟨he, rfl, Or.inl ⟨hlt, hroom, rfl⟩⟩
    · rw [if_neg hlt] at h
      cases h
      exact Or.inr ⟨he, rfl, Or.inr ⟨hlt, rfl⟩⟩
  · rw [if_neg he] at h
    exact Or.inl ⟨he, h⟩

end Round

/-! ### The rewriting forgotten -/

section Forget

variable {τ ν : Type*}

def outMap (g : μ → ν) (out : Out μ × Bool) : Out ν × Bool :=
  match out with
  | (.gap start seq, ok) => (.gap start seq, ok)
  | (.msg seq m, ok) => (.msg seq (g m), ok)

variable {getSent : σ → ℕ → Option (σ × Option μ)} {getSent' : τ → ℕ → Option (τ × Option ν)}
  {finalize : ℕ → σ → ℕ → μ → Option (σ × μ)} {fits : ℕ → ℕ → Bool} {ok : ℕ → Bool}
  {e n : ℕ} {f : σ → τ} {g : μ → ν}

/-- A round of the loop of lookups, by what the round in place leaves. -/
lemma resendLoop_round
    (hget : ∀ s k, getSent' (f s) k = (getSent s k).map fun r => (f r.1, r.2.map g))
    (hfin : ∀ j s k m t x, finalize j s k m = some (t, x) → f t = f s ∧ g x = g m)
    {s v : σ} {seq start start₁ : ℕ} {outs outs₁ : List (Out μ × Bool)} {more : Bool}
    (h : Round getSent finalize fits ok seq start outs s v start₁ outs₁ more) :
    resendLoop getSent' ok e (n + 1) (f s) seq start (outs.map (outMap g)) =
      if more then
        if ulong (seq + 1) = e then
          if start₁ < ulong (ulong (seq + 1) + (2 ^ 64 - 1)) then
            some (f v, outs₁.map (outMap g) ++ [(.gap start₁ (ulong (seq + 1)), ok outs₁.length)])
          else some (f v, outs₁.map (outMap g))
        else resendLoop getSent' ok e n (f v) (ulong (seq + 1)) start₁ (outs₁.map (outMap g))
      else some (f v, outs₁.map (outMap g)) := by
  have hlook := hget s seq
  cases h with
  | miss hr =>
    rw [hr, Option.map_some] at hlook
    simp [resendLoop, hlook]
  | hit hr hlt hx =>
    obtain ⟨hfv, hgx⟩ := hfin _ _ _ _ _ _ hx
    rw [hr, Option.map_some] at hlook
    simp [resendLoop, hlook, hlt, hfv, hgx, outMap]
  | cut hr hlt hroom hok =>
    rw [hr, Option.map_some] at hlook
    simp [resendLoop, hlook, hlt, hok, outMap]
  | gap hr hlt hroom hok hx =>
    obtain ⟨hfv, hgx⟩ := hfin _ _ _ _ _ _ hx
    rw [hr, Option.map_some] at hlook
    simp [resendLoop, hlook, hlt, hok, hfv, hgx, outMap]

/-- **The loop in place is the loop of lookups**, where `f` and `g` forget what the rewriting
changes. -/
theorem resendInPlace_forget
    (hget : ∀ s k, getSent' (f s) k = (getSent s k).map fun r => (f r.1, r.2.map g))
    (hfin : ∀ j s k m t x, finalize j s k m = some (t, x) → f t = f s ∧ g x = g m)
    {s t : σ} {seq start : ℕ} {outs outs' : List (Out μ × Bool)}
    (h : resendInPlace getSent finalize fits ok e n s seq start outs = some (t, outs')) :
    resendLoop getSent' ok e n (f s) seq start (outs.map (outMap g)) =
      some (f t, outs'.map (outMap g)) := by
  induction n generalizing s seq start outs with
  | zero => cases h
  | succ n ih =>
    obtain ⟨v, start₁, outs₁, more, hround, ⟨rfl, h⟩ | ⟨rfl, rfl, rfl⟩⟩ := resendInPlace_round h
    · rw [resendLoop_round hget hfin hround, if_pos rfl]
      obtain ⟨he, h⟩ | ⟨he, rfl, ⟨hlt, -, rfl⟩ | ⟨hlt, rfl⟩⟩ := nextRound_some h
      · rw [if_neg he]
        exact ih h
      · rw [if_pos he, if_pos hlt, List.map_append]
        rfl
      · rw [if_pos he, if_neg hlt]
    · rw [resendLoop_round hget hfin hround]
      rfl

end Forget

/-! ### What a whole loop needs and does -/

/-- The gap fills of a loop over `[b, last]`, each with its `NewSeqNo`: before a message found, at
the end unless the last number is missing alone, and once more where the numbers wrap. -/
inductive Gap (found : ℕ → Bool) (b last : ℕ) : ℕ → ℕ → Prop
  | before {start stop} : b ≤ start → start < stop → stop ≤ last → found stop = true →
      (∀ k, start ≤ k → k < stop → found k = false) → start = b ∨ found (start - 1) = true →
      Gap found b last start stop
  | atEnd {start} : b ≤ start → start < last → (∀ k, start ≤ k → k ≤ last → found k = false) →
      start = b ∨ found (start - 1) = true → Gap found b last start (ulong (last + 1))
  | wrapped : found last = true → 0 < last → ulong (last + 1) = 0 → Gap found b last 0 0

/-- Where the loop stands: nothing from `start` up to `seq` was found, and `start` follows the
last message found. -/
structure Open (found : ℕ → Bool) (b start seq : ℕ) : Prop where
  ge : b ≤ start
  le : start ≤ seq
  missing : ∀ k, start ≤ k → k < seq → found k = false
  before : start = b ∨ found (start - 1) = true

section Rules

open Resend (Msgs)

variable {getSent : σ → ℕ → Option (σ × Option μ)}
  {finalize : ℕ → σ → ℕ → μ → Option (σ × μ)} {fits : ℕ → ℕ → Bool} {ok : ℕ → Bool}
  {found : ℕ → Bool} {b last n : ℕ} {P : σ → Prop} {Q : ℕ → μ → Prop} {s t : σ}
  {seq start : ℕ} {outs outs' : List (Out μ × Bool)}

lemma Open.miss (h : Open found b start seq) (hf : found seq = false) :
    Open found b start (seq + 1) := by
  refine ⟨h.ge, by have := h.le; omega, fun k h1 h2 => ?_, h.before⟩
  rcases Nat.lt_or_ge k seq with h3 | h3
  · exact h.missing k h1 h3
  · rw [show k = seq by omega, hf]

lemma Open.hit (h : Open found b start seq) (hf : found seq = true) :
    Open found b (seq + 1) (seq + 1) := by
  have := h.ge
  have := h.le
  exact ⟨by omega, le_rfl, fun k h1 h2 => by omega, Or.inr hf⟩

lemma ulong_pred (hlast : last < 2 ^ 64) : ulong (ulong (last + 1) + (2 ^ 64 - 1)) = last := by
  unfold ulong
  omega

lemma nextRound_last (hlast : last < 2 ^ 64) :
    nextRound getSent finalize fits ok (ulong (last + 1)) n s last start outs =
      if start < last then
        (gapFill fits ok start (ulong (last + 1)) outs).map fun outs => (s, outs)
      else some (s, outs) := by
  simp only [nextRound, if_true, ulong_pred hlast]

lemma nextRound_lt (hlast : last < 2 ^ 64) (h : seq < last) :
    nextRound getSent finalize fits ok (ulong (last + 1)) n s seq start outs =
      resendInPlace getSent finalize fits ok (ulong (last + 1)) n s (seq + 1) start outs := by
  have hseq : ulong (seq + 1) = seq + 1 := ulong_of_lt (by omega)
  have hne : seq + 1 ≠ ulong (last + 1) := by
    unfold ulong
    omega
  rw [nextRound, hseq, if_neg hne]

lemma wrapped_of_lt (hlast : last < 2 ^ 64) (hf : found last = true)
    (h : ulong (last + 1) < last) : Gap found b last (ulong (last + 1)) (ulong (last + 1)) := by
  have h0 : ulong (last + 1) = 0 := by
    unfold ulong at h ⊢
    omega
  rw [h0]
  exact .wrapped hf (by omega) h0

/-- The loop ends, with `P` of the state and `Q` of the old messages it passed on. -/
def Ends (P : σ → Prop) (Q : ℕ → μ → Prop) (r : Option (σ × List (Out μ × Bool))) : Prop :=
  ∃ t outs, r = some (t, outs) ∧ P t ∧ Msgs Q outs

lemma gapFill_ends (hroom : fits start seq = true) (hs : P s) (houts : Msgs Q outs) :
    Ends P Q ((gapFill fits ok start seq outs).map fun outs => (s, outs)) := by
  rw [gapFill, if_pos hroom]
  exact ⟨s, _, rfl, hs, houts.gap _ _ _⟩

/-- A round ends well if the next one does, and if there is room for the gap fill at the end. -/
lemma nextRound_ends (hgap : ∀ start stop, Gap found b last start stop → fits start stop = true)
    (hlast : last < 2 ^ 64) (hle : seq ≤ last)
    (ih : seq < last → ∀ start, Open found b start (seq + 1) →
      Ends P Q (resendInPlace getSent finalize fits ok (ulong (last + 1)) n s (seq + 1) start outs))
    (ho : Open found b start seq) (hs : P s) (houts : Msgs Q outs) :
    (found seq = false →
      Ends P Q (nextRound getSent finalize fits ok (ulong (last + 1)) n s seq start outs)) ∧
    (found seq = true → Ends P Q
      (nextRound getSent finalize fits ok (ulong (last + 1)) n s seq (ulong (seq + 1)) outs)) := by
  rcases Nat.lt_or_ge seq last with hlt | hge
  · refine ⟨fun hf => ?_, fun hf => ?_⟩
    · rw [nextRound_lt hlast hlt]
      exact ih hlt _ (ho.miss hf)
    · rw [nextRound_lt hlast hlt, show ulong (seq + 1) = seq + 1 from ulong_of_lt (by omega)]
      exact ih hlt _ (ho.hit hf)
  · have hseq : seq = last := by omega
    subst hseq
    refine ⟨fun hf => ?_, fun hf => ?_⟩
    · rw [nextRound_last hlast]
      split
      · next hlt =>
        refine gapFill_ends (hgap _ _ (.atEnd ho.ge hlt (fun k h1 h2 => ?_) ho.before)) hs houts
        exact (ho.miss hf).missing k h1 (by omega)
      · exact ⟨s, outs, rfl, hs, houts⟩
    · rw [nextRound_last hlast]
      split
      · next hlt => exact gapFill_ends (hgap _ _ (wrapped_of_lt hlast hf hlt)) hs houts
      · exact ⟨s, outs, rfl, hs, houts⟩

/-- **The loop comes to its end**, and keeps what every round keeps, where every lookup and every
rewriting of the range is defined and there is room for its gap fills. -/
theorem resendInPlace_ends
    (hget : ∀ k, b ≤ k → k ≤ last → ∀ s, P s → ∃ t r, getSent s k = some (t, r) ∧ P t ∧
      r.isSome = found k ∧ ∀ m, r = some m → ∀ j, ∃ u x, finalize j t k m = some (u, x) ∧
        P u ∧ Q k x)
    (hgap : ∀ start stop, Gap found b last start stop → fits start stop = true)
    (hlast : last < 2 ^ 64) (hn : seq + n = last) (ho : Open found b start seq) (hs : P s)
    (houts : Msgs Q outs) :
    Ends P Q (resendInPlace getSent finalize fits ok (ulong (last + 1)) (n + 1) s seq start
      outs) := by
  induction n using Nat.strong_induction_on generalizing s seq start outs with
  | h n ih =>
    have hb := ho.ge
    have hle := ho.le
    have hnext : ∀ (v : σ) (outs₁ : List (Out μ × Bool)), P v → Msgs Q outs₁ → seq < last →
        ∀ start, Open found b start (seq + 1) →
        Ends P Q (resendInPlace getSent finalize fits ok (ulong (last + 1)) n v (seq + 1) start
          outs₁) := by
      intro v outs₁ hv houts₁ hlt start ho
      obtain ⟨n', rfl⟩ : ∃ n', n = n' + 1 := ⟨n - 1, by omega⟩
      exact ih n' (by omega) (by omega) ho hv houts₁
    obtain ⟨u, r, hr, hu, hf, hfin⟩ := hget seq (by omega) (by omega) s hs
    cases r with
    | none =>
      rw [resendInPlace_miss hr]
      exact (nextRound_ends hgap hlast (by omega) (hnext u outs hu houts) ho hu houts).1
        (hf.symm.trans rfl)
    | some m =>
      have hfound : found seq = true := hf.symm.trans rfl
      by_cases hlt : start < seq
      · rw [resendInPlace_gap hr hlt, gapFill,
          if_pos (hgap _ _ (.before hb hlt (by omega) hfound ho.missing ho.before))]
        simp only [Option.bind_some]
        split
        · obtain ⟨v, x, hx, hv, hq⟩ := hfin m rfl
            (outs ++ [(Out.gap start seq, ok outs.length)]).length
          rw [hx]
          simp only [Option.bind_some]
          have houts' := (houts.gap start seq (ok outs.length)).msg hq
            (ok (outs ++ [(Out.gap start seq, ok outs.length)]).length)
          split
          · exact (nextRound_ends hgap hlast (by omega) (hnext v _ hv houts') ho hv houts').2 hfound
          · exact ⟨v, _, rfl, hv, houts'⟩
        · exact ⟨u, _, rfl, hu, houts.gap _ _ _⟩
      · obtain ⟨v, x, hx, hv, hq⟩ := hfin m rfl outs.length
        rw [resendInPlace_hit hr hlt, hx]
        have houts' := houts.msg hq (ok outs.length)
        have hstart : start = seq := by omega
        simp only [Option.bind_some]
        split
        · rw [hstart]
          exact (nextRound_ends hgap hlast (by omega) (hnext v _ hv houts') ho hv houts').2 hfound
        · exact ⟨v, _, rfl, hv, houts'⟩

/-- What every round keeps holds at the end. -/
lemma resendInPlace_inv {e : ℕ}
    (hget : ∀ k < n, ∀ s t r, P s → getSent s (ulong (seq + k)) = some (t, r) → P t ∧
      ∀ m, r = some m → ∀ j u x, finalize j t (ulong (seq + k)) m = some (u, x) → P u)
    (hseq : seq < 2 ^ 64) (hs : P s)
    (h : resendInPlace getSent finalize fits ok e n s seq start outs = some (t, outs')) : P t := by
  induction n generalizing s seq start outs with
  | zero => cases h
  | succ n ih =>
    obtain ⟨v, start₁, outs₁, more, hround, hrest⟩ := resendInPlace_round h
    have h0 := hget 0 (Nat.succ_pos n)
    rw [Nat.add_zero, ulong_of_lt hseq] at h0
    have hv : P v := by
      cases hround with
      | miss hr => exact (h0 _ _ _ hs hr).1
      | hit hr _ hx => exact (h0 _ _ _ hs hr).2 _ rfl _ _ _ hx
      | cut hr => exact (h0 _ _ _ hs hr).1
      | gap hr _ _ _ hx => exact (h0 _ _ _ hs hr).2 _ rfl _ _ _ hx
    rcases hrest with ⟨rfl, h⟩ | ⟨rfl, rfl, rfl⟩
    · obtain ⟨-, h⟩ | ⟨-, rfl, -⟩ := nextRound_some h
      · refine ih (fun k hk => ?_) (ulong_lt _) hv h
        have hnext : ulong (ulong (seq + 1) + k) = ulong (seq + (k + 1)) := by
          unfold ulong
          omega
        rw [hnext]
        exact hget (k + 1) (by omega)
      · exact hv
    · exact hv

end Rules

/-! ### What a loop that ends has done -/

section Visits

variable {getSent : σ → ℕ → Option (σ × Option μ)}
  {finalize : ℕ → σ → ℕ → μ → Option (σ × μ)} {fits : ℕ → ℕ → Bool} {found : ℕ → Bool}
  {b last n : ℕ} {P : σ → Prop} {s t : σ} {seq start : ℕ} {outs outs' : List (Out μ × Bool)}

variable (getSent finalize fits found b last P) in
/-- Every number of `[seq, last]` was looked up, and the messages found were rewritten and passed
on; every gap fill from `start` on had room. -/
structure Visited (seq start : ℕ) (outs outs' : List (Out μ × Bool)) : Prop where
  keeps : ∀ out ∈ outs, out ∈ outs'
  round : ∀ k, seq ≤ k → k ≤ last → ∃ s t r, P s ∧ getSent s k = some (t, r) ∧
    ∀ m, r = some m → ∃ j u x, finalize j t k m = some (u, x) ∧ (Out.msg k x, true) ∈ outs'
  room : ∀ a c, Gap found b last a c → start ≤ a → fits a c = true
  wrap : found last = true → 0 < last → ulong (last + 1) = 0 → fits 0 0 = true

lemma Open.eq_start (h : Open found b start seq) {a : ℕ} (ha : start ≤ a) (hle : a ≤ seq)
    (hbefore : a = b ∨ found (a - 1) = true) : a = start := by
  by_contra hne
  rcases hbefore with rfl | hf
  · have := h.ge
    omega
  · rw [h.missing (a - 1) (by omega) (by omega)] at hf
    cases hf

lemma nextRound_last_some (hlast : last < 2 ^ 64)
    (h : nextRound getSent finalize fits (fun _ => true) (ulong (last + 1)) n s last start outs =
      some (t, outs')) :
    (∀ out ∈ outs, out ∈ outs') ∧ (start < last → fits start (ulong (last + 1)) = true) := by
  rw [nextRound_last hlast] at h
  by_cases hlt : start < last
  · rw [if_pos hlt] at h
    obtain ⟨filled, hfill, heq⟩ := Option.map_eq_some_iff.mp h
    obtain ⟨hroom, rfl⟩ := gapFill_eq_some.mp hfill
    cases heq
    exact ⟨fun out hout => List.mem_append_left _ hout, fun _ => hroom⟩
  · rw [if_neg hlt] at h
    cases h
    exact ⟨fun out hout => hout, fun h' => absurd h' hlt⟩

lemma nextRound_visited (hlast : last < 2 ^ 64) (hle : seq ≤ last)
    (ih : seq < last → ∀ start, Open found b start (seq + 1) →
      resendInPlace getSent finalize fits (fun _ => true) (ulong (last + 1)) n s (seq + 1) start
        outs = some (t, outs') →
      Visited getSent finalize fits found b last P (seq + 1) start outs outs')
    (ho : Open found b start seq) :
    (found seq = false →
      nextRound getSent finalize fits (fun _ => true) (ulong (last + 1)) n s seq start outs =
        some (t, outs') →
      Visited getSent finalize fits found b last P (seq + 1) start outs outs') ∧
    (found seq = true →
      nextRound getSent finalize fits (fun _ => true) (ulong (last + 1)) n s seq (ulong (seq + 1))
        outs = some (t, outs') →
      Visited getSent finalize fits found b last P (seq + 1) (seq + 1) outs outs') := by
  rcases Nat.lt_or_ge seq last with hlt | hge
  · refine ⟨fun hf h => ?_, fun hf h => ?_⟩
    · rw [nextRound_lt hlast hlt] at h
      exact ih hlt _ (ho.miss hf) h
    · rw [nextRound_lt hlast hlt, show ulong (seq + 1) = seq + 1 from ulong_of_lt (by omega)] at h
      exact ih hlt _ (ho.hit hf) h
  · have hseq : seq = last := by omega
    subst hseq
    refine ⟨fun hf h => ?_, fun hf h => ?_⟩
    · have hm := ho.miss hf
      obtain ⟨hkeep, hroom⟩ := nextRound_last_some hlast h
      refine ⟨hkeep, fun k h1 h2 => by omega, fun a c hgap hsa => ?_, fun hf' => ?_⟩
      · cases hgap with
        | before h1 h2 h3 h4 h5 h6 =>
          rw [hm.missing c (by omega) (by omega)] at h4
          cases h4
        | atEnd h1 h2 h3 h4 =>
          have := ho.eq_start hsa h2.le h4
          subst this
          exact hroom h2
        | wrapped h1 => rw [hf] at h1; cases h1
      · rw [hf] at hf'
        cases hf'
    · obtain ⟨hkeep, hroom⟩ := nextRound_last_some hlast h
      have hwrap : 0 < seq → ulong (seq + 1) = 0 → fits 0 0 = true := by
        intro hpos h0
        have := hroom (by omega)
        rwa [h0] at this
      refine ⟨hkeep, fun k h1 h2 => by omega, fun a c hgap hsa => ?_, fun _ => hwrap⟩
      cases hgap with
      | before h1 h2 h3 => omega
      | atEnd h1 h2 => omega
      | wrapped h1 h2 h3 => exact hwrap h2 h3

/-- One more round in front: its number was looked up, and the gap before it had room. -/
lemma Visited.cons {start' : ℕ} {outs₁ : List (Out μ × Bool)} (hle : seq ≤ last)
    (ho : Open found b start seq) (hs : P s) {r : Option μ} {u : σ}
    (hr : getSent s seq = some (u, r)) (hkeep : ∀ out ∈ outs, out ∈ outs₁)
    (hmsg : ∀ m, r = some m → ∃ j v x, finalize j u seq m = some (v, x) ∧
      (Out.msg seq x, true) ∈ outs₁)
    (hstart : found seq = false ∧ start' = start ∨ found seq = true ∧ start' = seq + 1 ∧
      (start < seq → fits start seq = true))
    (h : Visited getSent finalize fits found b last P (seq + 1) start' outs₁ outs') :
    Visited getSent finalize fits found b last P seq start outs outs' := by
  refine ⟨fun out hout => h.keeps out (hkeep out hout), fun k h1 h2 => ?_,
    fun a c hgap hsa => ?_, h.wrap⟩
  · rcases Nat.lt_or_ge seq k with hlt | hge
    · exact h.round k hlt h2
    · rw [show k = seq by omega]
      refine ⟨s, u, r, hs, hr, fun m hm => ?_⟩
      obtain ⟨j, v, x, hx, hmem⟩ := hmsg m hm
      exact ⟨j, v, x, hx, h.keeps _ hmem⟩
  · rcases hstart with ⟨-, rfl⟩ | ⟨hf, rfl, hroom⟩
    · exact h.room a c hgap hsa
    · rcases Nat.lt_or_ge seq a with hlt | hge
      · exact h.room a c hgap hlt
      · -- the gap that this message closes
        cases hgap with
        | before h1 h2 h3 h4 h5 h6 =>
          have ha := ho.eq_start hsa hge h6
          subst ha
          have hlt : a < seq := by
            by_contra hge'
            rw [h5 seq (by omega) (by omega)] at hf
            cases hf
          have hc : c = seq := by
            by_contra hne
            rcases Nat.lt_or_ge c seq with hcs | hcs
            · rw [ho.missing c (by omega) hcs] at h4
              cases h4
            · rw [h5 seq (by omega) (by omega)] at hf
              cases hf
          rw [hc]
          exact hroom hlt
        | atEnd h1 h2 h3 h4 =>
          rw [h3 seq hge hle] at hf
          cases hf
        | wrapped h1 h2 h3 => exact h.wrap h1 h2 h3

/-- **What a loop that ends has done**, when the socket takes every message. -/
theorem resendInPlace_visited
    (hget : ∀ k, b ≤ k → k ≤ last → ∀ s t r, P s → getSent s k = some (t, r) → P t ∧
      r.isSome = found k ∧ ∀ m, r = some m → ∀ j u x, finalize j t k m = some (u, x) → P u)
    (hlast : last < 2 ^ 64) (hn : seq + n = last) (ho : Open found b start seq) (hs : P s)
    (h : resendInPlace getSent finalize fits (fun _ => true) (ulong (last + 1)) (n + 1) s seq start
      outs = some (t, outs')) :
    Visited getSent finalize fits found b last P seq start outs outs' := by
  induction n using Nat.strong_induction_on generalizing s seq start outs with
  | h n ih =>
    have hb := ho.ge
    have hle := ho.le
    have hnext : ∀ (v : σ) (outs₁ : List (Out μ × Bool)), P v → seq < last →
        ∀ start, Open found b start (seq + 1) →
        resendInPlace getSent finalize fits (fun _ => true) (ulong (last + 1)) n v (seq + 1) start
          outs₁ = some (t, outs') →
        Visited getSent finalize fits found b last P (seq + 1) start outs₁ outs' := by
      intro v outs₁ hv hlt start ho h
      obtain ⟨n', rfl⟩ : ∃ n', n = n' + 1 := ⟨n - 1, by omega⟩
      exact ih n' (by omega) (by omega) ho hv h
    obtain ⟨v, start₁, outs₁, more, hround, hrest⟩ := resendInPlace_round h
    -- the socket takes every message, so the loop goes on
    have h : nextRound getSent finalize fits (fun _ => true) (ulong (last + 1)) n v seq start₁
        outs₁ = some (t, outs') := by
      rcases hrest with ⟨-, h⟩ | ⟨rfl, -, -⟩
      · exact h
      · cases hround with
        | cut _ _ _ hok => cases hok
    cases hround with
    | miss hr =>
      obtain ⟨hv, hf, -⟩ := hget seq (by omega) (by omega) _ _ _ hs hr
      have hfound : found seq = false := hf.symm.trans rfl
      have hvis := (nextRound_visited hlast (by omega) (hnext v outs hv) ho).1 hfound h
      exact hvis.cons (by omega) ho hs hr (fun _ hout => hout)
        (fun m hm => by cases hm) (Or.inl ⟨hfound, rfl⟩)
    | hit hr hlt hx =>
      obtain ⟨-, hf, hfin⟩ := hget seq (by omega) (by omega) _ _ _ hs hr
      have hfound : found seq = true := hf.symm.trans rfl
      rw [show start = seq by omega] at h
      have hvis := (nextRound_visited hlast (by omega)
        (hnext v _ (hfin _ rfl _ v _ hx)) ho).2 hfound h
      refine hvis.cons (by omega) ho hs hr (fun out hout => by simp [hout]) (fun m' hm => ?_)
        (Or.inr ⟨hfound, rfl, fun h' => absurd h' hlt⟩)
      cases hm
      exact ⟨_, v, _, hx, by simp⟩
    | gap hr hlt hroom hok hx =>
      obtain ⟨-, hf, hfin⟩ := hget seq (by omega) (by omega) _ _ _ hs hr
      have hfound : found seq = true := hf.symm.trans rfl
      have hvis := (nextRound_visited hlast (by omega)
        (hnext v _ (hfin _ rfl _ v _ hx)) ho).2 hfound h
      refine hvis.cons (by omega) ho hs hr (fun out hout => by simp [hout]) (fun m' hm => ?_)
        (Or.inr ⟨hfound, rfl, fun _ => hroom⟩)
      cases hm
      exact ⟨_, v, _, hx, by simp⟩
    | cut _ _ _ hok => cases hok

end Visits

end Ufix.InPlace
