import Mathlib.Data.List.TakeWhile
import Ufix.Receiver

/-!
Which lengths `process_new_data` can take out of the bytes received.

The length of a message is computed in an `int` from a number of any size that the other side
sends. What is looked at before the message is cut off is only that it is not longer than what was
received.
-/

namespace Ufix.ReceiverBounds

open Ufix.Decimal

def numberAt (mem : List Byte) (pos : ℤ) : ℕ :=
  value ((mem.drop pos.toNat).takeWhile fun b => IsDigit b)

/-- The end of the BodyLength field and its number; the inner `none` is a wait. -/
def header (fixVersionLen : ℕ) (mem : List Byte) (head tail : ℤ) : Option (Option (ℤ × ℕ)) :=
  if tail - head < 12 then some none
  else
    (scanSoh mem tail (head + fixVersionLen + 2)).bind fun
      | none => some none
      | some pos =>
        (scanSoh mem tail (pos + 3)).map fun r => r.map fun pos' => (pos', numberAt mem (pos + 3))

/-- The length that `process_new_data` computes. -/
def wrappedLen (head pos : ℤ) (n : ℕ) : ℤ := (pos + 1 - head + n + checksumSize).bmod (2 ^ 32)

/-- The length is one that `seek` and the head can be given, or more than was received. -/
def LengthOk (fixVersionLen : ℕ) (mem : List Byte) (head tail : ℤ) : Prop :=
  ∀ pos n, header fixVersionLen mem head tail = some (some (pos, n)) →
    tail - head < wrappedLen head pos n ∨ pos + 4 - head ≤ wrappedLen head pos n

/-- What one round should keep to: if it does not wait, `seek` gets a length that is not negative
and stays inside what was received, and so does the head, which moves. -/
def GoodRound (fixVersionLen : ℕ) (mem : List Byte) (head tail : ℤ) : Prop :=
  ∀ pos n, header fixVersionLen mem head tail = some (some (pos, n)) →
    wrappedLen head pos n ≤ tail - head →
      let msgTypePos := pos + 4
      let dataLen := (wrappedLen head pos n - (msgTypePos - head)).bmod (2 ^ 32)
      0 ≤ dataLen ∧ head ≤ msgTypePos ∧ msgTypePos + dataLen ≤ tail ∧
        0 < wrappedLen head pos n ∧ head + wrappedLen head pos n ≤ tail

variable {v n : ℕ} {mem : List Byte} {head tail pos : ℤ}

/-! ### One round -/

/-- What the scan passes over. -/
lemma scanSohFrom_some {buf : List Byte} {pos' : ℤ}
    (h : scanSohFrom tail pos buf = some (some pos')) :
    ∃ ds rest, buf = ds ++ soh :: rest ∧ soh ∉ ds ∧ pos' = pos + ds.length ∧ pos' ≤ tail := by
  induction buf generalizing pos with
  | nil =>
    rw [scanSohFrom] at h
    split at h <;> cases h
  | cons b buf ih =>
    rw [scanSohFrom] at h
    split at h
    · cases h
    · next htail =>
      split at h
      · next hb =>
        cases h
        exact ⟨[], buf, by rw [hb]; rfl, by simp, by simp, by omega⟩
      · next hb =>
        obtain ⟨ds, rest, rfl, hds, rfl, hle⟩ := ih h
        refine ⟨b :: ds, rest, rfl, ?_, ?_, hle⟩
        · intro hm
          rcases List.mem_cons.mp hm with he | hm
          · exact hb he.symm
          · exact hds hm
        · rw [List.length_cons]
          push_cast
          omega

lemma scanSoh_some {pos' : ℤ} (h : scanSoh mem tail pos = some (some pos')) :
    0 ≤ pos ∧ ∃ ds rest, mem.drop pos.toNat = ds ++ soh :: rest ∧ soh ∉ ds ∧
      pos' = pos + ds.length ∧ pos' ≤ tail := by
  obtain ⟨buf, hbuf, h⟩ := Option.bind_eq_some_iff.mp h
  unfold bytesFrom at hbuf
  split at hbuf
  · cases hbuf
  · cases hbuf
    exact ⟨by omega, scanSohFrom_some h⟩

lemma takeWhile_digits {ds : List Byte} (hd : ∀ b ∈ ds, IsDigit b) (rest : List Byte) :
    (ds ++ soh :: rest).takeWhile (fun b => IsDigit b) = ds := by
  rw [List.takeWhile_append_of_pos (by simpa using hd), List.takeWhile_cons_of_neg (by decide),
    List.append_nil]

lemma scanDigits_of_soh {α : Type*} {next : α → Byte → α} {val : α} {buf : List Byte}
    (h : soh ∈ buf) :
    scanDigits next val buf = some ((buf.takeWhile fun b => IsDigit b).foldl next val) := by
  have hall : ∀ b ∈ buf.takeWhile (fun b => IsDigit b), IsDigit b :=
    fun b hb => by simpa using List.mem_takeWhile_imp hb
  rcases hrest : buf.dropWhile (fun b => IsDigit b) with - | ⟨b, rest⟩
  · have hdigit := List.dropWhile_eq_nil_iff.mp hrest soh h
    exact absurd (of_decide_eq_true hdigit) (by decide)
  · have hb : ¬ IsDigit b := by
      have hhead := List.head?_dropWhile_not (fun b => decide (IsDigit b)) buf
      rw [hrest] at hhead
      simpa using hhead
    have hsplit := List.takeWhile_append_dropWhile (p := fun b => decide (IsDigit b)) (l := buf)
    rw [hrest] at hsplit
    conv_lhs => rw [← hsplit]
    exact scanDigits_append hall hb

lemma convertAtoi_of_soh {buf : List Byte} (h : soh ∈ buf) :
    convertAtoi buf = some ((value (buf.takeWhile fun b => IsDigit b) : ℤ).bmod (2 ^ 32)) := by
  rw [convertAtoi, scanDigits_of_soh h, foldl_intDigit]
  exact fun b hb => by simpa using List.mem_takeWhile_imp hb

lemma convertAtoll_of_soh {buf : List Byte} (h : soh ∈ buf) :
    convertAtoll buf = some (ulong (value (buf.takeWhile fun b => IsDigit b))) := by
  rw [convertAtoll, scanDigits_of_soh h, foldl_ulongDigit]
  exact fun b hb => by simpa using List.mem_takeWhile_imp hb

lemma wrappedLen_bmod (head pos : ℤ) (n : ℕ) :
    (pos + 1 - head + (n : ℤ).bmod (2 ^ 32) + checksumSize).bmod (2 ^ 32) =
      wrappedLen head pos n := by
  rw [wrappedLen, add_right_comm, Int.add_bmod_bmod, add_right_comm]

/-- A round is the header and then `cutMsg`. -/
lemma nextMsg_eq (v : ℕ) (mem : List Byte) (head tail : ℤ) :
    nextMsg v mem head tail = (header v mem head tail).bind fun
      | none => some .wait
      | some (pos, n) => cutMsg mem head tail (pos + 4) (wrappedLen head pos n) := by
  unfold nextMsg header
  split
  · rfl
  cases scanSoh mem tail (head + v + 2) with
  | none => rfl
  | some r =>
    cases r with
    | none => rfl
    | some pos =>
      simp only [Option.bind_some]
      cases hscan : scanSoh mem tail (pos + 3) with
      | none => rfl
      | some r =>
        cases r with
        | none => rfl
        | some pos' =>
          obtain ⟨h0, ds, rest, hdrop, -⟩ := scanSoh_some hscan
          have hsoh : soh ∈ mem.drop (pos + 3).toNat := by
            rw [hdrop]
            simp
          have hnum := convertAtoi_of_soh hsoh
          simp only [Option.bind_some, Option.map_some, bytesFrom,
            if_neg (show ¬ pos + 3 < 0 by omega), Option.bind_eq_bind, hnum, wrappedLen_bmod,
            numberAt]

lemma header_spec (h : header v mem head tail = some (some (pos, n))) :
    head + v + 5 ≤ pos ∧ pos ≤ tail := by
  unfold header at h
  split at h
  · cases h
  obtain ⟨r, hr, h⟩ := Option.bind_eq_some_iff.mp h
  cases r with
  | none => cases h
  | some pos₁ =>
    obtain ⟨r, hr', h⟩ := Option.map_eq_some_iff.mp h
    cases r with
    | none => cases h
    | some pos₂ =>
      cases h
      obtain ⟨-, ds, -, -, -, rfl, -⟩ := scanSoh_some hr
      obtain ⟨-, ds', -, -, -, rfl, hle⟩ := scanSoh_some hr'
      exact ⟨by omega, hle⟩

/-- **One round keeps inside** exactly where the length is right or too long. -/
theorem goodRound_iff (v : ℕ) (mem : List Byte) (hint : tail - head < 2 ^ 31) :
    GoodRound v mem head tail ↔ LengthOk v mem head tail := by
  refine forall_congr' fun pos => forall_congr' fun n => forall_congr' fun h => ?_
  obtain ⟨hpos, htail⟩ := header_spec h
  have hlow : -2 ^ 31 ≤ wrappedLen head pos n := Int.le_bmod (by decide)
  have hhigh : wrappedLen head pos n < 2 ^ 31 := Int.bmod_lt (by decide)
  generalize wrappedLen head pos n = len at hlow hhigh ⊢
  constructor
  · intro hgood
    by_contra hbad
    rw [not_or, not_lt, not_le] at hbad
    obtain ⟨h0, -, hle, -, -⟩ := hgood hbad.1
    -- a difference that is not negative here has wrapped, and is larger than what was received
    have hwrap : (len - (pos + 4 - head)).bmod (2 ^ 32) = len - (pos + 4 - head) ∨
        (len - (pos + 4 - head)).bmod (2 ^ 32) = len - (pos + 4 - head) + 2 ^ 32 := by
      rw [Int.bmod_def]
      omega
    omega
  · intro hok hle
    have hge : pos + 4 - head ≤ len := hok.resolve_left (by omega)
    have hlen : (len - (pos + 4 - head)).bmod (2 ^ 32) = len - (pos + 4 - head) :=
      Int.bmod_eq_of_le (by omega) (by omega)
    simp only [hlen]
    omega

/-! ### All rounds -/

/-- The heads at which a call starts a round. -/
inductive Reaches (v : ℕ) (mem : List Byte) (tail : ℤ) : ℤ → ℤ → Prop
  | refl (head : ℤ) : Reaches v mem tail head head
  | next {head head' len : ℤ} {m : RMessage} (h : nextMsg v mem head tail = some (.msg m len))
      (hr : Reaches v mem tail (head + len) head') : Reaches v mem tail head head'

/-- `process_new_data` keeps inside what was received and ends, unless a scan leaves the memory. -/
structure Safe (v : ℕ) (mem : List Byte) (head tail : ℤ) : Prop where
  rounds : ∀ head', Reaches v mem tail head head' → GoodRound v mem head' tail
  ends : (∃ head', Reaches v mem tail head head' ∧ nextMsg v mem head' tail = none) ∨
    ∃ r, processNewData v mem head tail = some r ∧ head ≤ r.1 ∧ r.1 ≤ tail

lemma nextMsg_msg {m : RMessage} {len : ℤ} (h : nextMsg v mem head tail = some (.msg m len)) :
    ∃ pos n, header v mem head tail = some (some (pos, n)) ∧ len = wrappedLen head pos n ∧
      len ≤ tail - head := by
  rw [nextMsg_eq] at h
  obtain ⟨r, hr, h⟩ := Option.bind_eq_some_iff.mp h
  rcases r with - | ⟨pos, n⟩
  · cases h
  obtain ⟨-, hm⟩ | ⟨hle, hm | ⟨-, seq, hm⟩⟩ := cutMsg_some h
  · cases hm
  · cases hm
  · exact ⟨pos, n, hr, (Round.msg.inj hm).2, (Round.msg.inj hm).2 ▸ hle⟩

lemma GoodRound.advances (h : GoodRound v mem head tail) {m : RMessage} {len : ℤ}
    (hnext : nextMsg v mem head tail = some (.msg m len)) : 0 < len ∧ head + len ≤ tail := by
  obtain ⟨pos, n, hpos, rfl, hle⟩ := nextMsg_msg hnext
  exact (h pos n hpos hle).2.2.2

lemma reaches_inside (hgood : ∀ head', Reaches v mem tail head head' → GoodRound v mem head' tail)
    (hle : head ≤ tail) {head' : ℤ} (hr : Reaches v mem tail head head') :
    head ≤ head' ∧ head' ≤ tail := by
  induction hr with
  | refl head => exact ⟨le_rfl, hle⟩
  | next h hr ih =>
    obtain ⟨hpos, hle'⟩ := (hgood _ (.refl _)).advances h
    have := ih (fun head' hr' => hgood head' (.next h hr')) hle'
    omega

lemma good_of_lengthOk (hok : ∀ head', Reaches v mem tail head head' → LengthOk v mem head' tail)
    (hle : head ≤ tail) (hint : tail - head < 2 ^ 31) {head' : ℤ}
    (hr : Reaches v mem tail head head') : GoodRound v mem head' tail := by
  induction hr with
  | refl head => exact (goodRound_iff v mem hint).mpr (hok _ (.refl _))
  | next h hr ih =>
    have hgood := (goodRound_iff v mem hint).mpr (hok _ (.refl _))
    obtain ⟨hpos, hle'⟩ := hgood.advances h
    exact ih (fun head' hr' => hok head' (.next h hr')) hle' (by omega)

lemma processRounds_ends {k : ℕ} {msgs : List RMessage}
    (hgood : ∀ head', Reaches v mem tail head head' → GoodRound v mem head' tail)
    (hle : head ≤ tail) (hk : tail - head < k) :
    (∃ head', Reaches v mem tail head head' ∧ nextMsg v mem head' tail = none) ∨
      ∃ r, processRounds v mem tail k head msgs = some r ∧ head ≤ r.1 ∧ r.1 ≤ tail := by
  induction k generalizing head msgs with
  | zero => omega
  | succ k ih =>
    rw [processRounds]
    cases hnext : nextMsg v mem head tail with
    | none => exact Or.inl ⟨head, .refl head, hnext⟩
    | some r =>
      cases r with
      | wait => exact Or.inr ⟨_, rfl, le_rfl, hle⟩
      | noSeq => exact Or.inr ⟨_, rfl, le_rfl, hle⟩
      | msg m len =>
        obtain ⟨hpos, hle'⟩ := (hgood _ (.refl _)).advances hnext
        rcases @ih _ (msgs ++ [m]) (fun head' hr' => hgood head' (.next hnext hr')) hle'
          (by push_cast at hk; omega) with ⟨head', hr, hnone⟩ | ⟨r, hr, hge, hr'⟩
        · exact Or.inl ⟨head', .next hnext hr, hnone⟩
        · exact Or.inr ⟨r, hr, by omega, hr'⟩

end Ufix.ReceiverBounds
