import Ufix.WMessage

/-!
Number fields over the whole range of their type.

The digits are counted against a power of ten in the arithmetic of the type. Near the upper limit it
wraps, and more digits are counted than there are or the count never ends; of a negative number one
digit is counted and no sign is written.
-/

namespace Ufix.NumberFields

open Ufix.Decimal Ufix.TagValue

/-- `'-'`. -/
def minus : Byte := 45

def canonical (v : ℤ) : List Byte :=
  if v < 0 then minus :: decimal v.natAbs else decimal v.toNat

/-- The number stands between `=` and `SOH` behind what `set_tag` wrote, and one that is not
negative is read back from there, whatever follows. -/
def Faithful (tagged : WMessage) (written : Option WMessage) (v : ℤ)
    (readBack : List Byte → Option ℤ) : Prop :=
  ∃ m, written = some m ∧ m = { tagged with data := tagged.data ++ canonical v ++ [soh] } ∧
    (0 ≤ v → ∀ rest, readBack (m.data.drop tagged.data.length ++ rest) = some v)

/-- `convert_atoll` as a number of any size. -/
def readLong (buf : List Byte) : Option ℤ := (convertAtoll buf).map Nat.cast

/-! ### The count -/

def nextPow (w : ℕ) (pow : ℤ) : ℤ := (pow * 10).bmod (2 ^ w)

variable {w n digits k r : ℕ} {v pow : ℤ} {tagged : WMessage}

lemma countDigits_add (h : ∀ j < k, (nextPow w)^[j] pow ≤ v) :
    countDigits w v (k + n) pow digits = countDigits w v n ((nextPow w)^[k] pow) (digits + k) := by
  induction k generalizing pow digits with
  | zero => rw [Nat.zero_add, Nat.add_zero, Function.iterate_zero_apply]
  | succ k ih =>
    have hpow : pow ≤ v := h 0 (Nat.succ_pos k)
    have hnext : ∀ j < k, (nextPow w)^[j] (nextPow w pow) ≤ v := fun j hj => by
      have := h (j + 1) (by omega)
      rwa [Function.iterate_succ_apply] at this
    calc countDigits w v (k + 1 + n) pow digits
        = countDigits w v (k + n) (nextPow w pow) (digits + 1) := by
          rw [Nat.add_right_comm, countDigits, if_pos hpow, nextPow]
      _ = countDigits w v n ((nextPow w)^[k] (nextPow w pow)) (digits + 1 + k) := ih hnext
      _ = countDigits w v n ((nextPow w)^[k + 1] pow) (digits + (k + 1)) := by
          rw [Function.iterate_succ_apply, Nat.add_assoc, Nat.add_comm 1]

lemma le_of_countDigits (h : countDigits w v n pow digits = some r) : digits ≤ r := by
  induction n generalizing pow digits with
  | zero => cases h
  | succ n ih =>
    rw [countDigits] at h
    split at h
    · exact Nat.le_of_succ_le (ih h)
    · rw [Option.some.injEq] at h
      exact h.le

lemma writeDigits_length (n : ℕ) (v : ℤ) : (writeDigits n v).length = n := by
  induction n generalizing v with
  | zero => rfl
  | succ n ih => rw [writeDigits, List.length_append, ih, List.length_singleton]

lemma toa_length {l : List Byte} (h : toa w v = some l) :
    countDigits w v w 10 1 = some l.length := by
  obtain ⟨r, hr, rfl⟩ := Option.map_eq_some_iff.mp h
  rw [hr, writeDigits_length]

lemma lt_toa_length {l : List Byte} (hk : k ≤ w) (hpow : ∀ j < k, (nextPow w)^[j] 10 ≤ v)
    (h : toa w v = some l) : k < l.length := by
  have hcount := toa_length h
  obtain ⟨n, rfl⟩ := Nat.exists_eq_add_of_le hk
  rw [countDigits_add hpow] at hcount
  have := le_of_countDigits hcount
  omega

lemma toa_length_of_neg {l : List Byte} (hv : v < 0) (h : toa (w + 1) v = some l) :
    l.length = 1 := by
  have hcount := toa_length h
  rw [countDigits, if_neg (by omega), Option.some.injEq] at hcount
  exact hcount.symm

lemma convertItoa_of_lt_wrap {v : ℕ} (h : v < 1410065408) : convertItoa v = some (decimal v) := by
  by_cases h9 : v < 10 ^ 9
  · exact convertItoa_of_lt h9
  have hpow : ∀ j < 9, (nextPow 32)^[j] 10 ≤ (10 ^ 9 : ℤ) := by decide
  have hwrap : (nextPow 32)^[9] 10 = 1410065408 := by decide
  have hcount : countDigits 32 v 32 10 1 = some 10 := by
    rw [show 32 = 9 + (22 + 1) by rfl, countDigits_add fun j hj => (hpow j hj).trans (by omega),
      hwrap, countDigits, if_neg (by omega)]
  have hwidth : width v = 10 :=
    le_antisymm (width_le (by decide) (by omega)) (lt_width (by omega))
  rw [convertItoa, toa, hcount, Option.map_some, writeDigits_natCast, decimal, hwidth]

/-! ### What is canonical -/

lemma canonical_natCast (v : ℕ) : canonical v = decimal v := by
  rw [canonical, if_neg (by omega), Int.toNat_natCast]

lemma canonical_length_of_neg (hv : v < 0) : 2 ≤ (canonical v).length := by
  rw [canonical, if_pos hv, List.length_cons, decimal_length]
  exact Nat.succ_le_succ (one_le_width _)

lemma canonical_length_le {e : ℕ} (he : 1 ≤ e) (h0 : 0 ≤ v) (hv : v < 10 ^ e) :
    (canonical v).length ≤ e := by
  obtain ⟨v, rfl⟩ := Int.eq_ofNat_of_zero_le h0
  rw [canonical_natCast, decimal_length]
  exact width_le he (by exact_mod_cast hv)

lemma toa_ne_canonical (h1 : 1 ≤ k) (hk : k ≤ w) (hpow : ∀ j < k, (nextPow w)^[j] 10 ≤ v)
    (h0 : 0 ≤ v) (hv : v < 10 ^ k) : toa w v ≠ some (canonical v) := by
  intro h
  have hlong := lt_toa_length hk hpow h
  have hshort := canonical_length_le h1 h0 hv
  omega

lemma toa_ne_canonical_of_neg (hv : v < 0) : toa (w + 1) v ≠ some (canonical v) := by
  intro h
  have hone := toa_length_of_neg hv h
  have htwo := canonical_length_of_neg hv
  omega

/-! ### The fields -/

lemma faithful_iff {text : Option (List Byte)} {readBack : List Byte → Option ℤ}
    (hread : 0 ≤ v → ∀ rest, readBack (canonical v ++ soh :: rest) = some v) :
    Faithful tagged (text.map fun ds => { tagged with data := tagged.data ++ ds ++ [soh] }) v
      readBack ↔ text = some (canonical v) := by
  constructor
  · rintro ⟨m, hm, rfl, -⟩
    obtain ⟨ds, rfl, hds⟩ := Option.map_eq_some_iff.mp hm
    have hdata := congrArg WMessage.data hds
    simp only [List.append_assoc] at hdata
    rw [List.append_cancel_right (List.append_cancel_left hdata)]
  · rintro rfl
    refine ⟨_, rfl, rfl, fun h0 rest => ?_⟩
    simp only [List.append_assoc, List.drop_left, List.singleton_append]
    exact hread h0 rest

lemma convertAtoi_canonical (h0 : 0 ≤ v) (hv : v < 2 ^ 31) (rest : List Byte) :
    convertAtoi (canonical v ++ soh :: rest) = some v := by
  obtain ⟨v, rfl⟩ := Int.eq_ofNat_of_zero_le h0
  have hds : ∀ b ∈ decimal v, IsDigit b := fun b => isDigit_of_mem_decimal
  rw [canonical_natCast, convertAtoi, scanDigits_append hds (by decide), foldl_intDigit hds,
    value_decimal, bmod_of_lt (by exact_mod_cast hv)]

lemma readLong_canonical (h0 : 0 ≤ v) (hv : v < 2 ^ 64) (rest : List Byte) :
    readLong (canonical v ++ soh :: rest) = some v := by
  obtain ⟨v, rfl⟩ := Int.eq_ofNat_of_zero_le h0
  have hds : ∀ b ∈ decimal v, IsDigit b := fun b => isDigit_of_mem_decimal
  rw [canonical_natCast, readLong, convertAtoll, scanDigits_append hds (by decide),
    foldl_ulongDigit hds, value_decimal, Option.map_some, ulong_of_lt (by exact_mod_cast hv)]

lemma convertItoa_eq_canonical_iff (hv : v < 2 ^ 31) :
    convertItoa v = some (canonical v) ↔ 0 ≤ v ∧ v < 1410065408 := by
  constructor
  · intro h
    have h0 : 0 ≤ v := by
      by_contra hneg
      exact toa_ne_canonical_of_neg (by omega) h
    refine ⟨h0, ?_⟩
    by_contra hlarge
    have hpow : ∀ j < 10, (nextPow 32)^[j] 10 ≤ (1410065408 : ℤ) := by decide
    exact toa_ne_canonical (by decide) (by decide) (fun j hj => (hpow j hj).trans (by omega)) h0
      (by omega) h
  · rintro ⟨h0, hlt⟩
    obtain ⟨v, rfl⟩ := Int.eq_ofNat_of_zero_le h0
    rw [canonical_natCast, convertItoa_of_lt_wrap (by exact_mod_cast hlt)]

lemma convertLtoa_eq_canonical_iff (hv : v < 2 ^ 63) :
    convertLtoa v = some (canonical v) ↔ 0 ≤ v ∧ v < 10 ^ 18 := by
  constructor
  · intro h
    have h0 : 0 ≤ v := by
      by_contra hneg
      exact toa_ne_canonical_of_neg (by omega) h
    refine ⟨h0, ?_⟩
    by_contra hlarge
    have hpow : ∀ j < 19, (nextPow 64)^[j] 10 ≤ (10 ^ 18 : ℤ) := by decide
    exact toa_ne_canonical (by decide) (by decide) (fun j hj => (hpow j hj).trans (by omega)) h0
      (by omega) h
  · rintro ⟨h0, hlt⟩
    obtain ⟨v, rfl⟩ := Int.eq_ofNat_of_zero_le h0
    rw [canonical_natCast, convertLtoa_of_lt (by exact_mod_cast hlt)]

lemma convertLtoa_bmod_eq_canonical_iff {v : ℕ} (hv : v < 2 ^ 64) :
    convertLtoa ((v : ℤ).bmod (2 ^ 64)) = some (canonical v) ↔ v < 10 ^ 18 := by
  by_cases hsmall : v < 2 ^ 63
  · rw [bmod_of_lt hsmall, convertLtoa_eq_canonical_iff (by exact_mod_cast hsmall)]
    omega
  · have hneg : (v : ℤ).bmod (2 ^ 64) < 0 := by
      rw [Int.bmod_def]
      split <;> omega
    refine iff_of_false (fun h => ?_) (by omega)
    have hone := toa_length_of_neg hneg h
    have hmany : 18 < width v := lt_width (by omega)
    rw [canonical_natCast, decimal_length] at hone
    omega

/-- **Number fields are written right** if and only if the number is not negative and its power of
ten does not wrap: below `10^10 mod 2^32` for an `int`, below `10^18` for a `long long` or a
`ULONG`. -/
theorem setField_faithful_iff {m tagged : WMessage} {tag : ℤ} (h : m.setTag tag = some tagged) :
    (∀ v : ℤ, -2 ^ 31 ≤ v → v < 2 ^ 31 →
      (Faithful tagged (m.setFieldInt tag v) v convertAtoi ↔ 0 ≤ v ∧ v < 1410065408)) ∧
    (∀ v : ℤ, -2 ^ 63 ≤ v → v < 2 ^ 63 →
      (Faithful tagged (m.setFieldLong tag v) v readLong ↔ 0 ≤ v ∧ v < 10 ^ 18)) ∧
    ∀ v : ℕ, v < 2 ^ 64 →
      (Faithful tagged (m.setFieldUlong tag v) v readLong ↔ v < 10 ^ 18) := by
  refine ⟨fun v _ hv => ?_, fun v _ hv => ?_, fun v hv => ?_⟩
  · rw [WMessage.setFieldInt, h, Option.bind_some,
      faithful_iff fun h0 => convertAtoi_canonical h0 hv, convertItoa_eq_canonical_iff hv]
  · rw [WMessage.setFieldLong, h, Option.bind_some,
      faithful_iff fun h0 => readLong_canonical h0 (by omega), convertLtoa_eq_canonical_iff hv]
  · rw [WMessage.setFieldUlong, WMessage.setFieldLong, h, Option.bind_some,
      faithful_iff fun h0 => readLong_canonical h0 (by exact_mod_cast hv),
      convertLtoa_bmod_eq_canonical_iff hv]

/-- Field `58` of an empty message. -/
theorem setField_faithful_iff_text :
    (∀ v : ℤ, -2 ^ 31 ≤ v → v < 2 ^ 31 →
      (Faithful { WMessage.new with data := [53, 56, 61] } (WMessage.new.setFieldInt 58 v) v
        convertAtoi ↔ 0 ≤ v ∧ v < 1410065408)) ∧
    (∀ v : ℤ, -2 ^ 63 ≤ v → v < 2 ^ 63 →
      (Faithful { WMessage.new with data := [53, 56, 61] } (WMessage.new.setFieldLong 58 v) v
        readLong ↔ 0 ≤ v ∧ v < 10 ^ 18)) ∧
    ∀ v : ℕ, v < 2 ^ 64 →
      (Faithful { WMessage.new with data := [53, 56, 61] } (WMessage.new.setFieldUlong 58 v) v
        readLong ↔ v < 10 ^ 18) :=
  setField_faithful_iff (by decide)

/-- The count for `2000000000` never ends, `-7` is written as one byte that is no digit. -/
theorem setField_wraps :
    ¬ Faithful { WMessage.new with data := [53, 56, 61] } (WMessage.new.setFieldInt 58 2000000000)
        2000000000 convertAtoi ∧
      ¬ Faithful { WMessage.new with data := [53, 56, 61] } (WMessage.new.setFieldInt 58 (-7))
        (-7) convertAtoi := by
  constructor
  · rintro ⟨m, hm, -⟩
    have hnone : WMessage.new.setFieldInt 58 2000000000 = none := by decide
    rw [hnone] at hm
    cases hm
  · rintro ⟨m, hm, hdata, -⟩
    have hone : (WMessage.new.setFieldInt 58 (-7)).map (fun m => m.data) =
        some [53, 56, 61, 41, 1] := by decide
    have htwo : canonical (-7) = [45, 55] := by decide
    rw [hm, hdata, htwo] at hone
    exact absurd hone (by decide)

end Ufix.NumberFields
