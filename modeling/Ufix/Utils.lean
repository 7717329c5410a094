import Ufix.Decimal
import Ufix.SessionOption
import Ufix.SocketConnector

/-!
Numbers to text and back, as `utils.cpp` computes them.

Arithmetic is that of the machine: an `int` wraps at 32 bits, a `char` is signed. A read that
leaves the buffer is `none`.
-/

namespace Ufix

open Ufix.Decimal

/-- The length of `10=000` and its `SOH`. -/
def checksumSize : ℕ := 7

def itoc (x : ℤ) : Byte := UInt8.ofInt (x + 48)

/-- The value of a `char`. -/
def charVal (b : Byte) : ℤ := (b.toNat : ℤ).bmod 256

def ctoi (b : Byte) : ℤ := charVal b - 48

/-- The first loop of `convert_itoa` and `convert_ltoa`, in `w` bits. In round `w` the power of
ten has become `0`: a loop that goes on then never ends, and the result is `none`. -/
def countDigits (w : ℕ) (value : ℤ) : ℕ → ℤ → ℕ → Option ℕ
  | 0, _, _ => none
  | n + 1, pow, digits =>
    if pow ≤ value then countDigits w value n ((pow * 10).bmod (2 ^ w)) (digits + 1)
    else some digits

def writeDigits : ℕ → ℤ → List Byte
  | 0, _ => []
  | n + 1, value =>
    let newValue := value.tdiv 10
    writeDigits n newValue ++ [itoc (value - newValue * 10)]

/-- What `convert_itoa` and `convert_ltoa` write. -/
def toa (w : ℕ) (value : ℤ) : Option (List Byte) :=
  (countDigits w value w 10 1).map fun digits => writeDigits digits value

def convertItoa (value : ℤ) : Option (List Byte) := toa 32 value

def convertLtoa (value : ℤ) : Option (List Byte) := toa 64 value

/-- `convert_itoa` with `buf_end`: digits are written downwards from the byte before `bufEnd`
until the value is used up, even below the place meant for them. -/
def convertItoaTo (value : ℤ) : ℕ → List Byte → Option (List Byte)
  | 0, _ => none
  | pos + 1, data =>
    let data := data.set pos (itoc (value.tmod 10))
    if value.tdiv 10 = 0 then some data else convertItoaTo (value.tdiv 10) pos data

/-- One digit of `convert_atoi`. -/
def intDigit (val : ℤ) (b : Byte) : ℤ := (val * 10 + ctoi b).bmod (2 ^ 32)

/-- One digit of `convert_atoll`. -/
def ulongDigit (val : ℕ) (b : Byte) : ℕ := ((val * 10 + ctoi b) % 2 ^ 64).toNat

/-- The loop of `convert_atoi(buf)` and `convert_atoll(buf)`, which ends at the first byte that
is not a digit. -/
def scanDigits {α : Type*} (next : α → Byte → α) (val : α) : List Byte → Option α
  | [] => none
  | b :: buf =>
    if charVal b < 48 ∨ charVal b > 57 then some val else scanDigits next (next val b) buf

def convertAtoi (buf : List Byte) : Option ℤ := scanDigits intDigit 0 buf

def convertAtoll (buf : List Byte) : Option ℕ := scanDigits ulongDigit 0 buf

/-- `convert_atoll(buf, len)`. -/
def convertAtollLen (buf : List Byte) : ℕ := buf.foldl ulongDigit 0

/-- The loops of `seek`, where `left` of the pattern is still to be met. After a byte that does
not match, the search starts again behind it. -/
def seekFrom (pattern : List Byte) (dataLen : ℤ) : ℕ → ℕ → List Byte → List Byte → Option ℤ
  | _, prevPos, [], _ => some prevPos
  | pos, _, _ :: _, [] => if (pos : ℤ) = dataLen then some (-1) else none
  | pos, prevPos, c :: left, b :: data =>
    if (pos : ℤ) = dataLen then some (-1)
    else if b = c then seekFrom pattern dataLen (pos + 1) prevPos left data
    else seekFrom pattern dataLen (pos + 1) (pos + 1) pattern data

/-- `seek`, for a pattern that is not empty: a position in `data`, or `-1`. -/
def seek (data : List Byte) (dataLen : ℤ) (pattern : List Byte) : Option ℤ :=
  seekFrom pattern dataLen 0 0 pattern data

/-! ### Writing a number -/

lemma itoc_natCast (d : ℕ) : itoc d = digit d := by
  have h : ((d : ℤ) + 48) % 2 ^ 8 = ((48 + d) % 2 ^ 8 : ℕ) := by omega
  rw [itoc, digit, UInt8.ofInt, h, Int.toNat_natCast, UInt8.ofNat_mod_size]

lemma tdiv_ten (v : ℕ) : (v : ℤ).tdiv 10 = ((v / 10 : ℕ) : ℤ) := (Int.ofNat_tdiv v 10).symm

lemma tmod_ten (v : ℕ) : (v : ℤ).tmod 10 = ((v % 10 : ℕ) : ℤ) := (Int.ofNat_tmod v 10).symm

lemma writeDigits_natCast (n v : ℕ) : writeDigits n v = padded n v := by
  induction n generalizing v with
  | zero => rfl
  | succ n ih =>
    have hd : (v : ℤ) - ((v / 10 : ℕ) : ℤ) * 10 = ((v % 10 : ℕ) : ℤ) := by omega
    simp only [writeDigits, padded, tdiv_ten, hd, ih, itoc_natCast]

lemma bmod_of_lt {w v : ℕ} (h : v < 2 ^ w) : (v : ℤ).bmod (2 ^ (w + 1)) = v := by
  have hp : (2 : ℕ) ^ (w + 1) = 2 * 2 ^ w := Nat.pow_succ'
  apply Int.bmod_eq_of_le
  · omega
  · rw [hp]
    omega

/-- The digits are counted right as long as no power of ten on the way wraps. -/
lemma countDigits_of_lt {w e v : ℕ} (hw : 10 ^ e < 2 ^ w) (hv : v < 10 ^ e) {n k : ℕ}
    (hk : 1 ≤ k) (hkv : k ≤ width v) (hn : width v < n + k) :
    countDigits (w + 1) v n ((10 ^ k : ℕ) : ℤ) k = some (width v) := by
  induction n generalizing k with
  | zero => omega
  | succ n ih =>
    rw [countDigits]
    by_cases h : 10 ^ k ≤ v
    · have hlt : k < width v := by
        have := Nat.le_log_of_pow_le (by omega) h
        unfold width
        omega
      have he : k + 1 ≤ e := by
        have := (Nat.pow_lt_pow_iff_right (by omega)).mp (lt_of_le_of_lt h hv)
        omega
      have hpow : 10 ^ (k + 1) < 2 ^ w := lt_of_le_of_lt (Nat.pow_le_pow_right (by omega) he) hw
      have hnext : (((10 ^ k : ℕ) : ℤ) * 10).bmod (2 ^ (w + 1)) = ((10 ^ (k + 1) : ℕ) : ℤ) := by
        rw [← bmod_of_lt hpow, Nat.pow_succ 10 k, Nat.cast_mul]
        rfl
      rw [if_pos (by exact_mod_cast h), hnext, ih (by omega) (by omega) (by omega)]
    · have hge : width v ≤ k := by
        have := Nat.log_lt_of_lt_pow' (by omega) (show v < 10 ^ k by omega)
        unfold width
        omega
      rw [if_neg (by exact_mod_cast h)]
      congr 1
      omega

lemma toa_of_lt {w e v : ℕ} (he : 1 ≤ e) (hew : e ≤ w) (hw : 10 ^ e < 2 ^ w) (hv : v < 10 ^ e) :
    toa (w + 1) v = some (decimal v) := by
  have hwidth := width_le he hv
  have hcount : countDigits (w + 1) v (w + 1) 10 1 = some (width v) :=
    countDigits_of_lt hw hv (k := 1) le_rfl (by unfold width; omega) (by omega)
  rw [toa, hcount, Option.map_some, writeDigits_natCast]
  rfl

lemma convertItoa_of_lt {v : ℕ} (hv : v < 10 ^ 9) : convertItoa v = some (decimal v) :=
  toa_of_lt (w := 31) (by decide) (by decide) (by decide) hv

lemma convertLtoa_of_lt {v : ℕ} (hv : v < 10 ^ 18) : convertLtoa v = some (decimal v) :=
  toa_of_lt (w := 63) (by decide) (by decide) (by decide) hv

/-- The digits end before `pos`, as many as the number has; where there is no room for them in
front of `pos`, the write leaves the buffer. -/
lemma convertItoaTo_natCast {v pos : ℕ} {data : List Byte} (h : pos ≤ data.length) :
    convertItoaTo v pos data =
      if width v ≤ pos then some (data.take (pos - width v) ++ decimal v ++ data.drop pos)
      else none := by
  induction pos generalizing v data with
  | zero =>
    have hv := one_le_width v
    rw [convertItoaTo, if_neg (by omega)]
  | succ pos ih =>
    rw [convertItoaTo, tmod_ten, itoc_natCast, tdiv_ten]
    by_cases hlt : v < 10
    · rw [Nat.div_eq_of_lt hlt, Nat.mod_eq_of_lt hlt, if_pos Nat.cast_zero, width_of_lt hlt,
        if_pos (by omega), decimal_of_lt hlt, List.set_eq_take_append_cons_drop, if_pos (by omega),
        Nat.add_sub_cancel]
      simp
    · have hge : 10 ≤ v := by omega
      have hdiv : ((v / 10 : ℕ) : ℤ) ≠ 0 := by omega
      rw [if_neg hdiv, ih (by simp only [List.length_set]; omega), width_of_le hge,
        decimal_of_le hge]
      by_cases hw : width (v / 10) ≤ pos
      · have hdrop : (data.set pos (digit (v % 10))).drop pos =
            digit (v % 10) :: data.drop (pos + 1) := by
          rw [List.set_eq_take_append_cons_drop, if_pos (by omega),
            List.drop_left' (by simp only [List.length_take]; omega)]
        rw [if_pos hw, if_pos (by omega), hdrop, List.take_set_of_le (by omega),
          Nat.add_sub_add_right]
        simp
      · rw [if_neg hw, if_neg (by omega)]

lemma convertItoaTo_length {v : ℤ} {pos : ℕ} {data data' : List Byte}
    (h : convertItoaTo v pos data = some data') : data'.length = data.length := by
  induction pos generalizing v data with
  | zero => cases h
  | succ pos ih =>
    simp only [convertItoaTo] at h
    split at h
    · cases h
      exact List.length_set
    · rw [ih h, List.length_set]

lemma convertItoaTo_zeros {w v : ℕ} (pre post : List Byte) (hw : 1 ≤ w) (hv : v < 10 ^ w) :
    convertItoaTo v (pre.length + w) (pre ++ List.replicate w (digit 0) ++ post) =
      some (pre ++ padded w v ++ post) := by
  have hwidth := width_le hw hv
  have hlen : (pre ++ List.replicate w (digit 0)).length = pre.length + w := by simp
  have htake : (pre ++ List.replicate w (digit 0) ++ post).take (pre.length + w - width v) =
      pre ++ List.replicate (w - width v) (digit 0) := by
    rw [List.append_assoc, Nat.add_sub_assoc hwidth, List.take_length_add_append,
      List.take_append_of_le_length (by simp), List.take_replicate, min_eq_left (by omega)]
  rw [convertItoaTo_natCast (by simp), if_pos (by omega), htake, ← hlen, List.drop_left,
    padded_eq_decimal hw hv, ← List.append_assoc pre]

/-! ### Reading a number -/

lemma charVal_of_isDigit {b : Byte} (h : IsDigit b) : charVal b = b.toNat := by
  have := h.2
  unfold charVal
  rw [Int.bmod_eq_of_le] <;> omega

lemma not_isDigit {b : Byte} : charVal b < 48 ∨ charVal b > 57 ↔ ¬ IsDigit b := by
  have hb := b.toNat_lt
  unfold IsDigit charVal
  rw [Int.bmod_def]
  split <;> omega

lemma scanDigits_append {α : Type*} {next : α → Byte → α} {val : α} {ds rest : List Byte}
    {b : Byte} (hds : ∀ c ∈ ds, IsDigit c) (hb : ¬ IsDigit b) :
    scanDigits next val (ds ++ b :: rest) = some (ds.foldl next val) := by
  induction ds generalizing val with
  | nil => rw [List.nil_append, scanDigits, if_pos (not_isDigit.mpr hb), List.foldl_nil]
  | cons c ds ih =>
    rw [List.cons_append, scanDigits, if_neg (fun h => not_isDigit.mp h (hds c (by simp))),
      ih fun d hd => hds d (by simp [hd]), List.foldl_cons]

lemma intDigit_bmod {v : ℕ} {b : Byte} (h : IsDigit b) :
    intDigit ((v : ℤ).bmod (2 ^ 32)) b = ((v * 10 + (b.toNat - 48) : ℕ) : ℤ).bmod (2 ^ 32) := by
  have h1 := h.1
  have hc : ctoi b = ((b.toNat - 48 : ℕ) : ℤ) := by
    rw [ctoi, charVal_of_isDigit h]
    omega
  rw [intDigit, hc, Int.add_bmod, Int.mul_bmod]
  simp only [Int.bmod_bmod]
  rw [← Int.mul_bmod, ← Int.add_bmod]
  push_cast
  rfl

lemma foldl_intDigit {ds : List Byte} (hds : ∀ c ∈ ds, IsDigit c) :
    ds.foldl intDigit 0 = (value ds : ℤ).bmod (2 ^ 32) := by
  induction ds using List.reverseRecOn with
  | nil => rfl
  | append_singleton ds b ih =>
    rw [List.foldl_append, List.foldl_cons, List.foldl_nil,
      ih fun c hc => hds c (by simp [hc]), intDigit_bmod (hds b (by simp)), value_concat]

lemma ulongDigit_mod {v : ℕ} {b : Byte} (h : IsDigit b) :
    ulongDigit (ulong v) b = ulong (v * 10 + (b.toNat - 48)) := by
  have h1 := h.1
  unfold ulongDigit ulong ctoi
  rw [charVal_of_isDigit h]
  omega

lemma foldl_ulongDigit {ds : List Byte} (hds : ∀ c ∈ ds, IsDigit c) :
    ds.foldl ulongDigit 0 = ulong (value ds) := by
  induction ds using List.reverseRecOn with
  | nil => rfl
  | append_singleton ds b ih =>
    rw [List.foldl_append, List.foldl_cons, List.foldl_nil,
      ih fun c hc => hds c (by simp [hc]), ulongDigit_mod (hds b (by simp)), value_concat]

end Ufix
