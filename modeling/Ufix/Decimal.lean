import Mathlib.Algebra.Ring.Nat
import Mathlib.Data.List.Induction
import Mathlib.Data.Nat.Log

/-!
Decimal numbers in ASCII: a number written with a given number of digits, its shortest
writing, and the value of a string of digits.
-/

namespace Ufix.Decimal

def digit (d : ℕ) : UInt8 := UInt8.ofNat (48 + d)

def IsDigit (b : UInt8) : Prop := 48 ≤ b.toNat ∧ b.toNat ≤ 57

instance : DecidablePred IsDigit := fun _ => inferInstanceAs (Decidable (_ ∧ _))

/-- The last `w` digits of `v`. -/
def padded : ℕ → ℕ → List UInt8
  | 0, _ => []
  | w + 1, v => padded w (v / 10) ++ [digit (v % 10)]

/-- How many digits a number has; `0` has one. -/
def width (v : ℕ) : ℕ := Nat.log 10 v + 1

def decimal (v : ℕ) : List UInt8 := padded (width v) v

def value (l : List UInt8) : ℕ := l.foldl (fun v b => v * 10 + (b.toNat - 48)) 0

lemma digit_toNat {d : ℕ} (h : d < 10) : (digit d).toNat = 48 + d := by
  simp only [digit, UInt8.toNat_ofNat']
  omega

lemma isDigit_digit {d : ℕ} (h : d < 10) : IsDigit (digit d) := by
  unfold IsDigit
  rw [digit_toNat h]
  omega

@[simp] lemma padded_length (w v : ℕ) : (padded w v).length = w := by
  induction w generalizing v with
  | zero => rfl
  | succ w ih => simp [padded, ih]

lemma isDigit_of_mem_padded {w v : ℕ} {b : UInt8} (h : b ∈ padded w v) : IsDigit b := by
  induction w generalizing v with
  | zero => cases h
  | succ w ih =>
    rcases List.mem_append.mp h with h | h
    · exact ih h
    · rw [List.mem_singleton.mp h]
      exact isDigit_digit (Nat.mod_lt _ (by omega))

lemma padded_succ (w v : ℕ) : padded (w + 1) v = digit (v / 10 ^ w % 10) :: padded w v := by
  induction w generalizing v with
  | zero => simp [padded]
  | succ w ih =>
    have h : v / 10 / 10 ^ w = v / 10 ^ (w + 1) := by rw [Nat.div_div_eq_div_mul, Nat.pow_succ']
    rw [padded, ih, h, List.cons_append]
    rfl

/-! ### Reading back -/

lemma value_concat (l : List UInt8) (b : UInt8) :
    value (l ++ [b]) = value l * 10 + (b.toNat - 48) := by
  simp [value]

lemma value_le_append (l l' : List UInt8) : value l ≤ value (l ++ l') := by
  induction l' using List.reverseRecOn with
  | nil => simp
  | append_singleton l' b ih =>
    rw [← List.append_assoc, value_concat]
    omega

lemma value_padded (w v : ℕ) : value (padded w v) = v % 10 ^ w := by
  induction w generalizing v with
  | zero => simp [padded, value, Nat.mod_one]
  | succ w ih =>
    have hd := digit_toNat (Nat.mod_lt v (show 0 < 10 by omega))
    have hmod : v % 10 ^ (w + 1) = v % 10 + 10 * (v / 10 % 10 ^ w) := by
      rw [Nat.pow_succ', Nat.mod_mul]
    rw [padded, value_concat, ih, hd, hmod]
    omega

lemma value_padded_of_lt {w v : ℕ} (h : v < 10 ^ w) : value (padded w v) = v := by
  rw [value_padded, Nat.mod_eq_of_lt h]

lemma padded_value {l : List UInt8} (h : ∀ b ∈ l, IsDigit b) : padded l.length (value l) = l := by
  induction l using List.reverseRecOn with
  | nil => rfl
  | append_singleton l b ih =>
    obtain ⟨h1, h2⟩ := h b (by simp)
    have hdiv : (value l * 10 + (b.toNat - 48)) / 10 = value l := by omega
    have hmod : (value l * 10 + (b.toNat - 48)) % 10 = b.toNat - 48 := by omega
    have hdigit : digit (b.toNat - 48) = b := by
      rw [← UInt8.toNat_inj, digit_toNat (by omega)]
      omega
    rw [List.length_append, List.length_singleton, value_concat]
    calc padded (l.length + 1) (value l * 10 + (b.toNat - 48))
        = padded l.length (value l) ++ [digit (b.toNat - 48)] := by rw [padded, hdiv, hmod]
      _ = l ++ [b] := by rw [hdigit, ih fun c hc => h c (by simp [hc])]

lemma value_lt {l : List UInt8} (h : ∀ b ∈ l, IsDigit b) : value l < 10 ^ l.length := by
  have hmod := value_padded l.length (value l)
  rw [padded_value h] at hmod
  rw [hmod]
  exact Nat.mod_lt _ (Nat.pow_pos (by omega))

lemma padded_add {w v : ℕ} (n : ℕ) (h : v < 10 ^ w) :
    padded (n + w) v = List.replicate n (digit 0) ++ padded w v := by
  induction n with
  | zero => rw [Nat.zero_add, List.replicate_zero, List.nil_append]
  | succ n ih =>
    have hle : 10 ^ w ≤ 10 ^ (n + w) := Nat.pow_le_pow_right (by omega) (by omega)
    rw [show n + 1 + w = n + w + 1 by omega, padded_succ, ih,
      Nat.div_eq_of_lt (lt_of_lt_of_le h hle), Nat.zero_mod, List.replicate_succ, List.cons_append]

lemma lt_pow_width (v : ℕ) : v < 10 ^ width v := Nat.lt_pow_succ_log_self (by omega) v

@[simp] lemma value_decimal (v : ℕ) : value (decimal v) = v := value_padded_of_lt (lt_pow_width v)

lemma width_le {w v : ℕ} (hw : 1 ≤ w) (h : v < 10 ^ w) : width v ≤ w := by
  have hlog := Nat.log_lt_of_lt_pow' (by omega) h
  unfold width
  omega

lemma padded_eq_decimal {w v : ℕ} (hw : 1 ≤ w) (h : v < 10 ^ w) :
    padded w v = List.replicate (w - width v) (digit 0) ++ decimal v := by
  have hle := width_le hw h
  rw [decimal, ← padded_add _ (lt_pow_width v), Nat.sub_add_cancel hle]

@[simp] lemma decimal_length (v : ℕ) : (decimal v).length = width v := padded_length _ _

lemma one_le_width (v : ℕ) : 1 ≤ width v := Nat.succ_pos _

lemma lt_width {w v : ℕ} (h : 10 ^ w ≤ v) : w < width v := by
  have hlog := Nat.le_log_of_pow_le (by omega) h
  unfold width
  omega

lemma width_of_lt {v : ℕ} (h : v < 10) : width v = 1 := by
  rw [width, Nat.log_of_lt h]

lemma width_of_le {v : ℕ} (h : 10 ≤ v) : width v = width (v / 10) + 1 := by
  rw [width, width, Nat.log_of_one_lt_of_le (by omega) h]

lemma decimal_of_lt {v : ℕ} (h : v < 10) : decimal v = [digit v] := by
  rw [decimal, width_of_lt h, padded, Nat.mod_eq_of_lt h]
  rfl

lemma decimal_of_le {v : ℕ} (h : 10 ≤ v) : decimal v = decimal (v / 10) ++ [digit (v % 10)] := by
  rw [decimal, width_of_le h, padded]
  rfl

lemma isDigit_of_mem_decimal {v : ℕ} {b : UInt8} (h : b ∈ decimal v) : IsDigit b :=
  isDigit_of_mem_padded h

lemma decimal_eq_cons {v : ℕ} (hv : v ≠ 0) :
    ∃ d l, decimal v = digit d :: l ∧ 1 ≤ d ∧ d < 10 := by
  refine ⟨v / 10 ^ Nat.log 10 v % 10, padded (Nat.log 10 v) v, padded_succ _ _, ?_,
    Nat.mod_lt _ (by omega)⟩
  have h1 : 10 ^ Nat.log 10 v ≤ v := Nat.pow_log_le_self 10 hv
  have h2 : v < 10 ^ (Nat.log 10 v + 1) := Nat.lt_pow_succ_log_self (by omega) v
  have h3 : 1 ≤ v / 10 ^ Nat.log 10 v := Nat.div_pos h1 (Nat.pow_pos (by omega))
  have h4 : v / 10 ^ Nat.log 10 v < 10 := by
    rw [Nat.div_lt_iff_lt_mul (Nat.pow_pos (by omega)), ← Nat.pow_succ']
    exact h2
  rw [Nat.mod_eq_of_lt h4]
  exact h3

end Ufix.Decimal
