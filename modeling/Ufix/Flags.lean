import Mathlib.Algebra.Order.Group.Nat

/-!
A set of flags kept in one number, each flag a power of two, with the remainder test and the plain
addition that such code uses in place of bit operations.
-/

namespace Ufix.Flags

/-- The test by a remainder. -/
def isSet (n flag : ℕ) : Bool := n % (2 * flag) ≥ flag

lemma isSet_two_pow (n k : ℕ) : isSet n (2 ^ k) = n.testBit k := by
  have hmod : n % (2 * 2 ^ k) = n % 2 ^ k + 2 ^ k * (n / 2 ^ k % 2) := by
    rw [Nat.mul_comm 2, Nat.mod_mul]
  have hlt : n % 2 ^ k < 2 ^ k := Nat.mod_lt _ (Nat.two_pow_pos k)
  rw [isSet, hmod, Nat.testBit_eq_decide_div_mod_eq]
  rcases Nat.mod_two_eq_zero_or_one (n / 2 ^ k) with h | h
  · rw [h, Nat.mul_zero, Nat.add_zero]
    simp [hlt]
  · rw [h, Nat.mul_one]
    simp

/-- **Adding a flag that is not set sets it**, and leaves the others as they are. -/
theorem testBit_add_two_pow {n i : ℕ} (h : n.testBit i = false) (j : ℕ) :
    (n + 2 ^ i).testBit j = (n.testBit j || decide (j = i)) := by
  have hsplit : n = 2 ^ (i + 1) * (n / 2 ^ (i + 1)) + n % 2 ^ (i + 1) :=
    (Nat.div_add_mod n _).symm
  -- without bit `i` there is room below `2 ^ (i + 1)`
  have hlow : n % 2 ^ (i + 1) < 2 ^ i := by
    have hlt : n % 2 ^ i < 2 ^ i := Nat.mod_lt _ (Nat.two_pow_pos i)
    rw [Nat.pow_succ, Nat.mod_mul]
    rw [Nat.testBit_eq_decide_div_mod_eq, decide_eq_false_iff_not] at h
    rw [show n / 2 ^ i % 2 = 0 by omega]
    omega
  generalize n / 2 ^ (i + 1) = a at hsplit
  generalize n % 2 ^ (i + 1) = b at hsplit hlow
  have hpow : 2 ^ (i + 1) = 2 ^ i + 2 ^ i := by omega
  have hbit : (b + 2 ^ i).testBit j = if j < i then b.testBit j else decide (j = i) := by
    have hmul := Nat.testBit_two_pow_mul_add 1 hlow j
    rw [Nat.mul_one, Nat.add_comm] at hmul
    rw [hmul]
    split
    · rfl
    · rw [Bool.eq_iff_iff, Nat.testBit_one_eq_true_iff_self_eq_zero, decide_eq_true_eq]
      omega
  subst hsplit
  rw [Nat.add_assoc, Nat.testBit_two_pow_mul_add a (by omega : b + 2 ^ i < 2 ^ (i + 1)),
    Nat.testBit_two_pow_mul_add a (by omega : b < 2 ^ (i + 1))]
  split
  · rw [hbit]
    split
    · rw [decide_eq_false (by omega), Bool.or_false]
    · rw [Nat.testBit_lt_two_pow (lt_of_lt_of_le hlow (Nat.pow_le_pow_right (by omega) (by omega))),
        Bool.false_or]
  · rw [decide_eq_false (by omega), Bool.or_false]

lemma add_two_pow_lt {n i w : ℕ} (hn : n < 2 ^ w) (hi : i < w) (h : n.testBit i = false) :
    n + 2 ^ i < 2 ^ w := by
  apply Nat.lt_pow_two_of_testBit
  intro j hj
  rw [testBit_add_two_pow h, decide_eq_false (by omega), Bool.or_false]
  exact Nat.testBit_lt_two_pow (lt_of_lt_of_le hn (Nat.pow_le_pow_right (by omega) hj))

lemma eq_of_testBit {n m w : ℕ} (hn : n < 2 ^ w) (hm : m < 2 ^ w)
    (h : ∀ i < w, n.testBit i = m.testBit i) : n = m := by
  apply Nat.eq_of_testBit_eq
  intro i
  rcases Nat.lt_or_ge i w with hi | hi
  · exact h i hi
  · have hpow : 2 ^ w ≤ 2 ^ i := Nat.pow_le_pow_right (by omega) hi
    rw [Nat.testBit_lt_two_pow (lt_of_lt_of_le hn hpow),
      Nat.testBit_lt_two_pow (lt_of_lt_of_le hm hpow)]

end Ufix.Flags
