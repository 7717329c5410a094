import Mathlib.Data.List.Basic
import Mathlib.Tactic.Ring

/-!
Numbers as bytes, the least significant byte first.
-/

namespace Ufix.LittleEndian

/-- The lowest `k` bytes of a number. -/
def bytesOf : ℕ → ℕ → List UInt8
  | 0, _ => []
  | k + 1, n => UInt8.ofNat n :: bytesOf k (n / 256)

def numberOf : List UInt8 → ℕ
  | [] => 0
  | b :: bs => b.toNat + 256 * numberOf bs

@[simp] lemma bytesOf_length (k n : ℕ) : (bytesOf k n).length = k := by
  induction k generalizing n with
  | zero => rfl
  | succ k ih => rw [bytesOf, List.length_cons, ih]

lemma numberOf_bytesOf (k n : ℕ) : numberOf (bytesOf k n) = n % 256 ^ k := by
  induction k generalizing n with
  | zero => simp [bytesOf, numberOf, Nat.mod_one]
  | succ k ih =>
    have hlow : (UInt8.ofNat n).toNat = n % 256 := by simp
    rw [bytesOf, numberOf, ih, hlow, pow_succ', Nat.mod_mul]

lemma numberOf_bytesOf_of_lt {k n : ℕ} (h : n < 256 ^ k) : numberOf (bytesOf k n) = n := by
  rw [numberOf_bytesOf, Nat.mod_eq_of_lt h]

end Ufix.LittleEndian
