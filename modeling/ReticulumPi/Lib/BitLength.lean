import Mathlib.Data.Nat.Size
import Mathlib.Algebra.Order.Ring.Int
import Mathlib.Tactic.Ring

/-!
# Bit lengths

The bit length of an integer (`bitLength`), and how far the operations of arithmetic can
raise it: a sum takes one bit more than the longer of its terms, a product as many as its
factors together, a power as many as its base for each factor, and a quotient or a
remainder no more than one of the operands.
-/

/-- `int.bit_length` -/
def bitLength (n : ℤ) : ℕ := n.natAbs.size

theorem bitLength_le_iff {n : ℤ} {k : ℕ} : bitLength n ≤ k ↔ n.natAbs < 2 ^ k := Nat.size_le

theorem lt_two_pow_bitLength (n : ℤ) : n.natAbs < 2 ^ bitLength n := Nat.lt_size_self _

theorem bitLength_le_of_natAbs_le {m n : ℤ} (h : m.natAbs ≤ n.natAbs) :
    bitLength m ≤ bitLength n := Nat.size_le_size h

@[simp] theorem bitLength_neg (n : ℤ) : bitLength (-n) = bitLength n := by
  rw [bitLength, bitLength, Int.natAbs_neg]

@[simp] theorem bitLength_abs (n : ℤ) : bitLength |n| = bitLength n := by
  rw [bitLength, bitLength, Int.natAbs_abs]

theorem bitLength_two_pow (m : ℕ) : bitLength (2 ^ m) = m + 1 := by
  rw [bitLength, Int.natAbs_pow, show (2 : ℤ).natAbs = 2 from rfl, Nat.size_pow]

theorem bitLength_add_le {m n : ℤ} {k : ℕ} (hm : bitLength m ≤ k) (hn : bitLength n ≤ k) :
    bitLength (m + n) ≤ k + 1 := by
  rw [bitLength_le_iff] at hm hn ⊢
  have hadd : (m + n).natAbs ≤ m.natAbs + n.natAbs := Int.natAbs_add_le m n
  rw [pow_succ]
  omega

theorem bitLength_sub_le {m n : ℤ} {k : ℕ} (hm : bitLength m ≤ k) (hn : bitLength n ≤ k) :
    bitLength (m - n) ≤ k + 1 := by
  rw [sub_eq_add_neg]
  exact bitLength_add_le hm (by rwa [bitLength_neg])

theorem bitLength_mul_le (m n : ℤ) : bitLength (m * n) ≤ bitLength m + bitLength n := by
  rw [bitLength_le_iff, Int.natAbs_mul, pow_add]
  exact Nat.mul_lt_mul'' (lt_two_pow_bitLength m) (lt_two_pow_bitLength n)

theorem bitLength_pow_le (n : ℤ) (k : ℕ) : bitLength (n ^ k) ≤ max 1 (k * bitLength n) := by
  induction k with
  | zero =>
    rw [pow_zero, show bitLength 1 = 1 from Nat.size_one]
    exact le_max_left _ _
  | succ k ih =>
    rcases Nat.eq_zero_or_pos k with rfl | hk
    · rw [zero_add, pow_one, one_mul]
      exact le_max_right _ _
    rcases Nat.eq_zero_or_pos (bitLength n) with hn | hn
    · rw [bitLength, Nat.size_eq_zero, Int.natAbs_eq_zero] at hn
      rw [hn, zero_pow (Nat.succ_ne_zero k)]
      exact (Nat.zero_le 1).trans (le_max_left _ _)
    · have hpos : 1 ≤ k * bitLength n := Nat.mul_pos hk hn
      rw [max_eq_right hpos] at ih
      rw [pow_succ, Nat.succ_mul]
      exact ((bitLength_mul_le _ _).trans (Nat.add_le_add_right ih _)).trans (le_max_right _ _)

theorem bitLength_fdiv_le (m n : ℤ) : bitLength (m.fdiv n) ≤ bitLength m :=
  bitLength_le_of_natAbs_le (Int.natAbs_fdiv_le_natAbs m n)

theorem bitLength_fmod_le {m n : ℤ} (hn : n ≠ 0) : bitLength (m.fmod n) ≤ bitLength n := by
  refine bitLength_le_of_natAbs_le ?_
  have hnonneg := Int.emod_nonneg m hn
  have hlt := Int.emod_lt m hn
  rw [Int.fmod_eq_emod]
  split_ifs with h
  · omega
  · have hzero : m % n ≠ 0 := fun hmod => h (.inr (Int.dvd_of_emod_eq_zero hmod))
    omega
