import Mathlib.Algebra.Order.Group.Nat

/-!
# Doubles that are not negative

A finite double of binary64 is a whole multiple of `2 ^ (-1074)`, and given by
that multiple. A result is exact first, and then *rounded*: to 53 significant
bits, and to the even of two that are as close.

A sum of doubles may be rounded back to its first term. What is added is not
lost as long as it is more than half of what two doubles of that length differ
by (`lt_round_add`).
-/

namespace Double

/-- The double to which a whole multiple of `2 ^ (-1074)` is rounded. -/
def round (n : ℕ) : ℕ :=
  let ulp := 2 ^ (n.log2 - 52)
  if 2 * (n % ulp) < ulp ∨ 2 * (n % ulp) = ulp ∧ n / ulp % 2 = 0 then n / ulp * ulp
  else (n / ulp + 1) * ulp

variable {n m d j : ℕ}

/-- Rounding passes no power of two. -/
theorem two_pow_le_round (h : 2 ^ m ≤ n) : 2 ^ m ≤ round n := by
  have hpos : n ≠ 0 := (Nat.lt_of_lt_of_le (Nat.two_pow_pos m) h).ne'
  have hlog := Nat.log2_self_le hpos
  have hm : m ≤ n.log2 := (Nat.le_log2 hpos).2 h
  have hsplit : 2 ^ n.log2 = 2 ^ (n.log2 - (n.log2 - 52)) * 2 ^ (n.log2 - 52) := by
    rw [← Nat.pow_add, Nat.sub_add_cancel (Nat.sub_le _ _)]
  have hquotient : 2 ^ (n.log2 - (n.log2 - 52)) ≤ n / 2 ^ (n.log2 - 52) := by
    rw [Nat.le_div_iff_mul_le (Nat.two_pow_pos _), ← hsplit]
    exact hlog
  have hround : n / 2 ^ (n.log2 - 52) * 2 ^ (n.log2 - 52) ≤ round n := by
    rw [round]
    split
    · exact le_rfl
    · exact Nat.mul_le_mul_right _ (Nat.le_succ _)
  calc 2 ^ m ≤ 2 ^ n.log2 := Nat.pow_le_pow_right (by decide) hm
    _ ≤ n / 2 ^ (n.log2 - 52) * 2 ^ (n.log2 - 52) := hsplit ▸ Nat.mul_le_mul_right _ hquotient
    _ ≤ round n := hround

/-- Rounding takes no more away than half of the difference of two doubles. -/
theorem two_mul_le_round (h : n < 2 ^ (53 + j)) : 2 * n ≤ 2 * round n + 2 ^ j := by
  have hulp : 2 ^ (n.log2 - 52) ≤ 2 ^ j := by
    refine Nat.pow_le_pow_right (by decide) ?_
    rcases Nat.eq_zero_or_pos n with rfl | hpos
    · exact Nat.zero_le _
    · have := (Nat.log2_lt hpos.ne').2 h
      omega
  have hdiv := Nat.div_add_mod n (2 ^ (n.log2 - 52))
  have hmod := Nat.mod_lt n (Nat.two_pow_pos (n.log2 - 52))
  rw [round]
  generalize 2 ^ (n.log2 - 52) = ulp at *
  rw [Nat.mul_comm] at hdiv
  split_ifs with hdown
  · omega
  · rw [Nat.add_mul, Nat.one_mul]
    omega

/-- What is added to a double is not lost, if it is more than half of the difference of two. -/
theorem lt_round_add (hn : n < 2 ^ (53 + j)) (hd : 2 ^ j < 2 * d) : n < round (n + d) := by
  rcases Nat.lt_or_ge (n + d) (2 ^ (53 + j)) with h | h
  · have := two_mul_le_round h
    omega
  · exact Nat.lt_of_lt_of_le hn (two_pow_le_round h)

end Double
