import Mathlib.Algebra.Ring.Nat
import Mathlib.Data.List.GetD
import Mathlib.Data.List.Induction
import Mathlib.Order.Nat

/-!
# Numbers by their bits

What loops that build numbers out of bits make: by shifting in one bit after
the other, the first being the most significant, or by setting the bits in
their places; rotations of the bits of a number; and numbers that differ in one
bit at most.
-/

namespace Bits

open List

/-- The bit `i` of `x`, as a number. -/
theorem testBit_bit (x i j : ℕ) :
    ((x >>> i) &&& 1).testBit j = (decide (j = 0) && x.testBit i) := by
  rw [Nat.testBit_and, Nat.testBit_shiftRight]
  rcases j with _ | j
  · simp
  · simp [Nat.testBit_succ]

/-- The bits shifted in, one of each element of a list, stand in reverse order. -/
theorem testBit_foldl_shift (l : List ℕ) (i j : ℕ) :
    (l.foldl (fun acc x => (acc <<< 1) ||| ((x >>> i) &&& 1)) 0).testBit j =
      (decide (j < l.length) && (l.getD (l.length - 1 - j) 0).testBit i) := by
  induction l using List.reverseRecOn generalizing j with
  | nil => simp
  | append_singleton l x ih =>
    rw [foldl_append, foldl_cons, foldl_nil, Nat.testBit_or, testBit_bit,
      Nat.testBit_shiftLeft, length_append, length_singleton]
    rcases j with _ | j
    · -- The bit shifted in last.
      simp
    · have hindex : l.length + 1 - 1 - (j + 1) = l.length - 1 - j := by omega
      rw [Nat.add_sub_cancel, ih, hindex]
      by_cases hj : j < l.length
      · rw [getD_append _ _ _ _ (by omega)]
        simp [hj]
      · simp [hj]

/-- Bits set in their places, one for each number below `n`. -/
theorem testBit_foldl_set {n : ℕ} (f : ℕ → ℕ) (place : ℕ → ℕ) (i j : ℕ) :
    ((List.range n).foldl (fun acc k => acc ||| (((f k >>> i) &&& 1) <<< place k)) 0).testBit j =
      (List.range n).any fun k => decide (j = place k) && (f k).testBit i := by
  induction n with
  | zero => simp
  | succ n ih =>
    rw [range_succ, foldl_append, foldl_cons, foldl_nil, Nat.testBit_or, ih,
      any_append, Nat.testBit_shiftLeft, testBit_bit]
    have hplace : (decide (j ≥ place n) && (decide (j - place n = 0) && (f n).testBit i)) =
        (decide (j = place n) && (f n).testBit i) := by
      by_cases hj : j = place n
      · simp [hj]
      · by_cases hle : place n ≤ j
        · simp [hj, show j - place n ≠ 0 by omega]
        · simp [hj, hle]
    rw [hplace]
    simp

/-- A list whose elements a loop changes in place is changed element by element. -/
theorem getElem?_foldl_mapIdx {α β : Type*} (g : β → ℕ → α → α) (l : List β) (rows : List α)
    (i : ℕ) : (l.foldl (fun rows b => rows.mapIdx (g b)) rows)[i]? =
      rows[i]?.map fun r => l.foldl (fun r b => g b i r) r := by
  induction l generalizing rows with
  | nil => simp
  | cons b l ih =>
    rw [foldl_cons, ih, getElem?_mapIdx, Option.map_map]
    rfl

/-! ## Rotations -/

/-- The bits of `val`, of which there are `width`, rotated to the left `k` times. -/
def rotateLeft (val k width : ℕ) : ℕ :=
  let k := k % width
  if k = 0 then val
  else ((val <<< k) ||| (val >>> (width - k))) &&& ((1 <<< width) - 1)

/-- The bits of `val`, of which there are `width`, rotated to the right `k` times. -/
def rotateRight (val k width : ℕ) : ℕ := rotateLeft val (width - k % width) width

theorem testBit_rotateLeft {val width : ℕ} (h : val < 2 ^ width) (hw : 0 < width) (k j : ℕ) :
    (rotateLeft val k width).testBit j =
      (decide (j < width) && val.testBit ((j + (width - k % width)) % width)) := by
  have hhigh : ∀ i, width ≤ i → val.testBit i = false := fun i hi =>
    Nat.testBit_lt_two_pow (h.trans_le (Nat.pow_le_pow_right (by omega) hi))
  have hk := Nat.mod_lt k hw
  rw [rotateLeft]
  by_cases hzero : k % width = 0
  · rw [if_pos hzero, hzero, Nat.sub_zero, Nat.add_mod_right]
    by_cases hj : j < width
    · rw [Nat.mod_eq_of_lt hj]
      simp [hj]
    · simp [hj, hhigh j (by omega)]
  · rw [if_neg hzero, Nat.testBit_and, Nat.testBit_or, Nat.testBit_shiftLeft,
      Nat.testBit_shiftRight, Nat.one_shiftLeft, Nat.testBit_two_pow_sub_one]
    by_cases hj : j < width
    · by_cases hle : k % width ≤ j
      · -- The bit comes from `k` places below.
        have hmod : (j + (width - k % width)) % width = j - k % width := by
          rw [show j + (width - k % width) = j - k % width + width by omega, Nat.add_mod_right,
            Nat.mod_eq_of_lt (by omega)]
        rw [hmod, hhigh (width - k % width + j) (by omega)]
        simp [hj, hle]
      · -- The bit comes round from the top.
        have hmod : (j + (width - k % width)) % width = width - k % width + j := by
          rw [Nat.mod_eq_of_lt (by omega), Nat.add_comm]
        rw [hmod]
        simp [hj, hle]
    · simp [hj]

theorem testBit_rotateRight {val width : ℕ} (h : val < 2 ^ width) (hw : 0 < width) (k j : ℕ) :
    (rotateRight val k width).testBit j =
      (decide (j < width) && val.testBit ((j + k) % width)) := by
  have hk := Nat.mod_lt k hw
  rw [rotateRight, testBit_rotateLeft h hw]
  congr 2
  by_cases hzero : k % width = 0
  · rw [hzero, Nat.sub_zero, Nat.mod_self, Nat.sub_zero, Nat.add_mod_right, Nat.add_mod j k, hzero,
      Nat.add_zero, Nat.mod_mod]
  · rw [Nat.mod_eq_of_lt (show width - k % width < width by omega),
      show width - (width - k % width) = k % width by omega, Nat.add_mod_mod]

/-- Moved round by `k` places and back, a place is where it was. -/
theorem add_mod_back {width : ℕ} (hw : 0 < width) (k : ℕ) {j : ℕ} (hj : j < width) :
    ((j + k) % width + (width - k % width)) % width = j := by
  have hk := Nat.mod_lt k hw
  have hround : j + k + (width - k % width) = j + width * (k / width + 1) := by
    have := Nat.div_add_mod k width
    rw [Nat.mul_add]
    omega
  rw [Nat.mod_add_mod, hround, Nat.add_mul_mod_self_left, Nat.mod_eq_of_lt hj]

/-- Rotated to the left and back, a bit is where it was. -/
theorem testBit_rotateLeft_add {val width : ℕ} (h : val < 2 ^ width) (hw : 0 < width) (k : ℕ)
    {j : ℕ} (hj : j < width) :
    (rotateLeft val k width).testBit ((j + k) % width) = val.testBit j := by
  rw [testBit_rotateLeft h hw, decide_eq_true (Nat.mod_lt _ hw), Bool.true_and,
    add_mod_back hw k hj]

/-! ## Single bits -/

/-- Numbers that agree but for one bit are equal, or are so once it is flipped. -/
theorem eq_or_eq_xor {x y p : ℕ} (h : ∀ j, j ≠ p → x.testBit j = y.testBit j) :
    x = y ∨ x = y ^^^ (1 <<< p) := by
  by_cases hp : x.testBit p = y.testBit p
  · refine .inl (Nat.eq_of_testBit_eq fun j => ?_)
    by_cases hj : j = p
    · rw [hj, hp]
    · exact h j hj
  · refine .inr (Nat.eq_of_testBit_eq fun j => ?_)
    rw [Nat.testBit_xor, Nat.one_shiftLeft, Nat.testBit_two_pow]
    by_cases hj : j = p
    · subst hj
      simpa using Bool.eq_not.2 hp
    · rw [h j hj]
      simp [Ne.symm hj]

end Bits
