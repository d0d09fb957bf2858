import Mathlib.Data.Nat.Notation

/-!
# Shift registers with feedback

A register that moves up by one place with each bit it is fed, and is combined
with a polynomial when a bit leaves it: what computes a cyclic redundancy check
bit by bit. It is linear in the register and the bits together (`feed_xor`), and
a polynomial with a constant term loses nothing: a burst of bits no longer than
the register leaves a mark on it that no zeros after it take away
(`feed_burst_ne_zero`).
-/

namespace ShiftRegister

open List

variable {w : ℕ} {poly r r' : BitVec w} {b b' : Bool} {l : List Bool} {k : ℕ}

/-- The pattern, if the bit is set. -/
def mark (b : Bool) (p : BitVec w) : BitVec w := if b then p else 0#w

/-- The register moves up; a bit that leaves it comes back as the polynomial. -/
def shift (poly r : BitVec w) : BitVec w := r <<< 1 ^^^ mark r.msb poly

/-- A bit is put in at the top of the register, before it moves. -/
def put (r : BitVec w) (b : Bool) : BitVec w := r ^^^ mark b (.twoPow w (w - 1))

/-- The register is fed with bits. -/
def feed (poly r : BitVec w) (l : List Bool) : BitVec w :=
  l.foldl (fun r b => shift poly (put r b)) r

theorem feed_append (l l' : List Bool) : feed poly r (l ++ l') = feed poly (feed poly r l) l' :=
  foldl_append

/-! ## Linearity -/

theorem mark_xor {p : BitVec w} : mark (b ^^ b') p = mark b p ^^^ mark b' p := by
  cases b <;> cases b' <;> simp [mark]

theorem shift_xor : shift poly (r ^^^ r') = shift poly r ^^^ shift poly r' := by
  rw [shift, shift, shift, BitVec.msb_xor, BitVec.shiftLeft_xor_distrib, mark_xor]
  ac_rfl

theorem put_xor : put (r ^^^ r') (b ^^ b') = put r b ^^^ put r' b' := by
  rw [put, put, put, mark_xor]
  ac_rfl

theorem feed_xor {l l' : List Bool} (h : l.length = l'.length) :
    feed poly (r ^^^ r') (List.zipWith xor l l') = feed poly r l ^^^ feed poly r' l' := by
  induction l generalizing r r' l' with
  | nil =>
    obtain rfl := eq_nil_of_length_eq_zero h.symm
    rfl
  | cons b l ih =>
    obtain ⟨b', l', rfl⟩ := exists_cons_of_length_eq_add_one h.symm
    rw [zipWith_cons_cons, feed, foldl_cons, put_xor, shift_xor]
    exact ih (Nat.succ.inj h)

/-! ## Bursts -/

theorem shift_of_msb (h : r.msb = false) : shift poly r = r <<< 1 := by
  simp [shift, h, mark]

/-- With a constant term in the polynomial, the lowest bit after a shift is the
    one that has left the register. -/
theorem msb_eq_of_shift (hp : poly.getLsbD 0 = true) (h : (shift poly r).getLsbD 0 = false) :
    r.msb = false := by
  cases hm : r.msb
  · rfl
  · simp [shift, hm, mark, hp] at h

/-- The `k` lowest bits are clear. -/
def LowClear (k : ℕ) (r : BitVec w) : Prop := ∀ i < k, r.getLsbD i = false

/-- What is clear after a step was clear one place lower before it. -/
theorem LowClear.of_step (hp : poly.getLsbD 0 = true) (hk : k + 1 ≤ w)
    (h : LowClear (k + 1) (shift poly (put r b))) : LowClear k r := by
  have hmsb : (put r b).msb = false := msb_eq_of_shift hp (h 0 (Nat.succ_pos k))
  intro i hi
  have hup := h (i + 1) (Nat.succ_lt_succ hi)
  rw [shift_of_msb hmsb, BitVec.getLsbD_shiftLeft] at hup
  have hi' : (put r b).getLsbD i = false := by simpa [show i + 1 < w by omega] using hup
  rw [put, BitVec.getLsbD_xor] at hi'
  cases b
  · simpa [mark] using hi'
  · simpa [mark, BitVec.getLsbD_twoPow, show w - 1 ≠ i by omega] using hi'

theorem LowClear.of_feed (hp : poly.getLsbD 0 = true) (hk : k + l.length ≤ w)
    (h : LowClear (k + l.length) (feed poly r l)) : LowClear k r := by
  induction l generalizing r k with
  | nil => exact h
  | cons b l ih =>
    rw [length_cons, Nat.add_comm l.length, ← Nat.add_assoc] at hk h
    exact (ih hk h).of_step hp (by omega)

theorem eq_zero_of_shift (hp : poly.getLsbD 0 = true) (h : shift poly r = 0#w) : r = 0#w := by
  have hmsb : r.msb = false := msb_eq_of_shift hp (by rw [h, BitVec.getLsbD_zero])
  rw [shift_of_msb hmsb] at h
  refine BitVec.eq_of_getLsbD_eq fun i hi => ?_
  rw [BitVec.getLsbD_zero]
  rcases Nat.lt_or_ge (i + 1) w with hlt | hge
  · have hup : (r <<< 1).getLsbD (i + 1) = false := by rw [h, BitVec.getLsbD_zero]
    rw [BitVec.getLsbD_shiftLeft] at hup
    simpa [hlt] using hup
  · rw [BitVec.msb_eq_getLsbD_last] at hmsb
    rwa [show i = w - 1 by omega]

theorem put_false : put r false = r := by simp [put, mark]

/-- Zeros do not clear a register. -/
theorem eq_zero_of_feed_zeros (hp : poly.getLsbD 0 = true) {n : ℕ}
    (h : feed poly r (List.replicate n false) = 0#w) : r = 0#w := by
  induction n generalizing r with
  | zero => exact h
  | succ n ih =>
    have hstep : shift poly (put r false) = 0#w := ih h
    rw [put_false] at hstep
    exact eq_zero_of_shift hp hstep

/-- Nor do they change one that is clear. -/
theorem feed_zeros (n : ℕ) : feed poly 0#w (List.replicate n false) = 0#w := by
  induction n with
  | zero => rfl
  | succ n ih =>
    have hstep : shift poly (put 0#w false) = 0#w := by simp [put, shift, mark]
    rw [replicate_succ, feed, foldl_cons, hstep]
    exact ih

/-- A burst no longer than the register leaves a mark on it, whatever zeros come
    before and after it. -/
theorem feed_burst_ne_zero (hp : poly.getLsbD 0 = true) (hl : l.length ≤ w) (ht : true ∈ l)
    (m n : ℕ) : feed poly 0#w (List.replicate m false ++ l ++ List.replicate n false) ≠ 0#w := by
  intro h
  rw [feed_append, feed_append, feed_zeros] at h
  have hl' := eq_zero_of_feed_zeros hp h
  clear h
  induction l with
  | nil => cases ht
  | cons b l ih =>
    cases b with
    | false =>
      refine ih (Nat.le_of_succ_le hl) (by simpa using ht) ?_
      have hstep : shift poly (put 0#w false) = 0#w := by simp [put, shift, mark]
      rwa [feed, foldl_cons, hstep] at hl'
    | true =>
      -- Right after the first bit, the lowest bit of the register is set.
      have hclear : LowClear 1 (shift poly (put 0#w true)) := by
        refine LowClear.of_feed hp (l := l) (by simpa [Nat.add_comm] using hl) ?_
        change LowClear _ (feed poly 0#w (true :: l))
        rw [hl']
        exact fun i _ => BitVec.getLsbD_zero
      have hbit := msb_eq_of_shift hp (hclear 0 Nat.one_pos)
      have hw : 0 < w := Nat.lt_of_lt_of_le (Nat.succ_pos _) hl
      rw [put, BitVec.msb_xor, mark, if_pos rfl, BitVec.msb_twoPow] at hbit
      simp at hbit
      omega

end ShiftRegister
