import Mathlib.Algebra.Ring.Nat
import ReticulumPi.Lib.Codec

/-!
# Byte strings with their length before them

A byte string is *framed* by its length in a fixed number of bytes, the highest
first, before it. What follows one frame is another one, so that a sequence of byte
strings can be read back from its frames (`flatMap_frame_inj`), as long as the
lengths fit.
-/

namespace Framing

open PyCodec List

/-- `int.to_bytes(width, "big")`, of a number that fits. -/
def bigEndian : ℕ → ℕ → List Byte
  | 0, _ => []
  | width + 1, n => bigEndian width (n / 0x100) ++ [byte n]

def frame (width : ℕ) (v : List Byte) : List Byte := bigEndian width v.length ++ v

/-- The length of the byte string can be written. -/
def Fits (width : ℕ) (v : List Byte) : Prop := v.length < 0x100 ^ width
deriving Decidable

variable {width m n : ℕ} {v v' r r' : List Byte} {l l' : List (List Byte)}

theorem length_bigEndian : (bigEndian width n).length = width := by
  induction width generalizing n with
  | zero => rfl
  | succ width ih => rw [bigEndian, length_append, ih, length_singleton]

theorem bigEndian_inj (hm : m < 0x100 ^ width) (hn : n < 0x100 ^ width)
    (h : bigEndian width m = bigEndian width n) : m = n := by
  induction width generalizing m n with
  | zero =>
    rw [pow_zero] at hm hn
    omega
  | succ width ih =>
    rw [pow_succ] at hm hn
    obtain ⟨hhigh, hlow⟩ := append_inj h (length_bigEndian.trans length_bigEndian.symm)
    have hdiv : m / 0x100 = n / 0x100 := by
      exact ih (Nat.div_lt_of_lt_mul (by omega)) (Nat.div_lt_of_lt_mul (by omega)) hhigh
    have hmod : m % 0x100 = n % 0x100 := congrArg Fin.val (head_eq_of_cons_eq hlow)
    omega

/-- The first of two framed byte strings can be told from what follows it. -/
theorem frame_append_inj (hv : Fits width v) (hv' : Fits width v')
    (h : frame width v ++ r = frame width v' ++ r') : v = v' ∧ r = r' := by
  rw [frame, frame, append_assoc, append_assoc] at h
  obtain ⟨hlength, hrest⟩ := append_inj h (length_bigEndian.trans length_bigEndian.symm)
  exact append_inj hrest (bigEndian_inj hv hv' hlength)

theorem frame_ne_nil (hwidth : width ≠ 0) : frame width v ≠ [] := fun h => by
  have hlength := congrArg List.length (append_eq_nil_iff.1 h).1
  rw [length_bigEndian, length_nil] at hlength
  exact hwidth hlength

/-- The byte strings can be read back from their frames. -/
theorem flatMap_frame_inj (hwidth : width ≠ 0) (hl : ∀ v ∈ l, Fits width v)
    (hl' : ∀ v ∈ l', Fits width v) (h : l.flatMap (frame width) = l'.flatMap (frame width)) :
    l = l' := by
  induction l generalizing l' with
  | nil =>
    rcases l' with _ | ⟨v', l'⟩
    · rfl
    · rw [flatMap_nil, flatMap_cons] at h
      exact absurd (append_eq_nil_iff.1 h.symm).1 (frame_ne_nil hwidth)
  | cons v l ih =>
    rcases l' with _ | ⟨v', l'⟩
    · rw [flatMap_nil, flatMap_cons] at h
      exact absurd (append_eq_nil_iff.1 h).1 (frame_ne_nil hwidth)
    · rw [flatMap_cons, flatMap_cons] at h
      obtain ⟨rfl, hrest⟩ :=
        frame_append_inj (hl v mem_cons_self) (hl' v' mem_cons_self) h
      rw [ih (fun v hv => hl v (mem_cons_of_mem _ hv))
        (fun v hv => hl' v (mem_cons_of_mem _ hv)) hrest]

end Framing
