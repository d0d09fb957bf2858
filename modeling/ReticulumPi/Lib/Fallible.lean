import Mathlib.Data.List.Basic

/-!
# Computations that raise

Inversion rules for `Except`: what is known once a computation that may raise
an error returned. A sequence of checks, each raising when its condition holds,
is taken apart with `bind_ok` and `guard_ok`, a loop over a list with
`mapM_ok`.
-/

namespace Fallible

open List

variable {ε α β : Type}

/-- If a sequence returns, so do its parts. -/
theorem bind_ok {x : Except ε α} {f : α → Except ε β} {b : β} (h : (x >>= f) = .ok b) :
    ∃ a, x = .ok a ∧ f a = .ok b := by
  cases x with
  | error e => cases h
  | ok a => exact ⟨a, rfl, h⟩

/-- If a check that raises when `c` holds is passed, `c` does not hold. -/
theorem guard_ok {c : Prop} [Decidable c] {e : ε} {f : Unit → Except ε β} {b : β}
    (h : (if c then Except.error e >>= f else f ()) = .ok b) : ¬c ∧ f () = .ok b := by
  by_cases hc : c
  · rw [if_pos hc] at h
    cases h
  · rw [if_neg hc] at h
    exact ⟨hc, h⟩

theorem bind_ok_iff {x : Except ε α} {f : α → Except ε β} {b : β} :
    (x >>= f) = .ok b ↔ ∃ a, x = .ok a ∧ f a = .ok b :=
  ⟨bind_ok, fun ⟨a, hx, hf⟩ => by rw [hx]; exact hf⟩

theorem seq_ok_iff {x : Except ε Unit} {y : Except ε β} {b : β} :
    (x >>= fun _ => y) = .ok b ↔ x = .ok () ∧ y = .ok b := by
  rw [bind_ok_iff]
  exact ⟨fun ⟨(), hx, hy⟩ => ⟨hx, hy⟩, fun ⟨hx, hy⟩ => ⟨(), hx, hy⟩⟩

theorem ite_ok_iff {c : Prop} [Decidable c] {e : ε} {x : Except ε β} {b : β} :
    (if c then Except.error e else x) = .ok b ↔ ¬c ∧ x = .ok b := by
  by_cases hc : c <;> simp [hc]

theorem guard_ok_iff {c : Prop} [Decidable c] {e : ε} {f : Unit → Except ε β} {b : β} :
    (if c then Except.error e >>= f else f ()) = .ok b ↔ ¬c ∧ f () = .ok b := by
  refine ⟨guard_ok, ?_⟩
  rintro ⟨hc, hf⟩
  rwa [if_neg hc]

/-- A loop of checks is passed if each of its elements passes. -/
theorem forM_ok_iff {f : α → Except ε Unit} {l : List α} :
    forM l f = .ok () ↔ ∀ a ∈ l, f a = .ok () := by
  induction l with
  | nil => simp [pure, Except.pure]
  | cons a l ih =>
    rw [forM_cons, seq_ok_iff, forall_mem_cons, ih]

/-- A loop that returns has run its body on every element. -/
theorem mapM_ok {f : α → Except ε β} {l : List α} {ys : List β} (h : l.mapM f = .ok ys) :
    ∀ a ∈ l, ∃ y ∈ ys, f a = .ok y := by
  induction l generalizing ys with
  | nil => exact fun _ ha => absurd ha not_mem_nil
  | cons a l ih =>
    rw [mapM_cons] at h
    obtain ⟨y, hy, h⟩ := bind_ok h
    obtain ⟨ys', hys, h⟩ := bind_ok h
    cases h
    intro a' ha
    rcases mem_cons.1 ha with rfl | ha
    · exact ⟨y, mem_cons_self, hy⟩
    · obtain ⟨y', hy', hf⟩ := ih hys a' ha
      exact ⟨y', mem_cons_of_mem _ hy', hf⟩

end Fallible
