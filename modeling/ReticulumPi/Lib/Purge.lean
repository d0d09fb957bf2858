import Mathlib.Data.List.Basic

/-!
# Runs without the hidden inputs

A machine takes an input, changes its state and puts something out. Some of the
inputs are *visible*, the others *hidden*; the hidden ones do not interfere if
a run and the same run without them put out the same at the visible inputs.
For this it is enough to have a relation between the states of the two runs
that the visible inputs keep, at which related states put out the same, and
that the hidden ones keep in the one run while nothing happens in the other
(`Unwinding.purge`).
-/

namespace Purge

open List

variable {σ ι ο : Type*} (step : σ → ι → σ × ο)

/-- The inputs of a run, each with what is put out at it. -/
def trace : σ → List ι → List (ι × ο)
  | _, [] => []
  | s, e :: l => (e, (step s e).2) :: trace (step s e).1 l

/-- The state after a run. -/
def final (s : σ) (l : List ι) : σ := l.foldl (fun s e => (step s e).1) s

/-- Every input of the run comes in a state in which `ok` allows it. -/
def Allowed (ok : σ → ι → Prop) : σ → List ι → Prop
  | _, [] => True
  | s, e :: l => ok s e ∧ Allowed ok (step s e).1 l

instance decidableAllowed (ok : σ → ι → Prop) [∀ s e, Decidable (ok s e)] :
    (s : σ) → (l : List ι) → Decidable (Allowed step ok s l)
  | _, [] => inferInstanceAs (Decidable True)
  | s, e :: l =>
    have := decidableAllowed ok (step s e).1 l
    inferInstanceAs (Decidable (_ ∧ _))

/-- Related states are told apart by no visible input, and stay related to what
    they are after a hidden one. -/
structure Unwinding (visible : ι → Bool) (ok : σ → ι → Prop) (R : σ → σ → Prop) : Prop where
  consistent : ∀ s t e, R s t → visible e = true →
    (step s e).2 = (step t e).2 ∧ R (step s e).1 (step t e).1
  hidden : ∀ s t e, R s t → ok s e → visible e = false → R (step s e).1 t

variable {step} {visible : ι → Bool} {ok : σ → ι → Prop} {R : σ → σ → Prop}

/-- Taking the hidden inputs out of a run changes nothing at the others. -/
theorem Unwinding.purge (h : Unwinding step visible ok R) {s t : σ} {l : List ι} (hst : R s t)
    (hl : Allowed step ok s l) :
    (trace step s l).filter (fun p => visible p.1) = trace step t (l.filter visible) ∧
      R (final step s l) (final step t (l.filter visible)) := by
  induction l generalizing s t with
  | nil => exact ⟨rfl, hst⟩
  | cons e l ih =>
    cases hv : visible e with
    | true =>
      obtain ⟨hout, hst'⟩ := h.consistent s t e hst hv
      obtain ⟨htrace, hfinal⟩ := ih hst' hl.2
      have hkeep : (e :: l).filter visible = e :: l.filter visible := filter_cons_of_pos hv
      rw [hkeep, trace, trace, ← htrace, ← hout]
      exact ⟨filter_cons_of_pos hv, hfinal⟩
    | false =>
      obtain ⟨htrace, hfinal⟩ := ih (h.hidden s t e hst hl.1 hv) hl.2
      have hv' : ¬visible e = true := by simp [hv]
      have hdrop : (e :: l).filter visible = l.filter visible := filter_cons_of_neg hv'
      rw [hdrop, trace, ← htrace]
      exact ⟨filter_cons_of_neg hv', hfinal⟩

/-- What is put out at an input is put out in a state in which it is allowed. -/
theorem mem_trace {s : σ} {l : List ι} (hl : Allowed step ok s l) {p : ι × ο}
    (hp : p ∈ trace step s l) : ∃ s', ok s' p.1 ∧ p.2 = (step s' p.1).2 := by
  induction l generalizing s with
  | nil => cases hp
  | cons e l ih =>
    rcases mem_cons.1 hp with rfl | hp
    · exact ⟨s, hl.1, rfl⟩
    · exact ih hl.2 hp

/-! ## Runs of a partial machine -/

/-- As `Unwinding`, for a machine that may refuse an input: what the one run takes of the visible
    inputs, the other takes too. -/
structure PartialUnwinding (next : σ → ι → Option σ) (visible : ι → Bool) (R : σ → σ → Prop) :
    Prop where
  consistent : ∀ s s' t e, R s t → visible e = true → next s e = some s' →
    ∃ t', next t e = some t' ∧ R s' t'
  hidden : ∀ s s' t e, R s t → visible e = false → next s e = some s' → R s' t

/-- The run without its hidden inputs is a run, and ends in a related state. -/
theorem PartialUnwinding.purge {next : σ → ι → Option σ} (h : PartialUnwinding next visible R)
    {s s' t : σ} {l : List ι} (hst : R s t) (hl : l.foldlM next s = some s') :
    ∃ t', (l.filter visible).foldlM next t = some t' ∧ R s' t' := by
  induction l generalizing s t with
  | nil =>
    cases hl
    exact ⟨t, rfl, hst⟩
  | cons e l ih =>
    rw [foldlM_cons] at hl
    obtain ⟨s₁, hs₁, hl⟩ := Option.bind_eq_some_iff.1 hl
    cases hv : visible e with
    | true =>
      obtain ⟨t₁, ht₁, hst₁⟩ := h.consistent s s₁ t e hst hv hs₁
      obtain ⟨t', ht', hst'⟩ := ih hst₁ hl
      refine ⟨t', ?_, hst'⟩
      rw [filter_cons_of_pos hv, foldlM_cons, ht₁]
      exact ht'
    | false =>
      obtain ⟨t', ht', hst'⟩ := ih (h.hidden s s₁ t e hst hv hs₁) hl
      refine ⟨t', ?_, hst'⟩
      rw [filter_cons_of_neg (by simp [hv])]
      exact ht'

end Purge
