import Mathlib.Data.List.Forall2

/-!
# Lists that are related element by element

What holds of the elements of one list carries over to those of the other.
-/

namespace List.Forall₂

open List

variable {α β : Type*} {R : α → β → Prop} {l : List α} {l' : List β}

theorem exists_left {b : β} (h : Forall₂ R l l') (hb : b ∈ l') : ∃ a ∈ l, R a b := by
  induction h with
  | nil => cases hb
  | cons hab _ ih =>
    rcases mem_cons.1 hb with rfl | hb
    · exact ⟨_, mem_cons_self, hab⟩
    · obtain ⟨a, ha, h⟩ := ih hb
      exact ⟨a, mem_cons_of_mem _ ha, h⟩

/-- An order of the one list becomes an order of the other. -/
theorem pairwise {S : α → α → Prop} {T : β → β → Prop} (h : Forall₂ R l l')
    (hl : l.Pairwise S)
    (hST : ∀ a ∈ l, ∀ a' ∈ l, ∀ b b', R a b → R a' b' → S a a' → T b b') : l'.Pairwise T := by
  induction h with
  | nil => exact .nil
  | cons hab h ih =>
    rw [pairwise_cons] at hl ⊢
    refine ⟨fun b' hb' => ?_, ih hl.2 fun a ha a' ha' =>
      hST a (mem_cons_of_mem _ ha) a' (mem_cons_of_mem _ ha')⟩
    obtain ⟨a', ha', hab'⟩ := h.exists_left hb'
    exact hST _ mem_cons_self a' (mem_cons_of_mem _ ha') _ _ hab hab' (hl.1 a' ha')

end List.Forall₂
