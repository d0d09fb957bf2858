import Mathlib.Data.List.Basic

/-!
# What a history says about the past

Past-time operators on a history that lists its entries newest first: how long
a property has held without a break (`streak`), that it has held since some
entry (`Since`), and that a statement about histories was true at every moment
(`Throughout`).
-/

namespace Past

variable {α : Type*} {p q : α → Prop} {a : α} {l : List α}

/-- The number of latest entries that all have the property `p`. -/
def streak (p : α → Prop) [DecidablePred p] (l : List α) : ℕ :=
  (l.takeWhile (p ·)).length

/-- Some entry has the property `q`, and all entries after it have `p`. -/
def Since (p q : α → Prop) : List α → Prop
  | [] => False
  | a :: l => q a ∨ (p a ∧ Since p q l)

/-- The statement was true of the history at every moment so far. -/
def Throughout (P : List α → Prop) (l : List α) : Prop := ∀ l', l' <:+ l → P l'

instance decidableSince (p q : α → Prop) [DecidablePred p] [DecidablePred q] :
    (l : List α) → Decidable (Since p q l)
  | [] => inferInstanceAs (Decidable False)
  | a :: l =>
    have := decidableSince p q l
    inferInstanceAs (Decidable (q a ∨ (p a ∧ Since p q l)))

theorem streak_cons_of_pos [DecidablePred p] (h : p a) : streak p (a :: l) = streak p l + 1 := by
  simp [streak, h]

theorem since_cons : Since p q (a :: l) ↔ q a ∨ (p a ∧ Since p q l) := .rfl

theorem throughout_nil {P : List α → Prop} (h : P []) : Throughout P [] := fun l hl => by
  rw [List.suffix_nil.1 hl]
  exact h

theorem throughout_cons {P : List α → Prop} :
    Throughout P (a :: l) ↔ P (a :: l) ∧ Throughout P l := by
  simp only [Throughout, List.suffix_cons_iff, or_imp, forall_and, forall_eq]

end Past
