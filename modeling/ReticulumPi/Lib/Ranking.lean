import Mathlib.Data.List.Sort

/-!
# Where a stable sort puts an element

A stable sort orders the elements by `r`, and those that `r` does not tell apart
as they stood before. So of two elements it is known which comes first
(`Before`), without sorting, and an element is among the last `k` exactly when
fewer than `k` come after it (`mem_drop_insertionSort`), and among the first `k`
when fewer than `k` come before it (`mem_take_insertionSort`).
-/

namespace Ranking

open List

variable {α : Type*} {l m : List α} {a b x : α}

/-! ## The order of a list -/

theorem pair_sublist_or (ha : a ∈ l) (hb : b ∈ l) (hne : a ≠ b) :
    [a, b].Sublist l ∨ [b, a].Sublist l := by
  induction l with
  | nil => cases ha
  | cons c l ih =>
    rcases mem_cons.1 ha with rfl | ha'
    · have hb' := (mem_cons.1 hb).resolve_left hne.symm
      exact .inl ((singleton_sublist.2 hb').cons_cons a)
    · rcases mem_cons.1 hb with rfl | hb'
      · exact .inr ((singleton_sublist.2 ha').cons_cons b)
      · exact (ih ha' hb').imp (·.cons c) (·.cons c)

theorem not_pair_sublist (hl : l.Nodup) (h : [a, b].Sublist l) : ¬[b, a].Sublist l := by
  induction l with
  | nil => cases h
  | cons c l ih =>
    rw [nodup_cons] at hl
    intro h'
    rw [cons_sublist_cons'] at h h'
    rcases h with h | ⟨rfl, hb⟩
    · rcases h' with h' | ⟨rfl, -⟩
      · exact ih hl.2 h h'
      · exact hl.1 (h.subset (by simp))
    · rcases h' with h' | ⟨rfl, ha⟩
      · exact hl.1 (h'.subset (by simp))
      · exact hl.1 (singleton_sublist.1 ha)

theorem not_pair_sublist_self (hl : l.Nodup) : ¬[a, a].Sublist l := fun h =>
  not_pair_sublist hl h h

/-! ## The order of a sorted list -/

variable (r : α → α → Prop) [DecidableRel r]

/-- The element `a` of `l` comes before `b` when `l` is sorted. -/
def Before (l : List α) (a b : α) : Prop := r a b ∧ (r b a → [a, b].Sublist l)

instance [DecidableEq α] (l : List α) (a b : α) : Decidable (Before r l a b) :=
  inferInstanceAs (Decidable (_ ∧ _))

variable {r}

omit [DecidableRel r] in
theorem Before.asymm (hl : l.Nodup) (h : Before r l a b) : ¬Before r l b a := fun h' =>
  not_pair_sublist hl (h.2 h'.1) (h'.2 h.1)

variable [Std.Total r] [IsTrans α r]

/-- What stands before another element of the sorted list comes before it. -/
theorem before_of_pair_sublist (hl : l.Nodup) (h : [a, b].Sublist (l.insertionSort r)) :
    Before r l a b := by
  have hsorted := (pairwise_insertionSort r l).sublist h
  have hnodup := (perm_insertionSort r l).nodup_iff.2 hl
  have hab : r a b := rel_of_pairwise_cons hsorted mem_cons_self
  refine ⟨hab, fun hba => ?_⟩
  have hmem : ∀ c ∈ [a, b], c ∈ l := fun c hc => (mem_insertionSort r).1 (h.subset hc)
  have hne : a ≠ b := fun hab => not_pair_sublist_self hnodup (hab ▸ h)
  -- Sorting would have kept the other order.
  refine (pair_sublist_or (hmem a (by simp)) (hmem b (by simp)) hne).resolve_right fun h' => ?_
  exact not_pair_sublist hnodup h (pair_sublist_insertionSort hba h')

variable [DecidableEq α]

/-- How many elements come after `x`, and how many before. -/
theorem rank_insertionSort {A B : List α} (hl : l.Nodup)
    (h : l.insertionSort r = A ++ x :: B) :
    B.length = l.countP (Before r l x ·) ∧ A.length = l.countP (Before r l · x) := by
  have hafter : ∀ y ∈ B, Before r l x y := fun y hy => before_of_pair_sublist hl <| by
    rw [h]
    exact ((singleton_sublist.2 hy).cons_cons x).trans (sublist_append_right _ _)
  have hbefore : ∀ y ∈ A, Before r l y x := fun y hy => before_of_pair_sublist hl <| by
    rw [h]
    exact (singleton_sublist.2 hy).append (singleton_sublist.2 mem_cons_self)
  have hself : ¬Before r l x x := fun hx => Before.asymm hl hx hx
  have hperm := (perm_insertionSort r l).symm
  rw [h] at hperm
  constructor
  · rw [hperm.countP_eq, countP_append, countP_cons_of_neg (by simpa using hself),
      countP_eq_zero.2 fun y hy => by simpa using (hbefore y hy).asymm hl,
      countP_eq_length.2 fun y hy => by simpa using hafter y hy, Nat.zero_add]
  · rw [hperm.countP_eq, countP_append, countP_cons_of_neg (by simpa using hself),
      countP_eq_length.2 fun y hy => by simpa using hbefore y hy,
      countP_eq_zero.2 fun y hy => by simpa using (hafter y hy).asymm hl, Nat.add_zero]

/-- An element is among the last `k` when fewer than `k` come after it. -/
theorem mem_drop_insertionSort (hl : l.Nodup) (hx : x ∈ l) {k : ℕ} :
    x ∈ (l.insertionSort r).drop (l.length - k) ↔ l.countP (Before r l x ·) < k := by
  obtain ⟨A, B, h⟩ := append_of_mem ((mem_insertionSort r).2 hx)
  have hnodup := (perm_insertionSort r l).nodup_iff.2 hl
  have hlen : A.length + (B.length + 1) = l.length := by
    rw [← length_insertionSort r l, h, length_append, length_cons]
  rw [← (rank_insertionSort hl h).1, h]
  rw [h, nodup_append, nodup_cons] at hnodup
  constructor
  · intro hmem
    by_contra hk
    -- All of the elements up to `x` are dropped.
    obtain ⟨n, hn⟩ := Nat.exists_eq_add_of_le (show A.length + 1 ≤ l.length - k by omega)
    rw [hn, Nat.add_assoc, drop_length_add_append, Nat.add_comm, drop_succ_cons] at hmem
    exact hnodup.2.1.1 (mem_of_mem_drop hmem)
  · intro hk
    rw [drop_append_of_le_length (by omega)]
    exact mem_append_right _ mem_cons_self

/-- An element is among the first `k` when fewer than `k` come before it. -/
theorem mem_take_insertionSort (hl : l.Nodup) (hx : x ∈ l) {k : ℕ} :
    x ∈ (l.insertionSort r).take k ↔ l.countP (Before r l · x) < k := by
  obtain ⟨A, B, h⟩ := append_of_mem ((mem_insertionSort r).2 hx)
  have hnodup := (perm_insertionSort r l).nodup_iff.2 hl
  rw [← (rank_insertionSort hl h).2, h]
  rw [h, nodup_append] at hnodup
  constructor
  · intro hmem
    by_contra hk
    rw [take_append_of_le_length (by omega)] at hmem
    exact hnodup.2.2 x (mem_of_mem_take hmem) x mem_cons_self rfl
  · intro hk
    obtain ⟨n, rfl⟩ := Nat.exists_eq_add_of_lt hk
    rw [Nat.add_assoc, take_length_add_append, take_succ_cons]
    exact mem_append_right _ mem_cons_self

end Ranking
