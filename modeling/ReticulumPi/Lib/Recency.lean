import Mathlib.Data.List.Nodup

/-!
# The most recent of the elements of a list

A list that grows at its head, as a record of what happened, the latest first:
`recent` are its distinct elements, each where it stands last in time. Being
among the first `n` of them is kept when another element is recorded
(`mem_take_of_cons`), and in any selection of them (`mem_take_of_sublist`).
-/

namespace Recency

open List

variable {κ : Type*} [DecidableEq κ]

/-- The distinct elements, the most recent first. -/
def recent : List κ → List κ
  | [] => []
  | k :: l => k :: (recent l).filter (· ≠ k)

theorem nodup_recent (l : List κ) : (recent l).Nodup := by
  induction l with
  | nil => exact nodup_nil
  | cons a l ih =>
    rw [recent, nodup_cons]
    exact ⟨fun h => of_decide_eq_true (mem_filter.1 h).2 rfl, ih.filter _⟩

/-- What a selection without `a` is of the others, it is of those recorded before `a`. -/
theorem sublist_recent_cons {l m : List κ} {a : κ} (h : m.Sublist (recent l)) (ha : a ∉ m) :
    (a :: m).Sublist (recent (a :: l)) := by
  rw [recent]
  refine Sublist.cons_cons a ?_
  have hself : m.filter (· ≠ a) = m :=
    filter_eq_self.2 fun k hk => decide_eq_true fun hka : k = a => ha (hka ▸ hk)
  exact hself ▸ h.filter (· ≠ a)

omit [DecidableEq κ] in
theorem mem_take_succ {l : List κ} {k : κ} {n : ℕ} (h : k ∈ l.take n) : k ∈ l.take (n + 1) :=
  (take_sublist_take_left (Nat.le_succ n)).subset h

/-- Leaving out one element brings the others forward by one place at most. -/
theorem mem_take_of_filter {l : List κ} (hl : l.Nodup) {a k : κ} {n : ℕ}
    (h : k ∈ (l.filter (· ≠ a)).take n) : k ∈ l.take (n + 1) := by
  induction l generalizing n with
  | nil => exact absurd h (by simp)
  | cons b l ih =>
    rw [nodup_cons] at hl
    rw [take_succ_cons, mem_cons]
    by_cases hb : b = a
    · subst hb
      rw [filter_cons_of_neg (by simp), filter_eq_self.2] at h
      · exact .inr h
      · exact fun c hc => decide_eq_true fun hcb : c = b => hl.1 (hcb ▸ hc)
    · rw [filter_cons_of_pos (by simpa using hb)] at h
      rcases n with _ | n
      · exact absurd h (by simp)
      · rw [take_succ_cons, mem_cons] at h
        exact h.imp_right fun h => ih hl.2 h

/-- Recording another element makes none more recent. -/
theorem mem_take_of_cons {l : List κ} {a k : κ} {n : ℕ} (hne : k ≠ a)
    (h : k ∈ (recent (a :: l)).take n) : k ∈ (recent l).take n := by
  rcases n with _ | n
  · exact absurd h (by simp)
  · rw [recent, take_succ_cons, mem_cons] at h
    exact mem_take_of_filter (nodup_recent l) (h.resolve_left hne)

omit [DecidableEq κ] in
/-- In a selection of the elements none is less recent. -/
theorem mem_take_of_sublist {l r : List κ} (h : l.Sublist r) (hr : r.Nodup) {k : κ} {n : ℕ}
    (hk : k ∈ l) (hn : k ∈ r.take n) : k ∈ l.take n := by
  induction h generalizing n with
  | slnil => exact hn
  | cons a h ih =>
    rw [nodup_cons] at hr
    rcases n with _ | n
    · exact absurd hn (by simp)
    · rw [take_succ_cons, mem_cons] at hn
      rcases hn with rfl | hn
      · exact absurd (h.subset hk) hr.1
      · exact mem_take_succ (ih hr.2 hk hn)
  | cons_cons a h ih =>
    rw [nodup_cons] at hr
    rcases n with _ | n
    · exact absurd hn (by simp)
    · rw [take_succ_cons, mem_cons] at hn ⊢
      refine hn.imp_right fun hn => ih hr.2 ?_ hn
      exact (mem_cons.1 hk).resolve_left fun hka => hr.1 (hka ▸ mem_of_mem_take hn)

end Recency
