import Mathlib.Algebra.Order.Group.Defs
import Mathlib.Algebra.Order.Monoid.Unbundled.Pow
import Mathlib.Data.List.Perm.Subperm
import Mathlib.Data.List.TakeWhile

/-!
# Counting events in a sliding window

The times of past events are a list. An event at `t` is *live* at `now` if it
is less than `W` old, `now < t + W`. If every new event comes at a time when
fewer than `n` are live, no half-open interval of length `W` holds more than
`n` events (`Bounded.cons`). Nor does it if the events are `d` apart and `n` times
`d` is at least `W` (`Spaced.bounded`).
-/

namespace Window

open List

variable {K : Type*} [AddCommGroup K] [LinearOrder K]
variable {W now now' m : K} {n : ℕ} {G l : List K}

/-- The events less than `W` old at `now`. -/
def live (W now : K) (G : List K) : List K := G.filter (fun t => now < t + W)

/-- The events in the interval from `a` up to, and not including, `a + W`. -/
def within (W a : K) (G : List K) : List K := G.filter (fun t => a ≤ t ∧ t < a + W)

/-- No half-open interval of length `W` holds more than `n` events. -/
def Bounded (W : K) (n : ℕ) (G : List K) : Prop := ∀ a, (within W a G).length ≤ n

theorem mem_live {t : K} : t ∈ live W now G ↔ t ∈ G ∧ now < t + W := by simp [live]

/-- As time passes, events only cease to be live. -/
theorem live_sublist (h : now ≤ now') : (live W now' G).Sublist (live W now G) :=
  monotone_filter_right G fun t ht => by
    have ht : now' < t + W := by simpa using ht
    simpa using h.trans_lt ht

theorem live_cons_subperm : (live W now (m :: G)).Subperm (m :: live W now G) := by
  rw [live, filter_cons]
  split
  · exact Subperm.refl _
  · exact (sublist_cons_self _ _).subperm

/-- What covers the live events still does when the events that are dead, and
    perhaps more that are not events, are dropped from it. -/
theorem live_subperm_filter {p : K → Bool} (h : (live W now G).Subperm l)
    (hp : ∀ t ∈ live W now G, p t) : (live W now G).Subperm (l.filter p) := by
  have hs := h.filter p
  rwa [filter_eq_self.2 hp] at hs

/-- What covers the live events still does when a run of dead ones is taken from
    its front. -/
theorem live_subperm_dropWhile {p : K → Bool} (h : (live W now G).Subperm l)
    (hp : ∀ t ∈ live W now G, ¬p t) : (live W now G).Subperm (l.dropWhile p) := by
  have hkept := live_subperm_filter (p := fun t => !p t) h fun t ht => by simpa using hp t ht
  have htaken : (l.takeWhile p).filter (fun t => !p t) = [] :=
    List.filter_eq_nil_iff.2 fun t ht => by simpa using mem_takeWhile_imp ht
  rw [← takeWhile_append_dropWhile (p := p) (l := l), filter_append, htaken,
    nil_append] at hkept
  exact hkept.trans filter_sublist.subperm

theorem bounded_nil : Bounded W n ([] : List K) := fun _ => Nat.zero_le _

variable {d : K}

/-- The events, the newest first, are at least `d` apart. -/
def Spaced (d : K) (G : List K) : Prop := G.Pairwise fun later earlier => earlier + d ≤ later

theorem spaced_nil : Spaced d ([] : List K) := .nil

theorem Spaced.cons (h : Spaced d G) (hm : ∀ t ∈ G, t + d ≤ m) : Spaced d (m :: G) :=
  Pairwise.cons hm h

variable [IsOrderedAddMonoid K]

/-- The events in an interval that reaches past `m` are all live at `m`. -/
theorem within_sublist_live {a : K} (h : m < a + W) :
    (within W a G).Sublist (live W m G) :=
  monotone_filter_right G fun t ht => by
    have ht : a ≤ t ∧ t < a + W := by simpa using ht
    simpa using h.trans_le (by gcongr; exact ht.1)

/-- A new event, when fewer than `n` are live, keeps the bound. -/
theorem Bounded.cons (h : Bounded W n G) (hl : (live W m G).length < n) : Bounded W n (m :: G) := by
  intro a
  rw [within, filter_cons]
  split
  · next hm =>
    have hm : a ≤ m ∧ m < a + W := by simpa using hm
    have hle := (within_sublist_live (G := G) hm.2).length_le
    change (within W a G).length + 1 ≤ n
    omega
  · exact h a

/-! ## Events that are apart -/

/-- From `a` on, each event takes its time. -/
theorem Spaced.le_head {a : K} (h : Spaced d (m :: G)) (ha : ∀ t ∈ m :: G, a ≤ t) :
    a + G.length • d ≤ m := by
  induction G generalizing m with
  | nil => simpa using ha
  | cons t G ih =>
    obtain ⟨hm, hrest⟩ := pairwise_cons.1 h
    calc a + (G.length + 1) • d = a + G.length • d + d := by rw [succ_nsmul, add_assoc]
      _ ≤ t + d := by
        gcongr
        exact ih hrest fun x hx => ha x (mem_cons_of_mem _ hx)
      _ ≤ m := hm t mem_cons_self

theorem Spaced.bounded (h : Spaced d G) (hd : 0 ≤ d) (hW : W ≤ n • d) : Bounded W n G := by
  intro a
  have hspaced : Spaced d (within W a G) := h.filter _
  have hmem : ∀ t ∈ within W a G, a ≤ t ∧ t < a + W := fun t ht => by
    simpa using (mem_filter.1 ht).2
  rcases hl : within W a G with _ | ⟨m, l⟩
  · exact Nat.zero_le _
  · rw [hl] at hspaced hmem
    have hlow := hspaced.le_head fun t ht => (hmem t ht).1
    have hhigh := (hmem m mem_cons_self).2.trans_le (add_le_add_right hW a)
    by_contra hn
    have hle : n • d ≤ l.length • d := nsmul_le_nsmul_left hd (Nat.lt_succ_iff.1 (not_le.1 hn))
    exact (hlow.trans_lt hhigh).not_ge (add_le_add_right hle a)

end Window
