import Mathlib.Data.List.Nodup
import Mathlib.Data.List.Perm.Basic

/-!
# Things in the hands of holders

Each of the holders `ι` has a list of things in hand. The hands are *exclusive*
if no thing is in two hands, or in one hand twice. What a step of a program does
to the hands is one of a few moves, each of which keeps them exclusive and says
what is held afterwards:

* `Exclusive.pass`: two holders exchange things;
* `Exclusive.drop`, `Exclusive.gain`: a holder lets go of a thing, or gets one
  that nobody held;
* `Exclusive.gather`: a holder takes things from all the others.
-/

namespace Custody

open List

variable {ι α : Type*} {hands hands' : ι → List α} {i j : ι} {a : α}

/-- No thing is in two hands, or in one hand twice. -/
structure Exclusive (hands : ι → List α) : Prop where
  nodup : ∀ i, (hands i).Nodup
  holder : ∀ i j a, a ∈ hands i → a ∈ hands j → i = j

/-- Somebody holds the thing. -/
def Held (hands : ι → List α) (a : α) : Prop := ∃ i, a ∈ hands i

theorem Exclusive.pass (h : Exclusive hands) (hij : i ≠ j)
    (hperm : (hands' i ++ hands' j).Perm (hands i ++ hands j))
    (hother : ∀ k, k ≠ i → k ≠ j → hands' k = hands k) :
    Exclusive hands' ∧ ∀ a, Held hands' a ↔ Held hands a := by
  have hmem : ∀ a, (a ∈ hands' i ∨ a ∈ hands' j) ↔ (a ∈ hands i ∨ a ∈ hands j) := fun a => by
    rw [← mem_append, ← mem_append, hperm.mem_iff]
  have hboth : (hands' i ++ hands' j).Nodup := hperm.nodup_iff.2 <|
    nodup_append.2 ⟨h.nodup i, h.nodup j, fun a ha b hb hab =>
      hij (h.holder i j a ha (hab ▸ hb))⟩
  obtain ⟨hi, hj, hdisjoint⟩ := nodup_append.1 hboth
  -- Seen from outside, the two are one holder.
  have houter : ∀ k a, k ≠ i → k ≠ j → a ∈ hands' k → ¬ (a ∈ hands' i ∨ a ∈ hands' j) := by
    intro k a hki hkj hk hmem'
    rw [hother k hki hkj] at hk
    rcases (hmem a).1 hmem' with ha | ha
    · exact hki (h.holder k i a hk ha)
    · exact hkj (h.holder k j a hk ha)
  refine ⟨⟨fun k => ?_, fun k l a hk hl => ?_⟩, fun a => ⟨?_, ?_⟩⟩
  · by_cases hki : k = i
    · exact hki ▸ hi
    · by_cases hkj : k = j
      · exact hkj ▸ hj
      · rw [hother k hki hkj]
        exact h.nodup k
  · by_cases hk' : k = i ∨ k = j
    · by_cases hl' : l = i ∨ l = j
      · rcases hk' with rfl | rfl
        · rcases hl' with rfl | rfl
          · rfl
          · exact absurd rfl (hdisjoint a hk a hl)
        · rcases hl' with rfl | rfl
          · exact absurd rfl (hdisjoint a hl a hk)
          · rfl
      · rw [not_or] at hl'
        refine absurd ?_ (houter l a hl'.1 hl'.2 hl)
        rcases hk' with rfl | rfl
        · exact .inl hk
        · exact .inr hk
    · rw [not_or] at hk'
      by_cases hl' : l = i ∨ l = j
      · refine absurd ?_ (houter k a hk'.1 hk'.2 hk)
        rcases hl' with rfl | rfl
        · exact .inl hl
        · exact .inr hl
      · rw [not_or] at hl'
        rw [hother k hk'.1 hk'.2] at hk
        rw [hother l hl'.1 hl'.2] at hl
        exact h.holder k l a hk hl
  · rintro ⟨k, hk⟩
    by_cases hk' : k = i ∨ k = j
    · have : a ∈ hands i ∨ a ∈ hands j := (hmem a).1 (by
        rcases hk' with rfl | rfl
        · exact .inl hk
        · exact .inr hk)
      rcases this with ha | ha
      · exact ⟨i, ha⟩
      · exact ⟨j, ha⟩
    · rw [not_or] at hk'
      rw [hother k hk'.1 hk'.2] at hk
      exact ⟨k, hk⟩
  · rintro ⟨k, hk⟩
    by_cases hk' : k = i ∨ k = j
    · have : a ∈ hands' i ∨ a ∈ hands' j := (hmem a).2 (by
        rcases hk' with rfl | rfl
        · exact .inl hk
        · exact .inr hk)
      rcases this with ha | ha
      · exact ⟨i, ha⟩
      · exact ⟨j, ha⟩
    · rw [not_or] at hk'
      refine ⟨k, ?_⟩
      rwa [hother k hk'.1 hk'.2]

/-- A holder gets a thing that nobody held. -/
theorem Exclusive.gain (h : Exclusive hands) (hfree : ¬ Held hands a)
    (hperm : (hands' i).Perm (a :: hands i)) (hother : ∀ k, k ≠ i → hands' k = hands k) :
    Exclusive hands' ∧ ∀ b, Held hands' b ↔ Held hands b ∨ b = a := by
  have hmem : ∀ b, b ∈ hands' i ↔ b = a ∨ b ∈ hands i := fun b => by
    rw [hperm.mem_iff, mem_cons]
  have hsame : ∀ k b, b ∈ hands' k → b = a ∧ k = i ∨ b ∈ hands k := fun k b hb => by
    by_cases hk : k = i
    · rw [hk] at hb ⊢
      exact ((hmem b).1 hb).imp_left (⟨·, rfl⟩)
    · rw [hother k hk] at hb
      exact .inr hb
  refine ⟨⟨fun k => ?_, fun k l b hk hl => ?_⟩, fun b => ⟨?_, ?_⟩⟩
  · by_cases hk : k = i
    · rw [hk, hperm.nodup_iff]
      exact nodup_cons.2 ⟨fun ha => hfree ⟨i, ha⟩, h.nodup i⟩
    · rw [hother k hk]
      exact h.nodup k
  · rcases hsame k b hk with ⟨rfl, rfl⟩ | hk
    · rcases hsame l b hl with ⟨-, rfl⟩ | hl
      · rfl
      · exact absurd ⟨l, hl⟩ hfree
    · rcases hsame l b hl with ⟨rfl, rfl⟩ | hl
      · exact absurd ⟨k, hk⟩ hfree
      · exact h.holder k l b hk hl
  · rintro ⟨k, hk⟩
    rcases hsame k b hk with ⟨rfl, -⟩ | hk
    · exact .inr rfl
    · exact .inl ⟨k, hk⟩
  · rintro (⟨k, hk⟩ | rfl)
    · by_cases hki : k = i
      · rw [hki] at hk
        exact ⟨i, (hmem b).2 (.inr hk)⟩
      · refine ⟨k, ?_⟩
        rwa [hother k hki]
    · exact ⟨i, (hmem b).2 (.inl rfl)⟩

/-- A holder lets go of a thing. -/
theorem Exclusive.drop (h : Exclusive hands) (hperm : (hands i).Perm (a :: hands' i))
    (hother : ∀ k, k ≠ i → hands' k = hands k) :
    Exclusive hands' ∧ ∀ b, Held hands' b ↔ Held hands b ∧ b ≠ a := by
  have hcons := hperm.nodup_iff.1 (h.nodup i)
  have hmem : ∀ b, b ∈ hands i ↔ b = a ∨ b ∈ hands' i := fun b => by
    rw [hperm.mem_iff, mem_cons]
  have hsub : ∀ k b, b ∈ hands' k → b ∈ hands k := fun k b hb => by
    by_cases hk : k = i
    · rw [hk] at hb ⊢
      exact (hmem b).2 (.inr hb)
    · rwa [hother k hk] at hb
  refine ⟨⟨fun k => ?_, fun k l b hk hl => h.holder k l b (hsub k b hk) (hsub l b hl)⟩,
    fun b => ⟨?_, ?_⟩⟩
  · by_cases hk : k = i
    · exact hk ▸ (nodup_cons.1 hcons).2
    · rw [hother k hk]
      exact h.nodup k
  · rintro ⟨k, hk⟩
    refine ⟨⟨k, hsub k b hk⟩, ?_⟩
    rintro rfl
    have hki : k = i := h.holder k i b (hsub k b hk) ((hmem b).2 (.inl rfl))
    rw [hki] at hk
    exact (nodup_cons.1 hcons).1 hk
  · rintro ⟨⟨k, hk⟩, hne⟩
    by_cases hki : k = i
    · rw [hki] at hk
      exact ⟨i, ((hmem b).1 hk).resolve_left hne⟩
    · refine ⟨k, ?_⟩
      rwa [hother k hki]

/-- A holder without anything takes from the others what they do not keep. -/
theorem Exclusive.gather (h : Exclusive hands) (hempty : hands i = [])
    (hkeep : ∀ k, k ≠ i → (hands' k).Sublist (hands k)) (hnodup : (hands' i).Nodup)
    (htaken : ∀ a, a ∈ hands' i ↔ ∃ k, k ≠ i ∧ a ∈ hands k ∧ a ∉ hands' k) :
    Exclusive hands' ∧ ∀ a, Held hands' a ↔ Held hands a := by
  refine ⟨⟨fun k => ?_, ?_⟩, fun a => ⟨?_, ?_⟩⟩
  · by_cases hk : k = i
    · exact hk ▸ hnodup
    · exact (h.nodup k).sublist (hkeep k hk)
  · -- What is taken has left the one hand it was in.
    have hone : ∀ k a, k ≠ i → a ∈ hands' k → a ∉ hands' i := fun k a hk hak hai => by
      obtain ⟨l, -, hal, hnot⟩ := (htaken a).1 hai
      rw [h.holder l k a hal ((hkeep k hk).subset hak)] at hnot
      exact hnot hak
    intro k l a hk hl
    by_cases hki : k = i
    · by_cases hli : l = i
      · rw [hki, hli]
      · exact absurd (hki ▸ hk) (hone l a hli hl)
    · by_cases hli : l = i
      · exact absurd (hli ▸ hl) (hone k a hki hk)
      · exact h.holder k l a ((hkeep k hki).subset hk) ((hkeep l hli).subset hl)
  · rintro ⟨k, hk⟩
    by_cases hki : k = i
    · obtain ⟨l, -, hal, -⟩ := (htaken a).1 (hki ▸ hk)
      exact ⟨l, hal⟩
    · exact ⟨k, (hkeep k hki).subset hk⟩
  · rintro ⟨k, hk⟩
    have hki : k ≠ i := fun hki => by
      rw [hki, hempty] at hk
      exact absurd hk not_mem_nil
    by_cases hkept : a ∈ hands' k
    · exact ⟨k, hkept⟩
    · exact ⟨i, (htaken a).2 ⟨k, hki, hk, hkept⟩⟩

end Custody
