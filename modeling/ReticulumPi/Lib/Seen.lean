import Mathlib.Data.Finset.Card
import Mathlib.Data.List.Sort
import Mathlib.Tactic.Linarith
import ReticulumPi.Lib.Dict

/-!
# Tables of what has been seen

A table that is to tell what comes a second time keeps, for each key, the time
at which it was recorded last; an entry is in date for a certain time. When the
table is full, something has to go. `Faithful` says what the table is worth:
what it holds was recorded, and what was recorded and is in date is held,
unless a certain number of other keys were recorded since.

It is kept when a key is recorded, by any clean-up that lets an entry in date go
only where that many others stay, none of them earlier (`Faithful.record`). The
clean-up that keeps the newest entries is one (`trims_newest`).
-/

namespace Seen

open List

variable {κ : Type*} [DecidableEq κ] {ttl now t : ℚ} {limit n : ℕ} {seen seen' : Dict κ ℚ}
  {recorded recorded' : List (κ × ℚ)} {key : κ}

/-- How many other keys were recorded at that time or later. -/
def othersSince (recorded : List (κ × ℚ)) (key : κ) (time : ℚ) : ℕ :=
  ((recorded.filter fun e => e.1 ≠ key ∧ time ≤ e.2).map Prod.fst).toFinset.card

theorem othersSince_mono (h : recorded ⊆ recorded') :
    othersSince recorded key t ≤ othersSince recorded' key t := by
  refine Finset.card_le_card fun k hk => ?_
  rw [List.mem_toFinset, List.mem_map] at hk ⊢
  obtain ⟨e, he, rfl⟩ := hk
  obtain ⟨he, hp⟩ := mem_filter.1 he
  exact ⟨e, mem_filter.2 ⟨h he, hp⟩, rfl⟩

theorem othersSince_anti {t' : ℚ} (h : t' ≤ t) :
    othersSince recorded key t ≤ othersSince recorded key t' := by
  refine Finset.card_le_card fun k hk => ?_
  rw [List.mem_toFinset, List.mem_map] at hk ⊢
  obtain ⟨e, he, rfl⟩ := hk
  obtain ⟨he, hp⟩ := mem_filter.1 he
  simp only [decide_eq_true_eq] at hp
  exact ⟨e, mem_filter.2 ⟨he, by simpa using ⟨hp.1, h.trans hp.2⟩⟩, rfl⟩

/-- Entries with other keys, none of them earlier, are so many keys recorded since. -/
theorem length_le_othersSince (hrecorded : ∀ e ∈ seen.entries, e ∈ recorded)
    (h : ∀ e ∈ seen.entries, e.1 ≠ key ∧ t ≤ e.2) :
    seen.entries.length ≤ othersSince recorded key t := by
  have hcard : (seen.entries.map Prod.fst).toFinset.card = seen.entries.length := by
    rw [toFinset_card_of_nodup seen.nodup, length_map]
  rw [← hcard]
  refine Finset.card_le_card fun k hk => ?_
  rw [List.mem_toFinset, List.mem_map] at hk ⊢
  obtain ⟨e, he, rfl⟩ := hk
  exact ⟨e, mem_filter.2 ⟨hrecorded e he, by simpa using h e he⟩, rfl⟩

/-! ## What a table is worth -/

/-- The table `seen` at the time `now`, when `recorded` has been recorded. -/
structure Faithful (ttl : ℚ) (limit : ℕ) (seen : Dict κ ℚ) (now : ℚ) (recorded : List (κ × ℚ)) :
    Prop where
  past : ∀ e ∈ recorded, e.2 ≤ now
  held : ∀ e ∈ seen.entries, e ∈ recorded
  kept : ∀ e ∈ recorded, now - ttl < e.2 →
    (∃ t, seen.get? e.1 = some t ∧ e.2 ≤ t) ∨ limit ≤ othersSince recorded e.1 e.2

theorem faithful_empty : Faithful ttl limit (∅ : Dict κ ℚ) now [] :=
  ⟨fun _ he => absurd he not_mem_nil, fun _ he => absurd he not_mem_nil,
    fun _ he => absurd he not_mem_nil⟩

/-- Time passes. -/
theorem Faithful.later {later : ℚ} (h : Faithful ttl limit seen now recorded) (hnow : now ≤ later) :
    Faithful ttl limit seen later recorded where
  past e he := (h.past e he).trans hnow
  held := h.held
  kept e he hdate := h.kept e he (by linarith)

/-- A clean-up that lets an entry in date go only where many others stay, none of
    them earlier. -/
structure Trims (ttl now : ℚ) (limit : ℕ) (seen seen' : Dict κ ℚ) : Prop where
  subset : seen'.entries ⊆ seen.entries
  kept : ∀ e ∈ seen.entries, now - ttl < e.2 → e ∈ seen'.entries ∨
    limit ≤ seen'.entries.length ∧ ∀ e' ∈ seen'.entries, e'.1 ≠ e.1 ∧ e.2 ≤ e'.2

omit [DecidableEq κ] in
theorem trims_self : Trims ttl now limit seen seen := ⟨Subset.refl _, fun _ he _ => .inl he⟩

/-- A key is recorded, and the table trimmed. -/
theorem Faithful.record {before : ℚ} (h : Faithful ttl limit seen before recorded)
    (hnow : before ≤ now) (htrim : Trims ttl now limit (seen.set key now) seen') :
    Faithful ttl limit seen' now ((key, now) :: recorded) := by
  have hset : ∀ e ∈ (seen.set key now).entries, e ∈ (key, now) :: recorded := by
    rintro ⟨k, t⟩ he
    rcases Dict.mem_set_entries.1 he with ⟨rfl, rfl⟩ | ⟨-, he⟩
    · exact mem_cons_self
    · exact mem_cons_of_mem _ (h.held _ he)
  have hrecorded : ∀ e ∈ seen'.entries, e ∈ (key, now) :: recorded := fun e he =>
    hset e (htrim.subset he)
  refine ⟨fun e he => ?_, hrecorded, fun e he hdate => ?_⟩
  · rcases mem_cons.1 he with rfl | he
    · exact le_rfl
    · exact (h.past e he).trans hnow
  · -- The table with the key finds it, unless too many others were recorded since already.
    have hwritten : (∃ t, (seen.set key now).get? e.1 = some t ∧ e.2 ≤ t) ∨
        limit ≤ othersSince recorded e.1 e.2 := by
      by_cases hk : e.1 = key
      · refine .inl ⟨now, by rw [hk, Dict.get?_set_self], ?_⟩
        rcases mem_cons.1 he with rfl | he
        · exact le_rfl
        · exact (h.past e he).trans hnow
      · have he : e ∈ recorded := (mem_cons.1 he).resolve_left fun heq => hk (by rw [heq])
        rw [Dict.get?_set_of_ne hk]
        exact h.kept e he (by linarith)
    rcases hwritten with ⟨t, ht, hle⟩ | hmany
    · rcases htrim.kept (e.1, t) (Dict.get?_eq_some_iff.1 ht) (hdate.trans_le hle) with
        hmem | ⟨hmany, hall⟩
      · exact .inl ⟨t, Dict.get?_eq_some_iff.2 hmem, hle⟩
      · exact .inr (hmany.trans ((length_le_othersSince hrecorded hall).trans
          (othersSince_anti hle)))
    · exact .inr (hmany.trans (othersSince_mono (subset_cons_self _ _)))

/-- What the table holds was recorded. -/
theorem Faithful.exists_recorded (h : Faithful ttl limit seen now recorded)
    (hseen : (seen.get? key).any (fun t => decide (now - ttl < t)) = true) :
    ∃ t, (key, t) ∈ recorded ∧ now - t < ttl := by
  obtain ⟨t, ht, hdate⟩ := (Option.any_eq_true _ _).1 hseen
  have hdate := of_decide_eq_true hdate
  exact ⟨t, h.held _ (Dict.get?_eq_some_iff.1 ht), by linarith⟩

/-- What was recorded and is in date is held, unless many others were recorded since. -/
theorem Faithful.seen_or (h : Faithful ttl limit seen now recorded) (hmem : (key, t) ∈ recorded)
    (hdate : now - t < ttl) :
    (seen.get? key).any (fun t => decide (now - ttl < t)) = true ∨
      limit ≤ othersSince recorded key t := by
  rcases h.kept _ hmem (by dsimp only; linarith) with ⟨t', ht', hle⟩ | hmany
  · refine .inl ((Option.any_eq_true _ _).2 ⟨t', ht', decide_eq_true ?_⟩)
    dsimp only at hle
    linarith
  · exact .inr hmany

/-! ## Keeping the newest entries -/

/-- The newest `n` entries, the latest first. -/
def newest (n : ℕ) (seen : Dict κ ℚ) : Dict κ ℚ where
  entries := (seen.entries.insertionSort fun a b => b.2 ≤ a.2).take n
  nodup := ((((List.perm_insertionSort _ seen.entries).map Prod.fst).nodup_iff.2 seen.nodup).sublist
    ((List.take_sublist n _).map Prod.fst))

omit [DecidableEq κ] in
theorem mem_of_mem_newest {e : κ × ℚ} (h : e ∈ (newest n seen).entries) : e ∈ seen.entries :=
  (mem_insertionSort _).1 (mem_of_mem_take h)

omit [DecidableEq κ] in
theorem length_newest : (newest n seen).entries.length = min n seen.entries.length := by
  rw [newest, length_take, length_insertionSort]

omit [DecidableEq κ] in
/-- What is not among the newest entries is not later than any of them. -/
theorem le_of_not_mem_newest {e e' : κ × ℚ} (he : e ∈ seen.entries)
    (hno : e ∉ (newest n seen).entries) (he' : e' ∈ (newest n seen).entries) : e.2 ≤ e'.2 := by
  have hsorted := pairwise_insertionSort (fun a b : κ × ℚ => b.2 ≤ a.2) seen.entries
  have hmem : e ∈ seen.entries.insertionSort fun a b => b.2 ≤ a.2 :=
    (mem_insertionSort _).2 he
  rw [← take_append_drop n (seen.entries.insertionSort fun a b => b.2 ≤ a.2)] at hsorted hmem
  exact (pairwise_append.1 hsorted).2.2 e' he' e
    ((mem_append.1 hmem).resolve_left hno)

/-- Of what is in date, the newest entries are kept when there are too many. -/
theorem trims_newest : Trims ttl now limit seen
    (if limit < (seen.filter fun t => decide (now - ttl < t)).entries.length then
      newest limit (seen.filter fun t => decide (now - ttl < t))
    else seen.filter fun t => decide (now - ttl < t)) := by
  have hmem : ∀ e ∈ seen.entries, now - ttl < e.2 →
      e ∈ (seen.filter fun t => decide (now - ttl < t)).entries := fun e he hdate =>
    mem_filter.2 ⟨he, by simpa using hdate⟩
  split_ifs with hfull
  · refine ⟨fun e he => mem_of_mem_filter (mem_of_mem_newest he), fun e he hdate => ?_⟩
    by_cases hkept : e ∈ (newest limit (seen.filter fun t => decide (now - ttl < t))).entries
    · exact .inl hkept
    · refine .inr ⟨?_, fun e' he' =>
        ⟨fun heq => hkept ?_, le_of_not_mem_newest (hmem e he hdate) hkept he'⟩⟩
      · rw [length_newest]
        omega
      · -- Each key has one entry.
        exact inj_on_of_nodup_map (seen.filter _).nodup (mem_of_mem_newest he')
          (hmem e he hdate) heq ▸ he'
  · exact ⟨fun e he => mem_of_mem_filter he, fun e he hdate => .inl (hmem e he hdate)⟩

end Seen
