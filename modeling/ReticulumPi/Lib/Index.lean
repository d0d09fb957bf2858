import ReticulumPi.Lib.Dict
import Mathlib.Data.Finset.Union

/-!
# Inverted indexes

An inverted index maps a key to the set of the identifiers filed under it. It
is kept as a dictionary of sets, in which the operations create a set on the
first identifier of a key (`dict.setdefault(key, set()).add(id)`) and drop it
with the last one. What matters of an index is which identifiers it finds
under a key (`Index.ids`), and, of its representation, that it stores no empty
set (`Index.Tight`).
-/

/-- An index from the keys `κ` to sets of identifiers `ι`. -/
abbrev Index (κ ι : Type*) := Dict κ (Finset ι)

namespace Index

open List

variable {κ ι : Type*} [DecidableEq κ] [DecidableEq ι]

/-- The identifiers filed under the key `k`. -/
def ids (ix : Index κ ι) (k : κ) : Finset ι := (ix.get? k).getD ∅

/-- The identifiers filed under one of the keys `ks`. -/
def idsOf (ix : Index κ ι) (ks : List κ) : Finset ι := ks.foldr (fun k s => ix.ids k ∪ s) ∅

/-- No set stored in the index is empty. -/
def Tight (ix : Index κ ι) : Prop := ∀ k s, ix.get? k = some s → s.Nonempty

omit [DecidableEq ι] in
@[simp] theorem ids_empty (k : κ) : (∅ : Index κ ι).ids k = ∅ := rfl

variable {ix : Index κ ι}

theorem mem_idsOf {ks : List κ} {i : ι} : i ∈ ix.idsOf ks ↔ ∃ k ∈ ks, i ∈ ix.ids k := by
  induction ks with
  | nil => simp [idsOf]
  | cons k ks ih =>
    rw [idsOf, foldr_cons, Finset.mem_union, ← idsOf, ih]
    simp

/-- File the identifier `i` under the key `k`. -/
def addKey (i : ι) (ix : Index κ ι) (k : κ) : Index κ ι := ix.set k (insert i (ix.ids k))

/-- File the identifier `i` under all the keys `ks`. -/
def add (ix : Index κ ι) (ks : List κ) (i : ι) : Index κ ι := ks.foldl (addKey i) ix

/-- Take the identifier `i` out from under the key `k`, with the set of `k` when it was the last. -/
def dropKey (i : ι) (ix : Index κ ι) (k : κ) : Index κ ι :=
  match ix.get? k with
  | none => ix
  | some s => if s.erase i = ∅ then Dict.erase ix k else ix.set k (s.erase i)

/-- Take the identifier `i` out from under all the keys `ks`. -/
def drop (ix : Index κ ι) (ks : List κ) (i : ι) : Index κ ι := ks.foldl (dropKey i) ix

variable {k : κ}

theorem ids_addKey {k' : κ} {i : ι} :
    (addKey i ix k).ids k' = if k' = k then insert i (ix.ids k') else ix.ids k' := by
  rw [addKey, ids, Dict.get?_set]
  split_ifs with h
  · rw [h, Option.getD_some]
  · rfl

theorem ids_dropKey {k' : κ} {i : ι} :
    (dropKey i ix k).ids k' = if k' = k then (ix.ids k').erase i else ix.ids k' := by
  cases hs : ix.get? k with
  | none =>
    have hk : ix.ids k = ∅ := by rw [ids, hs, Option.getD_none]
    rw [show dropKey i ix k = ix by simp [dropKey, hs]]
    split_ifs with h
    · rw [h, hk, Finset.erase_empty]
    · rfl
  | some s =>
    have hk : ix.ids k = s := by rw [ids, hs, Option.getD_some]
    simp only [dropKey, hs]
    by_cases he : s.erase i = ∅
    · rw [if_pos he, ids, Dict.get?_erase]
      split_ifs with h
      · rw [h, hk, he, Option.getD_none]
      · rfl
    · rw [if_neg he, ids, Dict.get?_set]
      split_ifs with h
      · rw [h, hk, Option.getD_some]
      · rfl

theorem mem_ids_add {ks : List κ} {i j : ι} :
    j ∈ (ix.add ks i).ids k ↔ (j = i ∧ k ∈ ks) ∨ j ∈ ix.ids k := by
  induction ks generalizing ix with
  | nil => simp [add]
  | cons k' ks ih =>
    rw [add, foldl_cons, ← add, ih, ids_addKey]
    by_cases h : k = k'
    · simp only [h, if_pos, Finset.mem_insert, mem_cons, true_or, and_true]
      tauto
    · simp [h]

theorem mem_ids_drop {ks : List κ} {i j : ι} :
    j ∈ (ix.drop ks i).ids k ↔ j ∈ ix.ids k ∧ ¬(j = i ∧ k ∈ ks) := by
  induction ks generalizing ix with
  | nil => simp [drop]
  | cons k' ks ih =>
    rw [drop, foldl_cons, ← drop, ih, ids_dropKey]
    by_cases h : k = k'
    · simp only [h, if_pos, Finset.mem_erase, mem_cons, true_or, and_true]
      tauto
    · simp [h]

theorem Tight.addKey (h : ix.Tight) (i : ι) (k : κ) : (addKey i ix k).Tight := by
  intro k' s hs
  rw [Index.addKey, Dict.get?_set] at hs
  split_ifs at hs with hk
  · exact Option.some.inj hs ▸ Finset.insert_nonempty _ _
  · exact h k' s hs

theorem Tight.dropKey (h : ix.Tight) (i : ι) (k : κ) : (dropKey i ix k).Tight := by
  intro k' s hs
  unfold Index.dropKey at hs
  split at hs
  · exact h k' s hs
  · split_ifs at hs with he
    · rw [Dict.get?_erase] at hs
      split_ifs at hs
      exact h k' s hs
    · rw [Dict.get?_set] at hs
      split_ifs at hs
      · exact Option.some.inj hs ▸ Finset.nonempty_iff_ne_empty.2 he
      · exact h k' s hs

theorem Tight.add (h : ix.Tight) (ks : List κ) (i : ι) : (ix.add ks i).Tight := by
  induction ks generalizing ix with
  | nil => exact h
  | cons k ks ih => exact ih (h.addKey i k)

theorem Tight.drop (h : ix.Tight) (ks : List κ) (i : ι) : (ix.drop ks i).Tight := by
  induction ks generalizing ix with
  | nil => exact h
  | cons k ks ih => exact ih (h.dropKey i k)

omit [DecidableEq ι] in
@[simp] theorem tight_empty : (∅ : Index κ ι).Tight := fun k s hs => by simp at hs

omit [DecidableEq ι] in
/-- A tight index stores nothing under a key of no identifier. -/
theorem Tight.get?_eq_none (h : ix.Tight) (hids : ix.ids k = ∅) : ix.get? k = none := by
  rw [ids] at hids
  rcases hs : ix.get? k with _ | s
  · rfl
  · rw [hs] at hids
    exact absurd hids (h k s hs).ne_empty

omit [DecidableEq ι] in
/-- An index stores the identifiers of a key that has some. -/
theorem get?_eq_some {s : Finset ι} (hs : s.Nonempty)
    (hids : ix.ids k = s) : ix.get? k = some s := by
  rw [ids] at hids
  rcases hs' : ix.get? k with _ | s'
  · rw [hs'] at hids
    exact absurd hids.symm hs.ne_empty
  · rw [hs'] at hids
    exact congrArg some hids

omit [DecidableEq ι] in
/-- Tight indexes with the same identifiers under a key store the same set there, if any. -/
theorem Tight.get?_eq {ix' : Index κ ι} (h : ix.Tight) (h' : ix'.Tight)
    (hids : ix.ids k = ix'.ids k) : ix.get? k = ix'.get? k := by
  rcases Finset.eq_empty_or_nonempty (ix'.ids k) with hempty | hne
  · rw [h.get?_eq_none (hids.trans hempty), h'.get?_eq_none hempty]
  · rw [get?_eq_some hne hids, get?_eq_some hne rfl]

/-! ## The index of a table -/

/-- The index of the records of a table, each filed under its keys. -/
def rebuild {α : Type*} (table : Dict ι α) (keys : α → List κ) : Index κ ι :=
  table.entries.foldl (fun ix e => ix.add (keys e.2) e.1) ∅

theorem mem_ids_foldl_add {α : Type*} {keys : α → List κ} {l : List (ι × α)}
    {j : ι} : j ∈ (l.foldl (fun ix e => ix.add (keys e.2) e.1) ix).ids k ↔
      (∃ v, (j, v) ∈ l ∧ k ∈ keys v) ∨ j ∈ ix.ids k := by
  induction l generalizing ix with
  | nil => simp
  | cons e l ih =>
    obtain ⟨i, v⟩ := e
    rw [foldl_cons, ih, mem_ids_add]
    constructor
    · rintro (⟨w, hw, hk⟩ | ⟨rfl, hk⟩ | hj)
      · exact .inl ⟨w, mem_cons_of_mem _ hw, hk⟩
      · exact .inl ⟨v, mem_cons_self, hk⟩
      · exact .inr hj
    · rintro (⟨w, hw, hk⟩ | hj)
      · rcases mem_cons.1 hw with he | hw
        · cases he
          exact .inr (.inl ⟨rfl, hk⟩)
        · exact .inl ⟨w, hw, hk⟩
      · exact .inr (.inr hj)

/-- The index of a table finds the records that have the key. -/
theorem mem_ids_rebuild {α : Type*} {table : Dict ι α} {keys : α → List κ} {j : ι} :
    j ∈ (rebuild table keys).ids k ↔ ∃ v, table.get? j = some v ∧ k ∈ keys v := by
  rw [rebuild, mem_ids_foldl_add]
  simp [Dict.get?_eq_some_iff]

theorem tight_rebuild {α : Type*} (table : Dict ι α) (keys : α → List κ) :
    (rebuild table keys).Tight := by
  rw [rebuild]
  generalize hl : table.entries = l
  clear hl
  have htight : ∀ ix : Index κ ι, ix.Tight →
      (l.foldl (fun ix e => ix.add (keys e.2) e.1) ix).Tight := by
    induction l with
    | nil => exact fun _ h => h
    | cons e l ih => exact fun ix h => ih _ (h.add _ _)
  exact htight ∅ tight_empty

/-- A tight index that finds the records that have a key is the index of the table. -/
theorem Tight.get?_eq_rebuild {α : Type*} {table : Dict ι α} {keys : α → List κ} (h : ix.Tight)
    (hids : ∀ j, j ∈ ix.ids k ↔ ∃ v, table.get? j = some v ∧ k ∈ keys v) :
    ix.get? k = (rebuild table keys).get? k :=
  h.get?_eq (tight_rebuild table keys) (Finset.ext fun j => (hids j).trans mem_ids_rebuild.symm)

end Index
