import Mathlib.Data.List.Nodup
import Mathlib.Data.List.Perm.Subperm

/-!
# Dictionaries in insertion order

A finite map kept as the list of its entries, in the order in which the keys
were first inserted, as Python's `dict` keeps them: writing a key that is
present replaces its value *in place*, writing a new one appends, and deleting
a key forgets its position. That no key occurs twice is a field of the
structure, so that an entry *is* what a lookup finds (`get?_eq_some_iff`), and
the laws of the operations are proved once, on entries, and read off for
lookups.
-/

/-- A dictionary from `κ` to `α`: its entries in insertion order. -/
structure Dict (κ α : Type*) where
  /-- The entries, oldest key first. -/
  entries : List (κ × α)
  /-- No key occurs twice. -/
  nodup : (entries.map Prod.fst).Nodup

namespace Dict

open List

variable {κ α : Type*}

/-- The dictionary without entries. -/
def empty : Dict κ α := ⟨[], List.nodup_nil⟩

instance : EmptyCollection (Dict κ α) := ⟨empty⟩

instance : Inhabited (Dict κ α) := ⟨empty⟩

@[ext] theorem ext {d d' : Dict κ α} (h : d.entries = d'.entries) : d = d' := by
  cases d
  cases d'
  cases h
  rfl

/-- The keys, oldest first. -/
def keys (d : Dict κ α) : List κ := d.entries.map Prod.fst

/-- The values, in the order of their keys. -/
def values (d : Dict κ α) : List α := d.entries.map Prod.snd

variable [DecidableEq κ]

/-- The value of the key `k`, if there is one. -/
def get? (d : Dict κ α) (k : κ) : Option α :=
  (d.entries.find? fun e => e.1 = k).map Prod.snd

variable {d : Dict κ α} {k : κ} {v : α}

/-- An entry of a dictionary is what a lookup of its key finds. -/
theorem get?_eq_some_iff : d.get? k = some v ↔ (k, v) ∈ d.entries := by
  obtain ⟨l, hl⟩ := d
  simp only [get?]
  induction l with
  | nil => simp
  | cons e l ih =>
    obtain ⟨k', v'⟩ := e
    rw [map_cons, nodup_cons] at hl
    by_cases hk : k' = k
    · subst hk
      -- The first entry has the key, so no later one does.
      have hnot : ∀ w, (k', w) ∉ l := fun w hw => hl.1 (List.mem_map.2 ⟨(k', w), hw, rfl⟩)
      simp [hnot, eq_comm]
    · rw [find?_cons_of_neg (by simpa using hk), ih hl.2]
      simp [Ne.symm hk]

theorem get?_eq_none_iff : d.get? k = none ↔ ∀ v, (k, v) ∉ d.entries := by
  rw [Option.eq_none_iff_forall_ne_some]
  exact forall_congr' fun v => not_congr get?_eq_some_iff

@[simp] theorem get?_empty {k : κ} : (∅ : Dict κ α).get? k = none := rfl

theorem mem_keys : k ∈ d.keys ↔ ∃ v, d.get? k = some v := by
  simp [keys, get?_eq_some_iff]

theorem mem_values : v ∈ d.values ↔ ∃ k, d.get? k = some v := by
  simp [values, get?_eq_some_iff]

/-! ## Writing and deleting -/

/-- The entries with the value of `k` replaced in place. -/
def replaceEntries (l : List (κ × α)) (k : κ) (v : α) : List (κ × α) :=
  l.map fun e => if e.1 = k then (k, v) else e

theorem replaceEntries_keys (l : List (κ × α)) (k : κ) (v : α) :
    (replaceEntries l k v).map Prod.fst = l.map Prod.fst := by
  rw [replaceEntries, List.map_map]
  refine map_congr_left fun e _ => ?_
  by_cases h : e.1 = k <;> simp [h]

/-- `d[k] = v`: in place when `k` is a key of `d`, else appended. -/
def set (d : Dict κ α) (k : κ) (v : α) : Dict κ α :=
  if h : k ∈ d.entries.map Prod.fst then
    ⟨replaceEntries d.entries k v, by rw [replaceEntries_keys]; exact d.nodup⟩
  else
    ⟨d.entries ++ [(k, v)], by
      rw [List.map_append, List.nodup_append]
      refine ⟨d.nodup, List.nodup_singleton _, fun a ha b hb hab => h ?_⟩
      rw [List.map_singleton, List.mem_singleton] at hb
      rwa [hab, hb] at ha⟩

/-- `d.pop(k, None)`. -/
def erase (d : Dict κ α) (k : κ) : Dict κ α :=
  ⟨d.entries.filter fun e => e.1 ≠ k, d.nodup.sublist (List.filter_sublist.map _)⟩

variable {k' : κ}

theorem mem_set_entries {v' : α} :
    (k', v') ∈ (d.set k v).entries ↔ (k' = k ∧ v' = v) ∨ (k' ≠ k ∧ (k', v') ∈ d.entries) := by
  by_cases h : k ∈ d.entries.map Prod.fst
  · rw [set, dif_pos h]
    simp only [replaceEntries, List.mem_map]
    constructor
    · rintro ⟨e, he, heq⟩
      by_cases hk : e.1 = k
      · rw [if_pos hk, Prod.mk.injEq] at heq
        exact .inl ⟨heq.1.symm, heq.2.symm⟩
      · rw [if_neg hk] at heq
        subst heq
        exact .inr ⟨hk, he⟩
    · rintro (⟨rfl, rfl⟩ | ⟨hk, he⟩)
      · obtain ⟨e, he, hek⟩ := List.mem_map.1 h
        exact ⟨e, he, if_pos hek⟩
      · exact ⟨(k', v'), he, if_neg hk⟩
  · rw [set, dif_neg h]
    simp only [mem_append, mem_singleton, Prod.mk.injEq]
    constructor
    · rintro (he | he)
      · refine .inr ⟨fun hk => h ?_, he⟩
        exact hk ▸ List.mem_map_of_mem (f := Prod.fst) he
      · exact .inl he
    · rintro (he | ⟨_, he⟩)
      · exact .inr he
      · exact .inl he

@[simp] theorem get?_set_self {d : Dict κ α} {k : κ} {v : α} : (d.set k v).get? k = some v := by
  simp [get?_eq_some_iff, mem_set_entries]

@[simp] theorem get?_set_of_ne {d : Dict κ α} {k k' : κ} {v : α} (h : k' ≠ k) :
    (d.set k v).get? k' = d.get? k' := by
  ext w
  simp [get?_eq_some_iff, mem_set_entries, h]

theorem get?_set : (d.set k v).get? k' = if k' = k then some v else d.get? k' := by
  split_ifs with h
  · rw [h, get?_set_self]
  · exact get?_set_of_ne h

/-- Writing what is there changes nothing. -/
theorem set_of_get? (h : d.get? k = some v) : d.set k v = d := by
  have hmem := get?_eq_some_iff.1 h
  have hkey : k ∈ d.entries.map Prod.fst := List.mem_map.2 ⟨(k, v), hmem, rfl⟩
  refine Dict.ext ?_
  rw [set, dif_pos hkey]
  change replaceEntries d.entries k v = d.entries
  rw [replaceEntries]
  conv_rhs => rw [← List.map_id d.entries]
  refine map_congr_left fun e he => ?_
  split_ifs with hk
  · have he' : d.get? k = some e.2 := get?_eq_some_iff.2 (by rw [← hk]; exact he)
    rw [h] at he'
    cases he'
    exact Prod.ext hk.symm rfl
  · rfl

theorem mem_erase_entries {v' : α} :
    (k', v') ∈ (d.erase k).entries ↔ k' ≠ k ∧ (k', v') ∈ d.entries := by
  simp [erase, and_comm]

@[simp] theorem get?_erase_self {d : Dict κ α} {k : κ} : (d.erase k).get? k = none := by
  simp [get?_eq_none_iff, mem_erase_entries]

@[simp] theorem get?_erase_of_ne {d : Dict κ α} {k k' : κ} (h : k' ≠ k) :
    (d.erase k).get? k' = d.get? k' := by
  ext w
  simp [get?_eq_some_iff, mem_erase_entries, h]

theorem get?_erase : (d.erase k).get? k' = if k' = k then none else d.get? k' := by
  split_ifs with h
  · rw [h, get?_erase_self]
  · exact get?_erase_of_ne h

/-! ## The number of entries -/

theorem entries_set_of_none (h : d.get? k = none) :
    (d.set k v).entries = d.entries ++ [(k, v)] := by
  have hk : k ∉ d.entries.map Prod.fst := fun hk => by
    obtain ⟨e, he, rfl⟩ := List.mem_map.1 hk
    exact get?_eq_none_iff.1 h e.2 he
  rw [set, dif_neg hk]

theorem length_set_of_none (h : d.get? k = none) :
    (d.set k v).entries.length = d.entries.length + 1 := by
  rw [entries_set_of_none h, length_append, length_singleton]

theorem length_erase (h : d.get? k = some v) :
    (d.erase k).entries.length + 1 = d.entries.length := by
  obtain ⟨l, hl⟩ := d
  rw [get?_eq_some_iff] at h
  simp only [erase]
  induction l with
  | nil => cases h
  | cons e l ih =>
    rw [map_cons, nodup_cons] at hl
    rcases mem_cons.1 h with rfl | h
    · -- The key occurs nowhere else.
      have hne : ∀ e ∈ l, e.1 ≠ k := fun e he hek =>
        hl.1 (List.mem_map.2 ⟨e, he, hek⟩)
      rw [filter_cons_of_neg (by simp), filter_eq_self.2 (by simpa using hne)]
      rfl
    · have hne : e.1 ≠ k := fun hek => hl.1 (hek ▸ List.mem_map_of_mem (f := Prod.fst) h)
      rw [filter_cons_of_pos (by simpa using hne), length_cons, ih hl.2 h, length_cons]

/-- An entry that is erased, among the others. -/
theorem exists_entries_erase (h : d.get? k = some v) :
    ∃ l l', d.entries = l ++ (k, v) :: l' ∧ (d.erase k).entries = l ++ l' := by
  obtain ⟨l, l', hll⟩ := append_of_mem (get?_eq_some_iff.1 h)
  refine ⟨l, l', hll, ?_⟩
  have hnd := d.nodup
  rw [hll, map_append, map_cons, nodup_append, nodup_cons] at hnd
  have hl : ∀ e ∈ l, e.1 ≠ k := fun e he hek =>
    hnd.2.2 e.1 (List.mem_map_of_mem (f := Prod.fst) he) k mem_cons_self hek
  have hl' : ∀ e ∈ l', e.1 ≠ k := fun e he hek => hnd.2.1.1 (List.mem_map.2 ⟨e, he, hek⟩)
  change d.entries.filter (fun e => e.1 ≠ k) = l ++ l'
  rw [hll, filter_append, filter_cons_of_neg (by simp),
    filter_eq_self.2 (by simpa using hl), filter_eq_self.2 (by simpa using hl')]

/-- `d.setdefault(k, v)`: a value that is there stays. -/
def setDefault (d : Dict κ α) (k : κ) (v : α) : Dict κ α := if k ∈ d.keys then d else d.set k v

/-! ## Changing every value -/

/-- The dictionary with `f` applied to every value. -/
def map (f : α → α) (d : Dict κ α) : Dict κ α :=
  ⟨d.entries.map fun e => (e.1, f e.2), by rw [List.map_map]; exact d.nodup⟩

@[simp] theorem get?_map {f : α → α} {d : Dict κ α} {k : κ} :
    (d.map f).get? k = (d.get? k).map f := by
  obtain ⟨l, hl⟩ := d
  simp only [map, get?, find?_map, Option.map_map]
  rfl

/-- The dictionary with `f k` applied to the value of every key `k`. -/
def mapWithKey (f : κ → α → α) (d : Dict κ α) : Dict κ α :=
  ⟨d.entries.map fun e => (e.1, f e.1 e.2), by rw [List.map_map]; exact d.nodup⟩

theorem get?_mapWithKey {f : κ → α → α} : (d.mapWithKey f).get? k = (d.get? k).map (f k) := by
  ext v
  rw [get?_eq_some_iff, Option.map_eq_some_iff]
  simp only [mapWithKey, List.mem_map, Prod.mk.injEq, get?_eq_some_iff]
  constructor
  · rintro ⟨e, he, rfl, rfl⟩
    exact ⟨e.2, he, rfl⟩
  · rintro ⟨w, hw, rfl⟩
    exact ⟨(k, w), hw, rfl, rfl⟩

omit [DecidableEq κ] in
@[simp] theorem keys_map {f : α → α} {d : Dict κ α} : (d.map f).keys = d.keys := by
  simp [keys, map]

theorem mem_keys_set : k' ∈ (d.set k v).keys ↔ k' = k ∨ k' ∈ d.keys := by
  simp only [mem_keys, get?_set]
  by_cases h : k' = k <;> simp [h]

theorem mem_keys_erase : k' ∈ (d.erase k).keys ↔ k' ≠ k ∧ k' ∈ d.keys := by
  simp only [mem_keys, get?_erase]
  by_cases h : k' = k <;> simp [h]

/-! ## Selecting entries -/

/-- The entries whose values meet `p`. -/
def filter (p : α → Bool) (d : Dict κ α) : Dict κ α :=
  ⟨d.entries.filter fun e => p e.2, d.nodup.sublist (List.filter_sublist.map _)⟩

theorem get?_filter {p : α → Bool} : (d.filter p).get? k = (d.get? k).filter p := by
  ext v
  rw [get?_eq_some_iff, Option.filter_eq_some_iff, get?_eq_some_iff]
  exact mem_filter

/-- The entries that meet `p`. -/
def select (p : κ → α → Bool) (d : Dict κ α) : Dict κ α :=
  ⟨d.entries.filter fun e => p e.1 e.2, d.nodup.sublist (List.filter_sublist.map _)⟩

theorem get?_select {p : κ → α → Bool} : (d.select p).get? k = (d.get? k).filter (p k) := by
  ext v
  rw [get?_eq_some_iff, Option.filter_eq_some_iff, get?_eq_some_iff]
  exact mem_filter

/-- What is written under a key that `p` does not select is not selected. -/
theorem select_set_of_not {p : κ → α → Bool} (hp : ∀ v, p k v = false)
    (v : α) : (d.set k v).select p = d.select p := by
  refine ext ?_
  rw [set]
  split_ifs with h
  · have hreplace : ∀ l : List (κ × α), (replaceEntries l k v).filter (fun e => p e.1 e.2) =
        l.filter fun e => p e.1 e.2 := by
      intro l
      rw [replaceEntries]
      induction l with
      | nil => rfl
      | cons e l ih =>
        rw [map_cons, filter_cons, filter_cons, ih]
        by_cases he : e.1 = k
        · rw [if_pos he, hp, he, hp]
          rfl
        · rw [if_neg he]
    exact hreplace d.entries
  · have happend : (d.entries ++ [(k, v)]).filter (fun e => p e.1 e.2) =
        d.entries.filter fun e => p e.1 e.2 := by
      rw [filter_append, filter_singleton, hp]
      exact append_nil _
    exact happend

/-- What is written under a key that `p` selects is. -/
theorem select_set {p : κ → α → Bool} (hp : ∀ v, p k v = true) (v : α) :
    (d.set k v).select p = (d.select p).set k v := by
  have hkeys : k ∈ (d.select p).entries.map Prod.fst ↔ k ∈ d.entries.map Prod.fst := by
    rw [List.mem_map, List.mem_map]
    refine ⟨fun ⟨e, he, hk⟩ => ⟨e, (mem_filter.1 he).1, hk⟩, ?_⟩
    rintro ⟨e, he, rfl⟩
    exact ⟨e, mem_filter.2 ⟨he, hp _⟩, rfl⟩
  refine ext ?_
  rw [set, set]
  by_cases h : k ∈ d.entries.map Prod.fst
  · rw [dif_pos h, dif_pos (hkeys.2 h)]
    have hreplace : ∀ l : List (κ × α), (replaceEntries l k v).filter (fun e => p e.1 e.2) =
        replaceEntries (l.filter fun e => p e.1 e.2) k v := by
      intro l
      rw [replaceEntries, replaceEntries]
      induction l with
      | nil => rfl
      | cons e l ih =>
        rw [map_cons, filter_cons, filter_cons, ih]
        by_cases he : e.1 = k
        · rw [if_pos he, hp, he, hp, if_pos rfl, if_pos rfl, map_cons, if_pos he]
        · rw [if_neg he]
          split_ifs
          · rw [map_cons, if_neg he]
          · rfl
    exact hreplace d.entries
  · rw [dif_neg h, dif_neg (mt hkeys.1 h)]
    have happend : (d.entries ++ [(k, v)]).filter (fun e => p e.1 e.2) =
        d.entries.filter (fun e => p e.1 e.2) ++ [(k, v)] := by
      rw [filter_append, filter_singleton, hp]
      rfl
    exact happend

theorem get?_foldl_erase {l : List κ} :
    (l.foldl erase d).get? k = if k ∈ l then none else d.get? k := by
  induction l generalizing d with
  | nil => simp
  | cons k' l ih =>
    rw [foldl_cons, ih, get?_erase]
    by_cases hk : k = k' <;> simp [hk]

/-! ## Writing a list of entries -/

theorem get?_foldl_set_of_ne {β : Type*} {f : β → κ} {g : β → α} :
    ∀ {l : List β} {d : Dict κ α}, (∀ b ∈ l, f b ≠ k) →
      (l.foldl (fun d b => d.set (f b) (g b)) d).get? k = d.get? k
  | [], _, _ => rfl
  | b :: l, d, h => by
    rw [foldl_cons, get?_foldl_set_of_ne fun b hb => h b (mem_cons_of_mem _ hb)]
    exact get?_set_of_ne (h b mem_cons_self).symm

/-- When no key is written twice, each has the value written for it. -/
theorem get?_foldl_set_of_mem {β : Type*} {f : β → κ} {g : β → α} {b : β} :
    ∀ {l : List β} {d : Dict κ α}, (l.map f).Nodup → b ∈ l →
      (l.foldl (fun d b => d.set (f b) (g b)) d).get? (f b) = some (g b)
  | b' :: l, d, hl, hb => by
    rw [map_cons, nodup_cons] at hl
    rw [foldl_cons]
    rcases mem_cons.1 hb with rfl | hb
    · rw [get?_foldl_set_of_ne fun c hc hcb => hl.1 (List.mem_map.2 ⟨c, hc, hcb⟩), get?_set_self]
    · exact get?_foldl_set_of_mem hl.2 hb

/-- All entries of `d'` written over those of `d`. -/
theorem get?_foldl_entries {β : Type*} {d' : Dict κ β} {f : κ → β → α} :
    (d'.entries.foldl (fun d e => d.set e.1 (f e.1 e.2)) d).get? k =
      ((d'.get? k).map (f k)).or (d.get? k) := by
  rcases hk : d'.get? k with _ | v
  · refine get?_foldl_set_of_ne fun e he hek => ?_
    exact get?_eq_none_iff.1 hk e.2 (hek ▸ he)
  · have he : (k, v) ∈ d'.entries := get?_eq_some_iff.1 hk
    exact get?_foldl_set_of_mem (g := fun e : κ × β => f e.1 e.2) d'.nodup he

/-! ## Counting what the entries give rise to -/

/-- Only the entry of one key counts, when the others contribute nothing. -/
theorem countP_flatMap_entries {β : Type*} {f : κ × α → List β}
    {p : β → Bool} (h : d.get? k = some v) (hf : ∀ e, e.1 ≠ k → ∀ b ∈ f e, ¬ p b) :
    (d.entries.flatMap f).countP p = (f (k, v)).countP p := by
  obtain ⟨l, l', hll⟩ := append_of_mem (get?_eq_some_iff.1 h)
  have hnd := d.nodup
  rw [hll, map_append, map_cons, nodup_append, nodup_cons] at hnd
  have hzero : ∀ m : List (κ × α), (∀ e ∈ m, e.1 ≠ k) → (m.flatMap f).countP p = 0 := by
    intro m hm
    rw [countP_eq_zero]
    intro b hb
    obtain ⟨e, he, hb⟩ := mem_flatMap.1 hb
    exact hf e (hm e he) b hb
  have hl : ∀ e ∈ l, e.1 ≠ k := fun e he hek =>
    hnd.2.2 e.1 (List.mem_map_of_mem (f := Prod.fst) he) k mem_cons_self hek
  have hl' : ∀ e ∈ l', e.1 ≠ k := fun e he hek =>
    hnd.2.1.1 (List.mem_map.2 ⟨e, he, hek⟩)
  rw [hll, flatMap_append, flatMap_cons, countP_append, countP_append,
    hzero l hl, hzero l' hl', Nat.zero_add, Nat.add_zero]

/-! ## Free names -/

/-- The first of the names `name i`, `name (i + 1)`, … that is not a key, when
    at most `n` names are tested. -/
def freeKey (d : Dict κ α) (name : ℕ → κ) : ℕ → ℕ → κ
  | 0, i => name i
  | n + 1, i => if name i ∈ d.keys then freeKey d name n (i + 1) else name i

theorem name_mem_of_freeKey_mem {name : ℕ → κ} :
    ∀ {n i : ℕ}, d.freeKey name n i ∈ d.keys → ∀ j ≤ n, name (i + j) ∈ d.keys
  | 0, i, h, j, hj => by
    obtain rfl : j = 0 := Nat.le_zero.1 hj
    exact h
  | n + 1, i, h, j, hj => by
    rw [freeKey] at h
    split_ifs at h with hi
    · rcases j with _ | j
      · exact hi
      · rw [Nat.add_succ, ← Nat.succ_add]
        exact name_mem_of_freeKey_mem h j (Nat.le_of_succ_le_succ hj)
    · exact absurd h hi

/-- There are more names than keys, so one of them is free. -/
theorem freeKey_not_mem {name : ℕ → κ} (hname : Function.Injective name) :
    d.freeKey name d.keys.length 0 ∉ d.keys := by
  intro h
  have hsub : ((List.range (d.keys.length + 1)).map name) ⊆ d.keys := fun k hk => by
    obtain ⟨j, hj, rfl⟩ := List.mem_map.1 hk
    have := name_mem_of_freeKey_mem h j (Nat.lt_succ_iff.1 (mem_range.1 hj))
    rwa [Nat.zero_add] at this
  have hle := (subperm_of_subset (nodup_range.map hname) hsub).length_le
  rw [length_map, length_range] at hle
  exact Nat.not_succ_le_self _ hle

end Dict
