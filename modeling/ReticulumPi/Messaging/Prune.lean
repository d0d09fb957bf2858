import Mathlib.Data.List.Dedup
import ReticulumPi.Messaging.Outbound

/-!
# Pruning the message store

`prune` leaves of every transport and its variant as many messages as there may
be: it deletes those first that are read, of these the oldest, and only then
any that is not read (`prune_prunes`). Of two that are alike in this it takes the
one that was stored first.
-/

namespace ReticulumPi.Messaging.Store

open List

/-- What `prune` does. -/
structure Prunes (store : Store) (maxMessages : ℕ) : Prop where
  /-- The rows that stay are as they were, -/
  sublist : (store.prune maxMessages).rows.entries.Sublist store.rows.entries
  /-- of every transport and variant as many as there may be, -/
  length : ∀ key, ((store.prune maxMessages).bucket key).length =
    min maxMessages (store.bucket key).length
  /-- and those that do not come before them. -/
  before : ∀ key, ∀ e ∈ store.bucket key, e ∉ (store.prune maxMessages).bucket key →
    ∀ e' ∈ (store.prune maxMessages).bucket key, PrunedBefore e e'
  /-- The ids of those that are deleted are told once each, -/
  count : (store.victims maxMessages).length + (store.prune maxMessages).rows.entries.length =
    store.rows.entries.length
  /-- and there are no more of them when it is called again. -/
  again : (store.prune maxMessages).prune maxMessages = store.prune maxMessages

instance : Std.Total PrunedBefore where
  total a b := by
    simp only [PrunedBefore]
    cases a.2.isRead <;> cases b.2.isRead <;> simp [le_total]

instance : IsTrans (ℕ × Row) PrunedBefore where
  trans a b c := by
    simp only [PrunedBefore]
    cases a.2.isRead <;> cases b.2.isRead <;> cases c.2.isRead <;> simp <;> exact le_trans

variable {store : Store} {key : String × String} {e e' : ℕ × Row} {k : ℕ}

theorem length_filter_add {α : Type} {l m : List α} {p : α → Bool} (hl : l.Nodup) (hm : m.Nodup)
    (hsub : m ⊆ l) (hp : ∀ x ∈ l, p x = true ↔ x ∉ m) :
    (l.filter p).length + m.length = l.length := by
  have hperm : (l.filter (!p ·)).Perm m := (perm_ext_iff_of_nodup (hl.filter _) hm).2 fun x => by
    rw [mem_filter, Bool.not_eq_true', Bool.eq_false_iff]
    exact ⟨fun h => not_not.1 (mt (hp x h.1).2 h.2), fun h =>
      ⟨hsub h, mt (hp x (hsub h)).1 (not_not.2 h)⟩⟩
  rw [length_eq_length_filter_add (l := l) p, hperm.length_eq]

/-! ## One bucket -/

/-- The rows of a bucket that are deleted. -/
def oldest (store : Store) (key : String × String) (k : ℕ) : List (ℕ × Row) :=
  ((store.bucket key).insertionSort PrunedBefore).take ((store.bucket key).length - k)

theorem mem_bucket : e ∈ store.bucket key ↔ e ∈ store.rows.entries ∧
    (e.2.message.transport, e.2.message.subTransport) = key := by
  rw [bucket, mem_filter, decide_eq_true_eq]

theorem oldest_subset : store.oldest key k ⊆ store.bucket key := fun _ h =>
  (mem_insertionSort _).1 (mem_of_mem_take h)

theorem nodup_bucket (store : Store) (key : String × String) : (store.bucket key).Nodup :=
  store.rows.nodup.of_map.filter _

theorem nodup_oldest : (store.oldest key k).Nodup :=
  ((perm_insertionSort _ _).nodup_iff.2 (store.nodup_bucket key)).take

theorem length_oldest : (store.oldest key k).length = (store.bucket key).length - k := by
  rw [oldest, length_take, length_insertionSort]
  exact min_eq_left (Nat.sub_le _ _)

/-- What is deleted comes before what is not. -/
theorem prunedBefore_of_mem_oldest (he : e ∈ store.oldest key k) (he' : e' ∈ store.bucket key)
    (hkept : e' ∉ store.oldest key k) : PrunedBefore e e' := by
  have hsorted := pairwise_insertionSort PrunedBefore (store.bucket key)
  have hmem := (mem_insertionSort PrunedBefore).2 he'
  rw [← take_append_drop ((store.bucket key).length - k) (insertionSort ..)] at hsorted hmem
  rw [pairwise_append] at hsorted
  rw [mem_append] at hmem
  exact hsorted.2.2 e he e' (hmem.resolve_left hkept)

/-! ## The table -/

theorem victims_eq : store.victims k = ((store.rows.values.map fun row =>
    (row.message.transport, row.message.subTransport)).dedup.flatMap
      (store.oldest · k)).map Prod.fst := by
  rw [map_flatMap]
  rfl

/-- A row is deleted when it is one of the first in the order of its bucket. -/
theorem mem_victims (he : e ∈ store.bucket key) :
    e.1 ∈ store.victims k ↔ e ∈ store.oldest key k := by
  obtain ⟨hmem, rfl⟩ := mem_bucket.1 he
  rw [victims_eq, mem_map]
  constructor
  · rintro ⟨e', he', heq⟩
    obtain ⟨key, -, he'⟩ := mem_flatMap.1 he'
    obtain ⟨hmem', rfl⟩ := mem_bucket.1 (oldest_subset he')
    exact inj_on_of_nodup_map store.rows.nodup hmem' hmem heq ▸ he'
  · intro h
    exact ⟨e, mem_flatMap.2 ⟨_, mem_dedup.2 (mem_map_of_mem (mem_map_of_mem hmem)), h⟩, rfl⟩

theorem nodup_victims : (store.victims k).Nodup := by
  rw [victims_eq]
  refine Nodup.map_on (fun e he e' he' heq => ?_) (nodup_flatMap.2 ⟨fun _ _ => nodup_oldest, ?_⟩)
  · obtain ⟨_, -, he⟩ := mem_flatMap.1 he
    obtain ⟨_, -, he'⟩ := mem_flatMap.1 he'
    exact inj_on_of_nodup_map store.rows.nodup (mem_bucket.1 (oldest_subset he)).1
      (mem_bucket.1 (oldest_subset he')).1 heq
  · refine (nodup_dedup _).imp fun hne e h h' => hne ?_
    exact (mem_bucket.1 (oldest_subset h)).2.symm.trans (mem_bucket.1 (oldest_subset h')).2

theorem entries_prune (h : 0 < k) : (store.prune k).rows.entries =
    store.rows.entries.filter (·.1 ∉ store.victims k) := by
  rw [prune, if_neg h.ne']
  rfl

theorem bucket_prune (h : 0 < k) :
    (store.prune k).bucket key = (store.bucket key).filter (·.1 ∉ store.victims k) := by
  rw [bucket, entries_prune h, filter_comm, bucket]

theorem mem_bucket_prune (h : 0 < k) :
    e ∈ (store.prune k).bucket key ↔ e ∈ store.bucket key ∧ e ∉ store.oldest key k := by
  rw [bucket_prune h, mem_filter, decide_eq_true_eq]
  exact and_congr_right fun he => not_congr (mem_victims he)

theorem length_bucket_prune (h : 0 < k) :
    ((store.prune k).bucket key).length = min k (store.bucket key).length := by
  have hlen := length_filter_add (store.nodup_bucket key) nodup_oldest oldest_subset
    fun e he => decide_eq_true_iff.trans (not_congr (mem_victims (k := k) he))
  rw [length_oldest, ← bucket_prune h] at hlen
  omega

theorem prune_prunes (h : 0 < k) (store : Store) : store.Prunes k where
  sublist := by
    rw [entries_prune h]
    exact filter_sublist
  length _ := length_bucket_prune h
  before key e he hgone e' he' := by
    rw [mem_bucket_prune h] at hgone he'
    refine prunedBefore_of_mem_oldest ?_ he'.1 he'.2
    by_contra hkept
    exact hgone ⟨he, hkept⟩
  count := by
    have hsub : store.victims k ⊆ store.rows.entries.map Prod.fst := fun id hid => by
      rw [victims_eq] at hid
      obtain ⟨e, he, rfl⟩ := mem_map.1 hid
      obtain ⟨_, -, he⟩ := mem_flatMap.1 he
      exact mem_map_of_mem (mem_bucket.1 (oldest_subset he)).1
    have hlen := length_filter_add store.rows.nodup nodup_victims hsub
      fun _ _ => decide_eq_true_iff
    rw [filter_map, length_map, length_map] at hlen
    rw [entries_prune h, Nat.add_comm]
    exact hlen
  again := by
    have hnone : (store.prune k).victims k = [] := by
      rw [victims_eq, map_eq_nil_iff, flatMap_eq_nil_iff]
      refine fun key _ => length_eq_zero_iff.1 ?_
      rw [length_oldest, length_bucket_prune h]
      omega
    have hrows : ((store.prune k).prune k).rows = (store.prune k).rows :=
      Dict.ext (by rw [entries_prune h, hnone]; simp)
    generalize store.prune k = pruned at hrows ⊢
    rw [prune, if_neg h.ne'] at hrows ⊢
    cases pruned
    exact congrArg (Store.mk · _ _) hrows

/-- Two messages of one bucket, of which the older is not read. -/
def oneUnread : Store where
  rows :=
    ((∅ : Dict ℕ Row).set 1 ⟨⟨"lxmf", "a", "b", "direct", ""⟩, .received, 1, false, false⟩).set 2
      ⟨⟨"lxmf", "c", "b", "direct", ""⟩, .received, 2, false, true⟩

/-- The newer of the two is deleted. -/
theorem prune_prunes_one : oneUnread.Prunes 1 ∧ (oneUnread.prune 1).rows.keys = [1] :=
  ⟨prune_prunes (by decide) _, by decide⟩

end ReticulumPi.Messaging.Store
