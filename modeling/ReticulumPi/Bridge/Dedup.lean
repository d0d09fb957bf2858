import Mathlib.Tactic.Linarith
import ReticulumPi.Lib.Dict
import ReticulumPi.Lib.Recency
import ReticulumPi.Lib.Transition

/-!
# The duplicate cache of the bridge

`mesh_bridge` remembers when it has seen a message, and takes one that it has
seen within the TTL for a duplicate. The cache is a dictionary: a key that is
recorded again keeps its place, and where there are too many entries, those that
are out of date go, and then the first ones.

The operations run under `_lock`, and are steps of a system that also keeps two
records: which keys were recorded and when, and which were inserted, that is,
recorded while they were absent.

* `forgets_first_inserted`: what is removed before its time was inserted before
  whatever stays, and what is among the last `dedup_max` keys inserted is found
  until it is out of date;
* `forgets_recently_recorded`: not so of what was recorded last.
-/

namespace ReticulumPi.Bridge.Dedup

open Recency List

structure Config where
  /-- `_dedup_ttl` -/
  ttl : ℚ
  /-- `_dedup_max` -/
  max : ℤ

variable {κ : Type*} [DecidableEq κ]

/-! ## The operations -/

variable (c : Config)

/-- `_dedup_check_and_record`, the check -/
def Config.isDuplicate (cache : Dict κ ℚ) (key : κ) (now : ℚ) : Bool :=
  match cache.get? key with
  | some ts => decide (now - ts ≤ c.ttl)
  | none => false

/-- Deleting the first `excess` keys. -/
def dropFirst (excess : ℕ) (cache : Dict κ ℚ) : Dict κ ℚ :=
  (cache.keys.take excess).foldl Dict.erase cache

/-- What `_dedup_check_and_record` and `_dedup_record` do where there are too many entries. -/
def Config.trim (now : ℚ) (cache : Dict κ ℚ) : Dict κ ℚ :=
  if c.max < cache.entries.length then
    let cutoff := now - c.ttl
    let cache := cache.filter fun v => cutoff < v
    if c.max < cache.entries.length then
      dropFirst (cache.entries.length - c.max).toNat cache
    else cache
  else cache

/-- `_dedup_record` -/
def Config.record (key : κ) (now : ℚ) (cache : Dict κ ℚ) : Dict κ ℚ :=
  c.trim now (cache.set key now)

/-- `_dedup_check_and_record`: whether the key is a duplicate, and the cache then. -/
def Config.checkAndRecord (key : κ) (now : ℚ) (cache : Dict κ ℚ) : Bool × Dict κ ℚ :=
  if c.isDuplicate cache key now then (true, cache) else (false, c.record key now cache)

/-! ## Runs -/

/-- A call of one of the two, at the time `now`. -/
structure Call (κ : Type*) where
  key : κ
  now : ℚ
  /-- Whether it is `_dedup_check_and_record`. -/
  checks : Bool

/-- The cache, and what has come to pass. -/
structure State (κ : Type*) where
  cache : Dict κ ℚ
  /-- The time of the last call. -/
  now : ℚ
  /-- The keys recorded and the times, the latest first. -/
  recorded : List (κ × ℚ)
  /-- The keys recorded while they were not in the cache, the latest first. -/
  inserted : List κ

variable (s : State κ) (call : Call κ)

/-- Whether a call records its key. -/
def Config.records : Bool :=
  !(call.checks && c.isDuplicate s.cache call.key call.now)

/-- What is in the cache when the key has been written, before it is trimmed. -/
def State.written : Dict κ ℚ := s.cache.set call.key call.now

/-- The keys inserted once the key of a call has been written. -/
def State.insertedBy : List κ :=
  if s.cache.get? call.key = none then call.key :: s.inserted else s.inserted

/-- The cache after a call. -/
def Config.after : Dict κ ℚ :=
  if call.checks then (c.checkAndRecord call.key call.now s.cache).2
  else c.record call.key call.now s.cache

/-- A call, not before the last one. -/
def Config.next : Option (State κ) :=
  if s.now ≤ call.now then
    some {
      cache := c.after s call
      now := call.now
      recorded := if c.records s call then (call.key, call.now) :: s.recorded else s.recorded
      inserted := if c.records s call then s.insertedBy call else s.inserted }
  else none

/-- The bridge starts with an empty cache. -/
def IsInit : Prop := s.cache = ∅ ∧ s.recorded = [] ∧ s.inserted = []

def Config.system : Transition (State κ) (Call κ) := .ofNext IsInit c.next

/-- When a key was last recorded. -/
def State.lastRecorded (key : κ) : Option ℚ :=
  (s.recorded.find? fun e => e.1 = key).map Prod.snd

/-! ## What is trimmed -/

theorem keys_foldl_erase_sublist (l : List κ) (d : Dict κ ℚ) :
    (l.foldl Dict.erase d).keys.Sublist d.keys := by
  induction l generalizing d with
  | nil => exact .refl _
  | cons k l ih => exact (ih _).trans (filter_sublist.map _)

variable {k : κ}

theorem get?_dropFirst {n : ℕ} {d : Dict κ ℚ} :
    (dropFirst n d).get? k = if k ∈ d.keys.take n then none else d.get? k := Dict.get?_foldl_erase

omit [DecidableEq κ] in
theorem nodup_keys (d : Dict κ ℚ) : d.keys.Nodup := d.nodup

variable {c : Config} {now : ℚ} {d : Dict κ ℚ}

/-- How an entry goes: it is out of date, and nothing stays that is, or it is
    among the first of those that are not. -/
theorem trim_cases (c : Config) (now : ℚ) (d : Dict κ ℚ) :
    c.trim now d = d ∨
      ∃ n, c.trim now d = dropFirst n (d.filter fun v => now - c.ttl < v) ∧
        ∀ k ∈ (d.filter fun v => now - c.ttl < v).keys.take n,
          k ∉ (d.filter fun v => now - c.ttl < v).keys.reverse.take c.max.toNat := by
  rw [Config.trim]
  dsimp only
  split_ifs with hfull hover
  · refine .inr ⟨_, rfl, fun k hk hlast => ?_⟩
    generalize hf : d.filter (fun v => now - c.ttl < v) = f at hover hk hlast
    -- The first and the last of the entries are different ones.
    have hlen : f.keys.length = f.entries.length := length_map _
    rcases le_or_gt c.max 0 with hmax | hmax
    · rw [Int.toNat_of_nonpos hmax] at hlast
      exact absurd hlast (by simp)
    · rw [take_reverse, mem_reverse, hlen] at hlast
      have hn : (f.entries.length - c.max : ℤ).toNat = f.entries.length - c.max.toNat := by omega
      rw [hn] at hk
      have hnd := nodup_keys f
      rw [← take_append_drop (f.entries.length - c.max.toNat) f.keys,
        nodup_append] at hnd
      exact hnd.2.2 k hk k hlast rfl
  · refine .inr ⟨0, ?_, fun k hk => absurd hk (by simp)⟩
    rw [dropFirst, take_zero]
    rfl
  · exact .inl rfl

omit [DecidableEq κ] in
theorem keys_filter_sublist (p : ℚ → Bool) (d : Dict κ ℚ) : (d.filter p).keys.Sublist d.keys :=
  filter_sublist.map _

theorem keys_trim_sublist (c : Config) (now : ℚ) (d : Dict κ ℚ) :
    (c.trim now d).keys.Sublist d.keys := by
  rcases trim_cases c now d with h | ⟨n, h, -⟩
  · rw [h]
  · rw [h]
    exact (keys_foldl_erase_sublist _ _).trans (keys_filter_sublist _ d)

theorem get?_filter_eq_some {p : ℚ → Bool} {v : ℚ} :
    (d.filter p).get? k = some v ↔ d.get? k = some v ∧ p v = true := by
  rw [Dict.get?_filter, Option.filter_eq_some_iff]

theorem get?_of_trim {v : ℚ} (h : (c.trim now d).get? k = some v) : d.get? k = some v := by
  rcases trim_cases c now d with heq | ⟨n, heq, -⟩
  · rwa [heq] at h
  · rw [heq, get?_dropFirst] at h
    split_ifs at h
    exact (get?_filter_eq_some.1 h).1

/-- What is among the last entries, and not out of date, stays. -/
theorem get?_trim_of_last {v : ℚ} (h : d.get? k = some v) (hv : now - c.ttl < v)
    (hlast : k ∈ d.keys.reverse.take c.max.toNat) : (c.trim now d).get? k = some v := by
  rcases trim_cases c now d with heq | ⟨n, heq, hfirst⟩
  · rw [heq, h]
  · have hf : (d.filter fun v => now - c.ttl < v).get? k = some v :=
      get?_filter_eq_some.2 ⟨h, decide_eq_true hv⟩
    rw [heq, get?_dropFirst, if_neg, hf]
    refine fun hk => hfirst k hk ?_
    refine mem_take_of_sublist (keys_filter_sublist _ d).reverse
      (nodup_reverse.2 (nodup_keys d)) ?_ hlast
    exact mem_reverse.2 (Dict.mem_keys.2 ⟨v, hf⟩)

/-- What goes is out of date, and was recorded before what stays, or it stands
    before it. -/
theorem removed_before {k' : κ} {v v' : ℚ} (h : d.get? k = some v)
    (hgone : (c.trim now d).get? k = none) (hstays : (c.trim now d).get? k' = some v') :
    (v ≤ now - c.ttl ∧ v < v') ∨ [k, k'].Sublist d.keys := by
  rcases trim_cases c now d with heq | ⟨n, heq, -⟩
  · rw [heq, h] at hgone
    cases hgone
  rw [heq, get?_dropFirst] at hgone hstays
  generalize hf : d.filter (fun v => now - c.ttl < v) = f at hgone hstays
  split_ifs at hstays with hk'
  have hnew : now - c.ttl < v' := by
    rw [← hf] at hstays
    exact of_decide_eq_true (get?_filter_eq_some.1 hstays).2
  rcases le_or_gt v (now - c.ttl) with hv | hv
  · exact .inl ⟨hv, lt_of_le_of_lt hv hnew⟩
  · have hfk : f.get? k = some v := hf ▸ get?_filter_eq_some.2 ⟨h, decide_eq_true hv⟩
    have hk : k ∈ f.keys.take n := by
      by_contra hk
      rw [if_neg hk, hfk] at hgone
      cases hgone
    have hdrop : k' ∈ f.keys.drop n := by
      have hmem := Dict.mem_keys.2 ⟨v', hstays⟩
      rw [← take_append_drop n f.keys, mem_append] at hmem
      exact hmem.resolve_left hk'
    refine .inr (.trans ?_ (hf ▸ keys_filter_sublist _ d))
    rw [← take_append_drop n f.keys]
    exact (singleton_sublist.2 hk).append (singleton_sublist.2 hdrop)

/-! ## The order of the cache -/

theorem after_eq (c : Config) (s : State κ) (call : Call κ) :
    c.after s call = if c.records s call then c.trim call.now (s.written call) else s.cache := by
  rw [Config.after, Config.records, Config.checkAndRecord]
  cases call.checks
  · rfl
  · cases c.isDuplicate s.cache call.key call.now <;> rfl

/-- The keys stand in the order in which they were inserted, with the times at
    which they were recorded last, and those inserted last are there as long as
    they are not out of date. -/
structure Sound (c : Config) (s : State κ) : Prop where
  order : s.cache.keys.reverse.Sublist (recent s.inserted)
  times : ∀ k v, s.cache.get? k = some v → s.lastRecorded k = some v
  found : ∀ k v, s.lastRecorded k = some v → k ∈ (recent s.inserted).take c.max.toNat →
    s.now - v < c.ttl → s.cache.get? k = some v

variable {s : State κ}

theorem sound_init (h : IsInit s) : Sound c s := by
  obtain ⟨cache, now, recorded, inserted⟩ := s
  obtain ⟨rfl, rfl, rfl⟩ := h
  exact ⟨.refl _, fun _ _ h => (Option.some_ne_none _ h.symm).elim,
    fun _ _ h => (Option.some_ne_none _ h.symm).elim⟩

theorem keys_set_of_some {v w : ℚ} (h : d.get? k = some v) : (d.set k w).keys = d.keys := by
  have hk : k ∈ d.entries.map Prod.fst := Dict.mem_keys.2 ⟨v, h⟩
  rw [Dict.set, dif_pos hk]
  exact Dict.replaceEntries_keys _ _ _

theorem keys_set_of_none {w : ℚ} (h : d.get? k = none) : (d.set k w).keys = d.keys ++ [k] := by
  rw [Dict.keys, Dict.entries_set_of_none h, map_append]
  rfl

theorem Sound.order_written (h : Sound c s) (call : Call κ) :
    (s.written call).keys.reverse.Sublist (recent (s.insertedBy call)) := by
  rw [State.written, State.insertedBy]
  split_ifs with hnone
  · rw [keys_set_of_none hnone, reverse_append]
    refine sublist_recent_cons h.order fun hmem => ?_
    obtain ⟨v, hv⟩ := Dict.mem_keys.1 (mem_reverse.1 hmem)
    rw [hnone] at hv
    cases hv
  · obtain ⟨v, hv⟩ := Option.ne_none_iff_exists'.1 hnone
    rw [keys_set_of_some hv]
    exact h.order

theorem mem_take_insertedBy {call : Call κ} {n : ℕ} (hne : k ≠ call.key)
    (h : k ∈ (recent (s.insertedBy call)).take n) : k ∈ (recent s.inserted).take n := by
  rw [State.insertedBy] at h
  split_ifs at h
  · exact mem_take_of_cons hne h
  · exact h

/-- A call finds a duplicate, or it records its key. -/
theorem next_cases {s' : State κ} {call : Call κ} (hs : c.next s call = some s') :
    s.now ≤ call.now ∧
      ((c.records s call = false ∧ s' = ⟨s.cache, call.now, s.recorded, s.inserted⟩) ∨
        (c.records s call = true ∧ s' = ⟨c.trim call.now (s.written call), call.now,
          (call.key, call.now) :: s.recorded, s.insertedBy call⟩)) := by
  rw [Config.next, after_eq] at hs
  by_cases hnow : s.now ≤ call.now
  · rw [if_pos hnow] at hs
    refine ⟨hnow, ?_⟩
    cases hrec : c.records s call
    · rw [hrec] at hs
      exact .inl ⟨rfl, (Option.some.inj hs).symm⟩
    · rw [hrec] at hs
      exact .inr ⟨rfl, (Option.some.inj hs).symm⟩
  · rw [if_neg hnow] at hs
    cases hs

theorem Sound.next {s' : State κ} {call : Call κ} (h : Sound c s) (hs : c.next s call = some s') :
    Sound c s' := by
  obtain ⟨hnow, ⟨-, rfl⟩ | ⟨-, rfl⟩⟩ := next_cases hs
  · -- The key is a duplicate, and only time has passed.
    refine ⟨h.order, h.times, fun k v hlast htake hv => h.found k v hlast htake ?_⟩
    exact lt_of_le_of_lt (sub_le_sub_right hnow v) hv
  · have hother : ∀ k, k ≠ call.key → (((call.key, call.now) :: s.recorded).find? fun e =>
        e.1 = k) = s.recorded.find? fun e => e.1 = k := fun k hne =>
      find?_cons_of_neg (by simpa using hne.symm)
    have hself : (((call.key, call.now) :: s.recorded).find? fun e => e.1 = call.key) =
        some (call.key, call.now) := find?_cons_of_pos (by simp)
    refine ⟨?_, fun k v hget => ?_, fun k v hlast htake hv => ?_⟩
    · exact ((keys_trim_sublist c call.now _).reverse).trans (h.order_written call)
    · have hget := get?_of_trim hget
      simp only [State.lastRecorded]
      by_cases hk : k = call.key
      · subst hk
        rw [hself]
        rwa [State.written, Dict.get?_set_self] at hget
      · rw [hother k hk]
        rw [State.written, Dict.get?_set_of_ne hk] at hget
        exact h.times k v hget
    · simp only [State.lastRecorded] at hlast htake hv ⊢
      have hwritten : (s.written call).get? k = some v := by
        by_cases hk : k = call.key
        · subst hk
          rw [hself] at hlast
          rw [State.written, Dict.get?_set_self]
          exact hlast
        · rw [hother k hk] at hlast
          rw [State.written, Dict.get?_set_of_ne hk]
          exact h.found k v hlast (mem_take_insertedBy hk htake)
            (lt_of_le_of_lt (sub_le_sub_right hnow v) hv)
      refine get?_trim_of_last hwritten (by linarith) ?_
      exact mem_take_of_sublist (h.order_written call) (nodup_recent _)
        (mem_reverse.2 (Dict.mem_keys.2 ⟨v, hwritten⟩)) htake

theorem sound_of_reachable (h : c.system.Reachable s) : Sound c s :=
  Transition.Reach.induction (I := Sound c) (fun _ => sound_init)
    (fun _ _ _ hs _ hstep => hs.next hstep) h

/-- In every run: what a call removes was out of date, and recorded before what
    stays, or was inserted before it; and a key among the last `dedup_max` that
    were inserted is a duplicate until it is out of date. -/
theorem forgets_first_inserted {s s' : State κ} {call : Call κ} (h : c.system.Reachable s)
    (hs : c.next s call = some s') :
    (∀ k v k' v', c.records s call → (s.written call).get? k = some v →
        s'.cache.get? k = none → s'.cache.get? k' = some v' →
          (v ≤ call.now - c.ttl ∧ v < v') ∨ [k', k].Sublist (recent s'.inserted)) ∧
      ∀ k v now, s'.lastRecorded k = some v → k ∈ (recent s'.inserted).take c.max.toNat →
        s'.now ≤ now → now - v < c.ttl → c.isDuplicate s'.cache k now := by
  have hsound := sound_of_reachable h
  have hsound' := hsound.next hs
  refine ⟨fun k v k' v' hrec hget hgone hstays => ?_, fun k v now hlast htake hnow hv => ?_⟩
  · obtain ⟨-, ⟨hnot, -⟩ | ⟨-, rfl⟩⟩ := next_cases hs
    · rw [hrec] at hnot
      cases hnot
    · exact (removed_before hget hgone hstays).imp_right fun hbefore =>
        hbefore.reverse.trans (hsound.order_written call)
  · have hget := hsound'.found k v hlast htake (lt_of_le_of_lt (sub_le_sub_right hnow v) hv)
    rw [Config.isDuplicate, hget]
    exact decide_eq_true hv.le

/-! ## A key that is recorded again -/

/-- The transport, the sender and the hash of the text. -/
abbrev Key := String × String × ℤ

def mesh (hash : ℤ) : Key := ("mesh", "!aaa00001", hash)

/-- Two keys in a minute. -/
def smallCache : Config := ⟨60, 2⟩

/-- The first of two keys is recorded again. -/
def again : List (Call Key) := [⟨mesh 1, 0, true⟩, ⟨mesh 2, 1, true⟩, ⟨mesh 1, 2, false⟩]

def third : Call Key := ⟨mesh 3, 3, true⟩

theorem forgets_first_inserted_again : ∃ s s' : State Key,
    (∀ k v k' v', smallCache.records s third → (s.written third).get? k = some v →
        s'.cache.get? k = none → s'.cache.get? k' = some v' →
          (v ≤ third.now - smallCache.ttl ∧ v < v') ∨ [k', k].Sublist (recent s'.inserted)) ∧
      ∀ k v now, s'.lastRecorded k = some v → k ∈ (recent s'.inserted).take smallCache.max.toNat →
        s'.now ≤ now → now - v < smallCache.ttl → smallCache.isDuplicate s'.cache k now := by
  obtain ⟨s, hs, hnext⟩ : ∃ s ∈ again.foldlM smallCache.next ⟨∅, 0, [], []⟩,
      (smallCache.next s third).isSome := by
    decide +kernel
  obtain ⟨s', hs'⟩ := Option.isSome_iff_exists.1 hnext
  exact ⟨s, s', forgets_first_inserted
    (.foldlM (.init ⟨rfl, rfl, rfl⟩) hs) hs'⟩

/-- The third key drives out the first, which was recorded after the second: it
    was among the last two recorded, one second ago, and is no duplicate. -/
theorem forgets_recently_recorded : ∃ (c : Config) (s s' : State Key) (call : Call Key),
    c.system.Reachable s ∧ c.next s call = some s' ∧
      ∃ k v k' v', (s.written call).get? k = some v ∧ s'.cache.get? k = none ∧
        s'.cache.get? k' = some v' ∧ v' < v ∧ s'.lastRecorded k = some v ∧
          k ∈ (recent (s'.recorded.map Prod.fst)).take c.max.toNat ∧ s'.now - v ≤ c.ttl ∧
            c.isDuplicate s'.cache k s'.now = false := by
  obtain ⟨s, hs, hwritten, s', hs', hgone, hstays, hlast, hrecent, hnow, hnot⟩ :
      ∃ s ∈ again.foldlM smallCache.next ⟨∅, 0, [], []⟩,
      (s.written third).get? (mesh 1) = some 2 ∧ ∃ s' ∈ smallCache.next s third,
        s'.cache.get? (mesh 1) = none ∧ s'.cache.get? (mesh 2) = some 1 ∧
          s'.lastRecorded (mesh 1) = some 2 ∧
            mesh 1 ∈ (recent (s'.recorded.map Prod.fst)).take smallCache.max.toNat ∧
              s'.now - 2 ≤ smallCache.ttl ∧
                smallCache.isDuplicate s'.cache (mesh 1) s'.now = false := by
    decide +kernel
  exact ⟨smallCache, s, s', third, .foldlM (.init ⟨rfl, rfl, rfl⟩) hs, hs',
    mesh 1, 2, mesh 2, 1, hwritten, hgone, hstays, by decide, hlast, hrecent, hnow, hnot⟩

end ReticulumPi.Bridge.Dedup
