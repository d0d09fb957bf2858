import ReticulumPi.Lib.PyStr
import ReticulumPi.Lib.PyValue
import ReticulumPi.Lib.Seen
import ReticulumPi.Lib.Transition

/-!
# The replay cache of the Meshtastic gateway

The gateway takes a packet for a replay when it has recorded the same sender
and packet id less than the TTL ago. The cache is cleared of what is out of
date every so many insertions, and when it is full; and if it is still full
then, the older half of it goes, by the times of the entries.

In every run of packets at times that do not decrease (`system`):

* a packet is taken for a replay only if its key was recorded less than the
  TTL ago, and the cache stays within its size;
* a packet recorded less than the TTL ago is taken for a replay unless more
  than `max_entries - max_entries // 2` other keys were recorded at that time
  or later (`Deduplicates`).

What counts is the time, not the order of the records: a key that is recorded
again keeps its place in the dictionary, and goes before one that was recorded
earlier at the same time (`forgets_at_one_time`).
-/

namespace ReticulumPi.Meshtastic.PacketDedup

open List

/-! ## The key of a packet -/

inductive Sender
  | number (n : ℤ)
  | text (s : List Char)
  deriving DecidableEq

abbrev Key := Sender × ℤ

/-- `packet.get("from")`, if it is the number of a node. -/
def senderNumber (packet : PyValue) : Option Sender :=
  match packet.get? "from" with
  | some (.int n) => if n < 0 then none else some (.number n)
  | _ => none

/-- `packet.get("fromId")`, if it is a text that is not blank. -/
def senderText (casefold : List Char → List Char) (packet : PyValue) : Option Sender :=
  match packet.get? "fromId" with
  | some (.str s) =>
    let s := PyStr.strip s.toList
    if s = [] then none else some (.text (casefold s))
  | _ => none

/-- `_packet_dedup_key`; `casefold` is that of Python's strings. -/
def packetDedupKey (casefold : List Char → List Char) (packet : PyValue) : Option Key :=
  match packet.get? "id" with
  | some (.int packetId) =>
    if packetId ≤ 0 then none
    else ((senderNumber packet).or (senderText casefold packet)).map fun sender =>
      (sender, packetId)
  | _ => none

/-! ## The cache -/

/-- `dedup_ttl_seconds` and `dedup_max_entries`, as they are configured. -/
structure Config where
  dedupTtlSeconds : ℚ := 300
  dedupMaxEntries : ℤ := 2048

variable (c : Config)

/-- `_dedup_ttl_seconds` -/
def Config.ttl : ℚ := max 30 c.dedupTtlSeconds

/-- `_dedup_max_entries` -/
def Config.maxEntries : ℕ := (max 64 c.dedupMaxEntries).toNat

/-- `_dedup_cleanup_interval` -/
def Config.cleanupInterval : ℕ := max 32 (c.maxEntries / 8)

structure Cache where
  /-- `_seen_packet_ids` -/
  seen : Dict Key ℚ := ∅
  /-- `_dedup_inserts_since_cleanup` -/
  inserts : ℕ := 0

/-- The entries in the order of their times, without the first `n`. -/
def dropOldest (n : ℕ) (seen : Dict Key ℚ) : Dict Key ℚ where
  entries := (seen.entries.insertionSort fun a b => a.2 ≤ b.2).drop n
  nodup := ((((List.perm_insertionSort _ seen.entries).map Prod.fst).nodup_iff.2 seen.nodup).sublist
    ((List.drop_sublist n _).map Prod.fst))

/-- The clean-up of `_packet_is_duplicate_locked`. -/
def Config.cleanUp (now : ℚ) (seen : Dict Key ℚ) : Dict Key ℚ :=
  let seen := seen.filter fun seenAt => now - c.ttl < seenAt
  if c.maxEntries < seen.entries.length then dropOldest (c.maxEntries / 2) seen else seen

/-- The key has been seen within the TTL. -/
def Config.isReplay (cache : Cache) (key : Key) (now : ℚ) : Bool :=
  (cache.seen.get? key).any fun seenAt => now - c.ttl < seenAt

/-- A key is recorded. -/
def Config.record (cache : Cache) (key : Key) (now : ℚ) : Cache :=
  let seen := cache.seen.set key now
  if c.cleanupInterval ≤ cache.inserts + 1 ∨ c.maxEntries < seen.entries.length then
    ⟨c.cleanUp now seen, 0⟩
  else ⟨seen, cache.inserts + 1⟩

/-- `_packet_is_duplicate_locked`, of a packet with that key: whether it is taken for a replay,
    and the cache afterwards. -/
def Config.packetIsDuplicate (cache : Cache) (key : Option Key) (now : ℚ) :
    Bool × Cache :=
  match key with
  | none => (false, cache)
  | some key => if c.isReplay cache key now then (true, cache) else (false, c.record cache key now)

/-! ## Runs -/

/-- The cache, and what has been recorded. -/
structure State where
  cache : Cache := {}
  /-- The time of the last packet. -/
  now : ℚ := 0
  /-- The keys recorded and the times, the latest first. -/
  recorded : List (Key × ℚ) := []

/-- What a packet with that key adds to the records. -/
def Config.recordedBy (s : State) (key : Option Key) (now : ℚ) : List (Key × ℚ) :=
  match key with
  | none => s.recorded
  | some key => if c.isReplay s.cache key now then s.recorded else (key, now) :: s.recorded

/-- A packet comes, not before the last one. -/
def Config.next (casefold : List Char → List Char) (s : State) :
    PyValue × ℚ → Option State
  | (packet, now) =>
    let key := packetDedupKey casefold packet
    if s.now ≤ now then
      some ⟨(c.packetIsDuplicate s.cache key now).2, now, c.recordedBy s key now⟩
    else none

def Config.system (casefold : List Char → List Char) :
    Transition State (PyValue × ℚ) :=
  .ofNext (fun s => s.cache = {} ∧ s.recorded = []) (c.next casefold)

/-- How many other keys were recorded at that time or later. -/
def State.othersSince (s : State) (key : Key) (time : ℚ) : ℕ :=
  ((s.recorded.filter fun e => e.1 ≠ key ∧ time ≤ e.2).map Prod.fst).toFinset.card

/-- How many keys were recorded after that one was recorded last. -/
def State.recordedAfter (s : State) (key : Key) : ℕ :=
  ((s.recorded.takeWhile fun e => e.1 ≠ key).map Prod.fst).toFinset.card

/-- What is said of the next packet with that key, at that time. -/
structure Config.Deduplicates (s : State) (key : Key) (now : ℚ) : Prop where
  /-- What is taken for a replay was recorded within the TTL. -/
  sound : (c.packetIsDuplicate s.cache (some key) now).1 = true →
    ∃ time, (key, time) ∈ s.recorded ∧ now - time < c.ttl
  /-- What was recorded within the TTL is taken for one, unless too many others were since. -/
  complete : ∀ time, (key, time) ∈ s.recorded → now - time < c.ttl →
    (c.packetIsDuplicate s.cache (some key) now).1 = true ∨
      c.maxEntries - c.maxEntries / 2 < s.othersSince key time
  /-- The cache stays within its size. -/
  bounded : (c.packetIsDuplicate s.cache (some key) now).2.seen.entries.length ≤ c.maxEntries

/-! ## The clean-up -/

variable {c : Config} {s s' : State} {seen : Dict Key ℚ} {key k : Key} {now t : ℚ}
  {casefold : List Char → List Char}

theorem length_entries_set_le : (seen.set k t).entries.length ≤ seen.entries.length + 1 := by
  rw [Dict.set]
  split
  · exact (length_map _).le.trans (Nat.le_succ _)
  · exact (length_append.trans rfl).le

theorem mem_of_mem_dropOldest {n : ℕ} {e : Key × ℚ} (h : e ∈ (dropOldest n seen).entries) :
    e ∈ seen.entries :=
  (mem_insertionSort _).1 (mem_of_mem_drop h)

theorem length_dropOldest {n : ℕ} :
    (dropOldest n seen).entries.length = seen.entries.length - n := by
  rw [dropOldest, length_drop, length_insertionSort]

/-- What goes with the oldest is not later than anything that stays. -/
theorem le_of_not_mem_dropOldest {n : ℕ} {e e' : Key × ℚ} (he : e ∈ seen.entries)
    (hno : e ∉ (dropOldest n seen).entries) (he' : e' ∈ (dropOldest n seen).entries) :
    e.2 ≤ e'.2 := by
  have hsorted := pairwise_insertionSort (fun a b : Key × ℚ => a.2 ≤ b.2) seen.entries
  rw [← take_append_drop n (seen.entries.insertionSort fun a b => a.2 ≤ b.2),
    pairwise_append] at hsorted
  have hmem : e ∈ seen.entries.insertionSort fun a b => a.2 ≤ b.2 :=
    (mem_insertionSort _).2 he
  rw [← take_append_drop n (seen.entries.insertionSort fun a b => a.2 ≤ b.2),
    mem_append] at hmem
  exact hsorted.2.2 e (hmem.resolve_right hno) e' he'

theorem maxEntries_pos (c : Config) : 64 ≤ c.maxEntries := by
  rw [Config.maxEntries]
  omega

/-- After a clean-up there is room again, if there was when the key was recorded. -/
theorem length_cleanUp_le (h : seen.entries.length ≤ c.maxEntries + 1) :
    (c.cleanUp now seen).entries.length ≤ c.maxEntries := by
  have hpos := maxEntries_pos c
  have hfilter : (seen.filter fun seenAt => now - c.ttl < seenAt).entries.length ≤
      seen.entries.length := length_filter_le _ _
  rw [Config.cleanUp]
  split_ifs with hfull
  · rw [length_dropOldest]
    omega
  · omega

/-- An entry that is in date goes only where more others stay than half of the cache holds, none
    of them earlier. -/
theorem trims_cleanUp :
    Seen.Trims c.ttl now (c.maxEntries - c.maxEntries / 2 + 1) seen (c.cleanUp now seen) := by
  rw [Config.cleanUp]
  split_ifs with hfull
  · refine ⟨fun e he => mem_of_mem_filter (mem_of_mem_dropOldest he), fun e he hdate => ?_⟩
    have hfilter : e ∈ (seen.filter fun seenAt => now - c.ttl < seenAt).entries :=
      mem_filter.2 ⟨he, by simpa using hdate⟩
    by_cases hmem : e ∈ (dropOldest (c.maxEntries / 2)
        (seen.filter fun seenAt => now - c.ttl < seenAt)).entries
    · exact .inl hmem
    · refine .inr ⟨?_, fun e' he' =>
        ⟨fun heq => hmem ?_, le_of_not_mem_dropOldest hfilter hmem he'⟩⟩
      · rw [length_dropOldest]
        omega
      · -- Each key has one entry.
        exact inj_on_of_nodup_map (seen.filter _).nodup (mem_of_mem_dropOldest he') hfilter heq ▸
          he'
  · exact ⟨fun e he => mem_of_mem_filter he, fun e he hdate =>
      .inl (mem_filter.2 ⟨he, by simpa using hdate⟩)⟩

/-! ## The invariant -/

structure Sound (c : Config) (s : State) : Prop where
  past : ∀ e ∈ s.recorded, e.2 ≤ s.now
  recorded : ∀ e ∈ s.cache.seen.entries, e ∈ s.recorded
  kept : ∀ e ∈ s.recorded, s.now - c.ttl < e.2 →
    (∃ t, s.cache.seen.get? e.1 = some t ∧ e.2 ≤ t) ∨
      c.maxEntries - c.maxEntries / 2 < s.othersSince e.1 e.2
  bounded : s.cache.seen.entries.length ≤ c.maxEntries

/-- The cache is worth what a table of what has been seen is worth. -/
theorem sound_iff : Sound c s ↔
    Seen.Faithful c.ttl (c.maxEntries - c.maxEntries / 2 + 1) s.cache.seen s.now s.recorded ∧
      s.cache.seen.entries.length ≤ c.maxEntries :=
  ⟨fun h => ⟨⟨h.past, h.recorded, h.kept⟩, h.bounded⟩,
    fun ⟨h, hle⟩ => ⟨h.past, h.held, h.kept, hle⟩⟩

/-- Time passes. -/
theorem Sound.later (h : Sound c s) (hnow : s.now ≤ now) :
    Sound c ⟨s.cache, now, s.recorded⟩ :=
  sound_iff.2 ⟨(sound_iff.1 h).1.later hnow, h.bounded⟩

theorem record_cases (c : Config) (cache : Cache) (key : Key) (now : ℚ) :
    (c.record cache key now).seen = c.cleanUp now (cache.seen.set key now) ∨
      (c.record cache key now).seen = cache.seen.set key now ∧
        (cache.seen.set key now).entries.length ≤ c.maxEntries := by
  rw [Config.record]
  split_ifs with h
  · exact .inl rfl
  · exact .inr ⟨rfl, not_lt.1 (not_or.1 h).2⟩

/-- A key is recorded. -/
theorem Sound.record (h : Sound c s) (hnow : s.now ≤ now) (key : Key) :
    Sound c ⟨c.record s.cache key now, now, (key, now) :: s.recorded⟩ := by
  obtain ⟨hfaithful, hle⟩ := sound_iff.1 h
  rcases record_cases c s.cache key now with heq | ⟨heq, hroom⟩
  · refine sound_iff.2 ⟨hfaithful.record hnow (heq ▸ trims_cleanUp), ?_⟩
    dsimp only
    rw [heq]
    exact length_cleanUp_le (length_entries_set_le.trans (Nat.add_le_add_right hle 1))
  · exact sound_iff.2 ⟨hfaithful.record hnow (heq ▸ Seen.trims_self), heq ▸ hroom⟩

/-- A packet leaves a sound state, whatever its key. -/
theorem Sound.packet (h : Sound c s) (hnow : s.now ≤ now) (key : Option Key) :
    Sound c ⟨(c.packetIsDuplicate s.cache key now).2, now, c.recordedBy s key now⟩ := by
  rcases key with _ | key
  · exact h.later hnow
  · rw [Config.packetIsDuplicate, Config.recordedBy]
    split_ifs
    · exact h.later hnow
    · exact h.record hnow key

theorem Sound.next (h : Sound c s) {event : PyValue × ℚ} (hs : c.next casefold s event = some s') :
    Sound c s' := by
  obtain ⟨packet, now⟩ := event
  rw [Config.next] at hs
  split_ifs at hs with hnow
  cases hs
  exact h.packet hnow _

theorem sound_of_reachable (h : (c.system casefold).Reachable s) : Sound c s := by
  refine Transition.Reach.induction (I := Sound c) (fun s hs => ?_)
    (fun s a s' hs _ hstep => hs.next hstep) h
  obtain ⟨⟨seen, inserts⟩, now, recorded⟩ := s
  obtain ⟨hcache, rfl⟩ := hs
  obtain ⟨rfl, rfl⟩ := Cache.mk.inj hcache
  exact ⟨fun e he => (nomatch he), fun e he => (nomatch he), fun e he => (nomatch he),
    Nat.zero_le _⟩

/-- In every run, of a packet with an identity key that comes next. -/
theorem deduplicates (c : Config) (casefold : List Char → List Char) (s : State) (key : Key)
    (now : ℚ) (h : (c.system casefold).Reachable s) (hnow : s.now ≤ now) : c.Deduplicates s key now := by
  have hs := sound_of_reachable h
  have hfst : (c.packetIsDuplicate s.cache (some key) now).1 = c.isReplay s.cache key now := by
    rw [Config.packetIsDuplicate]
    split_ifs with hreplay
    · exact hreplay.symm
    · simpa using hreplay
  have hfaithful := (sound_iff.1 hs).1.later hnow
  refine ⟨fun hdup => hfaithful.exists_recorded (hfst.symm.trans hdup), fun time hmem hdate => ?_,
    (hs.packet hnow (some key)).bounded⟩
  rw [hfst]
  exact hfaithful.seen_or hmem hdate

/-! ## A run -/

/-- A packet of a node. -/
def packetOf (node id : ℕ) : PyValue := .dict [("id", .int id), ("from", .int node)]

/-- A cache of 64 entries, which are in date for 30 seconds. -/
def smallest : Config := ⟨30, 64⟩

/-- A first packet, 31 others a second later, and half a minute after the first one another, the
    first one again, and 32 more. -/
def halfMinute : List (PyValue × ℚ) :=
  [(packetOf 1 1, 0)] ++ (List.range 31).map (fun i => (packetOf 2 (i + 1), 1)) ++
    [(packetOf 3 1, 30), (packetOf 1 1, 30)] ++
    (List.range 32).map fun i => (packetOf 4 (i + 1), 30)

/-- The key of the first packet. -/
def firstKey : Key := (.number 1, 1)

/-- After a first packet, it is a replay. -/
theorem deduplicates_second :
    (smallest.system id).Reachable ⟨smallest.record {} firstKey 0, 0, [(firstKey, 0)]⟩ ∧
      smallest.Deduplicates ⟨smallest.record {} firstKey 0, 0, [(firstKey, 0)]⟩ firstKey 1 := by
  have h : (smallest.system id).Reachable ⟨smallest.record {} firstKey 0, 0, [(firstKey, 0)]⟩ :=
    Transition.Reachable.foldlM (l := [(packetOf 1 1, 0)]) (.init (s := {}) ⟨rfl, rfl⟩) rfl
  exact ⟨h, deduplicates smallest id _ firstKey 1 h (by decide)⟩

/-- The first packet was recorded anew, then 32 others, half as many as the cache holds: and yet
    it is forgotten at once. -/
theorem forgets_at_one_time : ∃ s, (smallest.system id).Reachable s ∧
    (firstKey, 30) ∈ s.recorded ∧ s.now = 30 ∧ (30 : ℚ) - 30 < smallest.ttl ∧
    s.recordedAfter firstKey = smallest.maxEntries - smallest.maxEntries / 2 ∧
    (smallest.packetIsDuplicate s.cache (some firstKey) 30).1 = false := by
  obtain ⟨s, hs, hall⟩ : ∃ s ∈ halfMinute.foldlM (smallest.next id) {},
      (firstKey, 30) ∈ s.recorded ∧ s.now = 30 ∧ (30 : ℚ) - 30 < smallest.ttl ∧
        s.recordedAfter firstKey = smallest.maxEntries - smallest.maxEntries / 2 ∧
        (smallest.packetIsDuplicate s.cache (some firstKey) 30).1 = false := by
    decide +kernel
  exact ⟨s, .foldlM (.init ⟨rfl, rfl⟩) hs, hall⟩

end ReticulumPi.Meshtastic.PacketDedup
