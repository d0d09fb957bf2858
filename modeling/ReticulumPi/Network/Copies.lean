import Mathlib.Data.Prod.Lex
import ReticulumPi.Lib.WriteBehind
import ReticulumPi.Network.Map

/-!
# The copies of a node's record

What each step of the plugin does to the copies of the record of one node: in
memory, in the batch that waits, in the batch that is written, in the table and
in what is committed of it.
-/

namespace ReticulumPi.Network

open WriteBehind List

variable {config : Config} {s s' : System} {e : Event} {hash : Hash}
  {nodes : Dict Hash NodeInfo}

/-- What a record knows of the past: an earlier first sight, or more announces, is more. -/
def NodeInfo.history (info : NodeInfo) : ℚᵒᵈ × ℕ :=
  (OrderDual.toDual info.firstSeen, info.announceCount)

theorem history_le_iff {old new : NodeInfo} :
    old.history ≤ new.history ↔
      new.firstSeen ≤ old.firstSeen ∧ old.announceCount ≤ new.announceCount := .rfl

/-- A record without its classification. -/
def NodeInfo.unnamed (info : NodeInfo) : NodeInfo := { info with appName := "", aspects := "" }

theorem history_le_seenAgain {info : NodeInfo} {app : String × String} {appDataStr : String}
    {hops : Option ℕ} {now : ℚ} :
    info.history ≤ (info.seenAgain app appDataStr hops now).history :=
  history_le_iff.2 ⟨le_rfl, Nat.le_succ _⟩

/-- A running prune has deleted the row of such a record, and will drop it. -/
def Maintenance.expired : Maintenance → NodeInfo → Prop
  | .pruned cutoff, info => info.lastSeen < cutoff
  | _, _ => False

instance (info : NodeInfo) : (m : Maintenance) → Decidable (m.expired info)
  | .pruned _ => inferInstanceAs (Decidable (_ < _))
  | .idle | .pruning _ => inferInstanceAs (Decidable False)

/-! ## Dictionaries of records -/

theorem get?_evict : (evict config nodes).get? hash = nodes.get? hash ∨
    (evict config nodes).get? hash = none := by
  rw [evict]
  split_ifs
  · split
    · rw [Dict.get?_erase]
      split_ifs
      · exact .inr rfl
      · exact .inl rfl
    · exact .inl rfl
  · exact .inl rfl

/-- Rows of a dictionary that are written are in the table as they were there,
    the others are as before. -/
theorem get?_upsertRows {table d : Dict Hash NodeInfo} {l : List (Hash × NodeInfo)}
    (hl : (l.map Prod.fst).Nodup) (hd : ∀ e ∈ l, e ∈ d.entries) (hash : Hash) :
    (System.upsertRows table l).get? hash = table.get? hash ∨
      (System.upsertRows table l).get? hash = d.get? hash := by
  by_cases h : ∃ e ∈ l, e.1 = hash
  · obtain ⟨e, he, rfl⟩ := h
    have hset : (System.upsertRows table l).get? e.1 = some e.2 :=
      Dict.get?_foldl_set_of_mem (g := Prod.snd) hl he
    rw [hset]
    exact .inr (Dict.get?_eq_some_iff.2 (hd e he)).symm
  · exact .inl (Dict.get?_foldl_set_of_ne fun e he hek => h ⟨e, he, hek⟩)

theorem get?_upsertRows_entries {table d : Dict Hash NodeInfo} :
    (System.upsertRows table d.entries).get? hash = (d.get? hash).or (table.get? hash) := by
  rw [System.upsertRows, Dict.get?_foldl_entries (f := fun _ v => v)]
  simp

theorem get?_recent {cutoff : ℚ} {info : NodeInfo} :
    (System.recent cutoff nodes).get? hash = some info ↔
      nodes.get? hash = some info ∧ cutoff ≤ info.lastSeen := by
  rw [System.recent, Dict.get?_filter, Option.filter_eq_some_iff, decide_eq_true_iff]

theorem get?_recent_eq {cutoff : ℚ} :
    (System.recent cutoff nodes).get? hash = nodes.get? hash ∨
      ((System.recent cutoff nodes).get? hash = none ∧
        ∀ info ∈ nodes.get? hash, info.lastSeen < cutoff) := by
  rw [System.recent, Dict.get?_filter]
  rcases nodes.get? hash with _ | info
  · exact .inl rfl
  · by_cases h : cutoff ≤ info.lastSeen
    · exact .inl (by simp [Option.filter, h])
    · refine .inr ⟨by simp [Option.filter, h], fun x hx => ?_⟩
      cases hx
      exact not_le.1 h

namespace System

/-- The copies of the record of a node. -/
def layers (s : System) (hash : Hash) : Layers NodeInfo where
  committed := s.rows.get? hash
  table := s.table.get? hash
  batch := s.batch.bind (·.get? hash)
  pending := s.pendingUpserts.get? hash
  cached := s.knownNodes.get? hash

/-- While a batch is written, nothing waits for the next one. -/
def OneBatch (s : System) : Prop := s.batch ≠ none → s.pendingUpserts = ∅

theorem OneBatch.pending (h : s.OneBatch) (hb : s.batch ≠ none) :
    (s.layers hash).pending = none := by
  rw [layers, h hb]
  rfl

/-! ## The worker -/

/-- The record of a node that was in memory, or not, is changed. -/
theorem layers_set_upsert {info : NodeInfo} {changed : Hash} {t : Dict Hash NodeInfo}
    (ht : t.get? changed = some info) :
    (({ s with knownNodes := t } : System).upsert changed).layers hash =
      if hash = changed then (s.layers hash).update info
      else { s.layers hash with cached := t.get? hash } := by
  simp only [upsert, ht]
  split_ifs with h
  · subst h
    simp [layers, Layers.update, ht]
  · simp [layers, h]

theorem layers_upsert_none {changed : Hash} {t : Dict Hash NodeInfo}
    (ht : t.get? changed = none) :
    (({ s with knownNodes := t } : System).upsert changed).layers hash =
      { s.layers hash with cached := t.get? hash } := by
  simp only [upsert, ht]
  rfl

/-- An announce changes the records in memory and what waits for the next batch. -/
theorem processAnnounce_frame (config : Config) (s : System) (d : Delivery) (hops : Option ℕ) :
    ∃ nodes pending, s.processAnnounce config d hops =
      { s with knownNodes := nodes, pendingUpserts := pending } := by
  have hupsert : ∀ (t : Dict Hash NodeInfo) (changed : Hash), ∃ nodes pending,
      ({ s with knownNodes := t } : System).upsert changed =
        { s with knownNodes := nodes, pendingUpserts := pending } := fun t changed => by
    rcases ht : t.get? changed with _ | info
    · exact ⟨t, s.pendingUpserts, by simp only [upsert, ht]⟩
    · exact ⟨t, _, by simp only [upsert, ht]; rfl⟩
  rw [processAnnounce]
  rcases d.appDataStr config with _ | appDataStr
  · exact ⟨_, _, rfl⟩
  dsimp only
  rcases s.knownNodes.get? d.announce.destinationHash with _ | info
  · exact hupsert _ _
  · dsimp only
    split_ifs
    · exact ⟨_, _, rfl⟩
    · exact hupsert _ _

/-- What an announce does to the copies of the record of a node. -/
theorem layers_processAnnounce {d : Delivery} {hops : Option ℕ} :
    (s.processAnnounce config d hops).layers hash = s.layers hash ∨
    (s.processAnnounce config d hops).layers hash = (s.layers hash).evict ∨
    (∃ info info', (s.layers hash).cached = some info ∧ info.history ≤ info'.history ∧
      info'.lastSeen = s.clock ∧ (s.processAnnounce config d hops).layers hash = (s.layers hash).update info') ∨
    (∃ info', hash = d.announce.destinationHash ∧ (s.layers hash).cached = none ∧
      info'.lastSeen = s.clock ∧ (s.processAnnounce config d hops).layers hash = (s.layers hash).update info') := by
  rw [processAnnounce]
  rcases d.appDataStr config with _ | appDataStr
  · exact .inl rfl
  dsimp only
  rcases hnode : s.knownNodes.get? d.announce.destinationHash with _ | info
  · -- A new node, which takes the place of the one seen longest ago.
    dsimp only
    generalize hnew : NodeInfo.discovered _ _ _ _ = new
    have hsame : ∀ h, h ≠ d.announce.destinationHash →
        (evict config (s.knownNodes.set d.announce.destinationHash new)).get? h =
          s.knownNodes.get? h ∨
        (evict config (s.knownNodes.set d.announce.destinationHash new)).get? h = none :=
      fun h hne => by
        have hevict : (evict config (s.knownNodes.set d.announce.destinationHash new)).get? h =
            (s.knownNodes.set d.announce.destinationHash new).get? h ∨ _ = none := get?_evict
        rwa [Dict.get?_set_of_ne hne] at hevict
    rcases hself : (evict config (s.knownNodes.set d.announce.destinationHash new)).get?
      d.announce.destinationHash with _ | info
    · rw [layers_upsert_none hself]
      by_cases h : hash = d.announce.destinationHash
      · right
        left
        rw [h, hself]
        rfl
      · rcases hsame hash h with heq | heq
        · left
          rw [heq]
          rfl
        · right
          left
          rw [heq]
          rfl
    · rw [layers_set_upsert hself]
      split_ifs with h
      · have hinfo : info = new := by
          have hevict : (evict config (s.knownNodes.set d.announce.destinationHash new)).get?
              d.announce.destinationHash = (s.knownNodes.set d.announce.destinationHash new).get?
                d.announce.destinationHash ∨ _ = none := get?_evict
          rw [hself, Dict.get?_set_self] at hevict
          exact Option.some.inj (hevict.resolve_right (Option.some_ne_none _))
        refine .inr (.inr (.inr ⟨_, h, by rw [layers, h, hnode], ?_, rfl⟩))
        rw [hinfo, ← hnew]
        rfl
      · rcases hsame hash h with heq | heq
        · left
          rw [heq]
          rfl
        · right
          left
          rw [heq]
          rfl
  · dsimp only
    split_ifs with hskip
    · exact .inl rfl
    · rw [layers_set_upsert Dict.get?_set_self]
      split_ifs with h
      · subst h
        exact .inr (.inr (.inl ⟨info, _, hnode, history_le_seenAgain, rfl, rfl⟩))
      · left
        rw [Dict.get?_set_of_ne h]
        rfl

/-- The same, for the step that takes the announce from the queue. -/
theorem layers_process {hops : Option ℕ} (h : s.process config hops = some s') (hash : Hash) :
    s.batch = none ∧ s'.batch = none ∧ ∃ d ∈ s.announceQueue.head?,
      (s'.layers hash = s.layers hash ∨ s'.layers hash = (s.layers hash).evict ∨
        (∃ info info', (s.layers hash).cached = some info ∧ info.history ≤ info'.history ∧
          info'.lastSeen = s.clock ∧ s'.layers hash = (s.layers hash).update info') ∨
        (∃ info', hash = d.announce.destinationHash ∧ (s.layers hash).cached = none ∧
          info'.lastSeen = s.clock ∧ s'.layers hash = (s.layers hash).update info')) := by
  rw [process] at h
  split at h
  next d rest hbatch hqueue =>
    cases h
    refine ⟨hbatch, ?_, d, by rw [hqueue]; rfl, ?_⟩
    · obtain ⟨nodes, pending, heq⟩ :=
        processAnnounce_frame config { s with announceQueue := rest } d hops
      rw [heq]
      exact hbatch
    · exact layers_processAnnounce (s := { s with announceQueue := rest })
  next => cases h

theorem layers_takeBatch (h : s.takeBatch = some s') (hash : Hash) :
    s.batch = none ∧ s'.layers hash = (s.layers hash).take ∧ s'.OneBatch := by
  obtain ⟨⟨hb, -⟩, h⟩ := Option.ite_none_right_eq_some.1 h
  cases h
  refine ⟨hb, ?_, fun _ => rfl⟩
  simp [layers, Layers.take]

theorem layers_writeBatch_ok (h : s.writeBatch .ok = some s') (hash : Hash) :
    s.batch ≠ none ∧ s'.batch = none ∧ s'.layers hash = (s.layers hash).write := by
  obtain ⟨batch, hb, rfl⟩ := Option.map_eq_some_iff.1 h
  refine ⟨by simp [hb], rfl, ?_⟩
  simp [layers, Layers.write, hb, get?_upsertRows_entries]

/-- A batch that is not committed is lost, apart from the rows in the table. -/
theorem layers_writeBatch {result : WriteResult} (h : s.writeBatch result = some s')
    (hresult : result ≠ .ok) (hash : Hash) :
    s.batch ≠ none ∧ s'.batch = none ∧ ∃ t, s'.layers hash = (s.layers hash).fail t ∧
      (t = (s.layers hash).table ∨ t = (s.layers hash).batch ∨
        t = (s.layers hash).committed) := by
  obtain ⟨batch, hb, rfl⟩ := Option.map_eq_some_iff.1 h
  cases result with
  | ok => exact absurd rfl hresult
  | failed written =>
    refine ⟨by simp [hb], rfl, _, rfl, ?_⟩
    have hnd : ((batch.entries.take written).map Prod.fst).Nodup :=
      batch.nodup.sublist ((take_sublist _ _).map _)
    have hrows : ∀ e ∈ batch.entries.take written, e ∈ batch.entries :=
      fun _ => mem_of_mem_take
    rcases get?_upsertRows hnd hrows hash with ht | ht
    · exact .inl ht
    · exact .inr (.inl (by simp [layers, hb, ht]))
  | rolledBack => exact ⟨by simp [hb], rfl, _, rfl, .inr (.inr rfl)⟩

/-! ## The maintenance thread -/

theorem layers_pruneRows_ok (h : s.pruneRows .ok = some s') (hash : Hash) :
    s'.batch = s.batch ∧ s'.pendingUpserts = s.pendingUpserts ∧
      ∃ cutoff t, s.maintenance = .pruning cutoff ∧ s'.maintenance = .pruned cutoff ∧
        s'.layers hash = (s.layers hash).commit t ∧
        (t = (s.layers hash).table ∨
          (t = none ∧ ∀ info ∈ (s.layers hash).table, info.lastSeen < cutoff)) := by
  rw [pruneRows] at h
  split at h
  next cutoff hm =>
    cases h
    exact ⟨rfl, rfl, cutoff, _, hm, rfl, rfl, get?_recent_eq⟩
  next => cases h

/-- Rows deleted without a commit are missing in the table only. -/
theorem layers_pruneRows {result : PruneResult} (h : s.pruneRows result = some s')
    (hresult : result ≠ .ok) (hash : Hash) :
    s'.batch = s.batch ∧ s'.pendingUpserts = s.pendingUpserts ∧
      (∃ cutoff, s.maintenance = .pruning cutoff) ∧
      (result = .failed → ∀ hash, s'.layers hash = s.layers hash) ∧
      ∃ t, s'.layers hash = { s.layers hash with table := t } ∧
        (t = (s.layers hash).table ∨ t = none ∨ t = (s.layers hash).committed) := by
  rw [pruneRows] at h
  split at h
  next cutoff hm =>
    cases result with
    | ok => exact absurd rfl hresult
    | failed =>
      cases h
      exact ⟨rfl, rfl, ⟨cutoff, hm⟩, fun _ _ => rfl, _, rfl, .inl rfl⟩
    | notCommitted =>
      cases h
      refine ⟨rfl, rfl, ⟨cutoff, hm⟩, nofun, _, rfl, ?_⟩
      exact get?_recent_eq.imp_right fun h => .inl h.1
    | rolledBack =>
      cases h
      exact ⟨rfl, rfl, ⟨cutoff, hm⟩, nofun, _, rfl, .inr (.inr rfl)⟩
  next => cases h

theorem layers_pruneNodes (h : s.pruneNodes = some s') (hash : Hash) :
    s'.batch = s.batch ∧ s'.pendingUpserts = s.pendingUpserts ∧ s'.maintenance = .idle ∧
      ∃ cutoff, s.maintenance = .pruned cutoff ∧
        (s'.layers hash = (s.layers hash).evict ∨ (s'.layers hash = s.layers hash ∧
          ∀ info ∈ (s.layers hash).cached, cutoff ≤ info.lastSeen)) := by
  rw [pruneNodes] at h
  split at h
  next cutoff hm =>
    cases h
    refine ⟨rfl, rfl, rfl, cutoff, hm, ?_⟩
    rcases hr : (recent cutoff s.knownNodes).get? hash with _ | info
    · left
      simp [layers, Layers.evict, hr]
    · right
      obtain ⟨hc, hle⟩ := get?_recent.1 hr
      refine ⟨by simp [layers, hr, hc], fun x hx => ?_⟩
      obtain rfl := Option.some.inj (hx.symm.trans hc)
      exact hle
  next => cases h

/-! ## Restarts -/

/-- The record in memory, if there is one, is the row of the table. -/
def CachedInTable (s : System) : Prop :=
  ∀ hash info, s.knownNodes.get? hash = some info → s.table.get? hash = some info

theorem cachedInTable_loadFromDb (config : Config) {order : List (Hash × NodeInfo)}
    (ho : s.IsLoadOrder order) (ht : s.table = s.rows) : (s.loadFromDb config order).CachedInTable := fun hash info h => by
  have hnd : ((order.take config.maxCachedNodes).map Prod.fst).Nodup :=
    ((ho.1.map Prod.fst).nodup_iff.2 s.rows.nodup).sublist ((take_sublist _ _).map _)
  have hrows : ∀ e ∈ order.take config.maxCachedNodes, e ∈ s.rows.entries :=
    fun _ he => ho.1.mem_iff.1 (mem_of_mem_take he)
  rcases get?_upsertRows hnd hrows hash with hget | hget
  · rw [loadFromDb, hget] at h
    cases h
  · rw [loadFromDb, hget] at h
    rw [loadFromDb, ht]
    exact h

/-- A row is classified where it is, in the table and in memory, and nothing else
    changes. -/
theorem reclassify_spec {e : Hash × NodeInfo} (hs : s.CachedInTable)
    (he : s.table.get? e.1 = some e.2) :
    (s.reclassify e).CachedInTable ∧
      (∀ hash, hash ≠ e.1 → (s.reclassify e).table.get? hash = s.table.get? hash) ∧
      (∀ hash, ((s.reclassify e).table.get? hash).map NodeInfo.unnamed =
        (s.table.get? hash).map NodeInfo.unnamed) ∧
      (s.reclassify e).rows = s.rows ∧ (s.reclassify e).batch = s.batch ∧
        (s.reclassify e).pendingUpserts = s.pendingUpserts ∧
        (s.reclassify e).maintenance = s.maintenance := by
  simp only [reclassify]
  split_ifs with happ
  · exact ⟨hs, fun _ _ => rfl, fun _ => rfl, rfl, rfl, rfl, rfl⟩
  · refine ⟨fun hash info h => ?_, fun hash hne => Dict.get?_set_of_ne hne, fun hash => ?_, rfl,
      rfl, rfl, rfl⟩
    · dsimp only at h ⊢
      by_cases hne : hash = e.1
      · subst hne
        rcases hnode : s.knownNodes.get? e.1 with _ | info'
        · rw [hnode] at h
          simp only [hnode] at h
          cases h
        · -- The record in memory is the row.
          have hrow : info' = e.2 := Option.some.inj ((hs _ _ hnode).symm.trans he)
          simp only [hnode, Dict.get?_set_self] at h
          rw [Dict.get?_set_self, ← h, hrow]
      · rw [Dict.get?_set_of_ne hne]
        refine hs _ _ ?_
        rcases hnode : s.knownNodes.get? e.1 with _ | info'
        · simpa only [hnode] using h
        · simpa only [hnode, Dict.get?_set_of_ne hne] using h
    · dsimp only
      rw [Dict.get?_set]
      split_ifs with h
      · rw [h, he]
        rfl
      · rfl

theorem foldl_reclassify {l : List (Hash × NodeInfo)} (hl : (l.map Prod.fst).Nodup)
    (hs : s.CachedInTable) (hmem : ∀ e ∈ l, s.table.get? e.1 = some e.2) :
    (l.foldl reclassify s).CachedInTable ∧
      (∀ hash, ((l.foldl reclassify s).table.get? hash).map NodeInfo.unnamed =
        (s.table.get? hash).map NodeInfo.unnamed) ∧
      (l.foldl reclassify s).rows = s.rows ∧ (l.foldl reclassify s).batch = s.batch ∧
        (l.foldl reclassify s).pendingUpserts = s.pendingUpserts ∧
        (l.foldl reclassify s).maintenance = s.maintenance := by
  induction l generalizing s with
  | nil => exact ⟨hs, fun _ => rfl, rfl, rfl, rfl, rfl⟩
  | cons e l ih =>
    rw [map_cons, nodup_cons] at hl
    obtain ⟨hcached, htable, hsame, hrows, hbatch, hpend, hmain⟩ :=
      reclassify_spec hs (hmem e mem_cons_self)
    -- The rows still to come are as they were.
    have hrest : ∀ e' ∈ l, (s.reclassify e).table.get? e'.1 = some e'.2 := fun e' he' => by
      rw [htable e'.1 fun heq => hl.1 (List.mem_map.2 ⟨e', he', heq⟩)]
      exact hmem e' (mem_cons_of_mem _ he')
    obtain ⟨ihcached, ihsame, ihrows, ihbatch, ihpend, ihmain⟩ := ih hl.2 hcached hrest
    exact ⟨ihcached, fun hash => (ihsame hash).trans (hsame hash), ihrows.trans hrows,
      ihbatch.trans hbatch, ihpend.trans hpend, ihmain.trans hmain⟩

theorem layers_of_nothing_waiting (hb : s.batch = none) (hp : s.pendingUpserts = ∅) :
    s.layers hash = ⟨s.rows.get? hash, s.table.get? hash, none, none, s.knownNodes.get? hash⟩ := by
  simp [layers, hb, hp]

/-- The classification keeps the records in step with the table, and changes nothing else. -/
theorem reclassifyUnclassified_spec {failure : Option ℕ} (hs : s.CachedInTable)
    (ht : s.table = s.rows) (hb : s.batch = none) (hp : s.pendingUpserts = ∅) (hash : Hash) :
    ∃ r t c, (s.reclassifyUnclassified failure).layers hash = ⟨r, t, none, none, c⟩ ∧
      r.map NodeInfo.unnamed = (s.rows.get? hash).map NodeInfo.unnamed ∧
      t.map NodeInfo.unnamed = (s.rows.get? hash).map NodeInfo.unnamed ∧ (c = none ∨ c = t) ∧
      (s.reclassifyUnclassified failure).batch = none ∧
      (s.reclassifyUnclassified failure).maintenance = s.maintenance := by
  have hnd : (s.unclassified.map Prod.fst).Nodup :=
    s.table.nodup.sublist (filter_sublist.map _)
  have hmem : ∀ e ∈ s.unclassified, s.table.get? e.1 = some e.2 := fun e he =>
    Dict.get?_eq_some_iff.2 (mem_of_mem_filter he)
  have hcached : ∀ t : System, t.CachedInTable →
      t.knownNodes.get? hash = none ∨ t.knownNodes.get? hash = t.table.get? hash := fun t h => by
    rcases hk : t.knownNodes.get? hash with _ | info
    · exact .inl rfl
    · exact .inr (h _ _ hk).symm
  cases failure with
  | none =>
    obtain ⟨hc, hsame, -, hbatch, hpend, hmain⟩ := foldl_reclassify hnd hs hmem
    have hrow : ((s.unclassified.foldl reclassify s).table.get? hash).map NodeInfo.unnamed =
        (s.rows.get? hash).map NodeInfo.unnamed := by rw [hsame, ht]
    exact ⟨_, _, _, layers_of_nothing_waiting (hbatch.trans hb) (hpend.trans hp), hrow, hrow,
      hcached _ hc, hbatch.trans hb, hmain⟩
  | some done =>
    obtain ⟨hc, hsame, hrows, hbatch, hpend, hmain⟩ :=
      foldl_reclassify (hnd.sublist ((take_sublist done _).map _)) hs
        fun e he => hmem e (mem_of_mem_take he)
    refine ⟨_, _, _, layers_of_nothing_waiting (hbatch.trans hb) (hpend.trans hp), ?_, ?_,
      hcached _ hc, hbatch.trans hb, hmain⟩
    · exact congrArg (fun rows : Dict Hash NodeInfo => (rows.get? hash).map _) hrows
    · exact ht ▸ hsame hash

theorem reclassify_frame (e : Hash × NodeInfo) : ∃ nodes table,
    s.reclassify e = { s with knownNodes := nodes, table := table } := by
  simp only [reclassify]
  split_ifs
  all_goals exact ⟨_, _, rfl⟩

theorem foldl_reclassify_frame {l : List (Hash × NodeInfo)} : ∃ nodes table,
    l.foldl reclassify s = { s with knownNodes := nodes, table := table } := by
  induction l generalizing s with
  | nil => exact ⟨_, _, rfl⟩
  | cons e l ih =>
    obtain ⟨nodes, table, h⟩ := reclassify_frame (s := s) e
    obtain ⟨nodes', table', h'⟩ := ih (s := s.reclassify e)
    exact ⟨nodes', table', by rw [foldl_cons, h', h]⟩

/-- A restart starts from the rows, with an empty queue: what was in it is lost. -/
theorem restart_frame {order : Option (List (Hash × NodeInfo))} {failure : Option ℕ}
    (h : s.restart config order failure = some s') : ∃ nodes table rows,
      s' = { knownNodes := nodes, table := table, rows := rows, clock := s.clock
             delivered := s.delivered
             handled := s.announceQueue.map (·, 0) ++ s.handled } := by
  have hclass : ∀ t : System, ∃ nodes table rows, t.reclassifyUnclassified failure =
      { t with knownNodes := nodes, table := table, rows := rows } := fun t => by
    cases failure with
    | none =>
      obtain ⟨nodes, table, h⟩ := foldl_reclassify_frame (s := t) (l := t.unclassified)
      exact ⟨nodes, table, table, by simp only [reclassifyUnclassified, h]⟩
    | some done =>
      obtain ⟨nodes, table, h⟩ := foldl_reclassify_frame (s := t) (l := t.unclassified.take done)
      exact ⟨nodes, table, t.rows, by simp only [reclassifyUnclassified, h]⟩
  cases order with
  | none =>
    cases h
    exact hclass _
  | some order =>
    obtain ⟨-, h⟩ := Option.ite_none_right_eq_some.1 h
    cases h
    exact hclass _

/-- After a restart nothing waits, and the records are those of the table. -/
theorem layers_restart {order : Option (List (Hash × NodeInfo))} {failure : Option ℕ}
    (h : s.restart config order failure = some s') (hash : Hash) :
    ∃ r t c, s'.layers hash = ⟨r, t, none, none, c⟩ ∧
      r.map NodeInfo.unnamed = (s.rows.get? hash).map NodeInfo.unnamed ∧
      t.map NodeInfo.unnamed = (s.rows.get? hash).map NodeInfo.unnamed ∧ (c = none ∨ c = t) ∧
      s'.batch = none ∧ s'.maintenance = .idle := by
  cases order with
  | none =>
    cases h
    have hs : ∀ s₀ : System, s₀.knownNodes = ∅ → s₀.CachedInTable := fun s₀ h _ _ hk => by
      rw [h] at hk
      cases hk
    exact reclassifyUnclassified_spec (hs _ rfl) rfl rfl rfl hash
  | some order =>
    obtain ⟨ho, h⟩ := Option.ite_none_right_eq_some.1 h
    cases h
    have hload := cachedInTable_loadFromDb config
      (s := { rows := s.rows, table := s.rows, clock := s.clock, delivered := s.delivered,
              handled := s.announceQueue.map (·, 0) ++ s.handled }) ho rfl
    exact reclassifyUnclassified_spec hload rfl rfl rfl hash

/-! ## Any step -/

/-- What a step does to the copies of the record of a node. -/
inductive Move (s : System) (e : Event) (s' : System) (hash : Hash) : Prop where
  | same (layers : s'.layers hash = s.layers hash)
      (expired : ∀ info ∈ (s.layers hash).cached,
        s.maintenance.expired info → s'.maintenance.expired info)
  | evict (layers : s'.layers hash = (s.layers hash).evict)
  | update (hops : Option ℕ) (event : e = .process hops) (info info' : NodeInfo)
      (batch : s.batch = none) (cached : (s.layers hash).cached = some info)
      (history : info.history ≤ info'.history) (seen : info'.lastSeen = s.clock)
      (layers : s'.layers hash = (s.layers hash).update info')
  | insert (hops : Option ℕ) (event : e = .process hops) (d : Delivery)
      (head : d ∈ s.announceQueue.head?) (dest : hash = d.announce.destinationHash)
      (info' : NodeInfo) (batch : s.batch = none) (cached : (s.layers hash).cached = none)
      (seen : info'.lastSeen = s.clock)
      (layers : s'.layers hash = (s.layers hash).update info')
  | take (batch : s.batch = none) (maintenance : s'.maintenance = s.maintenance)
      (layers : s'.layers hash = (s.layers hash).take)
  | write (event : e = .writeBatch .ok) (batch : s.batch ≠ none)
      (maintenance : s'.maintenance = s.maintenance)
      (layers : s'.layers hash = (s.layers hash).write)
  | fail (result : WriteResult) (event : e = .writeBatch result) (failed : result ≠ .ok)
      (batch : s.batch ≠ none) (t : Option NodeInfo)
      (layers : s'.layers hash = (s.layers hash).fail t)
      (table : t = (s.layers hash).table ∨ t = (s.layers hash).batch ∨
        t = (s.layers hash).committed)
  | commit (cutoff : ℚ) (before : s.maintenance = .pruning cutoff)
      (after : s'.maintenance = .pruned cutoff) (t : Option NodeInfo)
      (layers : s'.layers hash = (s.layers hash).commit t)
      (table : t = (s.layers hash).table ∨
        (t = none ∧ ∀ info ∈ (s.layers hash).table, info.lastSeen < cutoff))
  | setTable (result : PruneResult) (event : e = .pruneRows result) (failed : result ≠ .ok)
      (deleted : result ≠ .failed) (t : Option NodeInfo)
      (layers : s'.layers hash = { s.layers hash with table := t })
      (table : t = (s.layers hash).table ∨ t = none ∨ t = (s.layers hash).committed)
  | reload (r t c : Option NodeInfo) (layers : s'.layers hash = ⟨r, t, none, none, c⟩)
      (rows : r.map NodeInfo.unnamed = (s.rows.get? hash).map NodeInfo.unnamed)
      (table : t.map NodeInfo.unnamed = (s.rows.get? hash).map NodeInfo.unnamed)
      (cached : c = none ∨ c = t)

theorem recordAnnounce_frame {d : Delivery} : ∃ queue delivered handled,
    s.recordAnnounce d =
      { s with announceQueue := queue, delivered := delivered, handled := handled } := by
  rw [recordAnnounce]
  dsimp only
  split_ifs
  all_goals exact ⟨_, _, _, rfl⟩

theorem process_frame {hops : Option ℕ} (h : s.process config hops = some s') :
    s'.maintenance = s.maintenance ∧ s'.clock = s.clock := by
  rw [process] at h
  split at h
  next d rest hbatch hqueue =>
    cases h
    obtain ⟨nodes, pending, heq⟩ :=
      processAnnounce_frame config { s with announceQueue := rest } d hops
    rw [heq]
    exact ⟨rfl, rfl⟩
  next => cases h

/-- Every step is one of these moves. -/
theorem move_of_next (h : next config s e = some s') (hash : Hash) : Move s e s' hash := by
  cases e with
  | tick d =>
    obtain ⟨-, h⟩ := Option.ite_none_right_eq_some.1 h
    cases h
    exact .same rfl fun _ _ => id
  | deliver d =>
    obtain ⟨-, h⟩ := Option.ite_none_right_eq_some.1 h
    cases h
    obtain ⟨queue, delivered, handled, heq⟩ := recordAnnounce_frame (s := s) (d := d)
    rw [heq]
    exact .same rfl fun _ _ => id
  | process hops =>
    obtain ⟨hb, -, d, hd, hlayers⟩ := layers_process h hash
    obtain ⟨hm, -⟩ := process_frame h
    rcases hlayers with hl | hl | ⟨info, info', hc, hle, hseen, hl⟩ | ⟨info', hdest, hc, hseen, hl⟩
    · exact .same hl fun _ _ => hm ▸ id
    · exact .evict hl
    · exact .update hops rfl info info' hb hc hle hseen hl
    · exact .insert hops rfl d hd hdest info' hb hc hseen hl
  | takeBatch =>
    obtain ⟨hb, hl, -⟩ := layers_takeBatch h hash
    have hm : s'.maintenance = s.maintenance := by
      obtain ⟨-, h⟩ := Option.ite_none_right_eq_some.1 h
      cases h
      rfl
    exact .take hb hm hl
  | writeBatch result =>
    by_cases hresult : result = .ok
    · subst hresult
      obtain ⟨hb, -, hl⟩ := layers_writeBatch_ok h hash
      have hm : s'.maintenance = s.maintenance := by
        obtain ⟨batch, hb, rfl⟩ := Option.map_eq_some_iff.1 h
        rfl
      exact .write rfl hb hm hl
    · obtain ⟨hb, -, t, hl, ht⟩ := layers_writeBatch h hresult hash
      exact .fail result rfl hresult hb t hl ht
  | readCutoff =>
    simp only [next, readCutoff] at h
    split at h
    next hm =>
      cases h
      refine .same rfl fun _ _ he => ?_
      rw [hm] at he
      cases he
    next => cases h
  | pruneRows result =>
    by_cases hresult : result = .ok
    · subst hresult
      obtain ⟨-, -, cutoff, t, hm, hm', hl, ht⟩ := layers_pruneRows_ok h hash
      exact .commit cutoff hm hm' t hl ht
    · obtain ⟨-, -, ⟨cutoff, hm⟩, hsame, t, hl, ht⟩ := layers_pruneRows h hresult hash
      by_cases hfailed : result = .failed
      · refine .same (hsame hfailed hash) fun info _ he => ?_
        rw [hm] at he
        cases he
      · exact .setTable result rfl hresult hfailed t hl ht
  | pruneNodes =>
    obtain ⟨-, -, -, cutoff, hm, hl | ⟨hl, hc⟩⟩ := layers_pruneNodes h hash
    · exact .evict hl
    · refine .same hl fun info hi he => ?_
      rw [hm] at he
      exact absurd he (not_lt.2 (hc info hi))
  | restart order failure =>
    obtain ⟨r, t, c, hl, hr, ht, hc, -, -⟩ := layers_restart h hash
    exact .reload r t c hl hr ht hc

theorem OneBatch.of_eq (h : s.OneBatch) (hb : s'.batch = s.batch)
    (hp : s'.pendingUpserts = s.pendingUpserts) : s'.OneBatch := fun h' => by
  rw [hp]
  exact h (hb ▸ h')

/-- No step makes anything wait while a batch is written. -/
theorem OneBatch.next (hs : s.OneBatch) (h : next config s e = some s') : s'.OneBatch := by
  have hnone : s'.batch = none → s'.OneBatch := fun hb h => absurd hb h
  cases e with
  | tick d =>
    obtain ⟨-, h⟩ := Option.ite_none_right_eq_some.1 h
    cases h
    exact hs
  | deliver d =>
    obtain ⟨-, h⟩ := Option.ite_none_right_eq_some.1 h
    cases h
    obtain ⟨queue, delivered, handled, heq⟩ := recordAnnounce_frame (s := s) (d := d)
    rw [heq]
    exact hs
  | process hops => exact hnone (layers_process h 0).2.1
  | takeBatch => exact (layers_takeBatch h 0).2.2
  | writeBatch result =>
    obtain ⟨batch, hb, rfl⟩ := Option.map_eq_some_iff.1 h
    cases result <;> exact hnone rfl
  | readCutoff =>
    simp only [System.next, readCutoff] at h
    split at h
    next hm =>
      cases h
      exact hs
    next => cases h
  | pruneRows result =>
    by_cases hresult : result = .ok
    · subst hresult
      obtain ⟨hb, hp, -⟩ := layers_pruneRows_ok h 0
      exact hs.of_eq hb hp
    · obtain ⟨hb, hp, -⟩ := layers_pruneRows h hresult 0
      exact hs.of_eq hb hp
  | pruneNodes =>
    obtain ⟨hb, hp, -⟩ := layers_pruneNodes h 0
    exact hs.of_eq hb hp
  | restart order failure =>
    obtain ⟨-, -, -, -, -, -, -, hb, -⟩ := layers_restart h 0
    exact hnone hb

end System

end ReticulumPi.Network
