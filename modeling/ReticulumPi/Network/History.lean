import ReticulumPi.Network.Copies

/-!
# What the network map forgets

The table should only learn: a node's first sight and its count of announces
should survive every eviction, failure and restart. They do as long as a node
that is not in memory has no row; a node that was evicted, or did not fit when
the rows were loaded, starts again from one announce, and its row with it. An
announce should count once, which depends on the order of its two handlers. And
what is in memory should be in the table once everything is written, which a
failed write prevents, as its batch is dropped.
-/

namespace ReticulumPi.Network

open WriteBehind

namespace System

variable {config : Config} {s s' : System} {hash : Hash} {e : Event}

/-! ## The first sight and the count of a node -/

/-- The announce the worker takes is of a node that is in memory, or has no row. -/
def KeepsRows (s : System) : Event → Prop
  | .process _ => ∀ d ∈ s.announceQueue.head?,
    s.knownNodes.get? d.announce.destinationHash = none →
      s.rows.get? d.announce.destinationHash = none ∧
        s.table.get? d.announce.destinationHash = none
  | _ => True

instance (s : System) : (e : Event) → Decidable (KeepsRows s e)
  | .process _ => inferInstanceAs (Decidable (∀ _ ∈ _, _ → _ ∧ _))
  | .tick _ | .deliver _ | .takeBatch | .writeBatch _ | .readCutoff | .pruneRows _ | .pruneNodes
  | .restart _ _ => inferInstanceAs (Decidable True)

/-- The row of a node, where it has one before and after, has not forgotten
    when the node was first seen, and how many announces it made. -/
def Remembers (rows rows' : Dict Hash NodeInfo) : Prop :=
  ∀ hash old new, rows.get? hash = some old → rows'.get? hash = some new →
    new.firstSeen ≤ old.firstSeen ∧ old.announceCount ≤ new.announceCount

/-- No copy of a record knows more than a later one. -/
structure Kept (s : System) : Prop where
  ascending : ∀ hash, (s.layers hash).Ascending NodeInfo.history
  oneBatch : s.OneBatch

theorem kept_init {t : ℚ} : Kept { clock := t } where
  ascending _ := by simp [Layers.ascending_iff, layers]
  oneBatch h := absurd rfl h

theorem remembers_of_atMost
    (h : ∀ hash, Layers.AtMost NodeInfo.history (s.layers hash).committed
      (s'.layers hash).committed) : Remembers s.rows s'.rows := fun hash old new ho hn =>
  history_le_iff.1 (h hash old ho new hn)

theorem history_eq_of_unnamed {o o' : Option NodeInfo}
    (h : o.map NodeInfo.unnamed = o'.map NodeInfo.unnamed) :
    Layers.AtMost NodeInfo.history o o' := by
  refine Layers.atMost_of_map_eq ?_
  have := congrArg (Option.map NodeInfo.history) h
  rwa [Option.map_map, Option.map_map] at this

/-- Every step that meets the condition keeps the copies in order, and the rows
    do not forget. -/
theorem Kept.next (h : Kept s) (he : KeepsRows s e) (hn : next config s e = some s') :
    Kept s' ∧ Remembers s.rows s'.rows := by
  suffices hstep : ∀ hash, (s'.layers hash).Ascending NodeInfo.history ∧
      Layers.AtMost NodeInfo.history (s.layers hash).committed (s'.layers hash).committed from
    ⟨⟨fun hash => (hstep hash).1, h.oneBatch.next hn⟩,
      remembers_of_atMost fun hash => (hstep hash).2⟩
  intro hash
  have hasc := h.ascending hash
  obtain ⟨⟨htab, hbatch, -⟩, -⟩ := Layers.ascending_iff.1 hasc
  cases move_of_next hn hash with
  | same layers expired =>
    rw [layers]
    exact ⟨hasc, Layers.atMost_refl⟩
  | evict layers =>
    rw [layers]
    exact ⟨hasc.evict, Layers.atMost_refl⟩
  | update hops event info info' batch cached history seen layers =>
    rw [layers]
    exact ⟨hasc.update (by simp [System.layers, batch]) cached history, Layers.atMost_refl⟩
  | insert hops event d head dest info' batch cached seen layers =>
    subst event dest
    obtain ⟨hrow, htable⟩ := he d head cached
    rw [layers]
    exact ⟨.insert (by simp [System.layers, batch]) hrow htable, Layers.atMost_refl⟩
  | take batch maintenance layers =>
    rw [layers]
    exact ⟨hasc.take, Layers.atMost_refl⟩
  | write event batch maintenance layers =>
    rw [layers]
    exact ⟨hasc.write (h.oneBatch.pending batch), hbatch.or_right htab⟩
  | fail result event failed batch t layers table =>
    rw [layers]
    exact ⟨hasc.fail (h.oneBatch.pending batch) table, Layers.atMost_refl⟩
  | commit cutoff before after t layers table =>
    rw [layers]
    refine ⟨hasc.commit (table.imp_right And.left), ?_⟩
    rcases table with rfl | ⟨rfl, -⟩
    · exact htab
    · exact Layers.atMost_none_right
  | setTable result event failed deleted t layers table =>
    rw [layers]
    exact ⟨hasc.setTable table, Layers.atMost_refl⟩
  | reload r t c layers rows table cached =>
    rw [layers]
    exact ⟨.reload (history_eq_of_unnamed (rows.trans table.symm)) cached,
      history_eq_of_unnamed rows.symm⟩

theorem kept (h : (transition config).Reach KeepsRows s) : Kept s := by
  refine h.induction ?_ fun s e s' hs he hn => (hs.next he hn).1
  rintro s ⟨t, rfl⟩
  exact kept_init

/-! ## What is in memory and what is in the table -/

/-- No write fails, and none takes place while a prune has deleted the row of a
    record it has still to drop. -/
def Writes (s : System) : Event → Prop
  | .writeBatch result => result = .ok ∧ ∀ e ∈ s.knownNodes.entries,
    s.maintenance.expired e.2 → (s.layers e.1).batch ≠ none
  | .pruneRows result => result = .ok ∨ result = .failed
  | _ => True

instance (s : System) : (e : Event) → Decidable (Writes s e)
  | .writeBatch _ => inferInstanceAs (Decidable (_ = _ ∧ ∀ _ ∈ _, _ → _))
  | .pruneRows _ => inferInstanceAs (Decidable (_ ∨ _))
  | .tick _ | .deliver _ | .process _ | .takeBatch | .readCutoff | .pruneNodes | .restart _ _ =>
    inferInstanceAs (Decidable True)

/-- Every record in memory is what the table will have after the next writes. -/
structure Synced (s : System) : Prop where
  inStep : ∀ hash, (s.layers hash).InStep s.maintenance.expired
  oneBatch : s.OneBatch

theorem synced_init {t : ℚ} : Synced { clock := t } where
  inStep _ := nofun
  oneBatch h := absurd rfl h

theorem Synced.next (h : Synced s) (he : Writes s e) (hn : next config s e = some s') :
    Synced s' := by
  refine ⟨fun hash => ?_, h.oneBatch.next hn⟩
  have hin := h.inStep hash
  cases move_of_next hn hash with
  | same layers expired =>
    rw [layers]
    exact fun c hc => (hin c hc).imp_right fun hx => ⟨hx.1, expired c hc hx.2⟩
  | evict layers =>
    rw [layers]
    exact .evict
  | update hops event info info' batch cached history seen layers
  | insert hops event d head dest info' batch cached seen layers =>
    rw [layers]
    exact .update
  | take batch maintenance layers =>
    rw [layers, maintenance]
    exact hin.take (by simp [System.layers, batch])
  | write event batch maintenance layers =>
    rw [layers, maintenance]
    exact hin.write (h.oneBatch.pending batch)
  | fail result event failed batch t layers table =>
    subst event
    exact absurd he.1 failed
  | commit cutoff before after t layers table =>
    rw [layers, after]
    rw [before] at hin
    exact Layers.InStep.commit hin table
  | setTable result event failed deleted t layers table =>
    subst event
    exact absurd he (not_or.2 ⟨failed, deleted⟩)
  | reload r t c layers rows table cached =>
    rw [layers]
    exact .reload cached

theorem synced (h : (transition config).Reach Writes s) : Synced s := by
  refine h.induction ?_ fun s e s' hs he hn => hs.next he hn
  rintro s ⟨t, rfl⟩
  exact synced_init

/-- When a batch is written, every record in memory is its row. -/
theorem Synced.rows_eq (h : Synced s) (he : Writes s (.writeBatch .ok))
    (hn : s.writeBatch .ok = some s') {info : NodeInfo}
    (hi : s'.knownNodes.get? hash = some info) : s'.rows.get? hash = some info := by
  obtain ⟨hb, -, hl⟩ := layers_writeBatch_ok hn hash
  have hc : (s.layers hash).cached = some info := by
    rw [← hi]
    exact (congrArg Layers.cached hl).symm
  have hrow := (h.inStep hash).committed_write (h.oneBatch.pending hb) hc fun hx =>
    he.2 _ (Dict.get?_eq_some_iff.1 hc) hx
  rw [← hl] at hrow
  exact hrow

end System

end ReticulumPi.Network
