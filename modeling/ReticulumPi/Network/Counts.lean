import ReticulumPi.Network.History

/-!
# How often an announce counts

An announce comes from one handler or from two, and should raise the count of
its node by one. The wildcard handler leaves a node alone that is classified, on
the assumption that the other handler counts; so the sum is right when a node
is classified exactly if the announce has another handler.
-/

namespace ReticulumPi.Network

open WriteBehind List

variable {config : Config} {s s' : System} {e : Event} {hash : Hash} {d : Delivery} {a : Announce}

/-- What a delivery should add to the count: one, except for the wildcard handler
    when the announce goes to another one too. -/
def Delivery.share (d : Delivery) : ℤ :=
  if d.fromWildcard = true ∧ d.announce.aspect.isSome = true then 0 else 1

/-- The deliveries of an announce, one from each of its handlers. -/
def Announce.deliveries (a : Announce) : List Delivery :=
  [⟨a, false⟩, ⟨a, true⟩].filter fun d => d.Valid

namespace System

/-- The node has the name of its application in memory. -/
def Classified (s : System) (hash : Hash) : Prop :=
  ∃ info ∈ s.knownNodes.get? hash, info.appName ≠ ""

instance (s : System) (hash : Hash) : Decidable (s.Classified hash) :=
  decidable_of_iff ((s.knownNodes.get? hash).any (·.appName ≠ "") = true) <| by
    simp [Classified, Option.any_eq_true]

/-- All deliveries of the announce are handled; it has one at least. -/
def Settled (s : System) (a : Announce) : Prop :=
  a.deliveries ≠ [] ∧ ∀ d ∈ a.deliveries, d ∈ s.handled.map Prod.fst
deriving Decidable

/-- By how much the deliveries of the announce have raised the count of its node. -/
def rise (s : System) (a : Announce) : ℤ :=
  ((s.handled.filter fun p => p.1.announce = a).map Prod.snd).sum

/-- No delivery is lost, in a full queue, by an error in its data or by a
    restart; and the wildcard handler finds the node classified if and only if
    the announce goes to another handler too. -/
def CountsOnce (config : Config) (s : System) : Event → Prop
  | .deliver _ => s.announceQueue.length < queueMaxsize
  | .process _ => ∀ d ∈ s.announceQueue.head?, (d.appDataStr config).isSome = true ∧
    (d.fromWildcard = true →
      (d.announce.aspect.isSome = true ↔ s.Classified d.announce.destinationHash))
  | .restart _ _ => s.announceQueue = []
  | _ => True

instance (config : Config) (s : System) : (e : Event) → Decidable (CountsOnce config s e)
  | .deliver _ => inferInstanceAs (Decidable (_ < _))
  | .process _ => inferInstanceAs (Decidable (∀ _ ∈ _, _ ∧ (_ → _)))
  | .restart _ _ => inferInstanceAs (Decidable (_ = _))
  | .tick _ | .takeBatch | .writeBatch _ | .readCutoff | .pruneRows _ | .pruneNodes =>
    inferInstanceAs (Decidable True)

/-! ## What one delivery adds -/

/-- Every copy of a record was seen in the past. -/
def SeenBefore (s : System) : Prop := ∀ hash, (s.layers hash).All (·.lastSeen ≤ s.clock)

/-- A new record is the last one to be dropped. -/
theorem get?_evict_set (config : Config) {nodes : Dict Hash NodeInfo} {info : NodeInfo}
    (hnew : nodes.get? hash = none) (hle : ∀ e ∈ nodes.entries, e.2.lastSeen ≤ info.lastSeen) :
    (evict config (nodes.set hash info)).get? hash = some info := by
  rw [evict, Dict.entries_set_of_none hnew]
  split_ifs with hfull
  · rcases hmin : nodes.entries.argmin (fun x => x.2.lastSeen) with _ | oldest
    · -- There are a hundred others.
      rw [argmin_eq_none.1 hmin] at hfull
      have := config.maxCachedNodes_ge
      simp only [nil_append, length_singleton] at hfull
      omega
    · have hmem : oldest ∈ nodes.entries := argmin_mem hmin
      have hne : hash ≠ oldest.1 := fun heq =>
        Dict.get?_eq_none_iff.1 hnew oldest.2 (heq ▸ hmem)
      have hargmin : (nodes.entries ++ [(hash, info)]).argmin (fun x => x.2.lastSeen) =
          some oldest := by
        rw [argmin_concat, hmin]
        exact if_neg (not_lt.2 (hle oldest hmem))
      rw [hargmin]
      exact (Dict.get?_erase_of_ne hne).trans Dict.get?_set_self
  · exact Dict.get?_set_self

theorem knownNodes_upsert : (s.upsert hash).knownNodes = s.knownNodes := by
  rw [upsert]
  rcases s.knownNodes.get? hash with _ | info <;> rfl

/-- A delivery counts once, unless it is from the wildcard handler and the node
    is classified. -/
theorem announceCount_processAnnounce {hops : Option ℕ} {appDataStr : String}
    (hs : s.SeenBefore) (happ : d.appDataStr config = some appDataStr) :
    (s.processAnnounce config d hops).announceCount d.announce.destinationHash =
      s.announceCount d.announce.destinationHash +
        if d.fromWildcard = true ∧ s.Classified d.announce.destinationHash then 0 else 1 := by
  simp only [processAnnounce, happ]
  rcases hnode : s.knownNodes.get? d.announce.destinationHash with _ | info
  · have hclass : ¬ s.Classified d.announce.destinationHash := by
      rintro ⟨info, hi, -⟩
      rw [hnode] at hi
      cases hi
    have hle : ∀ e ∈ s.knownNodes.entries, e.2.lastSeen ≤ s.clock := fun e he =>
      (Layers.all_iff.1 (hs e.1)).2.2.2.2 e.2 (Dict.get?_eq_some_iff.2 he)
    have hself : (evict config (s.knownNodes.set d.announce.destinationHash
        (.discovered (d.app appDataStr) appDataStr hops s.clock))).get?
          d.announce.destinationHash =
        some (.discovered (d.app appDataStr) appDataStr hops s.clock) :=
      get?_evict_set config hnode hle
    rw [if_neg fun h => hclass h.2]
    simp only [announceCount, knownNodes_upsert, hself, hnode]
    rfl
  · dsimp only
    have hclass : s.Classified d.announce.destinationHash ↔ info.appName ≠ "" := by
      simp [Classified, hnode]
    by_cases hskip : d.fromWildcard = true ∧ info.appName ≠ ""
    · rw [if_pos hskip, if_pos (hskip.imp_right hclass.2), add_zero]
    · rw [if_neg hskip, if_neg (mt (And.imp_right hclass.1) hskip)]
      simp [announceCount, knownNodes_upsert, hnode, NodeInfo.seenAgain]

/-- Under the condition, a delivery adds its share. -/
theorem processAnnounce_share (hops : Option ℕ) (hs : s.SeenBefore)
    (happ : (d.appDataStr config).isSome = true)
    (hw : d.fromWildcard = true →
      (d.announce.aspect.isSome = true ↔ s.Classified d.announce.destinationHash)) :
    (s.processAnnounce config d hops).announceCount d.announce.destinationHash -
      s.announceCount d.announce.destinationHash = d.share := by
  obtain ⟨appDataStr, happ⟩ := Option.isSome_iff_exists.1 happ
  rw [announceCount_processAnnounce hs happ, add_sub_cancel_left, Delivery.share]
  refine if_congr (and_congr_right fun h => (hw h).symm) rfl rfl

/-! ## Every record was seen in the past -/

theorem clock_le_of_next (h : next config s e = some s') : s.clock ≤ s'.clock := by
  cases e with
  | tick d =>
    obtain ⟨hd, h⟩ := Option.ite_none_right_eq_some.1 h
    cases h
    exact le_add_of_nonneg_right hd
  | deliver d =>
    obtain ⟨-, h⟩ := Option.ite_none_right_eq_some.1 h
    cases h
    obtain ⟨queue, delivered, handled, heq⟩ := recordAnnounce_frame (s := s) (d := d)
    rw [heq]
  | process hops => exact (process_frame h).2.ge
  | takeBatch =>
    obtain ⟨-, h⟩ := Option.ite_none_right_eq_some.1 h
    cases h
    exact le_rfl
  | writeBatch result =>
    obtain ⟨batch, hb, rfl⟩ := Option.map_eq_some_iff.1 h
    cases result <;> exact le_rfl
  | readCutoff =>
    simp only [next, readCutoff] at h
    split at h <;> cases h
    exact le_rfl
  | pruneRows result =>
    simp only [next, pruneRows] at h
    split at h <;> cases h
    cases result <;> exact le_rfl
  | pruneNodes =>
    simp only [next, pruneNodes] at h
    split at h <;> cases h
    exact le_rfl
  | restart order failure =>
    obtain ⟨nodes, table, rows, heq⟩ := restart_frame h
    rw [heq]

theorem seenBefore_init {t : ℚ} : SeenBefore { clock := t } := fun _ => by
  simp [Layers.all_iff, layers]

theorem lastSeen_of_unnamed {o o' : Option NodeInfo} {t : ℚ}
    (h : o.map NodeInfo.unnamed = o'.map NodeInfo.unnamed) (ho : ∀ x ∈ o', x.lastSeen ≤ t) :
    ∀ x ∈ o, x.lastSeen ≤ t := fun x hx => by
  have h' := congrArg (Option.map NodeInfo.lastSeen) h
  rw [Option.map_map, Option.map_map, Option.mem_def.1 hx] at h'
  obtain ⟨y, hy, hyx⟩ := Option.map_eq_some_iff.1 h'.symm
  exact hyx.ge.trans (ho y hy)

theorem SeenBefore.next (h : s.SeenBefore) (hn : next config s e = some s') : s'.SeenBefore := by
  intro hash
  have hall : (s.layers hash).All (·.lastSeen ≤ s'.clock) :=
    (h hash).mono fun _ hx => hx.trans (clock_le_of_next hn)
  cases move_of_next hn hash with
  | same layers expired => exact layers ▸ hall
  | evict layers => exact layers ▸ hall.evict
  | update hops event info info' batch cached history seen layers
  | insert hops event d head dest info' batch cached seen layers =>
    exact layers ▸ hall.update (seen.le.trans (clock_le_of_next hn))
  | take batch maintenance layers => exact layers ▸ hall.take
  | write event batch maintenance layers => exact layers ▸ hall.write
  | fail result event failed batch t layers table => exact layers ▸ hall.fail table
  | commit cutoff before after t layers table =>
    exact layers ▸ hall.commit (table.imp_right And.left)
  | setTable result event failed deleted t layers table => exact layers ▸ hall.setTable table
  | reload r t c layers rows table cached =>
    have hrow := (Layers.all_iff.1 hall).1
    have ht := lastSeen_of_unnamed table hrow
    rw [layers, Layers.all_iff]
    refine ⟨lastSeen_of_unnamed rows hrow, ht, nofun, nofun, ?_⟩
    rcases cached with rfl | rfl
    · nofun
    · exact ht

/-! ## What all deliveries of an announce add -/

/-- The deliveries are in the queue or handled, each once, with its share. -/
structure Counted (s : System) : Prop where
  perm : (s.handled.map Prod.fst ++ s.announceQueue).Perm s.delivered
  nodup : s.delivered.Nodup
  valid : ∀ d ∈ s.delivered, d.Valid
  share : ∀ p ∈ s.handled, p.2 = p.1.share
  seenBefore : s.SeenBefore

theorem counted_init {t : ℚ} : Counted { clock := t } where
  perm := .nil
  nodup := .nil
  valid := nofun
  share := nofun
  seenBefore := seenBefore_init

/-- The steps that handle no delivery leave the account of them. -/
theorem deliveries_of_next (h : next config s e = some s') (hd : ∀ d, e ≠ .deliver d)
    (hp : ∀ hops, e ≠ .process hops) (hr : ∀ order failure, e ≠ .restart order failure) :
    s'.announceQueue = s.announceQueue ∧ s'.delivered = s.delivered ∧
      s'.handled = s.handled := by
  cases e with
  | tick d | takeBatch =>
    obtain ⟨-, h⟩ := Option.ite_none_right_eq_some.1 h
    cases h
    exact ⟨rfl, rfl, rfl⟩
  | deliver d => exact absurd rfl (hd d)
  | process hops => exact absurd rfl (hp hops)
  | writeBatch result =>
    obtain ⟨batch, hb, rfl⟩ := Option.map_eq_some_iff.1 h
    cases result <;> exact ⟨rfl, rfl, rfl⟩
  | readCutoff =>
    simp only [next, readCutoff] at h
    split at h <;> cases h
    exact ⟨rfl, rfl, rfl⟩
  | pruneRows result =>
    simp only [next, pruneRows] at h
    split at h <;> cases h
    cases result <;> exact ⟨rfl, rfl, rfl⟩
  | pruneNodes =>
    simp only [next, pruneNodes] at h
    split at h <;> cases h
    exact ⟨rfl, rfl, rfl⟩
  | restart order failure => exact absurd rfl (hr order failure)

namespace Counted

/-- A delivery finds room in the queue. -/
theorem deliver (h : Counted s) (hroom : s.announceQueue.length < queueMaxsize)
    (hn : next config s (.deliver d) = some s') : Counted s' := by
  have hseen := h.seenBefore.next hn
  obtain ⟨⟨hvalid, hfresh⟩, hn⟩ := Option.ite_none_right_eq_some.1 hn
  cases hn
  simp only [recordAnnounce, if_pos hroom] at hseen ⊢
  exact {
    perm := by
      rw [← append_assoc]
      exact (perm_append_singleton _ _).trans (h.perm.cons d)
    nodup := nodup_cons.2 ⟨hfresh, h.nodup⟩
    valid := forall_mem_cons.2 ⟨hvalid, h.valid⟩
    share := h.share
    seenBefore := hseen }

/-- A delivery is taken from the queue and adds its share. -/
theorem process {hops : Option ℕ} (h : Counted s) (hc : CountsOnce config s (.process hops))
    (hn : next config s (.process hops) = some s') : Counted s' := by
  have hseen := h.seenBefore.next hn
  simp only [next, System.process] at hn
  split at hn
  next d rest hbatch hqueue =>
    cases hn
    obtain ⟨hdec, hwild⟩ := hc d (by rw [hqueue]; rfl)
    obtain ⟨nodes, pending, heq⟩ := 
      processAnnounce_frame config { s with announceQueue := rest } d hops
    have hshare := processAnnounce_share (s := { s with announceQueue := rest }) hops
      h.seenBefore hdec hwild
    rw [heq] at hshare
    simp only [heq] at hseen ⊢
    exact {
      perm := perm_middle.symm.trans (hqueue ▸ h.perm)
      nodup := h.nodup
      valid := h.valid
      share := forall_mem_cons.2 ⟨hshare, h.share⟩
      seenBefore := hseen }
  next => cases hn

theorem next (h : Counted s) (hc : CountsOnce config s e) (hn : next config s e = some s') :
    Counted s' := by
  have hother : s'.announceQueue = s.announceQueue ∧ s'.delivered = s.delivered ∧
      s'.handled = s.handled → Counted s' := fun ⟨hq, hd, hh⟩ =>
    { perm := by
        rw [hq, hd, hh]
        exact h.perm
      nodup := hd ▸ h.nodup
      valid := hd ▸ h.valid
      share := hh ▸ h.share
      seenBefore := h.seenBefore.next hn }
  cases e with
  | deliver d => exact h.deliver hc hn
  | process hops => exact h.process hc hn
  | restart order failure =>
    obtain ⟨nodes, table, rows, heq⟩ := restart_frame hn
    have hqueue : s.announceQueue = [] := hc
    refine hother ?_
    rw [heq, hqueue]
    exact ⟨rfl, rfl, rfl⟩
  | _ => exact hother (deliveries_of_next hn nofun nofun nofun)

/-- The shares of all deliveries of an announce make one. -/
theorem rise_eq_one (h : Counted s) (ha : s.Settled a) : s.rise a = 1 := by
  have hshare : s.rise a =
      (((s.handled.map Prod.fst).filter fun d => d.announce = a).map Delivery.share).sum := by
    rw [rise, List.filter_map, List.map_map]
    refine congrArg List.sum (map_congr_left fun p hp => ?_)
    exact h.share p (mem_of_mem_filter hp)
  have hnd : (s.handled.map Prod.fst).Nodup :=
    (h.perm.nodup_iff.2 h.nodup).sublist (sublist_append_left _ _)
  -- The deliveries handled are those that there are.
  have hperm : ((s.handled.map Prod.fst).filter fun d => d.announce = a).Perm a.deliveries := by
    refine (perm_ext_iff_of_nodup (hnd.filter _) ?_).2 fun d => ?_
    · exact (by simp : ([⟨a, false⟩, ⟨a, true⟩] : List Delivery).Nodup).filter _
    · rw [mem_filter, Announce.deliveries, mem_filter, decide_eq_true_iff,
        decide_eq_true_iff]
      constructor
      · rintro ⟨hd, rfl⟩
        have hvalid := h.valid d (h.perm.subset (mem_append_left _ hd))
        exact ⟨by rcases d with ⟨a, _ | _⟩ <;> simp, hvalid⟩
      · rintro ⟨hd, hvalid⟩
        have hann : d.announce = a := by
          rcases mem_pair.1 hd with rfl | rfl <;> rfl
        have hdel : d ∈ a.deliveries := mem_filter.2 ⟨hd, decide_eq_true hvalid⟩
        exact ⟨ha.2 d hdel, hann⟩
  rw [hshare, (hperm.map _).sum_eq]
  rcases haspect : a.aspect.isSome with _ | _ <;> rcases hwild : a.wildcard with _ | _
  · exact absurd (by simp [Announce.deliveries, Delivery.Valid, haspect, hwild]) ha.1
  all_goals simp [Announce.deliveries, Delivery.Valid, Delivery.share, haspect, hwild]

end Counted

theorem counted (h : (transition config).Reach (CountsOnce config) s) : Counted s := by
  refine h.induction ?_ fun s e s' hs he hn => hs.next he hn
  rintro s ⟨t, rfl⟩
  exact counted_init

/-! ## The network map and its history -/

/-- The rows do not forget; each announce counts once; and what is in memory is in
    the table once it is written: each in the runs that meet its condition. -/
theorem history_kept (config : Config) :
    (∀ s e s', (transition config).Reach KeepsRows s → KeepsRows s e →
      next config s e = some s' → Remembers s.rows s'.rows) ∧
    (∀ s a, (transition config).Reach (CountsOnce config) s → s.Settled a → s.rise a = 1) ∧
    (∀ s s' hash info, (transition config).Reach Writes s → Writes s (.writeBatch .ok) →
      s.writeBatch .ok = some s' → s'.knownNodes.get? hash = some info →
        s'.rows.get? hash = some info) :=
  ⟨fun _ _ _ h he hn => ((kept h).next he hn).2, fun _ _ h ha => (counted h).rise_eq_one ha,
    fun _ _ _ _ h he hn hi => (synced h).rows_eq he hn hi⟩

/-- A small map. -/
def smallMap : Config where
  maxCachedNodes := 100
  displayName _ := none

/-- An announce of a node to the handler of its aspect. -/
def nodeAnnounce (id : ℕ) (hash : Hash) (wildcard : Bool) : Announce where
  id := id
  destinationHash := hash
  aspect := some "lxmf.delivery"
  wildcard := wildcard

/-- The announce is delivered to that handler, and processed. -/
def announces (id : ℕ) (hash : Hash) : List Event :=
  [.deliver ⟨nodeAnnounce id hash false, false⟩, .process (some 1)]

/-- A node announces itself twice and is written; a hundred others take its place
    in memory; and it announces itself again. -/
def evictionRun : List Event :=
  announces 0 0 ++ announces 1 0 ++ [.takeBatch, .writeBatch .ok, .tick 1] ++
    ((List.range 100).flatMap fun n => announces (n + 2) (n + 1)) ++ announces 102 0 ++
      [.takeBatch]

/-- An announce of a new node comes to the wildcard handler first. -/
def doubleRun : List Event :=
  [.deliver ⟨nodeAnnounce 0 0 true, true⟩, .process none,
    .deliver ⟨nodeAnnounce 0 0 true, false⟩, .process none]

/-- The batch with one node cannot be written, the next one can. -/
def droppedRun : List Event :=
  announces 0 0 ++ [.takeBatch, .writeBatch (.failed 0)] ++ announces 1 1 ++ [.takeBatch]

/-- None of the three holds in all runs. -/
theorem history_kept_fails :
    (∃ s s' : System, (transition smallMap).Reachable s ∧ s.writeBatch .ok = some s' ∧
      ¬ Remembers s.rows s'.rows) ∧
    (∃ s : System, (transition smallMap).Reachable s ∧ s.Settled (nodeAnnounce 0 0 true) ∧
      s.rise (nodeAnnounce 0 0 true) = 2) ∧
    (∃ s s' : System, (transition smallMap).Reachable s ∧ s.writeBatch .ok = some s' ∧
      ∃ info, s'.knownNodes.get? 0 = some info ∧ s'.rows.get? 0 = none) := by
  have hreach : ∀ {l : List Event} {s : System},
      l.foldlM (next smallMap) { clock := 0 } = some s → (transition smallMap).Reachable s :=
    fun hl => .foldlM (.init ⟨0, rfl⟩) hl
  refine ⟨?_, ?_, ?_⟩
  · obtain ⟨s, hs, s', hs', old, ho, new, hn, hlt⟩ :
        ∃ s ∈ evictionRun.foldlM (next smallMap) { clock := 0 },
        ∃ s' ∈ s.writeBatch .ok, ∃ old ∈ s.rows.get? 0, ∃ new ∈ s'.rows.get? 0,
            new.announceCount < old.announceCount := by
      decide +kernel
    exact ⟨s, s', hreach hs, hs', fun h =>
      absurd (h 0 old new ho hn).2 (not_le.2 hlt)⟩
  · obtain ⟨s, hs, hend⟩ : ∃ s ∈ doubleRun.foldlM (next smallMap) { clock := 0 },
        s.Settled (nodeAnnounce 0 0 true) ∧ s.rise (nodeAnnounce 0 0 true) = 2 := by
      decide +kernel
    exact ⟨s, hreach hs, hend⟩
  · obtain ⟨s, hs, s', hs', info, hi, hend⟩ : ∃ s ∈ droppedRun.foldlM (next smallMap) { clock := 0 },
        ∃ s' ∈ s.writeBatch .ok, ∃ _ ∈ s'.knownNodes.get? 0, s'.rows.get? 0 = none := by
      decide +kernel
    exact ⟨s, s', hreach hs, hs', info, hi, hend⟩

/-- An announce of a node comes to the handler of its aspect first, and is written;
    then the node announces itself again. -/
def keptRun : List Event :=
  [.deliver ⟨nodeAnnounce 0 0 true, false⟩, .process none,
    .deliver ⟨nodeAnnounce 0 0 true, true⟩, .process none, .takeBatch, .writeBatch .ok] ++
      announces 1 0 ++ [.takeBatch]

/-- That run meets the three conditions. -/
theorem history_kept_written : ∃ s s' : System, s.writeBatch .ok = some s' ∧
    Remembers s.rows s'.rows ∧ s.rise (nodeAnnounce 0 0 true) = 1 ∧
      ∃ info, s'.rows.get? 0 = some info ∧ info.announceCount = 2 := by
  obtain ⟨s, hs, hsettled, hwrites, s', hs', info, hi, hcount⟩ : ∃ s ∈ keptRun.foldlM (fun s e =>
        if KeepsRows s e ∧ CountsOnce smallMap s e ∧ Writes s e then next smallMap s e else none)
        { clock := 0 },
        s.Settled (nodeAnnounce 0 0 true) ∧ Writes s (.writeBatch .ok) ∧
          ∃ s' ∈ s.writeBatch .ok,
            ∃ info ∈ s'.knownNodes.get? 0, info.announceCount = 2 := by
    decide +kernel
  have hreach : (transition smallMap).Reach
      (fun s e => KeepsRows s e ∧ CountsOnce smallMap s e ∧ Writes s e) s :=
    Transition.Reach.foldlM (Transition.Reach.init ⟨0, rfl⟩) hs
  obtain ⟨hkept, hcounted, hsynced⟩ := history_kept smallMap
  refine ⟨s, s', hs', ?_, ?_, info, ?_, hcount⟩
  · exact hkept s (.writeBatch .ok) s' (hreach.mono fun _ _ h => h.1) trivial hs'
  · exact hcounted s _ (hreach.mono fun _ _ h => h.2.1) hsettled
  · exact hsynced s s' 0 info (hreach.mono fun _ _ h => h.2.2) hwrites hs' hi

end System

end ReticulumPi.Network
