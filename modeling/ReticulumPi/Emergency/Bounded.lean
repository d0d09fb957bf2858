import ReticulumPi.Emergency.Flood

/-!
# The flood is bounded

Each node stores and announces a message at most once, each rebroadcast carries a smaller
TTL than its message was received with, and no message gets further than its TTL says,
or than one hop if it says less (`flood_bounded`): in the runs in which clocks do not go
back, and messages are received again, if at all, within the lifetime of the seen cache,
which never has as many entries of its lifetime as it may hold.
-/

namespace ReticulumPi.Emergency

open List

/-! ## The seen cache -/

theorem insertionSort_append {α : Type} (r : α → α → Prop) [DecidableRel r] {x : α} {l : List α}
    (h : ∀ a ∈ l, r a x) : (l ++ [x]).insertionSort r = l.insertionSort r ++ [x] := by
  have hinsert : ∀ (a : α) (l : List α), r a x →
      (l ++ [x]).orderedInsert r a = l.orderedInsert r a ++ [x] := by
    intro a l ha
    induction l with
    | nil => simp [List.orderedInsert, ha]
    | cons b l ih =>
      rw [cons_append, List.orderedInsert, List.orderedInsert]
      split_ifs
      · rfl
      · rw [ih, cons_append]
  induction l with
  | nil => rfl
  | cons a l ih =>
    rw [cons_append, insertionSort_cons, insertionSort_cons,
      ih fun b hb => h b (mem_cons_of_mem _ hb), hinsert _ _ (h a mem_cons_self)]

/-- What is not older than the cutoff is not removed as long as the cap is not exceeded. -/
theorem get?_pruneSeenIds {cutoff : ℤ} {seenIds : Dict String ℤ}
    (h : (seenIds.entries.filter fun e => cutoff ≤ e.2).length ≤ maxSeen) (id : String) :
    (pruneSeenIds cutoff seenIds).get? id = (seenIds.get? id).filter (cutoff ≤ ·) := by
  have hlen : ¬ maxSeen < (expire cutoff seenIds).entries.length := Nat.not_lt.2 h
  rw [pruneSeenIds, evictOldest, if_neg hlen, expire, Dict.get?_filter]

/-- The newest entry, which is the last one, is not evicted. -/
theorem mem_evictOldest {seenIds : Dict String ℤ} {id : String} {now : ℤ}
    {l : List (String × ℤ)} (hlast : seenIds.entries = l ++ [(id, now)])
    (hold : ∀ e ∈ l, e.2 ≤ now) : id ∈ (evictOldest seenIds).keys := by
  have hkey : seenIds.get? id = some now :=
    Dict.get?_eq_some_iff.2 (by rw [hlast]; exact mem_append_right _ mem_cons_self)
  rw [evictOldest]
  split_ifs with hlen
  · have hsort := insertionSort_append (fun a b : String × ℤ => a.2 ≤ b.2) (x := (id, now)) hold
    rw [Dict.mem_keys]
    refine ⟨now, ?_⟩
    rw [Dict.get?_foldl_erase, if_neg, hkey]
    -- the entry comes last in the order of age, beyond those that are taken
    have hcount : seenIds.entries.length - maxSeen ≤
        (l.insertionSort fun a b => a.2 ≤ b.2).length := by
      rw [hlast, length_append, length_insertionSort, length_singleton, maxSeen]
      omega
    rw [hlast] at hcount ⊢
    rw [hsort, take_append_of_le_length hcount]
    intro hmem
    obtain ⟨e, he, hid⟩ := List.mem_map.1 hmem
    have hnodup := seenIds.nodup
    rw [hlast, map_append] at hnodup
    refine (nodup_append.1 hnodup).2.2 id ?_ id (by simp) rfl
    exact hid ▸ List.mem_map_of_mem ((mem_insertionSort _).1 (mem_of_mem_take he))
  · exact Dict.mem_keys.2 ⟨now, hkey⟩

/-! ## Hops -/

section Hops

variable {N : Type} (net : Network N)

/-- `v` is `h` hops away from `o`. -/
inductive Hops : ℕ → N → N → Prop
  | zero (v : N) : Hops 0 v v
  | succ {h : ℕ} {o u v : N} : Hops h o u → net.hears u v = true → Hops (h + 1) o v

/-- With what TTL a node announces a message that `o` has sent with the TTL `t`. -/
def Sends (o : N) (t : ℤ) (v : N) (ttl : ℤ) : Prop :=
  (v = o ∧ ttl = t) ∨ ∃ h, Hops net h o v ∧ ttl = t - h ∧ 1 ≤ ttl

/-- With what TTL a node receives it. -/
def Receives (o : N) (t : ℤ) (v : N) (ttl : ℤ) : Prop :=
  ∃ h : ℕ, Hops net (h + 1) o v ∧ ttl = t - h ∧ (h = 0 ∨ 1 ≤ ttl)

variable {net} {o u v : N} {t ttl : ℤ}

theorem Sends.receives (h : Sends net o t u ttl) (huv : net.hears u v = true) :
    Receives net o t v ttl := by
  rcases h with ⟨rfl, rfl⟩ | ⟨n, hn, httl, hpos⟩
  · exact ⟨0, .succ (.zero u) huv, by simp, .inl rfl⟩
  · exact ⟨n, .succ hn huv, httl, .inr hpos⟩

theorem Receives.sends (h : Receives net o t v ttl) (hpos : 1 < ttl) :
    Sends net o t v (ttl - 1) := by
  obtain ⟨n, hn, rfl, -⟩ := h
  exact .inr ⟨n + 1, hn, by push_cast; omega, by omega⟩

theorem Receives.within (h : Receives net o t v ttl) :
    ∃ n : ℕ, Hops net n o v ∧ (n : ℤ) ≤ max t 1 := by
  obtain ⟨n, hn, httl, hfirst⟩ := h
  exact ⟨n + 1, hn, by push_cast; omega⟩

end Hops

/-! ## Counting -/

/-- The call has yet to store its message. -/
def Task.isStoring : Task → Bool
  | .storing _ => true
  | _ => false

namespace Node

/-- The cache has the entries that are within their lifetime. -/
structure Sound (node : Node) : Prop where
  cached : ∀ id τ, node.seenAt id = some τ → node.clock - node.config.seenTtl ≤ τ →
    node.seenIds.get? id = some τ
  times : ∀ e ∈ node.seenIds.entries, e.2 ≤ node.clock

variable {node : Node} {task : Task} {now : ℤ}

theorem Sound.later (h : node.Sound) (hclock : node.clock ≤ now) :
    ({ node with clock := now } : Node).Sound where
  cached id τ hτ hle := h.cached id τ hτ (by dsimp only at hle; omega)
  times e he := Int.le_trans (h.times e he) hclock

theorem seenAt_markSeen (id id' : String) :
    (node.markSeen id now).seenAt id' = if id' = id then some now else node.seenAt id' :=
  Function.update_apply _ _ _ _

theorem get?_markSeen (id id' : String) : (node.markSeen id now).seenIds.get? id' =
    if id' = id then some now else node.seenIds.get? id' := Dict.get?_set

theorem Sound.markSeen (h : node.Sound) (hclock : node.clock ≤ now) (id : String) :
    (node.markSeen id now).Sound where
  cached id' τ hτ hle := by
    rw [seenAt_markSeen] at hτ
    rw [get?_markSeen]
    split_ifs at hτ ⊢
    · exact hτ
    · exact (h.later hclock).cached id' τ hτ hle
  times e he := by
    obtain ⟨k, v⟩ := e
    rcases Dict.mem_set_entries.1 he with ⟨-, he⟩ | ⟨-, he⟩
    · exact Int.le_of_eq he
    · exact (h.later hclock).times (k, v) he

theorem Sound.prune (h : node.Sound) (hclock : node.clock ≤ now)
    (hlive : (node.seenIds.entries.filter fun e => now - node.config.seenTtl ≤ e.2).length ≤
      maxSeen) : (node.prune now).Sound where
  cached id τ hτ hle := by
    have hcached : node.seenIds.get? id = some τ := (h.later hclock).cached id τ hτ hle
    refine (get?_pruneSeenIds hlive id).trans ?_
    rw [hcached]
    exact Option.filter_eq_some_iff.2 ⟨rfl, decide_eq_true hle⟩
  times e he := by
    have hkey : (node.prune now).seenIds.get? e.1 = some e.2 := Dict.get?_eq_some_iff.2 he
    have hkey := (get?_pruneSeenIds hlive e.1).symm.trans hkey
    exact (h.later hclock).times e (Dict.get?_eq_some_iff.1 (Option.eq_some_of_filter_eq_some hkey))

theorem countP_replaceTask (h : task ∈ node.tasks) (rest : Option Task) (p : Task → Bool) :
    (node.replaceTask task rest).tasks.countP p + (if p task then 1 else 0) =
      node.tasks.countP p + rest.toList.countP p := by
  rw [replaceTask, countP_append, (perm_cons_erase h).countP_eq, countP_cons]
  omega

theorem mem_replaceTask {rest : Option Task} {t : Task}
    (ht : t ∈ (node.replaceTask task rest).tasks) : t ∈ rest ∨ t ∈ node.tasks := by
  rcases mem_append.1 ht with ht | ht
  · exact .inl (Option.mem_toList.1 ht)
  · exact .inr (mem_of_mem_erase ht)

end Node

namespace System

variable {N : Type} [DecidableEq N] {net : Network N} (s : System N)

/-- The announces of a message by a node, those in progress included. -/
def load (v : N) (id : String) : ℕ :=
  (s.nodes v).tasks.countP (·.id = id) + s.sent.countP fun e => e.node = v ∧ e.msg.id = id

/-- The times a node stores a message, those in progress included. -/
def kept (v : N) (id : String) : ℕ :=
  (s.nodes v).tasks.countP (fun task => task.isStoring ∧ task.id = id) +
    s.stored.countP fun p => p.1 = v ∧ p.2.id = id

/-- The entries of a node's cache that are within their lifetime. -/
def live (v : N) (now : ℤ) : ℕ :=
  ((s.nodes v).seenIds.entries.filter fun e => now - (s.nodes v).config.seenTtl ≤ e.2).length

/-- A node looks at its clock, which does not go back, and its cache has room. -/
def Timely (v : N) (now : ℤ) : Prop :=
  (s.nodes v).clock ≤ now ∧ s.live v now < maxSeen

variable (net)

/-- An orderly step: clocks do not go back, there are fewer identifiers than the cache has
    room for, each is of one message, and a message is received within the lifetime of its
    entry, if it has been seen before. -/
def Orderly (s : System N) : Event N → Prop
  | .send v body ttl now => s.Timely v now ∧
    (s.message net v body ttl now).id ∉ s.injected.map (·.2.id)
  | .receive _ v msg now => s.Timely v now ∧
    ∀ τ ∈ (s.nodes v).seenAt msg.id, now - (s.nodes v).config.seenTtl ≤ τ
  | .prune v now => s.Timely v now
  | _ => True

instance (s : System N) : DecidablePred (Orderly net s)
  | .send _ _ _ _ => inferInstanceAs (Decidable ((_ ∧ _ < _) ∧ _ ∉ _))
  | .receive _ v msg now => inferInstanceAs (Decidable ((_ ∧ _ < _) ∧
      ∀ τ ∈ (s.nodes v).seenAt msg.id, now - (s.nodes v).config.seenTtl ≤ τ))
  | .prune _ _ => inferInstanceAs (Decidable (_ ∧ _ < _))
  | .store _ _ | .announce _ _ _ | .stop _ => inferInstanceAs (Decidable True)

/-- The flood is bounded. -/
structure Bounded : Prop where
  storedOnce : ∀ v id, (s.stored.countP fun p => p.1 = v ∧ p.2.id = id) ≤ 1
  sentOnce : ∀ v id, (s.sent.countP fun e => e.node = v ∧ e.msg.id = id) ≤ 1
  smaller : ∀ e ∈ s.sent, ∀ ttl ∈ e.received, e.msg.ttl < ttl
  /-- A message with the TTL `t` is stored at most `t` hops away, or one hop. -/
  near : ∀ p ∈ s.injected, ∀ q ∈ s.stored, q.2.id = p.2.id →
    ∃ h : ℕ, Hops net h p.1 q.1 ∧ (h : ℤ) ≤ max p.2.ttl 1
  /-- Nor can it be received further away. -/
  heard : ∀ p ∈ s.injected, ∀ e ∈ s.sent, e.msg.id = p.2.id → ∀ v, net.hears e.node v = true →
    ∃ h : ℕ, Hops net h p.1 v ∧ (h : ℤ) ≤ max p.2.ttl 1
  /-- An entry that has just been inserted, if it is not expired at once, is not evicted. -/
  newest : ∀ v id now, (s.nodes v).clock ≤ now → id ∉ (s.nodes v).seenIds.keys → ∀ cutoff,
    cutoff ≤ now → id ∈ (pruneSeenIds cutoff ((s.nodes v).seenIds.set id now)).keys

/-- Where the message of a call in progress comes from. -/
def Traced (o : N) (t : ℤ) (v : N) : Task → Prop
  | .announcing msg | .relaying msg _ => Sends net o t v msg.ttl
  | .storing msg => Receives net o t v msg.ttl

/-- The invariant. -/
structure Sound (net : Network N) : Prop where
  nodes : ∀ v, (s.nodes v).Sound
  once : ∀ v id, s.load v id ≤ 1 ∧ s.kept v id ≤ 1
  unseen : ∀ v id, (s.nodes v).seenAt id = none → s.load v id = 0 ∧ s.kept v id = 0
  known : ∀ v id, (s.nodes v).seenAt id ≠ none → id ∈ s.injected.map (·.2.id)
  unique : (s.injected.map (·.2.id)).Nodup
  smaller : ∀ e ∈ s.sent, ∀ ttl ∈ e.received, e.msg.ttl < ttl
  relaying : ∀ v msg ttl, .relaying msg ttl ∈ (s.nodes v).tasks → msg.ttl < ttl
  tasks : ∀ p ∈ s.injected, ∀ v, ∀ task ∈ (s.nodes v).tasks, task.id = p.2.id →
    Traced net p.1 p.2.ttl v task
  sent : ∀ p ∈ s.injected, ∀ e ∈ s.sent, e.msg.id = p.2.id →
    Sends net p.1 p.2.ttl e.node e.msg.ttl
  stored : ∀ p ∈ s.injected, ∀ q ∈ s.stored, q.2.id = p.2.id →
    ∃ h : ℕ, Hops net h p.1 q.1 ∧ (h : ℤ) ≤ max p.2.ttl 1

variable {s} {s' : System N} {v : N}

theorem nodes_setNode (node : Node) (w : N) :
    (s.setNode v node).nodes w = if w = v then node else s.nodes w := Function.update_apply _ _ _ _

variable {node : Node}

variable {net}

/-- A node looks at its clock, and entries that have expired may go. -/
theorem Sound.look (h : s.Sound net) (htasks : node.tasks = (s.nodes v).tasks)
    (hseenAt : node.seenAt = (s.nodes v).seenAt) (hnode : node.Sound) :
    (s.setNode v node).Sound net := by
  have hload : ∀ w id, (s.setNode v node).load w id = s.load w id := fun w id => by
    rw [load, load, nodes_setNode]
    by_cases hw : w = v
    · rw [if_pos hw, htasks, hw]
      rfl
    · rw [if_neg hw]
      rfl
  have hkept : ∀ w id, (s.setNode v node).kept w id = s.kept w id := fun w id => by
    rw [kept, kept, nodes_setNode]
    by_cases hw : w = v
    · rw [if_pos hw, htasks, hw]
      rfl
    · rw [if_neg hw]
      rfl
  have hseen : ∀ w, ((s.setNode v node).nodes w).seenAt = (s.nodes w).seenAt := fun w => by
    rw [nodes_setNode]
    split
    · next hw => rw [hseenAt, hw]
    · rfl
  have htask : ∀ w, ((s.setNode v node).nodes w).tasks = (s.nodes w).tasks := fun w => by
    rw [nodes_setNode]
    split
    · next hw => rw [htasks, hw]
    · rfl
  refine { h with
    nodes := fun w => ?_, once := fun w id => ?_, unseen := fun w id hnone => ?_, known := fun w id hne => ?_, relaying := fun w => ?_,
    tasks := fun p hp w => ?_ }
  · rw [nodes_setNode]
    split
    · exact hnode
    · exact h.nodes w
  · rw [hload, hkept]
    exact h.once w id
  · rw [hload, hkept]
    exact h.unseen w id (by rwa [hseen] at hnone)
  · exact h.known w id (by rwa [hseen] at hne)
  · rw [htask]
    exact h.relaying w
  · rw [htask]
    exact h.tasks p hp w

/-! ### Counts -/

omit [DecidableEq N] in
theorem countP_task_cons (task : Task) (l : List Task) (id : String) :
    (task :: l).countP (·.id = id) = l.countP (·.id = id) + if id = task.id then 1 else 0 := by
  rw [countP_cons]
  exact congrArg _ (if_congr (by rw [decide_eq_true_iff]; exact eq_comm) rfl rfl)

omit [DecidableEq N] in
theorem countP_storing_cons (msg : Msg) (l : List Task) (id : String) :
    (.storing msg :: l).countP (fun task => task.isStoring ∧ task.id = id) =
      l.countP (fun task => task.isStoring ∧ task.id = id) + if id = msg.id then 1 else 0 := by
  rw [countP_cons]
  refine congrArg _ (if_congr ?_ rfl rfl)
  rw [decide_eq_true_iff]
  exact ⟨fun h => h.2.symm, fun h => ⟨rfl, h.symm⟩⟩

theorem countP_stored_cons (w : N) (msg : Msg) (l : List (N × Msg)) (v : N) (id : String) :
    ((w, msg) :: l).countP (fun p => p.1 = v ∧ p.2.id = id) =
      l.countP (fun p => p.1 = v ∧ p.2.id = id) + if v = w ∧ id = msg.id then 1 else 0 := by
  rw [countP_cons]
  exact congrArg _ (if_congr (by rw [decide_eq_true_iff]; exact and_congr eq_comm eq_comm) rfl rfl)

theorem countP_sent_cons (e : Sent N) (l : List (Sent N)) (v : N) (id : String) :
    (e :: l).countP (fun e => e.node = v ∧ e.msg.id = id) =
      l.countP (fun e => e.node = v ∧ e.msg.id = id) + if v = e.node ∧ id = e.msg.id then 1 else 0 := by
  rw [countP_cons]
  exact congrArg _ (if_congr (by rw [decide_eq_true_iff]; exact and_congr eq_comm eq_comm) rfl rfl)

/-- A message that is new to a node is counted once. -/
theorem Sound.count_new (h : s.Sound net) {id : String} {now : ℤ}
    (hnone : (s.nodes v).seenAt id = none)
    (hseen : ∀ w i, (s'.nodes w).seenAt i =
      if w = v ∧ i = id then some now else (s.nodes w).seenAt i)
    (hload : ∀ w i, s'.load w i = s.load w i + if w = v ∧ i = id then 1 else 0)
    (hkept : ∀ w i, s'.kept w i = s.kept w i + if w = v ∧ i = id then 1 else 0) :
    (∀ w i, s'.load w i ≤ 1 ∧ s'.kept w i ≤ 1) ∧
      ∀ w i, (s'.nodes w).seenAt i = none → s'.load w i = 0 ∧ s'.kept w i = 0 := by
  refine ⟨fun w i => ?_, fun w i hi => ?_⟩
  · rw [hload, hkept]
    split_ifs with hwi
    · obtain ⟨rfl, rfl⟩ := hwi
      have := h.unseen w i hnone
      omega
    · exact h.once w i
  · rw [hseen] at hi
    rw [hload, hkept]
    split_ifs at hi ⊢
    exact h.unseen w i hi

theorem Sound.count_le (h : s.Sound net) (hseen : ∀ w, (s'.nodes w).seenAt = (s.nodes w).seenAt)
    (hload : ∀ w i, s'.load w i ≤ s.load w i) (hkept : ∀ w i, s'.kept w i ≤ s.kept w i) :
    (∀ w i, s'.load w i ≤ 1 ∧ s'.kept w i ≤ 1) ∧
      ∀ w i, (s'.nodes w).seenAt i = none → s'.load w i = 0 ∧ s'.kept w i = 0 := by
  refine ⟨fun w i => ?_, fun w i hi => ?_⟩
  · have := h.once w i
    have := hload w i
    have := hkept w i
    omega
  · rw [hseen] at hi
    have := h.unseen w i hi
    have := hload w i
    have := hkept w i
    omega

/-- A message that is in progress or has been announced has been sent by `send_emergency`. -/
theorem Sound.known_of_load (h : s.Sound net) {w : N} {id : String} (hpos : 0 < s.load w id) :
    id ∈ s.injected.map (·.2.id) := by
  refine h.known w id fun hnone => ?_
  have := (h.unseen w id hnone).1
  omega

variable {task : Task}

theorem Sound.known_of_task (h : s.Sound net) {w : N}
    (htask : task ∈ (s.nodes w).tasks) : task.id ∈ s.injected.map (·.2.id) := by
  refine h.known_of_load (w := w) (Nat.lt_of_lt_of_le ?_ (Nat.le_add_right _ _))
  exact countP_pos_iff.2 ⟨task, htask, by simp⟩

theorem Sound.known_of_sent (h : s.Sound net) {e : Sent N} (he : e ∈ s.sent) :
    e.msg.id ∈ s.injected.map (·.2.id) := by
  refine h.known_of_load (w := e.node) (Nat.lt_of_lt_of_le ?_ (Nat.le_add_left _ _))
  exact countP_pos_iff.2 ⟨e, he, by simp⟩

theorem Sound.known_of_stored (h : s.Sound net) {q : N × Msg} (hq : q ∈ s.stored) :
    q.2.id ∈ s.injected.map (·.2.id) := by
  refine h.known q.1 _ fun hnone => ?_
  have hpos : 0 < s.kept q.1 q.2.id := Nat.lt_of_lt_of_le
    (countP_pos_iff.2 ⟨q, hq, by simp⟩) (Nat.le_add_left _ _)
  have := (h.unseen q.1 _ hnone).2
  omega

/-- What a call that a node begins adds to the counts. -/
theorem load_begin (hnodes : s'.nodes = Function.update s.nodes v node)
    (htasks : node.tasks = task :: (s.nodes v).tasks) (hsent : s'.sent = s.sent) (w : N)
    (i : String) : s'.load w i = s.load w i + if w = v ∧ i = task.id then 1 else 0 := by
  rw [load, load, hnodes, hsent, Function.update_apply]
  by_cases hw : w = v
  · simp only [hw, if_true, true_and]
    rw [htasks, countP_task_cons, Nat.add_right_comm]
  · simp only [hw, if_false, false_and, Nat.add_zero]

theorem seenAt_begin {id : String} {now : ℤ} (hnodes : s'.nodes = Function.update s.nodes v node)
    (hseen : node.seenAt = Function.update (s.nodes v).seenAt id (some now)) (w : N) (i : String) :
    (s'.nodes w).seenAt i = if w = v ∧ i = id then some now else (s.nodes w).seenAt i := by
  rw [hnodes, Function.update_apply]
  by_cases hw : w = v
  · simp only [hw, if_true, true_and]
    rw [hseen, Function.update_apply]
  · simp only [hw, if_false, false_and]

/-! ### The steps -/

theorem mem_nodes_update (hnodes : s'.nodes = Function.update s.nodes v node)
    {w : N} (htask : task ∈ (s'.nodes w).tasks) :
    w = v ∧ task ∈ node.tasks ∨ task ∈ (s.nodes w).tasks := by
  rw [hnodes, Function.update_apply] at htask
  split_ifs at htask with hw
  · exact .inl ⟨hw, htask⟩
  · exact .inr htask

theorem sound_nodes_update (h : s.Sound net)
    (hnodes : s'.nodes = Function.update s.nodes v node) (hnode : node.Sound) (w : N) :
    (s'.nodes w).Sound := by
  rw [hnodes, Function.update_apply]
  split_ifs
  · exact hnode
  · exact h.nodes w

theorem Sound.send (h : s.Sound net) {msg : Msg} {now : ℤ} (htime : (s.nodes v).clock ≤ now)
    (hnew : msg.id ∉ s.injected.map (·.2.id)) :
    ({ s.setNode v { ((s.nodes v).storeMessage msg).markSeen msg.id now with
        tasks := .announcing msg :: (s.nodes v).tasks } with
      stored := (v, msg) :: s.stored, injected := (v, msg) :: s.injected } : System N).Sound net := by
  have hnone : (s.nodes v).seenAt msg.id = none := by
    by_contra hne
    exact hnew (h.known v _ hne)
  let node : Node := { ((s.nodes v).storeMessage msg).markSeen msg.id now with
    tasks := .announcing msg :: (s.nodes v).tasks }
  let s' : System N := { s.setNode v node with
    stored := (v, msg) :: s.stored, injected := (v, msg) :: s.injected }
  have hnodes : s'.nodes = Function.update s.nodes v node := rfl
  have hnode : node.Sound := by
    have hmark := (h.nodes v).markSeen htime msg.id
    exact ⟨hmark.cached, hmark.times⟩
  have hseen := seenAt_begin (s := s) hnodes rfl
  have hkept : ∀ w i, s'.kept w i = s.kept w i + if w = v ∧ i = msg.id then 1 else 0 := by
    intro w i
    have hstored := countP_stored_cons v msg s.stored w i
    have htask : (s'.nodes w).tasks.countP (fun task => task.isStoring ∧ task.id = i) =
        (s.nodes w).tasks.countP fun task => task.isStoring ∧ task.id = i := by
      rw [hnodes, Function.update_apply]
      split
      · next hw => rw [hw, countP_cons_of_neg (by simp [Task.isStoring])]
      · rfl
    rw [kept, kept, hstored, htask, Nat.add_assoc]
  obtain ⟨honce, hunseen⟩ := h.count_new hnone hseen (load_begin hnodes rfl rfl) hkept
  refine ⟨sound_nodes_update h hnodes hnode, honce, hunseen, fun w i hi => ?_,
    nodup_cons.2 ⟨hnew, h.unique⟩, h.smaller, fun w m ttl hm => ?_, fun p hp w task htask hid => ?_,
    fun p hp e he hid => ?_, fun p hp q hq hid => ?_⟩
  · rw [hseen] at hi
    split_ifs at hi with hwi
    · exact mem_cons.2 (.inl hwi.2)
    · exact mem_cons_of_mem _ (h.known w i hi)
  · rcases mem_nodes_update hnodes hm with ⟨-, hm⟩ | hm
    · rcases mem_cons.1 hm with hm | hm
      · cases hm
      · exact h.relaying v m ttl hm
    · exact h.relaying w m ttl hm
  · have hold : task ∈ (s.nodes w).tasks → Traced net p.1 p.2.ttl w task := fun htask => by
      rcases mem_cons.1 hp with rfl | hp
      · exact absurd (hid ▸ h.known_of_task htask) hnew
      · exact h.tasks p hp w task htask hid
    rcases mem_nodes_update hnodes htask with ⟨rfl, htask⟩ | htask
    · rcases mem_cons.1 htask with rfl | htask
      · rcases mem_cons.1 hp with rfl | hp
        · exact .inl ⟨rfl, rfl⟩
        · exact absurd (List.mem_map.2 ⟨p, hp, hid.symm⟩) hnew
      · exact hold htask
    · exact hold htask
  · rcases mem_cons.1 hp with rfl | hp
    · exact absurd (hid ▸ h.known_of_sent he) hnew
    · exact h.sent p hp e he hid
  · rcases mem_cons.1 hq with rfl | hq
    · rcases mem_cons.1 hp with rfl | hp
      · exact ⟨0, .zero v, by simp⟩
      · exact absurd (List.mem_map.2 ⟨p, hp, hid.symm⟩) hnew
    · rcases mem_cons.1 hp with rfl | hp
      · exact absurd (hid ▸ h.known_of_stored hq) hnew
      · exact h.stored p hp q hq hid

theorem Sound.receive (h : s.Sound net) {u : N} {msg : Msg} {now : ℤ} (htime : s.Timely v now)
    (huv : net.hears u v = true) {e : Sent N} (he : e ∈ s.sent) (hu : e.node = u)
    (hmsg : e.msg = msg) (hnone : (s.nodes v).seenAt msg.id = none)
    (hkey : msg.id ∉ (s.nodes v).seenIds.keys) :
    (s.setNode v { ((s.nodes v).markSeen msg.id now).prune now with
      tasks := .storing msg :: (s.nodes v).tasks }).Sound net := by
  let node : Node := { ((s.nodes v).markSeen msg.id now).prune now with
    tasks := .storing msg :: (s.nodes v).tasks }
  let s' : System N := s.setNode v node
  have hnodes : s'.nodes = Function.update s.nodes v node := rfl
  have hnode : node.Sound := by
    have hmark := (h.nodes v).markSeen htime.1 msg.id
    have hprune := hmark.prune (Int.le_refl _) (by
      have hentries : ((s.nodes v).markSeen msg.id now).seenIds.entries = _ :=
        Dict.entries_set_of_none (Dict.get?_eq_none_iff.2 fun τ hτ =>
          hkey (Dict.mem_keys.2 ⟨τ, Dict.get?_eq_some_iff.2 hτ⟩))
      have hlive := htime.2
      rw [live] at hlive
      rw [hentries, filter_append, length_append]
      exact Nat.le_trans (Nat.add_le_add_left (length_filter_le _ _) _) hlive)
    exact ⟨hprune.cached, hprune.times⟩
  have hseen := seenAt_begin (s := s) hnodes rfl
  have hkept : ∀ w i, s'.kept w i = s.kept w i + if w = v ∧ i = msg.id then 1 else 0 := by
    intro w i
    rw [kept, kept, hnodes, Function.update_apply]
    by_cases hw : w = v
    · simp only [hw, if_true, true_and]
      rw [countP_storing_cons, Nat.add_right_comm]
      rfl
    · simp only [hw, if_false, false_and, Nat.add_zero]
      rfl
  obtain ⟨honce, hunseen⟩ := h.count_new hnone hseen (load_begin hnodes rfl rfl) hkept
  refine { h with
    nodes := sound_nodes_update h hnodes hnode, once := honce, unseen := hunseen
    known := fun w i hi => ?_, relaying := fun w m ttl hm => ?_
    tasks := fun p hp w task htask hid => ?_ }
  · rw [hseen] at hi
    split_ifs at hi with hwi
    · rw [hwi.2, ← hmsg]
      exact h.known_of_sent he
    · exact h.known w i hi
  · rcases mem_nodes_update hnodes hm with ⟨-, hm⟩ | hm
    · rcases mem_cons.1 hm with hm | hm
      · cases hm
      · exact h.relaying v m ttl hm
    · exact h.relaying w m ttl hm
  · rcases mem_nodes_update hnodes htask with ⟨rfl, htask⟩ | htask
    · rcases mem_cons.1 htask with rfl | htask
      · have hsent := h.sent p hp e he (hmsg ▸ hid)
        rw [hu, hmsg] at hsent
        exact hsent.receives huv
      · exact h.tasks p hp w task htask hid
    · exact h.tasks p hp w task htask hid

/-- The stored message may be rebroadcast. -/
theorem relay_some {config : Config} {msg : Msg} (h : task ∈ relay config msg) :
    1 < msg.ttl ∧ task = .relaying { msg with ttl := msg.ttl - 1 } msg.ttl := by
  rw [relay] at h
  split_ifs at h with hif
  · cases h
    exact ⟨hif.1, rfl⟩
  · cases h

theorem countP_relay_id (config : Config) (msg : Msg) (i : String) :
    (relay config msg).toList.countP (·.id = i) ≤ if i = msg.id then 1 else 0 := by
  rcases hrelay : relay config msg with _ | task
  · exact Nat.zero_le _
  · obtain ⟨-, rfl⟩ := relay_some hrelay
    exact Nat.le_of_eq (countP_task_cons _ [] i |>.trans (Nat.zero_add _))

theorem countP_relay_storing (config : Config) (msg : Msg) (i : String) :
    (relay config msg).toList.countP (fun task => task.isStoring ∧ task.id = i) = 0 := by
  rcases hrelay : relay config msg with _ | task
  · rfl
  · obtain ⟨-, rfl⟩ := relay_some hrelay
    exact countP_cons_of_neg (by simp [Task.isStoring])

theorem Sound.store (h : s.Sound net) {msg : Msg} (htask : .storing msg ∈ (s.nodes v).tasks) :
    ({ s.setNode v (((s.nodes v).storeMessage msg).replaceTask (.storing msg)
      (relay (s.nodes v).config msg)) with stored := (v, msg) :: s.stored } : System N).Sound net := by
  let node : Node := ((s.nodes v).storeMessage msg).replaceTask (.storing msg)
    (relay (s.nodes v).config msg)
  let s' : System N := { s.setNode v node with stored := (v, msg) :: s.stored }
  have hnodes : s'.nodes = Function.update s.nodes v node := rfl
  have hnode : node.Sound := ⟨(h.nodes v).cached, (h.nodes v).times⟩
  have hseen : ∀ w, (s'.nodes w).seenAt = (s.nodes w).seenAt := fun w => by
    rw [hnodes, Function.update_apply]
    split_ifs with hw
    · rw [hw]
      rfl
    · rfl
  -- the call may go on to relay the message, and counts as before
  have hcount : ∀ p : Task → Bool, (s'.nodes v).tasks.countP p + (if p (.storing msg) then 1 else 0) =
      (s.nodes v).tasks.countP p + (relay (s.nodes v).config msg).toList.countP p := fun p => by
    rw [hnodes, Function.update_self]
    have htask' : Task.storing msg ∈ ((s.nodes v).storeMessage msg).tasks := htask
    exact Node.countP_replaceTask htask' _ p
  have hother : ∀ w, w ≠ v → s'.nodes w = s.nodes w := fun w hw => by
    rw [hnodes, Function.update_of_ne hw]
  have hload : ∀ w i, s'.load w i ≤ s.load w i := fun w i => by
    refine Nat.add_le_add_right ?_ _
    by_cases hw : w = v
    · rw [hw]
      have hnow := hcount (·.id = i)
      have hrelay := countP_relay_id (s.nodes v).config msg i
      have hid : (if decide ((Task.storing msg).id = i) then 1 else 0) =
          if i = msg.id then 1 else 0 :=
        if_congr (by rw [decide_eq_true_iff]; exact eq_comm) rfl rfl
      omega
    · rw [hother w hw]
  have hkept : ∀ w i, s'.kept w i ≤ s.kept w i := fun w i => by
    have hstored := countP_stored_cons v msg s.stored w i
    rw [kept, kept, hstored]
    by_cases hw : w = v
    · have hnow := hcount fun task => task.isStoring ∧ task.id = i
      have hid : (if decide ((Task.storing msg).isStoring = true ∧ (Task.storing msg).id = i)
          then 1 else 0) = if i = msg.id then 1 else 0 :=
        if_congr (by
          rw [decide_eq_true_iff]
          exact ⟨fun h => h.2.symm, fun h => ⟨rfl, h.symm⟩⟩) rfl rfl
      rw [countP_relay_storing, hid] at hnow
      simp only [hw, true_and]
      omega
    · rw [hother w hw]
      simp only [hw, false_and, if_false, Nat.add_zero]
      exact Nat.le_refl _
  obtain ⟨honce, hunseen⟩ := h.count_le hseen hload hkept
  have hrelay : ∀ {w task}, task ∈ (s'.nodes w).tasks →
      (w = v ∧ task ∈ relay (s.nodes v).config msg) ∨ task ∈ (s.nodes w).tasks := by
    intro w task ht
    rcases mem_nodes_update hnodes ht with ⟨rfl, ht⟩ | ht
    · exact (Node.mem_replaceTask ht).imp_left fun h => ⟨rfl, h⟩
    · exact .inr ht
  refine { h with
    nodes := sound_nodes_update h hnodes hnode, once := honce, unseen := hunseen
    known := fun w i hi => h.known w i (by rwa [hseen] at hi), relaying := fun w m ttl hm => ?_
    tasks := fun p hp w task ht hid => ?_, stored := fun p hp q hq hid => ?_ }
  · rcases hrelay hm with ⟨-, hm⟩ | hm
    · cases (relay_some hm).2
      exact Int.sub_one_lt_of_le (Int.le_refl _)
    · exact h.relaying w m ttl hm
  · rcases hrelay ht with ⟨rfl, ht⟩ | ht
    · obtain ⟨hpos, rfl⟩ := relay_some ht
      have hreceives : Receives net p.1 p.2.ttl w msg.ttl := h.tasks p hp w _ htask hid
      exact hreceives.sends hpos
    · exact h.tasks p hp w task ht hid
  · rcases mem_cons.1 hq with rfl | hq
    · have hreceives : Receives net p.1 p.2.ttl v msg.ttl := h.tasks p hp v _ htask hid
      exact hreceives.within
    · exact h.stored p hp q hq hid

/-- A call announces its message, or fails to, and ends. -/
theorem Sound.announce (h : s.Sound net) (htask : task ∈ (s.nodes v).tasks)
    (sent : Option (Sent N)) (hsent : ∀ e ∈ sent, e.node = v ∧ e.msg.id = task.id ∧
      (∀ ttl ∈ e.received, e.msg.ttl < ttl) ∧
      ∀ p ∈ s.injected, e.msg.id = p.2.id → Sends net p.1 p.2.ttl v e.msg.ttl) :
    ({ s.setNode v ((s.nodes v).replaceTask task none) with
      sent := sent.toList ++ s.sent } : System N).Sound net := by
  let node : Node := (s.nodes v).replaceTask task none
  let s' : System N := { s.setNode v node with sent := sent.toList ++ s.sent }
  have hnodes : s'.nodes = Function.update s.nodes v node := rfl
  have hnode : node.Sound := ⟨(h.nodes v).cached, (h.nodes v).times⟩
  have hseen : ∀ w, (s'.nodes w).seenAt = (s.nodes w).seenAt := fun w => by
    rw [hnodes, Function.update_apply]
    split_ifs with hw
    · rw [hw]
      rfl
    · rfl
  have hcount : ∀ p : Task → Bool, (s'.nodes v).tasks.countP p + (if p task then 1 else 0) =
      (s.nodes v).tasks.countP p := fun p => by
    rw [hnodes, Function.update_self]
    exact Node.countP_replaceTask htask none p
  have hother : ∀ w, w ≠ v → s'.nodes w = s.nodes w := fun w hw => by
    rw [hnodes, Function.update_of_ne hw]
  have hlog : ∀ w i, s'.sent.countP (fun e => e.node = w ∧ e.msg.id = i) ≤
      s.sent.countP (fun e => e.node = w ∧ e.msg.id = i) + if w = v ∧ i = task.id then 1 else 0 := by
    intro w i
    rcases hs : sent with _ | e
    · simp only [s', hs]
      exact Nat.le_add_right _ _
    · obtain ⟨hv, hid, -⟩ := hsent e hs
      simp only [s', hs]
      rw [← hv, ← hid]
      exact Nat.le_of_eq (countP_sent_cons e s.sent w i)
  have hload : ∀ w i, s'.load w i ≤ s.load w i := fun w i => by
    have hlog := hlog w i
    rw [load, load]
    by_cases hw : w = v
    · have hnow := hcount (·.id = i)
      have hid : (if decide (task.id = i) then 1 else 0) = if i = task.id then 1 else 0 :=
        if_congr (by rw [decide_eq_true_iff]; exact eq_comm) rfl rfl
      simp only [hw, true_and] at hlog ⊢
      omega
    · simp only [hw, false_and, if_false, Nat.add_zero] at hlog
      rw [hother w hw]
      exact Nat.add_le_add_left hlog _
  have hkept : ∀ w i, s'.kept w i ≤ s.kept w i := fun w i => by
    refine Nat.add_le_add_right ?_ _
    by_cases hw : w = v
    · rw [hw]
      exact Nat.le_of_add_right_le (Nat.le_of_eq (hcount _))
    · rw [hother w hw]
  obtain ⟨honce, hunseen⟩ := h.count_le hseen hload hkept
  have hold : ∀ {w t}, t ∈ (s'.nodes w).tasks → t ∈ (s.nodes w).tasks := fun ht => by
    rcases mem_nodes_update hnodes ht with ⟨rfl, ht⟩ | ht
    · exact (Node.mem_replaceTask ht).resolve_left nofun
    · exact ht
  refine { h with
    nodes := sound_nodes_update h hnodes hnode, once := honce, unseen := hunseen
    known := fun w i hi => h.known w i (by rwa [hseen] at hi)
    smaller := fun e he => ?_, relaying := fun w m ttl hm => h.relaying w m ttl (hold hm)
    tasks := fun p hp w t ht hid => h.tasks p hp w t (hold ht) hid
    sent := fun p hp e he hid => ?_ }
  · rcases mem_append.1 he with he | he
    · exact (hsent e (Option.mem_toList.1 he)).2.2.1
    · exact h.smaller e he
  · rcases mem_append.1 he with he | he
    · obtain ⟨hv, -, -, htrace⟩ := hsent e (Option.mem_toList.1 he)
      rw [hv]
      exact htrace p hp hid
    · exact h.sent p hp e he hid

theorem sound_step {e : Event N} (h : s.Sound net) (ho : Orderly net s e)
    (hstep : next net s e = some s') : s'.Sound net := by
  cases e with
  | send v body ttl now =>
    rw [next] at hstep
    dsimp only at hstep
    split_ifs at hstep
    cases hstep
    exact h.send ho.1.1 ho.2
  | receive u v msg now =>
    obtain ⟨htime, hlife⟩ := ho
    rw [next] at hstep
    dsimp only at hstep
    split_ifs at hstep with hheard hdrop
    · cases hstep
      exact h.look rfl rfl ((h.nodes v).later htime.1)
    · cases hstep
      obtain ⟨huv, e, he, hu, hmsg⟩ := hheard
      simp only [not_or] at hdrop
      -- what has been seen within its lifetime would be in the cache
      have hnone : (s.nodes v).seenAt msg.id = none := by
        rcases hseen : (s.nodes v).seenAt msg.id with _ | τ
        · rfl
        · have hle := hlife τ hseen
          have hclock := htime.1
          exact absurd (Dict.mem_keys.2 ⟨τ, (h.nodes v).cached _ τ hseen (by omega)⟩) hdrop.2.2
      exact h.receive htime huv he hu hmsg hnone hdrop.2.2
  | store v msg =>
    rw [next] at hstep
    dsimp only at hstep
    split_ifs at hstep with htask
    cases hstep
    exact h.store htask
  | announce v task ok =>
    rw [next.eq_def] at hstep
    dsimp only at hstep
    by_cases htask : task ∈ (s.nodes v).tasks
    swap
    · rw [if_neg htask] at hstep
      cases hstep
    rw [if_pos htask] at hstep
    cases task with
    | storing msg => cases hstep
    | announcing msg =>
      cases hstep
      cases ok with
      | false => exact h.announce htask none nofun
      | true =>
        refine h.announce htask (some ⟨v, msg, none⟩) ?_
        rintro e ⟨⟩
        exact ⟨rfl, rfl, nofun, fun p hp hid => h.tasks p hp v _ htask hid⟩
    | relaying msg received =>
      cases hstep
      split_ifs with hok
      · refine h.announce htask (some ⟨v, msg, some received⟩) ?_
        rintro e ⟨⟩
        refine ⟨rfl, rfl, ?_, fun p hp hid => h.tasks p hp v _ htask hid⟩
        rintro ttl ⟨⟩
        exact h.relaying v msg received htask
      · exact h.announce htask none nofun
  | prune v now =>
    cases hstep
    exact h.look rfl rfl ((h.nodes v).prune ho.1 (Nat.le_of_lt ho.2))
  | stop v =>
    cases hstep
    exact h.look rfl rfl ⟨(h.nodes v).cached, (h.nodes v).times⟩

end System

/-- In the runs whose steps are orderly, the flood is bounded. -/
theorem flood_bounded {N : Type} [DecidableEq N] {net : Network N} {s : System N}
    (h : (system net).Reach (System.Orderly net) s) : s.Bounded net := by
  have hsound : s.Sound net := by
    refine Transition.Reach.induction (I := fun s : System N => s.Sound net) (fun s hs => ?_)
      (fun s e s' hs ho hstep => System.sound_step hs ho hstep) h
    cases hs
    exact {
      nodes := fun _ => ⟨nofun, nofun⟩
      once := fun _ _ => ⟨Nat.zero_le _, Nat.zero_le _⟩
      unseen := fun _ _ _ => ⟨rfl, rfl⟩
      known := fun _ _ hne => absurd rfl hne
      unique := nodup_nil
      smaller := nofun
      relaying := nofun
      tasks := nofun
      sent := nofun
      stored := nofun }
  refine ⟨fun v id => ?_, fun v id => ?_, hsound.smaller, hsound.stored,
    fun p hp e he hid v hv => ((hsound.sent p hp e he hid).receives hv).within, fun v id now hclock hkey cutoff hcutoff => ?_⟩
  · exact Nat.le_trans (Nat.le_add_left _ _) (hsound.once v id).2
  · exact Nat.le_trans (Nat.le_add_left _ _) (hsound.once v id).1
  · have hentries := Dict.entries_set_of_none (v := now) (Dict.get?_eq_none_iff.2 fun τ hτ =>
      hkey (Dict.mem_keys.2 ⟨τ, Dict.get?_eq_some_iff.2 hτ⟩))
    have hlast : (((s.nodes v).seenIds.set id now).entries.filter fun e => cutoff ≤ e.2) =
        ((s.nodes v).seenIds.entries.filter fun e => cutoff ≤ e.2) ++ [(id, now)] := by
      rw [hentries, filter_append]
      simp [hcutoff]
    refine mem_evictOldest hlast fun e he => ?_
    · exact Int.le_trans ((hsound.nodes v).times e (mem_of_mem_filter he)) hclock

/-- Two nodes; the second hears the first. -/
def pair : Network Bool where
  hears u v := !u && v
  config _ := {}
  generateId body _ _ := body

def runPair (l : List (Event Bool)) : Option (System Bool) :=
  l.foldlM (fun s e => if System.Orderly pair s e then s.next pair e else none)
    { nodes := fun _ => { config := {} } }

theorem flood_bounded_pair : ∃ s ∈ runPair [.send false "help" none 100,
      .announce false (.announcing ⟨"help", 5, "help"⟩) true,
      .receive false true ⟨"help", 5, "help"⟩ 101, .store true ⟨"help", 5, "help"⟩,
      .announce true (.relaying ⟨"help", 4, "help"⟩ 5) true,
      .receive false true ⟨"help", 5, "help"⟩ 102],
    s.stored.length = 2 ∧ s.sent.length = 2 ∧ s.Bounded pair :=
  ⟨_, rfl, rfl, rfl, flood_bounded (.foldlM (.init rfl)
    (l := [.send false "help" none 100, .announce false (.announcing ⟨"help", 5, "help"⟩) true,
      .receive false true ⟨"help", 5, "help"⟩ 101, .store true ⟨"help", 5, "help"⟩,
      .announce true (.relaying ⟨"help", 4, "help"⟩ 5) true,
      .receive false true ⟨"help", 5, "help"⟩ 102]) rfl)⟩

/-- A message that is sent with the TTL 0 is stored one hop away. -/
theorem flood_reaches_neighbour : ∃ s, (system pair).Reach (System.Orderly pair) s ∧
    ∃ p ∈ s.injected, ∃ q ∈ s.stored, q.2.id = p.2.id ∧
      ¬ ∃ h : ℕ, Hops pair h p.1 q.1 ∧ (h : ℤ) ≤ p.2.ttl := by
  have hrun : runPair [.send false "help" (some 0) 100,
      .announce false (.announcing ⟨"help", 0, "help"⟩) true,
      .receive false true ⟨"help", 0, "help"⟩ 101, .store true ⟨"help", 0, "help"⟩] = some _ := rfl
  refine ⟨_, .foldlM (.init rfl) hrun,
    (false, ⟨"help", 0, "help"⟩), List.mem_singleton.2 rfl, (true, ⟨"help", 0, "help"⟩),
    mem_cons_self, rfl, ?_⟩
  rintro ⟨h, hops, hle⟩
  have hle : (h : ℤ) ≤ 0 := hle
  obtain rfl : h = 0 := by omega
  cases hops

end ReticulumPi.Emergency
