import ReticulumPi.Transport.HubPool

/-!
# The pool of hubs stays within its rules

If the ports of the configuration are written as the numbers they are, no peer sends
a Boolean for a port, and the sweeps forget only hubs whose cooldown has ended, then
every step is within the rules: the keys of the pool stand for the hosts and ports,
and what has been put into cooldown is known as such until the cooldown ends.

* `merge_spec`: what an exchange adds;
* `Sound`: the invariant;
* `pool_within_rules`: the result.
-/

namespace ReticulumPi.Transport.HubPool

variable {settings : Settings} {s s' : State} {key : String} {now : ℚ} {pool : List Hub}

/-! ## Keys -/

/-- The port is written as the number it is. -/
def Hub.IsPlain (h : Hub) : Prop := ∀ n ∈ h.number, h.port = toString n

theorem Hub.IsPlain.address_eq {h : Hub} (hplain : h.IsPlain) {a : String} (ha : a ∈ h.address) :
    a = h.key := by
  obtain ⟨n, hn, rfl⟩ := Option.map_eq_some_iff.1 ha
  rw [Hub.key, hplain n hn]

theorem Hub.IsPlain.key_eq {h h' : Hub} (hplain : h.IsPlain) (hplain' : h'.IsPlain)
    {x : String × ℤ} (hx : h.place = some x) (hx' : h'.place = some x) : h.key = h'.key := by
  obtain ⟨n, hn, rfl⟩ := Option.map_eq_some_iff.1 hx
  obtain ⟨n', hn', heq⟩ := Option.map_eq_some_iff.1 hx'
  obtain ⟨hhost, rfl⟩ := Prod.mk.inj heq
  rw [Hub.key, Hub.key, hplain _ hn, hplain' _ hn', hhost]

/-! ## Exchanges -/

theorem validated_plain {h p : Option PyValue} {host port : String} {n : ℤ}
    (hplain : (Item.hub h p).IsPlain) (hvalid : validated h p = some (host, port, n)) :
    port = toString n := by
  rw [validated] at hvalid
  split at hvalid
  next host' port' n' hhost hport =>
    obtain ⟨⟨-, hne, -⟩, heq⟩ := Option.ite_none_right_eq_some.1 hvalid
    cases heq
    rw [asPort.eq_def] at hport
    split at hport
    next => cases hport; rfl
    next hp =>
      -- Only an item with the Boolean has it as its port.
      rcases p with _ | p
      · cases hp
      · rw [Option.getD_some] at hp
        rw [hp] at hplain
        exact hplain.elim
    next => cases hport; exact absurd rfl hne
    next => cases hport
  next => cases hvalid

/-- A hub that an exchange adds. -/
structure Hub.IsAdded (h : Hub) (existingKeys pinned : List String) : Prop where
  plain : h.IsPlain
  isExchanged : h.isExchanged = true
  configured : h.configured = false
  isSome : h.number.isSome
  fresh : h.key ∉ existingKeys
  free : h.key ∉ pinned

theorem merge_spec (pinned : List String) (now : ℚ) (pool : List Hub) (existingKeys : List String)
    {received : List Item} (hplain : ∀ item ∈ received, item.IsPlain) :
    ∃ added, merge pinned now pool existingKeys received = pool ++ added ∧
      (pool ++ added).length ≤ max pool.length maxHubPoolSize ∧
      (added.map Hub.key).Nodup ∧ ∀ h ∈ added, h.IsAdded existingKeys pinned := by
  have hnone : ∃ added, pool = pool ++ added ∧
      (pool ++ added).length ≤ max pool.length maxHubPoolSize ∧
      (added.map Hub.key).Nodup ∧ ∀ h ∈ added, h.IsAdded existingKeys pinned :=
    ⟨[], (List.append_nil _).symm, by rw [List.append_nil]; exact le_max_left _ _,
      List.nodup_nil, fun h hh => by cases hh⟩
  induction received generalizing pool existingKeys with
  | nil =>
    rw [merge]
    exact hnone
  | cons item received ih =>
    have hrest : ∀ item ∈ received, item.IsPlain := fun item hitem =>
      hplain item (List.mem_cons_of_mem _ hitem)
    rcases item with ⟨h, p⟩ | _
    · rw [merge]
      split
      next => exact ih pool existingKeys hrest hnone
      next host port n hvalid =>
        dsimp only
        split_ifs with hknown hfull
        · exact ih pool existingKeys hrest hnone
        · exact hnone
        · -- The hub is added, and the rest of the list after it.
          have hport : port = toString n := validated_plain (hplain _ List.mem_cons_self) hvalid
          set hub : Hub :=
            { host, port := toString n, number := some n, isExchanged := true, lastSeen := now,
              configured := false } with hhub
          have hkey : hub.key = keyOf host port := by rw [hport, hhub, Hub.key]
          have hlength : (pool ++ [hub]).length ≤ maxHubPoolSize := by
            rw [List.length_append, List.length_singleton]
            omega
          obtain ⟨added, hmerge, hbound, hnodup, hadded⟩ := ih (pool ++ [hub])
            (keyOf host port :: existingKeys) hrest
            ⟨[], (List.append_nil _).symm, by rw [List.append_nil]; exact le_max_left _ _,
              List.nodup_nil, fun h hh => by cases hh⟩
          refine ⟨hub :: added, ?_, ?_, ?_, ?_⟩
          · rw [hmerge, List.append_assoc, List.singleton_append]
          · rw [List.append_assoc, List.singleton_append, max_eq_right hlength] at hbound
            exact hbound.trans (le_max_right _ _)
          · refine List.nodup_cons.2 ⟨fun hmem => ?_, hnodup⟩
            obtain ⟨h', hh', heq⟩ := List.mem_map.1 hmem
            exact (hadded h' hh').fresh (by rw [heq, hkey]; exact List.mem_cons_self)
          · intro h' hh'
            rcases List.mem_cons.1 hh' with rfl | hh'
            · rw [not_or] at hknown
              refine ⟨fun m hm => ?_, rfl, rfl, rfl, hkey ▸ hknown.1, hkey ▸ hknown.2⟩
              cases hm
              rfl
            · have hnew := hadded h' hh'
              exact ⟨hnew.plain, hnew.isExchanged, hnew.configured, hnew.isSome,
                fun hmem => hnew.fresh (List.mem_cons_of_mem _ hmem), hnew.free⟩
    · rw [merge]
      exact hnone

/-! ## The invariant -/

/-- What the manager is about to do concerns hubs of the pool. -/
def State.InHand (s : State) : Prop :=
  match s.manager with
  | .starting | .loading => s.interfaces = [] ∧ s.cooldowns = ∅ ∧ s.due = ∅
  | .idle => True
  | .cooling key => key ∈ s.pool.map Hub.key
  | .connecting _ _ candidates => ∀ h ∈ candidates, h.IsPlain ∧ h.key ∈ s.pool.map Hub.key

/-- The pool has the hubs that are connected or in cooldown, under the keys by which
    their connections go, and a cooldown that has not ended is recorded. -/
structure Sound (s : State) : Prop where
  plain : ∀ h ∈ s.pool, h.IsPlain
  tagged : ∀ h ∈ s.pool, h.configured = true → h.isExchanged = false
  interfaces : ∀ k ∈ s.interfaces, k ∈ s.pool.map Hub.key
  cooldowns : ∀ k ∈ s.cooldowns.keys, k ∈ s.pool.map Hub.key
  due : ∀ k u, s.due.get? k = some u → s.clock < u → ∃ cd ∈ s.cooldowns.get? k, cd.due = u
  inHand : s.InHand

/-- The manager is idle, or reads the clock. -/
theorem Sound.go (hs : Sound s) {manager : Manager} {clock : ℚ} (hclock : s.clock ≤ clock)
    (hinHand : ({ s with manager, clock } : State).InHand) : Sound { s with manager, clock } :=
  ⟨hs.plain, hs.tagged, hs.interfaces, hs.cooldowns,
    fun k u hu hlt => hs.due k u hu (hclock.trans_lt hlt), hinHand⟩

theorem Sound.updateCooldown (hs : Sound s) (hkey : key ∈ s.pool.map Hub.key)
    (hidle : s.manager = .idle) : Sound (s.updateCooldown settings key now) := by
  refine ⟨hs.plain, hs.tagged, hs.interfaces, fun k hk => ?_, fun k u hu hlt => ?_, ?_⟩
  · rcases Dict.mem_keys_set.1 hk with rfl | hk
    · exact hkey
    · exact hs.cooldowns k hk
  · rw [State.updateCooldown, Dict.get?_set] at hu ⊢
    split_ifs at hu with hkk
    · cases hu
      exact ⟨_, if_pos hkk, rfl⟩
    · rw [if_neg hkk]
      exact hs.due k u hu hlt
  · rw [State.InHand, State.updateCooldown, hidle]
    trivial

theorem map_key_seen : (State.seen key now pool).map Hub.key = pool.map Hub.key := by
  induction pool with
  | nil => rfl
  | cons h pool ih =>
    rw [State.seen]
    split_ifs
    · rfl
    · rw [List.map_cons, ih, List.map_cons]

theorem mem_seen {h : Hub} (hh : h ∈ State.seen key now pool) :
    ∃ h' ∈ pool, h = h' ∨ h = { h' with lastSeen := now } := by
  induction pool with
  | nil => cases hh
  | cons a pool ih =>
    rw [State.seen] at hh
    split_ifs at hh
    · rcases List.mem_cons.1 hh with rfl | hh
      · exact ⟨a, List.mem_cons_self, .inr rfl⟩
      · exact ⟨h, List.mem_cons_of_mem _ hh, .inl rfl⟩
    · rcases List.mem_cons.1 hh with rfl | hh
      · exact ⟨h, List.mem_cons_self, .inl rfl⟩
      · obtain ⟨h', hh', heq⟩ := ih hh
        exact ⟨h', List.mem_cons_of_mem _ hh', heq⟩

theorem Sound.connected (hs : Sound s) (hkey : key ∈ s.pool.map Hub.key)
    (hidle : s.manager = .idle) : Sound (s.connected key now) := by
  have hkeys : (s.connected key now).pool.map Hub.key = s.pool.map Hub.key := map_key_seen
  refine ⟨fun h hh => ?_, fun h hh => ?_, fun k hk => ?_, fun k hk => ?_, fun k u hu hlt => ?_, ?_⟩
  · obtain ⟨h', hh', rfl | rfl⟩ := mem_seen hh
    · exact hs.plain _ hh'
    · exact hs.plain h' hh'
  · obtain ⟨h', hh', rfl | rfl⟩ := mem_seen hh
    · exact hs.tagged _ hh'
    · exact hs.tagged h' hh'
  · rw [hkeys]
    change k ∈ (if key ∈ s.interfaces then s.interfaces else s.interfaces ++ [key]) at hk
    split_ifs at hk
    · exact hs.interfaces k hk
    · rcases List.mem_append.1 hk with hk | hk
      · exact hs.interfaces k hk
      · rwa [List.mem_singleton.1 hk]
  · rw [hkeys]
    exact hs.cooldowns k (Dict.mem_keys_erase.1 hk).2
  · rw [State.connected, Dict.get?_erase] at hu ⊢
    split_ifs at hu with hkk
    rw [if_neg hkk]
    exact hs.due k u hu hlt
  · rw [State.InHand, State.connected, hidle]
    trivial

/-- A sweep forgets hubs whose cooldown has ended. -/
theorem Sound.sweep (hs : Sound s) (hidle : s.manager = .idle) (hclock : s.clock ≤ now)
    (hended : ∀ h ∈ s.pool, s.IsStale settings now h →
      ∀ cd ∈ s.cooldowns.get? h.key, cd.due ≤ now) :
    Sound { s.sweepStaleHubs settings now with clock := now } := by
  have hsub : ∀ h ∈ (s.sweepStaleHubs settings now).pool, h ∈ s.pool := fun h hh =>
    (List.mem_filter.1 hh).1
  refine ⟨fun h hh => hs.plain h (hsub h hh), fun h hh => hs.tagged h (hsub h hh), ?_, ?_, ?_, ?_⟩
  · intro k hk
    obtain ⟨h, hh, rfl⟩ := List.mem_map.1 (hs.interfaces k hk)
    refine List.mem_map_of_mem (List.mem_filter.2 ⟨hh, decide_eq_true ?_⟩)
    exact not_not_intro (.inr (.inl hk))
  · intro k hk
    obtain ⟨cd, hcd⟩ := Dict.mem_keys.1 hk
    rw [State.sweepStaleHubs, Dict.get?_select, Option.filter_eq_some_iff] at hcd
    exact of_decide_eq_true hcd.2
  · intro k u hu hlt
    obtain ⟨cd, hcd, hdue⟩ := hs.due k u hu (hclock.trans_lt hlt)
    refine ⟨cd, ?_, hdue⟩
    rw [State.sweepStaleHubs, Dict.get?_select]
    refine Option.filter_eq_some_iff.2 ⟨hcd, decide_eq_true ?_⟩
    obtain ⟨h, hh, rfl⟩ := List.mem_map.1 (hs.cooldowns k (Dict.mem_keys.2 ⟨cd, hcd⟩))
    refine List.mem_map_of_mem (List.mem_filter.2 ⟨hh, decide_eq_true fun hstale => ?_⟩)
    exact absurd hlt (not_lt_of_ge (hdue ▸ hended h hh hstale cd hcd))
  · rw [State.InHand, State.sweepStaleHubs, hidle]
    trivial

/-- Hubs are added to the pool. -/
theorem Sound.append {added : List Hub} {pinned : List String} (hs : Sound s)
    (hadded : ∀ h ∈ added, h.IsAdded (s.pool.map Hub.key) pinned) :
    Sound { s with pool := s.pool ++ added } := by
  have hsub : ∀ k ∈ s.pool.map Hub.key, k ∈ (s.pool ++ added).map Hub.key := fun k hk => by
    rw [List.map_append]
    exact List.mem_append_left _ hk
  refine ⟨fun h hh => ?_, fun h hh hconfigured => ?_, fun k hk => hsub k (hs.interfaces k hk),
    fun k hk => hsub k (hs.cooldowns k hk), hs.due, ?_⟩
  · rcases List.mem_append.1 hh with hh | hh
    · exact hs.plain h hh
    · exact (hadded h hh).plain
  · rcases List.mem_append.1 hh with hh | hh
    · exact hs.tagged h hh hconfigured
    · rw [(hadded h hh).configured] at hconfigured
      cases hconfigured
  · have hinHand := hs.inHand
    rw [State.InHand] at hinHand ⊢
    dsimp only
    split at hinHand
    · exact hinHand
    · exact hinHand
    · trivial
    · exact hsub _ hinHand
    · exact fun h hh => ⟨(hinHand h hh).1, hsub _ (hinHand h hh).2⟩

/-- The manager goes on after a candidate. -/
theorem Sound.connect {needed connected : ℤ} {hub : Hub} {rest : List Hub} {ok : Bool}
    (hs : Sound s) (hmanager : s.manager = .connecting needed connected (hub :: rest))
    (hclock : s.clock ≤ now) :
    Sound { s.connectAutoHub settings hub ok now with
      clock := now
      manager := State.goOn needed connected hub ok rest } := by
  have hinHand := hs.inHand
  rw [State.InHand, hmanager] at hinHand
  have hidle : Sound { s with manager := .idle, clock := now } := hs.go hclock trivial
  have hkeys : ((s.connectAutoHub settings hub ok now).pool).map Hub.key = s.pool.map Hub.key := by
    rw [State.connectAutoHub]
    split
    · rfl
    · split_ifs
      · exact map_key_seen
      · rfl
  have hdone : Sound { s.connectAutoHub settings hub ok now with
      clock := now
      manager := .idle } := by
    rw [State.connectAutoHub]
    split
    · exact hidle
    next key hkey =>
      have hmem : key ∈ s.pool.map Hub.key := by
        have hhub := hinHand hub List.mem_cons_self
        rw [hhub.1.address_eq hkey]
        exact hhub.2
      split_ifs
      · exact hidle.connected hmem rfl
      · exact hidle.updateCooldown hmem rfl
  refine hdone.go le_rfl ?_
  rw [State.InHand]
  dsimp only
  rw [hkeys]
  generalize hgoOn : State.goOn needed connected hub ok rest = manager
  rw [State.goOn] at hgoOn
  split_ifs at hgoOn
  all_goals
    subst hgoOn
    first
      | trivial
      | exact fun h hh => hinHand h (List.mem_cons_of_mem _ hh)

theorem Sound.next {e : Event} (hs : Sound s) (hplain : Plain settings s e)
    (h : next settings s e = some s') : Sound s' := by
  rcases e with ⟨received, now⟩ | pinned | ⟨hubs, now⟩ | now | key | now | ⟨order, now⟩ |
    ⟨ok, now⟩ | _
  · cases h
    obtain ⟨added, hmerge, -, -, hadded⟩ := merge_spec s.pinned now s.pool
      (s.pool.map Hub.key) hplain
    rw [mergeExchangedHubs, hmerge]
    exact hs.append hadded
  · rw [HubPool.next] at h
    split at h
    next hmanager =>
      cases h
      have hinHand := hs.inHand
      rw [State.InHand, hmanager] at hinHand
      exact ⟨hs.plain, hs.tagged, hs.interfaces, hs.cooldowns, hs.due, hinHand⟩
    next => cases h
  · rw [HubPool.next] at h
    split at h
    next hmanager =>
      cases h
      have hinHand := hs.inHand
      rw [State.InHand, hmanager] at hinHand
      obtain ⟨hinterfaces, hcooldowns, hdue⟩ := hinHand
      refine ⟨fun h hh => ?_, fun h hh _ => ?_, fun k hk => ?_, fun k hk => ?_, hs.due, trivial⟩
      · obtain ⟨c, hc, rfl⟩ := List.mem_map.1 hh
        exact (hplain c hc).1
      · obtain ⟨c, hc, rfl⟩ := List.mem_map.1 hh
        exact (hplain c hc).2
      · change k ∈ s.interfaces at hk
        rw [hinterfaces] at hk
        cases hk
      · change k ∈ s.cooldowns.keys at hk
        rw [hcooldowns] at hk
        cases hk
    next => cases h
  · rw [HubPool.next] at h
    split at h
    next hmanager =>
      split_ifs at h with hclock
      cases h
      exact hs.sweep hmanager hclock hplain
    next => cases h
  · rw [HubPool.next] at h
    split at h
    next hmanager =>
      split_ifs at h with hkey
      cases h
      exact ⟨hs.plain, hs.tagged, fun k hk => hs.interfaces k (List.mem_of_mem_erase hk),
        hs.cooldowns, hs.due, hs.interfaces key hkey⟩
    next => cases h
  · rw [HubPool.next] at h
    split at h
    next key hmanager =>
      split_ifs at h with hclock
      cases h
      have hinHand := hs.inHand
      rw [State.InHand, hmanager] at hinHand
      have hidle : Sound { s with manager := .idle, clock := now } := hs.go hclock trivial
      exact hidle.updateCooldown hinHand rfl
    next => cases h
  · rw [HubPool.next] at h
    split at h
    next hmanager =>
      obtain ⟨⟨hclock, -, hperm, -⟩, heq⟩ := Option.ite_none_right_eq_some.1 h
      cases heq
      refine hs.go hclock fun h hh => ?_
      have hpool : h ∈ s.pool :=
        (List.mem_filter.1 (hperm.subset (List.mem_of_mem_take hh))).1
      exact ⟨hs.plain h hpool, List.mem_map_of_mem hpool⟩
    next => cases h
  · rw [HubPool.next] at h
    split at h
    next needed connected hub rest hmanager =>
      split_ifs at h with hclock
      cases h
      exact hs.connect hmanager hclock
    next => cases h
  · cases h
    refine ⟨hs.plain, hs.tagged, fun k hk => (by cases hk), hs.cooldowns, hs.due, ?_⟩
    have hinHand := hs.inHand
    rw [State.InHand] at hinHand ⊢
    dsimp only
    split at hinHand
    · exact ⟨rfl, hinHand.2⟩
    · exact ⟨rfl, hinHand.2⟩
    · trivial
    all_goals exact hinHand

/-! ## The rules -/

/-- Two hubs of one host and port have one key. -/
theorem nodup_place {added : List Hub} (hplain : ∀ h ∈ added, h.IsPlain)
    (hsome : ∀ h ∈ added, h.number.isSome) (hnodup : (added.map Hub.key).Nodup) :
    (added.map Hub.place).Nodup := by
  induction added with
  | nil => exact List.nodup_nil
  | cons h added ih =>
    rw [List.map_cons, List.nodup_cons] at hnodup ⊢
    refine ⟨fun hmem => hnodup.1 ?_, ih (fun h hh => hplain h (List.mem_cons_of_mem _ hh))
      (fun h hh => hsome h (List.mem_cons_of_mem _ hh)) hnodup.2⟩
    obtain ⟨h', hh', heq⟩ := List.mem_map.1 hmem
    obtain ⟨n, hn⟩ := Option.isSome_iff_exists.1 (hsome h List.mem_cons_self)
    have hplace : h.place = some (h.host, n) := by rw [Hub.place, hn, Option.map_some]
    rw [(hplain h List.mem_cons_self).key_eq (hplain h' (List.mem_cons_of_mem _ hh')) hplace
      (heq.trans hplace)]
    exact List.mem_map_of_mem hh'

theorem Sound.withinRules {e : Event} (hs : Sound s) (hplain : Plain settings s e)
    (h : HubPool.next settings s e = some s') : WithinRules s e s' := by
  rcases e with ⟨received, now⟩ | pinned | ⟨hubs, now⟩ | now | key | now | ⟨order, now⟩ |
    ⟨ok, now⟩ | _
  · cases h
    obtain ⟨added, hmerge, hbound, hnodup, hadded⟩ := merge_spec s.pinned now s.pool
      (s.pool.map Hub.key) hplain
    refine ⟨added, ?_, rfl, ?_, ?_, fun h hh => ⟨fun hmem => ?_, fun a ha => ?_⟩⟩
    · exact hmerge
    · dsimp only
      rw [mergeExchangedHubs, hmerge]
      exact hbound
    · exact nodup_place (fun h hh => (hadded h hh).plain) (fun h hh => (hadded h hh).isSome) hnodup
    · obtain ⟨h', hh', heq⟩ := List.mem_map.1 hmem
      obtain ⟨n, hn⟩ := Option.isSome_iff_exists.1 (hadded h hh).isSome
      have hplace : h.place = some (h.host, n) := by rw [Hub.place, hn, Option.map_some]
      refine (hadded h hh).fresh ?_
      rw [(hadded h hh).plain.key_eq (hs.plain h' hh') hplace (heq.trans hplace)]
      exact List.mem_map_of_mem hh'
    · rw [(hadded h hh).plain.address_eq ha]
      exact (hadded h hh).free
  · trivial
  · trivial
  · rw [HubPool.next] at h
    split at h
    next hmanager =>
      split_ifs at h with hclock
      cases h
      intro h hh hkept
      refine List.mem_filter.2 ⟨hh, decide_eq_true (not_not_intro ?_)⟩
      rcases hkept with hconfigured | ⟨a, ha, hconnected⟩
      · exact .inr (.inr (by rw [hs.tagged h hh hconfigured]; exact Bool.false_ne_true))
      · exact .inr (.inl ((hs.plain h hh).address_eq ha ▸ hconnected))
    next => cases h
  · trivial
  · trivial
  · rw [HubPool.next] at h
    split at h
    next hmanager =>
      obtain ⟨⟨hclock, -, hperm, -⟩, heq⟩ := Option.ite_none_right_eq_some.1 h
      cases heq
      intro h hh a ha u hu
      obtain ⟨hpool, havailable⟩ :=
        List.mem_filter.1 (hperm.subset (List.mem_of_mem_take hh))
      obtain rfl := (hs.plain h hpool).address_eq ha
      -- A cooldown that has not ended would be on record.
      by_contra hlt
      obtain ⟨cd, hcd, hdue⟩ := hs.due _ u hu (hclock.trans_lt (not_le.1 hlt))
      exact (of_decide_eq_true havailable).2.2 cd hcd (hdue.symm ▸ not_le.1 hlt)
    next => cases h
  · trivial
  · trivial

variable (settings) in
/-- In the runs in which every list of hubs is plain and no sweep forgets a hub in
    cooldown, every step is within the rules. -/
theorem pool_within_rules (s s' : State) (e : Event)
    (h : (monitor settings).Reach (Plain settings) s) (hplain : Plain settings s e)
    (hstep : HubPool.next settings s e = some s') : WithinRules s e s' := by
  have hs : Sound s := by
    refine h.induction ?_ fun s e s' hs hplain hstep => hs.next hplain hstep
    rintro s ⟨clock, rfl⟩
    exact ⟨fun h hh => (by cases hh), fun h hh => (by cases hh), fun k hk => (by cases hk),
      fun k hk => (by cases hk), fun k u hu => (by cases hu), ⟨rfl, rfl, rfl⟩⟩
  exact hs.withinRules hplain hstep

/-! ## What peers may send -/

/-- A configuration with one hub. -/
def oneHub : List ConfiguredHub :=
  [{ host := "hub.example", port := "4242", number := some 4242 }]

/-- The pool after it has been loaded. -/
def loaded : State :=
  { pool := oneHub.map (ConfiguredHub.hub 10), manager := .idle }

theorem reach_loaded : (monitor {}).Reach (Plain {}) loaded := by
  have hstart : (monitor {}).Reach (Plain {}) {} := .init ⟨0, rfl⟩
  have hbuilt : (monitor {}).Reach (Plain {}) { manager := .loading } :=
    hstart.step (a := .buildPinnedSet []) trivial rfl
  refine hbuilt.step (a := .loadHubPool oneHub 10) (fun h hh => ?_) rfl
  rw [oneHub, List.mem_singleton] at hh
  rw [hh]
  exact ⟨fun n hn => by cases hn; rfl, rfl⟩

/-- A peer knows the hub that is there, and another one. -/
def knownAndNew : List Item :=
  [.hub (some (.str "hub.example")) (some (.int 4242)),
    .hub (some (.str "other.example")) (some (.int 4242))]

theorem pool_within_rules_exchange : ∃ s', HubPool.next {} loaded (.exchange knownAndNew 20) =
    some s' ∧ s'.pool.length = 2 ∧ WithinRules loaded (.exchange knownAndNew 20) s' := by
  refine ⟨_, rfl, by decide +kernel, pool_within_rules {} loaded _ _ reach_loaded ?_ rfl⟩
  intro item hitem
  simp only [knownAndNew, List.mem_cons, List.not_mem_nil, or_false] at hitem
  rcases hitem with rfl | rfl
  · trivial
  · trivial

/-- A peer sends `True` for a port, and then the port `1`. -/
def booleanPort : List Item :=
  [.hub (some (.str "other.example")) (some (.bool true)),
    .hub (some (.str "other.example")) (some (.int 1))]

/-- The pool then has two entries for one host and port. -/
theorem pool_within_rules_fails : ∃ s s', (monitor {}).Reachable s ∧
    HubPool.next {} s (.exchange booleanPort 20) = some s' ∧
    (s'.pool.map Hub.place).count (some ("other.example", 1)) = 2 ∧
    ¬ WithinRules s (.exchange booleanPort 20) s' := by
  have hcount : ((mergeExchangedHubs [] 20 loaded.pool booleanPort).map Hub.place).count
      (some ("other.example", 1)) = 2 := by
    decide +kernel
  refine ⟨loaded, _, reach_loaded.mono fun _ _ _ => trivial, rfl, hcount, ?_⟩
  rintro ⟨added, hadded, -, -, hnodup, -⟩
  have hold : (loaded.pool.map Hub.place).count (some ("other.example", 1)) = 0 := by decide
  change mergeExchangedHubs [] 20 loaded.pool booleanPort = loaded.pool ++ added at hadded
  rw [hadded, List.map_append, List.count_append, hold, zero_add] at hcount
  have hone := List.nodup_iff_count_le_one.1 hnodup (some ("other.example", 1))
  omega

end ReticulumPi.Transport.HubPool
