import ReticulumPi.Events.Bus

/-!
# Registrations and handles

The listeners of an event are what its handles say (`Sound`), up to order, and the wrapper
of a callback is in the map as long as it is registered anywhere. This is kept by all
operations, except that `unsubscribe_all` looks for the wrapper of a callback
alone, if there is one: where a callback is registered in both forms, the plain
registrations stay behind, without handles. So it is kept in the runs in which
`unsubscribe_all` is not called for such a callback; and there `unsubscribe` removes a
registration unless, likewise, it looks for a wrapper that is registered for other
events only (`registrations_agree`).
-/

namespace ReticulumPi.Events

open List

variable {E C : Type} [DecidableEq E] [DecidableEq C]

/-- What the handles of an event have registered. -/
def registered (handles : Dict ℕ (Registration E C)) (event : E) : List (Listener C) :=
  (handles.values.filter fun r => r.event = event).map Registration.registered

namespace EventBus

variable (bus : EventBus E C) (c : C)

/-- The callback is registered to be run by a worker. -/
def Offloaded (event : E) : Prop := ∃ n, .wrapper c n ∈ bus.listeners event

/-- The callback is registered in both forms. -/
def InBothForms : Prop := (∃ e, .plain c ∈ bus.listeners e) ∧ ∃ e, bus.Offloaded c e

/-- The callback is registered for an event, but offloaded for others only. -/
def Elsewhere (event : E) : Prop :=
  .plain c ∈ bus.listeners event ∧ ¬ bus.Offloaded c event ∧ ∃ e, bus.Offloaded c e

/-- A publish runs the callbacks of the handles. -/
def Agrees : Prop := ∀ e, (bus.publish e).Perm
  ((bus.handles.values.filter fun r => r.event = e).map Registration.original)

/-- No registration is left. -/
def Forgets : Prop := ∀ e, c ∉ (bus.unsubscribeAll c).1.publish e

/-- One registration for the event is removed, if there is any. -/
def RemovesOne (event : E) : Prop :=
  ((bus.unsubscribe event c).1.publish event).Perm ((bus.publish event).erase c) ∧
    ∀ e ≠ event, (bus.unsubscribe event c).1.publish e = bus.publish e

/-- The handle's own registration is removed, if it is there, and nothing else. -/
def CancelsOwn (handle : ℕ) : Prop :=
  match bus.handles.get? handle with
  | none => bus.cancel handle = (bus, false)
  | some r => (bus.cancel handle).2 = true ∧
    (bus.cancel handle).1.handles = bus.handles.erase handle ∧
      r.registered ∈ bus.listeners r.event ∧ ∀ e, (bus.cancel handle).1.listeners e =
        if e = r.event then (bus.listeners e).erase r.registered else bus.listeners e

/-- The step leaves no registration without a handle behind. -/
def Orderly : Op E C → Prop
  | .unsubscribeAll callback => ¬ bus.InBothForms callback
  | _ => True

/-- The invariant. -/
structure Sound : Prop where
  agree : ∀ e, (bus.listeners e).Perm (registered bus.handles e)
  original : ∀ r ∈ bus.handles.values, r.registered.callback = r.original
  wrapper : ∀ e c n, .wrapper c n ∈ bus.listeners e →
    bus.offloadMap.get? c = some (.wrapper c n)
  offloadMap : ∀ c l, bus.offloadMap.get? c = some l →
    (∃ n, l = .wrapper c n) ∧ ∃ e, l ∈ bus.listeners e
  fresh : ∀ k ∈ bus.handles.keys, k < bus.handleCount
  shutdown : bus.isShutdown = true → bus.subscribers = ∅ ∧ bus.handles = ∅

variable {bus c}

/-! ## Listeners -/

theorem listeners_set {bus' : EventBus E C} {event : E} {ls : List (Listener C)}
    (h : bus'.subscribers = bus.subscribers.set event ls) (e : E) :
    bus'.listeners e = if e = event then ls else bus.listeners e := by
  rw [listeners, h, Dict.get?_set]
  split_ifs
  · rfl
  · rfl

theorem exists_mem_values_iff {l : Listener C} :
    (∃ ls ∈ bus.subscribers.values, l ∈ ls) ↔ ∃ e, l ∈ bus.listeners e := by
  constructor
  · rintro ⟨ls, hls, hl⟩
    obtain ⟨e, he⟩ := Dict.mem_values.1 hls
    refine ⟨e, ?_⟩
    rw [listeners, he]
    exact hl
  · rintro ⟨e, hl⟩
    rw [listeners] at hl
    rcases he : bus.subscribers.get? e with _ | ls
    · rw [he] at hl
      cases hl
    · rw [he] at hl
      exact ⟨ls, Dict.mem_values.2 ⟨e, he⟩, hl⟩

theorem Sound.publish_eq (h : bus.Sound) (e : E) :
    bus.publish e = (bus.listeners e).map Listener.callback := by
  rw [publish]
  split_ifs with hshut
  · rw [listeners, (h.shutdown hshut).1]
    rfl
  · rfl

theorem Sound.mem_publish_iff (h : bus.Sound) {e : E} :
    c ∈ bus.publish e ↔ .plain c ∈ bus.listeners e ∨ bus.Offloaded c e := by
  rw [h.publish_eq, List.mem_map]
  constructor
  · rintro ⟨l, hl, rfl⟩
    cases l with
    | plain c => exact .inl hl
    | wrapper c n => exact .inr ⟨n, hl⟩
  · rintro (hl | ⟨n, hl⟩)
    all_goals exact ⟨_, hl, rfl⟩

/-- What is looked for when a callback is unsubscribed. -/
theorem Sound.actual_eq (h : bus.Sound) (c : C) :
    (bus.actual c = .plain c ∧ ∀ e, ¬ bus.Offloaded c e) ∨
      ∃ n, bus.actual c = .wrapper c n ∧ (∃ e, bus.Offloaded c e) ∧
        ∀ e n', .wrapper c n' ∈ bus.listeners e → n' = n := by
  rw [actual]
  rcases hmap : bus.offloadMap.get? c with _ | l
  · refine .inl ⟨rfl, fun e ⟨n, hn⟩ => ?_⟩
    have := h.wrapper e c n hn
    rw [hmap] at this
    cases this
  · obtain ⟨⟨n, rfl⟩, e, he⟩ := h.offloadMap c l hmap
    refine .inr ⟨n, rfl, ⟨e, n, he⟩, fun e n' hn' => ?_⟩
    have := h.wrapper e c n' hn'
    rw [hmap] at this
    cases this
    rfl

/-! ## Handles -/

omit [DecidableEq C] in
theorem registered_set {handles : Dict ℕ (Registration E C)} {k : ℕ} (hk : k ∉ handles.keys)
    (r : Registration E C) (e : E) : registered (handles.set k r) e =
      registered handles e ++ if r.event = e then [r.registered] else [] := by
  have hnone : handles.get? k = none := by
    rcases h : handles.get? k with _ | r'
    · rfl
    · exact absurd (Dict.mem_keys.2 ⟨r', h⟩) hk
  rw [registered, registered, Dict.values, Dict.entries_set_of_none hnone, map_append,
    filter_append, map_append]
  by_cases hr : r.event = e <;> simp [Dict.values, hr]

variable {r : Registration E C}

omit [DecidableEq C] in
theorem registered_erase {handles : Dict ℕ (Registration E C)} {k : ℕ}
    (h : handles.get? k = some r) (e : E) : (registered handles e).Perm
      ((if r.event = e then [r.registered] else []) ++ registered (handles.erase k) e) := by
  obtain ⟨l, l', hl, herase⟩ := Dict.exists_entries_erase h
  rw [registered, registered, Dict.values, Dict.values, hl, herase]
  simp only [map_append, map_cons, filter_append]
  by_cases hr : r.event = e
  · rw [filter_cons_of_pos (by simpa using hr), if_pos hr, map_cons]
    exact perm_middle
  · rw [filter_cons_of_neg (by simpa using hr), if_neg hr]
    exact .refl _

theorem Sound.agrees (h : bus.Sound) : bus.Agrees := by
  intro e
  rw [h.publish_eq]
  refine ((h.agree e).map _).trans (.of_eq ?_)
  rw [registered, List.map_map]
  exact map_congr_left fun r hr => h.original r (mem_filter.1 hr).1

/-! ## Registering -/

/-- A listener is registered, a wrapper possibly a new one in the map. -/
theorem Sound.register (h : bus.Sound) (hshut : bus.isShutdown = false) {actual : Listener C}
    (e : E) (hcallback : actual.callback = c) {map : Dict C (Listener C)} {wrapperCount : ℕ}
    (hold : ∀ c' l, bus.offloadMap.get? c' = some l → map.get? c' = some l)
    (hnew : ∀ c' l, map.get? c' = some l → bus.offloadMap.get? c' = some l ∨
      l = actual ∧ ∃ n, l = .wrapper c' n)
    (hactual : ∀ c' n, actual = .wrapper c' n → map.get? c' = some actual) :
    ({ (bus.register e c actual).1 with offloadMap := map, wrapperCount } : EventBus E C).Sound := by
  have hlisteners : ∀ e', ({ (bus.register e c actual).1 with offloadMap := map, wrapperCount } :
      EventBus E C).listeners e' = if e' = e then bus.listeners e ++ [actual] else bus.listeners e' :=
    listeners_set rfl
  have hfresh : bus.handleCount ∉ bus.handles.keys := fun hk => Nat.lt_irrefl _ (h.fresh _ hk)
  refine ⟨fun e' => ?_, fun r hr => ?_, fun e' c' n hn => ?_, fun c' l hl => ?_, fun k hk => ?_,
    fun hs => ?_⟩
  · rw [hlisteners]
    refine .trans ?_ (.of_eq (registered_set hfresh ⟨e, c, actual⟩ e').symm)
    split_ifs with he he' he'
    · subst he
      exact (h.agree _).append_right _
    · exact absurd he.symm he'
    · exact absurd he'.symm he
    · rw [append_nil]
      exact h.agree e'
  · obtain ⟨k, hk⟩ := Dict.mem_values.1 hr
    rw [EventBus.register, Dict.get?_set] at hk
    split_ifs at hk
    · cases hk
      exact hcallback
    · exact h.original r (Dict.mem_values.2 ⟨k, hk⟩)
  · rw [hlisteners] at hn
    split_ifs at hn with he
    · rcases mem_append.1 hn with hn | hn
      · exact hold _ _ (h.wrapper e c' n hn)
      · rw [mem_singleton.1 hn]
        exact hactual c' n (mem_singleton.1 hn).symm
    · exact hold _ _ (h.wrapper e' c' n hn)
  · rcases hnew c' l hl with hl | ⟨rfl, hn⟩
    · obtain ⟨hn, e', hl⟩ := h.offloadMap c' l hl
      refine ⟨hn, e', ?_⟩
      rw [hlisteners]
      split_ifs with he
      · exact mem_append_left _ (he ▸ hl)
      · exact hl
    · refine ⟨hn, e, ?_⟩
      rw [hlisteners, if_pos rfl]
      exact mem_append_right _ (mem_singleton_self _)
  · rcases Dict.mem_keys_set.1 hk with rfl | hk
    · exact Nat.lt_succ_self _
    · exact Nat.lt_succ_of_lt (h.fresh k hk)
  · have hs : bus.isShutdown = true := hs
    rw [hshut] at hs
    cases hs

theorem Sound.subscribe (h : bus.Sound) (e : E) (c : C) :
    (bus.apply (.subscribe e c)).Sound := by
  rw [apply, EventBus.subscribe]
  split_ifs with hshut
  · exact h
  · exact h.register (Bool.eq_false_iff.2 hshut) e rfl (fun _ _ hl => hl) (fun _ _ hl => .inl hl)
      fun _ _ hl => by cases hl

theorem Sound.subscribeOffloaded (h : bus.Sound) (e : E) (c : C) :
    (bus.apply (.subscribeOffloaded e c)).Sound := by
  rw [apply, EventBus.subscribeOffloaded]
  split_ifs with hshut
  · exact h
  have hshut := Bool.eq_false_iff.2 hshut
  rw [offload]
  rcases hmap : bus.offloadMap.get? c with _ | l
  · refine h.register hshut e rfl (fun c' l hl => ?_) (fun c' l hl => ?_) fun c' n hn => ?_
    · rw [Dict.get?_set, if_neg, hl]
      rintro rfl
      rw [hmap] at hl
      cases hl
    · rw [Dict.get?_set] at hl
      split_ifs at hl with hc
      · cases hl
        exact .inr ⟨rfl, _, by rw [hc]⟩
      · exact .inl hl
    · cases hn
      exact Dict.get?_set_self
  · obtain ⟨⟨n, rfl⟩, -⟩ := h.offloadMap c l hmap
    refine h.register hshut e rfl (fun _ _ hl => hl) (fun _ _ hl => .inl hl) fun c' n' hn => ?_
    cases hn
    exact hmap

/-! ## Removing a registration -/

/-- The bus without a registration and its handle. -/
def drop (bus : EventBus E C) (k : ℕ) (r : Registration E C) : EventBus E C :=
  ({ bus with
      subscribers := bus.subscribers.set r.event ((bus.listeners r.event).erase r.registered)
      handles := bus.handles.erase k } : EventBus E C).removeWrapperIfUnused r.original r.registered

theorem removeWrapperIfUnused_fields (bus : EventBus E C) (c : C) (l : Listener C) :
    (bus.removeWrapperIfUnused c l).subscribers = bus.subscribers ∧
      (bus.removeWrapperIfUnused c l).handles = bus.handles ∧
        (bus.removeWrapperIfUnused c l).isShutdown = bus.isShutdown ∧
          (bus.removeWrapperIfUnused c l).handleCount = bus.handleCount := by
  rw [removeWrapperIfUnused]
  split_ifs
  all_goals exact ⟨rfl, rfl, rfl, rfl⟩

theorem listeners_drop (bus : EventBus E C) (k : ℕ) (r : Registration E C) (e : E) :
    (bus.drop k r).listeners e =
      if e = r.event then (bus.listeners r.event).erase r.registered else bus.listeners e :=
  listeners_set (removeWrapperIfUnused_fields _ _ _).1 e

theorem handles_drop (bus : EventBus E C) (k : ℕ) (r : Registration E C) :
    (bus.drop k r).handles = bus.handles.erase k :=
  (removeWrapperIfUnused_fields _ _ _).2.1

/-- The registration of a handle is there. -/
theorem Sound.registered_mem (h : bus.Sound) {k : ℕ}
    (hk : bus.handles.get? k = some r) : r.registered ∈ bus.listeners r.event := by
  refine (h.agree r.event).mem_iff.2 (List.mem_map.2 ⟨r, ?_, rfl⟩)
  exact mem_filter.2 ⟨Dict.mem_values.2 ⟨k, hk⟩, decide_eq_true rfl⟩

/-- The wrapper of a callback leaves the map when it is registered nowhere any more. -/
theorem offloadMap_drop (bus : EventBus E C) (k : ℕ) (r : Registration E C) :
    ((bus.drop k r).offloadMap = bus.offloadMap ∧
        (r.registered = .plain r.original ∨ ∃ e, r.registered ∈ (bus.drop k r).listeners e)) ∨
      ((bus.drop k r).offloadMap = bus.offloadMap.erase r.original ∧
        r.registered ≠ .plain r.original ∧ ∀ e, r.registered ∉ (bus.drop k r).listeners e) := by
  have hsub := (removeWrapperIfUnused_fields ({ bus with
    subscribers := bus.subscribers.set r.event ((bus.listeners r.event).erase r.registered)
    handles := bus.handles.erase k } : EventBus E C) r.original r.registered).1
  have hmem : ∀ e, (bus.drop k r).listeners e = ({ bus with
      subscribers := bus.subscribers.set r.event ((bus.listeners r.event).erase r.registered)
      handles := bus.handles.erase k } : EventBus E C).listeners e := by
    intro e
    rw [listeners, listeners]
    exact congrArg (fun d : Dict E (List (Listener C)) => (d.get? e).getD []) hsub
  simp only [hmem]
  rw [drop, removeWrapperIfUnused]
  by_cases hplain : r.registered = .plain r.original
  · rw [if_pos hplain]
    exact .inl ⟨rfl, .inl hplain⟩
  · rw [if_neg hplain]
    split_ifs with hused
    · exact .inl ⟨rfl, .inr (exists_mem_values_iff.1 hused)⟩
    · exact .inr ⟨rfl, hplain, fun e he => hused (exists_mem_values_iff.2 ⟨e, he⟩)⟩

theorem Sound.drop (h : bus.Sound) {k : ℕ}
    (hk : bus.handles.get? k = some r) : (bus.drop k r).Sound := by
  have hsub : ∀ {e l}, l ∈ (bus.drop k r).listeners e → l ∈ bus.listeners e := by
    intro e l hl
    rw [listeners_drop] at hl
    split_ifs at hl with he
    · rw [he]
      exact mem_of_mem_erase hl
    · exact hl
  have hne : ∀ {e l}, l ∈ bus.listeners e → l ≠ r.registered → l ∈ (bus.drop k r).listeners e := by
    intro e l hl hne
    rw [listeners_drop]
    split_ifs with he
    · rw [he] at hl
      exact (mem_erase_of_ne hne).2 hl
    · exact hl
  have horiginal := h.original r (Dict.mem_values.2 ⟨k, hk⟩)
  refine ⟨fun e => ?_, fun r' hr' => ?_, fun e c n hn => ?_, fun c l hl => ?_, fun j hj => ?_,
    fun hs => ?_⟩
  · rw [listeners_drop, handles_drop]
    have hperm := (h.agree e).trans (registered_erase hk e)
    split_ifs with he
    · rw [if_pos he.symm] at hperm
      have herase := hperm.erase r.registered
      rw [singleton_append, erase_cons_head] at herase
      exact he ▸ herase
    · rw [if_neg (Ne.symm he)] at hperm
      exact hperm
  · rw [handles_drop] at hr'
    obtain ⟨j, hj⟩ := Dict.mem_values.1 hr'
    rw [Dict.get?_erase] at hj
    split_ifs at hj
    exact h.original r' (Dict.mem_values.2 ⟨j, hj⟩)
  · have hget := h.wrapper e c n (hsub hn)
    rcases offloadMap_drop bus k r with ⟨hmap, -⟩ | ⟨hmap, hplain, hnone⟩
    · rw [hmap, hget]
    · rw [hmap, Dict.get?_erase, if_neg, hget]
      rintro rfl
      -- Its only wrapper is the one that is registered nowhere.
      rcases hreg : r.registered with c | ⟨c, n'⟩
      · rw [hreg] at horiginal hplain
        exact hplain (congrArg _ horiginal)
      · rw [hreg] at horiginal
        have hc : c = r.original := horiginal
        have hget' := h.wrapper r.event c n' (hreg ▸ h.registered_mem hk)
        rw [hc, hget] at hget'
        rw [hreg, hc, ← Option.some.inj hget'] at hnone
        exact hnone e hn
  · rcases offloadMap_drop bus k r with ⟨hmap, hused⟩ | ⟨hmap, hplain, hnone⟩
    · rw [hmap] at hl
      obtain ⟨⟨n, rfl⟩, e, he⟩ := h.offloadMap c l hl
      refine ⟨⟨n, rfl⟩, ?_⟩
      by_cases hr : .wrapper c n = r.registered
      · rcases hused with hplain | hused
        · rw [hplain] at hr
          cases hr
        · exact hr ▸ hused
      · exact ⟨e, hne he hr⟩
    · rw [hmap, Dict.get?_erase] at hl
      split_ifs at hl with hc
      obtain ⟨⟨n, rfl⟩, e, he⟩ := h.offloadMap c l hl
      refine ⟨⟨n, rfl⟩, e, hne he fun hr => hc ?_⟩
      rw [← horiginal, ← hr]
      rfl
  · rw [handles_drop] at hj
    have hfields := (removeWrapperIfUnused_fields ({ bus with
      subscribers := bus.subscribers.set r.event ((bus.listeners r.event).erase r.registered)
      handles := bus.handles.erase k } : EventBus E C) r.original r.registered).2.2.2
    rw [EventBus.drop, hfields]
    exact h.fresh j (Dict.mem_keys_erase.1 hj).2
  · have hfields := (removeWrapperIfUnused_fields ({ bus with
      subscribers := bus.subscribers.set r.event ((bus.listeners r.event).erase r.registered)
      handles := bus.handles.erase k } : EventBus E C) r.original r.registered).2.2.1
    rw [EventBus.drop, hfields] at hs
    have hempty := (h.shutdown hs).2
    rw [hempty] at hk
    cases hk

theorem Sound.cancel_eq (h : bus.Sound) {k : ℕ}
    (hk : bus.handles.get? k = some r) : bus.cancel k = (bus.drop k r, true) := by
  rw [EventBus.cancel, hk]
  exact if_pos (h.registered_mem hk)

theorem Sound.unsubscribe_eq (h : bus.Sound) {e : E} (hactual : bus.actual c ∈ bus.listeners e)
    (hcallback : (bus.actual c).callback = c) :
    ∃ k, bus.handles.get? k = some ⟨e, c, bus.actual c⟩ ∧
      bus.unsubscribe e c = (bus.drop k ⟨e, c, bus.actual c⟩, true) := by
  obtain ⟨r, hr, hreg⟩ := List.mem_map.1 ((h.agree e).mem_iff.1 hactual)
  obtain ⟨hr, he⟩ := mem_filter.1 hr
  have hr' : r = ⟨e, c, bus.actual c⟩ := by
    have horiginal := h.original r hr
    rw [hreg, hcallback] at horiginal
    obtain ⟨re, ro, rr⟩ := r
    cases of_decide_eq_true he
    cases horiginal
    exact congrArg (Registration.mk _ _) hreg
  obtain ⟨k, hk⟩ := Dict.mem_values.1 (hr' ▸ hr)
  rcases hfind : bus.handles.entries.find? (fun x => decide (x.2 = ⟨e, c, bus.actual c⟩)) with _ | x
  · exact absurd (Dict.get?_eq_some_iff.1 hk) fun hmem =>
      find?_eq_none.1 hfind _ hmem (decide_eq_true rfl)
  · have hx := of_decide_eq_true (find?_some (p := fun x : ℕ × Registration E C =>
      decide (x.2 = ⟨e, c, bus.actual c⟩)) hfind)
    refine ⟨x.1, Dict.get?_eq_some_iff.2 (hx ▸ mem_of_find?_eq_some hfind), ?_⟩
    rw [EventBus.unsubscribe]
    dsimp only
    rw [if_pos hactual, handleOf, hfind]
    rfl

/-! ## Removing all registrations -/

theorem listeners_unsubscribeAll (bus : EventBus E C) (c : C) (e : E) :
    (bus.unsubscribeAll c).1.listeners e = (bus.listeners e).filter (· ≠ bus.actual c) := by
  rw [unsubscribeAll, listeners, listeners]
  dsimp only
  rw [Dict.get?_map]
  rcases bus.subscribers.get? e with _ | ls
  · rfl
  · rfl

variable (h : bus.Sound)
include h

/-- Where a callback is registered in one form, all its registrations are what is
    looked for. -/
theorem Sound.ne_actual_iff (hforms : ¬ bus.InBothForms c) {e : E} {l : Listener C}
    (hl : l ∈ bus.listeners e) : l ≠ bus.actual c ↔ l.callback ≠ c := by
  rw [not_iff_not]
  rcases h.actual_eq c with ⟨hactual, hno⟩ | ⟨n, hactual, hoff, honly⟩
  · rw [hactual]
    refine ⟨fun heq => heq ▸ rfl, fun hc => ?_⟩
    subst hc
    cases l with
    | plain c => rfl
    | wrapper c n => exact absurd ⟨n, hl⟩ (hno e)
  · rw [hactual]
    refine ⟨fun heq => heq ▸ rfl, fun hc => ?_⟩
    subst hc
    cases l with
    | plain c => exact absurd ⟨⟨e, hl⟩, hoff⟩ hforms
    | wrapper c n' => rw [honly e n' hl]; rfl

theorem Sound.unsubscribeAll (hforms : ¬ bus.InBothForms c) : (bus.unsubscribeAll c).1.Sound := by
  have hlisteners : ∀ e, (bus.unsubscribeAll c).1.listeners e =
      (bus.listeners e).filter (·.callback ≠ c) := by
    intro e
    rw [listeners_unsubscribeAll]
    exact filter_congr fun l hl => decide_eq_decide.2 (h.ne_actual_iff hforms hl)
  have hmem : ∀ {e l}, l ∈ (bus.unsubscribeAll c).1.listeners e ↔
      l ∈ bus.listeners e ∧ l.callback ≠ c := by
    intro e l
    rw [hlisteners, mem_filter, decide_eq_true_eq]
  have hhandles : ∀ r ∈ bus.handles.values,
      (! (decide (r.original = c) || decide (r.registered = .plain c))) =
        decide (r.registered.callback ≠ c) := by
    intro r hr
    rw [← h.original r hr]
    rcases r.registered with c' | ⟨c', n⟩
    all_goals by_cases hc : c' = c <;> simp [Listener.callback, hc]
  refine ⟨fun e => ?_, fun r hr => ?_, fun e c' n hn => ?_, fun c' l hl => ?_, fun k hk => ?_,
    fun hs => ?_⟩
  · rw [hlisteners]
    refine ((h.agree e).filter _).trans (.of_eq ?_)
    rw [registered, registered, List.filter_map, List.filter_filter, EventBus.unsubscribeAll]
    have hvalues : ∀ p : Registration E C → Bool, (bus.handles.filter p).values =
        bus.handles.values.filter p := fun p => by
      rw [Dict.values, Dict.values, Dict.filter, List.filter_map]
      rfl
    dsimp only
    rw [hvalues, List.filter_filter]
    refine congrArg _ (filter_congr fun r hr => ?_)
    rw [hhandles r hr, Bool.and_comm]
    rfl
  · obtain ⟨k, hk⟩ := Dict.mem_values.1 hr
    rw [EventBus.unsubscribeAll, Dict.get?_filter, Option.filter_eq_some_iff] at hk
    exact h.original r (Dict.mem_values.2 ⟨k, hk.1⟩)
  · obtain ⟨hn, hc⟩ := hmem.1 hn
    rw [EventBus.unsubscribeAll, Dict.get?_erase, if_neg (show c' ≠ c from hc)]
    exact h.wrapper e c' n hn
  · rw [EventBus.unsubscribeAll, Dict.get?_erase] at hl
    split_ifs at hl with hc
    obtain ⟨⟨n, rfl⟩, e, he⟩ := h.offloadMap c' l hl
    exact ⟨⟨n, rfl⟩, e, hmem.2 ⟨he, hc⟩⟩
  · obtain ⟨r, hr⟩ := Dict.mem_keys.1 hk
    rw [EventBus.unsubscribeAll, Dict.get?_filter, Option.filter_eq_some_iff] at hr
    exact h.fresh k (Dict.mem_keys.2 ⟨r, hr.1⟩)
  · obtain ⟨hsub, hhand⟩ := h.shutdown hs
    rw [EventBus.unsubscribeAll, hsub, hhand]
    exact ⟨rfl, rfl⟩

/-! ## What the operations do -/

theorem Sound.not_shutdown {e : E} {l : Listener C} (hl : l ∈ bus.listeners e) :
    bus.isShutdown = false := by
  by_contra hs
  rw [listeners, (h.shutdown (by simpa using hs)).1] at hl
  cases hl

/-- A plain registration stays behind when the callback is offloaded as well. -/
theorem Sound.mem_publish_unsubscribeAll {e : E} (hplain : .plain c ∈ bus.listeners e)
    (hoff : ∃ e, bus.Offloaded c e) : c ∈ (bus.unsubscribeAll c).1.publish e := by
  obtain ⟨e', he'⟩ := hoff
  have hshut : (bus.unsubscribeAll c).1.isShutdown = false := h.not_shutdown hplain
  rw [publish, hshut, listeners_unsubscribeAll]
  refine List.mem_map.2 ⟨.plain c, mem_filter.2 ⟨hplain, decide_eq_true ?_⟩, rfl⟩
  rcases h.actual_eq c with ⟨-, hno⟩ | ⟨n, hactual, -⟩
  · exact absurd he' (hno e')
  · rw [hactual]
    intro heq
    cases heq

theorem Sound.forgets_iff (c : C) : bus.Forgets c ↔ ¬ bus.InBothForms c := by
  constructor
  · rintro hforgets ⟨⟨e, hplain⟩, hoff⟩
    exact hforgets e (h.mem_publish_unsubscribeAll hplain hoff)
  · intro hforms e hmem
    rw [(h.unsubscribeAll hforms).publish_eq, listeners_unsubscribeAll] at hmem
    obtain ⟨l, hl, hc⟩ := List.mem_map.1 hmem
    obtain ⟨hl, hne⟩ := mem_filter.1 hl
    exact (h.ne_actual_iff hforms hl).1 (of_decide_eq_true hne) hc

theorem Sound.callback_actual (c : C) : (bus.actual c).callback = c := by
  rcases h.actual_eq c with ⟨hc, -⟩ | ⟨n, hc, -⟩
  · rw [hc]
    rfl
  · rw [hc]
    rfl

/-- What is looked for is not there if and only if the callback is not registered for the
    event, or is offloaded for others only. -/
theorem Sound.elsewhere_iff (c : C) (e : E) :
    bus.Elsewhere c e ↔ bus.actual c ∉ bus.listeners e ∧ c ∈ bus.publish e := by
  rw [h.mem_publish_iff]
  rcases h.actual_eq c with ⟨hactual, hno⟩ | ⟨n, hactual, hoff, honly⟩
  · rw [hactual]
    refine ⟨fun ⟨_, _, e', he'⟩ => absurd he' (hno e'), fun ⟨hnot, hmem⟩ => ?_⟩
    exact absurd hmem (not_or.2 ⟨hnot, hno e⟩)
  · rw [hactual]
    constructor
    · rintro ⟨hplain, hnot, -⟩
      exact ⟨fun hmem => hnot ⟨n, hmem⟩, .inl hplain⟩
    · rintro ⟨hnot, hmem⟩
      have hoff' : ¬ bus.Offloaded c e := fun ⟨n', hn'⟩ => hnot (honly e n' hn' ▸ hn')
      exact ⟨hmem.resolve_right hoff', hoff', hoff⟩

theorem Sound.removesOne_iff (c : C) (e : E) : bus.RemovesOne c e ↔ ¬ bus.Elsewhere c e := by
  rw [h.elsewhere_iff, RemovesOne]
  by_cases hactual : bus.actual c ∈ bus.listeners e
  · obtain ⟨k, hk, heq⟩ := h.unsubscribe_eq hactual (h.callback_actual c)
    refine iff_of_true ?_ fun hand => hand.1 hactual
    rw [heq]
    refine ⟨?_, fun e' he' => ?_⟩
    · rw [(h.drop hk).publish_eq, h.publish_eq, listeners_drop, if_pos rfl]
      have hperm := ((perm_cons_erase hactual).map Listener.callback).erase c
      rw [map_cons, h.callback_actual, erase_cons_head] at hperm
      exact hperm.symm
    · rw [(h.drop hk).publish_eq, h.publish_eq, listeners_drop, if_neg he']
  · have heq : bus.unsubscribe e c = (bus, false) := by
      rw [EventBus.unsubscribe]
      exact if_neg hactual
    rw [heq]
    constructor
    · rintro ⟨hperm, -⟩ ⟨-, hmem⟩
      have hlength : (bus.publish e).length = _ := hperm.length_eq
      rw [length_erase_of_mem hmem] at hlength
      have := length_pos_of_mem hmem
      omega
    · intro hnot
      rw [erase_of_not_mem fun hmem => hnot ⟨hactual, hmem⟩]
      exact ⟨.refl _, fun _ _ => rfl⟩

theorem Sound.cancelsOwn (k : ℕ) : bus.CancelsOwn k := by
  rw [CancelsOwn]
  rcases hk : bus.handles.get? k with _ | r
  · rw [EventBus.cancel, hk]
  · rw [h.cancel_eq hk]
    refine ⟨rfl, handles_drop _ _ _, h.registered_mem hk, fun e => ?_⟩
    dsimp only
    rw [listeners_drop]
    split_ifs with he
    · rw [he]
    · rfl

omit h

/-! ## All operations -/

theorem sound_empty : ({} : EventBus E C).Sound where
  agree _ := .refl _
  original _ hr := by cases hr
  wrapper _ _ _ hn := by cases hn
  offloadMap _ _ hl := by cases hl
  fresh _ hk := by cases hk
  shutdown hs := by cases hs

theorem Sound.apply (h : bus.Sound) {op : Op E C} (ho : bus.Orderly op) : (bus.apply op).Sound := by
  cases op with
  | subscribe e c => exact h.subscribe e c
  | subscribeOffloaded e c => exact h.subscribeOffloaded e c
  | unsubscribe e c =>
    rw [EventBus.apply]
    by_cases hactual : bus.actual c ∈ bus.listeners e
    · obtain ⟨k, hk, heq⟩ := h.unsubscribe_eq hactual (h.callback_actual c)
      rw [heq]
      exact h.drop hk
    · rw [EventBus.unsubscribe]
      dsimp only
      rw [if_neg hactual]
      exact h
  | cancel k =>
    rw [EventBus.apply]
    rcases hk : bus.handles.get? k with _ | r
    · rw [EventBus.cancel, hk]
      exact h
    · rw [h.cancel_eq hk]
      exact h.drop hk
  | unsubscribeAll c => exact h.unsubscribeAll ho
  | shutdown =>
    exact ⟨fun _ => .refl _, fun _ hr => (by cases hr), fun _ _ _ hn => (by cases hn),
      fun _ _ hl => (by cases hl), fun _ hk => (by cases hk), fun _ => ⟨rfl, rfl⟩⟩

/-- An operation leaves registrations without handles behind if it is not orderly. -/
theorem Sound.agrees_apply_iff (h : bus.Sound) (op : Op E C) :
    (bus.apply op).Agrees ↔ bus.Orderly op := by
  refine ⟨fun hagrees => ?_, fun ho => (h.apply ho).agrees⟩
  cases op with
  | unsubscribeAll c =>
    rintro ⟨⟨e, hplain⟩, hoff⟩
    have hmem := (hagrees e).mem_iff.1 (h.mem_publish_unsubscribeAll hplain hoff)
    obtain ⟨r, hr, hc⟩ := List.mem_map.1 hmem
    obtain ⟨k, hk⟩ := Dict.mem_values.1 (mem_filter.1 hr).1
    rw [EventBus.apply, EventBus.unsubscribeAll, Dict.get?_filter, Option.filter_eq_some_iff] at hk
    rw [decide_eq_true hc] at hk
    cases hk.2
  | _ => trivial

end EventBus

variable {bus : EventBus E C}

/-- In the runs in which `unsubscribe_all` is not called for a callback that is registered in
    both forms, the registrations are what the handles say, and the operations do
    what they are named; the next operation keeps it so only if it is such a step, too. -/
theorem registrations_agree (h : (system E C).Reach (fun bus op => bus.Orderly op) bus) :
    bus.Agrees ∧ (∀ op, (bus.apply op).Agrees ↔ bus.Orderly op) ∧
      (∀ c, bus.Forgets c ↔ ¬ bus.InBothForms c) ∧
        (∀ c e, bus.RemovesOne c e ↔ ¬ bus.Elsewhere c e) ∧ ∀ k, bus.CancelsOwn k := by
  have hsound : bus.Sound := by
    refine h.induction (fun bus hbus => ?_) fun bus op bus' hs ho hstep => ?_
    · rw [hbus]
      exact EventBus.sound_empty
    · cases hstep
      exact hs.apply ho
  exact ⟨hsound.agrees, hsound.agrees_apply_iff, hsound.forgets_iff, hsound.removesOne_iff,
    hsound.cancelsOwn⟩

/-- A bus on which a callback is subscribed for one event, and offloaded for another. -/
def bothForms : EventBus String ℕ :=
  (({} : EventBus String ℕ).apply (.subscribe "a" 7)).apply (.subscribeOffloaded "b" 7)

theorem bothForms_reach : (system String ℕ).Reach (fun bus op => bus.Orderly op) bothForms :=
  ((Transition.Reach.init rfl).step (a := .subscribe "a" 7) trivial rfl).step
    (a := .subscribeOffloaded "b" 7) trivial rfl

theorem registrations_agree_bothForms :
    bothForms.Agrees ∧ (∀ op, (bothForms.apply op).Agrees ↔ bothForms.Orderly op) ∧
      (∀ c, bothForms.Forgets c ↔ ¬ bothForms.InBothForms c) ∧
        (∀ c e, bothForms.RemovesOne c e ↔ ¬ bothForms.Elsewhere c e) ∧
          ∀ k, bothForms.CancelsOwn k :=
  registrations_agree bothForms_reach

/-- `unsubscribe_all` leaves the plain registration, and `unsubscribe` finds none to
    remove. -/
theorem bothForms_left : (system String ℕ).Reachable bothForms ∧ ¬ bothForms.Forgets 7 ∧
    ¬ (bothForms.apply (.unsubscribeAll 7)).Agrees ∧ ¬ bothForms.RemovesOne 7 "a" := by
  refine ⟨bothForms_reach.mono fun _ _ _ => trivial, fun h => h "a" (by decide +kernel),
    fun h => ?_, fun h => ?_⟩
  · exact absurd (h "a").length_eq (by decide +kernel)
  · exact absurd h.1.length_eq (by decide +kernel)

end ReticulumPi.Events
