import ReticulumPi.Announces.Ordered
import ReticulumPi.Lib.Purge

/-!
# Subscribers do not disturb each other

An event concerns a subscriber unless it is a step of another one's worker, of
the thread that stops the other one, the beginning or the end of the other
subscription, or a visit of the dispatcher to it. The events that do not concern
a subscriber can be taken out of a run, and the same is delivered to the
subscriber (`State.Mirrors`).
-/

namespace ReticulumPi.Announces

open Purge List

variable {Identity : Type} {config : Config Identity}

/-- The event is none of another subscriber. -/
def Event.concerns (i : ℕ) : Event Identity → Bool
  | .visit j _ => j = i
  | .subscribe j _ => j = i
  | .unsubscribe j => j = i
  | .stopStep j => j = i
  | .work j _ => j = i
  | _ => true

/-- Where the dispatcher is if there is no other subscriber, and these aspects have been matched. -/
def Dispatcher.only (i : ℕ) (matched : Matched) : Dispatcher Identity → Dispatcher Identity
  | .visiting a remaining _ => .visiting a (remaining.filter (· = i)) matched
  | .offering a j remaining _ =>
    if j = i then .offering a j (remaining.filter (· = i)) matched
    else .visiting a (remaining.filter (· = i)) matched
  | .full a j remaining _ =>
    if j = i then .full a j (remaining.filter (· = i)) matched
    else .visiting a (remaining.filter (· = i)) matched
  | .tripping a j disabledUntil remaining _ =>
    if j = i then .tripping a j disabledUntil (remaining.filter (· = i)) matched
    else .visiting a (remaining.filter (· = i)) matched
  | .top => .top
  | .waiting => .waiting
  | .taken a => .taken a
  | .ended => .ended

theorem Dispatcher.hand_only (i : ℕ) (matched : Matched) (d : Dispatcher Identity) :
    (d.only i matched).hand = d.hand := by
  cases d with
  | offering a j remaining m | full a j remaining m | tripping a j disabledUntil remaining m =>
    by_cases hj : j = i <;> simp [only, hand, hj]
  | _ => rfl

variable {d' : Dispatcher Identity} {sub sub' : Subscription Identity}

/-- Where the dispatcher is when it does something about the subscriber. -/
theorem visit_shape {i : ℕ} {v : Visit} {d : Dispatcher Identity}
    (h : config.visit i v d sub = some (d', sub')) :
    (∃ now a remaining m, v = .check now ∧ d = .visiting a (i :: remaining) m) ∨
    (∃ a remaining m, v = .offer ∧ d = .offering a i remaining m) ∨
    (∃ a remaining m, v = .look ∧ d = .full a i remaining m) ∨
    ∃ now a disabledUntil remaining m,
      v = .trip now ∧ d = .tripping a i disabledUntil remaining m := by
  unfold Config.visit at h
  split at h
  · split_ifs at h with hj <;> exact .inl ⟨_, _, _, _, rfl, by rw [hj]⟩
  · split_ifs at h with hj <;> exact .inr (.inl ⟨_, _, _, rfl, by rw [hj]⟩)
  · split_ifs at h with hj
    exact .inr (.inr (.inl ⟨_, _, _, rfl, by rw [hj]⟩))
  · split_ifs at h with hj
    exact .inr (.inr (.inr ⟨_, _, _, _, _, rfl, by rw [hj]⟩))
  · cases h

/-- A visit to another subscriber is none. -/
theorem visit_other {i j : ℕ} (hj : j ≠ i) {v : Visit} {d : Dispatcher Identity}
    (h : config.visit j v d sub = some (d', sub'))
    (matched : Matched) : d'.only i matched = d.only i matched := by
  have hskip : ∀ remaining : List ℕ,
      (j :: remaining).filter (· = i) = remaining.filter (· = i) := fun remaining =>
    filter_cons_of_neg (by simpa using hj)
  obtain ⟨now, a, remaining, m, rfl, rfl⟩ | ⟨a, remaining, m, rfl, rfl⟩ |
    ⟨a, remaining, m, rfl, rfl⟩ | ⟨now, a, disabledUntil, remaining, m, rfl, rfl⟩ := visit_shape h
  · simp only [Config.visit, if_true] at h
    split_ifs at h <;> cases h <;> simp only [Dispatcher.only, hskip, if_neg hj]
  · simp only [Config.visit, if_true] at h
    split_ifs at h <;> cases h <;> simp only [Dispatcher.only, if_neg hj]
  all_goals
    cases (if_pos rfl).symm.trans h
    simp only [Dispatcher.only, if_neg hj]

/-- A visit to the subscriber itself is one whether or not there are others. -/
theorem visit_self {i : ℕ} {v : Visit} {d : Dispatcher Identity} {matched : Matched}
    (hright : d.Right config)
    (hmatched : (d.only i matched).Right config)
    (h : config.visit i v d sub = some (d', sub')) :
    ∃ matched', config.visit i v (d.only i matched) sub = some (d'.only i matched', sub') ∧
      (d'.only i matched').Right config := by
  have hkeep : ∀ remaining : List ℕ,
      (i :: remaining).filter (· = i) = i :: remaining.filter (· = i) := fun remaining =>
    filter_cons_of_pos (by simp)
  obtain ⟨now, a, remaining, m, rfl, rfl⟩ | ⟨a, remaining, m, rfl, rfl⟩ |
    ⟨a, remaining, m, rfl, rfl⟩ | ⟨now, a, disabledUntil, remaining, m, rfl, rfl⟩ := visit_shape h
  · simp only [Config.visit, if_true] at h
    simp only [Dispatcher.only, hkeep, Config.visit, if_true] at hmatched ⊢
    split_ifs at h ⊢ with hdisabled <;> cases h
    · exact ⟨matched, rfl, hmatched⟩
    · exact ⟨matched, by simp only [if_true], by simpa [Dispatcher.only]⟩
  · obtain ⟨hanswer, _⟩ := shouldCall_eq hright sub.aspectFilter
    simp only [Dispatcher.only, if_true] at hmatched
    obtain ⟨hanswer', hright'⟩ := shouldCall_eq hmatched sub.aspectFilter
    -- both caches answer as the aspect does
    refine ⟨(config.shouldCall matched sub.aspectFilter a).2, ?_, ?_⟩
    · simp only [Config.visit, if_true, hanswer] at h
      simp only [Dispatcher.only, if_true, Config.visit, hanswer']
      split_ifs at h ⊢ <;> cases h <;> simp only [if_true]
    · simp only [Config.visit, if_true, hanswer] at h
      split_ifs at h <;> cases h
      all_goals simp only [Dispatcher.only, if_true]; exact hright'
  all_goals
    cases (if_pos rfl).symm.trans h
    simp only [Dispatcher.only, if_true, Config.visit] at hmatched ⊢
    exact ⟨matched, rfl, hmatched⟩

namespace State

variable (config) in
/-- The second state is that of a run without the other subscribers. -/
structure Mirrors (i : ℕ) (s t : State Identity) : Prop where
  active : t.active = s.active
  queue : t.queue = s.queue
  subscriptions : t.subscriptions = s.subscriptions.filter (· = i)
  sub : t.subs i = s.subs i
  right : s.dispatcher.Right config
  dispatcher : ∃ matched, t.dispatcher = s.dispatcher.only i matched ∧
    (s.dispatcher.only i matched).Right config

variable {i : ℕ} {s s' t : State Identity} {e : Event Identity}

variable (h : Mirrors config i s t)
include h

theorem Mirrors.pending : t.pending = s.pending := by
  obtain ⟨matched, hdispatcher, _⟩ := h.dispatcher
  rw [State.pending, hdispatcher, Dispatcher.hand_only, h.queue, State.pending]

theorem Mirrors.mem_iff : i ∈ t.subscriptions ↔ i ∈ s.subscriptions := by
  rw [h.subscriptions]
  simp

/-- What is done to all who are subscribed is done to the subscriber in both runs. -/
theorem Mirrors.forSubscribed (f : Subscription Identity → Subscription Identity) :
    t.forSubscribed f i = s.forSubscribed f i := by
  by_cases hi : i ∈ s.subscriptions
  · rw [State.forSubscribed, State.forSubscribed, if_pos hi, if_pos (h.mem_iff.2 hi), h.sub]
  · rw [State.forSubscribed, State.forSubscribed, if_neg hi, if_neg (mt h.mem_iff.1 hi), h.sub]

/-- What does not concern the subscriber leaves the run without the others where it is. -/
theorem Mirrors.hidden (hsound : s'.Sound config)
    (he : e.concerns i = false) (hnext : s.next config e = some s') : Mirrors config i s' t := by
  have hne : ∀ j : ℕ, decide (j = i) = false → i ≠ j := fun j hj heq =>
    of_decide_eq_false hj heq.symm
  cases e with
  | visit j v =>
    obtain ⟨sub, hsub, hnext⟩ := Option.bind_eq_some_iff.1 hnext
    obtain ⟨⟨d', sub'⟩, hvisit, rfl⟩ := Option.map_eq_some_iff.1 hnext
    obtain ⟨matched, hdispatcher, hright⟩ := h.dispatcher
    have hsame := visit_other (hne j he).symm hvisit matched
    refine ⟨h.active, h.queue, h.subscriptions, ?_, hsound.right, matched, ?_, ?_⟩
    · exact h.sub.trans (Function.update_of_ne (hne j he) _ _).symm
    · exact hdispatcher.trans hsame.symm
    · exact hsame ▸ hright
  | subscribe j aspectFilter =>
    simp only [State.next] at hnext
    split at hnext <;> cases hnext
    refine ⟨h.active, h.queue, ?_, ?_, h.right, h.dispatcher⟩
    · have hji : [j].filter (· = i) = [] := filter_cons_of_neg (by simpa using (hne j he).symm)
      rw [filter_append, hji, append_nil]
      exact h.subscriptions
    · exact h.sub.trans (Function.update_of_ne (hne j he) _ _).symm
  | unsubscribe j =>
    simp only [State.next] at hnext
    by_cases hj : j ∈ s.subscriptions
    · rw [if_pos hj] at hnext
      obtain ⟨sub, hsub, rfl⟩ := Option.map_eq_some_iff.1 hnext
      refine ⟨h.active, h.queue, ?_, ?_, h.right, h.dispatcher⟩
      · refine h.subscriptions.trans ?_
        rw [List.filter_filter]
        refine filter_congr fun k _ => ?_
        by_cases hk : k = i
        · simp [hk, hne j he]
        · simp [hk]
      · exact h.sub.trans (Function.update_of_ne (hne j he) _ _).symm
    · rw [if_neg hj] at hnext
      cases hnext
      exact h
  | stopStep j =>
    obtain ⟨sub, hsub, hnext⟩ := Option.bind_eq_some_iff.1 hnext
    obtain ⟨sub', hstop, rfl⟩ := Option.map_eq_some_iff.1 hnext
    exact ⟨h.active, h.queue, h.subscriptions,
      h.sub.trans (Function.update_of_ne (hne j he) _ _).symm, h.right, h.dispatcher⟩
  | work j w =>
    obtain ⟨sub, hsub, hnext⟩ := Option.bind_eq_some_iff.1 hnext
    obtain ⟨sub', hwork, rfl⟩ := Option.map_eq_some_iff.1 hnext
    exact ⟨h.active, h.queue, h.subscriptions,
      h.sub.trans (Function.update_of_ne (hne j he) _ _).symm, h.right, h.dispatcher⟩
  | _ => cases he

/-- What concerns the subscriber happens in both runs. -/
theorem Mirrors.consistent (hsound : s'.Sound config)
    (he : e.concerns i = true) (hnext : s.next config e = some s') :
    ∃ t', t.next config e = some t' ∧ Mirrors config i s' t' := by
  obtain ⟨matched, hdispatcher, hmatched⟩ := h.dispatcher
  cases e with
  | enqueue a =>
    rw [State.next] at hnext
    by_cases hfull : full config.maxQueue s.queue.length = true
    · rw [if_pos hfull] at hnext
      cases hnext
      exact ⟨t, by rw [State.next, h.queue, if_pos hfull], h⟩
    · rw [if_neg hfull] at hnext
      cases hnext
      refine ⟨{ t with
        queue := s.queue ++ [a]
        subs := t.forSubscribed fun sub => { sub with enqueued := sub.enqueued ++ [a] } }, ?_,
        h.active, rfl, h.subscriptions, h.forSubscribed _, h.right, h.dispatcher⟩
      rw [State.next, h.queue, if_neg hfull]
  | loop =>
    simp only [State.next] at hnext
    split at hnext <;> cases hnext
    next htop =>
      rw [htop] at hdispatcher
      refine ⟨{ t with dispatcher := if t.active then .waiting else .ended }, ?_, h.active, h.queue,
        h.subscriptions, h.sub, hsound.right, [], ?_, ?_⟩
      · simp only [State.next, hdispatcher, Dispatcher.only]
      · rw [h.active]
        cases s.active <;> rfl
      · cases s.active <;> trivial
  | take =>
    simp only [State.next] at hnext
    split at hnext <;> cases hnext
    next a queue hd hq =>
      rw [hd] at hdispatcher
      refine ⟨{ t with dispatcher := .taken a, queue := queue }, ?_, h.active, rfl, h.subscriptions,
        h.sub, trivial, [], rfl, trivial⟩
      simp only [State.next, hdispatcher, Dispatcher.only, h.queue, hq]
  | empty =>
    simp only [State.next] at hnext
    split at hnext <;> cases hnext
    next hd hq =>
      rw [hd] at hdispatcher
      refine ⟨{ t with dispatcher := .top }, ?_, h.active, h.queue, h.subscriptions, h.sub, trivial,
        [], rfl, trivial⟩
      simp only [State.next, hdispatcher, Dispatcher.only, h.queue, hq]
  | lookUp =>
    simp only [State.next] at hnext
    split at hnext <;> cases hnext
    next a hd =>
      rw [hd] at hdispatcher
      refine ⟨{ t with dispatcher := .visiting a t.subscriptions [] }, ?_, h.active, h.queue,
        h.subscriptions, h.sub, hsound.right, [], ?_, fun _ hp => by cases hp⟩
      · simp only [State.next, hdispatcher, Dispatcher.only]
      · rw [h.subscriptions]
        rfl
  | finish =>
    simp only [State.next] at hnext
    split at hnext <;> cases hnext
    next a m hd =>
      rw [hd] at hdispatcher
      refine ⟨{ t with dispatcher := .top }, ?_, h.active, h.queue, h.subscriptions, h.sub, trivial,
        [], rfl, trivial⟩
      simp only [State.next, hdispatcher, Dispatcher.only, filter_nil]
  | visit j v =>
    cases of_decide_eq_true he
    obtain ⟨sub, hsub, hnext⟩ := Option.bind_eq_some_iff.1 hnext
    obtain ⟨⟨d', sub'⟩, hvisit, rfl⟩ := Option.map_eq_some_iff.1 hnext
    obtain ⟨matched', hvisit', hright'⟩ := visit_self h.right hmatched hvisit
    refine ⟨{ t.withSub i sub' with dispatcher := d'.only i matched' }, ?_, h.active, h.queue,
      h.subscriptions, ?_, hsound.right, matched', rfl, hright'⟩
    · rw [State.next, h.sub, hsub, Option.bind_some, hdispatcher, hvisit']
      rfl
    · exact (Function.update_self i _ t.subs).trans (Function.update_self i _ s.subs).symm
  | subscribe j aspectFilter =>
    cases of_decide_eq_true he
    simp only [State.next] at hnext
    split at hnext <;> cases hnext
    next hfresh =>
      refine ⟨{ t.withSub i { aspectFilter := aspectFilter, waiting := t.pending } with
        subscriptions := t.subscriptions ++ [i] }, ?_, h.active, h.queue, ?_, ?_, h.right,
        h.dispatcher⟩
      · simp only [State.next, h.sub, hfresh]
      · have hself : [i].filter (· = i) = [i] := filter_cons_of_pos (by simp)
        rw [filter_append, hself]
        exact congrArg (· ++ [i]) h.subscriptions
      · rw [h.pending]
        exact (Function.update_self i _ t.subs).trans (Function.update_self i _ s.subs).symm
  | unsubscribe j =>
    cases of_decide_eq_true he
    simp only [State.next] at hnext
    by_cases hj : i ∈ s.subscriptions
    · rw [if_pos hj] at hnext
      obtain ⟨sub, hsub, rfl⟩ := Option.map_eq_some_iff.1 hnext
      refine ⟨{ t.withSub i { sub with stopping := .removed } with
        subscriptions := t.subscriptions.filter (· ≠ i) }, ?_, h.active, h.queue, ?_, ?_, h.right,
        h.dispatcher⟩
      · rw [State.next, if_pos (h.mem_iff.2 hj), h.sub, hsub]
        rfl
      · rw [h.subscriptions]
        simp only [List.filter_filter, Bool.and_comm]
      · exact (Function.update_self i _ t.subs).trans (Function.update_self i _ s.subs).symm
    · rw [if_neg hj] at hnext
      cases hnext
      exact ⟨t, by rw [State.next, if_neg (mt h.mem_iff.1 hj)], h⟩
  | stopStep j =>
    cases of_decide_eq_true he
    obtain ⟨sub, hsub, hnext⟩ := Option.bind_eq_some_iff.1 hnext
    obtain ⟨sub', hstop, rfl⟩ := Option.map_eq_some_iff.1 hnext
    refine ⟨t.withSub i sub', ?_, h.active, h.queue, h.subscriptions, ?_, h.right, h.dispatcher⟩
    · rw [State.next, h.sub, hsub, Option.bind_some, hstop]
      rfl
    · exact (Function.update_self i _ t.subs).trans (Function.update_self i _ s.subs).symm
  | work j w =>
    cases of_decide_eq_true he
    obtain ⟨sub, hsub, hnext⟩ := Option.bind_eq_some_iff.1 hnext
    obtain ⟨sub', hwork, rfl⟩ := Option.map_eq_some_iff.1 hnext
    refine ⟨t.withSub i sub', ?_, h.active, h.queue, h.subscriptions, ?_, h.right, h.dispatcher⟩
    · rw [State.next, h.sub, hsub, Option.bind_some, hwork]
      rfl
    · exact (Function.update_self i _ t.subs).trans (Function.update_self i _ s.subs).symm
  | stop =>
    cases hnext
    exact ⟨{ t with active := false }, rfl, rfl, h.queue, h.subscriptions, h.sub, h.right,
      h.dispatcher⟩
  | clear =>
    simp only [State.next] at hnext
    split_ifs at hnext with hactive
    cases hnext
    refine ⟨{ t with
      subscriptions := [], subs := t.forSubscribed fun sub => { sub with stopping := .removed } },
      ?_, h.active, h.queue, rfl, h.forSubscribed _, h.right, h.dispatcher⟩
    rw [State.next, h.active, if_neg hactive]

end State

variable (config) in
/-- The run and the one without the other subscribers. -/
theorem unwinding (i : ℕ) :
    PartialUnwinding (State.next config) (Event.concerns i)
      (fun s t => s.Sound config ∧ State.Mirrors config i s t) where
  consistent s s' t e h he hnext := by
    have hsound := h.1.next hnext
    obtain ⟨t', ht', hmirrors⟩ := h.2.consistent hsound he hnext
    exact ⟨t', ht', hsound, hmirrors⟩
  hidden s s' t e h he hnext :=
    have hsound := h.1.next hnext
    ⟨hsound, h.2.hidden hsound he hnext⟩

variable (config) in
/-- What a subscriber has got depends on what concerns it alone. -/
theorem sub_eq_of_concerns {i : ℕ} {l l' : List (Event Identity)} {s s' : State Identity}
    (hl : l.foldlM (State.next config) start = some s)
    (hl' : l'.foldlM (State.next config) start = some s')
    (heq : l.filter (Event.concerns i) = l'.filter (Event.concerns i)) : s.subs i = s'.subs i := by
  have hstart : (start : State Identity).Sound config ∧ State.Mirrors config i start start :=
    ⟨sound_start, rfl, rfl, rfl, rfl, trivial, [], rfl, trivial⟩
  obtain ⟨t, ht, _, hs⟩ := (unwinding config i).purge hstart hl
  obtain ⟨t', ht', _, hs'⟩ := (unwinding config i).purge hstart hl'
  rw [heq] at ht
  cases ht.symm.trans ht'
  exact hs.sub.symm.trans hs'.sub

/-- What a subscriber gets are announces that match its filter and have been enqueued while it was
    subscribed, or had not been dispatched when it subscribed, in their order and each at most once.
    And it is the same in all runs that agree on what concerns it, whatever the others do. -/
theorem announces_delivered (config : Config Identity) :
    (∀ s, (system config).Reachable s → ∀ i sub, s.subs i = some sub →
      sub.delivered.Sublist
        ((sub.waiting ++ sub.enqueued).filter (config.wants sub.aspectFilter))) ∧
    ∀ (i : ℕ) (l l' : List (Event Identity)) (s s' : State Identity),
      l.foldlM (State.next config) start = some s →
      l'.foldlM (State.next config) start = some s' →
      l.filter (Event.concerns i) = l'.filter (Event.concerns i) →
      (s.subs i).map (·.delivered) = (s'.subs i).map (·.delivered) :=
  ⟨fun _ hs _ _ hsub => delivered_sublist hs hsub, fun _ _ _ _ _ hl hl' heq =>
    congrArg _ (sub_eq_of_concerns config hl hl' heq)⟩

/-! ## A run -/

/-- Identities are numbers, and hashes of one byte. -/
def sampleConfig : Config ℕ where
  hashFromNameAndIdentity := fun name n =>
    some [⟨(name.length + n) % 256, Nat.mod_lt _ (by decide)⟩]

def sampleAnnounce : Announce ℕ where
  destinationHash := [⟨5 % 256, Nat.mod_lt _ (by decide)⟩]
  announcedIdentity := some 2

/-- The announce comes before anyone is subscribed. -/
def samplePrologue : List (Event ℕ) := [.enqueue sampleAnnounce, .subscribe 0 (some "lxm")]

/-- The announce is dispatched to the subscriber and delivered. -/
def sampleDelivery : List (Event ℕ) :=
  [.visit 0 (.check 0), .visit 0 .offer, .work 0 .loop, .work 0 .get, .work 0 .consider,
    .work 0 (.call 0)]

/-- The other subscriber is too slow. -/
def sampleOther : List (Event ℕ) :=
  [.visit 1 (.check 0), .visit 1 .offer, .work 1 .loop, .work 1 .get, .work 1 .consider,
    .work 1 (.call 0), .work 1 (.finish 9 9), .unsubscribe 1]

def sampleAlone : List (Event ℕ) :=
  samplePrologue ++ [.loop, .take, .lookUp] ++ sampleDelivery

def sampleTogether : List (Event ℕ) :=
  samplePrologue ++ [.subscribe 1 none, .loop, .take, .lookUp] ++ sampleDelivery ++ sampleOther

/-- An announce that was enqueued before anyone was subscribed is delivered. -/
theorem delivered_from_before :
    ¬∀ s, (system sampleConfig).Reachable s → ∀ i sub, s.subs i = some sub →
      sub.delivered.Sublist (sub.enqueued.filter (sampleConfig.wants sub.aspectFilter)) := by
  intro h
  obtain ⟨s, hs, sub, hsub, hdelivered, henqueued⟩ :
      ∃ s ∈ sampleAlone.foldlM (State.next sampleConfig) start,
      ∃ sub ∈ s.subs 0, sub.delivered = [sampleAnnounce] ∧ sub.enqueued = [] := by
    decide +kernel
  have hlist := h s (.foldlM (.init rfl) hs) 0 sub hsub
  rw [hdelivered, henqueued] at hlist
  cases hlist

/-- One announce is delivered, with the other subscriber and without it. -/
theorem announces_delivered_together :
    ∃ s s' sub, sampleAlone.foldlM (State.next sampleConfig) start = some s ∧
      sampleTogether.foldlM (State.next sampleConfig) start = some s' ∧
      s'.subs 0 = some sub ∧ sub.delivered = [sampleAnnounce] ∧
      sub.delivered.Sublist
        ((sub.waiting ++ sub.enqueued).filter (sampleConfig.wants sub.aspectFilter)) ∧
      (s.subs 0).map (·.delivered) = (s'.subs 0).map (·.delivered) := by
  have halone : (sampleAlone.foldlM (State.next sampleConfig) start).isSome = true := by
    decide +kernel
  obtain ⟨s, hs⟩ := Option.isSome_iff_exists.1 halone
  obtain ⟨s', hs', sub, hsub, hdelivered⟩ :
      ∃ s ∈ sampleTogether.foldlM (State.next sampleConfig) start,
      ∃ sub ∈ s.subs 0, sub.delivered = [sampleAnnounce] := by
    decide +kernel
  refine ⟨s, s', sub, hs, hs', hsub, hdelivered, ?_, ?_⟩
  · exact (announces_delivered sampleConfig).1 s' (.foldlM (.init rfl) hs') 0
      sub hsub
  · exact (announces_delivered sampleConfig).2 0 sampleAlone sampleTogether s s' hs hs' rfl

end ReticulumPi.Announces
