import ReticulumPi.Announces.Dispatcher
import Mathlib.Data.List.Nodup
import Mathlib.Data.List.ReduceOption

/-!
# Announces come in order

What a subscriber has been called for, what its worker holds, its mailbox, what
the dispatcher is about to offer it and what has not been dispatched form one
queue. A step only moves announces on in this queue or takes some out of it, so
that all of it stays a subsequence of what the subscriber may get
(`State.Sound.flow`).
-/

namespace ReticulumPi.Announces

open List

variable {Identity : Type} (config : Config Identity)

/-- The announce that the worker has taken and not yet decided on. -/
def Worker.hand : Worker Identity → List (Announce Identity)
  | .got a => [a]
  | .admitted a => [a]
  | _ => []

/-- What has gone into the mailbox and not been thrown away. -/
def Subscription.held (sub : Subscription Identity) : List (Announce Identity) :=
  sub.delivered ++ sub.worker.hand ++ sub.queue.reduceOption

/-- What the subscriber may get. -/
def Subscription.offered (sub : Subscription Identity) : List (Announce Identity) :=
  (sub.waiting ++ sub.enqueued).filter (config.wants sub.aspectFilter)

/-- The subscribers that the dispatcher is not done with. -/
def Dispatcher.targets : Dispatcher Identity → List ℕ
  | .visiting _ remaining _ => remaining
  | .offering _ i remaining _ => i :: remaining
  | .full _ i remaining _ => i :: remaining
  | .tripping _ i _ remaining _ => i :: remaining
  | _ => []

/-- What the dispatcher may still put into the mailbox of the subscriber: the announce at hand, as
    often as the subscriber is among those to be visited. -/
def Dispatcher.due (i : ℕ) : Dispatcher Identity → List (Announce Identity)
  | .visiting a remaining _ => (remaining.filter (· = i)).map fun _ => a
  | .offering a j remaining _ => ((j :: remaining).filter (· = i)).map fun _ => a
  | .full a _ remaining _ => (remaining.filter (· = i)).map fun _ => a
  | .tripping a _ _ remaining _ => (remaining.filter (· = i)).map fun _ => a
  | _ => []

/-- The aspects found to match, or not to, are those that do, or do not. -/
def Matched.Right (matched : Matched) (a : Announce Identity) : Prop :=
  ∀ p ∈ matched, p.2 = config.aspectMatches p.1 a

def Dispatcher.Right : Dispatcher Identity → Prop
  | .visiting a _ matched => Matched.Right config matched a
  | .offering a _ _ matched => Matched.Right config matched a
  | .full a _ _ matched => Matched.Right config matched a
  | .tripping a _ _ _ matched => Matched.Right config matched a
  | _ => True

theorem Dispatcher.due_eq_nil {d : Dispatcher Identity} {i : ℕ} (h : i ∉ d.targets) :
    d.due i = [] := by
  have hnone : ∀ (a : Announce Identity) (l : List ℕ), i ∉ l →
      ((l.filter (· = i)).map fun _ => a) = [] := fun a l hl =>
    map_eq_nil_iff.2
      (List.filter_eq_nil_iff.2 fun j hj heq => hl (of_decide_eq_true heq ▸ hj))
  cases d with
  | visiting a remaining matched => exact hnone a remaining h
  | offering a j remaining matched => exact hnone a (j :: remaining) h
  | full a j remaining matched | tripping a j disabledUntil remaining matched =>
    exact hnone a remaining fun hmem => h (mem_cons_of_mem _ hmem)
  | _ => rfl

variable {config}

/-- The cache of the matched aspects changes no answer. -/
theorem shouldCall_eq {matched : Matched} {a : Announce Identity}
    (h : Matched.Right config matched a) (aspectFilter : Option String) :
    (config.shouldCall matched aspectFilter a).1 = config.wants aspectFilter a ∧
      Matched.Right config (config.shouldCall matched aspectFilter a).2 a := by
  cases aspectFilter with
  | none => exact ⟨rfl, h⟩
  | some filter =>
    rw [Config.shouldCall, Config.wants]
    cases hfind : matched.find? (·.1 = filter) with
    | none =>
      refine ⟨rfl, fun p hp => ?_⟩
      rcases mem_cons.1 hp with rfl | hp
      · rfl
      · exact h p hp
    | some p =>
      have hname : p.1 = filter := by simpa using find?_some hfind
      exact ⟨by rw [← hname]; exact h p (mem_of_find?_eq_some hfind), h⟩

/-! ## Steps on one subscription -/

/-- The step leaves alone what the subscriber may get. -/
structure Subscription.SameOffer (sub sub' : Subscription Identity) : Prop where
  aspectFilter : sub'.aspectFilter = sub.aspectFilter
  waiting : sub'.waiting = sub.waiting
  enqueued : sub'.enqueued = sub.enqueued

variable {sub : Subscription Identity}

theorem Subscription.SameOffer.rfl' : sub.SameOffer sub :=
  ⟨rfl, rfl, rfl⟩

variable {sub' : Subscription Identity}

theorem Subscription.SameOffer.offered
    (h : sub.SameOffer sub') : sub'.offered config = sub.offered config := by
  rw [Subscription.offered, h.aspectFilter, h.waiting, h.enqueued, Subscription.offered]

/-- The worker only moves announces on, or throws them away. -/
theorem work_held {w : Work}
    (h : sub.work config w = some sub') : sub.SameOffer sub' ∧ sub'.held.Sublist sub.held := by
  obtain ⟨aspectFilter, timeouts, disabledUntil, queue, active, worker, stopping, waiting,
    enqueued, delivered⟩ := sub
  cases w with
  | loop =>
    cases worker <;> cases h
    refine ⟨⟨rfl, rfl, rfl⟩, ?_⟩
    cases active <;> exact .refl _
  | get =>
    cases worker <;> try cases h
    rcases queue with _ | ⟨_ | a, queue⟩ <;> cases h
    · exact ⟨⟨rfl, rfl, rfl⟩, .refl _⟩
    · refine ⟨⟨rfl, rfl, rfl⟩, ?_⟩
      simp [Subscription.held, Worker.hand, reduceOption_cons_of_some]
  | empty =>
    cases worker <;> try cases h
    cases queue <;> cases h
    exact ⟨⟨rfl, rfl, rfl⟩, .refl _⟩
  | consider =>
    cases worker <;> cases h
    refine ⟨⟨rfl, rfl, rfl⟩, ?_⟩
    cases active <;> simp [Subscription.held, Worker.hand]
  | call now =>
    cases worker with
    | admitted a =>
      by_cases hdisabled : now < disabledUntil
      · simp only [Subscription.work, if_pos hdisabled] at h
        cases h
        exact ⟨⟨rfl, rfl, rfl⟩, by simp [Subscription.held, Worker.hand]⟩
      · simp only [Subscription.work, if_neg hdisabled] at h
        cases h
        exact ⟨⟨rfl, rfl, rfl⟩, by simp [Subscription.held, Worker.hand]⟩
    | _ => cases h
  | finish elapsed now =>
    cases worker with
    | calling =>
      by_cases hslow : config.callbackDeadline < elapsed
      · simp only [Subscription.work, if_pos hslow] at h
        cases h
        exact ⟨⟨rfl, rfl, rfl⟩, .refl _⟩
      · simp only [Subscription.work, if_neg hslow] at h
        cases h
        exact ⟨⟨rfl, rfl, rfl⟩, .refl _⟩
    | _ => cases h
  | raise =>
    cases worker <;> cases h
    exact ⟨⟨rfl, rfl, rfl⟩, .refl _⟩

/-- To stop a subscription takes no announce out of the mailbox. -/
theorem stopStep_held (h : sub.stopStep = some sub') :
    sub.SameOffer sub' ∧ sub'.held = sub.held := by
  unfold Subscription.stopStep at h
  split at h <;> cases h
  · exact ⟨⟨rfl, rfl, rfl⟩, rfl⟩
  · refine ⟨⟨rfl, rfl, rfl⟩, ?_⟩
    cases hfull : full subscriberQueue sub.queue.length with
    | true => simp [Subscription.held]
    | false => simp [Subscription.held, reduceOption_append, reduceOption_cons_of_none]

/-- What a step of the dispatcher about a subscriber does, or one of the subscriber alone. -/
structure Visited (config : Config Identity) (i : ℕ) (d : Dispatcher Identity)
    (sub : Subscription Identity) (d' : Dispatcher Identity) (sub' : Subscription Identity) :
    Prop where
  offer : sub.SameOffer sub'
  hand : d'.hand = d.hand
  targets : d'.targets ⊆ d.targets
  right : d'.Right config
  held : (sub'.held ++ (d'.due i).filter (config.wants sub.aspectFilter)).Sublist
    (sub.held ++ (d.due i).filter (config.wants sub.aspectFilter))
  other : ∀ j, j ≠ i → d'.due j = d.due j

theorem Visited.alone {d : Dispatcher Identity} (i : ℕ)
    (hright : d.Right config) (hoffer : sub.SameOffer sub') (hheld : sub'.held.Sublist sub.held) :
    Visited config i d sub d sub' :=
  ⟨hoffer, rfl, Subset.refl _, hright, hheld.append (.refl _), fun _ _ => rfl⟩

theorem visited {i : ℕ} {v : Visit} {d d' : Dispatcher Identity} (hright : d.Right config)
    (h : config.visit i v d sub = some (d', sub')) : Visited config i d sub d' sub' := by
  have hself : ∀ (a : Announce Identity) (l : List ℕ),
      (((i :: l).filter (· = i)).map fun _ => a) = a :: (l.filter (· = i)).map fun _ => a :=
    fun a l => by simp
  have hne : ∀ (a : Announce Identity) (l : List ℕ) (j : ℕ), j ≠ i →
      (((i :: l).filter (· = j)).map fun _ => a) = (l.filter (· = j)).map fun _ => a :=
    fun a l j hj => by simp [Ne.symm hj]
  cases v with
  | check now =>
    rcases d with _ | _ | _ | ⟨a, _ | ⟨k, remaining⟩, matched⟩ | _ | _ | _ | _ <;> try cases h
    by_cases hk : k = i
    · subst hk
      by_cases hdisabled : now < sub.disabledUntil
      · simp only [Config.visit, if_true, if_pos hdisabled] at h
        cases h
        refine ⟨.rfl', rfl, subset_cons_self _ _, hright, ?_, fun j hj =>
          (hne a remaining j hj).symm⟩
        rw [Dispatcher.due, Dispatcher.due, hself]
        exact (Sublist.refl _).append ((sublist_cons_self _ _).filter _)
      · simp only [Config.visit, if_true, if_neg hdisabled] at h
        cases h
        exact ⟨.rfl', rfl, Subset.refl _, hright, .refl _, fun _ _ => rfl⟩
    · simp [Config.visit, hk] at h
  | offer =>
    rcases d with _ | _ | _ | _ | ⟨a, k, remaining, matched⟩ | _ | _ | _ <;> try cases h
    by_cases hk : k = i
    · subst hk
      obtain ⟨hanswer, hright'⟩ := shouldCall_eq hright sub.aspectFilter
      simp only [Config.visit, if_true, hanswer] at h
      have hdrop : (sub.held ++ ((remaining.filter (· = k)).map fun _ => a).filter
          (config.wants sub.aspectFilter)).Sublist
          (sub.held ++ (((k :: remaining).filter (· = k)).map fun _ => a).filter
            (config.wants sub.aspectFilter)) := by
        rw [hself]
        exact (Sublist.refl _).append ((sublist_cons_self _ _).filter _)
      by_cases hwants : config.wants sub.aspectFilter a = true
      · rw [if_pos hwants] at h
        by_cases hfull : full subscriberQueue sub.queue.length = true
        · rw [if_pos hfull] at h
          cases h
          exact ⟨.rfl', rfl, Subset.refl _, hright', hdrop, fun j hj =>
            (hne a remaining j hj).symm⟩
        · rw [if_neg hfull] at h
          cases h
          refine ⟨⟨rfl, rfl, rfl⟩, rfl, subset_cons_self _ _, hright', ?_, fun j hj =>
            (hne a remaining j hj).symm⟩
          -- the announce goes from the dispatcher to the end of the mailbox
          simp only [Dispatcher.due, hself]
          simp [Subscription.held, reduceOption_append, reduceOption_cons_of_some, hwants]
      · rw [if_neg hwants] at h
        cases h
        exact ⟨.rfl', rfl, subset_cons_self _ _, hright', hdrop, fun j hj =>
          (hne a remaining j hj).symm⟩
    · simp [Config.visit, hk] at h
  | look =>
    rcases d with _ | _ | _ | _ | _ | ⟨a, k, remaining, matched⟩ | _ | _ <;> try cases h
    by_cases hk : k = i
    · subst hk
      simp only [Config.visit, if_true] at h
      cases h
      exact ⟨.rfl', rfl, Subset.refl _, hright, .refl _, fun _ _ => rfl⟩
    · simp [Config.visit, hk] at h
  | trip now =>
    rcases d with _ | _ | _ | _ | _ | _ | ⟨a, k, until_, remaining, matched⟩ | _ <;> try cases h
    by_cases hk : k = i
    · subst hk
      simp only [Config.visit, if_true] at h
      cases h
      exact ⟨⟨rfl, rfl, rfl⟩, rfl, subset_cons_self _ _, hright, .refl _,
        fun _ _ => rfl⟩
    · simp [Config.visit, hk] at h

/-! ## The invariant -/

namespace State

/-- What may still come into the mailbox of the subscriber. -/
def due (s : State Identity) (i : ℕ) : List (Announce Identity) :=
  s.dispatcher.due i ++ if i ∈ s.subscriptions then s.pending else []

variable (config) in
structure Sound (s : State Identity) : Prop where
  nodup : s.subscriptions.Nodup
  known : ∀ i ∈ s.subscriptions, (s.subs i).isSome = true
  targets : ∀ i ∈ s.dispatcher.targets, (s.subs i).isSome = true
  right : s.dispatcher.Right config
  flow : ∀ i sub, s.subs i = some sub →
    (sub.held ++ (s.due i).filter (config.wants sub.aspectFilter)).Sublist (sub.offered config)

variable {s s' : State Identity} {i j : ℕ} {sub sub' : Subscription Identity}

theorem isSome_update (h : s.subs i = some sub) (j : ℕ) :
    (Function.update s.subs i (some sub') j).isSome = (s.subs j).isSome := by
  by_cases hj : j = i
  · rw [hj, Function.update_self, h]
    rfl
  · rw [Function.update_of_ne hj]

variable (h : s.Sound config)
include h

/-- A step on one subscription, and maybe of the dispatcher about it. -/
theorem Sound.withSub {d' : Dispatcher Identity} (hsub : s.subs i = some sub)
    (hv : Visited config i s.dispatcher sub d' sub') :
    Sound config { s.withSub i sub' with dispatcher := d' } where
  nodup := h.nodup
  known j hj := by
    rw [State.withSub, isSome_update hsub]
    exact h.known j hj
  targets j hj := by
    rw [State.withSub, isSome_update hsub]
    exact h.targets j (hv.targets hj)
  right := hv.right
  flow j sub'' hsub'' := by
    rw [due, pending]
    simp only [State.withSub] at hsub'' ⊢
    by_cases hj : j = i
    · rw [hj, Function.update_self] at hsub''
      cases hsub''
      have hflow := h.flow i sub hsub
      rw [due, pending, filter_append, ← append_assoc] at hflow
      rw [hv.hand, hv.offer.offered, hv.offer.aspectFilter, hj, filter_append,
        ← append_assoc]
      exact (hv.held.append (.refl _)).trans hflow
    · rw [Function.update_of_ne hj] at hsub''
      rw [hv.hand, hv.other j hj]
      exact h.flow j sub'' hsub''

/-- Nothing happens to the subscriptions, and nothing new is due. -/
theorem Sound.dispatch {d' : Dispatcher Identity}
    {queue : List (Announce Identity)} (htargets : d'.targets ⊆ s.dispatcher.targets)
    (hright : d'.Right config)
    (hdue : ∀ i, (s.dispatcher.due i = d'.due i ∧
      (d'.hand ++ queue).Sublist (s.dispatcher.hand ++ s.queue))) :
    Sound config { s with dispatcher := d', queue := queue } where
  nodup := h.nodup
  known := h.known
  targets i hi := h.targets i (htargets hi)
  right := hright
  flow i sub hsub := by
    refine Sublist.trans ?_ (h.flow i sub hsub)
    obtain ⟨hsame, hpending⟩ := hdue i
    refine (Sublist.refl _).append (List.Sublist.filter _ ?_)
    rw [due, due, hsame]
    refine (Sublist.refl _).append ?_
    by_cases hi : i ∈ s.subscriptions
    · rw [if_pos hi, if_pos hi]
      exact hpending
    · rw [if_neg hi, if_neg hi]

/-- The announce at hand, once its subscribers have been looked up, is due to each of them once. -/
theorem Sound.lookUp {a : Announce Identity} (htaken : s.dispatcher = .taken a) :
    Sound config { s with dispatcher := .visiting a s.subscriptions [] } where
  nodup := h.nodup
  known := h.known
  targets := h.known
  right := fun _ hp => nomatch hp
  flow i sub hsub := by
    refine Sublist.trans ?_ (h.flow i sub hsub)
    refine (Sublist.refl _).append (List.Sublist.filter _ ?_)
    simp only [due, pending, htaken, Dispatcher.due, Dispatcher.hand, nil_append]
    by_cases hi : i ∈ s.subscriptions
    · have hone : s.subscriptions.filter (· = i) = [i] := by
        rw [filter_eq, count_eq_one_of_mem h.nodup hi]
        rfl
      simp [hone, hi]
    · have hnone : s.subscriptions.filter (· = i) = [] :=
        List.filter_eq_nil_iff.2 fun j hj heq => hi (of_decide_eq_true heq ▸ hj)
      simp [hnone, hi]

/-- An announce comes into the shared queue, and is offered to all who are subscribed. -/
theorem Sound.enqueue (a : Announce Identity) : Sound config { s with
      queue := s.queue ++ [a]
      subs := s.forSubscribed fun sub => { sub with enqueued := sub.enqueued ++ [a] } } where
  nodup := h.nodup
  known i hi := by
    simp only [forSubscribed, if_pos hi, Option.isSome_map]
    exact h.known i hi
  targets i hi := by
    have := h.targets i hi
    by_cases hmem : i ∈ s.subscriptions <;> simpa [forSubscribed, hmem] using this
  right := h.right
  flow i sub' hsub' := by
    simp only [forSubscribed] at hsub'
    by_cases hi : i ∈ s.subscriptions
    · rw [if_pos hi] at hsub'
      obtain ⟨sub, hsub, rfl⟩ := Option.map_eq_some_iff.1 hsub'
      have hflow := h.flow i sub hsub
      simp only [due, pending, if_pos hi] at hflow ⊢
      simp only [Subscription.held, Subscription.offered, ← append_assoc] at hflow ⊢
      simp only [filter_append] at hflow ⊢
      simpa only [append_assoc] using hflow.append (Sublist.refl ([a].filter _))
    · rw [if_neg hi] at hsub'
      have hflow := h.flow i sub' hsub'
      simp only [due, if_neg hi] at hflow ⊢
      exact hflow

/-- The subscriptions become fewer. -/
theorem Sound.remove {subscriptions : List ℕ}
    {subs : ℕ → Option (Subscription Identity)} (hsub : subscriptions.Sublist s.subscriptions)
    (hsame : ∀ i, subs i = s.subs i ∨
      subs i = (s.subs i).map fun sub => { sub with stopping := .removed }) :
    Sound config { s with subscriptions := subscriptions, subs := subs } := by
  have hsome : ∀ i, (subs i).isSome = (s.subs i).isSome := fun i => by
    rcases hsame i with heq | heq <;> simp [heq]
  refine ⟨h.nodup.sublist hsub, fun i hi => ?_, fun i hi => ?_, h.right, fun i sub' hsub' => ?_⟩
  · exact (hsome i).trans (h.known i (hsub.subset hi))
  · exact (hsome i).trans (h.targets i hi)
  · have hdue : (due { s with subscriptions := subscriptions, subs := subs } i).Sublist
        (s.due i) := by
      refine (Sublist.refl _).append ?_
      by_cases hi : i ∈ subscriptions
      · rw [if_pos hi, if_pos (hsub.subset hi)]
        exact Sublist.refl _
      · rw [if_neg hi]
        exact nil_sublist _
    rcases hsame i with heq | heq
    · exact ((Sublist.refl _).append (hdue.filter _)).trans
        (h.flow i sub' (heq.symm.trans hsub'))
    · obtain ⟨sub, hsub, rfl⟩ := Option.map_eq_some_iff.1 (heq.symm.trans hsub')
      exact ((Sublist.refl _).append (hdue.filter _)).trans (h.flow i sub hsub)

/-- A new subscriber may get what is pending. -/
theorem Sound.subscribe (hfresh : s.subs i = none) (aspectFilter : Option String) :
    Sound config { s.withSub i { aspectFilter := aspectFilter, waiting := s.pending } with
      subscriptions := s.subscriptions ++ [i] } := by
  have hi : i ∉ s.subscriptions := fun hmem => by
    have := h.known i hmem
    rw [hfresh] at this
    cases this
  have htarget : i ∉ s.dispatcher.targets := fun hmem => by
    have := h.targets i hmem
    rw [hfresh] at this
    cases this
  have hkeep : ∀ j sub, (s.subs j).isSome = true →
      (Function.update s.subs i (some sub) j).isSome = true := fun j sub hj => by
    by_cases hji : j = i
    · rw [hji, Function.update_self]
      rfl
    · rwa [Function.update_of_ne hji]
  refine ⟨?_, fun j hj => ?_, fun j hj => hkeep j _ (h.targets j hj), h.right,
    fun j sub hsub => ?_⟩
  · exact nodup_append.2 ⟨h.nodup, nodup_singleton i, fun a ha b hb heq =>
      hi (mem_singleton.1 hb ▸ heq ▸ ha)⟩
  · rcases mem_append.1 hj with hj | hj
    · exact hkeep j _ (h.known j hj)
    · rw [mem_singleton.1 hj]
      exact congrArg Option.isSome (Function.update_self i _ s.subs)
  · simp only [State.withSub] at hsub
    by_cases hji : j = i
    · rw [hji, Function.update_self] at hsub
      cases hsub
      simp only [due, hji, State.withSub, Dispatcher.due_eq_nil htarget]
      simp [Subscription.held, Worker.hand, Subscription.offered, State.pending]
    · rw [Function.update_of_ne hji] at hsub
      have hflow := h.flow j sub hsub
      simp only [due, State.withSub, mem_append, mem_singleton, hji, or_false] at hflow ⊢
      exact hflow

omit h

theorem Sound.next (h : s.Sound config) {e : Event Identity}
    (hnext : s.next config e = some s') : s'.Sound config := by
  cases e with
  | enqueue a =>
    rw [State.next] at hnext
    split_ifs at hnext <;> cases hnext
    · exact h
    · exact h.enqueue a
  | loop =>
    simp only [State.next] at hnext
    split at hnext <;> cases hnext
    next htop =>
      refine h.dispatch ?_ ?_ fun i => ?_
      · cases s.active <;> exact nil_subset _
      · cases s.active <;> trivial
      · rw [htop]
        cases s.active <;> exact ⟨rfl, .refl _⟩
  | take =>
    simp only [State.next] at hnext
    split at hnext <;> cases hnext
    next a queue hd hq =>
      refine h.dispatch (nil_subset _) trivial fun i => ?_
      rw [hd, hq]
      exact ⟨rfl, .refl _⟩
  | empty =>
    simp only [State.next] at hnext
    split at hnext <;> cases hnext
    next hd hq =>
      refine h.dispatch (nil_subset _) trivial fun i => ?_
      rw [hd]
      exact ⟨rfl, .refl _⟩
  | lookUp =>
    simp only [State.next] at hnext
    split at hnext <;> cases hnext
    next a hd => exact h.lookUp hd
  | finish =>
    simp only [State.next] at hnext
    split at hnext <;> cases hnext
    next a matched hd =>
      refine h.dispatch (nil_subset _) trivial fun i => ?_
      rw [hd]
      exact ⟨rfl, .refl _⟩
  | visit i v =>
    obtain ⟨sub, hsub, hnext⟩ := Option.bind_eq_some_iff.1 hnext
    obtain ⟨⟨d', sub'⟩, hvisit, rfl⟩ := Option.map_eq_some_iff.1 hnext
    exact h.withSub hsub (visited h.right hvisit)
  | subscribe i aspectFilter =>
    simp only [State.next] at hnext
    split at hnext <;> cases hnext
    next hfresh => exact h.subscribe hfresh aspectFilter
  | unsubscribe i =>
    simp only [State.next] at hnext
    by_cases hi : i ∈ s.subscriptions
    · rw [if_pos hi] at hnext
      obtain ⟨sub, hsub, rfl⟩ := Option.map_eq_some_iff.1 hnext
      refine h.remove filter_sublist fun j => ?_
      by_cases hj : j = i
      · right
        rw [hj, hsub]
        exact Function.update_self i _ s.subs
      · exact .inl (Function.update_of_ne hj _ _)
    · rw [if_neg hi] at hnext
      cases hnext
      exact h
  | stopStep i =>
    obtain ⟨sub, hsub, hnext⟩ := Option.bind_eq_some_iff.1 hnext
    obtain ⟨sub', hstop, rfl⟩ := Option.map_eq_some_iff.1 hnext
    obtain ⟨hoffer, hheld⟩ := stopStep_held hstop
    exact h.withSub hsub (.alone i h.right hoffer (hheld ▸ .refl _))
  | work i w =>
    obtain ⟨sub, hsub, hnext⟩ := Option.bind_eq_some_iff.1 hnext
    obtain ⟨sub', hwork, rfl⟩ := Option.map_eq_some_iff.1 hnext
    obtain ⟨hoffer, hheld⟩ := work_held hwork
    exact h.withSub hsub (.alone i h.right hoffer hheld)
  | stop =>
    cases hnext
    exact ⟨h.nodup, h.known, h.targets, h.right, h.flow⟩
  | clear =>
    simp only [State.next] at hnext
    split_ifs at hnext
    cases hnext
    refine h.remove (nil_sublist _) fun i => ?_
    by_cases hi : i ∈ s.subscriptions
    · exact .inr (if_pos hi)
    · exact .inl (if_neg hi)

end State

theorem sound_start : (start : State Identity).Sound config where
  nodup := nodup_nil
  known _ hi := nomatch hi
  targets _ hi := nomatch hi
  right := trivial
  flow _ _ hsub := nomatch hsub

theorem sound_of_reachable {s : State Identity} (h : (system config).Reachable s) :
    s.Sound config :=
  h.induction (fun _ hs => by cases hs; exact sound_start) fun _ _ _ h _ hnext => h.next hnext

/-- A subscriber gets announces it may get, in their order and each at most once. -/
theorem delivered_sublist {s : State Identity} (h : (system config).Reachable s) {i : ℕ}
    (hsub : s.subs i = some sub) : sub.delivered.Sublist (sub.offered config) := by
  refine Sublist.trans ?_ ((sound_of_reachable h).flow i sub hsub)
  rw [Subscription.held, append_assoc, append_assoc]
  exact sublist_append_left _ _

end ReticulumPi.Announces
