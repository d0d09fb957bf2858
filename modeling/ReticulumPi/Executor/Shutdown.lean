import ReticulumPi.Executor.Pool

/-!
# The end of the executor

Every task that was accepted is called at most once, and is done when nothing
can go on after `shutdown` (`finishes_iff`), since the stop tokens stand behind
the tasks (`Tokens`). But `shutdown` puts no further token when it finds the
queue full, and so many workers are then left at an empty queue: the executor
finishes exactly in those runs in which every token has found room.
-/

namespace ReticulumPi.Executor

open List

variable {l : Limits} {s s' : Pool l.maxWorkers}

/-! ## Where the tasks are -/

/-- Every step keeps track of the tasks. -/
theorem Tracked.next {e : Event l.maxWorkers} (h : Tracked s) (hs : s.next l e = some s') :
    Tracked s' := by
  have hself := h.ordered
  cases e with
  | submit =>
    rw [Pool.next] at hs
    split_ifs at hs
    cases hs
    exact h.submit
  | cancel id =>
    cases hs
    exact h.cancel id s.shutdown (.inl rfl)
  | take w =>
    rw [Pool.next] at hs
    split_ifs at hs with hpc
    rw [Pool.takeItem] at hs
    split at hs
    next id queue hq =>
      cases hs
      exact h.take hpc hq
    next queue hq =>
      cases hs
      exact h.stop hpc hq
    · cases hs
  | start w =>
    rw [Pool.next] at hs
    split at hs
    next id hpc =>
      cases hs
      have hholds : (s.workers w).holds = some id := congrArg WorkerPc.holds hpc
      rw [Pool.startTask]
      rcases h.taken w id hpc with hf | hf
      · rw [hf]
        exact h.start hpc hf
      · rw [hf]
        exact h.release hholds (.inr ⟨rfl, hf⟩)
    · cases hs
  | finish w =>
    rw [Pool.next] at hs
    split at hs
    next id hpc =>
      cases hs
      exact h.release (congrArg WorkerPc.holds hpc) (.inl rfl)
    · cases hs
  | shutdown cancelFutures =>
    obtain ⟨hnone, hs⟩ := Option.ite_none_right_eq_some.1 hs
    cases hs
    refine h.requeue rfl rfl rfl h.ordered (fun _ hq => hq) fun id hid => .inl ?_
    exact hid.resolve_right fun hc => by rw [hnone] at hc; cases hc
  | drain =>
    rw [Pool.next] at hs
    split_ifs at hs with hdrain
    cases hs
    have hnot : ∀ id, s.shutdown ≠ some (.cancelling id) := fun id hc => by
      rw [hdrain] at hc
      cases hc
    rw [Pool.drainItem]
    split
    next id queue hq =>
      rw [hq] at hself
      refine h.requeue rfl rfl rfl (pairwise_cons.1 hself).2
        (fun i hi => by rw [hq]; exact mem_cons_of_mem _ hi) fun i hi => ?_
      have hi := hi.resolve_right (hnot i)
      rw [hq, mem_cons] at hi
      rcases hi with hi | hi
      · cases hi
        exact .inr rfl
      · exact .inl hi
    next queue hq =>
      rw [hq] at hself
      refine h.requeue rfl rfl rfl (pairwise_cons.1 hself).2
        (fun i hi => by rw [hq]; exact mem_cons_of_mem _ hi) fun i hi => .inl ?_
      have hi := hi.resolve_right (hnot i)
      rw [hq, mem_cons] at hi
      exact hi.resolve_left fun hi => by cases hi
    next hq =>
      exact h.requeue rfl rfl rfl h.ordered (fun _ hi => hi) fun i hi =>
        .inl (hi.resolve_right (hnot i))
  | cancelDrained =>
    rw [Pool.next] at hs
    split at hs
    next id hc =>
      cases hs
      exact h.cancel id _ (.inr hc)
    · cases hs
  | putStop =>
    rw [Pool.next] at hs
    split at hs
    next left hc =>
      cases hs
      have hnot : ∀ id, s.shutdown ≠ some (.cancelling id) := fun id hc' => by
        rw [hc] at hc'
        cases hc'
      rw [Pool.putToken]
      split_ifs
      · refine h.requeue rfl rfl rfl ?_ (fun i hi => ?_) fun i hi =>
          .inl (mem_append_left _ (hi.resolve_right (hnot i)))
        · refine pairwise_append.2 ⟨h.ordered, pairwise_singleton _ _, ?_⟩
          intro a _ b hb i j _ hj
          rw [mem_singleton.1 hb] at hj
          cases hj
        · exact (mem_append.1 hi).resolve_right fun hi => by
            cases mem_singleton.1 hi
      · exact h.requeue rfl rfl rfl h.ordered (fun _ hi => hi) fun i hi =>
          .inl (hi.resolve_right (hnot i))
    next hc =>
      cases hs
      refine h.requeue rfl rfl rfl h.ordered (fun _ hi => hi) fun i hi => .inl ?_
      exact hi.resolve_right fun hc' => by rw [hc] at hc'; cases hc'
    · cases hs

/-! ## The stop tokens -/

/-- How many workers have taken a stop token. -/
def Pool.stopped {n : ℕ} (s : Pool n) : ℕ :=
  (Finset.univ.filter fun w => s.workers w = .stopped).card

/-- The stop tokens that are still to be put, and whether one was refused. -/
def TokensPut (l : Limits) (s : Pool l.maxWorkers) : Prop :=
  match s.shutdown with
  | some (.stopping left) => s.tokens + left = l.maxWorkers ∧ s.refused = false
  | some .ended =>
    if s.refused then s.tokens < l.maxWorkers else s.tokens = l.maxWorkers
  | _ => s.tokens = 0 ∧ s.refused = false

/-- The stop tokens stand behind the tasks, or have been taken by a worker each. -/
structure Tokens (l : Limits) (s : Pool l.maxWorkers) : Prop where
  behind : s.queue.Pairwise fun a b => a = .stop → b = .stop
  ended : ∀ w, s.workers w = .stopped → ∀ x ∈ s.queue, x = .stop
  balance : s.queue.count .stop + s.stopped = s.tokens
  put : TokensPut l s

section Counting

variable {n : ℕ} {t : Pool n} {w : Fin n} {pc : WorkerPc}

theorem stopped_setWorker_of_ne (hpc : pc ≠ .stopped) (hw : t.workers w ≠ .stopped) :
    (t.setWorker w pc).stopped = t.stopped := by
  rw [Pool.stopped, Pool.stopped]
  congr 1
  ext w'
  simp only [Finset.mem_filter, Finset.mem_univ, true_and, Pool.setWorker, Function.update_apply]
  split_ifs with heq
  · rw [heq]
    exact iff_of_false hpc hw
  · exact Iff.rfl

theorem stopped_setWorker (hw : t.workers w ≠ .stopped) :
    (t.setWorker w .stopped).stopped = t.stopped + 1 := by
  have hinsert : (Finset.univ.filter fun w' => (t.setWorker w .stopped).workers w' = .stopped) =
      insert w (Finset.univ.filter fun w' => t.workers w' = .stopped) := by
    ext w'
    simp only [Finset.mem_filter, Finset.mem_univ, true_and, Finset.mem_insert, Pool.setWorker,
      Function.update_apply]
    split_ifs with heq <;> simp [heq]
  rw [Pool.stopped, hinsert, Finset.card_insert_of_notMem (by simpa using hw)]
  rfl

end Counting

/-- Before `shutdown` puts tokens there are none. -/
theorem Tokens.none_of_zero (h : Tokens l s) (hzero : s.tokens = 0) :
    (∀ w, s.workers w ≠ .stopped) ∧ .stop ∉ s.queue := by
  have hbalance := h.balance
  rw [hzero, Nat.add_eq_zero_iff, count_eq_zero, Pool.stopped, Finset.card_eq_zero] at hbalance
  refine ⟨fun w hw => ?_, hbalance.1⟩
  have hmem : w ∈ Finset.univ.filter fun w => s.workers w = .stopped := by simpa using hw
  rw [hbalance.2] at hmem
  cases hmem

/-- A worker that is not about to take a token changes its place. -/
theorem Tokens.setWorker {w : Fin l.maxWorkers} {pc : WorkerPc} (h : Tokens l s)
    (hpc : pc ≠ .stopped) (hw : s.workers w ≠ .stopped) : Tokens l (s.setWorker w pc) where
  behind := h.behind
  ended := by
    intro w' hw'
    rcases update_cases hw' with ⟨-, heq⟩ | ⟨-, hw'⟩
    · exact absurd heq hpc
    · exact h.ended w' hw'
  balance := by
    rw [stopped_setWorker_of_ne hpc hw]
    exact h.balance
  put := h.put

/-- Every step keeps the stop tokens behind the tasks. -/
theorem Tokens.next {e : Event l.maxWorkers} (h : Tokens l s) (hs : s.next l e = some s') :
    Tokens l s' := by
  have hbehind := h.behind
  have hbalance := h.balance
  have hput := h.put
  cases e with
  | submit =>
    rw [Pool.next] at hs
    split_ifs at hs with hroom
    cases hs
    rw [TokensPut, hroom.1] at hput
    have hnone := h.none_of_zero hput.1
    refine ⟨?_, fun w hw => absurd hw (hnone.1 w), ?_, ?_⟩
    · refine pairwise_append.2 ⟨hbehind, pairwise_singleton _ _, ?_⟩
      rintro a ha b - rfl
      exact absurd ha hnone.2
    · rw [count_append, count_singleton]
      exact hbalance
    · rw [TokensPut, hroom.1]
      exact hput
  | cancel id =>
    cases hs
    exact ⟨h.behind, h.ended, h.balance, h.put⟩
  | take w =>
    rw [Pool.next] at hs
    split_ifs at hs with hpc
    rw [Pool.takeItem] at hs
    have hw : s.workers w ≠ .stopped := by
      rw [hpc]
      decide
    split at hs
    next id queue hq =>
      cases hs
      rw [hq] at hbehind hbalance
      have hrest : Tokens l { s with queue := queue } := by
        refine ⟨(pairwise_cons.1 hbehind).2, fun w' hw' x hx => ?_, ?_, hput⟩
        · exact h.ended w' hw' x (by rw [hq]; exact mem_cons_of_mem _ hx)
        · rwa [count_cons_of_ne (by simp)] at hbalance
      exact hrest.setWorker (by simp) hw
    next queue hq =>
      cases hs
      rw [hq, pairwise_cons] at hbehind
      rw [hq, count_cons_self] at hbalance
      refine ⟨hbehind.2, fun w' _ x hx => hbehind.1 x hx rfl, ?_, hput⟩
      have hstopped := stopped_setWorker (t := { s with queue := queue }) hw
      have hsame : Pool.stopped { s with queue := queue } = s.stopped := rfl
      change queue.count .stop + Pool.stopped (Pool.setWorker { s with queue := queue } w .stopped) =
        s.tokens
      omega
    · cases hs
  | start w =>
    rw [Pool.next] at hs
    split at hs
    next id hpc =>
      cases hs
      have hw : s.workers w ≠ .stopped := by
        rw [hpc]
        simp
      have hfuture : ∀ f, Tokens l (s.setFuture id f) := fun f =>
        ⟨h.behind, h.ended, h.balance, h.put⟩
      rw [Pool.startTask]
      split
      next f _ =>
        have hset : Tokens l ((s.setFuture id f).setWorker w (.running id)) :=
          (hfuture f).setWorker (by simp) hw
        exact ⟨hset.behind, hset.ended, hset.balance, hset.put⟩
      next f _ => exact (hfuture f).setWorker (by simp) hw
      · exact h.setWorker (by simp) hw
    · cases hs
  | finish w =>
    rw [Pool.next] at hs
    split at hs
    next id hpc =>
      cases hs
      have hfuture : Tokens l (s.setFuture id .finished) := ⟨h.behind, h.ended, h.balance, h.put⟩
      refine hfuture.setWorker (by simp) (w := w) ?_
      change s.workers w ≠ .stopped
      rw [hpc]
      simp
    · cases hs
  | shutdown cancelFutures =>
    obtain ⟨hnone, hs⟩ := Option.ite_none_right_eq_some.1 hs
    cases hs
    rw [TokensPut, hnone] at hput
    refine ⟨h.behind, h.ended, h.balance, ?_⟩
    cases cancelFutures with
    | false => exact ⟨by rw [hput.1, Nat.zero_add], hput.2⟩
    | true => exact hput
  | drain =>
    rw [Pool.next] at hs
    split_ifs at hs with hdrain
    cases hs
    rw [TokensPut, hdrain] at hput
    have hnone := h.none_of_zero hput.1
    rw [Pool.drainItem]
    split
    next id queue hq =>
      rw [hq] at hbehind hbalance
      refine ⟨(pairwise_cons.1 hbehind).2, fun w hw => absurd hw (hnone.1 w), ?_, hput⟩
      rwa [count_cons_of_ne (by simp)] at hbalance
    next queue hq =>
      rw [hq] at hnone
      exact absurd mem_cons_self hnone.2
    · exact ⟨h.behind, h.ended, h.balance, by rw [hput.1, Nat.zero_add], hput.2⟩
  | cancelDrained =>
    rw [Pool.next] at hs
    split at hs
    next id hc =>
      cases hs
      rw [TokensPut, hc] at hput
      exact ⟨h.behind, h.ended, h.balance, hput⟩
    · cases hs
  | putStop =>
    rw [Pool.next] at hs
    split at hs
    next left hc =>
      cases hs
      rw [TokensPut, hc] at hput
      rw [Pool.putToken]
      split_ifs
      · refine ⟨?_, fun w hw x hx => ?_, ?_, ?_, hput.2⟩
        · refine pairwise_append.2 ⟨hbehind, pairwise_singleton _ _, ?_⟩
          exact fun a _ b hb _ => mem_singleton.1 hb
        · rcases mem_append.1 hx with hx | hx
          · exact h.ended w hw x hx
          · exact mem_singleton.1 hx
        · rw [count_append, count_singleton_self, Nat.add_right_comm, ← hbalance]
          rfl
        · dsimp only
          omega
      · refine ⟨h.behind, h.ended, h.balance, ?_⟩
        rw [TokensPut]
        dsimp only
        rw [if_pos rfl]
        omega
    next hc =>
      cases hs
      rw [TokensPut, hc] at hput
      refine ⟨h.behind, h.ended, h.balance, ?_⟩
      rw [TokensPut]
      dsimp only
      rw [hput.2]
      exact hput.1
    · cases hs

/-! ## The result -/

/-- What holds in every state of the executor. -/
structure Sound (l : Limits) (s : Pool l.maxWorkers) : Prop where
  tracked : Tracked s
  tokens : Tokens l s

theorem tracked_empty {n : ℕ} : Tracked ({} : Pool n) where
  ordered := .nil
  queued := fun _ h => absurd h not_mem_nil
  taken := fun _ _ h => by cases h
  running := fun _ _ h => by cases h
  older := fun _ _ h => by cases h
  apart := fun _ _ _ h => by cases h
  kept := fun _ h => by cases h
  ran := fun _ h => by cases h
  once := .nil
  called := fun _ h => absurd h not_mem_nil
  alive := fun _ h => by cases h

theorem tokens_empty : Tokens l {} where
  behind := .nil
  ended := fun _ h => by cases h
  balance := by simp [Pool.stopped]
  put := ⟨rfl, rfl⟩

theorem sound_of_reachable (h : l.system.Reachable s) : Sound l s := by
  refine Transition.Reach.induction (I := Sound l) (fun s hs => ?_)
    (fun _ _ _ hs _ hstep => ⟨hs.tracked.next hstep, hs.tokens.next hstep⟩) h
  obtain rfl : s = {} := hs
  exact ⟨tracked_empty, tokens_empty⟩

section Quiescent

/-- `shutdown` does not stop on its way. -/
theorem Limits.Quiescent.ended (h : l.Quiescent s) : s.shutdown = some .ended := by
  have hdrain := h.stuck .drain rfl
  have hcancel := h.stuck .cancelDrained rfl
  have hput := h.stuck .putStop rfl
  rw [Pool.next.eq_def] at hdrain hcancel hput
  dsimp only at hdrain hcancel hput
  rcases hs : s.shutdown with _ | ⟨_ | id | left | _⟩
  · exact absurd hs h.called
  · rw [if_pos hs] at hdrain
    cases hdrain
  · rw [hs] at hcancel
    cases hcancel
  · rw [hs] at hput
    rcases left with _ | left <;> cases hput
  · rfl

/-- A worker has ended, or waits at an empty queue. -/
theorem Limits.Quiescent.worker (h : l.Quiescent s) (hs : Sound l s) (w : Fin l.maxWorkers) :
    s.workers w = .stopped ∨ s.workers w = .waiting ∧ s.queue = [] := by
  have htake := h.stuck (.take w) rfl
  have hstart := h.stuck (.start w) rfl
  rw [Pool.next.eq_def] at htake hstart
  dsimp only at htake hstart
  rcases hw : s.workers w with _ | id | id | _ | _
  · rw [if_pos hw, Pool.takeItem] at htake
    rcases hq : s.queue with _ | ⟨_ | _, queue⟩
    · exact .inr ⟨rfl, rfl⟩
    all_goals
      rw [hq] at htake
      cases htake
  · rw [hw] at hstart
    cases hstart
  · exact absurd hw (h.idle w id)
  · exact .inl rfl
  · exact absurd hw (hs.tracked.alive w)

/-- No task is left. -/
theorem Limits.Quiescent.done (h : l.Quiescent s) (hs : Sound l s) :
    ∀ f ∈ s.futures, f.done = true := by
  intro f hf
  obtain ⟨id, hid⟩ := mem_iff_getElem?.1 hf
  have htask : ∀ i, Item.task i ∉ s.queue := by
    intro i hi
    rcases h.worker hs ⟨0, l.workers_pos⟩ with hw | ⟨-, hq⟩
    · cases hs.tokens.ended _ hw _ hi
    · rw [hq] at hi
      cases hi
  rcases f with _ | _ | _ | _ | _
  · rcases hs.tracked.kept id hid with hq | ⟨w, hw⟩ | hc
    · exact absurd hq (htask id)
    · rcases h.worker hs w with hw' | ⟨hw', -⟩ <;> cases hw.symm.trans hw'
    · rw [h.ended] at hc
      cases hc
  · obtain ⟨w, hw⟩ := hs.tracked.ran id hid
    exact absurd hw (h.idle w id)
  all_goals rfl

/-- A worker waits exactly when a stop token was refused. -/
theorem Limits.Quiescent.workers_iff (h : l.Quiescent s) (hs : Sound l s) :
    (∀ w, s.workers w ≠ .waiting) ↔ s.refused = false := by
  have hput := hs.tokens.put
  have hbalance := hs.tokens.balance
  rw [TokensPut, h.ended] at hput
  dsimp only at hput
  constructor
  · intro hall
    have hstopped : s.stopped = l.maxWorkers := by
      have hfilter : (Finset.univ.filter fun w => s.workers w = .stopped) = Finset.univ :=
        Finset.filter_true_of_mem fun w _ => (h.worker hs w).resolve_right fun hw => hall w hw.1
      rw [Pool.stopped, hfilter, Finset.card_univ, Fintype.card_fin]
    by_contra hrefused
    rw [Bool.not_eq_false] at hrefused
    rw [if_pos hrefused] at hput
    omega
  · intro hrefused w hw
    rw [hrefused] at hput
    have hq := ((h.worker hs w).resolve_left fun hw' => by cases hw.symm.trans hw').2
    rw [hq, count_nil, Nat.zero_add] at hbalance
    have hcard : (Finset.univ.filter fun w => s.workers w = .stopped).card =
        (Finset.univ : Finset (Fin l.maxWorkers)).card := by
      rw [Finset.card_univ, Fintype.card_fin]
      exact hbalance.trans hput
    have hfilter := Finset.eq_of_subset_of_card_le (Finset.filter_subset _ _) hcard.ge
    have hmem : w ∈ Finset.univ.filter fun w => s.workers w = .stopped := by
      rw [hfilter]
      exact Finset.mem_univ w
    cases hw.symm.trans (Finset.mem_filter.1 hmem).2

end Quiescent

/-- The executor finishes every task, and every worker unless a stop token has
    found the queue full. -/
theorem finishes_iff (l : Limits) (s : Pool l.maxWorkers) (h : l.system.Reachable s) :
    l.Finishes s ↔ (l.Quiescent s → s.refused = false) := by
  have hs := sound_of_reachable h
  constructor
  · exact fun hf hq => (hq.workers_iff hs).1 (hf.workers hq)
  · exact fun hr => ⟨hs.tracked.once, fun hq => hq.done hs, fun hq => (hq.workers_iff hs).2 (hr hq)⟩

/-- Tasks are taken in their order, each by one worker; and one that has not run is
    in the queue, with a worker, or being cancelled. -/
theorem tasks_in_order (l : Limits) (s : Pool l.maxWorkers) (h : l.system.Reachable s) :
    (∀ w id, (s.workers w).holds = some id → (∀ id', .task id' ∈ s.queue → id < id') ∧
      ∀ w', (s.workers w').holds = some id → w = w') ∧
    ∀ id, s.futures[id]? = some .pending →
      .task id ∈ s.queue ∨ (∃ w, s.workers w = .taken id) ∨ s.shutdown = some (.cancelling id) :=
  let ht := (sound_of_reachable h).tracked
  ⟨fun w id hw => ⟨ht.older w id hw, fun w' => ht.apart w w' id hw⟩, ht.kept⟩

/-! ## One worker -/

/-- One worker, and one task at a time in the queue. -/
def single : Limits := ⟨1, 1, by decide, by decide⟩

/-- The one worker -/
def only : Fin single.maxWorkers := ⟨0, single.workers_pos⟩

/-- A task that runs and another that waits, while the executor shuts down. -/
def fullAtShutdown : List (Event single.maxWorkers) :=
  [.submit, .take only, .start only, .submit, .shutdown false, .putStop, .finish only, .take only, .start only,
    .finish only]

/-- The worker waits for ever: its stop token has found the waiting task. -/
theorem fullAtShutdown_not_finishes :
    ¬ ∀ (l : Limits) (s : Pool l.maxWorkers), l.system.Reachable s → l.Finishes s := by
  intro h
  obtain ⟨s, hs, hworker, hqueue, hended⟩ : ∃ s ∈ fullAtShutdown.foldlM (Pool.next single) {},
      s.workers only = .waiting ∧ s.queue = [] ∧ s.shutdown = some .ended := by
    decide +kernel
  have hreach : single.system.Reachable s := .foldlM (.init rfl) hs
  have hworkers : ∀ w, s.workers w = .waiting := fun w => by
    rw [Subsingleton.elim (α := Fin 1) w only]
    exact hworker
  refine (h single s hreach).workers ⟨?_, ?_, ?_⟩ only hworker
  · rw [hended]
    decide
  · intro w id hw
    cases (hworkers w).symm.trans hw
  · intro e he
    cases e with
    | take w =>
      rw [Pool.next, if_pos (hworkers w), Pool.takeItem, hqueue]
    | start w =>
      rw [Pool.next, hworkers w]
    | drain =>
      rw [Pool.next, if_neg (by rw [hended]; decide)]
    | cancelDrained | putStop =>
      rw [Pool.next, hended]
    | _ => cases he

/-- One task, and then the shutdown. -/
def idleAtShutdown : List (Event single.maxWorkers) :=
  [.submit, .take only, .start only, .finish only, .shutdown true, .drain, .putStop, .putStop, .take only]

theorem idleAtShutdown_finishes :
    ∃ s, idleAtShutdown.foldlM (Pool.next single) {} = some s ∧ s.refused = false ∧
      single.Finishes s := by
  obtain ⟨s, hs, hrefused⟩ : ∃ s ∈ idleAtShutdown.foldlM (Pool.next single) {},
      s.refused = false := by
    decide +kernel
  have hreach : single.system.Reachable s := .foldlM (.init rfl) hs
  exact ⟨s, hs, hrefused, (finishes_iff single s hreach).2 fun _ => hrefused⟩

/-- The worker has taken the first of two tasks. -/
theorem tasks_in_order_two : ∃ s, single.system.Reachable s ∧ (s.workers only).holds = some 0 ∧
    ∀ id', .task id' ∈ s.queue → 0 < id' := by
  obtain ⟨s, hs, hw⟩ : ∃ s ∈ [Event.submit, .take only, .submit].foldlM (Pool.next single) {},
      (s.workers only).holds = some 0 := by
    decide
  have hreach : single.system.Reachable s := .foldlM (.init rfl) hs
  exact ⟨s, hreach, hw, ((tasks_in_order single s hreach).1 only 0 hw).1⟩

end ReticulumPi.Executor
