import Mathlib.Data.Finset.Fin
import Mathlib.Data.Fintype.Card
import Mathlib.Data.List.Pairwise
import ReticulumPi.Lib.Transition

/-!
# The bounded executor

`BoundedDaemonExecutor` has a fixed number of workers, which take tasks from a
queue of bounded length. `shutdown` lets no further task in, takes the waiting
tasks out if it is asked to, and puts a stop token into the queue for each
worker, behind the tasks; a worker that takes one ends.

A step is one operation on the queue or on a future, each of which is atomic:
that of `submit`, under the lock with the test for the shutdown, those of the
workers, and those of the thread that shuts down. A function may run for any
time. Futures are those of `concurrent.futures`, and may be cancelled by anyone
at any time.

A task is the number of its future.
-/

namespace ReticulumPi.Executor

open List

/-! ## Futures -/

/-- The state of a `Future`. -/
inductive FutureState where
  | pending
  | running
  | cancelled
  | cancelledAndNotified
  | finished
deriving DecidableEq

namespace FutureState

/-- `cancel` -/
def cancel : FutureState → FutureState
  | pending => cancelled
  | f => f

/-- `set_running_or_notify_cancel`: the state afterwards, and what is returned;
    `none` where it raises. -/
def setRunningOrNotifyCancel : FutureState → Option (FutureState × Bool)
  | pending => some (running, true)
  | cancelled => some (cancelledAndNotified, false)
  | _ => none

/-- `done()` -/
def done : FutureState → Bool
  | pending | running => false
  | cancelled | cancelledAndNotified | finished => true

end FutureState

/-! ## The pool -/

/-- The limits, which have been checked. -/
structure Limits where
  maxWorkers : ℕ
  maxPending : ℕ
  workers_pos : 0 < maxWorkers
  pending_pos : 0 < maxPending

/-- An element of the queue. -/
inductive Item where
  | task (id : ℕ)
  | stop
deriving DecidableEq

/-- Where a worker is. -/
inductive WorkerPc where
  /-- at `get` -/
  | waiting
  /-- It has taken a task. -/
  | taken (id : ℕ)
  /-- The function runs. -/
  | running (id : ℕ)
  /-- It has taken a stop token. -/
  | stopped
  /-- An exception has ended it. -/
  | died
deriving DecidableEq

/-- Where `shutdown` is. -/
inductive ShutdownPc where
  /-- It takes the waiting tasks out. -/
  | draining
  /-- It has taken one out, to cancel it. -/
  | cancelling (id : ℕ)
  /-- It has so many stop tokens left to put. -/
  | stopping (left : ℕ)
  /-- It has returned, or only joins the workers. -/
  | ended
deriving DecidableEq

/-- The state of the executor with `n` workers. -/
structure Pool (n : ℕ) where
  queue : List Item := []
  /-- The futures that were returned, the oldest first. -/
  futures : List FutureState := []
  workers : Fin n → WorkerPc := fun _ => .waiting
  /-- `none` before `shutdown` is called. -/
  shutdown : Option ShutdownPc := none
  /-- The tasks whose functions were called. -/
  called : List ℕ := []
  /-- The stop tokens that were put. -/
  tokens : ℕ := 0
  /-- A stop token found the queue full. -/
  refused : Bool := false

inductive Event (n : ℕ) where
  | submit
  /-- `cancel` of a future -/
  | cancel (id : ℕ)
  /-- `get` -/
  | take (w : Fin n)
  /-- `set_running_or_notify_cancel`, and the call of the function -/
  | start (w : Fin n)
  /-- The function has ended, with a result or with an exception, which is set. -/
  | finish (w : Fin n)
  /-- `shutdown` is called. -/
  | shutdown (cancelFutures : Bool)
  /-- `get_nowait` of `shutdown` -/
  | drain
  /-- `cancel` of what it has got -/
  | cancelDrained
  /-- `put_nowait` of a stop token -/
  | putStop

namespace Pool

variable {n : ℕ} (s : Pool n)

def setWorker (w : Fin n) (pc : WorkerPc) : Pool n :=
  { s with workers := Function.update s.workers w pc }

def setFuture (id : ℕ) (f : FutureState) : Pool n := { s with futures := s.futures.set id f }

/-- `future.cancel()` -/
def cancelFuture (id : ℕ) : Pool n := { s with futures := s.futures.modify id FutureState.cancel }

/-- A worker takes an item. -/
def takeItem (w : Fin n) : Option (Pool n) :=
  match s.queue with
  | .task id :: queue => some ({ s with queue := queue }.setWorker w (.taken id))
  | .stop :: queue => some ({ s with queue := queue }.setWorker w .stopped)
  | [] => none

/-- A worker begins with the task that it has taken. -/
def startTask (w : Fin n) (id : ℕ) : Pool n :=
  match (s.futures[id]?).bind FutureState.setRunningOrNotifyCancel with
  | some (f, true) => { (s.setFuture id f).setWorker w (.running id) with called := id :: s.called }
  | some (f, false) => (s.setFuture id f).setWorker w .waiting
  | none => s.setWorker w .died

/-- `shutdown` takes an item out. -/
def drainItem : Pool n :=
  match s.queue with
  | .task id :: queue => { s with queue := queue, shutdown := some (.cancelling id) }
  | .stop :: queue => { s with queue := queue }
  | [] => { s with shutdown := some (.stopping n) }

/-- `shutdown` puts a stop token, and stops putting them when the queue is full. -/
def putToken (l : Limits) (left : ℕ) : Pool n :=
  if s.queue.length < l.maxPending then
    { s with queue := s.queue ++ [.stop], tokens := s.tokens + 1
             shutdown := some (.stopping left) }
  else { s with shutdown := some .ended, refused := true }

/-- A step, `none` where it cannot happen. -/
def next (l : Limits) : Pool n → Event n → Option (Pool n)
  | s, .submit =>
    -- Otherwise `submit` raises, and there is no future.
    if s.shutdown = none ∧ s.queue.length < l.maxPending then
      some { s with
        queue := s.queue ++ [.task s.futures.length]
        futures := s.futures ++ [.pending] }
    else none
  | s, .cancel id => some (s.cancelFuture id)
  | s, .take w => if s.workers w = .waiting then s.takeItem w else none
  | s, .start w =>
    match s.workers w with
    | .taken id => some (s.startTask w id)
    | _ => none
  | s, .finish w =>
    match s.workers w with
    | .running id => some ((s.setFuture id .finished).setWorker w .waiting)
    | _ => none
  | s, .shutdown cancelFutures =>
    if s.shutdown = none then
      some { s with shutdown := some (if cancelFutures then .draining else .stopping n) }
    else none
  | s, .drain => if s.shutdown = some .draining then some s.drainItem else none
  | s, .cancelDrained =>
    match s.shutdown with
    | some (.cancelling id) => some { s.cancelFuture id with shutdown := some .draining }
    | _ => none
  | s, .putStop =>
    match s.shutdown with
    | some (.stopping (left + 1)) => some (s.putToken l left)
    | some (.stopping 0) => some { s with shutdown := some .ended }
    | _ => none

end Pool

/-- The runs of the executor. -/
def Limits.system (l : Limits) : Transition (Pool l.maxWorkers) (Event l.maxWorkers) :=
  .ofNext (· = {}) (Pool.next l)

/-! ## What is claimed of it -/

/-- The steps of the workers and of the thread that shuts down. -/
def Event.ofThread {n : ℕ} : Event n → Bool
  | .take _ | .start _ | .drain | .cancelDrained | .putStop => true
  | .submit | .cancel _ | .finish _ | .shutdown _ => false

/-- No submitted function is running, and no thread of the executor can make a
    step, after `shutdown`. -/
structure Limits.Quiescent (l : Limits) (s : Pool l.maxWorkers) : Prop where
  called : s.shutdown ≠ none
  idle : ∀ w id, s.workers w ≠ .running id
  stuck : ∀ e : Event l.maxWorkers, e.ofThread = true → s.next l e = none

/-- Each function is called at most once, and in the end every future is done and
    no worker is left waiting. -/
structure Limits.Finishes (l : Limits) (s : Pool l.maxWorkers) : Prop where
  once : s.called.Nodup
  futures : l.Quiescent s → ∀ f ∈ s.futures, f.done = true
  workers : l.Quiescent s → ∀ w, s.workers w ≠ .waiting

/-! ## Tasks -/

/-- The task that a worker has. -/
def WorkerPc.holds : WorkerPc → Option ℕ
  | .taken id | .running id => some id
  | _ => none

/-- The function of the future has not been called, and no worker has been told
    that it is cancelled. -/
def Waits (futures : List FutureState) (id : ℕ) : Prop :=
  futures[id]? = some .pending ∨ futures[id]? = some .cancelled

/-- Each task is in one place, as its future says. -/
structure Tracked {n : ℕ} (s : Pool n) : Prop where
  ordered : s.queue.Pairwise fun a b => ∀ i j, a = .task i → b = .task j → i < j
  queued : ∀ id, .task id ∈ s.queue → Waits s.futures id
  taken : ∀ w id, s.workers w = .taken id → Waits s.futures id
  running : ∀ w id, s.workers w = .running id → s.futures[id]? = some .running
  older : ∀ w id, (s.workers w).holds = some id → ∀ id', .task id' ∈ s.queue → id < id'
  apart : ∀ w w' id, (s.workers w).holds = some id → (s.workers w').holds = some id → w = w'
  kept : ∀ id, s.futures[id]? = some .pending → .task id ∈ s.queue ∨
    (∃ w, s.workers w = .taken id) ∨ s.shutdown = some (.cancelling id)
  ran : ∀ id, s.futures[id]? = some .running → ∃ w, s.workers w = .running id
  once : s.called.Nodup
  called : ∀ id ∈ s.called, s.futures[id]? = some .running ∨ s.futures[id]? = some .finished
  alive : ∀ w, s.workers w ≠ .died

section Tracking

variable {n : ℕ} {s s' : Pool n} {futures : List FutureState} {id id' : ℕ} {w w' : Fin n}
  {pc : WorkerPc} {queue : List Item}

theorem Waits.lt (h : Waits futures id) : id < futures.length := by
  rcases h with h | h <;> exact (List.getElem?_eq_some_iff.1 h).1

theorem getElem?_cancel : (futures.modify id FutureState.cancel)[id']? =
    if id = id' then (futures[id']?).map FutureState.cancel else futures[id']? := by
  rw [getElem?_modify]
  split_ifs <;> simp

theorem waits_cancel (h : Waits futures id') :
    Waits (futures.modify id FutureState.cancel) id' := by
  rw [Waits, getElem?_cancel]
  split_ifs
  · rcases h with h | h <;> rw [h] <;> exact .inr rfl
  · exact h

/-- Cancelling leaves alone what is not pending. -/
theorem getElem?_cancel_of_ne {f : FutureState} (hf : f ≠ .pending) (hc : f ≠ .cancelled) :
    (futures.modify id FutureState.cancel)[id']? = some f ↔ futures[id']? = some f := by
  rw [getElem?_cancel]
  split_ifs
  · rcases futures[id']? with _ | g
    · simp
    · cases g <;> simp [FutureState.cancel, eq_comm, hf, hc]
  · exact Iff.rfl

theorem pending_of_cancel (h : (futures.modify id FutureState.cancel)[id']? = some .pending) :
    futures[id']? = some .pending := by
  rw [getElem?_cancel] at h
  split_ifs at h
  · rcases hf : futures[id']? with _ | g
    · rw [hf] at h
      cases h
    · rw [hf] at h
      cases g <;> cases h
  · exact h

/-- A future is cancelled, and `shutdown` may go on. -/
theorem Tracked.cancel (h : Tracked s) (id : ℕ) (pc : Option ShutdownPc)
    (hpc : pc = s.shutdown ∨ s.shutdown = some (.cancelling id)) :
    Tracked { s.cancelFuture id with shutdown := pc } where
  ordered := h.ordered
  queued := fun id' hq => waits_cancel (h.queued id' hq)
  taken := fun w id' hw => waits_cancel (h.taken w id' hw)
  running := fun w id' hw => (getElem?_cancel_of_ne (by decide) (by decide)).2 (h.running w id' hw)
  older := h.older
  apart := h.apart
  kept := by
    intro id' hp
    refine (h.kept id' (pending_of_cancel hp)).imp_right fun hk => hk.imp_right fun hs => ?_
    rcases hpc with rfl | hid
    · exact hs
    · -- What is drained is no longer pending.
      obtain rfl : id = id' := by
        rw [hid] at hs
        cases hs
        rfl
      have hp : (s.futures.modify id .cancel)[id]? = some .pending := hp
      rw [getElem?_cancel, if_pos rfl, Option.map_eq_some_iff] at hp
      obtain ⟨f, -, hf⟩ := hp
      cases f <;> cases hf
  ran := fun id' hr => h.ran id' ((getElem?_cancel_of_ne (by decide) (by decide)).1 hr)
  once := h.once
  called := fun id' hc => (h.called id' hc).imp
    (getElem?_cancel_of_ne (by decide) (by decide)).2
    (getElem?_cancel_of_ne (by decide) (by decide)).2
  alive := h.alive

/-- A task is put at the end of the queue. -/
theorem Tracked.submit (h : Tracked s) :
    Tracked { s with
      queue := s.queue ++ [.task s.futures.length], futures := s.futures ++ [.pending] } where
  ordered := by
    rw [pairwise_append]
    refine ⟨h.ordered, pairwise_singleton _ _, fun a ha b hb i j hi hj => ?_⟩
    subst hi
    rw [mem_singleton] at hb
    cases hb.symm.trans hj
    exact (h.queued i ha).lt
  queued := by
    intro id hq
    rcases mem_append.1 hq with hq | hq
    · have hlt := (h.queued id hq).lt
      rw [Waits, getElem?_append_left hlt]
      exact h.queued id hq
    · cases mem_singleton.1 hq
      exact .inl (by simp)
  taken := by
    intro w id hw
    rw [Waits, getElem?_append_left (h.taken w id hw).lt]
    exact h.taken w id hw
  running := by
    intro w id hw
    have hr := h.running w id hw
    rw [getElem?_append_left (List.getElem?_eq_some_iff.1 hr).1]
    exact hr
  older := by
    intro w id hw id' hq
    rcases mem_append.1 hq with hq | hq
    · exact h.older w id hw id' hq
    · cases mem_singleton.1 hq
      rcases hpc : s.workers w with _ | id₁ | id₁ | _ | _
      all_goals rw [hpc] at hw; cases hw
      · exact (h.taken w _ hpc).lt
      · exact (List.getElem?_eq_some_iff.1 (h.running w _ hpc)).1
  apart := h.apart
  kept := by
    intro id hp
    rcases Nat.lt_or_ge id s.futures.length with hlt | hge
    · rw [getElem?_append_left hlt] at hp
      exact (h.kept id hp).imp_left fun hq => mem_append_left _ hq
    · rw [getElem?_append_right hge] at hp
      have hid : id - s.futures.length < 1 := (List.getElem?_eq_some_iff.1 hp).1
      obtain rfl : id = s.futures.length := by omega
      exact .inl (mem_append_right _ mem_cons_self)
  ran := by
    intro id hr
    rcases Nat.lt_or_ge id s.futures.length with hlt | hge
    · rw [getElem?_append_left hlt] at hr
      exact h.ran id hr
    · rw [getElem?_append_right hge, getElem?_singleton] at hr
      split_ifs at hr
      cases hr
  once := h.once
  called := by
    intro id hc
    have hf := h.called id hc
    have hlt : id < s.futures.length := by
      rcases hf with hf | hf <;> exact (List.getElem?_eq_some_iff.1 hf).1
    rwa [getElem?_append_left hlt]
  alive := h.alive

/-- The queue gets shorter, or gets a stop token, and `shutdown` goes on. -/
theorem Tracked.requeue (h : Tracked s) (hf : s'.futures = s.futures)
    (hw : s'.workers = s.workers) (hc : s'.called = s.called)
    (hord : s'.queue.Pairwise fun a b => ∀ i j, a = .task i → b = .task j → i < j)
    (hsub : ∀ id, .task id ∈ s'.queue → .task id ∈ s.queue)
    (hkept : ∀ id, .task id ∈ s.queue ∨ s.shutdown = some (.cancelling id) →
      .task id ∈ s'.queue ∨ s'.shutdown = some (.cancelling id)) : Tracked s' where
  ordered := hord
  queued := fun id hq => hf ▸ h.queued id (hsub id hq)
  taken := fun w id ht => hf ▸ h.taken w id (hw ▸ ht)
  running := fun w id hr => hf ▸ h.running w id (hw ▸ hr)
  older := fun w id hh id' hq => h.older w id (hw ▸ hh) id' (hsub id' hq)
  apart := fun w w' id hh hh' => h.apart w w' id (hw ▸ hh) (hw ▸ hh')
  kept := by
    intro id hp
    rw [hf] at hp
    rw [hw]
    rcases h.kept id hp with hq | ht | hs
    · exact (hkept id (.inl hq)).imp_right .inr
    · exact .inr (.inl ht)
    · exact (hkept id (.inr hs)).imp_right .inr
  ran := fun id hr => hw ▸ h.ran id (hf ▸ hr)
  once := hc ▸ h.once
  called := fun id hid => hf ▸ h.called id (hc ▸ hid)
  alive := fun w => hw ▸ h.alive w

theorem holds_update : ((Function.update s.workers w pc) w').holds =
    if w' = w then pc.holds else (s.workers w').holds := by
  rw [Function.update_apply]
  split_ifs <;> rfl

/-- A worker takes a task. -/
theorem Tracked.take (h : Tracked s) (hpc : s.workers w = .waiting)
    (hq : s.queue = .task id :: queue) :
    Tracked ({ s with queue := queue }.setWorker w (.taken id)) := by
  have hord := h.ordered
  rw [hq, pairwise_cons] at hord
  have hsub : ∀ i, .task i ∈ queue → .task i ∈ s.queue := fun i hi => by
    rw [hq]
    exact mem_cons_of_mem _ hi
  have hid : .task id ∈ s.queue := by
    rw [hq]
    exact mem_cons_self
  -- Whoever has a task got it before.
  have hne : ∀ w' i, (s.workers w').holds = some i → i ≠ id := fun w' i hw hi =>
    absurd (h.older w' i hw id hid) (by rw [hi]; exact lt_irrefl _)
  refine ⟨hord.2, fun i hi => h.queued i (hsub i hi), fun w' i hw => ?_, fun w' i hw => ?_,
    fun w' i hw i' hi' => ?_, fun w' w'' i hw' hw'' => ?_, fun i hp => ?_, fun i hr => ?_,
    h.once, h.called, fun w' hw => ?_⟩
  · change Function.update s.workers w _ w' = _ at hw
    rw [Function.update_apply] at hw
    split_ifs at hw with heq
    · cases hw
      exact h.queued id hid
    · exact h.taken w' i hw
  · change Function.update s.workers w _ w' = _ at hw
    rw [Function.update_apply] at hw
    split_ifs at hw
    exact h.running w' i hw
  · change ((Function.update s.workers w _) w').holds = _ at hw
    rw [holds_update] at hw
    split_ifs at hw with heq
    · cases hw
      exact hord.1 _ hi' id i' rfl rfl
    · exact h.older w' i hw i' (hsub i' hi')
  · change ((Function.update s.workers w _) w').holds = _ at hw'
    change ((Function.update s.workers w _) w'').holds = _ at hw''
    rw [holds_update] at hw' hw''
    split_ifs at hw' hw'' with h₁ h₂ h₂
    · rw [h₁, h₂]
    · cases hw'
      exact absurd rfl (hne w'' _ hw'')
    · cases hw''
      exact absurd rfl (hne w' _ hw')
    · exact h.apart w' w'' i hw' hw''
  · rcases h.kept i hp with hi | ⟨w', hw'⟩ | hs
    · rw [hq, mem_cons] at hi
      rcases hi with hi | hi
      · cases hi
        exact .inr (.inl ⟨w, Function.update_self _ _ _⟩)
      · exact .inl hi
    · refine .inr (.inl ⟨w', ?_⟩)
      have hw : w' ≠ w := fun heq => by
        rw [heq, hpc] at hw'
        cases hw'
      exact (Function.update_of_ne hw _ _).trans hw'
    · exact .inr (.inr hs)
  · obtain ⟨w', hw'⟩ := h.ran i hr
    have hw : w' ≠ w := fun heq => by
      rw [heq, hpc] at hw'
      cases hw'
    exact ⟨w', (Function.update_of_ne hw _ _).trans hw'⟩
  · change Function.update s.workers w _ w' = _ at hw
    rw [Function.update_apply] at hw
    split_ifs at hw
    exact h.alive w' hw

theorem update_cases {q : WorkerPc} (h : Function.update s.workers w pc w' = q) :
    w' = w ∧ pc = q ∨ w' ≠ w ∧ s.workers w' = q := by
  rw [Function.update_apply] at h
  split_ifs at h with heq
  · exact .inl ⟨heq, h⟩
  · exact .inr ⟨heq, h⟩

/-- A worker without a task takes a stop token. -/
theorem Tracked.stop (h : Tracked s) (hpc : s.workers w = .waiting)
    (hq : s.queue = .stop :: queue) :
    Tracked ({ s with queue := queue }.setWorker w .stopped) := by
  have hord := h.ordered
  rw [hq, pairwise_cons] at hord
  have hsub : ∀ i, .task i ∈ queue → .task i ∈ s.queue := fun i hi => by
    rw [hq]
    exact mem_cons_of_mem _ hi
  have hother : ∀ w' q, q ≠ .waiting → s.workers w' = q →
      Function.update s.workers w .stopped w' = q := fun w' q hne hw' => by
    refine (Function.update_of_ne (fun heq => hne ?_) _ _).trans hw'
    rw [← hw', heq, hpc]
  refine ⟨hord.2, fun i hi => h.queued i (hsub i hi), fun w' i hw => ?_, fun w' i hw => ?_,
    fun w' i hw i' hi' => ?_, fun w' w'' i hw' hw'' => ?_, fun i hp => ?_, fun i hr => ?_,
    h.once, h.called, fun w' hw => ?_⟩
  · rcases update_cases hw with ⟨-, hw⟩ | ⟨-, hw⟩
    · cases hw
    · exact h.taken w' i hw
  · rcases update_cases hw with ⟨-, hw⟩ | ⟨-, hw⟩
    · cases hw
    · exact h.running w' i hw
  · change ((Function.update s.workers w _) w').holds = _ at hw
    rw [holds_update] at hw
    split_ifs at hw
    · cases hw
    · exact h.older w' i hw i' (hsub i' hi')
  · change ((Function.update s.workers w _) w').holds = _ at hw'
    change ((Function.update s.workers w _) w'').holds = _ at hw''
    rw [holds_update] at hw' hw''
    split_ifs at hw' hw''
    · cases hw'
    · cases hw'
    · cases hw''
    · exact h.apart w' w'' i hw' hw''
  · rcases h.kept i hp with hi | ⟨w', hw'⟩ | hs
    · rw [hq, mem_cons] at hi
      exact .inl (hi.resolve_left fun heq => by cases heq)
    · exact .inr (.inl ⟨w', hother w' _ (by simp) hw'⟩)
    · exact .inr (.inr hs)
  · obtain ⟨w', hw'⟩ := h.ran i hr
    exact ⟨w', hother w' _ (by simp) hw'⟩
  · rcases update_cases hw with ⟨-, hw⟩ | ⟨-, hw⟩
    · cases hw
    · exact h.alive w' hw

theorem getElem?_set_of_ne {f : FutureState} (h : id' ≠ id) :
    (futures.set id f)[id']? = futures[id']? := getElem?_set_ne (Ne.symm h)

/-- What another worker has, or the queue, is another task. -/
theorem Tracked.ne_of_holds (h : Tracked s) (hw : (s.workers w).holds = some id) (hne : w' ≠ w)
    (hw' : (s.workers w').holds = some id') : id' ≠ id := by
  rintro rfl
  exact hne (h.apart w' w id' hw' hw)

/-- The function of a task is called. -/
theorem Tracked.start (h : Tracked s) (hpc : s.workers w = .taken id)
    (hf : s.futures[id]? = some .pending) :
    Tracked { (s.setFuture id .running).setWorker w (.running id) with called := id :: s.called } := by
  have hlt : id < s.futures.length := (List.getElem?_eq_some_iff.1 hf).1
  have hself : (s.futures.set id .running)[id]? = some .running := getElem?_set_self hlt
  have hholds : (s.workers w).holds = some id := by
    rw [hpc]
    rfl
  have hkeep : ∀ {i : ℕ} {f : FutureState}, i ≠ id → s.futures[i]? = some f →
      (s.futures.set id .running)[i]? = some f := fun hi hf => (getElem?_set_of_ne hi).trans hf
  refine ⟨h.ordered, fun i hi => ?_, fun w' i hw => ?_, fun w' i hw => ?_,
    fun w' i hw i' hi' => ?_, fun w' w'' i hw' hw'' => ?_, fun i hp => ?_, fun i hr => ?_,
    ?_, fun i hi => ?_, fun w' hw => ?_⟩
  · have hne : i ≠ id := (h.older w id hholds i hi).ne'
    exact (h.queued i hi).imp (hkeep hne) (hkeep hne)
  · rcases update_cases hw with ⟨-, hw⟩ | ⟨hne, hw⟩
    · cases hw
    · have hi : i ≠ id := h.ne_of_holds hholds hne (congrArg WorkerPc.holds hw)
      exact (h.taken w' i hw).imp (hkeep hi) (hkeep hi)
  · rcases update_cases hw with ⟨-, hw⟩ | ⟨hne, hw⟩
    · cases hw
      exact hself
    · exact hkeep (h.ne_of_holds hholds hne (congrArg WorkerPc.holds hw)) (h.running w' i hw)
  · change ((Function.update s.workers w _) w').holds = _ at hw
    rw [holds_update] at hw
    split_ifs at hw
    · cases hw
      exact h.older w id hholds i' hi'
    · exact h.older w' i hw i' hi'
  · have hsame : ∀ v, ((Function.update s.workers w (.running id)) v).holds =
        (s.workers v).holds := by
      intro v
      rw [holds_update]
      split_ifs with hv
      · rw [hv, hholds]
        rfl
      · rfl
    exact h.apart w' w'' i ((hsame w').symm.trans hw') ((hsame w'').symm.trans hw'')
  · have hi : i ≠ id := by
      rintro rfl
      cases hself.symm.trans hp
    rcases h.kept i ((getElem?_set_of_ne hi).symm.trans hp) with hq | ⟨w', hw'⟩ | hs
    · exact .inl hq
    · refine .inr (.inl ⟨w', (Function.update_of_ne (fun heq => hi ?_) _ _).trans hw'⟩)
      rw [heq, hpc] at hw'
      cases hw'
      rfl
    · exact .inr (.inr hs)
  · by_cases hi : i = id
    · subst hi
      exact ⟨w, Function.update_self _ _ _⟩
    · obtain ⟨w', hw'⟩ := h.ran i ((getElem?_set_of_ne hi).symm.trans hr)
      refine ⟨w', (Function.update_of_ne (fun heq => ?_) _ _).trans hw'⟩
      rw [heq, hpc] at hw'
      cases hw'
  · refine nodup_cons.2 ⟨fun hmem => ?_, h.once⟩
    rcases h.called id hmem with hc | hc <;> cases hf.symm.trans hc
  · rcases mem_cons.1 hi with rfl | hi'
    · exact .inl hself
    · have hcalled := h.called i hi'
      have hne : i ≠ id := by
        rintro rfl
        rcases hcalled with hc | hc <;> cases hf.symm.trans hc
      exact hcalled.imp (hkeep hne) (hkeep hne)
  · rcases update_cases hw with ⟨-, hw⟩ | ⟨-, hw⟩
    · cases hw
    · exact h.alive w' hw

/-- A worker is done with its task: the function has ended, or it is told that the
    future is cancelled. -/
theorem Tracked.release {f : FutureState} (h : Tracked s) (hholds : (s.workers w).holds = some id)
    (hf : f = .finished ∨ f = .cancelledAndNotified ∧ s.futures[id]? = some .cancelled) :
    Tracked ((s.setFuture id f).setWorker w .waiting) := by
  have hkeep : ∀ {i : ℕ} {g : FutureState}, i ≠ id → s.futures[i]? = some g →
      (s.futures.set id f)[i]? = some g := fun hi hg => (getElem?_set_of_ne hi).trans hg
  have hne : ∀ {i : ℕ} {g : FutureState}, g = .pending ∨ g = .running →
      (s.futures.set id f)[i]? = some g → i ≠ id := by
    rintro i g hg hi rfl
    have hlt : i < s.futures.length := by
      have := (List.getElem?_eq_some_iff.1 hi).1
      rwa [length_set] at this
    rw [getElem?_set_self hlt] at hi
    cases hi
    rcases hf with rfl | ⟨rfl, -⟩ <;> simp at hg
  refine ⟨h.ordered, fun i hi => ?_, fun w' i hw => ?_, fun w' i hw => ?_,
    fun w' i hw i' hi' => ?_, fun w' w'' i hw' hw'' => ?_, fun i hp => ?_, fun i hr => ?_,
    h.once, fun i hi => ?_, fun w' hw => ?_⟩
  · have hi' : i ≠ id := (h.older w id hholds i hi).ne'
    exact (h.queued i hi).imp (hkeep hi') (hkeep hi')
  · rcases update_cases hw with ⟨-, hw⟩ | ⟨hw', hw⟩
    · cases hw
    · have hi : i ≠ id := h.ne_of_holds hholds hw' (congrArg WorkerPc.holds hw)
      exact (h.taken w' i hw).imp (hkeep hi) (hkeep hi)
  · rcases update_cases hw with ⟨-, hw⟩ | ⟨hw', hw⟩
    · cases hw
    · exact hkeep (h.ne_of_holds hholds hw' (congrArg WorkerPc.holds hw)) (h.running w' i hw)
  · change ((Function.update s.workers w _) w').holds = _ at hw
    rw [holds_update] at hw
    split_ifs at hw
    · cases hw
    · exact h.older w' i hw i' hi'
  · change ((Function.update s.workers w _) w').holds = _ at hw'
    change ((Function.update s.workers w _) w'').holds = _ at hw''
    rw [holds_update] at hw' hw''
    split_ifs at hw' hw''
    · cases hw'
    · cases hw'
    · cases hw''
    · exact h.apart w' w'' i hw' hw''
  · have hi := hne (.inl rfl) hp
    rcases h.kept i ((getElem?_set_of_ne hi).symm.trans hp) with hq | ⟨w', hw'⟩ | hs
    · exact .inl hq
    · refine .inr (.inl ⟨w', (Function.update_of_ne (fun heq => hi ?_) _ _).trans hw'⟩)
      rw [← heq, hw'] at hholds
      exact Option.some.inj hholds
    · exact .inr (.inr hs)
  · have hi := hne (.inr rfl) hr
    obtain ⟨w', hw'⟩ := h.ran i ((getElem?_set_of_ne hi).symm.trans hr)
    refine ⟨w', (Function.update_of_ne (fun heq => hi ?_) _ _).trans hw'⟩
    rw [← heq, hw'] at hholds
    exact Option.some.inj hholds
  · by_cases hid : i = id
    · subst hid
      rcases hf with rfl | ⟨rfl, hc⟩
      · have hlt : i < s.futures.length := by
          rcases h.called i hi with hg | hg <;> exact (List.getElem?_eq_some_iff.1 hg).1
        exact .inr (getElem?_set_self hlt)
      · rcases h.called i hi with hg | hg <;> cases hc.symm.trans hg
    · exact (h.called i hi).imp (hkeep hid) (hkeep hid)
  · rcases update_cases hw with ⟨-, hw⟩ | ⟨-, hw⟩
    · cases hw
    · exact h.alive w' hw

end Tracking

end ReticulumPi.Executor
