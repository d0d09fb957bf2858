import Mathlib.Data.Finset.Card
import ReticulumPi.Lib.Transition

/-!
# The resources of a plugin

A plugin registers how each resource it acquires is undone, and
`cleanup_managed_resources` undoes them, the newest first, each on a thread of its own
for which it waits no longer than a deadline. A registration that comes too late undoes
its resource itself. The blocks under `_cleanup_lock` and `_lifecycle_lock` are atomic,
and any number of registrations, cleanups and of the threads they start are in progress
between them.

Resources are numbered in the order in which their registration begins. How long a
thread takes is not said: whoever waits for one may stop waiting at any time.

The functions that a cleanup starts its threads with have their own callback, but share
`done` and `failure` with the cleanup itself: a thread that comes to its end reports to
whichever wait is in progress then. Those of a late registration are its own.

The lists `enlisted`, `begun`, `abandoned` and `released` are not fields of the source,
but a record of what has happened, the latest first. That a plugin undoes a resource by
itself, as with `link.teardown()`, changes nothing else.
-/

namespace ReticulumPi.Plugin.Cleanup

/-- The keys of `_managed_resource_counts`. -/
inductive Kind
  | links
  | destinations
  | requestHandlers
deriving DecidableEq

/-- Where the undoing of a resource stands. -/
inductive Phase
  | absent
  /-- Its registration has not come to `_cleanup_lock` yet. -/
  | entering
  /-- It is in `_managed_cleanups`. -/
  | pending
  /-- It is among the `callbacks` of a cleanup. -/
  | taken
  /-- Its registration found that the cleanup is complete. -/
  | late
  /-- A thread was started to undo it. -/
  | started
  | undoing
  /-- Its cleanup has returned or raised. -/
  | undone
  /-- `_cleanup_and_account` has taken it off the count. -/
  | finished
  /-- What it raised is in `failure`. -/
  | reported
  /-- The thread has set `done`. -/
  | signalled
deriving DecidableEq

namespace Phase

/-- The cleanup of the resource has been called. -/
def acted : Phase → Bool
  | undoing | undone | finished | reported | signalled => true
  | _ => false

end Phase

/-- The cleanup of the resource has come to an end. -/
def Phase.over : Phase → Bool
  | finished | reported | signalled => true
  | _ => false

/-- A call of `cleanup_managed_resources` that has work: what it found, the newest first,
    what it has yet to start, and for which thread it waits. -/
structure Cleaner where
  batch : List ℕ
  todo : List ℕ
  waiting : Option ℕ := none
  done : Bool := false
  /-- Whether `failure` has something. -/
  failure : Bool := false

structure Registry where
  /-- How many resources there are. -/
  size : ℕ := 0
  kind : ℕ → Option Kind := fun _ => none
  phase : ℕ → Phase := fun _ => .absent
  /-- Whether the cleanup of a resource has raised. -/
  raised : ℕ → Bool := fun _ => false
  /-- The cleanup that has started the thread of a resource. -/
  owner : ℕ → Option ℕ := fun _ => none
  /-- `_managed_resource_counts` -/
  counts : Kind → ℕ := fun _ => 0
  /-- `_managed_cleanups` -/
  managed : List ℕ := []
  /-- `_cleanup_complete` -/
  complete : Bool := false
  /-- `_cleanup_failures_total` -/
  failures : ℕ := 0
  nextCleaner : ℕ := 0
  cleaner : ℕ → Option Cleaner := fun _ => none
  /-- The late registrations that wait for the thread they have started. -/
  lateCalls : List ℕ := []
  enlisted : List ℕ := []
  begun : List ℕ := []
  abandoned : List ℕ := []
  released : List ℕ := []

namespace Registry

variable (s : Registry) (r : ℕ)

def setPhase (p : Phase) : Registry :=
  { s with phase := Function.update s.phase r p }

/-- The block of `_register_resource_cleanup` under `_lifecycle_lock`, for a kind that is
    counted; the registration of anything else begins here too. -/
def register (kind : Option Kind) : Registry :=
  { s.setPhase s.size .entering with
    size := s.size + 1
    kind := Function.update s.kind s.size kind
    counts := fun k => if kind = some k then s.counts k + 1 else s.counts k }

/-- The block of `register_cleanup` under `_cleanup_lock`. -/
def enlist : Registry :=
  if s.complete then s.setPhase r .late
  else
    { s.setPhase r .pending with
      managed := s.managed ++ [r]
      enlisted := r :: s.enlisted }

/-- The block of `cleanup_managed_resources` under `_cleanup_lock`. -/
def cleanUp : Registry :=
  if s.complete then s
  else
    { s with
      complete := true
      phase := fun r => if r ∈ s.managed then .taken else s.phase r
      nextCleaner := s.nextCleaner + 1
      cleaner := Function.update s.cleaner s.nextCleaner
        (some { batch := s.managed.reverse, todo := s.managed.reverse })
      managed := [] }

/-- The cleanup `c`, with what it does next. -/
def setCleaner (c : ℕ) (x : Cleaner) : Registry :=
  { s with cleaner := Function.update s.cleaner c (some x) }

/-- A cleanup starts the thread for `r`, with `done` and `failure` for it. -/
def start (c r : ℕ) (x : Cleaner) (todo : List ℕ) : Registry :=
  { (s.setPhase r .started).setCleaner c { batch := x.batch, todo, waiting := some r } with
    owner := Function.update s.owner r (some c) }

/-- The `done.wait` of a cleanup for the thread of `r` returns. -/
def stopWaiting (c r : ℕ) (x : Cleaner) : Registry :=
  { s.setCleaner c { x with waiting := none } with
    failures := if x.done && !x.failure then s.failures else s.failures + 1
    abandoned := if x.done then s.abandoned else r :: s.abandoned }

/-- That of a late registration returns. -/
def leave : Registry :=
  { s with
    failures := if s.phase r = .signalled ∧ s.raised r = false then s.failures
      else s.failures + 1
    lateCalls := s.lateCalls.erase r }

/-- The end of `_cleanup_and_account`. -/
def account : Registry :=
  { s.setPhase r .finished with
    counts := fun k => if s.kind r = some k then s.counts k - 1 else s.counts k }

/-- Something that a thread does to the cleanup that has started it. -/
def tell (f : Cleaner → Cleaner) : Registry :=
  { s with
    cleaner := fun c => if s.owner r = some c then (s.cleaner c).map f else s.cleaner c }

/-- What a thread does with what its callback has raised. -/
def report : Registry :=
  (s.setPhase r .reported).tell r fun x => { x with failure := x.failure || s.raised r }

/-- The `done.set()` of a thread. -/
def signal : Registry :=
  (s.setPhase r .signalled).tell r fun x => { x with done := true }

end Registry

/-- What can happen next. -/
inductive Event
  | register (kind : Option Kind)
  | enlist (r : ℕ)
  /-- A late registration starts its thread. -/
  | startLate (r : ℕ)
  /-- A late registration stops waiting, and raises. -/
  | leave (r : ℕ)
  | cleanUp
  /-- A cleanup starts the thread for the next resource. -/
  | startNext (c : ℕ)
  /-- A cleanup stops waiting for the thread. -/
  | waited (c : ℕ)
  /-- The thread calls the cleanup of its resource, which returns or raises. -/
  | undo (r : ℕ)
  | undone (r : ℕ) (raised : Bool)
  | account (r : ℕ)
  | report (r : ℕ)
  | signal (r : ℕ)
  /-- The plugin undoes the resource itself. -/
  | release (r : ℕ)
  | markStarting

/-- The effect of an event, where it is possible. -/
def Registry.next (s : Registry) : Event → Option Registry
  | .register kind => some (s.register kind)
  | .enlist r => if s.phase r = .entering then some (s.enlist r) else none
  | .startLate r =>
    if s.phase r = .late then some { s.setPhase r .started with lateCalls := r :: s.lateCalls }
    else none
  | .leave r => if r ∈ s.lateCalls then some (s.leave r) else none
  | .cleanUp => some s.cleanUp
  | .startNext c =>
    match s.cleaner c with
    | none => none
    | some x =>
      match x.waiting, x.todo with
      | none, r :: todo => some (s.start c r x todo)
      | _, _ => none
  | .waited c =>
    match s.cleaner c with
    | none => none
    | some x =>
      match x.waiting with
      | some r => some (s.stopWaiting c r x)
      | none => none
  | .undo r =>
    if s.phase r = .started then some { s.setPhase r .undoing with begun := r :: s.begun }
    else none
  | .undone r raised =>
    if s.phase r = .undoing then
      some { s.setPhase r .undone with raised := Function.update s.raised r raised }
    else none
  | .account r => if s.phase r = .undone then some (s.account r) else none
  | .report r => if s.phase r = .finished then some (s.report r) else none
  | .signal r => if s.phase r = .reported then some (s.signal r) else none
  | .release r =>
    if r < s.size then some { s with released := r :: s.released } else none
  | .markStarting => some { s with complete := false }

/-- The plugin is constructed without resources. -/
def system : Transition Registry Event := .ofNext (· = {}) Registry.next

end ReticulumPi.Plugin.Cleanup
