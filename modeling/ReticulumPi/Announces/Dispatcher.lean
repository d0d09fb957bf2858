import ReticulumPi.Lib.Transition
import Mathlib.Algebra.Order.Ring.Rat

/-!
# The announce dispatcher

One handler receives all announces of the network and puts them into a shared
queue. The dispatcher takes them from there one by one, looks up who is
subscribed, and puts each announce into the mailboxes of those whose aspect
filter matches; every subscriber has a worker of its own that calls it for the
announces in its mailbox. A subscriber whose mailbox is full, or that is too slow
too often, is disabled for a while.

The threads interleave: an `Event` is a step of one of them, with the readings
of the clock it takes, and `State.next` what the step does. Of an identity
nothing is known but the hash that a name gets for it
(`Config.hashFromNameAndIdentity`, `none` if computing it raises).
-/

namespace ReticulumPi.Announces

/-- An announce as it is queued. -/
structure Announce (Identity : Type) where
  destinationHash : List (Fin 256)
  announcedIdentity : Option Identity := none
  appData : Option (List (Fin 256)) := none
  deriving DecidableEq

structure Config (Identity : Type) where
  maxQueue : ℤ := 10000
  /-- `_callback_deadline_s` -/
  callbackDeadline : ℚ := 1 / 2
  breakerThreshold : ℤ := 3
  breakerCooldown : ℚ := 60
  hashFromNameAndIdentity : String → Identity → Option (List (Fin 256))

/-- `_DEFAULT_SUBSCRIBER_QUEUE` -/
def subscriberQueue : ℤ := 64

/-- `queue.Queue.full` -/
def full (maxsize : ℤ) (size : ℕ) : Bool := 0 < maxsize ∧ maxsize ≤ size

variable {Identity : Type} (config : Config Identity)

/-- `_aspect_matches` -/
def Config.aspectMatches (aspectFilter : String) (a : Announce Identity) : Bool :=
  match a.announcedIdentity with
  | none => false
  | some identity => config.hashFromNameAndIdentity aspectFilter identity = some a.destinationHash

/-- The announce matches the filter; without a filter every announce does. -/
def Config.wants (aspectFilter : Option String) (a : Announce Identity) : Bool :=
  match aspectFilter with
  | none => true
  | some filter => config.aspectMatches filter a

/-! ## A subscriber -/

/-- Where the worker of a subscriber is. -/
inductive Worker (Identity : Type)
  /-- At the condition of its loop. -/
  | top
  | waiting
  /-- With an announce from the mailbox, and after it found the subscription active. -/
  | got (a : Announce Identity)
  | admitted (a : Announce Identity)
  /-- In the callback. -/
  | calling
  | ended
  deriving DecidableEq

/-- How far the subscription is stopped (`_stop_subscription`). -/
inductive Stopping
  | no
  /-- It has been taken out of the subscriptions. -/
  | removed
  | inactive
  | done
  deriving DecidableEq

/-- `_Subscription`, with its worker -/
structure Subscription (Identity : Type) where
  aspectFilter : Option String
  consecutiveTimeouts : ℕ := 0
  disabledUntil : ℚ := 0
  /-- The mailbox; `none` tells the worker to end. -/
  queue : List (Option (Announce Identity)) := []
  active : Bool := true
  worker : Worker Identity := .top
  stopping : Stopping := .no
  /-- The announces that had not been dispatched when the subscription began. -/
  waiting : List (Announce Identity)
  /-- The announces that have been enqueued while it was subscribed. -/
  enqueued : List (Announce Identity) := []
  /-- The announces that the callback has been called for. -/
  delivered : List (Announce Identity) := []

/-- What the worker does next. -/
inductive Work
  | loop
  | get
  /-- Nothing came in 0.2 seconds. -/
  | empty
  | consider
  | call (now : ℚ)
  /-- The callback returns, and the clock is read once more if the breaker trips. -/
  | finish (elapsed now : ℚ)
  | raise

variable (sub : Subscription Identity)

/-- `_subscriber_loop` -/
def Subscription.work : Work → Option (Subscription Identity)
  | .loop =>
    match sub.worker with
    | .top => some { sub with worker := if sub.active then .waiting else .ended }
    | _ => none
  | .get =>
    match sub.worker, sub.queue with
    | .waiting, none :: queue => some { sub with worker := .ended, queue := queue }
    | .waiting, some a :: queue => some { sub with worker := .got a, queue := queue }
    | _, _ => none
  | .empty =>
    match sub.worker, sub.queue with
    | .waiting, [] => some { sub with worker := .top }
    | _, _ => none
  | .consider =>
    match sub.worker with
    | .got a => some { sub with worker := if sub.active then .admitted a else .top }
    | _ => none
  | .call now =>
    match sub.worker with
    | .admitted a =>
      if now < sub.disabledUntil then some { sub with worker := .top }
      else some { sub with worker := .calling, delivered := sub.delivered ++ [a] }
    | _ => none
  | .finish elapsed now =>
    match sub.worker with
    | .calling =>
      if config.callbackDeadline < elapsed then
        some { sub with
          worker := .top
          consecutiveTimeouts := sub.consecutiveTimeouts + 1
          disabledUntil := if config.breakerThreshold ≤ (sub.consecutiveTimeouts + 1 : ℕ) then
            now + config.breakerCooldown else sub.disabledUntil }
      else some { sub with worker := .top, consecutiveTimeouts := 0 }
    | _ => none
  | .raise =>
    match sub.worker with
    | .calling => some { sub with worker := .top }
    | _ => none

/-- What the thread that stops a subscription does once it has taken it out. -/
def Subscription.stopStep : Option (Subscription Identity) :=
  match sub.stopping with
  | .removed => some { sub with active := false, stopping := .inactive }
  | .inactive =>
    some { sub with
      queue := if full subscriberQueue sub.queue.length then sub.queue else sub.queue ++ [none]
      stopping := .done }
  | _ => none

/-! ## The dispatcher -/

/-- The aspects that have been matched with the announce at hand (`matched_aspects`). -/
abbrev Matched := List (String × Bool)

/-- Where the dispatcher is; a subscriber is known by its identifier. -/
inductive Dispatcher (Identity : Type)
  | top
  | waiting
  /-- With an announce, before it looks up the subscribers. -/
  | taken (a : Announce Identity)
  /-- Before the next of the subscribers that remain. -/
  | visiting (a : Announce Identity) (remaining : List ℕ) (matched : Matched)
  /-- It found the subscriber enabled. -/
  | offering (a : Announce Identity) (i : ℕ) (remaining : List ℕ) (matched : Matched)
  /-- It found the mailbox full, and then how long the subscriber is disabled. -/
  | full (a : Announce Identity) (i : ℕ) (remaining : List ℕ) (matched : Matched)
  | tripping (a : Announce Identity) (i : ℕ) (disabledUntil : ℚ) (remaining : List ℕ)
      (matched : Matched)
  | ended

/-- The announce it has taken and not looked up the subscribers for. -/
def Dispatcher.hand : Dispatcher Identity → List (Announce Identity)
  | .taken a => [a]
  | _ => []

/-- What the dispatcher does next about a subscriber. -/
inductive Visit
  | check (now : ℚ)
  | offer
  | look
  | trip (now : ℚ)

/-- Whether the subscriber gets the announce, and the aspects matched after that. -/
def Config.shouldCall (matched : Matched) (aspectFilter : Option String) (a : Announce Identity) :
    Bool × Matched :=
  match aspectFilter with
  | none => (true, matched)
  | some filter =>
    match matched.find? (·.1 = filter) with
    | some (_, found) => (found, matched)
    | none => (config.aspectMatches filter a, (filter, config.aspectMatches filter a) :: matched)

/-- One step of the loop over the subscribers in `_dispatch_loop`, about the subscriber `i`. -/
def Config.visit (i : ℕ) : Visit → Dispatcher Identity → Subscription Identity →
    Option (Dispatcher Identity × Subscription Identity)
  | .check now, .visiting a (j :: remaining) matched, sub =>
    if j = i then
      if now < sub.disabledUntil then some (.visiting a remaining matched, sub)
      else some (.offering a i remaining matched, sub)
    else none
  | .offer, .offering a j remaining matched, sub =>
    if j = i then
      let r := config.shouldCall matched sub.aspectFilter a
      if r.1 then
        if full subscriberQueue sub.queue.length then some (.full a i remaining r.2, sub)
        else some (.visiting a remaining r.2, { sub with queue := sub.queue ++ [some a] })
      else some (.visiting a remaining r.2, sub)
    else none
  | .look, .full a j remaining matched, sub =>
    if j = i then some (.tripping a i sub.disabledUntil remaining matched, sub) else none
  | .trip now, .tripping a j disabledUntil remaining matched, sub =>
    if j = i then
      some (.visiting a remaining matched,
        { sub with disabledUntil := max disabledUntil (now + config.breakerCooldown) })
    else none
  | _, _, _ => none

/-! ## The whole -/

structure State (Identity : Type) where
  active : Bool := true
  queue : List (Announce Identity) := []
  dispatcher : Dispatcher Identity := .top
  /-- The identifiers of those who are subscribed, in the order of `_subscriptions`. -/
  subscriptions : List ℕ := []
  /-- All subscriptions there ever were. -/
  subs : ℕ → Option (Subscription Identity) := fun _ => none

inductive Event (Identity : Type)
  /-- `_enqueue` -/
  | enqueue (a : Announce Identity)
  /-- `_dispatch_loop`, outside of its inner loop -/
  | loop
  | take
  | empty
  | lookUp
  | finish
  /-- The dispatcher, about one subscriber. -/
  | visit (i : ℕ) (v : Visit)
  /-- `subscribe`, with a fresh identifier -/
  | subscribe (i : ℕ) (aspectFilter : Option String)
  | unsubscribe (i : ℕ)
  | stopStep (i : ℕ)
  | work (i : ℕ) (w : Work)
  /-- `stop`, and where it takes out all subscriptions -/
  | stop
  | clear

namespace State

variable (s : State Identity)

/-- The announces that the dispatcher has not looked up the subscribers for. -/
def pending : List (Announce Identity) := s.dispatcher.hand ++ s.queue

/-- The state after a step on one subscription. -/
def withSub (i : ℕ) (sub : Subscription Identity) : State Identity :=
  { s with subs := Function.update s.subs i (some sub) }

/-- What is done to those who are subscribed. -/
def forSubscribed (f : Subscription Identity → Subscription Identity) :
    ℕ → Option (Subscription Identity) :=
  fun i => if i ∈ s.subscriptions then (s.subs i).map f else s.subs i

/-- One step; `none` if the thread is not there. -/
def next : Event Identity → Option (State Identity)
  | .enqueue a =>
    if full config.maxQueue s.queue.length then some s
    else some { s with
      queue := s.queue ++ [a]
      subs := s.forSubscribed fun sub => { sub with enqueued := sub.enqueued ++ [a] } }
  | .loop =>
    match s.dispatcher with
    | .top => some { s with dispatcher := if s.active then .waiting else .ended }
    | _ => none
  | .take =>
    match s.dispatcher, s.queue with
    | .waiting, a :: queue => some { s with dispatcher := .taken a, queue := queue }
    | _, _ => none
  | .empty =>
    match s.dispatcher, s.queue with
    | .waiting, [] => some { s with dispatcher := .top }
    | _, _ => none
  | .lookUp =>
    match s.dispatcher with
    | .taken a => some { s with dispatcher := .visiting a s.subscriptions [] }
    | _ => none
  | .finish =>
    match s.dispatcher with
    | .visiting _ [] _ => some { s with dispatcher := .top }
    | _ => none
  | .visit i v =>
    (s.subs i).bind fun sub =>
      (config.visit i v s.dispatcher sub).map fun r => { s.withSub i r.2 with dispatcher := r.1 }
  | .subscribe i aspectFilter =>
    match s.subs i with
    | some _ => none
    | none => some { s.withSub i { aspectFilter := aspectFilter, waiting := s.pending } with
        subscriptions := s.subscriptions ++ [i] }
  | .unsubscribe i =>
    if i ∈ s.subscriptions then
      (s.subs i).map fun sub => { s.withSub i { sub with stopping := .removed } with
        subscriptions := s.subscriptions.filter (· ≠ i) }
    else some s
  | .stopStep i => (s.subs i).bind fun sub => sub.stopStep.map (s.withSub i)
  | .work i w => (s.subs i).bind fun sub => (sub.work config w).map (s.withSub i)
  | .stop => some { s with active := false }
  | .clear =>
    if s.active then none
    else some { s with
      subscriptions := []
      subs := s.forSubscribed fun sub => { sub with stopping := .removed } }

end State

/-- The dispatcher once it has been started: nobody is subscribed. -/
def start : State Identity := {}

/-- The dispatcher as a transition system. -/
def system : Transition (State Identity) (Event Identity) :=
  .ofNext (· = start) (State.next config)

end ReticulumPi.Announces
