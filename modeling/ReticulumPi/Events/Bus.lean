import ReticulumPi.Lib.Dict
import ReticulumPi.Lib.Transition

/-!
# The event bus

Callbacks are registered for events, to be run by `publish` itself, or by a
worker. For the latter, a wrapper is registered in their place, one for each
callback at a time (`_offload_map`). Each registration has a handle, with the
callback and what was registered for it. All is kept under one lock: an operation is a
step.
-/

namespace ReticulumPi.Events

variable {E C : Type} [DecidableEq E] [DecidableEq C]

/-- What is registered: a callback, or the `n`th wrapper that was made, of a callback. -/
inductive Listener (C : Type)
  | plain (callback : C)
  | wrapper (callback : C) (n : ℕ)
  deriving DecidableEq

/-- The callback that is run. -/
def Listener.callback : Listener C → C
  | .plain c | .wrapper c _ => c

/-- An entry of `_handles`. -/
structure Registration (E C : Type) where
  event : E
  original : C
  registered : Listener C
  deriving DecidableEq

structure EventBus (E C : Type) [DecidableEq E] [DecidableEq C] where
  subscribers : Dict E (List (Listener C)) := ∅
  handles : Dict ℕ (Registration E C) := ∅
  offloadMap : Dict C (Listener C) := ∅
  isShutdown : Bool := false
  /-- The number of handles that have been made. -/
  handleCount : ℕ := 0
  /-- The number of wrappers that have been made. -/
  wrapperCount : ℕ := 0

namespace EventBus

variable (bus : EventBus E C) (event : E)

/-- `self._subscribers.get(event_type, [])`. -/
def listeners : List (Listener C) := (bus.subscribers.get? event).getD []

/-- `publish`: the callbacks that are run. -/
def publish : List C :=
  if bus.isShutdown then [] else (bus.listeners event).map Listener.callback

variable (callback : C)

/-- A registration is added; its handle is returned. -/
def register (actual : Listener C) : EventBus E C × ℕ :=
  ({ bus with
      subscribers := bus.subscribers.set event (bus.listeners event ++ [actual])
      handles := bus.handles.set bus.handleCount ⟨event, callback, actual⟩
      handleCount := bus.handleCount + 1 }, bus.handleCount)

/-- `subscribe`. -/
def subscribe : Option (EventBus E C × ℕ) :=
  if bus.isShutdown then none else some (bus.register event callback (.plain callback))

/-- The wrapper of a callback, a new one if there is none. -/
def offload : EventBus E C × Listener C :=
  match bus.offloadMap.get? callback with
  | some wrapper => (bus, wrapper)
  | none =>
    let wrapper := .wrapper callback bus.wrapperCount
    ({ bus with
        offloadMap := bus.offloadMap.set callback wrapper
        wrapperCount := bus.wrapperCount + 1 }, wrapper)

/-- `subscribe_offloaded`. -/
def subscribeOffloaded : Option (EventBus E C × ℕ) :=
  if bus.isShutdown then none
  else
    let (bus, wrapper) := bus.offload callback
    some (bus.register event callback wrapper)

/-- `_remove_wrapper_if_unused`. -/
def removeWrapperIfUnused (original : C) (actual : Listener C) : EventBus E C :=
  if actual = .plain original then bus
  else if ∃ listeners ∈ bus.subscribers.values, actual ∈ listeners then bus
  else { bus with offloadMap := bus.offloadMap.erase original }

/-- `_unsubscribe_handle`, which a handle's `cancel` is. -/
def cancel (handle : ℕ) : EventBus E C × Bool :=
  match bus.handles.get? handle with
  | none => (bus, false)
  | some r =>
    let bus := { bus with handles := bus.handles.erase handle }
    if r.registered ∈ bus.listeners r.event then
      (({ bus with subscribers :=
          bus.subscribers.set r.event ((bus.listeners r.event).erase r.registered) } :
        EventBus E C).removeWrapperIfUnused r.original r.registered, true)
    else (bus, false)

/-- `self._offload_map.get(callback, callback)`. -/
def actual : Listener C := (bus.offloadMap.get? callback).getD (.plain callback)

/-- The first handle of a registration. -/
def handleOf (r : Registration E C) : Option ℕ :=
  (bus.handles.entries.find? fun e => e.2 = r).map Prod.fst

/-- `unsubscribe`. -/
def unsubscribe : EventBus E C × Bool :=
  let actual := bus.actual callback
  if actual ∈ bus.listeners event then
    let handles := match bus.handleOf ⟨event, callback, actual⟩ with
      | some handle => bus.handles.erase handle
      | none => bus.handles
    (({ bus with
        subscribers := bus.subscribers.set event ((bus.listeners event).erase actual)
        handles := handles } : EventBus E C).removeWrapperIfUnused callback actual, true)
  else (bus, false)

/-- `unsubscribe_all`. -/
def unsubscribeAll : EventBus E C × ℕ :=
  let actual := bus.actual callback
  ({ bus with
      subscribers := bus.subscribers.map fun listeners => listeners.filter (· ≠ actual)
      handles := bus.handles.filter fun r =>
        ! (r.original = callback || r.registered = .plain callback)
      offloadMap := bus.offloadMap.erase callback },
    bus.subscribers.values.flatten.count actual)

/-- `shutdown`. -/
def shutdown : EventBus E C :=
  { bus with isShutdown := true, subscribers := ∅, handles := ∅, offloadMap := ∅ }

end EventBus

/-- An operation. -/
inductive Op (E C : Type)
  | subscribe (event : E) (callback : C)
  | subscribeOffloaded (event : E) (callback : C)
  | unsubscribe (event : E) (callback : C)
  | cancel (handle : ℕ)
  | unsubscribeAll (callback : C)
  | shutdown

/-- The bus after an operation; one that raises leaves it as it is. -/
def EventBus.apply (bus : EventBus E C) : Op E C → EventBus E C
  | .subscribe event callback => ((bus.subscribe event callback).map Prod.fst).getD bus
  | .subscribeOffloaded event callback =>
    ((bus.subscribeOffloaded event callback).map Prod.fst).getD bus
  | .unsubscribe event callback => (bus.unsubscribe event callback).1
  | .cancel handle => (bus.cancel handle).1
  | .unsubscribeAll callback => (bus.unsubscribeAll callback).1
  | .shutdown => bus.shutdown

/-- The operations on a bus that is new. -/
def system (E C : Type) [DecidableEq E] [DecidableEq C] : Transition (EventBus E C) (Op E C) :=
  .ofNext (· = {}) fun bus op => some (bus.apply op)

end ReticulumPi.Events
