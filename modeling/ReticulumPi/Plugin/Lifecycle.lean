import Mathlib.Data.Int.Order.Basic
import Mathlib.Logic.Function.Basic
import ReticulumPi.Lib.Transition

/-!
# The lifecycle of a plugin

The state of a `PluginBase`, its stop event, which says whether it is active, and its
ready event, which threads wait for. The transitions are called by the host and by the
plugin's own threads, in any order; each changes the state within one block under
`_lifecycle_lock`, so that a run of any number of threads is a sequence of these
blocks, of the later blocks of `mark_starting` and `request_stop`, and of waiters that
begin or return.
-/

namespace ReticulumPi.Plugin

inductive PluginState
  | discovered | blocked | starting | ready | stopping | stopped | failed | hung
  deriving DecidableEq

inductive PluginHealth
  | healthy | degraded | unavailable
  deriving DecidableEq

/-- The fields of a `PluginBase` that the transitions use. -/
structure PluginBase where
  pluginState : PluginState := .discovered
  pluginHealth : PluginHealth := .unavailable
  lifecycleReason : Option String := none
  /-- Set at first: the plugin is not active. -/
  stopEvent : Bool := true
  readyEvent : Bool := false
  stateChangedMonotonic : ℤ
  startRequestedMonotonic : Option ℤ := none
  readinessDurationSeconds : Option ℤ := none
  hungTotal : ℕ := 0
  stopHookStarted : Bool := false

namespace PluginState

/-- The states in which `_active` cannot be set. -/
def Dead (state : PluginState) : Prop :=
  state ∈ [blocked, failed, hung, stopping, stopped]
deriving Decidable

end PluginState

namespace PluginBase

variable (p : PluginBase)

/-- `_active`. -/
def active : Bool := ! p.stopEvent

/-- The setter of `_active`. -/
def setActive (value : Bool) : PluginBase :=
  if value then
    if p.pluginState.Dead then p else { p with stopEvent := false }
  else { p with stopEvent := true }

/-- A state in which the plugin is not to run is entered, at a time. -/
def leave (state : PluginState) (reason : Option String) (now : ℤ) : PluginBase :=
  { p with
    pluginState := state, pluginHealth := .unavailable, lifecycleReason := reason,
    stateChangedMonotonic := now, stopEvent := true, readyEvent := true }

/-- The first block of `mark_starting`, which may raise. -/
def markStarting (now : ℤ) : Option PluginBase :=
  if p.pluginState ∈ [.hung, .starting, .ready, .stopping] then none
  else some { p with
    pluginState := .starting, pluginHealth := .unavailable, lifecycleReason := none,
    stateChangedMonotonic := now, startRequestedMonotonic := some now,
    readinessDurationSeconds := none, readyEvent := false, stopEvent := true }

def markReady (now : ℤ) : PluginBase :=
  if p.pluginState = .ready then
    { p with pluginHealth := .healthy, lifecycleReason := none, stateChangedMonotonic := now }
  else if p.pluginState ≠ .starting then p
  else { p with
    pluginState := .ready
    pluginHealth := if p.pluginHealth = .degraded then .degraded else .healthy
    lifecycleReason := if p.pluginHealth = .degraded then p.lifecycleReason else none
    stateChangedMonotonic := now
    readinessDurationSeconds :=
      (p.startRequestedMonotonic.map fun t => max 0 (now - t)).or p.readinessDurationSeconds
    stopEvent := false
    readyEvent := true }

variable (reason : String)

def markStartFailed (now : ℤ) : PluginBase :=
  if p.pluginState ∈ [.starting, .failed, .stopping] then p.leave .failed (some reason) now else p

def markBlocked (now : ℤ) : PluginBase :=
  if p.pluginState ∈ [.discovered, .blocked] then p.leave .blocked (some reason) now else p

def markDegraded : PluginBase :=
  if p.pluginState.Dead then p
  else { p with pluginHealth := .degraded, lifecycleReason := some reason }

/-- Whether readiness is lost comes with it, as for the next two. -/
def markHung (now : ℤ) : PluginBase × Bool :=
  ({ p.leave .hung (some reason) now with
      hungTotal := if p.pluginState = .hung then p.hungTotal else p.hungTotal + 1 },
    p.pluginState = .ready)

def requestStop (now : ℤ) : PluginBase × Bool :=
  (if p.pluginState ∈ [.failed, .hung] then { p with stopEvent := true, readyEvent := true }
    else p.leave .stopping p.lifecycleReason now, p.pluginState = .ready)

def markStopped (now : ℤ) : PluginBase × Bool :=
  (if p.pluginState ∈ [.failed, .hung] then { p with stopEvent := true, readyEvent := true }
    else p.leave .stopped none now, p.pluginState = .ready)

/-- `_mark_dependency_blocked`, and whether it has changed anything. -/
def markDependencyBlocked (now : ℤ) : PluginBase × Bool :=
  if p.pluginState ∈ [.failed, .hung] ∨
      p.pluginState = .blocked ∧ p.lifecycleReason = some reason then (p, false)
  else (p.leave .blocked (some reason) now, true)

end PluginBase

/-- A plugin, and the threads that are in `wait_until_ready`. -/
structure System where
  plugin : PluginBase
  waiting : ℕ → Bool := fun _ => false
  /-- What the waiters have been told, the last one first. -/
  told : List (ℕ × Bool) := []

inductive Event
  | setActive (value : Bool)
  | markStarting (now : ℤ)
  /-- The block of `mark_starting` that resets the stop hook. -/
  | resetStopHook
  | markReady (now : ℤ)
  | markStartFailed (reason : String) (now : ℤ)
  | markBlocked (reason : String) (now : ℤ)
  | markDegraded (reason : String)
  | markHung (reason : String) (now : ℤ)
  | requestStop (now : ℤ)
  /-- The block of `request_stop` that starts the stop hook, unless it has been started. -/
  | startStopHook
  | markStopped (now : ℤ)
  | markDependencyBlocked (reason : String) (now : ℤ)
  /-- A thread begins to wait until the plugin is ready. -/
  | wait (n : ℕ)
  /-- It returns, since the event is set, or it has waited for long enough. -/
  | wake (n : ℕ) (timedOut : Bool)

namespace System

variable (s : System)

/-- The steps. -/
def next : Event → Option System
  | .setActive value => some { s with plugin := s.plugin.setActive value }
  | .markStarting now => some { s with plugin := (s.plugin.markStarting now).getD s.plugin }
  | .resetStopHook => some { s with plugin := { s.plugin with stopHookStarted := false } }
  | .markReady now => some { s with plugin := s.plugin.markReady now }
  | .markStartFailed reason now => some { s with plugin := s.plugin.markStartFailed reason now }
  | .markBlocked reason now => some { s with plugin := s.plugin.markBlocked reason now }
  | .markDegraded reason => some { s with plugin := s.plugin.markDegraded reason }
  | .markHung reason now => some { s with plugin := (s.plugin.markHung reason now).1 }
  | .requestStop now => some { s with plugin := (s.plugin.requestStop now).1 }
  | .startStopHook => some { s with plugin := { s.plugin with stopHookStarted := true } }
  | .markStopped now => some { s with plugin := (s.plugin.markStopped now).1 }
  | .markDependencyBlocked reason now =>
    some { s with plugin := (s.plugin.markDependencyBlocked reason now).1 }
  | .wait n => if s.waiting n then none
    else some { s with waiting := Function.update s.waiting n true }
  | .wake n timedOut =>
    if s.waiting n && (timedOut || s.plugin.readyEvent) then
      some { s with
        waiting := Function.update s.waiting n false
        told := (n, decide (s.plugin.pluginState = .ready)) :: s.told }
    else none

end System

def system : Transition System Event :=
  .ofNext (fun s => ∃ now, s = { plugin := { stateChangedMonotonic := now } }) System.next

end ReticulumPi.Plugin
