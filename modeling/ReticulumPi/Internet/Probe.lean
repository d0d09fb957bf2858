import Mathlib.Data.List.Basic
import ReticulumPi.Lib.Transition

/-!
# The internet probe

A monitor thread checks from time to time whether any target can be reached, and
other threads force the probe offline, or stop forcing it. A check counts for the
`generation` in which it began: forcing begins a new one. Both change the state in
`_set_state`, under the lock, and publish the change after the lock is released. A step is
what is done under the lock at once, a look at the flag, a round of connection attempts,
or a publication.
-/

namespace ReticulumPi.Internet

/-- `INTERNET_ONLINE` or `INTERNET_OFFLINE`, and what is published with it. -/
structure InternetEvent where
  online : Bool
  wanIp : Option String
  lanIp : Option String
  deriving DecidableEq

/-- The fields of an `InternetProbe`. -/
structure InternetProbe where
  forceOffline : Bool := false
  offlineThreshold : ℕ := 3
  isOnline : Option Bool := none
  consecutiveFailures : ℕ := 0
  generation : ℕ := 0
  wanIp : Option String := none
  lanIp : Option String := none

namespace InternetProbe

variable (p : InternetProbe)

/-- The first block of `set_force_offline`. -/
def force (enabled : Bool) : InternetProbe :=
  { p with forceOffline := enabled, consecutiveFailures := 0, generation := p.generation + 1 }

/-- The decision of `_run_check`, for a result of the current generation. -/
def check (reachable : Bool) : InternetProbe × Option Bool :=
  let consecutive := if reachable then 0 else p.consecutiveFailures + 1
  ({ p with consecutiveFailures := consecutive },
    if reachable && ! p.forceOffline && p.isOnline ≠ some true then some true
    else if ! reachable && p.isOnline = some true && p.offlineThreshold ≤ consecutive then some false
    else none)

/-- The block of `_set_state`, and whether there is anything to publish. -/
def setState (online : Bool) (expectedGeneration : Option ℕ) (wanIp lanIp : Option String) :
    InternetProbe × Bool :=
  if (expectedGeneration.any fun g => g ≠ p.generation) || (online && p.forceOffline) ||
      p.isOnline = some online then (p, false)
  else ({ p with isOnline := some online, wanIp := wanIp, lanIp := lanIp }, true)

/-- `is_online`. -/
def online : Bool := p.isOnline = some true

end InternetProbe

/-- The monitor, in which `start` runs before its loop, or a caller of `set_force_offline`. -/
inductive Thread
  | monitor
  | client (n : ℕ)
  deriving DecidableEq

/-- Where a thread is. -/
inductive Pc
  | idle
  /-- In `start`, before `probe_once` looks at the flag. -/
  | starting
  | startProbing
  /-- In `_run_check`, likewise. -/
  | checking (generation : ℕ)
  | probing (generation : ℕ)
  | probed (generation : ℕ) (reachable : Bool)
  /-- In `_set_state`, before its block. -/
  | setting (online : Bool) (expectedGeneration : Option ℕ)
  | publishing (e : InternetEvent)
  deriving DecidableEq

/-- What has been published, and whether the probe was forced offline then. -/
structure Publication where
  event : InternetEvent
  forced : Bool

/-- What has been read of the state, and whether the probe was forced offline then. -/
structure Report where
  online : Bool
  forced : Bool

/-- The monitor has gone offline: after how many failed probes in a row. -/
structure Loss where
  failures : ℕ
  forced : Bool

structure System where
  probe : InternetProbe
  pcs : Thread → Pc
  /-- The last one first. -/
  published : List Publication := []
  /-- `_internet_available` of a plugin. -/
  internetAvailable : Bool := false
  reports : List Report := []
  losses : List Loss := []
  /-- The number of probes that have failed since the last one that did not. -/
  failures : ℕ := 0

inductive Event
  /-- The monitor wakes up. -/
  | check
  /-- `probe_once` looks at the flag. -/
  | look
  /-- The targets have been tried. -/
  | probe (reachable : Bool)
  | decide
  /-- The block of `_set_state`, by a thread that has detected the addresses. -/
  | setState (t : Thread) (wanIp lanIp : Option String)
  | publish (t : Thread)
  /-- A client calls `set_force_offline`. -/
  | setForceOffline (n : ℕ) (enabled : Bool)
  /-- `is_online` or `get_status`. -/
  | read

namespace System

variable (s : System)

/-- A thread goes on. -/
def goTo (t : Thread) (pc : Pc) : System := { s with pcs := Function.update s.pcs t pc }

/-- The monitor takes the probe from online to offline. -/
def loses (t : Thread) (changed : Bool) : List Loss :=
  if t = .monitor ∧ changed = true ∧ s.probe.isOnline = some true then
    ⟨s.failures, s.probe.forceOffline⟩ :: s.losses
  else s.losses

/-- The steps. -/
def next : Event → Option System
  | .check =>
    if s.pcs .monitor = .idle then some (s.goTo .monitor (.checking s.probe.generation)) else none
  | .look => match s.pcs .monitor with
    | .starting =>
      some (s.goTo .monitor (if s.probe.forceOffline then .setting false none else .startProbing))
    | .checking g =>
      some (s.goTo .monitor (if s.probe.forceOffline then .probed g false else .probing g))
    | _ => none
  | .probe reachable =>
    let s' := { s with failures := if reachable then 0 else s.failures + 1 }
    match s.pcs .monitor with
    | .startProbing => some (s'.goTo .monitor (.setting reachable none))
    | .probing g => some (s'.goTo .monitor (.probed g reachable))
    | _ => none
  | .decide => match s.pcs .monitor with
    | .probed g reachable =>
      if g ≠ s.probe.generation then some (s.goTo .monitor .idle)
      else
        let (probe, online) := s.probe.check reachable
        some ({ s with probe := probe }.goTo .monitor
          (online.elim .idle fun online => .setting online (some g)))
    | _ => none
  | .setState t wanIp lanIp => match s.pcs t with
    | .setting online expected =>
      let (probe, changed) := s.probe.setState online expected wanIp lanIp
      some ({ s with probe := probe, losses := s.loses t changed }.goTo t
        (if changed then .publishing ⟨online, wanIp, lanIp⟩ else .idle))
    | _ => none
  | .publish t => match s.pcs t with
    | .publishing e => some ({ s with
        published := ⟨e, s.probe.forceOffline⟩ :: s.published
        internetAvailable := e.online }.goTo t .idle)
    | _ => none
  | .setForceOffline n enabled =>
    if s.pcs (.client n) = .idle then
      let probe := s.probe.force enabled
      some ({ s with probe := probe }.goTo (.client n)
        (if enabled then .setting false (some probe.generation) else .idle))
    else none
  | .read => some { s with
      reports := ⟨s.probe.online, s.probe.forceOffline⟩ :: s.reports }

/-- A probe that has been configured, before `start`. -/
def initial (forceOffline : Bool) (offlineThreshold : ℕ) : System where
  probe := { forceOffline := forceOffline, offlineThreshold := offlineThreshold }
  pcs t := if t = .monitor then .starting else .idle

end System

def system : Transition System Event :=
  .ofNext (fun s => ∃ force threshold, 1 ≤ threshold ∧ s = .initial force threshold) System.next

end ReticulumPi.Internet
