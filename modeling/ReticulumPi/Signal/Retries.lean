import Mathlib.Algebra.Order.Field.Rat
import ReticulumPi.Lib.Dict
import ReticulumPi.Lib.Transition

/-!
# Retries of a failed decoder

A plugin that shares a dongle through the scheduler (`SignalPluginBase`) does not
restart its decoder itself. When the decoder fails, or cannot be launched,
`_schedule_sdr_retry` suspends the plugin's slot, and a worker makes the slot
eligible again after a delay, unless the *epoch* of the retry is over by then.

A run is an interleaving of the thread that starts and stops the plugin, the
callbacks of the scheduler, the failure hooks of the decoders (on threads of their
own), and the workers, each cut at its accesses to what they share. Of the
scheduler there is what concerns the plugin: its slot, and the generation of the
dongle, which other plugins advance as well. The scheduler runs throughout, and
threads can always be started.
-/

namespace ReticulumPi.Signal

/-- `_SDR_RESTART_DELAYS` -/
def sdrRestartDelays : List ℚ := [1, 2, 4, 8, 30]

/-- `_SDR_RESTART_WINDOW_SECONDS` -/
def sdrRestartWindowSeconds : ℚ := 600

/-- The limit on the retries within the window. -/
def retryLimit (maxRestarts : ℤ) : ℕ := (min 5 (max 0 maxRestarts)).toNat

/-- The delay before an attempt, the first one being 1. -/
def retryDelay (attempt : ℕ) : ℚ :=
  sdrRestartDelays.getD (min (attempt - 1) (sdrRestartDelays.length - 1)) 0

/-! ## The state -/

/-- Where `start` and `stop` stand. -/
inductive Phase where
  | idle
  /-- `start` has set `_active`. -/
  | activated
  /-- `start` has reset the retries. -/
  | reset
  | running
  /-- `stop` has cleared `_active`. -/
  | stopping
  /-- `stop` has ended the epoch. -/
  | invalidated
deriving DecidableEq

/-- `_active` -/
def Phase.active : Phase → Bool
  | activated | reset | running => true
  | idle | stopping | invalidated => false

/-- The plugin's `SignalSlot`. -/
structure Slot where
  registrationId : ℕ
  suspended : Bool := false
  isActive : Bool := false
  allocationGeneration : ℕ := 0
deriving DecidableEq

/-- Where the acquisition of the dongle stands, of which `_on_acquire` is a part. -/
inductive AcquireStage where
  | claiming
  /-- `_on_acquire` begins. -/
  | called
  | active
  | launching
  | launched
  | raised
  | retrying
  | returned (ok : Bool)
deriving DecidableEq

/-- An acquisition of the dongle by the scheduler (`_do_acquire`). -/
structure Acquisition where
  registrationId : ℕ
  generation : ℕ
  stage : AcquireStage := .claiming
deriving DecidableEq

/-- Who calls `_schedule_sdr_retry`: `_on_acquire`, or the failure hook on the
    thread of a monitor. -/
inductive Caller where
  | acquire
  | monitor (n : ℕ)
deriving DecidableEq

/-- Where a call of `_schedule_sdr_retry` stands. -/
inductive Call where
  /-- The slot is about to be suspended, for this `_dongle_generation`. -/
  | releasing (generation : Option ℕ)
  | forgetting (registrationId : Option ℕ)
  /-- The slot has not been suspended. -/
  | refused
  | clocking (registrationId : ℕ)
  /-- The retry is about to be recorded, with this reading of the clock. -/
  | recording (registrationId : ℕ) (now : ℚ)
  /-- The worker is about to be started. -/
  | starting (epoch : ℕ)
  | returning (result : Bool)
deriving DecidableEq

/-- Where the worker of a retry stands. -/
inductive WorkerStage where
  | unstarted
  | waiting (due : ℚ)
  /-- The delay has passed, and the plugin was active. -/
  | woken
  /-- The retry was found pending, of the current epoch. -/
  | resuming
  | notResumed
deriving DecidableEq

/-- A retry that has been recorded, and its worker. -/
structure Retry where
  registrationId : ℕ
  delay : ℚ
  /-- How many stops and retries there had been, this one included. -/
  stamp : ℕ
  stage : WorkerStage := .unstarted
deriving DecidableEq

structure System where
  clock : ℚ
  phase : Phase := .idle
  /-- `_dongle_generation` -/
  dongleGeneration : Option ℕ := none
  /-- `_sdr_retry_times`, `_sdr_retry_epoch` and `_sdr_retry_pending` -/
  times : List ℚ := []
  epoch : ℕ := 0
  pending : Bool := false
  slot : Option Slot := none
  /-- The generation of the dongle. -/
  generation : ℕ := 0
  nextRegistrationId : ℕ := 0
  acquisition : Option Acquisition := none
  /-- How many decoders have been launched whose failure has not been reported. -/
  decoders : ℕ := 0
  calls : Dict Caller Call := ∅
  /-- The retries whose workers have not ended, by their epochs. -/
  retries : Dict ℕ Retry := ∅
  /-- What the last call of `_schedule_sdr_retry` to return has returned. -/
  last : Option Bool := none
  /-- The times of the retries since `start`, the last one first. -/
  scheduled : List ℚ := []
  /-- How many times the plugin has been stopped, or a retry recorded. -/
  stamps : ℕ := 0
  /-- The latest reading of the clock a call has taken into the retry lock. -/
  seen : ℚ

namespace System

variable (maxRestarts : ℤ) (s : System)

/-! ## Starting and stopping -/

/-- The next step of `start` and `stop`. -/
def lifecycle : System :=
  match s.phase with
  | .idle => { s with phase := .activated }
  | .activated =>
    { s with
      phase := .reset, epoch := s.epoch + 1, times := [], pending := false, scheduled := [] }
  | .reset =>
    { s with
      phase := .running
      slot := some { registrationId := s.nextRegistrationId + 1 }
      nextRegistrationId := s.nextRegistrationId + 1
      generation := s.generation + 1 }
  | .running => { s with phase := .stopping, stamps := s.stamps + 1 }
  | .stopping => { s with phase := .invalidated, epoch := s.epoch + 1, pending := false }
  | .invalidated => { s with phase := .idle, slot := none, generation := s.generation + 1 }

/-! ## The scheduler -/

/-- The scheduler picks the plugin, and begins to acquire the dongle for it. -/
def grant : Option System :=
  match s.slot, s.acquisition with
  | some slot, none =>
    if slot.suspended ∨ slot.isActive then none
    else some { s with
      generation := s.generation + 1
      slot := some { slot with allocationGeneration := s.generation + 1 }
      acquisition := some
        { registrationId := slot.registrationId, generation := s.generation + 1 } }
  | _, _ => none

/-- The slot, unless it has been replaced, or the allocation is over. -/
def slotOf (a : Acquisition) : Option Slot :=
  s.slot.filter fun slot =>
    slot.registrationId = a.registrationId ∧ slot.allocationGeneration = a.generation

/-- The allocation is taken back. -/
def deallocate (a : Acquisition) : System :=
  match s.slotOf a with
  | none => s
  | some slot => { s with slot := some { slot with allocationGeneration := 0 } }

def setAcquisition (a : Option Acquisition) : System := { s with acquisition := a }

def setCall (c : Caller) (call : Call) : System := { s with calls := s.calls.set c call }

def setStage (epoch : ℕ) (retry : Retry) (stage : WorkerStage) : System :=
  { s with retries := s.retries.set epoch { retry with stage } }

/-- The next step of an acquisition; `ok` says whether the dongle can be claimed, and
    whether `_launch_subprocess` returns. -/
def acquire (a : Acquisition) (ok : Bool) : Option System :=
  match a.stage with
  | .claiming =>
    if ok ∧ (s.slotOf a).isSome then some (s.setAcquisition (some { a with stage := .called }))
    else some ((s.deallocate a).setAcquisition none)
  | .called =>
    some (s.setAcquisition (some
      { a with stage := if s.phase.active then .active else .returned true }))
  | .active =>
    -- `get_allocation_generation`
    some { s.setAcquisition (some { a with stage := .launching }) with
      dongleGeneration := some (s.slot.elim 0 Slot.allocationGeneration) }
  | .launching =>
    some (s.setAcquisition (some { a with stage := if ok then .launched else .raised }))
  | .launched =>
    some { s.setAcquisition (some { a with stage := .returned true }) with pending := false }
  | .raised =>
    if s.phase.active then
      if s.calls.get? .acquire = none then
        some ((s.setCall .acquire (.releasing s.dongleGeneration)).setAcquisition
          (some { a with stage := .retrying }))
      else none
    else some { s.setAcquisition (some { a with stage := .returned false }) with
      dongleGeneration := none }
  | .retrying =>
    if s.calls.get? .acquire = none then
      some (s.setAcquisition (some { a with stage := .returned false }))
    else none
  | .returned false => some ((s.deallocate a).setAcquisition none)
  | .returned true =>
    match s.slotOf a with
    | some slot =>
      if s.generation = a.generation then
        some { s with slot := some { slot with isActive := true }, acquisition := none }
      else
        -- `_discard_successful_acquisition`
        some { (s.deallocate a).setAcquisition none with dongleGeneration := none }
    | none => some { s.setAcquisition none with dongleGeneration := none }

/-- The scheduler takes the dongle from the plugin (`_do_yield`). -/
def preempt : Option System :=
  match s.slot with
  | some slot =>
    if slot.isActive then
      some { s with
        generation := s.generation + 1
        slot := some { slot with isActive := false, allocationGeneration := 0 } }
    else none
  | none => none

/-- `suspend`: the new state, and the id of the registration. -/
def suspend (generation : Option ℕ) : System × Option ℕ :=
  match s.slot with
  | none => (s, none)
  | some slot =>
    if generation.any (· ≠ slot.allocationGeneration) then (s, none)
    else
      ({ s with
        generation := s.generation + 1
        slot := some { slot with isActive := false, suspended := true, allocationGeneration := 0 } },
        some slot.registrationId)

/-- `resume`: the new state, if it returns true. -/
def resume (registrationId : ℕ) : Option System :=
  match s.slot with
  | none => none
  | some slot =>
    if slot.registrationId = registrationId ∧ slot.suspended = true then
      some { s with
        generation := s.generation + 1
        slot := some { slot with suspended := false } }
    else none

/-! ## Scheduling a retry -/

/-- The times that count at `now`. -/
def recent (now : ℚ) : List ℚ :=
  s.times.dropWhile fun t => t < now - sdrRestartWindowSeconds

/-- The budget is used up. -/
def Exhausted (now : ℚ) : Prop := retryLimit maxRestarts ≤ (s.recent now).length
deriving Decidable

/-- There is no retry: what is pending is given up. -/
def giveUp (c : Caller) : System :=
  { s with epoch := s.epoch + 1, pending := false }.setCall c (.returning false)

/-- A retry is recorded. -/
def record (c : Caller) (registrationId : ℕ) (now : ℚ) : System :=
  let retry : Retry :=
    { registrationId
      delay := retryDelay ((s.recent now).length + 1)
      stamp := s.stamps + 1 }
  { s with
    times := s.recent now ++ [now]
    epoch := s.epoch + 1
    pending := true
    retries := s.retries.set (s.epoch + 1) retry
    scheduled := now :: s.scheduled
    stamps := s.stamps + 1
    seen := max s.seen now }.setCall c (.starting (s.epoch + 1))

/-- The next step of a call of `_schedule_sdr_retry`. -/
def schedule (c : Caller) : Call → Option System
  | .releasing generation =>
    let (s, registrationId) := s.suspend generation
    some (s.setCall c (.forgetting registrationId))
  | .forgetting registrationId =>
    some ({ s with dongleGeneration := none }.setCall c (registrationId.elim .refused .clocking))
  | .refused => some (s.giveUp c)
  | .clocking registrationId => some (s.setCall c (.recording registrationId s.clock))
  | .recording registrationId now =>
    some (if s.Exhausted maxRestarts now then
      { s with times := s.recent now, seen := max s.seen now }.giveUp c
    else s.record c registrationId now)
  | .starting epoch =>
    (s.retries.get? epoch).map fun retry =>
      (s.setStage epoch retry (.waiting (s.clock + retry.delay))).setCall c (.returning true)
  | .returning result => some { s with calls := s.calls.erase c, last := some result }

/-! ## The workers -/

def endWorker (epoch : ℕ) : System := { s with retries := s.retries.erase epoch }

/-- The next step of a worker. -/
def resumeAfterBackoff (epoch : ℕ) (retry : Retry) : Option System :=
  match retry.stage with
  | .unstarted => none
  | .waiting due =>
    if s.phase.active = false then some (s.endWorker epoch)
    else if due ≤ s.clock then some (s.setStage epoch retry .woken)
    else none
  | .woken =>
    some (if epoch = s.epoch ∧ s.pending = true then s.setStage epoch retry .resuming
      else s.endWorker epoch)
  | .resuming =>
    some (match s.resume retry.registrationId with
      | some s' => s'.endWorker epoch
      | none => s.setStage epoch retry .notResumed)
  | .notResumed =>
    some ({ s with pending := if epoch = s.epoch then false else s.pending }.endWorker epoch)

end System

/-! ## Runs -/

inductive Event where
  | tick (d : ℚ)
  | lifecycle
  /-- The dongle's generation is advanced for another plugin. -/
  | advance
  | grant
  | acquire (ok : Bool)
  /-- A decoder starts, during the launch. -/
  | spawn
  | preempt
  /-- `_on_yield` is called. -/
  | yield
  /-- The failure hook of a decoder calls `_schedule_sdr_retry`. -/
  | fail (n : ℕ)
  | schedule (c : Caller)
  | worker (epoch : ℕ)
deriving DecidableEq

def next (maxRestarts : ℤ) (s : System) : Event → Option System
  | .tick d => if 0 ≤ d then some { s with clock := s.clock + d } else none
  | .lifecycle => some s.lifecycle
  | .advance => some { s with generation := s.generation + 1 }
  | .grant => s.grant
  | .acquire ok => s.acquisition.bind fun a => s.acquire a ok
  | .spawn =>
    if s.acquisition.any (·.stage = .launching) then some { s with decoders := s.decoders + 1 }
    else none
  | .preempt => s.preempt
  | .yield => some { s with dongleGeneration := none }
  | .fail n =>
    if s.decoders = 0 ∨ s.calls.get? (.monitor n) ≠ none then none
    else some ({ s with decoders := s.decoders - 1 }.setCall (.monitor n)
      (.releasing s.dongleGeneration))
  | .schedule c => (s.calls.get? c).bind (s.schedule maxRestarts c)
  | .worker epoch => (s.retries.get? epoch).bind (s.resumeAfterBackoff epoch)

/-- The plugin, from a time at which it is not started. -/
abbrev plugin (maxRestarts : ℤ) : Transition System Event :=
  .ofNext (fun s => ∃ t, s = { clock := t, seen := t }) (next maxRestarts)

end ReticulumPi.Signal
