import ReticulumPi.Sdr.Winner
import ReticulumPi.Signal.Retries

/-!
# The decoder of weather satellite images

The decoder records the passes of satellites, during *windows* that the predictions
of passes put into the scheduler. It is the only plugin on its dongle.

A run takes its steps in any order: a prediction sets the list of the next passes,
removes the windows, and adds the new ones, one step each; the scheduler evaluates
the dongle, with the callbacks this leads to; a pipeline fails, and the hook for it
runs; the thread that monitors a pass finds it over; a worker makes the slot eligible
again after a failed launch. Hook and monitor are cut between the end of the pipeline
and the release of the lease. The device can always be claimed, the plugin is never
stopped, and the clocks go on together.
-/

namespace ReticulumPi.Noaa

open Sdr (TimeWindow SignalSlot Dongle)

/-- `_DEFAULT_SATELLITES` -/
def defaultSatellites : Dict String ℚ :=
  ((Dict.set ∅ "NOAA 15" (137620 / 1000)).set "NOAA 18" (1379125 / 10000)).set
    "NOAA 19" (137100 / 1000)

structure Settings where
  satellites : Dict String ℚ := defaultSatellites
  minElevation : ℚ := 15
  prePassSeconds : ℚ := 30
  postPassSeconds : ℚ := 30
  maxRestarts : ℤ := 3

/-- An entry of the list `passes` of a prediction. -/
structure Prediction where
  name : String := ""
  aosTs : ℚ
  losTs : ℚ
  maxEl : ℚ := 0
  durationS : ℚ := 0
deriving DecidableEq

/-- A pass that the decoder is to record. -/
structure Pass where
  satellite : String
  freqMhz : ℚ
  aosTs : ℚ
  losTs : ℚ
  maxEl : ℚ
  durationS : ℚ
deriving DecidableEq

namespace Settings

variable (settings : Settings)

/-- The pass of a prediction, if it meets the filters. -/
def pass? (p : Prediction) : Option Pass :=
  match settings.satellites.get? p.name with
  | none => none
  | some freqMhz =>
    if p.maxEl < settings.minElevation then none
    else some
      { satellite := p.name, freqMhz, aosTs := p.aosTs, losTs := p.losTs, maxEl := p.maxEl
        durationS := p.durationS }

def noaaPasses (passes : List Prediction) : List Pass := passes.filterMap settings.pass?

/-- The passes that a prediction leads to: the first six. -/
def newPasses (passes : List Prediction) : List Pass :=
  ((settings.noaaPasses passes).insertionSort fun p q => p.aosTs ≤ q.aosTs).take 6

/-- The window of a pass. -/
def window (p : Pass) : TimeWindow :=
  ⟨p.aosTs - settings.prePassSeconds, p.losTs + settings.postPassSeconds⟩

end Settings

/-! ## The state -/

/-- Where a prediction stands that is being taken up. -/
inductive Update where
  | removing (passes : List Pass)
  | adding (passes : List Pass)
deriving DecidableEq

inductive MonitorStage where
  | watching
  /-- The pipeline has been stopped. -/
  | leaving
deriving DecidableEq

/-- A thread of `_monitor_pass`. -/
structure Monitor where
  pass : Pass
  stage : MonitorStage := .watching
deriving DecidableEq

inductive HookStage where
  | called
  /-- The pipeline has been stopped. -/
  | releasing
deriving DecidableEq

/-- A call of `_on_capture_failure`, for a pipeline of this pass. -/
structure Hook where
  pass : Pass
  stage : HookStage := .called
deriving DecidableEq

/-- How `_launch_subprocess` ends once it has found the current pass: a program is
    missing, the pipeline cannot be started, or it is started. -/
inductive Launch where
  | missing
  | failed
  | started
deriving DecidableEq

structure Decoder where
  clock : ℚ
  /-- The slot, and the generation of the dongle. -/
  windows : List TimeWindow := []
  suspended : Bool := false
  isActive : Bool := false
  allocationGeneration : ℕ := 0
  generation : ℕ := 0
  nextPasses : List Pass := []
  dongleActive : Bool := false
  dongleGeneration : Option ℕ := none
  captureFailed : Bool := false
  captureLeaseReleased : Bool := true
  /-- `_process_group`: the generation under which it was launched. -/
  processGroup : Option ℕ := none
  retryTimes : List ℚ := []
  retryEpoch : ℕ := 0
  retryPending : Bool := false
  /-- The workers of retries, and when their delays are over. -/
  workers : Dict ℕ ℚ := ∅
  update : Option Update := none
  /-- The pipelines that run, the monitors, and the calls of the hook, each under the
      generation of the launch. -/
  pipelines : Dict ℕ Pass := ∅
  monitors : Dict ℕ Monitor := ∅
  hooks : Dict ℕ Hook := ∅
  /-- When the dongle was evaluated, and for which next passes. -/
  evaluations : List (ℚ × List Pass) := []
  /-- The passes whose pipeline has failed, or could not be launched. -/
  failed : List Pass := []

namespace Decoder

variable (settings : Settings) (s : Decoder)

/-! ## The plugin -/

/-- `_kill_subprocess` -/
def killSubprocess : Decoder :=
  { s with
    captureFailed := s.captureFailed || !s.dongleActive
    processGroup := none
    pipelines := s.processGroup.elim s.pipelines s.pipelines.erase }

/-- `_release_slot` has nothing to do with a stale generation. -/
def stale : Bool := s.dongleGeneration.any (· ≠ s.allocationGeneration)

/-- `_release_dongle` -/
def releaseDongle (suspend : Bool) : Decoder :=
  if s.stale then { s with dongleGeneration := none }
  else
    { s with
      dongleGeneration := none
      suspended := s.suspended || suspend
      isActive := false
      allocationGeneration := 0
      generation := s.generation + 1 }

/-- `_release_capture_lease` -/
def releaseCaptureLease (suspend : Bool) : Decoder :=
  if s.captureLeaseReleased then s
  else { s with captureLeaseReleased := true, dongleActive := false }.releaseDongle suspend

/-- `_schedule_sdr_retry` -/
def scheduleSdrRetry : Decoder :=
  let released := { s with processGroup := none, dongleActive := false }.releaseDongle true
  let recent := s.retryTimes.dropWhile fun t => t < s.clock - Signal.sdrRestartWindowSeconds
  if s.stale then { released with retryEpoch := s.retryEpoch + 1, retryPending := false }
  else if Signal.retryLimit settings.maxRestarts ≤ recent.length then
    { released with
      retryTimes := recent, retryEpoch := s.retryEpoch + 1, retryPending := false }
  else
    { released with
      retryTimes := recent ++ [s.clock]
      retryEpoch := s.retryEpoch + 1
      retryPending := true
      workers := s.workers.set (s.retryEpoch + 1)
        (s.clock + Signal.retryDelay (recent.length + 1)) }

/-- The pass that `_launch_subprocess` finds in progress. -/
def currentPass? : Option Pass :=
  s.nextPasses.find? fun p => (settings.window p).Contains s.clock

/-- The rest of `_launch_subprocess`: the new state, and whether it returns. -/
def launchPass (p : Pass) : Launch → Decoder × Bool
  | .missing => ({ s with failed := p :: s.failed }, false)
  | .failed =>
    ({ s with
      captureFailed := true
      captureLeaseReleased := true
      processGroup := none
      failed := p :: s.failed }, false)
  | .started =>
    ({ s with
      captureFailed := false
      captureLeaseReleased := false
      processGroup := some s.allocationGeneration
      pipelines := s.pipelines.set s.allocationGeneration p
      monitors := s.monitors.set s.allocationGeneration { pass := p } }, true)

/-- `_launch_subprocess` -/
def launchSubprocess (launch : Launch) : Decoder × Bool :=
  match s.currentPass? settings with
  | none => (s, false)
  | some p => s.launchPass p launch

/-- The rest of `_on_acquire`, once `_launch_subprocess` has returned or raised. -/
def afterLaunch : Decoder × Bool → Decoder × Bool
  | (s, true) => ({ s with retryPending := false }, true)
  | (s, false) => ({ s with dongleActive := false }.scheduleSdrRetry settings, false)

/-- `_on_acquire`: the new state, and whether it returns. -/
def onAcquire (launch : Launch) : Decoder × Bool :=
  afterLaunch settings ({ s with
    dongleGeneration := some s.allocationGeneration
    dongleActive := true }.launchSubprocess settings launch)

/-- `_on_yield` -/
def onYield : Decoder :=
  { s with dongleActive := false, dongleGeneration := none }.killSubprocess

/-! ## The scheduler -/

/-- The name under which the decoder is registered. -/
def caller : String := "noaa_apt_decoder"

/-- The dongle as the scheduler has it. -/
def dongle : Dongle where
  oid := 0
  serial := ""
  canonicalId := ""
  currentHolder := if s.isActive then some caller else none
  slots := Dict.set ∅ caller
    { serial := ""
      priority := .scheduled
      windows := s.windows
      isActive := s.isActive
      suspended := s.suspended
      allocationGeneration := s.allocationGeneration
      critical_continuous := by rintro ⟨⟩ }
  generation := s.generation

/-- Who is to have the dongle. -/
def winner : Option String :=
  ((s.dongle.expireWindows s.clock).pickWinner ⟨s.clock, s.clock⟩).2

/-- `_do_yield` -/
def doYield : Decoder :=
  { s with isActive := false, allocationGeneration := 0, generation := s.generation + 1 }.onYield

/-- The rest of `_do_acquire`, once the callback has returned or raised. -/
def afterCallback : Decoder × Bool → Decoder
  | (s, true) => { s with isActive := true }
  | (s, false) => { s with allocationGeneration := 0 }

/-- `_do_acquire`; the launch begins `delay` later. -/
def doAcquire (delay : ℚ) (launch : Launch) : Decoder :=
  afterCallback ({ s with
    clock := s.clock + delay
    allocationGeneration := s.generation + 1
    generation := s.generation + 1 }.onAcquire settings launch)

/-- `_evaluate` -/
def evaluate (delay : ℚ) (launch : Launch) : Decoder :=
  let s' : Decoder :=
    { s with
      windows := s.windows.filter (s.clock < ·.endTs)
      evaluations := (s.clock, s.nextPasses) :: s.evaluations }
  match s.winner, s.dongle.currentHolder with
  | some _, none => s'.doAcquire settings delay launch
  | none, some _ => s'.doYield
  | some _, some _ | none, none => s'

/-! ## Predictions and threads -/

/-- `_on_pass_prediction` begins. -/
def predict (passes : List Prediction) : Decoder :=
  { s with
    nextPasses := settings.newPasses passes
    update := some (.removing (settings.newPasses passes)) }

/-- `_on_pass_prediction` goes on: `remove_windows`, and `add_window` for each pass. -/
def goOn : Update → Decoder
  | .removing passes => { s with windows := [], update := some (.adding passes) }
  | .adding [] => { s with update := none }
  | .adding (p :: passes) =>
    { s with
      windows := (s.windows ++ [settings.window p]).insertionSort fun v w => v.startTs ≤ w.startTs
      update := some (.adding passes) }

/-- A pipeline fails. -/
def fail (g : ℕ) (p : Pass) : Decoder :=
  { s with
    pipelines := s.pipelines.erase g
    hooks := s.hooks.set g { pass := p }
    failed := p :: s.failed }

/-- The next step of `_on_capture_failure`. -/
def onCaptureFailure (g : ℕ) (hook : Hook) : Decoder :=
  match hook.stage with
  | .called =>
    if s.captureFailed then { s with hooks := s.hooks.erase g }
    else { s with
      captureFailed := true
      hooks := s.hooks.set g { hook with stage := .releasing } }.killSubprocess
  | .releasing => { s with hooks := s.hooks.erase g }.releaseCaptureLease true

/-- The next step of `_monitor_pass`; in its loop, it goes on only to leave it. -/
def monitorPass (g : ℕ) (monitor : Monitor) : Option Decoder :=
  match monitor.stage with
  | .watching =>
    if s.dongleActive = true ∧ s.clock < (settings.window monitor.pass).endTs then none
    else some { s with
      monitors := s.monitors.set g { monitor with stage := .leaving } }.killSubprocess
  | .leaving =>
    let s' := { s with monitors := s.monitors.erase g }
    some <|
      if s.captureFailed then
        if s.dongleActive then s'.releaseCaptureLease true
        else { s' with captureLeaseReleased := true }
      else s'.releaseCaptureLease false

/-- The worker of a retry, its delay being over. -/
def resumeAfterBackoff (epoch : ℕ) : Decoder :=
  let s' := { s with workers := s.workers.erase epoch }
  if epoch = s.retryEpoch ∧ s.retryPending = true then
    if s.suspended then { s' with suspended := false, generation := s.generation + 1 }
    else { s' with retryPending := false }
  else s'

end Decoder

/-! ## Runs -/

inductive Event where
  | tick (d : ℚ)
  | predict (passes : List Prediction)
  | goOn
  | evaluate (delay : ℚ) (launch : Launch)
  | fail (g : ℕ)
  | hook (g : ℕ)
  | monitor (g : ℕ)
  | worker (epoch : ℕ)
deriving DecidableEq

variable (settings : Settings) (sky : List Pass)

/-- A prediction lists passes of the sky, and all of them that are not over. -/
def Foretells (now : ℚ) (passes : List Prediction) : Prop :=
  (∀ p ∈ sky, now ≤ (settings.window p).endTs → p ∈ settings.noaaPasses passes) ∧
    ∀ p ∈ settings.noaaPasses passes, p ∈ sky
deriving Decidable

def next (s : Decoder) : Event → Option Decoder
  | .tick d => if 0 ≤ d then some { s with clock := s.clock + d } else none
  | .predict passes =>
    if s.update = none ∧ Foretells settings sky s.clock passes then
      some (s.predict settings passes)
    else none
  | .goOn => s.update.map (s.goOn settings)
  | .evaluate delay launch =>
    if 0 ≤ delay then some (s.evaluate settings delay launch) else none
  | .fail g => (s.pipelines.get? g).map (s.fail g)
  | .hook g => (s.hooks.get? g).map (s.onCaptureFailure g)
  | .monitor g => (s.monitors.get? g).bind (s.monitorPass settings g)
  | .worker epoch =>
    if (s.workers.get? epoch).any (· ≤ s.clock) then some (s.resumeAfterBackoff epoch) else none

/-- The decoder, from its registration on, under the passes of `sky` that meet its
    filters. -/
abbrev decoder : Transition Decoder Event :=
  .ofNext (fun s => ∃ t, s = { clock := t }) (next settings sky)

end ReticulumPi.Noaa
