import Mathlib.Data.Rat.Cast.Order
import ReticulumPi.Lib.Dict
import ReticulumPi.Lib.PyValue
import ReticulumPi.Lib.Transition

/-!
# The GPS receiver and its fix

Two threads share the fix: the reader, which takes sentences from a serial port
or from gpsd and applies them, and the stale monitor, which gives a fix up when
no position came for too long. The lock guards each change of the fix, and the
events are published after it is released. The lifecycle lock is held longer:
by the monitor over its check and its event, by `stop`, and by the reader over
a whole sentence when the source is gpsd; a reader of the serial port does not
take it. Both threads are cut where they let go of a lock, wait or publish.
-/

namespace ReticulumPi.Gps

/-! ## Sentences -/

/-- The keys of a fix and their values. -/
abbrev Fix := Dict String PyValue

/-- An RMC sentence, its numbers as `_decimal_or_none` reads them. -/
structure Rmc where
  status : String
  latitude : Option ℚ
  longitude : Option ℚ
  spdOverGrnd : Option ℚ := none
  trueCourse : Option ℚ := none
  utcTime : Option String := none
  utcDate : Option String := none

/-- A GGA sentence. -/
structure Gga where
  latitude : Option ℚ
  longitude : Option ℚ
  altitude : Option ℚ
  horizontalDil : Option ℚ
  gpsQual : Option ℤ
  numSats : Option ℤ

/-- A GSA sentence. -/
structure Gsa where
  modeFixType : Option ℤ
  pdop : Option ℚ
  hdop : Option ℚ
  vdop : Option ℚ

/-- A VTG sentence. -/
structure Vtg where
  spdOverGrndKts : Option ℚ
  trueTrack : Option ℚ

/-- What `pynmea2.parse` makes of a sentence; `other` is of a kind that does not
    touch the fix. -/
inductive Message where
  | rmc (msg : Rmc)
  | gga (msg : Gga)
  | gsa (msg : Gsa)
  | vtg (msg : Vtg)
  | other

/-- A value that the sentence gives is written. -/
def setGiven (fix : Fix) (key : String) : Option PyValue → Fix
  | some value => fix.set key value
  | none => fix

/-- A value that the sentence gives is written where there is none yet. -/
def fillIn (fix : Fix) (key : String) (value : Option PyValue) : Fix :=
  match fix.get? key with
  | none | some .none => setGiven fix key value
  | some _ => fix

/-- The position of a valid RMC sentence; a void one has none. -/
def Rmc.position (msg : Rmc) : Option (ℚ × ℚ) :=
  if msg.status ≠ "A" then none
  else
    match msg.latitude, msg.longitude with
    | some lat, some lon => some (lat, lon)
    | _, _ => none

/-- The keys that a fix always has. -/
def withDefaults (fix : Fix) : Fix :=
  ((((((fix.setDefault "alt_m" (.float 0)).setDefault "fix_quality" (.int 0)).setDefault
    "fix_type" (.int 0)).setDefault "satellites_used" (.int 0)).setDefault "hdop" .none).setDefault
      "pdop" .none).setDefault "vdop" .none

/-- The fix after a valid RMC sentence with the position `(lat, lon)`. -/
def Rmc.fix (msg : Rmc) (lastFix : Option Fix) (lat lon now : ℚ) : Fix :=
  let fix := ((lastFix.getD ∅).set "lat" (.float lat)).set "lon" (.float lon)
  let fix := setGiven fix "speed_kn" (msg.spdOverGrnd.map .float)
  let fix := match msg.trueCourse with
    | some heading => fix.set "heading_deg" (.float heading)
    | none => fix.setDefault "heading_deg" .none
  let fix := setGiven fix "utc_time" (msg.utcTime.map .str)
  let fix := setGiven fix "utc_date" (msg.utcDate.map .str)
  withDefaults (fix.set "timestamp" (.float now))

/-- The fix after a GGA sentence, which may still have no position. -/
def Gga.fix (msg : Gga) (lastFix : Option Fix) (now : ℚ) : Fix :=
  let fix := lastFix.getD ∅
  let fix := if "lat" ∈ fix.keys then fix else
    match msg.latitude, msg.longitude with
    | some lat, some lon => (fix.set "lat" (.float lat)).set "lon" (.float lon)
    | _, _ => fix
  let fix := setGiven fix "alt_m" (msg.altitude.map .float)
  let fix := setGiven fix "hdop" (msg.horizontalDil.map .float)
  let fix := setGiven fix "fix_quality" (msg.gpsQual.map .int)
  let fix := setGiven fix "satellites_used" (msg.numSats.map .int)
  fix.setDefault "timestamp" (.float now)

/-- The fix after a GSA sentence. -/
def Gsa.fix (msg : Gsa) (fix : Fix) : Fix :=
  let fix := setGiven fix "fix_type" (msg.modeFixType.map .int)
  let fix := setGiven fix "pdop" (msg.pdop.map .float)
  let fix := fillIn fix "hdop" (msg.hdop.map .float)
  setGiven fix "vdop" (msg.vdop.map .float)

/-- The fix after a VTG sentence. -/
def Vtg.fix (msg : Vtg) (fix : Fix) : Fix :=
  fillIn (fillIn fix "speed_kn" (msg.spdOverGrndKts.map .float)) "heading_deg"
    (msg.trueTrack.map .float)

/-! ## What the threads share -/

/-- The data of the events about positions. -/
structure Position where
  lat : ℚ
  lon : ℚ
  altM : PyValue
  timestamp : ℚ

/-- An event on the bus. -/
inductive BusEvent where
  | deviceConnected
  | deviceDisconnected
  | fixReceived (position : Position)
  | fixUpdated (position : Position)
  | fixLost (ageS : ℚ) (lastTimestamp : PyValue)

/-- Where sentences come from. -/
inductive Source where
  | serial
  | gpsd
deriving DecidableEq

/-- The settings of the plugin, and the parser of sentences. -/
structure Config where
  source : Source := .serial
  serialSilenceTimeout : ℚ := 30
  reconnectDelay : ℚ := 5
  maxReconnectAttempts : ℕ := 0
  fixStaleSeconds : ℚ := 30
  staleCheckInterval : ℚ := 5
  parse : String → Option Message

/-- The fields that the threads share. `handle` says that the device the reader
    opened is the one that the plugin holds. -/
structure GpsTelemetry where
  active : Bool := true
  lifecycleGeneration : ℕ := 1
  handle : Bool := false
  connected : Bool := false
  lastFix : Option Fix := none
  haveFix : Bool := false
  msgsReceived : ℕ := 0
  sentencesParsed : ℕ := 0
  parseErrors : ℕ := 0
  lastMsgMonotonic : ℚ := 0
  lastByteMonotonic : ℚ := 0
  lastFixMonotonic : ℚ := 0
  reconnectFailures : ℕ := 0

namespace GpsTelemetry

variable (t : GpsTelemetry)

/-- `_serial_generation_is_active` and `_gpsd_generation_is_active`, for the
    threads of the first start. -/
def generationIsActive : Bool := t.active && t.lifecycleGeneration = 1

/-- `_apply_rmc` up to its event, for a valid sentence. -/
def applyRmc (msg : Rmc) (lat lon now observedAt : ℚ) : GpsTelemetry :=
  { t with
    lastFix := some (msg.fix t.lastFix lat lon now)
    lastMsgMonotonic := observedAt
    lastFixMonotonic := observedAt
    haveFix := true }

/-- The data of the event of `_apply_rmc`, from the state before it. -/
def rmcPosition (msg : Rmc) (lat lon now : ℚ) : Position :=
  ⟨lat, lon, ((msg.fix t.lastFix lat lon now).get? "alt_m").getD (.float 0), now⟩

/-- `_apply_gga` -/
def applyGga (msg : Gga) (now observedAt : ℚ) : GpsTelemetry :=
  let fix := msg.fix t.lastFix now
  { t with
    lastFix := if "lat" ∈ fix.keys ∧ "lon" ∈ fix.keys then some fix else t.lastFix
    lastMsgMonotonic := observedAt }

/-- `_apply_gsa` -/
def applyGsa (msg : Gsa) : GpsTelemetry :=
  { t with lastFix := t.lastFix.map msg.fix }

/-- `_apply_vtg` -/
def applyVtg (msg : Vtg) (observedAt : ℚ) : GpsTelemetry :=
  match t.lastFix with
  | none => t
  | some fix => { t with lastFix := some (msg.fix fix), lastMsgMonotonic := observedAt }

/-- The sentences other than a valid RMC. -/
def applyOther (now observedAt : ℚ) : Message → GpsTelemetry
  | .rmc _ | .other => t
  | .gga msg => t.applyGga msg now observedAt
  | .gsa msg => t.applyGsa msg
  | .vtg msg => t.applyVtg msg observedAt

end GpsTelemetry

/-! ## The threads -/

/-- Where the reader stands. -/
inductive ReaderPc where
  | opening
  /-- The device is open, and nobody else knows of it. -/
  | opened
  | connected
  /-- At the test of the read loop. -/
  | looping
  /-- Inside `readline`. -/
  | reading
  | received (raw : String)
  | readFailed (timeout : Bool)
  /-- The line is taken, as the plugin is still active. -/
  | accepted (raw : String)
  | parsed (message : Message)
  /-- `_handle_sentence` has read the clocks. -/
  | observed (message : Message) (now observedAt : ℚ)
  | publishing (firstFix : Bool) (position : Position)
  | closing
  /-- The device is closed; `announce` says whether that is published. -/
  | closed (announce : Bool)
  | pausing (wake : ℚ)
  | finished

/-- Where the stale monitor stands. -/
inductive MonitorPc where
  | starting
  | sleeping (wake : ℚ)
  | publishing (age : ℚ) (lastTimestamp : PyValue)
  | finished

/-- What happened, and when: a valid RMC sentence was applied, or an event published. -/
inductive Entry where
  | applied (at_ : ℚ)
  | published (event : BusEvent) (at_ : ℚ)

/-- The plugin with its threads, the monotonic clock, and what happened so far,
    newest first, which the source does not keep. -/
structure System extends GpsTelemetry where
  clock : ℚ
  reader : ReaderPc := .opening
  monitor : MonitorPc := .starting
  attempt : ℕ := 0
  log : List Entry := []

/-- The answers that a step of the reader gets from outside. -/
inductive ReaderInput where
  | goOn
  /-- The device cannot be opened, or read. -/
  | fails
  | timeout
  | line (raw : String)
  /-- The wall clock. -/
  | wallClock (now : ℚ)

/-- The clock goes on, one of the threads takes a step, or `stop` is called. -/
inductive Event where
  | tick (d : ℚ)
  | reader (input : ReaderInput)
  | monitor
  | stop

namespace System

variable (config : Config) (s : System)

/-- The reader is in a part of its loop that holds the lifecycle lock. -/
def readerHoldsLock : Bool :=
  config.source = .gpsd &&
    match s.reader with
    | .connected | .accepted _ | .parsed _ | .observed _ _ _ | .publishing _ _ | .closed _ => true
    | _ => false

/-- The monitor holds the lifecycle lock until its event is published. -/
def monitorHoldsLock : Bool :=
  match s.monitor with
  | .publishing _ _ => true
  | _ => false

/-- Nobody holds the lifecycle lock. -/
def lockFree : Bool := !s.readerHoldsLock config && !s.monitorHoldsLock

/-- `event_bus.publish` -/
def publish (event : BusEvent) : System :=
  { s with log := .published event s.clock :: s.log }

/-- A step that takes the lifecycle lock, for itself or to keep it. -/
def locked (next : System) : Option System :=
  if s.lockFree config then some next else none

/-- The same where only a reader of gpsd takes the lock. -/
def lockedByGpsd (next : System) : Option System :=
  if config.source = .gpsd then s.locked config next else some next

/-! ### The reader -/

/-- The device could not be opened. -/
def openFailed : Option System :=
  if !s.generationIsActive then some { s with reader := .finished }
  else
    let attempt := s.attempt + 1
    let s := { s with attempt := attempt, reconnectFailures := s.reconnectFailures + 1 }
    if 0 < config.maxReconnectAttempts ∧ config.maxReconnectAttempts ≤ attempt then
      s.locked config { s with active := false, reader := .finished }
    else
      let delay := min (config.reconnectDelay * 2 ^ min (attempt - 1) 5) 300
      some { s with reader := .pausing (s.clock + delay) }

/-- The device is made known, unless the plugin was stopped. -/
def bind : Option System :=
  s.lockedByGpsd config <|
    if s.generationIsActive then
      { s with
        handle := true
        connected := true
        lastByteMonotonic := if config.source = .serial then s.clock else s.lastByteMonotonic
        attempt := 0
        reader := .connected }
    else { s with reader := .finished }

/-- What was read is taken when the plugin is still active. Nothing was read
    when a read of the serial port timed out, or gpsd closed the connection. -/
def accept (raw : String) : Option System :=
  s.lockedByGpsd config <|
    if !s.generationIsActive then { s with reader := .closing }
    else if raw = "" then
      if config.source = .gpsd ∨ config.serialSilenceTimeout ≤ s.clock - s.lastByteMonotonic then
        { s with reader := .closing }
      else { s with reader := .looping }
    else { s with reader := .accepted raw }

/-- `_handle_sentence` up to the reading of the clocks. -/
def takeLine (raw : String) : System :=
  let s := { s with
    lastByteMonotonic := if config.source = Source.serial then s.clock else s.lastByteMonotonic
    msgsReceived := s.msgsReceived + 1 }
  if raw.toList.head? = some '$' then
    match config.parse raw with
    | some message => { s with sentencesParsed := s.sentencesParsed + 1, reader := .parsed message }
    | none => { s with parseErrors := s.parseErrors + 1, reader := .looping }
  else { s with reader := .looping }

/-- The part of a sentence handler that holds the lock. -/
def applySentence (message : Message) (now observedAt : ℚ) : System :=
  match message with
  | .rmc msg =>
    match msg.position with
    | some (lat, lon) =>
      { s with
        toGpsTelemetry := s.applyRmc msg lat lon now observedAt
        reader := .publishing (!s.haveFix) (s.rmcPosition msg lat lon now)
        log := .applied s.clock :: s.log }
    | none => { s with reader := .looping }
  | message =>
    { s with toGpsTelemetry := s.applyOther now observedAt message, reader := .looping }

/-- The device is closed, and given up by the plugin. -/
def close : Option System :=
  match config.source with
  | .serial => some { s with handle := false, connected := false, reader := .closed true }
  | .gpsd =>
    let current := s.handle && s.generationIsActive
    s.locked config
      { s with
        handle := false
        connected := if current then false else s.connected
        reader := .closed current }

/-- A step of `_read_loop` or `_gpsd_read_loop`. -/
def readerStep : ReaderPc → ReaderInput → Option System
  | .opening, .goOn =>
    some { s with reader := if s.generationIsActive then .opened else .finished }
  | .opening, .fails => s.openFailed config
  | .opened, .goOn => s.bind config
  | .connected, .goOn => some { s.publish .deviceConnected with reader := .looping }
  | .looping, .goOn =>
    some { s with reader := if s.generationIsActive then .reading else .closing }
  | .reading, .line raw => some { s with reader := .received raw }
  | .reading, .timeout =>
    some { s with
      reader := if config.source = .serial then .received "" else .readFailed true }
  | .reading, .fails =>
    some { s with reader := if config.source = .serial then .closing else .readFailed false }
  | .readFailed timeout, .goOn =>
    s.locked config
      { s with reader := if s.generationIsActive && timeout then .looping else .closing }
  | .received raw, .goOn => s.accept config raw
  | .accepted raw, .goOn => some (s.takeLine config raw)
  | .parsed message, .wallClock now => some { s with reader := .observed message now s.clock }
  | .observed message now observedAt, .goOn => some (s.applySentence message now observedAt)
  | .publishing firstFix position, .goOn =>
    let event := if firstFix then BusEvent.fixReceived position else .fixUpdated position
    some { s.publish event with reader := .looping }
  | .closing, .goOn => s.close config
  | .closed announce, .goOn =>
    let s := if announce then s.publish .deviceDisconnected else s
    some { s with
      reader := if s.generationIsActive then .pausing (s.clock + config.reconnectDelay)
        else .opening }
  | .pausing wake, .goOn =>
    if wake ≤ s.clock ∨ !s.active then some { s with reader := .opening } else none
  | _, _ => none

/-! ### The stale monitor -/

/-- The monitor sleeps until its next check. -/
def monitorSleeps : System :=
  { s with monitor := .sleeping (s.clock + config.staleCheckInterval) }

/-- The age of the fix, for the monitor. -/
def fixAge : ℚ := max 0 (s.clock - s.lastFixMonotonic)

/-- A check of `_stale_monitor` gives the fix up. -/
def isStale : Bool :=
  s.haveFix && s.lastFix.isSome && s.lastFixMonotonic ≠ 0 && config.fixStaleSeconds < s.fixAge

/-- The part of a check that holds the lock. -/
def staleCheck : System :=
  if !s.generationIsActive then { s with monitor := .finished }
  else
    match s.haveFix, s.lastFix with
    | true, some fix =>
      if s.lastFixMonotonic = 0 then
        monitorSleeps config { s with lastFixMonotonic := s.clock }
      else if s.fixAge ≤ config.fixStaleSeconds then s.monitorSleeps config
      else
        { s with
          haveFix := false
          monitor := .publishing s.fixAge ((fix.get? "timestamp").getD .none) }
    | _, _ => s.monitorSleeps config

/-- A step of `_stale_monitor`. -/
def monitorStep : MonitorPc → Option System
  | .starting =>
    s.locked config
      (if s.generationIsActive then s.monitorSleeps config else { s with monitor := .finished })
  | .sleeping wake =>
    if wake ≤ s.clock ∨ !s.active then s.locked config (s.staleCheck config) else none
  | .publishing age lastTimestamp =>
    some ((s.publish (.fixLost age lastTimestamp)).monitorSleeps config)
  | .finished => none

/-! ### All steps -/

/-- The part of `stop` that holds the lifecycle lock. -/
def stop : Option System :=
  s.locked config
    { s with
      active := false
      lifecycleGeneration := s.lifecycleGeneration + 1
      handle := if config.source = .serial then false else s.handle
      connected := false }

/-- The effect of an event; `none` when it cannot take place. -/
def next : Event → Option System
  | .tick d => if 0 ≤ d then some { s with clock := s.clock + d } else none
  | .reader input => s.readerStep config s.reader input
  | .monitor => s.monitorStep config s.monitor
  | .stop => s.stop config

/-- The plugin just started, at any time, and its steps. -/
def transition : Transition System Event :=
  .ofNext (fun s => ∃ t, s = { clock := t }) (next config)

end System

end ReticulumPi.Gps
