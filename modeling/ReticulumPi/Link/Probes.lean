import Mathlib.Data.Rat.Floor
import ReticulumPi.Lib.Dict
import ReticulumPi.Lib.PyValue
import ReticulumPi.Lib.Transition

/-!
# The probes of the link tester

A test sends numbered probes to a radio and waits for the routing response to
each. What becomes of a probe is kept in a table of pending probes, in
counters and in a bounded history, all under one lock; the threads that work on
them (the loop of each test, the SDK's response callbacks, the sweep for
timeouts, the callers of the public methods) are cut wherever they let go of
that lock, and take their steps in any order.
-/

namespace ReticulumPi.Link

/-- The settings of the plugin that its probes depend on. `upper` is `str.upper`. -/
structure Settings where
  targetNodeId : Option String := none
  probeCount : ℤ := 20
  probeTimeout : ℚ := 30
  maxHistory : ℕ := 500
  upper : String → String := String.toUpper

/-- The outcome of a probe. -/
inductive Status where
  | ack
  | nak
  | lost
deriving DecidableEq

/-- A record of the history. -/
structure ProbeResult where
  seq : ℕ
  time : ℚ
  rttMs : Option ℚ := none
  rssi : Option PyValue := none
  snr : Option PyValue := none
  status : Status
  errorReason : Option String := none

/-- An entry of `_pending_probes`. -/
structure PendingProbe where
  sendMono : ℚ
  sendWall : ℚ
  seq : ℕ
  generation : ℕ
deriving DecidableEq

/-- A probe given to the SDK: what its response callback closes over, and the
    id the SDK gives its packet. -/
structure Probe where
  generation : ℕ
  seq : ℕ
  sendMono : ℚ
  sendWall : ℚ
  packetId : ℕ
deriving DecidableEq

/-- `(generation, seq)` -/
def Probe.stagingKey (p : Probe) : ℕ × ℕ := (p.generation, p.seq)

/-- The probe's entry of `_pending_probes`. -/
def Probe.pending (p : Probe) : PendingProbe := ⟨p.sendMono, p.sendWall, p.seq, p.generation⟩

/-- What the lock of the plugin guards. `interface` says that there is one. -/
structure LoraLinkTester where
  active : Bool := true
  connected : Bool := false
  interface : Bool := false
  testRunning : Bool := false
  testGeneration : ℕ := 0
  testTarget : Option String := none
  testStopEvent : Bool := false
  currentSequence : ℕ := 0
  probesSent : ℕ := 0
  probesAcked : ℕ := 0
  probesLost : ℕ := 0
  pendingProbes : Dict ℕ PendingProbe := ∅
  pendingProbeSends : List (ℕ × ℕ) := []
  earlyProbeAcks : Dict (ℕ × ℕ) PyValue := ∅
  history : List ProbeResult := []

/-! ## Routing responses -/

/-- `_parse_routing_response` -/
def parseRoutingResponse (upper : String → String) (packet : PyValue) : Option (ℕ × String) :=
  match packet.get? "decoded" with
  | some decoded =>
    match decoded.get? "portnum", decoded.get? "requestId", decoded.get? "routing" with
    | some (.str portnum), some (.int requestId), some (.dict routing) =>
      if portnum ≠ "ROUTING_APP" ∨ requestId < 0 ∨ 0xFFFFFFFF < requestId then none
      else
        match (PyValue.dict routing).get? "errorReason" with
        | none => some (requestId.toNat, "NONE")
        | some rawError =>
          if rawError.isZero then some (requestId.toNat, "NONE")
          else
            match rawError with
            | .str reason =>
              if reason = "" then none else some (requestId.toNat, upper reason)
            | _ => none
    | _, _, _ => none
  | none => none

/-- `round(q, 1)`: to one decimal, halves to the even side. -/
def round1 (q : ℚ) : ℚ :=
  let n := ⌊10 * q⌋
  let rest := 10 * q - n
  if rest < 1 / 2 ∨ (rest = 1 / 2 ∧ n % 2 = 0) then n / 10 else (n + 1) / 10

/-- The record of a routing response. -/
def responseResult (p : Probe) (reason : String) (packet : PyValue) (recvMono : ℚ) : ProbeResult where
  seq := p.seq
  time := p.sendWall
  rttMs := if reason = "NONE" then some (round1 ((recvMono - p.sendMono) * 1000)) else none
  rssi := packet.get? "rxRssi"
  snr := packet.get? "rxSnr"
  status := if reason = "NONE" then .ack else .nak
  errorReason := if reason = "NONE" then none else some reason

/-- The record of a probe that timed out. -/
def lostResult (e : PendingProbe) : ProbeResult where
  seq := e.seq
  time := e.sendWall
  status := .lost

namespace LoraLinkTester

variable (settings : Settings) (t : LoraLinkTester)

/-- `self._history.append(result)`: a full history lets its oldest record go. -/
def appendHistory (result : ProbeResult) : LoraLinkTester :=
  { t with history := (t.history ++ [result]).drop (t.history.length + 1 - settings.maxHistory) }

/-- The response to a pending probe is recorded. -/
def recordResponse (requestId : ℕ) (reason : String)
    (result : ProbeResult) : LoraLinkTester :=
  { t with
    pendingProbes := t.pendingProbes.erase requestId
    probesAcked := if reason = "NONE" then t.probesAcked + 1 else t.probesAcked
    probesLost := if reason = "NONE" then t.probesLost else t.probesLost + 1 }.appendHistory
      settings result

theorem lawfulBEq_stagingKey : LawfulBEq (ℕ × ℕ) := inferInstance

attribute [local instance] lawfulBEq_stagingKey

/-- What `on_response` does under the lock, and the result it records. -/
def commitResponse (p : Probe) (requestId : ℕ) (reason : String)
    (packet : PyValue) (recvMono : ℚ) : LoraLinkTester × Option ProbeResult :=
  if t.active = false ∨ t.testGeneration ≠ p.generation ∨ t.testRunning = false then (t, none)
  else
    match t.pendingProbes.get? requestId with
    | none =>
      if p.stagingKey ∈ t.pendingProbeSends ∧ (t.earlyProbeAcks.get? p.stagingKey).isNone then
        ({ t with earlyProbeAcks := t.earlyProbeAcks.set p.stagingKey packet }, none)
      else (t, none)
    | some e =>
      if e.seq ≠ p.seq ∨ e.generation ≠ p.generation then (t, none)
      else
        let result := responseResult p reason packet recvMono
        (t.recordResponse settings requestId reason result, some result)

/-- The callback `on_response` of the probe `p`: what it records, with the id. -/
def onResponse (p : Probe) (packet : PyValue) (recvMono : ℚ) :
    LoraLinkTester × Option (ℕ × ProbeResult) :=
  match parseRoutingResponse settings.upper packet with
  | none => (t, none)
  | some (requestId, reason) =>
    let (t, result) := t.commitResponse settings p requestId reason packet recvMono
    (t, result.map (requestId, ·))

/-! ## Timeouts -/

/-- The probes that `_sweep_timeouts` finds timed out at `now`. -/
def timedOut (now : ℚ) : List (ℕ × PendingProbe) :=
  t.pendingProbes.entries.filter fun e =>
    e.2.generation = t.testGeneration ∧ settings.probeTimeout < now - e.2.sendMono

/-- One probe is recorded as lost. -/
def loseProbe (e : ℕ × PendingProbe) : LoraLinkTester :=
  { t with
    pendingProbes := t.pendingProbes.erase e.1
    probesLost := t.probesLost + 1 }.appendHistory settings (lostResult e.2)

/-- What `_sweep_timeouts` does under the lock. -/
def sweepTimeouts (now : ℚ) : LoraLinkTester :=
  (t.timedOut settings now).foldl (loseProbe settings) t

/-! ## Public methods -/

/-- `_MESH_NODE_ID_RE.match`: an exclamation mark and eight hexadecimal digits,
    and perhaps a line break after them. -/
def isMeshNodeId (s : String) : Bool :=
  match s.toList with
  | '!' :: digits =>
    (digits.length = 8 || (digits.length = 9 && digits.getLast? = some '\n')) &&
      (digits.take 8).all fun c =>
        ('0' ≤ c && c ≤ '9') || ('a' ≤ c && c ≤ 'f') || ('A' ≤ c && c ≤ 'F')
  | _ => false

/-- Why `start_test` refuses: "test already running", "radio not connected",
    "no target specified", "invalid target: …", "count must be a non-negative
    integer (0 = unlimited)". -/
inductive StartRefusal where
  | alreadyRunning
  | notConnected
  | noTarget
  | invalidTarget (target : PyValue)
  | invalidCount

/-- The target a test is started with: the configured one if none is given. -/
def effectiveTarget (target : PyValue) : PyValue :=
  if target.truthy then target else settings.targetNodeId.elim .none .str

/-- The probe count a test is started with. -/
def effectiveCount (count : PyValue) : Option ℤ :=
  match count with
  | .none => some settings.probeCount
  | .int n => if n < 0 then none else some n
  | _ => none

/-- What `start_test` changes. -/
def beginTest (target : String) : LoraLinkTester :=
  { t with
    testRunning := true
    testGeneration := t.testGeneration + 1
    testTarget := some target
    testStopEvent := false
    currentSequence := 0
    probesSent := 0
    probesAcked := 0
    probesLost := 0
    pendingProbes := ∅
    pendingProbeSends := []
    earlyProbeAcks := ∅ }

/-- `start_test` up to the start of its thread, with the count it answers. -/
def startTest (target count : PyValue) : Except StartRefusal (LoraLinkTester × ℤ) :=
  if t.testRunning then .error .alreadyRunning
  else if t.connected = false then .error .notConnected
  else if (effectiveTarget settings target).truthy = false then .error .noTarget
  else
    match effectiveTarget settings target, effectiveCount settings count with
    | .str target, count =>
      if isMeshNodeId target = false then .error (.invalidTarget (.str target))
      else count.elim (.error .invalidCount) fun count => .ok (t.beginTest target, count)
    | target, _ => .error (.invalidTarget target)

/-- `stop_test` -/
def stopTest : LoraLinkTester :=
  if t.testRunning = false then t
  else
    { t with
      testStopEvent := true
      testRunning := false
      testGeneration := t.testGeneration + 1
      pendingProbes := ∅
      pendingProbeSends := []
      earlyProbeAcks := ∅ }

/-- `clear_history` -/
def clearHistory : LoraLinkTester :=
  { t with history := [], probesSent := 0, probesAcked := 0, probesLost := 0 }

/-! ## The probe loop -/

/-- `_test_generation_is_active` -/
def testGenerationIsActive (generation : ℕ) : Bool :=
  t.active && t.testRunning && t.testGeneration = generation && !t.testStopEvent

/-- The staging key goes, and the response kept under it. -/
def unstage (key : ℕ × ℕ) : LoraLinkTester :=
  { t with
    pendingProbeSends := t.pendingProbeSends.filter (· ≠ key)
    earlyProbeAcks := t.earlyProbeAcks.erase key }

/-- The send has returned the packet of a probe of the test that still runs. -/
def registerProbe (p : Probe) : LoraLinkTester :=
  { t with
    pendingProbes := t.pendingProbes.set p.packetId p.pending
    probesSent := t.probesSent + 1
    currentSequence := p.seq + 1 }.unstage p.stagingKey

end LoraLinkTester

/-- Where a probe loop stands. -/
inductive LoopPc where
  /-- The head of the loop. -/
  | head (seq : ℕ)
  /-- `_send_probe` is called. -/
  | entering (seq : ℕ)
  /-- It has found the test still running. -/
  | timing (seq : ℕ)
  /-- It has read the clocks. -/
  | staging (seq : ℕ) (sendMono sendWall : ℚ)
  /-- Inside `_send_data_bounded`. -/
  | sending (p : Probe)
  /-- The send has returned a packet. -/
  | sent (p : Probe)
  /-- A response that came before is given to the callback again. -/
  | replaying (p : Probe) (packet : PyValue)
  /-- The send has raised. -/
  | unstaging (p : Probe)
  /-- `_send_probe` has raised. -/
  | failed (seq : ℕ)
  /-- Waiting for the next turn. -/
  | waiting (seq : ℕ)
  /-- The `finally` block. -/
  | finishing (seq : ℕ)

/-- Where a loop goes on once the send of `p` is counted: an early response is
    given to the callback again. -/
def LoopPc.afterSend (p : Probe) : Option PyValue → LoopPc
  | some packet => .replaying p packet
  | none => .waiting (p.seq + 1)

/-- The thread of one test. -/
structure ProbeLoop where
  count : ℤ
  pc : LoopPc

/-- The plugin and its threads; the loop of a test is found under the test's
    generation. `sweep` is the time a sweep has read. The rest is not in the
    source, but records what has happened: `probes` the probes given to the SDK,
    `registered` the ids of those whose send was counted, `log` every record ever
    made, with the id of its probe, `answered` the ids of the probes to which a
    response came in time while their test was running, and `discarded` the
    number of probes that were pending when `stop_test` ended the test the
    counters are about. -/
structure System where
  tester : LoraLinkTester := {}
  loops : Dict ℕ ProbeLoop := ∅
  sweep : Option ℚ := none
  clock : ℚ := 0
  probes : List Probe := []
  registered : List ℕ := []
  log : List (ℕ × ProbeResult) := []
  answered : List ℕ := []
  discarded : ℕ := 0

/-- The steps of the threads, with what each learns from outside. -/
inductive Event where
  | startTest (target count : PyValue)
  | stopTest
  | clearHistory
  | tick (elapsed : ℚ)
  /-- The connection is made, changes or is lost. -/
  | connection (connected interface : Bool)
  /-- The loop of the test goes on. -/
  | loop (generation : ℕ)
  /-- It reads the clocks. -/
  | readClock (generation : ℕ) (sendWall : ℚ)
  /-- It gives a probe to the SDK, which chooses the packet's id. -/
  | send (generation packetId : ℕ)
  /-- The send returns, or raises. -/
  | sendReturns (generation : ℕ) (ok : Bool)
  /-- The callback of a probe is called with a packet. -/
  | respond (p : Probe) (packet : PyValue) (recvMono : ℚ)
  | beginSweep
  | sweep

namespace System

variable (settings : Settings) (s : System) (generation : ℕ)

/-- The loop of a test goes on to `pc`. -/
def goto (l : ProbeLoop) (pc : LoopPc) : System :=
  { s with loops := s.loops.set generation { l with pc } }

/-- The result of a callback is logged. -/
def respond (p : Probe) (packet : PyValue) (recvMono : ℚ) : System :=
  let (tester, result) := s.tester.onResponse settings p packet recvMono
  { s with tester, log := s.log ++ result.toList }

/-- The send of a probe has returned its packet. -/
def register (l : ProbeLoop) (p : Probe) : System :=
  if s.tester.testGeneration ≠ generation ∨ s.tester.testRunning = false then
    { s with tester := s.tester.unstage p.stagingKey }.goto generation l (.waiting (p.seq + 1))
  else
    { s with
      tester := s.tester.registerProbe p
      registered := p.packetId :: s.registered }.goto generation l
      (.afterSend p (s.tester.earlyProbeAcks.get? p.stagingKey))

/-- The end of a probe loop. -/
def finishLoop : System :=
  { s with
    tester :=
      if s.tester.testGeneration = generation then { s.tester with testRunning := false }
      else s.tester
    loops := s.loops.erase generation }

/-- The loop of a test goes on from where it stands, where it does not wait for
    the clock or the SDK. -/
def stepLoop (l : ProbeLoop) : Option System :=
  match l.pc with
  | .head seq =>
    some <| s.goto generation l <|
      if s.tester.testGenerationIsActive generation = false ∨ (0 < l.count ∧ l.count ≤ seq) then
        .finishing seq
      else .entering seq
  | .entering seq =>
    some <| s.goto generation l <|
      if s.tester.interface = false ∨ s.tester.testGeneration ≠ generation ∨
          s.tester.testRunning = false then
        .failed seq
      else .timing seq
  | .sent p => some (s.register generation l p)
  | .replaying p packet =>
    some <| (s.respond settings p packet s.clock).goto generation l (.waiting (p.seq + 1))
  | .unstaging p =>
    some <| { s with tester := s.tester.unstage p.stagingKey }.goto generation l (.failed p.seq)
  | .failed seq =>
    some <| s.goto generation l <|
      if s.tester.connected = false then .finishing seq else .waiting (seq + 1)
  | .waiting seq => some (s.goto generation l (.head seq))
  | .finishing _ => some (s.finishLoop generation)
  | .timing _ => none
  | .staging _ _ _ => none
  | .sending _ => none

/-- A probe is given to the SDK: its staging key is entered. -/
def stage (l : ProbeLoop) (p : Probe) : System :=
  { s with
    tester := { s.tester with pendingProbeSends := p.stagingKey :: s.tester.pendingProbeSends }
    probes := p :: s.probes }.goto generation l (.sending p)

/-- The response to a probe comes in time: its test is running, and the probe
    is not older than the timeout. -/
def inTime (p : Probe) (packet : PyValue) : Bool :=
  (parseRoutingResponse settings.upper packet).isSome && s.tester.testRunning &&
    s.tester.testGeneration = p.generation && s.clock - p.sendMono ≤ settings.probeTimeout

/-- The effect of an event, where it is possible. The SDK gives every packet its
    own id, and calls a callback only for responses to the packet's id. -/
def next (s : System) : Event → Option System
  | .startTest target count =>
    match s.tester.startTest settings target count with
    | .error _ => some s
    | .ok (tester, count) =>
      some { s with
        tester
        loops := s.loops.set tester.testGeneration ⟨count, .head 0⟩
        discarded := 0 }
  | .stopTest =>
    some { s with
      tester := s.tester.stopTest
      discarded :=
        if s.tester.testRunning then s.discarded + s.tester.pendingProbes.entries.length
        else s.discarded }
  | .clearHistory => some { s with tester := s.tester.clearHistory, discarded := 0 }
  | .tick elapsed => if 0 ≤ elapsed then some { s with clock := s.clock + elapsed } else none
  | .connection connected interface =>
    some { s with tester := { s.tester with connected, interface } }
  | .loop generation => (s.loops.get? generation).bind (s.stepLoop settings generation)
  | .readClock generation sendWall =>
    match s.loops.get? generation with
    | some ⟨count, .timing seq⟩ =>
      some (s.goto generation ⟨count, .timing seq⟩ (.staging seq s.clock sendWall))
    | _ => none
  | .send generation packetId =>
    match s.loops.get? generation with
    | some ⟨count, .staging seq sendMono sendWall⟩ =>
      if packetId ∈ s.probes.map (·.packetId) then none
      else
        some (s.stage generation ⟨count, .staging seq sendMono sendWall⟩
          ⟨generation, seq, sendMono, sendWall, packetId⟩)
    | _ => none
  | .sendReturns generation ok =>
    match s.loops.get? generation with
    | some ⟨count, .sending p⟩ =>
      some (s.goto generation ⟨count, .sending p⟩ (if ok then .sent p else .unstaging p))
    | _ => none
  | .respond p packet recvMono =>
    if p ∈ s.probes ∧
        (parseRoutingResponse settings.upper packet).all (fun r => r.1 = p.packetId) = true then
      some { s.respond settings p packet recvMono with
        answered := if s.inTime settings p packet then p.packetId :: s.answered else s.answered }
    else none
  | .beginSweep => if s.sweep = none then some { s with sweep := some s.clock } else none
  | .sweep =>
    s.sweep.map fun now =>
      { s with
        tester := s.tester.sweepTimeouts settings now
        sweep := none
        log := s.log ++ (s.tester.timedOut settings now).map fun e => (e.1, lostResult e.2) }

/-- The plugin, just started, and its threads. -/
def transition : Transition System Event := .ofNext (· = {}) (next settings)

end System

end ReticulumPi.Link
