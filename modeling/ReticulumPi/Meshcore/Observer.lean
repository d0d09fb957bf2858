import Mathlib.Data.Int.Notation
import Mathlib.Data.Nat.Notation
import ReticulumPi.Lib.Transition

/-!
# The packet path of the MeshCore observer

Received packets go through a bounded queue from the device callback
(`_handle_rx_log`) to the thread that publishes them over MQTT
(`_mqtt_connection_loop`, `_publish_packet`). Both are cut wherever they let go
of a lock or wait, and between two cuts any other step may come: those of the
other thread, of paho's callbacks, and of `stop`. Which answers paho and the
broker give are inputs of the steps that learn them.
-/

namespace ReticulumPi.Meshcore

/-- What the observer's threads share. Client objects are numbered in the order
    in which they are made. -/
structure Observer (α : Type) where
  active : Bool := true
  mqttClient : Option ℕ := none
  mqttGeneration : ℕ := 0
  connectedMqtt : Bool := false
  packetQueueSize : ℤ
  packetQueue : List α := []
  packetsCaptured : ℕ := 0
  packetsPublished : ℕ := 0
  packetsFailed : ℕ := 0

/-- Where `_handle_rx_log` stands. -/
inductive RxPc (α : Type) where
  | idle
  /-- `put_nowait` has raised `Full`. -/
  | full (packet : α)
  /-- The oldest packet has been taken out, if there was one. -/
  | trimmed (packet : α)
  /-- The overflow is to be counted. -/
  | overflowed
  /-- The packet is to be counted as captured. -/
  | counting
deriving DecidableEq

/-- Where `_mqtt_connection_loop` stands. -/
inductive MqttPc (α : Type) where
  | top
  /-- `_connect_mqtt` makes a client. -/
  | settingUp
  /-- `_connect_mqtt` has published its candidate and waits for the connection. -/
  | connecting (client generation : ℕ)
  | draining
  /-- Inside the `get` with a timeout. -/
  | waiting
  | holding (packet : α)
  /-- Inside `client.publish`. -/
  | publishing (packet : α) (client generation : ℕ)
  /-- `client.publish` answered with success, which is to be counted. -/
  | published (client generation : ℕ)
  /-- `client.publish` answered with an error or raised, which is to be counted. -/
  | failing
  /-- The checks after each packet. -/
  | checking
  /-- Inside `_disconnect_mqtt`, the client being detached. -/
  | disconnecting
  | finished

/-- The packets in the hands of `_mqtt_connection_loop`, which has taken them
    from the queue and neither counted nor dropped them. -/
def MqttPc.inHand {α : Type} : MqttPc α → ℕ
  | holding _ => 1
  | publishing _ _ _ => 1
  | published _ _ => 1
  | failing => 1
  | _ => 0

/-- Where `stop` stands. -/
inductive StopPc where
  | running
  | stopping
  | detached
  | stopped
deriving DecidableEq

/-- How `client.publish` ends. -/
inductive PublishResult where
  | success
  | errorCode
  | raised
deriving DecidableEq

namespace Observer

variable {α : Type}

/-! ## The packet queue -/

variable (o : Observer α)

/-- `full()` -/
def queueFull : Bool :=
  0 < o.packetQueueSize ∧ o.packetQueueSize ≤ o.packetQueue.length

/-- `put_nowait`; `none` is `queue.Full` -/
def putNowait (packet : α) : Option (Observer α) :=
  if o.queueFull then none else some { o with packetQueue := o.packetQueue ++ [packet] }

/-- `get_nowait`; `none` is `queue.Empty` -/
def getNowait : Option (α × Observer α) :=
  match o.packetQueue with
  | [] => none
  | packet :: rest => some (packet, { o with packetQueue := rest })

/-! ## Packet capture -/

/-- `_handle_rx_log` up to the first `put_nowait`. No packet comes when
    `_build_packet_json` raises. -/
def handleRxLog : Option α → Observer α × RxPc α
  | none => (o, .idle)
  | some packet =>
    match o.putNowait packet with
    | some o => (o, .counting)
    | none => (o, .full packet)

/-- The next step of `_handle_rx_log`. -/
def resumeRxLog : RxPc α → Observer α × RxPc α
  | .idle => (o, .idle)
  | .full packet => ((o.getNowait.map (·.2)).getD o, .trimmed packet)
  | .trimmed packet => ((o.putNowait packet).getD o, .overflowed)
  | .overflowed => ({ o with packetsFailed := o.packetsFailed + 1 }, .counting)
  | .counting => ({ o with packetsCaptured := o.packetsCaptured + 1 }, .idle)

/-! ## The MQTT client -/

variable (client generation : ℕ)

/-- `_mqtt_client_is_current` -/
def mqttClientIsCurrent (requireConnected : Bool) : Bool :=
  o.active && o.mqttClient = some client && o.mqttGeneration = generation &&
    (o.connectedMqtt || !requireConnected)

/-- `_connect_mqtt` publishes its candidate; `none` when it raises instead. -/
def attachMqtt (client : ℕ) : Option (Observer α) :=
  if o.active = false ∨ o.mqttClient.isSome then none
  else
    some { o with
      mqttGeneration := o.mqttGeneration + 1
      mqttClient := some client
      connectedMqtt := false }

/-- What `_disconnect_mqtt` does under the lifecycle lock. -/
def detachMqtt : Observer α :=
  { o with mqttGeneration := o.mqttGeneration + 1, mqttClient := none, connectedMqtt := false }

/-- `_close_mqtt_candidate` -/
def closeMqttCandidate : Observer α :=
  if o.mqttClient = some client ∧ o.mqttGeneration = generation then o.detachMqtt else o

/-- `on_disconnect` -/
def onDisconnect : Observer α :=
  if o.mqttClientIsCurrent client generation false then { o with connectedMqtt := false } else o

/-- `_mqtt_publish_snapshot` -/
def mqttPublishSnapshot : Option (ℕ × ℕ) :=
  match o.mqttClient with
  | some client =>
    if o.active = true ∧ o.connectedMqtt = true then some (client, o.mqttGeneration) else none
  | none => none

/-! ## Publishing -/

/-- `_publish_packet` up to `client.publish`. -/
def publishPacket (packet : α) : MqttPc α :=
  match o.mqttPublishSnapshot with
  | none => .checking
  | some (client, generation) => .publishing packet client generation

/-- `_publish_packet` counts a success, if the client still owns the connection. -/
def countPublished : Observer α :=
  if o.mqttClientIsCurrent client generation true then
    { o with packetsPublished := o.packetsPublished + 1 }
  else o

/-- `_publish_packet` counts a failure. -/
def countFailed : Observer α :=
  { o with packetsFailed := o.packetsFailed + 1 }

end Observer

/-- The observer and its threads. `accepting` says that a paho callback has
    accepted a CONNACK and holds the lifecycle lock; `nextClient` numbers the
    clients. -/
structure ObserverSystem (α : Type) where
  observer : Observer α
  rx : RxPc α := .idle
  mqtt : MqttPc α := .top
  stop : StopPc := .running
  accepting : Bool := false
  nextClient : ℕ := 0

/-- The steps of the threads, with what each learns from outside. -/
inductive ObserverEvent (α : Type) where
  /-- An RX_LOG_DATA event, and the packet built from it. -/
  | received (packet : Option α)
  | resumeRxLog
  /-- The head of the outer loop. -/
  | turn (internet : Bool)
  /-- `_connect_mqtt` has made a client, or raised. -/
  | setUp (ok : Bool)
  /-- `_connect_mqtt` returns, or gives its candidate up. -/
  | settle (ok : Bool)
  /-- The head of the drain loop. -/
  | drain
  /-- The `get` returns a packet, or times out on an empty queue. -/
  | take
  | publishPacket
  | publishReturns (result : PublishResult)
  | count
  /-- The checks after a packet: `is_connected()` denies, the JWT expires soon. -/
  | check (lost expiring : Bool)
  /-- `_disconnect_mqtt` ends. -/
  | disconnected
  /-- A paho callback accepts a CONNACK, and then marks the connection or, the
      publication of the status failing, does not. -/
  | connack (client generation : ℕ)
  | markConnected
  | abandonConnack
  | onDisconnect (client generation : ℕ)
  | stop
  | stopDetach
  | stopClear

namespace ObserverSystem

variable {α : Type} (s : ObserverSystem α)

/-- The loop takes a packet from the queue, or finds it still empty. -/
def take : ObserverSystem α :=
  match s.observer.getNowait with
  | some (packet, observer) => { s with observer, mqtt := .holding packet }
  | none => { s with mqtt := .checking }

/-- The checks of `_mqtt_connection_loop` after each packet. -/
def check (lost expiring : Bool) : Option (ObserverSystem α) :=
  if (s.observer.mqttClient.isSome ∧ lost = true) ∨ expiring = true then
    if s.accepting then none
    else some { s with observer := s.observer.detachMqtt, mqtt := .disconnecting }
  else some { s with mqtt := .draining }

/-- The effect of an event, where it is possible: the thread stands there, and
    the lifecycle lock is free where the step takes it. -/
def next : ObserverEvent α → Option (ObserverSystem α)
  | .received packet =>
    match s.rx with
    | .idle =>
      let (observer, rx) := s.observer.handleRxLog packet
      some { s with observer, rx }
    | _ => none
  | .resumeRxLog =>
    match s.rx with
    | .idle => none
    | pc =>
      let (observer, rx) := s.observer.resumeRxLog pc
      some { s with observer, rx }
  | .turn internet =>
    match s.mqtt with
    | .top =>
      some { s with
        mqtt :=
          if s.observer.active = false then .finished
          else if internet = false then .top
          else if s.observer.connectedMqtt = false then .settingUp
          else .draining }
    | _ => none
  | .setUp ok =>
    match s.mqtt with
    | .settingUp =>
      if ok = false then some { s with mqtt := .top }
      else if s.accepting then none
      else
        match s.observer.attachMqtt s.nextClient with
        | some observer =>
          some { s with
            observer
            mqtt := .connecting s.nextClient observer.mqttGeneration
            nextClient := s.nextClient + 1 }
        | none => some { s with mqtt := .top }
    | _ => none
  | .settle ok =>
    match s.mqtt with
    | .connecting client generation =>
      if ok = true then
        if s.observer.mqttClientIsCurrent client generation true then
          some { s with mqtt := .draining }
        else none
      else if s.accepting then none
      else some { s with observer := s.observer.closeMqttCandidate client generation, mqtt := .top }
    | _ => none
  | .drain =>
    match s.mqtt with
    | .draining =>
      some { s with
        mqtt :=
          if s.observer.active = true ∧ s.observer.connectedMqtt = true then .waiting else .top }
    | _ => none
  | .take =>
    match s.mqtt with
    | .waiting => some s.take
    | _ => none
  | .publishPacket =>
    match s.mqtt with
    | .holding packet => some { s with mqtt := s.observer.publishPacket packet }
    | _ => none
  | .publishReturns result =>
    match s.mqtt with
    | .publishing _ client generation =>
      some { s with
        mqtt := if result = .success then .published client generation else .failing }
    | _ => none
  | .count =>
    match s.mqtt with
    | .published client generation =>
      some { s with observer := s.observer.countPublished client generation, mqtt := .checking }
    | .failing => some { s with observer := s.observer.countFailed, mqtt := .checking }
    | _ => none
  | .check lost expiring =>
    match s.mqtt with
    | .checking => s.check lost expiring
    | _ => none
  | .disconnected =>
    match s.mqtt with
    | .disconnecting =>
      some { s with observer := { s.observer with connectedMqtt := false }, mqtt := .top }
    | _ => none
  | .connack client generation =>
    if s.accepting = false ∧ s.observer.mqttClientIsCurrent client generation false = true then
      some { s with accepting := true }
    else none
  | .markConnected =>
    if s.accepting then
      some { s with observer := { s.observer with connectedMqtt := true }, accepting := false }
    else none
  | .abandonConnack => if s.accepting then some { s with accepting := false } else none
  | .onDisconnect client generation =>
    if s.accepting then none
    else some { s with observer := s.observer.onDisconnect client generation }
  | .stop =>
    if s.stop = .running then
      some { s with observer := { s.observer with active := false }, stop := .stopping }
    else none
  | .stopDetach =>
    if s.stop = .stopping ∧ s.accepting = false then
      some { s with observer := s.observer.detachMqtt, stop := .detached }
    else none
  | .stopClear =>
    if s.stop = .detached then
      some { s with observer := { s.observer with connectedMqtt := false }, stop := .stopped }
    else none

/-- An observer with a queue of the configured size, started. -/
def transition (α : Type) (packetQueueSize : ℤ) :
    Transition (ObserverSystem α) (ObserverEvent α) :=
  .ofNext (· = { observer := { packetQueueSize } }) next

/-- No packet is in the hands of `_handle_rx_log` or of the publishing loop. -/
def HandsFree : Prop := s.rx = .idle ∧ s.mqtt.inHand = 0

end ObserverSystem

end ReticulumPi.Meshcore
