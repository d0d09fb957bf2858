import ReticulumPi.Bridge.Mtu
import Mathlib.Algebra.Order.Ring.Rat

/-!
# LXMF messages for the mesh

The Meshtastic gateway sends the text of an incoming LXMF message to the mesh,
if the sender is allowed to. No two texts are sent within the interval of the
rate limit: a text that comes too early waits in a bounded queue, which the
connection loop drains.
-/

namespace ReticulumPi.Gateway

open ReticulumPi.Bridge (truncateForMtu)

/-- `_SerialCommandOutcome` -/
inductive CommandOutcome
  | success
  | busy
  | stale
  | timeout
  | error
  deriving DecidableEq

/-- `_SerialCommandResult` -/
structure CommandResult where
  outcome : CommandOutcome
  started : Bool := false
  deriving DecidableEq

def CommandResult.succeeded (r : CommandResult) : Bool := r.outcome = .success

def CommandResult.uncertain (r : CommandResult) : Bool :=
  r.started && (r.outcome = .stale || r.outcome = .timeout || r.outcome = .error)

/-- `MESHTASTIC_MTU` -/
def meshtasticMtu : ℤ := 233

structure Config where
  /-- `_send_min_interval` -/
  sendMinInterval : ℚ := 0
  sendQueueMax : ℤ := 10
  sendQueueTtl : ℚ := 60
  /-- `_lxmf_allow_set`, in lower case -/
  lxmfAllowSet : List (List Char) := []
  lxmfHeader : List Char := "[LXMF]".toList
  meshtasticChannel : ℤ := 0

/-- An LXMF message; `content` is missing if it raises to ask for it. -/
structure Message where
  sourceHash : List (Fin 256)
  content : Option (List Char)
  deriving DecidableEq

/-- `bytes.hex()` -/
def hex (b : List (Fin 256)) : List Char :=
  b.flatMap fun x => [Nat.digitChar (x.val / 16), Nat.digitChar (x.val % 16)]

/-- `RNS.prettyhexrep` -/
def prettyhexrep (b : List (Fin 256)) : List Char := "<".toList ++ hex b ++ ">".toList

/-- The sender may forward to the mesh. -/
def Config.allows (config : Config) (message : Message) : Bool :=
  config.lxmfAllowSet.isEmpty ||
    config.lxmfAllowSet.contains ((hex message.sourceHash).map Char.toLower)

/-- The text that is sent for a message. -/
def Config.format (config : Config) (sourceHash : List (Fin 256)) (content : List Char) :
    List Char :=
  truncateForMtu (config.lxmfHeader ++ " ".toList ++ prettyhexrep sourceHash ++ ":\n".toList)
    content meshtasticMtu

/-- A text in the queue. -/
structure Item where
  enqueuedAt : ℚ
  text : List Char
  channel : ℤ
  deriving DecidableEq

/-- The gateway, as far as it forwards LXMF messages. An interface is known by a number. -/
structure Forwarder where
  active : Bool := true
  connected : Bool := false
  meshInterface : Option ℕ := none
  serialListener : Option ℕ := none
  lastSendTime : ℚ := 0
  sendQueue : List Item := []
  sendQueueDropped : ℕ := 0
  msgsRateLimited : ℕ := 0
  msgsLxmfToMesh : ℕ := 0
  lastLxmfMsgTime : Option ℚ := none
  deriving DecidableEq

/-- What becomes of a text. -/
inductive Action
  /-- It is handed to the interface. -/
  | handed (iface : ℕ) (text : List Char) (channel : ℤ)
  /-- The interface did not take it, or there is none, and it is dropped. -/
  | lost (text : List Char)
  | queued (item : Item)
  /-- The queue is full, and its oldest text is dropped. -/
  | evicted (item : Item)
  | expired (item : Item)
  /-- An error is raised from the queue. -/
  | raised
  deriving DecidableEq

namespace Forwarder

variable (config : Config) (g : Forwarder)

/-- `_check_send_rate_limit`, at the time `now` -/
def checkSendRateLimit (now : ℚ) : Bool × Forwarder :=
  if config.sendMinInterval ≤ 0 then (true, g)
  else if config.sendMinInterval ≤ now - g.lastSendTime then (true, { g with lastSendTime := now })
  else (false, { g with msgsRateLimited := g.msgsRateLimited + 1 })

/-- `_enqueue_lxmf_send`, at the time `now` -/
def enqueueLxmfSend (message : Message) (now : ℚ) : Forwarder × List Action :=
  match message.content with
  | none => (g, [])
  | some content =>
    if !config.allows message then (g, [])
    else
      let item : Item :=
        ⟨now, config.format message.sourceHash content, config.meshtasticChannel⟩
      if config.sendQueueMax ≤ g.sendQueue.length then
        let g := { g with sendQueueDropped := g.sendQueueDropped + 1 }
        match g.sendQueue with
        | [] => (g, [.raised])
        | oldest :: queue =>
          ({ g with sendQueue := queue ++ [item] }, [.evicted oldest, .queued item])
      else ({ g with sendQueue := g.sendQueue ++ [item] }, [.queued item])

/-- The interface that a text is sent on. -/
def iface : Option ℕ :=
  if g.connected && g.meshInterface.isSome then g.meshInterface else g.serialListener

/-- A text came through. -/
def countSent (now : ℚ) : Forwarder :=
  { g with msgsLxmfToMesh := g.msgsLxmfToMesh + 1, lastLxmfMsgTime := some now }

/-- `_handle_lxmf_message`, when the clock shows `now` at the rate limit and `later` afterwards,
    and sending ends with `result`. -/
def handleLxmfMessage (message : Message) (now later : ℚ) (result : CommandResult) :
    Forwarder × List Action :=
  if !g.active then (g, [])
  else
    match g.checkSendRateLimit config now with
    | (false, g) => g.enqueueLxmfSend config message later
    | (true, g) =>
      match message.content with
      | none => (g, [])
      | some content =>
        if !config.allows message then (g, [])
        else
          let formatted := config.format message.sourceHash content
          match g.iface with
          | none => (g, [.lost formatted])
          | some iface =>
            (if result.succeeded then g.countSent later else g,
              [if result.started then .handed iface formatted config.meshtasticChannel
                else .lost formatted])

/-- The clock and the interface while the queue is drained: the times that the clock shows one
    after the other, and how sending ends. -/
structure Drain where
  times : ℕ → ℚ
  results : ℕ → CommandResult

/-- The loop of `_drain_send_queue`, on the queue that is left; `k` counts its rounds. -/
def drainFrom (env : Drain) : ℕ → List Item → Forwarder → Forwarder × List Action
  | _, [], g => ({ g with sendQueue := [] }, [])
  | k, item :: queue, g =>
    if config.sendQueueTtl < env.times (3 * k) - item.enqueuedAt then
      let (g, actions) := drainFrom env (k + 1) queue g
      (g, .expired item :: actions)
    else
      match g.checkSendRateLimit config (env.times (3 * k + 1)) with
      | (false, g) => ({ g with sendQueue := item :: queue }, [])
      | (true, g) =>
        match g.iface with
        | none => ({ g with sendQueue := item :: queue }, [])
        | some iface =>
          let result := env.results k
          if result.succeeded then
            let (g, actions) :=
              drainFrom env (k + 1) queue (g.countSent (env.times (3 * k + 2)))
            (g, .handed iface item.text item.channel :: actions)
          else if !result.started then ({ g with sendQueue := item :: queue }, [])
          else ({ g with sendQueue := queue }, [.handed iface item.text item.channel])

/-- `_drain_send_queue` -/
def drainSendQueue (env : Drain) : Forwarder × List Action :=
  drainFrom config env 0 g.sendQueue g

inductive Event
  /-- An LXMF message comes in. -/
  | message (message : Message) (now later : ℚ) (result : CommandResult)
  | drain (env : Drain)
  /-- The connection loop has changed the interfaces. -/
  | interfaces (connected : Bool) (meshInterface serialListener : Option ℕ)
  | activate (active : Bool)

def step (g : Forwarder) : Event → Forwarder × List Action
  | .message message now later result => g.handleLxmfMessage config message now later result
  | .drain env => g.drainSendQueue config env
  | .interfaces connected meshInterface serialListener =>
    ({ g with
        connected := connected, meshInterface := meshInterface,
        serialListener := serialListener }, [])
  | .activate active => ({ g with active := active }, [])

end Forwarder

end ReticulumPi.Gateway
