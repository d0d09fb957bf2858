import Mathlib.Data.List.Sort
import ReticulumPi.Lib.Dict
import ReticulumPi.Lib.Transition

/-!
# Emergency broadcasts

The `emergency_broadcast` plugin on the nodes of a network. What a node announces may be
received at any later time, any number of times and in any order, by the nodes that hear
it. On each node the blocks under `_lock` are atomic, and between them any number of calls
of `send_emergency` and `receive_emergency`, and of delayed rebroadcasts, are in progress
(`Task`); one that fails to announce its message does not try again.

What the messages say besides their identifier and their TTL is carried along, and their
texts in the log, the published events and the counters are left out.
-/

namespace ReticulumPi.Emergency

structure Msg where
  id : String
  ttl : ℤ
  body : String
  deriving DecidableEq

/-! ## The seen cache -/

/-- `_max_seen`. -/
def maxSeen : ℕ := 5000

/-- The first half of `_prune_seen_ids`: the entries older than the cutoff go. -/
def expire (cutoff : ℤ) (seenIds : Dict String ℤ) : Dict String ℤ :=
  seenIds.filter fun ts => cutoff ≤ ts

/-- The second half: beyond the hard cap, the oldest entries go. -/
def evictOldest (seenIds : Dict String ℤ) : Dict String ℤ :=
  if maxSeen < seenIds.entries.length then
    (((seenIds.entries.insertionSort fun a b => a.2 ≤ b.2).take
      (seenIds.entries.length - maxSeen)).map Prod.fst).foldl Dict.erase seenIds
  else seenIds

/-- `_prune_seen_ids`. -/
def pruneSeenIds (cutoff : ℤ) (seenIds : Dict String ℤ) : Dict String ℤ :=
  evictOldest (expire cutoff seenIds)

/-! ## Nodes -/

structure Config where
  seenTtl : ℤ := 86400
  maxStored : ℕ := 100
  maxTtl : ℤ := 5
  rebroadcast : Bool := true
  /-- `rebroadcast_delay` is positive. -/
  delayed : Bool := true

/-- A call in progress. -/
inductive Task
  /-- `send_emergency`, before it announces the message. -/
  | announcing (msg : Msg)
  /-- `receive_emergency`, before it stores the message. -/
  | storing (msg : Msg)
  /-- `receive_emergency` or `_delayed_rebroadcast`, before it announces the message, which
      was received with the TTL `received`. -/
  | relaying (msg : Msg) (received : ℤ)
  deriving DecidableEq

/-- The identifier of the message of a call. -/
def Task.id : Task → String
  | announcing msg | storing msg | relaying msg _ => msg.id

structure Node where
  config : Config
  active : Bool := true
  seenIds : Dict String ℤ := ∅
  /-- The most recent first. -/
  messages : List Msg := []
  tasks : List Task := []
  /-- When the node has last looked at its clock. -/
  clock : ℤ := 0
  /-- When a message was last marked as seen. -/
  seenAt : String → Option ℤ := fun _ => none

namespace Node

variable (node : Node)

/-- `_store_message`. -/
def storeMessage (msg : Msg) : Node :=
  { node with messages := (msg :: node.messages).take node.config.maxStored }

/-- A message is marked as seen. -/
def markSeen (id : String) (now : ℤ) : Node :=
  { node with
    seenIds := node.seenIds.set id now
    seenAt := Function.update node.seenAt id (some now)
    clock := now }

/-- `_prune_seen_ids`. -/
def prune (now : ℤ) : Node :=
  { node with seenIds := pruneSeenIds (now - node.config.seenTtl) node.seenIds, clock := now }

/-- A call goes on as another one, or ends. -/
def replaceTask (task : Task) (rest : Option Task) : Node :=
  { node with tasks := rest.toList ++ node.tasks.erase task }

end Node

/-! ## The network -/

structure Network (N : Type) where
  /-- What `u` announces can be received by `v`. -/
  hears : N → N → Bool
  config : N → Config
  /-- `_generate_id`. -/
  generateId : String → ℤ → N → String

/-- An announce, and the TTL with which its message was received, if it was. -/
structure Sent (N : Type) where
  node : N
  msg : Msg
  received : Option ℤ

structure System (N : Type) where
  nodes : N → Node
  sent : List (Sent N) := []
  /-- The messages that have been stored, and where. -/
  stored : List (N × Msg) := []
  /-- The messages that have been sent by `send_emergency`. -/
  injected : List (N × Msg) := []

inductive Event (N : Type)
  /-- The block of `send_emergency`. -/
  | send (v : N) (body : String) (ttl : Option ℤ) (now : ℤ)
  /-- `v` receives what `u` has announced: the block of the deduplication. -/
  | receive (u v : N) (msg : Msg) (now : ℤ)
  /-- The block that stores a message, and the decision to rebroadcast it. -/
  | store (v : N) (msg : Msg)
  /-- A message is announced, or this fails. -/
  | announce (v : N) (task : Task) (ok : Bool)
  /-- `_periodic_prune_loop`. -/
  | prune (v : N) (now : ℤ)
  | stop (v : N)

namespace System

variable {N : Type} [DecidableEq N] (net : Network N) (s : System N)

def setNode (v : N) (node : Node) : System N := { s with nodes := Function.update s.nodes v node }

/-- The message that `send_emergency` makes. -/
def message (v : N) (body : String) (ttl : Option ℤ) (now : ℤ) : Msg :=
  ⟨net.generateId body now v, ttl.getD (s.nodes v).config.maxTtl, body⟩

/-- What a received message is rebroadcast as, if it is. -/
def relay (config : Config) (msg : Msg) : Option Task :=
  if 1 < msg.ttl ∧ config.rebroadcast then some (.relaying { msg with ttl := msg.ttl - 1 } msg.ttl)
  else none

/-- The steps. -/
def next : Event N → Option (System N)
  | .send v body ttl now =>
    let msg := s.message net v body ttl now
    let node := s.nodes v
    if node.active then
      some { s.setNode v { (node.storeMessage msg).markSeen msg.id now with
          tasks := .announcing msg :: node.tasks } with
        stored := (v, msg) :: s.stored, injected := (v, msg) :: s.injected }
    else none
  | .receive u v msg now =>
    let node := s.nodes v
    if net.hears u v ∧ ∃ e ∈ s.sent, e.node = u ∧ e.msg = msg then
      if node.active = false ∨ msg.id = "" ∨ msg.id ∈ node.seenIds.keys then
        some (s.setNode v { node with clock := now })
      else some (s.setNode v { (node.markSeen msg.id now).prune now with
        tasks := .storing msg :: node.tasks })
    else none
  | .store v msg =>
    let node := s.nodes v
    if .storing msg ∈ node.tasks then
      some { s.setNode v ((node.storeMessage msg).replaceTask (.storing msg)
        (relay node.config msg)) with stored := (v, msg) :: s.stored }
    else none
  | .announce v task ok =>
    let node := s.nodes v
    if task ∈ node.tasks then
      match task with
      | .storing _ => none
      | .announcing msg => some { s.setNode v (node.replaceTask task none) with
          sent := if ok then ⟨v, msg, none⟩ :: s.sent else s.sent }
      | .relaying msg received => some { s.setNode v (node.replaceTask task none) with
          sent := if ok ∧ (node.config.delayed → node.active) then ⟨v, msg, some received⟩ :: s.sent
            else s.sent }
    else none
  | .prune v now => some (s.setNode v ((s.nodes v).prune now))
  | .stop v => some (s.setNode v { s.nodes v with active := false })

end System

def system {N : Type} [DecidableEq N] (net : Network N) : Transition (System N) (Event N) :=
  .ofNext (fun s => s = { nodes := fun v => { config := net.config v } }) (System.next net)

end ReticulumPi.Emergency
