import ReticulumPi.Messaging.Outbound

/-!
# The life of one message

What can happen to one message that the hub sends: it is offered to its adapter
at once, or stored as `queued` and offered by a drain of the outbound queue;
once an adapter has accepted it, the hub registers it with the adapter, and
reports about it may come in on other threads: a delivery or a failure, a read
receipt, or nothing at all, until the sweep of the stale entries gives it up.

At any time one thread, or the queue, has the message (`Carrier`); the threads
of the reports run beside it (`Thread`). Of the other messages only what they do
to this one appears, as events that come at any time: its entry is evicted from
the queue, or from the pending ones of the LXMF adapter.
-/

namespace ReticulumPi.Messaging.Delivery

/-- The adapters; `other` ones have no `track_pending`. -/
inductive Kind
  | lxmf
  | meshtastic
  | meshcore
  | other
  deriving DecidableEq

/-- What an adapter returns for a message that it has sent. -/
structure Accepted where
  lxmHash : Option String := none
  ackTracking : Option String := none
  expectedAck : Option String := none
  packetId : Option ℤ := none
  deriving DecidableEq

/-- What `track_pending` is called with. -/
def Kind.key (kind : Kind) (r : Accepted) : Option String :=
  match kind with
  | .lxmf => r.lxmHash
  | .meshtastic => r.ackTracking
  | .meshcore => r.expectedAck
  | .other => none

/-- `track_pending` makes an entry. -/
def Kind.tracks (kind : Kind) (r : Accepted) : Bool := (kind.key r).any (· ≠ "")

/-- The statuses that the callbacks of an adapter report. -/
def Kind.reports (kind : Kind) (st : Status) : Bool :=
  match kind with
  | .lxmf => st = .delivered || st = .propagated || st = .deliveryFailed
  | .meshtastic => st = .delivered || st = .deliveryFailed
  | .meshcore => st = .delivered
  | .other => false

/-- The message; `packetId` is the one that its metadata already has. -/
structure Outgoing where
  kind : Kind
  broadcast : Bool := false
  packetId : Option ℤ := none
  deriving DecidableEq

/-- How a drain, or an eviction, is done with the message. -/
inductive Outcome
  | sent (r : Accepted)
  | failed
  | expired
  deriving DecidableEq

def Outcome.status : Outcome → Status
  | .sent _ => .sent
  | .failed => .failed
  | .expired => .expired

/-- Who has the message, and what comes next. -/
inductive Carrier
  -- `send_message`
  | asking
  | sending
  | finalizing (result : Option Accepted)
  -- `_queue_outbound`
  | storing
  | pushing
  /-- It is in the outbound queue. -/
  | queued
  -- `_drain_outbound_queue`
  | drained
  | retrying
  | closing (outcome : Outcome)
  -- `_register_delivery_tracking`, called by `_finalize_send` (`direct`) or by a drain
  | binding (r : Accepted) (direct : Bool)
  | tracking (r : Accepted) (direct : Bool)
  | releasing (r : Accepted) (direct : Bool)
  -- the end of `_finalize_send`
  | promoting
  | done
  deriving DecidableEq

/-- A thread that brings a report. -/
inductive Thread
  /-- `_on_ack`, until the id of the message is bound -/
  | waiting (st : Status)
  /-- A callback that is about to take the entry. -/
  | popping (st : Status)
  /-- About to call `_on_delivery_status_update`. -/
  | writing (st : Status)
  deriving DecidableEq

structure Life where
  carrier : Carrier := .asking
  /-- The stored status. -/
  row : Option Status := none
  /-- The packet id in the stored metadata. -/
  packetId : Option ℤ := none
  /-- The `msg_id` and the event `bound` of the `_ack_holder`. -/
  holderId : Bool := false
  bound : Bool := false
  /-- There is an entry in `_pending_delivery`. -/
  pending : Bool := false
  /-- What the adapter returned when it accepted the message. -/
  accepted : Option Accepted := none
  /-- The report that came first. -/
  reported : Option Status := none
  threads : List Thread := []
  deriving DecidableEq

/-- What `adapter.send` does. -/
inductive Answer
  | accepts (r : Accepted)
  | refuses
  /-- It fails for a reason in which a retry makes sense. -/
  | retryable
  | raises
  deriving DecidableEq

inductive Event
  /-- The answer of `is_available`; none if it raises. -/
  | available (answer : Option Bool)
  | answer (a : Answer)
  /-- The look-up of the recipient's name raises. -/
  | raise
  /-- The carrier goes on. -/
  | go
  -- a drain takes the queue, puts the message back, finds it too old, or finds no adapter
  | take
  | requeue
  | expire
  | vanish
  /-- The queue is full, and this is its oldest message. -/
  | evict
  -- reports
  | report (st : Status)
  | wake (st : Status)
  | giveUp (st : Status)
  | pop (st : Status)
  | write (st : Status)
  /-- `_on_read_receipt` finds the message. -/
  | receipt
  /-- `expire_stale_pending`, or an eviction by `track_pending`, takes the entry. -/
  | sweep
  deriving DecidableEq

variable (m : Outgoing)

namespace Life

variable (s : Life)

/-- What `_on_delivery_status_update` makes of a stored status. -/
def overwrite (st old : Status) : Status :=
  if st.NonOverwriting ∧ old.IsTerminal then old else st

/-- `_on_delivery_status_update` -/
def update (st : Status) : Life := { s with row := s.row.map (overwrite st) }

/-- Where `_register_delivery_tracking` begins, and what comes after it. -/
def afterTracking (r : Accepted) (direct : Bool) : Carrier :=
  if direct ∧ m.broadcast ∧ r.ackTracking = none then .promoting else .done

def register (r : Accepted) (direct : Bool) : Carrier :=
  match m.kind with
  | .meshtastic => .binding r direct
  | .other => afterTracking m r direct
  | _ => .tracking r direct

/-- The next step of the carrier; none if it waits for something. -/
def go : Option Life :=
  match s.carrier with
  | .finalizing none => some { s with row := some .failed, packetId := m.packetId, carrier := .done }
  | .finalizing (some r) =>
    some { s with
      row := some .sent, packetId := r.packetId <|> m.packetId, carrier := register m r true }
  | .storing => some { s with row := some .queued, packetId := m.packetId, carrier := .pushing }
  | .pushing => some { s with carrier := .queued }
  | .closing (.sent r) => some { s.update .sent with carrier := register m r false }
  | .closing outcome => some { s.update outcome.status with carrier := .done }
  | .binding r direct => some { s with holderId := true, carrier := .tracking r direct }
  | .tracking r direct =>
    some { s with
      pending := s.pending || m.kind.tracks r
      carrier := if m.kind = .meshtastic then .releasing r direct else afterTracking m r direct }
  | .releasing r direct => some { s with bound := true, carrier := afterTracking m r direct }
  | .promoting => some { s.update .broadcastSent with carrier := .done }
  | _ => none

/-- A thread of a report comes, goes on as another one, or ends. -/
def spawn (t : Thread) : Life := { s with threads := t :: s.threads }

def finish (t : Thread) : Option Life :=
  if t ∈ s.threads then some { s with threads := s.threads.erase t } else none

/-- A callback of the adapter begins. That of the Meshtastic adapter is only there if the message
    is acknowledged, and looks at the holder first. -/
def report (st : Status) : Option Life :=
  match s.accepted with
  | none => none
  | some r =>
    if m.kind.reports st ∧ (m.kind = .meshtastic → m.kind.tracks r = true) then
      some { s.spawn (if m.kind = .meshtastic ∧ s.holderId = false then .waiting st
        else .popping st) with reported := s.reported <|> some st }
    else none

/-- The callback takes the entry; only that of the Meshtastic adapter goes on without one. -/
def pop (st : Status) : Option Life :=
  (s.finish (.popping st)).map fun s =>
    if s.pending ∨ m.kind = .meshtastic then { s with pending := false }.spawn (.writing st)
    else s

/-- One step. -/
def next : Event → Option Life
  | .available answer =>
    match s.carrier, answer with
    | .asking, some true => some { s with carrier := .sending }
    | .asking, some false => some { s with carrier := .storing }
    | .drained, some true => some { s with carrier := .retrying }
    | .drained, some false => some { s with carrier := .queued }
    | .asking, none | .drained, none => some { s with carrier := .done }
    | _, _ => none
  | .answer a =>
    match s.carrier, a with
    | .sending, .accepts r =>
      some { s with carrier := .finalizing (some r), accepted := some r }
    | .sending, .refuses => some { s with carrier := .finalizing none }
    | .sending, .retryable => some { s with carrier := .storing }
    | .sending, .raises => some { s with carrier := .done }
    | .retrying, .accepts r => some { s with carrier := .closing (.sent r), accepted := some r }
    | .retrying, .refuses | .retrying, .raises => some { s with carrier := .closing .failed }
    | .retrying, .retryable => some { s with carrier := .queued }
    | _, _ => none
  | .raise =>
    match s.carrier with
    | .finalizing _ => some { s with carrier := .done }
    | _ => none
  | .go => s.go m
  | .take => if s.carrier = .queued then some { s with carrier := .drained } else none
  | .requeue => if s.carrier = .drained then some { s with carrier := .queued } else none
  | .expire =>
    if s.carrier = .queued ∨ s.carrier = .drained then
      some { s with carrier := .closing .expired }
    else none
  | .vanish => if s.carrier = .drained then some { s with carrier := .closing .failed } else none
  | .evict => if s.carrier = .queued then some { s with carrier := .closing .failed } else none
  | .report st => s.report m st
  | .wake st =>
    if s.bound then
      (s.finish (.waiting st)).map fun s => if s.holderId then s.spawn (.popping st) else s
    else none
  | .giveUp st => s.finish (.waiting st)
  | .pop st => s.pop m st
  | .write st => (s.finish (.writing st)).map (·.update st)
  | .receipt =>
    if m.kind = .meshtastic ∧ s.row.isSome ∧ s.packetId.any (· ≠ 0) then
      some (s.spawn (.writing .read))
    else none
  | .sweep =>
    if s.pending then some ({ s with pending := false }.spawn (.writing .timeout)) else none

/-- After a restart the message is taken from the store into the queue. -/
def recovered : Life where
  carrier := .queued
  row := some .queued
  packetId := m.packetId

end Life

/-- The life of the message: from `send_message` on, or from a restart with the message queued. -/
def life : Transition Life Event :=
  .ofNext (fun s => s = {} ∨ s = Life.recovered m) (Life.next m)

end ReticulumPi.Messaging.Delivery
