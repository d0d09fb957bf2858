import Mathlib.Data.List.Sort
import Mathlib.Algebra.Order.Field.Rat
import ReticulumPi.Lib.Dict
import ReticulumPi.Lib.Transition

/-!
# The outbound queues of the messaging hub

A message that cannot go out is stored with the status `queued` and put into the
queue of its transport. A *drain* takes a whole queue, offers each message to the
adapter, and puts back what has to wait; messages that are too old expire.

A run is an interleaving of calls of `send_message`, drains and expiries, each
cut into the stretches between the points where other threads can see what it
does: the accesses to the store, to the queues (under their lock), and the calls
of the adapter, which may answer anything or raise. Where an exception escapes,
the call ends. The store itself does not fail, and the clock may show anything.
-/

namespace ReticulumPi.Messaging

/-! ## Messages and the store -/

/-- A message to be sent: the arguments of `send_message`. -/
structure Message where
  transport : String
  text : String
  destination : String
  msgType : String := "direct"
  subTransport : String := ""
deriving DecidableEq

inductive Status where
  | queued
  | sent
  | failed
  | expired
  | timeout
  | delivered
  | deliveryFailed
  | broadcastSent
  | read
  | propagated
  | received
deriving DecidableEq

/-- `_TERMINAL_STATUSES` -/
def Status.IsTerminal (st : Status) : Prop :=
  st ∈ [Status.delivered, .deliveryFailed, .failed, .broadcastSent, .read]
deriving Decidable

/-- `_NON_OVERWRITING_STATUSES` -/
def Status.NonOverwriting (st : Status) : Prop := st ∈ [Status.timeout, .expired]
deriving Decidable

/-- A row of the table `messages`. -/
structure Row where
  message : Message
  status : Status
  timestamp : ℚ
  isSent : Bool := true
  isRead : Bool := true
deriving DecidableEq

/-- The `MessageStore`. -/
structure Store where
  rows : Dict ℕ Row := ∅
  nextId : ℕ := 1
  lastTs : ℚ := 0

namespace Store

variable (store : Store)

/-- `store`, of a message that is sent; its id is `nextId`. -/
def insert (message : Message) (status : Status) (now : ℚ) : Store :=
  let ts := if now ≤ store.lastTs then store.lastTs + 1 / 1000 else now
  { rows := store.rows.set store.nextId { message, status, timestamp := ts }
    nextId := store.nextId + 1
    lastTs := ts }

/-- `update_status` -/
def updateStatus (id : ℕ) (status : Status) : Store :=
  match store.rows.get? id with
  | none => store
  | some row => { store with rows := store.rows.set id { row with status } }

/-- `update_status_unless_terminal` -/
def updateStatusUnlessTerminal (id : ℕ) (status : Status) : Store :=
  match store.rows.get? id with
  | none => store
  | some row =>
    if row.status.IsTerminal then store
    else { store with rows := store.rows.set id { row with status } }

/-- `_on_delivery_status_update` -/
def onDeliveryStatusUpdate (id : ℕ) (status : Status) : Store :=
  if status.NonOverwriting then store.updateStatusUnlessTerminal id status
  else store.updateStatus id status

/-- The order in which rows are pruned: those that are read, and the oldest first. -/
def PrunedBefore (a b : ℕ × Row) : Prop :=
  (a.2.isRead = true ∧ b.2.isRead = false) ∨
    (a.2.isRead = b.2.isRead ∧ a.2.timestamp ≤ b.2.timestamp)
deriving Decidable

/-- The rows of a transport and its variant. -/
def bucket (key : String × String) : List (ℕ × Row) :=
  store.rows.entries.filter fun e => (e.2.message.transport, e.2.message.subTransport) = key

/-- The ids of the rows that `prune` deletes. -/
def victims (maxMessages : ℕ) : List ℕ :=
  let keys := (store.rows.values.map fun row =>
    (row.message.transport, row.message.subTransport)).dedup
  keys.flatMap fun key =>
    let rows := store.bucket key
    ((rows.insertionSort PrunedBefore).take (rows.length - maxMessages)).map Prod.fst

/-- `prune` -/
def prune (maxMessages : ℕ) : Store :=
  if maxMessages = 0 then store
  else { store with rows := store.rows.select fun id _ => id ∉ store.victims maxMessages }

/-- `get_queued_sent` -/
def getQueuedSent : List (ℕ × Row) :=
  (store.rows.entries.filter fun e => e.2.isSent ∧ e.2.status = .queued).insertionSort
    fun a b => a.2.timestamp ≤ b.2.timestamp

end Store

/-! ## Calls -/

/-- An entry of an outbound queue. -/
structure Entry where
  msgId : ℕ
  message : Message
  queuedAt : ℚ
  attempts : ℕ := 0
deriving DecidableEq

structure Settings where
  outboundQueueMax : ℤ := 50
  outboundMaxAge : ℚ := 600
  drainTimeBudget : ℚ := 30
  historyLimit : ℕ := 500

structure Adapter where
  maxMessageBytes : Option ℕ := none

/-- What `adapter.send` does: it raises, returns something that is not a
    dictionary, or a result, whose reason may be something else than a text. -/
inductive Reply where
  | raises
  | invalid
  | result (sent : Bool) (reason : Option String)

/-- `_is_retryable_reason` -/
def isRetryableReason (reason : String) : Bool :=
  reason ∈ ["not_connected", "not connected"] ||
    "path not found".toList.isPrefixOf reason.toLower.toList

/-- What a drain knows: its transport, the time of its begin by both clocks, and
    whether it has sent or given up a message. -/
structure Drain where
  transport : String
  now : ℚ
  start : ℚ
  changed : Bool := false

/-- How a drain is done with a message. -/
inductive Ending where
  | sent
  | failed
  | expired
deriving DecidableEq

def Ending.status : Ending → Status
  | .sent => .sent
  | .failed => .failed
  | .expired => .expired

/-- Where a call is: the stretch of it that comes next. -/
inductive Proc where
  -- `send_message`
  | asking (message : Message)
  | sending (message : Message)
  -- `_queue_outbound`
  | storing (message : Message)
  | pushing (entry : Entry)
  | evicting (entry : Entry)
  -- `_finalize_send`
  | finalizing (message : Message) (sent : Bool)
  | settling (id : ℕ) (message : Message) (sent : Bool)
  | registering (id : ℕ) (message : Message)
  -- `_drain_outbound_queue`
  | looking (transport : String) (pending : List Entry)
  | failing (pending : List Entry)
  | looping (drain : Drain) (pending : List Entry)
  | checking (drain : Drain) (item : Entry) (rest : List Entry)
  | retrying (drain : Drain) (item : Entry) (rest : List Entry)
  | closing (drain : Drain) (item : Entry) (rest : List Entry) (ending : Ending)
  | tracking (drain : Drain) (rest : List Entry)
  | flushing (drain : Drain) (expired : List Entry)
  | pruning
  -- `expire_queued_outbound`
  | expiring (expired : List Entry)

/-- What comes in at a step of a call: readings of the clocks, an answer of
    `is_available` (none if it raises), a reply to `send`, whether the look-up of the
    recipient's name works, and whether the delivery is tracked and acknowledged. -/
inductive Input where
  | tick (now later : ℚ)
  | available (answer : Option Bool)
  | reply (reply : Reply)
  | named (ok : Bool) (now : ℚ)
  | tracked (ok acked : Bool)

structure System where
  store : Store := {}
  queues : Dict String (List Entry) := ∅
  adapters : Dict String Adapter := ∅
  lastPrune : ℚ := 0
  /-- The calls that are running. -/
  procs : ℕ → Option Proc := fun _ => none
  /-- The ids of the messages that an adapter has accepted, the last one first; a
      message gets its id when it is stored. -/
  accepted : List ℕ := []

namespace System

variable (settings : Settings) (s : System) (i : ℕ)

/-- The call goes on with `proc`, or ends. -/
def setProc (proc : Option Proc) : System := { s with procs := Function.update s.procs i proc }

def queue (transport : String) : List Entry := (s.queues.get? transport).getD []

def setQueue (transport : String) (q : List Entry) : System :=
  { s with queues := s.queues.set transport q }

def setStatus (id : ℕ) (status : Status) : System :=
  { s with store := s.store.onDeliveryStatusUpdate id status }

/-- `_maybe_prune` -/
def maybePrune (now : ℚ) : System :=
  if settings.historyLimit = 0 ∨ now - s.lastPrune < 30 then s
  else { s with lastPrune := now, store := s.store.prune settings.historyLimit }

/-- The entry is put into its queue, from which the oldest is taken when it is
    full; that of an empty one cannot be. -/
def push (entry : Entry) : System :=
  let transport := entry.message.transport
  let q := s.queue transport
  if settings.outboundQueueMax ≤ q.length then
    match q with
    | [] => (s.setQueue transport []).setProc i none
    | evicted :: q => (s.setQueue transport (q ++ [entry])).setProc i (some (.evicting evicted))
  else (s.setQueue transport (q ++ [entry])).setProc i none

variable (message : Message)

/-- The steps of `send_message` up to the answer of the adapter. -/
def sendStep : Reply → System
  | .raises | .invalid => s.setProc i none
  | .result true _ => s.setProc i (some (.finalizing message true))
  | .result false none => s.setProc i none
  | .result false (some reason) =>
    s.setProc i (some (if isRetryableReason reason then .storing message
      else .finalizing message false))

/-- A message is stored as queued. -/
def storeQueued (now later : ℚ) : System :=
  { s with store := s.store.insert message .queued now }.setProc i
    (some (.pushing { msgId := s.store.nextId, message, queuedAt := later }))

/-- A message that has been offered to the adapter is stored. -/
def storeFinal (sent : Bool) (now : ℚ) : System :=
  { s with
    store := s.store.insert message (if sent then .sent else .failed) now
    accepted := if sent then s.store.nextId :: s.accepted else s.accepted }.setProc i
      (some (.settling s.store.nextId message sent))

/-- The top of the loop of a drain. -/
def loopStep (drain : Drain) (mono : ℚ) : List Entry → System
  | [] => s.setProc i (if drain.changed then some .pruning else none)
  | item :: rest =>
    if settings.outboundMaxAge < drain.now - item.queuedAt then
      s.setProc i (some (.closing drain item rest .expired))
    else if settings.drainTimeBudget < mono - drain.start then
      let kept := (item :: rest).filter fun e => drain.now - e.queuedAt ≤ settings.outboundMaxAge
      let old := (item :: rest).filter fun e => ¬ drain.now - e.queuedAt ≤ settings.outboundMaxAge
      (s.setQueue drain.transport (s.queue drain.transport ++ kept)).setProc i
        (some (.flushing { drain with changed := drain.changed || !old.isEmpty } old))
    else s.setProc i (some (.checking drain item rest))

/-- What a drain makes of the answer of `is_available`. -/
def checkStep (drain : Drain) (item : Entry) (rest : List Entry) : Option Bool → System
  | none => s.setProc i none
  | some false =>
    (s.setQueue drain.transport (s.queue drain.transport ++ item :: rest)).setProc i
      (some (.looping drain []))
  | some true =>
    s.setProc i (some (.retrying drain { item with attempts := item.attempts + 1 } rest))

/-- What a drain makes of the reply of the adapter. -/
def retryStep (drain : Drain) (item : Entry) (rest : List Entry) : Reply → System
  | .raises => s.setProc i (some (.closing drain item rest .failed))
  | .invalid => s.setProc i none
  | .result true _ =>
    { s with accepted := item.msgId :: s.accepted }.setProc i
      (some (.closing drain item rest .sent))
  | .result false none => s.setProc i none
  | .result false (some reason) =>
    if isRetryableReason reason then
      (s.setQueue drain.transport (s.queue drain.transport ++ [item])).setProc i
        (some (.looping drain rest))
    else s.setProc i (some (.closing drain item rest .failed))

/-- The next stretch of a call. -/
def advance : Proc → Input → Option System
  | .asking message, .available answer => some <| s.setProc i <| match answer with
    | none => none
    | some true => some (.sending message)
    | some false => some (.storing message)
  | .sending message, .reply reply => some (s.sendStep i message reply)
  | .storing message, .tick now later => some (s.storeQueued i message now later)
  | .pushing entry, .tick _ _ => some (s.push settings i entry)
  | .evicting entry, .tick _ _ => some ((s.setStatus entry.msgId .failed).setProc i none)
  | .finalizing message sent, .named ok now =>
    some (if ok then s.storeFinal i message sent now else s.setProc i none)
  | .settling id message sent, .tick now _ =>
    some ((s.maybePrune settings now).setProc i
      (if sent then some (.registering id message) else none))
  | .registering id message, .tracked ok acked =>
    some ((if ok ∧ message.msgType = "broadcast" ∧ ¬ acked then s.setStatus id .broadcastSent
      else s).setProc i none)
  | .looking transport pending, .tick now mono =>
    some <| s.setProc i <| some <| match s.adapters.get? transport with
      | none => .failing pending
      | some _ => .looping { transport, now, start := mono } pending
  | .failing [], .tick _ _ => some (s.setProc i none)
  | .failing (item :: rest), .tick _ _ =>
    some ((s.setStatus item.msgId .failed).setProc i (some (.failing rest)))
  | .looping drain pending, .tick mono _ => some (s.loopStep settings i drain mono pending)
  | .checking drain item rest, .available answer => some (s.checkStep i drain item rest answer)
  | .retrying drain item rest, .reply reply => some (s.retryStep i drain item rest reply)
  | .closing drain item rest ending, .tick _ _ =>
    some ((s.setStatus item.msgId ending.status).setProc i (some (
      if ending = .sent then .tracking { drain with changed := true } rest
      else .looping { drain with changed := true } rest)))
  | .tracking drain rest, .tracked ok _ =>
    some (s.setProc i (if ok then some (.looping drain rest) else none))
  | .flushing drain [], .tick _ _ =>
    some (s.setProc i (if drain.changed then some .pruning else none))
  | .flushing drain (item :: rest), .tick _ _ =>
    some ((s.setStatus item.msgId .expired).setProc i (some (.flushing drain rest)))
  | .pruning, .tick now _ => some ((s.maybePrune settings now).setProc i none)
  | .expiring [], .tick _ _ => some (s.setProc i none)
  | .expiring (item :: rest), .tick _ _ =>
    some ((s.setStatus item.msgId .expired).setProc i (some (.expiring rest)))
  | _, _ => none

/-- The beginning of `send_message`. -/
def beginSend : System :=
  match s.adapters.get? message.transport with
  | none => s
  | some adapter =>
    if adapter.maxMessageBytes.any (· < message.text.utf8ByteSize) then s
    else s.setProc i (some (.asking message))

/-- A drain takes the queue. -/
def beginDrain (transport : String) : System :=
  match s.queue transport with
  | [] => s
  | pending => (s.setQueue transport []).setProc i (some (.looking transport pending))

/-- The entries that have not expired stay in the queues. -/
def beginExpire (now : ℚ) : System :=
  let isOld (e : Entry) : Bool := settings.outboundMaxAge < now - e.queuedAt
  { s with queues := s.queues.map fun q : List Entry => q.filter (!isOld ·) }.setProc i
    (some (.expiring (s.queues.values.flatMap (List.filter isOld))))

end System

/-! ## Runs -/

inductive Event where
  /-- An adapter is registered, or goes away. -/
  | adapter (transport : String) (adapter : Option Adapter)
  | send (i : ℕ) (message : Message)
  | drain (i : ℕ) (transport : String)
  | expire (i : ℕ) (now : ℚ)
  | step (i : ℕ) (input : Input)

variable (settings : Settings)

def next (s : System) : Event → Option System
  | .adapter transport (some adapter) =>
    some { s with adapters := s.adapters.set transport adapter }
  | .adapter transport none => some { s with adapters := s.adapters.erase transport }
  | .send i message => if (s.procs i).isNone then some (s.beginSend i message) else none
  | .drain i transport => if (s.procs i).isNone then some (s.beginDrain i transport) else none
  | .expire i now => if (s.procs i).isNone then some (s.beginExpire settings i now) else none
  | .step i input => (s.procs i).bind fun proc => s.advance settings i proc input

/-- One row is taken up by `_recover_queued_messages`. -/
def recoverRow (now : ℚ) (s : System) (e : ℕ × Row) : System :=
  if settings.outboundMaxAge < now - e.2.timestamp then
    { s with store := s.store.updateStatus e.1 .expired }
  else
    let transport := e.2.message.transport
    let q := s.queue transport
    if settings.outboundQueueMax ≤ q.length then
      { s.setQueue transport q with store := s.store.updateStatus e.1 .expired }
    else s.setQueue transport
      (q ++ [{ msgId := e.1, message := e.2.message, queuedAt := e.2.timestamp }])

/-- `_recover_queued_messages`, with which the hub starts. -/
def recoverQueuedMessages (store : Store) (now : ℚ) : System :=
  store.getQueuedSent.foldl (recoverRow settings now) { store }

/-- A store that the program may have left: its ids are below the next one, and
    only sent messages are queued. -/
def Store.IsProper (store : Store) : Prop :=
  (∀ id ∈ store.rows.keys, id < store.nextId) ∧
    ∀ id row, store.rows.get? id = some row → row.status = .queued → row.isSent = true

/-- The hub, started on a store. -/
abbrev hub : Transition System Event :=
  .ofNext (fun s => ∃ store now, Store.IsProper store ∧
    s = recoverQueuedMessages settings store now) (next settings)

end ReticulumPi.Messaging
