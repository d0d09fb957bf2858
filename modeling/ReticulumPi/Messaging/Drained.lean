import ReticulumPi.Lib.PyValue
import ReticulumPi.Messaging.Delivery

/-!
# Sent at once, or drained from the queue

`send_message` stores a message in one of two ways: when it has been sent
(`finalizeSend`), or as `queued` when its transport is down (`queueOutbound`). In
the second case a drain of the queue sends it later; in between, a restart may
have rebuilt the queue from the store (`recover`). The two should leave the same
row and the same pending entry behind; `Alike` says when they do.
-/

namespace ReticulumPi.Messaging.Drained

open Delivery (Kind Accepted)

/-- The metadata of a message. -/
abbrev Metadata := Dict String PyValue

/-- The keyword arguments of `send_message` that the hub reads; `channel` is an index or a name. -/
structure Kwargs where
  msgType : Option String := none
  subTransport : Option String := none
  toName : Option String := none
  channel : PyValue := .none
  metadata : Option Metadata := none

structure Request where
  transport : String
  text : String
  destination : String
  kwargs : Kwargs := {}

/-- What the two ways ask of their surroundings. -/
structure Env where
  nodeName : String
  maxMessageBytes : Option ℕ := none
  /-- `get_contacts` of the adapter: ids and names. -/
  contacts : List (String × Option String) := []
  /-- `get_node_name` of the network map, if it is ready; it may raise. -/
  getNodeName : Option (String → Option (Option String)) := none
  /-- `str` of a channel. -/
  str : PyValue → String
  /-- What `send` of the adapter returns when it is called; none if it does not send. -/
  send : String → String → Kwargs → Option Accepted

/-- The truth of a name. -/
def isNamed (name : Option String) : Bool := name.any (· ≠ "")

variable (env : Env)

/-- How `_finalize_send` finds the name of the recipient. -/
def Env.resolveName (transport destination : String) (toName : Option String) : Option String :=
  let toName := if isNamed toName then toName
    else match env.contacts.find? (·.1 = destination) with
      | some (_, name) => name
      | none => toName
  if !isNamed toName && transport = "lxmf" then
    match env.getNodeName with
    | some getNodeName => (getNodeName destination).getD none
    | none => toName
  else toName

/-- The channel that a message is stored with. -/
def Kwargs.storedChannel (kwargs : Kwargs) : PyValue :=
  match kwargs.channel with
  | .none => if kwargs.msgType = some "broadcast" then .int 0 else .none
  | channel => channel

/-- `_compute_contact_id`, of a message that is sent -/
def Env.computeContactId (msgType transport toId subTransport : String) (channel : PyValue) :
    String :=
  if msgType = "broadcast" then
    let suffix := match channel with
      | .none => ""
      | channel => if transport = "meshtastic" then "_ch" ++ env.str channel else ""
    if subTransport ≠ "" then "__broadcast_" ++ transport ++ "_" ++ subTransport ++ suffix ++ "__"
    else "__broadcast_" ++ transport ++ suffix ++ "__"
  else
    let peer := if toId ≠ "" then toId else "__unknown__"
    if subTransport ≠ "" then peer ++ "__" ++ subTransport else peer

/-- A row of `messages`, of a message that is sent; the columns that depend on the time are left
    out. -/
structure Row where
  transport : String
  msgType : String
  fromName : String
  toId : String
  toName : Option String
  text : String
  status : Status
  metadata : Option Metadata
  contactId : String
  subTransport : String

/-- The channel is put into the metadata, unless they have one. -/
def withChannel (metadata : Metadata) : PyValue → Metadata
  | .none => metadata
  | channel => metadata.setDefault "channel" channel

/-- The column `metadata`; nothing is stored if they are empty. -/
def metadataColumn (metadata : Option Metadata) (channel : PyValue) : Option Metadata :=
  let metadata := withChannel (metadata.getD ∅) channel
  if metadata.entries.isEmpty then none else some metadata

variable (request : Request)

/-- `store` -/
def Env.store (toName : Option String) (status : Status)
    (metadata : Option Metadata) : Row :=
  let msgType := request.kwargs.msgType.getD "direct"
  let subTransport := request.kwargs.subTransport.getD ""
  let channel := request.kwargs.storedChannel
  { transport := request.transport
    msgType := msgType
    fromName := env.nodeName
    toId := request.destination
    toName := toName
    text := request.text
    status := status
    metadata := metadataColumn metadata channel
    contactId := env.computeContactId msgType request.transport request.destination subTransport
      channel
    subTransport := subTransport }

/-- The adapter of a transport. -/
def kindOf (transport : String) : Kind :=
  if transport = "lxmf" then .lxmf
  else if transport = "meshtastic" then .meshtastic
  else if transport = "meshcore" then .meshcore
  else .other

/-- An entry of `_pending_delivery`, but for the id of the message and the time. -/
inductive Pending
  | byKey (key : String)
  | byId
  deriving DecidableEq

/-- `_register_delivery_tracking` -/
def registerDeliveryTracking (kind : Kind) (r : Accepted) : Option Pending :=
  if kind.tracks r then
    match kind with
    | .meshtastic => some .byId
    | _ => (kind.key r).map .byKey
  else none

/-- What is left of a message. -/
structure Outcome where
  row : Row
  entry : Option Pending

/-- `_on_delivery_status_update` -/
def Row.update (row : Row) (status : Status) : Row :=
  { row with status := Delivery.Life.overwrite status row.status }

/-- `_finalize_send`, of a message that the adapter has sent -/
def Env.finalizeSend (r : Accepted) : Outcome :=
  let toName := env.resolveName request.transport request.destination request.kwargs.toName
  let metadata := request.kwargs.metadata.getD ∅
  let metadata : Metadata := match r.packetId with
    | some packetId => metadata.set "packet_id" (.int packetId)
    | none => metadata
  let row := env.store request toName .sent (some metadata)
  { row := if row.msgType = "broadcast" ∧ r.ackTracking = none then row.update .broadcastSent
      else row
    entry := registerDeliveryTracking (kindOf request.transport) r }

/-- An entry of the outbound queue. -/
structure Entry where
  transport : String
  text : String
  destination : String
  kwargs : Kwargs

/-- `_queue_outbound` -/
def Env.queueOutbound : Row × Entry :=
  (env.store request request.kwargs.toName .queued request.kwargs.metadata,
    { transport := request.transport, text := request.text, destination := request.destination
      kwargs := request.kwargs })

/-- What `_recover_queued_messages` makes of a row. -/
def recover (row : Row) : Entry where
  transport := row.transport
  text := row.text
  destination := row.toId
  kwargs :=
    { msgType := some row.msgType
      subTransport := some row.subTransport
      toName := row.toName
      metadata := row.metadata
      channel := ((row.metadata.getD ∅).get? "channel").getD .none }

/-- `_drain_outbound_queue`, of a message that the adapter sends -/
def Env.drain (row : Row) (entry : Entry) : Option Outcome :=
  (env.send entry.text entry.destination entry.kwargs).map fun r =>
    { row := row.update .sent
      entry := registerDeliveryTracking (kindOf entry.transport) r }

/-- The message is longer than the adapter takes. -/
def Env.tooLong : Bool :=
  env.maxMessageBytes.any (· < request.text.utf8ByteSize)

/-- `send_message` while the transport is up. -/
def Env.sendAtOnce : Option Outcome :=
  if env.tooLong request then none
  else (env.send request.text request.destination request.kwargs).map (env.finalizeSend request)

/-- The entry that a drain finds, with a restart in between or without one. -/
def Env.queued (restart : Bool) : Entry :=
  if restart then recover (env.queueOutbound request).1 else (env.queueOutbound request).2

/-- `send_message` while the transport is down, and a drain when it is up again. -/
def Env.sendLater (restart : Bool) : Option Outcome :=
  if env.tooLong request then none
  else env.drain (env.queueOutbound request).1 (env.queued request restart)

/-! ## When the two agree -/

/-- The name of the recipient is left as it is given: it is there, or the look-up finds no other. -/
def Env.NameGiven : Prop :=
  env.resolveName request.transport request.destination request.kwargs.toName =
    request.kwargs.toName

/-- The packet id of the adapter is in the given metadata already, or there is none. -/
def PacketKnown (kwargs : Kwargs) (r : Accepted) : Prop :=
  ∀ packetId ∈ r.packetId, (kwargs.metadata.getD ∅).get? "packet_id" = some (.int packetId)

/-- The message is a broadcast that is not acknowledged. -/
def Promoted (kwargs : Kwargs) (r : Accepted) : Prop :=
  kwargs.msgType = some "broadcast" ∧ r.ackTracking = none

/-- A message is left alike if it is not stored at all, or no name is looked up, no packet id
    comes with the answer, and no broadcast is promoted. -/
def Env.Alike (r : Accepted) : Prop :=
  env.tooLong request = true ∨
    env.NameGiven request ∧ PacketKnown request.kwargs r ∧ ¬Promoted request.kwargs r

variable {env}

theorem get?_withChannel (metadata : Metadata) (channel : PyValue) :
    (withChannel metadata channel).get? "packet_id" = metadata.get? "packet_id" := by
  unfold withChannel
  split
  · rfl
  · rw [Dict.setDefault]
    split_ifs
    · rfl
    · exact Dict.get?_set_of_ne (by decide)

/-- The columns differ by a packet id that was not there. -/
theorem metadataColumn_eq_iff (metadata : Option Metadata) (channel : PyValue) (v : PyValue) :
    metadataColumn metadata channel =
        metadataColumn (some ((metadata.getD ∅).set "packet_id" v)) channel ↔
      (metadata.getD ∅).get? "packet_id" = some v := by
  constructor
  · intro h
    have hget := get?_withChannel ((metadata.getD ∅).set "packet_id" v) channel
    rw [Dict.get?_set_self] at hget
    have hne : (withChannel ((metadata.getD ∅).set "packet_id" v) channel).entries ≠ [] := fun hnil =>
      List.not_mem_nil (hnil ▸ Dict.get?_eq_some_iff.1 hget)
    rw [metadataColumn, metadataColumn, Option.getD_some,
      if_neg (fun hempty => hne (List.isEmpty_iff.1 hempty))] at h
    split_ifs at h
    rw [← Option.some.inj h, get?_withChannel] at hget
    exact hget
  · intro h
    rw [Dict.set_of_get? h]
    rfl

/-- Of a row only the name, the status and the metadata depend on the way it is stored. -/
theorem store_eq_iff {request : Request} {toName toName' : Option String} {st st' : Status}
    {metadata metadata' : Option Metadata} :
    env.store request toName st metadata = env.store request toName' st' metadata' ↔
      toName = toName' ∧ st = st' ∧
        metadataColumn metadata request.kwargs.storedChannel =
          metadataColumn metadata' request.kwargs.storedChannel := by
  simp [Env.store]

theorem update_store {request : Request} {toName : Option String} {st st' : Status}
    {metadata : Option Metadata} (hst : ¬st.IsTerminal ∨ ¬st'.NonOverwriting) :
    (env.store request toName st metadata).update st' = env.store request toName st' metadata := by
  have hwrite : Delivery.Life.overwrite st' st = st' := if_neg fun hboth =>
    hst.elim (absurd hboth.2) (absurd hboth.1)
  rw [Row.update]
  simp only [Env.store, hwrite]

/-- The row that is stored at once. -/
theorem row_finalizeSend (r : Accepted) : (env.finalizeSend request r).row =
      env.store request
        (env.resolveName request.transport request.destination request.kwargs.toName)
        (if request.kwargs.msgType = some "broadcast" ∧ r.ackTracking = none then .broadcastSent
          else .sent)
        (some (match r.packetId with
          | some packetId => (request.kwargs.metadata.getD ∅).set "packet_id" (.int packetId)
          | none => request.kwargs.metadata.getD ∅)) := by
  have htype : request.kwargs.msgType.getD "direct" = "broadcast" ↔
      request.kwargs.msgType = some "broadcast" := by
    cases request.kwargs.msgType <;> simp
  rw [Env.finalizeSend]
  by_cases hpromoted : request.kwargs.msgType = some "broadcast" ∧ r.ackTracking = none
  · rw [if_pos hpromoted, ← update_store (.inl (show ¬Status.sent.IsTerminal by decide))]
    exact if_pos ⟨htype.2 hpromoted.1, hpromoted.2⟩
  · rw [if_neg hpromoted]
    exact if_neg fun hboth => hpromoted ⟨htype.1 hboth.1, hboth.2⟩

/-- A restart keeps what a drain needs to know of the message. -/
theorem queued_transport (restart : Bool) :
    (env.queued request restart).transport = request.transport := by
  cases restart <;> rfl

variable (env)

/-- A message that is queued and drained leaves the same behind as one that is sent at once, if and
    only if it is `Alike`. -/
theorem later_eq_atOnce (request : Request) (restart : Bool) (r : Accepted)
    (hatOnce : env.send request.text request.destination request.kwargs = some r)
    (hlater : env.send (env.queued request restart).text
      (env.queued request restart).destination (env.queued request restart).kwargs = some r) :
    env.sendLater request restart = env.sendAtOnce request ↔ env.Alike request r := by
  rw [Env.sendLater, Env.sendAtOnce, Env.Alike]
  by_cases hlong : env.tooLong request = true
  · simp [hlong]
  rw [if_neg hlong, if_neg hlong, or_iff_right hlong, Env.drain, hatOnce, hlater, Option.map_some,
    Option.map_some, Option.some_inj, queued_transport]
  have houtcome : ∀ (row : Row) (o : Outcome), o.entry =
      registerDeliveryTracking (kindOf request.transport) r →
      ((⟨row, registerDeliveryTracking (kindOf request.transport) r⟩ : Outcome) = o ↔
        row = o.row) := fun row o hentry => by
    obtain ⟨row', entry⟩ := o
    refine ⟨fun heq => congrArg Outcome.row heq, fun heq => ?_⟩
    rw [heq, ← hentry]
  rw [houtcome _ _ rfl, row_finalizeSend, Env.queueOutbound,
    update_store (.inl (by decide)), store_eq_iff, Env.NameGiven, PacketKnown, Promoted]
  refine and_congr eq_comm (and_comm.trans (and_congr ?_ ?_))
  · cases hpacket : r.packetId with
    | none => simp [metadataColumn]
    | some packetId =>
      rw [metadataColumn_eq_iff]
      simp
  · by_cases hpromoted : request.kwargs.msgType = some "broadcast" ∧ r.ackTracking = none
    all_goals simp [hpromoted]

/-! ## A broadcast and a direct message -/

/-- The node, with an adapter that answers all calls in one way. -/
def sampleEnv (r : Accepted) : Env where
  nodeName := "pi"
  str := fun _ => "0"
  send := fun _ _ _ => some r

def sampleBroadcast : Request where
  transport := "meshcore"
  text := "hello"
  destination := "broadcast"
  kwargs := { msgType := some "broadcast" }

def sampleDirect : Request where
  transport := "lxmf"
  text := "hello"
  destination := "a1b2c3"
  kwargs := { toName := some "alice" }

/-- A drained broadcast stays `sent`. -/
theorem broadcast_not_promoted :
    ¬∀ (env : Env) (request : Request) (restart : Bool) (r : Accepted),
      env.send request.text request.destination request.kwargs = some r →
      env.send (env.queued request restart).text (env.queued request restart).destination
        (env.queued request restart).kwargs = some r →
      env.sendLater request restart = env.sendAtOnce request := by
  intro h
  have heq := h (sampleEnv {}) sampleBroadcast true {} rfl rfl
  have hstatus : ((sampleEnv {}).sendLater sampleBroadcast true).map (·.row.status) =
      ((sampleEnv {}).sendAtOnce sampleBroadcast).map (·.row.status) := congrArg _ heq
  exact absurd hstatus (by decide)

/-- A direct message over LXMF, drained after a restart. -/
theorem later_eq_atOnce_direct :
    (sampleEnv { lxmHash := some "c3" }).sendLater sampleDirect true =
      (sampleEnv { lxmHash := some "c3" }).sendAtOnce sampleDirect := by
  refine (later_eq_atOnce _ sampleDirect true { lxmHash := some "c3" } rfl rfl).2 (.inr ⟨rfl, ?_, ?_⟩)
  · exact fun packetId hpacket => nomatch hpacket
  · exact fun hpromoted => nomatch hpromoted.1

end ReticulumPi.Messaging.Drained
