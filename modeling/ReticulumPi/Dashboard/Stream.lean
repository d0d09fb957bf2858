import Mathlib.Data.Rat.Floor
import Mathlib.Data.List.Sort
import ReticulumPi.Lib.Delta
import ReticulumPi.Lib.Transition

/-!
# The delta stream of the dashboard

Once a cycle `_broadcast_metrics` collects a dictionary of panel data and sends
every browser the difference to the one of the cycle before. A browser that
connects, or asks for it, gets a full snapshot: a copy of the warm cache, which
the cycles refresh, and heartbeats while nobody is connected, or, when the
cache is empty or old, a fresh collection.

Everything runs in one event loop, so that a step here is what the code does
between two `await`s. What a collection returns, and whether it fails, is part
of the step. The sends of an update are started together, by `gather`, and
each browser gets its messages in the order in which they are sent.

The values are Python's, up to `==`.
-/

namespace ReticulumPi.Dashboard

/-- What the stream asks of the values `V`. -/
structure Values (V : Type*) where
  /-- `None` -/
  none : V
  /-- `isinstance(v, dict)` -/
  isDict : V → Bool
  /-- `v.get(key)` of a dictionary -/
  get : V → String → V
  /-- `ws_stats`: the clients, `max_clients`, the time of the collection, which
      is shown in milliseconds, and `prev_payload_bytes` -/
  wsStats : ℕ → ℕ → ℚ → ℕ → V

abbrev Data (V : Type*) := Dict String V

/-- `max_websocket_clients` -/
structure Config where
  maxWebsocketClients : ℕ := 10

/-! ## The difference of two cycles -/

/-- `_SWEEP_COUNT_KEYS` -/
def sweepCountKeys : List String := ["spectrum", "lora_scanner", "link_tester"]

section Diff

variable {V : Type*} [DecidableEq V] (vals : Values V)

/-- `d.get(key)` -/
def Values.lookup (d : Data V) (key : String) : V := d.shows vals.none key

/-- Two dictionaries of one sweep. -/
def sameSweep (value prevVal : V) : Bool :=
  vals.isDict value && vals.isDict prevVal &&
    decide (vals.get value "sweep_count" = vals.get prevVal "sweep_count" ∧
      vals.get value "bins_version" = vals.get prevVal "bins_version" ∧
      vals.get value "status" = vals.get prevVal "status")

/-- The key has not changed since the last broadcast. -/
def unchanged (prev : Data V) (key : String) (value : V) : Bool :=
  if key ∈ sweepCountKeys then sameSweep vals value (vals.lookup prev key)
  else value = vals.lookup prev key

/-- `_diff_payload`; the keys to drop are sent under the key `_removed`. -/
def diffPayload (data prev : Data V) : Delta String V where
  changed := data.select fun key value => !unchanged vals prev key value
  removed := (prev.keys.filter (· ∉ data.keys)).insertionSort (· ≤ ·)

end Diff

/-! ## The two sides -/

/-- What the handler of a client is doing: collecting data for a snapshot,
    sending it, or reading messages. -/
inductive Handler (V : Type*) where
  | collecting
  | sending (data : Data V)
  | listening

/-- A connected client: what the browser holds, its handler, and
    `_ws_last_snapshot`. -/
structure Client (V : Type*) where
  held : Data V := ∅
  handler : Handler V
  lastSnapshot : ℚ := 0
  /-- It has received a snapshot. -/
  hasSnapshot : Bool := false
  /-- It has received a snapshot, or missed an update, since the last cycle. -/
  offBeat : Bool := false

namespace Client

variable {V : Type*} (client : Client V)

/-- `_applyUpdate`: the keys of `_removed` are dropped, the others set. -/
def applyUpdate (update : Delta String V) : Client V :=
  { client with held := update.apply client.held }

/-- A full snapshot comes. -/
def receiveSnapshot (data : Data V) : Client V :=
  { client.applyUpdate ⟨data, []⟩ with
    handler := .listening
    hasSnapshot := true
    offBeat := true }

/-- The cycle ends with an update. -/
def receiveUpdate (update : Delta String V) : Client V :=
  { client.applyUpdate update with offBeat := false }

/-- The cycle ends, and there is no update. -/
def nothingNew : Client V := { client with offBeat := false }

/-- The cycle is given up, and its update with it. -/
def missUpdate : Client V := { client with offBeat := true }

end Client

/-- Where `_broadcast_metrics` stands: asleep, in a heartbeat, collecting since a
    time, or encoding an update, with the data of the cycle before, to which it
    is the difference. -/
inductive Loop (V : Type*) where
  | sleeping
  | heartbeat
  | collecting (start : ℚ)
  | encoding (update : Delta String V) (before : Data V)

structure System (V : Type*) where
  /-- `time.monotonic()` -/
  mono : ℚ
  /-- `time.time()` -/
  wall : ℚ
  clients : Dict ℕ (Client V) := ∅
  warmCacheData : Data V := ∅
  warmCacheTs : ℚ := 0
  lastHeartbeatTs : ℚ := 0
  lastGlobalSnapshot : ℚ := 0
  loop : Loop V := .sleeping
  prevData : Data V := ∅
  prevPayloadLen : ℕ := 0

/-- `_heartbeat_interval`, for the load average, if there is one. -/
def heartbeatInterval : Option ℚ → Option ℚ
  | none => some 30
  | some load =>
    if load < 6 / 5 then some 30
    else if 16 / 5 ≤ load then none
    else some (30 + (load - 6 / 5) / (16 / 5 - 6 / 5) * (120 - 30))

inductive Event (V : Type*) where
  /-- Time passes; the wall clock may be set. -/
  | tick (d : ℚ) (wall : ℚ)
  | connect (c : ℕ)
  | disconnect (c : ℕ)
  /-- The browser asks for a snapshot. -/
  | requestSnapshot (c : ℕ)
  /-- The collection for a snapshot returns, or fails. -/
  | snapshotCollected (c : ℕ) (data : Data V)
  | snapshotFailed (c : ℕ)
  /-- The snapshot is sent. -/
  | snapshotSent (c : ℕ)
  /-- The loop wakes up, at some load average. -/
  | wake (load : Option ℚ)
  /-- The collection of the loop returns, or fails. -/
  | collected (data : Data V)
  | collectFailed
  /-- The update is encoded, in so many bytes, and sent, or cannot be encoded. -/
  | encoded (len : ℕ)
  | encodeFailed

namespace System

variable {V : Type*} [DecidableEq V] (vals : Values V) (config : Config) (s : System V)

/-- The data of a full snapshot. -/
def fullSnapshot (data : Data V) (clients : ℕ) : Data V :=
  data.set "ws_stats" (vals.wsStats clients config.maxWebsocketClients 0 0)

/-- The handler takes the data from the warm cache, unless that is empty or old. -/
def beginSnapshot (clients : ℕ) : Handler V :=
  if s.warmCacheData.entries ≠ [] ∧ s.mono - s.warmCacheTs < 90 then
    .sending (fullSnapshot vals config s.warmCacheData clients)
  else .collecting

/-- A new client is registered, and its handler begins with the initial snapshot. -/
def connect (c : ℕ) : Option (System V) :=
  if s.clients.get? c = none ∧ s.clients.entries.length < config.maxWebsocketClients then
    let handler := s.beginSnapshot vals config (s.clients.entries.length + 1)
    some { s with clients := s.clients.set c { handler := handler } }
  else none

/-- `_handle_snapshot_request` -/
def handleSnapshotRequest (c : ℕ) (client : Client V) : System V :=
  if s.wall - s.lastGlobalSnapshot < 2 ∨ s.wall - client.lastSnapshot < 10 then s
  else { s with
    lastGlobalSnapshot := s.wall
    clients := s.clients.set c { client with
      lastSnapshot := s.wall
      handler := s.beginSnapshot vals config s.clients.entries.length } }

/-- What becomes of the handler of the client. -/
def modifyHandler (c : ℕ) (f : Client V → Option (Client V)) : Option (System V) :=
  (s.clients.get? c).bind fun client =>
    (f client).map fun client => { s with clients := s.clients.set c client }

/-- The loop wakes up: with clients it collects, without it may be time for a
    heartbeat. -/
def wake (load : Option ℚ) : Option (System V) :=
  match s.loop with
  | .sleeping =>
    if s.clients.entries ≠ [] then some { s with loop := .collecting s.mono }
    else if (heartbeatInterval load).any (· ≤ s.mono - s.lastHeartbeatTs) then
      some { s with loop := .heartbeat }
    else some s
  | _ => none

/-- The data of a cycle that has collected since `start`, with `ws_stats`. -/
def cycleData (start : ℚ) (data : Data V) : Data V :=
  data.set "ws_stats" (vals.wsStats s.clients.entries.length config.maxWebsocketClients
    (s.mono - start) s.prevPayloadLen)

/-- A collection of the loop returns: it fills the warm cache, and in a cycle the
    difference to the last one is to be sent, if there is one. -/
def collected (data : Data V) : Option (System V) :=
  match s.loop with
  | .heartbeat =>
    some { s with
      loop := .sleeping
      warmCacheData := data
      warmCacheTs := s.mono
      lastHeartbeatTs := s.mono }
  | .collecting start =>
    let data := s.cycleData vals config start data
    let update := diffPayload vals data s.prevData
    let s' := { s with
      warmCacheData := data
      warmCacheTs := s.mono
      lastHeartbeatTs := s.mono
      prevData := data }
    if update.IsEmpty then
      some { s' with loop := .sleeping, clients := s.clients.map (·.nothingNew) }
    else some { s' with loop := .encoding update s.prevData }
  | _ => none

/-- A collection fails: a heartbeat or cycle is given up. -/
def collectFailed : Option (System V) :=
  match s.loop with
  | .heartbeat | .collecting _ => some { s with loop := .sleeping }
  | _ => none

/-- The update is sent to the clients there are. -/
def encoded (len : ℕ) : Option (System V) :=
  match s.loop with
  | .encoding update _ =>
    some { s with
      loop := .sleeping
      prevPayloadLen := len
      clients := s.clients.map (·.receiveUpdate update) }
  | _ => none

/-- The update cannot be encoded; `_prev_data` stays what it is. -/
def encodeFailed : Option (System V) :=
  match s.loop with
  | .encoding _ _ =>
    some { s with loop := .sleeping, clients := s.clients.map (·.missUpdate) }
  | _ => none

/-- One step, when it is possible. No data collected has the key `_removed`. -/
def next (s : System V) : Event V → Option (System V)
  | .tick d wall => if 0 ≤ d then some { s with mono := s.mono + d, wall := wall } else none
  | .connect c => s.connect vals config c
  | .disconnect c => some { s with clients := s.clients.erase c }
  | .requestSnapshot c =>
    (s.clients.get? c).bind fun client =>
      match client.handler with
      | .listening => some (s.handleSnapshotRequest vals config c client)
      | _ => none
  | .snapshotCollected c data =>
    if "_removed" ∉ data.keys then
      s.modifyHandler c fun client =>
        match client.handler with
        | .collecting => some { client with
            handler := .sending (fullSnapshot vals config data s.clients.entries.length) }
        | _ => none
    else none
  | .snapshotFailed c =>
    s.modifyHandler c fun client =>
      match client.handler with
      | .collecting => some { client with handler := .listening }
      | _ => none
  | .snapshotSent c =>
    s.modifyHandler c fun client =>
      match client.handler with
      | .sending data => some (client.receiveSnapshot data)
      | _ => none
  | .wake load => s.wake load
  | .collected data => if "_removed" ∉ data.keys then s.collected vals config data else none
  | .collectFailed => s.collectFailed
  | .encoded len => s.encoded len
  | .encodeFailed => s.encodeFailed

/-- The loop begins with no clients; the cache may have been warmed at the start. -/
def Init (s : System V) : Prop :=
  ∃ mono wall, s = { mono := mono, wall := wall } ∨
    ∃ data : Data V, "_removed" ∉ data.keys ∧
      s = { mono := mono, wall := wall, warmCacheData := data, warmCacheTs := mono,
            lastHeartbeatTs := mono }

/-- The runs of the dashboard. -/
def transition : Transition (System V) (Event V) := .ofNext Init (next vals config)

/-! ## Cycles -/

/-- A broadcast cycle that ends: its data, and the data of the cycle before. -/
structure Cycle (V : Type*) where
  data : Data V
  before : Data V

/-- The cycle that ends with the step, if one does: there is nothing to send, or
    the update is sent. -/
def ends : Event V → Option (Cycle V)
  | .collected data =>
    match s.loop with
    | .collecting start =>
      let data := s.cycleData vals config start data
      if (diffPayload vals data s.prevData).IsEmpty then some ⟨data, s.prevData⟩ else none
    | _ => none
  | .encoded _ =>
    match s.loop with
    | .encoding _ before => some ⟨s.prevData, before⟩
    | _ => none
  | _ => none

/-- A browser holds the data, apart from the sweeps. -/
def Agrees (held data : Data V) : Prop :=
  ∀ key ∉ sweepCountKeys, vals.lookup held key = vals.lookup data key

/-- Every browser that has received a snapshot holds the data. -/
def Converged (data : Data V) : Prop :=
  ∀ c client, s.clients.get? c = some client → client.hasSnapshot = true →
    Agrees vals client.held data

variable (cycle : Cycle V)

/-- The key shows the same in both cycles, and has not gone. -/
def Cycle.Stays (key : String) : Prop :=
  vals.lookup cycle.data key = vals.lookup cycle.before key ∧
    (key ∈ cycle.before.keys → key ∈ cycle.data.keys)

/-- A browser that has received a snapshot, or missed an update, since the last
    cycle shows what both cycles do wherever they show the same. -/
def CarriesOver : Prop :=
  ∀ c client, s.clients.get? c = some client → client.hasSnapshot = true →
    client.offBeat = true → ∀ key ∉ sweepCountKeys, cycle.Stays vals key →
      vals.lookup client.held key = vals.lookup cycle.before key

instance (key : String) : Decidable (cycle.Stays vals key) :=
  inferInstanceAs (Decidable (_ ∧ (_ → _)))

/-- Only the keys that the browser or the last cycle has matter. -/
instance : Decidable (s.CarriesOver vals cycle) :=
  decidable_of_iff (∀ entry ∈ s.clients.entries.filter fun entry =>
      entry.2.hasSnapshot && entry.2.offBeat,
    ∀ key ∈ (entry.2.held.keys ++ cycle.before.keys).filter fun key =>
      key ∉ sweepCountKeys ∧ cycle.Stays vals key,
    vals.lookup entry.2.held key = vals.lookup cycle.before key) <| by
    constructor
    · intro h c client hget hsnap hbeat key hkey hstays
      by_cases hmem : key ∈ client.held.keys ++ cycle.before.keys
      · refine h (c, client) ?_ key ?_
        · simp [List.mem_filter, Dict.get?_eq_some_iff.1 hget, hsnap, hbeat]
        · simp [List.mem_filter, List.mem_append.1 hmem, hkey, hstays]
      · have hnone : ∀ d : Data V, key ∉ d.keys → vals.lookup d key = vals.none := fun d hd => by
          rw [Values.lookup, Dict.shows, Option.eq_none_iff_forall_ne_some.2 fun v hv =>
            hd (Dict.mem_keys.2 ⟨v, hv⟩)]
          rfl
        rw [List.mem_append, not_or] at hmem
        rw [hnone _ hmem.1, hnone _ hmem.2]
    · intro h entry hentry key hkey
      rw [List.mem_filter, Bool.and_eq_true] at hentry
      rw [List.mem_filter, decide_eq_true_eq] at hkey
      exact h entry.1 entry.2 (Dict.get?_eq_some_iff.2 hentry.1) hentry.2.1 hentry.2.2 key
        hkey.2.1 hkey.2.2

/-- A step that ends a cycle meets `CarriesOver`. -/
def OnBeat (s : System V) (e : Event V) : Prop :=
  ∀ cycle, s.ends vals config e = some cycle → s.CarriesOver vals cycle

instance (e : Event V) : Decidable (OnBeat vals config s e) :=
  match hends : s.ends vals config e with
  | none => isTrue fun cycle h => by rw [hends] at h; cases h
  | some cycle => decidable_of_iff (s.CarriesOver vals cycle)
    ⟨fun h cycle' h' => by rw [hends] at h'; cases h'; exact h, fun h => h cycle hends⟩

end System

end ReticulumPi.Dashboard
