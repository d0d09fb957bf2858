import Mathlib.Algebra.Order.Ring.Rat
import ReticulumPi.Lib.Dict
import ReticulumPi.Lib.PyValue
import ReticulumPi.Lib.Transition

/-!
# The pool of community hubs

The transport monitor connects to hubs from a pool: those of its configuration, and
those that peers have told it of in *hub exchanges*. One thread, the manager, keeps
enough of them connected: a hub whose connection fails is in *cooldown* for a while,
longer with every failure. From time to time it *sweeps* the pool: hubs from peers
that have not been seen for long are forgotten. Exchanges come in at any time, on
another thread.

What a peer says may be any value. The hubs of a configuration may have written
their port in any way in which `int` can read it.
-/

namespace ReticulumPi.Transport.HubPool

/-! ## Hubs -/

/-- An entry of `_hub_pool`. -/
structure Hub where
  host : String
  /-- The port, as it is formatted. -/
  port : String
  /-- What `int` makes of the port. -/
  number : Option ℤ
  /-- The `source` is `exchange`. -/
  isExchanged : Bool
  lastSeen : ℚ
  /-- Whether the hub comes from the configuration. -/
  configured : Bool
deriving DecidableEq

/-- `f"{host}:{port}"` -/
def keyOf (host port : String) : String := host ++ ":" ++ port

namespace Hub

/-- The key by which the pool knows a hub. -/
def key (h : Hub) : String := keyOf h.host h.port

/-- The key of its connection, and of its cooldown. -/
def address (h : Hub) : Option String := h.number.map fun n => keyOf h.host (toString n)

/-- The host and the port. -/
def place (h : Hub) : Option (String × ℤ) := h.number.map fun n => (h.host, n)

end Hub

/-! ## Exchanges -/

/-- `_MAX_HUB_POOL_SIZE` -/
def maxHubPoolSize : ℕ := 500

/-- An item of a received list: a dictionary, with its entries `h` and `p`, or
    something that has no entries. -/
inductive Item where
  | hub (h p : Option PyValue)
  | other

/-- A port is an integer, or a Boolean, which is one too: how it is formatted, and its
    value. -/
def asPort : PyValue → Option (String × ℤ)
  | .int n => some (toString n, n)
  | .bool true => some ("True", 1)
  | .bool false => some ("False", 0)
  | _ => none

/-- The class of `_HOST_RE`. -/
def isHostChar (c : Char) : Bool :=
  ('a' ≤ c && c ≤ 'z') || ('A' ≤ c && c ≤ 'Z') || ('0' ≤ c && c ≤ '9') || c ∈ ['.', '_', '-']

/-- `_HOST_RE.match`; the `$` also matches before a line break at the end. -/
def matchesHost (host : String) : Bool :=
  let l := host.toList
  let body := if l.getLast? = some '\n' then l.dropLast else l
  1 ≤ body.length && body.length ≤ 253 && body.all isHostChar

/-- The host and the port of an item, when they are valid. -/
def validated (h p : Option PyValue) : Option (String × String × ℤ) :=
  match h.getD (.str ""), asPort (p.getD (.int 0)) with
  | .str host, some (port, n) =>
    if host ≠ "" ∧ n ≠ 0 ∧ 1 ≤ n ∧ n ≤ 65535 ∧ matchesHost host then some (host, port, n) else none
  | _, _ => none

/-- The loop of `_merge_exchanged_hubs`; it ends with an exception at an item that is
    not a dictionary. -/
def merge (pinned : List String) (now : ℚ) : List Hub → List String → List Item → List Hub
  | pool, _, [] => pool
  | pool, _, .other :: _ => pool
  | pool, existingKeys, .hub h p :: received =>
    match validated h p with
    | none => merge pinned now pool existingKeys received
    | some (host, port, n) =>
      let key := keyOf host port
      if key ∈ existingKeys ∨ key ∈ pinned then merge pinned now pool existingKeys received
      else if maxHubPoolSize ≤ pool.length then pool
      else
        let hub : Hub :=
          { host, port := toString n, number := some n, isExchanged := true, lastSeen := now,
            configured := false }
        merge pinned now (pool ++ [hub]) (key :: existingKeys) received

/-- `_merge_exchanged_hubs` -/
def mergeExchangedHubs (pinned : List String) (now : ℚ) (pool : List Hub)
    (received : List Item) : List Hub :=
  merge pinned now pool (pool.map Hub.key) received

/-! ## The manager -/

structure Settings where
  cooldownSeconds : ℚ := 300
  maxCooldownSeconds : ℚ := 3600
  staleHours : ℚ := 24
  targetConnections : ℤ := 3

structure Cooldown where
  due : ℚ
  failures : ℕ
deriving DecidableEq

/-- Where the manager is. -/
inductive Manager where
  | starting
  /-- It has built the pinned set. -/
  | loading
  | idle
  /-- It has disconnected a hub, and puts it into cooldown. -/
  | cooling (key : String)
  /-- It connects to candidates, until it has as many as it needs. -/
  | connecting (needed connected : ℤ) (candidates : List Hub)

structure State where
  pool : List Hub := []
  pinned : List String := []
  /-- The keys of `_auto_interfaces`. -/
  interfaces : List String := []
  cooldowns : Dict String Cooldown := ∅
  manager : Manager := .starting
  /-- What the manager has last read from the clock. -/
  clock : ℚ := 0
  /-- When the cooldowns end into which addresses have been put, until a connection to
      them succeeds. -/
  due : Dict String ℚ := ∅

namespace State

variable (settings : Settings) (s : State)

/-- `_update_cooldown` -/
def updateCooldown (key : String) (now : ℚ) : State :=
  let failures := (s.cooldowns.get? key).elim 0 (·.failures) + 1
  let backoff := min (settings.cooldownSeconds * 2 ^ (failures - 1)) settings.maxCooldownSeconds
  { s with
    cooldowns := s.cooldowns.set key { due := now + backoff, failures }
    due := s.due.set key (now + backoff) }

/-- The hub is forgotten by a sweep: it comes from an exchange, is not connected and
    has not been seen for long. -/
def IsStale (now : ℚ) (h : Hub) : Prop :=
  ¬ (now - settings.staleHours * 3600 < h.lastSeen ∨ h.key ∈ s.interfaces ∨ ¬ h.isExchanged)
deriving Decidable

/-- `_sweep_stale_hubs` -/
def sweepStaleHubs (now : ℚ) : State :=
  let pool := s.pool.filter fun h => ¬ s.IsStale settings now h
  { s with
    pool
    cooldowns := s.cooldowns.select fun key _ => key ∈ pool.map Hub.key }

/-- The hubs that may be connected to. -/
def available (now : ℚ) : List Hub :=
  s.pool.filter fun h => h.key ∉ s.pinned ∧ h.key ∉ s.interfaces ∧
    ∀ cd ∈ s.cooldowns.get? h.key, ¬ now < cd.due

/-- The first hub of the key has been seen. -/
def seen (key : String) (now : ℚ) : List Hub → List Hub
  | [] => []
  | h :: pool => if h.key = key then { h with lastSeen := now } :: pool else h :: seen key now pool

/-- A connection succeeds. -/
def connected (key : String) (now : ℚ) : State :=
  { s with
    interfaces := if key ∈ s.interfaces then s.interfaces else s.interfaces ++ [key]
    cooldowns := s.cooldowns.erase key
    pool := seen key now s.pool
    due := s.due.erase key }

/-- `_connect_auto_hub`, of the next candidate. -/
def connectAutoHub (hub : Hub) (ok : Bool) (now : ℚ) : State :=
  match hub.address with
  | none => s
  | some key => if ok then s.connected key now else s.updateCooldown settings key now

/-- What the manager does after a candidate; a port that `int` cannot read ends it. -/
def goOn (needed connected : ℤ) (hub : Hub) (ok : Bool) (rest : List Hub) : Manager :=
  let connected := if ok then connected + 1 else connected
  if hub.number = none ∨ needed ≤ connected ∨ rest = [] then .idle
  else .connecting needed connected rest

end State

/-! ## Runs -/

/-- A hub of the configuration. -/
structure ConfiguredHub where
  host : String
  port : String
  number : Option ℤ
  isExchanged : Bool := false
  lastSeen : Option ℚ := none
deriving DecidableEq

def ConfiguredHub.hub (now : ℚ) (h : ConfiguredHub) : Hub where
  host := h.host
  port := h.port
  number := h.number
  isExchanged := h.isExchanged
  lastSeen := h.lastSeen.getD now
  configured := true

inductive Event where
  /-- A list of hubs is received. -/
  | exchange (received : List Item) (now : ℚ)
  -- The steps of the manager.
  | buildPinnedSet (pinned : List String)
  | loadHubPool (hubs : List ConfiguredHub) (now : ℚ)
  | sweep (now : ℚ)
  /-- A connected hub is found dead, or TCP has been switched off. -/
  | disconnect (key : String)
  | cool (now : ℚ)
  /-- `_select_candidates`; the order depends on the regions, and on chance. -/
  | select (order : List Hub) (now : ℚ)
  | connect (ok : Bool) (now : ℚ)
  /-- The monitor stops. -/
  | teardown

variable (settings : Settings)

/-- The clock does not go back. -/
def next (s : State) : Event → Option State
  | .exchange received now =>
    some { s with pool := mergeExchangedHubs s.pinned now s.pool received }
  | .buildPinnedSet pinned =>
    match s.manager with
    | .starting => some { s with pinned, manager := .loading }
    | _ => none
  | .loadHubPool hubs now =>
    match s.manager with
    | .loading => some { s with pool := hubs.map (ConfiguredHub.hub now), manager := .idle }
    | _ => none
  | .sweep now =>
    match s.manager with
    | .idle =>
      if s.clock ≤ now then some { s.sweepStaleHubs settings now with clock := now } else none
    | _ => none
  | .disconnect key =>
    match s.manager with
    | .idle =>
      if key ∈ s.interfaces then
        some { s with interfaces := s.interfaces.erase key, manager := .cooling key }
      else none
    | _ => none
  | .cool now =>
    match s.manager with
    | .cooling key =>
      if s.clock ≤ now then
        some { s.updateCooldown settings key now with clock := now, manager := .idle }
      else none
    | _ => none
  | .select order now =>
    match s.manager with
    | .idle =>
      let needed := settings.targetConnections - s.interfaces.length
      if s.clock ≤ now ∧ 0 < needed ∧ order.Perm (s.available now) ∧ order ≠ [] then
        some { s with
          clock := now
          manager := .connecting needed 0 (order.take (2 * needed.toNat)) }
      else none
    | _ => none
  | .connect ok now =>
    match s.manager with
    | .connecting needed connected (hub :: rest) =>
      if s.clock ≤ now then
        some { s.connectAutoHub settings hub ok now with
          clock := now
          manager := State.goOn needed connected hub ok rest }
      else none
    | _ => none
  | .teardown => some { s with interfaces := [] }

/-- The monitor, from its start. -/
abbrev monitor : Transition State Event := .ofNext (fun s => ∃ clock, s = { clock }) (next settings)

/-! ## The rules -/

/-- The hubs that the manager has chosen. -/
def Manager.chosen : Manager → List Hub
  | .connecting _ _ candidates => candidates
  | _ => []

/-- What a step may do. An exchange adds hubs at the end, within the bound, none of
    which is there already or pinned; a sweep forgets no hub that is configured or
    connected; and no hub is chosen before its cooldown ends. -/
def WithinRules (s : State) (e : Event) (s' : State) : Prop :=
  match e with
  | .exchange _ _ => ∃ added, s'.pool = s.pool ++ added ∧ s'.pinned = s.pinned ∧
      s'.pool.length ≤ max s.pool.length maxHubPoolSize ∧
      (added.map Hub.place).Nodup ∧
      ∀ h ∈ added, h.place ∉ s.pool.map Hub.place ∧ ∀ a ∈ h.address, a ∉ s.pinned
  | .sweep _ => ∀ h ∈ s.pool, (h.configured ∨ ∃ a ∈ h.address, a ∈ s.interfaces) → h ∈ s'.pool
  | .select _ now => ∀ h ∈ s'.manager.chosen, ∀ a ∈ h.address, ∀ u ∈ s.due.get? a, u ≤ now
  | _ => True

/-- The configuration writes a port as the number it is, and does not pass a hub off
    as one from an exchange. -/
def ConfiguredHub.IsPlain (h : ConfiguredHub) : Prop :=
  (∀ n ∈ h.number, h.port = toString n) ∧ h.isExchanged = false

/-- The port of the item is not the Boolean `True`. -/
def Item.IsPlain : Item → Prop
  | .hub _ (some (.bool true)) => False
  | _ => True

/-- The configured hubs and the received items are plain, and a sweep forgets only
    hubs whose cooldown has ended. -/
def Plain (s : State) : Event → Prop
  | .exchange received _ => ∀ item ∈ received, item.IsPlain
  | .loadHubPool hubs _ => ∀ h ∈ hubs, h.IsPlain
  | .sweep now => ∀ h ∈ s.pool, s.IsStale settings now h →
      ∀ cd ∈ s.cooldowns.get? h.key, cd.due ≤ now
  | _ => True

end ReticulumPi.Transport.HubPool
