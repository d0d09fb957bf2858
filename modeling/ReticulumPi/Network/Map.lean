import Mathlib.Data.List.MinMax
import ReticulumPi.Lib.Dict
import ReticulumPi.Lib.PyStr
import ReticulumPi.Lib.Transition

/-!
# The network map

Announces go through a queue to a worker, which keeps a record of each node in
memory, for at most `maxCachedNodes` of them, and writes what changed to the
table `known_nodes` from time to time. A maintenance thread drops old rows and
records. One announce can come twice: from the handler of its aspect and from
the wildcard handler, in either order. The worker and the maintenance thread are
cut where they let go of the lock of the nodes or of the write connection; what
that connection has written without a commit is kept apart from the table.
-/

namespace ReticulumPi.Network

/-- A destination hash, read as a number. -/
abbrev Hash := ℕ

/-- The record of a node, and the row of `known_nodes` for it. -/
structure NodeInfo where
  appName : String
  aspects : String
  hops : Option ℕ
  lastSeen : ℚ
  firstSeen : ℚ
  announceCount : ℕ
  appDataStr : String
deriving DecidableEq

/-- A real announce: `aspect` is that of the specific handler it goes to, if it
    goes to one, and `id` tells apart announces of the same content. -/
structure Announce where
  id : ℕ
  destinationHash : Hash
  appData : List UInt8 := []
  aspect : Option String
  wildcard : Bool
deriving DecidableEq

/-- What a handler puts in the queue. -/
structure Delivery where
  announce : Announce
  fromWildcard : Bool
deriving DecidableEq

/-- The handler is one that the announce goes to. -/
def Delivery.Valid (d : Delivery) : Prop :=
  if d.fromWildcard then d.announce.wildcard = true else d.announce.aspect.isSome = true
deriving Decidable

/-- The settings. `displayName` is the name that a nonempty `app_data` holds, as
    far as `umsgpack` finds one; `none` when that raises an error which is not
    caught there. -/
structure Config where
  maxCachedNodes : ℕ := 10000
  maxHistorySeconds : ℚ := 30 * 86400
  displayName : List UInt8 → Option String
  maxCachedNodes_ge : 100 ≤ maxCachedNodes := by decide

/-- The bound of the queue of announces. -/
def queueMaxsize : ℕ := 10000

/-! ## One announce -/

/-- `_infer_app_from_data` -/
def inferAppFromData (appDataStr : String) : String × String :=
  let s := appDataStr.toList
  if "styrene:".toList <+: s then ("styrene", "node")
  else if "\x7b".toList <+: s ∧ "\"h\"".toList <:+: s then ("sideband", "presence")
  else if PyStr.strip (s.map Char.toLower) = "presence".toList then ("sideband", "presence")
  else if "Anonymous Peer".toList <+: s then ("sideband", "client")
  else ("", "")

/-- The name of the application and its aspects, in the aspect of an announce. -/
def splitAspect (aspect : String) : String × String :=
  let s := aspect.toList
  (String.ofList (s.takeWhile (· ≠ '.')), String.ofList ((s.dropWhile (· ≠ '.')).drop 1))

namespace Delivery

/-- The name in the data of the announce. -/
def appDataStr (d : Delivery) (config : Config) : Option String :=
  if d.announce.appData = [] then some "" else config.displayName d.announce.appData

/-- The application that the announce is of, given the name in its data. -/
def app (d : Delivery) (appDataStr : String) : String × String :=
  let app := splitAspect (if d.fromWildcard then "" else d.announce.aspect.getD "")
  if app.1 = "" ∧ appDataStr ≠ "" ∧ d.fromWildcard then inferAppFromData appDataStr else app

end Delivery

namespace NodeInfo

/-- The record of a known node after another announce. -/
def seenAgain (info : NodeInfo) (app : String × String) (appDataStr : String) (hops : Option ℕ)
    (now : ℚ) : NodeInfo :=
  { info with
    lastSeen := now
    hops := hops
    appName := if app.1 ≠ "" then app.1 else info.appName
    aspects := if app.1 ≠ "" then app.2 else info.aspects
    appDataStr := if appDataStr ≠ "" then appDataStr else info.appDataStr
    announceCount := info.announceCount + 1 }

/-- The record of a new node. -/
def discovered (app : String × String) (appDataStr : String) (hops : Option ℕ) (now : ℚ) :
    NodeInfo where
  appName := app.1
  aspects := app.2
  hops := hops
  lastSeen := now
  firstSeen := now
  announceCount := 1
  appDataStr := appDataStr

/-- A row without application gets the one that its data shows. -/
def reclassified (info : NodeInfo) (app : String × String) : NodeInfo :=
  { info with appName := app.1, aspects := app.2 }

end NodeInfo

/-- The records, once the one seen longest ago is dropped when there are too many. -/
def evict (config : Config) (nodes : Dict Hash NodeInfo) : Dict Hash NodeInfo :=
  if config.maxCachedNodes < nodes.entries.length then
    match nodes.entries.argmin (·.2.lastSeen) with
    | some oldest => nodes.erase oldest.1
    | none => nodes
  else nodes

/-! ## The state -/

/-- Where the maintenance thread stands in `_prune_old_data`. -/
inductive Maintenance where
  | idle
  | pruning (cutoff : ℚ)
  /-- The rows are deleted, the records not yet. -/
  | pruned (cutoff : ℚ)
deriving DecidableEq

/-- The plugin and its database: `table` is `known_nodes` as the write connection
    sees it, `rows` what is committed of it, and `batch` what the worker is
    about to write. `delivered` and `handled` are not in the source: the
    deliveries made, and by how much each of those that left the queue raised
    the count of its node in memory. -/
structure System where
  knownNodes : Dict Hash NodeInfo := ∅
  announceQueue : List Delivery := []
  pendingUpserts : Dict Hash NodeInfo := ∅
  batch : Option (Dict Hash NodeInfo) := none
  maintenance : Maintenance := .idle
  table : Dict Hash NodeInfo := ∅
  rows : Dict Hash NodeInfo := ∅
  clock : ℚ
  delivered : List Delivery := []
  handled : List (Delivery × ℤ) := []

/-- How the writing of a batch ends: after `written` of its rows it can fail,
    before the commit or in it; or the database undoes what is not committed. -/
inductive WriteResult where
  | ok
  | failed (written : ℕ)
  | rolledBack
deriving DecidableEq

/-- How the deletion of old rows ends. -/
inductive PruneResult where
  | ok
  /-- It failed before a row was deleted. -/
  | failed
  /-- The rows were deleted, and not committed. -/
  | notCommitted
  | rolledBack
deriving DecidableEq

/-- A step of a handler, the worker, the maintenance thread or the clock, or a
    restart. The worker gets the hops to the node; a restart, the order of the
    rows it loads, `none` when they cannot be read, and after how many rows
    the classification failed, if it did. -/
inductive Event where
  | tick (d : ℚ)
  | deliver (d : Delivery)
  | process (hops : Option ℕ)
  | takeBatch
  | writeBatch (result : WriteResult)
  | readCutoff
  | pruneRows (result : PruneResult)
  | pruneNodes
  | restart (order : Option (List (Hash × NodeInfo))) (failure : Option ℕ)

namespace System

variable (config : Config)

/-! ## The worker -/

variable (s : System)

/-- `record_announce` -/
def recordAnnounce (d : Delivery) : System :=
  let s := { s with delivered := d :: s.delivered }
  if s.announceQueue.length < queueMaxsize then
    { s with announceQueue := s.announceQueue ++ [d] }
  else { s with handled := (d, 0) :: s.handled }

/-- The record in memory goes to the next batch. -/
def upsert (hash : Hash) : System :=
  match s.knownNodes.get? hash with
  | some info => { s with pendingUpserts := s.pendingUpserts.set hash info }
  | none => s

/-- `_process_announce` -/
def processAnnounce (d : Delivery) (hops : Option ℕ) : System :=
  match d.appDataStr config with
  | none => s
  | some appDataStr =>
    let hash := d.announce.destinationHash
    let app := d.app appDataStr
    match s.knownNodes.get? hash with
    | some info =>
      if d.fromWildcard ∧ info.appName ≠ "" then s
      else
        ({ s with
          knownNodes := s.knownNodes.set hash (info.seenAgain app appDataStr hops s.clock) }).upsert
            hash
    | none =>
      ({ s with
        knownNodes := evict config
          (s.knownNodes.set hash (.discovered app appDataStr hops s.clock)) }).upsert hash

/-- The count of a node in memory. -/
def announceCount (s : System) (hash : Hash) : ℤ :=
  ((s.knownNodes.get? hash).map fun info => (info.announceCount : ℤ)).getD 0

/-- The worker takes a delivery from the queue. -/
def process (hops : Option ℕ) : Option System :=
  match s.batch, s.announceQueue with
  | none, d :: rest =>
    let s' := ({ s with announceQueue := rest }).processAnnounce config d hops
    let rise := s'.announceCount d.announce.destinationHash -
      s.announceCount d.announce.destinationHash
    some { s' with handled := (d, rise) :: s'.handled }
  | _, _ => none

/-- `_flush_pending_upserts` takes its batch. -/
def takeBatch : Option System :=
  if s.batch = none ∧ s.pendingUpserts.entries ≠ [] then
    some { s with batch := some s.pendingUpserts, pendingUpserts := ∅ }
  else none

/-- The table with the given rows inserted or replaced. -/
def upsertRows (table : Dict Hash NodeInfo) (l : List (Hash × NodeInfo)) : Dict Hash NodeInfo :=
  l.foldl (fun d e => d.set e.1 e.2) table

/-- `_flush_pending_upserts` writes its batch. -/
def writeBatch (result : WriteResult) : Option System :=
  s.batch.map fun batch =>
    match result with
    | .ok =>
      let table := upsertRows s.table batch.entries
      { s with batch := none, table := table, rows := table }
    | .failed written =>
      { s with batch := none, table := upsertRows s.table (batch.entries.take written) }
    | .rolledBack => { s with batch := none, table := s.rows }

/-! ## The maintenance thread -/

/-- The rows, or records, that are not too old. -/
def recent (cutoff : ℚ) (nodes : Dict Hash NodeInfo) : Dict Hash NodeInfo :=
  nodes.filter fun info => cutoff ≤ info.lastSeen

/-- `_prune_old_data` reads the clock. -/
def readCutoff : Option System :=
  match s.maintenance with
  | .idle => some { s with maintenance := .pruning (s.clock - config.maxHistorySeconds) }
  | _ => none

/-- `_prune_old_data` deletes the rows. -/
def pruneRows (result : PruneResult) : Option System :=
  match s.maintenance with
  | .pruning cutoff =>
    let table := recent cutoff s.table
    some (match result with
      | .ok => { s with table := table, rows := table, maintenance := .pruned cutoff }
      | .failed => { s with maintenance := .idle }
      | .notCommitted => { s with table := table, maintenance := .idle }
      | .rolledBack => { s with table := s.rows, maintenance := .idle })
  | _ => none

/-- `_prune_old_data` deletes the records. -/
def pruneNodes : Option System :=
  match s.maintenance with
  | .pruned cutoff =>
    some { s with knownNodes := recent cutoff s.knownNodes, maintenance := .idle }
  | _ => none

/-! ## Restarts -/

/-- The rows in an order that the query of `_load_from_db` may return. -/
def IsLoadOrder (order : List (Hash × NodeInfo)) : Prop :=
  order.Perm s.rows.entries ∧ order.Pairwise fun a b => b.2.lastSeen ≤ a.2.lastSeen
deriving Decidable

/-- `_load_from_db` -/
def loadFromDb (order : List (Hash × NodeInfo)) : System :=
  { s with knownNodes := upsertRows ∅ (order.take config.maxCachedNodes) }

/-- One row in `_reclassify_unclassified`. -/
def reclassify (e : Hash × NodeInfo) : System :=
  let app := inferAppFromData e.2.appDataStr
  if app.1 = "" then s
  else
    { s with
      table := s.table.set e.1 (e.2.reclassified app)
      knownNodes :=
        match s.knownNodes.get? e.1 with
        | some info => s.knownNodes.set e.1 (info.reclassified app)
        | none => s.knownNodes }

/-- The rows that `_reclassify_unclassified` selects. -/
def unclassified : List (Hash × NodeInfo) :=
  s.table.entries.filter fun e => e.2.appName = "" ∧ e.2.appDataStr ≠ ""

/-- `_reclassify_unclassified` -/
def reclassifyUnclassified : Option ℕ → System
  | none =>
    let s := s.unclassified.foldl reclassify s
    { s with rows := s.table }
  | some done => (s.unclassified.take done).foldl reclassify s

/-- The plugin ends, and starts again: what is neither committed nor in the rows is lost. -/
def restart (order : Option (List (Hash × NodeInfo))) (failure : Option ℕ) :
    Option System :=
  let s₀ : System :=
    { rows := s.rows
      table := s.rows
      clock := s.clock
      delivered := s.delivered
      handled := s.announceQueue.map (·, 0) ++ s.handled }
  match order with
  | none => some (s₀.reclassifyUnclassified failure)
  | some order =>
    if s.IsLoadOrder order then
      some ((s₀.loadFromDb config order).reclassifyUnclassified failure)
    else none

/-! ## All steps -/

/-- The effect of an event; `none` when it cannot take place. -/
def next : Event → Option System
  | .tick d => if 0 ≤ d then some { s with clock := s.clock + d } else none
  | .deliver d => if d.Valid ∧ d ∉ s.delivered then some (s.recordAnnounce d) else none
  | .process hops => s.process config hops
  | .takeBatch => s.takeBatch
  | .writeBatch result => s.writeBatch result
  | .readCutoff => s.readCutoff config
  | .pruneRows result => s.pruneRows result
  | .pruneNodes => s.pruneNodes
  | .restart order failure => s.restart config order failure

/-- The plugin with an empty database, at any time, and its steps. -/
def transition : Transition System Event :=
  .ofNext (fun s => ∃ t, s = { clock := t }) (next config)

end System

end ReticulumPi.Network
