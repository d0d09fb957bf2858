import Mathlib.Algebra.Order.Field.Rat
import ReticulumPi.Lib.Dict
import ReticulumPi.Lib.Past
import ReticulumPi.Lib.Transition

/-!
# The health of transport nodes

At every check the plugin reads the path table of the node: a hash named there
as a next hop is a relay that is present. From the checks it keeps a record of
each relay, classifies it, and publishes an event when its status changes. The
records are written to a database after each check, and read from it when the
plugin starts again, without the streaks, which the database does not hold.
-/

namespace ReticulumPi.Transport

/-- The status of a transport node. -/
inductive Status where
  | new
  | healthy
  | degraded
  | down
deriving DecidableEq

/-- The settings of the plugin. -/
structure Settings where
  downThreshold : ℕ := 3
  degradedPct : ℚ := 80
  historyRetentionHours : ℚ := 168
  downThreshold_pos : 1 ≤ downThreshold := by decide

/-- The record kept of a transport node. -/
structure NodeRecord where
  hash : String
  firstSeen : ℚ
  lastSeen : ℚ
  pathsVia : ℕ
  maxPathsVia : ℕ
  totalAppearances : ℕ
  totalChecks : ℕ
  consecutivePresent : ℕ
  consecutiveAbsent : ℕ
  longestPresentStreak : ℕ
  longestAbsentStreak : ℕ
  availabilityPct : ℚ
  interface : String
  status : Status
  nodeName : String

/-- A row of the table `transport_nodes`. -/
structure NodeRow where
  firstSeen : ℚ
  lastSeen : ℚ
  pathsVia : ℕ
  maxPathsVia : ℕ
  totalAppearances : ℕ
  totalChecks : ℕ
  availabilityPct : ℚ
  interface : String
  status : Status
  nodeName : String

/-- An event on the bus. -/
inductive Alarm where
  | discovered (hash : String) (pathsVia : ℕ)
  | down (hash : String) (maxPathsVia : ℕ) (previousStatus : Status)
  | recovered (hash : String) (pathsVia : ℕ)
  | degraded (hash : String)
deriving DecidableEq

/-- The alarm is a TRANSPORT_NODE_DOWN for the relay. -/
def Alarm.isDown (hash : String) : Alarm → Bool
  | down h _ _ => h = hash
  | _ => false

/-- The alarm is a TRANSPORT_NODE_RECOVERED for the relay. -/
def Alarm.isRecovered (hash : String) : Alarm → Bool
  | recovered h _ => h = hash
  | _ => false

/-! ## The path table -/

/-- An entry of the path table. -/
structure PathEntry where
  via : String
  interface : String

/-- What the path table says about a relay. -/
structure ViaInfo where
  count : ℕ
  interface : String

/-- A direct path has no relay: the hash is empty, or all zeros. -/
def isDirect (via : String) : Bool := via.toList.all (· = '0')

/-- One entry of the path table is counted. -/
def countVia (viaMap : Dict String ViaInfo) (entry : PathEntry) : Dict String ViaInfo :=
  if isDirect entry.via then viaMap
  else
    match viaMap.get? entry.via with
    | some info => viaMap.set entry.via { info with count := info.count + 1 }
    | none => viaMap.set entry.via ⟨1, entry.interface⟩

/-- `_get_current_via_map`, of the paths that the connectivity monitor reports;
    there are none when it is not ready, or raises. -/
def getCurrentViaMap (paths : List PathEntry) : Dict String ViaInfo := paths.foldl countVia ∅

/-! ## One relay in one check -/

/-- The record after a check in which the relay is present, or is not. -/
def updateRecord (record : NodeRecord) (now : ℚ) : Option ViaInfo → NodeRecord
  | some info =>
    { record with
      totalChecks := record.totalChecks + 1
      lastSeen := now
      pathsVia := info.count
      interface := info.interface
      maxPathsVia := max record.maxPathsVia info.count
      totalAppearances := record.totalAppearances + 1
      consecutiveAbsent := 0
      consecutivePresent := record.consecutivePresent + 1
      longestPresentStreak := max record.longestPresentStreak (record.consecutivePresent + 1)
      availabilityPct := (record.totalAppearances + 1 : ℕ) / (record.totalChecks + 1 : ℕ) * 100 }
  | none =>
    { record with
      totalChecks := record.totalChecks + 1
      pathsVia := 0
      consecutivePresent := 0
      consecutiveAbsent := record.consecutiveAbsent + 1
      longestAbsentStreak := max record.longestAbsentStreak (record.consecutiveAbsent + 1)
      availabilityPct := record.totalAppearances / (record.totalChecks + 1 : ℕ) * 100 }

variable (settings : Settings)

/-- `_classify_status` -/
def classifyStatus (record : NodeRecord) : Status :=
  if record.totalChecks ≤ 3 then .new
  else if settings.downThreshold ≤ record.consecutiveAbsent then .down
  else if record.availabilityPct < settings.degradedPct then .degraded
  else .healthy

/-- `_handle_transition` -/
def handleTransition (hash : String) (oldStatus newStatus : Status) (currentPaths maxPaths : ℕ) :
    List Alarm :=
  if oldStatus = newStatus then []
  else if newStatus = .down ∧ (oldStatus = .healthy ∨ oldStatus = .degraded ∨ oldStatus = .new) then
    [.down hash maxPaths oldStatus]
  else if newStatus = .healthy ∧ oldStatus = .down then [.recovered hash currentPaths]
  else if newStatus = .degraded ∧ oldStatus = .healthy then [.degraded hash]
  else []

/-- The record of a known relay after a check. -/
def checkNode (via : Dict String ViaInfo) (now : ℚ) (hash : String)
    (record : NodeRecord) : NodeRecord :=
  let updated := updateRecord record now (via.get? hash)
  { updated with status := classifyStatus settings updated }

/-- The events that the check publishes for it. -/
def checkAlarms (via : Dict String ViaInfo) (now : ℚ)
    (entry : String × NodeRecord) : List Alarm :=
  let checked := checkNode settings via now entry.1 entry.2
  handleTransition entry.1 entry.2.status checked.status checked.pathsVia checked.maxPathsVia

/-- The record of a relay that a check discovers. -/
def newRecord (hash : String) (info : ViaInfo) (now : ℚ) (name : String) : NodeRecord where
  hash := hash
  firstSeen := now
  lastSeen := now
  pathsVia := info.count
  maxPathsVia := info.count
  totalAppearances := 1
  totalChecks := 1
  consecutivePresent := 1
  consecutiveAbsent := 0
  longestPresentStreak := 1
  longestAbsentStreak := 0
  availabilityPct := 100
  interface := info.interface
  status := .new
  nodeName := name

variable (nodes : Dict String NodeRecord)

/-- The relays of the path table that have no record yet. -/
def undiscovered (via : Dict String ViaInfo) :
    List (String × ViaInfo) :=
  via.entries.filter fun e => e.1 ∉ nodes.keys

/-- The records after a check: the known relays updated, the new ones added. -/
def checkNodes (via : Dict String ViaInfo)
    (now : ℚ) (name : String → String) : Dict String NodeRecord :=
  (undiscovered nodes via).foldl (fun d e => d.set e.1 (newRecord e.1 e.2 now (name e.1)))
    (nodes.mapWithKey (checkNode settings via now))

/-- The events that a check publishes. -/
def alarms (via : Dict String ViaInfo)
    (now : ℚ) : List Alarm :=
  nodes.entries.flatMap (checkAlarms settings via now) ++
    (undiscovered nodes via).map fun e => .discovered e.1 e.2.count

/-! ## The database -/

/-- The row that `_persist_to_db` writes. -/
def NodeRecord.row (r : NodeRecord) : NodeRow where
  firstSeen := r.firstSeen
  lastSeen := r.lastSeen
  pathsVia := r.pathsVia
  maxPathsVia := r.maxPathsVia
  totalAppearances := r.totalAppearances
  totalChecks := r.totalChecks
  availabilityPct := r.availabilityPct
  interface := r.interface
  status := r.status
  nodeName := r.nodeName

/-- The record that `_load_from_db` makes of a row. -/
def NodeRow.record (hash : String) (row : NodeRow) : NodeRecord where
  hash := hash
  firstSeen := row.firstSeen
  lastSeen := row.lastSeen
  pathsVia := row.pathsVia
  maxPathsVia := row.maxPathsVia
  totalAppearances := row.totalAppearances
  totalChecks := row.totalChecks
  consecutivePresent := 0
  consecutiveAbsent := 0
  longestPresentStreak := 0
  longestAbsentStreak := 0
  availabilityPct := row.availabilityPct
  interface := row.interface
  status := row.status
  nodeName := row.nodeName

/-- `_persist_to_db`: every record is inserted, or replaces its row. -/
def persistToDb (rows : Dict String NodeRow) (nodes : Dict String NodeRecord) :
    Dict String NodeRow :=
  nodes.entries.foldl (fun d e => d.set e.1 e.2.row) rows

/-- `_load_from_db` -/
def loadFromDb (rows : Dict String NodeRow) : Dict String NodeRecord :=
  rows.entries.foldl (fun d e => d.set e.1 (e.2.record e.1)) ∅

/-! ## Checks and restarts -/

/-- What a check has seen and done: the relays present, the events published,
    and the relays whose status it left healthy. -/
structure Check where
  present : List String
  alarms : List Alarm
  healthy : List String

/-- The plugin, the rows of its database, and the checks so far, newest first,
    which the source does not keep. -/
structure System where
  nodes : Dict String NodeRecord := ∅
  rows : Dict String NodeRow := ∅
  pruneCycleCount : ℕ := 0
  log : List Check := []

/-- A check, with the paths it reads, the names it looks up, the time it reads
    and the time its pruning does; or a restart of the plugin. -/
inductive Event where
  | check (paths : List PathEntry) (name : String → String) (now pruneNow : ℚ)
  | restart

namespace System

variable (settings : Settings) (s : System)

/-- The relays seen within the retention period stay. -/
def pruneHistory (now : ℚ) : System :=
  let cutoff := now - settings.historyRetentionHours * 3600
  { s with
    rows := s.rows.filter fun r => cutoff ≤ r.lastSeen
    nodes := s.nodes.filter fun r => cutoff ≤ r.lastSeen }

/-- What the check sees and does. -/
def seen (via : Dict String ViaInfo) (name : String → String) (now : ℚ) : Check where
  present := via.keys
  alarms := alarms settings s.nodes via now
  healthy := ((checkNodes settings s.nodes via now name).entries.filter
    fun e => e.2.status = .healthy).map (·.1)

/-- `_run_check` up to the pruning. -/
def checkRelays (via : Dict String ViaInfo) (name : String → String) (now : ℚ) :
    System :=
  let nodes := checkNodes settings s.nodes via now name
  { s with
    nodes := nodes
    rows := persistToDb s.rows nodes
    log := s.seen settings via name now :: s.log }

/-- `_run_check` -/
def runCheck (paths : List PathEntry) (name : String → String) (now pruneNow : ℚ) :
    System :=
  let s := s.checkRelays settings (getCurrentViaMap paths) name now
  if 60 ≤ s.pruneCycleCount + 1 then
    { s.pruneHistory settings pruneNow with pruneCycleCount := 0 }
  else { s with pruneCycleCount := s.pruneCycleCount + 1 }

/-- `start` -/
def restart : System :=
  { s with nodes := loadFromDb s.rows, pruneCycleCount := 0 }

/-- The effect of an event. -/
def next : Event → System
  | .check paths name now pruneNow => s.runCheck settings paths name now pruneNow
  | .restart => s.restart

/-- The plugin with an empty database, and its checks and restarts. -/
def transition : Transition System Event := .ofNext (· = {}) fun s e => some (next settings s e)

end System

end ReticulumPi.Transport
