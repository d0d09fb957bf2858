import Mathlib.Data.Rat.Floor
import ReticulumPi.Lib.Dict
import ReticulumPi.Lib.Transition

/-!
# Weather alerts

The alert monitor decodes SAME headers from NOAA Weather Radio. Each header that
concerns the station becomes an alert in a bounded history; one alert at a time
is *active*. A new alert takes over unless it is less severe than the active one;
an active alert that is over is marked, reported, and followed by the most severe
one left in the history.

An alert is a shared record: it is identified by its number, which counts the
headers decoded before it, and the one field that is written later, `expired`, is
kept in the table `State.expired`. Every clock reading of the code is an input of
the operation; the clock does not go back.
-/

namespace ReticulumPi.Weather

/-! ## Headers -/

/-- The severities, with their `_SEVERITY_RANK`. -/
inductive Severity where
  | extreme
  | severe
  | moderate
  | minor
  | info
deriving DecidableEq

def Severity.rank : Severity → ℕ
  | .extreme => 0
  | .severe => 1
  | .moderate => 2
  | .minor => 3
  | .info => 4

/-- `_EVENT_CODES` -/
def eventCodes : List (String × String × Severity) :=
  [("TOR", "Tornado Warning", .extreme), ("SVR", "Severe Thunderstorm Warning", .severe),
    ("FFW", "Flash Flood Warning", .severe), ("SMW", "Special Marine Warning", .severe),
    ("EWW", "Extreme Wind Warning", .extreme), ("FRW", "Fire Warning", .severe),
    ("HUW", "Hurricane Warning", .extreme), ("TSW", "Tsunami Warning", .extreme),
    ("SVA", "Severe Thunderstorm Watch", .moderate), ("TOA", "Tornado Watch", .moderate),
    ("FFA", "Flash Flood Watch", .moderate), ("WSW", "Winter Storm Warning", .severe),
    ("BZW", "Blizzard Warning", .severe), ("WCH", "Wind Chill Warning", .severe),
    ("EHW", "Excessive Heat Warning", .severe), ("HWW", "High Wind Warning", .severe),
    ("RWT", "Required Weekly Test", .info), ("RMT", "Required Monthly Test", .info),
    ("ADR", "Administrative Message", .info), ("DMO", "Practice/Demo Warning", .info)]

/-- The description and the severity of an event code. -/
def describe (event : String) : String × Severity :=
  (eventCodes.lookup event).getD ("Unknown (" ++ event ++ ")", .info)

/-- The groups of a decoded header, `raw` being all of it. -/
structure Header where
  org : String
  event : String
  fips : String
  purge : List (Fin 10)
  issued : List (Fin 10)
  callsign : String
  raw : String
deriving DecidableEq

/-- `int` of a text of digits. -/
def int (digits : List (Fin 10)) : ℤ := digits.foldl (fun n d => 10 * n + d.val) 0

/-- `_parse_fips_codes` -/
def parseFipsCodes (raw : String) : List String :=
  ((raw.toList.splitOnP fun c => c = '+' ∨ c = '-').filter fun part =>
    part.length = 6 ∧ part.all Char.isDigit).map String.ofList

/-! ## Times

Seconds since the epoch: whole ones in the headers, clock readings otherwise. -/

/-- The days from 1 January of the year 1 to that of another year. -/
def daysBefore (year : ℤ) : ℤ :=
  365 * (year - 1) + (year - 1) / 4 - (year - 1) / 100 + (year - 1) / 400

/-- `time.gmtime(now).tm_year` -/
def gmtimeYear (now : ℚ) : ℤ :=
  let days := ⌊now⌋ / 86400 + daysBefore 1970
  -- A mean year is off by one at most.
  let year := 1 + days * 400 / 146097
  if days < daysBefore year then year - 1
  else if daysBefore (year + 1) ≤ days then year + 1
  else year

/-- `calendar.timegm` of the beginning of a year, if there is such a date. -/
def timegmJan1 (year : ℤ) : Option ℤ :=
  if 1 ≤ year ∧ year ≤ 9999 then some (86400 * (daysBefore year - daysBefore 1970)) else none

/-- `_parse_issued_ts` -/
def parseIssuedTs (now : ℚ) (issued : List (Fin 10)) : Option ℤ :=
  if issued.length ≠ 7 then none
  else do
    let jday := int (issued.take 3)
    let hour := int ((issued.drop 3).take 2)
    let minute := int ((issued.drop 5).take 2)
    let year := gmtimeYear now
    let ts := (← timegmJan1 year) + (jday - 1) * 86400 + hour * 3600 + minute * 60
    if ts > now + 86400 then
      return (← timegmJan1 (year - 1)) + (jday - 1) * 86400 + hour * 3600 + minute * 60
    return ts

/-- `_compute_purge_ts` -/
def computePurgeTs (issuedTs : Option ℤ) (purge : List (Fin 10)) : Option ℤ := do
  let issued ← issuedTs
  if purge.length ≠ 4 then none
  else some (issued + int (purge.take 2) * 3600 + int ((purge.drop 2).take 2) * 60)

/-- A time that Python takes for true: there is one, and it is not the epoch. -/
def truthy : Option ℤ → Bool
  | none => false
  | some ts => ts ≠ 0

/-! ## Alerts -/

/-- An alert, but for its mark of being expired. -/
structure Alert where
  number : ℕ
  event : String
  description : String
  originator : String
  severity : Severity
  fipsCodes : List String
  issuedTs : Option ℤ
  purgeTs : Option ℤ
  duration : Option ℤ
  callsign : String
  rawHeader : String
  receivedAt : ℚ
  decodeConfidence : ℚ
  retransmission : Bool
deriving DecidableEq

/-- `purge and now > purge` -/
def Alert.IsOver (a : Alert) (now : ℚ) : Prop :=
  ∃ purge ∈ a.purgeTs, truthy a.purgeTs ∧ now > purge

instance (a : Alert) (now : ℚ) : Decidable (a.IsOver now) :=
  match h : a.purgeTs with
  | none => isFalse (by simp [Alert.IsOver, h])
  | some purge => decidable_of_iff (truthy (some purge) ∧ now > purge) (by simp [Alert.IsOver, h])

/-- What is published on the event bus. -/
inductive Event where
  | received (a : Alert)
  | severe (a : Alert)
  | triggered (a : Alert)
  | expired (a : Alert)
deriving DecidableEq

structure Settings where
  /-- There is no filter when it is empty. -/
  fipsFilter : List String := []
  maxHistory : ℕ := 50
  forwardToAlertSystem : Bool := true

structure State where
  /-- Newest first. -/
  history : List Alert := []
  active : Option Alert := none
  /-- The numbers of the alerts that are marked as expired. -/
  expired : List ℕ := []
  seenHeaders : Dict String ℚ := ∅
  retransmissions : ℕ := 0
  headersDecoded : ℕ := 0
  lastHeaderAt : Option ℚ := none
  alertsByType : Dict String ℕ := ∅
  published : List Event := []
  /-- The time of the last expiry check. -/
  checked : ℚ
  /-- The last clock reading. -/
  clock : ℚ

/-- The readings of the clock in an operation: those for the year of the header,
    for its arrival and for the statistics, and those of the check and of the
    search for the next active alert, with which the operation ends. -/
structure Readings where
  parse : ℚ
  arrival : ℚ
  count : ℚ
  check : ℚ
  promote : ℚ

variable (settings : Settings)

/-- The header concerns the station. -/
def Header.Concerns (h : Header) : Prop :=
  settings.fipsFilter = [] ∨ ∃ code ∈ parseFipsCodes h.fips, code ∈ settings.fipsFilter
deriving Decidable

variable (s : State)

/-- The header came less than two minutes ago. -/
def State.Retransmitted (h : Header) (now : ℚ) : Prop :=
  ∃ prev ∈ s.seenHeaders.get? h.raw, now - prev < 120

instance (h : Header) (now : ℚ) : Decidable (s.Retransmitted h now) :=
  match hp : s.seenHeaders.get? h.raw with
  | none => isFalse (by simp [State.Retransmitted, hp])
  | some prev => decidable_of_iff (now - prev < 120) (by simp [State.Retransmitted, hp])

/-- The alert of a header. -/
def alertOf (h : Header) (t : Readings) : Alert :=
  let issuedTs := parseIssuedTs t.parse h.issued
  let purgeTs := computePurgeTs issuedTs h.purge
  let missing := [truthy issuedTs, truthy purgeTs, h.callsign ≠ ""].countP (· = false)
  { number := s.headersDecoded
    event := h.event
    description := (describe h.event).1
    originator := h.org
    severity := (describe h.event).2
    fipsCodes := parseFipsCodes h.fips
    issuedTs
    purgeTs
    duration := if truthy issuedTs ∧ truthy purgeTs then
      purgeTs.bind fun purge => issuedTs.map (purge - ·) else none
    callsign := h.callsign
    rawHeader := h.raw
    receivedAt := t.arrival
    decodeConfidence := max 0 (1 - missing / 5)
    retransmission := decide (s.Retransmitted h t.arrival) }

/-- The header is noted, and old ones are forgotten when there are many. -/
def noteHeader (seen : Dict String ℚ) (raw : String) (now : ℚ) : Dict String ℚ :=
  let seen := seen.set raw now
  if 500 < seen.entries.length then seen.filter (now - 300 < ·) else seen

/-- The alert takes over from the active one. -/
def State.TakenOver (a : Alert) : Prop :=
  ∀ b ∈ s.active, a.severity.rank ≤ b.severity.rank

instance (a : Alert) : Decidable (s.TakenOver a) :=
  match h : s.active with
  | none => isTrue (by simp [State.TakenOver, h])
  | some b => decidable_of_iff (a.severity.rank ≤ b.severity.rank) (by simp [State.TakenOver, h])

/-- The first part of `_handle_same_header`: the alert enters the history, and may
    become the active one. -/
def receive (h : Header) (t : Readings) : State :=
  let alert := alertOf s h t
  { s with
    history := (alert :: s.history).take settings.maxHistory
    active := if s.TakenOver alert then some alert else s.active
    seenHeaders := noteHeader s.seenHeaders h.raw t.arrival
    retransmissions := s.retransmissions + if s.Retransmitted h t.arrival then 1 else 0
    headersDecoded := s.headersDecoded + 1
    lastHeaderAt := some t.count
    alertsByType := s.alertsByType.set h.event ((s.alertsByType.get? h.event).getD 0 + 1) }

/-- The search for the next active alert: the best one so far, its rank, and the
    alerts that are marked. -/
abbrev Search := Option Alert × ℕ × List ℕ

/-- One alert of the history is looked at. -/
def look (now : ℚ) (found : Search) (a : Alert) : Search :=
  if a.number ∈ found.2.2 then found
  else if a.IsOver now then (found.1, found.2.1, found.2.2 ++ [a.number])
  else if a.severity.rank < found.2.1 then (some a, a.severity.rank, found.2.2)
  else found

/-- `_promote_next_active` -/
def promoteNextActive (now : ℚ) : State :=
  let found := s.history.foldl (look now) (none, 999, s.expired)
  { s with active := found.1, expired := found.2.2 }

/-- `_check_expired`, which reads the clock again when it looks for the next
    active alert. -/
def checkExpired (now promote : ℚ) : State :=
  let s := { s with
    seenHeaders := s.seenHeaders.filter (now - 300 < ·), checked := now, clock := promote }
  match s.active with
  | none => s
  | some a =>
    if a.IsOver now then
      promoteNextActive { s with
        expired := s.expired ++ [a.number]
        published := s.published ++ [.expired a]
        active := none } promote
    else s

/-- What is published about an alert when it is received. -/
def announcements (a : Alert) : List Event :=
  [.received a] ++
    if a.severity = .extreme ∨ a.severity = .severe then
      [.severe a] ++ if settings.forwardToAlertSystem then [.triggered a] else []
    else []

/-- `_handle_same_header` -/
def handleSameHeader (h : Header) (t : Readings) : State :=
  if h.Concerns settings then
    let s' := checkExpired (receive settings s h t) t.check t.promote
    { s' with published := s'.published ++ announcements settings (alertOf s h t) }
  else s

/-! ## The system -/

/-- The operations, with their clock readings. -/
inductive Op where
  | header (h : Header) (t : Readings)
  | check (now promote : ℚ)

/-- The clock does not go back in the operation. -/
def Op.Ordered : Op → Prop
  | .header _ t => List.IsChain (· ≤ ·) [s.clock, t.parse, t.arrival, t.count, t.check, t.promote]
  | .check now promote => List.IsChain (· ≤ ·) [s.clock, now, promote]

instance (op : Op) : Decidable (op.Ordered s) :=
  match op with
  | .header _ _ => inferInstanceAs (Decidable (List.IsChain _ _))
  | .check _ _ => inferInstanceAs (Decidable (List.IsChain _ _))

def apply : Op → State
  | .header h t => handleSameHeader settings s h t
  | .check now promote => checkExpired s now promote

def next (op : Op) : Option State :=
  if op.Ordered s then some (apply settings s op) else none

/-- The monitor, started at any time. -/
abbrev monitor : Transition State Op :=
  .ofNext (fun s => ∃ start, s = { checked := start, clock := start }) (next settings)

end ReticulumPi.Weather
