import ReticulumPi.Lib.Dict
import ReticulumPi.Lib.Prog
import Mathlib.Data.Rat.Floor

/-!
# The persistent limiter of radio resets

`PersistentResetLimiter` counts the attempts to reset a radio in a state file
that all its instances share, under a lock on a file beside it, and allows a
new attempt only if fewer than `maxAttempts` fall in the last
`windowSeconds`. What it cannot account for (an invalid state file, records
from the future, a failed write) puts it in *quarantine*: it refuses for one
whole window.

An operation is a program (`Prog`) on the state file and the limiter it is
called on. All that it does not decide is in a `World`: the readings of the
clocks, the identifiers drawn, and what goes wrong in taking the file lock,
in releasing it and in writing. Times are rational numbers.
-/

namespace ReticulumPi.Recovery

/-- The exceptions the limiter catches together: `ValueError` with its text, and `OSError`. -/
inductive Error
  | valueError (message : String)
  | osError
deriving DecidableEq

/-- One recorded attempt. -/
structure Record where
  id : String
  wallTime : ℚ
  monotonicTime : ℚ
  bootId : String
  method : String
deriving DecidableEq

/-- Why, and since when, the limiter refuses. -/
structure Quarantine where
  reason : String
  wallTime : ℚ
  monotonicTime : ℚ
  bootId : String
deriving DecidableEq

/-- The contents of a state file. The values of the metadata are their JSON texts. -/
structure Payload where
  schema : ℤ
  records : List Record
  totalAttempts : ℤ
  metadata : Dict String String
  quarantine : Option Quarantine

/-- The state file: `unreadable` stands for whatever cannot be read as a
    payload, too large a file included. -/
inductive StateFile
  | absent
  | unreadable
  | payload (p : Payload)

/-- The instance variables of a limiter that change. -/
structure Limiter where
  records : List Record := []
  metadata : Dict String String := .empty
  totalAttempts : ℤ := 0
  stateError : Option String := none
  blockedUntilMonotonic : ℚ := 0
  futureRecordsMayBeDiscarded : Bool := false
  quarantine : Option Quarantine := none

/-- What a limiter is constructed with. -/
structure Config where
  maxAttempts : ℕ
  windowSeconds : ℚ
  bootId : String
  maxAttempts_le : maxAttempts ≤ 256
  windowSeconds_pos : 0 < windowSeconds
  bootId_ne : bootId ≠ ""

/-- Everything the limiters do not decide, by the instant at which they ask.
    The identifiers are those of `uuid4`, which are not empty. -/
structure World where
  mono : ℕ → ℚ
  wall : ℕ → ℚ
  uuid : ℕ → String
  lockFault : ℕ → Fault
  unlockFault : ℕ → Fault
  saveFault : ℕ → Fault
  mono_monotone : Monotone mono
  uuid_ne : ∀ n, uuid n ≠ ""

/-- What an operation works on: the state file, the instant, and its limiter. -/
structure Session where
  file : StateFile
  tick : ℕ
  lim : Limiter

/-- The programs of the limiter. -/
abbrev LProg (α : Type) := Prog Session Error α

/-- The result of `reserve`. -/
structure ResetReservation where
  allowed : Bool
  reason : String
  reservationId : Option String := none
  recentAttempts : ℕ := 0
deriving DecidableEq

/-- The result of `status`. -/
structure Status where
  maxAttempts : ℕ
  windowSeconds : ℤ
  recentAttempts : ℕ
  totalAttempts : ℤ
  stateError : Option String
  clockUncertain : Bool
  blockedSeconds : ℤ
deriving DecidableEq

def schemaVersion : ℤ := 1
def maxRecords : ℕ := 256
def clockSkewTolerance : ℚ := 300
def quarantineReasons : List String := ["clock_uncertain", "invalid_state", "persistence_error"]

/-- Python's `xs[-n:]` for `0 < n`. -/
def lastN {α : Type} (n : ℕ) (xs : List α) : List α := xs.drop (xs.length - n)

/-- Python's `int` of a finite float. -/
def truncate (x : ℚ) : ℤ := if 0 ≤ x then ⌊x⌋ else ⌈x⌉

/-! ## What a state file must satisfy -/

def validateTimestamp (value : ℚ) (label : String) : Except String Unit :=
  if value < 0 then .error ("invalid " ++ label) else .ok ()

/-- The checks on a boot id, in records and in the quarantine. -/
def bootIdOk (bootId : String) : Bool := bootId ≠ "" ∧ bootId.length ≤ 128

def validateQuarantine (q : Quarantine) : Except String Unit := do
  if q.reason ∉ quarantineReasons then .error "invalid reset-state quarantine reason"
  else if ¬ bootIdOk q.bootId then .error "invalid reset-state quarantine boot id"
  else do
    validateTimestamp q.wallTime "quarantine wall_time"
    validateTimestamp q.monotonicTime "quarantine monotonic_time"

def validateRecord (r : Record) : Except String Unit := do
  if r.id = "" then .error "invalid reset record id"
  else if r.method = "" then .error "invalid reset record method"
  else if ¬ bootIdOk r.bootId then .error "invalid reset record boot id"
  else do
    validateTimestamp r.wallTime "reset record wall_time"
    validateTimestamp r.monotonicTime "reset record monotonic_time"

def validatePayload (p : Payload) : Except String Unit := do
  if p.schema ≠ schemaVersion then .error "unsupported reset-state schema"
  else if maxRecords < p.records.length then .error "invalid reset-state records"
  else if p.totalAttempts < p.records.length then .error "invalid reset-state total"
  else do
    p.quarantine.elim (.ok ()) validateQuarantine
    p.records.forM validateRecord

variable (w : World) (c : Config)

/-! ## Clocks, locks and writes -/

/-- The present instant; the next question is asked at the next one. -/
def nextTick : LProg ℕ := do
  let s ← get
  set { s with tick := s.tick + 1 }
  pure s.tick

def modifyLim (f : Limiter → Limiter) : LProg Unit := modify fun s => { s with lim := f s.lim }

def getLim : LProg Limiter := do
  let s ← get
  pure s.lim

def safeClock (clock : ℕ → ℚ) (label : String) : LProg ℚ := do
  let t ← nextTick
  if clock t < 0 then throw (.valueError (label ++ " clock returned an invalid value"))
  else pure (clock t)

def wallClock : LProg ℚ := safeClock w.wall "wall"

def monotonicClock : LProg ℚ := safeClock w.mono "monotonic"

/-- A step of the lock, which concerns no other state. -/
def lockStep (fault : ℕ → Fault) : LProg Unit := do
  let t ← nextTick
  Prog.perform (fault t) .osError id

/-- Run `x` under the lock on the state's lock file, which is released whether
    or not `x` raises. -/
def stateFileLock {α : Type} (x : LProg α) : LProg α := do
  lockStep w.lockFault
  Prog.tryFinally x (lockStep w.unlockFault)

/-- Replace the state file. A payload over the size limit is a write that
    raises before its effect. -/
def saveLocked : LProg Unit := do
  let lim ← getLim
  let t ← nextTick
  Prog.perform (w.saveFault t) .osError fun s =>
    { s with file := .payload {
        schema := schemaVersion
        records := lastN maxRecords lim.records
        totalAttempts := lim.totalAttempts
        metadata := lim.metadata
        quarantine := lim.quarantine } }

/-! ## Quarantine -/

def failClosedLocked (reason : String) : LProg Unit := do
  if reason ∉ quarantineReasons then
    throw (.valueError ("unsupported quarantine reason: " ++ reason))
  else do
    let wall ← wallClock w
    modifyLim fun l => { l with stateError := some reason }
    let now ← monotonicClock w
    let blockedUntil := now + c.windowSeconds
    modifyLim fun l =>
      if l.blockedUntilMonotonic ≤ blockedUntil then
        { l with
          blockedUntilMonotonic := blockedUntil
          quarantine := some ⟨reason, wall, now, c.bootId⟩ }
      else l

def clearQuarantine (l : Limiter) : Limiter :=
  { l with stateError := none, blockedUntilMonotonic := 0, quarantine := none }

def quarantineRemainingLocked (q : Quarantine) : LProg ℚ := do
  let nowWall ← wallClock w
  let nowMono ← monotonicClock w
  let age := if q.bootId = c.bootId then nowMono - q.monotonicTime else nowWall - q.wallTime
  if age < -clockSkewTolerance then pure c.windowSeconds
  else pure (max 0 (c.windowSeconds - max 0 age))

def applyQuarantineLocked (q : Quarantine) : LProg ℚ := do
  let remaining ← quarantineRemainingLocked w c q
  if remaining ≤ 0 then do
    modifyLim fun l =>
      if q.reason = "clock_uncertain" then { l with futureRecordsMayBeDiscarded := true } else l
    pure 0
  else do
    let nowMono ← monotonicClock w
    modifyLim fun l =>
      { l with
        quarantine := some q
        stateError := some q.reason
        blockedUntilMonotonic := nowMono + remaining }
    pure remaining

/-- What `_expire_quarantine_locked` does at the time `current`. -/
def expireQuarantine (current : ℚ) (l : Limiter) : Limiter :=
  if l.quarantine = none ∨ current < l.blockedUntilMonotonic then l
  else if l.stateError = some "clock_uncertain" then
    clearQuarantine { l with futureRecordsMayBeDiscarded := true }
  else clearQuarantine l

/-- `_expire_quarantine_locked`, with the time given or read from the clock. -/
def expireQuarantineLocked (nowMono : Option ℚ) : LProg Unit := do
  let current ← nowMono.elim (monotonicClock w) pure
  modifyLim (expireQuarantine current)

/-- The age of a record by the clock that tells it: across boots, the wall clock. -/
def recordAge (nowWall nowMono : ℚ) (r : Record) : ℚ :=
  if r.bootId = c.bootId then nowMono - r.monotonicTime else nowWall - r.wallTime

/-- Whether a record of this age counts: a record from the future is passed
    over where it may be discarded, or where it is not to be ignored. -/
def isRecent (ignoreClockUncertainty mayBeDiscarded : Bool) (age : ℚ) : Bool :=
  if age < -clockSkewTolerance ∧ (mayBeDiscarded ∨ ¬ ignoreClockUncertainty) then false
  else -clockSkewTolerance ≤ age ∧ age < c.windowSeconds

/-- The records inside the window; and whether one is from the future. -/
def recentLocked (ignoreClockUncertainty : Bool) : LProg (List Record × Bool) := do
  let nowWall ← wallClock w
  let nowMono ← monotonicClock w
  modifyLim (expireQuarantine nowMono)
  let l ← getLim
  let age := recordAge c nowWall nowMono
  let recent := l.records.filter fun r =>
    isRecent c ignoreClockUncertainty l.futureRecordsMayBeDiscarded (age r)
  let uncertain := l.records.any fun r =>
    age r < -clockSkewTolerance ∧ ¬ l.futureRecordsMayBeDiscarded
  pure (recent, uncertain)

/-! ## Loading -/

/-- `_reset_loaded_state_locked`: everything as in a new limiter. -/
def resetLoadedStateLocked : LProg Unit := modifyLim fun _ => {}

/-- Apply the quarantine held locally if more than `other` remains of it. -/
def preferLocalQuarantine (localQuarantine : Option Quarantine) (localRemaining other : ℚ) :
    LProg Bool := do
  match localQuarantine with
  | some q =>
    if other < localRemaining then do
      let _ ← applyQuarantineLocked w c q
      pure true
    else pure false
  | none => pure false

/-- Unless a quarantine already holds, start one if a record is from the future. -/
def detectRollback (dirty : Bool) : LProg Bool := do
  let l ← getLim
  if l.quarantine = none then do
    let (_, uncertain) ← recentLocked w c false
    if uncertain then do
      failClosedLocked w c "clock_uncertain"
      pure true
    else pure dirty
  else pure dirty

/-- What reloading does with a valid payload. -/
def adoptPayload (p : Payload) (localQuarantine : Option Quarantine) (localRemaining : ℚ)
    (localFutureDiscard : Bool) : LProg Bool := do
  modifyLim fun l =>
    { l with
      records := lastN maxRecords p.records
      totalAttempts := p.totalAttempts
      metadata := p.metadata }
  let diskRemaining ← p.quarantine.elim (pure 0) (applyQuarantineLocked w c)
  modifyLim fun l =>
    { l with
      futureRecordsMayBeDiscarded := l.futureRecordsMayBeDiscarded || localFutureDiscard }
  let dirty ← preferLocalQuarantine w c localQuarantine localRemaining diskRemaining
  detectRollback w c dirty

/-- What reloading does with a file it cannot read or does not accept. -/
def rejectState : LProg Bool := do
  resetLoadedStateLocked
  failClosedLocked w c "invalid_state"
  pure true

def reloadForTransactionLocked : LProg Bool := do
  let l ← getLim
  let localRemaining ← l.quarantine.elim (pure 0) (quarantineRemainingLocked w c)
  resetLoadedStateLocked
  let s ← get
  match s.file with
  | .absent => do
    let applied ← preferLocalQuarantine w c l.quarantine localRemaining 0
    if applied then pure true
    else do
      modifyLim fun l' =>
        { l' with futureRecordsMayBeDiscarded := l.futureRecordsMayBeDiscarded }
      pure false
  | .unreadable => rejectState w c
  | .payload p =>
    match validatePayload p with
    | .error _ => rejectState w c
    | .ok () => adoptPayload w c p l.quarantine localRemaining l.futureRecordsMayBeDiscarded

def persistQuarantineLocked : LProg Bool :=
  tryCatch (do saveLocked w; pure true) fun _ => do
    failClosedLocked w c "persistence_error"
    pure false

/-! ## The operations -/

/-- The constructor's `_load`, on a new limiter. -/
def load : LProg Unit := do
  resetLoadedStateLocked
  tryCatch
    (stateFileLock w do
      let dirty ← reloadForTransactionLocked w c
      if dirty then do
        let _ ← persistQuarantineLocked w c
        pure ()
      else pure ())
    fun _ => do
      resetLoadedStateLocked
      failClosedLocked w c "persistence_error"

/-- Set or remove the entry of a key. -/
def putMetadata (key : String) (value : Option String) (m : Dict String String) :
    Dict String String :=
  match value with
  | none => m.erase key
  | some v => m.set key v

/-- The part of `set_metadata` under the file lock. -/
def setMetadataLocked (key : String) (value : Option String) : LProg Bool := do
  let _ ← reloadForTransactionLocked w c
  expireQuarantineLocked w none
  let before ← getLim
  modifyLim fun l => { l with metadata := putMetadata key value l.metadata }
  tryCatch (do saveLocked w; pure true) fun _ => do
    modifyLim fun l => { l with metadata := before.metadata }
    failClosedLocked w c "persistence_error"
    pure false

/-- `set_metadata`, with the value as the JSON text that is stored. -/
def setMetadata (key : String) (value : Option String) : LProg Bool :=
  if key = "" ∨ 64 < key.length then
    throw (.valueError "metadata key must contain 1-64 characters")
  else if (value.any fun v => 8192 < v.utf8ByteSize) then
    throw (.valueError "metadata value is too large")
  else
    tryCatch (stateFileLock w (setMetadataLocked w c key value)) fun _ => do
      failClosedLocked w c "persistence_error"
      pure false

def recentAttempts : LProg ℕ := do
  let (recent, _) ← recentLocked w c false
  pure recent.length

/-- Refuse, having found `recent` attempts. -/
def refuse (reason : String) (recent : ℕ) : ResetReservation :=
  { allowed := false, reason := reason, recentAttempts := recent }

/-- The limiter with a new attempt recorded beside the recent ones, and no quarantine. -/
def withAttempt (e : Record) (recent : List Record) (l : Limiter) : Limiter :=
  clearQuarantine { l with
    records := lastN maxRecords (recent ++ [e])
    totalAttempts := l.totalAttempts + 1 }

/-- The part of `reserve` that records a new attempt beside the `recent` ones. -/
def recordAttempt (method : String) (recent : List Record) : LProg ResetReservation := do
  let wall ← wallClock w
  let mono ← monotonicClock w
  let t ← nextTick
  let reservationId := w.uuid t
  let previous ← getLim
  modifyLim (withAttempt ⟨reservationId, wall, mono, c.bootId, method⟩ recent)
  tryCatch
    (do
      saveLocked w
      pure ⟨true, "reserved", some reservationId, recent.length + 1⟩)
    fun _ => do
      modifyLim fun l =>
        { l with records := previous.records, totalAttempts := previous.totalAttempts }
      failClosedLocked w c "persistence_error"
      pure (refuse "persistence_error" recent.length)

/-- The part of `reserve` under the file lock. -/
def reserveLocked (method : String) : LProg ResetReservation := do
  let _ ← reloadForTransactionLocked w c
  let nowMono ← monotonicClock w
  expireQuarantineLocked w (some nowMono)
  let l ← getLim
  if nowMono < l.blockedUntilMonotonic then do
    let _ ← persistQuarantineLocked w c
    let (recent, _) ← recentLocked w c true
    let l ← getLim
    pure (refuse (l.stateError.getD "clock_uncertain") recent.length)
  else do
    let (recent, clockUncertain) ← recentLocked w c false
    if clockUncertain then do
      failClosedLocked w c "clock_uncertain"
      let _ ← persistQuarantineLocked w c
      pure (refuse "clock_uncertain" recent.length)
    else if 0 < c.maxAttempts ∧ c.maxAttempts ≤ recent.length then
      pure (refuse "rate_limited" recent.length)
    else recordAttempt w c method recent

def reserve (method : String) : LProg ResetReservation :=
  if method = "" ∨ 64 < method.length then
    throw (.valueError "method must contain 1-64 characters")
  else
    tryCatch (stateFileLock w (reserveLocked w c method)) fun _ => do
      failClosedLocked w c "persistence_error"
      pure (refuse "persistence_error" 0)

def status : LProg Status := do
  let (recent, uncertain) ← recentLocked w c true
  let nowMono ← monotonicClock w
  let l ← getLim
  pure {
    maxAttempts := c.maxAttempts
    windowSeconds := truncate c.windowSeconds
    recentAttempts := recent.length
    totalAttempts := l.totalAttempts
    stateError := l.stateError
    clockUncertain := uncertain || nowMono < l.blockedUntilMonotonic
    blockedSeconds := max 0 (truncate (l.blockedUntilMonotonic - nowMono)) }

end ReticulumPi.Recovery
