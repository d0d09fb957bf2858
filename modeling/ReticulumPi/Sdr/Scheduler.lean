import ReticulumPi.Lib.Transition
import ReticulumPi.Sdr.Dongle

/-!
# The SDR time-sharing scheduler

The scheduler's tables, its operations, and the single scheduler thread that
hands the dongles out. An operation that gives up the scheduler's condition in
the middle is cut there: what it has yet to do is kept as data (`CallPc` for a
call, `ThreadPc` for the thread), and any other operation may run before it
continues. What `claim_device` answers and whether a callback raises are inputs
of the step that learns them.
-/

namespace ReticulumPi.Sdr

/-- `_SDR_PROBE_RETRY_INTERVAL` -/
def sdrProbeRetryInterval : ℚ := 10

/-- A dongle state object: the storage key it was found under, and which object. -/
structure Ref where
  key : String
  oid : ℕ
deriving DecidableEq

/-- One device resolution derived from one enumeration snapshot. -/
structure ResolvedDevice where
  index : ℕ
  canonicalId : String
deriving DecidableEq

/-- How `claim_device` ends: a lease, `DeviceBusyError` with the resolution it
    keeps, or another `RuntimeError`. -/
inductive ClaimOutcome where
  | granted (resolved : ResolvedDevice)
  | busy (resolved : ResolvedDevice)
  | failed
deriving DecidableEq

/-- The device that the attempt to claim it identified. -/
def ClaimOutcome.resolved : ClaimOutcome → Option ResolvedDevice
  | granted r => some r
  | busy r => some r
  | failed => none

/-- Central dongle time-sharing coordinator. `nextOid`, `nextLease` and
    `released` are not fields of the source: they number the dongle state
    objects and the leases, and record the leases released so far. -/
structure Scheduler where
  dongles : Dict String Dongle := ∅
  canonicalDongles : Dict String String := ∅
  registrations : Dict (String × String) String := ∅
  managedAliases : Dict String String := ∅
  running : Bool := true
  nextRegistrationId : ℕ := 0
  weatherOverrideLock : Bool := true
  nextOid : ℕ := 0
  nextLease : ℕ := 0
  released : List ℕ := []

/-- An entry of the option `managed_dongles`. -/
structure ManagedDongle where
  serial : String
  backgroundSliceSeconds : ℚ := 120

/-- What `register` is called with. `resolved` is what resolving the configured
    name gives, or the name made up for it when no device is found. -/
structure RegisterArgs where
  serial : String
  caller : String
  priority : Priority
  windows : List TimeWindow := []
  continuous : Bool := false
  deviceSelector : DeviceSelector := .auto
  resolved : String

/-- A registration that was not refused. -/
structure Registration extends RegisterArgs where
  critical_continuous : priority = .critical → continuous = true

/-- A `register` that waits for the yield on the dongle the caller moves from. -/
structure Move where
  registration : Registration
  canonicalId : String
  storageKey : String
  previous : Ref

/-- Where a call stands that has given up the condition, and the lease it is
    about to release. -/
inductive CallPc where
  | registering (move : Move) (lease : Option Lease)
  | unregistering (serial caller : String) (ref : Ref) (lease : Option Lease)
  | stopping (start todo : List String) (lease : Option Lease)
  | releasing (lease : Lease)

/-- How a call, or a part of it, ends. -/
inductive Progress where
  | returned
  | raised
  | waits (pc : CallPc)

/-- A preflight of `_preflight_winner_identity_locked` that is resolving. -/
structure Preflight where
  ref : Ref
  caller : String
  current : String
  serial : String
  storageKey : String
  signature : PreflightSignature
deriving DecidableEq

/-- An acquisition of `_do_acquire` under way. -/
structure Acquisition where
  ref : Ref
  caller : String
  serial : String
  priority : Priority
  registrationId : ℕ
  generation : ℕ
deriving DecidableEq

/-- What the thread does once the holder has yielded. -/
inductive AfterYield where
  | acquire (caller : String)
  | pickBackground
deriving DecidableEq

/-- Where the scheduler thread stands: it waits for a turn, for `claim_device`,
    for a callback, or for a lease it releases. -/
inductive ThreadPc where
  | idle
  | preflight (p : Preflight)
  | yielding (ref : Ref) (lease : Option Lease) (next : AfterYield)
  | claiming (a : Acquisition)
  | dropping (lease : Lease)
  | granting (a : Acquisition) (lease : Lease)
  | discarding (lease : Lease)
  | publishing
deriving DecidableEq

namespace Dongle

variable (d : Dongle)

/-- The change of state with which `_do_yield` takes the dongle from `caller`. -/
def yieldSlot (caller preemptedBy : String) : Dongle :=
  { d.modifySlot caller fun slot =>
      { slot with isActive := false, allocationGeneration := 0, deviceLease := none } with
    currentHolder := none
    generation := d.generation + 1
    lockedBy := if d.lockedBy = some caller ∧ preemptedBy ≠ "" then none else d.lockedBy
    relockAfter :=
      if d.lockedBy = some caller ∧ preemptedBy ≠ "" then some caller
      else if d.relockAfter = some caller then none
      else d.relockAfter }

variable (caller : String)

/-- The change of state with which `_release_slot` takes the slot's lease. -/
def releaseSlot (suspend : Bool) : Dongle :=
  let d' : Dongle :=
    { d.modifySlot caller fun slot =>
        { slot with
          isActive := false
          suspended := slot.suspended || suspend
          releaseRequested := true
          deviceLease := none
          allocationGeneration := 0 } with
      generation := if (d.slots.get? caller).isSome then d.generation + 1 else d.generation }
  let d'' : Dongle :=
    if d'.currentHolder = some caller then { d' with currentHolder := none }.advanceBgIndex else d'
  { d'' with
    lockedBy := if d''.lockedBy = some caller then none else d''.lockedBy
    relockAfter := if d''.relockAfter = some caller then none else d''.relockAfter }

/-- The change of state with which `resume` makes a slot eligible again. -/
def resumeSlot : Dongle :=
  { d.modifySlot caller fun slot =>
      { slot with suspended := false, releaseRequested := false } with
    generation := d.generation + 1 }

/-- The change of state with which a slot leaves the dongle. -/
def removeSlot (generation : ℕ) : Dongle :=
  { d.dropSlot caller with
    lockedBy := if d.lockedBy = some caller then none else d.lockedBy
    generation := generation }

/-- The change of state with which a slot comes to the dongle. -/
def addSlot (slot : SignalSlot) : Dongle :=
  { d.placeSlot caller slot with generation := d.generation + 1 }

/-- The change of state with which an idle slot is moved off the dongle. -/
def moveSlotOff : Dongle :=
  { d.dropSlot caller with
    relockAfter := if d.relockAfter = some caller then none else d.relockAfter
    generation := d.generation + 1 }

/-- The change of state with which `_do_acquire` starts an allocation. -/
def allocateSlot : Dongle :=
  { d.modifySlot caller fun slot =>
      { slot with
        acquireRetrySignature := none
        releaseRequested := false
        allocationGeneration := d.generation + 1 } with
    generation := d.generation + 1 }

/-- The change of state with which `_do_acquire` grants the dongle. -/
def grantSlot (a : Acquisition) (lease : Lease) (now : Clock) : Dongle :=
  let d' : Dongle :=
    { d.modifySlot a.caller fun slot => { slot with isActive := true, deviceLease := some lease } with
      currentHolder := some a.caller }
  let d'' : Dongle :=
    if a.priority = .background then
      { d' with
        bgLastRotation := now.mono
        bgIndex := if a.caller ∈ d'.bgOrder then d'.bgOrder.idxOf a.caller else d'.bgIndex }
    else d'
  if d''.relockAfter = some a.caller then
    { d'' with lockedBy := some a.caller, relockAfter := none }
  else d''

/-- `_defer_acquire_retry` -/
def deferAcquireRetry (a : Acquisition) (now : Clock) : Dongle :=
  d.modifySlot a.caller fun slot =>
    if slot.registrationId = a.registrationId then
      { slot with
        acquireRetryAt := now.mono
        acquireRetrySignature := some ⟨d.generation, slot.registrationId, slot.canonicalId⟩ }
    else slot

end Dongle

namespace Scheduler

/-! ## Looking objects up -/

variable (s : Scheduler) (ref : Ref)

/-- The state object `ref`, if it is still in the table. One that is not has no
    slots and no holder, and nothing reads what is written to it. -/
def dongle? : Option Dongle :=
  (s.dongles.get? ref.key).filter (·.oid = ref.oid)

/-- The state object under a storage key. -/
def ref? (key : String) : Option Ref :=
  (s.dongles.get? key).map fun d => ⟨key, d.oid⟩

/-- `dongle.slots.get(caller)` -/
def slot? (caller : String) : Option SignalSlot :=
  (s.dongle? ref).bind (·.slots.get? caller)

/-- The slot object with the given registration, if the caller still has that one. -/
def slotIs? (caller : String) (registrationId : ℕ) :
    Option SignalSlot :=
  (s.slot? ref caller).filter (·.registrationId = registrationId)

/-- A change of a dongle state object. -/
def modifyDongle (f : Dongle → Dongle) : Scheduler :=
  match s.dongle? ref with
  | some d => { s with dongles := s.dongles.set ref.key (f d) }
  | none => s

/-- A change of one slot object. -/
def modifySlot (s : Scheduler) (ref : Ref) (caller : String) (registrationId : ℕ)
    (f : SignalSlot → SignalSlot) : Scheduler :=
  s.modifyDongle ref fun d => d.modifySlot caller fun slot =>
    if slot.registrationId = registrationId then f slot else slot

variable (serial caller : String)

/-- The registration of `(serial, caller)` leads to the state object `ref`. -/
def routedTo (ref : Ref) : Bool :=
  (s.registrations.get? (serial, caller)).any fun key =>
    (s.dongles.get? key).any (·.oid = ref.oid)

/-- `lease.release()`, when there is a lease. -/
def releaseLease : Option Lease → Scheduler
  | some lease => { s with released := lease.id :: s.released }
  | none => s

/-- What `claim_device` returns. -/
def claimDevice : ClaimOutcome → Scheduler × Option Lease
  | .granted r =>
    ({ s with nextLease := s.nextLease + 1 }, some ⟨s.nextLease, r.index, r.canonicalId⟩)
  | _ => (s, none)

/-! ## Storage keys -/

/-- One managed dongle of `_init_dongles`. -/
def addManaged (d : ManagedDongle) : Scheduler :=
  if d.serial = "" then s
  else
    { s with
      dongles := s.dongles.set d.serial
        { oid := s.nextOid
          serial := d.serial
          canonicalId := "serial:" ++ d.serial
          bgSliceSeconds := d.backgroundSliceSeconds }
      canonicalDongles := s.canonicalDongles.set ("serial:" ++ d.serial) d.serial
      managedAliases := s.managedAliases.set d.serial ("serial:" ++ d.serial)
      nextOid := s.nextOid + 1 }

/-- A new scheduler, started. -/
def new (managed : List ManagedDongle) (weatherOverrideLock : Bool) : Scheduler :=
  managed.foldl addManaged { weatherOverrideLock := weatherOverrideLock }

/-- `_registration_canonical_id` -/
def registrationCanonicalId (configured : String) (selector : DeviceSelector)
    (resolved : String) : String :=
  if selector = .auto then (s.managedAliases.get? configured).getD resolved else resolved

/-- The names tried for a new storage key: the canonical id, then with `#2`, `#3`, … -/
def storageName (canonicalId : String) : ℕ → String
  | 0 => canonicalId
  | n + 1 => canonicalId ++ "#" ++ toString (n + 2)

/-- The storage key for a canonical id that has none yet. -/
def newStorageKey (configured canonicalId : String) : String :=
  match s.dongles.get? configured with
  | some existing =>
    if existing.canonicalId ≠ canonicalId then
      s.dongles.freeKey (storageName canonicalId) s.dongles.keys.length 0
    else configured
  | none => configured

/-- `_ensure_dongle_locked` -/
def ensureDongle (configured canonicalId : String) : Scheduler × String :=
  match s.canonicalDongles.get? canonicalId with
  | some storageKey => (s, storageKey)
  | none =>
    let storageKey := s.newStorageKey configured canonicalId
    ({ s with
        dongles := s.dongles.set storageKey
          { oid := s.nextOid, serial := configured, canonicalId := canonicalId }
        canonicalDongles := s.canonicalDongles.set canonicalId storageKey
        nextOid := s.nextOid + 1 },
      storageKey)

/-- `_registration_dongle_locked` -/
def registrationDongle (configured caller : String) : Option Ref :=
  match s.registrations.get? (configured, caller) with
  | some storageKey => s.ref? storageKey
  | none => s.ref? configured

/-- `_prune_empty_provisional_locked` -/
def pruneEmptyProvisional : Scheduler :=
  match s.dongle? ref with
  | none => s
  | some d =>
    if d.slots.entries.isEmpty = false ∨ d.bgOrder ≠ [] ∨ d.currentHolder ≠ none ∨
        d.lockedBy ≠ none ∨ d.relockAfter ≠ none ∨ d.canonicalId ∈ s.managedAliases.values ∨
        ref.key ∈ s.registrations.values then s
    else
      { s with
        dongles := s.dongles.erase ref.key
        canonicalDongles :=
          if s.canonicalDongles.get? d.canonicalId = some ref.key then
            s.canonicalDongles.erase d.canonicalId
          else s.canonicalDongles }

/-- The move of an idle slot from one dongle to another. -/
def moveSlot (source target : Ref) (caller : String) (slot : SignalSlot)
    (canonicalId : String) : Scheduler :=
  let s := s.modifyDongle source (·.moveSlotOff caller)
  let s := s.modifyDongle target
    (·.addSlot caller { slot with canonicalId := canonicalId, allocationGeneration := 0 })
  { s with registrations := s.registrations.set (slot.serial, caller) target.key }

/-- How `_reconcile_idle_slot_locked` ends: a slot that moved is on another
    dongle; a `KeyError` is raised when the canonical id names no dongle. -/
inductive Reconciled where
  | stays
  | moved (target : Ref)
  | raised
deriving DecidableEq

/-- `_reconcile_idle_slot_locked` -/
def reconcileIdleSlot (source : Ref) (caller : String) (registrationId : ℕ)
    (canonicalId : String) : Scheduler × Reconciled :=
  match s.dongle? source, s.slotIs? source caller registrationId with
  | some d, some slot =>
    if s.routedTo slot.serial caller source = false ∨ slot.isActive = true ∨
        slot.deviceLease ≠ none ∨ d.currentHolder = some caller ∨ d.lockedBy = some caller then
      (s, .stays)
    else if d.canonicalId = canonicalId then
      (s.modifySlot source caller registrationId fun slot =>
        { slot with canonicalId := canonicalId, allocationGeneration := 0 }, .stays)
    else
      let (s, targetKey) := s.ensureDongle slot.serial canonicalId
      match s.dongles.get? targetKey with
      | none => (s, .raised)
      | some target =>
        if target.oid = source.oid ∨ caller ∈ target.slots.keys then (s, .stays)
        else
          let s := s.moveSlot source ⟨targetKey, target.oid⟩ caller slot canonicalId
          (s.pruneEmptyProvisional source, .moved ⟨targetKey, target.oid⟩)
  | _, _ => (s, .stays)

/-! ## Handing a dongle back -/

/-- The part of `_do_yield` before it gives up the condition; the lease is what
    it goes on to release. A caller without a slot only loses the title of holder. -/
def doYield (caller preemptedBy : String) :
    Scheduler × Option (Option Lease) :=
  match s.slot? ref caller with
  | none => (s.modifyDongle ref ({ · with currentHolder := none }), none)
  | some slot => (s.modifyDongle ref (·.yieldSlot caller preemptedBy), some slot.deviceLease)

/-! ## Registration -/

/-- The dongle a caller moves from when it registers the same name again. -/
def movedFrom (serial caller storageKey : String) : Option Ref :=
  match s.registrations.get? (serial, caller) with
  | some previousKey => if previousKey ≠ storageKey then s.ref? previousKey else none
  | none => none

/-- The caller's slot on a dongle is active. -/
def activeAt (caller : String) : Bool :=
  (s.slot? ref caller).any (·.isActive)

/-- The slot is taken off the dongle the caller moves from. -/
def dropPrevious (previous : Ref) (caller : String) : Scheduler :=
  s.modifyDongle previous fun d => d.removeSlot caller (d.generation + 1)

variable (r : Registration)

/-- The slot of a new registration. -/
def newSlot (canonicalId : String) (registrationId : ℕ) : SignalSlot where
  serial := r.serial
  priority := r.priority
  deviceSelector := r.deviceSelector
  canonicalId := canonicalId
  continuous := r.continuous
  windows := r.windows
  registrationId := registrationId
  critical_continuous := r.critical_continuous

/-- A registration gets its route and its number. -/
def countRegistration (storageKey : String) : Scheduler :=
  { s with
    registrations := s.registrations.set (r.serial, r.caller) storageKey
    nextRegistrationId := s.nextRegistrationId + 1 }

/-- The new slot is stored on the dongle under `storageKey`. -/
def storeSlot (canonicalId storageKey : String) :
    Scheduler × Progress :=
  match s.ref? storageKey with
  | none => (s, .raised)
  | some ref =>
    ((s.countRegistration r storageKey).modifyDongle ref
      (·.addSlot r.caller (newSlot r canonicalId (s.nextRegistrationId + 1))), .returned)

/-- What is left of `register` once the dongle the caller moves from has been handed back. -/
def finishMove (m : Move) : Scheduler × Progress :=
  (s.dropPrevious m.previous m.registration.caller).storeSlot m.registration m.canonicalId
    m.storageKey

/-- `register` once the dongle it registers for is known. -/
def registerAt (canonicalId storageKey : String) :
    Scheduler × Progress :=
  match s.movedFrom r.serial r.caller storageKey with
  | none => s.storeSlot r canonicalId storageKey
  | some previous =>
    let m : Move := ⟨r, canonicalId, storageKey, previous⟩
    if s.activeAt previous r.caller then
      match s.doYield previous r.caller "" with
      | (s, some lease) => (s, .waits (.registering m lease))
      | (s, none) => s.finishMove m
    else s.finishMove m

/-- `register`, for a registration that is not refused. -/
def registerSlot : Scheduler × Progress :=
  let canonicalId := s.registrationCanonicalId r.serial r.deviceSelector r.resolved
  let (s, storageKey) := s.ensureDongle r.serial canonicalId
  s.registerAt r canonicalId storageKey

/-- `register` -/
def register (a : RegisterArgs) : Scheduler × Progress :=
  if h : a.priority = .critical → a.continuous = true then s.registerSlot ⟨a, h⟩
  else (s, .raised)

/-- What is left of `unregister` once the slot's dongle has been handed back. -/
def finishUnregister (hadSlot : Bool) :
    Scheduler × Progress :=
  let s := s.modifyDongle ref fun d =>
    d.removeSlot caller (if hadSlot then d.generation + 1 else d.generation)
  ({ s with registrations := s.registrations.erase (serial, caller) }, .returned)

/-- `unregister` -/
def unregister : Scheduler × Progress :=
  match s.registrationDongle serial caller with
  | none => (s, .returned)
  | some ref =>
    if s.activeAt ref caller then
      match s.doYield ref caller "" with
      | (s, some lease) => (s, .waits (.unregistering serial caller ref lease))
      | (s, none) => s.finishUnregister ref serial caller true
    else s.finishUnregister ref serial caller (s.slot? ref caller).isSome

/-! ## Windows, locks, release -/

/-- `add_window`: the windows stay sorted by their start. -/
def addWindow (w : TimeWindow) : Scheduler :=
  match s.registrationDongle serial caller with
  | none => s
  | some ref => s.modifyDongle ref fun d => d.modifySlot caller fun slot =>
      { slot with
        windows := (slot.windows ++ [w]).insertionSort fun v w => v.startTs ≤ w.startTs }

/-- `remove_windows` -/
def removeWindows : Scheduler :=
  match s.registrationDongle serial caller with
  | none => s
  | some ref => s.modifyDongle ref fun d => d.modifySlot caller ({ · with windows := [] })

/-- `lock` -/
def lock : Scheduler × Bool :=
  match s.registrationDongle serial caller with
  | none => (s, false)
  | some ref =>
    if (s.dongle? ref).any (·.currentHolder = some caller) then
      (s.modifyDongle ref ({ · with lockedBy := some caller }), true)
    else (s, false)

/-- `unlock` -/
def unlock : Scheduler :=
  match s.registrationDongle serial caller with
  | none => s
  | some ref => s.modifyDongle ref fun d =>
      { d with lockedBy := if d.lockedBy = some caller then none else d.lockedBy }

/-- `_release_slot` up to the release of the lease, which comes with the lease
    to release and the registration of the slot. -/
def releaseSlot (s : Scheduler) (serial caller : String) (suspend : Bool)
    (generation : Option ℕ) : Scheduler × Option Lease × Option ℕ :=
  match s.registrationDongle serial caller with
  | none => (s, none, none)
  | some ref =>
    let slot := s.slot? ref caller
    if generation.any (fun g => !slot.any (·.allocationGeneration = g)) then (s, none, none)
    else
      (s.modifyDongle ref (·.releaseSlot caller suspend), slot.bind (·.deviceLease),
        slot.map (·.registrationId))

/-- `resume` -/
def resume (registrationId : ℕ) : Scheduler × Bool :=
  match s.registrationDongle serial caller with
  | none => (s, false)
  | some ref =>
    if s.running = true ∧
        (s.slot? ref caller).any (fun slot => slot.registrationId = registrationId &&
          slot.suspended) then
      (s.modifyDongle ref (·.resumeSlot caller), true)
    else (s, false)

/-- The loop of `stop` over the dongles that are left, the table having had the
    keys `start` when it began. -/
def stopFrom (s : Scheduler) (start : List String) : List String → Scheduler × Progress
  | [] => (s, .returned)
  | key :: todo =>
    match s.dongles.get? key with
    | none => s.stopFrom start todo
    | some d =>
      match d.currentHolder with
      | none => s.stopFrom start todo
      | some holder =>
        if holder = "" then s.stopFrom start todo
        else
          match s.doYield ⟨key, d.oid⟩ holder "" with
          | (s, some lease) => (s, .waits (.stopping start todo lease))
          | (s, none) => s.stopFrom start todo

/-- `stop`, without the wait for the thread. -/
def stop : Scheduler × Progress :=
  { s with running := false }.stopFrom s.dongles.keys s.dongles.keys

/-- The iteration of `stop` goes on: it raises when the size of the table has
    changed. With other keys but the same size, Python leaves open which
    dongles are still visited, and `visit` lists them. -/
def finishStopping (start todo visit : List String) : Scheduler × Progress :=
  if s.dongles.keys.length ≠ start.length then (s, .raised)
  else s.stopFrom start (if s.dongles.keys = start then todo else visit)

/-! ## The scheduler thread -/

/-- `_do_acquire` up to `claim_device` -/
def doAcquire (caller : String) (now : Clock) :
    Scheduler × ThreadPc :=
  match s.dongle? ref, s.slot? ref caller with
  | some d, some slot =>
    if slot.suspended then (s, .idle)
    else if slot.acquireRetrySignature =
          some ⟨d.generation, slot.registrationId, slot.canonicalId⟩ ∧
        now.mono - slot.acquireRetryAt < sdrProbeRetryInterval then (s, .idle)
    else
      (s.modifyDongle ref (·.allocateSlot caller),
        .claiming ⟨ref, caller, slot.serial, slot.priority, slot.registrationId,
          d.generation + 1⟩)
  | _, _ => (s, .idle)

variable (a : Acquisition)

/-- The allocation is given up, if it is still this acquisition's. -/
def resetAllocation : Scheduler :=
  s.modifySlot ref a.caller a.registrationId fun slot =>
    { slot with
      allocationGeneration :=
        if slot.allocationGeneration = a.generation then 0 else slot.allocationGeneration }

/-- The claim was made for this registration of this dongle, and for no later acquisition. -/
def acquireCurrent : Bool :=
  s.routedTo a.serial a.caller a.ref &&
    (s.slotIs? a.ref a.caller a.registrationId).any (·.allocationGeneration = a.generation)

/-- `_do_acquire` found the receiver to be another one than was registered. -/
def acquireMismatch (lease : Option Lease)
    (canonicalId : String) (now : Clock) : Scheduler × ThreadPc :=
  match s.reconcileIdleSlot a.ref a.caller a.registrationId canonicalId with
  | (s, .raised) => (s, .idle)
  | (s, .moved target) =>
    let s := s.modifySlot target a.caller a.registrationId
      ({ · with acquireRetrySignature := none })
    ((s.resetAllocation target a).releaseLease lease, .idle)
  | (s, .stays) =>
    let s := s.modifyDongle a.ref (·.deferAcquireRetry a now)
    ((s.resetAllocation a.ref a).releaseLease lease, .idle)

/-- `_do_acquire` once it knows the device it resolved and the lease it was given. -/
def settleClaim (resolved : Option ResolvedDevice)
    (lease : Option Lease) (now : Clock) : Scheduler × ThreadPc :=
  if s.acquireCurrent a = false then
    let s := s.resetAllocation a.ref a
    match lease with
    | some lease => (s, .dropping lease)
    | none => (s, .idle)
  else
    let mismatch := resolved.filter fun r =>
      (s.slotIs? a.ref a.caller a.registrationId).any (·.canonicalId ≠ r.canonicalId)
    match mismatch, lease with
    | some r, lease => s.acquireMismatch a lease r.canonicalId now
    | none, some lease => (s, .granting a lease)
    | none, none =>
      let s := s.modifySlot a.ref a.caller a.registrationId ({ · with allocationGeneration := 0 })
      (s.modifyDongle a.ref (·.deferAcquireRetry a now), .idle)

/-- The slot notes the lease claimed for it. -/
def recordClaim (lease : Option Lease) : Scheduler :=
  s.modifySlot a.ref a.caller a.registrationId fun slot =>
    { slot with lastClaim := lease.or slot.lastClaim }

/-- `_do_acquire` after `claim_device`, up to `acquire_cb`. -/
def finishClaim (outcome : ClaimOutcome) (now : Clock) :
    Scheduler × ThreadPc :=
  let (s, lease) := s.claimDevice outcome
  (s.recordClaim a lease).settleClaim a outcome.resolved lease now

/-- `_discard_successful_acquisition` up to the callback. -/
def discardSuccessfulAcquisition (lease : Lease) :
    Scheduler × ThreadPc :=
  (s.modifySlot a.ref a.caller a.registrationId ({ · with allocationGeneration := 0 }),
    .discarding lease)

/-- `_do_acquire` after `acquire_cb`. -/
def finishGrant (lease : Lease) (callbackOk : Bool)
    (now : Clock) : Scheduler × ThreadPc :=
  if callbackOk = false then
    let s := (s.releaseLease (some lease)).resetAllocation a.ref a
    (s.modifyDongle a.ref (·.deferAcquireRetry a now), .idle)
  else if s.running = false then s.discardSuccessfulAcquisition a lease
  else
    match s.dongle? a.ref, s.slot? a.ref a.caller with
    | some d, some slot =>
      if slot.registrationId ≠ a.registrationId ∨ d.generation ≠ a.generation then
        s.discardSuccessfulAcquisition a lease
      else if slot.releaseRequested then
        (s.modifySlot a.ref a.caller a.registrationId
          ({ · with releaseRequested := false })).discardSuccessfulAcquisition a lease
      else (s.modifyDongle a.ref (·.grantSlot a lease now), .publishing)
    | _, _ =>
      (s.modifyDongle a.ref fun d =>
        { d with relockAfter := if d.relockAfter = some a.caller then none else d.relockAfter
          }).discardSuccessfulAcquisition a lease

/-- `_preflight_winner_identity_locked` up to `claim_device`; `none` when it
    stops the pass at once. -/
def beginPreflight (current caller : String) (canPreempt : Bool)
    (now : Clock) : Option Preflight :=
  match s.dongle? ref, s.slot? ref caller with
  | some d, some slot =>
    if slot.suspended = true ∨ slot.isActive = true ∨ slot.deviceLease ≠ none ∨
        d.currentHolder = some caller then none
    else
      match s.registrations.get? (slot.serial, caller) with
      | none => none
      | some storageKey =>
        let signature : PreflightSignature :=
          ⟨d.generation, d.currentHolder, d.lockedBy, slot.registrationId, canPreempt⟩
        if (s.dongles.get? storageKey).any (·.oid = ref.oid) = false then none
        else if slot.identityPreflightSignature = some signature ∧
            now.mono - slot.identityPreflightAt < sdrProbeRetryInterval ∧
            (canPreempt = false ∨ slot.identityPreflightDeferred = true) then none
        else some ⟨ref, caller, current, slot.serial, storageKey, signature⟩
  | _, _ => none

/-- Nothing the preflight depended on has changed while it resolved. -/
def preflightCurrent (p : Preflight) (now : Clock) : Bool :=
  (s.dongle? p.ref).any fun d =>
    d.generation = p.signature.generation &&
    (d.slots.get? p.caller).any (·.registrationId = p.signature.registrationId) &&
    s.registrations.get? (p.serial, p.caller) = some p.storageKey &&
    (s.dongles.get? p.storageKey).any (·.oid = p.ref.oid) &&
    d.currentHolder = p.signature.currentHolder && d.lockedBy = p.signature.lockedBy &&
    d.peekWinner now = some p.caller

/-- Whether the last preflight of a slot was deferred. -/
def setDeferred (p : Preflight) (deferred : Bool) : Scheduler :=
  s.modifySlot ref p.caller p.signature.registrationId
    ({ · with identityPreflightDeferred := deferred })

/-- The receiver the preflight found is another one than was registered. -/
def preflightMismatch (p : Preflight) (lease : Option Lease)
    (canonicalId : String) : Scheduler :=
  match s.reconcileIdleSlot p.ref p.caller p.signature.registrationId canonicalId with
  | (s, .raised) => s
  | (s, .moved target) => (s.setDeferred target p false).releaseLease lease
  | (s, .stays) => (s.setDeferred p.ref p true).releaseLease lease

/-- `_preflight_winner_identity_locked` after `claim_device`; the pass goes on
    when it answers `true`. -/
def finishPreflight (p : Preflight) (outcome : ClaimOutcome) (now : Clock) :
    Scheduler × Bool :=
  let (s, lease) := s.claimDevice outcome
  if s.preflightCurrent p now = false then (s.releaseLease lease, false)
  else
    let s := s.modifySlot p.ref p.caller p.signature.registrationId fun slot =>
      { slot with
        identityPreflightAt := now.mono
        identityPreflightSignature := some p.signature
        identityPreflightDeferred := false }
    match outcome.resolved with
    | none => ((s.setDeferred p.ref p true).releaseLease lease, false)
    | some r =>
      if (s.slotIs? p.ref p.caller p.signature.registrationId).any
          (·.canonicalId ≠ r.canonicalId) then
        (s.preflightMismatch p lease r.canonicalId, false)
      else (s.releaseLease lease, true)

/-- What `_evaluate` does once the holder has yielded. -/
def afterYield (now : Clock) : AfterYield → Scheduler × ThreadPc
  | .acquire caller => s.doAcquire ref caller now
  | .pickBackground =>
    match s.dongle? ref with
    | none => (s, .idle)
    | some d =>
      let (d, bg) := d.pickBackground now.mono
      let s := s.modifyDongle ref fun _ => d
      match bg with
      | some bg => if bg = "" then (s, .idle) else s.doAcquire ref bg now
      | none => (s, .idle)

/-- The holder yields, and then the evaluation goes on with `next`. -/
def yieldThen (caller preemptedBy : String) (next : AfterYield)
    (now : Clock) : Scheduler × ThreadPc :=
  match s.doYield ref caller preemptedBy with
  | (s, some lease) => (s, .yielding ref lease next)
  | (s, none) => s.afterYield ref now next

/-- The holder `current` would have to give way to `winner`. -/
def contend (d : Dongle) (current winner : String) (now : Clock) :
    Scheduler × ThreadPc :=
  if d.canPreempt s.weatherOverrideLock current winner then
    (s, (s.beginPreflight ref current winner true now).elim .idle .preflight)
  else if (d.slots.get? winner).any (·.deviceSelector ≠ .serial) then
    (s, (s.beginPreflight ref current winner false now).elim .idle .preflight)
  else (s, .idle)

/-- `_evaluate` up to where it first gives up the condition. -/
def evaluate (key : String) (now : Clock) : Scheduler × ThreadPc :=
  match s.dongles.get? key with
  | none => (s, .idle)
  | some d =>
    let ref : Ref := ⟨key, d.oid⟩
    let (d, winner) := (d.expireWindows now.wall).pickWinner now
    let s := s.modifyDongle ref fun _ => d
    match winner, d.currentHolder with
    | none, none => (s, .idle)
    | some winner, none => s.doAcquire ref winner now
    | none, some current =>
      if (d.slots.get? current).any (·.priority = .scheduled) then
        s.yieldThen ref current "" .pickBackground now
      else (s, .idle)
    | some winner, some current =>
      if winner = current then (s, .idle) else s.contend ref d current winner now

/-- The thread goes on from where it waits: `outcome` is what `claim_device`
    answered, `callbackOk` says that `acquire_cb` did not raise. -/
def resumeThread (pc : ThreadPc) (outcome : ClaimOutcome) (callbackOk : Bool)
    (now : Clock) : Scheduler × ThreadPc :=
  match pc with
  | .idle => (s, .idle)
  | .preflight p =>
    let (s, goesOn) := s.finishPreflight p outcome now
    if goesOn = true ∧ p.signature.canPreempt = true then
      s.yieldThen p.ref p.current p.caller (.acquire p.caller) now
    else (s, .idle)
  | .yielding ref lease next => (s.releaseLease lease).afterYield ref now next
  | .claiming a => s.finishClaim a outcome now
  | .dropping lease => (s.releaseLease (some lease), .idle)
  | .granting a lease => s.finishGrant a lease callbackOk now
  | .discarding lease => (s.releaseLease (some lease), .idle)
  | .publishing => (s, .idle)

end Scheduler

/-! ## The running system -/

/-- The operations that callers run beside the scheduler thread. -/
inductive Op where
  | register (a : RegisterArgs)
  | unregister (serial caller : String)
  | addWindow (serial caller : String) (w : TimeWindow)
  | removeWindows (serial caller : String)
  | lock (serial caller : String)
  | unlock (serial caller : String)
  | dongleReleased (serial caller : String) (generation : Option ℕ)
  | suspend (serial caller : String) (generation : Option ℕ)
  | resume (serial caller : String) (registrationId : ℕ)
  | stop

/-- The start of an operation, until it returns or gives up the condition. -/
def Scheduler.begin (s : Scheduler) : Op → Scheduler × Progress
  | .register a => s.register a
  | .unregister serial caller => s.unregister serial caller
  | .addWindow serial caller w => (s.addWindow serial caller w, .returned)
  | .removeWindows serial caller => (s.removeWindows serial caller, .returned)
  | .lock serial caller => ((s.lock serial caller).1, .returned)
  | .unlock serial caller => (s.unlock serial caller, .returned)
  | .dongleReleased serial caller generation =>
    let (s, lease, _) := s.releaseSlot serial caller false generation
    (s, lease.elim .returned fun lease => .waits (.releasing lease))
  | .suspend serial caller generation =>
    let (s, lease, _) := s.releaseSlot serial caller true generation
    (s, lease.elim .returned fun lease => .waits (.releasing lease))
  | .resume serial caller registrationId => ((s.resume serial caller registrationId).1, .returned)
  | .stop => s.stop

/-- A call goes on, its callback and the release of its lease being done. -/
def Scheduler.proceed (s : Scheduler) (visit : List String) : CallPc → Scheduler × Progress
  | .registering m lease => (s.releaseLease lease).finishMove m
  | .unregistering serial caller ref lease =>
    (s.releaseLease lease).finishUnregister ref serial caller true
  | .stopping start todo lease => (s.releaseLease lease).finishStopping start todo visit
  | .releasing lease => (s.releaseLease (some lease), .returned)

/-- The scheduler, where its thread stands, and the calls that have given up the condition. -/
structure System where
  scheduler : Scheduler
  thread : ThreadPc := .idle
  calls : Dict ℕ CallPc := ∅

/-- What can happen next. The thread's turns over the dongles come one at a
    time, in any order. -/
inductive Event where
  | evaluate (key : String) (now : Clock)
  | resumeThread (outcome : ClaimOutcome) (callbackOk : Bool) (now : Clock)
  | call (id : ℕ) (op : Op)
  | proceed (id : ℕ) (visit : List String)

namespace System

/-- Where a call stands, once a part of it has ended with `progress`. -/
def record (calls : Dict ℕ CallPc) (id : ℕ) : Progress → Dict ℕ CallPc
  | .waits pc => calls.set id pc
  | _ => calls.erase id

/-- The effect of an event, where it is possible. -/
def next (s : System) : Event → Option System
  | .evaluate key now =>
    if s.thread = .idle then
      let (scheduler, thread) := s.scheduler.evaluate key now
      some { s with scheduler, thread }
    else none
  | .resumeThread outcome callbackOk now =>
    if s.thread = .idle then none
    else
      let (scheduler, thread) := s.scheduler.resumeThread s.thread outcome callbackOk now
      some { s with scheduler, thread }
  | .call id op =>
    match s.calls.get? id with
    | some _ => none
    | none =>
      let (scheduler, progress) := s.scheduler.begin op
      some { s with scheduler, calls := record s.calls id progress }
  | .proceed id visit =>
    match s.calls.get? id with
    | none => none
    | some pc =>
      let (scheduler, progress) := s.scheduler.proceed visit pc
      some { s with scheduler, calls := record s.calls id progress }

/-- The scheduler starts with its managed dongles; its thread and any number of
    callers then take steps in any order. -/
def transition (managed : List ManagedDongle) (weatherOverrideLock : Bool) :
    Transition System Event :=
  .ofNext (· = ⟨.new managed weatherOverrideLock, .idle, ∅⟩) next

/-- No operation is suspended in the middle. -/
def Quiescent (s : System) : Prop := s.thread = .idle ∧ s.calls.entries = []

end System

end ReticulumPi.Sdr
