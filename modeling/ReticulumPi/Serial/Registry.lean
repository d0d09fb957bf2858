import ReticulumPi.Lib.Index
import ReticulumPi.Lib.PyStr
import ReticulumPi.Lib.Transition
import Mathlib.Data.Finset.Sort

/-!
# The serial-device registry

Process-local ownership of serial devices (`serial_devices.py`). A *claim*
holds the identity a configured path resolved to, i.e., the keys that must be
exclusive: its canonical path, its device number, its USB parent and its USB
vendor, product and serial number. Claims may share a device within a *share
group*, entered with a token issued by a claim of the group; the group of an
external reservation takes no second member. An *intent* reserves a configured
path for an external owner, whether the path resolves or not, and accumulates
the keys of every identity the path ever resolved to.

The filesystem is a parameter of each operation that reads it (`Resolver`):
what the configured path of a device resolves to may change from one reading
to the next. An operation gives its result or the error it raises, and the
registry it leaves behind, also when it raises.
-/

namespace ReticulumPi.Serial

/-! ## Identities -/

/-- The stable attributes of the USB parent of a tty, as `__post_init__` leaves them. -/
structure USBDeviceIdentity where
  sysfsPath : String
  vendorId : String
  productId : String
  serialNumber : Option String
  deriving DecidableEq

/-- An identity key that must be exclusive. -/
inductive ClaimKey
  | path (canonicalPath : String)
  | device (major minor : ℕ)
  | usbParent (sysfsPath : String)
  | usbDevice (vendorId productId serialNumber : String)
  deriving DecidableEq

/-- One resolution of a configured serial path. -/
structure SerialDeviceIdentity where
  configuredPath : String
  canonicalPath : String
  major : ℕ
  minor : ℕ
  usb : Option USBDeviceIdentity
  deriving DecidableEq

namespace SerialDeviceIdentity

/-- Every identity key that must be exclusive (a frozenset, by its members). -/
def claimKeys (i : SerialDeviceIdentity) : List ClaimKey :=
  [.path i.canonicalPath, .device i.major i.minor] ++
    match i.usb with
    | none => []
    | some usb =>
      [.usbParent usb.sysfsPath] ++
        match usb.serialNumber with
        | none => []
        | some serialNumber => [.usbDevice usb.vendorId usb.productId serialNumber]

/-- All captured facts that must match during revalidation. -/
def binding (i : SerialDeviceIdentity) : String × ℕ × ℕ × Option USBDeviceIdentity :=
  (i.canonicalPath, i.major, i.minor, i.usb)

/-- Whether `other` is the exact endpoint represented by `i`. -/
def isSameEndpoint (i other : SerialDeviceIdentity) : Bool := i.binding = other.binding

end SerialDeviceIdentity

/-! ## Errors and the environment -/

/-- The errors raised by the operations. -/
inductive Error
  | valueError (message : String)
  | keyError
  /-- `SerialDeviceIdentityError`: the path cannot be resolved to a serial identity. -/
  | identityError (message : String)
  /-- Anything else raised while resolving. -/
  | other (message : String)
  /-- `SerialDeviceBusyError`. -/
  | busy (configuredPath : String) (owners : List String) (identity : Option SerialDeviceIdentity)
      (external : Bool)
  /-- `StaleSerialDeviceLeaseError`. -/
  | stale (message : String)
  /-- `SerialDeviceChangedError`. -/
  | changed (configuredPath : String) (expected current : SerialDeviceIdentity)
  /-- `InvalidSerialShareTokenError`. -/
  | invalidShareToken (message : String)
  deriving DecidableEq

/-- What the filesystem says of a configured path. -/
inductive Resolution
  | found (canonicalPath : String) (major minor : ℕ) (usb : Option USBDeviceIdentity)
  | identityError (message : String)
  | other (message : String)

/-- A reading of the filesystem: what each configured path resolves to. -/
abbrev Resolver := String → Resolution

/-- `_resolve`. -/
def resolve (fs : Resolver) (configured : String) : Except Error SerialDeviceIdentity :=
  match fs configured with
  | .found canonicalPath major minor usb => .ok ⟨configured, canonicalPath, major, minor, usb⟩
  | .identityError message => .error (.identityError message)
  | .other message => .error (.other message)

/-- The functions of `os.path` that read the process environment. -/
structure OsPath where
  expanduser : String → String
  normpath : String → String
  abspath : String → String
  normcase : String → String

/-- `_normalize_configured_path`. -/
def normalizeConfiguredPath (os : OsPath) (configured : String) : Except Error String :=
  if configured = "" ∨ '\x00' ∈ configured.toList then
    .error (.valueError "configured_path must be a non-empty filesystem path")
  else
    .ok (os.normcase (os.abspath (os.normpath (os.expanduser configured))))

/-- The owner without surrounding white space, if anything is left of it. -/
def stripOwner (owner : String) : Except Error String :=
  if PyStr.strip owner.toList = [] then .error (.valueError "owner must be a non-empty string")
  else .ok (String.ofList (PyStr.strip owner.toList))

/-! ## Records -/

/-- `_ClaimRecord`. -/
structure ClaimRecord where
  claimId : ℕ
  groupId : ℕ
  owner : String
  identity : SerialDeviceIdentity
  external : Bool
  deriving DecidableEq

/-- `_ShareGroup`; an `object()` is the number of its creation. -/
structure ShareGroup where
  identity : SerialDeviceIdentity
  claimIds : Finset ℕ
  shareNonce : ℕ
  external : Bool
  deriving DecidableEq

/-- `_IntentRecord`. -/
structure IntentRecord where
  intentId : ℕ
  owner : String
  configuredPath : String
  normalizedPath : String
  identity : Option SerialDeviceIdentity
  claimKeys : List ClaimKey
  deriving DecidableEq

/-- The record of an intent whose path now resolves to `current`: its keys accumulate. -/
def IntentRecord.updated (record : IntentRecord) (current : SerialDeviceIdentity) :
    IntentRecord :=
  { record with identity := some current, claimKeys := record.claimKeys ∪ current.claimKeys }

/-- `SerialDeviceShareToken`. -/
structure ShareToken where
  registryNonce : ℕ
  groupId : ℕ
  groupNonce : ℕ
  deriving DecidableEq

/-- `SerialDeviceLease`; the registry behind it is the one of its nonce. -/
structure Lease where
  identity : SerialDeviceIdentity
  owner : String
  external : Bool
  registry : ℕ
  claimId : ℕ
  deriving DecidableEq

/-- `SerialDeviceIntentLease`. -/
structure IntentLease where
  configuredPath : String
  normalizedPath : String
  owner : String
  registry : ℕ
  intentId : ℕ
  deriving DecidableEq

/-- `SerialDeviceRegistry`. -/
structure Registry where
  registryNonce : ℕ
  /-- The number of the next `object()`. -/
  nextNonce : ℕ
  nextClaimId : ℕ
  nextGroupId : ℕ
  nextIntentId : ℕ
  claims : Dict ℕ ClaimRecord
  claimsByKey : Index ClaimKey ℕ
  groups : Dict ℕ ShareGroup
  intents : Dict ℕ IntentRecord
  intentsByPath : Index String ℕ
  intentsByKey : Index ClaimKey ℕ

namespace Registry

/-- A new registry, whose nonce is the object `nonce`. -/
def new (nonce : ℕ) : Registry where
  registryNonce := nonce
  nextNonce := nonce + 1
  nextClaimId := 0
  nextGroupId := 0
  nextIntentId := 0
  claims := ∅
  claimsByKey := ∅
  groups := ∅
  intents := ∅
  intentsByPath := ∅
  intentsByKey := ∅

/-! ## Collisions -/

/-- `[table[i] for i in sorted(ids)]`. -/
def recordsOf {α : Type} (table : Dict ℕ α) (ids : Finset ℕ) : Except Error (List α) :=
  (ids.sort (· ≤ ·)).mapM fun i => (table.get? i).elim (.error .keyError) .ok

variable (r : Registry) (identity : SerialDeviceIdentity)

/-- `_claim_records_for_identity_locked`. -/
def claimRecordsForIdentityLocked :
    Except Error (List ClaimRecord) :=
  recordsOf r.claims (r.claimsByKey.idsOf identity.claimKeys)

/-- `_intent_records_for_path_locked`. -/
def intentRecordsForPathLocked (normalizedPath : String) :
    Except Error (List IntentRecord) :=
  recordsOf r.intents (r.intentsByPath.ids normalizedPath)

/-- `_intent_records_for_identity_locked`. -/
def intentRecordsForIdentityLocked :
    Except Error (List IntentRecord) :=
  recordsOf r.intents (r.intentsByKey.idsOf identity.claimKeys)

/-- `_raise_busy`. -/
def raiseBusy {α : Type} (identity : SerialDeviceIdentity) (colliding : List ClaimRecord) :
    Except Error α :=
  .error (.busy identity.configuredPath (colliding.map (·.owner)).eraseDups (some identity)
    (colliding.any (·.external)))

/-- `_raise_intent_busy`. -/
def raiseIntentBusy {α : Type} (configuredPath : String) (identity : Option SerialDeviceIdentity)
    (colliding : List IntentRecord) : Except Error α :=
  .error (.busy configuredPath (colliding.map (·.owner)).eraseDups identity true)

/-! ## Intents -/

/-- Replace the record of an intent whose path now resolves to `current`. -/
def updateIntent (record : IntentRecord) (current : SerialDeviceIdentity) :
    Registry :=
  { r with
    intents := r.intents.set record.intentId (record.updated current)
    intentsByKey := r.intentsByKey.add current.claimKeys record.intentId }

/-- Refresh the intents `ids`, in turn (the loop of `_refresh_intents_locked`). -/
def refreshIntents (fs : Resolver) : List ℕ → Registry → Except Error Unit × Registry
  | [], r => (.ok (), r)
  | i :: ids, r =>
    match r.intents.get? i with
    | none => refreshIntents fs ids r
    | some record =>
      match resolve fs record.configuredPath with
      | .error (.identityError _) => refreshIntents fs ids r
      | .error e => (.error e, r)
      | .ok current =>
        if record.identity.map (·.binding) = some current.binding then refreshIntents fs ids r
        else refreshIntents fs ids (r.updateIntent record current)

/-- `_refresh_intents_locked`: refresh every live intent; a failed resolution
    keeps its known keys, a changed identity adds its own. -/
def refreshIntentsLocked (fs : Resolver) (r : Registry) : Except Error Unit × Registry :=
  refreshIntents fs (r.intents.keys.insertionSort (· ≤ ·)) r

/-- Enter a new intent into the tables. -/
def addIntent (owner configured normalized : String)
    (identity : Option SerialDeviceIdentity) : Registry :=
  let keys := (identity.map (·.claimKeys)).getD []
  { r with
    nextIntentId := r.nextIntentId + 1
    intents := r.intents.set (r.nextIntentId + 1)
      ⟨r.nextIntentId + 1, owner, configured, normalized, identity, keys⟩
    intentsByPath := r.intentsByPath.add [normalized] (r.nextIntentId + 1)
    intentsByKey := r.intentsByKey.add keys (r.nextIntentId + 1) }

/-- The collisions that forbid an external intent. -/
def checkIntent (configured normalized : String)
    (identity : Option SerialDeviceIdentity) : Except Error Unit := do
  let pathCollisions ← r.intentRecordsForPathLocked normalized
  if pathCollisions ≠ [] then raiseIntentBusy configured identity pathCollisions
  match identity with
  | none => pure ()
  | some identity =>
    let claimCollisions ← r.claimRecordsForIdentityLocked identity
    if claimCollisions ≠ [] then raiseBusy identity claimCollisions
    let intentCollisions ← r.intentRecordsForIdentityLocked identity
    if intentCollisions ≠ [] then raiseIntentBusy configured (some identity) intentCollisions

/-- `reserve_external_intent`; the path is first resolved in `fs`, the live
    intents are then refreshed in `fs'`. -/
def reserveExternalIntent (os : OsPath) (fs fs' : Resolver) (configured owner : String)
    (r : Registry) : Except Error IntentLease × Registry :=
  match stripOwner owner, normalizeConfiguredPath os configured, resolve fs configured with
  | .error e, _, _ => (.error e, r)
  | _, .error e, _ => (.error e, r)
  | .ok owner, .ok normalized, resolved =>
    match resolved with
    | .error (.identityError _) => reserve owner normalized none
    | .error e => (.error e, r)
    | .ok identity => reserve owner normalized (some identity)
where
  /-- The part under the lock. -/
  reserve (owner normalized : String) (identity : Option SerialDeviceIdentity) :=
    match r.refreshIntentsLocked fs' with
    | (.error e, r) => (.error e, r)
    | (.ok (), r) =>
      match r.checkIntent configured normalized identity with
      | .error e => (.error e, r)
      | .ok () => (.ok ⟨configured, normalized, owner, r.registryNonce, r.nextIntentId + 1⟩,
          r.addIntent owner configured normalized identity)

/-! ## Claims -/

/-- A claim between its two critical sections: its checked arguments. -/
structure Call where
  configured : String
  normalized : String
  owner : String
  external : Bool
  shareToken : Option ShareToken
  deriving DecidableEq

/-- `_claim` up to the end of its first critical section: a configured-path
    intent wins even while the path is absent. -/
def claimStart (os : OsPath) (configured owner : String) (external : Bool)
    (shareToken : Option ShareToken) (r : Registry) : Except Error Call := do
  let owner ← stripOwner owner
  let normalized ← normalizeConfiguredPath os configured
  let pathCollisions ← r.intentRecordsForPathLocked normalized
  if pathCollisions ≠ [] then raiseIntentBusy configured none pathCollisions
  return ⟨configured, normalized, owner, external, shareToken⟩

/-- `_new_group`, with the group it makes. -/
def newGroup (external : Bool) :
    ℕ × ShareGroup × Registry :=
  let group : ShareGroup := ⟨identity, ∅, r.nextNonce, external⟩
  (r.nextGroupId + 1, group,
    { r with
      nextNonce := r.nextNonce + 1
      nextGroupId := r.nextGroupId + 1
      groups := r.groups.set (r.nextGroupId + 1) group })

/-- `_validate_share_token`, with the group it finds. -/
def validateShareToken (token : ShareToken) (identity : SerialDeviceIdentity)
    (colliding : List ClaimRecord) : Except Error (ℕ × ShareGroup) :=
  let invalid := Error.invalidShareToken
    "Serial-device share token is stale, foreign, or targets another endpoint"
  match r.groups.get? token.groupId with
  | none => .error invalid
  | some group =>
    if token.registryNonce ≠ r.registryNonce ∨ token.groupNonce ≠ group.shareNonce ∨
        group.claimIds = ∅ ∨ group.external ∨ ¬identity.isSameEndpoint group.identity ∨
        colliding = [] ∨ colliding.any (·.groupId ≠ token.groupId) then
      .error invalid
    else .ok (token.groupId, group)

/-- The checks under the lock of `_claim`: the share group the claim enters. -/
def enterGroup (c : Call) (identity : SerialDeviceIdentity) :
    Except Error (ℕ × ShareGroup × Registry) := do
  let pathCollisions ← r.intentRecordsForPathLocked c.normalized
  if pathCollisions ≠ [] then raiseIntentBusy c.configured (some identity) pathCollisions
  let intentCollisions ← r.intentRecordsForIdentityLocked identity
  if intentCollisions ≠ [] then raiseIntentBusy c.configured (some identity) intentCollisions
  let colliding ← r.claimRecordsForIdentityLocked identity
  match c.shareToken with
  | none =>
    if colliding ≠ [] then raiseBusy identity colliding
    return r.newGroup identity c.external
  | some token =>
    if c.external then
      throw (.invalidShareToken "External serial-device reservations cannot be shared")
    let (groupId, group) ← r.validateShareToken token identity colliding
    return (groupId, group, r)

/-- Enter a new claim of the group `group` into the tables. -/
def addClaim (groupId : ℕ) (group : ShareGroup) (owner : String)
    (identity : SerialDeviceIdentity) (external : Bool) : Registry :=
  let claimId := r.nextClaimId + 1
  { r with
    nextClaimId := claimId
    claims := r.claims.set claimId ⟨claimId, groupId, owner, identity, external⟩
    groups := r.groups.set groupId { group with claimIds := insert claimId group.claimIds }
    claimsByKey := r.claimsByKey.add identity.claimKeys claimId }

/-- The second critical section of `_claim`, once the path resolved to `identity`. -/
def claimLocked (fs : Resolver) (c : Call) (identity : SerialDeviceIdentity) (r : Registry) :
    Except Error Lease × Registry :=
  match r.refreshIntentsLocked fs with
  | (.error e, r) => (.error e, r)
  | (.ok (), r) =>
    match r.enterGroup c identity with
    | .error e => (.error e, r)
    | .ok (groupId, group, r) =>
      (.ok ⟨identity, c.owner, c.external, r.registryNonce, r.nextClaimId + 1⟩,
        r.addClaim groupId group c.owner identity c.external)

/-- `_claim` after its first critical section: the path resolves in `fs`, the
    live intents are then refreshed in `fs'`. -/
def claimFinish (fs fs' : Resolver) (c : Call) (r : Registry) : Except Error Lease × Registry :=
  match resolve fs c.configured with
  | .error e => (.error e, r)
  | .ok identity => r.claimLocked fs' c identity

/-! ## Leases -/

/-- `_active_record_for`. -/
def activeRecordFor (lease : Lease) : Except Error ClaimRecord :=
  if lease.registry ≠ r.registryNonce then
    .error (.stale "Serial-device lease belongs to another registry")
  else match r.claims.get? lease.claimId with
    | none => .error (.stale "Serial-device lease is stale")
    | some record =>
      if record.owner ≠ lease.owner ∨ record.identity ≠ lease.identity then
        .error (.stale "Serial-device lease is stale")
      else .ok record

/-- `_active_intent_for`. -/
def activeIntentFor (lease : IntentLease) : Except Error IntentRecord :=
  if lease.registry ≠ r.registryNonce then
    .error (.stale "Serial-device intent lease belongs to another registry")
  else match r.intents.get? lease.intentId with
    | none => .error (.stale "Serial-device intent lease is stale")
    | some record =>
      if record.owner ≠ lease.owner ∨ record.configuredPath ≠ lease.configuredPath ∨
          record.normalizedPath ≠ lease.normalizedPath then
        .error (.stale "Serial-device intent lease is stale")
      else .ok record

/-- `issue_share_token`. -/
def issueShareToken (lease : Lease) : Except Error ShareToken := do
  let record ← r.activeRecordFor lease
  match r.groups.get? record.groupId with
  | none => throw .keyError
  | some group =>
    if record.external ∨ group.external then
      throw (.invalidShareToken "External serial-device reservations cannot be shared")
    return ⟨r.registryNonce, record.groupId, group.shareNonce⟩

/-- `revalidate`; the registry is `r` in its first critical section, `r'` in its second. -/
def revalidate (fs : Resolver) (lease : Lease) (r r' : Registry) :
    Except Error SerialDeviceIdentity := do
  let expected := (← r.activeRecordFor lease).identity
  let current ← resolve fs expected.configuredPath
  let record ← r'.activeRecordFor lease
  if record.identity.binding ≠ expected.binding then
    throw (.stale "Serial-device lease changed while validating")
  if ¬expected.isSameEndpoint current then
    throw (.changed expected.configuredPath expected current)
  return current

/-- `revalidate_intent`. -/
def revalidateIntent (fs : Resolver) (lease : IntentLease) (r : Registry) :
    Except Error (Option SerialDeviceIdentity) × Registry :=
  match r.activeIntentFor lease with
  | .error e => (.error e, r)
  | .ok record =>
    match resolve fs record.configuredPath with
    | .error (.identityError _) => (.ok record.identity, r)
    | .error e => (.error e, r)
    | .ok current =>
      if record.identity.map (·.binding) = some current.binding then (.ok (some current), r)
      else (.ok (some current), r.updateIntent record current)

/-- `_release`. -/
def release (claimId : ℕ) (r : Registry) : Registry :=
  match r.claims.get? claimId with
  | none => r
  | some record =>
    { r with
      claims := r.claims.erase claimId
      claimsByKey := r.claimsByKey.drop record.identity.claimKeys claimId
      groups := match r.groups.get? record.groupId with
        | none => r.groups
        | some group =>
          if group.claimIds.erase claimId = ∅ then r.groups.erase record.groupId
          else r.groups.set record.groupId
            { group with claimIds := group.claimIds.erase claimId } }

/-- `_release_intent`. -/
def releaseIntent (intentId : ℕ) (r : Registry) : Registry :=
  match r.intents.get? intentId with
  | none => r
  | some record =>
    { r with
      intents := r.intents.erase intentId
      intentsByPath := r.intentsByPath.drop [record.normalizedPath] intentId
      intentsByKey := r.intentsByKey.drop record.claimKeys intentId }

end Registry

/-! ## Runs -/

/-- A registry with the claims that are between their two critical sections. -/
structure System where
  registry : Registry
  inflight : List Registry.Call

/-- A call on a registry, with the filesystem as its resolutions find it. -/
inductive Label
  /-- `claim` or `reserve_external`, up to the end of the first critical section. -/
  | claimStart (os : OsPath) (configured owner : String) (external : Bool)
      (shareToken : Option ShareToken)
  /-- The rest of the claim `c`. -/
  | claimFinish (fs fs' : Resolver) (c : Registry.Call)
  | reserveExternalIntent (os : OsPath) (fs fs' : Resolver) (configured owner : String)
  | revalidate (fs : Resolver) (lease : Lease)
  | revalidateIntent (fs : Resolver) (lease : IntentLease)
  | release (claimId : ℕ)
  | releaseIntent (intentId : ℕ)
  | issueShareToken (lease : Lease)

/-- What a call leaves behind. `revalidate` and `issue_share_token` only read. -/
def System.next (s : System) : Label → System
  | .claimStart os configured owner external shareToken =>
    match s.registry.claimStart os configured owner external shareToken with
    | .error _ => s
    | .ok c => { s with inflight := c :: s.inflight }
  | .claimFinish fs fs' c => ⟨(s.registry.claimFinish fs fs' c).2, s.inflight.erase c⟩
  | .reserveExternalIntent os fs fs' configured owner =>
    { s with registry := (s.registry.reserveExternalIntent os fs fs' configured owner).2 }
  | .revalidate _ _ => s
  | .revalidateIntent fs lease => { s with registry := (s.registry.revalidateIntent fs lease).2 }
  | .release claimId => { s with registry := s.registry.release claimId }
  | .releaseIntent intentId => { s with registry := s.registry.releaseIntent intentId }
  | .issueShareToken _ => s

/-- Only a claim that passed its first critical section finishes. -/
def Label.enabled (s : System) : Label → Prop
  | .claimFinish _ _ c => c ∈ s.inflight
  | _ => True

/-- The runs of a registry: any calls in any order, the claims of several
    threads interleaving at their two critical sections. -/
def system : Transition System Label where
  init s := ∃ nonce, s = ⟨.new nonce, []⟩
  step s a s' := a.enabled s ∧ s' = s.next a

end ReticulumPi.Serial
