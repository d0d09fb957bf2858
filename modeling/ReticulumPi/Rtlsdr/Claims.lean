import ReticulumPi.Lib.Dict
import ReticulumPi.Lib.Transition
import Mathlib.Data.List.Dedup
import Mathlib.Order.Nat

/-!
# Claims of RTL-SDR devices

The process-wide claims of `rtlsdr.py`. A plugin (the *caller*) selects a
device by its serial number, by its index, or by whichever of the two fits; the
selection is resolved against a fresh enumeration of the devices and claimed
under its *canonical id* (the serial number of the device, if it has one) and
its index. Two tables are kept: the claims by number, and the number of the
claim of each selection, i.e., caller, selector and configured value.

The enumeration is a parameter of each operation, as devices come and go and
change their indexes between any two of them; so is Python's `int` of a text.
-/

namespace ReticulumPi.Rtlsdr

/-- The kind of a selection; the text of one that is no `DeviceSelector`. -/
inductive DeviceSelector
  | auto
  | serial
  | index
  | unknown (text : String)
  deriving DecidableEq

/-- `_ClaimRecord`. -/
structure ClaimRecord where
  claimId : ℕ
  caller : String
  selector : DeviceSelector
  configured : String
  canonicalId : String
  index : ℤ
  deriving DecidableEq

/-- What is selected, and by whom. -/
abbrev Selection := String × DeviceSelector × String

/-- `_ClaimRecord.selection`. -/
def ClaimRecord.selection (r : ClaimRecord) : Selection := (r.caller, r.selector, r.configured)

/-- `DeviceLease`; the number is `0` of a lease that was made without a claim. -/
structure DeviceLease where
  configured : String
  canonicalId : String
  index : ℤ
  caller : String
  selector : DeviceSelector
  claimId : ℕ
  deriving DecidableEq

/-- `ResolvedDevice`. -/
structure ResolvedDevice where
  index : ℤ
  canonicalId : String
  deriving DecidableEq

/-- The errors raised; a `ValueError` names the selector that is none. -/
inductive Error
  | valueError (selector : String)
  | runtimeError (message : String)
  | deviceBusy (configured previous : String) (resolved : ResolvedDevice)
  deriving DecidableEq

/-- An enumeration of the devices, with their indexes and serial numbers. -/
abbrev Devices := List (ℤ × String)

/-! ## Resolution -/

/-- The devices, as error messages list them. -/
def available (devices : Devices) : String :=
  ", ".intercalate (devices.map fun d => toString d.1 ++ ": SN " ++ d.2)

variable (int : String → Option ℤ)

/-- `_resolve_device_snapshot`; `int` is Python's, `none` where it raises `ValueError`. -/
def resolveDeviceSnapshot (configured : String)
    (selector : DeviceSelector) (devices : Devices) : Except Error ResolvedDevice :=
  match selector with
  | .unknown text => .error (.valueError text)
  | .serial =>
    match bySerial with
    | some resolved => .ok resolved
    | none => .error (.runtimeError ("RTL-SDR serial '" ++ configured ++
        "' not found. Available: [" ++ available devices ++ "]"))
  | .auto =>
    match bySerial with
    | some resolved => .ok resolved
    | none => byIndex (configured ∉ devices.map Prod.snd ∧ (configured.length ≠ 8 ∨ devices = []))
  | .index => byIndex True
where
  /-- The first device with the serial number. -/
  bySerial : Option ResolvedDevice :=
    (devices.find? fun d => d.2 = configured).map fun d => ⟨d.1, "serial:" ++ d.2⟩
  /-- The device at the index, if the value may be taken for one. -/
  byIndex (guard : Prop) [Decidable guard] : Except Error ResolvedDevice :=
    let notFound := Error.runtimeError ("RTL-SDR device '" ++ configured ++
      "' not found. Available: [" ++ available devices ++ "]")
    match int configured with
    | none => .error notFound
    | some idx =>
      if 0 ≤ idx ∧ guard then
        match (devices.find? fun d => d.1 = idx).map Prod.snd with
        | some serial =>
          .ok ⟨idx, if serial = "" then "index:" ++ toString idx else "serial:" ++ serial⟩
        | none => .ok ⟨idx, "index:" ++ toString idx⟩
      else .error notFound

/-! ## The tables -/

/-- The claims of the process. -/
structure Claims where
  claimed : Dict ℕ ClaimRecord
  claimSelections : Dict Selection ℕ
  nextClaimId : ℕ

namespace Claims

/-- No claims. -/
def empty : Claims := ⟨∅, ∅, 0⟩

/-- Whether a claim is of the device, by its canonical id or by its index. -/
def Collides (r : ClaimRecord) (resolved : ResolvedDevice) : Prop :=
  r.canonicalId = resolved.canonicalId ∨ r.index = resolved.index
deriving Decidable

/-- `_pop_claim_locked`, for the tables it leaves. -/
def popClaimLocked (claimId : ℕ) (t : Claims) : Claims :=
  match t.claimed.get? claimId with
  | none => t
  | some record =>
    { t with
      claimed := t.claimed.erase claimId
      claimSelections :=
        if t.claimSelections.get? record.selection = some claimId then
          t.claimSelections.erase record.selection
        else t.claimSelections }

/-- The checks of `_claim_device` on the claim that is to be replaced. -/
def checkReplaced (t : Claims) (caller : String) (own : Option ℕ) :
    Option ℕ → Except Error Unit
  | none => .ok ()
  | some replaced =>
    match t.claimed.get? replaced with
    | none => .error (.runtimeError "Cannot refresh a stale RTL-SDR device lease")
    | some replacement =>
      if replacement.caller ≠ caller then
        .error (.runtimeError "Cannot refresh an RTL-SDR device lease owned by another caller")
      else if own ≠ none ∧ own ≠ some replaced then
        .error (.runtimeError "Target RTL-SDR selection already has a different active lease")
      else .ok ()

/-- The claim that keeps a device from being claimed, if there is one that is
    not to be replaced. -/
def blocking? (t : Claims) (replaced : List ℕ) (resolved : ResolvedDevice) :
    Option (ℕ × ClaimRecord) :=
  t.claimed.entries.find? fun e => e.1 ∉ replaced ∧ Collides e.2 resolved

/-- Enter a new claim into the tables. -/
def addClaim (t : Claims) (resolved : ResolvedDevice) (configured caller : String)
    (selector : DeviceSelector) : Claims :=
  let claimId := t.nextClaimId + 1
  { claimed := t.claimed.set claimId
      ⟨claimId, caller, selector, configured, resolved.canonicalId, resolved.index⟩
    claimSelections := t.claimSelections.set (caller, selector, configured) claimId
    nextClaimId := claimId }

/-- The claim of the selection, if there is one; a selection whose claim is gone
    is forgotten. -/
def ownClaim (selection : Selection) (t : Claims) : Option ℕ × Claims :=
  match t.claimSelections.get? selection with
  | none => (none, t)
  | some own =>
    if own ∈ t.claimed.keys then (some own, t)
    else (none, { t with claimSelections := t.claimSelections.erase selection })

variable (resolved : ResolvedDevice)

/-- `_claim_device` under its lock, of a caller with a name; `replace` is the
    claim that a refreshed lease names. -/
def claimLocked (configured caller : String)
    (selector : DeviceSelector) (replace : Option ℕ) (t : Claims) : Except Error ℕ × Claims :=
  let (own, t) := t.ownClaim (caller, selector, configured)
  match t.checkReplaced caller own replace with
  | .error e => (.error e, t)
  | .ok () =>
    let replaced := (own.toList ++ replace.toList).dedup
    match t.blocking? replaced resolved with
    | some (_, record) => (.error (.deviceBusy configured record.caller resolved), t)
    | none =>
      (.ok (t.nextClaimId + 1),
        replaced.foldl (fun t i => popClaimLocked i t)
          (t.addClaim resolved configured caller selector))

/-- `_claim_device`; a caller without a name claims nothing. -/
def claim (configured caller : String) (selector : DeviceSelector)
    (replace : Option ℕ) (t : Claims) : Except Error (Option ℕ) × Claims :=
  if caller = "" then (.ok none, t)
  else
    match claimLocked resolved configured caller selector replace t with
    | (.error e, t) => (.error e, t)
    | (.ok claimId, t) => (.ok (some claimId), t)

variable (int : String → Option ℤ)

/-- Resolve a selection and claim it, the body of `claim_device` and of
    `refresh_device_lease`: the lease of the claim. -/
def resolveAndClaim (devices : Devices) (configured caller : String)
    (selector : DeviceSelector) (replace : Option ℕ) (t : Claims) :
    Except Error DeviceLease × Claims :=
  match resolveDeviceSnapshot int configured selector devices with
  | .error e => (.error e, t)
  | .ok resolved =>
    match t.claim resolved configured caller selector replace with
    | (.error e, t) => (.error e, t)
    | (.ok claimId, t) =>
      (.ok ⟨configured, resolved.canonicalId, resolved.index, caller, selector,
        claimId.getD 0⟩, t)

/-- `claim_device`. -/
def claimDevice (devices : Devices) (configured caller : String)
    (selector : DeviceSelector) (t : Claims) : Except Error DeviceLease × Claims :=
  resolveAndClaim int devices configured caller selector none t

/-- `refresh_device_lease`. -/
def refreshDeviceLease (devices : Devices)
    (lease : Option DeviceLease) (configured caller : String) (selector : DeviceSelector)
    (t : Claims) : Except Error DeviceLease × Claims :=
  resolveAndClaim int devices configured caller selector
    ((lease.map (·.claimId)).filter (· ≠ 0)) t

/-- `resolve_device`, for the index it gives and the tables it leaves. -/
def resolveDevice (devices : Devices) (configured caller : String)
    (selector : DeviceSelector) (t : Claims) : Except Error ℤ × Claims :=
  match resolveDeviceSnapshot int configured selector devices with
  | .error e => (.error e, t)
  | .ok resolved =>
    match t.claim resolved configured caller selector none with
    | (.error e, t) => (.error e, t)
    | (.ok _, t) => (.ok resolved.index, t)

/-! ## Releases -/

/-- `_release_claim_id`. -/
def releaseClaimId (claimId : ℕ) (caller : String) (t : Claims) : Claims :=
  match t.claimed.get? claimId with
  | none => t
  | some record =>
    if caller = "" ∨ record.caller = caller then t.popClaimLocked claimId else t

/-- `_release_legacy_lease`. -/
def releaseLegacyLease (lease : DeviceLease) (t : Claims) : Claims :=
  match t.claimSelections.get? (lease.caller, lease.selector, lease.configured) with
  | none => t
  | some claimId =>
    match t.claimed.get? claimId with
    | none => t
    | some record =>
      if record.canonicalId = lease.canonicalId ∧ record.index = lease.index then
        t.popClaimLocked record.claimId
      else t

/-- `DeviceLease.release`. -/
def releaseLease (lease : DeviceLease) (t : Claims) : Claims :=
  if lease.claimId ≠ 0 then t.releaseClaimId lease.claimId lease.caller
  else t.releaseLegacyLease lease

/-- `_force_release_resolved`. -/
def forceReleaseResolved (t : Claims) : Claims :=
  ((t.claimed.entries.filter fun e => Collides e.2 resolved).map Prod.fst).foldl
    (fun t i => popClaimLocked i t) t

/-- `release_device`; without a caller it is the forced release. -/
def releaseDevice (devices : Devices) (configured caller : String)
    (selector : DeviceSelector) (t : Claims) : Except Error Unit × Claims :=
  let selected := if caller ≠ "" then
      (t.claimSelections.get? (caller, selector, configured)).toList
    else (t.claimSelections.entries.filter fun e =>
      e.1.2.1 = selector ∧ e.1.2.2 = configured).map Prod.snd
  if selected ≠ [] then
    (.ok (), selected.foldl (fun t i => releaseClaimId i caller t) t)
  else if caller ≠ "" then (.ok (), t)
  else
    match resolveDeviceSnapshot int configured selector devices with
    | .ok resolved => (.ok (), t.forceReleaseResolved resolved)
    | .error (.valueError text) => (.error (.valueError text), t)
    | .error _ =>
      if selector = .index then
        match int configured with
        | none => (.ok (), t)
        | some idx => (.ok (), t.forceReleaseResolved ⟨idx, "index:" ++ toString idx⟩)
      else (.ok (), t)

end Claims

/-! ## Runs -/

/-- The claims of the process, with the leases handed out so far. -/
structure System where
  claims : Claims
  issued : List DeviceLease

/-- A call, with the enumeration it finds. -/
inductive Label
  | claimDevice (devices : Devices) (configured caller : String) (selector : DeviceSelector)
  | resolveDevice (devices : Devices) (configured caller : String) (selector : DeviceSelector)
  | refreshDeviceLease (devices : Devices) (lease : Option DeviceLease)
      (configured caller : String) (selector : DeviceSelector)
  | releaseDevice (devices : Devices) (configured caller : String) (selector : DeviceSelector)
  | releaseLease (lease : DeviceLease)
  /-- `reset_cache` and the clean-up at exit. -/
  | reset

/-- The state after a call that gives a lease or raises. -/
def System.handOut (s : System) (result : Except Error DeviceLease × Claims) : System :=
  match result with
  | (.error _, t) => { s with claims := t }
  | (.ok lease, t) => ⟨t, lease :: s.issued⟩

/-- The state after a call. -/
def System.next (s : System) : Label → System
  | .claimDevice devices configured caller selector =>
    s.handOut (s.claims.claimDevice int devices configured caller selector)
  | .resolveDevice devices configured caller selector =>
    { s with claims := (s.claims.resolveDevice int devices configured caller selector).2 }
  | .refreshDeviceLease devices lease configured caller selector =>
    s.handOut (s.claims.refreshDeviceLease int devices lease configured caller selector)
  | .releaseDevice devices configured caller selector =>
    { s with claims := (s.claims.releaseDevice int devices configured caller selector).2 }
  | .releaseLease lease => { s with claims := s.claims.releaseLease lease }
  | .reset => { s with claims := { s.claims with claimed := ∅, claimSelections := ∅ } }

/-- The call raises `e`. -/
def System.Raises (s : System) (e : Error) : Label → Prop
  | .claimDevice devices configured caller selector =>
    (s.claims.claimDevice int devices configured caller selector).1 = .error e
  | .resolveDevice devices configured caller selector =>
    (s.claims.resolveDevice int devices configured caller selector).1 = .error e
  | .refreshDeviceLease devices lease configured caller selector =>
    (s.claims.refreshDeviceLease int devices lease configured caller selector).1 = .error e
  | .releaseDevice devices configured caller selector =>
    (s.claims.releaseDevice int devices configured caller selector).1 = .error e
  | .releaseLease _ => False
  | .reset => False

/-- The runs: any calls in any order, from any callers, each with its own enumeration. -/
def system : Transition System Label where
  init s := s = ⟨.empty, []⟩
  step s a s' := s' = s.next int a

end ReticulumPi.Rtlsdr
