import Mathlib.Data.List.Sort
import Mathlib.Algebra.Order.Field.Rat
import ReticulumPi.Lib.Dict

/-!
# A shared dongle

The state the time-sharing scheduler keeps for one RTL-SDR dongle, and the
decisions it takes from that state alone: which windows have expired, which
slot is eligible, which background slot is next, and whether a winner may take
the dongle from its holder.

Priority tiers: P0 (critical) are safety-of-life signals, P1 (scheduled)
time-bounded captures, P2 (background) continuous decoders.
-/

namespace ReticulumPi.Sdr

/-- The priority tier of a slot. -/
inductive Priority where
  | critical
  | scheduled
  | background
deriving DecidableEq

/-- `PRIORITY_CRITICAL`, `PRIORITY_SCHEDULED`, `PRIORITY_BACKGROUND`: lower is more urgent. -/
def Priority.rank : Priority → ℕ
  | critical => 0
  | scheduled => 1
  | background => 2

/-- How the configured name selects a device. -/
inductive DeviceSelector where
  | auto
  | serial
  | index
deriving DecidableEq

/-- The time of a step: `time.time()` and `time.monotonic()`. -/
structure Clock where
  wall : ℚ
  mono : ℚ
deriving DecidableEq

/-- A scheduled time range for a signal plugin. -/
structure TimeWindow where
  startTs : ℚ
  endTs : ℚ
deriving DecidableEq

/-- The wall time `now` lies in the window, both ends included. -/
def TimeWindow.Contains (w : TimeWindow) (now : ℚ) : Prop := w.startTs ≤ now ∧ now ≤ w.endTs
deriving Decidable

/-- What `claim_device` hands out for one successful claim; leases are numbered
    in the order in which they are returned. -/
structure Lease where
  id : ℕ
  index : ℕ
  canonicalId : String
deriving DecidableEq

/-- What a preflight resolution depended on. -/
structure PreflightSignature where
  generation : ℕ
  currentHolder : Option String
  lockedBy : Option String
  registrationId : ℕ
  canPreempt : Bool
deriving DecidableEq

/-- What a failed acquisition depended on. -/
structure RetrySignature where
  generation : ℕ
  registrationId : ℕ
  canonicalId : String
deriving DecidableEq

/-- Registration record for one signal plugin on one dongle. `lastClaim` is not
    a field of the source: it records the lease of the last claim made to
    acquire the dongle for this slot. -/
structure SignalSlot where
  serial : String
  priority : Priority
  deviceSelector : DeviceSelector := .auto
  canonicalId : String := ""
  continuous : Bool := false
  windows : List TimeWindow := []
  isActive : Bool := false
  deviceLease : Option Lease := none
  releaseRequested : Bool := false
  suspended : Bool := false
  registrationId : ℕ := 0
  allocationGeneration : ℕ := 0
  identityPreflightAt : ℚ := 0
  identityPreflightSignature : Option PreflightSignature := none
  identityPreflightDeferred : Bool := false
  acquireRetryAt : ℚ := 0
  acquireRetrySignature : Option RetrySignature := none
  lastClaim : Option Lease := none
  /-- `register` refuses a critical slot that is not continuous. -/
  critical_continuous : priority = .critical → continuous = true

/-- The windows that have ended are dropped. -/
def SignalSlot.expireWindows (slot : SignalSlot) (now : ℚ) : SignalSlot :=
  { slot with windows := slot.windows.filter (now < ·.endTs) }

/-- Per-dongle scheduler state. `oid` tells apart the state objects that one
    storage key names at different times. -/
structure Dongle where
  oid : ℕ
  serial : String
  canonicalId : String
  currentHolder : Option String := none
  lockedBy : Option String := none
  relockAfter : Option String := none
  slots : Dict String SignalSlot := ∅
  bgOrder : List String := []
  bgIndex : ℕ := 0
  bgLastRotation : ℚ := 0
  bgSliceSeconds : ℚ := 120
  generation : ℕ := 0
  bg_nodup : bgOrder.Nodup := by exact List.nodup_nil
  bg_slots : ∀ c ∈ bgOrder, c ∈ slots.keys := by exact fun _ h => nomatch h

namespace Dongle

/-! ## The slots of a dongle -/

variable (d : Dongle) (caller : String)

/-- `dongle.slots[caller] = slot` -/
def putSlot (slot : SignalSlot) : Dongle :=
  { d with
    slots := d.slots.set caller slot
    bg_slots := fun c hc => Dict.mem_keys_set.2 (.inr (d.bg_slots c hc)) }

/-- A slot object is changed where it is, if the caller still has one. -/
def modifySlot (f : SignalSlot → SignalSlot) : Dongle :=
  match d.slots.get? caller with
  | some slot => d.putSlot caller (f slot)
  | none => d

/-- The slot is stored, and a continuous background slot queued if it is not yet. -/
def placeSlot (slot : SignalSlot) : Dongle :=
  let d' := d.putSlot caller slot
  if h : slot.priority = .background ∧ slot.continuous = true ∧ caller ∉ d'.bgOrder then
    { d' with
      bgOrder := d'.bgOrder ++ [caller]
      bg_nodup := List.nodup_append.2 ⟨d'.bg_nodup, List.nodup_singleton _, fun a ha b hb hab =>
        h.2.2 (List.mem_singleton.1 hb ▸ hab ▸ ha)⟩
      bg_slots := fun c hc => by
        rcases List.mem_append.1 hc with hc | hc
        · exact d'.bg_slots c hc
        · exact Dict.mem_keys_set.2 (.inl (List.mem_singleton.1 hc)) }
  else d'

/-- The slot is popped and its caller leaves the background queue. -/
def dropSlot : Dongle :=
  { d with
    slots := d.slots.erase caller
    bgOrder := d.bgOrder.erase caller
    bg_nodup := d.bg_nodup.erase caller
    bg_slots := fun c hc => by
      obtain ⟨hne, hc⟩ := d.bg_nodup.mem_erase_iff.1 hc
      exact Dict.mem_keys_erase.2 ⟨hne, d.bg_slots c hc⟩ }

/-- `bg.pop(idx)`, and the position adjusted so that the element that slides
    into the gap is not skipped. -/
def popBackground (idx : ℕ) : Dongle :=
  { d with
    bgOrder := d.bgOrder.eraseIdx idx
    bgIndex := if d.bgOrder.eraseIdx idx ≠ [] ∧ idx < d.bgIndex then d.bgIndex - 1 else d.bgIndex
    bg_nodup := d.bg_nodup.sublist (List.eraseIdx_sublist _ _)
    bg_slots := fun c hc => d.bg_slots c ((List.eraseIdx_sublist _ _).mem hc) }

/-- `_expire_windows` -/
def expireWindows (d : Dongle) (now : ℚ) : Dongle :=
  { d with
    slots := d.slots.map (·.expireWindows now)
    bg_slots := fun c hc => by
      rw [Dict.keys_map]
      exact d.bg_slots c hc }

/-- `_advance_bg_index` -/
def advanceBgIndex : Dongle :=
  if d.bgOrder = [] then d
  else { d with bgIndex := (d.bgIndex + 1) % d.bgOrder.length }

/-! ## Choosing a winner -/

/-- The holder is a background slot whose slice has not run out. -/
def inSlice (now : ℚ) : Option String :=
  match d.currentHolder with
  | some holder =>
    if holder ∈ d.bgOrder ∧ now - d.bgLastRotation < d.bgSliceSeconds then some holder else none
  | none => none

/-- `dongle.current_holder in bg` -/
def holderInBackground : Bool := d.currentHolder.any (· ∈ d.bgOrder)

/-- The loop of `_pick_background`: at most `n` positions are tried. -/
def scanBackground : ℕ → Dongle → Dongle × Option String
  | 0, d => (d, none)
  | n + 1, d =>
    let idx := d.bgIndex % d.bgOrder.length
    match d.bgOrder[idx]? with
    | none => (d, none)
    | some candidate =>
      match d.slots.get? candidate with
      | some slot =>
        if slot.suspended then scanBackground n { d with bgIndex := d.bgIndex + 1 }
        else (d, some candidate)
      | none => scanBackground n (d.popBackground idx)

/-- `_pick_background`: the holder while its slice lasts, else the next
    background slot that is not suspended. -/
def pickBackground (now : ℚ) : Dongle × Option String :=
  match d.inSlice now with
  | some holder => (d, some holder)
  | none =>
    scanBackground d.bgOrder.length
      (if d.holderInBackground then { d with bgIndex := d.bgIndex + 1 } else d)

/-- The loop of `_peek_background` from the position `index` on. -/
def peekFrom (d : Dongle) : ℕ → ℕ → Option String
  | 0, _ => none
  | n + 1, index =>
    match d.bgOrder[index % d.bgOrder.length]? with
    | none => none
    | some candidate =>
      match d.slots.get? candidate with
      | some slot => if slot.suspended then peekFrom d n (index + 1) else some candidate
      | none => peekFrom d n (index + 1)

/-- `_peek_background`: the already-selected background position, without rotating it. -/
def peekBackground (now : ℚ) : Option String :=
  match d.inSlice now with
  | some holder => some holder
  | none => d.peekFrom d.bgOrder.length d.bgIndex

/-- One turn of the loop of `_pick_winner`, on the best caller and priority so far. -/
def consider (now : ℚ) (best : Option String × ℕ) (entry : String × SignalSlot) :
    Option String × ℕ :=
  let slot := entry.2
  if slot.suspended then best
  else if slot.priority = .critical ∧ slot.continuous = true then
    if slot.priority.rank < best.2 then (some entry.1, slot.priority.rank) else best
  else if slot.priority = .scheduled then
    if slot.windows.any (·.Contains now) ∧ slot.priority.rank < best.2 then
      (some entry.1, slot.priority.rank)
    else best
  else best

/-- The critical or scheduled slot that is due. -/
def pickDue (now : ℚ) : Option String :=
  (d.slots.entries.foldl (consider now) (none, 999)).1

/-- `_pick_winner` with `mutate_background=True` -/
def pickWinner (now : Clock) : Dongle × Option String :=
  match d.pickDue now.wall with
  | some best => (d, some best)
  | none => d.pickBackground now.mono

/-- `_pick_winner` with `mutate_background=False` -/
def peekWinner (now : Clock) : Option String :=
  match d.pickDue now.wall with
  | some best => some best
  | none => d.peekBackground now.mono

/-- `_can_preempt`: `override` is the option `weather_alerts_override_lock`. -/
def canPreempt (override : Bool) (current winner : String) : Bool :=
  if d.lockedBy = some current then
    (d.slots.get? winner).any (·.priority = .critical) && override
  else
    match d.slots.get? current, d.slots.get? winner with
    | some currentSlot, some winnerSlot =>
      if winnerSlot.priority = .background ∧ currentSlot.priority = .background then true
      else winnerSlot.priority.rank < currentSlot.priority.rank
    | _, _ => true

end Dongle

end ReticulumPi.Sdr
