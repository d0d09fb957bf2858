import ReticulumPi.Sdr.Holder
import ReticulumPi.Sdr.Winner

/-!
# The end of a scheduled capture

One run of `_evaluate` without anything else going on, when the holder is a
scheduled slot with no window left: the dongle goes to the winner exactly when
nothing is due, or when the winner is critical and nothing stands in the way of
the handoff. A scheduled or background winner never gets it
(`expired_holder_gives_way_iff`).
-/

namespace ReticulumPi.Sdr

namespace Scheduler

variable {s s' : Scheduler} {ref : Ref} {key caller holder : String} {d e : Dongle} {now : Clock}
  {x : SignalSlot} {r : ResolvedDevice}

/-- The thread goes on, `claim_device` having answered with a lease for
    `device`, or the callback having returned. -/
def goOn (now : Clock) (device : ResolvedDevice) (r : Scheduler × ThreadPc) :
    Scheduler × ThreadPc :=
  r.1.resumeThread r.2 (.granted device) true now

/-- A run of `_evaluate` in which every claim and callback succeeds and nothing
    else runs: the first device is the one a preflight finds, the second the
    one that the claim to acquire does. -/
def evaluateAlone (s : Scheduler) (key : String) (now : Clock)
    (preflight acquire : ResolvedDevice) : Scheduler × ThreadPc :=
  (goOn now acquire)^[4] (goOn now preflight (s.evaluate key now))

/-- The run ends with the dongle held by the winner that `_pick_winner` chose,
    or by nobody when there is none, and in any case not by `holder`. -/
def GivesWay (s : Scheduler) (key : String) (d : Dongle) (holder : String) (now : Clock)
    (preflight acquire : ResolvedDevice) : Prop :=
  (s.evaluateAlone key now preflight acquire).2 = .idle ∧
    (s.evaluateAlone key now preflight acquire).1.holderAt key = d.winner now ∧
    d.winner now ≠ some holder
deriving Decidable

/-- Nothing stands in the way of a handoff to the caller's slot `x`: it is idle
    and registered for the dongle, neither its last preflight nor its last
    acquisition makes it wait, both claims find the device it is registered
    for, and the scheduler runs. -/
structure Ready (s : Scheduler) (ref : Ref) (d : Dongle) (caller : String) (x : SignalSlot)
    (now : Clock) (preflight acquire : ResolvedDevice) : Prop where
  inactive : x.isActive = false
  leaseless : x.deviceLease = none
  routed : s.routedTo x.serial caller ref = true
  not_deferred : ¬ (x.identityPreflightSignature =
      some ⟨d.generation, d.currentHolder, d.lockedBy, x.registrationId, true⟩ ∧
    now.mono - x.identityPreflightAt < sdrProbeRetryInterval ∧ x.identityPreflightDeferred = true)
  not_retrying : ¬ (x.acquireRetrySignature =
      some ⟨d.generation + 1, x.registrationId, x.canonicalId⟩ ∧
    now.mono - x.acquireRetryAt < sdrProbeRetryInterval)
  preflight : preflight.canonicalId = x.canonicalId
  acquire : acquire.canonicalId = x.canonicalId
  running : s.running = true

theorem goOn_idle : goOn now r (s, .idle) = (s, .idle) := rfl

theorem goOn_iterate_idle (n : ℕ) : (goOn now r)^[n] (s, .idle) = (s, .idle) :=
  Function.iterate_fixed goOn_idle n

/-! ## The holder, while identities are reconciled -/

theorem holderAt_modifyDongle_same {f : Dongle → Dongle}
    (hf : ∀ d, s.dongle? ref = some d → (f d).currentHolder = d.currentHolder) (k : String) :
    (s.modifyDongle ref f).holderAt k = s.holderAt k := by
  rcases hd : s.dongle? ref with _ | d
  · rw [modifyDongle_none hd]
  · rw [holderAt_modifyDongle hd]
    split_ifs with hk
    · rw [hf d hd, hk, holderAt_eq (get?_of_dongle? hd)]
    · rfl

theorem holderAt_modifySlot {rid : ℕ} {f : SignalSlot → SignalSlot} (k : String) :
    (s.modifySlot ref caller rid f).holderAt k = s.holderAt k :=
  holderAt_modifyDongle_same (fun _ _ => Dongle.modifySlot_currentHolder) k

theorem holderAt_releaseLease (l : Option Lease) (k : String) :
    (s.releaseLease l).holderAt k = s.holderAt k := by cases l <;> rfl

theorem routedTo_releaseLease (l : Option Lease) (serial c : String) (r : Ref) :
    (s.releaseLease l).routedTo serial c r = s.routedTo serial c r := by cases l <;> rfl

theorem holderAt_claimDevice (outcome : ClaimOutcome) (k : String) :
    (s.claimDevice outcome).1.holderAt k = s.holderAt k := by cases outcome <;> rfl

variable {canonicalId : String}

/-- The storage key made for an id is not that of a dongle with another id. -/
theorem newStorageKey_ne {configured : String} (hd : s.dongles.get? key = some d)
    (hne : d.canonicalId ≠ canonicalId) : s.newStorageKey configured canonicalId ≠ key := by
  rw [newStorageKey]
  split
  · rename_i existing he
    split_ifs with hid
    · intro hkey
      exact Dict.freeKey_not_mem (storageName_injective canonicalId)
        (Dict.mem_keys.2 ⟨d, by rw [hkey, hd]⟩)
    · rintro rfl
      rw [hd] at he
      exact hid (Option.some.inj he ▸ hne)
  · rename_i he
    rintro rfl
    rw [hd] at he
    cases he

theorem get?_ensureDongle_ne (configured : String) (hd : s.dongles.get? key = some d)
    (hne : d.canonicalId ≠ canonicalId) :
    (s.ensureDongle configured canonicalId).1.dongles.get? key = some d := by
  rw [ensureDongle]
  split
  · exact hd
  · exact (Dict.get?_set_of_ne (newStorageKey_ne hd hne).symm).trans hd

theorem holderAt_prune (k : String) :
    (s.pruneEmptyProvisional ref).holderAt k = s.holderAt k := by
  rw [pruneEmptyProvisional]
  rcases hd : s.dongle? ref with _ | d
  · rfl
  dsimp only
  by_cases hbusy : d.slots.entries.isEmpty = false ∨ d.bgOrder ≠ [] ∨ d.currentHolder ≠ none ∨
      d.lockedBy ≠ none ∨ d.relockAfter ≠ none ∨ d.canonicalId ∈ s.managedAliases.values ∨
      ref.key ∈ s.registrations.values
  · rw [if_pos hbusy]
  · rw [if_neg hbusy]
    push Not at hbusy
    -- Only a dongle without holder is dropped.
    simp only [holderAt, Dict.get?_erase]
    split_ifs with hk
    · rw [hk, get?_of_dongle? hd, Option.bind_none, Option.bind_some, hbusy.2.2.1]
    · rfl

theorem holderAt_moveSlot {source target : Ref} (k : String) :
    (s.moveSlot source target caller x canonicalId).holderAt k = s.holderAt k := by
  change ((s.modifyDongle source (·.moveSlotOff caller)).modifyDongle target
    (·.addSlot caller _)).holderAt k = _
  rw [holderAt_modifyDongle_same (f := (·.addSlot caller _))
      fun _ _ => Dongle.placeSlot_currentHolder,
    holderAt_modifyDongle_same (f := (·.moveSlotOff caller)) fun _ _ => rfl]

/-- Reconciling leaves the holder of the dongle it starts from alone. -/
theorem holderAt_reconcileIdleSlot (source : Ref) (caller : String) (rid : ℕ)
    (canonicalId : String) :
    (s.reconcileIdleSlot source caller rid canonicalId).1.holderAt source.key =
      s.holderAt source.key := by
  rw [reconcileIdleSlot]
  split
  · rename_i d slot hd hslot
    split_ifs with hbusy hsame
    · rfl
    · exact holderAt_modifySlot _
    · have hkeep := get?_ensureDongle_ne slot.serial (get?_of_dongle? hd) hsame
      generalize s.ensureDongle slot.serial canonicalId = q at hkeep ⊢
      obtain ⟨s₁, targetKey⟩ := q
      have hh : s₁.holderAt source.key = s.holderAt source.key :=
        (holderAt_eq hkeep).trans (holderAt_eq (get?_of_dongle? hd)).symm
      dsimp only
      split
      · exact hh
      · split_ifs
        · exact hh
        · dsimp only
          rw [holderAt_prune, holderAt_moveSlot, hh]
  · rfl

theorem holderAt_preflightMismatch (p : Preflight) (l : Option Lease) (canonicalId : String) :
    (s.preflightMismatch p l canonicalId).holderAt p.ref.key = s.holderAt p.ref.key := by
  have h := holderAt_reconcileIdleSlot (s := s) p.ref p.caller p.signature.registrationId canonicalId
  rw [preflightMismatch]
  generalize s.reconcileIdleSlot p.ref p.caller p.signature.registrationId canonicalId = q at h ⊢
  split
  · exact h
  all_goals
    rw [holderAt_releaseLease, setDeferred, holderAt_modifySlot]
    exact h

theorem holderAt_acquireMismatch (a : Acquisition) (l : Option Lease) (canonicalId : String)
    (now : Clock) :
    (s.acquireMismatch a l canonicalId now).1.holderAt a.ref.key = s.holderAt a.ref.key ∧
      (s.acquireMismatch a l canonicalId now).2 = .idle := by
  have h := holderAt_reconcileIdleSlot (s := s) a.ref a.caller a.registrationId canonicalId
  rw [acquireMismatch]
  generalize s.reconcileIdleSlot a.ref a.caller a.registrationId canonicalId = q at h ⊢
  split
  · exact ⟨h, rfl⟩
  · refine ⟨?_, rfl⟩
    rw [holderAt_releaseLease, resetAllocation, holderAt_modifySlot, holderAt_modifySlot]
    exact h
  · refine ⟨?_, rfl⟩
    rw [holderAt_releaseLease, resetAllocation, holderAt_modifySlot,
      holderAt_modifyDongle_same (f := (·.deferAcquireRetry a now))
        fun _ _ => Dongle.modifySlot_currentHolder]
    exact h

/-- A preflight leaves the holder alone, whatever it finds. -/
theorem holderAt_finishPreflight (p : Preflight) (outcome : ClaimOutcome) (now : Clock) :
    (s.finishPreflight p outcome now).1.holderAt p.ref.key = s.holderAt p.ref.key := by
  have hclaim := holderAt_claimDevice (s := s) outcome p.ref.key
  rw [finishPreflight]
  generalize s.claimDevice outcome = q at hclaim ⊢
  obtain ⟨s₁, l⟩ := q
  dsimp only at hclaim ⊢
  split_ifs
  · rw [holderAt_releaseLease, hclaim]
  · split
    · rw [holderAt_releaseLease, setDeferred, holderAt_modifySlot, holderAt_modifySlot, hclaim]
    · split_ifs
      · rw [holderAt_preflightMismatch, holderAt_modifySlot, hclaim]
      · rw [holderAt_releaseLease, holderAt_modifySlot, hclaim]

/-! ## The start of the evaluation -/

/-- The dongle once its windows have expired and a winner has been picked. -/
def expired (d : Dongle) (now : Clock) : Dongle := ((d.expireWindows now.wall).pickWinner now).1

theorem expired_change : (d.expireWindows now.wall).QueueChange (expired d now) :=
  Dongle.pickWinner_change now

theorem expired_slot (c : String) :
    (expired d now).slots.get? c = (d.slots.get? c).map (·.expireWindows now.wall) := by
  rw [expired_change.slots]
  exact Dongle.get?_expireWindows

/-- The scheduler with the dongle so far. -/
def started (s : Scheduler) (key : String) (d : Dongle) (now : Clock) : Scheduler :=
  s.modifyDongle ⟨key, d.oid⟩ fun _ => expired d now

theorem started_dongle? (hd : s.dongles.get? key = some d) :
    (s.started key d now).dongle? ⟨key, d.oid⟩ = some (expired d now) :=
  dongle?_modifyDongle (dongle?_of_get? hd) expired_change.oid

theorem started_holderAt (now : Clock) (hd : s.dongles.get? key = some d) :
    (s.started key d now).holderAt key = d.currentHolder :=
  (holderAt_eq (get?_of_dongle? (started_dongle? hd))).trans expired_change.holder

variable {winner : String}

theorem evaluate_of_holder (hd : s.dongles.get? key = some d) (hh : d.currentHolder = some holder)
    (hw : d.winner now = some winner) : s.evaluate key now =
      if winner = holder then (s.started key d now, .idle)
      else (s.started key d now).contend ⟨key, d.oid⟩ (expired d now) holder winner now := by
  have hh' : (expired d now).currentHolder = some holder := expired_change.holder.trans hh
  rw [Dongle.winner] at hw
  rw [evaluate, hd]
  dsimp only
  rw [hw, show ((d.expireWindows now.wall).pickWinner now).1 = expired d now from rfl, hh']
  rfl

theorem evaluate_of_none (hd : s.dongles.get? key = some d) (hh : d.currentHolder = some holder)
    (hx : d.slots.get? holder = some x) (hp : x.priority = .scheduled)
    (hw : d.winner now = none) : s.evaluate key now =
      (s.started key d now).yieldThen ⟨key, d.oid⟩ holder "" .pickBackground now := by
  have hh' : (expired d now).currentHolder = some holder := expired_change.holder.trans hh
  have hx' : ((expired d now).slots.get? holder).any (·.priority = .scheduled) = true := by
    rw [expired_slot, hx]
    simpa [SignalSlot.expireWindows] using hp
  rw [Dongle.winner] at hw
  rw [evaluate, hd]
  dsimp only
  rw [hw, show ((d.expireWindows now.wall).pickWinner now).1 = expired d now from rfl, hh']
  dsimp only
  rw [if_pos hx']
  rfl

/-! ## Nothing is due -/

/-- Yielding makes no background slot eligible. -/
theorem eligible_yieldSlot {c preemptedBy : String}
    (h : (d.yieldSlot caller preemptedBy).Eligible c) : d.Eligible c := by
  obtain ⟨hc, x, hx, hs⟩ := h
  refine ⟨by rwa [show (d.yieldSlot caller preemptedBy).bgOrder = d.bgOrder from
    Dongle.modifySlot_bgOrder] at hc, ?_⟩
  change (d.modifySlot caller _).slots.get? c = some x at hx
  rw [Dongle.get?_modifySlot] at hx
  split_ifs at hx with hcaller
  · obtain ⟨y, hy, rfl⟩ := Option.map_eq_some_iff.1 hx
    exact ⟨y, hcaller ▸ hy, hs⟩
  · exact ⟨x, hx, hs⟩

theorem eligible_expired {c : String} (h : (expired d now).Eligible c) : d.Eligible c := by
  obtain ⟨hc, x, hx, hs⟩ := h
  exact Dongle.eligible_expireWindows.1 ⟨expired_change.queue c hc, x,
    by rwa [← expired_change.slots], hs⟩

theorem doYield_slot {preemptedBy : String} (hd : s.dongle? ref = some d)
    (hx : d.slots.get? caller = some x) : s.doYield ref caller preemptedBy =
      (s.modifyDongle ref (·.yieldSlot caller preemptedBy), some x.deviceLease) := by
  have hs : s.slot? ref caller = some x := by rw [slot?, hd, Option.bind_some, hx]
  rw [doYield, hs]

variable {preflight acquire : ResolvedDevice}

/-- With nothing due, the holder whose window has ended yields, and nobody follows. -/
theorem givesWay_nothingDue (hd : s.dongles.get? key = some d) (hh : d.currentHolder = some holder)
    (hx : d.slots.get? holder = some x) (hp : x.priority = .scheduled)
    (hs : x.suspended = false) (hdue : d.NothingDue now.wall) :
    s.GivesWay key d holder now preflight acquire := by
  have hw : d.winner now = none := Dongle.winner_nothingDue hdue fun c hc hin => by
    obtain rfl := Option.some.inj (hh.symm.trans hc)
    exact hdue.background holder ⟨hin, x, hx, hs⟩
  have hslot : (expired d now).slots.get? holder = some (x.expireWindows now.wall) := by
    rw [expired_slot, hx]
    rfl
  have heval : s.evaluate key now = ((s.started key d now).modifyDongle ⟨key, d.oid⟩
      (·.yieldSlot holder ""), .yielding ⟨key, d.oid⟩ x.deviceLease .pickBackground) := by
    rw [evaluate_of_none hd hh hx hp hw, yieldThen, doYield_slot (started_dongle? hd) hslot]
    rfl
  set s₂ := (s.started key d now).modifyDongle ⟨key, d.oid⟩ (·.yieldSlot holder "") with hs₂
  have hdongle : s₂.dongle? ⟨key, d.oid⟩ = some ((expired d now).yieldSlot holder "") :=
    dongle?_modifyDongle (started_dongle? hd) Dongle.modifySlot_oid
  have hnone : (((expired d now).yieldSlot holder "").pickBackground now.mono).2 = none := by
    by_contra hne
    obtain ⟨c, hc⟩ := Option.ne_none_iff_exists'.1 hne
    rcases Dongle.pickBackground_some hc with ⟨hholder, -⟩ | hel
    · cases hholder
    · exact hdue.background c (eligible_expired (eligible_yieldSlot hel))
  -- The thread releases the lease, looks for a background slot and finds none.
  have hstep : goOn now preflight (s.evaluate key now) =
      ((s₂.releaseLease x.deviceLease).modifyDongle ⟨key, d.oid⟩
        fun _ => (((expired d now).yieldSlot holder "").pickBackground now.mono).1, .idle) := by
    have hdongle' : (s₂.releaseLease x.deviceLease).dongle? ⟨key, d.oid⟩ =
        some ((expired d now).yieldSlot holder "") := by
      rcases x.deviceLease with _ | lease <;> exact hdongle
    rw [heval, goOn, resumeThread, afterYield, hdongle']
    dsimp only
    rw [hnone]
  rw [GivesWay, evaluateAlone, hstep, goOn_iterate_idle, hw]
  refine ⟨rfl, ?_, by simp⟩
  have hchange := Dongle.pickBackground_change (d := (expired d now).yieldSlot holder "") now.mono
  rw [holderAt_modifyDongle_same fun e he => ?_, holderAt_releaseLease]
  · rw [holderAt_eq (get?_of_dongle? hdongle)]
    rfl
  · rw [hchange.holder]
    have he' : (s₂.releaseLease x.deviceLease).dongle? ⟨key, d.oid⟩ =
        some ((expired d now).yieldSlot holder "") := by
      rcases x.deviceLease with _ | lease <;> exact hdongle
    rw [Option.some.inj (he.symm.trans he')]

/-! ## A winner that may not preempt -/

theorem beginPreflight_eq_some {current : String} {canPreempt : Bool} {p : Preflight}
    (h : s.beginPreflight ref current caller canPreempt now = some p) :
    p.ref = ref ∧ p.caller = caller ∧ p.current = current ∧ p.signature.canPreempt = canPreempt := by
  rw [beginPreflight] at h
  split at h
  · split_ifs at h
    split at h
    · cases h
    · dsimp only at h
      split_ifs at h
      cases h
      exact ⟨rfl, rfl, rfl, rfl⟩
  · cases h

variable {y : SignalSlot}

/-- A scheduled holder only gives way to a critical slot. -/
theorem canPreempt_scheduled {override : Bool} {current : String}
    (hlock : d.lockedBy ≠ some current) (hx : d.slots.get? current = some x)
    (hp : x.priority = .scheduled) (hy : d.slots.get? winner = some y) :
    d.canPreempt override current winner = true ↔ y.priority = .critical := by
  rw [Dongle.canPreempt, if_neg hlock, hx, hy]
  cases hpy : y.priority <;> simp [hp, hpy, Priority.rank]

/-- A winner that is not critical leaves the dongle with its holder. -/
theorem not_givesWay_other (hd : s.dongles.get? key = some d) (hh : d.currentHolder = some holder)
    (hx : d.slots.get? holder = some x) (hp : x.priority = .scheduled)
    (hlock : d.lockedBy ≠ some holder) (hw : d.winner now = some winner)
    (hy : d.slots.get? winner = some y) (hpy : y.priority ≠ .critical) :
    ¬ s.GivesWay key d holder now preflight acquire := by
  rintro ⟨-, hheld, hne⟩
  rw [hw] at hheld hne
  have hneq : winner ≠ holder := fun h => hne (congrArg some h)
  have hx' : (expired d now).slots.get? holder = some (x.expireWindows now.wall) := by
    rw [expired_slot, hx]
    rfl
  have hy' : (expired d now).slots.get? winner = some (y.expireWindows now.wall) := by
    rw [expired_slot, hy]
    rfl
  have hlock' : (expired d now).lockedBy ≠ some holder := by
    rw [expired_change.lockedBy]
    exact hlock
  have hno : ¬ (expired d now).canPreempt (s.started key d now).weatherOverrideLock holder winner =
      true := fun h => hpy ((canPreempt_scheduled hlock' hx' hp hy').1 h)
  have hstart := (started_holderAt now hd).trans hh
  -- Whatever the preflight finds, the holder is as before.
  have hend : ∃ s', goOn now preflight (s.evaluate key now) = (s', .idle) ∧
      s'.holderAt key = some holder := by
    rw [evaluate_of_holder hd hh hw, if_neg hneq, contend, if_neg hno]
    split_ifs
    · rcases hb : (s.started key d now).beginPreflight ⟨key, d.oid⟩ holder winner false now with
        _ | p
      · exact ⟨_, rfl, hstart⟩
      · obtain ⟨href, -, -, hcan⟩ := beginPreflight_eq_some hb
        refine ⟨((s.started key d now).finishPreflight p (.granted preflight) now).1, ?_, ?_⟩
        · rw [Option.elim_some, goOn, resumeThread]
          dsimp only
          rw [if_neg (by simp [hcan])]
        · have := holderAt_finishPreflight (s := s.started key d now) p
            (.granted preflight) now
          rw [href] at this
          exact this.trans hstart
    · exact ⟨_, rfl, hstart⟩
  obtain ⟨s', hs', hh'⟩ := hend
  rw [evaluateAlone, hs', goOn_iterate_idle, hh'] at hheld
  exact hneq (Option.some.inj hheld).symm

/-! ## The handoff to a critical slot -/

/-- The dongle under `ref` is `D`, on which the caller has the slot `z`. -/
structure Tracks (s : Scheduler) (ref : Ref) (caller : String) (D : Dongle) (z : SignalSlot) :
    Prop where
  dongle : s.dongle? ref = some D
  slot : D.slots.get? caller = some z

section Tracks

variable {D : Dongle} {z z' : SignalSlot}

variable (h : s.Tracks ref caller D z)
include h

theorem Tracks.slot? : s.slot? ref caller = some z := by
  rw [Scheduler.slot?, h.dongle, Option.bind_some, h.slot]

theorem Tracks.slotIs? : s.slotIs? ref caller z.registrationId = some z := by
  rw [Scheduler.slotIs?, h.slot?]
  simp

theorem Tracks.modifyDongle {f : Dongle → Dongle}
    (ho : (f D).oid = D.oid) (hs : (f D).slots.get? caller = some z') :
    (s.modifyDongle ref f).Tracks ref caller (f D) z' :=
  ⟨dongle?_modifyDongle h.dongle ho, hs⟩

theorem Tracks.modifySlot (f : SignalSlot → SignalSlot) :
    (s.modifySlot ref caller z.registrationId f).Tracks ref caller
      (D.modifySlot caller fun slot =>
        if slot.registrationId = z.registrationId then f slot else slot) (f z) := by
  refine h.modifyDongle Dongle.modifySlot_oid ?_
  rw [Dongle.get?_modifySlot, if_pos rfl, h.slot, Option.map_some, if_pos rfl]

theorem Tracks.releaseLease (l : Option Lease) : (s.releaseLease l).Tracks ref caller D z := by
  cases l <;> exact ⟨h.dongle, h.slot⟩

theorem Tracks.holderAt : s.holderAt ref.key = D.currentHolder :=
  holderAt_eq (get?_of_dongle? h.dongle)

end Tracks

theorem routedTo_modifyDongle {f : Dongle → Dongle} (hf : ∀ d, (f d).oid = d.oid)
    (serial c : String) (r : Ref) :
    (s.modifyDongle ref f).routedTo serial c r = s.routedTo serial c r := by
  rcases hd : s.dongle? ref with _ | d
  · rw [modifyDongle_none hd]
  · rw [modifyDongle_some hd, routedTo, routedTo]
    congr 1
    funext k
    rw [Dict.get?_set]
    split_ifs with hk
    · rw [hk, get?_of_dongle? hd, Option.any_some, Option.any_some, hf]
    · rfl

theorem routedTo_modifySlot {rid : ℕ} {f : SignalSlot → SignalSlot} (serial c : String) (r : Ref) :
    (s.modifySlot ref caller rid f).routedTo serial c r = s.routedTo serial c r :=
  routedTo_modifyDongle (fun _ => Dongle.modifySlot_oid) serial c r

/-- The acquisition `a` of a slot registered for `canonicalId` is under way, on
    a dongle without holder, and nothing has come between. -/
def Allocated (s : Scheduler) (a : Acquisition) (canonicalId : String) : Prop :=
  ∃ D z, s.Tracks a.ref a.caller D z ∧ D.generation = a.generation ∧ D.currentHolder = none ∧
    z.registrationId = a.registrationId ∧ z.allocationGeneration = a.generation ∧
    z.releaseRequested = false ∧ z.canonicalId = canonicalId ∧
    s.routedTo a.serial a.caller a.ref = true

section Allocated

variable {a : Acquisition} {i : String} {D : Dongle} {z : SignalSlot} {lease : Lease}

theorem doAcquire_retrying (h : s.Tracks ref caller D z) (hs : z.suspended = false)
    (hr : z.acquireRetrySignature = some ⟨D.generation, z.registrationId, z.canonicalId⟩ ∧
      now.mono - z.acquireRetryAt < sdrProbeRetryInterval) :
    s.doAcquire ref caller now = (s, .idle) := by
  rw [doAcquire, h.dongle, h.slot?]
  dsimp only
  rw [if_neg (by simp [hs]), if_pos hr]

/-- An acquisition that is not put off starts an allocation. -/
theorem doAcquire_allocated (h : s.Tracks ref caller D z) (hs : z.suspended = false)
    (hh : D.currentHolder = none) (hrouted : s.routedTo z.serial caller ref = true)
    (hr : ¬ (z.acquireRetrySignature = some ⟨D.generation, z.registrationId, z.canonicalId⟩ ∧
      now.mono - z.acquireRetryAt < sdrProbeRetryInterval)) :
    ∃ s' a, s.doAcquire ref caller now = (s', .claiming a) ∧ a.ref = ref ∧ a.caller = caller ∧
      s'.Allocated a z.canonicalId ∧ s'.running = s.running := by
  refine ⟨s.modifyDongle ref (·.allocateSlot caller),
    ⟨ref, caller, z.serial, z.priority, z.registrationId, D.generation + 1⟩, ?_, rfl, rfl, ?_,
    modifyDongle_running _⟩
  · rw [doAcquire, h.dongle, h.slot?]
    dsimp only
    rw [if_neg (by simp [hs]), if_neg hr]
  · refine ⟨D.allocateSlot caller, { z with
      acquireRetrySignature := none
      releaseRequested := false
      allocationGeneration := D.generation + 1 }, h.modifyDongle Dongle.modifySlot_oid ?_, rfl,
      Dongle.modifySlot_currentHolder.trans hh, rfl, rfl, rfl, rfl, ?_⟩
    · change (D.modifySlot caller _).slots.get? caller = _
      rw [Dongle.get?_modifySlot, if_pos rfl, h.slot]
      rfl
    · exact (routedTo_modifyDongle (f := (·.allocateSlot caller))
        (fun _ => Dongle.modifySlot_oid) z.serial caller ref).trans hrouted

variable (h : s.Allocated a i)
include h

theorem Allocated.claimDevice : (s.claimDevice (.granted r)).1.Allocated a i := by
  obtain ⟨D, z, ht, h⟩ := h
  exact ⟨D, z, ⟨ht.dongle, ht.slot⟩, h⟩

/-- The claim notes its lease with the slot, and nothing else changes. -/
theorem Allocated.recordClaim (l : Option Lease) : (s.recordClaim a l).Allocated a i := by
  obtain ⟨D, z, ht, hg, hh, hrid, halloc, hrel, hi, hrouted⟩ := h
  have ht' := ht.modifySlot fun slot => { slot with lastClaim := l.or slot.lastClaim }
  rw [hrid] at ht'
  refine ⟨_, _, ht', Dongle.modifySlot_generation.trans hg,
    Dongle.modifySlot_currentHolder.trans hh, rfl, halloc, hrel, hi, ?_⟩
  · rw [Scheduler.recordClaim, routedTo_modifySlot]
    exact hrouted

theorem Allocated.current : s.acquireCurrent a = true := by
  obtain ⟨D, z, ht, -, -, hrid, halloc, -, -, hrouted⟩ := h
  rw [acquireCurrent, hrouted, ← hrid, ht.slotIs?]
  simpa using halloc

theorem Allocated.mismatch :
    (s.slotIs? a.ref a.caller a.registrationId).any (·.canonicalId ≠ r.canonicalId) = true ↔
      r.canonicalId ≠ i := by
  obtain ⟨D, z, ht, -, -, hrid, -, -, hi, -⟩ := h
  rw [← hrid, ht.slotIs?, Option.any_some, decide_eq_true_eq, hi]
  exact ne_comm

theorem Allocated.holderAt : s.holderAt a.ref.key = none := by
  obtain ⟨D, z, ht, -, hh, -⟩ := h
  exact ht.holderAt.trans hh

omit h

/-- The claim found the device the slot is registered for. -/
theorem finishClaim_granting (now : Clock) (h : s.Allocated a i) (hr : r.canonicalId = i) :
    ∃ s' lease, s.finishClaim a (.granted r) now = (s', .granting a lease) ∧
      s'.Allocated a i ∧ s'.running = s.running := by
  set s₁ := (s.claimDevice (.granted r)).1 with hs₁
  set lease : Lease := ⟨s.nextLease, r.index, r.canonicalId⟩
  have h₁ : s₁.Allocated a i := h.claimDevice
  have h₂ := h₁.recordClaim (some lease)
  refine ⟨s₁.recordClaim a (some lease), lease, ?_, h₂, modifyDongle_running _⟩
  have hno : ¬ ((s₁.recordClaim a (some lease)).slotIs? a.ref a.caller a.registrationId).any
      (·.canonicalId ≠ r.canonicalId) = true := fun hne => h₂.mismatch.1 hne hr
  change (s₁.recordClaim a (some lease)).settleClaim a (some r) (some lease) now = _
  rw [settleClaim, if_neg (by simp [h₂.current]), Option.filter_some, if_neg hno]

/-- The claim found another device than the slot is registered for. -/
theorem finishClaim_mismatch (now : Clock) (h : s.Allocated a i) (hr : r.canonicalId ≠ i) :
    ∃ s', s.finishClaim a (.granted r) now = (s', .idle) ∧ s'.holderAt a.ref.key = none := by
  set s₁ := (s.claimDevice (.granted r)).1 with hs₁
  set lease : Lease := ⟨s.nextLease, r.index, r.canonicalId⟩
  have h₁ : s₁.Allocated a i := h.claimDevice
  have h₂ := h₁.recordClaim (some lease)
  obtain ⟨hholder, hidle⟩ := holderAt_acquireMismatch (s := s₁.recordClaim a (some lease))
    a (some lease) r.canonicalId now
  refine ⟨_, ?_, hholder.trans h₂.holderAt⟩
  have hyes := h₂.mismatch.2 hr
  change (s₁.recordClaim a (some lease)).settleClaim a (some r) (some lease) now = _
  rw [settleClaim, if_neg (by simp [h₂.current]), Option.filter_some, if_pos hyes]
  exact Prod.ext rfl hidle

/-- The callback returned: the caller becomes the holder. -/
theorem finishGrant_publishing (now : Clock) (lease : Lease) (h : s.Allocated a i)
    (hrun : s.running = true) :
    ∃ s', s.finishGrant a lease true now = (s', .publishing) ∧
      s'.holderAt a.ref.key = some a.caller := by
  obtain ⟨D, z, ht, hg, hh, hrid, -, hrel, -, -⟩ := h
  refine ⟨s.modifyDongle a.ref (·.grantSlot a lease now), ?_, ?_⟩
  · rw [finishGrant, if_neg (by simp), if_neg (by simp [hrun]), ht.dongle, ht.slot?]
    dsimp only
    rw [if_neg (by simp [hrid, hg]), if_neg (by simp [hrel])]
  · rw [holderAt_modifyDongle ht.dongle, if_pos rfl, Dongle.grantSlot]
    dsimp only
    split_ifs <;> rfl

theorem finishGrant_stopped (now : Clock) (lease : Lease) (h : s.Allocated a i)
    (hrun : s.running = false) :
    ∃ s', s.finishGrant a lease true now = (s', .discarding lease) ∧
      s'.holderAt a.ref.key = none := by
  refine ⟨_, by rw [finishGrant, if_neg (by simp), if_pos hrun, discardSuccessfulAcquisition], ?_⟩
  rw [holderAt_modifySlot, h.holderAt]

end Allocated

/-- An acquisition that nothing else disturbs makes the caller the holder
    exactly when it is not put off, finds the device the slot is registered for,
    and the scheduler runs. -/
theorem acquireAlone_iff (now : Clock) (r : ResolvedDevice) {D : Dongle} {z : SignalSlot}
    (h : s.Tracks ref caller D z)
    (hs : z.suspended = false) (hh : D.currentHolder = none)
    (hrouted : s.routedTo z.serial caller ref = true) :
    (((goOn now r)^[3] (s.doAcquire ref caller now)).2 = .idle ∧
        ((goOn now r)^[3] (s.doAcquire ref caller now)).1.holderAt ref.key = some caller) ↔
      ¬ (z.acquireRetrySignature = some ⟨D.generation, z.registrationId, z.canonicalId⟩ ∧
          now.mono - z.acquireRetryAt < sdrProbeRetryInterval) ∧
        r.canonicalId = z.canonicalId ∧ s.running = true := by
  by_cases hretry : z.acquireRetrySignature =
      some ⟨D.generation, z.registrationId, z.canonicalId⟩ ∧
    now.mono - z.acquireRetryAt < sdrProbeRetryInterval
  · rw [doAcquire_retrying h hs hretry, goOn_iterate_idle, h.holderAt, hh]
    exact iff_of_false (fun hheld => by cases hheld.2) fun hready => hready.1 hretry
  obtain ⟨s₁, a, hacq, rfl, rfl, halloc, hrun⟩ := doAcquire_allocated h hs hh hrouted hretry
  rw [hacq, Function.iterate_succ_apply]
  by_cases hid : r.canonicalId = z.canonicalId
  swap
  · obtain ⟨s₂, hfin, hnone⟩ := finishClaim_mismatch now halloc hid
    rw [show goOn now r (s₁, .claiming a) = (s₂, .idle) from hfin, goOn_iterate_idle, hnone]
    exact iff_of_false (fun hheld => by cases hheld.2) fun hready => hid hready.2.1
  obtain ⟨s₂, lease, hfin, halloc₂, hrun₂⟩ := finishClaim_granting now halloc hid
  rw [show goOn now r (s₁, .claiming a) = (s₂, .granting a lease) from hfin,
    Function.iterate_succ_apply]
  cases hr : s.running with
  | true =>
    obtain ⟨s₃, hgrant, hheld⟩ := finishGrant_publishing now lease halloc₂
      (hrun₂.trans (hrun.trans hr))
    rw [show goOn now r (s₂, .granting a lease) = (s₃, .publishing) from hgrant,
      Function.iterate_one]
    exact iff_of_true ⟨rfl, hheld⟩ ⟨hretry, hid, rfl⟩
  | false =>
    obtain ⟨s₃, hgrant, hnone⟩ := finishGrant_stopped now lease halloc₂
      (hrun₂.trans (hrun.trans hr))
    rw [show goOn now r (s₂, .granting a lease) = (s₃, .discarding lease) from hgrant,
      Function.iterate_one]
    refine iff_of_false (fun hheld => ?_) fun hready => by simp at hready
    have hkeep : (s₃.releaseLease (some lease)).holderAt a.ref.key = some a.caller := hheld.2
    rw [holderAt_releaseLease, hnone] at hkeep
    cases hkeep

/-! ## The preflight of a critical slot -/

section Preflight

variable {D : Dongle} {z : SignalSlot} {p : Preflight}

/-- The last preflight of the slot was put off for what it would find again. -/
def Deferred (D : Dongle) (z : SignalSlot) (now : Clock) : Prop :=
  z.identityPreflightSignature =
      some ⟨D.generation, D.currentHolder, D.lockedBy, z.registrationId, true⟩ ∧
    now.mono - z.identityPreflightAt < sdrProbeRetryInterval ∧ z.identityPreflightDeferred = true

/-- A preflight starts exactly for an idle slot that is registered for the
    dongle and not put off. -/
theorem beginPreflight_iff (h : s.Tracks ref caller D z) (hs : z.suspended = false)
    (hh : D.currentHolder ≠ some caller) (current : String) (now : Clock) :
    (∃ p, s.beginPreflight ref current caller true now = some p) ↔
      z.isActive = false ∧ z.deviceLease = none ∧ s.routedTo z.serial caller ref = true ∧
        ¬ Deferred D z now := by
  rw [beginPreflight, h.dongle, h.slot?]
  dsimp only
  by_cases hbusy : z.suspended = true ∨ z.isActive = true ∨ z.deviceLease ≠ none ∨
      D.currentHolder = some caller
  · rw [if_pos hbusy]
    simp only [hs, hh, Bool.false_eq_true, false_or, or_false] at hbusy
    refine iff_of_false (not_exists.2 fun _ => Option.some_ne_none _ ∘ Eq.symm) ?_
    rintro ⟨ha, hl, -⟩
    rcases hbusy with ha' | hl'
    · rw [ha] at ha'
      cases ha'
    · exact hl' hl
  · rw [if_neg hbusy]
    push Not at hbusy
    rcases hk : s.registrations.get? (z.serial, caller) with _ | k
    · simp [routedTo, hk]
    · dsimp only
      rw [routedTo, hk, Option.any_some]
      split_ifs with hroute hdef
      · simp [hroute]
      · simpa [Deferred] using fun _ _ _ => hdef
      · simp only [hbusy.2.1, hbusy.2.2.1, Deferred]
        simp only [Bool.not_eq_false] at hroute
        simp [hroute] at hdef ⊢
        exact hdef

variable {current : String}

variable (h : s.Tracks ref caller D z)
include h

theorem beginPreflight_fields (hp : s.beginPreflight ref current caller true now = some p) :
    p.ref = ref ∧ p.caller = caller ∧ p.current = current ∧ p.serial = z.serial ∧
      s.registrations.get? (z.serial, caller) = some p.storageKey ∧
      (s.dongles.get? p.storageKey).any (·.oid = ref.oid) = true ∧
      p.signature = ⟨D.generation, D.currentHolder, D.lockedBy, z.registrationId, true⟩ := by
  rw [beginPreflight, h.dongle, h.slot?] at hp
  dsimp only at hp
  rcases hk : s.registrations.get? (z.serial, caller) with _ | k
  · simp [hk] at hp
  · rw [hk] at hp
    dsimp only at hp
    split_ifs at hp with _ hroute
    cases hp
    exact ⟨rfl, rfl, rfl, rfl, rfl, by simpa using hroute, rfl⟩

/-- While nothing else runs, a preflight finds that nothing has changed. -/
theorem preflightCurrent_begun (hp : s.beginPreflight ref current caller true now = some p)
    (hw : D.peekWinner now = some caller) :
    (s.claimDevice (.granted r)).1.preflightCurrent p now = true := by
  obtain ⟨href, hcaller, -, hserial, hroute, hoid, hsig⟩ := beginPreflight_fields h hp
  have hd : (s.claimDevice (.granted r)).1.dongle? p.ref = some D := by
    rw [href]
    exact h.dongle
  rw [preflightCurrent, hd, Option.any_some, hcaller, hserial, hsig, href, h.slot]
  simp [hw, hroute, hoid, claimDevice]

/-- A preflight that finds another device than is registered stops the pass. -/
theorem finishPreflight_mismatch (hp : s.beginPreflight ref current caller true now = some p)
    (hw : D.peekWinner now = some caller) (hr : r.canonicalId ≠ z.canonicalId) :
    ∃ s', s.finishPreflight p (.granted r) now = (s', false) ∧
      s'.holderAt ref.key = s.holderAt ref.key := by
  have hcur := preflightCurrent_begun (r := r) h hp hw
  obtain ⟨href, hcaller, -, -, -, -, hsig⟩ := beginPreflight_fields h hp
  have h₁ : (s.claimDevice (.granted r)).1.Tracks ref caller D z := ⟨h.dongle, h.slot⟩
  have hslot := (h₁.modifySlot fun slot =>
    { slot with
      identityPreflightAt := now.mono
      identityPreflightSignature := some p.signature
      identityPreflightDeferred := false }).slotIs?
  dsimp only at hslot
  have hstop : (s.finishPreflight p (.granted r) now).2 = false := by
    rw [finishPreflight]
    dsimp only [ClaimOutcome.resolved]
    rw [if_neg (by simp [hcur]), href, hcaller,
      show p.signature.registrationId = z.registrationId by rw [hsig], hslot, Option.any_some,
      if_pos (by simpa using hr.symm)]
  have hkeep := holderAt_finishPreflight (s := s) p (.granted r) now
  rw [href] at hkeep
  generalize s.finishPreflight p (.granted r) now = q at hstop hkeep
  exact ⟨q.1, Prod.ext rfl hstop, hkeep⟩

/-- A preflight that finds the registered device goes on, with only its own
    notes on the slot. -/
theorem finishPreflight_match (hp : s.beginPreflight ref current caller true now = some p)
    (hw : D.peekWinner now = some caller) (hr : r.canonicalId = z.canonicalId) :
    ∃ s' D' z', s.finishPreflight p (.granted r) now = (s', true) ∧ s'.Tracks ref caller D' z' ∧
      D'.generation = D.generation ∧
      (∀ c, c ≠ caller → D'.slots.get? c = D.slots.get? c) ∧
      z'.suspended = z.suspended ∧ z'.serial = z.serial ∧ z'.canonicalId = z.canonicalId ∧
      z'.registrationId = z.registrationId ∧
      z'.acquireRetrySignature = z.acquireRetrySignature ∧ z'.acquireRetryAt = z.acquireRetryAt ∧
      s'.running = s.running ∧ s'.routedTo z.serial caller ref = s.routedTo z.serial caller ref := by
  have hcur := preflightCurrent_begun (r := r) h hp hw
  obtain ⟨href, hcaller, -, -, -, -, hsig⟩ := beginPreflight_fields h hp
  have h₁ : (s.claimDevice (.granted r)).1.Tracks ref caller D z := ⟨h.dongle, h.slot⟩
  have h₂ := h₁.modifySlot fun slot =>
    { slot with
      identityPreflightAt := now.mono
      identityPreflightSignature := some p.signature
      identityPreflightDeferred := false }
  have hslot := h₂.slotIs?
  dsimp only at hslot
  refine ⟨_, _, _, ?_, h₂.releaseLease (some ⟨s.nextLease, r.index, r.canonicalId⟩),
    Dongle.modifySlot_generation, fun c hc => ?_, rfl, rfl, rfl, rfl, rfl, rfl, modifyDongle_running _,
    routedTo_modifySlot z.serial caller ref⟩
  · rw [finishPreflight]
    dsimp only [ClaimOutcome.resolved]
    rw [if_neg (by simp [hcur]), href, hcaller,
      show p.signature.registrationId = z.registrationId by rw [hsig], hslot, Option.any_some,
      if_neg (by simpa using hr.symm)]
    rfl
  · rw [Dongle.get?_modifySlot, if_neg hc]

end Preflight

/-! ## When the holder gives way -/

theorem get?_of_firstCritical (h : d.firstCritical = some (caller, y)) :
    d.slots.get? caller = some y ∧ y.suspended = false ∧ y.priority = .critical := by
  have hurgent := List.find?_some h
  exact ⟨Dict.get?_eq_some_iff.2 (List.mem_of_find?_eq_some h), SignalSlot.urgent_iff.1 hurgent⟩

theorem expired_peekWinner (h : d.firstCritical = some (caller, y)) :
    (expired d now).peekWinner now = some caller := by
  have hfirst : (expired d now).firstCritical = some (caller, y.expireWindows now.wall) := by
    rw [Dongle.firstCritical, expired_change.slots]
    change (d.expireWindows now.wall).firstCritical = _
    rw [Dongle.firstCritical_expireWindows, h]
    rfl
  rw [Dongle.peekWinner, Dongle.pickDue_critical hfirst]

/-- The dongle is handed to a critical slot exactly when nothing stands in the way. -/
theorem givesWay_critical_iff
    (hd : s.dongles.get? key = some d) (hh : d.currentHolder = some holder)
    (hx : d.slots.get? holder = some x) (hp : x.priority = .scheduled)
    (hlock : d.lockedBy ≠ some holder) (hfirst : d.firstCritical = some (winner, y)) :
    s.GivesWay key d holder now preflight acquire ↔
      s.Ready ⟨key, d.oid⟩ d winner y now preflight acquire := by
  obtain ⟨hy, hsusp, hcrit⟩ := get?_of_firstCritical hfirst
  have hw : d.winner now = some winner := Dongle.winner_critical hfirst
  have hneq : winner ≠ holder := by
    rintro rfl
    rw [hx] at hy
    cases hy
    rw [hp] at hcrit
    cases hcrit
  have hx' : (expired d now).slots.get? holder = some (x.expireWindows now.wall) := by
    rw [expired_slot, hx]
    rfl
  set z := y.expireWindows now.wall with hz
  have hslot : (expired d now).slots.get? winner = some z := by
    rw [expired_slot, hy]
    rfl
  have hlock' : (expired d now).lockedBy ≠ some holder := by
    rw [expired_change.lockedBy]
    exact hlock
  set ref : Ref := ⟨key, d.oid⟩ with href
  set s₀ := s.started key d now with hs₀
  have ht : s₀.Tracks ref winner (expired d now) z := ⟨started_dongle? hd, hslot⟩
  have hstart : s₀.holderAt key = some holder := (started_holderAt now hd).trans hh
  have hroute : s₀.routedTo z.serial winner ref = s.routedTo y.serial winner ref := by
    have hd' := dongle?_of_get? hd
    rw [hs₀, started, modifyDongle_some hd', routedTo, routedTo]
    congr 1
    funext k
    rw [Dict.get?_set]
    split_ifs with hk
    · rw [hk, hd, Option.any_some, Option.any_some]
      exact congrArg (fun o => decide (o = ref.oid)) expired_change.oid
    · rfl
  have hdef : Deferred (expired d now) z now ↔ (y.identityPreflightSignature =
      some ⟨d.generation, d.currentHolder, d.lockedBy, y.registrationId, true⟩ ∧
      now.mono - y.identityPreflightAt < sdrProbeRetryInterval ∧
      y.identityPreflightDeferred = true) := by
    rw [Deferred, expired_change.generation, expired_change.holder, expired_change.lockedBy]
    rfl
  have heval : s.evaluate key now =
      (s₀, (s₀.beginPreflight ref holder winner true now).elim .idle .preflight) := by
    rw [evaluate_of_holder hd hh hw, if_neg hneq, contend,
      if_pos ((canPreempt_scheduled hlock' hx' hp hslot).2 hcrit)]
  have hbegin := beginPreflight_iff ht hsusp
    (by rw [expired_change.holder]; exact fun h => hneq (Option.some.inj (h.symm.trans hh)))
    holder now
  rw [hroute, hdef] at hbegin
  -- A run that ends with another holder than the winner has not given way.
  have hfail : ∀ s' h', s.evaluateAlone key now preflight acquire = (s', .idle) →
      s'.holderAt key = h' → h' ≠ some winner →
      ¬ s.GivesWay key d holder now preflight acquire := by
    rintro s' h' hrun hh' hne ⟨-, hheld, -⟩
    rw [hrun, hw] at hheld
    exact hne (hh'.symm.trans hheld)
  rcases hpre : s₀.beginPreflight ref holder winner true now with _ | p
  · refine iff_of_false (hfail s₀ _ ?_ hstart fun h => hneq (Option.some.inj h).symm) ?_
    · rw [evaluateAlone, heval, hpre, Option.elim_none, goOn_idle, goOn_iterate_idle]
    · intro hready
      obtain ⟨p, hp'⟩ := hbegin.2
        ⟨hready.inactive, hready.leaseless, hready.routed, hready.not_deferred⟩
      rw [hpre] at hp'
      cases hp'
  obtain ⟨hinactive, hleaseless, hrouted, hnotdef⟩ := hbegin.1 ⟨p, hpre⟩
  obtain ⟨hpref, hpcaller, hpcurrent, -, -, -, hsig⟩ := beginPreflight_fields ht hpre
  have hpeek : (expired d now).peekWinner now = some winner := expired_peekWinner hfirst
  have hfirstStep : ∀ s' b, s₀.finishPreflight p (.granted preflight) now = (s', b) →
      goOn now preflight (s.evaluate key now) =
        if b = true then s'.yieldThen ref holder winner (.acquire winner) now else (s', .idle) := by
    intro s' b hfin
    rw [heval, hpre, Option.elim_some, goOn, resumeThread]
    dsimp only
    rw [hfin, hpref, hpcaller, hpcurrent, hsig]
    simp
  by_cases hpm : preflight.canonicalId = z.canonicalId
  swap
  · obtain ⟨s₁, hfin, hkeep⟩ := finishPreflight_mismatch ht hpre hpeek hpm
    refine iff_of_false (hfail s₁ _ ?_ (hkeep.trans hstart) fun h => hneq (Option.some.inj h).symm)
      fun hready => hpm hready.preflight
    rw [evaluateAlone, hfirstStep _ _ hfin, if_neg (by simp), goOn_iterate_idle]
  obtain ⟨s₁, D₁, z₁, hfin, ht₁, hgen₁, hothers, hsusp₁, hser₁, hcan₁, hrid₁, hsig₁, hat₁, hrun₁,
    hroute₁⟩ := finishPreflight_match ht hpre hpeek hpm
  -- The holder yields, and its lease is released.
  have hslot₁ : D₁.slots.get? holder = some (x.expireWindows now.wall) := by
    rw [hothers holder (Ne.symm hneq), hx']
  set s₂ := (s₁.modifyDongle ref (·.yieldSlot holder winner)).releaseLease x.deviceLease with hs₂
  have ht₂ : s₂.Tracks ref winner (D₁.yieldSlot holder winner) z₁ := by
    refine (ht₁.modifyDongle (f := (·.yieldSlot holder winner)) Dongle.modifySlot_oid ?_).releaseLease _
    change (D₁.modifySlot holder _).slots.get? winner = _
    rw [Dongle.get?_modifySlot, if_neg hneq, ht₁.slot]
  have hgen₂ : (D₁.yieldSlot holder winner).generation = d.generation + 1 := by
    change D₁.generation + 1 = _
    rw [hgen₁, expired_change.generation]
    rfl
  have hsecond : goOn now acquire (goOn now preflight (s.evaluate key now)) =
      s₂.doAcquire ref winner now := by
    rw [hfirstStep _ _ hfin, if_pos rfl, yieldThen, doYield_slot ht₁.dongle hslot₁]
    rfl
  have hiter : s.evaluateAlone key now preflight acquire =
      (goOn now acquire)^[3] (s₂.doAcquire ref winner now) := by
    rw [evaluateAlone, Function.iterate_succ_apply, hsecond]
  have hrouted₂ : s₂.routedTo z₁.serial winner ref = true := by
    have hyield : s₂.routedTo z₁.serial winner ref = s₁.routedTo z₁.serial winner ref := by
      rw [hs₂, routedTo_releaseLease, routedTo_modifyDongle (f := (·.yieldSlot holder winner))
        fun _ => Dongle.modifySlot_oid]
    rw [hyield, hser₁, hroute₁, hroute, hrouted]
  have hrun₂ : s₂.running = s.running := by
    rw [hs₂, releaseLease_running, modifyDongle_running, hrun₁, hs₀, started, modifyDongle_running]
  have hacq := acquireAlone_iff now acquire ht₂ (hsusp₁.trans hsusp) rfl hrouted₂
  rw [hgen₂, hsig₁, hrid₁, hcan₁, hat₁, hrun₂] at hacq
  rw [GivesWay, hiter, hw, ← and_assoc, and_iff_left fun h => hneq (Option.some.inj h), hacq]
  constructor
  · rintro ⟨hretry, hid, hrun⟩
    exact ⟨hinactive, hleaseless, hrouted, hnotdef, hretry, hpm, hid, hrun⟩
  · intro hready
    exact ⟨hready.not_retrying, hready.acquire, hready.running⟩

/-- A scheduled holder gives way exactly when nothing is due, or when a critical
    slot is and nothing stands in the way of the handoff to it. The tier of a
    scheduled or background winner is not above the holder's, so that such a
    winner waits for the holder to let go, whether or not its window has ended. -/
theorem expired_holder_gives_way_iff {s : Scheduler} {key holder : String} {d : Dongle}
    {x : SignalSlot} (now : Clock) (preflight acquire : ResolvedDevice)
    (hd : s.dongles.get? key = some d) (hh : d.currentHolder = some holder)
    (hx : d.slots.get? holder = some x) (hp : x.priority = .scheduled)
    (hs : x.suspended = false) (hlock : d.lockedBy ≠ some holder) :
    s.GivesWay key d holder now preflight acquire ↔
      d.NothingDue now.wall ∨ ∃ winner y, d.firstCritical = some (winner, y) ∧
        s.Ready ⟨key, d.oid⟩ d winner y now preflight acquire := by
  rcases hfirst : d.firstCritical with _ | ⟨winner, y⟩
  · by_cases hdue : d.NothingDue now.wall
    · exact iff_of_true (givesWay_nothingDue hd hh hx hp hs hdue) (.inl hdue)
    · refine iff_of_false ?_ (by simp [hdue])
      obtain ⟨c, hw, hsame | ⟨y, hy, hpy⟩⟩ := Dongle.winner_other hfirst hdue
      · -- The holder itself is chosen.
        obtain rfl := Option.some.inj (hh.symm.trans hsame)
        exact fun hgives => hgives.2.2 hw
      · exact not_givesWay_other hd hh hx hp hlock hw hy hpy
  · rw [givesWay_critical_iff hd hh hx hp hlock hfirst]
    refine ⟨fun hready => .inr ⟨winner, y, rfl, hready⟩, ?_⟩
    rintro (hdue | ⟨winner', y', heq, hready⟩)
    · exact absurd (hfirst.symm.trans hdue.critical) (by simp)
    · cases heq
      exact hready

end Scheduler

namespace System

/-- A capture of the first ten seconds. -/
def capture : RegisterArgs where
  serial := "A"
  caller := "p"
  priority := .scheduled
  windows := [⟨0, 10⟩]
  resolved := "serial:A"

/-- The capture registers, after the slots `others`, and is granted the dongle at five. -/
def captureRun (others : List RegisterArgs) : List Event :=
  others.map (.call 0 <| .register ·) ++
    [.call 0 (.register capture), .evaluate "A" ⟨5, 105⟩,
      .resumeThread (.granted ⟨0, "serial:A"⟩) true ⟨5, 105⟩,
      .resumeThread .failed true ⟨5, 105⟩, .resumeThread .failed true ⟨5, 105⟩]

/-- The capture holds the dongle `d`, unlocked, and its window has ended at eleven. -/
def CaptureEnded (d : Dongle) : Prop :=
  d.currentHolder = some "p" ∧ d.lockedBy ≠ some "p" ∧
    (d.slots.get? "p").any (fun x => x.priority = .scheduled ∧ x.suspended = false ∧
      ∀ w ∈ x.windows, ¬ w.Contains 11) = true
deriving Decidable

/-- Alone on its dongle, the capture gives way to nobody when its window has ended. -/
theorem expired_holder_gives_way_alone : ∃ s : System,
    (transition [{ serial := "A" }] true).Reachable s ∧ ∃ d, CaptureEnded d ∧
      s.scheduler.GivesWay "A" d "p" ⟨11, 111⟩ ⟨0, "serial:A"⟩ ⟨0, "serial:A"⟩ := by
  obtain ⟨s, hs, d, hd, hcap, hfirst, hbg, hall⟩ : ∃ s ∈ (captureRun []).foldlM next oneDongle,
      ∃ d ∈ s.scheduler.dongles.get? "A", CaptureEnded d ∧ d.firstCritical.isNone = true ∧
        d.bgOrder = [] ∧ d.slots.entries.all (fun e => e.2.windows.all (·.endTs ≤ 11)) := by
    decide +kernel
  obtain ⟨x, hx, hx'⟩ := (Option.any_eq_true _ _).1 hcap.2.2
  obtain ⟨hp, hsusp, -⟩ := of_decide_eq_true hx'
  refine ⟨s, .foldlM (.init rfl) hs, d, hcap,
    (Scheduler.expired_holder_gives_way_iff ⟨11, 111⟩ ⟨0, "serial:A"⟩ ⟨0, "serial:A"⟩ hd hcap.1 hx
      hp hsusp hcap.2.1).2 (.inl ⟨Option.isNone_iff_eq_none.1 hfirst, ?_, ?_⟩)⟩
  · intro c y hy _ _ w hw hnow
    have := List.all_eq_true.1 (List.all_eq_true.1 hall _ (Dict.get?_eq_some_iff.1 hy)) w hw
    exact absurd hnow.2 (not_lt.2 (of_decide_eq_true this))
  · rintro c ⟨hc, -⟩
    rw [hbg] at hc
    cases hc

/-- A background receiver that is waiting keeps the capture on the dongle. -/
theorem expired_holder_stays : ∃ s : System,
    (transition [{ serial := "A" }] true).Reachable s ∧ s.Quiescent ∧ ∃ d,
      s.scheduler.dongles.get? "A" = some d ∧ CaptureEnded d ∧
      d.winner ⟨11, 111⟩ = some "c" ∧
      ¬ s.scheduler.GivesWay "A" d "p" ⟨11, 111⟩ ⟨0, "serial:A"⟩ ⟨0, "serial:A"⟩ := by
  obtain ⟨s, hs, hidle, hcalls, d, hd, hend⟩ : ∃ s ∈ (captureRun [receiver]).foldlM next oneDongle,
      s.thread = .idle ∧ s.calls.entries.isEmpty = true ∧
        ∃ d ∈ s.scheduler.dongles.get? "A", CaptureEnded d ∧
          d.winner ⟨11, 111⟩ = some "c" ∧
          ¬ s.scheduler.GivesWay "A" d "p" ⟨11, 111⟩ ⟨0, "serial:A"⟩ ⟨0, "serial:A"⟩ := by
    decide +kernel
  exact ⟨s, .foldlM (.init rfl) hs,
    ⟨hidle, List.isEmpty_iff.1 hcalls⟩, d, hd, hend⟩

end System

end ReticulumPi.Sdr
