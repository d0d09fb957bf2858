import ReticulumPi.Sdr.Holder

/-!
# Winding down

What the scheduler's steps do once it no longer runs: none of them makes a
holder any more, since an acquisition whose callback has returned is discarded
(`Winds`). With it goes what is known of the leases in any case: a step of the
thread releases no lease but the one it has in its hands and one it is just
given, and the leases it keeps to grant or to drop are new (`Unwinds`,
`unwinds_finishClaim`).
-/

namespace ReticulumPi.Sdr

/-- The lease the thread has claimed, for which no callback has returned yet. -/
def ThreadPc.claimed : ThreadPc → Option Lease
  | .dropping lease => some lease
  | .granting _ lease => some lease
  | _ => none

namespace Scheduler

variable {s s' s'' : Scheduler} {L L' : ℕ → Prop} {ref : Ref} {d : Dongle} {caller : String}
  {now : Clock} {a : Acquisition} {lease : Lease}

/-- The step from `s` to `s'` leaves a stopped scheduler stopped, and makes no
    holder then; and it releases no leases but those of `L`. -/
structure Winds (L : ℕ → Prop) (s s' : Scheduler) : Prop where
  running : s.running = false → s'.running = false
  holder : s.running = false → ∀ k, s.holderAt k = none → s'.holderAt k = none
  next_le : s.nextLease ≤ s'.nextLease
  released : ∀ id ∈ s'.released, id ∈ s.released ∨ L id

theorem Winds.refl (s : Scheduler) : Winds L s s :=
  ⟨id, fun _ _ h => h, le_rfl, fun _ h => .inl h⟩

theorem Winds.trans (h : Winds L s s') (h' : Winds L s' s'') : Winds L s s'' where
  running hs := h'.running (h.running hs)
  holder hs k hk := h'.holder (h.running hs) k (h.holder hs k hk)
  next_le := h.next_le.trans h'.next_le
  released id hid := (h'.released id hid).elim (h.released id) .inr

theorem Winds.mono (h : Winds L s s') (hL : ∀ id, L id → L' id) : Winds L' s s' :=
  ⟨h.running, h.holder, h.next_le, fun id hid => (h.released id hid).imp_right (hL id)⟩

/-! ## Parts of a step -/

theorem winds_modifyDongle {f : Dongle → Dongle}
    (hf : s.running = false → ∀ d, s.dongle? ref = some d → d.currentHolder = none →
      (f d).currentHolder = none) :
    Winds L s (s.modifyDongle ref f) where
  running h := by rwa [modifyDongle_running]
  holder h k hk := by
    rcases hd : s.dongle? ref with _ | d
    · rwa [modifyDongle_none hd]
    · rw [holderAt_modifyDongle hd]
      split_ifs with heq
      · rw [heq, holderAt_eq (get?_of_dongle? hd)] at hk
        exact hf h d hd hk
      · exact hk
  next_le := (modifyDongle_nextLease f).ge
  released id hid := .inl (by rwa [modifyDongle_released] at hid)

theorem winds_modifySlot {rid : ℕ} {f : SignalSlot → SignalSlot} :
    Winds L s (s.modifySlot ref caller rid f) :=
  winds_modifyDongle fun _ _ _ h => Dongle.modifySlot_currentHolder.trans h

theorem winds_releaseLease {l : Option Lease} (hl : ∀ lease, l = some lease → L lease.id) :
    Winds L s (s.releaseLease l) := by
  rcases l with - | lease
  · exact .refl s
  · refine ⟨fun h => h, fun _ _ h => h, le_rfl, fun id hid => ?_⟩
    rcases List.mem_cons.1 hid with rfl | hid
    · exact .inr (hl lease rfl)
    · exact .inl hid

theorem winds_doYield (preemptedBy : String) : Winds L s (s.doYield ref caller preemptedBy).1 := by
  rw [doYield]
  split
  all_goals exact winds_modifyDongle fun _ _ _ _ => rfl

theorem winds_claimDevice (outcome : ClaimOutcome) : Winds L s (s.claimDevice outcome).1 := by
  cases outcome with
  | granted r => exact ⟨fun h => h, fun _ _ h => h, Nat.le_succ _, fun _ h => .inl h⟩
  | busy r | failed => exact .refl s

/-- The lease of a claim is the next one. -/
theorem claimDevice_lease {outcome : ClaimOutcome}
    (h : (s.claimDevice outcome).2 = some lease) : lease.id = s.nextLease := by
  cases outcome with
  | granted r =>
    cases h
    rfl
  | busy r => cases h
  | failed => cases h

theorem winds_ensureDongle (configured canonicalId : String) :
    Winds L s (s.ensureDongle configured canonicalId).1 := by
  rw [ensureDongle]
  split
  · exact .refl s
  · refine ⟨fun h => h, fun _ k hk => ?_, le_rfl, fun _ h => .inl h⟩
    simp only [holderAt, Dict.get?_set] at hk ⊢
    split_ifs
    · rfl
    · exact hk

theorem winds_pruneEmptyProvisional : Winds L s (s.pruneEmptyProvisional ref) := by
  rw [pruneEmptyProvisional]
  split
  · exact .refl s
  · split_ifs
    · exact .refl s
    all_goals
      refine ⟨fun h => h, fun _ k hk => ?_, le_rfl, fun _ h => .inl h⟩
      simp only [holderAt, Dict.get?_erase] at hk ⊢
      split_ifs
      · rfl
      · exact hk

theorem winds_moveSlot {target : Ref} {slot : SignalSlot} {canonicalId : String} :
    Winds L s (s.moveSlot ref target caller slot canonicalId) := by
  have hoff : Winds L s (s.modifyDongle ref (·.moveSlotOff caller)) :=
    winds_modifyDongle fun _ _ _ h => h
  have hon : Winds L s ((s.modifyDongle ref (·.moveSlotOff caller)).modifyDongle target
      (·.addSlot caller { slot with canonicalId := canonicalId, allocationGeneration := 0 })) :=
    hoff.trans (winds_modifyDongle fun _ d _ h => Dongle.placeSlot_currentHolder.trans h)
  exact ⟨hon.running, hon.holder, hon.next_le, hon.released⟩

theorem winds_reconcileIdleSlot (source : Ref) (caller : String) (rid : ℕ)
    (canonicalId : String) :
    Winds L s (s.reconcileIdleSlot source caller rid canonicalId).1 := by
  rw [reconcileIdleSlot]
  split
  · split_ifs
    · exact .refl s
    · exact winds_modifySlot
    · dsimp only
      split
      · exact winds_ensureDongle _ _
      · split_ifs
        · exact winds_ensureDongle _ _
        · exact ((winds_ensureDongle _ _).trans winds_moveSlot).trans winds_pruneEmptyProvisional
  · exact .refl s

/-! ## Turns of the thread -/

/-- A step of the thread from `s`, at the end of which it has nothing claimed. -/
def Unwinds (L : ℕ → Prop) (s : Scheduler) (r : Scheduler × ThreadPc) : Prop :=
  Winds L s r.1 ∧ r.2.claimed = none

theorem Winds.unwinds {r : Scheduler × ThreadPc} (h : Winds L s s') (hr : Unwinds L s' r) :
    Unwinds L s r :=
  ⟨h.trans hr.1, hr.2⟩

theorem unwinds_idle : Unwinds L s (s, .idle) := ⟨Winds.refl s, rfl⟩

theorem unwinds_doAcquire : Unwinds L s (s.doAcquire ref caller now) := by
  rw [doAcquire]
  split
  · split_ifs
    · exact unwinds_idle
    · exact unwinds_idle
    · exact ⟨winds_modifyDongle fun _ _ _ h => Dongle.modifySlot_currentHolder.trans h, rfl⟩
  · exact unwinds_idle

theorem unwinds_afterYield (next : AfterYield) : Unwinds L s (s.afterYield ref now next) := by
  cases next with
  | acquire caller => exact unwinds_doAcquire
  | pickBackground =>
    rw [afterYield]
    rcases hd : s.dongle? ref with _ | d
    · exact unwinds_idle
    have hs : Winds L s (s.modifyDongle ref fun _ => (d.pickBackground now.mono).1) :=
      winds_modifyDongle fun _ e he h => by
        obtain rfl : d = e := Option.some.inj (hd.symm.trans he)
        exact (Dongle.like_pickBackground _).holder.trans h
    dsimp only
    split
    · split_ifs
      · exact hs.unwinds unwinds_idle
      · exact hs.unwinds unwinds_doAcquire
    · exact hs.unwinds unwinds_idle

theorem unwinds_yieldThen {preemptedBy : String} {next : AfterYield} :
    Unwinds L s (s.yieldThen ref caller preemptedBy next now) := by
  have hs : Winds L s (s.doYield ref caller preemptedBy).1 := winds_doYield preemptedBy
  rw [yieldThen]
  split
  · rename_i s₁ l heq
    rw [heq] at hs
    exact ⟨hs, rfl⟩
  · rename_i s₁ heq
    rw [heq] at hs
    exact hs.unwinds (unwinds_afterYield next)

theorem unwinds_beginPreflight {current winner : String} {canPreempt : Bool} :
    Unwinds L s (s, (s.beginPreflight ref current winner canPreempt now).elim .idle .preflight) := by
  refine ⟨.refl s, ?_⟩
  cases s.beginPreflight ref current winner canPreempt now <;> rfl

theorem unwinds_evaluate (key : String) : Unwinds L s (s.evaluate key now) := by
  rw [evaluate]
  rcases hd : s.dongles.get? key with - | d
  · exact unwinds_idle
  dsimp only
  have hholder : ((d.expireWindows now.wall).pickWinner now).1.currentHolder = d.currentHolder :=
    ((Dongle.like_expireWindows _).trans (Dongle.like_pickWinner _)).holder
  generalize (d.expireWindows now.wall).pickWinner now = r at hholder ⊢
  obtain ⟨e, winner⟩ := r
  have hs : Winds L s (s.modifyDongle ⟨key, d.oid⟩ fun _ => e) :=
    winds_modifyDongle fun _ d' hd' h => by
      obtain rfl : d = d' := Option.some.inj ((dongle?_of_get? hd).symm.trans hd')
      exact hholder.trans h
  dsimp only
  split
  · exact hs.unwinds unwinds_idle
  · exact hs.unwinds unwinds_doAcquire
  · split_ifs
    · exact hs.unwinds unwinds_yieldThen
    · exact hs.unwinds unwinds_idle
  · split_ifs
    · exact hs.unwinds unwinds_idle
    · rw [contend]
      split_ifs
      · exact hs.unwinds unwinds_beginPreflight
      · exact hs.unwinds unwinds_beginPreflight
      · exact hs.unwinds unwinds_idle

theorem winds_preflightMismatch {p : Preflight} {l : Option Lease} (canonicalId : String)
    (hl : ∀ lease, l = some lease → L lease.id) :
    Winds L s (s.preflightMismatch p l canonicalId) := by
  have hs := winds_reconcileIdleSlot (L := L) (s := s) p.ref p.caller p.signature.registrationId
    canonicalId
  rw [preflightMismatch]
  generalize s.reconcileIdleSlot p.ref p.caller p.signature.registrationId canonicalId = r at hs ⊢
  split
  · exact hs
  all_goals exact (hs.trans winds_modifySlot).trans (winds_releaseLease hl)

/-- A preflight releases the lease it is given. -/
theorem winds_finishPreflight (p : Preflight) (outcome : ClaimOutcome) :
    Winds (· = s.nextLease) s (s.finishPreflight p outcome now).1 := by
  have hs := winds_claimDevice (L := (· = s.nextLease)) (s := s) outcome
  have hl : ∀ lease, (s.claimDevice outcome).2 = some lease → lease.id = s.nextLease :=
    fun _ => claimDevice_lease
  rw [finishPreflight]
  generalize s.claimDevice outcome = r at hs hl ⊢
  obtain ⟨s₁, l⟩ := r
  dsimp only at hs hl ⊢
  split_ifs
  · exact hs.trans (winds_releaseLease hl)
  · split
    · exact ((hs.trans winds_modifySlot).trans winds_modifySlot).trans (winds_releaseLease hl)
    · split_ifs
      · exact (hs.trans winds_modifySlot).trans (winds_preflightMismatch _ hl)
      · exact (hs.trans winds_modifySlot).trans (winds_releaseLease hl)

theorem winds_resetAllocation : Winds L s (s.resetAllocation ref a) := winds_modifySlot

theorem winds_deferAcquireRetry : Winds L s (s.modifyDongle ref (·.deferAcquireRetry a now)) :=
  winds_modifyDongle fun _ _ _ h => Dongle.modifySlot_currentHolder.trans h

theorem unwinds_acquireMismatch {l : Option Lease} (canonicalId : String)
    (hl : ∀ lease, l = some lease → L lease.id) :
    Unwinds L s (s.acquireMismatch a l canonicalId now) := by
  have hs := winds_reconcileIdleSlot (L := L) (s := s) a.ref a.caller a.registrationId canonicalId
  rw [acquireMismatch]
  generalize s.reconcileIdleSlot a.ref a.caller a.registrationId canonicalId = r at hs ⊢
  split
  · exact ⟨hs, rfl⟩
  · exact ⟨((hs.trans winds_modifySlot).trans winds_resetAllocation).trans (winds_releaseLease hl),
      rfl⟩
  · exact ⟨((hs.trans winds_deferAcquireRetry).trans winds_resetAllocation).trans
      (winds_releaseLease hl), rfl⟩

/-- After a claim, the thread has claimed no lease but the new one. -/
theorem unwinds_finishClaim (outcome : ClaimOutcome) :
    Winds (· = s.nextLease) s (s.finishClaim a outcome now).1 ∧
      ∀ lease, (s.finishClaim a outcome now).2.claimed = some lease → lease.id = s.nextLease := by
  have hs := winds_claimDevice (L := (· = s.nextLease)) (s := s) outcome
  have hl : ∀ lease, (s.claimDevice outcome).2 = some lease → lease.id = s.nextLease :=
    fun _ => claimDevice_lease
  rw [finishClaim]
  generalize s.claimDevice outcome = r at hs hl ⊢
  obtain ⟨s₁, l⟩ := r
  dsimp only at hs hl ⊢
  have hrec : Winds (· = s.nextLease) s (s₁.recordClaim a l) := hs.trans winds_modifySlot
  rw [settleClaim]
  split_ifs with hcur
  · cases l with
    | none => exact ⟨hrec.trans winds_resetAllocation, fun _ hlease => by cases hlease⟩
    | some lease =>
      refine ⟨hrec.trans winds_resetAllocation, fun lease' hlease => ?_⟩
      cases hlease
      exact hl lease rfl
  · dsimp only
    split
    · rename_i l' _ _ r _
      obtain ⟨hm, hnone⟩ : Unwinds (· = s.nextLease) (s₁.recordClaim a l')
        ((s₁.recordClaim a l').acquireMismatch a l' r.canonicalId now) :=
          unwinds_acquireMismatch r.canonicalId hl
      exact ⟨hrec.trans hm, fun lease hlease => by cases hnone.symm.trans hlease⟩
    · refine ⟨hrec, fun lease' hlease => ?_⟩
      cases hlease
      exact hl _ rfl
    · exact ⟨(hrec.trans winds_modifySlot).trans winds_deferAcquireRetry,
        fun _ hlease => by cases hlease⟩

/-- After its callback, an acquisition has released its lease only if the callback raised. -/
theorem unwinds_finishGrant (callbackOk : Bool) :
    Unwinds (fun id => callbackOk = false ∧ id = lease.id) s
      (s.finishGrant a lease callbackOk now) := by
  have hdiscard : ∀ s₁, Unwinds (fun id => callbackOk = false ∧ id = lease.id) s₁
      (s₁.discardSuccessfulAcquisition a lease) := fun s₁ => ⟨winds_modifySlot, rfl⟩
  rw [finishGrant]
  split_ifs with hok hrun
  · refine ⟨((winds_releaseLease fun lease' hlease => ?_).trans winds_resetAllocation).trans
      winds_deferAcquireRetry, rfl⟩
    cases hlease
    exact ⟨hok, rfl⟩
  · exact hdiscard s
  · split
    · split_ifs
      · exact hdiscard s
      · exact winds_modifySlot.unwinds (hdiscard _)
      · have hs : Winds (fun id => callbackOk = false ∧ id = lease.id) s
            (s.modifyDongle a.ref (·.grantSlot a lease now)) :=
          winds_modifyDongle fun h => absurd h hrun
        exact And.intro hs rfl
    · have hs : Winds (fun id => callbackOk = false ∧ id = lease.id) s
          (s.modifyDongle a.ref fun d => { d with
            relockAfter := if d.relockAfter = some a.caller then none else d.relockAfter }) :=
        winds_modifyDongle fun _ _ _ h => h
      exact hs.unwinds (hdiscard _)

/-- The leases that a turn of the thread may release: the one in its hands,
    unless `acquire_cb` has just returned, or one it is given. -/
def MayRelease (s : Scheduler) (pc : ThreadPc) (callbackOk : Bool) (id : ℕ) : Prop :=
  id = s.nextLease ∨ ∃ lease, pc.lease = some lease ∧ lease.id = id ∧
    ∀ a, pc = .granting a lease → callbackOk = false

/-- A turn of the thread leaves it nothing claimed but a new lease. -/
theorem unwinds_resumeThread (pc : ThreadPc) (outcome : ClaimOutcome) (callbackOk : Bool) :
    Winds (s.MayRelease pc callbackOk) s (s.resumeThread pc outcome callbackOk now).1 ∧
      ∀ lease, (s.resumeThread pc outcome callbackOk now).2.claimed = some lease →
        lease.id = s.nextLease := by
  have hnone : ∀ {r : Scheduler × ThreadPc}, Unwinds (s.MayRelease pc callbackOk) s r →
      Winds (s.MayRelease pc callbackOk) s r.1 ∧
        ∀ lease, r.2.claimed = some lease → lease.id = s.nextLease := fun h =>
    ⟨h.1, fun lease hlease => by cases h.2.symm.trans hlease⟩
  -- The lease in its hands, where it is not one whose callback has just returned.
  have hhand : ∀ l, pc.lease = l → (∀ a lease, pc ≠ .granting a lease) →
      ∀ lease, l = some lease → s.MayRelease pc callbackOk lease.id :=
    fun l hl hpc lease hlease =>
      .inr ⟨lease, hl.trans hlease, rfl, fun a ha => absurd ha (hpc a lease)⟩
  cases pc with
  | idle | publishing => exact hnone unwinds_idle
  | preflight p =>
    have hs : Winds (s.MayRelease (.preflight p) callbackOk) s
        (s.finishPreflight p outcome now).1 :=
      (winds_finishPreflight p outcome).mono fun _ => .inl
    rw [resumeThread]
    generalize s.finishPreflight p outcome now = r at hs ⊢
    dsimp only
    split_ifs
    · exact hnone (hs.unwinds unwinds_yieldThen)
    · exact hnone (hs.unwinds unwinds_idle)
  | yielding ref l next =>
    rw [resumeThread]
    exact hnone ((winds_releaseLease (hhand l rfl fun _ _ h => by cases h)).unwinds (unwinds_afterYield next))
  | claiming a =>
    have hs : Winds _ s (s.finishClaim a outcome now).1 ∧ _ := unwinds_finishClaim outcome
    exact ⟨hs.1.mono fun _ => .inl, hs.2⟩
  | dropping lease | discarding lease =>
    rw [resumeThread]
    exact hnone ((winds_releaseLease (hhand _ rfl fun _ _ h => by cases h)).unwinds unwinds_idle)
  | granting a lease =>
    have ht : Unwinds _ s (s.finishGrant a lease callbackOk now) := unwinds_finishGrant callbackOk
    refine hnone ⟨ht.1.mono fun id hend => ?_, ht.2⟩
    obtain ⟨hok, hid⟩ := hend
    exact .inr ⟨lease, rfl, hid.symm, fun _ _ => hok⟩

end Scheduler

end ReticulumPi.Sdr
