import ReticulumPi.Sdr.Leases

/-!
# The holder of a dongle and its lease

The scheduler thread keeps the grips and the leases in order at each of its
steps, whatever calls ran while it waited: the dongle it is about to grant has
no holder until then (`Phase`). So along every run no step of which removes or
replaces an active slot, once nobody is in the middle of an operation the
holder of a dongle is its active slot, with the lease of its last claim, and
every other lease has been released (`holder_invariant`).
-/

namespace ReticulumPi.Sdr

namespace Scheduler

variable {s s' : Scheduler} {hands : Actor → Option Lease} {ref : Ref} {caller : String}
  {d : Dongle} {now : Clock} {a : Acquisition} {lease : Lease}

/-! ## The scheduler thread -/

/-- What the thread relies on when it goes on: the dongle it wants to grant has
    no holder, and the slot it has claimed a lease for still has that claim. -/
def Phase (s : Scheduler) : ThreadPc → Prop
  | .preflight p => p.signature.currentHolder = some p.current
  | .yielding ref _ _ => s.holderAt ref.key = none
  | .claiming a => s.holderAt a.ref.key = none ∧ a.registrationId ≤ s.nextRegistrationId
  | .granting a lease => s.holderAt a.ref.key = none ∧
      a.registrationId ≤ s.nextRegistrationId ∧
      ∀ x, s.slotAt a.ref.key a.caller = some x → x.registrationId = a.registrationId →
        x.lastClaim = some lease
  | _ => True

/-- What calls do does not disturb the thread. -/
theorem Phase.recedes {pc : ThreadPc} (h : s.Phase pc) (hr : s.Recedes s') : s'.Phase pc := by
  cases pc with
  | preflight p => exact h
  | yielding ref l next => exact hr.holder _ h
  | claiming a => exact ⟨hr.holder _ h.1, h.2.trans hr.next_le⟩
  | granting a lease =>
    obtain ⟨hh, hle, hclaim⟩ := h
    refine ⟨hr.holder _ hh, hle.trans hr.next_le, fun x hx hrid => ?_⟩
    rcases hr.origin _ _ x hx with ⟨x', hx', hrid', hl⟩ | hlt
    · rw [← hl]
      exact hclaim x' hx' (hrid'.trans hrid)
    · -- A new registration has another number.
      omega
  | _ => trivial

/-- A step of the thread from `s` ends well. -/
def Ends (hands : Actor → Option Lease) (r : Scheduler × ThreadPc) : Prop :=
  r.1.Good (Function.update hands .thread r.2.lease) ∧ r.1.Phase r.2

theorem ends_idle (h : s.Good (Function.update hands .thread none)) : Ends hands (s, .idle) :=
  ⟨h, trivial⟩

theorem holderAt_of_dongle? (hd : s.dongle? ref = some d) : s.holderAt ref.key = d.currentHolder :=
  holderAt_eq (get?_of_dongle? hd)

theorem ends_doAcquire (h : s.Good (Function.update hands .thread none))
    (hh : s.holderAt ref.key = none) : Ends hands (s.doAcquire ref caller now) := by
  rw [doAcquire]
  split
  · rename_i d slot hd hslot
    split_ifs
    · exact ends_idle h
    · exact ends_idle h
    · have hs : s.Steady (s.modifyDongle ref (·.allocateSlot caller)) :=
        steady_modifyDongle fun d _ =>
          (Dongle.like_modifySlot (f := fun slot =>
            { slot with
              acquireRetrySignature := none
              releaseRequested := false
              allocationGeneration := d.generation + 1 }) (fun _ => rfl) fun _ =>
            ⟨rfl, rfl⟩).trans (.of_eq rfl rfl rfl rfl)
      refine ⟨h.steady hs, (hs.holder _).trans hh, ?_⟩
      rw [modifyDongle_nextRegistrationId]
      refine h.tables.registered ref.key caller slot ?_
      rw [← slotAt_of_dongle? hd]
      rwa [slot?, hd] at hslot
  · exact ends_idle h

theorem ends_afterYield (h : s.Good (Function.update hands .thread none))
    (hh : s.holderAt ref.key = none) (next : AfterYield) :
    Ends hands (s.afterYield ref now next) := by
  cases next with
  | acquire caller => exact ends_doAcquire h hh
  | pickBackground =>
    rw [afterYield]
    rcases hd : s.dongle? ref with _ | d
    · exact ends_idle h
    have hs : s.Steady (s.modifyDongle ref fun _ => (d.pickBackground now.mono).1) :=
      steady_modifyDongle fun e he => by
        obtain rfl : d = e := Option.some.inj (hd.symm.trans he)
        exact Dongle.like_pickBackground _
    dsimp only
    split
    · split_ifs
      · exact ends_idle (h.steady hs)
      · exact ends_doAcquire (h.steady hs) ((hs.holder _).trans hh)
    · exact ends_idle (h.steady hs)

theorem ends_yieldThen (h : s.Good (Function.update hands .thread none))
    (hd : s.dongle? ref = some d) (hh : d.currentHolder = some caller) (preemptedBy : String)
    (next : AfterYield) : Ends hands (s.yieldThen ref caller preemptedBy next now) := by
  obtain ⟨s', lease, heq, ht, -⟩ := doYield_holder h hd hh preemptedBy
  rw [yieldThen, heq]
  refine ⟨h.takes ht, ?_⟩
  rw [Phase, ht.holder_after, if_pos rfl]

theorem ends_beginPreflight (h : s.Good (Function.update hands .thread none))
    (hd : s.dongle? ref = some d) {current : String} (hh : d.currentHolder = some current)
    (winner : String) (canPreempt : Bool) :
    Ends hands (s, (s.beginPreflight ref current winner canPreempt now).elim .idle .preflight) := by
  rcases hp : s.beginPreflight ref current winner canPreempt now with _ | p
  · exact ends_idle h
  refine ⟨h, ?_⟩
  rw [beginPreflight, hd] at hp
  split at hp
  · rename_i e slot he hslot
    cases he
    split_ifs at hp
    split at hp
    · cases hp
    · dsimp only at hp
      split_ifs at hp
      cases hp
      exact hh
  · cases hp

theorem ends_contend (h : s.Good (Function.update hands .thread none))
    (hd : s.dongle? ref = some d) {current : String} (hh : d.currentHolder = some current)
    (winner : String) : Ends hands (s.contend ref d current winner now) := by
  rw [contend]
  split_ifs
  · exact ends_beginPreflight h hd hh winner true
  · exact ends_beginPreflight h hd hh winner false
  · exact ends_idle h

theorem ends_evaluate (h : s.Good (Function.update hands .thread none)) (key : String) :
    Ends hands (s.evaluate key now) := by
  rw [evaluate]
  rcases hd : s.dongles.get? key with _ | d
  · exact ends_idle h
  dsimp only
  have hlike : d.Like ((d.expireWindows now.wall).pickWinner now).1 :=
    (Dongle.like_expireWindows _).trans (Dongle.like_pickWinner _)
  generalize (d.expireWindows now.wall).pickWinner now = r at hlike ⊢
  obtain ⟨e, winner⟩ := r
  dsimp only at hlike ⊢
  have href := dongle?_of_get? hd
  have hs : s.Steady (s.modifyDongle ⟨key, d.oid⟩ fun _ => e) := steady_modifyDongle fun d' hd' => by
    obtain rfl : d = d' := Option.some.inj (href.symm.trans hd')
    exact hlike
  have he : (s.modifyDongle ⟨key, d.oid⟩ fun _ => e).dongle? ⟨key, d.oid⟩ = some e :=
    dongle?_modifyDongle href hlike.oid
  have h' := h.steady hs
  split
  · exact ends_idle h'
  · rename_i hh
    exact ends_doAcquire h' ((holderAt_of_dongle? he).trans hh)
  · rename_i current hh
    split_ifs
    · exact ends_yieldThen h' he hh _ _
    · exact ends_idle h'
  · rename_i winner current hh
    split_ifs
    · exact ends_idle h'
    · exact ends_contend h' he hh winner

/-! ## After the preflight claim -/

theorem dongle?_modifySlot (caller : String) (rid : ℕ) (f : SignalSlot → SignalSlot)
    (hd : s.dongle? ref = some d) : ∃ e, (s.modifySlot ref caller rid f).dongle? ref = some e ∧
      e.currentHolder = d.currentHolder :=
  ⟨_, dongle?_modifyDongle hd Dongle.modifySlot_oid, Dongle.modifySlot_currentHolder⟩

theorem dongle?_releaseLease (l : Option Lease) : (s.releaseLease l).dongle? ref = s.dongle? ref := by
  cases l <;> rfl

theorem good_preflightMismatch {p : Preflight} {l : Option Lease} (canonicalId : String)
    (h : s.Good (Function.update hands .thread l)) :
    (s.preflightMismatch p l canonicalId).Good (Function.update hands .thread none) := by
  obtain ⟨hs, hraised⟩ := steady_reconcileIdleSlot h.tables p.ref p.caller
    p.signature.registrationId canonicalId
  rw [preflightMismatch]
  generalize s.reconcileIdleSlot p.ref p.caller p.signature.registrationId canonicalId = r
    at hs hraised ⊢
  have hset : ∀ ref b, r.1.Steady (r.1.setDeferred ref p b) := fun ref b =>
    steady_modifySlot (fun _ => rfl) fun _ => ⟨rfl, rfl⟩
  split
  · exact absurd rfl hraised
  all_goals exact (h.steady (hs.trans (hset _ _))).release

/-- The preflight releases the lease it was given, and goes on only while the
    holder is still the one it started with. -/
theorem good_finishPreflight (p : Preflight) (outcome : ClaimOutcome) (now : Clock)
    (h : s.Good (Function.update hands .thread none)) :
    (s.finishPreflight p outcome now).1.Good (Function.update hands .thread none) ∧
      ((s.finishPreflight p outcome now).2 = true →
        ∃ d, (s.finishPreflight p outcome now).1.dongle? p.ref = some d ∧
          d.currentHolder = p.signature.currentHolder) := by
  have hclaim := h.claim outcome
  rw [finishPreflight]
  generalize s.claimDevice outcome = r at hclaim ⊢
  obtain ⟨s₁, l⟩ := r
  dsimp only at hclaim ⊢
  by_cases hcur : s₁.preflightCurrent p now = false
  · rw [if_pos hcur]
    exact ⟨hclaim.release, by simp⟩
  rw [if_neg hcur]
  set s₂ := s₁.modifySlot p.ref p.caller p.signature.registrationId fun slot =>
    { slot with
      identityPreflightAt := now.mono
      identityPreflightSignature := some p.signature
      identityPreflightDeferred := false } with hs₂
  have h₂ : s₂.Good (Function.update hands .thread l) :=
    hclaim.steady (steady_modifySlot (fun _ => rfl) fun _ => ⟨rfl, rfl⟩)
  split
  · have hset : s₂.Steady (s₂.setDeferred p.ref p true) :=
      steady_modifySlot (fun _ => rfl) fun _ => ⟨rfl, rfl⟩
    exact ⟨(h₂.steady hset).release, by simp⟩
  · split_ifs
    · exact ⟨good_preflightMismatch _ h₂, by simp⟩
    · refine ⟨h₂.release, fun _ => ?_⟩
      have hcur : s₁.preflightCurrent p now = true := by simpa using hcur
      rw [preflightCurrent] at hcur
      obtain ⟨d, hd, hcond⟩ := (Option.any_eq_true _ _).1 hcur
      obtain ⟨e, he, hh⟩ := dongle?_modifySlot p.caller
        p.signature.registrationId (fun slot =>
          { slot with
            identityPreflightAt := now.mono
            identityPreflightSignature := some p.signature
            identityPreflightDeferred := false }) hd
      refine ⟨e, by rw [dongle?_releaseLease]; exact he, hh.trans ?_⟩
      simp only [Bool.and_eq_true, decide_eq_true_eq] at hcond
      tauto

/-! ## After the claim to acquire -/

theorem steady_resetAllocation : s.Steady (s.resetAllocation ref a) :=
  steady_modifySlot (fun _ => rfl) fun _ => ⟨rfl, rfl⟩

theorem steady_deferAcquireRetry : s.Steady (s.modifyDongle ref (·.deferAcquireRetry a now)) := by
  refine steady_modifyDongle fun d _ => ?_
  exact like_modifySlot_if (f := fun slot =>
    { slot with
      acquireRetryAt := now.mono
      acquireRetrySignature := some ⟨d.generation, slot.registrationId, slot.canonicalId⟩ })
    (fun _ => rfl) fun _ => ⟨rfl, rfl⟩

/-- On a dongle without holder, noting a claim changes no grip. -/
theorem steady_recordClaim (h : s.Good hands) (hh : s.holderAt a.ref.key = none)
    (l : Option Lease) : s.Steady (s.recordClaim a l) := by
  refine steady_of_same (fun d hd => ?_) fun ht d c x hd hx => ?_
  · refine ⟨Dongle.modifySlot_oid, Dongle.modifySlot_canonicalId, Dongle.modifySlot_currentHolder,
      fun c => ?_⟩
    rw [Dongle.grip_modifySlot]
    split_ifs with hc
    · subst hc
      have hidle : d.grip a.caller = .idle := by
        have hheld := h.held_dongle hd
        rw [(holderAt_of_dongle? hd).symm.trans hh] at hheld
        exact hheld.of_none _
      rw [Dongle.grip] at hidle ⊢
      rcases hx : d.slots.get? a.caller with _ | x
      · rfl
      · rw [hx] at hidle
        have hactive : x.isActive = false := congrArg Grip.active hidle
        by_cases hrid : x.registrationId = a.registrationId <;>
          simp [SignalSlot.grip, hrid, hactive]
    · rfl
  · rw [Dongle.get?_modifySlot] at hx
    split_ifs at hx
    · obtain ⟨y, hy, rfl⟩ := Option.map_eq_some_iff.1 hx
      have hle := ht.registered a.ref.key a.caller y ((slotAt_of_dongle? hd).symm.trans hy)
      split_ifs <;> exact hle
    · exact ht.registered a.ref.key c x ((slotAt_of_dongle? hd).symm.trans hx)

/-- The slot for which a lease was claimed has that claim. -/
theorem recordClaim_lastClaim {x : SignalSlot} (hd : s.dongle? a.ref = some d)
    (hx : (s.recordClaim a (some lease)).slotAt a.ref.key a.caller = some x)
    (hrid : x.registrationId = a.registrationId) : x.lastClaim = some lease := by
  rw [recordClaim, modifySlot, slotAt_modifyDongle hd, if_pos rfl, Dongle.get?_modifySlot,
    if_pos rfl] at hx
  obtain ⟨y, -, rfl⟩ := Option.map_eq_some_iff.1 hx
  split_ifs at hrid ⊢ with hy
  · rfl
  · exact absurd hrid hy

theorem dongle?_of_acquireCurrent (h : s.acquireCurrent a = true) : ∃ d, s.dongle? a.ref = some d := by
  rw [acquireCurrent, Bool.and_eq_true] at h
  rcases hd : s.dongle? a.ref with _ | d
  · rw [slotIs?, slot?, hd] at h
    cases h.2
  · exact ⟨d, rfl⟩

theorem ends_acquireMismatch {l : Option Lease} (canonicalId : String)
    (h : s.Good (Function.update hands .thread l)) :
    Ends hands (s.acquireMismatch a l canonicalId now) := by
  obtain ⟨hs, hraised⟩ := steady_reconcileIdleSlot h.tables a.ref a.caller a.registrationId
    canonicalId
  rw [acquireMismatch]
  generalize s.reconcileIdleSlot a.ref a.caller a.registrationId canonicalId = r at hs hraised ⊢
  split
  · exact absurd rfl hraised
  · rename_i s₁ target
    have hset : s₁.Steady (s₁.modifySlot target a.caller a.registrationId
        ({ · with acquireRetrySignature := none })) :=
      steady_modifySlot (fun _ => rfl) fun _ => ⟨rfl, rfl⟩
    exact ends_idle (h.steady ((hs.trans hset).trans steady_resetAllocation)).release
  · exact ends_idle
      (h.steady ((hs.trans steady_deferAcquireRetry).trans steady_resetAllocation)).release

theorem ends_settleClaim {l : Option Lease} {resolved : Option ResolvedDevice}
    (h : s.Good (Function.update hands .thread l)) (hh : s.holderAt a.ref.key = none)
    (hle : a.registrationId ≤ s.nextRegistrationId)
    (hlast : ∀ lease, l = some lease → ∀ x, s.acquireCurrent a = true →
      s.slotAt a.ref.key a.caller = some x → x.registrationId = a.registrationId →
      x.lastClaim = some lease) :
    Ends hands (s.settleClaim a resolved l now) := by
  rw [settleClaim]
  by_cases hcur : s.acquireCurrent a = false
  · rw [if_pos hcur]
    have hreset := h.steady (steady_resetAllocation : s.Steady (s.resetAllocation a.ref a))
    split
    · exact ⟨hreset, trivial⟩
    · exact ends_idle hreset
  · rw [if_neg hcur]
    dsimp only
    split
    · exact ends_acquireMismatch _ h
    · rename_i lease _
      exact ⟨h, hh, hle, fun x hx hrid => hlast lease rfl x (by simpa using hcur) hx hrid⟩
    · have hset : s.Steady (s.modifySlot a.ref a.caller a.registrationId
          ({ · with allocationGeneration := 0 })) :=
        steady_modifySlot (fun _ => rfl) fun _ => ⟨rfl, rfl⟩
      exact ends_idle (h.steady (hset.trans steady_deferAcquireRetry))

theorem ends_finishClaim {outcome : ClaimOutcome}
    (h : s.Good (Function.update hands .thread none)) (hp : s.Phase (.claiming a)) :
    Ends hands (s.finishClaim a outcome now) := by
  have hclaim := h.claim outcome
  have hh : (s.claimDevice outcome).1.holderAt a.ref.key = none := by
    cases outcome <;> exact hp.1
  have hle : a.registrationId ≤ (s.claimDevice outcome).1.nextRegistrationId := by
    cases outcome <;> exact hp.2
  rw [finishClaim]
  generalize s.claimDevice outcome = r at hclaim hh hle ⊢
  obtain ⟨s₁, l⟩ := r
  dsimp only at hclaim hh hle ⊢
  have hs := steady_recordClaim hclaim hh l
  refine ends_settleClaim (hclaim.steady hs) ((hs.holder _).trans hh) ?_ ?_
  · rwa [recordClaim, modifySlot, modifyDongle_nextRegistrationId]
  · rintro lease rfl x hcur hx hrid
    rcases hd : s₁.dongle? a.ref with _ | d
    · obtain ⟨e, he⟩ := dongle?_of_acquireCurrent hcur
      rw [recordClaim, modifySlot, modifyDongle_none hd, hd] at he
      cases he
    · exact recordClaim_lastClaim hd hx hrid

/-! ## After the callback -/

theorem grantSlot_oid : (d.grantSlot a lease now).oid = d.oid := by
  rw [Dongle.grantSlot]
  dsimp only
  split_ifs <;> exact Dongle.modifySlot_oid

theorem grantSlot_canonicalId : (d.grantSlot a lease now).canonicalId = d.canonicalId := by
  rw [Dongle.grantSlot]
  dsimp only
  split_ifs <;> exact Dongle.modifySlot_canonicalId

theorem grantSlot_currentHolder :
    (d.grantSlot a lease now).currentHolder = some a.caller := by
  rw [Dongle.grantSlot]
  dsimp only
  split_ifs <;> rfl

theorem grantSlot_slots : (d.grantSlot a lease now).slots = (d.modifySlot a.caller fun slot =>
    { slot with isActive := true, deviceLease := some lease }).slots := by
  rw [Dongle.grantSlot]
  dsimp only
  split_ifs <;> rfl

/-- The acquisition puts the lease with the slot and makes its caller the holder. -/
theorem grants_grantSlot {x : SignalSlot} (hd : s.dongle? a.ref = some d)
    (hx : d.slots.get? a.caller = some x) (hclaim : x.lastClaim = some lease)
    (hh : d.currentHolder = none) :
    s.Grants (s.modifyDongle a.ref (·.grantSlot a lease now)) a.ref.key a.caller lease where
  tables h := by
    refine h.modifyDongle (fun _ _ => grantSlot_canonicalId) fun e c y he hy => ?_
    rw [grantSlot_slots] at hy
    obtain ⟨y', hy', hr, -⟩ := origin_modifySlot hy fun _ => ⟨rfl, rfl⟩
    rw [← hr]
    exact h.registered a.ref.key c y' ((slotAt_of_dongle? he).symm.trans hy')
  holder := (holderAt_of_dongle? hd).trans hh
  holder_after k := by rw [holderAt_modifyDongle hd, grantSlot_currentHolder]
  grip_after k c := by
    rw [gripAt_modifyDongle hd, Dongle.grip, grantSlot_slots, ← Dongle.grip, Dongle.grip_modifySlot,
      hx]
    by_cases hk : k = a.ref.key
    · subst hk
      by_cases hc : c = a.caller
      · simp [hc, SignalSlot.grip, hclaim, Grip.holding]
      · simp [hc, gripAt_of_dongle? hd]
    · simp [hk]
  nextLease := by simp
  released := by simp

theorem ends_discard (h : s.Good (Function.update hands .thread (some lease))) :
    Ends hands (s.discardSuccessfulAcquisition a lease) :=
  ⟨h.steady (steady_modifySlot (fun _ => rfl) fun _ => ⟨rfl, rfl⟩), trivial⟩

theorem ends_finishGrant {callbackOk : Bool}
    (h : s.Good (Function.update hands .thread (some lease))) (hp : s.Phase (.granting a lease)) :
    Ends hands (s.finishGrant a lease callbackOk now) := by
  obtain ⟨hh, -, hclaim⟩ := hp
  rw [finishGrant]
  split_ifs
  · exact ends_idle (h.release.steady (steady_resetAllocation.trans steady_deferAcquireRetry))
  · exact ends_discard h
  · split
    · rename_i d slot hd hslot
      have hx : d.slots.get? a.caller = some slot := by rwa [slot?, hd] at hslot
      split_ifs with hstale
      · exact ends_discard h
      · exact ends_discard (h.steady (steady_modifySlot (fun _ => rfl) fun _ => ⟨rfl, rfl⟩))
      · push Not at hstale
        have hslotAt : s.slotAt a.ref.key a.caller = some slot :=
          (slotAt_of_dongle? hd).symm.trans hx
        exact ⟨h.grants (grants_grantSlot hd hx (hclaim slot hslotAt hstale.1)
          ((holderAt_of_dongle? hd).symm.trans hh)), trivial⟩
    · exact ends_discard (h.steady (steady_modifyDongle fun d _ => .of_eq rfl rfl rfl rfl))

/-- Every step of the thread keeps the grips and the leases in order. -/
theorem ends_resumeThread {pc : ThreadPc} {outcome : ClaimOutcome} {callbackOk : Bool}
    (h : s.Good (Function.update hands .thread pc.lease)) (hp : s.Phase pc) :
    Ends hands (s.resumeThread pc outcome callbackOk now) := by
  cases pc with
  | idle | publishing => exact ends_idle h
  | preflight p =>
    obtain ⟨hgood, hgo⟩ := good_finishPreflight p outcome now h
    rw [resumeThread]
    dsimp only
    split_ifs with hon
    · obtain ⟨d, hd, hh⟩ := hgo hon.1
      exact ends_yieldThen hgood hd (hh.trans hp) _ _
    · exact ends_idle hgood
  | yielding ref l next =>
    refine ends_afterYield h.release ?_ next
    cases l <;> exact hp
  | claiming a => exact ends_finishClaim h hp
  | dropping lease | discarding lease => exact ends_idle h.release
  | granting a lease => exact ends_finishGrant h hp

/-! ## The initial state -/

/-- While dongles are set up: each is managed, without slots and without holder. -/
structure Managed (s : Scheduler) : Prop where
  dongle : ∀ k d, s.dongles.get? k = some d →
    d.canonicalId = "serial:" ++ k ∧ d.currentHolder = none ∧ d.slots = ∅
  canonical : ∀ i k, s.canonicalDongles.get? i = some k ↔
    (∃ d, s.dongles.get? k = some d) ∧ i = "serial:" ++ k
  leases : s.nextLease = 0 ∧ s.released = []

theorem managed_addManaged (h : s.Managed) (m : ManagedDongle) : (s.addManaged m).Managed := by
  rw [addManaged]
  split_ifs
  · exact h
  refine ⟨fun k d hd => ?_, fun i k => ?_, h.leases⟩
  · simp only [Dict.get?_set] at hd
    split_ifs at hd with hk
    · cases hd
      exact ⟨by rw [hk], rfl, rfl⟩
    · exact h.dongle k d hd
  · simp only [Dict.get?_set]
    by_cases hk : k = m.serial
    · by_cases hi : i = "serial:" ++ m.serial <;> simp [hk, hi, h.canonical]
    · by_cases hi : i = "serial:" ++ m.serial
      · simp [hk, hi, Ne.symm hk]
      · simp [hk, hi, h.canonical]

theorem managed_new (managed : List ManagedDongle) (override : Bool) :
    (new managed override).Managed := by
  rw [new]
  have hempty : Managed { weatherOverrideLock := override } :=
    ⟨fun k d hd => by simp at hd, fun i k => by simp, rfl, rfl⟩
  generalize ({ weatherOverrideLock := override } : Scheduler) = s₀ at hempty
  induction managed generalizing s₀ with
  | nil => exact hempty
  | cons m managed ih => exact ih _ (managed_addManaged hempty m)

theorem Managed.good (h : s.Managed) : s.Good fun _ => none := by
  have hgrip : ∀ k c, s.gripAt k c = .idle := fun k c => by
    rcases hd : s.dongles.get? k with _ | d
    · rw [gripAt, hd]
      rfl
    · rw [gripAt_eq hd, Dongle.grip, (h.dongle k d hd).2.2]
      rfl
  refine ⟨⟨fun i k => ?_, fun k c x hx => ?_⟩, fun k c => ?_, ?_⟩
  · rw [h.canonical]
    constructor
    · rintro ⟨⟨d, hd⟩, rfl⟩
      exact ⟨d, hd, (h.dongle k d hd).1⟩
    · rintro ⟨d, hd, rfl⟩
      exact ⟨⟨d, hd⟩, (h.dongle k d hd).1⟩
  · obtain ⟨d, hd, hx⟩ := Option.bind_eq_some_iff.1 hx
    rw [(h.dongle k d hd).2.2] at hx
    cases hx
  · have hh : s.holderAt k = none := by
      rw [holderAt, Option.bind_eq_none_iff]
      exact fun d hd => (h.dongle k d hd).2.1
    rw [hh, if_neg (by simp)]
    exact hgrip k c
  · have heq : s.ledger (fun _ => none) = Ledger.none := by
      refine Ledger.ext (fun p => ?_) h.leases.1 fun t => ?_
      · rcases p with ⟨k, c⟩ | b
        · simp [ledger, hgrip, Grip.idle, Ledger.none]
        · rfl
      · simp [ledger, h.leases.2, Ledger.none]
    rw [heq]
    exact Ledger.sound_none

end Scheduler

namespace System

variable {s s' : System} {managed : List ManagedDongle} {override : Bool}

/-! ## Runs -/

variable (s)

/-- The leases in somebody's hands. -/
def hands : Actor → Option Lease
  | .thread => s.thread.lease
  | .call id => (s.calls.get? id).bind (·.lease)

/-- The grips and the leases are in order, and so is what the thread relies on. -/
structure Inv : Prop where
  good : s.scheduler.Good s.hands
  phase : s.scheduler.Phase s.thread

/-- The step neither removes nor replaces an active slot: `register` finds none
    of its caller where it stores a slot without handing one back, and what
    follows a yield finds that the slot has not become active again. -/
def KeepsActive : Event → Prop
  | .call _ (.register a) => s.scheduler.registerKeeps a = true
  | .proceed id _ => (s.calls.get? id).all s.scheduler.proceedKeeps = true
  | _ => True

instance : ∀ (s : System) (e : Event), Decidable (s.KeepsActive e)
  | _, .evaluate .. => inferInstanceAs (Decidable True)
  | _, .resumeThread .. => inferInstanceAs (Decidable True)
  | _, .call _ (.register _) => inferInstanceAs (Decidable (_ = true))
  | _, .call _ (.unregister ..) => inferInstanceAs (Decidable True)
  | _, .call _ (.addWindow ..) => inferInstanceAs (Decidable True)
  | _, .call _ (.removeWindows ..) => inferInstanceAs (Decidable True)
  | _, .call _ (.lock ..) => inferInstanceAs (Decidable True)
  | _, .call _ (.unlock ..) => inferInstanceAs (Decidable True)
  | _, .call _ (.dongleReleased ..) => inferInstanceAs (Decidable True)
  | _, .call _ (.suspend ..) => inferInstanceAs (Decidable True)
  | _, .call _ (.resume ..) => inferInstanceAs (Decidable True)
  | _, .call _ .stop => inferInstanceAs (Decidable True)
  | _, .proceed .. => inferInstanceAs (Decidable (_ = true))

theorem hands_update_thread (scheduler : Scheduler) (pc : ThreadPc) :
    hands { s with scheduler := scheduler, thread := pc } =
      Function.update s.hands .thread pc.lease := by
  funext a
  cases a <;> rfl

theorem hands_update_call (scheduler : Scheduler) (id : ℕ) (p : Progress) :
    hands { s with scheduler := scheduler, calls := record s.calls id p } =
      Function.update s.hands (.call id) p.lease := by
  funext a
  cases a with
  | thread => rfl
  | call i =>
    rw [Function.update_apply]
    simp only [hands, Actor.call.injEq]
    cases p <;> simp only [record, Dict.get?_set, Dict.get?_erase] <;> split_ifs <;> rfl

theorem update_hands_thread : Function.update s.hands .thread s.thread.lease = s.hands :=
  Function.update_eq_self _ _

variable {s}

theorem update_hands_call {id : ℕ} {l : Option Lease} (h : (s.calls.get? id).bind (·.lease) = l) :
    Function.update s.hands (.call id) l = s.hands := by
  subst h
  exact Function.update_eq_self _ _

/-- A step of the thread keeps the invariant. -/
theorem Inv.thread {r : Scheduler × ThreadPc} (h : Scheduler.Ends s.hands r) :
    Inv { s with scheduler := r.1, thread := r.2 } := by
  refine ⟨?_, h.2⟩
  rw [hands_update_thread]
  exact h.1

/-- A part of a call keeps the invariant. -/
theorem Inv.call {sched : Scheduler} {id : ℕ} {r : Scheduler × Progress}
    (h : sched.Good (Function.update s.hands (.call id) none)) (hphase : sched.Phase s.thread)
    (hp : sched.Part r) :
    Inv { s with scheduler := r.1, calls := record s.calls id r.2 } := by
  refine ⟨?_, hphase.recedes hp.1⟩
  rw [hands_update_call]
  exact hp.good h

theorem inv_next {e : Event} (h : s.Inv) (hk : s.KeepsActive e) (hs : s.next e = some s') :
    s'.Inv := by
  cases e with
  | evaluate key now =>
    rw [next] at hs
    split_ifs at hs with hidle
    cases hs
    refine Inv.thread (Scheduler.ends_evaluate ?_ key)
    rw [show none = s.thread.lease by rw [hidle]; rfl, update_hands_thread]
    exact h.good
  | resumeThread outcome callbackOk now =>
    rw [next] at hs
    split_ifs at hs
    cases hs
    refine Inv.thread (Scheduler.ends_resumeThread ?_ h.phase)
    rw [update_hands_thread]
    exact h.good
  | call id op =>
    rw [next] at hs
    split at hs
    · cases hs
    rename_i hnone
    cases hs
    refine Inv.call ?_ h.phase (Scheduler.part_begin h.good ?_)
    · rw [update_hands_call (by rw [hnone]; rfl)]
      exact h.good
    · rintro a rfl
      exact hk
  | proceed id visit =>
    rw [next] at hs
    split at hs
    · cases hs
    rename_i pc hpc
    cases hs
    have hgood : s.scheduler.Good (Function.update s.hands (.call id) pc.lease) := by
      rw [update_hands_call (by rw [hpc]; rfl)]
      exact h.good
    rw [KeepsActive, hpc, Option.all_some] at hk
    exact Inv.call hgood.release (h.phase.recedes (Scheduler.recedes_releaseLease _))
      (Scheduler.part_proceed hgood hk)

theorem inv_of_reach (h : (transition managed override).Reach KeepsActive s) : s.Inv := by
  refine Transition.Reach.induction (fun s hs => ?_) (fun s e s' hI hk hs => inv_next hI hk hs) h
  obtain rfl := hs
  refine ⟨?_, trivial⟩
  have hhands : hands ⟨Scheduler.new managed override, .idle, ∅⟩ = fun _ => none := by
    funext a
    cases a <;> rfl
  rw [hhands]
  exact (Scheduler.managed_new managed override).good

end System

/-! ## Holders and leases between operations -/

namespace Scheduler

/-- The slot of `caller` on the dongle under `key` is active and has the lease `id`. -/
def HoldsLease (s : Scheduler) (key caller : String) (id : ℕ) : Prop :=
  ∃ d x lease, s.dongles.get? key = some d ∧ d.currentHolder = some caller ∧
    d.slots.get? caller = some x ∧ x.isActive = true ∧ x.deviceLease = some lease ∧ lease.id = id

/-- On every dongle at most one slot is active; the holder is exactly the slot
    that is active and has the lease of its last claim; and every lease is with
    exactly one such slot, or released. -/
structure HolderInvariant (s : Scheduler) : Prop where
  one_active : ∀ key d c c' x x', s.dongles.get? key = some d → d.slots.get? c = some x →
    d.slots.get? c' = some x' → x.isActive = true → x'.isActive = true → c = c'
  holder_iff : ∀ key d c, s.dongles.get? key = some d → (d.currentHolder = some c ↔
    ∃ x lease, d.slots.get? c = some x ∧ x.isActive = true ∧ x.deviceLease = some lease ∧
      x.lastClaim = some lease)
  leases : ∀ id < s.nextLease, id ∈ s.released ∨ ∃! p : String × String, s.HoldsLease p.1 p.2 id

variable {s : Scheduler} {key c : String} {d : Dongle}

variable {hands : Actor → Option Lease}

theorem Good.active_iff (h : s.Good hands) {x : SignalSlot}
    (hd : s.dongles.get? key = some d) (hx : d.slots.get? c = some x) :
    x.isActive = true ↔ d.currentHolder = some c := by
  rw [← (h.held_dongle (dongle?_of_get? hd)).active_iff, Dongle.grip, hx]
  rfl

/-- The holder's slot is active, with the lease of its last claim. -/
theorem Good.holder (h : s.Good hands)
    (hd : s.dongles.get? key = some d) (hh : d.currentHolder = some c) :
    ∃ x lease, d.slots.get? c = some x ∧ x.isActive = true ∧ x.deviceLease = some lease ∧
      x.lastClaim = some lease := by
  have hheld := h.held_dongle (dongle?_of_get? hd) c
  rw [if_pos hh] at hheld
  obtain ⟨lease, hl⟩ := hheld
  rw [Dongle.grip] at hl
  rcases hx : d.slots.get? c with _ | x
  · rw [hx] at hl
    cases hl
  · rw [hx] at hl
    have hactive : x.isActive = true := congrArg Grip.active hl
    refine ⟨x, lease, rfl, hactive, congrArg Grip.lease hl, ?_⟩
    have hclaim : (if x.isActive then x.lastClaim else none) = some lease :=
      congrArg Grip.claimed hl
    rwa [if_pos hactive] at hclaim

theorem Good.holdsLease_iff (h : s.Good hands) {id : ℕ} :
    s.HoldsLease key c id ↔ (s.ledger hands).holds (.slot key c) = some id := by
  constructor
  · rintro ⟨d, x, lease, hd, -, hx, -, hl, rfl⟩
    change (s.gripAt key c).lease.map (·.id) = _
    rw [gripAt_eq hd, Dongle.grip, hx]
    exact congrArg (Option.map (·.id)) hl
  · intro hid
    obtain ⟨lease, hl, rfl⟩ := Option.map_eq_some_iff.1 hid
    rcases hd : s.dongles.get? key with _ | d
    · rw [gripAt, hd] at hl
      cases hl
    rw [gripAt_eq hd] at hl
    by_cases hh : d.currentHolder = some c
    · obtain ⟨x, lease', hx, ha, hl', -⟩ := h.holder hd hh
      rw [Dongle.grip, hx] at hl
      exact ⟨d, x, lease, hd, hh, hx, ha, hl, rfl⟩
    · have hheld := h.held_dongle (dongle?_of_get? hd) c
      rw [if_neg hh] at hheld
      rw [hheld] at hl
      cases hl

end Scheduler

namespace System

variable {s : System} {managed : List ManagedDongle} {override : Bool}

/-- In every run whose steps neither remove nor replace an active slot, whenever
    no operation is in the middle, the holder of each dongle is its only active
    slot, with the lease of its last claim, and every other lease is released. -/
theorem holder_invariant (h : (transition managed override).Reach KeepsActive s)
    (hq : s.Quiescent) : s.scheduler.HolderInvariant := by
  have hgood := (inv_of_reach h).good
  obtain ⟨hthread, hcalls⟩ := hq
  refine ⟨fun key d c c' x x' hd hx hx' ha ha' => ?_, fun key d c hd => ⟨hgood.holder hd, ?_⟩,
    fun id hid => ?_⟩
  · have hc := (hgood.active_iff hd hx).1 ha
    rw [(hgood.active_iff hd hx').1 ha'] at hc
    exact (Option.some.inj hc).symm
  · rintro ⟨x, lease, hx, ha, -, -⟩
    exact (hgood.active_iff hd hx).1 ha
  · rw [or_iff_not_imp_left]
    intro hrel
    obtain ⟨p, hp, huniq⟩ := hgood.ledger.existsUnique hid hrel
    -- Nobody has a lease in hand, so the place is a slot's.
    have hhands : ∀ a, s.hands a = none := by
      intro a
      cases a with
      | thread => rw [hands, hthread]; rfl
      | call i =>
        have hnone : s.calls.get? i = none := by
          rw [Dict.get?_eq_none_iff, hcalls]
          simp
        rw [hands, hnone]
        rfl
    rcases p with ⟨key, c⟩ | a
    · refine ⟨(key, c), hgood.holdsLease_iff.2 hp, fun q hq => ?_⟩
      have := huniq (.slot q.1 q.2) (hgood.holdsLease_iff.1 hq)
      exact Prod.ext (Place.slot.inj this).1 (Place.slot.inj this).2
    · simp [Scheduler.ledger, hhands] at hp

/-- A scheduler with one managed dongle. -/
def oneDongle : System := ⟨.new [{ serial := "A" }] true, .idle, ∅⟩

/-- A background receiver on that dongle. -/
def receiver : RegisterArgs where
  serial := "A"
  caller := "c"
  priority := .background
  continuous := true
  resolved := "serial:A"

/-- The receiver registers and is granted the dongle. -/
def grantRun : List Event :=
  [.call 0 (.register receiver), .evaluate "A" ⟨0, 100⟩,
    .resumeThread (.granted ⟨0, "serial:A"⟩) true ⟨0, 100⟩, .resumeThread .failed true ⟨0, 100⟩,
    .resumeThread .failed true ⟨0, 100⟩]

/-- The receiver is granted the dongle, unregisters, and gets it again. -/
def regrantRun : List Event :=
  grantRun ++ [.call 0 (.unregister "A" "c"), .proceed 0 []] ++ grantRun

theorem holder_invariant_regranted : ∃ s : System,
    (transition [{ serial := "A" }] true).Reach KeepsActive s ∧ s.scheduler.nextLease = 2 ∧
      s.scheduler.released = [0] ∧ s.scheduler.HolderInvariant := by
  obtain ⟨s, hs, hidle, hcalls, hnext, hrel⟩ :
      ∃ s ∈ regrantRun.foldlM (fun s e => if KeepsActive s e then next s e else none) oneDongle,
        s.thread = .idle ∧ s.calls.entries = [] ∧
          s.scheduler.nextLease = 2 ∧ s.scheduler.released = [0] := by
    decide +kernel
  have hreach : (transition [{ serial := "A" }] true).Reach KeepsActive s :=
    .foldlM (.init rfl) hs
  exact ⟨s, hreach, hnext, hrel, holder_invariant hreach ⟨hidle, hcalls⟩⟩

/-- The receiver is granted the dongle and registers again. -/
def reregisterRun : List Event := grantRun ++ [.call 0 (.register receiver)]

/-- Registering again replaces the holder's slot by an idle one, and its lease
    is lost while it is still called the holder. -/
theorem holder_invariant_fails_reregistered : ∃ s : System,
    (transition [{ serial := "A" }] true).Reachable s ∧ s.Quiescent ∧
      ¬ s.scheduler.HolderInvariant := by
  obtain ⟨s, hs, hidle, hcalls, d, hd, hh, hinactive⟩ : ∃ s ∈ reregisterRun.foldlM next oneDongle,
      s.thread = .idle ∧ s.calls.entries = [] ∧
        ∃ d ∈ s.scheduler.dongles.get? "A", d.currentHolder = some "c" ∧
          ∀ x ∈ d.slots.get? "c", x.isActive = false := by
    decide +kernel
  refine ⟨s, .foldlM (.init rfl) hs, ⟨hidle, hcalls⟩,
    fun hinv => ?_⟩
  obtain ⟨x, lease, hx, ha, -⟩ := (hinv.holder_iff "A" d "c" hd).1 hh
  cases ha.symm.trans (hinactive x hx)

end System

end ReticulumPi.Sdr
