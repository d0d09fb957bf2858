import ReticulumPi.Lib.Tokens
import ReticulumPi.Sdr.Handover

/-!
# Where the leases are

Every lease that `claim_device` returns lies at one place: with a slot, in the
hands of the scheduler thread, or in those of a call that is about to release
it, until it is released. What an operation does to the grips moves the leases
accordingly (`Good`), and each part of a call keeps it that way, provided that
no active slot is removed or replaced (`registerKeeps`, `proceedKeeps`).
-/

namespace ReticulumPi.Sdr

/-- Who can have a lease in its hands. -/
inductive Actor where
  | thread
  | call (id : ℕ)
deriving DecidableEq

/-- Where a lease can lie. -/
inductive Place where
  | slot (key caller : String)
  | hand (actor : Actor)
deriving DecidableEq

/-- The lease that the scheduler thread has in its hands. -/
def ThreadPc.lease : ThreadPc → Option Lease
  | .yielding _ lease _ => lease
  | .dropping lease => some lease
  | .granting _ lease => some lease
  | .discarding lease => some lease
  | _ => none

/-- The lease that a call is about to release. -/
def CallPc.lease : CallPc → Option Lease
  | .registering _ lease => lease
  | .unregistering _ _ _ lease => lease
  | .stopping _ _ lease => lease
  | .releasing lease => some lease

/-- The lease that a call keeps when a part of it ends. -/
def Progress.lease : Progress → Option Lease
  | .waits pc => pc.lease
  | _ => none

namespace Scheduler

/-- The places of the leases, the slots' and those in somebody's hands. -/
def ledger (s : Scheduler) (hands : Actor → Option Lease) : Ledger Place where
  holds
    | .slot key caller => (s.gripAt key caller).lease.map (·.id)
    | .hand actor => (hands actor).map (·.id)
  issued := s.nextLease
  spent id := id ∈ s.released

/-- The grips are those of the holders, and every lease lies at one place or is released. -/
structure Good (s : Scheduler) (hands : Actor → Option Lease) : Prop where
  tables : s.Tables
  held : ∀ k, Held (s.holderAt k) (s.gripAt k)
  ledger : (s.ledger hands).Sound

namespace Good

variable {s s' : Scheduler} {hands : Actor → Option Lease} {a : Actor} {lease : Lease}
  {l : Option Lease} {k c : String}

theorem steady (h : s.Good hands) (hs : s.Steady s') : s'.Good hands where
  tables := hs.tables h.tables
  held k := by
    rw [hs.holder, funext (hs.grip k)]
    exact h.held k
  ledger := by
    have heq : s'.ledger hands = s.ledger hands := by
      refine Ledger.ext (fun p => ?_) hs.nextLease fun t => ?_
      · rcases p with ⟨k, c⟩ | b
        · simp only [Scheduler.ledger, hs.grip]
        · rfl
      · simp only [Scheduler.ledger, hs.released]
    rw [heq]
    exact h.ledger

/-- What is in somebody's hands is released. -/
theorem release (h : s.Good (Function.update hands a l)) :
    (s.releaseLease l).Good (Function.update hands a none) := by
  have hd : (s.releaseLease l).dongles = s.dongles := by cases l <;> rfl
  have hgrip : (s.releaseLease l).gripAt = s.gripAt := by
    funext k c
    rw [gripAt, gripAt, hd]
  have hs : (s.releaseLease l).Tables := by
    rcases l with _ | lease
    · exact h.tables
    · exact ⟨h.tables.canonical, h.tables.registered⟩
  refine ⟨hs, fun k => ?_, ?_⟩
  · rw [holderAt, hd, hgrip]
    exact h.held k
  · have heq : (s.releaseLease l).ledger (Function.update hands a none) =
        (s.ledger (Function.update hands a l)).spend (.hand a) := by
      refine Ledger.ext (fun p => ?_) (by cases l <;> rfl) fun t => ?_
      · rcases p with ⟨k, c⟩ | b
        · simp [Scheduler.ledger, Ledger.spend, hgrip]
        · simp only [Scheduler.ledger, Ledger.spend, Function.update_apply, Place.hand.injEq]
          split_ifs <;> rfl
      · rcases l with _ | lease
        · simp [Scheduler.ledger, Ledger.spend, releaseLease]
        · simp [Scheduler.ledger, Ledger.spend, releaseLease, or_comm, eq_comm]
    rw [heq]
    exact h.ledger.spend

/-- A claim that succeeds puts a new lease into the claimant's hands. -/
theorem claim (h : s.Good (Function.update hands a none)) (outcome : ClaimOutcome) :
    (s.claimDevice outcome).1.Good (Function.update hands a (s.claimDevice outcome).2) := by
  rcases outcome with r | r | _
  · refine ⟨⟨h.tables.canonical, h.tables.registered⟩, h.held, ?_⟩
    have heq : (s.claimDevice (.granted r)).1.ledger
          (Function.update hands a (s.claimDevice (.granted r)).2) =
        (s.ledger (Function.update hands a none)).issue (.hand a) := by
      refine Ledger.ext (fun p => ?_) rfl fun t => Iff.rfl
      rcases p with ⟨k, c⟩ | b
      · rfl
      · simp only [Scheduler.ledger, Ledger.issue, claimDevice, Function.update_apply,
          Place.hand.injEq]
        split_ifs <;> rfl
    rw [heq]
    exact h.ledger.issue (by simp [Scheduler.ledger])
  · exact h
  · exact h

/-- The lease of a dongle that is taken from its holder goes to who takes it. -/
theorem takes (h : s.Good (Function.update hands a none)) (ht : s.Takes s' k c lease) :
    s'.Good (Function.update hands a (some lease)) where
  tables := ht.tables h.tables
  held k' c' := by
    rw [ht.holder_after, ht.grip_after]
    have hheld := h.held k' c'
    by_cases hk : k' = k
    · subst hk
      rw [ht.holder] at hheld
      rw [if_pos rfl, if_neg (by simp)]
      by_cases hc : c' = c
      · rw [if_pos ⟨rfl, hc⟩]
      · rw [if_neg fun hc' => hc hc'.2]
        rwa [if_neg fun hc' => hc (Option.some.inj hc').symm] at hheld
    · simp only [hk, false_and, if_false]
      exact hheld
  ledger := by
    have heq : s'.ledger (Function.update hands a (some lease)) =
        (s.ledger (Function.update hands a none)).move (.slot k c) (.hand a) := by
      refine Ledger.ext (fun p => ?_) ht.nextLease fun t => ?_
      · rcases p with ⟨k', c'⟩ | b
        · simp only [Scheduler.ledger, Ledger.move, Function.update_apply, ht.grip_after,
            Place.slot.injEq, reduceCtorEq, if_false]
          split_ifs <;> rfl
        · simp only [Scheduler.ledger, Ledger.move, Function.update_apply, Place.hand.injEq,
            reduceCtorEq, if_false, ht.grip]
          split_ifs <;> rfl
      · simp only [Scheduler.ledger, Ledger.move, ht.released]
    rw [heq]
    exact h.ledger.move (by simp [Scheduler.ledger])

/-- The lease in somebody's hands goes to the slot that is given the dongle. -/
theorem grants (h : s.Good (Function.update hands a (some lease)))
    (hg : s.Grants s' k c lease) : s'.Good (Function.update hands a none) where
  tables := hg.tables h.tables
  held k' c' := by
    rw [hg.holder_after, hg.grip_after]
    have hheld := h.held k' c'
    by_cases hk : k' = k
    · subst hk
      rw [hg.holder, if_neg (by simp)] at hheld
      rw [if_pos rfl]
      by_cases hc : c' = c
      · rw [hc, if_pos rfl, if_pos ⟨rfl, rfl⟩]
        exact ⟨lease, rfl⟩
      · rw [if_neg fun hc' => hc (Option.some.inj hc').symm, if_neg fun hc' => hc hc'.2]
        exact hheld
    · simp only [hk, false_and, if_false]
      exact hheld
  ledger := by
    have hidle : s.gripAt k c = .idle := by
      have := h.held k
      rw [hg.holder] at this
      exact this.of_none c
    have heq : s'.ledger (Function.update hands a none) =
        (s.ledger (Function.update hands a (some lease))).move (.hand a) (.slot k c) := by
      refine Ledger.ext (fun p => ?_) hg.nextLease fun t => ?_
      · rcases p with ⟨k', c'⟩ | b
        · simp only [Scheduler.ledger, Ledger.move, Function.update_apply, hg.grip_after,
            Place.slot.injEq, reduceCtorEq, if_false, if_true]
          split_ifs <;> rfl
        · simp only [Scheduler.ledger, Ledger.move, Function.update_apply, Place.hand.injEq,
            reduceCtorEq, if_false]
          split_ifs <;> rfl
      · simp only [Scheduler.ledger, Ledger.move, hg.released]
    rw [heq]
    exact h.ledger.move (by simp [Scheduler.ledger, hidle, Grip.idle])

/-- A caller whose slot is not active has no grip. -/
theorem idle_of_activeAt (h : s.Good hands) {ref : Ref} {d : Dongle}
    (ha : s.activeAt ref c = false) (hd : s.dongle? ref = some d) : d.grip c = .idle := by
  rw [gripAt_of_dongle? hd]
  refine (h.held ref.key).idle ?_
  rw [← gripAt_of_dongle? hd, Dongle.grip]
  rw [activeAt, slot?, hd, Option.bind_some] at ha
  rcases hx : d.slots.get? c with _ | x
  · rfl
  · rwa [hx] at ha

theorem held_dongle (h : s.Good hands) {ref : Ref} {d : Dongle} (hd : s.dongle? ref = some d) :
    Held d.currentHolder d.grip := by
  have := h.held ref.key
  rw [holderAt_eq (get?_of_dongle? hd)] at this
  intro c
  rw [gripAt_of_dongle? hd]
  exact this c

end Good

/-! ## The calls -/

variable {s s' : Scheduler} {hands : Actor → Option Lease} {id : ℕ} {ref : Ref}
  {serial caller : String}

/-- A part of a call makes no holder, and either leaves the grips alone or takes
    a dongle from its holder, keeping the lease. -/
def Part (s : Scheduler) (r : Scheduler × Progress) : Prop :=
  s.Recedes r.1 ∧ ((s.Steady r.1 ∧ r.2.lease = none) ∨
    ∃ k c lease, s.Takes r.1 k c lease ∧ r.2.lease = some lease)

theorem Part.good {r : Scheduler × Progress} (h : s.Part r) {a : Actor}
    (hs : s.Good (Function.update hands a none)) :
    r.1.Good (Function.update hands a r.2.lease) := by
  rcases h.2 with ⟨hsteady, hl⟩ | ⟨k, c, lease, ht, hl⟩
  · rw [hl]
    exact hs.steady hsteady
  · rw [hl]
    exact hs.takes ht

/-- A part of a call that leaves the grips alone. -/
theorem Part.steady {r : Scheduler × Progress} (hr : s.Recedes r.1) (hs : s.Steady r.1)
    (hl : r.2.lease = none) : s.Part r := ⟨hr, .inl ⟨hs, hl⟩⟩

theorem Part.trans {r : Scheduler × Progress} (hr : s.Recedes s') (hs : s.Steady s')
    (h : s'.Part r) : s.Part r := by
  refine ⟨hr.trans h.1, ?_⟩
  rcases h.2 with ⟨hsteady, hl⟩ | ⟨k, c, lease, ht, hl⟩
  · exact .inl ⟨hs.trans hsteady, hl⟩
  · exact .inr ⟨k, c, lease, hs.takes ht, hl⟩

/-- An operation that only changes other fields of the caller's slot. -/
theorem part_like {f : Dongle → Dongle} (hf : ∀ d : Dongle, d.Like (f d)) :
    s.Part (s.modifyDongle ref f, .returned) :=
  .steady (recedes_of_like fun d _ => hf d) (steady_modifyDongle fun d _ => hf d) rfl

theorem part_refl (p : Progress) (hp : p.lease = none) : s.Part (s, p) :=
  .steady (Recedes.refl s) (Steady.refl s) hp

theorem part_addWindow (w : TimeWindow) : s.Part (s.addWindow serial caller w, .returned) := by
  rw [addWindow]
  split
  · exact part_refl _ rfl
  · exact part_like fun d => Dongle.like_modifySlot (fun _ => rfl) fun _ => ⟨rfl, rfl⟩

theorem part_removeWindows : s.Part (s.removeWindows serial caller, .returned) := by
  rw [removeWindows]
  split
  · exact part_refl _ rfl
  · exact part_like fun d => Dongle.like_modifySlot (fun _ => rfl) fun _ => ⟨rfl, rfl⟩

theorem part_lock : s.Part ((s.lock serial caller).1, .returned) := by
  rw [lock]
  split
  · exact part_refl _ rfl
  · split_ifs
    · exact part_like fun d => .of_eq rfl rfl rfl rfl
    · exact part_refl _ rfl

theorem part_unlock : s.Part (s.unlock serial caller, .returned) := by
  rw [unlock]
  split
  · exact part_refl _ rfl
  · exact part_like fun d => .of_eq rfl rfl rfl rfl

theorem part_resume (rid : ℕ) : s.Part ((s.resume serial caller rid).1, .returned) := by
  rw [resume]
  split
  · exact part_refl _ rfl
  · split_ifs
    · refine part_like fun d => ?_
      have hslot : d.Like (d.modifySlot caller fun slot =>
          { slot with suspended := false, releaseRequested := false }) :=
        Dongle.like_modifySlot (fun _ => rfl) fun _ => ⟨rfl, rfl⟩
      exact hslot.trans (.of_eq rfl rfl rfl rfl)
    · exact part_refl _ rfl

theorem part_releaseSlot (h : s.Good hands) (suspend : Bool) (generation : Option ℕ) :
    s.Part ((s.releaseSlot serial caller suspend generation).1,
      (s.releaseSlot serial caller suspend generation).2.1.elim .returned
        fun lease => .waits (.releasing lease)) := by
  refine ⟨recedes_releaseSlot, ?_⟩
  rcases releaseSlot_cases h.held with ⟨hs, hl⟩ | ⟨k, lease, ht, hl⟩
  · exact .inl ⟨hs, by rw [hl]; rfl⟩
  · exact .inr ⟨k, caller, lease, ht, by rw [hl]; rfl⟩

theorem activeAt_holder (h : s.Good hands) (ha : s.activeAt ref caller = true) :
    ∃ d, s.dongle? ref = some d ∧ d.currentHolder = some caller := by
  rw [activeAt, slot?] at ha
  rcases hd : s.dongle? ref with _ | d
  · rw [hd] at ha
    cases ha
  · refine ⟨d, rfl, (h.held_dongle hd).active_iff.1 ?_⟩
    rw [hd, Option.bind_some] at ha
    rw [Dongle.grip]
    rcases hx : d.slots.get? caller with _ | x
    · rw [hx] at ha
      cases ha
    · rwa [hx] at ha

/-- A holder that yields gives up its lease. -/
theorem doYield_holder (h : s.Good hands) {d : Dongle} (hd : s.dongle? ref = some d)
    (hh : d.currentHolder = some caller) (preemptedBy : String) :
    ∃ s' lease, s.doYield ref caller preemptedBy = (s', some (some lease)) ∧
      s.Takes s' ref.key caller lease ∧ s.Recedes s' := by
  obtain ⟨lease, hl, ht⟩ := takes_doYield preemptedBy hd hh (h.held_dongle hd)
  exact ⟨_, lease, Prod.ext rfl hl, ht, recedes_doYield⟩

theorem part_storeSlot {r : Registration} {canonicalId storageKey : String}
    (h : s.gripAt storageKey r.caller = .idle) : s.Part (s.storeSlot r canonicalId storageKey) := by
  refine .steady recedes_storeSlot (steady_storeSlot h) ?_
  rw [storeSlot]
  split <;> rfl

theorem part_finishMove {m : Move}
    (hprev : ∀ d, s.dongle? m.previous = some d → d.grip m.registration.caller = .idle)
    (htarget : s.gripAt m.storageKey m.registration.caller = .idle) :
    s.Part (s.finishMove m) := by
  have hs := steady_removeSlot hprev fun d => d.generation + 1
  exact .trans (recedes_removeSlot _) hs (part_storeSlot ((hs.grip _ _).trans htarget))

theorem part_finishUnregister {hadSlot : Bool}
    (h : ∀ d, s.dongle? ref = some d → d.grip caller = .idle) :
    s.Part (s.finishUnregister ref serial caller hadSlot) :=
  .steady recedes_finishUnregister (steady_finishUnregister h) rfl

theorem part_unregister (h : s.Good hands) : s.Part (s.unregister serial caller) := by
  rw [unregister]
  split
  · exact part_refl _ rfl
  · rename_i ref href
    split_ifs with ha
    · obtain ⟨d, hd, hh⟩ := activeAt_holder h ha
      obtain ⟨s', lease, heq, ht, hr⟩ := doYield_holder h hd hh ""
      rw [heq]
      exact ⟨hr, .inr ⟨ref.key, caller, lease, ht, rfl⟩⟩
    · exact part_finishUnregister fun d hd => h.idle_of_activeAt (by simpa using ha) hd

theorem part_stopFrom (h : s.Good hands) (start todo : List String) :
    s.Part (s.stopFrom start todo) := by
  induction todo with
  | nil => exact part_refl _ rfl
  | cons key todo ih =>
    rw [stopFrom]
    split
    · exact ih
    rename_i d hd
    split
    · exact ih
    rename_i holder hh
    split_ifs
    · exact ih
    · obtain ⟨s', lease, heq, ht, hr⟩ := doYield_holder h (dongle?_of_get? hd) hh ""
      rw [heq]
      exact ⟨hr, .inr ⟨key, holder, lease, ht, rfl⟩⟩

theorem part_stop (h : s.Good hands) : s.Part s.stop := by
  have hs : s.Steady { s with running := false } := .of_eq rfl rfl rfl rfl rfl
  have hr : s.Recedes { s with running := false } := .of_eq rfl rfl
  exact .trans hr hs (part_stopFrom (h.steady hs) _ _)

theorem part_finishStopping (h : s.Good hands) (start todo visit : List String) :
    s.Part (s.finishStopping start todo visit) := by
  rw [finishStopping]
  split_ifs
  · exact part_refl _ rfl
  all_goals exact part_stopFrom h _ _

/-! ## Keeping active slots -/

/-- The caller has no active slot on the dongle under `storageKey`. -/
def freeAt (s : Scheduler) (storageKey caller : String) : Bool :=
  !(s.ref? storageKey).any (s.activeAt · caller)

/-- `register` finds no active slot of the caller on the dongle it registers
    for, unless it first has one to hand back on another dongle. -/
def registerKeeps (s : Scheduler) (a : RegisterArgs) : Bool :=
  (s.canonicalDongles.get?
      (s.registrationCanonicalId a.serial a.deviceSelector a.resolved)).all fun storageKey =>
    (s.movedFrom a.serial a.caller storageKey).any (s.activeAt · a.caller) ||
      s.freeAt storageKey a.caller

theorem gripAt_of_freeAt (h : s.Good hands) {storageKey : String}
    (hf : s.freeAt storageKey caller = true) : s.gripAt storageKey caller = .idle := by
  rcases hd : s.dongles.get? storageKey with _ | d
  · simp [gripAt, hd]
  · have ha : s.activeAt ⟨storageKey, d.oid⟩ caller = false := by
      simpa [freeAt, ref?, hd] using hf
    rw [gripAt_eq hd]
    exact h.idle_of_activeAt ha (dongle?_of_get? hd)

theorem part_registerAt (h : s.Good hands) {r : Registration} {canonicalId storageKey : String}
    (hk : (s.movedFrom r.serial r.caller storageKey).any (s.activeAt · r.caller) = true ∨
      s.gripAt storageKey r.caller = .idle) : s.Part (s.registerAt r canonicalId storageKey) := by
  rw [registerAt]
  rcases hm : s.movedFrom r.serial r.caller storageKey with _ | previous
  · rw [hm] at hk
    exact part_storeSlot (hk.resolve_left (by simp))
  · rw [hm, Option.any_some] at hk
    dsimp only
    split_ifs with ha
    · obtain ⟨d, hd, hh⟩ := activeAt_holder h ha
      obtain ⟨s', lease, heq, ht, hr⟩ := doYield_holder h hd hh ""
      rw [heq]
      exact ⟨hr, .inr ⟨previous.key, r.caller, lease, ht, rfl⟩⟩
    · exact part_finishMove (fun d hd => h.idle_of_activeAt (by simpa using ha) hd)
        (hk.resolve_left ha)

theorem part_register (h : s.Good hands) {a : RegisterArgs} (hk : s.registerKeeps a = true) :
    s.Part (s.register a) := by
  rw [register]
  split_ifs with hcrit
  swap
  · exact part_refl _ rfl
  rw [registerKeeps] at hk
  rw [registerSlot]
  dsimp only
  generalize s.registrationCanonicalId a.serial a.deviceSelector a.resolved = i at hk ⊢
  have hens := steady_ensureDongle h.tables a.serial i
  have hrec := recedes_ensureDongle h.tables a.serial i
  refine .trans hrec hens (part_registerAt (h.steady hens) ?_)
  rcases hc : s.canonicalDongles.get? i with _ | storageKey
  · -- The dongle is new, and nobody has a slot on it.
    have hkey : (s.ensureDongle a.serial i).2 = s.newStorageKey a.serial i := by
      rw [ensureDongle, hc]
    right
    rw [hens.grip, hkey, gripAt, get?_newStorageKey h.tables a.serial hc]
    rfl
  · have heq : s.ensureDongle a.serial i = (s, storageKey) := by rw [ensureDongle, hc]
    rw [hc, Option.all_some, Bool.or_eq_true] at hk
    rw [heq]
    exact hk.imp_right (gripAt_of_freeAt h)

theorem part_begin (h : s.Good hands) {op : Op}
    (hk : ∀ a, op = .register a → s.registerKeeps a = true) : s.Part (s.begin op) := by
  cases op with
  | register a => exact part_register h (hk a rfl)
  | unregister serial caller => exact part_unregister h
  | addWindow serial caller w => exact part_addWindow w
  | removeWindows serial caller => exact part_removeWindows
  | lock serial caller => exact part_lock
  | unlock serial caller => exact part_unlock
  | dongleReleased serial caller generation => exact part_releaseSlot h false generation
  | suspend serial caller generation => exact part_releaseSlot h true generation
  | resume serial caller rid => exact part_resume rid
  | stop => exact part_stop h

/-- A call that goes on pops no active slot, and stores none over one. -/
def proceedKeeps (s : Scheduler) : CallPc → Bool
  | .registering m _ =>
    !s.activeAt m.previous m.registration.caller && s.freeAt m.storageKey m.registration.caller
  | .unregistering _ caller ref _ => !s.activeAt ref caller
  | _ => true

theorem recedes_releaseLease (l : Option Lease) : s.Recedes (s.releaseLease l) := by
  cases l
  · exact Recedes.refl s
  · exact .of_eq rfl rfl

theorem activeAt_releaseLease (l : Option Lease) :
    (s.releaseLease l).activeAt ref caller = s.activeAt ref caller := by cases l <;> rfl

theorem freeAt_releaseLease (l : Option Lease) (storageKey : String) :
    (s.releaseLease l).freeAt storageKey caller = s.freeAt storageKey caller := by cases l <;> rfl

/-- Once its lease has been released, a call goes on with a part of its own. -/
theorem part_proceed {pc : CallPc} {visit : List String}
    (h : s.Good (Function.update hands (.call id) pc.lease)) (hk : s.proceedKeeps pc = true) :
    (s.releaseLease pc.lease).Part (s.proceed visit pc) := by
  have h' := h.release
  cases pc with
  | registering m lease =>
    simp only [proceedKeeps, Bool.and_eq_true, Bool.not_eq_true'] at hk
    refine part_finishMove (fun d hd => h'.idle_of_activeAt ?_ hd) (gripAt_of_freeAt h' ?_)
    · rw [activeAt_releaseLease]
      exact hk.1
    · rw [freeAt_releaseLease]
      exact hk.2
  | unregistering serial caller ref lease =>
    refine part_finishUnregister fun d hd => h'.idle_of_activeAt ?_ hd
    rw [activeAt_releaseLease]
    simpa [proceedKeeps] using hk
  | stopping start todo lease => exact part_finishStopping h' start todo visit
  | releasing lease => exact part_refl _ rfl

end Scheduler

end ReticulumPi.Sdr
