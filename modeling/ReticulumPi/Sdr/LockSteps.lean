import ReticulumPi.Sdr.Locks

/-!
# What the scheduler's steps do to the locks

Each call, or part of one, inherits the locks of all dongles, provided that it
takes away no slot for which a relock is due; a call that makes a slot yield in
order to take it away leaves the lock behind until then. The thread inherits
them too, provided that no holder that has locked its dongle yields to nobody,
and waits only where the dongle that it is about to grant has no holder.
-/

namespace ReticulumPi.Sdr

/-- The call is to take the slot of `c` off the dongle `ref`. -/
def CallPc.Removes : CallPc → Ref → String → Prop
  | .registering m _, ref, c => m.previous = ref ∧ m.registration.caller = c
  | .unregistering _ caller ref' _, ref, c => ref' = ref ∧ caller = c
  | _, _, _ => False

/-- What waits is to take the slot of `c` off the dongle `ref`. -/
def Progress.Removes : Progress → Ref → String → Prop
  | .waits pc, ref, c => pc.Removes ref c
  | _, _, _ => False

namespace Scheduler

variable {s s' : Scheduler} {ref : Ref} {c caller serial : String} {d : Dongle}
  {left gets : Ref → String → Prop} {lost : Ref → String → ℕ → Prop}

/-! ## The calls -/

theorem inherits_setSlot {f : SignalSlot → SignalSlot}
    (hr : ∀ x, (f x).registrationId = x.registrationId)
    (ha : ∀ x, (f x).isActive = true → x.isActive = true) :
    s.Inherits left gets lost (s.modifyDongle ref fun d => d.modifySlot caller f) :=
  inherits_modifyDongle fun _ _ => Dongle.inherits_modifySlot hr ha

theorem inherits_addWindow (w : TimeWindow) :
    s.Inherits left gets lost (s.addWindow serial caller w) := by
  unfold addWindow
  split
  · exact .refl s
  · exact inherits_setSlot (fun _ => rfl) fun _ h => h

theorem inherits_removeWindows : s.Inherits left gets lost (s.removeWindows serial caller) := by
  unfold removeWindows
  split
  · exact .refl s
  · exact inherits_setSlot (fun _ => rfl) fun _ h => h

theorem inherits_lock : s.Inherits left gets lost (s.lock serial caller).1 := by
  unfold lock
  split
  · exact Inherits.refl s
  · split_ifs with hh
    · refine inherits_modifyDongle fun d hd => Dongle.inherits_lock ?_
      rw [hd, Option.any_some, decide_eq_true_eq] at hh
      exact hh
    · exact .refl s

theorem inherits_unlock : s.Inherits left gets lost (s.unlock serial caller) := by
  unfold unlock
  split
  · exact .refl s
  · exact inherits_modifyDongle fun _ _ => Dongle.inherits_unlock

theorem inherits_resume (rid : ℕ) : s.Inherits left gets lost (s.resume serial caller rid).1 := by
  unfold resume
  split
  · exact .refl s
  · split_ifs
    · exact inherits_modifyDongle fun _ _ => Dongle.inherits_resumeSlot
    · exact .refl s

theorem inherits_releaseSlot (suspend : Bool) (generation : Option ℕ) :
    s.Inherits left gets lost (s.releaseSlot serial caller suspend generation).1 := by
  unfold releaseSlot
  split
  · exact .refl s
  · dsimp only
    split_ifs
    · exact .refl s
    · exact inherits_modifyDongle fun _ _ => Dongle.inherits_releaseSlot suspend

/-! ### Registering and unregistering -/

/-- No relock of the caller is due on the dongle under `key`. -/
def noRelockAt (s : Scheduler) (key caller : String) : Bool :=
  (s.dongles.get? key).all (·.relockAfter ≠ some caller)

variable {canonicalId storageKey : String}

theorem inherits_storeSlot {r : Registration} (h : s.noRelockAt storageKey r.caller = true) :
    s.Inherits left gets lost (s.storeSlot r canonicalId storageKey).1 := by
  unfold storeSlot
  split
  · exact Inherits.refl s
  · rename_i ref href
    obtain ⟨rfl, -⟩ := ref?_eq_some_iff.1 href
    have hcount : s.Inherits left gets lost (s.countRegistration r ref.key) := .of_eq rfl
    refine hcount.trans (inherits_modifyDongle fun d hd => Dongle.inherits_addSlot (fun hr => ?_) rfl)
    have hget : s.dongles.get? ref.key = some d := get?_of_dongle? hd
    rw [noRelockAt, hget, Option.all_some, decide_eq_true_eq] at h
    exact absurd hr h

theorem inherits_removeSlot (h : s.relockAfter? ref ≠ some caller) (n : Dongle → ℕ) :
    s.Inherits left gets lost (s.modifyDongle ref fun d => d.removeSlot caller (n d)) :=
  inherits_modifyDongle fun d hd => Dongle.inherits_removeSlot (by rwa [← relockAfter?_eq hd]) _

theorem noRelockAt_removeSlot (n : Dongle → ℕ) {key c : String} :
    (s.modifyDongle ref fun d => d.removeSlot caller (n d)).noRelockAt key c =
      s.noRelockAt key c := by
  rcases hd : s.dongle? ref with _ | d
  · rw [modifyDongle_none hd]
  · rw [modifyDongle_some hd, noRelockAt, noRelockAt, Dict.get?_set]
    split_ifs with hkey
    · rw [hkey, get?_of_dongle? hd]
      rfl
    · rfl

theorem inherits_finishMove {m : Move}
    (hprev : s.relockAfter? m.previous ≠ some m.registration.caller)
    (htarget : s.noRelockAt m.storageKey m.registration.caller = true) :
    s.Inherits left gets lost (s.finishMove m).1 :=
  (inherits_removeSlot hprev _).trans
    (inherits_storeSlot ((noRelockAt_removeSlot _).trans htarget))

theorem inherits_finishUnregister {hadSlot : Bool} (h : s.relockAfter? ref ≠ some caller) :
    s.Inherits left gets lost (s.finishUnregister ref serial caller hadSlot).1 :=
  (inherits_removeSlot h _).trans (.of_eq rfl)

/-- A slot that is active where its caller is the holder yields, and may be left with the lock. -/
theorem inherits_yieldActive (hact : ∀ ref c, s.activeAt ref c = true → s.holder? ref = some c)
    (ha : s.activeAt ref caller = true) (hleft : left ref caller) :
    s.Inherits left gets lost (s.doYield ref caller "").1 :=
  inherits_doYield (hact ref caller ha) (fun _ _ => hleft) fun _ hp => absurd rfl hp

/-- An active slot has a lease to release when it yields. -/
theorem doYield_active (preemptedBy : String) (ha : s.activeAt ref caller = true) :
    ∃ s' lease, s.doYield ref caller preemptedBy = (s', some lease) := by
  obtain ⟨x, hx, -⟩ := (Option.any_eq_true _ _).1 ha
  rw [doYield, hx]
  exact ⟨_, _, rfl⟩

/-- No relock of the caller is lost with its slot when it registers. -/
def registerKeepsRelock (s : Scheduler) (r : Registration) (storageKey : String) : Bool :=
  match s.movedFrom r.serial r.caller storageKey with
  | none => s.noRelockAt storageKey r.caller
  | some previous =>
    s.activeAt previous r.caller ||
      (s.relockAfter? previous ≠ some r.caller && s.noRelockAt storageKey r.caller)

theorem inherits_registerAt {r : Registration}
    (hact : ∀ ref c, s.activeAt ref c = true → s.holder? ref = some c)
    (hk : s.registerKeepsRelock r storageKey = true)
    (hleft : ∀ ref c, (s.registerAt r canonicalId storageKey).2.Removes ref c → left ref c) :
    s.Inherits left gets lost (s.registerAt r canonicalId storageKey).1 := by
  rw [registerKeepsRelock] at hk
  unfold registerAt at hleft ⊢
  rcases hm : s.movedFrom r.serial r.caller storageKey with _ | previous
  · rw [hm] at hk
    exact inherits_storeSlot hk
  · rw [hm] at hk hleft
    dsimp only at hk hleft ⊢
    by_cases ha : s.activeAt previous r.caller = true
    · rw [if_pos ha] at hleft ⊢
      obtain ⟨s', lease, heq⟩ := doYield_active "" ha
      have hy : s.Inherits left gets lost (s.doYield previous r.caller "").1 :=
        inherits_yieldActive hact ha (hleft _ _ (by rw [heq]; exact ⟨rfl, rfl⟩))
      rw [heq] at hy ⊢
      exact hy
    · rw [if_neg ha]
      rw [Bool.eq_false_iff.2 ha, Bool.false_or, Bool.and_eq_true, decide_eq_true_eq] at hk
      exact inherits_finishMove hk.1 hk.2

theorem inherits_unregister
    (hact : ∀ ref c, s.activeAt ref c = true → s.holder? ref = some c)
    (hk : (s.registrationDongle serial caller).all fun ref =>
      s.activeAt ref caller || s.relockAfter? ref ≠ some caller)
    (hleft : ∀ ref c, (s.unregister serial caller).2.Removes ref c → left ref c) :
    s.Inherits left gets lost (s.unregister serial caller).1 := by
  unfold unregister at hleft ⊢
  rcases href : s.registrationDongle serial caller with _ | ref
  · exact .refl s
  · rw [href] at hleft hk
    dsimp only at hleft ⊢
    by_cases ha : s.activeAt ref caller = true
    · rw [if_pos ha] at hleft ⊢
      obtain ⟨s', lease, heq⟩ := doYield_active "" ha
      have hy : s.Inherits left gets lost (s.doYield ref caller "").1 :=
        inherits_yieldActive hact ha (hleft _ _ (by rw [heq]; exact ⟨rfl, rfl⟩))
      rw [heq] at hy ⊢
      exact hy
    · rw [if_neg ha]
      rw [Option.all_some, Bool.eq_false_iff.2 ha, Bool.false_or, decide_eq_true_eq] at hk
      exact inherits_finishUnregister hk

/-! ### Stopping -/

/-- The holders that the loop of `stop` makes yield at once have not locked their dongles. -/
def stopKeepsNoLock (s : Scheduler) : List String → Bool
  | [] => true
  | key :: todo =>
    match s.dongles.get? key with
    | none => s.stopKeepsNoLock todo
    | some d =>
      match d.currentHolder with
      | none => s.stopKeepsNoLock todo
      | some holder =>
        if holder = "" then s.stopKeepsNoLock todo
        else
          s.keepsNoLock ⟨key, d.oid⟩ holder "" &&
            match s.doYield ⟨key, d.oid⟩ holder "" with
            | (_, some _) => true
            | (s, none) => s.stopKeepsNoLock todo

theorem inherits_stopFrom (start todo : List String) (hk : s.stopKeepsNoLock todo = true) :
    s.Inherits left gets lost (s.stopFrom start todo).1 := by
  induction todo generalizing s with
  | nil => exact .refl s
  | cons key todo ih =>
    rw [stopKeepsNoLock] at hk
    rw [stopFrom]
    split
    · rename_i hd
      rw [hd] at hk
      exact ih hk
    rename_i d hd
    rw [hd] at hk
    dsimp only at hk
    split
    · rename_i hh
      rw [hh] at hk
      exact ih hk
    rename_i holder hh
    rw [hh] at hk
    dsimp only at hk
    split_ifs at hk ⊢
    · exact ih hk
    · rw [Bool.and_eq_true] at hk
      have hy : s.Inherits left gets lost (s.doYield ⟨key, d.oid⟩ holder "").1 :=
        inherits_doYield_of_keepsNoLock hk.1 ((holder?_eq (dongle?_of_get? hd)).trans hh)
          fun _ hp => absurd rfl hp
      rcases heq : s.doYield ⟨key, d.oid⟩ holder "" with ⟨s', _ | lease⟩
      · rw [heq] at hk hy
        exact hy.trans (ih hk.2)
      · rw [heq] at hy
        exact hy

/-! ### Every call -/

/-- The start of the call leaves no lock behind for good, and takes away no slot
    for which a relock is due: none that is registered again, moved or
    unregistered, and `unlock` finds none. -/
def beginKeepsLocks (s : Scheduler) : Op → Bool
  | .register a =>
    if h : a.priority = .critical → a.continuous = true then
      let r := s.ensureDongle a.serial
        (s.registrationCanonicalId a.serial a.deviceSelector a.resolved)
      r.1.registerKeepsRelock ⟨a, h⟩ r.2
    else true
  | .unregister serial caller =>
    (s.registrationDongle serial caller).all fun ref =>
      s.activeAt ref caller || s.relockAfter? ref ≠ some caller
  | .unlock serial caller =>
    (s.registrationDongle serial caller).all fun ref => s.relockAfter? ref ≠ some caller
  | .stop => { s with running := false }.stopKeepsNoLock s.dongles.keys
  | _ => true

theorem inherits_begin {op : Op}
    (hact : ∀ ref c, s.activeAt ref c = true → s.holder? ref = some c)
    (hk : s.beginKeepsLocks op = true)
    (hleft : ∀ ref c, (s.begin op).2.Removes ref c → left ref c) :
    s.Inherits left gets lost (s.begin op).1 := by
  cases op with
  | register a =>
    rw [beginKeepsLocks] at hk
    change ∀ ref c, (s.register a).2.Removes ref c → left ref c at hleft
    change s.Inherits left gets lost (s.register a).1
    rw [register] at hleft ⊢
    split_ifs at hk hleft ⊢ with hcrit
    · rw [registerSlot] at hleft ⊢
      have hens : s.Inherits left gets lost (s.ensureDongle a.serial
          (s.registrationCanonicalId a.serial a.deviceSelector a.resolved)).1 :=
        inherits_ensureDongle _ _
      exact hens.trans (inherits_registerAt (hens.active hact) hk hleft)
    · exact .refl s
  | unregister serial caller => exact inherits_unregister hact hk hleft
  | addWindow serial caller w => exact inherits_addWindow w
  | removeWindows serial caller => exact inherits_removeWindows
  | lock serial caller => exact inherits_lock
  | unlock serial caller => exact inherits_unlock
  | dongleReleased serial caller generation => exact inherits_releaseSlot false generation
  | suspend serial caller generation => exact inherits_releaseSlot true generation
  | resume serial caller rid => exact inherits_resume rid
  | stop =>
    have hrun : s.Inherits left gets lost { s with running := false } := .of_eq rfl
    exact hrun.trans (inherits_stopFrom _ _ hk)

/-- A call that goes on takes away no slot for which a relock is due, and
    `stop` leaves no lock behind. -/
def proceedKeepsLocks (s : Scheduler) (visit : List String) : CallPc → Bool
  | .registering m _ =>
    s.relockAfter? m.previous ≠ some m.registration.caller &&
      s.noRelockAt m.storageKey m.registration.caller
  | .unregistering _ caller ref _ => s.relockAfter? ref ≠ some caller
  | .stopping start todo _ =>
    s.dongles.keys.length ≠ start.length ||
      s.stopKeepsNoLock (if s.dongles.keys = start then todo else visit)
  | .releasing _ => true

theorem inherits_proceed {pc : CallPc} {visit : List String}
    (hk : (s.releaseLease pc.lease).proceedKeepsLocks visit pc = true) :
    s.Inherits left gets lost (s.proceed visit pc).1 := by
  refine (inherits_releaseLease pc.lease).trans ?_
  cases pc with
  | registering m lease =>
    rw [proceedKeepsLocks, Bool.and_eq_true, decide_eq_true_eq] at hk
    exact inherits_finishMove hk.1 hk.2
  | unregistering serial caller ref lease =>
    rw [proceedKeepsLocks, decide_eq_true_eq] at hk
    exact inherits_finishUnregister hk
  | stopping start todo lease =>
    rw [proceedKeepsLocks, CallPc.lease, Bool.or_eq_true, decide_eq_true_eq] at hk
    change Inherits _ _ _ _ ((s.releaseLease lease).finishStopping start todo visit).1
    rw [finishStopping]
    split_ifs with hlen hkeys
    · exact .refl _
    · have hk := hk.resolve_left hlen
      rw [if_pos hkeys] at hk
      exact inherits_stopFrom _ _ hk
    · have hk := hk.resolve_left hlen
      rw [if_neg hkeys] at hk
      exact inherits_stopFrom _ _ hk
  | releasing lease => exact .refl _

/-! ### What a call clears -/

theorem lockedBy?_modifyDongle {f : Dongle → Dongle} {ref' : Ref} (ho : ∀ d, (f d).oid = d.oid)
    (hl : ∀ d, (f d).lockedBy = some c → d.lockedBy = some c)
    (h : (s.modifyDongle ref' f).lockedBy? ref = some c) : s.lockedBy? ref = some c := by
  rcases hd : s.dongle? ref' with _ | d
  · rwa [modifyDongle_none hd] at h
  by_cases heq : ref = ref'
  · subst heq
    rw [lockedBy?_eq (dongle?_modifyDongle hd (ho d))] at h
    rw [lockedBy?_eq hd]
    exact hl d h
  · rwa [lockedBy?, dongle?_modifyDongle_of_ne hd (ho d) heq] at h

theorem lockedBy?_storeSlot {r : Registration}
    (h : (s.storeSlot r canonicalId storageKey).1.lockedBy? ref = some c) :
    s.lockedBy? ref = some c := by
  rw [storeSlot] at h
  split at h
  · exact h
  · have hold : (s.countRegistration r storageKey).lockedBy? ref = some c :=
      lockedBy?_modifyDongle (fun _ => Dongle.addSlot_oid)
        (fun _ hl => Dongle.addSlot_lockedBy.symm.trans hl) h
    exact hold

/-- A slot that is taken off its dongle does not have the lock of the dongle any more. -/
theorem lockedBy?_removeSlot (n : Dongle → ℕ) :
    (s.modifyDongle ref fun d => d.removeSlot caller (n d)).lockedBy? ref ≠ some caller := by
  rcases hd : s.dongle? ref with _ | d
  · rw [modifyDongle_none hd, lockedBy?, hd]
    simp
  · have hd' := dongle?_modifyDongle (f := fun d => d.removeSlot caller (n d)) hd rfl
    rw [lockedBy?_eq hd']
    change (if d.lockedBy = some caller then none else d.lockedBy) ≠ some caller
    split_ifs with hl
    · simp
    · exact hl

theorem unlocked_proceed {pc : CallPc} {visit : List String} (h : pc.Removes ref c) :
    (s.proceed visit pc).1.lockedBy? ref ≠ some c := by
  cases pc with
  | registering m lease =>
    obtain ⟨rfl, rfl⟩ := h
    intro hl
    change ((s.releaseLease lease).finishMove m).1.lockedBy? m.previous = _ at hl
    have hdrop : ((s.releaseLease lease).dropPrevious m.previous
        m.registration.caller).lockedBy? m.previous ≠ some m.registration.caller :=
      lockedBy?_removeSlot _
    exact hdrop (lockedBy?_storeSlot hl)
  | unregistering serial caller ref' lease =>
    obtain ⟨rfl, rfl⟩ := h
    exact lockedBy?_removeSlot _
  | stopping start todo lease | releasing lease => exact h.elim

theorem relockAfter?_modifyDongle {f : Dongle → Dongle} (ho : ∀ d, (f d).oid = d.oid)
    (hr : ∀ d, (f d).relockAfter ≠ some c) :
    (s.modifyDongle ref f).relockAfter? ref ≠ some c := by
  rcases hd : s.dongle? ref with _ | d
  · rw [modifyDongle_none hd, relockAfter?, hd]
    simp
  · rw [relockAfter?_eq (dongle?_modifyDongle hd (ho d))]
    exact hr d

/-- A release that is not stale takes the relock away. -/
theorem relockAfter?_releaseSlot {suspend : Bool} {generation : Option ℕ}
    (href : s.registrationDongle serial caller = some ref)
    (hg : generation.all fun g => (s.slot? ref caller).any (·.allocationGeneration = g)) :
    (s.releaseSlot serial caller suspend generation).1.relockAfter? ref ≠ some caller := by
  rw [releaseSlot, href]
  have hstale : generation.any (fun g => !(s.slot? ref caller).any
      (·.allocationGeneration = g)) ≠ true := by
    cases generation with
    | none => simp
    | some g => simpa using hg
  dsimp only
  rw [if_neg hstale]
  refine relockAfter?_modifyDongle (fun _ => releaseSlot_oid _) fun d => ?_
  rw [Dongle.releaseSlot_relockAfter]
  split_ifs with hr
  · simp
  · exact hr

/-- An active slot that is to be unregistered yields, and loses its relock. -/
theorem relockAfter?_unregister (href : s.registrationDongle serial caller = some ref)
    (ha : s.activeAt ref caller = true) :
    (s.unregister serial caller).1.relockAfter? ref ≠ some caller := by
  obtain ⟨x, hx, -⟩ := (Option.any_eq_true _ _).1 ha
  rw [unregister, href]
  dsimp only
  rw [if_pos ha, doYield, hx]
  refine relockAfter?_modifyDongle (fun _ => Dongle.modifySlot_oid) fun d => ?_
  simp only [Dongle.yieldSlot, ne_eq, not_true_eq_false, and_false, if_false]
  split_ifs with hr
  · simp
  · exact hr

/-! ## The thread -/

theorem Inherits.holder_none (h : s.Inherits left (fun _ _ => False) lost s')
    (hn : s.holder? ref = none) : s'.holder? ref = none := by
  by_contra hsome
  obtain ⟨c, hc⟩ := Option.ne_none_iff_exists'.1 hsome
  rcases h.holder ref c hc with hold | hno
  · rw [hn] at hold
    cases hold
  · exact hno

/-- What the thread relies on when it goes on: nobody holds the dongle it has
    yielded or is about to grant, and a preflight is made against the holder. -/
def Clear (s : Scheduler) : ThreadPc → Prop
  | .preflight p => p.signature.currentHolder = some p.current
  | .yielding ref _ _ => s.holder? ref = none
  | .claiming a => s.holder? a.ref = none
  | .granting a _ => s.holder? a.ref = none
  | _ => True

theorem Clear.inherits {pc : ThreadPc} (h : s.Clear pc)
    (hi : s.Inherits left (fun _ _ => False) lost s') : s'.Clear pc := by
  cases pc with
  | preflight p => exact h
  | yielding ref l next | claiming a | granting a lease => exact hi.holder_none h
  | _ => trivial

variable {now : Clock} {a : Acquisition} {p : Preflight}

/-- The thread has taken a step in which it inherits the locks, and waits where nobody is in its way. -/
structure Turn (left : Ref → String → Prop) (lost : Ref → String → ℕ → Prop) (s : Scheduler)
    (r : Scheduler × ThreadPc) : Prop where
  inherits : s.Inherits left (fun _ _ => False) lost r.1
  clear : r.1.Clear r.2

theorem Turn.trans {r : Scheduler × ThreadPc} (h : s.Inherits left (fun _ _ => False) lost s')
    (h' : s'.Turn left lost r) : s.Turn left lost r := ⟨h.trans h'.inherits, h'.clear⟩

theorem turn_idle (h : s.Inherits left (fun _ _ => False) lost s') :
    s.Turn left lost (s', .idle) := ⟨h, trivial⟩

theorem turn_doAcquire (hh : s.holder? ref = none) :
    s.Turn left lost (s.doAcquire ref caller now) := by
  unfold doAcquire
  split
  · split_ifs
    · exact turn_idle (.refl s)
    · exact turn_idle (.refl s)
    · have hi : s.Inherits left (fun _ _ => False) lost
          (s.modifyDongle ref (·.allocateSlot caller)) :=
        inherits_modifyDongle fun _ _ => Dongle.inherits_allocateSlot
      exact ⟨hi, hi.holder_none hh⟩
  · exact turn_idle (.refl s)

theorem turn_afterYield (hh : s.holder? ref = none) (next : AfterYield) :
    s.Turn left lost (s.afterYield ref now next) := by
  cases next with
  | acquire caller => exact turn_doAcquire hh
  | pickBackground =>
    rw [afterYield]
    rcases hd : s.dongle? ref with _ | d
    · exact turn_idle (.refl s)
    have hi : s.Inherits left (fun _ _ => False) lost
        (s.modifyDongle ref fun _ => (d.pickBackground now.mono).1) :=
      inherits_modifyDongle fun e he => by
        obtain rfl : d = e := Option.some.inj (hd.symm.trans he)
        exact (Dongle.pickBackground_change _).inherits
    dsimp only
    split
    · split_ifs
      · exact turn_idle hi
      · exact .trans hi (turn_doAcquire (hi.holder_none hh))
    · exact turn_idle hi

theorem turn_yieldThen {preemptedBy : String} (next : AfterYield)
    (hi : s.Inherits left (fun _ _ => False) lost (s.doYield ref caller preemptedBy).1) :
    s.Turn left lost (s.yieldThen ref caller preemptedBy next now) := by
  have hh : (s.doYield ref caller preemptedBy).1.holder? ref = none := holder?_doYield
  unfold yieldThen
  rcases heq : s.doYield ref caller preemptedBy with ⟨s', _ | lease⟩
  · rw [heq] at hi hh
    exact .trans hi (turn_afterYield hh next)
  · rw [heq] at hi hh
    exact ⟨hi, hh⟩

theorem holder?_yieldThen {preemptedBy : String} (next : AfterYield) :
    (s.yieldThen ref caller preemptedBy next now).1.holder? ref = none := by
  have hh : (s.doYield ref caller preemptedBy).1.holder? ref = none := holder?_doYield
  unfold yieldThen
  rcases heq : s.doYield ref caller preemptedBy with ⟨s', _ | lease⟩
  · rw [heq] at hh
    have hturn : s'.Turn (fun _ _ => True) (fun _ _ _ => True) (s'.afterYield ref now next) :=
      turn_afterYield hh next
    exact hturn.inherits.holder_none hh
  · rw [heq] at hh
    exact hh

theorem clear_beginPreflight {current winner : String} {canPreempt : Bool}
    (hh : s.holder? ref = some current) :
    s.Clear ((s.beginPreflight ref current winner canPreempt now).elim .idle .preflight) := by
  rcases hp : s.beginPreflight ref current winner canPreempt now with _ | p
  · trivial
  rw [beginPreflight] at hp
  split at hp
  · rename_i d slot hd hslot
    rw [holder?_eq hd] at hh
    split_ifs at hp
    split at hp
    · cases hp
    · dsimp only at hp
      split_ifs at hp
      cases hp
      exact hh
  · cases hp

theorem turn_contend {current winner : String} (d : Dongle) (hh : s.holder? ref = some current) :
    s.Turn left lost (s.contend ref d current winner now) := by
  unfold contend
  split_ifs
  · exact ⟨.refl s, clear_beginPreflight hh⟩
  · exact ⟨.refl s, clear_beginPreflight hh⟩
  · exact turn_idle (.refl s)

/-- The window of a holder that has locked the dongle does not end with nobody
    to take its place. -/
def windowKeepsNoLock (s : Scheduler) (key : String) (now : Clock) : Bool :=
  (s.dongles.get? key).all fun d =>
    match d.winner now, d.currentHolder with
    | none, some current =>
      !(d.slots.get? current).any (·.priority = .scheduled) || d.lockedBy ≠ some current
    | _, _ => true

theorem turn_evaluate {key : String} (hk : s.windowKeepsNoLock key now = true) :
    s.Turn left lost (s.evaluate key now) := by
  rw [evaluate]
  rcases hd : s.dongles.get? key with _ | d
  · exact turn_idle (.refl s)
  rw [windowKeepsNoLock, hd, Option.all_some, Dongle.winner] at hk
  dsimp only
  have hchange := Dongle.pickWinner_change (d := d.expireWindows now.wall) now
  have hsame : ∀ c, ((d.expireWindows now.wall).slots.get? c).any (·.priority = .scheduled) =
      (d.slots.get? c).any (·.priority = .scheduled) := fun c => by
    rw [Dongle.get?_expireWindows, Option.any_map]
    rfl
  generalize (d.expireWindows now.wall).pickWinner now = r at hchange hk ⊢
  obtain ⟨e, winner⟩ := r
  dsimp only at hchange hk ⊢
  have href := dongle?_of_get? hd
  have hi : s.Inherits left (fun _ _ => False) lost (s.modifyDongle ⟨key, d.oid⟩ fun _ => e) :=
    inherits_modifyDongle fun d' hd' => by
      obtain rfl : d = d' := Option.some.inj (href.symm.trans hd')
      exact hchange.inherits_expireWindows
  have he : (s.modifyDongle ⟨key, d.oid⟩ fun _ => e).dongle? ⟨key, d.oid⟩ = some e :=
    dongle?_modifyDongle href hchange.oid
  refine .trans hi ?_
  split
  · exact turn_idle (.refl _)
  · rename_i hh
    exact turn_doAcquire ((holder?_eq he).trans hh)
  · rename_i current hh
    split_ifs with hsched
    · refine turn_yieldThen _ (inherits_doYield_of_keepsNoLock ?_ ((holder?_eq he).trans hh)
        fun _ hp => absurd rfl hp)
      have hcurrent : d.currentHolder = some current := hchange.holder.symm.trans hh
      have hlock : (s.modifyDongle ⟨key, d.oid⟩ fun _ => e).lockedBy? ⟨key, d.oid⟩ = d.lockedBy :=
        (lockedBy?_eq he).trans hchange.lockedBy
      rw [hchange.slots, hsame] at hsched
      rw [hcurrent] at hk
      dsimp only at hk
      rw [hsched, Bool.not_true, Bool.false_or] at hk
      rw [keepsNoLock, hlock, hk, Bool.true_or]
    · exact turn_idle (.refl _)
  · rename_i winner current hh
    split_ifs
    · exact turn_idle (Inherits.refl _)
    · exact turn_contend e ((holder?_eq he).trans hh)

/-! ### After a preflight -/

/-- The step from `s` to `s'` leaves the holder and the lock of `ref`, and who is
    registered there, as they are. -/
structure SameAt (ref : Ref) (s s' : Scheduler) : Prop where
  holder : s'.holder? ref = s.holder? ref
  locked : s'.lockedBy? ref = s.lockedBy? ref
  registered : ∀ c, s'.registrationId? ref c = s.registrationId? ref c

theorem SameAt.trans (h : SameAt ref s s') (h' : SameAt ref s' s'') : SameAt ref s s'' :=
  ⟨h'.holder.trans h.holder, h'.locked.trans h.locked,
    fun c => (h'.registered c).trans (h.registered c)⟩

theorem SameAt.of_eq (h : s'.dongles = s.dongles) : SameAt ref s s' := by
  have hd : s'.dongle? ref = s.dongle? ref := by rw [dongle?, dongle?, h]
  exact ⟨by rw [holder?, holder?, hd], by rw [lockedBy?, lockedBy?, hd],
    fun c => by rw [registrationId?, registrationId?, hd]⟩

theorem sameAt_modifySlot {rid : ℕ} {f : SignalSlot → SignalSlot}
    (hf : ∀ x, (f x).registrationId = x.registrationId) :
    SameAt ref s (s.modifySlot ref caller rid f) := by
  rw [modifySlot]
  rcases hd : s.dongle? ref with _ | d
  · rw [modifyDongle_none hd]
    exact .of_eq rfl
  have hsame := dongle?_modifyDongle (f := fun d => d.modifySlot caller fun slot =>
    if slot.registrationId = rid then f slot else slot) hd Dongle.modifySlot_oid
  refine ⟨?_, ?_, fun c => ?_⟩
  · rw [holder?_eq hsame, holder?_eq hd, Dongle.modifySlot_currentHolder]
  · rw [lockedBy?_eq hsame, lockedBy?_eq hd, Dongle.modifySlot_lockedBy]
  · rw [registrationId?_eq hsame, registrationId?_eq hd, Dongle.registrationId?_modifySlot]
    intro x
    split_ifs
    · exact hf x
    · rfl

theorem holder?_of_preflightCurrent (h : s.preflightCurrent p now = true) :
    s.holder? p.ref = p.signature.currentHolder := by
  rw [preflightCurrent] at h
  obtain ⟨d, hd, hcond⟩ := (Option.any_eq_true _ _).1 h
  simp only [Bool.and_eq_true, decide_eq_true_eq] at hcond
  rw [holder?_eq hd]
  tauto

/-- A preflight that lets the thread go on has found the holder it was made
    against, and has changed nothing but the slot it was made for. -/
theorem finishPreflight_goesOn {outcome : ClaimOutcome}
    (h : (s.finishPreflight p outcome now).2 = true) :
    SameAt p.ref s (s.finishPreflight p outcome now).1 ∧
      s.holder? p.ref = p.signature.currentHolder := by
  have hclaim : SameAt p.ref s (s.claimDevice outcome).1 := .of_eq (by cases outcome <;> rfl)
  rw [finishPreflight] at h ⊢
  generalize s.claimDevice outcome = r at hclaim h ⊢
  obtain ⟨s₁, l⟩ := r
  dsimp only at hclaim h ⊢
  by_cases hcur : s₁.preflightCurrent p now = false
  · rw [if_pos hcur] at h
    cases h
  rw [if_neg hcur] at h ⊢
  have hset : SameAt p.ref s₁ (s₁.modifySlot p.ref p.caller p.signature.registrationId fun slot =>
      { slot with
        identityPreflightAt := now.mono
        identityPreflightSignature := some p.signature
        identityPreflightDeferred := false }) := sameAt_modifySlot fun _ => rfl
  have hhold := holder?_of_preflightCurrent (by simpa using hcur)
  split at h
  · cases h
  · split_ifs at h ⊢
    refine ⟨(hclaim.trans hset).trans (.of_eq (by cases l <;> rfl)), ?_⟩
    rw [← hclaim.holder, hhold]

theorem inherits_setDeferred (b : Bool) : s.Inherits left gets lost (s.setDeferred ref p b) :=
  inherits_modifySlot (fun _ => rfl) fun _ h => h

theorem inherits_preflightMismatch {l : Option Lease} (canonicalId : String) :
    s.Inherits left gets lost (s.preflightMismatch p l canonicalId) := by
  have hi : s.Inherits left gets lost
      (s.reconcileIdleSlot p.ref p.caller p.signature.registrationId canonicalId).1 :=
    inherits_reconcileIdleSlot _ _ _ _
  unfold preflightMismatch
  split
  · rename_i heq
    rwa [heq] at hi
  all_goals
    rename_i heq
    rw [heq] at hi
    exact (hi.trans (inherits_setDeferred _)).trans (inherits_releaseLease _)

theorem inherits_finishPreflight (p : Preflight) (outcome : ClaimOutcome) (now : Clock) :
    s.Inherits left gets lost (s.finishPreflight p outcome now).1 := by
  have hclaim : s.Inherits left gets lost (s.claimDevice outcome).1 := inherits_claimDevice _
  rw [finishPreflight]
  generalize s.claimDevice outcome = r at hclaim ⊢
  obtain ⟨s₁, l⟩ := r
  dsimp only at hclaim ⊢
  refine hclaim.trans ?_
  split_ifs
  · exact inherits_releaseLease _
  · have hset : s₁.Inherits left gets lost
        (s₁.modifySlot p.ref p.caller p.signature.registrationId fun slot =>
          { slot with
            identityPreflightAt := now.mono
            identityPreflightSignature := some p.signature
            identityPreflightDeferred := false }) :=
      inherits_modifySlot (fun _ => rfl) fun _ h => h
    refine hset.trans ?_
    split
    · exact (inherits_setDeferred _).trans (inherits_releaseLease _)
    · split_ifs
      · exact inherits_preflightMismatch _
      · exact inherits_releaseLease _

/-! ### After a claim and a grant -/

theorem inherits_resetAllocation : s.Inherits left gets lost (s.resetAllocation ref a) :=
  inherits_modifySlot (fun _ => rfl) fun _ h => h

theorem inherits_deferAcquireRetry :
    s.Inherits left gets lost (s.modifyDongle ref (·.deferAcquireRetry a now)) := by
  refine inherits_modifyDongle fun d _ => Dongle.inherits_modifySlot (fun x => ?_) fun x hx => ?_
  · split_ifs <;> rfl
  · split_ifs at hx <;> exact hx

theorem inherits_acquireMismatch {l : Option Lease} (canonicalId : String) :
    s.Inherits left gets lost (s.acquireMismatch a l canonicalId now).1 := by
  have hi : s.Inherits left gets lost
      (s.reconcileIdleSlot a.ref a.caller a.registrationId canonicalId).1 :=
    inherits_reconcileIdleSlot _ _ _ _
  unfold acquireMismatch
  split
  · rename_i heq
    rwa [heq] at hi
  · rename_i s₁ target heq
    rw [heq] at hi
    have hset : s₁.Inherits left gets lost (s₁.modifySlot target a.caller a.registrationId
        ({ · with acquireRetrySignature := none })) :=
      inherits_modifySlot (fun _ => rfl) fun _ h => h
    exact ((hi.trans hset).trans inherits_resetAllocation).trans (inherits_releaseLease _)
  · rename_i heq
    rw [heq] at hi
    exact ((hi.trans inherits_deferAcquireRetry).trans inherits_resetAllocation).trans
      (inherits_releaseLease _)

theorem turn_settleClaim {l : Option Lease} {resolved : Option ResolvedDevice}
    (hh : s.holder? a.ref = none) : s.Turn left lost (s.settleClaim a resolved l now) := by
  rw [settleClaim]
  split_ifs
  · dsimp only
    split
    · exact ⟨inherits_resetAllocation, trivial⟩
    · exact turn_idle inherits_resetAllocation
  · dsimp only
    split
    · refine ⟨inherits_acquireMismatch _, ?_⟩
      rw [acquireMismatch]
      split <;> trivial
    · exact ⟨.refl s, hh⟩
    · have hset : s.Inherits left (fun _ _ => False) lost
          (s.modifySlot a.ref a.caller a.registrationId ({ · with allocationGeneration := 0 })) :=
        inherits_modifySlot (fun _ => rfl) fun _ h => h
      exact turn_idle (hset.trans inherits_deferAcquireRetry)

theorem turn_finishClaim {outcome : ClaimOutcome} (hh : s.holder? a.ref = none) :
    s.Turn left lost (s.finishClaim a outcome now) := by
  have hclaim : s.Inherits left (fun _ _ => False) lost (s.claimDevice outcome).1 :=
    inherits_claimDevice _
  rw [finishClaim]
  generalize s.claimDevice outcome = r at hclaim ⊢
  obtain ⟨s₁, l⟩ := r
  dsimp only at hclaim ⊢
  have hrecord : s₁.Inherits left (fun _ _ => False) lost (s₁.recordClaim a l) :=
    inherits_modifySlot (fun _ => rfl) fun _ h => h
  exact .trans (hclaim.trans hrecord) (turn_settleClaim ((hclaim.trans hrecord).holder_none hh))

theorem inherits_discard {lease : Lease} :
    s.Inherits left gets lost (s.discardSuccessfulAcquisition a lease).1 :=
  inherits_modifySlot (fun _ => rfl) fun _ h => h

/-- After the callback the thread gives the dongle to the slot, or takes a step without locks. -/
theorem inherits_finishGrant {lease : Lease} {callbackOk : Bool} (hh : s.holder? a.ref = none)
    (hg : gets a.ref a.caller) :
    s.Inherits left gets lost (s.finishGrant a lease callbackOk now).1 ∧
      (s.finishGrant a lease callbackOk now).1.Clear (s.finishGrant a lease callbackOk now).2 := by
  rw [finishGrant]
  split_ifs
  · exact ⟨((inherits_releaseLease _).trans inherits_resetAllocation).trans
      inherits_deferAcquireRetry, trivial⟩
  · exact ⟨inherits_discard, trivial⟩
  · split
    · split_ifs
      · exact ⟨inherits_discard, trivial⟩
      · have hset : s.Inherits left gets lost (s.modifySlot a.ref a.caller a.registrationId
            ({ · with releaseRequested := false })) :=
          inherits_modifySlot (fun _ => rfl) fun _ h => h
        exact ⟨hset.trans inherits_discard, trivial⟩
      · refine ⟨inherits_modifyDongle fun d hd => Dongle.inherits_grantSlot ?_ hg, trivial⟩
        rwa [← holder?_eq hd]
    · have hclear : s.Inherits left gets lost (s.modifyDongle a.ref fun d =>
          { d with relockAfter := if d.relockAfter = some a.caller then none else d.relockAfter }) :=
        inherits_modifyDongle fun _ _ => Dongle.inherits_clearRelock
      exact ⟨hclear.trans inherits_discard, trivial⟩

end Scheduler

end ReticulumPi.Sdr
