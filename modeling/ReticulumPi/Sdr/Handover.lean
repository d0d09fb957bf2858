import ReticulumPi.Sdr.Grip

/-!
# What the scheduler's operations do to the grips

Each operation of the scheduler, and each part of one that gives up the
condition in the middle, leaves the grips alone (`Steady`), takes a dongle from
its holder (`Takes`) or gives one without holder to a slot (`Grants`).
-/

namespace ReticulumPi.Sdr

namespace Scheduler

variable {s s' : Scheduler} {ref source target : Ref} {key caller : String} {d : Dongle}
  {lease : Lease}

/-! ## Storage keys -/

theorem storageName_injective (canonicalId : String) :
    Function.Injective (storageName canonicalId) := by
  have hlen : ∀ n : ℕ, canonicalId ≠ canonicalId ++ "#" ++ toString n := fun n h => by
    have := congrArg String.length h
    simp only [String.length_append] at this
    have hone : "#".length = 1 := rfl
    omega
  have hrepr : ∀ m n : ℕ, toString m = toString n → m = n := fun m n h => by
    have h := congrArg (fun t : String => Nat.ofDigitChars 10 t.toList 0) h
    simpa [Nat.toString_eq_repr, Nat.toList_repr,
      Nat.ofDigitChars_toDigits (b := 10) (by omega) (by omega)] using h
  intro m n h
  rcases m with _ | m <;> rcases n with _ | n
  · rfl
  · exact absurd h (hlen _)
  · exact absurd h.symm (hlen _)
  · simp only [storageName, String.append_right_inj] at h
    have := hrepr _ _ h
    omega

variable {canonicalId : String}

/-- A canonical id that leads to no dongle gets a new storage key. -/
theorem get?_newStorageKey (h : s.Tables) (configured : String)
    (hc : s.canonicalDongles.get? canonicalId = none) :
    s.dongles.get? (s.newStorageKey configured canonicalId) = none := by
  unfold newStorageKey
  split
  · rename_i existing he
    split_ifs with hne
    · by_contra hfree
      obtain ⟨d, hd⟩ := Option.ne_none_iff_exists'.1 hfree
      exact Dict.freeKey_not_mem (storageName_injective canonicalId) (Dict.mem_keys.2 ⟨d, hd⟩)
    · have := (h.canonical canonicalId configured).2 ⟨existing, he, not_not.1 hne⟩
      rw [hc] at this
      cases this
  · assumption

theorem steady_ensureDongle (h : s.Tables) (configured canonicalId : String) :
    s.Steady (s.ensureDongle configured canonicalId).1 := by
  unfold ensureDongle
  rcases hc : s.canonicalDongles.get? canonicalId with _ | storageKey
  · have hfree := get?_newStorageKey h configured hc
    generalize s.newStorageKey configured canonicalId = k at hfree
    refine ⟨fun _ => ⟨fun i k' => ?_, fun k' c x hx => ?_⟩, fun k' => ?_, fun k' c => ?_, rfl, rfl⟩
    · -- The new pair is under a new key and a new id; the others are as before.
      have hold := h.canonical i k'
      simp only [Dict.get?_set]
      by_cases hi : i = canonicalId <;> by_cases hk : k' = k
      · simp [hi, hk]
      · have hno : ¬ ∃ d, s.dongles.get? k' = some d ∧ d.canonicalId = canonicalId := by
          rw [← h.canonical, hc]
          simp
        simpa [hi, hk, Ne.symm hk] using hno
      · have hno : s.canonicalDongles.get? i ≠ some k := fun hi' => by
          obtain ⟨d, hd, -⟩ := (h.canonical i k).1 hi'
          rw [hfree] at hd
          cases hd
        simp [hi, hk, hno, Ne.symm hi]
      · simpa [hi, hk] using hold
    · simp only [slotAt, Dict.get?_set] at hx
      split_ifs at hx
      · cases hx
      · exact h.registered k' c x hx
    · simp only [holderAt, Dict.get?_set]
      split_ifs with hk
      · rw [hk, hfree]
        rfl
      · rfl
    · simp only [gripAt, Dict.get?_set]
      split_ifs with hk
      · rw [hk, hfree]
        rfl
      · rfl
  · exact .refl s

theorem recedes_ensureDongle (h : s.Tables) (configured canonicalId : String) :
    s.Recedes (s.ensureDongle configured canonicalId).1 := by
  have hs := steady_ensureDongle h configured canonicalId
  refine ⟨?_, fun k hk => (hs.holder k).trans hk, fun k c x hx => .inl ⟨x, ?_, rfl, rfl⟩⟩
  · unfold ensureDongle
    split <;> exact le_rfl
  · unfold ensureDongle at hx
    split at hx
    · exact hx
    · simp only [slotAt, Dict.get?_set] at hx
      split_ifs at hx
      · cases hx
      · exact hx

/-! ## Storing, dropping and moving idle slots -/

theorem gripAt_of_dongle? (h : s.dongle? ref = some d) :
    d.grip caller = s.gripAt ref.key caller :=
  (gripAt_eq (get?_of_dongle? h)).symm

theorem slotAt_of_dongle? (h : s.dongle? ref = some d) :
    d.slots.get? caller = s.slotAt ref.key caller :=
  (slotAt_eq (get?_of_dongle? h)).symm

theorem like_removeSlot (h : d.grip caller = .idle) (n : ℕ) : d.Like (d.removeSlot caller n) :=
  (Dongle.like_dropSlot h).trans (.of_eq rfl rfl rfl rfl)

variable {slot : SignalSlot}

theorem same_addSlot (h : d.grip caller = .idle) (hslot : slot.grip = .idle) :
    d.Same (d.addSlot caller slot) where
  oid := Dongle.placeSlot_oid
  canonicalId := Dongle.placeSlot_canonicalId
  holder := Dongle.placeSlot_currentHolder
  grip c := by
    change (d.placeSlot caller slot).grip c = _
    rw [Dongle.grip_placeSlot]
    split_ifs with hc
    · rw [hc, h, hslot]
    · rfl

theorem recedes_removeSlot (n : Dongle → ℕ) :
    s.Recedes (s.modifyDongle ref fun d => d.removeSlot caller (n d)) :=
  recedes_modifyDongle (fun _ _ h => h) fun d c x _ hx => by
    change (d.dropSlot caller).slots.get? c = some x at hx
    rw [Dongle.get?_dropSlot] at hx
    split_ifs at hx
    exact ⟨x, hx, rfl, rfl⟩

theorem steady_removeSlot (h : ∀ d, s.dongle? ref = some d → d.grip caller = .idle)
    (n : Dongle → ℕ) : s.Steady (s.modifyDongle ref fun d => d.removeSlot caller (n d)) :=
  steady_modifyDongle fun d hd => like_removeSlot (h d hd) _

variable {serial : String}

theorem steady_finishUnregister {hadSlot : Bool}
    (h : ∀ d, s.dongle? ref = some d → d.grip caller = .idle) :
    s.Steady (s.finishUnregister ref serial caller hadSlot).1 :=
  (steady_removeSlot h _).trans (.of_eq rfl rfl rfl rfl rfl)

theorem recedes_finishUnregister {hadSlot : Bool} :
    s.Recedes (s.finishUnregister ref serial caller hadSlot).1 :=
  (recedes_removeSlot _).trans (.of_eq rfl rfl)

theorem steady_storeSlot {r : Registration} {storageKey : String}
    (h : s.gripAt storageKey r.caller = .idle) :
    s.Steady (s.storeSlot r canonicalId storageKey).1 := by
  unfold storeSlot
  rcases href : s.ref? storageKey with _ | ref
  · exact .refl s
  · obtain ⟨rfl, -⟩ := ref?_eq_some_iff.1 href
    have hcount : s.Steady (s.countRegistration r ref.key) :=
      ⟨fun ht => ⟨ht.canonical, fun k c x hx => (ht.registered k c x hx).trans (Nat.le_succ _)⟩,
        fun _ => rfl, fun _ _ => rfl, rfl, rfl⟩
    refine hcount.trans (steady_of_same (fun d hd => ?_) fun ht d c x hd hx => ?_)
    · exact same_addSlot ((gripAt_of_dongle? hd).trans h) rfl
    · change (d.placeSlot r.caller _).slots.get? c = some x at hx
      rw [Dongle.get?_placeSlot] at hx
      split_ifs at hx
      · cases hx
        exact le_rfl
      · exact ht.registered ref.key c x ((slotAt_of_dongle? hd).symm.trans hx)

theorem recedes_storeSlot {r : Registration} {storageKey : String} :
    s.Recedes (s.storeSlot r canonicalId storageKey).1 := by
  unfold storeSlot
  rcases s.ref? storageKey with _ | ref
  · exact .refl s
  refine ⟨(modifyDongle_nextRegistrationId _).ge.trans' (Nat.le_succ _), fun k hk => ?_,
    fun k c x hx => ?_⟩
  all_goals rcases hd : (s.countRegistration r storageKey).dongle? ref with _ | d
  · dsimp only
    rwa [modifyDongle_none hd]
  · dsimp only
    rw [holderAt_modifyDongle hd]
    split_ifs with hkey
    · have hold : d.currentHolder = none := by
        rw [← holderAt_eq (get?_of_dongle? hd), ← hkey]
        exact hk
      exact Dongle.placeSlot_currentHolder.trans hold
    · exact hk
  · dsimp only at hx
    rw [modifyDongle_none hd] at hx
    exact .inl ⟨x, hx, rfl, rfl⟩
  · dsimp only at hx
    rw [slotAt_modifyDongle hd] at hx
    change (if k = ref.key then (d.placeSlot r.caller _).slots.get? c else _) = some x at hx
    rw [Dongle.get?_placeSlot] at hx
    split_ifs at hx with hkey hc
    · -- The stored slot has the new registration number.
      cases hx
      exact .inr (Nat.lt_succ_self _)
    · rw [hkey]
      exact .inl ⟨x, (slotAt_of_dongle? hd).symm.trans hx, rfl, rfl⟩
    · exact .inl ⟨x, hx, rfl, rfl⟩

theorem steady_pruneEmptyProvisional (h : s.Tables) :
    s.Steady (s.pruneEmptyProvisional ref) := by
  unfold pruneEmptyProvisional
  rcases hd : s.dongle? ref with _ | d
  · exact .refl s
  dsimp only
  by_cases hbusy : d.slots.entries.isEmpty = false ∨ d.bgOrder ≠ [] ∨ d.currentHolder ≠ none ∨
      d.lockedBy ≠ none ∨ d.relockAfter ≠ none ∨ d.canonicalId ∈ s.managedAliases.values ∨
      ref.key ∈ s.registrations.values
  · rw [if_pos hbusy]
    exact .refl s
  rw [if_neg hbusy]
  push Not at hbusy
  obtain ⟨hempty, -, hholder, -⟩ := hbusy
  have hd := get?_of_dongle? hd
  have hnil : d.slots.entries = [] := List.isEmpty_iff.1 (by simpa using hempty)
  have hnone : ∀ c, d.slots.get? c = none := fun c => by
    rw [Dict.get?_eq_none_iff, hnil]
    simp
  have hcanon : s.canonicalDongles.get? d.canonicalId = some ref.key :=
    (h.canonical _ _).2 ⟨d, hd, rfl⟩
  rw [if_pos hcanon]
  refine ⟨fun _ => ⟨fun i k => ?_, fun k c x hx => ?_⟩, fun k => ?_, fun k c => ?_, rfl, rfl⟩
  · simp only [Dict.get?_erase]
    by_cases hi : i = d.canonicalId <;> by_cases hk : k = ref.key
    · simp [hi, hk]
    · -- Only the dropped dongle had that id.
      have hno : ¬ ∃ e, s.dongles.get? k = some e ∧ e.canonicalId = d.canonicalId := fun he =>
        hk (Option.some.inj (((h.canonical _ _).2 he).symm.trans hcanon))
      simpa [hi, hk] using hno
    · have hno : s.canonicalDongles.get? i ≠ some ref.key := fun hi' => by
        obtain ⟨e, he, rfl⟩ := (h.canonical _ _).1 hi'
        rw [hd] at he
        exact hi (congrArg _ (Option.some.inj he).symm)
      simp [hi, hk, hno]
    · simpa [hi, hk] using h.canonical i k
  · simp only [slotAt, Dict.get?_erase] at hx
    split_ifs at hx
    · cases hx
    · exact h.registered k c x hx
  · simp only [holderAt, Dict.get?_erase]
    split_ifs with hk
    · rw [hk, hd, Option.bind_none, Option.bind_some, hholder]
    · rfl
  · simp only [gripAt, Dict.get?_erase]
    split_ifs with hk
    · rw [hk, hd, Option.elim_none, Option.elim_some, Dongle.grip, hnone]
      rfl
    · rfl

theorem steady_moveSlot (htab : s.Tables) {e : Dongle}
    (hs : s.slot? source caller = some slot) (hidle : slot.grip = .idle)
    (ht : s.dongles.get? target.key = some e) (hkey : target.key ≠ source.key)
    (hno : e.slots.get? caller = none) :
    s.Steady (s.moveSlot source target caller slot canonicalId) := by
  obtain ⟨d, hd, hslot⟩ := Option.bind_eq_some_iff.1 hs
  have hgrip : d.grip caller = .idle := by
    rw [Dongle.grip, hslot]
    exact hidle
  set s₁ := s.modifyDongle source (·.moveSlotOff caller) with hs₁
  have h₁ : s.Steady s₁ := steady_modifyDongle fun e he => by
    obtain rfl : d = e := Option.some.inj (hd.symm.trans he)
    exact (Dongle.like_dropSlot hgrip).trans (.of_eq rfl rfl rfl rfl)
  have ht₁ : s₁.dongles.get? target.key = some e := by
    rw [hs₁, modifyDongle_some hd, Dict.get?_set_of_ne hkey, ht]
  have h₂ : s₁.Steady (s₁.modifyDongle target (·.addSlot caller
      { slot with canonicalId := canonicalId, allocationGeneration := 0 })) := by
    refine steady_of_same (fun e' he' => ?_) fun _ e' c x he' hx => ?_
    · obtain rfl : e = e' := Option.some.inj (ht₁.symm.trans (get?_of_dongle? he'))
      refine same_addSlot ?_ hidle
      rw [Dongle.grip, hno]
      rfl
    · change (e'.placeSlot caller _).slots.get? c = some x at hx
      rw [Dongle.get?_placeSlot] at hx
      split_ifs at hx
      · cases hx
        rw [hs₁, modifyDongle_nextRegistrationId]
        exact htab.registered source.key caller slot ((slotAt_of_dongle? hd).symm.trans hslot)
      · exact (h₁.tables htab).registered target.key c x ((slotAt_of_dongle? he').symm.trans hx)
  exact (h₁.trans h₂).trans (.of_eq rfl rfl rfl rfl rfl)

/-! ## Reconciling -/

theorem get?_ensureDongle (h : s.Tables) (configured canonicalId : String)
    (hd : s.dongles.get? key = some d) :
    (s.ensureDongle configured canonicalId).1.dongles.get? key = some d := by
  unfold ensureDongle
  rcases hc : s.canonicalDongles.get? canonicalId with _ | storageKey
  · have hne : key ≠ s.newStorageKey configured canonicalId := by
      rintro rfl
      rw [get?_newStorageKey h configured hc] at hd
      cases hd
    exact (Dict.get?_set_of_ne hne).trans hd
  · exact hd

/-- The storage key that `ensureDongle` answers leads to a dongle of that id. -/
theorem ensureDongle_get? (h : s.Tables) (configured canonicalId : String) :
    ∃ e, (s.ensureDongle configured canonicalId).1.dongles.get?
      (s.ensureDongle configured canonicalId).2 = some e := by
  unfold ensureDongle
  rcases hc : s.canonicalDongles.get? canonicalId with _ | storageKey
  · exact ⟨_, Dict.get?_set_self⟩
  · obtain ⟨e, he, -⟩ := (h.canonical _ _).1 hc
    exact ⟨e, he⟩

/-- A slot that is neither active nor keeps a lease is idle. -/
theorem grip_eq_idle (ha : slot.isActive = false)
    (hl : slot.deviceLease = none) : slot.grip = .idle := by
  simp [SignalSlot.grip, ha, hl, Grip.idle]

theorem slotIs?_eq_some {rid : ℕ} (h : s.slotIs? ref caller rid = some slot) :
    s.slot? ref caller = some slot ∧ slot.registrationId = rid := by
  simpa [slotIs?, Option.filter_eq_some_iff] using h

variable {f : SignalSlot → SignalSlot}

theorem like_modifySlot_if {rid : ℕ} (hg : ∀ x, (f x).grip = x.grip)
    (ho : ∀ x, (f x).registrationId = x.registrationId ∧ (f x).lastClaim = x.lastClaim) :
    d.Like (d.modifySlot caller fun x => if x.registrationId = rid then f x else x) := by
  refine Dongle.like_modifySlot (fun x => ?_) fun x => ?_
  · split_ifs
    · exact hg x
    · rfl
  · split_ifs
    · exact ho x
    · exact ⟨rfl, rfl⟩

theorem steady_modifySlot {rid : ℕ} (hg : ∀ x, (f x).grip = x.grip)
    (ho : ∀ x, (f x).registrationId = x.registrationId ∧ (f x).lastClaim = x.lastClaim) :
    s.Steady (s.modifySlot ref caller rid f) :=
  steady_modifyDongle fun _ _ => like_modifySlot_if hg ho

/-- Reconciling an idle slot leaves all grips alone, and finds its target. -/
theorem steady_reconcileIdleSlot (h : s.Tables) (source : Ref) (caller : String) (rid : ℕ)
    (canonicalId : String) :
    s.Steady (s.reconcileIdleSlot source caller rid canonicalId).1 ∧
      (s.reconcileIdleSlot source caller rid canonicalId).2 ≠ .raised := by
  unfold reconcileIdleSlot
  split
  · rename_i d slot hd hslot
    split_ifs with hbusy hsame
    · exact ⟨Steady.refl s, by simp⟩
    · exact ⟨steady_modifySlot (fun _ => rfl) fun _ => ⟨rfl, rfl⟩, by simp⟩
    · obtain ⟨hslot, -⟩ := slotIs?_eq_some hslot
      push Not at hbusy
      have hidle : slot.grip = .idle := grip_eq_idle (by simpa using hbusy.2.1) hbusy.2.2.1
      have hens := steady_ensureDongle h slot.serial canonicalId
      obtain ⟨e, he⟩ := ensureDongle_get? h slot.serial canonicalId
      have hkeep := get?_ensureDongle h slot.serial canonicalId (get?_of_dongle? hd)
      generalize s.ensureDongle slot.serial canonicalId = r at hens he hkeep ⊢
      obtain ⟨s₁, targetKey⟩ := r
      dsimp only at hens he hkeep ⊢
      rw [he]
      dsimp only
      split_ifs with htarget
      · exact ⟨hens, by simp⟩
      · push Not at htarget
        have hd₁ : s₁.dongle? source = some d :=
          dongle?_eq_some_iff.2 ⟨hkeep, (dongle?_eq_some_iff.1 hd).2⟩
        have hslot₁ : s₁.slot? source caller = some slot := by
          rw [slot?, hd₁]
          rwa [slot?, hd] at hslot
        -- Two dongles under one key would be one and the same object.
        have hkey : targetKey ≠ source.key := by
          rintro rfl
          obtain rfl := Option.some.inj (he.symm.trans hkeep)
          exact htarget.1 (dongle?_eq_some_iff.1 hd).2
        have hno : e.slots.get? caller = none := by
          by_contra hsome
          obtain ⟨x, hx⟩ := Option.ne_none_iff_exists'.1 hsome
          exact htarget.2 (Dict.mem_keys.2 ⟨x, hx⟩)
        have hmove : s₁.Steady (s₁.moveSlot source ⟨targetKey, e.oid⟩ caller slot canonicalId) :=
          steady_moveSlot (hens.tables h) hslot₁ hidle he hkey hno
        have hall := hens.trans hmove
        exact ⟨hall.trans (steady_pruneEmptyProvisional (hall.tables h)), by simp⟩
  · exact ⟨Steady.refl s, by simp⟩

/-! ## Taking a dongle from its holder, and giving it to a slot -/

/-- The step from `s` to `s'` takes the dongle under `k` from its holder `c`,
    with the lease that `c` held it by. -/
structure Takes (s s' : Scheduler) (k c : String) (lease : Lease) : Prop where
  tables : s.Tables → s'.Tables
  holder : s.holderAt k = some c
  grip : s.gripAt k c = .holding lease
  holder_after : ∀ k', s'.holderAt k' = if k' = k then none else s.holderAt k'
  grip_after : ∀ k' c', s'.gripAt k' c' = if k' = k ∧ c' = c then .idle else s.gripAt k' c'
  nextLease : s'.nextLease = s.nextLease
  released : s'.released = s.released

/-- The step from `s` to `s'` gives the dongle under `k`, which nobody holds, to
    `c` with a lease. -/
structure Grants (s s' : Scheduler) (k c : String) (lease : Lease) : Prop where
  tables : s.Tables → s'.Tables
  holder : s.holderAt k = none
  holder_after : ∀ k', s'.holderAt k' = if k' = k then some c else s.holderAt k'
  grip_after : ∀ k' c',
    s'.gripAt k' c' = if k' = k ∧ c' = c then .holding lease else s.gripAt k' c'
  nextLease : s'.nextLease = s.nextLease
  released : s'.released = s.released

variable {c : String}

theorem Steady.takes (h : s.Steady s') {s'' : Scheduler} {k : String}
    (ht : s'.Takes s'' k c lease) : s.Takes s'' k c lease where
  tables := ht.tables ∘ h.tables
  holder := (h.holder k).symm.trans ht.holder
  grip := (h.grip k c).symm.trans ht.grip
  holder_after k' := by rw [ht.holder_after, h.holder]
  grip_after k' c' := by rw [ht.grip_after, h.grip]
  nextLease := ht.nextLease.trans h.nextLease
  released := ht.released.trans h.released

theorem takes_modifyDongle {f : Dongle → Dongle} (hd : s.dongle? ref = some d)
    (hh : d.currentHolder = some c) (hg : d.grip c = .holding lease)
    (hc : (f d).canonicalId = d.canonicalId) (hh' : (f d).currentHolder = none)
    (hg' : ∀ c', (f d).grip c' = if c' = c then .idle else d.grip c')
    (ho : ∀ c' x', (f d).slots.get? c' = some x' →
      ∃ x, d.slots.get? c' = some x ∧ x.registrationId = x'.registrationId) :
    s.Takes (s.modifyDongle ref f) ref.key c lease where
  tables h := by
    refine h.modifyDongle (fun e he => ?_) fun e c' x he hx => ?_
    · obtain rfl : d = e := Option.some.inj (hd.symm.trans he)
      exact hc
    · obtain rfl : d = e := Option.some.inj (hd.symm.trans he)
      obtain ⟨x', hx', hr⟩ := ho c' x hx
      rw [← hr]
      exact h.registered ref.key c' x' ((slotAt_of_dongle? hd).symm.trans hx')
  holder := (holderAt_eq (get?_of_dongle? hd)).trans hh
  grip := (gripAt_of_dongle? hd).symm.trans hg
  holder_after k' := by rw [holderAt_modifyDongle hd, hh']
  grip_after k' c' := by
    rw [gripAt_modifyDongle hd, hg']
    by_cases hk : k' = ref.key
    · rw [if_pos hk, hk, gripAt_of_dongle? hd]
      simp
    · rw [if_neg hk, if_neg fun h => hk h.1]
  nextLease := by simp
  released := by simp

theorem grip_yieldSlot (preemptedBy c : String) :
    (d.yieldSlot caller preemptedBy).grip c = if c = caller then .idle else d.grip c := by
  change (d.modifySlot caller _).grip c = _
  rw [Dongle.grip_modifySlot]
  split_ifs
  · cases d.slots.get? caller <;> rfl
  · rfl

theorem origin_modifySlot {x' : SignalSlot} (h : (d.modifySlot caller f).slots.get? c = some x')
    (ho : ∀ x, (f x).registrationId = x.registrationId ∧ (f x).lastClaim = x.lastClaim) : ∃ x, d.slots.get? c = some x ∧
      x.registrationId = x'.registrationId ∧ x.lastClaim = x'.lastClaim := by
  rw [Dongle.get?_modifySlot] at h
  split_ifs at h with hc
  · obtain ⟨x, hx, rfl⟩ := Option.map_eq_some_iff.1 h
    exact ⟨x, hc ▸ hx, (ho x).1.symm, (ho x).2.symm⟩
  · exact ⟨x', h, rfl, rfl⟩

theorem origin_yieldSlot {preemptedBy : String} {x' : SignalSlot}
    (h : (d.yieldSlot caller preemptedBy).slots.get? c = some x') : ∃ x, d.slots.get? c = some x ∧
      x.registrationId = x'.registrationId ∧ x.lastClaim = x'.lastClaim := by
  change (d.modifySlot caller _).slots.get? c = some x' at h
  exact origin_modifySlot h fun _ => ⟨rfl, rfl⟩

/-- The holder yields: its lease is what `_do_yield` goes on to release. -/
theorem takes_doYield (preemptedBy : String) (hd : s.dongle? ref = some d)
    (hh : d.currentHolder = some caller) (hheld : Held d.currentHolder d.grip) :
    ∃ lease, (s.doYield ref caller preemptedBy).2 = some (some lease) ∧
      s.Takes (s.doYield ref caller preemptedBy).1 ref.key caller lease := by
  have hgrip := hheld caller
  rw [if_pos hh] at hgrip
  obtain ⟨lease, hlease⟩ := hgrip
  rcases hslot : d.slots.get? caller with _ | slot
  · rw [Dongle.grip, hslot] at hlease
    cases hlease
  · have hs : s.slot? ref caller = some slot := by rw [slot?, hd, Option.bind_some, hslot]
    have hl : slot.deviceLease = some lease := by
      rw [Dongle.grip, hslot] at hlease
      exact congrArg Grip.lease hlease
    refine ⟨lease, by simp [doYield, hs, hl], ?_⟩
    rw [doYield, hs]
    refine takes_modifyDongle hd hh hlease Dongle.modifySlot_canonicalId rfl
      (grip_yieldSlot preemptedBy) fun c' x' hx' => ?_
    obtain ⟨x, hx, hr, -⟩ := origin_yieldSlot hx'
    exact ⟨x, hx, hr⟩

theorem recedes_doYield {preemptedBy : String} :
    s.Recedes (s.doYield ref caller preemptedBy).1 := by
  unfold doYield
  split
  · exact recedes_modifyDongle (fun _ _ _ => rfl) fun d c x _ hx => ⟨x, hx, rfl, rfl⟩
  · exact recedes_modifyDongle (fun _ _ _ => rfl) fun d c x _ hx => origin_yieldSlot hx

/-! ## Release -/

variable (suspend : Bool)

theorem releaseSlot_slots : (d.releaseSlot caller suspend).slots = (d.modifySlot caller fun slot =>
      { slot with
        isActive := false
        suspended := slot.suspended || suspend
        releaseRequested := true
        deviceLease := none
        allocationGeneration := 0 }).slots := by
  unfold Dongle.releaseSlot Dongle.advanceBgIndex
  dsimp only
  split_ifs <;> rfl

theorem releaseSlot_oid : (d.releaseSlot caller suspend).oid = d.oid := by
  unfold Dongle.releaseSlot Dongle.advanceBgIndex
  dsimp only
  split_ifs <;> exact Dongle.modifySlot_oid

theorem releaseSlot_canonicalId : (d.releaseSlot caller suspend).canonicalId = d.canonicalId := by
  unfold Dongle.releaseSlot Dongle.advanceBgIndex
  dsimp only
  split_ifs <;> exact Dongle.modifySlot_canonicalId

theorem releaseSlot_holder : (d.releaseSlot caller suspend).currentHolder =
    if d.currentHolder = some caller then none else d.currentHolder := by
  unfold Dongle.releaseSlot Dongle.advanceBgIndex
  dsimp only
  rw [Dongle.modifySlot_currentHolder]
  split_ifs <;> rfl

theorem grip_releaseSlot (c : String) :
    (d.releaseSlot caller suspend).grip c = if c = caller then .idle else d.grip c := by
  rw [Dongle.grip, releaseSlot_slots, ← Dongle.grip, Dongle.grip_modifySlot]
  split_ifs
  · cases d.slots.get? caller <;> rfl
  · rfl

theorem origin_releaseSlot {suspend : Bool} {x' : SignalSlot}
    (h : (d.releaseSlot caller suspend).slots.get? c = some x') : ∃ x, d.slots.get? c = some x ∧
      x.registrationId = x'.registrationId ∧ x.lastClaim = x'.lastClaim := by
  rw [releaseSlot_slots] at h
  exact origin_modifySlot h fun _ => ⟨rfl, rfl⟩

theorem recedes_releaseSlot {suspend : Bool} {generation : Option ℕ} :
    s.Recedes (s.releaseSlot serial caller suspend generation).1 := by
  unfold releaseSlot
  split
  · exact .refl s
  · dsimp only
    split_ifs
    · exact .refl s
    · refine recedes_modifyDongle (fun d _ h => ?_) fun d c x _ hx => origin_releaseSlot hx
      rw [releaseSlot_holder, h]
      simp

/-- A release takes the dongle from the caller if it holds it, and else does nothing to the grips. -/
theorem releaseSlot_cases {suspend : Bool} {generation : Option ℕ}
    (hheld : ∀ k, Held (s.holderAt k) (s.gripAt k)) :
    (s.Steady (s.releaseSlot serial caller suspend generation).1 ∧
      (s.releaseSlot serial caller suspend generation).2.1 = none) ∨
    ∃ k lease, s.Takes (s.releaseSlot serial caller suspend generation).1 k caller lease ∧
      (s.releaseSlot serial caller suspend generation).2.1 = some lease := by
  unfold releaseSlot
  split
  · exact .inl ⟨.refl s, rfl⟩
  rename_i ref href
  dsimp only
  split_ifs
  · exact .inl ⟨.refl s, rfl⟩
  rcases hd : s.dongle? ref with _ | d
  · refine .inl ⟨?_, by rw [slot?, hd]; rfl⟩
    rw [modifyDongle_none hd]
    exact .refl s
  have hheld : Held d.currentHolder d.grip := by
    have := hheld ref.key
    rw [holderAt_eq (get?_of_dongle? hd)] at this
    intro c
    rw [gripAt_of_dongle? hd]
    exact this c
  have hslot : s.slot? ref caller = d.slots.get? caller := by rw [slot?, hd, Option.bind_some]
  by_cases hh : d.currentHolder = some caller
  · have hgrip := hheld caller
    rw [if_pos hh] at hgrip
    obtain ⟨lease, hlease⟩ := hgrip
    refine .inr ⟨ref.key, lease, takes_modifyDongle hd hh hlease (releaseSlot_canonicalId _)
      (by rw [releaseSlot_holder, if_pos hh]) (grip_releaseSlot _) fun c' x' hx' => ?_, ?_⟩
    · obtain ⟨x, hx, hr, -⟩ := origin_releaseSlot hx'
      exact ⟨x, hx, hr⟩
    · rw [hslot]
      rw [Dongle.grip] at hlease
      rcases hx : d.slots.get? caller with _ | x
      · rw [hx] at hlease
        cases hlease
      · rw [hx] at hlease
        exact congrArg Grip.lease hlease
  · have hidle : d.grip caller = .idle := by
      have := hheld caller
      rwa [if_neg hh] at this
    refine .inl ⟨steady_modifyDongle fun e he => ?_, ?_⟩
    · obtain rfl : d = e := Option.some.inj (hd.symm.trans he)
      refine ⟨⟨releaseSlot_oid _, releaseSlot_canonicalId _, by rw [releaseSlot_holder, if_neg hh], fun c => ?_⟩,
        fun c x hx => origin_releaseSlot hx⟩
      rw [grip_releaseSlot]
      split_ifs with hc
      · rw [hc, hidle]
      · rfl
    · rw [hslot]
      rw [Dongle.grip] at hidle
      rcases hx : d.slots.get? caller with _ | x
      · rfl
      · rw [hx] at hidle
        exact congrArg Grip.lease hidle

end Scheduler

end ReticulumPi.Sdr
