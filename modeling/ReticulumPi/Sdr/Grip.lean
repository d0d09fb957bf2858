import ReticulumPi.Sdr.Scheduler

/-!
# Who has a grip on a dongle

The holder of a dongle and, for each of its slots, whether it is active and
what lease it keeps: the *grips*. Most operations leave the holder and the
grips of every dongle as they are (`Steady`), since a slot that is stored,
dropped or moved is idle; the others take the dongle from its holder (`Takes`)
or give it to a slot (`Grants`). Operations other than the thread's never make
a holder, and never bring back a registration (`Recedes`).
-/

namespace ReticulumPi.Sdr

/-- What a slot has of its dongle: whether it is active, its lease, and, while
    it is active, the lease of its last claim. -/
@[ext] structure Grip where
  active : Bool
  lease : Option Lease
  claimed : Option Lease

/-- No grip: also that of a caller without a slot. -/
def Grip.idle : Grip := ⟨false, none, none⟩

/-- The grip of the holder, with the lease it was granted the dongle for. -/
def Grip.holding (lease : Lease) : Grip := ⟨true, some lease, some lease⟩

/-- The grip of a slot. -/
def SignalSlot.grip (slot : SignalSlot) : Grip :=
  ⟨slot.isActive, slot.deviceLease, if slot.isActive then slot.lastClaim else none⟩

/-- The grips `g` are those under the holder `h`: the holder's slot is active
    with the lease of its last claim, and every other slot is idle. -/
def Held (h : Option String) (g : String → Grip) : Prop :=
  ∀ c, if h = some c then ∃ lease, g c = .holding lease else g c = .idle

theorem Held.idle {h : Option String} {g : String → Grip} (hg : Held h g) {c : String}
    (hc : (g c).active = false) : g c = .idle := by
  have := hg c
  split_ifs at this
  · obtain ⟨lease, hl⟩ := this
    rw [hl] at hc
    cases hc
  · exact this

theorem Held.active_iff {h : Option String} {g : String → Grip} (hg : Held h g) {c : String} :
    (g c).active = true ↔ h = some c := by
  have := hg c
  split_ifs at this with hh
  · obtain ⟨lease, hl⟩ := this
    simp [hl, hh, Grip.holding]
  · simp [this, hh, Grip.idle]

theorem Held.of_none {g : String → Grip} (hg : Held none g) (c : String) : g c = .idle := by
  simpa using hg c

namespace Dongle

variable {d d' d'' : Dongle} {c caller : String} {slot : SignalSlot} {f : SignalSlot → SignalSlot}

/-- The grip of a caller's slot. -/
def grip (d : Dongle) (c : String) : Grip := (d.slots.get? c).elim .idle SignalSlot.grip

/-! ## The slots after a change -/

theorem get?_modifySlot : (d.modifySlot caller f).slots.get? c =
    if c = caller then (d.slots.get? caller).map f else d.slots.get? c := by
  unfold modifySlot
  cases h : d.slots.get? caller with
  | none =>
    split_ifs with hc
    · simp [hc, h]
    · rfl
  | some x =>
    simp only [putSlot, Dict.get?_set, Option.map_some]

theorem get?_placeSlot : (d.placeSlot caller slot).slots.get? c =
    if c = caller then some slot else d.slots.get? c := by
  unfold placeSlot
  by_cases h : slot.priority = .background ∧ slot.continuous = true ∧
      caller ∉ (d.putSlot caller slot).bgOrder
  · rw [dif_pos h]
    exact Dict.get?_set
  · rw [dif_neg h]
    exact Dict.get?_set

theorem get?_dropSlot : (d.dropSlot caller).slots.get? c =
    if c = caller then none else d.slots.get? c := Dict.get?_erase

@[simp] theorem modifySlot_oid : (d.modifySlot caller f).oid = d.oid := by
  unfold modifySlot
  split <;> rfl

@[simp] theorem placeSlot_oid : (d.placeSlot caller slot).oid = d.oid := by
  unfold placeSlot
  dsimp only
  split <;> rfl

@[simp] theorem modifySlot_canonicalId : (d.modifySlot caller f).canonicalId = d.canonicalId := by
  unfold modifySlot
  split <;> rfl

@[simp] theorem modifySlot_currentHolder :
    (d.modifySlot caller f).currentHolder = d.currentHolder := by
  unfold modifySlot
  split <;> rfl

@[simp] theorem modifySlot_bgOrder : (d.modifySlot caller f).bgOrder = d.bgOrder := by
  unfold modifySlot
  split <;> rfl

@[simp] theorem modifySlot_bgIndex : (d.modifySlot caller f).bgIndex = d.bgIndex := by
  unfold modifySlot
  split <;> rfl

@[simp] theorem modifySlot_generation : (d.modifySlot caller f).generation = d.generation := by
  unfold modifySlot
  split <;> rfl

@[simp] theorem placeSlot_canonicalId :
    (d.placeSlot caller slot).canonicalId = d.canonicalId := by
  unfold placeSlot
  dsimp only
  split <;> rfl

@[simp] theorem placeSlot_currentHolder :
    (d.placeSlot caller slot).currentHolder = d.currentHolder := by
  unfold placeSlot
  dsimp only
  split <;> rfl

theorem grip_modifySlot : (d.modifySlot caller f).grip c =
    if c = caller then ((d.slots.get? caller).map f).elim .idle SignalSlot.grip else d.grip c := by
  simp only [grip, get?_modifySlot]
  split_ifs <;> rfl

theorem grip_placeSlot : (d.placeSlot caller slot).grip c =
    if c = caller then slot.grip else d.grip c := by
  simp only [grip, get?_placeSlot]
  split_ifs <;> rfl

theorem grip_dropSlot : (d.dropSlot caller).grip c =
    if c = caller then .idle else d.grip c := by
  simp only [grip, get?_dropSlot]
  split_ifs <;> rfl

/-! ## Changes that leave the grips alone -/

/-- The change from `d` to `d'` leaves the device, the holder and the grips alone. -/
structure Same (d d' : Dongle) : Prop where
  oid : d'.oid = d.oid
  canonicalId : d'.canonicalId = d.canonicalId
  holder : d'.currentHolder = d.currentHolder
  grip : ∀ c, d'.grip c = d.grip c

/-- Moreover all slots are the objects they were. -/
structure Like (d d' : Dongle) : Prop extends d.Same d' where
  origin : ∀ c x', d'.slots.get? c = some x' → ∃ x, d.slots.get? c = some x ∧
    x.registrationId = x'.registrationId ∧ x.lastClaim = x'.lastClaim

theorem Like.refl (d : Dongle) : d.Like d :=
  ⟨⟨rfl, rfl, rfl, fun _ => rfl⟩, fun _ x h => ⟨x, h, rfl, rfl⟩⟩

theorem Like.trans (h : d.Like d') (h' : d'.Like d'') : d.Like d'' where
  oid := h'.oid.trans h.oid
  canonicalId := h'.canonicalId.trans h.canonicalId
  holder := h'.holder.trans h.holder
  grip c := (h'.grip c).trans (h.grip c)
  origin c x hx := by
    obtain ⟨x', hx', hr, hl⟩ := h'.origin c x hx
    obtain ⟨x'', hx'', hr', hl'⟩ := h.origin c x' hx'
    exact ⟨x'', hx'', hr'.trans hr, hl'.trans hl⟩

/-- Other fields than the holder and the slots do not matter. -/
theorem Like.of_eq (ho : d'.oid = d.oid) (hc : d'.canonicalId = d.canonicalId)
    (hh : d'.currentHolder = d.currentHolder) (hs : d'.slots = d.slots) : d.Like d' where
  oid := ho
  canonicalId := hc
  holder := hh
  grip c := by rw [Dongle.grip, Dongle.grip, hs]
  origin c x hx := ⟨x, hs ▸ hx, rfl, rfl⟩

theorem like_modifySlot (hg : ∀ x, (f x).grip = x.grip)
    (ho : ∀ x, (f x).registrationId = x.registrationId ∧ (f x).lastClaim = x.lastClaim) :
    d.Like (d.modifySlot caller f) where
  oid := modifySlot_oid
  canonicalId := modifySlot_canonicalId
  holder := modifySlot_currentHolder
  grip c := by
    rw [grip_modifySlot]
    split_ifs with hc
    · subst hc
      rw [Dongle.grip]
      cases d.slots.get? c with
      | none => rfl
      | some x => exact hg x
    · rfl
  origin c x' hx' := by
    rw [get?_modifySlot] at hx'
    split_ifs at hx' with hc
    · obtain ⟨x, hx, rfl⟩ := Option.map_eq_some_iff.1 hx'
      exact ⟨x, hc ▸ hx, (ho x).1.symm, (ho x).2.symm⟩
    · exact ⟨x', hx', rfl, rfl⟩

theorem like_dropSlot (h : d.grip caller = .idle) : d.Like (d.dropSlot caller) where
  oid := rfl
  canonicalId := rfl
  holder := rfl
  grip c := by
    rw [grip_dropSlot]
    split_ifs with hc
    · rw [hc, h]
    · rfl
  origin c x hx := by
    rw [get?_dropSlot] at hx
    split_ifs at hx
    exact ⟨x, hx, rfl, rfl⟩

theorem like_expireWindows (now : ℚ) : d.Like (d.expireWindows now) where
  oid := rfl
  canonicalId := rfl
  holder := rfl
  grip c := by
    simp only [Dongle.grip, expireWindows, Dict.get?_map]
    cases d.slots.get? c <;> rfl
  origin c x hx := by
    simp only [expireWindows, Dict.get?_map] at hx
    obtain ⟨x', hx', rfl⟩ := Option.map_eq_some_iff.1 hx
    exact ⟨x', hx', rfl, rfl⟩

theorem like_scanBackground (n : ℕ) : d.Like (scanBackground n d).1 := by
  induction n generalizing d with
  | zero => exact .refl d
  | succ n ih =>
    simp only [scanBackground]
    split
    · exact .refl d
    · split
      · split
        · have h : d.Like { d with bgIndex := d.bgIndex + 1 } := .of_eq rfl rfl rfl rfl
          exact h.trans ih
        · exact .refl d
      · have h : d.Like (d.popBackground (d.bgIndex % d.bgOrder.length)) := .of_eq rfl rfl rfl rfl
        exact h.trans ih

theorem like_pickBackground (now : ℚ) : d.Like (d.pickBackground now).1 := by
  unfold pickBackground
  split
  · exact .refl d
  · refine .trans ?_ (like_scanBackground _)
    split
    · exact .of_eq rfl rfl rfl rfl
    · exact .refl d

theorem like_pickWinner (now : Clock) : d.Like (d.pickWinner now).1 := by
  unfold pickWinner
  split
  · exact .refl d
  · exact like_pickBackground _

end Dongle

namespace Scheduler

variable {s s' s'' : Scheduler} {ref : Ref} {key caller : String} {d : Dongle}

/-! ## The grips of a scheduler -/

/-- The holder of the dongle under `key`. -/
def holderAt (s : Scheduler) (key : String) : Option String :=
  (s.dongles.get? key).bind (·.currentHolder)

/-- The grip that the caller's slot has on the dongle under `key`. -/
def gripAt (s : Scheduler) (key caller : String) : Grip :=
  (s.dongles.get? key).elim .idle (·.grip caller)

/-- The caller's slot on the dongle under `key`. -/
def slotAt (s : Scheduler) (key caller : String) : Option SignalSlot :=
  (s.dongles.get? key).bind (·.slots.get? caller)

theorem dongle?_eq_some_iff :
    s.dongle? ref = some d ↔ s.dongles.get? ref.key = some d ∧ d.oid = ref.oid := by
  simp [dongle?, Option.filter_eq_some_iff]

theorem get?_of_dongle? (h : s.dongle? ref = some d) : s.dongles.get? ref.key = some d :=
  (dongle?_eq_some_iff.1 h).1

theorem dongle?_of_get? (h : s.dongles.get? key = some d) : s.dongle? ⟨key, d.oid⟩ = some d :=
  dongle?_eq_some_iff.2 ⟨h, rfl⟩

theorem ref?_eq_some_iff : s.ref? key = some ref ↔ ref.key = key ∧ ∃ d, s.dongle? ref = some d := by
  obtain ⟨k, o⟩ := ref
  simp only [ref?, Option.map_eq_some_iff, dongle?_eq_some_iff, Ref.mk.injEq]
  constructor
  · rintro ⟨d, hd, rfl, rfl⟩
    exact ⟨rfl, d, hd, rfl⟩
  · rintro ⟨rfl, d, hd, rfl⟩
    exact ⟨d, hd, rfl, rfl⟩

theorem holderAt_eq (h : s.dongles.get? key = some d) : s.holderAt key = d.currentHolder := by
  simp [holderAt, h]

theorem gripAt_eq (h : s.dongles.get? key = some d) : s.gripAt key caller = d.grip caller := by
  simp [gripAt, h]

theorem slotAt_eq (h : s.dongles.get? key = some d) : s.slotAt key caller = d.slots.get? caller := by
  simp [slotAt, h]

theorem modifyDongle_some (h : s.dongle? ref = some d) (f : Dongle → Dongle) :
    s.modifyDongle ref f = { s with dongles := s.dongles.set ref.key (f d) } := by
  simp [modifyDongle, h]

theorem modifyDongle_none (h : s.dongle? ref = none) (f : Dongle → Dongle) :
    s.modifyDongle ref f = s := by
  simp [modifyDongle, h]

/-! ## Steps that leave every grip alone -/

/-- The canonical ids lead to the dongles of these ids, and registration numbers
    are in use only up to the last one given out. -/
structure Tables (s : Scheduler) : Prop where
  canonical : ∀ i k, s.canonicalDongles.get? i = some k ↔
    ∃ d, s.dongles.get? k = some d ∧ d.canonicalId = i
  registered : ∀ k c x, s.slotAt k c = some x → x.registrationId ≤ s.nextRegistrationId

/-- The step from `s` to `s'` leaves holders, grips and leases as they are. -/
structure Steady (s s' : Scheduler) : Prop where
  tables : s.Tables → s'.Tables
  holder : ∀ k, s'.holderAt k = s.holderAt k
  grip : ∀ k c, s'.gripAt k c = s.gripAt k c
  nextLease : s'.nextLease = s.nextLease
  released : s'.released = s.released

/-- The step from `s` to `s'` makes no holder, and a slot of `s'` is one of `s`
    or has a new registration. -/
structure Recedes (s s' : Scheduler) : Prop where
  next_le : s.nextRegistrationId ≤ s'.nextRegistrationId
  holder : ∀ k, s.holderAt k = none → s'.holderAt k = none
  origin : ∀ k c x', s'.slotAt k c = some x' →
    (∃ x, s.slotAt k c = some x ∧ x.registrationId = x'.registrationId ∧
      x.lastClaim = x'.lastClaim) ∨
    s.nextRegistrationId < x'.registrationId

theorem Steady.refl (s : Scheduler) : s.Steady s := ⟨id, fun _ => rfl, fun _ _ => rfl, rfl, rfl⟩

theorem Steady.trans (h : s.Steady s') (h' : s'.Steady s'') : s.Steady s'' where
  tables ht := h'.tables (h.tables ht)
  holder k := (h'.holder k).trans (h.holder k)
  grip k c := (h'.grip k c).trans (h.grip k c)
  nextLease := h'.nextLease.trans h.nextLease
  released := h'.released.trans h.released

theorem Recedes.refl (s : Scheduler) : s.Recedes s :=
  ⟨le_rfl, fun _ h => h, fun _ _ x h => .inl ⟨x, h, rfl, rfl⟩⟩

theorem Recedes.trans (h : s.Recedes s') (h' : s'.Recedes s'') : s.Recedes s'' where
  next_le := h.next_le.trans h'.next_le
  holder k hk := h'.holder k (h.holder k hk)
  origin k c x hx := by
    rcases h'.origin k c x hx with ⟨x', hx', hr, hl⟩ | hlt
    · rcases h.origin k c x' hx' with ⟨x'', hx'', hr', hl'⟩ | hlt
      · exact .inl ⟨x'', hx'', hr'.trans hr, hl'.trans hl⟩
      · exact .inr (hr ▸ hlt)
    · exact .inr (h.next_le.trans_lt hlt)

/-- Fields that neither the grips nor the tables depend on do not matter. -/
theorem Steady.of_eq (hd : s'.dongles = s.dongles) (hc : s'.canonicalDongles = s.canonicalDongles)
    (hn : s'.nextRegistrationId = s.nextRegistrationId) (hl : s'.nextLease = s.nextLease)
    (hr : s'.released = s.released) : s.Steady s' where
  tables h := by
    refine ⟨fun i k => ?_, fun k c x hx => ?_⟩
    · rw [hd, hc]
      exact h.canonical i k
    · rw [hn]
      exact h.registered k c x (by rwa [slotAt, hd] at hx)
  holder k := by rw [holderAt, holderAt, hd]
  grip k c := by rw [gripAt, gripAt, hd]
  nextLease := hl
  released := hr

theorem Recedes.of_eq (hd : s'.dongles = s.dongles)
    (hn : s'.nextRegistrationId = s.nextRegistrationId) : s.Recedes s' where
  next_le := hn.ge
  holder k h := by rwa [holderAt, hd]
  origin k c x hx := .inl ⟨x, by rwa [slotAt, hd] at hx, rfl, rfl⟩

variable {f : Dongle → Dongle}

/-- The tables after one dongle was replaced by one of the same device. -/
theorem Tables.modifyDongle (h : s.Tables)
    (hc : ∀ d, s.dongle? ref = some d → (f d).canonicalId = d.canonicalId)
    (hr : ∀ d c x, s.dongle? ref = some d → (f d).slots.get? c = some x →
      x.registrationId ≤ s.nextRegistrationId) : (s.modifyDongle ref f).Tables := by
  rcases hd : s.dongle? ref with _ | d
  · rwa [modifyDongle_none hd]
  · rw [modifyDongle_some hd]
    refine ⟨fun i k => (h.canonical i k).trans ?_, fun k c x hx => ?_⟩
    · by_cases hkey : k = ref.key
      · subst hkey
        simp [get?_of_dongle? hd, hc d hd]
      · simp [Dict.get?_set_of_ne hkey]
    · simp only [slotAt, Dict.get?_set] at hx
      split_ifs at hx
      · exact hr d c x hd hx
      · exact h.registered k c x hx

theorem dongle?_modifyDongle (h : s.dongle? ref = some d)
    (ho : (f d).oid = d.oid) : (s.modifyDongle ref f).dongle? ref = some (f d) := by
  rw [modifyDongle_some h]
  exact dongle?_eq_some_iff.2 ⟨Dict.get?_set_self, ho.trans (dongle?_eq_some_iff.1 h).2⟩

theorem holderAt_modifyDongle (h : s.dongle? ref = some d) (f : Dongle → Dongle) (k : String) :
    (s.modifyDongle ref f).holderAt k =
      if k = ref.key then (f d).currentHolder else s.holderAt k := by
  rw [modifyDongle_some h]
  simp only [holderAt, Dict.get?_set]
  split_ifs <;> rfl

theorem gripAt_modifyDongle (h : s.dongle? ref = some d) (f : Dongle → Dongle) (k c : String) :
    (s.modifyDongle ref f).gripAt k c = if k = ref.key then (f d).grip c else s.gripAt k c := by
  rw [modifyDongle_some h]
  simp only [gripAt, Dict.get?_set]
  split_ifs <;> rfl

theorem slotAt_modifyDongle (h : s.dongle? ref = some d) (f : Dongle → Dongle) (k c : String) :
    (s.modifyDongle ref f).slotAt k c =
      if k = ref.key then (f d).slots.get? c else s.slotAt k c := by
  rw [modifyDongle_some h]
  simp only [slotAt, Dict.get?_set]
  split_ifs <;> rfl

variable (f)

@[simp] theorem modifyDongle_nextRegistrationId :
    (s.modifyDongle ref f).nextRegistrationId = s.nextRegistrationId := by
  unfold Scheduler.modifyDongle
  split <;> rfl

@[simp] theorem modifyDongle_nextLease : (s.modifyDongle ref f).nextLease = s.nextLease := by
  unfold Scheduler.modifyDongle
  split <;> rfl

@[simp] theorem modifyDongle_running : (s.modifyDongle ref f).running = s.running := by
  rw [modifyDongle]
  split <;> rfl

@[simp] theorem releaseLease_running (l : Option Lease) :
    (s.releaseLease l).running = s.running := by cases l <;> rfl

@[simp] theorem modifyDongle_released : (s.modifyDongle ref f).released = s.released := by
  unfold Scheduler.modifyDongle
  split <;> rfl

variable {f}

theorem steady_of_same (hf : ∀ d, s.dongle? ref = some d → d.Same (f d))
    (hr : s.Tables → ∀ d c x, s.dongle? ref = some d → (f d).slots.get? c = some x →
      x.registrationId ≤ s.nextRegistrationId) : s.Steady (s.modifyDongle ref f) where
  tables h := h.modifyDongle (fun d hd => (hf d hd).canonicalId) (hr h)
  holder k := by
    rcases hd : s.dongle? ref with _ | d
    · rw [modifyDongle_none hd]
    · rw [holderAt_modifyDongle hd]
      split_ifs with hk
      · rw [(hf d hd).holder, hk, holderAt_eq (get?_of_dongle? hd)]
      · rfl
  grip k c := by
    rcases hd : s.dongle? ref with _ | d
    · rw [modifyDongle_none hd]
    · rw [gripAt_modifyDongle hd]
      split_ifs with hk
      · rw [(hf d hd).grip, hk, gripAt_eq (get?_of_dongle? hd)]
      · rfl
  nextLease := by simp
  released := by simp

theorem steady_modifyDongle
    (hf : ∀ d, s.dongle? ref = some d → d.Like (f d)) : s.Steady (s.modifyDongle ref f) :=
  steady_of_same (fun d hd => (hf d hd).toSame) fun h d c x hd hx => by
    obtain ⟨x', hx', hr, -⟩ := (hf d hd).origin c x hx
    rw [← hr]
    exact h.registered ref.key c x' ((slotAt_eq (get?_of_dongle? hd)).trans hx')

theorem recedes_modifyDongle
    (hh : ∀ d, s.dongle? ref = some d → d.currentHolder = none → (f d).currentHolder = none)
    (ho : ∀ d c x', s.dongle? ref = some d → (f d).slots.get? c = some x' →
      ∃ x, d.slots.get? c = some x ∧ x.registrationId = x'.registrationId ∧
        x.lastClaim = x'.lastClaim) : s.Recedes (s.modifyDongle ref f) where
  next_le := by simp
  holder k h := by
    rcases hd : s.dongle? ref with _ | d
    · rwa [modifyDongle_none hd]
    · rw [holderAt_modifyDongle hd]
      split_ifs with hk
      · rw [hk, holderAt_eq (get?_of_dongle? hd)] at h
        exact hh d hd h
      · exact h
  origin k c x' hx' := by
    rcases hd : s.dongle? ref with _ | d
    · rw [modifyDongle_none hd] at hx'
      exact .inl ⟨x', hx', rfl, rfl⟩
    · rw [slotAt_modifyDongle hd] at hx'
      split_ifs at hx' with hk
      · obtain ⟨x, hx, h⟩ := ho d c x' hd hx'
        exact .inl ⟨x, by rw [hk, slotAt_eq (get?_of_dongle? hd), hx], h⟩
      · exact .inl ⟨x', hx', rfl, rfl⟩

theorem recedes_of_like (hf : ∀ d, s.dongle? ref = some d → d.Like (f d)) :
    s.Recedes (s.modifyDongle ref f) :=
  recedes_modifyDongle (fun d hd h => (hf d hd).holder.trans h) fun d c x' hd =>
    (hf d hd).origin c x'

end Scheduler

end ReticulumPi.Sdr
