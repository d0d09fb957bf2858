import ReticulumPi.Sdr.Holder
import ReticulumPi.Sdr.Winner

/-!
# Who has locked a dongle

The lock of a dongle (`lockedBy`) and the relock that is due when a caller gets
it back (`relockAfter`), as the operations of the scheduler leave them. Every
operation *inherits* locks and relocks (`Inherits`): a lock is the holder's, or
was left behind before, or is left behind now; a relock was due before and its
slot is still there, or its slot has lost the dongle now. The operations that
can leave a lock behind, lose a dongle or give one to a slot name the dongle
and the slot.
-/

namespace ReticulumPi.Sdr

namespace Dongle

variable {d d' d'' : Dongle} {c caller : String} {slot : SignalSlot} {f : SignalSlot → SignalSlot}
  {left gets : String → Prop} {lost : String → ℕ → Prop}

/-- The registration of a caller's slot. -/
def registrationId? (d : Dongle) (c : String) : Option ℕ :=
  (d.slots.get? c).map (·.registrationId)

/-- The caller has an active slot. -/
def activeSlot (d : Dongle) (c : String) : Bool := (d.slots.get? c).any (·.isActive)

/-- The change from `d` to `d'` inherits the lock and the relock of the dongle,
    and who holds it and is active there. The callers that may be left with the
    lock, lose the dongle or get it are `left`, `lost` and `gets`. -/
structure Inherits (left gets : String → Prop) (lost : String → ℕ → Prop) (d d' : Dongle) :
    Prop where
  oid : d'.oid = d.oid
  holder : ∀ c, d'.currentHolder = some c → d.currentHolder = some c ∨ gets c
  locked : ∀ c, d'.lockedBy = some c →
    d'.currentHolder = some c ∨ (d.lockedBy = some c ∧ d.currentHolder ≠ some c) ∨ left c
  relock : ∀ c, d'.relockAfter = some c →
    (d.relockAfter = some c ∧ ∀ r, d.registrationId? c = some r → d'.registrationId? c = some r) ∨
    ∃ r, d'.registrationId? c = some r ∧ lost c r
  active : (∀ c, d.activeSlot c = true → d.currentHolder = some c) →
    ∀ c, d'.activeSlot c = true → d'.currentHolder = some c

/-- A change of other fields, which leaves every slot registered and makes none active. -/
theorem Inherits.of_eq (ho : d'.oid = d.oid) (hh : d'.currentHolder = d.currentHolder)
    (hl : d'.lockedBy = d.lockedBy) (hr : d'.relockAfter = d.relockAfter)
    (hs : ∀ c, d'.registrationId? c = d.registrationId? c)
    (ha : ∀ c, d'.activeSlot c = true → d.activeSlot c = true) :
    Inherits left gets lost d d' where
  oid := ho
  holder c h := .inl (hh ▸ h)
  locked c h := by
    rw [hh]
    rw [hl] at h
    by_cases hc : d.currentHolder = some c
    · exact .inl hc
    · exact .inr (.inl ⟨h, hc⟩)
  relock c h := .inl ⟨hr ▸ h, fun r hrid => (hs c).trans hrid⟩
  active h c hc := hh.trans (h c (ha c hc))

theorem Inherits.of_slots (ho : d'.oid = d.oid) (hh : d'.currentHolder = d.currentHolder)
    (hl : d'.lockedBy = d.lockedBy) (hr : d'.relockAfter = d.relockAfter)
    (hs : d'.slots = d.slots) : Inherits left gets lost d d' :=
  .of_eq ho hh hl hr (fun c => by rw [registrationId?, registrationId?, hs])
    fun c h => by rwa [activeSlot, hs] at h

theorem Inherits.setGeneration (h : Inherits left gets lost d d') (n : ℕ) :
    Inherits left gets lost d { d' with generation := n } :=
  ⟨h.oid, h.holder, h.locked, h.relock, h.active⟩

/-! ## Changes of the slots -/

theorem registrationId?_modifySlot (h : ∀ x, (f x).registrationId = x.registrationId) :
    (d.modifySlot caller f).registrationId? c = d.registrationId? c := by
  rw [registrationId?, registrationId?, get?_modifySlot]
  split_ifs with hc
  · subst hc
    rw [Option.map_map]
    exact congrArg (Option.map · _) (funext h)
  · rfl

theorem activeSlot_modifySlot : (d.modifySlot caller f).activeSlot c =
    if c = caller then (d.slots.get? caller).any (fun x => (f x).isActive) else d.activeSlot c := by
  rw [activeSlot, activeSlot, get?_modifySlot]
  split_ifs
  · rw [Option.any_map]
  · rfl

@[simp] theorem modifySlot_lockedBy : (d.modifySlot caller f).lockedBy = d.lockedBy := by
  unfold modifySlot
  split <;> rfl

@[simp] theorem modifySlot_relockAfter : (d.modifySlot caller f).relockAfter = d.relockAfter := by
  unfold modifySlot
  split <;> rfl

@[simp] theorem placeSlot_lockedBy : (d.placeSlot caller slot).lockedBy = d.lockedBy := by
  unfold placeSlot
  dsimp only
  split <;> rfl

@[simp] theorem placeSlot_relockAfter : (d.placeSlot caller slot).relockAfter = d.relockAfter := by
  unfold placeSlot
  dsimp only
  split <;> rfl

/-- A slot that stays registered and does not become active may change. -/
theorem inherits_modifySlot (hr : ∀ x, (f x).registrationId = x.registrationId)
    (ha : ∀ x, (f x).isActive = true → x.isActive = true) :
    Inherits left gets lost d (d.modifySlot caller f) := by
  refine .of_eq modifySlot_oid modifySlot_currentHolder modifySlot_lockedBy modifySlot_relockAfter
    (fun c => registrationId?_modifySlot hr) fun c hc => ?_
  rw [activeSlot_modifySlot] at hc
  split_ifs at hc with h
  · subst h
    obtain ⟨x, hx, hx'⟩ := (Option.any_eq_true _ _).1 hc
    exact (Option.any_eq_true _ _).2 ⟨x, hx, ha x hx'⟩
  · exact hc

theorem inherits_resumeSlot : Inherits left gets lost d (d.resumeSlot caller) := by
  have h : Inherits left gets lost d (d.modifySlot caller fun slot =>
      { slot with suspended := false, releaseRequested := false }) :=
    inherits_modifySlot (fun _ => rfl) fun _ h => h
  exact h.setGeneration _

theorem inherits_allocateSlot : Inherits left gets lost d (d.allocateSlot caller) := by
  have h : Inherits left gets lost d (d.modifySlot caller fun slot =>
      { slot with
        acquireRetrySignature := none
        releaseRequested := false
        allocationGeneration := d.generation + 1 }) :=
    inherits_modifySlot (fun _ => rfl) fun _ h => h
  exact h.setGeneration _

/-- A slot other than that of the relock is dropped. -/
theorem inherits_dropSlot (h : d.relockAfter ≠ some caller) (ho : d'.oid = d.oid)
    (hh : d'.currentHolder = d.currentHolder)
    (hl : d'.lockedBy = if d.lockedBy = some caller then none else d.lockedBy)
    (hr : d'.relockAfter = d.relockAfter) (hs : d'.slots = (d.dropSlot caller).slots) :
    Inherits left gets lost d d' where
  oid := ho
  holder c hc := .inl (hh ▸ hc)
  locked c hc := by
    rw [hl] at hc
    split_ifs at hc
    rw [hh]
    by_cases hholder : d.currentHolder = some c
    · exact .inl hholder
    · exact .inr (.inl ⟨hc, hholder⟩)
  relock c hc := by
    rw [hr] at hc
    refine .inl ⟨hc, fun r hrid => ?_⟩
    have hne : c ≠ caller := fun heq => h (heq ▸ hc)
    rwa [registrationId?, hs, get?_dropSlot, if_neg hne]
  active hact c hc := by
    rw [hh]
    refine hact c ?_
    rw [activeSlot, hs, get?_dropSlot] at hc
    split_ifs at hc
    · cases hc
    · exact hc

theorem inherits_removeSlot (h : d.relockAfter ≠ some caller) (n : ℕ) :
    Inherits left gets lost d (d.removeSlot caller n) :=
  inherits_dropSlot h rfl rfl rfl rfl rfl

theorem addSlot_oid : (d.addSlot caller slot).oid = d.oid := placeSlot_oid

theorem addSlot_lockedBy : (d.addSlot caller slot).lockedBy = d.lockedBy := placeSlot_lockedBy

theorem inherits_addSlot (h : d.relockAfter = some caller → d.slots.get? caller = none)
    (hs : slot.isActive = false) : Inherits left gets lost d (d.addSlot caller slot) where
  oid := addSlot_oid
  holder c hc := .inl (placeSlot_currentHolder.symm.trans hc)
  locked c hc := by
    have hholder : (d.addSlot caller slot).currentHolder = d.currentHolder :=
      placeSlot_currentHolder
    have hlock : d.lockedBy = some c := addSlot_lockedBy.symm.trans hc
    rw [hholder]
    by_cases hh : d.currentHolder = some c
    · exact .inl hh
    · exact .inr (.inl ⟨hlock, hh⟩)
  relock c hc := by
    have hdue : d.relockAfter = some c := placeSlot_relockAfter.symm.trans hc
    refine .inl ⟨hdue, fun r hrid => ?_⟩
    change ((d.placeSlot caller slot).slots.get? c).map (·.registrationId) = some r
    rw [get?_placeSlot]
    split_ifs with heq
    · subst heq
      rw [registrationId?, h hdue] at hrid
      cases hrid
    · exact hrid
  active hact c hc := by
    have hholder : (d.addSlot caller slot).currentHolder = d.currentHolder :=
      placeSlot_currentHolder
    rw [hholder]
    refine hact c ?_
    change ((d.placeSlot caller slot).slots.get? c).any (·.isActive) = true at hc
    rw [get?_placeSlot] at hc
    split_ifs at hc
    · rw [Option.any_some, hs] at hc
      cases hc
    · exact hc

theorem inherits_moveSlotOff : Inherits left gets lost d (d.moveSlotOff caller) where
  oid := rfl
  holder c hc := .inl hc
  locked c hc := by
    by_cases hh : d.currentHolder = some c
    · exact .inl hh
    · exact .inr (.inl ⟨hc, hh⟩)
  relock c hc := by
    change (if d.relockAfter = some caller then none else d.relockAfter) = some c at hc
    split_ifs at hc with hnot
    have hne : c ≠ caller := fun heq => hnot (heq ▸ hc)
    refine .inl ⟨hc, fun r hrid => ?_⟩
    change ((d.dropSlot caller).slots.get? c).map (·.registrationId) = some r
    rw [get?_dropSlot, if_neg hne]
    exact hrid
  active hact c hc := by
    refine hact c ?_
    change ((d.dropSlot caller).slots.get? c).any (·.isActive) = true at hc
    rw [get?_dropSlot] at hc
    split_ifs at hc
    · cases hc
    · exact hc

/-! ## Yielding, releasing and granting -/

/-- The holder yields: it is left with its lock, unless it has lost the dongle to `preemptedBy`. -/
theorem inherits_yieldSlot {preemptedBy : String} (hh : d.currentHolder = some caller)
    (hleft : d.lockedBy = some caller → preemptedBy = "" → left caller)
    (hlost : d.lockedBy = some caller → preemptedBy ≠ "" →
      ∃ r, d.registrationId? caller = some r ∧ lost caller r) :
    Inherits left gets lost d (d.yieldSlot caller preemptedBy) where
  oid := modifySlot_oid
  holder c hc := by cases hc
  locked c hc := by
    change (if d.lockedBy = some caller ∧ preemptedBy ≠ "" then none else d.lockedBy) = some c at hc
    split_ifs at hc with hcase
    by_cases heq : c = caller
    · subst heq
      exact .inr (.inr (hleft hc (by simpa [hc] using hcase)))
    · refine .inr (.inl ⟨hc, ?_⟩)
      rw [hh]
      exact fun h => heq (Option.some.inj h).symm
  relock c hc := by
    have hrid : (d.yieldSlot caller preemptedBy).registrationId? c = d.registrationId? c := by
      change (d.modifySlot caller _).registrationId? c = _
      exact registrationId?_modifySlot fun _ => rfl
    change (if d.lockedBy = some caller ∧ preemptedBy ≠ "" then some caller
      else if d.relockAfter = some caller then none else d.relockAfter) = some c at hc
    rw [hrid]
    split_ifs at hc with hcase hne
    · cases hc
      exact .inr (hlost hcase.1 hcase.2)
    · exact .inl ⟨hc, fun r hr => hr⟩
  active hact c hc := by
    change (d.modifySlot caller _).activeSlot c = true at hc
    rw [activeSlot_modifySlot] at hc
    split_ifs at hc with heq
    · simp at hc
    · have := hact c hc
      rw [hh] at this
      exact absurd (Option.some.inj this).symm heq

/-- A caller without a slot loses the title of holder. -/
theorem inherits_clearHolder (hh : d.currentHolder = some caller)
    (hleft : d.lockedBy = some caller → left caller) (hslot : d.slots.get? caller = none) :
    Inherits left gets lost d { d with currentHolder := none } where
  oid := rfl
  holder c hc := by cases hc
  locked c hc := by
    by_cases heq : c = caller
    · subst heq
      exact .inr (.inr (hleft hc))
    · refine .inr (.inl ⟨hc, ?_⟩)
      rw [hh]
      exact fun h => heq (Option.some.inj h).symm
  relock c hc := .inl ⟨hc, fun r hr => hr⟩
  active hact c hc := by
    have := hact c hc
    rw [hh] at this
    cases this
    change (d.slots.get? caller).any (·.isActive) = true at hc
    rw [hslot] at hc
    cases hc

theorem releaseSlot_lockedBy (suspend : Bool) : (d.releaseSlot caller suspend).lockedBy =
    if d.lockedBy = some caller then none else d.lockedBy := by
  unfold releaseSlot advanceBgIndex
  dsimp only
  split_ifs <;> simp_all

theorem releaseSlot_relockAfter (suspend : Bool) : (d.releaseSlot caller suspend).relockAfter =
    if d.relockAfter = some caller then none else d.relockAfter := by
  unfold releaseSlot advanceBgIndex
  dsimp only
  split_ifs <;> simp_all

theorem inherits_releaseSlot (suspend : Bool) :
    Inherits left gets lost d (d.releaseSlot caller suspend) where
  oid := Scheduler.releaseSlot_oid suspend
  holder c hc := by
    rw [Scheduler.releaseSlot_holder] at hc
    split_ifs at hc
    exact .inl hc
  locked c hc := by
    rw [releaseSlot_lockedBy] at hc
    split_ifs at hc with hnot
    have hne : c ≠ caller := fun heq => hnot (heq ▸ hc)
    rw [Scheduler.releaseSlot_holder]
    by_cases hh : d.currentHolder = some c
    · left
      rw [if_neg (by simpa [hh] using hne), hh]
    · exact .inr (.inl ⟨hc, hh⟩)
  relock c hc := by
    rw [releaseSlot_relockAfter] at hc
    split_ifs at hc
    refine .inl ⟨hc, fun r hr => ?_⟩
    rw [registrationId?, Scheduler.releaseSlot_slots, ← registrationId?, registrationId?_modifySlot]
    · exact hr
    · exact fun _ => rfl
  active hact c hc := by
    rw [activeSlot, Scheduler.releaseSlot_slots, ← activeSlot, activeSlot_modifySlot] at hc
    split_ifs at hc with hne
    · simp at hc
    · have hh := hact c hc
      rw [Scheduler.releaseSlot_holder, hh, if_neg]
      exact fun h => hne (Option.some.inj h)

theorem grantSlot_lockedBy {a : Acquisition} {lease : Lease} {now : Clock} :
    (d.grantSlot a lease now).lockedBy =
      if d.relockAfter = some a.caller then some a.caller else d.lockedBy := by
  unfold grantSlot
  dsimp only
  split_ifs <;> simp_all

theorem grantSlot_relockAfter {a : Acquisition} {lease : Lease} {now : Clock} :
    (d.grantSlot a lease now).relockAfter =
      if d.relockAfter = some a.caller then none else d.relockAfter := by
  unfold grantSlot
  dsimp only
  split_ifs <;> simp_all

/-- A dongle without holder is given to a slot, which takes up its relock. -/
theorem inherits_grantSlot {a : Acquisition} {lease : Lease} {now : Clock}
    (hh : d.currentHolder = none) (hg : gets a.caller) :
    Inherits left gets lost d (d.grantSlot a lease now) where
  oid := Scheduler.grantSlot_oid
  holder c hc := by
    rw [Scheduler.grantSlot_currentHolder] at hc
    cases hc
    exact .inr hg
  locked c hc := by
    rw [grantSlot_lockedBy] at hc
    rw [Scheduler.grantSlot_currentHolder]
    split_ifs at hc
    · exact .inl hc
    · exact .inr (.inl ⟨hc, by simp [hh]⟩)
  relock c hc := by
    rw [grantSlot_relockAfter] at hc
    split_ifs at hc
    refine .inl ⟨hc, fun r hr => ?_⟩
    rw [registrationId?, Scheduler.grantSlot_slots, ← registrationId?, registrationId?_modifySlot]
    · exact hr
    · exact fun _ => rfl
  active hact c hc := by
    rw [activeSlot, Scheduler.grantSlot_slots, ← activeSlot, activeSlot_modifySlot] at hc
    rw [Scheduler.grantSlot_currentHolder]
    split_ifs at hc with heq
    · rw [heq]
    · have := hact c hc
      rw [hh] at this
      cases this

/-! ## Locking and unlocking -/

theorem inherits_lock (hh : d.currentHolder = some caller) :
    Inherits left gets lost d { d with lockedBy := some caller } where
  oid := rfl
  holder c hc := .inl hc
  locked c hc := .inl (hh.trans hc)
  relock c hc := .inl ⟨hc, fun r hr => hr⟩
  active h := h

theorem inherits_unlock :
    Inherits left gets lost d
      { d with lockedBy := if d.lockedBy = some caller then none else d.lockedBy } where
  oid := rfl
  holder c hc := .inl hc
  locked c hc := by
    by_cases hh : d.currentHolder = some c
    · exact .inl hh
    · dsimp only at hc
      split_ifs at hc
      exact .inr (.inl ⟨hc, hh⟩)
  relock c hc := .inl ⟨hc, fun r hr => hr⟩
  active h := h

theorem inherits_clearRelock :
    Inherits left gets lost d
      { d with relockAfter := if d.relockAfter = some caller then none else d.relockAfter } where
  oid := rfl
  holder c hc := .inl hc
  locked c hc := by
    by_cases hh : d.currentHolder = some c
    · exact .inl hh
    · exact .inr (.inl ⟨hc, hh⟩)
  relock c hc := by
    dsimp only at hc
    split_ifs at hc
    exact .inl ⟨hc, fun r hr => hr⟩
  active h := h

/-! ## The queue and the windows -/

theorem QueueChange.inherits (h : d.QueueChange d') : Inherits left gets lost d d' :=
  .of_slots h.oid h.holder h.lockedBy h.relockAfter h.slots

theorem QueueChange.inherits_expireWindows {now : ℚ} (h : (d.expireWindows now).QueueChange d') :
    Inherits left gets lost d d' := by
  refine .of_eq h.oid h.holder h.lockedBy h.relockAfter (fun c => ?_) fun c hc => ?_
  · rw [registrationId?, h.slots, get?_expireWindows, Option.map_map]
    rfl
  · rw [activeSlot, h.slots, get?_expireWindows, Option.any_map] at hc
    exact hc

end Dongle

namespace Scheduler

variable {s s' s'' : Scheduler} {ref source target : Ref} {c caller serial : String} {d : Dongle}
  {left gets : Ref → String → Prop} {lost : Ref → String → ℕ → Prop}

/-! ## The locks of a scheduler -/

/-- Who holds the dongle `ref`. -/
def holder? (s : Scheduler) (ref : Ref) : Option String := (s.dongle? ref).bind (·.currentHolder)

/-- Who has locked the dongle `ref`. -/
def lockedBy? (s : Scheduler) (ref : Ref) : Option String := (s.dongle? ref).bind (·.lockedBy)

/-- Who is to have the lock of the dongle `ref` again. -/
def relockAfter? (s : Scheduler) (ref : Ref) : Option String :=
  (s.dongle? ref).bind (·.relockAfter)

/-- The registration of the caller's slot on the dongle `ref`. -/
def registrationId? (s : Scheduler) (ref : Ref) (c : String) : Option ℕ :=
  (s.dongle? ref).bind (·.registrationId? c)

/-- The step from `s` to `s'` inherits the locks of all dongles; see `Dongle.Inherits`. -/
structure Inherits (left gets : Ref → String → Prop) (lost : Ref → String → ℕ → Prop)
    (s s' : Scheduler) : Prop where
  holder : ∀ ref c, s'.holder? ref = some c → s.holder? ref = some c ∨ gets ref c
  locked : ∀ ref c, s'.lockedBy? ref = some c →
    s'.holder? ref = some c ∨ (s.lockedBy? ref = some c ∧ s.holder? ref ≠ some c) ∨ left ref c
  relock : ∀ ref c, s'.relockAfter? ref = some c →
    (s.relockAfter? ref = some c ∧
      ∀ r, s.registrationId? ref c = some r → s'.registrationId? ref c = some r) ∨
    ∃ r, s'.registrationId? ref c = some r ∧ lost ref c r
  active : (∀ ref c, s.activeAt ref c = true → s.holder? ref = some c) →
    ∀ ref c, s'.activeAt ref c = true → s'.holder? ref = some c

theorem Inherits.trans (h : s.Inherits left gets lost s') (h' : s'.Inherits left gets lost s'') :
    s.Inherits left gets lost s'' where
  holder ref c hc := (h'.holder ref c hc).elim (h.holder ref c) .inr
  locked ref c hc := by
    rcases h'.locked ref c hc with hh | ⟨hl, hne⟩ | hleft
    · exact .inl hh
    · -- The lock was left behind in `s'`, so it was in `s` or is now.
      exact .inr ((h.locked ref c hl).resolve_left hne)
    · exact .inr (.inr hleft)
  relock ref c hc := by
    rcases h'.relock ref c hc with ⟨hr, hs⟩ | hlost
    · rcases h.relock ref c hr with ⟨hr', hs'⟩ | ⟨r, hr', hlost⟩
      · exact .inl ⟨hr', fun r hrid => hs r (hs' r hrid)⟩
      · exact .inr ⟨r, hs r hr', hlost⟩
    · exact .inr hlost
  active hact := h'.active (h.active hact)

theorem holder?_eq (hd : s.dongle? ref = some d) : s.holder? ref = d.currentHolder := by
  rw [holder?, hd, Option.bind_some]

theorem activeAt_eq (hd : s.dongle? ref = some d) : s.activeAt ref c = d.activeSlot c := by
  rw [activeAt, slot?, hd, Option.bind_some, Dongle.activeSlot]

theorem Inherits.mono {gets' : Ref → String → Prop} {lost' : Ref → String → ℕ → Prop}
    (h : s.Inherits left gets lost s') (hg : ∀ ref c, gets ref c → gets' ref c)
    (hl : ∀ ref c r, lost ref c r → lost' ref c r) : s.Inherits left gets' lost' s' where
  holder ref c hc := (h.holder ref c hc).imp_right (hg ref c)
  locked := h.locked
  relock ref c hc := (h.relock ref c hc).imp_right fun ⟨r, hr, hlost⟩ => ⟨r, hr, hl ref c r hlost⟩
  active := h.active

/-- A dongle of `s'` is one of `s`, or a new one that nobody has anything to do with. -/
theorem Inherits.of_dongle (h : ∀ ref d', s'.dongle? ref = some d' → s.dongle? ref = some d' ∨
    (d'.currentHolder = none ∧ d'.lockedBy = none ∧ d'.relockAfter = none ∧ d'.slots = ∅)) :
    s.Inherits left gets lost s' where
  holder ref c hc := by
    obtain ⟨d', hd', hc⟩ := Option.bind_eq_some_iff.1 hc
    rcases h ref d' hd' with hd | ⟨hh, -⟩
    · rw [holder?, hd]
      exact .inl hc
    · rw [hh] at hc
      cases hc
  locked ref c hc := by
    obtain ⟨d', hd', hc⟩ := Option.bind_eq_some_iff.1 hc
    rcases h ref d' hd' with hd | ⟨-, hl, -⟩
    · rw [holder?, holder?, lockedBy?, hd, hd']
      by_cases hh : d'.currentHolder = some c
      · exact .inl hh
      · exact .inr (.inl ⟨hc, hh⟩)
    · rw [hl] at hc
      cases hc
  relock ref c hc := by
    obtain ⟨d', hd', hc⟩ := Option.bind_eq_some_iff.1 hc
    rcases h ref d' hd' with hd | ⟨-, -, hr, -⟩
    · rw [relockAfter?, registrationId?, registrationId?, hd, hd']
      exact .inl ⟨hc, fun r hr => hr⟩
    · rw [hr] at hc
      cases hc
  active hact ref c hc := by
    obtain ⟨x, hx, hxa⟩ := (Option.any_eq_true _ _).1 hc
    obtain ⟨d', hd', hx⟩ := Option.bind_eq_some_iff.1 hx
    rcases h ref d' hd' with hd | ⟨-, -, -, hs⟩
    · rw [holder?_eq hd', ← holder?_eq hd]
      refine hact ref c ?_
      rwa [activeAt_eq hd, ← activeAt_eq hd']
    · rw [hs] at hx
      cases hx

theorem Inherits.of_eq (h : s'.dongles = s.dongles) : s.Inherits left gets lost s' :=
  .of_dongle fun ref d' hd' => .inl (by rwa [dongle?, h] at hd')

theorem Inherits.refl (s : Scheduler) : s.Inherits left gets lost s := .of_eq rfl

/-- Another dongle object, or none, is at `ref'` what it was before one object has changed. -/
theorem dongle?_modifyDongle_of_ne (hd : s.dongle? ref = some d) {f : Dongle → Dongle}
    (ho : (f d).oid = d.oid) {ref' : Ref} (hne : ref' ≠ ref) :
    (s.modifyDongle ref f).dongle? ref' = s.dongle? ref' := by
  rw [modifyDongle_some hd, dongle?, dongle?]
  by_cases hkey : ref'.key = ref.key
  · have hoid : ref'.oid ≠ d.oid := by
      intro h
      have := (dongle?_eq_some_iff.1 hd).2
      exact hne (by cases ref'; cases ref; simp_all)
    have hget : s.dongles.get? ref.key = some d := get?_of_dongle? hd
    simp [hkey, hget, ho, Ne.symm hoid, Option.filter]
  · simp [Dict.get?_set_of_ne hkey]

theorem inherits_modifyDongle {f : Dongle → Dongle}
    (hf : ∀ d, s.dongle? ref = some d → Dongle.Inherits (left ref) (gets ref) (lost ref) d (f d)) :
    s.Inherits left gets lost (s.modifyDongle ref f) := by
  rcases hd : s.dongle? ref with _ | d
  · rw [modifyDongle_none hd]
    exact .refl s
  have hi := hf d hd
  have hsame := dongle?_modifyDongle hd hi.oid
  have hother : ∀ ref', ref' ≠ ref → (s.modifyDongle ref f).dongle? ref' = s.dongle? ref' :=
    fun _ hne => dongle?_modifyDongle_of_ne hd hi.oid hne
  refine ⟨fun ref' c hc => ?_, fun ref' c hc => ?_, fun ref' c hc => ?_, fun hact ref' c hc => ?_⟩
  all_goals by_cases hne : ref' = ref
  · subst hne
    rw [holder?, hsame] at hc
    rw [holder?, hd]
    exact hi.holder c hc
  · rw [holder?, hother ref' hne] at hc
    exact .inl hc
  · subst hne
    rw [lockedBy?, hsame] at hc
    rw [holder?, holder?, lockedBy?, hsame, hd]
    exact hi.locked c hc
  · rw [lockedBy?, hother ref' hne] at hc
    rw [holder?, hother ref' hne]
    by_cases hh : s.holder? ref' = some c
    · exact .inl hh
    · exact .inr (.inl ⟨hc, hh⟩)
  · subst hne
    rw [relockAfter?, hsame] at hc
    rw [relockAfter?, registrationId?, registrationId?, hsame, hd]
    exact hi.relock c hc
  · rw [relockAfter?, hother ref' hne] at hc
    rw [registrationId?, registrationId?, hother ref' hne]
    exact .inl ⟨hc, fun r hr => hr⟩
  · subst hne
    rw [activeAt_eq hsame] at hc
    rw [holder?_eq hsame]
    refine hi.active (fun c' hc' => ?_) c hc
    rw [← holder?_eq hd]
    exact hact ref' c' ((activeAt_eq hd).trans hc')
  · rw [activeAt, slot?, hother ref' hne] at hc
    rw [holder?, hother ref' hne]
    exact hact ref' c hc

/-! ## Tables and slots -/

theorem inherits_modifySlot {rid : ℕ} {f : SignalSlot → SignalSlot}
    (hr : ∀ x, (f x).registrationId = x.registrationId)
    (ha : ∀ x, (f x).isActive = true → x.isActive = true) :
    s.Inherits left gets lost (s.modifySlot ref caller rid f) := by
  refine inherits_modifyDongle fun d _ => Dongle.inherits_modifySlot (fun x => ?_) fun x hx => ?_
  · split_ifs
    · exact hr x
    · rfl
  · split_ifs at hx
    · exact ha x hx
    · exact hx

theorem inherits_releaseLease (l : Option Lease) :
    s.Inherits left gets lost (s.releaseLease l) := .of_eq (by cases l <;> rfl)

theorem inherits_claimDevice (outcome : ClaimOutcome) :
    s.Inherits left gets lost (s.claimDevice outcome).1 := .of_eq (by cases outcome <;> rfl)

theorem inherits_ensureDongle (configured canonicalId : String) :
    s.Inherits left gets lost (s.ensureDongle configured canonicalId).1 := by
  unfold ensureDongle
  split
  · exact .refl s
  · refine .of_dongle fun ref d' hd' => ?_
    obtain ⟨hget, ho⟩ := dongle?_eq_some_iff.1 hd'
    rw [Dict.get?_set] at hget
    split_ifs at hget
    · cases hget
      exact .inr ⟨rfl, rfl, rfl, rfl⟩
    · exact .inl (dongle?_eq_some_iff.2 ⟨hget, ho⟩)

theorem inherits_pruneEmptyProvisional :
    s.Inherits left gets lost (s.pruneEmptyProvisional ref) := by
  unfold pruneEmptyProvisional
  split
  · exact .refl s
  · split
    · exact .refl s
    · refine .of_dongle fun ref' d' hd' => .inl ?_
      obtain ⟨hget, ho⟩ := dongle?_eq_some_iff.1 hd'
      rw [Dict.get?_erase] at hget
      split_ifs at hget
      exact dongle?_eq_some_iff.2 ⟨hget, ho⟩

/-- An idle slot moves to another dongle, where its caller has none. -/
theorem inherits_moveSlot {slot : SignalSlot} {canonicalId : String} (hne : target ≠ source)
    (hs : slot.isActive = false) (ht : s.slot? target caller = none) :
    s.Inherits left gets lost (s.moveSlot source target caller slot canonicalId) := by
  have hoff : s.Inherits left gets lost (s.modifyDongle source (·.moveSlotOff caller)) :=
    inherits_modifyDongle fun d _ => Dongle.inherits_moveSlotOff
  have htarget : (s.modifyDongle source (·.moveSlotOff caller)).dongle? target = s.dongle? target := by
    rcases hd : s.dongle? source with _ | d
    · rw [modifyDongle_none hd]
    · exact dongle?_modifyDongle_of_ne hd rfl hne
  refine (hoff.trans (inherits_modifyDongle fun e he => ?_)).trans (.of_eq rfl)
  refine Dongle.inherits_addSlot (fun _ => ?_) hs
  rw [htarget] at he
  rwa [slot?, he] at ht

theorem inherits_reconcileIdleSlot (source : Ref) (caller : String) (rid : ℕ)
    (canonicalId : String) :
    s.Inherits left gets lost (s.reconcileIdleSlot source caller rid canonicalId).1 := by
  unfold reconcileIdleSlot
  split
  · rename_i d slot hd hslot
    split_ifs with hbusy hsame
    · exact .refl s
    · exact inherits_modifySlot (fun _ => rfl) fun _ h => h
    · push Not at hbusy
      have hidle : slot.isActive = false := by simpa using hbusy.2.1
      have hens : s.Inherits left gets lost (s.ensureDongle slot.serial canonicalId).1 :=
        inherits_ensureDongle _ _
      generalize s.ensureDongle slot.serial canonicalId = r at hens ⊢
      obtain ⟨s₁, targetKey⟩ := r
      dsimp only at hens ⊢
      split
      · exact hens
      · rename_i target he
        split_ifs with hstays
        · exact hens
        · push Not at hstays
          have hno : s₁.slot? ⟨targetKey, target.oid⟩ caller = none := by
            rw [slot?, dongle?_of_get? he, Option.bind_some]
            by_contra hsome
            obtain ⟨x, hx⟩ := Option.ne_none_iff_exists'.1 hsome
            exact hstays.2 (Dict.mem_keys.2 ⟨x, hx⟩)
          have hne : (⟨targetKey, target.oid⟩ : Ref) ≠ source := by
            rintro rfl
            exact hstays.1 rfl
          exact (hens.trans (inherits_moveSlot hne hidle hno)).trans inherits_pruneEmptyProvisional
  · exact .refl s

/-! ## Handing a dongle back -/

theorem lockedBy?_eq (hd : s.dongle? ref = some d) : s.lockedBy? ref = d.lockedBy := by
  rw [lockedBy?, hd, Option.bind_some]

theorem relockAfter?_eq (hd : s.dongle? ref = some d) : s.relockAfter? ref = d.relockAfter := by
  rw [relockAfter?, hd, Option.bind_some]

theorem registrationId?_eq (hd : s.dongle? ref = some d) :
    s.registrationId? ref c = d.registrationId? c := by
  rw [registrationId?, hd, Option.bind_some]

variable {preemptedBy : String}

/-- The holder yields. A lock that it had is left behind, unless it has lost the
    dongle to another caller. -/
theorem inherits_doYield (hh : s.holder? ref = some caller) (hleft : s.lockedBy? ref = some caller →
      preemptedBy = "" ∨ s.registrationId? ref caller = none → left ref caller)
    (hlost : s.lockedBy? ref = some caller → preemptedBy ≠ "" →
      ∀ r, s.registrationId? ref caller = some r → lost ref caller r) :
    s.Inherits left gets lost (s.doYield ref caller preemptedBy).1 := by
  unfold doYield
  split
  · rename_i hslot
    refine inherits_modifyDongle fun d hd => ?_
    rw [slot?, hd, Option.bind_some] at hslot
    rw [holder?_eq hd] at hh
    refine Dongle.inherits_clearHolder hh (fun hl => hleft ?_ (.inr ?_)) hslot
    · rw [lockedBy?_eq hd, hl]
    · rw [registrationId?_eq hd, Dongle.registrationId?, hslot, Option.map_none]
  · rename_i slot hslot
    refine inherits_modifyDongle fun d hd => ?_
    rw [slot?, hd, Option.bind_some] at hslot
    rw [holder?_eq hd] at hh
    rw [lockedBy?_eq hd, registrationId?_eq hd] at hleft hlost
    have hrid : d.registrationId? caller = some slot.registrationId := by
      rw [Dongle.registrationId?, hslot, Option.map_some]
    exact Dongle.inherits_yieldSlot hh (fun hl hp => hleft hl (.inl hp))
      fun hl hp => ⟨_, hrid, hlost hl hp _ hrid⟩

/-- Nobody holds a dongle whose holder is cleared. -/
theorem holder?_modifyDongle_none {f : Dongle → Dongle} (ho : ∀ d, (f d).oid = d.oid)
    (hf : ∀ d, (f d).currentHolder = none) : (s.modifyDongle ref f).holder? ref = none := by
  rcases hd : s.dongle? ref with _ | d
  · rw [modifyDongle_none hd, holder?, hd, Option.bind_none]
  · rw [holder?_eq (dongle?_modifyDongle hd (ho d)), hf]

theorem holder?_doYield : (s.doYield ref caller preemptedBy).1.holder? ref = none := by
  unfold doYield
  split
  · exact holder?_modifyDongle_none (fun _ => rfl) fun _ => rfl
  · exact holder?_modifyDongle_none (fun _ => Dongle.modifySlot_oid) fun _ => rfl

/-- The lock of `current` is not left behind when it yields the dongle to `preemptedBy`. -/
def keepsNoLock (s : Scheduler) (ref : Ref) (current preemptedBy : String) : Bool :=
  s.lockedBy? ref ≠ some current ||
    (preemptedBy ≠ "" && (s.registrationId? ref current).isSome)

/-- A yield that leaves no lock behind. -/
theorem inherits_doYield_of_keepsNoLock
    (hk : s.keepsNoLock ref caller preemptedBy = true) (hh : s.holder? ref = some caller)
    (hlost : s.lockedBy? ref = some caller → preemptedBy ≠ "" →
      ∀ r, s.registrationId? ref caller = some r → lost ref caller r) :
    s.Inherits left gets lost (s.doYield ref caller preemptedBy).1 := by
  refine inherits_doYield hh (fun hl hcase => ?_) hlost
  rw [keepsNoLock, hl] at hk
  rcases hcase with hp | hr
  · simp [hp] at hk
  · simp [hr] at hk

end Scheduler

end ReticulumPi.Sdr
