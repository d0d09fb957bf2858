import Mathlib.Data.List.Rotate
import ReticulumPi.Sdr.LockSteps

/-!
# Whose turn it is

Background slots take turns: when the holder's slice has run out, the turn goes
to the next caller of the queue (`nextAfter`). The scheduler knows the holder's
place only as a bare position. While the holder stands at that position
(`InTurn`), `_pick_background` answers the next caller
(`pickBackground_of_inTurn`); the changes of a dongle that keep it there are
those of `KeepsPlace`, and a change of the queue is one of them where the
position is the holder's place in the new queue too (`StandsAt`).
-/

namespace ReticulumPi.Sdr

open List

namespace Dongle

variable {d d' d'' : Dongle} {c caller holder : String} {now : ℚ} {queue : List String}
  {f : SignalSlot → SignalSlot} {slot : SignalSlot}

/-! ## Turns -/

/-- The caller is registered and not suspended. -/
def unsuspended (d : Dongle) (c : String) : Bool := (d.slots.get? c).any (!·.suspended)

/-- The first unsuspended caller that cyclically follows `holder` in the queue,
    the holder itself being the last. -/
def nextAfter (d : Dongle) (holder : String) : Option String :=
  (d.bgOrder.rotate (d.bgOrder.idxOf holder + 1)).find? d.unsuspended

/-- The caller's slot is a background slot. -/
def background (d : Dongle) (c : String) : Bool :=
  (d.slots.get? c).any (·.priority = .background)

/-- The position is the place of a background holder, were `queue` the queue. -/
def StandsAt (d : Dongle) (queue : List String) : Prop :=
  ∀ h ∈ d.currentHolder, d.background h = true → h ∈ queue →
    queue[d.bgIndex % queue.length]? = some h

/-- A background holder stands at the position. -/
def InTurn (d : Dongle) : Prop := d.StandsAt d.bgOrder
deriving Decidable

instance : Decidable (d.StandsAt queue) := by
  unfold StandsAt
  infer_instance

theorem standsAt_of_none (h : d.currentHolder = none) : d.StandsAt queue := fun c hc => by
  rw [h] at hc
  cases hc

theorem inTurn_of_none (h : d.currentHolder = none) : d.InTurn := standsAt_of_none h

/-! ## The scan of the queue -/

theorem rotate_eq_cons {l : List String} {i : ℕ} (h : l[i % l.length]? = some c) :
    ∃ rest, l.rotate i = c :: rest ∧ l.rotate (i + 1) = rest ++ [c] := by
  have hpos : 0 < l.length := length_pos_of_mem (mem_of_getElem? h)
  have hhead : (l.rotate i)[0]? = some c := by
    rw [getElem?_rotate hpos, Nat.zero_add, h]
  rcases hl : l.rotate i with _ | ⟨c', rest⟩
  · rw [hl] at hhead
    cases hhead
  · rw [hl, getElem?_cons_zero] at hhead
    cases hhead
    exact ⟨rest, rfl, by rw [← rotate_rotate, hl, rotate_cons_succ, rotate_zero]⟩

theorem scanBackground_eq {n : ℕ} (hn : n ≤ d.bgOrder.length) :
    ∃ i, scanBackground n d =
        ({ d with bgIndex := i }, ((d.bgOrder.rotate d.bgIndex).take n).find? d.unsuspended) ∧
      ∀ c, (scanBackground n d).2 = some c → d.bgOrder[i % d.bgOrder.length]? = some c := by
  induction n generalizing d with
  | zero => exact ⟨d.bgIndex, rfl, fun c hc => nomatch hc⟩
  | succ n ih =>
    have hlt : d.bgIndex % d.bgOrder.length < d.bgOrder.length := Nat.mod_lt _ (by omega)
    have hc := getElem?_eq_getElem hlt
    obtain ⟨rest, hrot, hrot'⟩ := rotate_eq_cons hc
    generalize d.bgOrder[d.bgIndex % d.bgOrder.length] = candidate at hc hrot hrot'
    obtain ⟨slot, hslot⟩ := Dict.mem_keys.1 (d.bg_slots candidate (mem_of_getElem? hc))
    have hlen : n ≤ rest.length := by
      have := congrArg List.length hrot
      rw [length_rotate, length_cons] at this
      omega
    rw [scanBackground, hc, hrot, take_succ_cons]
    dsimp only
    rw [hslot]
    dsimp only
    by_cases hs : slot.suspended = true
    · have hno : d.unsuspended candidate = false := by simp [unsuspended, hslot, hs]
      rw [if_pos hs, find?_cons_of_neg (by simp [hno])]
      obtain ⟨i, heq, hi⟩ := ih (d := { d with bgIndex := d.bgIndex + 1 }) (Nat.le_of_succ_le hn)
      refine ⟨i, ?_, hi⟩
      rw [heq, hrot', take_append_of_le_length hlen]
      rfl
    · have hyes : d.unsuspended candidate = true := by simp [unsuspended, hslot, hs]
      rw [if_neg hs, find?_cons_of_pos hyes]
      refine ⟨d.bgIndex, rfl, fun c hcand => ?_⟩
      rwa [← Option.some.inj hcand]

/-- The holder's slice has run out. -/
structure SliceOver (d : Dongle) (holder : String) (now : ℚ) : Prop where
  holds : d.currentHolder = some holder
  queued : holder ∈ d.bgOrder
  expired : d.bgSliceSeconds ≤ now - d.bgLastRotation

instance : Decidable (d.SliceOver holder now) :=
  decidable_of_iff (d.currentHolder = some holder ∧ holder ∈ d.bgOrder ∧
      d.bgSliceSeconds ≤ now - d.bgLastRotation)
    ⟨fun ⟨hh, hq, he⟩ => ⟨hh, hq, he⟩, fun h => ⟨h.holds, h.queued, h.expired⟩⟩

theorem SliceOver.inSlice (h : d.SliceOver holder now) : d.inSlice now = none := by
  have := h.expired
  rw [Dongle.inSlice, h.holds]
  exact if_neg fun hin => absurd hin.2 (not_lt.2 this)

/-- When the slice has run out the position moves on, to the caller that is answered. -/
theorem pickBackground_eq (h : d.SliceOver holder now) :
    ∃ i, d.pickBackground now =
        ({ d with bgIndex := i }, (d.bgOrder.rotate (d.bgIndex + 1)).find? d.unsuspended) ∧
      ∀ c, (d.pickBackground now).2 = some c → d.bgOrder[i % d.bgOrder.length]? = some c := by
  have hin : d.holderInBackground = true := by simp [holderInBackground, h.holds, h.queued]
  obtain ⟨i, heq, hi⟩ :=
    scanBackground_eq (d := { d with bgIndex := d.bgIndex + 1 }) (Nat.le_refl _)
  have hpick : d.pickBackground now =
      scanBackground d.bgOrder.length { d with bgIndex := d.bgIndex + 1 } := by
    rw [pickBackground, h.inSlice, if_pos hin]
  rw [hpick]
  refine ⟨i, ?_, hi⟩
  rw [heq, take_of_length_le (by rw [length_rotate])]
  rfl

/-- Where the holder stands at the position, the turn goes to the next caller. -/
theorem pickBackground_of_inTurn (h : d.SliceOver holder now) (hb : d.background holder = true)
    (ht : d.InTurn) : (d.pickBackground now).2 = d.nextAfter holder := by
  have hget := ht holder h.holds hb h.queued
  obtain ⟨i, heq, -⟩ := pickBackground_eq h
  have hidx : d.bgOrder.idxOf holder = d.bgIndex % d.bgOrder.length := by
    obtain ⟨hlt, hget⟩ := List.getElem?_eq_some_iff.1 hget
    rw [← hget, d.bg_nodup.idxOf_getElem]
  rw [heq, nextAfter, hidx, ← rotate_mod, ← Nat.mod_add_mod, rotate_mod]

/-- The holder has the next turn only if nobody else of the queue is eligible. -/
theorem eq_of_nextAfter (h : d.nextAfter holder = some holder) (hc : c ∈ d.bgOrder)
    (hs : d.unsuspended c = true) : c = holder := by
  by_cases hq : holder ∈ d.bgOrder
  swap
  · have hmem := mem_of_find?_eq_some h
    exact absurd (mem_rotate.1 hmem) hq
  have hlt := idxOf_lt_length_iff.2 hq
  obtain ⟨rest, hrot, hrot'⟩ :=
    rotate_eq_cons (l := d.bgOrder) (i := d.bgOrder.idxOf holder) (c := holder)
      (by rw [Nat.mod_eq_of_lt hlt, getElem?_idxOf hq])
  rw [nextAfter, hrot'] at h
  have hnot : holder ∉ rest := by
    have := (nodup_rotate (n := d.bgOrder.idxOf holder)).2 d.bg_nodup
    rw [hrot] at this
    exact (nodup_cons.1 this).1
  rw [find?_append] at h
  have hnone : rest.find? d.unsuspended = none := by
    rcases hr : rest.find? d.unsuspended with _ | e
    · rfl
    · rw [hr, Option.some_or] at h
      cases h
      exact absurd (mem_of_find?_eq_some hr) hnot
  have hmem : c ∈ rest ++ [holder] := hrot' ▸ mem_rotate.2 hc
  rcases mem_append.1 hmem with hr | hr
  · exact absurd hs (find?_eq_none.1 hnone c hr)
  · exact mem_singleton.1 hr

/-! ## Keeping the place -/

/-- Who has a slot in `d'` had one of the same priority in `d`. -/
def SamePriorities (d d' : Dongle) : Prop :=
  ∀ c x', d'.slots.get? c = some x' → ∃ x, d.slots.get? c = some x ∧ x.priority = x'.priority

/-- The change from `d` to `d'` makes no holder, and the holder keeps its place.
    Slots come with a new generation only. -/
structure KeepsPlace (d d' : Dongle) : Prop where
  oid : d'.oid = d.oid
  holder : d'.currentHolder = none ∨ d'.currentHolder = d.currentHolder
  inTurn : d.InTurn → d'.InTurn
  slots : d.generation < d'.generation ∨
    (d'.generation = d.generation ∧ d.SamePriorities d')

theorem SamePriorities.refl (d : Dongle) : d.SamePriorities d := fun _ x hx => ⟨x, hx, rfl⟩

theorem SamePriorities.trans (h : d.SamePriorities d') (h' : d'.SamePriorities d'') :
    d.SamePriorities d'' := fun c x'' hx => by
  obtain ⟨x', hx', hp'⟩ := h' c x'' hx
  obtain ⟨x, hx, hp⟩ := h c x' hx'
  exact ⟨x, hx, hp.trans hp'⟩

theorem SamePriorities.background (h : d.SamePriorities d') (hc : d'.background c = true) :
    d.background c = true := by
  obtain ⟨x', hx', hp'⟩ := (Option.any_eq_true _ _).1 hc
  obtain ⟨x, hx, hp⟩ := h c x' hx'
  refine (Option.any_eq_true _ _).2 ⟨x, hx, ?_⟩
  rwa [hp]

theorem KeepsPlace.trans (h : d.KeepsPlace d') (h' : d'.KeepsPlace d'') : d.KeepsPlace d'' where
  oid := h'.oid.trans h.oid
  holder := by
    rcases h'.holder with hn | he
    · exact .inl hn
    · exact h.holder.imp he.trans he.trans
  inTurn ht := h'.inTurn (h.inTurn ht)
  slots := by
    rcases h.slots with hlt | ⟨heq, hs⟩
    · exact .inl (h'.slots.elim hlt.trans fun h' => h'.1 ▸ hlt)
    · rcases h'.slots with hlt | ⟨heq', hs'⟩
      · exact .inl (heq ▸ hlt)
      · exact .inr ⟨heq'.trans heq, hs.trans hs'⟩

/-- A change of neither the holder's place nor anybody's priority. -/
theorem KeepsPlace.of_queue (ho : d'.oid = d.oid) (hh : d'.currentHolder = d.currentHolder)
    (hq : d'.bgOrder = d.bgOrder) (hi : d'.bgIndex = d.bgIndex)
    (hs : d.SamePriorities d') (hg : d.generation ≤ d'.generation) : d.KeepsPlace d' where
  oid := ho
  holder := .inr hh
  inTurn ht h hholder hb hmem := by
    rw [hq] at hmem ⊢
    rw [hi]
    exact ht h (hh ▸ hholder) (hs.background hb) hmem
  slots := hg.lt_or_eq.imp_right fun h => ⟨h.symm, hs⟩

/-- A change that leaves the dongle without a holder. -/
theorem KeepsPlace.of_none (ho : d'.oid = d.oid) (hh : d'.currentHolder = none)
    (hs : d.SamePriorities d') (hg : d.generation ≤ d'.generation) : d.KeepsPlace d' where
  oid := ho
  holder := .inl hh
  inTurn _ := inTurn_of_none hh
  slots := hg.lt_or_eq.imp_right fun h => ⟨h.symm, hs⟩

theorem KeepsPlace.refl (d : Dongle) : d.KeepsPlace d :=
  .of_queue rfl rfl rfl rfl (.refl d) (Nat.le_refl _)

theorem samePriorities_modifySlot (hf : ∀ x, (f x).priority = x.priority) :
    d.SamePriorities (d.modifySlot caller f) := fun c x' hx => by
  rw [get?_modifySlot] at hx
  split_ifs at hx with hc
  · obtain ⟨x, hslot, rfl⟩ := Option.map_eq_some_iff.1 hx
    exact ⟨x, hc ▸ hslot, (hf x).symm⟩
  · exact ⟨x', hx, rfl⟩

theorem keepsPlace_modifySlot (hf : ∀ x, (f x).priority = x.priority) :
    d.KeepsPlace (d.modifySlot caller f) :=
  .of_queue modifySlot_oid modifySlot_currentHolder modifySlot_bgOrder modifySlot_bgIndex
    (samePriorities_modifySlot hf) modifySlot_generation.ge

theorem keepsPlace_resumeSlot : d.KeepsPlace (d.resumeSlot caller) :=
  .of_queue modifySlot_oid modifySlot_currentHolder modifySlot_bgOrder modifySlot_bgIndex
    (samePriorities_modifySlot fun _ => rfl) (Nat.le_succ _)

theorem keepsPlace_allocateSlot : d.KeepsPlace (d.allocateSlot caller) :=
  .of_queue modifySlot_oid modifySlot_currentHolder modifySlot_bgOrder modifySlot_bgIndex
    (samePriorities_modifySlot fun _ => rfl) (Nat.le_succ _)

theorem keepsPlace_yieldSlot {preemptedBy : String} :
    d.KeepsPlace (d.yieldSlot caller preemptedBy) :=
  .of_none modifySlot_oid rfl (samePriorities_modifySlot fun _ => rfl) (Nat.le_succ _)

theorem keepsPlace_releaseSlot (suspend : Bool) : d.KeepsPlace (d.releaseSlot caller suspend) := by
  have hs : d.SamePriorities (d.releaseSlot caller suspend) := by
    intro c x' hx
    rw [Scheduler.releaseSlot_slots] at hx
    refine samePriorities_modifySlot ?_ c x' hx
    exact fun _ => rfl
  have ho : (d.releaseSlot caller suspend).oid = d.oid := Scheduler.releaseSlot_oid suspend
  have hg : d.generation ≤ (d.releaseSlot caller suspend).generation := by
    unfold releaseSlot advanceBgIndex
    dsimp only
    split_ifs <;> simp
  have hholder : (d.releaseSlot caller suspend).currentHolder =
      if d.currentHolder = some caller then none else d.currentHolder :=
    Scheduler.releaseSlot_holder suspend
  by_cases hc : d.currentHolder = some caller
  · rw [if_pos hc] at hholder
    exact .of_none ho hholder hs hg
  · rw [if_neg hc] at hholder
    refine .of_queue ho hholder ?_ ?_ hs hg
    -- The position moves on only when the holder is the one that is released.
    all_goals
      unfold releaseSlot
      dsimp only
      rw [modifySlot_currentHolder, if_neg hc]
    · exact modifySlot_bgOrder
    · exact modifySlot_bgIndex

/-! ## Changes of the queue -/

theorem background_dropSlot (h : (d.dropSlot caller).background c = true) :
    d.background c = true := by
  rw [background, get?_dropSlot] at h
  split_ifs at h
  · cases h
  · exact h

variable (h : d.StandsAt (d.bgOrder.erase caller))
include h

/-- A slot leaves the dongle, and the position is the holder's place in what is
    left of the queue. -/
theorem keepsPlace_dropSlot (ho : d'.oid = d.oid)
    (hh : d'.currentHolder = d.currentHolder) (hq : d'.bgOrder = (d.dropSlot caller).bgOrder)
    (hi : d'.bgIndex = d.bgIndex) (hs : d'.slots = (d.dropSlot caller).slots)
    (hg : d.generation < d'.generation ∨
      d'.generation = d.generation ∧ d.slots.get? caller = none) : d.KeepsPlace d' where
  oid := ho
  holder := .inr hh
  inTurn _ c hc hb hmem := by
    rw [hq] at hmem ⊢
    rw [hi]
    have hb : (d.dropSlot caller).background c = true := by rwa [background, ← hs]
    exact h c (hh ▸ hc) (background_dropSlot hb) hmem
  slots := hg.imp_right fun ⟨hg, _⟩ => ⟨hg, fun c x' hx => by
    rw [hs, get?_dropSlot] at hx
    split_ifs at hx
    exact ⟨x', hx, rfl⟩⟩

theorem keepsPlace_removeSlot {n : ℕ}
    (hn : d.generation < n ∨ n = d.generation ∧ d.slots.get? caller = none) :
    d.KeepsPlace (d.removeSlot caller n) := keepsPlace_dropSlot h rfl rfl rfl rfl rfl hn

theorem keepsPlace_moveSlotOff : d.KeepsPlace (d.moveSlotOff caller) :=
  keepsPlace_dropSlot h rfl rfl rfl rfl rfl (.inl (Nat.lt_succ_self _))

omit h

/-- The queue once a slot has been stored for the caller. -/
def queueWith (d : Dongle) (caller : String) (priority : Priority) (continuous : Bool) :
    List String :=
  if priority = .background ∧ continuous = true ∧ caller ∉ d.bgOrder then d.bgOrder ++ [caller]
  else d.bgOrder

/-- The position is the place of a background holder once a slot has been stored
    for the caller, whose own slot is a background one if `priority` is. -/
def Joins (d : Dongle) (caller : String) (priority : Priority) (continuous : Bool) : Prop :=
  let queue := d.queueWith caller priority continuous
  ∀ h ∈ d.currentHolder, (if h = caller then priority = .background else d.background h = true) →
    h ∈ queue → queue[d.bgIndex % queue.length]? = some h

instance {priority : Priority} {continuous : Bool} :
    Decidable (d.Joins caller priority continuous) := by
  unfold Joins
  infer_instance

theorem joins_of_none (h : d.currentHolder = none) {priority : Priority} {continuous : Bool} :
    d.Joins caller priority continuous := fun c hc => by
  rw [h] at hc
  cases hc

theorem placeSlot_bgOrder :
    (d.placeSlot caller slot).bgOrder = d.queueWith caller slot.priority slot.continuous := by
  unfold placeSlot queueWith
  by_cases h : slot.priority = .background ∧ slot.continuous = true ∧
      caller ∉ (d.putSlot caller slot).bgOrder
  · rw [dif_pos h]
    exact (if_pos h).symm
  · rw [dif_neg h]
    exact (if_neg h).symm

theorem placeSlot_bgIndex : (d.placeSlot caller slot).bgIndex = d.bgIndex := by
  unfold placeSlot
  dsimp only
  split <;> rfl

theorem keepsPlace_addSlot (h : d.Joins caller slot.priority slot.continuous) :
    d.KeepsPlace (d.addSlot caller slot) where
  oid := placeSlot_oid
  holder := .inr placeSlot_currentHolder
  inTurn _ c hc hb hmem := by
    change c ∈ (d.placeSlot caller slot).bgOrder at hmem
    change (d.placeSlot caller slot).bgOrder[(d.placeSlot caller slot).bgIndex %
      (d.placeSlot caller slot).bgOrder.length]? = some c
    rw [placeSlot_bgOrder] at hmem ⊢
    rw [placeSlot_bgIndex]
    refine h c (placeSlot_currentHolder ▸ hc) ?_ hmem
    change ((d.placeSlot caller slot).slots.get? c).any (·.priority = .background) = true at hb
    rw [get?_placeSlot] at hb
    split_ifs at hb ⊢
    · simpa using hb
    · exact hb
  slots := .inl (Nat.lt_succ_self _)

/-! ## Picking and granting -/

theorem samePriorities_expireWindows : d.SamePriorities (d.expireWindows now) := fun c x' hx => by
  rw [get?_expireWindows] at hx
  obtain ⟨x, hslot, rfl⟩ := Option.map_eq_some_iff.1 hx
  exact ⟨x, hslot, rfl⟩

theorem keepsPlace_expireWindows : d.KeepsPlace (d.expireWindows now) :=
  .of_queue rfl rfl rfl rfl samePriorities_expireWindows (Nat.le_refl _)

theorem nextAfter_expireWindows : (d.expireWindows now).nextAfter holder = d.nextAfter holder := by
  have hsame : (d.expireWindows now).unsuspended = d.unsuspended := by
    funext c
    rw [unsuspended, unsuspended, get?_expireWindows, Option.any_map]
    rfl
  rw [nextAfter, nextAfter, hsame]
  rfl

/-- Picking a background slot moves nothing but the position. -/
theorem pickBackground_fst (now : ℚ) :
    ∃ i, (d.pickBackground now).1 = { d with bgIndex := i } := by
  rw [pickBackground]
  split
  · exact ⟨_, rfl⟩
  · split_ifs
    · obtain ⟨i, heq, -⟩ :=
        scanBackground_eq (d := { d with bgIndex := d.bgIndex + 1 }) (Nat.le_refl _)
      exact ⟨i, congrArg Prod.fst heq⟩
    · obtain ⟨i, heq, -⟩ := scanBackground_eq (d := d) (Nat.le_refl _)
      exact ⟨i, congrArg Prod.fst heq⟩

/-- A background holder whose slice has run out has the turn again, or there is
    none: otherwise picking keeps its place. -/
theorem keepsPlace_pickBackground
    (h : ∀ c, d.SliceOver c now → d.background c = true → (d.pickBackground now).2 = some c) :
    d.KeepsPlace (d.pickBackground now).1 := by
  obtain ⟨i, heq⟩ := pickBackground_fst (d := d) now
  refine ⟨by rw [heq], .inr (by rw [heq]), fun ht c hc hb hmem => ?_, .inr ⟨by rw [heq], ?_⟩⟩
  · rw [heq] at hc hb hmem
    by_cases hover : d.SliceOver c now
    · -- The position has come round to the holder.
      obtain ⟨j, hj, hget⟩ := pickBackground_eq hover
      have hget := hget c (h c hover hb)
      rw [hj]
      exact hget
    · have hin : d.inSlice now = some c := by
        rw [inSlice, show d.currentHolder = some c from hc]
        refine if_pos ⟨hmem, ?_⟩
        by_contra hlt
        exact hover ⟨hc, hmem, not_lt.1 hlt⟩
      have hsame : (d.pickBackground now).1 = d := by rw [pickBackground, hin]
      rw [hsame]
      exact ht c hc hb hmem
  · rw [heq]
    exact .refl d

/-- A slot that is given the dongle stands at the position, if it is a background slot. -/
theorem inTurn_grantSlot {a : Acquisition} {lease : Lease} {now : Clock}
    (h : ∀ x, d.slots.get? a.caller = some x → x.priority = a.priority) :
    (d.grantSlot a lease now).InTurn := by
  intro c hc hb hmem
  have hfields : (d.grantSlot a lease now).currentHolder = some a.caller ∧
      (d.grantSlot a lease now).bgOrder = d.bgOrder ∧
      (d.grantSlot a lease now).slots = (d.modifySlot a.caller fun slot =>
        { slot with isActive := true, deviceLease := some lease }).slots ∧
      (d.grantSlot a lease now).bgIndex =
        if a.priority = .background ∧ a.caller ∈ d.bgOrder then d.bgOrder.idxOf a.caller
        else d.bgIndex := by
    unfold grantSlot
    simp only [modifySlot_bgOrder, modifySlot_bgIndex]
    split_ifs <;> simp_all
  obtain ⟨hholder, hqueue, hslots, hindex⟩ := hfields
  obtain rfl := Option.some.inj (hholder.symm.trans hc)
  rw [hqueue] at hmem ⊢
  have hbg : a.priority = .background := by
    obtain ⟨x', hx', hp'⟩ := (Option.any_eq_true _ _).1 hb
    rw [hslots] at hx'
    have hsame : d.SamePriorities (d.modifySlot a.caller fun slot =>
        { slot with isActive := true, deviceLease := some lease }) :=
      samePriorities_modifySlot fun _ => rfl
    obtain ⟨x, hx, hp⟩ := hsame _ x' hx'
    rw [← h x hx, hp]
    simpa using hp'
  rw [hindex, if_pos ⟨hbg, hmem⟩, Nat.mod_eq_of_lt (idxOf_lt_length_iff.2 hmem),
    getElem?_idxOf hmem]

end Dongle

end ReticulumPi.Sdr
