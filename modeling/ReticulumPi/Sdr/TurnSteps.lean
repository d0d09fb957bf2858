import ReticulumPi.Sdr.Turns

/-!
# What the scheduler's steps do to the turns

Every step of the scheduler keeps the place of the holder on every dongle
(`KeepsPlace`), apart from three kinds: a slot that joins or leaves the queue
may shift the position (`StoresInTurn`, `LeavesInTurn`, `MovesInTurn` say when
it does not); an evaluation moves the position on when a slice has run out,
before it is known whether the dongle changes hands; and a grant puts the
position at the new holder. So the background holders stand at their positions,
but for the dongle on which a hand-over has begun (`Scheduler.InTurn`).
-/

namespace ReticulumPi.Sdr

namespace Scheduler

variable {s s' s'' : Scheduler} {ref source target : Ref} {c caller serial : String} {d : Dongle}
  {now : Clock} {a : Acquisition} {p : Preflight}

/-! ## Keeping the places -/

/-- A dongle of `s'` is one of `s`, with the holder in its place, or a new one. -/
structure KeepsPlace (s s' : Scheduler) : Prop where
  nextOid : s.nextOid ≤ s'.nextOid
  dongle : ∀ ref d', s'.dongle? ref = some d' →
    (∃ d, s.dongle? ref = some d ∧ d.KeepsPlace d') ∨
      (s.nextOid ≤ ref.oid ∧ ref.oid < s'.nextOid ∧ d'.currentHolder = none)

theorem KeepsPlace.trans (h : s.KeepsPlace s') (h' : s'.KeepsPlace s'') : s.KeepsPlace s'' where
  nextOid := h.nextOid.trans h'.nextOid
  dongle ref d'' hd'' := by
    rcases h'.dongle ref d'' hd'' with ⟨d', hd', hk'⟩ | ⟨hle, hlt, hn⟩
    · rcases h.dongle ref d' hd' with ⟨d, hd, hk⟩ | ⟨hle, hlt, hn⟩
      · exact .inl ⟨d, hd, hk.trans hk'⟩
      · refine .inr ⟨hle, hlt.trans_le h'.nextOid, ?_⟩
        exact hk'.holder.elim id fun he => he.trans hn
    · exact .inr ⟨h.nextOid.trans hle, hlt, hn⟩

theorem KeepsPlace.of_eq (hd : s'.dongles = s.dongles) (hn : s'.nextOid = s.nextOid) :
    s.KeepsPlace s' where
  nextOid := hn.ge
  dongle ref d' hd' := .inl ⟨d', by rwa [dongle?, hd] at hd', .refl d'⟩

theorem KeepsPlace.refl (s : Scheduler) : s.KeepsPlace s := .of_eq rfl rfl

theorem modifyDongle_nextOid (f : Dongle → Dongle) :
    (s.modifyDongle ref f).nextOid = s.nextOid := by
  rw [modifyDongle]
  split <;> rfl

theorem keepsPlace_modifyDongle {f : Dongle → Dongle}
    (hf : ∀ d, s.dongle? ref = some d → d.KeepsPlace (f d)) :
    s.KeepsPlace (s.modifyDongle ref f) where
  nextOid := (modifyDongle_nextOid f).ge
  dongle ref' d' hd' := by
    rcases hd : s.dongle? ref with _ | d
    · rw [modifyDongle_none hd] at hd'
      exact .inl ⟨d', hd', .refl d'⟩
    by_cases hne : ref' = ref
    · subst hne
      rw [dongle?_modifyDongle hd (hf d hd).oid] at hd'
      cases hd'
      exact .inl ⟨d, hd, hf d hd⟩
    · rw [dongle?_modifyDongle_of_ne hd (hf d hd).oid hne] at hd'
      exact .inl ⟨d', hd', .refl d'⟩

theorem keepsPlace_modifySlot {rid : ℕ} {f : SignalSlot → SignalSlot}
    (hf : ∀ x, (f x).priority = x.priority) : s.KeepsPlace (s.modifySlot ref caller rid f) :=
  keepsPlace_modifyDongle fun _ _ => Dongle.keepsPlace_modifySlot fun x => by
    split_ifs
    · exact hf x
    · rfl

theorem keepsPlace_setSlot {f : SignalSlot → SignalSlot} (hf : ∀ x, (f x).priority = x.priority) :
    s.KeepsPlace (s.modifyDongle ref fun d => d.modifySlot caller f) :=
  keepsPlace_modifyDongle fun _ _ => Dongle.keepsPlace_modifySlot hf

theorem keepsPlace_releaseLease (l : Option Lease) : s.KeepsPlace (s.releaseLease l) := by
  cases l <;> exact .of_eq rfl rfl

theorem keepsPlace_claimDevice (outcome : ClaimOutcome) :
    s.KeepsPlace (s.claimDevice outcome).1 := by
  cases outcome <;> exact .of_eq rfl rfl

variable {canonicalId : String}

/-- A new dongle has a new number and no holder. -/
theorem dongle?_ensureDongle {configured : String} {d' : Dongle}
    (h : (s.ensureDongle configured canonicalId).1.dongle? ref = some d') :
    s.dongle? ref = some d' ∨
      (s.nextOid ≤ ref.oid ∧ ref.oid < (s.ensureDongle configured canonicalId).1.nextOid ∧
        d'.currentHolder = none) := by
  unfold ensureDongle at h ⊢
  split at h
  · exact .inl h
  · obtain ⟨hget, ho⟩ := dongle?_eq_some_iff.1 h
    rw [Dict.get?_set] at hget
    split_ifs at hget
    · cases hget
      exact .inr ⟨ho.le, ho ▸ Nat.lt_succ_self _, rfl⟩
    · exact .inl (dongle?_eq_some_iff.2 ⟨hget, ho⟩)

theorem keepsPlace_ensureDongle (configured canonicalId : String) :
    s.KeepsPlace (s.ensureDongle configured canonicalId).1 where
  nextOid := by
    unfold ensureDongle
    split
    · exact Nat.le_refl _
    · exact Nat.le_succ _
  dongle ref d' hd' := (dongle?_ensureDongle hd').imp_left fun hd => ⟨d', hd, .refl d'⟩

theorem keepsPlace_pruneEmptyProvisional : s.KeepsPlace (s.pruneEmptyProvisional ref) := by
  unfold pruneEmptyProvisional
  split
  · exact .refl s
  · split
    · exact .refl s
    · refine ⟨Nat.le_refl _, fun ref' d' hd' => .inl ⟨d', ?_, .refl d'⟩⟩
      obtain ⟨hget, ho⟩ := dongle?_eq_some_iff.1 hd'
      rw [Dict.get?_erase] at hget
      split_ifs at hget
      exact dongle?_eq_some_iff.2 ⟨hget, ho⟩

theorem keepsPlace_doYield {preemptedBy : String} :
    s.KeepsPlace (s.doYield ref caller preemptedBy).1 := by
  unfold doYield
  split
  · exact keepsPlace_modifyDongle fun d _ => .of_none rfl rfl (.refl d) (Nat.le_refl _)
  · exact keepsPlace_modifyDongle fun _ _ => Dongle.keepsPlace_yieldSlot

/-! ## Joining and leaving the queue -/

/-- When the caller's slot leaves the dongle, the position is the holder's place
    in the rest of the queue. -/
def LeavesInTurn (s : Scheduler) (ref : Ref) (caller : String) : Prop :=
  ∀ d ∈ s.dongle? ref, d.StandsAt (d.bgOrder.erase caller)

/-- When the slot of a registration is stored, the position is the holder's place. -/
def StoresInTurn (s : Scheduler) (r : RegisterArgs) (storageKey : String) : Prop :=
  ∀ d ∈ s.dongles.get? storageKey, d.Joins r.caller r.priority r.continuous

/-- A slot that a reconciliation moves leaves its dongle and joins the other in turn. -/
def MovesInTurn (s : Scheduler) (source : Ref) (caller : String) (rid : ℕ)
    (canonicalId : String) : Prop :=
  match (s.reconcileIdleSlot source caller rid canonicalId).2 with
  | .moved target => s.LeavesInTurn source caller ∧
      ∀ slot ∈ s.slot? source caller, ∀ d ∈ s.dongle? target,
        d.Joins caller slot.priority slot.continuous
  | _ => True

theorem keepsPlace_moveSlot {slot : SignalSlot} (hne : target ≠ source)
    (hleave : s.LeavesInTurn source caller)
    (hjoin : ∀ d ∈ s.dongle? target, d.Joins caller slot.priority slot.continuous) :
    s.KeepsPlace (s.moveSlot source target caller slot canonicalId) := by
  have hoff : s.KeepsPlace (s.modifyDongle source (·.moveSlotOff caller)) :=
    keepsPlace_modifyDongle fun d hd => Dongle.keepsPlace_moveSlotOff (hleave d hd)
  have htarget :
      (s.modifyDongle source (·.moveSlotOff caller)).dongle? target = s.dongle? target := by
    rcases hd : s.dongle? source with _ | d
    · rw [modifyDongle_none hd]
    · exact dongle?_modifyDongle_of_ne hd rfl hne
  refine (hoff.trans (keepsPlace_modifyDongle fun e he => ?_)).trans (.of_eq rfl rfl)
  exact Dongle.keepsPlace_addSlot (hjoin e (htarget ▸ he))

theorem keepsPlace_reconcileIdleSlot {rid : ℕ} (h : s.MovesInTurn source caller rid canonicalId) :
    s.KeepsPlace (s.reconcileIdleSlot source caller rid canonicalId).1 := by
  rw [MovesInTurn, reconcileIdleSlot] at h
  rw [reconcileIdleSlot]
  rcases hd : s.dongle? source with _ | d
  · exact .refl s
  rcases hslot : s.slotIs? source caller rid with _ | slot
  · exact .refl s
  rw [hd, hslot] at h
  dsimp only at h ⊢
  split_ifs at h ⊢
  · exact .refl s
  · exact keepsPlace_modifySlot fun _ => rfl
  have hens : s.KeepsPlace (s.ensureDongle slot.serial canonicalId).1 :=
    keepsPlace_ensureDongle _ _
  have hold : ∀ ref d', (s.ensureDongle slot.serial canonicalId).1.dongle? ref = some d' →
      s.dongle? ref = some d' ∨ d'.currentHolder = none := fun ref d' hd' =>
    (dongle?_ensureDongle hd').imp_right fun hnew => hnew.2.2
  generalize s.ensureDongle slot.serial canonicalId = r at h hens hold ⊢
  obtain ⟨s₁, targetKey⟩ := r
  dsimp only at h hens hold ⊢
  rcases he : s₁.dongles.get? targetKey with _ | target
  · exact hens
  rw [he] at h
  dsimp only at h ⊢
  split_ifs at h ⊢ with hstays
  · exact hens
  push Not at hstays
  dsimp only at h
  obtain ⟨hleave, hjoin⟩ := h
  have hne : (⟨targetKey, target.oid⟩ : Ref) ≠ source := by
    rintro rfl
    exact hstays.1 rfl
  have hslot' : s.slot? source caller = some slot := (Option.filter_eq_some_iff.1 hslot).1
  refine (hens.trans (keepsPlace_moveSlot hne (fun e he => ?_) fun e he => ?_)).trans
    keepsPlace_pruneEmptyProvisional
  · rcases hold source e he with hs | hn
    · exact hleave e hs
    · exact Dongle.standsAt_of_none hn
  · rcases hold _ e he with hs | hn
    · exact hjoin slot hslot' e hs
    · exact Dongle.joins_of_none hn

/-! ## The calls -/

theorem keepsPlace_storeSlot {r : Registration} {storageKey : String}
    (h : s.StoresInTurn r.toRegisterArgs storageKey) :
    s.KeepsPlace (s.storeSlot r canonicalId storageKey).1 := by
  unfold storeSlot
  split
  · exact .refl s
  · rename_i ref href
    obtain ⟨rfl, -⟩ := ref?_eq_some_iff.1 href
    have hcount : s.KeepsPlace (s.countRegistration r ref.key) := .of_eq rfl rfl
    refine hcount.trans (keepsPlace_modifyDongle fun d hd => Dongle.keepsPlace_addSlot ?_)
    have hget : s.dongles.get? ref.key = some d := get?_of_dongle? hd
    exact h d hget

theorem keepsPlace_removeSlot (h : s.LeavesInTurn ref caller) :
    s.KeepsPlace (s.modifyDongle ref fun d => d.removeSlot caller (d.generation + 1)) :=
  keepsPlace_modifyDongle fun d hd =>
    Dongle.keepsPlace_removeSlot (h d hd) (.inl (Nat.lt_succ_self _))

/-- The rest of a registration finds the slot's two dongles in turn. -/
def ShiftsInTurn (s : Scheduler) (previous : Ref) (r : RegisterArgs) (storageKey : String) : Prop :=
  s.LeavesInTurn previous r.caller ∧
    (s.dropPrevious previous r.caller).StoresInTurn r storageKey

theorem keepsPlace_finishMove {m : Move}
    (h : s.ShiftsInTurn m.previous m.registration.toRegisterArgs m.storageKey) :
    s.KeepsPlace (s.finishMove m).1 :=
  (keepsPlace_removeSlot h.1).trans (keepsPlace_storeSlot h.2)

/-- A registration comes to the queue, or moves to another, in turn. -/
def RegistersInTurn (s : Scheduler) (r : RegisterArgs) (storageKey : String) : Prop :=
  match s.movedFrom r.serial r.caller storageKey with
  | none => s.StoresInTurn r storageKey
  | some previous => s.activeAt previous r.caller = true ∨ s.ShiftsInTurn previous r storageKey

theorem keepsPlace_registerAt {r : Registration} {storageKey : String}
    (h : s.RegistersInTurn r.toRegisterArgs storageKey) :
    s.KeepsPlace (s.registerAt r canonicalId storageKey).1 := by
  rw [RegistersInTurn] at h
  rw [registerAt]
  rcases hm : s.movedFrom r.serial r.caller storageKey with _ | previous
  · rw [hm] at h
    exact keepsPlace_storeSlot h
  · rw [hm] at h
    dsimp only at h ⊢
    split_ifs with ha
    · obtain ⟨s', lease, heq⟩ := doYield_active "" ha
      have hy : s.KeepsPlace (s.doYield previous r.caller "").1 := keepsPlace_doYield
      rw [heq] at hy ⊢
      exact hy
    · exact keepsPlace_finishMove (h.resolve_left ha)

/-- The caller's slot leaves the queue in turn, unless it is to yield first. -/
def UnregistersInTurn (s : Scheduler) (serial caller : String) : Prop :=
  ∀ ref ∈ s.registrationDongle serial caller,
    s.activeAt ref caller = true ∨ s.LeavesInTurn ref caller

theorem keepsPlace_finishUnregister {hadSlot : Bool} (h : s.LeavesInTurn ref caller)
    (hslot : hadSlot = false → s.slot? ref caller = none) :
    s.KeepsPlace (s.finishUnregister ref serial caller hadSlot).1 := by
  have hdrop : s.KeepsPlace (s.modifyDongle ref fun d =>
      d.removeSlot caller (if hadSlot then d.generation + 1 else d.generation)) := by
    refine keepsPlace_modifyDongle fun d hd => Dongle.keepsPlace_removeSlot (h d hd) ?_
    cases hadSlot with
    | true => exact .inl (Nat.lt_succ_self _)
    | false =>
      refine .inr ⟨rfl, ?_⟩
      have := hslot rfl
      rwa [slot?, hd] at this
  exact hdrop.trans (.of_eq rfl rfl)

theorem keepsPlace_unregister (h : s.UnregistersInTurn serial caller) :
    s.KeepsPlace (s.unregister serial caller).1 := by
  rw [UnregistersInTurn] at h
  rw [unregister]
  rcases href : s.registrationDongle serial caller with _ | ref
  · exact .refl s
  · dsimp only
    split_ifs with ha
    · obtain ⟨s', lease, heq⟩ := doYield_active "" ha
      have hy : s.KeepsPlace (s.doYield ref caller "").1 := keepsPlace_doYield
      rw [heq] at hy ⊢
      exact hy
    · exact keepsPlace_finishUnregister ((h ref href).resolve_left ha) (by simp)

theorem keepsPlace_stopFrom (start todo : List String) :
    s.KeepsPlace (s.stopFrom start todo).1 := by
  induction todo generalizing s with
  | nil => exact .refl s
  | cons key todo ih =>
    rw [stopFrom]
    split
    · exact ih
    rename_i d hd
    split
    · exact ih
    rename_i holder hh
    split_ifs
    · exact ih
    · have hy : s.KeepsPlace (s.doYield ⟨key, d.oid⟩ holder "").1 := keepsPlace_doYield
      rcases heq : s.doYield ⟨key, d.oid⟩ holder "" with ⟨s', _ | lease⟩
      · rw [heq] at hy
        exact hy.trans ih
      · rw [heq] at hy
        exact hy

theorem keepsPlace_releaseSlot (suspend : Bool) (generation : Option ℕ) :
    s.KeepsPlace (s.releaseSlot serial caller suspend generation).1 := by
  unfold releaseSlot
  split
  · exact .refl s
  · dsimp only
    split_ifs
    · exact .refl s
    · exact keepsPlace_modifyDongle fun _ _ => Dongle.keepsPlace_releaseSlot suspend

/-- No slot joins or leaves a queue at the start of the call so that the
    position is no longer its holder's place. -/
def BeginsInTurn (s : Scheduler) : Op → Prop
  | .register a =>
    let r := s.ensureDongle a.serial
      (s.registrationCanonicalId a.serial a.deviceSelector a.resolved)
    (a.priority = .critical → a.continuous = true) → r.1.RegistersInTurn a r.2
  | .unregister serial caller => s.UnregistersInTurn serial caller
  | _ => True

theorem keepsPlace_begin {op : Op} (h : s.BeginsInTurn op) : s.KeepsPlace (s.begin op).1 := by
  cases op with
  | register a =>
    change s.KeepsPlace (s.register a).1
    rw [register]
    split_ifs with hcrit
    · have hens : s.KeepsPlace (s.ensureDongle a.serial
          (s.registrationCanonicalId a.serial a.deviceSelector a.resolved)).1 :=
        keepsPlace_ensureDongle _ _
      exact hens.trans (keepsPlace_registerAt (r := ⟨a, hcrit⟩) (h hcrit))
    · exact .refl s
  | unregister serial caller => exact keepsPlace_unregister h
  | addWindow serial caller w =>
    change s.KeepsPlace (s.addWindow serial caller w)
    rw [addWindow]
    split
    · exact .refl s
    · exact keepsPlace_setSlot fun _ => rfl
  | removeWindows serial caller =>
    change s.KeepsPlace (s.removeWindows serial caller)
    rw [removeWindows]
    split
    · exact .refl s
    · exact keepsPlace_setSlot fun _ => rfl
  | lock serial caller =>
    change s.KeepsPlace (s.lock serial caller).1
    rw [lock]
    split
    · exact .refl s
    · split_ifs
      · exact keepsPlace_modifyDongle fun d _ =>
          .of_queue rfl rfl rfl rfl (.refl d) (Nat.le_refl _)
      · exact .refl s
  | unlock serial caller =>
    change s.KeepsPlace (s.unlock serial caller)
    rw [unlock]
    split
    · exact .refl s
    · exact keepsPlace_modifyDongle fun d _ =>
        .of_queue rfl rfl rfl rfl (.refl d) (Nat.le_refl _)
  | dongleReleased serial caller generation => exact keepsPlace_releaseSlot false generation
  | suspend serial caller generation => exact keepsPlace_releaseSlot true generation
  | resume serial caller rid =>
    change s.KeepsPlace (s.resume serial caller rid).1
    rw [resume]
    split
    · exact .refl s
    · split_ifs
      · exact keepsPlace_modifyDongle fun _ _ => Dongle.keepsPlace_resumeSlot
      · exact .refl s
  | stop =>
    have hrun : s.KeepsPlace { s with running := false } := .of_eq rfl rfl
    exact hrun.trans (keepsPlace_stopFrom _ _)

/-- No slot joins or leaves a queue when the call goes on so that the position
    is no longer its holder's place. -/
def ProceedsInTurn (s : Scheduler) : CallPc → Prop
  | .registering m _ => s.ShiftsInTurn m.previous m.registration.toRegisterArgs m.storageKey
  | .unregistering _ caller ref _ => s.LeavesInTurn ref caller
  | _ => True

theorem keepsPlace_proceed {pc : CallPc} {visit : List String}
    (h : (s.releaseLease pc.lease).ProceedsInTurn pc) : s.KeepsPlace (s.proceed visit pc).1 := by
  refine (keepsPlace_releaseLease pc.lease).trans ?_
  cases pc with
  | registering m lease => exact keepsPlace_finishMove h
  | unregistering serial caller ref lease =>
    exact keepsPlace_finishUnregister h fun hslot => nomatch hslot
  | stopping start todo lease =>
    change KeepsPlace _ ((s.releaseLease lease).finishStopping start todo visit).1
    rw [finishStopping]
    split_ifs
    · exact .refl _
    all_goals exact keepsPlace_stopFrom _ _
  | releasing lease => exact .refl _

/-! ## The thread -/

/-- What the thread relies on while it waits: nobody holds the dongle whose
    holder has yielded, and the slot it is acquiring a dongle for has, unless
    slots have come or gone, the priority that it has noted. -/
def Awaits (s : Scheduler) : ThreadPc → Prop
  | .yielding ref _ _ => ∀ d ∈ s.dongle? ref, d.currentHolder = none
  | .claiming a | .granting a _ => a.ref.oid < s.nextOid ∧ ∀ d ∈ s.dongle? a.ref,
      a.generation ≤ d.generation ∧ (d.generation = a.generation →
        ∀ x, d.slots.get? a.caller = some x → x.priority = a.priority)
  | _ => True

/-- Background holders stand at their positions, except on a dongle that the
    thread is about to hand over. -/
structure InTurn (s : Scheduler) (pc : ThreadPc) : Prop where
  numbered : ∀ ref d, s.dongle? ref = some d → ref.oid < s.nextOid
  holders : ∀ ref d, s.dongle? ref = some d → (∀ p, pc = .preflight p → p.ref ≠ ref) → d.InTurn
  awaits : s.Awaits pc

variable {pc : ThreadPc}

theorem Awaits.keeps (h : s.Awaits pc) (hk : s.KeepsPlace s') : s'.Awaits pc := by
  have hacquire : ∀ a : Acquisition, s.Awaits (.claiming a) → s'.Awaits (.claiming a) := by
    rintro a ⟨ho, ha⟩
    refine ⟨ho.trans_le hk.nextOid, fun d' hd' => ?_⟩
    rcases hk.dongle a.ref d' hd' with ⟨d, hd, hkd⟩ | ⟨hle, -, -⟩
    · obtain ⟨hgen, hsame⟩ := ha d hd
      rcases hkd.slots with hlt | ⟨heq, hs⟩
      · exact ⟨hgen.trans hlt.le, fun heq => absurd (heq ▸ hlt) (not_lt.2 hgen)⟩
      · refine ⟨heq ▸ hgen, fun hg x' hx' => ?_⟩
        obtain ⟨x, hx, hp⟩ := hs _ x' hx'
        exact hp.symm.trans (hsame (heq.symm.trans hg) x hx)
    · exact absurd ho (not_lt.2 hle)
  cases pc with
  | yielding ref l next =>
    intro d' hd'
    rcases hk.dongle ref d' hd' with ⟨d, hd, hkd⟩ | ⟨-, -, hn⟩
    · exact hkd.holder.elim id fun he => he.trans (h d hd)
    · exact hn
  | claiming a | granting a lease => exact hacquire a h
  | _ => trivial

theorem InTurn.keeps (h : s.InTurn pc) (hk : s.KeepsPlace s') : s'.InTurn pc where
  numbered ref d' hd' := by
    rcases hk.dongle ref d' hd' with ⟨d, hd, -⟩ | ⟨-, hlt, -⟩
    · exact (h.numbered ref d hd).trans_le hk.nextOid
    · exact hlt
  holders ref d' hd' hp := by
    rcases hk.dongle ref d' hd' with ⟨d, hd, hkd⟩ | ⟨-, -, hn⟩
    · exact hkd.inTurn (h.holders ref d hd hp)
    · exact Dongle.inTurn_of_none hn
  awaits := h.awaits.keeps hk

/-- The thread goes on to wait elsewhere, with no hand-over under way before. -/
theorem InTurn.goes (h : s.InTurn .idle) (ha : s.Awaits pc) : s.InTurn pc :=
  ⟨h.numbered, fun ref d hd _ => h.holders ref d hd (by rintro p ⟨⟩), ha⟩

/-- One dongle changes, and its holder stands at the position. -/
theorem InTurn.modifyDongle (h : s.InTurn pc) {f : Dongle → Dongle}
    (ho : ∀ d, s.dongle? ref = some d → (f d).oid = d.oid)
    (hf : ∀ d, s.dongle? ref = some d → (f d).InTurn)
    (hpc : ∀ p, pc = .preflight p → p.ref = ref) : (s.modifyDongle ref f).InTurn .idle := by
  rcases hd : s.dongle? ref with _ | d
  · rw [modifyDongle_none hd]
    refine ⟨h.numbered, fun ref' d' hd' _ => h.holders ref' d' hd' fun p hp heq => ?_, trivial⟩
    rw [← heq, hpc p hp, hd] at hd'
    cases hd'
  have hsame := dongle?_modifyDongle hd (ho d hd)
  refine ⟨fun ref' d' hd' => ?_, fun ref' d' hd' _ => ?_, trivial⟩
  all_goals by_cases hne : ref' = ref
  · subst hne
    exact (h.numbered ref' d hd).trans_eq (modifyDongle_nextOid f).symm
  · rw [dongle?_modifyDongle_of_ne hd (ho d hd) hne] at hd'
    exact (h.numbered ref' d' hd').trans_eq (modifyDongle_nextOid f).symm
  · subst hne
    rw [hsame] at hd'
    cases hd'
    exact hf d hd
  · rw [dongle?_modifyDongle_of_ne hd (ho d hd) hne] at hd'
    exact h.holders ref' d' hd' fun p hp heq => hne (heq.symm.trans (hpc p hp))

theorem inTurn_doAcquire (h : s.InTurn .idle) :
    (s.doAcquire ref caller now).1.InTurn (s.doAcquire ref caller now).2 := by
  rw [doAcquire]
  split
  · rename_i d slot hd hslot
    split_ifs
    · exact h
    · exact h
    · have hk : s.KeepsPlace (s.modifyDongle ref (·.allocateSlot caller)) :=
        keepsPlace_modifyDongle fun _ _ => Dongle.keepsPlace_allocateSlot
      refine (h.keeps hk).goes ⟨(h.numbered ref d hd).trans_le hk.nextOid, fun e he => ?_⟩
      have hmod : (s.modifyDongle ref (·.allocateSlot caller)).dongle? ref =
          some (d.allocateSlot caller) := dongle?_modifyDongle hd Dongle.modifySlot_oid
      obtain rfl := Option.some.inj (hmod.symm.trans he)
      refine ⟨Nat.le_refl _, fun _ x hx => ?_⟩
      rw [slot?, hd, Option.bind_some] at hslot
      change (d.modifySlot caller _).slots.get? caller = some x at hx
      rw [Dongle.get?_modifySlot, if_pos rfl, hslot, Option.map_some] at hx
      cases hx
      rfl
  · exact h

theorem inTurn_afterYield (h : s.InTurn .idle) (hh : ∀ d ∈ s.dongle? ref, d.currentHolder = none)
    (next : AfterYield) : (s.afterYield ref now next).1.InTurn (s.afterYield ref now next).2 := by
  cases next with
  | acquire caller => exact inTurn_doAcquire h
  | pickBackground =>
    rw [afterYield]
    rcases hd : s.dongle? ref with _ | d
    · exact h
    have hk : s.KeepsPlace (s.modifyDongle ref fun _ => (d.pickBackground now.mono).1) :=
      keepsPlace_modifyDongle fun e he => by
        obtain rfl : d = e := Option.some.inj (hd.symm.trans he)
        refine Dongle.keepsPlace_pickBackground fun c hc _ => ?_
        have := hc.holds
        rw [hh d hd] at this
        cases this
    dsimp only
    split
    · split_ifs
      · exact h.keeps hk
      · exact inTurn_doAcquire (h.keeps hk)
    · exact h.keeps hk

/-- The dongle that the thread was about to hand over loses its holder. -/
theorem inTurn_yieldThen {preemptedBy : String} (h : s.InTurn pc)
    (hpc : ∀ p, pc = .preflight p → p.ref = ref) (next : AfterYield) :
    (s.yieldThen ref caller preemptedBy next now).1.InTurn
      (s.yieldThen ref caller preemptedBy next now).2 := by
  have hnone : ∀ d ∈ (s.doYield ref caller preemptedBy).1.dongle? ref, d.currentHolder = none :=
    fun d hd => by
      have hn : (s.doYield ref caller preemptedBy).1.holder? ref = none := holder?_doYield
      rwa [holder?_eq hd] at hn
  have hk : s.KeepsPlace (s.doYield ref caller preemptedBy).1 := keepsPlace_doYield
  have hidle : (s.doYield ref caller preemptedBy).1.InTurn .idle := by
    refine ⟨(h.keeps hk).numbered, fun ref' d' hd' _ => ?_, trivial⟩
    by_cases hne : ref' = ref
    · exact Dongle.inTurn_of_none (hnone d' (hne ▸ hd'))
    · exact (h.keeps hk).holders ref' d' hd' fun p hp heq => hne (heq.symm.trans (hpc p hp))
  rw [yieldThen]
  rcases heq : s.doYield ref caller preemptedBy with ⟨s', _ | lease⟩
  · rw [heq] at hnone hidle
    exact inTurn_afterYield hidle hnone next
  · rw [heq] at hnone hidle
    exact hidle.goes hnone

theorem beginPreflight_ref {current winner : String} {canPreempt : Bool}
    (h : s.beginPreflight ref current winner canPreempt now = some p) : p.ref = ref := by
  rw [beginPreflight] at h
  split at h
  · split_ifs at h
    split at h
    · cases h
    · dsimp only at h
      split_ifs at h
      cases h
      rfl
  · cases h

/-- The contest for a dongle changes nothing, and can only begin a hand-over of it. -/
theorem contend_cases (s : Scheduler) (ref : Ref) (d : Dongle) (current winner : String)
    (now : Clock) :
    (s.contend ref d current winner now).1 = s ∧
      ((s.contend ref d current winner now).2 = .idle ∨
        ∃ p, (s.contend ref d current winner now).2 = .preflight p ∧ p.ref = ref) := by
  have hbegin : ∀ canPreempt, (s.beginPreflight ref current winner canPreempt now).elim
        ThreadPc.idle .preflight = .idle ∨
      ∃ p, (s.beginPreflight ref current winner canPreempt now).elim
        ThreadPc.idle .preflight = .preflight p ∧ p.ref = ref := fun canPreempt => by
    rcases hp : s.beginPreflight ref current winner canPreempt now with _ | p
    · exact .inl rfl
    · exact .inr ⟨p, rfl, beginPreflight_ref hp⟩
  rw [contend]
  split_ifs
  · exact ⟨rfl, hbegin true⟩
  · exact ⟨rfl, hbegin false⟩
  · exact ⟨rfl, .inl rfl⟩

/-- Where the slice of a background holder has run out, the evaluation begins
    the hand-over to another caller, or the holder has the turn again. -/
def TurnsOver (s : Scheduler) (key : String) (now : Clock) : Prop :=
  ∀ d ∈ s.dongles.get? key, ∀ h ∈ d.currentHolder, d.background h = true →
    d.SliceOver h now.mono → (d.expireWindows now.wall).pickDue now.wall = none →
      d.nextAfter h = some h ∨ (s.evaluate key now).2 ≠ .idle

/-- One dongle changes that the thread is about to hand over. -/
theorem InTurn.beginHandOver (h : s.InTurn .idle) (hd : s.dongle? ref = some d)
    {f : Dongle → Dongle} (ho : (f d).oid = d.oid) (hp : p.ref = ref) :
    (s.modifyDongle ref f).InTurn (.preflight p) := by
  refine ⟨fun ref' d' hd' => ?_, fun ref' d' hd' hpc => ?_, trivial⟩
  · refine Nat.lt_of_lt_of_eq ?_ (modifyDongle_nextOid f).symm
    by_cases hne : ref' = ref
    · exact hne ▸ h.numbered ref d hd
    · rw [dongle?_modifyDongle_of_ne hd ho hne] at hd'
      exact h.numbered ref' d' hd'
  · have hne : ref' ≠ ref := fun heq => hpc p rfl (hp.trans heq.symm)
    rw [dongle?_modifyDongle_of_ne hd ho hne] at hd'
    exact h.holders ref' d' hd' (by rintro p ⟨⟩)

/-- An evaluation that turns the background over, from the holder `c` to another
    caller or to nobody, begins a hand-over. -/
theorem inTurn_evaluate_over {key : String} (h : s.InTurn .idle) (hd : s.dongles.get? key = some d)
    (hdue : (d.expireWindows now.wall).pickDue now.wall = none)
    (hc : (d.expireWindows now.wall).SliceOver c now.mono)
    (hb : (d.expireWindows now.wall).background c = true)
    (hne : ((d.expireWindows now.wall).pickBackground now.mono).2 ≠ some c)
    (hgoes : (s.evaluate key now).2 ≠ .idle) :
    (s.evaluate key now).1.InTurn (s.evaluate key now).2 := by
  have href := dongle?_of_get? hd
  rw [evaluate, hd] at hgoes ⊢
  dsimp only at hgoes ⊢
  have hwin : (d.expireWindows now.wall).pickWinner now =
      (d.expireWindows now.wall).pickBackground now.mono := by rw [Dongle.pickWinner, hdue]
  rw [hwin] at hgoes ⊢
  obtain ⟨i, hi⟩ := Dongle.pickBackground_fst (d := d.expireWindows now.wall) now.mono
  generalize (d.expireWindows now.wall).pickBackground now.mono = r at hi hne hgoes ⊢
  obtain ⟨e, winner⟩ := r
  dsimp only at hi hne hgoes ⊢
  have hholder : e.currentHolder = some c := hi ▸ hc.holds
  rw [hholder] at hgoes ⊢
  rcases winner with _ | winner
  · -- A background holder does not yield to nobody.
    have hsched : (e.slots.get? c).any (·.priority = .scheduled) = false := by
      obtain ⟨x, hx, hp⟩ := (Option.any_eq_true _ _).1 hb
      rw [hi]
      rw [hx, Option.any_some]
      simp_all
    dsimp only at hgoes
    rw [hsched] at hgoes
    exact absurd rfl hgoes
  · have hdiff : winner ≠ c := fun heq => hne (heq ▸ rfl)
    dsimp only at hgoes ⊢
    rw [if_neg hdiff] at hgoes ⊢
    obtain ⟨hsame, hpc⟩ :=
      contend_cases (s.modifyDongle ⟨key, d.oid⟩ fun _ => e) ⟨key, d.oid⟩ e c winner now
    rcases hpc with hidle | ⟨p, hp, hpref⟩
    · exact absurd hidle hgoes
    · rw [hsame, hp]
      exact h.beginHandOver href (hi ▸ rfl) hpref

theorem inTurn_evaluate {key : String} (h : s.InTurn .idle) (hk : s.TurnsOver key now) :
    (s.evaluate key now).1.InTurn (s.evaluate key now).2 := by
  rcases hd : s.dongles.get? key with _ | d
  · rw [evaluate, hd]
    exact h
  have href := dongle?_of_get? hd
  have hturn : d.InTurn := h.holders _ d href (by rintro p ⟨⟩)
  by_cases hkeep : (d.expireWindows now.wall).pickDue now.wall = none →
      ∀ c, (d.expireWindows now.wall).SliceOver c now.mono →
        (d.expireWindows now.wall).background c = true →
          ((d.expireWindows now.wall).pickBackground now.mono).2 = some c
  · have hplace : d.KeepsPlace ((d.expireWindows now.wall).pickWinner now).1 := by
      have hexp : d.KeepsPlace (d.expireWindows now.wall) := Dongle.keepsPlace_expireWindows
      refine hexp.trans ?_
      rw [Dongle.pickWinner]
      split
      · exact .refl _
      · rename_i hdue
        exact Dongle.keepsPlace_pickBackground (hkeep hdue)
    rw [evaluate, hd]
    dsimp only
    generalize (d.expireWindows now.wall).pickWinner now = r at hplace ⊢
    obtain ⟨e, winner⟩ := r
    dsimp only at hplace ⊢
    have h₁ : (s.modifyDongle ⟨key, d.oid⟩ fun _ => e).InTurn .idle :=
      h.keeps (keepsPlace_modifyDongle fun d' hd' => by
        obtain rfl : d = d' := Option.some.inj (href.symm.trans hd')
        exact hplace)
    split
    · exact h₁
    · exact inTurn_doAcquire h₁
    · split_ifs
      · exact inTurn_yieldThen h₁ (by rintro p ⟨⟩) _
      · exact h₁
    · rename_i winner current _
      split_ifs
      · exact h₁
      · obtain ⟨hsame, hpc⟩ :=
          contend_cases (s.modifyDongle ⟨key, d.oid⟩ fun _ => e) ⟨key, d.oid⟩ e current winner now
        rw [hsame]
        rcases hpc with hidle | ⟨p, hp, -⟩
        · rw [hidle]
          exact h₁
        · rw [hp]
          exact h₁.goes trivial
  · -- The slice has run out, and the turn is not the holder's again.
    push Not at hkeep
    obtain ⟨hdue, c, hover, hb, hne⟩ := hkeep
    have hb' : d.background c = true := Dongle.samePriorities_expireWindows.background hb
    have hover' : d.SliceOver c now.mono := ⟨hover.holds, hover.queued, hover.expired⟩
    have hnext : ((d.expireWindows now.wall).pickBackground now.mono).2 = d.nextAfter c := by
      rw [Dongle.pickBackground_of_inTurn hover hb (Dongle.keepsPlace_expireWindows.inTurn hturn),
        Dongle.nextAfter_expireWindows]
    refine inTurn_evaluate_over h hd hdue hover hb hne ?_
    exact (hk d hd c hover.holds hb' hover' hdue).resolve_left fun heq => hne (hnext.trans heq)

/-! ### After a preflight -/

/-- The slot notes the preflight that has ended. -/
def notePreflight (s : Scheduler) (p : Preflight) (now : Clock) : Scheduler :=
  s.modifySlot p.ref p.caller p.signature.registrationId fun slot =>
    { slot with
      identityPreflightAt := now.mono
      identityPreflightSignature := some p.signature
      identityPreflightDeferred := false }

/-- A slot that turns out to be another receiver's is moved in turn after its preflight. -/
def PreflightMovesInTurn (s : Scheduler) (p : Preflight) (outcome : ClaimOutcome) (now : Clock) :
    Prop :=
  let s' := (s.claimDevice outcome).1
  s'.preflightCurrent p now = true → ∀ r ∈ outcome.resolved,
    ((s'.notePreflight p now).slotIs? p.ref p.caller p.signature.registrationId).any
        (·.canonicalId ≠ r.canonicalId) = true →
      (s'.notePreflight p now).MovesInTurn p.ref p.caller p.signature.registrationId r.canonicalId

theorem keepsPlace_preflightMismatch {l : Option Lease}
    (h : s.MovesInTurn p.ref p.caller p.signature.registrationId canonicalId) :
    s.KeepsPlace (s.preflightMismatch p l canonicalId) := by
  have hk := keepsPlace_reconcileIdleSlot h
  have hset : ∀ (t : Scheduler) ref b, t.KeepsPlace (t.setDeferred ref p b) := fun t ref b =>
    keepsPlace_modifySlot fun _ => rfl
  unfold preflightMismatch
  split
  · rename_i heq
    rwa [heq] at hk
  all_goals
    rename_i heq
    rw [heq] at hk
    exact (hk.trans (hset _ _ _)).trans (keepsPlace_releaseLease _)

variable {outcome : ClaimOutcome}

theorem keepsPlace_finishPreflight (h : s.PreflightMovesInTurn p outcome now) :
    s.KeepsPlace (s.finishPreflight p outcome now).1 := by
  have hclaim : s.KeepsPlace (s.claimDevice outcome).1 := keepsPlace_claimDevice _
  rw [PreflightMovesInTurn] at h
  rw [finishPreflight]
  generalize s.claimDevice outcome = r at hclaim h ⊢
  obtain ⟨s₁, l⟩ := r
  dsimp only at hclaim h ⊢
  refine hclaim.trans ?_
  split_ifs with hcur
  · exact keepsPlace_releaseLease _
  · have hset : s₁.KeepsPlace (s₁.notePreflight p now) := keepsPlace_modifySlot fun _ => rfl
    refine hset.trans ?_
    split
    · have hdefer : ∀ b, (s₁.notePreflight p now).KeepsPlace
          ((s₁.notePreflight p now).setDeferred p.ref p b) := fun b =>
        keepsPlace_modifySlot fun _ => rfl
      exact (hdefer _).trans (keepsPlace_releaseLease _)
    · rename_i r hr
      split_ifs with hmis
      · exact keepsPlace_preflightMismatch (h (by simpa using hcur) r hr hmis)
      · exact keepsPlace_releaseLease _

/-! ### After a claim and a grant -/

/-- A slot that turns out to be another receiver's is moved in turn after the claim for it. -/
def ClaimMovesInTurn (s : Scheduler) (a : Acquisition) (outcome : ClaimOutcome) : Prop :=
  let s' := (s.claimDevice outcome).1.recordClaim a (s.claimDevice outcome).2
  s'.acquireCurrent a = true → ∀ r ∈ outcome.resolved,
    (s'.slotIs? a.ref a.caller a.registrationId).any (·.canonicalId ≠ r.canonicalId) = true →
      s'.MovesInTurn a.ref a.caller a.registrationId r.canonicalId

theorem keepsPlace_resetAllocation : s.KeepsPlace (s.resetAllocation ref a) :=
  keepsPlace_modifySlot fun _ => rfl

theorem keepsPlace_deferAcquireRetry :
    s.KeepsPlace (s.modifyDongle ref (·.deferAcquireRetry a now)) :=
  keepsPlace_modifyDongle fun _ _ => Dongle.keepsPlace_modifySlot fun x => by split_ifs <;> rfl

theorem keepsPlace_acquireMismatch {l : Option Lease}
    (h : s.MovesInTurn a.ref a.caller a.registrationId canonicalId) :
    s.KeepsPlace (s.acquireMismatch a l canonicalId now).1 ∧
      (s.acquireMismatch a l canonicalId now).2 = .idle := by
  have hk := keepsPlace_reconcileIdleSlot h
  unfold acquireMismatch
  split
  · rename_i heq
    rw [heq] at hk
    exact ⟨hk, rfl⟩
  · rename_i s₁ target heq
    rw [heq] at hk
    have hset : s₁.KeepsPlace (s₁.modifySlot target a.caller a.registrationId
        ({ · with acquireRetrySignature := none })) := keepsPlace_modifySlot fun _ => rfl
    exact ⟨((hk.trans hset).trans keepsPlace_resetAllocation).trans (keepsPlace_releaseLease _),
      rfl⟩
  · rename_i heq
    rw [heq] at hk
    exact ⟨((hk.trans keepsPlace_deferAcquireRetry).trans keepsPlace_resetAllocation).trans
      (keepsPlace_releaseLease _), rfl⟩

theorem inTurn_finishClaim (h : s.InTurn .idle)
    (ha : s.Awaits (.claiming a)) (hk : s.ClaimMovesInTurn a outcome) :
    (s.finishClaim a outcome now).1.InTurn (s.finishClaim a outcome now).2 := by
  have hclaim : s.KeepsPlace (s.claimDevice outcome).1 := keepsPlace_claimDevice _
  rw [ClaimMovesInTurn] at hk
  rw [finishClaim]
  generalize s.claimDevice outcome = r at hclaim hk ⊢
  obtain ⟨s₁, l⟩ := r
  dsimp only at hclaim hk ⊢
  have hrecord : s₁.KeepsPlace (s₁.recordClaim a l) := keepsPlace_modifySlot fun _ => rfl
  replace h := h.keeps (hclaim.trans hrecord)
  replace ha := ha.keeps (hclaim.trans hrecord)
  generalize s₁.recordClaim a l = s₂ at h ha hk ⊢
  rw [settleClaim]
  split_ifs with hcur
  · dsimp only
    split
    · exact (h.keeps keepsPlace_resetAllocation).goes trivial
    · exact h.keeps keepsPlace_resetAllocation
  · dsimp only
    split
    · rename_i r hr
      obtain ⟨hr, hmis⟩ := Option.filter_eq_some_iff.1 hr
      have hmoves := hk (by simpa using hcur) r hr hmis
      rw [(keepsPlace_acquireMismatch hmoves).2]
      exact h.keeps (keepsPlace_acquireMismatch hmoves).1
    · exact h.goes ha
    · have hset : s₂.KeepsPlace (s₂.modifySlot a.ref a.caller a.registrationId
          ({ · with allocationGeneration := 0 })) := keepsPlace_modifySlot fun _ => rfl
      exact h.keeps (hset.trans keepsPlace_deferAcquireRetry)

theorem inTurn_finishGrant {lease : Lease} {callbackOk : Bool} (h : s.InTurn .idle)
    (ha : s.Awaits (.granting a lease)) :
    (s.finishGrant a lease callbackOk now).1.InTurn (s.finishGrant a lease callbackOk now).2 := by
  have hdiscard : ∀ t : Scheduler, s.KeepsPlace t →
      (t.discardSuccessfulAcquisition a lease).1.InTurn
        (t.discardSuccessfulAcquisition a lease).2 := fun t ht => by
    have hset : t.KeepsPlace (t.modifySlot a.ref a.caller a.registrationId
        ({ · with allocationGeneration := 0 })) := keepsPlace_modifySlot fun _ => rfl
    exact (h.keeps (ht.trans hset)).goes trivial
  rw [finishGrant]
  split_ifs
  · exact h.keeps (((keepsPlace_releaseLease _).trans keepsPlace_resetAllocation).trans
      keepsPlace_deferAcquireRetry)
  · exact hdiscard s (.refl s)
  · split
    · rename_i d slot hd hslot
      split_ifs with hstale
      · exact hdiscard s (.refl s)
      · exact hdiscard _ (keepsPlace_modifySlot fun _ => rfl)
      · -- No slot has come or gone, so the priority is the one noted.
        push Not at hstale
        have hprio := (ha.2 d hd).2 hstale.2
        refine InTurn.goes
          (h.modifyDongle (fun e _ => ?_) (fun e he => ?_) (by rintro p ⟨⟩)) trivial
        · unfold Dongle.grantSlot
          dsimp only
          split_ifs <;> exact Dongle.modifySlot_oid
        · obtain rfl : d = e := Option.some.inj (hd.symm.trans he)
          exact Dongle.inTurn_grantSlot hprio
    · exact hdiscard _ (keepsPlace_modifyDongle fun d _ =>
        .of_queue rfl rfl rfl rfl (.refl d) (Nat.le_refl _))

/-- The thread goes on in turn: a hand-over that had begun goes through, unless
    the position is the holder's place all the same, and a slot that turns out
    to be another receiver's is moved in turn. -/
def ResumesInTurn (s : Scheduler) (outcome : ClaimOutcome) (now : Clock) : ThreadPc → Prop
  | .preflight p => s.PreflightMovesInTurn p outcome now ∧
      ∀ d ∈ s.dongle? p.ref, d.InTurn ∨
        ((s.finishPreflight p outcome now).2 = true ∧ p.signature.canPreempt = true)
  | .claiming a => s.ClaimMovesInTurn a outcome
  | _ => True

theorem inTurn_resumeThread {callbackOk : Bool} (h : s.InTurn pc)
    (hk : s.ResumesInTurn outcome now pc) : (s.resumeThread pc outcome callbackOk now).1.InTurn
      (s.resumeThread pc outcome callbackOk now).2 := by
  have hidle : (∀ p, pc ≠ .preflight p) → s.InTurn .idle := fun hpc =>
    ⟨h.numbered, fun ref d hd _ => h.holders ref d hd fun p hp => absurd hp (hpc p), trivial⟩
  cases pc with
  | idle => exact h
  | preflight p =>
    obtain ⟨hmoves, hover⟩ := hk
    have hplace := keepsPlace_finishPreflight hmoves
    rw [resumeThread]
    rcases heq : s.finishPreflight p outcome now with ⟨s₁, goesOn⟩
    rw [heq] at hplace hover
    dsimp only at hplace hover ⊢
    split_ifs with hon
    · exact inTurn_yieldThen (h.keeps hplace) (by rintro p' ⟨⟩; rfl) _
    · have hall : s.InTurn .idle := by
        refine ⟨h.numbered, fun ref d hd _ => ?_, trivial⟩
        by_cases hne : p.ref = ref
        · subst hne
          exact (hover d hd).resolve_right hon
        · exact h.holders ref d hd (by rintro p' ⟨⟩; exact hne)
      exact hall.keeps hplace
  | yielding ref lease next =>
    have hr : s.KeepsPlace (s.releaseLease lease) := keepsPlace_releaseLease lease
    exact inTurn_afterYield ((hidle (by rintro p ⟨⟩)).keeps hr) (h.keeps hr).awaits next
  | claiming a => exact inTurn_finishClaim (hidle (by rintro p ⟨⟩)) h.awaits hk
  | dropping lease | discarding lease =>
    exact (hidle (by rintro p ⟨⟩)).keeps (keepsPlace_releaseLease (some lease))
  | granting a lease => exact inTurn_finishGrant (hidle (by rintro p ⟨⟩)) h.awaits
  | publishing => exact hidle (by rintro p ⟨⟩)

end Scheduler

end ReticulumPi.Sdr
