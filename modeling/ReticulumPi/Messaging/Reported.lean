import ReticulumPi.Messaging.Final

/-!
# Reports get through

A report about a message that the adapter has accepted should end up in the
store. The callbacks of the LXMF and the MeshCore adapter know the message by
its entry, and a report that comes before the entry is made, or after the sweep
has taken it, is lost. That of the Meshtastic adapter waits for the message to be
bound; but it finds the holder filled a little before the entry is made, and the
entry then stays (`Life.Finds`).
-/

namespace ReticulumPi.Messaging.Delivery

open List

variable {m : Outgoing} {s s' : Life} {st : Status}

/-- The entry is about to be made. -/
def Carrier.isTracking : Carrier → Bool
  | .tracking _ _ => true
  | _ => false

/-- It has been made, or would have been. -/
def Carrier.late : Carrier → Bool
  | .releasing _ _ | .promoting | .done => true
  | _ => false

/-- The message has been stored, and its registration has begun. -/
def Carrier.registered : Carrier → Bool
  | .binding _ _ | .tracking _ _ => true
  | carrier => carrier.late

/-- The run is one of a message whose sending goes through: the adapter gives it a key and reports
    once, the sender does not fail in between, and the acknowledgement is waited for. The message is
    not promoted as a broadcast, and nobody reads it. -/
def Life.Regular (m : Outgoing) (s : Life) : Event → Prop
  | .answer (.accepts r) => m.kind.tracks r = true
  | .go => s.carrier ≠ .promoting
  | .raise => False
  | .report _ => s.reported = none
  | .giveUp _ => False
  | .receipt => False
  | _ => True

instance (s : Life) (e : Event) : Decidable (s.Regular m e) := by
  unfold Life.Regular
  split <;> infer_instance

/-- The callback finds the entry; that of the Meshtastic adapter does not come just before it is
    made. -/
def Life.Finds (m : Outgoing) (s : Life) : Event → Prop
  | .pop _ => if m.kind = .meshtastic then s.carrier.isTracking = false else s.pending = true
  | _ => True

instance (s : Life) (e : Event) : Decidable (s.Finds m e) := by
  unfold Life.Finds
  split <;> infer_instance

/-! ## The invariant -/

/-- The message is on its way from the adapter that has accepted it to its registration. -/
def Carrier.Carries (r : Accepted) : Carrier → Prop
  | .finalizing result => result = some r
  | .closing outcome => outcome = .sent r
  | .binding r' _ | .tracking r' _ => r' = r
  | carrier => carrier.late = true

/-- Where the sweep is about to give the message up. -/
abbrev Thread.timing : Thread := .writing .timeout

/-- Beside the threads of the sweep there is only this one. -/
def Life.Only (s : Life) (t : Thread) : Prop := t ∈ s.threads ∧ ∀ u ∈ s.threads.erase t, u = .timing

/-- How far the report has come. -/
inductive Life.Stage (m : Outgoing) (s : Life) (st : Status) : Prop
  | waiting (h : s.Only (.waiting st))
  | popping (h : s.Only (.popping st))
  | writing (h : s.Only (.writing st)) (pending : s.pending = false)
      (late : s.carrier.late = true)
  | settled (h : ∀ u ∈ s.threads, u = .timing) (row : s.row = some st)
      (pending : s.pending = false) (late : s.carrier.late = true)
      (tickets : m.kind ≠ .meshtastic → s.tickets = 0)

variable (m) in
structure Life.Heard (s : Life) : Prop where
  sound : s.Sound m
  accepted : ∀ r ∈ s.accepted, m.kind.tracks r = true ∧ s.carrier.Carries r
  stored : s.accepted.isSome = true → s.carrier.registered = true → s.row.isSome = true
  unreported : s.reported = none → ∀ t ∈ s.threads, t = .timing
  reported : ∀ st ∈ s.reported, m.kind.reports st = true ∧ s.accepted.isSome = true ∧ s.Stage m st

namespace Life

/-! ## The threads -/

variable {t : Thread}

theorem Heard.mem (h : s.Heard m) (ht : t ∈ s.threads) :
    t = .timing ∨ ∃ st ∈ s.reported, t = .waiting st ∨ t = .popping st ∨ t = .writing st := by
  cases hreported : s.reported with
  | none => exact .inl (h.unreported hreported t ht)
  | some st =>
    have honly : ∀ {u : Thread}, s.Only u → t = .timing ∨ t = u := fun {u} hu => by
      by_cases heq : t = u
      · exact .inr heq
      · exact .inl (hu.2 t ((mem_erase_of_ne heq).2 ht))
    obtain ⟨_, _, hstage⟩ := h.reported st hreported
    cases hstage with
    | waiting hu => exact (honly hu).imp_right fun heq => ⟨st, rfl, .inl heq⟩
    | popping hu => exact (honly hu).imp_right fun heq => ⟨st, rfl, .inr (.inl heq)⟩
    | writing hu => exact (honly hu).imp_right fun heq => ⟨st, rfl, .inr (.inr heq)⟩
    | settled hu => exact .inl (hu t ht)

/-- A status that is reported is neither `read` nor `timeout`, and written as it is. -/
theorem reports_ne {kind : Kind} (h : kind.reports st = true) :
    st ≠ .read ∧ st ≠ .timeout ∧ ∀ old, overwrite st old = st := by
  have hst : st = .delivered ∨ st = .propagated ∨ st = .deliveryFailed := by
    cases kind <;> simp [Kind.reports] at h <;> tauto
  rcases hst with rfl | rfl | rfl
  all_goals exact ⟨by decide, by decide, fun _ => if_neg fun hboth => absurd hboth.1 (by decide)⟩

theorem Heard.not_reading (h : s.Heard m) : .writing .read ∉ s.threads := fun hmem => by
  rcases h.mem hmem with heq | ⟨st, hst, heq | heq | heq⟩
  · cases heq
  · cases heq
  · cases heq
  · cases heq
    exact (reports_ne (h.reported _ hst).1).1 rfl

/-- What the carrier does leaves the report where it is. -/
theorem Stage.frame (h : s.Stage m st) (hthreads : s'.threads = s.threads)
    (hlate : s.carrier.late = true →
      s'.pending = s.pending ∧ s'.row = s.row ∧ s'.carrier.late = true) : s'.Stage m st := by
  have honly : ∀ {t : Thread}, s.Only t → s'.Only t := fun ht => by rwa [Only, hthreads]
  cases h with
  | waiting ht => exact .waiting (honly ht)
  | popping ht => exact .popping (honly ht)
  | writing ht hpending hc =>
    obtain ⟨hpending', _, hc'⟩ := hlate hc
    exact .writing (honly ht) (hpending'.trans hpending) hc'
  | settled ht hrow hpending hc htickets =>
    obtain ⟨hpending', hrow', hc'⟩ := hlate hc
    refine .settled (hthreads ▸ ht) (hrow'.trans hrow) (hpending'.trans hpending) hc' fun hk => ?_
    rw [Life.tickets, hthreads, hpending']
    exact htickets hk

/-- Nothing has been accepted yet, and maybe the adapter accepts the message now. -/
theorem Heard.before (h : s.Heard m) (hnone : s.accepted = none) {c : Carrier}
    {accepted : Option Accepted} (hsound : Sound m { s with carrier := c, accepted := accepted })
    (haccepted : ∀ r ∈ accepted, m.kind.tracks r = true ∧ c.Carries r ∧ c.registered = false) :
    Heard m { s with carrier := c, accepted := accepted } := by
  refine ⟨hsound, fun r hr => ⟨(haccepted r hr).1, (haccepted r hr).2.1⟩, fun hsome hc => ?_,
    h.unreported, fun st hst => ?_⟩
  · obtain ⟨r, hr⟩ := Option.isSome_iff_exists.1 hsome
    have hc' := (haccepted r hr).2.2
    rw [hc] at hc'
    cases hc'
  · have hsome := (h.reported st hst).2.1
    rw [hnone] at hsome
    cases hsome

/-- The carrier is none that an accepted message has. -/
theorem Heard.accepted_none (h : s.Heard m) (hc : ∀ r, ¬s.carrier.Carries r) :
    s.accepted = none := by
  cases haccepted : s.accepted with
  | none => rfl
  | some r => exact absurd (h.accepted r haccepted).2 (hc r)

theorem late_afterTracking (r : Accepted) (direct : Bool) :
    (afterTracking m r direct).late = true := by
  rw [afterTracking]
  split_ifs <;> rfl

theorem carries_of_late {c : Carrier} (r : Accepted) (h : c.late = true) : c.Carries r := by
  cases c <;> first | exact h | cases h

theorem carries_register (r : Accepted) (direct : Bool) :
    (register m r direct).Carries r := by
  rw [register]
  split
  · rfl
  · exact carries_of_late r (late_afterTracking r direct)
  · rfl

/-- The carrier goes on with an accepted message. -/
theorem Heard.carry (h : s.Heard m) (hsound : s'.Sound m) (hthreads : s'.threads = s.threads)
    (haccepted : s'.accepted = s.accepted) (hreported : s'.reported = s.reported)
    (hcarries : ∀ r, s.carrier.Carries r → s'.carrier.Carries r)
    (hrow : s.accepted.isSome = true → s'.carrier.registered = true → s'.row.isSome = true)
    (hlate : s.carrier.late = true →
      s'.pending = s.pending ∧ s'.row = s.row ∧ s'.carrier.late = true) : s'.Heard m where
  sound := hsound
  accepted r hr := by
    rw [haccepted] at hr
    exact (h.accepted r hr).imp_right (hcarries r)
  stored := by
    rw [haccepted]
    exact hrow
  unreported := by
    rw [hreported, hthreads]
    exact h.unreported
  reported st hst := by
    rw [hreported] at hst
    rw [haccepted]
    obtain ⟨hreports, hsome, hstage⟩ := h.reported st hst
    exact ⟨hreports, hsome, hstage.frame hthreads hlate⟩

theorem Heard.go (h : s.Heard m) (hsound : s'.Sound m) (hpromote : s.carrier ≠ .promoting)
    (hgo : s.go m = some s') : s'.Heard m := by
  have hkeep : ∀ c, s.carrier = c → c.registered = true → s.accepted.isSome = true →
      s.row.isSome = true := fun c hc hreg hsome => h.stored hsome (hc ▸ hreg)
  unfold Life.go at hgo
  split at hgo <;> cases hgo
  next hc =>
    refine h.carry hsound rfl rfl rfl (fun r hr => ?_) (fun _ _ => rfl) fun hlate => ?_
    · rw [hc] at hr
      cases hr
    · rw [hc] at hlate
      cases hlate
  next r hc =>
    refine h.carry hsound rfl rfl rfl (fun r' hr => ?_) (fun _ _ => rfl) fun hlate => ?_
    · rw [hc] at hr
      cases hr
      exact carries_register r true
    · rw [hc] at hlate
      cases hlate
  next hc =>
    refine h.carry hsound rfl rfl rfl (fun r hr => ?_) (fun _ _ => rfl) fun hlate => ?_
    · rw [hc] at hr
      cases hr
    · rw [hc] at hlate
      cases hlate
  next hc =>
    refine h.carry hsound rfl rfl rfl (fun r hr => ?_) nofun fun hlate => ?_
    · rw [hc] at hr
      cases hr
    · rw [hc] at hlate
      cases hlate
  next r hc =>
    refine h.carry hsound rfl rfl rfl (fun r' hr => ?_) (fun _ _ => ?_) fun hlate => ?_
    · rw [hc] at hr
      cases hr
      exact carries_register r false
    · rw [update_queued (h.sound.unsent (by rw [hc]; rfl))]
      rfl
    · rw [hc] at hlate
      cases hlate
  next outcome hsent hc =>
    refine h.carry hsound rfl rfl rfl (fun r hr => ?_) (fun hsome _ => ?_) fun hlate => ?_
    · rw [hc] at hr
      exact absurd hr (hsent r)
    · obtain ⟨r, hr⟩ := Option.isSome_iff_exists.1 hsome
      have hcarries := (h.accepted r hr).2
      rw [hc] at hcarries
      exact absurd hcarries (hsent r)
    · rw [hc] at hlate
      cases hlate
  next r direct hc =>
    refine h.carry hsound rfl rfl rfl (fun r' hr => ?_) (fun hsome _ => hkeep _ hc rfl hsome)
      fun hlate => ?_
    · rw [hc] at hr
      exact hr
    · rw [hc] at hlate
      cases hlate
  next r direct hc =>
    refine h.carry hsound rfl rfl rfl (fun r' hr => ?_) (fun hsome _ => hkeep _ hc rfl hsome)
      fun hlate => ?_
    · refine carries_of_late r' ?_
      dsimp only
      split_ifs
      · rfl
      · exact late_afterTracking r direct
    · rw [hc] at hlate
      cases hlate
  next r direct hc =>
    exact h.carry hsound rfl rfl rfl
      (fun r' _ => carries_of_late r' (late_afterTracking r direct))
      (fun hsome _ => hkeep _ hc rfl hsome) fun _ => ⟨rfl, rfl, late_afterTracking r direct⟩
  next hc => exact absurd hc hpromote

/-! ## The report comes, and is written -/

theorem Only.spawn (h : ∀ u ∈ s.threads, u = .timing) : (s.spawn t).Only t :=
  ⟨mem_cons_self, fun u hu => h u (by
    change u ∈ (t :: s.threads).erase t at hu
    rwa [erase_cons_head] at hu)⟩

/-- The one thread goes on as another. -/
theorem Only.finish (h : s.Only t) (hf : s.finish t = some s') : ∀ u ∈ s'.threads, u = .timing := by
  rw [Life.finish, if_pos h.1] at hf
  cases hf
  exact h.2

variable (h : s.Heard m)
include h

theorem Heard.report (hsound : s'.Sound m) (hnone : s.reported = none)
    (hreport : s.report m st = some s') : s'.Heard m := by
  have hthreads := h.unreported hnone
  unfold Life.report at hreport
  split at hreport
  · cases hreport
  next r haccepted =>
    split_ifs at hreport with hreports hwait
    all_goals
      cases hreport
      refine ⟨hsound, h.accepted, h.stored, fun hsome => ?_, fun st' hst' => ?_⟩
      · simp [hnone] at hsome
    · have heq : st' = st := by simpa [hnone] using hst'.symm
      subst heq
      exact ⟨hreports.1, congrArg Option.isSome haccepted, .waiting (Only.spawn hthreads)⟩
    · have heq : st' = st := by simpa [hnone] using hst'.symm
      subst heq
      exact ⟨hreports.1, congrArg Option.isSome haccepted, .popping (Only.spawn hthreads)⟩

/-- The report is at the stage that a thread of its shows. -/
theorem Heard.reported_of_mem (hst : st ≠ .timeout)
    (ht : t = .waiting st ∨ t = .popping st ∨ t = .writing st)
    (hmem : t ∈ s.threads) : s.reported = some st := by
  rcases h.mem hmem with heq | ⟨st', hst', heq⟩
  · rw [heq] at ht
    rcases ht with ht | ht | ht
    · cases ht
    · cases ht
    · cases ht
      exact absurd rfl hst
  · rw [hst']
    rcases ht with rfl | rfl | rfl <;> rcases heq with heq | heq | heq <;> cases heq <;> rfl

/-- The one thread has gone, and the report is where it is then. -/
theorem Heard.passed (hsound : s'.Sound m) (hreported : s.reported = some st)
    (haccepted : s'.accepted = s.accepted) (hcarrier : s'.carrier = s.carrier)
    (hrow : s.row.isSome = true → s'.row.isSome = true) (hreported' : s'.reported = s.reported)
    (hstage : s'.Stage m st) : s'.Heard m := by
  obtain ⟨hreports, hsome, _⟩ := h.reported st hreported
  refine ⟨hsound, ?_, fun hsome' hc => ?_, fun hnone => ?_, fun st' hst' => ?_⟩
  · rw [haccepted, hcarrier]
    exact h.accepted
  · rw [haccepted] at hsome'
    rw [hcarrier] at hc
    exact hrow (h.stored hsome' hc)
  · rw [hreported', hreported] at hnone
    cases hnone
  · rw [hreported', hreported] at hst'
    cases hst'
    exact ⟨hreports, haccepted ▸ hsome, hstage⟩

/-- A thread of the report is the one that its stage shows. -/
theorem Heard.only (ht : t = .waiting st ∨ t = .popping st ∨
    t = .writing st) (hst : st ≠ .timeout) (hmem : t ∈ s.threads) :
    s.reported = some st ∧ s.Only t ∧
      (t = .writing st → s.pending = false ∧ s.carrier.late = true) := by
  have hreported := h.reported_of_mem hst ht hmem
  have hne : t ≠ .timing := by
    rcases ht with rfl | rfl | rfl
    · nofun
    · nofun
    · exact fun heq => hst (Thread.writing.inj heq)
  have heq : ∀ {u : Thread}, s.Only u → t = u := fun {u} hu => by
    by_contra hneq
    exact hne (hu.2 t ((mem_erase_of_ne hneq).2 hmem))
  refine ⟨hreported, ?_⟩
  cases (h.reported st hreported).2.2 with
  | waiting hu | popping hu =>
    obtain rfl := heq hu
    exact ⟨hu, nofun⟩
  | writing hu hpending hlate =>
    obtain rfl := heq hu
    exact ⟨hu, fun _ => ⟨hpending, hlate⟩⟩
  | settled hu => exact absurd (hu t hmem) hne

theorem timeout_ne (hmem : t ∈ s.threads)
    (ht : t = .waiting st ∨ t = .popping st) : st ≠ .timeout := by
  rintro rfl
  have hreports : m.kind.reports .timeout = true := by
    rcases ht with rfl | rfl
    · exact h.sound.waiting _ hmem
    · exact (h.sound.popping _ hmem).1
  exact (reports_ne hreports).2.1 rfl

theorem Heard.wake (hsound : s'.Sound m) {s₁ : Life}
    (hs₁ : s.finish (.waiting st) = some s₁) (hholder : s.holderId = true)
    (hs' : s' = if s₁.holderId then s₁.spawn (.popping st) else s₁) : s'.Heard m := by
  have hf := finished hs₁
  obtain ⟨hcarrier, hrow, hholder₁, _, haccepted, hreported'⟩ := hf.same
  obtain ⟨hreported, honly, _⟩ := h.only (.inl rfl) (timeout_ne h hf.mem (.inl rfl)) hf.mem
  rw [if_pos (hholder₁.trans hholder)] at hs'
  subst hs'
  exact h.passed hsound hreported haccepted hcarrier (fun hsome => hrow.symm ▸ hsome) hreported'
    (.popping (Only.spawn (honly.finish hs₁)))

omit h

theorem late_of_not_early {c : Carrier} {kind : Kind} (h : c.early kind = false)
    (ht : c.isTracking = false) : c.late = true := by
  cases c with
  | releasing r direct => rfl
  | promoting => rfl
  | done => rfl
  | tracking r direct => cases ht
  | _ => cases h

/-- The callback takes the entry, or comes after it was taken from a message that is registered. -/
theorem Heard.pop (h : s.Heard m) (hsound : s'.Sound m) (hfinds : s.Finds m (.pop st))
    (hpop : s.pop m st = some s') : s'.Heard m := by
  obtain ⟨s₁, hs₁, rfl⟩ := Option.map_eq_some_iff.1 hpop
  have hf := finished hs₁
  obtain ⟨hreported, honly, _⟩ := h.only (.inr (.inl rfl)) (timeout_ne h hf.mem (.inr rfl)) hf.mem
  have hlate : s.carrier.early m.kind = false ∧ s.carrier.isTracking = false := by
    by_cases hk : m.kind = .meshtastic
    · simp only [Finds, if_pos hk] at hfinds
      refine ⟨?_, hfinds⟩
      by_contra hc
      have hholder := (h.sound.popping st hf.mem).2 hk
      rw [(h.sound.early (Bool.eq_true_of_not_eq_false hc)).2 hk] at hholder
      cases hholder
    · simp only [Finds, if_neg hk] at hfinds
      have hearly : s.carrier.early m.kind = false := by
        by_contra hc
        have hnone := (h.sound.early (Bool.eq_true_of_not_eq_false hc)).1
        rw [Life.tickets, hfinds] at hnone
        cases hnone
      refine ⟨hearly, ?_⟩
      by_contra hc
      have hkind : decide (m.kind ≠ .meshtastic) = true := decide_eq_true hk
      cases hcarrier : s.carrier with
      | tracking r direct =>
        rw [hcarrier] at hearly
        exact absurd (hkind.symm.trans hearly) (by decide)
      | _ =>
        rw [hcarrier] at hc
        exact hc rfl
  obtain ⟨hcarrier, hrow, _, hpending, haccepted, hreported'⟩ := hf.same
  have hgo : s₁.pending = true ∨ m.kind = .meshtastic := by
    by_cases hk : m.kind = .meshtastic
    · exact .inr hk
    · simp only [Finds, if_neg hk] at hfinds
      exact .inl (hpending.trans hfinds)
  simp only [if_pos hgo] at hsound ⊢
  have hthreads := honly.finish hs₁
  refine h.passed hsound hreported haccepted hcarrier (fun hsome => hrow.symm ▸ hsome) hreported'
    (.writing (Only.spawn (s := { s₁ with pending := false }) hthreads) rfl ?_)
  exact hcarrier.symm ▸ late_of_not_early hlate.1 hlate.2

/-- A thread of the sweep comes or goes. -/
theorem Only.of_timing (h : s.Only t) (hmem : t ∈ s'.threads)
    (hother : ∀ u ∈ s'.threads.erase t, u ∈ s.threads.erase t ∨ u = .timing) : s'.Only t :=
  ⟨hmem, fun u hu => (hother u hu).elim (h.2 u) id⟩

theorem Heard.sweep (h : s.Heard m) (hpending : s.pending = true)
    (hsound : Sound m ({ s with pending := false }.spawn (.writing .timeout))) :
    Heard m ({ s with pending := false }.spawn (.writing .timeout)) := by
  have honly : ∀ {t : Thread}, t ≠ .timing → s.Only t →
      Only ({ s with pending := false }.spawn .timing) t := fun hne ht => by
    refine ht.of_timing (mem_cons_of_mem _ ht.1) fun u hu => ?_
    change u ∈ (.timing :: s.threads).erase _ at hu
    rw [erase_cons_tail (by simpa using Ne.symm hne)] at hu
    exact (mem_cons.1 hu).symm
  refine ⟨hsound, h.accepted, h.stored, fun hnone u hu => ?_, fun st hst => ?_⟩
  · exact (mem_cons.1 hu).elim id (h.unreported hnone u)
  · obtain ⟨hreports, hsome, hstage⟩ := h.reported st hst
    refine ⟨hreports, hsome, ?_⟩
    cases hstage with
    | waiting ht => exact .waiting (honly (by rintro ⟨⟩) ht)
    | popping ht => exact .popping (honly (by rintro ⟨⟩) ht)
    | writing ht hnone | settled ht hrow hnone =>
      exact absurd (hpending.symm.trans hnone) (by decide)

theorem Heard.write (h : s.Heard m) {s₁ : Life} (hs₁ : s.finish (.writing st) = some s₁)
    (hsound : (s₁.update st).Sound m) : (s₁.update st).Heard m := by
  have hf := finished hs₁
  obtain ⟨hcarrier, hrow, _, hpending, haccepted, hreported'⟩ := hf.same
  have hsome : s.row.isSome = true → (s₁.update st).row.isSome = true := fun hs => by
    rw [update, Option.isSome_map, hrow]
    exact hs
  by_cases hst : st = .timeout
  · subst hst
    -- the sweep gives the message up
    refine ⟨hsound, ?_, fun hsome' hc => ?_, fun hnone u hu => ?_, fun st hst => ?_⟩
    · change ∀ r ∈ s₁.accepted, _ ∧ s₁.carrier.Carries r
      rw [haccepted, hcarrier]
      exact h.accepted
    · exact hsome (h.stored (haccepted ▸ hsome') (hcarrier ▸ hc))
    · exact h.unreported (hreported'.symm.trans hnone) u (hf.sub hu)
    · obtain ⟨hreports, hsome', hstage⟩ := h.reported st (hreported' ▸ hst)
      refine ⟨hreports, haccepted.symm ▸ hsome', ?_⟩
      have honly : ∀ {t : Thread}, t ≠ .timing → s.Only t → Only (s₁.update .timeout) t :=
        fun {t} hne ht => by
          have hthreads : s₁.threads = s.threads.erase .timing := by
            rw [Life.finish, if_pos hf.mem] at hs₁
            cases hs₁
            rfl
          refine ht.of_timing ?_ fun u hu => .inl ?_
          · change t ∈ s₁.threads
            rw [hthreads]
            exact (mem_erase_of_ne hne).2 ht.1
          · change u ∈ s₁.threads.erase t at hu
            rw [hthreads, erase_comm] at hu
            exact mem_of_mem_erase hu
      obtain ⟨hpos, _⟩ := h.sound.late hf.mem (by decide)
      cases hstage with
      | waiting ht => exact .waiting (honly (by rintro ⟨⟩) ht)
      | popping ht => exact .popping (honly (by rintro ⟨⟩) ht)
      | writing ht hnone hlate =>
        refine .writing (honly (fun heq => ?_) ht) (hpending.trans hnone) (hcarrier ▸ hlate)
        cases heq
        exact (reports_ne hreports).2.1 rfl
      | settled ht hold hnone hlate htickets =>
        have hk : m.kind = .meshtastic := by
          by_contra hk
          rw [htickets hk] at hpos
          cases hpos
        refine .settled (fun u hu => ht u (hf.sub hu)) ?_ (hpending.trans hnone) (hcarrier ▸ hlate)
          (fun hk' => absurd hk hk')
        have hterminal : st.IsTerminal := by
          rw [hk] at hreports
          simp [Kind.reports] at hreports
          rcases hreports with rfl | rfl <;> decide
        rw [update, hrow, hold, Option.map_some, overwrite, if_pos ⟨by decide, hterminal⟩]
  · -- the report itself
    obtain ⟨hreported, honly, hwriting⟩ := h.only (.inr (.inr rfl)) hst hf.mem
    obtain ⟨hnone, hlate⟩ := hwriting rfl
    have hthreads := honly.finish hs₁
    refine h.passed hsound hreported haccepted hcarrier hsome hreported'
      (.settled hthreads ?_ (hpending.trans hnone) (hcarrier.symm ▸ hlate) fun hk => ?_)
    · obtain ⟨_, hacc, _⟩ := h.reported st hreported
      have hreg : s.carrier.registered = true := by
        cases hc : s.carrier <;> rw [hc] at hlate <;> first | rfl | cases hlate
      obtain ⟨old, hold⟩ := Option.isSome_iff_exists.1 (h.stored hacc hreg)
      rw [update, hrow, hold, Option.map_some, (reports_ne (h.reported st hreported).1).2.2]
    · have hone := h.sound.tickets hk
      have hticket : (Thread.writing st).isTicket = true :=
        decide_eq_true (reports_ne (h.reported st hreported).1).1
      have htickets := hf.tickets
      rw [hticket] at htickets
      change s₁.tickets = 0
      simp only [Bool.toNat_true] at htickets
      omega

/-! ## The holder -/

/-- The id is in the holder of the Meshtastic adapter. -/
def Carrier.holds (kind : Kind) : Carrier → Bool
  | .tracking _ _ => kind = .meshtastic
  | .releasing _ _ => true
  | _ => false

variable (m) in
/-- The holder is filled before anyone is woken. -/
def Bound (s : Life) : Prop := s.bound = true ∨ Carrier.holds m.kind s.carrier = true →
  s.holderId = true

theorem Bound.carry (h : s.Bound m) (hbound : s'.bound = s.bound)
    (hholder : s'.holderId = s.holderId)
    (hcarrier : Carrier.holds m.kind s'.carrier = true → Carrier.holds m.kind s.carrier = true) :
    s'.Bound m := by
  rw [Bound, hbound, hholder]
  exact fun hor => h (hor.imp_right hcarrier)

/-- A carrier that holds nothing. -/
theorem Bound.idle (h : s.Bound m) (hbound : s'.bound = s.bound) (hholder : s'.holderId = s.holderId)
    (hcarrier : Carrier.holds m.kind s'.carrier = false) : s'.Bound m :=
  h.carry hbound hholder fun hholds => absurd (hcarrier.symm.trans hholds) Bool.false_ne_true

theorem holds_afterTracking (r : Accepted) (direct : Bool) :
    Carrier.holds m.kind (afterTracking m r direct) = false := by
  rw [afterTracking]
  split_ifs <;> rfl

theorem holds_register (r : Accepted) (direct : Bool) :
    Carrier.holds m.kind (register m r direct) = false := by
  rw [register]
  split
  · rfl
  · exact holds_afterTracking r direct
  · rename_i hk _
    exact decide_eq_false hk

theorem Bound.go (h : s.Bound m) (hgo : s.go m = some s') : s'.Bound m := by
  have hnot : ∀ {c : Carrier} {p : Prop}, Carrier.holds m.kind c = false →
      Carrier.holds m.kind c = true → p := fun hfalse htrue => by
    rw [hfalse] at htrue
    cases htrue
  unfold Life.go at hgo
  split at hgo <;> cases hgo
  next hc => exact h.idle rfl rfl rfl
  next r hc => exact h.idle rfl rfl (holds_register r true)
  next hc => exact h.idle rfl rfl rfl
  next hc => exact h.idle rfl rfl rfl
  next r hc => exact h.idle rfl rfl (holds_register r false)
  next outcome _ hc => exact h.idle rfl rfl rfl
  next r direct hc => exact fun _ => rfl
  next r direct hc =>
    refine h.carry rfl rfl fun hholds => ?_
    rw [hc]
    by_cases hk : m.kind = .meshtastic
    · exact decide_eq_true hk
    · rw [if_neg hk] at hholds
      exact hnot (holds_afterTracking r direct) hholds
  next r direct hc => exact fun _ => h (.inr (by rw [hc]; rfl))
  next hc => exact h.idle rfl rfl rfl

theorem Bound.next (h : s.Bound m) {e : Event} (hnext : s.next m e = some s') : s'.Bound m := by
  have hfinish : ∀ {t : Thread} {s₁ : Life}, s.finish t = some s₁ → s₁.Bound m := fun hs₁ => by
    rw [(finished hs₁).eq]
    exact h
  cases e with
  | go => exact h.go hnext
  | report st =>
    simp only [Life.next, Life.report] at hnext
    split at hnext
    · cases hnext
    · split_ifs at hnext <;> cases hnext <;> exact h
  | wake st =>
    simp only [Life.next] at hnext
    split_ifs at hnext
    obtain ⟨s₁, hs₁, rfl⟩ := Option.map_eq_some_iff.1 hnext
    have hbound := hfinish hs₁
    split_ifs <;> exact hbound
  | giveUp st => exact hfinish hnext
  | pop st =>
    obtain ⟨s₁, hs₁, rfl⟩ := Option.map_eq_some_iff.1 hnext
    have hbound := hfinish hs₁
    split_ifs <;> exact hbound
  | write st =>
    obtain ⟨s₁, hs₁, rfl⟩ := Option.map_eq_some_iff.1 hnext
    have hbound := hfinish hs₁
    exact hbound
  | receipt | sweep => simp only [Life.next] at hnext; split_ifs at hnext; cases hnext; exact h
  | available answer | answer a =>
    simp only [Life.next] at hnext
    split at hnext <;> cases hnext <;> exact h.idle rfl rfl rfl
  | raise =>
    simp only [Life.next] at hnext
    split at hnext <;> cases hnext
    exact h.idle rfl rfl rfl
  | _ =>
    simp only [Life.next] at hnext
    split_ifs at hnext
    cases hnext
    exact h.idle rfl rfl rfl

/-! ## One step -/

theorem Heard.next (h : s.Heard m) (hbound : s.Bound m) {e : Event} (hregular : s.Regular m e)
    (hfinds : s.Finds m e) (hnext : s.next m e = some s') : s'.Heard m := by
  have hsound : s'.Sound m := h.sound.next (fun heq => by
    subst heq
    obtain ⟨s₁, hs₁, _⟩ := Option.map_eq_some_iff.1 hnext
    exact absurd (finished hs₁).mem h.not_reading) hnext
  -- before the adapter has accepted the message, its carrier moves as it likes
  have hbefore : ∀ {c d : Carrier}, s.carrier = d → (∀ r, ¬d.Carries r) →
      Sound m { s with carrier := c } → Heard m { s with carrier := c } := fun hd hnot hsound => by
    have hnone := h.accepted_none fun r => hd ▸ hnot r
    refine h.before hnone hsound fun r hr => ?_
    rw [hnone] at hr
    cases hr
  cases e with
  | available answer =>
    simp only [Life.next] at hnext
    split at hnext <;> cases hnext
    all_goals next hc => exact hbefore hc (fun _ => Bool.false_ne_true) hsound
  | answer a =>
    have haccepts : ∀ {c d : Carrier} {r : Accepted}, s.carrier = d → (∀ r, ¬d.Carries r) →
        m.kind.tracks r = true → c.Carries r → c.registered = false →
        Sound m { s with carrier := c, accepted := some r } →
        Heard m { s with carrier := c, accepted := some r } :=
      fun hd hnot htracks hcarries hreg hsound => by
        refine h.before (h.accepted_none fun r => hd ▸ hnot r) hsound fun r hr => ?_
        cases hr
        exact ⟨htracks, hcarries, hreg⟩
    simp only [Life.next] at hnext
    split at hnext <;> cases hnext
    next r hc => exact haccepts hc (fun _ => Bool.false_ne_true) hregular rfl rfl hsound
    next hc => exact hbefore hc (fun _ => Bool.false_ne_true) hsound
    next hc => exact hbefore hc (fun _ => Bool.false_ne_true) hsound
    next hc => exact hbefore hc (fun _ => Bool.false_ne_true) hsound
    next r hc => exact haccepts hc (fun _ => Bool.false_ne_true) hregular rfl rfl hsound
    next hc => exact hbefore hc (fun _ => Bool.false_ne_true) hsound
    next hc => exact hbefore hc (fun _ => Bool.false_ne_true) hsound
    next hc => exact hbefore hc (fun _ => Bool.false_ne_true) hsound
  | raise | giveUp st | receipt => exact absurd hregular id
  | go => exact h.go hsound hregular hnext
  | take | requeue | vanish | evict =>
    simp only [Life.next] at hnext
    split_ifs at hnext with hc
    cases hnext
    exact hbefore hc (fun _ => Bool.false_ne_true) hsound
  | expire =>
    simp only [Life.next] at hnext
    split_ifs at hnext with hc
    cases hnext
    rcases hc with hc | hc <;> exact hbefore hc (fun _ => Bool.false_ne_true) hsound
  | report st => exact h.report hsound hregular hnext
  | wake st =>
    simp only [Life.next] at hnext
    split_ifs at hnext with hset
    obtain ⟨s₁, hs₁, hs'⟩ := Option.map_eq_some_iff.1 hnext
    exact h.wake hsound hs₁ (hbound (.inl hset)) hs'.symm
  | pop st => exact h.pop hsound hfinds hnext
  | write st =>
    obtain ⟨s₁, hs₁, rfl⟩ := Option.map_eq_some_iff.1 hnext
    exact h.write hs₁ hsound
  | sweep =>
    simp only [Life.next] at hnext
    split_ifs at hnext with hpending
    cases hnext
    exact h.sweep hpending hsound

end Life

/-! ## Runs -/

/-- The run is regular, and the callback finds the entry. -/
def Life.Heeded (m : Outgoing) (s : Life) (e : Event) : Prop := s.Regular m e ∧ s.Finds m e
deriving Decidable

theorem heard_start (h : (life m).init s) : s.Heard m ∧ s.Bound m := by
  have hsound := sound_start h
  rcases h with rfl | rfl
  all_goals exact ⟨⟨hsound, nofun, nofun, fun _ => nofun, nofun⟩, nofun⟩

theorem heard_of_reach (h : (life m).Reach (Life.Heeded m) s) : s.Heard m ∧ s.Bound m :=
  h.induction (I := fun s => s.Heard m ∧ s.Bound m) (fun _ hs => heard_start hs)
    fun _ _ _ h he hnext => ⟨h.1.next h.2 he.1 he.2 hnext, h.2.next hnext⟩

/-- Everything has come to its end: nothing happens any more. -/
theorem stuck {e : Event} (he : s.Regular m e) (hreported : s.reported = some st)
    (hdone : s.carrier = .done) (hthreads : s.threads = []) (hpending : s.pending = false) :
    s.next m e = none := by
  have hfinish : ∀ t, s.finish t = none := fun t => if_neg (by rw [hthreads]; exact not_mem_nil)
  cases e with
  | available answer | answer a => simp only [Life.next, hdone]
  | raise | receipt => exact absurd he id
  | go => simp only [Life.next, Life.go, hdone]
  | report st' => exact absurd (hreported.symm.trans he) (Option.some_ne_none _)
  | wake st' | write st' => simp [Life.next, hfinish]
  | giveUp st' => exact hfinish _
  | pop st' => simp [Life.next, Life.pop, hfinish]
  | sweep => simp [Life.next, hpending]
  | _ => simp [Life.next, hdone]

/-- Once the sender and the callback have finished, the stored status is the one reported, there is
    no entry left, and it stays so. -/
theorem report_stored (m : Outgoing) (s s' : Life) (st : Status)
    (hs : (life m).Reach (Life.Heeded m) s) (hreported : s.reported = some st)
    (hdone : s.carrier = .done) (hthreads : s.threads = [])
    (hleads : (life m).Leads (Life.Heeded m) s s') : s'.row = some st ∧ s'.pending = false := by
  have hstage := ((heard_of_reach hs).1.reported st hreported).2.2
  have hnone : ∀ {t : Thread}, ¬s.Only t := fun ht => by
    rw [Life.Only, hthreads] at ht
    cases ht.1
  cases hstage with
  | waiting ht | popping ht | writing ht => exact absurd ht hnone
  | settled _ hrow hpending =>
    have heq : s' = s := hleads.invariant (I := fun t => t = s) (fun t e t' ht he hnext => by
      subst ht
      exact absurd ((stuck he.1 hreported hdone hthreads hpending).symm.trans hnext)
        (Option.some_ne_none _).symm) rfl
    rw [heq]
    exact ⟨hrow, hpending⟩

/-! ## A report that comes early -/

/-- A message over the Reticulum network. -/
def lxmfMessage : Outgoing where
  kind := .lxmf

def lxmfSend : List Event := [.available (some true), .answer (.accepts { lxmHash := some "c3" }), .go]

/-- It is delivered before its entry is made, or after. -/
def lxmfEarly : List Event := lxmfSend ++ [.report .delivered, .pop .delivered, .go]

def lxmfLate : List Event :=
  lxmfSend ++ [.go, .report .delivered, .pop .delivered, .write .delivered]

/-- The report that comes before the entry is made is lost. -/
theorem report_lost :
    ¬∀ (m : Outgoing) (s : Life) (st : Status), (life m).Reach (Life.Regular m) s →
      s.reported = some st → s.carrier = .done → s.threads = [] →
        s.row = some st ∧ s.pending = false := by
  intro h
  obtain ⟨s, hs, hreported, hdone, hthreads, hrow⟩ : ∃ s ∈ lxmfEarly.foldlM (fun s e =>
        if Life.Regular lxmfMessage s e then Life.next lxmfMessage s e else none) {},
        s.reported = some .delivered ∧ s.carrier = .done ∧ s.threads = [] ∧ s.row = some .sent := by
    decide
  obtain ⟨hstored, _⟩ := h lxmfMessage s .delivered (.foldlM (.init (.inl rfl)) hs)
    hreported hdone hthreads
  cases hrow.symm.trans hstored

/-- A message that is delivered once its entry has been made. -/
theorem report_stored_delivered :
    ∃ s, (life lxmfMessage).Reach (Life.Heeded lxmfMessage) s ∧ s.reported = some .delivered ∧
      s.row = some .delivered ∧ s.pending = false := by
  obtain ⟨s, hs, hreported, hdone, hthreads⟩ : ∃ s ∈ lxmfLate.foldlM (fun s e =>
        if Life.Heeded lxmfMessage s e then Life.next lxmfMessage s e else none) {},
        s.reported = some .delivered ∧ s.carrier = .done ∧ s.threads = [] := by
    decide
  have hreach : (life lxmfMessage).Reach (Life.Heeded lxmfMessage) s :=
    Transition.Reach.foldlM (.init (.inl rfl)) hs
  exact ⟨s, hreach, hreported,
    report_stored lxmfMessage s s .delivered hreach hreported hdone hthreads .refl⟩

end ReticulumPi.Messaging.Delivery
