import ReticulumPi.Lib.Window
import ReticulumPi.Signal.Retries

/-!
# A failed decoder comes back

* At most `retryLimit` retries are recorded in any 600 seconds between two starts.
* Only the worker of the latest retry makes the slot eligible, and not after a stop.
* When all is quiet and the last call of `_schedule_sdr_retry` has returned true,
  the slot is not suspended.

These hold in the runs that *keep the retry* (`KeepsRetry`), `decoder_comes_back`.
They fail when the decoder dies while it is still being acquired: the hook marks
the retry as pending, and then `_on_acquire` clears the mark, so that the worker
gives up and the slot stays suspended, `decoder_comes_back_fails`.

What carries the last statement is that somebody owes the slot an outcome for as
long as it is suspended (`Owed`): a call that has yet to record the retry, the
worker of the current epoch, or a call that has returned, or will return, false.
-/

namespace ReticulumPi.Signal

open Window

/-! ## The statements -/

/-- The plugin is registered with the scheduler. -/
def Phase.registered : Phase → Bool
  | .running | .stopping | .invalidated => true
  | .idle | .activated | .reset => false

/-- Stages of a call that will return true. -/
def Call.Promises : Call → Prop
  | .starting _ | .returning true => True
  | _ => False

/-- Stages of a call between the release of the dongle and the retry lock. -/
def Call.Owes : Call → Prop
  | .forgetting _ | .refused | .clocking _ | .recording _ _ => True
  | _ => False

instance : DecidablePred Call.Promises
  | .starting _ | .returning true => inferInstanceAs (Decidable True)
  | .returning false | .releasing _ | .forgetting _ | .refused | .clocking _ | .recording _ _ =>
    inferInstanceAs (Decidable False)

/-- `_on_acquire` is running. -/
def Acquisition.InCallback (a : Acquisition) : Prop :=
  a.stage ∈ [AcquireStage.called, .active, .launching, .launched, .raised, .retrying]
deriving Decidable

namespace System

variable (maxRestarts : ℤ) (s : System)

/-- The slot is suspended. -/
def Suspended : Prop := s.slot.any (·.suspended) = true
deriving Decidable

/-- The plugin is active, no callback or hook is running, and no worker is waiting. -/
def Quiet : Prop :=
  s.phase.active = true ∧ (∀ a ∈ s.acquisition, ¬a.InCallback) ∧ s.calls.entries = [] ∧
    ∀ e ∈ s.retries.entries, e.2.stage = .unstarted
deriving Decidable

/-- No call has recorded a retry and not yet returned. -/
def NonePromised : Prop := ∀ e ∈ s.calls.entries, ¬e.2.Promises
deriving Decidable

/-- What a step of a call, which stands at `call`, must not meet: when it gives up,
    a retry that another call has just recorded; when it records a retry, a slot that
    has been registered anew, or a worker about to resume it. The calls come to the
    retry lock in the order in which they have read the clock. -/
def KeepsCall : Call → Prop
  | .refused => s.NonePromised
  | .recording registrationId now =>
    s.seen ≤ now ∧ (s.Exhausted maxRestarts now → s.NonePromised) ∧
      (¬s.Exhausted maxRestarts now → s.slot.any (·.registrationId = registrationId) = true ∧
        ∀ e ∈ s.retries.entries, e.2.stage ≠ .resuming)
  | _ => True

instance : DecidablePred (s.KeepsCall maxRestarts)
  | .refused => inferInstanceAs (Decidable s.NonePromised)
  | .recording _ _ => inferInstanceAs (Decidable (_ ∧ (_ → _) ∧ (_ → _)))
  | .releasing _ | .forgetting _ | .clocking _ | .starting _ | .returning _ =>
    inferInstanceAs (Decidable True)

/-- A step that keeps the retry. Neither does `stop` begin while a worker is past its
    delay, nor does `_on_acquire` clear the mark of a retry whose slot is suspended. -/
def KeepsRetry : Event → Prop
  | .lifecycle => s.phase = .running →
    ∀ e ∈ s.retries.entries, e.2.stage ≠ .woken ∧ e.2.stage ≠ .resuming
  | .acquire _ => s.acquisition.any (·.stage = .launched) = true → s.pending = true →
    ¬s.Suspended
  | .schedule c => ∀ call ∈ s.calls.get? c, s.KeepsCall maxRestarts call
  | _ => True

instance : DecidablePred (s.KeepsRetry maxRestarts)
  | .lifecycle => inferInstanceAs (Decidable (_ → _))
  | .acquire _ => inferInstanceAs (Decidable (_ → _ → _))
  | .schedule _ => inferInstanceAs (Decidable (∀ _ ∈ _, _))
  | .tick _ | .advance | .grant | .spawn | .preempt | .yield | .fail _ | .worker _ =>
    inferInstanceAs (Decidable True)

end System

/-! ## What a suspended slot is owed -/

namespace System

variable {maxRestarts : ℤ} {s s' : System} {c : Caller} {call call' : Call} {id : ℕ}

/-- The registration of the slot, and whether it is suspended. -/
def standing (s : System) : Option (ℕ × Bool) :=
  s.slot.map fun slot => (slot.registrationId, slot.suspended)

theorem suspended_iff : s.Suspended ↔ ∃ id, s.standing = some (id, true) := by
  rw [Suspended, standing]
  cases s.slot with
  | none => simp
  | some slot => simp

/-- Why the suspended slot of the registration `id` is not forgotten: a call is on
    its way to the retry lock, the worker of the current epoch will resume it, or
    the retries are over. -/
inductive Owed (s : System) (id : ℕ) : Prop where
  | call (c : Caller) (call : Call) (hc : s.calls.get? c = some call) (owes : call.Owes)
  | worker (retry : Retry) (hr : s.retries.get? s.epoch = some retry) (pending : s.pending = true)
      (registration : retry.registrationId = id) (stage : retry.stage ≠ .notResumed)
  | exhausted (none : ∀ c call, s.calls.get? c = some call → ¬call.Promises)
      (last : (∃ c, s.calls.get? c = some (.returning false)) ∨ s.last ≠ some true)

/-- The retries are booked as they should. -/
structure Booked (maxRestarts : ℤ) (s : System) : Prop where
  bounded : Bounded sdrRestartWindowSeconds (retryLimit maxRestarts) s.scheduled
  kept : (live sdrRestartWindowSeconds s.seen s.scheduled).Subperm s.times
  epochs : ∀ e retry, s.retries.get? e = some retry → e ≤ s.epoch
  stamp : s.phase ≠ .stopping → ∀ retry, s.retries.get? s.epoch = some retry →
    retry.stamp = s.stamps
  resuming : ∀ e retry, s.retries.get? e = some retry → retry.stage = .resuming →
    retry.stamp = s.stamps
  stopping : s.phase = .stopping → ∀ e retry, s.retries.get? e = some retry →
    retry.stage ≠ .woken
  unstarted : ∀ e retry, s.retries.get? e = some retry → retry.stage = .unstarted →
    ∃ c, s.calls.get? c = some (.starting e)
  unregistered : s.phase.registered = false → s.slot = none

/-- The invariant. -/
structure Sound (maxRestarts : ℤ) (s : System) : Prop extends Booked maxRestarts s where
  owed : s.phase = .running → ∀ id, s.standing = some (id, true) → s.Owed id

theorem sound_init {t : ℚ} : Sound maxRestarts { clock := t, seen := t } where
  bounded := bounded_nil
  kept := List.Subperm.refl _
  epochs _ _ h := by cases h
  stamp _ _ h := by cases h
  resuming _ _ h := by cases h
  stopping h := by cases h
  unstarted _ _ h := by cases h
  unregistered _ := rfl
  owed h := by cases h

/-! ## Steps that leave the retries alone -/

/-- What the steps of the scheduler and of `_on_acquire` change. A new call may begin,
    and the mark may be cleared while the slot is not suspended. -/
structure Aside (s s' : System) : Prop where
  scheduled : s'.scheduled = s.scheduled
  seen : s'.seen = s.seen
  times : s'.times = s.times
  phase : s'.phase = s.phase
  epoch : s'.epoch = s.epoch
  stamps : s'.stamps = s.stamps
  retries : s'.retries = s.retries
  last : s'.last = s.last
  standing : s'.standing = s.standing
  calls : s'.calls = s.calls ∨
    ∃ c g, s.calls.get? c = none ∧ s'.calls = s.calls.set c (.releasing g)
  pending : s'.pending = s.pending ∨ ∀ id, s.standing ≠ some (id, true)

theorem standing_eq_none_iff : s.standing = none ↔ s.slot = none := Option.map_eq_none_iff

theorem Aside.get?_calls (h : s.Aside s') (hc : s.calls.get? c = some call) :
    s'.calls.get? c = some call := by
  obtain heq | ⟨c', g, hnone, heq⟩ := h.calls
  · rw [heq, hc]
  · have hne : c ≠ c' := by
      rintro rfl
      rw [hnone] at hc
      cases hc
    rw [heq, Dict.get?_set_of_ne hne, hc]

theorem Aside.calls_get? (h : s.Aside s') (hc : s'.calls.get? c = some call) :
    s.calls.get? c = some call ∨ ∃ g, call = .releasing g := by
  obtain heq | ⟨c', g, -, heq⟩ := h.calls
  · exact .inl (heq ▸ hc)
  · rw [heq, Dict.get?_set] at hc
    split_ifs at hc
    · cases hc
      exact .inr ⟨g, rfl⟩
    · exact .inl hc

theorem Aside.owed (h : s.Aside s') (hid : s.standing = some (id, true)) (ho : s.Owed id) :
    s'.Owed id := by
  cases ho with
  | call c call hc owes => exact .call c call (h.get?_calls hc) owes
  | worker retry hr pending registration stage =>
    refine .worker retry (by rw [h.retries, h.epoch, hr]) ?_ registration stage
    obtain heq | hno := h.pending
    · rw [heq, pending]
    · exact absurd hid (hno id)
  | exhausted none last =>
    refine .exhausted (fun c call hc => ?_) ?_
    · obtain hc | ⟨g, rfl⟩ := h.calls_get? hc
      · exact none c call hc
      · rintro ⟨⟩
    · rw [h.last]
      exact last.imp_left fun ⟨c, hc⟩ => ⟨c, h.get?_calls hc⟩

theorem Sound.aside (hs : s.Sound maxRestarts) (h : s.Aside s') : s'.Sound maxRestarts where
  bounded := h.scheduled ▸ hs.bounded
  kept := by rw [h.scheduled, h.seen, h.times]; exact hs.kept
  epochs e retry hr := by rw [h.epoch]; exact hs.epochs e retry (h.retries ▸ hr)
  stamp hp retry hr := by
    rw [h.retries, h.epoch] at hr
    rw [h.stamps]
    exact hs.stamp (h.phase ▸ hp) retry hr
  resuming e retry hr hst := by rw [h.stamps]; exact hs.resuming e retry (h.retries ▸ hr) hst
  stopping hp e retry hr := hs.stopping (h.phase ▸ hp) e retry (h.retries ▸ hr)
  unstarted e retry hr hst := by
    obtain ⟨c, hc⟩ := hs.unstarted e retry (h.retries ▸ hr) hst
    exact ⟨c, h.get?_calls hc⟩
  unregistered hp := by
    rw [← standing_eq_none_iff, h.standing, standing_eq_none_iff]
    exact hs.unregistered (h.phase ▸ hp)
  owed hp id hid :=
    h.owed (h.standing ▸ hid) (hs.owed (h.phase ▸ hp) id (h.standing ▸ hid))

theorem slot_of_slotOf {a : Acquisition} {slot : Slot} (h : s.slotOf a = some slot) :
    s.slot = some slot :=
  (Option.filter_eq_some_iff.1 h).1

theorem standing_of_slot {slot slot' : Slot} (h : s.slot = some slot)
    (h' : s'.slot = some slot') (hid : slot'.registrationId = slot.registrationId)
    (hsus : slot'.suspended = slot.suspended) : s'.standing = s.standing := by
  rw [standing, standing, h, h', Option.map_some, Option.map_some, hid, hsus]

theorem aside_deallocate (a : Acquisition) : s.Aside (s.deallocate a) := by
  rw [deallocate]
  split
  · exact ⟨rfl, rfl, rfl, rfl, rfl, rfl, rfl, rfl, rfl, .inl rfl, .inl rfl⟩
  next slot hslot =>
    exact ⟨rfl, rfl, rfl, rfl, rfl, rfl, rfl, rfl,
      standing_of_slot (slot_of_slotOf hslot) rfl rfl rfl, .inl rfl, .inl rfl⟩

theorem aside_grant (h : s.grant = some s') : s.Aside s' := by
  rw [grant] at h
  split at h
  next slot hslot _ =>
    split_ifs at h
    cases h
    exact ⟨rfl, rfl, rfl, rfl, rfl, rfl, rfl, rfl, standing_of_slot hslot rfl rfl rfl, .inl rfl,
      .inl rfl⟩
  · cases h

theorem aside_preempt (h : s.preempt = some s') : s.Aside s' := by
  rw [preempt] at h
  split at h
  next slot hslot =>
    split_ifs at h
    cases h
    exact ⟨rfl, rfl, rfl, rfl, rfl, rfl, rfl, rfl, standing_of_slot hslot rfl rfl rfl, .inl rfl,
      .inl rfl⟩
  · cases h

theorem aside_acquire {a : Acquisition} {ok : Bool} (ha : s.acquisition = some a)
    (hk : s.KeepsRetry maxRestarts (.acquire ok)) (h : s.acquire a ok = some s') :
    s.Aside s' := by
  have hdeallocate := aside_deallocate (s := s) a
  rw [acquire.eq_def] at h
  split at h
  · split_ifs at h
    · cases h
      exact ⟨rfl, rfl, rfl, rfl, rfl, rfl, rfl, rfl, rfl, .inl rfl, .inl rfl⟩
    · cases h
      exact { hdeallocate with }
  · cases h
    exact ⟨rfl, rfl, rfl, rfl, rfl, rfl, rfl, rfl, rfl, .inl rfl, .inl rfl⟩
  · cases h
    exact ⟨rfl, rfl, rfl, rfl, rfl, rfl, rfl, rfl, rfl, .inl rfl, .inl rfl⟩
  · cases h
    exact ⟨rfl, rfl, rfl, rfl, rfl, rfl, rfl, rfl, rfl, .inl rfl, .inl rfl⟩
  next hstage =>
    -- The mark is cleared: there is none, or the slot is not suspended.
    cases h
    refine ⟨rfl, rfl, rfl, rfl, rfl, rfl, rfl, rfl, rfl, .inl rfl, ?_⟩
    cases hp : s.pending with
    | false => exact .inl rfl
    | true =>
      have hnot := hk (by rw [ha]; simp [hstage]) hp
      rw [suspended_iff] at hnot
      exact .inr (not_exists.1 hnot)
  · split_ifs at h with _ hc
    · cases h
      exact ⟨rfl, rfl, rfl, rfl, rfl, rfl, rfl, rfl, rfl, .inr ⟨.acquire, _, hc, rfl⟩, .inl rfl⟩
    · cases h
      exact ⟨rfl, rfl, rfl, rfl, rfl, rfl, rfl, rfl, rfl, .inl rfl, .inl rfl⟩
  · split_ifs at h
    cases h
    exact ⟨rfl, rfl, rfl, rfl, rfl, rfl, rfl, rfl, rfl, .inl rfl, .inl rfl⟩
  · cases h
    exact { hdeallocate with }
  · split at h
    next slot hslot =>
      split_ifs at h
      · cases h
        exact ⟨rfl, rfl, rfl, rfl, rfl, rfl, rfl, rfl,
          standing_of_slot (slot_of_slotOf hslot) rfl rfl rfl, .inl rfl, .inl rfl⟩
      · cases h
        exact { hdeallocate with }
    · cases h
      exact ⟨rfl, rfl, rfl, rfl, rfl, rfl, rfl, rfl, rfl, .inl rfl, .inl rfl⟩

/-! ## Starting and stopping -/

theorem Sound.lifecycle (hs : s.Sound maxRestarts) (hk : s.KeepsRetry maxRestarts .lifecycle) :
    s.lifecycle.Sound maxRestarts := by
  rw [System.lifecycle]
  split
  next hp =>
    exact { hs with
      stamp := fun _ => hs.stamp (by rw [hp]; decide)
      stopping := fun h => by cases h
      unregistered := fun _ => hs.unregistered (by rw [hp]; rfl)
      owed := fun h => by cases h }
  next hp =>
    exact { hs with
      bounded := bounded_nil
      kept := List.nil_subperm
      epochs := fun e retry hr => (hs.epochs e retry hr).trans (Nat.le_succ _)
      stamp := fun _ retry hr => absurd (hs.epochs _ retry hr) (Nat.not_succ_le_self _)
      stopping := fun h => by cases h
      unregistered := fun _ => hs.unregistered (by rw [hp]; rfl)
      owed := fun h => by cases h }
  next hp =>
    exact { hs with
      stamp := fun _ => hs.stamp (by rw [hp]; decide)
      stopping := fun h => by cases h
      unregistered := fun h => by cases h
      owed := fun _ id hid => by cases hid }
  next hp =>
    have hk : ∀ e retry, s.retries.get? e = some retry →
        retry.stage ≠ .woken ∧ retry.stage ≠ .resuming := fun e retry hr =>
      hk hp (e, retry) (Dict.get?_eq_some_iff.1 hr)
    exact { hs with
      stamp := fun h => absurd rfl h
      resuming := fun e retry hr hst => absurd hst (hk e retry hr).2
      stopping := fun _ e retry hr => (hk e retry hr).1
      unregistered := fun h => by cases h
      owed := fun h => by cases h }
  next hp =>
    exact { hs with
      epochs := fun e retry hr => (hs.epochs e retry hr).trans (Nat.le_succ _)
      stamp := fun _ retry hr => absurd (hs.epochs _ retry hr) (Nat.not_succ_le_self _)
      stopping := fun h => by cases h
      unregistered := fun h => by cases h
      owed := fun h => by cases h }
  next hp =>
    exact { hs with
      stamp := fun _ => hs.stamp (by rw [hp]; decide)
      stopping := fun h => by cases h
      unregistered := fun _ => rfl
      owed := fun h => by cases h }

/-! ## Steps of a call -/

/-- The call has no worker left to start. -/
def HasStarted (s : System) (call : Call) : Prop :=
  ∀ e retry, call = .starting e → s.retries.get? e = some retry → retry.stage ≠ .unstarted

theorem Booked.setCall (hs : s.Booked maxRestarts) (hc : s.calls.get? c = some call)
    (hstart : s.HasStarted call) : (s.setCall c call').Booked maxRestarts :=
  { hs with
    unstarted := fun e retry hr hst => by
      obtain ⟨c', hc'⟩ := hs.unstarted e retry hr hst
      have hne : c' ≠ c := by
        rintro rfl
        exact hstart e retry (Option.some.inj (hc.symm.trans hc')) hr hst
      exact ⟨c', (Dict.get?_set_of_ne hne).trans hc'⟩ }

theorem Booked.suspend (hs : s.Booked maxRestarts) (g : Option ℕ) :
    (s.suspend g).1.Booked maxRestarts := by
  rw [System.suspend]
  split
  · exact hs
  next slot hslot =>
    split_ifs
    · exact hs
    · exact { hs with unregistered := fun hp => by cases (hs.unregistered hp).symm.trans hslot }

theorem calls_suspend (g : Option ℕ) : (s.suspend g).1.calls = s.calls := by
  rw [System.suspend]
  split
  · rfl
  · split_ifs
    · rfl
    · rfl

variable (hs : s.Booked maxRestarts)
include hs

/-- A call on its way to the retry lock answers for the slot. -/
theorem Sound.setCall (hc : s.calls.get? c = some call)
    (hstart : s.HasStarted call) (hcall : call'.Owes) :
    (s.setCall c call').Sound maxRestarts :=
  { hs.setCall hc hstart with owed := fun _ _ _ => .call c call' Dict.get?_set_self hcall }

/-- Those times that are no longer counted are not live. -/
theorem Booked.kept_recent {now : ℚ} (h : s.seen ≤ now) :
    (live sdrRestartWindowSeconds now s.scheduled).Subperm (s.recent now) := by
  refine live_subperm_dropWhile ((live_sublist h).subperm.trans hs.kept) fun t ht hold => ?_
  have hlive := (mem_live.1 ht).2
  have hold : t < now - sdrRestartWindowSeconds := by simpa using hold
  exact lt_asymm hlive (lt_sub_iff_add_lt.1 hold)

theorem Booked.trim {now : ℚ} (h : s.seen ≤ now) :
    { s with times := s.recent now, seen := max s.seen now }.Booked maxRestarts :=
  { hs with kept := by rw [max_eq_right h]; exact hs.kept_recent h }

/-- A call gives up where no other has promised to return true. -/
theorem Sound.giveUp (hc : s.calls.get? c = some call)
    (hstart : s.HasStarted call) (hnone : s.NonePromised) :
    (s.giveUp c).Sound maxRestarts := by
  have hbooked : { s with epoch := s.epoch + 1, pending := false }.Booked maxRestarts :=
    { hs with
      epochs := fun e retry hr => (hs.epochs e retry hr).trans (Nat.le_succ _)
      stamp := fun _ retry hr => absurd (hs.epochs _ retry hr) (Nat.not_succ_le_self _) }
  refine ⟨hbooked.setCall hc hstart, fun _ _ _ =>
    .exhausted (fun c' call' hc' => ?_) (.inl ⟨c, Dict.get?_set_self⟩)⟩
  rw [System.giveUp, System.setCall, Dict.get?_set] at hc'
  split_ifs at hc'
  · cases hc'
    rintro ⟨⟩
  · exact hnone _ (Dict.get?_eq_some_iff.1 hc')

/-- The retry that is recorded will have its worker. -/
theorem Sound.record {now : ℚ}
    (hc : s.calls.get? c = some (.recording id now)) (hnow : s.seen ≤ now)
    (hbudget : ¬s.Exhausted maxRestarts now)
    (hslot : s.slot.any (·.registrationId = id) = true)
    (hresuming : ∀ e ∈ s.retries.entries, e.2.stage ≠ .resuming) :
    (s.record c id now).Sound maxRestarts := by
  have hkept := hs.kept_recent hnow
  have hget : ∀ e retry, (s.record c id now).retries.get? e = some retry →
      (e = s.epoch + 1 ∧ retry.stamp = s.stamps + 1 ∧ retry.stage = .unstarted) ∨
        (e ≤ s.epoch ∧ s.retries.get? e = some retry) := fun e retry hr => by
    rw [System.record, System.setCall, Dict.get?_set] at hr
    split_ifs at hr with he
    · cases hr
      exact .inl ⟨he, rfl, rfl⟩
    · exact .inr ⟨hs.epochs e retry hr, hr⟩
  refine ⟨⟨?_, ?_, ?_, ?_, ?_, ?_, ?_, hs.unregistered⟩, ?_⟩
  · exact hs.bounded.cons (hkept.length_le.trans_lt (not_le.1 hbudget))
  · have hmax : (s.record c id now).seen = now := max_eq_right hnow
    rw [hmax]
    exact live_cons_subperm.trans
      (((List.subperm_cons now).2 hkept).trans (List.perm_append_singleton now _).symm.subperm)
  · intro e retry hr
    obtain ⟨rfl, -⟩ | ⟨he, -⟩ := hget e retry hr
    · exact le_rfl
    · exact he.trans (Nat.le_succ _)
  · intro _ retry hr
    obtain ⟨-, hstamp, -⟩ | ⟨he, -⟩ := hget _ retry hr
    · exact hstamp
    · exact absurd he (Nat.not_succ_le_self _)
  · intro e retry hr hst
    obtain ⟨-, hstamp, -⟩ | ⟨-, hr⟩ := hget e retry hr
    · exact hstamp
    · exact absurd hst (hresuming _ (Dict.get?_eq_some_iff.1 hr))
  · intro hp e retry hr
    obtain ⟨-, -, hst⟩ | ⟨-, hr⟩ := hget e retry hr
    · rw [hst]
      decide
    · exact hs.stopping hp e retry hr
  · intro e retry hr hst
    obtain ⟨rfl, -, -⟩ | ⟨-, hr⟩ := hget e retry hr
    · exact ⟨c, Dict.get?_set_self⟩
    · obtain ⟨c', hc'⟩ := hs.unstarted e retry hr hst
      have hne : c' ≠ c := by
        rintro rfl
        rw [hc] at hc'
        cases hc'
      exact ⟨c', (Dict.get?_set_of_ne hne).trans hc'⟩
  · intro _ id' hid'
    refine .worker _ Dict.get?_set_self rfl ?_ (by rintro ⟨⟩)
    change (s.slot.map _) = _ at hid'
    obtain ⟨slot, hs', heq⟩ := Option.map_eq_some_iff.1 hid'
    rw [hs'] at hslot
    exact (of_decide_eq_true hslot).symm.trans (congrArg Prod.fst heq)

omit hs

variable {e : ℕ} {retry : Retry}

theorem get?_setStage {e' : ℕ} {retry' : Retry} {stage : WorkerStage}
    (h : (s.setStage e retry stage).retries.get? e' = some retry') :
    (e' = e ∧ retry' = { retry with stage }) ∨ s.retries.get? e' = some retry' := by
  rw [System.setStage, Dict.get?_set] at h
  split_ifs at h with he
  · cases h
    exact .inl ⟨he, rfl⟩
  · exact .inr h

theorem Booked.setStage (hs : s.Booked maxRestarts) {stage : WorkerStage}
    (hr : s.retries.get? e = some retry) (hunstarted : stage ≠ .unstarted)
    (hwoken : stage = .woken → s.phase ≠ .stopping)
    (hresuming : stage = .resuming → retry.stamp = s.stamps) :
    (s.setStage e retry stage).Booked maxRestarts := by
  refine { hs with epochs := ?_, stamp := ?_, resuming := ?_, stopping := ?_, unstarted := ?_ }
  · intro e' retry' hr'
    obtain ⟨rfl, -⟩ | hr' := get?_setStage hr'
    · exact hs.epochs _ retry hr
    · exact hs.epochs e' retry' hr'
  · intro hp retry' hr'
    obtain ⟨he, rfl⟩ | hr' := get?_setStage hr'
    · exact hs.stamp hp retry (he ▸ hr)
    · exact hs.stamp hp retry' hr'
  · intro e' retry' hr' hst
    obtain ⟨-, rfl⟩ | hr' := get?_setStage hr'
    · exact hresuming hst
    · exact hs.resuming e' retry' hr' hst
  · intro hp e' retry' hr'
    obtain ⟨-, rfl⟩ | hr' := get?_setStage hr'
    · exact fun hst => hwoken hst hp
    · exact hs.stopping hp e' retry' hr'
  · intro e' retry' hr' hst
    obtain ⟨-, rfl⟩ | hr' := get?_setStage hr'
    · exact absurd hst hunstarted
    · exact hs.unstarted e' retry' hr' hst

/-- The worker of a recorded retry is started. -/
theorem Sound.start (hs : s.Sound maxRestarts) {due : ℚ}
    (hc : s.calls.get? c = some (.starting e)) (hr : s.retries.get? e = some retry) :
    ((s.setStage e retry (.waiting due)).setCall c (.returning true)).Sound maxRestarts := by
  have hbooked : (s.setStage e retry (.waiting due)).Booked maxRestarts :=
    hs.setStage hr (by rintro ⟨⟩) (by rintro ⟨⟩) (by rintro ⟨⟩)
  refine ⟨hbooked.setCall hc fun e' retry' he hr' => ?_, ?_⟩
  · cases he
    cases Dict.get?_set_self.symm.trans hr'
    rintro ⟨⟩
  · intro hp id hid
    cases hs.owed hp id hid with
    | call c' call' hc' owes =>
      have hne : c' ≠ c := by
        rintro rfl
        rw [hc] at hc'
        cases hc'
        exact owes
      exact .call c' call' ((Dict.get?_set_of_ne hne).trans hc') owes
    | worker retry' hr' pending registration stage =>
      by_cases he : s.epoch = e
      · subst he
        cases hr.symm.trans hr'
        exact .worker _ Dict.get?_set_self pending registration (by rintro ⟨⟩)
      · exact .worker retry' ((Dict.get?_set_of_ne he).trans hr') pending registration stage
    | exhausted none => exact absurd trivial (none c _ hc)

/-- A call returns. -/
theorem Sound.return (hs : s.Sound maxRestarts) {result : Bool}
    (hc : s.calls.get? c = some (.returning result)) :
    { s with calls := s.calls.erase c, last := some result }.Sound maxRestarts := by
  refine ⟨{ hs with unstarted := ?_ }, ?_⟩
  · intro e retry hr hst
    obtain ⟨c', hc'⟩ := hs.unstarted e retry hr hst
    have hne : c' ≠ c := by
      rintro rfl
      rw [hc] at hc'
      cases hc'
    exact ⟨c', (Dict.get?_erase_of_ne hne).trans hc'⟩
  · intro hp id hid
    cases hs.owed hp id hid with
    | call c' call' hc' owes =>
      have hne : c' ≠ c := by
        rintro rfl
        rw [hc] at hc'
        cases hc'
        exact owes
      exact .call c' call' ((Dict.get?_erase_of_ne hne).trans hc') owes
    | worker retry hr pending registration stage => exact .worker retry hr pending registration stage
    | exhausted none last =>
      -- No call had promised to return true, so this one returns false.
      cases result with
      | true => exact absurd trivial (none c _ hc)
      | false =>
        refine .exhausted (fun c' call' hc' => ?_) (.inr (by rintro ⟨⟩))
        rw [Dict.get?_erase] at hc'
        split_ifs at hc'
        exact none c' call' hc'

theorem Sound.schedule (hs : s.Sound maxRestarts) (hc : s.calls.get? c = some call)
    (hk : s.KeepsCall maxRestarts call) (h : s.schedule maxRestarts c call = some s') :
    s'.Sound maxRestarts := by
  rw [System.schedule.eq_def] at h
  split at h
  next g =>
    cases h
    exact .setCall (hs.suspend g) ((congrArg (Dict.get? · c) (calls_suspend g)).trans hc)
      (by rintro _ _ ⟨⟩) trivial
  next registrationId =>
    cases h
    have hs' : { s with dongleGeneration := none }.Booked maxRestarts := { hs with }
    cases registrationId with
    | none | some => exact .setCall hs' hc (by rintro _ _ ⟨⟩) trivial
  next =>
    cases h
    exact .giveUp hs.toBooked hc (by rintro _ _ ⟨⟩) hk
  next registrationId =>
    cases h
    exact .setCall hs.toBooked hc (by rintro _ _ ⟨⟩) trivial
  next registrationId now =>
    cases h
    obtain ⟨hnow, hgive, hrecord⟩ := hk
    split_ifs with hbudget
    · exact .giveUp (hs.trim hnow) hc (by rintro _ _ ⟨⟩) (hgive hbudget)
    · exact .record hs.toBooked hc hnow hbudget (hrecord hbudget).1 (hrecord hbudget).2
  next e =>
    obtain ⟨retry, hr, rfl⟩ := Option.map_eq_some_iff.1 h
    exact hs.start hc hr
  next result =>
    cases h
    exact hs.return hc

/-! ## Steps of a worker -/

theorem Booked.endWorker (hs : s.Booked maxRestarts) (e : ℕ) :
    (s.endWorker e).Booked maxRestarts := by
  have hget : ∀ e' retry, (s.endWorker e).retries.get? e' = some retry →
      s.retries.get? e' = some retry := fun e' retry hr => by
    rw [System.endWorker, Dict.get?_erase] at hr
    split_ifs at hr
    exact hr
  exact { hs with
    epochs := fun e' retry hr => hs.epochs e' retry (hget e' retry hr)
    stamp := fun hp retry hr => hs.stamp hp retry (hget _ retry hr)
    resuming := fun e' retry hr => hs.resuming e' retry (hget e' retry hr)
    stopping := fun hp e' retry hr => hs.stopping hp e' retry (hget e' retry hr)
    unstarted := fun e' retry hr => hs.unstarted e' retry (hget e' retry hr) }

/-- A worker that ends, but not the one that will resume the slot. -/
theorem Owed.endWorker (ho : s.Owed id)
    (hworker : ∀ retry, e = s.epoch → s.pending = true → s.retries.get? s.epoch = some retry →
      retry.registrationId = id → retry.stage = .notResumed) : (s.endWorker e).Owed id := by
  cases ho with
  | call c call hc owes => exact .call c call hc owes
  | worker retry hr pending registration stage =>
    have hne : s.epoch ≠ e := fun he =>
      stage (hworker retry he.symm pending hr registration)
    exact .worker retry ((Dict.get?_erase_of_ne hne).trans hr) pending registration stage
  | exhausted none last => exact .exhausted none last

/-- A worker goes on. -/
theorem Owed.setStage (ho : s.Owed id) {stage : WorkerStage} (hr : s.retries.get? e = some retry)
    (hstage : stage = .notResumed → retry.registrationId ≠ id) :
    (s.setStage e retry stage).Owed id := by
  cases ho with
  | call c call hc owes => exact .call c call hc owes
  | worker retry' hr' pending registration hst =>
    by_cases he : s.epoch = e
    · subst he
      cases hr.symm.trans hr'
      exact .worker _ Dict.get?_set_self pending registration fun hnot => hstage hnot registration
    · exact .worker retry' ((Dict.get?_set_of_ne he).trans hr') pending registration hst
  | exhausted none last => exact .exhausted none last

/-- A slot that a worker could not resume is not suspended under its registration. -/
theorem standing_of_resume_eq_none (h : s.resume id = none) : s.standing ≠ some (id, true) := by
  intro hstanding
  obtain ⟨slot, hslot, heq⟩ := Option.map_eq_some_iff.1 hstanding
  rw [System.resume] at h
  split at h
  next hnone =>
    rw [hslot] at hnone
    cases hnone
  next slot' hslot' =>
    cases hslot.symm.trans hslot'
    split_ifs at h with hnot
    exact hnot (Prod.mk.inj heq)

theorem resume_eq_some (h : s.resume id = some s') :
    ∃ slot : Slot, s.slot = some slot ∧ s' = { s with
      generation := s.generation + 1, slot := some { slot with suspended := false } } := by
  rw [System.resume] at h
  split at h
  · cases h
  next slot hslot =>
    split_ifs at h
    cases h
    exact ⟨slot, hslot, rfl⟩

theorem Sound.worker (hs : s.Sound maxRestarts)
    (hr : s.retries.get? e = some retry) (h : s.resumeAfterBackoff e retry = some s') :
    s'.Sound maxRestarts := by
  rw [System.resumeAfterBackoff.eq_def] at h
  split at h
  · cases h
  next due =>
    split_ifs at h with hp hdue
    · cases h
      refine ⟨hs.toBooked.endWorker e, fun hrun => ?_⟩
      have hrun : s.phase = .running := hrun
      rw [hrun] at hp
      cases hp
    · cases h
      exact ⟨hs.toBooked.setStage hr (by rintro ⟨⟩) (fun _ hstop => hp (by rw [hstop]; rfl))
        (by rintro ⟨⟩), fun hrun id hid => (hs.owed hrun id hid).setStage hr (by rintro ⟨⟩)⟩
  next hst =>
    have hphase : s.phase ≠ .stopping := fun hp => hs.stopping hp e retry hr hst
    split_ifs at h with hcurrent
    · cases h
      refine ⟨hs.toBooked.setStage hr (by rintro ⟨⟩) (by rintro ⟨⟩) fun _ => ?_,
        fun hrun id hid => (hs.owed hrun id hid).setStage hr (by rintro ⟨⟩)⟩
      exact hs.stamp hphase retry (hcurrent.1 ▸ hr)
    · cases h
      exact ⟨hs.toBooked.endWorker e, fun hrun id hid => (hs.owed hrun id hid).endWorker
        fun _ he hpending => absurd ⟨he, hpending⟩ hcurrent⟩
  next hst =>
    cases h
    split
    next s₁ hresume =>
      obtain ⟨slot, hslot, rfl⟩ := resume_eq_some hresume
      have hbooked : { s with
        generation := s.generation + 1
        slot := some { slot with suspended := false } }.Booked maxRestarts :=
        { hs with unregistered := fun hp => by cases (hs.unregistered hp).symm.trans hslot }
      exact ⟨hbooked.endWorker e, fun _ id hid => by cases congrArg (Option.map Prod.snd) hid⟩
    next hresume =>
      refine ⟨hs.toBooked.setStage hr (by rintro ⟨⟩) (by rintro ⟨⟩) (by rintro ⟨⟩),
        fun hrun id hid => (hs.owed hrun id hid).setStage hr fun _ hid' => ?_⟩
      exact standing_of_resume_eq_none hresume (hid' ▸ hid)
  next hst =>
    cases h
    have hbooked : { s with pending := if e = s.epoch then false else s.pending }.Booked
        maxRestarts := { hs with }
    refine ⟨hbooked.endWorker e, fun hrun id hid => ?_⟩
    cases hs.owed hrun id hid with
    | call c call hc owes => exact .call c call hc owes
    | worker retry' hr' pending registration stage =>
      -- The worker of the current epoch has not failed, so it is another one.
      have hne : s.epoch ≠ e := by
        rintro rfl
        cases hr.symm.trans hr'
        exact stage hst
      refine .worker retry' ((Dict.get?_erase_of_ne hne).trans hr') ?_ registration stage
      exact (if_neg hne.symm).trans pending
    | exhausted none last => exact .exhausted none last

/-! ## Runs -/

theorem Sound.next (hs : s.Sound maxRestarts) {a : Event} (hk : s.KeepsRetry maxRestarts a)
    (h : Signal.next maxRestarts s a = some s') : s'.Sound maxRestarts := by
  have haside : s.Aside s :=
    ⟨rfl, rfl, rfl, rfl, rfl, rfl, rfl, rfl, rfl, .inl rfl, .inl rfl⟩
  cases a with
  | tick d | spawn =>
    rw [Signal.next] at h
    split_ifs at h
    cases h
    exact hs.aside { haside with }
  | lifecycle =>
    cases h
    exact hs.lifecycle hk
  | advance | yield =>
    cases h
    exact hs.aside { haside with }
  | grant => exact hs.aside (aside_grant h)
  | acquire ok =>
    obtain ⟨a, ha, h⟩ := Option.bind_eq_some_iff.1 h
    exact hs.aside (aside_acquire ha hk h)
  | preempt => exact hs.aside (aside_preempt h)
  | fail n =>
    rw [Signal.next] at h
    split_ifs at h with hno
    cases h
    have hnone := not_not.1 (not_or.1 hno).2
    exact hs.aside { haside with calls := .inr ⟨_, _, hnone, rfl⟩ }
  | schedule c =>
    obtain ⟨call, hc, h⟩ := Option.bind_eq_some_iff.1 h
    exact hs.schedule hc (hk call hc) h
  | worker e =>
    obtain ⟨retry, hr, h⟩ := Option.bind_eq_some_iff.1 h
    exact hs.worker hr h

theorem sound (h : (plugin maxRestarts).Reach (KeepsRetry maxRestarts) s) :
    s.Sound maxRestarts := by
  refine h.induction (fun s hinit => ?_) fun s a s' hs hk hstep => hs.next hk hstep
  obtain ⟨t, rfl⟩ := hinit
  exact sound_init

/-- The worker that makes the slot eligible had found its retry to be the latest. -/
theorem Sound.stamp_of_revives (hs : s.Sound maxRestarts)
    (hr : s.retries.get? e = some retry) (h : s.resumeAfterBackoff e retry = some s')
    (hsuspended : s.Suspended) (heligible : ¬s'.Suspended) : retry.stamp = s.stamps := by
  rw [System.resumeAfterBackoff.eq_def] at h
  split at h
  · cases h
  · split_ifs at h
    all_goals
      cases h
      exact absurd hsuspended heligible
  · split_ifs at h
    · cases h
      exact absurd hsuspended heligible
    · cases h
      exact absurd hsuspended heligible
  next hst => exact hs.resuming e retry hr hst
  · cases h
    exact absurd hsuspended heligible

/-- When all is quiet, nobody is left to answer for a suspended slot. -/
theorem Sound.not_suspended (hs : s.Sound maxRestarts) (hquiet : s.Quiet)
    (hlast : s.last = some true) : ¬s.Suspended := by
  obtain ⟨hactive, -, hcalls, hretries⟩ := hquiet
  have hnocall : ∀ c call, s.calls.get? c ≠ some call := fun c call hc => by
    have hmem := Dict.get?_eq_some_iff.1 hc
    rw [hcalls] at hmem
    cases hmem
  rw [suspended_iff]
  rintro ⟨id, hid⟩
  have hrun : s.phase = .running := by
    obtain ⟨slot, hslot, -⟩ := Option.map_eq_some_iff.1 hid
    have hregistered : s.phase.registered ≠ false := fun hp => by
      cases (hs.unregistered hp).symm.trans hslot
    revert hactive hregistered
    cases s.phase <;> decide
  cases hs.owed hrun id hid with
  | call c call hc => exact hnocall c call hc
  | worker retry hr _ _ stage =>
    have hst := hretries _ (Dict.get?_eq_some_iff.1 hr)
    obtain ⟨c, hc⟩ := hs.unstarted _ retry hr hst
    exact hnocall c _ hc
  | exhausted _ last =>
    obtain ⟨c, hc⟩ | hno := last
    · exact hnocall c _ hc
    · exact hno hlast

end System
variable {maxRestarts : ℤ} {s : System}

/-- A failed decoder comes back within its budget, in every run that keeps the retry. -/
theorem decoder_comes_back (h : (plugin maxRestarts).Reach (System.KeepsRetry maxRestarts) s) :
    Bounded sdrRestartWindowSeconds (retryLimit maxRestarts) s.scheduled ∧
      (∀ e retry s', s.retries.get? e = some retry → next maxRestarts s (.worker e) = some s' →
        s.Suspended → ¬s'.Suspended → retry.stamp = s.stamps) ∧
      (s.Quiet → s.last = some true → ¬s.Suspended) := by
  have hs := System.sound h
  refine ⟨hs.bounded, fun e retry s' hr hnext => ?_, hs.not_suspended⟩
  rw [next, hr] at hnext
  exact hs.stamp_of_revives hr hnext

/-- The plugin, before it is started. -/
def stoppedPlugin : System := { clock := 100, seen := 100 }

/-- The plugin is started, and granted the dongle; its decoder starts. -/
def launching : List Event :=
  List.replicate 3 .lifecycle ++ [.grant] ++ List.replicate 3 (.acquire true) ++
    [.spawn, .acquire true]

/-- The decoder fails, and its hook schedules a retry. -/
def failing : List Event := .fail 0 :: List.replicate 6 (.schedule (.monitor 0))

/-- The decoder fails once it has been acquired, and the worker resumes the slot. -/
def comingBack : List Event :=
  launching ++ List.replicate 2 (.acquire true) ++ failing ++
    .tick 1 :: List.replicate 3 (.worker 2)

theorem decoder_comes_back_later : ∃ s, (plugin 5).Reach (System.KeepsRetry 5) s ∧
    (s.Quiet ∧ s.last = some true ∧ s.scheduled ≠ []) ∧
      Bounded sdrRestartWindowSeconds (retryLimit 5) s.scheduled ∧
        (∀ e retry s', s.retries.get? e = some retry → next 5 s (.worker e) = some s' →
          s.Suspended → ¬s'.Suspended → retry.stamp = s.stamps) ∧
        (s.Quiet → s.last = some true → ¬s.Suspended) := by
  obtain ⟨s, hs, hp⟩ : ∃ s ∈ comingBack.foldlM
        (fun (s : System) a => if s.KeepsRetry 5 a then next 5 s a else none) stoppedPlugin,
        s.Quiet ∧ s.last = some true ∧ s.scheduled ≠ [] := by
    decide +kernel
  have hreach : (plugin 5).Reach (System.KeepsRetry 5) s :=
    Transition.Reach.foldlM (.init ⟨100, rfl⟩) hs
  exact ⟨s, hreach, hp, decoder_comes_back hreach⟩

/-- The decoder fails while it is being acquired. -/
def stayingOff : List Event :=
  launching ++ failing ++ List.replicate 2 (.acquire true) ++
    .tick 1 :: List.replicate 2 (.worker 2)

theorem decoder_comes_back_fails :
    ¬∀ s, (plugin 5).Reachable s → s.Quiet → s.last = some true → ¬s.Suspended := by
  intro hall
  obtain ⟨s, hs, hquiet, hlast, hsuspended⟩ : ∃ s ∈ stayingOff.foldlM (next 5) stoppedPlugin,
      s.Quiet ∧ s.last = some true ∧ s.Suspended := by
    decide +kernel
  exact hall s (.foldlM (.init ⟨100, rfl⟩) hs) hquiet hlast hsuspended

end ReticulumPi.Signal
