import ReticulumPi.Lib.Past
import ReticulumPi.Sdr.LockSteps

/-!
# The lock of a dongle is its holder's

Along every run in which no holder that has locked its dongle yields to nobody,
and no slot for which a relock is due is unlocked, registered again, moved or
unregistered (`KeepsLocks`), once nobody is in the middle of an operation a
locked dongle has its holder's lock, and a relock is due only to a slot that has
lost the dongle while it had locked it, and has not given up its claim since.

Runs are taken with a record of their steps, so that the latter can be said.
-/

namespace ReticulumPi.Sdr

namespace Scheduler

variable {s : Scheduler} {ref : Ref} {left : Ref → String → Prop}
  {lost : Ref → String → ℕ → Prop} {now : Clock} {outcome : ClaimOutcome} {callbackOk : Bool}

/-- The preemption that a preflight is made for, if it is allowed to go on,
    leaves no lock behind. -/
def preemptKeepsNoLock (s : Scheduler) (outcome : ClaimOutcome) (now : Clock) : ThreadPc → Bool
  | .preflight p =>
    !((s.finishPreflight p outcome now).2 && p.signature.canPreempt) ||
      s.keepsNoLock p.ref p.current p.caller
  | _ => true

/-- The slot loses the dongle to the caller that the preflight was made for. -/
def LosesTo (s : Scheduler) (p : Preflight) (ref : Ref) (c : String) (rid : ℕ) : Prop :=
  p.ref = ref ∧ p.current = c ∧ s.lockedBy? ref = some c ∧ s.holder? ref = some c ∧
    s.registrationId? ref c = some rid

/-- The thread goes on, and inherits the locks. It can only give a dongle to the
    slot it has claimed it for, and take one from the holder that it has made a
    preflight against. -/
theorem inherits_resumeThread {pc : ThreadPc} {gets : Ref → String → Prop} (hc : s.Clear pc)
    (hk : s.preemptKeepsNoLock outcome now pc = true)
    (hgets : ∀ a lease, pc = .granting a lease → gets a.ref a.caller)
    (hlost : ∀ p, pc = .preflight p → ∀ ref c rid, s.LosesTo p ref c rid →
      (s.resumeThread pc outcome callbackOk now).1.holder? ref = none → lost ref c rid) :
    s.Inherits left gets lost (s.resumeThread pc outcome callbackOk now).1 ∧
      (s.resumeThread pc outcome callbackOk now).1.Clear
        (s.resumeThread pc outcome callbackOk now).2 := by
  have hturn : ∀ r, s.Turn left lost r → s.Inherits left gets lost r.1 ∧ r.1.Clear r.2 :=
    fun r h => ⟨h.inherits.mono (fun _ _ h => h.elim) fun _ _ _ h => h, h.clear⟩
  cases pc with
  | idle | publishing => exact hturn _ (turn_idle (.refl s))
  | preflight p =>
    have hi : s.Inherits left (fun _ _ => False) lost (s.finishPreflight p outcome now).1 :=
      inherits_finishPreflight p outcome now
    have hlost := hlost p rfl
    rw [preemptKeepsNoLock] at hk
    rw [resumeThread] at hlost ⊢
    have hgoes : (s.finishPreflight p outcome now).2 = true →
        SameAt p.ref s (s.finishPreflight p outcome now).1 ∧
          s.holder? p.ref = p.signature.currentHolder := finishPreflight_goesOn
    rcases heq : s.finishPreflight p outcome now with ⟨s₁, goesOn⟩
    rw [heq] at hi hk hgoes hlost
    dsimp only at hi hk hgoes hlost ⊢
    split_ifs at hlost ⊢ with hon
    · obtain ⟨hsame, hheld⟩ := hgoes hon.1
      have hholder : s.holder? p.ref = some p.current := hheld.trans hc
      rw [hon.1, hon.2, Bool.and_true, Bool.not_true, Bool.false_or] at hk
      have hk₁ : s₁.keepsNoLock p.ref p.current p.caller = true := by
        rw [keepsNoLock, hsame.locked, hsame.registered]
        exact hk
      have hy : s₁.Inherits left (fun _ _ => False) lost (s₁.doYield p.ref p.current p.caller).1 :=
        inherits_doYield_of_keepsNoLock hk₁ (hsame.holder.trans hholder) fun hl _ r hr =>
          hlost p.ref p.current r
            ⟨rfl, rfl, hsame.locked.symm.trans hl, hholder, (hsame.registered _).symm.trans hr⟩
            (holder?_yieldThen _)
      exact hturn _ (.trans hi (turn_yieldThen _ hy))
    · exact hturn _ (turn_idle hi)
  | yielding ref lease next =>
    have hr : s.Inherits left (fun _ _ => False) lost (s.releaseLease lease) :=
      inherits_releaseLease lease
    exact hturn _ (.trans hr (turn_afterYield (hr.holder_none hc) next))
  | claiming a => exact hturn _ (turn_finishClaim hc)
  | dropping lease | discarding lease => exact hturn _ (turn_idle (inherits_releaseLease _))
  | granting a lease => exact inherits_finishGrant hc (hgets a lease rfl)

end Scheduler

namespace System

variable {s s' : System} {e : Event} {ref : Ref} {c : String} {rid : ℕ}
  {log : List (System × Event × System)} {managed : List ManagedDongle} {override : Bool}

/-! ## What happens to a relock -/

/-- The caller `c` gives up its claim to the dongle `ref`: it unlocks or
    releases it, is suspended or unregistered. A release or suspension with a
    stale generation does nothing. -/
def GivesUp (s : System) (ref : Ref) (c : String) : Event → Prop
  | .call _ (.unlock serial caller) =>
    caller = c ∧ s.scheduler.registrationDongle serial caller = some ref
  | .call _ (.dongleReleased serial caller generation) =>
    caller = c ∧ s.scheduler.registrationDongle serial caller = some ref ∧
      generation.all (fun g => (s.scheduler.slot? ref caller).any (·.allocationGeneration = g))
  | .call _ (.suspend serial caller generation) =>
    caller = c ∧ s.scheduler.registrationDongle serial caller = some ref ∧
      generation.all (fun g => (s.scheduler.slot? ref caller).any (·.allocationGeneration = g))
  | .call _ (.unregister serial caller) =>
    caller = c ∧ s.scheduler.registrationDongle serial caller = some ref
  | .proceed id _ => ∃ serial lease, s.calls.get? id = some (.unregistering serial c ref lease)
  | _ => False

/-- In the step the slot of `c` with the registration `rid` loses the dongle
    `ref`, which it holds and has locked, to the caller of a preflight. -/
def LosesLocked (s : System) (ref : Ref) (c : String) (rid : ℕ) (s' : System) : Event → Prop
  | .resumeThread .. => (∃ p, s.thread = .preflight p ∧ s.scheduler.LosesTo p ref c rid) ∧
      s'.scheduler.holder? ref = none
  | _ => False

/-- According to the record, the slot of `c` with the registration `rid` has lost
    the dongle `ref` while it had locked it, and `c` has not given it up since. -/
def LostLocked (ref : Ref) (c : String) (rid : ℕ) (log : List (System × Event × System)) : Prop :=
  Past.Since (fun t => ¬ t.1.GivesUp ref c t.2.1) (fun t => t.1.LosesLocked ref c rid t.2.2 t.2.1)
    log

/-! ## Runs -/

/-- No holder that has locked its dongle yields to nobody, unless its slot is
    taken away, and no slot for which a relock is due is unlocked, registered
    again, moved or unregistered. -/
def KeepsLocks (s : System) : Event → Prop
  | .evaluate key now => s.scheduler.windowKeepsNoLock key now = true
  | .resumeThread outcome _ now => s.scheduler.preemptKeepsNoLock outcome now s.thread = true
  | .call _ op => s.scheduler.beginKeepsLocks op = true
  | .proceed id visit => (s.calls.get? id).all (fun pc =>
      (s.scheduler.releaseLease pc.lease).proceedKeepsLocks visit pc) = true

instance : ∀ (s : System) (e : Event), Decidable (s.KeepsLocks e)
  | _, .evaluate .. => inferInstanceAs (Decidable (_ = true))
  | _, .resumeThread .. => inferInstanceAs (Decidable (_ = true))
  | _, .call .. => inferInstanceAs (Decidable (_ = true))
  | _, .proceed .. => inferInstanceAs (Decidable (_ = true))

/-- A call is to take the slot of `c` off the dongle `ref`. -/
def Removing (s : System) (ref : Ref) (c : String) : Prop :=
  ∃ id pc, s.calls.get? id = some pc ∧ pc.Removes ref c

/-- A lock is the holder's, or is about to be taken away with its slot; a relock
    is due to a slot that has lost the dongle while it had locked it. -/
structure LockInv (s : System) (log : List (System × Event × System)) : Prop where
  active : ∀ ref c, s.scheduler.activeAt ref c = true → s.scheduler.holder? ref = some c
  clear : s.scheduler.Clear s.thread
  locked : ∀ ref c, s.scheduler.lockedBy? ref = some c →
    s.scheduler.holder? ref = some c ∨ s.Removing ref c
  relock : ∀ ref c, s.scheduler.relockAfter? ref = some c →
    ∃ rid, s.scheduler.registrationId? ref c = some rid ∧ LostLocked ref c rid log

/-- A step that inherits the locks keeps the invariant. -/
theorem LockInv.inherits (h : s.LockInv log) {left gets : Ref → String → Prop}
    (hi : s.scheduler.Inherits left gets (fun ref c rid => s.LosesLocked ref c rid s' e)
      s'.scheduler)
    (hclear : s'.scheduler.Clear s'.thread)
    (hleft : ∀ ref c, left ref c → s'.Removing ref c)
    (hremoving : ∀ ref c, s.Removing ref c → s'.scheduler.lockedBy? ref = some c →
      s'.Removing ref c)
    (hkeep : ∀ ref c, s.scheduler.relockAfter? ref = some c →
      s'.scheduler.relockAfter? ref = some c → ¬ s.GivesUp ref c e) :
    s'.LockInv ((s, e, s') :: log) where
  active := hi.active h.active
  clear := hclear
  locked ref c hc := by
    rcases hi.locked ref c hc with hh | ⟨hl, hne⟩ | hl
    · exact .inl hh
    · exact .inr (hremoving ref c ((h.locked ref c hl).resolve_left hne) hc)
    · exact .inr (hleft ref c hl)
  relock ref c hc := by
    rcases hi.relock ref c hc with ⟨hr, hs⟩ | ⟨rid, hrid, hlost⟩
    · obtain ⟨rid, hrid, hlost⟩ := h.relock ref c hr
      exact ⟨rid, hs rid hrid, .inr ⟨hkeep ref c hr hc, hlost⟩⟩
    · exact ⟨rid, hrid, .inl hlost⟩

/-- A step of the thread that inherits the locks keeps the invariant. -/
theorem LockInv.thread (gets : Ref → String → Prop) (h : s.LockInv log)
    {r : Scheduler × ThreadPc}
    (hr : s.scheduler.Inherits (fun _ _ => False) gets (fun ref c rid => s.LosesLocked ref c rid
      { s with scheduler := r.1, thread := r.2 } e) r.1 ∧ r.1.Clear r.2)
    (hgives : ∀ ref c, ¬ s.GivesUp ref c e) :
    LockInv { s with scheduler := r.1, thread := r.2 }
      ((s, e, { s with scheduler := r.1, thread := r.2 }) :: log) :=
  h.inherits hr.1 hr.2 (fun _ _ h => h.elim) (fun _ _ h _ => h) fun ref c _ _ => hgives ref c

/-- A call that was to take a slot off still is, unless it is the one that took this step. -/
theorem removing_record {scheduler : Scheduler} {id : ℕ} {p : Progress}
    (h : s.Removing ref c) (hid : ∀ pc, s.calls.get? id = some pc → ¬ pc.Removes ref c) :
    Removing { s with scheduler := scheduler, calls := record s.calls id p } ref c := by
  obtain ⟨id', pc, hpc, hr⟩ := h
  have hne : id' ≠ id := fun heq => hid pc (heq ▸ hpc) hr
  refine ⟨id', pc, ?_, hr⟩
  cases p <;> simp only [record, Dict.get?_set, Dict.get?_erase, if_neg hne] <;> exact hpc

theorem removing_of_removes {scheduler : Scheduler} {id : ℕ} {p : Progress}
    (h : p.Removes ref c) :
    Removing { s with scheduler := scheduler, calls := record s.calls id p } ref c := by
  cases p with
  | waits pc => exact ⟨id, pc, Dict.get?_set_self, h⟩
  | returned | raised => exact h.elim

/-- A call that starts and gives up a relock takes it away. -/
theorem not_givesUp_call {id : ℕ} {op : Op} (hk : s.scheduler.beginKeepsLocks op = true)
    (hr : s.scheduler.relockAfter? ref = some c)
    (hr' : (s.scheduler.begin op).1.relockAfter? ref = some c) :
    ¬ s.GivesUp ref c (.call id op) := by
  intro hgives
  cases op with
  | unlock serial caller =>
    obtain ⟨rfl, href⟩ := hgives
    rw [Scheduler.beginKeepsLocks, href, Option.all_some, decide_eq_true_eq] at hk
    exact hk hr
  | unregister serial caller =>
    obtain ⟨rfl, href⟩ := hgives
    rw [Scheduler.beginKeepsLocks, href, Option.all_some, Bool.or_eq_true,
      decide_eq_true_eq] at hk
    rcases hk with ha | hno
    · exact Scheduler.relockAfter?_unregister href ha hr'
    · exact hno hr
  | dongleReleased serial caller generation | suspend serial caller generation =>
    obtain ⟨rfl, href, hg⟩ := hgives
    exact Scheduler.relockAfter?_releaseSlot href hg hr'
  | _ => exact hgives

theorem lockInv_next (h : s.LockInv log) (hk : s.KeepsLocks e) (hs : s.next e = some s') :
    s'.LockInv ((s, e, s') :: log) := by
  cases e with
  | evaluate key now =>
    rw [next] at hs
    split_ifs at hs with hidle
    cases hs
    have hturn : s.scheduler.Turn (fun _ _ => False) (fun _ _ _ => False)
        (s.scheduler.evaluate key now) := Scheduler.turn_evaluate hk
    exact .thread (fun _ _ => False) h ⟨hturn.inherits.mono (fun _ _ h => h) fun _ _ _ h => h.elim,
      hturn.clear⟩ fun _ _ h => h
  | resumeThread outcome callbackOk now =>
    rw [next] at hs
    split_ifs at hs
    cases hs
    refine LockInv.thread (fun _ _ => True) h (Scheduler.inherits_resumeThread h.clear hk
      (fun _ _ _ => trivial) fun p hp ref c rid hlost hnone => ⟨⟨p, hp, hlost⟩, hnone⟩) fun _ _ h => h
  | call id op =>
    rw [next] at hs
    split at hs
    · cases hs
    rename_i hnone
    cases hs
    have hi : s.scheduler.Inherits (fun ref c => (s.scheduler.begin op).2.Removes ref c)
        (fun _ _ => False) (fun _ _ _ => False) (s.scheduler.begin op).1 :=
      Scheduler.inherits_begin h.active hk fun _ _ h => h
    refine h.inherits (hi.mono (fun _ _ h => h) fun _ _ _ h => h.elim) (h.clear.inherits hi)
      (fun _ _ => removing_of_removes) (fun _ _ hr _ => removing_record hr fun pc hpc => ?_)
      fun _ _ => not_givesUp_call hk
    rw [hnone] at hpc
    cases hpc
  | proceed id visit =>
    rw [next] at hs
    split at hs
    · cases hs
    rename_i pc hpc
    cases hs
    rw [KeepsLocks, hpc, Option.all_some] at hk
    have hi : s.scheduler.Inherits (fun _ _ => False) (fun _ _ => False) (fun _ _ _ => False)
        (s.scheduler.proceed visit pc).1 := Scheduler.inherits_proceed hk
    refine h.inherits (hi.mono (fun _ _ h => h) fun _ _ _ h => h.elim) (h.clear.inherits hi)
      (fun _ _ h => h.elim) (fun ref c hr hl => removing_record hr fun pc' hpc' hremoves => ?_)
      fun ref c hr _ hgives => ?_
    · -- The call that goes on has taken its slot's lock away.
      rw [hpc] at hpc'
      cases hpc'
      exact Scheduler.unlocked_proceed hremoves hl
    · obtain ⟨serial, lease, hcall⟩ := hgives
      obtain rfl := Option.some.inj (hpc.symm.trans hcall)
      rw [Scheduler.proceedKeepsLocks, decide_eq_true_eq] at hk
      refine hk ?_
      cases lease <;> exact hr

/-! ## Coherence between operations -/

/-- A locked dongle is locked by its holder, and a relock is due to a registered
    slot that, according to the record, has lost the dongle by a preemption while
    it had locked it and has not given it up since. -/
structure LockCoherent (s : System) (log : List (System × Event × System)) : Prop where
  locked : ∀ key d c, s.scheduler.dongles.get? key = some d → d.lockedBy = some c →
    d.currentHolder = some c
  relock : ∀ key d c, s.scheduler.dongles.get? key = some d → d.relockAfter = some c →
    ∃ slot, d.slots.get? c = some slot ∧ LostLocked ⟨key, d.oid⟩ c slot.registrationId log

theorem LockInv.coherent (h : s.LockInv log) (hq : s.Quiescent) : s.LockCoherent log where
  locked key d c hd hl := by
    have href := Scheduler.dongle?_of_get? hd
    rcases h.locked ⟨key, d.oid⟩ c ((Scheduler.lockedBy?_eq href).trans hl) with hh | ⟨id, pc, hpc, -⟩
    · exact (Scheduler.holder?_eq href).symm.trans hh
    · rw [Dict.get?_eq_none_iff.2 (by simp [hq.2])] at hpc
      cases hpc
  relock key d c hd hr := by
    have href := Scheduler.dongle?_of_get? hd
    obtain ⟨rid, hrid, hlost⟩ :=
      h.relock ⟨key, d.oid⟩ c ((Scheduler.relockAfter?_eq href).trans hr)
    rw [Scheduler.registrationId?_eq href] at hrid
    obtain ⟨slot, hslot, rfl⟩ := Option.map_eq_some_iff.1 hrid
    exact ⟨slot, hslot, hlost⟩

/-- Nobody has anything to do with the managed dongles of a new scheduler. -/
theorem unused_new (managed : List ManagedDongle) (override : Bool) :
    ∀ k d, (Scheduler.new managed override).dongles.get? k = some d →
      d.currentHolder = none ∧ d.lockedBy = none ∧ d.relockAfter = none ∧ d.slots = ∅ := by
  rw [Scheduler.new]
  have hempty : ∀ k d, ({ weatherOverrideLock := override } : Scheduler).dongles.get? k = some d →
      d.currentHolder = none ∧ d.lockedBy = none ∧ d.relockAfter = none ∧ d.slots = ∅ :=
    fun k d hd => by simp at hd
  generalize ({ weatherOverrideLock := override } : Scheduler) = s₀ at hempty
  induction managed generalizing s₀ with
  | nil => exact hempty
  | cons m managed ih =>
    refine ih _ fun k d hd => ?_
    rw [Scheduler.addManaged] at hd
    split_ifs at hd
    · exact hempty k d hd
    · rw [Dict.get?_set] at hd
      split_ifs at hd
      · cases hd
        exact ⟨rfl, rfl, rfl, rfl⟩
      · exact hempty k d hd

theorem lockInv_init : LockInv ⟨.new managed override, .idle, ∅⟩ [] := by
  have hunused := unused_new managed override
  refine ⟨fun ref c hc => ?_, trivial, fun ref c hc => ?_, fun ref c hc => ?_⟩
  · obtain ⟨x, hx, -⟩ := (Option.any_eq_true _ _).1 hc
    obtain ⟨d, hd, hx⟩ := Option.bind_eq_some_iff.1 hx
    rw [(hunused _ d (Scheduler.get?_of_dongle? hd)).2.2.2] at hx
    cases hx
  · obtain ⟨d, hd, hl⟩ := Option.bind_eq_some_iff.1 hc
    rw [(hunused _ d (Scheduler.get?_of_dongle? hd)).2.1] at hl
    cases hl
  · obtain ⟨d, hd, hr⟩ := Option.bind_eq_some_iff.1 hc
    rw [(hunused _ d (Scheduler.get?_of_dongle? hd)).2.2.1] at hr
    cases hr

/-- In every run whose steps keep the locks, whenever no operation is in the
    middle, the locks are coherent. -/
theorem locks_coherent (h : (transition managed override).logged.Reach
    (fun p e => p.1.KeepsLocks e) (s, log)) (hq : s.Quiescent) : s.LockCoherent log := by
  have hinv : LockInv (s, log).1 (s, log).2 := by
    refine Transition.Reach.induction (I := fun p => LockInv p.1 p.2) (fun p hp => ?_)
      (fun p e p' hI hk hs => ?_) h
    · obtain ⟨hinit, hlog⟩ := hp
      rw [hlog, show p.1 = _ from hinit]
      exact lockInv_init
    · rw [hs.2]
      exact lockInv_next hI hk hs.1
  exact hinv.coherent hq

/-- A satellite pass, whose receiver locks the dongle. -/
def passReceiver : RegisterArgs where
  serial := "A"
  caller := "pass"
  priority := .scheduled
  windows := [⟨0, 10⟩]
  resolved := "serial:A"

/-- A receiver of alerts, which may take a locked dongle. -/
def alertReceiver : RegisterArgs where
  serial := "A"
  caller := "alert"
  priority := .critical
  continuous := true
  resolved := "serial:A"

/-- The pass gets the dongle and locks it. -/
def lockRun : List Event :=
  [.call 0 (.register passReceiver), .evaluate "A" ⟨5, 100⟩,
    .resumeThread (.granted ⟨0, "serial:A"⟩) true ⟨5, 100⟩, .resumeThread .failed true ⟨5, 100⟩,
    .resumeThread .failed true ⟨5, 100⟩, .call 0 (.lock "A" "pass")]

/-- Then the alert receiver takes it from the pass. -/
def preemptRun : List Event :=
  lockRun ++ [.call 0 (.register alertReceiver), .evaluate "A" ⟨6, 101⟩,
    .resumeThread (.busy ⟨0, "serial:A"⟩) true ⟨6, 101⟩, .resumeThread .failed true ⟨6, 101⟩,
    .resumeThread (.granted ⟨0, "serial:A"⟩) true ⟨6, 101⟩, .resumeThread .failed true ⟨6, 101⟩,
    .resumeThread .failed true ⟨6, 101⟩]

theorem locks_coherent_preempted : ∃ s log,
    (transition [{ serial := "A" }] true).logged.Reach (fun p e => p.1.KeepsLocks e) (s, log) ∧
      (∃ d, s.scheduler.dongles.get? "A" = some d ∧ d.relockAfter = some "pass") ∧
      s.LockCoherent log := by
  obtain ⟨s, hs, hidle, hcalls, d, hd, hr⟩ :
      ∃ s ∈ preemptRun.foldlM (fun s e => if KeepsLocks s e then next s e else none) oneDongle,
        s.thread = .idle ∧ s.calls.entries = [] ∧
          ∃ d ∈ s.scheduler.dongles.get? "A", d.relockAfter = some "pass" := by
    decide +kernel
  have hreach : (transition [{ serial := "A" }] true).Reach KeepsLocks s :=
    .foldlM (.init rfl) hs
  obtain ⟨log, hlog⟩ := hreach.logged
  exact ⟨s, log, hlog, ⟨d, hd, hr⟩, locks_coherent hlog ⟨hidle, hcalls⟩⟩

/-- The window of the pass ends, and nobody else wants the dongle. -/
def windowEndRun : List Event :=
  lockRun ++ [.evaluate "A" ⟨20, 115⟩, .resumeThread .failed true ⟨20, 115⟩]

/-- The pass yields to nobody, and the dongle stays locked by it. -/
theorem locks_coherent_fails_window_end : ∃ s : System,
    (transition [{ serial := "A" }] true).Reachable s ∧ s.Quiescent ∧
      ∃ d, s.scheduler.dongles.get? "A" = some d ∧ d.lockedBy = some "pass" ∧
        d.currentHolder = none := by
  obtain ⟨s, hs, hidle, hcalls, d, hd, hlock⟩ : ∃ s ∈ windowEndRun.foldlM next oneDongle,
      s.thread = .idle ∧ s.calls.entries = [] ∧ ∃ d ∈ s.scheduler.dongles.get? "A",
        d.lockedBy = some "pass" ∧ d.currentHolder = none := by
    decide +kernel
  exact ⟨s, .foldlM (.init rfl) hs, ⟨hidle, hcalls⟩, d, hd,
    hlock⟩

end System

end ReticulumPi.Sdr
