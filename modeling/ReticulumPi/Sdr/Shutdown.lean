import ReticulumPi.Sdr.Winding

/-!
# Shutting the scheduler down

The system is observed together with the callbacks that have run for its leases
(`observed`). Wherever the walk of a `stop` stands, the dongles behind it have
no holder (`Walked`), and from the end of the walk on no dongle ever has one
again (`WoundDown`); a lease whose callback has returned is still out, unless
`yield_cb` ran for it or its caller handed it back (`Out`). So along every run
in which no active slot is lost and the table does not change under the walk,
a `stop` ends without error, and every receiver is released then
(`stop_releases`).
-/

namespace ReticulumPi.Sdr

open List

namespace Scheduler

variable {s s' : Scheduler} {hands : Actor → Option Lease} {ref : Ref} {serial caller : String}
  {start todo : List String} {r : Registration} {canonicalId storageKey : String}

/-! ## A stopped scheduler stays stopped -/

@[simp] theorem doYield_running (preemptedBy : String) :
    (s.doYield ref caller preemptedBy).1.running = s.running := by
  rw [doYield]
  split <;> exact modifyDongle_running _

@[simp] theorem ensureDongle_running (configured : String) :
    (s.ensureDongle configured canonicalId).1.running = s.running := by
  rw [ensureDongle]
  split <;> rfl

@[simp] theorem storeSlot_running :
    (s.storeSlot r canonicalId storageKey).1.running = s.running := by
  rw [storeSlot]
  split
  · rfl
  · exact modifyDongle_running _

@[simp] theorem finishMove_running (m : Move) : (s.finishMove m).1.running = s.running :=
  storeSlot_running.trans (modifyDongle_running _)

@[simp] theorem finishUnregister_running (hadSlot : Bool) :
    (s.finishUnregister ref serial caller hadSlot).1.running = s.running :=
  modifyDongle_running _

theorem registerAt_running : (s.registerAt r canonicalId storageKey).1.running = s.running := by
  rw [registerAt]
  split
  · exact storeSlot_running
  · rename_i previous _
    have hy : (s.doYield previous r.caller "").1.running = s.running := doYield_running ""
    dsimp only
    split_ifs
    · split
      · rename_i heq
        rwa [heq] at hy
      · rename_i heq
        rw [heq] at hy
        exact (finishMove_running _).trans hy
    · exact finishMove_running _

theorem register_running (a : RegisterArgs) : (s.register a).1.running = s.running := by
  rw [register]
  split_ifs
  · exact registerAt_running.trans (ensureDongle_running _)
  · rfl

theorem unregister_running : (s.unregister serial caller).1.running = s.running := by
  rw [unregister]
  split
  · rfl
  · rename_i ref _
    have hy : (s.doYield ref caller "").1.running = s.running := doYield_running ""
    split_ifs
    · split
      · rename_i heq
        rwa [heq] at hy
      · rename_i heq
        rw [heq] at hy
        exact (finishUnregister_running _).trans hy
    · exact finishUnregister_running _

theorem stopFrom_running : (s.stopFrom start todo).1.running = s.running := by
  induction todo generalizing s with
  | nil => rfl
  | cons key todo ih =>
    rw [stopFrom]
    split
    · exact ih
    rename_i d _
    split
    · exact ih
    rename_i holder _
    have hy : (s.doYield ⟨key, d.oid⟩ holder "").1.running = s.running := doYield_running ""
    split_ifs
    · exact ih
    · split
      · rename_i heq
        rwa [heq] at hy
      · rename_i heq
        rw [heq] at hy
        exact ih.trans hy

theorem running_begin (h : s.running = false) (op : Op) : (s.begin op).1.running = false := by
  have hrel : ∀ serial caller suspend generation,
      (s.releaseSlot serial caller suspend generation).1.running = s.running := by
    intro serial caller suspend generation
    rw [releaseSlot]
    split
    · rfl
    · dsimp only
      split_ifs
      · rfl
      · exact modifyDongle_running _
  cases op with
  | register a => exact (register_running a).trans h
  | unregister serial caller => exact unregister_running.trans h
  | addWindow serial caller w =>
    rw [begin, addWindow]
    split
    · exact h
    · exact (modifyDongle_running _).trans h
  | removeWindows serial caller =>
    rw [begin, removeWindows]
    split
    · exact h
    · exact (modifyDongle_running _).trans h
  | lock serial caller =>
    rw [begin, lock]
    split
    · exact h
    · split_ifs
      · exact (modifyDongle_running _).trans h
      · exact h
  | unlock serial caller =>
    rw [begin, unlock]
    split
    · exact h
    · exact (modifyDongle_running _).trans h
  | dongleReleased serial caller generation | suspend serial caller generation =>
    exact (hrel _ _ _ _).trans h
  | resume serial caller registrationId =>
    rw [begin, resume]
    split
    · exact h
    · split_ifs
      · exact (modifyDongle_running _).trans h
      · exact h
  | stop => exact stopFrom_running

theorem running_proceed (h : s.running = false) (visit : List String) (pc : CallPc) :
    (s.proceed visit pc).1.running = false := by
  cases pc with
  | registering m lease => exact (finishMove_running m).trans ((releaseLease_running _).trans h)
  | unregistering serial caller ref lease =>
    exact (finishUnregister_running _).trans ((releaseLease_running _).trans h)
  | stopping start todo lease =>
    rw [proceed, finishStopping]
    split_ifs
    · exact (releaseLease_running _).trans h
    all_goals exact stopFrom_running.trans ((releaseLease_running _).trans h)
  | releasing lease => exact h

/-! ## Parts of a call -/

theorem Part.nextLease {p : Scheduler × Progress} (h : s.Part p) : p.1.nextLease = s.nextLease := by
  rcases h.2 with ⟨hs, -⟩ | ⟨k, c, lease, ht, -⟩
  · exact hs.nextLease
  · exact ht.nextLease

theorem Part.released {p : Scheduler × Progress} (h : s.Part p) : p.1.released = s.released := by
  rcases h.2 with ⟨hs, -⟩ | ⟨k, c, lease, ht, -⟩
  · exact hs.released
  · exact ht.released

theorem storeSlot_progress {pc : CallPc} :
    (s.storeSlot r canonicalId storageKey).2 ≠ .waits pc := by
  rw [storeSlot]
  split <;> exact Progress.noConfusion

/-- Only `stop` becomes a walk over the dongles. -/
theorem stop_of_begin {op : Op} {l : Option Lease}
    (h : (s.begin op).2 = .waits (.stopping start todo l)) : op = .stop := by
  have hrel : ∀ lease : Option Lease, (lease.elim Progress.returned fun lease =>
      .waits (.releasing lease)) ≠ .waits (.stopping start todo l) := by
    rintro (- | lease) hl <;> cases hl
  cases op with
  | stop => rfl
  | register a =>
    rw [begin, register] at h
    split_ifs at h
    · rw [registerSlot] at h
      dsimp only at h
      rw [registerAt] at h
      split at h
      · exact absurd h storeSlot_progress
      · dsimp only at h
        split_ifs at h
        · split at h
          · cases h
          · exact absurd h storeSlot_progress
        · exact absurd h storeSlot_progress
  | unregister serial caller =>
    rw [begin, unregister] at h
    split at h
    · cases h
    · split_ifs at h
      · split at h <;> cases h
      · cases h
  | dongleReleased serial caller generation | suspend serial caller generation =>
    exact absurd h (hrel _)
  | _ => cases h

theorem stopping_of_proceed {visit : List String} {pc : CallPc} {l : Option Lease}
    (h : (s.proceed visit pc).2 = .waits (.stopping start todo l)) :
    ∃ start' todo' l', pc = .stopping start' todo' l' := by
  cases pc with
  | stopping start' todo' l' => exact ⟨start', todo', l', rfl⟩
  | registering m lease => exact absurd h storeSlot_progress
  | unregistering serial caller ref lease => cases h
  | releasing lease => cases h

/-! ## The walk over the dongles -/

/-- Of the dongles of `start`, those that are not left to do have no holder. -/
def Walked (s : Scheduler) (start todo : List String) : Prop :=
  ∀ k ∈ start, k ∉ todo → s.holderAt k = none

theorem Walked.skip {key : String} (h : s.Walked start (key :: todo)) (hk : s.holderAt key = none) :
    s.Walked start todo := fun k hk' hnot => by
  rcases eq_or_ne k key with rfl | hne
  · exact hk
  · exact h k hk' (by simp [hne, hnot])

/-- How a part of the walk ends: it is over, or at one of the dongles it began with. -/
def WalkEnds (start : List String) : Scheduler × Progress → Prop
  | (s, .returned) => ∀ k ∈ start, s.holderAt k = none
  | (s, .waits (.stopping start' todo _)) => start' = start ∧ s.Walked start todo
  | _ => False

theorem walkEnds_stopFrom (h : s.Good hands) (hname : ∀ k, s.holderAt k ≠ some "")
    (hw : s.Walked start todo) : WalkEnds start (s.stopFrom start todo) := by
  induction todo with
  | nil => exact fun k hk => hw k hk not_mem_nil
  | cons key todo ih =>
    rw [stopFrom]
    split
    · rename_i hd
      exact ih (hw.skip (by rw [holderAt, hd]; rfl))
    rename_i d hd
    have hat := holderAt_eq hd
    split
    · rename_i hh
      exact ih (hw.skip (hat.trans hh))
    rename_i holder hh
    split_ifs with hempty
    · exact absurd (hat.trans (hempty ▸ hh)) (hname key)
    · obtain ⟨s', lease, heq, ht, hr⟩ := doYield_holder h (dongle?_of_get? hd) hh ""
      rw [heq]
      refine ⟨rfl, Walked.skip (fun k hk hnot => hr.holder k (hw k hk hnot)) ?_⟩
      rw [ht.holder_after, if_pos rfl]

/-- No dongle is held under the empty name. -/
def namedHolders (s : Scheduler) : Bool := s.dongles.values.all (·.currentHolder ≠ some "")

theorem holderAt_ne_of_namedHolders (h : s.namedHolders = true) (k : String) :
    s.holderAt k ≠ some "" := by
  intro hk
  obtain ⟨d, hd, hh⟩ := Option.bind_eq_some_iff.1 hk
  have := List.all_eq_true.1 h d (Dict.mem_values.2 ⟨k, hd⟩)
  exact of_decide_eq_true this hh

/-- The scheduler has stopped, and no dongle has a holder. -/
structure WoundDown (s : Scheduler) : Prop where
  stopped : s.running = false
  holder : ∀ k, s.holderAt k = none

theorem holderAt_of_not_mem_keys {k : String} (h : k ∉ s.dongles.keys) : s.holderAt k = none := by
  rcases hd : s.dongles.get? k with - | d
  · rw [holderAt, hd]
    rfl
  · exact absurd (Dict.mem_keys.2 ⟨d, hd⟩) h

namespace WalkEnds

variable {p : Scheduler × Progress}

theorem not_raised (h : WalkEnds start p) : p.2 ≠ .raised := by
  obtain ⟨s', progress⟩ := p
  rintro rfl
  exact h

theorem walked (h : WalkEnds start p) {start' : List String} {l : Option Lease}
    (hp : p.2 = .waits (.stopping start' todo l)) : p.1.Walked start' todo := by
  obtain ⟨s', progress⟩ := p
  obtain rfl : progress = .waits (.stopping start' todo l) := hp
  obtain ⟨rfl, hw⟩ := h
  exact hw

/-- A walk over all the dongles of the table ends with the scheduler wound down. -/
theorem woundDown (h : WalkEnds s.dongles.keys p) (hr : s.Recedes p.1)
    (hstop : p.1.running = false) (hp : p.2 = .returned) : p.1.WoundDown := by
  obtain ⟨s', progress⟩ := p
  obtain rfl : progress = .returned := hp
  refine ⟨hstop, fun k => ?_⟩
  by_cases hk : k ∈ s.dongles.keys
  · exact h k hk
  · exact hr.holder k (holderAt_of_not_mem_keys hk)

end WalkEnds

theorem walkEnds_stop (h : s.Good hands) (hname : s.namedHolders = true) :
    WalkEnds s.dongles.keys s.stop := by
  have hs : s.Steady { s with running := false } := .of_eq rfl rfl rfl rfl rfl
  exact walkEnds_stopFrom (h.steady hs) (holderAt_ne_of_namedHolders hname) fun k hk hnot =>
    absurd hk hnot

theorem walkEnds_finishStopping (h : s.Good hands) (hkeys : s.dongles.keys = start)
    (hname : s.namedHolders = true) (hw : s.Walked start todo) (visit : List String) :
    WalkEnds start (s.finishStopping start todo visit) := by
  rw [finishStopping, if_neg (by simp [hkeys]), if_pos hkeys]
  exact walkEnds_stopFrom h (holderAt_ne_of_namedHolders hname) hw

/-- The walk of a `stop` that goes on finds the table with the keys it began
    with, and no dongle held under the empty name. -/
def keepsWalk (s : Scheduler) : CallPc → Bool
  | .stopping start _ _ => s.dongles.keys = start && s.namedHolders
  | _ => true

end Scheduler

/-! ## Callbacks -/

/-- The leases for which `acquire_cb` has returned, those for which `yield_cb`
    has run, and those that their callers have handed back. -/
structure Callbacks where
  acquired : List ℕ := []
  yielded : List ℕ := []
  handedBack : List ℕ := []

namespace Callbacks

/-- `yield_cb` has run for the lease. -/
def yield (c : Callbacks) (lease : Option Lease) : Callbacks :=
  { c with yielded := (lease.map (·.id)).toList ++ c.yielded }

/-- The thread goes on from where it waits. -/
def ofThread (c : Callbacks) (callbackOk : Bool) : ThreadPc → Callbacks
  | .granting _ lease => if callbackOk then { c with acquired := lease.id :: c.acquired } else c
  | .yielding _ lease _ => c.yield lease
  | .discarding lease => c.yield (some lease)
  | _ => c

/-- A call goes on. -/
def ofCall (c : Callbacks) : CallPc → Callbacks
  | .registering _ lease => c.yield lease
  | .unregistering _ _ _ lease => c.yield lease
  | .stopping _ _ lease => c.yield lease
  | .releasing lease => { c with handedBack := lease.id :: c.handedBack }

/-- The lease has been taken back, by `yield_cb` or by its caller. -/
def Back (c : Callbacks) (id : ℕ) : Prop := id ∈ c.yielded ∨ id ∈ c.handedBack

variable {c : Callbacks} {id : ℕ}

theorem back_yield {lease : Option Lease} (h : c.Back id) : (c.yield lease).Back id :=
  h.imp_left (mem_append_right _)

theorem back_yield_self (lease : Lease) : (c.yield (some lease)).Back lease.id :=
  .inl mem_cons_self

theorem back_ofThread {callbackOk : Bool} {pc : ThreadPc} (h : c.Back id) :
    (c.ofThread callbackOk pc).Back id := by
  cases pc with
  | granting a lease =>
    rw [ofThread]
    split_ifs <;> exact h
  | yielding ref lease next | discarding lease => exact back_yield h
  | _ => exact h

theorem back_ofCall {pc : CallPc} (h : c.Back id) : (c.ofCall pc).Back id := by
  cases pc with
  | releasing lease => exact h.imp_right (mem_cons_of_mem _)
  | _ => exact back_yield h

/-- A call that goes on takes its lease back. -/
theorem back_ofCall_self {pc : CallPc} {lease : Lease} (h : pc.lease = some lease) :
    (c.ofCall pc).Back lease.id := by
  cases pc with
  | releasing l =>
    cases h
    exact .inr mem_cons_self
  | registering m l | unregistering serial caller ref l | stopping start todo l =>
    obtain rfl : l = some lease := h
    exact back_yield_self lease

theorem acquired_ofCall {pc : CallPc} : (c.ofCall pc).acquired = c.acquired := by cases pc <;> rfl

/-- Only an `acquire_cb` that returns adds a lease. -/
theorem acquired_ofThread {callbackOk : Bool} {pc : ThreadPc}
    (h : id ∈ (c.ofThread callbackOk pc).acquired) :
    id ∈ c.acquired ∨
      ∃ a lease, pc = .granting a lease ∧ callbackOk = true ∧ lease.id = id := by
  cases pc with
  | granting a lease =>
    rw [ofThread] at h
    split_ifs at h with hok
    · rcases mem_cons.1 h with rfl | h
      · exact .inr ⟨a, lease, rfl, hok, rfl⟩
      · exact .inl h
    · exact .inl h
  | _ => exact .inl h

end Callbacks

namespace System

variable {s s' : System} {e : Event}

/-- How the part of a `stop` that the step runs ends. -/
def stopProgress (s : System) : Event → Option Progress
  | .call _ .stop => some s.scheduler.stop.2
  | .proceed id visit =>
    match s.calls.get? id with
    | some (.stopping start todo lease) =>
      some (s.scheduler.proceed visit (.stopping start todo lease)).2
    | _ => none
  | _ => none

/-- The step runs a part of a `stop` that returns. -/
def stopReturns (s : System) (e : Event) : Bool :=
  match s.stopProgress e with
  | some .returned => true
  | _ => false

/-- The step runs a part of a `stop` that raises. -/
def stopRaises (s : System) (e : Event) : Bool :=
  match s.stopProgress e with
  | some .raised => true
  | _ => false

/-- What is known of the callbacks after the step. -/
def observe (s : System) (c : Callbacks) : Event → Callbacks
  | .resumeThread _ callbackOk _ => c.ofThread callbackOk s.thread
  | .proceed id _ => (s.calls.get? id).elim c c.ofCall
  | _ => c

variable (p : System × Callbacks)

/-- The effect of an event on the system and on what is observed of it. -/
def observedNext (e : Event) : Option (System × Callbacks) :=
  (p.1.next e).map fun s => (s, p.1.observe p.2 e)

/-- The system under observation. -/
def observed (managed : List ManagedDongle) (weatherOverrideLock : Bool) :
    Transition (System × Callbacks) Event :=
  .ofNext (· = (⟨.new managed weatherOverrideLock, .idle, ∅⟩, {})) observedNext

/-- The step does not disturb the walk of a `stop`: the table has the keys the
    walk began with, and no dongle is held under the empty name. -/
def KeepsWalk (s : System) : Event → Prop
  | .call _ .stop => s.scheduler.namedHolders = true
  | .proceed id _ => (s.calls.get? id).all s.scheduler.keepsWalk = true
  | _ => True

/-- The steps considered: no active slot is removed or replaced, and no walk disturbed. -/
def Orderly (e : Event) : Prop := p.1.KeepsActive e ∧ p.1.KeepsWalk e

/-- No slot is active or has a lease; every lease is released or in the hands of
    a call that is about to release it; and so are the leases for which
    `acquire_cb` has returned and that have not been taken back. -/
structure AllReleased (s : System) (c : Callbacks) : Prop where
  slot : ∀ key d caller x, s.scheduler.dongles.get? key = some d →
    d.slots.get? caller = some x → x.isActive = false ∧ x.deviceLease = none
  lease : ∀ id < s.scheduler.nextLease, id ∈ s.scheduler.released ∨
    ∃ i pc lease, s.calls.get? i = some pc ∧ pc.lease = some lease ∧ lease.id = id
  callback : ∀ id ∈ c.acquired, c.Back id ∨
    ∃ i pc lease, s.calls.get? i = some pc ∧ pc.lease = some lease ∧ lease.id = id

/-! ## The invariant -/

/-- The lease is out: issued, not released, and not waiting for its `acquire_cb`. -/
structure Out (s : System) (id : ℕ) : Prop where
  issued : id < s.scheduler.nextLease
  unreleased : id ∉ s.scheduler.released
  unclaimed : ∀ lease, s.thread.claimed = some lease → lease.id ≠ id

/-- The leases are in order, those for which `acquire_cb` has returned are out
    until they are taken back, and the walks have no holders behind them. -/
structure Ready : Prop where
  inv : p.1.Inv
  out : ∀ id ∈ p.2.acquired, p.2.Back id ∨ p.1.Out id
  walk : ∀ i start todo l, p.1.calls.get? i = some (.stopping start todo l) →
    p.1.scheduler.running = false ∧ p.1.scheduler.Walked start todo

/-! ## Steps -/

theorem next_evaluate {key : String} {now : Clock} (h : s.next (.evaluate key now) = some s') :
    s.thread = .idle ∧ s' = { s with
      scheduler := (s.scheduler.evaluate key now).1, thread := (s.scheduler.evaluate key now).2 } := by
  rw [next] at h
  split_ifs at h with hidle
  exact ⟨hidle, (Option.some.inj h).symm⟩

theorem next_resumeThread {outcome : ClaimOutcome} {callbackOk : Bool} {now : Clock}
    (h : s.next (.resumeThread outcome callbackOk now) = some s') :
    s' = { s with
      scheduler := (s.scheduler.resumeThread s.thread outcome callbackOk now).1
      thread := (s.scheduler.resumeThread s.thread outcome callbackOk now).2 } := by
  rw [next] at h
  split_ifs at h
  exact (Option.some.inj h).symm

variable {id : ℕ}

theorem next_call {op : Op} (h : s.next (.call id op) = some s') :
    s.calls.get? id = none ∧ s' = { s with
      scheduler := (s.scheduler.begin op).1
      calls := record s.calls id (s.scheduler.begin op).2 } := by
  rw [next] at h
  split at h
  · cases h
  · rename_i hnone
    exact ⟨hnone, (Option.some.inj h).symm⟩

theorem next_proceed {visit : List String} (h : s.next (.proceed id visit) = some s') :
    ∃ pc, s.calls.get? id = some pc ∧ s' = { s with
      scheduler := (s.scheduler.proceed visit pc).1
      calls := record s.calls id (s.scheduler.proceed visit pc).2 } := by
  rw [next] at h
  split at h
  · cases h
  · rename_i pc hpc
    exact ⟨pc, hpc, (Option.some.inj h).symm⟩

/-- The call that begins is a part of one. -/
theorem Inv.part_begin (h : s.Inv) {op : Op} (hk : s.KeepsActive (.call id op)) :
    s.scheduler.Part (s.scheduler.begin op) := by
  refine Scheduler.part_begin h.good ?_
  rintro a rfl
  exact hk

theorem Inv.good_proceed (h : s.Inv) {pc : CallPc} (hpc : s.calls.get? id = some pc) :
    s.scheduler.Good (Function.update s.hands (.call id) pc.lease) := by
  rw [update_hands_call (by rw [hpc]; rfl)]
  exact h.good

theorem Inv.part_proceed (h : s.Inv) {visit : List String} {pc : CallPc}
    (hk : s.KeepsActive (.proceed id visit)) (hpc : s.calls.get? id = some pc) :
    (s.scheduler.releaseLease pc.lease).Part (s.scheduler.proceed visit pc) := by
  rw [KeepsActive, hpc, Option.all_some] at hk
  exact Scheduler.part_proceed (h.good_proceed hpc) hk

/-- A step leaves a stopped scheduler stopped, and makes no holder then. -/
theorem Inv.settles (h : s.Inv) (hk : s.KeepsActive e) (hs : s.next e = some s')
    (hstop : s.scheduler.running = false) :
    s'.scheduler.running = false ∧
      ∀ k, s.scheduler.holderAt k = none → s'.scheduler.holderAt k = none := by
  cases e with
  | evaluate key now =>
    obtain ⟨-, rfl⟩ := next_evaluate hs
    have hw : s.scheduler.Winds (fun _ => False) (s.scheduler.evaluate key now).1 :=
      (Scheduler.unwinds_evaluate key).1
    exact ⟨hw.running hstop, hw.holder hstop⟩
  | resumeThread outcome callbackOk now =>
    obtain rfl := next_resumeThread hs
    have hw : s.scheduler.Winds _ (s.scheduler.resumeThread s.thread outcome callbackOk now).1 :=
      (Scheduler.unwinds_resumeThread s.thread outcome callbackOk).1
    exact ⟨hw.running hstop, hw.holder hstop⟩
  | call id op =>
    obtain ⟨-, rfl⟩ := next_call hs
    exact ⟨Scheduler.running_begin hstop op, (h.part_begin hk).1.holder⟩
  | proceed id visit =>
    obtain ⟨pc, hpc, rfl⟩ := next_proceed hs
    have hr := (Scheduler.recedes_releaseLease pc.lease).trans (h.part_proceed hk hpc).1
    exact ⟨Scheduler.running_proceed hstop visit pc, hr.holder⟩

/-- A lease that is out stays out in a step of the thread that may not release it. -/
theorem Out.winds {L : ℕ → Prop} {r : Scheduler × ThreadPc}
    (hlt : id < s.scheduler.nextLease) (hrel : id ∉ s.scheduler.released)
    (hw : s.scheduler.Winds L r.1) (hL : ¬L id)
    (hclaimed : ∀ lease, r.2.claimed = some lease → lease.id = s.scheduler.nextLease) :
    Out { s with scheduler := r.1, thread := r.2 } id where
  issued := hlt.trans_le hw.next_le
  unreleased hid := (hw.released id hid).elim hrel hL
  unclaimed lease hlease := by
    rw [hclaimed lease hlease]
    exact hlt.ne'

/-- The thread takes back a lease that it may release, or has it still claimed. -/
theorem Out.resumeThread (h : s.Out id) (c : Callbacks) (outcome : ClaimOutcome)
    (callbackOk : Bool) (now : Clock) : (c.ofThread callbackOk s.thread).Back id ∨ Out { s with
      scheduler := (s.scheduler.resumeThread s.thread outcome callbackOk now).1
      thread := (s.scheduler.resumeThread s.thread outcome callbackOk now).2 } id := by
  obtain ⟨hw, hclaimed⟩ :
      s.scheduler.Winds _ (s.scheduler.resumeThread s.thread outcome callbackOk now).1 ∧ _ :=
    Scheduler.unwinds_resumeThread s.thread outcome callbackOk
  by_cases hL : s.scheduler.MayRelease s.thread callbackOk id
  · left
    rcases hL with rfl | ⟨lease, hlease, rfl, -⟩
    · exact absurd h.issued (lt_irrefl _)
    have hun := h.unclaimed lease
    revert hun hlease
    cases s.thread with
    | yielding ref l next =>
      intro hlease _
      obtain rfl : l = some lease := hlease
      exact Callbacks.back_yield_self lease
    | discarding l =>
      intro hlease _
      obtain rfl := Option.some.inj hlease
      exact Callbacks.back_yield_self l
    | dropping l | granting a l => exact fun hlease hun => absurd rfl (hun hlease)
    | _ => exact fun hlease => by cases hlease
  · exact .inr (.winds h.issued h.unreleased hw hL hclaimed)

/-- A lease whose `acquire_cb` returns is out then. -/
theorem Inv.out_granting (h : s.Inv) {a : Acquisition} {lease : Lease}
    (hpc : s.thread = .granting a lease) (outcome : ClaimOutcome) (now : Clock) :
    Out { s with
      scheduler := (s.scheduler.resumeThread s.thread outcome true now).1
      thread := (s.scheduler.resumeThread s.thread outcome true now).2 } lease.id := by
  obtain ⟨hw, hclaimed⟩ :
      s.scheduler.Winds _ (s.scheduler.resumeThread s.thread outcome true now).1 ∧ _ :=
    Scheduler.unwinds_resumeThread s.thread outcome true
  have hhand : (s.scheduler.ledger s.hands).holds (.hand .thread) = some lease.id := by
    simp [Scheduler.ledger, hands, hpc, ThreadPc.lease]
  obtain ⟨hlt, hrel⟩ := h.good.ledger.placed _ _ hhand
  refine .winds hlt hrel hw (fun hL => ?_) hclaimed
  rcases hL with heq | ⟨l, hl, -, hok⟩
  · exact absurd hlt heq.not_lt
  · rw [hpc] at hl hok
    cases hl
    exact absurd (hok a rfl) (by simp)

/-- A part of a call releases no other lease than the call had in its hands. -/
theorem Out.part {i : ℕ} (h : s.Out id) {l : Option Lease} {r : Scheduler × Progress}
    (hp : (s.scheduler.releaseLease l).Part r) (hl : ∀ lease, l = some lease → lease.id ≠ id) :
    Out { s with scheduler := r.1, calls := record s.calls i r.2 } id where
  issued := by
    rw [hp.nextLease]
    cases l <;> exact h.issued
  unreleased := by
    rw [hp.released]
    cases l with
    | none => exact h.unreleased
    | some lease => exact fun hid => (mem_cons.1 hid).elim (hl lease rfl ·.symm) h.unreleased
  unclaimed := h.unclaimed

/-- A lease that is out is so after the step, or is taken back in it. -/
theorem Inv.out_or_back (h : s.Inv) (hk : s.KeepsActive e) (hs : s.next e = some s')
    (ho : s.Out id) (c : Callbacks) : (s.observe c e).Back id ∨ s'.Out id := by
  cases e with
  | evaluate key now =>
    obtain ⟨-, rfl⟩ := next_evaluate hs
    obtain ⟨hw, hnone⟩ : s.scheduler.Unwinds (fun _ => False) (s.scheduler.evaluate key now) :=
      Scheduler.unwinds_evaluate key
    refine .inr (.winds ho.issued ho.unreleased hw not_false fun lease hlease => ?_)
    cases hnone.symm.trans hlease
  | resumeThread outcome callbackOk now =>
    obtain rfl := next_resumeThread hs
    exact ho.resumeThread c outcome callbackOk now
  | call i op =>
    obtain ⟨-, rfl⟩ := next_call hs
    exact .inr (.part (l := none) ho (h.part_begin hk) fun _ hl => by cases hl)
  | proceed i visit =>
    obtain ⟨pc, hpc, rfl⟩ := next_proceed hs
    by_cases hl : ∃ lease, pc.lease = some lease ∧ lease.id = id
    · obtain ⟨lease, hlease, rfl⟩ := hl
      rw [observe, hpc]
      exact .inl (Callbacks.back_ofCall_self hlease)
    · exact .inr (ho.part (h.part_proceed hk hpc) fun lease hlease hid =>
        hl ⟨lease, hlease, hid⟩)

/-- The leases for which `acquire_cb` returns in a step are out after it. -/
theorem Inv.out_of_acquired (h : s.Inv) (hs : s.next e = some s') {c : Callbacks}
    (hid : id ∈ (s.observe c e).acquired) : id ∈ c.acquired ∨ s'.Out id := by
  cases e with
  | evaluate key now | call i op => exact .inl hid
  | resumeThread outcome callbackOk now =>
    obtain rfl := next_resumeThread hs
    refine (Callbacks.acquired_ofThread hid).imp_right fun ⟨a, lease, hpc, hok, hl⟩ => ?_
    subst hok hl
    exact h.out_granting hpc outcome now
  | proceed i visit =>
    obtain ⟨pc, hpc, rfl⟩ := next_proceed hs
    rw [observe, hpc] at hid
    exact .inl (Callbacks.acquired_ofCall ▸ hid)

theorem back_observe {c : Callbacks} (h : c.Back id) : (s.observe c e).Back id := by
  cases e with
  | resumeThread outcome callbackOk now => exact Callbacks.back_ofThread h
  | proceed i visit =>
    rw [observe]
    cases s.calls.get? i with
    | none => exact h
    | some pc => exact Callbacks.back_ofCall h
  | _ => exact h

/-- Where a call stands after a part of one of the calls. -/
theorem get?_record {calls : Dict ℕ CallPc} {i j : ℕ} {p : Progress} {pc : CallPc}
    (h : (record calls i p).get? j = some pc) : p = .waits pc ∨ calls.get? j = some pc := by
  cases p with
  | waits pc' =>
    rw [record, Dict.get?_set] at h
    split_ifs at h
    · exact .inl (congrArg _ (Option.some.inj h))
    · exact .inr h
  | _ =>
    rw [record, Dict.get?_erase] at h
    · split_ifs at h
      exact .inr h
    · exact fun _ => Progress.noConfusion

variable {p p' : System × Callbacks}

/-- A walk that goes on ends as it should. -/
theorem Ready.walkEnds_proceed (h : Ready p) {i : ℕ} {visit start todo : List String}
    {l : Option Lease} (hk : p.1.KeepsWalk (.proceed i visit))
    (hpc : p.1.calls.get? i = some (.stopping start todo l)) :
    Scheduler.WalkEnds start (p.1.scheduler.proceed visit (.stopping start todo l)) ∧
      (p.1.scheduler.releaseLease l).dongles.keys = start := by
  rw [KeepsWalk, hpc, Option.all_some] at hk
  obtain ⟨hkeys, hname⟩ := Bool.and_eq_true_iff.1 hk
  have hd : (p.1.scheduler.releaseLease l).dongles = p.1.scheduler.dongles := by cases l <;> rfl
  have hkeys' : (p.1.scheduler.releaseLease l).dongles.keys = start := by
    rw [hd]
    exact of_decide_eq_true hkeys
  refine ⟨Scheduler.walkEnds_finishStopping (h.inv.good_proceed hpc).release hkeys' ?_ ?_ visit,
    hkeys'⟩
  · change (p.1.scheduler.releaseLease l).namedHolders = true
    rw [Scheduler.namedHolders, hd]
    exact hname
  · exact fun k hk hnot =>
      (Scheduler.recedes_releaseLease l).holder k ((h.walk i start todo l hpc).2 k hk hnot)

theorem observedNext_eq (h : observedNext p e = some p') :
    p.1.next e = some p'.1 ∧ p'.2 = p.1.observe p.2 e := by
  obtain ⟨s, hs, rfl⟩ := Option.map_eq_some_iff.1 h
  exact ⟨hs, rfl⟩

/-- A step leaves no holder behind a walk. -/
theorem Ready.walk_next (h : Ready p) (hk : Orderly p e) (hs : p.1.next e = some s') {i : ℕ}
    {start todo : List String} {l : Option Lease}
    (hpc : s'.calls.get? i = some (.stopping start todo l)) :
    s'.scheduler.running = false ∧ s'.scheduler.Walked start todo := by
  have hold : p.1.calls.get? i = some (.stopping start todo l) →
      s'.scheduler.running = false ∧ s'.scheduler.Walked start todo := fun hi => by
    obtain ⟨hstop, hw⟩ := h.walk i start todo l hi
    obtain ⟨hstop', hholder⟩ := h.inv.settles hk.1 hs hstop
    exact ⟨hstop', fun k hk hnot => hholder k (hw k hk hnot)⟩
  cases e with
  | evaluate key now =>
    obtain ⟨-, rfl⟩ := next_evaluate hs
    exact hold hpc
  | resumeThread outcome callbackOk now =>
    obtain rfl := next_resumeThread hs
    exact hold hpc
  | call j op =>
    obtain ⟨-, rfl⟩ := next_call hs
    refine (get?_record hpc).elim (fun hp => ?_) hold
    obtain rfl := Scheduler.stop_of_begin hp
    exact ⟨Scheduler.stopFrom_running, (Scheduler.walkEnds_stop h.inv.good hk.2).walked hp⟩
  | proceed j visit =>
    obtain ⟨pc, hj, rfl⟩ := next_proceed hs
    refine (get?_record hpc).elim (fun hp => ?_) hold
    obtain ⟨start', todo', l', rfl⟩ := Scheduler.stopping_of_proceed hp
    exact ⟨Scheduler.running_proceed (h.walk j _ _ _ hj).1 visit _,
      (h.walkEnds_proceed hk.2 hj).1.walked hp⟩

theorem Ready.next (h : Ready p) (hk : Orderly p e) (hs : observedNext p e = some p') :
    Ready p' := by
  obtain ⟨hnext, hobs⟩ := observedNext_eq hs
  refine ⟨inv_next h.inv hk.1 hnext, fun id hid => ?_, fun i start todo l => h.walk_next hk hnext⟩
  rw [hobs] at hid ⊢
  rcases h.inv.out_of_acquired hnext hid with hid | hout
  · rcases h.out id hid with hback | hout
    · exact .inl (back_observe hback)
    · exact h.inv.out_or_back hk.1 hnext hout p.2
  · exact .inr hout

theorem ready_of_reach {managed : List ManagedDongle} {override : Bool}
    (h : (observed managed override).Reach Orderly p) : Ready p := by
  refine Transition.Reach.induction (I := Ready) (fun p hp => ?_)
    (fun p e p' hp hk hs => hp.next hk hs) h
  obtain rfl : p = (⟨.new managed override, .idle, ∅⟩, {}) := hp
  refine ⟨inv_of_reach (.init rfl), fun id hid => ?_, fun i start todo l hi => ?_⟩
  · cases hid
  · cases hi

/-! ## The end of `stop` -/

theorem Ready.stopProgress_ends (h : Ready p) (hk : Orderly p e)
    (hs : observedNext p e = some p') :
    p.1.stopProgress e ≠ some .raised ∧
      (p.1.stopProgress e = some .returned → p'.1.scheduler.WoundDown) := by
  obtain ⟨hnext, -⟩ := observedNext_eq hs
  cases e with
  | evaluate key now | resumeThread outcome callbackOk now => exact ⟨nofun, nofun⟩
  | call i op =>
    obtain ⟨-, heq⟩ := next_call hnext
    cases op with
    | stop =>
      have hends := Scheduler.walkEnds_stop h.inv.good hk.2
      rw [heq, stopProgress]
      refine ⟨fun hp => hends.not_raised (Option.some.inj hp), fun hp => ?_⟩
      exact hends.woundDown (Scheduler.part_stop h.inv.good).1 Scheduler.stopFrom_running
        (Option.some.inj hp)
    | _ => exact ⟨nofun, nofun⟩
  | proceed i visit =>
    obtain ⟨pc, hpc, heq⟩ := next_proceed hnext
    rw [stopProgress, hpc, heq]
    cases pc with
    | stopping start todo l =>
      obtain ⟨hends, rfl⟩ := h.walkEnds_proceed hk.2 hpc
      refine ⟨fun hp => hends.not_raised (Option.some.inj hp), fun hp => ?_⟩
      exact hends.woundDown (h.inv.part_proceed hk.1 hpc).1
        (Scheduler.running_proceed (h.walk i _ _ _ hpc).1 visit _) (Option.some.inj hp)
    | _ => exact ⟨nofun, nofun⟩

/-- A part of a `stop` does not raise, and where it returns, no dongle has a holder. -/
theorem Ready.stop_ends (h : Ready p) (hk : Orderly p e) (hs : observedNext p e = some p') :
    p.1.stopRaises e = false ∧ (p.1.stopReturns e = true → p'.1.scheduler.WoundDown) := by
  obtain ⟨hraised, hreturned⟩ := h.stopProgress_ends hk hs
  refine ⟨?_, fun hret => hreturned ?_⟩
  · rw [stopRaises]
    split
    · exact absurd ‹_› hraised
    · rfl
  · rw [stopReturns] at hret
    split at hret
    · assumption
    · cases hret

theorem Ready.woundDown_next (h : Ready p) (hk : Orderly p e) (hs : observedNext p e = some p')
    (hd : p.1.scheduler.WoundDown) : p'.1.scheduler.WoundDown := by
  obtain ⟨hstop, hholder⟩ := h.inv.settles hk.1 (observedNext_eq hs).1 hd.stopped
  exact ⟨hstop, fun k => hholder k (hd.holder k)⟩

/-- In a scheduler wound down whose thread is idle, the only leases still out
    are in the hands of calls. -/
theorem Ready.allReleased (h : Ready p) (hd : p.1.scheduler.WoundDown)
    (hidle : p.1.thread = .idle) : p.1.AllReleased p.2 := by
  have hgrip : ∀ k c, p.1.scheduler.gripAt k c = .idle := fun k c => by
    have hheld := h.inv.good.held k
    rw [hd.holder k] at hheld
    exact hheld.of_none c
  -- No slot has a lease, nor has the thread.
  have hcall : ∀ id < p.1.scheduler.nextLease, id ∉ p.1.scheduler.released →
      ∃ i pc lease, p.1.calls.get? i = some pc ∧ pc.lease = some lease ∧ lease.id = id := by
    intro id hlt hrel
    obtain ⟨place, hplace, -⟩ := h.inv.good.ledger.existsUnique hlt hrel
    rcases place with ⟨k, c⟩ | (- | i)
    · simp [Scheduler.ledger, hgrip, Grip.idle] at hplace
    · simp [Scheduler.ledger, hands, hidle, ThreadPc.lease] at hplace
    · obtain ⟨lease, hl, rfl⟩ := Option.map_eq_some_iff.1 hplace
      obtain ⟨pc, hpc, hl⟩ := Option.bind_eq_some_iff.1 hl
      exact ⟨i, pc, lease, hpc, hl, rfl⟩
  refine ⟨fun key d caller x hdongle hx => ?_, fun id hlt => ?_, fun id hid => ?_⟩
  · have hx' := hgrip key caller
    rw [Scheduler.gripAt_eq hdongle, Dongle.grip, hx] at hx'
    exact ⟨congrArg Grip.active hx', congrArg Grip.lease hx'⟩
  · rw [or_iff_not_imp_left]
    exact hcall id hlt
  · exact (h.out id hid).imp_right fun hout => hcall id hout.issued hout.unreleased

/-- In every run in which no active slot is removed or replaced, and no walk of
    a `stop` is disturbed, a `stop` never raises; and ever after one has
    returned, whenever the thread has finished its step, every receiver is
    released but those that calls have in their hands. -/
theorem stop_releases {managed : List ManagedDongle} {override : Bool}
    (h : (observed managed override).Reach Orderly p) (hk : Orderly p e)
    (hs : observedNext p e = some p') :
    p.1.stopRaises e = false ∧
      (p.1.stopReturns e = true → ∀ q, (observed managed override).Leads Orderly p' q →
        q.1.thread = .idle → q.1.AllReleased q.2) := by
  have hready := ready_of_reach h
  refine ⟨(hready.stop_ends hk hs).1, fun hp q hq hidle => ?_⟩
  have hend : Ready q ∧ q.1.scheduler.WoundDown :=
    hq.invariant (I := fun q => Ready q ∧ q.1.scheduler.WoundDown)
      (fun _ _ _ h hk hs => ⟨h.1.next hk hs, h.1.woundDown_next hk hs h.2⟩)
      ⟨hready.next hk hs, (hready.stop_ends hk hs).2 hp⟩
  exact hend.1.allReleased hend.2 hidle

instance (s : System) : ∀ e, Decidable (s.KeepsWalk e)
  | .evaluate .. => inferInstanceAs (Decidable True)
  | .resumeThread .. => inferInstanceAs (Decidable True)
  | .call _ (.register _) => inferInstanceAs (Decidable True)
  | .call _ (.unregister ..) => inferInstanceAs (Decidable True)
  | .call _ (.addWindow ..) => inferInstanceAs (Decidable True)
  | .call _ (.removeWindows ..) => inferInstanceAs (Decidable True)
  | .call _ (.lock ..) => inferInstanceAs (Decidable True)
  | .call _ (.unlock ..) => inferInstanceAs (Decidable True)
  | .call _ (.dongleReleased ..) => inferInstanceAs (Decidable True)
  | .call _ (.suspend ..) => inferInstanceAs (Decidable True)
  | .call _ (.resume ..) => inferInstanceAs (Decidable True)
  | .call _ .stop => inferInstanceAs (Decidable (_ = true))
  | .proceed .. => inferInstanceAs (Decidable (_ = true))

instance (p : System × Callbacks) (e : Event) : Decidable (Orderly p e) :=
  inferInstanceAs (Decidable (_ ∧ _))

/-- A scheduler with two managed dongles. -/
def twoDongles : System := ⟨.new [{ serial := "A" }, { serial := "B" }] true, .idle, ∅⟩

/-- A receiver on the second one. -/
def secondReceiver : RegisterArgs :=
  { receiver with serial := "B", caller := "d", resolved := "serial:B" }

/-- The first receiver is granted its dongle, the second one is in its `acquire_cb`. -/
def grantingRun : List Event :=
  grantRun ++ [.call 0 (.register secondReceiver), .evaluate "B" ⟨0, 100⟩,
    .resumeThread (.granted ⟨1, "serial:B"⟩) true ⟨0, 100⟩]

/-- Then `stop` takes the dongle from the first one. -/
def stoppingRun : List Event := grantingRun ++ [.call 1 .stop]

/-- The thread goes on from the `acquire_cb` and then from the `yield_cb`. -/
def windingRun : List Event :=
  [.resumeThread .failed true ⟨0, 100⟩, .resumeThread .failed true ⟨0, 100⟩]

/-- `stop` returns, and the thread then finishes the grant it was in. -/
theorem stop_releases_granting : ∃ p q : System × Callbacks,
    (observed [{ serial := "A" }, { serial := "B" }] true).Reach Orderly p ∧
      p.1.stopReturns (.proceed 1 []) = true ∧ p.1.stopRaises (.proceed 1 []) = false ∧
      q.1.scheduler.nextLease = 2 ∧ q.2.acquired = [1, 0] ∧ q.1.AllReleased q.2 := by
  obtain ⟨p, hp, hk, hret, p', hp', q, hq, hidle, hnext, hacq⟩ :
      ∃ p ∈ stoppingRun.foldlM (fun p e => if Orderly p e then observedNext p e else none)
        (twoDongles, {}), Orderly p (.proceed 1 []) ∧ p.1.stopReturns (.proceed 1 []) = true ∧
          ∃ p' ∈ observedNext p (.proceed 1 []), ∃ q ∈ windingRun.foldlM (fun p e =>
            if Orderly p e then observedNext p e else none) p',
              q.1.thread = .idle ∧ q.1.scheduler.nextLease = 2 ∧ q.2.acquired = [1, 0] := by
    decide +kernel
  have hreach : (observed [{ serial := "A" }, { serial := "B" }] true).Reach Orderly p :=
    .foldlM (.init rfl) hp
  obtain ⟨hraised, hrel⟩ := stop_releases hreach hk hp'
  exact ⟨p, q, hreach, hret, hraised, hnext, hacq,
    hrel hret q (.foldlM_guarded hq) hidle⟩

/-- A receiver on a dongle the scheduler does not know yet. -/
def thirdReceiver : RegisterArgs :=
  { receiver with serial := "C", caller := "e", resolved := "serial:C" }

/-- Both receivers are granted their dongles, and one registers for another
    while `stop` waits for the first one to yield. -/
def disturbedRun : List Event :=
  grantingRun ++ windingRun ++ [.call 1 .stop, .call 2 (.register thirdReceiver)]

/-- The receiver hands its dongle back before the scheduler stops. -/
def handedBackRun : List Event :=
  grantRun ++ [.call 1 (.dongleReleased "A" "c" none), .proceed 1 []]

/-- A dongle that appears under the walk of `stop` makes it raise, and the lease
    of a slot that is still active is kept. And where a caller hands its dongle
    back, `stop` returns and no `yield_cb` has followed the `acquire_cb`. -/
theorem stop_leaves_receivers :
    (∃ p p' : System × Callbacks,
      (observed [{ serial := "A" }, { serial := "B" }] true).Reachable p ∧
        observedNext p (.proceed 1 []) = some p' ∧ p.1.stopRaises (.proceed 1 []) = true ∧
        p'.1.Quiescent ∧ 1 ∉ p'.1.scheduler.released ∧ p'.1.scheduler.HoldsLease "B" "d" 1) ∧
    ∃ p p' : System × Callbacks,
      (observed [{ serial := "A" }] true).Reachable p ∧ observedNext p (.call 1 .stop) = some p' ∧
        p.1.stopReturns (.call 1 .stop) = true ∧ p'.1.Quiescent ∧ 0 ∈ p'.2.acquired ∧
        0 ∉ p'.2.yielded := by
  constructor
  · obtain ⟨p, hp, hraises, p', hp', hidle, hcalls, hrel, d, hd, hh, x, hx, hactive, lease, hl, hid⟩ :
        ∃ p ∈ disturbedRun.foldlM observedNext (twoDongles, {}),
        p.1.stopRaises (.proceed 1 []) = true ∧ ∃ p' ∈ observedNext p (.proceed 1 []),
          p'.1.thread = .idle ∧ p'.1.calls.entries = [] ∧ p'.1.scheduler.released = [0] ∧
            ∃ d ∈ p'.1.scheduler.dongles.get? "B", d.currentHolder = some "d" ∧
              ∃ x ∈ d.slots.get? "d", x.isActive = true ∧
                ∃ lease ∈ x.deviceLease, lease.id = 1 := by
      decide +kernel
    refine ⟨p, p', .foldlM (.init rfl) hp, hp', hraises,
      ⟨hidle, hcalls⟩, ?_, d, x, lease, hd, hh, hx, hactive, hl, hid⟩
    rw [hrel]
    decide
  · obtain ⟨p, hp, hreturns, p', hp', hidle, hcalls, hacq, hyield⟩ :
        ∃ p ∈ handedBackRun.foldlM observedNext (oneDongle, {}),
        p.1.stopReturns (.call 1 .stop) = true ∧ ∃ p' ∈ observedNext p (.call 1 .stop),
          p'.1.thread = .idle ∧ p'.1.calls.entries = [] ∧ p'.2.acquired = [0] ∧
            p'.2.yielded = [] := by
      decide +kernel
    refine ⟨p, p', .foldlM (.init rfl) hp, hp', hreturns,
      ⟨hidle, hcalls⟩, ?_, ?_⟩
    · rw [hacq]
      decide
    · rw [hyield]
      decide

end System

end ReticulumPi.Sdr
