import ReticulumPi.Sdr.LockCoherence
import ReticulumPi.Sdr.TurnSteps

/-!
# Background receivers take turns

In every run whose steps keep the holders in their places (`KeepsTurn`), once
the slice of a background holder has run out `_pick_background` answers the
first unsuspended caller that cyclically follows it in the queue
(`background_takes_turns`). The steps left out are those that shift the
position, or the queue under it: a caller that stands before the holder leaves
the queue, one joins it when the position has run past its end, and an
evaluation moves the position on but the dongle does not change hands. Already
the first passes over a receiver whose turn it is (`background_skips_turn`).
-/

namespace ReticulumPi.Sdr

namespace Scheduler

variable {s : Scheduler} {ref : Ref} {caller serial key : String} {r : RegisterArgs} {now : Clock}

/-! ## Deciding the conditions -/

instance : Decidable (s.LeavesInTurn ref caller) := by
  unfold LeavesInTurn
  infer_instance

instance {storageKey : String} : Decidable (s.StoresInTurn r storageKey) := by
  unfold StoresInTurn
  infer_instance

instance {storageKey : String} : Decidable (s.ShiftsInTurn ref r storageKey) := by
  unfold ShiftsInTurn
  infer_instance

instance {storageKey : String} : Decidable (s.RegistersInTurn r storageKey) := by
  unfold RegistersInTurn
  split <;> infer_instance

instance : Decidable (s.UnregistersInTurn serial caller) := by
  unfold UnregistersInTurn
  infer_instance

instance {rid : ℕ} {canonicalId : String} :
    Decidable (s.MovesInTurn ref caller rid canonicalId) := by
  unfold MovesInTurn
  split <;> infer_instance

instance : Decidable (s.TurnsOver key now) := by
  unfold TurnsOver
  infer_instance

instance {op : Op} : Decidable (s.BeginsInTurn op) := by
  unfold BeginsInTurn
  split <;> infer_instance

instance {pc : CallPc} : Decidable (s.ProceedsInTurn pc) := by
  unfold ProceedsInTurn
  split <;> infer_instance

instance {outcome : ClaimOutcome} {pc : ThreadPc} : Decidable (s.ResumesInTurn outcome now pc) := by
  unfold ResumesInTurn PreflightMovesInTurn ClaimMovesInTurn
  split <;> infer_instance

end Scheduler

namespace System

variable {s s' : System} {e : Event} {managed : List ManagedDongle} {override : Bool}

/-- The step keeps the background holders in their places. -/
def KeepsTurn (s : System) : Event → Prop
  | .evaluate key now => s.scheduler.TurnsOver key now
  | .resumeThread outcome _ now => s.scheduler.ResumesInTurn outcome now s.thread
  | .call _ op => s.scheduler.BeginsInTurn op
  | .proceed id _ => ∀ pc ∈ s.calls.get? id, (s.scheduler.releaseLease pc.lease).ProceedsInTurn pc

instance : Decidable (s.KeepsTurn e) := by
  unfold KeepsTurn
  split <;> infer_instance

theorem inTurn_next (h : s.scheduler.InTurn s.thread) (hk : s.KeepsTurn e)
    (hs : s.next e = some s') : s'.scheduler.InTurn s'.thread := by
  cases e with
  | evaluate key now =>
    rw [next] at hs
    split_ifs at hs with hidle
    cases hs
    rw [hidle] at h
    exact Scheduler.inTurn_evaluate h hk
  | resumeThread outcome callbackOk now =>
    rw [next] at hs
    split_ifs at hs
    cases hs
    exact Scheduler.inTurn_resumeThread h hk
  | call id op =>
    rw [next] at hs
    split at hs
    · cases hs
    · cases hs
      exact h.keeps (Scheduler.keepsPlace_begin hk)
  | proceed id visit =>
    rw [next] at hs
    split at hs
    · cases hs
    · rename_i pc hpc
      cases hs
      exact h.keeps (Scheduler.keepsPlace_proceed (hk pc hpc))

theorem numbered_new (managed : List ManagedDongle) (override : Bool) :
    ∀ k d, (Scheduler.new managed override).dongles.get? k = some d →
      d.oid < (Scheduler.new managed override).nextOid := by
  rw [Scheduler.new]
  have hempty : ∀ k d, ({ weatherOverrideLock := override } : Scheduler).dongles.get? k = some d →
      d.oid < ({ weatherOverrideLock := override } : Scheduler).nextOid :=
    fun k d hd => by simp at hd
  generalize ({ weatherOverrideLock := override } : Scheduler) = s₀ at hempty
  induction managed generalizing s₀ with
  | nil => exact hempty
  | cons m managed ih =>
    refine ih _ fun k d hd => ?_
    rw [Scheduler.addManaged] at hd ⊢
    split_ifs at hd ⊢
    · exact hempty k d hd
    · rw [Dict.get?_set] at hd
      split_ifs at hd
      · cases hd
        exact Nat.lt_succ_self _
      · exact (hempty k d hd).trans (Nat.lt_succ_self _)

theorem inTurn_init : (Scheduler.new managed override).InTurn .idle where
  numbered ref d hd := by
    obtain ⟨hget, ho⟩ := Scheduler.dongle?_eq_some_iff.1 hd
    exact ho ▸ numbered_new managed override _ d hget
  holders ref d hd _ :=
    Dongle.inTurn_of_none (unused_new managed override _ d (Scheduler.get?_of_dongle? hd)).1
  awaits := trivial

theorem inTurn_of_reach (h : (transition managed override).Reach KeepsTurn s) :
    s.scheduler.InTurn s.thread := by
  refine Transition.Reach.induction (I := fun s => s.scheduler.InTurn s.thread) (fun s hs => ?_)
    (fun s e s' hI hk hs => inTurn_next hI hk hs) h
  obtain rfl := hs
  exact inTurn_init

/-- In every run whose steps keep the holders in their places, whenever the
    thread is about to evaluate and the slice of a background holder has run
    out, the turn goes to the first unsuspended caller that cyclically follows
    the holder in the queue, and to the holder only if nobody else is eligible. -/
theorem background_takes_turns (h : (transition managed override).Reach KeepsTurn s)
    (hidle : s.thread = .idle) {key holder : String} {d : Dongle} {now : ℚ}
    (hd : s.scheduler.dongles.get? key = some d) (hb : d.background holder = true)
    (hover : d.SliceOver holder now) :
    (d.pickBackground now).2 = d.nextAfter holder ∧
      ((d.pickBackground now).2 = some holder →
        ∀ c ∈ d.bgOrder, d.unsuspended c = true → c = holder) := by
  have hturn : d.InTurn :=
    (inTurn_of_reach h).holders _ d (Scheduler.dongle?_of_get? hd) fun p hp => by
      rw [hidle] at hp
      cases hp
  have hpick := Dongle.pickBackground_of_inTurn hover hb hturn
  exact ⟨hpick, fun hh c hc hs => Dongle.eq_of_nextAfter (hpick.symm.trans hh) hc hs⟩

/-- A background receiver on the dongle `A`. -/
def decoder (caller : String) : RegisterArgs where
  serial := "A"
  caller := caller
  priority := .background
  continuous := true
  resolved := "serial:A"

/-- The thread acquires the dongle for the winner it finds. -/
def acquireRun (now : Clock) : List Event :=
  [.resumeThread (.granted ⟨0, "serial:A"⟩) true now, .resumeThread .failed true now,
    .resumeThread .failed true now]

/-- Three receivers register, and the dongle goes to the first and then to the second. -/
def roundRun : List Event :=
  [.call 0 (.register (decoder "ais")), .call 0 (.register (decoder "acars")),
    .call 0 (.register (decoder "fm")), .evaluate "A" ⟨0, 0⟩] ++ acquireRun ⟨0, 0⟩ ++
  [.evaluate "A" ⟨0, 200⟩, .resumeThread (.busy ⟨0, "serial:A"⟩) true ⟨0, 200⟩,
    .resumeThread .failed true ⟨0, 200⟩] ++ acquireRun ⟨0, 200⟩

theorem background_takes_turns_round : ∃ s d,
    (transition [{ serial := "A" }] true).Reach KeepsTurn s ∧
      s.scheduler.dongles.get? "A" = some d ∧ d.currentHolder = some "acars" ∧
      (d.pickBackground 400).2 = d.nextAfter "acars" ∧ d.nextAfter "acars" = some "fm" := by
  obtain ⟨s, hs, hidle, d, hd, hh, hb, hover, hnext⟩ :
      ∃ s ∈ roundRun.foldlM (fun s e => if KeepsTurn s e then next s e else none) oneDongle,
        s.thread = .idle ∧
          ∃ d ∈ s.scheduler.dongles.get? "A", d.currentHolder = some "acars" ∧
            d.background "acars" = true ∧ d.SliceOver "acars" 400 ∧
            d.nextAfter "acars" = some "fm" := by
    decide +kernel
  have hreach : (transition [{ serial := "A" }] true).Reach KeepsTurn s :=
    .foldlM (.init rfl) hs
  exact ⟨s, d, hreach, hd, hh, (background_takes_turns hreach hidle hd hb hover).1, hnext⟩

/-- While the second receiver has the dongle, the first unregisters. -/
def leavingRun : List Event := roundRun ++ [.call 0 (.unregister "A" "ais")]

/-- The queue moves up under the position, and the holder has the next turn
    although the third receiver waits for it. -/
theorem background_skips_turn : ∃ s d,
    (transition [{ serial := "A" }] true).Reachable s ∧ s.thread = .idle ∧
      s.scheduler.dongles.get? "A" = some d ∧ d.lockedBy = none ∧ d.pickDue 0 = none ∧
      d.background "acars" = true ∧ d.SliceOver "acars" 400 ∧
      d.nextAfter "acars" = some "fm" ∧ (d.pickBackground 400).2 = some "acars" := by
  obtain ⟨s, hs, hidle, d, hd, hlock, hdue, hb, hover, hnext, hpick⟩ :
      ∃ s ∈ leavingRun.foldlM next oneDongle,
      s.thread = .idle ∧
        ∃ d ∈ s.scheduler.dongles.get? "A", d.lockedBy = none ∧ d.pickDue 0 = none ∧
          d.background "acars" = true ∧ d.SliceOver "acars" 400 ∧
          d.nextAfter "acars" = some "fm" ∧ (d.pickBackground 400).2 = some "acars" := by
    decide +kernel
  exact ⟨s, d, .foldlM (.init rfl) hs, hidle, hd, hlock, hdue,
    hb, hover, hnext, hpick⟩

end System

end ReticulumPi.Sdr
