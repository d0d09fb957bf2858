import Mathlib.Data.List.Chain
import ReticulumPi.Gps.Telemetry
import ReticulumPi.Lib.Past

/-!
# Events about the fix

The events say whether there is a fix: they alternate, and the last one agrees
with the state of the plugin. With gpsd this holds because the lifecycle lock
covers a change of the fix and its event. The reader of the serial port does not
take that lock, so a fix can come between the moment the monitor gives the old
one up and the moment it says so; the events are then published in the wrong
order. Besides, the age of a fix counts from the reading of the clock, which may
be long before the sentence is applied.
-/

namespace ReticulumPi.Gps

open Past List

variable {config : Config} {s s' : System} {e : Event}

/-! ## The events published -/

/-- The events that begin and end a fix. -/
inductive FixChange where
  | received
  | lost
deriving DecidableEq

/-- The beginning or end of a fix that an entry publishes. -/
def Entry.fixChange? : Entry → Option FixChange
  | published (.fixReceived _) _ => some .received
  | published (.fixLost _ _) _ => some .lost
  | _ => none

/-- The time at which a valid RMC sentence was applied. -/
def Entry.appliedAt? : Entry → Option ℚ
  | applied u => some u
  | _ => none

variable (log : List Entry)

/-- GPS_FIX_RECEIVED and GPS_FIX_LOST, newest first. -/
def fixChanges : List FixChange := log.filterMap Entry.fixChange?

/-- The last of these events was GPS_FIX_RECEIVED. -/
def IsOpen : Prop := (fixChanges log).head? = some .received
deriving Decidable

/-- A valid RMC sentence was last applied more than `d` before `t`. -/
def AppliedBefore (d t : ℚ) : Prop := ∀ u, .applied u ∈ log → u + d < t

instance (d t : ℚ) : Decidable (AppliedBefore log d t) :=
  decidable_of_iff (∀ u ∈ log.filterMap Entry.appliedAt?, u + d < t) <| by
    refine forall_congr' fun u => imp_congr_left ?_
    rw [List.mem_filterMap]
    constructor
    · rintro ⟨_ | ⟨_, _⟩, he, hu⟩
      · rwa [Option.some.inj hu] at he
      · cases hu
    · exact fun h => ⟨_, h, rfl⟩

/-- GPS_FIX_UPDATED belongs to a fix, and GPS_FIX_LOST to one that is stale. -/
def Timely (fixStaleSeconds : ℚ) : List Entry → Prop
  | .published (.fixUpdated _) _ :: log => IsOpen log
  | .published (.fixLost _ _) t :: log => AppliedBefore log fixStaleSeconds t
  | _ => True

instance (d : ℚ) : (log : List Entry) → Decidable (Timely d log)
  | .published (.fixUpdated _) _ :: log => inferInstanceAs (Decidable (IsOpen log))
  | .published (.fixLost _ _) t :: log => inferInstanceAs (Decidable (AppliedBefore log d t))
  | [] | .applied _ :: _ | .published .deviceConnected _ :: _
  | .published .deviceDisconnected _ :: _ | .published (.fixReceived _) _ :: _ =>
    inferInstanceAs (Decidable True)

namespace System

/-- The event that the reader has to publish; `true` for a first fix. -/
def readerPending (s : System) : Option Bool :=
  match s.reader with
  | .publishing firstFix _ => some firstFix
  | _ => none

/-- Neither thread is between a change of the fix and its event. -/
def Idle (s : System) : Prop := s.readerPending = none ∧ s.monitorHoldsLock = false

/-- The events agree with the state of the fix. -/
structure Agree (config : Config) (s : System) : Prop where
  /-- No two events of a kind follow each other. -/
  alternate : (fixChanges s.log).IsChain (· ≠ ·)
  /-- The first one is GPS_FIX_RECEIVED. -/
  starts : (fixChanges s.log).getLast? ≠ some .lost
  /-- Between the steps of the threads the last one says whether there is a fix. -/
  idle : s.Idle → (IsOpen s.log ↔ s.haveFix = true)
  timely : Throughout (Timely config.fixStaleSeconds) s.log

/-! ## The condition on the steps -/

/-- The reader is about to apply a valid RMC sentence. -/
def appliesFix (s : System) : Bool :=
  match s.reader with
  | .observed (.rmc msg) _ _ => msg.position.isSome
  | _ => false

/-- The stale monitor is about to check. -/
def monitorChecks (s : System) : Bool :=
  match s.monitor with
  | .sleeping _ => true
  | _ => false

/-- With the serial port, no sentence is applied while the monitor has to
    publish a loss, and no loss is published while the reader has an event of
    its own. With either source, a fix that the monitor finds stale by the
    reading of the clock was also applied that long ago. -/
def KeepsOrder (config : Config) (s : System) : Event → Prop
  | .reader _ => config.source = .serial → s.appliesFix = true → s.monitorHoldsLock = false
  | .monitor =>
    (config.source = .serial → s.monitorHoldsLock = true → s.readerPending = none) ∧
      (s.monitorChecks = true → s.isStale config = true →
        AppliedBefore s.log config.fixStaleSeconds s.clock)
  | _ => True

/-! ## What a step can change -/

/-- What a step changes of the fix and of the events about it. -/
inductive Change (config : Config) (s : System) (e : Event) (s' : System) : Prop where
  /-- Nothing, except that an event about the device may be published. -/
  | other (fix : s'.haveFix = s.haveFix) (reader : s'.readerPending = s.readerPending)
      (monitor : s'.monitorHoldsLock = s.monitorHoldsLock)
      (log : s'.log = s.log ∨
        ∃ event ∈ [BusEvent.deviceConnected, .deviceDisconnected], ∃ t,
          s'.log = .published event t :: s.log)
      (clock : s.clock ≤ s'.clock)
      (lock : s'.readerHoldsLock config = true →
        s.readerHoldsLock config = true ∨ s.monitorHoldsLock = false)
  /-- The reader applies a valid RMC sentence. -/
  | applies (input : ReaderInput) (event : e = .reader input) (before : s.readerPending = none)
      (about : s.appliesFix = true) (fix : s'.haveFix = true)
      (pending : s'.readerPending = some (!s.haveFix))
      (monitor : s'.monitorHoldsLock = s.monitorHoldsLock)
      (log : s'.log = .applied s.clock :: s.log)
  /-- The reader publishes its event. -/
  | announces (firstFix : Bool) (position : Position)
      (before : s.readerPending = some firstFix) (after : s'.readerPending = none)
      (fix : s'.haveFix = s.haveFix) (monitor : s'.monitorHoldsLock = s.monitorHoldsLock)
      (log : s'.log = .published
        (if firstFix then .fixReceived position else .fixUpdated position) s.clock :: s.log)
      (clock : s'.clock = s.clock) (lock : s'.readerHoldsLock config = false)
  /-- The monitor gives the fix up. -/
  | givesUp (event : e = .monitor) (checks : s.monitorChecks = true) (stale : s.isStale config = true)
      (before : s.haveFix = true) (after : s'.haveFix = false)
      (free : s.lockFree config = true) (reader : s'.reader = s.reader)
      (monitor : s'.monitorHoldsLock = true) (log : s'.log = s.log) (clock : s'.clock = s.clock)
  /-- The monitor publishes the loss. -/
  | announcesLoss (age : ℚ) (lastTimestamp : PyValue) (event : e = .monitor)
      (before : s.monitorHoldsLock = true) (after : s'.monitorHoldsLock = false) (fix : s'.haveFix = s.haveFix)
      (reader : s'.reader = s.reader)
      (log : s'.log = .published (.fixLost age lastTimestamp) s.clock :: s.log)

theorem locked_eq_some {t : System} :
    s.locked config t = some s' ↔ s.lockFree config = true ∧ t = s' := by
  rw [locked, Option.ite_none_right_eq_some, Option.some_inj]

theorem lockedByGpsd_eq_some {t : System} :
    s.lockedByGpsd config t = some s' ↔
      (config.source = .gpsd → s.lockFree config = true) ∧ t = s' := by
  rw [lockedByGpsd]
  split_ifs with h
  · rw [locked_eq_some, forall_prop_of_true h]
  · rw [Option.some_inj, forall_prop_of_false h, true_and]

theorem lockFree_eq_true :
    s.lockFree config = true ↔
      s.readerHoldsLock config = false ∧ s.monitorHoldsLock = false := by
  simp [lockFree]

theorem source_of_readerHoldsLock (h : s.readerHoldsLock config = true) :
    config.source = .gpsd :=
  of_decide_eq_true (Bool.and_eq_true_iff.1 h).1

theorem readerHoldsLock_of_appliesFix (hsrc : config.source = .gpsd) (h : s.appliesFix = true) :
    s.readerHoldsLock config = true := by
  rw [appliesFix] at h
  rcases hpc : s.reader <;> simp_all [readerHoldsLock]

theorem readerPending_of_not_readerHoldsLock (hsrc : config.source = .gpsd)
    (h : s.readerHoldsLock config = false) : s.readerPending = none := by
  rcases hpc : s.reader <;> simp_all [readerHoldsLock, readerPending]

/-- The reader goes on without touching the fix. -/
theorem Change.move (fix : s'.haveFix = s.haveFix)
    (monitor : s'.monitor = s.monitor) (log : s'.log = s.log) (clock : s'.clock = s.clock)
    (before : s.readerPending = none) (after : s'.readerPending = none)
    (lock : s'.readerHoldsLock config = true →
      s.readerHoldsLock config = true ∨ s.monitorHoldsLock = false) : Change config s e s' :=
  .other fix (after.trans before.symm) (by rw [monitorHoldsLock, monitorHoldsLock, monitor])
    (.inl log) clock.ge lock

theorem change_of_openFailed (hpc : s.reader = .opening) (h : s.openFailed config = some s') :
    Change config s e s' := by
  have hs : s.readerPending = none := by rw [readerPending, hpc]
  simp only [openFailed] at h
  split_ifs at h
  · cases h
    exact .move rfl rfl rfl rfl hs rfl fun h => by simp [readerHoldsLock] at h
  · obtain ⟨-, rfl⟩ := locked_eq_some.1 h
    exact .move rfl rfl rfl rfl hs rfl fun h => by simp [readerHoldsLock] at h
  · cases h
    exact .move rfl rfl rfl rfl hs rfl fun h => by simp [readerHoldsLock] at h

theorem change_of_bind (hpc : s.reader = .opened) (h : s.bind config = some s') :
    Change config s e s' := by
  have hs : s.readerPending = none := by rw [readerPending, hpc]
  obtain ⟨hfree, rfl⟩ := lockedByGpsd_eq_some.1 h
  by_cases hact : s.generationIsActive = true
  · rw [if_pos hact]
    refine .move rfl rfl rfl rfl hs rfl fun h => .inr ?_
    -- Only a reader of gpsd keeps the lock.
    exact (lockFree_eq_true.1 (hfree (source_of_readerHoldsLock h))).2
  · rw [if_neg hact]
    exact .move rfl rfl rfl rfl hs rfl fun h => by simp [readerHoldsLock] at h

theorem change_of_accept {raw : String} (hpc : s.reader = .received raw)
    (h : s.accept config raw = some s') : Change config s e s' := by
  have hs : s.readerPending = none := by rw [readerPending, hpc]
  obtain ⟨hfree, rfl⟩ := lockedByGpsd_eq_some.1 h
  split_ifs
  · exact .move rfl rfl rfl rfl hs rfl fun h => by simp [readerHoldsLock] at h
  · exact .move rfl rfl rfl rfl hs rfl fun h => by simp [readerHoldsLock] at h
  · exact .move rfl rfl rfl rfl hs rfl fun h => by simp [readerHoldsLock] at h
  · refine .move rfl rfl rfl rfl hs rfl fun h => .inr ?_
    exact (lockFree_eq_true.1 (hfree (source_of_readerHoldsLock h))).2

theorem change_of_takeLine {raw : String} (hpc : s.reader = .accepted raw) :
    Change config s e (s.takeLine config raw) := by
  have hs : s.readerPending = none := by rw [readerPending, hpc]
  simp only [takeLine]
  by_cases hraw : raw.toList.head? = some '$'
  · rw [if_pos hraw]
    rcases config.parse raw with _ | message
    · exact .move rfl rfl rfl rfl hs rfl fun h => by simp [readerHoldsLock] at h
    · refine .move rfl rfl rfl rfl hs rfl fun h => .inl ?_
      have hgpsd := source_of_readerHoldsLock h
      simp [readerHoldsLock, hpc, hgpsd]
  · rw [if_neg hraw]
    exact .move rfl rfl rfl rfl hs rfl fun h => by simp [readerHoldsLock] at h

theorem applyOther_haveFix {t : GpsTelemetry} {message : Message} {now observedAt : ℚ} :
    (t.applyOther now observedAt message).haveFix = t.haveFix := by
  cases message with
  | vtg msg =>
    rw [GpsTelemetry.applyOther, GpsTelemetry.applyVtg]
    cases t.lastFix <;> rfl
  | _ => rfl

theorem change_of_applySentence {input : ReaderInput} {message : Message} {now observedAt : ℚ}
    (hpc : s.reader = .observed message now observedAt) :
    Change config s (.reader input) (s.applySentence message now observedAt) := by
  have hs : s.readerPending = none := by rw [readerPending, hpc]
  have hother : ∀ message, Change config s (.reader input)
      { s with
        toGpsTelemetry := s.applyOther now observedAt message, reader := .looping } := fun _ =>
    .move applyOther_haveFix rfl rfl rfl hs rfl fun h => by simp [readerHoldsLock] at h
  cases message with
  | rmc msg =>
    rcases hmsg : msg.position with _ | ⟨lat, lon⟩
    · simp only [applySentence, hmsg]
      exact .move rfl rfl rfl rfl hs rfl fun h => by simp [readerHoldsLock] at h
    · simp only [applySentence, hmsg]
      exact .applies input rfl hs (by simp [appliesFix, hpc, hmsg]) rfl rfl rfl rfl
  | _ => exact hother _

theorem change_of_close (hpc : s.reader = .closing) (h : s.close config = some s') :
    Change config s e s' := by
  have hs : s.readerPending = none := by rw [readerPending, hpc]
  rw [close] at h
  rcases hsrc : config.source with _ | _
  · rw [hsrc] at h
    cases h
    exact .move rfl rfl rfl rfl hs rfl fun h => by simp [readerHoldsLock, hsrc] at h
  · rw [hsrc] at h
    obtain ⟨hfree, rfl⟩ := locked_eq_some.1 h
    exact .move rfl rfl rfl rfl hs rfl fun _ => .inr (lockFree_eq_true.1 hfree).2

/-- A test sends the reader to one of two places outside of a sentence. -/
theorem change_of_test {b : Bool} {pc pc' : ReaderPc} (before : s.readerPending = none)
    (hpc : ∀ pc'' ∈ [pc, pc'], ({ s with reader := pc'' } : System).readerPending = none ∧
      ({ s with reader := pc'' } : System).readerHoldsLock config = false) :
    Change config s e { s with reader := if b then pc else pc' } := by
  have hmove : ∀ pc'' ∈ [pc, pc'], Change config s e { s with reader := pc'' } := fun pc'' h =>
    .move rfl rfl rfl rfl before (hpc pc'' h).1 fun hl => by rw [(hpc pc'' h).2] at hl; cases hl
  cases b
  · exact hmove pc' (by simp)
  · exact hmove pc (by simp)

/-- What a step of the reader changes. -/
theorem change_of_readerStep {input : ReaderInput}
    (h : s.readerStep config s.reader input = some s') : Change config s (.reader input) s' := by
  generalize hpc : s.reader = pc at h
  revert h
  fun_cases readerStep config s pc input with
  | case1 =>
    intro h
    cases h
    exact change_of_test (by rw [readerPending, hpc]) (by simp [readerPending, readerHoldsLock])
  | case2 => exact change_of_openFailed hpc
  | case3 => exact change_of_bind hpc
  | case4 =>
    intro h
    cases h
    exact .other rfl (by simp [readerPending, hpc]) rfl
      (.inr ⟨.deviceConnected, by simp, _, rfl⟩) le_rfl fun h => by simp [readerHoldsLock] at h
  | case5 =>
    intro h
    cases h
    exact change_of_test (by rw [readerPending, hpc]) (by simp [readerPending, readerHoldsLock])
  | case6 raw =>
    intro h
    cases h
    exact .move rfl rfl rfl rfl (by rw [readerPending, hpc]) rfl fun h => by
      simp [readerHoldsLock] at h
  | case7 =>
    intro h
    cases h
    split_ifs
    · exact .move rfl rfl rfl rfl (by rw [readerPending, hpc]) rfl fun h => by
        simp [readerHoldsLock] at h
    · exact .move rfl rfl rfl rfl (by rw [readerPending, hpc]) rfl fun h => by
        simp [readerHoldsLock] at h
  | case8 =>
    intro h
    cases h
    split_ifs
    · exact .move rfl rfl rfl rfl (by rw [readerPending, hpc]) rfl fun h => by
        simp [readerHoldsLock] at h
    · exact .move rfl rfl rfl rfl (by rw [readerPending, hpc]) rfl fun h => by
        simp [readerHoldsLock] at h
  | case9 timeout =>
    intro h
    obtain ⟨-, rfl⟩ := locked_eq_some.1 h
    exact change_of_test (by rw [readerPending, hpc]) (by simp [readerPending, readerHoldsLock])
  | case10 raw => exact change_of_accept hpc
  | case11 raw =>
    intro h
    cases h
    exact change_of_takeLine hpc
  | case12 message now =>
    intro h
    cases h
    refine .move rfl rfl rfl rfl (by rw [readerPending, hpc]) rfl fun h => .inl ?_
    have hgpsd := source_of_readerHoldsLock h
    simp [readerHoldsLock, hpc, hgpsd]
  | case13 message now observedAt =>
    intro h
    cases h
    exact change_of_applySentence hpc
  | case14 firstFix position event =>
    intro h
    cases h
    exact .announces firstFix position (by rw [readerPending, hpc]) rfl rfl rfl rfl rfl
      (by simp [readerHoldsLock])
  | case15 => exact change_of_close hpc
  | case16 announce =>
    intro h
    cases h
    have hs : s.readerPending = none := by rw [readerPending, hpc]
    cases announce with
    | false => exact change_of_test hs (by simp [readerPending, readerHoldsLock])
    | true =>
      refine .other rfl (.trans ?_ hs.symm) rfl (.inr ⟨.deviceDisconnected, by simp, _, rfl⟩)
        le_rfl fun h => ?_
      · simp only [readerPending]
        split_ifs <;> rfl
      · simp only [readerHoldsLock] at h
        split_ifs at h <;> simp at h
  | case17 wake =>
    intro h
    cases h
    exact .move rfl rfl rfl rfl (by rw [readerPending, hpc]) rfl fun h => by
      simp [readerHoldsLock] at h
  | case18 => nofun
  | case19 => nofun

/-- The monitor goes on without touching the fix. -/
theorem Change.monitor_move (fix : s'.haveFix = s.haveFix) (reader : s'.reader = s.reader)
    (log : s'.log = s.log) (clock : s'.clock = s.clock) (before : s.monitorHoldsLock = false)
    (after : s'.monitorHoldsLock = false) : Change config s e s' :=
  .other fix (by rw [readerPending, readerPending, reader]) (after.trans before.symm) (.inl log)
    clock.ge fun _ => .inr before

theorem change_of_staleCheck {wake : ℚ} (hpc : s.monitor = .sleeping wake)
    (hfree : s.lockFree config = true) : Change config s .monitor (s.staleCheck config) := by
  have hs : s.monitorHoldsLock = false := by rw [monitorHoldsLock, hpc]
  have hsleeps : Change config s .monitor (s.monitorSleeps config) := .monitor_move rfl rfl rfl rfl hs rfl
  rw [staleCheck]
  by_cases hact : (!s.generationIsActive) = true
  · rw [if_pos hact]
    exact .monitor_move rfl rfl rfl rfl hs rfl
  rw [if_neg hact]
  rcases hhave : s.haveFix with _ | _
  · exact hsleeps
  rcases hfix : s.lastFix with _ | fix
  · exact hsleeps
  dsimp only
  split_ifs with hzero hage
  · exact .monitor_move hhave.symm rfl rfl rfl hs rfl
  · exact hsleeps
  · refine .givesUp rfl (by rw [monitorChecks, hpc]) ?_ hhave rfl hfree rfl rfl rfl rfl
    simp [isStale, hhave, hfix, hzero, not_le.1 hage]

/-- What a step of the monitor changes. -/
theorem change_of_monitorStep (h : s.monitorStep config s.monitor = some s') :
    Change config s .monitor s' := by
  generalize hpc : s.monitor = pc at h
  revert h
  fun_cases monitorStep config s pc with
  | case1 =>
    intro h
    obtain ⟨-, rfl⟩ := locked_eq_some.1 h
    split_ifs
    all_goals exact .monitor_move rfl rfl rfl rfl (by rw [monitorHoldsLock, hpc]) rfl
  | case2 wake hwake =>
    intro h
    obtain ⟨hfree, rfl⟩ := locked_eq_some.1 h
    exact change_of_staleCheck hpc hfree
  | case3 => nofun
  | case4 age lastTimestamp =>
    intro h
    cases h
    exact .announcesLoss age lastTimestamp rfl (by rw [monitorHoldsLock, hpc]) rfl rfl rfl rfl
  | case5 => nofun

/-- What any step changes. -/
theorem change_of_next (h : next config s e = some s') : Change config s e s' := by
  cases e with
  | tick d =>
    obtain ⟨hd, h⟩ := Option.ite_none_right_eq_some.1 h
    cases h
    exact .other rfl rfl rfl (.inl rfl) (le_add_of_nonneg_right hd) .inl
  | reader input => exact change_of_readerStep h
  | monitor => exact change_of_monitorStep h
  | stop =>
    obtain ⟨-, rfl⟩ := locked_eq_some.1 h
    exact .other rfl rfl rfl (.inl rfl) le_rfl .inl

/-! ## The invariant -/

/-- How the events so far, and those that the threads have to publish, go
    together with the state of the fix. -/
structure Ordered (config : Config) (s : System) : Prop where
  /-- With gpsd, the two threads exclude each other. -/
  exclusive : config.source = .gpsd → s.readerHoldsLock config = true →
    s.monitorHoldsLock = false
  alternate : (fixChanges s.log).IsChain (· ≠ ·)
  starts : (fixChanges s.log).getLast? ≠ some .lost
  settled : s.readerPending = none →
    (IsOpen s.log ↔ s.haveFix = true ∨ s.monitorHoldsLock = true)
  pending : ∀ {firstFix}, s.readerPending = some firstFix →
    (IsOpen s.log ↔ firstFix = false) ∧ (s.haveFix = true ∨ s.monitorHoldsLock = true)
  lost : s.monitorHoldsLock = true → s.haveFix = false
  aged : s.monitorHoldsLock = true → AppliedBefore s.log config.fixStaleSeconds s.clock
  timely : Throughout (Timely config.fixStaleSeconds) s.log

/-- Nothing has happened yet. -/
theorem ordered_init {t : ℚ} : Ordered config { clock := t } where
  exclusive _ _ := rfl
  alternate := .nil
  starts := by simp [fixChanges]
  settled _ := by simp [IsOpen, fixChanges, monitorHoldsLock]
  pending h := by cases h
  lost h := by cases h
  aged h := by cases h
  timely := throughout_nil trivial

namespace Ordered

variable (h : Ordered config s)
include h

/-- An event about the device, or none, leaves the invariant. -/
theorem other (fix : s'.haveFix = s.haveFix) (reader : s'.readerPending = s.readerPending)
    (monitor : s'.monitorHoldsLock = s.monitorHoldsLock)
    (log : s'.log = s.log ∨ ∃ event ∈ [BusEvent.deviceConnected, .deviceDisconnected], ∃ t,
      s'.log = .published event t :: s.log)
    (clock : s.clock ≤ s'.clock)
    (lock : s'.readerHoldsLock config = true →
      s.readerHoldsLock config = true ∨ s.monitorHoldsLock = false) : Ordered config s' := by
  have hchanges : fixChanges s'.log = fixChanges s.log := by
    rcases log with log | ⟨event, hevent, t, log⟩
    · rw [log]
    · rw [log]
      rcases mem_pair.1 hevent with rfl | rfl <;> rfl
  have hopen : IsOpen s'.log ↔ IsOpen s.log := by rw [IsOpen, IsOpen, hchanges]
  have happlied : ∀ u, .applied u ∈ s'.log → .applied u ∈ s.log := by
    rcases log with log | ⟨event, -, t, log⟩
    · rw [log]
      exact fun _ => id
    · rw [log]
      exact fun u hu => (mem_cons.1 hu).resolve_left nofun
  exact {
    exclusive := fun hg hr => by
      rw [monitor]
      exact (lock hr).elim (h.exclusive hg) id
    alternate := hchanges ▸ h.alternate
    starts := hchanges ▸ h.starts
    settled := by
      rw [reader, fix, monitor, hopen]
      exact h.settled
    pending := by
      rw [reader, fix, monitor, hopen]
      exact h.pending
    lost := by
      rw [fix, monitor]
      exact h.lost
    aged := fun hm u hu => by
      rw [monitor] at hm
      exact (h.aged hm u (happlied u hu)).trans_le clock
    timely := by
      rcases log with log | ⟨event, hevent, t, log⟩
      · rw [log]
        exact h.timely
      · rw [log, throughout_cons]
        rcases mem_pair.1 hevent with rfl | rfl <;> exact ⟨trivial, h.timely⟩ }

/-- A valid RMC sentence is applied while the monitor has nothing to publish. -/
theorem applies (hs : s.readerPending = none)
    (hm : s.monitorHoldsLock = false) (fix : s'.haveFix = true)
    (pending : s'.readerPending = some (!s.haveFix))
    (monitor : s'.monitorHoldsLock = s.monitorHoldsLock)
    (log : s'.log = .applied s.clock :: s.log) : Ordered config s' := by
  have hm' : s'.monitorHoldsLock = false := monitor.trans hm
  have hchanges : fixChanges s'.log = fixChanges s.log := by rw [log]; rfl
  have hopen : IsOpen s'.log ↔ s.haveFix = true := by
    have hsame : IsOpen s'.log ↔ IsOpen s.log := by rw [IsOpen, IsOpen, hchanges]
    rw [hsame, h.settled hs]
    simp [hm]
  exact {
    exclusive := fun _ _ => hm'
    alternate := hchanges ▸ h.alternate
    starts := hchanges ▸ h.starts
    settled := fun hn => by rw [pending] at hn; cases hn
    pending := fun hp => by
      rw [pending, Option.some_inj] at hp
      subst hp
      exact ⟨by simp [hopen], .inl fix⟩
    lost := fun hl => by rw [hm'] at hl; cases hl
    aged := fun hl => by rw [hm'] at hl; cases hl
    timely := by
      rw [log, throughout_cons]
      exact ⟨trivial, h.timely⟩ }

/-- The reader publishes its event. -/
theorem announces {firstFix : Bool} {position : Position}
    (before : s.readerPending = some firstFix) (after : s'.readerPending = none)
    (fix : s'.haveFix = s.haveFix) (monitor : s'.monitorHoldsLock = s.monitorHoldsLock)
    (log : s'.log = .published
      (if firstFix then .fixReceived position else .fixUpdated position) s.clock :: s.log)
    (clock : s'.clock = s.clock) (lock : s'.readerHoldsLock config = false) :
    Ordered config s' := by
  obtain ⟨hopen, hfix⟩ := h.pending before
  have happlied : ∀ u, .applied u ∈ s'.log → .applied u ∈ s.log := fun u hu => by
    rw [log] at hu
    exact (mem_cons.1 hu).resolve_left nofun
  have hafter : IsOpen s'.log := by
    rw [log]
    cases firstFix with
    | true => rfl
    | false => exact hopen.2 rfl
  have hchanges : fixChanges s'.log =
      if firstFix then .received :: fixChanges s.log else fixChanges s.log := by
    rw [log]
    cases firstFix <;> rfl
  refine {
    exclusive := fun _ hr => by rw [lock] at hr; cases hr
    alternate := ?_
    starts := ?_
    settled := fun _ => by
      rw [fix, monitor]
      exact iff_of_true hafter hfix
    pending := fun hp => by rw [after] at hp; cases hp
    lost := by
      rw [fix, monitor]
      exact h.lost
    aged := fun hm u hu => by
      rw [monitor] at hm
      rw [clock]
      exact h.aged hm u (happlied u hu)
    timely := ?_ }
  · rw [hchanges]
    split_ifs with hfirst
    · -- A first fix follows a loss, or nothing.
      refine isChain_cons.2 ⟨fun y hy heq => ?_, h.alternate⟩
      subst heq
      rw [hopen.1 hy] at hfirst
      cases hfirst
    · exact h.alternate
  · rw [hchanges]
    split_ifs
    · rw [getLast?_cons]
      rcases hlast : (fixChanges s.log).getLast? with _ | y
      · simp
      · have := h.starts
        rw [hlast] at this
        simpa using this
    · exact h.starts
  · rw [log, throughout_cons]
    refine ⟨?_, h.timely⟩
    cases firstFix with
    | true => exact trivial
    | false => exact hopen.2 rfl

/-- The monitor gives up a fix that was applied long enough ago. -/
theorem givesUp (before : s.haveFix = true) (after : s'.haveFix = false)
    (free : s.lockFree config = true) (reader : s'.reader = s.reader)
    (monitor : s'.monitorHoldsLock = true) (log : s'.log = s.log) (clock : s'.clock = s.clock)
    (haged : AppliedBefore s.log config.fixStaleSeconds s.clock) : Ordered config s' := by
  have hreader : s'.readerPending = s.readerPending := by
    rw [readerPending, readerPending, reader]
  exact {
    exclusive := fun _ hr => by
      rw [readerHoldsLock, reader, ← readerHoldsLock, (lockFree_eq_true.1 free).1] at hr
      cases hr
    alternate := log ▸ h.alternate
    starts := log ▸ h.starts
    settled := fun hn => by
      rw [log]
      exact iff_of_true ((h.settled (hreader ▸ hn)).2 (.inl before)) (.inr monitor)
    pending := fun hp => by
      rw [log]
      exact ⟨(h.pending (hreader ▸ hp)).1, .inr monitor⟩
    lost := fun _ => after
    aged := fun _ => by
      rw [log, clock]
      exact haged
    timely := log ▸ h.timely }

/-- The monitor publishes the loss while the reader has nothing to publish. -/
theorem announcesLoss {age : ℚ} {lastTimestamp : PyValue}
    (hs : s.readerPending = none) (before : s.monitorHoldsLock = true)
    (after : s'.monitorHoldsLock = false) (fix : s'.haveFix = s.haveFix)
    (reader : s'.reader = s.reader)
    (log : s'.log = .published (.fixLost age lastTimestamp) s.clock :: s.log) :
    Ordered config s' := by
  have hreader : s'.readerPending = none := by
    rw [readerPending, reader, ← readerPending, hs]
  have hhead : (fixChanges s.log).head? = some .received := (h.settled hs).2 (.inr before)
  have hchanges : fixChanges s'.log = .lost :: fixChanges s.log := by rw [log]; rfl
  exact {
    exclusive := fun _ _ => after
    alternate := by
      rw [hchanges]
      refine isChain_cons.2 ⟨fun y hy heq => ?_, h.alternate⟩
      subst heq
      rw [Option.mem_def, hhead] at hy
      cases hy
    starts := by
      rw [hchanges, getLast?_cons]
      rcases hlast : (fixChanges s.log).getLast? with _ | y
      · rw [getLast?_eq_none_iff.1 hlast] at hhead
        cases hhead
      · have := h.starts
        rw [hlast] at this
        simpa using this
    settled := fun _ => by
      rw [IsOpen, hchanges, fix, h.lost before, after]
      simp
    pending := fun hp => by rw [hreader] at hp; cases hp
    lost := fun hl => by rw [after] at hl; cases hl
    aged := fun hl => by rw [after] at hl; cases hl
    timely := by
      rw [log, throughout_cons]
      exact ⟨h.aged before, h.timely⟩ }

/-- Every step that meets the condition keeps the invariant. -/
theorem change (he : KeepsOrder config s e)
    (hn : next config s e = some s') : Ordered config s' := by
  cases change_of_next hn with
  | other fix reader monitor log clock lock => exact h.other fix reader monitor log clock lock
  | applies input event before about fix pending monitor log =>
    subst event
    have hm : s.monitorHoldsLock = false := by
      rcases hsrc : config.source with _ | _
      · exact he hsrc about
      · exact h.exclusive hsrc (readerHoldsLock_of_appliesFix hsrc about)
    exact h.applies before hm fix pending monitor log
  | announces firstFix position before after fix monitor log clock lock =>
    exact h.announces before after fix monitor log clock lock
  | givesUp event checks stale before after free reader monitor log clock =>
    subst event
    exact h.givesUp before after free reader monitor log clock (he.2 checks stale)
  | announcesLoss age lastTimestamp event before after fix reader log =>
    subst event
    have hs : s.readerPending = none := by
      rcases hsrc : config.source with _ | _
      · exact he.1 hsrc before
      · refine readerPending_of_not_readerHoldsLock hsrc (Bool.eq_false_iff.2 fun hr => ?_)
        rw [h.exclusive hsrc hr] at before
        cases before
    exact h.announcesLoss hs before after fix reader log

end Ordered

/-- A position in an RMC sentence. -/
def rmcLine : String := "$GPRMC,123519,A,4807.038,N,01131.000,E,022.4,084.4,230394,003.1,W*6A"

/-- A receiver that sends it, with the default settings. -/
def receiver (source : Source) : Config where
  source := source
  parse raw :=
    if raw = rmcLine then
      some (.rmc ⟨"A", some (481173 / 10000), some (691 / 60), some (112 / 5), some (422 / 5), some "12:35:19",
        some "1994-03-23"⟩)
    else none

/-- The device is connected, and the monitor started. -/
def connects : List Event := [.monitor, .reader .goOn, .reader .goOn, .reader .goOn]

/-- A sentence is read and its clocks, up to the step that applies it. -/
def reads : List Event :=
  [.reader .goOn, .reader (.line rmcLine), .reader .goOn, .reader .goOn, .reader (.wallClock 0)]

/-- It is applied, and its event published. -/
def applies : List Event := [.reader .goOn, .reader .goOn]

/-- A fix comes between the check that gives the old one up and the event that
    says so. -/
def raceRun : List Event :=
  connects ++ reads ++ applies ++ [.tick 31, .monitor] ++ reads ++ applies ++ [.monitor]

/-- A sentence waits for 31 seconds before it is applied, and is lost at once. -/
def lateRun : List Event :=
  connects ++ reads ++ [.tick 31] ++ applies ++ [.monitor, .monitor]

/-- A fix is received, given up, and received again. -/
def regainRun : List Event :=
  connects ++ reads ++ applies ++ [.tick 31, .monitor, .monitor] ++ reads ++ applies

instance : Decidable (KeepsOrder config s e) :=
  match e with
  | .reader _ => inferInstanceAs (Decidable (_ → _ → _))
  | .monitor => inferInstanceAs (Decidable (_ ∧ _))
  | .tick _ | .stop => inferInstanceAs (Decidable True)

end System

end ReticulumPi.Gps
