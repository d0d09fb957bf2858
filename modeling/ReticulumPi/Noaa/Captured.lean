import ReticulumPi.Noaa.Decoder

/-!
# Every pass is captured on its own merits

From the first evaluation inside its window on, a pass holds the dongle until the
window ends, if its own pipeline does not fail: `passes_captured`, about the runs
whose steps let every pass be *on its own* (`OnItsOwn`). In such a run

* a prediction lists no more than six passes;
* while a pass is in progress, the dongle is not evaluated between the removal and
  the addition of its window;
* nor is it evaluated, for a pass in progress, with the slot suspended on account of
  an earlier one;
* the monitor and the failure hook of a pass do nothing any more while the dongle is
  held during another one.

Without the third, a failed capture is the last one: nothing makes the slot eligible
again (`passes_captured_fails`).
-/

namespace ReticulumPi.Noaa

open List

open Sdr (TimeWindow)

variable (settings : Settings) (sky : List Pass)

/-- The windows of different passes do not overlap. -/
def Apart : Prop :=
  ∀ p ∈ sky, ∀ q ∈ sky, p ≠ q → (settings.window p).endTs < (settings.window q).startTs ∨
    (settings.window q).endTs < (settings.window p).startTs
deriving Decidable

/-- The window of the pass has begun, and not ended. -/
def InProgress (p : Pass) (now : ℚ) : Prop :=
  (settings.window p).startTs ≤ now ∧ now < (settings.window p).endTs
deriving Decidable

namespace Decoder

variable (s : Decoder)

/-- The dongle was evaluated inside the window of the pass, which had been foretold. -/
def Evaluated (p : Pass) : Prop :=
  ∃ e ∈ s.evaluations, (settings.window p).startTs ≤ e.1 ∧ p ∈ e.2
deriving Decidable

/-- The dongle is not held during another pass. -/
def Alone (p : Pass) : Prop :=
  s.isActive = true → ∀ q ∈ sky, q ≠ p → ¬InProgress settings q s.clock
deriving Decidable

/-- A step that lets every pass be on its own. -/
def OnItsOwn : Event → Prop
  | .predict passes => (settings.noaaPasses passes).length ≤ 6
  | .evaluate _ _ => ∀ p ∈ s.nextPasses, InProgress settings p s.clock →
    settings.window p ∈ s.windows ∧ (p ∉ s.failed → s.suspended = false)
  | .hook g => ∀ hook ∈ s.hooks.get? g, s.Alone settings sky hook.pass
  | .monitor g => ∀ monitor ∈ s.monitors.get? g, s.Alone settings sky monitor.pass
  | _ => True

instance : DecidablePred (s.OnItsOwn settings sky)
  | .predict _ => inferInstanceAs (Decidable (_ ≤ _))
  | .evaluate _ _ => inferInstanceAs (Decidable (∀ _ ∈ _, _ → _))
  | .hook _ | .monitor _ => inferInstanceAs (Decidable (∀ _ ∈ _, _))
  | .tick _ | .goOn | .fail _ | .worker _ => inferInstanceAs (Decidable True)

/-! ## The winner -/

variable {settings sky s} {s' : Decoder} {p q : Pass} {w : TimeWindow}

/-- The decoder is to have the dongle inside one of its windows. -/
theorem winner_isSome (hs : s.suspended = false) (hw : w ∈ s.windows) (hend : s.clock < w.endTs)
    (hin : w.Contains s.clock) : ∃ c, s.winner = some c := by
  have hcritical : (s.dongle.expireWindows s.clock).firstCritical = none := by
    rw [Sdr.Dongle.firstCritical, find?_eq_none]
    intro e he hurgent
    cases mem_singleton.1 he
    cases (Sdr.SignalSlot.urgent_iff.1 hurgent).2
  rcases Sdr.Dongle.pickDue_scheduled s.clock hcritical with ⟨-, hno⟩ | ⟨e, -, -, heq⟩
  · refine absurd ⟨hs, rfl, w, ?_, hin⟩ (hno _ (mem_singleton_self _))
    exact mem_filter.2 ⟨hw, decide_eq_true hend⟩
  · exact ⟨e.1, by rw [winner, Sdr.Dongle.pickWinner, heq]⟩

/-! ## What a run keeps -/

variable (settings sky s) in
/-- The invariant. The pass of a monitor has begun, and one that has been launched or
    evaluated holds the dongle while it is in progress. -/
structure Sound : Prop where
  active : s.isActive = true →
    s.dongleActive = true ∧ s.dongleGeneration = some s.allocationGeneration
  listed : ∀ p ∈ s.nextPasses, p ∈ sky
  past : ∀ e ∈ s.evaluations, e.1 ≤ s.clock
  kept : ∀ p ∈ sky, s.Evaluated settings p → s.clock ≤ (settings.window p).endTs →
    p ∈ s.nextPasses
  started : ∀ g monitor, s.monitors.get? g = some monitor →
    monitor.pass ∈ sky ∧ (settings.window monitor.pass).startTs ≤ s.clock
  launched : ∀ g monitor, s.monitors.get? g = some monitor →
    s.clock ≤ (settings.window monitor.pass).endTs → monitor.pass ∈ s.nextPasses
  leaving : ∀ g monitor, s.monitors.get? g = some monitor → monitor.stage = .leaving →
    InProgress settings monitor.pass s.clock → monitor.pass ∈ s.failed
  hooked : ∀ g hook, s.hooks.get? g = some hook → hook.pass ∈ s.failed
  held : ∀ p ∈ sky, InProgress settings p s.clock → p ∉ s.failed →
    (s.Evaluated settings p ∨ ∃ g monitor, s.monitors.get? g = some monitor ∧ monitor.pass = p) →
    s.isActive = true

theorem sound_init {t : ℚ} : Sound settings sky { clock := t } where
  active h := by cases h
  listed _ h := by cases h
  past _ h := by cases h
  kept _ _ h := by
    obtain ⟨e, he, -⟩ := h
    cases he
  started _ _ h := by cases h
  launched _ _ h := by cases h
  leaving _ _ h := by cases h
  hooked _ _ h := by cases h
  held _ _ _ _ h := by
    obtain ⟨e, he, -⟩ | ⟨g, m, hm, -⟩ := h
    · cases he
    · cases hm

/-- The clock goes on. -/
theorem Sound.later (hs : s.Sound settings sky) {t : ℚ} (ht : s.clock ≤ t) :
    { s with clock := t }.Sound settings sky :=
  { hs with
    past := fun e he => (hs.past e he).trans ht
    kept := fun p hp he hend => hs.kept p hp he (ht.trans hend)
    started := fun g m hm => ⟨(hs.started g m hm).1, (hs.started g m hm).2.trans ht⟩
    launched := fun g m hm hend => hs.launched g m hm (ht.trans hend)
    leaving := fun g m hm hst hin =>
      hs.leaving g m hm hst ⟨(hs.started g m hm).2, ht.trans_lt hin.2⟩
    held := fun p hp hin hf hor => by
      refine hs.held p hp ⟨?_, ht.trans_lt hin.2⟩ hf hor
      obtain ⟨e, he, hstart, -⟩ | ⟨g, m, hm, rfl⟩ := hor
      · exact hstart.trans (hs.past e he)
      · exact (hs.started g m hm).2 }

variable (settings sky) in
/-- A step that starts no capture: a monitor goes on or ends, and the dongle is released
    only where no pass is in progress but those that have failed. -/
structure Follows (s s' : Decoder) : Prop where
  clock : s'.clock = s.clock
  nextPasses : s'.nextPasses = s.nextPasses
  evaluations : s'.evaluations = s.evaluations
  failed : ∀ p ∈ s.failed, p ∈ s'.failed
  monitors : ∀ g m', s'.monitors.get? g = some m' → ∃ m, s.monitors.get? g = some m ∧
    m.pass = m'.pass ∧ (m'.stage = .leaving → m.stage = .leaving ∨
      (InProgress settings m'.pass s.clock → m'.pass ∈ s'.failed))
  hooks : ∀ g hook, s'.hooks.get? g = some hook → hook.pass ∈ s'.failed
  active : s'.isActive = true →
    s'.dongleActive = true ∧ s'.dongleGeneration = some s'.allocationGeneration
  held : ∀ p ∈ sky, InProgress settings p s.clock → p ∉ s'.failed → s.isActive = true →
    s'.isActive = true

theorem Sound.follows (hs : s.Sound settings sky) (h : Follows settings sky s s') :
    s'.Sound settings sky := by
  have hevaluated : ∀ p, s'.Evaluated settings p → s.Evaluated settings p := fun p he => by
    rwa [Evaluated, h.evaluations] at he
  refine ⟨h.active, ?_, ?_, ?_, ?_, ?_, ?_, h.hooks, ?_⟩
  · rw [h.nextPasses]
    exact hs.listed
  · rw [h.evaluations, h.clock]
    exact hs.past
  · intro p hp he hend
    rw [h.nextPasses]
    exact hs.kept p hp (hevaluated p he) (h.clock ▸ hend)
  · intro g m' hm'
    obtain ⟨m, hm, hpass, -⟩ := h.monitors g m' hm'
    rw [← hpass, h.clock]
    exact hs.started g m hm
  · intro g m' hm' hend
    obtain ⟨m, hm, hpass, -⟩ := h.monitors g m' hm'
    rw [← hpass, h.clock] at hend
    rw [← hpass, h.nextPasses]
    exact hs.launched g m hm hend
  · intro g m' hm' hst hin
    rw [h.clock] at hin
    obtain ⟨m, hm, hpass, hstage⟩ := h.monitors g m' hm'
    obtain hst | hfailed := hstage hst
    · rw [← hpass] at hin ⊢
      exact h.failed _ (hs.leaving g m hm hst hin)
    · exact hfailed hin
  · intro p hp hin hf hor
    rw [h.clock] at hin
    refine h.held p hp hin hf (hs.held p hp hin (fun hmem => hf (h.failed p hmem)) ?_)
    obtain he | ⟨g, m', hm', rfl⟩ := hor
    · exact .inl (hevaluated p he)
    · obtain ⟨m, hm, hpass, -⟩ := h.monitors g m' hm'
      exact .inr ⟨g, m, hm, hpass⟩

/-! ## Releasing the dongle -/

/-- What a release of the dongle leaves as it is. -/
structure Released (s s' : Decoder) : Prop where
  inactive : s'.isActive = false
  clock : s'.clock = s.clock
  nextPasses : s'.nextPasses = s.nextPasses
  evaluations : s'.evaluations = s.evaluations
  monitors : s'.monitors = s.monitors
  hooks : s'.hooks = s.hooks
  failed : s'.failed = s.failed

/-- The lease is held by the generation the plugin knows, so it is released. -/
theorem releaseCaptureLease_cases (suspend : Bool)
    (hs : s.isActive = true → s.dongleGeneration = some s.allocationGeneration) :
    s.releaseCaptureLease suspend = s ∨ Released s (s.releaseCaptureLease suspend) := by
  rw [releaseCaptureLease, releaseDongle]
  split_ifs with hreleased hstale
  · exact .inl rfl
  · refine .inr ⟨?_, rfl, rfl, rfl, rfl, rfl, rfl⟩
    cases hactive : s.isActive with
    | false => rfl
    | true =>
      rw [stale, hs hactive] at hstale
      simp at hstale
  · exact .inr ⟨rfl, rfl, rfl, rfl, rfl, rfl, rfl⟩

/-- No pass is in progress but those that have failed. -/
theorem Sound.releaseCaptureLease (hs : s.Sound settings sky) (suspend : Bool)
    (hno : s.isActive = true → ∀ p ∈ sky, InProgress settings p s.clock → p ∈ s.failed) :
    (s.releaseCaptureLease suspend).Sound settings sky := by
  obtain heq | h := releaseCaptureLease_cases suspend fun h => (hs.active h).2
  · rwa [heq]
  · refine hs.follows ⟨h.clock, h.nextPasses, h.evaluations, fun p hp => h.failed ▸ hp, ?_, ?_, ?_,
      fun p hp hin hf hactive => ?_⟩
    · intro g m hm
      exact ⟨m, h.monitors ▸ hm, rfl, .inl⟩
    · intro g hook hh
      rw [h.failed]
      exact hs.hooked g hook (h.hooks ▸ hh)
    · intro hactive
      rw [h.inactive] at hactive
      cases hactive
    · exact absurd (hno hactive p hp hin) (h.failed ▸ hf)

/-! ## The hook and the monitor -/

theorem Sound.fail (hs : s.Sound settings sky) (g : ℕ) (p : Pass) :
    (s.fail g p).Sound settings sky := by
  refine hs.follows ⟨rfl, rfl, rfl, fun q hq => mem_cons_of_mem p hq,
    fun g' m hm => ⟨m, hm, rfl, .inl⟩, fun g' hook hh => ?_, hs.active, fun _ _ _ _ h => h⟩
  rw [Decoder.fail, Dict.get?_set] at hh
  split_ifs at hh
  · cases hh
    exact mem_cons_self
  · exact mem_cons_of_mem p (hs.hooked g' hook hh)

/-- Nothing is in progress, but perhaps the pass that is released. -/
theorem Alone.failed (halone : s.Alone settings sky p)
    (hp : InProgress settings p s.clock → p ∈ s.failed) (hactive : s.isActive = true) :
    ∀ q ∈ sky, InProgress settings q s.clock → q ∈ s.failed := fun q hq hin => by
  by_cases heq : q = p
  · exact heq ▸ hp (heq ▸ hin)
  · exact absurd hin (halone hactive q hq heq)

theorem Sound.onCaptureFailure (hs : s.Sound settings sky) {g : ℕ} {hook : Hook}
    (hg : s.hooks.get? g = some hook) (halone : s.Alone settings sky hook.pass) :
    (s.onCaptureFailure g hook).Sound settings sky := by
  have hended : { s with hooks := s.hooks.erase g }.Sound settings sky :=
    { hs with
      hooked := fun g' hook' hh => by
        rw [Dict.get?_erase] at hh
        split_ifs at hh
        exact hs.hooked g' hook' hh }
  rw [Decoder.onCaptureFailure]
  split
  · split_ifs
    · exact hended
    · exact { hs with
        hooked := fun g' hook' hh => by
          change (s.hooks.set g { hook with stage := .releasing }).get? g' = some hook' at hh
          rw [Dict.get?_set] at hh
          split_ifs at hh
          · cases hh
            exact hs.hooked g hook hg
          · exact hs.hooked g' hook' hh }
  · exact hended.releaseCaptureLease true
      (Alone.failed (s := s) halone fun _ => hs.hooked g hook hg)

theorem Sound.monitorPass (hs : s.Sound settings sky) {g : ℕ} {m : Monitor}
    (hg : s.monitors.get? g = some m) (halone : s.Alone settings sky m.pass)
    (h : s.monitorPass settings g m = some s') : s'.Sound settings sky := by
  rw [Decoder.monitorPass] at h
  split at h
  · split_ifs at h with hnot
    cases h
    refine hs.follows ⟨rfl, rfl, rfl, fun _ h => h, fun g' m' hm' => ?_, hs.hooked, hs.active,
      fun _ _ _ _ h => h⟩
    change (s.monitors.set g { m with stage := .leaving }).get? g' = some m' at hm'
    rw [Dict.get?_set] at hm'
    split_ifs at hm' with hgg
    · cases hm'
      subst hgg
      refine ⟨m, hg, rfl, fun _ => .inr fun hin => ?_⟩
      -- It leaves before the window ends, so the plugin has lost the dongle.
      by_contra hf
      have hactive := hs.held _ (hs.started _ m hg).1 hin hf (.inr ⟨_, m, hg, rfl⟩)
      exact hnot ⟨(hs.active hactive).1, hin.2⟩
    · exact ⟨m', hm', rfl, .inl⟩
  next hstage =>
    have hended : { s with monitors := s.monitors.erase g }.Sound settings sky := by
      refine hs.follows ⟨rfl, rfl, rfl, fun _ h => h, fun g' m' hm' => ?_, hs.hooked, hs.active,
        fun _ _ _ _ h => h⟩
      change (s.monitors.erase g).get? g' = some m' at hm'
      rw [Dict.get?_erase] at hm'
      split_ifs at hm'
      exact ⟨m', hm', rfl, .inl⟩
    have hfailed := Alone.failed halone (hs.leaving g m hg hstage)
    cases h
    split_ifs
    · exact hended.releaseCaptureLease true hfailed
    · exact { hended with }
    · exact hended.releaseCaptureLease false hfailed

/-! ## Predictions -/

theorem mem_newPasses {passes : List Prediction} (h : (settings.noaaPasses passes).length ≤ 6) :
    p ∈ settings.newPasses passes ↔ p ∈ settings.noaaPasses passes := by
  rw [Settings.newPasses, take_of_length_le (by rwa [length_insertionSort])]
  exact mem_insertionSort _

theorem Sound.predict (hs : s.Sound settings sky) {passes : List Prediction}
    (hlength : (settings.noaaPasses passes).length ≤ 6)
    (h : Foretells settings sky s.clock passes) : (s.predict settings passes).Sound settings sky :=
  { hs with
    listed := fun p hp => h.2 p ((mem_newPasses hlength).1 hp)
    kept := fun p hp _ hend => (mem_newPasses hlength).2 (h.1 p hp hend)
    launched := fun g m hm hend => (mem_newPasses hlength).2 (h.1 _ (hs.started g m hm).1 hend) }

/-! ## Evaluations -/

variable (settings s) in
/-- What an evaluation does. A new monitor is that of a next pass that has begun, and
    those in progress hold the dongle, unless they fail. -/
structure Evaluation (s' : Decoder) : Prop where
  clock : s.clock ≤ s'.clock
  nextPasses : s'.nextPasses = s.nextPasses
  evaluations : s'.evaluations = (s.clock, s.nextPasses) :: s.evaluations
  hooks : s'.hooks = s.hooks
  failed : ∀ p ∈ s.failed, p ∈ s'.failed
  monitors : ∀ g m, s'.monitors.get? g = some m → s.monitors.get? g = some m ∨
    m.pass ∈ s.nextPasses ∧ (settings.window m.pass).startTs ≤ s'.clock ∧ m.stage = .watching ∧
      s'.isActive = true
  active : s'.isActive = true →
    s'.dongleActive = true ∧ s'.dongleGeneration = some s'.allocationGeneration
  held : ∀ p ∈ s.nextPasses, InProgress settings p s.clock → InProgress settings p s'.clock →
    p ∉ s'.failed → s'.isActive = true

theorem Sound.evaluation (hs : s.Sound settings sky) (h : Evaluation settings s s') :
    s'.Sound settings sky := by
  have hevaluated : ∀ p, s'.Evaluated settings p →
      ((settings.window p).startTs ≤ s.clock ∧ p ∈ s.nextPasses) ∨ s.Evaluated settings p := by
    rintro p ⟨e, he, hstart, hp⟩
    rw [h.evaluations] at he
    rcases mem_cons.1 he with rfl | he
    · exact .inl ⟨hstart, hp⟩
    · exact .inr ⟨e, he, hstart, hp⟩
  refine ⟨h.active, ?_, ?_, ?_, ?_, ?_, ?_, ?_, ?_⟩
  · rw [h.nextPasses]
    exact hs.listed
  · rw [h.evaluations]
    rintro e he
    rcases mem_cons.1 he with rfl | he
    · exact h.clock
    · exact (hs.past e he).trans h.clock
  · intro p hp he hend
    rw [h.nextPasses]
    obtain ⟨-, hmem⟩ | he := hevaluated p he
    · exact hmem
    · exact hs.kept p hp he (h.clock.trans hend)
  · intro g m hm
    obtain hm | ⟨hmem, hstart, -⟩ := h.monitors g m hm
    · exact (hs.started g m hm).imp_right (·.trans h.clock)
    · exact ⟨hs.listed _ hmem, hstart⟩
  · intro g m hm hend
    rw [h.nextPasses]
    obtain hm | ⟨hmem, -⟩ := h.monitors g m hm
    · exact hs.launched g m hm (h.clock.trans hend)
    · exact hmem
  · intro g m hm hst hin
    obtain hm | ⟨-, -, hwatching, -⟩ := h.monitors g m hm
    · exact h.failed _ (hs.leaving g m hm hst ⟨(hs.started g m hm).2, h.clock.trans_lt hin.2⟩)
    · cases hst.symm.trans hwatching
  · intro g hook hh
    exact h.failed _ (hs.hooked g hook (h.hooks ▸ hh))
  · intro p hp hin hf hor
    have hend := h.clock.trans_lt hin.2
    -- A pass that has just been launched holds the dongle; the others had begun before.
    obtain he | ⟨g, m, hm, rfl⟩ := hor
    · obtain ⟨hstart, hmem⟩ | he := hevaluated p he
      · exact h.held p hmem ⟨hstart, hend⟩ hin hf
      · obtain ⟨e, hmem, hstart, -⟩ := id he
        exact h.held p (hs.kept p hp he hend.le) ⟨hstart.trans (hs.past e hmem), hend⟩ hin hf
    · obtain hm | ⟨-, -, -, hactive⟩ := h.monitors g m hm
      · exact h.held _ (hs.launched g m hm hend.le) ⟨(hs.started g m hm).2, hend⟩ hin hf
      · exact hactive

/-- The slot is released in `_schedule_sdr_retry`, whatever becomes of the retry. -/
theorem released_scheduleSdrRetry (hs : s.isActive = false) :
    Released s (s.scheduleSdrRetry settings) := by
  have hreleased : Released s
      ({ s with processGroup := none, dongleActive := false }.releaseDongle true) := by
    rw [releaseDongle]
    split_ifs
    · exact ⟨hs, rfl, rfl, rfl, rfl, rfl, rfl⟩
    · exact ⟨rfl, rfl, rfl, rfl, rfl, rfl, rfl⟩
  rw [scheduleSdrRetry]
  split_ifs
  all_goals exact { hreleased with }

variable (settings sky s) in
/-- The evaluation is not made between two steps that belong together, nor with the slot
    suspended on account of another pass. -/
def Undisturbed : Prop :=
  ∀ p ∈ s.nextPasses, InProgress settings p s.clock →
    settings.window p ∈ s.windows ∧ (p ∉ s.failed → s.suspended = false)

theorem Undisturbed.winner_isSome (h : s.Undisturbed settings) (hp : p ∈ s.nextPasses)
    (hin : InProgress settings p s.clock) (hf : p ∉ s.failed) : ∃ c, s.winner = some c :=
  Decoder.winner_isSome ((h p hp hin).2 hf) (h p hp hin).1 hin.2 ⟨hin.1, hin.2.le⟩

/-- The state in which the evaluation has picked its winner. -/
def picked (s : Decoder) : Decoder :=
  { s with
    windows := s.windows.filter (s.clock < ·.endTs)
    evaluations := (s.clock, s.nextPasses) :: s.evaluations }

/-- The slot is not granted, or released: whatever is in progress has failed. -/
theorem evaluation_of_released {t : ℚ} {failed : List Pass} (ht : s.clock ≤ t)
    (hfailed : ∀ p ∈ s.failed, p ∈ failed)
    (hheld : ∀ p ∈ s.nextPasses, InProgress settings p s.clock → InProgress settings p t →
      p ∈ failed)
    (h : Released { s.picked with clock := t, failed } s') : Evaluation settings s s' where
  clock := h.clock ▸ ht
  nextPasses := h.nextPasses
  evaluations := h.evaluations
  hooks := h.hooks
  failed p hp := h.failed ▸ hfailed p hp
  monitors g m hm := .inl (h.monitors ▸ hm)
  active hactive := by
    rw [h.inactive] at hactive
    cases hactive
  held p hp hin hin' hf := by
    rw [h.clock] at hin'
    rw [h.failed] at hf
    exact absurd (hheld p hp hin hin') hf

theorem evaluation_of_noWinner (hk : s.Undisturbed settings) (hnone : s.winner = none)
    (h : Released s.picked s') : Evaluation settings s s' := by
  refine evaluation_of_released le_rfl (fun p hp => hp) (fun p hp hin _ => ?_) h
  by_contra hf
  obtain ⟨c, hc⟩ := hk.winner_isSome hp hin hf
  rw [hnone] at hc
  cases hc

/-- The state in which the launch begins. -/
def granted (s : Decoder) (delay : ℚ) : Decoder :=
  { s with
    clock := s.clock + delay
    allocationGeneration := s.generation + 1
    generation := s.generation + 1
    dongleGeneration := some (s.generation + 1)
    dongleActive := true }

theorem doAcquire_eq {delay : ℚ} {launch : Launch} : s.doAcquire settings delay launch =
    afterCallback (afterLaunch settings ((s.granted delay).launchSubprocess settings launch)) :=
  rfl

/-- An acquisition that fails. -/
theorem released_doAcquire {delay : ℚ} {launch : Launch} {s₁ : Decoder}
    (h : (s.granted delay).launchSubprocess settings launch = (s₁, false))
    (hinactive : s₁.isActive = false) :
    Released s₁ (s.doAcquire settings delay launch) := by
  rw [doAcquire_eq, h, afterLaunch, afterCallback]
  exact { released_scheduleSdrRetry (s := { s₁ with dongleActive := false }) hinactive with }

theorem evaluation_of_acquire (hs : s.Sound settings sky) (hapart : Apart settings sky)
    (hinactive : s.isActive = false) {delay : ℚ} (hd : 0 ≤ delay) (launch : Launch) :
    Evaluation settings s (s.picked.doAcquire settings delay launch) := by
  have ht : s.clock ≤ s.clock + delay := le_add_of_nonneg_right hd
  cases hfind : (s.picked.granted delay).currentPass? settings with
  | none =>
    have hno : ∀ p ∈ s.nextPasses, InProgress settings p s.clock →
        InProgress settings p (s.clock + delay) → p ∈ s.failed := fun p hp _ hin => by
      have hcontains : (settings.window p).Contains (s.clock + delay) := ⟨hin.1, hin.2.le⟩
      exact absurd (decide_eq_true hcontains) (find?_eq_none.1 hfind p hp)
    have hlaunch : (s.picked.granted delay).launchSubprocess settings launch =
        (s.picked.granted delay, false) := by rw [launchSubprocess, hfind]
    exact evaluation_of_released ht (fun p hp => hp) hno
      { released_doAcquire hlaunch hinactive with }
  | some q =>
    have hfound : (decide ((settings.window q).Contains (s.clock + delay))) = true :=
      find?_some (p := fun p => (settings.window p).Contains (s.clock + delay)) hfind
    have hq := of_decide_eq_true hfound
    have hmem : q ∈ s.nextPasses := mem_of_find?_eq_some hfind
    have hlaunch : (s.picked.granted delay).launchSubprocess settings launch =
        (s.picked.granted delay).launchPass q launch := by rw [launchSubprocess, hfind]
    -- No other pass is in progress at the launch.
    have hfailed : ∀ p ∈ s.nextPasses, InProgress settings p s.clock →
        InProgress settings p (s.clock + delay) → p ∈ q :: s.failed := fun p hp _ hin => by
      by_cases heq : p = q
      · exact heq ▸ mem_cons_self
      · obtain h | h := hapart p (hs.listed p hp) q (hs.listed q hmem) heq
        · exact absurd (h.trans_le hq.1) (not_lt.2 hin.2.le)
        · exact absurd (h.trans_le hin.1) (not_lt.2 hq.2)
    cases launch with
    | missing | failed =>
      exact evaluation_of_released ht (fun p hp => mem_cons_of_mem q hp) hfailed
        { released_doAcquire hlaunch hinactive with }
    | started =>
      rw [doAcquire_eq, hlaunch]
      refine ⟨ht, rfl, rfl, rfl, fun p hp => hp, fun g m hm => ?_, fun _ => ⟨rfl, rfl⟩,
        fun _ _ _ _ _ => rfl⟩
      have hm : (s.monitors.set (s.generation + 1) { pass := q }).get? g = some m := hm
      rw [Dict.get?_set] at hm
      split_ifs at hm
      · cases hm
        exact .inr ⟨hmem, hq.1, rfl, rfl⟩
      · exact .inl hm

theorem Sound.evaluate (hs : s.Sound settings sky) (hapart : Apart settings sky)
    (hk : s.Undisturbed settings) {delay : ℚ} (hd : 0 ≤ delay) (launch : Launch) :
    (s.evaluate settings delay launch).Sound settings sky := by
  refine hs.evaluation ?_
  have hholder : ∀ c, s.dongle.currentHolder = some c → s.isActive = true := fun c hc => by
    rw [dongle] at hc
    by_contra hno
    rw [if_neg hno] at hc
    cases hc
  have hinactive : s.dongle.currentHolder = none → s.isActive = false := fun hc => by
    rw [dongle] at hc
    cases h : s.isActive with
    | false => rfl
    | true =>
      rw [h] at hc
      cases hc
  rw [Decoder.evaluate]
  split
  next hnone =>
    exact evaluation_of_acquire hs hapart (hinactive hnone) hd launch
  next hnone _ => exact evaluation_of_noWinner hk hnone ⟨rfl, rfl, rfl, rfl, rfl, rfl, rfl⟩
  next hc =>
    have hactive := hholder _ hc
    exact ⟨le_rfl, rfl, rfl, rfl, fun p hp => hp, fun g m hm => .inl hm, hs.active,
      fun _ _ _ _ _ => hactive⟩
  next hnone hno =>
    exact evaluation_of_noWinner hk hnone ⟨hinactive hno, rfl, rfl, rfl, rfl, rfl, rfl⟩

/-! ## Runs -/

theorem Sound.next (hs : s.Sound settings sky) (hapart : Apart settings sky) {a : Event}
    (hk : s.OnItsOwn settings sky a) (h : Noaa.next settings sky s a = some s') :
    s'.Sound settings sky := by
  cases a with
  | tick d =>
    rw [Noaa.next] at h
    split_ifs at h with hd
    cases h
    exact hs.later (le_add_of_nonneg_right hd)
  | predict passes =>
    rw [Noaa.next] at h
    split_ifs at h with hforetells
    cases h
    exact hs.predict hk hforetells.2
  | goOn =>
    obtain ⟨u, -, rfl⟩ := Option.map_eq_some_iff.1 h
    rw [Decoder.goOn.eq_def]
    split
    all_goals exact { hs with }
  | evaluate delay launch =>
    rw [Noaa.next] at h
    split_ifs at h with hd
    cases h
    exact hs.evaluate hapart hk hd launch
  | fail g =>
    obtain ⟨p, -, rfl⟩ := Option.map_eq_some_iff.1 h
    exact hs.fail g p
  | hook g =>
    obtain ⟨hook, hg, rfl⟩ := Option.map_eq_some_iff.1 h
    exact hs.onCaptureFailure hg (hk hook hg)
  | monitor g =>
    obtain ⟨m, hg, h⟩ := Option.bind_eq_some_iff.1 h
    exact hs.monitorPass hg (hk m hg) h
  | worker epoch =>
    rw [Noaa.next] at h
    split_ifs at h
    cases h
    rw [Decoder.resumeAfterBackoff]
    split_ifs
    all_goals exact { hs with }

end Decoder

/-! ## The statement -/

variable {settings sky} {s : Decoder} {p : Pass}

/-- A pass whose pipeline does not fail holds the dongle, in every run that lets every
    pass be on its own, from the first evaluation inside its window until its end. -/
theorem passes_captured (hapart : Apart settings sky)
    (h : (decoder settings sky).Reach (Decoder.OnItsOwn settings sky) s) (hp : p ∈ sky)
    (hin : InProgress settings p s.clock) (he : s.Evaluated settings p) (hf : p ∉ s.failed) :
    s.isActive = true := by
  have hs : s.Sound settings sky := by
    refine h.induction (fun s hinit => ?_) fun s a s' hs hk hstep => hs.next hapart hk hstep
    obtain ⟨t, rfl⟩ := hinit
    exact Decoder.sound_init
  exact hs.held p hp hin hf (.inl he)

/-- Two passes, whose windows are from 100 to 300 and from 400 to 600. -/
def firstPass : Prediction := { name := "NOAA 19", aosTs := 130, losTs := 270, maxEl := 40 }

def secondPass : Prediction := { name := "NOAA 18", aosTs := 430, losTs := 570, maxEl := 60 }

def twoPasses : List Pass := Settings.noaaPasses {} [firstPass, secondPass]

/-- A prediction of both passes is taken up. -/
def foretelling : List Event := .predict [firstPass, secondPass] :: List.replicate 4 .goOn

/-- Another prediction arrives in the middle of the first pass. -/
def midway : List Event :=
  foretelling ++ [.tick 150, .evaluate 0 .started] ++ foretelling ++ [.tick 5, .evaluate 0 .started]

/-- The first pass is still captured after the second prediction. -/
theorem passes_captured_midway : ∃ s, (decoder {} twoPasses).Reach
    (Decoder.OnItsOwn {} twoPasses) s ∧ s.clock = 155 ∧ s.isActive = true := by
  obtain ⟨s, hs, hclock, p, hp, hin, he, hf⟩ : ∃ s ∈ midway.foldlM (fun (s : Decoder) a =>
        if s.OnItsOwn {} twoPasses a then next {} twoPasses s a else none) { clock := 0 },
        s.clock = 155 ∧ ∃ p ∈ twoPasses, InProgress {} p s.clock ∧
          s.Evaluated {} p ∧ p ∉ s.failed := by
    decide +kernel
  have hreach : (decoder {} twoPasses).Reach (Decoder.OnItsOwn {} twoPasses) s :=
    Transition.Reach.foldlM (.init ⟨0, rfl⟩) hs
  exact ⟨s, hreach, hclock, passes_captured (by decide +kernel) hreach hp hin he hf⟩

/-- The capture of the first pass fails, and the hook suspends the slot. -/
def failingFirst : List Event :=
  foretelling ++ [.tick 150, .evaluate 0 .started, .fail 1, .hook 1, .hook 1, .tick 300,
    .evaluate 0 .started]

/-- The second pass is lost on account of the first. -/
theorem passes_captured_fails : Apart {} twoPasses ∧
    ¬∀ s, (decoder {} twoPasses).Reachable s → ∀ p ∈ twoPasses, InProgress {} p s.clock →
      s.Evaluated {} p → p ∉ s.failed → s.isActive = true := by
  refine ⟨by decide +kernel, fun hall => ?_⟩
  obtain ⟨s, hs, hinactive, p, hp, hin, he, hf⟩ :
      ∃ s ∈ failingFirst.foldlM (next {} twoPasses) { clock := 0 },
        s.isActive = false ∧ ∃ p ∈ twoPasses, InProgress {} p s.clock ∧
          s.Evaluated {} p ∧ p ∉ s.failed := by
    decide +kernel
  have hactive := hall s (.foldlM (.init ⟨0, rfl⟩) hs) p hp hin he hf
  rw [hinactive] at hactive
  cases hactive

end ReticulumPi.Noaa
