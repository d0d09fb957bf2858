import ReticulumPi.Plugin.Lifecycle

/-!
# Dead plugins stay dead

A plugin that is blocked, has failed, hangs, or has been stopped or asked to stop is not
active, whoever sets it active or ready late, and nobody is left waiting for it; one that
hangs does so for ever, and none becomes ready that is not starting
(`never_resurrected`).
-/

namespace ReticulumPi.Plugin

/-! ## The transitions -/

namespace PluginBase

variable {p : PluginBase}

/-- A plugin that is in a dead state is inactive, and its ready event is set. -/
def Sound (p : PluginBase) : Prop :=
  p.pluginState.Dead → p.active = false ∧ p.readyEvent = true

theorem sound_leave (p : PluginBase) (state : PluginState) (reason : Option String) (now : ℤ) :
    (p.leave state reason now).Sound := fun _ => ⟨rfl, rfl⟩

theorem Sound.setActive (h : p.Sound) (value : Bool) : (p.setActive value).Sound := by
  rw [PluginBase.setActive]
  split_ifs with hvalue hdead
  · exact h
  · exact fun hd => absurd hd hdead
  · exact fun hd => ⟨rfl, (h hd).2⟩

theorem Sound.markStarting (h : p.Sound) (now : ℤ) : ((p.markStarting now).getD p).Sound := by
  rw [PluginBase.markStarting]
  split_ifs
  · exact h
  · have hnot : ¬ PluginState.starting.Dead := by decide
    exact fun hd => absurd hd hnot

theorem Sound.markReady (h : p.Sound) (now : ℤ) : (p.markReady now).Sound := by
  rw [PluginBase.markReady]
  by_cases hready : p.pluginState = .ready
  · rw [if_pos hready]
    exact h
  rw [if_neg hready]
  by_cases hstarting : p.pluginState ≠ .starting
  · rw [if_pos hstarting]
    exact h
  · rw [if_neg hstarting]
    have hnot : ¬ PluginState.ready.Dead := by decide
    exact fun hd => absurd hd hnot

/-- What has failed or hangs is stopped again, all else enters a state. -/
theorem sound_stop (p : PluginBase) (state : PluginState) (reason : Option String) (now : ℤ) :
    (if p.pluginState ∈ [.failed, .hung] then { p with stopEvent := true, readyEvent := true }
      else p.leave state reason now).Sound := by
  split_ifs
  · exact fun _ => ⟨rfl, rfl⟩
  · exact sound_leave _ _ _ _

theorem Sound.markDegraded (h : p.Sound) (reason : String) : (p.markDegraded reason).Sound := by
  rw [PluginBase.markDegraded]
  split_ifs
  · exact h
  · exact h

/-! ## Entering and leaving states -/

/-- Readiness is declared of a plugin that is starting. -/
theorem starting_of_markReady {now : ℤ} (h : p.pluginState ≠ .ready)
    (h' : (p.markReady now).pluginState = .ready) : p.pluginState = .starting := by
  by_contra hne
  rw [PluginBase.markReady, if_neg h, if_pos hne] at h'
  exact h h'

theorem hung_of_markReady {now : ℤ} (h : p.pluginState = .hung) :
    (p.markReady now).pluginState = .hung := by
  have hready : p.pluginState ≠ .ready := by rw [h]; decide
  have hstarting : p.pluginState ≠ .starting := by rw [h]; decide
  rw [PluginBase.markReady, if_neg hready, if_pos hstarting, h]

/-- A transition that may only enter one state, from some states. -/
theorem pluginState_leave_if {P : Prop} [Decidable P] {state : PluginState}
    {reason : Option String} {now : ℤ} :
    (if P then p.leave state reason now else p).pluginState = if P then state else p.pluginState := by
  split_ifs
  · rfl
  · rfl

theorem pluginState_stop {state : PluginState} {reason : Option String} {now : ℤ} :
    (if p.pluginState ∈ [.failed, .hung] then { p with stopEvent := true, readyEvent := true }
      else p.leave state reason now).pluginState =
        if p.pluginState ∈ [.failed, .hung] then p.pluginState else state := by
  split_ifs
  · rfl
  · rfl

theorem pluginState_setActive (value : Bool) : (p.setActive value).pluginState = p.pluginState := by
  rw [PluginBase.setActive]
  split_ifs
  · rfl
  · rfl
  · rfl

theorem pluginState_markDegraded (reason : String) :
    (p.markDegraded reason).pluginState = p.pluginState := by
  rw [PluginBase.markDegraded]
  split_ifs
  · rfl
  · rfl

end PluginBase

namespace System

variable {s s' : System} {e : Event}

theorem sound_step (h : s.plugin.Sound) (hstep : s.next e = some s') : s'.plugin.Sound := by
  cases e with
  | setActive value =>
    cases hstep
    exact h.setActive value
  | markStarting now =>
    cases hstep
    exact h.markStarting now
  | resetStopHook | startStopHook =>
    cases hstep
    exact h
  | markReady now =>
    cases hstep
    exact h.markReady now
  | markStartFailed reason now =>
    cases hstep
    change (s.plugin.markStartFailed reason now).Sound
    rw [PluginBase.markStartFailed]
    split_ifs
    · exact PluginBase.sound_leave _ _ _ _
    · exact h
  | markBlocked reason now =>
    cases hstep
    change (s.plugin.markBlocked reason now).Sound
    rw [PluginBase.markBlocked]
    split_ifs
    · exact PluginBase.sound_leave _ _ _ _
    · exact h
  | markDegraded reason =>
    cases hstep
    exact h.markDegraded reason
  | markHung reason now =>
    cases hstep
    exact fun _ => ⟨rfl, rfl⟩
  | requestStop now | markStopped now =>
    cases hstep
    exact PluginBase.sound_stop _ _ _ _
  | markDependencyBlocked reason now =>
    cases hstep
    change (s.plugin.markDependencyBlocked reason now).1.Sound
    rw [PluginBase.markDependencyBlocked]
    split_ifs
    · exact h
    · exact PluginBase.sound_leave _ _ _ _
  | wait n | wake n timedOut =>
    rw [next] at hstep
    split_ifs at hstep
    cases hstep
    exact h

/-- No step leaves the state in which a plugin hangs, and only `mark_ready` makes a plugin
    ready, which is starting. -/
theorem pluginState_step (hstep : s.next e = some s') :
    (s.plugin.pluginState = .hung → s'.plugin.pluginState = .hung) ∧
      (s.plugin.pluginState ≠ .ready → s'.plugin.pluginState = .ready →
        s.plugin.pluginState = .starting ∧ ∃ now, e = .markReady now) := by
  -- All but `mark_ready` keep the state or enter another one than ready.
  have hkeep : ∀ {P : Prop} [Decidable P] {p : PluginBase} {state : PluginState},
      p.pluginState = (if P then state else s.plugin.pluginState) → (s.plugin.pluginState = .hung → ¬ P) →
        state ≠ .ready → (s.plugin.pluginState = .hung → p.pluginState = .hung) ∧
          (s.plugin.pluginState ≠ .ready → p.pluginState = .ready →
            s.plugin.pluginState = .starting ∧ ∃ now, e = .markReady now) := by
    intro P _ p state hp hhung hstate
    refine ⟨fun h => ?_, fun h hready => ?_⟩
    · rw [hp, if_neg (hhung h), h]
    · rw [hp] at hready
      split_ifs at hready
      · exact absurd hready hstate
      · exact absurd hready h
  have hsame : ∀ {p : PluginBase}, p.pluginState = s.plugin.pluginState →
      (s.plugin.pluginState = .hung → p.pluginState = .hung) ∧
        (s.plugin.pluginState ≠ .ready → p.pluginState = .ready →
          s.plugin.pluginState = .starting ∧ ∃ now, e = .markReady now) := by
    intro p hp
    rw [hp]
    exact ⟨id, fun h h' => absurd h' h⟩
  cases e with
  | setActive value =>
    cases hstep
    exact hsame (PluginBase.pluginState_setActive value)
  | markStarting now =>
    cases hstep
    change (s.plugin.pluginState = .hung → ((s.plugin.markStarting now).getD s.plugin).pluginState =
      .hung) ∧ _
    have hstate : ((s.plugin.markStarting now).getD s.plugin).pluginState =
        if s.plugin.pluginState ∉ [.hung, .starting, .ready, .stopping] then .starting
          else s.plugin.pluginState := by
      rw [PluginBase.markStarting, ite_not]
      split_ifs
      · rfl
      · rfl
    exact hkeep hstate (fun h => by rw [h]; decide) (by decide)
  | resetStopHook | startStopHook =>
    cases hstep
    exact hsame rfl
  | markReady now =>
    cases hstep
    exact ⟨PluginBase.hung_of_markReady, fun h h' => ⟨PluginBase.starting_of_markReady h h', now, rfl⟩⟩
  | markStartFailed reason now | markBlocked reason now =>
    cases hstep
    exact hkeep PluginBase.pluginState_leave_if (fun h => by rw [h]; decide) (by decide)
  | markDegraded reason =>
    cases hstep
    exact hsame (PluginBase.pluginState_markDegraded reason)
  | markHung reason now =>
    cases hstep
    refine ⟨fun _ => rfl, fun _ h => ?_⟩
    cases h
  | requestStop now =>
    cases hstep
    have hstate : (s.plugin.requestStop now).1.pluginState =
        if s.plugin.pluginState ∉ [.failed, .hung] then .stopping else s.plugin.pluginState := by
      rw [ite_not]
      exact PluginBase.pluginState_stop
    exact hkeep hstate (fun h => by rw [h]; decide) (by decide)
  | markStopped now =>
    cases hstep
    have hstate : (s.plugin.markStopped now).1.pluginState =
        if s.plugin.pluginState ∉ [.failed, .hung] then .stopped else s.plugin.pluginState := by
      rw [ite_not]
      exact PluginBase.pluginState_stop
    exact hkeep hstate (fun h => by rw [h]; decide) (by decide)
  | markDependencyBlocked reason now =>
    cases hstep
    have hstate : (s.plugin.markDependencyBlocked reason now).1.pluginState =
        if ¬ (s.plugin.pluginState ∈ [.failed, .hung] ∨
          s.plugin.pluginState = .blocked ∧ s.plugin.lifecycleReason = some reason) then .blocked
            else s.plugin.pluginState := by
      rw [PluginBase.markDependencyBlocked, ite_not]
      split_ifs
      · rfl
      · rfl
    exact hkeep hstate (fun h => not_not.2 (.inl (by rw [h]; decide))) (by decide)
  | wait n | wake n timedOut =>
    rw [next] at hstep
    split_ifs at hstep
    cases hstep
    exact hsame rfl

end System

/-- A plugin in a dead state is not active, and all who wait for it return at once; no step
    leaves the state in which it hangs; and it becomes ready from starting, through
    `mark_ready`, alone. -/
theorem never_resurrected {s : System} (h : system.Reachable s) :
    (s.plugin.pluginState.Dead → s.plugin.active = false ∧ s.plugin.readyEvent = true ∧
      ∀ n, s.waiting n = true → (s.next (.wake n false)).isSome) ∧
    ∀ e s', s.next e = some s' →
      (s.plugin.pluginState = .hung → s'.plugin.pluginState = .hung) ∧
        (s.plugin.pluginState ≠ .ready → s'.plugin.pluginState = .ready →
          s.plugin.pluginState = .starting ∧ ∃ now, e = .markReady now) := by
  have hsound : s.plugin.Sound := by
    refine Transition.Reach.induction (I := fun s : System => s.plugin.Sound) (fun s hs => ?_)
      (fun s e s' hs _ hstep => System.sound_step hs hstep) h
    obtain ⟨now, rfl⟩ := hs
    have hnot : ¬ PluginState.discovered.Dead := by decide
    exact fun hd => absurd hd hnot
  refine ⟨fun hdead => ⟨(hsound hdead).1, (hsound hdead).2, fun n hn => ?_⟩,
    fun e s' hstep => System.pluginState_step hstep⟩
  rw [System.next, hn, (hsound hdead).2]
  rfl

/-- A start that returns late, after the plugin has been found to hang, does not bring it back. -/
def lateStart : List Event :=
  [.markStarting 0, .wait 0, .markHung "start timed out" 30, .setActive true, .markReady 40,
    .markStopped 41]

theorem never_resurrected_lateStart :
    ∃ s ∈ lateStart.foldlM System.next { plugin := { stateChangedMonotonic := 0 } },
      s.plugin.pluginState = .hung ∧ s.plugin.active = false ∧ s.plugin.readyEvent = true ∧
        ∀ n, s.waiting n = true → (s.next (.wake n false)).isSome :=
  ⟨_, rfl, rfl, (never_resurrected (.foldlM (.init ⟨0, rfl⟩)
    (l := lateStart) rfl)).1 (by decide)⟩

end ReticulumPi.Plugin
