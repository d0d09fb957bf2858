import ReticulumPi.Gateway.Commands

/-!
# Commands run once, if at all

At most one command calls back at a time, and a command that succeeds has
called back once, with its generation current before and after
(`commands_fenced`). A command reported as not started never calls back, and so
no queued text is sent twice, in the runs in which no caller that has timed out
reads the note of its worker just before the worker makes it
(`Commands.Orderly`); otherwise a text is sent again (`text_sent_twice`).
-/

namespace ReticulumPi.Gateway

open List

open Fence (Over)

namespace Commands

/-- A caller that has timed out does not read whether the worker has started while the worker is
    about to note that it has; nor, if it has poisoned nothing, while the worker is still to ask
    and its generation current. -/
def Orderly (s : Commands) : CommandEvent → Prop
  | .caller i _ => ∀ c ∈ s.calls[i]?, c.caller = .readStarted → c.worker ≠ .mark ∧
      (c.poisonOnTimeout = false → c.worker = .check → s.fence.isCurrent c.target = false)
  | _ => True

instance (s : Commands) : (e : CommandEvent) → Decidable (s.Orderly e)
  | .caller i _ => inferInstanceAs (Decidable (∀ c ∈ s.calls[i]?, _))
  | .fence _ | .call _ _ _ | .worker _ _ | .enqueue | .dropOldest | .take | .putBack | .send _
  | .sendDirect _ | .sent => inferInstanceAs (Decidable True)

end Commands

namespace Call

variable {f f' : Fence} {c : Call}

/-- The call has the lock. -/
def holding (c : Call) : Bool :=
  c.caller = .gate || c.caller = .start || c.worker = .check || c.worker = .mark ||
    c.worker = .call || c.worker = .running || c.worker = .recheck || c.worker = .release

variable (f)

/-- The callback was never called, and never will be. -/
structure Never (c : Call) : Prop where
  started : c.started = false
  ran : c.ran = 0
  not_mark : c.worker ≠ .mark
  check : c.worker = .check → f.Over c.target.2

/-- The caller has returned, and the callback was never called and never will be. -/
def Dead (c : Call) : Prop := (∃ r, c.caller = .returned r) ∧ c.Never f

/-- Once, and with the generation current before and after. -/
def Fenced (c : Call) : Prop :=
  c.started = true ∧ c.ran = 1 ∧ c.beganCurrent = true ∧ c.endedCurrent = true

/-- What a worker has done, by where it stands. -/
def WorkerSound (c : Call) : Prop :=
  match c.worker with
  | .absent | .check | .mark => c.started = false ∧ c.ran = 0
  | .call => c.started = true ∧ c.ran = 0
  | .running => c.started = true ∧ c.ran = 1 ∧ (c.beganCurrent = true ∨ f.Over c.target.2)
  | .recheck => c.started = true ∧ c.ran = 1 ∧
      (c.beganCurrent = true ∧ c.endedCurrent = true ∨ f.Over c.target.2)
  | .release | .signal | .exited => c.started = false ∧ c.ran = 0 ∨
      c.started = true ∧ c.ran = 1 ∧ (c.stale = true ∨ c.error = true ∨ c.Fenced)

/-- What a caller knows, by where it stands. -/
def CallerSound (c : Call) : Prop :=
  match c.caller with
  | .entry | .acquire | .gate | .start => c.worker = .absent
  | .wait | .timedOut => c.worker ≠ .absent
  | .readStarted => c.worker ≠ .absent ∧ (c.poisonOnTimeout = true → f.Over c.target.2)
  | .returned r => (r.started = false → c.Never f) ∧
      (r.outcome = .success → c.worker = .exited ∧ c.Fenced) ∧
      (c.worker = .absent → r.started = false)

structure Sound (lock : Option ℕ) (i : ℕ) (c : Call) : Prop where
  holds : c.holding = true → lock = some i
  opened : c.worker ≠ .absent ∨ c.caller = .acquire ∨ c.caller = .gate ∨ c.caller = .start →
    c.target ∈ f.opened
  done : c.done = true → c.worker = .exited
  worker : c.WorkerSound f
  caller : c.CallerSound f

/-- The fence has moved on. -/
structure Later (f f' : Fence) : Prop where
  ended : ∀ g, f.Over g → f'.Over g
  opened : ∀ p ∈ f.opened, p ∈ f'.opened

theorem Later.refl : Later f f := ⟨fun _ h => h, fun _ h => h⟩

variable {f}

theorem later_apply {op : Fence.Op} (h : f.apply op = some f') : Later f f' :=
  ⟨fun _ => Fence.apply_over h, (Fence.apply_grows h).2.2⟩

theorem Never.mono (h : c.Never f) (hf : Later f f') : c.Never f' :=
  ⟨h.started, h.ran, h.not_mark, fun hc => hf.ended _ (h.check hc)⟩

theorem Dead.mono (h : c.Dead f) (hf : Later f f') : c.Dead f' := ⟨h.1, h.2.mono hf⟩

/-- What is known of a call stays so while others go on. -/
theorem Sound.mono {lock lock' : Option ℕ} {i : ℕ} (h : c.Sound f lock i) (hf : Later f f')
    (hlock : c.holding = true → lock = some i → lock' = some i) : c.Sound f' lock' i where
  holds hc := hlock hc (h.holds hc)
  opened hc := hf.opened _ (h.opened hc)
  done := h.done
  worker := by
    have hw := h.worker
    rw [WorkerSound] at hw ⊢
    cases hc : c.worker with
    | running | recheck =>
      rw [hc] at hw
      exact ⟨hw.1, hw.2.1, hw.2.2.imp_right (hf.ended _)⟩
    | _ =>
      rw [hc] at hw
      exact hw
  caller := by
    have hw := h.caller
    rw [CallerSound] at hw ⊢
    cases hc : c.caller with
    | readStarted =>
      rw [hc] at hw
      exact ⟨hw.1, fun hp => hf.ended _ (hw.2 hp)⟩
    | returned r =>
      rw [hc] at hw
      exact ⟨fun hr => (hw.1 hr).mono hf, hw.2⟩
    | _ =>
      rw [hc] at hw
      exact hw

/-- A call that returns before it has a worker. -/
theorem Sound.refuse {lock : Option ℕ} {i : ℕ} (h : c.Sound f lock i) (hw : c.worker = .absent)
    {r : CommandResult} (hr : r.started = false) (hr' : r.outcome ≠ .success) (lock' : Option ℕ) :
    ({ c with caller := .returned r } : Call).Sound f lock' i := by
  have hworker := h.worker
  rw [WorkerSound, hw] at hworker
  refine ⟨fun hh => ?_, fun ho => ?_, h.done, h.worker, ?_⟩
  · simp [holding, hw] at hh
  · simp [hw] at ho
  · refine ⟨fun _ => ⟨hworker.1, hworker.2, ?_, ?_⟩, fun hsuccess => absurd hsuccess hr', fun _ => hr⟩
    all_goals
      dsimp only
      rw [hw]
      nofun

/-- A call that goes on without a worker. -/
theorem Sound.proceed {lock lock' : Option ℕ} {i : ℕ} (h : c.Sound f lock i)
    (hw : c.worker = .absent) (hopened : c.target ∈ f.opened) {pc : Caller}
    (hpc : pc = .acquire ∨ (pc = .gate ∨ pc = .start) ∧ lock' = some i) :
    ({ c with caller := pc } : Call).Sound f lock' i := by
  refine ⟨fun hh => ?_, fun _ => hopened, h.done, h.worker, ?_⟩
  · rcases hpc with rfl | ⟨-, hlock⟩
    · simp [holding, hw] at hh
    · exact hlock
  · rcases hpc with rfl | ⟨rfl | rfl, -⟩ <;> exact hw

end Call

namespace Commands

open Call (Later later_apply)

variable {s s' : Commands} {i : ℕ} {c c' : Call}

/-- What a step of the call `i` does. -/
structure Steps (s s' : Commands) (i : ℕ) (c c' : Call) : Prop where
  calls : s'.calls = s.calls.set i c'
  later : Later s.fence s'.fence
  fence : s'.fence.Sound
  sound : c'.Sound s'.fence s'.operationLock i
  lock : ∀ j ≠ i, s.operationLock = some j → s'.operationLock = some j
  item : c'.item = c.item
  returned : ∀ r, c.caller = .returned r → c'.caller = .returned r
  never : (∃ r, c.caller = .returned r) → c.Never s.fence → c'.Never s'.fence
  /-- The callback is called, or nothing happens outside. -/
  effect : s'.drain = s.drain ∧ c'.ran = c.ran ∨
    s'.drain = { s.drain with sends := c.item.toList ++ s.drain.sends } ∧ c.worker = .call ∧
      c'.ran = c.ran + 1

/-- What a caller reads once its worker has exited. -/
theorem result_sound {f : Fence} {lock : Option ℕ} (hc : c.Sound f lock i) (hdone : c.done = true) :
    ({ c with caller := .returned c.result } : Call).CallerSound f := by
  have hexited := hc.done hdone
  have hworker := hc.worker
  rw [Call.WorkerSound, hexited] at hworker
  refine ⟨fun hr => ?_, fun hr => ?_, fun hw => ?_⟩
  · rcases hworker with ⟨hstarted, hran⟩ | ⟨hstarted, -⟩
    · exact ⟨hstarted, hran, by rw [hexited]; nofun, by rw [hexited]; nofun⟩
    · have hresult : c.result.started = true := by
        rw [Call.result, hstarted]
        cases c.stale <;> cases c.error <;> rfl
      exact absurd (hr.symm.trans hresult) Bool.false_ne_true
  · rcases hworker with ⟨hstarted, -⟩ | ⟨hstarted, -, hbad | hbad | hfenced⟩
    · simp [Call.result, hstarted] at hr
    · simp [Call.result, hstarted, hbad] at hr
    · cases hstale : c.stale <;> simp [Call.result, hstarted, hbad, hstale] at hr
    · exact ⟨hexited, hfenced⟩
  · rw [hexited] at hw
    cases hw

/-- A step of the caller that leaves the fence as it is. -/
theorem Steps.caller (hf : s.fence.Sound) (hret : ∀ r, c.caller ≠ .returned r) {c' : Call}
    {lock : Option ℕ} (hsound : c'.Sound s.fence lock i)
    (hlock : ∀ j ≠ i, s.operationLock = some j → lock = some j) (hitem : c'.item = c.item)
    (hran : c'.ran = c.ran) :
    Steps s ({ s with operationLock := lock }.setCall i c') i c c' where
  calls := rfl
  later := .refl _
  fence := hf
  sound := hsound
  lock := hlock
  item := hitem
  returned r hr := absurd hr (hret r)
  never h _ := absurd h.choose_spec (hret _)
  effect := .inl ⟨rfl, hran⟩

/-- A step of the caller keeps the call sound. -/
theorem callerStep_steps {env : Bool} (hf : s.fence.Sound) (hc : c.Sound s.fence s.operationLock i)
    (hok : c.caller = .readStarted → c.worker ≠ .mark ∧
      (c.poisonOnTimeout = false → c.worker = .check → s.fence.isCurrent c.target = false))
    (hs : s.callerStep i c env = some s') : ∃ c', Steps s s' i c c' := by
  have hcaller := hc.caller
  rw [Call.CallerSound] at hcaller
  rw [callerStep.eq_def] at hs
  have hsame : ∀ j ≠ i, s.operationLock = some j → s.operationLock = some j := fun _ _ h => h
  -- A call that has the lock is the only one that can release it.
  have hfree : s.operationLock = some i → ∀ j ≠ i, s.operationLock = some j → none = some j :=
    fun hi j hne hj => absurd (Option.some.inj (hj.symm.trans hi)) hne
  cases hpc : c.caller with
  | entry =>
    rw [hpc] at hs hcaller
    cases hs
    refine ⟨_, .caller hf (fun r => hpc ▸ nofun) ?_ hsame rfl rfl⟩
    split_ifs with hcurrent
    · exact hc.proceed hcaller (hf.opened_of_isCurrent hcurrent) (.inl rfl)
    · exact hc.refuse hcaller rfl (by decide) _
  | acquire =>
    rw [hpc] at hs hcaller
    have hopened := hc.opened (.inr (.inl hpc))
    cases hlock : s.operationLock with
    | some k =>
      rw [hlock] at hs
      cases hs
      exact ⟨_, Steps.caller hf (fun r => hpc ▸ nofun) (hc.refuse hcaller rfl (by decide) _) hsame rfl rfl⟩
    | none =>
      rw [hlock] at hs
      cases hs
      refine ⟨_, .caller hf (fun r => hpc ▸ nofun)
        (hc.proceed hcaller hopened (.inr ⟨.inl rfl, rfl⟩)) (fun j _ hj => ?_) rfl rfl⟩
      rw [hlock] at hj
      cases hj
  | gate =>
    rw [hpc] at hs hcaller
    have hopened := hc.opened (.inr (.inr (.inl hpc)))
    have hlock := hc.holds (by simp [Call.holding, hpc])
    dsimp only at hs
    split_ifs at hs
    · cases hs
      exact ⟨_, Steps.caller hf (fun r => hpc ▸ nofun) (hc.refuse hcaller rfl (by decide) _) (hfree hlock)
        rfl rfl⟩
    · cases hs
      exact ⟨_, .caller hf (fun r => hpc ▸ nofun)
        (hc.proceed hcaller hopened (.inr ⟨.inr rfl, hlock⟩)) hsame rfl rfl⟩
  | start =>
    rw [hpc] at hs hcaller
    have hopened := hc.opened (.inr (.inr (.inr hpc)))
    have hlock := hc.holds (by simp [Call.holding, hpc])
    dsimp only at hs
    split_ifs at hs
    · cases hs
      exact ⟨_, Steps.caller hf (fun r => hpc ▸ nofun) (hc.refuse hcaller rfl (by decide) _) (hfree hlock)
        rfl rfl⟩
    · cases hs
      have hworker := hc.worker
      rw [Call.WorkerSound, hcaller] at hworker
      refine ⟨_, .caller hf (fun r => hpc ▸ nofun) ⟨fun _ => hlock, fun _ => hopened, fun hdone => ?_,
        hworker, nofun⟩ hsame rfl rfl⟩
      rw [hc.done hdone] at hcaller
      cases hcaller
  | wait =>
    rw [hpc] at hs hcaller
    have hopened := hc.opened (.inl hcaller)
    have hholds : ∀ pc, pc ≠ .gate → pc ≠ .start →
        ({ c with caller := pc } : Call).holding = true → s.operationLock = some i := by
      intro pc hgate hstart hh
      refine hc.holds ?_
      simpa [Call.holding, hpc, hgate, hstart] using hh
    dsimp only at hs
    split_ifs at hs with hdone hout
    · cases hs
      have hexited := hc.done hdone
      have hworker := hc.worker
      rw [Call.WorkerSound, hexited] at hworker
      refine ⟨_, .caller hf (fun r => hpc ▸ nofun) ⟨hholds _ nofun nofun, fun _ => hopened, hc.done,
        hc.worker, ?_⟩ hsame rfl rfl⟩
      exact result_sound hc hdone
    · cases hs
      exact ⟨_, .caller hf (fun r => hpc ▸ nofun) ⟨hholds _ nofun nofun, fun _ => hopened, hc.done,
        hc.worker, hcaller⟩ hsame rfl rfl⟩
  | timedOut =>
    rw [hpc] at hs hcaller
    have hopened := hc.opened (.inl hcaller)
    dsimp only at hs
    split_ifs at hs with hpoison
    · obtain ⟨f, hf', rfl⟩ := Option.map_eq_some_iff.1 hs
      have hlater := later_apply hf'
      have hover := hf.apply_poison hopened hf'
      have hmono : c.Sound f s.operationLock i := hc.mono hlater fun _ h => h
      refine ⟨_, rfl, hlater, hf.apply hf', ⟨fun hh => hmono.holds ?_, fun _ => hlater.opened _ hopened,
        hc.done, hmono.worker, hcaller, fun _ => hover⟩, fun _ _ h => h, rfl, ?_, ?_, .inl ⟨rfl, rfl⟩⟩
      · simpa [Call.holding, hpc] using hh
      · exact fun r hr => by rw [hpc] at hr; cases hr
      · exact fun ⟨r, hr⟩ => by rw [hpc] at hr; cases hr
    · cases hs
      refine ⟨_, .caller hf (fun r => hpc ▸ nofun) ⟨fun hh => hc.holds ?_, fun _ => hopened,
        hc.done, hc.worker, hcaller, fun h => absurd h hpoison⟩ hsame rfl rfl⟩
      simpa [Call.holding, hpc] using hh
  | readStarted =>
    rw [hpc] at hs hcaller
    have hopened := hc.opened (.inl hcaller.1)
    have hworker := hc.worker
    rw [Call.WorkerSound] at hworker
    obtain ⟨hmark, hcheck⟩ := hok hpc
    cases hs
    refine ⟨_, .caller hf (fun r => hpc ▸ nofun) ⟨fun hh => hc.holds ?_, fun _ => hopened,
      hc.done, hc.worker, fun hstarted => ⟨hstarted, ?_, hmark, fun hw => ?_⟩, nofun,
      fun habsent => absurd habsent hcaller.1⟩ hsame rfl rfl⟩
    · simpa [Call.holding, hpc] using hh
    · dsimp only at hstarted
      cases hw : c.worker <;> rw [hw] at hworker <;> simp_all
    · -- The generation is over: it was poisoned, or is not current any more.
      by_cases hpoison : c.poisonOnTimeout = true
      · exact hcaller.2 hpoison
      · by_contra hover
        have hcurrent := (hf.isCurrent_iff hopened).2 hover
        rw [hcheck (by simpa using hpoison) hw] at hcurrent
        cases hcurrent
  | returned r =>
    rw [hpc] at hs
    cases hs

/-- A step of the worker, by what it changes. -/
theorem Steps.worker (hf : s.fence.Sound) (hc : c.Sound s.fence s.operationLock i)
    (hlive : c.worker ≠ .absent) (hlive' : c.worker ≠ .exited) {c' : Call} {lock : Option ℕ}
    {d : Drain} (hcaller : c'.caller = c.caller) (htarget : c'.target = c.target)
    (hpoison : c'.poisonOnTimeout = c.poisonOnTimeout) (hitem : c'.item = c.item)
    (hw : c'.worker ≠ .absent) (hholds : c'.holding = true → lock = some i)
    (hdone : c'.done = true → c'.worker = .exited) (hworker : c'.WorkerSound s.fence)
    (hlock : ∀ j ≠ i, s.operationLock = some j → lock = some j)
    (hnever : c.Never s.fence → c'.Never s.fence)
    (heffect : d = s.drain ∧ c'.ran = c.ran ∨
      d = { s.drain with sends := c.item.toList ++ s.drain.sends } ∧ c.worker = .call ∧
        c'.ran = c.ran + 1) :
    Steps s ({ s with operationLock := lock, drain := d }.setCall i c') i c c' where
  calls := rfl
  later := .refl _
  fence := hf
  sound := by
    refine ⟨hholds, fun _ => htarget ▸ hc.opened (.inl hlive), hdone, hworker, ?_⟩
    have hc := hc.caller
    rw [Call.CallerSound] at hc ⊢
    rw [hcaller]
    cases hpc : c.caller with
    | wait => exact hw
    | timedOut => exact hw
    | readStarted =>
      rw [hpc] at hc
      exact ⟨hw, fun hp => htarget ▸ hc.2 (hpoison ▸ hp)⟩
    | returned r =>
      rw [hpc] at hc
      exact ⟨fun hr => hnever (hc.1 hr), fun hr => absurd (hc.2.1 hr).1 hlive',
        fun habsent => absurd habsent hw⟩
    | _ =>
      rw [hpc] at hc
      exact absurd hc hlive
  lock := hlock
  item := hitem
  returned r hr := hcaller.trans hr
  never _ h := hnever h
  effect := heffect

/-- A step of the worker keeps the call sound. -/
theorem workerStep_steps {raises : Bool} (hf : s.fence.Sound)
    (hc : c.Sound s.fence s.operationLock i) (hs : s.workerStep i c raises = some s') :
    ∃ c', Steps s s' i c c' := by
  have hworker := hc.worker
  rw [Call.WorkerSound] at hworker
  rw [workerStep.eq_def] at hs
  have hsame : ∀ j ≠ i, s.operationLock = some j → s.operationLock = some j := fun _ _ h => h
  have hdone : c.worker ≠ .exited → ¬c.done = true := fun hne h => hne (hc.done h)
  have hopened : c.worker ≠ .absent → c.target ∈ s.fence.opened := fun hne => hc.opened (.inl hne)
  cases hw : c.worker with
  | absent | exited =>
    rw [hw] at hs
    cases hs
  | check =>
    rw [hw] at hs hworker hdone hopened
    have hlock := hc.holds (by simp [Call.holding, hw])
    cases hs
    refine ⟨_, Steps.worker hf hc (by rw [hw]; nofun) (by rw [hw]; nofun) rfl rfl rfl rfl ?_
      (fun _ => hlock) (fun h => absurd h (hdone nofun)) ?_ hsame (fun h => ?_) (.inl ⟨rfl, rfl⟩)⟩
    · dsimp only
      split_ifs <;> nofun
    · dsimp only [Call.WorkerSound]
      split_ifs
      · exact hworker
      · exact .inl hworker
    · refine ⟨h.started, h.ran, ?_, ?_⟩
      · dsimp only
        split_ifs with hcurrent
        · -- The generation is over, so the worker does not go on.
          exact absurd (h.check hw) ((hf.isCurrent_iff (hopened nofun)).1 hcurrent)
        · nofun
      · dsimp only
        split_ifs <;> nofun
  | mark =>
    rw [hw] at hs hworker hdone
    have hlock := hc.holds (by simp [Call.holding, hw])
    cases hs
    exact ⟨_, Steps.worker hf hc (by rw [hw]; nofun) (by rw [hw]; nofun) rfl rfl rfl rfl nofun
      (fun _ => hlock) (fun h => absurd h (hdone nofun)) ⟨rfl, hworker.2⟩ hsame
      (fun h => absurd hw h.not_mark) (.inl ⟨rfl, rfl⟩)⟩
  | call =>
    rw [hw] at hs hworker hdone hopened
    have hlock := hc.holds (by simp [Call.holding, hw])
    cases hs
    refine ⟨_, Steps.worker hf hc (by rw [hw]; nofun) (by rw [hw]; nofun) rfl rfl rfl rfl nofun
      (fun _ => hlock) (fun h => absurd h (hdone nofun)) ⟨hworker.1, ?_, ?_⟩ hsame
      (fun h => ?_) (.inr ⟨rfl, hw, rfl⟩)⟩
    · dsimp only
      rw [hworker.2]
    · by_cases hover : s.fence.Over c.target.2
      · exact .inr hover
      · exact .inl ((hf.isCurrent_iff (hopened nofun)).2 hover)
    · have hstarted := h.started
      rw [hworker.1] at hstarted
      cases hstarted
  | running =>
    rw [hw] at hs hworker hdone hopened
    have hlock := hc.holds (by simp [Call.holding, hw])
    obtain ⟨hstarted, hran, hbegan⟩ := hworker
    have hnever : ∀ c' : Call, c.Never s.fence → c'.Never s.fence := fun c' h => by
      have := h.started
      rw [hstarted] at this
      cases this
    dsimp only at hs
    split_ifs at hs
    · cases hs
      exact ⟨_, Steps.worker hf hc (by rw [hw]; nofun) (by rw [hw]; nofun) rfl rfl rfl rfl nofun
        (fun _ => hlock) (fun h => absurd h (hdone nofun)) (.inr ⟨hstarted, hran, .inr (.inl rfl)⟩)
        hsame (hnever _) (.inl ⟨rfl, rfl⟩)⟩
    · cases hs
      refine ⟨_, Steps.worker hf hc (by rw [hw]; nofun) (by rw [hw]; nofun) rfl rfl rfl rfl nofun
        (fun _ => hlock) (fun h => absurd h (hdone nofun)) ⟨hstarted, hran, ?_⟩ hsame
        (hnever _) (.inl ⟨rfl, rfl⟩)⟩
      by_cases hover : s.fence.Over c.target.2
      · exact .inr hover
      · exact .inl ⟨hbegan.resolve_right hover, (hf.isCurrent_iff (hopened nofun)).2 hover⟩
  | recheck =>
    rw [hw] at hs hworker hdone hopened
    have hlock := hc.holds (by simp [Call.holding, hw])
    obtain ⟨hstarted, hran, hcurrent⟩ := hworker
    cases hs
    refine ⟨_, Steps.worker hf hc (by rw [hw]; nofun) (by rw [hw]; nofun) rfl rfl rfl rfl nofun
      (fun _ => hlock) (fun h => absurd h (hdone nofun)) (.inr ⟨hstarted, hran, ?_⟩) hsame
      (fun h => ?_) (.inl ⟨rfl, rfl⟩)⟩
    · by_cases hover : s.fence.Over c.target.2
      · have hstale : s.fence.isCurrent c.target = false :=
          Bool.eq_false_iff.2 fun h => (hf.isCurrent_iff (hopened nofun)).1 h hover
        exact .inl (congrArg not hstale)
      · exact .inr (.inr ⟨hstarted, hran, hcurrent.resolve_right hover⟩)
    · have := h.started
      rw [hstarted] at this
      cases this
  | release =>
    rw [hw] at hs hworker hdone
    have hlock := hc.holds (by simp [Call.holding, hw])
    cases hs
    refine ⟨_, Steps.worker hf hc (by rw [hw]; nofun) (by rw [hw]; nofun) rfl rfl rfl rfl nofun
      (fun h => ?_) (fun h => absurd h (hdone nofun)) hworker (fun j hne hj => ?_)
      (fun h => ⟨h.started, h.ran, nofun, nofun⟩) (.inl ⟨rfl, rfl⟩)⟩
    · -- The caller has none of the places at which it has the lock.
      have hcaller := hc.caller
      rw [Call.CallerSound] at hcaller
      cases hpc : c.caller <;> simp_all [Call.holding]
    · exact absurd (Option.some.inj (hj.symm.trans hlock)) hne
  | signal =>
    rw [hw] at hs hworker
    cases hs
    refine ⟨_, Steps.worker hf hc (by rw [hw]; nofun) (by rw [hw]; nofun) rfl rfl rfl rfl nofun
      (fun h => hc.holds ?_) (fun _ => rfl) hworker hsame
      (fun h => ⟨h.started, h.ran, nofun, nofun⟩) (.inl ⟨rfl, rfl⟩)⟩
    simpa [Call.holding, hw] using h

/-! ## The queue -/

/-- The text has not been sent, and no command that was to send it will. -/
def Unsent (s : Commands) (x : ℕ) : Prop :=
  x ∉ s.drain.sends ∧ ∀ (i : ℕ) (c : Call), s.calls[i]? = some c → c.item = some x → c.Dead s.fence

/-- The texts are sent by one command each, and those that wait have not been sent. -/
structure DrainSound (s : Commands) : Prop where
  known : ∀ x, x ∈ s.drain.queue ∨ s.drain.held = some x ∨ x ∈ s.drain.sends ∨
    (∃ (i : ℕ) (c : Call), s.calls[i]? = some c ∧ c.item = some x) → x < s.drain.nextItem
  waiting_nodup : (s.drain.held.toList ++ s.drain.queue).Nodup
  sends_nodup : s.drain.sends.Nodup
  /-- What a command may yet send has not been sent. -/
  unsent : ∀ (i : ℕ) (c : Call) (x : ℕ), s.calls[i]? = some c → c.item = some x → c.ran = 0 →
    c.Dead s.fence ∨ x ∉ s.drain.sends
  alone : ∀ (i j : ℕ) (c c' : Call) (x : ℕ), i ≠ j → s.calls[i]? = some c → s.calls[j]? = some c' →
    c.item = some x → c'.item = some x → c.Dead s.fence ∨ c'.Dead s.fence
  waiting : ∀ x, x ∈ s.drain.queue ∨ s.drain.held = some x ∧ s.drain.calling = none → s.Unsent x
  calling : ∀ k, s.drain.calling = some k → ∃ (c : Call) (x : ℕ), s.calls[k]? = some c ∧
    s.drain.held = some x ∧ c.item = some x ∧ (c.ran = 0 → x ∉ s.drain.sends) ∧
      ∀ (j : ℕ) (c' : Call), j ≠ k → s.calls[j]? = some c' → c'.item = some x → c'.Dead s.fence

structure Sound (s : Commands) : Prop where
  fence : s.fence.Sound
  calls : ∀ (i : ℕ) (c : Call), s.calls[i]? = some c → c.Sound s.fence s.operationLock i
  drain : s.DrainSound

/-- The calls after a step of one of them. -/
theorem Steps.lookup (h : Steps s s' i c c') (hi : s.calls[i]? = some c) {j : ℕ} {d : Call} :
    s'.calls[j]? = some d ↔ j = i ∧ d = c' ∨ j ≠ i ∧ s.calls[j]? = some d := by
  have hlt : i < s.calls.length := (List.getElem?_eq_some_iff.1 hi).1
  rw [h.calls]
  by_cases hij : i = j
  · subst hij
    rw [getElem?_set_self hlt, Option.some.injEq]
    constructor
    · exact fun heq => .inl ⟨rfl, heq.symm⟩
    · exact fun h => h.elim (fun h => h.2.symm) fun h => absurd rfl h.1
  · rw [getElem?_set_ne hij]
    constructor
    · exact fun heq => .inr ⟨fun h => hij h.symm, heq⟩
    · exact fun h => h.elim (fun h => absurd h.1.symm hij) fun h => h.2

theorem Steps.dead (h : Steps s s' i c c') (hd : c.Dead s.fence) : c'.Dead s'.fence := by
  obtain ⟨⟨r, hr⟩, hnever⟩ := hd
  exact ⟨⟨r, h.returned r hr⟩, h.never ⟨r, hr⟩ hnever⟩

/-- Where a call comes from that is there after the step. -/
theorem Steps.origin (h : Steps s s' i c c') (hi : s.calls[i]? = some c) {j : ℕ} {d : Call}
    (hd : s'.calls[j]? = some d) : ∃ d₀, s.calls[j]? = some d₀ ∧ d.item = d₀.item ∧
      (d₀.Dead s.fence → d.Dead s'.fence) ∧ (j ≠ i → d = d₀) ∧ (j = i → d₀ = c ∧ d = c') := by
  rcases (h.lookup hi).1 hd with ⟨rfl, rfl⟩ | ⟨hne, hd⟩
  · exact ⟨c, hi, h.item, h.dead, fun hne => absurd rfl hne, fun _ => ⟨rfl, rfl⟩⟩
  · exact ⟨d, hd, rfl, (Call.Dead.mono · h.later), fun _ => rfl, fun heq => absurd heq hne⟩

/-- What becomes of a call in the step. -/
theorem Steps.image (h : Steps s s' i c c') (hi : s.calls[i]? = some c) {j : ℕ} {d : Call}
    (hd : s.calls[j]? = some d) : ∃ d', s'.calls[j]? = some d' ∧ d'.item = d.item ∧
      (j ≠ i → d' = d) ∧ (j = i → d = c ∧ d' = c') := by
  by_cases hij : j = i
  · subst hij
    obtain rfl := Option.some.inj (hi.symm.trans hd)
    exact ⟨c', (h.lookup hi).2 (.inl ⟨rfl, rfl⟩), h.item, fun hne => absurd rfl hne,
      fun _ => ⟨rfl, rfl⟩⟩
  · exact ⟨d, (h.lookup hi).2 (.inr ⟨hij, hd⟩), rfl, fun _ => rfl, fun heq => absurd heq hij⟩

/-- Which calls are to send a text, and which are dead, is kept by a step of a call. -/
theorem DrainSound.alone_step (hs : s.DrainSound) (h : Steps s s' i c c')
    (hi : s.calls[i]? = some c) (j k : ℕ) (d d' : Call) (x : ℕ) (hne : j ≠ k)
    (hd : s'.calls[j]? = some d) (hd' : s'.calls[k]? = some d') (hdx : d.item = some x)
    (hdx' : d'.item = some x) : d.Dead s'.fence ∨ d'.Dead s'.fence := by
  obtain ⟨d₀, hd₀, hitem, hdead, -⟩ := h.origin hi hd
  obtain ⟨d₀', hd₀', hitem', hdead', -⟩ := h.origin hi hd'
  exact (hs.alone j k d₀ d₀' x hne hd₀ hd₀' (hitem ▸ hdx) (hitem' ▸ hdx')).imp hdead hdead'

/-- A step of a call that sends nothing. -/
theorem DrainSound.quiet (hs : s.DrainSound) (h : Steps s s' i c c') (hi : s.calls[i]? = some c)
    (hdrain : s'.drain = s.drain) (hran : c'.ran = 0 → c.ran = 0) : s'.DrainSound where
  known x hx := by
    rw [hdrain] at hx ⊢
    refine hs.known x (hx.imp_right (.imp_right (.imp_right ?_)))
    rintro ⟨j, d, hd, hdx⟩
    obtain ⟨d₀, hd₀, hitem, -⟩ := h.origin hi hd
    exact ⟨j, d₀, hd₀, hitem ▸ hdx⟩
  waiting_nodup := hdrain ▸ hs.waiting_nodup
  sends_nodup := hdrain ▸ hs.sends_nodup
  unsent j d x hd hdx hzero := by
    rw [hdrain]
    obtain ⟨d₀, hd₀, hitem, hdead, hother, hself⟩ := h.origin hi hd
    have hzero₀ : d₀.ran = 0 := by
      by_cases hj : j = i
      · obtain ⟨rfl, rfl⟩ := hself hj
        exact hran hzero
      · rwa [← hother hj]
    exact (hs.unsent j d₀ x hd₀ (hitem ▸ hdx) hzero₀).imp_left hdead
  alone := hs.alone_step h hi
  waiting x hx := by
    rw [hdrain] at hx
    obtain ⟨hsends, hdead⟩ := hs.waiting x hx
    refine ⟨hdrain ▸ hsends, fun j d hd hdx => ?_⟩
    obtain ⟨d₀, hd₀, hitem, hdead₀, -⟩ := h.origin hi hd
    exact hdead₀ (hdead j d₀ hd₀ (hitem ▸ hdx))
  calling k hk := by
    rw [hdrain] at hk ⊢
    obtain ⟨d, x, hd, hheld, hdx, hzero, hothers⟩ := hs.calling k hk
    obtain ⟨d', hd', hitem, hother, hself⟩ := h.image hi hd
    refine ⟨d', x, hd', hheld, hitem.trans hdx, fun hzero' => hzero ?_, fun j e hj he hex => ?_⟩
    · by_cases hki : k = i
      · obtain ⟨rfl, rfl⟩ := hself hki
        exact hran hzero'
      · rwa [← hother hki]
    · obtain ⟨e₀, he₀, hitem₀, hdead₀, -⟩ := h.origin hi he
      exact hdead₀ (hothers j e₀ hj he₀ (hitem₀ ▸ hex))

/-- A step of a call that sends its text. -/
theorem DrainSound.send (hs : s.DrainSound) (h : Steps s s' i c c') (hi : s.calls[i]? = some c)
    {x : ℕ} (hx : c.item = some x) (hdrain : s'.drain = { s.drain with sends := x :: s.drain.sends })
    (halive : ¬c.Dead s.fence) (hzero : c.ran = 0) (hran : c'.ran ≠ 0) : s'.DrainSound := by
  have hsends : x ∉ s.drain.sends := (hs.unsent i c x hi hx hzero).resolve_left halive
  -- No other command sends the text, and it does not wait.
  have halone : ∀ (j : ℕ) (d : Call), j ≠ i → s.calls[j]? = some d → d.item = some x →
      d.Dead s.fence := fun j d hne hd hdx => (hs.alone i j c d x hne.symm hi hd hx hdx).resolve_left
    halive
  have hwaiting : ∀ y, y ∈ s.drain.queue ∨ s.drain.held = some y ∧ s.drain.calling = none →
      y ≠ x := by
    rintro y hy rfl
    exact halive ((hs.waiting y hy).2 i c hi hx)
  refine ⟨fun y hy => ?_, ?_, ?_, fun j d y hd hdy hzero' => ?_, hs.alone_step h hi, fun y hy => ?_,
    fun k hk => ?_⟩
  · rw [hdrain] at hy ⊢
    have hc : ∃ (j : ℕ) (d : Call), s.calls[j]? = some d ∧ d.item = some x := ⟨i, c, hi, hx⟩
    rcases hy with hy | hy | hy | ⟨j, d, hd, hdy⟩
    · exact hs.known y (.inl hy)
    · exact hs.known y (.inr (.inl hy))
    · rcases mem_cons.1 hy with rfl | hy
      · exact hs.known y (.inr (.inr (.inr hc)))
      · exact hs.known y (.inr (.inr (.inl hy)))
    · obtain ⟨d₀, hd₀, hitem, -⟩ := h.origin hi hd
      exact hs.known y (.inr (.inr (.inr ⟨j, d₀, hd₀, hitem ▸ hdy⟩)))
  · rw [hdrain]
    exact hs.waiting_nodup
  · rw [hdrain]
    exact nodup_cons.2 ⟨hsends, hs.sends_nodup⟩
  · obtain ⟨d₀, hd₀, hitem, hdead, hother, hself⟩ := h.origin hi hd
    by_cases hj : j = i
    · obtain ⟨-, rfl⟩ := hself hj
      exact absurd hzero' hran
    · obtain rfl := hother hj
      by_cases hyx : y = x
      · exact .inl (hdead (halone j d hj hd₀ (hyx ▸ hdy)))
      · refine (hs.unsent j d y hd₀ hdy hzero').imp hdead fun hy => ?_
        rw [hdrain]
        exact fun hmem => (mem_cons.1 hmem).elim hyx hy
  · rw [hdrain] at hy
    obtain ⟨hy', hdead⟩ := hs.waiting y hy
    refine ⟨?_, fun j d hd hdy => ?_⟩
    · rw [hdrain]
      exact fun hmem => (mem_cons.1 hmem).elim (hwaiting y hy) hy'
    · obtain ⟨d₀, hd₀, hitem, hdead₀, -⟩ := h.origin hi hd
      exact hdead₀ (hdead j d₀ hd₀ (hitem ▸ hdy))
  · rw [hdrain] at hk ⊢
    obtain ⟨d, y, hd, hheld, hdy, hzero', hothers⟩ := hs.calling k hk
    obtain ⟨d', hd', hitem, hother, hself⟩ := h.image hi hd
    refine ⟨d', y, hd', hheld, hitem.trans hdy, fun hzero'' => ?_, fun j e hj he hey => ?_⟩
    · by_cases hki : k = i
      · obtain ⟨-, rfl⟩ := hself hki
        exact absurd hzero'' hran
      · obtain rfl := hother hki
        refine fun hmem => (mem_cons.1 hmem).elim (fun hyx => ?_) (hzero' hzero'')
        exact halive (hothers i c (fun hik => hki hik.symm) hi (hyx ▸ hx))
    · obtain ⟨e₀, he₀, hitem₀, hdead₀, -⟩ := h.origin hi he
      exact hdead₀ (hothers j e₀ hj he₀ (hitem₀ ▸ hey))

/-- A step of a call. -/
theorem Sound.steps (hs : s.Sound) (h : Steps s s' i c c') (hi : s.calls[i]? = some c) :
    s'.Sound := by
  refine ⟨h.fence, fun j d hd => ?_, ?_⟩
  · rcases (h.lookup hi).1 hd with ⟨rfl, rfl⟩ | ⟨hne, hd⟩
    · exact h.sound
    · exact (hs.calls j d hd).mono h.later fun _ hj => h.lock j hne hj
  · rcases h.effect with ⟨hdrain, hran⟩ | ⟨hdrain, hw, hran⟩
    · exact hs.drain.quiet h hi hdrain fun hzero => by rwa [← hran]
    · have hworker := (hs.calls i c hi).worker
      rw [Call.WorkerSound, hw] at hworker
      have halive : ¬c.Dead s.fence := fun hdead => by
        have := hdead.2.started
        rw [hworker.1] at this
        cases this
      cases hx : c.item with
      | none =>
        rw [hx] at hdrain
        exact hs.drain.quiet h hi hdrain fun hzero => by omega
      | some x =>
        rw [hx] at hdrain
        exact hs.drain.send h hi hx hdrain halive hworker.2 (by omega)

/-! ## The other steps -/

/-- A locked section of another thread. -/
theorem Sound.fenceStep (hs : s.Sound) {op : Fence.Op} {f : Fence} (hf : s.fence.apply op = some f) :
    Sound { s with fence := f } := by
  have hlater := later_apply hf
  refine ⟨hs.fence.apply hf, fun i c hi => (hs.calls i c hi).mono hlater fun _ h => h, ?_⟩
  have hd := hs.drain
  refine ⟨hd.known, hd.waiting_nodup, hd.sends_nodup, fun i c x hi hx hzero =>
    (hd.unsent i c x hi hx hzero).imp_left (Call.Dead.mono · hlater), fun i j c c' x hne hi hj hx hx' =>
    (hd.alone i j c c' x hne hi hj hx hx').imp (Call.Dead.mono · hlater) (Call.Dead.mono · hlater),
    fun x hx => ?_, fun k hk => ?_⟩
  · obtain ⟨hsends, hdead⟩ := hd.waiting x hx
    exact ⟨hsends, fun i c hi hcx => (hdead i c hi hcx).mono hlater⟩
  · obtain ⟨c, x, hc, hheld, hx, hzero, hothers⟩ := hd.calling k hk
    exact ⟨c, x, hc, hheld, hx, hzero, fun j c' hj hc' hx' => (hothers j c' hj hc' hx').mono hlater⟩

theorem lookup_concat {α : Type} {l : List α} {a d : α} {j : ℕ} :
    (l ++ [a])[j]? = some d ↔ l[j]? = some d ∨ j = l.length ∧ d = a := by
  rcases Nat.lt_trichotomy j l.length with hlt | rfl | hgt
  · rw [getElem?_append_left hlt]
    constructor
    · exact .inl
    · exact fun h => h.elim id fun h => by omega
  · rw [getElem?_concat_length, Option.some.injEq, getElem?_eq_none (Nat.le_refl _)]
    constructor
    · exact fun h => .inr ⟨rfl, h.symm⟩
    · exact fun h => h.elim nofun fun h => h.2.symm
  · rw [getElem?_eq_none (by simp; omega), getElem?_eq_none (by omega)]
    constructor
    · nofun
    · exact fun h => h.elim nofun fun h => by omega

/-- A call that has just been made. -/
theorem sound_new (f : Fence) (lock : Option ℕ) (i : ℕ) (target : Opened)
    (healthProbe poisonOnTimeout : Bool) (item : Option ℕ) :
    ({ target := target, healthProbe := healthProbe, poisonOnTimeout := poisonOnTimeout
       item := item } : Call).Sound f lock i := by
  refine ⟨fun h => ?_, fun h => ?_, nofun, ⟨rfl, rfl⟩, rfl⟩
  · simp [Call.holding] at h
  · simp at h

/-- A call without a text. -/
theorem Sound.callStep (hs : s.Sound) {c : Call} (hitem : c.item = none)
    (hc : c.Sound s.fence s.operationLock s.calls.length) :
    Sound { s with calls := s.calls ++ [c] } := by
  have hold : ∀ {j : ℕ} {d : Call} {x : ℕ}, (s.calls ++ [c])[j]? = some d → d.item = some x →
      s.calls[j]? = some d := by
    intro j d x hd hx
    refine (lookup_concat.1 hd).elim id fun ⟨_, heq⟩ => ?_
    rw [heq, hitem] at hx
    cases hx
  have hd := hs.drain
  refine ⟨hs.fence, fun i d hi => ?_, ?_, hd.waiting_nodup, hd.sends_nodup,
    fun i d x hi hx => hd.unsent i d x (hold hi hx) hx, fun i j d d' x hne hi hj hx hx' =>
    hd.alone i j d d' x hne (hold hi hx) (hold hj hx') hx hx', fun x hx => ?_, fun k hk => ?_⟩
  · rcases lookup_concat.1 hi with hi | ⟨rfl, rfl⟩
    · exact hs.calls i d hi
    · exact hc
  · intro x hx
    refine hd.known x (hx.imp_right (.imp_right (.imp_right ?_)))
    exact fun ⟨i, d, hi, hx⟩ => ⟨i, d, hold hi hx, hx⟩
  · obtain ⟨hsends, hdead⟩ := hd.waiting x hx
    exact ⟨hsends, fun i d hi hx => hdead i d (hold hi hx) hx⟩
  · obtain ⟨d, x, hd, hheld, hx, hzero, hothers⟩ := hd.calling k hk
    exact ⟨d, x, lookup_concat.2 (.inl hd), hheld, hx, hzero,
      fun j d' hj hd' hx' => hothers j d' hj (hold hd' hx') hx'⟩

/-- The drain makes a call for the text it has taken. -/
theorem Sound.sendStep (hs : s.Sound) {x : ℕ} (hheld : s.drain.held = some x)
    (hcalling : s.drain.calling = none) {c : Call} (hitem : c.item = some x)
    (hc : c.Sound s.fence s.operationLock s.calls.length) :
    Sound { s with
      calls := s.calls ++ [c], drain := { s.drain with calling := some s.calls.length } } := by
  have hd := hs.drain
  obtain ⟨hsends, hdead⟩ := hd.waiting x (.inr ⟨hheld, hcalling⟩)
  have hqueue : x ∉ s.drain.queue := by
    have hnodup := hd.waiting_nodup
    rw [hheld] at hnodup
    exact (nodup_cons.1 hnodup).1
  refine ⟨hs.fence, fun i d hi => ?_, fun y hy => ?_, hd.waiting_nodup, hd.sends_nodup,
    fun i d y hi hy hzero => ?_, fun i j d d' y hne hi hj hy hy' => ?_, fun y hy => ?_, fun k hk => ?_⟩
  · rcases lookup_concat.1 hi with hi | ⟨rfl, rfl⟩
    · exact hs.calls i d hi
    · exact hc
  · refine hd.known y ?_
    rcases hy with hy | hy | hy | ⟨i, d, hi, hdy⟩
    · exact .inl hy
    · exact .inr (.inl hy)
    · exact .inr (.inr (.inl hy))
    · rcases lookup_concat.1 hi with hi | ⟨-, rfl⟩
      · exact .inr (.inr (.inr ⟨i, d, hi, hdy⟩))
      · exact .inr (.inl (hheld.trans (hitem.symm.trans hdy)))
  · rcases lookup_concat.1 hi with hi | ⟨-, rfl⟩
    · exact hd.unsent i d y hi hy hzero
    · obtain rfl := Option.some.inj (hitem.symm.trans hy)
      exact .inr hsends
  · -- Whatever was to send the text before is dead.
    rcases lookup_concat.1 hi with hold | ⟨hnew, heq⟩
    · rcases lookup_concat.1 hj with hold' | ⟨-, heq'⟩
      · exact hd.alone i j d d' y hne hold hold' hy hy'
      · obtain rfl := Option.some.inj (hitem.symm.trans (heq' ▸ hy'))
        exact .inl (hdead i d hold hy)
    · rcases lookup_concat.1 hj with hold' | ⟨hnew', -⟩
      · obtain rfl := Option.some.inj (hitem.symm.trans (heq ▸ hy))
        exact .inr (hdead j d' hold' hy')
      · exact absurd (hnew.trans hnew'.symm) hne
  · have hyq : y ∈ s.drain.queue := hy.resolve_right fun h => nomatch h.2
    obtain ⟨hsends', hdead'⟩ := hd.waiting y (.inl hyq)
    refine ⟨hsends', fun i d hi hdy => ?_⟩
    rcases lookup_concat.1 hi with hi | ⟨-, rfl⟩
    · exact hdead' i d hi hdy
    · obtain rfl := Option.some.inj (hitem.symm.trans hdy)
      exact absurd hyq hqueue
  · cases hk
    refine ⟨c, x, lookup_concat.2 (.inr ⟨rfl, rfl⟩), hheld, hitem, fun _ => hsends,
      fun j d hj hd' hx => ?_⟩
    rcases lookup_concat.1 hd' with hd' | ⟨hj', -⟩
    · exact hdead j d hd' hx
    · exact absurd hj' hj

/-- Only a drain that holds a text waits for a command. -/
theorem DrainSound.not_calling (hd : s.DrainSound) (hheld : s.drain.held = none) :
    s.drain.calling = none := by
  cases hk : s.drain.calling with
  | none => rfl
  | some k =>
    obtain ⟨c, x, -, hx, -⟩ := hd.calling k hk
    rw [hheld] at hx
    cases hx

variable (hs : s.Sound)
include hs

theorem Sound.enqueue : Sound { s with drain := { s.drain with
      queue := s.drain.queue ++ [s.drain.nextItem], nextItem := s.drain.nextItem + 1 } } := by
  have hd := hs.drain
  have hnew : ∀ {x : ℕ}, (x ∈ s.drain.queue ∨ s.drain.held = some x ∨ x ∈ s.drain.sends ∨
      (∃ (i : ℕ) (c : Call), s.calls[i]? = some c ∧ c.item = some x)) → x ≠ s.drain.nextItem :=
    fun hx => Nat.ne_of_lt (hd.known _ hx)
  refine ⟨hs.fence, hs.calls, fun x hx => ?_, ?_, hd.sends_nodup, hd.unsent, hd.alone,
    fun x hx => ?_, hd.calling⟩
  · rw [mem_append, mem_singleton, or_assoc] at hx
    rcases hx with hx | rfl | hx
    · exact Nat.lt_succ_of_lt (hd.known x (.inl hx))
    · exact Nat.lt_succ_self _
    · exact Nat.lt_succ_of_lt (hd.known x (.inr hx))
  · rw [← append_assoc, nodup_append]
    refine ⟨hd.waiting_nodup, nodup_cons.2 ⟨nofun, nodup_nil⟩, fun x hx y hy => ?_⟩
    rw [mem_singleton.1 hy]
    rcases mem_append.1 hx with hx | hx
    · exact hnew (.inr (.inl (Option.mem_toList.1 hx)))
    · exact hnew (.inl hx)
  · rw [mem_append, mem_singleton, or_assoc] at hx
    rcases hx with hx | rfl | hx
    · exact hd.waiting x (.inl hx)
    · exact ⟨fun hmem => hnew (.inr (.inr (.inl hmem))) rfl, fun i c hi hc =>
        absurd rfl (hnew (.inr (.inr (.inr ⟨i, c, hi, hc⟩))))⟩
    · exact hd.waiting x (.inr hx)

theorem Sound.dropOldest :
    Sound { s with drain := { s.drain with queue := s.drain.queue.tail } } := by
  have hd := hs.drain
  exact ⟨hs.fence, hs.calls, fun x hx => hd.known x (hx.imp_left mem_of_mem_tail),
    hd.waiting_nodup.sublist ((tail_sublist _).append_left _), hd.sends_nodup, hd.unsent,
    hd.alone, fun x hx => hd.waiting x (hx.imp_left mem_of_mem_tail), hd.calling⟩

theorem Sound.take (hheld : s.drain.held = none) {x : ℕ} {queue : List ℕ}
    (hqueue : s.drain.queue = x :: queue) :
    Sound { s with drain := { s.drain with held := some x, queue := queue } } := by
  have hd := hs.drain
  have hnone := hd.not_calling hheld
  have hnodup := hd.waiting_nodup
  rw [hheld, hqueue] at hnodup
  have hmem : ∀ y, y ∈ queue ∨ some x = some y → y ∈ s.drain.queue := fun y hy => by
    rw [hqueue]
    exact hy.elim (mem_cons_of_mem _) fun heq => Option.some.inj heq ▸ mem_cons_self
  refine ⟨hs.fence, hs.calls, fun y hy => ?_, hnodup, hd.sends_nodup, hd.unsent, hd.alone,
    fun y hy => hd.waiting y (.inl (hmem y (hy.imp_right And.left))), fun k hk => ?_⟩
  · rw [← or_assoc] at hy
    exact hd.known y (hy.elim (fun hy => .inl (hmem y hy)) fun hy => .inr (.inr hy))
  · exact absurd (hk.symm.trans hnone) nofun

/-- A text that has not been sent, and will not be by a command that was made, goes back. -/
theorem Sound.requeue {x : ℕ} (hheld : s.drain.held = some x) (hx : s.Unsent x) :
    Sound { s with drain := { s.drain with
      held := none, calling := none, queue := x :: s.drain.queue } } := by
  have hd := hs.drain
  have hnodup := hd.waiting_nodup
  rw [hheld] at hnodup
  refine ⟨hs.fence, hs.calls, fun y hy => ?_, hnodup, hd.sends_nodup, hd.unsent, hd.alone,
    fun y hy => ?_, nofun⟩
  · refine hd.known y ?_
    rcases hy with hy | hy | hy
    · exact (mem_cons.1 hy).elim (fun heq => .inr (.inl (heq ▸ hheld))) .inl
    · cases hy
    · exact .inr (.inr hy)
  · rcases hy with hy | hy
    · rcases mem_cons.1 hy with rfl | hy
      · exact hx
      · exact hd.waiting y (.inl hy)
    · cases hy.1

/-- The drain is done with a text. -/
theorem Sound.forget :
    Sound { s with drain := { s.drain with held := none, calling := none } } := by
  have hd := hs.drain
  refine ⟨hs.fence, hs.calls, fun y hy => hd.known y ?_,
    (nodup_append.1 hd.waiting_nodup).2.1, hd.sends_nodup, hd.unsent, hd.alone,
    fun y hy => hd.waiting y (.inl (hy.resolve_right fun h => nomatch h.1)), nofun⟩
  rcases hy with hy | hy | hy
  · exact .inl hy
  · cases hy
  · exact .inr (.inr hy)

/-- The drain passes a text on directly. -/
theorem Sound.sendDirect {x : ℕ} (hheld : s.drain.held = some x)
    (hcalling : s.drain.calling = none) :
    Sound { s with drain := { s.drain with held := none, sends := x :: s.drain.sends } } := by
  have hd := hs.drain
  obtain ⟨hsends, hdead⟩ := hd.waiting x (.inr ⟨hheld, hcalling⟩)
  have hnodup := hd.waiting_nodup
  rw [hheld] at hnodup
  obtain ⟨hqueue, hnodup⟩ := nodup_cons.1 hnodup
  refine ⟨hs.fence, hs.calls, fun y hy => hd.known y ?_, hnodup,
    nodup_cons.2 ⟨hsends, hd.sends_nodup⟩, fun i c y hi hy hzero => ?_, hd.alone,
    fun y hy => ?_, fun k hk => absurd (hk.symm.trans hcalling) nofun⟩
  · rcases hy with hy | hy | hy | hy
    · exact .inl hy
    · cases hy
    · exact (mem_cons.1 hy).elim (fun heq => .inr (.inl (heq ▸ hheld))) fun hy =>
        .inr (.inr (.inl hy))
    · exact .inr (.inr (.inr hy))
  · by_cases hyx : y = x
    · exact .inl (hdead i c hi (hyx ▸ hy))
    · exact (hd.unsent i c y hi hy hzero).imp_right fun hy hmem =>
        (mem_cons.1 hmem).elim hyx hy
  · have hyq : y ∈ s.drain.queue := hy.resolve_right fun h => nomatch h.1
    obtain ⟨hsends', hdead'⟩ := hd.waiting y (.inl hyq)
    refine ⟨fun hmem => (mem_cons.1 hmem).elim (fun hyx => hqueue (hyx ▸ hyq)) hsends', hdead'⟩

/-- The command for a text has returned. -/
theorem Sound.sent {x k : ℕ} {c : Call} {r : CommandResult}
    (hheld : s.drain.held = some x) (hcalling : s.drain.calling = some k)
    (hc : s.calls[k]? = some c) (hr : c.caller = .returned r) (hstarted : r.started = false) :
    s.Unsent x := by
  obtain ⟨d, y, hd, hy, hitem, hzero, hothers⟩ := hs.drain.calling k hcalling
  obtain rfl := Option.some.inj (hheld.symm.trans hy)
  obtain rfl := Option.some.inj (hc.symm.trans hd)
  have hcaller := (hs.calls k c hc).caller
  rw [Call.CallerSound, hr] at hcaller
  have hnever := hcaller.1 hstarted
  refine ⟨hzero hnever.ran, fun j c' hj hc' => ?_⟩
  by_cases hjk : j = k
  · subst hjk
    obtain rfl := Option.some.inj (hc.symm.trans hj)
    exact ⟨⟨r, hr⟩, hnever⟩
  · exact hothers j c' hjk hj hc'

/-- A step under the condition. -/
theorem Sound.next {e : CommandEvent} (hok : s.Orderly e) (he : s.next e = some s') : s'.Sound := by
  rw [Commands.next.eq_def] at he
  cases e with
  | fence op =>
    obtain ⟨f, hf, rfl⟩ := Option.map_eq_some_iff.1 he
    exact hs.fenceStep hf
  | call target healthProbe poisonOnTimeout =>
    cases he
    exact hs.callStep rfl (sound_new _ _ _ _ _ _ _)
  | caller i env =>
    dsimp only at he
    cases hi : s.calls[i]? with
    | none =>
      rw [hi] at he
      cases he
    | some c =>
      rw [hi] at he
      obtain ⟨c', h⟩ := callerStep_steps hs.fence (hs.calls i c hi) (hok c hi) he
      exact hs.steps h hi
  | worker i raises =>
    dsimp only at he
    cases hi : s.calls[i]? with
    | none =>
      rw [hi] at he
      cases he
    | some c =>
      rw [hi] at he
      obtain ⟨c', h⟩ := workerStep_steps hs.fence (hs.calls i c hi) he
      exact hs.steps h hi
  | enqueue =>
    obtain ⟨d, hd, rfl⟩ := Option.map_eq_some_iff.1 he
    cases hd
    exact hs.enqueue
  | dropOldest =>
    obtain ⟨d, hd, rfl⟩ := Option.map_eq_some_iff.1 he
    cases hd
    exact hs.dropOldest
  | take =>
    obtain ⟨d, hd, rfl⟩ := Option.map_eq_some_iff.1 he
    rw [drainStep] at hd
    cases hheld : s.drain.held with
    | some x =>
      rw [hheld] at hd
      cases hd
    | none =>
      cases hqueue : s.drain.queue with
      | nil =>
        rw [hheld, hqueue] at hd
        cases hd
      | cons x queue =>
        rw [hheld, hqueue] at hd
        cases hd
        exact hs.take hheld hqueue
  | putBack =>
    obtain ⟨d, hd, rfl⟩ := Option.map_eq_some_iff.1 he
    rw [drainStep] at hd
    cases hheld : s.drain.held with
    | none =>
      rw [hheld] at hd
      cases hd
    | some x =>
      cases hcalling : s.drain.calling with
      | some k =>
        rw [hheld, hcalling] at hd
        cases hd
      | none =>
        rw [hheld, hcalling] at hd
        cases hd
        have h := hs.requeue hheld (hs.drain.waiting x (.inr ⟨hheld, hcalling⟩))
        simpa only [hcalling] using h
  | send target =>
    dsimp only at he
    cases hheld : s.drain.held with
    | none =>
      rw [hheld] at he
      cases he
    | some x =>
      cases hcalling : s.drain.calling with
      | some k =>
        rw [hheld, hcalling] at he
        cases he
      | none =>
        rw [hheld, hcalling] at he
        cases he
        have h := hs.sendStep hheld hcalling rfl (sound_new s.fence _ _ target false true (some x))
        simpa only [hheld] using h
  | sendDirect current =>
    obtain ⟨d, hd, rfl⟩ := Option.map_eq_some_iff.1 he
    rw [drainStep] at hd
    cases hheld : s.drain.held with
    | none =>
      rw [hheld] at hd
      cases hd
    | some x =>
      cases hcalling : s.drain.calling with
      | some k =>
        rw [hheld, hcalling] at hd
        cases hd
      | none =>
        rw [hheld, hcalling] at hd
        dsimp only at hd
        split_ifs at hd
        · cases hd
          have h := hs.sendDirect hheld hcalling
          simpa only [hcalling] using h
        · cases hd
          have h := hs.requeue hheld (hs.drain.waiting x (.inr ⟨hheld, hcalling⟩))
          simpa only [hcalling] using h
  | sent =>
    dsimp only at he
    cases hheld : s.drain.held with
    | none =>
      rw [hheld] at he
      cases he
    | some x =>
      cases hcalling : s.drain.calling with
      | none =>
        rw [hheld, hcalling] at he
        cases he
      | some k =>
        obtain ⟨c, y, hc, -⟩ := hs.drain.calling k hcalling
        rw [hheld, hcalling] at he
        dsimp only at he
        rw [hc] at he
        cases hr : c.caller with
        | returned r =>
          simp only [Option.map_some, hr] at he
          split_ifs at he with hstarted
          · cases he
            rw [Bool.and_eq_true, Bool.not_eq_true', Bool.not_eq_true'] at hstarted
            exact hs.requeue hheld (hs.sent hheld hcalling hc hr hstarted.2)
          · cases he
            exact hs.forget
        | _ =>
          simp only [Option.map_some, hr] at he
          cases he

omit hs

theorem sound_start (serialMode : Bool) : (start serialMode).Sound := by
  have hcalls : ∀ {i : ℕ} {c : Call}, ¬(start serialMode).calls[i]? = some c := by
    intro i c h
    have hnil : (start serialMode).calls = [] := rfl
    rw [hnil, getElem?_nil] at h
    cases h
  refine ⟨Fence.sound_start serialMode, fun _ _ hi => absurd hi hcalls, ⟨fun x hx => ?_, nodup_nil,
    nodup_nil, fun _ _ _ hi => absurd hi hcalls, fun _ _ _ _ _ _ hi => absurd hi hcalls,
    fun x hx => ?_, fun k hk => ?_⟩⟩
  · rcases hx with hx | hx | hx | ⟨i, c, hi, -⟩
    · cases hx
    · cases hx
    · cases hx
    · exact absurd hi hcalls
  · rcases hx with hx | ⟨hx, -⟩
    · cases hx
    · cases hx
  · cases hk

theorem sound_of_reach {serialMode : Bool} (h : (commands serialMode).Reach Orderly s) :
    s.Sound := by
  refine Transition.Reach.induction (fun s hs => ?_) (fun s e s' hs hok he => hs.next hok he) h
  exact hs ▸ sound_start serialMode

/-- A step that leaves the calls, apart from a new one, as they are. -/
def CallsKept (s s' : Commands) : Prop := s'.calls = s.calls ∨ ∃ c, s'.calls = s.calls ++ [c]

/-- A call that has returned a result keeps it. -/
theorem Sound.next_returned (hs : s.Sound) {e : CommandEvent} (hok : s.Orderly e)
    (he : s.next e = some s') {r : CommandResult} (hi : s.calls[i]? = some c)
    (hr : c.caller = .returned r) : ∃ d, s'.calls[i]? = some d ∧ d.caller = .returned r := by
  have hsteps : ∀ {j : ℕ} {d d' : Call}, Steps s s' j d d' → s.calls[j]? = some d →
      ∃ d, s'.calls[i]? = some d ∧ d.caller = .returned r := by
    intro j d d' h hj
    obtain ⟨c', hc', -, hother, hself⟩ := h.image hj hi
    by_cases hij : i = j
    · obtain ⟨rfl, rfl⟩ := hself hij
      exact ⟨c', hc', h.returned r hr⟩
    · exact ⟨c', hc', hother hij ▸ hr⟩
  have hkept : CallsKept s s' → ∃ d, s'.calls[i]? = some d ∧ d.caller = .returned r := by
    rintro (heq | ⟨a, heq⟩)
    · exact ⟨c, heq ▸ hi, hr⟩
    · exact ⟨c, heq ▸ lookup_concat.2 (.inl hi), hr⟩
  rw [Commands.next.eq_def] at he
  cases e with
  | caller j env =>
    dsimp only at he
    cases hj : s.calls[j]? with
    | none =>
      rw [hj] at he
      cases he
    | some d =>
      rw [hj] at he
      obtain ⟨d', h⟩ := callerStep_steps hs.fence (hs.calls j d hj) (hok d hj) he
      exact hsteps h hj
  | worker j raises =>
    dsimp only at he
    cases hj : s.calls[j]? with
    | none =>
      rw [hj] at he
      cases he
    | some d =>
      rw [hj] at he
      obtain ⟨d', h⟩ := workerStep_steps hs.fence (hs.calls j d hj) he
      exact hsteps h hj
  | call target healthProbe poisonOnTimeout =>
    cases he
    exact hkept (.inr ⟨_, rfl⟩)
  | send target =>
    dsimp only at he
    split at he
    · cases he
      exact hkept (.inr ⟨_, rfl⟩)
    · cases he
  | sent =>
    dsimp only at he
    split at he
    · split at he
      · split_ifs at he
        all_goals
          cases he
          exact hkept (.inl rfl)
      · cases he
    · cases he
  | _ =>
    obtain ⟨d, -, rfl⟩ := Option.map_eq_some_iff.1 he
    exact hkept (.inl rfl)

end Commands

/-- At most one command calls back at a time. One that succeeds has called back once, with its
    generation current when it called and when that returned. One that is reported as not started
    has not called back, and never will. And no text is sent twice. -/
theorem commands_fenced {serialMode : Bool} {s : Commands}
    (h : (commands serialMode).Reach Commands.Orderly s) :
    (∀ (i j : ℕ) (c d : Call), s.calls[i]? = some c → s.calls[j]? = some d →
      c.worker = .running → d.worker = .running → i = j) ∧
    (∀ (i : ℕ) (c : Call) (r : CommandResult), s.calls[i]? = some c → c.caller = .returned r →
      r.outcome = .success → c.ran = 1 ∧ c.beganCurrent = true ∧ c.endedCurrent = true) ∧
    (∀ (i : ℕ) (c : Call) (r : CommandResult), s.calls[i]? = some c → c.caller = .returned r →
      r.started = false → ∀ s', (commands serialMode).Leads Commands.Orderly s s' →
        ∃ c', s'.calls[i]? = some c' ∧ c'.ran = 0) ∧
    s.drain.sends.Nodup := by
  have hs := Commands.sound_of_reach h
  refine ⟨fun i j c d hc hd hci hdj => ?_, fun i c r hc hr hsuccess => ?_,
    fun i c r hc hr hstarted s' hleads => ?_, hs.drain.sends_nodup⟩
  · have hlock := (hs.calls i c hc).holds (by simp [Call.holding, hci])
    have hlock' := (hs.calls j d hd).holds (by simp [Call.holding, hdj])
    exact Option.some.inj (hlock.symm.trans hlock')
  · have hcaller := (hs.calls i c hc).caller
    rw [Call.CallerSound, hr] at hcaller
    exact (hcaller.2.1 hsuccess).2.2
  · -- The result stays, and with it that the callback was not called.
    obtain ⟨hs', c', hc', hr'⟩ : s'.Sound ∧ ∃ c', s'.calls[i]? = some c' ∧
        c'.caller = .returned r := by
      refine Transition.Leads.invariant (I := fun s : Commands => s.Sound ∧ ∃ c',
        s.calls[i]? = some c' ∧ c'.caller = .returned r) ?_ ⟨hs, c, hc, hr⟩ hleads
      rintro s₁ e s₂ ⟨hs₁, c₁, hc₁, hr₁⟩ hok he
      exact ⟨hs₁.next hok he, hs₁.next_returned hok he hc₁ hr₁⟩
    have hcaller := (hs'.calls i c' hc').caller
    rw [Call.CallerSound, hr'] at hcaller
    exact ⟨c', hc', (hcaller.1 hstarted).ran⟩

/-! ## One text -/

/-- The interface `p` is opened and becomes the listener. -/
def openListener (p : Opened) : List CommandEvent :=
  [.fence .claim, .fence (.open p), .fence (.publishListener p)]

/-- The drain takes a text and makes a command of it, whose worker begins. -/
def sendOn (p : Opened) (i : ℕ) : List CommandEvent :=
  [.take, .send p] ++ .replicate 4 (.caller i false)

/-- A text is sent, and the drain waits for the worker. -/
def sentRun : List CommandEvent :=
  openListener (7, 1) ++ .enqueue :: sendOn (7, 1) 0 ++ .replicate 7 (.worker 0 false) ++
    [.caller 0 false, .sent]

/-- The command has succeeded, and has sent the text once. -/
theorem commands_fenced_sent : ∃ (s : Commands) (c : Call),
    (commands false).Reach Commands.Orderly s ∧ s.calls[0]? = some c ∧
      c.caller = .returned ⟨.success, true⟩ ∧
      (c.ran = 1 ∧ c.beganCurrent = true ∧ c.endedCurrent = true) ∧ s.drain.sends.Nodup := by
  obtain ⟨s, hs, hobs⟩ :
      ∃ s ∈ sentRun.foldlM (fun (s : Commands) e => if s.Orderly e then s.next e else none)
        (.start false), (s.calls[0]?).map Call.caller = some (.returned ⟨.success, true⟩) := by
    decide +kernel
  obtain ⟨c, hc, hr⟩ := Option.map_eq_some_iff.1 hobs
  have hreach : (commands false).Reach Commands.Orderly s := .foldlM (.init rfl) hs
  have hfenced := commands_fenced hreach
  exact ⟨s, c, hreach, hc, hr, hfenced.2.1 0 c _ hc hr rfl, hfenced.2.2.2⟩

/-- The drain waits in vain, poisons the generation and reads that the worker has not started,
    while the worker is about to note that it has. -/
def timedOutRun : List CommandEvent :=
  openListener (7, 1) ++ .enqueue :: sendOn (7, 1) 0 ++
    [.worker 0 false, .caller 0 true, .caller 0 false, .caller 0 false]

/-- The worker goes on; the text, put back, is sent on the next interface. -/
def sentAgainRun : List CommandEvent :=
  .sent :: .replicate 6 (.worker 0 false) ++ openListener (8, 3) ++ sendOn (8, 3) 1 ++
    .replicate 3 (.worker 1 false)

/-- The command is reported as not started, but then calls back, and the text is sent twice. -/
theorem text_sent_twice : ∃ (s s' : Commands) (c c' : Call),
    (commands false).Reachable s ∧ s.calls[0]? = some c ∧ c.caller = .returned ⟨.timeout, false⟩ ∧
      (commands false).Leads (fun _ _ => True) s s' ∧ s'.calls[0]? = some c' ∧ c'.ran = 1 ∧
        s'.drain.sends = [0, 0] := by
  obtain ⟨s, hs, hcaller, s', hs', hran, hsends⟩ :
      ∃ s ∈ timedOutRun.foldlM Commands.next (.start false),
      (s.calls[0]?).map Call.caller = some (.returned ⟨.timeout, false⟩) ∧
        ∃ s' ∈ sentAgainRun.foldlM Commands.next s,
          (s'.calls[0]?).map Call.ran = some 1 ∧ s'.drain.sends = [0, 0] := by
    decide +kernel
  obtain ⟨c, hc, hr⟩ := Option.map_eq_some_iff.1 hcaller
  obtain ⟨c', hc', hr'⟩ := Option.map_eq_some_iff.1 hran
  exact ⟨s, s', c, c', .foldlM (.init rfl) hs, hc, hr, Transition.Leads.foldlM hs',
    hc', hr', hsends⟩

end ReticulumPi.Gateway
