import Mathlib.Data.List.Pairwise
import Mathlib.Tactic.NormNum
import ReticulumPi.Lib.Window
import ReticulumPi.Space.RateLimits

/-!
# Requests to a source are apart

A limiter that knows of all the requests to its source keeps them apart: it is
asked before each of them, by the one thread that makes them. The limiter of a
new instance knows what the file says. An attempt is noted in memory before the
request, but written only with an answer that has brought something new, or when
the tracker stops; so the limits hold in those runs in which every start finds
the last requests in the file, or finds them long past, and in which no thread of
an instance that was stopped is still on its way to a request.

The hourly limit follows: there are no more than four requests in an hour that are
a quarter of an hour apart.

* `acts`: what a step does to the limiters and to the threads on their way;
* `Safe.next`: the invariant;
* `request_limits`: the result.
-/

namespace ReticulumPi.Space

variable {config : Config} {src src' : Source} {now : ℚ} {inst inst' : Instance}
  {action : Action} {effect : Effect} {s s' : System}

/-- The least time between two requests to the source. -/
abbrev Config.minInterval (config : Config) (src : Source) : ℚ := (config.limiter src).minInterval

/-- Every source may be asked again after ten minutes at the earliest. -/
theorem minInterval_nonneg (config : Config) (src : Source) : 0 ≤ config.minInterval src := by
  have hpos : (0 : ℚ) ≤ 6 * 3600 ∧ (0 : ℚ) ≤ 15 * 60 ∧ (0 : ℚ) ≤ 10 * 60 := by norm_num
  rcases src with _ | _ | _
  · exact hpos.1.trans (le_max_left _ _)
  · exact hpos.2.1.trans (le_max_left _ _)
  · exact hpos.2.2.trans (le_max_left _ _)

/-- An hourly limit allows no less than the least interval does. -/
theorem hour_le {n : ℕ} (h : (config.limiter src).maxPerHour = some n) :
    3600 ≤ n • config.minInterval src := by
  rcases src with _ | _ | _
  · cases h
  · obtain rfl : 4 = n := Option.some.inj h
    have hmin : 15 * 60 ≤ config.minInterval .launchlibrary := le_max_left _ _
    calc (3600 : ℚ) = 4 • (15 * 60) := by norm_num
      _ ≤ 4 • config.minInterval .launchlibrary := nsmul_le_nsmul_right hmin 4
  · cases h

/-! ## Limiters -/

@[simp] theorem trimRecent_lastRequest (l : Limiter) (now : ℚ) :
    (l.trimRecent now).lastRequest = l.lastRequest := rfl

@[simp] theorem load_lastRequest (l : Limiter) (now : ℚ) :
    (l.load now).lastRequest = l.lastRequest := by
  rw [Limiter.load, trimRecent_lastRequest]

@[simp] theorem canRequest_lastRequest (settings : LimiterSettings) (l : Limiter) (trim now : ℚ) :
    (l.canRequest settings trim now).1.lastRequest = l.lastRequest := rfl

/-- The limiter lets a request through only when the least interval has passed. -/
theorem le_of_canRequest {settings : LimiterSettings} {l : Limiter} {trim now : ℚ}
    (h : (l.canRequest settings trim now).2 = true) :
    l.lastRequest + settings.minInterval ≤ now := by
  have hallowed : (l.trimRecent trim).nextAllowedAt settings ≤ now := of_decide_eq_true h
  have hinterval : settings.minInterval ≤ (l.trimRecent trim).currentMinInterval settings := by
    rw [Limiter.currentMinInterval]
    split_ifs
    · exact le_rfl
    · exact le_max_left _ _
  calc l.lastRequest + settings.minInterval
      ≤ l.lastRequest + (l.trimRecent trim).currentMinInterval settings := by gcongr
    _ ≤ (l.trimRecent trim).nextAllowedAt settings := le_max_left _ _
    _ ≤ now := hallowed

/-! ## Steps of an instance -/

/-- The thread is not on its way to a request. -/
def Pc.IsQuiet (pc : Pc) : Prop := pc ≠ .scanning ∧ pc ≠ .ready ∧ pc ≠ .cleared
deriving Decidable

/-- The instance was stopped, and none of its threads is on its way to a request. -/
def Instance.IsQuiet (inst : Instance) : Prop :=
  inst.active = false ∧ ∀ src, (inst.threads src).IsQuiet
deriving Decidable

/-- What a step does to the limiters and to the threads on their way: either it
    sends a request, or it leaves alone what the limiters know, and a thread is
    only cleared when its limiter allows it. -/
inductive Acts (config : Config) (inst inst' : Instance) (action : Action) :
    Option (Source × ℚ) → Prop
  | sends (src : Source) (now : ℚ) (isSend : action = .send src now)
      (cleared : inst.threads src = .cleared)
      (limiters : ∀ src', (inst'.limiters src').lastRequest =
        if src' = src then now else (inst.limiters src').lastRequest)
      (threads : ∀ src', inst'.threads src' = .cleared → src' ≠ src ∧ inst.threads src' = .cleared) :
      Acts config inst inst' action (some (src, now))
  | keeps (limiters : ∀ src, (inst'.limiters src).lastRequest = (inst.limiters src).lastRequest)
      (threads : ∀ src, inst'.threads src = .cleared → inst.threads src = .cleared ∨
        ∃ trim now, action = .get src trim now ∧
          (inst.limiters src).lastRequest + config.minInterval src ≤ now) :
      Acts config inst inst' action none

section Updates

variable {pc : Pc} {l : Limiter}

@[simp] theorem setThread_limiters : (inst.setThread src pc).limiters = inst.limiters := rfl

@[simp] theorem setLimiter_threads : (inst.setLimiter src l).threads = inst.threads := rfl

theorem threads_setThread :
    (inst.setThread src pc).threads src' = if src' = src then pc else inst.threads src' :=
  Function.update_apply _ _ _ _

theorem limiters_setLimiter :
    (inst.setLimiter src l).limiters src' = if src' = src then l else inst.limiters src' :=
  Function.update_apply _ _ _ _

/-- A limiter that has not been asked to note an attempt still knows the last one. -/
theorem lastRequest_setLimiter (hl : l.lastRequest = (inst.limiters src).lastRequest) :
    ((inst.setLimiter src l).limiters src').lastRequest =
      (inst.limiters src').lastRequest := by
  rw [limiters_setLimiter]
  split_ifs with h
  · rw [hl, h]
  · rfl

/-- A thread that is set elsewhere than to `cleared` was cleared before if it is. -/
theorem cleared_of_setThread (hpc : pc ≠ .cleared)
    (h : (inst.setThread src pc).threads src' = .cleared) :
    src' ≠ src ∧ inst.threads src' = .cleared := by
  rw [threads_setThread] at h
  split_ifs at h with heq
  · exact absurd h hpc
  · exact ⟨heq, h⟩

end Updates

theorem Acts.of_setThread {pc : Pc} (hpc : pc ≠ .cleared) :
    Acts config inst (inst.setThread src pc) action none :=
  .keeps (fun _ => rfl) fun _ h => .inl (cleared_of_setThread hpc h).2

theorem acts (h : inst.act config action = some (inst', effect)) :
    Acts config inst inst' action effect.sent := by
  rcases action with src | src | ⟨src, trim, now⟩ | ⟨src, trim, now⟩ | ⟨src, now⟩ |
    ⟨src, outcome, now⟩ | src | src | _ | _ | _ | _
  · obtain ⟨-, heq⟩ := Option.ite_none_right_eq_some.1 h
    cases heq
    exact .of_setThread (by decide)
  · obtain ⟨-, heq⟩ := Option.ite_none_right_eq_some.1 h
    cases heq
    exact .of_setThread (by decide)
  · obtain ⟨-, heq⟩ := Option.ite_none_right_eq_some.1 h
    cases heq
    refine .keeps (fun src' => ?_) fun src' h => .inl ?_
    · exact lastRequest_setLimiter rfl
    · refine (cleared_of_setThread ?_ h).2
      split_ifs
      · decide
      · decide
  · obtain ⟨-, heq⟩ := Option.ite_none_right_eq_some.1 h
    cases heq
    refine .keeps (fun src' => ?_) fun src' h => ?_
    · exact lastRequest_setLimiter rfl
    · rw [Instance.ask, threads_setThread] at h
      split_ifs at h with heq hallowed
      · subst heq
        exact .inr ⟨trim, now, rfl, le_of_canRequest hallowed⟩
      · exact .inl h
  · obtain ⟨hcleared, heq⟩ := Option.ite_none_right_eq_some.1 h
    cases heq
    refine .sends src now rfl hcleared (fun src' => ?_) fun src' h => ?_
    · rw [setThread_limiters, limiters_setLimiter]
      split_ifs
      · rfl
      · rfl
    · exact cleared_of_setThread (by decide) h
  · obtain ⟨-, heq⟩ := Option.ite_none_right_eq_some.1 h
    cases heq
    rcases outcome with _ | _ | _ | _
    · exact .keeps (fun _ => lastRequest_setLimiter rfl) fun _ h =>
        .inl (cleared_of_setThread (by decide) h).2
    · exact .keeps (fun _ => lastRequest_setLimiter rfl) fun _ h =>
        .inl (cleared_of_setThread (by decide) h).2
    · exact .keeps (fun _ => lastRequest_setLimiter rfl) fun _ h =>
        .inl (cleared_of_setThread (by decide) h).2
    · exact .keeps (fun _ => lastRequest_setLimiter rfl) fun _ h =>
        .inl (cleared_of_setThread (by decide) h).2
  · rw [Instance.act] at h
    split at h
    · obtain ⟨copied, -, heq⟩ := Option.map_eq_some_iff.1 h
      cases heq
      exact .of_setThread (by simp)
    · cases h
  · rw [Instance.act] at h
    split at h
    · obtain ⟨copied, -, heq⟩ := Option.map_eq_some_iff.1 h
      cases heq
      exact .of_setThread (by decide)
    · cases h
  · obtain ⟨-, heq⟩ := Option.ite_none_right_eq_some.1 h
    cases heq
    exact .keeps (fun _ => rfl) fun _ h => .inl h
  · obtain ⟨copied, -, h⟩ := Option.bind_eq_some_iff.1 h
    obtain ⟨copied', -, heq⟩ := Option.map_eq_some_iff.1 h
    cases heq
    exact .keeps (fun _ => rfl) fun _ h => .inl h
  · obtain ⟨copied, -, h⟩ := Option.bind_eq_some_iff.1 h
    obtain ⟨copied', -, heq⟩ := Option.map_eq_some_iff.1 h
    cases heq
    exact .keeps (fun _ => rfl) fun _ h => .inl h
  · cases Option.some.inj h
    exact .keeps (fun _ => rfl) fun _ h => .inl h

/-- The threads of a quiet instance end their work, and send nothing. -/
theorem quiet_act (hq : inst.IsQuiet) (h : inst.act config action = some (inst', effect)) :
    inst'.IsQuiet ∧ effect.sent = none := by
  obtain ⟨hactive, hthreads⟩ := hq
  have hset : ∀ src pc, Pc.IsQuiet pc → (inst.setThread src pc).IsQuiet := fun src pc hpc =>
    ⟨hactive, fun src' => by
      rw [threads_setThread]
      split_ifs
      · exact hpc
      · exact hthreads src'⟩
  rcases action with src | src | ⟨src, trim, now⟩ | ⟨src, trim, now⟩ | ⟨src, now⟩ |
    ⟨src, outcome, now⟩ | src | src | _ | _ | _ | _
  · obtain ⟨⟨-, ha⟩, -⟩ := Option.ite_none_right_eq_some.1 h
    rw [hactive] at ha
    cases ha
  · exact absurd (Option.ite_none_right_eq_some.1 h).1 (hthreads src).1
  · exact absurd (Option.ite_none_right_eq_some.1 h).1 (hthreads src).1
  · exact absurd (Option.ite_none_right_eq_some.1 h).1 (hthreads src).2.1
  · exact absurd (Option.ite_none_right_eq_some.1 h).1 (hthreads src).2.2
  · obtain ⟨-, heq⟩ := Option.ite_none_right_eq_some.1 h
    cases heq
    refine ⟨?_, rfl⟩
    rcases outcome with _ | _ | _ | _
    · exact hset src (.saving []) (by decide)
    all_goals exact hset src .idle (by decide)
  · rw [Instance.act] at h
    split at h
    · obtain ⟨copied, -, heq⟩ := Option.map_eq_some_iff.1 h
      cases heq
      exact ⟨hset src (.saving copied) (by simp [Pc.IsQuiet]), rfl⟩
    · cases h
  · rw [Instance.act] at h
    split at h
    · obtain ⟨copied, -, heq⟩ := Option.map_eq_some_iff.1 h
      cases heq
      exact ⟨hset src .idle (by decide), rfl⟩
    · cases h
  · obtain ⟨ha, -⟩ := Option.ite_none_right_eq_some.1 h
    rw [hactive] at ha
    cases ha
  · obtain ⟨copied, -, h⟩ := Option.bind_eq_some_iff.1 h
    obtain ⟨copied', -, heq⟩ := Option.map_eq_some_iff.1 h
    cases heq
    exact ⟨⟨hactive, hthreads⟩, rfl⟩
  · obtain ⟨copied, -, h⟩ := Option.bind_eq_some_iff.1 h
    obtain ⟨copied', -, heq⟩ := Option.map_eq_some_iff.1 h
    cases heq
    exact ⟨⟨hactive, hthreads⟩, rfl⟩
  · cases Option.some.inj h
    exact ⟨⟨hactive, hthreads⟩, rfl⟩

/-! ## Runs -/

/-- When the file says the source was last asked. -/
def savedRequest (file : Option File) (src : Source) : ℚ :=
  (file.map fun file => (file src).lastRequest).getD 0

/-- A start finds the requests to each source in the file, or long past, and no
    thread of an earlier instance on its way to a request. -/
def Prepared (config : Config) (s : System) : Event → Prop
  | .start now =>
    (∀ src, ∀ t ∈ s.times src, t ≤ savedRequest s.file src ∨ t + config.minInterval src ≤ now) ∧
      ∀ inst ∈ s.instances, inst.IsQuiet
  | _ => True

instance (config : Config) (s : System) (e : Event) : Decidable (Prepared config s e) :=
  match e with
  | .start _ => inferInstanceAs (Decidable (_ ∧ _))
  | .crash => isTrue trivial
  | .act _ _ => isTrue trivial

/-- The requests to a source are far enough in the past. -/
def System.Long (s : System) (config : Config) (src : Source) (now : ℚ) : Prop :=
  ∀ t ∈ s.times src, t + config.minInterval src ≤ now

/-- The limiter knows of the requests to the source that are not long past, and its
    thread is cleared only when they all are. -/
def Instance.Knows (inst : Instance) (config : Config) (s : System) (src : Source) : Prop :=
  (∀ t ∈ s.times src,
    t ≤ (inst.limiters src).lastRequest ∨ t + config.minInterval src ≤ s.clock) ∧
    (inst.threads src = .cleared → s.Long config src s.clock)

structure Safe (config : Config) (s : System) : Prop where
  spaced : ∀ src, Window.Spaced (config.minInterval src) (s.times src)
  past : ∀ src, ∀ t ∈ s.times src, t ≤ s.clock
  newest : ∀ inst, s.instances[0]? = some inst → ∀ src, inst.Knows config s src
  earlier : ∀ i inst, s.instances[i + 1]? = some inst → inst.IsQuiet

theorem Safe.start (hs : Safe config s) (hp : Prepared config s (.start now))
    (h : next config s (.start now) = some s') : Safe config s' := by
  obtain ⟨⟨hclock, -⟩, heq⟩ := Option.ite_none_right_eq_some.1 h
  cases heq
  refine ⟨hs.spaced, fun src t ht => (hs.past src t ht).trans hclock, ?_, ?_⟩
  · intro inst hinst src
    cases hinst
    have hload : ((Instance.load s.file now).limiters src).lastRequest =
        savedRequest s.file src := by
      rcases s.file with _ | file
      · rfl
      · exact load_lastRequest (file src) now
    refine ⟨fun t ht => ?_, fun hcleared => by cases hcleared⟩
    rw [hload]
    exact hp.1 src t ht
  · intro i inst hinst
    exact hp.2 inst (List.mem_of_getElem? hinst)

/-- The steps of an instance, seen from the run. -/
theorem next_act {index : ℕ} (h : next config s (.act index action) = some s') :
    ∃ inst inst' effect, s.instances[index]? = some inst ∧
      inst.act config action = some (inst', effect) ∧
      s'.instances = s.instances.set index inst' ∧
      s'.sent = effect.sent.toList ++ s.sent ∧ s.clock ≤ s'.clock ∧
      ∀ now ∈ action.readings, s.clock ≤ now ∧ now ≤ s'.clock := by
  obtain ⟨hchain, heq⟩ := Option.ite_none_right_eq_some.1 h
  obtain ⟨inst, hinst, heq⟩ := Option.bind_eq_some_iff.1 heq
  obtain ⟨⟨inst', effect⟩, hact, heq⟩ := Option.map_eq_some_iff.1 heq
  cases heq
  have hsorted := List.isChain_iff_pairwise.1 hchain
  refine ⟨inst, inst', effect, hinst, hact, rfl, rfl, ?_⟩
  dsimp only
  rcases hlast : action.readings with _ | ⟨t, l⟩
  · exact ⟨le_rfl, fun now hnow => absurd hnow List.not_mem_nil⟩
  · rw [hlast] at hsorted
    obtain ⟨hfirst, hrest⟩ := List.pairwise_cons.1 hsorted
    have hle : ∀ now ∈ t :: l, now ≤ (t :: l).getLast (List.cons_ne_nil _ _) := fun now hnow =>
      hrest.rel_getLast hnow
    rw [List.getLastD_eq_getLast?, List.getLast?_eq_some_getLast (List.cons_ne_nil _ _),
      Option.getD_some]
    exact ⟨hfirst _ (List.getLast_mem _), fun now hnow => ⟨hfirst now hnow, hle now hnow⟩⟩

theorem times_of_sent {sent : Option (Source × ℚ)} (h : s'.sent = sent.toList ++ s.sent) :
    s'.times src = (sent.toList.filter fun e => e.1 = src).map Prod.snd ++ s.times src := by
  rw [System.times, h, List.filter_append, List.map_append]
  rfl

/-- A step that sends nothing and keeps the newest instance's knowledge. -/
theorem Safe.of_silent (hs : Safe config s) (hsent : s'.sent = s.sent) (hclock : s.clock ≤ s'.clock)
    (hnewest : ∀ inst, s'.instances[0]? = some inst → ∀ src, inst.Knows config s' src)
    (hearlier : ∀ i inst, s'.instances[i + 1]? = some inst → inst.IsQuiet) : Safe config s' := by
  have htimes : ∀ src, s'.times src = s.times src := fun src => by
    rw [System.times, hsent]
    rfl
  refine ⟨fun src => ?_, fun src t ht => ?_, hnewest, hearlier⟩
  · rw [htimes]
    exact hs.spaced src
  · rw [htimes] at ht
    exact (hs.past src t ht).trans hclock

theorem Instance.Knows.mono (h : inst.Knows config s src) (hsent : s'.sent = s.sent)
    (hclock : s.clock ≤ s'.clock)
    (hlimiter : (inst'.limiters src).lastRequest = (inst.limiters src).lastRequest)
    (hthread : inst'.threads src = .cleared → s'.Long config src s'.clock) :
    inst'.Knows config s' src := by
  refine ⟨fun t ht => ?_, hthread⟩
  rw [System.times, hsent] at ht
  rw [hlimiter]
  exact (h.1 t ht).imp_right (·.trans hclock)

theorem Safe.act {index : ℕ} (hs : Safe config s)
    (h : next config s (.act index action) = some s') : Safe config s' := by
  obtain ⟨inst, inst', effect, hinst, hact, hinstances, hsent, hclock, hreadings⟩ := next_act h
  have hearlier : ∀ i inst, s'.instances[i + 1]? = some inst → inst.IsQuiet := by
    intro i inst₁ hinst₁
    rw [hinstances, List.getElem?_set] at hinst₁
    split_ifs at hinst₁ with hindex hlt
    · rw [hindex] at hinst
      exact Option.some.inj hinst₁ ▸ (quiet_act (hs.earlier i inst hinst) hact).1
    · exact hs.earlier i inst₁ hinst₁
  rcases index with _ | index
  · -- The newest instance.
    have hnew : ∀ inst₁, s'.instances[0]? = some inst₁ → inst₁ = inst' := fun inst₁ hinst₁ => by
      rw [hinstances, List.getElem?_set, if_pos rfl] at hinst₁
      split_ifs at hinst₁
      exact (Option.some.inj hinst₁).symm
    have hknows := hs.newest inst hinst
    have hacts := acts hact
    rcases heffect : effect.sent with _ | ⟨src, now⟩
    · rw [heffect] at hacts hsent
      obtain - | ⟨hlimiters, hthreads⟩ := hacts
      have hlong : ∀ src now, s.Long config src now → now ≤ s'.clock →
          s'.Long config src s'.clock := fun _ _ hl hle t ht => by
        rw [System.times, hsent] at ht
        exact (hl t ht).trans hle
      refine hs.of_silent hsent hclock (fun inst₁ hinst₁ src => ?_) hearlier
      rw [hnew inst₁ hinst₁]
      refine (hknows src).mono hsent hclock (hlimiters src) fun hcleared => ?_
      rcases hthreads src hcleared with hold | ⟨trim, now, rfl, hle⟩
      · exact hlong src s.clock ((hknows src).2 hold) hclock
      · -- The limiter has just allowed it.
        obtain ⟨hfrom, hto⟩ := hreadings now (List.mem_cons_of_mem _ List.mem_cons_self)
        refine hlong src now (fun t ht => ?_) hto
        rcases (hknows src).1 t ht with hknown | hpast
        · exact le_trans (by gcongr) hle
        · exact hpast.trans hfrom
    · rw [heffect] at hacts hsent
      obtain ⟨src, now, rfl, hcleared, hlimiters, hthreads⟩ := hacts
      obtain ⟨hfrom, hto⟩ := hreadings now List.mem_cons_self
      have hself : s'.times src = now :: s.times src := by
        rw [times_of_sent hsent]
        simp
      have hother : ∀ src', src' ≠ src → s'.times src' = s.times src' := fun src' hne => by
        rw [times_of_sent hsent]
        simp [hne.symm]
      refine ⟨fun src' => ?_, fun src' t ht => ?_, fun inst₁ hinst₁ src' => ?_, hearlier⟩
      · by_cases heq : src' = src
        · rw [heq, hself]
          exact (hs.spaced src).cons fun t ht => ((hknows src).2 hcleared t ht).trans hfrom
        · rw [hother src' heq]
          exact hs.spaced src'
      · by_cases heq : src' = src
        · rw [heq, hself] at ht
          rcases List.mem_cons.1 ht with rfl | ht
          · exact hto
          · exact (hs.past src t ht).trans hclock
        · rw [hother src' heq] at ht
          exact (hs.past src' t ht).trans hclock
      · rw [hnew inst₁ hinst₁, Instance.Knows, hlimiters]
        by_cases heq : src' = src
        · rw [if_pos heq, heq, hself]
          refine ⟨fun t ht => .inl ?_, fun hc => absurd rfl (hthreads src hc).1⟩
          rcases List.mem_cons.1 ht with rfl | ht
          · exact le_rfl
          · exact (hs.past src t ht).trans hfrom
        · rw [if_neg heq, System.Long, hother src' heq]
          refine ⟨fun t ht => ((hknows src').1 t ht).imp_right (·.trans hclock), fun hc t ht => ?_⟩
          exact ((hknows src').2 (hthreads src' hc).2 t ht).trans hclock
  · -- An earlier instance sends nothing.
    rw [(quiet_act (hs.earlier index inst hinst) hact).2] at hsent
    refine hs.of_silent hsent hclock (fun inst₁ hinst₁ src => ?_) hearlier
    rw [hinstances, List.getElem?_set, if_neg (by simp)] at hinst₁
    have hknows := hs.newest inst₁ hinst₁ src
    refine hknows.mono hsent hclock rfl fun hcleared t ht => ?_
    rw [System.times, hsent] at ht
    exact (hknows.2 hcleared t ht).trans hclock

theorem Safe.next {e : Event} (hs : Safe config s) (hp : Prepared config s e)
    (h : next config s e = some s') : Safe config s' := by
  rcases e with now | _ | ⟨index, action⟩
  · exact hs.start hp h
  · cases h
    refine ⟨hs.spaced, hs.past, fun _ hinst => ?_, fun _ _ hinst => ?_⟩
    all_goals cases hinst
  · exact hs.act h

/-- In the runs in which every start is prepared, the requests to each source are
    at least the least interval apart, and no half-open hour holds more of them
    than its limiter allows. -/
theorem request_limits (config : Config) (s : System)
    (h : (tracker config).Reach (Prepared config) s) (src : Source) :
    Window.Spaced (config.limiter src).minInterval (s.times src) ∧
      ∀ n, (config.limiter src).maxPerHour = some n → Window.Bounded 3600 n (s.times src) := by
  have hs : Safe config s := by
    refine h.induction ?_ ?_
    · rintro s ⟨clock, rfl⟩
      refine ⟨fun src => Window.spaced_nil, fun src t ht => ?_, fun _ hinst => ?_, fun _ _ hinst => ?_⟩
      · cases ht
      all_goals cases hinst
    · exact fun s e s' hs hp hstep => hs.next hp hstep
  exact ⟨hs.spaced src, fun n hn => (hs.spaced src).bounded (minInterval_nonneg config src)
    (hour_le hn)⟩

/-- The newest instance asks the launch library at the given time. -/
def askLaunches (now : ℚ) (outcome : Outcome) : List Event :=
  [Action.begin .launchlibrary, .test .launchlibrary now now, .get .launchlibrary now now,
    .send .launchlibrary now, .answer .launchlibrary outcome now].map (.act 0)

/-- The newest instance saves what an answer has brought, and is stopped. -/
def saveAndStop : List Event :=
  [Action.copy .launchlibrary, .copy .launchlibrary, .copy .launchlibrary, .write .launchlibrary,
    .stop, .stopCopy, .stopCopy, .stopCopy, .stopWrite].map (.act 0)

/-- After a restart, the next request waits for its turn. -/
theorem request_limits_restart : ∃ s : System, s.times .launchlibrary = [11800, 10000] ∧
    Window.Spaced (Config.limiter {} .launchlibrary).minInterval (s.times .launchlibrary) := by
  obtain ⟨s, hs, htimes⟩ : ∃ s ∈ (.start 10000 :: askLaunches 10000 .fresh ++ saveAndStop ++
        .start 10060 :: askLaunches 11800 .failed).foldlM
        (fun s e => if Prepared {} s e then next {} s e else none) { clock := 0 },
        s.times .launchlibrary = [11800, 10000] := by
    decide +kernel
  exact ⟨s, htimes, (request_limits {} s
    (.foldlM (.init ⟨0, rfl⟩) hs) .launchlibrary).1⟩

/-- A tracker that crashes after every failed request asks once a minute. -/
theorem request_limits_fails : ∃ s, (tracker {}).Reachable s ∧
    ¬ Window.Spaced (Config.limiter {} .launchlibrary).minInterval (s.times .launchlibrary) ∧
    ∃ n, (Config.limiter {} .launchlibrary).maxPerHour = some n ∧
      ¬ Window.Bounded 3600 n (s.times .launchlibrary) := by
  obtain ⟨s, hs, htimes⟩ : ∃ s ∈ ((List.range 5).flatMap fun i => .start (10000 + 60 * i) ::
        askLaunches (10000 + 60 * i) .failed ++ [.crash]).foldlM (next {}) { clock := 0 },
        s.times .launchlibrary = [10240, 10180, 10120, 10060, 10000] := by
    decide +kernel
  refine ⟨s, .foldlM (.init ⟨0, rfl⟩) hs, ?_, 4, rfl, fun hbounded => ?_⟩
  · rw [htimes]
    intro hspaced
    have hfirst := (List.pairwise_cons.1 hspaced).1 10180 List.mem_cons_self
    exact absurd hfirst (by decide +kernel)
  · have hle := hbounded 10000
    rw [htimes] at hle
    exact absurd hle (by decide +kernel)

end ReticulumPi.Space
