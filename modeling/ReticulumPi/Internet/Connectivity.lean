import Mathlib.Order.Basic
import ReticulumPi.Internet.Probe

/-!
# Events and state

The last event that was published says what the state is, once nobody is about to
publish, and the events alternate (`Consistent`), in the runs whose steps are orderly: the
state does not change while a change has yet to be published, the probe is not forced
offline while an online event has yet to be published, and the state is not read between the two
blocks of a call that forces the probe offline. That the monitor goes offline only after
enough failed probes in a row holds in all runs.
-/

namespace ReticulumPi.Internet

namespace System

variable (s : System)

/-- Nobody has changed the state without having published it. -/
def Settled : Prop := ∀ t e, s.pcs t ≠ .publishing e

/-- An orderly step. -/
def Orderly : Event → Prop
  | .setState t wanIp lanIp => ∀ online expected, s.pcs t = .setting online expected →
    (s.probe.setState online expected wanIp lanIp).2 = true → s.Settled
  | .setForceOffline _ true => ∀ t e, s.pcs t = .publishing e → e.online = false
  | .read => ∀ n, s.pcs (.client n) ≠ .setting false (some s.probe.generation)
  | _ => True

/-- The state of the last event, if there is one. -/
def lastOnline : Option Bool := s.published.head?.map fun p => p.event.online

/-- Events agree with the state. -/
structure Consistent : Prop where
  /-- When nobody is about to publish, so once all have finished. -/
  last : s.Settled → s.lastOnline = s.probe.isOnline
  /-- A plugin acts on the last event. -/
  available : s.published ≠ [] → some s.internetAvailable = s.lastOnline
  alternate : (s.published.map fun p => p.event.online).IsChain (· ≠ ·)
  published : ∀ p ∈ s.published, p.forced = true → p.event.online = false
  reports : ∀ r ∈ s.reports, r.forced = true → r.online = false
  losses : ∀ l ∈ s.losses, l.forced = false → s.probe.offlineThreshold ≤ l.failures

/-- What the failure counter says, by where the monitor is. -/
def Counted (p : InternetProbe) (failures : ℕ) : Pc → Prop
  | .starting | .startProbing | .setting _ none =>
    p.consecutiveFailures = 0 ∧ p.isOnline ≠ some true
  | .checking g | .probing g => g ≤ p.generation ∧
    (g ≠ p.generation → p.consecutiveFailures = 0) ∧
      (p.forceOffline = false → p.consecutiveFailures ≤ failures)
  | .probed g reachable => g ≤ p.generation ∧ (g ≠ p.generation → p.consecutiveFailures = 0) ∧
    (g = p.generation → reachable = false → p.forceOffline = false →
      p.consecutiveFailures + 1 ≤ failures)
  | .setting online (some g) => g ≤ p.generation ∧
    (p.forceOffline = false → p.consecutiveFailures ≤ failures) ∧
      (online = false → g = p.generation → p.forceOffline = false → p.offlineThreshold ≤ failures)
  | .idle | .publishing _ => p.forceOffline = false → p.consecutiveFailures ≤ failures

/-- The invariant. -/
structure Sound : Prop extends s.Consistent where
  one : ∀ t t' e e', s.pcs t = .publishing e → s.pcs t' = .publishing e' → t = t'
  pending : ∀ t e, s.pcs t = .publishing e →
    s.probe.isOnline = some e.online ∧ s.lastOnline ≠ some e.online
  pendingForced : ∀ t e, s.pcs t = .publishing e → e.online = true → s.probe.forceOffline = false
  /-- A probe that is forced offline and online is about to be set offline. -/
  forcing : s.probe.forceOffline = true → s.probe.isOnline = some true →
    ∃ n, s.pcs (.client n) = .setting false (some s.probe.generation)
  clients : ∀ n online expected, s.pcs (.client n) = .setting online expected → online = false
  counted : Counted s.probe s.failures (s.pcs .monitor)

variable {s}

theorem pcs_goTo (t : Thread) (pc : Pc) (t' : Thread) :
    (s.goTo t pc).pcs t' = if t' = t then pc else s.pcs t' := Function.update_apply _ _ _ _

variable {p : InternetProbe} {online : Bool} {expected : Option ℕ} {wanIp lanIp : Option String}

theorem setState_changed (h : (p.setState online expected wanIp lanIp).2 = true) :
    (p.setState online expected wanIp lanIp).1 =
        { p with isOnline := some online, wanIp := wanIp, lanIp := lanIp } ∧
      (∀ g ∈ expected, g = p.generation) ∧ (online = true → p.forceOffline = false) ∧
        p.isOnline ≠ some online := by
  rw [InternetProbe.setState] at h ⊢
  split_ifs at h ⊢ with hif
  simp only [Bool.or_eq_true, Bool.and_eq_true, decide_eq_true_eq, not_or] at hif
  obtain ⟨⟨hgen, hforce⟩, honline⟩ := hif
  refine ⟨rfl, fun g hg => ?_, fun hon => ?_, honline⟩
  · rw [Option.mem_def] at hg
    by_contra hne
    rw [hg] at hgen
    exact hgen (decide_eq_true hne)
  · simpa [hon] using hforce

theorem setState_unchanged (h : (p.setState online expected wanIp lanIp).2 = false) :
    (p.setState online expected wanIp lanIp).1 = p := by
  rw [InternetProbe.setState] at h ⊢
  split_ifs at h ⊢
  rfl

/-! ## The monitor -/

variable (h : s.Sound)
include h

/-- A step of the monitor that changes its counter at most. -/
theorem Sound.monitor {pc : Pc} (hold : ∀ e, s.pcs .monitor ≠ .publishing e)
    (hnew : ∀ e, pc ≠ .publishing e) {consecutive failures : ℕ}
    (hcounted : Counted { s.probe with consecutiveFailures := consecutive } failures pc) :
    ({ s with
        probe := { s.probe with consecutiveFailures := consecutive }
        failures := failures }.goTo .monitor pc).Sound := by
  have hpcs : ∀ {t e}, ({ s with
      probe := { s.probe with consecutiveFailures := consecutive }
      failures := failures }.goTo .monitor pc).pcs t = .publishing e ↔ s.pcs t = .publishing e := by
    intro t e
    rw [pcs_goTo]
    split_ifs with ht
    · rw [ht]
      exact iff_of_false (hnew e) (hold e)
    · rfl
  have hclient : ∀ n, ({ s with
      probe := { s.probe with consecutiveFailures := consecutive }
      failures := failures }.goTo .monitor pc).pcs (.client n) = s.pcs (.client n) := by
    intro n
    rw [pcs_goTo]
    exact if_neg (by simp)
  refine ⟨⟨fun hs => h.last fun t e ht => hs t e (hpcs.2 ht), h.available, h.alternate, h.published,
    h.reports, h.losses⟩, fun t t' e e' ht ht' => h.one t t' e e' (hpcs.1 ht) (hpcs.1 ht'),
    fun t e ht => h.pending t e (hpcs.1 ht), fun t e ht => h.pendingForced t e (hpcs.1 ht),
    fun hf ho => ?_, fun n online expected hn => ?_, ?_⟩
  · obtain ⟨n, hn⟩ := h.forcing hf ho
    exact ⟨n, (hclient n).trans hn⟩
  · rw [hclient] at hn
    exact h.clients n online expected hn
  · rw [pcs_goTo, if_pos rfl]
    exact hcounted

theorem Sound.check (hidle : s.pcs .monitor = .idle) :
    (s.goTo .monitor (.checking s.probe.generation)).Sound := by
  have hcounted := h.counted
  rw [hidle] at hcounted
  exact h.monitor (by rw [hidle]; simp) (by simp)
    ⟨Nat.le_refl _, fun hne => absurd rfl hne, hcounted⟩

theorem Sound.look_starting (hpc : s.pcs .monitor = .starting) :
    (s.goTo .monitor (if s.probe.forceOffline then .setting false none else .startProbing)).Sound := by
  have hcounted := h.counted
  rw [hpc] at hcounted
  refine h.monitor (by rw [hpc]; simp) (fun e => ?_) ?_
  · split_ifs <;> simp
  · split_ifs
    all_goals exact hcounted

theorem Sound.look_checking {g : ℕ} (hpc : s.pcs .monitor = .checking g) :
    (s.goTo .monitor (if s.probe.forceOffline then .probed g false else .probing g)).Sound := by
  have hcounted := h.counted
  rw [hpc] at hcounted
  refine h.monitor (by rw [hpc]; simp) (fun e => ?_) ?_
  · split_ifs <;> simp
  · split_ifs with hforce
    · refine ⟨hcounted.1, hcounted.2.1, fun _ _ hno => ?_⟩
      rw [hforce] at hno
      cases hno
    · exact hcounted

theorem Sound.probe_starting (hpc : s.pcs .monitor = .startProbing)
    (reachable : Bool) : ({ s with failures := if reachable then 0 else s.failures + 1 }.goTo
      .monitor (.setting reachable none)).Sound := by
  have hcounted := h.counted
  rw [hpc] at hcounted
  exact h.monitor (by rw [hpc]; simp) (by simp) hcounted

theorem Sound.probe_probing {g : ℕ} (hpc : s.pcs .monitor = .probing g)
    (reachable : Bool) : ({ s with failures := if reachable then 0 else s.failures + 1 }.goTo
      .monitor (.probed g reachable)).Sound := by
  have hcounted := h.counted
  rw [hpc] at hcounted
  obtain ⟨hle, hstale, hcount⟩ := hcounted
  refine h.monitor (by rw [hpc]; simp) (by simp) ⟨hle, hstale, ?_⟩
  rintro - rfl hforce
  exact Nat.succ_le_succ (hcount hforce)

theorem Sound.decide {g : ℕ} {reachable : Bool} (hpc : s.pcs .monitor = .probed g reachable) :
    (if g ≠ s.probe.generation then s.goTo .monitor .idle
      else ({ s with probe := (s.probe.check reachable).1 }.goTo .monitor
        ((s.probe.check reachable).2.elim .idle fun online => .setting online (some g)))).Sound := by
  have hcounted := h.counted
  rw [hpc] at hcounted
  obtain ⟨hle, hstale, hcount⟩ := hcounted
  have hold : ∀ e, s.pcs .monitor ≠ .publishing e := by
    rw [hpc]
    simp
  split_ifs with hg
  · refine h.monitor hold (by simp) fun _ => ?_
    rw [hstale hg]
    exact Nat.zero_le _
  · rw [not_not] at hg
    have hnew : s.probe.forceOffline = false →
        (if reachable then 0 else s.probe.consecutiveFailures + 1) ≤ s.failures := by
      intro hforce
      split_ifs with hr
      · exact Nat.zero_le _
      · exact hcount hg (Bool.eq_false_iff.2 hr) hforce
    rw [InternetProbe.check]
    dsimp only
    generalize (if reachable then 0 else s.probe.consecutiveFailures + 1) = consecutive at hnew ⊢
    by_cases honline : (reachable && ! s.probe.forceOffline && s.probe.isOnline ≠ some true) = true
    · rw [if_pos honline]
      exact h.monitor hold (by simp) ⟨hle, hnew, fun hno => by cases hno⟩
    rw [if_neg honline]
    by_cases hoffline : (! reachable && s.probe.isOnline = some true &&
        s.probe.offlineThreshold ≤ consecutive) = true
    · rw [if_pos hoffline]
      refine h.monitor hold (by simp) ⟨hle, hnew, fun _ _ hforce => ?_⟩
      rw [Bool.and_eq_true, decide_eq_true_eq] at hoffline
      exact Nat.le_trans hoffline.2 (hnew hforce)
    · rw [if_neg hoffline]
      exact h.monitor hold (by simp) hnew

/-! ## Changing the state -/

/-- A call of `_set_state` that changes nothing. -/
theorem Sound.setState_unchanged {t : Thread} (hpc : s.pcs t = .setting online expected)
    (hchanged : (s.probe.setState online expected wanIp lanIp).2 = false) :
    (s.goTo t .idle).Sound := by
  have hpcs : ∀ {t' e}, (s.goTo t .idle).pcs t' = .publishing e ↔ s.pcs t' = .publishing e := by
    intro t' e
    rw [pcs_goTo]
    split_ifs with ht
    · rw [ht, hpc]
      simp
    · rfl
  refine ⟨⟨fun hs => h.last fun t e ht => hs t e (hpcs.2 ht), h.available, h.alternate, h.published,
    h.reports, h.losses⟩, fun t t' e e' ht ht' => h.one t t' e e' (hpcs.1 ht) (hpcs.1 ht'),
    fun t e ht => h.pending t e (hpcs.1 ht), fun t e ht => h.pendingForced t e (hpcs.1 ht),
    fun hf ho => ?_, fun n online expected hn => ?_, ?_⟩
  · obtain ⟨n, hn⟩ := h.forcing hf ho
    refine ⟨n, ?_⟩
    rw [pcs_goTo, if_neg, hn]
    · rfl
    · -- That call would have set the probe offline.
      rintro rfl
      cases hpc.symm.trans hn
      rw [InternetProbe.setState] at hchanged
      split_ifs at hchanged with hif
      have ho : s.probe.isOnline = some true := ho
      rw [ho] at hif
      simp at hif
  · rw [pcs_goTo] at hn
    split_ifs at hn
    exact h.clients n online expected hn
  · have hcounted := h.counted
    rw [pcs_goTo]
    split_ifs with ht
    · rw [← ht] at hpc
      rw [hpc] at hcounted
      intro hforce
      rcases expected with _ | g
      · rw [show (s.goTo t .idle).probe.consecutiveFailures = 0 from hcounted.1]
        exact Nat.zero_le _
      · exact hcounted.2.1 hforce
    · exact hcounted

omit h

/-- Going offline counts as nothing. -/
theorem counted_offline {failures : ℕ} {pc : Pc} (h : Counted p failures pc) :
    Counted { p with isOnline := some false, wanIp := wanIp, lanIp := lanIp } failures pc := by
  cases pc with
  | starting | startProbing => exact ⟨h.1, by simp⟩
  | setting online expected =>
    cases expected with
    | none => exact ⟨h.1, by simp⟩
    | some g => exact h
  | _ => exact h

/-- A call of `_set_state` that changes the state, while all that was changed before has
    been published. -/
theorem Sound.setState_changed (h : s.Sound) {t : Thread} (hpc : s.pcs t = .setting online expected)
    (hchanged : (s.probe.setState online expected wanIp lanIp).2 = true) (hsettled : s.Settled) :
    ({ s with
        probe := (s.probe.setState online expected wanIp lanIp).1
        losses := s.loses t true }.goTo t (.publishing ⟨online, wanIp, lanIp⟩)).Sound := by
  obtain ⟨hset, hgen, hforce, hne⟩ := System.setState_changed hchanged
  rw [hset]
  have hpcs : ∀ {t' e}, ({ s with
      probe := { s.probe with isOnline := some online, wanIp := wanIp, lanIp := lanIp }
      losses := s.loses t true }.goTo t (.publishing ⟨online, wanIp, lanIp⟩)).pcs t' =
        .publishing e ↔ t' = t ∧ e = ⟨online, wanIp, lanIp⟩ := by
    intro t' e
    rw [pcs_goTo]
    split_ifs with ht
    · rw [Pc.publishing.injEq, eq_comm (a := e), and_iff_right ht]
    · exact iff_of_false (hsettled t' e) fun hand => ht hand.1
  refine ⟨⟨fun hs => absurd (hpcs.2 ⟨rfl, rfl⟩) (hs t _), h.available, h.alternate, h.published,
    h.reports, ?_⟩, fun t₁ t₂ e e' h₁ h₂ => (hpcs.1 h₁).1.trans (hpcs.1 h₂).1.symm, ?_, ?_,
    fun hf ho => ?_, fun n online' expected' hn => ?_, ?_⟩
  · intro l hl
    have hl : l ∈ s.loses t true := hl
    rw [loses] at hl
    split_ifs at hl with hloss
    · rcases List.mem_cons.1 hl with rfl | hl
      · obtain ⟨rfl, -, honline⟩ := hloss
        have hcounted := h.counted
        rw [hpc] at hcounted
        intro hf
        rcases expected with _ | g
        · exact absurd honline hcounted.2
        · refine hcounted.2.2 ?_ (hgen g rfl) hf
          by_contra hon
          exact hne (honline.trans (congrArg some (by simpa using hon)).symm)
      · exact h.losses l hl
    · exact h.losses l hl
  · intro t' e he
    obtain ⟨-, rfl⟩ := hpcs.1 he
    refine ⟨rfl, ?_⟩
    exact fun heq => hne ((h.last hsettled).symm.trans heq)
  · intro t' e he hon
    obtain ⟨-, rfl⟩ := hpcs.1 he
    exact hforce hon
  · have hon : online = true := Option.some.inj ho
    have hf : s.probe.forceOffline = true := hf
    rw [hforce hon] at hf
    cases hf
  · rw [pcs_goTo] at hn
    split_ifs at hn
    exact h.clients n online' expected' hn
  · have hcounted := h.counted
    rw [pcs_goTo]
    split_ifs with ht
    · rw [← ht] at hpc
      rw [hpc] at hcounted
      intro hf
      rcases expected with _ | g
      · exact Nat.le_trans (Nat.le_of_eq hcounted.1) (Nat.zero_le _)
      · exact hcounted.2.1 hf
    · rcases t with _ | n
      · exact absurd rfl ht
      · rw [h.clients n online expected hpc]
        exact counted_offline hcounted

/-! ## Publishing -/

theorem Sound.publish (h : s.Sound) {t : Thread} {e : InternetEvent}
    (hpc : s.pcs t = .publishing e) :
    ({ s with
        published := ⟨e, s.probe.forceOffline⟩ :: s.published
        internetAvailable := e.online }.goTo t .idle).Sound := by
  obtain ⟨honline, hlast⟩ := h.pending t e hpc
  have hsettled : ∀ t' e', ({ s with
      published := ⟨e, s.probe.forceOffline⟩ :: s.published
      internetAvailable := e.online }.goTo t .idle).pcs t' ≠ .publishing e' := by
    intro t' e'
    rw [pcs_goTo]
    split_ifs with ht
    · simp
    · exact fun ht' => ht (h.one t' t e' e ht' hpc)
  refine ⟨⟨fun _ => honline.symm, fun _ => rfl, ?_, ?_, h.reports, h.losses⟩,
    fun t₁ _ e₁ _ h₁ => absurd h₁ (hsettled t₁ e₁), fun t' e' h' => absurd h' (hsettled t' e'),
    fun t' e' h' => absurd h' (hsettled t' e'), fun hf ho => ?_, fun n online expected hn => ?_, ?_⟩
  · have halternate := h.alternate
    rw [lastOnline] at hlast
    change ((e.online) :: s.published.map fun p => p.event.online).IsChain (· ≠ ·)
    rcases hp : s.published with _ | ⟨p, published⟩
    · exact .singleton _
    · rw [hp] at hlast halternate
      refine .cons_cons (fun heq => hlast ?_) halternate
      rw [heq]
      rfl
  · intro p hp hforced
    rcases List.mem_cons.1 hp with rfl | hp
    · by_contra hon
      have := h.pendingForced t e hpc (by simpa using hon)
      rw [show s.probe.forceOffline = true from hforced] at this
      cases this
    · exact h.published p hp hforced
  · obtain ⟨n, hn⟩ := h.forcing hf ho
    refine ⟨n, ?_⟩
    rw [pcs_goTo, if_neg]
    · exact hn
    · rintro rfl
      cases hpc.symm.trans hn
  · rw [pcs_goTo] at hn
    split_ifs at hn
    exact h.clients n online expected hn
  · have hcounted := h.counted
    rw [pcs_goTo]
    split_ifs with ht
    · rw [ht, hpc] at hcounted
      exact hcounted
    · exact hcounted

/-! ## Forcing -/

/-- A new generation begins, with its counter at zero. -/
theorem counted_force {failures : ℕ} {pc : Pc} (h : Counted p failures pc)
    (enabled : Bool) : Counted (p.force enabled) failures pc := by
  have hne : ∀ {g}, g ≤ p.generation → g ≠ p.generation + 1 := fun hle =>
    Nat.ne_of_lt (Nat.lt_succ_of_le hle)
  cases pc with
  | idle | publishing e => exact fun _ => Nat.zero_le _
  | starting | startProbing => exact ⟨rfl, h.2⟩
  | checking g | probing g => exact ⟨Nat.le_succ_of_le h.1, fun _ => rfl, fun _ => Nat.zero_le _⟩
  | probed g reachable =>
    exact ⟨Nat.le_succ_of_le h.1, fun _ => rfl, fun heq => absurd heq (hne h.1)⟩
  | setting online expected =>
    cases expected with
    | none => exact ⟨rfl, h.2⟩
    | some g =>
      exact ⟨Nat.le_succ_of_le h.1, fun _ => Nat.zero_le _, fun _ heq => absurd heq (hne h.1)⟩

theorem Sound.setForceOffline (h : s.Sound) {n : ℕ} {enabled : Bool}
    (hidle : s.pcs (.client n) = .idle)
    (hpending : enabled = true → ∀ t e, s.pcs t = .publishing e → e.online = false) :
    ({ s with probe := s.probe.force enabled }.goTo (.client n)
      (if enabled then .setting false (some (s.probe.generation + 1)) else .idle)).Sound := by
  have hpcs : ∀ {t e}, ({ s with probe := s.probe.force enabled }.goTo (.client n)
      (if enabled then .setting false (some (s.probe.generation + 1)) else .idle)).pcs t =
        .publishing e ↔ s.pcs t = .publishing e := by
    intro t e
    rw [pcs_goTo]
    split_ifs with ht henabled
    · rw [ht, hidle]
      simp
    · rw [ht, hidle]
      simp
    · rfl
  refine ⟨⟨fun hs => h.last fun t e ht => hs t e (hpcs.2 ht), h.available, h.alternate, h.published,
    h.reports, h.losses⟩, fun t t' e e' ht ht' => h.one t t' e e' (hpcs.1 ht) (hpcs.1 ht'),
    fun t e ht => h.pending t e (hpcs.1 ht), fun t e ht hon => ?_, fun hf ho => ⟨n, ?_⟩,
    fun n' online expected hn => ?_, ?_⟩
  · rcases enabled with _ | _
    · rfl
    · rw [hpending rfl t e (hpcs.1 ht)] at hon
      cases hon
  · have hf : enabled = true := hf
    rw [pcs_goTo, if_pos rfl, if_pos hf]
    rfl
  · rw [pcs_goTo] at hn
    split_ifs at hn
    · cases hn
      rfl
    · exact h.clients n' online expected hn
  · rw [pcs_goTo, if_neg (show Thread.monitor ≠ .client n by simp)]
    exact counted_force h.counted enabled

/-! ## Runs -/

theorem sound_initial (force : Bool) (threshold : ℕ) : (initial force threshold).Sound := by
  have hno : ∀ t e, (initial force threshold).pcs t ≠ .publishing e := by
    intro t e
    change (if t = .monitor then Pc.starting else Pc.idle) ≠ .publishing e
    split_ifs
    · simp
    · simp
  refine ⟨⟨fun _ => rfl, fun hne => absurd rfl hne, .nil, fun _ hp => (by cases hp),
    fun _ hr => (by cases hr), fun _ hl => (by cases hl)⟩, fun t _ e _ ht => absurd ht (hno t e),
    fun t e ht => absurd ht (hno t e), fun t e ht => absurd ht (hno t e), fun _ ho => (by cases ho),
    fun n online expected hn => ?_, ⟨rfl, by simp [initial]⟩⟩
  rw [initial] at hn
  cases hn

theorem Sound.step (h : s.Sound) {e : Event} {s' : System} (ho : s.Orderly e)
    (hstep : s.next e = some s') : s'.Sound := by
  cases e with
  | check =>
    rw [next] at hstep
    split_ifs at hstep with hidle
    cases hstep
    exact h.check hidle
  | look =>
    rw [next] at hstep
    split at hstep
    · next hpc =>
      cases hstep
      exact h.look_starting hpc
    · next hpc =>
      cases hstep
      exact h.look_checking hpc
    · cases hstep
  | probe reachable =>
    rw [next] at hstep
    split at hstep
    · next hpc =>
      cases hstep
      exact h.probe_starting hpc reachable
    · next hpc =>
      cases hstep
      exact h.probe_probing hpc reachable
    · cases hstep
  | decide =>
    rw [next] at hstep
    split at hstep
    · next g reachable hpc =>
      have hdecide := h.decide hpc
      split_ifs at hstep hdecide with hg
      all_goals
        cases hstep
        exact hdecide
    · cases hstep
  | setState t wanIp lanIp =>
    rw [next] at hstep
    split at hstep
    · next online expected hpc =>
      rcases hset : s.probe.setState online expected wanIp lanIp with ⟨probe, changed⟩
      have hprobe : (s.probe.setState online expected wanIp lanIp).1 = probe := by rw [hset]
      have hchanged : (s.probe.setState online expected wanIp lanIp).2 = changed := by rw [hset]
      rw [hset] at hstep
      cases hstep
      rcases changed with _ | _
      · have hloses : s.loses t false = s.losses := if_neg (by simp)
        rw [← hprobe, System.setState_unchanged hchanged, hloses]
        exact h.setState_unchanged hpc hchanged
      · rw [← hprobe]
        exact h.setState_changed hpc hchanged (ho online expected hpc hchanged)
    · cases hstep
  | publish t =>
    rw [next] at hstep
    split at hstep
    · next e hpc =>
      cases hstep
      exact h.publish hpc
    · cases hstep
  | setForceOffline n enabled =>
    rw [next] at hstep
    by_cases hidle : s.pcs (.client n) = .idle
    · rw [if_pos hidle] at hstep
      cases hstep
      refine h.setForceOffline hidle fun henabled => ?_
      rw [henabled] at ho
      exact ho
    · rw [if_neg hidle] at hstep
      cases hstep
  | read =>
    cases hstep
    refine { h with reports := ?_ }
    intro r hr hforced
    rcases List.mem_cons.1 hr with rfl | hr
    · by_contra hon
      have hon : s.probe.isOnline = some true := by
        simpa [InternetProbe.online] using hon
      obtain ⟨n, hn⟩ := h.forcing hforced hon
      exact ho n hn
    · exact h.reports r hr hforced

end System

/-- In the runs whose steps are orderly, events agree with the state. -/
theorem connectivity {s : System} (h : system.Reach System.Orderly s) : s.Consistent := by
  have hsound : s.Sound := by
    refine h.induction (fun s hs => ?_) fun s e s' hs ho hstep => hs.step ho hstep
    obtain ⟨force, threshold, -, rfl⟩ := hs
    exact System.sound_initial force threshold
  exact hsound.toConsistent

/-- A run of a probe that is not forced offline at first. -/
def run (l : List Event) : Option System := l.foldlM System.next (.initial false 3)

theorem connectivity_online : ∃ s ∈ run [.look, .probe true, .setState .monitor none none,
    .publish .monitor, .check], s.Consistent ∧ s.probe.isOnline = some true := by
  refine ⟨_, rfl, connectivity ?_, rfl⟩
  have hstart : system.Reach System.Orderly (.initial false 3) :=
    Transition.Reach.init ⟨false, 3, by decide, rfl⟩
  have hset := (hstart.step (a := Event.look) trivial rfl).step (a := Event.probe true) trivial rfl
  refine ((hset.step (a := Event.setState .monitor none none) ?_ rfl).step
    (a := Event.publish .monitor) trivial rfl).step (a := Event.check) trivial rfl
  rintro online expected - - (_ | n) e
  all_goals exact Pc.noConfusion

/-- The monitor publishes that the probe is online after it has been forced offline. -/
theorem publishes_late : ∃ s, system.Reachable s ∧ (∀ t, s.pcs t = .idle) ∧
    s.lastOnline = some true ∧ s.probe.isOnline = some false ∧
      ¬ (s.published.map fun p => p.event.online).IsChain (· ≠ ·) ∧
        ∃ p ∈ s.published, p.forced = true ∧ p.event.online = true := by
  have hrun : run [.look, .probe false, .setState .monitor none none, .publish .monitor, .check,
      .look, .probe true, .decide, .setState .monitor none none, .setForceOffline 0 true,
      .setState (.client 0) none none, .publish (.client 0), .publish .monitor] = some _ := rfl
  refine ⟨_, Transition.Reachable.foldlM (Transition.Reach.init ⟨false, 3, by decide, rfl⟩) hrun,
    ?_, rfl, rfl, by decide, ?_⟩
  · rintro (_ | _ | n)
    all_goals rfl
  · exact ⟨_, List.mem_cons_self, rfl, rfl⟩

end ReticulumPi.Internet
