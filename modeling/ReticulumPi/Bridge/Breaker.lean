import ReticulumPi.Bridge.Relay
import ReticulumPi.Bridge.Switch

/-!
# The circuit breaker of the bridge

After a message was relayed, `_check_circuit_breaker` counts the relays of the
last minute, and pauses the bridge when they are more than the threshold. The
relays are kept in a queue of 10000 times, from which those that are too old go
first; resuming the bridge empties it.

The relays succeed one after another, at times that do not decrease, and the
operator may pause and resume the bridge between them (`Relays.next`). What the
queue holds are the latest 10000 of the relays of the last minute
(`Relays.Sound`), so the breaker is right as long as the threshold is lower
(`trips_iff`).
-/

namespace ReticulumPi.Bridge

open PyJson List

/-! ## The breaker -/

/-- The configuration with `auto_pause_threshold`, which `validate_config` leaves open. -/
structure BreakerConfig extends Config where
  autoPauseThreshold : ℤ := 20

namespace Bridge

/-- `_check_circuit_breaker`, at a time of the monotonic clock and one of the other clock. -/
def checkCircuitBreaker (bridge : Bridge) (autoPauseThreshold : ℤ) (now : ℚ)
    (time : Number) : Bridge :=
  if autoPauseThreshold ≤ 0 then bridge
  else
    let counted := bridge.countRelay now
    if autoPauseThreshold < counted.recentRelays.length then
      counted.setRunning false (some (text "rate_limit")) time
    else counted

end Bridge

/-- The bridge, and when the relays since it was last resumed have succeeded, the first of them
    first. -/
structure Relays where
  bridge : Bridge
  relayed : List ℚ := []

namespace Relays

inductive Event
  /-- A relay has succeeded. -/
  | relay (now : ℚ) (time : Number)
  /-- The operator, or another plugin, calls `set_running`. -/
  | set (running : Bool) (reason : Option Text) (time : Number)

def next (autoPauseThreshold : ℤ) (s : Relays) : Event → Option Relays
  | .relay now time =>
    if ∀ t ∈ s.relayed, t ≤ now then
      some ⟨s.bridge.checkCircuitBreaker autoPauseThreshold now time, s.relayed ++ [now]⟩
    else none
  | .set running reason time =>
    some ⟨s.bridge.setRunning running reason time, if running then [] else s.relayed⟩

/-- The bridge from a start on, whatever the file held. -/
def system (autoPauseThreshold : ℤ) : Transition Relays Event :=
  .ofNext (fun s => ∃ state, s = ⟨⟨state, []⟩, []⟩) (next autoPauseThreshold)

end Relays

/-- The relays of the 60 seconds before `now`. -/
def lastMinute (now : ℚ) (relayed : List ℚ) : List ℚ :=
  relayed.filter (now - circuitBreakerWindow ≤ ·)

/-- After a relay, in any run, the breaker has paused the bridge if more relays than the
    threshold have succeeded within 60 seconds, and has left it as it was otherwise. -/
def BreakerConfig.Trips (config : BreakerConfig) : Prop :=
  ∀ s now time s', (Relays.system config.autoPauseThreshold).Reachable s →
    s.next config.autoPauseThreshold (.relay now time) = some s' →
    s'.bridge.state =
      if config.autoPauseThreshold < (lastMinute now s'.relayed).length then
        ⟨false, .string (text "rate_limit"), .number time⟩
      else s.bridge.state

/-! ## The queue -/

section Queue

variable {l : List ℚ} {n : ℕ} {c c' now : ℚ}

theorem rtake_eq_self (h : l.length ≤ n) : l.rtake n = l := by
  rw [List.rtake, Nat.sub_eq_zero_of_le h, drop_zero]

theorem length_rtake (n : ℕ) (l : List ℚ) : (l.rtake n).length = min n l.length := by
  rw [List.rtake, length_drop]
  omega

theorem rtake_append_of_le {k : List ℚ} (h : n ≤ k.length) : (l ++ k).rtake n = k.rtake n := by
  rw [List.rtake, List.rtake, length_append, drop_append,
    drop_eq_nil_of_le (by omega), nil_append]
  congr 1
  omega

theorem rtake_rtake (l : List ℚ) (n : ℕ) : (l.rtake (n + 1)).rtake n = l.rtake n := by
  simp only [rtake_eq_reverse_take_reverse, reverse_reverse, take_take]
  rw [Nat.min_eq_left (Nat.le_succ n)]

/-- A queue of `n` forgets nothing of the latest `n`. -/
theorem rtake_rtake_append (n : ℕ) (l : List ℚ) (x : ℚ) :
    (l.rtake n ++ [x]).rtake n = (l ++ [x]).rtake n := by
  rcases n with _ | n
  · rw [rtake_zero, rtake_zero]
  · rw [rtake_concat_succ, rtake_concat_succ, rtake_rtake]

theorem dropWhile_eq_filter (h : l.Pairwise (· ≤ ·)) :
    l.dropWhile (· < c) = l.filter (c ≤ ·) := by
  induction l with
  | nil => rfl
  | cons t l ih =>
    obtain ⟨ht, hl⟩ := pairwise_cons.1 h
    by_cases htc : t < c
    · rw [dropWhile_cons_of_pos (by simpa using htc), ih hl,
        filter_cons_of_neg (by simpa using htc)]
    · -- From the first that is late enough on, all are.
      rw [dropWhile_cons_of_neg (by simpa using htc), eq_comm, filter_eq_self]
      intro u hu
      rcases mem_cons.1 hu with rfl | hu
      · simpa using htc
      · simpa using (not_lt.1 htc).trans (ht u hu)

/-- The first of the latest `n` go: what stays are the latest `n` of those that stay. -/
theorem dropWhile_rtake (h : l.Pairwise (· ≤ ·)) :
    (l.rtake n).dropWhile (· < c) = (l.filter (c ≤ ·)).rtake n := by
  have hsorted : (l.rtake n).Pairwise (· ≤ ·) := h.sublist (drop_sublist _ _)
  rw [dropWhile_eq_filter hsorted, ← dropWhile_eq_filter h]
  have hsplit := takeWhile_append_dropWhile (p := (· < c)) (l := l)
  have hold : ∀ t ∈ l.takeWhile (· < c), ¬ c ≤ t := fun t ht => by
    simpa using mem_takeWhile_imp ht
  have hnew : ∀ t ∈ l.dropWhile (· < c), c ≤ t := fun t ht => by
    rw [dropWhile_eq_filter h] at ht
    simpa using of_mem_filter ht
  by_cases hlen : n ≤ (l.dropWhile (· < c)).length
  · conv_lhs => rw [← hsplit, rtake_append_of_le hlen]
    exact filter_eq_self.2 fun t ht => by simpa using hnew t (mem_of_mem_drop ht)
  · -- All of the late ones are among the latest `n`, after some of the old ones.
    have hlate : l.rtake n = (l.takeWhile (· < c)).drop (l.length - n) ++ l.dropWhile (· < c) := by
      have hle : l.length - n ≤ (l.takeWhile (· < c)).length := by
        rw [← hsplit, length_append]
        simp only [hsplit]
        omega
      rw [List.rtake, ← drop_append_of_le_length hle, hsplit]
    rw [rtake_eq_self (l := l.dropWhile (· < c)) (by omega), hlate, filter_append,
      List.filter_eq_nil_iff.2 fun t ht => by simpa using hold t (mem_of_mem_drop ht),
      nil_append]
    exact filter_eq_self.2 fun t ht => by simpa using hnew t ht

end Queue

/-! ## The queue along a run -/

namespace Relays

variable {threshold : ℤ} {s s' : Relays} {now : ℚ} {time : Number}

/-- The queue holds the latest 10000 of the relays from some time on, and that time is out of
    the last minute. -/
structure Sound (s : Relays) : Prop where
  sorted : s.relayed.Pairwise (· ≤ ·)
  queue : ∃ since, (∀ t ∈ s.relayed.getLast?, since ≤ t - circuitBreakerWindow) ∧
    s.bridge.recentRelays = (s.relayed.filter (since ≤ ·)).rtake 10000

theorem countRelay_eq (bridge : Bridge) (now : ℚ) :
    bridge.countRelay now = { bridge with
      recentRelays := ((bridge.recentRelays ++ [now]).rtake 10000).dropWhile
        (· < now - circuitBreakerWindow) } := by
  rw [Bridge.countRelay, List.rtake]

theorem setRunning_false_recentRelays (bridge : Bridge) (reason : Option Text) (time : Number) :
    (bridge.setRunning false reason time).recentRelays = bridge.recentRelays := by
  rcases reason with _ | _ | ⟨c, s⟩ <;> rfl

/-- After a relay, the queue holds the latest 10000 of the last minute. -/
theorem Sound.countRelay (h : s.Sound) (hnow : ∀ t ∈ s.relayed, t ≤ now) :
    (s.bridge.countRelay now).recentRelays = (lastMinute now (s.relayed ++ [now])).rtake 10000 := by
  obtain ⟨since, hsince, hqueue⟩ := h.queue
  have hsorted : (s.relayed ++ [now]).Pairwise (· ≤ ·) :=
    pairwise_append.2 ⟨h.sorted, pairwise_singleton _ _, fun t ht u hu => by
      obtain rfl := mem_singleton.1 hu
      exact hnow t ht⟩
  have hold : since ≤ now - circuitBreakerWindow ∨ s.relayed = [] := by
    rcases hlast : s.relayed.getLast? with _ | t
    · exact .inr (getLast?_eq_none_iff.1 hlast)
    · refine .inl ((hsince t hlast).trans ?_)
      have := hnow t (mem_of_getLast? hlast)
      linarith
  have hfilter : (s.relayed.filter (since ≤ ·) ++ [now]).filter (now - circuitBreakerWindow ≤ ·) =
      lastMinute now (s.relayed ++ [now]) := by
    rw [lastMinute, filter_append, filter_append, List.filter_filter]
    congr 1
    refine filter_congr fun t ht => ?_
    rcases hold with hold | hold
    · by_cases hlate : now - circuitBreakerWindow ≤ t
      · simp [hlate, hold.trans hlate]
      · simp [hlate]
    · rw [hold] at ht
      cases ht
  rw [countRelay_eq]
  dsimp only
  rw [hqueue]
  calc ((((s.relayed.filter (since ≤ ·)).rtake 10000 ++ [now]).rtake 10000).dropWhile
        (· < now - circuitBreakerWindow))
      = ((s.relayed.filter (since ≤ ·) ++ [now]).rtake 10000).dropWhile
          (· < now - circuitBreakerWindow) := by rw [rtake_rtake_append]
    _ = ((s.relayed.filter (since ≤ ·) ++ [now]).filter
          (now - circuitBreakerWindow ≤ ·)).rtake 10000 :=
        dropWhile_rtake (hsorted.sublist (filter_sublist.append_right _))
    _ = _ := by rw [hfilter]

theorem checkCircuitBreaker_recentRelays (hpos : 0 < threshold) (bridge : Bridge) :
    (bridge.checkCircuitBreaker threshold now time).recentRelays =
      (bridge.countRelay now).recentRelays := by
  rw [Bridge.checkCircuitBreaker, if_neg (not_le.2 hpos)]
  dsimp only
  split
  · exact setRunning_false_recentRelays _ _ _
  · rfl

theorem Sound.next (h : s.Sound) (hpos : 0 < threshold) {event : Event}
    (hs : s.next threshold event = some s') : s'.Sound := by
  cases event with
  | relay now time =>
    rw [Relays.next] at hs
    split at hs
    next hnow =>
      cases hs
      refine ⟨?_, now - circuitBreakerWindow, fun t ht => ?_, ?_⟩
      · exact pairwise_append.2 ⟨h.sorted, pairwise_singleton _ _, fun t ht u hu => by
          obtain rfl := mem_singleton.1 hu
          exact hnow t ht⟩
      · rw [getLast?_append_of_ne_nil _ (cons_ne_nil _ _)] at ht
        cases ht
        exact le_refl _
      · exact (checkCircuitBreaker_recentRelays hpos _).trans (h.countRelay hnow)
    next => cases hs
  | set running reason time =>
    cases hs
    cases running with
    | true => exact ⟨.nil, 0, fun t ht => (nomatch ht), (rtake_nil _).symm⟩
    | false =>
      obtain ⟨since, hsince, hqueue⟩ := h.queue
      exact ⟨h.sorted, since, hsince, (setRunning_false_recentRelays _ _ _).trans hqueue⟩

theorem sound_of_reachable (hpos : 0 < threshold) (h : (system threshold).Reachable s) :
    s.Sound := by
  refine Transition.Reach.induction (I := Sound) (fun s hs => ?_)
    (fun s a s' hs _ hstep => hs.next hpos hstep) h
  obtain ⟨state, rfl⟩ := hs
  exact ⟨.nil, 0, fun t ht => (nomatch ht), (rtake_nil _).symm⟩

/-- What a relay makes of the state, in any run. -/
theorem state_relay (hpos : 0 < threshold) (h : (system threshold).Reachable s)
    (hs : s.next threshold (.relay now time) = some s') :
    s'.bridge.state =
      if threshold < min 10000 (lastMinute now s'.relayed).length then
        ⟨false, .string (text "rate_limit"), .number time⟩
      else s.bridge.state := by
  rw [Relays.next] at hs
  split at hs
  next hnow =>
    cases hs
    have hcount := congrArg List.length ((sound_of_reachable hpos h).countRelay hnow)
    rw [length_rtake] at hcount
    dsimp only
    rw [Bridge.checkCircuitBreaker, if_neg (not_le.2 hpos)]
    dsimp only
    rw [hcount]
    split_ifs
    · rfl
    · rw [countRelay_eq]
  next => cases hs

/-! ## The threshold -/

/-- Any number of relays may succeed at once, the bridge running on for want of a trip. -/
theorem reachable_replicate (hlarge : 10000 ≤ threshold) (state : RunState) (n : ℕ)
    (time : Number) : ∃ s, (system threshold).Reachable s ∧ s.relayed = List.replicate n 0 ∧
      s.bridge.state = state := by
  induction n with
  | zero => exact ⟨⟨⟨state, []⟩, []⟩, .init ⟨state, rfl⟩, rfl, rfl⟩
  | succ n ih =>
    obtain ⟨s, hs, hrelayed, hstate⟩ := ih
    have hnow : ∀ t ∈ s.relayed, t ≤ 0 := fun t ht => by
      rw [hrelayed] at ht
      exact (eq_of_mem_replicate ht).le
    have hstep : s.next threshold (.relay 0 time) =
        some ⟨s.bridge.checkCircuitBreaker threshold 0 time, s.relayed ++ [0]⟩ := if_pos hnow
    refine ⟨_, hs.step hstep, ?_, ?_⟩
    · rw [hrelayed, replicate_succ']
    · rw [state_relay (by omega) hs hstep, if_neg (by omega), hstate]

end Relays

theorem BreakerConfig.trips_of_lt {config : BreakerConfig} (hpos : 0 < config.autoPauseThreshold)
    (h : config.autoPauseThreshold < 10000) : config.Trips := fun s now time s' hs hnext => by
  rw [Relays.state_relay hpos hs hnext]
  split_ifs with h₁ h₂ h₂
  · rfl
  · omega
  · omega
  · rfl

theorem BreakerConfig.not_trips_of_le {config : BreakerConfig}
    (h : 10000 ≤ config.autoPauseThreshold) (time : Number) : ¬ config.Trips := fun htrips => by
  obtain ⟨s, hs, hrelayed, hstate⟩ := Relays.reachable_replicate h ⟨true, .null, .null⟩
    config.autoPauseThreshold.toNat time
  have hnow : ∀ t ∈ s.relayed, t ≤ 0 := fun t ht => by
    rw [hrelayed] at ht
    exact (eq_of_mem_replicate ht).le
  have hstep : s.next config.autoPauseThreshold (.relay 0 time) =
      some ⟨s.bridge.checkCircuitBreaker config.autoPauseThreshold 0 time, s.relayed ++ [0]⟩ :=
    if_pos hnow
  have hclaim := htrips s 0 time _ hs hstep
  rw [Relays.state_relay (by omega) hs hstep, if_neg (by omega), hstate, if_pos] at hclaim
  · exact absurd (congrArg RunState.running hclaim) (Ne.symm Bool.false_ne_true)
  · -- All of the relays are of the last minute.
    have hall : lastMinute 0 (s.relayed ++ [0]) = s.relayed ++ [0] :=
      filter_eq_self.2 fun t ht => by
        have : t = 0 := by
          rw [hrelayed, ← replicate_succ'] at ht
          exact eq_of_mem_replicate ht
        rw [this, circuitBreakerWindow]
        norm_num
    dsimp only
    rw [hall, hrelayed, length_append, length_replicate, length_singleton]
    omega

/-- With a threshold of less than 10000, and no other, the breaker trips in time, and only then. -/
theorem BreakerConfig.trips_iff (config : BreakerConfig)
    (hpos : 0 < config.autoPauseThreshold) : config.Trips ↔ config.autoPauseThreshold < 10000 :=
  ⟨fun h => by
    by_contra hlarge
    exact not_trips_of_le (not_lt.1 hlarge) ⟨text "0", by decide⟩ h,
   fun h => trips_of_lt hpos h⟩

/-- The default configuration trips at the 21st relay of a minute. -/
theorem BreakerConfig.trips_default :
    0 < ({} : BreakerConfig).autoPauseThreshold ∧
      (({} : BreakerConfig).Trips ↔ ({} : BreakerConfig).autoPauseThreshold < 10000) :=
  ⟨by decide, trips_iff {} (by decide)⟩

/-- A bridge with a threshold of 10000 is never paused. -/
theorem BreakerConfig.not_trips_tenThousand :
    ({ autoPauseThreshold := 10000 } : BreakerConfig).validateConfig = .ok () ∧
      ¬ ({ autoPauseThreshold := 10000 } : BreakerConfig).Trips :=
  ⟨by decide, not_trips_of_le (le_refl _) ⟨text "0", by decide⟩⟩

end ReticulumPi.Bridge
