import ReticulumPi.Paths.Warmer

/-!
# The backoff of the path warmer

The tables of the last attempts and of the failures hold what the record of the
run says (`Sound`). Two things disturb the backoff: an attempt at a destination
that has a path already, or that is cut short by `stop`, counts as a failure; and
a cycle drops the failures together with the last attempt as soon as the longest
backoff has passed, which is when a destination that has reached it is due. The
backoff is as claimed exactly in the runs in which neither happens, where a
destination whose failures were dropped fails again (`backsOff_iff`).
-/

namespace ReticulumPi.Paths

open List

variable {δ : Type*} [DecidableEq δ]

/-! ## The record -/

/-- The last attempt at a destination. -/
def previous : List (Entry δ) → δ → Option (Attempt δ)
  | [], _ => none
  | .cycle _ :: log, dest => previous log dest
  | .attempt a :: log, dest => if a.dest = dest then some a else previous log dest

/-- How many of the last attempts at a destination have timed out one after another. -/
def streak : List (Entry δ) → δ → ℕ
  | [], _ => 0
  | .cycle _ :: log, dest => streak log dest
  | .attempt a :: log, dest =>
    if a.dest = dest then (if a.outcome = .timedOut then streak log dest + 1 else 0)
    else streak log dest

/-- When the cycles have begun since the last attempt at a destination. -/
def cyclesSince : List (Entry δ) → δ → List ℚ
  | [], _ => []
  | .cycle now :: log, dest => now :: cyclesSince log dest
  | .attempt a :: log, dest => if a.dest = dest then [] else cyclesSince log dest

def Entry.now : Entry δ → ℚ
  | .cycle now => now
  | .attempt a => a.now

/-! ## What is claimed of it -/

variable (cfg : Config δ)

/-- The failures of a destination grow only with a request that has timed out;
    the backoff after a failure is at least that for the failures one after
    another, and no shorter than after the failure before; the next attempt comes
    no sooner; and a destination that had a path at every attempt is left alone
    for no longer than between two cycles. -/
structure BacksOff (s : Warmer δ) : Prop where
  counted : ∀ a earlier, .attempt a :: earlier <:+ s.log → a.before < a.after →
    a.outcome = .timedOut
  delayed : ∀ a earlier, .attempt a :: earlier <:+ s.log → a.outcome = .timedOut →
    cfg.backoff (streak (.attempt a :: earlier) a.dest) ≤ cfg.backoff a.after
  growing : ∀ a earlier, .attempt a :: earlier <:+ s.log → a.outcome = .timedOut →
    ∀ b, previous earlier a.dest = some b → b.outcome = .timedOut →
      cfg.backoff b.after ≤ cfg.backoff a.after
  kept : ∀ a earlier, .attempt a :: earlier <:+ s.log →
    ∀ b, previous earlier a.dest = some b → b.outcome = .timedOut →
      b.now + cfg.backoff (streak earlier a.dest) ≤ a.now
  reachable : ∀ dest, (∀ a, .attempt a ∈ s.log → a.dest = dest → a.outcome = .reachable) →
    cfg.wait (s.failures dest) cfg.warmInterval ≤ cfg.warmInterval

/-- Every attempt has sent a request, and has waited for it; and when one times
    out again, no cycle has begun after the longest backoff since the one before,
    unless that backoff is reached with the first failure. -/
structure Undisturbed (log : List (Entry δ)) : Prop where
  requested : ∀ a earlier, .attempt a :: earlier <:+ log →
    a.outcome = .answered ∨ a.outcome = .timedOut
  unpruned : 2 * cfg.warmInterval < cfg.maxBackoff →
    ∀ a earlier, .attempt a :: earlier <:+ log → a.outcome = .timedOut →
      ∀ b, previous earlier a.dest = some b → b.outcome = .timedOut →
        ∀ now ∈ cyclesSince earlier a.dest, now < b.now + cfg.maxBackoff

/-! ## The tables -/

/-- The last attempt that the cycles have not dropped. -/
def lastKept (maxBackoff : ℚ) : List (Entry δ) → δ → Option ℚ
  | [], _ => none
  | .cycle now :: log, dest =>
    (lastKept maxBackoff log dest).filter fun v => decide (now - maxBackoff < v)
  | .attempt a :: log, dest => if a.dest = dest then some a.now else lastKept maxBackoff log dest

/-- The failures that the cycles have not dropped. -/
def countKept (maxBackoff : ℚ) : List (Entry δ) → δ → ℕ
  | [], _ => 0
  | .cycle now :: log, dest =>
    if (lastKept maxBackoff (.cycle now :: log) dest).isSome then countKept maxBackoff log dest
    else 0
  | .attempt a :: log, dest => if a.dest = dest then a.after else countKept maxBackoff log dest

/-- What the record says of its attempts. -/
structure Recorded (a : Attempt δ) (earlier : List (Entry δ)) : Prop where
  before : a.before = countKept cfg.maxBackoff earlier a.dest
  after : a.after = if a.outcome.success then 0 else a.before + 1
  due : 0 < a.before →
    cfg.backoff a.before ≤ a.now - (lastKept cfg.maxBackoff earlier a.dest).getD 0
  later : ∀ e ∈ earlier, e.now ≤ a.now

/-- The time of the attempts that the thread makes. -/
def Pc.now : Pc δ → Option ℚ
  | .cycle now _ _ | .draining now _ => some now
  | .sleeping | .cycled => none

/-- The tables hold what the record says. -/
structure Sound (s : Warmer δ) : Prop where
  last : ∀ dest, s.lastWarmAttempt.get? dest = lastKept cfg.maxBackoff s.log dest
  count : ∀ dest, s.failures dest = countKept cfg.maxBackoff s.log dest
  recorded : ∀ a earlier, .attempt a :: earlier <:+ s.log → Recorded cfg a earlier
  clock : ∀ e ∈ s.log, e.now ≤ s.clock
  now : ∀ now ∈ s.pc.now, now ≤ s.clock ∧ ∀ e ∈ s.log, e.now ≤ now

section Tables

variable {cfg : Config δ} {s s' : Warmer δ} {now : ℚ} {dest : δ} {outcome : Outcome}

/-- Only the place in the program, the queue and the clock have changed. -/
theorem Sound.move (h : Sound cfg s) (hlast : s'.lastWarmAttempt = s.lastWarmAttempt)
    (hcount : s'.failureCount = s.failureCount) (hlog : s'.log = s.log)
    (hclock : s.clock ≤ s'.clock) (hpc : s'.pc.now = s.pc.now ∨ s'.pc.now = none ∨
      s'.pc.now = some s'.clock) : Sound cfg s' := by
  have hfailures : ∀ dest, s'.failures dest = s.failures dest := fun dest => by
    rw [Warmer.failures, hcount, Warmer.failures]
  refine ⟨?_, ?_, ?_, ?_, ?_⟩
  · rw [hlast, hlog]
    exact h.last
  · intro dest
    rw [hfailures, hlog]
    exact h.count dest
  · rw [hlog]
    exact h.recorded
  · rw [hlog]
    exact fun e he => (h.clock e he).trans hclock
  · intro now hnow
    rw [hlog]
    rcases hpc with hpc | hpc | hpc
    · rw [hpc] at hnow
      exact ⟨(h.now now hnow).1.trans hclock, (h.now now hnow).2⟩
    · rw [hpc] at hnow
      cases hnow
    · rw [hpc] at hnow
      cases hnow
      exact ⟨le_refl _, fun e he => (h.clock e he).trans hclock⟩

/-- A cycle begins. -/
theorem Sound.prune (h : Sound cfg s) (hnow : s.clock ≤ now) (candidates : List δ) :
    Sound cfg { s.prune cfg now with
      clock := now, pc := .cycle now candidates 0, recentNodeHashes := candidates
      log := .cycle now :: s.log } := by
  have hlast : ∀ dest, (s.prune cfg now).lastWarmAttempt.get? dest =
      lastKept cfg.maxBackoff (.cycle now :: s.log) dest := fun dest => by
    rw [lastKept, ← h.last]
    exact Dict.get?_select
  refine ⟨hlast, fun dest => ?_, fun a earlier ha => ?_, fun e he => ?_, fun now' hnow' => ?_⟩
  · have hcount : (s.prune cfg now).failureCount.get? dest = (s.failureCount.get? dest).filter
        fun _ => ((s.prune cfg now).lastWarmAttempt.get? dest).isSome := Dict.get?_select
    change ((s.prune cfg now).failureCount.get? dest).getD 0 = _
    rw [hcount, countKept, ← hlast, ← h.count, Warmer.failures]
    by_cases hkept : ((s.prune cfg now).lastWarmAttempt.get? dest).isSome
    · rw [if_pos hkept, hkept]
      rcases s.failureCount.get? dest <;> rfl
    · rw [if_neg hkept, Bool.eq_false_iff.2 hkept]
      rcases s.failureCount.get? dest <;> rfl
  · rcases suffix_cons_iff.1 ha with ha | ha
    · cases ha
    · exact h.recorded a earlier ha
  · rcases mem_cons.1 he with rfl | he
    · exact le_refl _
    · exact (h.clock e he).trans hnow
  · cases hnow'
    refine ⟨le_refl _, fun e he => ?_⟩
    rcases mem_cons.1 he with rfl | he
    · exact le_refl _
    · exact (h.clock e he).trans hnow

/-- An attempt is made, when the destination is not left alone. -/
theorem Sound.tryNode (h : Sound cfg s) (hnow : now ∈ s.pc.now) {interval : ℚ}
    (hdue : ¬ s.leftAlone cfg dest now interval) (outcome : Outcome) :
    Sound cfg (s.tryNode dest now outcome) := by
  obtain ⟨hclock, htimes⟩ := h.now now hnow
  have hcount : ∀ dest', (s.tryNode dest now outcome).failures dest' =
      if dest = dest' then (if outcome.success then 0 else s.failures dest + 1)
      else s.failures dest' := by
    intro dest'
    rw [Warmer.failures, Warmer.tryNode]
    dsimp only
    split_ifs with hsuccess heq heq
    · rw [← heq, Dict.get?_erase_self]
      rfl
    · rw [Dict.get?_erase_of_ne (Ne.symm heq), Warmer.failures]
    · rw [← heq, Dict.get?_set_self]
      rfl
    · rw [Dict.get?_set_of_ne (Ne.symm heq), Warmer.failures]
  have hlast : ∀ dest', (s.tryNode dest now outcome).lastWarmAttempt.get? dest' =
      if dest = dest' then some now else s.lastWarmAttempt.get? dest' := by
    intro dest'
    rw [Warmer.tryNode, Dict.get?_set]
    exact if_congr eq_comm rfl rfl
  refine ⟨fun dest' => ?_, fun dest' => ?_, fun a earlier ha => ?_, fun e he => ?_,
    fun now' hnow' => ?_⟩
  · rw [hlast, h.last]
    rfl
  · rw [hcount, h.count dest']
    rfl
  · rcases suffix_cons_iff.1 ha with ha | ha
    · cases ha
      refine ⟨h.count dest, rfl, fun hpos => ?_, htimes⟩
      rw [Warmer.leftAlone, Config.wait, if_pos hpos, not_lt, Warmer.since, h.last] at hdue
      exact hdue
    · exact h.recorded a earlier ha
  · rcases mem_cons.1 he with rfl | he
    · exact hclock
    · exact h.clock e he
  · obtain rfl : now = now' := Option.some.inj (hnow.symm.trans hnow')
    refine ⟨hclock, fun e he => ?_⟩
    rcases mem_cons.1 he with rfl | he
    · exact le_refl _
    · exact htimes e he

/-- Every step keeps the tables as the record says. -/
theorem Sound.next {e : Event δ} (h : Sound cfg s) (hs : s.next cfg e = some s') :
    Sound cfg s' := by
  cases e with
  | cycle now candidates =>
    rw [Warmer.next] at hs
    split at hs
    · split_ifs at hs with hstart
      cases hs
      exact h.prune hstart.2 candidates
    · cases hs
  | candidate outcome =>
    rw [Warmer.next] at hs
    split at hs
    · cases hs
      exact h.move rfl rfl rfl (le_refl _) (.inr (.inl rfl))
    next now dest candidates used hpc =>
      have hnow : now ∈ s.pc.now := by rw [hpc]; rfl
      split_ifs at hs with hend hleft
      · cases hs
        exact h.move rfl rfl rfl (le_refl _) (.inr (.inl rfl))
      · cases hs
        exact h.move rfl rfl rfl (le_refl _) (.inl hnow.symm)
      · cases hs
        exact (h.tryNode hnow hleft outcome).move rfl rfl rfl (le_refl _) (.inl hnow.symm)
    · cases hs
  | drain now =>
    rw [Warmer.next] at hs
    split at hs
    · split_ifs at hs with hclock
      cases hs
      exact h.move rfl rfl rfl hclock (.inr (.inr rfl))
    · cases hs
  | queued outcome =>
    rw [Warmer.next] at hs
    split at hs
    next now drained hpc =>
      have hnow : now ∈ s.pc.now := by rw [hpc]; rfl
      split at hs
      · cases hs
        exact h.move rfl rfl rfl (le_refl _) (.inr (.inl rfl))
      next dest queue hqueue =>
        split_ifs at hs with hend hleft hunseen
        · cases hs
          exact h.move rfl rfl rfl (le_refl _) (.inr (.inl rfl))
        · cases hs
          exact h.move rfl rfl rfl (le_refl _) (.inl rfl)
        · cases hs
          exact (h.tryNode hnow hleft outcome).move rfl rfl rfl (le_refl _) (.inl hnow.symm)
    · cases hs
  | announce dest now =>
    obtain ⟨hclock, hs⟩ := Option.ite_none_right_eq_some.1 hs
    split_ifs at hs <;> cases hs <;> exact h.move rfl rfl rfl hclock (.inl rfl)
  | stop =>
    cases hs
    exact h.move rfl rfl rfl (le_refl _) (.inl rfl)

theorem sound_of_reachable (h : cfg.system.Reachable s) : Sound cfg s := by
  refine Transition.Reach.induction (I := Sound cfg) ?_ (fun _ _ _ hs _ hstep => hs.next hstep) h
  rintro s ⟨clock, rfl⟩
  refine ⟨fun _ => rfl, fun _ => rfl, fun a earlier ha => ?_, fun e he => ?_, fun now hnow => ?_⟩
  · cases suffix_nil.1 ha
  · cases he
  · cases hnow

end Tables

/-! ## What is dropped -/

section Record

variable {cfg : Config δ} {log earlier : List (Entry δ)} {dest : δ} {a b : Attempt δ}

/-- The last attempt is kept with its failures, or has been dropped with them, by
    a cycle that has begun after the longest backoff. -/
theorem kept_cases (maxBackoff : ℚ) (h : previous log dest = some b) :
    (lastKept maxBackoff log dest = some b.now ∧ countKept maxBackoff log dest = b.after ∧
        ∀ now ∈ cyclesSince log dest, now < b.now + maxBackoff) ∨
      (lastKept maxBackoff log dest = none ∧ countKept maxBackoff log dest = 0 ∧
        ∃ now ∈ cyclesSince log dest, b.now + maxBackoff ≤ now) := by
  induction log with
  | nil => cases h
  | cons e log ih =>
    cases e with
    | cycle now =>
      rw [countKept, lastKept, cyclesSince]
      rcases ih h with ⟨hlast, hcount, hbefore⟩ | ⟨hlast, hcount, now', hmem, hnow'⟩
      · rw [hlast, hcount, Option.filter_some]
        by_cases hnow : now < b.now + maxBackoff
        · rw [if_pos (by simpa using by linarith)]
          exact .inl ⟨rfl, rfl, forall_mem_cons.2 ⟨hnow, hbefore⟩⟩
        · rw [if_neg (by simpa using by linarith)]
          exact .inr ⟨rfl, rfl, now, mem_cons_self, not_lt.1 hnow⟩
      · rw [hlast]
        exact .inr ⟨rfl, rfl, now', mem_cons_of_mem _ hmem, hnow'⟩
    | attempt a =>
      rw [previous] at h
      rw [countKept, lastKept, cyclesSince]
      split_ifs at h ⊢
      · cases h
        exact .inl ⟨rfl, rfl, forall_mem_nil _⟩
      · exact ih h

theorem countKept_of_previous_none (maxBackoff : ℚ) (h : previous log dest = none) :
    countKept maxBackoff log dest = 0 ∧ streak log dest = 0 := by
  induction log with
  | nil => exact ⟨rfl, rfl⟩
  | cons e log ih =>
    cases e with
    | cycle now =>
      rw [countKept, (ih h).1, ite_self]
      exact ⟨rfl, (ih h).2⟩
    | attempt a =>
      rw [previous] at h
      rw [countKept, streak]
      split_ifs at h ⊢
      exact ih h

theorem previous_spec (h : previous log dest = some b) :
    b.dest = dest ∧ ∃ earlier, .attempt b :: earlier <:+ log ∧
      streak log dest = streak (.attempt b :: earlier) dest := by
  induction log with
  | nil => cases h
  | cons e log ih =>
    cases e with
    | cycle now =>
      obtain ⟨hdest, earlier, hsuffix, hstreak⟩ := ih h
      exact ⟨hdest, earlier, hsuffix.trans (suffix_cons _ _), hstreak⟩
    | attempt a =>
      rw [previous] at h
      split_ifs at h with ha
      · cases h
        exact ⟨ha, log, suffix_refl _, rfl⟩
      · obtain ⟨hdest, earlier, hsuffix, hstreak⟩ := ih h
        refine ⟨hdest, earlier, hsuffix.trans (suffix_cons _ _), ?_⟩
        rw [streak, if_neg ha, hstreak]

theorem streak_of_timedOut (h : previous log dest = some b) (hb : b.outcome = .timedOut) :
    1 ≤ streak log dest := by
  obtain ⟨hdest, earlier, -, hstreak⟩ := previous_spec h
  rw [hstreak, streak, if_pos hdest, if_pos hb]
  omega

theorem Undisturbed.suffix (h : Undisturbed cfg log) (hsuffix : earlier <:+ log) :
    Undisturbed cfg earlier where
  requested := fun a rest ha => h.requested a rest (ha.trans hsuffix)
  unpruned := fun hlong a rest ha => h.unpruned hlong a rest (ha.trans hsuffix)

theorem Recorded.after_answered (h : Recorded cfg a earlier) (ha : a.outcome = .answered) :
    a.after = 0 := by
  rw [h.after, ha]
  rfl

theorem Recorded.after_timedOut (h : Recorded cfg a earlier) (ha : a.outcome = .timedOut) :
    a.after = countKept cfg.maxBackoff earlier a.dest + 1 := by
  rw [h.after, ha, h.before]
  rfl

/-- What is kept are the failures one after another, where what has failed last
    is not dropped. -/
theorem Undisturbed.countKept_eq (h : Undisturbed cfg earlier)
    (hrecorded : ∀ a earlier', .attempt a :: earlier' <:+ earlier → Recorded cfg a earlier')
    (hafter : ∀ b, previous earlier dest = some b → b.outcome = .timedOut →
      b.after = streak earlier dest)
    (hkept : ∀ b, previous earlier dest = some b → b.outcome = .timedOut →
      ∀ now ∈ cyclesSince earlier dest, now < b.now + cfg.maxBackoff) :
    countKept cfg.maxBackoff earlier dest = streak earlier dest := by
  rcases hb : previous earlier dest with _ | b
  · obtain ⟨hcount, hstreak⟩ := countKept_of_previous_none cfg.maxBackoff hb
    rw [hcount, hstreak]
  · obtain ⟨hdest, rest, hsuffix, hstreak⟩ := previous_spec hb
    rcases h.requested b rest hsuffix with hanswered | htimedOut
    · have hzero := (hrecorded b rest hsuffix).after_answered hanswered
      rw [hstreak, streak, if_pos hdest, if_neg (by rw [hanswered]; decide)]
      rcases kept_cases cfg.maxBackoff hb with ⟨-, hcount, -⟩ | ⟨-, hcount, -⟩
      · rw [hcount, hzero]
      · exact hcount
    · rcases kept_cases cfg.maxBackoff hb with
        ⟨-, hcount, -⟩ | ⟨-, -, now, hmem, hnow⟩
      · rw [hcount, hafter b hb htimedOut]
      · exact absurd (hkept b hb htimedOut now hmem) (not_lt.2 hnow)

/-- The failures that are counted are those one after another. -/
theorem Undisturbed.after_eq (h : Undisturbed cfg log)
    (hrecorded : ∀ a earlier, .attempt a :: earlier <:+ log → Recorded cfg a earlier)
    (hlong : 2 * cfg.warmInterval < cfg.maxBackoff) :
    ∀ b, previous log dest = some b → b.outcome = .timedOut → b.after = streak log dest := by
  induction log with
  | nil => exact fun b hb => by cases hb
  | cons e log ih =>
    have htail := h.suffix (suffix_cons e log)
    have hrecorded' : ∀ a earlier, .attempt a :: earlier <:+ log → Recorded cfg a earlier :=
      fun a earlier ha => hrecorded a earlier (ha.trans (suffix_cons _ _))
    have ih := ih htail hrecorded'
    intro b hb hout
    cases e with
    | cycle now => exact ih b hb hout
    | attempt a =>
      rw [previous] at hb
      rw [streak]
      by_cases ha : a.dest = dest
      · rw [if_pos ha] at hb
        cases hb
        subst ha
        have hkept := h.unpruned hlong b log (suffix_refl _) hout
        rw [if_pos rfl, if_pos hout, (hrecorded b log (suffix_refl _)).after_timedOut hout,
          htail.countKept_eq hrecorded' ih hkept]
      · rw [if_neg ha] at hb ⊢
        exact ih b hb hout

end Record

/-! ## The result -/

section Result

variable {cfg : Config δ} {s : Warmer δ} {log earlier : List (Entry δ)} {a b : Attempt δ}

/-- A failure that does not grow the backoff as claimed was preceded by none, or
    by one that is still kept, unless the longest backoff is reached at once. -/
theorem BacksOff.undisturbed (h : BacksOff cfg s) (hs : Sound cfg s) :
    Undisturbed cfg s.log where
  requested := by
    intro a earlier ha
    have hrecorded := hs.recorded a earlier ha
    by_contra hnot
    rw [not_or] at hnot
    have hfailed : a.outcome.success = false := by
      cases hout : a.outcome with
      | answered => exact absurd hout hnot.1
      | _ => rfl
    refine hnot.2 (h.counted a earlier ha ?_)
    rw [hrecorded.after, hfailed]
    exact Nat.lt_succ_self _
  unpruned := by
    intro hlong a earlier ha hout b hb hbout now hmem
    by_contra hnow
    rcases kept_cases cfg.maxBackoff hb with ⟨-, -, hbefore⟩ | ⟨-, hcount, -⟩
    · exact hnow (hbefore now hmem)
    · -- The failures were dropped, so this one is the first again.
      have hafter := (hs.recorded a earlier ha).after_timedOut hout
      rw [hcount] at hafter
      have hdelayed := h.delayed a earlier ha hout
      rw [streak, if_pos rfl, if_pos hout, hafter] at hdelayed
      have hstreak := streak_of_timedOut hb hbout
      exact absurd hdelayed (not_le.2 (Config.backoff_one_lt hlong (by omega)))

theorem time_of_mem_cyclesSince {log : List (Entry δ)} {dest : δ} {now : ℚ}
    (h : now ∈ cyclesSince log dest) : ∃ e ∈ log, e.now = now := by
  induction log with
  | nil => cases h
  | cons e log ih =>
    have hlater : now ∈ cyclesSince log dest → ∃ e' ∈ e :: log, e'.now = now := fun h =>
      let ⟨e', he', hnow⟩ := ih h
      ⟨e', mem_cons_of_mem _ he', hnow⟩
    cases e with
    | cycle now' =>
      rcases mem_cons.1 h with rfl | h
      · exact ⟨_, mem_cons_self, rfl⟩
      · exact hlater h
    | attempt a =>
      rw [cyclesSince] at h
      split_ifs at h
      · cases h
      · exact hlater h

/-- A failure is counted with those before it, where the longest backoff is not
    reached at once. -/
theorem Undisturbed.after_streak (h : Undisturbed cfg s.log) (hs : Sound cfg s)
    (ha : .attempt a :: earlier <:+ s.log) (hout : a.outcome = .timedOut)
    (hlong : 2 * cfg.warmInterval < cfg.maxBackoff) :
    a.after = streak (.attempt a :: earlier) a.dest := by
  refine (h.suffix ha).after_eq (fun b rest hb => hs.recorded b rest (hb.trans ha)) hlong a ?_ hout
  rw [previous, if_pos rfl]

/-- The backoff after a failure is that for the failures one after another. -/
theorem Undisturbed.backoff_eq (h : Undisturbed cfg s.log) (hs : Sound cfg s)
    (ha : .attempt a :: earlier <:+ s.log) (hout : a.outcome = .timedOut) :
    cfg.backoff a.after = cfg.backoff (streak (.attempt a :: earlier) a.dest) := by
  rcases le_or_gt cfg.maxBackoff (2 * cfg.warmInterval) with hshort | hlong
  · have hafter := (hs.recorded a earlier ha).after_timedOut hout
    rw [Config.backoff_of_le hshort (by omega), Config.backoff_of_le hshort]
    rw [streak, if_pos rfl, if_pos hout]
    omega
  · rw [h.after_streak hs ha hout hlong]

theorem Undisturbed.backsOff (h : Undisturbed cfg s.log) (hs : Sound cfg s) : BacksOff cfg s where
  counted := by
    intro a earlier ha hgrows
    refine (h.requested a earlier ha).resolve_left fun hanswered => ?_
    rw [(hs.recorded a earlier ha).after_answered hanswered] at hgrows
    exact absurd hgrows (Nat.not_lt_zero _)
  delayed := fun a earlier ha hout => (h.backoff_eq hs ha hout).ge
  growing := by
    intro a earlier ha hout b hb hbout
    obtain ⟨hdest, rest, hsuffix, hstreak⟩ := previous_spec hb
    rw [h.backoff_eq hs ha hout, h.backoff_eq hs (hsuffix.trans ((suffix_cons _ _).trans ha))
      hbout, hdest, ← hstreak, streak, if_pos rfl, if_pos hout]
    exact Config.backoff_mono (Nat.le_succ _)
  kept := by
    intro a earlier ha b hb hbout
    have hrecorded := hs.recorded a earlier ha
    obtain ⟨hdest, rest, hsuffix, hstreak⟩ := previous_spec hb
    have hb' : .attempt b :: rest <:+ s.log := hsuffix.trans ((suffix_cons _ _).trans ha)
    rcases kept_cases cfg.maxBackoff hb with ⟨hlast, hcount, -⟩ | ⟨-, -, now, hmem, hnow⟩
    · have hafter := (hs.recorded b rest hb').after_timedOut hbout
      have hdue := hrecorded.due (by rw [hrecorded.before, hcount, hafter]; exact Nat.succ_pos _)
      rw [hrecorded.before, hcount, hlast, h.backoff_eq hs hb' hbout, hdest, ← hstreak] at hdue
      dsimp only [Option.getD_some] at hdue
      linarith
    · obtain ⟨e, he, rfl⟩ := time_of_mem_cyclesSince hmem
      have hlater := hrecorded.later e he
      have hle := cfg.backoff_le (k := streak earlier a.dest)
      linarith
  reachable := by
    intro dest hall
    have hnone : previous s.log dest = none := by
      rcases hb : previous s.log dest with _ | b
      · rfl
      · obtain ⟨hdest, rest, hsuffix, -⟩ := previous_spec hb
        have hreachable := hall b (hsuffix.subset mem_cons_self) hdest
        rcases h.requested b rest hsuffix with hout | hout <;> cases hreachable.symm.trans hout
    rw [hs.count, (countKept_of_previous_none cfg.maxBackoff hnone).1]
    exact le_refl _

/-- The backoff is as claimed exactly if every attempt has waited for a path that
    it has requested, and no failure follows on one that was dropped. -/
theorem backsOff_iff (cfg : Config δ) (s : Warmer δ) (h : cfg.system.Reachable s) :
    BacksOff cfg s ↔ Undisturbed cfg s.log :=
  ⟨fun hb => hb.undisturbed (sound_of_reachable h), fun hu => hu.backsOff (sound_of_reachable h)⟩

/-- The failures and the last attempts are what the record tells; and no attempt
    comes before the failures counted then allow it. -/
theorem attempts_due (cfg : Config δ) (s : Warmer δ) (h : cfg.system.Reachable s) :
    (∀ dest, s.failures dest = countKept cfg.maxBackoff s.log dest ∧
      s.lastWarmAttempt.get? dest = lastKept cfg.maxBackoff s.log dest) ∧
    ∀ a earlier, .attempt a :: earlier <:+ s.log → 0 < a.before →
      a.before = countKept cfg.maxBackoff earlier a.dest ∧
        (lastKept cfg.maxBackoff earlier a.dest).getD 0 + cfg.backoff a.before ≤ a.now := by
  have hs := sound_of_reachable h
  refine ⟨fun dest => ⟨hs.count dest, hs.last dest⟩, fun a earlier ha hpos => ?_⟩
  have hrec := hs.recorded a earlier ha
  exact ⟨hrec.before, by linarith [hrec.due hpos]⟩

end Result

/-! ## A destination with a path -/

/-- The options as they are without a configuration. -/
def defaults : Config ℕ where
  warmInterval := 120
  maxRequestsPerCycle := 10
  maxBackoff := 3600
  priority := []
  interval_ge := by decide
  requests_pos := by decide

/-- A cycle for a destination that has a path. -/
def stillReachable : List (Event ℕ) := [.cycle 1000 [7], .candidate .reachable]

theorem stillReachable_not_backsOff :
    ¬ ∀ (cfg : Config ℕ) (s : Warmer ℕ), cfg.system.Reachable s → BacksOff cfg s := by
  intro h
  obtain ⟨s, hs, e, hhead, hend⟩ :
      ∃ s ∈ stillReachable.foldlM (Warmer.next defaults) { clock := 0 }, ∃ e ∈ s.log.head?,
        (match e with
        | .cycle .. => false
        | .attempt a => decide (a.before < a.after ∧ a.outcome = .reachable)) = true := by
    decide +kernel
  have hreach : defaults.system.Reachable s := Transition.Reachable.foldlM (.init ⟨0, rfl⟩) hs
  obtain ⟨earlier, hlog⟩ := head?_eq_some_iff.1 hhead
  cases e with
  | cycle => cases hend
  | attempt a =>
    obtain ⟨hlt, hout⟩ := of_decide_eq_true hend
    have hcounted := (h defaults s hreach).counted a earlier (hlog ▸ suffix_refl _) hlt
    cases hout.symm.trans hcounted

/-- Two failures, the second after the backoff for the first. -/
def failsTwice : List (Event ℕ) :=
  [.cycle 1000 [7], .candidate .timedOut, .candidate .timedOut, .drain 1020, .queued .timedOut,
    .cycle 1130 [7], .candidate .timedOut, .candidate .timedOut, .drain 1130, .queued .timedOut,
    .cycle 1250 [7], .candidate .timedOut]

theorem failsTwice_backsOff_iff :
    ∃ s, failsTwice.foldlM (Warmer.next defaults) { clock := 0 } = some s ∧ s.failures 7 = 2 ∧
      (BacksOff defaults s ↔ Undisturbed defaults s.log) := by
  obtain ⟨s, hs, hend⟩ : ∃ s ∈ failsTwice.foldlM (Warmer.next defaults) { clock := 0 },
      s.failures 7 = 2 := by
    decide +kernel
  have hreach : defaults.system.Reachable s := Transition.Reachable.foldlM (.init ⟨0, rfl⟩) hs
  exact ⟨s, hs, hend, backsOff_iff defaults s hreach⟩

theorem failsTwice_attempts_due : ∃ s, failsTwice.foldlM (Warmer.next defaults) { clock := 0 } =
    some s ∧ countKept 3600 s.log 7 = 2 := by
  obtain ⟨s, hs, hend⟩ : ∃ s ∈ failsTwice.foldlM (Warmer.next defaults) { clock := 0 },
      s.failures 7 = 2 := by
    decide +kernel
  have hreach : defaults.system.Reachable s := Transition.Reachable.foldlM (.init ⟨0, rfl⟩) hs
  exact ⟨s, hs, ((attempts_due defaults s hreach).1 7).1.symm.trans hend⟩

end ReticulumPi.Paths
