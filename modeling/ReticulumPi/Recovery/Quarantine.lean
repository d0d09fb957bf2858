import ReticulumPi.Recovery.RateBound

/-!
# What keeps a quarantine

A quarantine begun at the monotonic time `t` is to last until
`t + windowSeconds`. Two predicates say that it is still in force: `LimKept`
of the limiter, which holds a quarantine of this boot begun at `t` or later,
and `FileKept` of the state file, which holds one too or will be rejected.
Reloading takes either of them to `LimKept`, whatever the limiter held before;
every later step of an operation keeps it, and what the limiter writes makes
it a fact about the file again.

The clocks are supposed to read no negative values here: such a reading
raises, and may do so between the reset of a limiter and its next quarantine.
-/

namespace ReticulumPi.Recovery

open Prog Fallible

/-- The clocks never read a negative value. -/
structure World.Valid (w : World) : Prop where
  wall : ∀ n, 0 ≤ w.wall n
  mono : ∀ n, 0 ≤ w.mono n

variable {w : World} {c : Config} {s : Session} {α : Type} {E : Error → Session → Prop}
  {H : Session → Prop}

/-! ## What remains of a quarantine -/

/-- What remains of a quarantine when the clocks read `wall` and `mono`: across
    boots, by the wall clock. -/
def remaining (c : Config) (wall mono : ℚ) (q : Quarantine) : ℚ :=
  let age := if q.bootId = c.bootId then mono - q.monotonicTime else wall - q.wallTime
  if age < -clockSkewTolerance then c.windowSeconds
  else max 0 (c.windowSeconds - max 0 age)

theorem remaining_nonneg (c : Config) (wall mono : ℚ) (q : Quarantine) :
    0 ≤ remaining c wall mono q := by
  rw [remaining]
  generalize (if q.bootId = c.bootId then mono - q.monotonicTime else wall - q.wallTime) = age
  split_ifs
  · exact c.windowSeconds_pos.le
  · exact le_max_left _ _

variable {wall : ℚ} {q : Quarantine}

/-- A quarantine from the future is as if it began now. -/
theorem remaining_own {mono : ℚ} (hq : q.bootId = c.bootId) :
    remaining c wall mono q = max 0 (c.windowSeconds - max 0 (mono - q.monotonicTime)) := by
  dsimp only [remaining]
  rw [if_pos hq]
  split_ifs with h
  · have htol : (0 : ℚ) ≤ clockSkewTolerance := by norm_num [clockSkewTolerance]
    rw [max_eq_left (by linarith : mono - q.monotonicTime ≤ 0), sub_zero,
      max_eq_right c.windowSeconds_pos.le]
  · rfl

/-- What remains reaches to the end of the window. -/
theorem le_add_remaining (wall : ℚ) {mono : ℚ} (hq : q.bootId = c.bootId)
    (hpast : q.monotonicTime ≤ mono) :
    q.monotonicTime + c.windowSeconds ≤ mono + remaining c wall mono q := by
  rw [remaining_own hq, max_eq_right (sub_nonneg.2 hpast)]
  have h := le_max_right 0 (c.windowSeconds - (mono - q.monotonicTime))
  linarith

/-- Of two quarantines of this boot, read one after the other, the later one
    has no less left if it began later by no less than passed between the readings. -/
theorem remaining_le_remaining {wall' mono mono' : ℚ} {q' : Quarantine}
    (hq : q.bootId = c.bootId) (hq' : q'.bootId = c.bootId)
    (h : mono' - mono ≤ q'.monotonicTime - q.monotonicTime) :
    remaining c wall mono q ≤ remaining c wall' mono' q' := by
  have hage : mono' - q'.monotonicTime ≤ mono - q.monotonicTime := by linarith
  rw [remaining_own hq, remaining_own hq']
  gcongr

/-! ## The clocks, and what a quarantine does to a limiter -/

variable {Q : ℚ → Session → Prop}

theorem wp_clock {clock : ℕ → ℚ} (label : String) (h : 0 ≤ clock s.tick) :
    wp (safeClock clock label) Q E H s = Q (clock s.tick) { s with tick := s.tick + 1 } := by
  rw [safeClock, wp_bind, wp_nextTick, wp_ite, if_neg (not_lt.2 h), wp_pure]

theorem wp_wallClock (hw : w.Valid) :
    wp (wallClock w) Q E H s = Q (w.wall s.tick) { s with tick := s.tick + 1 } :=
  wp_clock "wall" (hw.wall _)

theorem wp_monotonicClock (hw : w.Valid) :
    wp (monotonicClock w) Q E H s = Q (w.mono s.tick) { s with tick := s.tick + 1 } :=
  wp_clock "monotonic" (hw.mono _)

theorem wp_failClosed (hw : w.Valid) {reason : String} (hr : reason ∈ quarantineReasons)
    {Q : Unit → Session → Prop} :
    wp (failClosedLocked w c reason) Q E H s = Q () { s with
      tick := s.tick + 2
      lim := failClosed c reason (w.wall s.tick) (w.mono (s.tick + 1)) s.lim } := by
  rw [failClosedLocked, wp_ite, if_neg (not_not.2 hr), wp_bind, wp_wallClock hw, wp_bind,
    wp_modifyLim, wp_bind, wp_monotonicClock hw, wp_modifyLim]
  rfl

theorem wp_quarantineRemainingLocked (hw : w.Valid) (q : Quarantine) :
    wp (quarantineRemainingLocked w c q) Q E H s =
      Q (remaining c (w.wall s.tick) (w.mono (s.tick + 1)) q) { s with tick := s.tick + 2 } := by
  rw [quarantineRemainingLocked, wp_bind, wp_wallClock hw, wp_bind, wp_monotonicClock hw, wp_ite,
    wp_pure, wp_pure]
  dsimp only [remaining]
  split_ifs <;> rfl

/-- What applying a quarantine, of which `r` remains at the time `now`, makes of a limiter. -/
def applied (q : Quarantine) (r now : ℚ) (l : Limiter) : Limiter :=
  if r ≤ 0 then
    if q.reason = "clock_uncertain" then { l with futureRecordsMayBeDiscarded := true } else l
  else
    { l with
      quarantine := some q
      stateError := some q.reason
      blockedUntilMonotonic := now + r }

variable {r : ℚ}

theorem applied_over (q : Quarantine) (now : ℚ) (l : Limiter) (h : r ≤ 0) :
    (applied q r now l).quarantine = l.quarantine ∧
      (applied q r now l).blockedUntilMonotonic = l.blockedUntilMonotonic := by
  rw [applied, if_pos h]
  split_ifs <;> exact ⟨rfl, rfl⟩

theorem applied_in_force (q : Quarantine) (now : ℚ) (l : Limiter) (h : 0 < r) :
    (applied q r now l).quarantine = some q ∧
      (applied q r now l).blockedUntilMonotonic = now + r := by
  rw [applied, if_neg (not_le.2 h)]
  exact ⟨rfl, rfl⟩

/-- Applying a quarantine returns what remains of it. -/
theorem wp_applyQuarantineLocked (hw : w.Valid) (q : Quarantine) (h : ∀ n, s.tick + 2 ≤ n →
      Q (remaining c (w.wall s.tick) (w.mono (s.tick + 1)) q) { s with
        tick := n
        lim := applied q (remaining c (w.wall s.tick) (w.mono (s.tick + 1)) q)
          (w.mono (s.tick + 2)) s.lim }) : wp (applyQuarantineLocked w c q) Q E H s := by
  rw [applyQuarantineLocked, wp_bind, wp_quarantineRemainingLocked hw, wp_ite]
  have hnonneg := remaining_nonneg c (w.wall s.tick) (w.mono (s.tick + 1)) q
  rcases le_or_gt (remaining c (w.wall s.tick) (w.mono (s.tick + 1)) q) 0 with hr | hr
  · have hQ := h (s.tick + 2) le_rfl
    rw [applied, if_pos hr, le_antisymm hr hnonneg] at hQ
    rw [if_pos hr, wp_bind, wp_modifyLim, wp_pure]
    exact hQ
  · have hQ := h (s.tick + 3) (by omega)
    rw [applied, if_neg (not_le.2 hr)] at hQ
    rw [if_neg (not_le.2 hr), wp_bind, wp_monotonicClock hw, wp_bind, wp_modifyLim, wp_pure]
    exact hQ

/-! ## In force -/

/-- The quarantines of this boot, on file and held, began in the past, and a
    limiter that holds one is blocked for as long as it lasts; one that holds
    none is not blocked. -/
structure Timely (w : World) (c : Config) (s : Session) : Prop where
  file : ∀ p q, s.file = .payload p → validatePayload p = .ok () → p.quarantine = some q →
    q.bootId = c.bootId → q.monotonicTime ≤ w.mono s.tick
  past : ∀ q, s.lim.quarantine = some q → q.bootId = c.bootId → q.monotonicTime ≤ w.mono s.tick
  blocked : ∀ q, s.lim.quarantine = some q → q.bootId = c.bootId →
    q.monotonicTime + c.windowSeconds ≤ s.lim.blockedUntilMonotonic
  clear : s.lim.quarantine = none → s.lim.blockedUntilMonotonic = 0

/-- The quarantine `q` is one of this boot, begun at `t` or later. -/
def Since (c : Config) (t : ℚ) (q : Quarantine) : Prop := q.bootId = c.bootId ∧ t ≤ q.monotonicTime

/-- A quarantine begun at `t` is over, or the limiter holds one begun no earlier. -/
def LimKept (w : World) (c : Config) (t : ℚ) (s : Session) : Prop :=
  t + c.windowSeconds ≤ w.mono s.tick ∨ ∃ q, s.lim.quarantine = some q ∧ Since c t q

/-- A quarantine begun at `t` is over, or the file holds one begun no earlier,
    or will be rejected. -/
def FileKept (w : World) (c : Config) (t : ℚ) (s : Session) : Prop :=
  t + c.windowSeconds ≤ w.mono s.tick ∨
    s.file ≠ .absent ∧ ∀ p, s.file = .payload p → validatePayload p = .ok () →
      ∃ q, p.quarantine = some q ∧ Since c t q

/-- What an operation keeps from the instant `k` on: the quarantine begun at
    `t` in the limiter, if `A` holds, and in the file, if `B` holds. -/
structure Held (w : World) (c : Config) (k : ℕ) (t : ℚ) (A B : Prop) (s : Session) : Prop where
  timely : Timely w c s
  tick : k ≤ s.tick
  lim : A → LimKept w c t s
  file : B → FileKept w c t s

variable {k : ℕ} {t : ℚ} {A B A' B' : Prop}

theorem Timely.stable : Stable (Timely w c) := fun _ _ hn h =>
  ⟨fun p q hp hv hq hb => (h.file p q hp hv hq hb).trans (w.mono_monotone hn),
    fun q hq hb => (h.past q hq hb).trans (w.mono_monotone hn), h.blocked, h.clear⟩

theorem LimKept.stable : Stable (LimKept w c t) := fun _ _ hn h =>
  h.imp_left fun h => h.trans (w.mono_monotone hn)

theorem FileKept.stable : Stable (FileKept w c t) := fun _ _ hn h =>
  h.imp_left fun h => h.trans (w.mono_monotone hn)

theorem Held.stable : Stable (Held w c k t A B) := fun s n hn h =>
  ⟨h.timely.stable s n hn, h.tick.trans hn, fun hA => (h.lim hA).stable s n hn,
    fun hB => (h.file hB).stable s n hn⟩

theorem Held.mono (h : Held w c k t A B s) (hA : A' → A) (hB : B' → B) : Held w c k t A' B' s :=
  ⟨h.timely, h.tick, h.lim ∘ hA, h.file ∘ hB⟩

variable {n m : ℕ}

/-- What is left of a quarantine begun at `t` when nothing remains of one begun no earlier. -/
theorem Since.over (h : Since c t q) (hnm : n ≤ m)
    (hpast : q.monotonicTime ≤ w.mono n) (hr : remaining c wall (w.mono n) q ≤ 0) :
    t + c.windowSeconds ≤ w.mono m := by
  have hlast := le_add_remaining wall h.1 hpast
  have hmono := w.mono_monotone hnm
  have ht := h.2
  linarith

/-! ### Changes of the limiter -/

variable {l : Limiter}

variable (h : Held w c k t A B s)
include h

/-- A change of the limiter that leaves its quarantine as it is. -/
theorem Held.withLim (hq : l.quarantine = s.lim.quarantine)
    (hb : l.blockedUntilMonotonic = s.lim.blockedUntilMonotonic) :
    Held w c k t A B { s with lim := l } := by
  refine ⟨⟨h.timely.file, fun q hl => h.timely.past q (hq ▸ hl),
    fun q hl hown => hb ▸ h.timely.blocked q (hq ▸ hl) hown,
    fun hl => hb.trans (h.timely.clear (hq ▸ hl))⟩, h.tick, fun hA => ?_, h.file⟩
  exact (h.lim hA).imp_right fun ⟨q, hl, hs⟩ => ⟨q, hq.trans hl, hs⟩

theorem Held.withMetadata (m : Dict String String) :
    Held w c k t A B { s with lim := { s.lim with metadata := m } } := h.withLim rfl rfl

/-- A limiter without quarantine in place of the one there is. -/
theorem Held.fresh (hl : l.quarantine = none)
    (hl₀ : l.blockedUntilMonotonic = 0) (hm : s.tick ≤ m) :
    Held w c k t False B { s with tick := m, lim := l } := by
  have h' := h.stable s m hm
  refine ⟨⟨h'.timely.file, fun q hq => ?_, fun q hq => ?_, fun _ => hl₀⟩, h'.tick, nofun, h'.file⟩
  all_goals cases hl.symm.trans hq

/-- A limiter that fails is in quarantine since then, or stays in a longer one. -/
theorem Held.failClosed (ht : t ≤ w.mono k) (reason : String)
    (wall : ℚ) (hn : s.tick ≤ n) (hm : n ≤ m) : Held w c k t A B { s with
      tick := m
      lim := Recovery.failClosed c reason wall (w.mono n) s.lim } := by
  have hm' := h.stable s m (hn.trans hm)
  rw [Recovery.failClosed]
  split_ifs with hle
  · refine ⟨⟨hm'.timely.file, ?_, ?_, fun hq => (by cases hq)⟩, hm'.tick, fun _ => ?_, hm'.file⟩
    · rintro q ⟨⟩ -
      exact w.mono_monotone hm
    · rintro q ⟨⟩ -
      exact le_rfl
    · exact .inr ⟨_, rfl, rfl, ht.trans (w.mono_monotone (h.tick.trans hn))⟩
  · exact hm'.withLim rfl rfl

/-- A fresh limiter that fails is in quarantine since then. -/
theorem Held.failClosed_fresh (hw : w.Valid) (ht : t ≤ w.mono k)
    (reason : String) (wall : ℚ) (hn : s.tick ≤ n) (hm : n ≤ m)
    (hl : s.lim.blockedUntilMonotonic = 0) : Held w c k t True B { s with
      tick := m
      lim := Recovery.failClosed c reason wall (w.mono n) s.lim } := by
  have hle : s.lim.blockedUntilMonotonic ≤ w.mono n + c.windowSeconds :=
    hl ▸ add_nonneg (hw.mono n) c.windowSeconds_pos.le
  have h' := h.failClosed ht reason wall hn hm
  refine ⟨h'.timely, h'.tick, fun _ => .inr ?_, h'.file⟩
  rw [Recovery.failClosed, if_pos hle]
  exact ⟨_, rfl, rfl, ht.trans (w.mono_monotone (h.tick.trans hn))⟩

/-- A quarantine is cleared when it is over. -/
theorem Held.expire {now : ℚ} (hnow : now ≤ w.mono s.tick) :
    Held w c k t A B { s with lim := expireQuarantine now s.lim } := by
  rw [expireQuarantine]
  split_ifs with hkeep hreason
  · exact h
  all_goals
    obtain ⟨-, hover⟩ := not_or.1 hkeep
    refine ⟨⟨h.timely.file, fun _ hq => (by cases hq), fun _ hq => (by cases hq), fun _ => rfl⟩,
      h.tick, fun hA => .inl ?_, h.file⟩
    rcases h.lim hA with hpast | ⟨q, hq, hown, ht⟩
    · exact hpast
    · have hblocked := h.timely.blocked q hq hown
      change t + c.windowSeconds ≤ w.mono s.tick
      linarith [not_lt.1 hover]

omit h

/-- Applying a quarantine of the past leaves the limiter blocked for as long as it lasts. -/
theorem Timely.applied (h : Timely w c s)
    (hpast : q.bootId = c.bootId → q.monotonicTime ≤ w.mono s.tick) (hn : s.tick + 2 ≤ n) :
    Timely w c { s with
      tick := n
      lim := Recovery.applied q (remaining c (w.wall s.tick) (w.mono (s.tick + 1)) q)
        (w.mono (s.tick + 2)) s.lim } := by
  have h' := h.stable s n (by omega)
  rcases le_or_gt (remaining c (w.wall s.tick) (w.mono (s.tick + 1)) q) 0 with hr | hr
  · have hl := applied_over q (w.mono (s.tick + 2)) s.lim hr
    refine ⟨h'.file, fun q' hq' => h'.past q' (hl.1 ▸ hq'), fun q' hq' hown => ?_,
      fun hq' => hl.2.trans (h.clear (hl.1 ▸ hq'))⟩
    exact hl.2.symm ▸ h'.blocked q' (hl.1 ▸ hq') hown
  · have hl := applied_in_force q (w.mono (s.tick + 2)) s.lim hr
    refine ⟨h'.file, fun q' hq' hown => ?_, fun q' hq' hown => ?_, fun hq' => ?_⟩
    · obtain rfl := Option.some.inj (hl.1.symm.trans hq')
      exact (hpast hown).trans (w.mono_monotone (show s.tick ≤ n by omega))
    · obtain rfl := Option.some.inj (hl.1.symm.trans hq')
      have hlast := le_add_remaining (w.wall s.tick) hown
        ((hpast hown).trans (w.mono_monotone (Nat.le_succ _)))
      have hmono := w.mono_monotone (Nat.le_succ (s.tick + 1))
      rw [hl.2]
      linarith
    · cases hl.1.symm.trans hq'

/-- Applying a quarantine keeps one begun at `t`: it began no earlier, or
    nothing remains of it. -/
theorem LimKept.applied
    (h : Since c t q ∨ remaining c (w.wall s.tick) (w.mono (s.tick + 1)) q ≤ 0 ∧ LimKept w c t s)
    (hpast : q.bootId = c.bootId → q.monotonicTime ≤ w.mono s.tick) (hn : s.tick + 2 ≤ n) :
    LimKept w c t { s with
      tick := n
      lim := Recovery.applied q (remaining c (w.wall s.tick) (w.mono (s.tick + 1)) q)
        (w.mono (s.tick + 2)) s.lim } := by
  rcases le_or_gt (remaining c (w.wall s.tick) (w.mono (s.tick + 1)) q) 0 with hr | hr
  · rcases h with hq | ⟨-, h⟩
    · exact .inl (hq.over (show s.tick + 1 ≤ n by omega)
        ((hpast hq.1).trans (w.mono_monotone (Nat.le_succ _))) hr)
    · refine (h.stable s n (by omega)).imp_right fun ⟨q', hq', hs'⟩ => ⟨q', ?_, hs'⟩
      exact (applied_over q _ _ hr).1.trans hq'
  · rcases h with hq | ⟨hr', -⟩
    · exact .inr ⟨q, (applied_in_force q _ _ hr).1, hq⟩
    · exact absurd hr' (not_le.2 hr)

/-! ## Reloading -/

/-- Of two quarantines of this boot, read one after the other, the later one
    has more left, unless it is over. -/
theorem remaining_lt_remaining {wall' mono mono' : ℚ} {q' : Quarantine}
    (hq : q.bootId = c.bootId) (hq' : q'.bootId = c.bootId) (hpast : q.monotonicTime ≤ mono)
    (hmono : mono ≤ mono') (h : q'.monotonicTime < q.monotonicTime)
    (hr : 0 < remaining c wall mono q) : remaining c wall' mono' q' < remaining c wall mono q := by
  rw [remaining_own hq, max_eq_right (sub_nonneg.2 hpast)] at hr ⊢
  have hleft := (lt_max_iff.1 hr).resolve_left (lt_irrefl 0)
  rw [remaining_own hq', max_eq_right (by linarith : 0 ≤ mono' - q'.monotonicTime),
    max_eq_right hleft.le]
  exact max_lt hleft (by linarith)

/-- When a limiter that holds `ql` reloads a file with `qd`, reading the clocks
    from the instant `n` on, the order of what it finds to remain of them is
    that of their ends: between its readings passes no more time than `qd`
    began after `ql`, if it did, and of a quarantine of another boot less remains
    than of one of this boot. -/
structure Fair (w : World) (c : Config) (n : ℕ) (ql qd : Quarantine) : Prop where
  paced : ql.bootId = c.bootId → qd.bootId = c.bootId → ql.monotonicTime < qd.monotonicTime →
    w.mono (n + 3) - w.mono (n + 1) ≤ qd.monotonicTime - ql.monotonicTime
  held : ql.bootId = c.bootId → qd.bootId ≠ c.bootId →
    remaining c (w.wall (n + 2)) (w.mono (n + 3)) qd < remaining c (w.wall n) (w.mono (n + 1)) ql
  filed : ql.bootId ≠ c.bootId → qd.bootId = c.bootId →
    remaining c (w.wall n) (w.mono (n + 1)) ql ≤ remaining c (w.wall (n + 2)) (w.mono (n + 3)) qd

/-- The reload of a session's limiter is `Fair`. -/
def FairReload (w : World) (c : Config) (s : Session) : Prop :=
  ∀ ql p qd, s.lim.quarantine = some ql → s.file = .payload p → validatePayload p = .ok () →
    p.quarantine = some qd → Fair w c s.tick ql qd

/-- If the held quarantine replaces that on file, it has been in force as long. -/
theorem Fair.since_held {ql qd : Quarantine} (h : Fair w c n ql qd) (hd : Since c t qd)
    (hlt : remaining c (w.wall (n + 2)) (w.mono (n + 3)) qd <
      remaining c (w.wall n) (w.mono (n + 1)) ql) : Since c t ql := by
  have hown : ql.bootId = c.bootId := by
    by_contra hne
    exact (h.filed hne hd.1).not_gt hlt
  refine ⟨hown, hd.2.trans (le_of_not_gt fun hlater => ?_)⟩
  exact (remaining_le_remaining hown hd.1 (h.paced hown hd.1 hlater)).not_gt hlt

/-- If the quarantine on file replaces that held, it has been in force as long,
    or nothing remains of the latter. -/
theorem Fair.since_filed {ql qd : Quarantine} (h : Fair w c n ql qd) (hl : Since c t ql)
    (hpast : ql.monotonicTime ≤ w.mono n)
    (hle : remaining c (w.wall n) (w.mono (n + 1)) ql ≤
      remaining c (w.wall (n + 2)) (w.mono (n + 3)) qd) :
    Since c t qd ∨ remaining c (w.wall n) (w.mono (n + 1)) ql ≤ 0 := by
  have hown : qd.bootId = c.bootId := by
    by_contra hne
    exact hle.not_gt (h.held hl.1 hne)
  by_cases ht : t ≤ qd.monotonicTime
  · exact .inl ⟨hown, ht⟩
  · refine .inr (le_of_not_gt fun hr => hle.not_gt ?_)
    exact remaining_lt_remaining hl.1 hown (hpast.trans (w.mono_monotone (Nat.le_succ n)))
      (w.mono_monotone (by omega)) ((not_le.1 ht).trans_le hl.2) hr

theorem Held.expires : Expires w (Held w c k t A B) := fun _ _ h hnow => h.expire hnow

theorem keeps_failClosed_held (hw : w.Valid) (ht : t ≤ w.mono k) {reason : String}
    (hr : reason ∈ quarantineReasons) :
    Keeps (Held w c k t A B) (failClosedLocked w c reason) := fun s h => by
  rw [wp_failClosed hw hr]
  exact h.failClosed ht reason _ (Nat.le_succ _) (Nat.le_succ _)

theorem keeps_detectRollback_held (hw : w.Valid) (ht : t ≤ w.mono k) (dirty : Bool) :
    Keeps (Held w c k t A B) (detectRollback w c dirty) := fun s h => by
  rw [detectRollback, wp_bind, wp_getLim, wp_ite]
  split_ifs
  · refine (keeps_recentLocked .stable .expires false).bind (fun recent => ?_) s h
    intro s h
    obtain ⟨_, uncertain⟩ := recent
    rw [wp_ite]
    split_ifs
    · exact (keeps_failClosed_held hw ht (by decide)).bind (fun _ => keeps_pure _) s h
    · exact h
  · exact h

/-- What a limiter knows of its quarantine when it has read, from the instant
    `n` on, that `r` remains of it: nothing, if it holds none. -/
structure Read (w : World) (c : Config) (s : Session) (ql : Option Quarantine) (r : ℚ) (m : ℕ) :
    Prop where
  empty : ql = none → r = 0 ∧ m = s.tick
  held : ∀ q, ql = some q →
    r = remaining c (w.wall s.tick) (w.mono (s.tick + 1)) q ∧ m = s.tick + 2

theorem wp_readLocal (hw : w.Valid)
    (h : ∀ r m, s.tick ≤ m → Read w c s s.lim.quarantine r m → Q r { s with tick := m }) :
    wp (s.lim.quarantine.elim (pure 0) (quarantineRemainingLocked w c)) Q E H s := by
  rcases hq : s.lim.quarantine with - | q
  · exact h 0 s.tick le_rfl (hq ▸ ⟨fun _ => ⟨rfl, rfl⟩, nofun⟩)
  · rw [Option.elim_some, wp_quarantineRemainingLocked hw]
    refine h _ _ (Nat.le_add_right _ 2) (hq ▸ ⟨nofun, fun q' hq' => ?_⟩)
    cases hq'
    exact ⟨rfl, rfl⟩

/-- Applying the quarantine held, if more remains of it than `b`. -/
theorem wp_preferLocalQuarantine_held (hw : w.Valid) (h : Held w c k t False B s)
    {ql : Option Quarantine} {b : ℚ}
    (hpast : ∀ q, ql = some q → q.bootId = c.bootId → q.monotonicTime ≤ w.mono s.tick)
    (happly : ∀ q, ql = some q → b < r → A → Since c t q ∨ t + c.windowSeconds ≤ w.mono s.tick)
    (hkeep : (∀ q, ql = some q → r ≤ b) → A → LimKept w c t s) :
    wp (preferLocalQuarantine w c ql r b) (fun _ => Held w c k t A B) E H s := by
  rcases ql with - | q
  · exact ⟨h.timely, h.tick, hkeep nofun, h.file⟩
  rw [preferLocalQuarantine, wp_ite]
  split_ifs with hlt
  · rw [wp_bind]
    refine wp_applyQuarantineLocked hw q fun n hn => ?_
    have hle : s.tick ≤ n := by omega
    refine ⟨h.timely.applied (hpast q rfl) hn, h.tick.trans hle, fun hA => ?_,
      fun hB => (h.file hB).stable s n hle⟩
    rcases happly q rfl hlt hA with hsince | hover
    · exact LimKept.applied (.inl hsince) (hpast q rfl) hn
    · exact .inl (hover.trans (w.mono_monotone hle))
  · refine ⟨h.timely, h.tick, hkeep fun q' hq' => ?_, h.file⟩
    exact not_lt.1 hlt

/-- What is known of the quarantine a limiter held before it reloaded. -/
theorem Held.since_or_over (h : Held w c k t A B s) (hA : A) (hm : s.tick ≤ m) :
    (∃ q, s.lim.quarantine = some q ∧ Since c t q) ∨ t + c.windowSeconds ≤ w.mono m :=
  (h.lim hA).symm.imp_right fun h => h.trans (w.mono_monotone hm)

theorem Read.le {ql : Option Quarantine} (h : Read w c s ql r m) : s.tick ≤ m := by
  rcases ql with - | q
  · exact (h.empty rfl).2.ge
  · have hm := (h.held q rfl).2
    omega

/-- Nothing remaining of the quarantine held, that begun at `t` is over. -/
theorem Read.over {ql : Option Quarantine} (h : Read w c s ql r m)
    (hq : ql = some q) (hs : Since c t q) (hpast : q.monotonicTime ≤ w.mono s.tick)
    (hr : r ≤ 0) : t + c.windowSeconds ≤ w.mono m := by
  obtain ⟨rfl, rfl⟩ := h.held q hq
  exact hs.over (Nat.le_succ _) (hpast.trans (w.mono_monotone (Nat.le_succ _))) hr

variable {p : Payload}

/-- Reloading from a valid payload, once its records are in place of the limiter's. -/
theorem wp_adoptQuarantine_held (hw : w.Valid) (ht : t ≤ w.mono k) (h : Held w c k t A B s)
    (hfair : A ∨ B → FairReload w c s) (hp : s.file = .payload p)
    (hv : validatePayload p = .ok ())
    (hread : Read w c s s.lim.quarantine r m) (d : Bool) (hl : l.quarantine = none)
    (hl₀ : l.blockedUntilMonotonic = 0) : wp (do
      let b ← p.quarantine.elim (pure 0) (applyQuarantineLocked w c)
      modifyLim fun l => { l with
        futureRecordsMayBeDiscarded := l.futureRecordsMayBeDiscarded || d }
      let dirty ← preferLocalQuarantine w c s.lim.quarantine r b
      detectRollback w c dirty) (fun _ => Held w c k t (A ∨ B) B)
      (fun _ => Held w c k t A B) (Held w c k t A B) { s with tick := m, lim := l } := by
  have hm := hread.le
  have hm' := h.stable s m hm
  have hheld : ∀ q, s.lim.quarantine = some q → q.bootId = c.bootId →
      ∀ n, m ≤ n → q.monotonicTime ≤ w.mono n := fun q hq hown n hn =>
    (h.timely.past q hq hown).trans (w.mono_monotone (hm.trans hn))
  have hnew : Held w c k t False B { s with tick := m, lim := l } := h.fresh hl hl₀ hm
  rw [wp_bind]
  -- The rest, when the quarantine on file has been applied and `b` remains of it.
  have hrest : ∀ (b : ℚ) (s₂ : Session), Held w c k t False B s₂ → m ≤ s₂.tick →
      (∀ q, s.lim.quarantine = some q → b < r → A ∨ B →
        Since c t q ∨ t + c.windowSeconds ≤ w.mono s₂.tick) →
      ((∀ q, s.lim.quarantine = some q → r ≤ b) → A ∨ B → LimKept w c t s₂) →
      wp (do
        modifyLim fun l => { l with
          futureRecordsMayBeDiscarded := l.futureRecordsMayBeDiscarded || d }
        let dirty ← preferLocalQuarantine w c s.lim.quarantine r b
        detectRollback w c dirty) (fun _ => Held w c k t (A ∨ B) B)
        (fun _ => Held w c k t A B) (Held w c k t A B) s₂ := by
    intro b s₂ h₂ hm₂ happly hkeep
    rw [wp_bind, wp_modifyLim, wp_bind]
    have h₂' : Held w c k t False B { s₂ with lim := { s₂.lim with
        futureRecordsMayBeDiscarded := s₂.lim.futureRecordsMayBeDiscarded || d } } :=
      h₂.withLim rfl rfl
    refine wp_mono (wp_preferLocalQuarantine_held hw h₂' (fun q hq hown => hheld q hq hown _ hm₂)
      happly hkeep) (fun dirty s₃ h₃ => ?_) (fun _ _ h => h) (fun _ h => h)
    exact wp_mono (keeps_detectRollback_held hw ht dirty s₃ h₃) (fun _ _ h => h)
      (fun _ _ h => h.mono .inl fun hB => hB) (fun _ h => h.mono .inl fun hB => hB)
  rcases hqd : p.quarantine with - | qd
  · -- Nothing on file: what is kept on file is over, and what is held is applied.
    have hfile : B → t + c.windowSeconds ≤ w.mono m := fun hB => by
      rcases hm'.file hB with hover | ⟨-, hkept⟩
      · exact hover
      · obtain ⟨q, hq, -⟩ := hkept p hp hv
        cases hqd.symm.trans hq
    refine hrest 0 _ hnew le_rfl (fun q hq _ hAB => ?_) fun hover hAB => .inl ?_
    · rcases hAB with hA | hB
      · rcases h.since_or_over hA hm with ⟨q', hq', hs⟩ | hover
        · exact .inl (Option.some.inj (hq'.symm.trans hq) ▸ hs)
        · exact .inr hover
      · exact .inr (hfile hB)
    · rcases hAB with hA | hB
      · rcases h.since_or_over hA hm with ⟨q, hq, hs⟩ | hover'
        · exact hread.over hq hs (h.timely.past q hq hs.1) (hover q hq)
        · exact hover'
      · exact hfile hB
  · have hpast : qd.bootId = c.bootId → qd.monotonicTime ≤ w.mono m :=
      hm'.timely.file p qd hp hv hqd
    refine wp_applyQuarantineLocked hw qd fun n hn => ?_
    have h₂ := hnew.timely.applied hpast hn
    have hmn : m ≤ n := Nat.le_of_add_right_le hn
    refine hrest _ _ ⟨h₂, hm'.tick.trans hmn, nofun, fun hB =>
      (hm'.file hB).stable _ n hmn⟩ hmn (fun q hq hlt hAB => ?_) fun hle hAB => ?_
    · obtain ⟨rfl, rfl⟩ := hread.held q hq
      rcases hAB with hA | hB
      · rcases h.since_or_over hA (hm.trans hmn) with ⟨q', hq', hs⟩ | hover
        · exact .inl (Option.some.inj (hq'.symm.trans hq) ▸ hs)
        · exact .inr hover
      · rcases hm'.file hB with hover | ⟨-, hkept⟩
        · exact .inr (hover.trans (w.mono_monotone hmn))
        · obtain ⟨q', hq', hs⟩ := hkept p hp hv
          obtain rfl := Option.some.inj (hqd.symm.trans hq')
          exact .inl ((hfair (.inr hB) q p qd hq hp hv hqd).since_held hs hlt)
    · rcases hAB with hA | hB
      · rcases h.since_or_over hA hm with ⟨q, hq, hs⟩ | hover
        · obtain ⟨rfl, rfl⟩ := hread.held q hq
          have hpast' := h.timely.past q hq hs.1
          rcases (hfair (.inl hA) q p qd hq hp hv hqd).since_filed hs hpast' (hle q hq) with hd | hr
          · exact LimKept.applied (.inl hd) hpast hn
          · exact .inl ((hread.over hq hs hpast' hr).trans (w.mono_monotone hmn))
        · exact .inl (hover.trans (w.mono_monotone hmn))
      · rcases hm'.file hB with hover | ⟨-, hkept⟩
        · exact .inl (hover.trans (w.mono_monotone hmn))
        · obtain ⟨q', hq', hs⟩ := hkept p hp hv
          obtain rfl := Option.some.inj (hqd.symm.trans hq')
          exact LimKept.applied (.inl hs) hpast hn

theorem wp_adoptPayload_held (hw : w.Valid) (ht : t ≤ w.mono k) (h : Held w c k t A B s)
    (hfair : A ∨ B → FairReload w c s) (hp : s.file = .payload p)
    (hv : validatePayload p = .ok ()) {r : ℚ} {m : ℕ}
    (hread : Read w c s s.lim.quarantine r m) (d : Bool) :
    wp (adoptPayload w c p s.lim.quarantine r d) (fun _ => Held w c k t (A ∨ B) B)
      (fun _ => Held w c k t A B) (Held w c k t A B) { s with tick := m, lim := {} } := by
  rw [adoptPayload, wp_bind, wp_modifyLim]
  exact wp_adoptQuarantine_held hw ht h hfair hp hv hread d rfl rfl

theorem wp_rejectState_held (hw : w.Valid) (ht : t ≤ w.mono k) (h : Held w c k t A B s) :
    wp (rejectState w c) (fun _ => Held w c k t True B) E H s := by
  have hreset : Held w c k t False B { s with lim := {} } :=
    h.fresh rfl rfl le_rfl
  rw [rejectState, wp_bind, resetLoadedStateLocked, wp_modifyLim, wp_bind,
    wp_failClosed hw (by decide)]
  exact hreset.failClosed_fresh hw ht _ _ (Nat.le_succ _) (Nat.le_succ _) rfl

/-- Reloading leaves the limiter in quarantine since `t`, if it was, or the file is. -/
theorem wp_reloadForTransactionLocked_held (hw : w.Valid) (ht : t ≤ w.mono k)
    (h : Held w c k t A B s) (hfair : A ∨ B → FairReload w c s) :
    wp (reloadForTransactionLocked w c) (fun _ => Held w c k t (A ∨ B) B)
      (fun _ => Held w c k t A B) (Held w c k t A B) s := by
  rw [reloadForTransactionLocked, wp_bind, wp_getLim, wp_bind]
  refine wp_readLocal hw fun r m hm hread => ?_
  have hm' := h.stable s m hm
  have hreset : Held w c k t False B { s with tick := m, lim := {} } :=
    h.fresh rfl rfl hm
  rw [wp_bind, resetLoadedStateLocked, wp_modifyLim, wp_bind, wp_get]
  dsimp only
  rcases hfile : s.file with - | - | p
  · have hgone : B → t + c.windowSeconds ≤ w.mono m := fun hB =>
      (hm'.file hB).resolve_right fun hkept => hkept.1 hfile
    have hsince : ∀ q, s.lim.quarantine = some q → A ∨ B →
        Since c t q ∨ t + c.windowSeconds ≤ w.mono m := fun q hq hAB => by
      rcases hAB with hA | hB
      · rcases h.since_or_over hA hm with ⟨q', hq', hs⟩ | hover
        · exact .inl (Option.some.inj (hq'.symm.trans hq) ▸ hs)
        · exact .inr hover
      · exact .inr (hgone hB)
    rw [hfile] at hreset
    dsimp only
    rw [wp_bind]
    refine wp_mono (wp_preferLocalQuarantine_held hw hreset
      (fun q hq hown => hm'.timely.past q hq hown) (fun q hq _ hAB => hsince q hq hAB)
      fun hover hAB => ?_) (fun applied s₂ h₂ => ?_) (fun _ _ h => h) (fun _ h => h)
    · rcases hAB with hA | hB
      · rcases h.since_or_over hA hm with ⟨q, hq, hs⟩ | hover'
        · exact .inl (hread.over hq hs (h.timely.past q hq hs.1) (hover q hq))
        · exact .inl hover'
      · exact .inl (hgone hB)
    · rw [wp_ite]
      split_ifs
      · exact h₂
      · exact h₂.withLim rfl rfl
  · rw [hfile] at hreset
    dsimp only
    exact wp_mono (wp_rejectState_held hw ht hreset)
      (fun _ _ h => h.mono (fun _ => trivial) fun hB => hB) (fun _ _ h => h) (fun _ h => h)
  · have hadopt := wp_adoptPayload_held hw ht h hfair hfile
    rw [hfile] at hreset hadopt
    dsimp only
    rcases hv : validatePayload p with e | u
    · exact wp_mono (wp_rejectState_held hw ht hreset)
        (fun _ _ h => h.mono (fun _ => trivial) fun hB => hB) (fun _ _ h => h) (fun _ h => h)
    · exact hadopt hv hread _

/-! ## What reloading finds -/

theorem wp_recentLocked (hw : w.Valid) (ignore : Bool) {Q : List Record × Bool → Session → Prop}
    (h : ∀ recent, Q (recent, (expireQuarantine (w.mono (s.tick + 1)) s.lim).records.any fun r =>
        recordAge c (w.wall s.tick) (w.mono (s.tick + 1)) r < -clockSkewTolerance ∧
          ¬(expireQuarantine (w.mono (s.tick + 1)) s.lim).futureRecordsMayBeDiscarded)
      { s with tick := s.tick + 2, lim := expireQuarantine (w.mono (s.tick + 1)) s.lim }) :
    wp (recentLocked w c ignore) Q E H s := by
  rw [recentLocked, wp_bind, wp_wallClock hw, wp_bind, wp_monotonicClock hw, wp_bind, wp_modifyLim,
    wp_bind, wp_getLim, wp_pure]
  exact h _

/-- A quarantine in force spares the look for records from the future. -/
theorem wp_detectRollback_some (hq : s.lim.quarantine = some q) (dirty : Bool)
    {Q : Bool → Session → Prop} : wp (detectRollback w c dirty) Q E H s = Q dirty s := by
  rw [detectRollback, wp_bind, wp_getLim, wp_ite, if_neg (hq ▸ Option.some_ne_none q), wp_pure]

/-- Looking for records from the future returns. -/
theorem wp_detectRollback_returns (hw : w.Valid) (dirty : Bool) {Q : Bool → Session → Prop}
    (h : ∀ dirty' s', Q dirty' s') : wp (detectRollback w c dirty) Q E H s := by
  rw [detectRollback, wp_bind, wp_getLim, wp_ite]
  split_ifs
  · rw [wp_bind]
    refine wp_recentLocked hw false fun recent => ?_
    rw [wp_ite]
    split_ifs
    · rw [wp_bind, wp_failClosed hw (by decide)]
      exact h _ _
    · exact h _ _
  · exact h _ _

/-- What is left of the quarantine `q` from the instant `n` on is what blocks the limiter. -/
def InForce (w : World) (c : Config) (n : ℕ) (q : Quarantine) (l : Limiter) : Prop :=
  0 < remaining c (w.wall n) (w.mono (n + 1)) q → l.quarantine = some q ∧
    l.blockedUntilMonotonic = w.mono (n + 2) + remaining c (w.wall n) (w.mono (n + 1)) q

theorem wp_detectRollback_inForce (hw : w.Valid) (dirty : Bool) (h : InForce w c n q s.lim) :
    wp (detectRollback w c dirty) (fun _ s' => InForce w c n q s'.lim) E H s := by
  rcases lt_or_ge 0 (remaining c (w.wall n) (w.mono (n + 1)) q) with hr | hr
  · rw [wp_detectRollback_some (h hr).1]
    exact h
  · exact wp_detectRollback_returns hw dirty fun _ _ h => absurd h (not_lt.2 hr)

/-- Reloading leaves in force whichever of the quarantines held and on file it
    finds more to remain of. -/
theorem wp_reload_longer (hw : w.Valid) {ql qd : Quarantine}
    (hql : s.lim.quarantine = some ql) (hp : s.file = .payload p) (hv : validatePayload p = .ok ())
    (hqd : p.quarantine = some qd) :
    wp (reloadForTransactionLocked w c) (fun _ s' => ∃ n, s.tick ≤ n ∧ InForce w c n
      (if remaining c (w.wall (s.tick + 2)) (w.mono (s.tick + 3)) qd <
        remaining c (w.wall s.tick) (w.mono (s.tick + 1)) ql then ql else qd) s'.lim) E H s := by
  rw [reloadForTransactionLocked, wp_bind, wp_getLim, wp_bind, hql, Option.elim_some,
    wp_quarantineRemainingLocked hw, wp_bind, resetLoadedStateLocked, wp_modifyLim, wp_bind, wp_get]
  dsimp only
  rw [hp]
  dsimp only
  rw [hv]
  dsimp only
  rw [adoptPayload, wp_bind, wp_modifyLim, wp_bind, hqd, Option.elim_some]
  refine wp_applyQuarantineLocked hw qd fun n hn => ?_
  rw [wp_bind, wp_modifyLim, wp_bind, preferLocalQuarantine, wp_ite]
  dsimp only at hn ⊢
  split_ifs with hlt
  · rw [wp_bind]
    refine wp_applyQuarantineLocked hw ql fun m hm => ?_
    rw [wp_pure]
    refine wp_mono (wp_detectRollback_inForce hw true (n := n) (q := ql) fun hr => ?_)
      (fun _ _ h => ⟨n, by omega, h⟩) (fun _ _ h => h) (fun _ h => h)
    exact applied_in_force _ _ _ hr
  · rw [wp_pure]
    refine wp_mono (wp_detectRollback_inForce hw false (n := s.tick + 2) (q := qd) fun hr => ?_)
      (fun _ _ h => ⟨s.tick + 2, Nat.le_add_right _ 2, h⟩) (fun _ _ h => h) (fun _ h => h)
    exact applied_in_force _ _ _ hr

theorem expireQuarantine_none {now : ℚ} (h : l.quarantine = none) :
    expireQuarantine now l = l := if_pos (.inl h)

theorem wp_detectRollback_uncertain (hw : w.Valid) (ht : t ≤ w.mono k) (h : Held w c k t A B s)
    (hq : s.lim.quarantine = none) (hd : s.lim.futureRecordsMayBeDiscarded = false) {r : Record}
    (hr : r ∈ s.lim.records)
    (hage : recordAge c (w.wall s.tick) (w.mono (s.tick + 1)) r < -clockSkewTolerance)
    (dirty : Bool) :
    wp (detectRollback w c dirty) (fun _ => Held w c k t True B) E H s := by
  have hany : (s.lim.records.any fun r =>
      recordAge c (w.wall s.tick) (w.mono (s.tick + 1)) r < -clockSkewTolerance ∧
        ¬s.lim.futureRecordsMayBeDiscarded) = true :=
    List.any_eq_true.2 ⟨r, hr, by simp [hage, hd]⟩
  rw [detectRollback, wp_bind, wp_getLim, wp_ite, if_pos hq, wp_bind]
  refine wp_recentLocked hw false fun recent => ?_
  rw [expireQuarantine_none hq, hany, wp_ite, if_pos rfl, wp_bind, wp_failClosed hw (by decide),
    wp_pure]
  exact h.failClosed_fresh hw ht _ _ (show s.tick ≤ s.tick + 2 + 1 by omega) (Nat.le_succ _)
    (h.timely.clear hq)

/-- A record from the future, where no quarantine is in force, starts one. -/
theorem wp_reload_uncertain (hw : w.Valid) (ht : t ≤ w.mono k) (h : Held w c k t A B s)
    (hq : s.lim.quarantine = none)
    (hd : s.lim.futureRecordsMayBeDiscarded = false) (hp : s.file = .payload p)
    (hv : validatePayload p = .ok ()) (hqd : p.quarantine = none) {r : Record} (hr : r ∈ p.records)
    (hage : recordAge c (w.wall s.tick) (w.mono (s.tick + 1)) r < -clockSkewTolerance) :
    wp (reloadForTransactionLocked w c) (fun _ => Held w c k t True B) E H s := by
  rw [reloadForTransactionLocked, wp_bind, wp_getLim, wp_bind, hq, Option.elim_none, wp_pure,
    wp_bind, resetLoadedStateLocked, wp_modifyLim, wp_bind, wp_get]
  dsimp only
  rw [hp]
  dsimp only
  rw [hv]
  dsimp only
  rw [adoptPayload, wp_bind, wp_modifyLim, wp_bind, hqd, Option.elim_none, wp_pure, wp_bind,
    wp_modifyLim, wp_bind, preferLocalQuarantine, wp_pure, hd, ← hp,
    lastN_eq (validatePayload_ok.1 hv).2.1]
  refine wp_detectRollback_uncertain (A := False) (r := r) hw ht ?_ ?_ ?_ ?_ ?_ false
  · exact h.fresh rfl rfl le_rfl
  · rfl
  · rfl
  · exact hr
  · exact hage

/-! ## Saving, and the operations -/

/-- What a limiter writes keeps its quarantine on file. -/
theorem Held.saved (h : Held w c k t A B s) (hBA : B → A) :
    Held w c k t A B { s with file := .payload (savedPayload s.lim) } := by
  refine ⟨⟨fun p q hp _ hq => ?_, h.timely.past, h.timely.blocked, h.timely.clear⟩, h.tick, h.lim,
    fun hB => ?_⟩
  · cases hp
    exact h.timely.past q hq
  · refine (h.lim (hBA hB)).imp_right fun ⟨q, hq, hs⟩ => ⟨nofun, fun p hp _ => ?_⟩
    cases hp
    exact ⟨q, hq, hs⟩

theorem keeps_saveLocked_held (hBA : B → A) : Keeps (Held w c k t A B) (saveLocked w) :=
  fun _ h => wp_mono (wp_saveLocked .stable .stable (fun _ h => h) h (h.saved hBA))
    (fun _ _ h => h.1) (fun _ _ h => h.1) (fun _ h => h)

theorem keeps_persistQuarantineLocked_held (hw : w.Valid) (ht : t ≤ w.mono k) (hBA : B → A) :
    Keeps (Held w c k t A B) (persistQuarantineLocked w c) :=
  ((keeps_saveLocked_held hBA).bind fun _ => keeps_pure _).tryCatch fun _ =>
    (keeps_failClosed_held hw ht (by decide)).bind fun _ => keeps_pure _

/-- The lock is taken in one instant. -/
theorem wp_stateFileLock_at {x : LProg α} {Q : α → Session → Prop} {I : Session → Prop}
    (hI : Stable I) (hQ : ∀ a, Stable (Q a)) (hQI : ∀ a s, Q a s → I s) (hs : I s)
    (hx : wp x Q (fun _ => I) I { s with tick := s.tick + 1 }) :
    wp (stateFileLock w x) Q (fun _ => I) I s := by
  have hs' := hI s (s.tick + 1) (Nat.le_succ _) hs
  rw [stateFileLock, wp_bind, lockStep, wp_bind, wp_nextTick]
  refine wp_perform ?_ hs' hs' hs' hs'
  rw [wp_tryFinally]
  refine wp_mono hx (fun a s₂ h₂ => ?_) (fun _ s₂ h₂ => keeps_lockStep hI _ s₂ h₂) (fun _ h => h)
  exact wp_mono (keeps_lockStep (hQ a) _ s₂ h₂) (fun _ _ h => h) (fun _ s h => hQI a s h)
    (fun s h => hQI a s h)

/-- A limiter made on a file in quarantine leaves it so. -/
theorem keeps_load_held (hw : w.Valid) (ht : t ≤ w.mono k) :
    Keeps (Held w c k t False B) (load w c) := by
  have hreset : Keeps (Held w c k t False B) resetLoadedStateLocked :=
    keeps_modifyLim fun s h => h.fresh rfl rfl le_rfl
  intro s hs
  rw [load, wp_bind, resetLoadedStateLocked, wp_modifyLim, wp_tryCatch]
  refine wp_mono (wp_stateFileLock_at Held.stable (fun _ => Held.stable) (fun _ _ h => h)
    (hs.fresh rfl rfl le_rfl) ?_) (fun _ _ h => h) (fun _ s₁ h₁ => ?_) (fun _ h => h)
  · rw [wp_bind]
    refine wp_mono (wp_reloadForTransactionLocked_held hw ht
      (hs.fresh rfl rfl (Nat.le_succ _)) fun _ _ _ _ hq => (by cases hq)) (fun dirty s₁ h₁ => ?_) (fun _ _ h => h)
      (fun _ h => h)
    rw [wp_ite]
    split_ifs
    · rw [wp_bind]
      exact wp_mono (keeps_persistQuarantineLocked_held hw ht .inr _ h₁)
        (fun _ _ h => h.mono False.elim id) (fun _ _ h => h.mono False.elim id)
        (fun _ h => h.mono False.elim id)
    · exact h₁.mono False.elim id
  · exact (hreset.bind fun _ => keeps_failClosed_held hw ht (by decide)) s₁ h₁

/-- The reload of a call, which follows the taking of the lock, is `Fair`. -/
def FairCall (w : World) (c : Config) (s : Session) : Prop :=
  FairReload w c { s with tick := s.tick + 1 }

theorem keeps_setMetadata_held (hw : w.Valid) (ht : t ≤ w.mono k) (h : Held w c k t A B s)
    (hfair : A ∨ B → FairCall w c s) (key : String) (value : Option String) :
    wp (setMetadata w c key value) (fun _ => Held w c k t A B) (fun _ => Held w c k t A B)
      (Held w c k t A B) s := by
  have hweak : ∀ s, Held w c k t (A ∨ B) B s → Held w c k t A B s := fun _ h => h.mono .inl id
  rw [setMetadata, wp_ite, wp_ite]
  split_ifs
  · exact h
  · exact h
  rw [wp_tryCatch]
  refine wp_mono (wp_stateFileLock_at Held.stable (fun _ => Held.stable) (fun _ _ h => h) h ?_)
    (fun _ _ h => h) (fun _ s₁ h₁ => ?_) (fun _ h => h)
  · rw [setMetadataLocked, wp_bind]
    refine wp_mono (wp_reloadForTransactionLocked_held hw ht
      (h.stable s (s.tick + 1) (Nat.le_succ _)) hfair) (fun _ s₁ h₁ => ?_) (fun _ _ h => h)
      (fun _ h => h)
    rw [wp_bind, expireQuarantineLocked, wp_bind, Option.elim_none, wp_monotonicClock hw,
      wp_modifyLim, wp_bind, wp_getLim, wp_bind, wp_modifyLim, wp_tryCatch, wp_bind]
    have h₂ := ((h₁.stable s₁ (s₁.tick + 1) (Nat.le_succ _)).expire
      (w.mono_monotone (Nat.le_succ s₁.tick))).withMetadata
      (putMetadata key value (expireQuarantine (w.mono s₁.tick) s₁.lim).metadata)
    refine wp_mono (keeps_saveLocked_held .inr _ h₂) (fun _ s₃ h₃ => hweak _ h₃)
      (fun _ s₃ h₃ => ?_) (fun _ h₃ => hweak _ h₃)
    exact ((keeps_modifyLim fun s h => h.withLim rfl rfl).bind fun _ =>
      (keeps_failClosed_held hw ht (by decide)).bind fun _ => keeps_pure _) s₃ (hweak _ h₃)
  · exact ((keeps_failClosed_held hw ht (by decide)).bind fun _ => keeps_pure _) s₁ h₁

theorem keeps_recentAttempts_held : Keeps (Held w c k t A B) (recentAttempts w c) :=
  (keeps_recentLocked .stable .expires false).bind fun _ => keeps_pure _

theorem keeps_status_held : Keeps (Held w c k t A B) (status w c) :=
  (keeps_recentLocked .stable .expires true).bind fun _ =>
    (keeps_safeClock .stable _ _).bind fun _ _ hs => hs

/-! ## Reserving -/

theorem lastN_concat {β : Type} (n : ℕ) (xs : List β) (x : β) :
    lastN (n + 1) (xs ++ [x]) = lastN n xs ++ [x] := by
  have hlen : (xs ++ [x]).length - (n + 1) = xs.length - n := by
    rw [List.length_append, List.length_singleton]
    omega
  rw [lastN, lastN, hlen, List.drop_append_of_le_length (Nat.sub_le _ _)]

/-- However many attempts are listed, the new one is found. -/
theorem reservedTime_new {recent : List Record} (reason id : String)
    (wall mono : ℚ) (bootId method : String) : reservedTime ⟨true, reason, some id, n⟩
      (withAttempt ⟨id, wall, mono, bootId, method⟩ recent l) = [mono] := by
  have hrec : (withAttempt ⟨id, wall, mono, bootId, method⟩ recent l).records =
      lastN 255 recent ++ [⟨id, wall, mono, bootId, method⟩] := by
    simp only [withAttempt, clearQuarantine]
    exact lastN_concat 255 recent _
  simp [reservedTime, hrec]

/-- What a call leaves behind that returns `r`: what is `Held`; and, if `A'`
    holds, nothing has been allowed before the end of the quarantine. -/
structure Guarded (w : World) (c : Config) (k : ℕ) (t : ℚ) (A B A' : Prop) (r : ResetReservation)
    (s : Session) : Prop extends Held w c k t A B s where
  late : A' → ∀ τ ∈ reservedTime r s.lim, t + c.windowSeconds ≤ τ

theorem Guarded.stable (r : ResetReservation) : Stable (Guarded w c k t A B A' r) :=
  fun s n hn h => ⟨h.toHeld.stable s n hn, h.late⟩

theorem Held.refused (h : Held w c k t A B s) {r : ResetReservation} (hr : r.allowed = false) :
    Guarded w c k t A B A' r s := by
  refine ⟨h, fun _ τ hτ => ?_⟩
  rw [reservedTime, hr, if_neg Bool.false_ne_true] at hτ
  exact absurd hτ List.not_mem_nil

/-- A limiter that is blocked no more has outlasted the quarantine. -/
theorem Held.over (h : Held w c k t A B s) (hA : A)
    (hblocked : s.lim.blockedUntilMonotonic ≤ w.mono s.tick) :
    t + c.windowSeconds ≤ w.mono s.tick := by
  rcases h.lim hA with hover | ⟨q, hq, hs⟩
  · exact hover
  · have hlast := h.timely.blocked q hq hs.1
    have ht := hs.2
    linarith

theorem wp_recordAttempt_held (hw : w.Valid) (ht : t ≤ w.mono k) (h : Held w c k t A B s)
    (hBA : B → A) (hover : A → t + c.windowSeconds ≤ w.mono s.tick) (method : String)
    (recent : List Record) :
    wp (recordAttempt w c method recent) (Guarded w c k t A B A) (fun _ => Held w c k t A B)
      (Held w c k t A B) s := by
  rw [recordAttempt, wp_bind, wp_wallClock hw, wp_bind, wp_monotonicClock hw, wp_bind, wp_nextTick,
    wp_bind, wp_getLim, wp_bind, wp_modifyLim, wp_tryCatch, wp_bind]
  dsimp only
  -- The quarantine is over, so that a limiter without one will do.
  have hfresh : ∀ l : Limiter, l.quarantine = none → l.blockedUntilMonotonic = 0 →
      Held w c k t A B { s with tick := s.tick + 1 + 1 + 1, lim := l } := fun l hl hl₀ =>
    have hle : s.tick ≤ s.tick + 1 + 1 + 1 := by omega
    have h' := h.fresh hl hl₀ hle
    ⟨h'.timely, h'.tick, fun hA => .inl ((hover hA).trans (w.mono_monotone hle)), h'.file⟩
  have hnew := hfresh (withAttempt
    ⟨w.uuid (s.tick + 1 + 1), w.wall s.tick, w.mono (s.tick + 1), c.bootId, method⟩ recent
    s.lim) rfl rfl
  refine wp_mono (wp_saveLocked .stable .stable (fun _ h => h) hnew (hnew.saved hBA))
    (fun _ s' hs' => ⟨hs'.1, fun hA τ hτ => ?_⟩) (fun _ s' hs' => ?_) (fun _ h => h)
  · have hlim : s'.lim = withAttempt
        ⟨w.uuid (s.tick + 1 + 1), w.wall s.tick, w.mono (s.tick + 1), c.bootId, method⟩ recent
        s.lim := hs'.2
    rw [hlim, reservedTime_new, List.mem_singleton] at hτ
    rw [hτ]
    exact (hover hA).trans (w.mono_monotone (Nat.le_succ _))
  · rw [wp_bind]
    have hback : Held w c k t A B { s' with lim := { s'.lim with
        records := s.lim.records, totalAttempts := s.lim.totalAttempts } } := hs'.1.withLim rfl rfl
    rw [wp_modifyLim, wp_bind]
    exact wp_mono (keeps_failClosed_held hw ht (by decide) _ hback)
      (fun _ _ h => h.refused rfl) (fun _ _ h => h) (fun _ h => h)

variable {I : Session → Prop}

/-- What `reserve` does once it has reloaded. -/
theorem wp_reserveLocked_held (hw : w.Valid) (ht : t ≤ w.mono k) (hBA : B → A)
    (hI : ∀ s, Held w c k t A B s → I s)
    (hreload : wp (reloadForTransactionLocked w c) (fun _ => Held w c k t A B) (fun _ => I) I s)
    (method : String) :
    wp (reserveLocked w c method) (Guarded w c k t A B A) (fun _ => I) I s := by
  rw [reserveLocked, wp_bind]
  refine wp_mono hreload (fun _ s₁ h₁ => ?_) (fun _ _ h => h) (fun _ h => h)
  rw [wp_bind, wp_monotonicClock hw, wp_bind, expireQuarantineLocked, wp_bind, Option.elim_some,
    wp_pure, wp_modifyLim, wp_bind, wp_getLim, wp_ite]
  have h₂ := (h₁.stable s₁ (s₁.tick + 1) (Nat.le_succ _)).expire
    (w.mono_monotone (Nat.le_succ s₁.tick))
  split_ifs with hblocked
  · rw [wp_bind]
    refine wp_mono (keeps_persistQuarantineLocked_held hw ht hBA _ h₂) (fun _ s₃ h₃ => ?_)
      (fun _ => hI) hI
    rw [wp_bind]
    refine wp_mono (keeps_recentLocked .stable .expires true s₃ h₃) (fun _ s₄ h₄ => ?_)
      (fun _ => hI) hI
    exact h₄.refused rfl
  · have hover : A → t + c.windowSeconds ≤ w.mono (s₁.tick + 1) := fun hA =>
      h₂.over hA ((not_lt.1 hblocked).trans (w.mono_monotone (Nat.le_succ _)))
    have hst : Stable fun s' => Held w c k t A B s' ∧ s₁.tick + 1 ≤ s'.tick := fun s' n hn h' =>
      ⟨h'.1.stable s' n hn, h'.2.trans hn⟩
    rw [wp_bind]
    refine wp_mono (keeps_recentLocked hst (fun s' now h' hnow => ⟨h'.1.expire hnow, h'.2⟩) false _
      ⟨h₂, le_rfl⟩) ?_ (fun _ s h => hI s h.1) (fun s h => hI s h.1)
    rintro ⟨recent, uncertain⟩ s₃ ⟨h₃, htick⟩
    rw [wp_ite]
    split_ifs
    · rw [wp_bind]
      refine wp_mono (keeps_failClosed_held hw ht (by decide) _ h₃) (fun _ s₄ h₄ => ?_)
        (fun _ => hI) hI
      rw [wp_bind]
      exact wp_mono (keeps_persistQuarantineLocked_held hw ht hBA _ h₄)
        (fun _ _ h => h.refused rfl) (fun _ => hI) hI
    · exact h₃.refused rfl
    · exact wp_mono (wp_recordAttempt_held hw ht h₃ hBA
        (fun hA => (hover hA).trans (w.mono_monotone htick)) method recent) (fun _ _ h => h)
        (fun _ => hI) hI

/-- What `reserve` leaves behind: what is `Held` after the reload, unless it
    fails; then, what is after failing. -/
theorem wp_reserve_held (hw : w.Valid) (ht : t ≤ w.mono k) (hBA : B → A') (hA : A → A')
    (hst : Stable I) (hI : ∀ s, Held w c k t A' B s → I s) (h : I s) {method : String}
    (hmethod : method = "" ∨ 64 < method.length → ∀ e, E e s)
    (hfail : ∀ s, I s → wp (failClosedLocked w c "persistence_error")
      (fun _ => Held w c k t A B) E I s)
    (hreload : wp (reloadForTransactionLocked w c) (fun _ => Held w c k t A' B) (fun _ => I) I
      { s with tick := s.tick + 1 }) :
    wp (reserve w c method) (Guarded w c k t A B A') E I s := by
  rw [reserve, wp_ite]
  split_ifs with hm
  · exact hmethod hm _
  rw [wp_tryCatch]
  refine wp_mono (wp_stateFileLock_at hst .stable (fun _ s h => hI s h.toHeld) h
    (wp_reserveLocked_held hw ht hBA hI hreload method)) (fun _ _ h => ?_) (fun _ s₁ h₁ => ?_)
    (fun _ h => h)
  · exact ⟨h.toHeld.mono hA id, h.late⟩
  · rw [wp_bind]
    exact wp_mono (hfail s₁ h₁) (fun _ _ h => h.refused rfl) (fun _ _ h => h) (fun _ h => h)

/-! ## Records from the future -/

/-- A limiter without quarantine that finds a record from the future is in
    quarantine after a call of `reserve`, and has allowed nothing before its end. -/
theorem wp_reserve_uncertain (hw : w.Valid) (ht : t ≤ w.mono k) (h : Held w c k t A B s)
    (hq : s.lim.quarantine = none)
    (hd : s.lim.futureRecordsMayBeDiscarded = false) (hp : s.file = .payload p)
    (hv : validatePayload p = .ok ()) (hqd : p.quarantine = none) {r : Record} (hr : r ∈ p.records)
    (hage : recordAge c (w.wall (s.tick + 1)) (w.mono (s.tick + 2)) r < -clockSkewTolerance)
    {method : String} (hm : ¬(method = "" ∨ 64 < method.length)) :
    wp (reserve w c method) (Guarded w c k t True False True) (fun _ _ => False)
      (fun _ => True) s := by
  have hclear := h.timely.clear hq
  -- Until it has reloaded, the limiter is as it was, and fails as a fresh one.
  have hst : Stable fun s' => Held w c k t False False s' ∧
      (s'.lim.quarantine = none ∨ LimKept w c t s') := fun s' n hn h' =>
    ⟨h'.1.stable s' n hn, h'.2.imp_right (LimKept.stable s' n hn)⟩
  refine wp_mono (wp_reserve_held hw ht False.elim (fun _ => trivial) hst
    (fun s' h' => ⟨h'.mono False.elim id, .inr (h'.lim trivial)⟩)
    ⟨h.mono False.elim False.elim, .inl hq⟩ (fun hm' => absurd hm' hm) ?_ ?_) (fun _ _ h => h)
    (fun _ _ h => h) fun _ _ => trivial
  · rintro s' ⟨h', hnone | hkept⟩
    · rw [wp_failClosed hw (by decide)]
      exact h'.failClosed_fresh hw ht _ _ (Nat.le_succ _) (Nat.le_succ _) (h'.timely.clear hnone)
    · rw [wp_failClosed hw (by decide)]
      have h'' : Held w c k t True False s' := ⟨h'.timely, h'.tick, fun _ => hkept, h'.file⟩
      exact h''.failClosed ht _ _ (Nat.le_succ _) (Nat.le_succ _)
  · have h' : Held w c k t False False { s with tick := s.tick + 1 } :=
      (h.stable s (s.tick + 1) (Nat.le_succ _)).mono False.elim False.elim
    exact wp_reload_uncertain hw ht h' hq hd hp hv hqd hr hage

/-- So is a new limiter. -/
theorem wp_load_uncertain (hw : w.Valid) (ht : t ≤ w.mono k) (h : Held w c k t A B s)
    (hp : s.file = .payload p) (hv : validatePayload p = .ok ())
    (hqd : p.quarantine = none) {r : Record} (hr : r ∈ p.records)
    (hage : recordAge c (w.wall (s.tick + 1)) (w.mono (s.tick + 2)) r < -clockSkewTolerance) :
    wp (load w c) (fun _ => Held w c k t True False) (fun _ _ => False) (fun _ => True) s := by
  have hI : ∀ s, Held w c k t True False s → Held w c k t False False s := fun _ h =>
    h.mono False.elim id
  have h₀ : Held w c k t False False { s with lim := {} } :=
    (h.fresh rfl rfl le_rfl).mono id False.elim
  rw [load, wp_bind, resetLoadedStateLocked, wp_modifyLim, wp_tryCatch]
  refine wp_mono (wp_stateFileLock_at (Q := fun _ => Held w c k t True False) .stable
    (fun _ => .stable) (fun _ => hI) h₀ ?_) (fun _ _ h => h) (fun _ s₁ h₁ => ?_)
    (fun _ _ => trivial)
  · rw [wp_bind]
    refine wp_mono (wp_reload_uncertain (k := k) (t := t) (A := False) (B := False) hw ht
      (h₀.stable _ (s.tick + 1) (Nat.le_succ _)) rfl rfl hp hv hqd hr hage) (fun dirty s₁ h₁ => ?_)
      (fun _ _ h => h) (fun _ h => h)
    rw [wp_ite]
    split_ifs
    · rw [wp_bind]
      exact wp_mono (keeps_persistQuarantineLocked_held hw ht False.elim _ h₁) (fun _ _ h => h)
        (fun _ => hI) hI
    · exact h₁
  · rw [wp_bind, wp_modifyLim, wp_failClosed hw (by decide)]
    exact (h₁.fresh rfl rfl le_rfl).failClosed_fresh hw ht _ _ (Nat.le_succ _) (Nat.le_succ _) rfl

end ReticulumPi.Recovery
