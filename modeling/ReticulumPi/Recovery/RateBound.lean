import ReticulumPi.Lib.Fallible
import ReticulumPi.Lib.Transition
import ReticulumPi.Lib.Window
import ReticulumPi.Recovery.ResetLimiter

/-!
# The rate of resets is bounded

Limiters come and go on one state file, in any number of processes; the
operations are serialised by the file lock and may raise, or be killed, at
every write. The reservations allowed are counted from outside: `granted`
lists the monotonic times they were recorded with.

What every operation keeps is a statement about the file (`Durable`): a file
that will be accepted lists every live reservation, and a file that is absent
or will be rejected has none to list. Reloading turns it into one about the
limiter (`Loaded`), which the decision rests on.
-/

namespace ReticulumPi.Recovery

open Window Prog Fallible List

/-! ## What is accepted -/

theorem validateTimestamp_ok {v : ℚ} {label : String} :
    validateTimestamp v label = .ok () ↔ 0 ≤ v := by
  simp [validateTimestamp]

theorem validateQuarantine_ok {q : Quarantine} : validateQuarantine q = .ok () ↔
    q.reason ∈ quarantineReasons ∧ bootIdOk q.bootId ∧ 0 ≤ q.wallTime ∧ 0 ≤ q.monotonicTime := by
  simp only [validateQuarantine, ite_ok_iff, seq_ok_iff, validateTimestamp_ok, not_not]

theorem validateRecord_ok {r : Record} : validateRecord r = .ok () ↔
    r.id ≠ "" ∧ r.method ≠ "" ∧ bootIdOk r.bootId ∧ 0 ≤ r.wallTime ∧ 0 ≤ r.monotonicTime := by
  simp only [validateRecord, ite_ok_iff, seq_ok_iff, validateTimestamp_ok, not_not, ne_eq]

theorem validatePayload_ok {p : Payload} : validatePayload p = .ok () ↔
    p.schema = schemaVersion ∧ p.records.length ≤ maxRecords ∧
      (p.records.length : ℤ) ≤ p.totalAttempts ∧
      (∀ q, p.quarantine = some q → validateQuarantine q = .ok ()) ∧
      ∀ r ∈ p.records, validateRecord r = .ok () := by
  have hq : p.quarantine.elim (.ok ()) validateQuarantine = .ok () ↔
      ∀ q, p.quarantine = some q → validateQuarantine q = .ok () := by
    cases p.quarantine <;> simp
  rw [← forM_ok_iff, ← hq]
  simp only [validatePayload, ite_ok_iff, seq_ok_iff, not_not, not_lt, ne_eq]
  rfl

variable (w : World) (c : Config)

/-! ## The invariants

`G` lists the monotonic times of the reservations allowed so far. -/

/-- The monotonic times of the records of the present boot. -/
def sameBoot (rs : List Record) : List ℚ :=
  (rs.filter fun r => r.bootId = c.bootId).map Record.monotonicTime

variable (G : List ℚ) (s : Session)

/-- The reservations that still count. -/
abbrev liveNow : List ℚ := live c.windowSeconds (w.mono s.tick) G

/-- What the state file says of the reservations that still count: all of
    them, if it will be accepted; and that there are none, if it is absent, or
    (where a limiter's own boot id is acceptable) will be rejected. -/
structure Durable : Prop where
  past : ∀ t ∈ G, t ≤ w.mono s.tick
  listed : ∀ p, s.file = .payload p → validatePayload p = .ok () →
    (liveNow w c G s).Subperm (sameBoot c p.records)
  absent : s.file = .absent → liveNow w c G s = []
  rejected : bootIdOk c.bootId →
    (∀ p, s.file = .payload p → validatePayload p ≠ .ok ()) → liveNow w c G s = []

/-- The limiter may be written to the file: what is written will be accepted. -/
structure Writable (l : Limiter) : Prop where
  quarantine : bootIdOk c.bootId → ∀ q, l.quarantine = some q → validateQuarantine q = .ok ()
  length_le : l.records.length ≤ maxRecords
  total : (l.records.length : ℤ) ≤ l.totalAttempts
  records : bootIdOk c.bootId → ∀ r ∈ l.records, validateRecord r = .ok ()

/-- Between the operations, and wherever one may be stopped: the quarantine a
    limiter holds may be written to the file. -/
structure Steady : Prop where
  durable : Durable w c G s
  quarantine : bootIdOk c.bootId → ∀ q, s.lim.quarantine = some q → validateQuarantine q = .ok ()

/-- The whole limiter may be written to the file. -/
structure Sound : Prop extends Steady w c G s, Writable c s.lim

/-- The limiter lists every reservation that still counts. -/
structure Counted : Prop extends Sound w c G s where
  listed : (liveNow w c G s).Subperm (sameBoot c s.lim.records)

/-- The limiter refuses for as long as a reservation counts: it has rejected
    its own file, for its own boot id. -/
structure Blocked : Prop extends Sound w c G s where
  bad : ¬bootIdOk c.bootId
  blocked : ∀ t ∈ liveNow w c G s, t + c.windowSeconds ≤ s.lim.blockedUntilMonotonic
  own : ∃ q, s.lim.quarantine = some q ∧ q.bootId = c.bootId

/-- After reloading. -/
def Loaded : Prop := Counted w c G s ∨ Blocked w c G s

variable {w c} {G : List ℚ} {s : Session}

/-! ### As time passes -/

/-- Predicates that the passing of time does not falsify. -/
def Stable (I : Session → Prop) : Prop := ∀ s n, s.tick ≤ n → I s → I { s with tick := n }

theorem liveNow_sublist {n : ℕ} (h : s.tick ≤ n) :
    (liveNow w c G { s with tick := n }).Sublist (liveNow w c G s) :=
  live_sublist (w.mono_monotone h)

theorem stable_steady : Stable (Steady w c G) := fun s n hn h => by
  have hl := liveNow_sublist (w := w) (c := c) (G := G) hn
  refine ⟨⟨fun t ht => (h.durable.past t ht).trans (w.mono_monotone hn), fun p hp hv =>
    hl.subperm.trans (h.durable.listed p hp hv), fun ha => ?_, fun hb hr => ?_⟩, h.quarantine⟩
  · exact sublist_nil.1 (h.durable.absent ha ▸ hl)
  · exact sublist_nil.1 (h.durable.rejected hb hr ▸ hl)

theorem stable_sound : Stable (Sound w c G) := fun s n hn h =>
  ⟨stable_steady s n hn h.toSteady, h.length_le, h.total, h.records⟩

theorem stable_counted : Stable (Counted w c G) := fun s n hn h =>
  ⟨stable_sound s n hn h.toSound, (liveNow_sublist hn).subperm.trans h.listed⟩

theorem stable_blocked : Stable (Blocked w c G) := fun s n hn h =>
  ⟨stable_sound s n hn h.toSound, h.bad,
    fun t ht => h.blocked t ((liveNow_sublist hn).subset ht), h.own⟩

theorem stable_loaded : Stable (Loaded w c G) := fun s n hn h =>
  h.imp (stable_counted s n hn) (stable_blocked s n hn)

/-! ### Changes of the limiter -/

variable {l : Limiter}

theorem Steady.withLim (h : Steady w c G s)
    (hq : bootIdOk c.bootId → ∀ q, l.quarantine = some q → validateQuarantine q = .ok ()) :
    Steady w c G { s with lim := l } :=
  ⟨⟨h.durable.past, h.durable.listed, h.durable.absent, h.durable.rejected⟩, hq⟩

theorem Sound.withLim (h : Sound w c G s) (hr : l.records = s.lim.records)
    (ht : l.totalAttempts = s.lim.totalAttempts)
    (hq : bootIdOk c.bootId → ∀ q, l.quarantine = some q → validateQuarantine q = .ok ()) :
    Sound w c G { s with lim := l } :=
  ⟨h.toSteady.withLim hq, hr ▸ h.length_le, hr ▸ ht ▸ h.total, hr ▸ h.records⟩

theorem Counted.withLim (h : Counted w c G s) (hr : l.records = s.lim.records)
    (ht : l.totalAttempts = s.lim.totalAttempts)
    (hq : bootIdOk c.bootId → ∀ q, l.quarantine = some q → validateQuarantine q = .ok ()) :
    Counted w c G { s with lim := l } :=
  ⟨h.toSound.withLim hr ht hq, hr ▸ h.listed⟩

theorem Loaded.steady (h : Loaded w c G s) : Steady w c G s := by
  rcases h with h | h
  all_goals exact h.toSteady

/-! ## The clocks and the lock -/

variable {E : Error → Session → Prop}

theorem wp_nextTick {Q : ℕ → Session → Prop} {H : Session → Prop} :
    wp nextTick Q E H s = Q s.tick { s with tick := s.tick + 1 } := rfl

theorem wp_modifyLim {f : Limiter → Limiter} {Q : Unit → Session → Prop} {H : Session → Prop} :
    wp (modifyLim f) Q E H s = Q () { s with lim := f s.lim } := rfl

theorem wp_getLim {Q : Limiter → Session → Prop}
    {H : Session → Prop} : wp getLim Q E H s = Q s.lim s := rfl

variable {I : Session → Prop}

/-- A reading of a clock takes time and no more; what it returns is not negative. -/
theorem wp_safeClock (hI : Stable I) (hs : I s) (clock : ℕ → ℚ) (label : String) :
    wp (safeClock clock label)
      (fun v s' => I s' ∧ v = clock s.tick ∧ 0 ≤ v ∧ s' = { s with tick := s.tick + 1 })
      (fun _ => I) I s := by
  have hs' := hI s (s.tick + 1) (Nat.le_succ _) hs
  rw [safeClock, wp_bind, wp_nextTick, wp_ite]
  split_ifs with h
  · exact hs'
  · exact ⟨hs', rfl, not_lt.1 h, rfl⟩

theorem keeps_safeClock (hI : Stable I) (clock : ℕ → ℚ) (label : String) :
    Keeps I (safeClock clock label) := fun _ hs =>
  wp_mono (wp_safeClock hI hs clock label) (fun _ _ h => h.1) (fun _ _ h => h) (fun _ h => h)

theorem keeps_nextTick (hI : Stable I) : Keeps I nextTick := fun s hs =>
  hI s (s.tick + 1) (Nat.le_succ _) hs

theorem keeps_lockStep (hI : Stable I) (fault : ℕ → Fault) : Keeps I (lockStep fault) :=
  (keeps_nextTick hI).bind fun _ => keeps_perform fun _ h => h

/-- The invariants that a change of quarantine does not falsify. -/
structure Robust (w : World) (c : Config) (G : List ℚ) (I : Session → Prop) : Prop where
  stable : Stable I
  steady : ∀ s, I s → Steady w c G s
  withLim : ∀ s l, I s → l.records = s.lim.records → l.totalAttempts = s.lim.totalAttempts →
    (bootIdOk c.bootId → ∀ q, l.quarantine = some q → validateQuarantine q = .ok ()) →
    I { s with lim := l }

theorem robust_steady : Robust w c G (Steady w c G) :=
  ⟨stable_steady, fun _ h => h, fun _ _ h _ _ hq => h.withLim hq⟩

theorem robust_counted : Robust w c G (Counted w c G) :=
  ⟨stable_counted, fun _ h => h.toSteady, fun _ _ h hr ht hq => h.withLim hr ht hq⟩

/-! ## Quarantine -/

/-- What `failClosedLocked` makes of a limiter, at the times it reads. -/
def failClosed (c : Config) (reason : String) (wall now : ℚ) (l : Limiter) : Limiter :=
  if l.blockedUntilMonotonic ≤ now + c.windowSeconds then
    { l with
      stateError := some reason
      blockedUntilMonotonic := now + c.windowSeconds
      quarantine := some ⟨reason, wall, now, c.bootId⟩ }
  else { l with stateError := some reason }

theorem wp_failClosedLocked (hI : Stable I) (hs : I s)
    (he : ∀ s e, I s → I { s with lim := { s.lim with stateError := e } }) (reason : String) :
    wp (failClosedLocked w c reason)
      (fun _ s' => reason ∈ quarantineReasons ∧ 0 ≤ w.wall s.tick ∧ 0 ≤ w.mono (s.tick + 1) ∧
        s' = { s with
          tick := s.tick + 2
          lim := failClosed c reason (w.wall s.tick) (w.mono (s.tick + 1)) s.lim })
      (fun _ => I) I s := by
  rw [failClosedLocked, wp_ite]
  rcases em (reason ∈ quarantineReasons) with hr | hr
  swap
  · rw [if_pos hr]
    exact hs
  rw [if_neg (not_not.2 hr), wp_bind]
  refine wp_mono (wp_safeClock hI hs _ _) ?_ (fun _ _ h => h) (fun _ h => h)
  rintro wall s₁ ⟨hs₁, rfl, hwall, rfl⟩
  rw [wp_bind, wp_modifyLim, wp_bind]
  refine wp_mono (wp_safeClock hI (he _ _ hs₁) _ _) ?_ (fun _ _ h => h) (fun _ h => h)
  rintro now s₂ ⟨hs₂, rfl, hnow, rfl⟩
  exact ⟨hr, hwall, hnow, rfl⟩

variable {now : ℚ}

theorem failClosed_quarantine {reason : String} {wall : ℚ}
    (hr : reason ∈ quarantineReasons) (hw : 0 ≤ wall) (hn : 0 ≤ now)
    (hq : bootIdOk c.bootId → ∀ q, l.quarantine = some q → validateQuarantine q = .ok ()) :
    bootIdOk c.bootId → ∀ q, (failClosed c reason wall now l).quarantine = some q →
      validateQuarantine q = .ok () := by
  intro hb q h
  rw [failClosed] at h
  split_ifs at h
  · cases h
    exact validateQuarantine_ok.2 ⟨hr, hb, hw, hn⟩
  · exact hq hb q h

theorem failClosed_records {reason : String} {wall : ℚ} :
    (failClosed c reason wall now l).records = l.records ∧
      (failClosed c reason wall now l).totalAttempts = l.totalAttempts := by
  rw [failClosed]
  split_ifs <;> exact ⟨rfl, rfl⟩

theorem keeps_failClosedLocked (hI : Robust w c G I) (reason : String) :
    Keeps I (failClosedLocked w c reason) := by
  intro s hs
  have he : ∀ s e, I s → I { s with lim := { s.lim with stateError := e } } := fun s e hs =>
    hI.withLim s _ hs rfl rfl (hI.steady s hs).quarantine
  refine wp_mono (wp_failClosedLocked hI.stable hs he reason) ?_ (fun _ _ h => h) (fun _ h => h)
  rintro _ s' ⟨hr, hw, hn, rfl⟩
  have h₂ := hI.stable s (s.tick + 2) (Nat.le_add_right _ 2) hs
  exact hI.withLim _ _ h₂ failClosed_records.1 failClosed_records.2
    (failClosed_quarantine hr hw hn (hI.steady s hs).quarantine)

/-- In quarantine for its own boot id, a limiter that fails again stays so. -/
theorem Blocked.failClosed (h : Blocked w c G s) {reason : String} {wall : ℚ} :
    Blocked w c G { s with lim := failClosed c reason wall now s.lim } := by
  have hb := h.bad
  have hs : Sound w c G { s with lim := Recovery.failClosed c reason wall now s.lim } :=
    h.toSound.withLim failClosed_records.1 failClosed_records.2 fun hb' => absurd hb' hb
  refine ⟨hs, hb, fun t ht => ?_, ?_⟩
  · refine (h.blocked t ht).trans ?_
    rw [Recovery.failClosed]
    split_ifs with hle
    · exact hle
    · exact le_rfl
  · rw [Recovery.failClosed]
    split_ifs
    · exact ⟨_, rfl, rfl⟩
    · exact h.own

theorem keeps_failClosedLocked_loaded (reason : String) :
    Keeps (Loaded w c G) (failClosedLocked w c reason) := by
  rintro s (hs | hs)
  · exact wp_mono (keeps_failClosedLocked robust_counted reason s hs) (fun _ _ => .inl)
      (fun _ _ => .inl) (fun _ => .inl)
  · have he : ∀ (s : Session) e, Blocked w c G s →
        Blocked w c G { s with lim := { s.lim with stateError := e } } := fun s e h =>
      ⟨h.toSound.withLim rfl rfl h.quarantine, h.bad, h.blocked, h.own⟩
    refine wp_mono (wp_failClosedLocked stable_blocked hs he reason) ?_ (fun _ _ => .inr)
      (fun _ => .inr)
    rintro _ s' ⟨-, -, -, rfl⟩
    exact .inr (stable_blocked s (s.tick + 2) (Nat.le_add_right _ 2) hs).failClosed

theorem keeps_quarantineRemainingLocked (hI : Stable I) (q : Quarantine) :
    Keeps I (quarantineRemainingLocked w c q) := by
  refine (keeps_safeClock hI _ _).bind fun nowWall => (keeps_safeClock hI _ _).bind fun nowMono => ?_
  intro s hs
  simp only [wp_ite, wp_pure, ite_self]
  exact hs

theorem keeps_modifyLim {f : Limiter → Limiter} (hf : ∀ s, I s → I { s with lim := f s.lim }) :
    Keeps I (modifyLim f) := fun s hs => hf s hs

theorem keeps_applyQuarantineLocked (hI : Robust w c G I) {q : Quarantine}
    (hq : bootIdOk c.bootId → validateQuarantine q = .ok ()) :
    Keeps I (applyQuarantineLocked w c q) := by
  refine (keeps_quarantineRemainingLocked hI.stable q).bind fun remaining => ?_
  intro s hs
  by_cases hr : remaining ≤ 0
  · rw [if_pos hr]
    refine (keeps_modifyLim fun s hs => ?_).bind (fun _ => keeps_pure _) s hs
    split_ifs
    all_goals exact hI.withLim s _ hs rfl rfl (hI.steady s hs).quarantine
  · rw [if_neg hr]
    refine (keeps_safeClock hI.stable _ _).bind (fun now => (keeps_modifyLim fun s hs => ?_).bind
      fun _ => keeps_pure _) s hs
    refine hI.withLim s _ hs rfl rfl fun hb q' hq' => ?_
    cases hq'
    exact hq hb

theorem keeps_preferLocalQuarantine (hI : Robust w c G I) {q : Option Quarantine}
    (hq : bootIdOk c.bootId → ∀ q', q = some q' → validateQuarantine q' = .ok ()) (r b : ℚ) :
    Keeps I (preferLocalQuarantine w c q r b) := by
  intro s hs
  rcases q with - | q
  · exact hs
  · rw [preferLocalQuarantine, wp_ite]
    split_ifs
    · exact (keeps_applyQuarantineLocked hI fun hb => hq hb q rfl).bind (fun _ => keeps_pure _) s hs
    · exact hs

/-! ## Expiry, and the recent records -/

theorem expireQuarantine_records : (expireQuarantine now l).records = l.records ∧
      (expireQuarantine now l).totalAttempts = l.totalAttempts := by
  rw [expireQuarantine]
  split_ifs <;> exact ⟨rfl, rfl⟩

theorem expireQuarantine_quarantine {q : Quarantine}
    (h : (expireQuarantine now l).quarantine = some q) : l.quarantine = some q := by
  rw [expireQuarantine] at h
  split_ifs at h
  · exact h
  · cases h
  · cases h

/-- What a predicate must allow to survive an expiry check at a time that is past. -/
def Expires (w : World) (I : Session → Prop) : Prop := ∀ s now, I s → now ≤ w.mono s.tick →
  I { s with lim := expireQuarantine now s.lim }

theorem Robust.expires (hI : Robust w c G I) : Expires w I := fun s _ hs _ =>
  hI.withLim s _ hs expireQuarantine_records.1 expireQuarantine_records.2
    fun hb q h => (hI.steady s hs).quarantine hb q (expireQuarantine_quarantine h)

/-- When the quarantine for its own boot id runs out, no reservation counts any more. -/
theorem expires_loaded : Expires w (Loaded w c G) := by
  rintro s now (hs | hs) hnow
  · exact .inl (robust_counted.expires s now hs hnow)
  · have hsound := hs.toSound.withLim (l := expireQuarantine now s.lim) expireQuarantine_records.1
      expireQuarantine_records.2 fun hb => absurd hb hs.bad
    by_cases hlt : now < s.lim.blockedUntilMonotonic
    · have he : expireQuarantine now s.lim = s.lim := if_pos (.inr hlt)
      rw [he]
      exact .inr hs
    · have hnil : liveNow w c G s = [] := eq_nil_iff_forall_not_mem.2 fun t ht => by
        have hlive := (mem_live.1 ht).2
        have hblocked := hs.blocked t ht
        linarith
      refine .inl ⟨hsound, ?_⟩
      change (liveNow w c G s).Subperm _
      rw [hnil]
      exact nil_subperm

theorem isRecent_eq {ignore discard : Bool} {age : ℚ} : isRecent c ignore discard age =
    decide (-clockSkewTolerance ≤ age ∧ age < c.windowSeconds) := by
  rw [isRecent]
  split_ifs with h
  · have hage := not_le.2 h.1
    simp [hage]
  · rfl

theorem sameBoot_filter (rs : List Record) {f : Record → Bool} {p : ℚ → Bool}
    (h : ∀ r, r.bootId = c.bootId → f r = p r.monotonicTime) :
    sameBoot c (rs.filter f) = (sameBoot c rs).filter p := by
  rw [sameBoot, sameBoot, List.filter_map, List.filter_filter, List.filter_filter]
  congr 1
  refine filter_congr fun r _ => ?_
  by_cases hr : r.bootId = c.bootId
  · simp [hr, h r hr]
  · simp [hr]

/-- What `recentLocked` finds lists every reservation that still counts, if the
    limiter does. -/
theorem wp_recentLocked_counted (hs : Counted w c G s) (ignore : Bool) :
    wp (recentLocked w c ignore)
      (fun r s' => Counted w c G s' ∧ (liveNow w c G s').Subperm (sameBoot c r.1) ∧
        r.1.Sublist s'.lim.records)
      (fun _ => Counted w c G) (Counted w c G) s := by
  rw [recentLocked, wp_bind]
  refine wp_mono (wp_safeClock stable_counted hs _ _) ?_ (fun _ _ h => h) (fun _ h => h)
  rintro nowWall s₁ ⟨hs₁, rfl, -, rfl⟩
  rw [wp_bind]
  refine wp_mono (wp_safeClock stable_counted hs₁ _ _) ?_ (fun _ _ h => h) (fun _ h => h)
  rintro nowMono s₂ ⟨hs₂, rfl, -, rfl⟩
  rw [wp_bind, wp_modifyLim, wp_bind, wp_getLim]
  have hle : w.mono (s.tick + 1) ≤ w.mono (s.tick + 1 + 1) := w.mono_monotone (Nat.le_succ _)
  have hs₃ := robust_counted.expires _ _ hs₂ hle
  refine ⟨hs₃, ?_, filter_sublist⟩
  have hf := sameBoot_filter (c := c) (expireQuarantine (w.mono (s.tick + 1)) s.lim).records
    (f := fun r => isRecent c ignore
      (expireQuarantine (w.mono (s.tick + 1)) s.lim).futureRecordsMayBeDiscarded
      (recordAge c (w.wall s.tick) (w.mono (s.tick + 1)) r))
    (p := fun t => decide (-clockSkewTolerance ≤ w.mono (s.tick + 1) - t ∧
      w.mono (s.tick + 1) - t < c.windowSeconds))
    fun r hr => by rw [isRecent_eq, recordAge, if_pos hr]
  rw [hf]
  -- A reservation that counts is neither from the future nor too old at the reading.
  refine live_subperm_filter hs₃.listed fun t ht => decide_eq_true ?_
  obtain ⟨htG, hlive⟩ := mem_live.1 ht
  have hpast : t ≤ w.mono (s.tick + 1) := (hs.durable.past t htG).trans
    (w.mono_monotone (Nat.le_succ _))
  have htol : 0 ≤ clockSkewTolerance := by norm_num [clockSkewTolerance]
  exact ⟨by linarith, by linarith⟩

theorem keeps_recentLocked (hI : Stable I) (he : Expires w I) (ignore : Bool) :
    Keeps I (recentLocked w c ignore) := by
  refine (keeps_safeClock hI _ _).bind fun nowWall => ?_
  intro s hs
  rw [wp_bind]
  refine wp_mono (wp_safeClock hI hs _ _) ?_ (fun _ _ h => h) (fun _ h => h)
  rintro nowMono s' ⟨hs', rfl, -, rfl⟩
  exact he _ _ hs' (w.mono_monotone (Nat.le_succ _))

/-! ## Loading -/

theorem Steady.counted_reset (h : Steady w c G s) (hl : liveNow w c G s = []) :
    Counted w c G { s with lim := {} } := by
  refine ⟨⟨h.withLim fun _ _ hq => absurd hq nofun, Nat.zero_le _, le_rfl,
    fun _ _ hr => absurd hr not_mem_nil⟩, ?_⟩
  change (liveNow w c G s).Subperm _
  rw [hl]
  exact nil_subperm

/-- A rejected file either has nothing to list, or was written under a boot id
    that is rejected; then the quarantine outlasts what it listed. -/
theorem wp_rejectState (hs : Steady w c G s)
    (hr : ∀ p, s.file = .payload p → validatePayload p ≠ .ok ()) :
    wp (rejectState w c) (fun _ => Loaded w c G) (fun _ => Steady w c G) (Steady w c G) s := by
  by_cases hb : bootIdOk c.bootId
  · have hc := hs.counted_reset (hs.durable.rejected hb hr)
    rw [rejectState, wp_bind, resetLoadedStateLocked, wp_modifyLim, wp_bind]
    exact wp_mono (keeps_failClosedLocked robust_counted _ _ hc) (fun _ _ => .inl)
      (fun _ _ h => h.toSteady) (fun _ h => h.toSteady)
  · have hz : Steady w c G { s with lim := {} } := hs.withLim fun h => absurd h hb
    have he : ∀ (s : Session) e, Steady w c G s →
        Steady w c G { s with lim := { s.lim with stateError := e } } := fun s e h =>
      h.withLim h.quarantine
    rw [rejectState, wp_bind, resetLoadedStateLocked, wp_modifyLim, wp_bind]
    refine wp_mono (wp_failClosedLocked stable_steady hz he _) ?_ (fun _ _ h => h) (fun _ h => h)
    rintro _ s' ⟨-, -, hn, rfl⟩
    have hle : ({} : Limiter).blockedUntilMonotonic ≤ w.mono (s.tick + 1) + c.windowSeconds :=
      add_nonneg hn c.windowSeconds_pos.le
    have hst := stable_steady _ (s.tick + 2) (Nat.le_add_right _ 2) hs
    refine .inr ⟨⟨hst.withLim fun h => absurd h hb, ?_, ?_, fun h => absurd h hb⟩, hb, ?_, ?_⟩
    · simp [failClosed_records.1]
    · simp [failClosed_records.1, failClosed_records.2]
    · intro t ht
      have hpast : t ≤ w.mono (s.tick + 1) := (hs.durable.past t (mem_live.1 ht).1).trans
        (w.mono_monotone (Nat.le_succ _))
      rw [failClosed, if_pos hle]
      change t + c.windowSeconds ≤ w.mono (s.tick + 1) + c.windowSeconds
      gcongr
    · rw [failClosed, if_pos hle]
      exact ⟨_, rfl, rfl⟩

theorem lastN_eq {α : Type} {n : ℕ} {xs : List α} (h : xs.length ≤ n) : lastN n xs = xs := by
  rw [lastN, Nat.sub_eq_zero_of_le h, drop_zero]

theorem keeps_detectRollback (hI : Robust w c G I) (dirty : Bool) :
    Keeps I (detectRollback w c dirty) := by
  intro s hs
  rw [detectRollback, wp_bind, wp_getLim, wp_ite]
  split_ifs
  · refine (keeps_recentLocked hI.stable hI.expires false).bind (fun ⟨_, uncertain⟩ => ?_) s hs
    intro s hs
    rw [wp_ite]
    split_ifs
    · exact (keeps_failClosedLocked hI _).bind (fun _ => keeps_pure _) s hs
    · exact hs
  · exact hs

theorem keeps_elim {α : Type} {q : Option Quarantine} {a : α} {f : Quarantine → LProg α}
    (hf : ∀ q', q = some q' → Keeps I (f q')) : Keeps I (q.elim (pure a) f) := by
  cases q with
  | none => exact keeps_pure a
  | some q' => exact hf q' rfl

theorem wp_adoptPayload (hs : Steady w c G s) {p : Payload} (hp : s.file = .payload p)
    (hv : validatePayload p = .ok ()) {q : Option Quarantine}
    (hq : bootIdOk c.bootId → ∀ q', q = some q' → validateQuarantine q' = .ok ()) (r : ℚ)
    (d : Bool) :
    wp (adoptPayload w c p q r d) (fun _ => Loaded w c G) (fun _ => Steady w c G)
      (Steady w c G) s := by
  obtain ⟨-, hlen, htotal, hdisk, hrec⟩ := validatePayload_ok.1 hv
  have hc : Counted w c G { s with lim := { s.lim with
      records := lastN maxRecords p.records
      totalAttempts := p.totalAttempts
      metadata := p.metadata } } := by
    rw [lastN_eq hlen]
    exact ⟨⟨hs.withLim hs.quarantine, hlen, htotal, fun _ => hrec⟩, hs.durable.listed p hp hv⟩
  rw [adoptPayload, wp_bind, wp_modifyLim]
  -- From here on every step keeps `Counted`.
  refine wp_mono (Keeps.bind ?_ (fun diskRemaining => Keeps.bind ?_ fun _ => Keeps.bind ?_
    fun dirty => ?_) _ hc) (fun _ _ => .inl) (fun _ _ h => h.toSteady) (fun _ h => h.toSteady)
  · exact keeps_elim fun q' hq' =>
      keeps_applyQuarantineLocked robust_counted fun _ => hdisk q' hq'
  · exact keeps_modifyLim fun s hs => hs.withLim rfl rfl hs.quarantine
  · exact keeps_preferLocalQuarantine robust_counted hq r _
  · exact keeps_detectRollback robust_counted dirty

theorem wp_reloadForTransactionLocked (hs : Steady w c G s) :
    wp (reloadForTransactionLocked w c) (fun _ => Loaded w c G) (fun _ => Steady w c G)
      (Steady w c G) s := by
  have hst : Stable fun s' => Steady w c G s' ∧ s'.file = s.file := fun s' n hn h =>
    ⟨stable_steady s' n hn h.1, h.2⟩
  rw [reloadForTransactionLocked, wp_bind, wp_getLim, wp_bind]
  refine wp_mono (keeps_elim (fun q _ => keeps_quarantineRemainingLocked hst q) s ⟨hs, rfl⟩) ?_
    (fun _ _ h => h.1) (fun _ h => h.1)
  rintro r ⟨file, n, l⟩ ⟨hs₁, -⟩
  have hz : Steady w c G ⟨file, n, {}⟩ := hs₁.withLim fun _ _ hq => absurd hq nofun
  rw [wp_bind, resetLoadedStateLocked, wp_modifyLim, wp_bind, wp_get]
  cases file with
  | absent =>
    have hc := hs₁.counted_reset (hs₁.durable.absent rfl)
    refine wp_mono (Keeps.bind ?_ (fun applied => ?_) _ hc) (fun _ _ => .inl)
      (fun _ _ h => h.toSteady) (fun _ h => h.toSteady)
    · exact keeps_preferLocalQuarantine robust_counted hs.quarantine r 0
    · intro s₂ hs₂
      rw [wp_ite]
      split_ifs
      · exact hs₂
      · exact hs₂.withLim rfl rfl hs₂.quarantine
  | unreadable => exact wp_rejectState hz nofun
  | payload p =>
    dsimp only
    cases hv : validatePayload p with
    | error e =>
      refine wp_rejectState hz fun p' hp' hv' => ?_
      cases hp'
      cases hv.symm.trans hv'
    | ok u => exact wp_adoptPayload hz rfl hv hs.quarantine _ _

/-! ## Saving -/

/-- What `saveLocked` writes. -/
def savedPayload (l : Limiter) : Payload where
  schema := schemaVersion
  records := lastN maxRecords l.records
  totalAttempts := l.totalAttempts
  metadata := l.metadata
  quarantine := l.quarantine

theorem savedPayload_records (h : Writable c l) : (savedPayload l).records = l.records := by
  simp only [savedPayload, lastN_eq h.length_le]

theorem Writable.validatePayload_saved (h : Writable c l)
    (hb : bootIdOk c.bootId) : validatePayload (savedPayload l) = .ok () := by
  refine validatePayload_ok.2 ⟨rfl, ?_, ?_, h.quarantine hb, ?_⟩
  · rw [savedPayload_records h]
    exact h.length_le
  · rw [savedPayload_records h]
    exact h.total
  · rw [savedPayload_records h]
    exact h.records hb

theorem Loaded.sound (h : Loaded w c G s) : Sound w c G s := by
  rcases h with h | h
  all_goals exact h.toSound

theorem Loaded.durable_saved (h : Loaded w c G s) :
    Durable w c G { s with file := .payload (savedPayload s.lim) } := by
  refine ⟨h.steady.durable.past, fun p hp hv => ?_, nofun, fun hb hr => ?_⟩
  · cases hp
    rcases h with h | h
    · rw [savedPayload_records h.toWritable]
      exact h.listed
    · obtain ⟨q, hq, hown⟩ := h.own
      have hvq := (validatePayload_ok.1 hv).2.2.2.1 q hq
      exact absurd (hown ▸ (validateQuarantine_ok.1 hvq).2.1) h.bad
  · exact absurd (h.sound.toWritable.validatePayload_saved hb) (hr _ rfl)

theorem Sound.withFile (h : Sound w c G s) {f : StateFile}
    (hd : Durable w c G { s with file := f }) : Sound w c G { s with file := f } :=
  ⟨⟨hd, h.quarantine⟩, h.length_le, h.total, h.records⟩

/-- Saving, where `J` holds with the file replaced and `I` in any case. -/
theorem wp_saveLocked {J : Session → Prop} (hI : Stable I) (hJ : Stable J) (hJI : ∀ s, J s → I s)
    (hs : I s) (hs' : J { s with file := .payload (savedPayload s.lim) }) :
    wp (saveLocked w) (fun _ s' => J s' ∧ s'.lim = s.lim) (fun _ s' => I s' ∧ s'.lim = s.lim)
      I s := by
  have h₁ := hI s (s.tick + 1) (Nat.le_succ _) hs
  have h₂ := hJ { s with file := .payload (savedPayload s.lim) } (s.tick + 1) (Nat.le_succ _) hs'
  rw [saveLocked, wp_bind, wp_getLim, wp_bind, wp_nextTick]
  exact wp_perform ⟨h₂, rfl⟩ ⟨h₁, rfl⟩ ⟨hJI _ h₂, rfl⟩ h₁ (hJI _ h₂)

/-- A limiter that has reloaded may be written. -/
theorem Loaded.saved (h : Loaded w c G s) :
    Loaded w c G { s with file := .payload (savedPayload s.lim) } := by
  have hd := h.durable_saved
  refine h.imp (fun h => ⟨h.toSound.withFile hd, h.listed⟩) fun h => ?_
  exact ⟨h.toSound.withFile hd, h.bad, h.blocked, h.own⟩

theorem wp_saveLocked_loaded (hs : Loaded w c G s) :
    wp (saveLocked w) (fun _ => Loaded w c G) (fun _ => Loaded w c G) (Loaded w c G) s :=
  wp_mono (wp_saveLocked stable_loaded stable_loaded (fun _ h => h) hs hs.saved)
    (fun _ _ h => h.1) (fun _ _ h => h.1) (fun _ h => h)

theorem wp_persistQuarantineLocked (hs : Loaded w c G s) :
    wp (persistQuarantineLocked w c) (fun _ => Loaded w c G) (fun _ => Steady w c G)
      (Steady w c G) s := by
  rw [persistQuarantineLocked, wp_tryCatch, wp_bind]
  refine wp_mono (wp_saveLocked_loaded hs) (fun _ s' h => h) (fun e s' h => ?_)
    (fun _ h => h.steady)
  rw [wp_bind]
  exact wp_mono (keeps_failClosedLocked_loaded _ _ h) (fun _ _ h => h) (fun _ _ h => h.steady)
    (fun _ h => h.steady)

/-! ## The operations -/

variable {α : Type}

/-- What is known when `x` returns is known when the lock is released. -/
theorem wp_stateFileLock {x : LProg α} {Q : α → Session → Prop} (hI : Stable I)
    (hQ : ∀ a, Stable (Q a)) (hQI : ∀ a s, Q a s → I s)
    (hx : ∀ s, I s → wp x Q (fun _ => I) I s) (hs : I s) :
    wp (stateFileLock w x) Q (fun _ => I) I s := by
  rw [stateFileLock, wp_bind]
  refine wp_mono (keeps_lockStep hI _ s hs) (fun _ s₁ h₁ => ?_) (fun _ _ h => h) (fun _ h => h)
  rw [wp_tryFinally]
  refine wp_mono (hx s₁ h₁) (fun a s₂ h₂ => ?_) (fun _ s₂ h₂ => ?_) (fun _ h => h)
  · exact wp_mono (keeps_lockStep (hQ a) _ s₂ h₂) (fun _ _ h => h) (fun _ s h => hQI a s h)
      (fun s h => hQI a s h)
  · exact keeps_lockStep hI _ s₂ h₂

theorem keeps_stateFileLock {x : LProg α} (hI : Stable I) (hx : Keeps I x) :
    Keeps I (stateFileLock w x) :=
  (keeps_lockStep hI _).bind fun _ => hx.tryFinally (keeps_lockStep hI _)

theorem keeps_load : Keeps (Steady w c G) (load w c) := by
  refine (keeps_modifyLim fun s hs => hs.withLim fun _ _ hq => absurd hq nofun).bind fun _ => ?_
  refine Keeps.tryCatch (keeps_stateFileLock stable_steady fun s hs => ?_) fun e => ?_
  · rw [wp_bind]
    refine wp_mono (wp_reloadForTransactionLocked hs) (fun dirty s' h => ?_) (fun _ _ h => h)
      (fun _ h => h)
    rw [wp_ite]
    split_ifs
    · rw [wp_bind]
      exact wp_mono (wp_persistQuarantineLocked h) (fun _ _ h => h.steady) (fun _ _ h => h)
        (fun _ h => h)
    · exact h.steady
  · exact (keeps_modifyLim fun s hs => hs.withLim fun _ _ hq => absurd hq nofun).bind fun _ =>
      keeps_failClosedLocked robust_steady _

/-- The metadata do not matter. -/
theorem Loaded.withMetadata (h : Loaded w c G s) (m : Dict String String) :
    Loaded w c G { s with lim := { s.lim with metadata := m } } := by
  rcases h with h | h
  · exact .inl (h.withLim rfl rfl h.quarantine)
  · exact .inr ⟨h.toSound.withLim rfl rfl h.quarantine, h.bad, h.blocked, h.own⟩

theorem keeps_setMetadataLocked (key : String) (value : Option String) :
    Keeps (Steady w c G) (setMetadataLocked w c key value) := by
  intro s hs
  rw [setMetadataLocked, wp_bind]
  refine wp_mono (wp_reloadForTransactionLocked hs) (fun _ s₁ h₁ => ?_) (fun _ _ h => h)
    (fun _ h => h)
  rw [wp_bind, expireQuarantineLocked, wp_bind]
  refine wp_mono (wp_safeClock stable_loaded h₁ _ _) ?_ (fun _ _ h => h.steady) (fun _ h => h.steady)
  rintro now s₂ ⟨h₂, rfl, -, rfl⟩
  have h₃ := (expires_loaded _ _ h₂ (w.mono_monotone (Nat.le_succ _))).withMetadata
    (putMetadata key value (expireQuarantine (w.mono s₁.tick) s₁.lim).metadata)
  rw [wp_modifyLim, wp_bind, wp_getLim, wp_bind, wp_modifyLim, wp_tryCatch, wp_bind]
  refine wp_mono (wp_saveLocked_loaded h₃) (fun _ s₄ h => h.steady) (fun e s₄ h => ?_)
    (fun _ h => h.steady)
  refine ((keeps_modifyLim fun s hs => ?_).bind fun _ =>
    (keeps_failClosedLocked robust_steady _).bind fun _ => keeps_pure _) s₄ h.steady
  exact hs.withLim hs.quarantine

theorem keeps_failing (a : α) : Keeps (Steady w c G)
    (do failClosedLocked w c "persistence_error"; pure a : LProg α) :=
  (keeps_failClosedLocked robust_steady _).bind fun _ => keeps_pure a

theorem keeps_setMetadata (key : String) (value : Option String) :
    Keeps (Steady w c G) (setMetadata w c key value) := by
  rw [setMetadata]
  split_ifs
  · exact keeps_throw _
  · exact keeps_throw _
  · exact (keeps_stateFileLock stable_steady (keeps_setMetadataLocked key value)).tryCatch
      fun _ => keeps_failing _

theorem keeps_recentAttempts : Keeps (Steady w c G) (recentAttempts w c) :=
  (keeps_recentLocked stable_steady robust_steady.expires false).bind fun _ => keeps_pure _

theorem keeps_status : Keeps (Steady w c G) (status w c) :=
  (keeps_recentLocked stable_steady robust_steady.expires true).bind fun _ =>
    (keeps_safeClock stable_steady _ _).bind fun _ _ hs => hs

/-! ## Reserving -/

/-- The monotonic time recorded with a reservation, if it is allowed. -/
def reservedTime (r : ResetReservation) (l : Limiter) : List ℚ :=
  if r.allowed then
    ((l.records.reverse.find? fun e => some e.id = r.reservationId).map
      Record.monotonicTime).toList
  else []

/-- The reservations allowed so far, and the bound on their rate. -/
structure Within (w : World) (c : Config) (G : List ℚ) (s : Session) : Prop
    extends Steady w c G s where
  bounded : Bounded c.windowSeconds c.maxAttempts G

theorem stable_within : Stable (Within w c G) := fun s n hn h =>
  ⟨stable_steady s n hn h.toSteady, h.bounded⟩

theorem robust_within : Robust w c G (Within w c G) :=
  ⟨stable_within, fun _ h => h.toSteady, fun _ _ h _ _ hq => ⟨h.toSteady.withLim hq, h.bounded⟩⟩

/-- A reservation less is still within the bound. -/
theorem Steady.of_append {l : List ℚ} (h : Steady w c (l ++ G) s) : Steady w c G s := by
  have hsub : (liveNow w c G s).Sublist (liveNow w c (l ++ G) s) :=
    (sublist_append_right l G).filter _
  refine ⟨⟨fun t ht => h.durable.past t (mem_append_right l ht), fun p hp hv =>
    hsub.subperm.trans (h.durable.listed p hp hv), fun ha => ?_, fun hb hr => ?_⟩, h.quarantine⟩
  · exact sublist_nil.1 (h.durable.absent ha ▸ hsub)
  · exact sublist_nil.1 (h.durable.rejected hb hr ▸ hsub)

variable {recent : List Record}

theorem withAttempt_records {e : Record}
    (h : recent.length < maxRecords) : (withAttempt e recent l).records = recent ++ [e] := by
  have hmax : (recent ++ [e]).length ≤ maxRecords := by
    rw [length_append, length_singleton]
    exact Nat.succ_le_of_lt h
  simp only [withAttempt, clearQuarantine, lastN_eq hmax]

/-- Once written, a new attempt is counted with the others. -/
theorem Counted.saved_withAttempt (h : Counted w c G s) {e : Record}
    (hlive : (liveNow w c G s).Subperm (sameBoot c recent)) (hsub : recent.Sublist s.lim.records)
    (hlen : recent.length < maxRecords) (hown : e.bootId = c.bootId)
    (hpast : e.monotonicTime ≤ w.mono s.tick)
    (he : bootIdOk c.bootId → validateRecord e = .ok ()) :
    Counted w c (e.monotonicTime :: G) { s with
      file := .payload (savedPayload (withAttempt e recent s.lim))
      lim := withAttempt e recent s.lim } := by
  have hrec := withAttempt_records (e := e) (l := s.lim) hlen
  have hw : Writable c (withAttempt e recent s.lim) := by
    refine ⟨fun _ _ hq => absurd hq nofun, ?_, ?_, fun hb r hr => ?_⟩
    · rw [hrec, length_append, length_singleton]
      exact Nat.succ_le_of_lt hlen
    · rw [hrec, length_append, length_singleton, Nat.cast_add, Nat.cast_one]
      exact add_le_add_left ((Nat.cast_le.2 hsub.length_le).trans h.total) 1
    · rw [hrec] at hr
      rcases mem_append.1 hr with hr | hr
      · exact h.records hb r (hsub.subset hr)
      · exact mem_singleton.1 hr ▸ he hb
  have hlisted : (liveNow w c (e.monotonicTime :: G) s).Subperm
      (sameBoot c (withAttempt e recent s.lim).records) := by
    have hone : sameBoot c (recent ++ [e]) = sameBoot c recent ++ [e.monotonicTime] := by
      simp [sameBoot, hown]
    rw [hrec, hone]
    exact live_cons_subperm.trans ((subperm_cons _).2 hlive |>.trans
      (perm_append_singleton _ _).symm.subperm)
  refine ⟨⟨⟨⟨fun t ht => ?_, fun p hp _ => ?_, nofun, fun hb hr => ?_⟩, hw.quarantine⟩,
    hw.length_le, hw.total, hw.records⟩, hlisted⟩
  · exact (mem_cons.1 ht).elim (fun ht => ht ▸ hpast) (h.durable.past t)
  · cases hp
    rw [savedPayload_records hw]
    exact hlisted
  · exact absurd (hw.validatePayload_saved hb) (hr _ rfl)

theorem reservedTime_withAttempt {n : ℕ}
    (reason id : String) (wall mono : ℚ) (bootId method : String)
    (h : recent.length < maxRecords) : reservedTime ⟨true, reason, some id, n⟩
      (withAttempt ⟨id, wall, mono, bootId, method⟩ recent l) = [mono] := by
  simp [reservedTime, withAttempt_records h]

theorem Within.of_cons {t : ℚ} (h : Within w c (t :: G) s) : Within w c G s := by
  refine ⟨h.toSteady.of_append (l := [t]), fun a => ?_⟩
  exact (((sublist_cons_self t G).filter _).length_le).trans (h.bounded a)

/-- What `reserve` leaves behind, when it returns `r`. -/
def Reserved (w : World) (c : Config) (G : List ℚ) (r : ResetReservation) (s : Session) : Prop :=
  Within w c (reservedTime r s.lim ++ G) s

theorem stable_reserved (r : ResetReservation) : Stable (Reserved w c G r) := fun s n hn h =>
  stable_within s n hn h

theorem Reserved.within {r : ResetReservation} (h : Reserved w c G r s) : Within w c G s := by
  refine ⟨h.toSteady.of_append, fun a => ?_⟩
  exact (((sublist_append_right _ G).filter _).length_le).trans (h.bounded a)

theorem wp_recordAttempt (hs : Counted w c G s) (hbound : Bounded c.windowSeconds c.maxAttempts G)
    {method : String} (hm : method ≠ "")
    (hlive : (liveNow w c G s).Subperm (sameBoot c recent)) (hsub : recent.Sublist s.lim.records)
    (hlen : recent.length < c.maxAttempts) :
    wp (recordAttempt w c method recent) (Reserved w c G) (fun _ => Within w c G)
      (Within w c G) s := by
  have hI : ∀ {s}, Counted w c G s → Within w c G s := fun h => ⟨h.toSteady, hbound⟩
  rw [recordAttempt, wp_bind]
  refine wp_mono (wp_safeClock stable_counted hs _ _) ?_ (fun _ _ h => hI h) (fun _ h => hI h)
  rintro wall s₁ ⟨hs₁, rfl, hwall, rfl⟩
  rw [wp_bind]
  refine wp_mono (wp_safeClock stable_counted hs₁ _ _) ?_ (fun _ _ h => hI h) (fun _ h => hI h)
  rintro mono s₂ ⟨hs₂, rfl, hmono, rfl⟩
  rw [wp_bind, wp_nextTick, wp_bind, wp_getLim, wp_bind, wp_modifyLim, wp_tryCatch, wp_bind]
  have hs₃ := stable_counted s (s.tick + 1 + 1 + 1) (by omega) hs
  have hlive₃ := (liveNow_sublist (w := w) (c := c) (G := G)
    (show s.tick ≤ s.tick + 1 + 1 + 1 by omega)).subperm.trans hlive
  have hcap : recent.length < maxRecords := hlen.trans_le c.maxAttempts_le
  -- Fewer than `maxAttempts` reservations are live when the new one is recorded.
  have hfew : (live c.windowSeconds (w.mono (s.tick + 1)) G).length < c.maxAttempts := by
    have hle := ((liveNow_sublist (w := w) (c := c) (G := G) (Nat.le_succ s.tick)).subperm.trans
      hlive).length_le
    rw [sameBoot, length_map] at hle
    exact (hle.trans (length_filter_le _ _)).trans_lt hlen
  have hnew := hs₃.saved_withAttempt
    (e := ⟨w.uuid (s.tick + 1 + 1), w.wall s.tick, w.mono (s.tick + 1), c.bootId, method⟩)
    hlive₃ hsub hcap rfl (w.mono_monotone (show s.tick + 1 ≤ s.tick + 1 + 1 + 1 by omega))
    fun hb => validateRecord_ok.2 ⟨w.uuid_ne _, hm, hb, hwall, hmono⟩
  refine wp_mono (wp_saveLocked stable_within stable_within (fun _ h => Within.of_cons h)
    ⟨hs₃.toSteady.withLim nofun, hbound⟩ ⟨hnew.toSteady, hbound.cons hfew⟩) ?_ ?_ (fun _ h => h)
  · rintro _ s' ⟨h, hlim⟩
    have hlim' : s'.lim = withAttempt
        ⟨w.uuid (s.tick + 1 + 1), w.wall s.tick, w.mono (s.tick + 1), c.bootId, method⟩ recent
        s.lim := hlim
    have ht := reservedTime_withAttempt (l := s.lim) (n := recent.length + 1) "reserved"
      (w.uuid (s.tick + 1 + 1)) (w.wall s.tick) (w.mono (s.tick + 1)) c.bootId method hcap
    rw [← hlim'] at ht
    change Within w c (reservedTime
      ⟨true, "reserved", some (w.uuid (s.tick + 1 + 1)), recent.length + 1⟩ s'.lim ++ G) s'
    rw [ht]
    exact h
  · rintro _ s' ⟨h, -⟩
    have hk : Keeps (Within w c G) (modifyLim fun l =>
        { l with records := s.lim.records, totalAttempts := s.lim.totalAttempts }) :=
      keeps_modifyLim fun s hs => ⟨hs.toSteady.withLim hs.quarantine, hs.bounded⟩
    rw [wp_bind]
    refine wp_mono (hk s' h) (fun _ s₄ h₄ => ?_) (fun _ _ h => h) (fun _ h => h)
    rw [wp_bind]
    exact wp_mono (keeps_failClosedLocked robust_within _ s₄ h₄) (fun _ _ h => h) (fun _ _ h => h)
      (fun _ h => h)

/-- A quarantine for its own boot id that is over leaves nothing to list. -/
theorem Loaded.counted (h : Loaded w c G s) (hnow : now ≤ w.mono s.tick)
    (hb : s.lim.blockedUntilMonotonic ≤ now) : Counted w c G s := by
  rcases h with h | h
  · exact h
  · have hnil : liveNow w c G s = [] := eq_nil_iff_forall_not_mem.2 fun t ht => by
      have hlive := (mem_live.1 ht).2
      have hblocked := h.blocked t ht
      linarith
    refine ⟨h.toSound, ?_⟩
    rw [hnil]
    exact nil_subperm

theorem wp_reserveLocked (hc : 1 ≤ c.maxAttempts) {method : String} (hm : method ≠ "")
    (hs : Within w c G s) :
    wp (reserveLocked w c method) (Reserved w c G) (fun _ => Within w c G) (Within w c G) s := by
  have hI : ∀ {s}, Steady w c G s → Within w c G s := fun h => ⟨h, hs.bounded⟩
  rw [reserveLocked, wp_bind]
  refine wp_mono (wp_reloadForTransactionLocked hs.toSteady) (fun _ s₁ h₁ => ?_)
    (fun _ _ h => hI h) (fun _ h => hI h)
  rw [wp_bind]
  refine wp_mono (wp_safeClock stable_loaded h₁ _ _) ?_ (fun _ _ h => hI h.steady)
    (fun _ h => hI h.steady)
  rintro now s₂ ⟨h₂, rfl, -, rfl⟩
  have hnow : w.mono s₁.tick ≤ w.mono (s₁.tick + 1) := w.mono_monotone (Nat.le_succ _)
  have h₃ := expires_loaded _ _ h₂ hnow
  rw [wp_bind, expireQuarantineLocked, wp_bind, Option.elim_some, wp_pure, wp_modifyLim, wp_bind,
    wp_getLim, wp_ite]
  split_ifs with hblocked
  · rw [wp_bind]
    refine wp_mono (wp_persistQuarantineLocked h₃) (fun _ s₄ h₄ => ?_) (fun _ _ h => hI h)
      (fun _ h => hI h)
    rw [wp_bind]
    exact wp_mono (keeps_recentLocked stable_within robust_within.expires true s₄ (hI h₄.steady))
      (fun _ _ h => h) (fun _ _ h => h) (fun _ h => h)
  · rw [wp_bind]
    refine wp_mono (wp_recentLocked_counted (h₃.counted hnow (not_lt.1 hblocked)) false) ?_
      (fun _ _ h => hI h.toSteady) (fun _ h => hI h.toSteady)
    rintro ⟨recent, uncertain⟩ s₄ ⟨h₄, hlive, hsub⟩
    rw [wp_ite]
    split_ifs with hu hr
    · rw [wp_bind]
      refine wp_mono (keeps_failClosedLocked robust_counted _ _ h₄) (fun _ s₅ h₅ => ?_)
        (fun _ _ h => hI h.toSteady) (fun _ h => hI h.toSteady)
      rw [wp_bind]
      exact wp_mono (wp_persistQuarantineLocked (.inl h₅)) (fun _ _ h => hI h.steady) (fun _ _ h => hI h)
        (fun _ h => hI h)
    · exact hI h₄.toSteady
    · exact wp_recordAttempt h₄ hs.bounded hm hlive hsub
        (not_le.1 fun hle => hr ⟨hc, hle⟩)

theorem wp_reserve (hc : 1 ≤ c.maxAttempts) (method : String) (hs : Within w c G s) :
    wp (reserve w c method) (Reserved w c G) (fun _ => Within w c G) (Within w c G) s := by
  rw [reserve, wp_ite]
  split_ifs with hm
  · exact hs
  rw [wp_tryCatch]
  refine wp_mono (wp_stateFileLock stable_within stable_reserved (fun _ _ h => h.within)
    (fun s hs => wp_reserveLocked hc (fun h => hm (.inl h)) hs) hs) (fun _ _ h => h)
    (fun _ s' h => ?_) (fun _ h => h)
  rw [wp_bind]
  exact wp_mono (keeps_failClosedLocked robust_within _ s' h) (fun _ _ h => h) (fun _ _ h => h)
    (fun _ h => h)

/-! ## The limiters of one state file -/

/-- The calls of a limiter's users. -/
inductive Call
  | construct
  | reserve (method : String)
  | setMetadata (key : String) (value : Option String)
  | status
  | recentAttempts

/-- Run a call; what it returns, if it is a reservation. -/
def Call.run (w : World) (c : Config) : Call → LProg (Option ResetReservation)
  | .construct => do
    load w c
    pure none
  | .reserve method => do
    let r ← Recovery.reserve w c method
    pure (some r)
  | .setMetadata key value => do
    let _ ← Recovery.setMetadata w c key value
    pure none
  | .status => do
    let _ ← Recovery.status w c
    pure none
  | .recentAttempts => do
    let _ ← Recovery.recentAttempts w c
    pure none

/-- The state file, the limiters there are, and the monotonic times recorded
    with the reservations allowed so far. -/
structure Shared where
  file : StateFile
  tick : ℕ
  limiters : ℕ → Option Limiter
  granted : List ℚ

/-- The state after a call of the limiter `l` ended with `r`, leaving `s'`. A
    constructor that raises makes no limiter, nor does a call that is killed leave one. -/
def Shared.after (s : Shared) (l : ℕ) (call : Call)
    (out : Res Error (Option ResetReservation) × Session) : Shared :=
  let rest (lim : Option Limiter) (times : List ℚ) : Shared :=
    { file := out.2.file
      tick := out.2.tick
      limiters := Function.update s.limiters l lim
      granted := times ++ s.granted }
  match out.1, call with
  | .ok r, _ => rest (some out.2.lim) (r.elim [] fun r => reservedTime r out.2.lim)
  | .raised _, .construct => rest none []
  | .raised _, _ => rest (some out.2.lim) []
  | .halted, _ => rest none []

/-- What may happen: a call of a limiter, or the end of one with its process. -/
inductive Event
  | call (l : ℕ) (call : Call)
  | exit (l : ℕ)

/-- The limiter a call runs on: a new one, for the constructor. -/
def Shared.target (s : Shared) (l : ℕ) : Call → Option Limiter
  | .construct => some {}
  | _ => s.limiters l

/-- The state after an event, if it can happen. -/
def Shared.next (w : World) (c : Config) (s : Shared) : Event → Option Shared
  | .call l call => (s.target l call).map fun lim =>
      s.after l call (call.run w c ⟨s.file, s.tick, lim⟩)
  | .exit l => some { s with limiters := Function.update s.limiters l none }

/-- One state file, of any contents, and the limiters that come to share it. -/
def sharing (w : World) (c : Config) : Transition Shared Event :=
  .ofNext (fun s => (∀ l, s.limiters l = none) ∧ s.granted = []) (Shared.next w c)

/-- A program that keeps what is known between the operations, and returns no reservation. -/
theorem wp_none {β : Type} {x : LProg β} (hx : Keeps (Steady w c G) x) (hs : Within w c G s) :
    wp (do let _ ← x; pure (none : Option ResetReservation))
      (fun r s' => Within w c (r.elim [] (reservedTime · s'.lim) ++ G) s')
      (fun _ => Within w c G) (Within w c G) s := by
  rw [wp_bind]
  exact wp_mono (hx s hs.toSteady) (fun _ _ h => ⟨h, hs.bounded⟩) (fun _ _ h => ⟨h, hs.bounded⟩)
    (fun _ h => ⟨h, hs.bounded⟩)

theorem wp_run (hc : 1 ≤ c.maxAttempts) (call : Call) (hs : Within w c G s) :
    wp (call.run w c) (fun r s' => Within w c (r.elim [] (reservedTime · s'.lim) ++ G) s')
      (fun _ => Within w c G) (Within w c G) s := by
  cases call with
  | construct => exact wp_none keeps_load hs
  | reserve method =>
    rw [Call.run, wp_bind]
    exact wp_mono (wp_reserve hc method hs) (fun _ _ h => h) (fun _ _ h => h) (fun _ h => h)
  | setMetadata key value => exact wp_none (keeps_setMetadata key value) hs
  | status => exact wp_none keeps_status hs
  | recentAttempts => exact wp_none keeps_recentAttempts hs

/-- What holds between the calls, for each limiter there is and for a new one. -/
def Accounted (w : World) (c : Config) (s : Shared) : Prop :=
  ∀ lim : Limiter, lim = {} ∨ (∃ l, s.limiters l = some lim) →
    Within w c s.granted ⟨s.file, s.tick, lim⟩

/-- One call leaves what the others hold as it is. -/
theorem Accounted.update {s : Shared} (h : Accounted w c s) {l : ℕ} {file : StateFile} {n : ℕ}
    {lim : Limiter} {new : Option Limiter} (times : List ℚ)
    (h' : Within w c (times ++ s.granted) ⟨file, n, lim⟩) (hnew : ∀ lim', new = some lim' → lim' = lim) :
    Accounted w c ⟨file, n, Function.update s.limiters l new, times ++ s.granted⟩ := by
  rintro lim' (rfl | ⟨l', hl'⟩)
  · exact ⟨h'.toSteady.withLim (l := {}) nofun, h'.bounded⟩
  · change Function.update s.limiters l new l' = some lim' at hl'
    rcases eq_or_ne l' l with rfl | hne
    · rw [Function.update_self] at hl'
      rw [hnew lim' hl']
      exact h'
    · rw [Function.update_of_ne hne] at hl'
      exact ⟨h'.toSteady.withLim (l := lim') (h lim' (.inr ⟨l', hl'⟩)).quarantine, h'.bounded⟩

theorem accounted_step (hc : 1 ≤ c.maxAttempts) {s s' : Shared} {e : Event}
    (h : Accounted w c s) (hstep : (sharing w c).step s e s') : Accounted w c s' := by
  cases e with
  | call l call =>
    obtain ⟨lim, htarget, rfl⟩ := Option.map_eq_some_iff.1 hstep
    have hlim : Within w c s.granted ⟨s.file, s.tick, lim⟩ := by
      refine h lim ?_
      cases call with
      | construct => exact .inl (Option.some.inj htarget).symm
      | _ => exact .inr ⟨l, htarget⟩
    have hrun := wp_run hc call hlim
    generalize hout : call.run w c ⟨s.file, s.tick, lim⟩ = out at *
    obtain ⟨r, s₁⟩ := out
    cases r with
    | ok r =>
      have hs₁ := wp_ok hrun hout
      exact h.update _ hs₁ fun _ h => (Option.some.inj h).symm
    | raised e =>
      have hs₁ := wp_raised hrun hout
      cases call with
      | construct => exact h.update [] hs₁ nofun
      | _ => exact h.update [] hs₁ fun _ h => (Option.some.inj h).symm
    | halted => exact h.update [] (wp_halted hrun hout) nofun
  | exit l =>
    cases hstep
    exact h.update [] (h {} (.inl rfl)) nofun

theorem accounted_init {s : Shared} (h : (sharing w c).init s) : Accounted w c s := by
  obtain ⟨hnone, hgranted⟩ := h
  rintro lim (rfl | ⟨l, hl⟩)
  · rw [hgranted]
    have hnil : ∀ n, live c.windowSeconds n ([] : List ℚ) = [] := fun _ => rfl
    refine ⟨⟨⟨nofun, fun _ _ _ => nil_subperm, fun _ => rfl, fun _ _ => rfl⟩, nofun⟩,
      bounded_nil⟩
  · rw [hnone l] at hl
    cases hl

/-- A world whose clocks tick along, in which the second write is killed once it is done. -/
def killedWorld : World where
  mono n := n
  wall n := 1000 + n
  uuid _ := "0123456789abcdef0123456789abcdef"
  lockFault _ := .none
  unlockFault _ := .none
  saveFault n := if n = 24 then .haltsAfter else .none
  mono_monotone _ _ h := Nat.cast_le.2 h
  uuid_ne _ := by decide

/-- Two attempts in a window of an hour. -/
def twoAnHour : Config := ⟨2, 3600, "c0ffee", by decide, by norm_num, by decide⟩

/-- A limiter is allowed one reset; a second one is killed in its next, which
    the file has recorded, so that a third refuses. -/
def killedRun : List Event :=
  [.call 0 .construct, .call 0 (.reserve "dtr"), .call 1 .construct, .call 1 (.reserve "dtr"),
    .call 2 .construct, .call 2 (.reserve "usb")]

end ReticulumPi.Recovery
