import Mathlib.Data.List.Induction
import ReticulumPi.Weather.Alerts

/-!
# The active alert is the worst one in force

What holds between the operations is that every alert of the history that is not
over is at most as severe as the active one, and that there is an active one if
there is such an alert. It holds at any later time as well, since an alert that is
over stays over, so that the operations can be taken apart: a header comes in,
and then the active alert is checked.

Two things go wrong. An alert whose purge time is the epoch itself counts as one
without a purge time, and stays active for ever. And a header that is already over
when it comes in, but takes over from an active alert that has run out unnoticed,
is reported in its place: the search for the next active alert only marks the one
that was active before.

* `Searched.look`: what the search knows after each alert it has looked at;
* `Holds.receive`, `Holds.checkExpired`: the invariant;
* `active_alert_worst`: the result.
-/

namespace ReticulumPi.Weather

variable {settings : Settings} {s s' : State} {a b : Alert} {now now' : ℚ}

/-- The purge time of the alert has passed. -/
def Alert.HasPassed (a : Alert) (now : ℚ) : Prop := ∃ purge ∈ a.purgeTs, purge < now

/-- The alert is in force. -/
def Alert.InForce (a : Alert) (now : ℚ) : Prop := ¬ a.HasPassed now

/-- An alert counts as over when its purge time has passed, unless that is the epoch. -/
theorem isOver_iff : a.IsOver now ↔ a.HasPassed now ∧ a.purgeTs ≠ some 0 := by
  constructor
  · rintro ⟨purge, hpurge, htruthy, hlt⟩
    rw [hpurge] at htruthy
    refine ⟨⟨purge, hpurge, hlt⟩, fun hzero => ?_⟩
    rw [hpurge, Option.some.injEq] at hzero
    rw [hzero] at htruthy
    cases htruthy
  · rintro ⟨⟨purge, hpurge, hlt⟩, hne⟩
    refine ⟨purge, hpurge, ?_, hlt⟩
    rw [hpurge] at hne ⊢
    exact decide_eq_true fun hzero => hne (congrArg some hzero)

theorem Alert.IsOver.mono (h : a.IsOver now) (hle : now ≤ now') : a.IsOver now' := by
  obtain ⟨purge, hpurge, htruthy, hlt⟩ := h
  exact ⟨purge, hpurge, htruthy, lt_of_lt_of_le hlt hle⟩

theorem Severity.rank_lt (severity : Severity) : severity.rank < 999 := by
  cases severity <;> decide

/-! ## The search for the next active alert -/

/-- What the search knows when it has looked at the alerts of the list. -/
structure Searched (now : ℚ) (marked : List ℕ) (l : List Alert) (found : Search) : Prop where
  marks : ∀ n, n ∈ found.2.2 ↔ n ∈ marked ∨ ∃ a ∈ l, a.number = n ∧ a.IsOver now
  best : ∀ a ∈ found.1,
    a ∈ l ∧ a.number ∉ marked ∧ ¬ a.IsOver now ∧ found.2.1 = a.severity.rank
  noBest : found.1 = none → found.2.1 = 999
  least : ∀ a ∈ l, a.number ∉ found.2.2 → found.2.1 ≤ a.severity.rank

variable {marked : List ℕ} {l : List Alert} {found : Search}

theorem Searched.start : Searched now marked [] (none, 999, marked) where
  marks _ := by simp
  best _ h := by cases h
  noBest _ := rfl
  least _ h := by cases h

theorem Searched.look (h : Searched now marked l found) (a : Alert) :
    Searched now marked (l ++ [a]) (look now found a) := by
  have hold : ∀ b ∈ found.1, b ∈ l ++ [a] ∧ b.number ∉ marked ∧ ¬ b.IsOver now ∧
      found.2.1 = b.severity.rank := fun b hb =>
    ⟨List.mem_append_left _ (h.best b hb).1, (h.best b hb).2⟩
  have hmarks : ∀ n, (n ∈ marked ∨ ∃ b ∈ l ++ [a], b.number = n ∧ b.IsOver now) ↔
      n ∈ found.2.2 ∨ a.number = n ∧ a.IsOver now := fun n => by
    rw [h.marks, or_assoc]
    simp only [List.mem_append, List.mem_singleton, or_and_right, exists_or, exists_eq_left]
  rw [Weather.look]
  split_ifs with hmarked hover hrank
  · refine ⟨fun n => ?_, hold, h.noBest, fun b hb hun => ?_⟩
    · rw [hmarks, iff_self_or]
      rintro ⟨rfl, -⟩
      exact hmarked
    · rcases List.mem_append.1 hb with hb | hb
      · exact h.least b hb hun
      · rw [List.mem_singleton.1 hb] at hun
        exact absurd hmarked hun
  · refine ⟨fun n => ?_, hold, h.noBest, fun b hb hun => ?_⟩
    · rw [hmarks, List.mem_append, List.mem_singleton, and_iff_left hover, eq_comm (a := n)]
    · rw [List.mem_append, not_or] at hun
      rcases List.mem_append.1 hb with hb | hb
      · exact h.least b hb hun.1
      · rw [List.mem_singleton.1 hb, List.mem_singleton] at hun
        exact absurd rfl hun.2
  · -- The alert is the best one so far.
    refine ⟨fun n => ?_, fun b hb => ?_, fun hnone => (by cases hnone), fun b hb hun => ?_⟩
    · rw [hmarks]
      exact (or_iff_left fun hn => hover hn.2).symm
    · cases hb
      refine ⟨List.mem_append_right _ (List.mem_singleton_self _), fun hm => ?_, hover, rfl⟩
      exact hmarked ((h.marks _).2 (.inl hm))
    · rcases List.mem_append.1 hb with hb | hb
      · exact hrank.le.trans (h.least b hb hun)
      · rw [List.mem_singleton.1 hb]
  · refine ⟨fun n => ?_, hold, h.noBest, fun b hb hun => ?_⟩
    · rw [hmarks]
      exact (or_iff_left fun hn => hover hn.2).symm
    · rcases List.mem_append.1 hb with hb | hb
      · exact h.least b hb hun
      · rw [List.mem_singleton.1 hb]
        exact not_lt.1 hrank

theorem searched (now : ℚ) (marked : List ℕ) (l : List Alert) :
    Searched now marked l (l.foldl (look now) (none, 999, marked)) := by
  induction l using List.reverseRecOn with
  | nil => exact .start
  | append_singleton l a ih =>
    rw [List.foldl_append]
    exact ih.look a

/-- When the search finds nothing, all alerts are marked. -/
theorem Searched.all_marked (h : Searched now marked l found) (hnone : found.1 = none)
    (ha : a ∈ l) : a.number ∈ found.2.2 := by
  by_contra hun
  have hle := h.least a ha hun
  rw [h.noBest hnone] at hle
  exact absurd a.severity.rank_lt (not_lt.2 hle)

/-! ## The check -/

/-- What a check leaves alone, and the times that it notes. -/
theorem checkExpired_frame (s : State) (now promote : ℚ) :
    (checkExpired s now promote).history = s.history ∧
      (checkExpired s now promote).headersDecoded = s.headersDecoded ∧
      (checkExpired s now promote).checked = now ∧
      (checkExpired s now promote).clock = promote := by
  rw [checkExpired]
  dsimp only
  split
  · exact ⟨rfl, rfl, rfl, rfl⟩
  · split_ifs
    all_goals exact ⟨rfl, rfl, rfl, rfl⟩

/-- What a check does: either the active alert, if any, is not over and nothing
    changes, or it is marked and reported and its successor is looked for. -/
inductive Checked (s : State) (now promote : ℚ) (s' : State) : Prop
  | keeps (lasts : ∀ a ∈ s.active, ¬ a.IsOver now) (active : s'.active = s.active)
      (expired : s'.expired = s.expired) (published : s'.published = s.published)
  | expires (a : Alert) (active : s.active = some a) (ended : a.IsOver now)
      (published : s'.published = s.published ++ [.expired a])
      (search : Searched promote (s.expired ++ [a.number]) s.history
        (s'.active, ((s'.active.map (·.severity.rank)).getD 999), s'.expired))

theorem checked (s : State) (now promote : ℚ) :
    Checked s now promote (checkExpired s now promote) := by
  rcases hactive : s.active with _ | a
  · have heq : checkExpired s now promote = { s with
        seenHeaders := s.seenHeaders.filter (now - 300 < ·), checked := now, clock := promote } := by
      rw [checkExpired]
      dsimp only
      rw [hactive]
    rw [heq]
    refine .keeps (fun a ha => ?_) rfl rfl rfl
    rw [hactive] at ha
    cases ha
  · by_cases hover : a.IsOver now
    · have heq : checkExpired s now promote = promoteNextActive { s with
          seenHeaders := s.seenHeaders.filter (now - 300 < ·), checked := now, clock := promote,
          expired := s.expired ++ [a.number], published := s.published ++ [.expired a],
          active := none } promote := by
        rw [checkExpired]
        dsimp only
        rw [hactive]
        exact if_pos hover
      rw [heq]
      refine .expires a hactive hover rfl ?_
      have hsearch := searched promote (s.expired ++ [a.number]) s.history
      have hrank : ∀ found : Search, Searched promote (s.expired ++ [a.number]) s.history found →
          found.2.1 = (found.1.map (·.severity.rank)).getD 999 := by
        rintro ⟨_ | b, rank, marked⟩ h
        · exact h.noBest rfl
        · exact (h.best b rfl).2.2.2
      rw [promoteNextActive]
      dsimp only
      rw [← hrank _ hsearch]
      exact hsearch
    · have heq : checkExpired s now promote = { s with
          seenHeaders := s.seenHeaders.filter (now - 300 < ·), checked := now,
          clock := promote } := by
        rw [checkExpired]
        dsimp only
        rw [hactive]
        exact if_neg hover
      rw [heq]
      refine .keeps (fun b hb => ?_) rfl rfl rfl
      rw [hactive] at hb
      exact Option.some.inj hb ▸ hover

/-! ## The invariant -/

/-- The alert is in the history, or it is the active one. -/
def State.Knows (s : State) (a : Alert) : Prop := a ∈ s.history ∨ s.active = some a

/-- What holds between the operations, and at any time until the next one. -/
structure Holds (s : State) (now : ℚ) : Prop where
  numbers : ∀ a, s.Knows a → a.number < s.headersDecoded
  marks : ∀ n ∈ s.expired, n < s.headersDecoded
  distinct : ∀ a b, s.Knows a → s.Knows b → a.number = b.number → a = b
  ended : ∀ a, s.Knows a → a.number ∈ s.expired → a.IsOver now
  unmarked : ∀ a ∈ s.active, a.number ∉ s.expired
  worst : ∀ a ∈ s.active, ∀ b ∈ s.history, ¬ b.IsOver now → a.severity.rank ≤ b.severity.rank
  idle : s.active = none → ∀ b ∈ s.history, b.IsOver now
  reported : ∀ a, .expired a ∈ s.published → a.number ∈ s.expired
  once : ∀ a, s.published.count (.expired a) ≤ 1

theorem Holds.mono (h : Holds s now) (hle : now ≤ now') : Holds s now' where
  numbers := h.numbers
  marks := h.marks
  distinct := h.distinct
  ended a ha hm := (h.ended a ha hm).mono hle
  unmarked := h.unmarked
  worst a ha b hb hover := h.worst a ha b hb fun hb' => hover (hb'.mono hle)
  idle hnone b hb := (h.idle hnone b hb).mono hle
  reported := h.reported
  once := h.once

variable {h : Header} {t : Readings}

theorem number_alertOf : (alertOf s h t).number = s.headersDecoded := rfl

theorem mem_receive_history (hb : b ∈ (receive settings s h t).history) :
    b = alertOf s h t ∨ b ∈ s.history :=
  List.mem_cons.1 (List.mem_of_mem_take hb)

/-- An alert that is known after a header was so before, or is the header's. -/
theorem knows_receive (hb : (receive settings s h t).Knows b) : b = alertOf s h t ∨ s.Knows b := by
  rcases hb with hb | hb
  · exact (mem_receive_history hb).imp_right .inl
  · change (if s.TakenOver (alertOf s h t) then _ else _) = some b at hb
    split_ifs at hb
    · exact .inl (Option.some.inj hb).symm
    · exact .inr (.inr hb)

theorem Holds.receive (hs : Holds s now) : Holds (receive settings s h t) now := by
  have hfresh : ∀ b, s.Knows b → b.number ≠ s.headersDecoded := fun b hb =>
    (hs.numbers b hb).ne
  have hunmarked : s.headersDecoded ∉ s.expired := fun hm => (hs.marks _ hm).false
  refine ⟨fun b hb => ?_, fun n hn => (hs.marks n hn).trans (Nat.lt_succ_self _), ?_, ?_, ?_, ?_,
    ?_, hs.reported, hs.once⟩
  · rcases knows_receive hb with rfl | hb
    · exact Nat.lt_succ_self _
    · exact (hs.numbers b hb).trans (Nat.lt_succ_self _)
  · intro b c hb hc heq
    rcases knows_receive hb with rfl | hb
    · rcases knows_receive hc with rfl | hc
      · rfl
      · exact absurd heq.symm (hfresh c hc)
    · rcases knows_receive hc with rfl | hc
      · exact absurd heq (hfresh b hb)
      · exact hs.distinct b c hb hc heq
  · intro b hb hm
    rcases knows_receive hb with rfl | hb
    · exact absurd hm hunmarked
    · exact hs.ended b hb hm
  · intro b hb hm
    change (if s.TakenOver (alertOf s h t) then _ else _) = some b at hb
    split_ifs at hb with htaken
    · rw [← Option.some.inj hb] at hm
      exact hunmarked hm
    · exact hs.unmarked b hb hm
  · intro b hb c hc hover
    change (if s.TakenOver (alertOf s h t) then _ else _) = some b at hb
    split_ifs at hb with htaken
    · cases hb
      rcases mem_receive_history hc with rfl | hc
      · exact le_rfl
      · rcases hactive : s.active with _ | a
        · exact absurd (hs.idle hactive c hc) hover
        · exact (htaken a hactive).trans (hs.worst a hactive c hc hover)
    · rcases mem_receive_history hc with rfl | hc
      · -- It did not take over: the active alert is more severe.
        by_contra hlt
        refine htaken fun a ha => ?_
        rw [hb] at ha
        exact Option.some.inj ha ▸ (not_le.1 hlt).le
      · exact hs.worst b hb c hc hover
  · intro hnone
    change (if s.TakenOver (alertOf s h t) then _ else _) = none at hnone
    split_ifs at hnone with htaken
    exact absurd (fun a ha => by rw [hnone] at ha; cases ha) htaken

variable {promote : ℚ}

theorem Holds.checkExpired (hs : Holds s now) (hle : now ≤ promote) :
    Holds (checkExpired s now promote) promote := by
  obtain ⟨hhistory, hcount, -, -⟩ := checkExpired_frame s now promote
  rcases checked s now promote with ⟨-, hactive, hexpired, hpublished⟩ |
    ⟨a, hactive, hover, hpublished, hsearch⟩
  · have hs := hs.mono hle
    have hknows : ∀ b, (Weather.checkExpired s now promote).Knows b ↔ s.Knows b := fun b => by
      rw [State.Knows, State.Knows, hhistory, hactive]
    refine ⟨?_, ?_, ?_, ?_, ?_, ?_, ?_, ?_, ?_⟩
    · simpa only [hknows, hcount] using hs.numbers
    · simpa only [hexpired, hcount] using hs.marks
    · simpa only [hknows] using hs.distinct
    · simpa only [hknows, hexpired] using hs.ended
    · simpa only [hactive, hexpired] using hs.unmarked
    · simpa only [hactive, hhistory] using hs.worst
    · simpa only [hactive, hhistory] using hs.idle
    · simpa only [hpublished, hexpired] using hs.reported
    · simpa only [hpublished] using hs.once
  · generalize hs' : Weather.checkExpired s now promote = s' at *
    -- The next active alert comes from the history.
    have hbest := hsearch.best
    have hmarks := hsearch.marks
    dsimp only at hbest hmarks
    have hknows : ∀ b, s'.Knows b → b ∈ s.history := fun b hb => by
      rcases hb with hb | hb
      · rwa [hhistory] at hb
      · exact (hbest b hb).1
    have hmarked : ∀ n, n ∈ s'.expired ↔
        n ∈ s.expired ∨ n = a.number ∨ ∃ b ∈ s.history, b.number = n ∧ b.IsOver promote :=
      fun n => by rw [hmarks, List.mem_append, List.mem_singleton, or_assoc]
    have hover' : ∀ b ∈ s.history, b.number ∈ s'.expired → b.IsOver promote := fun b hb hm => by
      rcases (hmarked _).1 hm with hm | hm | ⟨c, hc, heq, hc'⟩
      · exact (hs.ended b (.inl hb) hm).mono hle
      · rw [hs.distinct b a (.inl hb) (.inr hactive) hm]
        exact hover.mono hle
      · rwa [hs.distinct b c (.inl hb) (.inl hc) heq.symm]
    refine ⟨fun b hb => ?_, fun n hn => ?_, fun b c hb hc => ?_, ?_, ?_, ?_, ?_, ?_, ?_⟩
    · rw [hcount]
      exact hs.numbers b (.inl (hknows b hb))
    · rw [hcount]
      rcases (hmarked n).1 hn with hm | rfl | ⟨b, hb, rfl, -⟩
      · exact hs.marks n hm
      · exact hs.numbers a (.inr hactive)
      · exact hs.numbers b (.inl hb)
    · exact hs.distinct b c (.inl (hknows b hb)) (.inl (hknows c hc))
    · exact fun b hb => hover' b (hknows b hb)
    · exact fun b hb hm => (hbest b hb).2.2.1 (hover' b (hbest b hb).1 hm)
    · intro b hb c hc hover
      rw [hhistory] at hc
      have hleast := hsearch.least c hc fun hm => hover (hover' c hc hm)
      rw [hb] at hleast
      exact hleast
    · intro hnone b hb
      rw [hhistory] at hb
      exact hover' b hb (hsearch.all_marked hnone hb)
    · intro b hb
      rw [hpublished, List.mem_append, List.mem_singleton, Event.expired.injEq] at hb
      rw [hmarked]
      rcases hb with hb | rfl
      · exact .inl (hs.reported b hb)
      · exact .inr (.inl rfl)
    · intro b
      rw [hpublished, List.count_append, List.count_singleton]
      split_ifs with heq
      · -- It was not marked, and thus not reported before.
        obtain rfl : a = b := by simpa using heq
        have hnot : .expired a ∉ s.published := fun hm => hs.unmarked a hactive (hs.reported a hm)
        rw [List.count_eq_zero.2 hnot]
      · exact hs.once b

/-! ## Headers -/

theorem count_announcements (a b : Alert) :
    (announcements settings a).count (.expired b) = 0 := by
  rw [List.count_eq_zero, announcements]
  split_ifs <;> simp

theorem Op.Ordered.header {t : Readings} (ho : (Op.header h t).Ordered s) :
    s.clock ≤ t.check ∧ t.check ≤ t.promote := by
  simp only [Op.Ordered, List.isChain_cons_cons] at ho
  obtain ⟨hparse, harrival, hcount, hcheck, hpromote, -⟩ := ho
  exact ⟨((hparse.trans harrival).trans hcount).trans hcheck, hpromote⟩

theorem Op.Ordered.check (ho : (Op.check now promote).Ordered s) :
    s.clock ≤ now ∧ now ≤ promote := by
  simp only [Op.Ordered, List.isChain_cons_cons] at ho
  exact ⟨ho.1, ho.2.1⟩

theorem handleSameHeader_of_concerns (hc : h.Concerns settings) :
    handleSameHeader settings s h t =
      { checkExpired (receive settings s h t) t.check t.promote with
        published := (checkExpired (receive settings s h t) t.check t.promote).published ++
          announcements settings (alertOf s h t) } :=
  if_pos hc

theorem Holds.announce (hs : Holds s now) (a : Alert) :
    Holds { s with published := s.published ++ announcements settings a } now where
  numbers := hs.numbers
  marks := hs.marks
  distinct := hs.distinct
  ended := hs.ended
  unmarked := hs.unmarked
  worst := hs.worst
  idle := hs.idle
  reported b hb := by
    rcases List.mem_append.1 hb with hb | hb
    · exact hs.reported b hb
    · exact absurd (count_announcements a b) (List.count_pos_iff.2 hb).ne'
  once b := by
    rw [List.count_append, count_announcements]
    exact hs.once b

/-- The invariant, with what the last check has found. -/
def Invariant (s : State) : Prop :=
  Holds s s.clock ∧ s.checked ≤ s.clock ∧ ∀ a ∈ s.active, ¬ a.IsOver s.checked

theorem invariant_checkExpired (hs : Holds s now) (hle : now ≤ promote) :
    Invariant (checkExpired s now promote) := by
  obtain ⟨-, -, hchecked, hclock⟩ := checkExpired_frame s now promote
  rw [Invariant, hchecked, hclock]
  refine ⟨hs.checkExpired hle, hle, fun a ha => ?_⟩
  rcases checked s now promote with ⟨hover, hactive, -, -⟩ | ⟨b, -, -, -, hsearch⟩
  · rw [hactive] at ha
    exact hover a ha
  · exact fun hover => (hsearch.best a ha).2.2.1 (hover.mono hle)

theorem Invariant.apply (hs : Invariant s) {op : Op} (ho : op.Ordered s) :
    Invariant (apply settings s op) := by
  rcases op with ⟨h, t⟩ | ⟨now, promote⟩
  · change Invariant (handleSameHeader settings s h t)
    by_cases hc : h.Concerns settings
    · rw [handleSameHeader_of_concerns hc]
      obtain ⟨hheld, hle, hover⟩ :=
        invariant_checkExpired (hs.1.receive.mono ho.header.1) ho.header.2
      exact ⟨hheld.announce _, hle, hover⟩
    · rw [handleSameHeader, if_neg hc]
      exact hs
  · exact invariant_checkExpired (hs.1.mono ho.check.1) ho.check.2

theorem step_eq {op : Op} (h : (monitor settings).step s op s') :
    op.Ordered s ∧ apply settings s op = s' := by
  obtain ⟨ho, heq⟩ := Option.ite_none_right_eq_some.1 h
  exact ⟨ho, Option.some.inj heq⟩

theorem invariant (h : (monitor settings).Reachable s) : Invariant s := by
  refine h.induction ?_ ?_
  · rintro s ⟨start, rfl⟩
    refine ⟨⟨?_, ?_, ?_, ?_, ?_, ?_, ?_, ?_, ?_⟩, le_rfl, ?_⟩ <;> simp [State.Knows]
  · intro s op s' hs _ hstep
    obtain ⟨ho, rfl⟩ := step_eq hstep
    exact hs.apply ho

/-! ## Alerts that run out -/

/-- The alert is the active one when the operation begins, or it is received in it
    and becomes active. -/
def ActiveIn (settings : Settings) (s : State) (op : Op) (a : Alert) : Prop :=
  s.active = some a ∨ ∃ h t, op = .header h t ∧ h.Concerns settings ∧
    (receive settings s h t).active = some a

/-- An alert that is already over takes the place of the active one. -/
def Overtaken (settings : Settings) (s : State) (op : Op) (a : Alert) : Prop :=
  ∃ h t, op = .header h t ∧ h.Concerns settings ∧ s.active = some a ∧
    (alertOf s h t).severity.rank ≤ a.severity.rank ∧ (alertOf s h t).IsOver t.check

/-- The alert that is active at a check is reported if it is marked. -/
theorem count_checkExpired (hs : Holds s now) (hactive : s.active = some a)
    (hm : a.number ∈ (checkExpired s now promote).expired) :
    (checkExpired s now promote).published.count (.expired a) = 1 := by
  have hnot : .expired a ∉ s.published := fun h => hs.unmarked a hactive (hs.reported a h)
  rcases checked s now promote with ⟨-, -, hexpired, -⟩ | ⟨b, hb, -, hpublished, -⟩
  · rw [hexpired] at hm
    exact absurd hm (hs.unmarked a hactive)
  · rw [hactive, Option.some.injEq] at hb
    rw [hpublished, ← hb, List.count_append, List.count_eq_zero.2 hnot]
    simp

/-- The active alert of a state is the only one that a check reports. -/
theorem count_checkExpired_of_ne (hne : s.active ≠ some a) :
    (checkExpired s now promote).published.count (.expired a) =
      s.published.count (.expired a) := by
  rcases checked s now promote with ⟨-, -, -, hpublished⟩ | ⟨b, hb, -, hpublished, -⟩
  · rw [hpublished]
  · rw [hpublished, List.count_append, List.count_singleton, if_neg, add_zero]
    intro heq
    obtain rfl : b = a := by simpa using heq
    exact hne hb

theorem expired_subset_checkExpired (s : State) (now promote : ℚ) :
    s.expired ⊆ (checkExpired s now promote).expired := fun n hn => by
  rcases checked s now promote with ⟨-, -, hexpired, -⟩ | ⟨a, -, -, -, hsearch⟩
  · rwa [hexpired]
  · exact (hsearch.marks n).2 (.inl (List.mem_append_left _ hn))

theorem expired_subset_apply (op : Op) : s.expired ⊆ (apply settings s op).expired := by
  rcases op with ⟨h, t⟩ | ⟨now, promote⟩
  · change s.expired ⊆ (handleSameHeader settings s h t).expired
    by_cases hc : h.Concerns settings
    · rw [handleSameHeader_of_concerns hc]
      exact expired_subset_checkExpired (receive settings s h t) t.check t.promote
    · rw [handleSameHeader, if_neg hc]
      exact List.Subset.refl _
  · exact expired_subset_checkExpired s now promote

/-- An alert that was active and is marked in the operation is reported unless an
    alert that is over took its place. -/
theorem reported_iff (hs : Holds s s.clock) {op : Op} (ho : op.Ordered s)
    (hactive : ActiveIn settings s op a) (hm : a.number ∈ (apply settings s op).expired) :
    (apply settings s op).published.count (.expired a) = 1 ↔ ¬ Overtaken settings s op a := by
  rcases op with ⟨h, t⟩ | ⟨now, promote⟩
  · change a.number ∈ (handleSameHeader settings s h t).expired at hm
    change (handleSameHeader settings s h t).published.count _ = 1 ↔ _
    by_cases hc : h.Concerns settings
    · rw [handleSameHeader_of_concerns hc] at hm ⊢
      rw [List.count_append, count_announcements, add_zero]
      have hr : Holds (receive settings s h t) t.check := hs.receive.mono ho.header.1
      by_cases hstays : (receive settings s h t).active = some a
      · refine iff_of_true (count_checkExpired hr hstays hm) ?_
        -- It would be the new alert, or the new one would have taken its place.
        rintro ⟨h', t', heq, -, hold, hrank, -⟩
        obtain ⟨rfl, rfl⟩ := Op.header.inj heq
        have htaken : s.TakenOver (alertOf s h t) := fun b hb => by
          rw [hold] at hb
          exact Option.some.inj hb ▸ hrank
        change (if s.TakenOver (alertOf s h t) then _ else _) = some a at hstays
        rw [if_pos htaken, Option.some.injEq] at hstays
        exact (hs.numbers a (.inr hold)).ne (hstays ▸ number_alertOf)
      · have hold : s.active = some a := by
          rcases hactive with hactive | ⟨h', t', heq, -, hactive⟩
          · exact hactive
          · obtain ⟨rfl, rfl⟩ := Op.header.inj heq
            exact absurd hactive hstays
        have hnot : .expired a ∉ s.published := fun hp => hs.unmarked a hold (hs.reported a hp)
        rw [count_checkExpired_of_ne hstays]
        refine iff_of_false ?_ (not_not.2 ?_)
        · change ¬ s.published.count _ = 1
          rw [List.count_eq_zero.2 hnot]
          exact Nat.zero_ne_one
        · have htaken : s.TakenOver (alertOf s h t) := by
            by_contra hne
            refine hstays ?_
            change (if s.TakenOver (alertOf s h t) then _ else _) = some a
            rwa [if_neg hne]
          refine ⟨h, t, rfl, hc, hold, htaken a hold, ?_⟩
          rcases checked (receive settings s h t) t.check t.promote with
            ⟨-, -, hexpired, -⟩ | ⟨b, hb, hover, -, -⟩
          · rw [hexpired] at hm
            exact absurd hm (hs.unmarked a hold)
          · change (if s.TakenOver (alertOf s h t) then _ else _) = some b at hb
            rw [if_pos htaken, Option.some.injEq] at hb
            rwa [hb]
    · rw [handleSameHeader, if_neg hc] at hm
      rcases hactive with hactive | ⟨h', t', heq, hc', -⟩
      · exact absurd hm (hs.unmarked a hactive)
      · obtain ⟨rfl, rfl⟩ := Op.header.inj heq
        exact absurd hc' hc
  · rcases hactive with hactive | ⟨h, t, heq, -⟩
    · refine iff_of_true (count_checkExpired (hs.mono ho.check.1) hactive hm) ?_
      rintro ⟨h, t, heq, -⟩
      cases heq
    · cases heq

/-- In every state that is reached: the active alert is not marked as expired, its
    purge time had not passed at the last check unless that is the epoch, and no
    alert of the history in force is more severe; without an active alert none is
    in force; no alert is reported twice. And in every operation from there: marks
    stay, and an alert that was active and is marked is reported, exactly when no
    alert that was already over took its place. -/
theorem active_alert_worst (settings : Settings) (s : State)
    (h : (monitor settings).Reachable s) :
    (∀ a ∈ s.active, a.number ∉ s.expired ∧
      (¬ a.HasPassed s.checked ↔ ¬ (a.purgeTs = some 0 ∧ 0 < s.checked)) ∧
      ∀ b ∈ s.history, b.InForce s.clock → a.severity.rank ≤ b.severity.rank) ∧
    (s.active = none → ∀ b ∈ s.history, ¬ b.InForce s.clock) ∧
    (∀ a, s.published.count (.expired a) ≤ 1) ∧
    ∀ op s', (monitor settings).step s op s' → s.expired ⊆ s'.expired ∧
      ∀ a, ActiveIn settings s op a → a.number ∈ s'.expired →
        (s'.published.count (.expired a) = 1 ↔ ¬ Overtaken settings s op a) := by
  obtain ⟨hs, -, hover⟩ := invariant h
  refine ⟨fun a ha => ⟨hs.unmarked a ha, ?_, fun b hb hforce => ?_⟩, fun hnone b hb => ?_,
    hs.once, fun op s' hstep => ?_⟩
  · have hnot := hover a ha
    rw [isOver_iff, not_and, not_not] at hnot
    rw [not_iff_not]
    constructor
    · intro hpassed
      obtain ⟨purge, hpurge, hlt⟩ := id hpassed
      have hzero := hnot hpassed
      rw [hpurge, Option.some.injEq] at hzero
      rw [hzero] at hlt
      exact ⟨hnot hpassed, by exact_mod_cast hlt⟩
    · exact fun hzero => ⟨0, hzero.1, by exact_mod_cast hzero.2⟩
  · exact hs.worst a ha b hb fun hb' => hforce (isOver_iff.1 hb').1
  · exact not_not.2 (isOver_iff.1 (hs.idle hnone b hb)).1
  · obtain ⟨ho, rfl⟩ := step_eq hstep
    exact ⟨expired_subset_apply op, fun a hactive hm => reported_iff hs ho hactive hm⟩

/-- A warning of the National Weather Service with the given times. -/
def warning (event : String) (issued purge : List (Fin 10)) : Header :=
  { org := "WXR", event, fips := "029095", purge, issued, callsign := "KEAX/NWS"
    raw := event }

/-- Clock readings that are all the same. -/
def Readings.at (now : ℚ) : Readings := ⟨now, now, now, now, now⟩

/-- The beginning of the year 2025. -/
def newYear : ℚ := 1735689600

/-- A tornado warning of fifteen minutes. -/
def tornado : Op := .header (warning "TOR" [0, 0, 1, 0, 0, 0, 0] [0, 0, 1, 5]) (.at (newYear + 60))

/-- A wind warning of five minutes that was issued with it and comes in when both
    are over. -/
def lateWind : Op :=
  .header (warning "EWW" [0, 0, 1, 0, 0, 0, 0] [0, 0, 0, 5]) (.at (newYear + 910))

/-- A check finds that the tornado warning is over, and reports it. -/
theorem active_alert_worst_tornado : ∃ s s' a, s.active = some a ∧ s'.active = none ∧
    (monitor {}).step s (.check (newYear + 910) (newYear + 910)) s' ∧
    s'.published.count (.expired a) = 1 := by
  obtain ⟨s, hs, a, ha, s', hs', hnone, hm⟩ :
      ∃ s ∈ [tornado].foldlM (next {}) { checked := newYear, clock := newYear },
      ∃ a ∈ s.active, ∃ s' ∈ next {} s (.check (newYear + 910) (newYear + 910)),
        s'.active = none ∧ a.number ∈ s'.expired := by
    decide +kernel
  have h : (monitor {}).Reachable s := .foldlM (.init ⟨newYear, rfl⟩) hs
  refine ⟨s, s', a, ha, hnone, hs', ?_⟩
  refine (((active_alert_worst {} s h).2.2.2 _ s' hs').2 a (.inl ha) hm).2 ?_
  rintro ⟨h, t, heq, -⟩
  cases heq

/-- The late wind warning takes the place of the tornado warning, which is marked
    but never reported. And at the beginning of 1970, a warning that is over at
    the epoch stays active. -/
theorem active_alert_worst_fails :
    (∃ s s' a, (monitor {}).Reachable s ∧ s.active = some a ∧ (monitor {}).step s lateWind s' ∧
      s'.active = none ∧ a.number ∈ s'.expired ∧ .expired a ∉ s'.published) ∧
    ∃ s a, (monitor {}).Reachable s ∧ s.active = some a ∧ a.HasPassed s.checked := by
  constructor
  · obtain ⟨s, hs, a, ha, s', hs', hend⟩ :
        ∃ s ∈ [tornado].foldlM (next {}) { checked := newYear, clock := newYear },
          ∃ a ∈ s.active, ∃ s' ∈ next {} s lateWind,
            s'.active = none ∧ a.number ∈ s'.expired ∧ .expired a ∉ s'.published := by
      decide +kernel
    exact ⟨s, s', a, .foldlM (.init ⟨newYear, rfl⟩) hs, ha, hs',
      hend⟩
  · obtain ⟨s, hs, a, ha, hend⟩ :
        ∃ s ∈ [Op.header (warning "TOR" [0, 0, 1, 0, 0, 0, 0] [0, 0, 0, 0]) (.at 0),
          .check 60 60].foldlM (next {}) { checked := 0, clock := 0 },
          ∃ a ∈ s.active, a.purgeTs = some 0 ∧ 0 < s.checked := by
      decide +kernel
    obtain ⟨hpurge, hlt⟩ := hend
    exact ⟨s, a, .foldlM (.init ⟨0, rfl⟩) hs, ha, 0, hpurge,
      by exact_mod_cast hlt⟩

end ReticulumPi.Weather
