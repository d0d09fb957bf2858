import ReticulumPi.Lib.Related
import ReticulumPi.Space.Passes

/-!
# The passes that are found

The loop follows the samples of the grid until it has found as many passes as
it may (`Window.findPasses_eq`): what it returns are passes of the stretches
that a sample below the horizon ends, in order, and then the one of the stretch
that is under way at the end. Without gaps these are the maximal stretches
above the horizon.

A stretch that runs into a gap counts as under way while the gap lasts, so that
at the end of the grid its pass is drawn out over the gap up to `t_end`. This
is the only way in which a pass can contain a sample that is not above the
horizon (`Window.findsPasses_iff`).
-/

namespace ReticulumPi.Space

open List

namespace Window

variable {w : Window}

/-! ## The grid -/

theorem gridAfter_of_lt {t : ℚ} (h : t < w.tEnd) :
    w.gridAfter t = min (t + w.stepS) w.tEnd :: w.gridAfter (min (t + w.stepS) w.tEnd) := by
  rw [gridAfter, if_pos h]

theorem gridAfter_of_not_lt {t : ℚ} (h : ¬ t < w.tEnd) : w.gridAfter t = [] := by
  rw [gridAfter, if_neg h]

/-- The times of the grid get later, up to `t_end`. -/
theorem pairwise_gridAfter (t : ℚ) :
    (t :: w.gridAfter t).Pairwise (· < ·) ∧
      (t ≤ w.tEnd → (t :: w.gridAfter t).getLast? = some w.tEnd) := by
  induction t using gridAfter.induct w with
  | case1 t h ih =>
    rw [gridAfter_of_lt h]
    have hlt : t < min (t + w.stepS) w.tEnd := by
      rw [lt_min_iff]
      exact ⟨by linarith [w.step_pos], h⟩
    refine ⟨pairwise_cons.2 ⟨fun t' ht' => ?_, ih.1⟩, fun _ => ?_⟩
    · rcases mem_cons.1 ht' with rfl | ht'
      · exact hlt
      · exact hlt.trans ((pairwise_cons.1 ih.1).1 t' ht')
    · rw [getLast?_cons_cons]
      exact ih.2 (min_le_right _ _)
  | case2 t h =>
    rw [gridAfter_of_not_lt h]
    refine ⟨pairwise_singleton _ _, fun hle => ?_⟩
    rw [getLast?_singleton, le_antisymm hle (not_lt.1 h)]

theorem pairwise_samples : w.samples.Pairwise fun x y => x.t < y.t :=
  Pairwise.map w.sample (fun _ _ h => h) (pairwise_gridAfter w.tStart).1

theorem getLast?_samples : ∃ x ∈ w.samples.getLast?, x.t = w.tEnd := by
  refine ⟨w.sample w.tEnd, ?_, rfl⟩
  rw [samples, getLast?_map, (pairwise_gridAfter w.tStart).2 w.start_le_end]
  rfl

theorem head?_samples : w.samples.head? = some (w.sample w.tStart) := rfl

/-! ## The whole loop -/

section Loop

variable {done : List Sample} {s : Scan} {ts : List ℚ}

/-- The loop follows the samples up to a point at which it has found all passes
    that it may, or to the end. -/
theorem follows_scan (h : Follows w done s) (hts : (s.prevT :: ts).Pairwise (· < ·)) :
    ∃ ts₁ ts₂, ts = ts₁ ++ ts₂ ∧ Follows w (done ++ ts₁.map w.sample) (w.scan ts s) ∧
      (ts₂ = [] ∨ w.maxPasses ≤ (w.scan ts s).passes.length) := by
  induction ts generalizing s done with
  | nil => exact ⟨[], [], rfl, by rwa [map_nil, append_nil], .inl rfl⟩
  | cons t ts ih =>
    rw [scan]
    split_ifs with hlt
    · rw [pairwise_cons, pairwise_cons] at hts
      have hstep := h.step hlt (hts.1 t mem_cons_self)
      have hprev : (w.step s t).prevT = t := by
        obtain ⟨x, hx, -, hxt⟩ := hstep.last
        rw [getLast?_concat] at hx
        cases hx
        exact hxt.symm
      obtain ⟨ts₁, ts₂, rfl, hf, hend⟩ := ih hstep (by rw [hprev]; exact pairwise_cons.2 hts.2)
      refine ⟨t :: ts₁, ts₂, rfl, ?_, hend⟩
      rwa [map_cons, append_cons]
    · exact ⟨[], t :: ts, rfl, by rwa [map_nil, append_nil], .inr (not_lt.1 hlt)⟩

theorem follows_initial {el az : ℚ} (h : w.elFn w.tStart = some (el, az)) :
    Follows w [w.sample w.tStart] (w.initial el az) := by
  have hended : Stretch.ended Sample.isUp Sample.isDown [w.sample w.tStart] = [] :=
    ended_concat_of_none Stretch.openEnd_nil
  have hdrop : [w.sample w.tStart].rdropWhile Sample.isGap = [w.sample w.tStart] :=
    rdropWhile_concat_neg _ [] _ (sample_not_gap h)
  rw [initial]
  split_ifs with hel
  · refine ⟨⟨_, rfl, sample_el h, rfl⟩, by rw [hended]; exact .nil, ?_, .inl w.maxPasses_pos⟩
    have hopen : Stretch.openEnd Sample.isUp [w.sample w.tStart] = some ⟨[], [w.sample w.tStart]⟩ :=
      Stretch.openEnd_concat_new (sample_isUp h hel) Stretch.openEnd_nil
    rw [hdrop, hopen]
    exact ⟨rfl, ⟨_, rfl, rises_singleton fun y hy => by cases hy⟩, isPeak_singleton (sample_el h)⟩
  · refine ⟨⟨_, rfl, sample_el h, rfl⟩, by rw [hended]; exact .nil, ?_, .inl w.maxPasses_pos⟩
    have hopen : Stretch.openEnd Sample.isUp [w.sample w.tStart] = none :=
      Stretch.openEnd_concat_neg (l := [])
        (Sample.isUp_of_isDown (sample_isDown h hel))
    rw [hdrop, hopen]
    exact rfl

end Loop

/-! ## What is returned -/

variable (w) in
/-- The stretches that reach the minimum and that a sample below the horizon
    ends. -/
def endedStretches : List (Stretch Sample × Sample) :=
  (Stretch.ended Sample.isUp Sample.isDown w.samples).filter fun e => w.reaches e.1

variable (w) in
/-- The stretch that is taken to be under way at the end: only gaps follow. -/
def lastStretch : Option (Stretch Sample) :=
  if w.endedStretches.length < w.maxPasses then
    (Stretch.openEnd Sample.isUp (w.samples.rdropWhile Sample.isGap)).filter w.reaches
  else none

/-- The pass that is closed at `t_end`, if there is one. -/
def FinalPass (w : Window) (final : List Pass) : Prop :=
  match w.lastStretch with
  | some r => ∃ p, final = [p] ∧ OpenPass w r p
  | none => final = []

theorem close_of_underway {s : Scan} {o : Option (Stretch Sample)} (h : Underway s o) :
    ∃ final, w.close s = s.passes ++ final ∧
      match o.filter w.reaches with
      | some r => ∃ p, final = [p] ∧ OpenPass w r p
      | none => final = [] := by
  rcases o with _ | r
  · refine ⟨[], ?_, rfl⟩
    have hinside : s.inside = false := h
    rw [close, append_nil]
    split
    · rw [if_neg (by simp [hinside])]
    · rfl
  · obtain ⟨hinside, ⟨aos, haos, hrises⟩, hpeak⟩ := h
    rw [close, haos]
    by_cases hmin : w.minElDeg ≤ s.maxEl
    · rw [Option.filter_some, if_pos (hpeak.reaches_iff.2 hmin)]
      exact ⟨_, if_pos ⟨hinside, hmin⟩, _, rfl, hrises, rfl, ⟨_, hpeak, rfl⟩, rfl⟩
    · rw [Option.filter_some, if_neg (mt hpeak.reaches_iff.1 hmin)]
      refine ⟨[], ?_, rfl⟩
      rw [append_nil]
      exact if_neg fun h => hmin h.2

/-- What the function returns, when the first sample is no gap. -/
theorem findPasses_eq (h : (w.sample w.tStart).isGap = false) :
    ∃ ps final, w.findPasses = ps ++ final ∧
      Forall₂ EndedPass (w.endedStretches.take w.maxPasses) ps ∧ FinalPass w final := by
  rcases hs : w.elFn w.tStart with _ | ⟨el, az⟩
  · rw [Sample.isGap, sample, hs] at h
    cases h
  · have hprev : (w.initial el az).prevT = w.tStart := by
      rw [initial]
      split_ifs <;> rfl
    have hgrid : ((w.initial el az).prevT :: w.gridAfter w.tStart).Pairwise (· < ·) := by
      rw [hprev]
      exact (pairwise_gridAfter w.tStart).1
    obtain ⟨ts₁, ts₂, hts, hf, hend⟩ := follows_scan (follows_initial hs) hgrid
    have hfind : w.findPasses = w.close (w.scan (w.gridAfter w.tStart) (w.initial el az)) := by
      rw [findPasses, hs]
    obtain ⟨s, hsdef⟩ : ∃ s, s = w.scan (w.gridAfter w.tStart) (w.initial el az) := ⟨_, rfl⟩
    rw [← hsdef] at hf hend hfind
    have hsamples : w.samples =
        ([w.sample w.tStart] ++ ts₁.map w.sample) ++ ts₂.map w.sample := by
      rw [samples, hts, map_cons, map_append]
      rfl
    have hlen := hf.passes.length_eq
    rcases hf.room with hroom | ⟨hroom, hinside⟩
    · -- The loop has come to the end of the grid.
      obtain rfl : ts₂ = [] := hend.resolve_right (not_le.2 hroom)
      rw [map_nil, append_nil] at hsamples
      rw [← hsamples] at hf hlen
      change w.endedStretches.length = s.passes.length at hlen
      obtain ⟨final, hclose, hfinal⟩ := close_of_underway hf.underway
      refine ⟨s.passes, final, hfind.trans hclose, ?_, ?_⟩
      · rw [take_of_length_le (hlen.trans_le hroom.le)]
        exact hf.passes
      · rw [FinalPass, lastStretch, if_pos (hlen.trans_lt hroom)]
        exact hfinal
    · -- The loop has found all passes that it may.
      obtain ⟨final, hclose, rfl⟩ := close_of_underway (w := w) (o := none) hinside
      have hpre : Stretch.ended Sample.isUp Sample.isDown
          ([w.sample w.tStart] ++ ts₁.map w.sample) <+:
            Stretch.ended Sample.isUp Sample.isDown w.samples := by
        rw [hsamples]
        exact Stretch.ended_prefix
      obtain ⟨more, hmore⟩ := hpre
      have hended := congrArg (List.filter fun e => w.reaches e.1) hmore
      rw [filter_append] at hended
      refine ⟨s.passes, [], hfind.trans hclose, ?_, ?_⟩
      · rw [endedStretches, ← hended, take_left' (hlen.trans hroom)]
        exact hf.passes
      · have hge : ¬ w.endedStretches.length < w.maxPasses := by
          rw [endedStretches, ← hended, length_append, hlen, hroom]
          omega
        rw [FinalPass, lastStretch, if_neg hge]

/-! ## Times -/

section Times

variable {r : Stretch Sample} {after : List Sample} {x y : Sample} {aos : ℚ}

theorem start_le (h : x ∈ w.samples) : w.tStart ≤ x.t := by
  rcases mem_cons.1 h with rfl | h
  · exact le_rfl
  · exact ((pairwise_cons.1 pairwise_samples).1 x h).le

theorem le_end (h : x ∈ w.samples) : x.t ≤ w.tEnd := by
  obtain ⟨y, hy, hyt⟩ := w.getLast?_samples
  obtain ⟨hne, rfl⟩ := mem_getLast?_eq_getLast hy
  have hpair := w.pairwise_samples
  rw [← dropLast_append_getLast hne] at h hpair
  rw [← hyt]
  rcases mem_append.1 h with h | h
  · exact ((pairwise_append.1 hpair).2.2 x h _ mem_cons_self).le
  · rw [mem_singleton.1 h]

variable (hs : w.samples = r.upTo ++ after)
include hs

/-- What stands before the stretch comes before the satellite rises. -/
theorem lt_aos (hb : r.Begins Sample.isUp)
    (haos : Rises r aos) (hx : x ∈ r.before) : x.t < aos := by
  have hpair := w.pairwise_samples
  rw [hs, Stretch.upTo, pairwise_append, pairwise_append] at hpair
  obtain ⟨y, hy⟩ : ∃ y, r.items.head? = some y := ⟨_, head?_eq_some_head hb.ne_nil⟩
  have hrises := haos y hy
  have hne : r.before ≠ [] := ne_nil_of_mem hx
  have hlast := getLast?_eq_some_getLast hne
  rw [hlast] at hrises
  have hle : x.t ≤ (r.before.getLast hne).t := by
    have hbefore := hpair.1.1
    rw [← dropLast_append_getLast hne] at hx hbefore
    rcases mem_append.1 hx with hx | hx
    · exact ((pairwise_append.1 hbefore).2.2 x hx _ mem_cons_self).le
    · rw [mem_singleton.1 hx]
  dsimp only at hrises
  split_ifs at hrises with hdown
  · exact hle.trans_lt hrises.1
  · rw [hrises]
    exact hpair.1.2.2 x hx y (mem_of_mem_head? hy)

/-- The satellite has risen at the samples of the stretch. -/
theorem aos_le (haos : Rises r aos) (hx : x ∈ r.items) : aos ≤ x.t := by
  have hpair := w.pairwise_samples
  rw [hs, Stretch.upTo, pairwise_append, pairwise_append] at hpair
  obtain ⟨y, items, hitems⟩ := exists_cons_of_ne_nil (ne_nil_of_mem hx)
  have hrises := haos y (by rw [hitems]; rfl)
  have hle : aos ≤ y.t := by
    split at hrises
    · split_ifs at hrises
      · exact hrises.2.le
      · exact hrises.le
    · exact hrises.le
  rw [hitems] at hx hpair
  rcases mem_cons.1 hx with rfl | hx
  · exact hle
  · exact hle.trans ((pairwise_cons.1 hpair.1.2.1).1 x hx).le

theorem start_le_aos (hb : r.Begins Sample.isUp) (haos : Rises r aos) : w.tStart ≤ aos := by
  rcases hbefore : r.before with _ | ⟨x, before⟩
  · obtain ⟨y, hy⟩ : ∃ y, r.items.head? = some y := ⟨_, head?_eq_some_head hb.ne_nil⟩
    have hrises := haos y hy
    rw [hbefore] at hrises
    have haos : aos = y.t := hrises
    rw [haos]
    exact start_le (by simp [hs, Stretch.upTo, mem_of_mem_head? hy])
  · have hx : x ∈ r.before := by simp [hbefore]
    exact (start_le (by simp [hs, Stretch.upTo, hx])).trans (lt_aos hs hb haos hx).le

theorem lt_of_mem_of_mem_after (hx : x ∈ r.items) (hy : y ∈ after) : x.t < y.t := by
  have hpair := w.pairwise_samples
  rw [hs, pairwise_append] at hpair
  exact hpair.2.2 x (mem_append_right _ hx) y hy

end Times

/-! ## The two kinds of passes -/

/-- The bounds of a pass, and what it may contain. -/
structure SoundPass (w : Window) (p : Pass) : Prop where
  start : w.tStart ≤ p.aosTs
  order : p.aosTs ≤ p.losTs
  stop : p.losTs ≤ w.tEnd
  above : ∀ x ∈ w.samples, p.aosTs < x.t → x.t < p.losTs → x.isUp = true

section Kinds

variable {r : Stretch Sample} {gaps : List Sample} {e : Stretch Sample × Sample} {p : Pass}

theorem mem_endedStretches : e ∈ w.endedStretches ↔
    Stretch.EndedIn Sample.isUp Sample.isDown w.samples e ∧ w.reaches e.1 = true := by
  rw [endedStretches, mem_filter, Stretch.mem_ended]

/-- The samples around a stretch that is ended. -/
theorem exists_samples_eq (h : Stretch.EndedIn Sample.isUp Sample.isDown w.samples e) :
    ∃ after, w.samples = e.1.upTo ++ e.2 :: after := by
  obtain ⟨after, hafter⟩ := h.isPrefix
  exact ⟨after, by rw [← hafter, append_assoc]; rfl⟩

/-- The pass of a stretch that is ended contains samples of the stretch only. -/
theorem soundPass_of_ended (h : Stretch.EndedIn Sample.isUp Sample.isDown w.samples e)
    (hp : EndedPass e p) : SoundPass w p := by
  obtain ⟨after, hs⟩ := exists_samples_eq h
  have hne := h.begins.ne_nil
  have hlast := hp.los.1 _ (getLast?_eq_some_getLast hne)
  have hmem : e.1.items.getLast hne ∈ e.1.items := getLast_mem hne
  have hpair := w.pairwise_samples
  rw [hs, pairwise_append, pairwise_cons] at hpair
  refine ⟨start_le_aos hs h.begins hp.aos, ((aos_le hs hp.aos hmem).trans_lt hlast).le,
    hp.los.2.le.trans (le_end (by simp [hs])), fun x hx haos hlos => ?_⟩
  rw [hs, Stretch.upTo, mem_append, mem_append, mem_cons] at hx
  rcases hx with (hx | hx) | rfl | hx
  · exact absurd haos (lt_aos hs h.begins hp.aos hx).le.not_gt
  · exact h.begins.all x hx
  · exact absurd hlos hp.los.2.le.not_gt
  · exact absurd hlos ((hp.los.2.trans (hpair.2.1.1 x hx)).le).not_gt

/-- The pass that is closed at `t_end` contains no gap exactly when at most the
    last sample is one. -/
theorem soundPass_of_open (hs : w.samples = r.upTo ++ gaps) (hb : r.Begins Sample.isUp)
    (hgaps : ∀ x ∈ gaps, x.isGap = true) (hp : OpenPass w r p) :
    SoundPass w p ↔ gaps.length < 2 := by
  obtain ⟨z, hz⟩ := exists_mem_of_ne_nil _ hb.ne_nil
  constructor
  · intro h
    by_contra hlen
    rcases gaps with _ | ⟨x, _ | ⟨y, gaps⟩⟩
    · exact hlen (by simp)
    · exact hlen (by simp)
    · -- The first gap lies before the end.
      have hpair := w.pairwise_samples
      rw [hs, pairwise_append, pairwise_cons] at hpair
      have hxy := hpair.2.1.1 y mem_cons_self
      have hup := h.above x (by simp [hs])
        ((aos_le hs hp.aos hz).trans_lt (lt_of_mem_of_mem_after hs hz mem_cons_self))
        (by rw [hp.los]; exact hxy.trans_le (le_end (by simp [hs])))
      rw [Sample.isUp_of_isGap (hgaps x mem_cons_self)] at hup
      cases hup
  · intro hlen
    have hzs : z ∈ w.samples := by simp [hs, Stretch.upTo, hz]
    refine ⟨start_le_aos hs hb hp.aos, ?_, hp.los.le, fun x hx haos hlos => ?_⟩
    · rw [hp.los]
      exact (aos_le hs hp.aos hz).trans (le_end hzs)
    · rw [hs, Stretch.upTo, mem_append, mem_append] at hx
      rcases hx with (hx | hx) | hx
      · exact absurd haos (lt_aos hs hb hp.aos hx).le.not_gt
      · exact hb.all x hx
      · -- A single gap is the last sample, at `t_end`.
        obtain ⟨y, hy, hyt⟩ := w.getLast?_samples
        rcases gaps with _ | ⟨x', _ | ⟨y', gaps⟩⟩
        · cases hx
        · rw [hs, getLast?_concat] at hy
          cases hy
          rw [mem_singleton.1 hx, hyt, hp.los] at hlos
          exact absurd hlos (lt_irrefl _)
        · exact absurd hlen (by simp)

/-- A stretch at the end lies after all that are ended. -/
theorem after_of_gaps (h : Stretch.EndedIn Sample.isUp Sample.isDown w.samples e)
    (hs : w.samples = r.upTo ++ gaps) (hb : r.Begins Sample.isUp)
    (hgaps : ∀ x ∈ gaps, x.isGap = true) : e.1.upTo ++ [e.2] <+: r.before := by
  have hpre := h.isPrefix
  have hs' : w.samples = r.before ++ (r.items ++ gaps) := by
    rw [hs, Stretch.upTo, append_assoc]
  rw [hs'] at hpre
  refine Stretch.prefix_of_not_mem hpre fun hmem => ?_
  rcases mem_append.1 hmem with hmem | hmem
  · exact absurd (hb.all _ hmem) (by simp [Sample.isUp_of_isDown h.ends])
  · have hdown := h.ends
    rw [Sample.isDown_of_isGap (hgaps _ hmem)] at hdown
    cases hdown

/-- The satellite has set before it rises for a later stretch. -/
theorem los_le_aos (hp : EndedPass e p) (hs : w.samples = r.upTo ++ gaps)
    (hb : r.Begins Sample.isUp) {aos : ℚ} (haos : Rises r aos)
    (hafter : e.1.upTo ++ [e.2] <+: r.before) : p.losTs ≤ aos :=
  (hp.los.2.trans (lt_aos hs hb haos (hafter.subset (by simp)))).le

theorem lastStretch_eq_some_iff : w.lastStretch = some r ↔
    w.endedStretches.length < w.maxPasses ∧ w.reaches r = true ∧ r.Begins Sample.isUp ∧
      ∃ gaps, w.samples = r.upTo ++ gaps ∧ ∀ x ∈ gaps, x.isGap = true := by
  rw [lastStretch]
  split_ifs with hlen
  · rw [Option.filter_eq_some_iff, Stretch.openEnd_eq_some_iff]
    constructor
    · rintro ⟨⟨hdrop, hb⟩, hr⟩
      refine ⟨hlen, hr, hb, w.samples.rtakeWhile Sample.isGap, ?_,
        fun x hx => mem_rtakeWhile_imp hx⟩
      rw [← hdrop, rdropWhile_append_rtakeWhile]
    · rintro ⟨-, hr, hb, gaps, hs, hgaps⟩
      refine ⟨⟨?_, hb⟩, hr⟩
      rw [hs]
      refine Stretch.rdropWhile_append_of_pos hgaps fun x hx => ?_
      rw [Stretch.upTo, getLast?_append_of_ne_nil _ hb.ne_nil] at hx
      have hup := hb.all x (mem_of_mem_getLast? hx)
      by_contra hgap
      rw [Bool.not_eq_false] at hgap
      rw [Sample.isUp_of_isGap hgap] at hup
      cases hup
  · simp [hlen]

end Kinds

/-! ## What is claimed of the result -/

/-- The passes lie between the bounds, one after another, and contain only
    samples above the horizon. -/
structure Sound (w : Window) (passes : List Pass) : Prop where
  each : ∀ p ∈ passes, SoundPass w p
  disjoint : passes.Pairwise fun p p' => p.losTs ≤ p'.aosTs

/-- The pass `p` is that of the maximal stretch `r`: the satellite rises between
    the sample before it and its first one, or is up from the start, and sets
    between its last sample and the next one, or is up at the end. -/
structure Covers (w : Window) (r : Stretch Sample) (p : Pass) : Prop where
  aos : (r.before = [] → p.aosTs = w.tStart) ∧
    ∀ x ∈ r.before.getLast?, ∀ y ∈ r.items.head?, x.t < p.aosTs ∧ p.aosTs < y.t
  los : ∀ after, w.samples = r.upTo ++ after →
    (after = [] → p.losTs = w.tEnd ∧ p.truncated = true) ∧
      ∀ y ∈ after.head?, (∀ x ∈ r.items.getLast?, x.t < p.losTs) ∧ p.losTs < y.t ∧
        p.truncated = false

/-- There is one pass for each maximal stretch above the horizon that reaches
    the minimum, in order, as far as there may be. -/
def FindsStretches (w : Window) : Prop :=
  ∃ rs : List (Stretch Sample),
    rs.Pairwise (fun r r' => r.upTo <+: r'.before) ∧
      (∀ r, r ∈ rs ↔ Stretch.MaximalIn Sample.isUp w.samples r ∧ w.reaches r = true) ∧
        List.Forall₂ (Covers w) (rs.take w.maxPasses) w.findPasses

/-- The grid has no gaps. -/
def NoGaps (w : Window) : Prop := ∀ x ∈ w.samples, x.isGap = false

/-- The passes are those of the stretches of the samples. -/
def FindsPasses (w : Window) : Prop :=
  (NoGaps w → FindsStretches w) ∧ Sound w w.findPasses

/-- After a stretch that reaches the minimum the grid ends with gaps, at least
    two, and there is room for another pass. -/
def EndsInGaps (w : Window) : Prop :=
  (w.sample w.tStart).isGap = false ∧ w.endedStretches.length < w.maxPasses ∧
    ∃ r gaps, w.samples = r.upTo ++ gaps ∧ r.Begins Sample.isUp ∧ w.reaches r = true ∧
      (∀ x ∈ gaps, x.isGap = true) ∧ 2 ≤ gaps.length

section Claim

variable {r : Stretch Sample} {gaps : List Sample} {e : Stretch Sample × Sample} {p : Pass}

theorem endedStretches_pairwise : w.endedStretches.Pairwise Stretch.After :=
  (Stretch.pairwise_ended fun _ => Sample.isUp_of_isDown).sublist filter_sublist

/-- The passes of stretches in order are in order. -/
theorem pairwise_los_le_aos {ps : List Pass}
    (h : Forall₂ EndedPass (w.endedStretches.take w.maxPasses) ps) :
    ps.Pairwise fun p p' => p.losTs ≤ p'.aosTs := by
  refine h.pairwise (endedStretches_pairwise.sublist (take_sublist _ _)) ?_
  intro e _ e' he' p p' hp hp' hafter
  have he' := (mem_endedStretches.1 (mem_of_mem_take he')).1
  obtain ⟨after, hs⟩ := exists_samples_eq he'
  exact los_le_aos hp hs he'.begins hp'.aos hafter

/-- A stretch that is ended, and the one at the end. -/
theorem los_le_aos_of_open (he : e ∈ w.endedStretches) (hp : EndedPass e p)
    (hr : w.lastStretch = some r) {p' : Pass} (hp' : OpenPass w r p') : p.losTs ≤ p'.aosTs := by
  obtain ⟨-, -, hb, gaps, hs, hgaps⟩ := lastStretch_eq_some_iff.1 hr
  exact los_le_aos hp hs hb hp'.aos (after_of_gaps (mem_endedStretches.1 he).1 hs hb hgaps)

/-- Whether the pass that is closed at the end is sound decides for all. -/
theorem sound_iff {ps final : List Pass}
    (h : Forall₂ EndedPass (w.endedStretches.take w.maxPasses) ps) (hf : FinalPass w final) :
    Sound w (ps ++ final) ↔ ∀ p ∈ final, SoundPass w p := by
  constructor
  · exact fun hsound p hp => hsound.each p (mem_append_right _ hp)
  · intro hfinal
    have hps : ∀ p ∈ ps, ∃ e ∈ w.endedStretches, EndedPass e p := by
      intro p hp
      obtain ⟨e, he, hep⟩ := h.exists_left hp
      exact ⟨e, mem_of_mem_take he, hep⟩
    refine ⟨fun p hp => ?_, pairwise_append.2 ⟨pairwise_los_le_aos h, ?_, ?_⟩⟩
    · rcases mem_append.1 hp with hp | hp
      · obtain ⟨e, he, hep⟩ := hps p hp
        exact soundPass_of_ended (mem_endedStretches.1 he).1 hep
      · exact hfinal p hp
    · rw [FinalPass] at hf
      split at hf
      · obtain ⟨p, rfl, -⟩ := hf
        exact pairwise_singleton _ _
      · rw [hf]
        exact .nil
    · intro p hp p' hp'
      obtain ⟨e, he, hep⟩ := hps p hp
      rw [FinalPass] at hf
      split at hf
      next r hr =>
        obtain ⟨q, rfl, hq⟩ := hf
        rw [mem_singleton.1 hp']
        exact los_le_aos_of_open he hep hr hq
      next =>
        rw [hf] at hp'
        cases hp'

/-- The passes are sound unless the grid ends in gaps. -/
theorem sound_findPasses_iff : Sound w w.findPasses ↔ ¬ EndsInGaps w := by
  by_cases hfirst : (w.sample w.tStart).isGap = true
  · have hnil : w.findPasses = [] := by
      rw [Sample.isGap_iff, sample, Option.map_eq_none_iff] at hfirst
      rw [findPasses, hfirst]
    refine iff_of_true ?_ fun h => by simp [h.1] at hfirst
    rw [hnil]
    exact ⟨fun p hp => absurd hp not_mem_nil, .nil⟩
  · rw [Bool.not_eq_true] at hfirst
    obtain ⟨ps, final, hfind, hps, hf⟩ := findPasses_eq hfirst
    rw [hfind, sound_iff hps hf]
    constructor
    · rintro hsound ⟨-, hlen, r, gaps, hs, hb, hr, hgaps, htwo⟩
      rw [FinalPass, lastStretch_eq_some_iff.2 ⟨hlen, hr, hb, gaps, hs, hgaps⟩] at hf
      obtain ⟨p, rfl, hp⟩ := hf
      have hlt := (soundPass_of_open hs hb hgaps hp).1 (hsound p mem_cons_self)
      omega
    · intro hnot p hp
      rw [FinalPass] at hf
      split at hf
      next r hr =>
        obtain ⟨q, rfl, hq⟩ := hf
        obtain ⟨hlen, hreach, hb, gaps, hs, hgaps⟩ := lastStretch_eq_some_iff.1 hr
        rw [mem_singleton.1 hp]
        refine (soundPass_of_open hs hb hgaps hq).2 (not_le.1 fun htwo => ?_)
        exact hnot ⟨hfirst, hlen, r, gaps, hs, hb, hreach, hgaps, htwo⟩
      next =>
        rw [hf] at hp
        cases hp

/-! ## Without gaps -/

/-- The stretch at the end of a grid without gaps. -/
theorem NoGaps.openEnd_eq (h : NoGaps w) : w.samples.rdropWhile Sample.isGap = w.samples := by
  rw [rdropWhile_eq_self_iff]
  intro hne hgap
  rw [h _ (getLast_mem hne)] at hgap
  cases hgap

theorem NoGaps.isDown_eq (h : NoGaps w) : ∀ x ∈ w.samples, x.isDown = !x.isUp := by
  intro x hx
  have hgap := h x hx
  rcases hel : x.el with _ | v
  · rw [Sample.isGap, hel] at hgap
    cases hgap
  · simp only [Sample.isDown, Sample.isUp, hel, Option.any_some]
    by_cases hv : 0 ≤ v <;> simp [hv, not_lt, not_le.1]

/-- The satellite rises after the sample before the stretch, which is below the
    horizon. -/
theorem NoGaps.rises (h : NoGaps w) {after : List Sample} {aos : ℚ}
    (hs : w.samples = r.upTo ++ after) (hb : r.Begins Sample.isUp) (haos : Rises r aos) :
    (r.before = [] → aos = w.tStart) ∧
      ∀ x ∈ r.before.getLast?, ∀ y ∈ r.items.head?, x.t < aos ∧ aos < y.t := by
  constructor
  · intro hnil
    obtain ⟨y, items, hitems⟩ := exists_cons_of_ne_nil hb.ne_nil
    have hy := haos y (by rw [hitems]; rfl)
    rw [hnil] at hy
    have hhead := w.head?_samples
    rw [hs, Stretch.upTo, hnil, hitems] at hhead
    cases hhead
    exact hy
  · intro x hx y hy
    have hmem : x ∈ w.samples := by
      simp [hs, Stretch.upTo, mem_of_mem_getLast? hx]
    have hdown : x.isDown = true := by
      rw [h.isDown_eq x hmem, hb.left x hx]
      rfl
    have hrises := haos y hy
    rw [Option.mem_def.1 hx] at hrises
    dsimp only at hrises
    rwa [if_pos hdown] at hrises

theorem NoGaps.covers_of_ended (h : NoGaps w) (he : e ∈ w.endedStretches) (hp : EndedPass e p) :
    Covers w e.1 p := by
  have he := (mem_endedStretches.1 he).1
  obtain ⟨after, hs⟩ := exists_samples_eq he
  refine ⟨h.rises hs he.begins hp.aos, fun after' hs' => ?_⟩
  rw [hs] at hs'
  cases append_cancel_left hs'
  refine ⟨fun hnil => absurd hnil (cons_ne_nil _ _), fun y hy => ?_⟩
  cases hy
  exact ⟨hp.los.1, hp.los.2, hp.truncated⟩

theorem NoGaps.covers_of_open (h : NoGaps w) (hr : Stretch.openEnd Sample.isUp w.samples = some r)
    (hp : OpenPass w r p) : Covers w r p := by
  obtain ⟨hs, hb⟩ := Stretch.openEnd_eq_some_iff.1 hr
  refine ⟨h.rises (hs.trans (append_nil _).symm) hb hp.aos, fun after hs' => ?_⟩
  have hnil : after = [] := by
    rw [hs] at hs'
    exact self_eq_append_right.1 hs'
  subst hnil
  exact ⟨fun _ => ⟨hp.los, hp.truncated⟩, fun y hy => by cases hy⟩

variable (w) in
/-- The maximal stretches that reach the minimum, in order. -/
def maximalStretches : List (Stretch Sample) :=
  w.endedStretches.map Prod.fst ++
    ((Stretch.openEnd Sample.isUp w.samples).filter w.reaches).toList

theorem NoGaps.mem_maximalStretches (h : NoGaps w) : r ∈ w.maximalStretches ↔
    Stretch.MaximalIn Sample.isUp w.samples r ∧ w.reaches r = true := by
  rw [maximalStretches, mem_append, List.mem_map, Option.mem_toList, Option.filter_eq_some_iff,
    Stretch.maximalIn_iff h.isDown_eq, or_and_right]
  refine or_congr_left ?_
  constructor
  · rintro ⟨⟨r, x⟩, he, rfl⟩
    exact ⟨⟨x, (mem_endedStretches.1 he).1⟩, (mem_endedStretches.1 he).2⟩
  · rintro ⟨⟨x, he⟩, hr⟩
    exact ⟨(r, x), mem_endedStretches.2 ⟨he, hr⟩, rfl⟩

theorem NoGaps.pairwise_maximalStretches :
    w.maximalStretches.Pairwise fun r r' => r.upTo <+: r'.before := by
  rw [maximalStretches, pairwise_append, pairwise_map]
  refine ⟨endedStretches_pairwise.imp fun h => (prefix_append _ _).trans h, ?_, ?_⟩
  · cases (Stretch.openEnd Sample.isUp w.samples).filter w.reaches <;> simp
  · intro r hr r' hr'
    obtain ⟨e, he, rfl⟩ := List.mem_map.1 hr
    rw [Option.mem_toList, Option.filter_eq_some_iff] at hr'
    obtain ⟨hs, hb⟩ := Stretch.openEnd_eq_some_iff.1 hr'.1
    exact (prefix_append _ _).trans (after_of_gaps (mem_endedStretches.1 he).1
      (hs.trans (append_nil _).symm) hb fun x hx => absurd hx not_mem_nil)

/-- Without gaps the passes are those of the maximal stretches. -/
theorem NoGaps.findsStretches (h : NoGaps w) : FindsStretches w := by
  refine ⟨w.maximalStretches, NoGaps.pairwise_maximalStretches, fun r => h.mem_maximalStretches, ?_⟩
  obtain ⟨ps, final, hfind, hps, hf⟩ := findPasses_eq (h _ mem_cons_self)
  have hcovers : Forall₂ (Covers w) ((w.endedStretches.take w.maxPasses).map Prod.fst) ps := by
    have hboth : Forall₂ (fun e p => e ∈ w.endedStretches ∧ EndedPass e p)
        (w.endedStretches.take w.maxPasses) ps :=
      (forall₂_and_left _ _).2 ⟨fun e he => mem_of_mem_take he, hps⟩
    exact forall₂_map_left_iff.2 (hboth.imp fun e p hep => h.covers_of_ended hep.1 hep.2)
  rw [FinalPass, lastStretch, h.openEnd_eq] at hf
  rw [hfind, maximalStretches]
  by_cases hlen : w.endedStretches.length < w.maxPasses
  · rw [if_pos hlen] at hf
    rw [take_of_length_le hlen.le] at hcovers
    rcases ho : (Stretch.openEnd Sample.isUp w.samples).filter w.reaches with _ | r
    · rw [ho] at hf
      rw [hf, Option.toList_none, append_nil, append_nil,
        take_of_length_le (by simpa using hlen.le)]
      exact hcovers
    · rw [ho] at hf
      obtain ⟨p, rfl, hp⟩ := hf
      rw [Option.toList_some, take_of_length_le (by simpa using Nat.succ_le_of_lt hlen)]
      exact rel_append hcovers
        (.cons (h.covers_of_open (Option.filter_eq_some_iff.1 ho).1 hp) .nil)
  · rw [if_neg hlen] at hf
    rw [hf, append_nil, take_append_of_le_length (by simpa using hlen), ← map_take]
    exact hcovers

/-- The passes are those of the stretches of the samples, unless the grid ends
    in gaps. -/
theorem findsPasses_iff (w : Window) : FindsPasses w ↔ ¬ EndsInGaps w :=
  ⟨fun h => sound_findPasses_iff.1 h.2, fun h => ⟨NoGaps.findsStretches, sound_findPasses_iff.2 h⟩⟩

end Claim

/-- A satellite that is up at the start, and of which nothing is known later. -/
def upBeforeGap : Window where
  elFn t := if t = 0 then some (20, 0) else none
  tStart := 0
  tEnd := 90
  start_le_end := by norm_num
  step_pos := by norm_num
  maxPasses_pos := by norm_num

/-- The gap counts as a part of the pass. -/
theorem upBeforeGap_not_findsPasses : ¬ ∀ w, FindsPasses w := by
  intro h
  have hpass : upBeforeGap.findPasses.any
      (fun p => decide (p.aosTs < 30) && decide (30 < p.losTs)) = true := by
    rw [findPasses]
    decide +kernel
  obtain ⟨p, hp, hlt⟩ := List.any_eq_true.1 hpass
  rw [Bool.and_eq_true, decide_eq_true_eq, decide_eq_true_eq] at hlt
  have hgrid : 30 ∈ upBeforeGap.gridAfter upBeforeGap.tStart := by
    rw [gridAfter_of_lt (by decide +kernel), show min (upBeforeGap.tStart + upBeforeGap.stepS)
      upBeforeGap.tEnd = 30 by decide +kernel]
    exact mem_cons_self
  have hup := ((h upBeforeGap).2.each p hp).above (upBeforeGap.sample 30)
    (List.mem_map.2 ⟨30, mem_cons_of_mem _ hgrid, rfl⟩) hlt.1 hlt.2
  exact absurd hup (by decide +kernel)

end Window

end ReticulumPi.Space
