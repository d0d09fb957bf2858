import Mathlib.Data.Rat.Floor
import ReticulumPi.Lib.Stretches

/-!
# The passes of a satellite

`_find_passes` samples the elevation of a satellite on a grid of times, from
`t_start` to `t_end`, and notes a pass for every stretch of samples above the
horizon. The times at which the satellite rises and sets are refined by
bisection. Where the orbit cannot be computed, the elevation function has a
gap; a pass that is under way at the end of the grid is cut there.

Times and elevations are rational numbers.
-/

namespace ReticulumPi.Space

open List

/-! ## The horizon -/

/-- `round(x, 1)`, halves to the even side. -/
def round1 (x : ℚ) : ℚ :=
  let n := ⌊10 * x⌋
  let rest := 10 * x - n
  if rest < 1 / 2 ∨ (rest = 1 / 2 ∧ n % 2 = 0) then n / 10 else (n + 1) / 10

/-- The loop of `_bisect_horizon`, for `n` more iterations. -/
def bisectLoop (elFn : ℚ → Option (ℚ × ℚ)) (tolS : ℚ) : ℕ → ℚ → ℚ → ℚ → ℚ
  | 0, tLo, tHi, _ => 1 / 2 * (tLo + tHi)
  | n + 1, tLo, tHi, elLo =>
    if tHi - tLo ≤ tolS then 1 / 2 * (tLo + tHi)
    else
      match elFn (1 / 2 * (tLo + tHi)) with
      | none => 1 / 2 * (tLo + tHi)
      | some (elMid, _) =>
        if elMid < 0 ↔ elLo < 0 then bisectLoop elFn tolS n (1 / 2 * (tLo + tHi)) tHi elMid
        else bisectLoop elFn tolS n tLo (1 / 2 * (tLo + tHi)) elLo

/-- `_bisect_horizon`, with its defaults; it does not read `el_hi`. -/
def bisectHorizon (elFn : ℚ → Option (ℚ × ℚ)) (tLo tHi elLo : ℚ) : ℚ :=
  bisectLoop elFn 1 20 tLo tHi elLo

/-! ## The scan -/

/-- The arguments of `_find_passes`. -/
structure Window where
  elFn : ℚ → Option (ℚ × ℚ)
  tStart : ℚ
  tEnd : ℚ
  minElDeg : ℚ := 0
  maxPasses : ℕ := 20
  stepS : ℚ := 30
  start_le_end : tStart ≤ tEnd
  step_pos : 0 < stepS
  maxPasses_pos : 1 ≤ maxPasses

/-- An element of the result. -/
structure Pass where
  aosTs : ℚ
  losTs : ℚ
  durationS : ℚ
  maxEl : ℚ
  maxElTs : Option ℚ
  aosAz : Option ℚ
  losAz : Option ℚ
  maxElAz : Option ℚ
  truncated : Bool := false

/-- The variables of the loop. -/
structure Scan where
  prevEl : Option ℚ
  prevT : ℚ
  inside : Bool
  aosTs : Option ℚ
  aosAz : Option ℚ
  maxEl : ℚ
  maxElTs : Option ℚ
  maxElAz : Option ℚ
  passes : List Pass := []

namespace Window

variable (w : Window)

/-- The number of times that are left gets smaller. -/
theorem ceil_grid_lt {t : ℚ} (ht : t < w.tEnd) :
    ⌈(w.tEnd - min (t + w.stepS) w.tEnd) / w.stepS⌉₊ < ⌈(w.tEnd - t) / w.stepS⌉₊ := by
  rw [Nat.lt_ceil]
  rcases le_total w.tEnd (t + w.stepS) with hle | hle
  · rw [min_eq_right hle, sub_self, zero_div, Nat.ceil_zero]
    exact_mod_cast div_pos (sub_pos.2 ht) w.step_pos
  · have hnonneg : 0 ≤ (w.tEnd - (t + w.stepS)) / w.stepS :=
      div_nonneg (by linarith) w.step_pos.le
    have heq : (w.tEnd - (t + w.stepS)) / w.stepS + 1 = (w.tEnd - t) / w.stepS := by
      have := w.step_pos.ne'
      field_simp
      ring
    rw [min_eq_left hle, ← heq]
    exact Nat.ceil_lt_add_one hnonneg

/-- The times after `t` at which the loop takes a sample. -/
def gridAfter (t : ℚ) : List ℚ :=
  if t < w.tEnd then min (t + w.stepS) w.tEnd :: gridAfter (min (t + w.stepS) w.tEnd) else []
termination_by ⌈(w.tEnd - t) / w.stepS⌉₊
decreasing_by
  rename_i ht
  exact w.ceil_grid_lt ht

/-- The variables before the loop, when `(el, az)` is the first sample. -/
def initial (el az : ℚ) : Scan :=
  if 0 ≤ el then
    { prevEl := some el, prevT := w.tStart, inside := true, aosTs := some w.tStart
      aosAz := some az, maxEl := el, maxElTs := some w.tStart, maxElAz := some az }
  else
    { prevEl := some el, prevT := w.tStart, inside := false, aosTs := none, aosAz := none
      maxEl := -999, maxElTs := none, maxElAz := none }

variable (s : Scan)

/-- Recovering from a gap. -/
def recover (t el az : ℚ) : Scan :=
  if 0 ≤ el then
    { s with
      inside := true, aosTs := some t, aosAz := some az, maxEl := el, maxElTs := some t
      maxElAz := some az }
  else { s with inside := false }

/-- The azimuth at a refined time, or that of the sample. -/
def probeAz (t az : ℚ) : ℚ :=
  match w.elFn t with
  | some (_, probe) => probe
  | none => az

/-- Rising. -/
def rise (prevEl t el az : ℚ) : Scan :=
  let aos := bisectHorizon w.elFn s.prevT t prevEl
  { s with
    aosTs := some aos, aosAz := some (w.probeAz aos az), inside := true, maxEl := el
    maxElTs := some t, maxElAz := some az }

/-- A higher elevation is noted. -/
def peak (t el az : ℚ) : Scan :=
  if s.maxEl < el then { s with maxEl := el, maxElTs := some t, maxElAz := some az } else s

/-- The pass that ends at `los`. -/
def passUntil (aos los : ℚ) (losAz : Option ℚ) (truncated : Bool) : Pass where
  aosTs := aos
  losTs := los
  durationS := max 0 (los - aos)
  maxEl := round1 s.maxEl
  maxElTs := s.maxElTs
  aosAz := s.aosAz.map round1
  losAz := losAz
  maxElAz := s.maxElAz.map round1
  truncated := truncated

/-- Falling. -/
def fall (prevEl t az : ℚ) : Scan :=
  let los := bisectHorizon w.elFn s.prevT t prevEl
  let passes :=
    match s.aosTs with
    | some aos =>
      if w.minElDeg ≤ s.maxEl then
        s.passes ++ [passUntil s aos los (some (round1 (w.probeAz los az))) false]
      else s.passes
    | none => s.passes
  { s with passes := passes, inside := false, aosTs := none, aosAz := none, maxEl := -999 }

/-- One iteration of the loop, at the time `t`. -/
def step (t : ℚ) : Scan :=
  match w.elFn t with
  | none => { s with prevEl := none, prevT := t }
  | some (el, az) =>
    match s.prevEl with
    | none => { recover s t el az with prevEl := some el, prevT := t }
    | some prevEl =>
      let s' :=
        if !s.inside && decide (0 ≤ el) then w.rise s prevEl t el az
        else if s.inside then
          let s := peak s t el az
          if el < 0 then w.fall s prevEl t az else s
        else s
      { s' with prevEl := some el, prevT := t }

/-- The loop over the times that are left. -/
def scan : List ℚ → Scan → Scan
  | [], s => s
  | t :: ts, s => if s.passes.length < w.maxPasses then scan ts (w.step s t) else s

/-- The pass that is under way at the end. -/
def close : List Pass :=
  match s.aosTs with
  | some aos =>
    if s.inside ∧ w.minElDeg ≤ s.maxEl then s.passes ++ [passUntil s aos w.tEnd none true]
    else s.passes
  | none => s.passes

/-- `_find_passes` -/
def findPasses : List Pass :=
  match w.elFn w.tStart with
  | none => []
  | some (el, az) => w.close (w.scan (w.gridAfter w.tStart) (w.initial el az))

end Window

/-! ## Samples -/

/-- A sample of the grid: `el` is missing in a gap. -/
structure Sample where
  t : ℚ
  el : Option ℚ

namespace Sample

/-- Above the horizon. -/
def isUp (x : Sample) : Bool := x.el.any fun v => decide (0 ≤ v)

/-- Below the horizon. -/
def isDown (x : Sample) : Bool := x.el.any fun v => decide (v < 0)

def isGap (x : Sample) : Bool := x.el.isNone

variable {x : Sample}

theorem isUp_iff : x.isUp = true ↔ ∃ v, x.el = some v ∧ 0 ≤ v := by
  cases h : x.el <;> simp [isUp, h]

theorem isDown_iff : x.isDown = true ↔ ∃ v, x.el = some v ∧ v < 0 := by
  cases h : x.el <;> simp [isDown, h]

theorem isGap_iff : x.isGap = true ↔ x.el = none := Option.isNone_iff_eq_none

theorem isUp_of_isDown (h : x.isDown = true) : x.isUp = false := by
  obtain ⟨v, hv, hneg⟩ := isDown_iff.1 h
  simp [isUp, hv, hneg]

theorem isUp_of_isGap (h : x.isGap = true) : x.isUp = false := by
  simp [isUp, isGap_iff.1 h]

theorem isDown_of_isGap (h : x.isGap = true) : x.isDown = false := by
  simp [isDown, isGap_iff.1 h]

end Sample

namespace Window

variable (w : Window)

/-- The sample at `t`. -/
def sample (t : ℚ) : Sample := ⟨t, (w.elFn t).map Prod.fst⟩

/-- The samples of the grid. -/
def samples : List Sample := (w.tStart :: w.gridAfter w.tStart).map w.sample

/-! ## Stretches and passes -/

/-- The largest elevation of the stretch reaches the minimum. -/
def reaches (r : Stretch Sample) : Bool := r.items.any fun x => x.el.any fun v => w.minElDeg ≤ v

end Window

/-- When the satellite rises before the stretch: between the sample below the
    horizon and the first one of the stretch, or else at the first one. -/
def Rises (r : Stretch Sample) (aos : ℚ) : Prop :=
  ∀ y ∈ r.items.head?,
    match r.before.getLast? with
    | some x => if x.isDown then x.t < aos ∧ aos < y.t else aos = y.t
    | none => aos = y.t

/-- The largest elevation of the stretch. -/
structure IsPeak (r : Stretch Sample) (m : ℚ) : Prop where
  mem : ∃ x ∈ r.items, x.el = some m
  le : ∀ x ∈ r.items, ∀ v, x.el = some v → v ≤ m

/-- The pass of a stretch that a sample below the horizon ends. -/
structure EndedPass (e : Stretch Sample × Sample) (p : Pass) : Prop where
  aos : Rises e.1 p.aosTs
  los : (∀ x ∈ e.1.items.getLast?, x.t < p.losTs) ∧ p.losTs < e.2.t
  peak : ∃ m, IsPeak e.1 m ∧ p.maxEl = round1 m
  truncated : p.truncated = false

/-- The pass of a stretch that is under way at the end. -/
structure OpenPass (w : Window) (r : Stretch Sample) (p : Pass) : Prop where
  aos : Rises r p.aosTs
  los : p.losTs = w.tEnd
  peak : ∃ m, IsPeak r m ∧ p.maxEl = round1 m
  truncated : p.truncated = true

/-- What the variables say of the stretch that is under way. -/
def Underway (s : Scan) : Option (Stretch Sample) → Prop
  | none => s.inside = false
  | some r => s.inside = true ∧ (∃ aos, s.aosTs = some aos ∧ Rises r aos) ∧ IsPeak r s.maxEl

/-- The loop has come to the end of the samples `done`. -/
structure Follows (w : Window) (done : List Sample) (s : Scan) : Prop where
  last : ∃ x ∈ done.getLast?, x.el = s.prevEl ∧ x.t = s.prevT
  passes : List.Forall₂ EndedPass
    ((Stretch.ended Sample.isUp Sample.isDown done).filter fun e => w.reaches e.1) s.passes
  underway : Underway s (Stretch.openEnd Sample.isUp (done.rdropWhile Sample.isGap))
  room : s.passes.length < w.maxPasses ∨ s.passes.length = w.maxPasses ∧ s.inside = false

/-! ## One step -/

section Step

variable {w : Window} {done : List Sample} {s : Scan} {t el az : ℚ} {r : Stretch Sample}

theorem bisectLoop_mem {elFn : ℚ → Option (ℚ × ℚ)} {tolS : ℚ} :
    ∀ {n : ℕ} {lo hi elLo : ℚ}, lo < hi →
      lo < bisectLoop elFn tolS n lo hi elLo ∧ bisectLoop elFn tolS n lo hi elLo < hi := by
  intro n
  induction n with
  | zero =>
    intro lo hi elLo h
    rw [bisectLoop]
    constructor <;> linarith
  | succ n ih =>
    intro lo hi elLo h
    have hmid : lo < 1 / 2 * (lo + hi) ∧ 1 / 2 * (lo + hi) < hi := by
      constructor <;> linarith
    rw [bisectLoop]
    split_ifs
    · exact hmid
    · split
      · exact hmid
      · split_ifs
        · exact ⟨hmid.1.trans (ih hmid.2).1, (ih hmid.2).2⟩
        · exact ⟨(ih hmid.1).1, (ih hmid.1).2.trans hmid.2⟩

/-- A refined time lies between the two samples. -/
theorem bisectHorizon_mem {elFn : ℚ → Option (ℚ × ℚ)} {lo hi elLo : ℚ} (h : lo < hi) :
    lo < bisectHorizon elFn lo hi elLo ∧ bisectHorizon elFn lo hi elLo < hi := bisectLoop_mem h

theorem IsPeak.reaches_iff {m : ℚ} (h : IsPeak r m) : w.reaches r = true ↔ w.minElDeg ≤ m := by
  rw [Window.reaches, List.any_eq_true]
  constructor
  · rintro ⟨x, hx, hel⟩
    obtain ⟨v, hv, hle⟩ := (Option.any_eq_true _ _).1 hel
    exact (of_decide_eq_true hle).trans (h.le x hx v hv)
  · intro hle
    obtain ⟨x, hx, hel⟩ := h.mem
    exact ⟨x, hx, (Option.any_eq_true _ _).2 ⟨m, hel, decide_eq_true hle⟩⟩

variable {before : List Sample} {x : Sample}

theorem isPeak_singleton {v : ℚ} (h : x.el = some v) : IsPeak ⟨before, [x]⟩ v := by
  refine ⟨⟨x, mem_singleton_self x, h⟩, fun y hy u hu => ?_⟩
  rw [mem_singleton.1 hy, h, Option.some.injEq] at hu
  exact hu.ge

theorem rises_singleton (h : ∀ y ∈ before.getLast?, y.isDown = false) : Rises ⟨before, [x]⟩ x.t := by
  intro y hy
  cases hy
  dsimp only
  split
  next z hz => rw [if_neg (by simp [h z hz])]
  next => rfl

theorem rises_of_down {y : Sample} {aos : ℚ}
    (hx : x ∈ before.getLast?) (hdown : x.isDown = true) (h : x.t < aos ∧ aos < y.t) :
    Rises ⟨before, [y]⟩ aos := by
  intro z hz
  cases hz
  dsimp only
  rw [Option.mem_def.1 hx]
  dsimp only
  rwa [if_pos hdown]

theorem Rises.concat {aos : ℚ} (h : Rises r aos) (hr : r.items ≠ []) :
    Rises ⟨r.before, r.items ++ [x]⟩ aos := by
  intro y hy
  refine h y ?_
  rwa [head?_append_of_ne_nil _ hr] at hy

/-- The peak after another sample above the horizon. -/
theorem IsPeak.concat {m v : ℚ} (h : IsPeak r m) (hx : x.el = some v) :
    IsPeak ⟨r.before, r.items ++ [x]⟩ (if m < v then v else m) := by
  have hle : ∀ u, u ≤ m ∨ u = v → u ≤ if m < v then v else m := by
    intro u hu
    split_ifs <;> rcases hu with hu | rfl <;> linarith
  constructor
  · split_ifs
    · exact ⟨x, by simp, hx⟩
    · obtain ⟨y, hy, hel⟩ := h.mem
      exact ⟨y, mem_append_left _ hy, hel⟩
  · intro y hy u hu
    rcases mem_append.1 hy with hy | hy
    · exact hle u (.inl (h.le y hy u hu))
    · rw [mem_singleton.1 hy, hx, Option.some.injEq] at hu
      exact hle u (.inr hu.symm)

/-- What the samples say after another one. -/
theorem ended_concat_of_not_down (h : x.isDown = false) :
    Stretch.ended Sample.isUp Sample.isDown (done ++ [x]) =
      Stretch.ended Sample.isUp Sample.isDown done := by
  rw [Stretch.ended_concat, if_neg (by simp [h]), append_nil]

theorem Follows.step_gap (h : Follows w done s) (ht : w.elFn t = none) :
    Follows w (done ++ [w.sample t]) (w.step s t) := by
  have hstep : w.step s t = { s with prevEl := none, prevT := t } := by
    rw [Window.step, ht]
  have hgap : (w.sample t).isGap = true := by
    rw [Sample.isGap_iff, Window.sample, ht, Option.map_none]
  rw [hstep]
  exact {
    last := ⟨w.sample t, by simp, Sample.isGap_iff.1 hgap, rfl⟩
    passes := by
      rw [ended_concat_of_not_down (Sample.isDown_of_isGap hgap)]
      exact h.passes
    underway := by
      rw [rdropWhile_concat_pos _ _ _ hgap]
      have hu := h.underway
      revert hu
      cases Stretch.openEnd Sample.isUp (done.rdropWhile Sample.isGap) <;> exact id
    room := h.room }

/-- The stretch that is open where the last sample is no gap. -/
theorem Follows.underway_of_some {el : ℚ} (h : Follows w done s) (hp : s.prevEl = some el) :
    Underway s (Stretch.openEnd Sample.isUp done) := by
  have hself : done.rdropWhile Sample.isGap = done := by
    rw [rdropWhile_eq_self_iff]
    intro hne hgap
    obtain ⟨x, hx, hel, -⟩ := h.last
    obtain ⟨_, rfl⟩ := mem_getLast?_eq_getLast hx
    rw [Sample.isGap_iff.1 hgap, hp] at hel
    cases hel
  have hu := h.underway
  rwa [hself] at hu

/-- After a gap no stretch goes on. -/
theorem Follows.openEnd_of_none (h : Follows w done s) (hp : s.prevEl = none) :
    Stretch.openEnd Sample.isUp done = none := by
  obtain ⟨x, hx, hel, -⟩ := h.last
  obtain ⟨hne, rfl⟩ := mem_getLast?_eq_getLast hx
  rw [← dropLast_append_getLast hne]
  exact Stretch.openEnd_concat_neg (Sample.isUp_of_isGap (Sample.isGap_iff.2 (hel.trans hp)))

variable (ht : w.elFn t = some (el, az))
include ht

theorem sample_el : (w.sample t).el = some el := by
  rw [Window.sample, ht, Option.map_some]

theorem sample_not_gap : ¬ (w.sample t).isGap = true := by
  rw [Sample.isGap_iff, sample_el ht]
  exact Option.some_ne_none el

theorem sample_isUp (hel : 0 ≤ el) : (w.sample t).isUp = true :=
  Sample.isUp_iff.2 ⟨el, sample_el ht, hel⟩

theorem sample_isDown (hel : ¬ 0 ≤ el) :
    (w.sample t).isDown = true := Sample.isDown_iff.2 ⟨el, sample_el ht, not_le.1 hel⟩

omit ht

theorem not_isDown_of_isUp (h : x.isUp = true) : x.isDown = false := by
  by_contra hdown
  rw [Bool.not_eq_false] at hdown
  rw [Sample.isUp_of_isDown hdown] at h
  cases h

/-- The variables after a sample that ends no pass. -/
theorem Follows.concat {s' : Scan} (h : Follows w done s) (ht : w.elFn t = some (el, az))
    (hlast : s'.prevEl = some el ∧ s'.prevT = t) (hpasses : s'.passes = s.passes)
    (hroom : s'.passes.length < w.maxPasses)
    (hended : Stretch.ended Sample.isUp Sample.isDown (done ++ [w.sample t]) =
      Stretch.ended Sample.isUp Sample.isDown done)
    (hu : Underway s' (Stretch.openEnd Sample.isUp (done ++ [w.sample t]))) :
    Follows w (done ++ [w.sample t]) s' where
  last := ⟨w.sample t, by simp, (sample_el ht).trans hlast.1.symm, hlast.2.symm⟩
  passes := by
    rw [hended, hpasses]
    exact h.passes
  underway := by rwa [rdropWhile_concat_neg _ _ _ (sample_not_gap ht)]
  room := .inl hroom

/-- Nothing is ended where no stretch is open. -/
theorem ended_concat_of_none (h : Stretch.openEnd Sample.isUp done = none) :
    Stretch.ended Sample.isUp Sample.isDown (done ++ [x]) =
      Stretch.ended Sample.isUp Sample.isDown done := by
  rw [Stretch.ended_concat, h]
  split_ifs <;> exact append_nil _

/-- The first sample after a gap. -/
theorem Follows.step_recover (h : Follows w done s) (hlt : s.passes.length < w.maxPasses)
    (ht : w.elFn t = some (el, az)) (hp : s.prevEl = none) :
    Follows w (done ++ [w.sample t]) (w.step s t) := by
  have hnone := h.openEnd_of_none hp
  have hstep : w.step s t = { Window.recover s t el az with prevEl := some el, prevT := t } := by
    rw [Window.step, ht, hp]
  rw [hstep, Window.recover]
  split_ifs with hel
  · refine h.concat ht ⟨rfl, rfl⟩ rfl hlt (ended_concat_of_none hnone) ?_
    rw [Stretch.openEnd_concat_new (sample_isUp ht hel) hnone]
    refine ⟨rfl, ⟨t, rfl, rises_singleton fun y hy => ?_⟩, isPeak_singleton (sample_el ht)⟩
    -- The sample before is the gap.
    obtain ⟨x, hx, hxel, -⟩ := h.last
    cases (Option.mem_def.1 hx).symm.trans (Option.mem_def.1 hy)
    exact Sample.isDown_of_isGap (Sample.isGap_iff.2 (hxel.trans hp))
  · refine h.concat ht ⟨rfl, rfl⟩ rfl hlt (ended_concat_of_none hnone) ?_
    rw [Stretch.openEnd_concat_neg (Sample.isUp_of_isDown (sample_isDown ht hel))]
    exact rfl

/-- A sample after another one, outside of a pass. -/
theorem Follows.step_outside {prevEl : ℚ} (h : Follows w done s)
    (hlt : s.passes.length < w.maxPasses) (htime : s.prevT < t) (ht : w.elFn t = some (el, az))
    (hp : s.prevEl = some prevEl) (hnone : Stretch.openEnd Sample.isUp done = none) :
    Follows w (done ++ [w.sample t]) (w.step s t) := by
  have hinside : s.inside = false := by
    have hu := h.underway_of_some hp
    rwa [hnone] at hu
  have hstep : w.step s t =
      { if 0 ≤ el then w.rise s prevEl t el az else s with prevEl := some el, prevT := t } := by
    rw [Window.step, ht, hp]
    simp only [hinside, Bool.not_false, Bool.true_and, decide_eq_true_eq, Bool.false_eq_true,
      if_false]
  rw [hstep]
  split_ifs with hel
  · refine h.concat ht ⟨rfl, rfl⟩ rfl hlt (ended_concat_of_none hnone) ?_
    rw [Stretch.openEnd_concat_new (sample_isUp ht hel) hnone]
    obtain ⟨x, hx, hxel, hxt⟩ := h.last
    have hdown : x.isDown = true := by
      have hup := Stretch.openEnd_eq_none_iff.1 hnone x hx
      rw [hp] at hxel
      refine Sample.isDown_iff.2 ⟨prevEl, hxel, ?_⟩
      by_contra hge
      rw [Sample.isUp_iff.2 ⟨prevEl, hxel, not_lt.1 hge⟩] at hup
      cases hup
    refine ⟨rfl, ⟨_, rfl, rises_of_down hx hdown ?_⟩, isPeak_singleton (sample_el ht)⟩
    rw [hxt]
    exact bisectHorizon_mem htime
  · refine h.concat ht ⟨rfl, rfl⟩ rfl hlt (ended_concat_of_none hnone) ?_
    rw [Stretch.openEnd_concat_neg (Sample.isUp_of_isDown (sample_isDown ht hel))]
    exact hinside

/-- A sample of a pass after another one. -/
theorem Follows.step_higher {prevEl : ℚ} (h : Follows w done s)
    (hlt : s.passes.length < w.maxPasses) (ht : w.elFn t = some (el, az)) (hel : 0 ≤ el)
    (hp : s.prevEl = some prevEl) (hr : Stretch.openEnd Sample.isUp done = some r) :
    Follows w (done ++ [w.sample t]) (w.step s t) := by
  have hu := h.underway_of_some hp
  rw [hr] at hu
  obtain ⟨hinside, ⟨aos, haos, hrises⟩, hpeak⟩ := hu
  have hb := (Stretch.openEnd_eq_some_iff.1 hr).2
  have hstep : w.step s t = { Window.peak s t el az with prevEl := some el, prevT := t } := by
    rw [Window.step, ht, hp]
    simp [hinside, not_lt.2 hel]
  rw [hstep, Window.peak]
  have hup := sample_isUp ht hel
  have hopen := Stretch.openEnd_concat_pos hup hr
  have hconcat := hpeak.concat (sample_el ht)
  split_ifs at hconcat ⊢ with hmax
  · refine h.concat ht ⟨rfl, rfl⟩ rfl hlt
      (ended_concat_of_not_down (not_isDown_of_isUp hup)) ?_
    rw [hopen]
    exact ⟨hinside, ⟨aos, haos, hrises.concat hb.ne_nil⟩, hconcat⟩
  · refine h.concat ht ⟨rfl, rfl⟩ rfl hlt
      (ended_concat_of_not_down (not_isDown_of_isUp hup)) ?_
    rw [hopen]
    exact ⟨hinside, ⟨aos, haos, hrises.concat hb.ne_nil⟩, hconcat⟩

/-- The first sample after a pass. -/
theorem Follows.step_fall {prevEl : ℚ} (h : Follows w done s)
    (hlt : s.passes.length < w.maxPasses) (htime : s.prevT < t) (ht : w.elFn t = some (el, az))
    (hel : ¬ 0 ≤ el)
    (hp : s.prevEl = some prevEl) (hr : Stretch.openEnd Sample.isUp done = some r) :
    Follows w (done ++ [w.sample t]) (w.step s t) := by
  have hu := h.underway_of_some hp
  rw [hr] at hu
  obtain ⟨hinside, ⟨aos, haos, hrises⟩, hpeak⟩ := hu
  have hb := (Stretch.openEnd_eq_some_iff.1 hr).2
  have hmax : ¬ s.maxEl < el := by
    obtain ⟨x, hx, hxel⟩ := hpeak.mem
    obtain ⟨v, hv, hnonneg⟩ := Sample.isUp_iff.1 (hb.all x hx)
    rw [hxel, Option.some.injEq] at hv
    linarith
  have hdown := sample_isDown ht hel
  have hstep : w.step s t =
      { w.fall s prevEl t az with prevEl := some el, prevT := t } := by
    rw [Window.step, ht, hp]
    simp [hinside, Window.peak, hmax, hel, not_le.1 hel]
  -- The last sample before is the last one of the stretch.
  have hlos : ∀ x ∈ r.items.getLast?, x.t = s.prevT := by
    intro x hx
    obtain ⟨y, hy, -, hyt⟩ := h.last
    rw [(Stretch.openEnd_eq_some_iff.1 hr).1, Stretch.upTo,
      getLast?_append_of_ne_nil _ hb.ne_nil] at hy
    cases (Option.mem_def.1 hx).symm.trans (Option.mem_def.1 hy)
    exact hyt
  have hbisect : s.prevT < bisectHorizon w.elFn s.prevT t prevEl ∧
      bisectHorizon w.elFn s.prevT t prevEl < t := bisectHorizon_mem htime
  rw [hstep]
  have hlast : ∃ x ∈ (done ++ [w.sample t]).getLast?, x.el = some el ∧ x.t = t :=
    ⟨w.sample t, by simp, sample_el ht, rfl⟩
  have hu : Stretch.openEnd Sample.isUp
      ((done ++ [w.sample t]).rdropWhile Sample.isGap) = none := by
    rw [rdropWhile_concat_neg _ _ _ (sample_not_gap ht)]
    exact Stretch.openEnd_concat_neg (Sample.isUp_of_isDown hdown)
  have hended : (Stretch.ended Sample.isUp Sample.isDown (done ++ [w.sample t])).filter
      (fun e => w.reaches e.1) =
        (Stretch.ended Sample.isUp Sample.isDown done).filter (fun e => w.reaches e.1) ++
          if w.minElDeg ≤ s.maxEl then [(r, w.sample t)] else [] := by
    rw [Stretch.ended_concat, if_pos hdown, hr, filter_append]
    congr 1
    split_ifs with hmin
    · simpa using hpeak.reaches_iff.2 hmin
    · simpa using mt hpeak.reaches_iff.1 hmin
  by_cases hmin : w.minElDeg ≤ s.maxEl
  · rw [if_pos hmin] at hended
    refine ⟨hlast, ?_, by rw [hu]; rfl, ?_⟩
    · rw [hended]
      simp only [Window.fall, haos, if_pos hmin]
      refine rel_append h.passes (.cons ⟨hrises, ⟨fun x hx => ?_, hbisect.2⟩,
        ⟨s.maxEl, hpeak, rfl⟩, rfl⟩ .nil)
      rw [hlos x hx]
      exact hbisect.1
    · simp only [Window.fall, haos, if_pos hmin, length_append, length_singleton]
      rcases Nat.lt_or_eq_of_le (Nat.succ_le_of_lt hlt) with hroom | hroom
      · exact .inl hroom
      · exact .inr ⟨hroom, trivial⟩
  · rw [if_neg hmin, append_nil] at hended
    refine ⟨hlast, ?_, by rw [hu]; rfl, .inl ?_⟩
    · rw [hended]
      simp only [Window.fall, haos, if_neg hmin]
      exact h.passes
    · simp only [Window.fall, haos, if_neg hmin]
      exact hlt

/-- One iteration of the loop follows the samples. -/
theorem Follows.step (h : Follows w done s) (hlt : s.passes.length < w.maxPasses)
    (htime : s.prevT < t) : Follows w (done ++ [w.sample t]) (w.step s t) := by
  rcases ht : w.elFn t with _ | ⟨el, az⟩
  · exact h.step_gap ht
  · rcases hp : s.prevEl with _ | prevEl
    · exact h.step_recover hlt ht hp
    · rcases hr : Stretch.openEnd Sample.isUp done with _ | r
      · exact h.step_outside hlt htime ht hp hr
      · by_cases hel : 0 ≤ el
        · exact h.step_higher hlt ht hel hp hr
        · exact h.step_fall hlt htime ht hel hp hr

end Step

end ReticulumPi.Space
