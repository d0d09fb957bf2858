import ReticulumPi.Weather.Alerts

/-!
# The year of an alert

A header tells the day of the year and the time at which its alert was issued,
and the year is taken from the clock: the clock's own year, or the one before if
that would be more than a day in the future. An alert of a year that has not
begun by the clock gets the wrong one, and a day that no year has may be in the
future all the same.
-/

namespace ReticulumPi.Weather

variable {now : ℚ} {t year : ℤ} {issued : List (Fin 10)}

/-! ## Days and years -/

/-- The days from the first day of the year 1 to the one of a time. -/
def dayOf (t : ℤ) : ℤ := t / 86400 + daysBefore 1970

/-- The beginning of a year. -/
def jan1 (year : ℤ) : ℤ := 86400 * (daysBefore year - daysBefore 1970)

theorem daysBefore_succ (year : ℤ) :
    daysBefore year + 365 ≤ daysBefore (year + 1) ∧
      daysBefore (year + 1) ≤ daysBefore year + 366 := by
  unfold daysBefore
  omega

theorem daysBefore_mono {a b : ℤ} (h : a ≤ b) : daysBefore a ≤ daysBefore b := by
  unfold daysBefore
  omega

/-- The year of the clock is the one that its day is in. -/
theorem gmtimeYear_spec (now : ℚ) :
    daysBefore (gmtimeYear now) ≤ dayOf ⌊now⌋ ∧
      dayOf ⌊now⌋ < daysBefore (gmtimeYear now + 1) := by
  have hmean : ∀ d : ℤ, daysBefore (1 + d * 400 / 146097 - 1) ≤ d ∧
      d < daysBefore (1 + d * 400 / 146097 + 1 + 1) := by
    intro d
    unfold daysBefore
    omega
  obtain ⟨hlow, hhigh⟩ := hmean (dayOf ⌊now⌋)
  rw [gmtimeYear, ← dayOf]
  generalize 1 + dayOf ⌊now⌋ * 400 / 146097 = year at hlow hhigh ⊢
  split_ifs with hbefore hafter
  · exact ⟨hlow, by rwa [Int.sub_add_cancel]⟩
  · exact ⟨hafter, hhigh⟩
  · exact ⟨not_lt.1 hbefore, not_le.1 hafter⟩

/-! ## The digits of a header -/

/-- The seconds that the digits tell, from the beginning of a year. -/
def offset (issued : List (Fin 10)) : ℤ :=
  (int (issued.take 3) - 1) * 86400 + int ((issued.drop 3).take 2) * 3600 +
    int ((issued.drop 5).take 2) * 60

/-- The last digit of a number. -/
def lastDigit (n : ℤ) : Fin 10 := ⟨n.toNat % 10, by omega⟩

/-- The day of the year, the hour and the minute of a time. -/
def issueDigits (t : ℤ) : List (Fin 10) :=
  let day := dayOf t - daysBefore (gmtimeYear t) + 1
  let hour := t % 86400 / 3600
  let minute := t % 3600 / 60
  [day / 100, day / 10, day, hour / 10, hour, minute / 10, minute].map lastDigit

theorem parseIssuedTs_eq (hlen : issued.length = 7) : parseIssuedTs now issued =
    (timegmJan1 (gmtimeYear now)).bind fun ts =>
      if ((ts + offset issued : ℤ) : ℚ) > now + 86400 then
        (timegmJan1 (gmtimeYear now - 1)).bind fun prev => some (prev + offset issued)
      else some (ts + offset issued) := by
  have hsum : ∀ ts : ℤ, ts + (int (issued.take 3) - 1) * 86400 +
      int ((issued.drop 3).take 2) * 3600 + int ((issued.drop 5).take 2) * 60 =
        ts + offset issued := fun ts => by
    rw [offset]
    omega
  rw [parseIssuedTs, if_neg (not_not.2 hlen)]
  simp only [hsum]
  rfl

theorem int_two {n : ℤ} (h : 0 ≤ n) (hlt : n < 100) :
    int [lastDigit (n / 10), lastDigit n] = n := by
  simp only [int, lastDigit, List.foldl_cons, List.foldl_nil]
  omega

theorem int_three {n : ℤ} (h : 0 ≤ n) (hlt : n < 1000) :
    int [lastDigit (n / 100), lastDigit (n / 10), lastDigit n] = n := by
  simp only [int, lastDigit, List.foldl_cons, List.foldl_nil]
  omega

theorem jan1_add_offset (ht : 60 ∣ t) : jan1 (gmtimeYear t) + offset (issueDigits t) = t := by
  obtain ⟨hlow, hhigh⟩ := gmtimeYear_spec t
  rw [Int.floor_intCast] at hlow hhigh
  have hsucc := (daysBefore_succ (gmtimeYear t)).2
  have hday : int ((issueDigits t).take 3) = dayOf t - daysBefore (gmtimeYear t) + 1 :=
    int_three (by omega) (by omega)
  have hhour : int (((issueDigits t).drop 3).take 2) = t % 86400 / 3600 :=
    int_two (by omega) (by omega)
  have hminute : int (((issueDigits t).drop 5).take 2) = t % 3600 / 60 :=
    int_two (by omega) (by omega)
  rw [jan1, offset, hday, hhour, hminute, dayOf]
  omega

/-! ## The time that is recovered -/

theorem timegmJan1_eq_some_iff {ts : ℤ} :
    timegmJan1 year = some ts ↔ (1 ≤ year ∧ year ≤ 9999) ∧ jan1 year = ts := by
  rw [timegmJan1, Option.ite_none_right_eq_some, Option.some_inj]
  rfl

/-- An alert that was issued in the last 300 days or will be within a day gets
    the time at which it was, unless its year has not begun by the clock; and no
    alert gets a time in more than a day, unless the digits are of one even when
    they are taken from the year before the clock's. -/
theorem parseIssuedTs_iff (now : ℚ) :
    (∀ t : ℤ, 60 ∣ t → now - 300 * 86400 ≤ t → t ≤ now + 86400 →
      1 ≤ gmtimeYear t → gmtimeYear now ≤ 9999 →
        (parseIssuedTs now (issueDigits t) = some t ↔ gmtimeYear t ≤ gmtimeYear now)) ∧
    ∀ issued : List (Fin 10), issued.length = 7 →
      ((∀ ts ∈ parseIssuedTs now issued, ts ≤ now + 86400) ↔
        gmtimeYear now < 2 ∨ 9999 < gmtimeYear now ∨
          ((jan1 (gmtimeYear now - 1) + offset issued : ℤ) : ℚ) ≤ now + 86400) := by
  constructor
  · intro t ht hlow hhigh hfirst hlast
    obtain ⟨hyear, hyear'⟩ := gmtimeYear_spec t
    obtain ⟨hnow, hnow'⟩ := gmtimeYear_spec now
    rw [Int.floor_intCast] at hyear hyear'
    have hage : ⌊now⌋ - 25920000 ≤ t := by
      have := Int.floor_le now
      exact_mod_cast (by linarith : (⌊now⌋ : ℚ) - 25920000 ≤ t)
    have hahead : t ≤ ⌊now⌋ + 86400 := by
      have := Int.lt_floor_add_one now
      exact Int.lt_add_one_iff.1 (by exact_mod_cast (by linarith : (t : ℚ) < ⌊now⌋ + 86400 + 1))
    have hday : dayOf ⌊now⌋ - 300 ≤ dayOf t ∧ dayOf t ≤ dayOf ⌊now⌋ + 1 := by
      unfold dayOf
      omega
    have hback := jan1_add_offset ht
    rw [parseIssuedTs_eq (rfl : (issueDigits t).length = 7)]
    generalize gmtimeYear (t : ℚ) = y at *
    generalize gmtimeYear now = year at *
    have hlength := daysBefore_succ year
    have hprevious := daysBefore_succ (year - 1)
    rw [Int.sub_add_cancel] at hprevious
    unfold jan1 at hback
    constructor
    · intro heq
      by_contra hlt
      obtain ⟨ts, hts, heq⟩ := Option.bind_eq_some_iff.1 heq
      obtain ⟨-, rfl⟩ := timegmJan1_eq_some_iff.1 hts
      have hnext := daysBefore_mono (Int.add_one_le_iff.2 (not_le.1 hlt))
      split_ifs at heq
      · obtain ⟨prev, hprev, heq⟩ := Option.bind_eq_some_iff.1 heq
        obtain ⟨-, rfl⟩ := timegmJan1_eq_some_iff.1 hprev
        have := Option.some.inj heq
        unfold jan1 at this
        omega
      · have := Option.some.inj heq
        unfold jan1 at this
        omega
    · intro hle
      rw [timegmJan1_eq_some_iff.2 ⟨⟨hfirst.trans hle, hlast⟩, rfl⟩, Option.bind_some]
      rcases hle.eq_or_lt with rfl | hlt
      · rw [jan1, hback, if_neg (not_lt.2 hhigh)]
      · obtain rfl : y = year - 1 := by
          by_contra hne
          have := daysBefore_mono (show y + 1 ≤ year - 1 by omega)
          omega
        have hyears : t + 365 * 86400 ≤ jan1 year + offset (issueDigits t) := by
          unfold jan1
          omega
        have hfuture : now + 86400 < (jan1 year + offset (issueDigits t) : ℤ) := by
          have : (t : ℚ) + 365 * 86400 ≤ (jan1 year + offset (issueDigits t) : ℤ) := by
            exact_mod_cast hyears
          linarith
        rw [if_pos hfuture, timegmJan1_eq_some_iff.2 ⟨⟨hfirst, by omega⟩, rfl⟩, Option.bind_some,
          jan1, hback]
  · intro issued hlen
    rw [parseIssuedTs_eq hlen]
    have hprevious := (daysBefore_succ (gmtimeYear now - 1)).1
    rw [Int.sub_add_cancel] at hprevious
    generalize gmtimeYear now = year at *
    by_cases hyear : 2 ≤ year ∧ year ≤ 9999
    · have hle : ((jan1 (year - 1) + offset issued : ℤ) : ℚ) ≤ (jan1 year + offset issued : ℤ) := by
        unfold jan1
        exact_mod_cast (by omega)
      rw [timegmJan1_eq_some_iff.2 ⟨⟨by omega, hyear.2⟩, rfl⟩, Option.bind_some,
        timegmJan1_eq_some_iff.2 ⟨⟨by omega, by omega⟩, rfl⟩]
      have hcond : ¬ (year < 2 ∨ 9999 < year) := by omega
      rw [← or_assoc, or_iff_right hcond]
      split_ifs with hfuture
      · simp
      · refine iff_of_true (fun ts hts => ?_) (hle.trans (not_lt.1 hfuture))
        cases hts
        exact not_lt.1 hfuture
    · -- There is no date to begin with, or none to go back to.
      refine iff_of_true (fun ts hts => ?_) (by omega)
      obtain ⟨first, hfirst, hts⟩ := Option.bind_eq_some_iff.1 hts
      have hrange := (timegmJan1_eq_some_iff.1 hfirst).1
      split_ifs at hts with hfuture
      · obtain ⟨prev, hprev, -⟩ := Option.bind_eq_some_iff.1 hts
        have := (timegmJan1_eq_some_iff.1 hprev).1
        omega
      · cases hts
        exact not_lt.1 hfuture

/-- Half a minute before the year 2025 by the clock: an alert issued at its
    beginning is taken for one of a year before, and one of the day 999 is in the
    future. -/
theorem parseIssuedTs_newYear :
    parseIssuedTs 1735689570 (issueDigits 1735689600) ≠ some 1735689600 ∧
      ∃ ts ∈ parseIssuedTs 1735689570 [9, 9, 9, 0, 0, 0, 0], 1735689570 + 86400 < (ts : ℚ) := by
  decide +kernel

/-- A minute later by the clock. -/
theorem parseIssuedTs_newYear_begun :
    parseIssuedTs 1735689630 (issueDigits 1735689600) = some 1735689600 :=
  ((parseIssuedTs_iff 1735689630).1 1735689600 (by decide) (by norm_num) (by norm_num)
    (by decide +kernel) (by decide +kernel)).2 (by decide +kernel)

end ReticulumPi.Weather
