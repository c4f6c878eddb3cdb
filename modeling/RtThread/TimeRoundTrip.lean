import RtThread.Time

/-!
# The calendar round trip

`gmtime_r` walks over the years, and `timegm` counts their days with a formula that it corrects
for the centuries after 2100. Both agree with the days of the Gregorian calendar.
-/
namespace RtThread.Time

open Calendar (daysBeforeYear daysBeforeMonth yearLength monthLength leap)

/-- The first day of 1970. -/
def epoch : Calendar.Date := ⟨1970, 0, 1⟩

/-- The date of a broken-down time. -/
def Tm.date (r : Tm) : Calendar.Date := ⟨r.year + 1900, r.mon, r.mday⟩

/-- The fields are those of the time value `t`: 1970 began with a Thursday. -/
structure Represents (r : Tm) (t : Nat) : Prop where
  date : r.date = epoch.later (t / spd)
  mday : 0 < r.mday ∧ r.mday ≤ monthLength r.date.year r.mon
  mon : r.mon < 12
  yday : r.yday = r.date.yearDay
  wday : r.wday = (4 + t / spd) % 7
  seconds : (r.hour * 60 + r.min) * 60 + r.sec = t % spd
  sec : r.sec < 60
  min : r.min < 60
  hour : r.hour < 24

/-! ## Years and months -/

theorem isleap_eq (y : Nat) : isleap y = leap y := by
  rw [isleap, leap, decide_eq_decide]
  refine and_congr_right fun _ => ?_
  rw [ne_eq, ← imp_iff_not_or]

theorem yearDays_eq (y : Nat) : yearDays y = yearLength y := by
  rw [yearDays, yearLength, isleap_eq]

/-- The year that the loop ends in. -/
theorem yearLoop_spec (i work : Nat) :
    i ≤ (yearLoop i work).1 ∧ (yearLoop i work).2 < yearLength (yearLoop i work).1 ∧
      daysBeforeYear (yearLoop i work).1 + (yearLoop i work).2 = daysBeforeYear i + work := by
  induction work using Nat.strongRecOn generalizing i with
  | _ work ih =>
    rw [yearLoop, yearDays_eq]
    split
    · rename_i hle
      have hpos := Calendar.yearLength_pos i
      obtain ⟨hyear, hrest, hdays⟩ := ih (work - yearLength i) (by omega) (i + 1)
      rw [daysBeforeYear] at hdays
      exact ⟨by omega, hrest, by omega⟩
    · rename_i hlt
      exact ⟨Nat.le_refl i, Nat.lt_of_not_le hlt, rfl⟩

theorem monthLoop_spec (i work : Nat) :
    monthLoop i work ≤ i ∧ spmAt (monthLoop i work) ≤ work ∧
      (monthLoop i work < i → work < spmAt (monthLoop i work + 1)) := by
  induction i with
  | zero => exact ⟨Nat.le_refl 0, Nat.zero_le work, fun h => absurd h (Nat.lt_irrefl 0)⟩
  | succ i ih =>
    obtain ⟨hle, hlow, hhigh⟩ := ih
    rw [monthLoop]
    split
    · rename_i hlt
      refine ⟨by omega, hlow, fun _ => ?_⟩
      rcases Nat.lt_or_ge (monthLoop i work) i with hless | hge
      · exact hhigh hless
      · rwa [Nat.le_antisymm hle hge]
    · rename_i hge
      exact ⟨Nat.le_refl _, Nat.le_of_not_lt hge, fun h => absurd h (Nat.lt_irrefl _)⟩

/-- `__spm` counts the days before a month, without 29 February. -/
theorem daysBeforeMonth_eq (y : Nat) {m : Nat} (h : m ≤ 12) :
    daysBeforeMonth y m = spmAt m + if leap y ∧ 1 < m then 1 else 0 := by
  interval_cases m <;> simp only [daysBeforeMonth, monthLength] <;>
    cases leap y <;> rfl

theorem spmAt_next (y : Nat) {m : Nat} (h : m < 12) :
    spmAt (m + 1) + (if leap y ∧ m = 1 then 1 else 0) = spmAt m + monthLength y m := by
  have hnext := daysBeforeMonth_eq y (show m + 1 ≤ 12 from h)
  rw [daysBeforeMonth, daysBeforeMonth_eq y h.le] at hnext
  cases hleap : leap y with
  | false => simpa [hleap] using hnext.symm
  | true =>
    simp only [hleap, true_and] at hnext ⊢
    split <;> split at hnext <;> split at hnext <;> omega

/-! ## The day count of `timegm` -/

/-- The correction takes off the centuries after 1970 and puts every fourth of them back. -/
theorem dayCount_closed (k : Nat) :
    dayCount k + (1969 + k) / 100 = k * 365 + (k + 1) / 4 + (1969 + k) / 400 + 15 := by
  rw [dayCount]
  split
  · rename_i hlate
    have hcentury : (1969 + k) / 100 = (k - 131) / 100 + 21 := by omega
    have hfourth : (1969 + k) / 400 = ((k - 131) / 100 + 21) / 4 := by
      rw [← hcentury, Nat.div_div_eq_div_mul]
    have hless : (k - 131) / 100 ≤ k := by omega
    rw [hcentury, hfourth]
    generalize (k - 131) / 100 = c at hless
    generalize (k + 1) / 4 = fourth
    dsimp only
    split <;> omega
  · omega

theorem dayCount_succ (k : Nat) : dayCount (k + 1) = dayCount k + yearLength (1970 + k) := by
  have hnow := dayCount_closed k
  have hnext := dayCount_closed (k + 1)
  have hfour : (k + 1 + 1) / 4 = (k + 1) / 4 + if (1970 + k) % 4 = 0 then 1 else 0 := by
    split <;> omega
  have hcentury : (1969 + (k + 1)) / 100 =
      (1969 + k) / 100 + if (1970 + k) % 100 = 0 then 1 else 0 := by
    split <;> omega
  have hfourth : (1969 + (k + 1)) / 400 =
      (1969 + k) / 400 + if (1970 + k) % 400 = 0 then 1 else 0 := by
    split <;> omega
  have hdivides : (1970 + k) % 400 = 0 → (1970 + k) % 100 = 0 ∧ (1970 + k) % 4 = 0 := by omega
  have hcenturies : (1970 + k) % 100 = 0 → (1970 + k) % 4 = 0 := by omega
  rw [hfour, hcentury, hfourth] at hnext
  rw [yearLength, leap]
  generalize (1970 + k) % 4 = a at *
  generalize (1970 + k) % 100 = b at *
  generalize (1970 + k) % 400 = c at *
  generalize (1969 + k) / 100 = u at *
  generalize (1969 + k) / 400 = v at *
  generalize (k + 1) / 4 = w at *
  simp only [decide_eq_true_eq]
  split <;> split at hnext <;> split at hnext <;> split at hnext <;> omega

theorem dayCount_eq (k : Nat) : daysBeforeYear 1970 + dayCount k = daysBeforeYear (1970 + k) := by
  induction k with
  | zero =>
    have hzero : dayCount 0 = 0 := rfl
    rw [hzero, Nat.add_zero, Nat.add_zero]
  | succ k ih =>
    rw [dayCount_succ, ← Nat.add_assoc, ih]
    rfl

/-! ## From a time value to the fields -/

theorem spmAt_bounds : ∀ m ≤ 12, (2 ≤ m → 59 ≤ spmAt m) ∧ (m ≤ 2 → spmAt m ≤ 59) ∧
    (m ≤ 1 → spmAt m ≤ 31) := by decide

/-- The month and the day of a day of the year, with 29 February apart. -/
theorem month_day {y w work mon mday : Nat} (hw : w < yearLength y)
    (hwork : work = if leap y ∧ 58 < w then w - 1 else w) (hmon : mon = monthLoop 11 work)
    (hmday : mday = (if (leap y ∧ 58 < w) ∧ w = 59 then 2 else 1) + (work - spmAt mon)) :
    mon < 12 ∧ 0 < mday ∧ mday ≤ monthLength y mon ∧ daysBeforeMonth y mon + (mday - 1) = w := by
  obtain ⟨hle, hlow, hhigh⟩ := monthLoop_spec 11 work
  rw [← hmon] at hle hlow hhigh
  have hlast : spmAt 12 = 365 := rfl
  have hmonth : mon < 12 := by omega
  have hnext := spmAt_next y hmonth
  have hdays := daysBeforeMonth_eq y hmonth.le
  obtain ⟨hlate, -, -⟩ := spmAt_bounds mon hmonth.le
  obtain ⟨-, hearly, hfirst⟩ := spmAt_bounds (mon + 1) hmonth
  have hbelow : work < spmAt (mon + 1) := by
    rcases Nat.lt_or_ge mon 11 with hlt | hge
    · exact hhigh hlt
    · rw [show mon = 11 by omega, hlast, hwork]
      rw [yearLength] at hw
      cases hleap : leap y with
      | false =>
        rw [hleap] at hw
        simpa using hw
      | true =>
        rw [hleap, if_pos rfl] at hw
        simp only [true_and]
        split <;> omega
  cases hleap : leap y with
  | false =>
    simp only [hleap, Bool.false_eq_true, false_and, if_false] at hwork hmday hnext hdays
    omega
  | true =>
    simp only [hleap, true_and] at hwork hmday hnext hdays
    by_cases hafter : 58 < w
    · rw [if_pos hafter] at hwork
      by_cases hday : w = 59
      · rw [if_pos ⟨hafter, hday⟩] at hmday
        split at hnext
        · split at hdays <;> omega
        · split at hdays <;> omega
      · rw [if_neg (fun h => hday h.2)] at hmday
        split at hnext <;> split at hdays <;> omega
    · rw [if_neg hafter] at hwork
      rw [if_neg (fun h => hafter h.1)] at hmday
      split at hnext <;> split at hdays <;> omega

theorem gmtimeR_date (t : Nat) :
    (gmtimeR t).date.Valid ∧ (gmtimeR t).yday = (gmtimeR t).date.yearDay ∧
      (gmtimeR t).date.ordinal = daysBeforeYear 1970 + t / spd := by
  obtain ⟨hyear, hrest, hdays⟩ := yearLoop_spec 1970 (t / spd)
  have hdate : (gmtimeR t).date.year = (yearLoop 1970 (t / spd)).1 := Nat.sub_add_cancel (by omega)
  obtain ⟨hmon, hpos, hlength, hday⟩ := @month_day _ _ _ (gmtimeR t).mon
    (gmtimeR t).mday hrest rfl (by rw [gmtimeR]; dsimp only; rw [isleap_eq])
    (by rw [gmtimeR]; dsimp only; rw [isleap_eq])
  have hyday : (gmtimeR t).date.yearDay = (yearLoop 1970 (t / spd)).2 := by
    rw [Calendar.Date.yearDay, hdate]
    exact hday
  refine ⟨⟨hmon, hpos, ?_⟩, hyday.symm, ?_⟩
  · rw [hdate]
    exact hlength
  · rw [Calendar.Date.ordinal, hdate, hyday, hdays]

theorem epoch_valid : epoch.Valid := ⟨by decide, by decide, by decide⟩

theorem epoch_ordinal : epoch.ordinal = daysBeforeYear 1970 := by
  have hfirst : epoch.yearDay = 0 := rfl
  have hyear : epoch.year = 1970 := rfl
  rw [Calendar.Date.ordinal, hfirst, hyear, Nat.add_zero]

/-- `gmtime_r` gives the date and the time of the time value. -/
theorem gmtimeR_represents (t : Nat) : Represents (gmtimeR t) t := by
  obtain ⟨hvalid, hyday, hordinal⟩ := gmtimeR_date t
  have hlt : t % spd < 86400 := Nat.mod_lt _ (by decide)
  refine ⟨?_, ⟨hvalid.day, hvalid.length⟩, hvalid.month, hyday, rfl, ?_, Nat.mod_lt _ (by decide),
    Nat.mod_lt _ (by decide), ?_⟩
  · exact (Calendar.Date.later_eq epoch_valid hvalid (hordinal.trans (by rw [epoch_ordinal]))).symm
  · show (t % spd / 60 / 60 * 60 + t % spd / 60 % 60) * 60 + t % spd % 60 = t % spd
    omega
  · show t % spd / 60 / 60 < 24
    omega

/-! ## Back to the time value -/

/-- No month is longer than the days up to its end. -/
theorem monthLength_le (y : Nat) {m : Nat} (h : m < 12) : monthLength y m ≤ spmAt (1 + m) := by
  have hnext := spmAt_next y h
  rw [Nat.add_comm 1 m]
  split at hnext
  · rename_i hfebruary
    have hpos := spmAt_pos m h (by omega)
    omega
  · omega

theorem dayLoop_stays {year mon mday : Nat} (hmon : mon < 12) (h : mday ≤ spmAt (1 + mon)) :
    dayLoop year mon mday = some (year, mon, mday) := by
  have hlength : spm.length = 13 := rfl
  rw [dayLoop, if_neg (by omega), if_neg (by omega)]

/-- The days since 1970 of a date from then on. -/
theorem ordinal_eq {r : Tm} (hyear : 70 ≤ r.year) :
    r.date.ordinal = daysBeforeYear 1970 + (dayCount (r.year - 70) + r.date.yearDay) := by
  have hdays := dayCount_eq (r.year - 70)
  rw [show 1970 + (r.year - 70) = r.year + 1900 by omega] at hdays
  rw [Calendar.Date.ordinal, ← Nat.add_assoc, hdays]
  rfl

theorem yearDay_eq {r : Tm} (hmon : r.mon < 12) (hmday : 0 < r.mday) :
    spmAt r.mon + r.mday - 1 + (if isleap (r.year + 1900) ∧ 1 < r.mon then 1 else 0) =
      r.date.yearDay := by
  have hdays : daysBeforeMonth (r.year + 1900) r.mon = _ := daysBeforeMonth_eq _ hmon.le
  have hday : r.date.yearDay = daysBeforeMonth (r.year + 1900) r.mon + (r.mday - 1) := rfl
  rw [hday, hdays, isleap_eq]
  omega

theorem carry_of_bounds {r : Tm} (hsec : r.sec < 60) (hmin : r.min < 60) (hhour : r.hour < 24)
    (hmon : r.mon < 12) : carry r = r := by
  rw [carry, carrySec, if_neg (by omega), carryMin, if_neg (by omega), carryHour,
    if_neg (by omega), carryMon, if_neg (by omega)]

/-- `timegm` counts the days of a date of the calendar. -/
theorem timegm_of_valid {r : Tm} (hyear : 70 ≤ r.year) (hdate : r.date.Valid)
    (hsec : r.sec < 60) (hmin : r.min < 60) (hhour : r.hour < 24) :
    timegm r = some
      ((((((dayCount (r.year - 70) + r.date.yearDay) * 24 + r.hour) * 60 + r.min) * 60 +
          r.sec : Nat) : Int),
        { r with
          yday := r.date.yearDay
          wday := (dayCount (r.year - 70) + r.date.yearDay + 4) % 7 }) := by
  have hmon : r.mon < 12 := hdate.month
  have hmday : 0 < r.mday := hdate.day
  have hlength : r.mday ≤ spmAt (1 + r.mon) := Nat.le_trans hdate.length (monthLength_le _ hmon)
  simp only [timegm, carry_of_bounds hsec hmin hhour hmon, dayLoop_stays hmon hlength,
    Option.map_some, if_neg (show ¬ r.year < 70 by omega), yearDay_eq hmon hmday]

theorem timegm_gmtimeR (t : Nat) : timegm (gmtimeR t) = some ((t : Int), gmtimeR t) := by
  obtain ⟨hvalid, hyday, hordinal⟩ := gmtimeR_date t
  have hrep := gmtimeR_represents t
  have hday : spd = 86400 := rfl
  have hyear : 70 ≤ (gmtimeR t).year := by
    have hloop := (yearLoop_spec 1970 (t / spd)).1
    show 70 ≤ (yearLoop 1970 (t / spd)).1 - 1900
    omega
  have hdays : dayCount ((gmtimeR t).year - 70) + (gmtimeR t).date.yearDay = t / spd := by
    have heq := ordinal_eq hyear
    rw [hordinal] at heq
    exact (Nat.add_left_cancel heq).symm
  rw [timegm_of_valid hyear hvalid hrep.sec hrep.min hrep.hour, hdays]
  have hseconds := hrep.seconds
  have htime : ((t / spd * 24 + (gmtimeR t).hour) * 60 + (gmtimeR t).min) * 60 + (gmtimeR t).sec =
      t := by
    rw [hday] at hseconds ⊢
    omega
  have hwday : (t / spd + 4) % 7 = (gmtimeR t).wday := by rw [hrep.wday, Nat.add_comm]
  rw [htime, hwday, ← hyday]

/-- The calendar round trip: `gmtime_r` gives the date and the time of every time value, `timegm`
brings it back, and so does `mktime` after `localtime_r` in every time zone. -/
theorem calendar_round_trip (u : Nat) (t tz : Int) (hlocal : 0 ≤ t + 3600 * tz) :
    Represents (gmtimeR u) u ∧ timegm (gmtimeR u) = some ((u : Int), gmtimeR u) ∧
      mktime tz (localtimeR tz t) = some t := by
  refine ⟨gmtimeR_represents u, timegm_gmtimeR u, ?_⟩
  have hvalue : (((t + tz * 3600).toNat : Nat) : Int) - 3600 * tz = t := by omega
  rw [mktime, localtimeR, timegm_gmtimeR, Option.map_some, hvalue]

/-- The last second of the leap day of the year 2000, and the first of 1970 in Beijing. -/
theorem calendar_round_trip_leap :
    Represents (gmtimeR 951868799) 951868799 ∧
      timegm (gmtimeR 951868799) = some (951868799, gmtimeR 951868799) ∧
      mktime 8 (localtimeR 8 (-28800)) = some (-28800) :=
  calendar_round_trip 951868799 (-28800) 8 (by decide)

end RtThread.Time
