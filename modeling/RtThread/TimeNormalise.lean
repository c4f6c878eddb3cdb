import RtThread.TimeRoundTrip

/-!
# Normalisation in `timegm`

`timegm` carries a field into the next one only above 60, 60, 24 and 12, so it leaves a field
that equals its bound, and there is no month 12 in `__spm`. The year of the day count is read
before the carries, and the loop over the months compares and takes off the days before a month
where it means those of the month.
-/
namespace RtThread.Time

open Calendar (daysBeforeYear daysBeforeMonth yearLength monthLength leap)

/-- The minutes with the carry of the seconds. -/
def Tm.carriedMin (t : Tm) : Nat := t.min + t.sec / 60

/-- The hours with the carry of the minutes. -/
def Tm.carriedHour (t : Tm) : Nat := t.hour + t.carriedMin / 60

/-- The days with the carry of the hours. -/
def Tm.carriedDay (t : Tm) : Nat := t.mday + t.carriedHour / 24

/-- The first day of the month of `t`, with the carry of the months. -/
def Tm.firstOfMonth (t : Tm) : Calendar.Date := ⟨t.year + t.mon / 12 + 1900, t.mon % 12, 1⟩

/-- The time that the fields stand for, carried over the lengths of the months and years. -/
def carriedTime (t : Tm) : Nat :=
  (t.firstOfMonth.ordinal - epoch.ordinal + (t.mday - 1)) * spd + t.hour * 3600 + t.min * 60 +
    t.sec

/-- `timegm` stays inside of `__spm`, returns the time that the fields stand for and leaves the
fields of that time. -/
def Normalises (t : Tm) : Prop :=
  ∃ r, timegm t = some ((carriedTime t : Int), r) ∧ Represents r (carriedTime t)

/-- No field comes to its bound, and the day is one of the month. -/
structure Proper (t : Tm) : Prop where
  sec : t.sec ≠ 60
  min : t.carriedMin ≠ 60
  hour : t.carriedHour ≠ 24
  mon : t.mon < 12
  mday : t.carriedDay ≤ monthLength (t.year + 1900) t.mon

/-! ## The loop over the months -/

variable {year mon mday y m d : Nat}

/-- One turn of the loop, which takes off the days before the month. -/
theorem dayLoop_turn (hmon : mon < 12) (h : spmAt (1 + mon) < mday) :
    ∃ mday', mday = mday' + spmAt mon + (if leap (year + 1900) ∧ mon = 1 then 1 else 0) ∧
      dayLoop year mon mday =
        if mon = 11 then dayLoop (year + 1) 0 mday' else dayLoop year (mon + 1) mday' := by
  have hlength : spm.length = 13 := rfl
  have hnext := spmAt_next (year + 1900) hmon
  have hmonth := Calendar.monthLength_pos (year + 1900) mon
  rw [Nat.add_comm 1 mon] at h
  refine ⟨mday - spmAt mon - (if leap (year + 1900) ∧ mon = 1 then 1 else 0), ?_, ?_⟩
  · split at hnext <;> split <;> omega
  · rw [dayLoop, if_neg (by omega), if_pos (by rwa [Nat.add_comm 1 mon]), isleap_eq]
    by_cases hlast : mon = 11
    · rw [if_pos (show 11 < mon + 1 by omega), if_pos hlast, if_neg (by omega), if_neg (by omega)]
      rfl
    · rw [if_neg (show ¬ 11 < mon + 1 by omega), if_neg hlast]
      congr 1
      simp only [and_comm (a := mon = 1)]
      split <;> omega

/-- The loop does not go back in the years. -/
theorem dayLoop_year (h : dayLoop year mon mday = some (y, m, d)) : year ≤ y := by
  fun_induction dayLoop year mon mday with
  | case1 year mon mday hout => contradiction
  | case2 year mon mday hin hlate mday' hlast ih => exact Nat.le_of_succ_le (ih h)
  | case3 year mon mday hin hlate mday' hlast ih => exact ih h
  | case4 year mon mday hin hstay =>
    rw [Option.some.injEq, Prod.mk.injEq] at h
    exact h.1.le

theorem dayLoop_mon (h : dayLoop year mon mday = some (y, m, d)) : mon < 12 := by
  have hlength : spm.length = 13 := rfl
  rw [dayLoop] at h
  split at h
  · contradiction
  · omega

/-- After January a turn takes off more than the days of the month. -/
theorem turn_lowers (hmon : 0 < mon) (hin : mon < 12) :
    monthLength y mon < spmAt mon + if leap y ∧ mon = 1 then 1 else 0 := by
  rcases Nat.lt_or_ge 1 mon with hlate | hfirst
  · have hlength := Calendar.monthLength_le y mon
    have hbefore := (spmAt_bounds mon hin.le).1 hlate
    omega
  · obtain rfl : mon = 1 := by omega
    simp only [monthLength, and_true]
    cases leap y <;> decide

theorem dayLoop_lowers (hmon : 0 < mon) (h : dayLoop year mon mday = some (year, m, d)) :
    daysBeforeMonth (year + 1900) m + d ≤ daysBeforeMonth (year + 1900) mon + mday := by
  induction mday using Nat.strongRecOn generalizing mon with
  | _ mday ih =>
    have hin := dayLoop_mon h
    have hturns := turn_lowers (y := year + 1900) hmon hin
    rcases Nat.lt_or_ge (spmAt (1 + mon)) mday with hlate | hstay
    · obtain ⟨mday', hmday, hturn⟩ := @dayLoop_turn year _ _ hin hlate
      rw [hturn] at h
      split at h
      · exact absurd (dayLoop_year h) (by omega)
      · have hrest := ih mday' (by omega) (Nat.succ_pos mon) h
        rw [daysBeforeMonth] at hrest
        omega
    · rw [dayLoop_stays hin hstay, Option.some.injEq, Prod.mk.injEq, Prod.mk.injEq] at h
      rw [h.2.1, h.2.2]

theorem dayLoop_lowers_strictly (hmon : 0 < mon) (hlate : spmAt (1 + mon) < mday)
    (h : dayLoop year mon mday = some (year, m, d)) :
    daysBeforeMonth (year + 1900) m + d < daysBeforeMonth (year + 1900) mon + mday := by
  have hin := dayLoop_mon h
  have hturns := turn_lowers (y := year + 1900) hmon hin
  obtain ⟨mday', hmday, hturn⟩ := @dayLoop_turn year _ _ hin hlate
  rw [hturn] at h
  split at h
  · exact absurd (dayLoop_year h) (by omega)
  · have hrest := dayLoop_lowers (Nat.succ_pos mon) h
    rw [daysBeforeMonth] at hrest
    omega

/-- From January the first three turns take off as many days as the months have, and leave a day
past the end of the month after each of them. -/
theorem dayLoop_january (hlate : 31 < mday) (hlength : d ≤ monthLength (year + 1900) m)
    (h : dayLoop year 0 mday = some (year, m, d)) :
    daysBeforeMonth (year + 1900) m + d ≠ mday := by
  have hmonth := Calendar.monthLength_le (year + 1900) m
  have hmarch := daysBeforeMonth_eq (year + 1900) (show 2 ≤ 12 by decide)
  have hapril := daysBeforeMonth_eq (year + 1900) (show 3 ≤ 12 by decide)
  have hspm : spmAt 0 = 0 ∧ spmAt 1 = 31 ∧ spmAt 2 = 59 ∧ spmAt 3 = 90 ∧ spmAt 4 = 120 := by
    decide
  obtain ⟨hspm₀, hspm₁, hspm₂, hspm₃, hspm₄⟩ := hspm
  simp only [Nat.reduceLT, and_true] at hmarch hapril
  obtain ⟨a, ha, hturn⟩ := @dayLoop_turn year 0 mday (by decide) (by rwa [hspm₁])
  simp only [Nat.reduceEqDiff, and_false, if_false] at ha hturn
  rw [hturn] at h
  rcases Nat.lt_or_ge 59 a with hfebruary | hstay
  · obtain ⟨b, hb, hturn⟩ := @dayLoop_turn year 1 a (by decide) (by rwa [hspm₂])
    simp only [and_true, Nat.reduceEqDiff, if_false] at hb hturn
    rw [hturn] at h
    rcases Nat.lt_or_ge 90 b with hlong | hstay
    · obtain ⟨c, hc, hturn⟩ := @dayLoop_turn year 2 b (by decide) (by rwa [hspm₃])
      simp only [Nat.reduceEqDiff, and_false, if_false] at hc hturn
      rw [hturn] at h
      rcases Nat.lt_or_ge 120 c with hlonger | hstay
      · have hlower : daysBeforeMonth (year + 1900) m + d < daysBeforeMonth (year + 1900) 3 + c :=
          dayLoop_lowers_strictly (by decide) (by rwa [hspm₄]) h
        omega
      · rw [dayLoop_stays (by decide) (by rwa [hspm₄]), Option.some.injEq, Prod.mk.injEq,
          Prod.mk.injEq] at h
        omega
    · rw [dayLoop_stays (by decide) (by rwa [hspm₃]), Option.some.injEq, Prod.mk.injEq,
        Prod.mk.injEq] at h
      have hmonth : m = 2 := h.2.1.symm
      rw [hmonth]
      omega
  · rw [dayLoop_stays (by decide) (by rwa [hspm₂]), Option.some.injEq, Prod.mk.injEq,
      Prod.mk.injEq] at h
    omega

/-- A loop that stays in the year and on the day has not turned at all. -/
theorem dayLoop_in_place (hlength : d ≤ monthLength (year + 1900) m)
    (h : dayLoop year mon mday = some (year, m, d))
    (hday : daysBeforeMonth (year + 1900) m + d = daysBeforeMonth (year + 1900) mon + mday) :
    m = mon ∧ d = mday := by
  have hin := dayLoop_mon h
  rcases Nat.lt_or_ge (spmAt (1 + mon)) mday with hlate | hstay
  · rcases Nat.eq_zero_or_pos mon with rfl | hmon
    · rw [daysBeforeMonth, Nat.zero_add] at hday
      exact absurd hday (dayLoop_january hlate hlength h)
    · exact absurd hday (dayLoop_lowers_strictly hmon hlate h).ne
  · rw [dayLoop_stays hin hstay, Option.some.injEq, Prod.mk.injEq, Prod.mk.injEq] at h
    exact ⟨h.2.1.symm, h.2.2.symm⟩

/-! ## The carries -/

variable {r t : Tm}

theorem carrySec_eq (h : t.sec ≠ 60) :
    carrySec t = { t with min := t.carriedMin, sec := t.sec % 60 } := by
  rw [carrySec]
  rcases Nat.lt_or_gt_of_ne h with hlt | hgt
  · rw [if_neg (Nat.lt_asymm hlt), Tm.carriedMin, Nat.div_eq_of_lt hlt, Nat.mod_eq_of_lt hlt]
    rfl
  · exact if_pos hgt

theorem carryMin_eq (hsec : t.sec ≠ 60) (hmin : t.carriedMin ≠ 60) :
    carryMin (carrySec t) =
      { t with sec := t.sec % 60, min := t.carriedMin % 60, hour := t.carriedHour } := by
  rw [carrySec_eq hsec, carryMin]
  rcases Nat.lt_or_gt_of_ne hmin with hlt | hgt
  · rw [if_neg (Nat.lt_asymm hlt), Tm.carriedHour, Nat.div_eq_of_lt hlt, Nat.mod_eq_of_lt hlt]
    rfl
  · exact if_pos hgt

/-- The carries up to the days, where no field comes to its bound. -/
theorem carry_eq (hsec : t.sec ≠ 60) (hmin : t.carriedMin ≠ 60) (hhour : t.carriedHour ≠ 24) :
    carry t = carryMon
      { t with
        sec := t.sec % 60, min := t.carriedMin % 60, hour := t.carriedHour % 24
        mday := t.carriedDay } := by
  rw [carry, carryMin_eq hsec hmin, carryHour]
  rcases Nat.lt_or_gt_of_ne hhour with hlt | hgt
  · rw [if_neg (Nat.lt_asymm hlt), Tm.carriedDay, Nat.div_eq_of_lt hlt, Nat.mod_eq_of_lt hlt]
    rfl
  · rw [if_pos hgt]
    rfl

theorem carryMon_clock (t : Tm) :
    (carryMon t).sec = t.sec ∧ (carryMon t).min = t.min ∧ (carryMon t).hour = t.hour := by
  rw [carryMon]
  split <;> exact ⟨rfl, rfl, rfl⟩

theorem carryHour_clock (t : Tm) :
    (carryHour t).sec = t.sec ∧ (carryHour t).min = t.min ∧ (carryHour t).mon = t.mon ∧
      (carryHour t).year = t.year := by
  rw [carryHour]
  split <;> exact ⟨rfl, rfl, rfl, rfl⟩

theorem carryMin_clock (t : Tm) :
    (carryMin t).sec = t.sec ∧ (carryMin t).mon = t.mon ∧ (carryMin t).year = t.year := by
  rw [carryMin]
  split <;> exact ⟨rfl, rfl, rfl⟩

theorem carrySec_clock (t : Tm) : (carrySec t).mon = t.mon ∧ (carrySec t).year = t.year := by
  rw [carrySec]
  split <;> exact ⟨rfl, rfl⟩

theorem carry_month (t : Tm) :
    (carry t).mon = (if 12 < t.mon then t.mon % 12 else t.mon) ∧
      (carry t).year = if 12 < t.mon then t.year + t.mon / 12 else t.year := by
  obtain ⟨-, -, hmonHour, hyearHour⟩ := carryHour_clock (carryMin (carrySec t))
  obtain ⟨-, hmonMin, hyearMin⟩ := carryMin_clock (carrySec t)
  obtain ⟨hmonSec, hyearSec⟩ := carrySec_clock t
  rw [carry, carryMon, hmonHour, hyearHour, hmonMin, hyearMin, hmonSec, hyearSec]
  split
  · exact ⟨rfl, rfl⟩
  · rw [hmonHour, hyearHour, hmonMin, hyearMin]
    exact ⟨hmonSec, hyearSec⟩

/-- The carries leave a field that comes to its bound. -/
theorem carry_bounds (hsec : (carry t).sec < 60) (hmin : (carry t).min < 60)
    (hhour : (carry t).hour < 24) : t.sec ≠ 60 ∧ t.carriedMin ≠ 60 ∧ t.carriedHour ≠ 24 := by
  rw [carry, (carryMon_clock _).1, (carryHour_clock _).1, (carryMin_clock _).1] at hsec
  rw [carry, (carryMon_clock _).2.1, (carryHour_clock _).2.1] at hmin
  rw [carry, (carryMon_clock _).2.2] at hhour
  have hs : t.sec ≠ 60 := by
    intro heq
    rw [carrySec, if_neg (by omega)] at hsec
    omega
  have hm : t.carriedMin ≠ 60 := by
    intro heq
    rw [carrySec_eq hs, carryMin, if_neg (by dsimp only; omega)] at hmin
    exact absurd heq hmin.ne
  refine ⟨hs, hm, fun heq => ?_⟩
  rw [carryMin_eq hs hm, carryHour, if_neg (by dsimp only; omega)] at hhour
  exact absurd heq hhour.ne

/-! ## When `timegm` normalises -/

/-- The time that the fields stand for, after the carries up to the days. -/
theorem carriedTime_eq (hmday : 1 ≤ t.mday) :
    carriedTime t =
      (((t.firstOfMonth.ordinal - epoch.ordinal + (t.carriedDay - 1)) * 24 +
        t.carriedHour % 24) * 60 + t.carriedMin % 60) * 60 + t.sec % 60 := by
  have hday : spd = 86400 := rfl
  rw [carriedTime, Tm.carriedDay, hday]
  generalize t.firstOfMonth.ordinal - epoch.ordinal = first
  have hsec : t.carriedMin = t.min + t.sec / 60 := rfl
  have hmin : t.carriedHour = t.hour + t.carriedMin / 60 := rfl
  omega

theorem represents_of_valid {days : Nat} (hdate : r.date.Valid) (hsec : r.sec < 60)
    (hmin : r.min < 60) (hhour : r.hour < 24)
    (hdays : r.date.ordinal = daysBeforeYear 1970 + days) :
    Represents { r with yday := r.date.yearDay, wday := (days + 4) % 7 }
      (((days * 24 + r.hour) * 60 + r.min) * 60 + r.sec) := by
  have hday : spd = 86400 := rfl
  have hquotient : (((days * 24 + r.hour) * 60 + r.min) * 60 + r.sec) / spd = days := by
    rw [hday]
    omega
  have hrest : (((days * 24 + r.hour) * 60 + r.min) * 60 + r.sec) % spd =
      (r.hour * 60 + r.min) * 60 + r.sec := by
    rw [hday]
    omega
  refine ⟨?_, ⟨hdate.day, hdate.length⟩, hdate.month, rfl, ?_, hrest.symm, hsec, hmin, hhour⟩
  · rw [hquotient]
    exact (Calendar.Date.later_eq epoch_valid hdate (hdays.trans (by rw [epoch_ordinal]))).symm
  · rw [hquotient, Nat.add_comm]

theorem firstOfMonth_days (hyear : 70 ≤ t.year) (hmon : t.mon < 12) :
    t.firstOfMonth.ordinal - epoch.ordinal =
      dayCount (t.year - 70) + daysBeforeMonth (t.year + 1900) t.mon := by
  have hdays := dayCount_eq (t.year - 70)
  rw [show 1970 + (t.year - 70) = t.year + 1900 by omega] at hdays
  have hfirst : t.firstOfMonth.ordinal =
      daysBeforeYear (t.year + 1900) + daysBeforeMonth (t.year + 1900) t.mon := by
    rw [Tm.firstOfMonth, Nat.div_eq_of_lt hmon, Nat.mod_eq_of_lt hmon]
    rfl
  rw [hfirst, epoch_ordinal, ← hdays, Nat.add_assoc, Nat.add_sub_cancel_left]

/-- A second pass of the carries changes nothing, so the carried fields are those to count. -/
theorem timegm_carry (hagain : carry (carry t) = carry t) (hyear : (carry t).year = t.year) :
    timegm t = timegm (carry t) := by
  rw [timegm, timegm, hagain, hyear]

/-- Proper fields are carried to those of the time they stand for. -/
theorem normalises_of_proper (hyear : 70 ≤ t.year) (hmday : 1 ≤ t.mday) (h : Proper t) :
    Normalises t := by
  obtain ⟨c, hcarry⟩ : ∃ c, carry t = c := ⟨_, rfl⟩
  have hfields := carry_eq h.sec h.min h.hour
  rw [carryMon, if_neg (Nat.lt_asymm h.mon), hcarry] at hfields
  have hcarried : c.date = ⟨t.year + 1900, t.mon, t.carriedDay⟩ := by rw [hfields]; rfl
  have hsame : c.year = t.year := by rw [hfields]
  have hsec : c.sec = t.sec % 60 := by rw [hfields]
  have hmin : c.min = t.carriedMin % 60 := by rw [hfields]
  have hhour : c.hour = t.carriedHour % 24 := by rw [hfields]
  have hdate : c.date.Valid := by
    rw [hcarried]
    exact ⟨h.mon, Nat.lt_of_lt_of_le hmday (Nat.le_add_right _ _), h.mday⟩
  have hsecLt : c.sec < 60 := hsec ▸ Nat.mod_lt _ (by decide)
  have hminLt : c.min < 60 := hmin ▸ Nat.mod_lt _ (by decide)
  have hhourLt : c.hour < 24 := hhour ▸ Nat.mod_lt _ (by decide)
  have hagain : carry (carry t) = carry t := by
    rw [hcarry]
    exact carry_of_bounds hsecLt hminLt hhourLt hdate.month
  have hyearDay : c.date.yearDay =
      daysBeforeMonth (t.year + 1900) t.mon + (t.carriedDay - 1) := by rw [hcarried]; rfl
  have htime : carriedTime t =
      (((dayCount (c.year - 70) + c.date.yearDay) * 24 + c.hour) * 60 + c.min) * 60 + c.sec := by
    rw [carriedTime_eq hmday, firstOfMonth_days hyear h.mon, hsec, hmin, hhour, hsame, hyearDay,
      Nat.add_assoc (dayCount _)]
  have hyearLt : 70 ≤ c.year := hsame ▸ hyear
  have hrep := represents_of_valid hdate hsecLt hminLt hhourLt (ordinal_eq hyearLt)
  rw [← htime] at hrep
  refine ⟨_, ?_, hrep⟩
  rw [timegm_carry hagain (by rw [hcarry, hsame]), hcarry,
    timegm_of_valid hyearLt hdate hsecLt hminLt hhourLt, ← htime]

/-- The days of the years tell the years apart. -/
theorem dayCount_strictMono : StrictMono dayCount := by
  apply strictMono_nat_of_lt_succ
  intro k
  have hlength := Calendar.yearLength_pos (1970 + k)
  rw [dayCount_succ]
  omega

/-- What `timegm` returns and leaves for a year from 1970 on. -/
theorem timegm_some {v : Int} (hyear : 70 ≤ t.year) (h : timegm t = some (v, r)) :
    dayLoop (carry t).year (carry t).mon (carry t).mday = some (r.year, r.mon, r.mday) ∧
      r.sec = (carry t).sec ∧ r.min = (carry t).min ∧ r.hour = (carry t).hour ∧
      v = ((((dayCount (t.year - 70) + r.yday) * 24 + r.hour) * 60 + r.min) * 60 + r.sec : Nat) := by
  rw [timegm, Option.map_eq_some_iff] at h
  obtain ⟨⟨y, m, d⟩, hloop, hresult⟩ := h
  have hcarried := (carry_month t).2
  have hback := dayLoop_year hloop
  dsimp only at hresult
  rw [if_neg (by split at hcarried <;> omega), Prod.mk.injEq] at hresult
  obtain ⟨hvalue, rfl⟩ := hresult
  exact ⟨hloop, rfl, rfl, rfl, hvalue.symm⟩

/-- Where `timegm` normalises, no field comes to its bound and the loop has not turned. -/
theorem proper_of_normalises (hyear : 70 ≤ t.year) (hmday : 1 ≤ t.mday) (h : Normalises t) :
    Proper t := by
  obtain ⟨r, htimegm, hrep⟩ := h
  obtain ⟨hloop, hsec, hmin, hhour, hvalue⟩ := timegm_some hyear htimegm
  obtain ⟨hsecNe, hminNe, hhourNe⟩ :=
    carry_bounds (hsec ▸ hrep.sec) (hmin ▸ hrep.min) (hhour ▸ hrep.hour)
  have hfields := carry_eq hsecNe hminNe hhourNe
  have hday : spd = 86400 := rfl
  have hdays : carriedTime t / spd = dayCount (t.year - 70) + r.yday := by
    have hsecLt := hrep.sec
    have hminLt := hrep.min
    have hhourLt := hrep.hour
    rw [hday]
    omega
  obtain ⟨hcarriedMon, hcarriedYear⟩ := carry_month t
  have hback := dayLoop_year hloop
  have hin := dayLoop_mon hloop
  have hlate : 70 ≤ r.year := by split at hcarriedYear <;> omega
  have hordinal := Calendar.Date.ordinal_later epoch_valid (carriedTime t / spd)
  rw [← hrep.date, epoch_ordinal, ordinal_eq hlate, hdays, ← hrep.yday] at hordinal
  have hsame : r.year = t.year := by
    have hinj := dayCount_strictMono.injective
      (Nat.add_right_cancel (Nat.add_left_cancel hordinal))
    omega
  have hmon : t.mon < 12 := by
    split at hcarriedYear
    · omega
    · rename_i hle
      rw [if_neg hle] at hcarriedMon
      omega
  have hcarriedDay : (carry t).mday = t.carriedDay := by
    rw [hfields, carryMon, if_neg (Nat.lt_asymm hmon)]
  rw [hcarriedYear, hcarriedMon, hcarriedDay, if_neg (Nat.lt_asymm hmon),
    if_neg (Nat.lt_asymm hmon), hsame] at hloop
  have hposition : carriedTime t / spd =
      dayCount (t.year - 70) + daysBeforeMonth (t.year + 1900) t.mon + (t.carriedDay - 1) := by
    rw [carriedTime_eq hmday, firstOfMonth_days hyear hmon, hday]
    omega
  have hyday := hrep.yday
  rw [Calendar.Date.yearDay, Tm.date, hsame] at hyday
  obtain ⟨hpos, hlength⟩ := hrep.mday
  rw [Tm.date, hsame] at hlength
  have hcarriedPos : 1 ≤ t.carriedDay := Nat.le_trans hmday (Nat.le_add_right _ _)
  obtain ⟨hm, hd⟩ := dayLoop_in_place hlength hloop (by dsimp only at hyday; omega)
  rw [hm, hd] at hlength
  exact ⟨hsecNe, hminNe, hhourNe, hmon, hlength⟩

/-- `timegm` normalises the fields of exactly the proper structures. -/
theorem timegm_normalises {t : Tm} (hyear : 70 ≤ t.year) (hmday : 1 ≤ t.mday) :
    Normalises t ↔ Proper t :=
  ⟨proper_of_normalises hyear hmday, normalises_of_proper hyear hmday⟩

/-- 3723 seconds after the last minute of 28 February 2000 has begun. -/
theorem timegm_normalises_leap : Normalises ⟨3723, 59, 23, 28, 1, 100, 0, 0, 0⟩ :=
  (timegm_normalises (by decide) (by decide)).mpr
    ⟨by decide, by decide, by decide, by decide, by decide⟩

/-- 32 January 2000 becomes 32 February. -/
theorem timegm_not_normalises :
    timegm ⟨0, 0, 0, 32, 0, 100, 0, 0, 0⟩ =
        some (952041600, ⟨0, 0, 0, 32, 1, 100, 5, 62, 0⟩) ∧
      ¬ Normalises ⟨0, 0, 0, 32, 0, 100, 0, 0, 0⟩ := by
  refine ⟨?_, fun h => absurd (proper_of_normalises (by decide) (by decide) h).mday (by decide)⟩
  have hloop : dayLoop 100 0 32 = some (100, 1, 32) := by
    rw [dayLoop, if_neg (by decide), if_pos (by decide), if_neg (by decide)]
    exact dayLoop_stays (by decide) (by decide)
  have hcarry : carry ⟨0, 0, 0, 32, 0, 100, 0, 0, 0⟩ = ⟨0, 0, 0, 32, 0, 100, 0, 0, 0⟩ := by decide
  rw [timegm, hcarry, hloop]
  rfl

end RtThread.Time
