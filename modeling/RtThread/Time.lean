import Mathlib.Tactic.IntervalCases
import RtThread.Lib.Calendar

/-!
# Calendar time

`gmtime_r`, `timegm`, `localtime_r` and `mktime`, on time values and years from 1970 on and on
fields that are not negative. No number on the way is larger than the time value, so they are
those of any `time_t` that holds it.
-/
namespace RtThread.Time

/-- `struct tm`. -/
structure Tm where
  sec : Nat
  min : Nat
  hour : Nat
  mday : Nat
  mon : Nat
  year : Nat
  wday : Nat
  yday : Nat
  isdst : Nat
  deriving DecidableEq

/-- `SPD`. -/
def spd : Nat := 24 * 60 * 60

/-- `__spm`. -/
def spm : List Nat :=
  [0,
    31,
    31 + 28,
    31 + 28 + 31,
    31 + 28 + 31 + 30,
    31 + 28 + 31 + 30 + 31,
    31 + 28 + 31 + 30 + 31 + 30,
    31 + 28 + 31 + 30 + 31 + 30 + 31,
    31 + 28 + 31 + 30 + 31 + 30 + 31 + 31,
    31 + 28 + 31 + 30 + 31 + 30 + 31 + 31 + 30,
    31 + 28 + 31 + 30 + 31 + 30 + 31 + 31 + 30 + 31,
    31 + 28 + 31 + 30 + 31 + 30 + 31 + 31 + 30 + 31 + 30,
    31 + 28 + 31 + 30 + 31 + 30 + 31 + 31 + 30 + 31 + 30 + 31]

/-- An element of `__spm` that exists. -/
def spmAt (i : Nat) : Nat := spm.getD i 0

/-- `__isleap`. -/
def isleap (year : Nat) : Bool := year % 4 = 0 ∧ (year % 100 ≠ 0 ∨ year % 400 = 0)

/-- `tz_is_dst`. -/
def tzIsDst : Nat := 0

/-- `k` in the loop over the years. -/
def yearDays (i : Nat) : Nat := if isleap i then 366 else 365

/-- The loop of `gmtime_r` over the years. -/
def yearLoop (i work : Nat) : Nat × Nat :=
  if yearDays i ≤ work then yearLoop (i + 1) (work - yearDays i) else (i, work)
termination_by work
decreasing_by
  have : 0 < yearDays i := by
    rw [yearDays]
    split <;> omega
  omega

/-- The loop of `gmtime_r` over the months. -/
def monthLoop : Nat → Nat → Nat
  | 0, _ => 0
  | i + 1, work => if work < spmAt (i + 1) then monthLoop i work else i + 1

/-- `gmtime_r`. -/
def gmtimeR (timep : Nat) : Tm :=
  let work := timep % spd
  let sec := work % 60
  let work := work / 60
  let min := work % 60
  let hour := work / 60
  let work := timep / spd
  let wday := (4 + work) % 7
  let years := yearLoop 1970 work
  let year := years.1
  let yday := years.2
  let late := isleap year ∧ 58 < yday
  let mday := if late ∧ yday = 59 then 2 else 1
  let work := if late then yday - 1 else yday
  let mon := monthLoop 11 work
  { sec := sec
    min := min
    hour := hour
    mday := mday + (work - spmAt mon)
    mon := mon
    year := year - 1900
    wday := wday
    yday := yday
    isdst := tzIsDst }

theorem spmAt_pos : ∀ mon < 12, 0 < mon → 31 ≤ spmAt mon := by decide

/-- The loop of `timegm` over the months; there is nothing for a month outside of `__spm`. -/
def dayLoop (year mon mday : Nat) : Option (Nat × Nat × Nat) :=
  if spm.length ≤ 1 + mon then none
  else if spmAt (1 + mon) < mday then
    let mday' := (if mon = 1 ∧ isleap (year + 1900) then mday - 1 else mday) - spmAt mon
    if 11 < mon + 1 then dayLoop (year + 1) 0 mday' else dayLoop year (mon + 1) mday'
  else some (year, mon, mday)
termination_by 2 * mday + if mon = 0 then 1 else 0
decreasing_by
  all_goals
    have hlength : spm.length = 13 := rfl
    have hpos := spmAt_pos mon (by omega)
    repeat' split
    all_goals first | contradiction | omega

/-- The days of the years since 1970. -/
def dayCount (years : Nat) : Nat :=
  let day := years * 365 + (years + 1) / 4
  if 131 ≤ years then
    let years := (years - 131) / 100
    let day := day - (years / 4 * 3 + 1)
    let years := years % 4
    let years := if years = 3 then years - 1 else years
    day - years
  else day

/-- The carries of `timegm`. -/
def carrySec (t : Tm) : Tm :=
  if 60 < t.sec then { t with min := t.min + t.sec / 60, sec := t.sec % 60 } else t

def carryMin (t : Tm) : Tm :=
  if 60 < t.min then { t with hour := t.hour + t.min / 60, min := t.min % 60 } else t

def carryHour (t : Tm) : Tm :=
  if 24 < t.hour then { t with mday := t.mday + t.hour / 24, hour := t.hour % 24 } else t

def carryMon (t : Tm) : Tm :=
  if 12 < t.mon then { t with year := t.year + t.mon / 12, mon := t.mon % 12 } else t

def carry (t : Tm) : Tm := carryMon (carryHour (carryMin (carrySec t)))

/-- `timegm`, with the time value and the structure it leaves; nothing when it reads outside of
`__spm`. -/
def timegm (t : Tm) : Option (Int × Tm) :=
  let years := t.year - 70
  let t := carry t
  (dayLoop t.year t.mon t.mday).map fun (year, mon, mday) =>
    let t := { t with year := year, mon := mon, mday := mday }
    if t.year < 70 then (-1, t)
    else
      let yday := spmAt t.mon + t.mday - 1 + if isleap (t.year + 1900) ∧ 1 < t.mon then 1 else 0
      let day := dayCount years + yday
      let t := { t with yday := yday, wday := (day + 4) % 7 }
      ((((day * 24 + t.hour) * 60 + t.min) * 60 + t.sec : Nat), t)

/-- `localtime_r` for the time zone `tz_get`. -/
def localtimeR (tz t : Int) : Tm := gmtimeR (t + tz * 3600).toNat

/-- `mktime` for the time zone `tz_get`. -/
def mktime (tz : Int) (t : Tm) : Option Int := (timegm t).map fun r => r.1 - 3600 * tz

end RtThread.Time
