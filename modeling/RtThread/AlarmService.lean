import Mathlib.Algebra.Group.Int.Defs
import Mathlib.Data.List.Basic
import RtThread.Lib.Runs

/-!
# The alarm service of the real-time clock

The alarms of `_container` with the one that the device has been set to. Every read of the time
is a timestamp of its own, and a call reads the time up to three times. The device is a function
from the alarm it is set to to the alarm it reports afterwards, for some devices keep an alarm
only to the minute. The callbacks of the alarms do not call the service.
-/
namespace RtThread.AlarmService

/-- `RT_ALARM_DELAY`, with and without `RT_USING_SOFT_RTC`. -/
def rtAlarmDelay (softRtc : Bool) : Int := if softRtc then 0 else 2

structure Tm where
  tmSec : Int
  tmMin : Int
  tmHour : Int
  tmMday : Int
  tmMon : Int
  tmYear : Int
  tmWday : Int
  deriving DecidableEq

def isleap (year : Int) : Bool := year % 4 = 0 ∧ (year % 100 ≠ 0 ∨ year % 400 = 0)

/-- `__spm`: the days of a year before a month. -/
def spm (month : Nat) : Int :=
  [0, 31, 59, 90, 120, 151, 181, 212, 243, 273, 304, 334, 365].getD month 0

/-- The year of a day, counted from the start of some year, and the day of the year. -/
def yearOf : Nat → Int → Int → Int × Int
  | 0, year, work => (year, work)
  | fuel + 1, year, work =>
    let k := if isleap year then 366 else 365
    if k ≤ work then yearOf fuel (year + 1) (work - k) else (year, work)

/-- The last month, up to a bound, that begins on a day or before it. -/
def monthOf (work : Int) : Nat → Nat
  | 0 => 0
  | i + 1 => if work < spm (i + 1) then monthOf work i else i + 1

/-- `gmtime_r`. -/
def gmtimeR (timestamp : Nat) : Tm :=
  let second : Nat := timestamp % 86400
  let day : Nat := timestamp / 86400
  let (year, yday) := yearOf day 1970 day
  let leapDay := isleap year && decide (58 < yday)
  let work := if leapDay then yday - 1 else yday
  let month := monthOf work 11
  { tmSec := second % 60
    tmMin := second / 60 % 60
    tmHour := second / 3600
    tmMday := (if leapDay && decide (yday = 59) then 2 else 1) + (work - spm month)
    tmMon := month
    tmYear := year - 1900
    tmWday := (4 + day) % 7 }

/-- `timegm` of a date that is valid, as a `rt_uint32_t`. -/
def timegm (t : Tm) : Int :=
  if t.tmYear < 70 then 2 ^ 32 - 1
  else
    let years := t.tmYear - 70
    let centuries := (years - 131) / 100
    let skipped := if centuries % 4 = 3 then 2 else centuries % 4
    let day := years * 365 + (years + 1) / 4 -
      (if 131 ≤ years then centuries / 4 * 3 + 1 + skipped else 0) +
      spm t.tmMon.toNat + t.tmMday - 1 +
      (if isleap (t.tmYear + 1900) ∧ 1 < t.tmMon then 1 else 0)
    (((day * 24 + t.tmHour) * 60 + t.tmMin) * 60 + t.tmSec) % 2 ^ 32

/-- `alarm_mkdaysec`. -/
def alarmMkdaysec (time : Tm) : Int := time.tmSec + time.tmMin * 60 + time.tmHour * 3600

/-- `flag & 0xFF00`. -/
inductive AlarmFlag where
  | oneshot | daily | weekly | monthly | yearly | hour | minute | second
  /-- None of the flags of `alarm.h`. -/
  | other
  deriving DecidableEq

structure RtAlarm where
  /-- Which alarm it is. -/
  id : Nat
  flag : AlarmFlag
  /-- `RT_ALARM_STATE_START`. -/
  start : Bool
  wktime : Tm
  deriving DecidableEq

structure RtRtcWkalarm where
  tmSec : Int
  tmMin : Int
  tmHour : Int
  deriving DecidableEq

/-- The alarms, in the order of the list, and the one the device has been set to. -/
structure Container where
  head : List RtAlarm
  current : Option Nat
  /-- The alarms whose callbacks have been called. -/
  woken : List Nat
  deriving DecidableEq

/-- `_container` after `rt_alarm_system_init`. -/
def rtAlarmSystemInit : Container := ⟨[], none, []⟩

variable (softRtc : Bool) (device : RtRtcWkalarm → RtRtcWkalarm)

/-- `alarm_set`, on a device whose operations succeed. -/
def alarmSet (alarm : RtAlarm) : RtAlarm :=
  if alarm.start then
    let w := device ⟨alarm.wktime.tmSec, alarm.wktime.tmMin, alarm.wktime.tmHour⟩
    { alarm with
      wktime := { alarm.wktime with tmSec := w.tmSec, tmMin := w.tmMin, tmHour := w.tmHour } }
  else alarm

/-- The hour after the one of `now`. -/
def hourAfter (now t : Tm) : Tm :=
  { t with tmHour := if 23 < now.tmHour + 1 then 0 else now.tmHour + 1 }

/-- The minute after the one of `now`. -/
def minuteAfter (now t : Tm) : Tm :=
  if 59 < now.tmMin + 1 then { hourAfter now t with tmMin := 0 }
  else { t with tmHour := now.tmHour, tmMin := now.tmMin + 1 }

/-- The second after `now`. -/
def secondAfter (now t : Tm) : Tm :=
  if 59 < now.tmSec + 1 then { minuteAfter now t with tmSec := 0 }
  else { t with tmHour := now.tmHour, tmMin := now.tmMin, tmSec := now.tmSec + 1 }

/-- An alarm is at most the delay behind, in the arithmetic of `rt_uint32_t`. -/
def overtime (secNow secAlarm : Int) : Bool :=
  (secNow - secAlarm) % 2 ^ 32 ≤ rtAlarmDelay softRtc

/-- `alarm_wakeup`: the alarm afterwards, and whether its callback is called. -/
def alarmWakeup (now : Tm) (alarm : RtAlarm) : RtAlarm × Bool :=
  let secAlarm := alarmMkdaysec alarm.wktime
  let secNow := alarmMkdaysec now
  if alarm.start then
    match alarm.flag with
    | .oneshot =>
      if overtime softRtc (timegm now) (timegm alarm.wktime) ∧
          timegm alarm.wktime ≤ timegm now then
        (alarmSet device { alarm with start := false }, true)
      else (alarm, false)
    | .second => ({ alarm with wktime := secondAfter now alarm.wktime }, true)
    | .minute =>
      if alarm.wktime.tmSec = now.tmSec then
        ({ alarm with wktime := minuteAfter now alarm.wktime }, true)
      else ({ alarm with wktime := { alarm.wktime with tmHour := now.tmHour } }, false)
    | .hour =>
      if alarm.wktime.tmMin = now.tmMin ∧ alarm.wktime.tmSec = now.tmSec then
        ({ alarm with wktime := hourAfter now alarm.wktime }, true)
      else (alarm, false)
    | .daily => (alarm, overtime softRtc secNow secAlarm && decide (secAlarm ≤ secNow))
    | .weekly =>
      let secAlarm := secAlarm + alarm.wktime.tmWday * 24 * 3600
      let secNow := secNow + now.tmWday * 24 * 3600
      (alarm, overtime softRtc secNow secAlarm && decide (secAlarm ≤ secNow))
    | .monthly =>
      (alarm, decide (alarm.wktime.tmMday = now.tmMday) && overtime softRtc secNow secAlarm)
    | .yearly =>
      (alarm, decide (alarm.wktime.tmMday = now.tmMday) &&
        decide (alarm.wktime.tmMon = now.tmMon) && overtime softRtc secNow secAlarm)
    | .other => (alarm, false)
  else (alarm, false)

/-- What the scan of the alarms has found: the most recent one after now, and the one before now
that is furthest from it. -/
structure Scan where
  secNext : Int
  almNext : Option Nat
  secPrev : Int
  almPrev : Option Nat

/-- One alarm of the scan. -/
def scanAlarm (secNow : Int) (scan : Scan) (alarm : RtAlarm) : Scan :=
  let secTmp := alarmMkdaysec alarm.wktime - secNow
  if alarm.start then
    if 0 < secTmp then
      if secTmp < scan.secNext then { scan with secNext := secTmp, almNext := some alarm.id }
      else scan
    else if secTmp < scan.secPrev then { scan with secPrev := secTmp, almPrev := some alarm.id }
    else scan
  else scan

def scanAlarms (secNow : Int) (head : List RtAlarm) : Scan :=
  head.foldl (scanAlarm secNow) ⟨24 * 3600, none, 0, none⟩

/-- The alarm that `alarm_update` sets the device to, if it finds one. -/
def Scan.found (scan : Scan) : Option Nat :=
  if scan.secNext < 24 * 3600 then scan.almNext
  else if scan.secPrev < 0 then scan.almPrev
  else none

/-- A change of one alarm. -/
def Container.change (c : Container) (id : Nat) (f : RtAlarm → RtAlarm) : Container :=
  { c with head := c.head.map fun a => if a.id = id then f a else a }

def Container.find (c : Container) (id : Nat) : Option RtAlarm := c.head.find? (·.id = id)

/-- The device is set to an alarm, and it is the current one. -/
def Container.arm (c : Container) (id : Nat) : Container :=
  { c.change id (alarmSet device) with current := some id }

/-- The overtime alarms are woken up. -/
def Container.wake (c : Container) (now : Tm) : Container :=
  let awake := c.head.map (alarmWakeup softRtc device now)
  { c with
    head := awake.map Prod.fst
    woken := c.woken ++ (awake.filter Prod.snd).map fun p => p.1.id }

/-- The device is set to the alarm that is found, or again to the current one. -/
def Container.rearm (c : Container) (secNow : Int) : Container :=
  match (scanAlarms secNow c.head).found with
  | some id => c.arm device id
  | none =>
    match c.current with
    | some id => c.change id (alarmSet device)
    | none => c

/-- `alarm_update`: it reads the time before the alarms are woken up and after it. -/
def alarmUpdate (c : Container) (waking scanning : Nat) : Container :=
  if c.head = [] then c
  else (c.wake softRtc device (gmtimeR waking)).rearm device (alarmMkdaysec (gmtimeR scanning))

/-- `days_of_year_month`. -/
def daysOfYearMonth (tmYear tmMon : Int) : Int :=
  let year := tmYear + 1900
  if tmMon = 1 then 28 + if isleap year then 1 else 0
  else if tmMon ≤ 6 ∧ tmMon % 2 = 0 ∨ 6 < tmMon ∧ tmMon % 2 = 1 then 31
  else 30

/-- `is_valid_date`. -/
def isValidDate (date : Tm) : Bool :=
  0 ≤ date.tmYear ∧ date.tmYear ≤ 137 ∧ 0 ≤ date.tmMon ∧ date.tmMon ≤ 11 ∧
    1 ≤ date.tmMday ∧ date.tmMday ≤ daysOfYearMonth date.tmYear date.tmMon

/-- A "don't care" value is set to now. -/
def orNow (low high value now : Int) : Int := if high < value ∨ value < low then now else value

/-- The part of the time that the kind of the alarm asks for, and whether it is set up: a kind
that is not known is not, nor is a date that is not valid. -/
def setupFlag (flag : AlarmFlag) (now t : Tm) : Tm × Bool :=
  match flag with
  | .second => (secondAfter now t, true)
  | .minute => (minuteAfter now t, true)
  | .hour => (hourAfter now t, true)
  | .daily => (t, true)
  | .oneshot =>
    let t := { t with
      tmYear := if t.tmYear = -1 then now.tmYear else t.tmYear
      tmMon := if t.tmMon = -1 then now.tmMon else t.tmMon
      tmMday := if t.tmMday = -1 then now.tmMday else t.tmMday }
    (t, isValidDate t)
  | .weekly => ({ t with tmWday := orNow 0 6 t.tmWday now.tmWday }, true)
  | .monthly => ({ t with tmMday := orNow 1 31 t.tmMday now.tmMday }, true)
  | .yearly =>
    let month := orNow 0 11 t.tmMon now.tmMon
    let last := if month = 1 then 29
      else if month ≤ 6 ∧ month % 2 = 0 ∨ 6 < month ∧ month % 2 = 1 then 31
      else 30
    ({ t with tmMon := month, tmMday := orNow 1 last t.tmMday now.tmMday }, true)
  | .other => (t, false)

/-- The time of day of `alarm_setup`. -/
def setupTime (now t : Tm) : Tm :=
  { t with
    tmSec := orNow 0 59 t.tmSec now.tmSec
    tmMin := orNow 0 59 t.tmMin now.tmMin
    tmHour := orNow 0 23 t.tmHour now.tmHour }

/-- `alarm_setup`. An alarm at the last second of a day is set ahead. -/
def alarmSetup (flag : AlarmFlag) (now wktime : Tm) : Tm × Bool :=
  let (t, valid) := setupFlag flag now (setupTime now wktime)
  if valid ∧ t.tmHour = 23 ∧ t.tmMin = 59 ∧ t.tmSec = 59 then
    ({ t with tmSec := 60 - rtAlarmDelay softRtc }, valid)
  else (t, valid)

/-- A started alarm comes before the current one, in the comparison of `rt_alarm_start`. -/
def comesFirst (secNow secOld secNew : Int) : Bool :=
  secNew < secOld ∧ secNow < secNew ∨ secNow < secNew ∧ secOld < secNow ∨
    secNew < secOld ∧ secOld < secNow

/-- `rt_alarm_start`: `alarm_setup` reads the time first. The alarms exist. -/
def rtAlarmStart (c : Container) (id setting now : Nat) : Option Container := do
  let alarm ← c.find id
  if alarm.start then some c
  else
    let (wktime, valid) := alarmSetup softRtc alarm.flag (gmtimeR setting) alarm.wktime
    let started := c.change id fun a => { a with wktime, start := valid }
    if valid then
      match started.current with
      | none => some (started.arm device id)
      | some cur => do
        let current ← started.find cur
        if comesFirst (alarmMkdaysec (gmtimeR now)) (alarmMkdaysec current.wktime)
            (alarmMkdaysec wktime) then
          some (started.arm device id)
        else some started
    else some started

/-- The flag of a started alarm is cleared, and it is no longer the current one. -/
def Container.release (c : Container) (id : Nat) : Container :=
  let c := c.change id fun a => { a with start := false }
  if c.current = some id then { c.change id (alarmSet device) with current := none } else c

/-- `rt_alarm_stop`. -/
def rtAlarmStop (c : Container) (id waking scanning : Nat) : Option Container := do
  let alarm ← c.find id
  if alarm.start then some (alarmUpdate softRtc device (c.release device id) waking scanning)
  else some c

/-- `rt_alarm_delete`. -/
def rtAlarmDelete (c : Container) (id waking scanning : Nat) : Option Container := do
  let _ ← c.find id
  let released := c.release device id
  let updated :=
    if c.current = some id then alarmUpdate softRtc device released waking scanning else released
  some { updated with head := updated.head.filter (·.id ≠ id) }

/-- `rt_alarm_create`, at an address that is not in use. -/
def rtAlarmCreate (c : Container) (id : Nat) (flag : AlarmFlag) (wktime : Tm) :
    Option Container :=
  if (c.find id).isSome then none
  else some { c with head := ⟨id, flag, false, wktime⟩ :: c.head }

/-- `rt_alarm_control` with `RT_ALARM_CTRL_MODIFY`. -/
def rtAlarmControl (c : Container) (id : Nat) (flag : AlarmFlag) (wktime : Tm)
    (waking scanning setting : Nat) : Option Container :=
  (rtAlarmStop softRtc device c id waking scanning).map fun c =>
    c.change id fun a =>
      { a with flag, start := false, wktime := (alarmSetup softRtc flag (gmtimeR setting) wktime).1 }

/-- The container and the time of the last step. -/
structure State where
  container : Container
  now : Nat
  deriving DecidableEq

/-- A call, or an event of the alarm service. -/
inductive Op where
  | create (id : Nat) (flag : AlarmFlag) (wktime : Tm)
  | start (id : Nat)
  | stop (id : Nat)
  | delete (id : Nat)
  | control (id : Nat) (flag : AlarmFlag) (wktime : Tm) (setting : Nat)
  | update

/-- An operation, and the times that it reads or takes place at. -/
structure Call where
  op : Op
  before : Nat
  now : Nat
  le : before ≤ now

/-- An operation for which no time passes. -/
def Op.atTime (op : Op) (now : Nat) : Call := ⟨op, now, now, Nat.le_refl now⟩

def perform (c : Container) (call : Call) : Option Container :=
  match call.op with
  | .create id flag wktime => rtAlarmCreate c id flag wktime
  | .start id => rtAlarmStart softRtc device c id call.before call.now
  | .stop id => rtAlarmStop softRtc device c id call.before call.now
  | .delete id => rtAlarmDelete softRtc device c id call.before call.now
  | .control id flag wktime setting =>
    rtAlarmControl softRtc device c id flag wktime call.before call.now setting
  | .update => some (alarmUpdate softRtc device c call.before call.now)

/-- Time does not go back. -/
def step (s : State) (call : Call) : Option State :=
  if s.now ≤ call.before then
    (perform softRtc device s.container call).map fun c => ⟨c, call.now⟩
  else none

end RtThread.AlarmService
