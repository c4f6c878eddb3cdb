import RtThread.RtDef

/-!
# The POSIX clock

`clock_settime`, `clock_gettime` and `rt_timespec_to_tick` of `time.c` for an `int`, a `long` and
a `time_t` of 32 bits, where signed sums wrap. `tps` is `RT_TICK_PER_SECOND`. The device that
keeps the time is a parameter: the result of its control, if it is there.
-/
namespace RtThread.PosixClock

/-- `struct timeval`. -/
structure Timeval where
  sec : Int
  usec : Int
  deriving DecidableEq

/-- `struct timespec`. -/
structure Timespec where
  sec : Int
  nsec : Int
  deriving DecidableEq

/-- `_timevalue` and `errno`. -/
structure State where
  timevalue : Timeval
  errno : RtErr
  deriving DecidableEq

def clockRealtime : Int := 1

def microsecondPerSecond : Nat := 1000000

def nanosecondPerSecond : Nat := 1000000000

def microsecondPerTick (tps : Nat) : Nat := microsecondPerSecond / tps

/-- `clock_settime` at a tick. -/
def clockSettime (tps tick : Nat) (rtc : Option (Int → RtErr)) (clockid : Int)
    (tp : Option Timespec) (s : State) : Int × State :=
  match tp with
  | none => (-1, { s with errno := .einval })
  | some tp =>
    if clockid ≠ clockRealtime then (-1, { s with errno := .einval })
    else
      let second := tp.sec
      let usec := (microsecondPerSecond : Int) - (tick % tps * microsecondPerTick tps : Nat)
      let s := { s with timevalue := ⟨int32 (second - (tick / tps : Nat) - 1), int32 usec⟩ }
      match rtc with
      | some control => if control second = .eok then (0, s) else (-1, s)
      | none => (-1, s)

/-- What `clock_gettime` reads of `CLOCK_REALTIME`: the tick is an `int`. -/
def realtime (tps tick : Nat) (timevalue : Timeval) : Timespec :=
  let tick := int32 tick
  { sec := int32 (timevalue.sec + tick.tdiv tps)
    nsec := int32 ((timevalue.usec + tick.tmod tps * microsecondPerTick tps) * 1000) }

/-- `clock_gettime` at a tick; nothing is written where the result is not zero. -/
def clockGettime (tps tick : Nat) (clockid : Int) (tp : Bool) (s : State) :
    Int × Option Timespec × State :=
  if tp = false then (-1, none, { s with errno := .einval })
  else if clockid = clockRealtime then (0, some (realtime tps tick s.timevalue), s)
  else (-1, none, { s with errno := .einval })

/-- The nanoseconds and the seconds from `tp` to `time`, with the borrow. -/
def timespecDiff (time tp : Timespec) : Int × Int :=
  if time.nsec - tp.nsec < 0 then
    (int32 (nanosecondPerSecond - (tp.nsec - time.nsec)), int32 (time.sec - tp.sec - 1))
  else (time.nsec - tp.nsec, int32 (time.sec - tp.sec))

/-- `rt_timespec_to_tick` where `clock_gettime` reads `tp`. The quotient is one of
`unsigned long`. -/
def rtTimespecToTick (tps : Nat) (tp time : Timespec) : Int :=
  let (nsecond, second) := timespecDiff time tp
  let tick := int32
    (int32 (second * tps) + int32 (nsecond * tps) % 2 ^ 32 / nanosecondPerSecond)
  if tick < 0 then 0 else tick

end RtThread.PosixClock
