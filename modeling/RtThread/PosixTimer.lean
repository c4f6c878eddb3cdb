import RtThread.PosixClock
import RtThread.Timer

/-!
# POSIX timers

`timer_settime`, `timer_gettime` and `rtthread_timer_wrapper` of `time.c` over the timer lists of
the kernel, for an `int` and a `long` of 32 bits. A `timer_t` points at a timer, or is null.
`mem` is the word at an address, if it can be read: `rt_timer_control` takes its argument from
there. What the notification function does belongs to the steps after the wrapper.
-/
namespace RtThread.PosixTimer

open PosixClock (Timespec nanosecondPerSecond)
open Timer (TimerId Config rtTimerControl rtTimerStart rtTimerStop timerCheckPop)

inductive Errno where
  | einval | efault
  deriving DecidableEq

/-- `struct itimerspec`. -/
structure Itimerspec where
  interval : Timespec
  value : Timespec
  deriving DecidableEq

/-- `struct timer_obj` beside its `rt_timer`; `active` is its status. -/
structure TimerObj where
  interval : Timespec
  reload : Tick
  active : Bool
  deriving DecidableEq

structure State where
  kernel : Timer.State
  obj : TimerId → TimerObj
  errno : Option Errno

def setObj (s : State) (t : TimerId) (x : TimerObj) : State :=
  { s with obj := Function.update s.obj t x }

/-- `rtthread_timer_wrapper`. -/
def rtthreadTimerWrapper (x : TimerObj) : TimerObj :=
  if x.reload = 0 then { x with active := false } else x

/-- The seconds and nanoseconds of `timer_gettime`, in the arithmetic of `unsigned long`. -/
def remainingTime (tps : Nat) (remaining : Tick) : Timespec :=
  let seconds : Nat := remaining.toNat / tps
  let nanoseconds : Nat := remaining.toNat % tps * 1000 * 1000000 % 2 ^ 32 / tps
  ⟨int32 seconds, int32 nanoseconds⟩

/-- `timer_gettime`; `its` is whether there is a place for the result. -/
def timerGettime (tps : Nat) (timerid : Option TimerId) (its : Bool) (s : State) :
    RtErr × Option Itimerspec × State :=
  match timerid with
  | none => (.error, none, { s with errno := some .einval })
  | some t =>
    if its = false then (.error, none, { s with errno := some .efault })
    else
      let value :=
        if (s.obj t).active then
          remainingTime tps ((s.kernel.timer t).timeoutTick - s.kernel.tick)
        else ⟨0, 0⟩
      (.eok, some ⟨(s.obj t).interval, value⟩, s)

/-- The ticks that `timer_settime` computes of an interval. -/
def reloadTicks (tps : Nat) (interval : Timespec) : Tick :=
  BitVec.ofInt 32
    (int32 (interval.sec * tps) + int32 (interval.nsec * tps) % 2 ^ 32 / nanosecondPerSecond)

/-- The nanoseconds that `timer_settime` accepts. -/
def Itimerspec.Accepted (value : Itimerspec) : Prop :=
  (0 ≤ value.interval.nsec ∧ value.interval.nsec < nanosecondPerSecond) ∧
    0 ≤ value.value.nsec ∧ value.value.nsec < nanosecondPerSecond

instance (value : Itimerspec) : Decidable value.Accepted :=
  inferInstanceAs (Decidable ((_ ∧ _) ∧ _ ∧ _))

/-- The timer is stopped if its status says that it is active. -/
def stopActive (t : TimerId) (s : State) : State :=
  if (s.obj t).active then { s with kernel := (rtTimerStop s.kernel t).1 } else s

/-- `timer_settime`, with the result, the old value and the state after it; nothing where it
reads a word that is not there or an assertion fails. The value is read before it is checked not
to be null, and the reload value is given to `rt_timer_control` as a pointer. -/
def timerSettime (c : Config) (tps : Nat) (mem : Tick → Option Tick) (timerid : Option TimerId)
    (value : Option Itimerspec) (ovalue : Bool) (s : State) :
    Option (RtErr × Option Itimerspec × State) :=
  match timerid, value with
  | none, _ => some (.error, none, { s with errno := some .einval })
  | some _, none => none
  | some t, some value =>
    if ¬ value.Accepted then some (.error, none, { s with errno := some .einval })
    else if ovalue = false then some (.error, none, { s with errno := some .efault })
    else
      let old := (timerGettime tps (some t) true s).2.1
      if value.value.sec = 0 ∧ value.value.nsec = 0 then
        let s := stopActive t s
        some (.eok, old, setObj s t { s.obj t with active := false })
      else
        let s := setObj s t
          { s.obj t with interval := value.interval, reload := reloadTicks tps value.interval }
        let s := stopActive t s
        let s := setObj s t { s.obj t with active := true }
        (mem (s.obj t).reload).bind fun time =>
          (rtTimerControl s.kernel t (.setTime time)).bind fun r =>
            (rtTimerControl r.1 t .setPeriodic).map fun r =>
              (.eok, old, { s with kernel := rtTimerStart c r.1 t })

/-- The timer whose callback a step begins. -/
def callee (c : Config) (s : Timer.State) : Timer.Event → Option TimerId
  | .checkPop k => (timerCheckPop c s k).map Prod.snd
  | _ => none

/-- One step of the kernel's timers. Where it calls the timer of a `timer_t`, the wrapper runs. -/
def kernelStep (c : Config) (t : TimerId) (s : State) (e : Timer.Event) : Option State :=
  (Timer.step c s.kernel e).map fun kernel =>
    let s' := { s with kernel := kernel }
    if callee c s.kernel e = some t then setObj s' t (rtthreadTimerWrapper (s.obj t)) else s'

end RtThread.PosixTimer
