import RtThread.Scheduler

/-!
# Threads and the system tick

The functions of `thread.c` and `clock.c` over the scheduler state. A thread's
`thread_timer` is the timer of the same number in the hard timer list, and its
callback is `_thread_timeout`. A function that sleeps is modelled up to its
`rt_schedule`; what it does once the thread runs again is a definition of its
own.
-/
namespace RtThread.Thread

open Scheduler

/-- `_thread_init`; `none` when the priority assertion fails. -/
def threadInit (c : Config) (priority : Nat) (tick : BitVec 32) (systemObject : Bool) :
    Option Thread :=
  if priority < c.priorityMax then
    some ⟨.init, false, priority, 0, 0, 0, tick, tick, .eok, systemObject⟩
  else none

/-- `rt_thread_resume`. -/
def rtThreadResume (c : Config) (k : Kernel) (t : ThreadId) : Kernel × RtErr :=
  if (k.thread t).stat ≠ .suspend then (k, .error)
  else
    let k := rtListRemove k t
    let k := { k with timers := (Timer.rtTimerStop k.timers t).1 }
    (rtScheduleInsertThread c k t, .eok)

/-- `rt_thread_startup`. -/
def rtThreadStartup (c : Config) (k : Kernel) (t : ThreadId) : Option Kernel :=
  if (k.thread t).stat = .init then
    let x := { priorityAttribute c (k.thread t) with stat := .suspend, yieldFlag := false }
    let k := (rtThreadResume c (setThread k t x) t).1
    if k.currentThread = none then some k else rtSchedule c k
  else none

/-- `rt_thread_suspend`, with its assertion that a thread suspends itself. -/
def rtThreadSuspend (c : Config) (k : Kernel) (t : ThreadId) : Option (Kernel × RtErr) :=
  if k.currentThread = some t then
    if (k.thread t).stat = .ready ∨ (k.thread t).stat = .running then
      let k := setStat (rtScheduleRemoveThread c k t) t .suspend
      some ({ k with timers := (Timer.rtTimerStop k.timers t).1 }, .eok)
    else some (k, .error)
  else none

/-- The part of closing a thread that `rt_thread_detach`, `rt_thread_delete` and
`_thread_exit` share. -/
def closeThread (k : Kernel) (t : ThreadId) : Kernel :=
  let k := { k with timers := Timer.rtTimerDetach k.timers t }
  let k := setThread k t { k.thread t with stat := .close, yieldFlag := false }
  { k with defunct := t :: k.defunct }

/-- The common body of `rt_thread_detach` and `rt_thread_delete`, which differ in the kind
of object they assert. -/
def threadClose (c : Config) (systemObject : Bool) (k : Kernel) (t : ThreadId) : Option Kernel :=
  if (k.thread t).systemObject = systemObject then
    if (k.thread t).stat = .close then some k
    else if (k.thread t).stat ≠ .init then some (closeThread (rtScheduleRemoveThread c k t) t)
    else some (closeThread k t)
  else none

/-- `rt_thread_detach`. -/
def rtThreadDetach (c : Config) (k : Kernel) (t : ThreadId) : Option Kernel :=
  threadClose c true k t

/-- `rt_thread_delete`. -/
def rtThreadDelete (c : Config) (k : Kernel) (t : ThreadId) : Option Kernel :=
  threadClose c false k t

/-- `_thread_exit`. -/
def threadExit (c : Config) (k : Kernel) : Option Kernel := do
  let t ← k.currentThread
  rtSchedule c (closeThread (rtScheduleRemoveThread c k t) t)

/-- `rt_thread_yield`. -/
def rtThreadYield (c : Config) (k : Kernel) : Option Kernel := do
  let t ← k.currentThread
  let x := k.thread t
  rtSchedule c (setThread k t { x with remainingTick := x.initTick, yieldFlag := true })

/-- Suspend the current thread, set its timer and start it; the tail both sleeping
functions share. -/
def sleepFor (c : Config) (k : Kernel) (t : ThreadId) (tick : Tick) : Option Kernel := do
  let (k, _) ← rtThreadSuspend c k t
  let (timers, _) ← Timer.rtTimerControl k.timers t (.setTime tick)
  rtSchedule c { k with timers := Timer.rtTimerStart c.timer timers t }

/-- `rt_thread_sleep` (and `rt_thread_delay`), up to the switch. -/
def rtThreadSleep (c : Config) (k : Kernel) (tick : Tick) : Option Kernel := do
  let t ← k.currentThread
  sleepFor c (setThread k t { k.thread t with error := .eok }) t tick

/-- `rt_thread_delay_until`, up to the switch, with the value left in `*tick`. -/
def rtThreadDelayUntil (c : Config) (k : Kernel) (tick incTick : Tick) : Option (Kernel × Tick) := do
  let t ← k.currentThread
  let k := setThread k t { k.thread t with error := .eok }
  let curTick := k.timers.tick
  if (curTick - tick).toNat < incTick.toNat then
    let k ← sleepFor c k t (tick + incTick - curTick)
    some (k, tick + incTick)
  else some (k, curTick)

/-- What `rt_thread_sleep` and `rt_thread_delay_until` do after the switch back. -/
def sleepReturn (k : Kernel) : Option (Kernel × RtErr) := do
  let t ← k.currentThread
  let err := if (k.thread t).error = .etimeout then RtErr.eok else (k.thread t).error
  some (setThread k t { k.thread t with error := err }, err)

/-- `rt_thread_control` with `RT_THREAD_CTRL_CHANGE_PRIORITY`. -/
def changePriority (c : Config) (k : Kernel) (t : ThreadId) (priority : Nat) : Kernel :=
  if (k.thread t).stat = .ready then
    let k := rtScheduleRemoveThread c k t
    let x := priorityAttribute c { k.thread t with currentPriority := priority }
    rtScheduleInsertThread c (setThread k t x) t
  else setThread k t (priorityAttribute c { k.thread t with currentPriority := priority })

inductive Ctrl where
  | changePriority (priority : Nat)
  | startup
  | close
  deriving DecidableEq

/-- `rt_thread_control`. -/
def rtThreadControl (c : Config) (k : Kernel) (t : ThreadId) : Ctrl → Option Kernel
  | .changePriority priority => some (changePriority c k t priority)
  | .startup => rtThreadStartup c k t
  | .close => (threadClose c (k.thread t).systemObject k t).bind (rtSchedule c)

/-- `_thread_timeout`. -/
def threadTimeout (c : Config) (k : Kernel) (t : ThreadId) : Option Kernel :=
  if (k.thread t).stat = .suspend then
    let k := setThread k t { k.thread t with error := .etimeout }
    rtSchedule c (rtScheduleInsertThread c (rtListRemove k t) t)
  else none

/-- The time-slice part of `rt_tick_increase`. -/
def tickSlice (c : Config) (k : Kernel) : Option Kernel := do
  let t ← k.currentThread
  let k := { k with timers := { k.timers with tick := k.timers.tick + 1 } }
  let x := k.thread t
  if x.remainingTick - 1 = 0 then
    rtSchedule c (setThread k t { x with remainingTick := x.initTick, yieldFlag := true })
  else some (setThread k t { x with remainingTick := x.remainingTick - 1 })

/-- The loop of `rt_timer_check` over the thread timers. Every round unlinks a one-shot
timer, so the length of the bottom row bounds the rounds. -/
def timerCheckLoop (c : Config) : Nat → Kernel → Option Kernel
  | 0, k => some k
  | n + 1, k =>
    match Timer.timerCheckPop c.timer k.timers .hard with
    | none => some k
    | some (timers, t) => do
      let k ← threadTimeout c { k with timers := timers } t
      timerCheckLoop c n { k with timers := Timer.timerCheckFinish c.timer k.timers .hard t }

/-- `rt_timer_check`. -/
def rtTimerCheck (c : Config) (k : Kernel) : Option Kernel :=
  timerCheckLoop c (k.timers.rows .hard (c.timer.level - 1)).length k

/-- `rt_tick_increase`. -/
def rtTickIncrease (c : Config) (k : Kernel) : Option Kernel :=
  (tickSlice c k).bind (rtTimerCheck c)

/-- The calls a run of the kernel is made of. -/
inductive Op where
  | schedulerStart
  | startup (t : ThreadId)
  | suspend (t : ThreadId)
  | resume (t : ThreadId)
  | yield
  | sleep (tick : Tick)
  | delayUntil (tick incTick : Tick)
  | sleepReturn
  | detach (t : ThreadId)
  | delete (t : ThreadId)
  | exit
  | control (t : ThreadId) (cmd : Ctrl)
  | tickIncrease
  | timeout (t : ThreadId)
  | schedule
  | enterCritical
  | exitCritical
  deriving DecidableEq

def step (c : Config) (k : Kernel) : Op → Option Kernel
  | .schedulerStart => if k.currentThread = none then rtSystemSchedulerStart c k else none
  | .startup t => rtThreadStartup c k t
  | .suspend t => (rtThreadSuspend c k t).map Prod.fst
  | .resume t => some (rtThreadResume c k t).1
  | .yield => rtThreadYield c k
  | .sleep tick => rtThreadSleep c k tick
  | .delayUntil tick incTick => (rtThreadDelayUntil c k tick incTick).map Prod.fst
  | .sleepReturn => (sleepReturn k).map Prod.fst
  | .detach t => rtThreadDetach c k t
  | .delete t => rtThreadDelete c k t
  | .exit => threadExit c k
  | .control t cmd => rtThreadControl c k t cmd
  | .tickIncrease => rtTickIncrease c k
  | .timeout t => threadTimeout c k t
  | .schedule => rtSchedule c k
  | .enterCritical => some (rtEnterCritical k)
  | .exitCritical => rtExitCritical c k

end RtThread.Thread
