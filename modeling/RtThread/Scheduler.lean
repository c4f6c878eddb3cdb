import RtThread.Kservice
import RtThread.Timer

/-!
# The uniprocessor scheduler

The globals of `scheduler.c` and the functions that move threads through the
ready queue. `RT_THREAD_PRIORITY_MAX` is a build constant, so both bitmap
layouts (at most 32 priorities, and up to 256) are one parametric definition.

The ready list of a priority is the list of its threads, first thread first. A
thread's `tlist` node is in at most one list, so `rt_list_remove` takes the
thread out of whichever list holds it. The low three bits of `stat` are the
enumeration `Stat`, and the `YIELD` bit is a field of its own; the signal bits
are left out (`RT_USING_SIGNALS` is not configured). `switches` records the
calls of `rt_hw_context_switch` and `rt_hw_context_switch_interrupt`.

A function returns `none` where the source fails an assertion or follows a null
pointer.
-/
namespace RtThread.Scheduler

open Kservice

abbrev ThreadId := Nat

structure Config where
  /-- `RT_THREAD_PRIORITY_MAX`. -/
  priorityMax : Nat
  priorityMax_le : priorityMax ≤ 256
  timer : Timer.Config

/-- `stat & RT_THREAD_STAT_MASK`. -/
inductive Stat where
  | init | ready | suspend | running | close
  deriving DecidableEq

structure Thread where
  stat : Stat
  /-- `RT_THREAD_STAT_YIELD`. -/
  yieldFlag : Bool
  currentPriority : Nat
  number : Nat
  highMask : BitVec 8
  numberMask : BitVec 32
  initTick : BitVec 32
  remainingTick : BitVec 32
  error : RtErr
  systemObject : Bool
  deriving DecidableEq

structure Kernel where
  thread : ThreadId → Thread
  priorityTable : Nat → List ThreadId
  readyPriorityGroup : BitVec 32
  readyTable : Nat → BitVec 8
  currentThread : Option ThreadId
  currentPriority : Nat
  schedulerLockNest : Int
  defunct : List ThreadId
  timers : Timer.State
  switches : List (ThreadId × ThreadId)

/-- The state after `rt_system_scheduler_init`, before any thread is started. -/
def rtSystemSchedulerInit (thread : ThreadId → Thread) (timers : Timer.State) : Kernel :=
  { thread := thread
    priorityTable := fun _ => []
    readyPriorityGroup := 0
    readyTable := fun _ => 0
    currentThread := none
    currentPriority := 0
    schedulerLockNest := 0
    defunct := []
    timers := timers
    switches := [] }

def setThread (k : Kernel) (t : ThreadId) (x : Thread) : Kernel :=
  { k with thread := Function.update k.thread t x }

/-- `thread->stat = stat | (thread->stat & ~RT_THREAD_STAT_MASK)`. -/
def setStat (k : Kernel) (t : ThreadId) (stat : Stat) : Kernel :=
  setThread k t { k.thread t with stat := stat }

/-- `rt_list_remove(&(thread->tlist))`. -/
def rtListRemove (k : Kernel) (t : ThreadId) : Kernel :=
  { k with priorityTable := fun p => (k.priorityTable p).filter (· ≠ t)
           defunct := k.defunct.filter (· ≠ t) }

/-- The priority attributes `rt_thread_startup` and `rt_thread_control` compute. -/
def priorityAttribute (c : Config) (x : Thread) : Thread :=
  if 32 < c.priorityMax then
    { x with number := x.currentPriority / 8
             numberMask := 1#32 <<< (x.currentPriority / 8)
             highMask := 1#8 <<< (x.currentPriority % 8) }
  else { x with numberMask := 1#32 <<< x.currentPriority }

/-- `rt_list_insert_before` of the list head, and the two mask updates. -/
def link (c : Config) (k : Kernel) (t : ThreadId) : Kernel :=
  let x := k.thread t
  { k with
    priorityTable := Function.update k.priorityTable x.currentPriority
      (k.priorityTable x.currentPriority ++ [t])
    readyTable := if 32 < c.priorityMax then
        Function.update k.readyTable x.number (k.readyTable x.number ||| x.highMask)
      else k.readyTable
    readyPriorityGroup := k.readyPriorityGroup ||| x.numberMask }

/-- `rt_schedule_insert_thread`. -/
def rtScheduleInsertThread (c : Config) (k : Kernel) (t : ThreadId) : Kernel :=
  if k.currentThread = some t then setStat k t .running
  else link c (setStat k t .ready) t

/-- The mask updates of `rt_schedule_remove_thread`, made once the list is empty. -/
def clearMasks (c : Config) (k : Kernel) (x : Thread) : Kernel :=
  if 32 < c.priorityMax then
    let row := k.readyTable x.number &&& ~~~x.highMask
    { k with
      readyTable := Function.update k.readyTable x.number row
      readyPriorityGroup := if row = 0 then k.readyPriorityGroup &&& ~~~x.numberMask
        else k.readyPriorityGroup }
  else { k with readyPriorityGroup := k.readyPriorityGroup &&& ~~~x.numberMask }

/-- `rt_schedule_remove_thread`. -/
def rtScheduleRemoveThread (c : Config) (k : Kernel) (t : ThreadId) : Kernel :=
  let k := rtListRemove k t
  if k.priorityTable (k.thread t).currentPriority = [] then clearMasks c k (k.thread t) else k

/-- The priority `_scheduler_get_highest_priority_thread` stores in `highest_prio`. -/
def highestReadyPriority (c : Config) (k : Kernel) : Nat :=
  if 32 < c.priorityMax then
    let number := rtFfs k.readyPriorityGroup - 1
    number * 8 + rtFfs ((k.readyTable number).setWidth 32) - 1
  else rtFfs k.readyPriorityGroup - 1

/-- `_scheduler_get_highest_priority_thread`; an empty list has no first thread. -/
def schedulerGetHighestPriorityThread (c : Config) (k : Kernel) : Option (ThreadId × Nat) :=
  ((k.priorityTable (highestReadyPriority c k)).head?).map
    (fun t => (t, highestReadyPriority c k))

/-- `rt_system_scheduler_start`. -/
def rtSystemSchedulerStart (c : Config) (k : Kernel) : Option Kernel := do
  let (toThread, _) ← schedulerGetHighestPriorityThread c k
  let k := rtScheduleRemoveThread c { k with currentThread := some toThread } toThread
  some (setThread k toThread { k.thread toThread with stat := .running, yieldFlag := false })

/-- The thread `rt_schedule` decides for: the running thread keeps the processor against a
lower priority, and against an equal one unless its `YIELD` bit is set. The flag says that
the current thread has to go back to the ready queue. -/
def scheduleDecision (x : Thread) (current toThread : ThreadId) (highest : Nat) :
    ThreadId × Bool :=
  if x.stat = .running then
    if x.currentPriority < highest then (current, false)
    else if x.currentPriority = highest ∧ x.yieldFlag = false then (current, false)
    else (toThread, true)
  else (toThread, false)

/-- `rt_current_thread->stat &= ~RT_THREAD_STAT_YIELD_MASK`, for a running thread. -/
def clearYield (k : Kernel) (current : ThreadId) : Kernel :=
  if (k.thread current).stat = .running then
    setThread k current { k.thread current with yieldFlag := false }
  else k

/-- The switch from the current thread to another one. -/
def switchTo (c : Config) (k : Kernel) (current toThread : ThreadId) (highest : Nat)
    (needInsertFromThread : Bool) : Kernel :=
  let k := { k with currentPriority := highest, currentThread := some toThread }
  let k := if needInsertFromThread then rtScheduleInsertThread c k current else k
  let k := setStat (rtScheduleRemoveThread c k toThread) toThread .running
  { k with switches := k.switches ++ [(current, toThread)] }

/-- `rt_schedule`. -/
def rtSchedule (c : Config) (k : Kernel) : Option Kernel :=
  if k.schedulerLockNest = 0 then
    if k.readyPriorityGroup ≠ 0 then do
      let current ← k.currentThread
      let (highestThread, highest) ← schedulerGetHighestPriorityThread c k
      let (toThread, needInsert) := scheduleDecision (k.thread current) current highestThread highest
      let k := clearYield k current
      if toThread ≠ current then some (switchTo c k current toThread highest needInsert)
      else some (setStat (rtScheduleRemoveThread c k current) current .running)
    else some k
  else some k

/-- `rt_enter_critical`. -/
def rtEnterCritical (k : Kernel) : Kernel :=
  { k with schedulerLockNest := k.schedulerLockNest + 1 }

/-- `rt_exit_critical`. -/
def rtExitCritical (c : Config) (k : Kernel) : Option Kernel :=
  let k := { k with schedulerLockNest := k.schedulerLockNest - 1 }
  if k.schedulerLockNest ≤ 0 then
    let k := { k with schedulerLockNest := 0 }
    if k.currentThread = none then some k else rtSchedule c k
  else some k

end RtThread.Scheduler
