import RtThread.Ipc
import RtThread.Lib.Runs

/-!
# Work queues

The functions of `workqueue.c` on any number of queues and initialised work items. A
step is one interrupt-disabled section of a call, of a worker or of the soft timer thread;
a read that is made outside of the sections is a step of its own. An active timer may
expire at any time. The soft timer thread takes the timer out first and calls the timeout
handler afterwards, one timer at a time.

The node of an item is in at most one list. There is no result where the source fails an
assertion, also in the timer functions.
-/
namespace RtThread.WorkQueue

open Ipc (ThreadId)

abbrev WorkId := Nat
abbrev QueueId := Nat

@[ext]
structure RtWork where
  /-- `RT_WORK_STATE_PENDING`. -/
  pending : Bool
  /-- `RT_WORK_STATE_SUBMITTING`. -/
  submitting : Bool
  workqueue : Option QueueId
  /-- The timer is a timer object: it has been initialised and not been detached since. -/
  object : Bool
  /-- `RT_TIMER_FLAG_ACTIVATED`. -/
  active : Bool
  deriving DecidableEq

/-- Where the thread of a queue is in `_workqueue_thread_entry`. -/
inductive Worker where
  /-- At the top of the loop. -/
  | awake
  | asleep
  /-- Before the call of `work_func`. -/
  | taken (w : WorkId)
  | running (w : WorkId)
  /-- Before `_workqueue_work_completion`. -/
  | acking
  deriving DecidableEq

/-- Where the soft timer thread is. -/
inductive Soft where
  | idle
  /-- Before the timeout handler reads `workqueue`. -/
  | expired (w : WorkId)
  /-- Before the section of the timeout handler. -/
  | handling (w : WorkId) (q : QueueId)
  deriving DecidableEq

/-- Where a caller is. -/
inductive Call where
  | outside
  /-- Before `rt_timer_start`. -/
  | starting (w : WorkId)
  /-- In `rt_workqueue_cancel_work_sync`, before the section that cancels. -/
  | cancelling (q : QueueId) (w : WorkId)
  /-- In `rt_workqueue_cancel_work_sync`, before it takes the semaphore. -/
  | taking (q : QueueId)
  /-- Suspended on the semaphore, as long as it is one of its waiters. -/
  | waiting (q : QueueId)
  /-- In the first loop of `rt_workqueue_cancel_all_work`, with the item it has read. -/
  | cancelAllWork (q : QueueId) (first : Option WorkId)
  /-- In the second loop. -/
  | cancelAllDelayed (q : QueueId) (first : Option WorkId)
  deriving DecidableEq

structure State where
  work : WorkId → RtWork
  workList : QueueId → List WorkId
  delayedList : QueueId → List WorkId
  workCurrent : QueueId → Option WorkId
  worker : QueueId → Worker
  semValue : QueueId → Nat
  semWaiters : QueueId → List ThreadId
  soft : Soft
  call : ThreadId → Call

/-- What a step does to an item. -/
inductive Event where
  /-- A submission, with what it returns. -/
  | submitted (w : WorkId) (result : RtErr)
  /-- A call of `_workqueue_cancel_work`, with what it returns. -/
  | cancelled (w : WorkId) (result : RtErr)
  /-- `work_func` is called. -/
  | called (w : WorkId)
  deriving DecidableEq

/-- `rt_work_init`; its timer has not been initialised. -/
def rtWorkInit : RtWork := ⟨false, false, none, false, false⟩

/-- Queues as `rt_workqueue_create` leaves them. -/
def init : State :=
  ⟨fun _ => rtWorkInit, fun _ => [], fun _ => [], fun _ => none, fun _ => .awake, fun _ => 0,
    fun _ => [], .idle, fun _ => .outside⟩

def setWork (s : State) (w : WorkId) (x : RtWork) : State :=
  { s with work := Function.update s.work w x }

def setCall (s : State) (t : ThreadId) (c : Call) : State :=
  { s with call := Function.update s.call t c }

/-- `rt_list_remove` on the node of an item. -/
def unlink (s : State) (w : WorkId) : State :=
  { s with
    workList := fun q => (s.workList q).filter (· ≠ w)
    delayedList := fun q => (s.delayedList q).filter (· ≠ w) }

/-- Insertion at the end of `work_list`. -/
def appendWork (s : State) (q : QueueId) (w : WorkId) : State :=
  { s with workList := Function.update s.workList q (s.workList q ++ [w]) }

/-- Insertion at the end of `delayed_list`. -/
def appendDelayed (s : State) (q : QueueId) (w : WorkId) : State :=
  { s with delayedList := Function.update s.delayedList q (s.delayedList q ++ [w]) }

/-- The worker is resumed if it is suspended and has no current work. -/
def resumeWorker (s : State) (q : QueueId) : State :=
  if s.workCurrent q = none ∧ s.worker q = .asleep then
    { s with worker := Function.update s.worker q .awake }
  else s

/-! ## The timer of an item -/

/-- `rt_timer_init`: the object must not be registered. -/
def rtTimerInit (x : RtWork) : Option RtWork :=
  if x.object then none else some { x with object := true, active := false }

/-- `rt_timer_start`. -/
def rtTimerStart (x : RtWork) : Option RtWork :=
  if x.object then some { x with active := true } else none

/-- `rt_timer_stop`. -/
def rtTimerStop (x : RtWork) : Option RtWork :=
  if x.object then some { x with active := false } else none

/-- `rt_timer_detach`. -/
def rtTimerDetach (x : RtWork) : Option RtWork :=
  if x.object then some { x with object := false, active := false } else none

/-! ## Submission -/

/-- `_workqueue_submit_work` up to the end of its section. -/
def workqueueSubmitWork (s : State) (t : ThreadId) (q : QueueId) (w : WorkId) (ticks : Nat) :
    Option (State × List Event) :=
  let s := unlink s w
  let x := { s.work w with pending := false }
  if ticks = 0 then
    if s.workCurrent q ≠ some w then
      let s := setWork (appendWork s q w) w { x with pending := true, workqueue := some q }
      some (resumeWorker s q, [.submitted w .eok])
    else some (resumeWorker (setWork s w x) q, [.submitted w .ebusy])
  else if ticks < rtTickMaxHalf then
    let timer := if x.submitting then rtTimerStop x else rtTimerInit x
    timer.map fun x =>
      let s := setWork s w { x with submitting := true, workqueue := some q }
      (setCall (appendDelayed s q w) t (.starting w), [.submitted w .eok])
  else some (setWork s w x, [.submitted w .error])

/-- `rt_workqueue_dowork`. -/
def rtWorkqueueDowork (s : State) (t : ThreadId) (q : QueueId) (w : WorkId) :
    Option (State × List Event) :=
  workqueueSubmitWork s t q w 0

/-- `rt_workqueue_submit_work`. -/
def rtWorkqueueSubmitWork (s : State) (t : ThreadId) (q : QueueId) (w : WorkId) (ticks : Nat) :
    Option (State × List Event) :=
  if ticks < rtTickMaxHalf then workqueueSubmitWork s t q w ticks else none

/-- `rt_workqueue_urgent_work`. -/
def rtWorkqueueUrgentWork (s : State) (q : QueueId) (w : WorkId) : State × List Event :=
  let s := unlink s w
  let s := { s with workList := Function.update s.workList q (w :: s.workList q) }
  (resumeWorker s q, [.submitted w .eok])

/-! ## Cancellation -/

/-- `_workqueue_cancel_work`. -/
def workqueueCancelWork (s : State) (q : QueueId) (w : WorkId) : Option (State × List Event) :=
  let s := unlink s w
  let x := { s.work w with pending := false }
  let timer := if x.submitting then (rtTimerStop x).bind rtTimerDetach else some x
  timer.map fun x =>
    (setWork s w { x with submitting := false, workqueue := none },
      [.cancelled w (if s.workCurrent q ≠ some w then .eok else .ebusy)])

/-- `rt_workqueue_cancel_work_sync` up to its test of the current work. -/
def rtWorkqueueCancelWorkSync (s : State) (t : ThreadId) (q : QueueId) (w : WorkId) : State :=
  if s.workCurrent q = some w then setCall s t (.taking q) else setCall s t (.cancelling q w)

/-- `rt_sem_take` on the semaphore of a queue. -/
def semTake (s : State) (t : ThreadId) (q : QueueId) : State :=
  if 0 < s.semValue q then
    setCall { s with semValue := Function.update s.semValue q (s.semValue q - 1) } t .outside
  else
    setCall { s with semWaiters := Function.update s.semWaiters q (s.semWaiters q ++ [t]) } t
      (.waiting q)

/-- The next step of a caller. -/
def proceed (s : State) (t : ThreadId) : Option (State × List Event) :=
  match s.call t with
  | .outside => none
  | .starting w =>
    (rtTimerStart (s.work w)).map fun x => (setCall (setWork s w x) t .outside, [])
  | .cancelling q w =>
    (workqueueCancelWork s q w).map fun r => (setCall r.1 t .outside, r.2)
  | .taking q => some (semTake s t q, [])
  | .waiting q => if t ∈ s.semWaiters q then none else some (setCall s t .outside, [])
  | .cancelAllWork q none =>
    some (setCall s t (match (s.workList q).head? with
      | none => .cancelAllDelayed q none
      | some w => .cancelAllWork q (some w)), [])
  | .cancelAllWork q (some w) =>
    (workqueueCancelWork s q w).map fun r => (setCall r.1 t (.cancelAllWork q none), r.2)
  | .cancelAllDelayed q none =>
    some (setCall s t (match (s.delayedList q).head? with
      | none => .outside
      | some w => .cancelAllDelayed q (some w)), [])
  | .cancelAllDelayed q (some w) =>
    (workqueueCancelWork s q w).map fun r => (setCall r.1 t (.cancelAllDelayed q none), r.2)

/-! ## The soft timer thread and the workers -/

/-- `rt_soft_timer_check` takes out an active timer. -/
def expire (s : State) (w : WorkId) : Option (State × List Event) :=
  if s.soft = .idle ∧ (s.work w).active then
    some ({ setWork s w { s.work w with active := false } with soft := .expired w }, [])
  else none

/-- The two steps of `_delayed_work_timeout_handler`. -/
def delayedWorkTimeoutHandler (s : State) : Option (State × List Event) :=
  match s.soft with
  | .idle => none
  | .expired w => (s.work w).workqueue.map fun q => ({ s with soft := .handling w q }, [])
  | .handling w q =>
    (rtTimerDetach (s.work w)).map fun x =>
      let s := { unlink s w with soft := .idle }
      let x := { x with submitting := false }
      if s.workCurrent q ≠ some w then
        (resumeWorker (setWork (appendWork s q w) w { x with pending := true }) q, [])
      else (resumeWorker (setWork s w x) q, [])

/-- The loop of `_workqueue_work_completion`: the value of the semaphore and the threads that still
wait for it. -/
def workCompletion (value : Nat) : List ThreadId → Nat × List ThreadId
  | [] => (value - 1, [])
  | t :: ts => if 0 < value then (value - 1, t :: ts) else workCompletion value ts

/-- The next step of `_workqueue_thread_entry`. -/
def workerStep (s : State) (q : QueueId) : Option (State × List Event) :=
  match s.worker q with
  | .awake =>
    match s.workList q with
    | [] => some ({ s with worker := Function.update s.worker q .asleep }, [])
    | w :: _ =>
      let s := { unlink s w with
        workCurrent := Function.update s.workCurrent q (some w)
        worker := Function.update s.worker q (.taken w) }
      some (setWork s w { s.work w with pending := false, workqueue := none }, [])
  | .asleep => none
  | .taken w => some ({ s with worker := Function.update s.worker q (.running w) }, [.called w])
  | .running _ =>
    some ({ s with
      workCurrent := Function.update s.workCurrent q none
      worker := Function.update s.worker q .acking }, [])
  | .acking =>
    let r := workCompletion (s.semValue q) (s.semWaiters q)
    some ({ s with
      semValue := Function.update s.semValue q r.1
      semWaiters := Function.update s.semWaiters q r.2
      worker := Function.update s.worker q .awake }, [])

/-! ## Runs -/

/-- The steps of a run. -/
inductive Op where
  | submit (t : ThreadId) (q : QueueId) (w : WorkId) (ticks : Nat)
  | dowork (t : ThreadId) (q : QueueId) (w : WorkId)
  | urgent (t : ThreadId) (q : QueueId) (w : WorkId)
  | cancel (t : ThreadId) (q : QueueId) (w : WorkId)
  | cancelSync (t : ThreadId) (q : QueueId) (w : WorkId)
  | cancelAll (t : ThreadId) (q : QueueId)
  | proceed (t : ThreadId)
  | expire (w : WorkId)
  | timeout
  | worker (q : QueueId)

/-- A call is made outside of other calls. -/
def enter (s : State) (t : ThreadId) (r : Option (State × List Event)) :
    Option (State × List Event) :=
  if s.call t = .outside then r else none

/-- One step, with its events. -/
def act (s : State) : Op → Option (State × List Event)
  | .submit t q w ticks => enter s t (rtWorkqueueSubmitWork s t q w ticks)
  | .dowork t q w => enter s t (rtWorkqueueDowork s t q w)
  | .urgent t q w => enter s t (some (rtWorkqueueUrgentWork s q w))
  | .cancel t q w => enter s t (workqueueCancelWork s q w)
  | .cancelSync t q w => enter s t (some (rtWorkqueueCancelWorkSync s t q w, []))
  | .cancelAll t q => enter s t (some (setCall s t (.cancelAllWork q none), []))
  | .proceed t => proceed s t
  | .expire w => expire s w
  | .timeout => delayedWorkTimeoutHandler s
  | .worker q => workerStep s q

def step (s : State) (op : Op) : Option State := (act s op).map Prod.fst

end RtThread.WorkQueue
