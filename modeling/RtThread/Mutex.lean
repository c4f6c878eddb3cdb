import RtThread.Ipc
import RtThread.Lib.Runs

/-!
# Mutexes

`rt_mutex_take` and `rt_mutex_release` over any number of threads and mutexes.
A take that has to wait is two steps: up to the switch, and from the switch back
to the return; `taking` holds the mutex of a thread between the two.

A function returns `none` where the source fails an assertion or follows a null
pointer. `hold` is a byte and `value` a half word.
-/
namespace RtThread.Mutex

open Ipc

abbrev MutexId := Nat

structure RtMutex where
  value : Nat
  owner : Option ThreadId
  originalPriority : Nat
  hold : Nat
  /-- `parent.suspend_thread`. -/
  suspendThread : List ThreadId
  deriving DecidableEq

structure State where
  thread : Threads
  mutex : MutexId → RtMutex
  /-- The mutex a thread has been suspended for in a call of `rt_mutex_take` that has not
  returned yet. -/
  taking : ThreadId → Option MutexId

/-- `RT_MUTEX_HOLD_MAX`. -/
def holdMax : Nat := 255

/-- `RT_MUTEX_VALUE_MAX`. -/
def valueMax : Nat := 65535

/-- `rt_mutex_init`. -/
def rtMutexInit : RtMutex := ⟨1, none, 0xff, 0, []⟩

/-- Threads that have been started with their priorities, and initialised mutexes. -/
def init (priority : ThreadId → Nat) : State :=
  { thread := fun t => started (priority t)
    mutex := fun _ => rtMutexInit
    taking := fun _ => none }

def setMutex (s : State) (m : MutexId) (x : RtMutex) : State :=
  { s with mutex := Function.update s.mutex m x }

/-- The end of `rt_mutex_take` for a mutex that is not available: the owner inherits the
priority, and the thread is suspended. -/
def waitForOwner (s : State) (t : ThreadId) (m : MutexId) (time : Int) : Option State := do
  let x := s.mutex m
  let owner ← x.owner
  let priority := (s.thread t).currentPriority
  let thread := if priority < (s.thread owner).currentPriority then
      changePriority s.thread owner priority
    else s.thread
  let (thread, list) := ipcListSuspend thread .prio t x.suspendThread
  let thread ← startThreadTimer thread t time
  some { thread := thread
         mutex := Function.update s.mutex m { x with suspendThread := list }
         taking := Function.update s.taking t (some m) }

/-- `rt_mutex_take`, up to its return or to the switch; there is no result when the thread has
been suspended. -/
def rtMutexTake (s : State) (t : ThreadId) (m : MutexId) (time : Int) :
    Option (State × Option RtErr) :=
  let s := { s with thread := setError s.thread t .eok }
  let x := s.mutex m
  if x.owner = some t then
    if x.hold < holdMax then
      some (setMutex s m { x with hold := x.hold + 1 }, some .eok)
    else some (s, some .efull)
  else if 0 < x.value then
    let x := { x with
      value := wsub 16 x.value 1
      owner := some t
      originalPriority := (s.thread t).currentPriority }
    if x.hold < holdMax then
      some (setMutex s m { x with hold := x.hold + 1 }, some .eok)
    else some (setMutex s m x, some .efull)
  else if time = 0 then
    some ({ s with thread := setError s.thread t .etimeout }, some .etimeout)
  else (waitForOwner s t m time).map fun s => (s, none)

/-- The rest of `rt_mutex_take` after the switch back. -/
def takeReturn (s : State) (t : ThreadId) : State × Option RtErr :=
  ({ s with taking := Function.update s.taking t none }, some (s.thread t).error)

/-- The part of `rt_mutex_release` for a mutex that is not held any more: the thread gets the
priority it had when it took the mutex, and the first waiting thread becomes the owner. -/
def giveUp (s : State) (t : ThreadId) (m : MutexId) (x : RtMutex) : State × Option RtErr :=
  let thread := if x.originalPriority ≠ (s.thread t).currentPriority then
      changePriority s.thread t x.originalPriority
    else s.thread
  match x.suspendThread with
  | u :: _ =>
    let x := { x with owner := some u, originalPriority := (thread u).currentPriority }
    if x.hold < holdMax then
      let (thread, list) := ipcListResume thread x.suspendThread
      ({ s with
        thread := thread
        mutex := Function.update s.mutex m { x with hold := x.hold + 1, suspendThread := list } },
        some .eok)
    else (setMutex { s with thread := thread } m x, some .efull)
  | [] =>
    if x.value < valueMax then
      (setMutex { s with thread := thread } m
        { x with value := x.value + 1, owner := none, originalPriority := 0xff }, some .eok)
    else (setMutex { s with thread := thread } m x, some .efull)

/-- `rt_mutex_release`. -/
def rtMutexRelease (s : State) (t : ThreadId) (m : MutexId) : State × Option RtErr :=
  let x := s.mutex m
  if x.owner ≠ some t then ({ s with thread := setError s.thread t .error }, some .error)
  else
    let x := { x with hold := wsub 8 x.hold 1 }
    if x.hold = 0 then giveUp s t m x else (setMutex s m x, some .eok)

/-- `_thread_timeout` of a thread that waits for a mutex. -/
def timeout (s : State) (t : ThreadId) : State :=
  { s with
    thread := threadTimeout s.thread t
    mutex := fun m => { s.mutex m with
      suspendThread := (s.mutex m).suspendThread.filter (· ≠ t) } }

/-- The steps of a run: a thread calls a function or comes back from its wait, or its timer
expires. -/
inductive Op where
  | take (t : ThreadId) (m : MutexId) (time : Int)
  | takeReturn (t : ThreadId)
  | release (t : ThreadId) (m : MutexId)
  | timeout (t : ThreadId)
  deriving DecidableEq

/-- The thread runs, outside of `rt_mutex_take`. -/
def Active (s : State) (t : ThreadId) : Prop :=
  (s.thread t).suspended = false ∧ s.taking t = none

instance (s : State) (t : ThreadId) : Decidable (Active s t) :=
  inferInstanceAs (Decidable (_ ∧ _))

/-- One step, with the value the call returns in this step. -/
def call (s : State) : Op → Option (State × Option RtErr)
  | .take t m time => if Active s t then rtMutexTake s t m time else none
  | .takeReturn t =>
    if (s.thread t).suspended = false ∧ s.taking t ≠ none then some (takeReturn s t) else none
  | .release t m => if Active s t then some (rtMutexRelease s t m) else none
  | .timeout t => if (s.thread t).timerActive then some (timeout s t, none) else none

def step (s : State) (op : Op) : Option State := (call s op).map Prod.fst

end RtThread.Mutex
