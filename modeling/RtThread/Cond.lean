import RtThread.SemaphoreTokens

/-!
# Condition variables

The functions of `pthread_cond.c` on one condition variable and its mutex. A wait is one step
up to the release of the mutex, one up to the switch or the return of `rt_sem_take`, one from
the switch to that return, and one that takes the mutex again.

A thread that has to wait for the mutex has no step before the mutex is free, and any of the
waiting threads may be the next to get it.
-/
namespace RtThread.Cond

open Ipc (ThreadId)

/-- The return values of the functions. -/
inductive Errno where
  | ok | eperm | ebusy | einval | edeadlk | etimedout
  deriving DecidableEq

/-! ## The mutex -/

inductive MutexType where
  | normal | recursive | errorcheck
  deriving DecidableEq

structure PthreadMutex where
  type : MutexType
  /-- `lock.owner` and `lock.hold`. -/
  held : Option (ThreadId × Nat)
  deriving DecidableEq

/-- `RT_MUTEX_HOLD_MAX`. -/
def holdMax : Nat := 255

/-- `pthread_mutex_lock`, up to its return; there is no result while another thread is the
owner. -/
def pthreadMutexLock (m : PthreadMutex) (t : ThreadId) : Option (PthreadMutex × Errno) :=
  match m.held with
  | none => some ({ m with held := some (t, 1) }, .ok)
  | some (u, n) =>
    if u ≠ t then none
    else if m.type ≠ .recursive then some (m, .edeadlk)
    else if n < holdMax then some ({ m with held := some (t, n + 1) }, .ok)
    else some (m, .einval)

/-- `pthread_mutex_unlock`. -/
def pthreadMutexUnlock (m : PthreadMutex) (t : ThreadId) : PthreadMutex × Errno :=
  match m.held with
  | none => (m, if m.type = .errorcheck then .eperm else .ok)
  | some (u, n) =>
    if u ≠ t then (m, if m.type = .errorcheck then .eperm else .einval)
    else ({ m with held := if n = 1 then none else some (t, n - 1) }, .ok)

/-! ## Signal and broadcast -/

/-- The loop of `pthread_cond_broadcast`, for a number of rounds. -/
def broadcastLoop (t : ThreadId) : Nat → Semaphore.State → Option (Semaphore.State × Errno)
  | 0, _ => none
  | n + 1, sem =>
    match Semaphore.rtSemTrytake sem t with
    | some (sem, some .etimeout) => broadcastLoop t n (Semaphore.rtSemRelease sem).1
    | some (sem, some .eok) => some ((Semaphore.rtSemRelease sem).1, .ok)
    | some (sem, _) => some (sem, .einval)
    | none => none

/-- `pthread_cond_broadcast`; its critical section keeps the other threads from running. A round
for each suspended thread and two more are enough. -/
def pthreadCondBroadcast (sem : Semaphore.State) (t : ThreadId) : Option (Semaphore.State × Errno) :=
  broadcastLoop t ((sem.waiters.list ()).length + 2) sem

/-- `pthread_cond_signal`. -/
def pthreadCondSignal (sem : Semaphore.State) : Semaphore.State × Errno :=
  ((Semaphore.rtSemRelease sem).1, .ok)

/-! ## Waiting -/

/-- `RT_WAITING_FOREVER`. -/
def waitingForever : BitVec 32 := 0xffffffff

/-- The first part of `_pthread_cond_timedwait`: the mutex after its release. There is no result
where `-RT_ERROR` is returned. -/
def condRelease (m : PthreadMutex) (t : ThreadId) : Option PthreadMutex :=
  if m.held.map Prod.fst ≠ some t then none
  else
    match pthreadMutexUnlock m t with
    | (m, .ok) => some m
    | _ => none

/-- What `pthread_cond_wait`, or `pthread_cond_timedwait` with its ticks, makes of the result of
`_pthread_cond_timedwait`. -/
def waitResult (ticks : Option (BitVec 32)) (result : RtErr) : Errno :=
  if result = .eok then .ok
  else if ticks.isSome ∧ result = .etimeout then .etimedout
  else .einval

/-- Where a thread is in `_pthread_cond_timedwait`. -/
inductive Stage where
  | outside
  /-- The mutex has been released. -/
  | released (ticks : Option (BitVec 32))
  /-- In `rt_sem_take`, at the switch or behind it. -/
  | taking (ticks : Option (BitVec 32))
  /-- `rt_sem_take` has returned, and the mutex is to be taken. -/
  | taken (ticks : Option (BitVec 32)) (result : RtErr)
  deriving DecidableEq

/-- The stage after a part of `rt_sem_take`. -/
def Stage.after (ticks : Option (BitVec 32)) : Option RtErr → Stage
  | none => .taking ticks
  | some result => .taken ticks result

structure State where
  mutex : PthreadMutex
  sem : Semaphore.State
  stage : ThreadId → Stage

/-- `pthread_mutex_init` and `pthread_cond_init`, over started threads. -/
def init (type : MutexType) (priority : ThreadId → Nat) : State :=
  ⟨⟨type, none⟩, Semaphore.init .fifo 0 priority, fun _ => .outside⟩

/-- The steps of a run: a thread calls a function, or goes on in its wait, or its timer
expires. -/
inductive Op where
  | lock (t : ThreadId)
  | unlock (t : ThreadId)
  | wait (t : ThreadId) (ticks : Option (BitVec 32))
  | signal (t : ThreadId)
  | broadcast (t : ThreadId)
  | proceed (t : ThreadId)
  | timeout (t : ThreadId)
  deriving DecidableEq

def setStage (s : State) (t : ThreadId) (stage : Stage) : State :=
  { s with stage := Function.update s.stage t stage }

/-- The next part of a wait. -/
def proceed (s : State) (t : ThreadId) : Option (State × Option Errno) :=
  match s.stage t with
  | .outside => none
  | .released ticks =>
    (Semaphore.call s.sem (.take t (ticks.getD waitingForever))).map fun r =>
      (setStage { s with sem := r.1 } t (.after ticks r.2), none)
  | .taking ticks =>
    (Semaphore.call s.sem (.takeReturn t)).map fun r =>
      (setStage { s with sem := r.1 } t (.after ticks r.2), none)
  | .taken ticks result =>
    (pthreadMutexLock s.mutex t).map fun r =>
      (setStage { s with mutex := r.1 } t .outside, some (waitResult ticks result))

/-- One step, with the value the call returns in this step. -/
def call (s : State) : Op → Option (State × Option Errno)
  | .lock t =>
    if s.stage t = .outside then
      (pthreadMutexLock s.mutex t).map fun r => ({ s with mutex := r.1 }, some r.2)
    else none
  | .unlock t =>
    if s.stage t = .outside then
      let r := pthreadMutexUnlock s.mutex t
      some ({ s with mutex := r.1 }, some r.2)
    else none
  | .wait t ticks =>
    if s.stage t = .outside then
      match condRelease s.mutex t with
      | none => some (s, some .einval)
      | some m => some (setStage { s with mutex := m } t (.released ticks), none)
    else none
  | .signal t =>
    if s.stage t = .outside then
      let r := pthreadCondSignal s.sem
      some ({ s with sem := r.1 }, some r.2)
    else none
  | .broadcast t =>
    if s.stage t = .outside then
      (pthreadCondBroadcast s.sem t).map fun r => ({ s with sem := r.1 }, some r.2)
    else none
  | .proceed t => proceed s t
  | .timeout t => (Semaphore.call s.sem (.timeout t)).map fun r => ({ s with sem := r.1 }, none)

def step (s : State) (op : Op) : Option State := (call s op).map Prod.fst

end RtThread.Cond
