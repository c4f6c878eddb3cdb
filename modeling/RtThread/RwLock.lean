import RtThread.CondWake

/-!
# Read-write locks

The functions of `pthread_rwlock.c` on one lock. What a function does between taking
`rw_mutex` and giving it up is one step, since no other thread reads or writes the fields of
the lock in between; giving it up at the end is another one. A wait gives the mutex up in
`_pthread_cond_timedwait`, and has the steps of that function.

A thread that has to wait for `rw_mutex` has no step before the mutex is free. There is no
result where a counter would exceed the range of `int`.
-/
namespace RtThread.RwLock

open Ipc (ThreadId)
open Cond (Errno PthreadMutex)

inductive Side where
  | reader | writer
  deriving DecidableEq

/-- The way a lock call waits: not at all, or in `pthread_cond_wait`, or in
`pthread_cond_timedwait` with its ticks. -/
inductive Wait where
  | trial
  | forever
  | timed (ticks : BitVec 32)
  deriving DecidableEq

def Wait.ticks : Wait → Option (BitVec 32)
  | .timed ticks => some ticks
  | _ => none

inductive Call where
  | lock (side : Side) (wait : Wait)
  | unlock
  deriving DecidableEq

def pthreadRwlockRdlock : Call := .lock .reader .forever

def pthreadRwlockTryrdlock : Call := .lock .reader .trial

def pthreadRwlockTimedrdlock (ticks : BitVec 32) : Call := .lock .reader (.timed ticks)

def pthreadRwlockWrlock : Call := .lock .writer .forever

def pthreadRwlockTrywrlock : Call := .lock .writer .trial

def pthreadRwlockTimedwrlock (ticks : BitVec 32) : Call := .lock .writer (.timed ticks)

def pthreadRwlockUnlock : Call := .unlock

/-- Where a thread is. -/
inductive Stage where
  | outside
  /-- Before it takes `rw_mutex`. -/
  | locking (side : Side) (wait : Wait)
  | unlocking
  /-- In the wait for the condition, with `rw_mutex` given up. -/
  | released (side : Side) (wait : Wait)
  /-- In `rt_sem_take`, at the switch or behind it. -/
  | taking (side : Side) (wait : Wait)
  /-- `rt_sem_take` has returned, and `rw_mutex` is to be taken again. -/
  | taken (side : Side) (wait : Wait) (result : RtErr)
  /-- It has `rw_mutex`, which is given up before the return. -/
  | leaving (result : Errno)
  deriving DecidableEq

def Call.stage : Call → Stage
  | .lock side wait => .locking side wait
  | .unlock => .unlocking

/-- The stage after a part of `rt_sem_take`. -/
def Stage.after (side : Side) (wait : Wait) : Option RtErr → Stage
  | none => .taking side wait
  | some result => .taken side wait result

structure State where
  /-- `rw_mutex`. -/
  mutex : PthreadMutex
  /-- `rw_condreaders` and `rw_condwriters`. -/
  cond : Side → Semaphore.State
  /-- `rw_nwaitreaders` and `rw_nwaitwriters`. -/
  nwait : Side → Int
  /-- `rw_refcount`. -/
  refcount : Int
  stage : ThreadId → Stage

/-- `pthread_rwlock_init`, over started threads. -/
def pthreadRwlockInit (priority : ThreadId → Nat) : State where
  mutex := ⟨.normal, none⟩
  cond := fun _ => Semaphore.init .fifo 0 priority
  nwait := fun _ => 0
  refcount := 0
  stage := fun _ => .outside

/-- `INT_MAX`. -/
def intMax : Int := 2147483647

def increment (n : Int) : Option Int := if n < intMax then some (n + 1) else none

def setStage (s : State) (t : ThreadId) (stage : Stage) : State :=
  { s with stage := Function.update s.stage t stage }

def setCond (s : State) (side : Side) (sem : Semaphore.State) : State :=
  { s with cond := Function.update s.cond side sem }

def setNwait (s : State) (side : Side) (n : Int) : State :=
  { s with nwait := Function.update s.nwait side n }

/-- The conditions of the loops: a reader waits for a writer that holds the lock or waits for
it, a writer for anybody who holds it. -/
def mustWait (s : State) : Side → Bool
  | .reader => decide (s.refcount < 0 ∨ 0 < s.nwait .writer)
  | .writer => decide (s.refcount ≠ 0)

/-- `rw_refcount` with one holder more. -/
def acquired (refcount : Int) : Side → Option Int
  | .reader => increment refcount
  | .writer => some (-1)

/-- One round of the loop of a lock call, or what follows the loop. -/
def lockLoop (s : State) (t : ThreadId) (side : Side) (wait : Wait) : Option State :=
  if mustWait s side then
    if wait = .trial then some (setStage s t (.leaving .ebusy))
    else
      (increment (s.nwait side)).map fun n =>
        match Cond.condRelease s.mutex t with
        | some mutex => setStage (setNwait { s with mutex := mutex } side n) t (.released side wait)
        | none => setStage s t (.leaving .einval)
  else
    (acquired s.refcount side).map fun n => setStage { s with refcount := n } t (.leaving .ok)

/-- `rw_refcount` with one holder less. -/
def released (refcount : Int) : Int :=
  if 0 < refcount then refcount - 1 else if refcount = -1 then 0 else refcount

/-- `pthread_rwlock_unlock` with `rw_mutex` taken. -/
def unlockBody (s : State) (t : ThreadId) : Option State :=
  let s := { s with refcount := released s.refcount }
  if 0 < s.nwait .writer then
    if s.refcount = 0 then
      let r := Cond.pthreadCondSignal (s.cond .writer)
      some (setStage (setCond s .writer r.1) t (.leaving r.2))
    else some (setStage s t (.leaving .ok))
  else if 0 < s.nwait .reader then
    (Cond.pthreadCondBroadcast (s.cond .reader) t).map fun r =>
      setStage (setCond s .reader r.1) t (.leaving r.2)
  else some (setStage s t (.leaving .ok))

/-- `rw_mutex` is taken and `body` follows, or the error is returned. -/
def withMutex (s : State) (t : ThreadId) (body : State → Option State) :
    Option (State × Option Errno) :=
  match Cond.pthreadMutexLock s.mutex t with
  | some (mutex, .ok) => (body { s with mutex := mutex }).map fun s => (s, none)
  | some (_, err) => some (setStage s t .outside, some err)
  | none => none

/-- The end of a wait: the thread has `rw_mutex` again, whatever `pthread_mutex_lock` returned. -/
def endWait (s : State) (t : ThreadId) (side : Side) (wait : Wait) (result : RtErr) :
    Option State := do
  let (mutex, _) ← Cond.pthreadMutexLock s.mutex t
  let s := setNwait { s with mutex := mutex } side (s.nwait side - 1)
  match Cond.waitResult wait.ticks result with
  | .ok => lockLoop s t side wait
  | err => some (setStage s t (.leaving err))

/-- The next step of a thread that is inside a function, with the value that is returned in it. -/
def proceed (s : State) (t : ThreadId) : Option (State × Option Errno) :=
  match s.stage t with
  | .outside => none
  | .locking side wait => withMutex s t fun s => lockLoop s t side wait
  | .unlocking => withMutex s t fun s => unlockBody s t
  | .released side wait =>
    (Semaphore.call (s.cond side) (.take t (wait.ticks.getD Cond.waitingForever))).map fun r =>
      (setStage (setCond s side r.1) t (.after side wait r.2), none)
  | .taking side wait =>
    (Semaphore.call (s.cond side) (.takeReturn t)).map fun r =>
      (setStage (setCond s side r.1) t (.after side wait r.2), none)
  | .taken side wait result => (endWait s t side wait result).map fun s => (s, none)
  | .leaving result =>
    some (setStage { s with mutex := (Cond.pthreadMutexUnlock s.mutex t).1 } t .outside,
      some result)

/-- The steps of a run: a thread calls a function, or goes on, or its timer expires. -/
inductive Op where
  | enter (t : ThreadId) (c : Call)
  | proceed (t : ThreadId)
  | timeout (t : ThreadId)
  deriving DecidableEq

/-- One step, with the value that is returned in it. -/
def call (s : State) : Op → Option (State × Option Errno)
  | .enter t c => if s.stage t = .outside then some (setStage s t c.stage, none) else none
  | .proceed t => proceed s t
  | .timeout t =>
    match s.stage t with
    | .taking side _ =>
      (Semaphore.call (s.cond side) (.timeout t)).map fun r => (setCond s side r.1, none)
    | _ => none

def step (s : State) (op : Op) : Option State := (call s op).map Prod.fst

end RtThread.RwLock
