import Mathlib.Data.List.Nodup
import Mathlib.Logic.Function.Basic
import RtThread.RtDef

/-!
# Waiting threads

What the IPC objects of `ipc.c` share: the fields of a thread their functions
work with, and the lists of suspended threads. Any thread that is not suspended
may run next, so a run is any interleaving of the interrupt-disabled sections of
the threads; the ready queue, which decides among these threads, is not part of
this level.
-/
namespace RtThread.Ipc

abbrev ThreadId := Nat

structure Thread where
  /-- `stat & RT_THREAD_STAT_MASK` is `RT_THREAD_SUSPEND`. -/
  suspended : Bool
  currentPriority : Nat
  initPriority : Nat
  error : RtErr
  /-- `thread_timer` is started. -/
  timerActive : Bool
  deriving DecidableEq

abbrev Threads := ThreadId → Thread

/-- A thread that has been started and does not wait. -/
def started (priority : Nat) : Thread := ⟨false, priority, priority, .eok, false⟩

/-- `RT_IPC_FLAG_FIFO` and `RT_IPC_FLAG_PRIO`. -/
inductive Flag where
  | fifo | prio
  deriving DecidableEq

/-- The search of `_ipc_list_suspend` with `RT_IPC_FLAG_PRIO`: before the first thread that is
less urgent, or at the end. -/
def insertPrio (thread : Threads) (t : ThreadId) : List ThreadId → List ThreadId
  | [] => [t]
  | u :: us =>
    if (thread t).currentPriority < (thread u).currentPriority then t :: u :: us
    else u :: insertPrio thread t us

def insertWaiting (thread : Threads) (flag : Flag) (t : ThreadId) (l : List ThreadId) :
    List ThreadId :=
  match flag with
  | .fifo => l ++ [t]
  | .prio => insertPrio thread t l

def setError (thread : Threads) (t : ThreadId) (err : RtErr) : Threads :=
  Function.update thread t { thread t with error := err }

/-- `RT_THREAD_CTRL_CHANGE_PRIORITY`. -/
def changePriority (thread : Threads) (t : ThreadId) (priority : Nat) : Threads :=
  Function.update thread t { thread t with currentPriority := priority }

/-- The thread leaves the ready queue, or enters it; its timer is stopped, or started. -/
def setWaiting (thread : Threads) (t : ThreadId) (suspended timerActive : Bool) : Threads :=
  Function.update thread t
    { thread t with suspended := suspended, timerActive := timerActive }

/-- `rt_thread_suspend`; a thread that is suspended already is left alone. -/
def rtThreadSuspend (thread : Threads) (t : ThreadId) : Threads :=
  if (thread t).suspended then thread else setWaiting thread t true false

/-- `_ipc_list_suspend`. -/
def ipcListSuspend (thread : Threads) (flag : Flag) (t : ThreadId) (l : List ThreadId) :
    Threads × List ThreadId :=
  let thread := rtThreadSuspend thread t
  (thread, insertWaiting thread flag t l)

/-- `_ipc_list_resume`: `rt_thread_resume` of the first thread, which stays in the list when it
is not suspended. -/
def ipcListResume (thread : Threads) : List ThreadId → Threads × List ThreadId
  | [] => (thread, [])
  | u :: us =>
    if (thread u).suspended then (setWaiting thread u false false, us) else (thread, u :: us)

/-- `_ipc_list_resume_all`; there is no result when a thread of the list is not suspended, as it
would stay in the list. -/
def ipcListResumeAll : Threads → List ThreadId → Option Threads
  | thread, [] => some thread
  | thread, u :: us =>
    if (thread u).suspended then
      ipcListResumeAll (setWaiting (setError thread u .error) u false false) us
    else none

/-- The thread timer is set and started when there is a waiting time. `rt_timer_control` asserts
that the time is below `RT_TICK_MAX / 2`. -/
def startThreadTimer (thread : Threads) (t : ThreadId) (time : Int) : Option Threads :=
  if 0 < time then
    if time < rtTickMaxHalf then some (setWaiting thread t (thread t).suspended true) else none
  else some thread

/-- The waiting time that is left when a thread that began to wait at the tick `since` runs
again. -/
def remaining (timeout : BitVec 32) (now since : Tick) : BitVec 32 :=
  if 0 < timeout.toInt then
    let timeout := timeout - (now - since)
    if timeout.toInt < 0 then 0 else timeout
  else timeout

/-- `_thread_timeout`, which the timer of the thread calls; it takes the thread out of the list
it waits in as well. -/
def threadTimeout (thread : Threads) (t : ThreadId) : Threads :=
  setWaiting (setError thread t .etimeout) t false false

section fields

variable (thread : Threads) (t u : ThreadId)

@[simp] theorem setError_error (err : RtErr) :
    (setError thread t err u).error = if u = t then err else (thread u).error := by
  by_cases h : u = t <;> simp [setError, h]

@[simp] theorem setError_suspended (err : RtErr) :
    (setError thread t err u).suspended = (thread u).suspended := by
  by_cases h : u = t <;> simp [setError, h]

@[simp] theorem setError_timerActive (err : RtErr) :
    (setError thread t err u).timerActive = (thread u).timerActive := by
  by_cases h : u = t <;> simp [setError, h]

@[simp] theorem setError_currentPriority (err : RtErr) :
    (setError thread t err u).currentPriority = (thread u).currentPriority := by
  by_cases h : u = t <;> simp [setError, h]

@[simp] theorem setError_initPriority (err : RtErr) :
    (setError thread t err u).initPriority = (thread u).initPriority := by
  by_cases h : u = t <;> simp [setError, h]

@[simp] theorem changePriority_error (p : Nat) :
    (changePriority thread t p u).error = (thread u).error := by
  by_cases h : u = t <;> simp [changePriority, h]

@[simp] theorem changePriority_suspended (p : Nat) :
    (changePriority thread t p u).suspended = (thread u).suspended := by
  by_cases h : u = t <;> simp [changePriority, h]

@[simp] theorem changePriority_timerActive (p : Nat) :
    (changePriority thread t p u).timerActive = (thread u).timerActive := by
  by_cases h : u = t <;> simp [changePriority, h]

@[simp] theorem changePriority_currentPriority (p : Nat) :
    (changePriority thread t p u).currentPriority =
      if u = t then p else (thread u).currentPriority := by
  by_cases h : u = t <;> simp [changePriority, h]

@[simp] theorem changePriority_initPriority (p : Nat) :
    (changePriority thread t p u).initPriority = (thread u).initPriority := by
  by_cases h : u = t <;> simp [changePriority, h]

variable (a b : Bool)

@[simp] theorem setWaiting_error :
    (setWaiting thread t a b u).error = (thread u).error := by
  by_cases h : u = t <;> simp [setWaiting, h]

@[simp] theorem setWaiting_suspended :
    (setWaiting thread t a b u).suspended = if u = t then a else (thread u).suspended := by
  by_cases h : u = t <;> simp [setWaiting, h]

@[simp] theorem setWaiting_timerActive :
    (setWaiting thread t a b u).timerActive = if u = t then b else (thread u).timerActive := by
  by_cases h : u = t <;> simp [setWaiting, h]

@[simp] theorem setWaiting_currentPriority :
    (setWaiting thread t a b u).currentPriority = (thread u).currentPriority := by
  by_cases h : u = t <;> simp [setWaiting, h]

@[simp] theorem setWaiting_initPriority :
    (setWaiting thread t a b u).initPriority = (thread u).initPriority := by
  by_cases h : u = t <;> simp [setWaiting, h]

end fields

/-- A running thread that is suspended with a waiting time. -/
theorem startThreadTimer_suspend {thread thread' : Threads} {t : ThreadId} {time : Int}
    (ht : (thread t).suspended = false)
    (h : startThreadTimer (rtThreadSuspend thread t) t time = some thread') :
    thread' = setWaiting thread t true (decide (0 < time)) := by
  rw [rtThreadSuspend, ht, if_neg (by simp), startThreadTimer] at h
  split at h
  · rename_i hpos
    split at h
    · cases h
      simp [hpos, setWaiting]
    · simp at h
  · rename_i hpos
    cases h
    simp [hpos]

theorem insertPrio_congr {thread thread' : Threads}
    (h : ∀ u, (thread' u).currentPriority = (thread u).currentPriority) (t : ThreadId)
    (l : List ThreadId) : insertPrio thread' t l = insertPrio thread t l := by
  induction l with
  | nil => rfl
  | cons u us ih => rw [insertPrio, insertPrio, h, h, ih]

theorem insertPrio_perm (thread : Threads) (t : ThreadId) (l : List ThreadId) :
    (insertPrio thread t l).Perm (t :: l) := by
  induction l with
  | nil => exact List.Perm.refl _
  | cons u us ih =>
    rw [insertPrio]
    split
    · exact List.Perm.refl _
    · exact (ih.cons u).trans (List.Perm.swap t u us)

theorem insertWaiting_perm (thread : Threads) (flag : Flag) (t : ThreadId) (l : List ThreadId) :
    (insertWaiting thread flag t l).Perm (t :: l) := by
  cases flag with
  | fifo => exact List.perm_append_singleton t l
  | prio => exact insertPrio_perm thread t l

/-- The other threads of the list keep their places. -/
theorem insertWaiting_filter (thread : Threads) (flag : Flag) (t : ThreadId) (l : List ThreadId) :
    (insertWaiting thread flag t l).filter (· ≠ t) = l.filter (· ≠ t) := by
  cases flag with
  | fifo => simp [insertWaiting]
  | prio =>
    rw [insertWaiting]
    induction l with
    | nil => simp [insertPrio]
    | cons u us ih =>
      rw [insertPrio]
      split
      · simp
      · rw [List.filter_cons, List.filter_cons, ih]

theorem mem_insertWaiting {thread : Threads} {flag : Flag} {t u : ThreadId} {l : List ThreadId} :
    u ∈ insertWaiting thread flag t l ↔ u = t ∨ u ∈ l := by
  rw [(insertWaiting_perm thread flag t l).mem_iff, List.mem_cons]

end RtThread.Ipc
