import RtThread.Lib.Runs
import RtThread.Waiters

/-!
# Semaphores

`rt_sem_take`, `rt_sem_trytake` and `rt_sem_release` on one semaphore. A take that has
to wait is two steps: up to the switch, and from the switch back to the return.

The value is a half word. There is no result where the source fails an assertion.
-/
namespace RtThread.Semaphore

open Ipc

structure State where
  flag : Flag
  value : Nat
  waiters : Waiters Unit
  /-- The thread has been suspended in a call of `rt_sem_take` that has not returned yet. -/
  taking : ThreadId → Bool

/-- `RT_SEM_VALUE_MAX`. -/
def valueMax : Nat := 65535

/-- `rt_sem_init`, over started threads. -/
def init (flag : Flag) (value : Nat) (priority : ThreadId → Nat) : State :=
  ⟨flag, value, .init priority, fun _ => false⟩

/-- `rt_sem_take`, up to its return or to the switch; there is no result when the thread has
been suspended. -/
def rtSemTake (s : State) (t : ThreadId) (time : BitVec 32) : Option (State × Option RtErr) :=
  if 0 < s.value then some ({ s with value := wsub 16 s.value 1 }, some .eok)
  else if time = 0 then some (s, some .etimeout)
  else
    (s.waiters.block s.flag () t time).map fun w =>
      ({ s with waiters := w, taking := Function.update s.taking t true }, none)

/-- `rt_sem_trytake`. -/
def rtSemTrytake (s : State) (t : ThreadId) : Option (State × Option RtErr) := rtSemTake s t 0

/-- The rest of `rt_sem_take` after the switch back. -/
def takeReturn (s : State) (t : ThreadId) : State × Option RtErr :=
  ({ s with taking := Function.update s.taking t false }, some (s.waiters.thread t).error)

/-- `rt_sem_release`. -/
def rtSemRelease (s : State) : State × Option RtErr :=
  if s.waiters.list () ≠ [] then ({ s with waiters := s.waiters.wake () }, some .eok)
  else if s.value < valueMax then ({ s with value := s.value + 1 }, some .eok)
  else (s, some .efull)

/-- The steps of a run. -/
inductive Op where
  | take (t : ThreadId) (time : BitVec 32)
  | trytake (t : ThreadId)
  | takeReturn (t : ThreadId)
  | release (t : ThreadId)
  | timeout (t : ThreadId)
  deriving DecidableEq

/-- The thread runs, outside of `rt_sem_take`. -/
def Active (s : State) (t : ThreadId) : Prop :=
  (s.waiters.thread t).suspended = false ∧ s.taking t = false

instance (s : State) (t : ThreadId) : Decidable (Active s t) :=
  inferInstanceAs (Decidable (_ ∧ _))

/-- One step, with the value the call returns in this step. -/
def call (s : State) : Op → Option (State × Option RtErr)
  | .take t time => if Active s t then rtSemTake s t time else none
  | .trytake t => if Active s t then rtSemTrytake s t else none
  | .takeReturn t =>
    if (s.waiters.thread t).suspended = false ∧ s.taking t = true then some (takeReturn s t)
    else none
  | .release t => if Active s t then some (rtSemRelease s) else none
  | .timeout t =>
    if (s.waiters.thread t).timerActive then
      some ({ s with waiters := s.waiters.timeout t }, none)
    else none

def step (s : State) (op : Op) : Option State := (call s op).map Prod.fst

end RtThread.Semaphore
