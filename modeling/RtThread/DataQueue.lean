import RtThread.Lib.Runs
import RtThread.Waiters

/-!
# Data queues

`rt_data_queue_push`, `rt_data_queue_pop`, `rt_data_queue_peek`, `rt_data_queue_reset` and
`rt_data_queue_len` on one data queue. A push or a pop that has to wait is several steps:
up to the switch, and from each switch back to the return or to the next switch. A peek
tests the queue before its section. A reset empties the queue in one section, and then
wakes the threads of the two lists one by one, with a test of the list before each
section.

The indices are bit-fields of 15 bits, the size is a half word. `suspended_pop_list` is
the list of the receivers and `suspended_push_list` that of the senders. There is no
result where the source fails an assertion, or takes the head of an empty list for a
thread.
-/
namespace RtThread.DataQueue

open Ipc

structure RtDataItem where
  dataPtr : BitVec 32
  dataSize : BitVec 32
  deriving DecidableEq

structure RtDataQueue where
  size : Nat
  lwm : Nat
  getIndex : Nat
  isEmpty : Bool
  putIndex : Nat
  isFull : Bool
  queue : Nat → RtDataItem

/-- Where a thread is inside of a function of the data queue. -/
inductive Call where
  | outside
  /-- Suspended in `rt_data_queue_push`. -/
  | pushing (item : RtDataItem) (timeout : BitVec 32)
  /-- Suspended in `rt_data_queue_pop`. -/
  | popping (timeout : BitVec 32)
  /-- Behind the test of `rt_data_queue_peek`. -/
  | peeking
  /-- Before the test of a list in `rt_data_queue_reset`. -/
  | resetting (r : Role)
  /-- Behind the test of a list in `rt_data_queue_reset`. -/
  | waking (r : Role)
  deriving DecidableEq

structure State where
  dq : RtDataQueue
  waiters : Waiters Role
  call : ThreadId → Call

/-- What a call returns, with the item that it stores through its arguments. -/
structure Ret where
  err : RtErr
  item : Option RtDataItem
  deriving DecidableEq

/-- The width of `get_index` and `put_index`. -/
def indexBits : Nat := 15

/-- `rt_data_queue_init`, with the memory it has allocated. -/
def rtDataQueueInit (queue : Nat → RtDataItem) (size lwm : Nat) : RtDataQueue :=
  ⟨size, lwm, 0, true, 0, false, queue⟩

def init (queue : Nat → RtDataItem) (size lwm : Nat) (priority : ThreadId → Nat) : State :=
  ⟨rtDataQueueInit queue size lwm, .init priority, fun _ => .outside⟩

def setCall (s : State) (t : ThreadId) (c : Call) : State :=
  { s with call := Function.update s.call t c }

/-- `rt_data_queue_len`. -/
def rtDataQueueLen (dq : RtDataQueue) : Nat :=
  if dq.isEmpty then 0
  else if dq.getIndex < dq.putIndex then dq.putIndex - dq.getIndex
  else wsub 16 (dq.size + dq.putIndex) dq.getIndex

/-- The index behind another one. -/
def RtDataQueue.next (dq : RtDataQueue) (index : Nat) : Nat :=
  if wadd indexBits index 1 = dq.size then 0 else wadd indexBits index 1

/-- The queue after an item has been put into it. -/
def RtDataQueue.put (dq : RtDataQueue) (item : RtDataItem) : RtDataQueue :=
  { dq with
    queue := Function.update dq.queue dq.putIndex item
    putIndex := dq.next dq.putIndex
    isEmpty := false
    isFull := dq.isFull || decide (dq.next dq.putIndex = dq.getIndex) }

/-- The queue after the first item has been taken. -/
def RtDataQueue.take (dq : RtDataQueue) : RtDataQueue :=
  { dq with
    getIndex := dq.next dq.getIndex
    isFull := false
    isEmpty := dq.isEmpty || decide (dq.putIndex = dq.next dq.getIndex) }

/-- `rt_data_queue_push` from the condition of its loop to its return or to the switch. -/
def rtDataQueuePush (s : State) (t : ThreadId) (item : RtDataItem) (timeout : BitVec 32) :
    Option (State × Option Ret) :=
  if s.dq.isFull then
    if timeout = 0 then some (setCall s t .outside, some ⟨.etimeout, none⟩)
    else
      (s.waiters.block .fifo .sender t timeout).map fun w =>
        (setCall { s with waiters := w } t (.pushing item timeout), none)
  else
    some (setCall { s with dq := s.dq.put item, waiters := s.waiters.wake .receiver } t .outside,
      some ⟨.eok, none⟩)

/-- `rt_data_queue_pop` from the condition of its loop to its return or to the switch. -/
def rtDataQueuePop (s : State) (t : ThreadId) (timeout : BitVec 32) : Option (State × Option Ret) :=
  if s.dq.isEmpty then
    if timeout = 0 then some (setCall s t .outside, some ⟨.etimeout, none⟩)
    else
      (s.waiters.block .fifo .receiver t timeout).map fun w =>
        (setCall { s with waiters := w } t (.popping timeout), none)
  else
    let dq := s.dq.take
    let waiters := if rtDataQueueLen dq ≤ dq.lwm then s.waiters.wake .sender else s.waiters
    some (setCall { s with dq := dq, waiters := waiters } t .outside,
      some ⟨.eok, some (s.dq.queue s.dq.getIndex)⟩)

/-- A thread runs again after the switch: it returns its error number, or it goes back to the
condition of the loop with the waiting time it began with. -/
def switchBack (s : State) (t : ThreadId) : Option (State × Option Ret) :=
  let err := (s.waiters.thread t).error
  match s.call t with
  | .pushing item timeout =>
    if err ≠ .eok then some (setCall s t .outside, some ⟨err, none⟩)
    else rtDataQueuePush s t item timeout
  | .popping timeout =>
    if err ≠ .eok then some (setCall s t .outside, some ⟨err, none⟩)
    else rtDataQueuePop s t timeout
  | _ => none

/-- `rt_data_queue_peek`, up to its section. -/
def rtDataQueuePeek (s : State) (t : ThreadId) : State × Option Ret :=
  if s.dq.isEmpty then (s, some ⟨.eempty, none⟩) else (setCall s t .peeking, none)

/-- The first section of `rt_data_queue_reset`. -/
def rtDataQueueReset (s : State) (t : ThreadId) : State :=
  let dq := { s.dq with getIndex := 0, putIndex := 0, isEmpty := true, isFull := false }
  setCall { s with dq := dq } t (.resetting .receiver)

/-- The test of a list in `rt_data_queue_reset`. -/
def resetTest (s : State) (t : ThreadId) (r : Role) : State × Option Ret :=
  if s.waiters.list r ≠ [] then (setCall s t (.waking r), none)
  else
    match r with
    | .receiver => (setCall s t (.resetting .sender), none)
    | .sender => (setCall s t .outside, some ⟨.eok, none⟩)

/-- A section of `rt_data_queue_reset` that wakes the first thread of a list. -/
def resetWake (s : State) (t : ThreadId) (r : Role) : Option State :=
  match s.waiters.list r with
  | [] => none
  | u :: _ =>
    some (setCall { s with waiters := (s.waiters.setError u .error).wake r } t (.resetting r))

/-- The next step of a thread inside of `rt_data_queue_peek` or `rt_data_queue_reset`. -/
def proceed (s : State) (t : ThreadId) : Option (State × Option Ret) :=
  match s.call t with
  | .peeking => some (setCall s t .outside, some ⟨.eok, some (s.dq.queue s.dq.getIndex)⟩)
  | .resetting r => some (resetTest s t r)
  | .waking r => (resetWake s t r).map fun s => (s, none)
  | _ => none

/-- The steps of a run. -/
inductive Op where
  | push (t : ThreadId) (item : RtDataItem) (timeout : BitVec 32)
  | pop (t : ThreadId) (timeout : BitVec 32)
  | switchBack (t : ThreadId)
  | peek (t : ThreadId)
  | reset (t : ThreadId)
  | proceed (t : ThreadId)
  | timeout (t : ThreadId)
  deriving DecidableEq

/-- The thread runs, outside of the functions of the data queue. -/
def Active (s : State) (t : ThreadId) : Prop :=
  (s.waiters.thread t).suspended = false ∧ s.call t = .outside

instance (s : State) (t : ThreadId) : Decidable (Active s t) :=
  inferInstanceAs (Decidable (_ ∧ _))

/-- One step, with what the call returns in this step. -/
def call (s : State) : Op → Option (State × Option Ret)
  | .push t item timeout => if Active s t then rtDataQueuePush s t item timeout else none
  | .pop t timeout => if Active s t then rtDataQueuePop s t timeout else none
  | .switchBack t => if (s.waiters.thread t).suspended = false then switchBack s t else none
  | .peek t => if Active s t then some (rtDataQueuePeek s t) else none
  | .reset t => if Active s t then some (rtDataQueueReset s t, none) else none
  | .proceed t => if (s.waiters.thread t).suspended = false then proceed s t else none
  | .timeout t =>
    if (s.waiters.thread t).timerActive then
      some ({ s with waiters := s.waiters.timeout t }, none)
    else none

def step (s : State) (op : Op) : Option State := (call s op).map Prod.fst

end RtThread.DataQueue
