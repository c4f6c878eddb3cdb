import RtThread.Kservice
import RtThread.Mempool

/-!
# Priority queues

`rt_prio_queue_push` and `rt_prio_queue_pop` of the virtual bus. The items come from the memory
pool of the queue, where a pusher may have to wait; a popper waits in `suspended_pop_list`. A
call is one step for each of its sections and one for each copy of the data between them.

A thread never waits in both places, and what its wait in one of them leaves in the thread is
not looked at in the other: each place has its own record of the threads. There is no result
where the source fails an assertion.
-/
namespace RtThread.PrioQueue

open Ipc
open Mempool (Addr)

abbrev Byte := BitVec 8

/-- `RT_PRIO_QUEUE_PRIO_MAX`. -/
def rtPrioQueuePrioMax : Nat := 32

/-- `sizeof(struct rt_prio_queue_item)`. -/
def itemSize : Nat := 4

/-- Where a thread is, with the local variables that are still needed. -/
inductive Stage where
  | outside
  /-- In `rt_mp_alloc`. -/
  | allocating (prio : Nat) (data : List Byte)
  /-- Before the copy of the data into the item. -/
  | filling (prio : Nat) (item : Addr) (data : List Byte)
  /-- Before the section of `rt_prio_queue_push`. -/
  | linking (prio : Nat) (item : Addr) (data : List Byte)
  /-- Suspended in `rt_prio_queue_pop`, or resumed and not yet running. -/
  | waiting (timeout : BitVec 32)
  /-- Before the copy of the data out of the item. -/
  | emptying (item : Addr)
  /-- Before `rt_mp_free`. -/
  | freeing (item : Addr) (data : List Byte)
  deriving DecidableEq

structure State where
  bitmap : BitVec 32
  head : Nat → Option Addr
  tail : Nat → Option Addr
  itemSz : Nat
  pool : Mempool.State
  /-- `suspended_pop_list`. -/
  waiters : Waiters Unit
  /-- The `next` field of the items. -/
  next : Addr → Option Addr
  /-- The bytes that follow the items. -/
  data : Addr → List Byte
  stage : ThreadId → Stage

/-- `rt_prio_queue_init`; the address of the pool is `self`. -/
def rtPrioQueueInit (self : Addr) (word : Addr → Option Addr) (buf bufsz itemsz : Nat)
    (tick : Tick) (priority : ThreadId → Nat) (next : Addr → Option Addr)
    (data : Addr → List Byte) : Option State :=
  (Mempool.init self word buf bufsz (wadd 32 itemSize itemsz) tick priority).map fun pool =>
    ⟨0, fun _ => none, fun _ => none, itemsz, pool, .init priority, next, data, fun _ => .outside⟩

def setStage (s : State) (t : ThreadId) (stage : Stage) : State :=
  { s with stage := Function.update s.stage t stage }

/-- `_do_push`. -/
def doPush (s : State) (prio : Nat) (item : Addr) : Option State :=
  match s.head prio with
  | none =>
    some { s with
      head := Function.update s.head prio (some item)
      bitmap := s.bitmap ||| 1#32 <<< prio
      tail := Function.update s.tail prio (some item) }
  | some _ =>
    (s.tail prio).map fun last =>
      { s with
        next := Function.update s.next last (some item)
        tail := Function.update s.tail prio (some item) }

/-- `_do_pop`, with the item it returns. -/
def doPop (s : State) : Option (Option Addr × State) :=
  let ffs := Kservice.rtFfs s.bitmap
  if ffs = 0 then some (none, s)
  else
    let ffs := ffs - 1
    (s.head ffs).map fun item =>
      (some item, { s with
        head := Function.update s.head ffs (s.next item)
        bitmap := if s.next item = none then s.bitmap &&& ~~~(1#32 <<< ffs) else s.bitmap })

/-- What a call returns; a pop that succeeds returns its data as well. -/
inductive Ret where
  | push (err : RtErr)
  | pop (data : List Byte)
  | noPop (err : RtErr)
  deriving DecidableEq

/-- `rt_mp_alloc` of a push, or the next part of it. -/
def allocate (s : State) (t : ThreadId) (op : Mempool.Op) (prio : Nat) (data : List Byte) :
    Option (State × Option Ret) :=
  (Mempool.call s.pool op).map fun (pool, ret) =>
    let s := { s with pool := pool }
    match ret with
    | none => (setStage s t (.allocating prio data), none)
    | some none => (setStage s t .outside, some (.push .enomem))
    | some (some item) => (setStage s t (.filling prio item data), none)

/-- The section of a push, with the first popper resumed. -/
def link (s : State) (t : ThreadId) (prio : Nat) (item : Addr) : Option (State × Option Ret) :=
  (doPush s prio item).map fun s =>
    (setStage { s with waiters := s.waiters.wake () } t .outside, some (.push .eok))

/-- A pop from the condition of its loop to the end of the section, or to the switch. -/
def popLoop (s : State) (t : ThreadId) (timeout : BitVec 32) : Option (State × Option Ret) :=
  (doPop s).bind fun
    | (some item, s) => some (setStage s t (.emptying item), none)
    | (none, s) =>
      if timeout = 0 then some (setStage s t .outside, some (.noPop .etimeout))
      else
        (s.waiters.block .fifo () t timeout).map fun w =>
          (setStage { s with waiters := w } t (.waiting timeout), none)

/-- The next part of the call that a thread is in. -/
def proceed (s : State) (t : ThreadId) : Option (State × Option Ret) :=
  match s.stage t with
  | .outside => none
  | .allocating prio data => allocate s t (.switchBack t) prio data
  | .filling prio item data =>
    some (setStage { s with
      data := Function.update s.data item data
      next := Function.update s.next item none } t (.linking prio item data), none)
  | .linking prio item _ => link s t prio item
  | .waiting timeout =>
    if (s.waiters.thread t).suspended then none
    else if (s.waiters.thread t).error ≠ .eok then
      some (setStage s t .outside, some (.noPop (s.waiters.thread t).error))
    else popLoop s t timeout
  | .emptying item => some (setStage s t (.freeing item (s.data item)), none)
  | .freeing item data =>
    (Mempool.call s.pool (.free t item)).map fun r =>
      (setStage { s with pool := r.1 } t .outside, some (.pop data))

/-- The steps of a run. -/
inductive Op where
  | push (t : ThreadId) (prio : Nat) (data : List Byte) (timeout : BitVec 32)
  | pop (t : ThreadId) (timeout : BitVec 32)
  | proceed (t : ThreadId)
  | timeout (t : ThreadId)
  | tickIncrease
  deriving DecidableEq

/-- One step, with what the call returns in this step. -/
def call (s : State) : Op → Option (State × Option Ret)
  | .push t prio data timeout =>
    if s.stage t = .outside ∧ data.length = s.itemSz then
      if rtPrioQueuePrioMax ≤ prio then some (s, some (.push .error))
      else allocate s t (.alloc t timeout) prio data
    else none
  | .pop t timeout => if s.stage t = .outside then popLoop s t timeout else none
  | .proceed t => proceed s t
  | .timeout t =>
    if (s.pool.waiters.thread t).timerActive then
      (Mempool.call s.pool (.timeout t)).map fun r => ({ s with pool := r.1 }, none)
    else if (s.waiters.thread t).timerActive then
      some ({ s with waiters := s.waiters.timeout t }, none)
    else none
  | .tickIncrease =>
    (Mempool.call s.pool .tickIncrease).map fun r => ({ s with pool := r.1 }, none)

def step (s : State) (op : Op) : Option State := (call s op).map Prod.fst

end RtThread.PrioQueue
