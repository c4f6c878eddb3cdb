import RtThread.Lib.Runs
import RtThread.Waiters

/-!
# Message queues

`rt_mq_send_wait`, `rt_mq_urgent`, `rt_mq_recv` and the reset of `rt_mq_control` on
one message queue. A send takes a slot from the free list in one interrupt-disabled
section, fills it with interrupts enabled, and links it in a second section; a
receive unlinks a slot, copies it, and puts it into the free list. Each of these
parts is a step of its own, and so is every part between two switches of a call that
waits. A call made from an interrupt is the call of a thread of its own that does not
wait.

Slots are linked by their `next` pointers, and `entry` and `max_msgs` are half words.
There is no result where the source fails an assertion or follows a null pointer.
-/
namespace RtThread.MessageQueue

open Ipc

abbrev Byte := BitVec 8
abbrev Slot := Nat

structure RtMq where
  msgSize : Nat
  maxMsgs : Nat
  entry : Nat
  msgQueueHead : Option Slot
  msgQueueTail : Option Slot
  msgQueueFree : Option Slot
  next : Slot → Option Slot
  /-- The `msg_size` bytes behind the header of a slot. -/
  bytes : Slot → Nat → Byte

/-- Where a thread is in a call which has not returned yet. -/
inductive Call where
  | outside
  /-- Suspended in `rt_mq_send_wait`. -/
  | sending (data : List Byte) (timeout : BitVec 32) (since : Tick)
  /-- Between the two sections of a send, before and after copying. -/
  | filling (urgent : Bool) (slot : Slot) (data : List Byte)
  | linking (urgent : Bool) (slot : Slot) (data : List Byte)
  /-- Suspended in `rt_mq_recv`. -/
  | receiving (size : Nat) (timeout : BitVec 32) (since : Tick)
  /-- Between the two sections of a receive, before and after copying. -/
  | copying (slot : Slot) (size : Nat)
  | freeing (slot : Slot) (size : Nat) (bytes : List Byte)
  deriving DecidableEq

structure State where
  flag : Flag
  tick : Tick
  mq : RtMq
  waiters : Waiters Role
  call : ThreadId → Call

/-- What a call returns, with the bytes that `rt_mq_recv` stores in its buffer. -/
structure Ret where
  err : RtErr
  bytes : Option (List Byte)
  deriving DecidableEq

/-- `RT_MQ_ENTRY_MAX`. -/
def entryMax : Nat := 65535

/-- The loop of `rt_mq_init` that puts the slots into the free list. -/
def initFree (next : Slot → Option Slot) : Nat → (Slot → Option Slot) × Option Slot
  | 0 => (next, none)
  | k + 1 =>
    let (next, free) := initFree next k
    (Function.update next k free, some k)

/-- `rt_mq_init`, over a pool with any content. -/
def rtMqInit (next : Slot → Option Slot) (bytes : Slot → Nat → Byte) (msgSize maxMsgs : Nat) :
    RtMq :=
  let (next, free) := initFree next maxMsgs
  ⟨msgSize, maxMsgs, 0, none, none, free, next, bytes⟩

def init (flag : Flag) (tick : Tick) (mq : RtMq) (priority : ThreadId → Nat) : State :=
  ⟨flag, tick, mq, .init priority, fun _ => .outside⟩

def setCall (s : State) (t : ThreadId) (c : Call) : State :=
  { s with call := Function.update s.call t c }

/-- The first slot leaves the free list. -/
def takeFree (mq : RtMq) (slot : Slot) : RtMq := { mq with msgQueueFree := mq.next slot }

/-- `rt_mq_send_wait` from the condition of its loop to the end of its first section or to the
switch. -/
def sendLoop (s : State) (t : ThreadId) (data : List Byte) (timeout : BitVec 32) :
    Option (State × Option Ret) :=
  match s.mq.msgQueueFree with
  | none =>
    if timeout = 0 then
      some (setCall { s with waiters := s.waiters.setError t .eok } t .outside,
        some ⟨.efull, none⟩)
    else
      (s.waiters.block s.flag .sender t timeout).map fun w =>
        (setCall { s with waiters := w } t (.sending data timeout s.tick), none)
  | some slot =>
    some (setCall { s with mq := takeFree s.mq slot } t (.filling false slot data), none)

/-- `rt_mq_send_wait`, up to the end of its first section or to the switch. -/
def rtMqSendWait (s : State) (t : ThreadId) (data : List Byte) (timeout : BitVec 32) :
    Option (State × Option Ret) :=
  if data = [] then none
  else if s.mq.msgSize < data.length then some (s, some ⟨.error, none⟩)
  else if s.mq.msgQueueFree = none ∧ timeout = 0 then some (s, some ⟨.efull, none⟩)
  else sendLoop s t data timeout

/-- `rt_mq_urgent`, up to the end of its first section. -/
def rtMqUrgent (s : State) (t : ThreadId) (data : List Byte) : Option (State × Option Ret) :=
  if data = [] then none
  else if s.mq.msgSize < data.length then some (s, some ⟨.error, none⟩)
  else match s.mq.msgQueueFree with
    | none => some (s, some ⟨.efull, none⟩)
    | some slot =>
      some (setCall { s with mq := takeFree s.mq slot } t (.filling true slot data), none)

/-- The first slot leaves the queue. -/
def unlinkHead (mq : RtMq) (slot : Slot) : RtMq :=
  { mq with
    msgQueueHead := mq.next slot
    msgQueueTail := if mq.msgQueueTail = some slot then none else mq.msgQueueTail }

/-- `rt_mq_recv` from the condition of its loop to the end of its first section or to the
switch. -/
def recvLoop (s : State) (t : ThreadId) (size : Nat) (timeout : BitVec 32) :
    Option (State × Option Ret) :=
  if s.mq.entry = 0 then
    if timeout = 0 then
      some (setCall { s with waiters := s.waiters.setError t .etimeout } t .outside,
        some ⟨.etimeout, none⟩)
    else
      (s.waiters.block s.flag .receiver t timeout).map fun w =>
        (setCall { s with waiters := w } t (.receiving size timeout s.tick), none)
  else
    s.mq.msgQueueHead.map fun slot =>
      let mq := unlinkHead s.mq slot
      let mq := { mq with entry := if 0 < mq.entry then mq.entry - 1 else mq.entry }
      (setCall { s with mq := mq } t (.copying slot size), none)

/-- `rt_mq_recv`, up to the end of its first section or to the switch. -/
def rtMqRecv (s : State) (t : ThreadId) (size : Nat) (timeout : BitVec 32) :
    Option (State × Option Ret) :=
  if size = 0 then none
  else if s.mq.entry = 0 ∧ timeout = 0 then some (s, some ⟨.etimeout, none⟩)
  else recvLoop s t size timeout

/-- A thread runs again after the switch: it returns its error number, or it recalculates its
waiting time and goes back to the condition of the loop. -/
def switchBack (s : State) (t : ThreadId) : Option (State × Option Ret) :=
  let err := (s.waiters.thread t).error
  match s.call t with
  | .sending data timeout since =>
    if err ≠ .eok then some (setCall s t .outside, some ⟨err, none⟩)
    else sendLoop s t data (remaining timeout s.tick since)
  | .receiving size timeout since =>
    if err ≠ .eok then some (setCall s t .outside, some ⟨err, none⟩)
    else recvLoop s t size (remaining timeout s.tick since)
  | _ => none

/-- `rt_memcpy` of a message into a slot; the bytes behind the message stay as they are. -/
def copyIn (data : List Byte) (old : Nat → Byte) : Nat → Byte := fun i => data.getD i (old i)

/-- `rt_memcpy` of the first bytes of a slot. -/
def copyOut (bytes : Nat → Byte) (size : Nat) : List Byte := (List.range size).map bytes

/-- The statements between the two sections of a call. -/
def copy (s : State) (t : ThreadId) : Option (State × Option Ret) :=
  match s.call t with
  | .filling urgent slot data =>
    let mq := { s.mq with
      next := if urgent then s.mq.next else Function.update s.mq.next slot none
      bytes := Function.update s.mq.bytes slot (copyIn data (s.mq.bytes slot)) }
    some (setCall { s with mq := mq } t (.linking urgent slot data), none)
  | .copying slot size =>
    let bytes := copyOut (s.mq.bytes slot) (if s.mq.msgSize < size then s.mq.msgSize else size)
    some (setCall s t (.freeing slot size bytes), none)
  | _ => none

/-- The slot becomes the last one of the queue. -/
def linkTail (mq : RtMq) (slot : Slot) : RtMq :=
  { mq with
    next := match mq.msgQueueTail with
      | none => mq.next
      | some tail => Function.update mq.next tail (some slot)
    msgQueueTail := some slot
    msgQueueHead := if mq.msgQueueHead = none then some slot else mq.msgQueueHead }

/-- The slot becomes the first one of the queue. -/
def linkHead (mq : RtMq) (slot : Slot) : RtMq :=
  { mq with
    next := Function.update mq.next slot mq.msgQueueHead
    msgQueueHead := some slot
    msgQueueTail := if mq.msgQueueTail = none then some slot else mq.msgQueueTail }

/-- The slot becomes the first one of the free list. -/
def putFree (mq : RtMq) (slot : Slot) : RtMq :=
  { mq with
    next := Function.update mq.next slot mq.msgQueueFree
    msgQueueFree := some slot }

/-- The second section of a call, to its return. -/
def finish (s : State) (t : ThreadId) : Option (State × Option Ret) :=
  match s.call t with
  | .linking urgent slot _ =>
    let mq := if urgent then linkHead s.mq slot else linkTail s.mq slot
    let s := setCall s t .outside
    if mq.entry < entryMax then
      some ({ s with mq := { mq with entry := mq.entry + 1 }, waiters := s.waiters.wake .receiver },
        some ⟨.eok, none⟩)
    else some ({ s with mq := mq }, some ⟨.efull, none⟩)
  | .freeing slot _ bytes =>
    some (setCall { s with mq := putFree s.mq slot, waiters := s.waiters.wake .sender } t .outside,
      some ⟨.eok, some bytes⟩)
  | _ => none

/-- The loop of the reset that puts the queued slots into the free list, in at most `fuel`
rounds. -/
def releaseAll : Nat → RtMq → Option RtMq
  | fuel, mq =>
    match mq.msgQueueHead with
    | none => some mq
    | some slot =>
      match fuel with
      | 0 => none
      | fuel + 1 => releaseAll fuel (putFree (unlinkHead mq slot) slot)

/-- `rt_mq_control` with `RT_IPC_CMD_RESET`. -/
def rtMqReset (s : State) : Option (State × Option Ret) := do
  let w ← s.waiters.wakeAll .receiver
  let w ← w.wakeAll .sender
  let mq ← releaseAll s.mq.maxMsgs s.mq
  some ({ s with waiters := w, mq := { mq with entry := 0 } }, some ⟨.eok, none⟩)

/-- The steps of a run: a thread calls a function or goes on with a call, the timer of a thread
expires, or the tick moves on. -/
inductive Op where
  | send (t : ThreadId) (data : List Byte) (timeout : BitVec 32)
  | urgent (t : ThreadId) (data : List Byte)
  | recv (t : ThreadId) (size : Nat) (timeout : BitVec 32)
  | switchBack (t : ThreadId)
  | copy (t : ThreadId)
  | finish (t : ThreadId)
  | reset (t : ThreadId)
  | timeout (t : ThreadId)
  | tickIncrease
  deriving DecidableEq

/-- The thread runs, outside of the functions of the message queue. -/
def Active (s : State) (t : ThreadId) : Prop :=
  (s.waiters.thread t).suspended = false ∧ s.call t = .outside

instance (s : State) (t : ThreadId) : Decidable (Active s t) :=
  inferInstanceAs (Decidable (_ ∧ _))

/-- One step, with what the call returns in this step. -/
def call (s : State) : Op → Option (State × Option Ret)
  | .send t data timeout => if Active s t then rtMqSendWait s t data timeout else none
  | .urgent t data => if Active s t then rtMqUrgent s t data else none
  | .recv t size timeout => if Active s t then rtMqRecv s t size timeout else none
  | .switchBack t => if (s.waiters.thread t).suspended = false then switchBack s t else none
  | .copy t => if (s.waiters.thread t).suspended = false then copy s t else none
  | .finish t => if (s.waiters.thread t).suspended = false then finish s t else none
  | .reset t => if Active s t then rtMqReset s else none
  | .timeout t =>
    if (s.waiters.thread t).timerActive then
      some ({ s with waiters := s.waiters.timeout t }, none)
    else none
  | .tickIncrease => some ({ s with tick := s.tick + 1 }, none)

def step (s : State) (op : Op) : Option State := (call s op).map Prod.fst

end RtThread.MessageQueue
