import RtThread.Event
import RtThread.Mailbox
import RtThread.MessageQueue
import RtThread.Thread

/-!
# The kernel with its waiting threads

The functions of `ipc.c` and `mempool.c` over the scheduler, the thread timers and
any number of objects of each kind. A step is one interrupt-disabled section of a
function, made by the current thread, together with the `rt_schedule` that ends it.
After the switch back a function that waits looks at the error number of its thread
and returns or, in the functions with a loop, goes on with the loop and the time
that is left: a step of its own, which a run may make at any time and with any time.

The node of a thread is in at most one list, so a thread that is resumed or
closed leaves the wait list it is in. There is no result where the source fails an
assertion or follows a null pointer. The detached timer of a closed thread is not a
timer object any more, and `rt_timer_control` asserts that it is.
-/
namespace RtThread.System

open Scheduler Thread

abbrev ObjId := Nat
abbrev Block := Nat

/-- The lists of suspended threads. -/
inductive WaitList where
  | sem (i : ObjId)
  | mutex (i : ObjId)
  | event (i : ObjId)
  | mbReceivers (i : ObjId)
  | mbSenders (i : ObjId)
  | mqReceivers (i : ObjId)
  | mqSenders (i : ObjId)
  | mempool (i : ObjId)
  deriving DecidableEq

structure RtSemaphore where
  flag : Ipc.Flag
  value : Nat

structure RtMutex where
  value : Nat
  owner : Option ThreadId
  originalPriority : Nat
  hold : Nat

structure RtEvent where
  flag : Ipc.Flag
  set : Event.EventSet

structure RtMailbox where
  flag : Ipc.Flag
  mb : Mailbox.RtMailbox

structure RtMessageQueue where
  flag : Ipc.Flag
  mq : MessageQueue.RtMq

structure RtMempool where
  blockFreeCount : Nat
  blockList : Option Block

/-- The word in front of a block of a memory pool: the next free block, or the pool it has been
allocated from. -/
inductive Header where
  | next (block : Option Block)
  | pool (i : ObjId)
  deriving DecidableEq

structure State where
  kernel : Kernel
  list : WaitList → List ThreadId
  sem : ObjId → RtSemaphore
  mutex : ObjId → RtMutex
  event : ObjId → RtEvent
  /-- `event_set` and `event_info` of the threads. -/
  eventSet : ThreadId → Event.EventSet
  eventInfo : ThreadId → Event.Info
  mailbox : ObjId → RtMailbox
  messageQueue : ObjId → RtMessageQueue
  mempool : ObjId → RtMempool
  header : Block → Header

/-- What a call gives its caller beside the error number. -/
inductive Out where
  | nothing
  | events (recved : Event.EventSet)
  | mail (value : Mailbox.Mail)
  | bytes (buffer : List MessageQueue.Byte)
  | block (block : Option Block)
  deriving DecidableEq

/-- How a section ends: the call returns, the thread waits, or the call goes on with the slot of a
message queue. -/
inductive Progress where
  | returned (err : RtErr) (out : Out)
  | waiting
  | filling (slot : MessageQueue.Slot)
  | copying (slot : MessageQueue.Slot)
  deriving DecidableEq

/-! ## Suspending and resuming -/

def setError (s : State) (t : ThreadId) (err : RtErr) : State :=
  { s with kernel := setThread s.kernel t { s.kernel.thread t with error := err } }

/-- The place `_ipc_list_suspend` finds depends on the priorities only. -/
def insertWaiting (k : Kernel) (flag : Ipc.Flag) (t : ThreadId) (l : List ThreadId) :
    List ThreadId :=
  Ipc.insertWaiting (fun u => Ipc.started (k.thread u).currentPriority) flag t l

/-- The thread timer is set and started when there is a waiting time. -/
def startThreadTimer (c : Config) (k : Kernel) (t : ThreadId) (timeout : BitVec 32) :
    Option Kernel :=
  if 0 < timeout.toInt then
    if (k.thread t).stat = .close then none
    else
      (Timer.rtTimerControl k.timers t (.setTime timeout)).map fun r =>
        { k with timers := Timer.rtTimerStart c.timer r.1 t }
  else some k

/-- The part of a waiting function that concerns the thread and its timer. -/
def suspendFor (c : Config) (k : Kernel) (t : ThreadId) (timeout : BitVec 32) : Option Kernel := do
  let (k, _) ← rtThreadSuspend c (setThread k t { k.thread t with error := .eok }) t
  startThreadTimer c k t timeout

/-- The end of every waiting function, with the list that the thread joins. -/
def wait (c : Config) (s : State) (l : WaitList) (insert : List ThreadId → List ThreadId)
    (t : ThreadId) (timeout : BitVec 32) : Option (State × Progress) := do
  let k ← suspendFor c s.kernel t timeout
  let k ← rtSchedule c k
  some ({ s with kernel := k, list := Function.update s.list l (insert (s.list l)) }, .waiting)

/-- `rt_thread_resume`. -/
def resume (c : Config) (s : State) (t : ThreadId) : State :=
  if (s.kernel.thread t).stat = .suspend then
    { s with
      kernel := (rtThreadResume c s.kernel t).1
      list := fun l => (s.list l).filter (· ≠ t) }
  else s

/-- `_ipc_list_resume`. -/
def ipcListResume (c : Config) (s : State) (l : WaitList) : State :=
  match s.list l with
  | [] => s
  | t :: _ => resume c s t

/-- `_ipc_list_resume_all`, over the threads of the list; a thread that is not suspended would
stay in it. -/
def ipcListResumeAll (c : Config) (s : State) : List ThreadId → Option State
  | [] => some s
  | t :: ts =>
    if (s.kernel.thread t).stat = .suspend then
      ipcListResumeAll c (resume c (setError s t .error) t) ts
    else none

def schedule (c : Config) (s : State) : Option State :=
  (rtSchedule c s.kernel).map fun k => { s with kernel := k }

/-- The end of a function that wakes a waiting thread: the first thread of a list that is not
empty is resumed and a schedule is performed. -/
def wakeFirst (c : Config) (s : State) (l : WaitList) (out : Out) : Option (State × Progress) :=
  if s.list l = [] then some (s, .returned .eok out)
  else (schedule c (ipcListResume c s l)).map (·, .returned .eok out)

/-- The functions that reset an object: the lists are emptied, and a schedule is performed. -/
def resumeLists (c : Config) (s : State) : List WaitList → Option State
  | [] => some s
  | l :: ls => (ipcListResumeAll c s (s.list l)).bind fun s => resumeLists c s ls

/-! ## Semaphores -/

def setSem (s : State) (i : ObjId) (value : Nat) : State :=
  { s with sem := Function.update s.sem i { s.sem i with value := value } }

/-- `rt_sem_take`. -/
def rtSemTake (c : Config) (s : State) (t : ThreadId) (i : ObjId) (time : BitVec 32) :
    Option (State × Progress) :=
  if 0 < (s.sem i).value then
    some (setSem s i (wsub 16 (s.sem i).value 1), .returned .eok .nothing)
  else if time = 0 then some (s, .returned .etimeout .nothing)
  else wait c s (.sem i) (insertWaiting s.kernel (s.sem i).flag t) t time

/-- `rt_sem_release`. -/
def rtSemRelease (c : Config) (s : State) (i : ObjId) : Option (State × Progress) :=
  if s.list (.sem i) ≠ [] then wakeFirst c s (.sem i) .nothing
  else if (s.sem i).value < 65535 then
    some (setSem s i ((s.sem i).value + 1), .returned .eok .nothing)
  else some (s, .returned .efull .nothing)

/-- `rt_sem_control` with `RT_IPC_CMD_RESET`. -/
def rtSemReset (c : Config) (s : State) (i : ObjId) (value : Nat) : Option (State × Progress) := do
  let s ← resumeLists c s [.sem i]
  let s ← schedule c (setSem s i (value % 2 ^ 16))
  some (s, .returned .eok .nothing)

/-! ## Mutexes -/

def setMutex (s : State) (i : ObjId) (x : RtMutex) : State :=
  { s with mutex := Function.update s.mutex i x }

def setPriority (c : Config) (s : State) (t : ThreadId) (priority : Nat) : State :=
  { s with kernel := changePriority c s.kernel t priority }

/-- `rt_mutex_take`. -/
def rtMutexTake (c : Config) (s : State) (t : ThreadId) (i : ObjId) (time : BitVec 32) :
    Option (State × Progress) :=
  let s := setError s t .eok
  let x := s.mutex i
  if x.owner = some t then
    if x.hold < 255 then
      some (setMutex s i { x with hold := x.hold + 1 }, .returned .eok .nothing)
    else some (s, .returned .efull .nothing)
  else if 0 < x.value then
    let x := { x with
      value := wsub 16 x.value 1
      owner := some t
      originalPriority := (s.kernel.thread t).currentPriority }
    if x.hold < 255 then
      some (setMutex s i { x with hold := x.hold + 1 }, .returned .eok .nothing)
    else some (setMutex s i x, .returned .efull .nothing)
  else if time = 0 then some (setError s t .etimeout, .returned .etimeout .nothing)
  else do
    let owner ← x.owner
    let priority := (s.kernel.thread t).currentPriority
    let s := if priority < (s.kernel.thread owner).currentPriority then
        setPriority c s owner priority
      else s
    wait c s (.mutex i) (insertWaiting s.kernel .prio t) t time

/-- The part of `rt_mutex_release` for a mutex that is not held any more. -/
def giveUp (c : Config) (s : State) (t : ThreadId) (i : ObjId) (x : RtMutex) :
    Option (State × Progress) :=
  let s := if x.originalPriority ≠ (s.kernel.thread t).currentPriority then
      setPriority c s t x.originalPriority
    else s
  match s.list (.mutex i) with
  | u :: _ =>
    let x := { x with owner := some u, originalPriority := (s.kernel.thread u).currentPriority }
    if x.hold < 255 then
      wakeFirst c (setMutex s i { x with hold := x.hold + 1 }) (.mutex i) .nothing
    else some (setMutex s i x, .returned .efull .nothing)
  | [] =>
    if x.value < 65535 then
      some (setMutex s i { x with value := x.value + 1, owner := none, originalPriority := 0xff },
        .returned .eok .nothing)
    else some (setMutex s i x, .returned .efull .nothing)

/-- `rt_mutex_release`. -/
def rtMutexRelease (c : Config) (s : State) (t : ThreadId) (i : ObjId) :
    Option (State × Progress) :=
  let x := s.mutex i
  if x.owner ≠ some t then some (setError s t .error, .returned .error .nothing)
  else
    let x := { x with hold := wsub 8 x.hold 1 }
    if x.hold = 0 then giveUp c s t i x
    else some (setMutex s i x, .returned .eok .nothing)

/-! ## Events -/

def setEvent (s : State) (i : ObjId) (set : Event.EventSet) : State :=
  { s with event := Function.update s.event i { s.event i with set := set } }

/-- The loop of `rt_event_send`; the flag is `need_schedule`. -/
def eventScan (c : Config) (i : ObjId) : State → Bool → List ThreadId → State × Bool × RtErr
  | s, need, [] => (s, need, .eok)
  | s, need, t :: ts =>
    let set := (s.event i).set
    match Event.received set (s.eventSet t) (s.eventInfo t) with
    | none => (s, need, .einval)
    | some false => eventScan c i s need ts
    | some true =>
      let events := Event.saved set (s.eventSet t) (s.eventInfo t)
      let s := if s.eventInfo t &&& Event.flagClear ≠ 0 then setEvent s i (set &&& ~~~ events)
        else s
      eventScan c i (resume c { s with eventSet := Function.update s.eventSet t events } t) true ts

/-- `rt_event_send`. -/
def rtEventSend (c : Config) (s : State) (i : ObjId) (set : Event.EventSet) :
    Option (State × Progress) :=
  if set = 0 then some (s, .returned .error .nothing)
  else
    match eventScan c i (setEvent s i ((s.event i).set ||| set)) false (s.list (.event i)) with
    | (s, _, .einval) => some (s, .returned .einval .nothing)
    | (s, true, _) => (schedule c s).map (·, .returned .eok .nothing)
    | (s, false, _) => some (s, .returned .eok .nothing)

def setEventInfo (s : State) (t : ThreadId) (set : Event.EventSet) (info : Event.Info) : State :=
  { s with
    eventSet := Function.update s.eventSet t set
    eventInfo := Function.update s.eventInfo t info }

/-- `rt_event_recv`. -/
def rtEventRecv (c : Config) (s : State) (t : ThreadId) (i : ObjId) (set : Event.EventSet)
    (option : Event.Info) (timeout : BitVec 32) : Option (State × Progress) :=
  if set = 0 then some (s, .returned .error .nothing)
  else
    let s := setError s t .eok
    let events := (s.event i).set
    match Event.received events set option with
    | none => none
    | some true =>
      let s := setEventInfo s t (events &&& set) option
      some (if option &&& Event.flagClear ≠ 0 then setEvent s i (events &&& ~~~ set) else s,
        .returned .eok (.events (events &&& set)))
    | some false =>
      if timeout = 0 then some (setError s t .etimeout, .returned .etimeout .nothing)
      else wait c (setEventInfo s t set option) (.event i)
        (insertWaiting s.kernel (s.event i).flag t) t timeout

/-- `rt_event_control` with `RT_IPC_CMD_RESET`. -/
def rtEventReset (c : Config) (s : State) (i : ObjId) : Option (State × Progress) := do
  let s ← resumeLists c s [.event i]
  let s ← schedule c (setEvent s i 0)
  some (s, .returned .eok .nothing)

/-! ## Mailboxes -/

def setMb (s : State) (i : ObjId) (mb : Mailbox.RtMailbox) : State :=
  { s with mailbox := Function.update s.mailbox i { s.mailbox i with mb := mb } }

/-- `rt_mb_send_wait` from the condition of its loop. -/
def mbSendLoop (c : Config) (s : State) (t : ThreadId) (i : ObjId) (value : Mailbox.Mail)
    (timeout : BitVec 32) : Option (State × Progress) :=
  let mb := (s.mailbox i).mb
  if mb.entry = mb.size then
    if timeout = 0 then some (setError s t .eok, .returned .efull .nothing)
    else wait c s (.mbSenders i) (insertWaiting s.kernel (s.mailbox i).flag t) t timeout
  else
    let mb := { mb with
      msgPool := Function.update mb.msgPool mb.inOffset value
      inOffset := mb.next mb.inOffset }
    if mb.entry < Mailbox.entryMax then
      wakeFirst c (setMb s i { mb with entry := mb.entry + 1 }) (.mbReceivers i) .nothing
    else some (setMb s i mb, .returned .efull .nothing)

/-- `rt_mb_send_wait`. -/
def rtMbSendWait (c : Config) (s : State) (t : ThreadId) (i : ObjId) (value : Mailbox.Mail)
    (timeout : BitVec 32) : Option (State × Progress) :=
  if (s.mailbox i).mb.entry = (s.mailbox i).mb.size ∧ timeout = 0 then
    some (s, .returned .efull .nothing)
  else mbSendLoop c s t i value timeout

/-- `rt_mb_send`. -/
def rtMbSend (c : Config) (s : State) (t : ThreadId) (i : ObjId) (value : Mailbox.Mail) :
    Option (State × Progress) :=
  rtMbSendWait c s t i value 0

/-- `rt_mb_urgent`. -/
def rtMbUrgent (c : Config) (s : State) (i : ObjId) (value : Mailbox.Mail) :
    Option (State × Progress) :=
  let mb := (s.mailbox i).mb
  if mb.entry = mb.size then some (s, .returned .efull .nothing)
  else
    let out := if 0 < mb.outOffset then mb.outOffset - 1 else wsub 16 mb.size 1
    let mb := { mb with
      outOffset := out
      msgPool := Function.update mb.msgPool out value
      entry := wadd 16 mb.entry 1 }
    wakeFirst c (setMb s i mb) (.mbReceivers i) .nothing

/-- `rt_mb_recv` from the condition of its loop. -/
def mbRecvLoop (c : Config) (s : State) (t : ThreadId) (i : ObjId) (timeout : BitVec 32) :
    Option (State × Progress) :=
  let mb := (s.mailbox i).mb
  if mb.entry = 0 then
    if timeout = 0 then some (setError s t .etimeout, .returned .etimeout .nothing)
    else wait c s (.mbReceivers i) (insertWaiting s.kernel (s.mailbox i).flag t) t timeout
  else
    let value := mb.msgPool mb.outOffset
    let mb := { mb with
      outOffset := mb.next mb.outOffset
      entry := if 0 < mb.entry then mb.entry - 1 else mb.entry }
    wakeFirst c (setMb s i mb) (.mbSenders i) (.mail value)

/-- `rt_mb_recv`. -/
def rtMbRecv (c : Config) (s : State) (t : ThreadId) (i : ObjId) (timeout : BitVec 32) :
    Option (State × Progress) :=
  if (s.mailbox i).mb.entry = 0 ∧ timeout = 0 then some (s, .returned .etimeout .nothing)
  else mbRecvLoop c s t i timeout

/-- `rt_mb_control` with `RT_IPC_CMD_RESET`. -/
def rtMbReset (c : Config) (s : State) (i : ObjId) : Option (State × Progress) := do
  let s ← resumeLists c s [.mbReceivers i, .mbSenders i]
  let s ← schedule c
    (setMb s i { (s.mailbox i).mb with entry := 0, inOffset := 0, outOffset := 0 })
  some (s, .returned .eok .nothing)

/-! ## Message queues -/

def setMq (s : State) (i : ObjId) (mq : MessageQueue.RtMq) : State :=
  { s with messageQueue :=
      Function.update s.messageQueue i { s.messageQueue i with mq := mq } }

/-- The first section of `rt_mq_send_wait`, from the condition of its loop. -/
def mqSendLoop (c : Config) (s : State) (t : ThreadId) (i : ObjId) (timeout : BitVec 32) :
    Option (State × Progress) :=
  match (s.messageQueue i).mq.msgQueueFree with
  | none =>
    if timeout = 0 then some (setError s t .eok, .returned .efull .nothing)
    else wait c s (.mqSenders i) (insertWaiting s.kernel (s.messageQueue i).flag t) t timeout
  | some slot =>
    some (setMq s i (MessageQueue.takeFree (s.messageQueue i).mq slot), .filling slot)

/-- The first section of `rt_mq_send_wait`. -/
def rtMqSendWait (c : Config) (s : State) (t : ThreadId) (i : ObjId)
    (data : List MessageQueue.Byte) (timeout : BitVec 32) : Option (State × Progress) :=
  let mq := (s.messageQueue i).mq
  if data = [] then none
  else if mq.msgSize < data.length then some (s, .returned .error .nothing)
  else if mq.msgQueueFree = none ∧ timeout = 0 then some (s, .returned .efull .nothing)
  else mqSendLoop c s t i timeout

/-- The first section of `rt_mq_send`. -/
def rtMqSend (c : Config) (s : State) (t : ThreadId) (i : ObjId) (data : List MessageQueue.Byte) :
    Option (State × Progress) :=
  rtMqSendWait c s t i data 0

/-- The first section of `rt_mq_urgent`. -/
def rtMqUrgent (s : State) (i : ObjId) (data : List MessageQueue.Byte) :
    Option (State × Progress) :=
  let mq := (s.messageQueue i).mq
  if data = [] then none
  else if mq.msgSize < data.length then some (s, .returned .error .nothing)
  else
    match mq.msgQueueFree with
    | none => some (s, .returned .efull .nothing)
    | some slot => some (setMq s i (MessageQueue.takeFree mq slot), .filling slot)

/-- A message is copied into its slot, and the slot is linked. -/
def linkMessage (mq : MessageQueue.RtMq) (urgent : Bool) (slot : MessageQueue.Slot)
    (data : List MessageQueue.Byte) : MessageQueue.RtMq :=
  let mq := { mq with
    next := if urgent then mq.next else Function.update mq.next slot none
    bytes := Function.update mq.bytes slot (MessageQueue.copyIn data (mq.bytes slot)) }
  if urgent then MessageQueue.linkHead mq slot else MessageQueue.linkTail mq slot

/-- The second section of `rt_mq_send_wait` and of `rt_mq_urgent`, with the copying before it. -/
def mqSendFinish (c : Config) (s : State) (i : ObjId) (urgent : Bool) (slot : MessageQueue.Slot)
    (data : List MessageQueue.Byte) : Option (State × Progress) :=
  let mq := linkMessage (s.messageQueue i).mq urgent slot data
  if mq.entry < MessageQueue.entryMax then
    wakeFirst c (setMq s i { mq with entry := mq.entry + 1 }) (.mqReceivers i) .nothing
  else some (setMq s i mq, .returned .efull .nothing)

/-- The first section of `rt_mq_recv`, from the condition of its loop. -/
def mqRecvLoop (c : Config) (s : State) (t : ThreadId) (i : ObjId) (timeout : BitVec 32) :
    Option (State × Progress) :=
  let mq := (s.messageQueue i).mq
  if mq.entry = 0 then
    if timeout = 0 then some (setError s t .etimeout, .returned .etimeout .nothing)
    else wait c s (.mqReceivers i) (insertWaiting s.kernel (s.messageQueue i).flag t) t timeout
  else
    mq.msgQueueHead.map fun slot =>
      let mq := MessageQueue.unlinkHead mq slot
      let mq := { mq with entry := if 0 < mq.entry then mq.entry - 1 else mq.entry }
      (setMq s i mq, .copying slot)

/-- The first section of `rt_mq_recv`. -/
def rtMqRecv (c : Config) (s : State) (t : ThreadId) (i : ObjId) (size : Nat)
    (timeout : BitVec 32) : Option (State × Progress) :=
  if size = 0 then none
  else if (s.messageQueue i).mq.entry = 0 ∧ timeout = 0 then
    some (s, .returned .etimeout .nothing)
  else mqRecvLoop c s t i timeout

/-- The second section of `rt_mq_recv`, with the copying before it. -/
def mqRecvFinish (c : Config) (s : State) (i : ObjId) (slot : MessageQueue.Slot) (size : Nat) :
    Option (State × Progress) :=
  let mq := (s.messageQueue i).mq
  let bytes := MessageQueue.copyOut (mq.bytes slot) (if mq.msgSize < size then mq.msgSize else size)
  wakeFirst c (setMq s i (MessageQueue.putFree mq slot)) (.mqSenders i) (.bytes bytes)

/-- `rt_mq_control` with `RT_IPC_CMD_RESET`. -/
def rtMqReset (c : Config) (s : State) (i : ObjId) : Option (State × Progress) := do
  let s ← resumeLists c s [.mqReceivers i, .mqSenders i]
  let mq ← MessageQueue.releaseAll (s.messageQueue i).mq.maxMsgs (s.messageQueue i).mq
  let s ← schedule c (setMq s i { mq with entry := 0 })
  some (s, .returned .eok .nothing)

/-! ## Memory pools -/

def setMempool (s : State) (i : ObjId) (x : RtMempool) : State :=
  { s with mempool := Function.update s.mempool i x }

def setHeader (s : State) (b : Block) (h : Header) : State :=
  { s with header := Function.update s.header b h }

/-- `rt_mp_alloc`; a thread that waits joins the front of the list. -/
def rtMpAlloc (c : Config) (s : State) (t : ThreadId) (i : ObjId) (time : BitVec 32) :
    Option (State × Progress) :=
  let mp := s.mempool i
  if mp.blockFreeCount = 0 then
    if time = 0 then some (setError s t .etimeout, .returned .etimeout (.block none))
    else wait c s (.mempool i) (fun ts => t :: ts) t time
  else do
    let b ← mp.blockList
    match s.header b with
    | .next rest =>
      let s := setMempool s i ⟨mp.blockFreeCount - 1, rest⟩
      some (setHeader s b (.pool i), .returned .eok (.block (some b)))
    | .pool _ => none

/-- `rt_mp_free`. -/
def rtMpFree (c : Config) (s : State) (block : Option Block) : Option (State × Progress) :=
  match block with
  | none => some (s, .returned .eok .nothing)
  | some b =>
    match s.header b with
    | .next _ => none
    | .pool i =>
      let mp := s.mempool i
      let s := setMempool s i ⟨mp.blockFreeCount + 1, some b⟩
      let s := setHeader s b (.next mp.blockList)
      match s.list (.mempool i) with
      | [] => some (s, .returned .eok .nothing)
      | t :: _ => (schedule c (resume c (setError s t .eok) t)).map (·, .returned .eok .nothing)

/-! ## Steps -/

/-- The steps of a run. A thread takes part in them as the current thread. -/
inductive Op where
  | thread (op : Thread.Op)
  | semTake (i : ObjId) (time : BitVec 32)
  | semRelease (i : ObjId)
  | semReset (i : ObjId) (value : Nat)
  | mutexTake (i : ObjId) (time : BitVec 32)
  | mutexRelease (i : ObjId)
  | eventSend (i : ObjId) (set : Event.EventSet)
  | eventRecv (i : ObjId) (set : Event.EventSet) (option : Event.Info) (timeout : BitVec 32)
  | eventReset (i : ObjId)
  | mbSendWait (i : ObjId) (value : Mailbox.Mail) (timeout : BitVec 32)
  | mbSendLoop (i : ObjId) (value : Mailbox.Mail) (timeout : BitVec 32)
  | mbUrgent (i : ObjId) (value : Mailbox.Mail)
  | mbRecv (i : ObjId) (timeout : BitVec 32)
  | mbRecvLoop (i : ObjId) (timeout : BitVec 32)
  | mbReset (i : ObjId)
  | mqSendWait (i : ObjId) (data : List MessageQueue.Byte) (timeout : BitVec 32)
  | mqSendLoop (i : ObjId) (timeout : BitVec 32)
  | mqUrgent (i : ObjId) (data : List MessageQueue.Byte)
  | mqSendFinish (i : ObjId) (urgent : Bool) (slot : MessageQueue.Slot)
      (data : List MessageQueue.Byte)
  | mqRecv (i : ObjId) (size : Nat) (timeout : BitVec 32)
  | mqRecvLoop (i : ObjId) (timeout : BitVec 32)
  | mqRecvFinish (i : ObjId) (slot : MessageQueue.Slot) (size : Nat)
  | mqReset (i : ObjId)
  | mpAlloc (i : ObjId) (time : BitVec 32)
  | mpFree (block : Option Block)
  /-- The part of the functions that detach or delete an object. -/
  | resumeAll (l : WaitList)
  deriving DecidableEq

/-- The calls of `thread.c` that set the timer of the current thread. -/
def setsTimer (k : Kernel) : Thread.Op → Bool
  | .sleep _ => true
  | .delayUntil tick incTick => decide ((k.timers.tick - tick).toNat < incTick.toNat)
  | _ => false

/-- The current thread has been closed. -/
def currentClosed (k : Kernel) : Bool :=
  match k.currentThread with
  | some t => decide ((k.thread t).stat = .close)
  | none => false

/-- A call of `thread.c`, `scheduler.c` or `clock.c`. `_thread_timeout` is called by
`rt_timer_check` only. -/
def threadStep (c : Config) (s : State) (op : Thread.Op) : Option State :=
  match op with
  | .timeout _ => none
  | op =>
    if setsTimer s.kernel op && currentClosed s.kernel then none
    else (Thread.step c s.kernel op).map fun k =>
      { s with
        kernel := k
        list := fun l => (s.list l).filter fun t =>
          (s.kernel.thread t).stat ≠ .suspend ∨ (k.thread t).stat = .suspend }

/-- A section of a function that is called by the current thread. -/
def call (c : Config) (s : State) (t : ThreadId) : Op → Option (State × Progress)
  | .thread op => (threadStep c s op).map (·, .returned .eok .nothing)
  | .semTake i time => rtSemTake c s t i time
  | .semRelease i => rtSemRelease c s i
  | .semReset i value => rtSemReset c s i value
  | .mutexTake i time => rtMutexTake c s t i time
  | .mutexRelease i => rtMutexRelease c s t i
  | .eventSend i set => rtEventSend c s i set
  | .eventRecv i set option timeout => rtEventRecv c s t i set option timeout
  | .eventReset i => rtEventReset c s i
  | .mbSendWait i value timeout => rtMbSendWait c s t i value timeout
  | .mbSendLoop i value timeout => mbSendLoop c s t i value timeout
  | .mbUrgent i value => rtMbUrgent c s i value
  | .mbRecv i timeout => rtMbRecv c s t i timeout
  | .mbRecvLoop i timeout => mbRecvLoop c s t i timeout
  | .mbReset i => rtMbReset c s i
  | .mqSendWait i data timeout => rtMqSendWait c s t i data timeout
  | .mqSendLoop i timeout => mqSendLoop c s t i timeout
  | .mqUrgent i data => rtMqUrgent s i data
  | .mqSendFinish i urgent slot data => mqSendFinish c s i urgent slot data
  | .mqRecv i size timeout => rtMqRecv c s t i size timeout
  | .mqRecvLoop i timeout => mqRecvLoop c s t i timeout
  | .mqRecvFinish i slot size => mqRecvFinish c s i slot size
  | .mqReset i => rtMqReset c s i
  | .mpAlloc i time => rtMpAlloc c s t i time
  | .mpFree block => rtMpFree c s block
  | .resumeAll l => (resumeLists c s [l]).map (·, .returned .eok .nothing)

/-- One step; before the scheduler is started there is no current thread, and only the functions
of the threads are called. -/
def step (c : Config) (s : State) (op : Op) : Option State :=
  match op, s.kernel.currentThread with
  | .thread op, _ => threadStep c s op
  | op, some t => (call c s t op).map Prod.fst
  | _, none => none

end RtThread.System
