import RtThread.Ipc
import RtThread.Lib.Runs
import RtThread.Ringbuffer

/-!
# Pipes

The file operations of `pipe.c` on one pipe. What a call does with the lock held is one
step; the tests before the lock is taken, the wake-ups after it has been released and the
sections of `rt_wqueue_wait` are steps of their own. Any thread that is not suspended
may run next.

The counters of readers, writers and references are bytes, and the lengths passed to the
ring buffer are half words. There is no result where the source works on a pipe without
a ring buffer, or on one that has been deleted.
-/
namespace RtThread.Pipe

open Ipc (ThreadId)
open Ringbuffer (Byte RtRingbuffer)

/-- `fd->flags & O_ACCMODE`. -/
inductive Access where
  | rdonly | wronly | rdwr | other
  deriving DecidableEq

/-- The flags of a file descriptor. -/
structure Fd where
  access : Access
  nonblock : Bool
  deriving DecidableEq

def Fd.reads (fd : Fd) : Bool := fd.access = .rdonly || fd.access = .rdwr

def Fd.writes (fd : Fd) : Bool := fd.access = .wronly || fd.access = .rdwr

/-- The owners of the two wait queues. -/
inductive Side where
  | reader | writer
  deriving DecidableEq

structure WQueue where
  /-- `flag` is `RT_WQ_FLAG_WAKEUP`. -/
  wakeup : Bool
  waitingList : List ThreadId

/-- How far a round of the loop of `pipe_fops_read` or `pipe_fops_write` has got: before the lock
is taken, before the wake-up of the other side, before the section of `rt_wqueue_wait`, and behind
its switch. -/
inductive Stage where
  | lock | wake | wait | switched
  deriving DecidableEq

/-- What `pipe_fops_write` returns. -/
inductive WriteRet where
  | wrote (count : Nat)
  | eagain | epipe
  deriving DecidableEq

/-- What a file operation returns, with the bytes that a read stores. -/
inductive Ret where
  | opened | enomem | closed
  | read (bytes : List Byte)
  | readEagain
  | write (ret : WriteRet)
  deriving DecidableEq

/-- Where a thread is inside of a file operation. -/
inductive Call where
  | outside
  | reading (fd : Fd) (count : Nat) (stage : Stage)
  /-- `rest` are the bytes that have not been accepted yet. -/
  | writing (fd : Fd) (rest : List Byte) (ret : Nat) (wakeup : Bool) (stage : Stage)
  /-- Behind the loop of `pipe_fops_write`. -/
  | finishing (ret : WriteRet) (wakeup : Bool)
  /-- Before the test at the end of `pipe_fops_close`. -/
  | closing
  deriving DecidableEq

structure State where
  isNamed : Bool
  fifo : Option RtRingbuffer
  bufsz : Nat
  readers : Nat
  writers : Nat
  refCount : Nat
  queue : Side → WQueue
  deleted : Bool
  suspended : ThreadId → Bool
  call : ThreadId → Call
  /-- The open descriptors. -/
  fds : List Fd
  /-- The bytes accepted by writes since the ring buffer was created. -/
  accepted : List Byte
  /-- The bytes returned by reads since the ring buffer was created. -/
  returned : List Byte

/-- `rt_pipe_create`. -/
def rtPipeCreate (isNamed : Bool) (bufsz : Nat) : State :=
  ⟨isNamed, none, bufsz, 0, 0, 0, fun _ => ⟨false, []⟩, false, fun _ => false, fun _ => .outside,
    [], [], []⟩

def setCall (s : State) (t : ThreadId) (c : Call) : State :=
  { s with call := Function.update s.call t c }

/-- `RT_ALIGN_SIZE`. -/
def alignSize : Nat := 4

/-- `rt_ringbuffer_create`; `pool` is the memory that has been allocated, if any. There is none
for a size of zero. -/
def rtRingbufferCreate (size : Nat) (pool : Option (Nat → Byte)) : Option RtRingbuffer :=
  if rtAlignDown size alignSize = 0 then none
  else pool.map fun pool => Ringbuffer.rtRingbufferInit alignSize pool size

/-- `rt_wqueue_wakeup`. -/
def rtWqueueWakeup (s : State) (side : Side) : State :=
  match (s.queue side).waitingList with
  | [] => { s with queue := Function.update s.queue side ⟨true, []⟩ }
  | u :: us =>
    { s with
      queue := Function.update s.queue side ⟨true, us⟩
      suspended := Function.update s.suspended u false }

/-- The section of `rt_wqueue_wait` before its switch; `again` and `switched` are what the call goes
on with. -/
def rtWqueueWait (s : State) (side : Side) (t : ThreadId) (again switched : Call) : State :=
  if (s.queue side).wakeup then
    setCall { s with queue := Function.update s.queue side { s.queue side with wakeup := false } }
      t again
  else
    setCall { s with
      queue := Function.update s.queue side
        { s.queue side with waitingList := (s.queue side).waitingList ++ [t] }
      suspended := Function.update s.suspended t true } t switched

/-- The section of `rt_wqueue_wait` behind its switch. -/
def wqueueClean (s : State) (side : Side) (t : ThreadId) (again : Call) : State :=
  setCall { s with
    queue := Function.update s.queue side
      ⟨false, (s.queue side).waitingList.filter (· ≠ t)⟩ } t again

/-- `pipe_fops_open`. -/
def pipeFopsOpen (s : State) (fd : Fd) (pool : Option (Nat → Byte)) : State × Option Ret :=
  let count (s : State) : State × Option Ret :=
    ({ s with
        readers := if fd.reads then wadd 8 s.readers 1 else s.readers
        writers := if fd.writes then wadd 8 s.writers 1 else s.writers
        refCount := wadd 8 s.refCount 1
        fds := fd :: s.fds }, some .opened)
  if s.refCount = 0 then
    match rtRingbufferCreate s.bufsz pool with
    | none => ({ s with fifo := none }, some .enomem)
    | some rb => count { s with fifo := some rb, accepted := [], returned := [] }
  else count s

/-- `pipe_fops_close` with the lock held. -/
def pipeFopsClose (s : State) (t : ThreadId) (fd : Fd) : State × Option Ret :=
  let s := { s with
    readers := if fd.reads then wsub 8 s.readers 1 else s.readers
    writers := if fd.writes then wsub 8 s.writers 1 else s.writers
    fds := s.fds.erase fd }
  let s := if s.writers = 0 then rtWqueueWakeup s .reader else s
  let s := if s.readers = 0 then rtWqueueWakeup s .writer else s
  let s := if s.refCount = 1 then { s with fifo := none } else s
  (setCall { s with refCount := wsub 8 s.refCount 1 } t .closing, none)

/-- The test at the end of `pipe_fops_close`, and `rt_pipe_delete`. -/
def closeEnd (s : State) (t : ThreadId) : State × Option Ret :=
  (setCall { s with deleted := s.deleted || (decide (s.refCount = 0) && !s.isNamed) } t .outside,
    some .closed)

/-- `pipe_fops_read` with the lock held: one round of its loop. -/
def readRound (s : State) (t : ThreadId) (fd : Fd) (count : Nat) : Option (State × Option Ret) :=
  if s.writers = 0 then some (setCall s t .outside, some (.read []))
  else
    s.fifo.map fun rb =>
      let (rb, bytes) := Ringbuffer.get rb (count % 2 ^ 16)
      let s := { s with fifo := some rb, returned := s.returned ++ bytes }
      if 0 < bytes.length then
        (setCall (rtWqueueWakeup s .writer) t .outside, some (.read bytes))
      else if fd.nonblock then (setCall s t .outside, some .readEagain)
      else (setCall s t (.reading fd count .wake), none)

/-- `pipe_fops_read` up to the lock. -/
def pipeFopsRead (s : State) (t : ThreadId) (fd : Fd) (count : Nat) : State × Option Ret :=
  if s.writers = 0 then (s, some (.read [])) else (setCall s t (.reading fd count .lock), none)

/-- `pipe_fops_write` with the lock held: one round of its loop. -/
def writeRound (s : State) (t : ThreadId) (fd : Fd) (rest : List Byte) (ret : Nat)
    (wakeup : Bool) : Option (State × Option Ret) :=
  if s.readers = 0 then
    some (setCall s t (.finishing (if ret = 0 then .epipe else .wrote ret) wakeup), none)
  else
    s.fifo.map fun rb =>
      let (rb, len) := Ringbuffer.put rb (rest.take (rest.length % 2 ^ 16))
      let s := { s with fifo := some rb, accepted := s.accepted ++ rest.take len }
      let ret := ret + len
      let rest := rest.drop len
      if rest = [] then (setCall s t (.finishing (.wrote ret) true), none)
      else if fd.nonblock then
        (setCall s t (.finishing (if ret = 0 then .eagain else .wrote ret) true), none)
      else (setCall s t (.writing fd rest ret true .wake), none)

/-- `pipe_fops_write` up to the lock. -/
def pipeFopsWrite (s : State) (t : ThreadId) (fd : Fd) (data : List Byte) : State × Option Ret :=
  if s.readers = 0 then (s, some (.write .epipe))
  else if data = [] then (s, some (.write (.wrote 0)))
  else (setCall s t (.writing fd data 0 false .lock), none)

/-- The next step of a thread inside of a file operation. -/
def proceed (s : State) (t : ThreadId) : Option (State × Option Ret) :=
  match s.call t with
  | .outside => none
  | .reading fd count .lock => readRound s t fd count
  | .reading fd count .wake =>
    some (setCall (rtWqueueWakeup s .writer) t (.reading fd count .wait), none)
  | .reading fd count .wait =>
    some (rtWqueueWait s .reader t (.reading fd count .lock) (.reading fd count .switched), none)
  | .reading fd count .switched =>
    some (wqueueClean s .reader t (.reading fd count .lock), none)
  | .writing fd rest ret wakeup .lock => writeRound s t fd rest ret wakeup
  | .writing fd rest ret wakeup .wake =>
    some (setCall (rtWqueueWakeup s .reader) t (.writing fd rest ret wakeup .wait), none)
  | .writing fd rest ret wakeup .wait =>
    some (rtWqueueWait s .writer t (.writing fd rest ret wakeup .lock)
      (.writing fd rest ret wakeup .switched), none)
  | .writing fd rest ret wakeup .switched =>
    some (wqueueClean s .writer t (.writing fd rest ret wakeup .lock), none)
  | .finishing ret wakeup =>
    some (setCall (if wakeup then rtWqueueWakeup s .reader else s) t .outside, some (.write ret))
  | .closing => some (closeEnd s t)

/-- The steps of a run. -/
inductive Op where
  | open (t : ThreadId) (fd : Fd) (pool : Option (Nat → Byte))
  | close (t : ThreadId) (fd : Fd)
  | read (t : ThreadId) (fd : Fd) (count : Nat)
  | write (t : ThreadId) (fd : Fd) (data : List Byte)
  | proceed (t : ThreadId)

/-- The thread runs, outside of the file operations, and the pipe is there. -/
def Active (s : State) (t : ThreadId) : Prop :=
  s.deleted = false ∧ s.suspended t = false ∧ s.call t = .outside

instance (s : State) (t : ThreadId) : Decidable (Active s t) :=
  inferInstanceAs (Decidable (_ ∧ _))

/-- One step, with what the call returns in this step. -/
def call (s : State) : Op → Option (State × Option Ret)
  | .open t fd pool => if Active s t then some (pipeFopsOpen s fd pool) else none
  | .close t fd => if Active s t ∧ fd ∈ s.fds then some (pipeFopsClose s t fd) else none
  | .read t fd count => if Active s t ∧ fd ∈ s.fds then some (pipeFopsRead s t fd count) else none
  | .write t fd data => if Active s t ∧ fd ∈ s.fds then some (pipeFopsWrite s t fd data) else none
  | .proceed t => if s.deleted = false ∧ s.suspended t = false then proceed s t else none

def step (s : State) (op : Op) : Option State := (call s op).map Prod.fst

end RtThread.Pipe
