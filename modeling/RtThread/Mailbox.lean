import RtThread.Lib.Runs
import RtThread.Waiters

/-!
# Mailboxes

`rt_mb_send_wait`, `rt_mb_urgent`, `rt_mb_recv` and the reset of `rt_mb_control` on
one mailbox. A send or a receive that has to wait is several steps: up to the
switch, and from each switch back to the return or to the next switch. A call made
from an interrupt is the call of a thread of its own that does not wait.

The offsets, the size and the number of entries are half words. There is no
result where the source fails an assertion.
-/
namespace RtThread.Mailbox

open Ipc

abbrev Mail := BitVec 32

structure RtMailbox where
  msgPool : Nat → Mail
  size : Nat
  entry : Nat
  inOffset : Nat
  outOffset : Nat

/-- Where a thread is that has been suspended in a call which has not returned yet; `since` is
the tick at which it began to wait. -/
inductive Call where
  | outside
  | sending (value : Mail) (timeout : BitVec 32) (since : Tick)
  | receiving (timeout : BitVec 32) (since : Tick)
  deriving DecidableEq

structure State where
  flag : Flag
  tick : Tick
  mb : RtMailbox
  waiters : Waiters Role
  call : ThreadId → Call

/-- What a call returns, with the mail that `rt_mb_recv` stores through its argument. -/
structure Ret where
  err : RtErr
  value : Option Mail
  deriving DecidableEq

/-- `RT_MB_ENTRY_MAX`. -/
def entryMax : Nat := 65535

/-- `rt_mb_init` with a pool of `size` mails. -/
def rtMbInit (pool : Nat → Mail) (size : Nat) : RtMailbox := ⟨pool, size, 0, 0, 0⟩

def init (flag : Flag) (tick : Tick) (pool : Nat → Mail) (size : Nat)
    (priority : ThreadId → Nat) : State :=
  ⟨flag, tick, rtMbInit pool size, .init priority, fun _ => .outside⟩

def setCall (s : State) (t : ThreadId) (c : Call) : State :=
  { s with call := Function.update s.call t c }

/-- The offset behind another one. -/
def RtMailbox.next (mb : RtMailbox) (offset : Nat) : Nat :=
  if mb.size ≤ wadd 16 offset 1 then 0 else wadd 16 offset 1

/-- The end of `rt_mb_send_wait`: the mail is stored behind the others. -/
def put (s : State) (t : ThreadId) (value : Mail) : State × Option Ret :=
  let mb := { s.mb with
    msgPool := Function.update s.mb.msgPool s.mb.inOffset value
    inOffset := s.mb.next s.mb.inOffset }
  let s := setCall s t .outside
  if mb.entry < entryMax then
    ({ s with mb := { mb with entry := mb.entry + 1 }, waiters := s.waiters.wake .receiver },
      some ⟨.eok, none⟩)
  else ({ s with mb := mb }, some ⟨.efull, none⟩)

/-- `rt_mb_send_wait` from the condition of its loop to its return or to the switch. -/
def sendLoop (s : State) (t : ThreadId) (value : Mail) (timeout : BitVec 32) :
    Option (State × Option Ret) :=
  if s.mb.entry = s.mb.size then
    if timeout = 0 then
      some (setCall { s with waiters := s.waiters.setError t .eok } t .outside, some ⟨.efull, none⟩)
    else
      (s.waiters.block s.flag .sender t timeout).map fun w =>
        (setCall { s with waiters := w } t (.sending value timeout s.tick), none)
  else some (put s t value)

/-- `rt_mb_send_wait`. -/
def rtMbSendWait (s : State) (t : ThreadId) (value : Mail) (timeout : BitVec 32) :
    Option (State × Option Ret) :=
  if s.mb.entry = s.mb.size ∧ timeout = 0 then some (s, some ⟨.efull, none⟩)
  else sendLoop s t value timeout

/-- `rt_mb_urgent`. -/
def rtMbUrgent (s : State) (value : Mail) : State × Option Ret :=
  if s.mb.entry = s.mb.size then (s, some ⟨.efull, none⟩)
  else
    let out := if 0 < s.mb.outOffset then s.mb.outOffset - 1 else wsub 16 s.mb.size 1
    let mb := { s.mb with
      outOffset := out
      msgPool := Function.update s.mb.msgPool out value
      entry := wadd 16 s.mb.entry 1 }
    ({ s with mb := mb, waiters := s.waiters.wake .receiver }, some ⟨.eok, none⟩)

/-- The end of `rt_mb_recv`: the first mail is taken. -/
def take (s : State) (t : ThreadId) : State × Option Ret :=
  let value := s.mb.msgPool s.mb.outOffset
  let mb := { s.mb with
    outOffset := s.mb.next s.mb.outOffset
    entry := if 0 < s.mb.entry then s.mb.entry - 1 else s.mb.entry }
  (setCall { s with mb := mb, waiters := s.waiters.wake .sender } t .outside, some ⟨.eok, some value⟩)

/-- `rt_mb_recv` from the condition of its loop to its return or to the switch. -/
def recvLoop (s : State) (t : ThreadId) (timeout : BitVec 32) : Option (State × Option Ret) :=
  if s.mb.entry = 0 then
    if timeout = 0 then
      some (setCall { s with waiters := s.waiters.setError t .etimeout } t .outside,
        some ⟨.etimeout, none⟩)
    else
      (s.waiters.block s.flag .receiver t timeout).map fun w =>
        (setCall { s with waiters := w } t (.receiving timeout s.tick), none)
  else some (take s t)

/-- `rt_mb_recv`. -/
def rtMbRecv (s : State) (t : ThreadId) (timeout : BitVec 32) : Option (State × Option Ret) :=
  if s.mb.entry = 0 ∧ timeout = 0 then some (s, some ⟨.etimeout, none⟩)
  else recvLoop s t timeout

/-- A thread runs again after the switch: it returns its error number, or it recalculates its
waiting time and goes back to the condition of the loop. -/
def switchBack (s : State) (t : ThreadId) : Option (State × Option Ret) :=
  let err := (s.waiters.thread t).error
  match s.call t with
  | .outside => none
  | .sending value timeout since =>
    if err ≠ .eok then some (setCall s t .outside, some ⟨err, none⟩)
    else sendLoop s t value (remaining timeout s.tick since)
  | .receiving timeout since =>
    if err ≠ .eok then some (setCall s t .outside, some ⟨err, none⟩)
    else recvLoop s t (remaining timeout s.tick since)

/-- `rt_mb_control` with `RT_IPC_CMD_RESET`. -/
def rtMbReset (s : State) : Option (State × Option Ret) := do
  let w ← s.waiters.wakeAll .receiver
  let w ← w.wakeAll .sender
  some ({ s with waiters := w, mb := { s.mb with entry := 0, inOffset := 0, outOffset := 0 } },
    some ⟨.eok, none⟩)

/-- The steps of a run: a thread calls a function or runs again after a switch, the timer of a
thread expires, or the tick moves on. -/
inductive Op where
  | send (t : ThreadId) (value : Mail) (timeout : BitVec 32)
  | urgent (t : ThreadId) (value : Mail)
  | recv (t : ThreadId) (timeout : BitVec 32)
  | switchBack (t : ThreadId)
  | reset (t : ThreadId)
  | timeout (t : ThreadId)
  | tickIncrease
  deriving DecidableEq

/-- The thread runs, outside of the functions of the mailbox. -/
def Active (s : State) (t : ThreadId) : Prop :=
  (s.waiters.thread t).suspended = false ∧ s.call t = .outside

instance (s : State) (t : ThreadId) : Decidable (Active s t) :=
  inferInstanceAs (Decidable (_ ∧ _))

/-- One step, with what the call returns in this step. -/
def call (s : State) : Op → Option (State × Option Ret)
  | .send t value timeout => if Active s t then rtMbSendWait s t value timeout else none
  | .urgent t value => if Active s t then some (rtMbUrgent s value) else none
  | .recv t timeout => if Active s t then rtMbRecv s t timeout else none
  | .switchBack t => if (s.waiters.thread t).suspended = false then switchBack s t else none
  | .reset t => if Active s t then rtMbReset s else none
  | .timeout t =>
    if (s.waiters.thread t).timerActive then
      some ({ s with waiters := s.waiters.timeout t }, none)
    else none
  | .tickIncrease => some ({ s with tick := s.tick + 1 }, none)

def step (s : State) (op : Op) : Option State := (call s op).map Prod.fst

end RtThread.Mailbox
