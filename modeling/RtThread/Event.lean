import RtThread.Lib.Runs
import RtThread.Waiters

/-!
# Events

`rt_event_send`, `rt_event_recv` and the reset of `rt_event_control` on one event. A
receive that has to wait is two steps: up to the switch, and from the switch back to
the return. The fields `event_set` and `event_info` of the threads are kept beside
the threads.

There is no result where the source fails an assertion.
-/
namespace RtThread.Event

open Ipc

abbrev EventSet := BitVec 32

/-- The options of `rt_event_recv`, and `event_info`. -/
abbrev Info := BitVec 8

def flagAnd : Info := 0x01
def flagOr : Info := 0x02
def flagClear : Info := 0x04

structure State where
  flag : Flag
  set : EventSet
  waiters : Waiters Unit
  eventSet : ThreadId → EventSet
  eventInfo : ThreadId → Info
  /-- The thread has been suspended in a call of `rt_event_recv` that has not returned yet. -/
  receiving : ThreadId → Bool

/-- What a call returns, with the events that `rt_event_recv` stores through its argument. -/
structure Ret where
  err : RtErr
  recved : Option EventSet
  deriving DecidableEq

/-- `rt_event_init`, over started threads. -/
def init (flag : Flag) (priority : ThreadId → Nat) : State :=
  ⟨flag, 0, .init priority, fun _ => 0, fun _ => 0, fun _ => false⟩

/-- Whether the events of `set` are what a receiver waits for; `none` when it has neither asked
for all of its events nor for one of them. -/
def received (set wanted : EventSet) (info : Info) : Option Bool :=
  if info &&& flagAnd ≠ 0 then some (wanted &&& set == wanted)
  else if info &&& flagOr ≠ 0 then some (wanted &&& set != 0)
  else none

/-- The events of `set` that a receiver gets: all of its events, or those that are there. -/
def saved (set wanted : EventSet) (info : Info) : EventSet :=
  if info &&& flagAnd ≠ 0 then wanted else wanted &&& set

/-- The loop of `rt_event_send` over the waiting threads. -/
def scan : State → List ThreadId → State × RtErr
  | s, [] => (s, .eok)
  | s, t :: ts =>
    match received s.set (s.eventSet t) (s.eventInfo t) with
    | none => (s, .einval)
    | some false => scan s ts
    | some true =>
      let events := saved s.set (s.eventSet t) (s.eventInfo t)
      scan { s with
        set := if s.eventInfo t &&& flagClear ≠ 0 then s.set &&& ~~~ events else s.set
        eventSet := Function.update s.eventSet t events
        waiters := s.waiters.resume t } ts

/-- `rt_event_send`. -/
def rtEventSend (s : State) (set : EventSet) : State × Option Ret :=
  if set = 0 then (s, some ⟨.error, none⟩)
  else
    let r := scan { s with set := s.set ||| set } (s.waiters.list ())
    (r.1, some ⟨r.2, none⟩)

/-- `rt_event_recv`, up to its return or to the switch. -/
def rtEventRecv (s : State) (t : ThreadId) (set : EventSet) (option : Info)
    (timeout : BitVec 32) : Option (State × Option Ret) :=
  if set = 0 then some (s, some ⟨.error, none⟩)
  else
    let s := { s with waiters := s.waiters.setError t .eok }
    match received s.set set option with
    | none => none
    | some true =>
      some ({ s with
        eventSet := Function.update s.eventSet t (s.set &&& set)
        eventInfo := Function.update s.eventInfo t option
        set := if option &&& flagClear ≠ 0 then s.set &&& ~~~ set else s.set },
        some ⟨.eok, some (s.set &&& set)⟩)
    | some false =>
      if timeout = 0 then
        some ({ s with waiters := s.waiters.setError t .etimeout }, some ⟨.etimeout, none⟩)
      else
        (s.waiters.block s.flag () t timeout).map fun w =>
          ({ s with
            waiters := w
            eventSet := Function.update s.eventSet t set
            eventInfo := Function.update s.eventInfo t option
            receiving := Function.update s.receiving t true }, none)

/-- The rest of `rt_event_recv` after the switch back. -/
def recvReturn (s : State) (t : ThreadId) : State × Option Ret :=
  let err := (s.waiters.thread t).error
  ({ s with receiving := Function.update s.receiving t false },
    some ⟨err, if err = .eok then some (s.eventSet t) else none⟩)

/-- `rt_event_control` with `RT_IPC_CMD_RESET`. -/
def rtEventReset (s : State) : Option (State × Option Ret) :=
  (s.waiters.wakeAll ()).map fun w => ({ s with waiters := w, set := 0 }, some ⟨.eok, none⟩)

/-- The steps of a run. -/
inductive Op where
  | send (t : ThreadId) (set : EventSet)
  | recv (t : ThreadId) (set : EventSet) (option : Info) (timeout : BitVec 32)
  | recvReturn (t : ThreadId)
  | reset (t : ThreadId)
  | timeout (t : ThreadId)
  deriving DecidableEq

/-- The thread runs, outside of `rt_event_recv`. -/
def Active (s : State) (t : ThreadId) : Prop :=
  (s.waiters.thread t).suspended = false ∧ s.receiving t = false

instance (s : State) (t : ThreadId) : Decidable (Active s t) :=
  inferInstanceAs (Decidable (_ ∧ _))

/-- One step, with what the call returns in this step. -/
def call (s : State) : Op → Option (State × Option Ret)
  | .send t set => if Active s t then some (rtEventSend s set) else none
  | .recv t set option timeout =>
    if Active s t then rtEventRecv s t set option timeout else none
  | .recvReturn t =>
    if (s.waiters.thread t).suspended = false ∧ s.receiving t = true then some (recvReturn s t)
    else none
  | .reset t => if Active s t then rtEventReset s else none
  | .timeout t =>
    if (s.waiters.thread t).timerActive then
      some ({ s with waiters := s.waiters.timeout t }, none)
    else none

def step (s : State) (op : Op) : Option State := (call s op).map Prod.fst

end RtThread.Event
