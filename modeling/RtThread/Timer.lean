import RtThread.Lib.Runs
import RtThread.RtDef

/-!
# The timer lists

`timer.c` keeps the hard and the soft timers in two skip lists. Row 0 is the
sparsest row and row `level - 1` holds every linked timer. A row is modelled by
the list of its timers, and a `row_head` pointer by the timer it stands on
(`none` for the list head). `rt_timer_check` is split at the callback: the
interrupt-disabled part before it, any calls made while it runs, and the part
after it, so that a run may call the other functions from inside a callback.

Resuming the timer thread from `rt_timer_start` concerns the ready queue only
and is not part of this state. The two fields `starts` and `stamp` number the
calls of `rt_timer_start`: the first is the static `random_nr` before it is cut
to 32 bits, the second is a history variable that no function reads.
-/
namespace RtThread.Timer

abbrev TimerId := Nat

/-- `RT_TIMER_SKIP_LIST_LEVEL` and `RT_TIMER_SKIP_LIST_MASK`. -/
structure Config where
  level : Nat
  mask : BitVec 32
  level_pos : 0 < level

inductive ListKind where
  | hard | soft
  deriving DecidableEq

structure RtTimer where
  activated : Bool
  periodic : Bool
  kind : ListKind
  initTick : Tick
  timeoutTick : Tick
  deriving DecidableEq

structure State where
  tick : Tick
  timer : TimerId → RtTimer
  rows : ListKind → Nat → List TimerId
  /-- The temporary list of `rt_timer_check` and of `rt_soft_timer_check`. -/
  pending : ListKind → List TimerId
  /-- The local `t` of a check whose callback is running. -/
  inCallback : ListKind → Option TimerId
  starts : Nat
  stamp : TimerId → Nat

/-- `_timer_init`, with the flag byte given by its periodic and soft bits. -/
def timerInit (time : Tick) (periodic : Bool) (kind : ListKind) : RtTimer :=
  ⟨false, periodic, kind, time, 0⟩

/-- `rt_system_timer_init`, over timers that are initialised and not started. -/
def rtSystemTimerInit (tick : Tick) (timer : TimerId → RtTimer) : State :=
  ⟨tick, timer, fun _ _ => [], fun _ => [], fun _ => none, 0, fun _ => 0⟩

/-- `_timer_remove`: the timer's node leaves whatever list it is in, in every row. -/
def timerRemove (s : State) (t : TimerId) : State :=
  { s with rows := fun k r => (s.rows k r).filter (· ≠ t)
           pending := fun k => (s.pending k).filter (· ≠ t) }

def setTimer (s : State) (t : TimerId) (x : RtTimer) : State :=
  { s with timer := Function.update s.timer t x }

/-- The inner loop of the search stops in front of this deadline. -/
def stops (deadline timeout : Tick) : Bool :=
  timeout - deadline ≠ 0 && decide ((timeout - deadline).toNat < rtTickMaxHalf)

/-- The inner loop: walk along the row from `head`, whose successors are given. -/
def scanRow (timeout : TimerId → Tick) (deadline : Tick) :
    Option TimerId → List TimerId → Option TimerId
  | head, [] => head
  | head, t :: rest =>
    if stops deadline (timeout t) then head else scanRow timeout deadline (some t) rest

/-- The nodes of a row behind a position. -/
def after : Option TimerId → List TimerId → List TimerId
  | none, row => row
  | some x, row => (row.dropWhile (· ≠ x)).tail

/-- `row_head[r]`: the search descends from row to row at the position it reached. -/
def rowHead (timeout : TimerId → Tick) (deadline : Tick) (rows : Nat → List TimerId) :
    Nat → Option TimerId
  | 0 => scanRow timeout deadline none (rows 0)
  | r + 1 =>
    let head := rowHead timeout deadline rows r
    scanRow timeout deadline head (after head (rows (r + 1)))

/-- `rt_list_insert_after` at a position of a row. -/
def insertAfter : Option TimerId → TimerId → List TimerId → List TimerId
  | none, t, row => t :: row
  | some _, _, [] => []
  | some x, t, y :: row => if y = x then y :: t :: row else y :: insertAfter (some x) t row

/-- The number of rows above the bottom row that the new timer enters. -/
def extraRows (mask : BitVec 32) : Nat → BitVec 32 → Nat
  | 0, _ => 0
  | n + 1, tst =>
    if tst &&& mask = 0 then extraRows mask n (tst >>> ((mask + 1) >>> 1).toNat) + 1 else 0

/-- `rt_timer_start`. -/
def rtTimerStart (c : Config) (s : State) (t : TimerId) : State :=
  let s := timerRemove s t
  let x := s.timer t
  let deadline := s.tick + x.initTick
  let s := setTimer s t { x with activated := false, timeoutTick := deadline }
  let rows := s.rows x.kind
  let extra := extraRows c.mask (c.level - 1) (BitVec.ofNat 32 (s.starts + 1))
  let inserted := fun r =>
    if c.level - 1 - extra ≤ r ∧ r < c.level then
      insertAfter (rowHead (fun u => (s.timer u).timeoutTick) deadline rows r) t (rows r)
    else rows r
  { s with rows := Function.update s.rows x.kind inserted
           timer := Function.update s.timer t { s.timer t with activated := true }
           starts := s.starts + 1
           stamp := Function.update s.stamp t (s.starts + 1) }

/-- `rt_timer_stop`. -/
def rtTimerStop (s : State) (t : TimerId) : State × RtErr :=
  if (s.timer t).activated then
    (setTimer (timerRemove s t) t { s.timer t with activated := false }, .eok)
  else (s, .error)

/-- `rt_timer_detach` and `rt_timer_delete`, as far as the lists are concerned. -/
def rtTimerDetach (s : State) (t : TimerId) : State :=
  setTimer (timerRemove s t) t { s.timer t with activated := false }

inductive Cmd where
  | getTime | setTime (time : Tick) | setOneshot | setPeriodic | getState | getRemainTime
  deriving DecidableEq

/-- `rt_timer_control`, with the value stored through `arg`; `none` when its assertion
fails. `RT_TIMER_CTRL_GET_STATE` falls through into `RT_TIMER_CTRL_GET_REMAIN_TIME`. -/
def rtTimerControl (s : State) (t : TimerId) : Cmd → Option (State × Option Tick)
  | .getTime => some (s, some (s.timer t).initTick)
  | .setTime time =>
    if time.toNat < rtTickMaxHalf then some (setTimer s t { s.timer t with initTick := time }, none)
    else none
  | .setOneshot => some (setTimer s t { s.timer t with periodic := false }, none)
  | .setPeriodic => some (setTimer s t { s.timer t with periodic := true }, none)
  | .getState => some (s, some (s.timer t).timeoutTick)
  | .getRemainTime => some (s, some (s.timer t).timeoutTick)

/-- The part of `rt_timer_check` before the callback: an expired first timer is unlinked
and moved to the temporary list. `none` when no timer has expired. -/
def timerCheckPop (c : Config) (s : State) (k : ListKind) : Option (State × TimerId) :=
  match s.rows k (c.level - 1) with
  | [] => none
  | t :: _ =>
    if (s.tick - (s.timer t).timeoutTick).toNat < rtTickMaxHalf then
      let s := timerRemove s t
      let x := s.timer t
      let s := setTimer s t { x with activated := x.activated && x.periodic }
      some ({ s with pending := Function.update s.pending k (t :: s.pending k)
                     inCallback := Function.update s.inCallback k (some t) }, t)
    else none

/-- The part after the callback: a timer still in the temporary list leaves it and is
started again when it is periodic and was not stopped. -/
def timerCheckFinish (c : Config) (s : State) (k : ListKind) (t : TimerId) : State :=
  let s := { s with inCallback := Function.update s.inCallback k none }
  if s.pending k = [] then s
  else
    let s := { s with pending := Function.update s.pending k ((s.pending k).filter (· ≠ t)) }
    let x := s.timer t
    if x.periodic && x.activated then
      rtTimerStart c (setTimer s t { x with activated := false }) t
    else s

inductive Event where
  | start (t : TimerId)
  | stop (t : TimerId)
  | detach (t : TimerId)
  | control (t : TimerId) (cmd : Cmd)
  | tickIncrease
  | checkPop (k : ListKind)
  | checkFinish (k : ListKind)
  deriving DecidableEq

/-- One interrupt-disabled section of the timer module. -/
def step (c : Config) (s : State) : Event → Option State
  | .start t => some (rtTimerStart c s t)
  | .stop t => some (rtTimerStop s t).1
  | .detach t => some (rtTimerDetach s t)
  | .control t cmd => (rtTimerControl s t cmd).map Prod.fst
  | .tickIncrease => some { s with tick := s.tick + 1 }
  | .checkPop k =>
    if s.inCallback k = none then (timerCheckPop c s k).map Prod.fst else none
  | .checkFinish k => (s.inCallback k).map (timerCheckFinish c s k)

end RtThread.Timer
