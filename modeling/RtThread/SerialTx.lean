import RtThread.DataQueueFifo

/-!
# Transmission of a serial device by DMA

`_serial_dma_tx`, called by any number of threads, and the branch of `rt_hw_serial_isr` for
`RT_SERIAL_EVENT_TX_DMADONE`. A write is a push into the data queue, which may wait, the
section that tests `activated`, and the call of `dma_transmit` behind it. The interrupt is one
step, and comes when one of the transfers that have been begun is finished.
-/
namespace RtThread.SerialTx

open Ipc (ThreadId)
open DataQueue (RtDataItem)

/-- `RT_WAITING_FOREVER`. -/
def waitingForever : BitVec 32 := 0xffffffff

/-- Where a thread is in `_serial_dma_tx`, with `data` and `length`. -/
inductive Stage where
  | outside
  /-- Suspended in `rt_data_queue_push`. -/
  | pushing (item : RtDataItem)
  /-- The push has returned `RT_EOK`, and `activated` is to be tested. -/
  | pushed (item : RtDataItem)
  /-- It has set `activated`, and calls `dma_transmit` next. -/
  | starting (item : RtDataItem)
  deriving DecidableEq

structure State where
  /-- `tx_dma->data_queue`. -/
  queue : DataQueue.State
  /-- `tx_dma->activated`. -/
  activated : Bool
  stage : ThreadId → Stage
  /-- The transfers that `dma_transmit` has begun and that are not finished. -/
  active : List RtDataItem

/-- The sizes of the queue that `rt_serial_open` initialises. -/
def queueSize : Nat := 8

def queueLwm : Nat := 4

/-- The transmitter after `rt_serial_open` with `RT_DEVICE_FLAG_DMA_TX`. -/
def rtSerialOpen (queue : Nat → RtDataItem) (priority : ThreadId → Nat) : State :=
  ⟨DataQueue.init queue queueSize queueLwm priority, false, fun _ => .outside, []⟩

/-- What happens in a step. -/
inductive Event where
  /-- A push into the queue returns `RT_EOK`. -/
  | accept (t : ThreadId) (item : RtDataItem)
  /-- `dma_transmit` is called. -/
  | transmit (item : RtDataItem)
  /-- A transfer is finished. -/
  | finish (item : RtDataItem)
  /-- `tx_complete` is called; there is no buffer when the pop has found none. -/
  | complete (item : Option RtDataItem)
  /-- `_serial_dma_tx` returns. -/
  | ret (t : ThreadId) (written : BitVec 32)
  deriving DecidableEq

def setStage (s : State) (t : ThreadId) (stage : Stage) : State :=
  { s with stage := Function.update s.stage t stage }

/-- What follows a part of `rt_data_queue_push`. -/
def afterPush (s : State) (t : ThreadId) (item : RtDataItem)
    (r : DataQueue.State × Option DataQueue.Ret) : State × List Event :=
  let s := { s with queue := r.1 }
  match r.2 with
  | none => (setStage s t (.pushing item), [])
  | some ⟨.eok, _⟩ => (setStage s t (.pushed item), [.accept t item])
  | some _ => (setStage s t .outside, [.ret t 0])

/-- The section behind the push. -/
def test (s : State) (t : ThreadId) (item : RtDataItem) : State × List Event :=
  if s.activated then (setStage s t .outside, [.ret t item.dataSize])
  else (setStage { s with activated := true } t (.starting item), [])

/-- The call of `dma_transmit` by a writer. -/
def transmit (s : State) (t : ThreadId) (item : RtDataItem) : State × List Event :=
  (setStage { s with active := s.active ++ [item] } t .outside,
    [.transmit item, .ret t item.dataSize])

/-- `rt_data_queue_pop` without a waiting time, in an interrupt: the thread that is interrupted
stays where it is. -/
def isrPop (q : DataQueue.State) : Option (DataQueue.State × Option RtDataItem) :=
  (DataQueue.rtDataQueuePop q 0 0).map fun r =>
    ({ r.1 with call := q.call }, r.2.bind DataQueue.Ret.item)

/-- `rt_data_queue_peek` in an interrupt. -/
def isrPeek (q : DataQueue.State) : Option RtDataItem :=
  if q.dq.isEmpty then none else some (q.dq.queue q.dq.getIndex)

/-- `rt_hw_serial_isr` with `RT_SERIAL_EVENT_TX_DMADONE`, when the first of the transfers is
finished. -/
def rtHwSerialIsr (s : State) : Option (State × List Event) :=
  match s.active with
  | [] => none
  | item :: rest =>
    (isrPop s.queue).map fun (queue, last) =>
      let s := { s with queue := queue, active := rest }
      match isrPeek queue with
      | some next =>
        ({ s with activated := true, active := rest ++ [next] },
          [.finish item, .transmit next, .complete last])
      | none => ({ s with activated := false }, [.finish item, .complete last])

/-- The steps of a run. -/
inductive Op where
  /-- A thread calls `_serial_dma_tx`. -/
  | write (t : ThreadId) (item : RtDataItem)
  /-- A thread goes on in it. -/
  | proceed (t : ThreadId)
  | interrupt
  deriving DecidableEq

/-- One step, with what happens in it. -/
def call (s : State) : Op → Option (State × List Event)
  | .write t item =>
    if s.stage t = .outside then
      (DataQueue.call s.queue (.push t item waitingForever)).map (afterPush s t item)
    else none
  | .proceed t =>
    match s.stage t with
    | .outside => none
    | .pushing item => (DataQueue.call s.queue (.switchBack t)).map (afterPush s t item)
    | .pushed item => some (test s t item)
    | .starting item => some (transmit s t item)
  | .interrupt => rtHwSerialIsr s

def step (s : State) (op : Op) : Option State := (call s op).map Prod.fst

end RtThread.SerialTx
