import RtThread.Ipc
import RtThread.Lib.Runs

/-!
# Reception of a serial device

The receive buffer of `serial.c`, filled by the interrupt byte by byte or by the DMA in blocks,
and the two ways to read it. A read in interrupt mode is one section for each byte; in DMA mode
it is a single section. The interrupt is one step with all the bytes it finds.

The indices are half words, and the size of the buffer is a bit-field of 16 bits. There is no
result where the source fails an assertion.
-/
namespace RtThread.SerialRx

open Ipc (ThreadId)

abbrev Byte := BitVec 8

structure RtSerialRxFifo where
  buffer : Nat → Byte
  putIndex : Nat
  getIndex : Nat
  isFull : Bool

/-- `RT_DEVICE_FLAG_INT_RX` and `RT_DEVICE_FLAG_DMA_RX`. -/
inductive Mode where
  | interrupt | dma
  deriving DecidableEq

/-- A read in interrupt mode: the bytes that are left to read, and those it has read. -/
structure Reading where
  length : BitVec 32
  data : List Byte
  deriving DecidableEq

structure State where
  mode : Mode
  /-- `config.bufsz`. -/
  bufsz : Nat
  rxFifo : RtSerialRxFifo
  /-- Where the DMA is going to write next. -/
  dmaIndex : Nat
  reading : ThreadId → Option Reading

/-- The receiver after `rt_serial_open`. -/
def rtSerialOpen (mode : Mode) (bufsz : Nat) (buffer : Nat → Byte) : State :=
  ⟨mode, bufsz, ⟨buffer, 0, 0, false⟩, 0, fun _ => none⟩

/-! ## Interrupt mode -/

/-- An index is advanced by one byte. -/
def nextIndex (bufsz index : Nat) : Nat :=
  if bufsz ≤ wadd 16 index 1 then 0 else wadd 16 index 1

/-- A byte that `getc` has returned is put into the buffer. -/
def rxByte (bufsz : Nat) (f : RtSerialRxFifo) (ch : Byte) : RtSerialRxFifo :=
  let f := { f with
    buffer := Function.update f.buffer f.putIndex ch
    putIndex := nextIndex bufsz f.putIndex }
  if f.putIndex = f.getIndex then
    { f with getIndex := nextIndex bufsz f.getIndex, isFull := true }
  else f

/-- `rx_length` of `RT_SERIAL_EVENT_RX_IND`. -/
def rxLength (bufsz : Nat) (f : RtSerialRxFifo) : Nat :=
  if f.getIndex ≤ f.putIndex then f.putIndex - f.getIndex
  else bufsz - (f.getIndex - f.putIndex)

/-- One section of `_serial_int_rx`, with the byte it takes. -/
def serialIntRx (bufsz : Nat) (f : RtSerialRxFifo) : Option (Byte × RtSerialRxFifo) :=
  if f.getIndex = f.putIndex ∧ f.isFull = false then none
  else
    some (f.buffer f.getIndex,
      { f with getIndex := nextIndex bufsz f.getIndex, isFull := false })

/-! ## DMA mode -/

/-- `_serial_fifo_calc_recved_len`. -/
def serialFifoCalcRecvedLen (bufsz : Nat) (f : RtSerialRxFifo) : Nat :=
  if f.putIndex = f.getIndex then if f.isFull then bufsz else 0
  else if f.getIndex < f.putIndex then f.putIndex - f.getIndex
  else bufsz - (f.getIndex - f.putIndex)

/-- `rt_dma_recv_update_get_index`. -/
def rtDmaRecvUpdateGetIndex (bufsz : Nat) (f : RtSerialRxFifo) (len : Nat) :
    Option RtSerialRxFifo :=
  if len ≤ serialFifoCalcRecvedLen bufsz f then
    let getIndex := wadd 16 f.getIndex len
    some { f with
      isFull := f.isFull && decide (len = 0)
      getIndex := if bufsz ≤ getIndex then getIndex % bufsz else getIndex }
  else none

/-- `rt_dma_recv_update_put_index`. -/
def rtDmaRecvUpdatePutIndex (bufsz : Nat) (f : RtSerialRxFifo) (len : Nat) : RtSerialRxFifo :=
  let putIndex := wadd 16 f.putIndex len
  let wrapped := if bufsz ≤ putIndex then putIndex % bufsz else putIndex
  let f :=
    if f.getIndex ≤ f.putIndex then
      { f with
        putIndex := wrapped
        isFull := f.isFull || decide (bufsz ≤ putIndex ∧ f.getIndex ≤ wrapped) }
    else if f.getIndex ≤ putIndex then { f with putIndex := wrapped, isFull := true }
    else { f with putIndex := putIndex }
  if f.isFull then { f with getIndex := f.putIndex } else f

/-- The DMA writes a block round the buffer. -/
def dmaWrite (bufsz : Nat) (buffer : Nat → Byte) (index : Nat) : List Byte → Nat → Byte
  | [] => buffer
  | b :: bs => dmaWrite bufsz (Function.update buffer (index % bufsz) b) (index + 1) bs

/-- `rt_memcpy` of `n` bytes from an index of the buffer. -/
def copy (f : RtSerialRxFifo) (index n : Nat) : List Byte :=
  (List.range n).map fun i => f.buffer (index + i)

/-- `_serial_dma_rx`. -/
def serialDmaRx (bufsz : Nat) (f : RtSerialRxFifo) (length : BitVec 32) :
    Option (List Byte × RtSerialRxFifo) :=
  let recved := serialFifoCalcRecvedLen bufsz f
  let recvLen := if length.toInt < recved then length.toNat else recved
  let data :=
    if f.getIndex + recvLen < bufsz then copy f f.getIndex recvLen
    else copy f f.getIndex (bufsz - f.getIndex) ++ copy f 0 (recvLen + f.getIndex - bufsz)
  (rtDmaRecvUpdateGetIndex bufsz f recvLen).map fun f => (data, f)

/-! ## Steps -/

/-- What a step tells the outside. -/
inductive Event where
  /-- `rx_indicate` is called. -/
  | indicate (length : Nat)
  /-- A read returns with its bytes. -/
  | ret (t : ThreadId) (data : List Byte)
  deriving DecidableEq

/-- The steps of a run. -/
inductive Op where
  /-- `RT_SERIAL_EVENT_RX_IND`, with the bytes that `getc` returns. -/
  | rxInd (chs : List Byte)
  /-- `RT_SERIAL_EVENT_RX_DMADONE`, with the bytes that the DMA has written. -/
  | rxDmaDone (bytes : List Byte)
  | read (t : ThreadId) (length : BitVec 32)
  /-- The next section of a read in interrupt mode, or its return. -/
  | proceed (t : ThreadId)
  deriving DecidableEq

/-- The next round of the loop of `_serial_int_rx`. -/
def readRound (s : State) (t : ThreadId) (r : Reading) : State × List Event :=
  let done := ({ s with reading := Function.update s.reading t none }, [.ret t r.data])
  if r.length = 0 then done
  else
    match serialIntRx s.bufsz s.rxFifo with
    | none => done
    | some (ch, f) =>
      ({ s with
        rxFifo := f
        reading := Function.update s.reading t (some ⟨r.length - 1, r.data ++ [ch]⟩) }, [])

/-- One step, with what it tells. -/
def call (s : State) : Op → Option (State × List Event)
  | .rxInd chs =>
    if s.mode = .interrupt then
      let f := chs.foldl (rxByte s.bufsz) s.rxFifo
      let length := rxLength s.bufsz f
      some ({ s with rxFifo := f }, if length = 0 then [] else [.indicate length])
    else none
  | .rxDmaDone bytes =>
    if s.mode = .dma ∧ bytes.length ≤ s.bufsz then
      let f := { s.rxFifo with buffer := dmaWrite s.bufsz s.rxFifo.buffer s.dmaIndex bytes }
      let f := rtDmaRecvUpdatePutIndex s.bufsz f bytes.length
      some ({ s with rxFifo := f, dmaIndex := (s.dmaIndex + bytes.length) % s.bufsz },
        [.indicate (serialFifoCalcRecvedLen s.bufsz f)])
    else none
  | .read t length =>
    if s.reading t = none then
      match s.mode with
      | .interrupt =>
        some ({ s with reading := Function.update s.reading t (some ⟨length, []⟩) }, [])
      | .dma =>
        (serialDmaRx s.bufsz s.rxFifo length).map fun r => ({ s with rxFifo := r.2 }, [.ret t r.1])
    else none
  | .proceed t =>
    match s.reading t with
    | none => none
    | some r => some (readRound s t r)

def step (s : State) (op : Op) : Option State := (call s op).map Prod.fst

end RtThread.SerialRx
