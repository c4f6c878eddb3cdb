import Mathlib.Logic.Function.Basic
import RtThread.Lib.Runs

/-!
# The ring of the virtual bus

One ring, with the code of `_bus_out_entry` on its one side and the code of `_bus_in_entry` on
the other. A packet begins with the header of a block, and its data go on through the blocks
behind it as raw bytes. Every store to the ring and every load from it is a step of its own, and
the steps of the two sides interleave in any order; the barriers make the stores of a side
visible in this order.

The packets of the writer are those of connected channels. What the reader does with a packet
depends on the status of the channel and on `rt_malloc`, which are left open.
-/
namespace RtThread.VbusRing

abbrev Byte := BitVec 8

/-- `RT_VBUS_BLK_HEAD_SZ`. -/
def rtVbusBlkHeadSz : Nat := 4

/-- `sizeof(struct rt_vbus_blk)`. -/
def blkSize : Nat := 64

/-- `RT_VBUS_MAX_PKT_SZ`. -/
def rtVbusMaxPktSz : Nat := 256 - rtVbusBlkHeadSz

/-- `RT_VBUS_CHANNEL_NR`. -/
def rtVbusChannelNr : Nat := 32

/-- `LEN2BNR`. -/
def len2bnr (len : Nat) : Nat := (len + rtVbusBlkHeadSz + blkSize - 1) / blkSize

structure RtVbusRing where
  putIdx : Nat
  getIdx : Nat
  blocked : Bool
  /-- The bytes of the blocks, one block behind the other. -/
  blks : Nat → Byte

/-- A packet with its data. -/
structure RtVbusPkg where
  id : Byte
  prio : Byte
  data : List Byte
  id_lt : id.toNat < rtVbusChannelNr
  len_le : data.length ≤ rtVbusMaxPktSz

/-- `_bus_ring_space_nr`. -/
def busRingSpaceNr (nr : Nat) (rg : RtVbusRing) : Int :=
  let delta : Int := rg.getIdx - rg.putIdx
  if 0 < delta then delta - 1 else nr + delta - 1

/-- An index of the ring is moved past a packet. -/
def addBnr (nr idx bnr : Nat) : Nat := if nr ≤ idx + bnr then idx + bnr - nr else idx + bnr

/-- The offset of a field of a block, and of what follows the block. -/
def byteOf (idx offset : Nat) : Nat := idx * blkSize + offset

/-- Where the data of a packet are, in the order of the `rt_memcpy` of either side. -/
def dataBytes (nr idx len : Nat) : List Nat :=
  if nr ≤ idx + len2bnr len then
    let tailsz := min ((nr - idx) * blkSize - rtVbusBlkHeadSz) len
    (List.range tailsz).map (fun i => byteOf idx (rtVbusBlkHeadSz + i)) ++
      List.range (len - tailsz)
  else (List.range len).map fun i => byteOf idx (rtVbusBlkHeadSz + i)

/-- The stores of the writer: `id`, `qos`, `len` and the data. -/
def stores (nr idx : Nat) (p : RtVbusPkg) : List (Nat × Byte) :=
  [(byteOf idx 0, p.id), (byteOf idx 1, p.prio), (byteOf idx 2, BitVec.ofNat 8 p.data.length)] ++
    (dataBytes nr idx p.data.length).zip p.data

inductive Writer where
  | idle
  /-- Before the space is looked at. -/
  | checking (p : RtVbusPkg)
  /-- Suspended, or resumed and not yet running. -/
  | waiting (p : RtVbusPkg)
  | storing (p : RtVbusPkg) (pending : List (Nat × Byte))

/-- What the reader has found: a packet for `_chn0_actor` or `rt_vbus_data_push`, or one that it
drops. -/
inductive Event where
  | packet (id : Byte) (data : List Byte)
  | drop (id : Byte) (size : Nat)
  deriving DecidableEq

inductive Reader where
  | idle
  /-- Before the load of `len`. -/
  | size
  /-- Before the load of `id`. -/
  | id (size : Nat)
  | choosing (size : Nat) (id : Byte)
  | loading (size : Nat) (id : Byte) (pending : List Nat) (data : List Byte)
  /-- Before `get_idx` is moved. -/
  | advancing (size : Nat) (event : Event)
  deriving DecidableEq

structure State where
  ring : RtVbusRing
  writer : Writer
  reader : Reader

/-- The ring after `rt_vbus_init`. -/
def rtVbusInit : State := ⟨⟨0, 0, false, fun _ => 0⟩, .idle, .idle⟩

/-- The next step of the writer. -/
def write (nr : Nat) (s : State) : Option State :=
  match s.writer with
  | .idle => none
  | .checking p =>
    if busRingSpaceNr nr s.ring < len2bnr p.data.length then
      some { s with ring := { s.ring with blocked := true }, writer := .waiting p }
    else some { s with writer := .storing p (stores nr s.ring.putIdx p) }
  | .waiting p => some { s with ring := { s.ring with blocked := false }, writer := .checking p }
  | .storing p [] =>
    some { s with
      ring := { s.ring with putIdx := addBnr nr s.ring.putIdx (len2bnr p.data.length) }
      writer := .idle }
  | .storing p ((a, b) :: pending) =>
    some { s with
      ring := { s.ring with blks := Function.update s.ring.blks a b }
      writer := .storing p pending }

/-- What the reader does with a packet; on channel 0 it passes a pointer into the ring. -/
def choose (nr : Nat) (ring : RtVbusRing) (size : Nat) (id : Byte) (connected memory : Bool) :
    Reader :=
  if rtVbusChannelNr < id.toNat ∨ connected = false then .advancing size (.drop id size)
  else if id = 0 then
    if 60 < size then .advancing size (.drop id size)
    else
      .loading size id
        ((List.range size).map fun i => byteOf ring.getIdx (rtVbusBlkHeadSz + i)) []
  else if memory = false then .advancing size (.drop id size)
  else .loading size id (dataBytes nr ring.getIdx size) []

/-- The next step of the reader. -/
def read (nr : Nat) (s : State) (connected memory : Bool) : State × List Event :=
  match s.reader with
  | .idle => ({ s with reader := if s.ring.getIdx ≠ s.ring.putIdx then .size else .idle }, [])
  | .size => ({ s with reader := .id (s.ring.blks (byteOf s.ring.getIdx 2)).toNat }, [])
  | .id size => ({ s with reader := .choosing size (s.ring.blks (byteOf s.ring.getIdx 0)) }, [])
  | .choosing size id => ({ s with reader := choose nr s.ring size id connected memory }, [])
  | .loading size id [] data => ({ s with reader := .advancing size (.packet id data) }, [])
  | .loading size id (a :: pending) data =>
    ({ s with reader := .loading size id pending (data ++ [s.ring.blks a]) }, [])
  | .advancing size event =>
    ({ s with
      ring := { s.ring with getIdx := addBnr nr s.ring.getIdx (len2bnr size) }
      reader := .idle }, [event])

/-- The steps of a run. -/
inductive Op where
  /-- The writer takes a packet from its queue. -/
  | pop (p : RtVbusPkg)
  | write
  | read (connected memory : Bool)

/-- One step, with what the reader has found. -/
def call (nr : Nat) (s : State) : Op → Option (State × List Event)
  | .pop p =>
    match s.writer with
    | .idle => some ({ s with writer := .checking p }, [])
    | _ => none
  | .write => (write nr s).map fun s => (s, [])
  | .read connected memory => some (read nr s connected memory)

end RtThread.VbusRing
