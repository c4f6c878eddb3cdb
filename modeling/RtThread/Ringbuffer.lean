import RtThread.RtDef

/-!
# Ring buffers

The functions of `ringbuffer.c`. The indices are bit fields of 15 bits and the
mirrors bit fields of one bit. A block of data is the list of its bytes, so its
length is the argument `length` of the source, a half word. The pointer that
`rt_ringbuffer_peak` stores is given by its offset in the buffer.

No difference of the source is negative, except in a buffer of size zero after
`rt_ringbuffer_putchar_force`: behind that call the other functions of the source work
with the wrapped differences, and the model with zero.
-/
namespace RtThread.Ringbuffer

abbrev Byte := BitVec 8

structure RtRingbuffer where
  buffer : Nat → Byte
  readMirror : Bool
  readIndex : Nat
  writeMirror : Bool
  writeIndex : Nat
  bufferSize : Nat

/-- `enum rt_ringbuffer_state`. -/
inductive Status where
  | empty | full | halffull
  deriving DecidableEq

/-- `rt_ringbuffer_init`, for the alignment `RT_ALIGN_SIZE`. -/
def rtRingbufferInit (align : Nat) (pool : Nat → Byte) (size : Nat) : RtRingbuffer :=
  ⟨pool, false, 0, false, 0, rtAlignDown size align⟩

def rtRingbufferStatus (rb : RtRingbuffer) : Status :=
  if rb.readIndex = rb.writeIndex then
    if rb.readMirror = rb.writeMirror then .empty else .full
  else .halffull

/-- `rt_ringbuffer_data_len`. -/
def dataLen (rb : RtRingbuffer) : Nat :=
  match rtRingbufferStatus rb with
  | .empty => 0
  | .full => rb.bufferSize
  | .halffull =>
    if rb.readIndex < rb.writeIndex then rb.writeIndex - rb.readIndex
    else rb.bufferSize - (rb.readIndex - rb.writeIndex)

/-- `rt_ringbuffer_space_len`. -/
def spaceLen (rb : RtRingbuffer) : Nat := rb.bufferSize - dataLen rb

/-- `rt_memcpy` to the offset `off` of a buffer. -/
def copyTo (buffer : Nat → Byte) (off : Nat) (src : List Byte) : Nat → Byte :=
  fun i => if off ≤ i then src.getD (i - off) (buffer i) else buffer i

/-- `rt_memcpy` of `length` bytes from the offset `off` of a buffer. -/
def copyFrom (buffer : Nat → Byte) (off length : Nat) : List Byte :=
  (List.range length).map fun i => buffer (off + i)

/-- The copying of `rt_ringbuffer_put` and `rt_ringbuffer_put_force`, for `length` bytes that fit
into the buffer: the write index moves on, and changes its mirror at the end of the buffer. -/
def write (rb : RtRingbuffer) (data : List Byte) : RtRingbuffer :=
  let rest := rb.bufferSize - rb.writeIndex
  if data.length < rest then
    { rb with
      buffer := copyTo rb.buffer rb.writeIndex data
      writeIndex := wadd 15 rb.writeIndex data.length }
  else
    { rb with
      buffer := copyTo (copyTo rb.buffer rb.writeIndex (data.take rest)) 0 (data.drop rest)
      writeMirror := !rb.writeMirror
      writeIndex := (data.length - rest) % 2 ^ 15 }

/-- `rt_ringbuffer_put`. -/
def put (rb : RtRingbuffer) (data : List Byte) : RtRingbuffer × Nat :=
  let size := spaceLen rb
  if size = 0 then (rb, 0)
  else
    let length := if size < data.length then size else data.length
    (write rb (data.take length), length)

/-- `rt_ringbuffer_put_force`. -/
def putForce (rb : RtRingbuffer) (data : List Byte) : RtRingbuffer × Nat :=
  let spaceLength := spaceLen rb
  let data := if rb.bufferSize < data.length then data.drop (data.length - rb.bufferSize) else data
  let length := data.length
  if length < rb.bufferSize - rb.writeIndex then
    let rb := write rb data
    (if spaceLength < length then { rb with readIndex := rb.writeIndex } else rb, length)
  else
    let rb := write rb data
    (if spaceLength < length then
      { rb with
        readMirror := if rb.writeIndex ≤ rb.readIndex then !rb.readMirror else rb.readMirror
        readIndex := rb.writeIndex }
    else rb, length)

/-- `rt_ringbuffer_get`, with the bytes it stores. -/
def get (rb : RtRingbuffer) (length : Nat) : RtRingbuffer × List Byte :=
  let size := dataLen rb
  if size = 0 then (rb, [])
  else
    let length := if size < length then size else length
    let rest := rb.bufferSize - rb.readIndex
    if length < rest then
      ({ rb with readIndex := wadd 15 rb.readIndex length },
        copyFrom rb.buffer rb.readIndex length)
    else
      ({ rb with readMirror := !rb.readMirror, readIndex := (length - rest) % 2 ^ 15 },
        copyFrom rb.buffer rb.readIndex rest ++ copyFrom rb.buffer 0 (length - rest))

/-- `rt_ringbuffer_peak`, with the pointer it stores and the size it returns. -/
def peak (rb : RtRingbuffer) : RtRingbuffer × Option Nat × Nat :=
  let size := dataLen rb
  if size = 0 then (rb, none, 0)
  else
    let rest := rb.bufferSize - rb.readIndex
    if size < rest then
      ({ rb with readIndex := wadd 15 rb.readIndex size }, some rb.readIndex, size)
    else ({ rb with readMirror := !rb.readMirror, readIndex := 0 }, some rb.readIndex, rest)

/-- The bytes that a caller of `rt_ringbuffer_peak` finds at the pointer. -/
def peaked (rb : RtRingbuffer) : List Byte :=
  match (peak rb).2 with
  | (none, _) => []
  | (some off, size) => copyFrom rb.buffer off size

/-- `rt_ringbuffer_putchar`. -/
def putchar (rb : RtRingbuffer) (ch : Byte) : RtRingbuffer × Nat :=
  if spaceLen rb = 0 then (rb, 0)
  else
    let buffer := Function.update rb.buffer rb.writeIndex ch
    if rb.writeIndex + 1 = rb.bufferSize then
      ({ rb with buffer := buffer, writeMirror := !rb.writeMirror, writeIndex := 0 }, 1)
    else ({ rb with buffer := buffer, writeIndex := wadd 15 rb.writeIndex 1 }, 1)

/-- `rt_ringbuffer_putchar_force`. -/
def putcharForce (rb : RtRingbuffer) (ch : Byte) : RtRingbuffer × Nat :=
  let oldState := rtRingbufferStatus rb
  let buffer := Function.update rb.buffer rb.writeIndex ch
  if rb.writeIndex + 1 = rb.bufferSize then
    let rb := { rb with buffer := buffer, writeMirror := !rb.writeMirror, writeIndex := 0 }
    (if oldState = .full then
      { rb with readMirror := !rb.readMirror, readIndex := rb.writeIndex }
    else rb, 1)
  else
    let rb := { rb with buffer := buffer, writeIndex := wadd 15 rb.writeIndex 1 }
    (if oldState = .full then { rb with readIndex := rb.writeIndex } else rb, 1)

/-- `rt_ringbuffer_getchar`, with the byte it stores. -/
def getchar (rb : RtRingbuffer) : RtRingbuffer × Option Byte :=
  if dataLen rb = 0 then (rb, none)
  else
    let ch := rb.buffer rb.readIndex
    if rb.readIndex + 1 = rb.bufferSize then
      ({ rb with readMirror := !rb.readMirror, readIndex := 0 }, some ch)
    else ({ rb with readIndex := wadd 15 rb.readIndex 1 }, some ch)

/-- `rt_ringbuffer_reset`. -/
def reset (rb : RtRingbuffer) : RtRingbuffer :=
  { rb with readMirror := false, readIndex := 0, writeMirror := false, writeIndex := 0 }

inductive Op where
  | put (data : List Byte)
  | putForce (data : List Byte)
  | get (length : Nat)
  | peak
  | putchar (ch : Byte)
  | putcharForce (ch : Byte)
  | getchar
  | reset
  deriving DecidableEq

/-- What a call gives: the size it returns and the bytes its caller can read. -/
structure Out where
  size : Nat
  bytes : List Byte
  deriving DecidableEq

def call (rb : RtRingbuffer) : Op → RtRingbuffer × Out
  | .put data => ((put rb data).1, ⟨(put rb data).2, []⟩)
  | .putForce data => ((putForce rb data).1, ⟨(putForce rb data).2, []⟩)
  | .get length => ((get rb length).1, ⟨(get rb length).2.length, (get rb length).2⟩)
  | .peak => ((peak rb).1, ⟨(peak rb).2.2, peaked rb⟩)
  | .putchar ch => ((putchar rb ch).1, ⟨(putchar rb ch).2, []⟩)
  | .putcharForce ch => ((putcharForce rb ch).1, ⟨(putcharForce rb ch).2, []⟩)
  | .getchar => ((getchar rb).1, ⟨(getchar rb).2.toList.length, (getchar rb).2.toList⟩)
  | .reset => (reset rb, ⟨0, []⟩)

/-- A sequence of calls, with what each of them gives. -/
def run (rb : RtRingbuffer) : List Op → RtRingbuffer × List Out
  | [] => (rb, [])
  | op :: ops =>
    let r := call rb op
    let rest := run r.1 ops
    (rest.1, r.2 :: rest.2)

end RtThread.Ringbuffer
