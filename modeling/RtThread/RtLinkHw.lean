import RtThread.RtLink

/-!
# The receive buffer and the decoder of rt-link

The circular buffer of `rtlink_hw.c` and the loop of `rt_link_frame_check`. A pointer is
given by its offset in the buffer. A case of the switch returns, leaves the switch or falls
through into the next case. The frame head is laid out from its lowest bit on, and words are
stored with their lowest byte first.

The timers do not expire here, so what is done to them is left out, and the session changes
by the frames only.
-/
namespace RtThread.RtLink

open Ringbuffer (Byte copyTo copyFrom)

/-- `RT_LINK_RECEIVE_BUFFER_LENGTH`. -/
def receiveBufferLength : Nat := 3080

/-- `RT_LINK_HEAD_LENGTH`. -/
def headLength : Nat := 4

/-- `RT_LINK_EXTEND_LENGTH`. -/
def extendLength : Nat := 4

/-- `RT_LINK_CRC_LENGTH`. -/
def crcLength : Nat := 4

structure RxBuffer where
  data : Nat → Byte
  readPoint : Nat
  writePoint : Nat

/-! ## The buffer -/

/-- `rt_link_hw_buffer_write`, with the number of bytes written. -/
def rtLinkHwBufferWrite (b : RxBuffer) (bytes : List Byte) : RxBuffer × Nat :=
  if b.readPoint ≤ b.writePoint then
    let w2end := receiveBufferLength - b.writePoint
    let surplus := receiveBufferLength - (b.writePoint - b.readPoint)
    let count := if surplus < bytes.length then surplus else bytes.length
    let bytes := bytes.take count
    if w2end ≤ count then
      ({ b with
          data := copyTo (copyTo b.data b.writePoint (bytes.take w2end)) 0 (bytes.drop w2end)
          writePoint := count - w2end }, count)
    else
      ({ b with
          data := copyTo b.data b.writePoint bytes
          writePoint := b.writePoint + count }, count)
  else
    let surplus := b.readPoint - b.writePoint
    let count := if surplus < bytes.length then surplus else bytes.length
    ({ b with
        data := copyTo b.data b.writePoint (bytes.take count)
        writePoint := b.writePoint + count }, count)

/-- `rt_link_hw_buffer_point_shift`: the new value of the pointer. -/
def rtLinkHwBufferPointShift (b : RxBuffer) (point length : Nat) : Nat :=
  let pointer := point + length
  if b.readPoint ≤ b.writePoint then
    if b.writePoint ≤ pointer then b.writePoint else pointer
  else if receiveBufferLength ≤ pointer then
    if b.writePoint ≤ pointer - receiveBufferLength then b.writePoint
    else pointer - receiveBufferLength
  else pointer

/-- `rt_link_hw_copy`. -/
def rtLinkHwCopy (b : RxBuffer) (src count : Nat) : List Byte :=
  if receiveBufferLength ≤ src + count then
    copyFrom b.data src (receiveBufferLength - src) ++
      copyFrom b.data 0 (src + count - receiveBufferLength)
  else copyFrom b.data src count

/-- `rt_link_hw_recv_len`. -/
def rtLinkHwRecvLen (b : RxBuffer) : Nat :=
  if b.readPoint ≤ b.writePoint then b.writePoint - b.readPoint
  else receiveBufferLength - (b.readPoint - b.writePoint)

/-! ## The checksum -/

def crcTable : List (BitVec 32) :=
   [0x00000000, 0x77073096, 0xEE0E612C, 0x990951BA, 0x076DC419, 0x706AF48F, 0xE963A535, 0x9E6495A3,
    0x0EDB8832, 0x79DCB8A4, 0xE0D5E91E, 0x97D2D988, 0x09B64C2B, 0x7EB17CBD, 0xE7B82D07, 0x90BF1D91,
    0x1DB71064, 0x6AB020F2, 0xF3B97148, 0x84BE41DE, 0x1ADAD47D, 0x6DDDE4EB, 0xF4D4B551, 0x83D385C7,
    0x136C9856, 0x646BA8C0, 0xFD62F97A, 0x8A65C9EC, 0x14015C4F, 0x63066CD9, 0xFA0F3D63, 0x8D080DF5,
    0x3B6E20C8, 0x4C69105E, 0xD56041E4, 0xA2677172, 0x3C03E4D1, 0x4B04D447, 0xD20D85FD, 0xA50AB56B,
    0x35B5A8FA, 0x42B2986C, 0xDBBBC9D6, 0xACBCF940, 0x32D86CE3, 0x45DF5C75, 0xDCD60DCF, 0xABD13D59,
    0x26D930AC, 0x51DE003A, 0xC8D75180, 0xBFD06116, 0x21B4F4B5, 0x56B3C423, 0xCFBA9599, 0xB8BDA50F,
    0x2802B89E, 0x5F058808, 0xC60CD9B2, 0xB10BE924, 0x2F6F7C87, 0x58684C11, 0xC1611DAB, 0xB6662D3D,
    0x76DC4190, 0x01DB7106, 0x98D220BC, 0xEFD5102A, 0x71B18589, 0x06B6B51F, 0x9FBFE4A5, 0xE8B8D433,
    0x7807C9A2, 0x0F00F934, 0x9609A88E, 0xE10E9818, 0x7F6A0DBB, 0x086D3D2D, 0x91646C97, 0xE6635C01,
    0x6B6B51F4, 0x1C6C6162, 0x856530D8, 0xF262004E, 0x6C0695ED, 0x1B01A57B, 0x8208F4C1, 0xF50FC457,
    0x65B0D9C6, 0x12B7E950, 0x8BBEB8EA, 0xFCB9887C, 0x62DD1DDF, 0x15DA2D49, 0x8CD37CF3, 0xFBD44C65,
    0x4DB26158, 0x3AB551CE, 0xA3BC0074, 0xD4BB30E2, 0x4ADFA541, 0x3DD895D7, 0xA4D1C46D, 0xD3D6F4FB,
    0x4369E96A, 0x346ED9FC, 0xAD678846, 0xDA60B8D0, 0x44042D73, 0x33031DE5, 0xAA0A4C5F, 0xDD0D7CC9,
    0x5005713C, 0x270241AA, 0xBE0B1010, 0xC90C2086, 0x5768B525, 0x206F85B3, 0xB966D409, 0xCE61E49F,
    0x5EDEF90E, 0x29D9C998, 0xB0D09822, 0xC7D7A8B4, 0x59B33D17, 0x2EB40D81, 0xB7BD5C3B, 0xC0BA6CAD,
    0xEDB88320, 0x9ABFB3B6, 0x03B6E20C, 0x74B1D29A, 0xEAD54739, 0x9DD277AF, 0x04DB2615, 0x73DC1683,
    0xE3630B12, 0x94643B84, 0x0D6D6A3E, 0x7A6A5AA8, 0xE40ECF0B, 0x9309FF9D, 0x0A00AE27, 0x7D079EB1,
    0xF00F9344, 0x8708A3D2, 0x1E01F268, 0x6906C2FE, 0xF762575D, 0x806567CB, 0x196C3671, 0x6E6B06E7,
    0xFED41B76, 0x89D32BE0, 0x10DA7A5A, 0x67DD4ACC, 0xF9B9DF6F, 0x8EBEEFF9, 0x17B7BE43, 0x60B08ED5,
    0xD6D6A3E8, 0xA1D1937E, 0x38D8C2C4, 0x4FDFF252, 0xD1BB67F1, 0xA6BC5767, 0x3FB506DD, 0x48B2364B,
    0xD80D2BDA, 0xAF0A1B4C, 0x36034AF6, 0x41047A60, 0xDF60EFC3, 0xA867DF55, 0x316E8EEF, 0x4669BE79,
    0xCB61B38C, 0xBC66831A, 0x256FD2A0, 0x5268E236, 0xCC0C7795, 0xBB0B4703, 0x220216B9, 0x5505262F,
    0xC5BA3BBE, 0xB2BD0B28, 0x2BB45A92, 0x5CB36A04, 0xC2D7FFA7, 0xB5D0CF31, 0x2CD99E8B, 0x5BDEAE1D,
    0x9B64C2B0, 0xEC63F226, 0x756AA39C, 0x026D930A, 0x9C0906A9, 0xEB0E363F, 0x72076785, 0x05005713,
    0x95BF4A82, 0xE2B87A14, 0x7BB12BAE, 0x0CB61B38, 0x92D28E9B, 0xE5D5BE0D, 0x7CDCEFB7, 0x0BDBDF21,
    0x86D3D2D4, 0xF1D4E242, 0x68DDB3F8, 0x1FDA836E, 0x81BE16CD, 0xF6B9265B, 0x6FB077E1, 0x18B74777,
    0x88085AE6, 0xFF0F6A70, 0x66063BCA, 0x11010B5C, 0x8F659EFF, 0xF862AE69, 0x616BFFD3, 0x166CCF45,
    0xA00AE278, 0xD70DD2EE, 0x4E048354, 0x3903B3C2, 0xA7672661, 0xD06016F7, 0x4969474D, 0x3E6E77DB,
    0xAED16A4A, 0xD9D65ADC, 0x40DF0B66, 0x37D83BF0, 0xA9BCAE53, 0xDEBB9EC5, 0x47B2CF7F, 0x30B5FFE9,
    0xBDBDF21C, 0xCABAC28A, 0x53B39330, 0x24B4A3A6, 0xBAD03605, 0xCDD70693, 0x54DE5729, 0x23D967BF,
    0xB3667A2E, 0xC4614AB8, 0x5D681B02, 0x2A6F2B94, 0xB40BBE37, 0xC30C8EA1, 0x5A05DF1B, 0x2D02EF8D
  ]

/-- One round of the loop of `rt_link_sf_crc32`. -/
def crcByte (crc : BitVec 32) (byte : Byte) : BitVec 32 :=
  (crc >>> 8) ^^^ crcTable.getD ((crc ^^^ byte.setWidth 32) &&& 0xff).toNat 0

/-- `rt_link_sf_crc32` on the static variable `crc`. -/
def rtLinkSfCrc32 (crc : BitVec 32) (bytes : List Byte) : BitVec 32 := bytes.foldl crcByte crc

/-- `rt_link_get_crc` on a part of the circular buffer. -/
def rtLinkGetCrc (b : RxBuffer) (data size : Nat) : BitVec 32 :=
  let surplus := receiveBufferLength - data
  if size ≤ surplus then rtLinkSfCrc32 0xffffffff (copyFrom b.data data size) ^^^ 0xffffffff
  else
    rtLinkSfCrc32 (rtLinkSfCrc32 0xffffffff (copyFrom b.data data surplus))
      (copyFrom b.data 0 (size - surplus)) ^^^ 0xffffffff

/-! ## The fields of a frame -/

def halfWord (bytes : List Byte) (i : Nat) : Nat :=
  (bytes.getD i 0).toNat + 2 ^ 8 * (bytes.getD (i + 1) 0).toNat

/-- The four bytes of `struct rt_link_frame_head`. -/
def parseHead (bytes : List Byte) : Head where
  extend := (bytes.getD 0 0).getLsbD 5
  crc := (bytes.getD 0 0).getLsbD 6
  ack := (bytes.getD 0 0).getLsbD 7
  sequence := (bytes.getD 1 0).toNat
  service := halfWord bytes 2 % 2 ^ 5
  length := halfWord bytes 2 / 2 ^ 5

/-- The four bytes of `struct rt_link_extend`. -/
def parseExtend (bytes : List Byte) : Extend := ⟨halfWord bytes 0, halfWord bytes 2⟩

def parseCrc (bytes : List Byte) : BitVec 32 :=
  BitVec.ofNat 32 (halfWord bytes 0 + 2 ^ 16 * halfWord bytes 2)

/-- `RT_LINK_FRAME_HEAD` under `RT_LINK_FRAME_HEAD_MASK`. -/
def isFrameHead (byte : Byte) : Bool := byte &&& 0x1f = 0x15

/-! ## The decoder -/

/-- `rt_link_frame_parse_t`. -/
inductive Status where
  | findFrameHead | parseFrameHead | parseFrameExtend | parseFrameSeq | checkFrameCrc
  | headleFrameData
  deriving DecidableEq

/-- The buffer, the session and the static variables of `rt_link_frame_check`. -/
structure Receiver where
  buffer : RxBuffer
  session : Session
  status : Status
  data : Nat
  buffLen : Nat
  head : Head
  extend : Extend
  /-- None is `RT_LINK_RESERVE_FRAME`. -/
  attr : Option Attr
  realData : Nat
  /-- The frames that have been handed to `rt_link_parse_frame`. -/
  frames : List Frame

/-- How a case of the switch ends. -/
inductive Outcome where
  | ret (x : Receiver)
  | brk (x : Receiver)
  | fall (x : Receiver)

def Outcome.andThen : Outcome → (Receiver → Outcome) → Outcome
  | .fall x, next => next x
  | o, _ => o

def shiftRead (x : Receiver) (length : Nat) : Receiver :=
  { x with buffer := { x.buffer with
    readPoint := rtLinkHwBufferPointShift x.buffer x.buffer.readPoint length } }

/-- The read point moves on by one byte, and the jump to `__find_head`. -/
def findHead (x : Receiver) : Receiver :=
  { shiftRead x 1 with
    session := rtLinkFrameStopReceive x.session
    head := ⟨false, false, false, 0, 0, 0⟩
    extend := ⟨0, 0⟩
    attr := some .resend
    realData := 0
    buffLen := headLength
    status := .findFrameHead }

/-- `FIND_FRAME_HEAD`. -/
def findFrameHead (x : Receiver) : Outcome :=
  if isFrameHead (x.buffer.data x.buffer.readPoint) then .brk { x with status := .parseFrameHead }
  else .brk (shiftRead x 1)

/-- `PARSE_FRAME_HEAD`. -/
def parseFrameHead (recvLen : Nat) (x : Receiver) : Outcome :=
  if recvLen < x.buffLen then .ret x
  else
    let head := parseHead (rtLinkHwCopy x.buffer x.buffer.readPoint headLength)
    let x := { x with
      data := rtLinkHwBufferPointShift x.buffer x.buffer.readPoint headLength
      head := head
      extend := ⟨0, 0⟩
      attr := none
      realData := 0 }
    if serviceMax ≤ head.service then .brk (findHead x)
    else if head.extend then
      .fall { x with buffLen := x.buffLen + extendLength, status := .parseFrameExtend }
    else .fall { x with attr := some .shortData, status := .parseFrameSeq }

/-- `PARSE_FRAME_EXTEND`. -/
def parseFrameExtend (recvLen : Nat) (x : Receiver) : Outcome :=
  if x.head.extend then
    if recvLen < x.buffLen then .ret x
    else
      let extend := parseExtend (rtLinkHwCopy x.buffer x.data extendLength)
      let x := { x with
        extend := extend
        data := rtLinkHwBufferPointShift x.buffer x.data extendLength }
      match Attr.ofCode extend.attr with
      | some attr => .fall { x with attr := some attr, status := .parseFrameSeq }
      | none => .brk (findHead x)
  else .fall { x with status := .parseFrameSeq }

/-- `PARSE_FRAME_SEQ`. -/
def parseFrameSeq (x : Receiver) : Outcome :=
  match x.attr with
  | none => .brk (findHead x)
  | some attr =>
    if seqAccepted x.session attr x.head.sequence then
      let x := { x with buffLen := x.buffLen + x.head.length, realData := x.data }
      if x.head.crc then
        .fall { x with buffLen := x.buffLen + crcLength, status := .checkFrameCrc }
      else .fall { x with status := .headleFrameData }
    else .brk (findHead x)

/-- `CHECK_FRAME_CRC`. -/
def checkFrameCrc (recvLen : Nat) (x : Receiver) : Outcome :=
  if x.head.crc then
    if recvLen < x.buffLen then .ret x
    else
      let x := { x with data := rtLinkHwBufferPointShift x.buffer x.data x.head.length }
      if parseCrc (rtLinkHwCopy x.buffer x.data crcLength) ≠
          rtLinkGetCrc x.buffer x.buffer.readPoint (x.buffLen - crcLength) then
        .brk (findHead x)
      else .fall { x with status := .headleFrameData }
  else .fall { x with status := .headleFrameData }

section check

variable (malloc : Nat → Option (Nat → Byte))

/-- `HEADLE_FRAME_DATA`. -/
def headleFrameData (recvLen : Nat) (x : Receiver) : Outcome :=
  if recvLen < x.buffLen then .ret x
  else
    let y := { shiftRead x x.buffLen with
      data := 0
      buffLen := headLength
      status := .findFrameHead }
    match x.attr with
    | none => .brk y
    | some attr =>
      let frame := ⟨x.head, x.extend, attr, rtLinkHwCopy x.buffer x.realData x.head.length⟩
      .brk { y with
        session := (rtLinkParseFrame malloc x.session frame (rtLinkHwRecvLen y.buffer)).1
        frames := x.frames ++ [frame] }

/-- The switch, from its six entries. -/
def switch (recvLen : Nat) (x : Receiver) : Outcome :=
  let headle := headleFrameData malloc recvLen
  let crc := fun x => (checkFrameCrc recvLen x).andThen headle
  let seq := fun x => (parseFrameSeq x).andThen crc
  let extend := fun x => (parseFrameExtend recvLen x).andThen seq
  match x.status with
  | .findFrameHead => findFrameHead x
  | .parseFrameHead => (parseFrameHead recvLen x).andThen extend
  | .parseFrameExtend => extend x
  | .parseFrameSeq => seq x
  | .checkFrameCrc => crc x
  | .headleFrameData => headle x

/-- The loop of `rt_link_frame_check`, for a number of rounds. -/
def checkLoop : Nat → Receiver → Option Receiver
  | 0, _ => none
  | rounds + 1, x =>
    if 0 < rtLinkHwRecvLen x.buffer then
      match switch malloc (rtLinkHwRecvLen x.buffer) x with
      | .ret y => some y
      | .brk y => checkLoop rounds y
      | .fall y => checkLoop rounds y
    else some x

/-- `rt_link_frame_check`; every two rounds move the read point on. -/
def rtLinkFrameCheck (x : Receiver) : Option Receiver :=
  checkLoop malloc (2 * rtLinkHwRecvLen x.buffer + 2) x

/-! ## Runs -/

inductive RxOp where
  /-- `rt_link_hw_write_cb`. -/
  | write (bytes : List Byte)
  /-- `rt_link_frame_check`. -/
  | check

/-- One step of a run in which the buffer is never filled completely. -/
def rxStep (x : Receiver) : RxOp → Option Receiver
  | .write bytes =>
    if rtLinkHwRecvLen x.buffer + bytes.length < receiveBufferLength then
      some { x with buffer := (rtLinkHwBufferWrite x.buffer bytes).1 }
    else none
  | .check => rtLinkFrameCheck malloc x

end check

/-- An empty buffer at the position `p`, before the first frame. -/
def receiver (session : Session) (memory : Nat → Byte) (p : Nat) : Receiver :=
  ⟨⟨memory, p, p⟩, session, .findFrameHead, 0, headLength, ⟨false, false, false, 0, 0, 0⟩, ⟨0, 0⟩,
    some .resend, 0, []⟩

end RtThread.RtLink
