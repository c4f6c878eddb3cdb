import Mathlib.Logic.Function.Iterate
import RtThread.Lib.Channels

/-!
# YMODEM

`rym_recv_on_device` and `rym_send_on_device` of `ymodem.c` as two processes that are joined by two
channels. A state is the place a side has reached in its functions, with the variables that are
live there. The callbacks are those of the caller, and a wait may end by its time limit whenever
its character is not there yet. The receiver's `received` is a history variable: the blocks that
its `on_data` was given.
-/
namespace RtThread.Ymodem

open Channels

abbrev Byte := BitVec 8

/-! ## `enum rym_code` and the error codes -/

def rymCodeSoh : Byte := 0x01
def rymCodeStx : Byte := 0x02
def rymCodeEot : Byte := 0x04
def rymCodeAck : Byte := 0x06
def rymCodeNak : Byte := 0x15
def rymCodeCan : Byte := 0x18
def rymCodeC : Byte := 0x43

def rymEndSessionSendCanNum : Nat := 7

inductive RymErr where
  | eok | errTmo | errCode | errSeq | errCrc | errDsz | errCan | errAck
  deriving DecidableEq

/-! ## Packets -/

/-- One of the eight turns of `CRC16` for a byte. -/
def crcBit (crc : BitVec 16) : BitVec 16 :=
  if crc &&& 0x8000 ≠ 0 then crc <<< 1 ^^^ 0x1021 else crc <<< 1

def crcByte (crc : BitVec 16) (q : Byte) : BitVec 16 :=
  crcBit^[8] (crc ^^^ q.setWidth 16 <<< 8)

/-- `CRC16`. -/
def crc16 (q : List Byte) : BitVec 16 := q.foldl crcByte 0

/-- The 128 bytes that a callback of the sender fills. -/
structure Block where
  bytes : List Byte
  size : bytes.length = 128

/-- The bytes that `_rym_send_packet` writes behind the code. -/
def packetRest (index : Byte) (block : Block) : List Byte :=
  index :: ~~~index :: (block.bytes ++
    [(crc16 block.bytes >>> 8).setWidth 8, (crc16 block.bytes).setWidth 8])

/-- `_rym_send_packet`. -/
def sendPacket (code index : Byte) (block : Block) : List Byte := code :: packetRest index block

/-- The checksum that a packet carries, where `buf` is read behind the code. -/
def recvCrc (size : Nat) (buf : List Byte) : BitVec 16 :=
  (buf.getD (size + 2) 0).setWidth 16 <<< 8 ||| (buf.getD (size + 3) 0).setWidth 16

def packetData (size : Nat) (buf : List Byte) : List Byte := (buf.drop 2).take size

/-! ## The callbacks -/

/-- What a call of the sender's `on_data` does: it fills a block, returns a code, and may set the
stage to `RYM_STAGE_FINISHING`. -/
structure Fill where
  block : Block
  code : Byte
  finishing : Bool

/-- The callbacks of the sender; `onData` is given the number of its earlier calls. -/
structure SendCallbacks where
  onBegin : Block × Byte
  onData : Nat → Fill
  onEnd : Block × Byte

/-- The callbacks of the receiver; `onData` is given the blocks of its earlier calls. -/
structure RecvCallbacks where
  onBegin : List Byte → Byte
  onData : List (List Byte) → List Byte → Byte

/-- The two calls with their handshake timeouts. -/
structure Session where
  sendTm : Nat
  recvTm : Nat
  send : SendCallbacks
  recv : RecvCallbacks

/-! ## The sender -/

inductive Send where
  | handshake (i : Nat)
  | packetZero
  | zeroAck
  | zeroC
  | trans (index : Nat)
  | transAck (index : Nat) (finishing : Bool)
  | fin
  | finNak
  | finAgain
  | finAck
  | finC
  | packetNull
  | ret (err : RymErr)
  deriving DecidableEq

/-- `_rym_getchar`, and the state behind it where it returns this character. -/
def getchar (code : Byte) (next : Send) : Action Send Byte RymErr :=
  .read (fun c => if c = code then next else .ret .errAck) none

/-- `_rym_do_send_handshake`, `_rym_do_send_trans` and `_rym_do_send_fin`. -/
def doSend (s : Session) : Send → Action Send Byte RymErr
  | .handshake i =>
    if i = s.sendTm then .done .errTmo
    else
      .read (fun code => if code = rymCodeC then .packetZero else .handshake (i + 1))
        (some (.handshake (i + 1)))
  | .packetZero =>
    if s.send.onBegin.2 ≠ rymCodeSoh then .done .errCode
    else .write (sendPacket rymCodeSoh 0 s.send.onBegin.1) .zeroAck
  | .zeroAck => getchar rymCodeAck .zeroC
  | .zeroC => getchar rymCodeC (.trans 1)
  | .trans index =>
    let fill := s.send.onData (index - 1)
    if fill.code ≠ rymCodeSoh then .done .errCode
    else
      .write (sendPacket rymCodeSoh (BitVec.ofNat 8 index) fill.block)
        (.transAck (index + 1) fill.finishing)
  | .transAck index finishing => getchar rymCodeAck (if finishing then .fin else .trans index)
  | .fin => .write [rymCodeEot] .finNak
  | .finNak => getchar rymCodeNak .finAgain
  | .finAgain => .write [rymCodeEot] .finAck
  | .finAck => getchar rymCodeAck .finC
  | .finC => getchar rymCodeC .packetNull
  | .packetNull =>
    if s.send.onEnd.2 ≠ rymCodeSoh then .done .errCode
    else .write (sendPacket rymCodeSoh 0 s.send.onEnd.1) (.ret .eok)
  | .ret err => .done err

/-! ## The receiver -/

/-- What a packet is read for. `established` is whether the stage is `RYM_STAGE_ESTABLISHED`. -/
inductive Part where
  | handshake (size : Nat)
  | trans (established : Bool) (size : Nat)
  | fin
  deriving DecidableEq

/-- The last packet is read as one of 128 bytes whatever its code is. -/
def Part.size : Part → Nat
  | .handshake size => size
  | .trans _ size => size
  | .fin => 128

inductive Stage where
  | handshake (i : Nat)
  | handshakeCode (i : Nat)
  | trans
  | transCode (established : Bool)
  | transReply (established : Bool) (code : Byte)
  | fin
  | finEot
  | finAck
  | finCode
  | finLast
  | packet (part : Part) (buf : List Byte)
  | ret (err : RymErr)
  deriving DecidableEq

structure Recv where
  stage : Stage
  received : List (List Byte)
  deriving DecidableEq

def Recv.enter (r : Recv) (stage : Stage) : Recv := { r with stage := stage }

/-- The checks behind `_rym_read_data`, and the callback. -/
def checkPacket (s : Session) (received : List (List Byte)) (buf : List Byte) : Part → Recv
  | .handshake size =>
    if buf.getD 0 0 ≠ 0 ∨ buf.getD 1 0 ≠ 0xFF then ⟨.ret .errSeq, received⟩
    else if recvCrc size buf ≠ crc16 (packetData size buf) then ⟨.ret .errCrc, received⟩
    else if s.recv.onBegin (packetData size buf) ≠ rymCodeAck then ⟨.ret .errCan, received⟩
    else ⟨.trans, received⟩
  | .trans established size =>
    if (buf.getD 0 0).toNat + (buf.getD 1 0).toNat ≠ 0xFF then ⟨.ret .errSeq, received⟩
    else if established = true ∧ buf.getD 0 0 = 0 then ⟨.transCode established, received⟩
    else if recvCrc size buf ≠ crc16 (packetData size buf) then ⟨.ret .errCrc, received⟩
    else
      ⟨.transReply false (s.recv.onData received (packetData size buf)),
        received ++ [packetData size buf]⟩
  | .fin =>
    if buf.getD 0 0 ≠ 0 ∨ buf.getD 1 0 ≠ 0xFF then ⟨.ret .errSeq, received⟩
    else if recvCrc 128 buf ≠ crc16 (packetData 128 buf) then ⟨.ret .errCrc, received⟩
    else if (packetData 128 buf).getD 0 0 ≠ 0 then
      if s.recv.onBegin (packetData 128 buf) ≠ rymCodeAck then ⟨.ret .errCan, received⟩
      else ⟨.trans, received⟩
    else ⟨.finLast, received⟩

/-- `_rym_do_handshake`, `_rym_do_trans` and `_rym_do_fin`, which ignores what `on_end` returns. -/
def doRecv (s : Session) (r : Recv) : Action Recv Byte RymErr :=
  match r.stage with
  | .handshake i =>
    if i = s.recvTm then .done .errTmo else .write [rymCodeC] (r.enter (.handshakeCode i))
  | .handshakeCode i =>
    .read (fun code =>
        if code = rymCodeSoh then r.enter (.packet (.handshake 128) [])
        else if code = rymCodeStx then r.enter (.packet (.handshake 1024) [])
        else r.enter (.handshake (i + 1)))
      (some (r.enter (.handshake (i + 1))))
  | .trans => .write [rymCodeAck, rymCodeC] (r.enter (.transCode true))
  | .transCode established =>
    .read (fun code =>
        if code = rymCodeSoh then r.enter (.packet (.trans established 128) [])
        else if code = rymCodeStx then r.enter (.packet (.trans established 1024) [])
        else if code = rymCodeEot then r.enter .fin
        else r.enter (.ret .errCode))
      (some (r.enter (.ret .errCode)))
  | .transReply established code =>
    if code = rymCodeCan then
      .write (List.replicate rymEndSessionSendCanNum rymCodeCan) (r.enter (.ret .errCan))
    else .write (if code = rymCodeAck then [rymCodeAck] else []) (r.enter (.transCode established))
  | .fin => .write [rymCodeNak] (r.enter .finEot)
  | .finEot =>
    .read (fun code => if code = rymCodeEot then r.enter .finAck else r.enter (.ret .errCode))
      (some (r.enter (.ret .errCode)))
  | .finAck => .write [rymCodeAck, rymCodeC] (r.enter .finCode)
  | .finCode =>
    .read (fun code =>
        if code = rymCodeSoh ∨ code = rymCodeStx then r.enter (.packet .fin [])
        else r.enter (.ret .errCode))
      (some (r.enter (.ret .errCode)))
  | .finLast => .write [rymCodeAck] (r.enter (.ret .eok))
  | .packet part buf =>
    .read (fun c =>
        if buf.length + 1 < part.size + 4 then r.enter (.packet part (buf ++ [c]))
        else checkPacket s r.received (buf ++ [c]) part)
      (some (r.enter (.ret .errDsz)))
  | .ret err => .done err

/-! ## A session -/

def step (s : Session) : Net Send Recv Byte → Event → Option (Net Send Recv Byte) :=
  Channels.step (doSend s) (doRecv s)

def start : Net Send Recv Byte := ⟨.handshake 0, ⟨.handshake 0, []⟩, [], []⟩

end RtThread.Ymodem
