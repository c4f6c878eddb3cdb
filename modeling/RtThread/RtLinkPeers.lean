import RtThread.Lib.Runs
import RtThread.RtLinkHw

/-!
# Two rt-link peers

Two sessions with one service that asks for acknowledgements, joined by a channel that may
lose, delay, duplicate and reorder whole frames: a frame that has been sent stays on the way
and may be delivered any number of times. A step is a call of `rt_link_send` up to its wait, a
call of `rt_link_service_attach`, the expiry of a timer, or the handling of one event or of one
frame by a link thread.

A frame whose sequence number is refused is skipped. The decoder would go on behind its first
byte, so there is no result if another byte of it looks like a frame head.

Beside the session a peer counts its sequence numbers without a bound, and keeps the messages
that it has sent, how they have ended and what `recv_cb` has been called with. A handshake that
moves `tx_seq` leaves a gap in these numbers: what has been sent before is old behind it.
-/
namespace RtThread.RtLink

open Ringbuffer (Byte)

inductive Side where
  | a | b
  deriving DecidableEq

def Side.other : Side → Side
  | .a => .b
  | .b => .a

/-- A message with the number before its first frame. -/
structure Message where
  base : Nat
  data : List Byte
  deriving DecidableEq

/-- A frame on the way, with the number of its sequence number, and for a data frame with the
number of the last frame of its message and the index of the message. -/
structure Packet where
  frame : Frame
  stamp : Nat
  last : Nat
  message : Nat
  deriving DecidableEq

structure Peer where
  session : Session
  /-- The send timer is active, and its parameter. -/
  sendActive : Bool
  sendCount : Nat
  longActive : Bool
  longExpired : Nat
  /-- The events of the link thread. -/
  ready : Bool
  timeout : Bool
  longTimeout : Bool
  /-- The number of `tx_seq`. -/
  txNum : Nat
  /-- The number of `rx_seq`. -/
  rxNum : Nat
  messages : List Message
  /-- How the messages have ended. -/
  ended : List LinkErr
  /-- The messages whose frames have been sent are among the first `started` ones. -/
  started : Nat
  /-- The calls of `recv_cb`, with the index of the message. -/
  delivered : List (Nat × List Byte)

structure World where
  peer : Side → Peer
  /-- The frames on the way to a side. -/
  net : Side → List Packet

/-- The service that both sides use; `timeout_tx` is not modelled. -/
structure Config where
  service : Nat
  crc : Bool

/-- `rt_link_init` and the attached service. -/
def initPeer (c : Config) : Peer where
  session :=
    { attached := fun s => s = c.service
      serviceState := fun _ => .init
      err := fun _ => .eok
      state := .init
      txSeq := 129
      txList := []
      rxSeq := 255
      rxTotal := 0
      longCount := 0
      dataspace := none
      ackMask := ackMax }
  sendActive := false
  sendCount := 0
  longActive := false
  longExpired := 0
  ready := false
  timeout := false
  longTimeout := false
  txNum := 129 + 2 ^ 8
  rxNum := 255
  messages := []
  ended := []
  started := 0
  delivered := []

def init (c : Config) : World := ⟨fun _ => initPeer c, fun _ => []⟩

/-! ## Effects -/

/-- A frame that a peer sends: a queued data frame with its own numbers, a command with the number
that has been received last. -/
def packet (x : Peer) (f : Frame) : Packet :=
  match f.attr with
  | .shortData | .longData =>
    let i := x.session.txList.findIdx fun g => g.head.sequence = f.head.sequence
    let stamp := x.txNum - x.session.txList.length + 1 + i
    match x.session.txList[i]? with
    | some g => ⟨f, stamp, stamp - (g.index + 1) + g.total, x.ended.length⟩
    | none => ⟨f, 0, 0, 0⟩
  | _ => ⟨f, x.rxNum, 0, 0⟩

/-- What an effect does to the peer; `message` is the index of the message that is received. -/
def applyEffect (message : Nat) (x : Peer) : Effect → Peer
  | .send _ => x
  | .received _ data => { x with delivered := x.delivered ++ [(message, data)] }
  | .finished _ err => { x with ended := x.ended ++ [err] }
  | .sendReady => { x with ready := true }
  | .stopSendTimer => { x with sendActive := false }
  | .startSendTimer => { x with sendActive := true }
  | .clearSendCount => { x with sendCount := 0 }
  | .stopLongTimer => { x with longActive := false }
  | .startLongTimer => { x with longActive := true }

def sentFrames : List Effect → List Frame
  | [] => []
  | .send f :: es => f :: sentFrames es
  | _ :: es => sentFrames es

def isReceived : Effect → Bool
  | .received _ _ => true
  | _ => false

/-- The effects of a peer, and the packets it sends. -/
def perform (message : Nat) (x : Peer) (effects : List Effect) : Peer × List Packet :=
  (effects.foldl (applyEffect message) x, (sentFrames effects).map (packet x))

/-! ## Sending -/

/-- The number of frames of a message. -/
def frameCount (size : Nat) : Nat :=
  if size % maxDataLength = 0 then size / maxDataLength else size / maxDataLength + 1

/-- A frame of a message, as `rt_link_send` queues it. -/
def messageFrame (c : Config) (m : Message) (i : Nat) : SendFrame :=
  let total := frameCount m.data.length
  { head :=
      { extend := 1 < total
        crc := c.crc
        ack := true
        sequence := (m.base + 1 + i) % 2 ^ 8
        service := c.service
        length := 0 }
    extend := if 1 < total then ⟨Attr.longData.code, m.data.length⟩ else ⟨0, 0⟩
    attr := if 1 < total then .longData else .shortData
    data := (m.data.drop (maxDataLength * i)).take maxDataLength
    issent := false
    index := i
    total := total }

def messageFrames (c : Config) (m : Message) : List SendFrame :=
  (List.range (frameCount m.data.length)).map (messageFrame c m)

/-- The loop of `rt_link_send`: there is memory for the first `count` frames. -/
def queueFrames (c : Config) (x : Peer) (m : Message) (count : Nat) : Peer :=
  { x with
    session := { x.session with
      txSeq := wadd 8 x.session.txSeq count
      txList := x.session.txList ++ (messageFrames c m).take count }
    txNum := x.txNum + count }

/-- `rt_link_send` up to its wait. It ends with `RT_LINK_ENOMEM` without memory for a frame, and
leaves the frames before it in the list. -/
def rtLinkSend (c : Config) (x : Peer) (data : List Byte) (memory : Nat) : Peer :=
  let total := frameCount data.length
  let m : Message := ⟨x.txNum, data⟩
  if data = [] ∨ framesMax < total then x
  else if memory < total then queueFrames c x m memory
  else { queueFrames c x m total with ready := true, messages := x.messages ++ [m] }

/-- The loop of `rt_link_frame_send`: the queue with its flags, the frames sent, and whether all of
them could be sent. -/
def frameSendLoop (io : Nat → Bool) (sendMax : Nat) :
    List SendFrame → List SendFrame × List SendFrame × Bool
  | [] => ([], [], true)
  | f :: l =>
    if io f.index = false then (f :: l, [], false)
    else if l = [] ∨ f.total ≤ f.index + 1 ∨ sendMax / 2 = 0 then
      ({ f with issent := true } :: l, [f], true)
    else
      let r := frameSendLoop io (sendMax / 2) l
      ({ f with issent := true } :: r.1, f :: r.2.1, r.2.2)

/-- `rt_link_service_send_finish` outside of the handlers. -/
def finish (x : Peer) (err : LinkErr) : Peer :=
  let r := rtLinkServiceSendFinish x.session err
  (perform 0 { x with session := r.1 } r.2).1

/-- `rt_link_frame_send` and the end of `rt_link_send_ready`; every frame asks for an
acknowledgement. -/
def rtLinkFrameSend (x : Peer) (io : Nat → Bool) : Peer × List Packet :=
  let r := frameSendLoop io ackMax x.session.txList
  let y := { x with
    session := { x.session with txList := r.1 }
    started := x.ended.length + 1 }
  let packets := r.2.1.map fun f => packet y f.wire
  if r.2.2 then ({ y with sendActive := true }, packets)
  else (finish { y with session := { y.session with state := .disconn } } .eio, packets)

/-- `rt_link_send_ready`. -/
def rtLinkSendReady (x : Peer) (io : Nat → Bool) : Peer × List Packet :=
  if x.session.state ≠ .connect then
    ({ x with session := { x.session with state := .disconn }, sendActive := true },
      [packet x (commandFrame serviceRtlink x.session.txSeq .handshake x.session.rxSeq)])
  else
    match x.session.txList with
    | [] => (x, [])
    | f :: _ => if f.issent then (x, []) else rtLinkFrameSend x io

/-- `rt_link_send_timeout`. -/
def rtLinkSendTimeout (x : Peer) : Peer × List Packet :=
  if 5 ≤ x.sendCount then (finish { x with sendActive := false, sendCount := 0 } .etimeout, [])
  else
    match x.session.txList with
    | [] => (x, [])
    | f :: l =>
      ({ x with session := { x.session with txList := { f with issent := false } :: l } },
        [packet x (commandFrame serviceRtlink f.head.sequence .handshake x.session.rxSeq)])

/-- The resend requests of `rt_link_long_recv_timeout`, from the last frame on. -/
def resendRequests (s : Session) : Nat → List Frame
  | 0 => []
  | n + 1 =>
    (if s.longCount.testBit n then []
      else [commandFrame serviceRtlink (s.rxSeq + (n + 1)) .resend 0]) ++ resendRequests s n

/-- `rt_link_long_recv_timeout`. -/
def rtLinkLongRecvTimeout (x : Peer) : Peer × List Packet :=
  if 5 ≤ x.longExpired then
    ({ x with
        session := rtLinkFrameStopReceive x.session
        longActive := false
        longExpired := 0 }, [])
  else (x, (resendRequests x.session x.session.rxTotal).map (packet x))

/-- The handshake of `rt_link_service_attach`. -/
def rtLinkServiceAttach (c : Config) (x : Peer) : Peer × List Packet :=
  let seq := match x.session.txList with
    | [] => x.session.txSeq
    | f :: _ => f.head.sequence
  ({ x with session := { x.session with
      serviceState := Function.update x.session.serviceState c.service .init } },
    [packet x (commandFrame c.service seq .handshake x.session.rxSeq)])

/-! ## Receiving -/

/-- The bytes of a frame behind its first one, without the checksum. -/
def tailBytes (f : Frame) : List Byte :=
  let word (n : Nat) : List Byte := [BitVec.ofNat 8 n, BitVec.ofNat 8 (n / 2 ^ 8)]
  BitVec.ofNat 8 f.head.sequence :: word (f.head.service + 2 ^ 5 * f.head.length) ++
    (if f.head.extend then word f.extend.attr ++ word f.extend.parameter else []) ++ f.payload

/-- A frame that is accepted. -/
def handle (malloc : Nat → Option (Nat → Byte)) (x : Peer) (p : Packet) (recvLen : Nat) :
    Peer × List Packet :=
  let r := rtLinkParseFrame malloc x.session p.frame recvLen
  let y := { x with
    session := r.1
    rxNum := if r.2.any isReceived then p.last else x.rxNum }
  perform p.message y r.2

/-- The numbers behind a handshake that the side `y` has requested and the side `x` handles: they
change with the sequence numbers of `x`. -/
def resync (x y : Peer) (f : Frame) : Peer × Peer :=
  let toX := if f.head.sequence = x.session.rxSeq then x.rxNum else y.txNum
  let toY := y.rxNum + 2 ^ 8 * (x.txNum + 2)
  if f.extend.parameter % 2 ^ 8 = x.session.txSeq then ({ x with rxNum := toX }, y)
  else ({ x with rxNum := toX, txNum := toY }, { y with rxNum := toY })

/-- The steps of a run. -/
inductive LinkOp where
  | attach (x : Side)
  | send (x : Side) (data : List Byte) (memory : Nat)
  /-- The link thread handles the frame `i` on the way to its side. -/
  | deliver (x : Side) (i recvLen : Nat) (malloc : Nat → Option (Nat → Byte))
  | sendTimer (x : Side)
  | longTimer (x : Side)
  | ready (x : Side) (io : Nat → Bool)
  | timeout (x : Side)
  | longTimeout (x : Side)

/-- A side has made a step and sends packets to the other side. -/
def put (w : World) (x : Side) (r : Peer × List Packet) : World where
  peer := Function.update w.peer x r.1
  net := Function.update w.net x.other (w.net x.other ++ r.2)

def linkDeliver (malloc : Nat → Option (Nat → Byte)) (w : World) (x : Side) (p : Packet)
    (recvLen : Nat) : Option World :=
  if seqAccepted (w.peer x).session p.frame.attr p.frame.head.sequence then
    if p.frame.attr = .handshake then
      let r := resync (w.peer x) (w.peer x.other) p.frame
      let w := { w with peer := Function.update w.peer x.other r.2 }
      some (put w x (handle malloc r.1 p recvLen))
    else some (put w x (handle malloc (w.peer x) p recvLen))
  else if (tailBytes p.frame).all fun b => !isFrameHead b then
    some (put w x ({ w.peer x with session := rtLinkFrameStopReceive (w.peer x).session }, []))
  else none

/-- The number of frames of a message is a byte in `rt_link_send`: a larger one has no result. -/
def linkStep (c : Config) (w : World) : LinkOp → Option World
  | .attach x => some (put w x (rtLinkServiceAttach c (w.peer x)))
  | .send x data memory =>
    if frameCount data.length < 2 ^ 8 then some (put w x (rtLinkSend c (w.peer x) data memory, []))
    else none
  | .deliver x i recvLen malloc =>
    (w.net x)[i]?.bind fun p => linkDeliver malloc w x p recvLen
  | .sendTimer x =>
    if (w.peer x).sendActive then
      some (put w x ({ w.peer x with
        sendCount := (w.peer x).sendCount + 1
        timeout := true }, []))
    else none
  | .longTimer x =>
    if (w.peer x).longActive then
      some (put w x ({ w.peer x with
        longExpired := (w.peer x).longExpired + 1
        longTimeout := true }, []))
    else none
  | .ready x io =>
    if (w.peer x).ready then some (put w x (rtLinkSendReady { w.peer x with ready := false } io))
    else none
  | .timeout x =>
    if (w.peer x).timeout then
      some (put w x (rtLinkSendTimeout { w.peer x with timeout := false }))
    else none
  | .longTimeout x =>
    if (w.peer x).longTimeout then
      some (put w x (rtLinkLongRecvTimeout { w.peer x with longTimeout := false }))
    else none

end RtThread.RtLink
