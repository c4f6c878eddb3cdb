import RtThread.Ringbuffer

/-!
# The session of rt-link

What `rtlink.c` does with a frame that has been received: the check of its sequence number in
`rt_link_frame_check`, and the handlers of `rt_link_parse_frame`. A handler changes the session
and returns, in order, what it does outside of it: the frames it sends, the calls of `recv_cb`,
the messages it ends, and what it does to the event of the link thread and to the timers.

Sequence numbers are bytes. `rt_malloc` is given by the contents of the block for a size, if
there is one. The services are attached before, and every queued frame belongs to one of them.
-/
namespace RtThread.RtLink

open Ringbuffer (Byte)

/-- `rt_link_frame_attr_e` up to `RT_LINK_RESERVE_FRAME`. -/
inductive Attr where
  | resend | confirm | handshake | detach | sessionEnd | longData | shortData
  deriving DecidableEq

def Attr.code : Attr → Nat
  | .resend => 0
  | .confirm => 1
  | .handshake => 2
  | .detach => 3
  | .sessionEnd => 4
  | .longData => 5
  | .shortData => 6

/-- The attribute of a code below `RT_LINK_RESERVE_FRAME`. -/
def Attr.ofCode : Nat → Option Attr
  | 0 => some .resend
  | 1 => some .confirm
  | 2 => some .handshake
  | 3 => some .detach
  | 4 => some .sessionEnd
  | 5 => some .longData
  | 6 => some .shortData
  | _ => none

/-- `struct rt_link_frame_head` without the magic number. -/
structure Head where
  extend : Bool
  crc : Bool
  ack : Bool
  sequence : Nat
  service : Nat
  length : Nat
  deriving DecidableEq

structure Extend where
  attr : Nat
  parameter : Nat
  deriving DecidableEq

/-- A frame with its payload, as it is sent and as it is handed to `rt_link_parse_frame`. -/
structure Frame where
  head : Head
  extend : Extend
  attr : Attr
  payload : List Byte
  deriving DecidableEq

/-- A frame in `tx_data_slist`. -/
structure SendFrame where
  head : Head
  extend : Extend
  attr : Attr
  data : List Byte
  issent : Bool
  index : Nat
  total : Nat
  deriving DecidableEq

inductive LinkState where
  | init | disconn | connect
  deriving DecidableEq

/-- The values of `rt_link_err_e` that a message can end with. -/
inductive LinkErr where
  | eok | etimeout | eio
  deriving DecidableEq

/-- `RT_LINK_FRAMES_MAX`. -/
def framesMax : Nat := 3

/-- `RT_LINK_MAX_DATA_LENGTH`. -/
def maxDataLength : Nat := 1012

/-- `RT_LINK_SERVICE_MAX`. -/
def serviceMax : Nat := 5

/-- `RT_LINK_ACK_MAX`. -/
def ackMax : Nat := 7

/-- `RT_LINK_SERVICE_RTLINK`. -/
def serviceRtlink : Nat := 0

structure Session where
  attached : Nat → Bool
  /-- `state` of the services. -/
  serviceState : Nat → LinkState
  err : Nat → LinkErr
  state : LinkState
  txSeq : Nat
  txList : List SendFrame
  rxSeq : Nat
  rxTotal : Nat
  longCount : Nat
  dataspace : Option (Nat → Byte)
  /-- The static variable of `_long_handle_second`. -/
  ackMask : Nat

/-- What a handler does outside of the session. -/
inductive Effect where
  | send (frame : Frame)
  | received (service : Nat) (data : List Byte)
  | finished (service : Nat) (err : LinkErr)
  /-- `RT_LINK_SEND_READY_EVENT`. -/
  | sendReady
  | stopSendTimer | startSendTimer
  /-- `sendtimer.parameter` is set to zero. -/
  | clearSendCount
  | stopLongTimer | startLongTimer
  deriving DecidableEq

/-- `rt_link_check_seq`. -/
def rtLinkCheckSeq (new used : Nat) : Nat := wsub 8 new used

/-- `rt_link_utils_num1`, whose loop clears one of at most 32 bits in every round. -/
def num1Loop : Nat → Nat → Nat
  | 0, _ => 0
  | rounds + 1, n => if n = 0 then 0 else num1Loop rounds (n &&& (n - 1)) + 1

def rtLinkUtilsNum1 (n : Nat) : Nat := num1Loop 32 n

/-! ## Sending -/

/-- `rt_link_command_frame_send`. -/
def commandFrame (serv sequence : Nat) (attr : Attr) (parameter : Nat) : Frame :=
  ⟨⟨true, false, false, sequence % 2 ^ 8, serv, 0⟩, ⟨attr.code, parameter⟩, attr, []⟩

/-- The frame that `frame_send` puts on the wire. -/
def SendFrame.wire (f : SendFrame) : Frame :=
  ⟨{ f.head with length := f.data.length }, f.extend, f.attr, f.data⟩

/-- The loop of `rt_link_frame_remove`, with the number of frames that are left to remove. -/
def removeFrames (service : Nat) : Nat → List SendFrame → List SendFrame
  | 0, l => l
  | _ + 1, [] => []
  | n + 1, f :: l =>
    if f.head.service = service then removeFrames service n l
    else f :: removeFrames service (n + 1) l

/-- `rt_link_service_send_finish`. -/
def rtLinkServiceSendFinish (s : Session) (err : LinkErr) : Session × List Effect :=
  match s.txList with
  | [] => (s, [])
  | f :: _ =>
    ({ s with
        err := Function.update s.err f.head.service err
        txList := removeFrames f.head.service f.total s.txList },
      [.clearSendCount, .finished f.head.service err])

/-! ## The handlers -/

/-- `rt_link_resend_handle`. -/
def rtLinkResendHandle (s : Session) (f : Frame) : Session × List Effect :=
  match s.txList.find? (fun g => g.head.sequence = f.head.sequence) with
  | some g => (s, [.send g.wire])
  | none => (s, [.send (commandFrame f.head.service f.head.sequence .sessionEnd 0)])

/-- The wake-up of the link thread while there are frames to send. -/
def sendReadyIfQueued (s : Session) : List Effect :=
  if s.txList = [] then [] else [.sendReady]

/-- `rt_link_confirm_handle`. -/
def rtLinkConfirmHandle (s : Session) (f : Frame) : Session × List Effect :=
  let s := if s.attached f.head.service then
      { s with serviceState := Function.update s.serviceState f.head.service .connect }
    else s
  if s.state ≠ .connect then
    ({ s with state := .connect }, .stopSendTimer :: sendReadyIfQueued s)
  else
    match s.txList with
    | [] => (s, [.stopSendTimer])
    | g :: _ =>
      if rtLinkCheckSeq f.head.sequence g.head.sequence ≤ g.total then
        let r := rtLinkServiceSendFinish s .eok
        (r.1, .stopSendTimer :: r.2 ++ sendReadyIfQueued r.1)
      else (s, [.stopSendTimer])

/-- `rt_link_recv_finish`. -/
def rtLinkRecvFinish (s : Session) (serv : Nat) (data : List Byte) : List Effect :=
  if s.attached serv then [.received serv data] else [.send (commandFrame serv 0 .detach 0)]

/-- `rt_link_short_handle`. -/
def rtLinkShortHandle (malloc : Nat → Option (Nat → Byte)) (s : Session) (f : Frame) :
    Session × List Effect :=
  if (malloc f.head.length).isSome then
    ({ s with rxSeq := f.head.sequence, dataspace := none },
      (if f.head.ack then [.send (commandFrame f.head.service f.head.sequence .confirm 0)]
        else []) ++ rtLinkRecvFinish s f.head.service f.payload)
  else ({ s with dataspace := none }, [])

/-- `_long_handle_first`. -/
def longHandleFirst (malloc : Nat → Option (Nat → Byte)) (s : Session) (f : Frame) : Session :=
  { s with
    rxTotal :=
      if f.extend.parameter % maxDataLength = 0 then f.extend.parameter / maxDataLength
      else f.extend.parameter / maxDataLength + 1
    dataspace := malloc f.extend.parameter }

/-- `_long_handle_second`; `recvLen` is the length of what is left in the receive buffer. -/
def longHandleSecond (s : Session) (f : Frame) (recvLen : Nat) : Session × List Effect :=
  let index := wsub 8 (rtLinkCheckSeq f.head.sequence s.rxSeq) 1
  if framesMax < index ∨ s.longCount.testBit index then (s, [])
  else
    match s.dataspace with
    | none => (s, [])
    | some space =>
      let count := s.longCount ||| 1 <<< index
      let space := Ringbuffer.copyTo space (maxDataLength * index) f.payload
      let complete := rtLinkUtilsNum1 count = s.rxTotal
      let groupAck := count &&& s.ackMask = s.ackMask
      let confirm (n : Nat) : List Effect :=
        [.send (commandFrame f.head.service (s.rxSeq + n) .confirm 0)]
      let acks := if f.head.ack then
          if complete then confirm s.rxTotal
          else if groupAck then confirm (rtLinkUtilsNum1 s.ackMask) else []
        else []
      let ackMask := if f.head.ack ∧ ¬ complete ∧ groupAck then
          (s.ackMask ||| s.ackMask <<< rtLinkUtilsNum1 ackMax) % 2 ^ 8
        else s.ackMask
      if complete then
        ({ s with
            rxSeq := wadd 8 s.rxSeq s.rxTotal
            dataspace := none
            longCount := 0
            rxTotal := 0
            ackMask := ackMax },
          acks ++ .stopLongTimer ::
            rtLinkRecvFinish s f.head.service (Ringbuffer.copyFrom space 0 f.extend.parameter))
      else
        ({ s with longCount := count, dataspace := some space, ackMask := ackMask },
          acks ++ if recvLen < f.head.length % maxDataLength then [.startLongTimer] else [])

/-- `rt_link_long_handle`. -/
def rtLinkLongHandle (malloc : Nat → Option (Nat → Byte)) (s : Session) (f : Frame)
    (recvLen : Nat) : Session × List Effect :=
  let s := if s.longCount = 0 then longHandleFirst malloc s f else s
  if 0 < s.rxTotal then longHandleSecond s f recvLen else (s, [])

/-- `rt_link_handshake_handle`. -/
def rtLinkHandshakeHandle (s : Session) (f : Frame) : Session × List Effect :=
  let s := { s with
    state := .connect
    rxSeq := f.head.sequence
    txSeq := f.extend.parameter % 2 ^ 8 }
  if s.attached f.head.service then
    ({ s with serviceState := Function.update s.serviceState f.head.service .connect },
      [.send (commandFrame f.head.service f.head.sequence .confirm 0)])
  else (s, [.send (commandFrame f.head.service f.head.sequence .detach 0)])

/-- `rt_link_detach_handle`. -/
def rtLinkDetachHandle (s : Session) (f : Frame) : Session :=
  if s.attached f.head.service then
    { s with serviceState := Function.update s.serviceState f.head.service .disconn }
  else s

/-- `rt_link_frame_stop_receive`. -/
def rtLinkFrameStopReceive (s : Session) : Session :=
  { s with dataspace := none, longCount := 0, rxTotal := 0 }

/-- `rt_link_parse_frame`. -/
def rtLinkParseFrame (malloc : Nat → Option (Nat → Byte)) (s : Session) (f : Frame)
    (recvLen : Nat) : Session × List Effect :=
  match f.attr with
  | .resend => rtLinkResendHandle s f
  | .confirm => rtLinkConfirmHandle s f
  | .handshake => rtLinkHandshakeHandle s f
  | .sessionEnd => (rtLinkFrameStopReceive s, [])
  | .detach => (rtLinkDetachHandle s f, [])
  | .shortData => rtLinkShortHandle malloc s f
  | .longData => rtLinkLongHandle malloc s f recvLen

/-- The check of the sequence number in `PARSE_FRAME_SEQ`. -/
def seqAccepted (s : Session) (attr : Attr) (sequence : Nat) : Bool :=
  match attr with
  | .confirm | .resend =>
    match s.txList with
    | [] => true
    | g :: _ => rtLinkCheckSeq sequence s.txSeq ≤ g.total
  | .longData | .shortData | .sessionEnd =>
    wsub 8 (rtLinkCheckSeq sequence s.rxSeq) 1 ≤ framesMax
  | .handshake | .detach => true

/-- The length of the receive buffer matters to the timer for long frames only. -/
theorem longHandleSecond_session (s : Session) (f : Frame) (n m : Nat) :
    (longHandleSecond s f n).1 = (longHandleSecond s f m).1 := by
  unfold longHandleSecond
  dsimp only
  split
  · rfl
  · cases s.dataspace with
    | none => rfl
    | some space =>
      dsimp only
      split
      · rfl
      · rfl

theorem rtLinkParseFrame_session (malloc : Nat → Option (Nat → Byte)) (s : Session) (f : Frame)
    (n m : Nat) : (rtLinkParseFrame malloc s f n).1 = (rtLinkParseFrame malloc s f m).1 := by
  unfold rtLinkParseFrame
  cases f.attr with
  | longData =>
    unfold rtLinkLongHandle
    dsimp only
    generalize (if s.longCount = 0 then longHandleFirst malloc s f else s) = s'
    split
    · exact longHandleSecond_session s' f n m
    · rfl
  | _ => rfl

end RtThread.RtLink
