import Mathlib.Data.List.Infix
import RtThread.RtDef

/-!
# The client of AT commands

`at_recv_readline`, `client_parser`, `at_obj_exec_cmd` and `at_resp_get_line` of `at_client.c`.
The parser takes the bytes of the device one by one; what a URC does is not part of the client.
A buffer is the list of the bytes that are in it, and is filled with zeros behind them. The fields
`raw` and `lines` are history variables that no function reads: the bytes of the line that is
read, and the lines that have ended since the command.
-/
namespace RtThread.AtClient

abbrev Byte := BitVec 8

def cr : Byte := 13

def lf : Byte := 10

/-- The bytes of a string constant. -/
def bytes (s : String) : List Byte := s.toList.map fun ch => BitVec.ofNat 8 ch.toNat

/-- The characters of a string that is read up to its NUL. -/
def cString (buf : List Byte) : List Byte := buf.takeWhile (· ≠ 0)

/-- `struct at_urc`, without its function. -/
structure Urc where
  cmdPrefix : List Byte
  cmdSuffix : List Byte

/-- `struct at_client`, as far as it stays as it is: `urcs` are the objects of all tables. -/
structure Client where
  cli : Bool
  endSign : Byte
  recvBufsz : Nat
  urcs : List Urc

inductive RespStatus where
  | ok | error | timeout | buffFull
  deriving DecidableEq

/-- `struct at_response`: `buf` holds its first `buf_len` bytes. -/
structure Response where
  bufSize : Nat
  lineNum : Nat
  lineCounts : Nat
  buf : List Byte
  deriving DecidableEq

/-- The variables of `at_recv_readline`. -/
structure Reader where
  recvLineBuf : List Byte
  lastCh : Byte
  isFull : Bool
  raw : List Byte
  deriving DecidableEq

def Reader.fresh : Reader := ⟨[], 0, false, []⟩

/-- `waiting` is whether the response of the client is not null. -/
structure State where
  reader : Reader
  resp : Response
  waiting : Bool
  respStatus : RespStatus
  lines : List (List Byte)
  deriving DecidableEq

/-- `get_urc_obj`. -/
def getUrcObj (c : Client) (buffer : List Byte) : Option Urc :=
  c.urcs.find? fun urc =>
    decide (urc.cmdPrefix.length + urc.cmdSuffix.length ≤ buffer.length) &&
      urc.cmdPrefix.isPrefixOf buffer && urc.cmdSuffix.isSuffixOf buffer

/-- One turn of `at_recv_readline`, and whether the line ends there. -/
def readByte (c : Client) (r : Reader) (ch : Byte) : Reader × Bool :=
  let r :=
    if r.recvLineBuf.length < c.recvBufsz then
      { r with recvLineBuf := r.recvLineBuf ++ [ch], raw := r.raw ++ [ch] }
    else { r with isFull := true, raw := r.raw ++ [ch] }
  if (ch = lf ∧ r.lastCh = cr) ∨ (c.endSign ≠ 0 ∧ ch = c.endSign) ∨
      (getUrcObj c r.recvLineBuf).isSome then
    (r, true)
  else ({ r with lastCh := ch }, false)

/-- The end of `client_parser` that gives notice. -/
def notice (s : State) (status : RespStatus) : State :=
  { s with respStatus := status, waiting := false }

/-- The line goes into the response where there is room for it. -/
def storeLine (s : State) (line : List Byte) : State :=
  if s.resp.buf.length + line.length < s.resp.bufSize then
    { s with resp :=
      { s.resp with
        buf := s.resp.buf ++ (line.dropLast ++ [0]), lineCounts := s.resp.lineCounts + 1 } }
  else { s with respStatus := .buffFull }

/-- A turn of `client_parser` with the line that `at_recv_readline` has read. -/
def clientParser (c : Client) (s : State) (line : List Byte) : State :=
  if (getUrcObj c line).isSome then s
  else if s.waiting then
    let s := storeLine s line
    let recvLineBuf := line.dropLast ++ [0]
    if c.endSign ≠ 0 ∧ line.getLast? = some c.endSign ∧ s.resp.lineNum = 0 then notice s .ok
    else if bytes "OK" <+: recvLineBuf ∧ s.resp.lineNum = 0 then notice s .ok
    else if bytes "ERROR" <:+: cString recvLineBuf ∨ bytes "FAIL" <+: recvLineBuf then
      notice s .error
    else if s.resp.lineCounts = s.resp.lineNum ∧ s.resp.lineNum ≠ 0 then notice s .ok
    else s
  else s

/-- The parser's thread takes a byte. A line that does not fit its buffer is left out. -/
def receive (c : Client) (s : State) (ch : Byte) : State :=
  let (r, ended) := readByte c s.reader ch
  if ended then
    let s := { s with
      reader := Reader.fresh
      lines := if s.waiting then s.lines ++ [r.raw] else s.lines }
    if r.isFull then s else clientParser c s r.recvLineBuf
  else { s with reader := r }

/-- The parser on the bytes that the device sends. -/
def receiveAll (c : Client) (s : State) (stream : List Byte) : State := stream.foldl (receive c) s

/-- `at_obj_exec_cmd` with a response, where the device sends these bytes until the notice is taken
or the time is over. -/
def atObjExecCmd (c : Client) (s : State) (resp : Response) (stream : List Byte) :
    RtErr × State :=
  if c.cli then (.ebusy, s)
  else
    let s := receiveAll c
      { s with
        respStatus := .ok, resp := { resp with buf := [], lineCounts := 0 }, waiting := true
        lines := [] } stream
    if s.waiting then (.etimeout, { s with respStatus := .timeout, waiting := false })
    else if s.respStatus ≠ .ok then (.error, s)
    else (.eok, s)

/-- The string behind the next `n` strings of a buffer. -/
def skipStrings : Nat → List Byte → List Byte
  | 0, buf => buf
  | n + 1, buf => skipStrings n (buf.drop ((cString buf).length + 1))

/-- `at_resp_get_line`, with the string that the result points at. -/
def atRespGetLine (resp : Response) (respLine : Nat) : Option (List Byte) :=
  if resp.lineCounts < respLine ∨ respLine = 0 then none
  else some (cString (skipStrings (respLine - 1) resp.buf))

/-- A client that waits for its first byte. -/
def idle (resp : Response) : State := ⟨Reader.fresh, resp, false, .ok, []⟩

end RtThread.AtClient
