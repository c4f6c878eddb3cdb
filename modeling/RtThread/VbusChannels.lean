import Mathlib.Logic.Function.Basic
import RtThread.Ipc
import RtThread.Lib.Runs

/-!
# The channels of the virtual bus

The channel table `_chn_status` and the sessions `_sess`, with `rt_vbus_request_chn`,
`rt_vbus_close_chn` and the packets of channel 0 in `_chn0_actor`. The tables are not protected:
a step makes one write to them, with the reads and tests before it. A thread waits in
`_chn0_post` for the packet to be sent, and in `rt_completion_wait` for the session; the outcome
of the one and the end of the waiting time of the other are left open.

There is no result where the source fails an assertion, writes outside of a table, or follows a
null pointer.
-/
namespace RtThread.VbusChannels

open Ipc (ThreadId)

abbrev Byte := BitVec 8

/-- `RT_VBUS_CHANNEL_NR`. -/
def rtVbusChannelNr : Nat := 32

/-- `enum rt_vbus_chn_status`. -/
inductive ChnStatus where
  | available | closed | establishing | established | suspend | closing
  deriving DecidableEq

/-- `enum _vbus_session_st`. -/
inductive SessionSt where
  | available | listening | establishing
  deriving DecidableEq

structure RtVbusRequest where
  name : List Byte
  isServer : Bool
  deriving DecidableEq

/-- `done` is the flag of `cmp`. -/
structure RtVbusConnSession where
  chnr : Int
  st : SessionSt
  done : Bool
  req : Option RtVbusRequest

/-! ## The packets of channel 0 -/

inductive Packet where
  | enable (name : List Byte)
  | disable (chnr : Nat)
  | set (name : List Byte) (chnr : Nat)
  | ackSet (name : List Byte) (chnr : Nat)
  | ackDisable (chnr : Nat)
  | suspend (chnr : Nat)
  | resume (chnr : Nat)
  | nakEnable (name : List Byte)
  /-- A command that is unknown or has no effect. -/
  | other
  deriving DecidableEq

/-- A string, and the bytes behind its end. -/
def cString : List Byte → Option (List Byte × List Byte)
  | [] => none
  | b :: bs => if b = 0 then some ([], bs) else (cString bs).map fun r => (b :: r.1, r.2)

/-- A string, and the number behind it. -/
def nameNumber (dp : List Byte) : Option (List Byte × Nat) :=
  (cString dp).bind fun r => r.2.head?.map fun b => (r.1, b.toNat)

/-- The commands are `RT_VBUS_CHN0_CMD_ENABLE` and those behind it. There is no result when the
bytes end early. -/
def decode (dp : List Byte) : Option Packet :=
  match dp with
  | [] | [3] | [4] => none
  | 0 :: rest => (cString rest).map fun r => .enable r.1
  | 1 :: rest => rest.head?.map fun b => .disable b.toNat
  | 2 :: rest => (nameNumber rest).map fun r => .set r.1 r.2
  | 3 :: 2 :: rest => (nameNumber rest).map fun r => .ackSet r.1 r.2
  | 3 :: 1 :: rest => rest.head?.map fun b => .ackDisable b.toNat
  | 4 :: 0 :: rest => (cString rest).map fun r => .nakEnable r.1
  | 5 :: rest => rest.head?.map fun b => .suspend b.toNat
  | 6 :: rest => rest.head?.map fun b => .resume b.toNat
  | _ => some .other

/-! ## States -/

inductive Write where
  | status (chnr : Int) (st : ChnStatus)
  | chnr (i : Nat) (chnr : Int)
  | session (i : Nat) (st : SessionSt)
  /-- `rt_completion_done`. -/
  | done (i : Nat)
  deriving DecidableEq

/-- `_chn0_actor`, with the writes that are left to make. -/
inductive Actor where
  | idle
  /-- In `_chn0_post`; the writes are made when it succeeds. -/
  | posting (p : Packet) (pending : List Write)
  | writing (p : Packet) (pending : List Write)
  deriving DecidableEq

/-- Where a thread is; `i` is the session of its request. -/
inductive Stage where
  | outside
  | posting (i : Nat)
  | waiting (i : Nat)
  /-- The request has failed. -/
  | failed (i : Nat)
  /-- Before the status of the channel of the session is written. -/
  | cleaning (i : Nat)
  | leaving (i : Nat)
  /-- Before the request of the session is cleared. -/
  | detaching (i : Nat)
  /-- In `rt_vbus_close_chn`, before the status is written. -/
  | closing (chnr : Nat) (st : ChnStatus)
  deriving DecidableEq

structure State where
  /-- `_chn_status`. -/
  status : Nat → ChnStatus
  /-- `_sess`. -/
  sess : Nat → RtVbusConnSession
  actor : Actor
  stage : ThreadId → Stage

/-- The tables after `rt_vbus_init`. -/
def rtVbusInit : State where
  status := fun chnr => if chnr = 0 then .established else .available
  sess := fun _ => ⟨0, .available, false, none⟩
  actor := .idle
  stage := fun _ => .outside

def setStage (s : State) (t : ThreadId) (stage : Stage) : State :=
  { s with stage := Function.update s.stage t stage }

def setSess (s : State) (i : Nat) (sess : RtVbusConnSession) : State :=
  { s with sess := Function.update s.sess i sess }

def setStatus (s : State) (chnr : Int) (st : ChnStatus) : Option State :=
  if 0 ≤ chnr ∧ chnr < rtVbusChannelNr then
    some { s with status := Function.update s.status chnr.toNat st }
  else none

def perform (s : State) : Write → Option State
  | .status chnr st => setStatus s chnr st
  | .chnr i chnr => some (setSess s i { s.sess i with chnr := chnr })
  | .session i st => some (setSess s i { s.sess i with st := st })
  | .done i => some (setSess s i { s.sess i with done := true })

/-- The indices of `_sess`. -/
def sessions : List Nat := List.range (rtVbusChannelNr / 2)

/-- `_sess_find`, on the sessions that are left to look at. -/
def sessFind (s : State) (name : List Byte) (st : SessionSt) : List Nat → Option (Option Nat)
  | [] => some none
  | i :: is =>
    if (s.sess i).st = st then
      match (s.sess i).req with
      | none => none
      | some req => if req.name = name then some (some i) else sessFind s name st is
    else sessFind s name st is

/-- `-RT_EIO`. -/
def rtEio : Int := -8

/-- What `_chn0_actor` does with a packet; `malloc` tells whether `rt_malloc` succeeds. -/
def chn0Actor (s : State) (p : Packet) (malloc : Bool) : Option Actor :=
  match p with
  | .enable name =>
    (sessFind s name .listening sessions).map fun
      | none => .idle
      | some i =>
        match (List.range rtVbusChannelNr).find? fun chnr => s.status chnr = .available with
        | none => .idle
        | some chnr =>
          if malloc then
            .posting p [.session i .establishing, .chnr i chnr, .status chnr .establishing]
          else .idle
  | .set name chnr =>
    (sessFind s name .establishing sessions).map fun
      | none => .idle
      | some i =>
        if chnr = 0 ∨ rtVbusChannelNr ≤ chnr then .idle
        else if s.status chnr ≠ .available then .idle
        else .posting p [.chnr i chnr, .status chnr .established, .done i]
  | .ackSet name chnr =>
    (sessFind s name .establishing sessions).map fun
      | none => .idle
      | some i => .writing p [.chnr i chnr, .status chnr .established, .done i]
  | .ackDisable chnr =>
    some (if chnr = 0 ∨ rtVbusChannelNr ≤ chnr then .idle
      else .writing p [.status chnr .available])
  | .disable chnr =>
    some (if chnr = 0 ∨ rtVbusChannelNr ≤ chnr then .idle
      else .writing p [.status chnr .closing])
  | .suspend chnr =>
    some (if chnr = 0 ∨ rtVbusChannelNr ≤ chnr then .idle
      else if s.status chnr ≠ .established then .idle
      else .writing p [.status chnr .suspend])
  | .resume chnr =>
    some (if chnr = 0 ∨ rtVbusChannelNr ≤ chnr then .idle
      else if s.status chnr ≠ .suspend then .idle
      else .writing p [.status chnr .established])
  | .nakEnable name =>
    (sessFind s name .establishing sessions).map fun
      | none => .idle
      | some i => .writing p [.chnr i rtEio, .done i]
  | .other => some .idle

/-- The first section of `rt_vbus_request_chn`. -/
def rtVbusRequestChn (s : State) (t : ThreadId) (req : RtVbusRequest) (malloc : Bool) : State :=
  match sessions.find? fun i => (s.sess i).st = .available with
  | none => s
  | some i =>
    let sess := { s.sess i with done := false, req := some req }
    if req.isServer then setStage (setSess s i { sess with st := .listening }) t (.waiting i)
    else if malloc then
      setStage (setSess s i { sess with st := .establishing }) t (.posting i)
    else setSess s i sess

/-- `rt_vbus_close_chn` up to its write. -/
def rtVbusCloseChn (s : State) (t : ThreadId) (chnr : Nat) : Option State :=
  if 0 < chnr ∧ chnr < rtVbusChannelNr then
    if s.status chnr = .closed ∨ s.status chnr = .closing then
      some (setStage s t (.closing chnr .available))
    else if s.status chnr = .established ∨ s.status chnr = .suspend then
      some (setStage s t (.closing chnr .closing))
    else some s
  else none

/-- The next write of a thread. -/
def proceed (s : State) (t : ThreadId) : Option State :=
  match s.stage t with
  | .failed i =>
    some (setStage s t (if (s.sess i).st = .establishing then .cleaning i else .leaving i))
  | .cleaning i =>
    (setStatus s (s.sess i).chnr .available).map fun s => setStage s t (.leaving i)
  | .leaving i => some (setStage (setSess s i { s.sess i with st := .available }) t (.detaching i))
  | .detaching i => some (setStage (setSess s i { s.sess i with req := none }) t .outside)
  | .closing chnr st => (setStatus s chnr st).map fun s => setStage s t .outside
  | _ => none

/-- The steps of a run. -/
inductive Op where
  | request (t : ThreadId) (req : RtVbusRequest) (malloc : Bool)
  /-- `_chn0_post` of a request returns. -/
  | posted (t : ThreadId) (ok : Bool)
  /-- `rt_completion_wait` returns `RT_EOK`. -/
  | completed (t : ThreadId)
  /-- `rt_completion_wait` returns an error. -/
  | timedOut (t : ThreadId)
  | proceed (t : ThreadId)
  | close (t : ThreadId) (chnr : Nat)
  | packet (dp : List Byte) (malloc : Bool)
  /-- `_chn0_post` of `_chn0_actor` returns. -/
  | actorPosted (ok : Bool)
  | actor
  deriving DecidableEq

def step (s : State) : Op → Option State
  | .request t req malloc =>
    if s.stage t = .outside then some (rtVbusRequestChn s t req malloc) else none
  | .posted t ok =>
    match s.stage t with
    | .posting i => some (setStage s t (if ok then .waiting i else .failed i))
    | _ => none
  | .completed t =>
    match s.stage t with
    | .waiting i =>
      if (s.sess i).done = true ∧ (s.sess i).chnr ≠ 0 then some (setStage s t (.leaving i))
      else none
    | _ => none
  | .timedOut t =>
    match s.stage t with
    | .waiting i => some (setStage s t (.failed i))
    | _ => none
  | .proceed t => proceed s t
  | .close t chnr => if s.stage t = .outside then rtVbusCloseChn s t chnr else none
  | .packet dp malloc =>
    match s.actor with
    | .idle =>
      (decode dp).bind fun p => (chn0Actor s p malloc).map fun actor => { s with actor := actor }
    | _ => none
  | .actorPosted ok =>
    match s.actor with
    | .posting p pending => some { s with actor := if ok then .writing p pending else .idle }
    | _ => none
  | .actor =>
    match s.actor with
    | .writing _ [] => some { s with actor := .idle }
    | .writing p (w :: pending) =>
      (perform s w).map fun s => { s with actor := .writing p pending }
    | _ => none

end RtThread.VbusChannels
