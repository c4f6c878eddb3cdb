import RtThread.Lib.BitSets
import RtThread.Lib.Runs
import RtThread.RtDef

/-!
# Signals of a thread

The signal fields of one thread, the calls it makes itself and the `rt_thread_kill` calls of
the other threads and interrupts. A step is one section with interrupts disabled, or the
call of a handler. The calls in progress of the thread form a stack of frames, the topmost
first: a handler may make calls of its own, and `_signal_deliver` puts `_signal_entry` on top
of whatever the thread was doing. A queued node is its signal number; whether the pool has
a node left is an input.
-/
namespace RtThread.Signal

def rtSigMax : Nat := 32

def sigValid (sig : Nat) : Prop := sig < rtSigMax

instance (sig : Nat) : Decidable (sigValid sig) := inferInstanceAs (Decidable (_ < _))

/-- The macro `sig_mask`. -/
def sigBit (sig : Nat) : BitVec 32 := 1#32 <<< sig

theorem getLsbD_or_sigBit (v : BitVec 32) {sig : Nat} (hvalid : sigValid sig) (i : Nat) :
    (v ||| sigBit sig).getLsbD i = (v.getLsbD i || decide (i = sig)) := by
  have hlt : sig < 32 := hvalid
  exact BitSets.getLsbD_set v hlt i

theorem getLsbD_and_not_sigBit (v : BitVec 32) {sig i : Nat} (hvalid : sigValid sig)
    (hi : i < 32) : (v &&& ~~~sigBit sig).getLsbD i = (v.getLsbD i && !decide (i = sig)) := by
  have hlt : sig < 32 := hvalid
  exact BitSets.getLsbD_clear v hlt hi

/-- An entry of `sig_vectors` that is not `RT_NULL`. -/
inductive Handler where
  | signalDefaultHandler
  | user (address : Nat)
  deriving DecidableEq

/-- What `rt_signal_install` is given. -/
inductive Action where
  | sigIgn
  | sigDfl
  | user (address : Nat)
  deriving DecidableEq

/-- Who called `_signal_deliver`; `recorded` is whether the signal of the kill was queued. -/
inductive Caller where
  | unmask
  | kill (recorded : Bool)
  deriving DecidableEq

/-- A call in progress on the stack of the thread. -/
inductive Frame where
  /-- `rt_thread_kill` in front of `rt_mp_alloc`. -/
  | killing (sig : Nat)
  /-- In front of the section of `_signal_deliver`. -/
  | delivering (caller : Caller)
  /-- `rt_thread_kill` behind `_signal_deliver`. -/
  | returning (recorded : Bool)
  /-- `rt_thread_handle_sig` in front of its first section; it cleans the state, or it has been
  called by `_signal_entry`. -/
  | handling (cleanState : Bool)
  /-- The node has been removed, the handler has not been called. -/
  | calling (cleanState : Bool) (signo : Nat) (handler : Option Handler)
  /-- The handler runs. -/
  | running (cleanState : Bool)
  /-- `_signal_entry` behind a `rt_thread_handle_sig` that had nothing to do. -/
  | leaving
  /-- `rt_signal_wait` behind the section that suspends the thread. -/
  | waiting (set : BitVec 32)
  deriving DecidableEq

/-- How far the `rt_thread_kill` of another context has got. -/
inductive Kill where
  | killing (sig : Nat)
  | delivering (recorded : Bool)
  deriving DecidableEq

structure State where
  sigPending : BitVec 32
  sigMask : BitVec 32
  siList : List Nat
  sigVectors : Option (Nat → Option Handler)
  /-- `RT_THREAD_SUSPEND`. -/
  suspended : Bool
  /-- `RT_THREAD_STAT_SIGNAL`, `RT_THREAD_STAT_SIGNAL_WAIT`, `RT_THREAD_STAT_SIGNAL_PENDING`. -/
  statSignal : Bool
  statSignalWait : Bool
  statSignalPending : Bool
  error : RtErr
  frames : List Frame
  kills : Nat → Option Kill

/-- What a step shows: the call of a handler, or a return. -/
inductive Out where
  | invoked (signo : Nat) (handler : Handler)
  | killed (result : RtErr) (recorded : Bool)
  | waited (result : RtErr) (si : Option Nat)
  /-- The old entry, or `none` for `SIG_ERR`. -/
  | installed (old : Option (Option Handler))
  deriving DecidableEq

/-- A started thread. -/
def init : State :=
  ⟨0, 0, [], none, false, false, false, false, .eok, [], fun _ => none⟩

/-! ## The sections -/

/-- The signal is in the list and in the pending set. -/
def queued (s : State) (sig : Nat) : Bool := s.sigPending.getLsbD sig && s.siList.contains sig

def killAppend (s : State) (sig : Nat) (alloc : Bool) : State :=
  if alloc then
    { s with siList := s.siList ++ [sig], sigPending := s.sigPending ||| sigBit sig }
  else s

theorem killAppend_frames (s : State) (sig : Nat) (alloc : Bool) :
    (killAppend s sig alloc).frames = s.frames := by
  cases alloc <;> rfl

/-- Where `_signal_deliver` is called: by the thread itself, by an interrupt of it, or while
another thread is the current one. -/
inductive Place where
  | self
  | interrupt
  | other
  deriving DecidableEq

def signalDeliver (s : State) (place : Place) : State :=
  if s.sigPending &&& s.sigMask = 0 then s
  else if s.suspended then
    { s with suspended := false, statSignal := true, statSignalPending := true }
  else
    match place with
    | .self => { s with statSignal := true, frames := .handling true :: s.frames }
    | .interrupt => { s with statSignal := true }
    | .other =>
      if s.statSignal then s
      else { s with
        statSignal := true
        statSignalPending := false
        frames := .handling false :: s.frames }

/-- One test of the loop of `rt_thread_handle_sig` and the removal of a node, over the frames
below the call. The end of the loop clears the state, in `_signal_entry` as well. -/
def handleRound (s : State) (cleanState : Bool) (below : List Frame) : Option State :=
  if s.sigPending &&& s.sigMask ≠ 0 then
    match s.siList with
    | [] => some { s with statSignal := false, frames := below }
    | signo :: rest =>
      s.sigVectors.map fun vectors =>
        { s with
          siList := rest
          sigPending := s.sigPending &&& ~~~sigBit signo
          frames := .calling cleanState signo (vectors signo) :: below }
  else some { s with statSignal := false, frames := below }

def handleSig (s : State) (cleanState : Bool) (below : List Frame) : Option State :=
  if s.sigPending &&& s.sigMask ≠ 0 ∧ s.statSignalWait = false then handleRound s cleanState below
  else some { s with frames := if cleanState then below else .leaving :: below }

/-- The section of `rt_thread_handle_sig` behind a handler. -/
def handlerReturned (s : State) (cleanState : Bool) (below : List Frame) : Option State :=
  handleRound { s with error := .eintr } cleanState below

/-- The part of `rt_signal_wait` from `__done` on. -/
def waitDone (s : State) (set : BitVec 32) : State × Option Out :=
  match s.siList.find? fun signo => set.getLsbD signo with
  | some signo =>
    ({ s with
        siList := s.siList.eraseP fun signo => set.getLsbD signo
        sigPending := s.sigPending &&& ~~~sigBit signo }, some (.waited .eok (some signo)))
  | none => (s, some (.waited .eok none))

def rtSignalWait (s : State) (set : BitVec 32) (siGiven : Bool) (timeout : Int) :
    State × Option Out :=
  if set = 0 ∨ siGiven = false then (s, some (.waited .einval none))
  else if s.sigPending &&& set ≠ 0 then waitDone s set
  else if timeout = 0 then (s, some (.waited .etimeout none))
  else
    ({ s with suspended := true, statSignalWait := true, frames := .waiting set :: s.frames }, none)

/-- `rt_signal_wait` behind `rt_schedule`. -/
def waitReturned (s : State) (set : BitVec 32) (below : List Frame) : State × Option Out :=
  let s := { s with statSignalWait := false, frames := below }
  if s.error = .etimeout then ({ s with error := .eok }, some (.waited .etimeout none))
  else waitDone s set

def rtSignalInstall (s : State) (signo : Nat) (action : Action) : State × Option Out :=
  if sigValid signo then
    let vectors := s.sigVectors.getD fun _ => some .signalDefaultHandler
    let handler : Option Handler :=
      match action with
      | .sigIgn => none
      | .sigDfl => some .signalDefaultHandler
      | .user address => some (.user address)
    ({ s with sigVectors := some (Function.update vectors signo handler) },
      some (.installed (some (vectors signo))))
  else (s, some (.installed none))

def rtSignalMask (s : State) (signo : Nat) : State :=
  { s with sigMask := s.sigMask &&& ~~~sigBit signo }

def rtSignalUnmask (s : State) (signo : Nat) : State :=
  let s := { s with sigMask := s.sigMask ||| sigBit signo }
  if s.sigMask &&& s.sigPending ≠ 0 then { s with frames := .delivering .unmask :: s.frames }
  else s

/-! ## Runs -/

inductive Op where
  | install (signo : Nat) (action : Action)
  | mask (signo : Nat)
  | unmask (signo : Nat)
  | kill (sig : Nat)
  | wait (set : BitVec 32) (siGiven : Bool) (timeout : Int)
  /-- The thread is suspended elsewhere, with this error number. -/
  | suspend (err : RtErr)
  | setError (err : RtErr)
  /-- The next section of the call on top; a handler returns. -/
  | proceed (alloc : Bool)
  /-- The end of `rt_schedule`, when a signal was delivered to the suspended thread. -/
  | scheduled
  | resume
  | timeout
  | killBy (context : Nat) (sig : Nat)
  | proceedBy (context : Nat) (alloc : Bool) (current : Bool)
  deriving DecidableEq

/-- The code on top of the stack is that of the user: the thread's own, or a handler's. -/
def userCode : List Frame → Bool
  | [] => true
  | .running _ :: _ => true
  | _ => false

def setKill (s : State) (context : Nat) (kill : Option Kill) : State :=
  { s with kills := Function.update s.kills context kill }

/-- The section at the beginning of `rt_thread_kill`: the call returns, or goes on. -/
def killTest (s : State) (sig : Nat) (goOn : State) : State × Option Out :=
  if sigValid sig then
    if queued s sig then (s, some (.killed .eok (queued s sig))) else (goOn, none)
  else (s, some (.killed .einval false))

/-- The next section of the call on top of the stack. -/
def proceed (s : State) (alloc : Bool) : Option (State × Option Out) :=
  match s.frames with
  | [] => none
  | .killing sig :: below =>
    let s' := killAppend s sig alloc
    some ({ s' with frames := .delivering (.kill (queued s' sig)) :: below }, none)
  | .delivering .unmask :: below => some (signalDeliver { s with frames := below } .self, none)
  | .delivering (.kill recorded) :: below =>
    some (signalDeliver { s with frames := .returning recorded :: below } .self, none)
  | .returning recorded :: below =>
    some ({ s with frames := below }, some (.killed .eok recorded))
  | .handling cleanState :: below => (handleSig s cleanState below).map fun s' => (s', none)
  | .calling cleanState signo handler :: below =>
    match handler with
    | some h => some ({ s with frames := .running cleanState :: below }, some (.invoked signo h))
    | none => (handlerReturned s cleanState below).map fun s' => (s', none)
  | .running cleanState :: below => (handlerReturned s cleanState below).map fun s' => (s', none)
  | .leaving :: below => some ({ s with statSignal := false, frames := below }, none)
  | .waiting set :: below =>
    if s.statSignalPending then none else some (waitReturned s set below)

/-- The next section of the kill of another context. -/
def proceedBy (s : State) (context : Nat) (alloc : Bool) (current : Bool) :
    Option (State × Option Out) :=
  match s.kills context with
  | none => none
  | some (.killing sig) =>
    let s' := killAppend s sig alloc
    some (setKill s' context (some (.delivering (queued s' sig))), none)
  | some (.delivering recorded) =>
    some (setKill (signalDeliver s (if current then .interrupt else .other)) context none,
      some (.killed .eok recorded))

def call (s : State) : Op → Option (State × Option Out)
  | .install signo action =>
    if s.suspended = false ∧ userCode s.frames then some (rtSignalInstall s signo action) else none
  | .mask signo =>
    if s.suspended = false ∧ userCode s.frames ∧ sigValid signo then
      some (rtSignalMask s signo, none)
    else none
  | .unmask signo =>
    if s.suspended = false ∧ userCode s.frames ∧ sigValid signo then
      some (rtSignalUnmask s signo, none)
    else none
  | .kill sig =>
    if s.suspended = false ∧ userCode s.frames then
      some (killTest s sig { s with frames := .killing sig :: s.frames })
    else none
  | .wait set siGiven timeout =>
    if s.suspended = false ∧ userCode s.frames then some (rtSignalWait s set siGiven timeout)
    else none
  | .suspend err =>
    if s.suspended = false ∧ userCode s.frames then
      some ({ s with suspended := true, error := err }, none)
    else none
  | .setError err =>
    if s.suspended = false ∧ userCode s.frames then some ({ s with error := err }, none)
    else none
  | .proceed alloc => if s.suspended = false then proceed s alloc else none
  | .scheduled =>
    if s.suspended = false ∧ s.statSignalPending then
      some ({ s with statSignalPending := false, frames := .handling true :: s.frames }, none)
    else none
  | .resume => if s.suspended then some ({ s with suspended := false }, none) else none
  | .timeout =>
    if s.suspended then some ({ s with suspended := false, error := .etimeout }, none) else none
  | .killBy context sig =>
    if s.kills context = none then
      some (killTest s sig (setKill s context (some (.killing sig))))
    else none
  | .proceedBy context alloc current => proceedBy s context alloc current

def step (s : State) (op : Op) : Option State := (call s op).map Prod.fst

end RtThread.Signal
