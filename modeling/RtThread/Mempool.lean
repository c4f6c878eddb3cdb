import RtThread.Lib.Runs
import RtThread.Waiters

/-!
# Memory pools

`rt_mp_init`, `rt_mp_create`, `rt_mp_alloc` and `rt_mp_free` on one pool. Every block begins with a
pointer: in a free block it is the link of `block_list`, and in a block that has been
handed out it points to the pool. An allocation that has to wait is several steps: up
to the switch, and from each switch back to the return or to the next switch.

Addresses are below `2 ^ 32`; the null pointer is `none`. There is no
result where the source fails an assertion or divides by zero.
-/
namespace RtThread.Mempool

open Ipc

abbrev Addr := Nat

structure RtMempool where
  startAddress : Addr
  size : Nat
  blockSize : Nat
  blockList : Option Addr
  blockTotalCount : Nat
  blockFreeCount : Nat

/-- Where a thread is that has been suspended in `rt_mp_alloc`; `since` is `before_sleep`. -/
inductive Call where
  | outside
  | allocating (time : BitVec 32) (since : Tick)
  deriving DecidableEq

structure State where
  /-- The address of the pool. -/
  self : Addr
  mp : RtMempool
  /-- The pointers stored in memory. -/
  word : Addr → Option Addr
  tick : Tick
  waiters : Waiters Unit
  call : ThreadId → Call
  /-- The pointers that calls of `rt_mp_alloc` have returned and that have not been freed, with
  the threads they were returned to. -/
  hands : List (ThreadId × Addr)

/-- `sizeof(rt_uint8_t *)`. -/
def pointerSize : Nat := 4

/-- `RT_ALIGN_SIZE`. -/
def alignSize : Nat := 4

/-- The loop of `rt_mp_init`: each of the first `n` blocks is linked to the block behind it. -/
def linkBlocks (start stride : Nat) : Nat → (Addr → Option Addr) → Addr → Option Addr
  | 0, word => word
  | n + 1, word =>
    Function.update (linkBlocks start stride n word) (wadd 32 start (n * stride))
      (some (wadd 32 start ((n + 1) * stride)))

/-- The free block list of a new pool: the link of the last block is cut. -/
def newList (start stride count : Nat) (word : Addr → Option Addr) : Addr → Option Addr :=
  Function.update (linkBlocks start stride count word)
    (wsub 32 (wadd 32 start (count * stride)) stride) none

/-- `rt_mp_init`, with the memory after it. -/
def rtMpInit (word : Addr → Option Addr) (start size blockSize : Nat) :
    Option (RtMempool × (Addr → Option Addr)) :=
  if start = 0 ∨ size = 0 ∨ blockSize = 0 then none
  else
    let size := rtAlignDown size alignSize
    let blockSize := rtAlign 32 blockSize alignSize
    let stride := wadd 32 blockSize pointerSize
    if stride = 0 then none
    else
      let count := size / stride
      some (⟨start, size, blockSize, some start, count, count⟩, newList start stride count word)

/-- `rt_mp_create`, with the memory after it; the null pointer where there is no memory for the
blocks. -/
def rtMpCreate (rtMalloc : Nat → Option Addr) (word : Addr → Option Addr)
    (blockCount blockSize : Nat) : Option (RtMempool × (Addr → Option Addr)) :=
  if blockCount = 0 ∨ blockSize = 0 then none
  else
    let blockSize := rtAlign 32 blockSize alignSize
    let stride := wadd 32 blockSize pointerSize
    let size := stride * blockCount % 2 ^ 32
    (rtMalloc size).map fun start =>
      (⟨start, size, blockSize, some start, blockCount, blockCount⟩,
        newList start stride blockCount word)

/-- A pool that no thread has used yet. -/
def fresh (self : Addr) (tick : Tick) (priority : ThreadId → Nat)
    (r : RtMempool × (Addr → Option Addr)) : State :=
  ⟨self, r.1, r.2, tick, .init priority, fun _ => .outside, []⟩

def init (self : Addr) (word : Addr → Option Addr) (start size blockSize : Nat) (tick : Tick)
    (priority : ThreadId → Nat) : Option State :=
  (rtMpInit word start size blockSize).map (fresh self tick priority)

def create (self : Addr) (rtMalloc : Nat → Option Addr) (word : Addr → Option Addr)
    (blockCount blockSize : Nat) (tick : Tick) (priority : ThreadId → Nat) : Option State :=
  (rtMpCreate rtMalloc word blockCount blockSize).map (fresh self tick priority)

def setCall (s : State) (t : ThreadId) (c : Call) : State :=
  { s with call := Function.update s.call t c }

/-- The end of `rt_mp_alloc`: the first block is taken off the list. -/
def take (s : State) (t : ThreadId) : Option (State × Option (Option Addr)) :=
  s.mp.blockList.map fun b =>
    let s := setCall s t .outside
    let block := wadd 32 b pointerSize
    ({ s with
        mp := { s.mp with
          blockFreeCount := wsub 32 s.mp.blockFreeCount 1
          blockList := s.word b }
        word := Function.update s.word b (some s.self)
        hands := (t, block) :: s.hands },
      some (some block))

/-- `rt_mp_alloc` from the condition of its loop to its return or to the switch; there is no
pointer yet when the thread has been suspended. -/
def rtMpAlloc (s : State) (t : ThreadId) (time : BitVec 32) :
    Option (State × Option (Option Addr)) :=
  if s.mp.blockFreeCount = 0 then
    if time = 0 then
      some (setCall { s with waiters := s.waiters.setError t .etimeout } t .outside, some none)
    else
      (s.waiters.blockFront () t time).map fun w =>
        (setCall { s with waiters := w } t (.allocating time s.tick), none)
  else take s t

/-- A thread runs again after the switch: it returns the null pointer when it has an error
number, and goes back to the condition of the loop otherwise. -/
def switchBack (s : State) (t : ThreadId) : Option (State × Option (Option Addr)) :=
  match s.call t with
  | .outside => none
  | .allocating time since =>
    if (s.waiters.thread t).error ≠ .eok then some (setCall s t .outside, some none)
    else rtMpAlloc s t (remaining time s.tick since)

/-- The first thread of the list is made ready with the error number `RT_EOK`. -/
def resumeFirst (w : Waiters Unit) : Waiters Unit :=
  match w.list () with
  | [] => w
  | u :: _ => (w.setError u .eok).wake ()

/-- `rt_mp_free` of a block that is not null. There is no result when the word before the block
is not the pointer to this pool. -/
def rtMpFree (s : State) (block : Addr) : Option State :=
  let b := wsub 32 block pointerSize
  if s.word b = some s.self then
    some { s with
      mp := { s.mp with
        blockFreeCount := wadd 32 s.mp.blockFreeCount 1
        blockList := some b }
      word := Function.update s.word b s.mp.blockList
      waiters := resumeFirst s.waiters
      hands := s.hands.eraseP (·.2 = block) }
  else none

/-- The steps of a run. -/
inductive Op where
  | alloc (t : ThreadId) (time : BitVec 32)
  | switchBack (t : ThreadId)
  | free (t : ThreadId) (block : Addr)
  | timeout (t : ThreadId)
  | tickIncrease
  deriving DecidableEq

/-- The thread runs, outside of `rt_mp_alloc`. -/
def Active (s : State) (t : ThreadId) : Prop :=
  (s.waiters.thread t).suspended = false ∧ s.call t = .outside

instance (s : State) (t : ThreadId) : Decidable (Active s t) :=
  inferInstanceAs (Decidable (_ ∧ _))

/-- The block has been handed out and not freed. -/
def Live (s : State) (block : Addr) : Prop := block ∈ s.hands.map Prod.snd

instance (s : State) (block : Addr) : Decidable (Live s block) :=
  inferInstanceAs (Decidable (_ ∈ _))

/-- One step, with the pointer that the call returns in this step. -/
def call (s : State) : Op → Option (State × Option (Option Addr))
  | .alloc t time => if Active s t then rtMpAlloc s t time else none
  | .switchBack t => if (s.waiters.thread t).suspended = false then switchBack s t else none
  | .free t block =>
    if Active s t ∧ Live s block then (rtMpFree s block).map fun s => (s, none) else none
  | .timeout t =>
    if (s.waiters.thread t).timerActive then
      some ({ s with waiters := s.waiters.timeout t }, none)
    else none
  | .tickIncrease => some ({ s with tick := s.tick + 1 }, none)

def step (s : State) (op : Op) : Option State := (call s op).map Prod.fst

end RtThread.Mempool
