import RtThread.Lib.Runs
import RtThread.RtDef

/-!
# Ring block buffers

`rt_rbb_init`, `rt_rbb_blk_alloc`, `rt_rbb_blk_put`, `rt_rbb_blk_get`, `rt_rbb_blk_free`,
`rt_rbb_blk_queue_get`, `rt_rbb_blk_queue_free` and `rt_rbb_next_blk_queue_len`. The descriptors of `blk_set` are the
numbers below `blk_max_num`. A list of descriptors is the sequence of its nodes; the
pointer `tail` is a node of its own right, and a node that is appended behind it ends
the list there.

Addresses and sizes are words. There is no result where the source fails an
assertion, or takes the head of a list or the null pointer for a descriptor.
-/
namespace RtThread.RingBlk

abbrev Id := Nat

/-- `enum rt_rbb_status`. -/
inductive Status where
  | unused | inited | put | get
  deriving DecidableEq

structure Blk where
  status : Status
  size : Nat
  buf : Nat
  deriving DecidableEq

structure State where
  buf : Nat
  bufSize : Nat
  blkMaxNum : Nat
  blk : Id → Blk
  blkList : List Id
  /-- `none` is the address of `blk_list` itself. -/
  tail : Option Id
  freeList : List Id

/-- `struct rt_rbb_blk_queue`. -/
structure BlkQueue where
  blocks : Id
  blkNum : Nat
  deriving DecidableEq

def setStatus (blk : Id → Blk) (b : Id) (status : Status) : Id → Blk :=
  Function.update blk b { blk b with status := status }

/-- `rt_rbb_init`; the descriptors are inserted at the front of `free_list` one by one. -/
def rtRbbInit (blk : Id → Blk) (buf bufSize blkMaxNum : Nat) : State :=
  ⟨buf, bufSize, blkMaxNum, fun b => { blk b with status := .unused }, [], none,
    (List.range blkMaxNum).reverse⟩

/-- The nodes of a list up to one of them. -/
def upTo (t : Id) : List Id → List Id
  | [] => []
  | b :: bs => if b = t then [b] else b :: upTo t bs

/-- `list_append`. -/
def listAppend (s : State) (n : Id) : State :=
  match s.tail with
  | none => { s with blkList := [n], tail := some n }
  | some t => { s with blkList := upTo t s.blkList ++ [n], tail := some n }

/-- The node before `n`, with the node before the list to begin with. -/
def before (n : Id) : Option Id → List Id → Option Id
  | prev, [] => prev
  | prev, b :: bs => if b = n then prev else before n (some b) bs

/-- `list_remove`. -/
def listRemove (s : State) (n : Id) : State :=
  if n ∈ s.blkList then
    { s with
      blkList := s.blkList.erase n
      tail := if s.tail = some n then before n none s.blkList else s.tail }
  else s

/-- The new descriptor is appended to the list and given its memory. -/
def place (s : State) (n : Id) (buf size : Nat) : State :=
  { listAppend s n with blk := Function.update s.blk n ⟨.inited, size, buf⟩ }

/-- `rt_rbb_blk_alloc`, with the block it returns. -/
def rtRbbBlkAlloc (s : State) (blkSize : Nat) : Option (State × Option Id) :=
  if 2 ^ 24 ≤ blkSize then none
  else
    match s.freeList with
    | [] => some (s, none)
    | n :: free =>
      if (s.blk n).status ≠ .unused then none
      else
        let s := { s with freeList := free }
        match s.blkList, s.tail with
        | [], _ => some (place s n s.buf blkSize, some n)
        | _ :: _, none => none
        | h :: _, some t =>
          let head := s.blk h
          let tail := s.blk t
          let behind := wadd 32 tail.buf tail.size
          if head.buf ≤ tail.buf then
            let empty1 := wsub 32 (wadd 32 s.buf s.bufSize) behind
            let empty2 := wsub 32 head.buf s.buf
            if blkSize ≤ empty1 then some (place s n behind blkSize, some n)
            else if blkSize ≤ empty2 then some (place s n s.buf blkSize, some n)
            else some (s, none)
          else
            let empty1 := wsub 32 head.buf behind
            if blkSize ≤ empty1 then some (place s n behind blkSize, some n)
            else some (s, none)

/-- `rt_rbb_blk_put`. -/
def rtRbbBlkPut (s : State) (b : Id) : Option State :=
  if (s.blk b).status = .inited then some { s with blk := setStatus s.blk b .put } else none

/-- `rt_rbb_blk_get`. -/
def rtRbbBlkGet (s : State) : State × Option Id :=
  match s.blkList.find? fun b => (s.blk b).status = .put with
  | none => (s, none)
  | some b => ({ s with blk := setStatus s.blk b .get }, some b)

/-- `rt_rbb_blk_free`. -/
def rtRbbBlkFree (s : State) (b : Id) : Option State :=
  if (s.blk b).status = .unused then none
  else
    let s := listRemove s b
    some { s with
      blk := setStatus s.blk b .unused
      freeList := b :: s.freeList }

/-- The loop of `rt_rbb_blk_queue_get` over the nodes of the list, with the size and the queue so
far. -/
def queueLoop (queueDataLen : Nat) :
    List Id → (Id → Blk) → Option Id → Nat → Option BlkQueue → (Id → Blk) × Nat × Option BlkQueue
  | [], blk, _, total, queue => (blk, total, queue)
  | b :: bs, blk, none, total, queue =>
    if (blk b).status = .put then
      queueLoop queueDataLen bs (setStatus blk b .get) (some b) (wadd 32 total (blk b).size)
        (some ⟨b, 1⟩)
    else queueLoop queueDataLen bs blk none total queue
  | b :: bs, blk, some last, total, queue =>
    if (blk b).status ≠ .put ∨ (blk b).buf < (blk last).buf ∨
        queueDataLen < wadd 32 total (blk b).size then
      (blk, total, queue)
    else
      queueLoop queueDataLen bs (setStatus blk b .get) (some b) (wadd 32 total (blk b).size)
        (queue.map fun q => { q with blkNum := q.blkNum + 1 })

/-- The nodes that this loop passes to `rt_slist_next` before the next pass, `none` for the null
pointer. -/
def followLoop (queueDataLen : Nat) :
    List Id → (Id → Blk) → Option Id → Nat → List (Option Id)
  | [], _, _, _ => []
  | b :: bs, blk, none, total =>
    if (blk b).status = .put then
      bs.head? :: followLoop queueDataLen bs (setStatus blk b .get) (some b)
        (wadd 32 total (blk b).size)
    else bs.head? :: followLoop queueDataLen bs blk none total
  | b :: bs, blk, some last, total =>
    if (blk b).status ≠ .put ∨ (blk b).buf < (blk last).buf ∨
        queueDataLen < wadd 32 total (blk b).size then
      []
    else
      bs.head? :: followLoop queueDataLen bs (setStatus blk b .get) (some b)
        (wadd 32 total (blk b).size)

/-- All nodes that `rt_rbb_blk_queue_get` passes to `rt_slist_next`. What it reads through the null
pointer is not used. -/
def queueFollows (s : State) (queueDataLen : Nat) : List (Option Id) :=
  if s.blkList = [] then []
  else s.blkList.head? :: followLoop queueDataLen s.blkList s.blk none 0

/-- `rt_rbb_blk_queue_get`, with the size that it returns and the queue; this is filled in when
there is a block for it. -/
def rtRbbBlkQueueGet (s : State) (queueDataLen : Nat) : State × Nat × Option BlkQueue :=
  let (blk, total, queue) := queueLoop queueDataLen s.blkList s.blk none 0 none
  ({ s with blk := blk }, total, queue)

/-- The loop of `rt_rbb_next_blk_queue_len` over the nodes of the list. -/
def nextLoop (blk : Id → Blk) : List Id → Option Id → Nat → Nat
  | [], _, dataLen => dataLen
  | b :: bs, none, dataLen =>
    if (blk b).status ≠ .put then nextLoop blk bs none dataLen
    else nextLoop blk bs (some b) (wadd 32 dataLen (blk b).size)
  | b :: bs, some last, dataLen =>
    if (blk b).status ≠ .put ∨ (blk b).buf < (blk last).buf then dataLen
    else nextLoop blk bs (some b) (wadd 32 dataLen (blk b).size)

/-- `rt_rbb_next_blk_queue_len`. -/
def rtRbbNextBlkQueueLen (s : State) : Nat := nextLoop s.blk s.blkList none 0

/-- The node behind `n`. -/
def after (n : Id) : List Id → Option Id
  | [] => none
  | b :: bs => if b = n then bs.head? else after n bs

/-- The loop of `rt_rbb_blk_queue_free` over the blocks of the queue. -/
def rtRbbBlkQueueFree (s : State) : Option Id → Nat → Option State
  | _, 0 => some s
  | none, _ + 1 => none
  | some b, num + 1 =>
    let next := after b s.blkList
    (rtRbbBlkFree s b).bind fun s => rtRbbBlkQueueFree s next num

/-- The calls of a run. -/
inductive Op where
  | alloc (blkSize : Nat)
  | put (b : Id)
  | get
  | free (b : Id)
  | queueGet (queueDataLen : Nat)
  | queueFree (queue : BlkQueue)
  deriving DecidableEq

/-- One call; the blocks that are passed to it are descriptors of the buffer. -/
def step (s : State) : Op → Option State
  | .alloc blkSize => (rtRbbBlkAlloc s blkSize).map Prod.fst
  | .put b => if b < s.blkMaxNum then rtRbbBlkPut s b else none
  | .get => some (rtRbbBlkGet s).1
  | .free b => if b < s.blkMaxNum then rtRbbBlkFree s b else none
  | .queueGet queueDataLen => some (rtRbbBlkQueueGet s queueDataLen).1
  | .queueFree queue =>
    if queue.blocks < s.blkMaxNum then rtRbbBlkQueueFree s (some queue.blocks) queue.blkNum
    else none

end RtThread.RingBlk
