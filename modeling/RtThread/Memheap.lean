import RtThread.Lib.Runs
import RtThread.RtDef

/-!
# The memheap

`memheap.c` on a 32-bit build. Item headers are kept field by field: `s.next x`
is `((struct rt_memheap_item *)x)->next`, and so on; the names of the owners,
which nothing but a dump reads, are left out. Pointers are addresses, also those returned to the caller. Sums and
differences that the source leaves unchecked are taken modulo the word.

The bodies run under the semaphore of the heap, which a sequence of calls always
finds available; it is not part of the state. A function returns `none` where
the source fails an assertion or does not leave a loop.
-/
namespace RtThread.Memheap

/-- `RT_ALIGN_SIZE`, a power of two, and whether `RT_MEMHEAP_BSET_MODE` and `RT_USING_MEMTRACE`
are defined. -/
structure Config where
  align : Nat
  bestMode : Bool
  memtrace : Bool := false
  align_pos : 0 < align
  align_dvd : align ∣ 2 ^ 32
  align_le : align ≤ 2 ^ 31

/-- `sizeof(struct rt_memheap_item)`: six words, and the owner of the item. -/
def Config.sizeofItem (c : Config) : Nat := if c.memtrace then 28 else 24

/-- `RT_MEMHEAP_SIZE`. -/
def Config.memheapSize (c : Config) : Nat := rtAlign 32 c.sizeofItem c.align

/-- `RT_MEMHEAP_MINIALLOC`. -/
def minialloc : Nat := 12

/-- `RT_MEMHEAP_MAGIC | RT_MEMHEAP_FREED`. -/
def magicFreed : Nat := 0x1ea01ea0 ||| 0

/-- `RT_MEMHEAP_MAGIC | RT_MEMHEAP_USED`. -/
def magicUsed : Nat := 0x1ea01ea0 ||| 1

def add (x y : Nat) : Nat := wadd 32 x y

def sub (x y : Nat) : Nat := wsub 32 x y

structure State where
  /-- The address of the heap object. -/
  heap : Nat
  startAddr : Nat
  poolSize : Nat
  availableSize : Nat
  maxUsedSize : Nat
  blockList : Nat
  freeList : Nat
  magic : Nat → Nat
  poolPtr : Nat → Nat
  next : Nat → Nat
  prev : Nat → Nat
  nextFree : Nat → Nat
  prevFree : Nat → Nat
  /-- The bytes of the region, read and written through data pointers only. -/
  data : Nat → BitVec 8
  /-- The data pointers handed out and not yet taken back. -/
  live : List Nat

/-- What is not in the heap object: the headers and the bytes. -/
structure Memory where
  magic : Nat → Nat
  poolPtr : Nat → Nat
  next : Nat → Nat
  prev : Nat → Nat
  nextFree : Nat → Nat
  prevFree : Nat → Nat
  data : Nat → BitVec 8

def State.memory (s : State) : Memory :=
  ⟨s.magic, s.poolPtr, s.next, s.prev, s.nextFree, s.prevFree, s.data⟩

def setMagic (s : State) (x v : Nat) : State := { s with magic := Function.update s.magic x v }
def setPoolPtr (s : State) (x v : Nat) : State :=
  { s with poolPtr := Function.update s.poolPtr x v }
def setNext (s : State) (x v : Nat) : State := { s with next := Function.update s.next x v }
def setPrev (s : State) (x v : Nat) : State := { s with prev := Function.update s.prev x v }
def setNextFree (s : State) (x v : Nat) : State :=
  { s with nextFree := Function.update s.nextFree x v }
def setPrevFree (s : State) (x v : Nat) : State :=
  { s with prevFree := Function.update s.prevFree x v }

/-- `RT_MEMHEAP_IS_USED`. -/
def isUsed (s : State) (x : Nat) : Bool := s.magic x &&& 1 ≠ 0

/-- `MEMITEM_SIZE`. -/
def memitemSize (c : Config) (s : State) (x : Nat) : Nat := sub (sub (s.next x) x) c.memheapSize

/-- Put an item behind the head of the free list. -/
def insertFree (s : State) (x : Nat) : State :=
  let s := setNextFree s x (s.nextFree s.freeList)
  let s := setPrevFree s x s.freeList
  let s := setPrevFree s (s.nextFree s.freeList) x
  setNextFree s s.freeList x

/-- Take an item out of the free list. -/
def removeFree (s : State) (x : Nat) : State :=
  let s := setPrevFree s (s.nextFree x) (s.prevFree x)
  setNextFree s (s.prevFree x) (s.nextFree x)

/-- A new free item at `y`, linked behind `x` in the block list. -/
def newItem (s : State) (x y : Nat) : State :=
  let s := setMagic s y magicFreed
  let s := setPoolPtr s y s.heap
  let s := setPrev s y x
  let s := setNext s y (s.next x)
  let s := setPrev s (s.next x) y
  setNext s x y

/-- The item `y` becomes part of the item `x` before it. -/
def mergeNext (s : State) (x y : Nat) : State :=
  let s := setPrev s (s.next y) x
  setNext s x (s.next y)

/-- `_remove_next_ptr`. -/
def removeNextPtr (s : State) (x : Nat) : State :=
  let s := removeFree s x
  let s := setPrev s (s.next x) (s.prev x)
  setNext s (s.prev x) (s.next x)

/-- `heap->available_size = n`, and the new maximum. -/
def charge (s : State) (n : Nat) : State :=
  { s with availableSize := n
           maxUsedSize := if s.maxUsedSize < sub s.poolSize n then sub s.poolSize n
             else s.maxUsedSize }

/-- `rt_memheap_init` of the heap object at `heap`, whose `free_header` is at `freeHeader`. The
header fields of the region are arbitrary before. -/
def rtMemheapInit (c : Config) (heap freeHeader startAddr size : Nat) (s : State) : State :=
  let poolSize := rtAlignDown size c.align
  let availableSize := sub poolSize (2 * c.memheapSize)
  let s := { s with
    heap := heap
    startAddr := startAddr
    poolSize := poolSize
    availableSize := availableSize
    maxUsedSize := sub poolSize availableSize
    freeList := freeHeader
    live := [] }
  let s := setPoolPtr (setMagic s freeHeader magicFreed) freeHeader heap
  let s := setPrev (setNext s freeHeader 0) freeHeader 0
  let s := setPrevFree (setNextFree s freeHeader freeHeader) freeHeader freeHeader
  let item := startAddr
  let s := setPoolPtr (setMagic s item magicFreed) item heap
  let s := setNext s item (add (add item availableSize) c.memheapSize)
  let s := setPrev s item (s.next item)
  let s := insertFree { s with blockList := item } item
  let tail := s.next item
  let s := setPoolPtr (setMagic s tail magicUsed) tail heap
  let s := setPrev (setNext s tail startAddr) tail startAddr
  setPrevFree (setNextFree s tail 0) tail 0

/-- The search of `rt_memheap_alloc`, with `header_ptr` and `free_size`. -/
def searchFree (c : Config) (s : State) (size : Nat) : Nat → Nat → Nat → Option (Nat × Nat)
  | 0, _, _ => none
  | n + 1, header, freeSize =>
    if header ≠ s.freeList ∧ freeSize < size then
      let freeSize := memitemSize c s header
      searchFree c s size n (if freeSize < size then s.nextFree header else header) freeSize
    else some (header, freeSize)

/-- An item leaves the free list for good. -/
def detachFree (s : State) (x : Nat) : State :=
  let s := removeFree s x
  setPrevFree (setNextFree s x 0) x 0

/-- The body of `rt_memheap_alloc` for the item it found. -/
def takeItem (c : Config) (s : State) (header freeSize size : Nat) : State :=
  let h := c.memheapSize
  let s := if add (add size h) minialloc ≤ freeSize then
      let new := add (add header size) h
      let s := newItem s header new
      let s := insertFree (detachFree s header) new
      charge s (sub (sub s.availableSize size) h)
    else
      detachFree (charge s (sub s.availableSize freeSize)) header
  setMagic s header magicUsed

/-- The size a request is served with: aligned, and at least `RT_MEMHEAP_MINIALLOC`. -/
def request (c : Config) (size : Nat) : Nat :=
  let size := rtAlign 32 size c.align
  if size < minialloc then minialloc else size

/-- `rt_memheap_alloc`, with the returned pointer. -/
def rtMemheapAlloc (c : Config) (s : State) (size : Nat) : Option (State × Option Nat) :=
  let size := request c size
  if size < s.availableSize then
    (searchFree c s size (2 ^ 33) (s.nextFree s.freeList) 0).map fun (header, freeSize) =>
      if size ≤ freeSize then
        (takeItem c s header freeSize size, some (add header c.memheapSize))
      else (s, none)
  else some (s, none)

/-- The item a freed item is put in front of: the first one, or with
`RT_MEMHEAP_BSET_MODE` the first that is not smaller. -/
def insertPosition (c : Config) (s : State) (size : Nat) : Nat → Nat → Option Nat
  | 0, _ => none
  | fuel + 1, n =>
    if c.bestMode = true ∧ n ≠ s.freeList ∧ memitemSize c s n < size then
      insertPosition c s size fuel (s.nextFree n)
    else some n

/-- Put an item in front of `n` in the free list. -/
def insertFreeBefore (s : State) (n x : Nat) : State :=
  let s := setNextFree s x n
  let s := setPrevFree s x (s.prevFree n)
  let s := setNextFree s (s.prevFree n) x
  setPrevFree s n x

/-- Put a freed item into the free list. -/
def insertFreed (c : Config) (s : State) (x : Nat) : Option State :=
  (insertPosition c s (memitemSize c s x) (2 ^ 33) (s.nextFree s.freeList)).map
    fun n => insertFreeBefore s n x

/-- Merge a freed item with a free item before it; the flag is `insert_header`. -/
def mergeLeft (c : Config) (s : State) (header : Nat) : State × Nat × Bool :=
  if isUsed s (s.prev header) then (s, header, true)
  else
    let s := { s with availableSize := add s.availableSize c.memheapSize }
    let s := setNext s (s.prev header) (s.next header)
    let s := setPrev s (s.next header) (s.prev header)
    (s, s.prev header, false)

/-- Merge an item with a free item behind it. -/
def mergeRight (c : Config) (s : State) (header : Nat) : State :=
  let new := s.next header
  if isUsed s new then s
  else
    let s := { s with availableSize := add s.availableSize c.memheapSize }
    removeFree (mergeNext s header new) new

/-- `rt_memheap_free`; a null pointer is accepted. -/
def rtMemheapFree (c : Config) (s : State) : Option Nat → Option State
  | none => some s
  | some ptr =>
    let header := sub ptr c.memheapSize
    if s.magic header = magicUsed ∧ s.magic (s.next header) &&& 0xfffffffe = 0x1ea01ea0 ∧
        s.poolPtr header = s.heap then
      let s := setMagic s header magicFreed
      let s := { s with availableSize := add s.availableSize (memitemSize c s header) }
      let (s, header, insertHeader) := mergeLeft c s header
      let s := mergeRight c s header
      if insertHeader then insertFreed c s header else some s
    else none

/-- `rt_memcpy` inside the region. -/
def rtMemcpy (s : State) (dst src count : Nat) : State :=
  { s with data := fun i => if dst ≤ i ∧ i < dst + count then s.data (src + (i - dst))
                            else s.data i }

/-- The free item behind the block takes the bytes it needs, and a new free item is built
behind them. -/
def growInPlace (s : State) (ptr header oldsize newsize : Nat) : State :=
  let next := s.next header
  let s := charge s (sub s.availableSize (sub newsize oldsize))
  let s := removeNextPtr s next
  let new := add ptr newsize
  insertFree (newItem s header new) new

/-- The rest of a block becomes one item with a free item behind it. -/
def mergeRest (c : Config) (s : State) (new : Nat) : State :=
  if isUsed s (s.next new) then s
  else
    let free := s.next new
    let s := { s with availableSize := sub s.availableSize (memitemSize c s free) }
    removeFree (mergeNext s new free) free

/-- The rest of the block behind `newsize` bytes becomes a free item. -/
def shrink (c : Config) (s : State) (header newsize : Nat) : State :=
  let new := add (add header newsize) c.memheapSize
  let s := mergeRest c (newItem s header new) new
  let s := insertFree s new
  { s with availableSize := add s.availableSize (memitemSize c s new) }

/-- `rt_memheap_realloc`, with the returned pointer. -/
def rtMemheapRealloc (c : Config) (s : State) (ptr : Option Nat) (newsize : Nat) :
    Option (State × Option Nat) :=
  if newsize = 0 then (rtMemheapFree c s ptr).map fun s => (s, none)
  else
    let newsize := request c newsize
    match ptr with
    | none => rtMemheapAlloc c s newsize
    | some ptr =>
      let header := sub ptr c.memheapSize
      let oldsize := memitemSize c s header
      if oldsize < newsize then
        let next := s.next header
        if header < next then
          if isUsed s next = false ∧
              add newsize minialloc < add (memitemSize c s next) oldsize then
            some (growInPlace s ptr header oldsize newsize, some ptr)
          else
            (rtMemheapAlloc c s newsize).bind fun
              | (s, none) => some (s, none)
              | (s, some new) =>
                (rtMemheapFree c (rtMemcpy s new ptr (min oldsize newsize)) (some ptr)).map
                  fun s => (s, some new)
        else none
      else if oldsize ≤ add (add newsize c.memheapSize) minialloc then some (s, some ptr)
      else some (shrink c s header newsize, some ptr)

/-- The calls of a run, and the writes of the program to its own blocks. -/
inductive Op where
  | alloc (size : Nat)
  | realloc (ptr : Option Nat) (newsize : Nat)
  | free (ptr : Option Nat)
  | write (addr : Nat) (byte : BitVec 8)
  deriving DecidableEq

def addLive (s : State) (p : Option Nat) : State := { s with live := p.toList ++ s.live }

def dropLive (s : State) (p : Option Nat) : State :=
  { s with live := s.live.filter (fun q => some q ≠ p) }

/-- One call. `live` follows the results: a successful `rt_memheap_realloc` gives back the
old pointer, and so does one with size zero. -/
def step (c : Config) (s : State) : Op → Option State
  | .alloc size => (rtMemheapAlloc c s size).map fun (s, p) => addLive s p
  | .realloc ptr newsize => (rtMemheapRealloc c s ptr newsize).map fun (s, p) =>
      if p ≠ none ∨ newsize = 0 then addLive (dropLive s ptr) p else s
  | .free ptr => (rtMemheapFree c s ptr).map fun s => dropLive s ptr
  | .write addr byte => some { s with data := Function.update s.data addr byte }

end RtThread.Memheap
