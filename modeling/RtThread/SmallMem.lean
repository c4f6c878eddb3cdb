import RtThread.Lib.Runs
import RtThread.RtDef

/-!
# The small-memory heap

`mem.c` without `RT_USING_MEMTRACE`. The word width and the sizes of the two C
structures are parameters, so that one definition covers the 32-bit and the
64-bit build. A header is found by its offset from `heap_ptr`, and so is the
data pointer behind it; `heap_end` and `lfree` are offsets too. Sums and
differences that the source leaves unchecked are taken modulo the word.

A function returns `none` where the source fails an assertion or does not leave
a loop. A loop over `next` that has made more rounds than there are words
repeats an offset and never ends.
-/
namespace RtThread.SmallMem

/-- The build: word width, `RT_ALIGN_SIZE`, `sizeof(struct rt_small_mem_item)`,
`sizeof(struct rt_small_mem)` and `MIN_SIZE`. -/
structure Arch where
  bits : Nat
  align : Nat
  itemSize : Nat
  objSize : Nat
  minSize : Nat
  align_even : 2 ∣ align
  align_pos : 0 < align
  align_dvd : align ∣ 2 ^ bits
  itemSize_pos : 0 < itemSize
  itemSize_le : itemSize + align ≤ 2 ^ bits
  minSize_pos : 0 < minSize
  minSize_le : minSize ≤ itemSize

namespace Arch

/-- `SIZEOF_STRUCT_MEM`. -/
def sizeofStructMem (a : Arch) : Nat := rtAlign a.bits a.itemSize a.align

/-- `MIN_SIZE_ALIGNED`. -/
def minSizeAligned (a : Arch) : Nat := rtAlign a.bits a.minSize a.align

def add (a : Arch) (x y : Nat) : Nat := wadd a.bits x y

def sub (a : Arch) (x y : Nat) : Nat := wsub a.bits x y

end Arch

structure Item where
  poolPtr : Nat
  next : Nat
  prev : Nat
  deriving DecidableEq

structure State where
  /-- The address of the heap object. -/
  pool : Nat
  heapPtr : Nat
  heapEnd : Nat
  lfree : Nat
  memSizeAligned : Nat
  item : Nat → Item
  /-- The bytes of the region, read and written through data pointers only. -/
  data : Nat → BitVec 8
  used : Nat
  max : Nat
  /-- The data pointers handed out and not yet taken back. -/
  live : List Nat

/-- `MEM_USED()`. -/
def memUsed (pool : Nat) : Nat := (pool &&& 0xfffffffe) ||| 1

/-- `MEM_FREED()`. -/
def memFreed (pool : Nat) : Nat := (pool &&& 0xfffffffe) ||| 0

/-- `MEM_ISUSED`. -/
def memIsUsed (x : Item) : Bool := x.poolPtr &&& 1 ≠ 0

/-- `MEM_POOL`. -/
def memPool (x : Item) : Nat := x.poolPtr &&& 0xfffffffe

def setItem (s : State) (off : Nat) (x : Item) : State :=
  { s with item := Function.update s.item off x }

def setPoolPtr (s : State) (off poolPtr : Nat) : State :=
  setItem s off { s.item off with poolPtr := poolPtr }

def setNext (s : State) (off next : Nat) : State :=
  setItem s off { s.item off with next := next }

def setPrev (s : State) (off prev : Nat) : State :=
  setItem s off { s.item off with prev := prev }

/-- `rt_smem_init` on the region of `size` bytes at `beginAddr`; `none` when it returns
`RT_NULL`, also as the address of the heap object. The bytes of the region are arbitrary. -/
def rtSmemInit (a : Arch) (beginAddr size : Nat) (item : Nat → Item) (data : Nat → BitVec 8) :
    Option State :=
  let smallMem := rtAlign a.bits beginAddr a.align
  let startAddr := a.add smallMem a.objSize
  let beginAlign := rtAlign a.bits startAddr a.align
  let endAlign := rtAlignDown (a.add beginAddr size) a.align
  let h := a.sizeofStructMem
  if 2 * h < endAlign ∧ startAddr ≤ endAlign - 2 * h ∧ smallMem ≠ 0 then
    let memSize := a.sub (a.sub endAlign beginAlign) (2 * h)
    let heapEnd := a.add memSize h
    some {
      pool := smallMem
      heapPtr := beginAlign
      heapEnd := heapEnd
      lfree := 0
      memSizeAligned := memSize
      item := Function.update (Function.update item 0 ⟨memFreed smallMem, heapEnd, 0⟩)
        heapEnd ⟨memUsed smallMem, heapEnd, heapEnd⟩
      data := data
      used := 0
      max := 0
      live := [] }
  else none

/-- The block at `nmem` becomes part of the block at `mem` before it. -/
def joinNext (s : State) (mem nmem : Nat) : State :=
  let s := setPoolPtr s nmem 0
  let s := setNext s mem (s.item nmem).next
  setPrev s (s.item nmem).next mem

/-- The first half of `plug_holes`: join `mem` with a free block after it. -/
def plugForward (s : State) (mem : Nat) : State :=
  let nmem := (s.item mem).next
  if mem ≠ nmem ∧ memIsUsed (s.item nmem) = false ∧ nmem ≠ s.heapEnd then
    joinNext { s with lfree := if s.lfree = nmem then mem else s.lfree } mem nmem
  else s

/-- The second half of `plug_holes`: join `mem` with a free block before it. -/
def plugBackward (s : State) (mem : Nat) : State :=
  let pmem := (s.item mem).prev
  if pmem ≠ mem ∧ memIsUsed (s.item pmem) = false then
    joinNext { s with lfree := if s.lfree = mem then pmem else s.lfree } pmem mem
  else s

/-- `plug_holes`. -/
def plugHoles (s : State) (mem : Nat) : Option State :=
  if mem < s.heapEnd then some (plugBackward (plugForward s mem) mem) else none

/-- The search of `rt_smem_alloc` for a free block that is large enough. -/
def search (a : Arch) (s : State) (size : Nat) : Nat → Nat → Option (Option Nat)
  | 0, _ => none
  | n + 1, ptr =>
    if ptr ≤ a.sub s.memSizeAligned size then
      let mem := s.item ptr
      if memIsUsed mem = false ∧ size ≤ a.sub mem.next (a.add ptr a.sizeofStructMem) then
        some (some ptr)
      else search a s size n mem.next
    else some none

/-- The block at `ptr2` behind the first `size` bytes of the block at `ptr`, as both
`rt_smem_alloc` and `rt_smem_realloc` create it. -/
def splitAt (a : Arch) (s : State) (ptr ptr2 : Nat) : State :=
  let next := (s.item ptr).next
  let s := setItem s ptr2 ⟨memFreed s.pool, next, ptr⟩
  let s := setNext s ptr ptr2
  if next ≠ a.add s.memSizeAligned a.sizeofStructMem then setPrev s next ptr2 else s

/-- `parent.used += n`, and the new maximum. -/
def charge (a : Arch) (s : State) (n : Nat) : State :=
  let used := a.add s.used n
  { s with used := used, max := if s.max < used then used else s.max }

/-- The loop that moves `lfree` to the next free block. -/
def advance (s : State) : Nat → Nat → Option Nat
  | 0, _ => none
  | n + 1, lfree =>
    if memIsUsed (s.item lfree) ∧ lfree ≠ s.heapEnd then advance s n (s.item lfree).next
    else some lfree

/-- The free block at `ptr` is cut behind `size` bytes when another block fits there. -/
def carve (a : Arch) (s : State) (ptr size : Nat) : State :=
  let h := a.sizeofStructMem
  let next := (s.item ptr).next
  if a.add (a.add size h) a.minSizeAligned ≤ a.sub next (a.add ptr h) then
    charge a (splitAt a s ptr (a.add (a.add ptr h) size)) (a.add size h)
  else charge a s (a.sub next ptr)

/-- The block at `ptr` is marked used, and `lfree` moves on if it was the lowest one. -/
def markUsed (a : Arch) (s : State) (ptr : Nat) : Option State :=
  let s := setPoolPtr s ptr (memUsed s.pool)
  (if ptr = s.lfree then advance s (2 ^ a.bits) s.lfree else some s.lfree).map
    fun lfree => { s with lfree := lfree }

/-- The body of `rt_smem_alloc` for the block it found, with its assertions. -/
def takeBlock (a : Arch) (s : State) (ptr size : Nat) : Option (State × Nat) :=
  (markUsed a (carve a s ptr size) ptr).bind fun s =>
    let mem := a.add s.heapPtr ptr
    let h := a.sizeofStructMem
    if a.add (a.add mem h) size ≤ a.add s.heapPtr s.heapEnd ∧ a.align ∣ a.add mem h ∧
        a.align ∣ mem then
      some (s, a.add ptr h)
    else none

/-- `rt_smem_alloc`, with the returned pointer. -/
def rtSmemAlloc (a : Arch) (s : State) (size : Nat) : Option (State × Option Nat) :=
  if size = 0 then some (s, none)
  else
    let size := rtAlign a.bits size a.align
    if s.memSizeAligned < size then some (s, none)
    else
      let size := if size < a.minSizeAligned then a.minSizeAligned else size
      (search a s size (2 ^ a.bits) s.lfree).bind fun
        | none => some (s, none)
        | some ptr => (takeBlock a s ptr size).map fun (s, p) => (s, some p)

/-- `rt_smem_free`; a null pointer is accepted. -/
def rtSmemFree (a : Arch) (s : State) : Option Nat → Option State
  | none => some s
  | some rmem =>
    let mem := a.sub rmem a.sizeofStructMem
    let x := s.item mem
    if a.align ∣ a.add s.heapPtr rmem ∧ memPool x = s.pool ∧ s.pool ≠ 0 ∧ memIsUsed x ∧
        rmem < s.heapEnd ∧ memPool (s.item x.next) = s.pool then
      let s := setPoolPtr s mem (memFreed s.pool)
      let s := { s with lfree := if mem < s.lfree then mem else s.lfree }
      let s := { s with used := a.sub s.used (a.sub x.next mem) }
      plugHoles s mem
    else none

/-- `rt_memcpy` inside the region. -/
def rtMemcpy (s : State) (dst src count : Nat) : State :=
  { s with data := fun i => if dst ≤ i ∧ i < dst + count then s.data (src + (i - dst))
                            else s.data i }

/-- `rt_smem_realloc`, with the returned pointer. -/
def rtSmemRealloc (a : Arch) (s : State) (rmem : Option Nat) (newsize : Nat) :
    Option (State × Option Nat) :=
  let newsize := rtAlign a.bits newsize a.align
  if s.memSizeAligned < newsize then some (s, none)
  else if newsize = 0 then (rtSmemFree a s rmem).map fun s => (s, none)
  else
    match rmem with
    | none => rtSmemAlloc a s newsize
    | some rmem =>
      if a.align ∣ a.add s.heapPtr rmem ∧ rmem < s.heapEnd then
        let h := a.sizeofStructMem
        let ptr := a.sub rmem h
        let size := a.sub (a.sub (s.item ptr).next ptr) h
        if size = newsize then some (s, some rmem)
        else if a.add (a.add newsize h) a.minSize < size then
          let s := { s with used := a.sub s.used (a.sub size newsize) }
          let ptr2 := a.add (a.add ptr h) newsize
          let s := splitAt a s ptr ptr2
          let s := { s with lfree := if ptr2 < s.lfree then ptr2 else s.lfree }
          (plugHoles s ptr2).map fun s => (s, some rmem)
        else
          (rtSmemAlloc a s newsize).bind fun
            | (s, none) => some (s, none)
            | (s, some nmem) =>
              (rtSmemFree a (rtMemcpy s nmem rmem (min size newsize)) (some rmem)).map
                fun s => (s, some nmem)
      else none

/-- The calls of a run, and the writes of the program to its own blocks. -/
inductive Op where
  | alloc (size : Nat)
  | realloc (rmem : Option Nat) (newsize : Nat)
  | free (rmem : Option Nat)
  | write (off : Nat) (byte : BitVec 8)
  deriving DecidableEq

def addLive (s : State) (p : Option Nat) : State := { s with live := p.toList ++ s.live }

def dropLive (s : State) (p : Option Nat) : State :=
  { s with live := s.live.filter (fun q => some q ≠ p) }

/-- One call. `live` follows the results: a successful `rt_smem_realloc` gives back the old
pointer, and so does one whose aligned size is zero. -/
def step (a : Arch) (s : State) : Op → Option State
  | .alloc size => (rtSmemAlloc a s size).map fun (s, p) => addLive s p
  | .realloc rmem newsize => (rtSmemRealloc a s rmem newsize).map fun (s, p) =>
      if p ≠ none ∨ rtAlign a.bits newsize a.align = 0 then addLive (dropLive s rmem) p else s
  | .free rmem => (rtSmemFree a s rmem).map fun s => dropLive s rmem
  | .write off byte => some { s with data := Function.update s.data off byte }

end RtThread.SmallMem
