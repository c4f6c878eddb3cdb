import RtThread.Memheap

/-!
# The memheaps of the system

`_memheap_alloc`, `_memheap_realloc` and `_memheap_free`, the port functions of `rt_malloc` with
`RT_USING_MEMHEAP_AS_HEAP`. There are any number of heap objects over one memory. A block belongs to
the heap in the `pool_ptr` of its header.
-/
namespace RtThread.Memheap

/-- The fields of a `struct rt_memheap`. -/
structure Object where
  startAddr : Nat
  poolSize : Nat
  availableSize : Nat
  maxUsedSize : Nat
  blockList : Nat
  freeList : Nat
  /-- The data pointers handed out and not yet taken back. -/
  live : List Nat

structure System where
  /-- `object_list` of `RT_Object_Class_MemHeap`. -/
  objectList : List Nat
  object : Nat → Object
  memory : Memory

/-- The heap object at `heap` over the memory of the system. -/
def view (sys : System) (heap : Nat) : State where
  heap := heap
  startAddr := (sys.object heap).startAddr
  poolSize := (sys.object heap).poolSize
  availableSize := (sys.object heap).availableSize
  maxUsedSize := (sys.object heap).maxUsedSize
  blockList := (sys.object heap).blockList
  freeList := (sys.object heap).freeList
  magic := sys.memory.magic
  poolPtr := sys.memory.poolPtr
  next := sys.memory.next
  prev := sys.memory.prev
  nextFree := sys.memory.nextFree
  prevFree := sys.memory.prevFree
  data := sys.memory.data
  live := (sys.object heap).live

def State.object (s : State) : Object :=
  ⟨s.startAddr, s.poolSize, s.availableSize, s.maxUsedSize, s.blockList, s.freeList, s.live⟩

/-- A call on the heap object at `heap` is over. -/
def put (sys : System) (heap : Nat) (s : State) : System :=
  { sys with object := Function.update sys.object heap s.object, memory := s.memory }

/-- `rt_memheap_init`: the object is put in front of the container. -/
def systemInit (c : Config) (sys : System) (heap freeHeader startAddr size : Nat) : System :=
  let s := rtMemheapInit c heap freeHeader startAddr size (view sys heap)
  { put sys heap s with objectList := heap :: sys.objectList }

/-- `rt_memheap_alloc`. -/
def systemAlloc (c : Config) (sys : System) (heap size : Nat) : Option (System × Option Nat) :=
  (rtMemheapAlloc c (view sys heap) size).map fun (s, p) => (put sys heap (addLive s p), p)

/-- `rt_memheap_realloc`. -/
def systemRealloc (c : Config) (sys : System) (heap : Nat) (ptr : Option Nat) (newsize : Nat) :
    Option (System × Option Nat) :=
  (rtMemheapRealloc c (view sys heap) ptr newsize).map fun (s, p) =>
    (put sys heap (if p ≠ none ∨ newsize = 0 then addLive (dropLive s ptr) p else s), p)

/-- `rt_memheap_free`, and `_memheap_free`. -/
def systemFree (c : Config) (sys : System) : Option Nat → Option System
  | none => some sys
  | some ptr =>
    let heap := sys.memory.poolPtr (sub ptr c.memheapSize)
    (rtMemheapFree c (view sys heap) (some ptr)).map fun s => put sys heap (dropLive s (some ptr))

/-- The loop of `_memheap_alloc` over the objects, which leaves out the default heap. -/
def allocOther (c : Config) (heap size : Nat) : System → List Nat → Option (System × Option Nat)
  | sys, [] => some (sys, none)
  | sys, other :: rest =>
    if heap = other then allocOther c heap size sys rest
    else (systemAlloc c sys other size).bind fun
      | (sys, none) => allocOther c heap size sys rest
      | (sys, some p) => some (sys, some p)

/-- `_memheap_alloc`; the flag is `RT_USING_MEMHEAP_AUTO_BINDING`. -/
def memheapAlloc (c : Config) (autoBinding : Bool) (sys : System) (heap size : Nat) :
    Option (System × Option Nat) :=
  (systemAlloc c sys heap size).bind fun
    | (sys, none) =>
      if autoBinding then allocOther c heap size sys sys.objectList else some (sys, none)
    | (sys, some p) => some (sys, some p)

/-- `rt_memcpy` in memory. -/
def Memory.copy (m : Memory) (dst src count : Nat) : Memory :=
  { m with data := fun i => if dst ≤ i ∧ i < dst + count then m.data (src + (i - dst))
                            else m.data i }

/-- `_memheap_realloc`. -/
def memheapRealloc (c : Config) (autoBinding : Bool) (sys : System) (heap : Nat)
    (rmem : Option Nat) (newsize : Nat) : Option (System × Option Nat) :=
  match rmem with
  | none => memheapAlloc c autoBinding sys heap newsize
  | some rmem =>
    if newsize = 0 then (systemFree c sys (some rmem)).map fun sys => (sys, none)
    else
      let header := sub rmem c.memheapSize
      (systemRealloc c sys (sys.memory.poolPtr header) (some rmem) newsize).bind fun
        | (sys, some new) => some (sys, some new)
        | (sys, none) =>
          (memheapAlloc c autoBinding sys heap newsize).bind fun
            | (sys, none) => some (sys, none)
            | (sys, some new) =>
              let oldsize := memitemSize c (view sys heap) header
              let count := if oldsize < newsize then oldsize else newsize
              (systemFree c { sys with memory := sys.memory.copy new rmem count } (some rmem)).map
                fun sys => (sys, some new)

/-- The calls of a run, and the writes of the program to its own blocks. -/
inductive SystemOp where
  | init (heap freeHeader startAddr size : Nat)
  | alloc (heap size : Nat)
  | realloc (heap : Nat) (ptr : Option Nat) (newsize : Nat)
  | free (ptr : Option Nat)
  | memheapAlloc (heap size : Nat)
  | memheapRealloc (heap : Nat) (rmem : Option Nat) (newsize : Nat)
  | write (addr : Nat) (byte : BitVec 8)
  deriving DecidableEq

def systemStep (c : Config) (autoBinding : Bool) (sys : System) : SystemOp → Option System
  | .init heap freeHeader startAddr size => some (systemInit c sys heap freeHeader startAddr size)
  | .alloc heap size => (systemAlloc c sys heap size).map Prod.fst
  | .realloc heap ptr newsize => (systemRealloc c sys heap ptr newsize).map Prod.fst
  | .free ptr => systemFree c sys ptr
  | .memheapAlloc heap size => (memheapAlloc c autoBinding sys heap size).map Prod.fst
  | .memheapRealloc heap rmem newsize =>
    (memheapRealloc c autoBinding sys heap rmem newsize).map Prod.fst
  | .write addr byte =>
    some { sys with memory := { sys.memory with data := Function.update sys.memory.data addr byte } }

end RtThread.Memheap
