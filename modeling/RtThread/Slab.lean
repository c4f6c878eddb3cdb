import RtThread.Lib.Runs
import RtThread.RtDef

/-!
# The slab allocator

`slab.c` on a 32-bit machine, with pages of 4096 bytes. The address of a page is
given by its number, so that `b + npages` is the source's own sum of a page pointer
and a number of pages; a chunk is given by its address in bytes. The lists that the
source threads through pages, zones and chunks are lists of these numbers.

A function returns `none` where the source fails an assertion or reads through a
null pointer.
-/
namespace RtThread.Slab

/-! ## Pages -/

/-- A node of the page list: `page` free pages from the page `addr` on. -/
structure RtSlabPage where
  addr : Nat
  page : Nat
  deriving DecidableEq

/-- The walk of `rt_slab_page_alloc` along the page list, for at least one page. -/
def pageAllocWalk (npages : Nat) : List RtSlabPage → Option Nat × List RtSlabPage
  | [] => (none, [])
  | b :: next =>
    if npages < b.page then (some b.addr, ⟨b.addr + npages, b.page - npages⟩ :: next)
    else if b.page = npages then (some b.addr, next)
    else
      let r := pageAllocWalk npages next
      (r.1, b :: r.2)

/-- `rt_slab_page_alloc`, with the page list it leaves. -/
def rtSlabPageAlloc (pageList : List RtSlabPage) (npages : Nat) : Option Nat × List RtSlabPage :=
  if npages = 0 then (none, pageList) else pageAllocWalk npages pageList

/-- The walk of `rt_slab_page_free` along the page list. -/
def pageFreeWalk (n npages : Nat) : List RtSlabPage → Option (List RtSlabPage)
  | [] => some [⟨n, npages⟩]
  | b :: next =>
    if 0 < b.page ∧ (n < b.addr ∨ b.addr + b.page ≤ n) then
      if b.addr + b.page = n then
        match next with
        | [] => some [⟨b.addr, b.page + npages⟩]
        | c :: next' =>
          if b.addr + (b.page + npages) = c.addr then
            some (⟨b.addr, b.page + npages + c.page⟩ :: next')
          else some (⟨b.addr, b.page + npages⟩ :: next)
      else if b.addr = n + npages then some (⟨n, b.page + npages⟩ :: next)
      else if n + npages < b.addr then some (⟨n, npages⟩ :: b :: next)
      else (pageFreeWalk n npages next).map (b :: ·)
    else none

/-- `rt_slab_page_free`. -/
def rtSlabPageFree (pageList : List RtSlabPage) (addr npages : Nat) : Option (List RtSlabPage) :=
  if addr = 0 ∨ npages = 0 then none else pageFreeWalk addr npages pageList

/-- `rt_slab_page_init`. -/
def rtSlabPageInit (addr npages : Nat) : Option (List RtSlabPage) :=
  if addr = 0 ∨ npages = 0 then none else rtSlabPageFree [] addr npages

/-! ## Zones -/

/-- `PAGE_TYPE_FREE`, `PAGE_TYPE_SMALL` and `PAGE_TYPE_LARGE`. -/
inductive PageType where
  | free | small | large
  deriving DecidableEq

structure RtSlabMemusage where
  type : PageType
  size : Nat
  deriving DecidableEq

/-- The header of a zone, without its link. -/
structure RtSlabZone where
  magic : Nat
  nfree : Nat
  nmax : Nat
  baseptr : Nat
  uindex : Nat
  chunksize : Nat
  zoneindex : Nat
  freechunk : List Nat
  deriving DecidableEq

/-- `ZALLOC_SLAB_MAGIC`. -/
def zallocSlabMagic : Nat := 0x51ab51ab

/-- `RT_UINT32_MAX`. -/
def rtUint32Max : Nat := 0xffffffff

/-- `RT_SLAB_NZONES`. -/
def rtSlabNzones : Nat := 72

/-- `ZONE_RELEASE_THRESH`. -/
def zoneReleaseThresh : Nat := 2

/-- `sizeof(struct rt_slab_zone)`. -/
def sizeofZone : Nat := 36

/-- `struct rt_slab`, with the headers of the zones. The table `memusage` is indexed by the page
number counted from `heapStart`. -/
structure RtSlab where
  heapStart : Nat
  memusage : Nat → RtSlabMemusage
  zoneArray : Nat → List Nat
  zoneFree : List Nat
  zoneFreeCnt : Nat
  zoneSize : Nat
  zoneLimit : Nat
  zonePageCnt : Nat
  pageList : List RtSlabPage
  zone : Nat → RtSlabZone
  used : Nat
  max : Nat

/-- The page of an address: `(rt_ubase_t)ptr & ~RT_MM_PAGE_MASK`. -/
def pageOf (ptr : Nat) : Nat := ptr / 4096

/-- The entry `*btokup(addr)` of the table, for an address in the page `page`. -/
def btokup (slab : RtSlab) (page : Nat) : RtSlabMemusage := slab.memusage (page - slab.heapStart)

/-- The entries of `cnt` pages from the page `page` on, set by a loop over the pages. -/
def setUsage (slab : RtSlab) (page cnt : Nat) (kup : Nat → RtSlabMemusage) :
    Nat → RtSlabMemusage :=
  fun i =>
    if page - slab.heapStart ≤ i ∧ i < page - slab.heapStart + cnt then
      kup (i - (page - slab.heapStart))
    else slab.memusage i

/-- The statistics of a block of `bytes` bytes handed out. -/
def countUp (slab : RtSlab) (bytes : Nat) : RtSlab :=
  let used := wadd 32 slab.used bytes
  { slab with used := used, max := if slab.max < used then used else slab.max }

/-- `zoneindex`: the index of the zone and the size of its chunks. -/
def zoneindex (n : Nat) : Nat × Nat :=
  if n < 128 then
    let n := rtAlign 32 n 8
    (n / 8 - 1, n)
  else if n < 256 then
    let n := rtAlign 32 n 16
    (n / 16 + 7, n)
  else if n < 512 then
    let n := rtAlign 32 n 32
    (n / 32 + 15, n)
  else if n < 1024 then
    let n := rtAlign 32 n 64
    (n / 64 + 23, n)
  else if n < 2048 then
    let n := rtAlign 32 n 128
    (n / 128 + 31, n)
  else if n < 4096 then
    let n := rtAlign 32 n 256
    (n / 256 + 39, n)
  else if n < 8192 then
    let n := rtAlign 32 n 512
    (n / 512 + 47, n)
  else if n < 16384 then
    let n := rtAlign 32 n 1024
    (n / 1024 + 55, n)
  else (0, n)

/-- The large allocations of `rt_slab_alloc`. -/
def allocLarge (slab : RtSlab) (size : Nat) : RtSlab × Option Nat :=
  let size := rtAlign 32 size 4096
  match rtSlabPageAlloc slab.pageList (size / 4096) with
  | (none, pageList) => ({ slab with pageList := pageList }, none)
  | (some chunk, pageList) =>
    let slab := countUp
      { slab with
        pageList := pageList
        memusage := Function.update slab.memusage (chunk - slab.heapStart) ⟨.large, size / 4096⟩ }
      size
    (slab, some (chunk * 4096))

/-- A chunk of the first zone of a list in the array of zones. -/
def allocChunk (slab : RtSlab) (z : Nat) (zs : List Nat) (zi size : Nat) :
    Option (RtSlab × Option Nat) :=
  let h := slab.zone z
  if 0 < h.nfree then
    let nfree := h.nfree - 1
    let zoneArray := if nfree = 0 then Function.update slab.zoneArray zi zs else slab.zoneArray
    if h.uindex + 1 ≠ h.nmax then
      let h := { h with nfree := nfree, uindex := h.uindex + 1 }
      let slab := { slab with zoneArray := zoneArray, zone := Function.update slab.zone z h }
      some (countUp slab h.chunksize, some (h.baseptr + h.uindex * size))
    else
      match h.freechunk with
      | [] => none
      | chunk :: next =>
        let h := { h with nfree := nfree, freechunk := next }
        let slab := { slab with zoneArray := zoneArray, zone := Function.update slab.zone z h }
        some (countUp slab h.chunksize, some chunk)
  else none

/-- The offset of the first chunk of a zone. -/
def chunkOffset (size : Nat) : Nat :=
  if (size ||| (size - 1)) + 1 = size <<< 1 then rtAlign 32 sizeofZone size
  else rtAlign 32 sizeofZone 8

/-- The set-up of a new zone, and its first chunk. -/
def newZone (slab : RtSlab) (z zi size : Nat) : RtSlab × Option Nat :=
  let off := chunkOffset size
  let nmax := (slab.zoneSize - off) / size
  let h : RtSlabZone := ⟨zallocSlabMagic, nmax - 1, nmax, z * 4096 + off, 0, size, zi, []⟩
  let slab :=
    { slab with
      zone := Function.update slab.zone z h
      zoneArray := Function.update slab.zoneArray zi (z :: slab.zoneArray zi) }
  (countUp slab size, some (h.baseptr + h.uindex * size))

/-- `rt_slab_alloc`, with the address it returns. -/
def rtSlabAlloc (slab : RtSlab) (size : Nat) : Option (RtSlab × Option Nat) :=
  if size = 0 then some (slab, none)
  else if slab.zoneLimit ≤ size then some (allocLarge slab size)
  else
    let (zi, size) := zoneindex size
    if zi < rtSlabNzones then
      match slab.zoneArray zi with
      | z :: zs => allocChunk slab z zs zi size
      | [] =>
        match slab.zoneFree with
        | z :: next =>
          let slab := { slab with zoneFree := next, zoneFreeCnt := slab.zoneFreeCnt - 1 }
          some (newZone slab z zi size)
        | [] =>
          match rtSlabPageAlloc slab.pageList (slab.zoneSize / 4096) with
          | (none, pageList) => some ({ slab with pageList := pageList }, none)
          | (some z, pageList) =>
            let slab :=
              { slab with
                pageList := pageList
                memusage := setUsage slab z slab.zonePageCnt fun off => ⟨.small, off⟩ }
            some (newZone slab z zi size)
    else none

/-- The release of a large allocation. -/
def freeLarge (slab : RtSlab) (ptr : Nat) : Option RtSlab :=
  let size := (btokup slab (pageOf ptr)).size
  if ptr % 4096 = 0 then
    (rtSlabPageFree slab.pageList (pageOf ptr) size).map fun pageList =>
      { slab with
        memusage := Function.update slab.memusage (pageOf ptr - slab.heapStart) ⟨.large, 0⟩
        used := wsub 32 slab.used (size * 4096)
        pageList := pageList }
  else none

/-- The return of a zone to the page allocator. -/
def releaseZone (slab : RtSlab) : Option RtSlab :=
  match slab.zoneFree with
  | [] => none
  | z :: next =>
    let memusage := setUsage slab z slab.zonePageCnt fun _ => ⟨.free, 0⟩
    (rtSlabPageFree slab.pageList z (slab.zoneSize / 4096)).map fun pageList =>
      { slab with
        zoneFree := next
        zoneFreeCnt := slab.zoneFreeCnt - 1
        memusage := memusage
        pageList := pageList }

/-- The move of a zone from the array to the list of free zones. -/
def retireZone (slab : RtSlab) (z : Nat) : Option RtSlab :=
  let h := slab.zone z
  if z ∈ slab.zoneArray h.zoneindex then
    let slab :=
      { slab with
        zoneArray := Function.update slab.zoneArray h.zoneindex
          ((slab.zoneArray h.zoneindex).erase z)
        zone := Function.update slab.zone z { h with magic := rtUint32Max }
        zoneFree := z :: slab.zoneFree
        zoneFreeCnt := slab.zoneFreeCnt + 1 }
    if zoneReleaseThresh < slab.zoneFreeCnt then releaseZone slab else some slab
  else none

/-- The return of a chunk to its zone. -/
def freeChunk (slab : RtSlab) (z ptr : Nat) : RtSlab :=
  let h := slab.zone z
  { slab with
    zone := Function.update slab.zone z
      { h with freechunk := ptr :: h.freechunk, nfree := h.nfree + 1 }
    used := wsub 32 slab.used h.chunksize
    zoneArray :=
      if h.nfree = 0 then
        Function.update slab.zoneArray h.zoneindex (z :: slab.zoneArray h.zoneindex)
      else slab.zoneArray }

/-- `rt_slab_free`. A zone has no neighbour in its list of the array exactly when the list is
that zone alone. -/
def rtSlabFree (slab : RtSlab) (ptr : Nat) : Option RtSlab :=
  if ptr = 0 then some slab
  else
    let kup := btokup slab (pageOf ptr)
    if kup.type = .large then freeLarge slab ptr
    else
      let z := pageOf ptr - kup.size
      if (slab.zone z).magic = zallocSlabMagic then
        let slab := freeChunk slab z ptr
        let h := slab.zone z
        if h.nfree = h.nmax ∧ slab.zoneArray h.zoneindex ≠ [z] then retireZone slab z
        else some slab
      else none

/-- `rt_slab_realloc`, with the address it returns. The bytes it copies are not modelled. -/
def rtSlabRealloc (slab : RtSlab) (ptr size : Nat) : Option (RtSlab × Option Nat) :=
  if ptr = 0 then rtSlabAlloc slab size
  else if size = 0 then (rtSlabFree slab ptr).map fun slab => (slab, none)
  else
    let kup := btokup slab (pageOf ptr)
    match kup.type with
    | .large => do
      let (slab, nptr) ← rtSlabAlloc slab size
      match nptr with
      | none => some (slab, none)
      | some nptr => (rtSlabFree slab ptr).map fun slab => (slab, some nptr)
    | .small =>
      let h := slab.zone (pageOf ptr - kup.size)
      if h.magic = zallocSlabMagic then
        let size := (zoneindex size).2
        if h.chunksize = size then some (slab, some ptr)
        else do
          let (slab, nptr) ← rtSlabAlloc slab size
          match nptr with
          | none => some (slab, none)
          | some nptr => (rtSlabFree slab ptr).map fun slab => (slab, some nptr)
      else none
    | .free => some (slab, none)

/-! ## Initialisation -/

/-- The loop of `rt_slab_init` that doubles the zone size: it ends after two rounds, at
`ZALLOC_MAX_ZONE_SIZE`. -/
def zoneSizeFor (limsize : Nat) : Nat → Nat → Nat
  | 0, zoneSize => zoneSize
  | rounds + 1, zoneSize =>
    if zoneSize < 128 * 1024 ∧ 2 * zoneSize < limsize / 1024 then
      zoneSizeFor limsize rounds (2 * zoneSize)
    else zoneSize

/-- `rt_slab_init`, for an object of `objSize` bytes and the alignment `RT_ALIGN_SIZE`; `none` also
stands for the null pointer that it returns for a region without a whole page. The
headers and the entries of the table are what the memory holds before. -/
def rtSlabInit (align objSize beginAddr size : Nat) (zone : Nat → RtSlabZone)
    (memusage : Nat → RtSlabMemusage) : Option RtSlab :=
  let startAddr := wadd 32 (rtAlign 32 beginAddr align) objSize
  let beginAlign := rtAlign 32 startAddr 4096
  let endAlign := rtAlignDown (wadd 32 beginAddr size) 4096
  if endAlign ≤ beginAlign then none
  else
    let limsize := endAlign - beginAlign
    let npages := limsize / 4096
    (rtSlabPageInit (beginAlign / 4096) npages).bind fun pageList =>
      let zoneSize := zoneSizeFor limsize 2 (32 * 1024)
      let zoneLimit := if 16 * 1024 < zoneSize / 4 then 16 * 1024 else zoneSize / 4
      let table := rtAlign 32 (npages * 4) 4096 / 4096
      some
        { heapStart := beginAlign / 4096
          memusage := memusage
          zoneArray := fun _ => []
          zoneFree := []
          zoneFreeCnt := 0
          zoneSize := zoneSize
          zoneLimit := zoneLimit
          zonePageCnt := zoneSize / 4096
          pageList := (rtSlabPageAlloc pageList table).2
          zone := zone
          used := 0
          max := 0 }

end RtThread.Slab
