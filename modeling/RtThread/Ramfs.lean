import RtThread.DfsPath
import RtThread.Lib.Runs
import Mathlib.Algebra.Group.Nat.Defs
import Mathlib.Data.List.Nodup

/-!
# The RAM file system

The operations of `dfs_ramfs.c` over the ring of directory entries. An entry is known by the
number it was created with; a data block holds the bytes that were asked for. What the memory
heap returns is an input of each call, and an access outside a block refuses the step.
-/
namespace RtThread.Ramfs

open Dfs

def ramfsNameMax : Nat := 32

/-- The number of values of a `size_t`. -/
def sizeRange : Nat := 2 ^ 32

abbrev Bytes := List UInt8

/-! ## The directory -/

/-- `struct ramfs_dirent`; the name is what its field holds before the first NUL. -/
structure RamfsDirent where
  addr : Nat
  name : Path
  data : Option Bytes
  size : Nat
  deriving DecidableEq

/-- `struct dfs_ramfs`: the root, the entries behind it in the ring, and the next number. -/
structure DfsRamfs where
  root : RamfsDirent
  entries : List RamfsDirent
  next : Nat
  deriving DecidableEq

inductive Errno where
  | enospc | enoent | enomem | eexist | eio
  deriving DecidableEq

def dfsRamfsCreate : DfsRamfs := ⟨⟨0, ['.'], none, 0⟩, [], 1⟩

/-- All the entries, the root first. -/
def DfsRamfs.dirents (ramfs : DfsRamfs) : List RamfsDirent := ramfs.root :: ramfs.entries

/-- The entry with a number. -/
def DfsRamfs.dirent (ramfs : DfsRamfs) (addr : Nat) : Option RamfsDirent :=
  ramfs.dirents.find? fun dirent => dirent.addr = addr

/-- The entry with a number becomes `dirent`. -/
def DfsRamfs.put (ramfs : DfsRamfs) (dirent : RamfsDirent) : DfsRamfs :=
  { ramfs with
    root := if ramfs.root.addr = dirent.addr then dirent else ramfs.root
    entries := ramfs.entries.map fun d => if d.addr = dirent.addr then dirent else d }

section Names

variable (behind : RamfsDirent → Path)

/-- The name as `rt_strcmp` reads it. One that fills its field goes on in the bytes of the
data pointer: none for the null pointer, otherwise what lies there is a parameter. -/
def RamfsDirent.string (dirent : RamfsDirent) : Path :=
  if dirent.name.length < ramfsNameMax ∨ dirent.data = none then dirent.name
  else dirent.name ++ behind dirent

def dfsRamfsLookup (ramfs : DfsRamfs) (path : Path) : Option RamfsDirent :=
  let subpath := skipSeparators path
  if subpath = [] then some ramfs.root
  else ramfs.entries.find? fun dirent => dirent.string behind = subpath

/-! ## Open and close -/

/-- The bits of the open flags that the file system reads. -/
structure Flags where
  directory : Bool
  creat : Bool
  wronly : Bool
  trunc : Bool
  append : Bool
  deriving DecidableEq

/-- The fields of `struct dfs_fd` that the file system uses; the entry by its number. -/
structure DfsFd where
  data : Nat
  size : Nat
  pos : Nat
  deriving DecidableEq

/-- The new entry for a path; `strncpy` stops where the name field ends. -/
def newDirent (ramfs : DfsRamfs) (path : Path) : RamfsDirent :=
  ⟨ramfs.next, (skipSeparators path).take ramfsNameMax, none, 0⟩

/-- Put a new entry behind the root. -/
def createDirent (ramfs : DfsRamfs) (path : Path) : DfsRamfs :=
  { ramfs with entries := newDirent ramfs path :: ramfs.entries, next := ramfs.next + 1 }

/-- The entry to open, created if need be. -/
def openDirent (ramfs : DfsRamfs) (path : Path) (flags : Flags) (allocated : Bool) :
    Except Errno (DfsRamfs × RamfsDirent) :=
  match dfsRamfsLookup behind ramfs path with
  | some dirent =>
    if ¬ flags.directory ∧ dirent.addr = ramfs.root.addr then .error .enoent
    else .ok (ramfs, dirent)
  | none =>
    if flags.directory then .error .enoent
    else if flags.creat ∨ flags.wronly then
      if allocated then .ok (createDirent ramfs path, newDirent ramfs path) else .error .enomem
    else .error .enoent

/-- The new descriptor. -/
def openedFd (dirent : RamfsDirent) (flags : Flags) : DfsFd :=
  ⟨dirent.addr, dirent.size, if flags.append then dirent.size else 0⟩

/-- The entry without its content. -/
def RamfsDirent.truncated (dirent : RamfsDirent) : RamfsDirent :=
  { dirent with size := 0, data := none }

/-- The end of `dfs_ramfs_open`. -/
def finishOpen (ramfs : DfsRamfs) (dirent : RamfsDirent) (flags : Flags) : DfsRamfs × DfsFd :=
  if ¬ flags.directory ∧ flags.trunc then
    (ramfs.put dirent.truncated, openedFd dirent.truncated flags)
  else (ramfs, openedFd dirent flags)

def dfsRamfsOpen (ramfs : DfsRamfs) (path : Path) (flags : Flags) (allocated : Bool) :
    Except Errno (DfsRamfs × DfsFd) :=
  if flags.directory ∧ flags.creat then .error .enospc
  else (openDirent behind ramfs path flags allocated).map fun opened =>
    finishOpen opened.1 opened.2 flags

/-! ## Rename and unlink -/

/-- `dfs_ramfs_rename` copies the new path as it is. -/
def dfsRamfsRename (ramfs : DfsRamfs) (oldpath newpath : Path) :
    Except Errno (DfsRamfs × RamfsDirent) :=
  match dfsRamfsLookup behind ramfs newpath with
  | some _ => .error .eexist
  | none =>
    match dfsRamfsLookup behind ramfs oldpath with
    | none => .error .enoent
    | some dirent =>
      let dirent := { dirent with name := newpath.take ramfsNameMax }
      .ok (ramfs.put dirent, dirent)

/-- `dfs_ramfs_unlink`; the root is no block of the heap, so freeing it fails an assertion. -/
def dfsRamfsUnlink (ramfs : DfsRamfs) (path : Path) :
    Option (Except Errno (DfsRamfs × RamfsDirent)) :=
  match dfsRamfsLookup behind ramfs path with
  | none => some (.error .enoent)
  | some dirent =>
    if dirent.addr = ramfs.root.addr then none
    else some (.ok ({ ramfs with
      entries := ramfs.entries.filter fun d => d.addr ≠ dirent.addr }, dirent))

end Names

/-! ## Read, write and seek -/

/-- `rt_memcpy` from a block, inside its bounds. -/
def readAt (data : Option Bytes) (pos length : Nat) : Option Bytes :=
  data.bind fun bytes =>
    if pos + length ≤ bytes.length then some ((bytes.drop pos).take length) else none

/-- `bytes` with `buf` from `pos` on. -/
def overwrite (bytes : Bytes) (pos : Nat) (buf : Bytes) : Bytes :=
  bytes.take pos ++ buf ++ bytes.drop (pos + buf.length)

/-- `rt_memcpy` into a block, inside its bounds. -/
def writeAt (data : Option Bytes) (pos : Nat) (buf : Bytes) : Option Bytes :=
  data.bind fun bytes =>
    if pos + buf.length ≤ bytes.length then some (overwrite bytes pos buf) else none

/-- A block of `newsize` bytes with the old ones as far as they fit; `granted` is `none` when
there is no room, otherwise it gives the bytes of the new part. -/
def rtMemheapRealloc (data : Option Bytes) (newsize : Nat) (granted : Option (Nat → UInt8)) :
    Option Bytes :=
  granted.map fun fill =>
    let bytes := data.getD []
    bytes.take newsize ++ (List.range (newsize - bytes.length)).map fill

def dfsRamfsRead (ramfs : DfsRamfs) (file : DfsFd) (count : Nat) : Option (Bytes × DfsFd) :=
  (ramfs.dirent file.data).bind fun dirent =>
    let rest := (file.size + (sizeRange - file.pos)) % sizeRange
    let length := if count < rest then count else rest
    let file' := { file with pos := (file.pos + length) % sizeRange }
    if 0 < length then (readAt dirent.data file.pos length).map fun buf => (buf, file')
    else some ([], file')

/-- The copy at the end of `dfs_ramfs_write`. -/
def copyIn (ramfs : DfsRamfs) (fd : DfsFd) (dirent : RamfsDirent) (buf : Bytes) :
    Option (DfsRamfs × DfsFd × Nat) :=
  let fd' := { fd with pos := (fd.pos + buf.length) % sizeRange }
  if 0 < buf.length then
    (writeAt dirent.data fd.pos buf).map fun data =>
      (ramfs.put { dirent with data := some data }, fd', buf.length)
  else some (ramfs.put dirent, fd', buf.length)

def dfsRamfsWrite (ramfs : DfsRamfs) (fd : DfsFd) (buf : Bytes)
    (granted : Option (Nat → UInt8)) : Option (DfsRamfs × DfsFd × Nat) :=
  (ramfs.dirent fd.data).bind fun dirent =>
    let newsize := (fd.pos + buf.length) % sizeRange
    if fd.size < newsize then
      match rtMemheapRealloc dirent.data newsize granted with
      | none => some (ramfs, fd, 0)
      | some ptr =>
        copyIn ramfs { fd with size := newsize } { dirent with data := some ptr, size := newsize }
          buf
    else copyIn ramfs fd dirent buf

/-- The size as an `off_t`. -/
def asOffset (size : Nat) : Int := Int.bmod size sizeRange

def dfsRamfsLseek (file : DfsFd) (offset : Int) : Except Errno DfsFd :=
  if offset ≤ asOffset file.size then
    .ok { file with pos := (offset % (sizeRange : Int)).toNat }
  else .error .eio

/-! ## The ends of an open -/

/-- An open with these arguments adds an entry to the directory. -/
def Creates (behind : RamfsDirent → Path) (ramfs : DfsRamfs) (path : Path) (flags : Flags)
    (allocated : Bool) : Prop :=
  dfsRamfsLookup behind ramfs path = none ∧ ¬ flags.directory ∧ (flags.creat ∨ flags.wronly) ∧
    allocated

instance (behind : RamfsDirent → Path) (ramfs : DfsRamfs) (path : Path) (flags : Flags)
    (allocated : Bool) : Decidable (Creates behind ramfs path flags allocated) :=
  inferInstanceAs (Decidable (_ ∧ _))

/-- An open fails, finds an entry, or creates one. -/
inductive OpenCase (behind : RamfsDirent → Path) (ramfs : DfsRamfs) (path : Path)
    (flags : Flags) (allocated : Bool) : Except Errno (DfsRamfs × DfsFd) → Prop where
  | failed (errno : Errno) (hnot : ¬ Creates behind ramfs path flags allocated) :
      OpenCase behind ramfs path flags allocated (.error errno)
  | found (dirent : RamfsDirent) (hfound : dfsRamfsLookup behind ramfs path = some dirent) :
      OpenCase behind ramfs path flags allocated (.ok (finishOpen ramfs dirent flags))
  | created (hnew : Creates behind ramfs path flags allocated) :
      OpenCase behind ramfs path flags allocated
        (.ok (finishOpen (createDirent ramfs path) (newDirent ramfs path) flags))

theorem dfsRamfsOpen_cases (behind : RamfsDirent → Path) (ramfs : DfsRamfs) (path : Path)
    (flags : Flags) (allocated : Bool) :
    OpenCase behind ramfs path flags allocated
      (dfsRamfsOpen behind ramfs path flags allocated) := by
  unfold dfsRamfsOpen
  split
  case isTrue hdir => exact .failed _ fun hnew => hnew.2.1 hdir.1
  case isFalse =>
    unfold openDirent
    cases hfound : dfsRamfsLookup behind ramfs path with
    | some dirent =>
      have hnot : ¬ Creates behind ramfs path flags allocated := by
        intro hnew
        rw [hnew.1] at hfound
        cases hfound
      dsimp only
      split
      · exact .failed _ hnot
      · exact .found dirent hfound
    | none =>
      dsimp only
      split
      case isTrue hdir => exact .failed _ fun hnew => hnew.2.1 hdir
      case isFalse hdir =>
        split
        case isTrue hflags =>
          split
          case isTrue hroom => exact .created ⟨hfound, hdir, hflags, hroom⟩
          case isFalse hroom => exact .failed _ fun hnew => hroom hnew.2.2.2
        case isFalse hflags => exact .failed _ fun hnew => hflags hnew.2.2.1

/-! ## Entries by their numbers -/

/-- No two entries have one number, and the next number is new. -/
structure Numbered (ramfs : DfsRamfs) : Prop where
  nodup : (ramfs.dirents.map RamfsDirent.addr).Nodup
  lt_next : ∀ d ∈ ramfs.dirents, d.addr < ramfs.next

theorem dfsRamfsCreate_numbered : Numbered dfsRamfsCreate := by
  constructor
  · decide
  · decide

variable {ramfs : DfsRamfs} {addr : Nat} {d : RamfsDirent}

theorem DfsRamfs.dirent_addr (h : ramfs.dirent addr = some d) : d.addr = addr := by
  have := List.find?_some h
  simpa using this

theorem DfsRamfs.dirent_mem (h : ramfs.dirent addr = some d) :
    d ∈ ramfs.dirents := List.mem_of_find?_eq_some h

theorem Numbered.eq_of_addr (h : Numbered ramfs) {e : RamfsDirent} (hd : d ∈ ramfs.dirents)
    (he : e ∈ ramfs.dirents) (ha : d.addr = e.addr) : d = e :=
  List.inj_on_of_nodup_map h.nodup hd he ha

theorem Numbered.dirent_eq (h : Numbered ramfs) (hd : d ∈ ramfs.dirents) :
    ramfs.dirent d.addr = some d := by
  cases hfind : ramfs.dirent d.addr with
  | none =>
    have := List.find?_eq_none.mp hfind d hd
    simp at this
  | some e =>
    have he := ramfs.dirent_addr hfind
    rw [h.eq_of_addr (ramfs.dirent_mem hfind) hd he]

theorem DfsRamfs.put_dirents (ramfs : DfsRamfs) (dirent : RamfsDirent) :
    (ramfs.put dirent).dirents =
      ramfs.dirents.map fun d => if d.addr = dirent.addr then dirent else d := rfl

theorem DfsRamfs.put_addrs (ramfs : DfsRamfs) (dirent : RamfsDirent) :
    (ramfs.put dirent).dirents.map RamfsDirent.addr = ramfs.dirents.map RamfsDirent.addr := by
  rw [put_dirents, List.map_map]
  apply List.map_congr_left
  intro d _
  simp only [Function.comp_apply]
  split
  · rename_i h
    exact h.symm
  · rfl

theorem Numbered.put (h : Numbered ramfs) (dirent : RamfsDirent) : Numbered (ramfs.put dirent) := by
  constructor
  · rw [ramfs.put_addrs]
    exact h.nodup
  · intro d hd
    have haddr := List.mem_map_of_mem (f := RamfsDirent.addr) hd
    rw [ramfs.put_addrs] at haddr
    obtain ⟨e, he, heq⟩ := List.mem_map.mp haddr
    rw [← heq]
    exact h.lt_next e he

theorem Numbered.create (h : Numbered ramfs) (path : Path) :
    Numbered (createDirent ramfs path) := by
  have hperm : ((createDirent ramfs path).dirents.map RamfsDirent.addr).Perm
      (ramfs.next :: ramfs.dirents.map RamfsDirent.addr) := List.Perm.swap _ _ _
  have hlt : ∀ d ∈ (createDirent ramfs path).dirents, d.addr < ramfs.next + 1 := by
    intro d hd
    have haddr := hperm.mem_iff.mp (List.mem_map_of_mem (f := RamfsDirent.addr) hd)
    rcases List.mem_cons.mp haddr with heq | hmem
    · omega
    · obtain ⟨e, he, heq⟩ := List.mem_map.mp hmem
      have := h.lt_next e he
      omega
  constructor
  · rw [hperm.nodup_iff, List.nodup_cons]
    constructor
    · intro hmem
      obtain ⟨e, he, heq⟩ := List.mem_map.mp hmem
      have := h.lt_next e he
      omega
    · exact h.nodup
  · exact hlt

/-- An entry put back is found under its number, and the other numbers find what they found. -/
theorem DfsRamfs.dirent_put (ramfs : DfsRamfs) (dirent : RamfsDirent) (addr : Nat) :
    (ramfs.put dirent).dirent addr =
      if addr = dirent.addr then (ramfs.dirent addr).map fun _ => dirent
      else ramfs.dirent addr := by
  unfold DfsRamfs.dirent
  rw [put_dirents]
  induction ramfs.dirents with
  | nil => split <;> rfl
  | cons d ds ih =>
    rw [List.map_cons, List.find?_cons, List.find?_cons]
    by_cases hd : d.addr = dirent.addr
    · rw [if_pos hd]
      by_cases ha : addr = dirent.addr
      · simp [ha, hd]
      · have h1 : dirent.addr ≠ addr := fun h => ha h.symm
        have h2 : d.addr ≠ addr := fun h => ha (h.symm.trans hd)
        simpa [ha, h1, h2] using ih
    · rw [if_neg hd]
      by_cases ha : addr = dirent.addr
      · have h2 : d.addr ≠ addr := fun h => hd (h.trans ha)
        simpa [ha, h2, hd] using ih
      · by_cases h2 : d.addr = addr
        · simp [ha, h2]
        · simpa [ha, h2] using ih

end RtThread.Ramfs
