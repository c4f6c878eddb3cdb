import RtThread.DfsPath
import RtThread.Lib.Runs

/-!
# The mount table

`dfs_mount`, `dfs_unmount` and `dfs_filesystem_lookup` over `filesystem_table`. What the
allocator, the device layer and the operations of the file system return is an input of each
call; a null pointer that is read refuses the step.
-/
namespace RtThread.Dfs

/-! ## The table -/

/-- `struct dfs_filesystem_ops`: the name and which of the two operations are there. -/
structure FilesystemOps where
  name : String
  mount : Bool
  unmount : Bool
  deriving DecidableEq

/-- An entry of `filesystem_table`. -/
structure Filesystem where
  path : Option Path
  ops : Option FilesystemOps
  devId : Option Nat
  deriving DecidableEq

/-- The entry behind `rt_memset(fs, 0, sizeof(struct dfs_filesystem))`. -/
def Filesystem.cleared : Filesystem := ⟨none, none, none⟩

abbrev FilesystemTable := List Filesystem

inductive Errno where
  | enodev | enosys | enotdir | einval | enospc
  deriving DecidableEq

/-- The return value of a call and the error number it sets. -/
structure Outcome where
  ret : Int
  errno : Option Errno
  deriving DecidableEq

def succeeded : Outcome := ⟨0, none⟩
def failed (errno : Option Errno) : Outcome := ⟨-1, errno⟩

/-! ## Lookup -/

/-- The two `continue`s of the scan. -/
def Skipped (path fspath : Path) (prefixlen : Nat) : Prop :=
  (fspath.length < prefixlen ∨ ¬ fspath <+: path) ∨
    (1 < fspath.length ∧ fspath.length < path.length ∧ path[fspath.length]? ≠ some '/')

instance (path fspath : Path) (prefixlen : Nat) : Decidable (Skipped path fspath prefixlen) :=
  inferInstanceAs (Decidable (_ ∨ _))

/-- The scan from entry `i` on, with the entry found so far and the length of its path. -/
def lookupLoop (path : Path) : FilesystemTable → Nat → Option Nat → Nat → Option Nat
  | [], _, fs, _ => fs
  | iter :: rest, i, fs, prefixlen =>
    match iter.path, iter.ops with
    | some fspath, some _ =>
      if Skipped path fspath prefixlen then lookupLoop path rest (i + 1) fs prefixlen
      else lookupLoop path rest (i + 1) (some i) fspath.length
    | _, _ => lookupLoop path rest (i + 1) fs prefixlen

def dfsFilesystemLookup (table : FilesystemTable) (path : Path) : Option Nat :=
  lookupLoop path table 0 none 0

/-! ## Mount -/

/-- The arguments of a `dfs_mount`, the working directory, and what the calls in it return. -/
structure MountCall where
  /-- `none` without a device name, else the result of `rt_device_find`. -/
  device : Option (Option Nat)
  path : Path
  filesystemtype : String
  directory : Path
  allocated : Bool
  directoryOpens : Bool
  deviceOpens : Bool
  mounts : Bool
  deriving DecidableEq

/-- How the scan for the path and for an empty entry ends. -/
inductive Scan where
  | mounted
  | empty (fs : Option Nat)
  deriving DecidableEq

/-- The scan of `dfs_mount` from entry `i` on; an occupied entry without a path is an error. -/
def scanTable (path : Path) : FilesystemTable → Nat → Option Nat → Option Scan
  | [], _, fs => some (.empty fs)
  | iter :: rest, i, fs =>
    match iter.ops with
    | none => scanTable path rest (i + 1) (if fs.isNone then some i else fs)
    | some _ => iter.path.bind fun mounted =>
      if mounted = path then some .mounted else scanTable path rest (i + 1) fs

/-- `dfs_mount` from the registration in entry `fs` on. -/
def registerFilesystem (table : FilesystemTable) (call : MountCall) (fs : Nat) (fullpath : Path)
    (ops : FilesystemOps) (devId : Option Nat) : FilesystemTable × Outcome :=
  let table := table.set fs ⟨some fullpath, some ops, devId⟩
  if devId.isSome ∧ ¬ call.deviceOpens then (table.set fs .cleared, failed none)
  else if ¬ call.mounts then (table.set fs .cleared, failed none)
  else (table, succeeded)

/-- `dfs_mount` from the check of the table on: the check is that of the path as given. -/
def enterTable (table : FilesystemTable) (call : MountCall) (fullpath : Path)
    (ops : FilesystemOps) (devId : Option Nat) : Option (FilesystemTable × Outcome) :=
  (scanTable call.path table 0 none).map fun
    | .mounted => (table, failed (some .einval))
    | .empty none => (table, failed (some .enospc))
    | .empty (some fs) => registerFilesystem table call fs fullpath ops devId

/-- The entry of `filesystem_operation_table` for a file system type. -/
def findOps (types : List (Option FilesystemOps)) (filesystemtype : String) :
    Option FilesystemOps :=
  types.findSome? fun ops => ops.filter fun ops => ops.name = filesystemtype

def dfsMount (types : List (Option FilesystemOps)) (table : FilesystemTable)
    (call : MountCall) : Option (FilesystemTable × Outcome) :=
  match call.device with
  | some none => some (table, failed (some .enodev))
  | device =>
    match findOps types call.filesystemtype with
    | none => some (table, failed (some .enodev))
    | some ops =>
      if ¬ ops.mount then some (table, failed (some .enosys))
      else
        match dfsNormalizePath call.allocated call.directory call.path with
        | none => some (table, failed (some .enotdir))
        | some fullpath =>
          if fullpath ≠ ['/'] ∧ fullpath ≠ ['/', 'd', 'e', 'v'] ∧ ¬ call.directoryOpens then
            some (table, failed (some .enotdir))
          else enterTable table call fullpath ops device.join

/-! ## Unmount -/

structure UnmountCall where
  specialfile : Path
  directory : Path
  allocated : Bool
  unmounts : Bool
  deriving DecidableEq

/-- The end of `dfs_unmount`; an entry without operations is an error. -/
def leaveTable (table : FilesystemTable) (call : UnmountCall) (fs : Nat) (entry : Filesystem) :
    Option (FilesystemTable × Outcome) :=
  entry.ops.map fun ops =>
    if ¬ ops.unmount ∨ ¬ call.unmounts then (table, failed none)
    else (table.set fs .cleared, succeeded)

def dfsUnmount (table : FilesystemTable) (call : UnmountCall) :
    Option (FilesystemTable × Outcome) :=
  match dfsNormalizePath call.allocated call.directory call.specialfile with
  | none => some (table, failed (some .enotdir))
  | some fullpath =>
    match table.findIdx? (fun iter => iter.path = some fullpath) with
    | none => some (table, failed none)
    | some fs => (table[fs]?).bind (leaveTable table call fs)

/-! ## Runs -/

inductive MountOp where
  | mount (call : MountCall)
  | unmount (call : UnmountCall)
  deriving DecidableEq

def mountStep (types : List (Option FilesystemOps)) (table : FilesystemTable) :
    MountOp → Option FilesystemTable
  | .mount call => (dfsMount types table call).map Prod.fst
  | .unmount call => (dfsUnmount table call).map Prod.fst

/-- The table of `n` entries that `dfs_init` clears. -/
def dfsInit (n : Nat) : FilesystemTable := List.replicate n .cleared

/-- Entry `i` is occupied and its path is `q`. -/
def MountedAt (table : FilesystemTable) (i : Nat) (q : Path) : Prop :=
  ∃ ops devId, table[i]? = some ⟨some q, some ops, devId⟩

/-- The entry with the longest mounted path above `path`. -/
def LongestMount (table : FilesystemTable) (path : Path) (i : Nat) : Prop :=
  ∃ q, MountedAt table i q ∧ WholePrefix q path ∧
    ∀ j q', MountedAt table j q' → WholePrefix q' path → q'.length ≤ q.length

/-- No path is mounted twice, and lookup finds the longest mounted path above an absolute one. -/
structure Consistent (table : FilesystemTable) : Prop where
  distinct : ∀ i j q, MountedAt table i q → MountedAt table j q → i = j
  found : ∀ path i, Absolute path →
    (dfsFilesystemLookup table path = some i ↔ LongestMount table path i)
  not_found : ∀ path, Absolute path → dfsFilesystemLookup table path = none →
    ∀ i q, MountedAt table i q → ¬ WholePrefix q path

/-- A mount that fails leaves the table as it was. -/
def FailedMountKeeps (types : List (Option FilesystemOps)) (table : FilesystemTable) :
    MountOp → Prop
  | .mount call => ∀ r, dfsMount types table call = some r → r.2.ret ≠ 0 → r.1 = table
  | .unmount _ => True

/-- The paths of the occupied entries. -/
def mountedPaths (table : FilesystemTable) : List Path :=
  table.filterMap fun iter => if iter.ops.isSome then iter.path else none

/-- A mount on a path that is already mounted is given the path in a form the check finds. -/
def CheckedPath (table : FilesystemTable) : MountOp → Prop
  | .mount call => ∀ fullpath ∈ dfsNormalizePath call.allocated call.directory call.path,
      fullpath ∈ mountedPaths table → call.path ∈ mountedPaths table
  | .unmount _ => True

instance (table : FilesystemTable) : ∀ op, Decidable (CheckedPath table op)
  | .mount _ => inferInstanceAs (Decidable (∀ _ ∈ _, _ → _))
  | .unmount _ => inferInstanceAs (Decidable True)

end RtThread.Dfs
