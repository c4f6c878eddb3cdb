import RtThread.Ramfs
import Mathlib.Logic.Function.Basic

/-!
# Files of the RAM file system as shared byte strings

Descriptors are opened, read, written, moved and closed in any order. While each descriptor
that is used knows the length of its file, the file system refines one byte string a file,
with a file and a position for every descriptor.
-/
namespace RtThread.Ramfs

open Dfs

/-! ## Descriptors -/

inductive FileOp where
  | opening (i : Nat) (path : Path) (flags : Flags) (allocated : Bool)
  | read (i count : Nat)
  | write (i : Nat) (buf : Bytes) (granted : Option (Nat → UInt8))
  | lseek (i : Nat) (offset : Int)
  | close (i : Nat)

inductive Result where
  | opened
  | read (buf : Bytes)
  | written (count : Nat)
  | sought (pos : Nat)
  | closed
  | failed (errno : Errno)
  deriving DecidableEq

/-- The file system and the open descriptors. -/
structure Opened where
  ramfs : DfsRamfs
  fds : Nat → Option DfsFd

def nothingOpened : Opened := ⟨dfsRamfsCreate, fun _ => none⟩

/-- Descriptor `i` becomes `fd`. -/
def Opened.setFd (s : Opened) (i : Nat) (fd : Option DfsFd) : Opened :=
  { s with fds := Function.update s.fds i fd }

section Exec

variable (behind : RamfsDirent → Path)

/-- One operation; through a descriptor that is not open it fails an assertion. -/
def exec (s : Opened) : FileOp → Option (Opened × Result)
  | .opening i path flags allocated =>
    match dfsRamfsOpen behind s.ramfs path flags allocated with
    | .error errno => some (s, .failed errno)
    | .ok (ramfs, fd) => some ({ s with ramfs := ramfs }.setFd i (some fd), .opened)
  | .read i count =>
    (s.fds i).bind fun fd =>
      (dfsRamfsRead s.ramfs fd count).map fun (buf, fd) => (s.setFd i (some fd), .read buf)
  | .write i buf granted =>
    (s.fds i).bind fun fd =>
      (dfsRamfsWrite s.ramfs fd buf granted).map fun (ramfs, fd, count) =>
        ({ s with ramfs := ramfs }.setFd i (some fd), .written count)
  | .lseek i offset =>
    (s.fds i).map fun fd =>
      match dfsRamfsLseek fd offset with
      | .error errno => (s, .failed errno)
      | .ok fd => (s.setFd i (some fd), .sought fd.pos)
  | .close i => (s.fds i).map fun _ => (s.setFd i none, .closed)

def fileStep (s : Opened) (op : FileOp) : Option Opened := (exec behind s op).map Prod.fst

end Exec

/-! ## One byte string a file -/

/-- The bytes of every file, and the file and the position of every open descriptor. -/
structure SharedFiles where
  content : Nat → Bytes
  descriptor : Nat → Option (Nat × Nat)

/-- Descriptor `i` is in `file` at `pos`. -/
def SharedFiles.moveTo (x : SharedFiles) (i file pos : Nat) : SharedFiles :=
  { x with descriptor := Function.update x.descriptor i (some (file, pos)) }

/-- The content of an opened file. -/
def openedContent (x : SharedFiles) (file : Nat) (flags : Flags) : Nat → Bytes :=
  if ¬ flags.directory ∧ flags.trunc then Function.update x.content file [] else x.content

/-- What an operation may do to the byte strings, where `found` is the directory. -/
inductive SharedStep (found : Path → Option Nat) (x : SharedFiles) :
    FileOp → Result → SharedFiles → Prop where
  | opened {i : Nat} {path : Path} {flags : Flags} {allocated : Bool} (file : Nat)
      (hfile : ∀ f, found path = some f → f = file)
      (hnew : found path = none → x.content file = [] ∧
        ∀ j g pos, x.descriptor j = some (g, pos) → g ≠ file) :
      SharedStep found x (.opening i path flags allocated) .opened
        (SharedFiles.moveTo ⟨openedContent x file flags, x.descriptor⟩ i file
          (if flags.append then (openedContent x file flags file).length else 0))
  | openFailed {i : Nat} {path : Path} {flags : Flags} {allocated : Bool} (errno : Errno) :
      SharedStep found x (.opening i path flags allocated) (.failed errno) x
  | read {i count file pos : Nat} (hfd : x.descriptor i = some (file, pos)) :
      SharedStep found x (.read i count) (.read (((x.content file).drop pos).take count))
        (x.moveTo i file (pos + min count ((x.content file).length - pos)))
  | written {i file pos : Nat} {buf : Bytes} {granted : Option (Nat → UInt8)}
      (hfd : x.descriptor i = some (file, pos)) (hpos : pos ≤ (x.content file).length) :
      SharedStep found x (.write i buf granted) (.written buf.length)
        (SharedFiles.moveTo
          ⟨Function.update x.content file (overwrite (x.content file) pos buf), x.descriptor⟩
          i file (pos + buf.length))
  | writeFailed {i : Nat} {buf : Bytes} (hbuf : buf ≠ []) :
      SharedStep found x (.write i buf none) (.written 0) x
  | sought {i file pos : Nat} {offset : Nat} (hfd : x.descriptor i = some (file, pos)) :
      SharedStep found x (.lseek i offset) (.sought offset) (x.moveTo i file offset)
  | seekFailed {i : Nat} {offset : Int} (errno : Errno) :
      SharedStep found x (.lseek i offset) (.failed errno) x
  | closed {i file pos : Nat} (hfd : x.descriptor i = some (file, pos)) :
      SharedStep found x (.close i) .closed
        { x with descriptor := Function.update x.descriptor i none }

/-- The bytes of a file. -/
def DfsRamfs.content (ramfs : DfsRamfs) (file : Nat) : Bytes :=
  ((ramfs.dirent file).bind RamfsDirent.data).getD []

/-- The byte strings that a state of the file system stands for. -/
def Opened.shared (s : Opened) : SharedFiles :=
  ⟨s.ramfs.content, fun i => (s.fds i).map fun fd => (fd.data, fd.pos)⟩

/-- The operation goes through, and does to the byte strings what it should. -/
def Shares (behind : RamfsDirent → Path) (s : Opened) (op : FileOp) : Prop :=
  ∃ r, exec behind s op = some r ∧
    SharedStep (fun path => (dfsRamfsLookup behind s.ramfs path).map RamfsDirent.addr)
      s.shared op r.2 r.1.shared

/-- Descriptor `i` is open, and the next `count` bytes are inside both the length it knows and
that of the file, unless the two are the same. -/
def Fits (s : Opened) (i count : Nat) : Prop :=
  ∃ fd ∈ s.fds i, ∃ dirent ∈ s.ramfs.dirent fd.data,
    fd.size = dirent.size ∨ fd.pos + count ≤ fd.size ∧ fd.pos + count ≤ dirent.size

/-- Reads and writes fit, the end of a write is a `size_t`, and no offset is negative. -/
def InStep (s : Opened) : FileOp → Prop
  | .opening _ _ _ _ => True
  | .read i count => Fits s i count
  | .write i buf _ => Fits s i buf.length ∧ ∀ fd ∈ s.fds i, fd.pos + buf.length < sizeRange
  | .lseek i offset => (s.fds i).isSome ∧ 0 ≤ offset
  | .close i => (s.fds i).isSome

instance (s : Opened) (i count : Nat) : Decidable (Fits s i count) :=
  inferInstanceAs (Decidable (∃ _ ∈ _, _))

instance (s : Opened) : ∀ op, Decidable (InStep s op)
  | .opening _ _ _ _ => inferInstanceAs (Decidable True)
  | .read _ _ => inferInstanceAs (Decidable (Fits _ _ _))
  | .write _ _ _ => inferInstanceAs (Decidable (_ ∧ _))
  | .lseek _ _ => inferInstanceAs (Decidable (_ ∧ _))
  | .close _ => inferInstanceAs (Decidable (_ = true))

/-! ## The invariant -/

/-- The length in the directory is that of the block; every descriptor has an entry, and is
not behind the length it knows. -/
structure FileInv (s : Opened) : Prop where
  numbered : Numbered s.ramfs
  sized : ∀ d ∈ s.ramfs.dirents, d.size = (d.data.getD []).length ∧ d.size < sizeRange
  held : ∀ i fd, s.fds i = some fd →
    (∃ d, s.ramfs.dirent fd.data = some d) ∧ fd.pos ≤ fd.size ∧ fd.size < sizeRange

theorem nothingOpened_inv : FileInv nothingOpened := by
  constructor
  · exact dfsRamfsCreate_numbered
  · decide
  · intro i fd h
    cases h

variable {i count file pos : Nat} {d dirent : RamfsDirent} {fd : DfsFd} {buf bytes : Bytes}
  {ramfs : DfsRamfs}

theorem FileInv.content_length {s : Opened} (h : FileInv s) (hd : s.ramfs.dirent file = some d) :
    s.ramfs.content file = d.data.getD [] ∧ (s.ramfs.content file).length = d.size := by
  have hc : s.ramfs.content file = d.data.getD [] := by
    rw [DfsRamfs.content, hd, Option.bind_some]
  rw [hc]
  exact ⟨rfl, (h.sized d (s.ramfs.dirent_mem hd)).1.symm⟩

theorem content_put (ramfs : DfsRamfs) (h : (ramfs.dirent dirent.addr).isSome) :
    (ramfs.put dirent).content =
      Function.update ramfs.content dirent.addr (dirent.data.getD []) := by
  funext file
  obtain ⟨d, hd⟩ := Option.isSome_iff_exists.mp h
  by_cases hf : file = dirent.addr
  · rw [hf, Function.update_self, DfsRamfs.content, ramfs.dirent_put, if_pos rfl, hd]
    rfl
  · rw [Function.update_of_ne hf, DfsRamfs.content, ramfs.dirent_put, if_neg hf]
    rfl

theorem FileInv.put {s : Opened} (h : FileInv s)
    (hsize : dirent.size = (dirent.data.getD []).length) (hlt : dirent.size < sizeRange) :
    FileInv { s with ramfs := s.ramfs.put dirent } := by
  constructor
  · exact h.numbered.put dirent
  · intro d hd
    rw [s.ramfs.put_dirents] at hd
    obtain ⟨e, he, rfl⟩ := List.mem_map.mp hd
    split
    · exact ⟨hsize, hlt⟩
    · exact h.sized e he
  · intro i fd hfd
    obtain ⟨⟨d, hd⟩, hpos⟩ := h.held i fd hfd
    refine ⟨?_, hpos⟩
    rw [s.ramfs.dirent_put, hd]
    split
    · exact ⟨dirent, rfl⟩
    · exact ⟨d, rfl⟩

theorem Opened.setFd_fds (s : Opened) (i : Nat) (fd : Option DfsFd) (j : Nat) :
    (s.setFd i fd).fds j = if j = i then fd else s.fds j :=
  Function.update_apply s.fds i fd j

theorem FileInv.setFd {s : Opened} (h : FileInv s) (i : Nat) {fd : Option DfsFd}
    (hfd : ∀ fd' ∈ fd, (∃ d, s.ramfs.dirent fd'.data = some d) ∧ fd'.pos ≤ fd'.size ∧
      fd'.size < sizeRange) : FileInv (s.setFd i fd) := by
  constructor
  · exact h.numbered
  · exact h.sized
  · intro j fd' hfd'
    rw [s.setFd_fds] at hfd'
    split at hfd'
    · exact hfd fd' (Option.mem_def.mpr hfd')
    · exact h.held j fd' hfd'

theorem shared_setFd (s : Opened) (i : Nat) (fd : Option DfsFd) :
    (s.setFd i fd).shared = { s.shared with
      descriptor := Function.update s.shared.descriptor i
        (fd.map fun fd => (fd.data, fd.pos)) } := by
  unfold Opened.shared
  congr 1
  funext j
  rw [s.setFd_fds, Function.update_apply]
  split <;> rfl

theorem shared_descriptor {s : Opened} (h : s.fds i = some fd) :
    s.shared.descriptor i = some (fd.data, fd.pos) := by
  simp only [Opened.shared, h, Option.map_some]

/-! ## Reads and writes -/

/-- Inside its block, a read returns the bytes of the file and no others. -/
theorem readAt_content {s : Opened} (h : FileInv s) (hd : s.ramfs.dirent file = some d)
    {length : Nat} (hpos : 0 < length) (hle : pos + length ≤ d.size) :
    readAt d.data pos length = some (((s.ramfs.content file).drop pos).take length) := by
  obtain ⟨hc, hlen⟩ := h.content_length hd
  rw [hc] at hlen ⊢
  cases hdata : d.data with
  | none =>
    rw [hdata] at hlen
    simp only [Option.getD_none, List.length_nil] at hlen
    omega
  | some bytes =>
    rw [hdata, Option.getD_some] at hlen
    exact if_pos (by omega)

theorem dfsRamfsRead_eq {s : Opened} (h : FileInv s) (hi : s.fds i = some fd)
    (hd : s.ramfs.dirent fd.data = some d)
    (hfit : fd.size = d.size ∨ fd.pos + count ≤ fd.size ∧ fd.pos + count ≤ d.size) :
    dfsRamfsRead s.ramfs fd count =
      some (((s.ramfs.content fd.data).drop fd.pos).take count,
        { fd with pos := fd.pos + min count ((s.ramfs.content fd.data).length - fd.pos) }) := by
  obtain ⟨-, hpos, hlt⟩ := h.held i fd hi
  obtain ⟨-, hlen⟩ := h.content_length hd
  have hrest : (fd.size + (sizeRange - fd.pos)) % sizeRange = fd.size - fd.pos := by
    have hsum : fd.size + (sizeRange - fd.pos) = (fd.size - fd.pos) + sizeRange := by omega
    rw [hsum, Nat.add_mod_right, Nat.mod_eq_of_lt (by omega)]
  have hlength : (if count < fd.size - fd.pos then count else fd.size - fd.pos) =
      min count (d.size - fd.pos) := by
    split <;> omega
  have hmod : (fd.pos + min count (d.size - fd.pos)) % sizeRange =
      fd.pos + min count (d.size - fd.pos) := Nat.mod_eq_of_lt (by omega)
  have htake : ∀ bytes : Bytes, bytes.length = d.size →
      (bytes.drop fd.pos).take (min count (d.size - fd.pos)) = (bytes.drop fd.pos).take count := by
    intro bytes hb
    rw [← hb, ← List.length_drop]
    exact List.take_eq_take_min.symm
  rw [dfsRamfsRead, hd, Option.bind_some, hlen]
  simp only [hrest, hlength, hmod]
  split
  case isTrue hsome =>
    rw [readAt_content h hd hsome (by omega), htake _ hlen]
    rfl
  case isFalse hnone =>
    have hzero : min count (d.size - fd.pos) = 0 := by omega
    have hnil := htake _ hlen
    rw [hzero, List.take_zero] at hnil
    rw [← hnil]

/-- The bytes that `rt_memheap_realloc` gives keep the old ones in front. -/
theorem rtMemheapRealloc_some {data : Option Bytes} {newsize : Nat} (fill : Nat → UInt8)
    (hlen : (data.getD []).length ≤ newsize) :
    ∃ new, rtMemheapRealloc data newsize (some fill) = some (data.getD [] ++ new) ∧
      (data.getD []).length + new.length = newsize := by
  refine ⟨(List.range (newsize - (data.getD []).length)).map fill, ?_, ?_⟩
  · simp only [rtMemheapRealloc, Option.map_some, List.take_of_length_le hlen]
  · rw [List.length_map, List.length_range]
    omega

theorem overwrite_length (h : pos + buf.length ≤ bytes.length) :
    (overwrite bytes pos buf).length = bytes.length := by
  simp only [overwrite, List.length_append, List.length_take, List.length_drop]
  omega

/-- Bytes behind the end of the copy do not matter when they are all overwritten. -/
theorem overwrite_append {new : Bytes} (hpos : pos ≤ bytes.length)
    (hend : bytes.length + new.length = pos + buf.length) :
    overwrite (bytes ++ new) pos buf = overwrite bytes pos buf := by
  have h1 : (bytes ++ new).drop (pos + buf.length) = [] :=
    List.drop_eq_nil_of_le (by rw [List.length_append]; omega)
  have h2 : bytes.drop (pos + buf.length) = [] := List.drop_eq_nil_of_le (by omega)
  rw [overwrite, overwrite, h1, h2, List.take_append_of_le_length hpos]

/-- The copy at the end of a write, into an entry whose block is large enough. -/
theorem copyIn_eq (ramfs : DfsRamfs) (fd : DfsFd) (d : RamfsDirent)
    (hend : fd.pos + buf.length ≤ (d.data.getD []).length) (hlt : fd.pos + buf.length < sizeRange) :
    ∃ data, copyIn ramfs fd d buf =
        some (ramfs.put { d with data := data },
          { fd with pos := fd.pos + buf.length }, buf.length) ∧
      data.getD [] = overwrite (d.data.getD []) fd.pos buf := by
  have hmod : (fd.pos + buf.length) % sizeRange = fd.pos + buf.length := Nat.mod_eq_of_lt hlt
  unfold copyIn
  simp only [hmod]
  split
  case isTrue hpos =>
    cases hdata : d.data with
    | none =>
      rw [hdata] at hend
      simp only [Option.getD_none, List.length_nil] at hend
      omega
    | some bytes =>
      rw [hdata, Option.getD_some] at hend
      refine ⟨some (overwrite bytes fd.pos buf), ?_, rfl⟩
      simp only [writeAt, Option.bind_some, if_pos hend, Option.map_some]
  case isFalse hzero =>
    obtain rfl : buf = [] := List.eq_nil_of_length_eq_zero (by omega)
    refine ⟨d.data, rfl, ?_⟩
    simp [overwrite]

/-- A write that fits fails and changes nothing, or overwrites the bytes from the position on. -/
theorem dfsRamfsWrite_cases {s : Opened} (h : FileInv s) (hi : s.fds i = some fd)
    (hd : s.ramfs.dirent fd.data = some d) (hfit : fd.size = d.size ∨
      fd.pos + buf.length ≤ fd.size ∧ fd.pos + buf.length ≤ d.size)
    (hlt : fd.pos + buf.length < sizeRange) (granted : Option (Nat → UInt8)) :
    (granted = none ∧ buf ≠ [] ∧ dfsRamfsWrite s.ramfs fd buf granted = some (s.ramfs, fd, 0)) ∨
    ∃ d' size, dfsRamfsWrite s.ramfs fd buf granted =
        some (s.ramfs.put d', ⟨fd.data, size, fd.pos + buf.length⟩, buf.length) ∧
      d'.addr = fd.data ∧ d'.size = (d'.data.getD []).length ∧ d'.size < sizeRange ∧
      fd.pos + buf.length ≤ size ∧ size < sizeRange ∧ fd.pos ≤ d.size ∧
      d'.data.getD [] = overwrite (d.data.getD []) fd.pos buf := by
  obtain ⟨-, hpos, hsize⟩ := h.held i fd hi
  obtain ⟨hlen, hdlt⟩ := h.sized d (s.ramfs.dirent_mem hd)
  have haddr : d.addr = fd.data := s.ramfs.dirent_addr hd
  have hmod : (fd.pos + buf.length) % sizeRange = fd.pos + buf.length := Nat.mod_eq_of_lt hlt
  rw [dfsRamfsWrite, hd, Option.bind_some]
  simp only [hmod]
  split
  case isTrue hgrow =>
    cases granted with
    | none =>
      have hbuf : buf ≠ [] := by
        rintro rfl
        rw [List.length_nil] at hgrow
        omega
      exact Or.inl ⟨rfl, hbuf, rfl⟩
    | some fill =>
      have hold : (d.data.getD []).length ≤ fd.pos + buf.length := by omega
      obtain ⟨new, hptr, hnew⟩ := rtMemheapRealloc_some fill hold
      obtain ⟨data, hcopy, hdata⟩ := copyIn_eq s.ramfs ⟨fd.data, fd.pos + buf.length, fd.pos⟩
        ⟨d.addr, d.name, some (d.data.getD [] ++ new), fd.pos + buf.length⟩
        (by rw [Option.getD_some, List.length_append]; exact Nat.le_of_eq hnew.symm) hlt
      rw [Option.getD_some, overwrite_append (by omega) hnew] at hdata
      have hdlen : (data.getD []).length = fd.pos + buf.length := by
        rw [hdata]
        simp only [overwrite, List.length_append, List.length_take, List.length_drop]
        omega
      simp only [hptr]
      exact Or.inr ⟨_, _, hcopy, haddr, hdlen.symm, hlt, Nat.le_refl _, hlt, by omega, hdata⟩
  case isFalse hin =>
    have hend : fd.pos + buf.length ≤ (d.data.getD []).length := by omega
    obtain ⟨data, hcopy, hdata⟩ := copyIn_eq s.ramfs fd d hend hlt
    have hdlen : d.size = (data.getD []).length := by
      rw [hdata, overwrite_length hend, hlen]
    exact Or.inr ⟨_, _, hcopy, haddr, hdlen, hdlt, by omega, hsize, by omega, hdata⟩

/-! ## Opens -/

theorem lookup_dirent {behind : RamfsDirent → Path} (h : Numbered ramfs) {path : Path}
    (hfound : dfsRamfsLookup behind ramfs path = some d) : ramfs.dirent d.addr = some d := by
  unfold dfsRamfsLookup at hfound
  dsimp only at hfound
  split at hfound
  · cases hfound
    exact h.dirent_eq List.mem_cons_self
  · exact h.dirent_eq (List.mem_cons_of_mem _ (List.mem_of_find?_eq_some hfound))

theorem Numbered.dirent_next (h : Numbered ramfs) : ramfs.dirent ramfs.next = none := by
  cases hd : ramfs.dirent ramfs.next with
  | none => rfl
  | some d =>
    have := h.lt_next d (ramfs.dirent_mem hd)
    rw [ramfs.dirent_addr hd] at this
    omega

/-- A new entry is found under its number, and the other numbers find what they found. -/
theorem Numbered.dirent_create (h : Numbered ramfs) (path : Path) (addr : Nat) :
    (createDirent ramfs path).dirent addr =
      if addr = ramfs.next then some (newDirent ramfs path) else ramfs.dirent addr := by
  have hroot := h.lt_next ramfs.root List.mem_cons_self
  have hnew : (newDirent ramfs path).addr = ramfs.next := rfl
  by_cases ha : addr = ramfs.next
  · rw [if_pos ha, ha]
    simp only [DfsRamfs.dirent, DfsRamfs.dirents, createDirent, List.find?_cons, hnew,
      decide_true, Nat.ne_of_lt hroot, decide_false]
  · have ha' : ramfs.next ≠ addr := fun h => ha h.symm
    rw [if_neg ha]
    simp only [DfsRamfs.dirent, DfsRamfs.dirents, createDirent, List.find?_cons, hnew, ha',
      decide_false]

theorem Numbered.content_create (h : Numbered ramfs) (path : Path) :
    (createDirent ramfs path).content = ramfs.content := by
  funext file
  rw [DfsRamfs.content, DfsRamfs.content, h.dirent_create]
  split
  case isTrue hf =>
    rw [hf, h.dirent_next]
    rfl
  case isFalse => rfl

theorem FileInv.create {s : Opened} (h : FileInv s) (path : Path) :
    FileInv { s with ramfs := createDirent s.ramfs path } := by
  constructor
  · exact h.numbered.create path
  · intro d hd
    rcases List.mem_cons.mp hd with rfl | hd
    · exact h.sized _ List.mem_cons_self
    · rcases List.mem_cons.mp hd with rfl | hd
      · exact ⟨rfl, show 0 < sizeRange by decide⟩
      · exact h.sized d (List.mem_cons_of_mem _ hd)
  · intro i fd hfd
    obtain ⟨⟨d, hd⟩, hpos⟩ := h.held i fd hfd
    refine ⟨⟨d, ?_⟩, hpos⟩
    rw [h.numbered.dirent_create, if_neg, hd]
    intro heq
    rw [heq, h.numbered.dirent_next] at hd
    cases hd

/-- Behind the choice of the entry an open does what the byte strings say. -/
theorem FileInv.finishOpen {s : Opened} (h : FileInv s) (hd : s.ramfs.dirent d.addr = some d)
    (i : Nat) (flags : Flags) {r : DfsRamfs × DfsFd} (hr : finishOpen s.ramfs d flags = r) :
    FileInv ({ s with ramfs := r.1 }.setFd i (some r.2)) ∧
      ({ s with ramfs := r.1 }.setFd i (some r.2)).shared =
        SharedFiles.moveTo ⟨openedContent s.shared d.addr flags, s.shared.descriptor⟩ i d.addr
          (if flags.append then (openedContent s.shared d.addr flags d.addr).length else 0) := by
  subst hr
  obtain ⟨hlen, hlt⟩ := h.sized d (s.ramfs.dirent_mem hd)
  obtain ⟨-, hcl⟩ := h.content_length hd
  have hle : (if flags.append then d.size else 0) ≤ d.size := by
    split <;> omega
  rw [shared_setFd]
  unfold Ramfs.finishOpen openedContent
  split
  case isTrue =>
    have hput : FileInv { s with ramfs := s.ramfs.put d.truncated } :=
      h.put rfl (Nat.lt_of_le_of_lt (Nat.zero_le _) hlt)
    have hcontent : (s.ramfs.put d.truncated).content =
        Function.update s.ramfs.content d.addr [] :=
      content_put s.ramfs (Option.isSome_iff_exists.mpr ⟨d, hd⟩)
    have hdirent : (s.ramfs.put d.truncated).dirent d.addr = some d.truncated := by
      rw [s.ramfs.dirent_put, show d.truncated.addr = d.addr from rfl, if_pos rfl, hd]
      rfl
    constructor
    · apply hput.setFd
      intro fd' hfd'
      cases hfd'
      exact ⟨⟨_, hdirent⟩, by simp [openedFd, RamfsDirent.truncated],
        Nat.lt_of_le_of_lt (Nat.zero_le _) hlt⟩
    · simp only [Opened.shared, SharedFiles.moveTo, hcontent, Option.map_some, openedFd,
        Function.update_self, List.length_nil]
      rfl
  case isFalse =>
    constructor
    · apply h.setFd
      intro fd' hfd'
      cases hfd'
      exact ⟨⟨d, hd⟩, hle, hlt⟩
    · rw [show s.shared.content = s.ramfs.content from rfl, hcl]
      rfl

/-- A size never becomes larger as an offset. -/
theorem asOffset_le (size : Nat) : asOffset size ≤ size := by
  by_cases hsmall : size < 2 ^ 31
  · have hlt : (size : Int) * 2 < sizeRange := by
      simp only [sizeRange]
      omega
    exact Int.le_of_eq (Int.bmod_eq_of_le_mul_two (by omega) hlt)
  · have hb : asOffset size ≤ ((sizeRange : Int) - 1) / 2 := Int.bmod_le (by decide)
    simp only [sizeRange] at hb
    omega

/-! ## One operation -/

section Step

variable {behind : RamfsDirent → Path} {s : Opened}

/-- The operation goes through, keeps the invariant and does to the byte strings what it
should. -/
def Refines (behind : RamfsDirent → Path) (s : Opened) (op : FileOp) : Prop :=
  ∃ r, exec behind s op = some r ∧ FileInv r.1 ∧
    SharedStep (fun path => (dfsRamfsLookup behind s.ramfs path).map RamfsDirent.addr)
      s.shared op r.2 r.1.shared

theorem opening_refines (h : FileInv s) (i : Nat) (path : Path) (flags : Flags)
    (allocated : Bool) : Refines behind s (.opening i path flags allocated) := by
  have hcase := dfsRamfsOpen_cases behind s.ramfs path flags allocated
  generalize hr : dfsRamfsOpen behind s.ramfs path flags allocated = r at hcase
  simp only [Refines, exec, hr]
  cases hcase with
  | failed errno hnot => exact ⟨_, rfl, h, .openFailed errno⟩
  | found dirent hfound =>
    have hd := lookup_dirent h.numbered hfound
    generalize hfin : finishOpen s.ramfs dirent flags = r
    obtain ⟨hinv, hshared⟩ := h.finishOpen hd i flags hfin
    refine ⟨_, rfl, hinv, ?_⟩
    rw [hshared]
    apply SharedStep.opened
    · intro f hf
      rw [hfound] at hf
      exact (Option.some.inj hf).symm
    · intro hnone
      rw [hfound] at hnone
      cases hnone
  | created hnew =>
    have hc := h.create path
    have hd : (createDirent s.ramfs path).dirent (newDirent s.ramfs path).addr =
        some (newDirent s.ramfs path) := by
      rw [h.numbered.dirent_create]
      exact if_pos rfl
    generalize hfin : finishOpen (createDirent s.ramfs path) (newDirent s.ramfs path) flags = r
    obtain ⟨hinv, hshared⟩ := hc.finishOpen hd i flags hfin
    refine ⟨_, rfl, hinv, ?_⟩
    have hsame : ({ s with ramfs := createDirent s.ramfs path } : Opened).shared = s.shared := by
      rw [Opened.shared, h.numbered.content_create]
      rfl
    rw [hshared, hsame]
    apply SharedStep.opened
    · intro f hf
      rw [hnew.1] at hf
      cases hf
    · intro _
      constructor
      · change s.ramfs.content s.ramfs.next = []
        rw [DfsRamfs.content, h.numbered.dirent_next]
        rfl
      · intro j g pos hj heq
        obtain ⟨fd, hfd, hg⟩ := Option.map_eq_some_iff.mp hj
        obtain ⟨⟨e, he⟩, -⟩ := h.held j fd hfd
        cases hg
        rw [heq, show (newDirent s.ramfs path).addr = s.ramfs.next from rfl,
          h.numbered.dirent_next] at he
        cases he

theorem read_refines (h : FileInv s) (hfit : Fits s i count) :
    Refines behind s (.read i count) := by
  obtain ⟨fd, hi, d, hd, hfit⟩ := hfit
  have hread := dfsRamfsRead_eq h hi hd hfit
  obtain ⟨hex, hpos, hlt⟩ := h.held i fd hi
  obtain ⟨-, hlen⟩ := h.content_length hd
  refine ⟨_, by rw [exec, hi, Option.bind_some, hread]; rfl, ?_, ?_⟩
  · apply h.setFd
    intro fd' hfd'
    cases hfd'
    exact ⟨hex, by dsimp only; omega, hlt⟩
  · rw [shared_setFd]
    exact .read (shared_descriptor hi)

theorem write_refines (h : FileInv s) (hfit : Fits s i buf.length)
    (hlt : ∀ fd ∈ s.fds i, fd.pos + buf.length < sizeRange) (granted : Option (Nat → UInt8)) :
    Refines behind s (.write i buf granted) := by
  obtain ⟨fd, hi, d, hd, hfit⟩ := hfit
  rcases dfsRamfsWrite_cases h hi hd hfit (hlt fd hi) granted with ⟨rfl, hbuf, hwrite⟩ |
    ⟨d', size, hwrite, haddr, hlen, hdlt, hle, hslt, hpos, hdata⟩
  · refine ⟨(s.setFd i (some fd), .written 0),
      by rw [exec, hi, Option.bind_some, hwrite]; rfl, ?_, ?_⟩
    · apply h.setFd
      intro fd' hfd'
      cases hfd'
      exact h.held i fd hi
    · have hsame : (s.setFd i (some fd)).shared = s.shared := by
        rw [shared_setFd, Option.map_some, ← shared_descriptor hi, Function.update_eq_self]
      rw [hsame]
      exact .writeFailed hbuf
  · have hex : (s.ramfs.dirent d'.addr).isSome := by
      rw [haddr, hd]
      rfl
    obtain ⟨hc, hcl⟩ := h.content_length hd
    have hcontent : (s.ramfs.put d').content = Function.update s.ramfs.content fd.data
        (overwrite (s.ramfs.content fd.data) fd.pos buf) := by
      rw [content_put s.ramfs hex, hdata, haddr, hc]
    have hgap : fd.pos ≤ (s.shared.content fd.data).length := by
      change fd.pos ≤ (s.ramfs.content fd.data).length
      omega
    have hput := h.put hlen hdlt
    refine ⟨(({ s with ramfs := s.ramfs.put d' } : Opened).setFd i
      (some ⟨fd.data, size, fd.pos + buf.length⟩), .written buf.length),
      by rw [exec, hi, Option.bind_some, hwrite]; rfl, ?_, ?_⟩
    · apply hput.setFd
      intro fd' hfd'
      cases hfd'
      refine ⟨⟨d', ?_⟩, hle, hslt⟩
      rw [s.ramfs.dirent_put, if_pos haddr.symm, hd]
      rfl
    · rw [shared_setFd]
      simp only [Opened.shared, hcontent]
      exact .written (shared_descriptor hi) hgap

theorem lseek_refines (h : FileInv s) {offset : Int} (hsome : (s.fds i).isSome) (hnn : 0 ≤ offset) :
    Refines behind s (.lseek i offset) := by
  obtain ⟨fd, hi⟩ := Option.isSome_iff_exists.mp hsome
  obtain ⟨off, rfl⟩ := Int.eq_ofNat_of_zero_le hnn
  obtain ⟨hex, -, hlt⟩ := h.held i fd hi
  by_cases hle : (off : Int) ≤ asOffset fd.size
  · have hoff : off ≤ fd.size := Int.ofNat_le.mp (Int.le_trans hle (asOffset_le fd.size))
    have hmod : ((off : Int) % (sizeRange : Int)).toNat = off := by
      rw [← Int.natCast_emod, Int.toNat_natCast, Nat.mod_eq_of_lt (by omega)]
    have hseek : dfsRamfsLseek fd off = .ok ⟨fd.data, fd.size, off⟩ := by
      rw [dfsRamfsLseek, if_pos hle, hmod]
    refine ⟨(s.setFd i (some ⟨fd.data, fd.size, off⟩), .sought off), ?_, ?_, ?_⟩
    · simp only [exec, hi, Option.map_some, hseek]
    · apply h.setFd
      intro fd' hfd'
      cases hfd'
      exact ⟨hex, hoff, hlt⟩
    · have hdesc := shared_descriptor hi
      rw [shared_setFd]
      exact .sought hdesc
  · have hseek : dfsRamfsLseek fd off = .error .eio := if_neg hle
    exact ⟨(s, .failed .eio), by simp only [exec, hi, Option.map_some, hseek], h, .seekFailed _⟩

theorem close_refines (h : FileInv s) (hsome : (s.fds i).isSome) : Refines behind s (.close i) := by
  obtain ⟨fd, hi⟩ := Option.isSome_iff_exists.mp hsome
  refine ⟨_, by rw [exec, hi]; rfl, ?_, ?_⟩
  · apply h.setFd
    intro fd' hfd'
    cases hfd'
  · rw [shared_setFd]
    exact .closed (shared_descriptor hi)

theorem FileInv.step (h : FileInv s) {op : FileOp} (hok : InStep s op) :
    Refines behind s op := by
  cases op with
  | opening i path flags allocated => exact opening_refines h i path flags allocated
  | read i count => exact read_refines h hok
  | write i buf granted => exact write_refines h hok.1 hok.2 granted
  | lseek i offset => exact lseek_refines h hok.1 hok.2
  | close i => exact close_refines h hok

end Step

/-! ## Every run -/

/-- As long as every descriptor that is used knows the length of its file, every operation goes
through and does to one byte string a file what it should. -/
theorem ramfs_shared_bytes (behind : RamfsDirent → Path) (ops : List FileOp)
    (hok : Runs.Along (fileStep behind) InStep nothingOpened ops) :
    (∃ s, Runs.run (fileStep behind) nothingOpened ops = some s) ∧
      Runs.Along (fileStep behind) (Shares behind) nothingOpened ops := by
  have hstep : ∀ s op, FileInv s → InStep s op →
      ∃ s', fileStep behind s op = some s' ∧ FileInv s' := by
    intro s op h hin
    obtain ⟨r, hr, hinv, -⟩ := h.step hin
    exact ⟨r.1, by rw [fileStep, hr]; rfl, hinv⟩
  have hkeep : ∀ s op s', FileInv s → InStep s op → fileStep behind s op = some s' →
      FileInv s' := by
    intro s op s' h hin hs
    obtain ⟨t, ht, hinv⟩ := hstep s op h hin
    obtain rfl : s' = t := Option.some.inj (hs.symm.trans ht)
    exact hinv
  have hshares : ∀ s op, FileInv s → InStep s op → Shares behind s op := by
    intro s op h hin
    obtain ⟨r, hr, -, hshared⟩ := h.step hin
    exact ⟨r, hr, hshared⟩
  obtain ⟨s, hrun, -⟩ := Runs.run_total_along hstep nothingOpened_inv hok
  exact ⟨⟨s, hrun⟩, hok.of_invariant hkeep hshares nothingOpened_inv⟩

def creatFlags : Flags := ⟨false, true, false, false, false⟩

theorem ramfs_shared_bytes_one :
    let behind : RamfsDirent → Path := fun _ => []
    let ops : List FileOp := [.opening 0 ['/', 'a'] creatFlags true,
      .write 0 [1, 2, 3] (some fun _ => 0), .lseek 0 1, .write 0 [9] none, .close 0,
      .opening 1 ['/', 'a'] creatFlags true, .read 1 8]
    Runs.Along (fileStep behind) InStep nothingOpened ops ∧
      (∃ s, Runs.run (fileStep behind) nothingOpened ops = some s) ∧
      Runs.Along (fileStep behind) (Shares behind) nothingOpened ops := by
  intro behind ops
  have hok : Runs.Along (fileStep behind) InStep nothingOpened ops := by decide +kernel
  exact ⟨hok, ramfs_shared_bytes behind ops hok⟩

/-- Two descriptors of one file: behind a write of three bytes through the first, a write of
one byte through the second cuts the file to that byte. -/
theorem stale_descriptor_cuts_file :
    let behind : RamfsDirent → Path := fun _ => []
    ∃ s r, Runs.run (fileStep behind) nothingOpened
        [.opening 0 ['/', 'a'] creatFlags true, .opening 1 ['/', 'a'] creatFlags true,
          .write 0 [1, 2, 3] (some fun _ => 0)] = some s ∧
      exec behind s (.write 1 [9] (some fun _ => 0)) = some r ∧
      s.ramfs.content 1 = [1, 2, 3] ∧ r.1.ramfs.content 1 = [9] ∧
      ¬ Shares behind s (.write 1 [9] (some fun _ => 0)) := by
  intro behind
  have hrun : (Runs.run (fileStep behind) nothingOpened
      [.opening 0 ['/', 'a'] creatFlags true, .opening 1 ['/', 'a'] creatFlags true,
        .write 0 [1, 2, 3] (some fun _ => 0)]).map (fun s =>
          (s.ramfs.content 1, s.fds 1, (exec behind s (.write 1 [9] (some fun _ => 0))).map
            fun r => (r.1.ramfs.content 1, r.2))) =
      some ([1, 2, 3], some ⟨1, 0, 0⟩, some ([9], .written 1)) := by decide +kernel
  obtain ⟨s, hs, hmap⟩ := Option.map_eq_some_iff.mp hrun
  obtain ⟨hbefore, hrest⟩ := Prod.mk.inj hmap
  obtain ⟨hfd, hexec⟩ := Prod.mk.inj hrest
  obtain ⟨r, hr, hafter⟩ := Option.map_eq_some_iff.mp hexec
  obtain ⟨hcut, hres⟩ := Prod.mk.inj hafter
  refine ⟨s, r, hs, hr, hbefore, hcut, ?_⟩
  rintro ⟨r', hr', hshared⟩
  obtain rfl : r = r' := Option.some.inj (hr.symm.trans hr')
  rw [hres] at hshared
  have hdesc : s.shared.descriptor 1 = some (1, 0) := shared_descriptor hfd
  generalize hx : r.1.shared = x at hshared
  cases hshared with
  | @written _ file pos _ _ hfd' hpos =>
    obtain ⟨rfl, rfl⟩ := Prod.mk.inj (Option.some.inj (hdesc.symm.trans hfd'))
    have hcontent := congrArg (fun x => SharedFiles.content x 1) hx
    simp only [SharedFiles.moveTo, Function.update_self] at hcontent
    change r.1.ramfs.content 1 = overwrite (s.ramfs.content 1) 0 [9] at hcontent
    rw [hcut, hbefore] at hcontent
    exact absurd hcontent (by decide)

end RtThread.Ramfs
