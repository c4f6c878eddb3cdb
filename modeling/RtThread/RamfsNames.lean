import RtThread.Ramfs

/-!
# Names in the RAM file system

Which runs of open, rename and unlink keep the names of the directory apart and find every
file under the path it was created with. A rename stores its path with the separator that a
lookup strips, so the runs are those in which no rename gets as far as that.
-/
namespace RtThread.Ramfs

open Dfs

abbrev AbsolutePath := {path : Path // Absolute path}

inductive NameOp where
  | opening (path : AbsolutePath) (flags : Flags) (allocated : Bool)
  | rename (oldpath newpath : AbsolutePath)
  | unlink (path : AbsolutePath)
  deriving DecidableEq

/-- The file system, with the path that each file was created under until it is renamed or
unlinked. -/
structure Tracked where
  ramfs : DfsRamfs
  created : List (AbsolutePath × Nat)
  deriving DecidableEq

def untracked : Tracked := ⟨dfsRamfsCreate, []⟩

section Runs

variable (behind : RamfsDirent → Path)

/-- The file with number `addr` has been renamed or unlinked. -/
def Tracked.leave (x : Tracked) (ramfs : DfsRamfs) (addr : Nat) : Tracked :=
  ⟨ramfs, x.created.filter fun c => c.2 ≠ addr⟩

def nameStep (x : Tracked) : NameOp → Option Tracked
  | .opening path flags allocated =>
    match dfsRamfsOpen behind x.ramfs path flags allocated with
    | .error _ => some x
    | .ok (ramfs, _) =>
      if Creates behind x.ramfs path flags allocated then
        some ⟨ramfs, (path, x.ramfs.next) :: x.created⟩
      else some { x with ramfs := ramfs }
  | .rename oldpath newpath =>
    match dfsRamfsRename behind x.ramfs oldpath newpath with
    | .error _ => some x
    | .ok (ramfs, dirent) => some (x.leave ramfs dirent.addr)
  | .unlink path =>
    (dfsRamfsUnlink behind x.ramfs path).map fun
      | .error _ => x
      | .ok (ramfs, dirent) => x.leave ramfs dirent.addr

/-- No two entries have one name, and every file is found under the path it was created with. -/
structure NamesAgree (x : Tracked) : Prop where
  distinct : (x.ramfs.entries.map (RamfsDirent.string behind)).Nodup
  found : ∀ c ∈ x.created, ∃ d, dfsRamfsLookup behind x.ramfs c.1 = some d ∧ d.addr = c.2

/-- A rename that succeeds moves the entry with its content from the old path to the new. -/
def RenameMoves (x : Tracked) : NameOp → Prop
  | .rename oldpath newpath =>
    ∀ r, dfsRamfsRename behind x.ramfs oldpath newpath = .ok r →
      ∃ d d', dfsRamfsLookup behind x.ramfs oldpath = some d ∧
        dfsRamfsLookup behind r.1 newpath = some d' ∧ d'.addr = d.addr ∧ d'.data = d.data ∧
        d'.size = d.size ∧ dfsRamfsLookup behind r.1 oldpath = none
  | _ => True

/-- The name of a new file fits its field, a rename is refused for one of its two paths, and
the root is not unlinked. -/
def Permitted (x : Tracked) : NameOp → Prop
  | .opening path flags allocated =>
    Creates behind x.ramfs path flags allocated →
      (skipSeparators path.1).length ≤ ramfsNameMax
  | .rename oldpath newpath =>
    dfsRamfsLookup behind x.ramfs newpath ≠ none ∨ dfsRamfsLookup behind x.ramfs oldpath = none
  | .unlink path => skipSeparators path.1 ≠ []

end Runs

/-! ## Lookups -/

theorem head?_skipSeparators_ne (path : Path) : (skipSeparators path).head? ≠ some '/' := by
  intro h
  have hno := List.head?_dropWhile_not (fun c => decide (c = '/')) path
  rw [show path.dropWhile (fun c => decide (c = '/')) = skipSeparators path from rfl, h] at hno
  simp at hno

variable {path : Path} {d : RamfsDirent} {x : Tracked} {op : NameOp}

section Lookup

variable {behind : RamfsDirent → Path} {ramfs : DfsRamfs}

theorem lookup_root (h : skipSeparators path = []) :
    dfsRamfsLookup behind ramfs path = some ramfs.root := by
  simp [dfsRamfsLookup, h]

theorem lookup_entry (h : skipSeparators path ≠ []) :
    dfsRamfsLookup behind ramfs path =
      ramfs.entries.find? fun d => d.string behind = skipSeparators path := by
  simp [dfsRamfsLookup, h]

theorem lookup_mem (h : dfsRamfsLookup behind ramfs path = some d) : d ∈ ramfs.dirents := by
  by_cases hroot : skipSeparators path = []
  · rw [lookup_root hroot] at h
    cases h
    exact List.mem_cons_self
  · rw [lookup_entry hroot] at h
    exact List.mem_cons_of_mem _ (List.mem_of_find?_eq_some h)

theorem lookup_none (h : dfsRamfsLookup behind ramfs path = none) :
    skipSeparators path ≠ [] ∧
      ∀ d ∈ ramfs.entries, d.string behind ≠ skipSeparators path := by
  have hroot : skipSeparators path ≠ [] := by
    intro hroot
    rw [lookup_root hroot] at h
    cases h
  rw [lookup_entry hroot, List.find?_eq_none] at h
  exact ⟨hroot, fun d hd => by simpa using h d hd⟩

theorem lookup_eq_none (hroot : skipSeparators path ≠ [])
    (h : ∀ d ∈ ramfs.entries, d.string behind ≠ skipSeparators path) :
    dfsRamfsLookup behind ramfs path = none := by
  rw [lookup_entry hroot, List.find?_eq_none]
  intro d hd
  simpa using h d hd

end Lookup

/-! ## The invariant of the permitted runs -/

/-- Nothing has been written, the name fields differ, and the field of a file whose path is
known holds that path without its separators. -/
structure NameInv (x : Tracked) : Prop where
  numbered : Numbered x.ramfs
  no_data : ∀ d ∈ x.ramfs.entries, d.data = none
  distinct : (x.ramfs.entries.map RamfsDirent.name).Nodup
  named : ∀ c ∈ x.created, ∃ d ∈ x.ramfs.entries,
    d.addr = c.2 ∧ d.name = skipSeparators c.1.1 ∧ d.name ≠ []

theorem untracked_inv : NameInv untracked := by
  constructor
  · exact dfsRamfsCreate_numbered
  · intro d hd
    cases hd
  · exact List.nodup_nil
  · intro c hc
    cases hc

theorem NameInv.string_eq (h : NameInv x) (behind : RamfsDirent → Path) (hd : d ∈ x.ramfs.entries) :
    d.string behind = d.name :=
  if_pos (Or.inr (h.no_data d hd))

theorem NameInv.agree (h : NameInv x) (behind : RamfsDirent → Path) : NamesAgree behind x := by
  constructor
  · rw [List.map_congr_left fun d hd => h.string_eq behind hd]
    exact h.distinct
  · intro c hc
    obtain ⟨d, hd, haddr, hname, hne⟩ := h.named c hc
    have hroot : skipSeparators c.1.1 ≠ [] := fun h => hne (hname.trans h)
    rw [lookup_entry hroot]
    cases hfind : x.ramfs.entries.find? fun d => d.string behind = skipSeparators c.1.1 with
    | none =>
      have := List.find?_eq_none.mp hfind d hd
      rw [h.string_eq behind hd] at this
      exact absurd hname (by simpa using this)
    | some e =>
      have he := List.mem_of_find?_eq_some hfind
      have hs : e.string behind = skipSeparators c.1.1 := by simpa using List.find?_some hfind
      rw [h.string_eq behind he, ← hname] at hs
      have heq : e = d := List.inj_on_of_nodup_map h.distinct he hd hs
      exact ⟨e, rfl, by rw [heq, haddr]⟩

variable {dirent : RamfsDirent}

/-- Emptying an entry of the ring changes neither its name nor its place. -/
theorem NameInv.truncate (h : NameInv x) (hd : dirent ∈ x.ramfs.dirents) :
    NameInv { x with ramfs := x.ramfs.put dirent.truncated } := by
  have hsame : ∀ d ∈ x.ramfs.entries,
      (if d.addr = dirent.truncated.addr then dirent.truncated else d).name = d.name := by
    intro d hmem
    split
    · rename_i ha
      have heq := h.numbered.eq_of_addr (List.mem_cons_of_mem _ hmem) hd ha
      rw [heq]
      rfl
    · rfl
  constructor
  · exact h.numbered.put _
  · intro d hmem
    obtain ⟨e, he, rfl⟩ := List.mem_map.mp hmem
    split
    · rfl
    · exact h.no_data e he
  · have hnames : (x.ramfs.put dirent.truncated).entries.map RamfsDirent.name =
        x.ramfs.entries.map RamfsDirent.name := by
      simp only [DfsRamfs.put, List.map_map]
      exact List.map_congr_left hsame
    rw [hnames]
    exact h.distinct
  · intro c hc
    obtain ⟨d, hmem, haddr, hname, hne⟩ := h.named c hc
    refine ⟨_, List.mem_map_of_mem hmem, ?_, ?_, ?_⟩
    · split
      · rename_i ha
        exact ha.symm.trans haddr
      · exact haddr
    · rw [hsame d hmem, hname]
    · rw [hsame d hmem]
      exact hne

theorem NameInv.finishOpen (h : NameInv x) (hd : dirent ∈ x.ramfs.dirents) (flags : Flags) :
    NameInv { x with ramfs := (finishOpen x.ramfs dirent flags).1 } := by
  unfold Ramfs.finishOpen
  split
  · exact h.truncate hd
  · exact h

theorem NameInv.create (h : NameInv x) {behind : RamfsDirent → Path} {path : AbsolutePath}
    (hnone : dfsRamfsLookup behind x.ramfs path = none)
    (hlen : (skipSeparators path.1).length ≤ ramfsNameMax) :
    NameInv ⟨createDirent x.ramfs path, (path, x.ramfs.next) :: x.created⟩ := by
  obtain ⟨hroot, hother⟩ := lookup_none hnone
  have hname : (newDirent x.ramfs path).name = skipSeparators path.1 := List.take_of_length_le hlen
  constructor
  · exact h.numbered.create path
  · intro d hd
    rcases List.mem_cons.mp hd with rfl | hd
    · rfl
    · exact h.no_data d hd
  · have hnot : skipSeparators path.1 ∉ x.ramfs.entries.map RamfsDirent.name := by
      intro hmem
      obtain ⟨d, hd, heq⟩ := List.mem_map.mp hmem
      exact hother d hd ((h.string_eq behind hd).trans heq)
    rw [createDirent, List.map_cons, hname]
    exact List.nodup_cons.mpr ⟨hnot, h.distinct⟩
  · intro c hc
    rcases List.mem_cons.mp hc with rfl | hc
    · exact ⟨_, List.mem_cons_self, rfl, hname, by rw [hname]; exact hroot⟩
    · obtain ⟨d, hd, hrest⟩ := h.named c hc
      exact ⟨d, List.mem_cons_of_mem _ hd, hrest⟩

theorem NameInv.unlink (h : NameInv x) (addr : Nat) :
    NameInv (x.leave { x.ramfs with
      entries := x.ramfs.entries.filter fun d => d.addr ≠ addr } addr) := by
  have hsub : (x.ramfs.entries.filter fun d => d.addr ≠ addr).Sublist x.ramfs.entries :=
    List.filter_sublist
  constructor
  · constructor
    · exact h.numbered.nodup.sublist ((hsub.cons_cons _).map _)
    · intro d hd
      exact h.numbered.lt_next d ((hsub.cons_cons _).subset hd)
  · exact fun d hd => h.no_data d (hsub.subset hd)
  · exact h.distinct.sublist (hsub.map _)
  · intro c hc
    obtain ⟨hc, hne⟩ := List.mem_filter.mp hc
    obtain ⟨d, hd, haddr, hrest⟩ := h.named c hc
    have hda : d.addr ≠ addr := by
      rw [haddr]
      simpa using hne
    exact ⟨d, List.mem_filter.mpr ⟨hd, by simpa using hda⟩, haddr, hrest⟩

/-! ## One operation -/

theorem rename_failed {behind : RamfsDirent → Path} {ramfs : DfsRamfs} {oldpath newpath : Path}
    (h : dfsRamfsLookup behind ramfs newpath ≠ none ∨
      dfsRamfsLookup behind ramfs oldpath = none) :
    ∃ errno, dfsRamfsRename behind ramfs oldpath newpath = .error errno := by
  unfold dfsRamfsRename
  cases hnew : dfsRamfsLookup behind ramfs newpath with
  | some d => exact ⟨_, rfl⟩
  | none =>
    rcases h with h | h
    · exact absurd hnew h
    · rw [h]
      exact ⟨_, rfl⟩

theorem unlink_cases (behind : RamfsDirent → Path) (h : NameInv x)
    (hroot : skipSeparators path ≠ []) :
    dfsRamfsUnlink behind x.ramfs path = some (.error .enoent) ∨
      ∃ d, dfsRamfsUnlink behind x.ramfs path = some (.ok ({ x.ramfs with
        entries := x.ramfs.entries.filter fun e => e.addr ≠ d.addr }, d)) := by
  unfold dfsRamfsUnlink
  cases hfound : dfsRamfsLookup behind x.ramfs path with
  | none => exact Or.inl rfl
  | some d =>
    rw [lookup_entry hroot] at hfound
    have hd := List.mem_of_find?_eq_some hfound
    have hne : d.addr ≠ x.ramfs.root.addr := by
      intro heq
      have hnd := h.numbered.nodup
      rw [DfsRamfs.dirents, List.map_cons, List.nodup_cons, ← heq] at hnd
      exact hnd.1 (List.mem_map_of_mem hd)
    exact Or.inr ⟨d, if_neg hne⟩

/-- A permitted operation goes through and keeps the invariant. -/
theorem NameInv.step {behind : RamfsDirent → Path} (h : NameInv x) (hok : Permitted behind x op) :
    RenameMoves behind x op ∧ ∃ x', nameStep behind x op = some x' ∧ NameInv x' := by
  cases op with
  | opening path flags allocated =>
    refine ⟨trivial, ?_⟩
    have hcase := dfsRamfsOpen_cases behind x.ramfs path flags allocated
    generalize hr : dfsRamfsOpen behind x.ramfs path flags allocated = r at hcase
    simp only [nameStep, hr]
    cases hcase with
    | failed errno hnot => exact ⟨x, rfl, h⟩
    | found dirent hfound =>
      have hnot : ¬ Creates behind x.ramfs path flags allocated := by
        intro hnew
        rw [hnew.1] at hfound
        cases hfound
      exact ⟨_, if_neg hnot, h.finishOpen (lookup_mem hfound) flags⟩
    | created hnew =>
      have hc := h.create hnew.1 (hok hnew)
      exact ⟨_, if_pos hnew, hc.finishOpen (List.mem_cons_of_mem _ List.mem_cons_self) flags⟩
  | rename oldpath newpath =>
    obtain ⟨errno, herr⟩ := rename_failed hok
    constructor
    · intro r hr
      rw [herr] at hr
      cases hr
    · exact ⟨x, by simp only [nameStep, herr], h⟩
  | unlink path =>
    refine ⟨trivial, ?_⟩
    simp only [nameStep]
    rcases unlink_cases behind h hok with heq | ⟨d, heq⟩
    · exact ⟨x, by rw [heq]; rfl, h⟩
    · exact ⟨_, by rw [heq]; rfl, h.unlink d.addr⟩

/-- A name that does not fit its field is cut, and its path finds nothing. -/
theorem cut_name_not_found {behind : RamfsDirent → Path} {path : AbsolutePath}
    (hnone : dfsRamfsLookup behind x.ramfs path = none)
    (hlen : ramfsNameMax < (skipSeparators path.1).length) (flags : Flags) :
    dfsRamfsLookup behind
      (finishOpen (createDirent x.ramfs path) (newDirent x.ramfs path) flags).1 path = none := by
  obtain ⟨hroot, hother⟩ := lookup_none hnone
  have hcut : RamfsDirent.string behind
      ⟨x.ramfs.next, (skipSeparators path.1).take ramfsNameMax, none, 0⟩ =
        (skipSeparators path.1).take ramfsNameMax := if_pos (Or.inr rfl)
  have hne : (skipSeparators path.1).take ramfsNameMax ≠ skipSeparators path.1 := by
    intro heq
    have := congrArg List.length heq
    rw [List.length_take] at this
    omega
  have hnew : (newDirent x.ramfs path).string behind ≠ skipSeparators path.1 := by
    rw [newDirent, hcut]
    exact hne
  apply lookup_eq_none hroot
  unfold finishOpen
  split
  · intro d hd
    obtain ⟨e, he, rfl⟩ := List.mem_map.mp hd
    split
    · rw [newDirent, RamfsDirent.truncated, hcut]
      exact hne
    · rcases List.mem_cons.mp he with rfl | he
      · exact hnew
      · exact hother e he
  · intro d hd
    rcases List.mem_cons.mp hd with rfl | he
    · exact hnew
    · exact hother d he

/-- A rename that succeeds leaves a name with a separator in front, which no path finds. -/
theorem renamed_not_found {behind : RamfsDirent → Path} (h : NameInv x)
    {oldpath newpath : AbsolutePath} (hnone : dfsRamfsLookup behind x.ramfs newpath = none)
    (hfound : dfsRamfsLookup behind x.ramfs oldpath = some dirent) :
    dfsRamfsLookup behind
      (x.ramfs.put { dirent with name := newpath.1.take ramfsNameMax }) newpath = none := by
  obtain ⟨hroot, hother⟩ := lookup_none hnone
  apply lookup_eq_none hroot
  intro d hd
  obtain ⟨e, he, rfl⟩ := List.mem_map.mp hd
  split
  case isTrue ha =>
    have heq : e = dirent :=
      h.numbered.eq_of_addr (List.mem_cons_of_mem _ he) (lookup_mem hfound) ha
    have hdata : dirent.data = none := heq ▸ h.no_data e he
    have hstring : ({ dirent with name := newpath.1.take ramfsNameMax } : RamfsDirent).string
        behind = newpath.1.take ramfsNameMax := if_pos (Or.inr hdata)
    obtain ⟨rest, hpath⟩ := List.head?_eq_some_iff.mp newpath.2
    intro hbad
    rw [hstring] at hbad
    apply head?_skipSeparators_ne newpath.1
    rw [← hbad, hpath]
    rfl
  case isFalse => exact hother e he

/-- An operation that is not permitted is refused, or loses a file. -/
theorem NameInv.lost {behind : RamfsDirent → Path} {x' : Tracked} (h : NameInv x)
    (hno : ¬ Permitted behind x op) (hmoves : RenameMoves behind x op)
    (hstep : nameStep behind x op = some x') : ¬ NamesAgree behind x' := by
  cases op with
  | opening path flags allocated =>
    simp only [Permitted, Classical.not_imp, Nat.not_le] at hno
    obtain ⟨hnew, hlen⟩ := hno
    have hcase := dfsRamfsOpen_cases behind x.ramfs path flags allocated
    generalize hr : dfsRamfsOpen behind x.ramfs path flags allocated = r at hcase
    simp only [nameStep, hr] at hstep
    cases hcase with
    | failed errno hnot => exact absurd hnew hnot
    | found dirent hfound =>
      rw [hnew.1] at hfound
      cases hfound
    | created _ =>
      dsimp only at hstep
      rw [if_pos hnew] at hstep
      cases hstep
      intro hagree
      obtain ⟨d, hd, -⟩ := hagree.found _ List.mem_cons_self
      rw [cut_name_not_found hnew.1 hlen flags] at hd
      cases hd
  | rename oldpath newpath =>
    simp only [Permitted, not_or, not_not] at hno
    obtain ⟨hnew, hold⟩ := hno
    obtain ⟨dirent, hfound⟩ := Option.ne_none_iff_exists'.mp hold
    have hrename : dfsRamfsRename behind x.ramfs oldpath newpath =
        .ok (x.ramfs.put { dirent with name := newpath.1.take ramfsNameMax },
          { dirent with name := newpath.1.take ramfsNameMax }) := by
      simp only [dfsRamfsRename, hnew, hfound]
    obtain ⟨d, d', -, hd', -⟩ := hmoves _ hrename
    rw [renamed_not_found h hnew hfound] at hd'
    cases hd'
  | unlink path =>
    simp only [Permitted, not_not] at hno
    simp only [nameStep, dfsRamfsUnlink, lookup_root hno, if_true] at hstep
    cases hstep

/-! ## Every run -/

/-- The runs that end, keep the names apart, find every file under its path and move what they
rename are those whose operations are all permitted. -/
theorem ramfs_namespace (behind : RamfsDirent → Path) (ops : List NameOp) :
    ((∃ x, Runs.run (nameStep behind) untracked ops = some x) ∧
      Runs.Always (nameStep behind) (NamesAgree behind) untracked ops ∧
      Runs.Along (nameStep behind) (RenameMoves behind) untracked ops) ↔
    Runs.Along (nameStep behind) (Permitted behind) untracked ops := by
  have hagree : ∀ x, NameInv x → NamesAgree behind x := fun x h => h.agree behind
  apply Runs.complete_iff_along hagree
  · exact fun x op h hok => h.step hok
  · exact fun x op h hno hmoves x' hstep => h.lost hno hmoves hstep
  · exact untracked_inv

/-- A file is created as `/a` and renamed to `/b`: it is then found under neither path. -/
theorem renamed_file_lost :
    let behind : RamfsDirent → Path := fun _ => []
    let a : AbsolutePath := ⟨['/', 'a'], rfl⟩
    let b : AbsolutePath := ⟨['/', 'b'], rfl⟩
    ∃ x r, Runs.run (nameStep behind) untracked
        [.opening a ⟨false, true, false, false, false⟩ true] = some x ∧
      dfsRamfsRename behind x.ramfs a b = .ok r ∧
      dfsRamfsLookup behind r.1 b = none ∧ dfsRamfsLookup behind r.1 a = none ∧
      ¬ RenameMoves behind x (.rename a b) := by
  intro behind a b
  have hrun : Runs.run (nameStep behind) untracked
      [.opening a ⟨false, true, false, false, false⟩ true] =
      some ⟨⟨⟨0, ['.'], none, 0⟩, [⟨1, ['a'], none, 0⟩], 2⟩, [(a, 1)]⟩ := by decide +kernel
  have hrename : dfsRamfsRename behind ⟨⟨0, ['.'], none, 0⟩, [⟨1, ['a'], none, 0⟩], 2⟩ a b =
      .ok (⟨⟨0, ['.'], none, 0⟩, [⟨1, ['/', 'b'], none, 0⟩], 2⟩, ⟨1, ['/', 'b'], none, 0⟩) := by
    rfl
  have hnone : dfsRamfsLookup behind
      ⟨⟨0, ['.'], none, 0⟩, [⟨1, ['/', 'b'], none, 0⟩], 2⟩ b = none := by decide +kernel
  refine ⟨_, _, hrun, hrename, hnone, by decide +kernel, fun hmoves => ?_⟩
  obtain ⟨d, d', -, hd', -⟩ := hmoves _ hrename
  rw [hnone] at hd'
  cases hd'

end RtThread.Ramfs
