import Mathlib.Data.List.Basic

/-!
# Normal paths of the device file system

`dfs_normalize_path` joins a relative name to the working directory and removes the empty
and dotted components in place. The loop reads the rest of the source and writes the
destination, which is kept here last character first.
-/
namespace RtThread.Dfs

/-- A path without its final NUL. -/
abbrev Path := List Char

/-- A path that starts at the root. -/
def Absolute (path : Path) : Prop := path.head? = some '/'

instance (path : Path) : Decidable (Absolute path) := inferInstanceAs (Decidable (_ = _))

/-- `q` names `p` itself or a directory above it: the root is above every absolute path. -/
def WholePrefix (q p : Path) : Prop := q = ['/'] ∨ q ++ ['/'] <+: p ++ ['/']

instance (q p : Path) : Decidable (WholePrefix q p) := inferInstanceAs (Decidable (_ ∨ _))

def skipSeparators (src : Path) : Path := src.dropWhile (· = '/')

/-- The label `up_one`: the destination without its last component, `none` before its start. -/
def upOne : Path → Option Path
  | [] => none
  | _ :: dst => some (dst.dropWhile (· ≠ '/'))

/-- What one turn of the loop does: leave it, go on, or go up and then go on. -/
inductive Turn where
  | done (dst : Path)
  | next (src dst : Path)
  | up (src : Path)

/-- The end of a turn: copy up to the next separator and skip the separators behind it. -/
def copyComponent (src dst : Path) : Turn :=
  match src.dropWhile (· ≠ '/') with
  | [] => .done ((src.takeWhile (· ≠ '/')).reverse ++ dst)
  | _ :: rest => .next (skipSeparators rest) ('/' :: ((src.takeWhile (· ≠ '/')).reverse ++ dst))

def normalizeTurn (src dst : Path) : Turn :=
  match src with
  | ['.'] => .done dst
  | '.' :: '/' :: rest => .next (skipSeparators rest) dst
  | ['.', '.'] => .up []
  | '.' :: '.' :: '/' :: rest => .up (skipSeparators rest)
  | src => copyComponent src dst

/-- The loop of `dfs_normalize_path`; `none` when the path goes above the root or the turns
run out. -/
def normalizeLoop : Nat → Path → Path → Option Path
  | 0, _, _ => none
  | turns + 1, src, dst =>
    match normalizeTurn src dst with
    | .done dst => some dst
    | .next src dst => normalizeLoop turns src dst
    | .up src => (upOne dst).bind fun dst => normalizeLoop turns src dst

/-- The last separator goes unless it is the whole path; an empty path is the root. -/
def finishPath (dst : Path) : Path :=
  match dst with
  | [] => ['/']
  | [c] => [c]
  | c :: d :: ds => if c = '/' then (d :: ds).reverse else (c :: d :: ds).reverse

/-- `dfs_normalize_path`; `allocated` tells whether the copy of the path could be made. -/
def dfsNormalizePath (allocated : Bool) (directory filename : Path) : Option Path :=
  if allocated then
    let fullpath := if Absolute filename then filename else directory ++ '/' :: filename
    (normalizeLoop (fullpath.length + 1) fullpath []).map finishPath
  else none

/-! ## The loop ends -/

theorem length_skipSeparators_le (src : Path) : (skipSeparators src).length ≤ src.length :=
  (List.dropWhile_sublist _).length_le

/-- A turn that goes on has read at least one character. -/
def Turn.Shorter (src : Path) : Turn → Prop
  | .done _ => True
  | .next rest _ => rest.length < src.length
  | .up rest => rest.length < src.length

theorem copyComponent_shorter (src dst : Path) : (copyComponent src dst).Shorter src := by
  unfold copyComponent
  split
  case h_1 => trivial
  case h_2 c rest hrest =>
    have hle := (List.dropWhile_sublist (l := src) (fun c => decide (c ≠ '/'))).length_le
    rw [hrest, List.length_cons] at hle
    have := length_skipSeparators_le rest
    simp only [Turn.Shorter]
    omega

theorem normalizeTurn_shorter (src dst : Path) : (normalizeTurn src dst).Shorter src := by
  unfold normalizeTurn
  split
  case h_1 => trivial
  case h_2 rest =>
    have := length_skipSeparators_le rest
    simp only [Turn.Shorter, List.length_cons]
    omega
  case h_3 => simp [Turn.Shorter]
  case h_4 rest =>
    have := length_skipSeparators_le rest
    simp only [Turn.Shorter, List.length_cons]
    omega
  case h_5 => exact copyComponent_shorter _ dst

/-- More turns than characters are enough. -/
theorem normalizeLoop_turns {n m : Nat} {src : Path} (dst : Path) (hn : src.length < n)
    (hm : src.length < m) : normalizeLoop n src dst = normalizeLoop m src dst := by
  induction n generalizing m src dst with
  | zero => omega
  | succ n ih =>
    obtain ⟨m, rfl⟩ : ∃ k, m = k + 1 := ⟨m - 1, by omega⟩
    have hshort := normalizeTurn_shorter src dst
    simp only [normalizeLoop]
    cases hturn : normalizeTurn src dst with
    | done dst => rfl
    | next rest dst =>
      rw [hturn] at hshort
      simp only [Turn.Shorter] at hshort
      exact ih dst (by omega) (by omega)
    | up rest =>
      rw [hturn] at hshort
      simp only [Turn.Shorter] at hshort
      cases upOne dst with
      | none => rfl
      | some dst => exact ih dst (by omega) (by omega)

/-! ## The result -/

theorem finishPath_ne_nil (dst : Path) : finishPath dst ≠ [] := by
  unfold finishPath
  split
  · simp
  · simp
  · split <;> simp

theorem dfsNormalizePath_ne_nil {allocated : Bool} {directory filename full : Path}
    (h : dfsNormalizePath allocated directory filename = some full) : full ≠ [] := by
  unfold dfsNormalizePath at h
  split at h
  · obtain ⟨dst, -, rfl⟩ := Option.map_eq_some_iff.mp h
    exact finishPath_ne_nil dst
  · cases h

end RtThread.Dfs
