import Mathlib.Algebra.Ring.Int.Defs
import Mathlib.Data.List.Infix
import Mathlib.Tactic.Common
import RtThread.DfsPath

/-!
# Paths and their components

What a path means: the names between its separators, the place they lead to, and the
one spelling of that place. Nothing here looks at the loop of `dfs_normalize_path`.
-/
namespace RtThread.Dfs

def parent : Path := ['.', '.']

/-- The components of a path; an empty one and a dot lead nowhere. -/
def names (p : Path) : List Path := (p.splitOn '/').filter fun n => n ≠ [] ∧ n ≠ ['.']

/-- One component read at a place, which is the names above it, the deepest first. -/
def follow (place : List Path) (n : Path) : List Path :=
  if n = parent then place.tail else n :: place

/-- The components resolved from left to right; the root is its own parent. -/
def resolve (ns : List Path) : List Path := (ns.foldl follow []).reverse

/-- The spelling of a place. -/
def render : List Path → Path
  | [] => ['/']
  | ns => ns.flatMap ('/' :: ·)

structure Canonical (p : Path) : Prop where
  absolute : Absolute p
  components : p ≠ ['/'] → ∀ n ∈ (p.drop 1).splitOn '/', n ≠ [] ∧ n ≠ ['.'] ∧ n ≠ parent
  trailing : p ≠ ['/'] → p.getLast? ≠ some '/'

/-- What a component adds to the level. -/
def rise (n : Path) : Int := if n = parent then -1 else 1

/-- The level of a place below the root. -/
def level (ns : List Path) : Int := (ns.map rise).sum

/-- From a place `k` levels below the root some prefix of the components climbs above it. -/
def Climbs (k : Int) (ns : List Path) : Prop := ∃ pre, pre <+: ns ∧ k + level pre < 0

theorem mem_inits_iff (k : Int) (ns : List Path) :
    (∃ pre ∈ ns.inits, k + level pre < 0) ↔ Climbs k ns := by
  simp [Climbs]

instance (k : Int) (ns : List Path) : Decidable (Climbs k ns) :=
  decidable_of_iff _ (mem_inits_iff k ns)

/-! ## Components -/

/-- A word without separators as components. -/
def single (w : Path) : List Path := [w].filter fun n => n ≠ [] ∧ n ≠ ['.']

variable {n p w : Path} {ns : List Path} {k : Int}

theorem single_name (hne : w ≠ []) (hdot : w ≠ ['.']) : single w = [w] := by
  simp [single, hne, hdot]

theorem names_last (hw : '/' ∉ w) : names w = single w := by
  rw [names, List.splitOn_eq_singleton hw, single]

theorem names_component (hw : '/' ∉ w) (p : Path) :
    names (w ++ '/' :: p) = single w ++ names p := by
  have hsplit : (w ++ '/' :: p).splitOn '/' = [w] ++ p.splitOn '/' :=
    List.splitOn_append_cons_self_of_not_mem hw p
  rw [names, hsplit, List.filter_append, single, names]

theorem names_nil : names [] = [] := by
  rfl

theorem names_separator (p : Path) : names ('/' :: p) = names p := by
  have h := names_component (w := []) (by simp) p
  rwa [List.nil_append] at h

theorem names_skip (p : Path) : names (skipSeparators p) = names p := by
  induction p with
  | nil => rfl
  | cons c p ih =>
    rw [skipSeparators]
    by_cases hc : c = '/'
    · rw [List.dropWhile_cons_of_pos (by simp [hc]), hc, names_separator]
      exact ih
    · rw [List.dropWhile_cons_of_neg (by simp [hc])]

/-- A word up to the first separator, and what is behind it. -/
theorem split_first (p : Path) : ∃ w, '/' ∉ w ∧ (p = w ∨ ∃ rest, p = w ++ '/' :: rest) := by
  induction p with
  | nil => exact ⟨[], by simp, Or.inl rfl⟩
  | cons c p ih =>
    by_cases hc : c = '/'
    · exact ⟨[], by simp, Or.inr ⟨p, by rw [hc, List.nil_append]⟩⟩
    · obtain ⟨w, hw, h⟩ := ih
      refine ⟨c :: w, List.not_mem_cons_of_ne_of_not_mem (Ne.symm hc) hw, ?_⟩
      rcases h with rfl | ⟨rest, rfl⟩
      · exact Or.inl rfl
      · exact Or.inr ⟨rest, rfl⟩

/-- What a component of a path is. -/
structure Name (p n : Path) : Prop where
  nonempty : n ≠ []
  visible : n ≠ ['.']
  whole : '/' ∉ n
  within : ∀ c ∈ n, c ∈ p

theorem mem_splitOn (h : n ∈ p.splitOn '/') : '/' ∉ n ∧ ∀ c ∈ n, c ∈ p := by
  induction p generalizing n with
  | nil =>
    rw [List.splitOn_nil, List.mem_singleton] at h
    simp [h]
  | cons c p ih =>
    rw [List.splitOn_cons_eq_if_modifyHead] at h
    by_cases hc : c = '/'
    · rw [if_pos (by simp [hc])] at h
      rcases List.mem_cons.mp h with rfl | h
      · simp
      · exact ⟨(ih h).1, fun x hx => List.mem_cons_of_mem c ((ih h).2 x hx)⟩
    · rw [if_neg (by simp [hc])] at h
      cases hparts : p.splitOn '/' with
      | nil => exact absurd hparts (List.splitOn_ne_nil _ _)
      | cons m ms =>
        rw [hparts, List.modifyHead_cons] at h
        rcases List.mem_cons.mp h with rfl | h
        · obtain ⟨hm, hwithin⟩ := ih (n := m) (by simp [hparts])
          refine ⟨List.not_mem_cons_of_ne_of_not_mem (Ne.symm hc) hm, ?_⟩
          intro x hx
          rcases List.mem_cons.mp hx with rfl | hx
          · exact List.mem_cons_self
          · exact List.mem_cons_of_mem c (hwithin x hx)
        · obtain ⟨hn, hwithin⟩ := ih (n := n) (by simp [hparts, h])
          exact ⟨hn, fun x hx => List.mem_cons_of_mem c (hwithin x hx)⟩

theorem name_of_mem (h : n ∈ names p) : Name p n := by
  rw [names, List.mem_filter] at h
  obtain ⟨hmem, hn⟩ := h
  obtain ⟨hne, hdot⟩ : n ≠ [] ∧ n ≠ ['.'] := by simpa using hn
  exact ⟨hne, hdot, (mem_splitOn hmem).1, (mem_splitOn hmem).2⟩

/-! ## Resolution -/

/-- The components of a resolved path are among those read, and none is the parent. -/
theorem mem_foldl_follow {place : List Path} (h : n ∈ ns.foldl follow place) :
    n ∈ place ∨ n ∈ ns ∧ n ≠ parent := by
  induction ns generalizing place with
  | nil => exact Or.inl h
  | cons m ns ih =>
    rcases ih h with h | h
    · rw [follow] at h
      split at h
      case isTrue => exact Or.inl (List.mem_of_mem_tail h)
      case isFalse hm =>
        rcases List.mem_cons.mp h with rfl | h
        · exact Or.inr ⟨List.mem_cons_self, hm⟩
        · exact Or.inl h
    · exact Or.inr ⟨List.mem_cons_of_mem m h.1, h.2⟩

theorem mem_resolve (h : n ∈ resolve ns) : n ∈ ns ∧ n ≠ parent := by
  rw [resolve, List.mem_reverse] at h
  rcases mem_foldl_follow h with h | h
  · cases h
  · exact h

theorem foldl_follow_names (place : List Path) (h : ∀ n ∈ ns, n ≠ parent) :
    ns.foldl follow place = ns.reverse ++ place := by
  induction ns generalizing place with
  | nil => rfl
  | cons n ns ih =>
    rw [List.foldl_cons, follow, if_neg (h n List.mem_cons_self),
      ih _ fun m hm => h m (List.mem_cons_of_mem n hm), List.reverse_cons, List.append_assoc,
      List.singleton_append]

/-- Components without parents are resolved already. -/
theorem resolve_names (h : ∀ n ∈ ns, n ≠ parent) : resolve ns = ns := by
  rw [resolve, foldl_follow_names [] h, List.append_nil, List.reverse_reverse]

/-! ## Levels -/

theorem climbs_nil (k : Int) : Climbs k [] ↔ k < 0 := by
  constructor
  · rintro ⟨pre, hpre, h⟩
    rw [List.prefix_nil.mp hpre] at h
    simpa [level] using h
  · exact fun h => ⟨[], List.prefix_refl [], by simpa [level] using h⟩

theorem climbs_cons (k : Int) (n : Path) (ns : List Path) :
    Climbs k (n :: ns) ↔ k < 0 ∨ Climbs (k + rise n) ns := by
  constructor
  · rintro ⟨pre, hpre, h⟩
    rcases List.prefix_cons_iff.mp hpre with rfl | ⟨rest, rfl, hrest⟩
    · exact Or.inl (by simpa [level] using h)
    · refine Or.inr ⟨rest, hrest, ?_⟩
      rw [level, List.map_cons, List.sum_cons] at h
      rw [level]
      omega
  · rintro (h | ⟨pre, hpre, h⟩)
    · exact ⟨[], List.nil_prefix, by simpa [level] using h⟩
    · refine ⟨n :: pre, List.prefix_cons_iff.mpr (Or.inr ⟨pre, rfl, hpre⟩), ?_⟩
      rw [level, List.map_cons, List.sum_cons]
      rw [level] at h
      omega

theorem Climbs.start (ns : List Path) (h : k < 0) : Climbs k ns :=
  ⟨[], List.nil_prefix, by simpa [level] using h⟩

theorem not_climbs_names (hk : 0 ≤ k) (h : ∀ n ∈ ns, n ≠ parent) : ¬ Climbs k ns := by
  induction ns generalizing k with
  | nil =>
    rw [climbs_nil]
    omega
  | cons n ns ih =>
    rw [climbs_cons, rise, if_neg (h n List.mem_cons_self)]
    rintro (hneg | hclimbs)
    · omega
    · exact ih (by omega) (fun m hm => h m (List.mem_cons_of_mem n hm)) hclimbs

/-! ## Spelling -/

theorem flatMap_intercalate :
    (n :: ns).flatMap ('/' :: ·) = '/' :: ['/'].intercalate (n :: ns) := by
  induction ns generalizing n with
  | nil => simp
  | cons m ns ih =>
    rw [List.flatMap_cons, ih, List.intercalate_cons_cons]
    simp

/-- The components of a spelling are the names it spells. -/
theorem splitOn_render (h : ∀ m ∈ n :: ns, '/' ∉ m) :
    ((render (n :: ns)).drop 1).splitOn '/' = n :: ns := by
  rw [render, flatMap_intercalate, List.drop_succ_cons, List.drop_zero,
    List.splitOn_intercalate '/' h (by simp)]
  simp

theorem names_render (h : ∀ n ∈ ns, Name p n) : names (render ns) = ns := by
  cases ns with
  | nil =>
    rw [render, names_separator, names_nil]
  | cons n ns =>
    have hsplit := splitOn_render fun m hm => (h m hm).whole
    have hcons : render (n :: ns) = '/' :: (render (n :: ns)).drop 1 := by
      rw [render, flatMap_intercalate, List.drop_succ_cons, List.drop_zero]
      simp
    rw [hcons, names_separator, names, hsplit, List.filter_eq_self]
    intro m hm
    simpa using ⟨(h m hm).nonempty, (h m hm).visible⟩

theorem absolute_render (ns : List Path) : Absolute (render ns) := by
  cases ns <;> rfl

theorem mem_render {c : Char} (h : c ∈ render ns) : c = '/' ∨ ∃ n ∈ ns, c ∈ n := by
  cases ns with
  | nil => exact Or.inl (List.mem_singleton.mp h)
  | cons n ns =>
    rw [render] at h
    · obtain ⟨m, hm, hc⟩ := List.mem_flatMap.mp h
      rcases List.mem_cons.mp hc with hc | hc
      · exact Or.inl hc
      · exact Or.inr ⟨m, hm, hc⟩
    · simp

/-- A spelling of names that are not the parent is canonical. -/
theorem canonical_render (h : ∀ n ∈ ns, Name p n) (hup : ∀ n ∈ ns, n ≠ parent) :
    Canonical (render ns) := by
  cases ns with
  | nil => exact ⟨rfl, fun hne => absurd rfl hne, fun hne => absurd rfl hne⟩
  | cons n ns =>
    refine ⟨absolute_render _, ?_, ?_⟩
    · intro _ m hm
      rw [splitOn_render fun m hm => (h m hm).whole] at hm
      exact ⟨(h m hm).nonempty, (h m hm).visible, hup m hm⟩
    · intro _ hlast
      obtain ⟨ms, m, hms⟩ := List.eq_nil_or_concat (n :: ns) |>.resolve_left (by simp)
      have hm : m ∈ n :: ns := by simp [hms]
      have hrender : render (n :: ns) = ms.flatMap ('/' :: ·) ++ ['/'] ++ m := by
        rw [render, hms]
        · simp
        · simp
      rw [hrender, List.getLast?_append_of_ne_nil _ (h m hm).nonempty] at hlast
      exact (h m hm).whole (List.mem_of_getLast? hlast)

end RtThread.Dfs
