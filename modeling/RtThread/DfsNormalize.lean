import Mathlib.Data.List.TakeWhile
import RtThread.DfsBuffer
import RtThread.DfsNames

/-!
# What normalisation returns

The loop of `dfs_normalize_path` walks over the components of the joined path. A parent at
the root leaves the loop with an empty path, from where the walk goes on without a root: one
more parent makes the function fail, and everything else makes its result a relative path.
-/
namespace RtThread.Dfs

/-! ## The walk over the components -/

/-- The components that the loop has kept, the last one first, and whether they hang at the
root. -/
structure Place where
  rooted : Bool
  above : List Path

def Place.root : Place := ⟨true, []⟩

/-- The path so far, last character first. -/
def Place.dst (pl : Place) : Path :=
  pl.above.flatMap (fun n => '/' :: n.reverse) ++ if pl.rooted then ['/'] else []

def Place.up (pl : Place) : Option Place :=
  match pl.above with
  | _ :: above => some { pl with above := above }
  | [] => if pl.rooted then some { pl with rooted := false } else none

def Place.enter (pl : Place) (n : Path) : Option Place :=
  if n = parent then pl.up else some { pl with above := n :: pl.above }

def Place.walk (pl : Place) (ns : List Path) : Option Place := ns.foldlM Place.enter pl

theorem Place.walk_nil (pl : Place) : pl.walk [] = some pl := rfl

theorem Place.walk_cons (pl : Place) (n : Path) (ns : List Path) :
    pl.walk (n :: ns) = (pl.enter n).bind fun pl => pl.walk ns := rfl

/-- Every component kept has a first character and no separator. -/
def Place.Named (pl : Place) : Prop := ∀ n ∈ pl.above, n ≠ [] ∧ '/' ∉ n

variable {pl pl' : Place} {d n w directory : Path} {above ns : List Path}

theorem Place.Named.enter (h : pl.Named) (hn : n ≠ [] ∧ '/' ∉ n) (hpl : pl.enter n = some pl') :
    pl'.Named := by
  rw [Place.enter] at hpl
  split at hpl
  case isTrue =>
    rw [Place.up] at hpl
    split at hpl
    case h_1 m above habove =>
      cases hpl
      intro k hk
      exact h k (by rw [habove]; exact List.mem_cons_of_mem m hk)
    case h_2 habove =>
      obtain ⟨-, hpl⟩ := Option.ite_none_right_eq_some.mp hpl
      cases hpl
      exact h
  case isFalse =>
    cases hpl
    intro k hk
    rcases List.mem_cons.mp hk with rfl | hk
    · exact hn
    · exact h k hk

theorem Place.Named.walk (h : pl.Named) (hns : ∀ n ∈ ns, n ≠ [] ∧ '/' ∉ n)
    (hpl : pl.walk ns = some pl') : pl'.Named := by
  induction ns generalizing pl with
  | nil =>
    cases hpl
    exact h
  | cons n ns ih =>
    obtain ⟨mid, hmid, hpl⟩ := Option.bind_eq_some_iff.mp hpl
    exact ih (h.enter (hns n List.mem_cons_self) hmid)
      (fun m hm => hns m (List.mem_cons_of_mem n hm)) hpl

/-! ## The loop walks -/

/-- Behind a component that is kept the path ends with its separator. -/
theorem Place.dst_enter (pl : Place) (n : Path) :
    ({ pl with above := n :: pl.above } : Place).dst = '/' :: (n.reverse ++ pl.dst) := by
  simp [Place.dst]

/-- The label `up_one` leaves a component or the root. -/
theorem upOne_dst (h : pl.Named) : upOne pl.dst = pl.up.map Place.dst := by
  obtain ⟨rooted, above⟩ := pl
  cases above with
  | nil => cases rooted <;> rfl
  | cons n above =>
    have hn : '/' ∉ n.reverse := by
      rw [List.mem_reverse]
      exact (h n List.mem_cons_self).2
    have hdrop : (n.reverse ++ (⟨rooted, above⟩ : Place).dst).dropWhile (· ≠ '/') =
        (⟨rooted, above⟩ : Place).dst := by
      rw [List.dropWhile_append_of_pos]
      · cases above with
        | nil => cases rooted <;> rfl
        | cons m above => rfl
      · intro c hc
        have hne : c ≠ '/' := fun heq => hn (heq ▸ hc)
        simpa using hne
    have hdst := Place.dst_enter ⟨rooted, above⟩ n
    rw [hdst, upOne, hdrop]
    rfl

theorem takeWhile_word (hw : '/' ∉ w) (rest : Path) :
    (w ++ '/' :: rest).takeWhile (· ≠ '/') = w ∧
      (w ++ '/' :: rest).dropWhile (· ≠ '/') = '/' :: rest := by
  have hall : ∀ c ∈ w, decide (c ≠ '/') = true := by
    intro c hc
    have hne : c ≠ '/' := fun heq => hw (heq ▸ hc)
    simpa using hne
  constructor
  · rw [List.takeWhile_append_of_pos hall]
    simp
  · rw [List.dropWhile_append_of_pos hall]
    simp

/-- A turn at a component with a separator behind it. -/
theorem normalizeTurn_component (hw : '/' ∉ w) (rest dst : Path) :
    normalizeTurn (w ++ '/' :: rest) dst =
      if w = ['.'] then .next (skipSeparators rest) dst
      else if w = parent then .up (skipSeparators rest)
      else .next (skipSeparators rest) ('/' :: (w.reverse ++ dst)) := by
  have hcopy : copyComponent (w ++ '/' :: rest) dst =
      .next (skipSeparators rest) ('/' :: (w.reverse ++ dst)) := by
    rw [copyComponent, (takeWhile_word hw rest).1, (takeWhile_word hw rest).2]
  have htake := takeWhile_word hw rest
  unfold normalizeTurn
  split
  case h_1 heq =>
    rw [heq] at htake
    simp at htake
  case h_2 behind heq =>
    rw [heq] at htake
    simp at htake
    obtain ⟨rfl, rfl⟩ := htake
    rw [if_pos rfl]
  case h_3 heq =>
    rw [heq] at htake
    simp at htake
  case h_4 behind heq =>
    rw [heq] at htake
    simp at htake
    obtain ⟨rfl, rfl⟩ := htake
    rw [if_neg (by simp), if_pos (by rfl)]
  case h_5 hdot hdotsep hup hupsep =>
    rw [hcopy, if_neg, if_neg]
    · rintro rfl
      exact hupsep rest rfl
    · rintro rfl
      exact hdotsep rest rfl

/-- A turn at the last component. -/
theorem normalizeTurn_last (hw : '/' ∉ w) (dst : Path) :
    normalizeTurn w dst =
      if w = ['.'] then .done dst else if w = parent then .up [] else .done (w.reverse ++ dst) := by
  have hall : ∀ c ∈ w, decide (c ≠ '/') = true := by
    intro c hc
    have hne : c ≠ '/' := fun heq => hw (heq ▸ hc)
    simpa using hne
  have hcopy : copyComponent w dst = .done (w.reverse ++ dst) := by
    rw [copyComponent, List.dropWhile_eq_nil_iff.mpr hall, List.takeWhile_eq_self_iff.mpr hall]
  unfold normalizeTurn
  split
  case h_1 => rfl
  case h_2 => simp at hw
  case h_3 => rfl
  case h_4 => simp at hw
  case h_5 hdot _ hup _ =>
    rw [hcopy, if_neg hdot, if_neg (by exact hup)]

/-- The components up to the next separator. -/
theorem normalizeLoop_component (hne : w ≠ []) (hw : '/' ∉ w) (rest : Path) (hpl : pl.Named)
    (n : Nat) : normalizeLoop (n + 1) (w ++ '/' :: rest) pl.dst =
      (pl.walk (single w)).bind fun pl => normalizeLoop n (skipSeparators rest) pl.dst := by
  rw [normalizeLoop, normalizeTurn_component hw]
  by_cases hdot : w = ['.']
  · rw [if_pos hdot, hdot]
    rfl
  · rw [if_neg hdot, single_name hne hdot, Place.walk_cons, Place.enter]
    by_cases hup : w = parent
    · rw [if_pos hup, if_pos hup]
      rw [upOne_dst hpl]
      cases pl.up <;> rfl
    · rw [if_neg hup, if_neg hup, Option.bind_some, Place.walk_nil, Option.bind_some,
        Place.dst_enter]

theorem Place.walk_append (pl : Place) (ns ms : List Path) :
    pl.walk (ns ++ ms) = (pl.walk ns).bind fun pl => pl.walk ms :=
  List.foldlM_append

/-- The path in which the walk ends; behind the last component there may be no separator. -/
def Place.Ends (pl : Place) (d : Path) : Prop :=
  d = pl.dst ∨ pl.above ≠ [] ∧ '/' :: d = pl.dst

theorem normalizeLoop_last (hw : '/' ∉ w) (hpl : pl.Named) {n : Nat} (hn : 0 < n) :
    match pl.walk (single w) with
    | none => normalizeLoop (n + 1) w pl.dst = none
    | some pl' => ∃ d, normalizeLoop (n + 1) w pl.dst = some d ∧ pl'.Ends d := by
  rw [normalizeLoop, normalizeTurn_last hw]
  by_cases hdot : w = ['.']
  · rw [if_pos hdot, hdot]
    exact ⟨pl.dst, rfl, Or.inl rfl⟩
  · rw [if_neg hdot]
    by_cases hup : w = parent
    · rw [if_pos hup, hup, single_name (by simp [parent]) (by simp [parent]), Place.walk_cons,
        Place.enter, if_pos rfl]
      rw [upOne_dst hpl]
      cases pl.up with
      | none => rfl
      | some pl' =>
        obtain ⟨n, rfl⟩ : ∃ k, n = k + 1 := ⟨n - 1, by omega⟩
        exact ⟨pl'.dst, rfl, Or.inl rfl⟩
    · rw [if_neg hup]
      by_cases hne : w = []
      · rw [hne]
        exact ⟨pl.dst, rfl, Or.inl rfl⟩
      · rw [single_name hne hdot, Place.walk_cons, Place.enter, if_neg hup]
        exact ⟨w.reverse ++ pl.dst, rfl, Or.inr ⟨by simp, (pl.dst_enter w).symm⟩⟩

theorem not_absolute_skip (p : Path) : ¬ Absolute (skipSeparators p) := by
  induction p with
  | nil => simp [Absolute, skipSeparators]
  | cons c p ih =>
    rw [skipSeparators]
    by_cases hc : c = '/'
    · rw [List.dropWhile_cons_of_pos (by simp [hc])]
      exact ih
    · rw [List.dropWhile_cons_of_neg (by simp [hc])]
      simpa [Absolute] using hc

theorem single_named (hw : '/' ∉ w) : ∀ n ∈ single w, n ≠ [] ∧ '/' ∉ n := by
  intro n hn
  rw [single, List.mem_filter, List.mem_singleton] at hn
  obtain ⟨rfl, hn⟩ := hn
  obtain ⟨hne, -⟩ : n ≠ [] ∧ n ≠ ['.'] := by simpa using hn
  exact ⟨hne, hw⟩

/-- The loop on the rest of a path walks over the components of the rest. -/
theorem normalizeLoop_walk {n : Nat} {src : Path} (hn : src.length < n) (hsrc : ¬ Absolute src)
    (hpl : pl.Named) :
    match pl.walk (names src) with
    | none => normalizeLoop n src pl.dst = none
    | some pl' => ∃ d, normalizeLoop n src pl.dst = some d ∧ pl'.Ends d := by
  induction n generalizing src pl with
  | zero => omega
  | succ n ih =>
    obtain ⟨w, hw, hcase⟩ := split_first src
    rcases hcase with rfl | ⟨rest, rfl⟩
    · rw [names_last hw]
      cases n with
      | zero =>
        obtain rfl : src = [] := List.length_eq_zero_iff.mp (by omega)
        exact ⟨pl.dst, rfl, Or.inl rfl⟩
      | succ n => exact normalizeLoop_last hw hpl (by omega)
    · have hne : w ≠ [] := by
        rintro rfl
        exact hsrc rfl
      rw [names_component hw, Place.walk_append, normalizeLoop_component hne hw rest hpl]
      cases hmid : pl.walk (single w) with
      | none => rfl
      | some mid =>
        rw [Option.bind_some, Option.bind_some, ← names_skip rest]
        have hshort := length_skipSeparators_le rest
        rw [List.length_append, List.length_cons] at hn
        exact ih (by omega) (not_absolute_skip rest) (hpl.walk (single_named hw) hmid)

/-- The loop on a whole path that starts at the root. -/
theorem normalizeLoop_absolute {full : Path} (h : Absolute full) :
    match Place.root.walk (names full) with
    | none => normalizeLoop (full.length + 1) full [] = none
    | some pl => ∃ d, normalizeLoop (full.length + 1) full [] = some d ∧ pl.Ends d := by
  obtain ⟨c, rest, rfl⟩ := List.exists_cons_of_ne_nil (l := full) (by rintro rfl; cases h)
  obtain rfl : c = '/' := by simpa [Absolute] using h
  have hshort := length_skipSeparators_le rest
  have hfirst : normalizeLoop (('/' :: rest).length + 1) ('/' :: rest) [] =
      normalizeLoop ('/' :: rest).length (skipSeparators rest) Place.root.dst := rfl
  rw [names_separator, ← names_skip, hfirst]
  exact normalizeLoop_walk (by rw [List.length_cons]; omega) (not_absolute_skip rest)
    (by simp [Place.Named, Place.root])

/-! ## The level of the walk -/

/-- How many parents can follow; the first one at the root is let through. -/
def Place.depth (pl : Place) : Int := pl.above.length + if pl.rooted then 1 else 0

theorem Place.depth_nonneg (pl : Place) : 0 ≤ pl.depth := by
  rw [Place.depth]
  split <;> omega

theorem Place.enter_none_iff (pl : Place) (n : Path) :
    pl.enter n = none ↔ pl.depth + rise n < 0 := by
  obtain ⟨rooted, above⟩ := pl
  rw [Place.enter, rise, Place.depth, Place.up]
  by_cases hn : n = parent
  · rw [if_pos hn, if_pos hn]
    cases above with
    | nil => cases rooted <;> simp
    | cons m above =>
      cases rooted
      · simp
      · simp
        omega
  · rw [if_neg hn, if_neg hn]
    cases rooted <;> simp <;> omega

/-- A component enters a place, leaves a component or leaves the root. -/
theorem Place.enter_some (h : pl.enter n = some pl') :
    pl'.depth = pl.depth + rise n ∧ (pl'.rooted = true ↔
      pl.rooted = true ∧ 0 ≤ (pl.above.length : Int) + rise n) ∧
      (pl'.rooted = true → pl'.above = follow pl.above n ∧
        (pl'.above.length : Int) = pl.above.length + rise n) := by
  obtain ⟨rooted, above⟩ := pl
  rw [Place.enter, Place.up] at h
  rw [Place.depth, Place.depth, rise, follow]
  by_cases hn : n = parent
  · rw [if_pos hn] at h
    simp only [if_pos hn]
    cases above with
    | nil =>
      obtain ⟨hrooted, h⟩ := Option.ite_none_right_eq_some.mp h
      cases h
      simp_all
    | cons m above =>
      cases h
      refine ⟨?_, ?_, fun _ => ⟨rfl, ?_⟩⟩
      · simp only [List.length_cons]
        omega
      · simp only [List.length_cons, iff_self_and]
        omega
      · simp only [List.length_cons]
        omega
  · rw [if_neg hn] at h
    simp only [if_neg hn]
    cases h
    refine ⟨?_, ?_, fun _ => ⟨rfl, ?_⟩⟩
    · simp only [List.length_cons]
      omega
    · simp only [iff_self_and]
      omega
    · simp

theorem Place.walk_none_iff (pl : Place) (ns : List Path) :
    pl.walk ns = none ↔ Climbs pl.depth ns := by
  induction ns generalizing pl with
  | nil =>
    have hdepth := pl.depth_nonneg
    rw [Place.walk_nil, climbs_nil]
    simp
    omega
  | cons n ns ih =>
    have hdepth := pl.depth_nonneg
    rw [Place.walk_cons, climbs_cons]
    cases henter : pl.enter n with
    | none =>
      have hneg := (pl.enter_none_iff n).mp henter
      simp only [Option.bind_none, true_iff]
      exact Or.inr (Climbs.start ns hneg)
    | some mid =>
      rw [Option.bind_some, ih, (Place.enter_some henter).1]
      constructor
      · exact Or.inr
      · rintro (hneg | h)
        · omega
        · exact h

/-- A walk that never climbs above the root resolves the components. -/
theorem Place.walk_resolves (hrooted : pl.rooted = true) (h : ¬ Climbs pl.above.length ns) :
    pl.walk ns = some ⟨true, ns.foldl follow pl.above⟩ := by
  induction ns generalizing pl with
  | nil =>
    obtain ⟨rooted, above⟩ := pl
    obtain rfl : rooted = true := hrooted
    rfl
  | cons n ns ih =>
    rw [climbs_cons, not_or] at h
    have hlevel : 0 ≤ (pl.above.length : Int) + rise n := by
      by_contra hneg
      exact h.2 (Climbs.start ns (by omega))
    have henter : pl.enter n ≠ none := by
      rw [Ne, Place.enter_none_iff, Place.depth, if_pos hrooted]
      omega
    obtain ⟨mid, hmid⟩ := Option.ne_none_iff_exists'.mp henter
    obtain ⟨-, hstays, hplace⟩ := Place.enter_some hmid
    have hmidRooted := hstays.mpr ⟨hrooted, hlevel⟩
    obtain ⟨habove, hlength⟩ := hplace hmidRooted
    rw [Place.walk_cons, hmid, Option.bind_some, ih hmidRooted (by rw [hlength]; exact h.2), habove,
      List.foldl_cons]

/-- A walk that has climbed above the root never comes back to it. -/
theorem Place.walk_lost (hpl : pl.walk ns = some pl')
    (h : pl.rooted = false ∨ Climbs pl.above.length ns) : pl'.rooted = false := by
  induction ns generalizing pl with
  | nil =>
    cases hpl
    rw [climbs_nil] at h
    exact h.resolve_right (by omega)
  | cons n ns ih =>
    obtain ⟨mid, hmid, hpl⟩ := Option.bind_eq_some_iff.mp hpl
    obtain ⟨-, hstays, hplace⟩ := Place.enter_some hmid
    refine ih hpl ?_
    cases hrooted : mid.rooted with
    | false => exact Or.inl rfl
    | true =>
      have hbefore := (hstays.mp hrooted).1
      rcases h with h | h
      · rw [h] at hbefore
        cases hbefore
      · rw [(hplace hrooted).2]
        rcases (climbs_cons _ _ _).mp h with hneg | h
        · omega
        · exact Or.inr h

/-! ## The result of the walk -/

theorem finishPath_separator (h : d ≠ []) : finishPath ('/' :: d) = d.reverse := by
  obtain ⟨c, d, rfl⟩ := List.exists_cons_of_ne_nil h
  rw [finishPath, if_pos rfl]

theorem finishPath_word {c : Char} (d : Path) (h : c ≠ '/') :
    finishPath (c :: d) = (c :: d).reverse := by
  cases d with
  | nil => rfl
  | cons e d => rw [finishPath, if_neg h]

/-- Whether a separator ends the path or not, the same text is returned. -/
theorem Place.Ends.finish {rooted : Bool} (hn : n ≠ [] ∧ '/' ∉ n)
    (h : (⟨rooted, n :: above⟩ : Place).Ends d) :
    finishPath d = (⟨rooted, above⟩ : Place).dst.reverse ++ n := by
  have hdst : (⟨rooted, n :: above⟩ : Place).dst =
      '/' :: (n.reverse ++ (⟨rooted, above⟩ : Place).dst) := Place.dst_enter ⟨rooted, above⟩ n
  rw [Place.Ends, hdst] at h
  rcases h with rfl | ⟨-, h⟩
  · rw [finishPath_separator (by simp [hn.1])]
    simp
  · obtain rfl := List.tail_eq_of_cons_eq h
    obtain ⟨c, m, hm⟩ := List.exists_cons_of_ne_nil (l := n.reverse) (by simpa using hn.1)
    have hc : c ≠ '/' := by
      rintro rfl
      exact hn.2 (List.mem_reverse.mp (by rw [hm]; exact List.mem_cons_self))
    rw [hm, List.cons_append, finishPath_word _ hc, ← List.cons_append, ← hm]
    simp

theorem dst_rooted (above : List Path) :
    (⟨true, above⟩ : Place).dst.reverse = above.reverse.flatMap ('/' :: ·) ++ ['/'] := by
  induction above with
  | nil => rfl
  | cons n above ih =>
    have hdst : (⟨true, n :: above⟩ : Place).dst =
        '/' :: (n.reverse ++ (⟨true, above⟩ : Place).dst) := Place.dst_enter ⟨true, above⟩ n
    rw [hdst, List.reverse_cons, List.reverse_append, List.reverse_reverse, ih]
    simp

/-- A place at the root is returned in its one spelling. -/
theorem Place.Ends.rooted (hpl : (⟨true, above⟩ : Place).Named)
    (h : (⟨true, above⟩ : Place).Ends d) : finishPath d = render above.reverse := by
  cases above with
  | nil =>
    rcases h with rfl | ⟨hne, -⟩
    · rfl
    · exact absurd rfl hne
  | cons n above =>
    rw [Place.Ends.finish (hpl n List.mem_cons_self) h, dst_rooted, render]
    · simp
    · simp

/-- Without the root the path returned is relative. -/
theorem relative (hpl : (⟨false, n :: above⟩ : Place).Named) :
    ¬ Absolute ((⟨false, above⟩ : Place).dst.reverse ++ n) := by
  induction above generalizing n with
  | nil =>
    have hn := hpl n List.mem_cons_self
    intro habs
    exact hn.2 (List.mem_of_head? habs)
  | cons m above ih =>
    have hm := hpl m (by simp)
    have hdst : (⟨false, m :: above⟩ : Place).dst =
        '/' :: (m.reverse ++ (⟨false, above⟩ : Place).dst) := Place.dst_enter ⟨false, above⟩ m
    have hrel := ih fun k hk => hpl k (List.mem_cons_of_mem n hk)
    obtain ⟨c, w, hw⟩ := List.exists_cons_of_ne_nil
      (l := (⟨false, above⟩ : Place).dst.reverse ++ m) (by simp [hm.1])
    have hsplit : (⟨false, m :: above⟩ : Place).dst.reverse ++ n = c :: w ++ '/' :: n := by
      rw [← hw, hdst]
      simp
    rw [hw] at hrel
    rw [hsplit]
    exact hrel

/-! ## What a call promises -/

/-- Either a null pointer, or the one spelling of the place that the joined path leads to. -/
def Normalized (allocated : Bool) (directory filename : Path) : Prop :=
  match normalizePath allocated directory filename with
  | .error _ => False
  | .ok none => allocated = true → Climbs 0 (names (joined directory filename))
  | .ok (some p) => Canonical p ∧ p = render (resolve (names (joined directory filename))) ∧
      ∀ directory', normalizePath true directory' p = .ok (some p)

/-- What the function returns at the place where the walk ends. -/
def Place.Returned (result : Except Fault (Option Path)) : Option Place → Prop
  | none => result = .ok none
  | some ⟨true, above⟩ => result = .ok (some (render above.reverse))
  | some ⟨false, []⟩ => result = .error .outside
  | some ⟨false, _⟩ => ∃ p, result = .ok (some p) ∧ ¬ Absolute p

theorem joined_absolute (hdir : Absolute directory) (filename : Path) :
    Absolute (joined directory filename) := by
  rw [joined]
  split
  case isTrue h => exact h
  case isFalse =>
    cases directory with
    | nil => cases hdir
    | cons c directory => exact hdir

/-- Only the walk that has left the root and kept nothing ends with an empty path. -/
theorem Place.Ends.empty (hpl : pl.Named) (h : pl.Ends []) : pl = ⟨false, []⟩ := by
  obtain ⟨rooted, above⟩ := pl
  cases above with
  | nil =>
    rcases h with h | ⟨hne, -⟩
    · cases rooted with
      | false => rfl
      | true => cases h
    · exact absurd rfl hne
  | cons n above =>
    have hdst : (⟨rooted, n :: above⟩ : Place).dst =
        '/' :: (n.reverse ++ (⟨rooted, above⟩ : Place).dst) := Place.dst_enter ⟨rooted, above⟩ n
    have hn := (hpl n List.mem_cons_self).1
    rw [Place.Ends, hdst] at h
    simp [hn] at h

theorem normalizePath_walk {filename : Path} (habs : Absolute (joined directory filename))
    (hdir : nul ∉ directory) (hfile : nul ∉ filename) :
    Place.Returned (normalizePath true directory filename)
      (Place.root.walk (names (joined directory filename))) := by
  have heq := normalizePath_eq hdir hfile
  have hloop := normalizeLoop_absolute habs
  have hnamed : Place.root.Named := by simp [Place.Named, Place.root]
  rw [dfsNormalizePath_joined] at heq
  cases hwalk : Place.root.walk (names (joined directory filename)) with
  | none =>
    rw [hwalk] at hloop
    rw [hloop] at heq
    exact heq
  | some pl =>
    rw [hwalk] at hloop
    obtain ⟨d, hd, hends⟩ := hloop
    have hpl := hnamed.walk (fun n hn => ⟨(name_of_mem hn).nonempty, (name_of_mem hn).whole⟩) hwalk
    rw [hd] at heq
    cases d with
    | nil =>
      rw [hends.empty hpl]
      exact heq
    | cons c d =>
      have hres : normalizePath true directory filename = .ok (some (finishPath (c :: d))) := heq
      match pl, hends, hpl with
      | ⟨true, above⟩, hends, hpl =>
        rw [hends.rooted hpl] at hres
        exact hres
      | ⟨false, []⟩, hends, hpl =>
        rcases hends with h | ⟨hne, -⟩
        · cases h
        · exact absurd rfl hne
      | ⟨false, n :: above⟩, hends, hpl =>
        rw [hends.finish (hpl n List.mem_cons_self)] at hres
        exact ⟨_, hres, relative hpl⟩

/-- The one spelling of a place is returned unchanged. -/
theorem normalizePath_render {p : Path} (hp : nul ∉ p) (h : ∀ n ∈ ns, Name p n)
    (hup : ∀ n ∈ ns, n ≠ parent) (directory : Path) :
    normalizePath true directory (render ns) = .ok (some (render ns)) := by
  have habs := absolute_render ns
  have hnul : nul ∉ render ns := by
    intro hmem
    rcases mem_render hmem with heq | ⟨n, hn, hc⟩
    · exact nul_ne_separator heq
    · exact hp ((h n hn).within _ hc)
  have hjoined : ∀ directory, joined directory (render ns) = render ns := fun directory => if_pos habs
  have hsame : normalizePath true directory (render ns) = normalizePath true [] (render ns) := by
    rw [normalizePath, normalizePath, if_pos habs, if_pos habs]
  have hwalk := @normalizePath_walk [] _ (by rw [hjoined]; exact habs) (by simp) hnul
  rw [hjoined, names_render h, Place.walk_resolves rfl
    (not_climbs_names (by simp [Place.root]) hup)] at hwalk
  have hres : (ns.foldl follow Place.root.above).reverse = ns := resolve_names hup
  rw [Place.Returned, hres] at hwalk
  rw [hsame, hwalk]

/-- The function keeps its promise unless the components climb to one level above the root and
never to two. -/
theorem normalized_iff {directory filename : Path} (hdir : Absolute directory)
    (hdirNul : nul ∉ directory) (hfileNul : nul ∉ filename) (allocated : Bool) :
    Normalized allocated directory filename ↔ (allocated = true →
      Climbs 0 (names (joined directory filename)) →
        Climbs 1 (names (joined directory filename))) := by
  cases allocated with
  | false => simp [Normalized, normalizePath]
  | true =>
    have habs := joined_absolute hdir filename
    have hwalk := normalizePath_walk habs hdirNul hfileNul
    have hnul := nul_not_mem_joined hdirNul hfileNul
    have hnone := Place.root.walk_none_iff (names (joined directory filename))
    have hnames : ∀ n ∈ resolve (names (joined directory filename)),
        Name (joined directory filename) n := fun n hn => name_of_mem (mem_resolve hn).1
    have hup : ∀ n ∈ resolve (names (joined directory filename)), n ≠ parent :=
      fun n hn => (mem_resolve hn).2
    simp only [true_imp_iff]
    by_cases hclimbs : Climbs 0 (names (joined directory filename))
    · cases hres : Place.root.walk (names (joined directory filename)) with
      | none =>
        rw [hres] at hwalk
        rw [Normalized, show normalizePath true directory filename = .ok none from hwalk]
        exact ⟨fun _ _ => hnone.mp hres, fun _ _ => hclimbs⟩
      | some pl =>
        have hfails : ¬ Climbs 1 (names (joined directory filename)) := by
          intro h
          rw [hnone.mpr h] at hres
          cases hres
        have hbroken : ¬ Normalized true directory filename := by
          have hrooted := Place.walk_lost hres (Or.inr hclimbs)
          rw [hres] at hwalk
          rw [Normalized]
          match pl, hrooted, hwalk with
          | ⟨false, []⟩, _, hwalk =>
            rw [show normalizePath true directory filename = .error .outside from hwalk]
            exact id
          | ⟨false, _ :: _⟩, _, hwalk =>
            obtain ⟨p, hp, hrel⟩ := hwalk
            rw [hp]
            exact fun h => hrel h.1.absolute
        exact ⟨fun h => absurd h hbroken, fun h => absurd (h hclimbs) hfails⟩
    · have hres := @Place.walk_resolves Place.root _ rfl hclimbs
      rw [hres] at hwalk
      rw [Place.Returned] at hwalk
      rw [Normalized, hwalk]
      refine ⟨fun _ h => absurd h hclimbs, fun _ => ⟨?_, rfl, ?_⟩⟩
      · exact canonical_render hnames hup
      · exact normalizePath_render hnul hnames hup

/-- A name read at `/mnt` that climbs to the root and no further. -/
theorem normalized_iff_mnt :
    normalizePath true "/mnt".toList "..//etc/./hosts/".toList = .ok (some "/etc/hosts".toList) ∧
      Normalized true "/mnt".toList "..//etc/./hosts/".toList := by
  refine ⟨by decide +kernel, ?_⟩
  rw [normalized_iff (by decide) (by decide) (by decide)]
  decide +kernel

/-- A parent at the root makes the result relative. -/
theorem parent_of_root_is_relative : normalizePath true "/".toList "../a".toList =
    .ok (some "a".toList) ∧ ¬ Normalized true "/".toList "../a".toList := by
  have hres : normalizePath true "/".toList "../a".toList = .ok (some "a".toList) := by decide +kernel
  refine ⟨hres, ?_⟩
  rw [Normalized, hres]
  exact fun h => absurd h.1.absolute (by decide)

end RtThread.Dfs
