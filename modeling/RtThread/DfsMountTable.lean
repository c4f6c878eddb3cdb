import RtThread.DfsMount

/-!
# The mount table stays consistent

The running maximum of the lookup scan is the longest whole-component prefix, and a mount
whose path passes the right check keeps the mounted paths apart.
-/
namespace RtThread.Dfs

/-! ## Whole-component prefixes -/

variable {p q fullpath path : Path} {pre rest table : FilesystemTable} {e : Filesystem}
  {fs : Option Nat} {i prefixlen : Nat} {call : MountCall} {r : FilesystemTable × Outcome}
  {types : List (Option FilesystemOps)}

theorem prefix_append_singleton {c : Char} :
    q ++ [c] <+: p ++ [c] ↔ q <+: p ∧ (q.length < p.length → p[q.length]? = some c) := by
  constructor
  · rintro ⟨t, ht⟩
    rcases List.eq_nil_or_concat t with rfl | ⟨t, x, rfl⟩
    · have hqp : q = p := by simpa using ht
      rw [hqp]
      exact ⟨List.prefix_rfl, fun h => absurd h (Nat.lt_irrefl _)⟩
    · rw [List.concat_eq_append, ← List.append_assoc] at ht
      obtain ⟨hp, -⟩ := List.append_inj' ht rfl
      rw [← hp, List.append_assoc]
      exact ⟨List.prefix_append _ _, fun _ => by simp⟩
  · rintro ⟨⟨t, rfl⟩, hnext⟩
    cases t with
    | nil => simp
    | cons x t =>
      have hx : x = c := by simpa using hnext (by simp)
      rw [hx]
      exact ⟨t ++ [c], by simp⟩

theorem head?_of_prefix (hq : q ≠ []) (h : q <+: p) : q.head? = p.head? := by
  obtain ⟨t, rfl⟩ := h
  obtain ⟨c, q, rfl⟩ := List.exists_cons_of_ne_nil hq
  rfl

/-- The two tests of the scan are those of the length and of a whole-component prefix. -/
theorem not_skipped_iff (hpath : Absolute path) (hq : q ≠ []) (n : Nat) :
    ¬ Skipped path q n ↔ n ≤ q.length ∧ WholePrefix q path := by
  have hlen : 0 < q.length := List.length_pos_of_ne_nil hq
  by_cases hone : q.length = 1
  · obtain ⟨c, rfl⟩ := List.length_eq_one_iff.mp hone
    have hroot : [c] <+: path ↔ c = '/' := by
      constructor
      · intro h
        have hhead := head?_of_prefix hq h
        rw [show path.head? = some '/' from hpath] at hhead
        simpa using hhead
      · rintro rfl
        obtain ⟨t, rfl⟩ := List.head?_eq_some_iff.mp hpath
        exact List.prefix_append ['/'] t
    have hwhole : WholePrefix [c] path ↔ c = '/' := by
      constructor
      · rintro (h | h)
        · simpa using h
        · exact hroot.mp (prefix_append_singleton.mp h).1
      · rintro rfl
        exact Or.inl rfl
    rw [hwhole, ← hroot]
    by_cases hp : [c] <+: path
    · simp [Skipped, hp]
    · simp [Skipped, hp]
  · have hwhole : WholePrefix q path ↔
        q <+: path ∧ (q.length < path.length → path[q.length]? = some '/') := by
      rw [← prefix_append_singleton]
      constructor
      · rintro (rfl | h)
        · exact absurd rfl hone
        · exact h
      · exact Or.inr
    rw [hwhole]
    have h1 : 1 < q.length := by omega
    constructor
    · intro h
      obtain ⟨h2, h3⟩ := not_or.mp h
      obtain ⟨h4, h5⟩ := not_or.mp h2
      refine ⟨by omega, not_not.mp h5, fun hlt => ?_⟩
      by_contra hne
      exact h3 ⟨h1, hlt, hne⟩
    · rintro ⟨hn, hpre, hnext⟩ ((h | h) | ⟨-, hlt, hne⟩)
      · omega
      · exact h hpre
      · exact hne (hnext hlt)

/-- Two paths of one length above the same path are the same. -/
theorem WholePrefix.eq_of_length {q' : Path} (hpath : Absolute path) (hq : q ≠ []) (hq' : q' ≠ [])
    (h : WholePrefix q path) (h' : WholePrefix q' path) (hlen : q.length = q'.length) : q = q' := by
  have hpre : ∀ {p : Path}, p ≠ [] → WholePrefix p path → p <+: path := by
    intro p hp hw
    by_contra hno
    exact (not_skipped_iff hpath hp 0).mpr ⟨Nat.zero_le _, hw⟩ (Or.inl (Or.inr hno))
  exact (List.prefix_of_prefix_length_le (hpre hq h) (hpre hq' h') (Nat.le_of_eq hlen)).eq_of_length hlen

/-! ## The lookup scan -/

theorem mountedAt_append {j : Nat} :
    MountedAt (pre ++ [e]) j q ↔
      MountedAt pre j q ∨ j = pre.length ∧ e.path = some q ∧ e.ops.isSome := by
  obtain ⟨path, ops, devId⟩ := e
  unfold MountedAt
  rcases Nat.lt_trichotomy j pre.length with hlt | rfl | hgt
  · rw [List.getElem?_append_left hlt]
    constructor
    · exact Or.inl
    · rintro (h | ⟨rfl, -⟩)
      · exact h
      · omega
  · cases ops with
    | none => simp
    | some ops => simp
  · have hnone : (pre ++ [(⟨path, ops, devId⟩ : Filesystem)])[j]? = none := by
      rw [List.getElem?_eq_none_iff, List.length_append, List.length_singleton]
      omega
    have hpre : pre[j]? = none := List.getElem?_eq_none (by omega)
    rw [hnone, hpre]
    simp only [reduceCtorEq, exists_false, false_or, false_iff]
    omega

/-- What the scan has found in the entries behind it. -/
structure Best (path : Path) (pre : FilesystemTable) (fs : Option Nat) (prefixlen : Nat) :
    Prop where
  at_entry : ∀ k ∈ fs, ∃ q, MountedAt pre k q ∧ WholePrefix q path ∧ q.length = prefixlen
  longest : ∀ j q, MountedAt pre j q → WholePrefix q path → fs.isSome ∧ q.length ≤ prefixlen
  no_entry : fs = none → prefixlen = 0

theorem Best.skip (h : Best path pre fs prefixlen)
    (hskip : ∀ q, e.path = some q → e.ops.isSome → WholePrefix q path →
      q.length < prefixlen) : Best path (pre ++ [e]) fs prefixlen := by
  constructor
  · intro k hk
    obtain ⟨q, hm, hq⟩ := h.at_entry k hk
    exact ⟨q, mountedAt_append.mpr (Or.inl hm), hq⟩
  · intro j q hm hq
    rcases mountedAt_append.mp hm with hm | ⟨-, hp, ho⟩
    · exact h.longest j q hm hq
    · have hlt := hskip q hp ho hq
      constructor
      · cases fs with
        | none =>
          have := h.no_entry rfl
          omega
        | some k => rfl
      · omega
  · exact h.no_entry

theorem Best.take (h : Best path pre fs prefixlen) (hp : e.path = some q) (ho : e.ops.isSome)
    (hq : WholePrefix q path) (hle : prefixlen ≤ q.length) :
    Best path (pre ++ [e]) (some pre.length) q.length := by
  constructor
  · intro k hk
    obtain rfl : pre.length = k := by simpa using hk
    exact ⟨q, mountedAt_append.mpr (Or.inr ⟨rfl, hp, ho⟩), hq, rfl⟩
  · intro j q' hm hq'
    rcases mountedAt_append.mp hm with hm | ⟨-, hp', -⟩
    · exact ⟨rfl, Nat.le_trans (h.longest j q' hm hq').2 hle⟩
    · obtain rfl : q = q' := by simpa [hp] using hp'
      exact ⟨rfl, Nat.le_refl _⟩
  · intro hno
    cases hno

theorem lookupLoop_best (hpath : Absolute path) (hne : ∀ e ∈ rest, e.path ≠ some [])
    (h : Best path pre fs prefixlen) :
    ∃ n, Best path (pre ++ rest) (lookupLoop path rest pre.length fs prefixlen) n := by
  induction rest generalizing pre fs prefixlen with
  | nil =>
    rw [List.append_nil]
    exact ⟨prefixlen, h⟩
  | cons e rest ih =>
    have hsplit : pre ++ e :: rest = (pre ++ [e]) ++ rest := by simp
    have hlen : pre.length + 1 = (pre ++ [e]).length := by simp
    have hne' : ∀ e ∈ rest, e.path ≠ some [] := fun e' h' => hne e' (List.mem_cons_of_mem e h')
    have hfirst : e.path ≠ some [] := hne e List.mem_cons_self
    obtain ⟨epath, eops, devId⟩ := e
    rw [hsplit]
    cases epath with
    | none =>
      simp only [lookupLoop]
      rw [hlen]
      apply ih hne'
      apply h.skip
      intro q hp
      cases hp
    | some q =>
      cases eops with
      | none =>
        simp only [lookupLoop]
        rw [hlen]
        apply ih hne'
        apply h.skip
        intro q' _ ho
        cases ho
      | some ops =>
        have hq : q ≠ [] := fun h => hfirst (congrArg some h)
        have hskip := not_skipped_iff hpath hq prefixlen
        simp only [lookupLoop]
        rw [hlen]
        split
        case isTrue hs =>
          apply ih hne'
          apply h.skip
          intro q' hp _ hw
          obtain rfl : q = q' := by simpa using hp
          by_contra hlt
          exact hskip.mpr ⟨by omega, hw⟩ hs
        case isFalse hs =>
          obtain ⟨hle, hw⟩ := hskip.mp hs
          exact ih hne' (h.take rfl rfl hw hle)

theorem dfsFilesystemLookup_best (hpath : Absolute path) (hne : ∀ e ∈ table, e.path ≠ some []) :
    ∃ n, Best path table (dfsFilesystemLookup table path) n := by
  have hstart : Best path [] none 0 := by
    constructor
    · intro k hk
      cases hk
    · rintro j q ⟨ops, devId, hm⟩
      cases hm
    · exact fun _ => rfl
  exact lookupLoop_best hpath hne hstart

/-! ## One call -/

/-- An entry is cleared, or it has a path and operations. -/
def Sound (table : FilesystemTable) : Prop :=
  ∀ e ∈ table, e = .cleared ∨ ∃ q ops devId, e = ⟨some q, some ops, devId⟩ ∧ q ≠ []

theorem Sound.path_ne_nil (h : Sound table) : ∀ e ∈ table, e.path ≠ some [] := by
  intro e he
  rcases h e he with rfl | ⟨q, ops, devId, rfl, hq⟩
  · simp [Filesystem.cleared]
  · simpa using hq

theorem Sound.set (h : Sound table) {fs : Nat}
    (he : e = .cleared ∨ ∃ q ops devId, e = ⟨some q, some ops, devId⟩ ∧ q ≠ []) :
    Sound (table.set fs e) := by
  intro e' he'
  rcases List.mem_or_eq_of_mem_set he' with hmem | rfl
  · exact h e' hmem
  · exact he

theorem mem_mountedPaths : q ∈ mountedPaths table ↔ ∃ i, MountedAt table i q := by
  simp only [mountedPaths, List.mem_filterMap, MountedAt]
  constructor
  · rintro ⟨⟨path, ops, devId⟩, hmem, hq⟩
    obtain ⟨i, hi⟩ := List.mem_iff_getElem?.mp hmem
    cases ops with
    | none => simp at hq
    | some ops =>
      obtain rfl : path = some q := by simpa using hq
      exact ⟨i, ops, devId, hi⟩
  · rintro ⟨i, ops, devId, hi⟩
    exact ⟨_, List.mem_of_getElem? hi, by simp⟩

/-- The scan finds the first empty entry only behind all the mounted paths. -/
theorem scanTable_empty {fs' : Option Nat} (h : scanTable path rest i fs = some (.empty fs')) :
    path ∉ mountedPaths rest ∧
      (fs' = fs ∨ ∃ k e, rest[k]? = some e ∧ e.ops = none ∧ fs' = some (i + k)) := by
  induction rest generalizing i fs with
  | nil =>
    simp only [scanTable, Option.some.injEq, Scan.empty.injEq] at h
    exact ⟨by simp [mountedPaths], Or.inl h.symm⟩
  | cons e rest ih =>
    obtain ⟨epath, eops, devId⟩ := e
    cases eops with
    | none =>
      obtain ⟨hnot, hfs⟩ := ih h
      constructor
      · simpa [mountedPaths] using hnot
      · rcases hfs with hfs | ⟨k, e, hk, he, hfs⟩
        · cases fs with
          | none => exact Or.inr ⟨0, _, rfl, rfl, by simpa using hfs⟩
          | some k => exact Or.inl (by simpa using hfs)
        · exact Or.inr ⟨k + 1, e, hk, he, by rw [hfs]; congr 1; omega⟩
    | some ops =>
      cases epath with
      | none => simp [scanTable] at h
      | some q =>
        simp only [scanTable, Option.bind_some] at h
        split at h
        case isTrue => simp at h
        case isFalse hq =>
          obtain ⟨hnot, hfs⟩ := ih h
          constructor
          · simp only [mountedPaths, List.filterMap_cons, Option.isSome_some, if_true,
              List.mem_cons, not_or]
            exact ⟨fun heq => hq heq.symm, hnot⟩
          · rcases hfs with hfs | ⟨k, e, hk, he, hfs⟩
            · exact Or.inl hfs
            · exact Or.inr ⟨k + 1, e, hk, he, by rw [hfs]; congr 1; omega⟩

theorem scanTable_total (path : Path) (h : Sound rest) (i : Nat) (fs : Option Nat) :
    ∃ scan, scanTable path rest i fs = some scan := by
  induction rest generalizing i fs with
  | nil => exact ⟨_, rfl⟩
  | cons e rest ih =>
    have hrest : Sound rest := fun e' he' => h e' (List.mem_cons_of_mem e he')
    rcases h e List.mem_cons_self with rfl | ⟨q, ops, devId, rfl, -⟩
    · exact ih hrest _ _
    · simp only [scanTable, Option.bind_some]
      split
      · exact ⟨_, rfl⟩
      · exact ih hrest _ _

/-- The two ends of a mount: the table as it was, or a new path in an empty entry. -/
inductive MountCase (table : FilesystemTable) (call : MountCall) :
    FilesystemTable × Outcome → Prop where
  | failed (errno : Option Errno) : MountCase table call (table, failed errno)
  | mounted (fs : Nat) (fullpath : Path) (ops : FilesystemOps) (devId : Option Nat)
      (hfull : dfsNormalizePath call.allocated call.directory call.path = some fullpath)
      (hcheck : call.path ∉ mountedPaths table) (hempty : table[fs]? = some .cleared) :
      MountCase table call (table.set fs ⟨some fullpath, some ops, devId⟩, succeeded)

theorem set_cleared {fs : Nat} (h : table[fs]? = some .cleared) (e : Filesystem) :
    (table.set fs e).set fs .cleared = table := by
  rw [List.set_set]
  obtain ⟨hlt, hget⟩ := List.getElem?_eq_some_iff.mp h
  rw [← hget]
  exact List.set_getElem_self hlt

theorem enterTable_cases (hs : Sound table) {ops : FilesystemOps} {devId : Option Nat}
    (hfull : dfsNormalizePath call.allocated call.directory call.path = some fullpath)
    (h : enterTable table call fullpath ops devId = some r) : MountCase table call r := by
  obtain ⟨scan, hscan, rfl⟩ := Option.map_eq_some_iff.mp h
  cases scan with
  | mounted => exact .failed _
  | empty fs =>
    cases fs with
    | none => exact .failed _
    | some fs =>
      obtain ⟨hcheck, hfs⟩ := scanTable_empty hscan
      have hempty : table[fs]? = some .cleared := by
        rcases hfs with hfs | ⟨k, e, hk, he, hfs⟩
        · cases hfs
        · obtain rfl : fs = k := by simpa using hfs
          rcases hs e (List.mem_of_getElem? hk) with rfl | ⟨q, ops, devId, rfl, -⟩
          · exact hk
          · cases he
      simp only [registerFilesystem]
      split
      · rw [set_cleared hempty]
        exact .failed _
      · split
        · rw [set_cleared hempty]
          exact .failed _
        · exact .mounted fs fullpath ops devId hfull hcheck hempty

theorem dfsMount_cases (hs : Sound table) (h : dfsMount types table call = some r) :
    MountCase table call r := by
  have hfailed : ∀ errno, some (table, RtThread.Dfs.failed errno) = some r →
      MountCase table call r := by
    intro errno h
    cases h
    exact .failed errno
  unfold dfsMount at h
  split at h
  case h_1 => exact hfailed _ h
  case h_2 =>
    split at h
    case h_1 => exact hfailed _ h
    case h_2 ops _ =>
      split at h
      case isTrue => exact hfailed _ h
      case isFalse =>
        split at h
        case h_1 => exact hfailed _ h
        case h_2 fullpath hfull =>
          split at h
          · exact hfailed _ h
          · exact enterTable_cases hs hfull h

theorem dfsMount_total (types : List (Option FilesystemOps)) (hs : Sound table) (call : MountCall) :
    ∃ r, dfsMount types table call = some r := by
  unfold dfsMount
  split
  · exact ⟨_, rfl⟩
  · split
    · exact ⟨_, rfl⟩
    · split
      · exact ⟨_, rfl⟩
      · split
        · exact ⟨_, rfl⟩
        · split
          · exact ⟨_, rfl⟩
          · obtain ⟨scan, hscan⟩ := scanTable_total call.path hs 0 none
            exact ⟨_, by rw [enterTable, hscan]; rfl⟩

/-- The two ends of an unmount: the table as it was, or one entry cleared. -/
theorem dfsUnmount_cases (hs : Sound table) (call : UnmountCall) :
    ∃ r, dfsUnmount table call = some r ∧ (r.1 = table ∨ ∃ fs, r.1 = table.set fs .cleared) := by
  unfold dfsUnmount
  split
  case h_1 => exact ⟨_, rfl, Or.inl rfl⟩
  case h_2 fullpath _ =>
    split
    case h_1 => exact ⟨_, rfl, Or.inl rfl⟩
    case h_2 fs hfs =>
      obtain ⟨hlt, hp, -⟩ := List.findIdx?_eq_some_iff_getElem.mp hfs
      rw [List.getElem?_eq_getElem hlt, Option.bind_some]
      rcases hs _ (List.getElem_mem hlt) with he | ⟨q, ops, devId, he, -⟩
      · rw [he] at hp
        simp [Filesystem.cleared] at hp
      · rw [he]
        simp only [leaveTable, Option.map_some]
        split
        · exact ⟨_, rfl, Or.inl rfl⟩
        · exact ⟨_, rfl, Or.inr ⟨fs, rfl⟩⟩

/-! ## Every run -/

/-- The entries are sound and no path is mounted twice. -/
structure TableInv (table : FilesystemTable) : Prop where
  sound : Sound table
  distinct : ∀ i j q, MountedAt table i q → MountedAt table j q → i = j

theorem dfsInit_inv (n : Nat) : TableInv (dfsInit n) := by
  constructor
  · intro e he
    exact Or.inl (List.eq_of_mem_replicate he)
  · rintro i j q ⟨ops, devId, hi⟩
    have he := List.eq_of_mem_replicate (List.mem_of_getElem? hi)
    cases he

theorem mountedAt_set {fs : Nat} (h : MountedAt (table.set fs e) i q) :
    (i = fs ∧ e.path = some q ∧ e.ops.isSome) ∨ (i ≠ fs ∧ MountedAt table i q) := by
  obtain ⟨ops, devId, hi⟩ := h
  rw [List.getElem?_set] at hi
  by_cases hfs : fs = i
  · rw [if_pos hfs] at hi
    split at hi
    · cases hi
      exact Or.inl ⟨hfs.symm, rfl, rfl⟩
    · cases hi
  · rw [if_neg hfs] at hi
    exact Or.inr ⟨fun h => hfs h.symm, ops, devId, hi⟩

theorem TableInv.clear (h : TableInv table) (fs : Nat) : TableInv (table.set fs .cleared) := by
  constructor
  · exact h.sound.set (Or.inl rfl)
  · intro i j q hi hj
    rcases mountedAt_set hi with ⟨-, hp, -⟩ | ⟨-, hi⟩
    · cases hp
    · rcases mountedAt_set hj with ⟨-, hp, -⟩ | ⟨-, hj⟩
      · cases hp
      · exact h.distinct i j q hi hj

theorem TableInv.mount (h : TableInv table) {fs : Nat} (hne : fullpath ≠ [])
    (hnew : fullpath ∉ mountedPaths table) (ops : FilesystemOps) (devId : Option Nat) :
    TableInv (table.set fs ⟨some fullpath, some ops, devId⟩) := by
  constructor
  · exact h.sound.set (Or.inr ⟨fullpath, ops, devId, rfl, hne⟩)
  · intro i j q hi hj
    rcases mountedAt_set hi with ⟨rfl, hp, -⟩ | ⟨-, hi'⟩
    · obtain rfl : fullpath = q := by simpa using hp
      rcases mountedAt_set hj with ⟨rfl, -⟩ | ⟨-, hj⟩
      · rfl
      · exact absurd (mem_mountedPaths.mpr ⟨j, hj⟩) hnew
    · rcases mountedAt_set hj with ⟨rfl, hp, -⟩ | ⟨-, hj⟩
      · obtain rfl : fullpath = q := by simpa using hp
        exact absurd (mem_mountedPaths.mpr ⟨i, hi'⟩) hnew
      · exact h.distinct i j q hi' hj

/-- One call with a path the check understands keeps the invariant. -/
theorem TableInv.step (h : TableInv table) (types : List (Option FilesystemOps)) {op : MountOp}
    (hok : CheckedPath table op) :
    ∃ table', mountStep types table op = some table' ∧ TableInv table' := by
  cases op with
  | mount call =>
    obtain ⟨r, hr⟩ := dfsMount_total types h.sound call
    refine ⟨r.1, by rw [mountStep, hr]; rfl, ?_⟩
    cases dfsMount_cases h.sound hr with
    | failed errno => exact h
    | mounted fs fullpath ops devId hfull hcheck hempty =>
      have hnew : fullpath ∉ mountedPaths table :=
        fun hmem => hcheck (hok fullpath (Option.mem_def.mpr hfull) hmem)
      exact h.mount (dfsNormalizePath_ne_nil hfull) hnew ops devId
  | unmount call =>
    obtain ⟨r, hr, hcase⟩ := dfsUnmount_cases h.sound call
    refine ⟨r.1, by rw [mountStep, hr]; rfl, ?_⟩
    rcases hcase with heq | ⟨fs, heq⟩
    · rw [heq]
      exact h
    · rw [heq]
      exact h.clear fs

theorem TableInv.consistent (h : TableInv table) : Consistent table := by
  have hbest : ∀ {path}, Absolute path → ∃ n, Best path table (dfsFilesystemLookup table path) n :=
    fun hpath => dfsFilesystemLookup_best hpath h.sound.path_ne_nil
  have hne : ∀ {i q}, MountedAt table i q → q ≠ [] := by
    rintro i q ⟨ops, devId, hi⟩ rfl
    exact h.sound.path_ne_nil _ (List.mem_of_getElem? hi) rfl
  constructor
  · exact h.distinct
  · intro path i hpath
    obtain ⟨n, hb⟩ := hbest hpath
    constructor
    · intro hi
      obtain ⟨q, hm, hq, hn⟩ := hb.at_entry i hi
      refine ⟨q, hm, hq, fun j q' hm' hq' => ?_⟩
      rw [hn]
      exact (hb.longest j q' hm' hq').2
    · rintro ⟨q, hm, hq, hmax⟩
      obtain ⟨k, hk⟩ := Option.isSome_iff_exists.mp (hb.longest i q hm hq).1
      obtain ⟨q', hm', hq', hn⟩ := hb.at_entry k hk
      have hle := hmax k q' hm' hq'
      have hge := (hb.longest i q hm hq).2
      have heq : q' = q := hq'.eq_of_length hpath (hne hm') (hne hm) hq (by omega)
      rw [heq] at hm'
      rw [hk, h.distinct k i q hm' hm]
  · intro path hpath hnone i q hm hq
    obtain ⟨n, hb⟩ := hbest hpath
    have hsome := (hb.longest i q hm hq).1
    rw [hnone] at hsome
    cases hsome

theorem TableInv.failed_keeps (h : TableInv table) (op : MountOp) :
    FailedMountKeeps types table op := by
  cases op with
  | unmount call => trivial
  | mount call =>
    intro r hr hret
    cases dfsMount_cases h.sound hr with
    | failed errno => rfl
    | mounted => exact absurd rfl hret

/-- As long as no mount hides a mounted path behind another form of it, the table stays
consistent, a failed mount changes nothing, and no call reads a null pointer. -/
theorem mount_table_consistent (types : List (Option FilesystemOps)) (n : Nat)
    (ops : List MountOp)
    (hok : Runs.Along (mountStep types) CheckedPath (dfsInit n) ops) :
    (∃ table, Runs.run (mountStep types) (dfsInit n) ops = some table) ∧
      Runs.Always (mountStep types) Consistent (dfsInit n) ops ∧
      Runs.Along (mountStep types) (FailedMountKeeps types) (dfsInit n) ops := by
  have hinv : ∀ table op table', TableInv table → CheckedPath table op →
      mountStep types table op = some table' → TableInv table' := by
    intro table op table' h hok hstep
    obtain ⟨t, ht, hi⟩ := h.step types hok
    rw [ht] at hstep
    exact Option.some.inj hstep ▸ hi
  have htotal := Runs.run_total_along (fun table op h hok => h.step types hok)
    (dfsInit_inv n) hok
  obtain ⟨table, hrun, -⟩ := htotal
  exact ⟨⟨table, hrun⟩,
    hok.always hinv (fun _ h => h.consistent) (dfsInit_inv n),
    hok.of_invariant hinv (fun _ op h _ => h.failed_keeps op) (dfsInit_inv n)⟩

def ramfsOps : FilesystemOps := ⟨"ram", true, true⟩

/-- A mount in which everything works. -/
def mountOf (path : Path) : MountCall := ⟨none, path, "ram", ['/'], true, true, true, true⟩

theorem mount_table_consistent_two :
    Runs.Along (mountStep [some ramfsOps]) CheckedPath (dfsInit 2)
      [.mount (mountOf ['/']), .mount (mountOf ['/', 'a', '/'])] ∧
    (∃ table, Runs.run (mountStep [some ramfsOps]) (dfsInit 2)
      [.mount (mountOf ['/']), .mount (mountOf ['/', 'a', '/'])] = some table) ∧
    Runs.Always (mountStep [some ramfsOps]) Consistent (dfsInit 2)
      [.mount (mountOf ['/']), .mount (mountOf ['/', 'a', '/'])] := by
  have hok : Runs.Along (mountStep [some ramfsOps]) CheckedPath (dfsInit 2)
      [.mount (mountOf ['/']), .mount (mountOf ['/', 'a', '/'])] := by decide +kernel
  have h := mount_table_consistent [some ramfsOps] 2 _ hok
  exact ⟨hok, h.1, h.2.1⟩

/-- The check compares the path as given with the stored one, so `/a/` is mounted again. -/
theorem path_mounted_twice : ∃ table,
    Runs.run (mountStep [some ramfsOps]) (dfsInit 4) [.mount (mountOf ['/']),
      .mount (mountOf ['/', 'a', '/']), .mount (mountOf ['/', 'a', '/'])] = some table ∧
    MountedAt table 1 ['/', 'a'] ∧ MountedAt table 2 ['/', 'a'] ∧ ¬ Consistent table := by
  have hrun : Runs.run (mountStep [some ramfsOps]) (dfsInit 4) [.mount (mountOf ['/']),
      .mount (mountOf ['/', 'a', '/']), .mount (mountOf ['/', 'a', '/'])] =
      some [⟨some ['/'], some ramfsOps, none⟩, ⟨some ['/', 'a'], some ramfsOps, none⟩,
        ⟨some ['/', 'a'], some ramfsOps, none⟩, .cleared] := by
    decide +kernel
  have h1 : MountedAt [⟨some ['/'], some ramfsOps, none⟩, ⟨some ['/', 'a'], some ramfsOps, none⟩,
      ⟨some ['/', 'a'], some ramfsOps, none⟩, .cleared] 1 ['/', 'a'] := ⟨_, _, rfl⟩
  have h2 : MountedAt [⟨some ['/'], some ramfsOps, none⟩, ⟨some ['/', 'a'], some ramfsOps, none⟩,
      ⟨some ['/', 'a'], some ramfsOps, none⟩, .cleared] 2 ['/', 'a'] := ⟨_, _, rfl⟩
  exact ⟨_, hrun, h1, h2, fun hc => absurd (hc.distinct 1 2 _ h1 h2) (by decide)⟩

end RtThread.Dfs
