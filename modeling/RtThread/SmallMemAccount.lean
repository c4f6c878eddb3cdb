import RtThread.SmallMemRuns
import Mathlib.Algebra.BigOperators.Group.Finset.Basic
import Mathlib.Algebra.Order.BigOperators.Group.List
import Mathlib.Algebra.Order.Group.Nat

/-!
# Accounting of the small-memory heap

`parent.used` against the blocks in use, and `parent.max` against every value that
`parent.used` has had. A `rt_smem_realloc` that moves its block allocates before it frees,
so `parent.used` has a value of its own between the two. A call that does not return, or
fails an assertion, ends the run.
-/
namespace RtThread.SmallMem

/-- The extents of the blocks in use, headers included. -/
def usedSum (s : State) (l : List Nat) : Nat :=
  ((l.filter (usedAt s)).map fun x => (s.item x).next - x).sum

/-! ## The sum and the blocks in use -/

variable {s s' s₀ : State} {l l' : List Nat} {n x y ptr size : Nat} {a : Arch} {r : Option Nat}
  {op : Op}

theorem mem_used : x ∈ (l.filter (usedAt s)).toFinset ↔ ∃ n, Owns s l x n := by
  rw [List.mem_toFinset, List.mem_filter]
  constructor
  · rintro ⟨hx, hu⟩
    exact ⟨_, hx, hu, rfl⟩
  · rintro ⟨n, hx, hu, -⟩
    exact ⟨hx, hu⟩

theorem usedSum_eq (hnd : l.Nodup) :
    usedSum s l = ∑ x ∈ (l.filter (usedAt s)).toFinset, ((s.item x).next - x) :=
  (List.sum_toFinset _ (hnd.filter _)).symm

theorem Heap.nodup (h : Heap a s l) : l.Nodup :=
  h.shape.path.nodup (Nat.succ_pos _)

/-- One more block is in use. -/
theorem usedSum_insert (hnd : l.Nodup) (hnd' : l'.Nodup) (hnot : ∀ m, ¬ Owns s l x m)
    (howns : ∀ z m, Owns s' l' z m ↔ Owns s l z m ∨ z = x ∧ m = n) :
    usedSum s' l' = usedSum s l + (n - x) := by
  have hset : (l'.filter (usedAt s')).toFinset = insert x (l.filter (usedAt s)).toFinset := by
    ext z
    rw [Finset.mem_insert, mem_used, mem_used]
    constructor
    · rintro ⟨m, hm⟩
      rcases (howns z m).mp hm with hold | ⟨rfl, -⟩
      · exact .inr ⟨m, hold⟩
      · exact .inl rfl
    · rintro (rfl | ⟨m, hm⟩)
      · exact ⟨n, (howns z n).mpr (.inr ⟨rfl, rfl⟩)⟩
      · exact ⟨m, (howns z m).mpr (.inl hm)⟩
  have hx : x ∉ (l.filter (usedAt s)).toFinset := by
    rw [mem_used]
    rintro ⟨m, hm⟩
    exact hnot m hm
  have hnext : (s'.item x).next = n := ((howns x n).mpr (.inr ⟨rfl, rfl⟩)).2.2
  have hsame : ∑ z ∈ (l.filter (usedAt s)).toFinset, ((s'.item z).next - z) =
      ∑ z ∈ (l.filter (usedAt s)).toFinset, ((s.item z).next - z) := by
    refine Finset.sum_congr rfl fun z hz => ?_
    obtain ⟨m, hm⟩ := mem_used.mp hz
    have hm' := (howns z m).mpr (.inl hm)
    rw [hm'.2.2, hm.2.2]
  rw [usedSum_eq hnd, usedSum_eq hnd', hset, Finset.sum_insert hx, hnext, hsame, Nat.add_comm]

/-- One block less is in use. -/
theorem usedSum_remove (hnd : l.Nodup) (hnd' : l'.Nodup) (hx : Owns s l x n)
    (howns : ∀ z m, Owns s' l' z m ↔ Owns s l z m ∧ z ≠ x) :
    usedSum s l = usedSum s' l' + (n - x) := by
  refine usedSum_insert hnd' hnd (fun m hm => ((howns x m).mp hm).2 rfl) fun z m => ?_
  rw [howns]
  constructor
  · intro hz
    by_cases hzx : z = x
    · subst hzx
      exact .inr ⟨rfl, hz.2.2.symm.trans hx.2.2⟩
    · exact .inl ⟨hz, hzx⟩
  · rintro (⟨hz, -⟩ | ⟨rfl, rfl⟩)
    · exact hz
    · exact hx

/-- The block at `x` ends earlier. -/
theorem usedSum_shrink (hnd : l.Nodup) (hnd' : l'.Nodup) (hx : Owns s l x n) (hxy : x ≤ y)
    (hyn : y ≤ n) (howns : ∀ z m, Owns s' l' z m ↔ Owns s l z m ∧ z ≠ x ∨ z = x ∧ m = y) :
    usedSum s' l' + (n - y) = usedSum s l := by
  have hset : (l'.filter (usedAt s')).toFinset = (l.filter (usedAt s)).toFinset := by
    ext z
    rw [mem_used, mem_used]
    constructor
    · rintro ⟨m, hm⟩
      rcases (howns z m).mp hm with ⟨hold, -⟩ | ⟨rfl, -⟩
      · exact ⟨m, hold⟩
      · exact ⟨n, hx⟩
    · rintro ⟨m, hm⟩
      by_cases hzx : z = x
      · exact ⟨y, (howns z y).mpr (.inr ⟨hzx, rfl⟩)⟩
      · exact ⟨m, (howns z m).mpr (.inl ⟨hm, hzx⟩)⟩
  have hmem : x ∈ (l.filter (usedAt s)).toFinset := mem_used.mpr ⟨n, hx⟩
  have hnext : (s'.item x).next = y := ((howns x y).mpr (.inr ⟨rfl, rfl⟩)).2.2
  have hsame : ∑ z ∈ (l.filter (usedAt s)).toFinset.erase x, ((s'.item z).next - z) =
      ∑ z ∈ (l.filter (usedAt s)).toFinset.erase x, ((s.item z).next - z) := by
    refine Finset.sum_congr rfl fun z hz => ?_
    obtain ⟨hzx, hzF⟩ := Finset.mem_erase.mp hz
    obtain ⟨m, hm⟩ := mem_used.mp hzF
    have hm' := (howns z m).mpr (.inl ⟨hm, hzx⟩)
    rw [hm'.2.2, hm.2.2]
  rw [usedSum_eq hnd, usedSum_eq hnd', hset, ← Finset.add_sum_erase _ _ hmem,
    ← Finset.add_sum_erase _ _ hmem, hsame, hnext, hx.2.2]
  omega

/-- The blocks in use fit into the region. -/
theorem Heap.usedSum_le (h : Heap a s l) : usedSum s l ≤ s.heapEnd := by
  have hsub := (List.filter_sublist (p := usedAt s) (l := l)).map fun x => (s.item x).next - x
  have hsum : (l.map fun x => (s.item x).next - x).sum = s.heapEnd - 0 := h.shape.path.sum
  have hle := hsub.sum_le_sum fun _ _ => Nat.zero_le _
  rw [hsum] at hle
  exact hle

/-! ## The two counters in the functions of the heap -/

/-- The counters are left alone. -/
structure Uncounted (s s' : State) : Prop where
  used : s'.used = s.used
  max : s'.max = s.max

theorem splitAt_uncounted (a : Arch) (s : State) (x y : Nat) : Uncounted s (splitAt a s x y) := by
  simp only [splitAt]
  split <;> exact ⟨rfl, rfl⟩

theorem plugHoles_uncounted (h : plugHoles s x = some s') : Uncounted s s' := by
  have hf : Uncounted s (plugForward s x) := by
    simp only [plugForward]
    split <;> exact ⟨rfl, rfl⟩
  have hb : ∀ s₁, Uncounted s₁ (plugBackward s₁ x) := by
    intro s₁
    simp only [plugBackward]
    split <;> exact ⟨rfl, rfl⟩
  obtain ⟨-, hs⟩ := Option.ite_none_right_eq_some.mp h
  cases hs
  exact ⟨(hb _).used.trans hf.used, (hb _).max.trans hf.max⟩

theorem markUsed_uncounted (h : markUsed a s x = some s') :
    Uncounted s s' ∧ ∀ z, (s'.item z).next = (s.item z).next := by
  obtain ⟨lfree, -, rfl⟩ := Option.map_eq_some_iff.mp h
  exact ⟨⟨rfl, rfl⟩, setPoolPtr_next s x _⟩

theorem charge_max (a : Arch) (s : State) (n : Nat) :
    (charge a s n).max = Nat.max s.max (charge a s n).used := by
  simp only [charge]
  split
  · rename_i hlt
    exact (Nat.max_eq_right (Nat.le_of_lt hlt)).symm
  · rename_i hge
    exact (Nat.max_eq_left (Nat.le_of_not_lt hge)).symm

/-- The block that `carve` leaves is charged with its extent. -/
theorem carve_counted (hr : Ground a s) (h : Heap a s l) (hx : x ∈ l) (hfree : usedAt s x = false)
    (hfit : x + a.sizeofStructMem + size ≤ (s.item x).next) (hal : a.align ∣ size)
    (hsize : 0 < size) :
    (carve a s x size).used = a.add s.used (((carve a s x size).item x).next - x) ∧
      (carve a s x size).max = Nat.max s.max (carve a s x size).used := by
  have hlt := hr.lt
  have hb := h.shape.bounds hx
  have hminpos := minSizeAligned_pos a
  have halh : a.align ∣ a.sizeofStructMem := dvd_rtAlign _ _ _
  have hextent : a.add size a.sizeofStructMem = x + a.sizeofStructMem + size - x := by
    rw [Arch.add, wadd_eq (by omega)]
    omega
  have hwhole : a.sub (s.item x).next x = (s.item x).next - x := wsub_eq (by omega) (by omega)
  rw [carve_eq hr h.shape hx hfit]
  split
  · rename_i hsplit
    obtain ⟨l', -, hnext, -⟩ := Hole.split (y := x + a.sizeofStructMem + size) hr h hx hfree
      (by omega) (by omega) (Nat.dvd_add (Nat.dvd_add (h.shape.aligned x hx) halh) hal)
    have hsame := splitAt_uncounted a s x (x + a.sizeofStructMem + size)
    refine ⟨?_, (charge_max _ _ _).trans (by rw [hsame.max])⟩
    have hcharged : (charge a (splitAt a s x (x + a.sizeofStructMem + size))
        (a.add size a.sizeofStructMem)).item =
          (splitAt a s x (x + a.sizeofStructMem + size)).item := rfl
    rw [hcharged, hnext, charge]
    simp only [hsame.used, hextent]
  · refine ⟨?_, charge_max _ _ _⟩
    rw [charge]
    simp only [hwhole]

/-- A block that `rt_smem_alloc` takes is charged with its extent. -/
theorem rtSmemAlloc_counted (hr : Ground a s) (h : Heap a s l) {p : Nat}
    (halloc : rtSmemAlloc a s size = some (s', some p)) :
    ∃ x, p = x + a.sizeofStructMem ∧ s'.used = a.add s.used ((s'.item x).next - x) ∧
      s'.max = Nat.max s.max s'.used := by
  obtain ⟨hsearches, x, hx, rfl, ⟨hfree, hfit⟩, hmark⟩ := rtSmemAlloc_takes hr h halloc
  obtain ⟨-, halign, hpos⟩ := searchedSize_bounds hr.min_le hsearches
  obtain ⟨hcount, hnext⟩ := markUsed_uncounted hmark
  obtain ⟨hused, hmax⟩ := carve_counted hr h hx hfree hfit halign hpos
  refine ⟨x, rfl, ?_, ?_⟩
  · rw [hcount.used, hused, hnext]
  · rw [hcount.max, hcount.used, hmax]

/-! ## The calls -/

/-- A heap between two calls whose `parent.used` is the sum over the blocks in use. -/
structure Account (a : Arch) (s : State) (l : List Nat) : Prop where
  ground : Ground a s
  heap : Heap a s l
  used : s.used = usedSum s l

theorem Account.used_lt (h : Account a s l) : s.used < 2 ^ a.bits := by
  have hle := h.heap.usedSum_le
  have hlt := h.ground.lt
  rw [h.used]
  omega

theorem Account.extent_le (h : Account a s l) (hx : Owns s l x n) : n - x ≤ s.used := by
  have hmem : (s.item x).next - x ∈ (l.filter (usedAt s)).map fun x => (s.item x).next - x :=
    List.mem_map_of_mem (List.mem_filter.mpr ⟨hx.1, hx.2.1⟩)
  have hle := List.le_sum_of_mem hmem
  rw [hx.2.2] at hle
  rw [h.used]
  exact hle

/-- What a call does to the counters: `parent.used` is the sum again, and `parent.max` takes
the values `seen` into account. -/
structure Counted (a : Arch) (s s' : State) (l' seen : List Nat) : Prop where
  account : Account a s' l'
  le : s.max ≤ s'.max
  bound : ∀ u ∈ seen, u ≤ s'.max
  attained : s'.max = s.max ∨ s'.max ∈ seen

theorem Counted.refl {seen : List Nat} (h : Account a s l) (hseen : ∀ u ∈ seen, u ≤ s.max) :
    Counted a s s l seen :=
  ⟨h, Nat.le_refl _, hseen, .inl rfl⟩

theorem rtSmemAlloc_account (h : Account a s l) (hpeak : s.used ≤ s.max)
    (halloc : rtSmemAlloc a s size = some (s', r)) :
    ∃ l', Counted a s s' l' [s'.used] ∧ Same s s' ∧ Allocated a s l s' l' r := by
  obtain ⟨t, q, l', hspec, hheap, hsame, hres⟩ := rtSmemAlloc_spec h.ground h.heap size
  rw [halloc] at hspec
  cases hspec
  refine ⟨l', ?_, hsame, hres⟩
  have hground := hsame.ground h.ground
  cases r with
  | none =>
    obtain ⟨rfl, rfl⟩ := hres
    exact .refl h (by simpa using hpeak)
  | some p =>
    obtain ⟨x, n, rfl, hnot, howns⟩ := hres
    obtain ⟨y, hy, hused, hmax⟩ := rtSmemAlloc_counted h.ground h.heap halloc
    obtain rfl : x = y := by omega
    have hnext : (s'.item x).next = n := ((howns x n).mpr (.inr ⟨rfl, rfl⟩)).2.2
    have hsum := usedSum_insert h.heap.nodup hheap.nodup hnot howns
    have hle := hheap.usedSum_le
    have hlt := hground.lt
    have hexact : s'.used = usedSum s' l' := by
      rw [hused, hnext, h.used, hsum]
      exact wadd_eq (by omega)
    refine ⟨⟨hground, hheap, hexact⟩, ?_, ?_, ?_⟩
    · rw [hmax]
      exact Nat.le_max_left _ _
    · intro u hu
      obtain rfl := List.mem_singleton.mp hu
      rw [hmax]
      exact Nat.le_max_right _ _
    · rw [List.mem_singleton]
      rcases Nat.le_total s.max s'.used with hle | hle
      · exact .inr (by rw [hmax]; exact Nat.max_eq_right hle)
      · exact .inl (by rw [hmax]; exact Nat.max_eq_left hle)

theorem rtSmemFree_account (h : Account a s l) (hx : Owns s l x n)
    (hfree : rtSmemFree a s (some (x + a.sizeofStructMem)) = some s') :
    ∃ l', Account a s' l' ∧ Same s s' ∧ (∀ z m, Owns s' l' z m ↔ Owns s l z m ∧ z ≠ x) ∧
      s'.used ≤ s.used ∧ s'.max = s.max := by
  obtain ⟨l', hheap, hsame, howns⟩ := rtSmemFree_frees h.ground h.heap hx hfree
  have hplug := rtSmemFree_plugs h.ground h.heap hx.1 hfree
  have hlt := h.ground.lt
  have hb := h.heap.shape.bounds hx.1
  have hextent := h.extent_le hx
  have hrefund : a.sub (s.item x).next x = n - x := by
    rw [Arch.sub, wsub_eq (by omega) (by omega), hx.2.2]
  have hcount := plugHoles_uncounted hplug
  have hused : s'.used = s.used - (n - x) := by
    rw [hcount.used, markFree]
    simp only
    rw [hrefund]
    exact wsub_eq hextent h.used_lt
  have hsum := usedSum_remove h.heap.nodup hheap.nodup hx howns
  refine ⟨l', ⟨hsame.ground h.ground, hheap, ?_⟩, hsame, howns, by omega, hcount.max⟩
  rw [hused, h.used, hsum, Nat.add_sub_cancel]

theorem shrinkBlock_account (h : Account a s l) (hx : Owns s l x n)
    (hxy : x + a.sizeofStructMem < y) (hyn : y + a.sizeofStructMem < n) (hal : a.align ∣ y)
    (hshrink : shrinkBlock a s x y (n - y) = some s') :
    ∃ l', Account a s' l' ∧ Same s s' ∧
      (∀ z m, Owns s' l' z m ↔ Owns s l z m ∧ z ≠ x ∨ z = x ∧ m = y) ∧
      s'.used ≤ s.used ∧ s'.max = s.max := by
  obtain ⟨t, l', hspec, hheap, hsame, howns⟩ := shrink_spec h.ground h.heap hx hxy hyn hal
    (a.sub s.used (n - y))
  have hplug : plugHoles (cutBlock a s x y (a.sub s.used (n - y))) y = some s' := hshrink
  cases hplug.symm.trans hspec
  have hextent := h.extent_le hx
  have hrefund : a.sub s.used (n - y) = s.used - (n - y) := wsub_eq (by omega) h.used_lt
  have hsplit := splitAt_uncounted a { s with used := a.sub s.used (n - y) } x y
  have hcount := plugHoles_uncounted hplug
  have hused : s'.used = s.used - (n - y) := by
    rw [hcount.used, cutBlock]
    simp only
    rw [hsplit.used, hrefund]
  have hsum := usedSum_shrink h.heap.nodup hheap.nodup hx (by omega) (by omega) howns
  refine ⟨l', ⟨hsame.ground h.ground, hheap, ?_⟩, hsame, howns, by omega, ?_⟩
  · rw [hused, h.used, ← hsum, Nat.add_sub_cancel]
  · rw [hcount.max, cutBlock]
    simp only
    exact hsplit.max

/-- The values of `parent.used` inside a call, before the one it ends with. -/
def usedBetween (a : Arch) (s : State) : Op → List Nat
  | .realloc rmem newsize =>
    let new := rtAlign a.bits newsize a.align
    if Moves a s rmem new then ((rtSmemAlloc a s new).map fun r => r.1.used).toList else []
  | .alloc _ | .free _ | .write _ _ => []

/-- Giving bytes back: `parent.used` does not grow. -/
theorem Counted.refund (h : Account a s' l') (hused : s'.used ≤ s.used) (hmax : s'.max = s.max)
    (hpeak : s.used ≤ s.max) : Counted a s s' l' [s'.used] := by
  refine ⟨h, Nat.le_of_eq hmax.symm, fun u hu => ?_, .inl hmax⟩
  obtain rfl := List.mem_singleton.mp hu
  omega

theorem rtSmemRealloc_account {rmem : Option Nat} {newsize : Nat} (h : Account a s l)
    (hpeak : s.used ≤ s.max) (hrmem : ∀ p, rmem = some p → InUse a s l p)
    (hre : rtSmemRealloc a s rmem newsize = some (s', r)) :
    ∃ l', Counted a s s' l' (usedBetween a s (.realloc rmem newsize) ++ [s'.used]) ∧ Same s s' ∧
      Reallocated a s l s' l' rmem (rtAlign a.bits newsize a.align) r := by
  have hcase := rtSmemRealloc_cases h.ground h.heap rmem hrmem newsize
  have hstill : Counted a s s l [s.used] := .refl h (by simpa using hpeak)
  rw [hre] at hcase
  simp only [usedBetween]
  generalize hnewsize : rtAlign a.bits newsize a.align = new at *
  generalize hresult : some (s', r) = result at hcase
  cases hcase with
  | tooLarge hlarge hstay =>
    obtain ⟨rfl, rfl⟩ := pair_inj hresult
    rw [if_neg hstay, List.nil_append]
    exact ⟨l, hstill, .refl s', .unchanged (by omega)⟩
  | free hnew hstay =>
    rw [if_neg hstay, List.nil_append]
    obtain ⟨t, hfree, heq⟩ := Option.map_eq_some_iff.mp hresult.symm
    cases heq
    cases rmem with
    | none =>
      cases hfree
      exact ⟨l, hstill, .refl s, .freedNull hnew⟩
    | some p =>
      obtain ⟨x, n, rfl, hx⟩ := hrmem p rfl
      obtain ⟨l', hacc, hsame, howns, hused, hmax⟩ := rtSmemFree_account h hx hfree
      exact ⟨l', .refund hacc hused hmax hpeak, hsame, .freed hnew howns⟩
  | alloc hnew hnull hstay =>
    rw [if_neg hstay, List.nil_append]
    obtain ⟨l', hcount, hsame, hres⟩ := rtSmemAlloc_account h hpeak hresult.symm
    rw [hnull]
    exact ⟨l', hcount, hsame, .allocated hnew hres⟩
  | keep hnew hptr hx _ hstay =>
    obtain ⟨rfl, rfl⟩ := pair_inj hresult
    rw [if_neg hstay, List.nil_append, hptr]
    exact ⟨l, hstill, .refl s', .kept hx.self_iff⟩
  | @shrink x n hnew hptr hx hroom halign hstay =>
    rw [if_neg hstay, List.nil_append]
    obtain ⟨t, hshrink, heq⟩ := Option.map_eq_some_iff.mp hresult.symm
    cases heq
    obtain ⟨l', hacc, hsame, howns, hused, hmax⟩ :=
      shrinkBlock_account h hx (by omega) (by omega) halign hshrink
    rw [hptr]
    exact ⟨l', .refund hacc hused hmax hpeak, hsame, .kept howns⟩
  | @move x n hnew hptr hx hmoves =>
    rw [if_pos hmoves, hptr]
    obtain ⟨⟨s₁, q⟩, halloc, hrest⟩ := Option.bind_eq_some_iff.mp hresult.symm
    obtain ⟨l₁, hcount, hsame, hres⟩ := rtSmemAlloc_account h hpeak halloc
    rw [halloc, Option.map_some, Option.toList_some]
    cases q with
    | none =>
      cases hrest
      obtain ⟨rfl, rfl⟩ := hres
      refine ⟨l₁, ?_, hsame, .unchanged hnew⟩
      exact .refl h (by simpa using hpeak)
    | some nmem =>
      obtain ⟨t, hfree, heq⟩ := Option.map_eq_some_iff.mp hrest
      obtain ⟨rfl, rfl⟩ := Prod.mk.inj heq
      generalize min (n - x - a.sizeofStructMem) new = count at hfree
      obtain ⟨hheap₂, hsame₂, hx₂, hiff⟩ := hres.copied hx hcount.account.heap hsame count
      have hacc₂ : Account a (rtMemcpy s₁ nmem (x + a.sizeofStructMem) count) l₁ :=
        ⟨hsame₂.ground h.ground, hheap₂, hcount.account.used⟩
      obtain ⟨l', hacc, hsame', howns, hused, hmax⟩ := rtSmemFree_account hacc₂ hx₂ hfree
      have hmax₁ : t.max = s₁.max := hmax
      have hused₁ : t.used ≤ s₁.used := hused
      have hbound : s₁.used ≤ s₁.max := hcount.bound _ List.mem_cons_self
      refine ⟨l', ⟨hacc, ?_, ?_, ?_⟩, hsame₂.trans hsame', .moved hx hres fun z m => ?_⟩
      · rw [hmax₁]
        exact hcount.le
      · intro u hu
        rw [hmax₁]
        rcases List.mem_append.mp hu with hmiddle | hlast
        · exact hcount.bound u hmiddle
        · obtain rfl := List.mem_singleton.mp hlast
          omega
      · rw [hmax₁]
        rcases hcount.attained with hold | hnew
        · exact .inl hold
        · exact .inr (List.mem_append_left _ hnew)
      · rw [howns, hiff]

/-! ## Runs -/

/-- A heap with the values `parent.used` has had, the present one included. -/
structure Metered where
  state : State
  seen : List Nat

def meteredStep (a : Arch) (x : Metered) (op : Op) : Option Metered :=
  (step a x.state op).map fun s => ⟨s, x.seen ++ (usedBetween a x.state op ++ [s.used])⟩

/-- The invariant of the runs on a region with room for a block. -/
structure MeteredInv (a : Arch) (x : Metered) : Prop where
  heap : ∃ l, Account a x.state l ∧ ∀ p, p ∈ x.state.live ↔ InUse a x.state l p
  used : x.state.used ∈ x.seen
  bound : ∀ u ∈ x.seen, u ≤ x.state.max
  attained : x.state.max ∈ x.seen

theorem MeteredInv.peak {x : Metered} (h : MeteredInv a x) :
    x.state.used ≤ x.state.max := h.bound _ h.used

/-- A call that keeps the accounts, with the pointers now in use as `live`. -/
theorem MeteredInv.next {x : Metered} {live : List Nat} (h : MeteredInv a x) (between : List Nat)
    (hcount : Counted a x.state s' l' (between ++ [s'.used]))
    (hlive : ∀ p, p ∈ live ↔ InUse a s' l' p) :
    MeteredInv a ⟨{ s' with live := live }, x.seen ++ (between ++ [s'.used])⟩ := by
  have hground : Ground a { s' with live := live } :=
    ⟨hcount.account.ground.heapEnd_eq, hcount.account.ground.lt,
      hcount.account.ground.heapPtr_aligned, hcount.account.ground.heapEnd_aligned,
      hcount.account.ground.pool_even, hcount.account.ground.pool_ne,
      hcount.account.ground.min_le⟩
  refine ⟨⟨l', ⟨hground, hcount.account.heap.congr rfl rfl rfl rfl, hcount.account.used⟩, hlive⟩,
    ?_, ?_, ?_⟩
  · simp
  · intro u hu
    rcases List.mem_append.mp hu with hold | hnew
    · exact Nat.le_trans (h.bound u hold) hcount.le
    · exact hcount.bound u hnew
  · simp only
    rcases hcount.attained with hold | hnew
    · rw [hold]
      exact List.mem_append_left _ h.attained
    · exact List.mem_append_right _ hnew

variable {x' : Metered}

theorem meteredStep_inv {x : Metered} (h : MeteredInv a x) (hop : Allowed a x.state op)
    (hstep : meteredStep a x op = some x') : MeteredInv a x' := by
  obtain ⟨s', hs', rfl⟩ := Option.map_eq_some_iff.mp hstep
  obtain ⟨l, hacc, hlive⟩ := h.heap
  have hstill : Counted a x.state x.state l ([] ++ [x.state.used]) :=
    .refl hacc (by simpa using h.peak)
  cases op with
  | alloc size =>
    obtain ⟨⟨t, r⟩, halloc, rfl⟩ := Option.map_eq_some_iff.mp hs'
    obtain ⟨l', hcount, hsame, hres⟩ := rtSmemAlloc_account hacc h.peak halloc
    exact h.next [] hcount (live_alloc hlive hsame hres)
  | realloc rmem newsize =>
    obtain ⟨⟨t, r⟩, hre, rfl⟩ := Option.map_eq_some_iff.mp hs'
    obtain ⟨l', hcount, hsame, hres⟩ := rtSmemRealloc_account hacc h.peak
      (fun p hp => (hlive p).mp (hop p hp)) hre
    have hmem := live_realloc hlive hsame hres
    have hnext := h.next _ hcount hmem
    simp only
    split
    · rename_i hdone
      rw [if_pos hdone] at hnext
      exact hnext
    · rename_i hdone
      rw [if_neg hdone] at hnext
      exact hnext
  | free rmem =>
    obtain ⟨t, hfree, rfl⟩ := Option.map_eq_some_iff.mp hs'
    cases rmem with
    | none =>
      cases hfree
      refine h.next [] hstill fun q => ?_
      rw [mem_dropLive, hlive]
      simp
    | some p =>
      obtain ⟨y, n, rfl, hy⟩ := (hlive p).mp (hop p rfl)
      obtain ⟨l', hacc', hsame, howns, hused, hmax⟩ := rtSmemFree_account hacc hy hfree
      exact h.next [] (.refund hacc' hused hmax h.peak) (live_free hlive hsame howns)
  | write off byte =>
    cases hs'
    have hacc' : Account a { x.state with data := Function.update x.state.data off byte } l :=
      ⟨Same.ground (s := x.state) ⟨rfl, rfl, rfl, rfl, rfl⟩ hacc.ground,
        hacc.heap.congr rfl rfl rfl rfl, hacc.used⟩
    exact h.next [] (.refund hacc' (Nat.le_refl _) rfl h.peak) hlive

/-! ## A region without room for a block -/

theorem Fresh.next (h : Fresh a s) (hptr : ptr = 0 ∨ ptr = s.heapEnd) :
    (s.item ptr).next = s.heapEnd := by
  rcases hptr with rfl | rfl
  · rw [h.first]
  · rw [h.last]

/-- A size above that of the region fits nowhere in the heap that `rt_smem_init` left. -/
theorem Fresh.miss (h : Fresh a s) (hsize : s.memSizeAligned < size)
    (hptr : ptr = 0 ∨ ptr = s.heapEnd) :
    ¬ (memIsUsed (s.item ptr) = false ∧
      size ≤ a.sub (s.item ptr).next (a.add ptr a.sizeofStructMem)) := by
  have hlt := h.lt
  have heq := h.heapEnd_eq
  rintro ⟨hfree, hfit⟩
  rw [h.next hptr] at hfit
  rcases hptr with rfl | rfl
  · rw [Arch.add, wadd_eq (by omega), Arch.sub, wsub_eq (by omega) (by omega)] at hfit
    omega
  · rw [h.last, memIsUsed_memUsed] at hfree
    cases hfree

/-- `rt_smem_alloc` finds nothing in the heap that `rt_smem_init` left. -/
theorem search_tiny (h : Fresh a s) (hsize : s.memSizeAligned < size) (n : Nat)
    (hptr : ptr = 0 ∨ ptr = s.heapEnd) (x : Nat) : search a s size n ptr ≠ some (some x) := by
  induction n generalizing ptr with
  | zero => simp [search]
  | succ n ih =>
    have hmiss := h.miss hsize hptr
    simp only [search]
    split
    · exact ih (.inr (h.next hptr))
    · simp

theorem rtSmemAlloc_tiny (h : Fresh a s) (htiny : s.memSizeAligned < a.minSizeAligned)
    (halloc : rtSmemAlloc a s size = some (s', r)) : s' = s ∧ r = none := by
  unfold rtSmemAlloc at halloc
  split at halloc
  · cases halloc
    exact ⟨rfl, rfl⟩
  · dsimp only at halloc
    split at halloc
    · cases halloc
      exact ⟨rfl, rfl⟩
    · obtain ⟨q, hsearch, hrest⟩ := Option.bind_eq_some_iff.mp halloc
      cases q with
      | none =>
        cases hrest
        exact ⟨rfl, rfl⟩
      | some x =>
        refine absurd hsearch (search_tiny h ?_ _ (.inl h.lfree) x)
        split <;> omega

/-- The heap stays as `rt_smem_init` left it. -/
theorem step_tiny (h : Fresh a s) (htiny : s.memSizeAligned < a.minSizeAligned)
    (hop : Allowed a s op) (hstep : step a s op = some s') : s' = s := by
  have hadd : addLive s none = s := rfl
  have hdrop : dropLive s none = s := by
    rw [dropLive, h.live]
    exact (congrArg (fun live => { s with live := live }) h.live).symm
  have hnull : ∀ rmem, Valid s rmem → rmem = none := by
    intro rmem hvalid
    cases rmem with
    | none => rfl
    | some p =>
      have hp := hvalid p rfl
      rw [h.live] at hp
      cases hp
  cases op with
  | alloc size =>
    obtain ⟨⟨t, r⟩, halloc, rfl⟩ := Option.map_eq_some_iff.mp hstep
    obtain ⟨rfl, rfl⟩ := rtSmemAlloc_tiny h htiny halloc
    exact hadd
  | realloc rmem newsize =>
    obtain rfl := hnull rmem hop
    obtain ⟨⟨t, r⟩, hre, rfl⟩ := Option.map_eq_some_iff.mp hstep
    have hkept : t = s ∧ r = none := by
      simp only [rtSmemRealloc, rtSmemFree, Option.map_some] at hre
      split at hre
      · cases hre
        exact ⟨rfl, rfl⟩
      · split at hre
        · cases hre
          exact ⟨rfl, rfl⟩
        · exact rtSmemAlloc_tiny h htiny hre
    obtain ⟨rfl, rfl⟩ := hkept
    simp only [hdrop, hadd, ite_self]
  | free rmem =>
    obtain rfl := hnull rmem hop
    cases hstep
    exact hdrop
  | write off byte =>
    obtain ⟨p, hp, -⟩ := hop
    rw [h.live] at hp
    cases hp

/-! ## The accounts of a run -/

/-- What the two counters say about the heap, after the values `seen` of `parent.used`. -/
structure Accounts (a : Arch) (s₀ : State) (x : Metered) : Prop where
  sum : ∃ l, Blocks.Path a.sizeofStructMem (fun y => (x.state.item y).next) 0 x.state.heapEnd l ∧
    x.state.used = usedSum x.state l
  no_underflow : ∀ p ∈ x.state.live,
    dataEnd a x.state p - (p - a.sizeofStructMem) ≤ x.state.used
  all_freed : x.state.live = [] → x.state.used = s₀.used
  max_attained : x.state.max ∈ x.seen
  max_bound : ∀ u ∈ x.seen, u ≤ x.state.max

theorem MeteredInv.accounts {x : Metered} (h : MeteredInv a x) (h₀ : s₀.used = 0) :
    Accounts a s₀ x := by
  obtain ⟨l, hacc, hlive⟩ := h.heap
  refine ⟨⟨l, hacc.heap.shape.path.weaken (Nat.le_succ _), hacc.used⟩, ?_, ?_, h.attained, h.bound⟩
  · intro p hp
    obtain ⟨y, n, rfl, hy⟩ := (hlive p).mp hp
    have hextent := hacc.extent_le hy
    rw [dataEnd, Nat.add_sub_cancel, hy.2.2]
    exact hextent
  · intro hnone
    rw [h₀, hacc.used, usedSum, List.sum_eq_zero]
    intro k hk
    obtain ⟨y, hy, rfl⟩ := List.mem_map.mp hk
    obtain ⟨hmem, hu⟩ := List.mem_filter.mp hy
    have hin := (hlive _).mpr ⟨y, _, rfl, hmem, hu, rfl⟩
    rw [hnone] at hin
    cases hin

theorem Fresh.metered (h : Fresh a s) (hmin : a.minSizeAligned ≤ s.memSizeAligned) :
    MeteredInv a ⟨s, [s.used]⟩ := by
  have hsum : usedSum s [0] = 0 := by simp [usedSum, h.free]
  refine ⟨⟨[0], ⟨h.ground hmin, h.heap hmin, by rw [h.used, hsum]⟩, fun p => ?_⟩, ?_, ?_, ?_⟩
  · rw [h.live]
    simp only [List.not_mem_nil, false_iff]
    exact h.not_inUse p
  · exact List.mem_cons_self
  · intro u hu
    obtain rfl := List.mem_singleton.mp hu
    rw [h.used]
    exact Nat.zero_le _
  · rw [h.used, h.max]
    exact List.mem_cons_self

/-- On a region without room for a block, every call that returns leaves the heap alone. -/
structure TinyInv (a : Arch) (x : Metered) : Prop where
  fresh : Fresh a x.state
  tiny : x.state.memSizeAligned < a.minSizeAligned
  seen : ∀ u ∈ x.seen, u = 0
  used : x.state.used ∈ x.seen

theorem TinyInv.step {x : Metered} (h : TinyInv a x) (hop : Allowed a x.state op)
    (hstep : meteredStep a x op = some x') : TinyInv a x' := by
  obtain ⟨s', hs', rfl⟩ := Option.map_eq_some_iff.mp hstep
  obtain rfl := step_tiny h.fresh h.tiny hop hs'
  refine ⟨h.fresh, h.tiny, ?_, by simp⟩
  intro u hu
  rcases List.mem_append.mp hu with hold | hnew
  · exact h.seen u hold
  · rcases List.mem_append.mp hnew with hbetween | hlast
    · cases op with
      | realloc rmem newsize =>
        simp only [usedBetween] at hbetween
        split at hbetween
        · rw [Option.mem_toList] at hbetween
          obtain ⟨⟨t, r⟩, halloc, rfl⟩ := Option.map_eq_some_iff.mp hbetween
          obtain ⟨rfl, -⟩ := rtSmemAlloc_tiny h.fresh h.tiny halloc
          exact h.fresh.used
        · cases hbetween
      | alloc | free | write => exact absurd hbetween (by simp [usedBetween])
    · rw [List.mem_singleton.mp hlast, h.fresh.used]

theorem TinyInv.accounts {x : Metered} (h : TinyInv a x) (h₀ : s₀.used = 0) : Accounts a s₀ x := by
  have heq := h.fresh.heapEnd_eq
  have hsum : usedSum x.state [0] = 0 := by simp [usedSum, h.fresh.free]
  have hzero := h.fresh.used
  have hmem := h.used
  rw [hzero] at hmem
  refine ⟨⟨[0], ⟨rfl, ?_, ?_⟩, by rw [hzero, hsum]⟩, ?_, fun _ => by rw [hzero, h₀], ?_, ?_⟩
  · simp only [h.fresh.first]
    omega
  · simp only [h.fresh.first, Blocks.Path]
  · intro p hp
    rw [h.fresh.live] at hp
    cases hp
  · rw [h.fresh.max]
    exact hmem
  · intro u hu
    rw [h.seen u hu]
    exact Nat.zero_le _

/-- Over every run of calls on live pointers, from `rt_smem_init` on, `parent.used` is the sum
of the extents of the blocks in use, no block's extent exceeds it, it is back at its first value
when every block has been freed, and `parent.max` is the largest value it has had. -/
theorem small_mem_accounting (a : Arch) (beginAddr size : Nat) (item : Nat → Item)
    (data : Nat → BitVec 8) (s₀ : State) (hinit : rtSmemInit a beginAddr size item data = some s₀)
    (ops : List Op) (hops : Runs.Along (step a) (Allowed a) s₀ ops) (x : Metered)
    (hrun : Runs.run (meteredStep a) ⟨s₀, [s₀.used]⟩ ops = some x) : Accounts a s₀ x := by
  have hfresh := init_fresh hinit
  have hallowed : ∀ (y : Metered) (es : List Op), Runs.Along (step a) (Allowed a) y.state es →
      Runs.Along (meteredStep a) (fun z op => Allowed a z.state op) y es := by
    intro y es hes
    induction es generalizing y with
    | nil => trivial
    | cons op es ih =>
      refine ⟨hes.1, fun y' hy' => ?_⟩
      obtain ⟨s', hs', rfl⟩ := Option.map_eq_some_iff.mp hy'
      exact ih _ (hes.2 s' hs')
  have halong := hallowed ⟨s₀, [s₀.used]⟩ ops hops
  rcases Nat.lt_or_ge s₀.memSizeAligned a.minSizeAligned with htiny | hmin
  · have hstart : TinyInv a ⟨s₀, [s₀.used]⟩ :=
      ⟨hfresh, htiny, fun u hu => by rw [List.mem_singleton.mp hu, hfresh.used],
        List.mem_cons_self⟩
    have hinv := Runs.run_invariant_along (fun _ _ _ h hop hs => h.step hop hs) hstart halong hrun
    exact hinv.accounts hfresh.used
  · have hinv := Runs.run_invariant_along (fun _ _ _ h hop hs => meteredStep_inv h hop hs)
      (hfresh.metered hmin) halong hrun
    exact hinv.accounts hfresh.used

theorem small_mem_accounting_ram :
    ∃ s₀ x, ramHeap = some s₀ ∧
      Runs.run (meteredStep arch32) ⟨s₀, [s₀.used]⟩ ramOps = some x ∧ Accounts arch32 s₀ x := by
  have hcheck : (ramHeap.map fun s => decide (Runs.Along (step arch32) (Allowed arch32) s ramOps ∧
      (Runs.run (meteredStep arch32) ⟨s, [s.used]⟩ ramOps).isSome)) = some true := by
    decide +kernel
  obtain ⟨s₀, hs₀, hdec⟩ := Option.map_eq_some_iff.mp hcheck
  obtain ⟨hops, hsome⟩ := of_decide_eq_true hdec
  obtain ⟨x, hx⟩ := Option.isSome_iff_exists.mp hsome
  exact ⟨s₀, x, hs₀, hx, small_mem_accounting arch32 0x20000000 512 (fun _ => ⟨0, 0, 0⟩)
    (fun _ => 0) s₀ hs₀ ramOps hops x hx⟩

end RtThread.SmallMem
