import RtThread.SmallMemFit

/-!
# The smallest blocks of the small-memory heap

`rt_smem_alloc` leaves at least `MIN_SIZE_ALIGNED` bytes in both parts of a block
it cuts. `rt_smem_realloc` cuts a block at the requested size, whatever that is.
-/
namespace RtThread.SmallMem

/-- Every block below `heap_end` has at least `MIN_SIZE_ALIGNED` bytes of data. -/
def MinSized (a : Arch) (s : State) : Prop :=
  ∃ l, Blocks.Path (a.sizeofStructMem + a.minSizeAligned) (fun x => (s.item x).next) 0 s.heapEnd l

variable {a : Arch} {s s' : State} {l : List Nat}

theorem MinSized.path (hm : MinSized a s) (h : Shape a s l) :
    Blocks.Path (a.sizeofStructMem + a.minSizeAligned) (fun x => (s.item x).next) 0 s.heapEnd l := by
  have hpos := sizeofStructMem_pos a
  obtain ⟨l', hpath⟩ := hm
  obtain rfl : l' = l := hpath.unique h.path (by omega) (Nat.succ_pos _)
  exact hpath

theorem MinSized.congr (hm : MinSized a s) (hi : ∀ x, (s'.item x).next = (s.item x).next)
    (he : s'.heapEnd = s.heapEnd) : MinSized a s' := by
  obtain ⟨l, hpath⟩ := hm
  refine ⟨l, ?_⟩
  rw [he]
  exact hpath.congr fun x _ => hi x

/-! ## What keeps the smallest size -/

theorem MinSized.split (hr : Ground a s) (h : Shape a s l) (hm : MinSized a s) {x y : Nat}
    (hx : x ∈ l) (hxy : x + a.sizeofStructMem + a.minSizeAligned ≤ y)
    (hyn : y + a.sizeofStructMem + a.minSizeAligned ≤ (s.item x).next) (hal : a.align ∣ y) :
    MinSized a (splitAt a s x y) := by
  have hminpos := minSizeAligned_pos a
  obtain ⟨-, -, -, hnext, -⟩ := h.split hr hx (by omega) (by omega) hal
  have hout : ∀ z ∈ l, z ≠ y := by
    rintro z hz rfl
    exact h.not_mem_inside hx (by omega) (by omega) hz
  obtain ⟨l', hpath, -⟩ := (hm.path h).split (y := y)
    (g := fun z => ((splitAt a s x y).item z).next) hx (by omega) (by omega) (by simp [hnext])
    (by rw [hnext, if_neg (by omega), if_pos rfl])
    (fun z hz hzx => by rw [hnext, if_neg hzx, if_neg (hout z hz)]) (by omega)
  refine ⟨l', ?_⟩
  rw [(splitAt_same a s x y).heapEnd]
  exact hpath

theorem MinSized.join (h : Shape a s l) (hm : MinSized a s) {x y : Nat} (hx : x ∈ l)
    (hxy : (s.item x).next = y) (hend : y ≠ s.heapEnd) : MinSized a (joinNext s x y) := by
  have hpos := sizeofStructMem_pos a
  obtain ⟨-, -, -, hnext, -⟩ := h.join hx hxy hend
  obtain ⟨l', hpath, -⟩ := (hm.path h).merge
    (g := fun z => ((joinNext s x y).item z).next) hx hxy hend (by simp [hnext])
    (fun z _ hz => by rw [hnext, if_neg hz]) (by omega)
  exact ⟨l', hpath⟩

theorem MinSized.plugForward {x : Nat} (h : Shape a s l) (hm : MinSized a s) (hx : x ∈ l) :
    MinSized a (plugForward s x) := by
  unfold SmallMem.plugForward
  dsimp only
  split
  · rename_i hcond
    generalize (if s.lfree = (s.item x).next then x else s.lfree) = lfree
    have hshape : Shape a { s with lfree := lfree } l := h.congr rfl rfl rfl
    have hmin : MinSized a { s with lfree := lfree } := hm
    exact hmin.join hshape hx rfl hcond.2.2
  · exact hm

theorem MinSized.plugBackward {x : Nat} (h : Shape a s l) (hm : MinSized a s) (hx : x ∈ l) :
    MinSized a (plugBackward s x) := by
  have hb := h.bounds hx
  unfold SmallMem.plugBackward
  dsimp only
  split
  · rename_i hcond
    obtain ⟨hp, hpx⟩ := (h.prev_cases hx).resolve_left fun hc => hcond.1 hc.1
    generalize (if s.lfree = x then (s.item x).prev else s.lfree) = lfree
    have hshape : Shape a { s with lfree := lfree } l := h.congr rfl rfl rfl
    have hmin : MinSized a { s with lfree := lfree } := hm
    exact hmin.join hshape hp hpx (by simp only; omega)
  · exact hm

theorem MinSized.plugHoles {x : Nat} (h : Hole a s l x) (hm : MinSized a s)
    (hplug : plugHoles s x = some s') : MinSized a s' := by
  obtain ⟨-, hs⟩ := Option.ite_none_right_eq_some.mp hplug
  cases hs
  obtain ⟨l₁, h₁, -⟩ := plugForward_spec h
  exact (hm.plugForward h.shape h.mem).plugBackward h₁.shape h₁.mem

theorem MinSized.carve (hr : Ground a s) (h : Heap a s l) (hm : MinSized a s) {x size : Nat}
    (hx : x ∈ l) (hmin : a.minSizeAligned ≤ size)
    (hfit : x + a.sizeofStructMem + size ≤ (s.item x).next) (hal : a.align ∣ size) :
    MinSized a (carve a s x size) := by
  have halh : a.align ∣ a.sizeofStructMem := dvd_rtAlign _ _ _
  rw [carve_eq hr h.shape hx hfit]
  split
  · exact (hm.split hr h.shape hx (by omega) (by omega)
      (Nat.dvd_add (Nat.dvd_add (h.shape.aligned x hx) halh) hal)).congr (fun _ => rfl) rfl
  · exact hm.congr (fun _ => rfl) rfl

/-- `rt_smem_alloc` cuts no block too small. -/
theorem MinSized.alloc (hr : Ground a s) (h : Heap a s l) (hm : MinSized a s) {size : Nat}
    {r : Option Nat} (halloc : rtSmemAlloc a s size = some (s', r)) : MinSized a s' := by
  cases r with
  | none =>
    obtain ⟨t, q, l', hspec, -, -, hres⟩ := rtSmemAlloc_spec hr h size
    rw [halloc] at hspec
    cases hspec
    obtain ⟨rfl, -⟩ := hres
    exact hm
  | some p =>
    obtain ⟨hsearches, x, hx, -, ⟨hfree, hfit⟩, hmark⟩ := rtSmemAlloc_takes hr h halloc
    obtain ⟨-, halign, -⟩ := searchedSize_bounds hr.min_le hsearches
    have hmin : a.minSizeAligned ≤ searchedSize a size := by
      rw [searchedSize_eq_max]
      exact Nat.le_max_right _ _
    obtain ⟨-, hnext⟩ := markUsed_uncounted hmark
    obtain ⟨lfree, -, rfl⟩ := Option.map_eq_some_iff.mp hmark
    exact (hm.carve hr h hx hmin hfit halign).congr hnext rfl

/-- `rt_smem_free` only joins blocks. -/
theorem MinSized.free (hr : Ground a s) (h : Heap a s l) (hm : MinSized a s) {x : Nat} (hx : x ∈ l)
    (hfree : rtSmemFree a s (some (x + a.sizeofStructMem)) = some s') : MinSized a s' := by
  have hmark : MinSized a (markFree a s x) := hm.congr (markFree_next a s x) rfl
  exact hmark.plugHoles (markFree_hole h hx) (rtSmemFree_plugs hr h hx hfree)

/-- A block in use is cut, and the rest is free. -/
theorem MinSized.shrink (hr : Ground a s) (h : Heap a s l) (hm : MinSized a s) {x n y : Nat}
    (hx : Owns s l x n) (hxy : x + a.sizeofStructMem + a.minSizeAligned ≤ y)
    (hyn : y + a.sizeofStructMem + a.minSizeAligned ≤ n) (hal : a.align ∣ y) {used : Nat}
    (hplug : SmallMem.plugHoles (cutBlock a s x y used) y = some s') : MinSized a s' := by
  have hminpos := minSizeAligned_pos a
  have hr₀ : Ground a { s with used := used } :=
    Same.ground (s := s) ⟨rfl, rfl, rfl, rfl, rfl⟩ hr
  have hsh₀ : Shape a { s with used := used } l := h.shape.congr rfl rfl rfl
  have hm₀ : MinSized a { s with used := used } := hm
  have hn : (({ s with used := used } : State).item x).next = n := hx.2.2
  have hcut : MinSized a (cutBlock a s x y used) :=
    (hm₀.split hr₀ hsh₀ hx.1 hxy (by rw [hn]; exact hyn) hal).congr (fun _ => rfl) rfl
  obtain ⟨l₁, hhole, -⟩ := cutBlock_hole hr h hx (by omega) (by omega) hal used
  exact hcut.plugHoles hhole hplug

/-! ## The calls -/

/-- `rt_smem_realloc` cuts the block of the data pointer `p` at `new` bytes. -/
def Shrinks (a : Arch) (s : State) (p new : Nat) : Prop :=
  new ≤ s.memSizeAligned ∧ new ≠ 0 ∧ oldSize a s p ≠ new ∧
    a.add (a.add new a.sizeofStructMem) a.minSize < oldSize a s p

instance (a : Arch) (s : State) (p new : Nat) : Decidable (Shrinks a s p new) :=
  inferInstanceAs (Decidable (new ≤ s.memSizeAligned ∧ new ≠ 0 ∧ oldSize a s p ≠ new ∧
    a.add (a.add new a.sizeofStructMem) a.minSize < oldSize a s p))

/-- No call of `rt_smem_realloc` cuts a block below the smallest size. -/
def KeepsMinimum (a : Arch) (s : State) : Op → Prop
  | .realloc (some p) newsize =>
    Shrinks a s p (rtAlign a.bits newsize a.align) → a.minSizeAligned ≤ rtAlign a.bits newsize a.align
  | _ => True

instance (a : Arch) (s : State) : ∀ op, Decidable (KeepsMinimum a s op)
  | .alloc _ => inferInstanceAs (Decidable True)
  | .realloc none _ => inferInstanceAs (Decidable True)
  | .realloc (some p) newsize =>
    inferInstanceAs (Decidable (Shrinks a s p (rtAlign a.bits newsize a.align) →
      a.minSizeAligned ≤ rtAlign a.bits newsize a.align))
  | .free _ => inferInstanceAs (Decidable True)
  | .write _ _ => inferInstanceAs (Decidable True)

/-- The test for cutting a block in use. -/
theorem shrinks_iff (hr : Ground a s) (h : Shape a s l) {x n new : Nat} (hx : Owns s l x n) :
    Shrinks a s (x + a.sizeofStructMem) new ↔
      new ≠ 0 ∧ x + a.sizeofStructMem + new + a.sizeofStructMem + a.minSize < n := by
  have hlt := hr.lt
  have hend := hr.heapEnd_eq
  have hb := h.bounds hx.1
  have hn := hx.2.2
  have hminsize := a.minSize_le
  have hitem : a.itemSize ≤ a.sizeofStructMem := le_rtAlign a.align_pos (itemSize_lt a)
  have hold : oldSize a s (x + a.sizeofStructMem) = n - x - a.sizeofStructMem := by
    rw [oldSize, header_of_data hr h hx.1, Arch.sub, Arch.sub,
      wsub_eq (a := (s.item x).next) (by omega) (by omega), wsub_eq (by omega) (by omega), hn]
  constructor
  · rintro ⟨hfits, hnew, -, htest⟩
    rw [Arch.add, Arch.add, wadd_eq (b := a.sizeofStructMem) (by omega), wadd_eq (by omega)] at htest
    exact ⟨hnew, by omega⟩
  · rintro ⟨hnew, hroom⟩
    refine ⟨by omega, hnew, by omega, ?_⟩
    rw [Arch.add, Arch.add, wadd_eq (b := a.sizeofStructMem) (by omega), wadd_eq (by omega)]
    omega

/-- The rest of a block behind a cut is aligned, so it is not smaller than the smallest size. -/
theorem rest_large (hal : a.align ∣ s.heapEnd) (h : Shape a s l) {x n y : Nat} (hx : Owns s l x n)
    (haly : a.align ∣ y) (hroom : y + a.sizeofStructMem + a.minSize < n) :
    y + a.sizeofStructMem + a.minSizeAligned ≤ n := by
  have haln : a.align ∣ n := by
    obtain ⟨hmem, -, rfl⟩ := hx
    obtain hend | hn := h.path.next_mem hmem
    · rw [hend]
      exact hal
    · exact h.aligned _ hn
  have halh : a.align ∣ y + a.sizeofStructMem := Nat.dvd_add haly (dvd_rtAlign _ _ _)
  have hle := @rtAlign_le _ _ a.bits _ a.align_pos (Nat.dvd_sub haln halh)
    (show a.minSize ≤ n - (y + a.sizeofStructMem) by omega)
  rw [Arch.minSizeAligned]
  omega

theorem MinSized.realloc (hr : Ground a s) (h : Heap a s l) (hm : MinSized a s)
    {rmem r : Option Nat} {newsize : Nat} (hrmem : ∀ p, rmem = some p → InUse a s l p)
    (hok : KeepsMinimum a s (.realloc rmem newsize))
    (hre : rtSmemRealloc a s rmem newsize = some (s', r)) : MinSized a s' := by
  have hcase := rtSmemRealloc_cases hr h rmem hrmem newsize
  rw [hre] at hcase
  generalize hresult : some (s', r) = result at hcase
  cases hcase with
  | tooLarge | keep =>
    cases hresult
    exact hm
  | free hnew _ =>
    obtain ⟨t, hfree, heq⟩ := Option.map_eq_some_iff.mp hresult.symm
    cases heq
    cases rmem with
    | none =>
      cases hfree
      exact hm
    | some p =>
      obtain ⟨x, n, rfl, hx⟩ := hrmem p rfl
      exact hm.free hr h hx.1 hfree
  | alloc hnew _ _ => exact hm.alloc hr h hresult.symm
  | @shrink x n hnew hptr hx hroom halign _ =>
    obtain ⟨t, hshrink, heq⟩ := Option.map_eq_some_iff.mp hresult.symm
    obtain ⟨rfl, -⟩ := Prod.mk.inj heq
    rw [hptr] at hok
    have hlarge := hok ((shrinks_iff hr h.shape hx).mpr ⟨hnew, hroom⟩)
    have hplug : SmallMem.plugHoles (cutBlock a s x
        (x + a.sizeofStructMem + rtAlign a.bits newsize a.align) _) _ = some t := hshrink
    exact hm.shrink hr h hx (by omega) (rest_large hr.heapEnd_aligned h.shape hx halign hroom) halign
      hplug
  | @move x n hnew _ hx _ =>
    obtain ⟨⟨s₁, q⟩, halloc, hrest⟩ := Option.bind_eq_some_iff.mp hresult.symm
    have hm₁ := hm.alloc hr h halloc
    obtain ⟨t, q', l₁, hspec, hheap, hsame, hres⟩ :=
      rtSmemAlloc_spec hr h (rtAlign a.bits newsize a.align)
    rw [halloc] at hspec
    cases hspec
    cases q with
    | none =>
      cases hrest
      exact hm₁
    | some nmem =>
      obtain ⟨t, hfree, heq⟩ := Option.map_eq_some_iff.mp hrest
      cases heq
      generalize min (n - x - a.sizeofStructMem) (rtAlign a.bits newsize a.align) = count at hfree
      obtain ⟨hheap₂, hsame₂, hx₂, -⟩ := hres.copied hx hheap hsame count
      have hm₂ : MinSized a (rtMemcpy s₁ nmem (x + a.sizeofStructMem) count) := hm₁
      exact hm₂.free (hsame₂.ground hr) hheap₂ hx₂.1 hfree

/-! ## Runs -/

theorem MinSized.step {op : Op} (h : Roomy a s) (hm : MinSized a s) (hop : Allowed a s op)
    (hok : KeepsMinimum a s op) (hs : SmallMem.step a s op = some s') : MinSized a s' := by
  obtain ⟨l, hr, hheap, hlive⟩ := h.heap
  cases op with
  | alloc size =>
    obtain ⟨⟨t, r⟩, halloc, rfl⟩ := Option.map_eq_some_iff.mp hs
    have hmin := hm.alloc hr hheap halloc
    exact hmin
  | realloc rmem newsize =>
    obtain ⟨⟨t, r⟩, hre, rfl⟩ := Option.map_eq_some_iff.mp hs
    have hmin := hm.realloc hr hheap (fun p hp => (hlive p).mp (hop p hp)) hok hre
    simp only
    split
    · exact hmin
    · exact hmin
  | free rmem =>
    obtain ⟨t, hfree, rfl⟩ := Option.map_eq_some_iff.mp hs
    cases rmem with
    | none =>
      cases hfree
      exact hm
    | some p =>
      obtain ⟨x, n, rfl, hx⟩ := (hlive p).mp (hop p rfl)
      have hmin := hm.free hr hheap hx.1 hfree
      exact hmin
  | write off byte =>
    cases hs
    exact hm

/-- A block cut below the smallest size stays in use with fewer bytes. -/
theorem not_minSized_of_owns {x n : Nat} (h : Shape a s l) (hx : Owns s l x n)
    (hsmall : n < x + a.sizeofStructMem + a.minSizeAligned) : ¬ MinSized a s := by
  intro hm
  have hb := (hm.path h).bounds hx.1
  have hn := hx.2.2
  omega

theorem shrinks_realloc (hr : Ground a s) (h : Heap a s l) {x n newsize : Nat} (hx : Owns s l x n)
    (hshrinks : Shrinks a s (x + a.sizeofStructMem) (rtAlign a.bits newsize a.align)) :
    ∃ s' l', rtSmemRealloc a s (some (x + a.sizeofStructMem)) newsize =
        some (s', some (x + a.sizeofStructMem)) ∧ Heap a s' l' ∧
      Owns s' l' x (x + a.sizeofStructMem + rtAlign a.bits newsize a.align) := by
  obtain ⟨hnew, hroom⟩ := (shrinks_iff hr h.shape hx).mp hshrinks
  have hin : InUse a s l (x + a.sizeofStructMem) := ⟨x, n, rfl, hx⟩
  have hcase := rtSmemRealloc_cases hr h (some (x + a.sizeofStructMem))
    (fun p hp => Option.some.inj hp ▸ hin) newsize
  generalize rtSmemRealloc a s (some (x + a.sizeofStructMem)) newsize = result at hcase
  cases hcase with
  | tooLarge hlarge _ => exact absurd hshrinks.1 (Nat.not_le.mpr hlarge)
  | free hzero _ => exact absurd hzero hnew
  | alloc _ hnull _ => cases hnull
  | @keep y m _ hptr hy hsize _ =>
    obtain rfl : x = y := by
      have := Option.some.inj hptr
      omega
    obtain rfl : n = m := hx.2.2.symm.trans hy.2.2
    omega
  | move _ _ _ hmoves => exact absurd hshrinks.2.2.2 hmoves.2.2.2
  | @shrink y m _ hptr hy _ halign _ =>
    obtain rfl : x = y := by
      have := Option.some.inj hptr
      omega
    obtain rfl : n = m := hx.2.2.symm.trans hy.2.2
    obtain ⟨s', l', hplug, hheap, -, howns⟩ := shrink_spec hr h hx
      (y := x + a.sizeofStructMem + rtAlign a.bits newsize a.align) (by omega) (by omega) halign
      (a.sub s.used (n - (x + a.sizeofStructMem + rtAlign a.bits newsize a.align)))
    exact ⟨s', l', Option.map_eq_some_iff.mpr ⟨s', hplug, rfl⟩, hheap,
      (howns x _).mpr (.inr ⟨rfl, rfl⟩)⟩

theorem MinSized.lost {op : Op} (h : Roomy a s) (hop : Allowed a s op)
    (hbad : ¬ KeepsMinimum a s op) : ∃ s', SmallMem.step a s op = some s' ∧ ¬ MinSized a s' := by
  obtain ⟨l, hr, hheap, hlive⟩ := h.heap
  cases op with
  | alloc | free | write => exact absurd trivial hbad
  | realloc rmem newsize =>
    cases rmem with
    | none => exact absurd trivial hbad
    | some p =>
      obtain ⟨hshrinks, hsmall⟩ := Classical.not_imp.mp hbad
      obtain ⟨x, n, rfl, hx⟩ := (hlive p).mp (hop p rfl)
      obtain ⟨s', l', hre, hheap', hx'⟩ := shrinks_realloc hr hheap hx hshrinks
      have hlost := not_minSized_of_owns hheap'.shape hx' (by omega)
      refine ⟨addLive (dropLive s' (some (x + a.sizeofStructMem))) (some (x + a.sizeofStructMem)),
        ?_, hlost⟩
      simp only [SmallMem.step, hre, Option.map_some]
      rw [if_pos (.inl (by simp))]

/-! ## Runs -/

/-- On a region without room for a block, the first block is too small from the start. -/
theorem Fresh.minSized_iff (h : Fresh a s) : MinSized a s ↔ a.minSizeAligned ≤ s.memSizeAligned := by
  have hpos := sizeofStructMem_pos a
  have heq := h.heapEnd_eq
  constructor
  · rintro ⟨l, hpath⟩
    have hb := hpath.bounds (hpath.first_mem (by omega))
    omega
  · intro hmin
    refine ⟨[0], rfl, ?_, ?_⟩
    · simp only [h.first]
      omega
    · simp only [h.first, Blocks.Path]

/-- Along every run of calls on live pointers, from `rt_smem_init` on, all blocks have at least
`MIN_SIZE_ALIGNED` bytes in every state reached exactly when the region has room for a block and
no call of `rt_smem_realloc` cuts a block at fewer bytes. -/
theorem minimum_kept_iff (a : Arch) (beginAddr size : Nat) (item : Nat → Item)
    (data : Nat → BitVec 8) (s₀ : State) (hinit : rtSmemInit a beginAddr size item data = some s₀)
    (ops : List Op) (hops : Runs.Along (step a) (Allowed a) s₀ ops) :
    Runs.Always (step a) (MinSized a) s₀ ops ↔
      a.minSizeAligned ≤ s₀.memSizeAligned ∧ Runs.Along (step a) (KeepsMinimum a) s₀ ops := by
  have hfresh := init_fresh hinit
  have hstart := hfresh.minSized_iff
  by_cases hmin : a.minSizeAligned ≤ s₀.memSizeAligned
  · have hroomy := hfresh.sound.roomy hmin
    have hiff := @Runs.always_iff_along_of State Op (step a) (Allowed a) (KeepsMinimum a) (Roomy a)
      (MinSized a) (fun _ _ _ h hop hs => h.step hop hs)
      (fun _ _ _ h hop hm hok hs => hm.step h hop hok hs)
      (fun _ _ h hop _ hbad => MinSized.lost h hop hbad) s₀ ops hroomy hops (hstart.mpr hmin)
    rw [hiff]
    exact ⟨fun hall => ⟨hmin, hall⟩, fun hall => hall.2⟩
  · exact iff_of_false (fun hall => hmin (hstart.mp hall.head)) fun hall => hmin hall.1

theorem minimum_kept_iff_ram : ∃ s₀, ramHeap = some s₀ ∧
    Runs.Always (step arch32) (MinSized arch32) s₀ ramOps := by
  have hcheck : (ramHeap.map fun s => decide (Runs.Along (step arch32) (Allowed arch32) s ramOps ∧
      arch32.minSizeAligned ≤ s.memSizeAligned ∧
      Runs.Along (step arch32) (KeepsMinimum arch32) s ramOps)) = some true := by
    decide +kernel
  obtain ⟨s₀, hs₀, hdec⟩ := Option.map_eq_some_iff.mp hcheck
  obtain ⟨hops, hcond⟩ := of_decide_eq_true hdec
  exact ⟨s₀, hs₀, (minimum_kept_iff arch32 0x20000000 512 (fun _ => ⟨0, 0, 0⟩) (fun _ => 0) s₀ hs₀
    ramOps hops).mpr hcond⟩

/-- A block of 100 bytes is cut at 4 bytes. -/
def cutOps : List Op := [.alloc 100, .realloc (some 12) 4]

theorem block_cut_below_minimum : ∃ s₀ s, ramHeap = some s₀ ∧
    Runs.Along (step arch32) (Allowed arch32) s₀ cutOps ∧
      Runs.run (step arch32) s₀ cutOps = some s ∧ ¬ MinSized arch32 s := by
  have hcheck : (ramHeap.bind fun s => (Runs.run (step arch32) s cutOps).map fun t =>
      decide (Runs.Along (step arch32) (Allowed arch32) s cutOps ∧ 0 ≠ t.heapEnd ∧
        (t.item 0).next < arch32.sizeofStructMem + arch32.minSizeAligned)) = some true := by
    decide +kernel
  obtain ⟨s₀, hs₀, hrest⟩ := Option.bind_eq_some_iff.mp hcheck
  obtain ⟨s, hrun, hdec⟩ := Option.map_eq_some_iff.mp hrest
  obtain ⟨hops, hne, hsmall⟩ := of_decide_eq_true hdec
  refine ⟨s₀, s, hs₀, hops, hrun, ?_⟩
  rintro ⟨l, hpath⟩
  have hb := hpath.bounds (hpath.first_mem hne)
  omega

end RtThread.SmallMem
