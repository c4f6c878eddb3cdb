import RtThread.SmallMemHeap

/-!
# The calls of the small-memory heap

One specification for every call: it returns, it keeps the heap structure, and
it changes the blocks in use as its name says.
-/
namespace RtThread.SmallMem

/-! ## Fields a call never changes -/

structure Same (s s' : State) : Prop where
  pool : s'.pool = s.pool
  heapPtr : s'.heapPtr = s.heapPtr
  heapEnd : s'.heapEnd = s.heapEnd
  memSizeAligned : s'.memSizeAligned = s.memSizeAligned
  live : s'.live = s.live

theorem Same.refl (s : State) : Same s s := ⟨rfl, rfl, rfl, rfl, rfl⟩

variable {s s' : State} {a : Arch} {n x y size : Nat} {l : List Nat}

theorem Same.trans {t u : State} (h : Same s t) (h' : Same t u) : Same s u :=
  ⟨h'.pool.trans h.pool, h'.heapPtr.trans h.heapPtr, h'.heapEnd.trans h.heapEnd,
    h'.memSizeAligned.trans h.memSizeAligned, h'.live.trans h.live⟩

theorem Same.ground (h : Same s s') (hr : Ground a s) : Ground a s' := by
  constructor
  · rw [h.heapEnd, h.memSizeAligned]
    exact hr.heapEnd_eq
  · rw [h.heapPtr, h.heapEnd]
    exact hr.lt
  · rw [h.heapPtr]
    exact hr.heapPtr_aligned
  · rw [h.heapEnd]
    exact hr.heapEnd_aligned
  · rw [h.pool]
    exact hr.pool_even
  · rw [h.pool]
    exact hr.pool_ne
  · rw [h.memSizeAligned]
    exact hr.min_le

theorem Same.region (h : Same s s') (hr : Region a s) : Region a s' :=
  ⟨h.ground hr.toGround, by rw [h.pool]; exact hr.pool_lt⟩

theorem splitAt_same (a : Arch) (s : State) (x y : Nat) : Same s (splitAt a s x y) := by
  simp only [splitAt]
  split
  · exact ⟨rfl, rfl, rfl, rfl, rfl⟩
  · exact ⟨rfl, rfl, rfl, rfl, rfl⟩

theorem plugHoles_same (h : plugHoles s x = some s') : Same s s' := by
  have hf : Same s (plugForward s x) := by
    simp only [plugForward]
    split
    · exact ⟨rfl, rfl, rfl, rfl, rfl⟩
    · exact .refl s
  have hb : ∀ s₁, Same s₁ (plugBackward s₁ x) := by
    intro s₁
    simp only [plugBackward]
    split
    · exact ⟨rfl, rfl, rfl, rfl, rfl⟩
    · exact .refl s₁
  simp only [plugHoles] at h
  split at h
  · cases h
    exact hf.trans (hb _)
  · simp at h

theorem splitAt_lfree (a : Arch) (s : State) (x y : Nat) : (splitAt a s x y).lfree = s.lfree := by
  simp only [splitAt]
  split <;> rfl

/-- The structure reads the headers, the constants and `lfree` only. -/
theorem Shape.congr (h : Shape a s l) (hi : s'.item = s.item) (he : s'.heapEnd = s.heapEnd)
    (hp : s'.pool = s.pool) : Shape a s' l := by
  constructor
  · rw [hi, he]
    exact h.path
  · rw [hi, he]
    exact h.prev
  · rw [hi]
    exact h.first
  · rw [hi, hp]
    exact h.pool
  · rw [hi, he, hp]
    exact h.poolEnd
  · exact h.aligned

theorem Heap.hole (h : Heap a s l) (hx : x ∈ l) (hfree : usedAt s x = false) : Hole a s l x :=
  ⟨h.shape, hx, hfree, fun z hz _ _ hend => h.apart z hz hend, h.lowest⟩

/-! ## `rt_smem_alloc` -/

/-- The size that the loop of `rt_smem_alloc` looks for. -/
def searchedSize (a : Arch) (size : Nat) : Nat :=
  if rtAlign a.bits size a.align < a.minSizeAligned then a.minSizeAligned
  else rtAlign a.bits size a.align

/-- The call reaches its loop. -/
def Searches (a : Arch) (s : State) (size : Nat) : Prop :=
  size ≠ 0 ∧ rtAlign a.bits size a.align ≤ s.memSizeAligned

instance (a : Arch) (s : State) (size : Nat) : Decidable (Searches a s size) :=
  inferInstanceAs (Decidable (size ≠ 0 ∧ rtAlign a.bits size a.align ≤ s.memSizeAligned))

theorem rtSmemAlloc_searches (h : Searches a s size) :
    rtSmemAlloc a s size = (search a s (searchedSize a size) (2 ^ a.bits) s.lfree).bind fun
      | none => some (s, none)
      | some ptr => (takeBlock a s ptr (searchedSize a size)).map fun (s, p) => (s, some p) := by
  rw [rtSmemAlloc.eq_def, if_neg h.1]
  rw [if_neg (Nat.not_lt.mpr h.2)]
  rfl

theorem rtSmemAlloc_refused (h : ¬ Searches a s size) : rtSmemAlloc a s size = some (s, none) := by
  rw [rtSmemAlloc.eq_def]
  by_cases hzero : size = 0
  · rw [if_pos hzero]
  · rw [if_neg hzero]
    rw [if_pos (Nat.lt_of_not_le fun hle => h ⟨hzero, hle⟩)]

theorem searchedSize_bounds (hmin : a.minSizeAligned ≤ s.memSizeAligned) (h : Searches a s size) :
    searchedSize a size ≤ s.memSizeAligned ∧ a.align ∣ searchedSize a size ∧
      0 < searchedSize a size := by
  have hminpos := minSizeAligned_pos a
  have hfits := h.2
  rw [searchedSize]
  split
  · exact ⟨hmin, dvd_rtAlign _ _ _, hminpos⟩
  · exact ⟨hfits, dvd_rtAlign _ _ _, by omega⟩

/-- The block at `x` is free and holds `size` bytes behind its header. -/
def Fits (a : Arch) (s : State) (size x : Nat) : Prop :=
  memIsUsed (s.item x) = false ∧ x + a.sizeofStructMem + size ≤ (s.item x).next

instance (a : Arch) (s : State) (size x : Nat) : Decidable (Fits a s size x) :=
  inferInstanceAs (Decidable (memIsUsed (s.item x) = false ∧
    x + a.sizeofStructMem + size ≤ (s.item x).next))

theorem Heap.start (h : Heap a s l) : s.lfree ∈ l ∨ s.lfree = s.heapEnd :=
  h.lowest.mem.elim .inr fun hm => .inl hm.1

/-- The search ends; a block it finds is free and large enough. -/
theorem search_spec (hr : Ground a s) (h : Shape a s l) (hsize : size ≤ s.memSizeAligned)
    (n : Nat) {ptr : Nat} (hptr : ptr ∈ l ∨ ptr = s.heapEnd) (hn : s.heapEnd - ptr < n) :
    ∃ r, search a s size n ptr = some r ∧
      ∀ x, r = some x → x ∈ l ∧ usedAt s x = false ∧
        x + a.sizeofStructMem + size ≤ (s.item x).next := by
  have hlt := hr.lt
  have hend := hr.heapEnd_eq
  have hpos := sizeofStructMem_pos a
  induction n generalizing ptr with
  | zero => omega
  | succ n ih =>
    have hsub : a.sub s.memSizeAligned size = s.memSizeAligned - size :=
      wsub_eq hsize (by omega)
    simp only [search, hsub]
    by_cases hle : ptr ≤ s.memSizeAligned - size
    · rw [if_pos hle]
      have hmem : ptr ∈ l := hptr.resolve_right (by omega)
      have hb := h.bounds hmem
      have hroom : a.sub (s.item ptr).next (a.add ptr a.sizeofStructMem) =
          (s.item ptr).next - (ptr + a.sizeofStructMem) := by
        rw [Arch.add, wadd_eq (by omega), Arch.sub, wsub_eq (by omega) (by omega)]
      split
      · rename_i hfit
        refine ⟨some ptr, rfl, ?_⟩
        rintro x hx
        cases hx
        exact ⟨hmem, hfit.1, by omega⟩
      · exact ih ((h.path.next_mem hmem).symm) (by omega)
    · rw [if_neg hle]
      exact ⟨none, rfl, by simp⟩

/-- The loop over `lfree` ends at the next free block, or at `heap_end`. -/
theorem advance_spec (h : Shape a s l) (n : Nat) (hx : x ∈ l ∨ x = s.heapEnd)
    (hn : s.heapEnd - x < n) :
    ∃ y, advance s n x = some y ∧ (y = s.heapEnd ∨ y ∈ l ∧ usedAt s y = false) ∧
      ∀ z ∈ l, x ≤ z → usedAt s z = false → y ≤ z := by
  induction n generalizing x with
  | zero => omega
  | succ n ih =>
    simp only [advance]
    split
    · rename_i hcond
      have hmem : x ∈ l := hx.resolve_right hcond.2
      have hb := h.bounds hmem
      obtain ⟨y, hy, hyl, hle⟩ := ih (h.path.next_mem hmem).symm (by omega)
      refine ⟨y, hy, hyl, ?_⟩
      intro z hz hxz hzf
      refine hle z hz ?_ hzf
      have hne : x ≠ z := by
        rintro rfl
        simp [usedAt, hcond.1] at hzf
      obtain heq | hnx | hnz := h.path.apart hmem hz
      · exact absurd heq hne
      · exact hnx
      · have := h.bounds hz
        omega
    · rename_i hcond
      refine ⟨x, rfl, ?_, fun z _ hxz _ => hxz⟩
      obtain hmem | hend := hx
      · by_cases hend : x = s.heapEnd
        · exact .inl hend
        · right
          refine ⟨hmem, ?_⟩
          by_contra hused
          exact hcond ⟨by simpa [usedAt] using hused, hend⟩
      · exact .inl hend

/-- Taking the free block of a hole into use. -/
theorem markUsed_spec (hr : Ground a s) (h : Hole a s l x) :
    ∃ s', markUsed a s x = some s' ∧ Heap a s' l ∧ Same s s' ∧
      ∀ z m, Owns s' l z m ↔ Owns s l z m ∨ z = x ∧ m = (s.item x).next := by
  set s₂ := setPoolPtr s x (memUsed s.pool) with hs₂
  have hlt := hr.lt
  have hshape : Shape a s₂ l := h.shape.mark h.mem (.inl rfl)
  have hused : ∀ z, usedAt s₂ z = if z = x then true else usedAt s z := by
    intro z
    simp only [s₂, usedAt_setPoolPtr, memIsUsed_memUsed]
  have hnext : ∀ z, (s₂.item z).next = (s.item z).next := setPoolPtr_next s x _
  have hlowest : ∃ lfree, (if x = s₂.lfree then advance s₂ (2 ^ a.bits) s₂.lfree
      else some s₂.lfree) = some lfree ∧ (lfree = s.heapEnd ∨ lfree ∈ l ∧ usedAt s₂ lfree = false) ∧
      ∀ z ∈ l, usedAt s₂ z = false → lfree ≤ z := by
    by_cases hx : x = s₂.lfree
    · rw [if_pos hx, ← hx]
      have hfuel : s₂.heapEnd - x < 2 ^ a.bits := by
        have : s₂.heapEnd = s.heapEnd := rfl
        omega
      obtain ⟨y, hy, hyl, hle⟩ := advance_spec hshape (2 ^ a.bits) (.inl h.mem) hfuel
      refine ⟨y, hy, hyl, ?_⟩
      intro z hz hzf
      refine hle z hz ?_ hzf
      have hzs : usedAt s z = false := by
        rw [hused] at hzf
        split at hzf
        · simp at hzf
        · exact hzf
      have := h.lowest.le z hz hzs
      rw [hx]
      exact this
    · rw [if_neg hx]
      refine ⟨s.lfree, rfl, ?_, ?_⟩
      · obtain hend | ⟨hm, hf⟩ := h.lowest.mem
        · exact .inl hend
        · refine .inr ⟨hm, ?_⟩
          rw [hused]
          exact (if_neg (Ne.symm hx)).trans hf
      · intro z hz hzf
        rw [hused] at hzf
        split at hzf
        · simp at hzf
        · exact h.lowest.le z hz hzf
  obtain ⟨lfree, hlf, hmem, hle⟩ := hlowest
  refine ⟨{ s₂ with lfree := lfree }, ?_, ⟨hshape.congr rfl rfl rfl, ?_, ⟨hmem, hle⟩⟩,
    ⟨rfl, rfl, rfl, rfl, rfl⟩, ?_⟩
  · rw [markUsed, ← hs₂]
    exact Option.map_eq_some_iff.mpr ⟨lfree, hlf, rfl⟩
  · intro z hz hzend
    have hu : ∀ w, usedAt { s₂ with lfree := lfree } w = if w = x then true else usedAt s w := hused
    have hnz : (({ s₂ with lfree := lfree } : State).item z).next = (s.item z).next := hnext z
    rw [hnz] at hzend ⊢
    rw [hu, hu]
    by_cases hzx : z = x
    · exact .inl (if_pos hzx)
    · by_cases hnx : (s.item z).next = x
      · exact .inr (if_pos hnx)
      · rw [if_neg hzx, if_neg hnx]
        exact h.apart z hz hzx hnx hzend
  · intro z m
    have hu : usedAt { s₂ with lfree := lfree } z = if z = x then true else usedAt s z := hused z
    have hnz : (({ s₂ with lfree := lfree } : State).item z).next = (s.item z).next := hnext z
    unfold Owns
    rw [hu, hnz]
    by_cases hzx : z = x
    · subst hzx
      simp [h.free, h.mem, eq_comm]
    · simp [hzx]

/-- Cutting a free block in two. -/
theorem Hole.split (hr : Ground a s) (h : Heap a s l) (hx : x ∈ l) (hfree : usedAt s x = false)
    (hxy : x + a.sizeofStructMem < y) (hyn : y + a.sizeofStructMem < (s.item x).next)
    (hal : a.align ∣ y) :
    ∃ l', Hole a (splitAt a s x y) l' x ∧ ((splitAt a s x y).item x).next = y ∧
      ∀ z m, Owns (splitAt a s x y) l' z m ↔ Owns s l z m := by
  have hb := h.shape.bounds hx
  have hle := h.lowest.le x hx hfree
  obtain ⟨l', hshape, hmem, hnext, hused⟩ := h.shape.split hr hx hxy hyn hal
  have hend := (splitAt_same a s x y).heapEnd
  have hout : ∀ z ∈ l, z ≠ y := by
    rintro z hz rfl
    exact h.shape.not_mem_inside hx (by omega) (by omega) hz
  refine ⟨l', ⟨hshape, (hmem x).mpr (.inl hx), ?_, ?_, ?_⟩, by rw [hnext, if_pos rfl], ?_⟩
  · rw [hused, if_neg (by omega)]
    exact hfree
  · intro z hz hzx hnx hzend
    rw [hend] at hzend
    rw [hnext, if_neg hzx] at hnx hzend ⊢
    by_cases hzy : z = y
    · rw [if_pos hzy] at hnx hzend ⊢
      right
      rw [hused, if_neg (by omega)]
      have := h.apart x hx hzend
      simpa [hfree] using this
    · rw [if_neg hzy] at hnx hzend ⊢
      have hzl := ((hmem z).mp hz).resolve_right hzy
      have hnl := (h.shape.path.next_mem hzl).resolve_left hzend
      rw [hused, hused, if_neg hzy, if_neg (hout _ hnl)]
      exact h.apart z hzl hzend
  · have hlf := splitAt_lfree a s x y
    constructor
    · right
      obtain hend' | ⟨hm, hf⟩ := h.lowest.mem
      · omega
      · rw [hlf, hused, if_neg (hout _ hm)]
        exact ⟨(hmem _).mpr (.inl hm), hf⟩
    · intro z hz hzf
      rw [hlf]
      rw [hused] at hzf
      split at hzf
      · omega
      · rename_i hzy
        exact h.lowest.le z (((hmem z).mp hz).resolve_right hzy) hzf
  · intro z m
    unfold Owns
    rw [hmem, hnext, hused]
    by_cases hzy : z = y
    · subst hzy
      have hzl : z ∉ l := fun hz => hout z hz rfl
      simp [hzl]
    · by_cases hzx : z = x
      · subst hzx
        simp [hzy, hfree]
      · simp [hzy, hzx]

theorem Hole.congr (h : Hole a s l x) (hi : s'.item = s.item) (he : s'.heapEnd = s.heapEnd)
    (hp : s'.pool = s.pool) (hlf : s'.lfree = s.lfree) : Hole a s' l x := by
  have hu : ∀ z, usedAt s' z = usedAt s z := fun z => by rw [usedAt, usedAt, hi]
  refine ⟨h.shape.congr hi he hp, h.mem, (hu x).trans h.free, ?_, ⟨?_, ?_⟩⟩
  · intro z hz
    rw [hi, he, hu, hu]
    exact h.apart z hz
  · rw [hlf, he, hu]
    exact h.lowest.mem
  · intro z hz
    rw [hlf, hu]
    exact h.lowest.le z hz

/-- The sums of `carve` stay within the heap. -/
theorem carve_eq (hr : Ground a s) (h : Shape a s l) (hx : x ∈ l)
    (hfit : x + a.sizeofStructMem + size ≤ (s.item x).next) :
    carve a s x size =
      if size + a.sizeofStructMem + a.minSizeAligned ≤ (s.item x).next - (x + a.sizeofStructMem) then
        charge a (splitAt a s x (x + a.sizeofStructMem + size)) (a.add size a.sizeofStructMem)
      else charge a s (a.sub (s.item x).next x) := by
  have hlt := hr.lt
  have hb := h.bounds hx
  have hmin := minSizeAligned_le a
  have hroom : a.sub (s.item x).next (a.add x a.sizeofStructMem) =
      (s.item x).next - (x + a.sizeofStructMem) := by
    rw [Arch.add, wadd_eq (by omega), Arch.sub, wsub_eq (by omega) (by omega)]
  have hneed : a.add (a.add size a.sizeofStructMem) a.minSizeAligned =
      size + a.sizeofStructMem + a.minSizeAligned := by
    rw [Arch.add, Arch.add, wadd_eq (b := a.sizeofStructMem) (by omega), wadd_eq (by omega)]
  have hptr : a.add (a.add x a.sizeofStructMem) size = x + a.sizeofStructMem + size := by
    rw [Arch.add, Arch.add, wadd_eq (b := a.sizeofStructMem) (by omega), wadd_eq (by omega)]
  simp only [carve, hroom, hneed, hptr]

theorem carve_spec (hr : Ground a s) (h : Heap a s l) (hx : x ∈ l) (hfree : usedAt s x = false)
    (hfit : x + a.sizeofStructMem + size ≤ (s.item x).next) (hal : a.align ∣ size)
    (hsize : 0 < size) :
    ∃ l', Hole a (carve a s x size) l' x ∧ Same s (carve a s x size) ∧
      x + a.sizeofStructMem + size ≤ ((carve a s x size).item x).next ∧
      ∀ z m, Owns (carve a s x size) l' z m ↔ Owns s l z m := by
  have hminpos := minSizeAligned_pos a
  have halh : a.align ∣ a.sizeofStructMem := dvd_rtAlign _ _ _
  rw [carve_eq hr h.shape hx hfit]
  split
  · rename_i hsplit
    obtain ⟨l', hhole, hnext, howns⟩ := Hole.split (y := x + a.sizeofStructMem + size) hr h hx hfree
      (by omega) (by omega) (Nat.dvd_add (Nat.dvd_add (h.shape.aligned x hx) halh) hal)
    refine ⟨l', hhole.congr rfl rfl rfl rfl,
      (splitAt_same a s x _).trans ⟨rfl, rfl, rfl, rfl, rfl⟩, ?_, howns⟩
    exact Nat.le_of_eq hnext.symm
  · exact ⟨l, (h.hole hx hfree).congr rfl rfl rfl rfl, ⟨rfl, rfl, rfl, rfl, rfl⟩, hfit,
      fun _ _ => Iff.rfl⟩

theorem takeBlock_spec (hr : Ground a s) (h : Heap a s l) (hx : x ∈ l)
    (hfree : usedAt s x = false) (hfit : x + a.sizeofStructMem + size ≤ (s.item x).next)
    (hal : a.align ∣ size) (hsize : 0 < size) :
    ∃ s' l' n, takeBlock a s x size = some (s', x + a.sizeofStructMem) ∧ Heap a s' l' ∧
      Same s s' ∧ x + a.sizeofStructMem + size ≤ n ∧
      ∀ z m, Owns s' l' z m ↔ Owns s l z m ∨ z = x ∧ m = n := by
  have hlt := hr.lt
  have hb := h.shape.bounds hx
  have halx := h.shape.aligned x hx
  have halh : a.align ∣ a.sizeofStructMem := dvd_rtAlign _ _ _
  obtain ⟨l', hhole, hsame, hn, howns⟩ := carve_spec hr h hx hfree hfit hal hsize
  obtain ⟨s', hs', hheap, hsame', howns'⟩ := markUsed_spec (hsame.ground hr) hhole
  have hsame := hsame.trans hsame'
  refine ⟨s', l', _, ?_, hheap, hsame, hn, ?_⟩
  · have hmem : a.add s.heapPtr x = s.heapPtr + x := wadd_eq (by omega)
    have hdata : a.add (s.heapPtr + x) a.sizeofStructMem = s.heapPtr + x + a.sizeofStructMem :=
      wadd_eq (by omega)
    have hlast : a.add (s.heapPtr + x + a.sizeofStructMem) size =
        s.heapPtr + x + a.sizeofStructMem + size := wadd_eq (by omega)
    have hheapEnd : a.add s.heapPtr s.heapEnd = s.heapPtr + s.heapEnd := wadd_eq (by omega)
    have hres : a.add x a.sizeofStructMem = x + a.sizeofStructMem := wadd_eq (by omega)
    simp only [takeBlock, hs', Option.bind_some, hsame.heapPtr, hsame.heapEnd, hmem, hdata, hlast,
      hheapEnd, hres]
    rw [if_pos]
    have halm := Nat.dvd_add hr.heapPtr_aligned halx
    exact ⟨by omega, Nat.dvd_add halm halh, halm⟩
  · intro z m
    rw [howns', howns]

/-- What `rt_smem_alloc` does to the blocks in use, by its result. -/
def Allocated (a : Arch) (s : State) (l : List Nat) (s' : State) (l' : List Nat) :
    Option Nat → Prop
  | none => s' = s ∧ l' = l
  | some p => ∃ x n, p = x + a.sizeofStructMem ∧ (∀ m, ¬ Owns s l x m) ∧
      ∀ z m, Owns s' l' z m ↔ Owns s l z m ∨ z = x ∧ m = n

theorem rtSmemAlloc_spec (hr : Ground a s) (h : Heap a s l) (size : Nat) :
    ∃ s' r l', rtSmemAlloc a s size = some (s', r) ∧ Heap a s' l' ∧ Same s s' ∧
      Allocated a s l s' l' r := by
  have hlt := hr.lt
  by_cases hsearches : Searches a s size
  · obtain ⟨hle, halign, hpos⟩ := searchedSize_bounds hr.min_le hsearches
    obtain ⟨r, hsearch, hfound⟩ := search_spec hr h.shape hle (2 ^ a.bits) h.start (by omega)
    rw [rtSmemAlloc_searches hsearches, hsearch, Option.bind_some]
    cases r with
    | none => exact ⟨s, none, l, rfl, h, .refl s, rfl, rfl⟩
    | some x =>
      obtain ⟨hx, hfree, hfit⟩ := hfound x rfl
      obtain ⟨s', l', n, htake, hheap, hsame, _, howns⟩ := takeBlock_spec hr h hx hfree hfit halign hpos
      refine ⟨s', some (x + a.sizeofStructMem), l', by simp only [htake, Option.map_some], hheap,
        hsame, x, n, rfl, ?_, howns⟩
      rintro m ⟨_, hu, _⟩
      simp [hfree] at hu
  · exact ⟨s, none, l, rtSmemAlloc_refused hsearches, h, .refl s, rfl, rfl⟩

/-- The block behind a result of `rt_smem_alloc`. -/
theorem rtSmemAlloc_takes (hr : Ground a s) (h : Heap a s l) {p : Nat}
    (halloc : rtSmemAlloc a s size = some (s', some p)) :
    Searches a s size ∧ ∃ x ∈ l, p = x + a.sizeofStructMem ∧ Fits a s (searchedSize a size) x ∧
      markUsed a (carve a s x (searchedSize a size)) x = some s' := by
  have hlt := hr.lt
  by_cases hsearches : Searches a s size
  · obtain ⟨hle, -, -⟩ := searchedSize_bounds hr.min_le hsearches
    obtain ⟨r, hsearch, hfound⟩ := search_spec hr h.shape hle (2 ^ a.bits) h.start (by omega)
    rw [rtSmemAlloc_searches hsearches, hsearch, Option.bind_some] at halloc
    cases r with
    | none => simp at halloc
    | some x =>
      obtain ⟨hx, hfree, hfit⟩ := hfound x rfl
      have hb := h.shape.bounds hx
      obtain ⟨⟨t, q⟩, htake, heq⟩ := Option.map_eq_some_iff.mp halloc
      obtain ⟨rfl, hp⟩ := Prod.mk.inj heq
      cases hp
      obtain ⟨s₂, hmark, hrest⟩ := Option.bind_eq_some_iff.mp htake
      obtain ⟨-, rfl, rfl⟩ := guarded_inj hrest
      exact ⟨hsearches, x, hx, wadd_eq (by omega), ⟨hfree, hfit⟩, hmark⟩
  · rw [rtSmemAlloc_refused hsearches] at halloc
    simp at halloc

/-! ## `rt_smem_free` -/

/-- `lfree` after one more block has become free. -/
theorem Lowest.lower {l' : List Nat} (h : Lowest s l) (hend : s'.heapEnd = s.heapEnd)
    (hy : y < s.heapEnd)
    (hfree : ∀ z, z ∈ l' ∧ usedAt s' z = false ↔ z ∈ l ∧ usedAt s z = false ∨ z = y)
    (hlf : s'.lfree = if y < s.lfree then y else s.lfree) : Lowest s' l' := by
  constructor
  · rw [hlf, hend]
    split
    · exact .inr ((hfree y).mpr (.inr rfl))
    · obtain hm | hm := h.mem
      · omega
      · exact .inr ((hfree _).mpr (.inl hm))
  · intro z hz hzf
    rw [hlf]
    obtain hz | rfl := (hfree z).mp ⟨hz, hzf⟩
    · have := h.le z hz.1 hz.2
      split <;> omega
    · split <;> omega

/-- The heap of `rt_smem_free` before `plug_holes`. -/
def markFree (a : Arch) (s : State) (x : Nat) : State :=
  { setPoolPtr s x (memFreed s.pool) with
    lfree := if x < s.lfree then x else s.lfree
    used := a.sub s.used (a.sub (s.item x).next x) }

theorem usedAt_markFree (a : Arch) (s : State) (x z : Nat) :
    usedAt (markFree a s x) z = if z = x then false else usedAt s z := by
  have hsame : usedAt (markFree a s x) z = usedAt (setPoolPtr s x (memFreed s.pool)) z := rfl
  rw [hsame, usedAt_setPoolPtr, memIsUsed_memFreed]

theorem markFree_next (a : Arch) (s : State) (x z : Nat) :
    ((markFree a s x).item z).next = (s.item z).next := setPoolPtr_next s x _ z

theorem markFree_hole (h : Heap a s l) (hx : x ∈ l) : Hole a (markFree a s x) l x := by
  have hb := h.shape.bounds hx
  have hshape : Shape a (markFree a s x) l := (h.shape.mark hx (.inr rfl)).congr rfl rfl rfl
  refine ⟨hshape, hx, by rw [usedAt_markFree, if_pos rfl], ?_, ?_⟩
  · intro z hz hzx hnx hzend
    rw [markFree_next] at hnx hzend ⊢
    rw [usedAt_markFree, usedAt_markFree, if_neg hzx, if_neg hnx]
    exact h.apart z hz hzend
  · refine h.lowest.lower rfl (by omega) ?_ rfl
    intro z
    rw [usedAt_markFree]
    by_cases hzx : z = x
    · subst hzx
      simp [hx]
    · simp [hzx]

theorem header_of_data (hr : Ground a s) (h : Shape a s l) (hx : x ∈ l) :
    a.sub (x + a.sizeofStructMem) a.sizeofStructMem = x := by
  have hlt := hr.lt
  have hb := h.bounds hx
  rw [Arch.sub, wsub_eq (by omega) (by omega), Nat.add_sub_cancel]

/-- A call of `rt_smem_free` that returns has passed its assertions. -/
theorem rtSmemFree_plugs (hr : Ground a s) (h : Heap a s l) (hx : x ∈ l)
    (hfree : rtSmemFree a s (some (x + a.sizeofStructMem)) = some s') :
    plugHoles (markFree a s x) x = some s' := by
  simp only [rtSmemFree, header_of_data hr h.shape hx] at hfree
  obtain ⟨-, hplug⟩ := Option.ite_none_right_eq_some.mp hfree
  exact hplug

/-- A call of `rt_smem_free` that returns has freed the block. -/
theorem rtSmemFree_frees (hr : Ground a s) (h : Heap a s l) (hx : Owns s l x n)
    (hfree : rtSmemFree a s (some (x + a.sizeofStructMem)) = some s') :
    ∃ l', Heap a s' l' ∧ Same s s' ∧ ∀ z m, Owns s' l' z m ↔ Owns s l z m ∧ z ≠ x := by
  have hplug := rtSmemFree_plugs hr h hx.1 hfree
  obtain ⟨t, l', hspec, hheap, howns⟩ := plugHoles_spec (markFree_hole h hx.1)
  cases hplug.symm.trans hspec
  refine ⟨l', hheap, ?_, ?_⟩
  · exact Same.trans (t := markFree a s x) ⟨rfl, rfl, rfl, rfl, rfl⟩ (plugHoles_same hplug)
  · intro z m
    rw [howns]
    unfold Owns
    rw [usedAt_markFree, markFree_next]
    by_cases hzx : z = x
    · simp [hzx]
    · simp [hzx]

theorem rtSmemFree_spec (hr : Region a s) (h : Heap a s l) (hx : Owns s l x n) :
    ∃ s' l', rtSmemFree a s (some (x + a.sizeofStructMem)) = some s' ∧ Heap a s' l' ∧
      Same s s' ∧ ∀ z m, Owns s' l' z m ↔ Owns s l z m ∧ z ≠ x := by
  have hmem := hx.1
  have hlt := hr.lt
  have hb := h.shape.bounds hmem
  have hpool : ∀ y ∈ l, memPool (s.item y) = s.pool :=
    fun y hy => memPool_eq hr.pool_even hr.pool_lt (h.shape.pool y hy)
  have hnext : memPool (s.item (s.item x).next) = s.pool := by
    obtain hend | hnl := h.shape.path.next_mem hmem
    · rw [hend]
      exact memPool_eq hr.pool_even hr.pool_lt (.inl h.shape.poolEnd)
    · exact hpool _ hnl
  have hdata : a.align ∣ a.add s.heapPtr (x + a.sizeofStructMem) := by
    rw [Arch.add, wadd_eq (by omega)]
    exact Nat.dvd_add hr.heapPtr_aligned (Nat.dvd_add (h.shape.aligned x hmem) (dvd_rtAlign _ _ _))
  have hbelow : x + a.sizeofStructMem < s.heapEnd := by omega
  obtain ⟨s', -, hplug, -⟩ := plugHoles_spec (markFree_hole h hmem)
  have hfree : rtSmemFree a s (some (x + a.sizeofStructMem)) = some s' := by
    simp only [rtSmemFree, header_of_data hr.toGround h.shape hmem]
    rw [if_pos ⟨hdata, hpool x hmem, hr.pool_ne, hx.2.1, hbelow, hnext⟩]
    exact hplug
  obtain ⟨l', hheap, hsame, howns⟩ := rtSmemFree_frees hr.toGround h hx hfree
  exact ⟨s', l', hfree, hheap, hsame, howns⟩

/-! ## `rt_smem_realloc` -/

/-- The heap of a shrinking `rt_smem_realloc` before `plug_holes`. -/
def cutBlock (a : Arch) (s : State) (x y used : Nat) : State :=
  let s₁ := splitAt a { s with used := used } x y
  { s₁ with lfree := if y < s₁.lfree then y else s₁.lfree }

/-- Cutting a block in use behind its first bytes leaves a hole behind it. -/
theorem cutBlock_hole (hr : Ground a s) (h : Heap a s l) (hx : Owns s l x n)
    (hxy : x + a.sizeofStructMem < y) (hyn : y + a.sizeofStructMem < n) (hal : a.align ∣ y)
    (used : Nat) :
    ∃ l', Hole a (cutBlock a s x y used) l' y ∧ Same s (cutBlock a s x y used) ∧
      ∀ z m, Owns (cutBlock a s x y used) l' z m ↔ Owns s l z m ∧ z ≠ x ∨ z = x ∧ m = y := by
  obtain ⟨hmem, hused, rfl⟩ := hx
  have hb := h.shape.bounds hmem
  have hr₀ : Ground a { s with used := used } :=
    Same.ground (s := s) ⟨rfl, rfl, rfl, rfl, rfl⟩ hr
  have hsh₀ : Shape a { s with used := used } l := h.shape.congr rfl rfl rfl
  obtain ⟨l', hshape, hl', hnext, hflag⟩ := hsh₀.split hr₀ hmem hxy hyn hal
  have hsame : Same s (splitAt a { s with used := used } x y) :=
    Same.trans (t := { s with used := used }) ⟨rfl, rfl, rfl, rfl, rfl⟩ (splitAt_same a _ x y)
  have hlf : (splitAt a { s with used := used } x y).lfree = s.lfree := splitAt_lfree a _ x y
  have hout : ∀ z ∈ l, z ≠ y := by
    rintro z hz rfl
    exact h.shape.not_mem_inside hmem (by omega) (by omega) hz
  have hflag₂ : ∀ z, usedAt (cutBlock a s x y used) z = if z = y then false else usedAt s z :=
    hflag
  have hnext₂ : ∀ z, ((cutBlock a s x y used).item z).next =
      if z = x then y else if z = y then (s.item x).next else (s.item z).next := hnext
  have hend₂ : (cutBlock a s x y used).heapEnd = s.heapEnd := hsame.heapEnd
  refine ⟨l', ⟨hshape.congr rfl rfl rfl, (hl' y).mpr (.inr rfl), by rw [hflag₂, if_pos rfl], ?_, ?_⟩,
    hsame.trans ⟨rfl, rfl, rfl, rfl, rfl⟩, ?_⟩
  · intro z hz hzy hny hzend
    rw [hend₂] at hzend
    rw [hnext₂] at hny hzend ⊢
    by_cases hzx : z = x
    · rw [if_pos hzx] at hny
      exact absurd rfl hny
    · rw [if_neg hzx, if_neg hzy] at hny hzend ⊢
      rw [hflag₂, hflag₂, if_neg hzy, if_neg hny]
      exact h.apart z (((hl' z).mp hz).resolve_right hzy) hzend
  · have hlf₂ : (cutBlock a s x y used).lfree = if y < s.lfree then y else s.lfree := by
      rw [← hlf]
      rfl
    refine h.lowest.lower (y := y) hend₂ (by omega) ?_ hlf₂
    intro z
    rw [hflag₂, hl']
    by_cases hzy : z = y
    · simp [hzy]
    · simp [hzy]
  · intro z m
    unfold Owns
    rw [hflag₂, hnext₂, hl']
    by_cases hzx : z = x
    · subst hzx
      have hzy : z ≠ y := by omega
      simp [hzy, hmem, hused, eq_comm]
    · by_cases hzy : z = y
      · subst hzy
        have hzl : z ∉ l := fun hz => hout z hz rfl
        simp [hzl, hzx]
      · simp [hzx, hzy]

theorem shrink_spec (hr : Ground a s) (h : Heap a s l) (hx : Owns s l x n)
    (hxy : x + a.sizeofStructMem < y) (hyn : y + a.sizeofStructMem < n) (hal : a.align ∣ y)
    (used : Nat) :
    ∃ s' l', plugHoles (cutBlock a s x y used) y = some s' ∧ Heap a s' l' ∧ Same s s' ∧
      ∀ z m, Owns s' l' z m ↔ Owns s l z m ∧ z ≠ x ∨ z = x ∧ m = y := by
  obtain ⟨l₁, hhole, hsame, howns₁⟩ := cutBlock_hole hr h hx hxy hyn hal used
  obtain ⟨s', l', hplug, hheap, howns⟩ := plugHoles_spec hhole
  exact ⟨s', l', hplug, hheap, hsame.trans (plugHoles_same hplug),
    fun z m => (howns z m).trans (howns₁ z m)⟩

end RtThread.SmallMem
