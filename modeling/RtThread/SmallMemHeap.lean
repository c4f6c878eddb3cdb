import RtThread.Lib.Blocks
import RtThread.SmallMem

/-!
# The structure of the small-memory heap

`Shape` is what splitting and joining keep: the blocks tile the region and every
block is the `prev` of the next one. `Heap` adds what holds between two calls:
free blocks are not adjacent, and `lfree` is the lowest of them. Every function
of `mem.c` gets one lemma that says what it does to the blocks in use.
-/
namespace RtThread.SmallMem

/-! ## Header words -/

theorem memIsUsed_memUsed (pool next prev : Nat) :
    memIsUsed ⟨memUsed pool, next, prev⟩ = true := by
  have h : memUsed pool &&& 1 = 1 := by
    rw [memUsed, Nat.and_or_distrib_right]
    rw [Nat.and_assoc]
    simp
  simp [memIsUsed, h]

theorem memIsUsed_memFreed (pool next prev : Nat) :
    memIsUsed ⟨memFreed pool, next, prev⟩ = false := by
  have h : memFreed pool &&& 1 = 0 := by
    rw [memFreed, Nat.or_zero, Nat.and_assoc]
    simp
  simp [memIsUsed, h]

variable {x y pool : Nat} {s : State} {a : Arch} {l l' : List Nat}

/-- An even address below `2^32` survives the mask. -/
theorem land_memMask (heven : 2 ∣ pool) (hlt : pool < 2 ^ 32) : pool &&& 0xfffffffe = pool := by
  obtain ⟨q, rfl⟩ := heven
  have hq : 2 * q = q <<< 1 := by rw [Nat.shiftLeft_eq, Nat.mul_comm]
  have hmask : 0xfffffffe = (2 ^ 31 - 1) <<< 1 := by decide
  rw [hq, hmask, ← Nat.shiftLeft_and_distrib, Nat.and_two_pow_sub_one_eq_mod,
    Nat.mod_eq_of_lt (by omega)]

theorem memPool_eq {x : Item} (heven : 2 ∣ pool) (hlt : pool < 2 ^ 32)
    (hx : x.poolPtr = memUsed pool ∨ x.poolPtr = memFreed pool) : memPool x = pool := by
  have hmask := land_memMask heven hlt
  obtain hx | hx := hx
  · rw [memPool, hx, memUsed, hmask, Nat.and_or_distrib_right, hmask]
    simp
  · rw [memPool, hx, memFreed, hmask, Nat.or_zero, hmask]

/-! ## What the header updates do -/

theorem setItem_item (s : State) (off : Nat) (x : Item) (z : Nat) :
    (setItem s off x).item z = if z = off then x else s.item z := by
  exact Function.update_apply _ _ _ _

/-- Joining the block `y` to the block `x` before it, where `n` follows `y`. -/
theorem joinNext_item (hxy : x ≠ y) (hx : (s.item y).next ≠ x) (hy : (s.item y).next ≠ y)
    (z : Nat) :
    (joinNext s x y).item z =
      if z = (s.item y).next then { s.item z with prev := x }
      else if z = x then { s.item z with next := (s.item y).next }
      else if z = y then { s.item z with poolPtr := 0 }
      else s.item z := by
  simp only [joinNext, setPoolPtr, setNext, setPrev, setItem_item, hxy, hxy.symm, ↓reduceIte]
  by_cases hz : z = (s.item y).next
  · simp [hz, hx, hy]
  · by_cases hzx : z = x
    · subst hzx
      simp [hz]
    · by_cases hzy : z = y
      · subst hzy
        simp [hz, hzx]
      · simp [hz, hzx, hzy]

/-- Cutting the block `x` at `y`. -/
theorem splitAt_item (hxy : x ≠ y) (hx : (s.item x).next ≠ x) (hy : (s.item x).next ≠ y)
    (hend : a.add s.memSizeAligned a.sizeofStructMem = s.heapEnd) (z : Nat) :
    (splitAt a s x y).item z =
      if z = (s.item x).next ∧ z ≠ s.heapEnd then { s.item z with prev := y }
      else if z = x then { s.item z with next := y }
      else if z = y then ⟨memFreed s.pool, (s.item x).next, x⟩
      else s.item z := by
  have hend' : a.add (setNext (setItem s y ⟨memFreed s.pool, (s.item x).next, x⟩) x y).memSizeAligned
      a.sizeofStructMem = s.heapEnd := hend
  have hitem : ∀ z, (setNext (setItem s y ⟨memFreed s.pool, (s.item x).next, x⟩) x y).item z =
      if z = x then { s.item z with next := y }
      else if z = y then ⟨memFreed s.pool, (s.item x).next, x⟩
      else s.item z := by
    intro z
    simp only [setNext, setItem_item, hxy, ↓reduceIte]
    by_cases hzx : z = x
    · simp [hzx]
    · simp [hzx]
  simp only [splitAt, hend']
  by_cases hn : (s.item x).next = s.heapEnd
  · have hcond : ¬ (z = (s.item x).next ∧ z ≠ s.heapEnd) := by
      rintro ⟨rfl, hz⟩
      exact hz hn
    rw [if_neg (not_not.mpr hn), hitem, if_neg hcond]
  · rw [if_pos hn, setPrev, setItem_item]
    by_cases hz : z = (s.item x).next
    · rw [if_pos hz, if_pos ⟨hz, hz ▸ hn⟩, hitem, if_neg hx, if_neg hy, hz]
    · rw [if_neg hz, hitem, if_neg (show ¬ (z = (s.item x).next ∧ z ≠ s.heapEnd) by tauto)]

/-! ## Splitting and joining -/

/-- What never changes after `rt_smem_init` on a region with room for a block. -/
structure Ground (a : Arch) (s : State) : Prop where
  heapEnd_eq : s.heapEnd = s.memSizeAligned + a.sizeofStructMem
  lt : s.heapPtr + s.heapEnd + a.sizeofStructMem < 2 ^ a.bits
  heapPtr_aligned : a.align ∣ s.heapPtr
  heapEnd_aligned : a.align ∣ s.heapEnd
  pool_even : 2 ∣ s.pool
  pool_ne : s.pool ≠ 0
  min_le : a.minSizeAligned ≤ s.memSizeAligned

/-- The address of the heap object fits the header word as well. -/
structure Region (a : Arch) (s : State) : Prop extends Ground a s where
  pool_lt : s.pool < 2 ^ 32

def usedAt (s : State) (x : Nat) : Bool := memIsUsed (s.item x)

/-- The blocks tile the region, each with a header and at least one byte of data. -/
structure Shape (a : Arch) (s : State) (l : List Nat) : Prop where
  path : Blocks.Path (a.sizeofStructMem + 1) (fun x => (s.item x).next) 0 s.heapEnd l
  prev : ∀ x ∈ l, (s.item x).next ≠ s.heapEnd → (s.item (s.item x).next).prev = x
  first : (s.item 0).prev = 0
  pool : ∀ x ∈ l, (s.item x).poolPtr = memUsed s.pool ∨ (s.item x).poolPtr = memFreed s.pool
  poolEnd : (s.item s.heapEnd).poolPtr = memUsed s.pool
  aligned : ∀ x ∈ l, a.align ∣ x

theorem itemSize_lt (a : Arch) : a.itemSize + a.align - 1 < 2 ^ a.bits := by
  have := a.itemSize_le
  have := a.align_pos
  omega

theorem sizeofStructMem_pos (a : Arch) : 0 < a.sizeofStructMem :=
  Nat.lt_of_lt_of_le a.itemSize_pos (le_rtAlign a.align_pos (itemSize_lt a))

theorem minSizeAligned_pos (a : Arch) : 0 < a.minSizeAligned := by
  have := a.minSize_le
  have := itemSize_lt a
  exact Nat.lt_of_lt_of_le a.minSize_pos (le_rtAlign a.align_pos (by omega))

theorem minSizeAligned_le (a : Arch) : a.minSizeAligned ≤ a.sizeofStructMem :=
  rtAlign_mono a.minSize_le (itemSize_lt a)

theorem Shape.bounds (h : Shape a s l) (hx : x ∈ l) :
    x + a.sizeofStructMem < (s.item x).next ∧ (s.item x).next ≤ s.heapEnd :=
  (h.path.bounds hx).2

/-- No block begins inside another one. -/
theorem Shape.not_mem_inside (h : Shape a s l) (hx : x ∈ l) (hxy : x < y)
    (hyn : y < (s.item x).next) : y ∉ l := by
  intro hy
  have hb := h.bounds hy
  obtain heq | hle | hle := h.path.apart hx hy
  · omega
  · omega
  · omega

/-- The `prev` of a block is the block before it, and the first block has none before it. -/
theorem Shape.prev_cases (h : Shape a s l) (hx : x ∈ l) :
    (s.item x).prev = x ∧ (∀ z ∈ l, (s.item z).next ≠ x) ∨
      (s.item x).prev ∈ l ∧ (s.item (s.item x).prev).next = x := by
  have hb := h.bounds hx
  obtain hzero | ⟨p, hp, hpx⟩ := h.path.exists_pred hx
  · left
    refine ⟨by rw [hzero]; exact h.first, ?_⟩
    intro z hz
    have := h.bounds hz
    omega
  · right
    have hprev := h.prev p hp (by rw [hpx]; omega)
    simp only [hpx] at hprev
    rw [hprev]
    exact ⟨hp, hpx⟩

theorem Shape.join (h : Shape a s l) (hx : x ∈ l) (hxy : (s.item x).next = y)
    (hend : y ≠ s.heapEnd) :
    ∃ l', Shape a (joinNext s x y) l' ∧ (∀ z, z ∈ l' ↔ z ∈ l ∧ z ≠ y) ∧
      (∀ z, ((joinNext s x y).item z).next = if z = x then (s.item y).next else (s.item z).next) ∧
      ∀ z, z ≠ y → usedAt (joinNext s x y) z = usedAt s z := by
  have hy : y ∈ l := hxy ▸ (h.path.next_mem hx).resolve_left (by rw [hxy]; exact hend)
  have hbx := h.bounds hx
  have hby := h.bounds hy
  have hitem := joinNext_item (s := s) (x := x) (y := y) (by omega) (by omega) (by omega)
  have hnext : ∀ z, ((joinNext s x y).item z).next =
      if z = x then (s.item y).next else (s.item z).next := by
    intro z
    rw [hitem]
    split
    · rw [if_neg (by omega)]
    · split
      · rfl
      · split <;> rfl
  have hprev : ∀ z, ((joinNext s x y).item z).prev =
      if z = (s.item y).next then x else (s.item z).prev := by
    intro z
    rw [hitem]
    split
    · rfl
    · split
      · rfl
      · split <;> rfl
  have hpool : ∀ z, z ≠ y → ((joinNext s x y).item z).poolPtr = (s.item z).poolPtr := by
    intro z hz
    rw [hitem]
    split
    · rfl
    · split
      · rfl
      · rfl
  obtain ⟨l', hpath, hmem⟩ := h.path.merge (g := fun z => ((joinNext s x y).item z).next) hx
    hxy hend (by simp [hnext]) (fun z _ hz => by simp [hnext, hz]) (Nat.succ_pos _)
  have hused : ∀ z, z ≠ y → usedAt (joinNext s x y) z = usedAt s z := by
    intro z hz
    rw [usedAt, usedAt, memIsUsed, memIsUsed, hpool z hz]
  refine ⟨l', ⟨hpath, ?_, ?_, ?_, ?_, ?_⟩, hmem, hnext, hused⟩
  · intro z hz hzend
    obtain ⟨hzl, hzy⟩ := (hmem z).mp hz
    rw [hnext z] at hzend ⊢
    by_cases hzx : z = x
    · rw [if_pos hzx, hprev, if_pos rfl, hzx]
    · rw [if_neg hzx] at hzend ⊢
      have hne : (s.item z).next ≠ (s.item y).next :=
        fun heq => hzy (h.path.next_injective (Nat.succ_pos _) hzl hy heq)
      rw [hprev, if_neg hne]
      exact h.prev z hzl hzend
  · rw [hprev, if_neg (by omega)]
    exact h.first
  · intro z hz
    obtain ⟨hzl, hzy⟩ := (hmem z).mp hz
    rw [hpool z hzy]
    exact h.pool z hzl
  · have : (joinNext s x y).heapEnd = s.heapEnd := rfl
    rw [this, hpool _ (Ne.symm hend)]
    exact h.poolEnd
  · intro z hz
    exact h.aligned z ((hmem z).mp hz).1

theorem Shape.split (hr : Ground a s) (h : Shape a s l) (hx : x ∈ l)
    (hxy : x + a.sizeofStructMem < y) (hyn : y + a.sizeofStructMem < (s.item x).next)
    (hal : a.align ∣ y) :
    ∃ l', Shape a (splitAt a s x y) l' ∧ (∀ z, z ∈ l' ↔ z ∈ l ∨ z = y) ∧
      (∀ z, ((splitAt a s x y).item z).next =
        if z = x then y else if z = y then (s.item x).next else (s.item z).next) ∧
      ∀ z, usedAt (splitAt a s x y) z = if z = y then false else usedAt s z := by
  have hlt := hr.lt
  have hheap := hr.heapEnd_eq
  have hbx := h.bounds hx
  have hout : ∀ z ∈ l, z ≠ y := by
    rintro z hz rfl
    exact h.not_mem_inside hx (by omega) (by omega) hz
  have hend : a.add s.memSizeAligned a.sizeofStructMem = s.heapEnd := by
    rw [Arch.add, wadd_eq (by omega), hheap]
  have hitem := splitAt_item (s := s) (x := x) (y := y) (by omega) (by omega) (by omega) hend
  have hfields : (splitAt a s x y).heapEnd = s.heapEnd ∧ (splitAt a s x y).pool = s.pool := by
    simp only [splitAt]
    split
    · exact ⟨rfl, rfl⟩
    · exact ⟨rfl, rfl⟩
  have hnext : ∀ z, ((splitAt a s x y).item z).next =
      if z = x then y else if z = y then (s.item x).next else (s.item z).next := by
    intro z
    rw [hitem]
    split
    · rw [if_neg (by omega), if_neg (by omega)]
    · split
      · rfl
      · split <;> rfl
  have hprev : ∀ z, ((splitAt a s x y).item z).prev =
      if z = (s.item x).next ∧ z ≠ s.heapEnd then y else if z = y then x
      else (s.item z).prev := by
    intro z
    rw [hitem]
    split
    · rfl
    · split
      · rw [if_neg (by omega)]
      · split <;> rfl
  have hpool : ∀ z, ((splitAt a s x y).item z).poolPtr =
      if z = y then memFreed s.pool else (s.item z).poolPtr := by
    intro z
    rw [hitem]
    split
    · rw [if_neg (by omega)]
    · split
      · rw [if_neg (by omega)]
      · split <;> rfl
  have hused : ∀ z, usedAt (splitAt a s x y) z = if z = y then false else usedAt s z := by
    intro z
    rw [usedAt, memIsUsed, hpool]
    split
    · simpa [memIsUsed] using memIsUsed_memFreed s.pool 0 0
    · rfl
  obtain ⟨l', hpath, hmem⟩ := h.path.split (g := fun z => ((splitAt a s x y).item z).next) hx
    hxy hyn (by simp [hnext]) (by rw [hnext, if_neg (by omega), if_pos rfl])
    (fun z hz hzx => by rw [hnext, if_neg hzx, if_neg (hout z hz)])
    (Nat.succ_pos _)
  rw [← hfields.1] at hpath
  refine ⟨l', ⟨hpath, ?_, ?_, ?_, ?_, ?_⟩, hmem, hnext, hused⟩
  · intro z hz hzend
    rw [hfields.1] at hzend
    rw [hnext z] at hzend ⊢
    by_cases hzx : z = x
    · rw [if_pos hzx, hprev, if_neg (by omega), if_pos rfl, hzx]
    · rw [if_neg hzx] at hzend ⊢
      by_cases hzy : z = y
      · rw [if_pos hzy] at hzend ⊢
        rw [hprev, if_pos ⟨rfl, hzend⟩, hzy]
      · rw [if_neg hzy] at hzend ⊢
        have hzl := ((hmem z).mp hz).resolve_right hzy
        have hne : (s.item z).next ≠ (s.item x).next :=
          fun heq => hzx (h.path.next_injective (Nat.succ_pos _) hzl hx heq)
        have hney : (s.item z).next ≠ y :=
          hout _ ((h.path.next_mem hzl).resolve_left hzend)
        rw [hprev, if_neg (by tauto), if_neg hney]
        exact h.prev z hzl hzend
  · rw [hprev, if_neg (by omega), if_neg (by omega)]
    exact h.first
  · intro z hz
    rw [hpool, hfields.2]
    split
    · exact .inr rfl
    · rename_i hzy
      exact h.pool z (((hmem z).mp hz).resolve_right hzy)
  · rw [hpool, hfields.1, hfields.2, if_neg (by omega)]
    exact h.poolEnd
  · intro z hz
    obtain hz | rfl := (hmem z).mp hz
    · exact h.aligned z hz
    · exact hal

theorem usedAt_setPoolPtr (s : State) (x v z : Nat) :
    usedAt (setPoolPtr s x v) z = if z = x then memIsUsed ⟨v, 0, 0⟩ else usedAt s z := by
  rw [usedAt, setPoolPtr, setItem_item]
  split
  · rfl
  · rfl

theorem setPoolPtr_next (s : State) (x v z : Nat) :
    ((setPoolPtr s x v).item z).next = (s.item z).next := by
  rw [setPoolPtr, setItem_item]
  split
  · rename_i hz
    rw [hz]
  · rfl

theorem setPoolPtr_prev (s : State) (x v z : Nat) :
    ((setPoolPtr s x v).item z).prev = (s.item z).prev := by
  rw [setPoolPtr, setItem_item]
  split
  · rename_i hz
    rw [hz]
  · rfl

/-- Marking a block used or free. -/
theorem Shape.mark (h : Shape a s l) {v : Nat} (hx : x ∈ l)
    (hv : v = memUsed s.pool ∨ v = memFreed s.pool) : Shape a (setPoolPtr s x v) l := by
  have hpool : ∀ z, ((setPoolPtr s x v).item z).poolPtr =
      if z = x then v else (s.item z).poolPtr := by
    intro z
    rw [setPoolPtr, setItem_item]
    split <;> rfl
  have hb := h.bounds hx
  constructor
  · exact h.path.congr fun z _ => setPoolPtr_next s x v z
  · intro z hz hzend
    rw [setPoolPtr_next, setPoolPtr_prev]
    rw [setPoolPtr_next] at hzend
    exact h.prev z hz hzend
  · rw [setPoolPtr_prev]
    exact h.first
  · intro z hz
    rw [hpool]
    split
    · exact hv
    · exact h.pool z hz
  · have : (setPoolPtr s x v).heapEnd = s.heapEnd := rfl
    rw [hpool, this, if_neg (by omega)]
    exact h.poolEnd
  · exact h.aligned

/-! ## Closing holes -/

/-- `lfree` is the lowest free block, or `heap_end` when no block is free. -/
structure Lowest (s : State) (l : List Nat) : Prop where
  mem : s.lfree = s.heapEnd ∨ s.lfree ∈ l ∧ usedAt s s.lfree = false
  le : ∀ x ∈ l, usedAt s x = false → s.lfree ≤ x

/-- The heap between two calls. -/
structure Heap (a : Arch) (s : State) (l : List Nat) : Prop where
  shape : Shape a s l
  apart : ∀ x ∈ l, (s.item x).next ≠ s.heapEnd →
    usedAt s x = true ∨ usedAt s (s.item x).next = true
  lowest : Lowest s l

/-- The heap around a block just freed: it may have free neighbours. -/
structure Hole (a : Arch) (s : State) (l : List Nat) (x : Nat) : Prop where
  shape : Shape a s l
  mem : x ∈ l
  free : usedAt s x = false
  apart : ∀ z ∈ l, z ≠ x → (s.item z).next ≠ x → (s.item z).next ≠ s.heapEnd →
    usedAt s z = true ∨ usedAt s (s.item z).next = true
  lowest : Lowest s l

/-- The block at `x` is in use and ends at `n`. -/
def Owns (s : State) (l : List Nat) (x n : Nat) : Prop :=
  x ∈ l ∧ usedAt s x = true ∧ (s.item x).next = n

theorem Lowest.join (h : Lowest s l) (hs : Shape a s l) (hx : x ∈ l) (hfree : usedAt s x = false)
    (hxy : x < y) (hmem : ∀ z, z ∈ l' ↔ z ∈ l ∧ z ≠ y)
    (hused : ∀ z, z ≠ y → usedAt (joinNext s x y) z = usedAt s z) : Lowest (joinNext s x y) l' := by
  have hle := h.le x hx hfree
  have hb := hs.bounds hx
  have hlf : (joinNext s x y).lfree = s.lfree := rfl
  have hne : s.lfree ≠ y := by omega
  constructor
  · right
    obtain hend | ⟨hm, hf⟩ := h.mem
    · omega
    · rw [hlf, hused _ hne]
      exact ⟨(hmem _).mpr ⟨hm, hne⟩, hf⟩
  · intro z hz hzf
    obtain ⟨hzl, hzy⟩ := (hmem z).mp hz
    rw [hused z hzy] at hzf
    exact h.le z hzl hzf

/-- Joining free blocks leaves the blocks in use alone. -/
theorem Owns.join_iff (hfx : usedAt s x = false) (hfy : usedAt s y = false) (hxy : x ≠ y)
    (hmem : ∀ z, z ∈ l' ↔ z ∈ l ∧ z ≠ y) (hnext : ∀ z, ((joinNext s x y).item z).next =
      if z = x then (s.item y).next else (s.item z).next)
    (hused : ∀ z, z ≠ y → usedAt (joinNext s x y) z = usedAt s z) (z n : Nat) :
    Owns (joinNext s x y) l' z n ↔ Owns s l z n := by
  unfold Owns
  rw [hmem, hnext]
  by_cases hzy : z = y
  · subst hzy
    simp [hfy]
  · rw [hused z hzy]
    by_cases hzx : z = x
    · subst hzx
      simp [hfx]
    · simp [hzx, hzy]

theorem plugForward_spec (h : Hole a s l x) :
    ∃ l', Hole a (plugForward s x) l' x ∧
      (((plugForward s x).item x).next = s.heapEnd ∨
        usedAt (plugForward s x) ((plugForward s x).item x).next = true) ∧
      (∀ z n, Owns (plugForward s x) l' z n ↔ Owns s l z n) ∧ ∀ z ∈ l', z ∈ l := by
  have hb := h.shape.bounds h.mem
  unfold plugForward
  dsimp only
  split
  · rename_i hcond
    obtain ⟨_, hfy, hend⟩ := hcond
    have hfy : usedAt s (s.item x).next = false := hfy
    have hle := h.lowest.le x h.mem h.free
    rw [if_neg (by omega)]
    generalize hy : (s.item x).next = y at *
    have hyl : y ∈ l := hy ▸ (h.shape.path.next_mem h.mem).resolve_left (by rw [hy]; exact hend)
    have hby := h.shape.bounds hyl
    obtain ⟨l', hshape, hmem, hnext, hused⟩ := h.shape.join h.mem hy hend
    have hnx : ((joinNext s x y).item x).next = (s.item y).next := by rw [hnext, if_pos rfl]
    refine ⟨l', ⟨hshape, ?_, ?_, ?_, ?_⟩, ?_, ?_, fun z hz => ((hmem z).mp hz).1⟩
    · exact (hmem x).mpr ⟨h.mem, by omega⟩
    · rw [hused x (by omega)]
      exact h.free
    · intro z hz hzx hnzx hzend
      obtain ⟨hzl, hzy⟩ := (hmem z).mp hz
      rw [hnext, if_neg hzx] at hnzx hzend ⊢
      have hney : (s.item z).next ≠ y :=
        fun heq => hzx (h.shape.path.next_injective (Nat.succ_pos _) hzl h.mem (heq.trans hy.symm))
      rw [hused z hzy, hused _ hney]
      exact h.apart z hzl hzx hnzx hzend
    · exact h.lowest.join h.shape h.mem h.free (by omega) hmem hused
    · rw [hnx]
      by_cases hne : (s.item y).next = s.heapEnd
      · exact .inl hne
      · right
        rw [hused _ (by omega)]
        have := h.apart y hyl (by omega) (by omega) hne
        simpa [hfy] using this
    · exact Owns.join_iff h.free hfy (by omega) hmem hnext hused
  · rename_i hcond
    refine ⟨l, h, ?_, fun _ _ => Iff.rfl, fun _ hz => hz⟩
    by_cases hend : (s.item x).next = s.heapEnd
    · exact .inl hend
    · right
      by_contra hfree
      exact hcond ⟨by omega, by simpa [usedAt] using hfree, hend⟩

theorem plugBackward_spec (h : Hole a s l x)
    (hn : (s.item x).next = s.heapEnd ∨ usedAt s (s.item x).next = true) :
    ∃ l', Heap a (plugBackward s x) l' ∧
      ∀ z n, Owns (plugBackward s x) l' z n ↔ Owns s l z n := by
  have hb := h.shape.bounds h.mem
  have hpred := h.shape.prev_cases h.mem
  unfold plugBackward
  dsimp only
  split
  · rename_i hcond
    obtain ⟨hne, hfp⟩ := hcond
    obtain ⟨hp, hpx⟩ := hpred.resolve_left (fun hc => hne hc.1)
    generalize (s.item x).prev = p at *
    have hbp := h.shape.bounds hp
    have hle := h.lowest.le p hp hfp
    rw [if_neg (by omega)]
    obtain ⟨l', hshape, hmem, hnext, hused⟩ := h.shape.join hp hpx (by omega)
    refine ⟨l', ⟨hshape, ?_, ?_⟩, ?_⟩
    · intro z hz hzend
      obtain ⟨hzl, hzx⟩ := (hmem z).mp hz
      rw [hnext] at hzend ⊢
      by_cases hzp : z = p
      · rw [if_pos hzp] at hzend ⊢
        right
        rw [hused _ (by omega)]
        exact hn.resolve_left hzend
      · rw [if_neg hzp] at hzend ⊢
        have hnx : (s.item z).next ≠ x :=
          fun heq => hzp (h.shape.path.next_injective (Nat.succ_pos _) hzl hp (heq.trans hpx.symm))
        rw [hused z hzx, hused _ hnx]
        exact h.apart z hzl hzx hnx hzend
    · exact h.lowest.join h.shape hp hfp (by omega) hmem hused
    · exact Owns.join_iff hfp h.free (by omega) hmem hnext hused
  · rename_i hcond
    refine ⟨l, ⟨h.shape, ?_, h.lowest⟩, fun _ _ => Iff.rfl⟩
    intro z hz hzend
    by_cases hzx : z = x
    · subst hzx
      exact .inr (hn.resolve_left hzend)
    · by_cases hnx : (s.item z).next = x
      · left
        obtain ⟨_, hnone⟩ | ⟨hp, hpx⟩ := hpred
        · exact absurd hnx (hnone z hz)
        · have hzp : z = (s.item x).prev :=
            h.shape.path.next_injective (Nat.succ_pos _) hz hp (hnx.trans hpx.symm)
          by_contra hfree
          refine hcond ⟨by omega, ?_⟩
          rw [← hzp]
          simpa [usedAt] using hfree
      · exact h.apart z hz hzx hnx hzend

theorem plugForward_heapEnd (s : State) (x : Nat) : (plugForward s x).heapEnd = s.heapEnd := by
  simp only [plugForward]
  split <;> rfl

/-- `plug_holes` closes the hole and touches no block in use. -/
theorem plugHoles_spec (h : Hole a s l x) :
    ∃ s' l', plugHoles s x = some s' ∧ Heap a s' l' ∧ ∀ z n, Owns s' l' z n ↔ Owns s l z n := by
  have hb := h.shape.bounds h.mem
  obtain ⟨l₁, h₁, hn, howns₁, -⟩ := plugForward_spec h
  obtain ⟨l₂, h₂, howns₂⟩ := plugBackward_spec h₁ (by rw [plugForward_heapEnd]; exact hn)
  refine ⟨_, l₂, if_pos (by omega), h₂, ?_⟩
  exact fun z n => (howns₂ z n).trans (howns₁ z n)

end RtThread.SmallMem
