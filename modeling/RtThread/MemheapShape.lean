import RtThread.Lib.Blocks
import RtThread.Lib.Ring
import RtThread.Memheap

/-!
# The two lists of the memheap

`Items` is the block list: the items tile the region up to the tail item, linked
in both directions. The free list is a ring around the header item. The header
fields of the two lists are disjoint, so an operation on one list is a frame for
the other.
-/
namespace RtThread.Memheap

open Function (update_apply)

/-- The tail item. -/
def tailItem (c : Config) (s : State) : Nat := s.startAddr + s.poolSize - c.memheapSize

/-- What `rt_memheap_init` relies on: the region is large enough for two headers and inside
the address space, and the heap object is elsewhere. -/
structure Region (c : Config) (s : State) : Prop where
  pool_ge : 2 * c.memheapSize ≤ s.poolSize
  pool_lt : s.poolSize < 2 ^ 32
  le : s.startAddr + s.poolSize ≤ 2 ^ 32
  header : s.freeList < s.startAddr ∨ s.startAddr + s.poolSize ≤ s.freeList
  block : s.blockList = s.startAddr

structure Items (c : Config) (s : State) (l : List Nat) : Prop where
  linked : Blocks.Linked c.memheapSize s.next s.prev s.startAddr (tailItem c s) l
  first : s.prev s.startAddr = tailItem c s
  last : s.next (tailItem c s) = s.startAddr
  magic : ∀ x ∈ l, s.magic x = magicUsed ∨ s.magic x = magicFreed
  magicTail : s.magic (tailItem c s) = magicUsed
  pool : ∀ x ∈ l, s.poolPtr x = s.heap

def FreeRing (s : State) (fl : List Nat) : Prop :=
  Ring.Linked s.nextFree s.prevFree s.freeList fl

theorem memheapSize_ge (c : Config) : 24 ≤ c.memheapSize := by
  have hle := c.align_le
  have hitem : 24 ≤ c.sizeofItem ∧ c.sizeofItem ≤ 28 := by
    unfold Config.sizeofItem
    split <;> omega
  exact Nat.le_trans hitem.1 (le_rtAlign c.align_pos (by omega))

variable {n x y : Nat} {s₁ s₂ : State}

theorem isUsed_of_used {s : State} (h : s.magic x = magicUsed) : isUsed s x = true := by
  rw [isUsed, h]
  decide

theorem isUsed_of_freed {s : State} (h : s.magic x = magicFreed) : isUsed s x = false := by
  rw [isUsed, h]
  decide

theorem isUsed_congr {s s' : State} (h : s'.magic x = s.magic x) : isUsed s' x = isUsed s x := by
  rw [isUsed, isUsed, h]

theorem Items.bounds {c : Config} {s : State} {l : List Nat} (h : Items c s l) (hx : x ∈ l) :
    s.startAddr ≤ x ∧ x + c.memheapSize ≤ s.next x ∧ s.next x ≤ tailItem c s :=
  h.linked.path.bounds hx

theorem Items.apart {c : Config} {s : State} {l : List Nat} (h : Items c s l) (hx : x ∈ l)
    (hy : y ∈ l) : x = y ∨ s.next x ≤ y ∨ s.next y ≤ x :=
  h.linked.path.apart hx hy

theorem Items.used {c : Config} {s : State} {l : List Nat} (h : Items c s l) (hx : x ∈ l)
    (hu : isUsed s x = true) : s.magic x = magicUsed := by
  refine (h.magic x hx).resolve_right ?_
  intro hf
  rw [isUsed_of_freed hf] at hu
  simp at hu

/-- The fields that no call changes. -/
structure Same (s s' : State) : Prop where
  heap : s'.heap = s.heap
  startAddr : s'.startAddr = s.startAddr
  poolSize : s'.poolSize = s.poolSize
  blockList : s'.blockList = s.blockList
  freeList : s'.freeList = s.freeList
  live : s'.live = s.live

theorem Same.refl (s : State) : Same s s := ⟨rfl, rfl, rfl, rfl, rfl, rfl⟩

theorem Same.trans {s : State} (h : Same s s₁) (h' : Same s₁ s₂) : Same s s₂ :=
  ⟨h'.heap.trans h.heap, h'.startAddr.trans h.startAddr, h'.poolSize.trans h.poolSize,
    h'.blockList.trans h.blockList, h'.freeList.trans h.freeList, h'.live.trans h.live⟩

/-- Two states behind the same one. -/
theorem Same.of_same {s : State} (h : Same s s₁) (h' : Same s s₂) : Same s₁ s₂ :=
  ⟨h'.heap.trans h.heap.symm, h'.startAddr.trans h.startAddr.symm,
    h'.poolSize.trans h.poolSize.symm, h'.blockList.trans h.blockList.symm,
    h'.freeList.trans h.freeList.symm, h'.live.trans h.live.symm⟩

theorem Same.tailItem {c : Config} {s s' : State} (h : Same s s') :
    tailItem c s' = tailItem c s := by
  rw [Memheap.tailItem, Memheap.tailItem, h.startAddr, h.poolSize]

theorem Same.region {c : Config} {s s' : State} (h : Same s s') (hr : Region c s) :
    Region c s' := by
  constructor
  · rw [h.poolSize]
    exact hr.pool_ge
  · rw [h.poolSize]
    exact hr.pool_lt
  · rw [h.startAddr, h.poolSize]
    exact hr.le
  · rw [h.freeList, h.startAddr, h.poolSize]
    exact hr.header
  · rw [h.blockList, h.startAddr]
    exact hr.block

theorem setMagic_same (s : State) (x v : Nat) : Same s (setMagic s x v) :=
  ⟨rfl, rfl, rfl, rfl, rfl, rfl⟩
theorem setPoolPtr_same (s : State) (x v : Nat) : Same s (setPoolPtr s x v) :=
  ⟨rfl, rfl, rfl, rfl, rfl, rfl⟩
theorem setNext_same (s : State) (x v : Nat) : Same s (setNext s x v) :=
  ⟨rfl, rfl, rfl, rfl, rfl, rfl⟩
theorem setPrev_same (s : State) (x v : Nat) : Same s (setPrev s x v) :=
  ⟨rfl, rfl, rfl, rfl, rfl, rfl⟩
theorem setNextFree_same (s : State) (x v : Nat) : Same s (setNextFree s x v) :=
  ⟨rfl, rfl, rfl, rfl, rfl, rfl⟩
theorem setPrevFree_same (s : State) (x v : Nat) : Same s (setPrevFree s x v) :=
  ⟨rfl, rfl, rfl, rfl, rfl, rfl⟩

theorem account_same (s : State) (a m : Nat) :
    Same s { s with availableSize := a, maxUsedSize := m } :=
  ⟨rfl, rfl, rfl, rfl, rfl, rfl⟩

theorem newItem_same (s : State) (x y : Nat) : Same s (newItem s x y) :=
  (setMagic_same _ _ _).trans <| (setPoolPtr_same _ _ _).trans <| (setPrev_same _ _ _).trans <|
    (setNext_same _ _ _).trans <| (setPrev_same _ _ _).trans (setNext_same _ _ _)

theorem mergeNext_same (s : State) (x y : Nat) : Same s (mergeNext s x y) :=
  (setPrev_same _ _ _).trans (setNext_same _ _ _)

/-- Nothing but the free list changed. -/
structure ItemFrame (s s' : State) : Prop where
  next : s'.next = s.next
  prev : s'.prev = s.prev
  magic : s'.magic = s.magic
  poolPtr : s'.poolPtr = s.poolPtr
  availableSize : s'.availableSize = s.availableSize
  maxUsedSize : s'.maxUsedSize = s.maxUsedSize

/-- Nothing but the block list and the magic words changed. -/
structure FreeFrame (s s' : State) : Prop where
  nextFree : s'.nextFree = s.nextFree
  prevFree : s'.prevFree = s.prevFree
  availableSize : s'.availableSize = s.availableSize
  maxUsedSize : s'.maxUsedSize = s.maxUsedSize

theorem ItemFrame.trans {s : State} (h : ItemFrame s s₁) (h' : ItemFrame s₁ s₂) : ItemFrame s s₂ :=
  ⟨h'.next.trans h.next, h'.prev.trans h.prev, h'.magic.trans h.magic,
    h'.poolPtr.trans h.poolPtr, h'.availableSize.trans h.availableSize,
    h'.maxUsedSize.trans h.maxUsedSize⟩

theorem FreeFrame.trans {s : State} (h : FreeFrame s s₁) (h' : FreeFrame s₁ s₂) : FreeFrame s s₂ :=
  ⟨h'.nextFree.trans h.nextFree, h'.prevFree.trans h.prevFree,
    h'.availableSize.trans h.availableSize, h'.maxUsedSize.trans h.maxUsedSize⟩

theorem ItemFrame.isUsed {s s' : State} (h : ItemFrame s s') (x : Nat) :
    isUsed s' x = isUsed s x := isUsed_congr (by rw [h.magic])

section

variable (s : State)

theorem setNextFree_frame (x v : Nat) : ItemFrame s (setNextFree s x v) :=
  ⟨rfl, rfl, rfl, rfl, rfl, rfl⟩
theorem setPrevFree_frame (x v : Nat) : ItemFrame s (setPrevFree s x v) :=
  ⟨rfl, rfl, rfl, rfl, rfl, rfl⟩
theorem setMagic_frame (x v : Nat) : FreeFrame s (setMagic s x v) :=
  ⟨rfl, rfl, rfl, rfl⟩
theorem setPoolPtr_frame (x v : Nat) : FreeFrame s (setPoolPtr s x v) :=
  ⟨rfl, rfl, rfl, rfl⟩
theorem setNext_frame (x v : Nat) : FreeFrame s (setNext s x v) :=
  ⟨rfl, rfl, rfl, rfl⟩
theorem setPrev_frame (x v : Nat) : FreeFrame s (setPrev s x v) :=
  ⟨rfl, rfl, rfl, rfl⟩

theorem newItem_frame (x y : Nat) : FreeFrame s (newItem s x y) :=
  (setMagic_frame _ _ _).trans <| (setPoolPtr_frame _ _ _).trans <| (setPrev_frame _ _ _).trans <|
    (setNext_frame _ _ _).trans <| (setPrev_frame _ _ _).trans (setNext_frame _ _ _)

theorem mergeNext_frame (x y : Nat) : FreeFrame s (mergeNext s x y) :=
  (setPrev_frame _ _ _).trans (setNext_frame _ _ _)

theorem removeFree_frame (x : Nat) : ItemFrame s (removeFree s x) :=
  (setPrevFree_frame _ _ _).trans (setNextFree_frame _ _ _)

theorem removeFree_same (x : Nat) : Same s (removeFree s x) :=
  (setPrevFree_same _ _ _).trans (setNextFree_same _ _ _)

theorem detachFree_frame (x : Nat) : ItemFrame s (detachFree s x) :=
  (removeFree_frame _ _).trans <| (setNextFree_frame _ _ _).trans (setPrevFree_frame _ _ _)

theorem detachFree_same (x : Nat) : Same s (detachFree s x) :=
  (removeFree_same _ _).trans <| (setNextFree_same _ _ _).trans (setPrevFree_same _ _ _)

theorem insertFree_frame (x : Nat) : ItemFrame s (insertFree s x) :=
  (setNextFree_frame _ _ _).trans <| (setPrevFree_frame _ _ _).trans <|
    (setPrevFree_frame _ _ _).trans (setNextFree_frame _ _ _)

theorem insertFree_same (x : Nat) : Same s (insertFree s x) :=
  (setNextFree_same _ _ _).trans <| (setPrevFree_same _ _ _).trans <|
    (setPrevFree_same _ _ _).trans (setNextFree_same _ _ _)

theorem insertFreeBefore_frame (n x : Nat) : ItemFrame s (insertFreeBefore s n x) :=
  (setNextFree_frame _ _ _).trans <| (setPrevFree_frame _ _ _).trans <|
    (setNextFree_frame _ _ _).trans (setPrevFree_frame _ _ _)

theorem insertFreeBefore_same (n x : Nat) : Same s (insertFreeBefore s n x) :=
  (setNextFree_same _ _ _).trans <| (setPrevFree_same _ _ _).trans <|
    (setNextFree_same _ _ _).trans (setPrevFree_same _ _ _)

end

/-- `Items` reads the block list, the magic words and the constants. -/
theorem Items.congr {c : Config} {s s' : State} {l : List Nat} (h : Items c s l)
    (hs : Same s s') (hn : s'.next = s.next) (hp : s'.prev = s.prev) (hm : s'.magic = s.magic)
    (ho : s'.poolPtr = s.poolPtr) : Items c s' l := by
  have ht := hs.tailItem (c := c)
  constructor
  · rw [hn, hp, hs.startAddr, ht]
    exact h.linked
  · rw [hp, hs.startAddr, ht]
    exact h.first
  · rw [hn, hs.startAddr, ht]
    exact h.last
  · rw [hm]
    exact h.magic
  · rw [hm, ht]
    exact h.magicTail
  · rw [ho, hs.heap]
    exact h.pool

theorem FreeRing.congr {s s' : State} {fl : List Nat} (h : FreeRing s fl)
    (hn : s'.nextFree = s.nextFree) (hp : s'.prevFree = s.prevFree)
    (hl : s'.freeList = s.freeList) : FreeRing s' fl := by
  rw [FreeRing, hn, hp, hl]
  exact h

theorem Items.frame {c : Config} {s s' : State} {l : List Nat} (h : Items c s l)
    (hs : Same s s') (hf : ItemFrame s s') : Items c s' l :=
  h.congr hs hf.next hf.prev hf.magic hf.poolPtr

theorem FreeRing.frame {s s' : State} {fl : List Nat} (h : FreeRing s fl) (hs : Same s s')
    (hf : FreeFrame s s') : FreeRing s' fl :=
  h.congr hf.nextFree hf.prevFree hs.freeList

/-! ## A new item -/

theorem newItem_next (s : State) (x y z : Nat) :
    (newItem s x y).next z = if z = x then y else if z = y then s.next x else s.next z := by
  simp only [newItem, setNext, setPrev, setPoolPtr, setMagic, update_apply]

theorem newItem_prev {s : State} (hxy : x ≠ y) (z : Nat) :
    (newItem s x y).prev z = if z = s.next x then y else if z = y then x else s.prev z := by
  simp only [newItem, setNext, setPrev, setPoolPtr, setMagic, update_apply, hxy,
    ↓reduceIte]

theorem newItem_magic (s : State) (x y z : Nat) :
    (newItem s x y).magic z = if z = y then magicFreed else s.magic z := by
  simp only [newItem, setNext, setPrev, setPoolPtr, setMagic, update_apply]

theorem newItem_poolPtr (s : State) (x y z : Nat) :
    (newItem s x y).poolPtr z = if z = y then s.heap else s.poolPtr z := by
  simp only [newItem, setNext, setPrev, setPoolPtr, setMagic, update_apply]

theorem newItem_isUsed (s : State) (x y z : Nat) :
    isUsed (newItem s x y) z = if z = y then false else isUsed s z := by
  split
  · rename_i hz
    exact isUsed_of_freed (by rw [newItem_magic, if_pos hz])
  · rename_i hz
    exact isUsed_congr (by rw [newItem_magic, if_neg hz])

theorem Items.newItem {c : Config} {s : State} {l : List Nat} (h : Items c s l) (hx : x ∈ l)
    (hxy : x + c.memheapSize ≤ y) (hyn : y + c.memheapSize ≤ s.next x) :
    ∃ l', Items c (newItem s x y) l' ∧ ∀ z, z ∈ l' ↔ z ∈ l ∨ z = y := by
  have hsize := memheapSize_ge c
  have hb := h.bounds hx
  have hne : x ≠ y := by omega
  have hnx : (Memheap.newItem s x y).next x = y := by rw [newItem_next, if_pos rfl]
  have hny : (Memheap.newItem s x y).next y = s.next x := by
    rw [newItem_next, if_neg hne.symm, if_pos rfl]
  have hno : ∀ z, z ≠ x → z ≠ y → (Memheap.newItem s x y).next z = s.next z :=
    fun z hzx hzy => by rw [newItem_next, if_neg hzx, if_neg hzy]
  have hpy : (Memheap.newItem s x y).prev y = x := by
    rw [newItem_prev hne, if_neg (by omega), if_pos rfl]
  have hpn : (Memheap.newItem s x y).prev (s.next x) = y := by rw [newItem_prev hne, if_pos rfl]
  have hpo : ∀ z, z ≠ y → z ≠ s.next x → (Memheap.newItem s x y).prev z = s.prev z :=
    fun z hzy hzn => by rw [newItem_prev hne, if_neg hzn, if_neg hzy]
  obtain ⟨l', hlinked, hmem⟩ :=
    h.linked.split hx hxy hyn (by omega) hnx hny hno hpy hpn hpo
  have hsame := newItem_same s x y
  have htail := hsame.tailItem (c := c)
  refine ⟨l', ⟨by rw [hsame.startAddr, htail]; exact hlinked, ?_, ?_, ?_, ?_, ?_⟩, hmem⟩
  · rw [hsame.startAddr, hpo _ (by omega) (by omega), htail]
    exact h.first
  · rw [htail, hsame.startAddr, hno _ (by omega) (by omega)]
    exact h.last
  · intro z hz
    rw [newItem_magic]
    split
    · exact .inr rfl
    · rename_i hzy
      exact h.magic z (((hmem z).mp hz).resolve_right hzy)
  · rw [htail, newItem_magic, if_neg (by omega)]
    exact h.magicTail
  · intro z hz
    rw [newItem_poolPtr, hsame.heap]
    split
    · rfl
    · rename_i hzy
      exact h.pool z (((hmem z).mp hz).resolve_right hzy)

/-! ## Joining two items -/

theorem mergeNext_next (s : State) (x y z : Nat) :
    (mergeNext s x y).next z = if z = x then s.next y else s.next z := by
  simp only [mergeNext, setNext, setPrev, update_apply]

theorem mergeNext_prev (s : State) (x y z : Nat) :
    (mergeNext s x y).prev z = if z = s.next y then x else s.prev z := by
  simp only [mergeNext, setNext, setPrev, update_apply]

theorem Items.mergeNext {c : Config} {s : State} {l : List Nat} (h : Items c s l) (hx : x ∈ l)
    (hxy : s.next x = y) (hy : y ≠ tailItem c s) :
    ∃ l', Items c (mergeNext s x y) l' ∧ ∀ z, z ∈ l' ↔ z ∈ l ∧ z ≠ y := by
  have hsize := memheapSize_ge c
  have hyl : y ∈ l := hxy ▸ (h.linked.path.next_mem hx).resolve_left (by rw [hxy]; exact hy)
  have hbx := h.bounds hx
  have hby := h.bounds hyl
  have hnx : (Memheap.mergeNext s x y).next x = s.next y := by rw [mergeNext_next, if_pos rfl]
  have hno : ∀ z, z ≠ x → (Memheap.mergeNext s x y).next z = s.next z :=
    fun z hzx => by rw [mergeNext_next, if_neg hzx]
  have hpn : (Memheap.mergeNext s x y).prev (s.next y) = x := by rw [mergeNext_prev, if_pos rfl]
  have hpo : ∀ z, z ≠ s.next y → (Memheap.mergeNext s x y).prev z = s.prev z :=
    fun z hzn => by rw [mergeNext_prev, if_neg hzn]
  obtain ⟨l', hlinked, hmem⟩ := h.linked.merge hx hxy hy (by omega) hnx hno hpn hpo
  have hsame := mergeNext_same s x y
  have htail := hsame.tailItem (c := c)
  refine ⟨l', ⟨by rw [hsame.startAddr, htail]; exact hlinked, ?_, ?_, ?_, ?_, ?_⟩, hmem⟩
  · rw [hsame.startAddr, hpo _ (by omega), htail]
    exact h.first
  · rw [htail, hsame.startAddr, hno _ (by omega)]
    exact h.last
  · exact fun z hz => h.magic z ((hmem z).mp hz).1
  · exact h.magicTail
  · exact fun z hz => h.pool z ((hmem z).mp hz).1

theorem setMagic_magic (s : State) (x v z : Nat) :
    (setMagic s x v).magic z = if z = x then v else s.magic z := by
  simp only [setMagic, update_apply]

theorem Items.setMagic {c : Config} {s : State} {l : List Nat} (h : Items c s l) {v : Nat}
    (hx : x ∈ l) (hv : v = magicUsed ∨ v = magicFreed) : Items c (setMagic s x v) l := by
  have hsize := memheapSize_ge c
  have hb := h.bounds hx
  have hsame := setMagic_same s x v
  have htail := hsame.tailItem (c := c)
  refine ⟨by rw [hsame.startAddr, htail]; exact h.linked, ?_, ?_, ?_, ?_, h.pool⟩
  · exact h.first
  · exact h.last
  · intro z hz
    rw [setMagic_magic]
    split
    · exact hv
    · exact h.magic z hz
  · rw [htail, setMagic_magic, if_neg (by omega)]
    exact h.magicTail

theorem setMagic_isUsed (s : State) (x z : Nat) :
    isUsed (setMagic s x magicUsed) z = if z = x then true else isUsed s z := by
  by_cases hz : z = x
  · rw [if_pos hz]
    exact isUsed_of_used (by simp [setMagic, hz])
  · rw [if_neg hz]
    exact isUsed_congr (by simp [setMagic, hz])

theorem setMagic_isFreed (s : State) (x z : Nat) :
    isUsed (setMagic s x magicFreed) z = if z = x then false else isUsed s z := by
  by_cases hz : z = x
  · rw [if_pos hz]
    exact isUsed_of_freed (by simp [setMagic, hz])
  · rw [if_neg hz]
    exact isUsed_congr (by simp [setMagic, hz])

/-! ## The free list -/

theorem FreeRing.remove {s : State} {fl : List Nat} (h : FreeRing s fl) (hx : x ∈ fl) :
    ∃ fl', FreeRing (removeFree s x) fl' ∧ fl.Perm (x :: fl') := by
  have hne : x ≠ s.nextFree x := (h.next_ne hx).symm
  refine Ring.Linked.remove h hx ?_ ?_ ?_ ?_
  · simp [removeFree, setPrevFree, setNextFree, hne]
  · intro z hz
    simp [removeFree, setPrevFree, setNextFree, hne, hz]
  · simp [removeFree, setPrevFree, setNextFree]
  · intro z hz
    simp [removeFree, setPrevFree, setNextFree, hz]

theorem FreeRing.detach {s : State} {fl : List Nat} (h : FreeRing s fl) (hx : x ∈ fl) :
    ∃ fl', FreeRing (detachFree s x) fl' ∧ fl.Perm (x :: fl') := by
  obtain ⟨fl', hring, hperm⟩ := h.remove hx
  refine ⟨fl', ?_, hperm⟩
  have hout : ∀ z ∈ s.freeList :: fl', z ≠ x := by
    have hnd := ((hperm.cons s.freeList).trans (List.Perm.swap x s.freeList fl')).nodup_iff.mp
      h.nodup
    rintro z hz rfl
    exact (List.nodup_cons.mp hnd).1 hz
  refine Ring.Linked.congr hring ?_ ?_
  · intro z hz
    simp [detachFree, setPrevFree, setNextFree, hout z hz]
  · intro z hz
    simp [detachFree, setPrevFree, setNextFree, hout z hz]

theorem FreeRing.insert {s : State} {fl : List Nat} (h : FreeRing s fl)
    (hy : y ∉ s.freeList :: fl) : ∃ fl', FreeRing (insertFree s y) fl' ∧ fl'.Perm (y :: fl) := by
  have hne : s.freeList ≠ y := fun heq => hy (heq ▸ List.mem_cons_self)
  have hnext : y ≠ s.nextFree s.freeList :=
    fun heq => hy (heq ▸ h.next_mem List.mem_cons_self)
  refine Ring.Linked.insert h (p := s.freeList) List.mem_cons_self hy ?_ ?_ ?_ ?_ ?_ ?_
  · simp [insertFree, setPrevFree, setNextFree, hne.symm]
  · simp [insertFree, setPrevFree, setNextFree]
  · intro z hzh hzy
    simp [insertFree, setPrevFree, setNextFree, hzh, hzy]
  · simp [insertFree, setPrevFree, setNextFree, hne, hnext]
  · simp [insertFree, setPrevFree, setNextFree, hne]
  · intro z hzn hzy
    simp [insertFree, setPrevFree, setNextFree, hne, hzn, hzy]

theorem FreeRing.insertBefore {s : State} {fl : List Nat} (h : FreeRing s fl)
    (hn : n ∈ s.freeList :: fl) (hy : y ∉ s.freeList :: fl) :
    ∃ fl', FreeRing (insertFreeBefore s n y) fl' ∧ fl'.Perm (y :: fl) := by
  obtain ⟨hp, hpn⟩ := Ring.Linked.prev_mem h hn
  have hny : n ≠ y := fun heq => hy (heq ▸ hn)
  have hpy : y ≠ s.prevFree n := fun heq => hy (heq ▸ hp)
  refine Ring.Linked.insert h (p := s.prevFree n) hp hy ?_ ?_ ?_ ?_ ?_ ?_
  · rw [hpn]
    simp [insertFreeBefore, setPrevFree, setNextFree, hny, hpy]
  · simp [insertFreeBefore, setPrevFree, setNextFree, hny]
  · intro z hzp hzy
    simp [insertFreeBefore, setPrevFree, setNextFree, hny, hzp, hzy]
  · simp [insertFreeBefore, setPrevFree, setNextFree, hny.symm]
  · rw [hpn]
    simp [insertFreeBefore, setPrevFree, setNextFree]
  · rw [hpn]
    intro z hzn hzy
    simp [insertFreeBefore, setPrevFree, setNextFree, hzn, hzy]

/-! ## The two lists together -/

/-- Both lists in the middle of a call: the free list holds the free items but those in
`out`, which are to be put into it, or joined with another item, or handed out. -/
structure Lists (c : Config) (s : State) (l fl out : List Nat) : Prop where
  items : Items c s l
  ring : FreeRing s fl
  free : ∀ x, x ∈ fl ↔ x ∈ l ∧ isUsed s x = false ∧ x ∉ out

/-- The header item of the free list is no item of the region. -/
theorem Items.ne_freeList {c : Config} {s : State} {l : List Nat} (hr : Region c s)
    (h : Items c s l) (hx : x ∈ l) : x ≠ s.freeList := by
  have hb := h.bounds hx
  have hsize := memheapSize_ge c
  have hh := hr.header
  rw [tailItem] at hb
  omega

/-- No item begins inside another one. -/
theorem Items.not_mem_inside {c : Config} {s : State} {l : List Nat} (h : Items c s l)
    (hx : x ∈ l) (hxy : x < y) (hyn : y < s.next x) : y ∉ l := by
  intro hy
  have hb := h.bounds hy
  obtain heq | hle | hle := h.apart hx hy <;> omega

theorem Items.next_ne_inside {c : Config} {s : State} {l : List Nat} (h : Items c s l) {z : Nat}
    (hx : x ∈ l) (hz : z ∈ l) (hxy : x < y) (hyn : y < s.next x) : s.next z ≠ y := by
  rintro rfl
  have hb := h.bounds hx
  obtain he | hm := h.linked.path.next_mem hz
  · omega
  · exact h.not_mem_inside hx hxy hyn hm

section

variable {c : Config} {s s' : State} {l : List Nat}

/-- Every item has at least `gap` bytes behind its header and is at a good address. -/
def Tiled (c : Config) (gap : Nat) (good : Nat → Prop) (s : State) : Prop :=
  ∃ l, Blocks.Path (c.memheapSize + gap) s.next s.startAddr (tailItem c s) l ∧ ∀ x ∈ l, good x

section tiled

variable {gap : Nat} {good : Nat → Prop}

theorem Tiled.path (hm : Tiled c gap good s) (h : Items c s l) :
    Blocks.Path (c.memheapSize + gap) s.next s.startAddr (tailItem c s) l ∧ ∀ x ∈ l, good x := by
  have hsize := memheapSize_ge c
  obtain ⟨l', hpath, hgood⟩ := hm
  obtain rfl : l' = l := hpath.unique h.linked.path (by omega) (by omega)
  exact ⟨hpath, hgood⟩

theorem Tiled.congr (hm : Tiled c gap good s) (hsame : Same s s') (hn : s'.next = s.next) :
    Tiled c gap good s' := by
  obtain ⟨l, hpath, hgood⟩ := hm
  refine ⟨l, ?_, hgood⟩
  rw [hn, hsame.startAddr, hsame.tailItem]
  exact hpath

theorem Tiled.newItem (h : Items c s l) (hm : Tiled c gap good s) (hx : x ∈ l)
    (hxy : x + c.memheapSize + gap ≤ y) (hyn : y + c.memheapSize + gap ≤ s.next x) (hy : good y)
    (hsame : Same s s') (hn : s'.next = (newItem s x y).next) : Tiled c gap good s' := by
  have hsize := memheapSize_ge c
  obtain ⟨hold, hgood⟩ := hm.path h
  have hout : ∀ z ∈ l, z ≠ y := by
    rintro z hz rfl
    exact h.not_mem_inside hx (by omega) (by omega) hz
  obtain ⟨l', hpath, hmem⟩ := hold.split (y := y) (g := (Memheap.newItem s x y).next) hx
    (by omega) (by omega) (by rw [newItem_next, if_pos rfl])
    (by rw [newItem_next, if_neg (by omega), if_pos rfl])
    (fun z hz hzx => by rw [newItem_next, if_neg hzx, if_neg (hout z hz)]) (by omega)
  refine ⟨l', ?_, fun z hz => ?_⟩
  · rw [hn, hsame.startAddr, hsame.tailItem]
    exact hpath
  · obtain hzl | rfl := (hmem z).mp hz
    · exact hgood z hzl
    · exact hy

theorem Tiled.mergeNext (h : Items c s l) (hm : Tiled c gap good s) (hx : x ∈ l)
    (hxy : s.next x = y) (hy : y ≠ tailItem c s) (hsame : Same s s')
    (hn : s'.next = (mergeNext s x y).next) : Tiled c gap good s' := by
  have hsize := memheapSize_ge c
  obtain ⟨hold, hgood⟩ := hm.path h
  obtain ⟨l', hpath, hmem⟩ := hold.merge (g := (Memheap.mergeNext s x y).next) hx hxy hy
    (by rw [mergeNext_next, if_pos rfl]) (fun z _ hzx => by rw [mergeNext_next, if_neg hzx])
    (by omega)
  refine ⟨l', ?_, fun z hz => hgood z ((hmem z).mp hz).1⟩
  rw [hn, hsame.startAddr, hsame.tailItem]
  exact hpath

end tiled

/-- Every item has at least `RT_MEMHEAP_MINIALLOC` bytes behind its header. -/
def Spaced (c : Config) (s : State) : Prop :=
  ∃ l, Blocks.Path (c.memheapSize + minialloc) s.next s.startAddr (tailItem c s) l

theorem spaced_iff : Spaced c s ↔ Tiled c minialloc (fun _ => True) s := by
  simp [Spaced, Tiled]

theorem Spaced.path (hm : Spaced c s) (h : Items c s l) :
    Blocks.Path (c.memheapSize + minialloc) s.next s.startAddr (tailItem c s) l :=
  (Tiled.path (spaced_iff.mp hm) h).1

end

variable {fl' : List Nat}

/-- Members of the free list with one item taken out. -/
theorem mem_of_perm_cons {fl : List Nat} (hperm : fl.Perm (x :: fl')) (hnd : fl.Nodup) (z : Nat) :
    z ∈ fl' ↔ z ∈ fl ∧ z ≠ x := by
  have hnd' := hperm.nodup_iff.mp hnd
  rw [hperm.mem_iff, List.mem_cons]
  constructor
  · intro hz
    refine ⟨.inr hz, ?_⟩
    rintro rfl
    exact (List.nodup_cons.mp hnd').1 hz
  · rintro ⟨rfl | hz, hne⟩
    · exact absurd rfl hne
    · exact hz

variable {c : Config} {s s' : State} {l fl out out' : List Nat}

theorem Lists.nodup (h : Lists c s l fl out) : fl.Nodup := (List.nodup_cons.mp h.ring.nodup).2

theorem Lists.congr_out (h : Lists c s l fl out) (ho : ∀ z, z ∈ out ↔ z ∈ out') :
    Lists c s l fl out' := by
  refine ⟨h.items, h.ring, ?_⟩
  intro z
  rw [h.free, ho]

/-- The accounts do not matter. -/
theorem Lists.account (h : Lists c s l fl out) (a m : Nat) :
    Lists c { s with availableSize := a, maxUsedSize := m } l fl out :=
  ⟨h.items.congr (account_same s a m) rfl rfl rfl rfl, h.ring.congr rfl rfl rfl, h.free⟩

/-- An item is cut at `y`. -/
theorem Lists.newItem (h : Lists c s l fl out) (hx : x ∈ l) (hxy : x + c.memheapSize ≤ y)
    (hyn : y + c.memheapSize ≤ s.next x) :
    ∃ l', Lists c (newItem s x y) l' fl (y :: out) ∧ ∀ z, z ∈ l' ↔ z ∈ l ∨ z = y := by
  have hsize := memheapSize_ge c
  have hyl := h.items.not_mem_inside hx (y := y) (by omega) (by omega)
  obtain ⟨l', hitems, hmem⟩ := h.items.newItem hx hxy hyn
  refine ⟨l', ⟨hitems, h.ring.frame (newItem_same s x y) (newItem_frame s x y), ?_⟩, hmem⟩
  intro z
  rw [h.free, hmem, newItem_isUsed]
  by_cases hzy : z = y
  · simp [hzy, hyl]
  · simp [hzy]

/-- A free item leaves the list. -/
theorem Lists.detach (h : Lists c s l fl out) (hx : x ∈ fl) :
    ∃ fl', Lists c (detachFree s x) l fl' (x :: out) ∧ fl.Perm (x :: fl') := by
  obtain ⟨fl', hring, hperm⟩ := h.ring.detach hx
  have hframe := detachFree_frame s x
  refine ⟨fl', ⟨h.items.frame (detachFree_same s x) hframe, hring, ?_⟩, hperm⟩
  intro z
  rw [mem_of_perm_cons hperm h.nodup, h.free, hframe.isUsed, List.mem_cons]
  tauto

/-- An item is marked as used. -/
theorem Lists.setUsed (h : Lists c s l fl (x :: out)) (hx : x ∈ l) :
    Lists c (setMagic s x magicUsed) l fl out := by
  refine ⟨h.items.setMagic hx (.inl rfl), h.ring.frame (setMagic_same _ _ _)
    (setMagic_frame _ _ _), ?_⟩
  intro z
  rw [h.free, setMagic_isUsed]
  by_cases hzx : z = x <;> simp [hzx]

/-- A used item is marked as free. -/
theorem Lists.setFreed (h : Lists c s l fl out) (hx : x ∈ l) (hu : isUsed s x = true) :
    Lists c (setMagic s x magicFreed) l fl (x :: out) := by
  refine ⟨h.items.setMagic hx (.inr rfl), h.ring.frame (setMagic_same _ _ _)
    (setMagic_frame _ _ _), ?_⟩
  intro z
  rw [h.free, setMagic_isFreed]
  by_cases hzx : z = x
  · simp [hzx, hu]
  · simp [hzx]

/-- An item that is to be put into the free list is not in it. -/
theorem Lists.not_mem (hr : Region c s) (h : Lists c s l fl (y :: out)) (hy : y ∈ l) :
    y ∉ s.freeList :: fl := by
  rw [List.mem_cons, not_or]
  refine ⟨h.items.ne_freeList hr hy, ?_⟩
  intro hfl
  exact ((h.free y).mp hfl).2.2 List.mem_cons_self

theorem Lists.mem_insert (h : Lists c s l fl (y :: out)) (hy : y ∈ l) (hf : isUsed s y = false)
    (ho : y ∉ out) (hperm : fl'.Perm (y :: fl)) (z : Nat) :
    z ∈ fl' ↔ z ∈ l ∧ isUsed s z = false ∧ z ∉ out := by
  rw [hperm.mem_iff, List.mem_cons, h.free]
  by_cases hzy : z = y
  · simp [hzy, hy, hf, ho]
  · simp [hzy]

/-- A free item is put into the free list, behind the head. -/
theorem Lists.insert (hr : Region c s) (h : Lists c s l fl (y :: out)) (hy : y ∈ l)
    (hf : isUsed s y = false) (ho : y ∉ out) :
    ∃ fl', Lists c (insertFree s y) l fl' out ∧ fl'.Perm (y :: fl) := by
  obtain ⟨fl', hring, hperm⟩ := h.ring.insert (h.not_mem hr hy)
  have hframe := insertFree_frame s y
  refine ⟨fl', ⟨h.items.frame (insertFree_same s y) hframe, hring, ?_⟩, hperm⟩
  intro z
  rw [hframe.isUsed, h.mem_insert hy hf ho hperm]

/-- A free item is put into the free list, in front of `n`. -/
theorem Lists.insertBefore (hr : Region c s) (h : Lists c s l fl (y :: out))
    (hn : n ∈ s.freeList :: fl) (hy : y ∈ l) (hf : isUsed s y = false) (ho : y ∉ out) :
    ∃ fl', Lists c (insertFreeBefore s n y) l fl' out ∧ fl'.Perm (y :: fl) := by
  obtain ⟨fl', hring, hperm⟩ := h.ring.insertBefore hn (h.not_mem hr hy)
  have hframe := insertFreeBefore_frame s n y
  refine ⟨fl', ⟨h.items.frame (insertFreeBefore_same s n y) hframe, hring, ?_⟩, hperm⟩
  intro z
  rw [hframe.isUsed, h.mem_insert hy hf ho hperm]

/-- A free item behind an item is an item of the list. -/
theorem Items.next_free (h : Items c s l) (hx : x ∈ l) (hf : isUsed s (s.next x) = false) :
    s.next x ∈ l ∧ s.next x ≠ tailItem c s := by
  have hne : s.next x ≠ tailItem c s := by
    intro heq
    rw [heq, isUsed_of_used h.magicTail] at hf
    simp at hf
  exact ⟨(h.linked.path.next_mem hx).resolve_left hne, hne⟩

/-- The free item `y` behind `x` becomes part of it. -/
theorem Lists.absorb (h : Lists c s l fl out) (hx : x ∈ l) (hxy : s.next x = y)
    (hf : isUsed s y = false) (ho : y ∉ out) :
    ∃ l' fl', Lists c (removeFree (mergeNext s x y) y) l' fl' out ∧ fl.Perm (y :: fl') ∧
      ∀ z, z ∈ l' ↔ z ∈ l ∧ z ≠ y := by
  obtain ⟨hy, hyt⟩ := h.items.next_free hx (by rwa [hxy])
  rw [hxy] at hy hyt
  obtain ⟨l', hitems, hmem⟩ := h.items.mergeNext hx hxy hyt
  have hring := h.ring.frame (mergeNext_same s x y) (mergeNext_frame s x y)
  obtain ⟨fl', hring', hperm⟩ := hring.remove ((h.free y).mpr ⟨hy, hf, ho⟩)
  have hframe := removeFree_frame (Memheap.mergeNext s x y) y
  refine ⟨l', fl', ⟨hitems.frame (removeFree_same _ y) hframe, hring', ?_⟩, hperm, hmem⟩
  intro z
  have hu : isUsed (removeFree (Memheap.mergeNext s x y) y) z = isUsed s z := hframe.isUsed z
  rw [mem_of_perm_cons hperm h.nodup, h.free, hmem, hu]
  tauto

/-- A free item outside the free list becomes part of the item before it. -/
theorem Lists.join (h : Lists c s l fl (y :: out)) (hx : x ∈ l) (hxy : s.next x = y)
    (hf : isUsed s y = false) :
    ∃ l', Lists c (mergeNext s x y) l' fl out ∧ ∀ z, z ∈ l' ↔ z ∈ l ∧ z ≠ y := by
  obtain ⟨hy, hyt⟩ := h.items.next_free hx (by rwa [hxy])
  rw [hxy] at hy hyt
  obtain ⟨l', hitems, hmem⟩ := h.items.mergeNext hx hxy hyt
  refine ⟨l', ⟨hitems, h.ring.frame (mergeNext_same s x y) (mergeNext_frame s x y), ?_⟩, hmem⟩
  intro z
  have hu : isUsed (Memheap.mergeNext s x y) z = isUsed s z := isUsed_congr rfl
  rw [h.free, hmem, hu, List.mem_cons]
  tauto

end RtThread.Memheap
