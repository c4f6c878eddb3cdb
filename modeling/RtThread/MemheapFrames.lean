import RtThread.MemheapContents

/-!
# One heap beside the others

The memory is shared. A call writes headers of its own heap only, and what holds of a heap depends
on its own headers only, so the other heaps stay as they are.
-/
namespace RtThread.Memheap

variable {c : Config} {s s' : State} {l fl : List Nat}

/-! ## A heap that is not called -/

/-- The heap object and the headers of the heap are as before. -/
structure Untouched (c : Config) (s s' : State) : Prop where
  same : Same s s'
  availableSize : s'.availableSize = s.availableSize
  maxUsedSize : s'.maxUsedSize = s.maxUsedSize
  item : ∀ off, Within c s off → SameItem s.memory s'.memory off

theorem Untouched.known {off : Nat} (hu : Untouched c s s') (hr : Region c s) (h : Items c s l)
    (hoff : Known c s l off) : SameItem s.memory s'.memory off := hu.item off (hoff.within hr h)

theorem Untouched.used {off : Nat} (hu : Untouched c s s') (hr : Region c s) (h : Items c s l)
    (hoff : Known c s l off) : isUsed s' off = isUsed s off :=
  isUsed_congr (hu.known hr h hoff).magic

theorem Untouched.items (hu : Untouched c s s') (hr : Region c s) (h : Items c s l) :
    Items c s' l := by
  have hge := hr.pool_ge
  have hsize := memheapSize_ge c
  have hitem := fun {off} (hoff : Known c s l off) => hu.known hr h hoff
  have hnext : ∀ {off}, Known c s l off → s'.next off = s.next off := fun hoff => (hitem hoff).next
  have hprev : ∀ {off}, Known c s l off → s'.prev off = s.prev off := fun hoff => (hitem hoff).prev
  have htail := hu.same.tailItem (c := c)
  have hend : Known c s l (tailItem c s) := .inr (.inl rfl)
  have hstart : Known c s l s.startAddr := by
    refine .inl (h.linked.path.first_mem ?_)
    rw [tailItem]
    omega
  refine ⟨⟨?_, ?_⟩, ?_, ?_, ?_, ?_, ?_⟩
  · rw [hu.same.startAddr, htail]
    exact h.linked.path.congr fun x hx => hnext (.inl hx)
  · intro x hx
    rw [hnext (.inl hx), hprev (h.known_next hx)]
    exact h.linked.back x hx
  · rw [hu.same.startAddr, htail, hprev hstart]
    exact h.first
  · rw [hu.same.startAddr, htail, hnext hend]
    exact h.last
  · intro x hx
    rw [show s'.magic x = s.magic x from (hitem (.inl hx)).magic]
    exact h.magic x hx
  · rw [htail, show s'.magic (tailItem c s) = s.magic (tailItem c s) from (hitem hend).magic]
    exact h.magicTail
  · intro x hx
    rw [show s'.poolPtr x = s.poolPtr x from (hitem (.inl hx)).poolPtr, hu.same.heap]
    exact h.pool x hx

theorem Untouched.heap (hu : Untouched c s s') (hr : Region c s) (h : Heap c s l fl) :
    Heap c s' l fl := by
  have hused : ∀ {off}, Known c s l off → isUsed s' off = isUsed s off :=
    fun hoff => hu.used hr h.items hoff
  have hring : FreeRing s' fl := by
    rw [FreeRing, hu.same.freeList]
    refine Ring.Linked.congr h.lists.ring ?_ ?_
    · exact fun x hx => (hu.known hr h.items (h.lists.known_free hx)).nextFree
    · exact fun x hx => (hu.known hr h.items (h.lists.known_free hx)).prevFree
  refine ⟨⟨hu.items hr h.items, hring, ?_⟩, ?_, ?_, ?_⟩
  · intro x
    rw [h.lists.free]
    by_cases hx : x ∈ l
    · rw [hused (.inl hx)]
    · simp [hx]
  · intro x hx
    have hn : s'.next x = s.next x := (hu.known hr h.items (.inl hx)).next
    rw [hn, hused (.inl hx), hused (h.items.known_next hx)]
    exact h.apart x hx
  · rw [hu.availableSize, h.available]
    refine (sum_itemSize_congr fun x hx => ?_).symm
    exact (hu.known hr h.items (.inl ((h.free x).mp hx).1)).next
  · rw [hu.same.poolSize, hu.availableSize, hu.maxUsedSize]
    exact h.peak

theorem Untouched.inv (hu : Untouched c s s') (h : Inv c s) : Inv c s' := by
  obtain ⟨hr, l, fl, hheap, hlive⟩ := h
  refine ⟨hu.same.region hr, l, fl, hu.heap hr hheap, fun p => ?_⟩
  rw [hu.same.live, hlive]
  refine (owned_congr (fun z => ?_) p).symm
  rw [InUse, InUse]
  by_cases hz : z ∈ l
  · rw [hu.used hr hheap.items (.inl hz)]
  · simp [hz]

/-! ## A heap that is called -/

/-- What the other heaps see of a call on a heap. -/
structure Called (c : Config) (s s' : State) : Prop where
  same : Same s s'
  item : ∀ off, ¬ Within c s off → SameItem s.memory s'.memory off

theorem alloc_called (hr : Region c s) (h : Heap c s l fl) {size : Nat} {r : Option Nat}
    (halloc : rtMemheapAlloc c s size = some (s', r)) : Called c s s' := by
  obtain ⟨t, r', -, -, halloc', -, hsame, -⟩ := rtMemheapAlloc_spec hr h size
  obtain ⟨rfl, rfl⟩ := pair_inj (halloc'.symm.trans halloc)
  exact ⟨hsame, (alloc_within hr h halloc).item⟩

theorem free_called (hr : Region c s) (h : Heap c s l fl) {x : Nat} (hx : InUse s l x)
    (hfree : rtMemheapFree c s (some (x + c.memheapSize)) = some s') : Called c s s' := by
  obtain ⟨t, -, -, hfree', -, hsame, -, -⟩ := rtMemheapFree_spec hr h hx
  cases hfree'.symm.trans hfree
  exact ⟨hsame, (free_within hr h hx hfree).item⟩

theorem Called.trans {s₁ : State} (h : Called c s s₁) (h' : Called c s₁ s') : Called c s s' := by
  refine ⟨h.same.trans h'.same, fun off hoff => (h.item off hoff).trans (h'.item off ?_)⟩
  rw [Within, h.same.freeList, h.same.startAddr, h.same.poolSize]
  exact hoff

theorem realloc_called (hr : Region c s) (h : Heap c s l fl) {ptr : Option Nat} {newsize : Nat}
    (hptr : ∀ p, ptr = some p → Owned c s l p)
    (hfit : ∀ x, ptr = some (x + c.memheapSize) → newsize ≠ 0 → Fits c s x newsize)
    {r : Option Nat} (hre : rtMemheapRealloc c s ptr newsize = some (s', r)) :
    Called c s s' := by
  by_cases hzero : newsize = 0
  · rw [rtMemheapRealloc, if_pos hzero] at hre
    obtain ⟨t, hfree, heq⟩ := Option.map_eq_some_iff.mp hre
    cases heq
    cases ptr with
    | none =>
      cases hfree
      exact ⟨.refl s, fun _ _ => ⟨rfl, rfl, rfl, rfl, rfl, rfl⟩⟩
    | some ptr =>
      obtain ⟨x, rfl, hx⟩ := hptr ptr rfl
      exact free_called hr h hx hfree
  · cases ptr with
    | none =>
      rw [rtMemheapRealloc, if_neg hzero] at hre
      exact alloc_called hr h hre
    | some ptr =>
      obtain ⟨x, rfl, hx⟩ := hptr ptr rfl
      obtain ⟨t, r', -, -, hre', -, hsame, -⟩ := rtMemheapRealloc_spec hr h _ newsize hptr hfit
      obtain ⟨rfl, rfl⟩ := pair_inj (hre'.symm.trans hre)
      refine ⟨hsame, ?_⟩
      have hcase := rtMemheapRealloc_cases hr h hx hzero (hfit x rfl hzero)
      rw [hre] at hcase
      generalize hresult : some (t, r') = result at hcase
      cases hcase with
      | grow hf hold hroom =>
        cases hresult
        exact ((growInPlace_recut hr h hx hf hold hroom).within hr h.items).item
      | refused | keep =>
        cases hresult
        exact fun _ _ => ⟨rfl, rfl, rfl, rfl, rfl, rfl⟩
      | @move hold s₁ new halloc =>
        obtain ⟨u, hfree, heq⟩ := Option.map_eq_some_iff.mp hresult.symm
        cases heq
        generalize min (itemSize c s x) (request c newsize) = count at *
        obtain ⟨l₁, fl₁, hheap₂, hsame₂, hx₂, -⟩ := move_copied hr h count hx halloc
        have hcopied : Called c s (rtMemcpy s₁ new (x + c.memheapSize) count) :=
          ⟨hsame₂, fun off hoff => ((alloc_within hr h halloc).item off hoff).trans
            (SameItem.copy s₁.memory _ _ _ off)⟩
        exact (hcopied.trans (free_called (hsame₂.region hr) hheap₂ hx₂ hfree)).item
      | shrink hold =>
        cases hresult
        exact ((shrink_recut hr h hx hold).within hr h.items).item

/-! ## `rt_memheap_init` -/

/-- `rt_memheap_init` writes the head of the free list, the first item and the tail item. -/
theorem init_item {heap freeHeader startAddr size : Nat} (s : State)
    (hp : Provided c freeHeader startAddr size) {off : Nat}
    (hoff : ¬ Within c (rtMemheapInit c heap freeHeader startAddr size s) off) :
    SameItem s.memory (rtMemheapInit c heap freeHeader startAddr size s).memory off := by
  have hsize := memheapSize_ge c
  have hroom := hp.room
  have htop := hp.top
  have hlt := hp.lt
  have hheader := hp.header
  have hdown : rtAlignDown size c.align ≤ size := Nat.div_mul_le_self _ _
  have hpoolEq : (rtMemheapInit c heap freeHeader startAddr size s).poolSize =
      rtAlignDown size c.align := rfl
  change ¬ (off = freeHeader ∨ startAddr ≤ off ∧
    off + c.memheapSize ≤ startAddr + rtAlignDown size c.align) at hoff
  rw [rtMemheapInit]
  generalize rtAlignDown size c.align = pool at *
  have hsub : sub pool (2 * c.memheapSize) = pool - 2 * c.memheapSize :=
    wsub_eq hroom (by omega)
  have hadd : add (add startAddr (pool - 2 * c.memheapSize)) c.memheapSize =
      startAddr + pool - c.memheapSize := by
    rw [add, add, wadd_eq (a := startAddr) (by omega), wadd_eq (by omega)]
    omega
  have hhead : off ≠ freeHeader := by omega
  have hstart : off ≠ startAddr := by omega
  have htail : off ≠ startAddr + pool - c.memheapSize := by omega
  have hfs : freeHeader ≠ startAddr := by omega
  simp only [hsub, hadd, insertFree, setMagic, setPoolPtr, setNext, setPrev, setNextFree,
    setPrevFree, Function.update_self, State.memory]
  constructor
  all_goals simp [hhead, hstart, htail, hfs]

end RtThread.Memheap
