import RtThread.MemheapTiles

/-!
# The search of the memheap

`rt_memheap_alloc` compares the request with `available_size` before it walks the
free list. The walk finds a free item that is large enough when there is one, so
a request is refused wrongly only by the comparison. What `available_size` says
about single items rests on the smallest item that a call leaves behind.
-/
namespace RtThread.Memheap

variable {c : Config} {s s' : State} {l fl : List Nat}

/-! ## `rt_memheap_alloc` -/

/-- The item that was taken has the requested bytes. -/
theorem takeItem_room (hr : Region c s) (h : Heap c s l fl) {x size : Nat} (hx : x ∈ fl)
    (hle : size ≤ itemSize c s x) :
    size ≤ itemSize c (Memheap.takeItem c s x (itemSize c s x) size) x := by
  rw [itemSize, takeItem_next hr h hx hle]
  split
  · rw [newItem_next, if_pos rfl]
    omega
  · exact hle

/-! ## Runs -/

/-- A heap that is too small for any request. -/
structure Tiny (c : Config) (s : State) : Prop where
  pool : s.poolSize < 2 * c.memheapSize + minialloc
  live : s.live = []

theorem Spaced.step (h : Inv c s) (hm : Spaced c s) {op : Op} (hop : Allowed c s op)
    (hfit : Unwrapped c s op) (hstep : step c s op = some s') : Spaced c s' :=
  spaced_iff.mpr (Tiled.step h (spaced_iff.mp hm) (Nat.le_refl _) hop hfit (Cuts.trivial _) hstep)

/-- Nothing is allocated in a heap that is too small. -/
theorem Tiny.alloc (hr : Region c s) (h : Heap c s l fl) (ht : Tiny c s) (size : Nat) :
    rtMemheapAlloc c s size = some (s, none) := by
  have hpool := ht.pool
  have hle := h.available_le hr
  have hmin := request_ge c size
  obtain ⟨hres, -⟩ | ⟨hlt, -⟩ := rtMemheapAlloc_finds hr h size
  · exact hres
  · omega

theorem Tiny.step (h : Inv c s) (ht : Tiny c s) {op : Op} (hop : Allowed c s op)
    (hstep : step c s op = some s') : Tiny c s' := by
  obtain ⟨hr, l, fl, hheap, -⟩ := h
  have hnone : ∀ p, p ∉ s.live := by
    rw [ht.live]
    simp
  have hfilter : s.live.filter (fun q => some q ≠ none) = [] := by
    rw [ht.live]
    rfl
  cases op with
  | alloc size =>
    rw [Memheap.step, ht.alloc hr hheap] at hstep
    cases hstep
    exact ht
  | realloc ptr newsize =>
    cases ptr with
    | some p => exact absurd (hop p rfl) (hnone p)
    | none =>
      by_cases hzero : newsize = 0
      · rw [Memheap.step, rtMemheapRealloc, if_pos hzero] at hstep
        simp only [rtMemheapFree, Option.map_some, hzero, or_true, ↓reduceIte] at hstep
        cases hstep
        exact ⟨ht.pool, hfilter⟩
      · rw [Memheap.step, rtMemheapRealloc, if_neg hzero] at hstep
        simp only [ht.alloc hr hheap, Option.map_some, hzero, or_false, ne_eq,
          not_true_eq_false, ↓reduceIte] at hstep
        cases hstep
        exact ht
  | free ptr =>
    cases ptr with
    | some p => exact absurd (hop p rfl) (hnone p)
    | none =>
      cases hstep
      exact ⟨ht.pool, hfilter⟩
  | write addr byte =>
    obtain ⟨p, hp, -⟩ := hop
    exact absurd hp (hnone p)

/-- Without a block in use there is one free item. -/
theorem Heap.single (h : Heap c s l fl) (hnone : ∀ x, ¬ InUse s l x)
    (hpool : s.startAddr ≠ tailItem c s) : l = [s.startAddr] ∧ s.next s.startAddr = tailItem c s := by
  have hsize := memheapSize_ge c
  have hmem := h.items.linked.path.first_mem hpool
  have hfree : ∀ x ∈ l, isUsed s x = false := by
    intro x hx
    by_contra hu
    exact hnone x ⟨hx, by simpa using hu⟩
  have hnext : s.next s.startAddr = tailItem c s := by
    refine (h.items.linked.path.next_mem hmem).resolve_right ?_
    intro hy
    have hused := (h.apart _ hmem).resolve_left (by simp [hfree _ hmem])
    rw [hfree _ hy] at hused
    simp at hused
  have hpath : Blocks.Path c.memheapSize s.next s.startAddr (tailItem c s) [s.startAddr] :=
    ⟨rfl, (h.items.bounds hmem).2.1, hnext⟩
  exact ⟨h.items.linked.path.unique hpath (by omega) (by omega), hnext⟩

/-- The items left behind are large enough for a request, or the heap is too small for any. -/
def Sized (c : Config) (s : State) : Prop := Inv c s ∧ (Spaced c s ∨ Tiny c s)

theorem Sized.step {op : Op} (h : Sized c s) (hop : Allowed c s op) (hfit : Unwrapped c s op)
    (hstep : step c s op = some s') : Sized c s' := by
  obtain ⟨hinv, hsize⟩ := h
  obtain ⟨t, hstep', hinv'⟩ := step_inv hinv hop hfit
  obtain rfl : t = s' := Option.some.inj (hstep'.symm.trans hstep)
  exact ⟨hinv', hsize.imp (fun hm => hm.step hinv hop hfit hstep)
    fun ht => ht.step hinv hop hstep⟩

theorem Sized.of_live (h : Inv c s) (hlive : s.live = []) : Sized c s := by
  refine ⟨h, ?_⟩
  obtain ⟨hr, l, fl, hheap, howned⟩ := h
  have hge := hr.pool_ge
  have hsize := memheapSize_ge c
  have htail : tailItem c s = s.startAddr + s.poolSize - c.memheapSize := rfl
  have hnone : ∀ x, ¬ InUse s l x := by
    intro x hx
    have hmem := (howned (x + c.memheapSize)).mpr ⟨x, rfl, hx⟩
    rw [hlive] at hmem
    simp at hmem
  obtain ⟨-, hnext⟩ := hheap.single hnone (by omega)
  by_cases hpool : s.poolSize < 2 * c.memheapSize + minialloc
  · exact .inr ⟨hpool, hlive⟩
  · exact .inl ⟨[s.startAddr], rfl, by omega, hnext⟩

/-- Exactly one item is in the free list. -/
def OneFree (s : State) : Prop :=
  s.nextFree s.freeList ≠ s.freeList ∧ s.nextFree (s.nextFree s.freeList) = s.freeList

theorem FreeRing.oneFree (h : FreeRing s fl) : OneFree s ↔ ∃ x, fl = [x] := by
  have hseq := h.seq
  have hnd := h.nodup
  rw [OneFree]
  cases fl with
  | nil => simp [show s.nextFree s.freeList = s.freeList from hseq]
  | cons x m =>
    have hx : x ≠ s.freeList := by
      rintro rfl
      simp at hnd
    cases m with
    | nil => simp [hseq.1, hx, show s.nextFree x = s.freeList from hseq.2]
    | cons y m =>
      have hy : y ≠ s.freeList := by
        rintro rfl
        simp at hnd
      simp [hseq.1, hseq.2.1, hy]

/-- The free bytes are one item, and the request asks for all of them. -/
def ExactFit (c : Config) (s : State) (size : Nat) : Prop :=
  OneFree s ∧ rtAlign 32 size c.align ≤ s.availableSize ∧ s.availableSize ≤ request c size

theorem request_eq (c : Config) (size : Nat) :
    request c size = max (rtAlign 32 size c.align) minialloc := by
  rw [request]
  split <;> omega

theorem Spaced.itemSize_ge (hm : Spaced c s) (h : Items c s l) {x : Nat} (hx : x ∈ l) :
    minialloc ≤ itemSize c s x := by
  have hb := (hm.path h).bounds hx
  rw [itemSize]
  omega

/-- An item that takes all the free bytes is the only one. -/
theorem Spaced.single (h : Heap c s l fl) (hm : Spaced c s) {x : Nat} (hx : x ∈ fl)
    (hall : s.availableSize ≤ itemSize c s x) : fl = [x] := by
  have hperm := List.perm_cons_erase hx
  have hrem := h.available_remove hperm
  cases hrest : fl.erase x with
  | nil =>
    rw [hrest] at hperm
    exact List.perm_singleton.mp hperm
  | cons y m =>
    have hy := hm.itemSize_ge h.items ((h.free y).mp (List.mem_of_mem_erase (hrest ▸ List.mem_cons_self))).1
    rw [hrest, List.map_cons, List.sum_cons] at hrem
    have hmin : minialloc = 12 := rfl
    omega

/-- In a heap that is too small there is one item. -/
theorem Tiny.single (hr : Region c s) (h : Heap c s l fl) (hlive : ∀ p, p ∈ s.live ↔ Owned c s l p)
    (ht : Tiny c s) {x : Nat} (hx : x ∈ fl) : fl = [x] := by
  have hge := hr.pool_ge
  have hsize := memheapSize_ge c
  have htail : tailItem c s = s.startAddr + s.poolSize - c.memheapSize := rfl
  have hnone : ∀ x, ¬ InUse s l x := by
    intro x hx
    have hmem := (hlive (x + c.memheapSize)).mpr ⟨x, rfl, hx⟩
    rw [ht.live] at hmem
    simp at hmem
  obtain ⟨hl, -⟩ := h.single hnone (by omega)
  have hall : ∀ y ∈ fl, y = s.startAddr := by
    intro y hy
    have hmem := ((h.free y).mp hy).1
    rw [hl] at hmem
    exact List.mem_singleton.mp hmem
  obtain rfl := hall x hx
  have hlen := List.nodup_iff_count_le_one.mp h.lists.nodup s.startAddr
  rw [List.eq_replicate_of_mem hall, List.count_replicate_self] at hlen
  have hpos := List.length_pos_of_mem hx
  rw [List.eq_replicate_of_mem hall, show fl.length = 1 by omega]
  rfl

/-- A request is refused although a free item is large enough for it when it is an exact fit. -/
theorem Sized.misses_iff (hr : Region c s) (h : Heap c s l fl)
    (hlive : ∀ p, p ∈ s.live ↔ Owned c s l p) (hsize : Spaced c s ∨ Tiny c s) (size : Nat) :
    (∃ s', rtMemheapAlloc c s size = some (s', none)) ∧
        (∃ x ∈ fl, rtAlign 32 size c.align ≤ itemSize c s x) ↔ ExactFit c s size := by
  have hreq := request_eq c size
  rw [ExactFit, h.lists.ring.oneFree]
  constructor
  · rintro ⟨⟨s', hres⟩, x, hx, hle⟩
    have hrem := h.available_remove (List.perm_cons_erase hx)
    have hsmall : itemSize c s x < minialloc → s.availableSize ≤ request c size := by
      intro hlt
      obtain hm | ht := hsize
      · have hge := hm.itemSize_ge h.items ((h.free x).mp hx).1
        omega
      · have havail := h.available_le hr
        have hpool := ht.pool
        omega
    have havail : s.availableSize ≤ request c size := by
      obtain ⟨-, hrefused | hall⟩ | ⟨-, y, -, -, -, htaken⟩ := rtMemheapAlloc_finds hr h size
      · exact hrefused
      · have hlt := hall x hx
        exact hsmall (by omega)
      · rw [htaken] at hres
        simp at hres
    refine ⟨?_, by omega, havail⟩
    obtain hm | ht := hsize
    · have hge := hm.itemSize_ge h.items ((h.free x).mp hx).1
      exact ⟨x, hm.single h hx (by omega)⟩
    · exact ⟨x, ht.single hr h hlive hx⟩
  · rintro ⟨⟨x, rfl⟩, hle, havail⟩
    have hone : s.availableSize = itemSize c s x := by simp [h.available]
    refine ⟨?_, x, List.mem_singleton_self x, by omega⟩
    obtain ⟨hres, -⟩ | ⟨hlt, -⟩ := rtMemheapAlloc_finds hr h size
    · exact ⟨s, hres⟩
    · omega

/-- In every state that calls on live pointers reach, when no call of `rt_memheap_realloc` wraps:
`rt_memheap_alloc` returns a null pointer only if no free item is as large as the aligned request,
exactly when the request is no exact fit. -/
theorem alloc_complete_iff (c : Config) (heap freeHeader startAddr poolSize : Nat) (s₀ s : State)
    (hinit : Provided c freeHeader startAddr poolSize) (ops : List Op)
    (hops : Runs.Along (step c) (Allowed c)
      (rtMemheapInit c heap freeHeader startAddr poolSize s₀) ops)
    (hfits : Runs.Along (step c) (Unwrapped c)
      (rtMemheapInit c heap freeHeader startAddr poolSize s₀) ops)
    (hrun : Runs.run (step c) (rtMemheapInit c heap freeHeader startAddr poolSize s₀) ops = some s)
    (size : Nat) :
    ∃ l, Blocks.Path c.memheapSize s.next s.startAddr (tailItem c s) l ∧
      (((∃ s', rtMemheapAlloc c s size = some (s', none)) →
          ∀ x ∈ l, isUsed s x = false → itemSize c s x < rtAlign 32 size c.align) ↔
        ¬ ExactFit c s size) := by
  have hstart := Sized.of_live (init_inv s₀ hinit) (rfl : (rtMemheapInit c heap freeHeader startAddr
    poolSize s₀).live = [])
  obtain ⟨⟨hr, l, fl, hheap, hlive⟩, hsize⟩ := Runs.run_invariant_along
    (fun _ _ _ h hop he => h.step hop.1 hop.2 he) hstart (hops.and hfits) hrun
  refine ⟨l, hheap.items.linked.path, ?_⟩
  rw [← Sized.misses_iff hr hheap hlive hsize, not_and]
  refine imp_congr_right fun _ => ?_
  simp only [hheap.free, not_exists, not_and, not_le, and_imp]

theorem alloc_complete_iff_ram : ∃ s, Runs.run (step config4) ramHeap ramOps = some s ∧
    ∃ l, Blocks.Path config4.memheapSize s.next s.startAddr (tailItem config4 s) l ∧
      (((∃ s', rtMemheapAlloc config4 s 100 = some (s', none)) →
          ∀ x ∈ l, isUsed s x = false → itemSize config4 s x < rtAlign 32 100 config4.align) ↔
        ¬ ExactFit config4 s 100) := by
  have hcheck : decide (Runs.Along (step config4) (Allowed config4) ramHeap ramOps ∧
      Runs.Along (step config4) (Unwrapped config4) ramHeap ramOps ∧
      (Runs.run (step config4) ramHeap ramOps).isSome = true) = true := by decide +kernel
  obtain ⟨hops, hfits, hsome⟩ := of_decide_eq_true hcheck
  obtain ⟨s, hrun⟩ := Option.isSome_iff_exists.mp hsome
  exact ⟨s, hrun, alloc_complete_iff config4 0x20000000 0x20000028 0x20001000 1024 blank s
    ⟨by decide, by decide, by decide, by decide⟩ ramOps hops hfits hrun 100⟩

/-- Of the 1024 bytes one item with 976 free bytes is left, and a request of 976 bytes is
refused. -/
theorem exact_fit_refused :
    Blocks.Path config4.memheapSize ramHeap.next ramHeap.startAddr (tailItem config4 ramHeap)
        [ramHeap.startAddr] ∧
      ¬ ((∃ s', rtMemheapAlloc config4 ramHeap 976 = some (s', none)) →
        ∀ x ∈ [ramHeap.startAddr], isUsed ramHeap x = false →
          itemSize config4 ramHeap x < rtAlign 32 976 config4.align) := by
  have hcheck : decide (config4.memheapSize = 24 ∧ ramHeap.next 0x20001000 = 0x200013e8 ∧
      isUsed ramHeap 0x20001000 = false ∧ rtAlign 32 976 config4.align = 976 ∧
      (rtMemheapAlloc config4 ramHeap 976).map Prod.snd = some none) = true := by decide +kernel
  obtain ⟨hsize, hnext, hfree, halign, hres⟩ := of_decide_eq_true hcheck
  have hstart : ramHeap.startAddr = 0x20001000 := rfl
  have htail : tailItem config4 ramHeap = 0x200013e8 := by
    rw [tailItem, hsize]
    rfl
  constructor
  · rw [hstart, htail, hsize]
    exact ⟨rfl, by rw [hnext]; decide, hnext⟩
  · intro hclaim
    obtain ⟨⟨s', r⟩, halloc, rfl⟩ := Option.map_eq_some_iff.mp hres
    have hlt := hclaim ⟨s', halloc⟩ _ (List.mem_singleton_self _) hfree
    rw [itemSize, hstart, hnext, hsize, halign] at hlt
    omega

end RtThread.Memheap
