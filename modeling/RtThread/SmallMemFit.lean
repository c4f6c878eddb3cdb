import RtThread.SmallMemOwner

/-!
# The search of the small-memory heap

`rt_smem_alloc` walks the blocks from `lfree` upwards. On a region with room for
a block the walk ends, and it stops at the lowest free block that is large
enough. On a smaller region the bound of the loop is a difference below zero,
and the walk stays at `heap_end`.
-/
namespace RtThread.SmallMem

theorem searchedSize_eq_max (a : Arch) (size : Nat) :
    searchedSize a size = Nat.max (rtAlign a.bits size a.align) a.minSizeAligned := by
  rw [searchedSize]
  split
  · rename_i hlt
    exact (Nat.max_eq_right (Nat.le_of_lt hlt)).symm
  · rename_i hge
    exact (Nat.max_eq_left (Nat.le_of_not_lt hge)).symm

/-! ## First fit -/

variable {a : Arch} {s : State} {l : List Nat} {ptr size : Nat}

/-- The search from `ptr` upwards stops at the lowest block that fits. -/
theorem search_lowest (hr : Ground a s) (h : Shape a s l) (hsize : size ≤ s.memSizeAligned)
    (n : Nat) (hptr : ptr ∈ l ∨ ptr = s.heapEnd) (hbelow : ∀ z ∈ l, z < ptr → ¬ Fits a s size z)
    {r : Option Nat} (hsearch : search a s size n ptr = some r) :
    (r = none → ∀ z ∈ l, ¬ Fits a s size z) ∧
      ∀ x, r = some x → x ∈ l ∧ Fits a s size x ∧ ∀ z ∈ l, Fits a s size z → x ≤ z := by
  have hlt := hr.lt
  have hend := hr.heapEnd_eq
  have hpos := sizeofStructMem_pos a
  induction n generalizing ptr with
  | zero => simp [search] at hsearch
  | succ n ih =>
    have hsub : a.sub s.memSizeAligned size = s.memSizeAligned - size :=
      wsub_eq hsize (by omega)
    simp only [search, hsub] at hsearch
    split at hsearch
    · rename_i hle
      have hmem : ptr ∈ l := hptr.resolve_right (by omega)
      have hb := h.bounds hmem
      have hroom : a.sub (s.item ptr).next (a.add ptr a.sizeofStructMem) =
          (s.item ptr).next - (ptr + a.sizeofStructMem) := by
        rw [Arch.add, wadd_eq (by omega), Arch.sub, wsub_eq (by omega) (by omega)]
      split at hsearch
      · rename_i hfit
        cases hsearch
        refine ⟨by simp, fun x hx => ?_⟩
        cases hx
        refine ⟨hmem, ⟨hfit.1, by omega⟩, fun z hz hfits => ?_⟩
        by_contra hlow
        exact hbelow z hz (by omega) hfits
      · rename_i hmiss
        have hnot : ¬ Fits a s size ptr := fun hfits => hmiss ⟨hfits.1, by have := hfits.2; omega⟩
        exact ih (h.path.next_mem hmem).symm
          (fun z hz hlt => h.path.before_next (Nat.succ_pos _) hmem hnot hbelow hz hlt) hsearch
    · rename_i hgt
      cases hsearch
      refine ⟨fun _ z hz hfits => ?_, by simp⟩
      have hb := h.bounds hz
      have hroom := hfits.2
      exact hbelow z hz (by omega) hfits

/-- What a request for `size` bytes gets: the data pointer of the lowest free block that is
large enough, and a null pointer when there is none. -/
def FirstFit (a : Arch) (s : State) (l : List Nat) (size : Nat) : Option Nat → Prop
  | none => ∀ x ∈ l, ¬ Fits a s size x
  | some p => ∃ x ∈ l, p = x + a.sizeofStructMem ∧ Fits a s size x ∧
      ∀ y ∈ l, Fits a s size y → x ≤ y

/-- No free block lies below `lfree`. -/
theorem Heap.not_fits_below (h : Heap a s l) : ∀ z ∈ l, z < s.lfree → ¬ Fits a s size z := by
  intro z hz hlt hfits
  have hle := h.lowest.le z hz hfits.1
  omega

theorem rtSmemAlloc_firstFit (hr : Ground a s) (h : Heap a s l) (hsearches : Searches a s size) :
    ∃ s' r, rtSmemAlloc a s size = some (s', r) ∧ FirstFit a s l (searchedSize a size) r := by
  have hlt := hr.lt
  obtain ⟨hle, halign, hpos⟩ := searchedSize_bounds hr.min_le hsearches
  obtain ⟨r, hsearch, -⟩ := search_spec hr h.shape hle (2 ^ a.bits) h.start (by omega)
  obtain ⟨hnone, hsome⟩ := search_lowest hr h.shape hle _ h.start h.not_fits_below hsearch
  rw [rtSmemAlloc_searches hsearches, hsearch, Option.bind_some]
  cases r with
  | none => exact ⟨s, none, rfl, hnone rfl⟩
  | some x =>
    obtain ⟨hx, hfits, hlow⟩ := hsome x rfl
    obtain ⟨s', l', n, htake, -⟩ := takeBlock_spec hr h hx hfits.1 hfits.2 halign hpos
    refine ⟨s', some (x + a.sizeofStructMem), ?_, x, hx, rfl, hfits, hlow⟩
    simp only [htake, Option.map_some]

/-- A request that is larger than the region fits into no block. -/
theorem Shape.not_fits (hr : Ground a s) (h : Shape a s l) (hlarge : s.memSizeAligned < size) :
    ∀ x ∈ l, ¬ Fits a s size x := by
  intro x hx hfits
  have hb := h.bounds hx
  have hend := hr.heapEnd_eq
  have hroom := hfits.2
  omega

/-! ## Termination -/

/-- The walk on a region below the searched size: the bound of the loop wraps, so the walk
reaches `heap_end`, whose `next` is `heap_end` again. -/
theorem search_forever (h : Fresh a s) (hsize : s.memSizeAligned < size)
    (hle : size ≤ a.sizeofStructMem) (n : Nat) (hptr : ptr = 0 ∨ ptr = s.heapEnd) :
    search a s size n ptr = none := by
  have hlt := h.lt
  have hbound : a.sub s.memSizeAligned size = s.memSizeAligned + 2 ^ a.bits - size :=
    Nat.mod_eq_of_lt (by omega)
  induction n generalizing ptr with
  | zero => rfl
  | succ n ih =>
    have hmiss := h.miss hsize hptr
    simp only [search, hbound]
    rw [if_pos (by omega), if_neg hmiss]
    exact ih (.inr (h.next hptr))

/-- The loop of `rt_smem_alloc` ends after some number of rounds. -/
def SearchEnds (a : Arch) (s : State) (size : Nat) : Prop :=
  Searches a s size → ∃ rounds, (search a s (searchedSize a size) rounds s.lfree).isSome

/-- The region has room for a block, or the request does not reach the loop. -/
def Terminating (a : Arch) (s : State) (size : Nat) : Prop :=
  a.minSizeAligned ≤ s.memSizeAligned ∨ ¬ Searches a s size

theorem Heap.search_ends (hr : Ground a s) (h : Heap a s l) (size : Nat) :
    SearchEnds a s size ∧ (rtSmemAlloc a s size).isSome := by
  have hlt := hr.lt
  obtain ⟨s', r, l', halloc, -⟩ := rtSmemAlloc_spec hr h size
  refine ⟨fun hsearches => ⟨2 ^ a.bits, ?_⟩, by rw [halloc]; rfl⟩
  obtain ⟨hle, -, -⟩ := searchedSize_bounds hr.min_le hsearches
  obtain ⟨r, hsearch, -⟩ := search_spec hr h.shape hle (2 ^ a.bits) h.start (by omega)
  rw [hsearch]
  rfl

theorem Fresh.search_ends_iff (h : Fresh a s) (htiny : s.memSizeAligned < a.minSizeAligned)
    (size : Nat) :
    (SearchEnds a s size ↔ ¬ Searches a s size) ∧
      ((rtSmemAlloc a s size).isSome ↔ ¬ Searches a s size) := by
  by_cases hsearches : Searches a s size
  · have hsize : searchedSize a size = a.minSizeAligned := by
      have hfits := hsearches.2
      rw [searchedSize, if_pos (by omega)]
    have hloop : ∀ rounds, search a s (searchedSize a size) rounds s.lfree = none := by
      intro rounds
      rw [hsize]
      exact search_forever h htiny (minSizeAligned_le a) rounds (.inl h.lfree)
    constructor
    · refine iff_of_false ?_ (not_not.mpr hsearches)
      intro hends
      obtain ⟨rounds, hsome⟩ := hends hsearches
      rw [hloop] at hsome
      simp at hsome
    · rw [rtSmemAlloc_searches hsearches, hloop]
      simp [hsearches]
  · constructor
    · exact iff_of_true (fun hs => absurd hs hsearches) hsearches
    · rw [rtSmemAlloc_refused hsearches]
      simp [hsearches]

/-! ## Along runs -/

/-- A heap that a run reaches on a region with room for a block. -/
def Roomy (a : Arch) (s : State) : Prop := ∃ seen, MeteredInv a ⟨s, seen⟩

theorem Sound.roomy (h : Sound a s) (hmin : a.minSizeAligned ≤ s.memSizeAligned) : Roomy a s :=
  h.resolve_right fun hfresh => absurd hfresh.2 (Nat.not_lt.mpr hmin)

theorem Roomy.heap (h : Roomy a s) :
    ∃ l, Ground a s ∧ Heap a s l ∧ ∀ p, p ∈ s.live ↔ InUse a s l p := by
  obtain ⟨seen, hinv⟩ := h
  obtain ⟨l, hacc, hlive⟩ := hinv.heap
  exact ⟨l, hacc.ground, hacc.heap, hlive⟩

theorem Roomy.step {s' : State} {op : Op} (h : Roomy a s) (hop : Allowed a s op)
    (hs : step a s op = some s') : Roomy a s' := by
  obtain ⟨seen, hinv⟩ := h
  have hstep : meteredStep a ⟨s, seen⟩ op = some ⟨s', seen ++ (usedBetween a s op ++ [s'.used])⟩ :=
    Option.map_eq_some_iff.mpr ⟨s', hs, rfl⟩
  exact ⟨_, meteredStep_inv hinv hop hstep⟩

theorem run_sound {beginAddr : Nat} {item : Nat → Item} {data : Nat → BitVec 8} {s₀ : State}
    (hinit : rtSmemInit a beginAddr size item data = some s₀) {ops : List Op}
    (hops : Runs.Along (step a) (Allowed a) s₀ ops) (hrun : Runs.run (step a) s₀ ops = some s) :
    Sound a s :=
  Runs.run_invariant_along (fun _ _ _ h hop hs => h.step hop hs) (init_fresh hinit).sound hops hrun

/-- In every state that a run from `rt_smem_init` reaches, the loop of `rt_smem_alloc` ends, and
the call returns, exactly when the region has room for a block of `MIN_SIZE_ALIGNED` bytes or
the request is refused before the loop. -/
theorem alloc_terminates_iff (a : Arch) (beginAddr size : Nat) (item : Nat → Item)
    (data : Nat → BitVec 8) (s₀ : State) (hinit : rtSmemInit a beginAddr size item data = some s₀)
    (ops : List Op) (hops : Runs.Along (step a) (Allowed a) s₀ ops) (s : State)
    (hrun : Runs.run (step a) s₀ ops = some s) (request : Nat) :
    (SearchEnds a s request ↔ Terminating a s request) ∧
      ((rtSmemAlloc a s request).isSome ↔ Terminating a s request) := by
  have hsound := run_sound hinit hops hrun
  by_cases hmin : a.minSizeAligned ≤ s.memSizeAligned
  · obtain ⟨l, hground, hheap, -⟩ := (hsound.roomy hmin).heap
    obtain ⟨hends, hreturns⟩ := hheap.search_ends hground request
    exact ⟨iff_of_true hends (.inl hmin), iff_of_true hreturns (.inl hmin)⟩
  · rcases hsound with ⟨seen, hinv⟩ | ⟨hfresh, htiny⟩
    · obtain ⟨l, hacc, -⟩ := hinv.heap
      exact absurd hacc.ground.min_le hmin
    · obtain ⟨hends, hreturns⟩ := hfresh.search_ends_iff htiny request
      have hcond : Terminating a s request ↔ ¬ Searches a s request :=
        ⟨fun hc => hc.resolve_left hmin, .inr⟩
      exact ⟨hends.trans hcond.symm, hreturns.trans hcond.symm⟩

theorem alloc_terminates_iff_ram : ∃ s₀, ramHeap = some s₀ ∧
    ((rtSmemAlloc arch32 s₀ 20).isSome ↔ Terminating arch32 s₀ 20) := by
  obtain ⟨s₀, hs₀⟩ : ∃ s₀, ramHeap = some s₀ :=
    Option.isSome_iff_exists.mp (by decide +kernel)
  exact ⟨s₀, hs₀, (alloc_terminates_iff arch32 0x20000000 512 (fun _ => ⟨0, 0, 0⟩) (fun _ => 0)
    s₀ hs₀ [] trivial s₀ rfl 20).2⟩

/-- A region that leaves 4 bytes between the two headers. -/
def tinyHeap : Option State := rtSmemInit arch32 0x20000000 84 (fun _ => ⟨0, 0, 0⟩) (fun _ => 0)

/-- A request for one byte on the heap of 4 bytes never leaves the loop. -/
theorem tiny_heap_searches_forever : ∃ s₀, tinyHeap = some s₀ ∧ Searches arch32 s₀ 1 ∧
    ∀ rounds, search arch32 s₀ (searchedSize arch32 1) rounds s₀.lfree = none := by
  have hcheck : (tinyHeap.map fun s => decide (Searches arch32 s 1 ∧
      s.memSizeAligned < searchedSize arch32 1 ∧
      searchedSize arch32 1 ≤ arch32.sizeofStructMem)) = some true := by decide +kernel
  obtain ⟨s₀, hs₀, hdec⟩ := Option.map_eq_some_iff.mp hcheck
  obtain ⟨hsearches, hlt, hle⟩ := of_decide_eq_true hdec
  have hfresh := init_fresh hs₀
  exact ⟨s₀, hs₀, hsearches, fun rounds => search_forever hfresh hlt hle rounds (.inl hfresh.lfree)⟩

/-- On every heap that a run reaches on a region with room for a block, a request other than zero
gets the lowest free block that is large enough, and a null pointer only when there is none. -/
theorem alloc_first_fit (a : Arch) (beginAddr size : Nat) (item : Nat → Item)
    (data : Nat → BitVec 8) (s₀ : State) (hinit : rtSmemInit a beginAddr size item data = some s₀)
    (ops : List Op) (hops : Runs.Along (step a) (Allowed a) s₀ ops) (s : State)
    (hrun : Runs.run (step a) s₀ ops = some s) (hmin : a.minSizeAligned ≤ s.memSizeAligned)
    (request : Nat) (hrequest : request ≠ 0) :
    ∃ l, Blocks.Path a.sizeofStructMem (fun x => (s.item x).next) 0 s.heapEnd l ∧
      ∃ s' r, rtSmemAlloc a s request = some (s', r) ∧
        FirstFit a s l (Nat.max (rtAlign a.bits request a.align) a.minSizeAligned) r := by
  obtain ⟨l, hground, hheap, -⟩ := ((run_sound hinit hops hrun).roomy hmin).heap
  refine ⟨l, hheap.shape.path.weaken (Nat.le_succ _), ?_⟩
  rw [← searchedSize_eq_max]
  by_cases hfits : rtAlign a.bits request a.align ≤ s.memSizeAligned
  · exact rtSmemAlloc_firstFit hground hheap ⟨hrequest, hfits⟩
  · refine ⟨s, none, rtSmemAlloc_refused fun hs => hfits hs.2, ?_⟩
    refine hheap.shape.not_fits hground ?_
    rw [searchedSize]
    split <;> omega

theorem alloc_first_fit_ram : ∃ s₀ s, ramHeap = some s₀ ∧
    Runs.run (step arch32) s₀ ramOps = some s ∧
      ∃ l, Blocks.Path arch32.sizeofStructMem (fun x => (s.item x).next) 0 s.heapEnd l ∧
        ∃ s' r, rtSmemAlloc arch32 s 30 = some (s', r) ∧
          FirstFit arch32 s l (Nat.max (rtAlign 32 30 4) arch32.minSizeAligned) r := by
  have hcheck : (ramHeap.map fun s => decide (Runs.Along (step arch32) (Allowed arch32) s ramOps ∧
      ((Runs.run (step arch32) s ramOps).map fun t =>
        decide (arch32.minSizeAligned ≤ t.memSizeAligned)) = some true)) = some true := by
    decide +kernel
  obtain ⟨s₀, hs₀, hdec⟩ := Option.map_eq_some_iff.mp hcheck
  obtain ⟨hops, hend⟩ := of_decide_eq_true hdec
  obtain ⟨s, hrun, hmin⟩ := Option.map_eq_some_iff.mp hend
  exact ⟨s₀, s, hs₀, hrun, alloc_first_fit arch32 0x20000000 512 (fun _ => ⟨0, 0, 0⟩) (fun _ => 0)
    s₀ hs₀ ramOps hops s hrun (of_decide_eq_true hmin) 30 (by decide)⟩

/-- A request for zero bytes gets a null pointer although the whole region is free. -/
theorem zero_request_refused : ∃ s₀, ramHeap = some s₀ ∧
    rtSmemAlloc arch32 s₀ 0 = some (s₀, none) ∧
      ∀ l, Blocks.Path arch32.sizeofStructMem (fun x => (s₀.item x).next) 0 s₀.heapEnd l →
        ¬ FirstFit arch32 s₀ l (Nat.max (rtAlign 32 0 4) arch32.minSizeAligned) none := by
  have hcheck : (ramHeap.map fun s => decide (0 ≠ s.heapEnd ∧
      Fits arch32 s (Nat.max (rtAlign 32 0 4) arch32.minSizeAligned) 0)) = some true := by
    decide +kernel
  obtain ⟨s₀, hs₀, hdec⟩ := Option.map_eq_some_iff.mp hcheck
  obtain ⟨hne, hfits⟩ := of_decide_eq_true hdec
  exact ⟨s₀, hs₀, rfl, fun l hpath hnone => hnone 0 (hpath.first_mem hne) hfits⟩

end RtThread.SmallMem
