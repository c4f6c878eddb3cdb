import RtThread.MemheapRealloc

/-!
# The memheap along runs

Every call on live pointers returns and keeps both lists and the accounts, as
long as the sum in the test for growing in place does not wrap.
-/
namespace RtThread.Memheap

/-- A pointer a program may pass: null, or currently allocated. -/
def Valid (s : State) (ptr : Option Nat) : Prop := ∀ p ∈ ptr, p ∈ s.live

/-- The calls a program may make: with valid pointers, and it writes to its own blocks only. -/
def Allowed (c : Config) (s : State) : Op → Prop
  | .alloc _ => True
  | .realloc ptr _ => Valid s ptr
  | .free ptr => Valid s ptr
  | .write addr _ => ∃ p ∈ s.live, p ≤ addr ∧ addr < s.next (p - c.memheapSize)

/-- No call of `rt_memheap_realloc` wraps in its test for growing in place. -/
def Unwrapped (c : Config) (s : State) : Op → Prop
  | .realloc (some ptr) newsize => newsize ≠ 0 → Fits c s (sub ptr c.memheapSize) newsize
  | _ => True

variable {c : Config} {s : State} {l live : List Nat} {ptr : Option Nat}

theorem Unwrapped.fits (hr : Region c s) (h : Items c s l) {newsize : Nat}
    (hfit : Unwrapped c s (.realloc ptr newsize)) (hptr : ∀ p, ptr = some p → Owned c s l p)
    (x : Nat) (hx : ptr = some (x + c.memheapSize)) (hne : newsize ≠ 0) : Fits c s x newsize := by
  subst hx
  obtain ⟨y, heq, hy⟩ := hptr _ rfl
  obtain rfl : x = y := by omega
  have hfits := hfit hne
  rwa [(h.data_eq hr hy.1).2] at hfits

instance (c : Config) (s : State) : ∀ op, Decidable (Allowed c s op)
  | .alloc _ => inferInstanceAs (Decidable True)
  | .realloc ptr _ => inferInstanceAs (Decidable (∀ p ∈ ptr, p ∈ s.live))
  | .free ptr => inferInstanceAs (Decidable (∀ p ∈ ptr, p ∈ s.live))
  | .write addr _ => inferInstanceAs
      (Decidable (∃ p ∈ s.live, p ≤ addr ∧ addr < s.next (p - c.memheapSize)))

instance (c : Config) (s : State) : ∀ op, Decidable (Unwrapped c s op)
  | .alloc _ => inferInstanceAs (Decidable True)
  | .realloc none _ => inferInstanceAs (Decidable True)
  | .realloc (some ptr) newsize => inferInstanceAs (Decidable (newsize ≠ 0 →
      request c newsize + minialloc < 2 ^ 32 ∨
        isUsed s (s.next (sub ptr c.memheapSize)) = true))
  | .free _ => inferInstanceAs (Decidable True)
  | .write _ _ => inferInstanceAs (Decidable True)

structure Inv (c : Config) (s : State) : Prop where
  region : Region c s
  heap : ∃ l fl, Heap c s l fl ∧ ∀ p, p ∈ s.live ↔ Owned c s l p

/-- A heap whose pointers in use changed like the list `live`. -/
theorem Inv.of_live {fl : List Nat} (hr : Region c s) (h : Heap c s l fl)
    (huse : ∀ p, p ∈ live ↔ Owned c s l p) : Inv c { s with live := live } := by
  refine ⟨⟨hr.pool_ge, hr.pool_lt, hr.le, hr.header, hr.block⟩, l, fl, ⟨⟨?_, ?_, h.lists.free⟩, h.apart,
    h.available, h.peak⟩, huse⟩
  · exact ⟨h.items.linked, h.items.first, h.items.last, h.items.magic, h.items.magicTail,
      h.items.pool⟩
  · exact h.lists.ring.congr rfl rfl rfl

theorem mem_dropLive {p : Nat} :
    p ∈ live.filter (fun q => some q ≠ ptr) ↔ p ∈ live ∧ some p ≠ ptr := by
  simp

theorem step_inv {op : Op} (h : Inv c s) (hop : Allowed c s op) (hfit : Unwrapped c s op) :
    ∃ s', step c s op = some s' ∧ Inv c s' := by
  obtain ⟨hr, l, fl, hheap, hlive⟩ := h
  cases op with
  | alloc size =>
    obtain ⟨s', r, l', fl', halloc, hheap', hsame, hres⟩ := rtMemheapAlloc_spec hr hheap size
    refine ⟨addLive s' r, by simp only [step, halloc, Option.map_some], ?_⟩
    cases r with
    | none =>
      obtain ⟨rfl, rfl⟩ := hres
      exact ⟨hr, l', fl', hheap', hlive⟩
    | some p =>
      refine Inv.of_live (hsame.region hr) hheap' ?_
      intro q
      rw [hres.owned.2, hsame.live, Option.toList_some, List.singleton_append, List.mem_cons, hlive]
      tauto
  | realloc ptr newsize =>
    have hptr : ∀ p, ptr = some p → Owned c s l p := fun p hp => (hlive p).mp (hop p hp)
    obtain ⟨s', r, l', fl', hre, hheap', hsame, hres⟩ :=
      rtMemheapRealloc_spec hr hheap ptr newsize hptr (hfit.fits hr hheap.items hptr)
    by_cases hdone : r ≠ none ∨ newsize = 0
    · refine ⟨addLive (dropLive s' ptr) r, ?_, ?_⟩
      · simp only [step, hre, Option.map_some]
        rw [if_pos hdone]
      · change Inv c { s' with live := r.toList ++ s'.live.filter (fun q => some q ≠ ptr) }
        refine Inv.of_live (hsame.region hr) hheap' ?_
        intro q
        rw [hres.done hdone, List.mem_append, mem_dropLive, hsame.live, hlive, Option.mem_toList]
        tauto
    · refine ⟨s', ?_, hsame.region hr, l', fl', hheap', ?_⟩
      · simp only [step, hre, Option.map_some]
        rw [if_neg hdone]
      · intro q
        rw [not_or, not_not] at hdone
        rw [hres.failed hdone.1 hdone.2, hsame.live, hlive]
  | free ptr =>
    cases ptr with
    | none =>
      refine ⟨dropLive s none, rfl, Inv.of_live hr hheap ?_⟩
      intro q
      rw [mem_dropLive, hlive]
      simp
    | some p =>
      obtain ⟨x, rfl, hx⟩ := (hlive p).mp (hop p rfl)
      obtain ⟨s', l', fl', hfree, hheap', hsame, huse, -⟩ := rtMemheapFree_spec hr hheap hx
      refine ⟨dropLive s' (some (x + c.memheapSize)), by simp only [step, hfree, Option.map_some],
        Inv.of_live (hsame.region hr) hheap' ?_⟩
      intro q
      rw [mem_dropLive, hsame.live, hlive, owned_free huse]
      simp
  | write addr byte =>
    refine ⟨_, rfl, ?_, l, fl, hheap.data _, hlive⟩
    exact Same.region (s := s) ⟨rfl, rfl, rfl, rfl, rfl, rfl⟩ hr

/-- One free item from the start of the region to the tail item. -/
theorem fresh_inv (hr : Region c s) (hnext : s.next s.startAddr = tailItem c s)
    (hlast : s.next (tailItem c s) = s.startAddr) (hfirst : s.prev s.startAddr = tailItem c s)
    (hback : s.prev (tailItem c s) = s.startAddr) (hfreed : s.magic s.startAddr = magicFreed)
    (hused : s.magic (tailItem c s) = magicUsed) (hpool : s.poolPtr s.startAddr = s.heap)
    (hnf : s.nextFree s.freeList = s.startAddr) (hnf' : s.nextFree s.startAddr = s.freeList)
    (hpf : s.prevFree s.freeList = s.startAddr) (hpf' : s.prevFree s.startAddr = s.freeList)
    (havail : s.availableSize = s.poolSize - 2 * c.memheapSize)
    (hmax : s.maxUsedSize = s.poolSize - s.availableSize) (hlive : s.live = []) : Inv c s := by
  have hge := hr.pool_ge
  have htail : tailItem c s = s.startAddr + s.poolSize - c.memheapSize := rfl
  have hitems : Items c s [s.startAddr] := by
    refine ⟨⟨⟨rfl, by omega, hnext⟩, ?_⟩, hfirst, hlast, ?_, hused, ?_⟩
    · simp [hnext, hback]
    · simp [hfreed]
    · simp [hpool]
  have hne := hitems.ne_freeList hr (List.mem_singleton.mpr rfl)
  have hfree : isUsed s s.startAddr = false := isUsed_of_freed hfreed
  have hring : FreeRing s [s.startAddr] := by
    refine ⟨⟨hnf, hnf'⟩, ?_, ?_⟩
    · simp [hnf, hnf', hpf, hpf']
    · simpa using hne.symm
  refine ⟨hr, [s.startAddr], [s.startAddr], ⟨⟨hitems, hring, ?_⟩, ?_, ?_, ?_⟩, ?_⟩
  · intro x
    simp only [List.mem_singleton, List.not_mem_nil, not_false_eq_true, and_true]
    constructor
    · rintro rfl
      exact ⟨rfl, hfree⟩
    · exact fun h => h.1
  · intro x hx
    obtain rfl := List.mem_singleton.mp hx
    rw [hnext]
    exact .inr (isUsed_of_used hused)
  · simp only [List.map_cons, List.map_nil, List.sum_cons, List.sum_nil, itemSize, hnext]
    omega
  · rw [hmax]
  · intro p
    rw [hlive]
    simp only [List.not_mem_nil, false_iff]
    rintro ⟨x, _, hx, hu⟩
    obtain rfl := List.mem_singleton.mp hx
    rw [hfree] at hu
    simp at hu

/-- What the caller of `rt_memheap_init` provides: a region of the address space that is large
enough for two headers and does not hold the heap object. -/
structure Provided (c : Config) (freeHeader startAddr size : Nat) : Prop where
  lt : size < 2 ^ 32
  top : startAddr + size ≤ 2 ^ 32
  room : 2 * c.memheapSize ≤ rtAlignDown size c.align
  header : freeHeader < startAddr ∨ startAddr + size ≤ freeHeader

theorem init_inv {heap freeHeader startAddr size : Nat} (s : State)
    (h : Provided c freeHeader startAddr size) :
    Inv c (rtMemheapInit c heap freeHeader startAddr size s) := by
  have hsize := memheapSize_ge c
  have hroom := h.room
  have htop := h.top
  have hlt := h.lt
  have hheader := h.header
  have hdown : rtAlignDown size c.align ≤ size := Nat.div_mul_le_self _ _
  rw [rtMemheapInit]
  generalize rtAlignDown size c.align = pool at *
  have hsub : sub pool (2 * c.memheapSize) = pool - 2 * c.memheapSize :=
    wsub_eq hroom (by omega)
  have hsub' : sub pool (pool - 2 * c.memheapSize) = pool - (pool - 2 * c.memheapSize) :=
    wsub_eq (by omega) (by omega)
  have hadd : add (add startAddr (pool - 2 * c.memheapSize)) c.memheapSize =
      startAddr + pool - c.memheapSize := by
    rw [add, add, wadd_eq (a := startAddr) (by omega), wadd_eq (by omega)]
    omega
  have hst : startAddr ≠ startAddr + pool - c.memheapSize := by omega
  have hfs : freeHeader ≠ startAddr := by omega
  have hft : freeHeader ≠ startAddr + pool - c.memheapSize := by omega
  simp only [hsub, hsub', hadd, insertFree, setMagic, setPoolPtr, setNext, setPrev, setNextFree,
    setPrevFree, Function.update_self]
  refine fresh_inv ⟨?_, ?_, ?_, ?_, rfl⟩ ?_ ?_ ?_ ?_ ?_ ?_ ?_ ?_ ?_ ?_ ?_ ?_ ?_ ?_
  all_goals simp only [tailItem]
  · exact hroom
  · omega
  · omega
  · omega
  all_goals simp [hst, hfs, hfs.symm, hft]

/-- The structure and the accounts of a heap with the items `l` before the tail item and the
free list `fl`. -/
structure Structured (c : Config) (s : State) (l fl : List Nat) : Prop where
  tile : Blocks.Path c.memheapSize s.next s.startAddr (tailItem c s) l
  tile_end : tailItem c s + c.memheapSize = s.startAddr + s.poolSize
  prev : ∀ x ∈ l, s.prev (s.next x) = x
  next_tail : s.next (tailItem c s) = s.startAddr
  prev_start : s.prev s.startAddr = tailItem c s
  tail_used : isUsed s (tailItem c s) = true
  ring : Ring.Linked s.nextFree s.prevFree s.freeList fl
  free : ∀ x, x ∈ fl ↔ x ∈ l ∧ isUsed s x = false
  apart : ∀ x ∈ l, isUsed s x = true ∨ isUsed s (s.next x) = true
  available : s.availableSize = (fl.map (memitemSize c s)).sum
  peak : s.poolSize - s.availableSize ≤ s.maxUsedSize

theorem Inv.structured (h : Inv c s) : ∃ l fl, Structured c s l fl := by
  obtain ⟨hr, l, fl, hheap, _⟩ := h
  have hge := hr.pool_ge
  have hitems := hheap.items
  refine ⟨l, fl, ⟨hitems.linked.path, ?_, hitems.linked.back, hitems.last, hitems.first,
    isUsed_of_used hitems.magicTail, hheap.lists.ring, hheap.free, hheap.apart, ?_, hheap.peak⟩⟩
  · rw [tailItem]
    omega
  · rw [hheap.available]
    congr 1
    refine List.map_congr_left fun x hx => ?_
    rw [memitemSize_eq hr hitems ((hheap.free x).mp hx).1]

/-- Every run of calls on live pointers over a heap of `rt_memheap_init` returns and leaves the
heap structured, when no call of `rt_memheap_realloc` wraps. -/
theorem memheap_structured (c : Config) (heap freeHeader startAddr size : Nat) (s₀ : State)
    (hinit : Provided c freeHeader startAddr size) (ops : List Op)
    (hops : Runs.Along (step c) (Allowed c)
      (rtMemheapInit c heap freeHeader startAddr size s₀) ops)
    (hfits : Runs.Along (step c) (Unwrapped c)
      (rtMemheapInit c heap freeHeader startAddr size s₀) ops) :
    ∃ s, Runs.run (step c) (rtMemheapInit c heap freeHeader startAddr size s₀) ops = some s ∧
      ∃ l fl, Structured c s l fl := by
  obtain ⟨s, hrun, hinv⟩ := Runs.run_total_along
    (fun _ _ h hop => step_inv h hop.1 hop.2) (init_inv s₀ hinit) (hops.and hfits)
  exact ⟨s, hrun, hinv.structured⟩

/-- `RT_ALIGN_SIZE` 4, first fit. -/
def config4 : Config where
  align := 4
  bestMode := false
  align_pos := by decide
  align_dvd := by decide
  align_le := by decide

def blank : State where
  heap := 0
  startAddr := 0
  poolSize := 0
  availableSize := 0
  maxUsedSize := 0
  blockList := 0
  freeList := 0
  magic := fun _ => 0
  poolPtr := fun _ => 0
  next := fun _ => 0
  prev := fun _ => 0
  nextFree := fun _ => 0
  prevFree := fun _ => 0
  data := fun _ => 0
  live := []

/-- A heap of 1024 bytes in RAM. -/
def ramHeap : State := rtMemheapInit config4 0x20000000 0x20000028 0x20001000 1024 blank

/-- Two blocks are allocated; the first one is cut, grows into the rest and moves, and the
second one is freed between two free items. -/
def ramOps : List Op :=
  [.alloc 100, .alloc 40, .realloc (some 0x20001018) 40, .realloc (some 0x20001018) 60,
    .realloc (some 0x20001018) 200, .free (some 0x20001094), .alloc 0]

theorem memheap_structured_ram : ∃ s, Runs.run (step config4) ramHeap ramOps = some s ∧
    ∃ l fl, Structured config4 s l fl := by
  have hcheck : decide (Runs.Along (step config4) (Allowed config4) ramHeap ramOps ∧
      Runs.Along (step config4) (Unwrapped config4) ramHeap ramOps) = true := by decide +kernel
  obtain ⟨hops, hfits⟩ := of_decide_eq_true hcheck
  exact memheap_structured config4 0x20000000 0x20000028 0x20001000 1024 blank
    ⟨by decide, by decide, by decide, by decide⟩ ramOps hops hfits

/-- The request wraps in the test for growing in place: the block loses its end, and the item
behind it begins inside its header. -/
def wrappedOps : List Op := [.alloc 100, .realloc (some 0x20001018) 0xfffffff4]

theorem memheap_not_structured : ∃ s,
    Runs.Along (step config4) (Allowed config4) ramHeap wrappedOps ∧
      Runs.run (step config4) ramHeap wrappedOps = some s ∧ ¬ ∃ l fl, Structured config4 s l fl := by
  have hcheck : (Runs.run (step config4) ramHeap wrappedOps).map (fun s =>
      (s.startAddr, s.poolSize, s.next 0x20001000)) = some (0x20001000, 1024, 0x2000100c) := by
    decide +kernel
  have hops : decide (Runs.Along (step config4) (Allowed config4) ramHeap wrappedOps) = true := by
    decide +kernel
  obtain ⟨s, hrun, hs⟩ := Option.map_eq_some_iff.mp hcheck
  simp only [Prod.mk.injEq] at hs
  obtain ⟨hstart, hpool, hnext⟩ := hs
  refine ⟨s, of_decide_eq_true hops, hrun, ?_⟩
  rintro ⟨l, fl, hstruct⟩
  have hsize : config4.memheapSize = 24 := by decide
  have htile := hstruct.tile
  rw [tailItem, hsize, hstart, hpool] at htile
  have hb := htile.bounds (htile.first_mem (by decide))
  omega

end RtThread.Memheap
