import RtThread.SmallMemContents

/-!
# Requests to the small-memory heap

A request is rounded up in the word, and `rt_calloc` multiplies its two
arguments in the word. The block behind a result is as large as the rounded
request, which is smaller than the request when the word is too short for it.
-/
namespace RtThread.SmallMem

variable {a : Arch} {s s' : State} {l : List Nat}

/-- `rt_memset` inside the region. -/
def rtMemset (s : State) (dst : Nat) (byte : BitVec 8) (count : Nat) : State :=
  { s with data := fun i => if dst ≤ i ∧ i < dst + count then byte else s.data i }

/-- `rt_calloc`, with `rt_malloc` as a call of `rt_smem_alloc`. -/
def rtCalloc (a : Arch) (s : State) (count size : Nat) : Option (State × Option Nat) :=
  let total := count * size % 2 ^ a.bits
  (rtSmemAlloc a s total).map fun
    | (s, none) => (s, none)
    | (s, some p) => (rtMemset s p 0 total, some p)

/-- The calls of a run, `rt_calloc` included. -/
inductive Call where
  | op (op : Op)
  | calloc (count size : Nat)
  deriving DecidableEq

def call (a : Arch) (s : State) : Call → Option State
  | .op op => step a s op
  | .calloc count size => (rtCalloc a s count size).map fun (s, p) => addLive s p

/-- The pointer that a call returns. -/
def returned (a : Arch) (s : State) : Call → Option (Option Nat)
  | .op (.alloc size) => (rtSmemAlloc a s size).map Prod.snd
  | .op (.realloc rmem newsize) => (rtSmemRealloc a s rmem newsize).map Prod.snd
  | .calloc count size => (rtCalloc a s count size).map Prod.snd
  | .op _ => some none

/-- The number of bytes that a call asks for. -/
def Call.bytes : Call → Nat
  | .op (.alloc size) => size
  | .op (.realloc _ newsize) => newsize
  | .calloc count size => count * size
  | .op _ => 0

/-- A call with live pointers and with `rt_size_t` values. -/
def CallAllowed (a : Arch) (s : State) : Call → Prop
  | .op (.alloc size) => size < 2 ^ a.bits
  | .op (.realloc rmem newsize) => Valid s rmem ∧ newsize < 2 ^ a.bits
  | .op op => Allowed a s op
  | .calloc count size => count < 2 ^ a.bits ∧ size < 2 ^ a.bits

/-- `p` is the data pointer of a block in use with `size` bytes of data. -/
def Holds (a : Arch) (s : State) (p size : Nat) : Prop :=
  p ∈ s.live ∧ ∃ l x, Blocks.Path a.sizeofStructMem (fun x => (s.item x).next) 0 s.heapEnd l ∧
    x ∈ l ∧ p = x + a.sizeofStructMem ∧ memIsUsed (s.item x) = true ∧ p + size ≤ (s.item x).next

/-- A pointer that the call returns is that of a block with the requested bytes. -/
def Delivers (a : Arch) (s : State) (x : Call) : Prop :=
  ∀ s' p, call a s x = some s' → returned a s x = some (some p) → Holds a s' p x.bytes

/-- `rt_smem_alloc` returns a null pointer: for a request that does not reach the search, and when
no free block is large enough. -/
def Refused (a : Arch) (s : State) (size : Nat) : Prop :=
  ¬ Searches a s size ∨
    ∀ l, Blocks.Path a.sizeofStructMem (fun x => (s.item x).next) 0 s.heapEnd l →
      ∀ x ∈ l, ¬ Fits a s (searchedSize a size) x

/-- The request fits the word when it is rounded up, or is refused. -/
def Fitting (a : Arch) (s : State) : Call → Prop
  | .op (.alloc size) => size + a.align ≤ 2 ^ a.bits ∨ Refused a s size
  | .calloc count size =>
    count * size + a.align ≤ 2 ^ a.bits ∨ Refused a s (count * size % 2 ^ a.bits)
  | .op _ => True

/-! ## The invariant -/

theorem Sound.data (h : Sound a s) (d : Nat → BitVec 8) : Sound a { s with data := d } := by
  rcases h with ⟨seen, hinv⟩ | ⟨hfresh, htiny⟩
  · obtain ⟨l, hacc, hlive⟩ := hinv.heap
    have hacc' : Account a { s with data := d } l :=
      ⟨Same.ground (s := s) ⟨rfl, rfl, rfl, rfl, rfl⟩ hacc.ground,
        hacc.heap.congr rfl rfl rfl rfl, hacc.used⟩
    exact .inl ⟨seen, ⟨l, hacc', hlive⟩, hinv.used, hinv.bound, hinv.attained⟩
  · exact .inr ⟨⟨hfresh.heapEnd_eq, hfresh.lt, hfresh.heapPtr_aligned, hfresh.heapEnd_aligned,
      hfresh.pool_even, hfresh.pool_ne, hfresh.first, hfresh.last, hfresh.lfree, hfresh.live,
      hfresh.used, hfresh.max⟩, htiny⟩

/-- `rt_calloc` is `rt_smem_alloc` of the wrapped product, but for the bytes. -/
theorem calloc_allocates {count size : Nat} {r : Option Nat}
    (hcalloc : rtCalloc a s count size = some (s', r)) :
    ∃ t, rtSmemAlloc a s (count * size % 2 ^ a.bits) = some (t, r) ∧
      ∃ d, s' = { t with data := d } := by
  obtain ⟨⟨t, q⟩, halloc, heq⟩ := Option.map_eq_some_iff.mp hcalloc
  cases q with
  | none =>
    obtain ⟨rfl, rfl⟩ := Prod.mk.inj heq
    exact ⟨t, halloc, t.data, rfl⟩
  | some p =>
    cases heq
    exact ⟨t, halloc, _, rfl⟩

theorem Sound.call {x : Call} (h : Sound a s) (hx : CallAllowed a s x)
    (hcall : call a s x = some s') : Sound a s' := by
  cases x with
  | op op =>
    refine h.step ?_ hcall
    cases op with
    | alloc size => trivial
    | realloc rmem newsize => exact hx.1
    | free | write => exact hx
  | calloc count size =>
    obtain ⟨⟨t, r⟩, hcalloc, rfl⟩ := Option.map_eq_some_iff.mp hcall
    obtain ⟨u, halloc, d, rfl⟩ := calloc_allocates hcalloc
    have hstep : SmallMem.step a s (.alloc (count * size % 2 ^ a.bits)) = some (addLive u r) :=
      Option.map_eq_some_iff.mpr ⟨(u, r), halloc, rfl⟩
    have hsound := (@Sound.step a s _ (.alloc _) h trivial hstep).data d
    exact hsound

/-! ## The block behind a result -/

theorem Sound.holds (h : Sound a s) {p size : Nat} (hp : p ∈ s.live)
    (hroom : p + size ≤ dataEnd a s p) : Holds a s p size := by
  obtain ⟨l, x, n, rfl, -, hheap, hx, hu, rfl⟩ := h.owns hp
  refine ⟨hp, l, x, hheap.shape.path.weaken (Nat.le_succ _), hx, rfl, hu, ?_⟩
  rwa [dataEnd, Nat.add_sub_cancel] at hroom

theorem Holds.mono {p m n : Nat} (h : Holds a s p n) (hle : m ≤ n) : Holds a s p m := by
  obtain ⟨hp, l, x, hpath, hx, hpx, hu, hroom⟩ := h
  exact ⟨hp, l, x, hpath, hx, hpx, hu, by omega⟩

/-- A block is smaller than the address space by more than a unit of alignment. -/
theorem Holds.size_lt {p size : Nat} (h : Holds a s p size)
    (hlt : s.heapEnd + a.sizeofStructMem < 2 ^ a.bits) : size + a.align ≤ 2 ^ a.bits := by
  obtain ⟨-, l, x, hpath, hx, rfl, -, hroom⟩ := h
  have hb := hpath.bounds hx
  have hstep : a.align ≤ a.sizeofStructMem :=
    Nat.le_of_dvd (sizeofStructMem_pos a) (dvd_rtAlign _ _ _)
  omega

theorem Sound.heapEnd_lt (h : Sound a s) : s.heapEnd + a.sizeofStructMem < 2 ^ a.bits := by
  rcases h with ⟨seen, hinv⟩ | ⟨hfresh, -⟩
  · obtain ⟨l, hacc, -⟩ := hinv.heap
    have hlt : s.heapPtr + s.heapEnd + a.sizeofStructMem < 2 ^ a.bits := hacc.ground.lt
    omega
  · have hlt := hfresh.lt
    omega

/-! ## `rt_smem_alloc` and `rt_calloc` -/

/-- A result of `rt_smem_alloc` is the pointer of a block of the size that was searched for. -/
theorem Sound.alloc_holds (h : Sound a s) {size p : Nat}
    (halloc : rtSmemAlloc a s size = some (s', some p)) :
    Holds a (addLive s' (some p)) p (searchedSize a size) ∧
      (addLive s' (some p)).heapEnd = s.heapEnd ∧ ¬ Refused a s size := by
  rcases h with ⟨seen, hinv⟩ | ⟨hfresh, htiny⟩
  · obtain ⟨l, hacc, -⟩ := hinv.heap
    have hstep : SmallMem.step a s (.alloc size) = some (addLive s' (some p)) :=
      Option.map_eq_some_iff.mpr ⟨(s', some p), halloc, rfl⟩
    have hsound := @Sound.step a s _ (.alloc size) (.inl ⟨seen, hinv⟩) trivial hstep
    have hroom := rtSmemAlloc_room hacc.ground hacc.heap halloc
    obtain ⟨hsearches, x, hx, -, hfits, -⟩ := rtSmemAlloc_takes hacc.ground hacc.heap halloc
    refine ⟨hsound.holds List.mem_cons_self hroom, (step_fixed hstep).heapEnd, ?_⟩
    rintro (hno | hno)
    · exact hno hsearches
    · exact hno l (hacc.heap.shape.path.weaken (Nat.le_succ _)) x hx hfits
  · obtain ⟨-, hnone⟩ := rtSmemAlloc_tiny hfresh htiny halloc
    cases hnone

/-- A request that is not refused gets a block. -/
theorem Sound.alloc_found (h : Sound a s) {size : Nat} (hfound : ¬ Refused a s size) :
    ∃ s' p, rtSmemAlloc a s size = some (s', some p) := by
  rw [Refused, not_or, not_not] at hfound
  obtain ⟨hsearches, hfits⟩ := hfound
  push Not at hfits
  obtain ⟨l, hpath, x, hx, hfit⟩ := hfits
  rcases h with ⟨seen, hinv⟩ | ⟨hfresh, htiny⟩
  · obtain ⟨l', hacc, -⟩ := hinv.heap
    obtain ⟨s', r, halloc, hfirst⟩ := rtSmemAlloc_firstFit hacc.ground hacc.heap hsearches
    obtain rfl : l' = l := hacc.heap.shape.path.unique hpath (by omega) (sizeofStructMem_pos a)
    cases r with
    | none => exact absurd hfit (hfirst x hx)
    | some p => exact ⟨s', p, halloc⟩
  · have hb := hpath.bounds hx
    have hroom := hfit.2
    have heq := hfresh.heapEnd_eq
    have hle : a.minSizeAligned ≤ searchedSize a size := by
      rw [searchedSize_eq_max]
      exact Nat.le_max_right _ _
    omega

/-- A call that allocates the request for `bytes` taken in the word. -/
theorem Sound.alloc_delivers_iff (h : Sound a s) {bytes : Nat} :
    (∀ s' p, rtSmemAlloc a s (bytes % 2 ^ a.bits) = some (s', some p) →
        Holds a (addLive s' (some p)) p bytes) ↔
      bytes + a.align ≤ 2 ^ a.bits ∨ Refused a s (bytes % 2 ^ a.bits) := by
  have hpos := a.align_pos
  constructor
  · intro hdelivers
    by_contra hnot
    rw [not_or] at hnot
    obtain ⟨s', p, halloc⟩ := h.alloc_found hnot.2
    obtain ⟨-, hend, -⟩ := h.alloc_holds halloc
    have hlt := h.heapEnd_lt
    rw [← hend] at hlt
    exact hnot.1 ((hdelivers s' p halloc).size_lt hlt)
  · rintro (hfit | hrefused) s' p halloc
    · obtain ⟨hholds, -, -⟩ := h.alloc_holds halloc
      rw [Nat.mod_eq_of_lt (by omega), searchedSize_eq_max] at hholds
      exact hholds.mono ((le_rtAlign hpos (by omega)).trans (Nat.le_max_left _ _))
    · obtain ⟨-, -, hfound⟩ := h.alloc_holds halloc
      exact absurd hrefused hfound

/-! ## `rt_smem_realloc` -/

/-- On a heap with room for a block, a result of `rt_smem_realloc` has the requested bytes. -/
theorem rtSmemRealloc_room (hr : Ground a s) (h : Heap a s l)
    (hlive : ∀ p, p ∈ s.live ↔ InUse a s l p) {rmem : Option Nat} {newsize q : Nat}
    (hvalid : Valid s rmem) (hword : newsize < 2 ^ a.bits)
    (hre : rtSmemRealloc a s rmem newsize = some (s', some q)) : q + newsize ≤ dataEnd a s' q := by
  have hcase := rtSmemRealloc_cases hr h rmem (fun p hp => (hlive p).mp (hvalid p hp)) newsize
  by_cases hzero : rtAlign a.bits newsize a.align = 0
  · rw [hre] at hcase
    generalize hresult : some (s', some q) = result at hcase
    cases hcase with
    | tooLarge _ _ => cases hresult
    | free _ _ =>
      obtain ⟨t, -, heq⟩ := Option.map_eq_some_iff.mp hresult.symm
      exact absurd (Prod.mk.inj heq).2 (by simp)
    | alloc hnew _ _ | keep hnew _ _ _ _ | shrink hnew _ _ _ _ _ | move hnew _ _ _ =>
      exact absurd hzero hnew
  · have hwrap : newsize + a.align ≤ 2 ^ a.bits := by
      by_contra hlt
      exact hzero (rtAlign_wrapped a.align_dvd hword (by omega))
    have hpos := a.align_pos
    cases rmem with
    | some p =>
      have hnew : 0 < newsize := by
        by_contra hnot
        obtain rfl : newsize = 0 := by omega
        refine hzero ?_
        rw [rtAlign, Nat.mod_eq_of_lt (by omega), Nat.div_eq_of_lt (by omega), Nat.zero_mul]
      exact ((rtSmemRealloc_preserved hr h hlive (hvalid p rfl) hnew hwrap hre).2 q rfl).room
    | none =>
      rw [hre] at hcase
      generalize hresult : some (s', some q) = result at hcase
      have hidem := rtAlign_idem a.align_pos a.align_dvd newsize
      have hle : newsize ≤ rtAlign a.bits newsize a.align := le_rtAlign hpos (by omega)
      generalize rtAlign a.bits newsize a.align = new at *
      cases hcase with
      | tooLarge _ _ => cases hresult
      | free hnew _ => exact absurd hnew hzero
      | alloc _ _ _ =>
        have hroom := rtSmemAlloc_room hr h hresult.symm
        rw [searchedSize_eq_max, hidem] at hroom
        have hmax : newsize ≤ Nat.max new a.minSizeAligned := hle.trans (Nat.le_max_left _ _)
        exact (Nat.add_le_add_left hmax q).trans hroom
      | keep _ hptr _ _ _ | shrink _ hptr _ _ _ _ | move _ hptr _ _ => cases hptr

theorem Sound.realloc_holds (h : Sound a s) {rmem : Option Nat} {newsize q : Nat}
    (hvalid : Valid s rmem) (hword : newsize < 2 ^ a.bits)
    (hre : rtSmemRealloc a s rmem newsize = some (s', some q)) :
    Holds a (addLive (dropLive s' rmem) (some q)) q newsize := by
  have hstep : SmallMem.step a s (.realloc rmem newsize) =
      some (addLive (dropLive s' rmem) (some q)) := by
    rw [SmallMem.step, hre, Option.map_some]
    simp
  have hsound := @Sound.step a s _ (.realloc rmem newsize) h hvalid hstep
  refine hsound.holds List.mem_cons_self ?_
  rcases h with ⟨seen, hinv⟩ | ⟨hfresh, htiny⟩
  · obtain ⟨l, hacc, hlive⟩ := hinv.heap
    have hroom := rtSmemRealloc_room hacc.ground hacc.heap hlive hvalid hword hre
    exact hroom
  · have hsame := @step_tiny s _ a (.realloc rmem newsize) hfresh htiny hvalid hstep
    have hmem : q ∈ s.live := hsame ▸ List.mem_cons_self
    rw [hfresh.live] at hmem
    cases hmem

/-! ## Every call -/

theorem Sound.delivers_iff (h : Sound a s) {x : Call} (hx : CallAllowed a s x) :
    Delivers a s x ↔ Fitting a s x := by
  cases x with
  | calloc count size =>
    rw [Fitting, ← h.alloc_delivers_iff]
    constructor
    · intro hdelivers t p halloc
      have hcalloc : rtCalloc a s count size =
          some (rtMemset t p 0 (count * size % 2 ^ a.bits), some p) :=
        Option.map_eq_some_iff.mpr ⟨(t, some p), halloc, rfl⟩
      have hholds := hdelivers _ p (Option.map_eq_some_iff.mpr ⟨_, hcalloc, rfl⟩)
        (Option.map_eq_some_iff.mpr ⟨_, hcalloc, rfl⟩)
      exact hholds
    · intro hholds s' p hcall hret
      obtain ⟨⟨t, r⟩, hcalloc, rfl⟩ := Option.map_eq_some_iff.mp hcall
      obtain rfl : r = some p := by simpa [returned, hcalloc] using hret
      obtain ⟨u, halloc, d, rfl⟩ := calloc_allocates hcalloc
      have hblock := hholds u p halloc
      exact hblock
  | op op =>
    cases op with
    | alloc size =>
      have hmod : size % 2 ^ a.bits = size := Nat.mod_eq_of_lt hx
      have hiff := @Sound.alloc_delivers_iff a s h size
      rw [hmod] at hiff
      rw [Fitting, ← hiff]
      constructor
      · intro hdelivers t p halloc
        exact hdelivers _ p (Option.map_eq_some_iff.mpr ⟨_, halloc, rfl⟩)
          (Option.map_eq_some_iff.mpr ⟨_, halloc, rfl⟩)
      · intro hholds s' p hcall hret
        obtain ⟨⟨t, r⟩, halloc, rfl⟩ := Option.map_eq_some_iff.mp hcall
        obtain rfl : r = some p := by simpa [returned, halloc] using hret
        exact hholds t p halloc
    | realloc rmem newsize =>
      refine iff_of_true ?_ trivial
      intro s' p hcall hret
      obtain ⟨⟨t, r⟩, hre, rfl⟩ := Option.map_eq_some_iff.mp hcall
      obtain rfl : r = some p := by simpa [returned, hre] using hret
      simpa [Call.bytes] using h.realloc_holds hx.1 hx.2 hre
    | free | write => exact iff_of_true (fun s' p _ hret => by simp [returned] at hret) trivial

/-- A result of a request that the word is too short for. -/
theorem Sound.not_delivers (h : Sound a s) {x : Call} (hx : CallAllowed a s x)
    (hlarge : 2 ^ a.bits < x.bytes + a.align) {p : Nat} (hcall : SmallMem.call a s x = some s')
    (hret : returned a s x = some (some p)) : ¬ Delivers a s x := by
  intro hdelivers
  have hfits := (hdelivers s' p hcall hret).size_lt (h.call hx hcall).heapEnd_lt
  omega

end RtThread.SmallMem
