import RtThread.SmallMemCalls

/-!
# The small-memory heap along runs

Every call on pointers that are in use returns and keeps the structure of the
heap, so every run of such calls does.
-/
namespace RtThread.SmallMem

/-- The data pointer `p` belongs to a block in use. -/
def InUse (a : Arch) (s : State) (l : List Nat) (p : Nat) : Prop :=
  ∃ x n, p = x + a.sizeofStructMem ∧ Owns s l x n

/-- What `rt_smem_realloc` does to the pointers in use: either it failed and nothing changed,
or the old pointer was given back and the result is in use. -/
structure Reallocated (a : Arch) (s : State) (l : List Nat) (s' : State) (l' : List Nat)
    (rmem : Option Nat) (newsize : Nat) (r : Option Nat) : Prop where
  failed : r = none → newsize ≠ 0 → ∀ p, InUse a s' l' p ↔ InUse a s l p
  done : r ≠ none ∨ newsize = 0 →
    (∀ p, InUse a s' l' p ↔ InUse a s l p ∧ some p ≠ rmem ∨ r = some p) ∧
      ∀ p, r = some p → ¬ (InUse a s l p ∧ some p ≠ rmem)

variable {a : Arch} {s s' s₁ : State} {l l' live l₁ : List Nat}
  {n p x beginAddr new nmem size : Nat} {r rmem : Option Nat} {item : Nat → Item}
  {data : Nat → BitVec 8}

theorem Allocated.inUse (h : Allocated a s l s' l' (some p)) :
    ¬ InUse a s l p ∧ ∀ q, InUse a s' l' q ↔ InUse a s l q ∨ q = p := by
  obtain ⟨x, n, rfl, hnot, howns⟩ := h
  constructor
  · rintro ⟨y, m, heq, hy⟩
    obtain rfl : y = x := by omega
    exact hnot m hy
  · intro q
    constructor
    · rintro ⟨y, m, rfl, hy⟩
      obtain hy | ⟨rfl, rfl⟩ := (howns y m).mp hy
      · exact .inl ⟨y, m, rfl, hy⟩
      · exact .inr rfl
    · rintro (⟨y, m, rfl, hy⟩ | rfl)
      · exact ⟨y, m, rfl, (howns y m).mpr (.inl hy)⟩
      · exact ⟨x, n, rfl, (howns x n).mpr (.inr ⟨rfl, rfl⟩)⟩

/-- Giving back the block at `x`. -/
theorem inUse_free (howns : ∀ z m, Owns s' l' z m ↔ Owns s l z m ∧ z ≠ x) (q : Nat) :
    InUse a s' l' q ↔ InUse a s l q ∧ q ≠ x + a.sizeofStructMem := by
  constructor
  · rintro ⟨y, m, rfl, hy⟩
    obtain ⟨hy, hne⟩ := (howns y m).mp hy
    exact ⟨⟨y, m, rfl, hy⟩, by omega⟩
  · rintro ⟨⟨y, m, rfl, hy⟩, hne⟩
    exact ⟨y, m, rfl, (howns y m).mpr ⟨hy, by omega⟩⟩

theorem Heap.congr (h : Heap a s l) (hi : s'.item = s.item) (he : s'.heapEnd = s.heapEnd)
    (hp : s'.pool = s.pool) (hlf : s'.lfree = s.lfree) : Heap a s' l := by
  have hu : ∀ z, usedAt s' z = usedAt s z := fun z => by rw [usedAt, usedAt, hi]
  refine ⟨h.shape.congr hi he hp, ?_, ⟨?_, ?_⟩⟩
  · intro z hz
    rw [hi, he, hu, hu]
    exact h.apart z hz
  · rw [hlf, he, hu]
    exact h.lowest.mem
  · intro z hz
    rw [hlf, hu]
    exact h.lowest.le z hz

/-- The bytes of data of the block that `rt_smem_realloc` is given. -/
def oldSize (a : Arch) (s : State) (rmem : Nat) : Nat :=
  a.sub (a.sub (s.item (a.sub rmem a.sizeofStructMem)).next (a.sub rmem a.sizeofStructMem))
    a.sizeofStructMem

/-- `rt_smem_realloc` allocates another block for the data, of the aligned size `new`. -/
def Moves (a : Arch) (s : State) (rmem : Option Nat) (new : Nat) : Prop :=
  new ≤ s.memSizeAligned ∧ new ≠ 0 ∧
    match rmem with
    | none => False
    | some p => oldSize a s p ≠ new ∧
        ¬ a.add (a.add new a.sizeofStructMem) a.minSize < oldSize a s p

instance (a : Arch) (s : State) (rmem : Option Nat) (new : Nat) :
    Decidable (Moves a s rmem new) := by
  unfold Moves
  cases rmem <;> infer_instance

/-- The move of `rt_smem_realloc`: allocate, copy, free. -/
def moveBlock (a : Arch) (s : State) (rmem size count : Nat) : Option (State × Option Nat) :=
  (rtSmemAlloc a s size).bind fun
    | (s, none) => some (s, none)
    | (s, some nmem) => (rtSmemFree a (rtMemcpy s nmem rmem count) (some rmem)).map
        fun s => (s, some nmem)

/-- The shrinking of `rt_smem_realloc`: the block at `x` is cut at `y`, which frees `refund`
bytes. -/
def shrinkBlock (a : Arch) (s : State) (x y refund : Nat) : Option State :=
  let s := splitAt a { s with used := a.sub s.used refund } x y
  plugHoles { s with lfree := if y < s.lfree then y else s.lfree } y

/-- What `rt_smem_realloc` comes down to, for a pointer in use and the aligned size `new`. -/
inductive ReallocCase (a : Arch) (s : State) (l : List Nat) (rmem : Option Nat) (new : Nat) :
    Option (State × Option Nat) → Prop where
  | tooLarge (hlarge : s.memSizeAligned < new) (hstay : ¬ Moves a s rmem new) :
      ReallocCase a s l rmem new (some (s, none))
  | free (hnew : new = 0) (hstay : ¬ Moves a s rmem new) :
      ReallocCase a s l rmem new ((rtSmemFree a s rmem).map fun s => (s, none))
  | alloc (hnew : new ≠ 0) (hnull : rmem = none) (hstay : ¬ Moves a s rmem new) :
      ReallocCase a s l rmem new (rtSmemAlloc a s new)
  | keep {x n : Nat} (hnew : new ≠ 0) (hptr : rmem = some (x + a.sizeofStructMem))
      (hx : Owns s l x n) (hsize : n = x + a.sizeofStructMem + new)
      (hstay : ¬ Moves a s rmem new) :
      ReallocCase a s l rmem new (some (s, rmem))
  | shrink {x n : Nat} (hnew : new ≠ 0) (hptr : rmem = some (x + a.sizeofStructMem))
      (hx : Owns s l x n)
      (hroom : x + a.sizeofStructMem + new + a.sizeofStructMem + a.minSize < n)
      (halign : a.align ∣ x + a.sizeofStructMem + new) (hstay : ¬ Moves a s rmem new) :
      ReallocCase a s l rmem new
        ((shrinkBlock a s x (x + a.sizeofStructMem + new)
          (n - (x + a.sizeofStructMem + new))).map fun s => (s, rmem))
  | move {x n : Nat} (hnew : new ≠ 0) (hptr : rmem = some (x + a.sizeofStructMem))
      (hx : Owns s l x n) (hmoves : Moves a s rmem new) :
      ReallocCase a s l rmem new
        (moveBlock a s (x + a.sizeofStructMem) new (min (n - x - a.sizeofStructMem) new))

theorem rtSmemRealloc_cases (hr : Ground a s) (h : Heap a s l) (rmem : Option Nat)
    (hrmem : ∀ p, rmem = some p → InUse a s l p) (newsize : Nat) :
    ReallocCase a s l rmem (rtAlign a.bits newsize a.align) (rtSmemRealloc a s rmem newsize) := by
  have hlt := hr.lt
  have hend := hr.heapEnd_eq
  have halh : a.align ∣ a.sizeofStructMem := dvd_rtAlign _ _ _
  have haln : a.align ∣ rtAlign a.bits newsize a.align := dvd_rtAlign _ _ _
  unfold rtSmemRealloc
  dsimp only
  generalize rtAlign a.bits newsize a.align = new at *
  split
  · rename_i hbig
    exact .tooLarge hbig fun hm => absurd hm.1 (by omega)
  · rename_i hfits
    split
    · rename_i hzero
      exact .free hzero fun hm => hm.2.1 hzero
    · rename_i hnew
      cases rmem with
      | none => exact .alloc hnew rfl fun hm => hm.2.2
      | some p =>
        obtain ⟨x, n, rfl, hx⟩ := hrmem p rfl
        have hb := h.shape.bounds hx.1
        have hn := hx.2.2
        have hdata : a.align ∣ a.add s.heapPtr (x + a.sizeofStructMem) := by
          rw [Arch.add, wadd_eq (by omega)]
          exact Nat.dvd_add hr.heapPtr_aligned (Nat.dvd_add (h.shape.aligned x hx.1) halh)
        have hptr : a.sub (x + a.sizeofStructMem) a.sizeofStructMem = x := by
          rw [Arch.sub, wsub_eq (by omega) (by omega), Nat.add_sub_cancel]
        have hsize : a.sub (a.sub (s.item x).next x) a.sizeofStructMem =
            n - x - a.sizeofStructMem := by
          rw [Arch.sub, Arch.sub, wsub_eq (a := (s.item x).next) (by omega) (by omega),
            wsub_eq (by omega) (by omega), hn]
        have hold : oldSize a s (x + a.sizeofStructMem) = n - x - a.sizeofStructMem := by
          rw [oldSize, hptr, hsize]
        have hmin := a.minSize_le
        have hitem : a.itemSize ≤ a.sizeofStructMem := le_rtAlign a.align_pos (itemSize_lt a)
        have hneed : a.add (a.add new a.sizeofStructMem) a.minSize =
            new + a.sizeofStructMem + a.minSize := by
          rw [Arch.add, Arch.add, wadd_eq (b := a.sizeofStructMem) (by omega), wadd_eq (by omega)]
        have hmoves : Moves a s (some (x + a.sizeofStructMem)) new ↔
            n - x - a.sizeofStructMem ≠ new ∧
              ¬ new + a.sizeofStructMem + a.minSize < n - x - a.sizeofStructMem := by
          simp only [Moves, hold, hneed]
          exact ⟨fun hm => hm.2.2, fun hm => ⟨by omega, hnew, hm⟩⟩
        simp only [hptr, hsize, hneed]
        rw [if_pos ⟨hdata, by omega⟩]
        split
        · rename_i hsame
          exact .keep hnew rfl hx (by omega) fun hm => (hmoves.mp hm).1 hsame
        · rename_i hdiff
          split
          · rename_i hshrink
            have hy : a.add (a.add x a.sizeofStructMem) new = x + a.sizeofStructMem + new := by
              rw [Arch.add, Arch.add, wadd_eq (b := a.sizeofStructMem) (by omega),
                wadd_eq (by omega)]
            have hrefund : a.sub (n - x - a.sizeofStructMem) new =
                n - (x + a.sizeofStructMem + new) := by
              rw [Arch.sub, wsub_eq (by omega) (by omega)]
              omega
            rw [hy, hrefund]
            exact .shrink hnew rfl hx (by omega)
              (Nat.dvd_add (Nat.dvd_add (h.shape.aligned x hx.1) halh) haln)
              fun hm => (hmoves.mp hm).2 hshrink
          · rename_i hlarge
            exact .move hnew rfl hx (hmoves.mpr ⟨hdiff, hlarge⟩)

theorem Reallocated.unchanged (hnew : new ≠ 0) : Reallocated a s l s l rmem new none := by
  refine ⟨fun _ _ _ => Iff.rfl, ?_⟩
  rintro (hne | hz)
  · exact absurd rfl hne
  · exact absurd hz hnew

theorem Reallocated.freedNull (hnew : new = 0) : Reallocated a s l s l none new none :=
  ⟨fun _ hne => absurd hnew hne, fun _ => ⟨by simp, by simp⟩⟩

theorem Reallocated.freed (hnew : new = 0) (howns : ∀ z m, Owns s' l' z m ↔ Owns s l z m ∧ z ≠ x) :
    Reallocated a s l s' l' (some (x + a.sizeofStructMem)) new none := by
  refine ⟨fun _ hne => absurd hnew hne, fun _ => ⟨?_, by simp⟩⟩
  intro p
  rw [inUse_free howns]
  simp

theorem Reallocated.allocated (hnew : new ≠ 0) (hres : Allocated a s l s' l' r) :
    Reallocated a s l s' l' none new r := by
  cases r with
  | none =>
    obtain ⟨rfl, rfl⟩ := hres
    exact .unchanged hnew
  | some nmem =>
    obtain ⟨hfresh, huse⟩ := hres.inUse
    refine ⟨by simp, fun _ => ⟨?_, ?_⟩⟩
    · intro p
      rw [huse]
      simp [eq_comm]
    · rintro p hp ⟨hin, _⟩
      cases hp
      exact hfresh hin

/-- The block stays where it is, with another end. -/
theorem Reallocated.kept {m : Nat}
    (howns : ∀ z k, Owns s' l' z k ↔ Owns s l z k ∧ z ≠ x ∨ z = x ∧ k = m) :
    Reallocated a s l s' l' (some (x + a.sizeofStructMem)) new
      (some (x + a.sizeofStructMem)) := by
  refine ⟨by simp, fun _ => ⟨?_, ?_⟩⟩
  · intro q
    simp only [ne_eq, Option.some.injEq]
    constructor
    · rintro ⟨y, k, rfl, hy⟩
      obtain ⟨hy, hne⟩ | ⟨rfl, _⟩ := (howns y k).mp hy
      · exact .inl ⟨⟨y, k, rfl, hy⟩, by omega⟩
      · exact .inr rfl
    · rintro (⟨⟨y, k, rfl, hy⟩, hne⟩ | rfl)
      · exact ⟨y, k, rfl, (howns y k).mpr (.inl ⟨hy, by omega⟩)⟩
      · exact ⟨x, m, rfl, (howns x m).mpr (.inr ⟨rfl, rfl⟩)⟩
  · rintro q hq ⟨_, hne⟩
    exact hne hq.symm

theorem Owns.self_iff (hx : Owns s l x n) (z k : Nat) :
    Owns s l z k ↔ Owns s l z k ∧ z ≠ x ∨ z = x ∧ k = n := by
  constructor
  · intro hz
    by_cases hzx : z = x
    · subst hzx
      exact .inr ⟨rfl, hz.2.2.symm.trans hx.2.2⟩
    · exact .inl ⟨hz, hzx⟩
  · rintro (⟨hz, _⟩ | ⟨rfl, rfl⟩)
    · exact hz
    · exact hx

/-- The block has been allocated anew, and then freed. -/
theorem Reallocated.moved (hx : Owns s l x n) (hres : Allocated a s l s₁ l₁ (some nmem))
    (howns : ∀ z m, Owns s' l' z m ↔ Owns s₁ l₁ z m ∧ z ≠ x) :
    Reallocated a s l s' l' (some (x + a.sizeofStructMem)) new (some nmem) := by
  obtain ⟨hfresh, huse⟩ := hres.inUse
  have hin : InUse a s l (x + a.sizeofStructMem) := ⟨x, n, rfl, hx⟩
  have huse' : ∀ p, InUse a s' l' p ↔
      (InUse a s l p ∨ p = nmem) ∧ p ≠ x + a.sizeofStructMem := by
    intro p
    rw [inUse_free howns, huse]
  have hne : nmem ≠ x + a.sizeofStructMem := by
    rintro rfl
    exact hfresh hin
  refine ⟨by simp, fun _ => ⟨?_, ?_⟩⟩
  · intro p
    rw [huse' p]
    simp only [ne_eq, Option.some.injEq]
    constructor
    · rintro ⟨hp | rfl, hne'⟩
      · exact .inl ⟨hp, hne'⟩
      · exact .inr rfl
    · rintro (⟨hp, hne'⟩ | rfl)
      · exact ⟨.inl hp, hne'⟩
      · exact ⟨.inr rfl, hne⟩
  · rintro p hp ⟨hin', _⟩
    cases hp
    exact hfresh hin'

/-- The heap that `rt_smem_realloc` frees the old block in. -/
theorem Allocated.copied (hx : Owns s l x n) (hres : Allocated a s l s₁ l₁ (some nmem))
    (hheap : Heap a s₁ l₁) (hsame : Same s s₁) (count : Nat) :
    let s₂ := rtMemcpy s₁ nmem (x + a.sizeofStructMem) count
    Heap a s₂ l₁ ∧ Same s s₂ ∧ Owns s₂ l₁ x n ∧ ∀ z m, Owns s₂ l₁ z m ↔ Owns s₁ l₁ z m := by
  obtain ⟨y, k, -, -, howns⟩ := hres
  exact ⟨hheap.congr rfl rfl rfl rfl, hsame.trans ⟨rfl, rfl, rfl, rfl, rfl⟩,
    (howns x n).mpr (.inl hx), fun _ _ => Iff.rfl⟩

theorem rtSmemRealloc_spec (hr : Region a s) (h : Heap a s l) (rmem : Option Nat)
    (hrmem : ∀ p, rmem = some p → InUse a s l p) (newsize : Nat) :
    ∃ s' r l', rtSmemRealloc a s rmem newsize = some (s', r) ∧ Heap a s' l' ∧ Same s s' ∧
      Reallocated a s l s' l' rmem (rtAlign a.bits newsize a.align) r := by
  have hcase := rtSmemRealloc_cases hr.toGround h rmem hrmem newsize
  generalize rtSmemRealloc a s rmem newsize = result at hcase
  cases hcase with
  | tooLarge hlarge _ => exact ⟨s, none, l, rfl, h, .refl s, .unchanged (by omega)⟩
  | free hnew _ =>
    cases rmem with
    | none => exact ⟨s, none, l, rfl, h, .refl s, .freedNull hnew⟩
    | some p =>
      obtain ⟨x, n, rfl, hx⟩ := hrmem p rfl
      obtain ⟨s', l', hfree, hheap, hsame, howns⟩ := rtSmemFree_spec hr h hx
      exact ⟨s', none, l', by rw [hfree]; rfl, hheap, hsame, .freed hnew howns⟩
  | alloc hnew hnull _ =>
    obtain ⟨s', r, l', halloc, hheap, hsame, hres⟩ := rtSmemAlloc_spec hr.toGround h
      (rtAlign a.bits newsize a.align)
    rw [hnull]
    exact ⟨s', r, l', halloc, hheap, hsame, .allocated hnew hres⟩
  | keep hnew hptr hx _ _ =>
    rw [hptr]
    exact ⟨s, _, l, rfl, h, .refl s, .kept hx.self_iff⟩
  | @shrink x n hnew hptr hx hroom halign _ =>
    obtain ⟨s', l', hplug, hheap, hsame, howns⟩ := shrink_spec hr.toGround h hx
      (y := x + a.sizeofStructMem + rtAlign a.bits newsize a.align) (by omega) (by omega) halign
      (a.sub s.used (n - (x + a.sizeofStructMem + rtAlign a.bits newsize a.align)))
    rw [hptr]
    exact ⟨s', _, l', Option.map_eq_some_iff.mpr ⟨s', hplug, rfl⟩, hheap, hsame, .kept howns⟩
  | @move x n hnew hptr hx _ =>
    obtain ⟨s₁, r, l₁, halloc, hheap, hsame, hres⟩ := rtSmemAlloc_spec hr.toGround h
      (rtAlign a.bits newsize a.align)
    rw [moveBlock, halloc, Option.bind_some, hptr]
    cases r with
    | none =>
      obtain ⟨rfl, rfl⟩ := hres
      exact ⟨s₁, none, l₁, rfl, hheap, hsame, .unchanged hnew⟩
    | some nmem =>
      obtain ⟨hheap₂, hsame₂, hx₂, hiff⟩ := hres.copied hx hheap hsame
        (min (n - x - a.sizeofStructMem) (rtAlign a.bits newsize a.align))
      obtain ⟨s', l', hfree, hheap', hsame', howns⟩ :=
        rtSmemFree_spec (hsame₂.region hr) hheap₂ hx₂
      refine ⟨s', some nmem, l', Option.map_eq_some_iff.mpr ⟨s', hfree, rfl⟩, hheap',
        hsame₂.trans hsame', .moved hx hres fun z m => ?_⟩
      rw [howns, hiff]

/-! ## Runs -/

/-- A pointer a program may pass: null, or currently allocated. -/
def Valid (s : State) (rmem : Option Nat) : Prop := ∀ p ∈ rmem, p ∈ s.live

/-- The calls a program may make: with valid pointers, and it writes to its own blocks only. -/
def Allowed (a : Arch) (s : State) : Op → Prop
  | .alloc _ => True
  | .realloc rmem _ => Valid s rmem
  | .free rmem => Valid s rmem
  | .write off _ => ∃ p ∈ s.live, p ≤ off ∧ off < (s.item (p - a.sizeofStructMem)).next

instance (a : Arch) (s : State) : ∀ op, Decidable (Allowed a s op)
  | .alloc _ => inferInstanceAs (Decidable True)
  | .realloc rmem _ => inferInstanceAs (Decidable (∀ p ∈ rmem, p ∈ s.live))
  | .free rmem => inferInstanceAs (Decidable (∀ p ∈ rmem, p ∈ s.live))
  | .write off _ => inferInstanceAs
      (Decidable (∃ p ∈ s.live, p ≤ off ∧ off < (s.item (p - a.sizeofStructMem)).next))

structure Inv (a : Arch) (s : State) : Prop where
  region : Region a s
  heap : ∃ l, Heap a s l ∧ ∀ p, p ∈ s.live ↔ InUse a s l p
  nodup : s.live.Nodup

/-- A heap whose pointers in use changed like the list `live`. -/
theorem Inv.of_live (hr : Region a s) (h : Heap a s l) (huse : ∀ p, p ∈ live ↔ InUse a s l p)
    (hnd : live.Nodup) : Inv a { s with live := live } := by
  have hground : Ground a { s with live := live } :=
    ⟨hr.heapEnd_eq, hr.lt, hr.heapPtr_aligned, hr.heapEnd_aligned, hr.pool_even, hr.pool_ne,
      hr.min_le⟩
  refine ⟨⟨hground, hr.pool_lt⟩, ⟨l, h.congr rfl rfl rfl rfl, ?_⟩, hnd⟩
  exact huse

theorem mem_dropLive : p ∈ live.filter (fun q => some q ≠ rmem) ↔ p ∈ live ∧ some p ≠ rmem := by
  simp

/-- The list of the pointers handed out follows the blocks in use. -/
theorem live_alloc (hlive : ∀ p, p ∈ s.live ↔ InUse a s l p) (hsame : Same s s')
    (hres : Allocated a s l s' l' r) (q : Nat) : q ∈ r.toList ++ s'.live ↔ InUse a s' l' q := by
  cases r with
  | none =>
    obtain ⟨rfl, rfl⟩ := hres
    exact hlive q
  | some p =>
    obtain ⟨-, huse⟩ := hres.inUse
    rw [huse, hsame.live, Option.toList_some, List.singleton_append, List.mem_cons, hlive]
    tauto

theorem live_free (hlive : ∀ p, p ∈ s.live ↔ InUse a s l p) (hsame : Same s s')
    (howns : ∀ z m, Owns s' l' z m ↔ Owns s l z m ∧ z ≠ x) (q : Nat) :
    q ∈ s'.live.filter (fun q => some q ≠ some (x + a.sizeofStructMem)) ↔ InUse a s' l' q := by
  rw [mem_dropLive, hsame.live, hlive, inUse_free howns]
  simp

theorem live_realloc (hlive : ∀ p, p ∈ s.live ↔ InUse a s l p) (hsame : Same s s')
    (hres : Reallocated a s l s' l' rmem new r) (q : Nat) :
    q ∈ (if r ≠ none ∨ new = 0 then addLive (dropLive s' rmem) r else s').live ↔
      InUse a s' l' q := by
  split
  · rename_i hdone
    obtain ⟨huse, -⟩ := hres.done hdone
    rw [huse, addLive, dropLive, List.mem_append, mem_dropLive, hsame.live, hlive,
      Option.mem_toList]
    tauto
  · rename_i hdone
    rw [not_or, not_not] at hdone
    rw [hres.failed hdone.1 hdone.2, hsame.live, hlive]

theorem step_inv {op : Op} (h : Inv a s) (hop : Allowed a s op) :
    ∃ s', step a s op = some s' ∧ Inv a s' := by
  obtain ⟨hr, ⟨l, hheap, hlive⟩, hnd⟩ := h
  cases op with
  | alloc size =>
    obtain ⟨s', r, l', halloc, hheap', hsame, hres⟩ := rtSmemAlloc_spec hr.toGround hheap size
    refine ⟨addLive s' r, by simp only [step, halloc, Option.map_some],
      Inv.of_live (hsame.region hr) hheap' (live_alloc hlive hsame hres) ?_⟩
    rw [hsame.live]
    cases r with
    | none => exact hnd
    | some p => exact List.nodup_cons.mpr ⟨fun hp => hres.inUse.1 ((hlive p).mp hp), hnd⟩
  | realloc rmem newsize =>
    obtain ⟨s', r, l', hre, hheap', hsame, hres⟩ := rtSmemRealloc_spec hr hheap rmem
      (fun p hp => (hlive p).mp (hop p hp)) newsize
    have hmem := live_realloc hlive hsame hres
    by_cases hdone : r ≠ none ∨ rtAlign a.bits newsize a.align = 0
    · rw [if_pos hdone] at hmem
      refine ⟨addLive (dropLive s' rmem) r, ?_, ?_⟩
      · simp only [step, hre, Option.map_some]
        rw [if_pos hdone]
      · obtain ⟨-, hfresh⟩ := hres.done hdone
        change Inv a { s' with live := r.toList ++ s'.live.filter (fun q => some q ≠ rmem) }
        refine Inv.of_live (hsame.region hr) hheap' hmem ?_
        rw [hsame.live]
        cases r with
        | none => simpa using hnd.filter _
        | some p =>
          rw [Option.toList_some, List.singleton_append, List.nodup_cons, mem_dropLive, hlive]
          exact ⟨hfresh p rfl, hnd.filter _⟩
    · rw [if_neg hdone] at hmem
      refine ⟨s', ?_, ⟨hsame.region hr, ⟨l', hheap', hmem⟩, by rw [hsame.live]; exact hnd⟩⟩
      simp only [step, hre, Option.map_some]
      rw [if_neg hdone]
  | free rmem =>
    cases rmem with
    | none =>
      refine ⟨dropLive s none, rfl, Inv.of_live hr hheap ?_ (hnd.filter _)⟩
      intro q
      rw [mem_dropLive, hlive]
      simp
    | some p =>
      obtain ⟨x, n, rfl, hx⟩ := (hlive p).mp (hop p rfl)
      obtain ⟨s', l', hfree, hheap', hsame, howns⟩ := rtSmemFree_spec hr hheap hx
      refine ⟨dropLive s' (some (x + a.sizeofStructMem)), by simp only [step, hfree, Option.map_some],
        Inv.of_live (hsame.region hr) hheap' (live_free hlive hsame howns) ?_⟩
      rw [hsame.live]
      exact hnd.filter _
  | write off byte =>
    refine ⟨_, rfl, ⟨?_, ⟨l, hheap.congr rfl rfl rfl rfl, hlive⟩, hnd⟩⟩
    exact Same.region (s := s) ⟨rfl, rfl, rfl, rfl, rfl⟩ hr

/-- What `rt_smem_init` leaves: one free block from the first header to the last one. -/
structure Fresh (a : Arch) (s : State) : Prop where
  heapEnd_eq : s.heapEnd = s.memSizeAligned + a.sizeofStructMem
  lt : s.heapPtr + s.heapEnd + a.sizeofStructMem < 2 ^ a.bits
  heapPtr_aligned : a.align ∣ s.heapPtr
  heapEnd_aligned : a.align ∣ s.heapEnd
  pool_even : 2 ∣ s.pool
  pool_ne : s.pool ≠ 0
  first : s.item 0 = ⟨memFreed s.pool, s.heapEnd, 0⟩
  last : s.item s.heapEnd = ⟨memUsed s.pool, s.heapEnd, s.heapEnd⟩
  lfree : s.lfree = 0
  live : s.live = []
  used : s.used = 0
  max : s.max = 0

theorem Fresh.ground (h : Fresh a s) (hmin : a.minSizeAligned ≤ s.memSizeAligned) : Ground a s :=
  ⟨h.heapEnd_eq, h.lt, h.heapPtr_aligned, h.heapEnd_aligned, h.pool_even, h.pool_ne, hmin⟩

theorem Fresh.free (h : Fresh a s) : usedAt s 0 = false := by
  rw [usedAt, h.first]
  exact memIsUsed_memFreed _ _ _

theorem Fresh.heap (h : Fresh a s) (hmin : a.minSizeAligned ≤ s.memSizeAligned) : Heap a s [0] := by
  have hminpos := minSizeAligned_pos a
  have heq := h.heapEnd_eq
  have hshape : Shape a s [0] := by
    refine ⟨⟨rfl, ?_, ?_⟩, ?_, by rw [h.first], ?_, by rw [h.last], ?_⟩
    · simp only [h.first]
      omega
    · simp only [h.first, Blocks.Path]
    · intro x hx hxe
      obtain rfl := List.mem_singleton.mp hx
      rw [h.first] at hxe
      exact absurd rfl hxe
    · intro x hx
      obtain rfl := List.mem_singleton.mp hx
      rw [h.first]
      exact .inr rfl
    · intro x hx
      obtain rfl := List.mem_singleton.mp hx
      exact Nat.dvd_zero _
  refine ⟨hshape, ?_, ⟨.inr ?_, ?_⟩⟩
  · intro x hx hxe
    obtain rfl := List.mem_singleton.mp hx
    rw [h.first] at hxe
    exact absurd rfl hxe
  · rw [h.lfree]
    exact ⟨List.mem_singleton.mpr rfl, h.free⟩
  · rw [h.lfree]
    exact fun x _ _ => Nat.zero_le x

theorem Fresh.not_inUse (h : Fresh a s) (p : Nat) : ¬ InUse a s [0] p := by
  rintro ⟨x, n, _, hx, hused, _⟩
  obtain rfl := List.mem_singleton.mp hx
  simp [h.free] at hused

theorem init_fresh (h : rtSmemInit a beginAddr size item data = some s) : Fresh a s := by
  have hpos := sizeofStructMem_pos a
  have halh : a.align ∣ a.sizeofStructMem := dvd_rtAlign _ _ _
  unfold rtSmemInit at h
  dsimp only at h
  split at h
  · rename_i hcond
    obtain ⟨hbig, hfit, hne⟩ := hcond
    generalize hse : a.add (rtAlign a.bits beginAddr a.align) a.objSize = startAddr at h hfit
    generalize hee : rtAlignDown (a.add beginAddr size) a.align = endAlign at h hbig hfit
    have hale : a.align ∣ endAlign := hee ▸ Dvd.intro_left _ rfl
    have halb : a.align ∣ rtAlign a.bits startAddr a.align := dvd_rtAlign _ _ _
    have hlt : endAlign < 2 ^ a.bits :=
      hee ▸ Nat.lt_of_le_of_lt (Nat.div_mul_le_self _ _) (Nat.mod_lt _ (Nat.two_pow_pos _))
    have hle : rtAlign a.bits startAddr a.align ≤ endAlign - 2 * a.sizeofStructMem :=
      rtAlign_le a.align_pos (Nat.dvd_sub hale (Nat.dvd_mul_left_of_dvd halh 2)) hfit
    generalize rtAlign a.bits startAddr a.align = beginAlign at h halb hle
    have hmem : a.sub (a.sub endAlign beginAlign) (2 * a.sizeofStructMem) =
        endAlign - beginAlign - 2 * a.sizeofStructMem := by
      rw [Arch.sub, Arch.sub, wsub_eq (a := endAlign) (by omega) hlt,
        wsub_eq (by omega) (by omega)]
    have hend : a.add (endAlign - beginAlign - 2 * a.sizeofStructMem) a.sizeofStructMem =
        endAlign - beginAlign - a.sizeofStructMem := by
      rw [Arch.add, wadd_eq (by omega)]
      omega
    rw [hmem, hend] at h
    have hdvd : a.align ∣ endAlign - beginAlign - a.sizeofStructMem :=
      Nat.dvd_sub (Nat.dvd_sub hale halb) halh
    have heven : 2 ∣ rtAlign a.bits beginAddr a.align := a.align_even.trans (dvd_rtAlign _ _ _)
    cases h
    have hepos : 0 ≠ endAlign - beginAlign - a.sizeofStructMem := by omega
    refine ⟨?_, ?_, halb, hdvd, heven, hne, ?_, ?_, rfl, rfl, rfl, rfl⟩
    · simp only
      omega
    · simp only
      omega
    · simp only [Function.update_of_ne hepos, Function.update_self]
    · simp only [Function.update_self]
  · simp at h

/-- The heap `rt_smem_init` makes, for an object whose address fits the header word. -/
theorem init_inv (h : rtSmemInit a beginAddr size item data = some s) (hpool : s.pool < 2 ^ 32)
    (hmin : a.minSizeAligned ≤ s.memSizeAligned) : Inv a s := by
  have hfresh := init_fresh h
  refine ⟨⟨hfresh.ground hmin, hpool⟩, ⟨[0], hfresh.heap hmin, fun p => ?_⟩, ?_⟩
  · rw [hfresh.live]
    simp only [List.not_mem_nil, false_iff]
    exact hfresh.not_inUse p
  · rw [hfresh.live]
    exact List.nodup_nil

/-- The heap object is at an address of the build. -/
theorem init_pool_lt (h : rtSmemInit a beginAddr size item data = some s) :
    s.pool < 2 ^ a.bits := by
  unfold rtSmemInit at h
  dsimp only at h
  split at h
  · cases h
    exact Nat.lt_of_le_of_lt (Nat.div_mul_le_self _ _) (Nat.mod_lt _ (Nat.two_pow_pos _))
  · simp at h

/-- The first offset behind the data of the allocation `p`. -/
def dataEnd (a : Arch) (s : State) (p : Nat) : Nat := (s.item (p - a.sizeofStructMem)).next

/-- The structure of a heap with the blocks `l`. -/
structure Structured (a : Arch) (s : State) (l : List Nat) : Prop where
  tile : Blocks.Path a.sizeofStructMem (fun x => (s.item x).next) 0 s.heapEnd l
  prev : ∀ x ∈ l, (s.item x).next < s.heapEnd → (s.item (s.item x).next).prev = x
  apart : ∀ x ∈ l, (s.item x).next < s.heapEnd →
    memIsUsed (s.item x) = true ∨ memIsUsed (s.item (s.item x).next) = true
  lfree_free : (∃ x ∈ l, memIsUsed (s.item x) = false) → s.lfree ∈ l ∧
    memIsUsed (s.item s.lfree) = false ∧ ∀ x ∈ l, memIsUsed (s.item x) = false → s.lfree ≤ x
  lfree_end : (∀ x ∈ l, memIsUsed (s.item x) = true) → s.lfree = s.heapEnd
  disjoint : s.live.Pairwise (fun p q => dataEnd a s p ≤ q ∨ dataEnd a s q ≤ p)
  inside : ∀ p ∈ s.live, a.sizeofStructMem ≤ p ∧ p < dataEnd a s p ∧ dataEnd a s p ≤ s.heapEnd

theorem Inv.structured (h : Inv a s) : ∃ l, Structured a s l := by
  obtain ⟨hr, ⟨l, hheap, hlive⟩, hnd⟩ := h
  have hpath := hheap.shape.path
  have hdata : ∀ p ∈ s.live, ∃ x ∈ l, p = x + a.sizeofStructMem ∧
      dataEnd a s p = (s.item x).next := by
    intro p hp
    obtain ⟨x, n, rfl, hx, _⟩ := (hlive p).mp hp
    exact ⟨x, hx, rfl, by rw [dataEnd, Nat.add_sub_cancel]⟩
  refine ⟨l, ⟨?_, ?_, ?_, ?_, ?_, ?_, ?_⟩⟩
  · exact hpath.weaken (Nat.le_succ _)
  · exact fun x hx hlt => hheap.shape.prev x hx (Nat.ne_of_lt hlt)
  · exact fun x hx hlt => hheap.apart x hx (Nat.ne_of_lt hlt)
  · rintro ⟨x, hx, hfree⟩
    have hle := hheap.lowest.le x hx hfree
    have hb := hheap.shape.bounds hx
    obtain ⟨hm, hf⟩ := hheap.lowest.mem.resolve_left (by omega)
    exact ⟨hm, hf, hheap.lowest.le⟩
  · intro hall
    refine hheap.lowest.mem.resolve_right ?_
    rintro ⟨hm, hf⟩
    have := hall _ hm
    rw [usedAt] at hf
    simp [hf] at this
  · refine hnd.imp_of_mem ?_
    intro p q hp hq hne
    obtain ⟨x, hx, rfl, hex⟩ := hdata p hp
    obtain ⟨y, hy, rfl, hey⟩ := hdata q hq
    obtain rfl | hlt | hlt := hpath.apart hx hy
    · exact absurd rfl hne
    · exact .inl (by omega)
    · exact .inr (by omega)
  · intro p hp
    obtain ⟨x, hx, rfl, hex⟩ := hdata p hp
    have hb := hheap.shape.bounds hx
    omega

/-- The 32-bit build with `RT_ALIGN_SIZE` 4. -/
def arch32 : Arch where
  bits := 32
  align := 4
  itemSize := 12
  objSize := 56
  minSize := 12
  align_even := by decide
  align_pos := Nat.two_pow_pos 2
  align_dvd := Nat.pow_dvd_pow 2 (by decide : 2 ≤ 32)
  itemSize_pos := by decide
  itemSize_le := by decide
  minSize_pos := by decide
  minSize_le := by decide

/-- A heap of 512 bytes in RAM. -/
def ramHeap : Option State := rtSmemInit arch32 0x20000000 512 (fun _ => ⟨0, 0, 0⟩) (fun _ => 0)

/-- Three allocations; one is freed, one is cut and one grows into another place. -/
def ramOps : List Op :=
  [.alloc 20, .alloc 100, .alloc 8, .free (some 12), .realloc (some 44) 40, .realloc (some 156) 30,
    .free none]

end RtThread.SmallMem
