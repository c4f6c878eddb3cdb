import RtThread.SmallMemAccount
import Mathlib.Data.List.ReduceOption

/-!
# Several small-memory heaps

`rt_smem_free` is not told the heap: it takes the address of the heap object out of the
header in front of the block. The heaps are those of `rt_smem_init` at different addresses,
over regions apart from each other; the mask of the header keeps 32 bits of the address.
-/
namespace RtThread.SmallMem

/-- The header in front of an address, in the region it lies in. -/
def headerAt (a : Arch) (w : List State) (addr : Nat) : Option Item :=
  let mem := a.sub addr a.sizeofStructMem
  (w.find? fun s => s.heapPtr ≤ mem ∧ mem < s.heapPtr + s.heapEnd).map fun s =>
    s.item (mem - s.heapPtr)

/-- `rt_smem_free` of an address that is not null. A header without the address of a heap object
refuses the call, and so does an address outside of the heap it names. -/
def freeAt (a : Arch) (w : List State) (rmem : Nat) : Option (List State) :=
  (headerAt a w rmem).bind fun mem =>
    (w.findIdx? fun s => s.pool = memPool mem).bind fun i =>
      w[i]?.bind fun s =>
        if s.heapPtr ≤ rmem ∧ rmem < s.heapPtr + s.heapEnd then
          (rtSmemFree a s (some (rmem - s.heapPtr))).map fun s' =>
            w.set i (dropLive s' (some (rmem - s.heapPtr)))
        else none

/-- A call that is given the heap object, or `rt_smem_free`. -/
inductive HeapsOp where
  | call (i : Nat) (op : Op)
  | free (rmem : Nat)
  deriving DecidableEq

def heapsStep (a : Arch) (w : List State) : HeapsOp → Option (List State)
  | .call i op => w[i]?.bind fun s => (step a s op).map fun s' => w.set i s'
  | .free rmem => freeAt a w rmem

/-- Calls with live pointers; a block is freed by its address only. -/
def HeapsAllowed (a : Arch) (w : List State) : HeapsOp → Prop
  | .call _ (.free (some _)) => False
  | .call i op => ∀ s ∈ w[i]?, Allowed a s op
  | .free rmem => ∃ s ∈ w, ∃ p ∈ s.live, rmem = s.heapPtr + p

instance (a : Arch) (w : List State) : (op : HeapsOp) → Decidable (HeapsAllowed a w op)
  | .call _ (.free (some _)) => .isFalse id
  | .call i (.free none) | .call i (.alloc _) | .call i (.realloc _ _) | .call i (.write _ _) =>
    inferInstanceAs (Decidable (∀ s ∈ w[i]?, Allowed a s _))
  | .free _ => inferInstanceAs (Decidable (∃ s ∈ w, ∃ p ∈ s.live, _ = s.heapPtr + p))

/-- Two heaps with objects at different addresses, over regions apart from each other. -/
def Distinct (a : Arch) (s t : State) : Prop :=
  s.pool ≠ t.pool ∧
    (s.heapPtr + s.heapEnd + a.sizeofStructMem ≤ t.heapPtr ∨
      t.heapPtr + t.heapEnd + a.sizeofStructMem ≤ s.heapPtr)

instance (a : Arch) (s t : State) : Decidable (Distinct a s t) :=
  inferInstanceAs (Decidable (_ ∧ _))

variable {a : Arch} {s t s' : State} {r rmem : Option Nat} {op : Op} {i p x : Nat}
  {w w' : List State}

theorem Distinct.symm (h : Distinct a s t) : Distinct a t s :=
  ⟨h.1.symm, h.2.symm⟩

/-! ## The constants of a heap -/

/-- What a call on a heap leaves alone. -/
structure Fixed (s s' : State) : Prop where
  pool : s'.pool = s.pool
  heapPtr : s'.heapPtr = s.heapPtr
  heapEnd : s'.heapEnd = s.heapEnd

theorem Same.fixed (h : Same s s') : Fixed s s' := ⟨h.pool, h.heapPtr, h.heapEnd⟩

theorem Fixed.trans (h : Fixed s s') (h' : Fixed s' t) : Fixed s t :=
  ⟨h'.pool.trans h.pool, h'.heapPtr.trans h.heapPtr, h'.heapEnd.trans h.heapEnd⟩

theorem rtSmemAlloc_fixed {size : Nat} (h : rtSmemAlloc a s size = some (s', r)) : Fixed s s' := by
  have hcarve : ∀ ptr n, Same s (carve a s ptr n) := by
    intro ptr n
    simp only [carve]
    split
    · exact (splitAt_same a s ptr _).trans ⟨rfl, rfl, rfl, rfl, rfl⟩
    · exact ⟨rfl, rfl, rfl, rfl, rfl⟩
  unfold rtSmemAlloc at h
  split at h
  · cases h
    exact (Same.refl s).fixed
  · dsimp only at h
    split at h
    · cases h
      exact (Same.refl s).fixed
    · obtain ⟨q, -, hrest⟩ := Option.bind_eq_some_iff.mp h
      cases q with
      | none =>
        cases hrest
        exact (Same.refl s).fixed
      | some ptr =>
        obtain ⟨⟨t, p⟩, htake, heq⟩ := Option.map_eq_some_iff.mp hrest
        cases heq
        obtain ⟨s₂, hmark, hres⟩ := Option.bind_eq_some_iff.mp htake
        obtain ⟨-, rfl, -⟩ := guarded_inj hres
        obtain ⟨lfree, -, rfl⟩ := Option.map_eq_some_iff.mp hmark
        exact (hcarve _ _).fixed.trans ⟨rfl, rfl, rfl⟩

theorem rtSmemFree_fixed (h : rtSmemFree a s rmem = some s') : Fixed s s' := by
  cases rmem with
  | none =>
    cases h
    exact (Same.refl s).fixed
  | some p =>
    obtain ⟨-, hplug⟩ := Option.ite_none_right_eq_some.mp h
    have hplugged := (plugHoles_same hplug).fixed
    exact ⟨hplugged.pool, hplugged.heapPtr, hplugged.heapEnd⟩

theorem rtSmemRealloc_fixed {newsize : Nat} (h : rtSmemRealloc a s rmem newsize = some (s', r)) :
    Fixed s s' := by
  have hstill : ∀ {p : Option Nat}, some (s, p) = some (s', r) → Fixed s s' := by
    intro p heq
    cases heq
    exact (Same.refl s).fixed
  unfold rtSmemRealloc at h
  dsimp only at h
  split at h
  · exact hstill h
  split at h
  · obtain ⟨t, hfree, heq⟩ := Option.map_eq_some_iff.mp h
    cases heq
    exact rtSmemFree_fixed hfree
  cases rmem with
  | none => exact rtSmemAlloc_fixed h
  | some p =>
    obtain ⟨-, h⟩ := Option.ite_none_right_eq_some.mp h
    split at h
    · exact hstill h
    split at h
    · obtain ⟨t, hplug, heq⟩ := Option.map_eq_some_iff.mp h
      cases heq
      have hplugged := (plugHoles_same hplug).fixed
      have hsplit : ∀ used x y, Fixed s (splitAt a { s with used := used } x y) := by
        intro used x y
        have hsame := splitAt_same a { s with used := used } x y
        exact ⟨hsame.pool, hsame.heapPtr, hsame.heapEnd⟩
      refine (hsplit _ _ _).trans ⟨hplugged.pool, hplugged.heapPtr, hplugged.heapEnd⟩
    · obtain ⟨⟨t, q⟩, halloc, hrest⟩ := Option.bind_eq_some_iff.mp h
      have hfixed := rtSmemAlloc_fixed halloc
      cases q with
      | none =>
        cases hrest
        exact hfixed
      | some nmem =>
        obtain ⟨u, hfree, heq⟩ := Option.map_eq_some_iff.mp hrest
        cases heq
        have hfreed := rtSmemFree_fixed hfree
        exact hfixed.trans ⟨hfreed.pool, hfreed.heapPtr, hfreed.heapEnd⟩

theorem step_fixed (h : step a s op = some s') : Fixed s s' := by
  cases op with
  | alloc size =>
    obtain ⟨⟨t, r⟩, halloc, rfl⟩ := Option.map_eq_some_iff.mp h
    exact (rtSmemAlloc_fixed halloc).trans ⟨rfl, rfl, rfl⟩
  | realloc rmem newsize =>
    obtain ⟨⟨t, r⟩, hre, rfl⟩ := Option.map_eq_some_iff.mp h
    refine (rtSmemRealloc_fixed hre).trans ?_
    simp only
    split <;> exact ⟨rfl, rfl, rfl⟩
  | free rmem =>
    obtain ⟨t, hfree, rfl⟩ := Option.map_eq_some_iff.mp h
    exact (rtSmemFree_fixed hfree).trans ⟨rfl, rfl, rfl⟩
  | write off byte =>
    cases h
    exact ⟨rfl, rfl, rfl⟩

/-! ## The invariant -/

/-- A heap that a run from `rt_smem_init` reaches. -/
def Sound (a : Arch) (s : State) : Prop :=
  (∃ seen, MeteredInv a ⟨s, seen⟩) ∨ Fresh a s ∧ s.memSizeAligned < a.minSizeAligned

theorem Sound.step (h : Sound a s) (hop : Allowed a s op) (hs : step a s op = some s') :
    Sound a s' := by
  rcases h with ⟨seen, hinv⟩ | ⟨hfresh, htiny⟩
  · have hstep : meteredStep a ⟨s, seen⟩ op =
        some ⟨s', seen ++ (usedBetween a s op ++ [s'.used])⟩ :=
      Option.map_eq_some_iff.mpr ⟨s', hs, rfl⟩
    exact .inl ⟨_, meteredStep_inv hinv hop hstep⟩
  · obtain rfl := step_tiny hfresh htiny hop hs
    exact .inr ⟨hfresh, htiny⟩

theorem Fresh.sound (h : Fresh a s) : Sound a s := by
  rcases Nat.lt_or_ge s.memSizeAligned a.minSizeAligned with htiny | hmin
  · exact .inr ⟨h, htiny⟩
  · exact .inl ⟨_, h.metered hmin⟩

/-- A live pointer is that of a block in use. -/
theorem Sound.owns (h : Sound a s) (hp : p ∈ s.live) :
    ∃ l x n, p = x + a.sizeofStructMem ∧ Ground a s ∧ Heap a s l ∧ Owns s l x n := by
  rcases h with ⟨seen, hinv⟩ | ⟨hfresh, -⟩
  · obtain ⟨l, hacc, hlive⟩ := hinv.heap
    obtain ⟨x, n, rfl, hx⟩ := (hlive p).mp hp
    exact ⟨l, x, n, rfl, hacc.ground, hacc.heap, hx⟩
  · rw [hfresh.live] at hp
    cases hp

/-- The constants that `Distinct` compares. -/
def bounds (s : State) : Nat × Nat × Nat := (s.pool, s.heapPtr, s.heapEnd)

theorem Fixed.bounds (h : Fixed s s') : bounds s' = bounds s := by
  rw [SmallMem.bounds, SmallMem.bounds, h.pool, h.heapPtr, h.heapEnd]

structure HeapsInv (a : Arch) (w : List State) : Prop where
  sound : ∀ s ∈ w, Sound a s
  pool : ∀ s ∈ w, s.pool < 2 ^ a.bits
  distinct : w.Pairwise (Distinct a)

theorem map_bounds_set (hi : w[i]? = some s) (h : bounds s' = bounds s) :
    (w.set i s').map bounds = w.map bounds := by
  apply List.ext_getElem?
  intro j
  rw [List.getElem?_map, List.getElem?_map, List.getElem?_set]
  split
  · rename_i hij
    subst hij
    obtain ⟨hlt, rfl⟩ := List.getElem?_eq_some_iff.mp hi
    simp [hlt, h]
  · rfl

/-- One heap of the world makes a step. -/
theorem HeapsInv.set (h : HeapsInv a w) (hi : w[i]? = some s) (hfixed : Fixed s s')
    (hs' : Sound a s') : HeapsInv a (w.set i s') := by
  constructor
  · intro t ht
    rcases List.mem_or_eq_of_mem_set ht with hold | rfl
    · exact h.sound t hold
    · exact hs'
  · intro t ht
    rcases List.mem_or_eq_of_mem_set ht with hold | rfl
    · exact h.pool t hold
    · rw [hfixed.pool]
      exact h.pool s (List.mem_of_getElem? hi)
  · have hrel : ∀ v : List State, v.Pairwise (Distinct a) ↔ (v.map bounds).Pairwise
        fun b c => b.1 ≠ c.1 ∧ (b.2.1 + b.2.2 + a.sizeofStructMem ≤ c.2.1 ∨
          c.2.1 + c.2.2 + a.sizeofStructMem ≤ b.2.1) := by
      intro v
      rw [List.pairwise_map]
      rfl
    rw [hrel, map_bounds_set hi hfixed.bounds, ← hrel]
    exact h.distinct

theorem HeapsInv.eq_or_distinct {j : Nat} (h : HeapsInv a w) (hi : w[i]? = some s)
    (hj : w[j]? = some t) : i = j ∨ Distinct a s t := by
  obtain ⟨hilt, rfl⟩ := List.getElem?_eq_some_iff.mp hi
  obtain ⟨hjlt, rfl⟩ := List.getElem?_eq_some_iff.mp hj
  have hpair := List.pairwise_iff_getElem.mp h.distinct
  rcases Nat.lt_trichotomy i j with hlt | heq | hlt
  · exact .inr (hpair i j hilt hjlt hlt)
  · exact .inl heq
  · exact .inr (hpair j i hjlt hilt hlt).symm

/-! ## Freeing by address -/

theorem headerAt_eq (h : HeapsInv a w) (hi : w[i]? = some s) (hx : x < s.heapEnd)
    (hlt : s.heapPtr + s.heapEnd + a.sizeofStructMem < 2 ^ a.bits) :
    headerAt a w (s.heapPtr + (x + a.sizeofStructMem)) = some (s.item x) := by
  have hmem : a.sub (s.heapPtr + (x + a.sizeofStructMem)) a.sizeofStructMem = s.heapPtr + x := by
    rw [Arch.sub, wsub_eq (by omega) (by omega)]
    omega
  have hin : s ∈ w := List.mem_of_getElem? hi
  simp only [headerAt, hmem]
  have hfound : w.find? (fun t => decide (t.heapPtr ≤ s.heapPtr + x ∧
      s.heapPtr + x < t.heapPtr + t.heapEnd)) = some s := by
    have hsome : (w.find? fun t => decide (t.heapPtr ≤ s.heapPtr + x ∧
        s.heapPtr + x < t.heapPtr + t.heapEnd)).isSome := by
      refine List.find?_isSome.mpr ⟨s, hin, decide_eq_true ?_⟩
      omega
    obtain ⟨t, ht⟩ := Option.isSome_iff_exists.mp hsome
    have hcovers : t.heapPtr ≤ s.heapPtr + x ∧ s.heapPtr + x < t.heapPtr + t.heapEnd := by
      simpa using List.find?_some ht
    obtain ⟨j, hj⟩ := List.mem_iff_getElem?.mp (List.mem_of_find?_eq_some ht)
    rw [ht]
    rcases h.eq_or_distinct hi hj with rfl | hdist
    · exact hj.symm.trans hi
    · rcases hdist.2 with hle | hle <;> omega
  rw [hfound, Option.map_some, Nat.add_sub_cancel_left]

/-- The header of a block in use carries the masked address of its heap object. -/
theorem Owns.poolPtr {l : List Nat} {n : Nat} (h : Heap a s l) (hx : Owns s l x n) :
    (s.item x).poolPtr = memUsed s.pool := by
  rcases h.shape.pool x hx.1 with hused | hfreed
  · exact hused
  · have hno := memIsUsed_memFreed s.pool (s.item x).next (s.item x).prev
    rw [← hfreed] at hno
    exact absurd hx.2.1 (by rw [usedAt, hno]; decide)

theorem memPool_lt (x : Item) : memPool x < 2 ^ 32 :=
  Nat.lt_of_le_of_lt Nat.and_le_right (by decide)

/-- A free that returns has changed one heap only, that of the block. -/
theorem freeAt_frame (h : HeapsInv a w) (hi : w[i]? = some s) (hp : p < s.heapEnd)
    (hfree : freeAt a w (s.heapPtr + p) = some w') :
    (∃ s', rtSmemFree a s (some p) = some s' ∧ w' = w.set i (dropLive s' (some p))) := by
  obtain ⟨mem, -, hfree⟩ := Option.bind_eq_some_iff.mp hfree
  obtain ⟨j, -, hfree⟩ := Option.bind_eq_some_iff.mp hfree
  obtain ⟨t, hj, hfree⟩ := Option.bind_eq_some_iff.mp hfree
  obtain ⟨hcovers, hfree⟩ := Option.ite_none_right_eq_some.mp hfree
  rcases h.eq_or_distinct hi hj with rfl | hdist
  · obtain rfl : t = s := Option.some.inj (hj.symm.trans hi)
    rw [Nat.add_sub_cancel_left] at hfree
    obtain ⟨s', hs', rfl⟩ := Option.map_eq_some_iff.mp hfree
    exact ⟨s', hs', rfl⟩
  · rcases hdist.2 with hle | hle <;> omega

/-- The block goes back to the heap `i` it came from: `MEM_POOL` is that heap, the flag says used,
and `rt_smem_free` returns and changes no other heap. -/
def ReturnsToOwner (a : Arch) (w : List State) (i : Nat) (s : State) (p : Nat) : Prop :=
  memPool (s.item (p - a.sizeofStructMem)) = s.pool ∧
    memIsUsed (s.item (p - a.sizeofStructMem)) = true ∧
    ∃ w', freeAt a w (s.heapPtr + p) = some w' ∧ ∀ k, k ≠ i → w'[k]? = w[k]?

theorem returnsToOwner_iff (h : HeapsInv a w) (hi : w[i]? = some s) (hp : p ∈ s.live) :
    ReturnsToOwner a w i s p ↔ s.pool < 2 ^ 32 := by
  obtain ⟨l, x, n, rfl, hground, hheap, hx⟩ := (h.sound s (List.mem_of_getElem? hi)).owns hp
  have hlt := hground.lt
  have hb := hheap.shape.bounds hx.1
  have hword := hx.poolPtr hheap
  rw [ReturnsToOwner, Nat.add_sub_cancel]
  constructor
  · rintro ⟨hpool, -⟩
    rw [← hpool]
    exact memPool_lt _
  · intro hpool
    have hmem : memPool (s.item x) = s.pool := memPool_eq hground.pool_even hpool (.inl hword)
    obtain ⟨s', l', hfree, -, -, -⟩ := rtSmemFree_spec ⟨hground, hpool⟩ hheap hx
    obtain ⟨hilt, hget⟩ := List.getElem?_eq_some_iff.mp hi
    have hindex : w.findIdx? (fun t => decide (t.pool = memPool (s.item x))) = some i := by
      refine List.findIdx?_eq_some_iff_getElem.mpr ⟨hilt, by simp [hget, hmem], ?_⟩
      intro j hj
      have hjlt : j < w.length := by omega
      rcases h.eq_or_distinct hi (List.getElem?_eq_getElem hjlt) with heq | hdist
      · omega
      · simpa [hmem] using hdist.1.symm
    have hcovers : s.heapPtr ≤ s.heapPtr + (x + a.sizeofStructMem) ∧
        s.heapPtr + (x + a.sizeofStructMem) < s.heapPtr + s.heapEnd := by omega
    refine ⟨hmem, hx.2.1, w.set i (dropLive s' (some (x + a.sizeofStructMem))), ?_, ?_⟩
    · rw [freeAt, headerAt_eq h hi (by omega) hlt, Option.bind_some, hindex, Option.bind_some, hi,
        Option.bind_some, if_pos hcovers, Nat.add_sub_cancel_left, hfree, Option.map_some]
    · intro k hk
      rw [List.getElem?_set_ne (Ne.symm hk)]

/-! ## Runs -/

theorem heapsStep_inv {op : HeapsOp} (h : HeapsInv a w) (hop : HeapsAllowed a w op)
    (hs : heapsStep a w op = some w') : HeapsInv a w' := by
  cases op with
  | call i op =>
    obtain ⟨s, hi, hs⟩ := Option.bind_eq_some_iff.mp hs
    obtain ⟨s', hstep, rfl⟩ := Option.map_eq_some_iff.mp hs
    have hsound := h.sound s (List.mem_of_getElem? hi)
    have hallowed : Allowed a s op := by
      cases op with
      | free rmem =>
        cases rmem with
        | none => exact hop s hi
        | some p => exact hop.elim
      | alloc | realloc | write => exact hop s hi
    exact h.set hi (step_fixed hstep) (hsound.step hallowed hstep)
  | free rmem =>
    obtain ⟨s, hmem, p, hp, rfl⟩ := hop
    obtain ⟨i, hi⟩ := List.mem_iff_getElem?.mp hmem
    have hsound := h.sound s hmem
    obtain ⟨l, x, n, rfl, hground, hheap, hx⟩ := hsound.owns hp
    have hb := hheap.shape.bounds hx.1
    obtain ⟨s', hfree, rfl⟩ := freeAt_frame h hi (by omega) hs
    have hstep : step a s (.free (some (x + a.sizeofStructMem))) =
        some (dropLive s' (some (x + a.sizeofStructMem))) :=
      Option.map_eq_some_iff.mpr ⟨s', hfree, rfl⟩
    have hvalid : Allowed a s (.free (some (x + a.sizeofStructMem))) := by
      intro q hq
      cases hq
      exact hp
    exact h.set hi (step_fixed hstep) (hsound.step hvalid hstep)

/-- The blocks of the heap, with the used flag on the live ones. -/
def Flagged (a : Arch) (s : State) : Prop :=
  ∃ l, Blocks.Path a.sizeofStructMem (fun y => (s.item y).next) 0 s.heapEnd l ∧
    ∀ y ∈ l, memIsUsed (s.item y) = true ↔ y + a.sizeofStructMem ∈ s.live

theorem Sound.flagged (h : Sound a s) : Flagged a s := by
  rcases h with ⟨seen, hinv⟩ | ⟨hfresh, -⟩
  · obtain ⟨l, hacc, hlive⟩ := hinv.heap
    refine ⟨l, hacc.heap.shape.path.weaken (Nat.le_succ _), fun y hy => ?_⟩
    rw [hlive]
    constructor
    · intro hused
      exact ⟨y, _, rfl, hy, hused, rfl⟩
    · rintro ⟨z, n, heq, hz⟩
      obtain rfl : y = z := by omega
      exact hz.2.1
  · have heq := hfresh.heapEnd_eq
    refine ⟨[0], ⟨rfl, ?_, ?_⟩, ?_⟩
    · simp only [hfresh.first]
      omega
    · simp only [hfresh.first, Blocks.Path]
    · intro y hy
      obtain rfl := List.mem_singleton.mp hy
      have hfree := hfresh.free
      rw [usedAt] at hfree
      simp [hfree, hfresh.live]

/-- In every state of a run over any number of heaps, on either address width, the flags are those
of the live blocks, and a live block goes back to its own heap exactly when the address of that
heap's object is below 2^32, as it is on a 32-bit build. -/
theorem blocks_return_to_owner (a : Arch) (w₀ : List State)
    (hinit : ∀ s ∈ w₀, ∃ beginAddr size item data, rtSmemInit a beginAddr size item data = some s)
    (hdistinct : w₀.Pairwise (Distinct a)) (ops : List HeapsOp)
    (hops : Runs.Along (heapsStep a) (HeapsAllowed a) w₀ ops) (w : List State)
    (hrun : Runs.run (heapsStep a) w₀ ops = some w) (i : Nat) (s : State)
    (hi : w[i]? = some s) :
    Flagged a s ∧ (∀ p ∈ s.live, ReturnsToOwner a w i s p ↔ s.pool < 2 ^ 32) ∧
      (a.bits = 32 → s.pool < 2 ^ 32) := by
  have hstart : HeapsInv a w₀ := by
    refine ⟨fun s hs => ?_, fun s hs => ?_, hdistinct⟩
    · obtain ⟨beginAddr, size, item, data, h⟩ := hinit s hs
      exact (init_fresh h).sound
    · obtain ⟨beginAddr, size, item, data, h⟩ := hinit s hs
      exact init_pool_lt h
  have hinv : HeapsInv a w :=
    Runs.run_invariant_along (fun _ _ _ h hop hs => heapsStep_inv h hop hs) hstart hops hrun
  have hmem := List.mem_of_getElem? hi
  refine ⟨(hinv.sound s hmem).flagged, fun p hp => returnsToOwner_iff hinv hi hp, ?_⟩
  intro hbits
  rw [← hbits]
  exact hinv.pool s hmem

/-- The 64-bit build with `RT_ALIGN_SIZE` 8. -/
def arch64 : Arch where
  bits := 64
  align := 8
  itemSize := 32
  objSize := 104
  minSize := 24
  align_even := by decide
  align_pos := Nat.two_pow_pos 3
  align_dvd := by decide
  itemSize_pos := by decide
  itemSize_le := by decide
  minSize_pos := by decide
  minSize_le := by decide

/-- Two heaps of the 64-bit build, one below 2^32 and one above. -/
def heaps64 : List State :=
  [rtSmemInit arch64 0x20000000 512 (fun _ => ⟨0, 0, 0⟩) (fun _ => 0),
    rtSmemInit arch64 0x120001000 512 (fun _ => ⟨0, 0, 0⟩) (fun _ => 0)].reduceOption

theorem heaps64_init : ∀ s ∈ heaps64, ∃ beginAddr size item data,
    rtSmemInit arch64 beginAddr size item data = some s := by
  intro s hs
  rw [heaps64, List.reduceOption_mem_iff, List.mem_cons, List.mem_singleton] at hs
  rcases hs with h | h
  · exact ⟨_, _, _, _, h.symm⟩
  · exact ⟨_, _, _, _, h.symm⟩

theorem blocks_return_to_owner_two :
    ∃ w s, Runs.run (heapsStep arch64) heaps64
        [.call 0 (.alloc 20), .call 1 (.alloc 30), .call 0 (.alloc 8), .free 0x20000088] = some w ∧
      w[0]? = some s ∧ Flagged arch64 s ∧
      (∀ p ∈ s.live, ReturnsToOwner arch64 w 0 s p ↔ s.pool < 2 ^ 32) ∧
      (arch64.bits = 32 → s.pool < 2 ^ 32) := by
  have hops : Runs.Along (heapsStep arch64) (HeapsAllowed arch64) heaps64
      [.call 0 (.alloc 20), .call 1 (.alloc 30), .call 0 (.alloc 8), .free 0x20000088] := by
    decide +kernel
  have hrun : ((Runs.run (heapsStep arch64) heaps64
      [.call 0 (.alloc 20), .call 1 (.alloc 30), .call 0 (.alloc 8), .free 0x20000088]).bind
        fun w => w[0]?).isSome := by decide +kernel
  obtain ⟨s, hs⟩ := Option.isSome_iff_exists.mp hrun
  obtain ⟨w, hw, hi⟩ := Option.bind_eq_some_iff.mp hs
  exact ⟨w, s, hw, hi, blocks_return_to_owner arch64 heaps64 heaps64_init (by decide +kernel) _
    hops w hw 0 s hi⟩

/-- A block of a heap above 2^32: `MEM_POOL` of its header is another address, and its free does
not return. -/
theorem block_not_returned_to_owner :
    ∃ w s, Runs.run (heapsStep arch64) heaps64 [.call 1 (.alloc 30)] = some w ∧ w[1]? = some s ∧
      32 ∈ s.live ∧ s.pool = 0x120001000 ∧ memPool (s.item 0) = 0x20001000 ∧
      freeAt arch64 w (s.heapPtr + 32) = none ∧ ¬ ReturnsToOwner arch64 w 1 s 32 := by
  have hrun : ((Runs.run (heapsStep arch64) heaps64 [.call 1 (.alloc 30)]).bind fun w =>
      w[1]?.map fun s => (decide (32 ∈ s.live), s.pool, memPool (s.item 0),
        (freeAt arch64 w (s.heapPtr + 32)).isNone)) =
      some (true, 0x120001000, 0x20001000, true) := by decide +kernel
  obtain ⟨w, hw, hs⟩ := Option.bind_eq_some_iff.mp hrun
  obtain ⟨s, hi, heq⟩ := Option.map_eq_some_iff.mp hs
  obtain ⟨hlive, hrest⟩ := Prod.mk.inj heq
  obtain ⟨hpool, hrest⟩ := Prod.mk.inj hrest
  obtain ⟨hheader, hnone⟩ := Prod.mk.inj hrest
  have hfree := Option.isNone_iff_eq_none.mp hnone
  refine ⟨w, s, hw, hi, of_decide_eq_true hlive, hpool, hheader, hfree, ?_⟩
  rintro ⟨-, -, w', hfreed, -⟩
  rw [hfree] at hfreed
  cases hfreed

end RtThread.SmallMem
