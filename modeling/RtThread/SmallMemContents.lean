import RtThread.SmallMemMinimum

/-!
# The contents of the small-memory heap

`rt_smem_realloc` keeps the first bytes of its block and every byte of the other
blocks. Headers and data share one region, so the headers that a call writes
have to lie outside the data of the blocks in use, and the copy has to stay
inside the new block.
-/
namespace RtThread.SmallMem

variable {a : Arch} {s s' : State} {l : List Nat}

/-! ## Bytes -/

theorem splitAt_data (a : Arch) (s : State) (x y : Nat) : (splitAt a s x y).data = s.data := by
  simp only [splitAt]
  split <;> rfl

variable {n x y newsize : Nat} {l' : List Nat} {r : Option Nat}

theorem plugHoles_data (h : plugHoles s x = some s') : s'.data = s.data := by
  have hf : (plugForward s x).data = s.data := by
    simp only [plugForward]
    split <;> rfl
  have hb : ∀ s₁, (plugBackward s₁ x).data = s₁.data := by
    intro s₁
    simp only [plugBackward]
    split <;> rfl
  obtain ⟨-, hs⟩ := Option.ite_none_right_eq_some.mp h
  cases hs
  exact (hb _).trans hf

theorem carve_data (a : Arch) (s : State) (x size : Nat) : (carve a s x size).data = s.data := by
  simp only [carve]
  split
  · exact splitAt_data a s x _
  · rfl

theorem rtSmemAlloc_data (hr : Ground a s) (h : Heap a s l) {size p : Nat}
    (halloc : rtSmemAlloc a s size = some (s', some p)) : s'.data = s.data := by
  obtain ⟨-, x, -, -, -, hmark⟩ := rtSmemAlloc_takes hr h halloc
  obtain ⟨lfree, -, rfl⟩ := Option.map_eq_some_iff.mp hmark
  exact carve_data a s x _

theorem rtSmemFree_data (hr : Ground a s) (h : Heap a s l) (hx : x ∈ l)
    (hfree : rtSmemFree a s (some (x + a.sizeofStructMem)) = some s') : s'.data = s.data := by
  have hplug := plugHoles_data (rtSmemFree_plugs hr h hx hfree)
  exact hplug

/-- The block behind a result is as large as the size that was searched for. -/
theorem rtSmemAlloc_room (hr : Ground a s) (h : Heap a s l) {size p : Nat}
    (halloc : rtSmemAlloc a s size = some (s', some p)) :
    p + searchedSize a size ≤ dataEnd a s' p := by
  obtain ⟨hsearches, x, hx, rfl, ⟨hfree, hfit⟩, hmark⟩ := rtSmemAlloc_takes hr h halloc
  obtain ⟨-, halign, hpos⟩ := searchedSize_bounds hr.min_le hsearches
  obtain ⟨-, -, -, hroom, -⟩ := carve_spec hr h hx hfree hfit halign hpos
  obtain ⟨-, hnext⟩ := markUsed_uncounted hmark
  rw [dataEnd, Nat.add_sub_cancel, hnext]
  exact hroom

/-! ## Headers -/

/-- A header at `off` meets the data of no block in use. -/
def Outside (a : Arch) (s : State) (l : List Nat) (off : Nat) : Prop :=
  ∀ z n, Owns s l z n → off + a.sizeofStructMem ≤ z + a.sizeofStructMem ∨ n ≤ off

theorem Outside.mono {s' : State} {off : Nat} (h : Outside a s l off)
    (howns : ∀ z n, Owns s' l' z n → Owns s l z n) : Outside a s' l' off :=
  fun z n hz => h z n (howns z n hz)

/-- The headers of the blocks and the last header. -/
theorem Shape.outside (h : Shape a s l) {off : Nat} (hoff : off ∈ l ∨ off = s.heapEnd) :
    Outside a s l off := by
  rintro z n ⟨hz, -, rfl⟩
  have hbz := h.bounds hz
  obtain hoff | rfl := hoff
  · have hb := h.bounds hoff
    obtain rfl | hle | hle := h.path.apart hz hoff
    · exact .inl (Nat.le_refl _)
    · exact .inr hle
    · exact .inl (by omega)
  · exact .inr hbz.2

theorem joinNext_frame (h : Shape a s l) (hx : x ∈ l) (hxy : (s.item x).next = y)
    (hend : y ≠ s.heapEnd) {off : Nat} (hoff : (joinNext s x y).item off ≠ s.item off) :
    off ∈ l ∨ off = s.heapEnd := by
  have hy : y ∈ l := hxy ▸ (h.path.next_mem hx).resolve_left (by rw [hxy]; exact hend)
  have hbx := h.bounds hx
  have hby := h.bounds hy
  rw [joinNext_item (by omega) (by omega) (by omega)] at hoff
  split at hoff
  · rename_i heq
    rw [heq]
    exact (h.path.next_mem hy).symm
  · split at hoff
    · rename_i heq
      exact .inl (heq ▸ hx)
    · split at hoff
      · rename_i heq
        exact .inl (heq ▸ hy)
      · exact absurd rfl hoff

theorem plugForward_frame (h : Shape a s l) (hx : x ∈ l) {off : Nat}
    (hoff : (plugForward s x).item off ≠ s.item off) : off ∈ l ∨ off = s.heapEnd := by
  unfold plugForward at hoff
  dsimp only at hoff
  split at hoff
  · rename_i hcond
    generalize (if s.lfree = (s.item x).next then x else s.lfree) = lfree at hoff
    have hshape : Shape a { s with lfree := lfree } l := h.congr rfl rfl rfl
    exact joinNext_frame hshape hx rfl hcond.2.2 hoff
  · exact absurd rfl hoff

theorem plugBackward_frame (h : Shape a s l) (hx : x ∈ l) {off : Nat}
    (hoff : (plugBackward s x).item off ≠ s.item off) : off ∈ l ∨ off = s.heapEnd := by
  have hb := h.bounds hx
  unfold plugBackward at hoff
  dsimp only at hoff
  split at hoff
  · rename_i hcond
    obtain ⟨hp, hpx⟩ := (h.prev_cases hx).resolve_left fun hc => hcond.1 hc.1
    generalize (if s.lfree = x then (s.item x).prev else s.lfree) = lfree at hoff
    have hshape : Shape a { s with lfree := lfree } l := h.congr rfl rfl rfl
    exact joinNext_frame hshape hp hpx (by simp only; omega) hoff
  · exact absurd rfl hoff

theorem plugHoles_frame (h : Hole a s l x) (hplug : plugHoles s x = some s') {off : Nat}
    (hoff : s'.item off ≠ s.item off) : off ∈ l ∨ off = s.heapEnd := by
  obtain ⟨-, hs⟩ := Option.ite_none_right_eq_some.mp hplug
  cases hs
  obtain ⟨l₁, h₁, -, -, hsub⟩ := plugForward_spec h
  by_cases hfirst : (plugForward s x).item off = s.item off
  · rw [← hfirst] at hoff
    obtain hmem | hend := plugBackward_frame h₁.shape h₁.mem hoff
    · exact .inl (hsub off hmem)
    · exact .inr (hend.trans (plugForward_heapEnd s x))
  · exact plugForward_frame h.shape h.mem hfirst

theorem setPoolPtr_frame {v off : Nat} (hoff : (setPoolPtr s x v).item off ≠ s.item off) :
    off = x := by
  by_contra hne
  rw [setPoolPtr, setItem_item, if_neg hne] at hoff
  exact hoff rfl

/-- A header that `rt_smem_free` changes is outside the blocks that stay in use. -/
theorem rtSmemFree_frame (hr : Ground a s) (h : Heap a s l) (hx : Owns s l x n)
    (hfree : rtSmemFree a s (some (x + a.sizeofStructMem)) = some s') {off : Nat}
    (hoff : s'.item off ≠ s.item off) : Outside a s l off := by
  have hplug := rtSmemFree_plugs hr h hx.1 hfree
  refine h.shape.outside ?_
  by_cases hfirst : (markFree a s x).item off = s.item off
  · rw [← hfirst] at hoff
    exact plugHoles_frame (markFree_hole h hx.1) hplug hoff
  · exact .inl (setPoolPtr_frame hfirst ▸ hx.1)

/-- Cutting the block `x` at `y` writes the headers of `x`, of `y` and behind `y`. -/
theorem splitAt_frame (hr : Ground a s) (hxy : x < y) (hyn : y < (s.item x).next) {off : Nat}
    (hoff : (splitAt a s x y).item off ≠ s.item off) :
    ((splitAt a s x y).item x).next = y ∧
      (off = x ∨ off = y ∨ off = ((splitAt a s x y).item y).next) := by
  have hlt := hr.lt
  have hend : a.add s.memSizeAligned a.sizeofStructMem = s.heapEnd := by
    rw [Arch.add, wadd_eq (by rw [← hr.heapEnd_eq]; omega), hr.heapEnd_eq]
  have hitem := splitAt_item (s := s) (x := x) (y := y) (by omega) (by omega) (by omega) hend
  have hy : ((splitAt a s x y).item y).next = (s.item x).next := by
    rw [hitem, if_neg (by omega), if_neg (by omega), if_pos rfl]
  refine ⟨by rw [hitem, if_neg (by omega), if_pos rfl], ?_⟩
  rw [hitem] at hoff
  split at hoff
  · rename_i hcond
    exact .inr (.inr (hcond.1.trans hy.symm))
  · split at hoff
    · exact .inl ‹_›
    · split at hoff
      · exact .inr (.inl ‹_›)
      · exact absurd rfl hoff

/-- The headers around a border between the blocks `x` and `y`. -/
theorem Shape.border (h : Shape a s l) {off : Nat} (hx : x ∈ l) (hxy : (s.item x).next = y)
    (hy : y ∈ l) (hoff : off = x ∨ off = y ∨ off = (s.item y).next) :
    off ∈ l ∨ off = s.heapEnd := by
  obtain rfl | rfl | rfl := hoff
  · exact .inl hx
  · exact .inl hy
  · exact (h.path.next_mem hy).symm

theorem carve_frame (hr : Ground a s) (h : Shape a s l) {size : Nat} (hx : x ∈ l)
    (hfit : x + a.sizeofStructMem + size ≤ (s.item x).next) {off : Nat}
    (hoff : (carve a s x size).item off ≠ s.item off) :
    ∃ y, ((carve a s x size).item x).next = y ∧ y < s.heapEnd ∧
      (off = x ∨ off = y ∨ off = ((carve a s x size).item y).next) := by
  have hb := h.bounds hx
  have hpos := sizeofStructMem_pos a
  rw [carve_eq hr h hx hfit] at hoff ⊢
  split at hoff
  · rename_i hsplit
    rw [if_pos hsplit]
    exact ⟨_, (splitAt_frame hr (by omega) (by omega) hoff).1, by omega,
      (splitAt_frame hr (by omega) (by omega) hoff).2⟩
  · exact absurd rfl hoff

/-- A header that `rt_smem_alloc` changes is outside the blocks in use, the new one included. -/
theorem rtSmemAlloc_frame (hr : Ground a s) (h : Heap a s l) {size p : Nat}
    (halloc : rtSmemAlloc a s size = some (s', some p)) (hheap : Heap a s' l') (hsame : Same s s')
    (hp : InUse a s' l' p) {off : Nat} (hoff : s'.item off ≠ s.item off) : Outside a s' l' off := by
  obtain ⟨hsearches, x, hx, rfl, ⟨hfree, hfit⟩, hmark⟩ := rtSmemAlloc_takes hr h halloc
  obtain ⟨y, n, heq, hy⟩ := hp
  obtain rfl : x = y := by omega
  obtain ⟨-, hnext⟩ := markUsed_uncounted hmark
  refine hheap.shape.outside ?_
  by_cases hfirst : (carve a s x (searchedSize a size)).item off = s.item off
  · rw [← hfirst] at hoff
    obtain ⟨lfree, -, rfl⟩ := Option.map_eq_some_iff.mp hmark
    exact .inl (setPoolPtr_frame hoff ▸ hy.1)
  · obtain ⟨w, hw, hlt, hcases⟩ := carve_frame hr h.shape hx hfit hfirst
    rw [← hnext] at hw hcases
    have hmem : w ∈ l' := by
      obtain hend | hmem := hheap.shape.path.next_mem hy.1
      · rw [hsame.heapEnd] at hend
        omega
      · exact hw ▸ hmem
    exact hheap.shape.border hy.1 hw hmem hcases

/-- A header that a shrinking `rt_smem_realloc` changes is outside the blocks in use. -/
theorem shrink_frame (hr : Ground a s) (h : Heap a s l) {used : Nat} (hx : Owns s l x n)
    (hxy : x + a.sizeofStructMem < y) (hyn : y + a.sizeofStructMem < n) (hal : a.align ∣ y)
    (hplug : plugHoles (cutBlock a s x y used) y = some s')
    (howns : ∀ z m, Owns s' l' z m ↔ Owns s l z m ∧ z ≠ x ∨ z = x ∧ m = y) {off : Nat}
    (hoff : s'.item off ≠ s.item off) : Outside a s' l' off := by
  obtain ⟨l₁, hhole, hsame, howns₁⟩ := cutBlock_hole hr h hx hxy hyn hal used
  have hout : ∀ off', off' ∈ l₁ ∨ off' = (cutBlock a s x y used).heapEnd →
      Outside a s' l' off' := fun off' hmem =>
    (hhole.shape.outside hmem).mono fun z m hz => (howns₁ z m).mpr ((howns z m).mp hz)
  have hx₁ := (howns₁ x y).mpr (.inr ⟨rfl, rfl⟩)
  by_cases hfirst : (cutBlock a s x y used).item off = s.item off
  · rw [← hfirst] at hoff
    exact hout off (plugHoles_frame hhole hplug hoff)
  · have hr₀ : Ground a { s with used := used } :=
      Same.ground (s := s) ⟨rfl, rfl, rfl, rfl, rfl⟩ hr
    have hn : (({ s with used := used } : State).item x).next = n := hx.2.2
    have hcases := (splitAt_frame hr₀ (by omega) (by omega) hfirst).2
    exact hout off (hhole.shape.border hx₁.1 hx₁.2.2 hhole.mem hcases)

/-! ## `rt_smem_realloc` -/

/-- What a call of `rt_smem_realloc` on the live pointer `p` keeps when it returns `q`. -/
structure Preserved (a : Arch) (s s' : State) (p newsize q : Nat) : Prop where
  room : q + newsize ≤ dataEnd a s' q
  copied : ∀ i, i < dataEnd a s p - p → i < newsize → s'.data (q + i) = s.data (p + i)
  others : ∀ o ∈ s.live, o ≠ p → memIsUsed (s'.item (o - a.sizeofStructMem)) = true ∧
    dataEnd a s' o = dataEnd a s o ∧ ∀ i, o ≤ i → i < dataEnd a s o → s'.data i = s.data i
  inside : ∀ i, s'.data i ≠ s.data i → q ≤ i ∧ i < dataEnd a s' q
  headers : ∀ off, s'.item off ≠ s.item off → ∀ o, o = q ∨ o ∈ s.live ∧ o ≠ p →
    off + a.sizeofStructMem ≤ o ∨ dataEnd a s' o ≤ off

theorem dataEnd_eq (hx : Owns s l x n) : dataEnd a s (x + a.sizeofStructMem) = n := by
  rw [dataEnd, Nat.add_sub_cancel, hx.2.2]

/-- The block of `p` at `x` becomes the block at `y`, which no other block was. -/
theorem Preserved.of_owns {m : Nat} (hlive : ∀ p, p ∈ s.live ↔ InUse a s l p) (hx : Owns s l x n)
    (hheap : Heap a s' l') (hfresh : ∀ k, Owns s l y k → y = x)
    (howns : ∀ z k, Owns s' l' z k ↔ Owns s l z k ∧ z ≠ x ∨ z = y ∧ k = m)
    (hcopied : ∀ i, i < n - (x + a.sizeofStructMem) → i < newsize →
      s'.data (y + a.sizeofStructMem + i) = s.data (x + a.sizeofStructMem + i))
    (hroom : y + a.sizeofStructMem + newsize ≤ m)
    (hdata : ∀ i, s'.data i ≠ s.data i → y + a.sizeofStructMem ≤ i ∧ i < m)
    (hframe : ∀ off, s'.item off ≠ s.item off → Outside a s' l' off) :
    Preserved a s s' (x + a.sizeofStructMem) newsize (y + a.sizeofStructMem) := by
  have hy : Owns s' l' y m := (howns y m).mpr (.inr ⟨rfl, rfl⟩)
  have hother : ∀ o ∈ s.live, o ≠ x + a.sizeofStructMem →
      ∃ z k, o = z + a.sizeofStructMem ∧ z ≠ y ∧ Owns s l z k ∧ Owns s' l' z k := by
    intro o ho hne
    obtain ⟨z, k, rfl, hz⟩ := (hlive o).mp ho
    have hzx : z ≠ x := fun heq => hne (by rw [heq])
    exact ⟨z, k, rfl, fun heq => hzx (heq.trans (hfresh k (heq ▸ hz))), hz,
      (howns z k).mpr (.inl ⟨hz, hzx⟩)⟩
  constructor
  · rw [dataEnd_eq hy]
    exact hroom
  · intro i hi hnew
    rw [dataEnd_eq hx] at hi
    exact hcopied i hi hnew
  · intro o ho hne
    obtain ⟨z, k, rfl, hzy, hz, hz'⟩ := hother o ho hne
    rw [dataEnd_eq hz, dataEnd_eq hz', Nat.add_sub_cancel]
    refine ⟨hz'.2.1, rfl, fun i hlow hhigh => ?_⟩
    by_contra hchanged
    obtain ⟨hlow', hhigh'⟩ := hdata i hchanged
    have hzn := hz'.2.2
    have hyn := hy.2.2
    obtain heq | hle | hle := hheap.shape.path.apart hz'.1 hy.1
    · exact hzy heq
    · omega
    · omega
  · intro i hi
    rw [dataEnd_eq hy]
    exact hdata i hi
  · rintro off hoff o (rfl | ⟨ho, hne⟩)
    · rw [dataEnd_eq hy]
      exact hframe off hoff y m hy
    · obtain ⟨z, k, rfl, -, -, hz'⟩ := hother o ho hne
      rw [dataEnd_eq hz']
      exact hframe off hoff z k hz'

theorem moveBlock_preserved (hr : Ground a s) (h : Heap a s l)
    (hlive : ∀ p, p ∈ s.live ↔ InUse a s l p) (hx : Owns s l x n) {new : Nat}
    (hnew : newsize ≤ new) (hal : rtAlign a.bits new a.align = new)
    (hmove : moveBlock a s (x + a.sizeofStructMem) new (min (n - x - a.sizeofStructMem) new) =
      some (s', r)) :
    (r = none → s' = s) ∧ ∀ q, r = some q → Preserved a s s' (x + a.sizeofStructMem) newsize q := by
  obtain ⟨⟨s₁, r₁⟩, halloc, hrest⟩ := Option.bind_eq_some_iff.mp hmove
  obtain ⟨t, r₂, l₁, hspec, hheap, hsame, hres⟩ := rtSmemAlloc_spec hr h new
  rw [halloc] at hspec
  cases hspec
  cases r₁ with
  | none =>
    cases hrest
    exact ⟨fun _ => hres.1, by simp⟩
  | some nmem =>
    obtain ⟨t, hfree, heq⟩ := Option.map_eq_some_iff.mp hrest
    obtain ⟨rfl, rfl⟩ := Prod.mk.inj heq
    refine ⟨by simp, ?_⟩
    rintro q hq
    obtain rfl := Option.some.inj hq
    have hroom := rtSmemAlloc_room hr h halloc
    have hdata₁ := rtSmemAlloc_data hr h halloc
    have hframe₁ := fun off => @rtSmemAlloc_frame a s s₁ l l₁ hr h new nmem halloc hheap hsame
      ((hres.inUse.2 nmem).mpr (.inr rfl)) off
    have hcount : min (n - x - a.sizeofStructMem) new ≤ new := Nat.min_le_right _ _
    have hsize : new ≤ searchedSize a new := by
      rw [searchedSize_eq_max, hal]
      exact Nat.le_max_left _ _
    have hcover : ∀ i, i < n - (x + a.sizeofStructMem) → i < newsize →
        i < min (n - x - a.sizeofStructMem) new := fun i hi hi' => by omega
    generalize min (n - x - a.sizeofStructMem) new = count at *
    obtain ⟨hheap₂, hsame₂, hx₂, hiff⟩ := hres.copied hx hheap hsame count
    have hground₂ := hsame₂.ground hr
    obtain ⟨l', hheap', -, howns'⟩ := rtSmemFree_frees hground₂ hheap₂ hx₂ hfree
    have hdata' := rtSmemFree_data hground₂ hheap₂ hx₂.1 hfree
    obtain ⟨y, m, rfl, hnot, howns₁⟩ := hres
    have hy₁ : Owns s₁ l₁ y m := (howns₁ y m).mpr (.inr ⟨rfl, rfl⟩)
    have hyx : y ≠ x := fun heq => hnot n (heq ▸ hx)
    rw [dataEnd_eq hy₁] at hroom
    have hbytes : ∀ i, t.data i = if y + a.sizeofStructMem ≤ i ∧ i < y + a.sizeofStructMem + count
        then s.data (x + a.sizeofStructMem + (i - (y + a.sizeofStructMem))) else s.data i := by
      intro i
      rw [hdata', ← hdata₁]
      rfl
    have hsub : ∀ z k, Owns t l' z k → Owns s₁ l₁ z k := fun z k hz => ((howns' z k).mp hz).1
    refine Preserved.of_owns (m := m) hlive hx hheap' (fun k hk => absurd hk (hnot k)) ?_ ?_
      (by omega) ?_ ?_
    · intro z k
      rw [howns', hiff, howns₁]
      by_cases hzx : z = x
      · subst hzx
        simp [hyx.symm]
      · simp [hzx]
    · intro i hi hi'
      have hlt := hcover i hi hi'
      rw [hbytes, if_pos ⟨by omega, by omega⟩, Nat.add_sub_cancel_left]
    · intro i hi
      rw [hbytes] at hi
      split at hi
      · omega
      · exact absurd rfl hi
    · intro off hoff
      by_cases hfirst : s₁.item off = s.item off
      · rw [← hfirst] at hoff
        exact (rtSmemFree_frame hground₂ hheap₂ hx₂ hfree hoff).mono hsub
      · exact (hframe₁ off hfirst).mono hsub

theorem rtSmemRealloc_preserved (hr : Ground a s) (h : Heap a s l)
    (hlive : ∀ p, p ∈ s.live ↔ InUse a s l p) {p : Nat} (hp : p ∈ s.live) (hnew : 0 < newsize)
    (hwrap : newsize + a.align ≤ 2 ^ a.bits)
    (hre : rtSmemRealloc a s (some p) newsize = some (s', r)) :
    (r = none → s' = s) ∧ ∀ q, r = some q → Preserved a s s' p newsize q := by
  obtain ⟨x, n, rfl, hx⟩ := (hlive p).mp hp
  have hlt := hr.lt
  have hend := hr.heapEnd_eq
  have hle : newsize ≤ rtAlign a.bits newsize a.align := le_rtAlign a.align_pos (by omega)
  have hal : a.align ∣ rtAlign a.bits newsize a.align := dvd_rtAlign _ _ _
  have hcase := rtSmemRealloc_cases hr h (some (x + a.sizeofStructMem))
    (fun p hp' => Option.some.inj hp' ▸ (hlive _).mp hp) newsize
  rw [hre] at hcase
  generalize rtAlign a.bits newsize a.align = new at *
  generalize hresult : some (s', r) = result at hcase
  cases hcase with
  | tooLarge _ _ =>
    cases hresult
    exact ⟨fun _ => rfl, by simp⟩
  | free hzero _ => omega
  | alloc _ hnull _ => cases hnull
  | @keep y m _ hptr hy hsize _ =>
    obtain rfl : x = y := by
      have := Option.some.inj hptr
      omega
    cases hresult
    refine ⟨by simp, fun q hq => ?_⟩
    cases hq
    exact .of_owns hlive hy h (fun _ _ => rfl) hy.self_iff (fun _ _ _ => rfl) (by omega)
      (fun i hi => absurd rfl hi) fun off hoff => absurd rfl hoff
  | @shrink y m _ hptr hy hroom halign _ =>
    obtain rfl : x = y := by
      have := Option.some.inj hptr
      omega
    obtain ⟨t, hshrink, heq⟩ := Option.map_eq_some_iff.mp hresult.symm
    obtain ⟨rfl, rfl⟩ := Prod.mk.inj heq
    refine ⟨by simp, fun q hq => ?_⟩
    obtain rfl := Option.some.inj hq
    have hplug : plugHoles (cutBlock a s x (x + a.sizeofStructMem + new) _) _ = some t := hshrink
    obtain ⟨t', l', hspec, hheap, -, howns⟩ := shrink_spec hr h hy
      (y := x + a.sizeofStructMem + new) (by omega) (by omega) halign
      (a.sub s.used (m - (x + a.sizeofStructMem + new)))
    cases hplug.symm.trans hspec
    have hdata : t.data = s.data :=
      (plugHoles_data hplug).trans (splitAt_data a _ x (x + a.sizeofStructMem + new))
    refine .of_owns hlive hy hheap (fun _ _ => rfl) howns (fun i _ _ => by rw [hdata]) (by omega)
      (fun i hi => absurd (congrFun hdata i) hi) fun off hoff => ?_
    exact shrink_frame hr h hy (by omega) (by omega) halign hplug howns hoff
  | @move y m _ hptr hy hmoves =>
    obtain rfl : x = y := by
      have := Option.some.inj hptr
      omega
    have hfits := hmoves.1
    have hstep : a.align ≤ a.sizeofStructMem :=
      Nat.le_of_dvd (sizeofStructMem_pos a) (dvd_rtAlign _ _ _)
    exact moveBlock_preserved hr h hlive hy hle (rtAlign_self a.align_pos (by omega) hal)
      hresult.symm

/-! ## Runs -/

theorem run_pool {a : Arch} {s₀ s : State} {ops : List Op} (hrun : Runs.run (step a) s₀ ops = some s) :
    s.pool = s₀.pool :=
  @Runs.run_invariant State Op (step a) (fun t => t.pool = s₀.pool)
    (fun _ _ _ h hs => (step_fixed hs).pool.trans h) s₀ s ops rfl hrun

theorem Sound.roomy_of_live (h : Sound a s) {p : Nat} (hp : p ∈ s.live) : Roomy a s := by
  refine h.resolve_right ?_
  rintro ⟨hfresh, -⟩
  rw [hfresh.live] at hp
  cases hp

/-- In every state that a run from `rt_smem_init` reaches, a call of `rt_smem_realloc` on a live
pointer, with a size above zero that does not wrap, leaves the heap as it was when it returns a
null pointer, and otherwise keeps the first bytes of the block and the other blocks. It returns
when the header word holds the address of the heap object. -/
theorem realloc_preserves (a : Arch) (beginAddr size : Nat) (item : Nat → Item)
    (data : Nat → BitVec 8) (s₀ : State) (hinit : rtSmemInit a beginAddr size item data = some s₀)
    (ops : List Op) (hops : Runs.Along (step a) (Allowed a) s₀ ops) (s : State)
    (hrun : Runs.run (step a) s₀ ops = some s) (p : Nat) (hp : p ∈ s.live) (newsize : Nat)
    (hnew : 0 < newsize) (hwrap : newsize + a.align ≤ 2 ^ a.bits) :
    (∀ s' r, rtSmemRealloc a s (some p) newsize = some (s', r) →
      (r = none → s' = s) ∧ ∀ q, r = some q → Preserved a s s' p newsize q) ∧
      (a.bits = 32 ∨ s₀.pool < 2 ^ 32 →
        ∃ s' r, rtSmemRealloc a s (some p) newsize = some (s', r)) := by
  have hroomy := (run_sound hinit hops hrun).roomy_of_live hp
  obtain ⟨l, hr, hheap, hlive⟩ := hroomy.heap
  refine ⟨fun s' r hre => rtSmemRealloc_preserved hr hheap hlive hp hnew hwrap hre, ?_⟩
  intro hpool
  have hlt : s.pool < 2 ^ 32 := by
    rw [run_pool hrun]
    obtain hbits | hlt := hpool
    · exact hbits ▸ init_pool_lt hinit
    · exact hlt
  obtain ⟨s', r, -, hre, -⟩ := rtSmemRealloc_spec ⟨hr, hlt⟩ hheap (some p)
    (fun q hq => Option.some.inj hq ▸ (hlive p).mp hp) newsize
  exact ⟨s', r, hre⟩

/-- Two blocks; the first one is written to. -/
def writeOps : List Op := [.alloc 20, .alloc 100, .write 12 7, .write 31 9, .write 44 5]

theorem realloc_preserves_ram : ∃ s₀ s, ramHeap = some s₀ ∧
    Runs.run (step arch32) s₀ writeOps = some s ∧
      ∃ s' q, rtSmemRealloc arch32 s (some 12) 50 = some (s', some q) ∧
        Preserved arch32 s s' 12 50 q ∧ s'.data q = 7 := by
  have hcheck : (ramHeap.bind fun s => (Runs.run (step arch32) s writeOps).bind fun t =>
      (rtSmemRealloc arch32 t (some 12) 50).map fun r =>
        decide (Runs.Along (step arch32) (Allowed arch32) s writeOps ∧ 12 ∈ t.live ∧
          r.2 = some 156 ∧ r.1.data 156 = 7)) = some true := by decide +kernel
  obtain ⟨s₀, hs₀, hrest⟩ := Option.bind_eq_some_iff.mp hcheck
  obtain ⟨s, hrun, hlast⟩ := Option.bind_eq_some_iff.mp hrest
  obtain ⟨⟨s', r⟩, hre, hdec⟩ := Option.map_eq_some_iff.mp hlast
  obtain ⟨hops, hp, rfl, hbyte⟩ := of_decide_eq_true hdec
  exact ⟨s₀, s, hs₀, hrun, s', 156, hre, ((realloc_preserves arch32 0x20000000 512
    (fun _ => ⟨0, 0, 0⟩) (fun _ => 0) s₀ hs₀ writeOps hops s hrun 12 hp 50 (by decide)
    (by decide)).1 s' (some 156) hre).2 156 rfl, hbyte⟩

end RtThread.SmallMem
