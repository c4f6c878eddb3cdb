import RtThread.MemheapCalls

/-!
# `rt_memheap_realloc`

The three ways a block changes its size: in place into the free item behind it,
by a move, and by giving back its end.
-/
namespace RtThread.Memheap

variable {c : Config} {s : State} {l fl : List Nat}

/-- The request of `rt_memheap_realloc` does not wrap in the comparison with the space behind
the block, or there is no free item behind the block. -/
def Fits (c : Config) (s : State) (x newsize : Nat) : Prop :=
  request c newsize + minialloc < 2 ^ 32 ∨ isUsed s (s.next x) = true

variable {n p w x y new newsize size : Nat} {s' s₁ : State} {l' : List Nat}

/-- `_remove_next_ptr` of the item behind `x`. -/
theorem removeNextPtr_eq (h : Items c s l) (hx : x ∈ l) (hxy : s.next x = y) (hy : y ∈ l) :
    removeNextPtr s y = removeFree (mergeNext s x y) y := by
  have hb := h.bounds hy
  have hsize := memheapSize_ge c
  have hne : y ≠ s.next y := by omega
  have hprev : s.prev y = x := hxy ▸ h.linked.back x hx
  simp [removeNextPtr, removeFree, mergeNext, setNext, setPrev, setNextFree, setPrevFree, hne,
    hprev]

/-- The bytes of two neighbours. -/
theorem itemSize_next (h : Items c s l) (hx : x ∈ l) (hxy : s.next x = y) (hy : y ∈ l) :
    y = x + c.memheapSize + itemSize c s x ∧
      s.next y = y + c.memheapSize + itemSize c s y := by
  have hbx := h.bounds hx
  have hby := h.bounds hy
  rw [itemSize, itemSize]
  omega

/-- The border between the used item `x` and the free item `y` moves up to `w`. -/
theorem Heap.moveBorder (hr : Region c s) (h : Heap c s l fl) (hx : InUse s l x)
    (hxy : s.next x = y) (hyf : isUsed s y = false) (hyw : y < w)
    (hwn : w + c.memheapSize ≤ s.next y) (hn : n + (w - y) = s.availableSize)
    (hs' : s' = insertFree (newItem (removeFree (mergeNext (charge s n) x y) y) x w) w) :
    ∃ l' fl', Heap c s' l' fl' ∧ Same s s' ∧ ∀ z, InUse s' l' z ↔ InUse s l z := by
  obtain ⟨hxl, hxu⟩ := hx
  have hsize := memheapSize_ge c
  obtain ⟨hyl, hyt⟩ := h.items.next_free hxl (by rwa [hxy])
  rw [hxy] at hyl hyt
  have hbx := h.items.bounds hxl
  have havail := h.available_le hr
  have hynu := (h.apart y hyl).resolve_left (by simp [hyf])
  obtain ⟨l₂, fl₂, h₂, hperm₂, hmem₂⟩ := (h.lists.account n (charge s n).maxUsedSize).absorb
    hxl hxy hyf (by simp)
  have hmax := charge_peak (s := s) (n := n) (by omega) hr.pool_lt
  have hframe₂ := removeFree_frame (mergeNext (charge s n) x y) y
  have hframe₁ := mergeNext_frame (charge s n) x y
  have hsame₂ : Same s (removeFree (mergeNext (charge s n) x y) y) := (charge_same s n).trans
    ((mergeNext_same _ x y).trans (removeFree_same _ y))
  have hnext₂ : ∀ z, (removeFree (mergeNext (charge s n) x y) y).next z =
      if z = x then s.next y else s.next z := by
    intro z
    rw [hframe₂.next, mergeNext_next]
    rfl
  have hused₂ : ∀ z, isUsed (removeFree (mergeNext (charge s n) x y) y) z = isUsed s z := by
    intro z
    rfl
  have havail₂ : (removeFree (mergeNext (charge s n) x y) y).availableSize = n := by
    rfl
  have hmax₂ : (removeFree (mergeNext (charge s n) x y) y).maxUsedSize =
      (charge s n).maxUsedSize := by
    rw [hframe₂.maxUsedSize, hframe₁.maxUsedSize]
  change Lists c (removeFree (mergeNext (charge s n) x y) y) l₂ fl₂ [] at h₂
  generalize removeFree (mergeNext (charge s n) x y) y = s₂ at *
  have hx₂ : x ∈ l₂ := (hmem₂ x).mpr ⟨hxl, by omega⟩
  have hnx₂ : s₂.next x = s.next y := by rw [hnext₂, if_pos rfl]
  have hwl : w ∉ l₂ := h₂.items.not_mem_inside hx₂ (by omega) (by omega)
  obtain ⟨l₃, h₃, hmem₃⟩ := h₂.newItem hx₂ (y := w) (by omega) (by omega)
  have hused₃ : ∀ z, isUsed (newItem s₂ x w) z = if z = w then false else isUsed s z := by
    intro z
    rw [newItem_isUsed, hused₂]
  have hsame₃ := hsame₂.trans (newItem_same s₂ x w)
  obtain ⟨fl₄, h₄, hperm₄⟩ := h₃.insert (hsame₃.region hr) ((hmem₃ w).mpr (.inr rfl))
    (by rw [hused₃, if_pos rfl]) (by simp)
  have hframe₄ := insertFree_frame (newItem s₂ x w) w
  have hsame : Same s s' := hs' ▸ hsame₃.trans (insertFree_same _ w)
  have hused : ∀ z, isUsed s' z = if z = w then false else isUsed s z := by
    intro z
    rw [hs', hframe₄.isUsed, hused₃]
  have hnext : ∀ z, s'.next z = if z = x then w else if z = w then s.next y else s.next z := by
    intro z
    rw [hs', hframe₄.next, newItem_next, hnx₂]
    by_cases hzx : z = x
    · rw [if_pos hzx, if_pos hzx]
    · rw [if_neg hzx, if_neg hzx, hnext₂, if_neg hzx]
  have havail' : s'.availableSize = n := by
    rw [hs', hframe₄.availableSize, (newItem_frame s₂ x w).availableSize, havail₂]
  have hmax' : s'.maxUsedSize = (charge s n).maxUsedSize := by
    rw [hs', hframe₄.maxUsedSize, (newItem_frame s₂ x w).maxUsedSize, hmax₂]
  refine ⟨l₃, fl₄, ⟨hs' ▸ h₄, ?_, ?_, ?_⟩, hsame, ?_⟩
  · intro z hz
    rw [hnext, hused]
    by_cases hzx : z = x
    · rw [hzx, if_neg (by omega)]
      exact .inl hxu
    · rw [if_neg hzx]
      by_cases hzw : z = w
      · rw [if_pos hzw, if_pos hzw, hused, if_neg (by omega)]
        exact .inr hynu
      · have hz₂ := ((hmem₃ z).mp hz).resolve_right hzw
        have hnz : s.next z ≠ w := by
          have := h₂.items.next_ne_inside hx₂ hz₂ (y := w) (by omega) (by omega)
          rwa [hnext₂, if_neg hzx] at this
        rw [if_neg hzw, if_neg hzw, hused, if_neg hnz]
        exact h.apart z ((hmem₂ z).mp hz₂).1
  · have hrem := h.available_remove hperm₂
    have hrest : ∀ z ∈ fl₂, s'.next z = s.next z := by
      intro z hz
      have hzl : z ∈ l₂ := ((h₂.free z).mp hz).1
      have hzf : isUsed s z = false := by
        rw [← hused₂]
        exact ((h₂.free z).mp hz).2.1
      have hzx : z ≠ x := by
        rintro rfl
        rw [hxu] at hzf
        simp at hzf
      have hzw : z ≠ w := fun heq => hwl (heq ▸ hzl)
      rw [hnext, if_neg hzx, if_neg hzw]
    rw [havail', (hperm₄.map (itemSize c s')).sum_eq, List.map_cons, List.sum_cons,
      sum_itemSize_congr hrest, itemSize, hnext, if_neg (by omega), if_pos rfl]
    rw [itemSize] at hrem
    omega
  · rw [hsame.poolSize, havail', hmax']
    exact hmax
  · intro z
    rw [InUse, InUse, hused, hmem₃, hmem₂]
    by_cases hzw : z = w
    · have hwl' : w ∉ l := fun hw => hwl ((hmem₂ w).mpr ⟨hw, by omega⟩)
      simp [hzw, hwl']
    · by_cases hzy : z = y
      · simp [hzy, hyf]
      · simp [hzw, hzy]

/-- `growInPlace` without a wrap. -/
theorem growInPlace_eq (hr : Region c s) (h : Heap c s l fl) (hx : x ∈ l) (hxy : s.next x = y)
    (hyf : isUsed s y = false) (hold : itemSize c s x < newsize)
    (hw : w = x + c.memheapSize + newsize) (hwn : w + c.memheapSize ≤ s.next y) :
    growInPlace s (x + c.memheapSize) x (itemSize c s x) newsize =
      insertFree (newItem (removeFree (mergeNext
        (charge s (s.availableSize - (newsize - itemSize c s x))) x y) y) x w) w := by
  have hsize := memheapSize_ge c
  have htop := hr.le
  obtain ⟨hyl, -⟩ := h.items.next_free hx (by rwa [hxy])
  rw [hxy] at hyl
  obtain ⟨hyx, hyn⟩ := itemSize_next h.items hx hxy hyl
  have hby := h.items.bounds hyl
  have havail := h.available_le hr
  have hyle := h.available_remove (List.perm_cons_erase ((h.free y).mpr ⟨hyl, hyf⟩))
  rw [tailItem] at hby
  have hn : sub s.availableSize (sub newsize (itemSize c s x)) =
      s.availableSize - (newsize - itemSize c s x) := by
    rw [sub, sub, wsub_eq (a := newsize) (by omega) (by omega), wsub_eq (by omega) (by omega)]
  have hadd : add (x + c.memheapSize) newsize = w := hw ▸ wadd_eq (by omega)
  rw [growInPlace, hn, hadd, hxy]
  generalize s.availableSize - (newsize - itemSize c s x) = n
  have hitems : Items c (charge s n) l := (h.lists.account n (charge s n).maxUsedSize).items
  rw [removeNextPtr_eq hitems hx hxy hyl]

theorem growInPlace_spec (hr : Region c s) (h : Heap c s l fl) (hx : InUse s l x)
    (hxy : s.next x = y) (hyf : isUsed s y = false) (hold : itemSize c s x < newsize)
    (hnew : newsize + minialloc < itemSize c s y + itemSize c s x) :
    ∃ l' fl', Heap c (growInPlace s (x + c.memheapSize) x (itemSize c s x) newsize) l' fl' ∧
      Same s (growInPlace s (x + c.memheapSize) x (itemSize c s x) newsize) ∧
      ∀ z, InUse (growInPlace s (x + c.memheapSize) x (itemSize c s x) newsize) l' z ↔
        InUse s l z := by
  obtain ⟨hyl, -⟩ := h.items.next_free hx.1 (by rwa [hxy])
  rw [hxy] at hyl
  obtain ⟨hyx, hyn⟩ := itemSize_next h.items hx.1 hxy hyl
  have hyle := h.available_remove (List.perm_cons_erase ((h.free y).mpr ⟨hyl, hyf⟩))
  exact h.moveBorder hr (w := x + c.memheapSize + newsize)
    (n := s.availableSize - (newsize - itemSize c s x)) hx hxy hyf (by omega) (by omega)
    (by omega) (growInPlace_eq hr h hx.1 hxy hyf hold rfl (by omega))

/-- In the middle of a shrinking `rt_memheap_realloc`: the rest `w` of the block is an item
with a used item behind it, still outside the free list. -/
structure Cut (c : Config) (s : State) (l : List Nat) (s' : State) (l' fl' : List Nat)
    (w : Nat) : Prop where
  lists : Lists c s' l' fl' [w]
  mem : w ∈ l'
  free : isUsed s' w = false
  apart : ∀ z ∈ l', isUsed s' z = true ∨ isUsed s' (s'.next z) = true
  available : s'.availableSize = (fl'.map (itemSize c s')).sum
  total : s.availableSize ≤ s'.availableSize + itemSize c s' w
  peak : s'.maxUsedSize = s.maxUsedSize
  same : Same s s'
  inUse : ∀ z, InUse s' l' z ↔ InUse s l z

theorem Cut.finish (hr : Region c s) (h : Heap c s l fl) {fl' : List Nat}
    (hc : Cut c s l s' l' fl' w) (hn : n = add s'.availableSize (memitemSize c s' w))
    (hs₁ : s₁ = { insertFree s' w with availableSize := n }) :
    ∃ fl₁, Heap c s₁ l' fl₁ ∧ Same s s₁ ∧ ∀ z, InUse s₁ l' z ↔ InUse s l z := by
  have hr' := hc.same.region hr
  have hplt := hr'.pool_lt
  have hpeak := h.peak
  have htotal := hc.total
  have hframe := insertFree_frame s' w
  have hwfl : w ∉ fl' := by
    intro hw
    simpa using ((hc.lists.free w).mp hw).2.2
  have hsum := hc.lists.items.sum_le hr' (m := w :: fl')
    (List.nodup_cons.mpr ⟨hwfl, hc.lists.nodup⟩) (by
      intro z hz
      obtain rfl | hz := List.mem_cons.mp hz
      · exact hc.mem
      · exact ((hc.lists.free z).mp hz).1)
  rw [List.map_cons, List.sum_cons, ← hc.available] at hsum
  rw [memitemSize_eq hr' hc.lists.items hc.mem, add, wadd_eq (by omega)] at hn
  obtain ⟨fl₁, hlists, hperm⟩ := hc.lists.insert hr' hc.mem hc.free (by simp)
  have hlists' : Lists c s₁ l' fl₁ [] := hs₁ ▸ hlists.account n (insertFree s' w).maxUsedSize
  have hsame : Same s s₁ := hs₁ ▸ hc.same.trans ((insertFree_same s' w).trans
    (account_same (insertFree s' w) n (insertFree s' w).maxUsedSize))
  have hnext : s₁.next = s'.next := hs₁ ▸ hframe.next
  have hused : ∀ z, isUsed s₁ z = isUsed s' z := fun z => hs₁ ▸ hframe.isUsed z
  have havail : s₁.availableSize = n := hs₁ ▸ rfl
  have hmax : s₁.maxUsedSize = s'.maxUsedSize := hs₁ ▸ hframe.maxUsedSize
  refine ⟨fl₁, ⟨hlists', ?_, ?_, ?_⟩, hsame, ?_⟩
  · intro z hz
    rw [hnext, hused, hused]
    exact hc.apart z hz
  · rw [sum_itemSize_congr (s := s') fun z _ => congrFun hnext z, (hperm.map _).sum_eq,
      List.map_cons, List.sum_cons, ← hc.available, havail]
    omega
  · rw [hsame.poolSize, havail, hmax, hc.peak]
    omega
  · intro z
    rw [InUse, hused]
    exact hc.inUse z

/-- The end of the used item `x`, from `w` on, becomes an item. -/
theorem Heap.cut (h : Heap c s l fl) (hx : InUse s l x) (hxw : x + c.memheapSize ≤ w)
    (hwn : w + c.memheapSize ≤ s.next x) (hu : isUsed s (s.next x) = true) :
    ∃ l', Cut c s l (newItem s x w) l' fl w := by
  obtain ⟨hxl, hxu⟩ := hx
  have hsize := memheapSize_ge c
  have hwl := h.items.not_mem_inside hxl (y := w) (by omega) (by omega)
  obtain ⟨l', hlists, hmem⟩ := h.lists.newItem hxl hxw hwn
  have hframe := newItem_frame s x w
  refine ⟨l', ⟨hlists, (hmem w).mpr (.inr rfl), by rw [newItem_isUsed, if_pos rfl], ?_, ?_, ?_,
    hframe.maxUsedSize, newItem_same s x w, ?_⟩⟩
  · intro z hz
    rw [newItem_isUsed, newItem_next]
    by_cases hzx : z = x
    · rw [hzx, if_neg (by omega)]
      exact .inl hxu
    · rw [if_neg hzx]
      by_cases hzw : z = w
      · rw [if_pos hzw, if_pos hzw, newItem_isUsed, if_neg (by omega)]
        exact .inr hu
      · have hzl := ((hmem z).mp hz).resolve_right hzw
        have hnz : s.next z ≠ w := h.items.next_ne_inside hxl hzl (by omega) (by omega)
        rw [if_neg hzw, if_neg hzw, newItem_isUsed, if_neg hnz]
        exact h.apart z hzl
  · rw [hframe.availableSize, h.available]
    refine (sum_itemSize_congr fun z hz => ?_).symm
    obtain ⟨hzl, hzf⟩ := (h.free z).mp hz
    have hzw : z ≠ w := fun heq => hwl (heq ▸ hzl)
    have hzx : z ≠ x := by
      rintro rfl
      rw [hxu] at hzf
      simp at hzf
    rw [newItem_next, if_neg hzx, if_neg hzw]
  · rw [hframe.availableSize]
    omega
  · intro z
    rw [InUse, InUse, hmem, newItem_isUsed]
    by_cases hzw : z = w
    · simp [hzw, hwl]
    · simp [hzw]

/-- The end of the used item `x`, from `w` on, becomes one item with the free item `y`
behind `x`. -/
theorem Heap.cutJoin (h : Heap c s l fl) (hx : InUse s l x) (hxw : x + c.memheapSize ≤ w)
    (hxy : s.next x = y) (hwn : w + c.memheapSize ≤ y) (hyf : isUsed s y = false)
    (hn : n + itemSize c s y = s.availableSize)
    (hs' : s' = removeFree (mergeNext { newItem s x w with availableSize := n } w y) y) :
    ∃ l' fl', Cut c s l s' l' fl' w := by
  obtain ⟨hxl, hxu⟩ := hx
  have hsize := memheapSize_ge c
  obtain ⟨hyl, hyt⟩ := h.items.next_free hxl (by rwa [hxy])
  rw [hxy] at hyl hyt
  have hby := h.items.bounds hyl
  have hynu := (h.apart y hyl).resolve_left (by simp [hyf])
  have hwl := h.items.not_mem_inside hxl (y := w) (by omega) (by omega)
  obtain ⟨l₁, h₁, hmem₁⟩ := h.lists.newItem hxl hxw (by omega)
  have hnw : (newItem s x w).next w = y := by
    rw [newItem_next, if_neg (by omega), if_pos rfl, hxy]
  have hyf₁ : isUsed (newItem s x w) y = false := by
    rw [newItem_isUsed, if_neg (by omega), hyf]
  obtain ⟨l', fl', h₂, hperm, hmem₂⟩ := (h₁.account n (newItem s x w).maxUsedSize).absorb
    ((hmem₁ w).mpr (.inr rfl)) hnw hyf₁ (by simp; omega)
  have hframe := newItem_frame s x w
  have hframe₂ := removeFree_frame (mergeNext { newItem s x w with availableSize := n } w y) y
  have hframe₁ := mergeNext_frame { newItem s x w with availableSize := n } w y
  have hsame : Same s s' := hs' ▸ (newItem_same s x w).trans ((account_same _ n _).trans
    ((mergeNext_same _ w y).trans (removeFree_same _ y)))
  have hused : ∀ z, isUsed s' z = if z = w then false else isUsed s z := by
    intro z
    rw [hs', hframe₂.isUsed, mergeNext_isUsed, ← newItem_isUsed s x w]
    rfl
  have hnext : ∀ z, s'.next z = if z = w then s.next y else if z = x then w else s.next z := by
    intro z
    rw [hs', hframe₂.next, mergeNext_next]
    change (if z = w then (newItem s x w).next y else (newItem s x w).next z) = _
    by_cases hzw : z = w
    · rw [if_pos hzw, if_pos hzw, newItem_next, if_neg (by omega), if_neg (by omega)]
    · rw [if_neg hzw, if_neg hzw, newItem_next, if_neg hzw]
  have havail : s'.availableSize = n := by
    rw [hs', hframe₂.availableSize, hframe₁.availableSize]
  have hmem : ∀ z, z ∈ l' ↔ (z ∈ l ∨ z = w) ∧ z ≠ y := fun z => by rw [hmem₂, hmem₁]
  refine ⟨l', fl', ⟨hs' ▸ h₂, (hmem w).mpr ⟨.inr rfl, by omega⟩, by rw [hused, if_pos rfl],
    ?_, ?_, ?_, ?_, hsame, ?_⟩⟩
  · intro z hz
    obtain ⟨hzl, hzy⟩ := (hmem z).mp hz
    rw [hnext, hused]
    by_cases hzw : z = w
    · rw [if_pos hzw, if_pos hzw, hused, if_neg (by omega)]
      exact .inr hynu
    · rw [if_neg hzw, if_neg hzw]
      by_cases hzx : z = x
      · exact .inl (hzx ▸ hxu)
      · replace hzl := hzl.resolve_right hzw
        have hnz : s.next z ≠ w := h.items.next_ne_inside hxl hzl (by omega) (by omega)
        rw [if_neg hzx, hused, if_neg hnz]
        exact h.apart z hzl
  · have hrem := h.available_remove hperm
    rw [havail, sum_itemSize_congr (s := s)]
    · omega
    · intro z hz
      obtain ⟨hzfl, hzy⟩ := (mem_of_perm_cons hperm h.lists.nodup z).mp hz
      obtain ⟨hzl, hzf⟩ := (h.free z).mp hzfl
      have hzw : z ≠ w := fun heq => hwl (heq ▸ hzl)
      have hzx : z ≠ x := by
        rintro rfl
        rw [hxu] at hzf
        simp at hzf
      rw [hnext, if_neg hzw, if_neg hzx]
  · rw [havail, itemSize, hnext, if_pos rfl]
    rw [itemSize] at hn
    omega
  · rw [hs', hframe₂.maxUsedSize, hframe₁.maxUsedSize]
    exact hframe.maxUsedSize
  · intro z
    rw [InUse, InUse, hmem, hused]
    by_cases hzw : z = w
    · simp [hzw, hwl]
    · by_cases hzy : z = y
      · simp [hzy, hyf]
      · simp [hzw, hzy]

theorem mergeRest_spec (hr : Region c s) (h : Heap c s l fl) (hx : InUse s l x)
    (hxw : x + c.memheapSize ≤ w) (hwn : w + c.memheapSize ≤ s.next x) :
    ∃ l' fl', Cut c s l (mergeRest c (newItem s x w) w) l' fl' w := by
  have hsize := memheapSize_ge c
  have hnw : (newItem s x w).next w = s.next x := by
    rw [newItem_next, if_neg (by omega), if_pos rfl]
  have hun : isUsed (newItem s x w) (s.next x) = isUsed s (s.next x) := by
    rw [newItem_isUsed, if_neg (by omega)]
  rw [mergeRest, hnw, hun]
  by_cases hu : isUsed s (s.next x) = true
  · rw [if_pos hu]
    obtain ⟨l', hcut⟩ := h.cut hx hxw hwn hu
    exact ⟨l', fl, hcut⟩
  · rw [if_neg hu]
    have hyf : isUsed s (s.next x) = false := by simpa using hu
    obtain ⟨hyl, -⟩ := h.items.next_free hx.1 hyf
    have havail := h.available_le hr
    have hplt := hr.pool_lt
    have hrem := h.available_remove (List.perm_cons_erase ((h.free _).mpr ⟨hyl, hyf⟩))
    have hmemitem : memitemSize c (newItem s x w) (s.next x) = itemSize c s (s.next x) := by
      rw [← memitemSize_eq hr h.items hyl, memitemSize, memitemSize, newItem_next,
        if_neg (by omega), if_neg (by omega)]
    have hn : sub (newItem s x w).availableSize (memitemSize c (newItem s x w) (s.next x)) =
        s.availableSize - itemSize c s (s.next x) := by
      rw [hmemitem, (newItem_frame s x w).availableSize]
      exact wsub_eq (by omega) (by omega)
    dsimp only
    exact h.cutJoin hx hxw rfl hwn hyf (by omega) rfl

theorem shrink_spec (hr : Region c s) (h : Heap c s l fl) (hx : InUse s l x)
    (hnew : newsize + c.memheapSize ≤ itemSize c s x) :
    ∃ l' fl', Heap c (shrink c s x newsize) l' fl' ∧ Same s (shrink c s x newsize) ∧
      ∀ z, InUse (shrink c s x newsize) l' z ↔ InUse s l z := by
  have hsize := memheapSize_ge c
  have htop := hr.le
  have hb := h.items.bounds hx.1
  have hitem : itemSize c s x = s.next x - x - c.memheapSize := rfl
  rw [tailItem] at hb
  have hw : add (add x newsize) c.memheapSize = x + newsize + c.memheapSize := by
    rw [add, add, wadd_eq (a := x) (by omega), wadd_eq (by omega)]
  obtain ⟨l', fl', hcut⟩ := mergeRest_spec hr h hx (w := x + newsize + c.memheapSize) (by omega)
    (by omega)
  rw [shrink, hw]
  generalize x + newsize + c.memheapSize = w at *
  generalize mergeRest c (newItem s x w) w = s' at *
  have hframe := insertFree_frame s' w
  have hcount : add (insertFree s' w).availableSize (memitemSize c (insertFree s' w) w) =
      add s'.availableSize (memitemSize c s' w) := by
    rw [hframe.availableSize, memitemSize, memitemSize, hframe.next]
  generalize add (insertFree s' w).availableSize (memitemSize c (insertFree s' w) w) = n at *
  obtain ⟨fl₁, hheap, hsame, huse⟩ := hcut.finish hr h hcount rfl
  exact ⟨l', fl₁, hheap, hsame, huse⟩

/-! ## The whole call -/

/-- The data pointer `p` belongs to an item in use. -/
def Owned (c : Config) (s : State) (l : List Nat) (p : Nat) : Prop :=
  ∃ x, p = x + c.memheapSize ∧ InUse s l x

/-- What `rt_memheap_realloc` does to the pointers in use: either it failed and nothing changed,
or the old pointer was given back and the result is in use. -/
structure Reallocated (c : Config) (s : State) (l : List Nat) (s' : State) (l' : List Nat)
    (ptr : Option Nat) (newsize : Nat) (r : Option Nat) : Prop where
  failed : r = none → newsize ≠ 0 → ∀ p, Owned c s' l' p ↔ Owned c s l p
  done : r ≠ none ∨ newsize = 0 →
    ∀ p, Owned c s' l' p ↔ Owned c s l p ∧ some p ≠ ptr ∨ r = some p

theorem owned_congr (huse : ∀ z, InUse s' l' z ↔ InUse s l z) (p : Nat) :
    Owned c s' l' p ↔ Owned c s l p := by
  simp only [Owned, huse]

theorem Allocated.owned (h : Allocated c s l s' l' (some p)) :
    ¬ Owned c s l p ∧ ∀ q, Owned c s' l' q ↔ Owned c s l q ∨ q = p := by
  obtain ⟨x, rfl, hnot, huse⟩ := h
  constructor
  · rintro ⟨y, heq, hy⟩
    obtain rfl : y = x := by omega
    exact hnot hy
  · intro q
    constructor
    · rintro ⟨y, rfl, hy⟩
      obtain hy | rfl := (huse y).mp hy
      · exact .inl ⟨y, rfl, hy⟩
      · exact .inr rfl
    · rintro (⟨y, rfl, hy⟩ | rfl)
      · exact ⟨y, rfl, (huse y).mpr (.inl hy)⟩
      · exact ⟨x, rfl, (huse x).mpr (.inr rfl)⟩

/-- Giving back the item at `x`. -/
theorem owned_free (huse : ∀ z, InUse s' l' z ↔ InUse s l z ∧ z ≠ x) (q : Nat) :
    Owned c s' l' q ↔ Owned c s l q ∧ q ≠ x + c.memheapSize := by
  constructor
  · rintro ⟨y, rfl, hy⟩
    obtain ⟨hy, hne⟩ := (huse y).mp hy
    exact ⟨⟨y, rfl, hy⟩, by omega⟩
  · rintro ⟨⟨y, rfl, hy⟩, hne⟩
    exact ⟨y, rfl, (huse y).mpr ⟨hy, by omega⟩⟩

/-- The call kept its block. -/
theorem Reallocated.of_same (hp : Owned c s l p) (huse : ∀ z, InUse s' l' z ↔ InUse s l z) :
    Reallocated c s l s' l' (some p) newsize (some p) := by
  refine ⟨by simp, ?_⟩
  intro _ q
  rw [owned_congr huse]
  by_cases hqp : q = p
  · simp [hqp, hp]
  · have : p ≠ q := fun heq => hqp heq.symm
    simp [hqp, this]

theorem Heap.data (h : Heap c s l fl) (d : Nat → BitVec 8) : Heap c { s with data := d } l fl :=
  ⟨⟨h.items.congr ⟨rfl, rfl, rfl, rfl, rfl, rfl⟩ rfl rfl rfl rfl, h.lists.ring.congr rfl rfl rfl,
    h.lists.free⟩, h.apart, h.available, h.peak⟩

/-- The heap between the copy of a move and the free of the old block. -/
theorem move_copied (hr : Region c s) (h : Heap c s l fl) (count : Nat) (hx : InUse s l x)
    (halloc : rtMemheapAlloc c s size = some (s₁, some new)) :
    ∃ l₁ fl₁, Heap c (rtMemcpy s₁ new (x + c.memheapSize) count) l₁ fl₁ ∧
      Same s (rtMemcpy s₁ new (x + c.memheapSize) count) ∧
      InUse (rtMemcpy s₁ new (x + c.memheapSize) count) l₁ x ∧
      Allocated c s l s₁ l₁ (some new) := by
  obtain ⟨s₂, r, l₁, fl₁, halloc', hheap, hsame, hres⟩ := rtMemheapAlloc_spec hr h size
  obtain ⟨rfl, rfl⟩ : s₂ = s₁ ∧ r = some new := by simpa [halloc] using halloc'.symm
  obtain ⟨y, hyx, hx₁⟩ := (hres.owned.2 (x + c.memheapSize)).mpr (.inl ⟨x, rfl, hx⟩)
  obtain rfl : x = y := by omega
  exact ⟨l₁, fl₁, hheap.data _, hsame.trans ⟨rfl, rfl, rfl, rfl, rfl, rfl⟩, hx₁, hres⟩

/-- The move of `rt_memheap_realloc`: allocate, copy, free. -/
theorem move_spec (hr : Region c s) (h : Heap c s l fl) {count : Nat} (newsize : Nat)
    (hx : InUse s l x) (halloc : rtMemheapAlloc c s size = some (s₁, some new)) :
    ∃ s' l₁ l' fl', rtMemheapFree c (rtMemcpy s₁ new (x + c.memheapSize) count)
        (some (x + c.memheapSize)) = some s' ∧ Heap c s' l' fl' ∧ Same s s' ∧
      Reallocated c s l s' l' (some (x + c.memheapSize)) newsize (some new) ∧
      Allocated c s l s₁ l₁ (some new) ∧
      Released c (rtMemcpy s₁ new (x + c.memheapSize) count) l₁ s' x := by
  obtain ⟨l₁, fl₁, hheap₂, hsame₂, hx₂, hres⟩ := move_copied hr h count hx halloc
  obtain ⟨hfresh, huse⟩ := hres.owned
  obtain ⟨s', l', fl', hfree, hheap', hsame', huse', hreleased⟩ :=
    rtMemheapFree_spec (hsame₂.region hr) hheap₂ hx₂
  have howned : ∀ p, Owned c s' l' p ↔ (Owned c s l p ∨ p = new) ∧ p ≠ x + c.memheapSize := by
    intro p
    rw [owned_free huse', ← huse p]
    rfl
  have hne : new ≠ x + c.memheapSize := by
    rintro rfl
    exact hfresh ⟨x, rfl, hx⟩
  refine ⟨s', l₁, l', fl', hfree, hheap', hsame₂.trans hsame', ⟨by simp, ?_⟩, hres,
    hreleased⟩
  intro _ p
  rw [howned p]
  simp only [ne_eq, Option.some.injEq]
  constructor
  · rintro ⟨hp | rfl, hne'⟩
    · exact .inl ⟨hp, hne'⟩
    · exact .inr rfl
  · rintro (⟨hp, hne'⟩ | rfl)
    · exact ⟨.inl hp, hne'⟩
    · exact ⟨.inr rfl, hne⟩

/-- The comparison of the sizes before the block grows in place. -/
theorem grow_test (hr : Region c s) (h : Items c s l) (hx : x ∈ l)
    (hf : isUsed s (s.next x) = false) (hfit : newsize + minialloc < 2 ^ 32) :
    add newsize minialloc < add (memitemSize c s (s.next x)) (itemSize c s x) ↔
      newsize + minialloc < itemSize c s (s.next x) + itemSize c s x := by
  have hlt := hr.pool_lt
  obtain ⟨hyl, -⟩ := h.next_free hx hf
  obtain ⟨hyx, hyn⟩ := itemSize_next h hx rfl hyl
  have hbx := h.bounds hx
  have hby := h.bounds hyl
  rw [tailItem] at hby
  rw [memitemSize_eq hr h hyl, add, add, wadd_eq hfit, wadd_eq (by omega)]

/-- The ways `rt_memheap_realloc` serves a request of `newsize` bytes for the block in `x`. -/
inductive ReallocCase (c : Config) (s : State) (x newsize : Nat) :
    Option (State × Option Nat) → Prop where
  | grow (hf : isUsed s (s.next x) = false) (hold : itemSize c s x < newsize)
      (hroom : newsize + minialloc < itemSize c s (s.next x) + itemSize c s x) :
      ReallocCase c s x newsize (some (growInPlace s (x + c.memheapSize) x (itemSize c s x) newsize,
        some (x + c.memheapSize)))
  | refused (hold : itemSize c s x < newsize)
      (halloc : rtMemheapAlloc c s newsize = some (s, none)) :
      ReallocCase c s x newsize (some (s, none))
  | move (hold : itemSize c s x < newsize) {s₁ : State} {new : Nat}
      (halloc : rtMemheapAlloc c s newsize = some (s₁, some new)) :
      ReallocCase c s x newsize ((rtMemheapFree c (rtMemcpy s₁ new (x + c.memheapSize)
        (min (itemSize c s x) newsize)) (some (x + c.memheapSize))).map fun s => (s, some new))
  | keep (hold : newsize ≤ itemSize c s x) :
      ReallocCase c s x newsize (some (s, some (x + c.memheapSize)))
  | shrink (hold : newsize + c.memheapSize + minialloc < itemSize c s x) :
      ReallocCase c s x newsize (some (Memheap.shrink c s x newsize, some (x + c.memheapSize)))

theorem rtMemheapRealloc_cases (hr : Region c s) (h : Heap c s l fl) (hx : InUse s l x)
    (hnew : newsize ≠ 0) (hfit : Fits c s x newsize) :
    ReallocCase c s x (request c newsize)
      (rtMemheapRealloc c s (some (x + c.memheapSize)) newsize) := by
  have hsize := memheapSize_ge c
  have htop := hr.le
  have hb := h.items.bounds hx.1
  rw [tailItem] at hb
  have hitem : itemSize c s x = s.next x - x - c.memheapSize := rfl
  rw [rtMemheapRealloc, if_neg hnew]
  dsimp only
  rw [(h.items.data_eq hr hx.1).2, memitemSize_eq hr h.items hx.1,
    if_pos (show x < s.next x by omega)]
  rw [Fits] at hfit
  generalize request c newsize = size at *
  by_cases hgrow : itemSize c s x < size
  · rw [if_pos hgrow]
    by_cases htest : isUsed s (s.next x) = false ∧ add size minialloc <
        add (memitemSize c s (s.next x)) (itemSize c s x)
    · rw [if_pos htest]
      have hfit' := hfit.resolve_right (by simp [htest.1])
      exact .grow htest.1 hgrow ((grow_test hr h.items hx.1 htest.1 hfit').mp htest.2)
    · rw [if_neg htest]
      obtain ⟨halloc, -⟩ | ⟨-, y, -, -, -, halloc⟩ := rtMemheapAlloc_finds hr h size
      · rw [halloc, Option.bind_some]
        exact .refused hgrow halloc
      · rw [halloc, Option.bind_some]
        exact .move hgrow halloc
  · rw [if_neg hgrow]
    have hadd : add (add size c.memheapSize) minialloc = size + c.memheapSize + minialloc := by
      have hmin : minialloc = 12 := rfl
      rw [add, add, wadd_eq (a := size) (by omega), wadd_eq (by omega)]
    rw [hadd]
    by_cases hkeep : itemSize c s x ≤ size + c.memheapSize + minialloc
    · rw [if_pos hkeep]
      exact .keep (by omega)
    · rw [if_neg hkeep]
      exact .shrink (by omega)

theorem rtMemheapRealloc_spec (hr : Region c s) (h : Heap c s l fl) (ptr : Option Nat)
    (newsize : Nat) (hptr : ∀ p, ptr = some p → Owned c s l p)
    (hfit : ∀ x, ptr = some (x + c.memheapSize) → newsize ≠ 0 → Fits c s x newsize) :
    ∃ s' r l' fl', rtMemheapRealloc c s ptr newsize = some (s', r) ∧ Heap c s' l' fl' ∧
      Same s s' ∧ Reallocated c s l s' l' ptr newsize r := by
  by_cases hzero : newsize = 0
  · rw [rtMemheapRealloc, if_pos hzero]
    cases ptr with
    | none =>
      refine ⟨s, none, l, fl, rfl, h, .refl s, ⟨fun _ hne => absurd hzero hne, ?_⟩⟩
      intro _ p
      simp
    | some ptr =>
      obtain ⟨x, rfl, hx⟩ := hptr ptr rfl
      obtain ⟨s', l', fl', hfree, hheap, hsame, huse, -⟩ := rtMemheapFree_spec hr h hx
      refine ⟨s', none, l', fl', by rw [hfree, Option.map_some], hheap, hsame,
        ⟨fun _ hne => absurd hzero hne, ?_⟩⟩
      intro _ p
      rw [owned_free huse]
      simp
  · cases ptr with
    | none =>
      obtain ⟨s', r, l', fl', halloc, hheap, hsame, hres⟩ :=
        rtMemheapAlloc_spec hr h (request c newsize)
      refine ⟨s', r, l', fl', by rwa [rtMemheapRealloc, if_neg hzero], hheap, hsame, ⟨?_, ?_⟩⟩
      · rintro rfl _ p
        obtain ⟨rfl, rfl⟩ := hres
        rfl
      · rintro (hne | hz) p
        · obtain ⟨q, rfl⟩ := Option.ne_none_iff_exists'.mp hne
          rw [hres.owned.2 p]
          simp [eq_comm]
        · exact absurd hz hzero
    | some ptr =>
      obtain ⟨x, rfl, hx⟩ := hptr ptr rfl
      have howned : Owned c s l (x + c.memheapSize) := ⟨x, rfl, hx⟩
      have hcase := rtMemheapRealloc_cases hr h hx hzero (hfit x rfl hzero)
      generalize rtMemheapRealloc c s (some (x + c.memheapSize)) newsize = res at *
      cases hcase with
      | grow hf hold hroom =>
        obtain ⟨l', fl', hheap, hsame, huse⟩ := growInPlace_spec hr h hx rfl hf hold hroom
        exact ⟨_, _, l', fl', rfl, hheap, hsame, .of_same howned huse⟩
      | refused hold halloc =>
        refine ⟨s, none, l, fl, rfl, h, .refl s, ⟨fun _ _ _ => Iff.rfl, ?_⟩⟩
        rintro (hne | hz)
        · exact absurd rfl hne
        · exact absurd hz hzero
      | @move hold s₁ new halloc =>
        obtain ⟨s', -, l', fl', hfree, hheap, hsame, hres, -⟩ := move_spec hr h newsize hx halloc
        exact ⟨s', some new, l', fl', by rw [hfree, Option.map_some], hheap, hsame, hres⟩
      | keep hold => exact ⟨s, _, l, fl, rfl, h, .refl s, .of_same howned fun _ => Iff.rfl⟩
      | shrink hold =>
        obtain ⟨l', fl', hheap, hsame, huse⟩ :=
          shrink_spec hr h hx (show request c newsize + c.memheapSize ≤ itemSize c s x by omega)
        exact ⟨_, _, l', fl', rfl, hheap, hsame, .of_same howned huse⟩

end RtThread.Memheap
