import RtThread.MemheapRequests
import RtThread.MemheapSystem

/-!
# The contents of the memheap

A call rewrites headers, and the headers lie between the data of the blocks. `Recut` bounds the
writes of a call that builds an item: they stay outside of the blocks in use before and after the
call. The bytes change through the copy of `rt_memheap_realloc` only.
-/
namespace RtThread.Memheap

variable {c : Config} {s s₁ s' : State} {l fl : List Nat}

/-! ## Cutting an item -/

variable {o q w x z count newsize off size : Nat} {m m' m₁ : Memory} {live : Nat → Prop}

/-- A header at `off` that is known does not begin inside an item. -/
theorem Items.outside (hr : Region c s) (h : Items c s l) (hz : z ∈ l) (hoff : Known c s l off) :
    off ≤ z ∨ s.next z ≤ off := by
  have hb := h.bounds hz
  obtain hmem | rfl | rfl := hoff
  · have hbo := h.bounds hmem
    obtain rfl | hle | hle := h.apart hz hmem
    · exact .inl (Nat.le_refl _)
    · exact .inr hle
    · exact .inl (by omega)
  · exact .inr hb.2.2
  · have hheader := hr.header
    rw [tailItem] at hb
    omega

theorem Known.of_new {l' : List Nat} (h : Known c s' l' off) (hs : Same s s')
    (hsub : ∀ z ∈ l', z ∈ l ∨ z = w) : Known c s l off ∨ off = w := by
  obtain hmem | htail | hhead := h
  · exact (hsub off hmem).imp_left .inl
  · exact .inl (.inr (.inl (htail.trans hs.tailItem)))
  · exact .inl (.inr (.inr (hhead.trans hs.freeList)))

/-- The item `x` ends at `w` now, where the one new item may begin. -/
structure Recut (c : Config) (s : State) (l : List Nat) (s' : State) (x w : Nat) : Prop where
  mem : x ∈ l
  next : s'.next x = w
  lower : x + c.memheapSize ≤ w
  upper : w + c.memheapSize ≤ s.startAddr + s.poolSize
  clear : ∀ z, InUse s l z → z ≠ x → w ≤ z ∨ s.next z ≤ x
  others : ∀ z, InUse s l z → z ≠ x → s'.next z = s.next z
  writes : Writes s s' fun off => Known c s l off ∧ (off ≤ x ∨ w ≤ off)
    ∨ off = w

theorem Recut.of_next (hr : Region c s) (h : Items c s l) (hx : x ∈ l)
    (hxw : x + c.memheapSize ≤ w) (hwn : w + c.memheapSize ≤ s.next x) (hnext : s'.next x = w)
    (hothers : ∀ z ∈ l, z ≠ x → isUsed s z = true → s'.next z = s.next z)
    (hwrites : Writes s s' fun off => Known c s l off ∨ off = w) : Recut c s l s' x w := by
  have hb := h.bounds hx
  rw [tailItem] at hb
  refine ⟨hx, hnext, hxw, by omega, ?_, fun z hz hne => hothers z hz.1 hne hz.2, ?_⟩
  · intro z hz hne
    obtain heq | hle | hle := h.apart hx hz.1
    · exact absurd heq.symm hne
    · exact .inl (by omega)
    · exact .inr hle
  · refine hwrites.mono fun off hoff => ?_
    obtain hknown | heq := hoff
    · obtain hle | hle := h.outside hr hx hknown
      · exact .inl ⟨hknown, .inl hle⟩
      · exact .inl ⟨hknown, .inr (by omega)⟩
    · exact .inr heq

/-- The whole item is kept. -/
theorem Recut.of_whole (hr : Region c s) (h : Items c s l) (hx : x ∈ l) (hnext : s'.next = s.next)
    (hwrites : Writes s s' (Known c s l)) : Recut c s l s' x (s.next x) := by
  have hb := h.bounds hx
  rw [tailItem] at hb
  refine ⟨hx, by rw [hnext], hb.2.1, by omega, ?_, fun z _ _ => by rw [hnext], ?_⟩
  · intro z hz hne
    obtain heq | hle | hle := h.apart hx hz.1
    · exact absurd heq.symm hne
    · exact .inl hle
    · exact .inr hle
  · exact hwrites.mono fun off hoff => .inl ⟨hoff, h.outside hr hx hoff⟩

theorem takeItem_recut (hr : Region c s) (h : Heap c s l fl) (hx : x ∈ fl)
    (hle : size ≤ itemSize c s x) :
    ∃ w, Recut c s l (takeItem c s x (itemSize c s x) size) x w ∧ x + c.memheapSize + size ≤ w := by
  have hsize := memheapSize_ge c
  have hitem : itemSize c s x = s.next x - x - c.memheapSize := rfl
  have hxl := ((h.free x).mp hx).1
  have hb := h.items.bounds hxl
  have hnext := takeItem_next hr h hx hle
  have hmem := List.mem_cons_of_mem s.freeList hx
  rw [takeItem_eq hr h hx hle] at hnext ⊢
  by_cases hsplit : size + c.memheapSize + minialloc ≤ itemSize c s x
  · rw [if_pos hsplit] at hnext ⊢
    rw [if_pos hsplit] at hnext
    have hnewl := h.items.not_mem_inside hxl (y := x + size + c.memheapSize) (by omega) (by omega)
    obtain ⟨l₁, h₁, hmem₁⟩ := h.lists.newItem (y := x + size + c.memheapSize) hxl (by omega)
      (by omega)
    obtain ⟨fl₂, h₂, -⟩ := h₁.detach hx
    refine ⟨x + size + c.memheapSize, .of_next hr h.items hxl (by omega) (by omega) ?_ ?_ ?_,
      by omega⟩
    · rw [hnext, newItem_next, if_pos rfl]
    · intro z hz hne _
      have hnew : z ≠ x + size + c.memheapSize := fun heq => hnewl (heq ▸ hz)
      rw [hnext, newItem_next, if_neg hne, if_neg hnew]
    · generalize x + size + c.memheapSize = w at *
      have hsame₂ := (newItem_same s x w).trans (detachFree_same (newItem s x w) x)
      have hfirst := (h₂.known_nextFree List.mem_cons_self).of_new hsame₂ fun z hz =>
        (hmem₁ z).mp hz
      have hwrites₁ : Writes s (newItem s x w) fun off => Known c s l off ∨ off = w :=
        newItem_writes s (.inl (.inl hxl)) (.inr rfl) (.inl (h.items.known_next hxl))
      have hwrites₂ : Writes s (detachFree (newItem s x w) x) fun off => Known c s l off ∨ off = w := by
        refine hwrites₁.trans (detachFree_writes _ (.inl (.inl hxl)) (.inl ?_) (.inl ?_))
        · rw [(newItem_frame s x w).nextFree]
          exact h.lists.known_nextFree hmem
        · rw [(newItem_frame s x w).prevFree]
          exact h.lists.known_prevFree hmem
      generalize detachFree (newItem s x w) x = s₂ at *
      exact hwrites₂.trans <|
        (insertFree_writes s₂ (.inr rfl) (.inl (.inr (.inr hsame₂.freeList))) hfirst).trans <|
        (charge_writes _ _).trans (setMagic_writes _ (.inl (.inl hxl)))
  · rw [if_neg hsplit] at hnext ⊢
    rw [if_neg hsplit] at hnext
    refine ⟨s.next x, .of_whole hr h.items hxl hnext ?_, by omega⟩
    refine (charge_writes s _).trans <| Writes.trans (detachFree_writes _ (.inl hxl) ?_ ?_)
      (setMagic_writes _ (.inl hxl))
    · exact h.lists.known_nextFree hmem
    · exact h.lists.known_prevFree hmem

theorem growInPlace_recut (hr : Region c s) (h : Heap c s l fl) (hx : InUse s l x)
    (hf : isUsed s (s.next x) = false) (hold : itemSize c s x < newsize)
    (hroom : newsize + minialloc < itemSize c s (s.next x) + itemSize c s x) :
    Recut c s l (growInPlace s (x + c.memheapSize) x (itemSize c s x) newsize) x
      (x + c.memheapSize + newsize) := by
  have hsize := memheapSize_ge c
  obtain ⟨hyl, hyt⟩ := h.items.next_free hx.1 hf
  obtain ⟨hyx, hyn⟩ := itemSize_next h.items hx.1 rfl hyl
  have hby := h.items.bounds hyl
  rw [tailItem] at hby
  have hw : x + c.memheapSize + newsize + c.memheapSize ≤ s.next (s.next x) := by omega
  have hyw : s.next x < x + c.memheapSize + newsize := by omega
  have hnext := growInPlace_next hr h hx.1 rfl hf hold rfl hw
  rw [growInPlace_eq hr h hx.1 rfl hf hold rfl hw] at hnext ⊢
  have hlow : x + c.memheapSize ≤ x + c.memheapSize + newsize := Nat.le_add_right _ _
  generalize x + c.memheapSize + newsize = w at *
  generalize s.availableSize - (newsize - itemSize c s x) = n at *
  generalize hy : s.next x = y at *
  have hbeside : ∀ off, Known c s l off → off ≠ y → off ≤ x ∨ w ≤ off := by
    intro off hoff hne
    have houtx := h.items.outside hr hx.1 hoff
    have houty := h.items.outside hr hyl hoff
    omega
  have hyfl := (h.free y).mpr ⟨hyl, hf⟩
  have hyring := List.mem_cons_of_mem s.freeList hyfl
  have hnf : s.nextFree y ≠ y := h.lists.ring.next_ne hyfl
  have hpf : s.prevFree y ≠ y := by
    intro heq
    have hback := (Ring.Linked.prev_mem h.lists.ring hyring).2
    rw [heq] at hback
    exact hnf hback
  have h₁ : Lists c (charge s n) l fl [] := h.lists.account n (charge s n).maxUsedSize
  have hf₁ : isUsed (charge s n) y = false := (isUsed_congr (s := s) rfl).trans hf
  obtain ⟨l₂, fl₂, h₂, -, hmem₂⟩ := h₁.absorb hx.1 hy hf₁ (by simp)
  have hsame₂ := (charge_same s n).trans
    ((mergeNext_same (charge s n) x y).trans (removeFree_same _ y))
  have hwrites₁ : Writes (charge s n) (mergeNext (charge s n) x y) fun off =>
      Known c s l off ∧ (off ≤ x ∨ w ≤ off) ∨ off = w :=
    mergeNext_writes _ (.inl ⟨.inl hx.1, .inl le_rfl⟩)
      (.inl ⟨h.items.known_next hyl, .inr ((Nat.le_add_right w c.memheapSize).trans hw)⟩)
  have hwrites₂ : Writes (mergeNext (charge s n) x y) (removeFree (mergeNext (charge s n) x y) y)
      fun off => Known c s l off ∧ (off ≤ x ∨ w ≤ off) ∨ off = w := by
    have hframe := mergeNext_frame (charge s n) x y
    refine removeFree_writes _ (.inl ?_) (.inl ?_)
    · exact ⟨h.lists.known_nextFree hyring, hbeside _ (h.lists.known_nextFree hyring) hnf⟩
    · exact ⟨h.lists.known_prevFree hyring, hbeside _ (h.lists.known_prevFree hyring) hpf⟩
  have hnextx : (removeFree (mergeNext (charge s n) x y) y).next x = s.next y := by
    rw [(removeFree_frame _ y).next, mergeNext_next, if_pos rfl, charge_next]
  have hbefore := (charge_writes s n).trans (hwrites₁.trans hwrites₂)
  generalize removeFree (mergeNext (charge s n) x y) y = s₂ at *
  have hfirst := h₂.known_nextFree List.mem_cons_self
  have hfirstne : s₂.nextFree s₂.freeList ≠ y := by
    obtain hmem | htail | hhead := hfirst
    · exact ((hmem₂ _).mp hmem).2
    · rw [htail, hsame₂.tailItem]
      exact hyt.symm
    · rw [hhead, hsame₂.freeList]
      exact (h.items.ne_freeList hr hyl).symm
  have hfirst := hfirst.of_same hsame₂ fun z hz => ((hmem₂ z).mp hz).1
  have hfree : Known c s l s₂.freeList := .inr (.inr hsame₂.freeList)
  have hclear : ∀ z, InUse s l z → z ≠ x → w ≤ z ∨ s.next z ≤ x := by
    intro z hz hne
    have hbz := h.items.bounds hz.1
    have hzy : z ≠ y := by
      rintro rfl
      exact absurd hz.2 (by simp [hf])
    have hx' := h.items.apart hx.1 hz.1
    have hy' := h.items.apart hyl hz.1
    omega
  refine ⟨hx.1, ?_, hlow, by omega, hclear, ?_, ?_⟩
  · rw [hnext, newItem_next, if_pos rfl]
  · intro z hz hne
    have hzw : z ≠ w := fun heq => h.items.not_mem_inside hyl hyw (by omega) (heq ▸ hz.1)
    rw [hnext, newItem_next, if_neg hne, if_neg hzw, mergeNext_next, if_neg hne]
  · refine hbefore.trans <| Writes.trans (newItem_writes s₂ (.inl ⟨.inl hx.1, .inl le_rfl⟩)
      (.inr rfl) (.inl ?_)) (insertFree_writes _ (.inr rfl) (.inl ?_) (.inl ?_))
    · rw [hnextx]
      exact ⟨h.items.known_next hyl, .inr (by omega)⟩
    · rw [(newItem_same s₂ x w).freeList]
      exact ⟨hfree, hbeside _ hfree (hsame₂.freeList ▸ (h.items.ne_freeList hr hyl).symm)⟩
    · rw [(newItem_same s₂ x w).freeList, (newItem_frame s₂ x w).nextFree]
      exact ⟨hfirst, hbeside _ hfirst hfirstne⟩

/-- The rest of a block is joined with the free item behind it. -/
theorem mergeRest_writes {out : List Nat} (h : Lists c s l fl out) (hw : w ∈ l)
    (ho : s.next w ∉ out) : Writes s (mergeRest c s w) (Known c s l) ∧
      Known c s l ((mergeRest c s w).nextFree s.freeList) := by
  rw [mergeRest]
  by_cases hu : isUsed s (s.next w) = true
  · rw [if_pos hu]
    exact ⟨.refl s, h.known_nextFree List.mem_cons_self⟩
  · rw [if_neg hu]
    have hyf : isUsed s (s.next w) = false := by simpa using hu
    obtain ⟨hyl, -⟩ := h.items.next_free hw hyf
    have hyfl := List.mem_cons_of_mem s.freeList ((h.free _).mpr ⟨hyl, hyf, ho⟩)
    dsimp only
    generalize sub s.availableSize (memitemSize c s (s.next w)) = n
    have hmagic : ({ s with availableSize := n } : State).magic (s.next w) = s.magic (s.next w) :=
      rfl
    have hyf₁ := (isUsed_congr hmagic).trans hyf
    obtain ⟨l', fl', h', -, hmem⟩ := (h.account n s.maxUsedSize).absorb hw rfl hyf₁ ho
    constructor
    · refine (account_writes s n s.maxUsedSize).trans <|
        (mergeNext_writes _ (.inl hw) ?_).trans (removeFree_writes _ ?_ ?_)
      · exact h.items.known_next hyl
      · exact h.known_nextFree hyfl
      · exact h.known_prevFree hyfl
    · have hsame := (account_same s n s.maxUsedSize).trans
        ((mergeNext_same _ w (s.next w)).trans (removeFree_same _ (s.next w)))
      have hfirst := h'.known_nextFree List.mem_cons_self
      rw [hsame.freeList] at hfirst
      exact hfirst.of_same hsame fun z hz => ((hmem z).mp hz).1

theorem shrink_recut (hr : Region c s) (h : Heap c s l fl) (hx : InUse s l x)
    (hold : newsize + c.memheapSize + minialloc < itemSize c s x) :
    Recut c s l (shrink c s x newsize) x (x + newsize + c.memheapSize) := by
  have hsize := memheapSize_ge c
  have htop := hr.le
  have hitem : itemSize c s x = s.next x - x - c.memheapSize := rfl
  have hb := h.items.bounds hx.1
  rw [tailItem] at hb
  have hnext := shrink_next hr h hx.1 rfl (show x + newsize + c.memheapSize ≤ s.next x by omega)
  have hnew : add (add x newsize) c.memheapSize = x + newsize + c.memheapSize := by
    rw [add, add, wadd_eq (a := x) (by omega), wadd_eq (by omega)]
  have hlow : x + c.memheapSize ≤ x + newsize + c.memheapSize := by omega
  have hhigh : x + newsize + c.memheapSize + c.memheapSize ≤ s.next x := by omega
  rw [shrink, hnew] at hnext ⊢
  generalize x + newsize + c.memheapSize = w at *
  have hwl := h.items.not_mem_inside hx.1 (y := w) (by omega) (by omega)
  obtain ⟨l₁, h₁, hmem₁⟩ := h.lists.newItem hx.1 hlow hhigh
  have hsame₁ := newItem_same s x w
  have hnw : (newItem s x w).next w = s.next x := by
    rw [newItem_next, if_neg (by omega), if_pos rfl]
  obtain ⟨hrest, hfirst⟩ := mergeRest_writes h₁ ((hmem₁ w).mpr (.inr rfl)) (by
    rw [hnw, List.mem_singleton]
    omega)
  have hwrites : Writes s (mergeRest c (newItem s x w) w) fun off => Known c s l off ∨ off = w :=
    (newItem_writes s (.inl (.inl hx.1)) (.inr rfl) (.inl (h.items.known_next hx.1))).trans
      (hrest.mono fun off hoff => hoff.of_new hsame₁ fun z hz => (hmem₁ z).mp hz)
  have hfirst := hfirst.of_new hsame₁ fun z hz => (hmem₁ z).mp hz
  obtain ⟨_, _, hcut⟩ := mergeRest_spec hr h hx hlow hhigh
  have hhead := hcut.same.freeList
  have hkeep : ∀ z, z ≠ w → (mergeRest c (newItem s x w) w).next z = (newItem s x w).next z := by
    intro z hz
    rw [mergeRest_next]
    split
    · rfl
    · rw [mergeNext_next, if_neg hz]
  generalize mergeRest c (newItem s x w) w = s₂ at *
  refine .of_next hr h.items hx.1 hlow hhigh ?_ ?_ ?_
  · rw [hnext, hkeep x (by omega), newItem_next, if_pos rfl]
  · intro z hz hne _
    have hzw : z ≠ w := fun heq => hwl (heq ▸ hz)
    rw [hnext, hkeep z hzw, newItem_next, if_neg hne, if_neg hzw]
  · rw [hsame₁.freeList, ← hhead] at hfirst
    exact hwrites.trans <| (insertFree_writes s₂ (.inr rfl) (.inl (.inr (.inr hhead))) hfirst).trans
      (account_writes _ _ (insertFree s₂ w).maxUsedSize)

/-! ## Blocks -/

/-- The end of the block behind the data pointer `p`. -/
def dataEnd (c : Config) (m : Memory) (p : Nat) : Nat := m.next (p - c.memheapSize)

/-- The block of `o` stays in use with its end, and no header is rewritten in its data. -/
structure Kept (c : Config) (m m' : Memory) (o : Nat) : Prop where
  stop : dataEnd c m' o = dataEnd c m o
  used : m'.magic (o - c.memheapSize) = magicUsed
  headers : ∀ off, ¬ SameItem m m' off → off + c.memheapSize ≤ o ∨ dataEnd c m o ≤ off

theorem Kept.trans (h : Kept c m m₁ o) (h' : Kept c m₁ m' o) : Kept c m m' o := by
  refine ⟨h'.stop.trans h.stop, h'.used, fun off hoff => ?_⟩
  by_cases hfirst : SameItem m m₁ off
  · have hheaders := h'.headers off fun hsame => hoff (hfirst.trans hsame)
    rwa [h.stop] at hheaders
  · exact h.headers off hfirst

/-- The header at `off` lies in the region of the heap, or heads its free list. -/
def Within (c : Config) (s : State) (off : Nat) : Prop :=
  off = s.freeList ∨ s.startAddr ≤ off ∧ off + c.memheapSize ≤ s.startAddr + s.poolSize

theorem Known.within (hr : Region c s) (h : Items c s l) (hoff : Known c s l off) :
    Within c s off := by
  have hge := hr.pool_ge
  obtain hmem | rfl | rfl := hoff
  · have hb := h.bounds hmem
    rw [tailItem] at hb
    exact .inr (by omega)
  · rw [Within, tailItem]
    omega
  · exact .inl rfl

/-- The block of `o` is a block of another heap. -/
structure Far (c : Config) (s : State) (o : Nat) : Prop where
  le : c.memheapSize ≤ o
  used : s.magic (o - c.memheapSize) = magicUsed
  size : o ≤ s.next (o - c.memheapSize)
  region : s.next (o - c.memheapSize) ≤ s.startAddr ∨
    s.startAddr + s.poolSize ≤ o - c.memheapSize
  header : s.freeList < o - c.memheapSize ∨ s.next (o - c.memheapSize) ≤ s.freeList

theorem Far.outside (h : Far c s o) (hoff : Within c s off) :
    off < o - c.memheapSize ∨ s.next (o - c.memheapSize) ≤ off := by
  have hsize := memheapSize_ge c
  obtain rfl | hregion := hoff
  · exact h.header
  · obtain hbelow | habove := h.region
    · exact .inr (by omega)
    · exact .inl (by omega)

theorem Far.item (h : Far c s o) (hw : Writes s s' (Within c s)) :
    SameItem s.memory s'.memory (o - c.memheapSize) := by
  have hle := h.le
  have hstop := h.size
  have hsize := memheapSize_ge c
  refine hw.item _ fun hoff => ?_
  have hout := h.outside hoff
  omega

theorem Far.kept (h : Far c s o) (hw : Writes s s' (Within c s)) : Kept c s.memory s'.memory o := by
  have hitem := h.item hw
  refine ⟨hitem.next, hitem.magic.trans h.used, fun off hoff => ?_⟩
  by_contra hnot
  refine hoff (hw.item off fun hin => hnot ?_)
  obtain hbelow | habove := h.outside hin
  · exact .inl (by omega)
  · exact .inr habove

theorem Far.of_writes (h : Far c s o) (hw : Writes s s' (Within c s)) (hs : Same s s') :
    Far c s' o := by
  have hitem := h.item hw
  have hnext : s'.next (o - c.memheapSize) = s.next (o - c.memheapSize) := hitem.next
  refine ⟨h.le, hitem.magic.trans h.used, ?_, ?_, ?_⟩
  · rw [hnext]
    exact h.size
  · rw [hnext, hs.startAddr, hs.poolSize]
    exact h.region
  · rw [hnext, hs.freeList]
    exact h.header

theorem Far.ne (h : Items c s l) (hfar : Far c s o) (hx : x ∈ l) : o ≠ x + c.memheapSize := by
  rintro rfl
  have hb := h.bounds hx
  have hsize := memheapSize_ge c
  have hregion := hfar.region
  rw [Nat.add_sub_cancel] at hregion
  rw [tailItem] at hb
  omega

/-- A block of the heap, or of another one. -/
def Block (c : Config) (s : State) (l : List Nat) (o : Nat) : Prop := Owned c s l o ∨ Far c s o

theorem Block.copy (h : Block c s l o) (dst src count : Nat) :
    Block c (rtMemcpy s dst src count) l o :=
  h.imp (fun hown => hown) fun hfar => ⟨hfar.le, hfar.used, hfar.size, hfar.region, hfar.header⟩

theorem Owned.kept {P : Nat → Prop} (hnext : s'.next z = s.next z)
    (hused : s'.magic z = magicUsed) (hw : Writes s s' P)
    (hP : ∀ off, P off → off ≤ z ∨ s.next z ≤ off) :
    Kept c s.memory s'.memory (z + c.memheapSize) := by
  refine ⟨?_, ?_, fun off hoff => ?_⟩
  · rw [dataEnd, dataEnd, Nat.add_sub_cancel]
    exact hnext
  · rw [Nat.add_sub_cancel]
    exact hused
  · rw [dataEnd, Nat.add_sub_cancel]
    by_contra hnot
    refine hoff (hw.item off fun hin => hnot ?_)
    obtain hbelow | habove := hP off hin
    · exact .inl (by omega)
    · exact .inr habove

theorem Recut.within (hr : Region c s) (h : Items c s l) (hc : Recut c s l s' x w) :
    Writes s s' (Within c s) := by
  refine hc.writes.mono ?_
  rintro off (⟨hknown, -⟩ | rfl)
  · exact hknown.within hr h
  · have hb := h.bounds hc.mem
    have hlow := hc.lower
    exact .inr ⟨by omega, hc.upper⟩

theorem Recut.kept (hr : Region c s) (h : Items c s l) (hc : Recut c s l s' x w)
    (hused : ∀ z, InUse s l z → z ≠ x → s'.magic z = magicUsed) (ho : Block c s l o)
    (hne : o ≠ x + c.memheapSize) : Kept c s.memory s'.memory o := by
  obtain ⟨z, rfl, hz⟩ | hfar := ho
  · have hzx : z ≠ x := fun heq => hne (by rw [heq])
    refine Owned.kept (hc.others z hz hzx) (hused z hz hzx) hc.writes ?_
    rintro off (⟨hknown, -⟩ | rfl)
    · exact h.outside hr hz.1 hknown
    · have hlow := hc.lower
      obtain hle | hle := hc.clear z hz hzx
      · exact .inl hle
      · exact .inr (by omega)
  · exact hfar.kept (hc.within hr h)

theorem Recut.apart (h : Items c s l) (hc : Recut c s l s' x w) (ho : Block c s l o)
    (hne : o ≠ x + c.memheapSize) : dataEnd c s.memory o ≤ x ∨ w ≤ o - c.memheapSize := by
  obtain ⟨z, rfl, hz⟩ | hfar := ho
  · rw [dataEnd, Nat.add_sub_cancel]
    exact (hc.clear z hz fun heq => hne (by rw [heq])).symm
  · have hb := h.bounds hc.mem
    have hup := hc.upper
    obtain hbelow | habove := hfar.region
    · exact .inl (hbelow.trans hb.1)
    · exact .inr (by omega)

/-- The block that ends at `w` now has no rewritten header in its data. -/
theorem Recut.headers (hc : Recut c s l s' x w) (hoff : ¬ SameItem s.memory s'.memory off) :
    off + c.memheapSize ≤ x + c.memheapSize ∨ w ≤ off := by
  by_contra hnot
  refine hoff (hc.writes.item off fun hin => hnot ?_)
  obtain ⟨-, hle | hle⟩ | rfl := hin
  · exact .inl (by omega)
  · exact .inr hle
  · exact .inr (Nat.le_refl _)

/-! ## `rt_memheap_alloc` and `rt_memheap_free` -/

/-- A new block behind `q`, beside the blocks in `live`. -/
structure Allocates (c : Config) (live : Nat → Prop) (m m' : Memory) (q size : Nat) : Prop where
  le : c.memheapSize ≤ q
  room : q + size ≤ dataEnd c m' q
  used : m'.magic (q - c.memheapSize) = magicUsed
  data : m'.data = m.data
  kept : ∀ o, live o → Kept c m m' o
  apart : ∀ o, live o → dataEnd c m o ≤ q - c.memheapSize ∨ dataEnd c m' q ≤ o - c.memheapSize
  headers : ∀ off, ¬ SameItem m m' off → off + c.memheapSize ≤ q ∨ dataEnd c m' q ≤ off

/-- The blocks in use of the heap. -/
theorem Heap.magic_used (h : Heap c s l fl) (hz : InUse s l z) : s.magic z = magicUsed :=
  h.items.used hz.1 hz.2

theorem alloc_allocates (hr : Region c s) (h : Heap c s l fl)
    (hlive : ∀ o, live o → Block c s l o) (halloc : rtMemheapAlloc c s size = some (s', some q)) :
    Allocates c live s.memory s'.memory q (request c size) := by
  obtain ⟨hnone, -⟩ | ⟨-, x, hx, hle, -, htake⟩ := rtMemheapAlloc_finds hr h size
  · rw [hnone] at halloc
    simp at halloc
  · obtain ⟨rfl, rfl⟩ : takeItem c s x (itemSize c s x) (request c size) = s' ∧
        x + c.memheapSize = q := by simpa [htake] using halloc
    obtain ⟨hxl, hxf⟩ := (h.free x).mp hx
    obtain ⟨l', fl', hheap', -, huse⟩ := takeItem_spec hr h hx hle
    obtain ⟨w, hcut, hroom⟩ := takeItem_recut hr h hx hle
    generalize takeItem c s x (itemSize c s x) (request c size) = s' at *
    have hstop : dataEnd c s'.memory (x + c.memheapSize) = w := by
      rw [dataEnd, Nat.add_sub_cancel]
      exact hcut.next
    have hne : ∀ o, Block c s l o → o ≠ x + c.memheapSize := by
      rintro o ho rfl
      obtain ⟨z, heq, hz⟩ | hfar := ho
      · obtain rfl : x = z := by omega
        simp [hxf, InUse] at hz
      · exact hfar.ne h.items hxl rfl
    refine ⟨Nat.le_add_left _ _, ?_, ?_, hcut.writes.data, ?_, ?_, ?_⟩
    · rw [hstop]
      exact hroom
    · rw [Nat.add_sub_cancel]
      exact hheap'.magic_used ((huse x).mpr (.inr rfl))
    · intro o ho
      exact hcut.kept hr h.items (fun z hz _ => hheap'.magic_used ((huse z).mpr (.inl hz)))
        (hlive o ho) (hne o (hlive o ho))
    · intro o ho
      rw [hstop, Nat.add_sub_cancel]
      exact hcut.apart h.items (hlive o ho) (hne o (hlive o ho))
    · intro off hoff
      rw [hstop]
      exact hcut.headers hoff

theorem alloc_within (hr : Region c s) (h : Heap c s l fl) {r : Option Nat}
    (halloc : rtMemheapAlloc c s size = some (s', r)) : Writes s s' (Within c s) := by
  obtain ⟨hnone, -⟩ | ⟨-, x, hx, hle, -, htake⟩ := rtMemheapAlloc_finds hr h size
  · obtain ⟨rfl, -⟩ : s = s' ∧ none = r := by simpa [hnone] using halloc
    exact .refl s
  · obtain ⟨rfl, -⟩ : takeItem c s x (itemSize c s x) (request c size) = s' ∧
        some (x + c.memheapSize) = r := by simpa [htake] using halloc
    obtain ⟨w, hcut, -⟩ := takeItem_recut hr h hx hle
    exact hcut.within hr h.items

theorem free_kept (hr : Region c s) (h : Heap c s l fl) (hx : InUse s l x)
    (hfree : rtMemheapFree c s (some (x + c.memheapSize)) = some s') (ho : Block c s l o)
    (hne : o ≠ x + c.memheapSize) : Kept c s.memory s'.memory o := by
  obtain ⟨t, l', fl', hfree', hheap', -, huse, hreleased⟩ := rtMemheapFree_spec hr h hx
  cases hfree'.symm.trans hfree
  obtain ⟨z, rfl, hz⟩ | hfar := ho
  · have hzx : z ≠ x := fun heq => hne (by rw [heq])
    exact Owned.kept (hreleased.next z hz hzx) (hheap'.magic_used ((huse z).mpr ⟨hz, hzx⟩))
      hreleased.writes fun off hoff => h.items.outside hr hz.1 hoff
  · exact hfar.kept (hreleased.writes.mono fun off hoff => hoff.within hr h.items)

theorem free_within (hr : Region c s) (h : Heap c s l fl) (hx : InUse s l x)
    (hfree : rtMemheapFree c s (some (x + c.memheapSize)) = some s') :
    Writes s s' (Within c s) := by
  obtain ⟨t, l', fl', hfree', -, -, -, hreleased⟩ := rtMemheapFree_spec hr h hx
  cases hfree'.symm.trans hfree
  exact hreleased.writes.mono fun off hoff => hoff.within hr h.items

/-! ## `rt_memheap_realloc` -/

/-- What a call that changes the size of the block of `p` keeps when it returns `q`. -/
structure Preserved (c : Config) (live : Nat → Prop) (m m' : Memory) (p newsize q : Nat) :
    Prop where
  room : q + newsize ≤ dataEnd c m' q
  used : m'.magic (q - c.memheapSize) = magicUsed
  copied : ∀ i, i < dataEnd c m p - p → i < newsize → m'.data (q + i) = m.data (p + i)
  others : ∀ o, live o → o ≠ p →
    Kept c m m' o ∧ ∀ i, o ≤ i → i < dataEnd c m o → m'.data i = m.data i
  inside : ∀ i, m'.data i ≠ m.data i → q ≤ i ∧ i < dataEnd c m' q
  headers : ∀ off, ¬ SameItem m m' off → off + c.memheapSize ≤ q ∨ dataEnd c m' q ≤ off

/-- The block stays where it is. -/
theorem Recut.preserved (hr : Region c s) (h : Items c s l) (hc : Recut c s l s' x w)
    (hused : ∀ z, InUse s l z → s'.magic z = magicUsed) (hx : InUse s l x)
    (hroom : x + c.memheapSize + newsize ≤ w) (hlive : ∀ o, live o → Block c s l o) :
    Preserved c live s.memory s'.memory (x + c.memheapSize) newsize (x + c.memheapSize) := by
  have hstop : dataEnd c s'.memory (x + c.memheapSize) = w := by
    rw [dataEnd, Nat.add_sub_cancel]
    exact hc.next
  have hdata : s'.memory.data = s.memory.data := hc.writes.data
  refine ⟨?_, ?_, fun i _ _ => by rw [hdata], ?_, fun i hi => absurd (congrFun hdata i) hi, ?_⟩
  · rw [hstop]
    exact hroom
  · rw [Nat.add_sub_cancel]
    exact hused x hx
  · intro o ho hne
    exact ⟨hc.kept hr h (fun z hz _ => hused z hz) (hlive o ho) hne, fun i _ _ => by rw [hdata]⟩
  · intro off hoff
    rw [hstop]
    exact hc.headers hoff

theorem SameItem.copy (m : Memory) (dst src count off : Nat) :
    SameItem m (m.copy dst src count) off := ⟨rfl, rfl, rfl, rfl, rfl, rfl⟩

theorem Kept.of_copy {dst src : Nat} (h : Kept c (m.copy dst src count) m' o) : Kept c m m' o :=
  ⟨h.stop, h.used, fun off hoff => h.headers off fun hsame =>
    hoff ((SameItem.copy m dst src count off).trans hsame)⟩

/-- The block moves: a new one is allocated, the bytes are copied, and the old one is freed. -/
theorem Preserved.of_move {p : Nat} (halloc : Allocates c live m m₁ q size)
    (hcount : count ≤ size) (hsize : newsize ≤ size)
    (hcover : ∀ i, i < dataEnd c m p - p → i < newsize → i < count)
    (hfree : ∀ o, live o ∨ o = q → o ≠ p → Kept c (m₁.copy q p count) m' o)
    (hdata : m'.data = (m₁.copy q p count).data) (hqp : q ≠ p) :
    Preserved c live m m' p newsize q := by
  have hbytes : ∀ i, m'.data i =
      if q ≤ i ∧ i < q + count then m.data (p + (i - q)) else m.data i := by
    intro i
    rw [hdata, ← halloc.data]
    rfl
  have hq := hfree q (.inr rfl) hqp
  have hstop : dataEnd c m' q = dataEnd c m₁ q := hq.stop
  have hroom := halloc.room
  refine ⟨by omega, hq.used, ?_, ?_, ?_, ?_⟩
  · intro i hi hi'
    have hlt := hcover i hi hi'
    rw [hbytes, if_pos ⟨by omega, by omega⟩, Nat.add_sub_cancel_left]
  · intro o ho hne
    refine ⟨(halloc.kept o ho).trans (hfree o (.inl ho) hne).of_copy, fun i hlow hhigh => ?_⟩
    rw [hbytes, if_neg]
    have hapart := halloc.apart o ho
    omega
  · intro i hi
    rw [hbytes] at hi
    split at hi
    · omega
    · exact absurd rfl hi
  · intro off hoff
    rw [hstop]
    by_cases hfirst : SameItem m m₁ off
    · exact hq.of_copy.headers off fun hsame => hoff (hfirst.trans hsame)
    · exact halloc.headers off hfirst

/-- A null pointer means that nothing happened. -/
theorem realloc_refused (hr : Region c s) (h : Heap c s l fl) (hx : InUse s l x)
    (hnew : newsize ≠ 0) (hfit : Fits c s x newsize)
    (hre : rtMemheapRealloc c s (some (x + c.memheapSize)) newsize = some (s', none)) : s' = s := by
  have hcase := rtMemheapRealloc_cases hr h hx hnew hfit
  rw [hre] at hcase
  generalize hresult : some (s', none) = result at hcase
  cases hcase with
  | grow | keep | shrink => cases hresult
  | refused hold halloc => exact (pair_inj hresult).1
  | move hold halloc =>
    obtain ⟨t, -, heq⟩ := Option.map_eq_some_iff.mp hresult.symm
    exact absurd (Prod.mk.inj heq).2 (by simp)

theorem realloc_preserved (hr : Region c s) (h : Heap c s l fl)
    (hlive : ∀ o, live o → Block c s l o) (hx : InUse s l x) (hnew : newsize ≠ 0)
    (hwrap : newsize + c.align ≤ 2 ^ 32) (hfit : Fits c s x newsize)
    (hre : rtMemheapRealloc c s (some (x + c.memheapSize)) newsize = some (s', some q)) :
    Preserved c live s.memory s'.memory (x + c.memheapSize) newsize q := by
  have hle := le_request hwrap
  have hitem : itemSize c s x = s.next x - x - c.memheapSize := rfl
  have hcase := rtMemheapRealloc_cases hr h hx hnew hfit
  rw [hre] at hcase
  have htwice := le_request_request c newsize
  generalize request c newsize = size at *
  generalize hresult : some (s', some q) = result at hcase
  cases hcase with
  | grow hf hold hroom =>
    obtain ⟨rfl, hq⟩ := pair_inj hresult
    cases hq
    obtain ⟨l', fl', hheap', -, huse⟩ := growInPlace_spec hr h hx rfl hf hold hroom
    exact (growInPlace_recut hr h hx hf hold hroom).preserved hr h.items
      (fun z hz => hheap'.magic_used ((huse z).mpr hz)) hx (by omega) hlive
  | refused hold halloc => cases hresult
  | @move hold s₁ new halloc =>
    obtain ⟨t, hfree, heq⟩ := Option.map_eq_some_iff.mp hresult.symm
    obtain ⟨rfl, hq⟩ := Prod.mk.inj heq
    obtain rfl := Option.some.inj hq
    generalize hcount : min (itemSize c s x) size = count at *
    obtain ⟨l₁, fl₁, hheap₂, hsame₂, hx₂, hres⟩ := move_copied hr h count hx halloc
    obtain ⟨hfresh, howned⟩ := hres.owned
    have hsame₁ : Same s s₁ := ⟨hsame₂.heap, hsame₂.startAddr, hsame₂.poolSize, hsame₂.blockList,
      hsame₂.freeList, hsame₂.live⟩
    have hwithin := alloc_within hr h halloc
    have hblock : ∀ o, live o ∨ o = new → Block c s₁ l₁ o := by
      rintro o (ho | rfl)
      · exact (hlive o ho).imp (fun hown => (howned o).mpr (.inl hown))
          fun hfar => hfar.of_writes hwithin hsame₁
      · exact .inl ((howned o).mpr (.inr rfl))
    have hstop : dataEnd c s.memory (x + c.memheapSize) = s.next x := by
      rw [dataEnd, Nat.add_sub_cancel]
      rfl
    have hqp : new ≠ x + c.memheapSize := fun heq => hfresh (heq ▸ ⟨x, rfl, hx⟩)
    have hr₂ := hsame₂.region hr
    refine .of_move (alloc_allocates hr h hlive halloc) (show count ≤ _ by omega) (by omega) ?_ ?_
      (free_within hr₂ hheap₂ hx₂ hfree).data hqp
    · intro i hi hi'
      omega
    · intro o ho hne
      exact free_kept hr₂ hheap₂ hx₂ hfree ((hblock o ho).copy _ _ _) hne
  | keep hold =>
    obtain ⟨rfl, hq⟩ := pair_inj hresult
    cases hq
    exact (Recut.of_whole hr h.items hx.1 rfl (.refl _)).preserved hr h.items
      (fun z hz => h.magic_used hz) hx (by omega) hlive
  | shrink hold =>
    obtain ⟨rfl, hq⟩ := pair_inj hresult
    cases hq
    obtain ⟨l', fl', hheap', -, huse⟩ :=
      shrink_spec hr h hx (show size + c.memheapSize ≤ itemSize c s x by omega)
    exact (shrink_recut hr h hx hold).preserved hr h.items
      (fun z hz => hheap'.magic_used ((huse z).mpr hz)) hx (by omega) hlive

end RtThread.Memheap
