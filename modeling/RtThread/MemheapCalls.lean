import Mathlib.Algebra.Order.BigOperators.Group.List
import Mathlib.Algebra.Order.Group.Nat
import RtThread.MemheapWrites

/-!
# The calls of the memheap

`Heap` is what holds between two calls. Every function of `memheap.c` gets one
specification: it returns, it keeps the structure and the accounts, and it
changes the blocks in use as its name says.
-/
namespace RtThread.Memheap

/-- `MEMITEM_SIZE` without a wrap. -/
def itemSize (c : Config) (s : State) (x : Nat) : Nat := s.next x - x - c.memheapSize

structure Heap (c : Config) (s : State) (l fl : List Nat) : Prop where
  lists : Lists c s l fl []
  apart : ∀ x ∈ l, isUsed s x = true ∨ isUsed s (s.next x) = true
  available : s.availableSize = (fl.map (itemSize c s)).sum
  peak : s.poolSize - s.availableSize ≤ s.maxUsedSize

variable {c : Config} {s s' : State} {l m fl out : List Nat} {n x y size : Nat}

theorem Heap.items (h : Heap c s l fl) : Items c s l := h.lists.items

theorem Heap.free (h : Heap c s l fl) (x : Nat) : x ∈ fl ↔ x ∈ l ∧ isUsed s x = false := by
  rw [h.lists.free]
  simp

/-- The item at `x` is in use. -/
def InUse (s : State) (l : List Nat) (x : Nat) : Prop := x ∈ l ∧ isUsed s x = true

theorem memitemSize_eq (hr : Region c s) (h : Items c s l) (hx : x ∈ l) :
    memitemSize c s x = itemSize c s x := by
  have hb := h.bounds hx
  have hle := hr.le
  have hsize := memheapSize_ge c
  rw [tailItem] at hb
  rw [memitemSize, itemSize, sub, sub, wsub_eq (a := s.next x) (by omega) (by omega),
    wsub_eq (by omega) (by omega)]

/-- The data areas of the items and their headers cover the region. -/
theorem Items.sum_eq (h : Items c s l) :
    (l.map (itemSize c s)).sum + l.length * c.memheapSize = tailItem c s - s.startAddr := by
  rw [← h.linked.path.sum]
  have hb : ∀ x ∈ l, itemSize c s x + c.memheapSize = s.next x - x := by
    intro x hx
    have := h.bounds hx
    rw [itemSize]
    omega
  clear h
  induction l with
  | nil => simp
  | cons x l ih =>
    have hx := hb x List.mem_cons_self
    have := ih fun y hy => hb y (List.mem_cons_of_mem x hy)
    simp only [List.map_cons, List.sum_cons, List.length_cons, Nat.add_mul, Nat.one_mul]
    omega

/-- Some of the items fit into the region. -/
theorem Items.sum_le (hr : Region c s) (h : Items c s l) (hnd : m.Nodup) (hm : ∀ x ∈ m, x ∈ l) :
    (m.map (itemSize c s)).sum + m.length * c.memheapSize + c.memheapSize ≤ s.poolSize := by
  have hge := hr.pool_ge
  have hsum := h.sum_eq
  obtain ⟨l', hperm, hsub⟩ := hnd.subperm hm
  have hle := (hsub.map (itemSize c s)).sum_le_sum fun _ _ => Nat.zero_le _
  have hlen := Nat.mul_le_mul_right c.memheapSize hsub.length_le
  rw [(hperm.map (itemSize c s)).sum_eq] at hle
  rw [hperm.length_eq] at hlen
  rw [tailItem] at hsum
  omega

/-- The available bytes and the two headers fit into the pool. -/
theorem Heap.available_le (hr : Region c s) (h : Heap c s l fl) :
    s.availableSize + 2 * c.memheapSize ≤ s.poolSize := by
  have hge := hr.pool_ge
  have hsum := h.items.sum_le hr h.lists.nodup fun x hx => ((h.free x).mp hx).1
  rw [h.available]
  cases fl with
  | nil => simpa using hge
  | cons x fl =>
    simp only [List.length_cons, Nat.add_mul, Nat.one_mul] at hsum
    omega

/-! ## `rt_memheap_alloc` -/

/-- The search along the free list ends; a large enough size is the size of the item found, and
a smaller one means that no item is large enough. -/
theorem searchFree_spec (n : Nat) {header freeSize : Nat}
    (hs : Ring.Seq s.nextFree header s.freeList m) (hm : ∀ x ∈ header :: m, x ≠ s.freeList)
    (hfs : freeSize < size) (hn : m.length + 2 < n) :
    ∃ x fs, searchFree c s size n header freeSize = some (x, fs) ∧
      (size ≤ fs → x ∈ header :: m ∧ fs = memitemSize c s x) ∧
      (fs < size → ∀ y ∈ header :: m, memitemSize c s y < size) := by
  induction m generalizing n header freeSize with
  | nil =>
    obtain ⟨n, rfl⟩ : ∃ k, n = k + 2 := ⟨n - 2, by simp at hn; omega⟩
    simp only [searchFree, hm header (by simp), hfs, ne_eq, not_false_eq_true, and_self, ↓reduceIte]
    by_cases hlt : memitemSize c s header < size
    · rw [if_pos hlt, show s.nextFree header = s.freeList from hs]
      exact ⟨s.freeList, memitemSize c s header, by simp, fun hle => by omega, by simp⟩
    · exact ⟨header, memitemSize c s header, by simp [hlt], fun _ => ⟨by simp, rfl⟩,
        fun hlt' => absurd hlt' hlt⟩
  | cons w m ih =>
    obtain ⟨n, rfl⟩ : ∃ k, n = k + 2 := ⟨n - 2, by simp at hn; omega⟩
    rw [searchFree, if_pos ⟨hm header (by simp), hfs⟩]
    simp only
    by_cases hlt : memitemSize c s header < size
    · rw [if_pos hlt, hs.1]
      obtain ⟨x, fs, hx, hres, hmiss⟩ := ih (n + 1) hs.2
        (fun x hx => hm x (List.mem_cons_of_mem header hx)) hlt (by simp at hn; omega)
      refine ⟨x, fs, hx, fun hle => ⟨List.mem_cons_of_mem header (hres hle).1, (hres hle).2⟩, ?_⟩
      intro hlt' y hy
      obtain rfl | hy := List.mem_cons.mp hy
      · exact hlt
      · exact hmiss hlt' y hy
    · exact ⟨header, _, by simp [searchFree, hlt], fun _ => ⟨by simp, rfl⟩,
        fun hlt' => absurd hlt' hlt⟩

/-- The items are fewer than the words of the address space. -/
theorem Lists.length_lt (hr : Region c s) (h : Lists c s l fl out) : fl.length < 2 ^ 32 := by
  have hsum := h.items.sum_le hr h.nodup fun x hx => ((h.free x).mp hx).1
  have hsize := memheapSize_ge c
  have hlt := hr.pool_lt
  have hlen : fl.length * 1 ≤ fl.length * c.memheapSize := Nat.mul_le_mul_left _ (by omega)
  omega

theorem searchFree_start (hr : Region c s) (h : Heap c s l fl) (hsize : 0 < size) :
    ∃ x fs, searchFree c s size (2 ^ 33) (s.nextFree s.freeList) 0 = some (x, fs) ∧
      (size ≤ fs → x ∈ fl ∧ fs = itemSize c s x) ∧
      (fs < size → ∀ y ∈ fl, itemSize c s y < size) := by
  have hlen := h.lists.length_lt hr
  have hseq := h.lists.ring.seq
  have hitem : ∀ y ∈ fl, memitemSize c s y = itemSize c s y :=
    fun y hy => memitemSize_eq hr h.items ((h.free y).mp hy).1
  cases fl with
  | nil =>
    rw [show s.nextFree s.freeList = s.freeList from hseq]
    refine ⟨s.freeList, 0, ?_, fun hle => by omega, by simp⟩
    rw [show (2 : Nat) ^ 33 = (2 ^ 33 - 1) + 1 by decide, searchFree]
    simp
  | cons w m =>
    rw [hseq.1]
    obtain ⟨x, fs, hx, hres, hmiss⟩ := searchFree_spec (c := c) (2 ^ 33) hseq.2
      (fun x hx => h.items.ne_freeList hr ((h.free x).mp hx).1) hsize
      (by simp only [List.length_cons] at hlen; omega)
    refine ⟨x, fs, hx, fun hle => ?_, fun hlt y hy => ?_⟩
    · obtain ⟨hmem, hfs⟩ := hres hle
      exact ⟨hmem, by rw [hfs, hitem x hmem]⟩
    · rw [← hitem y hy]
      exact hmiss hlt y hy

/-- The sum over the free list after one item left it. -/
theorem Heap.available_remove {fl' : List Nat} (h : Heap c s l fl) (hperm : fl.Perm (x :: fl')) :
    s.availableSize = itemSize c s x + (fl'.map (itemSize c s)).sum := by
  rw [h.available, (hperm.map (itemSize c s)).sum_eq, List.map_cons, List.sum_cons]

/-- The sizes of items whose `next` stays are the same. -/
theorem sum_itemSize_congr (h : ∀ x ∈ fl, s'.next x = s.next x) :
    (fl.map (itemSize c s')).sum = (fl.map (itemSize c s)).sum := by
  congr 1
  refine List.map_congr_left fun x hx => ?_
  rw [itemSize, itemSize, h x hx]

theorem charge_same (s : State) (n : Nat) : Same s (charge s n) := account_same s n _

theorem charge_peak (hn : n ≤ s.poolSize) (hlt : s.poolSize < 2 ^ 32) :
    s.poolSize - n ≤ (charge s n).maxUsedSize := by
  have hsub : sub s.poolSize n = s.poolSize - n := wsub_eq hn hlt
  simp only [charge, hsub]
  split <;> omega

/-- The whole item is handed out. -/
theorem takeItem_whole (hr : Region c s) (h : Heap c s l fl) (hx : x ∈ fl)
    (hn : n + itemSize c s x = s.availableSize) :
    ∃ fl', Heap c (setMagic (detachFree (charge s n) x) x magicUsed) l fl' ∧
      Same s (setMagic (detachFree (charge s n) x) x magicUsed) ∧
      ∀ z, InUse (setMagic (detachFree (charge s n) x) x magicUsed) l z ↔ InUse s l z ∨ z = x := by
  have hxl := ((h.free x).mp hx).1
  have hle := h.available_le hr
  have hframe := detachFree_frame (charge s n) x
  obtain ⟨fl', hlists, hperm⟩ := (h.lists.account n (charge s n).maxUsedSize).detach hx
  have hlists' : Lists c (setMagic (detachFree (charge s n) x) x magicUsed) l fl' [] :=
    hlists.setUsed hxl
  have hsame := (charge_same s n).trans ((detachFree_same (charge s n) x).trans
    (setMagic_same (detachFree (charge s n) x) x magicUsed))
  have hused : ∀ z, isUsed (setMagic (detachFree (charge s n) x) x magicUsed) z =
      if z = x then true else isUsed s z := by
    intro z
    rw [setMagic_isUsed, hframe.isUsed]
    rfl
  have hnext : (setMagic (detachFree (charge s n) x) x magicUsed).next = s.next := hframe.next
  have havail : (setMagic (detachFree (charge s n) x) x magicUsed).availableSize = n :=
    hframe.availableSize
  have hmax : (setMagic (detachFree (charge s n) x) x magicUsed).maxUsedSize =
      (charge s n).maxUsedSize := hframe.maxUsedSize
  generalize setMagic (detachFree (charge s n) x) x magicUsed = s' at *
  refine ⟨fl', ⟨hlists', ?_, ?_, ?_⟩, hsame, ?_⟩
  · intro z hz
    rw [hnext, hused, hused]
    obtain hu | hu := h.apart z hz
    · rw [hu, ite_self]
      exact .inl rfl
    · rw [hu, ite_self]
      exact .inr rfl
  · have hrem := h.available_remove hperm
    rw [havail, sum_itemSize_congr (s := s) fun z _ => congrFun hnext z]
    omega
  · rw [hsame.poolSize, havail, hmax]
    exact charge_peak (by omega) hr.pool_lt
  · intro z
    rw [InUse, InUse, hused]
    by_cases hzx : z = x
    · simp [hzx, hxl]
    · simp [hzx]

/-- The first part of the item is handed out. -/
theorem takeItem_split (hr : Region c s) (h : Heap c s l fl) (hx : x ∈ fl)
    (hxy : x + c.memheapSize ≤ y) (hyn : y + c.memheapSize ≤ s.next x)
    (hn : n + (y - x) = s.availableSize)
    (hs' : s' = setMagic (charge (insertFree (detachFree (newItem s x y) x) y) n) x magicUsed) :
    ∃ l' fl', Heap c s' l' fl' ∧ Same s s' ∧ ∀ z, InUse s' l' z ↔ InUse s l z ∨ z = x := by
  have hsize := memheapSize_ge c
  obtain ⟨hxl, hxf⟩ := (h.free x).mp hx
  have hle := h.available_le hr
  have hyl := h.items.not_mem_inside hxl (y := y) (by omega) (by omega)
  obtain ⟨l', h₁, hmem⟩ := h.lists.newItem hxl hxy hyn
  obtain ⟨fl₂, h₂, hperm₂⟩ := h₁.detach hx
  have hsame₂ := (newItem_same s x y).trans (detachFree_same (newItem s x y) x)
  have hframe₂ := detachFree_frame (newItem s x y) x
  have hyf : isUsed (detachFree (newItem s x y) x) y = false := by
    rw [hframe₂.isUsed, newItem_isUsed, if_pos rfl]
  obtain ⟨fl₃, h₃, hperm₃⟩ := (h₂.congr_out
    (show ∀ z, _ ↔ z ∈ [y, x] by simp [or_comm])).insert
    (hsame₂.region hr) ((hmem y).mpr (.inr rfl)) hyf (by simp; omega)
  have hframe₃ := hframe₂.trans (insertFree_frame (detachFree (newItem s x y) x) y)
  have hsame₃ := hsame₂.trans (insertFree_same (detachFree (newItem s x y) x) y)
  have hmax := charge_peak (s := insertFree (detachFree (newItem s x y) x) y) (n := n)
    (by rw [hsame₃.poolSize]; omega) (by rw [hsame₃.poolSize]; exact hr.pool_lt)
  generalize insertFree (detachFree (newItem s x y) x) y = s₃ at *
  have hlists : Lists c s' l' fl₃ [] := hs' ▸ (h₃.account n (charge s₃ n).maxUsedSize).setUsed
    ((hmem x).mpr (.inl hxl))
  have hsame : Same s s' := hs' ▸ hsame₃.trans ((charge_same s₃ n).trans (setMagic_same _ _ _))
  have hused : ∀ z, isUsed s' z = if z = x then true else if z = y then false else isUsed s z := by
    intro z
    rw [hs', setMagic_isUsed, ← newItem_isUsed s x y, ← hframe₃.isUsed]
    rfl
  have hnext : ∀ z, s'.next z = if z = x then y else if z = y then s.next x else s.next z := by
    intro z
    rw [hs', ← newItem_next, ← hframe₃.next]
    rfl
  have hnx := (h.apart x hxl).resolve_left (by simp [hxf])
  have hmono : ∀ w, w ≠ y → isUsed s w = true → isUsed s' w = true := by
    intro w hwy hu
    rw [hused, if_neg hwy, hu, ite_self]
  refine ⟨l', fl₃, ⟨hlists, ?_, ?_, ?_⟩, hsame, ?_⟩
  · intro z hz
    by_cases hzx : z = x
    · exact .inl (by rw [hused, if_pos hzx])
    · by_cases hzy : z = y
      · right
        rw [hnext, if_neg hzx, if_pos hzy]
        exact hmono _ (by omega) hnx
      · have hzl := ((hmem z).mp hz).resolve_right hzy
        have hny : s.next z ≠ y := h.items.next_ne_inside hxl hzl (by omega) (by omega)
        rw [hnext, if_neg hzx, if_neg hzy]
        exact (h.apart z hzl).imp (hmono z hzy) (hmono _ hny)
  · have hrem := h.available_remove hperm₂
    have hout : ∀ z ∈ fl₂, s'.next z = s.next z := by
      intro z hz
      obtain ⟨hzl, hzx⟩ := (mem_of_perm_cons hperm₂ h.lists.nodup z).mp hz
      have hzy : z ≠ y := fun heq => hyl (heq ▸ ((h.free z).mp hzl).1)
      rw [hnext, if_neg hzx, if_neg hzy]
    rw [(hperm₃.map (itemSize c s')).sum_eq, List.map_cons, List.sum_cons,
      sum_itemSize_congr hout, itemSize, hnext, if_neg (by omega), if_pos rfl, hs']
    rw [itemSize] at hrem
    change n = _
    omega
  · subst hs'
    rw [hsame₃.poolSize] at hmax
    rw [hsame.poolSize]
    exact hmax
  · intro z
    rw [InUse, InUse, hused, hmem]
    by_cases hzx : z = x
    · simp [hzx, hxl]
    · by_cases hzy : z = y
      · subst hzy
        simp [hyl, hzx]
      · simp [hzx, hzy]

/-- `takeItem` without a wrap. -/
theorem takeItem_eq (hr : Region c s) (h : Heap c s l fl) (hx : x ∈ fl)
    (hle : size ≤ itemSize c s x) :
    takeItem c s x (itemSize c s x) size =
      if size + c.memheapSize + minialloc ≤ itemSize c s x then
        setMagic (charge (insertFree (detachFree (newItem s x (x + size + c.memheapSize)) x)
          (x + size + c.memheapSize)) (s.availableSize - size - c.memheapSize)) x magicUsed
      else setMagic (detachFree (charge s (s.availableSize - itemSize c s x)) x) x magicUsed := by
  have htop := hr.le
  have hsize := memheapSize_ge c
  have hb := h.items.bounds ((h.free x).mp hx).1
  have hsum := h.available_le hr
  have hrem := h.available_remove (List.perm_cons_erase hx)
  have hitem : itemSize c s x = s.next x - x - c.memheapSize := rfl
  have hmin : minialloc = 12 := rfl
  have hadd : add (add size c.memheapSize) minialloc = size + c.memheapSize + minialloc := by
    rw [add, add, wadd_eq (a := size) (by omega), wadd_eq (by omega)]
  rw [tailItem] at hb
  rw [takeItem, hadd]
  by_cases hsplit : size + c.memheapSize + minialloc ≤ itemSize c s x
  · have hnew : add (add x size) c.memheapSize = x + size + c.memheapSize := by
      rw [add, add, wadd_eq (a := x) (by omega), wadd_eq (by omega)]
    have hcharge : sub (sub s.availableSize size) c.memheapSize =
        s.availableSize - size - c.memheapSize := by
      rw [sub, sub, wsub_eq (a := s.availableSize) (by omega) (by omega),
        wsub_eq (by omega) (by omega)]
    have hframe := (detachFree_frame (newItem s x (x + size + c.memheapSize)) x).trans
      (insertFree_frame _ (x + size + c.memheapSize))
    rw [if_pos hsplit, if_pos hsplit, hnew]
    dsimp only
    rw [hframe.availableSize, (newItem_frame s x _).availableSize, hcharge]
  · have hcharge : sub s.availableSize (itemSize c s x) = s.availableSize - itemSize c s x :=
      wsub_eq (by omega) (by omega)
    rw [if_neg hsplit, if_neg hsplit, hcharge]

theorem takeItem_spec (hr : Region c s) (h : Heap c s l fl) (hx : x ∈ fl)
    (hle : size ≤ itemSize c s x) :
    ∃ l' fl', Heap c (takeItem c s x (itemSize c s x) size) l' fl' ∧
      Same s (takeItem c s x (itemSize c s x) size) ∧
      ∀ z, InUse (takeItem c s x (itemSize c s x) size) l' z ↔ InUse s l z ∨ z = x := by
  have hsize := memheapSize_ge c
  have hrem := h.available_remove (List.perm_cons_erase hx)
  have hitem : itemSize c s x = s.next x - x - c.memheapSize := rfl
  rw [takeItem_eq hr h hx hle]
  by_cases hsplit : size + c.memheapSize + minialloc ≤ itemSize c s x
  · rw [if_pos hsplit]
    exact takeItem_split hr h hx (y := x + size + c.memheapSize)
      (n := s.availableSize - size - c.memheapSize) (by omega) (by omega) (by omega) rfl
  · rw [if_neg hsplit]
    obtain ⟨fl', hheap, hsame, huse⟩ := takeItem_whole hr h hx
      (n := s.availableSize - itemSize c s x) (by omega)
    exact ⟨l, fl', hheap, hsame, huse⟩

/-- What `rt_memheap_alloc` does to the items in use. -/
def Allocated (c : Config) (s : State) (l : List Nat) (s' : State) (l' : List Nat) :
    Option Nat → Prop
  | none => s' = s ∧ l' = l
  | some p => ∃ x, p = x + c.memheapSize ∧ ¬ InUse s l x ∧
      ∀ z, InUse s' l' z ↔ InUse s l z ∨ z = x

theorem request_ge (c : Config) (size : Nat) : minialloc ≤ request c size := by
  rw [request]
  split <;> omega

/-- The address of the data behind a header of the region. -/
theorem Items.data_eq (hr : Region c s) (h : Items c s l) (hx : x ∈ l) :
    add x c.memheapSize = x + c.memheapSize ∧
      sub (x + c.memheapSize) c.memheapSize = x := by
  have hb := h.bounds hx
  have htop := hr.le
  have hsize := memheapSize_ge c
  rw [tailItem] at hb
  constructor
  · exact wadd_eq (by omega)
  · rw [sub, wsub_eq (by omega) (by omega)]
    omega

/-- `rt_memheap_alloc` refuses a request that is not below the available size, or larger than
every free item; else it takes the item that it finds, which is large enough. -/
theorem rtMemheapAlloc_finds (hr : Region c s) (h : Heap c s l fl) (size : Nat) :
    rtMemheapAlloc c s size = some (s, none) ∧
        (s.availableSize ≤ request c size ∨ ∀ y ∈ fl, itemSize c s y < request c size) ∨
      request c size < s.availableSize ∧ ∃ x ∈ fl, request c size ≤ itemSize c s x ∧
        searchFree c s (request c size) (2 ^ 33) (s.nextFree s.freeList) 0 =
          some (x, itemSize c s x) ∧
        rtMemheapAlloc c s size = some (takeItem c s x (itemSize c s x) (request c size),
          some (x + c.memheapSize)) := by
  have hpos : 0 < request c size := lt_of_lt_of_le (by decide) (request_ge c size)
  rw [rtMemheapAlloc]
  dsimp only
  generalize request c size = size at *
  by_cases hlt : size < s.availableSize
  · rw [if_pos hlt]
    obtain ⟨x, fs, hsearch, hfound, hmiss⟩ := searchFree_start hr h hpos
    rw [hsearch, Option.map_some]
    by_cases hle : size ≤ fs
    · obtain ⟨hx, rfl⟩ := hfound hle
      rw [if_pos hle, (h.items.data_eq hr ((h.free x).mp hx).1).1]
      exact .inr ⟨hlt, x, hx, hle, rfl, rfl⟩
    · rw [if_neg hle]
      exact .inl ⟨rfl, .inr (hmiss (by omega))⟩
  · rw [if_neg hlt]
    exact .inl ⟨rfl, .inl (by omega)⟩

theorem rtMemheapAlloc_spec (hr : Region c s) (h : Heap c s l fl) (size : Nat) :
    ∃ s' r l' fl', rtMemheapAlloc c s size = some (s', r) ∧ Heap c s' l' fl' ∧ Same s s' ∧
      Allocated c s l s' l' r := by
  obtain ⟨halloc, -⟩ | ⟨-, x, hx, hle, -, halloc⟩ := rtMemheapAlloc_finds hr h size
  · exact ⟨s, none, l, fl, halloc, h, .refl s, rfl, rfl⟩
  · have hxf := ((h.free x).mp hx).2
    obtain ⟨l', fl', hheap, hsame, huse⟩ := takeItem_spec hr h hx hle
    refine ⟨_, _, l', fl', halloc, hheap, hsame, x, rfl, ?_, huse⟩
    rintro ⟨_, hu⟩
    rw [hxf] at hu
    simp at hu

/-! ## `rt_memheap_free` -/

/-- In the middle of `rt_memheap_free`: the item `x` is free, and may have free neighbours.
It may still be outside the free list. -/
structure Freeing (c : Config) (s : State) (l fl out : List Nat) (x : Nat) : Prop where
  lists : Lists c s l fl out
  out_eq : out = [] ∨ out = [x]
  mem : x ∈ l
  free : isUsed s x = false
  apart : ∀ z ∈ l, z = x ∨ s.next z = x ∨ isUsed s z = true ∨ isUsed s (s.next z) = true
  available : s.availableSize = ((out ++ fl).map (itemSize c s)).sum

theorem Freeing.mem_free (h : Freeing c s l fl out x) (z : Nat) :
    z ∈ out ++ fl ↔ z ∈ l ∧ isUsed s z = false := by
  have hmem := h.mem
  have hfree := h.free
  rw [List.mem_append, h.lists.free]
  obtain rfl | rfl := h.out_eq
  · simp
  · by_cases hzx : z = x
    · simp [hzx, hmem, hfree]
    · simp [hzx]

theorem Freeing.nodup (h : Freeing c s l fl out x) : (out ++ fl).Nodup := by
  have hnd := h.lists.nodup
  have hfree := h.lists.free x
  obtain rfl | rfl := h.out_eq
  · exact hnd
  · refine List.nodup_cons.mpr ⟨?_, hnd⟩
    intro hx
    simpa using hfree.mp hx

/-- Joining the item `y` with the item `x` before it adds one header to the free bytes. -/
theorem sum_merge {m' : List Nat} (hperm : m.Perm (y :: m')) (hnd : m.Nodup) (hx : x ∈ m')
    (hxy : s.next x = y) (hbx : x + c.memheapSize ≤ y) (hby : y + c.memheapSize ≤ s.next y)
    (hnx : s'.next x = s.next y) (hno : ∀ z, z ≠ x → s'.next z = s.next z) :
    (m'.map (itemSize c s')).sum = (m.map (itemSize c s)).sum + c.memheapSize := by
  have hperm' := List.perm_cons_erase hx
  have hnd' : (x :: m'.erase x).Nodup := hperm'.nodup_iff.mp (hperm.nodup_iff.mp hnd).of_cons
  have hrest : ((m'.erase x).map (itemSize c s')).sum = ((m'.erase x).map (itemSize c s)).sum := by
    refine sum_itemSize_congr fun z hz => hno z ?_
    rintro rfl
    exact (List.nodup_cons.mp hnd').1 hz
  rw [(hperm.map (itemSize c s)).sum_eq, List.map_cons, List.sum_cons,
    (hperm'.map (itemSize c s)).sum_eq, (hperm'.map (itemSize c s')).sum_eq]
  simp only [List.map_cons, List.sum_cons, hrest, itemSize, hnx, hxy]
  omega

/-- The free bytes leave room for a header. -/
theorem Freeing.available_lt (hr : Region c s) (h : Freeing c s l fl out x) :
    s.availableSize + c.memheapSize < 2 ^ 32 := by
  have hsum := h.lists.items.sum_le hr h.nodup fun z hz => ((h.mem_free z).mp hz).1
  have hlt := hr.pool_lt
  have hlen : 1 * c.memheapSize ≤ (out ++ fl).length * c.memheapSize :=
    Nat.mul_le_mul_right _ (List.length_pos_of_mem ((h.mem_free x).mpr ⟨h.mem, h.free⟩))
  rw [h.available]
  omega

/-- One of the two merges, or none: the free item is `x` now. -/
structure Merged (c : Config) (s : State) (l : List Nat) (s' : State) (l' fl' out' : List Nat)
    (x : Nat) : Prop where
  freeing : Freeing c s' l' fl' out' x
  same : Same s s'
  available : s.availableSize ≤ s'.availableSize
  peak : s'.maxUsedSize = s.maxUsedSize
  inUse : ∀ z, InUse s' l' z ↔ InUse s l z
  sub : ∀ z ∈ l', z ∈ l
  next : ∀ z, InUse s l z → s'.next z = s.next z
  tiled : ∀ gap good, Tiled c gap good s → Tiled c gap good s'
  writes : Writes s s' (Known c s l)

theorem Freeing.unmerged (h : Freeing c s l fl out x) : Merged c s l s l fl out x :=
  ⟨h, .refl s, Nat.le_refl _, rfl, fun _ => Iff.rfl, fun _ hz => hz, fun _ _ => rfl,
    fun _ _ hm => hm, .refl s⟩

theorem mergeNext_isUsed (s : State) (x y z : Nat) : isUsed (mergeNext s x y) z = isUsed s z :=
  isUsed_congr rfl

/-- A used item stays in use when a free item leaves the block list. -/
theorem inUse_of_merge {l' : List Nat} (hf : isUsed s y = false)
    (hmem : ∀ z, z ∈ l' ↔ z ∈ l ∧ z ≠ y) (hused : ∀ z, isUsed s' z = isUsed s z) (z : Nat) :
    InUse s' l' z ↔ InUse s l z := by
  rw [InUse, InUse, hmem, hused]
  by_cases hzy : z = y
  · simp [hzy, hf]
  · simp [hzy]

theorem Freeing.joinLeft {p : Nat} (hr : Region c s) (h : Freeing c s l fl [x] x) (hp : p ∈ l)
    (hpx : s.next p = x) (hpf : isUsed s p = false)
    (hs' : s' = mergeNext { s with availableSize := add s.availableSize c.memheapSize } p x) :
    ∃ l', Merged c s l s' l' fl [] p ∧ ∀ z ∈ l', s'.next z ≠ p ∨ isUsed s' z = true := by
  have hsize := memheapSize_ge c
  have hbp := h.lists.items.bounds hp
  have hbx := h.lists.items.bounds h.mem
  have hne : p ≠ x := by omega
  obtain ⟨l', hlists, hmem⟩ := (h.lists.account (add s.availableSize c.memheapSize)
    s.maxUsedSize).join hp hpx h.free
  have hsame : Same s s' := hs' ▸ (account_same s _ s.maxUsedSize).trans (mergeNext_same _ p x)
  have hused : ∀ z, isUsed s' z = isUsed s z := fun z => hs' ▸ mergeNext_isUsed _ p x z
  have hnext : ∀ z, s'.next z = if z = p then s.next x else s.next z :=
    fun z => hs' ▸ mergeNext_next _ p x z
  have havail : s'.availableSize = s.availableSize + c.memheapSize := by
    rw [hs', (mergeNext_frame _ p x).availableSize]
    exact wadd_eq (h.available_lt hr)
  have hinj : ∀ z ∈ l, s.next z = x → z = p := fun z hz hzx =>
    h.lists.items.linked.path.next_injective (by omega) hz hp (hzx.trans hpx.symm)
  have hpfl : p ∈ fl := by
    have := (h.mem_free p).mpr ⟨hp, hpf⟩
    simpa [hne] using this
  refine ⟨l', ⟨⟨hs' ▸ hlists, .inl rfl, (hmem p).mpr ⟨hp, hne⟩, by rw [hused, hpf], ?_, ?_⟩,
    hsame, by omega, by rw [hs', (mergeNext_frame _ p x).maxUsedSize],
    inUse_of_merge h.free hmem hused, fun z hz => ((hmem z).mp hz).1, ?_, ?_, ?_⟩, ?_⟩
  · intro z hz
    obtain ⟨hzl, hzx⟩ := (hmem z).mp hz
    by_cases hzp : z = p
    · exact .inl hzp
    · rw [hnext, if_neg hzp, hused, hused]
      obtain heq | heq | hu := h.apart z hzl
      · exact absurd heq hzx
      · exact absurd (hinj z hzl heq) hzp
      · exact .inr (.inr hu)
  · rw [havail, h.available]
    refine (sum_merge (List.Perm.refl _) h.nodup hpfl hpx (by omega) hbx.2.1 ?_ ?_).symm
    · rw [hnext, if_pos rfl]
    · intro z hz
      rw [hnext, if_neg hz]
  · rintro z ⟨-, hu⟩
    rw [hnext, if_neg (by rintro rfl; simp [hpf] at hu)]
  · intro gap good hm
    exact hm.mergeNext h.lists.items hp hpx (by omega) hsame (hs' ▸ rfl)
  · subst hs'
    exact (account_writes s _ s.maxUsedSize).trans
      (mergeNext_writes _ (.inl hp) (h.lists.items.known_next h.mem))
  · intro z hz
    obtain ⟨hzl, hzx⟩ := (hmem z).mp hz
    rw [hnext, hused]
    by_cases hzp : z = p
    · exact .inl (by rw [if_pos hzp]; omega)
    · rw [if_neg hzp]
      by_cases hnz : s.next z = p
      · obtain heq | heq | hu | hu := h.apart z hzl
        · exact absurd heq hzx
        · exact absurd (hinj z hzl heq) hzp
        · exact .inr hu
        · rw [hnz, hpf] at hu
          simp at hu
      · exact .inl hnz

/-- The item before an item, and the tail item before the first one. -/
theorem Items.prev_cases (h : Items c s l) (hx : x ∈ l) :
    isUsed s (s.prev x) = true ∧ (∀ z ∈ l, s.next z = x → isUsed s z = true) ∨
      isUsed s (s.prev x) = false ∧ s.prev x ∈ l ∧ s.next (s.prev x) = x := by
  obtain rfl | ⟨p, hp, rfl⟩ := h.linked.path.exists_pred hx
  · left
    rw [h.first]
    refine ⟨isUsed_of_used h.magicTail, ?_⟩
    intro z hz heq
    have := h.bounds hz
    have := memheapSize_ge c
    omega
  · rw [h.linked.back p hp]
    cases hu : isUsed s p with
    | true =>
      refine .inl ⟨rfl, ?_⟩
      intro z hz heq
      have hpos := memheapSize_ge c
      rw [h.linked.path.next_injective (by omega) hz hp heq, hu]
    | false => exact .inr ⟨rfl, hp, rfl⟩

theorem mergeLeft_spec (hr : Region c s) (h : Freeing c s l fl [x] x) :
    ∃ s' y l' out, mergeLeft c s x = (s', y, decide (out = [y])) ∧
      Merged c s l s' l' fl out y ∧ ∀ z ∈ l', s'.next z ≠ y ∨ isUsed s' z = true := by
  rw [mergeLeft]
  obtain ⟨hu, hleft⟩ | ⟨hu, hp, hpx⟩ := h.lists.items.prev_cases h.mem
  · rw [if_pos hu]
    refine ⟨s, x, l, [x], by simp, h.unmerged, ?_⟩
    intro z hz
    by_cases heq : s.next z = x
    · exact .inr (hleft z hz heq)
    · exact .inl heq
  · have hsize := memheapSize_ge c
    have hbp := h.lists.items.bounds hp
    have hbx := h.lists.items.bounds h.mem
    have hne : x ≠ s.prev x := by omega
    have hne' : x ≠ s.next x := by omega
    obtain ⟨l', hmerged, hleft⟩ := h.joinLeft hr hp hpx hu rfl
    refine ⟨_, s.prev x, l', [], ?_, hmerged, hleft⟩
    rw [if_neg (by simp [hu])]
    simp [setNext, setPrev, mergeNext, hne, hne']

theorem Freeing.joinRight (hr : Region c s) (h : Freeing c s l fl out x) (hxy : s.next x = y)
    (hyf : isUsed s y = false) (hs' : s' = removeFree (mergeNext
      { s with availableSize := add s.availableSize c.memheapSize } x y) y) :
    ∃ l' fl', Merged c s l s' l' fl' out x ∧ isUsed s' (s'.next x) = true ∧
      ∀ z, (z ∈ l' → z ∈ l) ∧ (z ≠ x → s'.next z = s.next z) ∧ isUsed s' z = isUsed s z := by
  have hsize := memheapSize_ge c
  obtain ⟨hyl, hyt⟩ := h.lists.items.next_free h.mem (by rwa [hxy])
  rw [hxy] at hyl hyt
  have hbx := h.lists.items.bounds h.mem
  have hby := h.lists.items.bounds hyl
  have hne : y ≠ x := by omega
  have hout : y ∉ out := by
    obtain rfl | rfl := h.out_eq
    · simp
    · simpa using hne
  obtain ⟨l', fl', hlists, hperm, hmem⟩ := (h.lists.account
    (add s.availableSize c.memheapSize) s.maxUsedSize).absorb h.mem hxy hyf hout
  have hframe := removeFree_frame (mergeNext
    { s with availableSize := add s.availableSize c.memheapSize } x y) y
  have hsame : Same s s' := hs' ▸ (account_same s _ s.maxUsedSize).trans
    ((mergeNext_same _ x y).trans (removeFree_same _ y))
  have hused : ∀ z, isUsed s' z = isUsed s z := by
    intro z
    rw [hs', hframe.isUsed, mergeNext_isUsed]
    rfl
  have hnext : ∀ z, s'.next z = if z = x then s.next y else s.next z := by
    intro z
    rw [hs', hframe.next, mergeNext_next]
  have havail : s'.availableSize = s.availableSize + c.memheapSize := by
    rw [hs', hframe.availableSize, (mergeNext_frame _ x y).availableSize]
    exact wadd_eq (h.available_lt hr)
  have hperm' : (out ++ fl).Perm (y :: (out ++ fl')) :=
    (hperm.append_left out).trans List.perm_middle
  have hxm : x ∈ out ++ fl' := by
    have := hperm'.mem_iff.mp ((h.mem_free x).mpr ⟨h.mem, h.free⟩)
    simpa [hne.symm] using this
  refine ⟨l', fl', ⟨⟨hs' ▸ hlists, h.out_eq, (hmem x).mpr ⟨h.mem, hne.symm⟩,
    by rw [hused, h.free], ?_, ?_⟩, hsame, by omega, ?_, inUse_of_merge hyf hmem hused,
    fun z hz => ((hmem z).mp hz).1, ?_, ?_, ?_⟩, ?_, ?_⟩
  · intro z hz
    obtain ⟨hzl, hzy⟩ := (hmem z).mp hz
    by_cases hzx : z = x
    · exact .inl hzx
    · rw [hnext, if_neg hzx, hused, hused]
      exact h.apart z hzl
  · rw [havail, h.available]
    refine (sum_merge hperm' h.nodup hxm hxy (by omega) hby.2.1 ?_ ?_).symm
    · rw [hnext, if_pos rfl]
    · intro z hz
      rw [hnext, if_neg hz]
  · rw [hs', hframe.maxUsedSize, (mergeNext_frame _ x y).maxUsedSize]
  · rintro z ⟨-, hu⟩
    have hxf := h.free
    rw [hnext, if_neg (by rintro rfl; simp [hxf] at hu)]
  · intro gap good hm
    refine hm.mergeNext h.lists.items h.mem hxy (by omega) hsame ?_
    rw [hs', hframe.next]
    rfl
  · have hyfl := List.mem_cons_of_mem s.freeList ((h.lists.free y).mpr ⟨hyl, hyf, hout⟩)
    subst hs'
    refine (account_writes s _ s.maxUsedSize).trans <|
      (mergeNext_writes _ (.inl h.mem) ?_).trans (removeFree_writes _ ?_ ?_)
    · exact h.lists.items.known_next hyl
    · exact h.lists.known_nextFree hyfl
    · exact h.lists.known_prevFree hyfl
  · rw [hnext, if_pos rfl, hused]
    obtain heq | heq | hu | hu := h.apart y hyl
    · exact absurd heq hne
    · omega
    · rw [hyf] at hu
      simp at hu
    · exact hu
  · intro z
    refine ⟨fun hz => ((hmem z).mp hz).1, ?_, hused z⟩
    intro hz
    rw [hnext, if_neg hz]

theorem mergeRight_spec (hr : Region c s) (h : Freeing c s l fl out x)
    (hleft : ∀ z ∈ l, s.next z ≠ x ∨ isUsed s z = true) :
    ∃ l' fl', Merged c s l (mergeRight c s x) l' fl' out x ∧
      ∀ z ∈ l', isUsed (mergeRight c s x) z = true ∨
        isUsed (mergeRight c s x) ((mergeRight c s x).next z) = true := by
  rw [mergeRight]
  by_cases hu : isUsed s (s.next x) = true
  · rw [if_pos hu]
    refine ⟨l, fl, h.unmerged, ?_⟩
    intro z hz
    obtain rfl | heq | hor := h.apart z hz
    · exact .inr hu
    · exact .inl ((hleft z hz).resolve_left (by simpa using heq))
    · exact hor
  · rw [if_neg hu]
    obtain ⟨l', fl', hmerged, hright, hfields⟩ := h.joinRight hr rfl (by simpa using hu) rfl
    dsimp only at hmerged hright hfields ⊢
    generalize removeFree _ _ = s' at *
    refine ⟨l', fl', hmerged, ?_⟩
    intro z hz
    obtain rfl | heq | hor := hmerged.freeing.apart z hz
    · exact .inr hright
    · left
      obtain ⟨hzl, hnext, hused⟩ := hfields z
      by_cases hzx : z = x
      · have hb := hmerged.freeing.lists.items.bounds hz
        have hsize := memheapSize_ge c
        omega
      · rw [hnext hzx] at heq
        rw [hused]
        exact (hleft z (hzl hz)).resolve_left (by simpa using heq)
    · exact hor

/-- The loop over the free list ends, at a member of the list or at its head. -/
theorem insertPosition_spec (fuel : Nat) (hs : Ring.Seq s.nextFree n s.freeList m)
    (hf : m.length + 1 < fuel) :
    ∃ k, insertPosition c s size fuel n = some k ∧ k ∈ s.freeList :: n :: m := by
  induction m generalizing fuel n with
  | nil =>
    obtain ⟨fuel, rfl⟩ : ∃ k, fuel = k + 2 := ⟨fuel - 2, by simp at hf; omega⟩
    rw [insertPosition]
    split
    · rw [show s.nextFree n = s.freeList from hs]
      exact ⟨s.freeList, by simp [insertPosition], by simp⟩
    · exact ⟨n, rfl, by simp⟩
  | cons w m ih =>
    obtain ⟨fuel, rfl⟩ : ∃ k, fuel = k + 1 := ⟨fuel - 1, by simp at hf; omega⟩
    rw [insertPosition]
    split
    · rw [hs.1]
      obtain ⟨k, hk, hmem⟩ := ih fuel hs.2 (by simp at hf; omega)
      refine ⟨k, hk, ?_⟩
      rw [List.mem_cons] at hmem ⊢
      exact hmem.imp_right (List.mem_cons_of_mem n)
    · exact ⟨n, rfl, by simp⟩

theorem insertPosition_start (hr : Region c s) (h : Lists c s l fl out) (size : Nat) :
    ∃ k, insertPosition c s size (2 ^ 33) (s.nextFree s.freeList) = some k ∧
      k ∈ s.freeList :: fl := by
  have hlen := h.length_lt hr
  have hseq := h.ring.seq
  cases fl with
  | nil =>
    rw [show s.nextFree s.freeList = s.freeList from hseq]
    refine ⟨s.freeList, ?_, by simp⟩
    rw [show (2 : Nat) ^ 33 = (2 ^ 33 - 1) + 1 by decide, insertPosition]
    simp
  | cons w m =>
    rw [hseq.1]
    exact insertPosition_spec (2 ^ 33) hseq.2 (by simp only [List.length_cons] at hlen; omega)

/-- The magic word of the item behind an item passes the check. -/
theorem Items.magic_next (h : Items c s l) (hx : x ∈ l) :
    s.magic (s.next x) &&& 0xfffffffe = 0x1ea01ea0 := by
  obtain he | hm := h.linked.path.next_mem hx
  · rw [he, h.magicTail]
    decide
  · obtain he | he := h.magic _ hm
    · rw [he]
      decide
    · rw [he]
      decide

/-- The item is marked as free and its bytes are counted. -/
theorem Heap.startFree (hr : Region c s) (h : Heap c s l fl) (hx : InUse s l x)
    (hn : n = add s.availableSize (memitemSize c s x))
    (hs' : s' = { setMagic s x magicFreed with availableSize := n }) :
    Freeing c s' l fl [x] x ∧ Same s s' ∧ s.availableSize ≤ s'.availableSize ∧
      s'.maxUsedSize = s.maxUsedSize ∧ s'.next = s.next ∧
      ∀ z, InUse s' l z ↔ InUse s l z ∧ z ≠ x := by
  obtain ⟨hxl, hxu⟩ := hx
  have hxfl : x ∉ fl := by
    intro hmem
    rw [((h.free x).mp hmem).2] at hxu
    simp at hxu
  have hused : ∀ z, isUsed s' z = if z = x then false else isUsed s z :=
    fun z => hs' ▸ setMagic_isFreed s x z
  have hnext : s'.next = s.next := hs' ▸ rfl
  have hsum := h.items.sum_le hr (m := x :: fl) (List.nodup_cons.mpr ⟨hxfl, h.lists.nodup⟩) (by
    intro z hz
    obtain rfl | hz := List.mem_cons.mp hz
    · exact hxl
    · exact ((h.free z).mp hz).1)
  have hlt := hr.pool_lt
  rw [List.map_cons, List.sum_cons, ← h.available] at hsum
  have havail : s'.availableSize = s.availableSize + itemSize c s x := by
    rw [memitemSize_eq hr h.items hxl] at hn
    rw [hs', hn]
    exact wadd_eq (by omega)
  have hlists : Lists c s' l fl [x] :=
    hs' ▸ (h.lists.setFreed hxl hxu).account _ (setMagic s x magicFreed).maxUsedSize
  refine ⟨⟨hlists, .inr rfl, hxl, by rw [hused, if_pos rfl], ?_, ?_⟩,
    hs' ▸ (setMagic_same s x magicFreed).trans (account_same _ _ s.maxUsedSize), by omega,
    hs' ▸ rfl, hnext, ?_⟩
  · intro z hz
    rw [hnext, hused, hused]
    by_cases hzx : z = x
    · exact .inl hzx
    · by_cases hnx : s.next z = x
      · exact .inr (.inl hnx)
      · rw [if_neg hzx, if_neg hnx]
        exact .inr (.inr (h.apart z hz))
  · rw [havail, List.singleton_append, List.map_cons, List.sum_cons,
      sum_itemSize_congr (s := s) fun z _ => congrFun hnext z, ← h.available, itemSize, itemSize,
      hnext]
    omega
  · intro z
    rw [InUse, InUse, hused]
    by_cases hzx : z = x <;> simp [hzx]

/-- What a call does to the bytes of the items: those in use but for `x` keep theirs, and items only
grow together. It writes to headers that were linked before. -/
structure Released (c : Config) (s : State) (l : List Nat) (s' : State) (x : Nat) : Prop where
  next : ∀ z, InUse s l z → z ≠ x → s'.next z = s.next z
  tiled : ∀ gap good, Tiled c gap good s → Tiled c gap good s'
  writes : Writes s s' (Known c s l)

theorem rtMemheapFree_spec (hr : Region c s) (h : Heap c s l fl) (hx : InUse s l x) :
    ∃ s' l' fl', rtMemheapFree c s (some (x + c.memheapSize)) = some s' ∧ Heap c s' l' fl' ∧
      Same s s' ∧ (∀ z, InUse s' l' z ↔ InUse s l z ∧ z ≠ x) ∧ Released c s l s' x := by
  have hheader := (h.items.data_eq hr hx.1).2
  have hguard : s.magic x = magicUsed ∧ s.magic (s.next x) &&& 0xfffffffe = 0x1ea01ea0 ∧
      s.poolPtr x = s.heap :=
    ⟨h.items.used hx.1 hx.2, h.items.magic_next hx.1, h.items.pool x hx.1⟩
  rw [rtMemheapFree]
  dsimp only
  rw [hheader, if_pos hguard]
  have hcount : add (setMagic s x magicFreed).availableSize
      (memitemSize c (setMagic s x magicFreed) x) = add s.availableSize (memitemSize c s x) := rfl
  have hwrites₀ : Writes s (setMagic s x magicFreed) (Known c s l) := setMagic_writes s (.inl hx.1)
  generalize add (setMagic s x magicFreed).availableSize
    (memitemSize c (setMagic s x magicFreed) x) = n at hcount ⊢
  obtain ⟨hfree₁, hsame₁, havail₁, hpeak₁, hnext₁, huse₁⟩ := h.startFree hr hx hcount rfl
  have hwrites₁ := hwrites₀.trans (account_writes (setMagic s x magicFreed) n s.maxUsedSize)
  change Writes s { setMagic s x magicFreed with availableSize := n } _ at hwrites₁
  generalize ({ setMagic s x magicFreed with availableSize := n } : State) = s₁ at *
  obtain ⟨s₂, y, l₂, out, hmerge, hmerged₂, hleft⟩ := mergeLeft_spec (hsame₁.region hr) hfree₁
  rw [hmerge]
  have hsame₂ := hsame₁.trans hmerged₂.same
  obtain ⟨l₃, fl₃, hmerged₃, hapart⟩ :=
    mergeRight_spec (hsame₂.region hr) hmerged₂.freeing hleft
  generalize mergeRight c s₂ y = s₃ at *
  have hsame₃ := hsame₂.trans hmerged₃.same
  have hfree₃ := hmerged₃.freeing
  have hsub : ∀ z ∈ l₃, z ∈ l := fun z hz => hmerged₂.sub z (hmerged₃.sub z hz)
  have hpeak : s₃.poolSize - s₃.availableSize ≤ s₃.maxUsedSize := by
    have h₀ := h.peak
    have h₂ := hmerged₂.available
    have h₃ := hmerged₃.available
    rw [hsame₃.poolSize, hmerged₃.peak, hmerged₂.peak, hpeak₁]
    omega
  have huse : ∀ z, InUse s₃ l₃ z ↔ InUse s l z ∧ z ≠ x := fun z =>
    (hmerged₃.inUse z).trans ((hmerged₂.inUse z).trans (huse₁ z))
  have hreleased : Released c s l s₃ x := by
    constructor
    · intro z hz hzx
      have hz₁ := (huse₁ z).mpr ⟨hz, hzx⟩
      rw [hmerged₃.next z ((hmerged₂.inUse z).mpr hz₁), hmerged₂.next z hz₁, hnext₁]
    · intro gap good hm
      exact hmerged₃.tiled gap good (hmerged₂.tiled gap good (hm.congr hsame₁ hnext₁))
    · exact hwrites₁.trans <|
        (hmerged₂.writes.mono fun off hoff => hoff.of_same hsame₁ fun _ hz => hz).trans
        (hmerged₃.writes.mono fun off hoff => hoff.of_same hsame₂ hmerged₂.sub)
  obtain rfl | rfl := hfree₃.out_eq
  · exact ⟨s₃, l₃, fl₃, rfl, ⟨hfree₃.lists, hapart, hfree₃.available, hpeak⟩, hsame₃, huse,
      hreleased⟩
  · rw [if_pos (by simp)]
    have hr₃ := hsame₃.region hr
    obtain ⟨k, hk, hkmem⟩ := insertPosition_start hr₃ hfree₃.lists (memitemSize c s₃ y)
    obtain ⟨fl', hlists, hperm⟩ := hfree₃.lists.insertBefore hr₃ hkmem hfree₃.mem hfree₃.free
      (by simp)
    have hframe := insertFreeBefore_frame s₃ k y
    rw [insertFreed, hk, Option.map_some]
    refine ⟨_, l₃, fl', rfl, ⟨hlists, ?_, ?_, ?_⟩,
      hsame₃.trans (insertFreeBefore_same s₃ k y), ?_, ?_, ?_, ?_⟩
    · intro z hz
      rw [hframe.next, hframe.isUsed, hframe.isUsed]
      exact hapart z hz
    · rw [hframe.availableSize, hfree₃.available, List.singleton_append,
        (hperm.map _).sum_eq, sum_itemSize_congr (s := s₃) fun z _ => congrFun hframe.next z]
    · rw [(insertFreeBefore_same s₃ k y).poolSize, hframe.availableSize, hframe.maxUsedSize]
      exact hpeak
    · intro z
      rw [InUse, hframe.isUsed]
      exact huse z
    · intro z hz hzx
      rw [hframe.next, hreleased.next z hz hzx]
    · intro gap good hm
      exact (hreleased.tiled gap good hm).congr (insertFreeBefore_same s₃ k y) hframe.next
    · have hwrites := insertFreeBefore_writes s₃ (x := y) (n := k) (.inl hfree₃.mem)
        (hfree₃.lists.known_free hkmem) (hfree₃.lists.known_prevFree hkmem)
      exact hreleased.writes.trans (hwrites.mono fun off hoff => hoff.of_same hsame₃ hsub)

end RtThread.Memheap
