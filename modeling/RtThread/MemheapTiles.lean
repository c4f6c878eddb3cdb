import RtThread.MemheapRuns

/-!
# The items that calls leave behind

A call builds at most one new item, behind the bytes that it hands out, and otherwise only puts
items together. Whatever holds of the sizes and the addresses of the items holds in all runs when
it holds of the items that are built.
-/
namespace RtThread.Memheap

variable {c : Config} {s s' : State} {l fl : List Nat} {gap : Nat} {good : Nat → Prop}

/-! ## `rt_memheap_alloc` -/

theorem setMagic_next (s : State) (x v : Nat) : (setMagic s x v).next = s.next := rfl

theorem charge_next (s : State) (n : Nat) : (charge s n).next = s.next := rfl

variable {w x newsize size : Nat} {r ptr : Option Nat}

theorem takeItem_next (hr : Region c s) (h : Heap c s l fl) (hx : x ∈ fl)
    (hle : size ≤ itemSize c s x) : (takeItem c s x (itemSize c s x) size).next =
      if size + c.memheapSize + minialloc ≤ itemSize c s x then
        (newItem s x (x + size + c.memheapSize)).next
      else s.next := by
  rw [takeItem_eq hr h hx hle]
  by_cases hsplit : size + c.memheapSize + minialloc ≤ itemSize c s x
  · rw [if_pos hsplit, if_pos hsplit, setMagic_next, charge_next, (insertFree_frame _ _).next,
      (detachFree_frame _ x).next]
  · rw [if_neg hsplit, if_neg hsplit, setMagic_next, (detachFree_frame _ x).next, charge_next]

theorem Tiled.takeItem (hr : Region c s) (h : Heap c s l fl) (hm : Tiled c gap good s)
    (hgap : gap ≤ minialloc) (hx : x ∈ fl) (hmin : gap ≤ size) (hle : size ≤ itemSize c s x)
    (hgood : size + c.memheapSize + minialloc ≤ itemSize c s x →
      good (x + size + c.memheapSize)) :
    Tiled c gap good (takeItem c s x (itemSize c s x) size) := by
  have hsize := memheapSize_ge c
  obtain ⟨-, -, -, hsame, -⟩ := takeItem_spec hr h hx hle
  have hnext := takeItem_next hr h hx hle
  have hitem : itemSize c s x = s.next x - x - c.memheapSize := rfl
  by_cases hsplit : size + c.memheapSize + minialloc ≤ itemSize c s x
  · rw [if_pos hsplit] at hnext
    exact hm.newItem h.items ((h.free x).mp hx).1 (by omega) (by omega) (hgood hsplit) hsame
      hnext
  · rw [if_neg hsplit] at hnext
    exact hm.congr hsame hnext

/-! ## `rt_memheap_realloc` -/

theorem growInPlace_next (hr : Region c s) (h : Heap c s l fl) {y : Nat} (hx : x ∈ l)
    (hxy : s.next x = y) (hyf : isUsed s y = false) (hold : itemSize c s x < newsize)
    (hw : w = x + c.memheapSize + newsize) (hwn : w + c.memheapSize ≤ s.next y) :
    (growInPlace s (x + c.memheapSize) x (itemSize c s x) newsize).next =
      (newItem (mergeNext s x y) x w).next := by
  rw [growInPlace_eq hr h hx hxy hyf hold hw hwn, (insertFree_frame _ w).next]
  funext z
  rfl

theorem Tiled.growInPlace (hr : Region c s) (h : Heap c s l fl) (hm : Tiled c gap good s)
    (hgap : gap ≤ minialloc) (hx : InUse s l x) (hf : isUsed s (s.next x) = false)
    (hmin : gap ≤ newsize) (hgood : good (x + c.memheapSize + newsize))
    (hold : itemSize c s x < newsize)
    (hroom : newsize + minialloc < itemSize c s (s.next x) + itemSize c s x) :
    Tiled c gap good (growInPlace s (x + c.memheapSize) x (itemSize c s x) newsize) := by
  have hsize := memheapSize_ge c
  obtain ⟨hyl, hyt⟩ := h.items.next_free hx.1 hf
  obtain ⟨hyx, hyn⟩ := itemSize_next h.items hx.1 rfl hyl
  obtain ⟨-, -, -, hsame, -⟩ := growInPlace_spec hr h hx rfl hf hold hroom
  have hnext := growInPlace_next hr h hx.1 rfl hf hold rfl
    (show x + c.memheapSize + newsize + c.memheapSize ≤ s.next (s.next x) by omega)
  obtain ⟨l₁, h₁, hmem⟩ := h.items.mergeNext hx.1 rfl hyt
  have hsame₁ := mergeNext_same s x (s.next x)
  have hm₁ : Tiled c gap good (Memheap.mergeNext s x (s.next x)) :=
    hm.mergeNext h.items hx.1 rfl hyt hsame₁ rfl
  have hnx : (Memheap.mergeNext s x (s.next x)).next x = s.next (s.next x) := by
    rw [mergeNext_next, if_pos rfl]
  exact hm₁.newItem h₁ ((hmem x).mpr ⟨hx.1, by omega⟩) (by omega) (by omega) hgood
    (hsame₁.of_same hsame) hnext

theorem mergeRest_next (s : State) (w : Nat) : (mergeRest c s w).next =
    if isUsed s (s.next w) then s.next else (mergeNext s w (s.next w)).next := by
  rw [mergeRest]
  split
  · rfl
  · rw [(removeFree_frame _ _).next]
    funext z
    rw [mergeNext_next, mergeNext_next]

theorem shrink_next (hr : Region c s) (h : Heap c s l fl) (hx : x ∈ l)
    (hw : w = x + newsize + c.memheapSize) (hwn : w ≤ s.next x) :
    (shrink c s x newsize).next = (mergeRest c (newItem s x w) w).next := by
  have htop := hr.le
  have hsize := memheapSize_ge c
  have hb := h.items.bounds hx
  rw [tailItem] at hb
  have hnew : add (add x newsize) c.memheapSize = w := by
    rw [add, add, wadd_eq (a := x) (by omega), wadd_eq (by omega), hw]
  rw [shrink, hnew]
  exact (insertFree_frame (mergeRest c (newItem s x w) w) w).next

theorem Tiled.shrink (hr : Region c s) (h : Heap c s l fl) (hm : Tiled c gap good s)
    (hgap : gap ≤ minialloc) (hx : InUse s l x) (hmin : gap ≤ newsize)
    (hgood : good (x + newsize + c.memheapSize))
    (hold : newsize + c.memheapSize + minialloc < itemSize c s x) :
    Tiled c gap good (shrink c s x newsize) := by
  have hitem : itemSize c s x = s.next x - x - c.memheapSize := rfl
  obtain ⟨-, -, -, hsame, -⟩ := shrink_spec hr h hx (show newsize + c.memheapSize ≤ _ by omega)
  have hnext := shrink_next hr h hx.1 rfl (show x + newsize + c.memheapSize ≤ s.next x by omega)
  rw [mergeRest_next] at hnext
  obtain ⟨l₁, h₁, hmem⟩ := h.items.newItem hx.1 (y := x + newsize + c.memheapSize) (by omega)
    (by omega)
  have hsame₁ := newItem_same s x (x + newsize + c.memheapSize)
  have hm₁ : Tiled c gap good (Memheap.newItem s x (x + newsize + c.memheapSize)) :=
    hm.newItem h.items hx.1 (by omega) (by omega) hgood hsame₁ rfl
  have hsame₂ := hsame₁.of_same hsame
  generalize x + newsize + c.memheapSize = w at *
  have hw : w ∈ l₁ := (hmem w).mpr (.inr rfl)
  by_cases hu : isUsed (Memheap.newItem s x w) ((Memheap.newItem s x w).next w) = true
  · rw [if_pos hu] at hnext
    exact hm₁.congr hsame₂ hnext
  · rw [if_neg hu] at hnext
    obtain ⟨-, hyt⟩ := h₁.next_free hw (by simpa using hu)
    exact hm₁.mergeNext h₁ hw rfl hyt hsame₂ hnext

/-! ## Calls -/

/-- What `rt_memheap_alloc` cuts off lies at a good address. -/
def AllocCuts (c : Config) (good : Nat → Prop) (s : State) (size : Nat) : Prop :=
  ∀ x freeSize, searchFree c s (request c size) (2 ^ 33) (s.nextFree s.freeList) 0 =
    some (x, freeSize) → request c size + c.memheapSize + minialloc ≤ freeSize →
    good (x + request c size + c.memheapSize)

/-- What the call cuts off lies at a good address. -/
def Cuts (c : Config) (good : Nat → Prop) (s : State) : Op → Prop
  | .alloc size => AllocCuts c good s size
  | .realloc ptr newsize => newsize ≠ 0 → AllocCuts c good s (request c newsize) ∧
      ∀ p ∈ ptr, (memitemSize c s (sub p c.memheapSize) < request c newsize ∨
          request c newsize + c.memheapSize + minialloc < memitemSize c s (sub p c.memheapSize)) →
        good (sub p c.memheapSize + request c newsize + c.memheapSize)
  | .free _ | .write _ _ => True

theorem Cuts.trivial (op : Op) : Cuts c (fun _ => True) s op := by
  cases op with
  | alloc size => exact fun _ _ _ _ => True.intro
  | realloc ptr newsize => exact fun _ => ⟨fun _ _ _ _ => True.intro, fun _ _ _ => True.intro⟩
  | free | write => exact True.intro

theorem Tiled.alloc (hr : Region c s) (h : Heap c s l fl) (hm : Tiled c gap good s)
    (hgap : gap ≤ minialloc) (hcuts : AllocCuts c good s size)
    (halloc : rtMemheapAlloc c s size = some (s', r)) : Tiled c gap good s' := by
  obtain ⟨hres, -⟩ | ⟨-, x, hx, hle, hsearch, hres⟩ := rtMemheapAlloc_finds hr h size
  · obtain ⟨rfl, -⟩ : s = s' ∧ none = r := by simpa [hres] using halloc
    exact hm
  · obtain ⟨rfl, -⟩ : Memheap.takeItem c s x (itemSize c s x) (request c size) = s' ∧
        some (x + c.memheapSize) = r := by simpa [hres] using halloc
    exact hm.takeItem hr h hgap hx (hgap.trans (request_ge c size)) hle (hcuts x _ hsearch)

theorem Tiled.free (hr : Region c s) (h : Heap c s l fl) (hm : Tiled c gap good s)
    (hptr : ∀ p, ptr = some p → Owned c s l p) (hfree : rtMemheapFree c s ptr = some s') :
    Tiled c gap good s' := by
  cases ptr with
  | none =>
    obtain rfl : s = s' := Option.some.inj hfree
    exact hm
  | some ptr =>
    obtain ⟨x, rfl, hx⟩ := hptr ptr rfl
    obtain ⟨t, -, -, hfree', -, -, -, hreleased⟩ := rtMemheapFree_spec hr h hx
    obtain rfl : t = s' := Option.some.inj (hfree'.symm.trans hfree)
    exact hreleased.tiled gap good hm

theorem Tiled.realloc (hr : Region c s) (h : Heap c s l fl) (hm : Tiled c gap good s)
    (hgap : gap ≤ minialloc) (hptr : ∀ p, ptr = some p → Owned c s l p)
    (hfit : ∀ x, ptr = some (x + c.memheapSize) → newsize ≠ 0 → Fits c s x newsize)
    (hcuts : Cuts c good s (.realloc ptr newsize))
    (hre : rtMemheapRealloc c s ptr newsize = some (s', r)) : Tiled c gap good s' := by
  have hmin := hgap.trans (request_ge c newsize)
  by_cases hzero : newsize = 0
  · rw [rtMemheapRealloc, if_pos hzero] at hre
    obtain ⟨t, hfree, heq⟩ := Option.map_eq_some_iff.mp hre
    obtain rfl : t = s' := (Prod.mk.inj heq).1
    exact hm.free hr h hptr hfree
  · obtain ⟨hallocCuts, hcut⟩ := hcuts hzero
    cases ptr with
    | none =>
      rw [rtMemheapRealloc, if_neg hzero] at hre
      exact hm.alloc hr h hgap hallocCuts hre
    | some ptr =>
      obtain ⟨x, rfl, hx⟩ := hptr ptr rfl
      obtain ⟨-, hheader⟩ := h.items.data_eq hr hx.1
      have hcut := hcut _ rfl
      rw [hheader, memitemSize_eq hr h.items hx.1] at hcut
      have hcase := rtMemheapRealloc_cases hr h hx hzero (hfit x rfl hzero)
      generalize rtMemheapRealloc c s (some (x + c.memheapSize)) newsize = res at *
      cases hcase with
      | grow hf hold hroom =>
        cases hre
        have hgood := hcut (.inl hold)
        rw [Nat.add_right_comm] at hgood
        exact hm.growInPlace hr h hgap hx hf hmin hgood hold hroom
      | refused | keep =>
        cases hre
        exact hm
      | @move hold s₁ new halloc =>
        obtain ⟨t, _, -, -, hfree, -, -, -, -, hreleased⟩ := move_spec hr h newsize hx halloc
        rw [hfree, Option.map_some] at hre
        cases hre
        have hm₁ := hm.alloc hr h hgap hallocCuts halloc
        exact hreleased.tiled gap good hm₁
      | shrink hold =>
        cases hre
        exact hm.shrink hr h hgap hx hmin (hcut (.inr hold)) hold

theorem Tiled.step (h : Inv c s) (hm : Tiled c gap good s) (hgap : gap ≤ minialloc) {op : Op}
    (hop : Allowed c s op) (hfit : Unwrapped c s op) (hcuts : Cuts c good s op)
    (hstep : step c s op = some s') : Tiled c gap good s' := by
  obtain ⟨hr, l, fl, hheap, hlive⟩ := h
  cases op with
  | alloc size =>
    obtain ⟨⟨t, r⟩, halloc, rfl⟩ := Option.map_eq_some_iff.mp hstep
    have htiled := hm.alloc hr hheap hgap hcuts halloc
    exact htiled
  | realloc ptr newsize =>
    obtain ⟨⟨t, r⟩, hre, rfl⟩ := Option.map_eq_some_iff.mp hstep
    have hptr : ∀ p, ptr = some p → Owned c s l p := fun p hp => (hlive p).mp (hop p hp)
    have htiled := hm.realloc hr hheap hgap hptr (hfit.fits hr hheap.items hptr) hcuts hre
    dsimp only
    split <;> exact htiled
  | free ptr =>
    obtain ⟨t, hfree, rfl⟩ := Option.map_eq_some_iff.mp hstep
    have htiled := hm.free hr hheap (fun p hp => (hlive p).mp (hop p hp)) hfree
    exact htiled
  | write addr byte =>
    cases hstep
    exact hm

end RtThread.Memheap
