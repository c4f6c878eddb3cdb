import RtThread.MemheapFit

/-!
# Requests to the memheap

A request that the word is too short for is rounded up to zero and served with
the smallest block. In the test of `rt_memheap_realloc` for growing in place a
larger class of requests wraps, and the end of the block with them.
-/
namespace RtThread.Memheap

variable {c : Config} {s s' : State} {l fl : List Nat}

/-- The pointer that a call returns. -/
def returned (c : Config) (s : State) : Op → Option (Option Nat)
  | .alloc size => (rtMemheapAlloc c s size).map Prod.snd
  | .realloc ptr newsize => (rtMemheapRealloc c s ptr newsize).map Prod.snd
  | .free _ => some none
  | .write _ _ => some none

/-- The number of bytes that a call asks for. -/
def Op.bytes : Op → Nat
  | .alloc size => size
  | .realloc _ newsize => newsize
  | .free _ => 0
  | .write _ _ => 0

/-- `p` is the data pointer of a block in use with `size` bytes of data. -/
def Holds (c : Config) (s : State) (p size : Nat) : Prop :=
  p ∈ s.live ∧ ∃ l x, Blocks.Path c.memheapSize s.next s.startAddr (tailItem c s) l ∧ x ∈ l ∧
    p = x + c.memheapSize ∧ isUsed s x = true ∧ p + size ≤ s.next x

/-- A pointer that the call returns is that of a block with the requested bytes. -/
def Delivers (c : Config) (s : State) (op : Op) : Prop :=
  ∀ s' p, step c s op = some s' → returned c s op = some (some p) → Holds c s' p op.bytes

/-- `rt_memheap_alloc` returns a null pointer. -/
def Refused (c : Config) (s : State) (size : Nat) : Prop :=
  s.availableSize ≤ request c size ∨
    ∀ l, Blocks.Path c.memheapSize s.next s.startAddr (tailItem c s) l →
      ∀ x ∈ l, isUsed s x = false → itemSize c s x < request c size

/-- The request fits the word when it is rounded up, and in the test for growing in place, or is
refused. -/
def Fitting (c : Config) (s : State) : Op → Prop
  | .alloc size => size + c.align ≤ 2 ^ 32 ∨ Refused c s size
  | .realloc none newsize =>
    newsize = 0 ∨ newsize + c.align ≤ 2 ^ 32 ∨ Refused c s (request c newsize)
  | .realloc (some ptr) newsize =>
    newsize = 0 ∨ newsize + c.align ≤ 2 ^ 32 ∧ Unwrapped c s (.realloc (some ptr) newsize)
  | .free _ => True
  | .write _ _ => True

/-! ## The block behind a result -/

variable {p x newsize : Nat} {op : Op}

theorem Inv.holds (h : Inv c s) {size : Nat} (hp : p ∈ s.live) (hx : p = x + c.memheapSize)
    (hroom : size ≤ itemSize c s x) : Holds c s p size := by
  obtain ⟨-, l, fl, hheap, hlive⟩ := h
  obtain ⟨y, heq, hy⟩ := (hlive p).mp hp
  obtain rfl : x = y := by omega
  have hb := hheap.items.bounds hy.1
  refine ⟨hp, l, x, hheap.items.linked.path, hy.1, hx, hy.2, ?_⟩
  rw [itemSize] at hroom
  omega

/-- A block is smaller than the address space by more than a unit of alignment. -/
theorem Holds.size_lt {size : Nat} (h : Holds c s p size) (hr : Region c s) :
    size + c.align ≤ 2 ^ 32 := by
  obtain ⟨-, l, x, hpath, hx, rfl, -, hroom⟩ := h
  have hb := hpath.bounds hx
  have hlt := hr.pool_lt
  have hsize := memheapSize_ge c
  have hstep : c.align ≤ c.memheapSize := Nat.le_of_dvd (by omega) (dvd_rtAlign _ _ _)
  rw [tailItem] at hb
  omega

/-! ## Rounded requests -/

theorem le_request {size : Nat} (h : size + c.align ≤ 2 ^ 32) : size ≤ request c size := by
  have hpos := c.align_pos
  rw [request_eq]
  exact (le_rtAlign hpos (by omega)).trans (Nat.le_max_left _ _)

theorem request_wrapped {size : Nat} (hword : size < 2 ^ 32) (hwrap : 2 ^ 32 < size + c.align) :
    request c size = minialloc := by
  rw [request_eq, rtAlign_wrapped c.align_dvd hword hwrap]
  exact Nat.max_eq_right (Nat.zero_le _)

/-- `rt_memheap_realloc` rounds twice when it allocates. -/
theorem le_request_request (c : Config) (size : Nat) : request c size ≤ request c (request c size) := by
  have hidem := rtAlign_idem c.align_pos c.align_dvd size
  have hmin := request_ge c (request c size)
  by_cases hsmall : rtAlign 32 size c.align ≤ minialloc
  · rw [request_eq c size, Nat.max_eq_right hsmall] at hmin ⊢
    exact hmin
  · have hreq : request c size = rtAlign 32 size c.align := by
      rw [request_eq]
      exact Nat.max_eq_left (by omega)
    rw [hreq, request_eq, hidem]
    exact Nat.le_max_left _ _

/-! ## `rt_memheap_alloc` -/

theorem Inv.alloc_holds (h : Inv c s) {size : Nat}
    (halloc : rtMemheapAlloc c s size = some (s', some p)) :
    Holds c (addLive s' (some p)) p (request c size) ∧ Region c (addLive s' (some p)) ∧
      ¬ Refused c s size := by
  have hstep : step c s (.alloc size) = some (addLive s' (some p)) :=
    Option.map_eq_some_iff.mpr ⟨(s', some p), halloc, rfl⟩
  obtain ⟨t, hstep', hinv⟩ := @step_inv c s (.alloc size) h trivial trivial
  obtain rfl : t = addLive s' (some p) := Option.some.inj (hstep'.symm.trans hstep)
  obtain ⟨hr, l, fl, hheap, hlive⟩ := h
  obtain ⟨hnone, -⟩ | ⟨hlt, x, hx, hle, -, htake⟩ := rtMemheapAlloc_finds hr hheap size
  · rw [hnone] at halloc
    simp at halloc
  · obtain ⟨rfl, rfl⟩ : takeItem c s x (itemSize c s x) (request c size) = s' ∧
        x + c.memheapSize = p := by simpa [htake] using halloc
    have hroom := takeItem_room hr hheap hx hle
    refine ⟨hinv.holds List.mem_cons_self rfl hroom, hinv.region, ?_⟩
    obtain ⟨hxl, hxf⟩ := (hheap.free x).mp hx
    rintro (hsmall | hall)
    · omega
    · have hmiss := hall l hheap.items.linked.path x hxl hxf
      omega

theorem Inv.alloc_found (h : Inv c s) {size : Nat} (hfound : ¬ Refused c s size) :
    ∃ s' p, rtMemheapAlloc c s size = some (s', some p) := by
  obtain ⟨hr, l, fl, hheap, -⟩ := h
  obtain ⟨-, hnone⟩ | ⟨-, x, -, -, -, htake⟩ := rtMemheapAlloc_finds hr hheap size
  · refine absurd ?_ hfound
    refine hnone.imp_right fun hall l' hpath x hx hf => ?_
    have hsize := memheapSize_ge c
    obtain rfl : l' = l := hpath.unique hheap.items.linked.path (by omega) (by omega)
    exact hall x ((hheap.free x).mpr ⟨hx, hf⟩)
  · exact ⟨_, _, htake⟩

/-- A call that allocates `size` bytes for a request of `bytes`. -/
theorem Inv.alloc_delivers_iff (h : Inv c s) {size bytes : Nat}
    (hle : bytes + c.align ≤ 2 ^ 32 → bytes ≤ request c size) :
    (∀ s' p, rtMemheapAlloc c s size = some (s', some p) →
        Holds c (addLive s' (some p)) p bytes) ↔
      bytes + c.align ≤ 2 ^ 32 ∨ Refused c s size := by
  constructor
  · intro hdelivers
    by_contra hnot
    rw [not_or] at hnot
    obtain ⟨s', p, halloc⟩ := h.alloc_found hnot.2
    obtain ⟨-, hregion, -⟩ := h.alloc_holds halloc
    exact hnot.1 ((hdelivers s' p halloc).size_lt hregion)
  · rintro (hfit | hrefused) s' p halloc
    · obtain ⟨⟨hp, l, x, hpath, hx, hpx, hu, hroom⟩, -, -⟩ := h.alloc_holds halloc
      exact ⟨hp, l, x, hpath, hx, hpx, hu, by omega⟩
    · obtain ⟨-, -, hfound⟩ := h.alloc_holds halloc
      exact absurd hrefused hfound

/-! ## `rt_memheap_realloc` -/

/-- The block behind a result of `rt_memheap_realloc` has the rounded size. -/
theorem rtMemheapRealloc_room (hr : Region c s) (h : Heap c s l fl) {q : Nat} (hx : InUse s l x)
    (hnew : newsize ≠ 0) (hfit : Fits c s x newsize)
    (hre : rtMemheapRealloc c s (some (x + c.memheapSize)) newsize = some (s', some q)) :
    ∃ y, q = y + c.memheapSize ∧ request c newsize ≤ itemSize c s' y := by
  have hsize := memheapSize_ge c
  have hitem : itemSize c s x = s.next x - x - c.memheapSize := rfl
  have hcase := rtMemheapRealloc_cases hr h hx hnew hfit
  rw [hre] at hcase
  have htwice := le_request_request c newsize
  generalize request c newsize = size at *
  generalize hresult : some (s', some q) = result at hcase
  cases hcase with
  | grow hf hold hroom =>
    obtain ⟨hyl, -⟩ := h.items.next_free hx.1 hf
    obtain ⟨hyx, hyn⟩ := itemSize_next h.items hx.1 rfl hyl
    have hnext := growInPlace_next hr h hx.1 rfl hf hold rfl
      (show x + c.memheapSize + size + c.memheapSize ≤ s.next (s.next x) by omega)
    obtain ⟨rfl, hq⟩ := pair_inj hresult
    refine ⟨x, Option.some.inj hq, ?_⟩
    rw [itemSize, hnext, newItem_next, if_pos rfl]
    omega
  | refused hold halloc => cases hresult
  | @move hold s₁ new halloc =>
    obtain ⟨t, l₁, -, -, hfree, -, -, -, hallocated, hreleased⟩ := move_spec hr h newsize hx halloc
    rw [hfree, Option.map_some] at hresult
    obtain ⟨rfl, hq⟩ := pair_inj hresult
    cases hq
    obtain ⟨hnone, -⟩ | ⟨-, y, hy, hle, -, htake⟩ := rtMemheapAlloc_finds hr h size
    · rw [hnone] at halloc
      simp at halloc
    · obtain ⟨rfl, rfl⟩ : takeItem c s y (itemSize c s y) (request c size) = s₁ ∧
          y + c.memheapSize = q := by simpa [htake] using halloc
      have hroom := takeItem_room hr h hy hle
      obtain ⟨z, hzy, hnot, huse⟩ := hallocated
      obtain rfl : y = z := by omega
      have hyx : y ≠ x := fun heq => hnot (heq ▸ hx)
      refine ⟨y, rfl, ?_⟩
      rw [itemSize, hreleased.next y ((huse y).mpr (.inr rfl)) hyx]
      exact htwice.trans hroom
  | keep hold =>
    obtain ⟨rfl, hq⟩ := pair_inj hresult
    exact ⟨x, Option.some.inj hq, hold⟩
  | shrink hold =>
    have hnext := shrink_next hr h hx.1 rfl (show x + size + c.memheapSize ≤ s.next x by omega)
    obtain ⟨rfl, hq⟩ := pair_inj hresult
    refine ⟨x, Option.some.inj hq, ?_⟩
    have hcut : (Memheap.shrink c s x size).next x = x + size + c.memheapSize := by
      rw [hnext, mergeRest_next]
      split
      · rw [newItem_next, if_pos rfl]
      · rw [mergeNext_next, if_neg (by omega), newItem_next, if_pos rfl]
    rw [itemSize, hcut]
    omega

/-- The test for growing in place wraps: the block gets an end below its data. -/
theorem rtMemheapRealloc_wraps (hr : Region c s) (h : Heap c s l fl) (hm : Spaced c s)
    (hx : InUse s l x) (hnew : newsize ≠ 0) (hfit : ¬ Fits c s x newsize) :
    ∃ s', rtMemheapRealloc c s (some (x + c.memheapSize)) newsize =
      some (s', some (x + c.memheapSize)) ∧ s'.next x < x + c.memheapSize := by
  have hsize := memheapSize_ge c
  have htop := hr.le
  have hmin : minialloc = 12 := rfl
  have hword : request c newsize < 2 ^ 32 := by
    rw [request_eq]
    exact Nat.max_lt.mpr ⟨rtAlign_lt _ _ _, by decide⟩
  rw [Fits, not_or] at hfit
  obtain ⟨hlarge, hf⟩ := hfit
  have hfree : isUsed s (s.next x) = false := by simpa using hf
  obtain ⟨hyl, -⟩ := h.items.next_free hx.1 hfree
  obtain ⟨hyx, hyn⟩ := itemSize_next h.items hx.1 rfl hyl
  have hby := h.items.bounds hyl
  have hsx := hm.itemSize_ge h.items hx.1
  rw [tailItem] at hby
  rw [rtMemheapRealloc, if_neg hnew]
  dsimp only
  rw [(h.items.data_eq hr hx.1).2, memitemSize_eq hr h.items hx.1, memitemSize_eq hr h.items hyl]
  generalize request c newsize = size at *
  have htest : add size minialloc < add (itemSize c s (s.next x)) (itemSize c s x) := by
    have hsum : add (itemSize c s (s.next x)) (itemSize c s x) =
        itemSize c s (s.next x) + itemSize c s x := wadd_eq (by omega)
    have hwrap : add size minialloc = size + minialloc - 2 ^ 32 := by
      rw [add, wadd, Nat.mod_eq_sub_mod (by omega), Nat.mod_eq_of_lt (by omega)]
    omega
  rw [if_pos (by omega), if_pos (by omega), if_pos ⟨hfree, htest⟩]
  refine ⟨_, rfl, ?_⟩
  have hnext : (growInPlace s (x + c.memheapSize) x (itemSize c s x) size).next x =
      add (x + c.memheapSize) size := by
    rw [growInPlace, (insertFree_frame _ _).next, newItem_next, if_pos rfl]
  have hend : add (x + c.memheapSize) size = x + c.memheapSize + size - 2 ^ 32 := by
    rw [add, wadd, Nat.mod_eq_sub_mod (by omega), Nat.mod_eq_of_lt (by omega)]
  omega

theorem step_realloc {ptr q : Option Nat} (hre : rtMemheapRealloc c s ptr newsize = some (s', q))
    (hdone : q ≠ none) : step c s (.realloc ptr newsize) = some (addLive (dropLive s' ptr) q) := by
  rw [step, hre, Option.map_some]
  dsimp only
  rw [if_pos (.inl hdone)]

theorem dropLive_none (s : State) : dropLive s none = s := by simp [dropLive]

/-- A block is never too small for a request that was rounded up to zero. -/
theorem rtMemheapRealloc_stays (hr : Region c s) (h : Heap c s l fl) (hm : Spaced c s)
    (hx : InUse s l x) (hnew : newsize ≠ 0) (hfit : Fits c s x newsize)
    (hsmall : request c newsize = minialloc) :
    ∃ s', rtMemheapRealloc c s (some (x + c.memheapSize)) newsize =
      some (s', some (x + c.memheapSize)) := by
  have hge := hm.itemSize_ge h.items hx.1
  have hcase := rtMemheapRealloc_cases hr h hx hnew hfit
  generalize rtMemheapRealloc c s (some (x + c.memheapSize)) newsize = result at *
  cases hcase with
  | grow | refused | move => omega
  | keep _ => exact ⟨_, rfl⟩
  | shrink _ => exact ⟨_, rfl⟩

theorem Sized.realloc_delivers_iff (h : Sized c s) {ptr : Nat} (hptr : ptr ∈ s.live)
    (hword : newsize < 2 ^ 32) : Delivers c s (.realloc (some ptr) newsize) ↔
      Fitting c s (.realloc (some ptr) newsize) := by
  have hallowed : Allowed c s (.realloc (some ptr) newsize) :=
    fun p hp => Option.some.inj hp ▸ hptr
  have hm : Spaced c s := by
    refine h.2.resolve_right fun ht => ?_
    rw [ht.live] at hptr
    simp at hptr
  have hinv := h.1
  obtain ⟨hr, l, fl, hheap, hlive⟩ := h.1
  obtain ⟨x, rfl, hx⟩ := (hlive ptr).mp hptr
  have hiff : Unwrapped c s (.realloc (some (x + c.memheapSize)) newsize) ↔
      (newsize ≠ 0 → Fits c s x newsize) := by
    rw [Unwrapped, (hheap.items.data_eq hr hx.1).2]
  rw [Fitting, hiff]
  by_cases hzero : newsize = 0
  · refine iff_of_true ?_ (.inl hzero)
    intro s' p _ hret
    rw [returned, rtMemheapRealloc, if_pos hzero] at hret
    simp at hret
  by_cases hfit : Fits c s x newsize
  · have hunwrapped := hiff.mpr fun _ => hfit
    have hkeeps : ∀ {t : State} {q : Nat},
        rtMemheapRealloc c s (some (x + c.memheapSize)) newsize = some (t, some q) →
          Inv c (addLive (dropLive t (some (x + c.memheapSize))) (some q)) := by
      intro t q hre
      obtain ⟨u, hstep, hu⟩ := step_inv hinv hallowed hunwrapped
      rw [step_realloc hre (by simp)] at hstep
      cases hstep
      exact hu
    constructor
    · intro hdelivers
      by_contra hnot
      have hwrap : 2 ^ 32 < newsize + c.align := by
        by_contra hle
        exact hnot (.inr ⟨by omega, fun _ => hfit⟩)
      obtain ⟨t, hre⟩ := rtMemheapRealloc_stays hr hheap hm hx hzero hfit
        (request_wrapped hword hwrap)
      have hholds := hdelivers _ _ (step_realloc hre (by simp)) (by rw [returned, hre]; rfl)
      have hlt : newsize + c.align ≤ 2 ^ 32 := hholds.size_lt (hkeeps hre).region
      omega
    · rintro (hz | ⟨hle, -⟩) s' p hstep hret
      · exact absurd hz hzero
      · obtain ⟨⟨t, q⟩, hre, rfl⟩ := Option.map_eq_some_iff.mp hret
        rw [step_realloc hre (by simp)] at hstep
        cases hstep
        obtain ⟨y, hy, hroom⟩ := rtMemheapRealloc_room hr hheap hx hzero hfit hre
        exact (hkeeps hre).holds List.mem_cons_self hy ((le_request hle).trans hroom)
  · refine iff_of_false ?_ ?_
    · intro hdelivers
      obtain ⟨t, hre, hend⟩ := rtMemheapRealloc_wraps hr hheap hm hx hzero hfit
      obtain ⟨-, -, y, -, -, hyx, -, hroom⟩ :=
        hdelivers _ _ (step_realloc hre (by simp)) (by rw [returned, hre]; rfl)
      obtain rfl : x = y := by omega
      have hnext : (addLive (dropLive t (some (x + c.memheapSize)))
          (some (x + c.memheapSize))).next x = t.next x := rfl
      omega
    · rintro (hz | ⟨-, hunwrapped⟩)
      · exact hzero hz
      · exact hfit (hunwrapped hzero)

/-- A call with valid pointers and with `rt_size_t` values. -/
def CallAllowed (c : Config) (s : State) (op : Op) : Prop := Allowed c s op ∧ op.bytes < 2 ^ 32

theorem Sized.delivers_iff (h : Sized c s) (hop : CallAllowed c s op) :
    Delivers c s op ↔ Fitting c s op := by
  obtain ⟨hallowed, hword⟩ := hop
  cases op with
  | alloc size =>
    rw [Fitting, ← h.1.alloc_delivers_iff le_request]
    constructor
    · intro hdelivers t p halloc
      exact hdelivers _ p (Option.map_eq_some_iff.mpr ⟨_, halloc, rfl⟩)
        (Option.map_eq_some_iff.mpr ⟨_, halloc, rfl⟩)
    · intro hholds s' p hstep hret
      obtain ⟨⟨t, q⟩, halloc, rfl⟩ := Option.map_eq_some_iff.mp hret
      obtain ⟨⟨u, r⟩, halloc', rfl⟩ := Option.map_eq_some_iff.mp hstep
      obtain ⟨rfl, rfl⟩ := pair_inj (halloc.symm.trans halloc')
      exact hholds t p halloc
  | realloc ptr newsize =>
    cases ptr with
    | some ptr => exact h.realloc_delivers_iff (hallowed ptr rfl) hword
    | none =>
      by_cases hzero : newsize = 0
      · refine iff_of_true ?_ (.inl hzero)
        intro s' p _ hret
        rw [returned, rtMemheapRealloc, if_pos hzero] at hret
        simp at hret
      · have hre : rtMemheapRealloc c s none newsize = rtMemheapAlloc c s (request c newsize) := by
          rw [rtMemheapRealloc, if_neg hzero]
        have hiff := @Inv.alloc_delivers_iff c s h.1 (request c newsize) newsize
          fun hle => (le_request hle).trans (le_request_request c newsize)
        rw [Fitting, or_iff_right hzero, ← hiff, ← hre]
        constructor
        · intro hdelivers t p halloc
          have hstep := step_realloc halloc (by simp)
          rw [dropLive_none] at hstep
          exact hdelivers _ p hstep (by rw [returned, halloc]; rfl)
        · intro hholds s' p hstep hret
          obtain ⟨⟨t, q⟩, halloc, rfl⟩ := Option.map_eq_some_iff.mp hret
          rw [step_realloc halloc (by simp), dropLive_none] at hstep
          cases hstep
          exact hholds t p halloc
  | free | write => exact iff_of_true (fun s' p _ hret => by simp [returned] at hret) trivial

/-- A result of a request that the word is too short for. -/
theorem Sized.not_delivers (h : Sized c s) (hop : Allowed c s op) (hfit : Unwrapped c s op)
    (hlarge : 2 ^ 32 < op.bytes + c.align) (hstep : Memheap.step c s op = some s')
    (hret : returned c s op = some (some p)) : ¬ Delivers c s op := by
  intro hdelivers
  have hfits := (hdelivers s' p hstep hret).size_lt (h.step hop hfit hstep).1.region
  omega

end RtThread.Memheap
