import RtThread.MemheapFit

/-!
# The alignment of the pointers of the memheap

Requests are aligned to `RT_ALIGN_SIZE`, but `RT_MEMHEAP_MINIALLOC` is 12. A request of that size
that is not aligned leaves the rest of an item at an address that is not aligned either.
-/
namespace RtThread.Memheap

variable {c : Config} {s s' : State} {l fl : List Nat}

/-- The pointer that the call returns. -/
def result (c : Config) (s : State) : Op → Option Nat
  | .alloc size => (rtMemheapAlloc c s size).bind Prod.snd
  | .realloc ptr newsize => (rtMemheapRealloc c s ptr newsize).bind Prod.snd
  | .free _ | .write _ _ => none

/-- `rt_memheap_alloc` cuts the item that it finds for the request. -/
def splits (c : Config) (s : State) (size : Nat) : Bool :=
  match searchFree c s size (2 ^ 33) (s.nextFree s.freeList) 0 with
  | some (_, freeSize) => size + c.memheapSize + minialloc ≤ freeSize
  | none => false

/-- The request is aligned, or the call does not cut an item behind it. -/
def CutsAligned (c : Config) (s : State) : Op → Prop
  | .alloc size => c.align ∣ request c size ∨ splits c s (request c size) = false
  | .realloc (some ptr) newsize => newsize = 0 ∨ c.align ∣ request c newsize ∨
      memitemSize c s (sub ptr c.memheapSize) ≤ request c newsize + c.memheapSize + minialloc
  | .realloc none _ | .free _ | .write _ _ => True

instance (c : Config) (s : State) : ∀ op, Decidable (CutsAligned c s op)
  | .alloc _ => inferInstanceAs (Decidable (_ ∨ _))
  | .realloc (some _) _ => inferInstanceAs (Decidable (_ ∨ _ ∨ _))
  | .realloc none _ | .free _ | .write _ _ => inferInstanceAs (Decidable True)

/-- All items are aligned. -/
def ItemsAligned (c : Config) (s : State) : Prop := Tiled c 0 (fun x => c.align ∣ x) s

/-! ## Requests -/

theorem align_dvd_memheapSize (c : Config) : c.align ∣ c.memheapSize := dvd_rtAlign _ _ _

/-- Only the smallest request can be unaligned. -/
theorem align_dvd_request (c : Config) (size : Nat) :
    c.align ∣ request c size ∨ request c size = minialloc := by
  have hdvd : c.align ∣ rtAlign 32 size c.align := dvd_rtAlign _ _ _
  rw [request_eq]
  obtain hlt | hle := Nat.lt_or_ge (rtAlign 32 size c.align) minialloc
  · exact .inr (max_eq_right hlt.le)
  · rw [max_eq_left hle]
    exact .inl hdvd

/-- `rt_memheap_realloc` allocates with a request that has been aligned twice. -/
theorem align_dvd_request_request (c : Config) (size : Nat) :
    c.align ∣ request c (request c size) := by
  have hdvd : c.align ∣ rtAlign 32 size c.align := dvd_rtAlign _ _ _
  have hle := c.align_le
  rw [request_eq c (request c size), request_eq c size]
  obtain hlt | hge := Nat.lt_or_ge (rtAlign 32 size c.align) minialloc
  · have hmin : minialloc = 12 := rfl
    rw [max_eq_right hlt.le, max_eq_left (le_rtAlign c.align_pos (by omega))]
    exact dvd_rtAlign _ _ _
  · rw [max_eq_left hge, rtAlign_idem c.align_pos c.align_dvd, max_eq_left hge]
    exact hdvd

/-- With `RT_ALIGN_SIZE` 4 every request is aligned. -/
theorem cutsAligned_of_dvd (h : c.align ∣ minialloc) (op : Op) : CutsAligned c s op := by
  have hdvd : ∀ size, c.align ∣ request c size := by
    intro size
    obtain hdvd | hmin := align_dvd_request c size
    · exact hdvd
    · rw [hmin]
      exact h
  cases op with
  | alloc size => exact .inl (hdvd size)
  | realloc ptr newsize =>
    cases ptr with
    | none => trivial
    | some ptr => exact .inr (.inl (hdvd newsize))
  | free ptr => trivial
  | write addr byte => trivial

/-! ## Calls -/

theorem ItemsAligned.dvd (hm : ItemsAligned c s) (h : Items c s l) {x : Nat} (hx : x ∈ l) :
    c.align ∣ x := (hm.path h).2 x hx

theorem ItemsAligned.dvd_cut (hm : ItemsAligned c s) (h : Items c s l) {x size : Nat} (hx : x ∈ l)
    (hsize : c.align ∣ size) : c.align ∣ x + size + c.memheapSize :=
  Nat.dvd_add (Nat.dvd_add (hm.dvd h hx) hsize) (align_dvd_memheapSize c)

theorem ItemsAligned.allocCuts (hr : Region c s) (h : Heap c s l fl) (hm : ItemsAligned c s)
    {size : Nat} (hcut : c.align ∣ request c size ∨ splits c s (request c size) = false) :
    AllocCuts c (fun x => c.align ∣ x) s size := by
  intro x freeSize hsearch hroom
  obtain hdvd | hno := hcut
  · have hpos : 0 < request c size := lt_of_lt_of_le (by decide) (request_ge c size)
    obtain ⟨y, fs, hsearch', hfound, -⟩ := searchFree_start (c := c) hr h hpos
    obtain ⟨rfl, rfl⟩ := pair_inj (hsearch'.symm.trans hsearch)
    obtain ⟨hy, -⟩ := hfound (by omega)
    exact hm.dvd_cut h.items ((h.free y).mp hy).1 hdvd
  · simp only [splits, hsearch, decide_eq_false_iff_not] at hno
    exact absurd hroom hno

/-- An item in use has room for the smallest request. -/
theorem Sized.itemSize_ge (hsize : Spaced c s ∨ Tiny c s) (h : Heap c s l fl)
    (hlive : ∀ p, p ∈ s.live ↔ Owned c s l p) {x : Nat} (hx : InUse s l x) :
    minialloc ≤ itemSize c s x := by
  obtain hm | ht := hsize
  · exact hm.itemSize_ge h.items hx.1
  · have hmem := (hlive (x + c.memheapSize)).mpr ⟨x, rfl, hx⟩
    rw [ht.live] at hmem
    exact absurd hmem List.not_mem_nil

theorem ItemsAligned.cuts (hsized : Sized c s) (hm : ItemsAligned c s) {op : Op}
    (hop : Allowed c s op) (hcut : CutsAligned c s op) :
    Cuts c (fun x => c.align ∣ x) s op := by
  obtain ⟨⟨hr, l, fl, hheap, hlive⟩, hsize⟩ := hsized
  cases op with
  | alloc size => exact hm.allocCuts hr hheap hcut
  | realloc ptr newsize =>
    refine fun hzero => ⟨hm.allocCuts hr hheap (.inl (align_dvd_request_request c newsize)),
      fun p hp hcase => ?_⟩
    obtain rfl := Option.mem_def.mp hp
    obtain ⟨x, rfl, hx⟩ := (hlive p).mp (hop p rfl)
    obtain ⟨-, hheader⟩ := hheap.items.data_eq hr hx.1
    rw [hheader, memitemSize_eq hr hheap.items hx.1] at hcase
    rw [hheader]
    obtain hdvd | hmin := align_dvd_request c newsize
    · exact hm.dvd_cut hheap.items hx.1 hdvd
    · obtain heq | hdvd | hroom := hcut
      · exact absurd heq hzero
      · exact hm.dvd_cut hheap.items hx.1 hdvd
      · rw [hheader, memitemSize_eq hr hheap.items hx.1] at hroom
        have hge := Sized.itemSize_ge hsize hheap hlive hx
        omega
  | free ptr => trivial
  | write addr byte => trivial

/-- The pointers that a call returns are behind the headers of items. -/
theorem ItemsAligned.result (h : Inv c s) (hm : ItemsAligned c s) {op : Op} (hop : Allowed c s op)
    (hfit : Unwrapped c s op) : ∀ p ∈ result c s op, c.align ∣ p := by
  obtain ⟨hr, l, fl, hheap, hlive⟩ := h
  have hitem : ∀ x ∈ l, c.align ∣ x + c.memheapSize := fun x hx =>
    Nat.dvd_add (hm.dvd hheap.items hx) (align_dvd_memheapSize c)
  have halloc : ∀ size, ∀ p ∈ (rtMemheapAlloc c s size).bind Prod.snd, c.align ∣ p := by
    intro size p hp
    obtain ⟨hres, -⟩ | ⟨-, x, hx, -, -, hres⟩ := rtMemheapAlloc_finds hr hheap size
    · rw [hres] at hp
      cases hp
    · rw [hres] at hp
      cases hp
      exact hitem x ((hheap.free x).mp hx).1
  cases op with
  | alloc size => exact halloc size
  | realloc ptr newsize =>
    intro p hp
    have hp : (rtMemheapRealloc c s ptr newsize).bind Prod.snd = some p := hp
    by_cases hzero : newsize = 0
    · rw [rtMemheapRealloc, if_pos hzero] at hp
      cases hfree : rtMemheapFree c s ptr with
      | none | some => simp [hfree] at hp
    · cases ptr with
      | none =>
        rw [rtMemheapRealloc, if_neg hzero] at hp
        exact halloc _ p hp
      | some ptr =>
        obtain ⟨x, rfl, hx⟩ := (hlive ptr).mp (hop ptr rfl)
        have hfits : Fits c s x newsize := hfit.fits hr hheap.items
          (fun q hq => (hlive q).mp (hop q hq)) x rfl hzero
        have hcase := rtMemheapRealloc_cases hr hheap hx hzero hfits
        generalize rtMemheapRealloc c s (some (x + c.memheapSize)) newsize = res at *
        cases hcase with
        | grow | keep | shrink =>
          cases hp
          exact hitem x hx.1
        | refused hold hno => cases hp
        | @move hold s₁ new hnew =>
          have hmoved : c.align ∣ new := halloc _ new (by rw [hnew]; rfl)
          obtain ⟨r, hr', hp⟩ := Option.bind_eq_some_iff.mp hp
          obtain ⟨t, -, rfl⟩ := Option.map_eq_some_iff.mp hr'
          cases hp
          exact hmoved
  | free | write => exact fun p hp => absurd hp (by simp [Memheap.result])

/-! ## Runs -/

theorem itemsAligned_init {heap freeHeader startAddr size : Nat} (s₀ : State)
    (hinit : Provided c freeHeader startAddr size) (hstart : c.align ∣ startAddr) :
    ItemsAligned c (rtMemheapInit c heap freeHeader startAddr size s₀) := by
  have hinv := @init_inv _ heap _ _ _ s₀ hinit
  have hfirst : (rtMemheapInit c heap freeHeader startAddr size s₀).startAddr = startAddr := rfl
  have hnone : (rtMemheapInit c heap freeHeader startAddr size s₀).live = [] := rfl
  generalize rtMemheapInit c heap freeHeader startAddr size s₀ = s at *
  obtain ⟨hr, l, fl, hheap, hlive⟩ := hinv
  have hge := hr.pool_ge
  have hsize := memheapSize_ge c
  have htail : tailItem c s = s.startAddr + s.poolSize - c.memheapSize := rfl
  have hunused : ∀ x, ¬ InUse s l x := by
    intro x hx
    have hmem := (hlive (x + c.memheapSize)).mpr ⟨x, rfl, hx⟩
    rw [hnone] at hmem
    exact List.not_mem_nil hmem
  obtain ⟨rfl, -⟩ := hheap.single hunused (by omega)
  refine ⟨_, hheap.items.linked.path, fun x hx => ?_⟩
  rw [List.mem_singleton.mp hx, hfirst]
  exact hstart

/-- In every run of calls on live pointers over a heap that starts at an aligned address, in which
no call of `rt_memheap_realloc` wraps and no call cuts an item behind a request that is not
aligned, every pointer that is returned is aligned. -/
theorem memheap_aligned (c : Config) (heap freeHeader startAddr size : Nat) (s₀ : State)
    (hinit : Provided c freeHeader startAddr size) (hstart : c.align ∣ startAddr) (ops : List Op)
    (hops : Runs.Along (step c) (Allowed c)
      (rtMemheapInit c heap freeHeader startAddr size s₀) ops)
    (hfits : Runs.Along (step c) (Unwrapped c)
      (rtMemheapInit c heap freeHeader startAddr size s₀) ops)
    (hcuts : Runs.Along (step c) (CutsAligned c)
      (rtMemheapInit c heap freeHeader startAddr size s₀) ops) :
    Runs.Along (step c) (fun s op => ∀ p ∈ result c s op, c.align ∣ p)
      (rtMemheapInit c heap freeHeader startAddr size s₀) ops := by
  have hsized := Sized.of_live (@init_inv _ heap _ _ _ s₀ hinit) rfl
  have haligned := @itemsAligned_init _ heap _ _ _ s₀ hinit hstart
  have hall := (hops.and hfits).and hcuts
  refine @Runs.Along.of_invariant _ _ (step c)
    (fun s op => (Allowed c s op ∧ Unwrapped c s op) ∧ CutsAligned c s op) _
    (fun s => Sized c s ∧ ItemsAligned c s) ?_ ?_ _ _ ⟨hsized, haligned⟩ hall
  · intro s op s' h hop hstep
    exact ⟨h.1.step hop.1.1 hop.1.2 hstep, Tiled.step h.1.1 h.2 (Nat.zero_le _) hop.1.1 hop.1.2
      (h.2.cuts h.1 hop.1.1 hop.2) hstep⟩
  · intro s op h hop
    exact h.2.result h.1.1 hop.1.1 hop.1.2

/-- `RT_ALIGN_SIZE` 8, first fit. -/
def config8 : Config where
  align := 8
  bestMode := false
  align_pos := by decide
  align_dvd := by decide
  align_le := by decide

def ramHeap8 : State := rtMemheapInit config8 0x20000000 0x20000028 0x20001000 1024 blank

/-- Blocks are cut behind aligned requests; a small request takes a whole item. -/
def alignedOps : List Op :=
  [.alloc 40, .alloc 100, .free (some 0x20001018), .alloc 1, .realloc (some 0x20001058) 60]

theorem memheap_aligned_ram :
    Runs.Along (step config8) (fun s op => ∀ p ∈ result config8 s op, config8.align ∣ p) ramHeap8
      alignedOps := by
  have hcheck : decide (Runs.Along (step config8) (Allowed config8) ramHeap8 alignedOps ∧
      Runs.Along (step config8) (Unwrapped config8) ramHeap8 alignedOps ∧
      Runs.Along (step config8) (CutsAligned config8) ramHeap8 alignedOps) = true := by
    decide +kernel
  obtain ⟨hops, hfits, hcuts⟩ := of_decide_eq_true hcheck
  exact memheap_aligned config8 0x20000000 0x20000028 0x20001000 1024 blank
    ⟨by decide, by decide, by decide, by decide⟩ (by decide) alignedOps hops hfits hcuts

/-- Two requests of one byte each. -/
theorem memheap_not_aligned :
    ¬ ∀ (c : Config) (heap freeHeader startAddr size : Nat) (s₀ : State) (ops : List Op),
      Provided c freeHeader startAddr size → 4 ≤ c.align → c.align ∣ startAddr →
      Runs.Along (step c) (Allowed c) (rtMemheapInit c heap freeHeader startAddr size s₀) ops →
      Runs.Along (step c) (fun s op => ∀ p ∈ result c s op, c.align ∣ p)
        (rtMemheapInit c heap freeHeader startAddr size s₀) ops := by
  intro h
  have hops : Runs.Along (step config8) (Allowed config8) ramHeap8 [.alloc 1, .alloc 1] := by
    decide +kernel
  have hvalue : (step config8 ramHeap8 (.alloc 1)).bind (fun s => result config8 s (.alloc 1)) =
      some 0x2000103c := by
    decide +kernel
  obtain ⟨s, hs, hp⟩ := Option.bind_eq_some_iff.mp hvalue
  have halong := h config8 0x20000000 0x20000028 0x20001000 1024 blank [.alloc 1, .alloc 1]
    ⟨by decide, by decide, by decide, by decide⟩ (by decide) (by decide) hops
  have hdvd := (halong.2 s hs).1 _ hp
  exact absurd hdvd (by decide)

end RtThread.Memheap
