import RtThread.MemheapFrames

/-!
# The memheaps of the system along runs

Every heap of the container keeps its lists, and the heaps stay apart. Each function gets the
statement that a caller sees, for the blocks of all heaps at once.
-/
namespace RtThread.Memheap

variable {c : Config} {sys sys' : System} {a b p o : Nat}

/-- The regions and the heads of the free lists of two heaps are apart. -/
structure Beside (o o' : Object) : Prop where
  regions : o.startAddr + o.poolSize ≤ o'.startAddr ∨ o'.startAddr + o'.poolSize ≤ o.startAddr
  header : o.freeList < o'.startAddr ∨ o'.startAddr + o'.poolSize ≤ o.freeList
  header' : o'.freeList < o.startAddr ∨ o.startAddr + o.poolSize ≤ o'.freeList
  heads : o.freeList ≠ o'.freeList

variable {o' : Object} {s : State} {newsize : Nat}

theorem Beside.symm {o : Object} (h : Beside o o') : Beside o' o :=
  ⟨h.regions.symm, h.header', h.header, h.heads.symm⟩

theorem Beside.of_eq {o₁ o₂ : Object} (h : Beside o₁ o') (hstart : o₂.startAddr = o₁.startAddr)
    (hpool : o₂.poolSize = o₁.poolSize) (hhead : o₂.freeList = o₁.freeList) : Beside o₂ o' := by
  obtain ⟨hregions, hheader, hheader', hheads⟩ := h
  rw [← hstart, ← hpool] at hregions hheader'
  rw [← hhead] at hheader hheads
  exact ⟨hregions, hheader, hheader', hheads⟩

structure SystemInv (c : Config) (sys : System) : Prop where
  heap : ∀ a ∈ sys.objectList, Inv c (view sys a)
  beside : ∀ a ∈ sys.objectList, ∀ b ∈ sys.objectList, a ≠ b →
    Beside (sys.object a) (sys.object b)

/-- `p` is handed out from one of the heaps. -/
def Live (sys : System) (p : Nat) : Prop := ∃ a ∈ sys.objectList, p ∈ (sys.object a).live

/-! ## One call -/

theorem view_put (h : s.heap = a) : view (put sys a s) a = s := by
  subst h
  simp [view, put, State.object, State.memory]

theorem put_object (sys : System) (a : Nat) (s : State) : (put sys a s).object a = s.object :=
  Function.update_self _ _ _

theorem put_object_ne (h : b ≠ a) : (put sys a s).object b = sys.object b :=
  Function.update_of_ne h _ _

theorem put_view (sys : System) (a : Nat) : put sys a (view sys a) = sys := by
  have hobject : (view sys a).object = sys.object a := rfl
  rw [put, hobject, Function.update_eq_self]
  rfl

theorem live_put (ha : a ∈ sys.objectList) : Live (put sys a s) o ↔
    o ∈ s.live ∨ ∃ b ∈ sys.objectList, b ≠ a ∧ o ∈ (sys.object b).live := by
  have hself : ((put sys a s).object a).live = s.live := by
    rw [put_object]
    rfl
  constructor
  · rintro ⟨b, hb, ho⟩
    by_cases hba : b = a
    · subst hba
      exact .inl (hself ▸ ho)
    · rw [put_object_ne hba] at ho
      exact .inr ⟨b, hb, hba, ho⟩
  · rintro (ho | ⟨b, hb, hba, ho⟩)
    · exact ⟨a, ha, hself ▸ ho⟩
    · exact ⟨b, hb, by rwa [put_object_ne hba]⟩

theorem live_iff (ha : a ∈ sys.objectList) : Live sys o ↔
    o ∈ (sys.object a).live ∨ ∃ b ∈ sys.objectList, b ≠ a ∧ o ∈ (sys.object b).live := by
  have hput := live_put (o := o) (s := view sys a) ha
  rwa [put_view] at hput

/-- A header of one heap is none of a heap beside it. -/
theorem Beside.apart {t : State} {off : Nat} (h : Beside s.object t.object)
    (hoff : Within c t off) : ¬ Within c s off := by
  obtain ⟨hregions, hheader, hheader', hheads⟩ := h
  have hsize := memheapSize_ge c
  simp only [State.object] at hregions hheader hheader' hheads
  rw [Within] at hoff ⊢
  omega

theorem untouched_put (hne : b ≠ a)
    (hitem : ∀ off, Within c (view sys b) off → SameItem sys.memory s.memory off) :
    Untouched c (view sys b) (view (put sys a s) b) := by
  have hobject : (put sys a s).object b = sys.object b := put_object_ne hne
  constructor
  · constructor
    all_goals simp only [view, hobject]
  · simp only [view, hobject]
  · simp only [view, hobject]
  · exact hitem

/-- A call on one heap is over: the other heaps are as they were. -/
theorem SystemInv.called {live : List Nat} (hs : SystemInv c sys) (ha : a ∈ sys.objectList)
    (hc : Called c (view sys a) s) (hinv : Inv c { s with live := live }) :
    SystemInv c (put sys a { s with live := live }) := by
  have hheap : ({ s with live := live } : State).heap = a := hc.same.heap
  have hbeside : ∀ b ∈ sys.objectList, a ≠ b →
      Beside (({ s with live := live } : State).object) (sys.object b) := fun b hb hne =>
    (hs.beside a ha b hb hne).of_eq hc.same.startAddr hc.same.poolSize hc.same.freeList
  constructor
  · intro b hb
    by_cases hba : b = a
    · subst hba
      rw [view_put hheap]
      exact hinv
    · have hapart : Beside (view sys a).object (view sys b).object :=
        hs.beside a ha b hb (Ne.symm hba)
      have hu : Untouched c (view sys b) (view (put sys a { s with live := live }) b) :=
        untouched_put hba fun off hoff => hc.item off (hapart.apart hoff)
      exact hu.inv (hs.heap b hb)
  · intro b hb d hd hbd
    by_cases hba : b = a
    · subst hba
      rw [put_object, put_object_ne hbd.symm]
      exact hbeside d hd hbd
    · rw [put_object_ne hba]
      by_cases hda : d = a
      · subst hda
        rw [put_object]
        exact (hbeside b hb (Ne.symm hba)).symm
      · rw [put_object_ne hda]
        exact hs.beside b hb d hd hbd

/-- The bytes do not matter. -/
theorem SystemInv.data (hs : SystemInv c sys) (d : Nat → BitVec 8) :
    SystemInv c { sys with memory := { sys.memory with data := d } } := by
  refine ⟨fun b hb => Untouched.inv ?_ (hs.heap b hb), hs.beside⟩
  exact ⟨⟨rfl, rfl, rfl, rfl, rfl, rfl⟩, rfl, rfl, fun _ _ => ⟨rfl, rfl, rfl, rfl, rfl, rfl⟩⟩

/-! ## The blocks of all heaps -/

theorem SystemInv.far (hs : SystemInv c sys) (ha : a ∈ sys.objectList) (hb : b ∈ sys.objectList)
    (hne : a ≠ b) (ho : o ∈ (sys.object b).live) : Far c (view sys a) o := by
  obtain ⟨hregions, hheader, hheader', hheads⟩ := hs.beside a ha b hb hne
  obtain ⟨hr, l, fl, hheap, hlive⟩ := hs.heap b hb
  obtain ⟨z, rfl, hz⟩ := (hlive o).mp ho
  have hbz := hheap.items.bounds hz.1
  have hge := hr.pool_ge
  have hstart : (view sys b).startAddr = (sys.object b).startAddr := rfl
  have hpool : (view sys b).poolSize = (sys.object b).poolSize := rfl
  rw [tailItem, hstart, hpool] at hbz
  have hnext : (view sys a).next z = (view sys b).next z := rfl
  have hstart' : (view sys a).startAddr = (sys.object a).startAddr := rfl
  have hpool' : (view sys a).poolSize = (sys.object a).poolSize := rfl
  have hhead' : (view sys a).freeList = (sys.object a).freeList := rfl
  refine ⟨Nat.le_add_left _ _, ?_, ?_, ?_, ?_⟩
  all_goals rw [Nat.add_sub_cancel]
  · exact hheap.magic_used hz
  · omega
  · omega
  · omega

/-- The heap of a live pointer, and where the blocks of all heaps are from there. -/
theorem SystemInv.blocks (hs : SystemInv c sys) (ha : a ∈ sys.objectList) :
    ∃ l fl, Region c (view sys a) ∧ Heap c (view sys a) l fl ∧
      (∀ o, o ∈ (sys.object a).live ↔ Owned c (view sys a) l o) ∧
      ∀ o, Live sys o → Block c (view sys a) l o := by
  obtain ⟨hr, l, fl, hheap, hlive⟩ := hs.heap a ha
  refine ⟨l, fl, hr, hheap, hlive, fun o ho => ?_⟩
  obtain hown | ⟨b, hb, hba, hother⟩ := (live_iff ha).mp ho
  · exact .inl ((hlive o).mp hown)
  · exact .inr (hs.far ha hb (Ne.symm hba) hother)

/-- A pointer is live in one heap only. -/
theorem SystemInv.live_unique (hs : SystemInv c sys) (ha : a ∈ sys.objectList)
    (hb : b ∈ sys.objectList) (hp : p ∈ (sys.object a).live) (hp' : p ∈ (sys.object b).live) :
    a = b := by
  by_contra hne
  obtain ⟨l, fl, hr, hheap, hlive, -⟩ := hs.blocks ha
  obtain ⟨z, rfl, hz⟩ := (hlive p).mp hp
  exact (hs.far ha hb hne hp').ne hheap.items hz.1 rfl

theorem SystemInv.live_drop (hs : SystemInv c sys) (ha : a ∈ sys.objectList)
    (hp : p ∈ (sys.object a).live) : (o ∈ (sys.object a).live ∧ some o ≠ some p) ∨
      (∃ b ∈ sys.objectList, b ≠ a ∧ o ∈ (sys.object b).live) ↔ Live sys o ∧ o ≠ p := by
  have hother : ∀ b ∈ sys.objectList, b ≠ a → p ∉ (sys.object b).live :=
    fun b hb hba hmem => hba (hs.live_unique hb ha hmem hp)
  rw [live_iff ha]
  constructor
  · rintro (⟨ho, hne⟩ | ⟨b, hb, hba, ho⟩)
    · exact ⟨.inl ho, fun heq => hne (by rw [heq])⟩
    · exact ⟨.inr ⟨b, hb, hba, ho⟩, fun heq => hother b hb hba (heq ▸ ho)⟩
  · rintro ⟨ho | ho, hne⟩
    · exact .inl ⟨ho, fun heq => hne (Option.some.inj heq)⟩
    · exact .inr ho

/-- The header of a live pointer names its heap. -/
theorem SystemInv.poolPtr (hs : SystemInv c sys) (ha : a ∈ sys.objectList)
    (hp : p ∈ (sys.object a).live) : sys.memory.poolPtr (sub p c.memheapSize) = a := by
  obtain ⟨l, fl, hr, hheap, hlive, -⟩ := hs.blocks ha
  obtain ⟨z, rfl, hz⟩ := (hlive p).mp hp
  rw [(hheap.items.data_eq hr hz.1).2]
  exact hheap.items.pool z hz.1

/-! ## `rt_memheap_alloc` and `_memheap_alloc` -/

/-- What an allocation of `size` bytes does to the blocks of all heaps. -/
structure AllocOutcome (c : Config) (sys : System) (size : Nat) (sys' : System) (r : Option Nat) :
    Prop where
  inv : SystemInv c sys'
  objects : sys'.objectList = sys.objectList
  failed : r = none → sys' = sys
  allocates : ∀ q, r = some q → Allocates c (Live sys) sys.memory sys'.memory q (request c size)
  live : ∀ q, r = some q → ∀ o, Live sys' o ↔ Live sys o ∨ o = q

theorem SystemInv.alloc (hs : SystemInv c sys) (ha : a ∈ sys.objectList) (size : Nat) :
    ∃ sys' r, systemAlloc c sys a size = some (sys', r) ∧ AllocOutcome c sys size sys' r := by
  obtain ⟨l, fl, hr, hheap, hlive, hblock⟩ := hs.blocks ha
  obtain ⟨s', r, l', fl', halloc, hheap', hsame, hres⟩ := rtMemheapAlloc_spec hr hheap size
  obtain ⟨t, hstep, hinv⟩ := @step_inv _ _ (.alloc size) (hs.heap a ha) trivial trivial
  obtain rfl : addLive s' r = t := by simpa [step, halloc] using hstep
  have hcalled := alloc_called hr hheap halloc
  have hlive' : s'.live = (sys.object a).live := hsame.live
  refine ⟨put sys a (addLive s' r), r, ?_, hs.called ha hcalled hinv, rfl, ?_, ?_, ?_⟩
  · rw [systemAlloc, halloc, Option.map_some]
  · rintro rfl
    obtain ⟨rfl, -⟩ := hres
    exact put_view sys a
  · rintro q rfl
    have hallocates := alloc_allocates hr hheap hblock halloc
    exact hallocates
  · rintro q rfl o
    rw [live_put ha, live_iff ha, addLive, Option.toList_some, List.singleton_append, List.mem_cons,
      hlive', or_assoc, or_comm]

theorem AllocOutcome.refl (hs : SystemInv c sys) (size : Nat) : AllocOutcome c sys size sys none :=
  ⟨hs, rfl, fun _ => rfl, by simp, by simp⟩

theorem SystemInv.allocOther (hs : SystemInv c sys) (heap size : Nat) {rest : List Nat}
    (hrest : ∀ b ∈ rest, b ∈ sys.objectList) :
    ∃ sys' r, allocOther c heap size sys rest = some (sys', r) ∧
      AllocOutcome c sys size sys' r := by
  induction rest with
  | nil => exact ⟨sys, none, rfl, .refl hs size⟩
  | cons other rest ih =>
    obtain ⟨sys₂, r₂, hothers, hout₂⟩ := ih fun b hb => hrest b (List.mem_cons_of_mem other hb)
    rw [Memheap.allocOther]
    by_cases heq : heap = other
    · rw [if_pos heq]
      exact ⟨sys₂, r₂, hothers, hout₂⟩
    · rw [if_neg heq]
      obtain ⟨sys₁, r₁, halloc, hout₁⟩ := hs.alloc (hrest other List.mem_cons_self) size
      rw [halloc, Option.bind_some]
      cases r₁ with
      | none =>
        obtain rfl := hout₁.failed rfl
        exact ⟨sys₂, r₂, hothers, hout₂⟩
      | some q => exact ⟨sys₁, some q, rfl, hout₁⟩

theorem SystemInv.memheapAlloc (hs : SystemInv c sys) (ha : a ∈ sys.objectList)
    (autoBinding : Bool) (size : Nat) :
    ∃ sys' r, memheapAlloc c autoBinding sys a size = some (sys', r) ∧
      AllocOutcome c sys size sys' r := by
  obtain ⟨sys₁, r₁, halloc, hout⟩ := hs.alloc ha size
  rw [Memheap.memheapAlloc, halloc, Option.bind_some]
  cases r₁ with
  | none =>
    obtain rfl := hout.failed rfl
    cases autoBinding with
    | false => exact ⟨sys₁, none, rfl, .refl hs size⟩
    | true => exact hs.allocOther a size fun b hb => hb
  | some q => exact ⟨sys₁, some q, rfl, hout⟩

/-! ## `rt_memheap_free` -/

/-- What a free of `p` does to the blocks of all heaps. -/
structure FreeOutcome (c : Config) (sys : System) (p : Nat) (sys' : System) : Prop where
  inv : SystemInv c sys'
  objects : sys'.objectList = sys.objectList
  data : sys'.memory.data = sys.memory.data
  live : ∀ o, Live sys' o ↔ Live sys o ∧ o ≠ p
  kept : ∀ o, Live sys o → o ≠ p → Kept c sys.memory sys'.memory o

theorem SystemInv.free (hs : SystemInv c sys) (hp : Live sys p) :
    ∃ sys', systemFree c sys (some p) = some sys' ∧ FreeOutcome c sys p sys' := by
  obtain ⟨a, ha, hp⟩ := hp
  obtain ⟨l, fl, hr, hheap, hlive, hblock⟩ := hs.blocks ha
  obtain ⟨x, rfl, hx⟩ := (hlive p).mp hp
  obtain ⟨s', l', fl', hfree, hheap', hsame, -, -⟩ := rtMemheapFree_spec hr hheap hx
  have hallowed : Allowed c (view sys a) (.free (some (x + c.memheapSize))) := by
    intro q hq
    cases hq
    exact hp
  obtain ⟨t, hstep, hinv⟩ := step_inv (hs.heap a ha) hallowed trivial
  obtain rfl : dropLive s' (some (x + c.memheapSize)) = t := by simpa [step, hfree] using hstep
  have hlive' : s'.live = (sys.object a).live := hsame.live
  refine ⟨put sys a (dropLive s' (some (x + c.memheapSize))), ?_,
    hs.called ha (free_called hr hheap hx hfree) hinv, rfl, (free_within hr hheap hx hfree).data, ?_,
    ?_⟩
  · rw [systemFree, hs.poolPtr ha hp]
    rw [hfree, Option.map_some]
  · intro o
    rw [live_put ha, dropLive, mem_dropLive, hlive', hs.live_drop ha hp]
  · intro o ho hne
    have hkept := free_kept hr hheap hx hfree (hblock o ho) hne
    exact hkept

/-! ## `rt_memheap_realloc` and `_memheap_realloc` -/

/-- What a change of the size of `p` does to the blocks of all heaps. -/
structure ReallocOutcome (c : Config) (sys : System) (p newsize : Nat) (sys' : System)
    (r : Option Nat) : Prop where
  inv : SystemInv c sys'
  objects : sys'.objectList = sys.objectList
  failed : r = none → sys' = sys
  preserved : ∀ q, r = some q → newsize + c.align ≤ 2 ^ 32 →
    Preserved c (Live sys) sys.memory sys'.memory p newsize q
  live : ∀ q, r = some q → ∀ o, Live sys' o ↔ Live sys o ∧ o ≠ p ∨ o = q

/-- Any call of `rt_memheap_realloc` that a program may make. -/
theorem SystemInv.reallocated {ptr : Option Nat} (hs : SystemInv c sys) (ha : a ∈ sys.objectList)
    (hptr : Valid (view sys a) ptr) (hfit : Unwrapped c (view sys a) (.realloc ptr newsize)) :
    ∃ s' r, rtMemheapRealloc c (view sys a) ptr newsize = some (s', r) ∧ Same (view sys a) s' ∧
      SystemInv c
        (put sys a (if r ≠ none ∨ newsize = 0 then addLive (dropLive s' ptr) r else s')) := by
  obtain ⟨l, fl, hr, hheap, hlive, -⟩ := hs.blocks ha
  have howned : ∀ p, ptr = some p → Owned c (view sys a) l p := fun p hp =>
    (hlive p).mp (hptr p hp)
  obtain ⟨s', r, -, -, hre, -, hsame, -⟩ :=
    rtMemheapRealloc_spec hr hheap ptr newsize howned (hfit.fits hr hheap.items howned)
  obtain ⟨t, hstep, hinv⟩ := @step_inv _ _ (.realloc ptr newsize) (hs.heap a ha) hptr hfit
  have hcalled := realloc_called hr hheap howned (hfit.fits hr hheap.items howned) hre
  rw [step, hre, Option.map_some] at hstep
  cases hstep
  refine ⟨s', r, hre, hsame, ?_⟩
  dsimp only at hinv
  by_cases hdone : r ≠ none ∨ newsize = 0
  · rw [if_pos hdone] at hinv ⊢
    exact hs.called (s := s') ha hcalled hinv
  · rw [if_neg hdone] at hinv ⊢
    exact hs.called ha hcalled hinv

theorem SystemInv.realloc (hs : SystemInv c sys) (ha : a ∈ sys.objectList)
    (hp : p ∈ (sys.object a).live) (hnew : newsize ≠ 0)
    (hfit : Unwrapped c (view sys a) (.realloc (some p) newsize)) :
    ∃ sys' r, systemRealloc c sys a (some p) newsize = some (sys', r) ∧
      ReallocOutcome c sys p newsize sys' r := by
  have hvalid : Valid (view sys a) (some p) := by
    intro q hq
    cases hq
    exact hp
  obtain ⟨s', r, hre, hsame, hinv⟩ := hs.reallocated ha hvalid hfit
  obtain ⟨l, fl, hr, hheap, hlive, hblock⟩ := hs.blocks ha
  obtain ⟨x, rfl, hx⟩ := (hlive p).mp hp
  have hfits : Fits c (view sys a) x newsize :=
    hfit.fits hr hheap.items (fun q hq => (hlive q).mp (hvalid q hq)) x rfl hnew
  have hlive' : s'.live = (sys.object a).live := hsame.live
  refine ⟨_, r, ?_, hinv, rfl, ?_, ?_, ?_⟩
  · rw [systemRealloc, hre, Option.map_some]
  · rintro rfl
    rw [if_neg (by simp [hnew]), realloc_refused hr hheap hx hnew hfits hre]
    exact put_view sys a
  · rintro q rfl hwrap
    have hpreserved := realloc_preserved hr hheap hblock hx hnew hwrap hfits hre
    exact hpreserved
  · rintro q rfl o
    rw [if_pos (.inl (by simp)), live_put ha, addLive, dropLive, Option.toList_some,
      List.singleton_append, List.mem_cons, mem_dropLive, hlive', or_assoc, hs.live_drop ha hp,
      or_comm]

/-- The block that is given up is at a header of its own. -/
theorem SystemInv.stop_ge (hs : SystemInv c sys) (hp : Live sys p) :
    c.memheapSize ≤ p ∧ p ≤ dataEnd c sys.memory p ∧ memitemSize c (view sys b)
      (sub p c.memheapSize) = dataEnd c sys.memory p - p := by
  obtain ⟨a, ha, hp⟩ := hp
  obtain ⟨l, fl, hr, hheap, hlive, -⟩ := hs.blocks ha
  obtain ⟨x, rfl, hx⟩ := (hlive p).mp hp
  have hbounds := hheap.items.bounds hx.1
  have hsize := memitemSize_eq hr hheap.items hx.1
  rw [(hheap.items.data_eq hr hx.1).2, dataEnd, Nat.add_sub_cancel]
  refine ⟨Nat.le_add_left _ _, hbounds.2.1, ?_⟩
  have hsame : memitemSize c (view sys b) x = memitemSize c (view sys a) x := rfl
  rw [hsame, hsize, itemSize, Nat.sub_sub]
  rfl

/-- The way over another heap: allocate there, copy, free. -/
theorem AllocOutcome.moved {sys₁ : System} {new oldsize count : Nat} (hs : SystemInv c sys)
    (hp : Live sys p) (h : AllocOutcome c sys newsize sys₁ (some new))
    (hold : oldsize = memitemSize c (view sys₁ b) (sub p c.memheapSize))
    (hcount : count = if oldsize < newsize then oldsize else newsize) :
    ∃ sys', systemFree c { sys₁ with memory := sys₁.memory.copy new p count } (some p) =
      some sys' ∧ ReallocOutcome c sys p newsize sys' (some new) := by
  have hlive₁ : ∀ o, Live sys₁ o ↔ Live sys o ∨ o = new := h.live new rfl
  have halloc := h.allocates new rfl
  obtain ⟨hle, hstop, -⟩ := hs.stop_ge (b := b) hp
  obtain ⟨-, -, hitem⟩ := h.inv.stop_ge (b := b) ((hlive₁ p).mpr (.inl hp))
  rw [hitem, (halloc.kept p hp).stop] at hold
  have hqp : new ≠ p := by
    have hroom := halloc.room
    have hapart := halloc.apart p hp
    have hsize := memheapSize_ge c
    omega
  obtain ⟨sys', hfree, hout⟩ := (h.inv.data (sys₁.memory.copy new p count).data).free (p := p)
    ((hlive₁ p).mpr (.inl hp))
  refine ⟨sys', hfree, hout.inv, hout.objects.trans h.objects, by simp, ?_, ?_⟩
  · rintro q hq hwrap
    cases hq
    have hreq := le_request hwrap
    refine .of_move halloc (show count ≤ _ by split at hcount <;> omega) hreq ?_ ?_ hout.data hqp
    · intro i hi hi'
      split at hcount <;> omega
    · exact fun o ho hne => hout.kept o ((hlive₁ o).mpr ho) hne
  · rintro q hq o
    cases hq
    have hlive₂ : Live sys' o ↔ Live sys₁ o ∧ o ≠ p := hout.live o
    rw [hlive₂, hlive₁]
    constructor
    · rintro ⟨ho | heq, hne⟩
      · exact .inl ⟨ho, hne⟩
      · exact .inr heq
    · rintro (⟨ho, hne⟩ | rfl)
      · exact ⟨.inl ho, hne⟩
      · exact ⟨.inr rfl, hqp⟩

theorem SystemInv.memheapRealloc (hs : SystemInv c sys) (ha : a ∈ sys.objectList)
    (autoBinding : Bool) (hp : Live sys p) (hnew : newsize ≠ 0)
    (hfit : Unwrapped c (view sys (sys.memory.poolPtr (sub p c.memheapSize)))
      (.realloc (some p) newsize)) :
    ∃ sys' r, memheapRealloc c autoBinding sys a (some p) newsize = some (sys', r) ∧
      ReallocOutcome c sys p newsize sys' r := by
  obtain ⟨own, hown, hpown⟩ := hp
  obtain ⟨sys₁, r₁, hre, hout₁⟩ := hs.realloc hown hpown hnew hfit
  rw [Memheap.memheapRealloc]
  dsimp only
  rw [if_neg hnew, hs.poolPtr hown hpown, hre, Option.bind_some]
  cases r₁ with
  | some q => exact ⟨sys₁, some q, rfl, hout₁⟩
  | none =>
    obtain rfl := hout₁.failed rfl
    obtain ⟨sys₂, r₂, halloc, hout₂⟩ := hs.memheapAlloc ha autoBinding newsize
    dsimp only
    rw [halloc, Option.bind_some]
    cases r₂ with
    | none => exact ⟨sys₂, none, rfl, hout₂.inv, hout₂.objects, hout₂.failed, by simp, by simp⟩
    | some new =>
      obtain ⟨sys', hfree, hout⟩ := hout₂.moved hs ⟨own, hown, hpown⟩ rfl rfl
      dsimp only
      rw [hfree, Option.map_some]
      exact ⟨sys', some new, rfl, hout⟩

/-! ## Runs -/

/-- The calls that a program may make: heaps are apart from each other, and pointers are live. -/
def SystemAllowed (c : Config) (sys : System) : SystemOp → Prop
  | .init heap freeHeader startAddr size =>
    heap ∉ sys.objectList ∧ Provided c freeHeader startAddr size ∧ ∀ b ∈ sys.objectList,
      Beside (sys.object b) ((systemInit c sys heap freeHeader startAddr size).object heap)
  | .alloc heap _ | .memheapAlloc heap _ => heap ∈ sys.objectList
  | .realloc heap ptr _ => heap ∈ sys.objectList ∧ ∀ p ∈ ptr, p ∈ (sys.object heap).live
  | .free ptr => ∀ p ∈ ptr, Live sys p
  | .memheapRealloc heap rmem _ => heap ∈ sys.objectList ∧ ∀ p ∈ rmem, Live sys p
  | .write addr _ => ∃ b ∈ sys.objectList, ∃ p ∈ (sys.object b).live,
      p ≤ addr ∧ addr < dataEnd c sys.memory p

/-- No call of `rt_memheap_realloc` wraps in its test for growing in place. -/
def SystemUnwrapped (c : Config) (sys : System) : SystemOp → Prop
  | .realloc heap ptr newsize => Unwrapped c (view sys heap) (.realloc ptr newsize)
  | .memheapRealloc _ (some p) newsize =>
    Unwrapped c (view sys (sys.memory.poolPtr (sub p c.memheapSize))) (.realloc (some p) newsize)
  | _ => True

theorem SystemInv.init {heap freeHeader startAddr size : Nat} (hs : SystemInv c sys)
    (hop : SystemAllowed c sys (.init heap freeHeader startAddr size)) :
    SystemInv c (systemInit c sys heap freeHeader startAddr size) := by
  obtain ⟨hnew, hprovided, hbeside⟩ := hop
  have hinv := @init_inv c heap freeHeader startAddr size (view sys heap) hprovided
  have hitem := fun off => @init_item c heap freeHeader startAddr size (view sys heap) hprovided off
  have hheap : (rtMemheapInit c heap freeHeader startAddr size (view sys heap)).heap = heap := rfl
  rw [systemInit] at hbeside ⊢
  dsimp only at hbeside ⊢
  generalize rtMemheapInit c heap freeHeader startAddr size (view sys heap) = s at *
  have hother : ∀ b ∈ sys.objectList, b ≠ heap := fun b hb heq => hnew (heq ▸ hb)
  constructor
  · intro b hb
    obtain heq | hb := List.mem_cons.mp hb
    · rw [← @view_put sys heap s hheap] at hinv
      rw [heq]
      exact hinv
    · have hapart : Beside s.object (view sys b).object := put_object sys heap s ▸ (hbeside b hb).symm
      have hu : Untouched c (view sys b) (view (put sys heap s) b) :=
        untouched_put (hother b hb) fun off hoff => hitem off (hapart.apart hoff)
      exact hu.inv (hs.heap b hb)
  · intro b hb d hd hne
    change Beside ((put sys heap s).object b) ((put sys heap s).object d)
    obtain heq | hb := List.mem_cons.mp hb
    · obtain heq' | hd := List.mem_cons.mp hd
      · exact absurd (heq.trans heq'.symm) hne
      · rw [put_object_ne (hother d hd), heq]
        exact (hbeside d hd).symm
    · rw [put_object_ne (hother b hb)]
      obtain heq' | hd := List.mem_cons.mp hd
      · rw [heq']
        exact hbeside b hb
      · rw [put_object_ne (hother d hd)]
        exact hs.beside b hb d hd hne

theorem SystemInv.step {autoBinding : Bool} {op : SystemOp} (hs : SystemInv c sys)
    (hop : SystemAllowed c sys op) (hfit : SystemUnwrapped c sys op) :
    ∃ sys', systemStep c autoBinding sys op = some sys' ∧ SystemInv c sys' := by
  cases op with
  | init heap freeHeader startAddr size => exact ⟨_, rfl, hs.init hop⟩
  | alloc heap size =>
    obtain ⟨sys', r, halloc, hout⟩ := hs.alloc hop size
    exact ⟨sys', by rw [systemStep, halloc, Option.map_some], hout.inv⟩
  | realloc heap ptr newsize =>
    obtain ⟨s', r, hre, -, hinv⟩ := hs.reallocated hop.1 hop.2 hfit
    exact ⟨_, by rw [systemStep, systemRealloc, hre, Option.map_some, Option.map_some], hinv⟩
  | free ptr =>
    cases ptr with
    | none => exact ⟨sys, rfl, hs⟩
    | some ptr =>
      obtain ⟨sys', hfree, hout⟩ := hs.free (hop ptr rfl)
      exact ⟨sys', hfree, hout.inv⟩
  | memheapAlloc heap size =>
    obtain ⟨sys', r, halloc, hout⟩ := hs.memheapAlloc hop autoBinding size
    exact ⟨sys', by rw [systemStep, halloc, Option.map_some], hout.inv⟩
  | memheapRealloc heap rmem newsize =>
    cases rmem with
    | none =>
      obtain ⟨sys', r, halloc, hout⟩ := hs.memheapAlloc hop.1 autoBinding newsize
      exact ⟨sys', by rw [systemStep, Memheap.memheapRealloc, halloc, Option.map_some], hout.inv⟩
    | some p =>
      by_cases hzero : newsize = 0
      · obtain ⟨sys', hfree, hout⟩ := hs.free (hop.2 p rfl)
        refine ⟨sys', ?_, hout.inv⟩
        rw [systemStep, Memheap.memheapRealloc]
        rw [if_pos hzero, hfree, Option.map_some, Option.map_some]
      · obtain ⟨sys', r, hre, hout⟩ := hs.memheapRealloc hop.1 autoBinding (hop.2 p rfl) hzero hfit
        exact ⟨sys', by rw [systemStep, hre, Option.map_some], hout.inv⟩
  | write addr byte => exact ⟨_, rfl, hs.data _⟩

end RtThread.Memheap
