import RtThread.SlabRuns

/-!
# The alignment of the chunks

The first chunk of a zone lies at a multiple of the chunk size behind the start of the
zone, when that size is a power of two, and at a multiple of eight otherwise. The zone
itself starts at a page. So a chunk of a power of two is aligned to its size when the
size is no more than a page, or when the zone happens to start at a multiple of it.
-/
namespace RtThread.Slab

variable {z zi size ptr : Nat} {table : RtSlabPage} {larges : List RtSlabPage}
  {active live lv : List Nat} {s s' : RtSlab}

/-- `MIN_CHUNK_SIZE`. -/
def minChunkSize : Nat := 8

/-- The comments in `rt_slab_alloc`: "power-of-2 alignment for power-of-2-sized chunks.
Otherwise just 8-byte align the data." -/
def Promised (bytes ptr : Nat) : Prop :=
  if bytes.isPowerOfTwo then bytes ∣ ptr else minChunkSize ∣ ptr

/-- The node `b` of the page list has room for `npages` pages. -/
def hasRoom (npages : Nat) (b : RtSlabPage) : Bool := decide (npages ≤ b.page)

/-- The zone that serves a request for the chunks of the index `zi`: the first in the array, else
the first of the free zones, else the first free pages that have room for a zone. -/
def servingZone (s : RtSlab) (zi : Nat) : Option Nat :=
  (s.zoneArray zi).head?.or (s.zoneFree.head?.or
    ((s.pageList.find? (hasRoom (s.zoneSize / 4096))).map RtSlabPage.addr))

instance (bytes ptr : Nat) : Decidable (Promised bytes ptr) :=
  inferInstanceAs (Decidable (if bytes.isPowerOfTwo then bytes ∣ ptr else minChunkSize ∣ ptr))

/-- A request whose chunk size is no more than a page or no power of two, or that is served by a
zone at a multiple of the chunk size. -/
def ZoneAligned (s : RtSlab) (size : Nat) : Prop :=
  let (zi, bytes) := zoneindex size
  bytes ≤ 4096 ∨ ¬ bytes.isPowerOfTwo ∨ ∀ z, servingZone s zi = some z → bytes ∣ z * 4096

/-! ## The base offset, for every chunk size -/

theorem offset_dvd : ∀ zi < rtSlabNzones, (sizeOfIndex zi).isPowerOfTwo →
    sizeOfIndex zi ∣ chunkOffset (sizeOfIndex zi) := by decide +kernel

theorem offset_minChunkSize : ∀ zi < rtSlabNzones, ¬ (sizeOfIndex zi).isPowerOfTwo →
    minChunkSize ∣ chunkOffset (sizeOfIndex zi) := by decide +kernel

theorem minChunkSize_dvd : ∀ zi < rtSlabNzones, minChunkSize ∣ sizeOfIndex zi := by decide +kernel

theorem dvd_page : ∀ zi < rtSlabNzones, (sizeOfIndex zi).isPowerOfTwo → sizeOfIndex zi ≤ 4096 →
    sizeOfIndex zi ∣ 4096 := by decide +kernel

/-- A chunk of a power of two is aligned exactly when its zone is. -/
theorem power_chunk_aligned (hzi : zi < rtSlabNzones) (hsize : size = sizeOfIndex zi)
    (hpow : size.isPowerOfTwo) (i : Nat) :
    size ∣ z * 4096 + chunkOffset size + i * size ↔ size ∣ z * 4096 := by
  subst hsize
  have hoff := offset_dvd zi hzi hpow
  rw [Nat.add_assoc]
  exact Nat.dvd_add_left (Nat.dvd_add hoff (Nat.dvd_mul_left _ i))

/-- Every other chunk is aligned to eight bytes. -/
theorem other_chunk_aligned (hzi : zi < rtSlabNzones) (hsize : size = sizeOfIndex zi)
    (hpow : ¬ size.isPowerOfTwo) (i : Nat) :
    minChunkSize ∣ z * 4096 + chunkOffset size + i * size := by
  subst hsize
  have hpage : minChunkSize ∣ z * 4096 := Nat.dvd_mul_left_of_dvd (by decide) z
  have hoff := offset_minChunkSize zi hzi hpow
  have hchunk : minChunkSize ∣ i * sizeOfIndex zi :=
    Nat.dvd_mul_left_of_dvd (minChunkSize_dvd zi hzi) i
  exact Nat.dvd_add (Nat.dvd_add hpage hoff) hchunk

/-! ## Where a chunk comes from -/

/-- A chunk of the zone `z`, for chunks of `size` bytes. -/
def ChunkOf (z size ptr : Nat) : Prop := ∃ i, ptr = z * 4096 + chunkOffset size + i * size

theorem ZoneOk.chunkOf {cnt i : Nat} {h : RtSlabZone} (hz : ZoneOk cnt z lv h) :
    ChunkOf z h.chunksize (chunkAt h i) := ⟨i, by rw [chunkAt, hz.base_eq]⟩

/-- A zone of the array hands out one of its chunks. -/
theorem allocChunk_chunkOf {cnt : Nat} {zs : List Nat} (hz : ZoneOk cnt z lv (s.zone z))
    (hchunk : (s.zone z).chunksize = size) (hr : allocChunk s z zs zi size = some (s', some ptr)) :
    ChunkOf z size ptr := by
  unfold allocChunk at hr
  dsimp only at hr
  split at hr
  case isFalse => cases hr
  case isTrue =>
    split at hr
    case isTrue =>
      cases hr
      rw [← hchunk]
      exact hz.chunkOf
    case isFalse =>
      cases hfree : (s.zone z).freechunk with
      | nil =>
        rw [hfree] at hr
        cases hr
      | cons chunk next =>
        rw [hfree] at hr
        cases hr
        have hmem : ptr ∈ (s.zone z).freechunk ++ lv := by
          rw [hfree]
          exact List.mem_append_left _ List.mem_cons_self
        obtain ⟨i, -, hptr⟩ := mem_touched.mp (hz.chunks.mem_iff.mp hmem)
        rw [hptr, ← hchunk]
        exact hz.chunkOf

/-- A new zone hands out its first chunk. -/
theorem newZone_chunkOf (hr : newZone s z zi size = (s', some ptr)) : ChunkOf z size ptr := by
  have hptr : some (z * 4096 + chunkOffset size + 0 * size) = some ptr := congrArg Prod.snd hr
  exact ⟨0, (Option.some.inj hptr).symm⟩

/-- The pages handed out are the first that are enough. -/
theorem pageAllocWalk_find (npages : Nat) (l : List RtSlabPage) :
    (pageAllocWalk npages l).1 = (l.find? (hasRoom npages)).map RtSlabPage.addr := by
  induction l with
  | nil => rfl
  | cons b next ih =>
    unfold pageAllocWalk
    split
    case isTrue hlt =>
      have hroom : hasRoom npages b = true := decide_eq_true (Nat.le_of_lt hlt)
      rw [List.find?_cons_of_pos hroom, Option.map_some]
    case isFalse hlt =>
      split
      case isTrue heq =>
        have hroom : hasRoom npages b = true := decide_eq_true (Nat.le_of_eq heq.symm)
        rw [List.find?_cons_of_pos hroom, Option.map_some]
      case isFalse hne =>
        have hroom : ¬ hasRoom npages b = true := by
          rw [hasRoom, decide_eq_true_eq]
          omega
        rw [List.find?_cons_of_neg hroom]
        exact ih

/-- A small request is answered with a chunk of the zone that serves it. -/
theorem Ok.alloc_chunkOf {n : Nat} (hok : Ok n table active larges s live) (hpos : 0 < size)
    (hlt : size < s.zoneLimit) (hr : rtSlabAlloc s size = some (s', some ptr)) :
    ∃ z, servingZone s (zoneindex size).1 = some z ∧ ChunkOf z (zoneindex size).2 ptr := by
  have hlimit := hok.config.limit
  have hsized := zoneindex_spec hpos (by omega)
  unfold rtSlabAlloc at hr
  rw [if_neg (by omega), if_neg (by omega)] at hr
  unfold servingZone
  generalize zoneindex size = r at hr hsized ⊢
  obtain ⟨zi, bytes⟩ := r
  dsimp only at hr hsized ⊢
  rw [if_pos hsized.index_lt] at hr
  cases harr : s.zoneArray zi with
  | cons z zs =>
    rw [harr] at hr
    have hhead : z ∈ s.zoneArray zi := by
      rw [harr]
      exact List.mem_cons_self
    have hmem := hok.zones.array_mem zi z hhead
    have hzone := hok.zones.ok z hmem
    have hchunk : (s.zone z).chunksize = bytes := by
      rw [hzone.size_eq, hsized.size_eq, ((hok.zones.linked z hmem zi).mp hhead).1]
    exact ⟨z, rfl, allocChunk_chunkOf hzone hchunk hr⟩
  | nil =>
    rw [harr] at hr
    cases hfree : s.zoneFree with
    | cons z next =>
      rw [hfree] at hr
      exact ⟨z, rfl, newZone_chunkOf (Option.some.inj hr)⟩
    | nil =>
      rw [hfree] at hr
      have hcnt : s.zoneSize / 4096 ≠ 0 := by
        have hroom := hok.config.room
        omega
      have hfind := pageAllocWalk_find (s.zoneSize / 4096) s.pageList
      rw [rtSlabPageAlloc, if_neg hcnt] at hr
      generalize pageAllocWalk (s.zoneSize / 4096) s.pageList = r at hr hfind
      obtain ⟨a, pageList⟩ := r
      cases a with
      | none => cases hr
      | some z => exact ⟨z, hfind.symm, newZone_chunkOf (Option.some.inj hr)⟩

/-! ## What the comments promise -/

/-- One small request, in a state that satisfies the invariant. -/
theorem Ok.alloc_promised {n : Nat} (hok : Ok n table active larges s live) (hpos : 0 < size)
    (hlt : size < s.zoneLimit) (hr : rtSlabAlloc s size = some (s', some ptr)) :
    Promised (zoneindex size).2 ptr ↔ ZoneAligned s size := by
  obtain ⟨z, hzone, i, hptr⟩ := hok.alloc_chunkOf hpos hlt hr
  have hlimit := hok.config.limit
  have hsized := zoneindex_spec hpos (by omega)
  unfold Promised ZoneAligned
  generalize zoneindex size = r at hzone hptr hsized ⊢
  obtain ⟨zi, bytes⟩ := r
  dsimp only at hzone hptr hsized ⊢
  rw [hptr]
  by_cases hpow : bytes.isPowerOfTwo
  · rw [if_pos hpow, power_chunk_aligned hsized.index_lt hsized.size_eq hpow]
    constructor
    · intro hdvd
      refine .inr (.inr fun z' hz' => ?_)
      rw [hzone] at hz'
      cases hz'
      exact hdvd
    · rintro (hpage | hnot | hdvd)
      · rw [hsized.size_eq] at hpow hpage ⊢
        exact Nat.dvd_mul_left_of_dvd (dvd_page zi hsized.index_lt hpow hpage) z
      · exact absurd hpow hnot
      · exact hdvd z hzone
  · rw [if_neg hpow]
    exact iff_of_true (other_chunk_aligned hsized.index_lt hsized.size_eq hpow i)
      (.inr (.inl hpow))

/-- After every run of the allocator, a small request returns a chunk that is aligned as the
comments say if and only if its chunk size is no more than a page or no power of two, or the zone
that serves it starts at a multiple of the chunk size. -/
theorem slab_chunks_aligned {align objSize beginAddr bytes : Nat} {zone : Nat → RtSlabZone}
    {memusage : Nat → RtSlabMemusage} {ops : List SlabOp}
    (hinit : rtSlabInit align objSize beginAddr bytes zone memusage = some s)
    (hops : Runs.Along slabStep OnLive ⟨s, []⟩ ops) :
    ∃ t, Runs.run slabStep ⟨s, []⟩ ops = some t ∧
      ∀ size, 0 < size → size < t.slab.zoneLimit →
        ∃ slab p, rtSlabAlloc t.slab size = some (slab, p) ∧
          ∀ ptr, p = some ptr → (Promised (zoneindex size).2 ptr ↔ ZoneAligned t.slab size) := by
  obtain ⟨n, table, hok⟩ := rtSlabInit_ok hinit
  have hinv : Inv n table ⟨s, []⟩ := ⟨[], [], hok⟩
  obtain ⟨t, hrun, active, larges, ht⟩ :=
    Runs.run_total_along (fun _ _ hs hop => slabStep_inv hs hop) hinv hops
  refine ⟨t, hrun, fun size hpos hlt => ?_⟩
  have hlimit := ht.config.limit
  obtain ⟨⟨slab, p⟩, hr, -⟩ := @Ok.alloc _ _ _ _ _ _ ht size (by omega)
  refine ⟨slab, p, hr, fun ptr hp => ?_⟩
  subst hp
  exact ht.alloc_promised hpos hlt hr

/-- In the clear region of `ram`, the first zone starts at a multiple of its chunk size. -/
theorem slab_chunks_aligned_ram :
    ∃ s slab, ram = some s ∧ rtSlabAlloc s 8000 = some (slab, some 0x20004000) ∧
      Promised 8192 0x20004000 := by
  have hram : (ram.map fun s => decide (Runs.Along slabStep OnLive ⟨s, []⟩ [] ∧
      8000 < s.zoneLimit ∧ servingZone s (zoneindex 8000).1 = some 0x20002)) = some true := by
    decide +kernel
  have hlast : (ram.bind fun s => (rtSlabAlloc s 8000).map Prod.snd) =
      some (some 0x20004000) := by decide +kernel
  obtain ⟨s, hs, hcond⟩ := Option.map_eq_some_iff.mp hram
  obtain ⟨hops, hlt, hzone⟩ := of_decide_eq_true hcond
  obtain ⟨t, hrun, hall⟩ := slab_chunks_aligned hs hops
  obtain rfl : ⟨s, []⟩ = t := Option.some.inj hrun
  obtain ⟨slab, p, hr, haligned⟩ := hall 8000 (by decide) hlt
  rw [hs, Option.bind_some, hr, Option.map_some] at hlast
  obtain rfl : p = some 0x20004000 := Option.some.inj hlast
  have hzoneAligned : ZoneAligned s 8000 := by
    refine .inr (.inr fun z hz => ?_)
    obtain rfl : 0x20002 = z := Option.some.inj (hzone.symm.trans hz)
    decide
  exact ⟨s, slab, hs, hr, (haligned 0x20004000 rfl).mpr hzoneAligned⟩

/-- Behind a large block of three pages, the zone of 32 KiB for chunks of 8 KiB starts at an odd
page, and its first chunk is not aligned to 8 KiB. -/
theorem slab_chunks_not_aligned :
    ¬ ∀ (align objSize beginAddr bytes : Nat) (zone : Nat → RtSlabZone)
      (memusage : Nat → RtSlabMemusage) (s : RtSlab) (ops : List SlabOp) (t : SlabState)
      (size : Nat) (slab : RtSlab) (ptr : Nat),
      rtSlabInit align objSize beginAddr bytes zone memusage = some s →
        Runs.Along slabStep OnLive ⟨s, []⟩ ops → Runs.run slabStep ⟨s, []⟩ ops = some t →
          0 < size → size < t.slab.zoneLimit → rtSlabAlloc t.slab size = some (slab, some ptr) →
            Promised (zoneindex size).2 ptr := by
  intro hall
  have hram : (ram.map fun s => decide (Runs.Along slabStep OnLive ⟨s, []⟩ [.alloc 9000])) =
      some true := by decide +kernel
  have hlast : (ram.bind fun s => (Runs.run slabStep ⟨s, []⟩ [.alloc 9000]).bind fun t =>
      (rtSlabAlloc t.slab 8000).map fun r => (t.slab.zoneLimit, r.2)) =
        some (8192, some 0x20007000) := by decide +kernel
  obtain ⟨s, hs, hops⟩ := Option.map_eq_some_iff.mp hram
  rw [hs, Option.bind_some] at hlast
  obtain ⟨t, hrun, hlast⟩ := Option.bind_eq_some_iff.mp hlast
  obtain ⟨⟨slab, p⟩, hr, hres⟩ := Option.map_eq_some_iff.mp hlast
  obtain ⟨hlimit, rfl⟩ := Prod.mk.inj hres
  have hprom := hall _ _ _ _ _ _ s _ t 8000 slab 0x20007000 hs (of_decide_eq_true hops) hrun
    (by decide) (by rw [hlimit]; decide) hr
  have hnot : ¬ Promised (zoneindex 8000).2 0x20007000 := by decide +kernel
  exact hnot hprom

end RtThread.Slab
