import RtThread.SlabLayout

/-!
# The calls of the slab allocator

Every call keeps the layout of the pages and the state of the zones, and hands out
only what is not live. The statistics `used` is the sum of the sizes of the live
blocks, in a word.
-/
namespace RtThread.Slab

open Function (update_of_ne update_self)

variable {n z ptr a npages p : Nat} {table e : RtSlabPage} {larges larges' : List RtSlabPage}
  {active active' live live' : List Nat} {h : RtSlabZone} {s s' : RtSlab}

/-- What `rt_slab_init` fixes, for a region of `n` pages. -/
structure Config (n : Nat) (s : RtSlab) : Prop where
  zoneSize_eq : s.zoneSize = s.zonePageCnt * 4096
  zoneSize_le : s.zoneSize ≤ 128 * 1024
  limit : s.zoneLimit = 8192 ∨ s.zoneLimit = 16384
  room : 4 * s.zoneLimit ≤ s.zoneSize
  region : (s.heapStart + n) * 4096 ≤ 2 ^ 32

/-- The invariant of the allocator, inside a call. -/
structure Base (n : Nat) (table : RtSlabPage) (active : List Nat) (larges : List RtSlabPage)
    (s : RtSlab) (live : List Nat) : Prop where
  config : Config n s
  layout : Layout n table active larges s live
  zones : Zones active s live
  used : s.used = (live.map (blockSize s)).sum % 2 ^ 32

/-- The invariant of the allocator between calls. -/
structure Ok (n : Nat) (table : RtSlabPage) (active : List Nat) (larges : List RtSlabPage)
    (s : RtSlab) (live : List Nat) : Prop extends Base n table active larges s live where
  retained : Retained s

theorem Base.perm (hb : Base n table active larges s live) (hlive : live.Perm live') :
    Base n table active larges s live' where
  config := hb.config
  layout := hb.layout.perm (List.Perm.refl _) hlive
  zones := hb.zones.perm hlive
  used := by rw [hb.used, (hlive.map _).sum_eq]

theorem Ok.perm (hok : Ok n table active larges s live) (hlive : live.Perm live') :
    Ok n table active larges s live' :=
  ⟨hok.toBase.perm hlive, hok.retained⟩

theorem wadd_used {u c t : Nat} (hu : u = t % 2 ^ 32) : wadd 32 u c = (c + t) % 2 ^ 32 := by
  rw [hu, wadd, Nat.mod_add_mod, Nat.add_comm]

theorem wsub_used {u c t : Nat} (hu : u = (c + t) % 2 ^ 32) (hc : c ≤ 2 ^ 32) :
    wsub 32 u c = t % 2 ^ 32 := by
  unfold wsub
  omega

/-- A new block counts with its size, and the others with theirs. -/
theorem Base.count_up (hb : Base n table active larges s live) {c : Nat}
    (hself : blockSize s' ptr = c) (hothers : ∀ p ∈ live, blockSize s' p = blockSize s p) :
    wadd 32 s.used c = ((ptr :: live).map (blockSize s')).sum % 2 ^ 32 := by
  rw [List.map_cons, List.sum_cons, hself, List.map_congr_left hothers]
  exact wadd_used hb.used

/-- A block that is freed does not count, and the others count with their sizes. -/
theorem Base.count_down (hb : Base n table active larges s (ptr :: live)) {c : Nat}
    (hself : blockSize s ptr = c) (hc : c ≤ 2 ^ 32)
    (hothers : ∀ p ∈ live, blockSize s' p = blockSize s p) :
    wsub 32 s.used c = (live.map (blockSize s')).sum % 2 ^ 32 := by
  have hused := hb.used
  rw [List.map_cons, List.sum_cons, hself] at hused
  rw [List.map_congr_left hothers]
  exact wsub_used hused hc

/-- The blocks at the pointers `live` keep their sizes. -/
def Keeps (s s' : RtSlab) (live : List Nat) : Prop := ∀ p ∈ live, blockSize s' p = blockSize s p

theorem Keeps.trans {s₁ s₂ s₃ : RtSlab} (h₁ : Keeps s₁ s₂ live) (h₂ : Keeps s₂ s₃ live) :
    Keeps s₁ s₃ live := fun p hp => (h₂ p hp).trans (h₁ p hp)

/-! ## Large allocations -/

theorem le_rtAlign_page {size : Nat} (hsize : size < 2 ^ 32) (hpos : rtAlign 32 size 4096 ≠ 0) :
    size ≤ rtAlign 32 size 4096 := by
  unfold rtAlign at hpos ⊢
  omega

/-- What an allocation of `size` bytes does: it fails and keeps the live blocks, or hands out a
block that was not live and is large enough. -/
def Allocates (n : Nat) (table : RtSlabPage) (live : List Nat) (size : Nat)
    (r : RtSlab × Option Nat) : Prop :=
  match r.2 with
  | none => ∃ active larges, Ok n table active larges r.1 live
  | some ptr => size ≤ blockSize r.1 ptr ∧ ptr ∉ live ∧
    ∃ active larges, Ok n table active larges r.1 (ptr :: live)

theorem Config.congr (hc : Config n s) (hstart : s'.heapStart = s.heapStart)
    (hsize : s'.zoneSize = s.zoneSize) (hlimit : s'.zoneLimit = s.zoneLimit)
    (hcnt : s'.zonePageCnt = s.zonePageCnt) : Config n s' := by
  obtain ⟨h₁, h₂, h₃, h₄, h₅⟩ := hc
  rw [← hsize, ← hcnt] at h₁
  rw [← hsize] at h₂ h₄
  rw [← hlimit] at h₃ h₄
  rw [← hstart] at h₅
  exact ⟨h₁, h₂, h₃, h₄, h₅⟩

theorem Ok.allocLarge (hok : Ok n table active larges s live) {size : Nat}
    (hsize : size < 2 ^ 32) : Allocates n table live size (allocLarge s size) := by
  unfold Slab.allocLarge
  dsimp only
  have hdvd : rtAlign 32 size 4096 / 4096 * 4096 = rtAlign 32 size 4096 :=
    Nat.div_mul_cancel (dvd_rtAlign 32 size 4096)
  have hpos := le_rtAlign_page hsize
  generalize rtAlign 32 size 4096 = bytes at hdvd hpos ⊢
  cases hres : rtSlabPageAlloc s.pageList (bytes / 4096) with
  | mk chunk pageList =>
    cases chunk with
    | none =>
      have hlist : pageList = s.pageList := by
        have := (@rtSlabPageAlloc_none s.pageList (bytes / 4096) (by rw [hres])).1
        rwa [hres] at this
      subst hlist
      exact ⟨active, larges, hok⟩
    | some chunk =>
      have hlay := hok.layout.addLarge (show (rtSlabPageAlloc s.pageList (bytes / 4096)).1 =
        some chunk by rw [hres])
      rw [hres] at hlay
      dsimp only at hlay ⊢
      have hself := hlay.blockSize_large List.mem_cons_self
      rw [hdvd] at hself
      have hothers := fun p (hp : p ∈ live) => hok.layout.blockSize_eq hlay rfl hp
        (fun e he _ => List.mem_cons_of_mem _ he) (fun z hz _ => ⟨hz, rfl⟩)
      refine ⟨?_, (List.nodup_cons.mp hlay.nodup).1, active, _,
        ⟨hok.config.congr rfl rfl rfl rfl, hlay.congr rfl rfl rfl rfl rfl, ?_, ?_⟩, hok.retained⟩
      · refine Nat.le_trans (hpos fun hzero => ?_) (Nat.le_of_eq hself.symm)
        rw [hzero] at hres
        exact Option.some_ne_none chunk (congrArg Prod.fst hres).symm
      · have hzones := hok.zones.cons_outside fun z hz =>
          hlay.large_outside List.mem_cons_self (List.mem_append_left _ hz)
        exact hzones.congr rfl rfl rfl rfl rfl
      · exact hok.toBase.count_up hself hothers

/-! ## Chunks -/

/-- A chunk that the zone hands out is not live. -/
theorem ZoneOk.not_live {cnt chunk : Nat}
    (hz : ZoneOk cnt z (chunk :: live.filter (inZone cnt z)) h)
    (hin : inZone cnt z chunk = true) : chunk ∉ live := by
  intro hmem
  have hnd := (List.nodup_append.mp hz.nodup).2.1
  exact (List.nodup_cons.mp hnd).1 (List.mem_filter.mpr ⟨hmem, hin⟩)

/-- A chunk is taken from the first zone of a list in the array. -/
theorem Ok.take (hok : Ok n table active larges s live) {zi chunk : Nat} {zs : List Nat}
    (harr : s.zoneArray zi = z :: zs)
    (hzone : ZoneOk s.zonePageCnt z (chunk :: live.filter (inZone s.zonePageCnt z)) h)
    (hindex : h.zoneindex = (s.zone z).zoneindex) (hnfree : h.nfree = (s.zone z).nfree - 1)
    (hsize : h.chunksize = (s.zone z).chunksize) :
    Allocates n table live h.chunksize
      (countUp { s with zone := Function.update s.zone z h, zoneArray := afterTake s h.nfree zi zs }
        h.chunksize, some chunk) := by
  have hmem : z ∈ active := hok.zones.array_mem zi z (by rw [harr]; exact List.mem_cons_self)
  obtain ⟨i, hi, hchunk⟩ := hzone.mem_live List.mem_cons_self
  have hin : inZone s.zonePageCnt z chunk = true := by
    rw [hchunk]
    exact hzone.chunk_inZone (Nat.lt_of_le_of_lt hi hzone.uindex_lt)
  have hnew := hzone.not_live hin
  have hlay := hok.layout.cons_chunk hmem hin hnew
  have hzones := hok.zones.take harr hzone hindex hnfree hin
    fun z' hz' hne => hlay.inZone_unique hmem hz' hne hin
  have hlay' : Layout n table active larges
      { s with zone := Function.update s.zone z h, zoneArray := afterTake s h.nfree zi zs }
      (chunk :: live) := hlay.congr rfl rfl rfl rfl rfl
  have hself := hlay'.blockSize_zone hmem hin
  dsimp only at hself
  rw [update_self] at hself
  have hothers : ∀ p ∈ live, blockSize
      { s with zone := Function.update s.zone z h, zoneArray := afterTake s h.nfree zi zs } p =
        blockSize s p := fun p hp =>
    hok.layout.blockSize_eq hlay' rfl hp (fun e he _ => he) fun z' hz' _ => by
      refine ⟨hz', ?_⟩
      dsimp only
      by_cases heq : z' = z
      · rw [heq, update_self, hsize]
      · rw [update_of_ne heq]
  refine ⟨Nat.le_of_eq hself.symm, hnew, active, larges, ⟨hok.config.congr rfl rfl rfl rfl,
    hlay'.congr rfl rfl rfl rfl rfl, hzones.congr rfl rfl rfl rfl rfl, ?_⟩, ?_⟩
  · exact hok.toBase.count_up hself hothers
  · have hadd := hzone.nfree_add
    rw [List.length_cons] at hadd
    exact hok.retained.take harr (by omega)

theorem Ok.allocChunk (hok : Ok n table active larges s live) {zi size : Nat} {zs : List Nat}
    (harr : s.zoneArray zi = z :: zs) (hsize : size = sizeOfIndex zi) :
    ∃ r, allocChunk s z zs zi size = some r ∧ Allocates n table live size r := by
  have hhead : z ∈ s.zoneArray zi := by
    rw [harr]
    exact List.mem_cons_self
  have hmem := hok.zones.array_mem zi z hhead
  obtain ⟨hzi, hpos⟩ := (hok.zones.linked z hmem zi).mp hhead
  have hzone := hok.zones.ok z hmem
  have hchunk : (s.zone z).chunksize = size := by
    rw [hzone.size_eq, hsize, hzi]
  unfold Slab.allocChunk
  rw [if_pos hpos]
  split
  case isTrue hu =>
    refine ⟨_, rfl, ?_⟩
    have htake := hok.take harr (hzone.take_fresh hu) rfl rfl rfl
    unfold chunkAt at htake
    rw [hchunk] at htake ⊢
    exact htake
  case isFalse hu =>
    have hcount := hzone.nfree_eq
    cases hfree : (s.zone z).freechunk with
    | nil =>
      rw [hfree, List.length_nil] at hcount
      omega
    | cons chunk next =>
      refine ⟨_, rfl, ?_⟩
      have htake := hok.take harr (hzone.take_freed hfree) rfl rfl rfl
      rw [hchunk] at htake ⊢
      exact htake

/-! ## New zones -/

theorem Allocates.mono {size size' : Nat} {r : RtSlab × Option Nat}
    (hr : Allocates n table live size' r) (hle : size ≤ size') : Allocates n table live size r := by
  obtain ⟨s, ptr⟩ := r
  cases ptr with
  | none => exact hr
  | some ptr => exact ⟨Nat.le_trans hle hr.1, hr.2⟩

/-- A zone whose pages are handed out, and that holds no live pointer, is set up. -/
theorem newZone_ok {zi size : Nat} (hconfig : Config n s)
    (hlayout : Layout n table (z :: active) larges s live) (hzones : Zones active s live)
    (hnew : z ∉ active ++ s.zoneFree) (hempty : live.filter (inZone s.zonePageCnt z) = [])
    (hretained : Retained s) (hused : s.used = (live.map (blockSize s)).sum % 2 ^ 32)
    (hpos : 0 < size) (hsize : size = sizeOfIndex zi) (hle : size ≤ s.zoneLimit) :
    Allocates n table live size (newZone s z zi size) := by
  have hroom : 40 + 3 * size ≤ s.zonePageCnt * 4096 := by
    have h₁ := hconfig.room
    have h₂ := hconfig.limit
    rw [← hconfig.zoneSize_eq]
    omega
  have hzone := @freshZone_ok s.zonePageCnt z zi size hpos hsize hroom
  have hnewZone : newZone s z zi size =
      (countUp
        { s with
          zone := Function.update s.zone z (freshZone (s.zonePageCnt * 4096) z zi size)
          zoneArray := Function.update s.zoneArray zi (z :: s.zoneArray zi) }
        size, some (chunkAt (freshZone (s.zonePageCnt * 4096) z zi size) 0)) := by
    unfold newZone chunkAt
    rw [hconfig.zoneSize_eq]
    rfl
  rw [hnewZone]
  generalize hh : freshZone (s.zonePageCnt * 4096) z zi size = h at hzone
  have hzi : zi = h.zoneindex := by rw [← hh]; rfl
  have hchunksize : h.chunksize = size := by rw [← hh]; rfl
  have hadd := hzone.nfree_add
  have htwo := hzone.two_le
  rw [List.length_singleton] at hadd
  have hin := hzone.chunk_inZone (Nat.lt_of_lt_of_le Nat.zero_lt_two htwo)
  have hself : z ∈ z :: active := List.mem_cons_self
  have hsep : ∀ z' ∈ active, inZone s.zonePageCnt z' (chunkAt h 0) = false := fun z' hz' =>
    hlayout.inZone_unique hself (List.mem_cons_of_mem z hz')
      (fun heq => hnew (List.mem_append_left _ (heq ▸ hz'))) hin
  have hnot : chunkAt h 0 ∉ live := fun hmem =>
    List.filter_eq_nil_iff.mp hempty _ hmem hin
  rw [hzi]
  have hlay : Layout n table (z :: active) larges
      { s with
        zone := Function.update s.zone z h
        zoneArray := Function.update s.zoneArray h.zoneindex (z :: s.zoneArray h.zoneindex) }
      (chunkAt h 0 :: live) := (hlayout.cons_chunk hself hin hnot).congr rfl rfl rfl rfl rfl
  have hblock := hlay.blockSize_zone hself hin
  dsimp only at hblock
  rw [update_self, hchunksize] at hblock
  have hothers : ∀ p ∈ live, blockSize
      { s with
        zone := Function.update s.zone z h
        zoneArray := Function.update s.zoneArray h.zoneindex (z :: s.zoneArray h.zoneindex) } p =
        blockSize s p := fun p hp =>
    hlayout.blockSize_eq hlay rfl hp (fun e he _ => he) fun z' hz' hin' => by
      refine ⟨hz', ?_⟩
      have hne : z' ≠ z := fun heq =>
        List.filter_eq_nil_iff.mp hempty p hp (heq ▸ hin')
      dsimp only
      rw [update_of_ne hne]
  refine ⟨Nat.le_of_eq hblock.symm, hnot, z :: active, larges,
    ⟨hconfig.congr rfl rfl rfl rfl, hlay.congr rfl rfl rfl rfl rfl,
      (hzones.add hnew hzone (by omega) hempty hin hsep).congr rfl rfl rfl rfl rfl, ?_⟩, ?_⟩
  · rw [List.map_cons, List.sum_cons]
    refine (wadd_used hused).trans ?_
    rw [← hblock, ← List.map_congr_left hothers]
    rfl
  · exact hretained.add (by omega)

theorem Ok.alloc (hok : Ok n table active larges s live) {size : Nat} (hsize : size < 2 ^ 32) :
    ∃ r, rtSlabAlloc s size = some r ∧ Allocates n table live size r := by
  unfold rtSlabAlloc
  split
  case isTrue => exact ⟨_, rfl, active, larges, hok⟩
  case isFalse hpos =>
    split
    case isTrue => exact ⟨_, rfl, hok.allocLarge hsize⟩
    case isFalse hlt =>
      have hlimit := hok.config.limit
      have hz := zoneindex_spec (n := size) (by omega) (by omega)
      have hle : (zoneindex size).2 ≤ s.zoneLimit := by
        have h₁ := hz.le_half
        have h₂ := hz.le_limit
        omega
      generalize zoneindex size = r at hz hle
      obtain ⟨zi, bytes⟩ := r
      dsimp only at hz hle ⊢
      have hbytes : 0 < bytes := Nat.lt_of_lt_of_le (by omega) hz.le_size
      rw [if_pos hz.index_lt]
      split
      case h_1 z zs harr =>
        obtain ⟨r, hr, hall⟩ := hok.allocChunk harr hz.size_eq
        exact ⟨r, hr, hall.mono hz.le_size⟩
      case h_2 harr =>
        split
        case h_1 z next hfree =>
          refine ⟨_, rfl, Allocates.mono ?_ hz.le_size⟩
          obtain ⟨hnew, hzones⟩ := hok.zones.pop hfree
          have hlay := hok.layout.pop hfree
          have hempty := hok.layout.filter_free (z := z) (by rw [hfree]; exact List.mem_cons_self)
            fun hin => hnew (List.mem_append_left _ hin)
          exact newZone_ok (hok.config.congr rfl rfl rfl rfl) (hlay.congr rfl rfl rfl rfl rfl)
            hzones hnew hempty hok.retained hok.used hbytes hz.size_eq hle
        case h_2 hfree =>
          have hcnt : s.zoneSize / 4096 = s.zonePageCnt := by
            rw [hok.config.zoneSize_eq]
            exact Nat.mul_div_cancel _ (by omega)
          rw [hcnt]
          cases hres : rtSlabPageAlloc s.pageList s.zonePageCnt with
          | mk z pageList =>
            cases z with
            | none =>
              have hlist := (rtSlabPageAlloc_none (by rw [hres] :
                (rtSlabPageAlloc s.pageList s.zonePageCnt).1 = none)).1
              rw [hres] at hlist
              dsimp only at hlist ⊢
              rw [hlist]
              exact ⟨_, rfl, active, larges, hok⟩
            | some z =>
              refine ⟨_, rfl, Allocates.mono ?_ hz.le_size⟩
              obtain ⟨hnew, hempty, hlay⟩ := hok.layout.addZone (z := z) (by rw [hres])
              rw [hres] at hlay
              refine newZone_ok (hok.config.congr rfl rfl rfl rfl) hlay
                (hok.zones.congr rfl rfl rfl rfl rfl) hnew hempty hok.retained ?_ hbytes
                hz.size_eq hle
              refine hok.used.trans ?_
              rw [List.map_congr_left fun p hp => hok.layout.blockSize_eq hlay rfl hp
                (fun e he _ => he) fun z' hz' _ => ⟨List.mem_cons_of_mem z hz', rfl⟩]

/-! ## Release -/

/-- The pages handed out are no more than the region. -/
theorem Layout.page_le (hl : Layout n table active larges s live) (he : e ∈ larges) :
    e.page ≤ n := by
  have htotal := hl.pages.total
  have hmem : e.page ∈ (table :: (larges ++
      (active ++ s.zoneFree).map (zoneExtent s.zonePageCnt))).map RtSlabPage.page :=
    List.mem_map_of_mem (List.mem_cons_of_mem _ (List.mem_append_left _ he))
  have := List.le_sum_of_mem hmem
  omega

theorem Base.bytes_le (hb : Base n table active larges s live) (he : e ∈ larges) :
    e.page * 4096 ≤ 2 ^ 32 := by
  have hle : e.page ≤ s.heapStart + n :=
    Nat.le_trans (hb.layout.page_le he) (Nat.le_add_left _ _)
  exact Nat.le_trans (Nat.mul_le_mul_right 4096 hle) hb.config.region

theorem Ok.freeLarge (hok : Ok n table active larges s (ptr :: live)) (he : e ∈ larges)
    (hptr : ptr = e.addr * 4096) :
    ∃ s', freeLarge s ptr = some s' ∧ Keeps s s' live ∧
      ∃ active larges, Ok n table active larges s' live := by
  subst hptr
  have hkup := hok.layout.large e he
  have hlay := hok.layout.perm (List.perm_cons_erase he) (List.Perm.refl _)
  have hcount := fun slab => @Base.count_down _ _ _ _ _ _ s slab hok.toBase _
    (hok.layout.blockSize_large he) (hok.toBase.bytes_le he)
  have hzones := hok.zones.tail_outside fun z hz =>
    hok.layout.large_outside he (List.mem_append_left _ hz)
  unfold Slab.freeLarge
  rw [pageOf_mul, hkup, if_pos (Nat.mul_mod_left _ _)]
  generalize wsub 32 s.used (e.page * 4096) = used at hcount ⊢
  obtain ⟨pageList, hfree, hlay'⟩ := hlay.removeLarge used
  rw [hfree]
  have hkeeps := fun p (hp : p ∈ live) => hlay.blockSize_eq hlay' rfl
    (List.mem_cons_of_mem _ hp) (fun e' he' heq => ?_) (fun z hz _ => ⟨hz, rfl⟩)
  · exact ⟨_, rfl, hkeeps, active, larges.erase e, ⟨hok.config.congr rfl rfl rfl rfl, hlay',
      hzones.congr rfl rfl rfl rfl rfl, hcount _ hkeeps⟩, hok.retained⟩
  · obtain rfl | he' := List.mem_cons.mp he'
    · exact absurd (heq ▸ hp) (List.nodup_cons.mp hok.layout.nodup).1
    · exact he'

theorem freeChunk_chunksize (z' : Nat) :
    ((freeChunk s z ptr).zone z').chunksize = (s.zone z').chunksize := by
  unfold freeChunk
  dsimp only
  by_cases heq : z' = z
  · rw [heq, update_self]
  · rw [update_of_ne heq]

theorem Base.chunksize_le (hb : Base n table active larges s live) (hz : z ∈ active) :
    (s.zone z).chunksize ≤ 2 ^ 32 := by
  have hzone := hb.zones.ok z hz
  have h₁ := hzone.fits
  have h₂ := hzone.base_eq
  have h₃ := hzone.two_le
  have h₄ := hb.config.zoneSize_eq
  have h₅ := hb.config.zoneSize_le
  have h₆ : 1 * (s.zone z).chunksize ≤ (s.zone z).nmax * (s.zone z).chunksize :=
    Nat.mul_le_mul_right _ (by omega)
  omega

/-- A chunk goes back to its zone. -/
theorem Base.freeChunk (hb : Base n table active larges s (ptr :: live)) (hz : z ∈ active)
    (hin : inZone s.zonePageCnt z ptr = true) :
    Base n table active larges (freeChunk s z ptr) live ∧ Keeps s (freeChunk s z ptr) live := by
  have hlay : Layout n table active larges (Slab.freeChunk s z ptr) live :=
    hb.layout.tail.congr rfl rfl rfl rfl rfl
  have hkeeps : Keeps s (Slab.freeChunk s z ptr) live := fun p hp =>
    hb.layout.blockSize_eq hlay rfl (List.mem_cons_of_mem ptr hp) (fun e he _ => he)
      fun z' hz' _ => ⟨hz', freeChunk_chunksize z'⟩
  refine ⟨⟨hb.config.congr rfl rfl rfl rfl, hlay, hb.zones.give hz hin fun z' hz' hne =>
    hb.layout.inZone_unique hz hz' hne hin, ?_⟩, hkeeps⟩
  exact hb.count_down (hb.layout.blockSize_zone hz hin) (hb.chunksize_le hz) hkeeps

theorem Base.retire (hb : Base n table active larges s live) (hz : z ∈ active)
    (hfull : (s.zone z).nfree = (s.zone z).nmax) :
    Base n table (active.erase z) larges (retired s z) live ∧ Keeps s (retired s z) live := by
  have hempty := (hb.zones.ok z hz).eq_nil hfull
  have hlay := hb.layout.retire hz hempty
  have hkeeps : Keeps s (retired s z) live := by
    intro p hp
    refine hb.layout.blockSize_eq hlay rfl hp (fun e he _ => he) fun z' hz' hin => ?_
    have hne : z' ≠ z := fun heq => List.filter_eq_nil_iff.mp hempty p hp (heq ▸ hin)
    refine ⟨(List.mem_erase_of_ne hne).mpr hz', ?_⟩
    unfold retired
    dsimp only
    rw [update_of_ne hne]
  refine ⟨⟨hb.config.congr rfl rfl rfl rfl, hlay, hb.zones.retire hz hfull, ?_⟩, hkeeps⟩
  exact hb.used.trans (by rw [List.map_congr_left hkeeps])

/-- A zone goes back to the page allocator. -/
theorem Base.release (hb : Base n table active larges s live) {next : List Nat}
    (hfree : s.zoneFree = z :: next) :
    ∃ s', releaseZone s = some s' ∧ s'.zone = s.zone ∧ s'.zoneArray = s.zoneArray ∧
      Base n table active larges s' live ∧ Keeps s s' live := by
  have hcnt : s.zoneSize / 4096 = s.zonePageCnt := by
    rw [hb.config.zoneSize_eq]
    exact Nat.mul_div_cancel _ (by omega)
  obtain ⟨pageList, hpage, hlay⟩ := hb.layout.release hfree
  obtain ⟨-, hzones⟩ := hb.zones.pop hfree
  have hrelease : releaseZone s = some
      { s with
        zoneFree := next
        zoneFreeCnt := s.zoneFreeCnt - 1
        memusage := setUsage s z s.zonePageCnt fun _ => ⟨.free, 0⟩
        pageList := pageList } := by
    unfold releaseZone
    rw [hfree]
    dsimp only
    rw [hcnt, hpage]
    rfl
  have hlay' : Layout n table active larges
      { s with
        zoneFree := next
        zoneFreeCnt := s.zoneFreeCnt - 1
        memusage := setUsage s z s.zonePageCnt fun _ => ⟨.free, 0⟩
        pageList := pageList } live := hlay.congr rfl rfl rfl rfl rfl
  have hkeeps := fun p (hp : p ∈ live) => hb.layout.blockSize_eq hlay' rfl hp
    (fun e he _ => he) fun z' hz' _ => ⟨hz', rfl⟩
  refine ⟨_, hrelease, rfl, rfl, ⟨hb.config.congr rfl rfl rfl rfl, hlay',
    hzones.congr rfl rfl rfl rfl rfl, ?_⟩, hkeeps⟩
  exact hb.used.trans (by rw [List.map_congr_left hkeeps])

/-- A zone whose chunks are all free leaves the array. -/
theorem Base.retireZone (hb : Base n table active larges s live) (hz : z ∈ active)
    (hfull : (s.zone z).nfree = (s.zone z).nmax) :
    ∃ s', retireZone s z = some s' ∧ s'.zone = (retired s z).zone ∧
      s'.zoneArray = (retired s z).zoneArray ∧
      Base n table (active.erase z) larges s' live ∧ Keeps s s' live := by
  have hzone := hb.zones.ok z hz
  have hlinked : z ∈ s.zoneArray (s.zone z).zoneindex := by
    have := hzone.two_le
    exact (hb.zones.linked z hz _).mpr ⟨rfl, by omega⟩
  obtain ⟨hbase, hkeeps⟩ := hb.retire hz hfull
  unfold Slab.retireZone
  dsimp only
  rw [if_pos hlinked]
  split
  · obtain ⟨s', hs', hzone', harr, hbase', hkeeps'⟩ := hbase.release rfl
    exact ⟨s', hs', hzone', harr, hbase', hkeeps.trans hkeeps'⟩
  · exact ⟨_, rfl, rfl, rfl, hbase, hkeeps⟩

/-- The zones whose chunks are all free are the same, except for the zone of the freed chunk. -/
theorem freeChunk_full {z' i : Nat} (hne : z' ≠ z) (hmem : z' ∈ (freeChunk s z ptr).zoneArray i)
    (hfull : ((freeChunk s z ptr).zone z').nfree = ((freeChunk s z ptr).zone z').nmax) :
    z' ∈ s.zoneArray i ∧ (s.zone z').nfree = (s.zone z').nmax := by
  unfold freeChunk at hmem hfull
  dsimp only at hmem hfull
  rw [update_of_ne hne] at hfull
  refine ⟨?_, hfull⟩
  split at hmem
  · by_cases hi : i = (s.zone z).zoneindex
    · rw [hi, update_self] at hmem
      rw [hi]
      exact (List.mem_cons.mp hmem).resolve_left hne
    · rwa [update_of_ne hi] at hmem
  · exact hmem

theorem Ok.freeSmall (hok : Ok n table active larges s (ptr :: live)) (hz : z ∈ active)
    (hin : inZone s.zonePageCnt z ptr = true) :
    ∃ s', (if ((freeChunk s z ptr).zone z).nfree = ((freeChunk s z ptr).zone z).nmax ∧
          (freeChunk s z ptr).zoneArray ((freeChunk s z ptr).zone z).zoneindex ≠ [z] then
        retireZone (freeChunk s z ptr) z
      else some (freeChunk s z ptr)) = some s' ∧ Keeps s s' live ∧
      ∃ active larges, Ok n table active larges s' live := by
  obtain ⟨hbase, hkeeps⟩ := hok.toBase.freeChunk hz hin
  have hlink := hbase.zones.linked z hz
  split
  case isTrue hcond =>
    obtain ⟨s', hs', hzone, harr, hb', hkeeps'⟩ := hbase.retireZone hz hcond.1
    refine ⟨s', hs', hkeeps.trans hkeeps', active.erase z, larges, hb', hok.retained.mono fun i z' hz' hfull => ?_⟩
    rw [harr] at hz'
    have hne : z' ≠ z := by
      rintro rfl
      have hmem := hb'.zones.array_mem i z' (harr ▸ hz')
      exact (List.nodup_append.mp hbase.zones.nodup).1.not_mem_erase hmem
    rw [hzone] at hfull
    unfold retired at hfull
    dsimp only at hfull
    rw [update_of_ne hne] at hfull
    exact freeChunk_full hne (mem_retired_zoneArray hz') hfull
  case isFalse hcond =>
    refine ⟨_, rfl, hkeeps, active, larges, hbase, fun i z₁ h₁ z₂ h₂ hfull₁ hfull₂ => ?_⟩
    by_cases hz₁ : z₁ = z
    · have hi := ((hlink i).mp (hz₁ ▸ h₁)).1
      have honly : (Slab.freeChunk s z ptr).zoneArray i = [z] := by
        by_contra hne
        exact hcond ⟨hz₁ ▸ hfull₁, hi ▸ hne⟩
      rw [honly] at h₂
      rw [hz₁, List.mem_singleton.mp h₂]
    · by_cases hz₂ : z₂ = z
      · have hi := ((hlink i).mp (hz₂ ▸ h₂)).1
        have honly : (Slab.freeChunk s z ptr).zoneArray i = [z] := by
          by_contra hne
          exact hcond ⟨hz₂ ▸ hfull₂, hi ▸ hne⟩
        rw [honly] at h₁
        exact absurd (List.mem_singleton.mp h₁) hz₁
      · obtain ⟨h₃, h₄⟩ := freeChunk_full hz₁ h₁ hfull₁
        obtain ⟨h₅, h₆⟩ := freeChunk_full hz₂ h₂ hfull₂
        exact hok.retained i z₁ h₃ z₂ h₅ h₄ h₆

theorem Layout.ne_zero (hl : Layout n table active larges s live) (hp : ptr ∈ live) :
    ptr ≠ 0 := by
  rintro rfl
  have hpos := hl.pages.start_pos
  obtain ⟨e, he, heq⟩ | ⟨z, hz, hin⟩ := hl.home 0 hp
  · have := hl.heapStart_le_large he
    omega
  · have hzone := inZone_iff.mp hin
    have := hl.heapStart_le_zone (List.mem_append_left s.zoneFree hz) (i := 0) (by omega)
    have hpage : pageOf 0 = 0 := rfl
    omega

/-- Every live pointer can be freed. -/
theorem Ok.free (hok : Ok n table active larges s (ptr :: live)) :
    ∃ s', rtSlabFree s ptr = some s' ∧ Keeps s s' live ∧
      ∃ active larges, Ok n table active larges s' live := by
  have hmem : ptr ∈ ptr :: live := List.mem_cons_self
  unfold rtSlabFree
  rw [if_neg (hok.layout.ne_zero hmem)]
  obtain ⟨e, he, heq⟩ | ⟨z, hz, hin⟩ := hok.layout.home ptr hmem
  · have hkup : btokup s (pageOf ptr) = ⟨.large, e.page⟩ := by
      rw [heq, pageOf_mul]
      exact hok.layout.large e he
    rw [hkup, if_pos rfl]
    exact hok.freeLarge he heq
  · have hkup := hok.layout.btokup_zone (List.mem_append_left _ hz) hin
    have hz' : pageOf ptr - (pageOf ptr - z) = z := by
      have := (inZone_iff.mp hin).1
      omega
    rw [hkup]
    dsimp only
    rw [if_neg (by decide), hz', if_pos (hok.zones.ok z hz).magic]
    exact hok.freeSmall hz hin

/-! ## Reallocation -/

/-- What a reallocation of the live block `ptr` to `size` bytes does: it fails and keeps the live
blocks, frees the block for a size of 0, or hands out a block that is large enough in its place. -/
def Reallocates (n : Nat) (table : RtSlabPage) (live : List Nat) (ptr size : Nat)
    (r : RtSlab × Option Nat) : Prop :=
  match r.2 with
  | none => ∃ active larges,
    Ok n table active larges r.1 (if size = 0 then live else ptr :: live)
  | some nptr => size ≤ blockSize r.1 nptr ∧ (nptr = ptr ∨ nptr ∉ ptr :: live) ∧
    ∃ active larges, Ok n table active larges r.1 (nptr :: live)

/-- A block of `bytes` bytes is allocated, and the old one freed. -/
theorem Ok.move (hok : Ok n table active larges s (ptr :: live)) {size bytes : Nat}
    (hpos : size ≠ 0) (hle : size ≤ bytes) (hbytes : bytes < 2 ^ 32) :
    ∃ r, ((rtSlabAlloc s bytes).bind fun r =>
        match r.2 with
        | none => some (r.1, none)
        | some nptr => (rtSlabFree r.1 ptr).map fun slab => (slab, some nptr)) = some r ∧
      Reallocates n table live ptr size r := by
  obtain ⟨⟨s', nptr⟩, hr, hall⟩ := hok.alloc hbytes
  rw [hr, Option.bind_some]
  cases nptr with
  | none =>
    refine ⟨_, rfl, ?_⟩
    unfold Reallocates
    rw [if_neg hpos]
    exact hall
  | some nptr =>
    obtain ⟨hsize, hnew, active', larges', hok'⟩ := hall
    obtain ⟨s'', hfree, hkeeps, hok''⟩ := (hok'.perm (List.Perm.swap _ _ _)).free
    dsimp only at hsize hnew hfree ⊢
    rw [hfree]
    refine ⟨_, rfl, ?_, .inr hnew, hok''⟩
    rw [hkeeps nptr List.mem_cons_self]
    exact Nat.le_trans hle hsize

theorem zoneindex_lt {size : Nat} (hpos : size ≠ 0) (hsize : size < 2 ^ 32) :
    size ≤ (zoneindex size).2 ∧ (zoneindex size).2 < 2 ^ 32 := by
  by_cases hlt : size < 16384
  · have hz := zoneindex_spec (by omega) hlt
    have := hz.le_limit
    exact ⟨hz.le_size, by omega⟩
  · rw [zoneindex_large (by omega)]
    exact ⟨Nat.le_refl _, hsize⟩

theorem Ok.realloc (hok : Ok n table active larges s (ptr :: live)) {size : Nat}
    (hsize : size < 2 ^ 32) :
    ∃ r, rtSlabRealloc s ptr size = some r ∧ Reallocates n table live ptr size r := by
  have hmem : ptr ∈ ptr :: live := List.mem_cons_self
  unfold rtSlabRealloc
  rw [if_neg (hok.layout.ne_zero hmem)]
  split
  case isTrue hzero =>
    obtain ⟨s', hs', -, hok'⟩ := hok.free
    rw [hs']
    refine ⟨_, rfl, ?_⟩
    unfold Reallocates
    rw [if_pos hzero]
    exact hok'
  case isFalse hpos =>
    obtain ⟨e, he, heq⟩ | ⟨z, hz, hin⟩ := hok.layout.home ptr hmem
    · have hkup : btokup s (pageOf ptr) = ⟨.large, e.page⟩ := by
        rw [heq, pageOf_mul]
        exact hok.layout.large e he
      rw [hkup]
      exact hok.move hpos (Nat.le_refl _) hsize
    · have hkup := hok.layout.btokup_zone (List.mem_append_left _ hz) hin
      have hz' : pageOf ptr - (pageOf ptr - z) = z := by
        have := (inZone_iff.mp hin).1
        omega
      obtain ⟨hle, hlt⟩ := zoneindex_lt hpos hsize
      rw [hkup]
      dsimp only
      rw [hz', if_pos (hok.zones.ok z hz).magic]
      split
      case isTrue hsame =>
        refine ⟨_, rfl, ?_, .inl rfl, active, larges, hok⟩
        rw [hok.layout.blockSize_zone hz hin, hsame]
        exact hle
      case isFalse => exact hok.move hpos hle hlt

end RtThread.Slab
