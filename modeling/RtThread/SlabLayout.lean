import RtThread.SlabZones

/-!
# The layout of the slab allocator

The pages that are handed out are those of the table, of the large allocations and
of the zones. The table gives for every page of a zone its place in the zone, and for
the first page of a large allocation its number of pages. Every live pointer is the
first address of a large allocation or lies in a zone that is in use.
-/
namespace RtThread.Slab

variable {n z ptr a npages p : Nat} {table e e' : RtSlabPage} {larges larges' : List RtSlabPage}
  {active active' live live' : List Nat} {s s' : RtSlab}

def zoneExtent (cnt z : Nat) : RtSlabPage := ⟨z, cnt⟩

/-- The layout of the pages of the region. -/
structure Layout (n : Nat) (table : RtSlabPage) (active : List Nat) (larges : List RtSlabPage)
    (s : RtSlab) (live : List Nat) : Prop where
  pages : PagesOk s.heapStart n s.pageList
    (table :: (larges ++ (active ++ s.zoneFree).map (zoneExtent s.zonePageCnt)))
  small : ∀ z ∈ active ++ s.zoneFree, ∀ i, i < s.zonePageCnt → btokup s (z + i) = ⟨.small, i⟩
  large : ∀ e ∈ larges, btokup s e.addr = ⟨.large, e.page⟩
  home : ∀ p ∈ live, (∃ e ∈ larges, p = e.addr * 4096) ∨
    ∃ z ∈ active, inZone s.zonePageCnt z p = true
  nodup : live.Nodup

@[simp] theorem pageOf_mul (a : Nat) : pageOf (a * 4096) = a := Nat.mul_div_cancel a (by omega)

instance : Std.Symm fun a b : RtSlabPage => ∀ p, a.Covers p → ¬ b.Covers p :=
  ⟨fun _ _ h p h₁ h₂ => h p h₂ h₁⟩

namespace Layout

section

variable (hl : Layout n table active larges s live)
include hl

theorem perm (hlarges : larges.Perm larges')
    (hlive : live.Perm live') : Layout n table active larges' s live' where
  pages := hl.pages.perm ((hlarges.append_right _).cons table)
  small := hl.small
  large e he := hl.large e (hlarges.mem_iff.mpr he)
  home p hp := by
    obtain ⟨e, he, heq⟩ | hz := hl.home p (hlive.mem_iff.mpr hp)
    · exact .inl ⟨e, hlarges.mem_iff.mp he, heq⟩
    · exact .inr hz
  nodup := hlive.nodup_iff.mp hl.nodup

/-! ## The extents are apart -/

theorem disjoint : (larges ++ (active ++ s.zoneFree).map (zoneExtent s.zonePageCnt)).Pairwise
      fun a b => ∀ p, a.Covers p → ¬ b.Covers p :=
  (List.pairwise_cons.mp (List.pairwise_append.mp hl.pages.disjoint).2.1).2

theorem large_zone (he : e ∈ larges)
    (hz : z ∈ active ++ s.zoneFree) (hp : e.Covers p) : ¬ (z ≤ p ∧ p < z + s.zonePageCnt) :=
  (List.pairwise_append.mp hl.disjoint).2.2 e he _ (List.mem_map_of_mem hz) p hp

theorem large_large (he : e ∈ larges)
    (he' : e' ∈ larges) (hne : e ≠ e') (hp : e.Covers p) : ¬ e'.Covers p :=
  (List.pairwise_append.mp hl.disjoint).1.forall he he' hne p hp

theorem zone_zone {z' : Nat}
    (hz : z ∈ active ++ s.zoneFree) (hz' : z' ∈ active ++ s.zoneFree) (hne : z ≠ z')
    (hp : z ≤ p ∧ p < z + s.zonePageCnt) : ¬ (z' ≤ p ∧ p < z' + s.zonePageCnt) := by
  have hne' : zoneExtent s.zonePageCnt z ≠ zoneExtent s.zonePageCnt z' :=
    fun heq => hne (congrArg RtSlabPage.addr heq)
  exact (List.pairwise_append.mp hl.disjoint).2.1.forall (List.mem_map_of_mem hz)
    (List.mem_map_of_mem hz') hne' p hp

theorem inZone_unique {z' : Nat} (hz : z ∈ active) (hz' : z' ∈ active) (hne : z' ≠ z)
    (hin : inZone s.zonePageCnt z ptr = true) : inZone s.zonePageCnt z' ptr = false := by
  rw [← Bool.not_eq_true, inZone_iff]
  exact hl.zone_zone (List.mem_append_left _ hz) (List.mem_append_left _ hz') hne.symm
    (inZone_iff.mp hin)

theorem large_pos (he : e ∈ larges) : 0 < e.page :=
  hl.pages.live_pos e (List.mem_cons_of_mem _ (List.mem_append_left _ he))

theorem covers_addr (he : e ∈ larges) : e.Covers e.addr := by
  have := hl.large_pos he
  exact ⟨Nat.le_refl _, by omega⟩

theorem large_outside (he : e ∈ larges)
    (hz : z ∈ active ++ s.zoneFree) : inZone s.zonePageCnt z (e.addr * 4096) = false := by
  rw [← Bool.not_eq_true, inZone_iff, pageOf_mul]
  exact hl.large_zone he hz (hl.covers_addr he)

/-- Pages that are handed out lie in the region. -/
theorem heapStart_le
    (he : e ∈ larges ++ (active ++ s.zoneFree).map (zoneExtent s.zonePageCnt)) (hp : e.Covers p) :
    s.heapStart ≤ p :=
  ((hl.pages.region p).mpr (.inr ⟨e, List.mem_cons_of_mem _ he, hp⟩)).1

theorem heapStart_le_large (he : e ∈ larges) : s.heapStart ≤ e.addr :=
  hl.heapStart_le (List.mem_append_left _ he) (hl.covers_addr he)

theorem heapStart_le_zone
    (hz : z ∈ active ++ s.zoneFree) {i : Nat} (hi : i < s.zonePageCnt) : s.heapStart ≤ z + i :=
  hl.heapStart_le (List.mem_append_right _ (List.mem_map_of_mem hz))
    (show (zoneExtent s.zonePageCnt z).Covers (z + i) from
      ⟨Nat.le_add_right z i, Nat.add_lt_add_left hi z⟩)

/-! ## The sizes of the live blocks -/

theorem btokup_zone (hz : z ∈ active ++ s.zoneFree) (hin : inZone s.zonePageCnt z ptr = true) :
    btokup s (pageOf ptr) = ⟨.small, pageOf ptr - z⟩ := by
  obtain ⟨h₁, h₂⟩ := inZone_iff.mp hin
  have := hl.small z hz (pageOf ptr - z) (by omega)
  rwa [Nat.add_sub_cancel' h₁] at this

end

end Layout

/-- The size of the block at a live pointer, as the table and the header of the zone give it. -/
def blockSize (s : RtSlab) (ptr : Nat) : Nat :=
  let kup := btokup s (pageOf ptr)
  match kup.type with
  | .large => kup.size * 4096
  | .small => (s.zone (pageOf ptr - kup.size)).chunksize
  | .free => 0

namespace Layout

section

variable (hl : Layout n table active larges s live)
include hl

theorem blockSize_large (he : e ∈ larges) : blockSize s (e.addr * 4096) = e.page * 4096 := by
  unfold blockSize
  rw [pageOf_mul, hl.large e he]

theorem blockSize_zone (hz : z ∈ active)
    (hin : inZone s.zonePageCnt z ptr = true) : blockSize s ptr = (s.zone z).chunksize := by
  have h₁ := (inZone_iff.mp hin).1
  unfold blockSize
  rw [hl.btokup_zone (List.mem_append_left _ hz) hin]
  dsimp only
  rw [show pageOf ptr - (pageOf ptr - z) = z by omega]

/-- A step that keeps the home of a live pointer keeps the size of its block. -/
theorem blockSize_eq
    (hl' : Layout n table active' larges' s' live') (hcnt : s'.zonePageCnt = s.zonePageCnt)
    (hp : ptr ∈ live) (hlarge : ∀ e ∈ larges, ptr = e.addr * 4096 → e ∈ larges')
    (hzone : ∀ z ∈ active, inZone s.zonePageCnt z ptr = true →
      z ∈ active' ∧ (s'.zone z).chunksize = (s.zone z).chunksize) :
    blockSize s' ptr = blockSize s ptr := by
  obtain ⟨e, he, heq⟩ | ⟨z, hz, hin⟩ := hl.home ptr hp
  · have he' := hlarge e he heq
    rw [heq, hl.blockSize_large he, hl'.blockSize_large he']
  · obtain ⟨hz', hsize⟩ := hzone z hz hin
    rw [hl.blockSize_zone hz hin, hl'.blockSize_zone hz' (hcnt ▸ hin), hsize]

theorem congr (hstart : s'.heapStart = s.heapStart)
    (hlist : s'.pageList = s.pageList) (husage : s'.memusage = s.memusage)
    (hfree : s'.zoneFree = s.zoneFree) (hcnt : s'.zonePageCnt = s.zonePageCnt) :
    Layout n table active larges s' live := by
  have hkup : ∀ page, btokup s' page = btokup s page := fun page => by
    rw [btokup, btokup, husage, hstart]
  constructor
  · rw [hstart, hlist, hfree, hcnt]
    exact hl.pages
  · intro z hz i hi
    rw [hfree] at hz
    rw [hcnt] at hi
    rw [hkup]
    exact hl.small z hz i hi
  · intro e he
    rw [hkup]
    exact hl.large e he
  · rw [hcnt]
    exact hl.home
  · exact hl.nodup

/-! ## Chunks -/

theorem cons_chunk (hz : z ∈ active) (hin : inZone s.zonePageCnt z ptr = true) (hnew : ptr ∉ live) :
    Layout n table active larges s (ptr :: live) := by
  refine { hl with home := fun p hp => ?_, nodup := List.nodup_cons.mpr ⟨hnew, hl.nodup⟩ }
  obtain rfl | hp := List.mem_cons.mp hp
  · exact .inr ⟨z, hz, hin⟩
  · exact hl.home p hp

end

theorem tail (hl : Layout n table active larges s (ptr :: live)) :
    Layout n table active larges s live :=
  { hl with
    home := fun p hp => hl.home p (List.mem_cons_of_mem ptr hp)
    nodup := (List.nodup_cons.mp hl.nodup).2 }

/-! ## Large allocations -/

theorem addLarge (hl : Layout n table active larges s live)
    (ha : (rtSlabPageAlloc s.pageList npages).1 = some a) :
    Layout n table active (⟨a, npages⟩ :: larges)
      { s with
        pageList := (rtSlabPageAlloc s.pageList npages).2
        memusage := Function.update s.memusage (a - s.heapStart) ⟨.large, npages⟩ }
      (a * 4096 :: live) := by
  have hpages := (hl.pages.alloc ha).perm (List.Perm.swap _ _ _)
  have hpos : 0 < npages :=
    hpages.live_pos ⟨a, npages⟩ (List.mem_cons_of_mem table List.mem_cons_self)
  have hself : (⟨a, npages⟩ : RtSlabPage).Covers a :=
    ⟨Nat.le_refl a, Nat.lt_add_of_pos_right hpos⟩
  have hdis : ∀ b ∈ larges ++ (active ++ s.zoneFree).map (zoneExtent s.zonePageCnt),
      ¬ b.Covers a := by
    have hpair := (List.pairwise_cons.mp (List.pairwise_append.mp hpages.disjoint).2.1).2
    exact fun b hb => (List.pairwise_cons.mp hpair).1 b hb a hself
  have hstart : s.heapStart ≤ a :=
    ((hpages.region a).mpr
      (.inr ⟨_, List.mem_cons_of_mem table List.mem_cons_self, hself⟩)).1
  have hlarge : ∀ e ∈ larges, e.addr ≠ a := fun e he heq =>
    hdis e (List.mem_append_left _ he) (heq ▸ hl.covers_addr he)
  have hzone : ∀ z ∈ active ++ s.zoneFree, ¬ (z ≤ a ∧ a < z + s.zonePageCnt) := fun z hz =>
    hdis _ (List.mem_append_right _ (List.mem_map_of_mem hz))
  have hkup : ∀ p, s.heapStart ≤ p → p ≠ a → Function.update s.memusage (a - s.heapStart)
      ⟨.large, npages⟩ (p - s.heapStart) = btokup s p := fun p hp hne =>
    Function.update_of_ne (by omega) _ _
  constructor
  · exact hpages
  · intro z hz i hi
    have hne : z + i ≠ a := by
      have := hzone z hz
      dsimp only at hi
      omega
    exact (hkup _ (hl.heapStart_le_zone hz hi) hne).trans (hl.small z hz i hi)
  · intro e he
    obtain rfl | he := List.mem_cons.mp he
    · exact Function.update_self _ _ _
    · exact (hkup _ (hl.heapStart_le_large he) (hlarge e he)).trans (hl.large e he)
  · intro p hp
    obtain rfl | hp := List.mem_cons.mp hp
    · exact .inl ⟨_, List.mem_cons_self, rfl⟩
    · obtain ⟨e, he, heq⟩ | hz := hl.home p hp
      · exact .inl ⟨e, List.mem_cons_of_mem _ he, heq⟩
      · exact .inr hz
  · refine List.nodup_cons.mpr ⟨fun hin => ?_, hl.nodup⟩
    obtain ⟨e, he, heq⟩ | ⟨z, hz, hzin⟩ := hl.home _ hin
    · exact hlarge e he (by omega)
    · rw [inZone_iff, pageOf_mul] at hzin
      exact hzone z (List.mem_append_left _ hz) hzin

theorem removeLarge (hl : Layout n table active (e :: larges) s (e.addr * 4096 :: live))
    (used : Nat) :
    ∃ pageList, rtSlabPageFree s.pageList e.addr e.page = some pageList ∧
      Layout n table active larges
        { s with
          memusage := Function.update s.memusage (e.addr - s.heapStart) ⟨.large, 0⟩
          used := used
          pageList := pageList }
        live := by
  obtain ⟨pageList, hfree, hpages⟩ := (hl.pages.perm (List.Perm.swap _ _ _)).free
  have he : e ∈ e :: larges := List.mem_cons_self
  have hstart := hl.heapStart_le_large he
  have hkup : ∀ p, s.heapStart ≤ p → p ≠ e.addr → Function.update s.memusage
      (e.addr - s.heapStart) ⟨.large, 0⟩ (p - s.heapStart) = btokup s p := fun p hp hne =>
    Function.update_of_ne (by omega) _ _
  have hlarge : ∀ e' ∈ larges, e'.addr ≠ e.addr := by
    have hpair := (List.pairwise_append.mp hl.disjoint).1
    intro e' he' heq
    exact (List.pairwise_cons.mp hpair).1 e' he' e.addr (hl.covers_addr he)
      (heq ▸ hl.covers_addr (List.mem_cons_of_mem e he'))
  refine ⟨pageList, hfree, hpages, ?_, ?_, ?_, (List.nodup_cons.mp hl.nodup).2⟩
  · intro z hz i hi
    have hne : z + i ≠ e.addr := by
      have := hl.large_zone he hz (hl.covers_addr he)
      dsimp only at hi
      omega
    exact (hkup _ (hl.heapStart_le_zone hz hi) hne).trans (hl.small z hz i hi)
  · intro e' he'
    have hin := List.mem_cons_of_mem e he'
    exact (hkup _ (hl.heapStart_le_large hin) (hlarge e' he')).trans (hl.large e' hin)
  · intro p hp
    obtain ⟨e', he', heq⟩ | hz := hl.home p (List.mem_cons_of_mem _ hp)
    · obtain rfl | he' := List.mem_cons.mp he'
      · exact absurd (heq ▸ hp) (List.nodup_cons.mp hl.nodup).1
      · exact .inl ⟨e', he', heq⟩
    · exact .inr hz

/-! ## Zones -/

theorem setUsage_inside {kup : Nat → RtSlabMemusage} {cnt i : Nat} (hz : s.heapStart ≤ z)
    (hi : i < cnt) : setUsage s z cnt kup (z + i - s.heapStart) = kup i := by
  unfold setUsage
  rw [if_pos (by omega), show z + i - s.heapStart - (z - s.heapStart) = i by omega]

theorem setUsage_outside (kup : Nat → RtSlabMemusage) {cnt : Nat} (hz : s.heapStart ≤ z)
    (hp : s.heapStart ≤ p) (hout : ¬ (z ≤ p ∧ p < z + cnt)) :
    setUsage s z cnt kup (p - s.heapStart) = btokup s p := by
  unfold setUsage btokup
  rw [if_neg (by omega)]

section

variable (hl : Layout n table active larges s live)
include hl

theorem addZone (ha : (rtSlabPageAlloc s.pageList s.zonePageCnt).1 = some z) :
    z ∉ active ++ s.zoneFree ∧ live.filter (inZone s.zonePageCnt z) = [] ∧
      Layout n table (z :: active) larges
        { s with
          pageList := (rtSlabPageAlloc s.pageList s.zonePageCnt).2
          memusage := setUsage s z s.zonePageCnt fun off => ⟨.small, off⟩ }
        live := by
  have hpages := hl.pages.alloc ha
  have hpair := List.pairwise_cons.mp (List.pairwise_append.mp hpages.disjoint).2.1
  have hpos : 0 < s.zonePageCnt := hpages.live_pos ⟨z, s.zonePageCnt⟩ List.mem_cons_self
  have hself : (⟨z, s.zonePageCnt⟩ : RtSlabPage).Covers z :=
    ⟨Nat.le_refl z, Nat.lt_add_of_pos_right hpos⟩
  have hdis : ∀ b ∈ larges ++ (active ++ s.zoneFree).map (zoneExtent s.zonePageCnt), ∀ p,
      b.Covers p → ¬ (z ≤ p ∧ p < z + s.zonePageCnt) := fun b hb p hp hin =>
    hpair.1 b (List.mem_cons_of_mem table hb) p hin hp
  have hstart : s.heapStart ≤ z :=
    ((hpages.region z).mpr (.inr ⟨_, List.mem_cons_self, hself⟩)).1
  have hnew : z ∉ active ++ s.zoneFree := fun hin =>
    hdis _ (List.mem_append_right _ (List.mem_map_of_mem hin)) z hself hself
  have hlarge : ∀ e ∈ larges, ¬ (z ≤ e.addr ∧ e.addr < z + s.zonePageCnt) := fun e he =>
    hdis e (List.mem_append_left _ he) e.addr (hl.covers_addr he)
  have hzone : ∀ z' ∈ active ++ s.zoneFree, ∀ p, z' ≤ p ∧ p < z' + s.zonePageCnt →
      ¬ (z ≤ p ∧ p < z + s.zonePageCnt) := fun z' hz' p hp =>
    hdis _ (List.mem_append_right _ (List.mem_map_of_mem hz')) p hp
  refine ⟨hnew, ?_, ?_, ?_, ?_, ?_, hl.nodup⟩
  · refine List.filter_eq_nil_iff.mpr fun p hp hin => ?_
    rw [inZone_iff] at hin
    obtain ⟨e, he, rfl⟩ | ⟨z', hz', hin'⟩ := hl.home p hp
    · rw [pageOf_mul] at hin
      exact hlarge e he hin
    · exact hzone z' (List.mem_append_left _ hz') _ (inZone_iff.mp hin') hin
  · refine hpages.perm ?_
    refine (List.Perm.swap _ _ _).trans ?_
    exact (List.perm_middle.symm).cons table
  · intro z' hz' i hi
    obtain rfl | hz' := List.mem_cons.mp hz'
    · exact setUsage_inside hstart hi
    · exact (setUsage_outside _ hstart (hl.heapStart_le_zone hz' hi)
        (hzone z' hz' _ ⟨Nat.le_add_right _ _, Nat.add_lt_add_left hi _⟩)).trans
          (hl.small z' hz' i hi)
  · intro e he
    exact (setUsage_outside _ hstart (hl.heapStart_le_large he) (hlarge e he)).trans (hl.large e he)
  · intro p hp
    obtain hlg | ⟨z', hz', hin⟩ := hl.home p hp
    · exact .inl hlg
    · exact .inr ⟨z', List.mem_cons_of_mem z hz', hin⟩

/-- A free zone holds no live pointer. -/
theorem filter_free (hz : z ∈ s.zoneFree)
    (hnot : z ∉ active) : live.filter (inZone s.zonePageCnt z) = [] := by
  refine List.filter_eq_nil_iff.mpr fun p hp hin => ?_
  obtain ⟨e, he, rfl⟩ | ⟨z', hz', hin'⟩ := hl.home p hp
  · rw [hl.large_outside he (List.mem_append_right _ hz)] at hin
    exact Bool.false_ne_true hin
  · have hne : z' ≠ z := fun heq => hnot (heq ▸ hz')
    exact hl.zone_zone (List.mem_append_left _ hz') (List.mem_append_right _ hz) hne
      (inZone_iff.mp hin') (inZone_iff.mp hin)

/-- Zones that change between the list of free zones and the zones in use keep their pages. -/
theorem zones_perm {zoneFree : List Nat} (hperm : (active ++ s.zoneFree).Perm (active' ++ zoneFree))
    (hhome : ∀ p ∈ live, ∀ z ∈ active, inZone s.zonePageCnt z p = true → z ∈ active') :
    Layout n table active' larges { s with zoneFree := zoneFree } live := by
  refine ⟨hl.pages.perm (((hperm.map _).append_left larges).cons table),
    fun z hz => hl.small z (hperm.mem_iff.mpr hz), hl.large, fun p hp => ?_, hl.nodup⟩
  obtain hlg | ⟨z, hz, hin⟩ := hl.home p hp
  · exact .inl hlg
  · exact .inr ⟨z, hhome p hp z hz hin, hin⟩

theorem pop {next : List Nat} (hfree : s.zoneFree = z :: next) :
    Layout n table (z :: active) larges { s with zoneFree := next } live := by
  refine hl.zones_perm ?_ fun _ _ _ hz _ => List.mem_cons_of_mem _ hz
  rw [hfree]
  exact List.perm_middle

theorem retire (hz : z ∈ active) (hempty : live.filter (inZone s.zonePageCnt z) = []) :
    Layout n table (active.erase z) larges (retired s z) live := by
  have hlayout : Layout n table (active.erase z) larges { s with zoneFree := z :: s.zoneFree }
      live := by
    refine hl.zones_perm ?_ fun p hp z' hz' hin => ?_
    · exact ((List.perm_cons_erase hz).append_right _).trans List.perm_middle.symm
    · have hne : z' ≠ z := fun heq =>
        List.filter_eq_nil_iff.mp hempty p hp (heq ▸ hin)
      exact (List.mem_erase_of_ne hne).mpr hz'
  exact hlayout.congr rfl rfl rfl rfl rfl

theorem release {next : List Nat} (hfree : s.zoneFree = z :: next) :
    ∃ pageList, rtSlabPageFree s.pageList z s.zonePageCnt = some pageList ∧
      Layout n table active larges
        { s with
          zoneFree := next
          memusage := setUsage s z s.zonePageCnt fun _ => ⟨.free, 0⟩
          pageList := pageList }
        live := by
  have hz : z ∈ active ++ s.zoneFree := by
    rw [hfree]
    exact List.mem_append_right _ List.mem_cons_self
  have hnext : ∀ z' ∈ active ++ next, z' ∈ active ++ s.zoneFree := fun z' hz' => by
    rw [hfree]
    exact List.mem_append.mpr ((List.mem_append.mp hz').imp id (List.mem_cons_of_mem z))
  have hperm : (table :: (larges ++ (active ++ s.zoneFree).map (zoneExtent s.zonePageCnt))).Perm
      (zoneExtent s.zonePageCnt z ::
        table :: (larges ++ (active ++ next).map (zoneExtent s.zonePageCnt))) := by
    rw [hfree]
    refine List.Perm.trans ?_ (List.Perm.swap _ _ _)
    refine List.Perm.cons table (List.Perm.trans ?_ List.perm_middle)
    exact List.Perm.append_left larges (List.perm_middle.map _)
  obtain ⟨pageList, hpage, hpages⟩ := (hl.pages.perm hperm).free
  have hpos : 0 < s.zonePageCnt :=
    hl.pages.live_pos (zoneExtent s.zonePageCnt z)
      (List.mem_cons_of_mem _ (List.mem_append_right _ (List.mem_map_of_mem hz)))
  have hstart : s.heapStart ≤ z := hl.heapStart_le_zone hz hpos
  have hnodup : z ∉ active ++ next := by
    have hdis := (List.pairwise_append.mp (hl.pages.perm hperm).disjoint).2.1
    intro hin
    have hself : (zoneExtent s.zonePageCnt z).Covers z :=
      ⟨Nat.le_refl z, Nat.lt_add_of_pos_right hpos⟩
    exact (List.pairwise_cons.mp hdis).1 (zoneExtent s.zonePageCnt z)
      (List.mem_cons_of_mem _ (List.mem_append_right _ (List.mem_map_of_mem hin))) z hself hself
  refine ⟨pageList, hpage, hpages, ?_, ?_, hl.home, hl.nodup⟩
  · intro z' hz' i hi
    have hin := hnext z' hz'
    have hne : z' ≠ z := fun heq => hnodup (heq ▸ hz')
    have hout := hl.zone_zone hin hz hne ⟨Nat.le_add_right _ _, Nat.add_lt_add_left hi _⟩
    exact (setUsage_outside (fun _ => ⟨.free, 0⟩) hstart (hl.heapStart_le_zone hin hi) hout).trans
      (hl.small z' hin i hi)
  · intro e he
    exact (setUsage_outside (fun _ => ⟨.free, 0⟩) hstart (hl.heapStart_le_large he)
      (hl.large_zone he hz (hl.covers_addr he))).trans (hl.large e he)

end

end Layout

end RtThread.Slab
