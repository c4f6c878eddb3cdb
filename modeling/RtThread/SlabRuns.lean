import RtThread.SlabCalls
import RtThread.Lib.Runs
import Mathlib.Algebra.Order.BigOperators.Group.Finset
import Mathlib.Order.Interval.Finset.Nat

/-!
# Runs of the slab allocator

After every sequence of allocations, reallocations and releases of live blocks the
zones are accounted for, every live pointer is where the table says, the live blocks
do not overlap, and `used` is the sum of their sizes.
-/
namespace RtThread.Slab

variable {n z ptr p q : Nat} {table e e' : RtSlabPage} {larges : List RtSlabPage}
  {active live : List Nat} {h : RtSlabZone} {s : RtSlab}

/-! ## The live blocks do not overlap -/

theorem addr_le_of_disjoint (hpos : 0 < e.page) (hpos' : 0 < e'.page)
    (hdis : ∀ p, e.Covers p → ¬ e'.Covers p) :
    e.addr + e.page ≤ e'.addr ∨ e'.addr + e'.page ≤ e.addr := by
  refine before_or_behind hpos' hpos fun p h₁ h₂ => ?_
  exact if_neg (hdis p ⟨h₁, h₂⟩)

/-- The extent that a live block lies in. -/
structure InExtent (s : RtSlab) (e : RtSlabPage) (p : Nat) : Prop where
  base_le : e.addr * 4096 ≤ p
  fits : p + blockSize s p ≤ (e.addr + e.page) * 4096

theorem Base.chunk_of_inZone (hb : Base n table active larges s live) (hp : p ∈ live)
    (hz : z ∈ active) (hin : inZone s.zonePageCnt z p = true) :
    ∃ i, i ≤ (s.zone z).uindex ∧ p = chunkAt (s.zone z) i :=
  (hb.zones.ok z hz).mem_live (List.mem_filter.mpr ⟨hp, hin⟩)

theorem Base.inExtent_large (hb : Base n table active larges s live) (he : e ∈ larges) :
    InExtent s e (e.addr * 4096) := by
  refine ⟨Nat.le_refl _, ?_⟩
  rw [hb.layout.blockSize_large he, Nat.add_mul]

theorem Base.inExtent_zone (hb : Base n table active larges s live) (hp : p ∈ live)
    (hz : z ∈ active) (hin : inZone s.zonePageCnt z p = true) :
    InExtent s (zoneExtent s.zonePageCnt z) p := by
  obtain ⟨i, hi, heq⟩ := hb.chunk_of_inZone hp hz hin
  have hzone := hb.zones.ok z hz
  obtain ⟨h₁, h₂⟩ := hzone.chunk_bounds (Nat.lt_of_le_of_lt hi hzone.uindex_lt)
  rw [← heq] at h₁ h₂
  refine ⟨h₁, ?_⟩
  rw [hb.layout.blockSize_zone hz hin]
  exact h₂

/-- The byte ranges of two blocks. -/
def BlocksApart (s : RtSlab) (p q : Nat) : Prop :=
  p + blockSize s p ≤ q ∨ q + blockSize s q ≤ p

theorem InExtent.apart (hp : InExtent s e p) (hq : InExtent s e' q)
    (hord : e.addr + e.page ≤ e'.addr ∨ e'.addr + e'.page ≤ e.addr) : BlocksApart s p q := by
  have h₁ := hp.base_le
  have h₂ := hp.fits
  have h₃ := hq.base_le
  have h₄ := hq.fits
  obtain hle | hle := hord
  · exact .inl (Nat.le_trans h₂ (Nat.le_trans (Nat.mul_le_mul_right _ hle) h₃))
  · exact .inr (Nat.le_trans h₄ (Nat.le_trans (Nat.mul_le_mul_right _ hle) h₁))

theorem Base.zoneExtent_pos (hb : Base n table active larges s live) :
    0 < (zoneExtent s.zonePageCnt z).page := by
  have h₁ := hb.config.limit
  have h₂ := hb.config.room
  have h₃ := hb.config.zoneSize_eq
  show 0 < s.zonePageCnt
  omega

/-- Two chunks of one zone. -/
theorem chunks_apart {i j : Nat} (hij : i < j) :
    chunkAt h i + h.chunksize ≤ chunkAt h j := by
  have := Nat.mul_le_mul_right h.chunksize (Nat.succ_le_of_lt hij)
  rw [Nat.succ_mul] at this
  unfold chunkAt
  omega

theorem Base.blocks_apart (hb : Base n table active larges s live) (hp : p ∈ live) (hq : q ∈ live)
    (hne : p ≠ q) : BlocksApart s p q := by
  obtain ⟨e, he, rfl⟩ | ⟨z, hz, hin⟩ := hb.layout.home p hp
  · obtain ⟨e', he', rfl⟩ | ⟨z', hz', hin'⟩ := hb.layout.home q hq
    · have hee : e ≠ e' := fun heq => hne (by rw [heq])
      exact (hb.inExtent_large he).apart (hb.inExtent_large he')
        (addr_le_of_disjoint (hb.layout.large_pos he) (hb.layout.large_pos he')
          fun _ hc => hb.layout.large_large he he' hee hc)
    · exact (hb.inExtent_large he).apart (hb.inExtent_zone hq hz' hin')
        (addr_le_of_disjoint (hb.layout.large_pos he) hb.zoneExtent_pos
          fun _ hc => hb.layout.large_zone he (List.mem_append_left _ hz') hc)
  · obtain ⟨e', he', rfl⟩ | ⟨z', hz', hin'⟩ := hb.layout.home q hq
    · exact (hb.inExtent_zone hp hz hin).apart (hb.inExtent_large he')
        (addr_le_of_disjoint hb.zoneExtent_pos (hb.layout.large_pos he')
          fun _ hc hc' => hb.layout.large_zone he' (List.mem_append_left _ hz) hc' hc)
    · by_cases hzz : z = z'
      · subst hzz
        obtain ⟨i, -, hi⟩ := hb.chunk_of_inZone hp hz hin
        obtain ⟨j, -, hj⟩ := hb.chunk_of_inZone hq hz hin'
        unfold BlocksApart
        rw [hb.layout.blockSize_zone hz hin, hb.layout.blockSize_zone hz hin', hi, hj]
        have hij : i ≠ j := fun heq => hne (by rw [hi, hj, heq])
        obtain hlt | hgt := Nat.lt_or_gt_of_ne hij
        · exact .inl (chunks_apart hlt)
        · exact .inr (chunks_apart hgt)
      · exact (hb.inExtent_zone hp hz hin).apart (hb.inExtent_zone hq hz' hin')
          (addr_le_of_disjoint hb.zoneExtent_pos hb.zoneExtent_pos fun _ hc =>
            hb.layout.zone_zone (List.mem_append_left _ hz) (List.mem_append_left _ hz') hzz hc)

/-! ## The live blocks fit into the region -/

theorem Layout.extent_le (hl : Layout n table active larges s live)
    (he : e ∈ larges ++ (active ++ s.zoneFree).map (zoneExtent s.zonePageCnt)) :
    s.heapStart ≤ e.addr ∧ e.addr + e.page ≤ s.heapStart + n := by
  have hpos := hl.pages.live_pos e (List.mem_cons_of_mem _ he)
  have hin : ∀ p, e.Covers p → s.heapStart ≤ p ∧ p < s.heapStart + n := fun p hp =>
    (hl.pages.region p).mpr (.inr ⟨e, List.mem_cons_of_mem _ he, hp⟩)
  have h₁ := hin e.addr ⟨Nat.le_refl _, by omega⟩
  have h₂ := hin (e.addr + e.page - 1) ⟨by omega, by omega⟩
  omega

theorem Base.block_le (hb : Base n table active larges s live) (hp : p ∈ live) :
    s.heapStart * 4096 ≤ p ∧ p + blockSize s p ≤ (s.heapStart + n) * 4096 := by
  have hext : ∃ e ∈ larges ++ (active ++ s.zoneFree).map (zoneExtent s.zonePageCnt),
      InExtent s e p := by
    obtain ⟨e, he, rfl⟩ | ⟨z, hz, hin⟩ := hb.layout.home p hp
    · exact ⟨e, List.mem_append_left _ he, hb.inExtent_large he⟩
    · exact ⟨_, List.mem_append_right _ (List.mem_map_of_mem (List.mem_append_left _ hz)),
        hb.inExtent_zone hp hz hin⟩
  obtain ⟨e, he, hin⟩ := hext
  obtain ⟨h₁, h₂⟩ := hb.layout.extent_le he
  exact ⟨Nat.le_trans (Nat.mul_le_mul_right _ h₁) hin.base_le,
    Nat.le_trans hin.fits (Nat.mul_le_mul_right _ h₂)⟩

/-- Ranges that do not overlap have no more elements than an interval around them. -/
theorem sum_le_of_apart {size : Nat → Nat} {a b : Nat} {l : List Nat} (hnd : l.Nodup)
    (hin : ∀ p ∈ l, a ≤ p ∧ p + size p ≤ b)
    (hap : ∀ p ∈ l, ∀ q ∈ l, p ≠ q → p + size p ≤ q ∨ q + size q ≤ p) :
    (l.map size).sum ≤ b - a := by
  have hcard : (l.toFinset.biUnion fun p => Finset.Ico p (p + size p)).card =
      (l.map size).sum := by
    rw [Finset.card_biUnion, ← List.sum_toFinset _ hnd]
    · exact Finset.sum_congr rfl fun p _ => by rw [Nat.card_Ico, Nat.add_sub_cancel_left]
    · intro p hp q hq hne
      refine Finset.disjoint_left.mpr fun x hx hx' => ?_
      rw [Finset.mem_Ico] at hx hx'
      have := hap p (List.mem_toFinset.mp (Finset.mem_coe.mp hp)) q
        (List.mem_toFinset.mp (Finset.mem_coe.mp hq)) hne
      omega
  rw [← hcard, ← Nat.card_Ico]
  refine Finset.card_le_card fun x hx => ?_
  obtain ⟨p, hp, hx⟩ := Finset.mem_biUnion.mp hx
  have := hin p (List.mem_toFinset.mp hp)
  rw [Finset.mem_Ico] at hx ⊢
  omega

/-- The statistics does not wrap. -/
theorem Base.used_eq (hb : Base n table active larges s live) :
    s.used = (live.map (blockSize s)).sum := by
  have hsum : (live.map (blockSize s)).sum ≤ (s.heapStart + n) * 4096 - s.heapStart * 4096 :=
    sum_le_of_apart hb.layout.nodup (fun p hp => hb.block_le hp)
      fun p hp q hq hne => hb.blocks_apart hp hq hne
  have hpos := hb.layout.pages.start_pos
  have hregion := hb.config.region
  rw [hb.used]
  exact Nat.mod_eq_of_lt (by omega)

/-! ## Initialisation -/

/-- The zone sizes that the loop of `rt_slab_init` can end with. -/
theorem zoneSizeFor_cases (limsize : Nat) :
    zoneSizeFor limsize 2 (32 * 1024) = 32 * 1024 ∨ zoneSizeFor limsize 2 (32 * 1024) = 64 * 1024 ∨
      zoneSizeFor limsize 2 (32 * 1024) = 128 * 1024 := by
  unfold zoneSizeFor
  split
  · unfold zoneSizeFor
    split
    · exact .inr (.inr rfl)
    · exact .inr (.inl rfl)
  · exact .inl rfl

/-- The table of a region of at least one page fits into the region. -/
theorem table_le {npages : Nat} (hpos : 0 < npages) (hle : npages * 4096 ≤ 2 ^ 32) :
    rtAlign 32 (npages * 4) 4096 / 4096 ≠ 0 ∧ rtAlign 32 (npages * 4) 4096 / 4096 ≤ npages := by
  unfold rtAlign
  omega

/-- A slab without zones and without live blocks. -/
theorem Ok.initial (hconfig : Config n s) (hpages : PagesOk s.heapStart n s.pageList [table])
    (harr : ∀ i, s.zoneArray i = []) (hfree : s.zoneFree = []) (hcnt : s.zoneFreeCnt = 0)
    (hused : s.used = 0) : Ok n table [] [] s [] := by
  have hnot : ∀ i, ∀ z, z ∉ s.zoneArray i := fun i z hz => by
    rw [harr i] at hz
    exact List.not_mem_nil hz
  refine ⟨⟨hconfig, ⟨?_, ?_, ?_, ?_, List.nodup_nil⟩, ⟨?_, ?_, ?_, ?_, ?_, ?_, ?_⟩, hused⟩,
    fun i z hz => absurd hz (hnot i z)⟩
  · rw [hfree]
    exact hpages
  · rw [hfree]
    exact fun z hz => absurd hz List.not_mem_nil
  · exact fun e he => absurd he List.not_mem_nil
  · exact fun p hp => absurd hp List.not_mem_nil
  · rw [hfree]
    exact List.nodup_nil
  · exact fun z hz => absurd hz List.not_mem_nil
  · exact fun z hz => absurd hz List.not_mem_nil
  · exact fun i z hz => absurd hz (hnot i z)
  · exact fun i => harr i ▸ List.nodup_nil
  · rw [hfree]
    exact fun z hz => absurd hz List.not_mem_nil
  · rw [hfree, hcnt]
    rfl

theorem rtSlabInit_ok {align objSize beginAddr size : Nat} {zone : Nat → RtSlabZone}
    {memusage : Nat → RtSlabMemusage}
    (hinit : rtSlabInit align objSize beginAddr size zone memusage = some s) :
    ∃ n table, Ok n table [] [] s [] := by
  unfold rtSlabInit at hinit
  dsimp only at hinit
  split at hinit
  · exact absurd hinit.symm (Option.some_ne_none s)
  case isFalse hlt =>
    obtain ⟨pageList, hpage, hs⟩ := Option.bind_eq_some_iff.mp hinit
    have hbegin : 4096 ∣ rtAlign 32 (wadd 32 (rtAlign 32 beginAddr align) objSize) 4096 :=
      dvd_rtAlign _ _ _
    have hend : 4096 ∣ rtAlignDown (wadd 32 beginAddr size) 4096 := Dvd.intro_left _ rfl
    have hword : rtAlignDown (wadd 32 beginAddr size) 4096 ≤ 2 ^ 32 :=
      Nat.le_trans (Nat.div_mul_le_self _ _) (Nat.le_of_lt (Nat.mod_lt _ (by decide)))
    generalize rtAlign 32 (wadd 32 (rtAlign 32 beginAddr align) objSize) 4096 = first
      at hbegin hlt hpage hs
    generalize rtAlignDown (wadd 32 beginAddr size) 4096 = last at hend hword hlt hpage hs
    obtain ⟨start, rfl⟩ := hbegin
    obtain ⟨stop, rfl⟩ := hend
    have hstart : 4096 * start / 4096 = start := by omega
    have hpages : (4096 * stop - 4096 * start) / 4096 = stop - start := by omega
    rw [hstart, hpages] at hpage hs
    obtain ⟨hlist, hpos, hok₀⟩ := rtSlabPageInit_some hpage
    obtain ⟨htable, hle⟩ := table_le hpos (by omega)
    have halloc : (rtSlabPageAlloc pageList (rtAlign 32 ((stop - start) * 4) 4096 / 4096)).1 ≠
        none := by
      intro hnone
      obtain hzero | hall := rtSlabPageAlloc_eq_none.mp hnone
      · exact htable hzero
      · rw [hlist] at hall
        exact Nat.not_lt_of_le hle (hall _ (List.mem_singleton_self _))
    obtain ⟨a, ha⟩ := Option.ne_none_iff_exists'.mp halloc
    have hsize := zoneSizeFor_cases (4096 * stop - 4096 * start)
    generalize zoneSizeFor (4096 * stop - 4096 * start) 2 (32 * 1024) = zoneSize at hsize hs
    cases hs
    refine ⟨stop - start, _, Ok.initial ⟨?_, ?_, ?_, ?_, ?_⟩ (hok₀.alloc ha) (fun _ => rfl) rfl rfl
      rfl⟩
    · dsimp only
      omega
    · dsimp only
      omega
    · dsimp only
      split <;> omega
    · dsimp only
      split <;> omega
    · dsimp only
      omega

/-! ## Runs -/

/-- The allocator and the live pointers. -/
structure SlabState where
  slab : RtSlab
  live : List Nat

inductive SlabOp where
  | alloc (size : Nat)
  | realloc (ptr size : Nat)
  | free (ptr : Nat)
  deriving DecidableEq

/-- The live pointers after a reallocation. -/
def liveAfter (live : List Nat) (ptr size : Nat) : Option Nat → List Nat
  | none => if size = 0 then live.erase ptr else live
  | some nptr => nptr :: live.erase ptr

def slabStep (t : SlabState) : SlabOp → Option SlabState
  | .alloc size => (rtSlabAlloc t.slab size).map fun r => ⟨r.1, r.2.toList ++ t.live⟩
  | .realloc ptr size =>
    (rtSlabRealloc t.slab ptr size).map fun r => ⟨r.1, liveAfter t.live ptr size r.2⟩
  | .free ptr => (rtSlabFree t.slab ptr).map fun slab => ⟨slab, t.live.erase ptr⟩

/-- Sizes are words, and pointers are null or live. -/
def OnLive (t : SlabState) : SlabOp → Prop
  | .alloc size => size < 2 ^ 32
  | .realloc ptr size => size < 2 ^ 32 ∧ (ptr = 0 ∨ ptr ∈ t.live)
  | .free ptr => ptr = 0 ∨ ptr ∈ t.live

instance (t : SlabState) (op : SlabOp) : Decidable (OnLive t op) :=
  match op with
  | .alloc size => inferInstanceAs (Decidable (size < 2 ^ 32))
  | .realloc ptr size => inferInstanceAs (Decidable (size < 2 ^ 32 ∧ (ptr = 0 ∨ ptr ∈ t.live)))
  | .free ptr => inferInstanceAs (Decidable (ptr = 0 ∨ ptr ∈ t.live))

def Inv (n : Nat) (table : RtSlabPage) (t : SlabState) : Prop :=
  ∃ active larges, Ok n table active larges t.slab t.live

theorem slabStep_inv {t : SlabState} {op : SlabOp} (ht : Inv n table t) (hop : OnLive t op) :
    ∃ t', slabStep t op = some t' ∧ Inv n table t' := by
  obtain ⟨active, larges, hok⟩ := ht
  have hzero : (0 : Nat) ∉ t.live := fun hin => hok.layout.ne_zero hin rfl
  have halloc : ∀ size, size < 2 ^ 32 → ∃ r, rtSlabAlloc t.slab size = some r ∧
      Inv n table ⟨r.1, r.2.toList ++ t.live⟩ := by
    intro size hsize
    obtain ⟨⟨s', ptr⟩, hr, hall⟩ := hok.alloc hsize
    refine ⟨_, hr, ?_⟩
    cases ptr with
    | none => exact hall
    | some ptr => exact hall.2.2
  cases op with
  | alloc size =>
    obtain ⟨r, hr, hinv⟩ := halloc size hop
    exact ⟨_, by rw [slabStep, hr]; rfl, hinv⟩
  | realloc ptr size =>
    obtain ⟨hsize, rfl | hptr⟩ := hop
    · obtain ⟨⟨s', p⟩, hr, hinv⟩ := halloc size hsize
      refine ⟨_, by rw [slabStep, rtSlabRealloc, if_pos rfl, hr]; rfl, ?_⟩
      have hlive : liveAfter t.live 0 size p = p.toList ++ t.live := by
        unfold liveAfter
        rw [List.erase_of_not_mem hzero]
        cases p with
        | none => exact ite_self _
        | some p => rfl
      dsimp only
      rw [hlive]
      exact hinv
    · obtain ⟨⟨s', p⟩, hr, hre⟩ := (hok.perm (List.perm_cons_erase hptr)).realloc hsize
      refine ⟨_, by rw [slabStep, hr]; rfl, ?_⟩
      cases p with
      | none =>
        obtain ⟨active', larges', hok'⟩ := hre
        refine ⟨active', larges', ?_⟩
        unfold liveAfter
        dsimp only at hok' ⊢
        split at hok'
        case isTrue hz =>
          rw [if_pos hz]
          exact hok'
        case isFalse hz =>
          rw [if_neg hz]
          exact hok'.perm (List.perm_cons_erase hptr).symm
      | some p => exact hre.2.2
  | free ptr =>
    obtain rfl | hptr := hop
    · refine ⟨t, ?_, active, larges, hok⟩
      rw [slabStep, rtSlabFree, if_pos rfl, Option.map_some, List.erase_of_not_mem hzero]
    · obtain ⟨s', hs', -, hok'⟩ := (hok.perm (List.perm_cons_erase hptr)).free
      exact ⟨⟨s', t.live.erase ptr⟩, by rw [slabStep, hs']; rfl, hok'⟩

/-! ## What holds after every run -/

/-- Where the table says that a live pointer is: at the first page of a large allocation, or in a
zone in use, as a chunk that was handed out and is not free. -/
def Located (s : RtSlab) (zones : List Nat) (p : Nat) : Prop :=
  let kup := btokup s (pageOf p)
  match kup.type with
  | .large => p = pageOf p * 4096 ∧ 0 < kup.size
  | .small =>
    let z := pageOf p - kup.size
    z ∈ zones ∧ z ∉ s.zoneFree ∧ p ∉ (s.zone z).freechunk ∧
      ∃ i, i ≤ (s.zone z).uindex ∧ i < (s.zone z).nmax ∧ p = chunkAt (s.zone z) i
  | .free => False

/-- The state of the allocator, for the zones whose pages are handed out. -/
structure Consistent (s : RtSlab) (zones live : List Nat) : Prop where
  accounted : ∀ z ∈ zones, (s.zone z).nfree =
    ((s.zone z).nmax - 1 - (s.zone z).uindex) + (s.zone z).freechunk.length
  linked : ∀ z ∈ zones, ∀ i, z ∈ s.zoneArray i ↔ i = (s.zone z).zoneindex ∧
    ((0 < (s.zone z).nfree ∧ (s.zone z).nfree < (s.zone z).nmax) ∨
      ((s.zone z).nfree = (s.zone z).nmax ∧ z ∉ s.zoneFree))
  array_mem : ∀ i, ∀ z ∈ s.zoneArray i, z ∈ zones
  free : ∀ z ∈ s.zoneFree, z ∈ zones ∧ (s.zone z).nfree = (s.zone z).nmax
  retained : Retained s
  located : ∀ p ∈ live, Located s zones p
  nodup : live.Nodup
  apart : ∀ p ∈ live, ∀ q ∈ live, p ≠ q → BlocksApart s p q
  used : s.used = (live.map (blockSize s)).sum

theorem Ok.located (hok : Ok n table active larges s live) (hp : p ∈ live) :
    Located s (active ++ s.zoneFree) p := by
  unfold Located
  obtain ⟨e, he, heq⟩ | ⟨z, hz, hin⟩ := hok.layout.home p hp
  · have hpage : pageOf p = e.addr := by rw [heq, pageOf_mul]
    rw [hpage, hok.layout.large e he]
    exact ⟨heq, hok.layout.large_pos he⟩
  · have hkup := hok.layout.btokup_zone (List.mem_append_left _ hz) hin
    have hz' : pageOf p - (pageOf p - z) = z := by
      have := (inZone_iff.mp hin).1
      omega
    have hzone := hok.zones.ok z hz
    obtain ⟨i, hi, hchunk⟩ := hok.toBase.chunk_of_inZone hp hz hin
    rw [hkup]
    dsimp only
    rw [hz']
    refine ⟨List.mem_append_left _ hz, hok.zones.not_free hz, fun hfree => ?_, i, hi,
      Nat.lt_of_le_of_lt hi hzone.uindex_lt, hchunk⟩
    exact (List.nodup_append.mp hzone.nodup).2.2 p hfree p (List.mem_filter.mpr ⟨hp, hin⟩) rfl

theorem Ok.consistent (hok : Ok n table active larges s live) :
    Consistent s (active ++ s.zoneFree) live where
  accounted z hz := by
    obtain hz | hz := List.mem_append.mp hz
    · exact (hok.zones.ok z hz).nfree_eq
    · exact (hok.zones.free z hz).2
  linked z hz i := by
    obtain hz | hz := List.mem_append.mp hz
    · have hadd := (hok.zones.ok z hz).nfree_add
      have htwo := (hok.zones.ok z hz).two_le
      have hnot := hok.zones.not_free hz
      rw [hok.zones.linked z hz i]
      refine and_congr_right fun _ => ⟨fun hpos => ?_, fun hcase => by omega⟩
      by_cases hfull : (s.zone z).nfree = (s.zone z).nmax
      · exact .inr ⟨hfull, hnot⟩
      · exact .inl ⟨hpos, by omega⟩
    · have hfull := (hok.zones.free z hz).1
      have hnot : z ∉ s.zoneArray i := fun hin => hok.zones.not_free (hok.zones.array_mem i z hin) hz
      refine ⟨fun hin => absurd hin hnot, fun ⟨_, hcase⟩ => ?_⟩
      obtain hlt | ⟨-, hfree⟩ := hcase
      · omega
      · exact absurd hz hfree
  array_mem i z hz := List.mem_append_left _ (hok.zones.array_mem i z hz)
  free z hz := ⟨List.mem_append_right _ hz, (hok.zones.free z hz).1⟩
  retained := hok.retained
  located p hp := hok.located hp
  nodup := hok.layout.nodup
  apart p hp q hq hne := hok.toBase.blocks_apart hp hq hne
  used := hok.toBase.used_eq

/-- The slab allocator over every run of allocations, reallocations and releases of live blocks: no
assertion fails, the zones and the live pointers are consistent, and the next request is answered
with a block that is not live and not smaller than requested. -/
theorem slab_zones_sound {align objSize beginAddr size : Nat} {zone : Nat → RtSlabZone}
    {memusage : Nat → RtSlabMemusage} {ops : List SlabOp}
    (hinit : rtSlabInit align objSize beginAddr size zone memusage = some s)
    (hops : Runs.Along slabStep OnLive ⟨s, []⟩ ops) :
    ∃ t, Runs.run slabStep ⟨s, []⟩ ops = some t ∧
      (∃ zones, Consistent t.slab zones t.live) ∧
      (∀ size < 2 ^ 32, ∃ slab p, rtSlabAlloc t.slab size = some (slab, p) ∧
        ∀ ptr, p = some ptr → ptr ∉ t.live ∧ size ≤ blockSize slab ptr) ∧
      ∀ ptr ∈ t.live, ∀ size < 2 ^ 32, ∃ slab p, rtSlabRealloc t.slab ptr size = some (slab, p) ∧
        ∀ nptr, p = some nptr → (nptr = ptr ∨ nptr ∉ t.live) ∧ size ≤ blockSize slab nptr := by
  obtain ⟨n, table, hok⟩ := rtSlabInit_ok hinit
  have hinv : Inv n table ⟨s, []⟩ := ⟨[], [], hok⟩
  obtain ⟨t, hrun, active, larges, ht⟩ :=
    Runs.run_total_along (fun _ _ hs hop => slabStep_inv hs hop) hinv hops
  refine ⟨t, hrun, ⟨_, ht.consistent⟩, fun size hsize => ?_, fun ptr hptr size hsize => ?_⟩
  · obtain ⟨⟨slab, p⟩, hr, hall⟩ := ht.alloc hsize
    refine ⟨slab, p, hr, fun ptr hp => ?_⟩
    subst hp
    exact ⟨hall.2.1, hall.1⟩
  · have hperm := List.perm_cons_erase hptr
    obtain ⟨⟨slab, p⟩, hr, hre⟩ := (ht.perm hperm).realloc hsize
    refine ⟨slab, p, hr, fun nptr hp => ?_⟩
    subst hp
    refine ⟨hre.2.1.imp id fun hnew hin => hnew (hperm.mem_iff.mp hin), hre.1⟩

/-- A region of 256 KiB, whose memory is clear. -/
def ram : Option RtSlab :=
  rtSlabInit 4 400 0x20000000 0x40000 (fun _ => ⟨0, 0, 0, 0, 0, 0, 0, []⟩) fun _ => ⟨.free, 0⟩

/-- A chunk that moves to another zone, and a large block that is freed. -/
def ramOps : List SlabOp :=
  [.alloc 100, .alloc 9000, .realloc 0x20002028 200, .free 0x2000a000]

theorem slab_zones_sound_ram :
    ∃ s t, ram = some s ∧ Runs.run slabStep ⟨s, []⟩ ramOps = some t ∧ t.live = [0x2000d028] ∧
      t.slab.used = 208 ∧ ∃ zones, Consistent t.slab zones t.live := by
  have hram : (ram.map fun s => decide (Runs.Along slabStep OnLive ⟨s, []⟩ ramOps)) =
      some true := by decide +kernel
  have hlast : (ram.bind fun s => (Runs.run slabStep ⟨s, []⟩ ramOps).map fun t =>
      (t.live, t.slab.used)) = some ([0x2000d028], 208) := by decide +kernel
  obtain ⟨s, hs, hops⟩ := Option.map_eq_some_iff.mp hram
  obtain ⟨t, hrun, hcon, -⟩ := slab_zones_sound hs (of_decide_eq_true hops)
  rw [hs, Option.bind_some, hrun, Option.map_some] at hlast
  obtain ⟨hlive, hused⟩ := pair_inj hlast
  exact ⟨s, t, hs, hrun, hlive, hused, hcon⟩

end RtThread.Slab
