import RtThread.SlabPages
import Mathlib.Data.List.Nodup
import Mathlib.Tactic.Positivity

/-!
# The zones of the slab allocator

A zone is in use when it has been set up and is not in the list of free zones. The
chunks of a zone in use up to `z_uindex` have been handed out at least once: they are
the chunks in its free list and the live ones (`ZoneOk`). A zone in use is in the list
of its index in the array exactly when it has a free chunk (`Zones`).
-/
namespace RtThread.Slab

open Function (update_of_ne update_self)

variable {cnt z ptr : Nat} {lv lv' live live' active : List Nat} {h : RtSlabZone} {s s' : RtSlab}

/-! ## Chunk sizes -/

/-- The size of the chunks of the zones with an index: eight indices for each doubling, after the
first eight. -/
def sizeOfIndex (i : Nat) : Nat := (i + 1 - 8 * (i / 8 - 1)) * (8 * 2 ^ (i / 8 - 1))

/-- The index of eight to sixteen quanta of `8 * 2 ^ j` bytes. -/
theorem sizeOfIndex_quanta {j q : Nat} (hj : 1 ≤ j) (hq : 8 ≤ q) (hq' : q ≤ 16) :
    sizeOfIndex (q + (8 * j - 1)) = q * (8 * 2 ^ j) := by
  obtain ⟨j, rfl⟩ : ∃ k, j = k + 1 := ⟨j - 1, by omega⟩
  unfold sizeOfIndex
  by_cases h8 : q = 8
  · subst h8
    rw [show (8 + (8 * (j + 1) - 1)) / 8 - 1 = j by omega,
      show 8 + (8 * (j + 1) - 1) + 1 - 8 * j = 16 by omega, Nat.pow_succ]
    omega
  · rw [show (q + (8 * (j + 1) - 1)) / 8 - 1 = j + 1 by omega,
      show q + (8 * (j + 1) - 1) + 1 - 8 * (j + 1) = q by omega]

/-- What `zoneindex` gives for a size `n` below the largest zone limit. -/
structure Sized (n i size : Nat) : Prop where
  index_lt : i < rtSlabNzones
  le_size : n ≤ size
  size_eq : size = sizeOfIndex i
  le_half : n < 8192 → size ≤ 8192
  le_limit : size ≤ 16384

variable {i n p chunk z' zi : Nat} {next zs : List Nat}

/-- The rounding up of a size to a number of quanta. -/
theorem rtAlign_quanta {a : Nat} (ha : 0 < a) (hn : n + a ≤ 2 ^ 32) :
    ∃ q, rtAlign 32 n a = q * a ∧ n ≤ q * a ∧ q * a < n + a := by
  have heq : rtAlign 32 n a = (n + a - 1) / a * a := rtAlign_eq (by omega)
  refine ⟨(n + a - 1) / a, heq, ?_, ?_⟩
  · rw [← heq]
    exact le_rtAlign ha (by omega)
  · have := Nat.div_mul_le_self (n + a - 1) a
    omega

/-- One range of `zoneindex`, with quanta of `8 * 2 ^ j` bytes. -/
theorem sized_range {j : Nat} (hj : 1 ≤ j) (hj' : j ≤ 7) (hlo : 64 * 2 ^ j ≤ n)
    (hhi : n < 128 * 2 ^ j) :
    Sized n (rtAlign 32 n (8 * 2 ^ j) / (8 * 2 ^ j) + (8 * j - 1)) (rtAlign 32 n (8 * 2 ^ j)) := by
  have hpow : 2 ^ j ≤ 2 ^ 7 := Nat.pow_le_pow_right (by omega) hj'
  have hpos : 0 < 8 * 2 ^ j := by positivity
  obtain ⟨q, hq, hle, hlt⟩ := rtAlign_quanta hpos (show n + 8 * 2 ^ j ≤ 2 ^ 32 by omega)
  have hq8 : 8 ≤ q := by
    have : 8 * (8 * 2 ^ j) ≤ q * (8 * 2 ^ j) := by omega
    exact Nat.le_of_mul_le_mul_right this hpos
  have hq16 : q ≤ 16 := by
    have : q * (8 * 2 ^ j) < 17 * (8 * 2 ^ j) := by omega
    exact Nat.le_of_lt_succ (Nat.lt_of_mul_lt_mul_right this)
  have hle16 : q * (8 * 2 ^ j) ≤ 16 * (8 * 2 ^ j) := Nat.mul_le_mul_right _ hq16
  rw [hq, Nat.mul_div_cancel q hpos]
  refine ⟨show q + (8 * j - 1) < 72 by omega, hle, (sizeOfIndex_quanta hj hq8 hq16).symm,
    fun hn => ?_, by omega⟩
  have hj6 : j ≤ 6 := by
    by_contra hj7
    obtain rfl : j = 7 := by omega
    omega
  have : 2 ^ j ≤ 2 ^ 6 := Nat.pow_le_pow_right (by omega) hj6
  omega

theorem sized_small (hpos : 0 < n) (hn : n < 128) :
    Sized n (rtAlign 32 n 8 / 8 - 1) (rtAlign 32 n 8) := by
  obtain ⟨q, hq, hle, hlt⟩ := rtAlign_quanta (show 0 < 8 by omega) (show n + 8 ≤ 2 ^ 32 by omega)
  rw [hq, Nat.mul_div_cancel q (by omega)]
  refine ⟨show q - 1 < 72 by omega, hle, ?_, fun _ => by omega, by omega⟩
  rw [sizeOfIndex, show (q - 1) / 8 - 1 = 0 by omega]
  omega

theorem zoneindex_spec (hpos : 0 < n) (hn : n < 16384) :
    Sized n (zoneindex n).1 (zoneindex n).2 := by
  unfold zoneindex
  split
  · exact sized_small hpos ‹_›
  split
  · exact @sized_range n 1 (by omega) (by omega) (by omega) (by omega)
  split
  · exact @sized_range n 2 (by omega) (by omega) (by omega) (by omega)
  split
  · exact @sized_range n 3 (by omega) (by omega) (by omega) (by omega)
  split
  · exact @sized_range n 4 (by omega) (by omega) (by omega) (by omega)
  split
  · exact @sized_range n 5 (by omega) (by omega) (by omega) (by omega)
  split
  · exact @sized_range n 6 (by omega) (by omega) (by omega) (by omega)
  · exact @sized_range n 7 (by omega) (by omega) (by omega) (by omega)

theorem zoneindex_large (hn : 16384 ≤ n) : (zoneindex n).2 = n := by
  unfold zoneindex
  repeat rw [if_neg (by omega)]

/-! ## One zone -/

/-- `ptr` lies in the `cnt` pages of the zone `z`. -/
def inZone (cnt z ptr : Nat) : Bool := decide (z ≤ pageOf ptr ∧ pageOf ptr < z + cnt)

theorem inZone_iff : inZone cnt z ptr = true ↔ z ≤ pageOf ptr ∧ pageOf ptr < z + cnt :=
  decide_eq_true_iff

def chunkAt (h : RtSlabZone) (i : Nat) : Nat := h.baseptr + i * h.chunksize

/-- The chunks of a zone that have been handed out at least once. -/
def touched (h : RtSlabZone) : List Nat := (List.range (h.uindex + 1)).map (chunkAt h)

/-- A zone in use, whose live chunks are `lv`. -/
structure ZoneOk (cnt z : Nat) (lv : List Nat) (h : RtSlabZone) : Prop where
  magic : h.magic = zallocSlabMagic
  size_eq : h.chunksize = sizeOfIndex h.zoneindex
  size_pos : 0 < h.chunksize
  base_eq : h.baseptr = z * 4096 + chunkOffset h.chunksize
  fits : h.baseptr + h.nmax * h.chunksize ≤ (z + cnt) * 4096
  uindex_lt : h.uindex < h.nmax
  two_le : 2 ≤ h.nmax
  nfree_eq : h.nfree = (h.nmax - 1 - h.uindex) + h.freechunk.length
  chunks : (h.freechunk ++ lv).Perm (touched h)

theorem ZoneOk.perm (hz : ZoneOk cnt z lv h) (hp : lv.Perm lv') : ZoneOk cnt z lv' h :=
  { hz with chunks := (hp.symm.append_left _).trans hz.chunks }

theorem length_touched : (touched h).length = h.uindex + 1 := by
  simp [touched]

theorem mem_touched : p ∈ touched h ↔ ∃ i, i ≤ h.uindex ∧ p = chunkAt h i := by
  simp only [touched, List.mem_map, List.mem_range]
  constructor
  · rintro ⟨i, hi, rfl⟩
    exact ⟨i, by omega, rfl⟩
  · rintro ⟨i, hi, rfl⟩
    exact ⟨i, by omega, rfl⟩

theorem chunkAt_injective (hpos : 0 < h.chunksize) {j : Nat} (heq : chunkAt h i = chunkAt h j) :
    i = j := by
  exact Nat.eq_of_mul_eq_mul_right hpos (Nat.add_left_cancel heq)

theorem touched_nodup (hpos : 0 < h.chunksize) : (touched h).Nodup :=
  List.nodup_range.map fun _ _ heq => chunkAt_injective hpos heq

section

variable (hz : ZoneOk cnt z lv h)
include hz

theorem ZoneOk.nodup : (h.freechunk ++ lv).Nodup :=
  hz.chunks.nodup_iff.mpr (touched_nodup hz.size_pos)

theorem ZoneOk.count : h.freechunk.length + lv.length = h.uindex + 1 := by
  rw [← List.length_append, hz.chunks.length_eq, length_touched]

theorem ZoneOk.nfree_add : h.nfree + lv.length = h.nmax := by
  have h₁ := hz.count
  have h₂ := hz.nfree_eq
  have h₃ := hz.uindex_lt
  omega

/-- A zone of which every chunk is free has no live chunk. -/
theorem ZoneOk.eq_nil (hfull : h.nfree = h.nmax) : lv = [] := by
  have := hz.nfree_add
  exact List.eq_nil_of_length_eq_zero (by omega)

/-- The place of a chunk in the pages of its zone. -/
theorem ZoneOk.chunk_bounds (hi : i < h.nmax) :
    z * 4096 ≤ chunkAt h i ∧ chunkAt h i + h.chunksize ≤ (z + cnt) * 4096 := by
  have h₁ := hz.base_eq
  have h₂ := hz.fits
  have h₃ : (i + 1) * h.chunksize ≤ h.nmax * h.chunksize := Nat.mul_le_mul_right _ hi
  rw [Nat.add_mul, Nat.one_mul] at h₃
  unfold chunkAt
  omega

theorem ZoneOk.chunk_inZone (hi : i < h.nmax) : inZone cnt z (chunkAt h i) = true := by
  obtain ⟨h₁, h₂⟩ := hz.chunk_bounds hi
  have h₃ := hz.size_pos
  rw [inZone_iff]
  unfold pageOf
  omega

theorem ZoneOk.mem_live (hp : p ∈ lv) : ∃ i, i ≤ h.uindex ∧ p = chunkAt h i :=
  mem_touched.mp (hz.chunks.mem_iff.mp (List.mem_append_right _ hp))

/-- A chunk from the part of the zone that was never used. -/
theorem ZoneOk.take_fresh (hu : h.uindex + 1 ≠ h.nmax) :
    ZoneOk cnt z (chunkAt h (h.uindex + 1) :: lv)
      { h with nfree := h.nfree - 1, uindex := h.uindex + 1 } := by
  have h₁ := hz.uindex_lt
  have h₂ := hz.nfree_eq
  refine ⟨hz.magic, hz.size_eq, hz.size_pos, hz.base_eq, hz.fits, ?_, hz.two_le, ?_, ?_⟩
  · dsimp only
    omega
  · dsimp only
    omega
  · have htouched : touched { h with nfree := h.nfree - 1, uindex := h.uindex + 1 } =
        touched h ++ [chunkAt h (h.uindex + 1)] := by
      unfold touched
      rw [List.range_succ, List.map_append]
      rfl
    rw [htouched]
    refine List.perm_middle.trans ?_
    refine ((hz.chunks.cons _).trans ?_)
    exact (List.perm_append_singleton _ _).symm

/-- A chunk from the free list of the zone. -/
theorem ZoneOk.take_freed (hc : h.freechunk = chunk :: next) :
    ZoneOk cnt z (chunk :: lv) { h with nfree := h.nfree - 1, freechunk := next } := by
  have h₂ := hz.nfree_eq
  have hchunks := hz.chunks
  rw [hc] at h₂ hchunks
  refine ⟨hz.magic, hz.size_eq, hz.size_pos, hz.base_eq, hz.fits, hz.uindex_lt, hz.two_le, ?_, ?_⟩
  · rw [List.length_cons] at h₂
    dsimp only
    omega
  · exact List.perm_middle.trans hchunks

end

/-- A live chunk goes to the free list of the zone. -/
theorem ZoneOk.give (hz : ZoneOk cnt z (ptr :: lv) h) :
    ZoneOk cnt z lv { h with freechunk := ptr :: h.freechunk, nfree := h.nfree + 1 } := by
  have h₂ := hz.nfree_eq
  refine ⟨hz.magic, hz.size_eq, hz.size_pos, hz.base_eq, hz.fits, hz.uindex_lt, hz.two_le, ?_, ?_⟩
  · dsimp only
    rw [List.length_cons]
    omega
  · exact List.perm_middle.symm.trans hz.chunks

theorem chunkOffset_le (size : Nat) : chunkOffset size ≤ 40 + size := by
  unfold chunkOffset sizeofZone
  split
  · have h₁ := Nat.div_mul_le_self ((36 + size - 1) % 2 ^ 32) size
    unfold rtAlign
    omega
  · unfold rtAlign
    omega

/-- The header of a new zone. -/
def freshZone (zoneSize z zi size : Nat) : RtSlabZone :=
  ⟨zallocSlabMagic, (zoneSize - chunkOffset size) / size - 1, (zoneSize - chunkOffset size) / size,
    z * 4096 + chunkOffset size, 0, size, zi, []⟩

theorem freshZone_ok {size : Nat} (hpos : 0 < size) (hsize : size = sizeOfIndex zi)
    (hroom : 40 + 3 * size ≤ cnt * 4096) :
    ZoneOk cnt z [chunkAt (freshZone (cnt * 4096) z zi size) 0]
      (freshZone (cnt * 4096) z zi size) := by
  have hoff := chunkOffset_le size
  have hmax : 2 ≤ (cnt * 4096 - chunkOffset size) / size := by
    rw [Nat.le_div_iff_mul_le hpos]
    omega
  have hfit := Nat.div_mul_le_self (cnt * 4096 - chunkOffset size) size
  refine ⟨rfl, hsize, hpos, rfl, ?_, Nat.lt_of_lt_of_le Nat.zero_lt_two hmax, hmax,
    (Nat.sub_zero _).symm, List.Perm.refl _⟩
  unfold freshZone
  dsimp only
  omega

/-! ## All zones -/

/-- The zones `active` are in use, and `live` are the live pointers. -/
structure Zones (active : List Nat) (s : RtSlab) (live : List Nat) : Prop where
  nodup : (active ++ s.zoneFree).Nodup
  ok : ∀ z ∈ active,
    ZoneOk s.zonePageCnt z (live.filter (inZone s.zonePageCnt z)) (s.zone z)
  linked : ∀ z ∈ active, ∀ i, z ∈ s.zoneArray i ↔
    i = (s.zone z).zoneindex ∧ 0 < (s.zone z).nfree
  array_mem : ∀ i, ∀ z ∈ s.zoneArray i, z ∈ active
  array_nodup : ∀ i, (s.zoneArray i).Nodup
  free : ∀ z ∈ s.zoneFree, (s.zone z).nfree = (s.zone z).nmax ∧
    (s.zone z).nfree = ((s.zone z).nmax - 1 - (s.zone z).uindex) + (s.zone z).freechunk.length
  cnt : s.zoneFreeCnt = s.zoneFree.length

/-- At most one zone of a list in the array has all its chunks free. -/
def Retained (s : RtSlab) : Prop :=
  ∀ i, ∀ z ∈ s.zoneArray i, ∀ z' ∈ s.zoneArray i, (s.zone z).nfree = (s.zone z).nmax →
    (s.zone z').nfree = (s.zone z').nmax → z = z'

theorem Zones.not_free (hz : Zones active s live) (hmem : z ∈ active) : z ∉ s.zoneFree :=
  fun hfree => (List.nodup_append.mp hz.nodup).2.2 z hmem z hfree rfl

/-- The live pointers of a zone do not depend on their order. -/
theorem Zones.perm (hz : Zones active s live) (hp : live.Perm live') : Zones active s live' :=
  { hz with ok := fun z hmem => (hz.ok z hmem).perm (hp.filter _) }

/-- Pointers outside every zone in use do not matter. -/
theorem Zones.cons_outside (hz : Zones active s live)
    (hout : ∀ z ∈ active, inZone s.zonePageCnt z ptr = false) : Zones active s (ptr :: live) := by
  refine { hz with ok := fun z hmem => ?_ }
  rw [List.filter_cons_of_neg (by rw [hout z hmem]; exact Bool.false_ne_true)]
  exact hz.ok z hmem

theorem Zones.tail_outside (hz : Zones active s (ptr :: live))
    (hout : ∀ z ∈ active, inZone s.zonePageCnt z ptr = false) : Zones active s live := by
  refine { hz with ok := fun z hmem => ?_ }
  have hok := hz.ok z hmem
  rwa [List.filter_cons_of_neg (by rw [hout z hmem]; exact Bool.false_ne_true)] at hok

/-- The zones depend on a few fields of the slab only. -/
theorem Zones.congr (hz : Zones active s live) (hzone : s'.zone = s.zone)
    (harray : s'.zoneArray = s.zoneArray) (hfree : s'.zoneFree = s.zoneFree)
    (hcnt : s'.zoneFreeCnt = s.zoneFreeCnt) (hpages : s'.zonePageCnt = s.zonePageCnt) :
    Zones active s' live := by
  constructor
  · rw [hfree]
    exact hz.nodup
  · rw [hzone, hpages]
    exact hz.ok
  · rw [hzone, harray]
    exact hz.linked
  · rw [harray]
    exact hz.array_mem
  · rw [harray]
    exact hz.array_nodup
  · rw [hzone, hfree]
    exact hz.free
  · rw [hcnt, hfree]
    exact hz.cnt

/-- A new header for one zone in use, with the array to match. -/
theorem Zones.update (hz : Zones active s live) (hmem : z ∈ active) (zoneArray : Nat → List Nat)
    (hok : ZoneOk s.zonePageCnt z (live'.filter (inZone s.zonePageCnt z)) h)
    (hlive : ∀ z' ∈ active, z' ≠ z →
      live'.filter (inZone s.zonePageCnt z') = live.filter (inZone s.zonePageCnt z'))
    (hself : ∀ i, z ∈ zoneArray i ↔ i = h.zoneindex ∧ 0 < h.nfree)
    (hothers : ∀ i, ∀ z', z' ≠ z → (z' ∈ zoneArray i ↔ z' ∈ s.zoneArray i))
    (hnodup : ∀ i, (zoneArray i).Nodup) :
    Zones active { s with zone := Function.update s.zone z h, zoneArray := zoneArray } live' := by
  constructor
  · exact hz.nodup
  · intro z' hz'
    by_cases heq : z' = z
    · subst heq
      dsimp only
      rw [update_self]
      exact hok
    · dsimp only
      rw [update_of_ne heq, hlive z' hz' heq]
      exact hz.ok z' hz'
  · intro z' hz' i
    dsimp only
    by_cases heq : z' = z
    · subst heq
      rw [update_self]
      exact hself i
    · rw [update_of_ne heq, hothers i z' heq]
      exact hz.linked z' hz' i
  · intro i z' hz'
    by_cases heq : z' = z
    · rw [heq]
      exact hmem
    · exact hz.array_mem i z' ((hothers i z' heq).mp hz')
  · exact hnodup
  · intro z' hz'
    have hne : z' ≠ z := fun heq => hz.not_free hmem (heq ▸ hz')
    dsimp only
    rw [update_of_ne hne]
    exact hz.free z' hz'
  · exact hz.cnt

/-- The zones whose chunks are all free stay the only ones of their lists. -/
theorem Retained.mono (hr : Retained s)
    (hsub : ∀ i, ∀ z ∈ s'.zoneArray i, (s'.zone z).nfree = (s'.zone z).nmax →
      z ∈ s.zoneArray i ∧ (s.zone z).nfree = (s.zone z).nmax) : Retained s' := by
  intro i z hz z' hz' hfull hfull'
  obtain ⟨h₁, h₂⟩ := hsub i z hz hfull
  obtain ⟨h₃, h₄⟩ := hsub i z' hz' hfull'
  exact hr i z h₁ z' h₃ h₂ h₄

/-- The array after a chunk has been taken from the first zone of a list. -/
def afterTake (s : RtSlab) (nfree zi : Nat) (zs : List Nat) : Nat → List Nat :=
  if nfree = 0 then Function.update s.zoneArray zi zs else s.zoneArray

theorem mem_afterTake {nfree : Nat} (harr : s.zoneArray zi = z :: zs) (hne : z' ≠ z) :
    z' ∈ afterTake s nfree zi zs i ↔ z' ∈ s.zoneArray i := by
  unfold afterTake
  split
  · by_cases hi : i = zi
    · rw [hi, update_self, harr, List.mem_cons]
      simp [hne]
    · rw [update_of_ne hi]
  · exact Iff.rfl

/-- A chunk is taken from the first zone of a list. -/
theorem Zones.take (hz : Zones active s live) (harr : s.zoneArray zi = z :: zs)
    (hok : ZoneOk s.zonePageCnt z (chunk :: live.filter (inZone s.zonePageCnt z)) h)
    (hindex : h.zoneindex = (s.zone z).zoneindex) (hnfree : h.nfree = (s.zone z).nfree - 1)
    (hchunk : inZone s.zonePageCnt z chunk = true)
    (hsep : ∀ z' ∈ active, z' ≠ z → inZone s.zonePageCnt z' chunk = false) :
    Zones active
      { s with zone := Function.update s.zone z h, zoneArray := afterTake s h.nfree zi zs }
      (chunk :: live) := by
  have hhead : z ∈ s.zoneArray zi := by
    rw [harr]
    exact List.mem_cons_self
  have hmem := hz.array_mem zi z hhead
  have hlink := hz.linked z hmem
  obtain ⟨hzi, hpos⟩ := (hlink zi).mp hhead
  have hnd := hz.array_nodup zi
  rw [harr] at hnd
  refine hz.update hmem _ ?_ (fun z' hz' hne => ?_) (fun i => ?_)
    (fun i z' hne => mem_afterTake harr hne) (fun i => ?_)
  · rw [List.filter_cons_of_pos hchunk]
    exact hok
  · rw [List.filter_cons_of_neg (by rw [hsep z' hz' hne]; exact Bool.false_ne_true)]
  · unfold afterTake
    split
    case isTrue hzero =>
      have hnot : z ∉ Function.update s.zoneArray zi zs i := by
        by_cases hi : i = zi
        · rw [hi, update_self]
          exact (List.nodup_cons.mp hnd).1
        · rw [update_of_ne hi]
          intro hin
          exact hi ((hlink i).mp hin |>.1.trans hzi.symm)
      exact ⟨fun hin => absurd hin hnot, fun hin => by omega⟩
    case isFalse hne =>
      rw [hlink i, hindex]
      exact and_congr_right fun _ => by omega
  · unfold afterTake
    split
    · by_cases hi : i = zi
      · rw [hi, update_self]
        exact (List.nodup_cons.mp hnd).2
      · rw [update_of_ne hi]
        exact hz.array_nodup i
    · exact hz.array_nodup i

theorem Retained.take (hr : Retained s) (harr : s.zoneArray zi = z :: zs)
    (hnot : h.nfree ≠ h.nmax) :
    Retained
      { s with zone := Function.update s.zone z h, zoneArray := afterTake s h.nfree zi zs } := by
  refine hr.mono fun i z' hz' hfull => ?_
  by_cases heq : z' = z
  · subst heq
    dsimp only at hfull
    rw [update_self] at hfull
    exact absurd hfull hnot
  · dsimp only at hfull
    rw [update_of_ne heq] at hfull
    exact ⟨(mem_afterTake harr heq).mp hz', hfull⟩

/-- A live chunk goes back to its zone. -/
theorem Zones.give (hz : Zones active s (ptr :: live)) (hmem : z ∈ active)
    (hptr : inZone s.zonePageCnt z ptr = true)
    (hsep : ∀ z' ∈ active, z' ≠ z → inZone s.zonePageCnt z' ptr = false) :
    Zones active (freeChunk s z ptr) live := by
  have hok := hz.ok z hmem
  rw [List.filter_cons_of_pos hptr] at hok
  have hlink := hz.linked z hmem
  have hzones := hz.update hmem (freeChunk s z ptr).zoneArray hok.give
    (fun z' hz' hne => ?_) (fun i => ?_) (fun i z' hne => ?_) (fun i => ?_)
  · exact hzones.congr rfl rfl rfl rfl rfl
  · rw [List.filter_cons_of_neg (by rw [hsep z' hz' hne]; exact Bool.false_ne_true)]
  · unfold freeChunk
    dsimp only
    split
    case isTrue hzero =>
      by_cases hi : i = (s.zone z).zoneindex
      · rw [hi, update_self]
        simp
      · rw [update_of_ne hi, hlink i]
        simp [hi]
    case isFalse hne =>
      rw [hlink i]
      exact and_congr_right fun _ => by omega
  · unfold freeChunk
    dsimp only
    split
    · by_cases hi : i = (s.zone z).zoneindex
      · rw [hi, update_self, List.mem_cons]
        simp [hne]
      · rw [update_of_ne hi]
    · exact Iff.rfl
  · unfold freeChunk
    dsimp only
    split
    case isTrue hzero =>
      by_cases hi : i = (s.zone z).zoneindex
      · rw [hi, update_self]
        refine List.nodup_cons.mpr ⟨fun hin => ?_, hz.array_nodup _⟩
        have := ((hlink _).mp hin).2
        omega
      · rw [update_of_ne hi]
        exact hz.array_nodup i
    · exact hz.array_nodup i

/-- The first free zone is taken from its list. -/
theorem Zones.pop (hz : Zones active s live) (hfree : s.zoneFree = z :: next) : z ∉ active ++ next ∧
      Zones active { s with zoneFree := next, zoneFreeCnt := s.zoneFreeCnt - 1 } live := by
  have hnd := hz.nodup
  rw [hfree, List.nodup_middle, List.nodup_cons] at hnd
  refine ⟨hnd.1, { hz with nodup := hnd.2, free := fun z' hz' => ?_, cnt := ?_ }⟩
  · exact hz.free z' (by rw [hfree]; exact List.mem_cons_of_mem z hz')
  · have := hz.cnt
    rw [hfree, List.length_cons] at this
    dsimp only
    omega

/-- A new zone is set up, and its first chunk handed out. -/
theorem Zones.add (hz : Zones active s live) (hnew : z ∉ active ++ s.zoneFree)
    (hok : ZoneOk s.zonePageCnt z [chunk] h) (hpos : 0 < h.nfree)
    (hempty : live.filter (inZone s.zonePageCnt z) = [])
    (hchunk : inZone s.zonePageCnt z chunk = true)
    (hsep : ∀ z' ∈ active, inZone s.zonePageCnt z' chunk = false) :
    Zones (z :: active)
      { s with
        zone := Function.update s.zone z h
        zoneArray := Function.update s.zoneArray h.zoneindex (z :: s.zoneArray h.zoneindex) }
      (chunk :: live) := by
  have hactive : z ∉ active := fun hin => hnew (List.mem_append_left _ hin)
  have hnotin : ∀ i, z ∉ s.zoneArray i := fun i hin => hactive (hz.array_mem i z hin)
  constructor
  · exact List.nodup_cons.mpr ⟨hnew, hz.nodup⟩
  · intro z' hz'
    dsimp only
    obtain rfl | hz' := List.mem_cons.mp hz'
    · rw [update_self, List.filter_cons_of_pos hchunk, hempty]
      exact hok
    · have hne : z' ≠ z := fun heq => hactive (heq ▸ hz')
      rw [update_of_ne hne,
        List.filter_cons_of_neg (by rw [hsep z' hz']; exact Bool.false_ne_true)]
      exact hz.ok z' hz'
  · intro z' hz' i
    dsimp only
    obtain rfl | hz' := List.mem_cons.mp hz'
    · by_cases hi : i = h.zoneindex
      · rw [hi, update_self]
        simp [hpos]
      · simp [hi, hnotin i]
    · have hne : z' ≠ z := fun heq => hactive (heq ▸ hz')
      rw [update_of_ne hne, ← hz.linked z' hz' i]
      by_cases hi : i = h.zoneindex
      · rw [hi, update_self, List.mem_cons]
        simp [hne]
      · rw [update_of_ne hi]
  · intro i z' hz'
    dsimp only at hz'
    by_cases hi : i = h.zoneindex
    · rw [hi, update_self] at hz'
      obtain rfl | hz' := List.mem_cons.mp hz'
      · exact List.mem_cons_self
      · exact List.mem_cons_of_mem z (hz.array_mem _ z' hz')
    · rw [update_of_ne hi] at hz'
      exact List.mem_cons_of_mem z (hz.array_mem i z' hz')
  · intro i
    dsimp only
    by_cases hi : i = h.zoneindex
    · rw [hi, update_self]
      exact List.nodup_cons.mpr ⟨hnotin _, hz.array_nodup _⟩
    · rw [update_of_ne hi]
      exact hz.array_nodup i
  · intro z' hz'
    have hne : z' ≠ z := fun heq => hnew (List.mem_append_right _ (heq ▸ hz'))
    dsimp only
    rw [update_of_ne hne]
    exact hz.free z' hz'
  · exact hz.cnt

theorem Retained.add (hr : Retained s) (hnot : h.nfree ≠ h.nmax) : Retained { s with
        zone := Function.update s.zone z h
        zoneArray := Function.update s.zoneArray h.zoneindex (z :: s.zoneArray h.zoneindex) } := by
  refine hr.mono fun i z' hz' hfull => ?_
  dsimp only at hz' hfull
  by_cases heq : z' = z
  · rw [heq, update_self] at hfull
    exact absurd hfull hnot
  · rw [update_of_ne heq] at hfull
    refine ⟨?_, hfull⟩
    by_cases hi : i = h.zoneindex
    · rw [hi, update_self] at hz'
      rw [hi]
      exact (List.mem_cons.mp hz').resolve_left heq
    · rwa [update_of_ne hi] at hz'

/-- The slab after a zone has been moved from the array to the list of free zones. -/
def retired (s : RtSlab) (z : Nat) : RtSlab :=
  { s with
    zoneArray := Function.update s.zoneArray (s.zone z).zoneindex
      ((s.zoneArray (s.zone z).zoneindex).erase z)
    zone := Function.update s.zone z { s.zone z with magic := rtUint32Max }
    zoneFree := z :: s.zoneFree
    zoneFreeCnt := s.zoneFreeCnt + 1 }

theorem mem_retired_zoneArray : z' ∈ (retired s z).zoneArray i → z' ∈ s.zoneArray i := by
  unfold retired
  dsimp only
  by_cases hi : i = (s.zone z).zoneindex
  · rw [hi, update_self]
    exact List.mem_of_mem_erase
  · rw [update_of_ne hi]
    exact id

theorem Zones.retire (hz : Zones active s live) (hmem : z ∈ active)
    (hfull : (s.zone z).nfree = (s.zone z).nmax) : Zones (active.erase z) (retired s z) live := by
  have hnd : active.Nodup := (List.nodup_append.mp hz.nodup).1
  have hne : ∀ z' ∈ active.erase z, z' ≠ z ∧ z' ∈ active := fun z' hz' =>
    ⟨fun heq => hnd.not_mem_erase (heq ▸ hz'), List.mem_of_mem_erase hz'⟩
  constructor
  · have hperm : (active.erase z ++ z :: s.zoneFree).Perm (active ++ s.zoneFree) := by
      refine List.perm_middle.trans ?_
      exact (List.perm_cons_erase hmem).symm.append_right s.zoneFree
    exact hperm.nodup_iff.mpr hz.nodup
  · intro z' hz'
    obtain ⟨hne', hmem'⟩ := hne z' hz'
    unfold retired
    dsimp only
    rw [update_of_ne hne']
    exact hz.ok z' hmem'
  · intro z' hz' i
    obtain ⟨hne', hmem'⟩ := hne z' hz'
    unfold retired
    dsimp only
    rw [update_of_ne hne', ← hz.linked z' hmem' i]
    by_cases hi : i = (s.zone z).zoneindex
    · rw [hi, update_self, List.mem_erase_of_ne hne']
    · rw [update_of_ne hi]
  · intro i z' hz'
    have hin := mem_retired_zoneArray hz'
    have hmem' := hz.array_mem i z' hin
    refine (List.mem_erase_of_ne fun heq => ?_).mpr hmem'
    subst heq
    have hi := ((hz.linked z' hmem i).mp hin).1
    unfold retired at hz'
    dsimp only at hz'
    rw [hi, update_self] at hz'
    exact (hz.array_nodup _).not_mem_erase hz'
  · intro i
    unfold retired
    dsimp only
    by_cases hi : i = (s.zone z).zoneindex
    · rw [hi, update_self]
      exact (hz.array_nodup _).erase z
    · rw [update_of_ne hi]
      exact hz.array_nodup i
  · intro z' hz'
    unfold retired
    dsimp only
    obtain rfl | hz' := List.mem_cons.mp hz'
    · rw [update_self]
      exact ⟨hfull, (hz.ok z' hmem).nfree_eq⟩
    · have hne' : z' ≠ z := fun heq => hz.not_free hmem (heq ▸ hz')
      rw [update_of_ne hne']
      exact hz.free z' hz'
  · have := hz.cnt
    unfold retired
    rw [List.length_cons, this]

end RtThread.Slab
