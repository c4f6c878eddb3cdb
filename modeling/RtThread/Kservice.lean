import Mathlib.Data.BitVec

/-!
# Kernel services

`__rt_ffs` of `kservice.c` in its byte-table form, with the specification the
scheduler relies on: one plus the index of the lowest set bit.
-/
namespace RtThread.Kservice

/-- The index of the lowest set bit of every byte; the entry of zero is unused. -/
def lowestBitBitmap : Array Nat :=
  #[0, 0, 1, 0, 2, 0, 1, 0, 3, 0, 1, 0, 2, 0, 1, 0,
    4, 0, 1, 0, 2, 0, 1, 0, 3, 0, 1, 0, 2, 0, 1, 0,
    5, 0, 1, 0, 2, 0, 1, 0, 3, 0, 1, 0, 2, 0, 1, 0,
    4, 0, 1, 0, 2, 0, 1, 0, 3, 0, 1, 0, 2, 0, 1, 0,
    6, 0, 1, 0, 2, 0, 1, 0, 3, 0, 1, 0, 2, 0, 1, 0,
    4, 0, 1, 0, 2, 0, 1, 0, 3, 0, 1, 0, 2, 0, 1, 0,
    5, 0, 1, 0, 2, 0, 1, 0, 3, 0, 1, 0, 2, 0, 1, 0,
    4, 0, 1, 0, 2, 0, 1, 0, 3, 0, 1, 0, 2, 0, 1, 0,
    7, 0, 1, 0, 2, 0, 1, 0, 3, 0, 1, 0, 2, 0, 1, 0,
    4, 0, 1, 0, 2, 0, 1, 0, 3, 0, 1, 0, 2, 0, 1, 0,
    5, 0, 1, 0, 2, 0, 1, 0, 3, 0, 1, 0, 2, 0, 1, 0,
    4, 0, 1, 0, 2, 0, 1, 0, 3, 0, 1, 0, 2, 0, 1, 0,
    6, 0, 1, 0, 2, 0, 1, 0, 3, 0, 1, 0, 2, 0, 1, 0,
    4, 0, 1, 0, 2, 0, 1, 0, 3, 0, 1, 0, 2, 0, 1, 0,
    5, 0, 1, 0, 2, 0, 1, 0, 3, 0, 1, 0, 2, 0, 1, 0,
    4, 0, 1, 0, 2, 0, 1, 0, 3, 0, 1, 0, 2, 0, 1, 0]

/-- `__rt_ffs` without `RT_USING_TINY_FFS`. -/
def rtFfs (value : BitVec 32) : Nat :=
  if value = 0 then 0
  else if value &&& 0xff ≠ 0 then lowestBitBitmap.getD (value &&& 0xff).toNat 0 + 1
  else if value &&& 0xff00 ≠ 0 then lowestBitBitmap.getD ((value &&& 0xff00) >>> 8).toNat 0 + 9
  else if value &&& 0xff0000 ≠ 0 then
    lowestBitBitmap.getD ((value &&& 0xff0000) >>> 16).toNat 0 + 17
  else lowestBitBitmap.getD ((value &&& 0xff000000) >>> 24).toNat 0 + 25

/-- `i` is the index of the lowest set bit of `v`. -/
structure IsLowestBit (v : BitVec 32) (i : Nat) : Prop where
  set : v.getLsbD i = true
  below : ∀ j < i, v.getLsbD j = false

theorem bitmap_zipIdx : ∀ p ∈ lowestBitBitmap.toList.zipIdx, p.2 ≠ 0 →
    p.2.testBit p.1 = true ∧ p.1 < 8 ∧ ∀ j < p.1, p.2.testBit j = false := by decide +kernel

theorem getD_mem_zipIdx (table : Array Nat) {b : Nat} (hb : b < table.size) :
    (table.getD b 0, b) ∈ table.toList.zipIdx := by
  rw [List.mem_zipIdx_iff_getElem?, Array.getElem?_toList, Array.getD_eq_getD_getElem?,
    Array.getElem?_eq_getElem hb, Option.getD_some]

theorem bitmap_lowest (b : Fin 256) (hb : b ≠ 0) :
    b.val.testBit (lowestBitBitmap.getD b 0) = true ∧ lowestBitBitmap.getD b 0 < 8 ∧
      ∀ j < lowestBitBitmap.getD b 0, b.val.testBit j = false := by
  have hsize : lowestBitBitmap.size = 256 := by decide +kernel
  have hlt : b.val < lowestBitBitmap.size := by rw [hsize]; exact b.isLt
  have hne : b.val ≠ 0 := fun h => hb (Fin.ext h)
  have hmem := getD_mem_zipIdx lowestBitBitmap hlt
  generalize lowestBitBitmap.getD b 0 = i at hmem ⊢
  exact bitmap_zipIdx _ hmem hne

/-- One byte of the word: the table entry of a nonzero byte is the lowest set bit of the
word when every lower bit is clear. -/
theorem byte_lowest (v mask : BitVec 32) (k : Nat)
    (hmask : ∀ j < 32, mask.getLsbD j = decide (k ≤ j ∧ j < k + 8))
    (hne : v &&& mask ≠ 0) (hlow : ∀ j < k, v.getLsbD j = false) :
    IsLowestBit v (lowestBitBitmap.getD ((v &&& mask) >>> k).toNat 0 + k) := by
  have hbit : ∀ j, ((v &&& mask) >>> k).toNat.testBit j =
      (decide (j < 8) && v.getLsbD (k + j)) := by
    intro j
    rw [BitVec.testBit_toNat, BitVec.getLsbD_ushiftRight, BitVec.getLsbD_and]
    by_cases hj : k + j < 32
    · rw [hmask _ hj]
      by_cases h8 : j < 8 <;> simp [h8, Bool.and_comm]
    · simp [BitVec.getLsbD_of_ge _ _ (Nat.le_of_not_lt hj)]
  have hlt : ((v &&& mask) >>> k).toNat < 2 ^ 8 := by
    apply Nat.lt_pow_two_of_testBit
    intro i hi
    rw [hbit]
    simp [Nat.not_lt.mpr hi]
  have hne' : ((v &&& mask) >>> k).toNat ≠ 0 := by
    intro h0
    apply hne
    apply BitVec.eq_of_getLsbD_eq
    intro i hi
    rw [BitVec.getLsbD_and, hmask i hi]
    by_cases hin : k ≤ i ∧ i < k + 8
    · have := hbit (i - k)
      rw [h0, Nat.zero_testBit, Nat.add_sub_cancel' hin.1,
        decide_eq_true (show i - k < 8 by omega)] at this
      simp [show v.getLsbD i = false by simpa using this.symm]
    · simp [hin]
  obtain ⟨hset, hlt8, hbelow⟩ := bitmap_lowest ⟨_, hlt⟩ (by simpa [Fin.ext_iff] using hne')
  constructor
  · rw [hbit] at hset
    rw [Nat.add_comm]
    exact (Bool.and_eq_true _ _ ▸ hset).2
  · intro j hj
    by_cases hjk : j < k
    · exact hlow j hjk
    · have h := hbelow (j - k) (by simp only at hj ⊢; omega)
      rw [hbit, Nat.add_sub_cancel' (Nat.le_of_not_lt hjk)] at h
      simpa [show j - k < 8 by simp only at hj hlt8; omega] using h

/-- A clear byte has clear bits. -/
theorem byte_clear {v mask : BitVec 32} {k : Nat}
    (hmask : ∀ j < 32, mask.getLsbD j = decide (k ≤ j ∧ j < k + 8)) (hz : v &&& mask = 0)
    {j : Nat} (hj : k ≤ j ∧ j < k + 8) : v.getLsbD j = false := by
  by_cases h32 : j < 32
  · have h := congrArg (BitVec.getLsbD · j) hz
    simpa [hmask j h32, hj] using h
  · exact BitVec.getLsbD_of_ge _ _ (Nat.le_of_not_lt h32)

/-- A nonzero word is mapped to one plus the index of its lowest set bit. -/
theorem rtFfs_lowest (v : BitVec 32) (hv : v ≠ 0) :
    ∃ i, rtFfs v = i + 1 ∧ IsLowestBit v i := by
  have m0 : ∀ j < 32, (0xff : BitVec 32).getLsbD j = decide (0 ≤ j ∧ j < 0 + 8) := by decide
  have m1 : ∀ j < 32, (0xff00 : BitVec 32).getLsbD j = decide (8 ≤ j ∧ j < 8 + 8) := by decide
  have m2 : ∀ j < 32, (0xff0000 : BitVec 32).getLsbD j = decide (16 ≤ j ∧ j < 16 + 8) := by decide
  have m3 : ∀ j < 32, (0xff000000 : BitVec 32).getLsbD j = decide (24 ≤ j ∧ j < 24 + 8) := by decide
  by_cases h0 : v &&& 0xff = 0
  · by_cases h1 : v &&& 0xff00 = 0
    · by_cases h2 : v &&& 0xff0000 = 0
      · have h3 : v &&& 0xff000000 ≠ 0 := by
          intro h3
          apply hv
          apply BitVec.eq_of_getLsbD_eq
          intro i hi
          rw [show (0 : BitVec 32).getLsbD i = false by simp]
          rcases (by omega : i < 8 ∨ 8 ≤ i ∧ i < 16 ∨ 16 ≤ i ∧ i < 24 ∨ 24 ≤ i) with h | h | h | h
          · exact byte_clear m0 h0 (by omega)
          · exact byte_clear m1 h1 (by omega)
          · exact byte_clear m2 h2 (by omega)
          · exact byte_clear m3 h3 (by omega)
        refine ⟨_, ?_, byte_lowest v _ 24 m3 h3 ?_⟩
        · simp only [rtFfs, hv, h0, h1, h2, ne_eq, not_true_eq_false, ↓reduceIte]
        · intro j hj
          rcases (by omega : j < 8 ∨ 8 ≤ j ∧ j < 16 ∨ 16 ≤ j ∧ j < 24) with h | h | h
          · exact byte_clear m0 h0 (by omega)
          · exact byte_clear m1 h1 (by omega)
          · exact byte_clear m2 h2 (by omega)
      · refine ⟨_, ?_, byte_lowest v _ 16 m2 h2 ?_⟩
        · simp only [rtFfs, hv, h0, h1, h2, ne_eq, not_true_eq_false, not_false_eq_true, ↓reduceIte]
        · intro j hj
          rcases (by omega : j < 8 ∨ 8 ≤ j ∧ j < 16) with h | h
          · exact byte_clear m0 h0 (by omega)
          · exact byte_clear m1 h1 (by omega)
    · refine ⟨_, ?_, byte_lowest v _ 8 m1 h1 ?_⟩
      · simp only [rtFfs, hv, h0, h1, ne_eq, not_true_eq_false, not_false_eq_true, ↓reduceIte]
      · intro j hj
        exact byte_clear m0 h0 (by omega)
  · refine ⟨_, ?_, byte_lowest v _ 0 m0 h0 (by simp)⟩
    simp only [rtFfs, hv, h0, ne_eq, not_false_eq_true, ↓reduceIte]
    rfl

end RtThread.Kservice
