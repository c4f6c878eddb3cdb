import RtThread.SchedulerSmp

/-!
# The two forms of `__rt_ffs`

With `RT_USING_TINY_FFS` the lowest set bit is singled out, and a table is entered with its
remainder by 37, in which the 32 powers of two are different. Both forms name the lowest set bit,
so the scheduler finds the same priority with either of them.
-/
namespace RtThread

namespace Kservice

/-- `__lowest_bit_bitmap` with `RT_USING_TINY_FFS`. -/
def tinyLowestBitBitmap : List Nat :=
  [0, 1, 2, 27, 3, 24, 28, 32,
   4, 17, 25, 31, 29, 12, 32, 14,
   5, 8, 18, 32, 26, 23, 32, 16,
   30, 11, 13, 7, 32, 22, 15, 10,
   6, 21, 9, 20, 19]

/-- `__rt_ffs` with `RT_USING_TINY_FFS`. -/
def tinyRtFfs (value : BitVec 32) : Nat :=
  tinyLowestBitBitmap.getD (((value &&& (value - 1)) ^^^ value).toNat % 37) 0

theorem IsLowestBit.lt {v : BitVec 32} {i : Nat} (h : IsLowestBit v i) : i < 32 := by
  by_contra hge
  have hset := h.set
  rw [BitVec.getLsbD_of_ge v i (by omega)] at hset
  cases hset

/-- The subtraction clears the lowest set bit, and the exclusive or keeps nothing else. -/
theorem isolated {v : BitVec 32} {i : Nat} (h : IsLowestBit v i) :
    (v &&& (v - 1)) ^^^ v = BitVec.twoPow 32 i := by
  apply BitVec.eq_of_getLsbD_eq
  intro j hj
  have hlower : (∃ k < j, v.getLsbD k = true) ↔ i < j := by
    constructor
    · rintro ⟨k, hkj, hk⟩
      by_contra hle
      rw [h.below k (by omega)] at hk
      cases hk
    · intro hij
      exact ⟨i, hij, h.set⟩
  have hbit : (v &&& (v - 1) ^^^ v).getLsbD j = (v.getLsbD j && !decide (i < j)) := by
    rw [show v - 1 = ~~~(-v) from (BitVec.not_neg v).symm, BitVec.getLsbD_xor, BitVec.getLsbD_and,
      BitVec.getLsbD_not, BitVec.getLsbD_neg, decide_eq_true hj]
    simp only [hlower]
    cases v.getLsbD j <;> cases decide (i < j) <;> rfl
  rw [hbit, BitVec.getLsbD_twoPow, decide_eq_true h.lt]
  rcases Nat.lt_trichotomy j i with hlt | rfl | hgt
  · rw [h.below j hlt]
    simp [show ¬ i = j by omega]
  · simp [h.set]
  · simp [hgt, show ¬ i = j by omega]

/-- The remainders of the powers of two lead to their exponents. -/
theorem tinyBitmap_power : ∀ i : Fin 32,
    tinyLowestBitBitmap.getD ((BitVec.twoPow 32 i).toNat % 37) 0 = i + 1 := by decide

theorem tinyRtFfs_lowest {v : BitVec 32} {i : Nat} (h : IsLowestBit v i) :
    tinyRtFfs v = i + 1 := by
  rw [tinyRtFfs, isolated h]
  exact tinyBitmap_power ⟨i, h.lt⟩

theorem tinyRtFfs_eq : tinyRtFfs = rtFfs := by
  funext v
  by_cases hzero : v = 0
  · subst hzero
    rfl
  · obtain ⟨i, hffs, hlow⟩ := rtFfs_lowest v hzero
    rw [tinyRtFfs_lowest hlow, hffs]

end Kservice

namespace Scheduler

open Kservice

/-- `highest_ready_priority` with `RT_USING_TINY_FFS`. -/
def tinyHighestReadyPriority (c : Config) (k : Kernel) : Nat :=
  if 32 < c.priorityMax then
    let number := tinyRtFfs k.readyPriorityGroup - 1
    number * 8 + tinyRtFfs ((k.readyTable number).setWidth 32) - 1
  else tinyRtFfs k.readyPriorityGroup - 1

theorem tinyHighestReadyPriority_eq (c : Config) (k : Kernel) :
    tinyHighestReadyPriority c k = highestReadyPriority c k := by
  unfold tinyHighestReadyPriority highestReadyPriority
  rw [tinyRtFfs_eq]

end Scheduler

namespace SchedulerSmp

open Kservice Scheduler

/-- `number` with `RT_USING_TINY_FFS`. -/
def tinyNumber (c : SmpConfig) (q : Queue) : Nat := wsub c.width (tinyRtFfs q.priorityGroup) 1

/-- `highest_ready_priority` with `RT_USING_TINY_FFS` and several processors. -/
def tinyReadyPriority (c : SmpConfig) (q : Queue) : Nat :=
  if 32 < c.priorityMax then
    let row := tinyRtFfs ((q.readyTable (tinyNumber c q)).setWidth 32)
    wsub c.width (wadd c.width (tinyNumber c q * 8 % 2 ^ c.width) row) 1
  else wsub c.width (tinyRtFfs q.priorityGroup) 1

theorem tinyReadyPriority_eq (c : SmpConfig) (q : Queue) :
    tinyReadyPriority c q = readyPriority c q := by
  unfold tinyReadyPriority readyPriority tinyNumber number
  rw [tinyRtFfs_eq]

/-- Whichever form is configured, nothing is found in an empty word, the lowest set bit in
another, and the same priority by the scheduler. -/
theorem ffs_agree :
    (∀ value, (value = 0 ∧ tinyRtFfs value = 0 ∧ rtFfs value = 0) ∨
      ∃ i, IsLowestBit value i ∧ tinyRtFfs value = i + 1 ∧ rtFfs value = i + 1) ∧
    (∀ (c : Config) (k : Kernel), tinyHighestReadyPriority c k = highestReadyPriority c k) ∧
    ∀ (c : SmpConfig) (q : Queue), tinyReadyPriority c q = readyPriority c q := by
  refine ⟨?_, tinyHighestReadyPriority_eq, tinyReadyPriority_eq⟩
  intro value
  by_cases hzero : value = 0
  · left
    subst hzero
    exact ⟨rfl, rfl, rfl⟩
  · right
    obtain ⟨i, hffs, hlow⟩ := rtFfs_lowest value hzero
    exact ⟨i, hlow, tinyRtFfs_lowest hlow, hffs⟩

end SchedulerSmp

end RtThread
