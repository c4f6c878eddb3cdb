import Mathlib.Data.BitVec

/-!
# Machine words as sets of bit positions

Setting and clearing one position, and emptiness.
-/
namespace BitSets

variable {w : Nat}

theorem getLsbD_single {p : Nat} (hp : p < w) (i : Nat) :
    (1#w <<< p).getLsbD i = decide (i = p) := by
  rw [BitVec.getLsbD_shiftLeft, BitVec.getLsbD_one]
  by_cases h : i = p
  · subst h
    simp [hp, Nat.zero_lt_of_lt hp]
  · by_cases hlt : i < p
    · simp [hlt, h]
    · have : i - p ≠ 0 := by omega
      simp [this, h]

/-- Setting position `p`. -/
theorem getLsbD_set (v : BitVec w) {p : Nat} (hp : p < w) (i : Nat) :
    (v ||| 1#w <<< p).getLsbD i = (v.getLsbD i || decide (i = p)) := by
  rw [BitVec.getLsbD_or, getLsbD_single hp]

/-- Clearing position `p`. -/
theorem getLsbD_clear (v : BitVec w) {p : Nat} (hp : p < w) {i : Nat} (hi : i < w) :
    (v &&& ~~~(1#w <<< p)).getLsbD i = (v.getLsbD i && !decide (i = p)) := by
  rw [BitVec.getLsbD_and, BitVec.getLsbD_not, getLsbD_single hp]
  simp [hi]

theorem ne_zero_iff (v : BitVec w) : v ≠ 0 ↔ ∃ i < w, v.getLsbD i = true := by
  constructor
  · intro h
    by_contra hne
    apply h
    apply BitVec.eq_of_getLsbD_eq
    intro i hi
    have : v.getLsbD i ≠ true := fun ht => hne ⟨i, hi, ht⟩
    simpa using this
  · rintro ⟨i, _, hi⟩ rfl
    simp at hi

end BitSets
