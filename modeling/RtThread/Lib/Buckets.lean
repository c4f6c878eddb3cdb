import Mathlib.Algebra.BigOperators.Group.Finset.Basic
import Mathlib.Algebra.Order.BigOperators.Group.Finset
import Mathlib.Data.List.Find

/-!
# Families of lists

Lists indexed by the numbers below `n`: the least index with a list that is not empty, and the
total length.
-/
namespace Buckets

variable {α : Type*} {n p : Nat} {q : Nat → List α}

/-- The least index with a list that is not empty. -/
def least (n : Nat) (q : Nat → List α) : Option Nat :=
  (List.range n).find? fun p => !(q p).isEmpty

theorem least_eq_some (hp : p < n) (hne : q p ≠ []) (hlow : ∀ i < p, q i = []) :
    least n q = some p := by
  rw [least, List.find?_range_eq_some]
  refine ⟨by simpa using hne, List.mem_range.mpr hp, fun i hi => ?_⟩
  simp [hlow i hi]

/-- The number of all elements. -/
def total (n : Nat) (q : Nat → List α) : Nat := ∑ p ∈ Finset.range n, (q p).length

theorem total_update (hp : p < n) (l : List α) :
    total n (Function.update q p l) + (q p).length = total n q + l.length := by
  have hmem : p ∈ Finset.range n := Finset.mem_range.mpr hp
  have hrest : ∑ i ∈ (Finset.range n).erase p, (Function.update q p l i).length =
      ∑ i ∈ (Finset.range n).erase p, (q i).length := by
    refine Finset.sum_congr rfl fun i hi => ?_
    rw [Function.update_of_ne (Finset.ne_of_mem_erase hi)]
  rw [total, total, ← Finset.sum_erase_add _ _ hmem, ← Finset.sum_erase_add _ _ hmem, hrest,
    Function.update_self]
  omega

theorem total_eq_zero (h : ∀ i < n, q i = []) : total n q = 0 := by
  rw [total, Finset.sum_eq_zero_iff]
  intro i hi
  rw [h i (Finset.mem_range.mp hi), List.length_nil]

end Buckets
