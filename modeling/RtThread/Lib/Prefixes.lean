import Mathlib.Data.List.Basic

/-!
# Longest common prefixes

The common prefix of two words is the longest word both begin with, and the common prefix of
several words is found by taking it with one word after the other.
-/
namespace Prefixes

variable {α : Type*} [DecidableEq α]

/-- The longest common prefix of two words. -/
def common : List α → List α → List α
  | a :: as, b :: bs => if a = b then a :: common as bs else []
  | _, _ => []

@[simp] theorem common_nil_left (ys : List α) : common [] ys = [] := by
  cases ys <;> rfl

@[simp] theorem common_nil_right (xs : List α) : common xs [] = [] := by
  cases xs <;> rfl

theorem prefix_common_iff {p xs ys : List α} : p <+: common xs ys ↔ p <+: xs ∧ p <+: ys := by
  induction xs generalizing p ys with
  | nil => simp +contextual [common_nil_left]
  | cons x xs ih =>
    cases ys with
    | nil => simp +contextual [common_nil_right]
    | cons y ys =>
      cases p with
      | nil => simp
      | cons c p =>
        by_cases h : x = y
        · subst h
          simp only [common, if_pos, List.cons_prefix_cons, ih]
          tauto
        · simp only [common, if_neg h, List.cons_prefix_cons, List.prefix_nil, reduceCtorEq,
            false_iff, not_and]
          rintro ⟨rfl, -⟩ rfl
          exact absurd rfl h

theorem common_prefix_left (xs ys : List α) : common xs ys <+: xs :=
  (prefix_common_iff.mp (List.prefix_refl _)).1

theorem common_prefix_right (xs ys : List α) : common xs ys <+: ys :=
  (prefix_common_iff.mp (List.prefix_refl _)).2

theorem common_self (xs : List α) : common xs xs = xs := by
  have h : xs <+: common xs xs := prefix_common_iff.mpr ⟨List.prefix_refl _, List.prefix_refl _⟩
  exact (common_prefix_left xs xs).eq_of_length_le h.length_le

theorem common_comm (xs ys : List α) : common xs ys = common ys xs := by
  have h : ∀ us vs : List α, common us vs <+: common vs us := fun us vs =>
    prefix_common_iff.mpr ⟨common_prefix_right us vs, common_prefix_left us vs⟩
  exact (h xs ys).eq_of_length_le (h ys xs).length_le

/-- A word cut at some length has the common prefix cut at this length. -/
theorem common_take (n : Nat) (xs ys : List α) :
    common (xs.take n) ys = (xs.take (common xs ys).length).take n := by
  induction n generalizing xs ys with
  | zero => simp
  | succ n ih =>
    cases xs with
    | nil => simp
    | cons x xs =>
      cases ys with
      | nil => simp
      | cons y ys =>
        by_cases h : x = y
        · simp [common, h, ih]
        · simp [common, h]

/-- The longest common prefix of several words. -/
def commonAll : List (List α) → List α
  | [] => []
  | w :: ws => ws.foldl common w

theorem prefix_foldl_common_iff {p w : List α} {ws : List (List α)} :
    p <+: ws.foldl common w ↔ p <+: w ∧ ∀ x ∈ ws, p <+: x := by
  induction ws generalizing w with
  | nil => simp
  | cons x ws ih => rw [List.foldl_cons, ih, prefix_common_iff, List.forall_mem_cons, and_assoc]

/-- What every word begins with, the common prefix begins with, and nothing else. -/
theorem prefix_commonAll_iff {p : List α} {ws : List (List α)} (h : ws ≠ []) :
    p <+: commonAll ws ↔ ∀ x ∈ ws, p <+: x := by
  obtain ⟨w, ws, rfl⟩ := List.exists_cons_of_ne_nil h
  rw [commonAll, prefix_foldl_common_iff, List.forall_mem_cons]

end Prefixes
