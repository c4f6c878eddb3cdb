import Mathlib.Data.List.Basic

/-!
# Binary search

A search in the indices from `lo` to before `hi`. `cmp k` is the sign of the comparison of the entry
at `k` with the one that is looked for. The entries need not be sorted: an entry is found when
those that the search looks at on its way are on the right side of it.
-/
namespace BinarySearch

def mid (lo hi : Nat) : Nat := (lo + hi - 1) / 2

theorem le_mid {lo hi : Nat} (h : lo < hi) : lo ≤ mid lo hi := by
  unfold mid
  omega

theorem mid_lt {lo hi : Nat} (h : lo < hi) : mid lo hi < hi := by
  unfold mid
  omega

def search (cmp : Nat → Int) (lo hi : Nat) : Option Nat :=
  if h : lo < hi then
    have := le_mid h
    have := mid_lt h
    if cmp (mid lo hi) = 0 then some (mid lo hi)
    else if 0 < cmp (mid lo hi) then search cmp lo (mid lo hi)
    else search cmp (mid lo hi + 1) hi
  else none
termination_by hi - lo

/-- The indices that a search for the entry at `p` looks at. -/
def probes (p lo hi : Nat) : List Nat :=
  if h : lo < hi then
    have := le_mid h
    have := mid_lt h
    if mid lo hi = p then [mid lo hi]
    else if p < mid lo hi then mid lo hi :: probes p lo (mid lo hi)
    else mid lo hi :: probes p (mid lo hi + 1) hi
  else []
termination_by hi - lo

variable {cmp : Nat → Int} {lo hi p : Nat}

theorem search_bounds {k : Nat} (h : search cmp lo hi = some k) :
    lo ≤ k ∧ k < hi ∧ cmp k = 0 := by
  fun_induction search cmp lo hi with
  | case1 lo hi hlt hle hmid hzero =>
    cases h
    exact ⟨hle, hmid, hzero⟩
  | case2 lo hi hlt hle hmid hne hpos ih =>
    obtain ⟨h1, h2, h3⟩ := ih h
    exact ⟨h1, by omega, h3⟩
  | case3 lo hi hlt hle hmid hne hneg ih =>
    obtain ⟨h1, h2, h3⟩ := ih h
    exact ⟨by omega, h2, h3⟩
  | case4 lo hi hge => cases h

theorem search_eq_none (h : ∀ k, lo ≤ k → k < hi → cmp k ≠ 0) : search cmp lo hi = none := by
  cases hs : search cmp lo hi with
  | none => rfl
  | some k =>
    obtain ⟨h1, h2, h3⟩ := search_bounds hs
    exact absurd h3 (h k h1 h2)

theorem probes_bounds {k : Nat} (h : k ∈ probes p lo hi) : lo ≤ k ∧ k < hi := by
  fun_induction probes p lo hi with
  | case1 lo hi hlt hle hmid hmp =>
    rw [List.mem_singleton.mp h]
    exact ⟨hle, hmid⟩
  | case2 lo hi hlt hle hmid hmp hp ih =>
    cases List.mem_cons.mp h with
    | inl h => exact h ▸ ⟨hle, hmid⟩
    | inr h => exact ⟨(ih h).1, by have := (ih h).2; omega⟩
  | case3 lo hi hlt hle hmid hmp hp ih =>
    cases List.mem_cons.mp h with
    | inl h => exact h ▸ ⟨hle, hmid⟩
    | inr h => exact ⟨by have := (ih h).1; omega, (ih h).2⟩
  | case4 lo hi hge => cases h

/-- The only entry that is equal is found when the search turns to its side each time. -/
theorem search_eq_some_iff (hlo : lo ≤ p) (hhi : p < hi)
    (hcmp : ∀ k, lo ≤ k → k < hi → (cmp k = 0 ↔ k = p)) :
    search cmp lo hi = some p ↔
      ∀ k ∈ probes p lo hi, (k < p → cmp k < 0) ∧ (p < k → 0 < cmp k) := by
  fun_induction probes p lo hi with
  | case1 lo hi hlt hle hmid hmp =>
    rw [search, dif_pos hlt, if_pos ((hcmp _ hle hmid).mpr hmp), hmp]
    simp
  | case2 lo hi hlt hle hmid hmp hp ih =>
    have hne : cmp (mid lo hi) ≠ 0 := fun h => hmp ((hcmp _ hle hmid).mp h)
    rw [search, dif_pos hlt, if_neg hne, List.forall_mem_cons,
      ← ih hlo hp fun k h1 h2 => hcmp k h1 (Nat.lt_trans h2 hmid)]
    split
    next hpos =>
      apply (and_iff_right _).symm
      exact ⟨fun h => by omega, fun _ => hpos⟩
    next hneg =>
      apply iff_of_false
      · intro h
        have := (search_bounds h).1
        omega
      · exact fun h => hneg (h.1.2 hp)
  | case3 lo hi hlt hle hmid hmp hp ih =>
    have hne : cmp (mid lo hi) ≠ 0 := fun h => hmp ((hcmp _ hle hmid).mp h)
    rw [search, dif_pos hlt, if_neg hne, List.forall_mem_cons,
      ← ih (by omega) hhi fun k h1 h2 => hcmp k (by omega) h2]
    split
    next hpos =>
      apply iff_of_false
      · intro h
        have := (search_bounds h).2.1
        omega
      · intro h
        omega
    next hneg =>
      apply (and_iff_right _).symm
      exact ⟨fun _ => by omega, fun h => absurd h hp⟩
  | case4 lo hi hge => omega

end BinarySearch
