import Mathlib.Data.Nat.ModEq
import Mathlib.Data.List.Range
import Mathlib.Logic.Function.Basic

/-!
# Windows of a cyclic buffer

A buffer of `n` cells is read cyclically: `window pool n off len` is the list of
`len` cells from the offset `off` on. A window grows at its end by writing the cell
behind it and at its front by writing the cell before it, as long as it does not
reach round the whole buffer.
-/
namespace Cyclic

variable {α : Type*} {pool : Nat → α} {n off len : Nat}

def window (pool : Nat → α) (n off len : Nat) : List α :=
  (List.range len).map fun i => pool ((off + i) % n)

@[simp] theorem length_window : (window pool n off len).length = len := by
  simp [window]

@[simp] theorem window_zero : window pool n off 0 = [] := rfl

theorem window_succ :
    window pool n off (len + 1) = window pool n off len ++ [pool ((off + len) % n)] := by
  simp [window, List.range_succ]

/-- Only the place of the offset in the buffer matters. -/
theorem window_mod : window pool n (off % n) len = window pool n off len := by
  simp [window]

theorem window_add (k : Nat) :
    window pool n off (len + k) = window pool n off len ++ window pool n (off + len) k := by
  induction k with
  | zero => simp
  | succ k ih => rw [← Nat.add_assoc, window_succ, ih, window_succ, List.append_assoc, Nat.add_assoc]

theorem window_cons :
    window pool n off (len + 1) = pool (off % n) :: window pool n (off + 1) len := by
  rw [Nat.add_comm len 1, window_add]
  rfl

/-- Cells less than a whole turn apart are different cells. -/
theorem mod_ne {i j : Nat} (hij : i < j) (hj : j < i + n) : (off + i) % n ≠ (off + j) % n := by
  intro h
  have hdvd := (Nat.modEq_iff_dvd' (by omega)).mp h
  have := Nat.le_of_dvd (by omega) hdvd
  omega

variable {pool' : Nat → α} {k : Nat} {l : List α}

theorem window_congr (h : ∀ i, i < len → pool' ((off + i) % n) = pool ((off + i) % n)) :
    window pool' n off len = window pool n off len :=
  List.map_congr_left fun i hi => h i (List.mem_range.mp hi)

/-- Writing the cell behind the window. -/
theorem window_push (v : α) (hlen : len < n) :
    window (Function.update pool ((off + len) % n) v) n off (len + 1) =
      window pool n off len ++ [v] := by
  rw [window_succ, Function.update_self]
  congr 1
  refine window_congr fun i hi => ?_
  exact Function.update_of_ne (mod_ne hi (by omega)) _ _

/-- Writing the cell before the window. -/
theorem window_pushFront (v : α) (hlen : len < n) (hoff : off < n) :
    window (Function.update pool off v) n off (len + 1) = v :: window pool n (off + 1) len := by
  rw [window_cons, Nat.mod_eq_of_lt hoff, Function.update_self]
  congr 1
  refine window_congr fun i hi => ?_
  have hne : (off + 0) % n ≠ (off + (1 + i)) % n := mod_ne (by omega) (by omega)
  rw [Nat.add_zero, Nat.mod_eq_of_lt hoff, ← Nat.add_assoc] at hne
  exact Function.update_of_ne hne.symm _ _

/-- The offset behind another one, without a division. -/
theorem succ_mod (hoff : off < n) : (off + 1) % n = if n ≤ off + 1 then 0 else off + 1 := by
  split
  · obtain rfl : n = off + 1 := by omega
    simp
  · exact Nat.mod_eq_of_lt (by omega)

/-- The offset some cells further on, without a division. -/
theorem wrap_mod (hoff : off < n) (hk : k ≤ n) :
    (off + k) % n = if off + k < n then off + k else off + k - n := by
  split
  · exact Nat.mod_eq_of_lt (by assumption)
  · rw [Nat.mod_eq_sub_mod (by omega), Nat.mod_eq_of_lt (by omega)]

/-- `pool'` is `pool` after the cells of `l` have been written from the offset `off` on. -/
structure Written (pool pool' : Nat → α) (n off : Nat) (l : List α) : Prop where
  new : ∀ i (hi : i < l.length), pool' ((off + i) % n) = l[i]
  old : ∀ i, l.length ≤ i → i < n → pool' ((off + i) % n) = pool ((off + i) % n)

theorem Written.window_eq (h : Written pool pool' n off l) : window pool' n off l.length = l := by
  refine List.ext_getElem length_window fun i _ hi => ?_
  simp [window, h.new i hi]

/-- Writing behind the window. -/
theorem Written.window_append (h : Written pool pool' n (off + len) l) (hlen : len + l.length ≤ n) :
    window pool' n off (len + l.length) = window pool n off len ++ l := by
  rw [window_add, h.window_eq]
  congr 1
  refine window_congr fun i hi => ?_
  have hold := h.old (n - len + i) (by omega) (by omega)
  rwa [show off + len + (n - len + i) = off + i + n by omega, Nat.add_mod_right] at hold

theorem Written.mod (h : Written pool pool' n (off % n) l) : Written pool pool' n off l where
  new i hi := by simpa using h.new i hi
  old i hi hn := by simpa using h.old i hi hn

/-- A part of a window at its front. -/
theorem window_take (hk : k ≤ len) : (window pool n off len).take k = window pool n off k := by
  obtain ⟨m, rfl⟩ := Nat.exists_eq_add_of_le hk
  rw [window_add, List.take_left' length_window]

theorem window_drop (hk : k ≤ len) :
    (window pool n off len).drop k = window pool n (off + k) (len - k) := by
  obtain ⟨m, rfl⟩ := Nat.exists_eq_add_of_le hk
  rw [window_add, List.drop_left' length_window, Nat.add_sub_cancel_left]

end Cyclic
