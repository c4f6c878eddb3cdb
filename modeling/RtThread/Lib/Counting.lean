import Mathlib.Data.List.Perm.Subperm

/-!
# The number of elements with a property

`AtLeast n p` says that at least `n` elements satisfy `p`, and `Exactly n p` that `n` do, over
a type that need not be finite. The number grows and shrinks by one with the elements that
begin and cease to satisfy the property.
-/
namespace Counting

variable {α : Type*} {p q : α → Prop} {n : Nat} {a : α}

def AtLeast (n : Nat) (p : α → Prop) : Prop :=
  ∃ l : List α, l.Nodup ∧ (∀ a ∈ l, p a) ∧ l.length = n

theorem atLeast_zero (p : α → Prop) : AtLeast 0 p :=
  ⟨[], List.nodup_nil, fun _ h => absurd h List.not_mem_nil, rfl⟩

theorem AtLeast.mono (h : AtLeast n p) (hpq : ∀ a, p a → q a) : AtLeast n q := by
  obtain ⟨l, hnd, hl, hlen⟩ := h
  exact ⟨l, hnd, fun a ha => hpq a (hl a ha), hlen⟩

theorem AtLeast.le {m : Nat} (h : AtLeast n p) (hm : m ≤ n) : AtLeast m p := by
  obtain ⟨l, hnd, hl, hlen⟩ := h
  refine ⟨l.take m, hnd.sublist (List.take_sublist _ _),
    fun a ha => hl a (List.mem_of_mem_take ha), ?_⟩
  rw [List.length_take]
  omega

/-- An element that did not satisfy the property and now does. -/
theorem AtLeast.succ (h : AtLeast n p) (hpq : ∀ a, p a → q a) (ha : ¬ p a) (hqa : q a) :
    AtLeast (n + 1) q := by
  obtain ⟨l, hnd, hl, hlen⟩ := h
  refine ⟨a :: l, List.nodup_cons.mpr ⟨fun hm => ha (hl a hm), hnd⟩, ?_, by simp [hlen]⟩
  intro b hb
  obtain rfl | hb := List.mem_cons.mp hb
  · exact hqa
  · exact hpq b (hl b hb)

/-- All elements but one keep the property. -/
theorem AtLeast.pred [DecidableEq α] (h : AtLeast n p) (hpq : ∀ b, b ≠ a → p b → q b) :
    AtLeast (n - 1) q := by
  obtain ⟨l, hnd, hl, hlen⟩ := h
  by_cases ha : a ∈ l
  · refine ⟨l.erase a, hnd.erase a, fun b hb => ?_, by rw [List.length_erase_of_mem ha, hlen]⟩
    obtain ⟨hba, hb⟩ := hnd.mem_erase_iff.mp hb
    exact hpq b hba (hl b hb)
  · have hne : ∀ b ∈ l, b ≠ a := fun b hb heq => ha (heq ▸ hb)
    refine ⟨l.take (n - 1), hnd.sublist (List.take_sublist _ _), fun b hb => ?_, ?_⟩
    · have hb := List.mem_of_mem_take hb
      exact hpq b (hne b hb) (hl b hb)
    · rw [List.length_take]
      omega

/-- The elements with the property are in a list that has fewer of them. -/
theorem not_atLeast_of_countP {b : α → Bool} {l : List α} (hl : ∀ a, p a → a ∈ l ∧ b a = true)
    (hcount : l.countP b < n) : ¬ AtLeast n p := by
  rintro ⟨l', hnd, hp, hlen⟩
  have hsub : l'.Subperm (l.filter b) := by
    refine hnd.subperm (fun a ha => ?_)
    obtain ⟨hmem, hb⟩ := hl a (hp a ha)
    exact List.mem_filter.mpr ⟨hmem, hb⟩
  have hle := hsub.length_le
  rw [← List.countP_eq_length_filter] at hle
  omega

theorem AtLeast.exists (h : AtLeast n p) (hn : 0 < n) : ∃ a, p a := by
  obtain ⟨l, -, hl, hlen⟩ := h
  obtain ⟨a, ha⟩ := List.exists_mem_of_length_pos (by omega : 0 < l.length)
  exact ⟨a, hl a ha⟩

def Exactly (n : Nat) (p : α → Prop) : Prop :=
  ∃ l : List α, l.Nodup ∧ (∀ a, a ∈ l ↔ p a) ∧ l.length = n

theorem exactly_zero (h : ∀ a, ¬ p a) : Exactly 0 p :=
  ⟨[], List.nodup_nil, fun a => ⟨fun ha => absurd ha List.not_mem_nil, fun ha => absurd ha (h a)⟩, rfl⟩

theorem Exactly.congr (h : Exactly n p) (hpq : ∀ a, p a ↔ q a) : Exactly n q := by
  obtain ⟨l, hnd, hl, hlen⟩ := h
  exact ⟨l, hnd, fun a => (hl a).trans (hpq a), hlen⟩

theorem Exactly.pos (h : Exactly n p) (ha : p a) : 0 < n := by
  obtain ⟨l, -, hl, rfl⟩ := h
  exact List.length_pos_of_mem ((hl a).mpr ha)

theorem Exactly.exists (h : Exactly n p) (hn : 0 < n) : ∃ a, p a := by
  obtain ⟨l, -, hl, rfl⟩ := h
  obtain ⟨a, ha⟩ := List.exists_mem_of_length_pos hn
  exact ⟨a, (hl a).mp ha⟩

/-- One element begins to satisfy the property. -/
theorem Exactly.insert (h : Exactly n p) (hpq : ∀ b, b ≠ a → (p b ↔ q b)) (ha : ¬ p a)
    (hqa : q a) : Exactly (n + 1) q := by
  obtain ⟨l, hnd, hl, hlen⟩ := h
  refine ⟨a :: l, List.nodup_cons.mpr ⟨fun hm => ha ((hl a).mp hm), hnd⟩, fun b => ?_, by simp [hlen]⟩
  rw [List.mem_cons]
  by_cases hba : b = a
  · subst hba
    simp [hqa]
  · rw [hl b, hpq b hba]
    simp [hba]

/-- One element ceases to satisfy the property. -/
theorem Exactly.erase [DecidableEq α] (h : Exactly n p) (hpq : ∀ b, b ≠ a → (p b ↔ q b)) (ha : p a)
    (hqa : ¬ q a) : Exactly (n - 1) q := by
  obtain ⟨l, hnd, hl, hlen⟩ := h
  refine ⟨l.erase a, hnd.erase a, fun b => ?_, ?_⟩
  · rw [hnd.mem_erase_iff, hl b]
    by_cases hba : b = a
    · subst hba
      simp [hqa]
    · simp [hba, hpq b hba]
  · rw [List.length_erase_of_mem ((hl a).mpr ha), hlen]

end Counting
