import Mathlib.Data.List.Pairwise

/-!
# Insertion between the two parts of a list

A predicate that stays true along a list once it holds splits the list into the
elements without it and, behind them, the elements with it. `insertSplit p x l`
is the list with `x` between the two parts.
-/
namespace Splits

variable {α : Type*} {R : α → α → Prop} {p : α → Bool} {x : α} {l l' : List α}

def before (p : α → Bool) (l : List α) : List α := l.filter (fun a => !p a)

def insertSplit (p : α → Bool) (x : α) (l : List α) : List α := before p l ++ x :: l.filter p

theorem mem_before {a : α} : a ∈ before p l ↔ a ∈ l ∧ p a = false := by
  simp [before]

theorem before_append (h : l.Pairwise (fun a b => p a = true → p b = true)) :
    before p l ++ l.filter p = l := by
  induction l with
  | nil => rfl
  | cons a l ih =>
    obtain ⟨ha, hl⟩ := List.pairwise_cons.mp h
    cases hp : p a with
    | false => simpa [before, hp] using ih hl
    | true =>
      have hall : ∀ b ∈ a :: l, p b = true := by
        intro b hb
        obtain rfl | hb := List.mem_cons.mp hb
        · exact hp
        · exact ha b hb hp
      have hnone : before p (a :: l) = [] := by
        rw [before, List.filter_eq_nil_iff]
        intro b hb
        simp [hall b hb]
      rw [hnone, List.nil_append, List.filter_eq_self]
      exact hall

theorem insertSplit_pairwise (h : l.Pairwise R) (hbefore : ∀ a ∈ l, p a = false → R a x)
    (hafter : ∀ a ∈ l, p a = true → R x a)
    (hcross : ∀ a ∈ l, ∀ b ∈ l, p a = false → p b = true → R a b) :
    (insertSplit p x l).Pairwise R := by
  rw [insertSplit, List.pairwise_append, List.pairwise_cons]
  refine ⟨h.filter _, ⟨?_, h.filter _⟩, ?_⟩
  · intro a ha
    obtain ⟨ha, hp⟩ := List.mem_filter.mp ha
    exact hafter a ha hp
  · intro a ha b hb
    obtain ⟨ha, hpa⟩ := mem_before.mp ha
    obtain rfl | hb := List.mem_cons.mp hb
    · exact hbefore a ha hpa
    · obtain ⟨hb, hpb⟩ := List.mem_filter.mp hb
      exact hcross a ha b hb hpa hpb

theorem insertSplit_sublist (h : l.Sublist l') : (insertSplit p x l).Sublist (insertSplit p x l') :=
  (h.filter _).append ((h.filter _).cons_cons x)

/-- A list stays a part of a longer one when only the longer one gets the element. -/
theorem sublist_insertSplit (h : l.Sublist l')
    (hl : l.Pairwise (fun a b => p a = true → p b = true)) : l.Sublist (insertSplit p x l') := by
  rw [← before_append hl]
  exact (h.filter _).append ((h.filter _).cons x)

theorem mem_insertSplit {a : α} : a ∈ insertSplit p x l ↔ a = x ∨ a ∈ l := by
  rw [insertSplit, List.mem_append, List.mem_cons, mem_before, List.mem_filter]
  cases hp : p a with
  | false => simp [or_comm]
  | true => simp

end Splits
