import Mathlib.Data.List.Basic

/-!
# Bubble sort

A pass compares neighbours from the first on and exchanges two in the wrong order. Each pass does
one comparison less than the one before. The comparison need not tell two elements apart: those that
it does not are kept in the order that they have.
-/
namespace BubbleSort

variable {α β : Type*} (gt : α → α → Bool)

/-- The first `k` comparisons of a pass. -/
def pass : Nat → List α → List α
  | k + 1, a :: b :: l => if gt a b then b :: pass k (a :: l) else a :: pass k (b :: l)
  | _, l => l

/-- The first `i` passes over a list of `n` elements. -/
def passes (n i : Nat) (l : List α) : List α :=
  (List.range i).foldl (fun l i => pass gt (n - 1 - i) l) l

def sort (l : List α) : List α := passes gt l.length (l.length - 1) l

@[simp] theorem pass_zero (l : List α) : pass gt 0 l = l := rfl

theorem pass_cons (k : Nat) (a b : α) (l : List α) :
    pass gt (k + 1) (a :: b :: l) =
      if gt a b then b :: pass gt k (a :: l) else a :: pass gt k (b :: l) := rfl

@[simp] theorem passes_zero (n : Nat) (l : List α) : passes gt n 0 l = l := rfl

theorem passes_succ (n i : Nat) (l : List α) :
    passes gt n (i + 1) l = pass gt (n - 1 - i) (passes gt n i l) := by
  simp [passes, List.range_succ]

/-! ## The elements -/

theorem pass_perm (k : Nat) (l : List α) : (pass gt k l).Perm l := by
  fun_induction pass gt k l with
  | case1 k a b l h ih => exact (ih.cons b).trans (.swap a b l)
  | case2 k a b l h ih => exact ih.cons a
  | case3 k l => exact .refl l

theorem passes_perm (n i : Nat) (l : List α) : (passes gt n i l).Perm l := by
  induction i with
  | zero => exact .refl l
  | succ i ih =>
    rw [passes_succ]
    exact (pass_perm gt _ _).trans ih

theorem sort_perm (l : List α) : (sort gt l).Perm l := passes_perm gt _ _ l

theorem pass_map (f : β → α) (k : Nat) (l : List β) :
    pass gt k (l.map f) = (pass (fun a b => gt (f a) (f b)) k l).map f := by
  fun_induction pass (fun a b => gt (f a) (f b)) k l with
  | case1 k a b l h ih =>
    rw [List.map_cons, List.map_cons, pass_cons, if_pos h, List.map_cons, ← ih, List.map_cons]
  | case2 k a b l h ih =>
    rw [List.map_cons, List.map_cons, pass_cons, if_neg h, List.map_cons, ← ih, List.map_cons]
  | case3 k l h =>
    cases k with
    | zero => rfl
    | succ k =>
      match l, h with
      | [], _ | [_], _ => rfl
      | a :: b :: l, h => exact absurd rfl (h k a b l rfl)

theorem sort_map (f : β → α) (l : List β) :
    sort gt (l.map f) = (sort (fun a b => gt (f a) (f b)) l).map f := by
  unfold sort
  rw [List.length_map]
  generalize l.length - 1 = i
  induction i with
  | zero => rfl
  | succ i ih => rw [passes_succ, ih, pass_map, passes_succ]

/-! ## The order of equal elements -/

variable {C : α → α → Prop} {l : List α} {k : Nat}

/-- A relation from earlier to later elements is kept when it holds in one direction of two elements
that are exchanged. -/
theorem pass_pairwise (hC : ∀ a b, gt a b → C b a) (k : Nat) (hl : l.Pairwise C) :
    (pass gt k l).Pairwise C := by
  fun_induction pass gt k l with
  | case1 k a b l h ih =>
    obtain ⟨hab, hb, hl⟩ : (∀ x ∈ b :: l, C a x) ∧ (∀ x ∈ l, C b x) ∧ l.Pairwise C := by
      simpa using hl
    have hal : (a :: l).Pairwise C :=
      List.pairwise_cons.mpr ⟨fun x hx => hab x (List.mem_cons_of_mem b hx), hl⟩
    apply List.pairwise_cons.mpr ⟨fun x hx => ?_, ih hal⟩
    cases List.mem_cons.mp ((pass_perm gt k _).mem_iff.mp hx) with
    | inl hxa => exact hxa ▸ hC a b h
    | inr hxl => exact hb x hxl
  | case2 k a b l h ih =>
    have ⟨ha, hbl⟩ := List.pairwise_cons.mp hl
    exact List.pairwise_cons.mpr
      ⟨fun x hx => ha x ((pass_perm gt k _).mem_iff.mp hx), ih hbl⟩
  | case3 k l => exact hl

theorem sort_pairwise (hC : ∀ a b, gt a b → C b a) (hl : l.Pairwise C) :
    (sort gt l).Pairwise C := by
  unfold sort
  generalize l.length - 1 = i
  induction i with
  | zero => exact hl
  | succ i ih =>
    rw [passes_succ]
    exact pass_pairwise gt hC _ ih

/-! ## The sorted list -/

theorem pass_append {m : List α} (hk : l.length = k + 1) :
    pass gt k (l ++ m) = pass gt k l ++ m := by
  induction k generalizing l with
  | zero => rfl
  | succ k ih =>
    match l, hk with
    | a :: b :: l, hk =>
      have hlen : ∀ x : α, (x :: l).length = k + 1 := fun _ => by
        simpa using hk
      rw [List.cons_append, List.cons_append, pass_cons, pass_cons, ← List.cons_append,
        ← List.cons_append, ih (hlen a), ih (hlen b)]
      split <;> rfl

variable {gt}
variable (hasymm : ∀ a b, gt a b → ¬ gt b a) (htrans : ∀ a b c, ¬ gt a b → ¬ gt b c → ¬ gt a c)
include hasymm htrans

/-- A pass over the whole list ends with a greatest element. -/
theorem pass_last (hk : l.length = k + 1) :
    ∃ l' m, pass gt k l = l' ++ [m] ∧ ∀ a ∈ l', ¬ gt a m := by
  induction k generalizing l with
  | zero =>
    match l, hk with
    | [m], _ => exact ⟨[], m, rfl, List.forall_mem_nil _⟩
  | succ k ih =>
    match l, hk with
    | a :: b :: l, hk =>
      have hlen : ∀ x : α, (x :: l).length = k + 1 := fun _ => by
        simpa using hk
      -- `x` is carried on behind `y`, which is not greater
      have hcarry : ∀ x y, ¬ gt y x →
          ∃ l' m, y :: pass gt k (x :: l) = l' ++ [m] ∧ ∀ a ∈ l', ¬ gt a m := fun x y hyx => by
        obtain ⟨l', m, heq, hm⟩ := ih (hlen x)
        have hx : x ∈ l' ++ [m] := heq ▸ (pass_perm gt k _).mem_iff.mpr List.mem_cons_self
        have hxm : ¬ gt x m := by
          cases List.mem_append.mp hx with
          | inl h => exact hm x h
          | inr h =>
            rw [List.mem_singleton.mp h]
            exact fun h => hasymm m m h h
        exact ⟨y :: l', m, congrArg (y :: ·) heq,
          List.forall_mem_cons.mpr ⟨htrans y x m hyx hxm, hm⟩⟩
      rw [pass_cons]
      split
      next h => exact hcarry a b (hasymm a b h)
      next h => exact hcarry b a h

/-- After `i` passes the last `i` elements are sorted, and not smaller than the others. -/
theorem passes_sorted {i : Nat} (hi : i < l.length) :
    ∃ as bs, passes gt l.length i l = as ++ bs ∧ as.length = l.length - i ∧
      bs.Pairwise (fun a b => ¬ gt a b) ∧ ∀ a ∈ as, ∀ b ∈ bs, ¬ gt a b := by
  induction i with
  | zero => exact ⟨l, [], (List.append_nil l).symm, rfl, .nil, by simp⟩
  | succ i ih =>
    obtain ⟨as, bs, heq, hlen, hbs, hab⟩ := ih (by omega)
    have hk : as.length = l.length - 1 - i + 1 := by omega
    obtain ⟨as', m, hpass, hm⟩ := pass_last hasymm htrans hk
    have hperm : (as' ++ [m]).Perm as := hpass ▸ pass_perm gt _ as
    have hmem : ∀ a ∈ as' ++ [m], ∀ b ∈ bs, ¬ gt a b := fun a ha =>
      hab a (hperm.mem_iff.mp ha)
    refine ⟨as', m :: bs, ?_, ?_, ?_, ?_⟩
    · rw [passes_succ, heq, pass_append gt hk, hpass, List.append_assoc, List.singleton_append]
    · have := hperm.length_eq
      rw [List.length_append, List.length_singleton] at this
      omega
    · exact List.pairwise_cons.mpr ⟨hmem m (by simp), hbs⟩
    · intro a ha b hb
      cases List.mem_cons.mp hb with
      | inl h => exact h ▸ hm a ha
      | inr h => exact hmem a (List.mem_append_left _ ha) b h

theorem sort_sorted (l : List α) : (sort gt l).Pairwise fun a b => ¬ gt a b := by
  cases l with
  | nil => exact .nil
  | cons x l =>
    obtain ⟨as, bs, heq, hlen, hbs, hab⟩ := passes_sorted hasymm htrans (l := x :: l)
      (i := l.length) (Nat.lt_succ_self _)
    obtain ⟨a, rfl⟩ : ∃ a, as = [a] := List.length_eq_one_iff.mp (by simpa using hlen)
    have hsort : sort gt (x :: l) = a :: bs := heq
    rw [hsort]
    exact List.pairwise_cons.mpr ⟨hab a List.mem_cons_self, hbs⟩

end BubbleSort
