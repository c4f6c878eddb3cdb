import Mathlib.Data.List.Nodup

/-!
# Circular doubly linked lists

A list head `h` and the nodes `l`, linked by two functions on addresses.
`Seq nx a e l` follows the forward links from `a` through `l` to `e`.
-/
namespace Ring

variable {α : Type*}

def Seq (nx : α → α) : α → α → List α → Prop
  | a, e, [] => nx a = e
  | a, e, x :: l => nx a = x ∧ Seq nx x e l

structure Linked (nx pv : α → α) (h : α) (l : List α) : Prop where
  seq : Seq nx h h l
  back : ∀ x ∈ h :: l, pv (nx x) = x
  nodup : (h :: l).Nodup

variable {nx nx' pv pv' : α → α} {a e h : α} {l l₁ l₂ : List α}

theorem seq_append {x : α} : Seq nx a e (l₁ ++ x :: l₂) ↔ Seq nx a x l₁ ∧ Seq nx x e l₂ := by
  induction l₁ generalizing a with
  | nil => rfl
  | cons y l₁ ih =>
    simp only [List.cons_append, Seq, ih, and_assoc]

theorem Seq.congr (hs : Seq nx a e l) (hn : ∀ x ∈ a :: l, nx' x = nx x) : Seq nx' a e l := by
  induction l generalizing a with
  | nil => exact (hn a List.mem_cons_self).trans hs
  | cons x l ih =>
    exact ⟨(hn a List.mem_cons_self).trans hs.1,
      ih hs.2 fun y hy => hn y (List.mem_cons_of_mem a hy)⟩

/-- The same nodes, entered from another one. -/
theorem Seq.enter {b : α} (hs : Seq nx a e l) (hb : nx' b = nx a) (hn : ∀ x ∈ l, nx' x = nx x) :
    Seq nx' b e l := by
  cases l with
  | nil => exact hb.trans hs
  | cons x l => exact ⟨hb.trans hs.1, hs.2.congr hn⟩

theorem Seq.next_mem (hs : Seq nx a e l) {x : α} (hx : x ∈ a :: l) : nx x = e ∨ nx x ∈ l := by
  induction l generalizing a with
  | nil =>
    obtain rfl := List.mem_singleton.mp hx
    exact .inl hs
  | cons y l ih =>
    obtain rfl | hx := List.mem_cons.mp hx
    · exact .inr (hs.1 ▸ List.mem_cons_self)
    · obtain he | hm := ih hs.2 hx
      · exact .inl he
      · exact .inr (List.mem_cons_of_mem y hm)

theorem Linked.next_mem (hl : Linked nx pv h l) {x : α} (hx : x ∈ h :: l) : nx x ∈ h :: l := by
  obtain he | hm := hl.seq.next_mem hx
  · exact he ▸ List.mem_cons_self
  · exact List.mem_cons_of_mem h hm

theorem Linked.next_injective (hl : Linked nx pv h l) {x y : α} (hx : x ∈ h :: l)
    (hy : y ∈ h :: l) (hxy : nx x = nx y) : x = y := by
  rw [← hl.back x hx, hxy, hl.back y hy]

theorem Linked.congr (hl : Linked nx pv h l) (hn : ∀ x ∈ h :: l, nx' x = nx x)
    (hp : ∀ x ∈ h :: l, pv' x = pv x) : Linked nx' pv' h l := by
  refine ⟨hl.seq.congr hn, ?_, hl.nodup⟩
  intro x hx
  rw [hn x hx, hp _ (hl.next_mem hx)]
  exact hl.back x hx

theorem Seq.exists_last (hs : Seq nx a e l) : ∃ p ∈ a :: l, nx p = e := by
  induction l generalizing a with
  | nil => exact ⟨a, List.mem_cons_self, hs⟩
  | cons x l ih =>
    obtain ⟨p, hp, hpe⟩ := ih hs.2
    exact ⟨p, List.mem_cons_of_mem a hp, hpe⟩

/-- The node before a node, or before the head. -/
theorem Linked.prev_mem (hl : Linked nx pv h l) {x : α} (hx : x ∈ h :: l) :
    pv x ∈ h :: l ∧ nx (pv x) = x := by
  obtain ⟨p, hp, hpx⟩ : ∃ p ∈ h :: l, nx p = x := by
    obtain rfl | hx := List.mem_cons.mp hx
    · exact hl.seq.exists_last
    · obtain ⟨l₁, l₂, rfl⟩ := List.append_of_mem hx
      obtain ⟨p, hp, hpx⟩ := (seq_append.mp hl.seq).1.exists_last
      refine ⟨p, ?_, hpx⟩
      simp only [List.mem_cons, List.mem_append] at hp ⊢
      tauto
  have hback := hl.back p hp
  rw [hpx] at hback
  exact ⟨hback ▸ hp, by rw [hback, hpx]⟩

/-- No node of the list follows itself. -/
theorem Linked.next_ne (hl : Linked nx pv h l) {x : α} (hx : x ∈ l) : nx x ≠ x := by
  intro heq
  have hnd := hl.nodup
  obtain ⟨l₁, l₂, rfl⟩ := List.append_of_mem hx
  obtain ⟨p, hp, hpx⟩ := (seq_append.mp hl.seq).1.exists_last
  have hpl : p ∈ h :: (l₁ ++ x :: l₂) := by
    simp only [List.mem_cons, List.mem_append] at hp ⊢
    tauto
  obtain rfl := hl.next_injective hpl (List.mem_cons_of_mem h hx) (hpx.trans heq.symm)
  simp only [List.nodup_cons, List.mem_append, List.mem_cons, not_or, List.nodup_append] at hnd
  obtain rfl | hp := List.mem_cons.mp hp
  · exact hnd.1.2.1 rfl
  · exact hnd.2.2.2 p hp p (.inl rfl) rfl

/-- Unlinking a node. -/
theorem Linked.remove (hl : Linked nx pv h l) {x : α} (hx : x ∈ l)
    (hnp : nx' (pv x) = nx x) (hno : ∀ z, z ≠ pv x → nx' z = nx z)
    (hpn : pv' (nx x) = pv x) (hpo : ∀ z, z ≠ nx x → pv' z = pv z) :
    ∃ l', Linked nx' pv' h l' ∧ l.Perm (x :: l') := by
  obtain ⟨hp, hpx⟩ := hl.prev_mem (List.mem_cons_of_mem h hx)
  have hnd := hl.nodup
  have hinj := fun z hz => hl.next_injective (x := z) (y := x) hz (List.mem_cons_of_mem h hx)
  have hback := hl.back
  obtain ⟨l₁, l₂, rfl⟩ := List.append_of_mem hx
  obtain ⟨hs₁, hs₂⟩ := seq_append.mp hl.seq
  have hperm : (l₁ ++ x :: l₂).Perm (x :: (l₁ ++ l₂)) := List.perm_middle
  have hnd' : (x :: h :: (l₁ ++ l₂)).Nodup :=
    (hperm.cons h).trans (List.Perm.swap x h _) |>.nodup_iff.mp hnd
  have hpe : ∀ z ∈ h :: l₁, nx z = x → pv x = z := by
    intro z hz hzx
    rw [← hzx]
    refine hback z ?_
    simp only [List.mem_cons, List.mem_append] at hz ⊢
    tauto
  refine ⟨l₁ ++ l₂, ⟨?_, ?_, hnd'.of_cons⟩, hperm⟩
  · obtain rfl | ⟨l₁, p, rfl⟩ := List.eq_nil_or_concat l₁
    · obtain hph := hpe h List.mem_cons_self hs₁
      refine hs₂.enter (hph ▸ hnp) ?_
      intro z hz
      refine hno z ?_
      rintro rfl
      rw [hph] at hz
      simp [hz] at hnd
    · rw [List.concat_eq_append] at hs₁ hpe hnd ⊢
      obtain ⟨hs₀, hs₁⟩ := seq_append.mp hs₁
      have hph : pv x = p := hpe p (by simp) hs₁
      rw [List.append_assoc, List.singleton_append]
      refine seq_append.mpr ⟨hs₀.congr ?_, hs₂.enter (hph ▸ hnp) ?_⟩
      · intro z hz
        refine hno z ?_
        rintro rfl
        rw [hph] at hz
        simp only [List.append_assoc, List.singleton_append, List.nodup_cons, List.mem_append,
          List.mem_cons, not_or, List.nodup_append] at hnd
        obtain rfl | hz := List.mem_cons.mp hz
        · exact hnd.1.2.1 rfl
        · exact hnd.2.2.2 p hz p (.inl rfl) rfl
      · intro z hz
        refine hno z ?_
        rintro rfl
        rw [hph] at hz
        simp only [List.append_assoc, List.singleton_append, List.nodup_cons, List.mem_append,
          List.mem_cons, not_or, List.nodup_append] at hnd
        exact hnd.2.2.1.1.2 hz
  · intro z hz
    have hzx : z ≠ x := by
      rintro rfl
      exact (List.nodup_cons.mp hnd').1 hz
    have hzl : z ∈ h :: (l₁ ++ x :: l₂) := by
      simp only [List.mem_cons, List.mem_append] at hz ⊢
      tauto
    by_cases hzp : z = pv x
    · rw [hzp, hnp, hpn]
    · rw [hno z hzp, hpo _ (fun heq => hzx (hinj z hzl heq))]
      exact hback z hzl

/-- Linking a new node behind `p`. -/
theorem Linked.insert (hl : Linked nx pv h l) {p y : α} (hp : p ∈ h :: l) (hy : y ∉ h :: l)
    (hny : nx' y = nx p) (hnp : nx' p = y) (hno : ∀ z, z ≠ p → z ≠ y → nx' z = nx z)
    (hpy : pv' y = p) (hpn : pv' (nx p) = y) (hpo : ∀ z, z ≠ nx p → z ≠ y → pv' z = pv z) :
    ∃ l', Linked nx' pv' h l' ∧ l'.Perm (y :: l) := by
  have hinj := fun z hz => hl.next_injective (x := z) (y := p) hz hp
  have hnd := hl.nodup
  have hne : ∀ z ∈ h :: l, z ≠ y := fun z hz heq => hy (heq ▸ hz)
  have hback : ∀ z, z ∈ h :: y :: l → pv' (nx' z) = z := by
    intro z hz
    by_cases hzy : z = y
    · rw [hzy, hny, hpn]
    · have hzl : z ∈ h :: l := by
        simp only [List.mem_cons] at hz ⊢
        tauto
      by_cases hzp : z = p
      · rw [hzp, hnp, hpy]
      · rw [hno z hzp hzy, hpo _ (fun heq => hzp (hinj z hzl heq)) (hne _ (hl.next_mem hzl))]
        exact hl.back z hzl
  have hfinish : ∀ l', Seq nx' h h l' → l'.Perm (y :: l) →
      ∃ l', Linked nx' pv' h l' ∧ l'.Perm (y :: l) := by
    intro l' hs hperm
    refine ⟨l', ⟨hs, ?_, ?_⟩, hperm⟩
    · intro z hz
      exact hback z ((hperm.cons h).mem_iff.mp hz)
    · rw [(hperm.cons h).nodup_iff, (List.Perm.swap y h l).nodup_iff, List.nodup_cons]
      exact ⟨hy, hnd⟩
  obtain rfl | hpl := List.mem_cons.mp hp
  · refine hfinish (y :: l) ⟨hnp, hl.seq.enter hny ?_⟩ (List.Perm.refl _)
    intro z hz
    refine hno z ?_ (hne z (List.mem_cons_of_mem _ hz))
    rintro rfl
    exact (List.nodup_cons.mp hnd).1 hz
  · obtain ⟨l₁, l₂, rfl⟩ := List.append_of_mem hpl
    obtain ⟨hs₁, hs₂⟩ := seq_append.mp hl.seq
    simp only [List.nodup_cons, List.mem_append, List.mem_cons, not_or, List.nodup_append] at hnd
    obtain ⟨⟨_, hhp, _⟩, _, ⟨hpl₂, _⟩, hdis⟩ := hnd
    refine hfinish (l₁ ++ p :: y :: l₂) ?_ ?_
    · refine seq_append.mpr ⟨hs₁.congr ?_, hnp, hs₂.enter hny ?_⟩
      · intro z hz
        refine hno z ?_ (hne z ?_)
        · rintro rfl
          obtain rfl | hz := List.mem_cons.mp hz
          · exact hhp rfl
          · exact hdis z hz z (.inl rfl) rfl
        · simp only [List.mem_cons, List.mem_append] at hz ⊢
          tauto
      · intro z hz
        refine hno z ?_ (hne z (by simp [hz]))
        rintro rfl
        exact hpl₂ hz
    · rw [show l₁ ++ p :: y :: l₂ = (l₁ ++ [p]) ++ y :: l₂ by simp,
        show l₁ ++ p :: l₂ = (l₁ ++ [p]) ++ l₂ by simp]
      exact List.perm_middle

end Ring
