import Mathlib.Algebra.BigOperators.Group.List.Basic
import Mathlib.Algebra.GroupWithZero.Nat
import Mathlib.Data.List.Nodup

/-!
# Block lists

A region of addresses cut into blocks. Every block begins with a header of `h`
addresses that holds the address of the following block. `Path h next a e l` says that the blocks at the addresses
`l`, taken in order, cover the region from `a` to `e` exactly.
-/
namespace Blocks

def Path (h : Nat) (next : Nat → Nat) : Nat → Nat → List Nat → Prop
  | a, e, [] => a = e
  | a, e, x :: l => x = a ∧ x + h ≤ next x ∧ Path h next (next x) e l

variable {h : Nat} {next next' : Nat → Nat} {a e : Nat} {l l₁ l₂ : List Nat}

theorem path_append : Path h next a e (l₁ ++ l₂) ↔
    ∃ m, Path h next a m l₁ ∧ Path h next m e l₂ := by
  induction l₁ generalizing a with
  | nil => simp [Path]
  | cons x l₁ ih =>
    simp only [List.cons_append, Path, ih]
    constructor
    · rintro ⟨hx, hn, m, h₁, h₂⟩
      exact ⟨m, ⟨hx, hn, h₁⟩, h₂⟩
    · rintro ⟨m, ⟨hx, hn, h₁⟩, h₂⟩
      exact ⟨hx, hn, m, h₁, h₂⟩

variable {x y h' : Nat} {g : Nat → Nat}

/-- A path through a block: up to it, over it, and on. -/
theorem path_at : Path h next a e (l₁ ++ x :: l₂) ↔
    Path h next a x l₁ ∧ x + h ≤ next x ∧ Path h next (next x) e l₂ := by
  rw [path_append]
  constructor
  · rintro ⟨m, h₁, rfl, hn, h₂⟩
    exact ⟨h₁, hn, h₂⟩
  · rintro ⟨h₁, hn, h₂⟩
    exact ⟨x, h₁, rfl, hn, h₂⟩

theorem Path.le (hp : Path h next a e l) : a ≤ e := by
  induction l generalizing a with
  | nil => exact Nat.le_of_eq hp
  | cons x l ih =>
    obtain ⟨rfl, hn, hp⟩ := hp
    have := ih hp
    omega

/-- A block lies inside the region. -/
theorem Path.bounds (hp : Path h next a e l) (hx : x ∈ l) :
    a ≤ x ∧ x + h ≤ next x ∧ next x ≤ e := by
  obtain ⟨l₁, l₂, rfl⟩ := List.append_of_mem hx
  obtain ⟨h₁, hn, h₂⟩ := path_at.mp hp
  exact ⟨h₁.le, hn, h₂.le⟩

/-- Two blocks of one path do not overlap. -/
theorem Path.apart (hp : Path h next a e l) (hx : x ∈ l) (hy : y ∈ l) :
    x = y ∨ next x ≤ y ∨ next y ≤ x := by
  obtain ⟨l₁, l₂, rfl⟩ := List.append_of_mem hx
  obtain ⟨h₁, hn, h₂⟩ := path_at.mp hp
  rw [List.mem_append, List.mem_cons] at hy
  obtain hy | rfl | hy := hy
  · exact .inr (.inr (h₁.bounds hy).2.2)
  · exact .inl rfl
  · exact .inr (.inl (h₂.bounds hy).1)

/-- Different blocks are followed by different blocks. -/
theorem Path.next_injective (hp : Path h next a e l) (hpos : 0 < h) (hx : x ∈ l) (hy : y ∈ l)
    (hxy : next x = next y) : x = y := by
  have hbx := hp.bounds hx
  have hby := hp.bounds hy
  obtain heq | hlt | hlt := hp.apart hx hy
  · exact heq
  · omega
  · omega

theorem Path.congr (hp : Path h next a e l) (hn : ∀ x ∈ l, next' x = next x) :
    Path h next' a e l := by
  induction l generalizing a with
  | nil => exact hp
  | cons x l ih =>
    obtain ⟨hx, hle, hp⟩ := hp
    have hnx := hn x List.mem_cons_self
    refine ⟨hx, by rwa [hnx], ?_⟩
    rw [hnx]
    exact ih hp (fun y hy => hn y (List.mem_cons_of_mem x hy))

theorem Path.weaken (hp : Path h next a e l) (hle : h' ≤ h) : Path h' next a e l := by
  induction l generalizing a with
  | nil => exact hp
  | cons x l ih =>
    obtain ⟨hx, hn, hp⟩ := hp
    exact ⟨hx, by omega, ih hp⟩

/-- The addresses increase along the path. -/
theorem Path.sorted (hpos : 0 < h) (hp : Path h next a e l) : l.Pairwise (· < ·) := by
  induction l generalizing a with
  | nil => exact List.Pairwise.nil
  | cons x l ih =>
    obtain ⟨rfl, hle, hp⟩ := hp
    refine List.Pairwise.cons ?_ (ih hp)
    intro y hy
    have := (hp.bounds hy).1
    omega

theorem Path.nodup (hpos : 0 < h) (hp : Path h next a e l) : l.Nodup :=
  (hp.sorted hpos).imp (fun hxy => Nat.ne_of_lt hxy)

section

variable (hp : Path h next a e l)
include hp

/-- The block after a block, unless it is the last one. -/
theorem Path.next_mem (hx : x ∈ l) : next x = e ∨ next x ∈ l := by
  obtain ⟨l₁, l₂, rfl⟩ := List.append_of_mem hx
  obtain ⟨_, _, h₂⟩ := path_at.mp hp
  cases l₂ with
  | nil => exact .inl h₂
  | cons y l₂ =>
    obtain ⟨rfl, _⟩ := h₂
    exact .inr (by simp)

/-- The block before a block, unless it is the first one. -/
theorem Path.exists_pred (hx : x ∈ l) : x = a ∨ ∃ y ∈ l, next y = x := by
  obtain ⟨l₁, l₂, rfl⟩ := List.append_of_mem hx
  obtain ⟨h₁, _⟩ := path_at.mp hp
  obtain rfl | ⟨l₁, y, rfl⟩ := List.eq_nil_or_concat l₁
  · exact .inl h₁.symm
  · right
    rw [List.concat_eq_append] at h₁
    obtain ⟨_, _, h₂⟩ := path_at.mp h₁
    exact ⟨y, by simp, h₂⟩

/-- A property that no block before `x` has, and neither has `x`, begins behind `x`. -/
theorem Path.before_next (hpos : 0 < h) {P : Nat → Prop} (hx : x ∈ l)
    (hnot : ¬ P x) (hbefore : ∀ z ∈ l, z < x → ¬ P z) {z : Nat} (hz : z ∈ l) (hlt : z < next x) :
    ¬ P z := by
  have hbz := hp.bounds hz
  obtain rfl | hle | hle := hp.apart hx hz
  · exact hnot
  · omega
  · exact hbefore z hz (by omega)

theorem Path.first_mem (hne : a ≠ e) : a ∈ l := by
  cases l with
  | nil => exact absurd hp hne
  | cons x l =>
    obtain ⟨rfl, _⟩ := hp
    exact List.mem_cons_self

/-- The links of a region determine its blocks. -/
theorem Path.unique {l' : List Nat} (hp' : Path h' next a e l')
    (hpos : 0 < h) (hpos' : 0 < h') : l = l' := by
  induction l generalizing a l' with
  | nil =>
    cases l' with
    | nil => rfl
    | cons y l' =>
      obtain rfl : a = e := hp
      obtain ⟨rfl, hn, hrest⟩ := hp'
      have := hrest.le
      omega
  | cons x l ih =>
    obtain ⟨rfl, hn, hrest⟩ := hp
    have hle := hrest.le
    cases l' with
    | nil =>
      have : x = e := hp'
      omega
    | cons y l' =>
      obtain ⟨rfl, -, hrest'⟩ := hp'
      rw [ih hrest hrest']

/-- Cutting a block at the address `y`. -/
theorem Path.split (hx : x ∈ l) (hxy : x + h ≤ y) (hyn : y + h ≤ next x)
    (hnx : g x = y) (hny : g y = next x) (hother : ∀ z ∈ l, z ≠ x → g z = next z) (hpos : 0 < h) :
    ∃ l', Path h g a e l' ∧ ∀ z, z ∈ l' ↔ z ∈ l ∨ z = y := by
  have hnd := hp.nodup hpos
  obtain ⟨l₁, l₂, rfl⟩ := List.append_of_mem hx
  obtain ⟨h₁, _, h₂⟩ := path_at.mp hp
  rw [List.nodup_middle, List.nodup_cons, List.mem_append, not_or] at hnd
  have hne : ∀ z ∈ l₁ ++ l₂, z ≠ x := by
    rintro z hz rfl
    rw [List.mem_append] at hz
    tauto
  refine ⟨l₁ ++ x :: y :: l₂, ?_, ?_⟩
  · refine path_at.mpr ⟨?_, by rwa [hnx], ?_⟩
    · exact h₁.congr fun z hz => hother z (by simp [hz]) (hne z (by simp [hz]))
    · rw [hnx]
      refine ⟨rfl, by rwa [hny], ?_⟩
      rw [hny]
      exact h₂.congr fun z hz => hother z (by simp [hz]) (hne z (by simp [hz]))
  · intro z
    simp only [List.mem_append, List.mem_cons]
    tauto

/-- Joining a block with the one after it. -/
theorem Path.merge (hx : x ∈ l) (hxy : next x = y) (hye : y ≠ e)
    (hnx : g x = next y) (hother : ∀ z ∈ l, z ≠ x → g z = next z) (hpos : 0 < h) :
    ∃ l', Path h g a e l' ∧ ∀ z, z ∈ l' ↔ z ∈ l ∧ z ≠ y := by
  have hnd := hp.nodup hpos
  obtain ⟨l₁, l₂, rfl⟩ := List.append_of_mem hx
  obtain ⟨h₁, hle, h₂⟩ := path_at.mp hp
  rw [hxy] at hle h₂
  cases l₂ with
  | nil => exact absurd h₂ hye
  | cons w l₂ =>
    obtain ⟨rfl, hle', h₃⟩ := h₂
    simp only [List.nodup_append, List.nodup_cons, List.mem_cons, not_or] at hnd
    obtain ⟨_, ⟨⟨hxw, hxl⟩, hwl, _⟩, hdis⟩ := hnd
    have hleft : ∀ z ∈ l₁, z ≠ x ∧ z ≠ w := by
      intro z hz
      exact ⟨hdis z hz x (.inl rfl), hdis z hz w (.inr (.inl rfl))⟩
    have hright : ∀ z ∈ l₂, z ≠ x ∧ z ≠ w := by
      intro z hz
      exact ⟨fun h => hxl (h ▸ hz), fun h => hwl (h ▸ hz)⟩
    refine ⟨l₁ ++ x :: l₂, ?_, ?_⟩
    · refine path_at.mpr ⟨?_, ?_, ?_⟩
      · exact h₁.congr fun z hz => hother z (by simp [hz]) (hleft z hz).1
      · omega
      · rw [hnx]
        exact h₃.congr fun z hz => hother z (by simp [hz]) (hright z hz).1
    · intro z
      constructor
      · intro hz
        refine ⟨?_, ?_⟩
        · simp only [List.mem_append, List.mem_cons] at hz ⊢
          tauto
        · rw [List.mem_append, List.mem_cons] at hz
          obtain hz | rfl | hz := hz
          · exact (hleft z hz).2
          · exact hxw
          · exact (hright z hz).2
      · rintro ⟨hz, hzw⟩
        simp only [List.mem_append, List.mem_cons] at hz ⊢
        tauto

/-- The sizes of the blocks, headers included, add up to the region. -/
theorem Path.sum : (l.map fun x => next x - x).sum = e - a := by
  induction l generalizing a with
  | nil =>
    obtain rfl := hp
    simp
  | cons x l ih =>
    obtain ⟨rfl, hn, hp⟩ := hp
    have hle := hp.le
    rw [List.map_cons, List.sum_cons, ih hp]
    omega

end

/-- A path with links back: every block is the `prev` of the next one, and the last block of
the end. -/
structure Linked (h : Nat) (next prev : Nat → Nat) (a e : Nat) (l : List Nat) : Prop where
  path : Path h next a e l
  back : ∀ x ∈ l, prev (next x) = x

variable {prev prev' : Nat → Nat}

theorem Linked.split (hl : Linked h next prev a e l) (hx : x ∈ l) (hxy : x + h ≤ y)
    (hyn : y + h ≤ next x) (hpos : 0 < h) (hnx : next' x = y) (hny : next' y = next x)
    (hno : ∀ z, z ≠ x → z ≠ y → next' z = next z) (hpy : prev' y = x) (hpn : prev' (next x) = y)
    (hpo : ∀ z, z ≠ y → z ≠ next x → prev' z = prev z) :
    ∃ l', Linked h next' prev' a e l' ∧ ∀ z, z ∈ l' ↔ z ∈ l ∨ z = y := by
  have hout : ∀ z ∈ l, z ≠ y ∧ next z ≠ y := by
    intro z hz
    have hbz := hl.path.bounds hz
    obtain rfl | hle | hle := hl.path.apart hx hz <;> omega
  obtain ⟨l', hpath, hmem⟩ := hl.path.split hx hxy hyn hnx hny
    (fun z hz hzx => hno z hzx (hout z hz).1) hpos
  refine ⟨l', ⟨hpath, ?_⟩, hmem⟩
  intro z hz
  by_cases hzy : z = y
  · rw [hzy, hny, hpn]
  · have hzl := ((hmem z).mp hz).resolve_right hzy
    by_cases hzx : z = x
    · rw [hzx, hnx, hpy]
    · have hne : next z ≠ next x := fun heq => hzx (hl.path.next_injective hpos hzl hx heq)
      rw [hno z hzx hzy, hpo _ (hout z hzl).2 hne]
      exact hl.back z hzl

theorem Linked.merge (hl : Linked h next prev a e l) (hx : x ∈ l) (hxy : next x = y) (hye : y ≠ e)
    (hpos : 0 < h) (hnx : next' x = next y) (hno : ∀ z, z ≠ x → next' z = next z)
    (hpn : prev' (next y) = x) (hpo : ∀ z, z ≠ next y → prev' z = prev z) :
    ∃ l', Linked h next' prev' a e l' ∧ ∀ z, z ∈ l' ↔ z ∈ l ∧ z ≠ y := by
  have hy : y ∈ l := hxy ▸ (hl.path.next_mem hx).resolve_left (by rw [hxy]; exact hye)
  obtain ⟨l', hpath, hmem⟩ := hl.path.merge hx hxy hye hnx (fun z _ hzx => hno z hzx) hpos
  refine ⟨l', ⟨hpath, ?_⟩, hmem⟩
  intro z hz
  obtain ⟨hzl, hzy⟩ := (hmem z).mp hz
  by_cases hzx : z = x
  · rw [hzx, hnx, hpn]
  · have hne : next z ≠ next y := fun heq => hzy (hl.path.next_injective hpos hzl hy heq)
    rw [hno z hzx, hpo _ hne]
    exact hl.back z hzl

end Blocks
