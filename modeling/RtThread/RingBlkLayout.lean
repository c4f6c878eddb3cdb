import Mathlib.Data.List.Nodup
import Mathlib.Data.List.Perm.Basic
import RtThread.RingBlk

/-!
# The memory of a ring block buffer

The blocks of `blk_list` lie in the memory one behind the other, and may begin again at
its start once: the list is a first part and a second part, both ascending, and the
second part ends before the first block of the list. An allocation appends to one of
the two parts or begins the second one, and a block that is freed leaves a hole.
-/
namespace RtThread.RingBlk

/-- The address behind a block. -/
def Blk.stop (b : Blk) : Nat := b.buf + b.size

/-- The blocks lie one behind the other. -/
def Ascending (blk : Id → Blk) (l : List Id) : Prop :=
  l.Pairwise fun a b => (blk a).stop ≤ (blk b).buf

/-- The two parts of the list. -/
structure Layout (s : State) (upper lower : List Id) : Prop where
  list : s.blkList = upper ++ lower
  start : upper = [] → lower = []
  first : Ascending s.blk upper
  second : Ascending s.blk lower
  inside : ∀ b ∈ s.blkList, s.buf ≤ (s.blk b).buf ∧ (s.blk b).stop ≤ s.buf + s.bufSize
  below : ∀ a ∈ upper, ∀ b ∈ lower, (s.blk b).buf < (s.blk a).buf ∧ (s.blk b).stop ≤ (s.blk a).buf

section ascending

variable {blk blk' : Id → Blk} {l : List Id} {h t n : Id}

theorem Ascending.congr (ha : Ascending blk l)
    (heq : ∀ b ∈ l, (blk' b).buf = (blk b).buf ∧ (blk' b).size = (blk b).size) :
    Ascending blk' l := by
  refine List.Pairwise.imp_of_mem (fun {a b} hma hmb hab => ?_) ha
  rw [Blk.stop, (heq a hma).1, (heq a hma).2, (heq b hmb).1]
  exact hab

/-- The first block is the lowest one. -/
theorem Ascending.head_le (ha : Ascending blk (h :: l)) {b : Id} (hb : b ∈ h :: l) :
    (blk h).buf ≤ (blk b).buf := by
  obtain rfl | hb := List.mem_cons.mp hb
  · exact Nat.le_refl _
  · exact (Nat.le_add_right _ _).trans (List.rel_of_pairwise_cons ha hb)

/-- All blocks end before the end of the last one. -/
theorem Ascending.le_last (ha : Ascending blk l) (ht : l.getLast? = some t) {b : Id} (hb : b ∈ l) :
    (blk b).stop ≤ (blk t).stop := by
  obtain ⟨l', rfl⟩ := List.getLast?_eq_some_iff.mp ht
  obtain hb | hb := List.mem_append.mp hb
  · exact ((List.pairwise_append.mp ha).2.2 b hb t (by simp)).trans (Nat.le_add_right _ _)
  · obtain rfl : b = t := by simpa using hb
    exact Nat.le_refl _

/-- A block behind the last one. -/
theorem Ascending.append (ha : Ascending blk l) (hn : ∀ b ∈ l, (blk b).stop ≤ (blk n).buf) :
    Ascending blk (l ++ [n]) := by
  refine List.pairwise_append.mpr ⟨ha, List.pairwise_singleton _ _, fun b hb c hc => ?_⟩
  obtain rfl : c = n := by simpa using hc
  exact hn b hb

end ascending

section layout

variable {s s' : State} {upper lower : List Id} {h t b n : Id}

/-- Only the memory of the listed blocks matters. -/
theorem Layout.congr (hl : Layout s upper lower) (hlist : s'.blkList = s.blkList)
    (hbuf : s'.buf = s.buf) (hsize : s'.bufSize = s.bufSize)
    (heq : ∀ b ∈ s.blkList, (s'.blk b).buf = (s.blk b).buf ∧ (s'.blk b).size = (s.blk b).size) :
    Layout s' upper lower := by
  have hfirst : ∀ b ∈ upper, b ∈ s.blkList := fun b hb => by simp [hl.list, hb]
  have hsecond : ∀ b ∈ lower, b ∈ s.blkList := fun b hb => by simp [hl.list, hb]
  refine ⟨hlist.trans hl.list, hl.start, hl.first.congr fun b hb => heq b (hfirst b hb),
    hl.second.congr fun b hb => heq b (hsecond b hb), fun b hb => ?_, fun a ha b hb => ?_⟩
  · rw [hlist] at hb
    rw [Blk.stop, (heq b hb).1, (heq b hb).2, hbuf, hsize]
    exact hl.inside b hb
  · have ha' := heq a (hfirst a ha)
    have hb' := heq b (hsecond b hb)
    rw [Blk.stop, ha'.1, hb'.1, hb'.2]
    exact hl.below a ha b hb

/-- The ranges of two listed blocks do not meet. -/
theorem Layout.disjoint (hl : Layout s upper lower) :
    s.blkList.Pairwise fun a b =>
      (s.blk a).stop ≤ (s.blk b).buf ∨ (s.blk b).stop ≤ (s.blk a).buf := by
  rw [hl.list]
  refine List.pairwise_append.mpr ⟨hl.first.imp .inl, hl.second.imp .inl, fun a ha b hb => ?_⟩
  exact .inr (hl.below a ha b hb).2

/-- The test of `rt_rbb_blk_alloc` tells whether there is a second part. -/
theorem Layout.wrapped_iff (hl : Layout s upper lower) (hh : s.blkList.head? = some h)
    (ht : s.blkList.getLast? = some t) :
    (s.blk h).buf ≤ (s.blk t).buf ↔ lower = [] := by
  rw [hl.list] at hh ht
  have hfirst : upper ≠ [] := by
    intro hnil
    simp [hnil, hl.start hnil] at hh
  obtain ⟨h', rest, rfl⟩ := List.exists_cons_of_ne_nil hfirst
  obtain rfl : h' = h := by simpa using hh
  constructor
  · intro hle
    by_contra hne
    rw [List.getLast?_append_of_ne_nil _ hne] at ht
    have hlt := (hl.below h' (by simp) t (List.mem_of_getLast? ht)).1
    omega
  · rintro rfl
    rw [List.append_nil] at ht
    exact hl.first.head_le (List.mem_of_getLast? ht)

/-- The blocks that are left when one has been taken out. -/
theorem Layout.erase (hl : Layout s upper lower) (hnd : s.blkList.Nodup)
    (hlist : s'.blkList = s.blkList.erase b) (hbuf : s'.buf = s.buf)
    (hsize : s'.bufSize = s.bufSize)
    (heq : ∀ c, (s'.blk c).buf = (s.blk c).buf ∧ (s'.blk c).size = (s.blk c).size) :
    ∃ upper lower, Layout s' upper lower := by
  have hblk : s'.blkList = upper.filter (· != b) ++ lower.filter (· != b) := by
    rw [hlist, hnd.erase_eq_filter, hl.list, List.filter_append]
  have hfirst : Ascending s'.blk (upper.filter (· != b)) :=
    (hl.first.congr fun c _ => heq c).filter _
  have hsecond : Ascending s'.blk (lower.filter (· != b)) :=
    (hl.second.congr fun c _ => heq c).filter _
  have hinside : ∀ c ∈ s'.blkList,
      s'.buf ≤ (s'.blk c).buf ∧ (s'.blk c).stop ≤ s'.buf + s'.bufSize := by
    intro c hc
    rw [hlist] at hc
    rw [Blk.stop, (heq c).1, (heq c).2, hbuf, hsize]
    exact hl.inside c (List.mem_of_mem_erase hc)
  by_cases hnil : upper.filter (· != b) = []
  · rw [hnil, List.nil_append] at hblk
    refine ⟨lower.filter (· != b), [], by rw [hblk, List.append_nil], fun _ => rfl, hsecond,
      List.Pairwise.nil, hinside, fun _ _ c hc => absurd hc List.not_mem_nil⟩
  · refine ⟨_, _, hblk, fun h => absurd h hnil, hfirst, hsecond, hinside, fun a ha c hc => ?_⟩
    rw [Blk.stop, (heq a).1, (heq c).1, (heq c).2]
    exact hl.below a (List.mem_of_mem_filter ha) c (List.mem_of_mem_filter hc)

/-! ## New blocks -/

/-- The state after a block has been placed behind the list. -/
structure Placed (s s' : State) (n buf size : Nat) : Prop where
  list : s'.blkList = s.blkList ++ [n]
  base : s'.buf = s.buf
  top : s'.bufSize = s.bufSize
  new : (s'.blk n).buf = buf ∧ (s'.blk n).size = size
  old : ∀ b ∈ s.blkList, s'.blk b = s.blk b

variable {buf size : Nat}

theorem Placed.ascending (hp : Placed s s' n buf size) {l : List Id} (hsub : ∀ b ∈ l, b ∈ s.blkList)
    (ha : Ascending s.blk l) : Ascending s'.blk l :=
  ha.congr fun b hb => by rw [hp.old b (hsub b hb)]; exact ⟨rfl, rfl⟩

theorem Placed.inside (hp : Placed s s' n buf size) (hl : Layout s upper lower)
    (hbuf : s.buf ≤ buf) (hstop : buf + size ≤ s.buf + s.bufSize) :
    ∀ b ∈ s'.blkList, s'.buf ≤ (s'.blk b).buf ∧ (s'.blk b).stop ≤ s'.buf + s'.bufSize := by
  intro b hb
  rw [hp.list, List.mem_append] at hb
  rw [hp.base, hp.top]
  obtain hb | hb := hb
  · rw [hp.old b hb]
    exact hl.inside b hb
  · obtain rfl : b = n := by simpa using hb
    rw [Blk.stop, hp.new.1, hp.new.2]
    exact ⟨hbuf, hstop⟩

/-- The first block. -/
theorem Layout.place_only (hnil : s.blkList = []) (hp : Placed s s' n s.buf size)
    (hsize : size ≤ s.bufSize) : Layout s' [n] [] := by
  have hnone : Layout s [] [] :=
    ⟨hnil, fun _ => rfl, .nil, .nil, by simp [hnil], by simp⟩
  refine ⟨by rw [hp.list, hnil]; rfl, fun h => absurd h (by simp), List.pairwise_singleton _ _,
    .nil, hp.inside hnone (Nat.le_refl _) (by omega), by simp⟩

/-- A block behind the last one of a list without a second part. -/
theorem Layout.place_behind (hl : Layout s upper []) (ht : s.blkList.getLast? = some t)
    (hp : Placed s s' n (s.blk t).stop size)
    (hroom : (s.blk t).stop + size ≤ s.buf + s.bufSize) : Layout s' (upper ++ [n]) [] := by
  have hlist : s.blkList = upper := by rw [hl.list, List.append_nil]
  have hmem : t ∈ s.blkList := List.mem_of_getLast? ht
  have hbuf : s.buf ≤ (s.blk t).stop := (hl.inside t hmem).1.trans (Nat.le_add_right _ _)
  have hsub : ∀ b ∈ upper, b ∈ s.blkList := fun b hb => by rw [hlist]; exact hb
  refine ⟨by rw [hp.list, hlist, List.append_nil], fun h => absurd h (by simp),
    (hp.ascending hsub hl.first).append fun b hb => ?_, .nil, hp.inside hl hbuf hroom, by simp⟩
  rw [hp.old b (hsub b hb), hp.new.1]
  exact hl.first.le_last (hlist ▸ ht) hb

/-- A block at the start of the memory, which begins the second part. -/
theorem Layout.place_start (hl : Layout s upper []) (hh : s.blkList.head? = some h)
    (hp : Placed s s' n s.buf size) (hpos : 0 < size) (hroom : s.buf + size ≤ (s.blk h).buf) :
    Layout s' upper [n] := by
  have hlist : s.blkList = upper := by rw [hl.list, List.append_nil]
  have hsub : ∀ b ∈ upper, b ∈ s.blkList := fun b hb => by rw [hlist]; exact hb
  have hmem : h ∈ s.blkList := List.mem_of_mem_head? hh
  have htop := (hl.inside h hmem).2
  have hstop : (s.blk h).buf ≤ (s.blk h).stop := Nat.le_add_right _ _
  have hne : upper ≠ [] := by
    rw [← hlist]
    exact List.ne_nil_of_mem hmem
  obtain ⟨h', rest, rfl⟩ := List.exists_cons_of_ne_nil hne
  obtain rfl : h' = h := by simpa [hlist] using hh
  refine ⟨by rw [hp.list, hlist], fun hnil => absurd hnil hne, hp.ascending hsub hl.first,
    List.pairwise_singleton _ _, hp.inside hl (Nat.le_refl _) (by omega), fun a ha b hb => ?_⟩
  obtain rfl : b = n := by simpa using hb
  have hle := hl.first.head_le ha
  rw [Blk.stop, hp.new.1, hp.new.2, hp.old a (hsub a ha)]
  omega

/-- A block behind the last one of the second part. -/
theorem Layout.place_between (hl : Layout s upper lower) (hne : lower ≠ [])
    (hh : s.blkList.head? = some h) (ht : s.blkList.getLast? = some t)
    (hp : Placed s s' n (s.blk t).stop size) (hroom : (s.blk t).stop + size ≤ (s.blk h).buf)
    (hgap : 0 < size ∨ (s.blk t).stop < (s.blk h).buf) : Layout s' upper (lower ++ [n]) := by
  have hupper : ∀ b ∈ upper, b ∈ s.blkList := fun b hb => by simp [hl.list, hb]
  have hlower : ∀ b ∈ lower, b ∈ s.blkList := fun b hb => by simp [hl.list, hb]
  have ht' : lower.getLast? = some t := by
    rwa [hl.list, List.getLast?_append_of_ne_nil _ hne] at ht
  have hmem : h ∈ s.blkList := List.mem_of_mem_head? hh
  have htop := (hl.inside h hmem).2
  have hstop : (s.blk h).buf ≤ (s.blk h).stop := Nat.le_add_right _ _
  have hbuf : s.buf ≤ (s.blk t).stop :=
    (hl.inside t (List.mem_of_getLast? ht)).1.trans (Nat.le_add_right _ _)
  have hfirst : upper ≠ [] := fun hnil => hne (hl.start hnil)
  obtain ⟨h', rest, rfl⟩ := List.exists_cons_of_ne_nil hfirst
  obtain rfl : h' = h := by simpa [hl.list] using hh
  refine ⟨by rw [hp.list, hl.list, List.append_assoc], fun hnil => absurd hnil hfirst,
    hp.ascending hupper hl.first, (hp.ascending hlower hl.second).append fun b hb => ?_,
    hp.inside hl hbuf (by omega), fun a ha b hb => ?_⟩
  · rw [hp.old b (hlower b hb), hp.new.1]
    exact hl.second.le_last ht' hb
  · rw [hp.old a (hupper a ha)]
    obtain hb | hb := List.mem_append.mp hb
    · rw [hp.old b (hlower b hb)]
      exact hl.below a ha b hb
    · obtain rfl : b = n := by simpa using hb
      have hle := hl.first.head_le ha
      rw [Blk.stop, hp.new.1, hp.new.2]
      omega

end layout

end RtThread.RingBlk
