import RtThread.Slab
import Mathlib.Data.List.Perm.Basic
import Mathlib.Algebra.BigOperators.Group.List.Basic

/-!
# The pages of the slab allocator

The extents of the page list and the extents handed out cut the region into pieces:
every page of the region lies in exactly one of them. This is counted page by page,
so that cutting an extent in two and joining two extents leave the count alone. The
extents of the page list are apart, with at least one page between two of them.
-/
namespace RtThread.Slab

variable {b e e' : RtSlabPage} {l l' live : List RtSlabPage} {start n npages p : Nat}

def RtSlabPage.Covers (e : RtSlabPage) (p : Nat) : Prop := e.addr ≤ p ∧ p < e.addr + e.page

instance (e : RtSlabPage) (p : Nat) : Decidable (e.Covers p) :=
  inferInstanceAs (Decidable (_ ∧ _))

/-- How many of `npages` pages from `addr` on are the page `p`. -/
def within (addr npages p : Nat) : Nat := if addr ≤ p ∧ p < addr + npages then 1 else 0

/-- How many extents of a list cover the page `p`. -/
def cover (l : List RtSlabPage) (p : Nat) : Nat := (l.map fun e => within e.addr e.page p).sum

@[simp] theorem cover_nil : cover [] p = 0 := rfl

@[simp] theorem cover_cons : cover (e :: l) p = within e.addr e.page p + cover l p := rfl

theorem cover_append : cover (l ++ l') p = cover l p + cover l' p := by
  simp [cover]

theorem cover_perm (h : l.Perm l') : cover l p = cover l' p := (h.map _).sum_eq

/-- Extents that follow each other cover what their union covers. -/
theorem within_add (addr m k p : Nat) :
    within addr (m + k) p = within addr m p + within (addr + m) k p := by
  unfold within
  split <;> split <;> split <;> omega

theorem within_le_one (addr npages p : Nat) : within addr npages p ≤ 1 := by
  unfold within
  split <;> omega

theorem within_eq_one {addr : Nat} : within addr npages p = 1 ↔ addr ≤ p ∧ p < addr + npages := by
  unfold within
  split <;> simp [*]

theorem within_of_covers (h : e.Covers p) : within e.addr e.page p = 1 := within_eq_one.mpr h

/-- The extents follow each other with gaps between them. -/
def Apart (l : List RtSlabPage) : Prop := l.Pairwise fun a b => a.addr + a.page < b.addr

/-- The page list `l` and the extents `live` that are handed out share the region. -/
structure PagesOk (start n : Nat) (l live : List RtSlabPage) : Prop where
  start_pos : 0 < start
  apart : Apart l
  page_pos : ∀ e ∈ l, 0 < e.page
  live_pos : ∀ e ∈ live, 0 < e.page
  once : ∀ p, cover l p + cover live p = within start n p
  total : (l.map RtSlabPage.page).sum + (live.map RtSlabPage.page).sum = n

theorem PagesOk.perm (h : PagesOk start n l live) {live' : List RtSlabPage}
    (hp : live.Perm live') : PagesOk start n l live' where
  start_pos := h.start_pos
  apart := h.apart
  page_pos := h.page_pos
  live_pos e he := h.live_pos e (hp.mem_iff.mpr he)
  once p := by rw [← cover_perm hp]; exact h.once p
  total := by rw [← (hp.map RtSlabPage.page).sum_eq]; exact h.total

/-! ## Allocation -/

theorem pageAllocWalk_none (h : (pageAllocWalk npages l).1 = none) :
    (pageAllocWalk npages l).2 = l ∧ ∀ e ∈ l, e.page < npages := by
  induction l with
  | nil => exact ⟨rfl, fun _ he => absurd he List.not_mem_nil⟩
  | cons b next ih =>
    unfold pageAllocWalk at h ⊢
    split at h
    · exact absurd h (Option.some_ne_none _)
    split at h
    · exact absurd h (Option.some_ne_none _)
    case isFalse hlt hne =>
      obtain ⟨hl, hall⟩ := ih h
      rw [if_neg hlt, if_neg hne]
      refine ⟨by dsimp only; rw [hl], fun e he => ?_⟩
      obtain rfl | he := List.mem_cons.mp he
      · omega
      · exact hall e he

/-- What an extent handed out leaves: the list without it, from its first extent on. -/
structure Carved (l l' : List RtSlabPage) (a npages : Nat) : Prop where
  apart : Apart l'
  page_pos : ∀ e ∈ l', 0 < e.page
  lower : ∀ m, (∀ e ∈ l, m < e.addr) → ∀ e ∈ l', m < e.addr
  once : ∀ p, within a npages p + cover l' p = cover l p
  total : npages + (l'.map RtSlabPage.page).sum = (l.map RtSlabPage.page).sum

variable {a : Nat} {next : List RtSlabPage}

theorem pageAllocWalk_some (hl : Apart l) (hpos : ∀ e ∈ l, 0 < e.page)
    (h : (pageAllocWalk npages l).1 = some a) : Carved l (pageAllocWalk npages l).2 a npages := by
  induction l with
  | nil => exact absurd h.symm (Option.some_ne_none _)
  | cons b next ih =>
    obtain ⟨hb, hnext⟩ := List.pairwise_cons.mp hl
    have hpos' : ∀ e ∈ next, 0 < e.page := fun e he => hpos e (List.mem_cons_of_mem b he)
    unfold pageAllocWalk at h ⊢
    split at h
    case isTrue hlt =>
      cases h
      rw [if_pos hlt]
      refine ⟨List.pairwise_cons.mpr ⟨fun e he => ?_, hnext⟩, fun e he => ?_, fun m hm e he => ?_,
        fun p => ?_, ?_⟩
      · have := hb e he
        dsimp only
        omega
      · obtain rfl | he := List.mem_cons.mp he
        · dsimp only
          omega
        · exact hpos' e he
      · obtain rfl | he := List.mem_cons.mp he
        · have := hm b List.mem_cons_self
          dsimp only
          omega
        · exact hm e (List.mem_cons_of_mem b he)
      · have := within_add b.addr npages (b.page - npages) p
        rw [Nat.add_sub_cancel' (by omega)] at this
        simp only [cover_cons]
        omega
      · simp only [List.map_cons, List.sum_cons]
        omega
    split at h
    case isTrue hge heq =>
      cases h
      rw [if_neg hge, if_pos heq]
      refine ⟨hnext, hpos', fun m hm e he => hm e (List.mem_cons_of_mem b he), fun p => ?_, ?_⟩
      · rw [cover_cons, heq]
      · simp only [List.map_cons, List.sum_cons]
        omega
    case isFalse hge hne =>
      rw [if_neg hge, if_neg hne]
      obtain ⟨hap, hp, hlow, honce, htotal⟩ := ih hnext hpos' h
      refine ⟨List.pairwise_cons.mpr ⟨hlow _ hb, hap⟩, fun e he => ?_, fun m hm e he => ?_,
        fun p => ?_, ?_⟩
      · obtain rfl | he := List.mem_cons.mp he
        · exact hpos e List.mem_cons_self
        · exact hp e he
      · obtain rfl | he := List.mem_cons.mp he
        · exact hm e List.mem_cons_self
        · exact hlow m (fun e' he' => hm e' (List.mem_cons_of_mem b he')) e he
      · have := honce p
        simp only [cover_cons]
        omega
      · simp only [List.map_cons, List.sum_cons]
        omega

/-- A refused request leaves the page list, and no extent of it is large enough. -/
theorem rtSlabPageAlloc_none (h : (rtSlabPageAlloc l npages).1 = none) :
    (rtSlabPageAlloc l npages).2 = l ∧ (npages = 0 ∨ ∀ e ∈ l, e.page < npages) := by
  unfold rtSlabPageAlloc at h ⊢
  split
  case isTrue hz => exact ⟨rfl, .inl hz⟩
  case isFalse hz =>
    rw [if_neg hz] at h
    obtain ⟨hl, hall⟩ := pageAllocWalk_none h
    exact ⟨hl, .inr hall⟩

/-- A granted request hands out an extent of its own. -/
theorem PagesOk.alloc (h : PagesOk start n l live) (ha : (rtSlabPageAlloc l npages).1 = some a) :
    PagesOk start n (rtSlabPageAlloc l npages).2 (⟨a, npages⟩ :: live) := by
  unfold rtSlabPageAlloc at ha ⊢
  split at ha
  · exact absurd ha.symm (Option.some_ne_none _)
  case isFalse hz =>
    rw [if_neg hz]
    obtain ⟨hap, hp, -, honce, htotal⟩ := pageAllocWalk_some h.apart h.page_pos ha
    refine ⟨h.start_pos, hap, hp, fun e he => ?_, fun p => ?_, ?_⟩
    · obtain rfl | he := List.mem_cons.mp he
      · dsimp only
        omega
      · exact h.live_pos e he
    · have h₁ := honce p
      have h₂ := h.once p
      simp only [cover_cons]
      omega
    · have := h.total
      simp only [List.map_cons, List.sum_cons]
      omega

/-! ## Release -/

/-- An extent that no extent of the list meets lies before or behind each of them. -/
theorem before_or_behind (hpos : 0 < e.page) (hn : 0 < npages)
    (hfree : ∀ p, a ≤ p → p < a + npages → within e.addr e.page p = 0) :
    a + npages ≤ e.addr ∨ e.addr + e.page ≤ a := by
  by_contra hcon
  by_cases hle : e.addr ≤ a
  · have h₁ := hfree a (Nat.le_refl a) (by omega)
    have h₂ : within e.addr e.page a = 1 := within_eq_one.mpr ⟨hle, by omega⟩
    omega
  · have h₁ := hfree e.addr (by omega) (by omega)
    have h₂ : within e.addr e.page e.addr = 1 := within_eq_one.mpr ⟨Nat.le_refl _, by omega⟩
    omega

/-- What an extent taken back leaves. -/
structure Joined (l l' : List RtSlabPage) (a npages : Nat) : Prop where
  apart : Apart l'
  page_pos : ∀ e ∈ l', 0 < e.page
  lower : ∀ m, m < a → (∀ e ∈ l, m < e.addr) → ∀ e ∈ l', m < e.addr
  once : ∀ p, cover l' p = within a npages p + cover l p
  total : (l'.map RtSlabPage.page).sum = npages + (l.map RtSlabPage.page).sum

/-- The extent that is taken back follows the first one of the list. -/
theorem joined_behind (hb : ∀ e ∈ next, b.addr + (b.page + npages) < e.addr) (hnext : Apart next)
    (hpos : ∀ e ∈ b :: next, 0 < e.page) :
    Joined (b :: next) (⟨b.addr, b.page + npages⟩ :: next) (b.addr + b.page) npages := by
  refine ⟨List.pairwise_cons.mpr ⟨hb, hnext⟩, fun e he => ?_, fun m _ hm e he => ?_,
    fun p => ?_, ?_⟩
  · obtain rfl | he := List.mem_cons.mp he
    · have := hpos b List.mem_cons_self
      dsimp only
      omega
    · exact hpos e (List.mem_cons_of_mem b he)
  · obtain rfl | he := List.mem_cons.mp he
    · exact hm b List.mem_cons_self
    · exact hm e (List.mem_cons_of_mem b he)
  · simp only [cover_cons, within_add]
    omega
  · simp only [List.map_cons, List.sum_cons]
    omega

/-- The extent that is taken back fills the gap between the first two of the list. -/
theorem joined_between {c : RtSlabPage} (hc : b.addr + (b.page + npages) = c.addr)
    (hl : Apart (c :: next)) (hpos : ∀ e ∈ b :: c :: next, 0 < e.page) :
    Joined (b :: c :: next) (⟨b.addr, b.page + npages + c.page⟩ :: next) (b.addr + b.page)
      npages := by
  obtain ⟨hcn, hnext⟩ := List.pairwise_cons.mp hl
  have hin : ∀ e ∈ next, e ∈ b :: c :: next := fun e he =>
    List.mem_cons_of_mem b (List.mem_cons_of_mem c he)
  refine ⟨List.pairwise_cons.mpr ⟨fun e he => ?_, hnext⟩, fun e he => ?_, fun m _ hm e he => ?_,
    fun p => ?_, ?_⟩
  · have := hcn e he
    dsimp only
    omega
  · obtain rfl | he := List.mem_cons.mp he
    · have := hpos b List.mem_cons_self
      dsimp only
      omega
    · exact hpos e (hin e he)
  · obtain rfl | he := List.mem_cons.mp he
    · exact hm b List.mem_cons_self
    · exact hm e (hin e he)
  · simp only [cover_cons, within_add, ← Nat.add_assoc, ← hc]
    omega
  · simp only [List.map_cons, List.sum_cons]
    omega

/-- The extent that is taken back comes before the first one of the list. -/
theorem joined_before (hb : b.addr = a + npages) (hl : Apart (b :: next))
    (hpos : ∀ e ∈ b :: next, 0 < e.page) :
    Joined (b :: next) (⟨a, b.page + npages⟩ :: next) a npages := by
  obtain ⟨hbn, hnext⟩ := List.pairwise_cons.mp hl
  refine ⟨List.pairwise_cons.mpr ⟨fun e he => ?_, hnext⟩, fun e he => ?_, fun m ha hm e he => ?_,
    fun p => ?_, ?_⟩
  · have := hbn e he
    dsimp only
    omega
  · obtain rfl | he := List.mem_cons.mp he
    · have := hpos b List.mem_cons_self
      dsimp only
      omega
    · exact hpos e (List.mem_cons_of_mem b he)
  · obtain rfl | he := List.mem_cons.mp he
    · exact ha
    · exact hm e (List.mem_cons_of_mem b he)
  · simp only [cover_cons, Nat.add_comm b.page, within_add, hb]
    omega
  · simp only [List.map_cons, List.sum_cons]
    omega

/-- The extent that is taken back is put in front of the list, with a gap behind it. -/
theorem joined_front (hn : 0 < npages) (hb : ∀ e ∈ l, a + npages < e.addr) (hl : Apart l)
    (hpos : ∀ e ∈ l, 0 < e.page) : Joined l (⟨a, npages⟩ :: l) a npages := by
  refine ⟨List.pairwise_cons.mpr ⟨hb, hl⟩, fun e he => ?_, fun m ha hm e he => ?_, fun p => ?_, ?_⟩
  · obtain rfl | he := List.mem_cons.mp he
    · exact hn
    · exact hpos e he
  · obtain rfl | he := List.mem_cons.mp he
    · exact ha
    · exact hm e he
  · rw [cover_cons]
  · rw [List.map_cons, List.sum_cons]

/-- The extent that is taken back belongs behind the first one of the list. -/
theorem Joined.cons {next' : List RtSlabPage} (h : Joined next next' a npages)
    (hb : b.addr + b.page < a) (hl : Apart (b :: next)) (hpos : 0 < b.page) :
    Joined (b :: next) (b :: next') a npages := by
  obtain ⟨hap, hp, hlow, honce, htotal⟩ := h
  refine ⟨List.pairwise_cons.mpr ⟨hlow _ hb (List.pairwise_cons.mp hl).1, hap⟩, fun e he => ?_,
    fun m ha hm e he => ?_, fun p => ?_, ?_⟩
  · obtain rfl | he := List.mem_cons.mp he
    · exact hpos
    · exact hp e he
  · obtain rfl | he := List.mem_cons.mp he
    · exact hm e List.mem_cons_self
    · exact hlow m ha (fun e' he' => hm e' (List.mem_cons_of_mem b he')) e he
  · rw [cover_cons, cover_cons, honce p]
    omega
  · simp only [List.map_cons, List.sum_cons]
    omega

theorem pageFreeWalk_spec (hn : 0 < npages) (hl : Apart l) (hpos : ∀ e ∈ l, 0 < e.page)
    (hfree : ∀ p, a ≤ p → p < a + npages → cover l p = 0) :
    ∃ l', pageFreeWalk a npages l = some l' ∧ Joined l l' a npages := by
  induction l with
  | nil =>
    refine ⟨[⟨a, npages⟩], rfl, joined_front hn (fun e he => ?_) hl hpos⟩
    exact absurd he List.not_mem_nil
  | cons b next ih =>
    obtain ⟨hb, hnext⟩ := List.pairwise_cons.mp hl
    have hbpos := hpos b List.mem_cons_self
    have hpos' : ∀ e ∈ next, 0 < e.page := fun e he => hpos e (List.mem_cons_of_mem b he)
    have hfree' : ∀ p, a ≤ p → p < a + npages →
        within b.addr b.page p = 0 ∧ cover next p = 0 := by
      intro p h₁ h₂
      have := hfree p h₁ h₂
      rw [cover_cons] at this
      omega
    have hside := before_or_behind hbpos hn fun p h₁ h₂ => (hfree' p h₁ h₂).1
    unfold pageFreeWalk
    rw [if_pos ⟨hbpos, by omega⟩]
    split
    case isTrue heq =>
      subst heq
      cases next with
      | nil => exact ⟨_, rfl, joined_behind (fun e he => absurd he List.not_mem_nil) hnext hpos⟩
      | cons c next =>
        have hbc := hb c List.mem_cons_self
        have hcside := before_or_behind (hpos' c List.mem_cons_self) hn fun p h₁ h₂ => by
          have := (hfree' p h₁ h₂).2
          rw [cover_cons] at this
          omega
        dsimp only
        split
        case isTrue hc => exact ⟨_, rfl, joined_between hc hnext hpos⟩
        case isFalse hc =>
          refine ⟨_, rfl, joined_behind (fun e he => ?_) hnext hpos⟩
          obtain rfl | he := List.mem_cons.mp he
          · omega
          · have := (List.pairwise_cons.mp hnext).1 e he
            omega
    case isFalse hne =>
      split
      case isTrue heq => exact ⟨_, rfl, joined_before heq hl hpos⟩
      case isFalse hne' =>
        split
        case isTrue hlt =>
          refine ⟨_, rfl, joined_front hn (fun e he => ?_) hl hpos⟩
          obtain rfl | he := List.mem_cons.mp he
          · exact hlt
          · have := hb e he
            omega
        case isFalse hge =>
          obtain ⟨next', hwalk, hj⟩ := ih hnext hpos' fun p h₁ h₂ => (hfree' p h₁ h₂).2
          exact ⟨b :: next', by rw [hwalk]; rfl, hj.cons (by omega) hl hbpos⟩

/-- Taking back an extent that was handed out. -/
theorem PagesOk.free (h : PagesOk start n l (e :: live)) :
    ∃ l', rtSlabPageFree l e.addr e.page = some l' ∧ PagesOk start n l' live := by
  have hpos := h.live_pos e List.mem_cons_self
  have hcover : ∀ p, cover l p + (within e.addr e.page p + cover live p) = within start n p :=
    h.once
  have hfree : ∀ p, e.addr ≤ p → p < e.addr + e.page → cover l p = 0 := by
    intro p h₁ h₂
    have h₃ := hcover p
    have h₄ : within e.addr e.page p = 1 := within_eq_one.mpr ⟨h₁, h₂⟩
    have := within_le_one start n p
    omega
  have haddr : e.addr ≠ 0 := by
    intro hz
    have h₃ := hcover e.addr
    have h₄ : within e.addr e.page e.addr = 1 := within_eq_one.mpr ⟨Nat.le_refl _, by omega⟩
    have h₅ : within start n e.addr = 1 := by
      have := within_le_one start n e.addr
      omega
    have := (within_eq_one.mp h₅).1
    have := h.start_pos
    omega
  obtain ⟨l', hwalk, hj⟩ := pageFreeWalk_spec hpos h.apart h.page_pos hfree
  refine ⟨l', ?_, h.start_pos, hj.apart, hj.page_pos,
    fun e' he' => h.live_pos e' (List.mem_cons_of_mem e he'), fun p => ?_, ?_⟩
  · rw [rtSlabPageFree, if_neg (by omega), hwalk]
  · have := hcover p
    rw [hj.once p]
    omega
  · have := h.total
    rw [List.map_cons, List.sum_cons] at this
    rw [hj.total]
    omega

theorem rtSlabPageInit_eq (hz : ¬ (start = 0 ∨ n = 0)) :
    rtSlabPageInit start n = some [⟨start, n⟩] := by
  rw [rtSlabPageInit, if_neg hz, rtSlabPageFree, if_neg hz, pageFreeWalk]

/-- The region is not empty, and is one free extent. -/
theorem rtSlabPageInit_some (hinit : rtSlabPageInit start n = some l) :
    l = [⟨start, n⟩] ∧ 0 < n ∧ PagesOk start n l [] := by
  have hz : ¬ (start = 0 ∨ n = 0) := by
    intro hz
    rw [rtSlabPageInit, if_pos hz] at hinit
    exact Option.some_ne_none _ hinit.symm
  cases (rtSlabPageInit_eq hz).symm.trans hinit
  refine ⟨rfl, by omega, by omega, List.pairwise_singleton _ _, fun e he => ?_,
    fun e he => absurd he List.not_mem_nil, fun p => rfl, by simp⟩
  obtain rfl := List.mem_singleton.mp he
  dsimp only
  omega

/-! ## Runs -/

/-- The page list and the extents handed out. -/
structure PageState where
  pageList : List RtSlabPage
  live : List RtSlabPage
  deriving DecidableEq

inductive PageOp where
  | alloc (npages : Nat)
  | free (e : RtSlabPage)
  deriving DecidableEq

def pageStep (s : PageState) : PageOp → Option PageState
  | .alloc npages =>
    let r := rtSlabPageAlloc s.pageList npages
    some ⟨r.2, (r.1.map fun addr => ⟨addr, npages⟩).toList ++ s.live⟩
  | .free e => (rtSlabPageFree s.pageList e.addr e.page).map fun l => ⟨l, s.live.erase e⟩

/-- Only extents that are handed out are given back. -/
def FreesLive (s : PageState) : PageOp → Prop
  | .alloc _ => True
  | .free e => e ∈ s.live

instance (s : PageState) (op : PageOp) : Decidable (FreesLive s op) :=
  match op with
  | .alloc _ => .isTrue trivial
  | .free e => inferInstanceAs (Decidable (e ∈ s.live))

theorem pageStep_ok {s : PageState} {op : PageOp} (h : PagesOk start n s.pageList s.live)
    (hop : FreesLive s op) :
    ∃ s', pageStep s op = some s' ∧ PagesOk start n s'.pageList s'.live := by
  cases op with
  | alloc npages =>
    refine ⟨_, rfl, ?_⟩
    cases ha : (rtSlabPageAlloc s.pageList npages).1 with
    | none =>
      rw [(rtSlabPageAlloc_none ha).1]
      exact h
    | some a => exact h.alloc ha
  | free e =>
    obtain ⟨l', hfree, hok⟩ := (h.perm (List.perm_cons_erase hop)).free
    exact ⟨⟨l', s.live.erase e⟩, by rw [pageStep, hfree]; rfl, hok⟩

theorem cover_pos : 0 < cover l p ↔ ∃ e ∈ l, e.Covers p := by
  induction l with
  | nil => simp
  | cons e l ih =>
    rw [cover_cons]
    constructor
    · intro h
      by_cases he : e.Covers p
      · exact ⟨e, List.mem_cons_self, he⟩
      · have hzero : within e.addr e.page p = 0 := if_neg he
        rw [hzero, Nat.zero_add] at h
        obtain ⟨e', he', hc⟩ := ih.mp h
        exact ⟨e', List.mem_cons_of_mem e he', hc⟩
    · rintro ⟨e', he', hc⟩
      obtain rfl | he' := List.mem_cons.mp he'
      · have := within_of_covers hc
        omega
      · have := ih.mpr ⟨e', he', hc⟩
        omega

/-- Extents that cover no page twice have no page in common. -/
theorem disjoint_of_cover_le_one (h : ∀ p, cover l p ≤ 1) :
    l.Pairwise fun a b => ∀ p, a.Covers p → ¬ b.Covers p := by
  induction l with
  | nil => exact List.Pairwise.nil
  | cons e l ih =>
    refine List.pairwise_cons.mpr ⟨fun e' he' p hp hp' => ?_, ih fun p => ?_⟩
    · have h₁ := h p
      have h₂ := within_of_covers hp
      have h₃ := cover_pos.mpr ⟨e', he', hp'⟩
      rw [cover_cons] at h₁
      omega
    · have := h p
      rw [cover_cons] at this
      omega

theorem PagesOk.disjoint (h : PagesOk start n l live) :
    (l ++ live).Pairwise fun a b => ∀ p, a.Covers p → ¬ b.Covers p := by
  refine disjoint_of_cover_le_one fun p => ?_
  rw [cover_append, h.once p]
  exact within_le_one start n p

theorem PagesOk.region (h : PagesOk start n l live) (p : Nat) :
    (start ≤ p ∧ p < start + n) ↔ (∃ e ∈ l, e.Covers p) ∨ ∃ e ∈ live, e.Covers p := by
  rw [← cover_pos, ← cover_pos, ← within_eq_one, ← h.once p]
  have := h.once p
  have := within_le_one start n p
  omega

theorem rtSlabPageAlloc_eq_none :
    (rtSlabPageAlloc l npages).1 = none ↔ npages = 0 ∨ ∀ e ∈ l, e.page < npages := by
  refine ⟨fun h => (rtSlabPageAlloc_none h).2, fun h => ?_⟩
  obtain rfl | hlt := h
  · rfl
  · unfold rtSlabPageAlloc
    split
    · rfl
    · clear * - hlt
      induction l with
      | nil => rfl
      | cons b next ih =>
        have := hlt b List.mem_cons_self
        rw [pageAllocWalk, if_neg (by omega), if_neg (by omega)]
        exact ih fun e he => hlt e (List.mem_cons_of_mem b he)

/-- The page allocator over every run: the page list is sorted, with gaps between its extents; no
two extents, free or handed out, have a page in common, and together they are the region. A request
for at least one page is refused only if no free extent has that many pages. -/
theorem page_allocator_sound {l₀ : List RtSlabPage} {ops : List PageOp}
    (hinit : rtSlabPageInit start n = some l₀)
    (hok : Runs.Along pageStep FreesLive ⟨l₀, []⟩ ops) :
    ∃ t, Runs.run pageStep ⟨l₀, []⟩ ops = some t ∧
      t.pageList.Pairwise (fun a b => a.addr + a.page < b.addr) ∧
      (t.pageList ++ t.live).Pairwise (fun a b => ∀ p, a.Covers p → ¬ b.Covers p) ∧
      (∀ e ∈ t.pageList ++ t.live, 0 < e.page) ∧
      (∀ p, (start ≤ p ∧ p < start + n) ↔
        (∃ e ∈ t.pageList, e.Covers p) ∨ ∃ e ∈ t.live, e.Covers p) ∧
      ((t.pageList ++ t.live).map RtSlabPage.page).sum = n ∧
      ∀ npages, 0 < npages → (rtSlabPageAlloc t.pageList npages).1 = none →
        ∀ e ∈ t.pageList, e.page < npages := by
  obtain ⟨-, -, hok₀⟩ := rtSlabPageInit_some hinit
  obtain ⟨t, hrun, ht⟩ := Runs.run_total_along
    (fun s op hs hop => pageStep_ok hs hop) (s := ⟨l₀, []⟩) hok₀ hok
  refine ⟨t, hrun, ht.apart, ht.disjoint, fun e he => ?_, ht.region, ?_, fun npages hn hnone => ?_⟩
  · obtain he | he := List.mem_append.mp he
    · exact ht.page_pos e he
    · exact ht.live_pos e he
  · rw [List.map_append, List.sum_append]
    exact ht.total
  · obtain rfl | hall := rtSlabPageAlloc_eq_none.mp hnone
    · omega
    · exact hall

/-- Two extents of a region of eight pages are given back, the second one into the gap between
two free extents. -/
theorem page_allocator_sound_eight :
    ∃ t, Runs.run pageStep ⟨[⟨1, 8⟩], []⟩
        [.alloc 3, .alloc 2, .free ⟨1, 3⟩, .alloc 9, .free ⟨4, 2⟩] = some t ∧
      t = ⟨[⟨1, 8⟩], []⟩ ∧
      ∀ npages, 0 < npages → (rtSlabPageAlloc t.pageList npages).1 = none →
        ∀ e ∈ t.pageList, e.page < npages := by
  have hinit : rtSlabPageInit 1 8 = some [⟨1, 8⟩] := by decide
  have hok : Runs.Along pageStep FreesLive ⟨[⟨1, 8⟩], []⟩
      [.alloc 3, .alloc 2, .free ⟨1, 3⟩, .alloc 9, .free ⟨4, 2⟩] := by decide +kernel
  obtain ⟨t, hrun, -, -, -, -, -, hnull⟩ := page_allocator_sound hinit hok
  have hlast : Runs.run pageStep ⟨[⟨1, 8⟩], []⟩
      [.alloc 3, .alloc 2, .free ⟨1, 3⟩, .alloc 9, .free ⟨4, 2⟩] = some ⟨[⟨1, 8⟩], []⟩ := by
    decide +kernel
  exact ⟨t, hrun, Option.some.inj (hrun.symm.trans hlast), hnull⟩

/-- A request for no pages is refused in a region of which every page is free. -/
theorem page_alloc_null_of_zero :
    rtSlabPageInit 1 8 = some [⟨1, 8⟩] ∧ (rtSlabPageAlloc [⟨1, 8⟩] 0).1 = none ∧
      ¬ ∀ e ∈ ([⟨1, 8⟩] : List RtSlabPage), e.page < 0 := by
  decide

end RtThread.Slab
