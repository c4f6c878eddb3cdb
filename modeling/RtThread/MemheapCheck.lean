import RtThread.MemheapFallback

/-!
# The check of the memheaps

`memheapcheck` walks along the block list of every heap, or of the one with the name
given, and stops the walk of a heap at the first item that fails a test. The walk ends
before the tail item. `Detected` is what the tests amount to.
-/
namespace RtThread.Memheap

variable {c : Config} {s : State} {sys : System} {x y heap : Nat}

/-! ## The command -/

/-- `RT_NAME_MAX`. -/
def rtNameMax : Nat := 8

/-- `rt_strncmp`. -/
def rtStrncmp (cs ct : Nat → BitVec 8) : Nat → BitVec 8
  | 0 => 0
  | count + 1 =>
    let res := cs 0 - ct 0
    if res ≠ 0 ∨ cs 0 = 0 then res
    else rtStrncmp (fun i => cs (i + 1)) (fun i => ct (i + 1)) count

/-- The test of the magic. -/
def badMagic (s : State) (x : Nat) : Bool :=
  !(decide (s.magic x &&& magicFreed = magicFreed) || decide (s.magic x &&& magicUsed = magicUsed))

/-- The test of `pool_ptr`. -/
def badPool (s : State) (x : Nat) : Bool := decide (s.heap ≠ s.poolPtr x)

/-- The test of `next` and `prev`. -/
def badLinks (c : Config) (s : State) (x : Nat) : Bool :=
  !(decide (s.next x ≤ add s.startAddr s.poolSize) && decide (s.startAddr ≤ s.prev x)) &&
    decide (s.next x = rtAlign 32 (s.next x) c.align) &&
    decide (s.prev x = rtAlign 32 (s.prev x) c.align)

/-- The test of the item behind. -/
def badNext (s : State) (x : Nat) : Bool := decide (s.next x = s.prev (s.next x))

def bad (c : Config) (s : State) (x : Nat) : Bool :=
  badMagic s x || badPool s x || badLinks c s x || badNext s x

/-- The loop over the items of a heap, from `item` on: `has_bad`, and the item it ends at. -/
def checkItems (c : Config) (s : State) : Nat → Nat → Option (Bool × Nat)
  | 0, _ => none
  | fuel + 1, item =>
    if s.next item = s.blockList then some (false, item)
    else if bad c s item then some (true, item)
    else checkItems c s fuel (s.next item)

/-- The locals of `memheapcheck`. -/
structure Check where
  hasBad : Bool
  heap : Nat
  item : Nat
  deriving DecidableEq

/-- The heap is walked: it has the name given, if any. -/
def chosen (names : Nat → Nat → BitVec 8) (name : Option (Nat → BitVec 8)) (heap : Nat) : Bool :=
  match name with
  | none => true
  | some name => decide (rtStrncmp name (names heap) rtNameMax = 0)

/-- The loop over the heaps. -/
def checkHeaps (c : Config) (sys : System) (chosen : Nat → Bool) (fuel : Nat) :
    List Nat → Check → Option Check
  | [], check => some check
  | heap :: rest, check =>
    if chosen heap then
      (checkItems c (view sys heap) fuel (sys.object heap).blockList).bind fun r =>
        checkHeaps c sys chosen fuel rest ⟨check.hasBad || r.1, heap, r.2⟩
    else checkHeaps c sys chosen fuel rest { check with heap := heap }

/-- `memheapcheck`, for at most `fuel` steps in a heap; `names` are the `parent.name` of the
objects. What it reports is the heap and the item that it prints. -/
def memheapcheck (c : Config) (sys : System) (names : Nat → Nat → BitVec 8)
    (name : Option (Nat → BitVec 8)) (fuel : Nat) : Option (Option (Nat × Nat)) :=
  (checkHeaps c sys (chosen names name) fuel sys.objectList ⟨false, 0, 0⟩).map fun check =>
    if check.hasBad then some (check.heap, check.item) else none

/-! ## What the tests amount to -/

/-- The tests fail for an item whose magic lacks a bit of `RT_MEMHEAP_MAGIC`, that belongs to
another heap, whose links are aligned and leave the region upwards or downwards, or whose item
behind points back to itself. -/
structure Detected (c : Config) (s : State) (x : Nat) : Prop where
  cases : s.magic x &&& magicFreed ≠ magicFreed ∨ s.poolPtr x ≠ s.heap ∨
    ((add s.startAddr s.poolSize < s.next x ∨ s.prev x < s.startAddr) ∧
      rtAlign 32 (s.next x) c.align = s.next x ∧ rtAlign 32 (s.prev x) c.align = s.prev x) ∨
    s.prev (s.next x) = s.next x

/-- The magic of a used item has the bits of that of a free one. -/
theorem magicFreed_of_used {m : Nat} (h : m &&& magicUsed = magicUsed) :
    m &&& magicFreed = magicFreed := by
  have hbits : magicFreed = magicUsed &&& magicFreed := by decide
  rw [hbits, ← Nat.and_assoc, h]

theorem badMagic_iff : badMagic s x = true ↔ s.magic x &&& magicFreed ≠ magicFreed := by
  unfold badMagic
  rw [Bool.not_eq_true', Bool.or_eq_false_iff, decide_eq_false_iff_not, decide_eq_false_iff_not]
  exact ⟨And.left, fun h => ⟨h, fun hused => h (magicFreed_of_used hused)⟩⟩

theorem badLinks_iff : badLinks c s x = true ↔
    (add s.startAddr s.poolSize < s.next x ∨ s.prev x < s.startAddr) ∧
      rtAlign 32 (s.next x) c.align = s.next x ∧ rtAlign 32 (s.prev x) c.align = s.prev x := by
  unfold badLinks
  simp only [Bool.and_eq_true, Bool.not_eq_true', Bool.and_eq_false_iff, decide_eq_false_iff_not,
    decide_eq_true_eq, Nat.not_le, and_assoc]
  rw [eq_comm (b := rtAlign 32 (s.next x) c.align), eq_comm (b := rtAlign 32 (s.prev x) c.align)]

theorem bad_iff : bad c s x = true ↔ Detected c s x := by
  unfold bad badPool badNext
  rw [Bool.or_eq_true, Bool.or_eq_true, Bool.or_eq_true, badMagic_iff, badLinks_iff,
    decide_eq_true_eq, decide_eq_true_eq, or_assoc, or_assoc]
  constructor
  · rintro (h | h | h | h)
    · exact ⟨.inl h⟩
    · exact ⟨.inr (.inl (Ne.symm h))⟩
    · exact ⟨.inr (.inr (.inl h))⟩
    · exact ⟨.inr (.inr (.inr h.symm))⟩
  · rintro ⟨h | h | h | h⟩
    · exact .inl h
    · exact .inr (.inl (Ne.symm h))
    · exact .inr (.inr (.inl h))
    · exact .inr (.inr (.inr h.symm))

/-! ## The walk of one heap -/

/-- The loop over the items comes to `item`. -/
inductive Reached (c : Config) (s : State) : Nat → Prop where
  | first : Reached c s s.blockList
  | next {x : Nat} (reached : Reached c s x) (more : s.next x ≠ s.blockList)
      (good : ¬ Detected c s x) : Reached c s (s.next x)

/-- The loop over the items looks at `item`. -/
def Visited (c : Config) (s : State) (x : Nat) : Prop := Reached c s x ∧ s.next x ≠ s.blockList

/-- The loop over the items comes to an end. -/
def Ends (c : Config) (s : State) : Prop :=
  ∃ x, Reached c s x ∧ (s.next x = s.blockList ∨ Detected c s x)

theorem checkItems_sound {fuel : Nat} {found : Bool} (hx : Reached c s x)
    (hr : checkItems c s fuel x = some (found, y)) :
    Reached c s y ∧ (found = true → Visited c s y ∧ Detected c s y) ∧
      (found = false → s.next y = s.blockList) := by
  induction fuel generalizing x with
  | zero => cases hr
  | succ fuel ih =>
    rw [checkItems] at hr
    split at hr
    case isTrue hend =>
      cases hr
      exact ⟨hx, fun h => (Bool.false_ne_true h).elim, fun _ => hend⟩
    case isFalse hmore =>
      split at hr
      case isTrue hbad =>
        cases hr
        exact ⟨hx, fun _ => ⟨⟨hx, hmore⟩, bad_iff.mp hbad⟩, fun h => (Bool.noConfusion h)⟩
      case isFalse hgood =>
        exact ih (hx.next hmore fun h => hgood (bad_iff.mpr h)) hr

theorem checkItems_mono {fuel more : Nat} {r : Bool × Nat} (hle : fuel ≤ more)
    (hr : checkItems c s fuel x = some r) : checkItems c s more x = some r := by
  induction fuel generalizing x more with
  | zero => cases hr
  | succ fuel ih =>
    obtain ⟨more, rfl⟩ : ∃ k, more = k + 1 := ⟨more - 1, by omega⟩
    rw [checkItems] at hr ⊢
    split
    case isTrue hend =>
      rw [if_pos hend] at hr
      exact hr
    case isFalse hmore =>
      rw [if_neg hmore] at hr
      split
      case isTrue hbad =>
        rw [if_pos hbad] at hr
        exact hr
      case isFalse hgood =>
        rw [if_neg hgood] at hr
        exact ih (by omega) hr

/-- The walk up to `x` takes as many steps as there are items before it. -/
theorem Reached.walk (hx : Reached c s x) (fuel : Nat) :
    ∃ n, checkItems c s n s.blockList = checkItems c s fuel x := by
  induction hx generalizing fuel with
  | first => exact ⟨fuel, rfl⟩
  | next _ more good ih =>
    obtain ⟨n, hn⟩ := ih (fuel + 1)
    refine ⟨n, hn.trans ?_⟩
    rw [checkItems, if_neg more, if_neg fun hbad => good (bad_iff.mp hbad)]

theorem Visited.found (hx : Visited c s x) (hbad : Detected c s x) :
    ∃ n, checkItems c s n s.blockList = some (true, x) := by
  obtain ⟨n, hn⟩ := hx.1.walk 1
  refine ⟨n, hn.trans ?_⟩
  rw [checkItems, if_neg hx.2, if_pos (bad_iff.mpr hbad)]

theorem Reached.clean (hx : Reached c s x) (hend : s.next x = s.blockList) :
    ∃ n, checkItems c s n s.blockList = some (false, x) := by
  obtain ⟨n, hn⟩ := hx.walk 1
  refine ⟨n, hn.trans ?_⟩
  rw [checkItems, if_pos hend]

theorem Ends.result (h : Ends c s) : ∃ n r, checkItems c s n s.blockList = some r := by
  obtain ⟨x, hx, hcase⟩ := h
  by_cases hend : s.next x = s.blockList
  · obtain ⟨n, hn⟩ := hx.clean hend
    exact ⟨n, _, hn⟩
  · obtain ⟨n, hn⟩ := Visited.found ⟨hx, hend⟩ (hcase.resolve_left hend)
    exact ⟨n, _, hn⟩

theorem ends_of_result {n : Nat} {r : Bool × Nat}
    (hr : checkItems c s n s.blockList = some r) : Ends c s := by
  obtain ⟨found, y⟩ := r
  obtain ⟨hy, htrue, hfalse⟩ := checkItems_sound .first hr
  cases found with
  | true => exact ⟨y, hy, .inr (htrue rfl).2⟩
  | false => exact ⟨y, hy, .inl (hfalse rfl)⟩

/-! ## The walk of all heaps -/

variable {pick : Nat → Bool} {l : List Nat} {check check' : Check}
  {names : Nat → Nat → BitVec 8} {name : Option (Nat → BitVec 8)}

/-- The walk of the heap at `heap`. -/
def walk (c : Config) (sys : System) (fuel heap : Nat) : Option (Bool × Nat) :=
  checkItems c (view sys heap) fuel (sys.object heap).blockList

theorem checkHeaps_sound {fuel : Nat} (hr : checkHeaps c sys pick fuel l check = some check') :
    (∀ heap ∈ l, pick heap = true → ∃ r, walk c sys fuel heap = some r) ∧
      (check'.hasBad = true ↔ check.hasBad = true ∨
        ∃ heap ∈ l, pick heap = true ∧ ∃ y, walk c sys fuel heap = some (true, y)) := by
  induction l generalizing check with
  | nil =>
    cases hr
    simp
  | cons heap rest ih =>
    rw [checkHeaps] at hr
    split at hr
    case isTrue hchosen =>
      obtain ⟨⟨found, item⟩, hwalk, hrest⟩ := Option.bind_eq_some_iff.mp hr
      have hwalk' : walk c sys fuel heap = some (found, item) := hwalk
      obtain ⟨hall, hbad⟩ := ih hrest
      constructor
      · intro other hother hpick
        obtain rfl | hother := List.mem_cons.mp hother
        · exact ⟨_, hwalk'⟩
        · exact hall other hother hpick
      · rw [hbad, Bool.or_eq_true, or_assoc]
        refine or_congr_right ?_
        constructor
        · rintro (rfl | ⟨other, hother, hfound⟩)
          · exact ⟨heap, List.mem_cons_self, hchosen, item, hwalk'⟩
          · exact ⟨other, List.mem_cons_of_mem _ hother, hfound⟩
        · rintro ⟨other, hother, hpick, y, hy⟩
          obtain rfl | hother := List.mem_cons.mp hother
          · rw [hwalk'] at hy
            exact .inl (congrArg Prod.fst (Option.some.inj hy))
          · exact .inr ⟨other, hother, hpick, y, hy⟩
    case isFalse hskip =>
      obtain ⟨hall, hbad⟩ := ih hr
      constructor
      · intro other hother hpick
        obtain rfl | hother := List.mem_cons.mp hother
        · exact absurd hpick hskip
        · exact hall other hother hpick
      · rw [hbad]
        refine or_congr_right ⟨?_, ?_⟩
        · rintro ⟨other, hother, hfound⟩
          exact ⟨other, List.mem_cons_of_mem _ hother, hfound⟩
        · rintro ⟨other, hother, hpick, hfound⟩
          obtain rfl | hother := List.mem_cons.mp hother
          · exact absurd hpick hskip
          · exact ⟨other, hother, hpick, hfound⟩

theorem checkHeaps_total {fuel : Nat}
    (h : ∀ heap ∈ l, pick heap = true → ∃ r, walk c sys fuel heap = some r) :
    ∃ check', checkHeaps c sys pick fuel l check = some check' := by
  induction l generalizing check with
  | nil => exact ⟨check, rfl⟩
  | cons heap rest ih =>
    rw [checkHeaps]
    have hrest : ∀ other ∈ rest, pick other = true → ∃ r, walk c sys fuel other = some r :=
      fun other hother => h other (List.mem_cons_of_mem _ hother)
    split
    case isTrue hchosen =>
      obtain ⟨r, hr⟩ := h heap List.mem_cons_self hchosen
      have hitems : checkItems c (view sys heap) fuel (sys.object heap).blockList = some r := hr
      rw [hitems, Option.bind_some]
      exact ih hrest
    case isFalse => exact ih hrest

/-- A number of steps that is enough for every heap of a list. -/
theorem enough_steps {P : Nat → Nat → Prop} (hmono : ∀ heap m n, m ≤ n → P heap m → P heap n)
    (h : ∀ heap ∈ l, ∃ n, P heap n) : ∃ n, ∀ heap ∈ l, P heap n := by
  induction l with
  | nil => exact ⟨0, fun heap hmem => absurd hmem List.not_mem_nil⟩
  | cons heap rest ih =>
    obtain ⟨m, hm⟩ := h heap List.mem_cons_self
    obtain ⟨n, hn⟩ := ih fun other hother => h other (List.mem_cons_of_mem _ hother)
    refine ⟨m + n, fun other hother => ?_⟩
    obtain rfl | hother := List.mem_cons.mp hother
    · exact hmono _ _ _ (Nat.le_add_right m n) hm
    · exact hmono _ _ _ (Nat.le_add_left n m) (hn other hother)

/-! ## The report -/

/-- `memheapcheck` ends and prints a heap and an item. -/
def Reports (c : Config) (sys : System) (names : Nat → Nat → BitVec 8)
    (name : Option (Nat → BitVec 8)) : Prop :=
  ∃ fuel heap item, memheapcheck c sys names name fuel = some (some (heap, item))

/-- `memheapcheck` ends and prints nothing. -/
def Passes (c : Config) (sys : System) (names : Nat → Nat → BitVec 8)
    (name : Option (Nat → BitVec 8)) : Prop :=
  ∃ fuel, memheapcheck c sys names name fuel = some none

theorem walk_found {fuel : Nat} (h : walk c sys fuel heap = some (true, y)) :
    Visited c (view sys heap) y ∧ Detected c (view sys heap) y :=
  (checkItems_sound .first h).2.1 rfl

theorem reports_iff : Reports c sys names name ↔
    (∃ heap ∈ sys.objectList, chosen names name heap = true ∧
      ∃ x, Visited c (view sys heap) x ∧ Detected c (view sys heap) x) ∧
      ∀ heap ∈ sys.objectList, chosen names name heap = true → Ends c (view sys heap) := by
  constructor
  · rintro ⟨fuel, heap, item, hr⟩
    obtain ⟨check, hcheck, hprint⟩ := Option.map_eq_some_iff.mp hr
    obtain ⟨hall, hbad⟩ := checkHeaps_sound hcheck
    have hreport : check.hasBad = true := by
      by_contra hnot
      rw [if_neg hnot] at hprint
      cases hprint
    obtain hfalse | ⟨other, hother, hchosen, y, hy⟩ := hbad.mp hreport
    · cases hfalse
    · refine ⟨⟨other, hother, hchosen, y, walk_found hy⟩, fun heap' hheap' hchosen' => ?_⟩
      obtain ⟨r, hwalk⟩ := hall heap' hheap' hchosen'
      exact ends_of_result hwalk
  · rintro ⟨⟨heap, hheap, hchosen, x, hx, hbad⟩, hends⟩
    obtain ⟨n, hn⟩ := enough_steps (l := sys.objectList)
      (P := fun heap n => chosen names name heap = true → ∃ r, walk c sys n heap = some r)
      (fun _ _ _ hle hr hpick => (hr hpick).imp fun _ => checkItems_mono hle)
      fun other hother => by
        by_cases hpick : chosen names name other = true
        · obtain ⟨n, r, hr⟩ := (hends other hother hpick).result
          exact ⟨n, fun _ => ⟨r, hr⟩⟩
        · exact ⟨0, fun hpick' => absurd hpick' hpick⟩
    obtain ⟨check, hcheck⟩ := @checkHeaps_total _ _ _ _ ⟨false, 0, 0⟩ _ hn
    obtain ⟨m, hm⟩ := hx.found hbad
    obtain ⟨r, hr⟩ := hn heap hheap hchosen
    have hfound : walk c sys n heap = some (true, x) := by
      have h₁ := checkItems_mono (Nat.le_add_right n m) hr
      have h₂ := checkItems_mono (Nat.le_add_left m n) hm
      exact hr.trans (h₁.symm.trans h₂)
    have hreport := (checkHeaps_sound hcheck).2.mpr (.inr ⟨heap, hheap, hchosen, x, hfound⟩)
    refine ⟨n, check.heap, check.item, ?_⟩
    rw [memheapcheck, hcheck, Option.map_some, if_pos hreport]

theorem Passes.not_reports (h : Passes c sys names name) : ¬ Reports c sys names name := by
  rintro hreports
  obtain ⟨⟨heap, hheap, hchosen, x, hx, hbad⟩, -⟩ := reports_iff.mp hreports
  obtain ⟨fuel, hr⟩ := h
  obtain ⟨check, hcheck, hprint⟩ := Option.map_eq_some_iff.mp hr
  obtain ⟨hall, hfound⟩ := checkHeaps_sound hcheck
  obtain ⟨r, hwalk⟩ := hall heap hheap hchosen
  obtain ⟨n, hn⟩ := hx.found hbad
  have h₁ := checkItems_mono (Nat.le_add_right fuel n) hwalk
  have h₂ := checkItems_mono (Nat.le_add_left n fuel) hn
  have hreport := hfound.mpr (.inr ⟨heap, hheap, hchosen, x, hwalk.trans (h₁.symm.trans h₂)⟩)
  rw [if_pos hreport] at hprint
  cases hprint

/-! ## Heaps that no call broke -/

theorem Items.prev_ge (hr : Region c s) (h : Items c s l) (hx : x ∈ l) :
    s.startAddr ≤ s.prev x := by
  have hge := hr.pool_ge
  obtain rfl | ⟨p, hp, rfl⟩ := h.linked.path.exists_pred hx
  · rw [h.first, tailItem]
    omega
  · rw [h.linked.back p hp]
    exact (h.bounds hp).1

/-- No item before the tail item fails a test. -/
theorem Items.not_detected (hr : Region c s) (h : Items c s l) (hx : x ∈ l)
    (htop : s.startAddr + s.poolSize < 2 ^ 32) : ¬ Detected c s x := by
  have hsize := memheapSize_ge c
  obtain ⟨-, hnext, htail⟩ := h.bounds hx
  rw [tailItem] at htail
  rintro ⟨hmagic | hpool | ⟨hleave, -⟩ | hself⟩
  · refine hmagic ?_
    obtain hused | hfreed := h.magic x hx
    · rw [hused]
      decide
    · rw [hfreed, Nat.and_self]
  · exact hpool (h.pool x hx)
  · have hprev := h.prev_ge hr hx
    rw [add, wadd_eq htop] at hleave
    omega
  · rw [h.linked.back x hx] at hself
    omega

/-- The walk comes to the tail item. -/
theorem Items.reaches_tail (hr : Region c s) (h : Items c s l)
    (htop : s.startAddr + s.poolSize < 2 ^ 32) : Reached c s (tailItem c s) := by
  have hsize := memheapSize_ge c
  have hwalk : ∀ m a, (∀ x ∈ m, x ∈ l) → Blocks.Path c.memheapSize s.next a (tailItem c s) m →
      Reached c s a → Reached c s (tailItem c s) := by
    intro m
    induction m with
    | nil =>
      intro a _ hpath ha
      rw [← show a = tailItem c s from hpath]
      exact ha
    | cons x m ih =>
      rintro a hsub ⟨rfl, -, hpath⟩ ha
      have hx := hsub x List.mem_cons_self
      have hbounds := h.bounds hx
      refine ih _ (fun y hy => hsub y (List.mem_cons_of_mem _ hy)) hpath ?_
      exact ha.next (by rw [hr.block]; omega) (h.not_detected hr hx htop)
  refine hwalk l s.startAddr (fun _ hx => hx) h.linked.path ?_
  rw [← hr.block]
  exact .first

theorem SystemInv.passes (hs : SystemInv c sys)
    (htop : ∀ a ∈ sys.objectList, (sys.object a).startAddr + (sys.object a).poolSize < 2 ^ 32) :
    Passes c sys names name := by
  have hclean : ∀ heap ∈ sys.objectList, ∃ n, ∃ y, walk c sys n heap = some (false, y) := by
    intro heap hheap
    obtain ⟨hr, l, fl, hlists, -⟩ := hs.heap heap hheap
    have hreached := hlists.items.reaches_tail hr (htop heap hheap)
    obtain ⟨n, hn⟩ := hreached.clean (hlists.items.last.trans hr.block.symm)
    exact ⟨n, _, hn⟩
  obtain ⟨n, hn⟩ := enough_steps
    (fun _ _ _ hle hr => hr.imp fun _ => checkItems_mono hle) hclean
  obtain ⟨check, hcheck⟩ := @checkHeaps_total _ _ (chosen names name) _ ⟨false, 0, 0⟩ _
    fun heap hheap _ => (hn heap hheap).imp' (Prod.mk false) fun _ hy => hy
  have hgood : ¬ check.hasBad = true := by
    intro hbad
    obtain hfalse | ⟨heap, hheap, -, y, hy⟩ := (checkHeaps_sound hcheck).2.mp hbad
    · cases hfalse
    · obtain ⟨z, hz⟩ := hn heap hheap
      rw [hz] at hy
      cases hy
  refine ⟨n, ?_⟩
  rw [memheapcheck, hcheck, Option.map_some, if_neg hgood]

/-! ## Broken heaps -/

/-- The address is in the region of the heap. -/
def InPool (s : State) (a : Nat) : Prop := s.startAddr ≤ a ∧ a < s.startAddr + s.poolSize

/-- The item has a wrong magic, a link that leaves the region, or an item behind that does not
point back to it. -/
def Corrupt (s : State) (x : Nat) : Prop :=
  (s.magic x ≠ magicUsed ∧ s.magic x ≠ magicFreed) ∨ ¬ InPool s (s.next x) ∨
    ¬ InPool s (s.prev x) ∨ s.prev (s.next x) ≠ x

/-- In every state that a run of calls reaches in which no call of `rt_memheap_realloc` wraps,
`memheapcheck` reports nothing when no region ends at the top of the address space. In every state
at all in which it looks at a corrupt item, it reports one if and only if it looks at an item that
its tests detect and the walks of all heaps end. -/
theorem memheapcheck_exact (c : Config) (autoBinding : Bool) (names : Nat → Nat → BitVec 8)
    (name : Option (Nat → BitVec 8)) :
    (∀ (object : Nat → Object) (memory : Memory) (ops : List SystemOp) (sys : System),
      Runs.Along (systemStep c autoBinding) (SystemAllowed c) (noHeaps object memory) ops →
        Runs.Along (systemStep c autoBinding) (SystemUnwrapped c) (noHeaps object memory) ops →
          Runs.run (systemStep c autoBinding) (noHeaps object memory) ops = some sys →
            (∀ a ∈ sys.objectList,
              (sys.object a).startAddr + (sys.object a).poolSize < 2 ^ 32) →
                Passes c sys names name ∧ ¬ Reports c sys names name) ∧
    ∀ sys : System, (∃ heap ∈ sys.objectList, chosen names name heap = true ∧
        ∃ x, Visited c (view sys heap) x ∧ Corrupt (view sys heap) x) →
      (Reports c sys names name ↔ (∃ heap ∈ sys.objectList, chosen names name heap = true ∧
          ∃ x, Visited c (view sys heap) x ∧ Detected c (view sys heap) x) ∧
        ∀ heap ∈ sys.objectList, chosen names name heap = true → Ends c (view sys heap)) := by
  constructor
  · intro object memory ops sys hops hfits hrun htop
    obtain ⟨t, hrun', hs⟩ := Runs.run_total_along
      (fun _ _ h hop => h.step hop.1 hop.2) (noHeaps_inv c object memory) (hops.and hfits)
    obtain rfl := Option.some.inj (hrun'.symm.trans hrun)
    have hpasses : Passes c t names name := hs.passes htop
    exact ⟨hpasses, hpasses.not_reports⟩
  · intro sys _
    exact reports_iff

/-- A build with `RT_USING_MEMTRACE`. -/
def traceConfig : Config := { config4 with memtrace := true }

/-- One heap of 1024 bytes, and a block in it. -/
def traceOps : List SystemOp :=
  [.init 0x20000000 0x20000028 0x20001000 1024, .memheapAlloc 0x20000000 100]

/-- The header of the block is cleared. -/
def cleared (sys : System) : System :=
  { sys with memory := { sys.memory with magic := fun _ => 0 } }

theorem memheapcheck_exact_ram : ∃ sys, Runs.run (systemStep traceConfig true)
    (noHeaps (fun _ => blankObject) blankMemory) traceOps = some sys ∧
      Passes traceConfig sys (fun _ _ => 0) none ∧
        Reports traceConfig (cleared sys) (fun _ _ => 0) none := by
  have hcheck : decide (Runs.Along (systemStep traceConfig true) (SystemAllowed traceConfig)
        (noHeaps (fun _ => blankObject) blankMemory) traceOps ∧
      Runs.Along (systemStep traceConfig true) (SystemUnwrapped traceConfig)
        (noHeaps (fun _ => blankObject) blankMemory) traceOps) = true := by decide +kernel
  have hvalue : (Runs.run (systemStep traceConfig true)
      (noHeaps (fun _ => blankObject) blankMemory) traceOps).map (fun sys =>
        decide (sys.objectList = [0x20000000] ∧ (sys.object 0x20000000).startAddr = 0x20001000 ∧
          (sys.object 0x20000000).poolSize = 1024 ∧
          (sys.object 0x20000000).blockList = 0x20001000 ∧
          sys.memory.next 0x20001000 = 0x20001080)) = some true := by decide +kernel
  obtain ⟨hops, hfits⟩ := of_decide_eq_true hcheck
  obtain ⟨sys, hrun, hdec⟩ := Option.map_eq_some_iff.mp hvalue
  obtain ⟨hlist, hstart, hpool, hblock, hnext⟩ := of_decide_eq_true hdec
  obtain ⟨hsound, hexact⟩ := memheapcheck_exact traceConfig true (fun _ _ => 0) none
  refine ⟨sys, hrun, (hsound _ _ _ sys hops hfits hrun fun a ha => ?_).1, ?_⟩
  · rw [hlist] at ha
    obtain rfl := List.mem_singleton.mp ha
    rw [hstart, hpool]
    decide
  · have hheap : 0x20000000 ∈ (cleared sys).objectList := by
      rw [show (cleared sys).objectList = sys.objectList from rfl, hlist]
      exact List.mem_cons_self
    have hvisited : Visited traceConfig (view (cleared sys) 0x20000000) 0x20001000 := by
      have hfirst : Reached traceConfig (view (cleared sys) 0x20000000)
          (sys.object 0x20000000).blockList := .first
      rw [hblock] at hfirst
      refine ⟨hfirst, fun heq => ?_⟩
      rw [show (view (cleared sys) 0x20000000).next = sys.memory.next from rfl,
        show (view (cleared sys) 0x20000000).blockList = (sys.object 0x20000000).blockList from rfl,
        hnext, hblock] at heq
      exact absurd heq (by decide)
    have hmagic : (view (cleared sys) 0x20000000).magic 0x20001000 = 0 := rfl
    have hdetected : Detected traceConfig (view (cleared sys) 0x20000000) 0x20001000 := by
      refine ⟨.inl ?_⟩
      rw [hmagic]
      decide
    have hcorrupt : Corrupt (view (cleared sys) 0x20000000) 0x20001000 := by
      refine .inl ?_
      rw [hmagic]
      decide
    refine (hexact (cleared sys) ⟨_, hheap, rfl, _, hvisited, hcorrupt⟩).mpr
      ⟨⟨_, hheap, rfl, _, hvisited, hdetected⟩, fun heap hmem _ => ?_⟩
    rw [show (cleared sys).objectList = sys.objectList from rfl, hlist] at hmem
    obtain rfl := List.mem_singleton.mp hmem
    exact ⟨_, hvisited.1, .inr hdetected⟩

/-- The item behind the block points back into the block. -/
def brokenBack (sys : System) : System :=
  { sys with memory := { sys.memory with
      prev := Function.update sys.memory.prev 0x20001080 0x20001040 } }

/-- The item behind a block does not point back to it, and nothing is reported. -/
theorem memheapcheck_not_exact : ∃ sys, Runs.run (systemStep traceConfig true)
    (noHeaps (fun _ => blankObject) blankMemory) traceOps = some sys ∧
      (∃ heap ∈ (brokenBack sys).objectList, chosen (fun _ _ => 0) none heap = true ∧
        ∃ x, Visited traceConfig (view (brokenBack sys) heap) x ∧
          (brokenBack sys).memory.prev ((brokenBack sys).memory.next x) ≠ x) ∧
      ¬ Reports traceConfig (brokenBack sys) (fun _ _ => 0) none := by
  have hvalue : (Runs.run (systemStep traceConfig true)
      (noHeaps (fun _ => blankObject) blankMemory) traceOps).map (fun sys =>
        (decide (sys.objectList = [0x20000000] ∧
          (sys.object 0x20000000).blockList = 0x20001000 ∧
          sys.memory.next 0x20001000 = 0x20001080),
          memheapcheck traceConfig (brokenBack sys) (fun _ _ => 0) none 20)) =
            some (true, some none) := by decide +kernel
  obtain ⟨sys, hrun, hpair⟩ := Option.map_eq_some_iff.mp hvalue
  obtain ⟨hdec, hcheck⟩ := Prod.mk.inj hpair
  obtain ⟨hlist, hblock, hnext⟩ := of_decide_eq_true hdec
  have hpasses : Passes traceConfig (brokenBack sys) (fun _ _ => 0) none := ⟨20, hcheck⟩
  refine ⟨sys, hrun, ⟨0x20000000, ?_, rfl, 0x20001000, ⟨?_, fun heq => ?_⟩, ?_⟩,
    hpasses.not_reports⟩
  · rw [show (brokenBack sys).objectList = sys.objectList from rfl, hlist]
    exact List.mem_cons_self
  · have hfirst : Reached traceConfig (view (brokenBack sys) 0x20000000)
        (sys.object 0x20000000).blockList := .first
    rwa [hblock] at hfirst
  · rw [show (view (brokenBack sys) 0x20000000).next = sys.memory.next from rfl,
      show (view (brokenBack sys) 0x20000000).blockList = (sys.object 0x20000000).blockList from
        rfl, hnext, hblock] at heq
    exact absurd heq (by decide)
  · rw [show (brokenBack sys).memory.next = sys.memory.next from rfl, hnext]
    show Function.update sys.memory.prev 0x20001080 0x20001040 0x20001080 ≠ 0x20001000
    rw [Function.update_self]
    decide

end RtThread.Memheap
