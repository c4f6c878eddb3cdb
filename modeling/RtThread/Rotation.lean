import RtThread.Lib.RoundRobin
import RtThread.ReadyQueueRuns

/-!
# The scheduling decision and the rotation of equal priorities

The bitmap search returns the smallest priority with a ready thread, so one
scheduling picks a thread of minimal priority. While no thread of a smaller
priority is active, the running thread followed by the ready list of its
priority is a round-robin queue: a call either leaves it alone, lets a new
thread join at the back, or takes turns.
-/
namespace RtThread.Rotation

open Scheduler Thread ReadyQueue

/-! ## The smallest ready priority -/

variable {c : Config} {k k' k₁ k₂ : Kernel} {p : Nat} {t current toThread : ThreadId} {x : Thread}

theorem priority_lt (h : Inv c k) (hp : k.priorityTable p ≠ []) : p < c.priorityMax := by
  obtain ⟨t, ht⟩ := List.exists_mem_of_ne_nil _ hp
  have hq := ((h.base.queued.mem p t).mp ht).2
  exact hq ▸ h.base.queued.lt t

/-- The search in two levels finds the smallest priority whose list is not empty. -/
theorem two_level_search {group : BitVec 32} {table : Nat → BitVec 8}
    {lists : Nat → List ThreadId}
    (hlists : ∀ p < 256, ((table (p / 8)).getLsbD (p % 8) = true ↔ lists p ≠ []))
    (hrows : ∀ n < 32, (group.getLsbD n = true ↔ table n ≠ 0))
    (hlt : ∀ p, lists p ≠ [] → p < 256) (hg : group ≠ 0) :
    ∃ i j, i < 32 ∧ j < 8 ∧ Kservice.rtFfs group = i + 1 ∧
      Kservice.rtFfs ((table i).setWidth 32) = j + 1 ∧ lists (i * 8 + j) ≠ [] ∧
        ∀ p, lists p ≠ [] → i * 8 + j ≤ p := by
  obtain ⟨i, hffs, hlow⟩ := Kservice.rtFfs_lowest _ hg
  have hi : i < 32 := BitVec.lt_of_getLsbD hlow.set
  have hwidth : ∀ n j, ((table n).setWidth 32).getLsbD j = (table n).getLsbD j := by
    intro n j
    by_cases hj : j < 32
    · simp [hj]
    · simp [hj, BitVec.getLsbD_of_ge (table n) j (by omega)]
  have hrow : (table i).setWidth 32 ≠ 0 := by
    obtain ⟨j, hj, hset⟩ := (BitSets.ne_zero_iff _).mp ((hrows i hi).mp hlow.set)
    exact (BitSets.ne_zero_iff _).mpr ⟨j, by omega, by rw [hwidth]; exact hset⟩
  obtain ⟨j, hffs', hlow'⟩ := Kservice.rtFfs_lowest _ hrow
  have hj : (table i).getLsbD j = true := hwidth i j ▸ hlow'.set
  have hj8 : j < 8 := BitVec.lt_of_getLsbD hj
  refine ⟨i, j, hi, hj8, hffs, hffs', (hlists _ (by omega)).mp ?_, ?_⟩
  · rwa [show (i * 8 + j) / 8 = i by omega, show (i * 8 + j) % 8 = j by omega]
  · intro p hp
    have hlt := hlt p hp
    have hset := (hlists p hlt).mpr hp
    have hgroup : group.getLsbD (p / 8) = true := by
      refine (hrows _ (by omega)).mpr ((BitSets.ne_zero_iff _).mpr ?_)
      exact ⟨p % 8, by omega, hset⟩
    have hip : i ≤ p / 8 := by
      by_contra hlt'
      rw [hlow.below _ (by omega)] at hgroup
      simp at hgroup
    by_cases heq : i = p / 8
    · have hjp : j ≤ p % 8 := by
        by_contra hlt'
        rw [← heq, ← hwidth, hlow'.below _ (by omega)] at hset
        simp at hset
      omega
    · omega

/-- The bitmap search finds the smallest priority whose list is not empty. -/
theorem highestReadyPriority_least (h : Inv c k) (hg : k.readyPriorityGroup ≠ 0) :
    k.priorityTable (highestReadyPriority c k) ≠ [] ∧
      ∀ p, k.priorityTable p ≠ [] → highestReadyPriority c k ≤ p := by
  have hmax := c.priorityMax_le
  have hbits := h.base.queued.bits
  by_cases hc : 32 < c.priorityMax
  · simp only [Bits, hc, ↓reduceIte] at hbits
    obtain ⟨i, j, -, -, hffs, hffs', hne, hleast⟩ := two_level_search hbits.1 hbits.2
      (fun p hp => Nat.lt_of_lt_of_le (priority_lt h hp) hmax) hg
    have hval : highestReadyPriority c k = i * 8 + j := by
      simp only [highestReadyPriority, hc, ↓reduceIte, hffs, Nat.add_sub_cancel, hffs']
      omega
    rw [hval]
    exact ⟨hne, hleast⟩
  · simp only [Bits, hc, ↓reduceIte] at hbits
    obtain ⟨i, hffs, hlow⟩ := Kservice.rtFfs_lowest _ hg
    have hi : i < 32 := BitVec.lt_of_getLsbD hlow.set
    have hval : highestReadyPriority c k = i := by
      simp only [highestReadyPriority, hc, ↓reduceIte, hffs, Nat.add_sub_cancel]
    rw [hval]
    refine ⟨(hbits i hi).mp hlow.set, ?_⟩
    intro p hp
    by_contra hlt'
    have hset := (hbits p (by omega)).mpr hp
    rw [hlow.below _ (by omega)] at hset
    simp at hset

/-- A ready thread sets a bit of the group word. -/
theorem group_ne_zero (h : Inv c k) (ht : (k.thread t).stat = .ready) :
    k.readyPriorityGroup ≠ 0 := by
  have hmax := c.priorityMax_le
  have hlt := h.base.queued.lt t
  have hp : k.priorityTable (k.thread t).currentPriority ≠ [] :=
    List.ne_nil_of_mem ((h.base.queued.mem _ t).mpr ⟨ht, rfl⟩)
  have hbits := h.base.queued.bits
  rw [BitSets.ne_zero_iff]
  by_cases hc : 32 < c.priorityMax
  · simp only [Bits, hc, ↓reduceIte] at hbits
    refine ⟨(k.thread t).currentPriority / 8, by omega, (hbits.2 _ (by omega)).mpr ?_⟩
    rw [BitSets.ne_zero_iff]
    exact ⟨_, by omega, (hbits.1 _ (by omega)).mpr hp⟩
  · simp only [Bits, hc, ↓reduceIte] at hbits
    exact ⟨_, by omega, (hbits _ (by omega)).mpr hp⟩

/-- The smallest priority of a `READY` thread. -/
structure Best (k : Kernel) (p : Nat) : Prop where
  attained : ∃ t, (k.thread t).stat = .ready ∧ (k.thread t).currentPriority = p
  least : ∀ t, (k.thread t).stat = .ready → p ≤ (k.thread t).currentPriority

theorem highestReadyPriority_best (h : Inv c k) (hg : k.readyPriorityGroup ≠ 0) :
    Best k (highestReadyPriority c k) := by
  obtain ⟨hne, hleast⟩ := highestReadyPriority_least h hg
  constructor
  · obtain ⟨t, ht⟩ := List.exists_mem_of_ne_nil _ hne
    exact ⟨t, (h.base.queued.mem _ t).mp ht⟩
  · intro t ht
    exact hleast _ (List.ne_nil_of_mem ((h.base.queued.mem _ t).mpr ⟨ht, rfl⟩))

theorem Best.unique {q : Nat} (hp : Best k p) (hq : Best k q) : p = q := by
  obtain ⟨t, ht, rfl⟩ := hp.attained
  obtain ⟨u, hu, rfl⟩ := hq.attained
  exact Nat.le_antisymm (hp.least u hu) (hq.least t ht)

/-! ## What one scheduling leaves behind -/

/-- The running thread goes on. -/
structure Kept (k k' : Kernel) (current : ThreadId) : Prop where
  currentThread : k'.currentThread = some current
  stat : ∀ u, (k'.thread u).stat = (k.thread u).stat
  priority : ∀ u, (k'.thread u).currentPriority = (k.thread u).currentPriority
  table : k'.priorityTable = k.priorityTable
  switches : k'.switches = k.switches

/-- The processor goes to another thread; a thread that was running joins the back of its
list. -/
structure Switched (k k' : Kernel) (current toThread : ThreadId) : Prop where
  currentThread : k'.currentThread = some toThread
  stat : ∀ u, (k'.thread u).stat =
    if u = toThread then .running
    else if u = current ∧ (k.thread u).stat = .running then .ready
    else (k.thread u).stat
  priority : ∀ u, (k'.thread u).currentPriority = (k.thread u).currentPriority
  table : ∀ p, k'.priorityTable p =
    (if (k.thread current).stat = .running ∧ (k.thread current).currentPriority = p then
      k.priorityTable p ++ [current] else k.priorityTable p).filter (· ≠ toThread)
  switches : k'.switches = k.switches ++ [(current, toThread)]

@[simp] theorem remove_switches (c : Config) (k : Kernel) (t : ThreadId) :
    (rtScheduleRemoveThread c k t).switches = k.switches := by
  obtain ⟨table, group, h⟩ := remove_frame c k t
  rw [h]
  rfl

theorem setThread_priority (hx : x.currentPriority = (k.thread t).currentPriority) (u : ThreadId) :
    ((setThread k t x).thread u).currentPriority = (k.thread u).currentPriority := by
  by_cases hu : u = t
  · subst hu
    rw [setThread_same, hx]
  · rw [setThread_other _ _ _ _ hu]

theorem setThread_stat (k : Kernel) (t : ThreadId) (x : Thread) (u : ThreadId) :
    ((setThread k t x).thread u).stat = if u = t then x.stat else (k.thread u).stat := by
  by_cases hu : u = t
  · subst hu
    rw [setThread_same, if_pos rfl]
  · rw [setThread_other _ _ _ _ hu, if_neg hu]

theorem clearYield_priority (k : Kernel) (t u : ThreadId) :
    ((clearYield k t).thread u).currentPriority = (k.thread u).currentPriority := by
  obtain ⟨flag, he⟩ := clearYield_frame k t
  rw [he]
  exact setThread_priority (x := { k.thread t with yieldFlag := flag }) rfl u

theorem kept_of_keeps (h : Inv c k) (hcur : k.currentThread = some current)
    (hk : Keeps (k.thread current) p) :
    Kept k (setStat (rtScheduleRemoveThread c (clearYield k current) current) current .running)
      current := by
  obtain ⟨flag, he⟩ := clearYield_frame k current
  constructor
  · simpa only [setStat, setThread_currentThread, remove_currentThread, he] using hcur
  · intro u
    rw [setStat, setThread_stat, remove_thread, clearYield_stat]
    split
    · rename_i hu
      rw [hu, hk.1]
    · rfl
  · intro u
    rw [setStat, setThread_priority (by simp), remove_thread, clearYield_priority]
  · funext q
    simp only [setStat, setThread_priorityTable, remove_priorityTable, he]
    refine h.base.queued.filter_eq ?_ q
    rw [hk.1]
    simp
  · simp only [setStat, setThread, remove_switches, he]

theorem switched_switchTo (c : Config) (k : Kernel) (hne : toThread ≠ current) (p : Nat) :
    Switched k (switchTo c (clearYield k current) current toThread p
      (decide ((k.thread current).stat = .running))) current toThread := by
  obtain ⟨flag, he⟩ := clearYield_frame k current
  have hcs : (clearYield k current).switches = k.switches := by rw [he]; rfl
  have hct : (clearYield k current).priorityTable = k.priorityTable := by rw [he]; rfl
  have hstat := clearYield_stat k current
  have hprio := clearYield_priority k current
  by_cases hrun : (k.thread current).stat = .running
  · simp only [switchTo, hrun, decide_true, ↓reduceIte, rtScheduleInsertThread, Option.some.injEq,
      hne]
    constructor
    · simp [setStat]
    · intro u
      simp only [setStat, setThread_stat, remove_thread, link_thread, hstat]
      split
      · rfl
      · split
        · rename_i hu
          simp [hu, hrun]
        · rename_i hu
          simp [hu]
    · intro u
      simp only [setStat]
      rw [setThread_priority (by simp), remove_thread, link_thread, setThread_priority (by simp)]
      exact hprio u
    · intro q
      simp only [setStat, setThread_priorityTable, remove_priorityTable, link, setThread_same,
        hprio, hct, hrun, true_and]
      by_cases hq : (k.thread current).currentPriority = q
      · subst hq
        rw [Function.update_self, if_pos rfl]
      · rw [Function.update_of_ne (Ne.symm hq), if_neg hq]
    · simp only [setStat, setThread, remove_switches, link, hcs]
  · simp only [switchTo, hrun, decide_false, Bool.false_eq_true, ↓reduceIte]
    constructor
    · simp [setStat]
    · intro u
      simp only [setStat, setThread_stat, remove_thread, hstat]
      split
      · rfl
      · split
        · rename_i hu
          rw [hu.1] at hu
          exact absurd hu.2 hrun
        · rfl
    · intro u
      simp only [setStat]
      rw [setThread_priority (by simp), remove_thread]
      exact hprio u
    · intro q
      simp only [setStat, setThread_priorityTable, remove_priorityTable, hct, hrun, false_and,
        ↓reduceIte]
    · simp only [setStat, setThread, remove_switches, hcs]

/-- A scheduling, from the outside. -/
theorem rtSchedule_outcome (h : Inv c k) (hs : rtSchedule c k = some k') :
    (k' = k ∧ (k.schedulerLockNest ≠ 0 ∨ k.readyPriorityGroup = 0)) ∨
    ∃ current toThread p, k.currentThread = some current ∧ Best k p ∧
      (k.priorityTable p).head? = some toThread ∧ toThread ≠ current ∧
      (Keeps (k.thread current) p ∧ Kept k k' current ∨
        ¬ Keeps (k.thread current) p ∧ Switched k k' current toThread) := by
  obtain hsame | ⟨current, toThread, _, hg, hcur, hto, hne, ⟨hk, rfl⟩ | ⟨hk, rfl⟩⟩ :=
    rtSchedule_cases h hs
  · exact .inl hsame
  · exact .inr ⟨current, toThread, _, hcur, highestReadyPriority_best h hg, hto, hne,
      .inl ⟨hk, kept_of_keeps h hcur hk⟩⟩
  · exact .inr ⟨current, toThread, _, hcur, highestReadyPriority_best h hg, hto, hne,
      .inr ⟨hk, switched_switchTo c k hne _⟩⟩

/-! ## The decision -/

/-- The threads one scheduling chooses from. -/
def Candidate (k : Kernel) (t : ThreadId) : Prop :=
  (k.thread t).stat = .ready ∨ k.currentThread = some t ∧ (k.thread t).stat = .running

/-- What `rt_schedule` decides in `k`, where `current` is the current thread. -/
structure Decision (k : Kernel) (current : ThreadId) (k' : Kernel) : Prop where
  minimal : (∃ t, Candidate k t) → ∃ t, k'.currentThread = some t ∧
    (k'.thread t).stat = .running ∧ Candidate k t ∧
    ∀ u, Candidate k u → (k.thread t).currentPriority ≤ (k.thread u).currentPriority
  keeps : (k.thread current).stat = .running → Best k (k.thread current).currentPriority →
    (k.thread current).yieldFlag = false →
    k'.currentThread = some current ∧ k'.priorityTable = k.priorityTable
  yields : (k.thread current).stat = .running → Best k (k.thread current).currentPriority →
    (k.thread current).yieldFlag = true →
    ∃ head rest, k.priorityTable (k.thread current).currentPriority = head :: rest ∧
      k'.currentThread = some head ∧
      k'.priorityTable (k.thread current).currentPriority = rest ++ [current]

/-- Moving the first element to the processor and the running one to the back. -/
theorem Switched.table_turn (h : Inv c k) {rest : List ThreadId}
    (hs : Switched k k' current toThread) (hne : toThread ≠ current)
    (hrun : (k.thread current).stat = .running) (hp : (k.thread current).currentPriority = p)
    (ht : k.priorityTable p = toThread :: rest) : k'.priorityTable p = rest ++ [current] := by
  have hnd := h.base.queued.nodup p
  rw [ht, List.nodup_cons] at hnd
  have hrest : rest.filter (· ≠ toThread) = rest := by
    rw [List.filter_eq_self]
    intro u hu
    have : u ≠ toThread := by
      rintro rfl
      exact hnd.1 hu
    simpa using this
  rw [hs.table, if_pos ⟨hrun, hp⟩, ht, List.filter_append, List.filter_cons_of_neg (by simp),
    hrest, List.filter_cons_of_pos (by simpa using hne.symm), List.filter_nil]

theorem decision_of_outcome (h : Inv c k) (hcur : k.currentThread = some current)
    (hlock : k.schedulerLockNest = 0) (hs : rtSchedule c k = some k') : Decision k current k' := by
  have hcand : ∀ {u}, Candidate k u → (k.thread u).stat = .ready ∨
      u = current ∧ (k.thread u).stat = .running := by
    rintro u (hu | ⟨hu, hr⟩)
    · exact .inl hu
    · exact .inr ⟨Option.some.inj (hu.symm.trans hcur), hr⟩
  obtain ⟨rfl, hlock' | hg⟩ | ⟨cur, toThread, p, hcur', hbest, hto, hne, hout⟩ :=
    rtSchedule_outcome h hs
  · exact absurd hlock hlock'
  · have hnone : ∀ t, (k'.thread t).stat ≠ .ready := fun t ht => group_ne_zero h ht hg
    constructor
    · rintro ⟨t, ht⟩
      obtain ⟨rfl, hr⟩ := (hcand ht).resolve_left (hnone t)
      refine ⟨t, hcur, hr, ht, ?_⟩
      intro u hu
      rw [((hcand hu).resolve_left (hnone u)).1]
    · exact fun _ hb => absurd hb.attained.choose_spec.1 (hnone _)
    · exact fun _ hb => absurd hb.attained.choose_spec.1 (hnone _)
  · obtain rfl : cur = current := Option.some.inj (hcur'.symm.trans hcur)
    obtain ⟨hready, hprio⟩ := head_queued h hto
    obtain ⟨hk, hkept⟩ | ⟨hk, hsw⟩ := hout
    · constructor
      · intro _
        refine ⟨cur, hkept.currentThread, ?_, .inr ⟨hcur, hk.1⟩, ?_⟩
        · rw [hkept.stat, hk.1]
        · intro u hu
          have hle : (k.thread cur).currentPriority ≤ p := by
            obtain hlt | heq := hk.2 <;> omega
          obtain hu | ⟨rfl, _⟩ := hcand hu
          · exact hle.trans (hbest.least u hu)
          · exact Nat.le_refl _
      · exact fun _ _ _ => ⟨hkept.currentThread, hkept.table⟩
      · intro _ hb hy
        exfalso
        obtain hlt | ⟨_, hy'⟩ := hk.2
        · exact absurd (hb.unique hbest) (Nat.ne_of_lt hlt)
        · rw [hy] at hy'
          simp at hy'
    · constructor
      · intro _
        refine ⟨toThread, hsw.currentThread, ?_, .inl hready, ?_⟩
        · rw [hsw.stat, if_pos rfl]
        · intro u hu
          rw [hprio]
          obtain hu | ⟨rfl, hr⟩ := hcand hu
          · exact hbest.least u hu
          · by_contra hlt
            exact hk ⟨hr, .inl (by omega)⟩
      · intro hr hb hy
        exact absurd ⟨hr, .inr ⟨hb.unique hbest, hy⟩⟩ hk
      · intro hr hb _
        have hp := hb.unique hbest
        obtain ⟨rest, hrest⟩ : ∃ rest, k.priorityTable p = toThread :: rest :=
          ⟨_, List.eq_cons_of_mem_head? hto⟩
        rw [hp]
        exact ⟨toThread, rest, hrest, hsw.currentThread, hsw.table_turn h hne hr hp hrest⟩

/-- With a current thread, `rt_schedule` returns. -/
theorem rtSchedule_isSome (h : Inv c k) (hcur : k.currentThread = some current) :
    ∃ k', rtSchedule c k = some k' := by
  unfold rtSchedule
  split
  · split
    · rename_i hg
      obtain ⟨hne, _⟩ := highestReadyPriority_least h hg
      obtain ⟨t, rest, ht⟩ := List.exists_cons_of_ne_nil hne
      simp only [hcur, schedulerGetHighestPriorityThread, ht, List.head?_cons, Option.map_some,
        Option.bind_eq_bind, Option.bind_some]
      split
      · exact ⟨_, rfl⟩
      · exact ⟨_, rfl⟩
    · exact ⟨k, rfl⟩
  · exact ⟨k, rfl⟩

/-! ## Rotation -/

def Active (x : Thread) : Prop := x.stat = .ready ∨ x.stat = .running

/-- No active thread is more urgent than priority `p`. -/
def NoHigher (p : Nat) (k : Kernel) : Prop :=
  ∀ t, Active (k.thread t) → p ≤ (k.thread t).currentPriority

/-- Active threads stay active, at their priority. -/
def Grows (k k' : Kernel) : Prop :=
  ∀ t, Active (k.thread t) → Active (k'.thread t) ∧
    (k'.thread t).currentPriority = (k.thread t).currentPriority

theorem Grows.trans (h : Grows k k₁) (h' : Grows k₁ k₂) : Grows k k₂ := by
  intro t ht
  obtain ⟨h₁, hp₁⟩ := h t ht
  obtain ⟨h₂, hp₂⟩ := h' t h₁
  exact ⟨h₂, hp₂.trans hp₁⟩

theorem Grows.noHigher (h : Grows k k') (hn : NoHigher p k') : NoHigher p k := by
  intro t ht
  obtain ⟨h₁, hp₁⟩ := h t ht
  exact hp₁ ▸ hn t h₁

/-- The current thread is running at priority `p`. -/
def PeerRuns (p : Nat) (k : Kernel) : Prop :=
  ∃ t, k.currentThread = some t ∧ (k.thread t).stat = .running ∧
    (k.thread t).currentPriority = p

/-- The current thread, followed by the ready list of the priority. -/
def lane (p : Nat) (k : Kernel) : List ThreadId := k.currentThread.toList ++ k.priorityTable p

/-- The lane takes turns, and the context switches are the turns taken. -/
def Rotates (p : Nat) (k k' : Kernel) : Prop :=
  ∃ out, k'.switches = k.switches ++ out ∧
    RoundRobin.Turns (lane p k) (out.map Prod.snd) (lane p k')

theorem Rotates.of_eq (hl : lane p k' = lane p k) (hs : k'.switches = k.switches) :
    Rotates p k k' := by
  refine ⟨[], by simp [hs], ?_⟩
  rw [hl]
  exact .refl

theorem Rotates.trans (h : Rotates p k k₁) (h' : Rotates p k₁ k₂) : Rotates p k k₂ := by
  obtain ⟨out, hs, ht⟩ := h
  obtain ⟨out', hs', ht'⟩ := h'
  refine ⟨out ++ out', by rw [hs', hs, List.append_assoc], ?_⟩
  rw [List.map_append]
  exact ht.trans ht'

/-- A step of the kernel in which no active thread leaves, and the lane of priority `p`
only takes turns. -/
structure PeerStep (c : Config) (p : Nat) (k k' : Kernel) : Prop where
  inv : Inv c k'
  grows : Grows k k'
  rotates : PeerRuns p k → NoHigher p k' → PeerRuns p k' ∧ Rotates p k k'

theorem PeerStep.trans (h : PeerStep c p k k₁) (h' : PeerStep c p k₁ k₂) : PeerStep c p k k₂ := by
  refine ⟨h'.inv, h.grows.trans h'.grows, ?_⟩
  intro hp hn
  obtain ⟨hp₁, hr₁⟩ := h.rotates hp (h'.grows.noHigher hn)
  obtain ⟨hp₂, hr₂⟩ := h'.rotates hp₁ hn
  exact ⟨hp₂, hr₁.trans hr₂⟩

/-- A step that touches neither the queue nor the states and priorities. -/
theorem PeerStep.of_frame (h : Inv c k') (hs : ∀ t, (k'.thread t).stat = (k.thread t).stat)
    (hp : ∀ t, (k'.thread t).currentPriority = (k.thread t).currentPriority)
    (ht : k'.priorityTable = k.priorityTable) (hc : k'.currentThread = k.currentThread)
    (hw : k'.switches = k.switches) : PeerStep c p k k' := by
  refine ⟨h, ?_, ?_⟩
  · intro t
    rw [Active, Active, hs]
    exact fun ha => ⟨ha, hp t⟩
  · rintro ⟨t, hcur, hrun, hpt⟩ _
    exact ⟨⟨t, hc.trans hcur, (hs t).trans hrun, (hp t).trans hpt⟩,
      .of_eq (by rw [lane, lane, hc, ht]) hw⟩

/-- A thread that is and stays inactive may change otherwise. -/
theorem PeerStep.of_inactive (h : Inv c (setThread k t x)) (ht : ¬ Active (k.thread t)) :
    PeerStep c p k (setThread k t x) := by
  have hother : ∀ u, Active (k.thread u) → (setThread k t x).thread u = k.thread u := by
    intro u hu
    refine setThread_other _ _ _ _ ?_
    rintro rfl
    exact ht hu
  refine ⟨h, ?_, ?_⟩
  · intro u hu
    rw [hother u hu]
    exact ⟨hu, rfl⟩
  · rintro ⟨u, hcur, hrun, hpu⟩ _
    have hu := hother u (.inr hrun)
    exact ⟨⟨u, hcur, by rw [hu]; exact hrun, by rw [hu]; exact hpu⟩, .of_eq rfl rfl⟩

/-- Waking a suspended thread: it joins the back of its list. -/
theorem wake_peerStep (h : Inv c k) (ht : (k.thread t).stat = .suspend) :
    PeerStep c p k (rtScheduleInsertThread c (rtListRemove k t) t) := by
  have hx := h.base.attributed t (by simp [Live, ht])
  have hinv : Inv c (rtScheduleInsertThread c (rtListRemove k t) t) :=
    (h.base.except (by simp [ht])).rtListRemove.insert_inv (fun u _ hu => h.current u hu) hx
  refine ⟨hinv, ?_, ?_⟩
  · intro u hu
    have hut : u ≠ t := by
      rintro rfl
      simp [Active, ht] at hu
    have hthread : (rtScheduleInsertThread c (rtListRemove k t) t).thread u = k.thread u := by
      unfold rtScheduleInsertThread
      split
      · exact setThread_other _ _ _ _ hut
      · exact setThread_other _ _ _ _ hut
    rw [hthread]
    exact ⟨hu, rfl⟩
  · rintro ⟨u, hcur, hrun, hpu⟩ _
    have hut : u ≠ t := by
      rintro rfl
      simp [ht] at hrun
    have hcur' : (rtListRemove k t).currentThread ≠ some t := by
      intro hct
      exact hut (Option.some.inj (hcur.symm.trans hct))
    have htable : (rtListRemove k t).priorityTable = k.priorityTable := by
      funext q
      exact h.base.queued.filter_eq (by simp [ht]) q
    have hnot : t ∉ lane p k := by
      simp only [lane, hcur, Option.toList_some, List.mem_append, List.mem_singleton, not_or]
      refine ⟨Ne.symm hut, ?_⟩
      rw [h.base.queued.mem]
      simp [ht]
    simp only [rtScheduleInsertThread, hcur', ↓reduceIte]
    refine ⟨⟨u, hcur, ?_, ?_⟩, [], by simp [link, setStat, setThread, rtListRemove], ?_⟩
    · rw [link_thread, setStat, setThread_other _ _ _ _ hut]
      exact hrun
    · rw [link_thread, setStat, setThread_other _ _ _ _ hut]
      exact hpu
    · have hlane : lane p (link c (setStat (rtListRemove k t) t .ready) t) = lane p k ∨
          lane p (link c (setStat (rtListRemove k t) t .ready) t) = lane p k ++ [t] := by
        simp only [lane, link, setStat, setThread_currentThread, setThread_priorityTable,
          setThread_same, htable]
        by_cases hq : p = ((rtListRemove k t).thread t).currentPriority
        · right
          subst hq
          rw [Function.update_self, List.append_assoc]
          rfl
        · left
          rw [Function.update_of_ne hq]
          rfl
      obtain hl | hl := hlane
      · rw [hl]
        exact .refl
      · rw [hl]
        exact .join .refl hnot

theorem rtSchedule_peerStep (h : Inv c k) (hs : rtSchedule c k = some k') : PeerStep c p k k' := by
  have hinv := rtSchedule_inv h hs
  obtain ⟨rfl, _⟩ | ⟨current, toThread, q, hcur, hbest, hto, hne, ⟨hk, hkept⟩ | ⟨hk, hsw⟩⟩ :=
    rtSchedule_outcome h hs
  · exact .of_frame h (fun _ => rfl) (fun _ => rfl) rfl rfl rfl
  · exact .of_frame hinv hkept.stat hkept.priority hkept.table
      (hkept.currentThread.trans hcur.symm) hkept.switches
  · have hgrows : Grows k k' := by
      intro t ht
      refine ⟨?_, hsw.priority t⟩
      rw [Active, hsw.stat]
      split
      · exact .inr rfl
      · split
        · exact .inl rfl
        · exact ht
    refine ⟨hinv, hgrows, ?_⟩
    rintro ⟨t, hct, hrun, hpt⟩ hn
    obtain rfl : t = current := Option.some.inj (hct.symm.trans hcur)
    obtain ⟨hready, hprio⟩ := head_queued h hto
    have hpq : (k.thread t).currentPriority = q := by
      have hle : p ≤ q := hprio ▸ hgrows.noHigher hn toThread (.inl hready)
      by_contra hne'
      exact hk ⟨hrun, .inl (by omega)⟩
    obtain ⟨rest, hrest⟩ : ∃ rest, k.priorityTable q = toThread :: rest :=
      ⟨_, List.eq_cons_of_mem_head? hto⟩
    have hturn := hsw.table_turn h hne hrun hpq hrest
    have hp : q = p := hpq.symm.trans hpt
    subst hp
    refine ⟨⟨toThread, hsw.currentThread, by rw [hsw.stat, if_pos rfl], ?_⟩,
      [(t, toThread)], hsw.switches, ?_⟩
    · rw [hsw.priority, hprio]
    · simp only [lane, hcur, hsw.currentThread, hrest, hturn, Option.toList_some,
        List.map_cons, List.map_nil]
      exact RoundRobin.Turns.rotate .refl

theorem setThread_peerStep (h : Inv c k) (hs : x.stat = (k.thread t).stat)
    (hp : x.currentPriority = (k.thread t).currentPriority) (hn : x.number = (k.thread t).number)
    (hm : x.numberMask = (k.thread t).numberMask) (hh : x.highMask = (k.thread t).highMask) :
    PeerStep c p k (setThread k t x) := by
  refine .of_frame (h.setThread hs hp hn hm hh) ?_ (setThread_priority hp) rfl rfl rfl
  intro u
  rw [setThread_stat]
  split
  · rename_i hu
    rw [hu, hs]
  · rfl

/-- The timers are no part of the queue. -/
theorem timers_peerStep (h : Inv c k) (timers : Timer.State) :
    PeerStep c p k { k with timers := timers } :=
  .of_frame (h.congr rfl rfl rfl rfl rfl) (fun _ => rfl) (fun _ => rfl) rfl rfl rfl

theorem lock_peerStep (h : Inv c k) (n : Int) : PeerStep c p k { k with schedulerLockNest := n } :=
  .of_frame (h.congr rfl rfl rfl rfl rfl) (fun _ => rfl) (fun _ => rfl) rfl rfl rfl

theorem rtThreadResume_peerStep (h : Inv c k) (t : ThreadId) :
    PeerStep c p k (rtThreadResume c k t).1 := by
  unfold rtThreadResume
  split
  · exact .of_frame h (fun _ => rfl) (fun _ => rfl) rfl rfl rfl
  · rename_i hs
    have ht := timers_peerStep (p := p) h (Timer.rtTimerStop k.timers t).1
    exact ht.trans (wake_peerStep ht.inv (t := t) (not_not.mp hs))

theorem rtThreadStartup_peerStep (h : Inv c k) (hs : rtThreadStartup c k t = some k') :
    PeerStep c p k k' := by
  unfold rtThreadStartup at hs
  split at hs
  · rename_i hi
    have h₁ : PeerStep c p k (setThread k t
        { priorityAttribute c (k.thread t) with stat := .suspend, yieldFlag := false }) :=
      .of_inactive (startup_suspend_inv h hi) (by simp [Active, hi])
    have h₂ := h₁.trans (rtThreadResume_peerStep h₁.inv t)
    dsimp only at hs
    split at hs
    · cases hs
      exact h₂
    · exact h₂.trans (rtSchedule_peerStep h₂.inv hs)
  · simp at hs

theorem rtThreadYield_peerStep (h : Inv c k) (hs : rtThreadYield c k = some k') :
    PeerStep c p k k' := by
  obtain ⟨t, _, hs⟩ := Option.bind_eq_some_iff.mp hs
  have h₁ : PeerStep c p k (setThread k t
      { k.thread t with remainingTick := (k.thread t).initTick, yieldFlag := true }) :=
    setThread_peerStep h rfl rfl rfl rfl rfl
  exact h₁.trans (rtSchedule_peerStep h₁.inv hs)

theorem threadTimeout_peerStep (h : Inv c k) (hs : threadTimeout c k t = some k') :
    PeerStep c p k k' := by
  unfold threadTimeout at hs
  split at hs
  · rename_i hsus
    have h₁ : PeerStep c p k (setThread k t { k.thread t with error := .etimeout }) :=
      setThread_peerStep h rfl rfl rfl rfl rfl
    have h₂ := h₁.trans (wake_peerStep h₁.inv (t := t) (by simp [hsus]))
    exact h₂.trans (rtSchedule_peerStep h₂.inv hs)
  · simp at hs

theorem tickSlice_peerStep (h : Inv c k) (hs : tickSlice c k = some k') : PeerStep c p k k' := by
  have h₁ := timers_peerStep (p := p) h { k.timers with tick := k.timers.tick + 1 }
  obtain ⟨t, n, b, hinv, hs⟩ := tickSlice_cases h hs
  have h₂ : PeerStep c p k (sliced k t n b) :=
    h₁.trans (setThread_peerStep h₁.inv rfl rfl rfl rfl rfl)
  obtain hs | rfl := hs
  · exact h₂.trans (rtSchedule_peerStep hinv hs)
  · exact h₂

theorem timerCheckLoop_peerStep (n : Nat) (h : Inv c k) (hs : timerCheckLoop c n k = some k') :
    PeerStep c p k k' := by
  have hrefl : PeerStep c p k k := .of_frame h (fun _ => rfl) (fun _ => rfl) rfl rfl rfl
  induction n generalizing k with
  | zero =>
    cases hs
    exact hrefl
  | succ n ih =>
    unfold timerCheckLoop at hs
    split at hs
    · cases hs
      exact hrefl
    · rename_i timers t hpop
      obtain ⟨k₁, h₁, hs⟩ := Option.bind_eq_some_iff.mp hs
      have ht := timers_peerStep (p := p) h timers
      have ho := ht.trans (threadTimeout_peerStep ht.inv h₁)
      have hf := ho.trans (timers_peerStep ho.inv
        (Timer.timerCheckFinish c.timer k₁.timers .hard t))
      exact hf.trans (ih hf.inv hs
        (.of_frame hf.inv (fun _ => rfl) (fun _ => rfl) rfl rfl rfl))

theorem rtExitCritical_peerStep (h : Inv c k) (hs : rtExitCritical c k = some k') :
    PeerStep c p k k' := by
  have hk := lock_peerStep (p := p) h
  unfold rtExitCritical at hs
  dsimp only at hs
  split at hs
  · split at hs
    · cases hs
      exact hk 0
    · exact (hk 0).trans (rtSchedule_peerStep (hk 0).inv hs)
  · cases hs
    exact hk _

/-- The calls of a run in which the running threads only yield or use up their slices:
other threads may be woken meanwhile, from interrupts or by the tick. -/
def PeerOp : Op → Prop
  | .yield | .tickIncrease | .schedule | .enterCritical | .exitCritical | .sleepReturn => True
  | .resume _ | .startup _ | .timeout _ => True
  | _ => False

theorem step_peerStep {op : Op} (h : Inv c k) (hop : PeerOp op) (hs : step c k op = some k') :
    PeerStep c p k k' := by
  cases op with
  | startup t => exact rtThreadStartup_peerStep h hs
  | resume t =>
    cases hs
    exact rtThreadResume_peerStep h t
  | yield => exact rtThreadYield_peerStep h hs
  | sleepReturn =>
    obtain ⟨⟨k₁, e⟩, h₁, rfl⟩ := Option.map_eq_some_iff.mp hs
    obtain ⟨t, _, h₁⟩ := Option.bind_eq_some_iff.mp h₁
    cases h₁
    exact setThread_peerStep h rfl rfl rfl rfl rfl
  | tickIncrease =>
    obtain ⟨k₁, h₁, hs⟩ := Option.bind_eq_some_iff.mp hs
    have ht := tickSlice_peerStep (p := p) h h₁
    exact ht.trans (timerCheckLoop_peerStep _ ht.inv hs)
  | timeout t => exact threadTimeout_peerStep h hs
  | schedule => exact rtSchedule_peerStep h hs
  | enterCritical =>
    cases hs
    exact lock_peerStep h _
  | exitCritical => exact rtExitCritical_peerStep h hs
  | _ => exact absurd hop (by simp [PeerOp])

/-- Along a run of such calls the lane only takes turns. -/
theorem run_rotates {ops : List Op} (h : Inv c k) (hops : ∀ op ∈ ops, PeerOp op)
    (hrun : Runs.run (step c) k ops = some k') (hn : Runs.Always (step c) (NoHigher p) k ops)
    (hp : PeerRuns p k) : PeerRuns p k' ∧ Rotates p k k' := by
  induction ops generalizing k with
  | nil =>
    obtain rfl : k = k' := by simpa using hrun
    exact ⟨hp, .of_eq rfl rfl⟩
  | cons op ops ih =>
    obtain ⟨k₁, h₁, hr⟩ := Runs.run_cons_some.mp hrun
    have hn₁ := hn.2 k₁ h₁
    have hstep := step_peerStep (p := p) h (hops op List.mem_cons_self) h₁
    obtain ⟨hp₁, hr₁⟩ := hstep.rotates hp hn₁.head
    obtain ⟨hp₂, hr₂⟩ := ih hstep.inv (fun o ho => hops o (List.mem_cons_of_mem op ho)) hr hn₁ hp₁
    exact ⟨hp₂, hr₁.trans hr₂⟩

/-- Strict rotation of the threads that get the processor, in this order, from `k` on:
between two turns of one thread every other peer has a turn. The peers are the current
thread and the `READY` threads of its priority. -/
def StrictRotation (k : Kernel) (current : ThreadId) (turns : List ThreadId) : Prop :=
  ∀ (i j : Nat) (t : ThreadId), i < j → turns[i]? = some t → turns[j]? = some t →
    ∀ u, u = current ∨ (k.thread u).stat = .ready ∧
        (k.thread u).currentPriority = (k.thread current).currentPriority →
      u ≠ t → ∃ m, i < m ∧ m < j ∧ turns[m]? = some u

theorem Rotates.strict (h : Inv c k) (hcur : k.currentThread = some current)
    (hrun : (k.thread current).stat = .running)
    (hr : Rotates (k.thread current).currentPriority k k') :
    ∃ out, k'.switches = k.switches ++ out ∧
      StrictRotation k current (current :: out.map Prod.snd) := by
  obtain ⟨out, hs, ht⟩ := hr
  have hlane : lane (k.thread current).currentPriority k =
      current :: k.priorityTable (k.thread current).currentPriority := by
    simp [lane, hcur]
  rw [hlane] at ht
  have hnd : (current :: k.priorityTable (k.thread current).currentPriority).Nodup := by
    refine List.nodup_cons.mpr ⟨?_, h.base.queued.nodup _⟩
    rw [h.base.queued.mem, hrun]
    simp
  refine ⟨out, hs, ?_⟩
  intro i j t hij hi hj u hu hut
  refine ht.strict hnd i j t hij hi hj u ?_ hut
  rw [List.mem_cons, h.base.queued.mem]
  exact hu

/-- In every reachable state with a current thread: an unlocked `rt_schedule` decides for a
thread of minimal priority, equal priorities keep the processor or go to the back as the
`YIELD` flag says, and a run in which the peers only yield or use up their slices serves
them in strict rotation. -/
theorem schedule_decides_and_rotates (c : Config) (thread : ThreadId → Thread)
    (hinit : Initialised c thread) (timers : Timer.State) (ops : List Op)
    (hops : ∀ op ∈ ops, Permitted c op) (k : Kernel)
    (hrun : Runs.run (step c) (rtSystemSchedulerInit thread timers) ops = some k)
    (current : ThreadId) (hcur : k.currentThread = some current) :
    (k.schedulerLockNest = 0 → ∃ k', rtSchedule c k = some k' ∧ Decision k current k') ∧
    ((k.thread current).stat = .running → ∀ (peerOps : List Op) (k' : Kernel),
      (∀ op ∈ peerOps, PeerOp op) → Runs.run (step c) k peerOps = some k' →
      Runs.Always (step c) (NoHigher (k.thread current).currentPriority) k peerOps →
      ∃ out, k'.switches = k.switches ++ out ∧
        StrictRotation k current (current :: out.map Prod.snd)) := by
  have h := run_inv hinit hops hrun
  constructor
  · intro hlock
    obtain ⟨k', hs⟩ := rtSchedule_isSome h hcur
    exact ⟨k', hs, decision_of_outcome h hcur hlock hs⟩
  · intro hr peerOps k' hpeer hrun' hn
    have hp : PeerRuns (k.thread current).currentPriority k := ⟨current, hcur, hr, rfl⟩
    exact (run_rotates h hpeer hrun' hn hp).2.strict h hcur hr

/-- Threads of priority 0 with a time slice of two ticks. -/
def urgentPeers : ThreadId → Thread := fun _ => ⟨.init, false, 0, 0, 0, 0, 2, 2, .eok, true⟩

/-- Three of them take turns: one yields, one uses up its slice, and so on. -/
def turnOps : List Op := [.yield, .tickIncrease, .tickIncrease, .yield, .yield]

theorem schedule_decides_and_rotates_three :
    ∃ k k' out,
      Runs.run (step smallConfig) (rtSystemSchedulerInit urgentPeers peerTimers)
        [.startup 0, .startup 1, .startup 2, .schedulerStart] = some k ∧
      Runs.run (step smallConfig) k turnOps = some k' ∧ k'.switches = k.switches ++ out ∧
      StrictRotation k 0 (0 :: out.map Prod.snd) := by
  set start : List Op := [.startup 0, .startup 1, .startup 2, .schedulerStart]
  have heval : ((Runs.run (step smallConfig) (rtSystemSchedulerInit urgentPeers peerTimers)
      start).bind fun k => (Runs.run (step smallConfig) k turnOps).map fun _ =>
        (k.currentThread, (k.thread 0).stat, (k.thread 0).currentPriority)) =
      some (some 0, .running, 0) := by decide +kernel
  obtain ⟨k, hk, heval⟩ := Option.bind_eq_some_iff.mp heval
  obtain ⟨k', hk', heval⟩ := Option.map_eq_some_iff.mp heval
  simp only [Prod.mk.injEq] at heval
  obtain ⟨hcur, hstat, hprio⟩ := heval
  have hpermitted : ∀ op ∈ start, Permitted smallConfig op := by simp [start, Permitted]
  have hpeer : ∀ op ∈ turnOps, PeerOp op := by simp [turnOps, PeerOp]
  have hn : Runs.Always (step smallConfig) (NoHigher (k.thread 0).currentPriority) k turnOps := by
    have hany : ∀ s, NoHigher (k.thread 0).currentPriority s := by
      intro s t _
      rw [hprio]
      exact Nat.zero_le _
    exact ⟨hany _, fun _ _ => ⟨hany _, fun _ _ => ⟨hany _, fun _ _ => ⟨hany _, fun _ _ =>
      ⟨hany _, fun _ _ => hany _⟩⟩⟩⟩⟩
  obtain ⟨out, hout, hstrict⟩ := (schedule_decides_and_rotates smallConfig urgentPeers
    (fun _ => ⟨0, 2, true, rfl⟩) peerTimers start hpermitted k hk 0 hcur).2 hstat turnOps k'
    hpeer hk' hn
  exact ⟨k, k', out, hk, hk', hout, hstrict⟩

end RtThread.Rotation
