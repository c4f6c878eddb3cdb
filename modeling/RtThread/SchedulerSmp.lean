import RtThread.Rotation

/-!
# The scheduling choice with several processors

With `RT_USING_SMP` every processor has a ready queue of its own beside the global one. Both
bitmaps are searched before the two results are compared, so the group word of an empty queue is
searched as well: its first set bit is number zero, and the row before the first one is read.
-/
namespace RtThread.SchedulerSmp

open Kservice Scheduler Rotation

/-- `RT_THREAD_PRIORITY_MAX`, and the width of `rt_ubase_t`. -/
structure SmpConfig where
  priorityMax : Nat
  width : Nat
  priorityMax_le : priorityMax ≤ 256
  width_ge : 32 ≤ width

/-- `rt_thread_ready_priority_group`, `rt_thread_ready_table` and `rt_thread_priority_table`, or the
fields of `struct rt_cpu`. The table has 32 rows; other rows are the memory around it. -/
structure Queue where
  priorityGroup : BitVec 32
  readyTable : Nat → BitVec 8
  priorityTable : Nat → List ThreadId

/-- A row of a ready table, or a list of a priority table, by its index. -/
inductive Access where
  | readyTable (number : Nat)
  | localReadyTable (number : Nat)
  | priorityTable (priority : Nat)
  | localPriorityTable (priority : Nat)
  deriving DecidableEq

/-- What `_scheduler_get_highest_priority_thread` returns and stores, and what it reads. -/
structure Choice where
  highestPrio : Nat
  thread : Option ThreadId
  accesses : List Access
  deriving DecidableEq

/-- `number`. -/
def number (c : SmpConfig) (q : Queue) : Nat := wsub c.width (rtFfs q.priorityGroup) 1

/-- `highest_ready_priority`. -/
def readyPriority (c : SmpConfig) (q : Queue) : Nat :=
  if 32 < c.priorityMax then
    let row := rtFfs ((q.readyTable (number c q)).setWidth 32)
    wsub c.width (wadd c.width (number c q * 8 % 2 ^ c.width) row) 1
  else wsub c.width (rtFfs q.priorityGroup) 1

/-- `_scheduler_get_highest_priority_thread`, for the global queue and that of the processor. -/
def schedulerGetHighestPriorityThread (c : SmpConfig) (q pcpu : Queue) : Choice :=
  let highest := readyPriority c q
  let localHighest := readyPriority c pcpu
  let searches : List Access :=
    if 32 < c.priorityMax then [.readyTable (number c q), .localReadyTable (number c pcpu)] else []
  if highest < localHighest then
    ⟨highest, (q.priorityTable highest).head?, searches ++ [.priorityTable highest]⟩
  else
    ⟨localHighest, (pcpu.priorityTable localHighest).head?,
      searches ++ [.localPriorityTable localHighest]⟩

/-! ## The choice -/

/-- The bitmaps name exactly the priorities whose list is not empty, for more than 32 of them. -/
structure Bitmaps (c : SmpConfig) (q : Queue) : Prop where
  lists : ∀ p < 256, ((q.readyTable (p / 8)).getLsbD (p % 8) = true ↔ q.priorityTable p ≠ [])
  rows : ∀ n < 32, (q.priorityGroup.getLsbD n = true ↔ q.readyTable n ≠ 0)
  lt : ∀ p, q.priorityTable p ≠ [] → p < c.priorityMax

def Access.InRange (c : SmpConfig) : Access → Prop
  | .readyTable number | .localReadyTable number => number < 32
  | .priorityTable priority | .localPriorityTable priority => priority < c.priorityMax

/-- The smallest ready priority of a queue that is not empty. -/
structure Least (q : Queue) (p : Nat) : Prop where
  ready : q.priorityTable p ≠ []
  least : ∀ p', q.priorityTable p' ≠ [] → p ≤ p'

/-- The thread is the head of the list of the smallest ready priority of both queues. -/
structure Chosen (q pcpu : Queue) (r : Choice) : Prop where
  head : ∃ t, r.thread = some t ∧ ((q.priorityTable r.highestPrio).head? = some t ∨
    (pcpu.priorityTable r.highestPrio).head? = some t)
  least : ∀ p, q.priorityTable p ≠ [] ∨ pcpu.priorityTable p ≠ [] → r.highestPrio ≤ p

variable {c : SmpConfig} {q pcpu : Queue}

theorem two_pow_width (c : SmpConfig) : 2 ^ 32 ≤ 2 ^ c.width :=
  Nat.pow_le_pow_right (by decide) c.width_ge

/-- A queue that is not empty: the search stays in the table and finds its smallest priority. -/
theorem Bitmaps.search (h : Bitmaps c q) (hmax : 32 < c.priorityMax) (hg : q.priorityGroup ≠ 0) :
    number c q < 32 ∧ readyPriority c q < c.priorityMax ∧ Least q (readyPriority c q) := by
  have hle := c.priorityMax_le
  have hword := two_pow_width c
  obtain ⟨i, j, hi, hj, hffs, hrow, hne, hleast⟩ := two_level_search h.lists h.rows
    (fun p hp => Nat.lt_of_lt_of_le (h.lt p hp) hle) hg
  have hnumber : number c q = i := by
    rw [number, hffs, wsub_eq (by omega) (by omega), Nat.add_sub_cancel]
  have hpriority : readyPriority c q = i * 8 + j := by
    rw [readyPriority, if_pos hmax]
    dsimp only
    rw [hnumber, hrow, Nat.mod_eq_of_lt (by omega), wadd_eq (by omega),
      wsub_eq (by omega) (by omega)]
    omega
  rw [hnumber, hpriority]
  exact ⟨hi, h.lt _ hne, hne, hleast⟩

theorem rtFfs_byte_le (row : BitVec 8) : rtFfs (row.setWidth 32) ≤ 8 := by
  by_cases hzero : row.setWidth 32 = 0
  · rw [hzero]
    decide
  · obtain ⟨i, hffs, hlow⟩ := rtFfs_lowest _ hzero
    have hset := hlow.set
    rw [BitVec.getLsbD_setWidth, Bool.and_eq_true] at hset
    have hlt : i < 8 := BitVec.lt_of_getLsbD hset.2
    omega

/-- An empty queue: the row before the first one is read, and whatever it holds, the result is
above every priority. -/
theorem search_empty (c : SmpConfig) (hmax : 32 < c.priorityMax) (hg : q.priorityGroup = 0) :
    ¬ number c q < 32 ∧ 256 ≤ readyPriority c q := by
  have hword := two_pow_width c
  have hffs : rtFfs q.priorityGroup = 0 := by
    rw [hg]
    decide
  have hnumber : number c q = 2 ^ c.width - 1 := by
    rw [number, hffs, wsub, Nat.zero_add]
    exact Nat.mod_eq_of_lt (by omega)
  have hrow := rtFfs_byte_le (q.readyTable (number c q))
  have hshift : number c q * 8 % 2 ^ c.width = 2 ^ c.width - 8 := by
    rw [hnumber, show (2 ^ c.width - 1) * 8 = 2 ^ c.width - 8 + 2 ^ c.width * 7 by omega,
      Nat.add_mul_mod_self_left]
    exact Nat.mod_eq_of_lt (by omega)
  rw [readyPriority, if_pos hmax]
  dsimp only
  rw [hshift]
  generalize rtFfs ((q.readyTable (number c q)).setWidth 32) = row at hrow
  refine ⟨by omega, ?_⟩
  by_cases hfull : row = 8
  · rw [hfull, wadd, Nat.sub_add_cancel (by omega), Nat.mod_self, wsub, Nat.zero_add,
      Nat.mod_eq_of_lt (by omega)]
    omega
  · rw [wadd_eq (by omega), wsub_eq (by omega) (by omega)]
    omega

/-- No list of an empty queue holds a thread. -/
theorem Bitmaps.group_ne_zero (h : Bitmaps c q) {p : Nat} (hp : q.priorityTable p ≠ []) :
    q.priorityGroup ≠ 0 := by
  have hle := c.priorityMax_le
  have hlt := h.lt p hp
  have hset := (h.lists p (by omega)).mpr hp
  have hrow : q.readyTable (p / 8) ≠ 0 :=
    (BitSets.ne_zero_iff _).mpr ⟨p % 8, Nat.mod_lt _ (by decide), hset⟩
  exact (BitSets.ne_zero_iff _).mpr ⟨p / 8, by omega, (h.rows _ (by omega)).mpr hrow⟩

/-- A result that is no larger than that of the other queue is the smallest ready priority, as
soon as one of the queues is not empty. -/
theorem Bitmaps.least_of_le (hmax : 32 < c.priorityMax) (hq : Bitmaps c q)
    (hpcpu : Bitmaps c pcpu) (hready : q.priorityGroup ≠ 0 ∨ pcpu.priorityGroup ≠ 0)
    (hle : readyPriority c q ≤ readyPriority c pcpu) :
    Least q (readyPriority c q) ∧
      ∀ p, q.priorityTable p ≠ [] ∨ pcpu.priorityTable p ≠ [] → readyPriority c q ≤ p := by
  have hbound := c.priorityMax_le
  have hgroup : q.priorityGroup ≠ 0 := by
    intro hzero
    have hlarge := (search_empty c hmax hzero).2
    have hother := (hpcpu.search hmax (hready.resolve_left fun hne => hne hzero)).2.1
    omega
  have hleast := (hq.search hmax hgroup).2.2
  refine ⟨hleast, fun p hp => ?_⟩
  obtain hp | hp := hp
  · exact hleast.least p hp
  · have hother := (hpcpu.search hmax (hpcpu.group_ne_zero hp)).2.2.least p hp
    omega

/-- The choice is right whether one of the queues is empty or none is. -/
theorem chosen_thread (hmax : 32 < c.priorityMax) (hq : Bitmaps c q) (hpcpu : Bitmaps c pcpu)
    (hready : q.priorityGroup ≠ 0 ∨ pcpu.priorityGroup ≠ 0) :
    Chosen q pcpu (schedulerGetHighestPriorityThread c q pcpu) := by
  unfold schedulerGetHighestPriorityThread
  dsimp only
  split
  case isTrue hlt =>
    obtain ⟨hleast, hall⟩ := hq.least_of_le hmax hpcpu hready (Nat.le_of_lt hlt)
    have hhead := List.head?_eq_some_head hleast.ready
    exact ⟨⟨_, hhead, .inl hhead⟩, hall⟩
  case isFalse hge =>
    obtain ⟨hleast, hall⟩ := hpcpu.least_of_le hmax hq hready.symm (Nat.le_of_not_lt hge)
    have hhead := List.head?_eq_some_head hleast.ready
    exact ⟨⟨_, hhead, .inr hhead⟩, fun p hp => hall p hp.symm⟩

theorem Chosen.lt {r : Choice} (h : Chosen q pcpu r) (hq : Bitmaps c q) (hpcpu : Bitmaps c pcpu) :
    r.highestPrio < c.priorityMax := by
  obtain ⟨t, -, hhead | hhead⟩ := h.head
  · refine hq.lt _ fun hnil => ?_
    rw [hnil] at hhead
    cases hhead
  · refine hpcpu.lt _ fun hnil => ?_
    rw [hnil] at hhead
    cases hhead

/-- The rows of the two searches, and the list of the priority that is stored. -/
theorem mem_accesses (hmax : 32 < c.priorityMax) {a : Access} :
    a ∈ (schedulerGetHighestPriorityThread c q pcpu).accesses →
      a = .readyTable (number c q) ∨ a = .localReadyTable (number c pcpu) ∨
        a = .priorityTable (schedulerGetHighestPriorityThread c q pcpu).highestPrio ∨
          a = .localPriorityTable (schedulerGetHighestPriorityThread c q pcpu).highestPrio := by
  unfold schedulerGetHighestPriorityThread
  dsimp only
  split
  case isTrue =>
    intro ha
    simp only [List.cons_append, List.nil_append, List.mem_cons, List.not_mem_nil, or_false] at ha
    obtain ha | ha | ha := ha
    · exact .inl ha
    · exact .inr (.inl ha)
    · exact .inr (.inr (.inl ha))
  case isFalse =>
    intro ha
    simp only [List.cons_append, List.nil_append, List.mem_cons, List.not_mem_nil, or_false] at ha
    obtain ha | ha | ha := ha
    · exact .inl ha
    · exact .inr (.inl ha)
    · exact .inr (.inr (.inr ha))

theorem searches_mem (hmax : 32 < c.priorityMax) :
    .readyTable (number c q) ∈ (schedulerGetHighestPriorityThread c q pcpu).accesses ∧
      .localReadyTable (number c pcpu) ∈
        (schedulerGetHighestPriorityThread c q pcpu).accesses := by
  unfold schedulerGetHighestPriorityThread
  dsimp only
  split
  case isTrue => simp
  case isFalse => simp

/-- For more than 32 priorities and ready bitmaps of which one is not empty, the thread is the head
of the list of the smallest ready priority, and every access is in range if and only if none of the
two queues is empty. -/
theorem smp_choice (hmax : 32 < c.priorityMax) (hq : Bitmaps c q) (hpcpu : Bitmaps c pcpu)
    (hready : q.priorityGroup ≠ 0 ∨ pcpu.priorityGroup ≠ 0) :
    Chosen q pcpu (schedulerGetHighestPriorityThread c q pcpu) ∧
      ((∀ a ∈ (schedulerGetHighestPriorityThread c q pcpu).accesses, a.InRange c) ↔
        q.priorityGroup ≠ 0 ∧ pcpu.priorityGroup ≠ 0) := by
  have hchosen := chosen_thread hmax hq hpcpu hready
  refine ⟨hchosen, fun hall => ?_, fun ⟨hg, hlocal⟩ a ha => ?_⟩
  · obtain ⟨h₁, h₂⟩ := @searches_mem _ q pcpu hmax
    have hglobal : number c q < 32 := hall _ h₁
    have hlocal : number c pcpu < 32 := hall _ h₂
    exact ⟨fun hzero => (search_empty c hmax hzero).1 hglobal,
      fun hzero => (search_empty c hmax hzero).1 hlocal⟩
  · obtain rfl | rfl | rfl | rfl := mem_accesses hmax ha
    · exact (hq.search hmax hg).1
    · exact (hpcpu.search hmax hlocal).1
    · exact hchosen.lt hq hpcpu
    · exact hchosen.lt hq hpcpu

/-- 64 priorities on a 32-bit machine. -/
def config64 : SmpConfig := ⟨64, 32, by decide, by decide⟩

/-- One thread in the list of one priority. -/
def oneReady (t : ThreadId) (p : Nat) : Queue where
  priorityGroup := 1#32 <<< (p / 8)
  readyTable := fun n => if n = p / 8 then 1#8 <<< (p % 8) else 0
  priorityTable := fun p' => if p' = p then [t] else []

/-- No thread, and clear memory around the table. -/
def noneReady : Queue := ⟨0, fun _ => 0, fun _ => []⟩

theorem bitmaps_oneReady (t : ThreadId) {p : Nat} (hp : p < c.priorityMax) :
    Bitmaps c (oneReady t p) := by
  have hle := c.priorityMax_le
  constructor
  · intro p' hp'
    unfold oneReady
    dsimp only
    by_cases hrow : p' / 8 = p / 8
    · rw [if_pos hrow, BitSets.getLsbD_single (Nat.mod_lt _ (by decide)), decide_eq_true_eq]
      by_cases heq : p' = p
      · simp [heq]
      · have hbit : p' % 8 ≠ p % 8 := by omega
        simp [heq, hbit]
    · have hne : p' ≠ p := fun heq => hrow (by rw [heq])
      simp [hrow, hne]
  · intro n hn
    unfold oneReady
    dsimp only
    rw [BitSets.getLsbD_single (by omega), decide_eq_true_eq]
    by_cases hrow : n = p / 8
    · rw [if_pos hrow]
      refine iff_of_true hrow ((BitSets.ne_zero_iff _).mpr ⟨p % 8, Nat.mod_lt _ (by decide), ?_⟩)
      rw [BitSets.getLsbD_single (Nat.mod_lt _ (by decide)), decide_eq_true_eq]
    · simp [hrow]
  · intro p' hp'
    unfold oneReady at hp'
    by_cases heq : p' = p
    · rw [heq]
      exact hp
    · simp [heq] at hp'

theorem bitmaps_noneReady (c : SmpConfig) : Bitmaps c noneReady := by
  constructor
  · intro p _
    simp [noneReady]
  · intro n _
    simp [noneReady]
  · intro p hp
    simp [noneReady] at hp

/-- A global thread of priority 9 before a local one of priority 20. -/
theorem smp_choice_two :
    Chosen (oneReady 1 9) (oneReady 2 20)
      (schedulerGetHighestPriorityThread config64 (oneReady 1 9) (oneReady 2 20)) ∧
        ∀ a ∈ (schedulerGetHighestPriorityThread config64 (oneReady 1 9) (oneReady 2 20)).accesses,
          a.InRange config64 := by
  have hglobal : Bitmaps config64 (oneReady 1 9) := bitmaps_oneReady 1 (by decide)
  have hlocal : Bitmaps config64 (oneReady 2 20) := bitmaps_oneReady 2 (by decide)
  obtain ⟨hchosen, hrange⟩ := smp_choice (by decide) hglobal hlocal (.inl (by decide))
  exact ⟨hchosen, hrange.mpr ⟨by decide, by decide⟩⟩

/-- No thread is bound to the processor: the row before the first one of its table is read. -/
theorem smp_choice_not_in_range :
    Bitmaps config64 (oneReady 1 9) ∧ Bitmaps config64 noneReady ∧
      (oneReady 1 9).priorityGroup ≠ 0 ∧
        ¬ ∀ a ∈ (schedulerGetHighestPriorityThread config64 (oneReady 1 9) noneReady).accesses,
          a.InRange config64 := by
  refine ⟨bitmaps_oneReady 1 (by decide), bitmaps_noneReady config64, by decide, fun hall => ?_⟩
  have hmem : Access.localReadyTable 0xffffffff ∈
      (schedulerGetHighestPriorityThread config64 (oneReady 1 9) noneReady).accesses := by
    decide +kernel
  have hlt : 0xffffffff < 32 := hall _ hmem
  omega

end RtThread.SchedulerSmp
