import RtThread.Lib.BitSets
import RtThread.Thread

/-!
# The ready-queue representation invariant

`Queued c k S` says that the ready lists hold exactly the threads of `S`, each
once and at its current priority, and that the bitmaps agree with the lists. The
two primitive operations change `S` by one thread; everything else the kernel
does either leaves the queue alone or is built from the two. The invariant of
the kernel is `Queued` for the threads in the `READY` state.
-/
namespace RtThread.ReadyQueue

open Function (update_of_ne update_self)
open Scheduler Thread

/-- The bitmaps name exactly the priorities whose list is not empty. -/
def Bits (c : Config) (k : Kernel) : Prop :=
  if 32 < c.priorityMax then
    (∀ p < 256, ((k.readyTable (p / 8)).getLsbD (p % 8) = true ↔ k.priorityTable p ≠ [])) ∧
      ∀ n < 32, (k.readyPriorityGroup.getLsbD n = true ↔ k.readyTable n ≠ 0)
  else ∀ p < 32, (k.readyPriorityGroup.getLsbD p = true ↔ k.priorityTable p ≠ [])

structure Queued (c : Config) (k : Kernel) (S : ThreadId → Prop) : Prop where
  mem : ∀ p t, t ∈ k.priorityTable p ↔ S t ∧ (k.thread t).currentPriority = p
  nodup : ∀ p, (k.priorityTable p).Nodup
  lt : ∀ t, (k.thread t).currentPriority < c.priorityMax
  bits : Bits c k

/-- The stored attributes are those of the current priority. -/
def Attributed (c : Config) (x : Thread) : Prop :=
  if 32 < c.priorityMax then
    x.number = x.currentPriority / 8 ∧ x.numberMask = 1#32 <<< (x.currentPriority / 8) ∧
      x.highMask = 1#8 <<< (x.currentPriority % 8)
  else x.numberMask = 1#32 <<< x.currentPriority

/-- Started and not closed: a thread closed before its start never got its attributes. -/
def Live (x : Thread) : Prop := x.stat ≠ .init ∧ x.stat ≠ .close

/-- The queue holds the `READY` threads, and live threads carry their attributes. -/
structure Base (c : Config) (k : Kernel) : Prop where
  queued : Queued c k (fun t => (k.thread t).stat = .ready)
  attributed : ∀ t, Live (k.thread t) → Attributed c (k.thread t)

/-- The same for every thread but `t`, which is in no ready list. -/
structure BaseExcept (c : Config) (k : Kernel) (t : ThreadId) : Prop where
  queued : Queued c k (fun u => (k.thread u).stat = .ready ∧ u ≠ t)
  attributed : ∀ u, u ≠ t → Live (k.thread u) → Attributed c (k.thread u)

/-- A thread that may be current: it has been started and is not queued. -/
structure MayRun (c : Config) (x : Thread) : Prop where
  not_ready : x.stat ≠ .ready
  not_init : x.stat ≠ .init
  attributed : Attributed c x

structure Inv (c : Config) (k : Kernel) : Prop where
  base : Base c k
  current : ∀ t, k.currentThread = some t → MayRun c (k.thread t)

/-! ## Fields that the primitive operations leave alone -/

@[simp] theorem setThread_same (k : Kernel) (t : ThreadId) (x : Thread) :
    (setThread k t x).thread t = x := by simp [setThread]
theorem setThread_other (k : Kernel) (t u : ThreadId) (x : Thread) (h : u ≠ t) :
    (setThread k t x).thread u = k.thread u := by simp [setThread, h]
@[simp] theorem setThread_priorityTable (k : Kernel) (t : ThreadId) (x : Thread) :
    (setThread k t x).priorityTable = k.priorityTable := rfl
@[simp] theorem setThread_currentThread (k : Kernel) (t : ThreadId) (x : Thread) :
    (setThread k t x).currentThread = k.currentThread := rfl

section

variable (c : Config) (k : Kernel) (t : ThreadId)

/-- Removal changes the lists and the two bitmaps, nothing else. -/
theorem remove_frame : ∃ table group, rtScheduleRemoveThread c k t =
      { rtListRemove k t with readyTable := table, readyPriorityGroup := group } := by
  unfold rtScheduleRemoveThread clearMasks
  dsimp only
  split
  · split
    · exact ⟨_, _, rfl⟩
    · exact ⟨_, _, rfl⟩
  · exact ⟨_, _, rfl⟩

@[simp] theorem remove_thread :
    (rtScheduleRemoveThread c k t).thread = k.thread := by
  obtain ⟨table, group, h⟩ := remove_frame c k t
  rw [h]
  rfl

@[simp] theorem remove_currentThread :
    (rtScheduleRemoveThread c k t).currentThread = k.currentThread := by
  obtain ⟨table, group, h⟩ := remove_frame c k t
  rw [h]
  rfl

@[simp] theorem remove_priorityTable :
    (rtScheduleRemoveThread c k t).priorityTable =
      fun p => (k.priorityTable p).filter (· ≠ t) := by
  obtain ⟨table, group, h⟩ := remove_frame c k t
  rw [h]
  rfl

@[simp] theorem link_thread :
    (link c k t).thread = k.thread := rfl
@[simp] theorem link_currentThread :
    (link c k t).currentThread = k.currentThread := rfl

end

variable {c : Config} {k k' : Kernel} {S : ThreadId → Prop} {t : ThreadId} {x : Thread} {p : Nat}

/-- `Queued` reads the priorities, the lists and the bitmaps only. -/
theorem Queued.congr (h : Queued c k S)
    (hp : ∀ t, (k'.thread t).currentPriority = (k.thread t).currentPriority)
    (ht : k'.priorityTable = k.priorityTable) (hr : k'.readyTable = k.readyTable)
    (hg : k'.readyPriorityGroup = k.readyPriorityGroup) : Queued c k' S := by
  constructor
  · intro p t
    rw [ht, hp]
    exact h.mem p t
  · intro p
    rw [ht]
    exact h.nodup p
  · intro t
    rw [hp]
    exact h.lt t
  · simpa only [Bits, ht, hr, hg] using h.bits

theorem Queued.setThread_same_priority (h : Queued c k S) (t : ThreadId) (x : Thread)
    (hx : x.currentPriority = (k.thread t).currentPriority) : Queued c (setThread k t x) S := by
  refine h.congr ?_ rfl rfl rfl
  intro u
  by_cases hu : u = t
  · subst hu; simp [hx]
  · rw [setThread_other _ _ _ _ hu]

/-- The priority of a thread outside the queue may change freely. -/
theorem Queued.setThread_unlinked (h : Queued c k S) (t : ThreadId) (x : Thread) (ht : ¬ S t)
    (hx : x.currentPriority < c.priorityMax) : Queued c (setThread k t x) S := by
  constructor
  · intro p u
    by_cases hu : u = t
    · subst hu
      simp [h.mem, ht]
    · rw [setThread_other _ _ _ _ hu]
      exact h.mem p u
  · exact h.nodup
  · intro u
    by_cases hu : u = t
    · subst hu; simpa using hx
    · rw [setThread_other _ _ _ _ hu]
      exact h.lt u
  · exact h.bits

theorem Queued.iff {T : ThreadId → Prop} (h : Queued c k S) (hST : ∀ t, S t ↔ T t) :
    Queued c k T := by
  have : S = T := funext fun t => propext (hST t)
  exact this ▸ h

/-- Taking a node out of the lists changes nothing for a thread that is not queued. -/
theorem Queued.filter_eq (h : Queued c k S) (ht : ¬ S t) (p : Nat) :
    (k.priorityTable p).filter (· ≠ t) = k.priorityTable p := by
  rw [List.filter_eq_self]
  intro u hu
  have : S u := ((h.mem p u).mp hu).1
  simp only [ne_eq, decide_not, Bool.not_eq_eq_eq_not, Bool.not_true, decide_eq_false_iff_not]
  rintro rfl
  exact ht this

theorem Queued.rtListRemove (h : Queued c k S) (ht : ¬ S t) : Queued c (rtListRemove k t) S := by
  refine h.congr (fun _ => rfl) ?_ rfl rfl
  funext p
  exact h.filter_eq ht p

/-! ## The two primitive operations -/

theorem attributed_small (h : Attributed c x) (hc : ¬ 32 < c.priorityMax) :
    x.numberMask = 1#32 <<< x.currentPriority := by
  simpa only [Attributed, hc, ↓reduceIte] using h

theorem attributed_large (h : Attributed c x) (hc : 32 < c.priorityMax) :
    x.number = x.currentPriority / 8 ∧ x.numberMask = 1#32 <<< (x.currentPriority / 8) ∧
      x.highMask = 1#8 <<< (x.currentPriority % 8) := by
  simpa only [Attributed, hc, ↓reduceIte] using h

@[simp] theorem priorityAttribute_currentPriority (c : Config) (x : Thread) :
    (priorityAttribute c x).currentPriority = x.currentPriority := by
  unfold priorityAttribute
  split <;> rfl

@[simp] theorem priorityAttribute_stat (c : Config) (x : Thread) :
    (priorityAttribute c x).stat = x.stat := by
  unfold priorityAttribute
  split <;> rfl

theorem attributed_priorityAttribute (c : Config) (x : Thread) :
    Attributed c (priorityAttribute c x) := by
  unfold Attributed priorityAttribute
  split
  · exact ⟨rfl, rfl, rfl⟩
  · rfl

theorem Attributed.of_fields {y : Thread} (h : Attributed c x)
    (hp : y.currentPriority = x.currentPriority) (hn : y.number = x.number)
    (hm : y.numberMask = x.numberMask) (hh : y.highMask = x.highMask) : Attributed c y := by
  simpa only [Attributed, hp, hn, hm, hh] using h

/-- Linking a thread sets the bits of its priority. -/
theorem bits_link (h : Bits c k) (hlt : (k.thread t).currentPriority < c.priorityMax)
    (hx : Attributed c (k.thread t)) : Bits c (link c k t) := by
  have hmax := c.priorityMax_le
  by_cases hc : 32 < c.priorityMax
  · obtain ⟨hn, hm, hh⟩ := attributed_large hx hc
    simp only [Bits, hc, ↓reduceIte] at h ⊢
    simp only [link, hc, ↓reduceIte, hn, hm, hh]
    set q := (k.thread t).currentPriority
    constructor
    · intro p hp
      by_cases hrow : p / 8 = q / 8
      · rw [hrow, update_self, BitSets.getLsbD_set _ (by omega)]
        by_cases hpq : p = q
        · subst hpq; simp
        · have hmod : p % 8 ≠ q % 8 := by omega
          rw [update_of_ne hpq, ← h.1 p hp, hrow]
          simp [hmod]
      · have hpq : p ≠ q := by rintro rfl; exact hrow rfl
        rw [update_of_ne hrow, update_of_ne hpq]
        exact h.1 p hp
    · intro n hn
      rw [BitSets.getLsbD_set _ (by omega)]
      by_cases hnq : n = q / 8
      · subst hnq
        have hne : k.readyTable (q / 8) ||| 1#8 <<< (q % 8) ≠ 0 := by
          rw [BitSets.ne_zero_iff]
          exact ⟨q % 8, by omega, by rw [BitSets.getLsbD_set _ (by omega)]; simp⟩
        simpa using hne
      · rw [update_of_ne hnq, ← h.2 n hn]
        simp [hnq]
  · have hm := attributed_small hx hc
    simp only [Bits, hc, ↓reduceIte] at h ⊢
    simp only [link, hm]
    intro p hp
    rw [BitSets.getLsbD_set _ (by omega)]
    by_cases hpq : p = (k.thread t).currentPriority
    · subst hpq; simp
    · rw [update_of_ne hpq, ← h p hp]
      simp [hpq]

theorem Queued.link (h : Queued c k S) (ht : ¬ S t) (hx : Attributed c (k.thread t)) :
    Queued c (link c k t) (fun u => S u ∨ u = t) := by
  constructor
  · intro p u
    simp only [Scheduler.link]
    by_cases hp : p = (k.thread t).currentPriority
    · subst hp
      rw [update_self, List.mem_append, h.mem, List.mem_singleton]
      constructor
      · rintro (⟨hs, hu⟩ | rfl)
        · exact ⟨.inl hs, hu⟩
        · exact ⟨.inr rfl, rfl⟩
      · rintro ⟨hs | rfl, hu⟩
        · exact .inl ⟨hs, hu⟩
        · exact .inr rfl
    · rw [update_of_ne hp, h.mem]
      constructor
      · rintro ⟨hs, hu⟩
        exact ⟨.inl hs, hu⟩
      · rintro ⟨hs | rfl, hu⟩
        · exact ⟨hs, hu⟩
        · exact absurd hu.symm hp
  · intro p
    simp only [Scheduler.link]
    by_cases hp : p = (k.thread t).currentPriority
    · subst hp
      rw [update_self, List.nodup_append]
      refine ⟨h.nodup _, List.nodup_singleton t, ?_⟩
      rintro u hu v hv rfl
      obtain rfl := List.mem_singleton.mp hv
      exact ht ((h.mem _ _).mp hu).1
    · rw [update_of_ne hp]
      exact h.nodup p
  · exact h.lt
  · exact bits_link h.bits (h.lt t) hx

/-- The lists of the other priorities do not hold the thread. -/
theorem Queued.filter_other (h : Queued c k S) (t : ThreadId)
    (hp : p ≠ (k.thread t).currentPriority) :
    (k.priorityTable p).filter (· ≠ t) = k.priorityTable p := by
  rw [List.filter_eq_self]
  intro u hu
  have hu' := ((h.mem p u).mp hu).2
  simp only [ne_eq, decide_not, Bool.not_eq_eq_eq_not, Bool.not_true, decide_eq_false_iff_not]
  rintro rfl
  exact hp hu'.symm

/-- Removing a thread clears the bits of its priority exactly when its list becomes empty. -/
theorem bits_remove (h : Queued c k S) (hx : Attributed c (k.thread t)) :
    Bits c (rtScheduleRemoveThread c k t) := by
  have hmax := c.priorityMax_le
  have hlt := h.lt t
  have hother := fun p => h.filter_other t (p := p)
  have hbits := h.bits
  by_cases hempty : (k.priorityTable (k.thread t).currentPriority).filter (· ≠ t) = []
  · have he : rtScheduleRemoveThread c k t = clearMasks c (rtListRemove k t) (k.thread t) :=
      if_pos hempty
    rw [he]
    simp only [clearMasks, rtListRemove]
    generalize hq : (k.thread t).currentPriority = q at hlt hother hempty
    by_cases hc : 32 < c.priorityMax
    · obtain ⟨hn, hm, hh⟩ := attributed_large hx hc
      rw [hq] at hn hm hh
      simp only [Bits, hc, ↓reduceIte] at hbits ⊢
      simp only [hn, hm, hh]
      constructor
      · intro p hp
        by_cases hpq : p = q
        · subst hpq
          rw [update_self, BitSets.getLsbD_clear _ (by omega) (by omega), hempty]
          simp
        · rw [hother p hpq]
          by_cases hrow : p / 8 = q / 8
          · have hmod : p % 8 ≠ q % 8 := by omega
            rw [hrow, update_self, BitSets.getLsbD_clear _ (by omega) (by omega),
              ← hbits.1 p hp, hrow]
            simp [hmod]
          · rw [update_of_ne hrow]
            exact hbits.1 p hp
      · intro n hn
        by_cases hnq : n = q / 8
        · subst hnq
          rw [update_self]
          by_cases hrow : k.readyTable (q / 8) &&& ~~~(1#8 <<< (q % 8)) = 0
          · rw [if_pos hrow, BitSets.getLsbD_clear _ (by omega) (by omega)]
            simp [hrow]
          · rw [if_neg hrow, hbits.2 _ hn]
            refine ⟨fun _ => hrow, fun _ hz => hrow ?_⟩
            rw [hz]
            simp
        · rw [update_of_ne hnq, ← hbits.2 n hn]
          split
          · rw [BitSets.getLsbD_clear _ (by omega) (by omega)]
            simp [hnq]
          · rfl
    · have hm := attributed_small hx hc
      rw [hq] at hm
      simp only [Bits, hc, ↓reduceIte] at hbits ⊢
      intro p hp
      rw [hm, BitSets.getLsbD_clear _ (by omega) (by omega)]
      by_cases hpq : p = q
      · subst hpq
        rw [hempty]
        simp
      · rw [hother p hpq, ← hbits p hp]
        simp [hpq]
  · have he : rtScheduleRemoveThread c k t = rtListRemove k t := if_neg hempty
    rw [he]
    have hiff : ∀ p, (k.priorityTable p).filter (· ≠ t) ≠ [] ↔ k.priorityTable p ≠ [] := by
      intro p
      by_cases hpq : p = (k.thread t).currentPriority
      · subst hpq
        refine ⟨fun _ hz => hempty ?_, fun _ => hempty⟩
        rw [hz]
        rfl
      · rw [hother p hpq]
    by_cases hc : 32 < c.priorityMax
    · simp only [Bits, hc, ↓reduceIte] at hbits ⊢
      exact ⟨fun p hp => (hbits.1 p hp).trans (hiff p).symm, hbits.2⟩
    · simp only [Bits, hc, ↓reduceIte] at hbits ⊢
      exact fun p hp => (hbits p hp).trans (hiff p).symm

theorem Queued.remove (h : Queued c k S) (hx : Attributed c (k.thread t)) :
    Queued c (rtScheduleRemoveThread c k t) (fun u => S u ∧ u ≠ t) := by
  constructor
  · intro p u
    rw [remove_priorityTable, remove_thread, List.mem_filter, h.mem]
    simp only [ne_eq, decide_not, Bool.not_eq_eq_eq_not, Bool.not_true, decide_eq_false_iff_not]
    tauto
  · intro p
    rw [remove_priorityTable]
    exact (h.nodup p).filter _
  · rw [remove_thread]
    exact h.lt
  · exact bits_remove h hx

/-! ## One thread out of the queue and back -/

theorem Base.remove (h : Base c k) (hx : Attributed c (k.thread t)) :
    BaseExcept c (rtScheduleRemoveThread c k t) t := by
  constructor
  · simpa using h.queued.remove hx
  · intro u _ hu
    rw [remove_thread] at hu ⊢
    exact h.attributed u hu

theorem Base.except (h : Base c k) (ht : (k.thread t).stat ≠ .ready) : BaseExcept c k t := by
  constructor
  · refine h.queued.iff (fun u => ⟨fun hu => ⟨hu, ?_⟩, And.left⟩)
    rintro rfl
    exact ht hu
  · exact fun u _ => h.attributed u

theorem BaseExcept.setThread (h : BaseExcept c k t) (hx : x.currentPriority < c.priorityMax) :
    BaseExcept c (setThread k t x) t := by
  constructor
  · refine (h.queued.setThread_unlinked t x (by simp) hx).iff (fun u => ?_)
    by_cases hu : u = t
    · simp [hu]
    · rw [setThread_other _ _ _ _ hu]
  · intro u hu
    rw [setThread_other _ _ _ _ hu]
    exact h.attributed u hu

theorem BaseExcept.rtListRemove (h : BaseExcept c k t) : BaseExcept c (rtListRemove k t) t :=
  ⟨h.queued.rtListRemove (by simp), h.attributed⟩

theorem BaseExcept.settle (h : BaseExcept c k t) (hr : (k.thread t).stat ≠ .ready)
    (hx : Live (k.thread t) → Attributed c (k.thread t)) : Base c k := by
  constructor
  · refine h.queued.iff (fun u => ⟨And.left, fun hu => ⟨hu, ?_⟩⟩)
    rintro rfl
    exact hr hu
  · intro u hu
    by_cases hut : u = t
    · subst hut
      exact hx hu
    · exact h.attributed u hut hu

theorem BaseExcept.link (h : BaseExcept c k t) (hr : (k.thread t).stat = .ready)
    (hx : Attributed c (k.thread t)) : Base c (link c k t) := by
  constructor
  · refine (h.queued.link (by simp) hx).iff (fun u => ?_)
    constructor
    · rintro (hu | rfl)
      · exact hu.1
      · exact hr
    · intro hu
      by_cases hut : u = t
      · exact .inr hut
      · exact .inl ⟨hu, hut⟩
  · intro u hu
    by_cases hut : u = t
    · subst hut
      exact hx
    · exact h.attributed u hut hu

/-- Inserting an unqueued thread; the current thread becomes `RUNNING` instead. -/
theorem BaseExcept.insert (h : BaseExcept c k t) (hx : Attributed c (k.thread t)) :
    Base c (rtScheduleInsertThread c k t) := by
  have hlt := h.queued.lt t
  have hset : ∀ stat, BaseExcept c (setStat k t stat) t := fun stat => h.setThread hlt
  have hx' : ∀ stat, Attributed c ((setStat k t stat).thread t) := by
    intro stat
    rw [setStat, setThread_same]
    exact hx.of_fields rfl rfl rfl rfl
  unfold rtScheduleInsertThread
  split
  · exact (hset _).settle (by simp [setStat]) (fun _ => hx' _)
  · exact (hset _).link (by simp [setStat]) (hx' _)

theorem Base.congr (h : Base c k) (ht : k'.thread = k.thread)
    (hl : k'.priorityTable = k.priorityTable) (hr : k'.readyTable = k.readyTable)
    (hg : k'.readyPriorityGroup = k.readyPriorityGroup) : Base c k' := by
  constructor
  · rw [ht]
    exact h.queued.congr (fun t => by rw [ht]) hl hr hg
  · rw [ht]
    exact h.attributed

/-- A field update that keeps the state and the priority keeps the queue. -/
theorem Base.setThread (h : Base c k) (hs : x.stat = (k.thread t).stat)
    (hp : x.currentPriority = (k.thread t).currentPriority) (hn : x.number = (k.thread t).number)
    (hm : x.numberMask = (k.thread t).numberMask) (hh : x.highMask = (k.thread t).highMask) :
    Base c (setThread k t x) := by
  constructor
  · refine (h.queued.setThread_same_priority t x hp).iff (fun u => ?_)
    by_cases hu : u = t
    · subst hu; simp [hs]
    · rw [setThread_other _ _ _ _ hu]
  · intro u
    by_cases hu : u = t
    · subst hu
      rw [setThread_same]
      intro hi
      have hi' : Live (k.thread u) := by simpa only [Live, hs] using hi
      exact (h.attributed u hi').of_fields hp hn hm hh
    · rw [setThread_other _ _ _ _ hu]
      exact h.attributed u

/-! ## What one scheduling can do -/

/-- The running thread keeps the processor against the best ready priority. -/
def Keeps (x : Thread) (highest : Nat) : Prop :=
  x.stat = .running ∧
    (x.currentPriority < highest ∨ x.currentPriority = highest ∧ x.yieldFlag = false)

theorem head_queued (h : Inv c k) (ht : (k.priorityTable p).head? = some t) :
    (k.thread t).stat = .ready ∧ (k.thread t).currentPriority = p :=
  (h.base.queued.mem p t).mp (List.mem_of_head? ht)

/-- A scheduling does nothing (locked, or no ready thread), lets the running thread go on, or
switches to the first thread of the best ready priority. -/
theorem rtSchedule_cases (h : Inv c k) (hs : rtSchedule c k = some k') :
    (k' = k ∧ (k.schedulerLockNest ≠ 0 ∨ k.readyPriorityGroup = 0)) ∨
    ∃ current toThread, k.schedulerLockNest = 0 ∧ k.readyPriorityGroup ≠ 0 ∧
      k.currentThread = some current ∧
      (k.priorityTable (highestReadyPriority c k)).head? = some toThread ∧ toThread ≠ current ∧
      ((Keeps (k.thread current) (highestReadyPriority c k) ∧
          k' = setStat (rtScheduleRemoveThread c (clearYield k current) current) current .running) ∨
        (¬ Keeps (k.thread current) (highestReadyPriority c k) ∧
          k' = switchTo c (clearYield k current) current toThread (highestReadyPriority c k)
            (decide ((k.thread current).stat = .running)))) := by
  unfold rtSchedule at hs
  split at hs
  · rename_i hlock
    split at hs
    · rename_i hgroup
      right
      simp only [Option.bind_eq_bind, Option.bind_eq_some_iff, schedulerGetHighestPriorityThread,
        Option.map_eq_some_iff] at hs
      obtain ⟨current, hcur, _, ⟨toThread, hto, rfl⟩, hs⟩ := hs
      have hne : toThread ≠ current := by
        rintro rfl
        exact (h.current _ hcur).not_ready (head_queued h hto).1
      refine ⟨current, toThread, hlock, hgroup, hcur, hto, hne, ?_⟩
      simp only [scheduleDecision] at hs
      by_cases hrun : (k.thread current).stat = .running
      · simp only [hrun, ↓reduceIte] at hs
        by_cases hlt : (k.thread current).currentPriority < highestReadyPriority c k
        · left
          simp only [hlt, ↓reduceIte, ne_eq, not_true_eq_false, Option.some.injEq] at hs
          exact ⟨⟨hrun, .inl hlt⟩, hs.symm⟩
        · by_cases heq : (k.thread current).currentPriority = highestReadyPriority c k ∧
              (k.thread current).yieldFlag = false
          · left
            simp only [hlt, if_pos heq, ↓reduceIte, ne_eq, not_true_eq_false,
              Option.some.injEq] at hs
            exact ⟨⟨hrun, .inr heq⟩, hs.symm⟩
          · right
            simp only [hlt, heq, ↓reduceIte, ne_eq, hne, not_false_eq_true,
              Option.some.injEq] at hs
            refine ⟨?_, by simpa [hrun] using hs.symm⟩
            rintro ⟨_, hk | hk⟩
            · exact hlt hk
            · exact heq hk
      · right
        simp only [hrun, ↓reduceIte, ne_eq, hne, not_false_eq_true, Option.some.injEq] at hs
        exact ⟨fun hk => hrun hk.1, by simpa [hrun] using hs.symm⟩
    · rename_i hgroup
      left
      exact ⟨(Option.some.inj hs).symm, .inr (not_not.mp hgroup)⟩
  · rename_i hlock
    left
    exact ⟨(Option.some.inj hs).symm, .inl hlock⟩

theorem clearYield_frame (k : Kernel) (t : ThreadId) :
    ∃ flag, clearYield k t = setThread k t { k.thread t with yieldFlag := flag } := by
  unfold clearYield
  split
  · exact ⟨_, rfl⟩
  · refine ⟨(k.thread t).yieldFlag, ?_⟩
    simp [setThread]

theorem clearYield_base (h : Base c k) (t : ThreadId) : Base c (clearYield k t) := by
  obtain ⟨flag, he⟩ := clearYield_frame k t
  rw [he]
  exact h.setThread rfl rfl rfl rfl rfl

theorem clearYield_stat (k : Kernel) (t u : ThreadId) :
    ((clearYield k t).thread u).stat = (k.thread u).stat := by
  obtain ⟨flag, he⟩ := clearYield_frame k t
  rw [he]
  by_cases hu : u = t
  · subst hu; simp
  · rw [setThread_other _ _ _ _ hu]

theorem clearYield_attributed (h : Attributed c (k.thread t)) :
    Attributed c ((clearYield k t).thread t) := by
  obtain ⟨flag, he⟩ := clearYield_frame k t
  rw [he, setThread_same]
  exact h.of_fields rfl rfl rfl rfl

/-- A thread taken out of the queue and put into a state that is not `READY`. -/
theorem Base.remove_setStat (h : Base c k) (hx : Attributed c (k.thread t)) {stat : Stat}
    (hs : stat ≠ .ready) : Base c (setStat (rtScheduleRemoveThread c k t) t stat) := by
  refine BaseExcept.settle ((h.remove hx).setThread ((h.remove hx).queued.lt t)) ?_ ?_
  · simpa [setStat] using hs
  · intro _
    rw [setStat, setThread_same, remove_thread]
    exact hx.of_fields rfl rfl rfl rfl

theorem switchTo_inv (h : Base c k) {current toThread : ThreadId} {highest : Nat}
    (hto : (k.thread toThread).stat = .ready) (hne : toThread ≠ current) :
    Inv c (switchTo c k current toThread highest (decide ((k.thread current).stat = .running))) := by
  have h₀ : Base c { k with currentPriority := highest, currentThread := some toThread } :=
    h.congr rfl rfl rfl rfl
  have hinsert : ∀ need : Bool, (need = true → (k.thread current).stat = .running) →
      let k₁ := { k with currentPriority := highest, currentThread := some toThread }
      Base c (if need = true then rtScheduleInsertThread c k₁ current else k₁) ∧
        ((if need = true then rtScheduleInsertThread c k₁ current else k₁).thread toThread).stat =
          .ready := by
    intro need hneed
    cases need with
    | false => exact ⟨h₀, hto⟩
    | true =>
      have hrun := hneed rfl
      refine ⟨(h₀.except (t := current) (by simp [hrun])).insert
        (h₀.attributed current (by simp [Live, hrun])), ?_⟩
      simp only [↓reduceIte, rtScheduleInsertThread, Option.some.injEq, hne, link_thread, setStat]
      rw [setThread_other _ _ _ _ hne]
      exact hto
  obtain ⟨hb, hr⟩ := hinsert (decide ((k.thread current).stat = .running)) (by simp)
  have hx := hb.attributed toThread ⟨by rw [hr]; simp, by rw [hr]; simp⟩
  constructor
  · have hrunning : Stat.running ≠ .ready := by simp
    exact (hb.remove_setStat hx hrunning).congr rfl rfl rfl rfl
  · intro t ht
    have hct : some toThread = some t := by
      simp only [switchTo, setStat, setThread_currentThread, remove_currentThread] at ht
      split at ht
      · simp only [rtScheduleInsertThread, Option.some.injEq, hne, ↓reduceIte, link_currentThread,
          setStat, setThread_currentThread] at ht
        exact congrArg some ht
      · exact ht
    cases hct
    simp only [switchTo, setStat, setThread_same]
    refine ⟨by simp, by simp, ?_⟩
    rw [remove_thread]
    exact hx.of_fields rfl rfl rfl rfl

theorem rtSchedule_inv (h : Inv c k) (hs : rtSchedule c k = some k') : Inv c k' := by
  obtain ⟨rfl, _⟩ | ⟨current, toThread, _, _, hcur, hto, hne, ⟨_, rfl⟩ | ⟨_, rfl⟩⟩ :=
    rtSchedule_cases h hs
  · exact h
  · have hb := clearYield_base h.base current
    have hx := clearYield_attributed (h.current _ hcur).attributed
    refine ⟨hb.remove_setStat hx (by simp), ?_⟩
    intro t ht
    have : t = current := by
      obtain ⟨flag, he⟩ := clearYield_frame k current
      simp only [setStat, setThread_currentThread, remove_currentThread, he] at ht
      exact Option.some.inj (ht.symm.trans hcur)
    subst this
    simp only [setStat, setThread_same]
    refine ⟨by simp, by simp, ?_⟩
    rw [remove_thread]
    exact hx.of_fields rfl rfl rfl rfl
  · rw [← clearYield_stat k current current]
    refine switchTo_inv (clearYield_base h.base current) ?_ hne
    rw [clearYield_stat]
    exact (head_queued h hto).1

end RtThread.ReadyQueue
