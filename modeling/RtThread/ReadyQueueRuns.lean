import RtThread.ReadyQueue

/-!
# The ready-queue invariant along runs

One lemma for every call of the kernel, and from them the invariant of every
state a run reaches.
-/
namespace RtThread.ReadyQueue

open Scheduler Thread

variable {c : Config} {k k' : Kernel} {t : ThreadId} {x : Thread} {tick : Tick}
  {thread : ThreadId → Thread}

/-- The invariant reads the threads, the queue and the current thread only. -/
theorem Inv.congr (h : Inv c k) (ht : k'.thread = k.thread)
    (hl : k'.priorityTable = k.priorityTable) (hr : k'.readyTable = k.readyTable)
    (hg : k'.readyPriorityGroup = k.readyPriorityGroup) (hc : k'.currentThread = k.currentThread) :
    Inv c k' := by
  refine ⟨h.base.congr ht hl hr hg, ?_⟩
  intro t hct
  rw [ht]
  exact h.current t (hc ▸ hct)

theorem Inv.setThread (h : Inv c k) (hs : x.stat = (k.thread t).stat)
    (hp : x.currentPriority = (k.thread t).currentPriority) (hn : x.number = (k.thread t).number)
    (hm : x.numberMask = (k.thread t).numberMask) (hh : x.highMask = (k.thread t).highMask) :
    Inv c (setThread k t x) := by
  refine ⟨h.base.setThread hs hp hn hm hh, ?_⟩
  intro u hu
  by_cases hut : u = t
  · subst hut
    have hu' := h.current u hu
    rw [setThread_same]
    exact ⟨hs ▸ hu'.not_ready, hs ▸ hu'.not_init, hu'.attributed.of_fields hp hn hm hh⟩
  · rw [setThread_other _ _ _ _ hut]
    exact h.current u hu

/-- An unqueued thread is settled in a state that is not `READY`. -/
theorem BaseExcept.settle_inv (h : BaseExcept c k t)
    (hcur : ∀ u, u ≠ t → k.currentThread = some u → MayRun c (k.thread u))
    (hlt : x.currentPriority < c.priorityMax) (hr : x.stat ≠ .ready)
    (hx : Live x → Attributed c x) (ht : k.currentThread = some t → MayRun c x) :
    Inv c (Scheduler.setThread k t x) := by
  refine ⟨(h.setThread hlt).settle (by simpa using hr) (by simpa using hx), ?_⟩
  intro u hu
  by_cases hut : u = t
  · subst hut
    rw [setThread_same]
    exact ht hu
  · rw [setThread_other _ _ _ _ hut]
    exact hcur u hut hu

theorem BaseExcept.insert_inv (h : BaseExcept c k t)
    (hcur : ∀ u, u ≠ t → k.currentThread = some u → MayRun c (k.thread u))
    (hx : Attributed c (k.thread t)) : Inv c (rtScheduleInsertThread c k t) := by
  refine ⟨h.insert hx, ?_⟩
  intro u hu
  unfold rtScheduleInsertThread at hu ⊢
  split at hu
  · rename_i hct
    have hut : u = t := Option.some.inj (hu.symm.trans hct)
    subst hut
    simp only [hct, ↓reduceIte, setStat, setThread_same]
    exact ⟨by simp, by simp, hx.of_fields rfl rfl rfl rfl⟩
  · rename_i hct
    have hu' : k.currentThread = some u := hu
    have hut : u ≠ t := by
      rintro rfl
      exact hct hu'
    simp only [hct, ↓reduceIte, link_thread, setStat]
    rw [setThread_other _ _ _ _ hut]
    exact hcur u hut hu'

/-- A thread out of the queue: the others are as before. -/
theorem Inv.remove_current (h : Inv c k) (t : ThreadId) :
    ∀ u, u ≠ t → (rtScheduleRemoveThread c k t).currentThread = some u →
      MayRun c ((rtScheduleRemoveThread c k t).thread u) := by
  intro u _ hu
  rw [remove_currentThread] at hu
  rw [remove_thread]
  exact h.current u hu

theorem rtThreadResume_inv (h : Inv c k) (t : ThreadId) : Inv c (rtThreadResume c k t).1 := by
  unfold rtThreadResume
  split
  · exact h
  · rename_i hs
    have hs : (k.thread t).stat = .suspend := not_not.mp hs
    have he := (h.base.except (t := t) (by simp [hs])).rtListRemove
    refine BaseExcept.insert_inv ⟨he.queued.congr (fun _ => rfl) rfl rfl rfl, he.attributed⟩ ?_ ?_
    · exact fun u _ hu => h.current u hu
    · exact h.base.attributed t (by simp [Live, hs])

/-- The first part of `rt_thread_startup`: the attributes are set and the thread is
suspended. -/
theorem startup_suspend_inv (h : Inv c k) (hi : (k.thread t).stat = .init) :
    Inv c (setThread k t
      { priorityAttribute c (k.thread t) with stat := .suspend, yieldFlag := false }) := by
  have hx : Attributed c
      { priorityAttribute c (k.thread t) with stat := .suspend, yieldFlag := false } :=
    (attributed_priorityAttribute c (k.thread t)).of_fields rfl rfl rfl rfl
  refine (h.base.except (by simp [hi])).settle_inv (fun u _ hu => h.current u hu) ?_ ?_ ?_ ?_
  · simpa using h.base.queued.lt t
  · simp
  · exact fun _ => hx
  · exact fun _ => ⟨by simp, by simp, hx⟩

theorem rtThreadStartup_inv (h : Inv c k) (hs : rtThreadStartup c k t = some k') : Inv c k' := by
  unfold rtThreadStartup at hs
  split at hs
  · rename_i hi
    have h₂ := rtThreadResume_inv (startup_suspend_inv h hi) t
    dsimp only at hs
    split at hs
    · cases hs
      exact h₂
    · exact rtSchedule_inv h₂ hs
  · simp at hs

theorem rtThreadSuspend_inv (h : Inv c k) {e : RtErr} (hs : rtThreadSuspend c k t = some (k', e)) :
    Inv c k' := by
  unfold rtThreadSuspend at hs
  split at hs
  · rename_i hcur
    split at hs
    · have hx := (h.current t hcur).attributed
      have hset : Inv c (setStat (rtScheduleRemoveThread c k t) t .suspend) := by
        have hx' : Attributed c
            { (rtScheduleRemoveThread c k t).thread t with stat := .suspend } := by
          rw [remove_thread]
          exact hx.of_fields rfl rfl rfl rfl
        refine (h.base.remove hx).settle_inv (h.remove_current t) ?_ ?_ ?_ ?_
        · exact (h.base.remove hx).queued.lt t
        · simp
        · exact fun _ => hx'
        · exact fun _ => ⟨by simp, by simp, hx'⟩
      cases hs
      exact hset.congr rfl rfl rfl rfl rfl
    · cases hs
      exact h
  · simp at hs

/-- Closing an unqueued thread. -/
theorem BaseExcept.closeThread_inv (h : BaseExcept c k t)
    (hcur : ∀ u, u ≠ t → k.currentThread = some u → MayRun c (k.thread u))
    (hx : k.currentThread = some t → Attributed c (k.thread t)) : Inv c (closeThread k t) := by
  have hset : Inv c (Scheduler.setThread k t
      { k.thread t with stat := .close, yieldFlag := false }) := by
    refine h.settle_inv hcur (h.queued.lt t) (by simp) ?_ ?_
    · exact fun hl => absurd rfl hl.2
    · exact fun ht => ⟨by simp, by simp, (hx ht).of_fields rfl rfl rfl rfl⟩
  exact hset.congr rfl rfl rfl rfl rfl

theorem threadClose_inv (h : Inv c k) {obj : Bool} (hs : threadClose c obj k t = some k') :
    Inv c k' := by
  unfold threadClose at hs
  split at hs
  · split at hs
    · cases hs
      exact h
    · rename_i hclose
      split at hs
      · rename_i hinit
        cases hs
        have hx := h.base.attributed t ⟨hinit, hclose⟩
        refine (h.base.remove hx).closeThread_inv (h.remove_current t) ?_
        rw [remove_thread]
        exact fun _ => hx
      · rename_i hinit
        cases hs
        refine (h.base.except ?_).closeThread_inv (fun u _ hu => h.current u hu) ?_
        · rw [not_not.mp hinit]
          simp
        · exact fun ht => (h.current t ht).attributed
  · simp at hs

theorem threadExit_inv (h : Inv c k) (hs : threadExit c k = some k') : Inv c k' := by
  obtain ⟨t, hcur, hs⟩ := Option.bind_eq_some_iff.mp hs
  have hx := (h.current t hcur).attributed
  refine rtSchedule_inv ((h.base.remove hx).closeThread_inv (h.remove_current t) ?_) hs
  rw [remove_thread]
  exact fun _ => hx

theorem rtThreadYield_inv (h : Inv c k) (hs : rtThreadYield c k = some k') : Inv c k' := by
  obtain ⟨t, _, hs⟩ := Option.bind_eq_some_iff.mp hs
  have h₁ : Inv c (setThread k t
      { k.thread t with remainingTick := (k.thread t).initTick, yieldFlag := true }) :=
    h.setThread rfl rfl rfl rfl rfl
  exact rtSchedule_inv h₁ hs

theorem sleepFor_inv (h : Inv c k) (hs : sleepFor c k t tick = some k') : Inv c k' := by
  obtain ⟨⟨k₁, e⟩, h₁, hs⟩ := Option.bind_eq_some_iff.mp hs
  obtain ⟨⟨timers, v⟩, _, hs⟩ := Option.bind_eq_some_iff.mp hs
  have h₂ : Inv c { k₁ with timers := Timer.rtTimerStart c.timer timers t } :=
    (rtThreadSuspend_inv h h₁).congr rfl rfl rfl rfl rfl
  exact rtSchedule_inv h₂ hs

theorem rtThreadSleep_inv (h : Inv c k) (hs : rtThreadSleep c k tick = some k') : Inv c k' := by
  obtain ⟨t, _, hs⟩ := Option.bind_eq_some_iff.mp hs
  have h₁ : Inv c (setThread k t { k.thread t with error := .eok }) :=
    h.setThread rfl rfl rfl rfl rfl
  exact sleepFor_inv h₁ hs

theorem rtThreadDelayUntil_inv (h : Inv c k) {inc last : Tick}
    (hs : rtThreadDelayUntil c k tick inc = some (k', last)) : Inv c k' := by
  obtain ⟨t, _, hs⟩ := Option.bind_eq_some_iff.mp hs
  have h₁ : Inv c (setThread k t { k.thread t with error := .eok }) :=
    h.setThread rfl rfl rfl rfl rfl
  dsimp only at hs
  split at hs
  · obtain ⟨k₂, h₂, hs⟩ := Option.bind_eq_some_iff.mp hs
    cases hs
    exact sleepFor_inv h₁ h₂
  · cases hs
    exact h₁

theorem changePriority_inv (h : Inv c k) {p : Nat} (hp : p < c.priorityMax) :
    Inv c (changePriority c k t p) := by
  have hattr := attributed_priorityAttribute c
  unfold changePriority
  split
  · rename_i hr
    have hx := h.base.attributed t (by simp [Live, hr])
    refine BaseExcept.insert_inv ((h.base.remove hx).setThread (by simpa using hp)) ?_ ?_
    · intro u hu hcur
      rw [setThread_other _ _ _ _ hu]
      exact h.remove_current t u hu hcur
    · rw [setThread_same]
      exact hattr _
  · rename_i hr
    refine (h.base.except hr).settle_inv (fun u _ hu => h.current u hu) ?_ ?_ ?_ ?_
    · simpa using hp
    · simpa using hr
    · exact fun _ => hattr _
    · intro ht
      have hm := h.current t ht
      exact ⟨by simpa using hm.not_ready, by simpa using hm.not_init, hattr _⟩

/-- The thread whose time is up is back in the ready queue. -/
def timedOut (c : Config) (k : Kernel) (t : ThreadId) : Kernel :=
  rtScheduleInsertThread c
    (rtListRemove (setThread k t { k.thread t with error := .etimeout }) t) t

theorem threadTimeout_cases (hs : threadTimeout c k t = some k') :
    (k.thread t).stat = .suspend ∧ rtSchedule c (timedOut c k t) = some k' := by
  unfold threadTimeout at hs
  split at hs
  · rename_i hsus
    exact ⟨hsus, hs⟩
  · simp at hs

theorem timedOut_inv (h : Inv c k) (hsus : (k.thread t).stat = .suspend) :
    Inv c (timedOut c k t) := by
  have h₁ : Inv c (setThread k t { k.thread t with error := .etimeout }) :=
    h.setThread rfl rfl rfl rfl rfl
  refine (h₁.base.except (t := t) (by simp [hsus])).rtListRemove.insert_inv ?_ ?_
  · exact fun u _ hu => h₁.current u hu
  · exact h₁.base.attributed t (by simp [Live, hsus])

theorem threadTimeout_inv (h : Inv c k) (hs : threadTimeout c k t = some k') : Inv c k' := by
  obtain ⟨hsus, hs⟩ := threadTimeout_cases hs
  exact rtSchedule_inv (timedOut_inv h hsus) hs

/-- The tick is counted, and the time slice of a thread changes. -/
def sliced (k : Kernel) (t : ThreadId) (n : Tick) (yielded : Bool) : Kernel :=
  setThread { k with timers := { k.timers with tick := k.timers.tick + 1 } } t
    { k.thread t with remainingTick := n, yieldFlag := yielded }

theorem tickSlice_cases (h : Inv c k) (hs : tickSlice c k = some k') :
    ∃ t n b, Inv c (sliced k t n b) ∧
      (rtSchedule c (sliced k t n b) = some k' ∨ sliced k t n b = k') := by
  obtain ⟨t, _, hs⟩ := Option.bind_eq_some_iff.mp hs
  have h₁ : Inv c { k with timers := { k.timers with tick := k.timers.tick + 1 } } :=
    h.congr rfl rfl rfl rfl rfl
  have hsliced : ∀ n b, Inv c (sliced k t n b) := fun _ _ => h₁.setThread rfl rfl rfl rfl rfl
  dsimp only at hs
  split at hs
  · exact ⟨t, _, true, hsliced _ _, .inl hs⟩
  · exact ⟨t, _, (k.thread t).yieldFlag, hsliced _ _, .inr (Option.some.inj hs)⟩

theorem tickSlice_inv (h : Inv c k) (hs : tickSlice c k = some k') : Inv c k' := by
  obtain ⟨t, n, b, hinv, hs | rfl⟩ := tickSlice_cases h hs
  · exact rtSchedule_inv hinv hs
  · exact hinv

theorem timerCheckLoop_inv (n : Nat) (h : Inv c k) (hs : timerCheckLoop c n k = some k') :
    Inv c k' := by
  induction n generalizing k with
  | zero =>
    cases hs
    exact h
  | succ n ih =>
    unfold timerCheckLoop at hs
    split at hs
    · cases hs
      exact h
    · rename_i timers t hpop
      obtain ⟨k₁, h₁, hs⟩ := Option.bind_eq_some_iff.mp hs
      have hk : Inv c { k with timers := timers } := h.congr rfl rfl rfl rfl rfl
      have hi : Inv c
          { k₁ with timers := Timer.timerCheckFinish c.timer k₁.timers .hard t } :=
        (threadTimeout_inv hk h₁).congr rfl rfl rfl rfl rfl
      exact ih hi hs

theorem rtTickIncrease_inv (h : Inv c k) (hs : rtTickIncrease c k = some k') : Inv c k' := by
  obtain ⟨k₁, h₁, hs⟩ := Option.bind_eq_some_iff.mp hs
  exact timerCheckLoop_inv _ (tickSlice_inv h h₁) hs

theorem rtSystemSchedulerStart_inv (h : Inv c k) (hs : rtSystemSchedulerStart c k = some k') :
    Inv c k' := by
  obtain ⟨⟨toThread, p⟩, hto, hs⟩ := Option.bind_eq_some_iff.mp hs
  simp only [schedulerGetHighestPriorityThread, Option.map_eq_some_iff, Prod.mk.injEq] at hto
  obtain ⟨t, hto, rfl, rfl⟩ := hto
  have hr := (head_queued h hto).1
  have hb : Base c { k with currentThread := some t } := h.base.congr rfl rfl rfl rfl
  have hx : Attributed c (({ k with currentThread := some t } : Kernel).thread t) :=
    h.base.attributed t ⟨by rw [hr]; simp, by rw [hr]; simp⟩
  cases hs
  refine (hb.remove hx).settle_inv ?_ ((hb.remove hx).queued.lt t) (by simp) ?_ ?_
  · intro u hu hct
    rw [remove_currentThread] at hct
    exact absurd (Option.some.inj hct).symm hu
  · intro _
    rw [remove_thread]
    exact hx.of_fields rfl rfl rfl rfl
  · intro _
    rw [remove_thread]
    exact ⟨by simp, by simp, hx.of_fields rfl rfl rfl rfl⟩

theorem rtExitCritical_inv (h : Inv c k) (hs : rtExitCritical c k = some k') : Inv c k' := by
  have hk : ∀ n : Int, Inv c { k with schedulerLockNest := n } :=
    fun n => h.congr rfl rfl rfl rfl rfl
  unfold rtExitCritical at hs
  dsimp only at hs
  split at hs
  · split at hs
    · cases hs
      exact hk 0
    · exact rtSchedule_inv (hk 0) hs
  · cases hs
    exact hk _

/-- The calls whose arguments the kernel accepts: a new priority is in range. -/
def Permitted (c : Config) : Op → Prop
  | .control _ (.changePriority p) => p < c.priorityMax
  | _ => True

/-- Every call keeps the invariant. -/
theorem step_inv {op : Op} (h : Inv c k) (hop : Permitted c op) (hs : step c k op = some k') :
    Inv c k' := by
  cases op with
  | schedulerStart =>
    simp only [step] at hs
    split at hs
    · exact rtSystemSchedulerStart_inv h hs
    · simp at hs
  | startup t => exact rtThreadStartup_inv h hs
  | suspend t =>
    obtain ⟨⟨k₁, e⟩, h₁, rfl⟩ := Option.map_eq_some_iff.mp hs
    exact rtThreadSuspend_inv h h₁
  | resume t =>
    cases hs
    exact rtThreadResume_inv h t
  | yield => exact rtThreadYield_inv h hs
  | sleep tick => exact rtThreadSleep_inv h hs
  | delayUntil tick inc =>
    obtain ⟨⟨k₁, last⟩, h₁, rfl⟩ := Option.map_eq_some_iff.mp hs
    exact rtThreadDelayUntil_inv h h₁
  | sleepReturn =>
    obtain ⟨⟨k₁, e⟩, h₁, rfl⟩ := Option.map_eq_some_iff.mp hs
    obtain ⟨t, _, h₁⟩ := Option.bind_eq_some_iff.mp h₁
    cases h₁
    exact h.setThread rfl rfl rfl rfl rfl
  | detach | delete => exact threadClose_inv h hs
  | exit => exact threadExit_inv h hs
  | control t cmd =>
    cases cmd with
    | changePriority p =>
      cases hs
      exact changePriority_inv h hop
    | startup => exact rtThreadStartup_inv h hs
    | close =>
      obtain ⟨k₁, h₁, hs⟩ := Option.bind_eq_some_iff.mp hs
      exact rtSchedule_inv (threadClose_inv h h₁) hs
  | tickIncrease => exact rtTickIncrease_inv h hs
  | timeout t => exact threadTimeout_inv h hs
  | schedule => exact rtSchedule_inv h hs
  | enterCritical =>
    cases hs
    exact h.congr rfl rfl rfl rfl rfl
  | exitCritical => exact rtExitCritical_inv h hs

/-- The state `_thread_init` leaves a thread in. -/
def Initialised (c : Config) (thread : ThreadId → Thread) : Prop :=
  ∀ t, ∃ priority tick obj, threadInit c priority tick obj = some (thread t)

theorem init_inv (h : Initialised c thread) (timers : Timer.State) :
    Inv c (rtSystemSchedulerInit thread timers) := by
  have hinit : ∀ t, (thread t).stat = .init ∧ (thread t).currentPriority < c.priorityMax := by
    intro t
    obtain ⟨priority, tick, obj, ht⟩ := h t
    unfold threadInit at ht
    split at ht
    · rename_i hlt
      rw [← Option.some.inj ht]
      exact ⟨rfl, hlt⟩
    · simp at ht
  refine ⟨⟨⟨?_, ?_, fun t => (hinit t).2, ?_⟩, ?_⟩, ?_⟩
  · intro p t
    simp [rtSystemSchedulerInit, (hinit t).1]
  · intro p
    exact List.nodup_nil
  · unfold Bits
    split <;> simp [rtSystemSchedulerInit]
  · exact fun t ht => absurd (hinit t).1 ht.1
  · intro t ht
    simp [rtSystemSchedulerInit] at ht

/-- Every state a run reaches satisfies the invariant. -/
theorem run_inv (hinit : Initialised c thread) {timers : Timer.State} {ops : List Op}
    (hops : ∀ op ∈ ops, Permitted c op)
    (hrun : Runs.run (step c) (rtSystemSchedulerInit thread timers) ops = some k) : Inv c k :=
  Runs.run_invariant_along (fun _ _ _ h hop hs => step_inv h hop hs) (init_inv hinit timers)
    (Runs.along_of_forall hops _) hrun

/-- What the ready queue represents: every `READY` thread but the current one is linked
exactly once, at its current priority; no suspended, unstarted or closed thread is linked;
and the bitmaps name exactly the priorities with a linked thread. -/
structure Represents (c : Config) (k : Kernel) : Prop where
  ready : ∀ t, (k.thread t).stat = .ready → k.currentThread ≠ some t →
    (k.priorityTable (k.thread t).currentPriority).count t = 1 ∧
      ∀ p, p ≠ (k.thread t).currentPriority → t ∉ k.priorityTable p
  unlinked : ∀ t, (k.thread t).stat = .suspend ∨ (k.thread t).stat = .init ∨
    (k.thread t).stat = .close → ∀ p, t ∉ k.priorityTable p
  bits : Bits c k

theorem Inv.represents (h : Inv c k) : Represents c k := by
  have hmem := h.base.queued.mem
  constructor
  · intro t ht _
    refine ⟨List.count_eq_one_of_mem (h.base.queued.nodup _) ((hmem _ t).mpr ⟨ht, rfl⟩), ?_⟩
    intro p hp hin
    exact hp ((hmem p t).mp hin).2.symm
  · intro t ht p hin
    have hr := ((hmem p t).mp hin).1
    rw [hr] at ht
    simp at ht
  · exact h.base.queued.bits

/-- The ready queue after `rt_system_scheduler_init` and any finite run of the calls. -/
theorem ready_queue_represents (c : Config) (thread : ThreadId → Thread)
    (hinit : Initialised c thread) (timers : Timer.State) (ops : List Op)
    (hops : ∀ op ∈ ops, Permitted c op) (k : Kernel)
    (hrun : Runs.run (step c) (rtSystemSchedulerInit thread timers) ops = some k) :
    Represents c k :=
  (run_inv hinit hops hrun).represents

/-- A build with 32 priorities and one timer row. -/
def smallConfig : Config := ⟨32, by decide, ⟨1, 3, by decide⟩⟩

/-- Threads of priority 10 with a time slice of two ticks. -/
def peers : ThreadId → Thread := fun _ => ⟨.init, false, 10, 0, 0, 0, 2, 2, .eok, true⟩

def peerTimers : Timer.State :=
  Timer.rtSystemTimerInit 0 (fun _ => Timer.timerInit 0 false .hard)

theorem peers_initialised : Initialised smallConfig peers :=
  fun _ => ⟨10, 2, true, rfl⟩

/-- Three peers are started, one sleeps, one is made more urgent and one is detached. -/
def peerOps : List Op :=
  [.startup 0, .startup 1, .startup 2, .schedulerStart, .yield, .sleep 2, .tickIncrease,
    .control 0 (.changePriority 3), .schedule, .tickIncrease, .detach 2]

theorem ready_queue_represents_peers :
    ∃ k, Runs.run (step smallConfig) (rtSystemSchedulerInit peers peerTimers) peerOps = some k ∧
      Represents smallConfig k := by
  have hrun : (Runs.run (step smallConfig) (rtSystemSchedulerInit peers peerTimers)
      peerOps).isSome = true := by decide +kernel
  obtain ⟨k, hk⟩ := Option.isSome_iff_exists.mp hrun
  have hops : ∀ op ∈ peerOps, Permitted smallConfig op := by
    simp [peerOps, Permitted, smallConfig]
  exact ⟨k, hk, ready_queue_represents smallConfig peers peers_initialised peerTimers peerOps
    hops k hk⟩

end RtThread.ReadyQueue
