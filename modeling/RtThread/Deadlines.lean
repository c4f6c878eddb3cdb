import RtThread.DelayUntil
import RtThread.Release
import RtThread.TimerExpiry

/-!
# The deadlines of the threads

In a run of the kernel no thread timer is overdue: it is started with a deadline ahead, a tick
brings it one tick nearer, and the check that belongs to the tick takes it out of the list when
the deadline is reached. Only the current thread starts a timer, its own.
-/
namespace RtThread.System

open Scheduler Thread ReadyQueue Rotation
open Timer (Linked rel)

/-- The timer lists are in order and no linked timer is overdue. -/
structure Punctual (c : Config) (k : Kernel) : Prop where
  order : Timer.Inv c.timer k.timers
  ahead : ∀ u, Linked c.timer k.timers u → 0 ≤ rel k.timers u

/-- Between two ticks: only the timer of the given thread may have been started. -/
structure TimersKept (c : Config) (who : Option ThreadId) (k k' : Kernel) : Prop where
  punctual : Punctual c k → Punctual c k'
  tick : k'.timers.tick = k.timers.tick
  kept : ∀ u, who ≠ some u → Linked c.timer k'.timers u → Linked c.timer k.timers u ∧
    (k'.timers.timer u).timeoutTick = (k.timers.timer u).timeoutTick

variable {c : Config} {who : Option ThreadId} {k k₁ k' : Kernel} {t : ThreadId}

theorem TimersKept.of_timers (h : k'.timers = k.timers) : TimersKept c who k k' :=
  ⟨fun hp => ⟨h ▸ hp.order, h ▸ hp.ahead⟩, congrArg Timer.State.tick h,
    fun _ _ hu => h ▸ ⟨hu, rfl⟩⟩

theorem TimersKept.trans (h : TimersKept c who k k₁) (h' : TimersKept c who k₁ k') :
    TimersKept c who k k' := by
  refine ⟨fun hp => h'.punctual (h.punctual hp), h'.tick.trans h.tick, fun u hu hl => ?_⟩
  obtain ⟨hl₁, htimeout₁⟩ := h'.kept u hu hl
  obtain ⟨hl₀, htimeout₀⟩ := h.kept u hu hl₁
  exact ⟨hl₀, htimeout₁.trans htimeout₀⟩

theorem rel_congr {s s' : Timer.State} {u : ThreadId} (htick : s'.tick = s.tick)
    (htimeout : (s'.timer u).timeoutTick = (s.timer u).timeoutTick) : rel s' u = rel s u := by
  rw [rel, rel, htick, htimeout]

/-! ## The functions of the timer module -/

theorem stop_timeoutTick (s : Timer.State) (t u : ThreadId) :
    ((Timer.rtTimerStop s t).1.timer u).timeoutTick = (s.timer u).timeoutTick := by
  rw [Timer.rtTimerStop]
  split
  · by_cases hu : u = t
    · simp [Timer.setTimer, hu]
    · simp [Timer.setTimer, Timer.timerRemove, hu]
  · rfl

theorem detach_timeoutTick (s : Timer.State) (t u : ThreadId) :
    ((Timer.rtTimerDetach s t).timer u).timeoutTick = (s.timer u).timeoutTick := by
  by_cases hu : u = t
  · simp [Timer.rtTimerDetach, Timer.setTimer, hu]
  · simp [Timer.rtTimerDetach, Timer.setTimer, Timer.timerRemove, hu]

/-- Timers may be unlinked. -/
theorem TimersKept.unlink (htick : k'.timers.tick = k.timers.tick)
    (horder : Punctual c k → Timer.Inv c.timer k'.timers)
    (hkept : ∀ u, Linked c.timer k'.timers u → Linked c.timer k.timers u ∧
      (k'.timers.timer u).timeoutTick = (k.timers.timer u).timeoutTick) : TimersKept c who k k' := by
  refine ⟨fun hp => ⟨horder hp, fun u hu => ?_⟩, htick, fun u _ hu => hkept u hu⟩
  obtain ⟨hl, htimeout⟩ := hkept u hu
  rw [rel_congr htick htimeout]
  exact hp.ahead u hl

theorem TimersKept.stop (h : Discipline c k)
    (hk : k'.timers = (Timer.rtTimerStop k.timers t).1) : TimersKept c who k k' := by
  refine .unlink (by rw [hk, stopped_tick]) (fun hp => hk ▸ hp.order.stop t) fun u hu => ?_
  rw [hk] at hu ⊢
  exact ⟨(linked_stop h t u hu).2, stop_timeoutTick _ _ _⟩

theorem TimersKept.detach (hk : k'.timers = Timer.rtTimerDetach k.timers t) :
    TimersKept c who k k' := by
  refine .unlink (by rw [hk]; rfl) (fun hp => ?_) fun u hu => ?_
  · rw [hk]
    exact (hp.order.remove t).setTimer t rfl (hp.order.initTick t)
  · rw [hk] at hu ⊢
    exact ⟨(linked_detach hu).2, detach_timeoutTick _ _ _⟩

theorem setTime_some {s : Timer.State} {time : Tick} {r : Timer.State × Option Tick}
    (hr : Timer.rtTimerControl s t (.setTime time) = some r) :
    time.toNat < rtTickMaxHalf ∧ r.1 = Timer.setTimer s t { s.timer t with initTick := time } := by
  obtain ⟨htime, hr⟩ := Option.ite_none_right_eq_some.mp hr
  cases hr
  exact ⟨htime, rfl⟩

/-- The timer of a thread is set and started. -/
theorem TimersKept.start (h : Discipline c k) {time : Tick} {r : Timer.State × Option Tick}
    (hr : Timer.rtTimerControl k.timers t (.setTime time) = some r)
    (hk : k'.timers = Timer.rtTimerStart c.timer r.1 t) : TimersKept c (some t) k k' := by
  have hlinkage := h.linkage.control hr
  obtain ⟨htime, hset⟩ := setTime_some hr
  have hself : (r.1.timer t).initTick = time := by
    rw [hset]
    simp [Timer.setTimer]
  have hother : ∀ u, u ≠ t → r.1.timer u = k.timers.timer u := by
    intro u hu
    rw [hset]
    exact Function.update_of_ne hu _ _
  have hkind : ∀ u, (r.1.timer u).kind = (k.timers.timer u).kind := by
    intro u
    by_cases hu : u = t
    · rw [hset, hu]
      simp [Timer.setTimer]
    · rw [hother u hu]
  have hlinked : ∀ u, Linked c.timer r.1 u ↔ Linked c.timer k.timers u := by
    intro u
    rw [Linked, hkind, hset]
    rfl
  have htick : r.1.tick = k.timers.tick := by
    rw [hset]
    rfl
  have hrel : ∀ u, u ≠ t → rel r.1 u = rel k.timers u := fun u hu =>
    rel_congr htick (by rw [hother u hu])
  constructor
  case tick =>
    rw [hk]
    exact htick
  case kept =>
    intro u hu hl
    have hut : u ≠ t := fun heq => hu (congrArg some heq.symm)
    rw [hk] at hl ⊢
    have hl₁ := ((Timer.linked_rtTimerStart hlinkage u).mp hl).resolve_left hut
    rw [(Timer.rtTimerStart_timer u).2, Timer.searched, if_neg hut, hother u hut]
    exact ⟨(hlinked u).mp hl₁, rfl⟩
  case punctual =>
    intro hp
    have horder := hp.order.control t hr
    have hok : Timer.StartOk c.timer r.1 t := by
      intro u hu hut
      have hlevel := c.timer.level_pos
      have hl := (hlinked u).mp (hlinkage.linked_of_mem (by omega) hu)
      have hahead := hp.ahead u hl
      rw [hself, hrel u hut]
      rw [rtTickMaxHalf] at htime
      omega
    refine ⟨hk ▸ horder.start hok, fun u hu => ?_⟩
    rw [hk] at hu ⊢
    obtain rfl | hu := (Timer.linked_rtTimerStart hlinkage u).mp hu
    · rw [Timer.rtTimerStart_rel_self (horder.initTick u)]
      exact Int.natCast_nonneg _
    · by_cases hut : u = t
      · subst hut
        rw [Timer.rtTimerStart_rel_self (horder.initTick u)]
        exact Int.natCast_nonneg _
      · rw [Timer.rtTimerStart_rel hut, hrel u hut]
        exact hp.ahead u ((hlinked u).mp hu)

/-! ## The functions of the threads -/

theorem TimersKept.steady (h : Steady k k') : TimersKept c who k k' := .of_timers h.timers

theorem rtThreadResume_kept (h : Discipline c k) (t : ThreadId) :
    TimersKept c who k (rtThreadResume c k t).1 := by
  unfold rtThreadResume
  split
  · exact .of_timers rfl
  · exact .stop (t := t) h (insert_timers c _ t)

theorem rtThreadSuspend_kept {e : RtErr} (h : Discipline c k)
    (hs : rtThreadSuspend c k t = some (k', e)) : TimersKept c who k k' := by
  obtain ⟨-, hs⟩ := Option.ite_none_right_eq_some.mp hs
  split at hs
  · cases hs
    refine .stop (t := t) h ?_
    dsimp only [setStat, setThread]
    rw [remove_timers]
  · cases hs
    exact .of_timers rfl

theorem suspended_current {e : RtErr} (hs : rtThreadSuspend c k t = some (k', e)) :
    k.currentThread = some t := by
  exact (Option.ite_none_right_eq_some.mp hs).1

theorem suspendFor_kept {timeout : BitVec 32} (h : Discipline c k)
    (hs : suspendFor c k t timeout = some k') :
    k.currentThread = some t ∧ TimersKept c (some t) k k' := by
  obtain ⟨⟨k₁, e⟩, h₁, hs⟩ := Option.bind_eq_some_iff.mp hs
  replace hs : startThreadTimer c k₁ t timeout = some k' := hs
  have hsteady : Steady k (setThread k t { k.thread t with error := .eok }) :=
    steady_setThread fun hs => hs
  have hd₁ := rtThreadSuspend_discipline (h.steady hsteady) h₁
  have hkept : TimersKept c (some t) _ _ :=
    (TimersKept.steady hsteady).trans (rtThreadSuspend_kept (h.steady hsteady) h₁)
  have hcur := suspended_current h₁
  refine ⟨hcur, ?_⟩
  rw [startThreadTimer] at hs
  split at hs
  · obtain ⟨-, hs⟩ := Option.ite_none_left_eq_some.mp hs
    obtain ⟨r, hr, rfl⟩ := Option.map_eq_some_iff.mp hs
    exact hkept.trans (.start hd₁ hr rfl)
  · cases hs
    exact hkept

theorem sleepFor_kept {tick : Tick} (h : Discipline c k) (hinv : Inv c k)
    (hs : sleepFor c k t tick = some k') : TimersKept c (some t) k k' := by
  obtain ⟨⟨k₁, e⟩, h₁, hs⟩ := Option.bind_eq_some_iff.mp hs
  obtain ⟨r, hr, hs⟩ := Option.bind_eq_some_iff.mp hs
  have hinv₁ : Inv c { k₁ with timers := Timer.rtTimerStart c.timer r.1 t } :=
    (rtThreadSuspend_inv hinv h₁).congr rfl rfl rfl rfl rfl
  have hstart : TimersKept c (some t) k₁ { k₁ with timers := Timer.rtTimerStart c.timer r.1 t } :=
    .start (rtThreadSuspend_discipline h h₁) hr rfl
  exact ((rtThreadSuspend_kept h h₁).trans hstart).trans (.of_timers (rtSchedule_timers hinv₁ hs))

theorem closeThread_kept (hk : k₁.timers = k.timers) : TimersKept c who k (closeThread k₁ t) :=
  (TimersKept.of_timers hk).trans (.detach (t := t) rfl)

theorem threadClose_kept {obj : Bool} (hs : threadClose c obj k t = some k') :
    TimersKept c who k k' := by
  obtain ⟨-, hs⟩ := Option.ite_none_right_eq_some.mp hs
  split at hs
  · cases hs
    exact .of_timers rfl
  · split at hs
    · cases hs
      exact closeThread_kept (remove_timers c k t)
    · cases hs
      exact closeThread_kept rfl

theorem rtThreadStartup_kept (h : Discipline c k) (hinv : Inv c k)
    (hs : rtThreadStartup c k t = some k') : TimersKept c who k k' := by
  obtain ⟨hi, hs⟩ := Option.ite_none_right_eq_some.mp hs
  have hinv₁ := startup_suspend_inv hinv hi
  have hst : Steady k (setThread k t
      { priorityAttribute c (k.thread t) with stat := .suspend, yieldFlag := false }) :=
    steady_setThread fun _ => rfl
  have hkept : TimersKept c who _ _ :=
    (TimersKept.steady hst).trans (rtThreadResume_kept (h.steady hst) t)
  dsimp only at hs
  split at hs
  · cases hs
    exact hkept
  · exact hkept.trans (.of_timers (rtSchedule_timers (rtThreadResume_inv hinv₁ t) hs))

/-- A call of a thread function other than the tick starts no timer but that of its caller. -/
theorem threadOp_kept {op : Thread.Op} (h : Discipline c k) (hinv : Inv c k)
    (htimeout : ∀ u, op ≠ .timeout u) (htick : op ≠ .tickIncrease)
    (hs : Thread.step c k op = some k') : TimersKept c k.currentThread k k' := by
  have hreset : ∀ t, Steady k (setThread k t { k.thread t with error := .eok }) := fun t =>
    steady_setThread fun hs => hs
  cases op with
  | schedulerStart =>
    obtain ⟨-, hs⟩ := Option.ite_none_right_eq_some.mp hs
    exact .steady (rtSystemSchedulerStart_steady hinv hs)
  | startup t => exact rtThreadStartup_kept h hinv hs
  | suspend t =>
    obtain ⟨⟨k₁, e⟩, h₁, rfl⟩ := Option.map_eq_some_iff.mp hs
    exact rtThreadSuspend_kept h h₁
  | resume t =>
    cases hs
    exact rtThreadResume_kept h t
  | yield =>
    obtain ⟨t, -, hs⟩ := Option.bind_eq_some_iff.mp hs
    have hinv₁ : Inv c (setThread k t
        { k.thread t with remainingTick := (k.thread t).initTick, yieldFlag := true }) :=
      hinv.setThread rfl rfl rfl rfl rfl
    have htimers := rtSchedule_timers hinv₁ hs
    exact .of_timers htimers
  | sleep tick =>
    obtain ⟨t, ht, hs⟩ := Option.bind_eq_some_iff.mp hs
    rw [ht]
    exact (TimersKept.steady (hreset t)).trans
      (sleepFor_kept (h.steady (hreset t)) (hinv.setThread rfl rfl rfl rfl rfl) hs)
  | delayUntil tick inc =>
    obtain ⟨⟨k₁, left⟩, h₁, rfl⟩ := Option.map_eq_some_iff.mp hs
    obtain ⟨t, ht, h₁⟩ := Option.bind_eq_some_iff.mp h₁
    rw [ht]
    dsimp only at h₁
    split at h₁
    · obtain ⟨k₂, h₂, h₁⟩ := Option.bind_eq_some_iff.mp h₁
      cases h₁
      exact (TimersKept.steady (hreset t)).trans
        (sleepFor_kept (h.steady (hreset t)) (hinv.setThread rfl rfl rfl rfl rfl) h₂)
    · cases h₁
      exact .of_timers rfl
  | sleepReturn =>
    obtain ⟨⟨k₁, e⟩, h₁, rfl⟩ := Option.map_eq_some_iff.mp hs
    obtain ⟨t, -, h₁⟩ := Option.bind_eq_some_iff.mp h₁
    cases h₁
    exact .of_timers rfl
  | detach | delete => exact threadClose_kept hs
  | exit =>
    obtain ⟨t, hcur, hs⟩ := Option.bind_eq_some_iff.mp hs
    have hx := (hinv.current t hcur).attributed
    have hinv₁ : Inv c (closeThread (rtScheduleRemoveThread c k t) t) := by
      refine (hinv.base.remove hx).closeThread_inv (hinv.remove_current t) ?_
      rw [remove_thread]
      exact fun _ => hx
    exact (closeThread_kept (remove_timers c k t)).trans (.of_timers (rtSchedule_timers hinv₁ hs))
  | control t cmd =>
    cases cmd with
    | changePriority p =>
      cases hs
      exact .steady (changePriority_steady c k t p)
    | startup => exact rtThreadStartup_kept h hinv hs
    | close =>
      obtain ⟨k₁, h₁, hs⟩ := Option.bind_eq_some_iff.mp hs
      exact (threadClose_kept h₁).trans (.of_timers (rtSchedule_timers (threadClose_inv hinv h₁) hs))
  | tickIncrease => exact absurd rfl htick
  | timeout t => exact absurd rfl (htimeout t)
  | schedule => exact .of_timers (rtSchedule_timers hinv hs)
  | enterCritical =>
    cases hs
    exact .of_timers rfl
  | exitCritical => exact .steady (rtExitCritical_steady hinv hs)

/-! ## The functions of the objects -/

section sections

variable {s s₁ s' : State}

/-- The actions of a section are made by the current thread. -/
theorem Acts.kept (ha : Acts c s s') (hok : Ok c s) (h : Discipline c s.kernel) :
    TimersKept c s.kernel.currentThread s.kernel s'.kernel := by
  induction ha with
  | refl => exact .of_timers rfl
  | data _ hd ih => exact hd.kernel ▸ ih
  | setMutex _ _ _ _ ih => exact ih
  | setEventInfo _ _ _ _ _ ih => exact ih
  | setError t _ _ ih => exact ih.trans (.of_timers rfl)
  | setPriority t q _ _ ih => exact ih.trans (.steady (changePriority_steady c _ t q))
  | resume t ha ih =>
    unfold System.resume
    split
    · exact ih.trans (rtThreadResume_kept (ha.discipline hok h) t)
    · exact ih
  | suspendFor ha hk _ _ ih =>
    obtain ⟨hcur, hkept⟩ := suspendFor_kept (ha.discipline hok h) hk
    rw [← hcur, ha.calm.current] at hkept
    exact ih.trans hkept

end sections

/-! ## Ticks -/

/-- What a tick does: the linked timers are one tick nearer to their deadlines, which are ahead. -/
structure Ticked (c : Config) (k k' : Kernel) : Prop where
  order : Timer.Inv c.timer k'.timers
  tick : k'.timers.tick = k.timers.tick + 1
  kept : ∀ u, Linked c.timer k'.timers u → Linked c.timer k.timers u ∧
    (k'.timers.timer u).timeoutTick = (k.timers.timer u).timeoutTick ∧
    0 < rel k'.timers u ∧ rel k'.timers u = rel k.timers u - 1

theorem expired_timeoutTick (s : Timer.State) (t u : ThreadId) :
    ((Timer.expired s .hard t).timer u).timeoutTick = (s.timer u).timeoutTick := by
  by_cases hu : u = t
  · simp [Timer.expired, Timer.setTimer, hu]
  · simp [Timer.expired, Timer.setTimer, Timer.timerRemove, hu]

/-- One round of the check takes one timer out of the list. -/
theorem checkRound_timers (h : Discipline c k) (hinv : Inv c k) {timers : Timer.State}
    (hp : Timer.timerCheckPop c.timer k.timers .hard = some (timers, t))
    (hs : threadTimeout c { k with timers := timers } t = some k₁) :
    k₁.timers = timers ∧
      (Timer.timerCheckFinish c.timer k₁.timers .hard t).timer = timers.timer ∧
      (Timer.timerCheckFinish c.timer k₁.timers .hard t).rows = timers.rows ∧
      (Timer.timerCheckFinish c.timer k₁.timers .hard t).tick = timers.tick ∧
      (Timer.Inv c.timer k.timers →
        Timer.Inv c.timer (Timer.timerCheckFinish c.timer k₁.timers .hard t)) := by
  obtain ⟨hl, -, -, -, -⟩ := linked_pop h hp
  have hsus := h.suspended t hl
  have hoff := pop_unflagged (h.mode t).2 hp
  have hinv' : Inv c { k with timers := timers } := hinv.congr rfl rfl rfl rfl rfl
  obtain ⟨-, hk₁⟩ := threadTimeout_cases hs
  have htimers : k₁.timers = timers :=
    (rtSchedule_timers (timedOut_inv hinv' hsus) hk₁).trans (timedOut_timers c _ t)
  obtain ⟨hft, hfr, -⟩ := finish_eq (c := c) hoff
  have hftick : (Timer.timerCheckFinish c.timer timers .hard t).tick = timers.tick := by
    rw [Timer.finish_leaves]
    · rfl
    · intro hrestarts
      rw [hrestarts.2.2] at hoff
      cases hoff
  rw [htimers]
  refine ⟨rfl, hft, hfr, hftick, fun ho => (ho.checkPop hp).checkFinish fun _ hon => ?_⟩
  rw [hoff, Bool.and_false] at hon
  cases hon

/-- Behind the check every linked timer is ahead. -/
theorem checkLoop_timers (n : Nat) (h : Discipline c k) (hinv : Inv c k)
    (ho : Timer.Inv c.timer k.timers) (hrecent : Timer.Recent c.timer .hard k.timers)
    (hn : (k.timers.rows .hard (c.timer.level - 1)).length ≤ n)
    (hs : timerCheckLoop c n k = some k') :
    Timer.Inv c.timer k'.timers ∧ k'.timers.tick = k.timers.tick ∧
      ∀ u, Linked c.timer k'.timers u → Linked c.timer k.timers u ∧
        (k'.timers.timer u).timeoutTick = (k.timers.timer u).timeoutTick ∧
        0 < rel k'.timers u := by
  induction n generalizing k with
  | zero =>
    cases hs
    refine ⟨ho, rfl, fun u hu => ?_⟩
    rw [Linked, (h.mode u).1, List.length_eq_zero_iff.mp (Nat.le_zero.mp hn)] at hu
    exact absurd hu List.not_mem_nil
  | succ n ih =>
    rw [timerCheckLoop] at hs
    split at hs
    case h_1 hp =>
      cases hs
      refine ⟨ho, rfl, fun u hu => ⟨hu, rfl, ?_⟩⟩
      refine Timer.nothing_left ho hrecent hp u ?_
      rw [Linked, (h.mode u).1] at hu
      exact hu
    case h_2 timers t hp =>
      obtain ⟨k₁, hk₁, hloop⟩ := Option.bind_eq_some_iff.mp hs
      obtain ⟨htimers, htimer, hrows, htick, horder⟩ := checkRound_timers h hinv hp hk₁
      obtain ⟨hsus, hround⟩ := checkRound h hinv hp
      have hd₂ := hround k₁ hk₁
      have hinv' : Inv c { k with timers := timers } := hinv.congr rfl rfl rfl rfl rfl
      obtain ⟨-, hsched⟩ := threadTimeout_cases hk₁
      have hinv₂ : Inv c { k₁ with
          timers := Timer.timerCheckFinish c.timer k₁.timers .hard t } :=
        (rtSchedule_inv (timedOut_inv hinv' hsus) hsched).congr rfl rfl rfl rfl rfl
      obtain ⟨⟨rest, hrow⟩, -, rfl⟩ := Timer.timerCheckPop_some.mp hp
      have htimeout : ∀ u, ((Timer.timerCheckFinish c.timer k₁.timers .hard t).timer u).timeoutTick =
          (k.timers.timer u).timeoutTick := by
        intro u
        rw [htimer]
        exact expired_timeoutTick _ _ _
      have hsame : ∀ u, rel (Timer.timerCheckFinish c.timer k₁.timers .hard t) u =
          rel k.timers u := fun u => rel_congr htick (htimeout u)
      have hmem : ∀ u, u ∈ (Timer.timerCheckFinish c.timer k₁.timers .hard t).rows .hard
          (c.timer.level - 1) → u ∈ k.timers.rows .hard (c.timer.level - 1) := by
        intro u hu
        rw [hrows] at hu
        exact List.mem_of_mem_filter hu
      have hrecent₂ : Timer.Recent c.timer .hard
          (Timer.timerCheckFinish c.timer k₁.timers .hard t) := by
        intro u hu
        rw [hsame]
        exact hrecent u (hmem u hu)
      have hlength : ((Timer.timerCheckFinish c.timer k₁.timers .hard t).rows .hard
          (c.timer.level - 1)).length ≤ n := by
        have hfilter : (Timer.expired k.timers .hard t).rows .hard (c.timer.level - 1) =
            rest.filter (· ≠ t) := by
          rw [show (Timer.expired k.timers .hard t).rows .hard (c.timer.level - 1) =
            (k.timers.rows .hard (c.timer.level - 1)).filter (· ≠ t) from rfl, hrow]
          simp
        rw [hrows, hfilter]
        rw [hrow, List.length_cons] at hn
        exact (List.length_filter_le _ _).trans (by omega)
      obtain ⟨hresult, hresultTick, hresultKept⟩ := ih hd₂ hinv₂ (horder ho) hrecent₂
        hlength hloop
      refine ⟨hresult, hresultTick.trans htick, fun u hu => ?_⟩
      obtain ⟨hl, htime, hpos⟩ := hresultKept u hu
      refine ⟨?_, htime.trans (htimeout u), hpos⟩
      rw [Linked, (hd₂.mode u).1] at hl
      rw [Linked, (h.mode u).1]
      exact hmem u hl

/-- The time slice of a tick leaves the timers alone. -/
theorem tickSlice_timers (hinv : Inv c k) (hs : tickSlice c k = some k') :
    k'.timers = { k.timers with tick := k.timers.tick + 1 } := by
  obtain ⟨t, n, b, hinv₂, hs | rfl⟩ := tickSlice_cases hinv hs
  · have htimers := rtSchedule_timers hinv₂ hs
    exact htimers
  · rfl

theorem rtTickIncrease_ticked (h : Discipline c k) (hinv : Inv c k) (hp : Punctual c k)
    (hs : rtTickIncrease c k = some k') : Ticked c k k' := by
  obtain ⟨k₁, h₁, hs⟩ := Option.bind_eq_some_iff.mp hs
  have htimers := tickSlice_timers hinv h₁
  have hlinked : ∀ u, Linked c.timer k₁.timers u ↔ Linked c.timer k.timers u := by
    intro u
    rw [htimers]
    rfl
  have hmember : ∀ l, ∀ u ∈ k.timers.rows l (c.timer.level - 1), Linked c.timer k.timers u := by
    intro l u hu
    have hlevel := c.timer.level_pos
    exact h.linkage.linked_of_mem (by omega) hu
  have hrel : ∀ u, Linked c.timer k.timers u → rel k₁.timers u = rel k.timers u - 1 := by
    intro u hu
    have hahead := hp.ahead u hu
    rw [htimers]
    refine Timer.rel_tick fun hfar => ?_
    replace hfar : rel k.timers u = -2 ^ 31 := hfar
    omega
  have horder : Timer.Inv c.timer k₁.timers := by
    rw [htimers]
    refine hp.order.tick fun l u hu => ?_
    have hahead := hp.ahead u (hmember l u hu)
    omega
  have hrecent : Timer.Recent c.timer .hard k₁.timers := by
    intro u hu
    have hl : Linked c.timer k.timers u := by
      rw [htimers] at hu
      exact hmember .hard u hu
    have hahead := hp.ahead u hl
    rw [hrel u hl]
    omega
  obtain ⟨hinv', htick, hkept⟩ := checkLoop_timers _ (tickSlice_discipline h hinv h₁)
    (tickSlice_inv hinv h₁) horder hrecent (Nat.le_refl _) hs
  refine ⟨hinv', htick.trans (by rw [htimers]), fun u hu => ?_⟩
  obtain ⟨hl, htimeout, hpos⟩ := hkept u hu
  have hl₀ := (hlinked u).mp hl
  have htimeout₁ : (k₁.timers.timer u).timeoutTick = (k.timers.timer u).timeoutTick := by
    rw [htimers]
  refine ⟨hl₀, htimeout.trans htimeout₁, hpos, ?_⟩
  rw [rel_congr htick htimeout, hrel u hl₀]

/-! ## Runs -/

variable {s₀ s s' : State} {op : Op}

theorem step_kept (hok : Ok c s) (hd : Discipline c s.kernel) (hop : op ≠ .thread .tickIncrease)
    (hs : step c s op = some s') : TimersKept c s.kernel.currentThread s.kernel s'.kernel := by
  obtain ⟨o, rfl, ho⟩ | ⟨hne, t, p, -, hcall⟩ := step_cases hs
  · obtain ⟨hotimeout, -, k, hk, rfl⟩ := threadStep_eq ho
    exact threadOp_kept hd hok.inv hotimeout (fun heq => hop (congrArg Op.thread heq)) hk
  · obtain ⟨s₁, ha, rfl | hsched⟩ := call_section hne hcall
    · exact ha.kept hok hd
    · obtain ⟨k, hk, rfl⟩ := schedule_eq hsched
      have htimers := rtSchedule_timers (ha.ok hok).inv hk
      exact (ha.kept hok hd).trans (.of_timers htimers)

theorem step_ticked (hok : Ok c s) (hd : Discipline c s.kernel) (hp : Punctual c s.kernel)
    (hs : step c s (.thread .tickIncrease) = some s') : Ticked c s.kernel s'.kernel := by
  obtain ⟨-, -, k, hk, rfl⟩ := threadStep_eq (show threadStep c s .tickIncrease = some s' from hs)
  exact rtTickIncrease_ticked hd hok.inv hp hk

theorem step_punctual (hok : Ok c s) (hd : Discipline c s.kernel) (hp : Punctual c s.kernel)
    (hs : step c s op = some s') : Punctual c s'.kernel := by
  by_cases hop : op = .thread .tickIncrease
  · subst hop
    obtain ⟨horder, -, hkept⟩ := step_ticked hok hd hp hs
    exact ⟨horder, fun u hu => (hkept u hu).2.2.1.le⟩
  · exact (step_kept hok hd hop hs).punctual hp

theorem Initial.punctual (h : Initial c s) : Punctual c s.kernel := by
  obtain ⟨thread, tick, -, hk⟩ := h.kernel
  rw [hk]
  exact ⟨Timer.inv_init tick fun _ => by decide, fun u hu => absurd hu List.not_mem_nil⟩

/-- What is known of the kernel in every reachable state. -/
structure Sound (c : Config) (s : State) : Prop where
  ok : Ok c s
  discipline : Discipline c s.kernel
  punctual : Punctual c s.kernel

theorem Initial.sound (h : Initial c s) : Sound c s := ⟨h.ok, h.discipline, h.punctual⟩

theorem Sound.step (h : Sound c s) (hop : Permitted c op) (hs : step c s op = some s') :
    Sound c s' :=
  ⟨step_ok h.ok hop hs, step_discipline h.ok h.discipline hs,
    step_punctual h.ok h.discipline h.punctual hs⟩

theorem run_sound (hinit : Initial c s₀) {ops : List Op} (hops : ∀ op ∈ ops, Permitted c op)
    (hrun : Runs.run (System.step c) s₀ ops = some s) : Sound c s :=
  Runs.run_invariant_along (fun _ _ _ h hop hs => h.step hop hs) hinit.sound
    (Runs.along_of_forall hops _) hrun

end RtThread.System
