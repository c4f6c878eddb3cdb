import RtThread.SystemSections
import RtThread.TimerFlags

/-!
# The timers of the threads

The built-in timer of a thread is linked only while the thread is suspended. Every
function that starts the timer has suspended its thread before, and every function
that takes a thread out of `SUSPEND` stops or detaches the timer, or is called for a
timer that the check has just unlinked.
-/
namespace RtThread.System

open Scheduler Thread ReadyQueue Rotation
open Timer (Linked Linkage)

/-- The thread timers are one-shot timers of the hard list, no callback is running, and a linked
timer belongs to a suspended thread. -/
structure Discipline (c : Config) (k : Kernel) : Prop where
  linkage : Linkage True c.timer k.timers
  mode : ∀ t, (k.timers.timer t).kind = .hard ∧ (k.timers.timer t).periodic = false
  idle : ∀ l, k.timers.inCallback l = none
  suspended : ∀ t, Linked c.timer k.timers t → (k.thread t).stat = .suspend

/-- The timers are as before, and no thread has left `SUSPEND`. -/
structure Steady (k k' : Kernel) : Prop where
  timers : k'.timers = k.timers
  stat : ∀ u, (k.thread u).stat = .suspend → (k'.thread u).stat = .suspend

variable {c : Config} {k k₁ k₂ k' : Kernel} {t : ThreadId}

theorem Steady.refl (k : Kernel) : Steady k k := ⟨rfl, fun _ h => h⟩

theorem Steady.trans (h : Steady k k₁) (h' : Steady k₁ k₂) : Steady k k₂ :=
  ⟨h'.timers.trans h.timers, fun u hu => h'.stat u (h.stat u hu)⟩

theorem Discipline.steady (h : Discipline c k) (hs : Steady k k') : Discipline c k' := by
  obtain ⟨ht, hstat⟩ := hs
  exact ⟨ht ▸ h.linkage, ht ▸ h.mode, ht ▸ h.idle, fun u hu => hstat u (h.suspended u (ht ▸ hu))⟩

/-! ## The parts of the kernel -/

theorem steady_setThread {x : Thread} (hx : (k.thread t).stat = .suspend → x.stat = .suspend) :
    Steady k (setThread k t x) := by
  refine ⟨rfl, fun u hu => ?_⟩
  rw [setThread_stat]
  split
  · rename_i hut
    exact hx (hut ▸ hu)
  · exact hu

theorem remove_timers (c : Config) (k : Kernel) (t : ThreadId) :
    (rtScheduleRemoveThread c k t).timers = k.timers := by
  obtain ⟨table, group, h⟩ := remove_frame c k t
  rw [h]
  rfl

theorem remove_steady (c : Config) (k : Kernel) (t : ThreadId) :
    Steady k (rtScheduleRemoveThread c k t) :=
  ⟨remove_timers c k t, fun u hu => by rw [remove_thread]; exact hu⟩

theorem insert_timers (c : Config) (k : Kernel) (t : ThreadId) :
    (rtScheduleInsertThread c k t).timers = k.timers := by
  unfold rtScheduleInsertThread
  split
  · rfl
  · rfl

theorem insert_stat (c : Config) (k : Kernel) {t u : ThreadId} (hu : u ≠ t) :
    ((rtScheduleInsertThread c k t).thread u).stat = (k.thread u).stat := by
  unfold rtScheduleInsertThread
  split
  · rw [setStat, setThread_other _ _ _ _ hu]
  · rw [link_thread, setStat, setThread_other _ _ _ _ hu]

theorem insert_currentThread (c : Config) (k : Kernel) (t : ThreadId) :
    (rtScheduleInsertThread c k t).currentThread = k.currentThread := by
  unfold rtScheduleInsertThread
  split
  · rfl
  · rfl

/-- A schedule leaves the processor to some thread. -/
theorem rtSchedule_current (h : Inv c k) (hs : rtSchedule c k = some k')
    (hcur : k.currentThread ≠ none) : k'.currentThread ≠ none := by
  obtain ⟨rfl, _⟩ | ⟨_, _, _, _, _, _, _, ⟨_, hk⟩ | ⟨_, hsw⟩⟩ := rtSchedule_outcome h hs
  · exact hcur
  · rw [hk.currentThread]
    simp
  · rw [hsw.currentThread]
    simp

theorem rtSchedule_timers (h : Inv c k) (hs : rtSchedule c k = some k') :
    k'.timers = k.timers := by
  obtain ⟨rfl, _⟩ | ⟨current, toThread, _, _, _, _, _, ⟨_, rfl⟩ | ⟨_, rfl⟩⟩ :=
    rtSchedule_cases h hs
  · rfl
  · obtain ⟨flag, he⟩ := clearYield_frame k current
    rw [he]
    exact remove_timers c _ current
  · obtain ⟨flag, he⟩ := clearYield_frame k current
    rw [he]
    simp only [switchTo]
    split
    · exact (remove_timers c _ toThread).trans (insert_timers c _ current)
    · exact remove_timers c _ toThread

theorem rtSchedule_steady (h : Inv c k) (hs : rtSchedule c k = some k') : Steady k k' := by
  refine ⟨rtSchedule_timers h hs, fun u hu => ?_⟩
  obtain ⟨rfl, _⟩ | ⟨current, toThread, p, _, _, hto, _, ⟨_, hk⟩ | ⟨_, hsw⟩⟩ :=
    rtSchedule_outcome h hs
  · exact hu
  · rw [hk.stat, hu]
  · have hne : u ≠ toThread := by
      rintro rfl
      rw [(head_queued h hto).1] at hu
      simp at hu
    rw [hsw.stat, if_neg hne, hu]
    simp

theorem changePriority_steady (c : Config) (k : Kernel) (t : ThreadId) (p : Nat) :
    Steady k (changePriority c k t p) := by
  unfold changePriority
  split
  · rename_i hready
    refine ⟨(insert_timers c _ t).trans (remove_timers c k t), fun u hu => ?_⟩
    have hut : u ≠ t := by
      rintro rfl
      rw [hready] at hu
      simp at hu
    rw [insert_stat c _ hut, setThread_other _ _ _ _ hut, remove_thread]
    exact hu
  · exact steady_setThread fun hs => by simpa using hs

/-! ## The functions that touch a timer -/

/-- `rt_timer_stop` leaves a timer unlinked, and the others as they are. -/
theorem linked_stop (h : Discipline c k) (t u : ThreadId)
    (hu : Linked c.timer (Timer.rtTimerStop k.timers t).1 u) : u ≠ t ∧ Linked c.timer k.timers u := by
  unfold Timer.rtTimerStop at hu
  split at hu
  · refine ⟨?_, ?_⟩
    · rintro rfl
      simp [Linked, Timer.setTimer, Timer.timerRemove] at hu
    · by_cases hut : u = t
      · subst hut
        simp [Linked, Timer.setTimer, Timer.timerRemove] at hu
      · simpa [Linked, Timer.setTimer, Timer.timerRemove, hut] using hu
  · rename_i hoff
    refine ⟨?_, hu⟩
    rintro rfl
    exact hoff (h.linkage.flagged u hu)

theorem linked_detach {s : Timer.State} {u : ThreadId}
    (hu : Linked c.timer (Timer.rtTimerDetach s t) u) : u ≠ t ∧ Linked c.timer s u := by
  by_cases hut : u = t
  · subst hut
    simp [Linked, Timer.rtTimerDetach, Timer.setTimer, Timer.timerRemove] at hu
  · refine ⟨hut, ?_⟩
    simpa [Linked, Timer.rtTimerDetach, Timer.setTimer, Timer.timerRemove, hut] using hu

theorem mode_stop (s : Timer.State) (t u : ThreadId) :
    (((Timer.rtTimerStop s t).1.timer u).kind = (s.timer u).kind ∧
      ((Timer.rtTimerStop s t).1.timer u).periodic = (s.timer u).periodic) ∧
      (Timer.rtTimerStop s t).1.inCallback = s.inCallback := by
  unfold Timer.rtTimerStop
  split
  · by_cases hu : u = t
    · subst hu
      simp [Timer.setTimer, Timer.timerRemove]
    · simp [Timer.setTimer, Timer.timerRemove, hu]
  · simp

/-- Stopping the timer of a thread whose state then may change. -/
theorem Discipline.stop (h : Discipline c k) (ht : k'.timers = (Timer.rtTimerStop k.timers t).1)
    (hstat : ∀ u, u ≠ t → (k.thread u).stat = .suspend → (k'.thread u).stat = .suspend) :
    Discipline c k' := by
  refine ⟨ht ▸ h.linkage.stop t, fun u => ?_, fun l => ?_, fun u hu => ?_⟩
  · rw [ht, (mode_stop k.timers t u).1.1, (mode_stop k.timers t u).1.2]
    exact h.mode u
  · rw [ht, (mode_stop k.timers t t).2]
    exact h.idle l
  · rw [ht] at hu
    obtain ⟨hut, hu⟩ := linked_stop h t u hu
    exact hstat u hut (h.suspended u hu)

theorem rtThreadResume_discipline (h : Discipline c k) (t : ThreadId) :
    Discipline c (rtThreadResume c k t).1 := by
  unfold rtThreadResume
  split
  · exact h
  · refine h.stop (t := t) (insert_timers c _ t) fun u hu hs => ?_
    rw [insert_stat c _ hu]
    exact hs

theorem rtThreadSuspend_discipline {e : RtErr} (h : Discipline c k)
    (hs : rtThreadSuspend c k t = some (k', e)) : Discipline c k' := by
  unfold rtThreadSuspend at hs
  split at hs
  · split at hs
    · cases hs
      refine h.stop (t := t) ?_ fun u hu hsus => ?_
      · dsimp only [setStat, setThread]
        rw [remove_timers]
      · rw [setStat, setThread_other _ _ _ _ hu, remove_thread]
        exact hsus
    · cases hs
      exact h
  · simp at hs

/-- The current thread is suspended after `rt_thread_suspend`, unless it has been closed. -/
theorem rtThreadSuspend_stat {e : RtErr} (hinv : Inv c k)
    (hs : rtThreadSuspend c k t = some (k', e)) :
    (k'.thread t).stat = .suspend ∨ (k'.thread t).stat = .close := by
  unfold rtThreadSuspend at hs
  split at hs
  · rename_i hcur
    split at hs
    · cases hs
      left
      simp [setStat]
    · rename_i hnot
      cases hs
      have hm := hinv.current t hcur
      rw [not_or] at hnot
      cases hst : (k.thread t).stat with
      | init => exact absurd hst hm.not_init
      | ready => exact absurd hst hnot.1
      | suspend => exact .inl rfl
      | running => exact absurd hst hnot.2
      | close => exact .inr rfl
  · simp at hs

theorem mode_start (s : Timer.State) (t u : ThreadId) :
    (Timer.rtTimerStart c.timer s t).inCallback = s.inCallback ∧
      ((Timer.rtTimerStart c.timer s t).timer u).kind = (s.timer u).kind ∧
      ((Timer.rtTimerStart c.timer s t).timer u).periodic = (s.timer u).periodic :=
  ⟨rfl, (Timer.timer_rtTimerStart u).1, (Timer.timer_rtTimerStart u).2.1⟩

/-- The timer of a suspended thread may be set and started. -/
theorem Discipline.start (h : Discipline c k) (hs : (k.thread t).stat = .suspend) {tick : Tick}
    {r : Timer.State × Option Tick}
    (hr : Timer.rtTimerControl k.timers t (.setTime tick) = some r) :
    Discipline c { k with timers := Timer.rtTimerStart c.timer r.1 t } := by
  have hl := h.linkage.control hr
  rw [Timer.rtTimerControl] at hr
  split at hr
  · cases hr
    have hmode : ∀ u, ((Timer.setTimer k.timers t
        { k.timers.timer t with initTick := tick }).timer u).kind = (k.timers.timer u).kind ∧
        ((Timer.setTimer k.timers t
          { k.timers.timer t with initTick := tick }).timer u).periodic =
          (k.timers.timer u).periodic := by
      intro u
      by_cases hu : u = t
      · subst hu
        simp [Timer.setTimer]
      · simp [Timer.setTimer, hu]
    refine ⟨hl.start t, fun u => ?_, h.idle, fun u hu => ?_⟩
    · rw [(mode_start _ t u).2.1, (mode_start _ t u).2.2, (hmode u).1, (hmode u).2]
      exact h.mode u
    · obtain rfl | hu := (Timer.linked_rtTimerStart hl u).mp hu
      · exact hs
      · refine h.suspended u ?_
        rw [Linked, (hmode u).1] at hu
        exact hu
  · simp at hr

theorem suspendFor_discipline {timeout : BitVec 32} (h : Discipline c k) (hinv : Inv c k)
    (hs : suspendFor c k t timeout = some k') : Discipline c k' := by
  obtain ⟨⟨k₁, e⟩, h₁, hs⟩ := Option.bind_eq_some_iff.mp hs
  have h₀ : Discipline c (setThread k t { k.thread t with error := .eok }) :=
    h.steady (steady_setThread fun hs => hs)
  have hinv₀ : Inv c (setThread k t { k.thread t with error := .eok }) :=
    hinv.setThread rfl rfl rfl rfl rfl
  have hd := rtThreadSuspend_discipline h₀ h₁
  have hstat := rtThreadSuspend_stat hinv₀ h₁
  replace hs : startThreadTimer c k₁ t timeout = some k' := hs
  unfold startThreadTimer at hs
  split at hs
  · split at hs
    · simp at hs
    · rename_i hclose
      obtain ⟨r, hr, rfl⟩ := Option.map_eq_some_iff.mp hs
      exact hd.start (hstat.resolve_right hclose) hr
  · cases hs
    exact hd

theorem closeThread_discipline (h : Discipline c k) (hs : Steady k k₁) :
    Discipline c (closeThread k₁ t) := by
  have h₁ := h.steady hs
  refine ⟨h₁.linkage.detach t, fun u => ?_, h₁.idle, fun u hu => ?_⟩
  · by_cases hu : u = t
    · subst hu
      simpa [closeThread, Timer.rtTimerDetach, Timer.setTimer, Timer.timerRemove, setThread]
        using h₁.mode u
    · simpa [closeThread, Timer.rtTimerDetach, Timer.setTimer, Timer.timerRemove, setThread, hu]
        using h₁.mode u
  · obtain ⟨hut, hu⟩ := linked_detach hu
    have hsus := h₁.suspended u hu
    simpa [closeThread, setThread, hut] using hsus

/-! ## The timer check -/

theorem linked_pop {timers : Timer.State} (h : Discipline c k)
    (hp : Timer.timerCheckPop c.timer k.timers .hard = some (timers, t)) :
    Linked c.timer k.timers t ∧ (∀ u, Linked c.timer timers u → u ≠ t ∧ Linked c.timer k.timers u) ∧
      (∀ u, (timers.timer u).kind = .hard ∧ (timers.timer u).periodic = false) ∧
      (∀ l, l ≠ .hard → timers.inCallback l = none) ∧ timers.inCallback .hard = some t := by
  rw [Timer.timerCheckPop] at hp
  split at hp
  · simp at hp
  · rename_i x rest hrow
    split at hp
    · obtain ⟨rfl, rfl⟩ := pair_inj hp
      refine ⟨?_, fun u hu => ?_, fun u => ?_, fun l hl => ?_, ?_⟩
      · rw [Linked, (h.mode x).1, hrow]
        exact List.mem_cons_self
      · by_cases hux : u = x
        · subst hux
          simp [Linked, Timer.setTimer, Timer.timerRemove] at hu
        · refine ⟨hux, ?_⟩
          simpa [Linked, Timer.setTimer, Timer.timerRemove, hux] using hu
      · by_cases hux : u = x
        · subst hux
          simpa [Timer.setTimer, Timer.timerRemove] using h.mode u
        · simpa [Timer.setTimer, Timer.timerRemove, hux] using h.mode u
      · simpa [Timer.setTimer, Timer.timerRemove, hl] using h.idle l
      · simp
    · simp at hp

/-- A one-shot timer that the check has popped is not flagged any more. -/
theorem pop_unflagged {s timers : Timer.State} (hmode : (s.timer t).periodic = false)
    (hp : Timer.timerCheckPop c.timer s .hard = some (timers, t)) :
    (timers.timer t).activated = false := by
  rw [Timer.timerCheckPop] at hp
  split at hp
  · simp at hp
  · split at hp
    · cases hp
      simp [Timer.setTimer, Timer.timerRemove, hmode]
    · simp at hp

/-- After the callback of a one-shot timer the check leaves the timer alone. -/
theorem finish_eq {timers : Timer.State} (hoff : (timers.timer t).activated = false) :
    (Timer.timerCheckFinish c.timer timers .hard t).timer = timers.timer ∧
      (Timer.timerCheckFinish c.timer timers .hard t).rows = timers.rows ∧
      (Timer.timerCheckFinish c.timer timers .hard t).inCallback =
        Function.update timers.inCallback .hard none := by
  simp only [Timer.timerCheckFinish]
  split
  · exact ⟨rfl, rfl, rfl⟩
  · rw [hoff]
    simp

theorem timedOut_timers (c : Config) (k : Kernel) (t : ThreadId) :
    (timedOut c k t).timers = k.timers :=
  insert_timers c _ t

theorem timedOut_stat (c : Config) (k : Kernel) {t u : ThreadId} (hu : u ≠ t) :
    ((timedOut c k t).thread u).stat = (k.thread u).stat := by
  rw [timedOut, insert_stat c _ hu]
  simp [rtListRemove, setThread, hu]

/-- One round of the check: the timer was linked, so its thread is suspended, and the callback
makes the thread ready. -/
theorem checkRound (h : Discipline c k) (hinv : Inv c k) {timers : Timer.State}
    (hp : Timer.timerCheckPop c.timer k.timers .hard = some (timers, t)) :
    (k.thread t).stat = .suspend ∧
      ∀ k₁, threadTimeout c { k with timers := timers } t = some k₁ →
        Discipline c { k₁ with timers := Timer.timerCheckFinish c.timer k₁.timers .hard t } := by
  obtain ⟨hl, hlinked, hmode, hidle, hcall⟩ := linked_pop h hp
  have hlink : Linkage True c.timer timers := h.linkage.checkPop (h.idle .hard) hp
  have hsus := h.suspended t hl
  have hoff := pop_unflagged (h.mode t).2 hp
  refine ⟨hsus, fun k₁ hk₁ => ?_⟩
  have hinv' : Inv c { k with timers := timers } := hinv.congr rfl rfl rfl rfl rfl
  obtain ⟨_, hk₁⟩ := threadTimeout_cases hk₁
  have hst := rtSchedule_steady (timedOut_inv hinv' hsus) hk₁
  have htimers : k₁.timers = timers := hst.timers.trans (timedOut_timers c _ t)
  obtain ⟨hft, hfr, hfc⟩ := finish_eq (c := c) hoff
  rw [htimers]
  refine ⟨hlink.checkFinish hcall ?_, fun u => ?_, fun l => ?_, fun u hu => ?_⟩
  · intro _ u hu hon
    obtain rfl : u = t := Option.some.inj ((hlink.awaiting .hard u hu).2.1.symm.trans hcall)
    rw [hoff] at hon
    simp at hon
  · rw [hft]
    exact hmode u
  · rw [hfc]
    by_cases hlh : l = .hard
    · simp [hlh]
    · simpa [hlh] using hidle l hlh
  · rw [Linked, hft, hfr] at hu
    obtain ⟨hut, hu⟩ := hlinked u hu
    refine hst.stat u ?_
    rw [timedOut_stat c _ hut]
    exact h.suspended u hu

/-- The check never fails an assertion, and keeps the discipline. -/
theorem timerCheckLoop_discipline (n : Nat) (h : Discipline c k) (hinv : Inv c k)
    (hcur : k.currentThread ≠ none) :
    ∃ k', timerCheckLoop c n k = some k' ∧ Discipline c k' := by
  induction n generalizing k with
  | zero => exact ⟨k, rfl, h⟩
  | succ n ih =>
    unfold timerCheckLoop
    split
    · exact ⟨k, rfl, h⟩
    · rename_i timers t hp
      obtain ⟨hsus, hround⟩ := checkRound h hinv hp
      have hinv' : Inv c { k with timers := timers } := hinv.congr rfl rfl rfl rfl rfl
      have hinv₁ := timedOut_inv hinv' hsus
      have hcur₁ : (timedOut c { k with timers := timers } t).currentThread = k.currentThread :=
        insert_currentThread c _ t
      obtain ⟨u, hu⟩ := Option.ne_none_iff_exists'.mp hcur
      obtain ⟨k₁, hk₁⟩ := rtSchedule_isSome hinv₁ (hcur₁.trans hu)
      have hto : threadTimeout c { k with timers := timers } t = some k₁ := by
        rw [threadTimeout, if_pos hsus]
        exact hk₁
      have hinv₂ : Inv c { k₁ with
          timers := Timer.timerCheckFinish c.timer k₁.timers .hard t } :=
        (rtSchedule_inv hinv₁ hk₁).congr rfl rfl rfl rfl rfl
      have hcur₂ : k₁.currentThread ≠ none := by
        refine rtSchedule_current hinv₁ hk₁ ?_
        rw [hcur₁]
        exact hcur
      obtain ⟨k', hk', hd⟩ := ih (hround k₁ hto) hinv₂ hcur₂
      refine ⟨k', ?_, hd⟩
      rw [hto]
      exact hk'

theorem Discipline.tick (h : Discipline c k) : Discipline c { k with
    timers := { k.timers with tick := k.timers.tick + 1 } } :=
  ⟨⟨h.linkage.nested, h.linkage.own, h.linkage.flagged, h.linkage.found, h.linkage.awaiting⟩,
    h.mode, h.idle, h.suspended⟩

theorem tickSlice_discipline (h : Discipline c k) (hinv : Inv c k)
    (hs : tickSlice c k = some k') : Discipline c k' := by
  obtain ⟨t, n, b, hinv₂, hs⟩ := tickSlice_cases hinv hs
  have hst : Discipline c (sliced k t n b) := h.tick.steady (steady_setThread fun hs => hs)
  obtain hs | rfl := hs
  · exact hst.steady (rtSchedule_steady hinv₂ hs)
  · exact hst

theorem tickSlice_isSome (hinv : Inv c k) (hcur : k.currentThread = some t) :
    ∃ k', tickSlice c k = some k' ∧ k'.currentThread ≠ none := by
  set k₁ : Kernel := { k with timers := { k.timers with tick := k.timers.tick + 1 } }
  have hinv₁ : Inv c k₁ := hinv.congr rfl rfl rfl rfl rfl
  have hcur₁ : k₁.currentThread = some t := hcur
  by_cases hz : (k₁.thread t).remainingTick - 1 = 0
  · have hinv₂ : Inv c (setThread k₁ t
        { k₁.thread t with remainingTick := (k₁.thread t).initTick, yieldFlag := true }) :=
      hinv₁.setThread rfl rfl rfl rfl rfl
    obtain ⟨k', hk'⟩ := rtSchedule_isSome hinv₂ hcur₁
    refine ⟨k', Option.bind_eq_some_iff.mpr ⟨t, hcur, ?_⟩, ?_⟩
    · exact (if_pos hz).trans hk'
    · refine rtSchedule_current hinv₂ hk' ?_
      rw [setThread_currentThread, hcur₁]
      simp
  · refine ⟨setThread k₁ t { k₁.thread t with remainingTick := (k₁.thread t).remainingTick - 1 },
      Option.bind_eq_some_iff.mpr ⟨t, hcur, ?_⟩, ?_⟩
    · exact if_neg hz
    · rw [setThread_currentThread, hcur₁]
      simp

/-- A tick: the assertion of `_thread_timeout` does not fail for any of the timers that expire. -/
theorem rtTickIncrease_discipline (h : Discipline c k) (hinv : Inv c k)
    (hcur : k.currentThread ≠ none) : ∃ k', rtTickIncrease c k = some k' ∧ Discipline c k' := by
  obtain ⟨t, ht⟩ := Option.ne_none_iff_exists'.mp hcur
  obtain ⟨k₁, hk₁, hcur₁⟩ := tickSlice_isSome hinv ht
  obtain ⟨k', hk', hd⟩ := timerCheckLoop_discipline
    (k₁.timers.rows .hard (c.timer.level - 1)).length (tickSlice_discipline h hinv hk₁)
    (tickSlice_inv hinv hk₁) hcur₁
  exact ⟨k', Option.bind_eq_some_iff.mpr ⟨k₁, hk₁, hk'⟩, hd⟩

/-! ## Runs -/

theorem sleepFor_discipline {tick : Tick} (h : Discipline c k) (hinv : Inv c k)
    (hopen : (k.thread t).stat ≠ .close) (hs : sleepFor c k t tick = some k') :
    Discipline c k' := by
  obtain ⟨⟨k₁, e⟩, h₁, hs⟩ := Option.bind_eq_some_iff.mp hs
  obtain ⟨r, hr, hs⟩ := Option.bind_eq_some_iff.mp hs
  have hstat := rtThreadSuspend_stat hinv h₁
  have hsus : (k₁.thread t).stat = .suspend := by
    refine hstat.resolve_right fun hclose => ?_
    unfold rtThreadSuspend at h₁
    split at h₁
    · split at h₁
      · cases h₁
        simp [setStat] at hclose
      · cases h₁
        exact hopen hclose
    · simp at h₁
  have hd := (rtThreadSuspend_discipline h h₁).start hsus hr
  have hinv₂ : Inv c { k₁ with timers := Timer.rtTimerStart c.timer r.1 t } :=
    (rtThreadSuspend_inv hinv h₁).congr rfl rfl rfl rfl rfl
  exact hd.steady (rtSchedule_steady hinv₂ hs)

theorem threadClose_discipline {obj : Bool} (h : Discipline c k)
    (hs : threadClose c obj k t = some k') : Discipline c k' := by
  unfold threadClose at hs
  split at hs
  · split at hs
    · cases hs
      exact h
    · split at hs
      · cases hs
        exact closeThread_discipline h (remove_steady c k t)
      · cases hs
        exact closeThread_discipline h (Steady.refl k)
  · simp at hs

theorem rtThreadStartup_discipline (h : Discipline c k) (hinv : Inv c k)
    (hs : rtThreadStartup c k t = some k') : Discipline c k' := by
  unfold rtThreadStartup at hs
  split at hs
  · rename_i hi
    have hinv₁ := startup_suspend_inv hinv hi
    have hst : Steady k (setThread k t
        { priorityAttribute c (k.thread t) with stat := .suspend, yieldFlag := false }) :=
      steady_setThread fun _ => rfl
    have hd := rtThreadResume_discipline (h.steady hst) t
    dsimp only at hs
    split at hs
    · cases hs
      exact hd
    · exact hd.steady (rtSchedule_steady (rtThreadResume_inv hinv₁ t) hs)
  · simp at hs

theorem rtSystemSchedulerStart_steady (hinv : Inv c k)
    (hs : rtSystemSchedulerStart c k = some k') : Steady k k' := by
  obtain ⟨⟨toThread, p⟩, hto, hs⟩ := Option.bind_eq_some_iff.mp hs
  simp only [schedulerGetHighestPriorityThread, Option.map_eq_some_iff, Prod.mk.injEq] at hto
  obtain ⟨u, hto, rfl, rfl⟩ := hto
  have hready := (head_queued hinv hto).1
  cases hs
  have hst : Steady k (rtScheduleRemoveThread c { k with currentThread := some u } u) := by
    obtain ⟨ht, hstat⟩ := remove_steady c { k with currentThread := some u } u
    exact ⟨ht, hstat⟩
  refine hst.trans (steady_setThread fun hsus => ?_)
  rw [remove_thread] at hsus
  rw [show (k.thread u).stat = .suspend from hsus] at hready
  simp at hready

theorem rtExitCritical_steady (hinv : Inv c k) (hs : rtExitCritical c k = some k') :
    Steady k k' := by
  unfold rtExitCritical at hs
  dsimp only at hs
  split at hs
  · split at hs
    · cases hs
      exact ⟨rfl, fun _ hu => hu⟩
    · have hinv₀ : Inv c { k with schedulerLockNest := 0 } := hinv.congr rfl rfl rfl rfl rfl
      obtain ⟨ht, hstat⟩ := rtSchedule_steady hinv₀ hs
      exact ⟨ht, hstat⟩
  · cases hs
    exact ⟨rfl, fun _ hu => hu⟩

/-- The call does not set the timer of a closed thread. -/
def TimerOpen (k : Kernel) (op : Thread.Op) : Prop :=
  setsTimer k op = true → ∀ t, k.currentThread = some t → (k.thread t).stat ≠ .close

theorem timerOpen_of_guard {op : Thread.Op} (h : (setsTimer k op && currentClosed k) = false) :
    TimerOpen k op := by
  intro hset t ht hclose
  rw [hset, Bool.true_and, currentClosed, ht] at h
  simp [hclose] at h

theorem threadOp_discipline {op : Thread.Op} (h : Discipline c k) (hinv : Inv c k)
    (hop : ∀ u, op ≠ .timeout u) (hopen : TimerOpen k op)
    (hs : Thread.step c k op = some k') : Discipline c k' := by
  cases op with
  | schedulerStart =>
    simp only [Thread.step] at hs
    split at hs
    · exact h.steady (rtSystemSchedulerStart_steady hinv hs)
    · simp at hs
  | startup t => exact rtThreadStartup_discipline h hinv hs
  | suspend t =>
    obtain ⟨⟨k₁, e⟩, h₁, rfl⟩ := Option.map_eq_some_iff.mp hs
    exact rtThreadSuspend_discipline h h₁
  | resume t =>
    cases hs
    exact rtThreadResume_discipline h t
  | yield =>
    obtain ⟨t, _, hs⟩ := Option.bind_eq_some_iff.mp hs
    have hinv₁ : Inv c (setThread k t
        { k.thread t with remainingTick := (k.thread t).initTick, yieldFlag := true }) :=
      hinv.setThread rfl rfl rfl rfl rfl
    have hst : Steady k (setThread k t
        { k.thread t with remainingTick := (k.thread t).initTick, yieldFlag := true }) :=
      steady_setThread fun hs => hs
    exact h.steady (hst.trans (rtSchedule_steady hinv₁ hs))
  | sleep tick =>
    obtain ⟨t, ht, hs⟩ := Option.bind_eq_some_iff.mp hs
    have h₀ : Discipline c (setThread k t { k.thread t with error := .eok }) :=
      h.steady (steady_setThread fun hs => hs)
    refine sleepFor_discipline h₀ (hinv.setThread rfl rfl rfl rfl rfl) ?_ hs
    simpa using hopen rfl t ht
  | delayUntil tick inc =>
    obtain ⟨⟨k₁, last⟩, h₁, rfl⟩ := Option.map_eq_some_iff.mp hs
    obtain ⟨t, ht, h₁⟩ := Option.bind_eq_some_iff.mp h₁
    have h₀ : Discipline c (setThread k t { k.thread t with error := .eok }) :=
      h.steady (steady_setThread fun hs => hs)
    dsimp only at h₁
    split at h₁
    · rename_i hlt
      obtain ⟨k₂, h₂, h₁⟩ := Option.bind_eq_some_iff.mp h₁
      cases h₁
      refine sleepFor_discipline h₀ (hinv.setThread rfl rfl rfl rfl rfl) ?_ h₂
      have hset : setsTimer k (.delayUntil tick inc) = true := decide_eq_true hlt
      simpa using hopen hset t ht
    · cases h₁
      exact h₀
  | sleepReturn =>
    obtain ⟨⟨k₁, e⟩, h₁, rfl⟩ := Option.map_eq_some_iff.mp hs
    obtain ⟨t, _, h₁⟩ := Option.bind_eq_some_iff.mp h₁
    cases h₁
    exact h.steady (steady_setThread fun hs => hs)
  | detach | delete => exact threadClose_discipline h hs
  | exit =>
    obtain ⟨t, hcur, hs⟩ := Option.bind_eq_some_iff.mp hs
    have hx := (hinv.current t hcur).attributed
    have hinv₁ : Inv c (closeThread (rtScheduleRemoveThread c k t) t) := by
      refine (hinv.base.remove hx).closeThread_inv (hinv.remove_current t) ?_
      rw [remove_thread]
      exact fun _ => hx
    exact (closeThread_discipline h (remove_steady c k t)).steady (rtSchedule_steady hinv₁ hs)
  | control t cmd =>
    cases cmd with
    | changePriority p =>
      cases hs
      exact h.steady (changePriority_steady c k t p)
    | startup => exact rtThreadStartup_discipline h hinv hs
    | close =>
      obtain ⟨k₁, h₁, hs⟩ := Option.bind_eq_some_iff.mp hs
      exact (threadClose_discipline h h₁).steady (rtSchedule_steady (threadClose_inv hinv h₁) hs)
  | tickIncrease =>
    obtain ⟨k₁, h₁, _⟩ := Option.bind_eq_some_iff.mp hs
    obtain ⟨t, hcur, _⟩ := Option.bind_eq_some_iff.mp h₁
    obtain ⟨k₂, hk₂, hd⟩ := rtTickIncrease_discipline h hinv (by rw [hcur]; simp)
    cases hk₂.symm.trans hs
    exact hd
  | timeout t => exact absurd rfl (hop t)
  | schedule => exact h.steady (rtSchedule_steady hinv hs)
  | enterCritical =>
    cases hs
    exact h.steady ⟨rfl, fun _ hu => hu⟩
  | exitCritical => exact h.steady (rtExitCritical_steady hinv hs)

variable {s s' : State}

theorem Acts.discipline (ha : Acts c s s') (hok : Ok c s) (h : Discipline c s.kernel) :
    Discipline c s'.kernel := by
  induction ha with
  | refl => exact h
  | data _ hd ih => exact hd.kernel ▸ ih
  | setMutex _ _ _ _ ih => exact ih
  | setEventInfo _ _ _ _ _ ih => exact ih
  | setError t _ _ ih => exact ih.steady (steady_setThread fun hs => hs)
  | setPriority t q _ _ ih => exact ih.steady (changePriority_steady c _ t q)
  | resume t _ ih =>
    unfold System.resume
    split
    · exact rtThreadResume_discipline ih t
    · exact ih
  | suspendFor ha hk _ _ ih => exact suspendFor_discipline ih (ha.ok hok).inv hk

theorem step_discipline {op : Op} (hok : Ok c s) (h : Discipline c s.kernel)
    (hs : step c s op = some s') : Discipline c s'.kernel := by
  obtain ⟨o, rfl, ho⟩ | ⟨hne, t, p, _, hcall⟩ := step_cases hs
  · obtain ⟨hop, hguard, k, hk, rfl⟩ := threadStep_eq ho
    exact threadOp_discipline h hok.inv hop (timerOpen_of_guard hguard) hk
  · obtain ⟨s₁, ha, rfl | hs⟩ := call_section hne hcall
    · exact ha.discipline hok h
    · obtain ⟨k, hk, rfl⟩ := schedule_eq hs
      exact (ha.discipline hok h).steady (rtSchedule_steady (ha.ok hok).inv hk)

theorem Initial.discipline (h : Initial c s) : Discipline c s.kernel := by
  obtain ⟨thread, tick, _, hk⟩ := h.kernel
  rw [hk]
  exact ⟨Timer.linkage_init True c.timer tick fun _ => rfl, fun _ => ⟨rfl, rfl⟩, fun _ => rfl,
    fun t ht => absurd ht List.not_mem_nil⟩

theorem run_discipline {s₀ : State} (hinit : Initial c s₀) {ops : List Op}
    (hops : ∀ op ∈ ops, Permitted c op) (hrun : Runs.run (step c) s₀ ops = some s) :
    Ok c s ∧ Discipline c s.kernel := by
  refine @Runs.run_invariant_along _ _ (step c) (fun _ => Permitted c)
    (fun s => Ok c s ∧ Discipline c s.kernel) ?_ _ _ _ ?_ (Runs.along_of_forall hops _) hrun
  · exact fun _ _ _ h hop hs => ⟨step_ok h.1 hop hs, step_discipline h.1 h.2 hs⟩
  · exact ⟨hinit.ok, hinit.discipline⟩

/-- In every reachable state a thread whose timer is linked, in any row of a timer list, is
suspended; and a tick never fails the assertion of `_thread_timeout`, whichever timers expire, so
that it resumes suspended threads only. -/
theorem thread_timer_discipline {s₀ : State} (hinit : Initial c s₀) {ops : List Op}
    (hops : ∀ op ∈ ops, Permitted c op) (hrun : Runs.run (step c) s₀ ops = some s) :
    (∀ t l r, r < c.timer.level → t ∈ s.kernel.timers.rows l r →
      (s.kernel.thread t).stat = .suspend) ∧
    (s.kernel.currentThread ≠ none → ∃ k', rtTickIncrease c s.kernel = some k') := by
  obtain ⟨hok, hd⟩ := run_discipline hinit hops hrun
  refine ⟨fun t l r hr ht => hd.suspended t (hd.linkage.linked_of_mem hr ht), fun hcur => ?_⟩
  obtain ⟨k', hk', _⟩ := rtTickIncrease_discipline hd hok.inv hcur
  exact ⟨k', hk'⟩

/-- Two threads wait for a semaphore, for two ticks and for one; a third one resumes the first. -/
def twoWaiters : List Op :=
  [.thread (.startup 0), .thread (.startup 1), .thread (.startup 2), .thread .schedulerStart,
    .semTake 0 2, .semTake 0 1, .semRelease 0]

theorem thread_timer_discipline_waiters :
    ∃ s, Runs.run (step smallConfig) trioState twoWaiters = some s ∧
      s.kernel.timers.rows .hard 0 = [0] ∧ (s.kernel.thread 0).stat = .suspend ∧
      ∃ k', rtTickIncrease smallConfig s.kernel = some k' := by
  have hlast : ((Runs.run (step smallConfig) trioState twoWaiters).map fun s =>
      (s.kernel.timers.rows .hard 0, s.kernel.currentThread)) = some ([0], some 1) := by
    decide +kernel
  obtain ⟨s, hs, hval⟩ := Option.map_eq_some_iff.mp hlast
  obtain ⟨hrow, hcur⟩ := Prod.mk.inj hval
  have hops : ∀ op ∈ twoWaiters, Permitted smallConfig op := by
    simp [twoWaiters, Permitted, ReadyQueue.Permitted]
  obtain ⟨hsus, htick⟩ := thread_timer_discipline trio_initial hops hs
  refine ⟨s, hs, hrow, hsus 0 .hard 0 (by decide) ?_, htick ?_⟩
  · rw [hrow]
    exact List.mem_cons_self
  · rw [hcur]
    simp

end RtThread.System
