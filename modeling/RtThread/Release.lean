import RtThread.SystemSections

/-!
# Priorities after a release

A function that releases something returns to its caller at once, or after a
schedule; when the schedule takes the processor away, it returns once the caller
is the current thread again. Right after a schedule no `READY` thread is more
urgent than the current one. Without a schedule the caller goes on beside the
threads that were `READY` before, and `rt_mutex_release` may have lowered its
priority.
-/
namespace RtThread.System

open Scheduler Thread ReadyQueue Rotation

/-- No `READY` thread is more urgent than the thread. -/
def NoInversion (k : Kernel) (t : ThreadId) : Prop :=
  ∀ u, (k.thread u).stat = .ready → (k.thread t).currentPriority ≤ (k.thread u).currentPriority

/-- No `READY` thread is more urgent than the current one. -/
def Settled (k : Kernel) : Prop := ∀ t, k.currentThread = some t → NoInversion k t

/-- The current thread and the lock of the scheduler are as before. -/
structure Calm (k k' : Kernel) : Prop where
  current : k'.currentThread = k.currentThread
  lock : k'.schedulerLockNest = k.schedulerLockNest

variable {c : Config} {k k₁ k₂ k' : Kernel} {t : ThreadId}

theorem Calm.trans (h : Calm k k₁) (h' : Calm k₁ k₂) : Calm k k₂ :=
  ⟨h'.current.trans h.current, h'.lock.trans h.lock⟩

theorem calm_setThread (k : Kernel) (t : ThreadId) (x : Thread) : Calm k (setThread k t x) :=
  ⟨rfl, rfl⟩

theorem calm_remove (c : Config) (k : Kernel) (t : ThreadId) :
    Calm k (rtScheduleRemoveThread c k t) := by
  obtain ⟨table, group, h⟩ := remove_frame c k t
  rw [h]
  exact ⟨rfl, rfl⟩

theorem calm_insert (c : Config) (k : Kernel) (t : ThreadId) :
    Calm k (rtScheduleInsertThread c k t) := by
  unfold rtScheduleInsertThread
  split
  · exact ⟨rfl, rfl⟩
  · exact ⟨rfl, rfl⟩

theorem calm_resume (c : Config) (k : Kernel) (t : ThreadId) : Calm k (rtThreadResume c k t).1 := by
  unfold rtThreadResume
  split
  · exact ⟨rfl, rfl⟩
  · obtain ⟨h₁, h₂⟩ := calm_insert c
      { rtListRemove k t with timers := (Timer.rtTimerStop k.timers t).1 } t
    exact ⟨h₁, h₂⟩

theorem calm_suspend {e : RtErr} (h : rtThreadSuspend c k t = some (k', e)) : Calm k k' := by
  unfold rtThreadSuspend at h
  split at h
  · split at h
    · cases h
      obtain ⟨h₁, h₂⟩ := calm_remove c k t
      exact ⟨h₁, h₂⟩
    · cases h
      exact ⟨rfl, rfl⟩
  · simp at h

variable {timeout : BitVec 32} {i : ObjId} {q size : Nat} {data : List MessageQueue.Byte}
  {slot : MessageQueue.Slot}

theorem calm_suspendFor (h : suspendFor c k t timeout = some k') : Calm k k' := by
  obtain ⟨⟨k₁, e⟩, h₁, h⟩ := Option.bind_eq_some_iff.mp h
  obtain ⟨timers, rfl⟩ := startThreadTimer_eq h
  obtain ⟨hc, hl⟩ := calm_suspend h₁
  exact ⟨hc, hl⟩

theorem calm_changePriority (c : Config) (k : Kernel) (t : ThreadId) (p : Nat) :
    Calm k (changePriority c k t p) := by
  unfold changePriority
  split
  · exact (calm_remove c k t).trans ((calm_setThread _ t _).trans (calm_insert c _ t))
  · exact calm_setThread k t _

theorem calm_close (h : Calm k k₁) (t : ThreadId) : Calm k (closeThread k₁ t) := ⟨h.current, h.lock⟩

theorem calm_threadClose {obj : Bool} (h : threadClose c obj k t = some k') : Calm k k' := by
  unfold threadClose at h
  split at h
  · split at h
    · cases h
      exact ⟨rfl, rfl⟩
    · split at h
      · cases h
        exact calm_close (calm_remove c k t) t
      · cases h
        exact calm_close ⟨rfl, rfl⟩ t
  · simp at h

/-! ## A schedule -/

theorem rtSchedule_lock (h : Inv c k) (hs : rtSchedule c k = some k') :
    k'.schedulerLockNest = k.schedulerLockNest := by
  obtain ⟨rfl, _⟩ | ⟨current, toThread, _, _, _, _, _, ⟨_, rfl⟩ | ⟨_, rfl⟩⟩ :=
    rtSchedule_cases h hs
  · rfl
  · obtain ⟨flag, he⟩ := clearYield_frame k current
    rw [he]
    exact (calm_remove c _ current).lock
  · obtain ⟨flag, he⟩ := clearYield_frame k current
    rw [he]
    simp only [switchTo]
    split
    · exact ((calm_insert c _ current).trans (calm_remove c _ toThread)).lock
    · exact (calm_remove c _ toThread).lock

/-- Right after a schedule no ready thread is more urgent than the current one. -/
theorem rtSchedule_settled (h : Inv c k) (hlock : k.schedulerLockNest = 0)
    (hs : rtSchedule c k = some k') : Settled k' := by
  obtain ⟨rfl, hl | hg⟩ | ⟨current, toThread, p, hcur, hbest, hto, hne, hout⟩ :=
    rtSchedule_outcome h hs
  · exact absurd hlock hl
  · exact fun t _ u hu => absurd hg (group_ne_zero h hu)
  · obtain ⟨hready, hprio⟩ := head_queued h hto
    obtain ⟨hkeeps, hk⟩ | ⟨hkeeps, hsw⟩ := hout
    · intro t ht u hu
      cases hk.currentThread.symm.trans ht
      rw [hk.stat] at hu
      rw [hk.priority, hk.priority]
      have hle := hbest.least u hu
      obtain hlt | heq := hkeeps.2 <;> omega
    · intro t ht u hu
      cases hsw.currentThread.symm.trans ht
      rw [hsw.priority, hsw.priority, hprio]
      rw [hsw.stat] at hu
      split at hu
      · simp at hu
      · split at hu
        · rename_i hcurrent
          by_contra hlt
          exact hkeeps ⟨hcurrent.1 ▸ hcurrent.2, .inl (hcurrent.1 ▸ Nat.lt_of_not_le hlt)⟩
        · exact hbest.least u hu

/-- The processor changes hands only where the scheduler is unlocked. -/
def Switch (k k' : Kernel) : Prop :=
  k'.currentThread = k.currentThread ∨ Settled k' ∧ k'.schedulerLockNest = 0

theorem rtSchedule_switch (h : Inv c k) (hs : rtSchedule c k = some k') : Switch k k' := by
  by_cases hlock : k.schedulerLockNest = 0
  · exact .inr ⟨rtSchedule_settled h hlock hs, (rtSchedule_lock h hs).trans hlock⟩
  · obtain ⟨rfl, _⟩ | ⟨_, _, hl, _⟩ := rtSchedule_cases h hs
    · exact .inl rfl
    · exact absurd hl hlock

theorem Calm.switch (h : Calm k k') : Switch k k' := .inl h.current

theorem Calm.schedule (h : Calm k k₁) (hi : Inv c k₁) (hs : rtSchedule c k₁ = some k') :
    Switch k k' := by
  obtain hc | hsettled := rtSchedule_switch hi hs
  · exact .inl (hc.trans h.current)
  · exact .inr hsettled

/-! ## The functions of the threads -/

theorem threadTimeout_switch (h : Inv c k) (hs : threadTimeout c k t = some k') :
    Switch k k' ∧ (k.schedulerLockNest = 0 → Settled k' ∧ k'.schedulerLockNest = 0) := by
  obtain ⟨hsus, hs⟩ := threadTimeout_cases hs
  have h₂ := timedOut_inv h hsus
  have hcalm : Calm k (timedOut c k t) := by
    obtain ⟨hc, hl⟩ := calm_insert c
      (rtListRemove (setThread k t { k.thread t with error := .etimeout }) t) t
    exact ⟨hc, hl⟩
  refine ⟨hcalm.schedule h₂ hs, fun hlock => ?_⟩
  have hlock' := hcalm.lock.trans hlock
  exact ⟨rtSchedule_settled h₂ hlock' hs, (rtSchedule_lock h₂ hs).trans hlock'⟩

theorem timerCheckLoop_switch (n : Nat) (h : Inv c k₁) (hsw : Switch k k₁)
    (hs : timerCheckLoop c n k₁ = some k') : Switch k k' := by
  induction n generalizing k₁ with
  | zero =>
    cases hs
    exact hsw
  | succ n ih =>
    unfold timerCheckLoop at hs
    split at hs
    · cases hs
      exact hsw
    · rename_i timers t hpop
      obtain ⟨k₂, h₂, hs⟩ := Option.bind_eq_some_iff.mp hs
      have hi : Inv c { k₁ with timers := timers } := h.congr rfl rfl rfl rfl rfl
      have hi₂ : Inv c { k₂ with timers := Timer.timerCheckFinish c.timer k₂.timers .hard t } :=
        (threadTimeout_inv hi h₂).congr rfl rfl rfl rfl rfl
      obtain ⟨hto, hsettled⟩ := threadTimeout_switch hi h₂
      refine ih hi₂ ?_ hs
      obtain hc | ⟨_, hlock⟩ := hsw
      · obtain hc' | hset := hto
        · exact .inl (hc'.trans hc)
        · exact .inr hset
      · exact .inr (hsettled hlock)

theorem tickSlice_switch (h : Inv c k) (hs : tickSlice c k = some k') : Switch k k' := by
  obtain ⟨t, n, b, hinv, hs | rfl⟩ := tickSlice_cases h hs
  · have hcalm : Calm k (sliced k t n b) := ⟨rfl, rfl⟩
    exact hcalm.schedule hinv hs
  · exact .inl rfl

theorem rtSystemSchedulerStart_settled (h : Inv c k)
    (hs : rtSystemSchedulerStart c k = some k') : Settled k' := by
  obtain ⟨⟨toThread, p⟩, hto, hs⟩ := Option.bind_eq_some_iff.mp hs
  simp only [schedulerGetHighestPriorityThread, Option.map_eq_some_iff, Prod.mk.injEq] at hto
  obtain ⟨toThread, hto, rfl, rfl⟩ := hto
  obtain ⟨hready, hprio⟩ := head_queued h hto
  have hbest := highestReadyPriority_best h (group_ne_zero h hready)
  cases hs
  intro t ht u hu
  have htto : t = toThread := by
    rw [setThread_currentThread, remove_currentThread] at ht
    exact (Option.some.inj ht).symm
  subst htto
  have hut : u ≠ t := by
    rintro rfl
    simp at hu
  rw [setThread_other _ _ _ _ hut, remove_thread] at hu
  rw [setThread_same, setThread_other _ _ _ _ hut, remove_thread]
  exact hprio ▸ hbest.least u hu

theorem rtThreadStartup_switch (h : Inv c k) (hs : rtThreadStartup c k t = some k') :
    Switch k k' := by
  unfold rtThreadStartup at hs
  split at hs
  · rename_i hi
    have h₂ := rtThreadResume_inv (startup_suspend_inv h hi) t
    have hcalm := (calm_setThread k t _).trans (calm_resume c (setThread k t
      { priorityAttribute c (k.thread t) with stat := .suspend, yieldFlag := false }) t)
    dsimp only at hs
    split at hs
    · cases hs
      exact hcalm.switch
    · exact hcalm.schedule h₂ hs
  · simp at hs

theorem sleepFor_switch {tick : Tick} (hcalm : Calm k k₁) (h : Inv c k₁)
    (hs : sleepFor c k₁ t tick = some k') : Switch k k' := by
  obtain ⟨⟨k₂, e⟩, h₂, hs⟩ := Option.bind_eq_some_iff.mp hs
  obtain ⟨⟨timers, v⟩, _, hs⟩ := Option.bind_eq_some_iff.mp hs
  have hi : Inv c { k₂ with timers := Timer.rtTimerStart c.timer timers t } :=
    (rtThreadSuspend_inv h h₂).congr rfl rfl rfl rfl rfl
  have hcalm₂ : Calm k { k₂ with timers := Timer.rtTimerStart c.timer timers t } := by
    obtain ⟨hc, hl⟩ := hcalm.trans (calm_suspend h₂)
    exact ⟨hc, hl⟩
  exact hcalm₂.schedule hi hs

theorem rtExitCritical_switch (h : Inv c k) (hs : rtExitCritical c k = some k') :
    k'.currentThread = k.currentThread ∨ Settled k' := by
  unfold rtExitCritical at hs
  dsimp only at hs
  split at hs
  · split at hs
    · cases hs
      exact .inl rfl
    · have h₀ : Inv c { k with schedulerLockNest := 0 } := h.congr rfl rfl rfl rfl rfl
      exact .inr (rtSchedule_settled h₀ rfl hs)
  · cases hs
    exact .inl rfl

/-- A call of the thread functions leaves the processor where it is, or leaves no ready thread
that is more urgent than the current one. -/
theorem threadOp_switch {op : Thread.Op} (h : Inv c k) (hop : ReadyQueue.Permitted c op)
    (hs : Thread.step c k op = some k') : k'.currentThread = k.currentThread ∨ Settled k' := by
  have hweak : ∀ {k k' : Kernel}, Switch k k' → k'.currentThread = k.currentThread ∨ Settled k' :=
    fun hsw => hsw.imp_right And.left
  cases op with
  | schedulerStart =>
    simp only [Thread.step] at hs
    split at hs
    · exact .inr (rtSystemSchedulerStart_settled h hs)
    · simp at hs
  | startup t => exact hweak (rtThreadStartup_switch h hs)
  | suspend t =>
    obtain ⟨⟨k₁, e⟩, h₁, rfl⟩ := Option.map_eq_some_iff.mp hs
    exact .inl (calm_suspend h₁).current
  | resume t =>
    cases hs
    exact .inl (calm_resume c k t).current
  | yield =>
    obtain ⟨t, _, hs⟩ := Option.bind_eq_some_iff.mp hs
    have h₁ : Inv c (setThread k t
        { k.thread t with remainingTick := (k.thread t).initTick, yieldFlag := true }) :=
      h.setThread rfl rfl rfl rfl rfl
    exact hweak ((calm_setThread k t _).schedule h₁ hs)
  | sleep tick =>
    obtain ⟨t, _, hs⟩ := Option.bind_eq_some_iff.mp hs
    have h₁ : Inv c (setThread k t { k.thread t with error := .eok }) :=
      h.setThread rfl rfl rfl rfl rfl
    exact hweak (sleepFor_switch (calm_setThread k t _) h₁ hs)
  | delayUntil tick inc =>
    obtain ⟨⟨k₁, last⟩, h₁, rfl⟩ := Option.map_eq_some_iff.mp hs
    obtain ⟨t, _, h₁⟩ := Option.bind_eq_some_iff.mp h₁
    have h₀ : Inv c (setThread k t { k.thread t with error := .eok }) :=
      h.setThread rfl rfl rfl rfl rfl
    dsimp only at h₁
    split at h₁
    · obtain ⟨k₂, h₂, h₁⟩ := Option.bind_eq_some_iff.mp h₁
      cases h₁
      exact hweak (sleepFor_switch (calm_setThread k t _) h₀ h₂)
    · cases h₁
      exact .inl rfl
  | sleepReturn =>
    obtain ⟨⟨k₁, e⟩, h₁, rfl⟩ := Option.map_eq_some_iff.mp hs
    obtain ⟨t, _, h₁⟩ := Option.bind_eq_some_iff.mp h₁
    cases h₁
    exact .inl rfl
  | detach | delete => exact .inl (calm_threadClose hs).current
  | exit =>
    obtain ⟨t, hcur, hs⟩ := Option.bind_eq_some_iff.mp hs
    have hx := (h.current t hcur).attributed
    have h₁ : Inv c (closeThread (rtScheduleRemoveThread c k t) t) := by
      refine (h.base.remove hx).closeThread_inv (h.remove_current t) ?_
      rw [remove_thread]
      exact fun _ => hx
    exact hweak ((calm_close (calm_remove c k t) t).schedule h₁ hs)
  | control t cmd =>
    cases cmd with
    | changePriority p =>
      cases hs
      exact .inl (calm_changePriority c k t p).current
    | startup => exact hweak (rtThreadStartup_switch h hs)
    | close =>
      obtain ⟨k₁, h₁, hs⟩ := Option.bind_eq_some_iff.mp hs
      exact hweak ((calm_threadClose h₁).schedule (threadClose_inv h h₁) hs)
  | tickIncrease =>
    obtain ⟨k₁, h₁, hs⟩ := Option.bind_eq_some_iff.mp hs
    exact hweak (timerCheckLoop_switch _ (tickSlice_inv h h₁) (tickSlice_switch h h₁) hs)
  | timeout t => exact hweak (threadTimeout_switch h hs).1
  | schedule => exact hweak (rtSchedule_switch h hs)
  | enterCritical =>
    cases hs
    exact .inl rfl
  | exitCritical => exact rtExitCritical_switch h hs

/-! ## The steps of the system -/

variable {s s₁ s₂ s' : State} {p : Progress} {op : Op}

theorem Acts.calm (h : Acts c s s') : Calm s.kernel s'.kernel := by
  induction h with
  | refl => exact ⟨rfl, rfl⟩
  | data _ hd ih => exact hd.kernel ▸ ih
  | setMutex _ _ _ _ ih => exact ih
  | setEventInfo _ _ _ _ _ ih => exact ih
  | setError t _ _ ih => exact ih.trans (calm_setThread _ t _)
  | setPriority t q _ _ ih => exact ih.trans (calm_changePriority c _ t q)
  | resume t _ ih =>
    unfold System.resume
    split
    · exact ih.trans (calm_resume c _ t)
    · exact ih
  | suspendFor _ hk _ _ ih => exact ih.trans (calm_suspendFor hk)

theorem step_switch (h : Ok c s) (hop : Permitted c op) (hs : step c s op = some s') :
    s'.kernel.currentThread = s.kernel.currentThread ∨ Settled s'.kernel := by
  obtain ⟨o, rfl, ho⟩ | ⟨hne, t, p, _, hcall⟩ := step_cases hs
  · obtain ⟨_, _, k, hk, rfl⟩ := threadStep_eq ho
    exact threadOp_switch h.inv hop hk
  · obtain ⟨s₁, ha, rfl | hs⟩ := call_section hne hcall
    · exact .inl ha.calm.current
    · obtain ⟨k, hk, rfl⟩ := schedule_eq hs
      exact (ha.calm.schedule (ha.ok h).inv hk).imp_right And.left

/-- The thread is the current one, or becomes it after some steps of others. -/
inductive Back (c : Config) (t : ThreadId) : State → State → Prop where
  | here {s : State} : s.kernel.currentThread = some t → Back c t s s
  | later {s s₁ s₂ : State} (op : Op) : s.kernel.currentThread ≠ some t → Permitted c op →
      step c s op = some s₁ → Back c t s₁ s₂ → Back c t s s₂

/-- The thread calls the function in `s`, in its last section, and the call returns in `s'`: after
a section that returns, or with an error after a wait. -/
def Returns (c : Config) (t : ThreadId) (s : State) (op : Op) (s' : State) : Prop :=
  ∃ s₁ p, call c s t op = some (s₁, p) ∧ Back c t s₁ s' ∧
    ((∃ err out, p = .returned err out) ∨ p = .waiting ∧ (s'.kernel.thread t).error ≠ .eok)

theorem Back.noInversion (hb : Back c t s s') (h : Ok c s)
    (hs : s.kernel.currentThread ≠ some t ∨ Settled s.kernel) : NoInversion s'.kernel t := by
  induction hb with
  | here hcur => exact hs.resolve_left (not_not.mpr hcur) t hcur
  | later op hcur hop hstep _ ih =>
    refine ih (step_ok h hop hstep) ?_
    obtain hsame | hset := step_switch h hop hstep
    · exact .inl (hsame ▸ hcur)
    · exact .inr hset

theorem Back.eq (hb : Back c t s s') (hcur : s.kernel.currentThread = some t) : s' = s := by
  cases hb with
  | here _ => rfl
  | later _ hne _ _ _ => exact absurd hcur hne

/-! ## The functions that release something -/

/-- The sections of `rt_sem_release`, `rt_mutex_release`, `rt_event_send`, `rt_mb_send`,
`rt_mq_send`, `rt_mb_recv`, `rt_mq_recv` and `rt_mp_free`. -/
def Releases : Op → Prop
  | .semRelease _ | .mutexRelease _ | .eventSend _ _ | .mbRecv _ _ | .mbRecvLoop _ _
  | .mqRecv _ _ _ | .mqRecvLoop _ _ | .mqRecvFinish _ _ _ | .mpFree _ => True
  | .mbSendWait _ _ timeout | .mqSendWait _ _ timeout => timeout = 0
  | .mqSendFinish _ urgent _ _ => urgent = false
  | _ => False

/-- The call finds a thread to wake, or has to wait itself. -/
def Schedules (s : State) (t : ThreadId) : Op → Prop
  | .semRelease i => s.list (.sem i) ≠ []
  | .mutexRelease i => (s.mutex i).owner = some t ∧ wsub 8 (s.mutex i).hold 1 = 0 ∧
      s.list (.mutex i) ≠ []
  | .eventSend i set => set ≠ 0 ∧ ∃ u ∈ s.list (.event i),
      Event.received ((s.event i).set ||| set) (s.eventSet u) (s.eventInfo u) = some true
  | .mbSendWait i _ _ => (s.mailbox i).mb.entry ≠ (s.mailbox i).mb.size ∧
      (s.mailbox i).mb.entry < Mailbox.entryMax ∧ s.list (.mbReceivers i) ≠ []
  | .mbRecv i timeout | .mbRecvLoop i timeout =>
    if (s.mailbox i).mb.entry = 0 then timeout ≠ 0 else s.list (.mbSenders i) ≠ []
  | .mqSendFinish i _ _ _ => (s.messageQueue i).mq.entry < MessageQueue.entryMax ∧
      s.list (.mqReceivers i) ≠ []
  | .mqRecv i _ timeout | .mqRecvLoop i timeout =>
    (s.messageQueue i).mq.entry = 0 ∧ timeout ≠ 0
  | .mqRecvFinish i _ _ => s.list (.mqSenders i) ≠ []
  | .mpFree block => ∃ b i, block = some b ∧ s.header b = .pool i ∧ s.list (.mempool i) ≠ []
  | _ => False

/-- The priority with which the caller goes on when it does not schedule: the last release of a
mutex gives it the priority it had when it took the mutex. -/
def leavesWith (s : State) (t : ThreadId) : Op → Nat
  | .mutexRelease i =>
    if (s.mutex i).owner = some t ∧ wsub 8 (s.mutex i).hold 1 = 0 then
      (s.mutex i).originalPriority
    else (s.kernel.thread t).currentPriority
  | _ => (s.kernel.thread t).currentPriority

/-- The call has made no thread ready and has not scheduled; the caller may have a new
priority. -/
structure Quiet (s : State) (t : ThreadId) (priority : Nat) (s' : State) : Prop where
  calm : Calm s.kernel s'.kernel
  stat : ∀ u, (s'.kernel.thread u).stat = (s.kernel.thread u).stat
  priority : ∀ u, (s'.kernel.thread u).currentPriority =
    if u = t then priority else (s.kernel.thread u).currentPriority

theorem Quiet.of_eq (h : s'.kernel = s.kernel) :
    Quiet s t (s.kernel.thread t).currentPriority s' := by
  refine ⟨h ▸ ⟨rfl, rfl⟩, fun u => by rw [h], fun u => ?_⟩
  rw [h]
  split
  · rename_i hu
    rw [hu]
  · rfl

theorem Quiet.setError (s : State) (t : ThreadId) (err : RtErr) :
    Quiet s t (s.kernel.thread t).currentPriority (setError s t err) := by
  refine ⟨calm_setThread _ t _, fun u => ?_, fun u => ?_⟩
  · by_cases hu : u = t
    · subst hu
      simp [System.setError]
    · simp [System.setError, setThread_other, hu]
  · by_cases hu : u = t
    · subst hu
      simp [System.setError]
    · simp [System.setError, setThread_other, hu]

/-- A function that wakes the first thread of a list, if there is one. -/
theorem wakeFirst_outcome {l : WaitList} {out : Out} (h : Acts c s s₁)
    (hk : s₁.kernel = s.kernel) (hl : s₁.list l = s.list l)
    (hw : wakeFirst c s₁ l out = some (s', p)) :
    s.list l ≠ [] ∧ Scheduled c s s' ∨
      ¬ s.list l ≠ [] ∧ Quiet s t (s.kernel.thread t).currentPriority s' := by
  by_cases hne : s.list l = []
  · right
    rw [wakeFirst_nil (hl.trans hne) hw]
    exact ⟨not_not.mpr hne, .of_eq hk⟩
  · exact .inl ⟨hne, scheduled_wakeFirst h (hl ▸ hne) hw⟩

/-- What a call does that does not go on with a slot. -/
def Outcome (c : Config) (s : State) (t : ThreadId) (op : Op) (s' : State) : Prop :=
  Schedules s t op ∧ Scheduled c s s' ∨ ¬ Schedules s t op ∧ Quiet s t (leavesWith s t op) s'

theorem rtSemRelease_outcome (h : rtSemRelease c s i = some (s', p)) :
    Outcome c s t (.semRelease i) s' := by
  unfold rtSemRelease at h
  split at h
  · rename_i hl
    exact .inl ⟨hl, scheduled_wakeFirst .refl hl h⟩
  · rename_i hl
    refine .inr ⟨hl, ?_⟩
    split at h
    · cases h
      exact .of_eq rfl
    · cases h
      exact .of_eq rfl

section

variable (hinv : Inv c s.kernel) (hcur : s.kernel.currentThread = some t)
include hinv hcur

/-- The caller of `rt_mutex_release` is not in the ready queue. -/
theorem quiet_setPriority (q : Nat) : Quiet s t q (setPriority c s t q) := by
  have hnot := (hinv.current t hcur).not_ready
  have heq : (setPriority c s t q).kernel = setThread s.kernel t
      (priorityAttribute c { s.kernel.thread t with currentPriority := q }) := by
    rw [setPriority, changePriority, if_neg hnot]
  refine ⟨calm_changePriority c _ t q, fun u => ?_, fun u => ?_⟩
  · rw [heq]
    by_cases hu : u = t
    · subst hu
      simp
    · rw [setThread_other _ _ _ _ hu]
  · rw [heq]
    by_cases hu : u = t
    · subst hu
      simp
    · rw [setThread_other _ _ _ _ hu, if_neg hu]

/-- The first part of the last release: the caller gets its old priority back. -/
theorem restored (hq : Known s q) :
    ∃ s₁, (if q ≠ (s.kernel.thread t).currentPriority then setPriority c s t q else s) = s₁ ∧
      Acts c s s₁ ∧ Quiet s t q s₁ ∧ s₁.list = s.list := by
  by_cases hne : q ≠ (s.kernel.thread t).currentPriority
  · rw [if_pos hne]
    exact ⟨_, rfl, Acts.refl.setPriority t q hq, quiet_setPriority hinv hcur q, rfl⟩
  · rw [if_neg hne, not_not.mp hne]
    exact ⟨s, rfl, .refl, .of_eq rfl, rfl⟩

theorem giveUp_outcome {x : RtMutex} (hx : Known s x.originalPriority) (hhold : x.hold = 0)
    (h : giveUp c s t i x = some (s', p)) :
    s.list (.mutex i) ≠ [] ∧ Scheduled c s s' ∨
      ¬ s.list (.mutex i) ≠ [] ∧ Quiet s t x.originalPriority s' := by
  unfold giveUp at h
  dsimp only at h
  obtain ⟨s₁, hs₁, h₁, hq, hlist⟩ := restored hinv hcur hx
  rw [hs₁, hlist] at h
  split at h
  · rename_i u us hl
    left
    refine ⟨by simp [hl], ?_⟩
    rw [hhold, if_pos (by omega)] at h
    refine scheduled_wakeFirst (h₁.setMutex i _ fun _ => .inl ⟨u, rfl⟩) ?_ h
    rw [setMutex, hlist, hl]
    simp
  · rename_i hl
    refine .inr ⟨by simp [hl], ?_⟩
    split at h
    · cases h
      exact ⟨hq.calm, hq.stat, hq.priority⟩
    · cases h
      exact ⟨hq.calm, hq.stat, hq.priority⟩

theorem rtMutexRelease_outcome
    (h : rtMutexRelease c s t i = some (s', p)) : Outcome c s t (.mutexRelease i) s' := by
  unfold rtMutexRelease at h
  dsimp only at h
  split at h
  · rename_i hown
    cases h
    refine .inr ⟨fun hs => hown hs.1, ?_⟩
    rw [leavesWith, if_neg fun hs => hown hs.1]
    exact .setError s t .error
  · rename_i hown
    have hown : (s.mutex i).owner = some t := not_not.mp hown
    split at h
    · rename_i hhold
      have hknown : Known s (s.mutex i).originalPriority :=
        .inr ⟨i, by simp [hown], rfl⟩
      have hleaves : leavesWith s t (.mutexRelease i) = (s.mutex i).originalPriority :=
        if_pos ⟨hown, hhold⟩
      have hout := giveUp_outcome (x := { s.mutex i with hold := wsub 8 (s.mutex i).hold 1 })
        hinv hcur hknown hhold h
      obtain ⟨hl, hsch⟩ | ⟨hl, hq⟩ := hout
      · exact .inl ⟨⟨hown, hhold, hl⟩, hsch⟩
      · refine .inr ⟨fun hs => hl hs.2.2, ?_⟩
        rw [hleaves]
        exact hq
    · rename_i hhold
      cases h
      refine .inr ⟨fun hs => hhold hs.2.1, ?_⟩
      rw [leavesWith, if_neg fun hs => hhold hs.2]
      exact .of_eq rfl

end

/-- The scan of an event: it schedules exactly when a waiting thread gets its events, and changes
nothing otherwise. -/
theorem eventScan_need (c : Config) (i : ObjId) (s : State) (need : Bool) (ts : List ThreadId)
    (hasked : ∀ u ∈ ts, Asked (s.eventInfo u)) :
    (eventScan c i s need ts).2.2 = .eok ∧
      ((eventScan c i s need ts).2.1 = true ↔ need = true ∨ ∃ u ∈ ts,
        Event.received (s.event i).set (s.eventSet u) (s.eventInfo u) = some true) ∧
      ((eventScan c i s need ts).2.1 = false → (eventScan c i s need ts).1 = s) := by
  induction ts generalizing s need with
  | nil => simp [eventScan]
  | cons u us ih =>
    rw [eventScan]
    dsimp only
    split
    · rename_i hrec
      exfalso
      unfold Event.received at hrec
      obtain ha | ho := hasked u List.mem_cons_self
      · rw [if_pos ha] at hrec
        simp at hrec
      · split at hrec <;> simp at hrec
    · rename_i hrec
      obtain ⟨h₁, h₂, h₃⟩ := ih s need fun v hv => hasked v (List.mem_cons_of_mem u hv)
      refine ⟨h₁, ?_, h₃⟩
      rw [h₂, List.exists_mem_cons_iff, hrec]
      simp
    · rename_i hrec
      set s₁ := resume c _ u with hs₁
      have hinfo : s₁.eventInfo = s.eventInfo := by
        rw [hs₁, resume]
        split <;> split <;> rfl
      obtain ⟨h₁, h₂, h₃⟩ := ih s₁ true fun v hv => by
        rw [hinfo]
        exact hasked v (List.mem_cons_of_mem u hv)
      refine ⟨h₁, ?_, ?_⟩
      · rw [h₂, List.exists_mem_cons_iff, hrec]
        simp
      · intro hneed
        rw [h₂.mpr (.inl rfl)] at hneed
        simp at hneed

theorem rtEventSend_outcome (hok : Ok c s) {set : Event.EventSet}
    (h : rtEventSend c s i set = some (s', p)) : Outcome c s t (.eventSend i set) s' := by
  unfold rtEventSend at h
  split at h
  · rename_i hset
    cases h
    exact .inr ⟨fun hs => hs.1 hset, .of_eq rfl⟩
  · rename_i hset
    have hacts : Acts c s (eventScan c i (setEvent s i ((s.event i).set ||| set)) false
        (s.list (.event i))).1 := (Acts.refl.setEvent i _).eventScan
    obtain ⟨herr, hneed, hsame⟩ := eventScan_need c i
      (setEvent s i ((s.event i).set ||| set)) false (s.list (.event i)) (hok.asked i)
    have hevent : ((setEvent s i ((s.event i).set ||| set)).event i).set =
        (s.event i).set ||| set := by
      simp [setEvent]
    rw [hevent] at hneed
    split at h
    · rename_i heq
      rw [heq] at herr
      simp at herr
    · rename_i heq
      rw [heq] at hneed hacts
      obtain ⟨s₂, hs₂, h⟩ := Option.map_eq_some_iff.mp h
      cases h
      exact .inl ⟨⟨hset, (hneed.mp rfl).resolve_left (by simp)⟩, _, hacts, hs₂⟩
    · rename_i heq
      rw [heq] at hneed hsame
      cases h
      refine .inr ⟨fun hs => ?_, ?_⟩
      · have := hneed.mpr (.inr hs.2)
        simp at this
      · have hkernel := congrArg State.kernel (hsame rfl)
        exact .of_eq hkernel

theorem mbSend_outcome {value : Mailbox.Mail} (h : rtMbSend c s t i value = some (s', p)) :
    Outcome c s t (.mbSendWait i value 0) s' := by
  unfold rtMbSend rtMbSendWait at h
  split at h
  · rename_i hfull
    cases h
    exact .inr ⟨fun hs => hs.1 hfull.1, .of_eq rfl⟩
  · rename_i hfull
    unfold mbSendLoop at h
    dsimp only at h
    rw [if_neg fun he => hfull ⟨he, rfl⟩] at h
    split at h
    · rename_i hlt
      obtain ⟨hl, hsch⟩ | ⟨hl, hq⟩ :=
        wakeFirst_outcome (s := s) (t := t) (Acts.refl.setMb i _) rfl rfl h
      · exact .inl ⟨⟨fun he => hfull ⟨he, rfl⟩, hlt, hl⟩, hsch⟩
      · exact .inr ⟨fun hs => hl hs.2.2, hq⟩
    · rename_i hlt
      cases h
      exact .inr ⟨fun hs => hlt hs.2.1, .of_eq rfl⟩

theorem mbRecvLoop_outcome (h : mbRecvLoop c s t i timeout = some (s', p)) :
    Outcome c s t (.mbRecvLoop i timeout) s' := by
  unfold mbRecvLoop at h
  dsimp only at h
  simp only [Outcome, Schedules]
  split at h
  · rename_i hempty
    rw [if_pos hempty]
    split at h
    · rename_i htime
      cases h
      exact .inr ⟨not_not.mpr htime, .setError s t .etimeout⟩
    · rename_i htime
      exact .inl ⟨htime, scheduled_wait .refl mem_insertWaiting (by simp) h⟩
  · rename_i hempty
    rw [if_neg hempty]
    exact wakeFirst_outcome (Acts.refl.setMb i _) rfl rfl h

theorem rtMbRecv_outcome (h : rtMbRecv c s t i timeout = some (s', p)) :
    Outcome c s t (.mbRecv i timeout) s' := by
  unfold rtMbRecv at h
  split at h
  · rename_i hempty
    cases h
    refine .inr ⟨?_, .of_eq rfl⟩
    rw [Schedules, if_pos hempty.1]
    exact not_not.mpr hempty.2
  · exact mbRecvLoop_outcome h

/-- The first section of `rt_mq_send` does not wake a thread. -/
theorem mqSend_outcome (h : rtMqSend c s t i data = some (s', p)) :
    Outcome c s t (.mqSendWait i data 0) s' := by
  refine .inr ⟨id, ?_⟩
  unfold rtMqSend rtMqSendWait at h
  dsimp only at h
  split at h
  · simp at h
  · split at h
    · cases h
      exact .of_eq rfl
    · split at h
      · cases h
        exact .of_eq rfl
      · rename_i hfull
        unfold mqSendLoop at h
        split at h
        · rename_i hfree
          exact absurd ⟨hfree, rfl⟩ hfull
        · cases h
          exact .of_eq rfl

theorem linkMessage_entry (mq : MessageQueue.RtMq) (urgent : Bool) (slot : MessageQueue.Slot)
    (data : List MessageQueue.Byte) : (linkMessage mq urgent slot data).entry = mq.entry := by
  cases urgent <;> rfl

theorem mqSendFinish_outcome {urgent : Bool}
    (h : mqSendFinish c s i urgent slot data = some (s', p)) :
    Outcome c s t (.mqSendFinish i urgent slot data) s' := by
  unfold mqSendFinish at h
  dsimp only at h
  rw [linkMessage_entry] at h
  split at h
  · rename_i hlt
    obtain ⟨hl, hsch⟩ | ⟨hl, hq⟩ :=
      wakeFirst_outcome (s := s) (t := t) (Acts.refl.setMq i _) rfl rfl h
    · exact .inl ⟨⟨hlt, hl⟩, hsch⟩
    · exact .inr ⟨fun hs => hl hs.2, hq⟩
  · rename_i hlt
    cases h
    exact .inr ⟨fun hs => hlt hs.1, .of_eq rfl⟩

theorem mqRecvLoop_outcome (h : mqRecvLoop c s t i timeout = some (s', p)) :
    Outcome c s t (.mqRecvLoop i timeout) s' := by
  unfold mqRecvLoop at h
  dsimp only at h
  split at h
  · rename_i hempty
    split at h
    · rename_i htime
      cases h
      exact .inr ⟨fun hs => hs.2 htime, .setError s t .etimeout⟩
    · rename_i htime
      exact .inl ⟨⟨hempty, htime⟩, scheduled_wait .refl mem_insertWaiting (by simp) h⟩
  · rename_i hempty
    obtain ⟨slot, _, h⟩ := Option.map_eq_some_iff.mp h
    cases h
    exact .inr ⟨fun hs => hempty hs.1, .of_eq rfl⟩

theorem rtMqRecv_outcome (h : rtMqRecv c s t i size timeout = some (s', p)) :
    Outcome c s t (.mqRecv i size timeout) s' := by
  unfold rtMqRecv at h
  split at h
  · simp at h
  · split at h
    · rename_i hempty
      cases h
      exact .inr ⟨fun hs => hs.2 hempty.2, .of_eq rfl⟩
    · exact mqRecvLoop_outcome h

theorem mqRecvFinish_outcome (h : mqRecvFinish c s i slot size = some (s', p)) :
    Outcome c s t (.mqRecvFinish i slot size) s' :=
  wakeFirst_outcome (Acts.refl.setMq i _) rfl rfl h

theorem rtMpFree_outcome {block : Option Block} (h : rtMpFree c s block = some (s', p)) :
    Outcome c s t (.mpFree block) s' := by
  cases block with
  | none =>
    cases h
    refine .inr ⟨?_, .of_eq rfl⟩
    rintro ⟨b, i, hb, _⟩
    simp at hb
  | some b =>
    rw [rtMpFree] at h
    split at h
    · simp at h
    · rename_i i hpool
      dsimp only at h
      have h₀ := Acts.refl (c := c) (s := s) |>.setBlock i
        ⟨(s.mempool i).blockFreeCount + 1, some b⟩ b (.next (s.mempool i).blockList)
      split at h
      · rename_i hnil
        cases h
        refine .inr ⟨?_, .of_eq rfl⟩
        rintro ⟨b', j, hb, hj, hne⟩
        cases hb
        obtain rfl := Header.pool.inj (hpool.symm.trans hj)
        exact hne hnil
      · rename_i u us hcons
        obtain ⟨s₂, hs₂, h⟩ := Option.map_eq_some_iff.mp h
        cases h
        have hlist : s.list (.mempool i) = u :: us := hcons
        refine .inl ⟨⟨b, i, rfl, hpool, ?_⟩, _, (h₀.setError u .eok).resume u, hs₂⟩
        rw [hlist]
        simp

theorem release_outcome (hok : Ok c s) (hcur : s.kernel.currentThread = some t)
    (hop : Releases op) (h : call c s t op = some (s', p)) : Outcome c s t op s' := by
  cases op with
  | semRelease i => exact rtSemRelease_outcome h
  | mutexRelease i => exact rtMutexRelease_outcome hok.inv hcur h
  | eventSend i set => exact rtEventSend_outcome hok h
  | mbSendWait i value timeout =>
    obtain rfl : timeout = 0 := hop
    exact mbSend_outcome h
  | mbRecv i timeout => exact rtMbRecv_outcome h
  | mbRecvLoop i timeout => exact mbRecvLoop_outcome h
  | mqSendWait i data timeout =>
    obtain rfl : timeout = 0 := hop
    exact mqSend_outcome h
  | mqSendFinish i urgent slot data => exact mqSendFinish_outcome h
  | mqRecv i size timeout => exact rtMqRecv_outcome h
  | mqRecvLoop i timeout => exact mqRecvLoop_outcome h
  | mqRecvFinish i slot size => exact mqRecvFinish_outcome h
  | mpFree block => exact rtMpFree_outcome h
  | thread _ | semTake _ _ | semReset _ _ | mutexTake _ _ | eventRecv _ _ _ _ | eventReset _
  | mbSendLoop _ _ _ | mbUrgent _ _ | mbReset _ | mqSendLoop _ _ | mqUrgent _ _ | mqReset _
  | mpAlloc _ _ | resumeAll _ => exact absurd hop id

/-- A call that schedules leaves no ready thread that is more urgent than its caller. -/
theorem Scheduled.noInversion (hok : Ok c s) (hlock : s.kernel.schedulerLockNest = 0)
    (hs : Scheduled c s s₁) (hb : Back c t s₁ s') : NoInversion s'.kernel t := by
  obtain ⟨s₀, ha, hs⟩ := hs
  have hsec := ha.schedule hs
  obtain ⟨k, hk, rfl⟩ := schedule_eq hs
  have hset := rtSchedule_settled (ha.ok hok).inv (ha.calm.lock.trans hlock) hk
  exact hb.noInversion (hsec.ok hok) (.inr hset)

theorem Quiet.noInversion_iff (hinv : Inv c s.kernel) (hcur : s.kernel.currentThread = some t)
    (h : Quiet s t q s') :
    NoInversion s'.kernel t ↔
      ∀ u, (s.kernel.thread u).stat = .ready → q ≤ (s.kernel.thread u).currentPriority := by
  refine forall_congr' fun u => ?_
  rw [h.stat, h.priority, h.priority, if_pos rfl]
  refine imp_congr_right fun hu => ?_
  have hut : u ≠ t := by
    rintro rfl
    exact (hinv.current u hcur).not_ready hu
  rw [if_neg hut]

/-- After a call that releases something, made in any reachable state by the current thread with
the scheduler unlocked: no `READY` thread is more urgent than the caller when the call returns, if
and only if the call woke a thread or had to wait, or the threads that were `READY` before are not
more urgent than the priority the caller leaves with. -/
theorem no_inversion_after_release {s₀ : State} (hinit : Initial c s₀) {ops : List Op}
    (hops : ∀ op ∈ ops, Permitted c op) (hrun : Runs.run (step c) s₀ ops = some s)
    (hcur : s.kernel.currentThread = some t) (hlock : s.kernel.schedulerLockNest = 0)
    (hop : Releases op) (hret : Returns c t s op s') :
    NoInversion s'.kernel t ↔ Schedules s t op ∨
      ∀ u, (s.kernel.thread u).stat = .ready →
        leavesWith s t op ≤ (s.kernel.thread u).currentPriority := by
  have hok := run_ok hinit hops hrun
  obtain ⟨s₁, p, hcall, hback, _⟩ := hret
  obtain ⟨hsch, hs⟩ | ⟨hsch, hq⟩ := release_outcome hok hcur hop hcall
  · exact ⟨fun _ => .inl hsch, fun _ => hs.noInversion hok hlock hback⟩
  · have hcur₁ : s₁.kernel.currentThread = some t := hq.calm.current.trans hcur
    rw [hback.eq hcur₁, hq.noInversion_iff hok.inv hcur]
    exact ⟨.inr, fun h => h.resolve_left hsch⟩

/-! ## A mutex whose waiting thread has given up -/

/-- Thread 0 takes the mutex; thread 1 is started, waits one tick for the mutex, and gives up. -/
def givenUp : List Op :=
  [.thread (.startup 0), .thread .schedulerStart, .mutexTake 0 0xffffffff, .thread (.startup 1),
    .mutexTake 0 1, .thread .tickIncrease]

/-- Thread 0 releases the mutex at the priority 5 it has inherited and goes on at its priority 10,
though thread 1 is `READY` at priority 5. -/
theorem inversion_after_mutex_release :
    ∃ s s', Initial smallConfig trioState ∧ (∀ op ∈ givenUp, Permitted smallConfig op) ∧
      Runs.run (step smallConfig) trioState givenUp = some s ∧
      s.kernel.currentThread = some 0 ∧ s.kernel.schedulerLockNest = 0 ∧
      Releases (.mutexRelease 0) ∧ Returns smallConfig 0 s (.mutexRelease 0) s' ∧
      ¬ NoInversion s'.kernel 0 := by
  have hlast : ((Runs.run (step smallConfig) trioState givenUp).bind fun s =>
      (call smallConfig s 0 (.mutexRelease 0)).map fun r =>
        ((s.kernel.currentThread, s.kernel.schedulerLockNest), r.2, r.1.kernel.currentThread,
          [(r.1.kernel.thread 0).currentPriority, (r.1.kernel.thread 1).currentPriority],
          (r.1.kernel.thread 1).stat)) =
      some ((some 0, 0), .returned .eok .nothing, some 0, [10, 5], .ready) := by decide +kernel
  obtain ⟨s, hs, hcall⟩ := Option.bind_eq_some_iff.mp hlast
  obtain ⟨⟨s', p⟩, hs', hval⟩ := Option.map_eq_some_iff.mp hcall
  simp only [Prod.mk.injEq, List.cons.injEq, and_true] at hval
  obtain ⟨⟨hcur, hlock⟩, rfl, hcur', ⟨h0, h1'⟩, h1⟩ := hval
  refine ⟨s, s', trio_initial, ?_, hs, hcur, hlock, trivial,
    ⟨s', _, hs', .here hcur', .inl ⟨_, _, rfl⟩⟩, ?_⟩
  · simp [givenUp, Permitted, ReadyQueue.Permitted]
  · intro hno
    have := hno 1 h1
    rw [h0, h1'] at this
    omega

/-- Thread 1 sleeps, thread 0 waits for the semaphore, and thread 1 wakes up again. -/
def awaited : List Op :=
  [.thread (.startup 0), .thread (.startup 1), .thread (.startup 2), .thread .schedulerStart,
    .thread (.sleep 1), .semTake 0 0xffffffff, .thread .tickIncrease]

theorem no_inversion_after_release_awaited :
    ∃ s s', Runs.run (step smallConfig) trioState awaited = some s ∧
      Returns smallConfig 1 s (.semRelease 0) s' ∧ Schedules s 1 (.semRelease 0) ∧
      NoInversion s'.kernel 1 := by
  have hlast : ((Runs.run (step smallConfig) trioState awaited).bind fun s =>
      (call smallConfig s 1 (.semRelease 0)).map fun r =>
        ((s.kernel.currentThread, s.kernel.schedulerLockNest, s.list (.sem 0)), r.2,
          r.1.kernel.currentThread)) =
      some ((some 1, 0, [0]), .returned .eok .nothing, some 1) := by decide +kernel
  obtain ⟨s, hs, hcall⟩ := Option.bind_eq_some_iff.mp hlast
  obtain ⟨⟨s', p⟩, hs', hval⟩ := Option.map_eq_some_iff.mp hcall
  simp only [Prod.mk.injEq] at hval
  obtain ⟨⟨hcur, hlock, hlist⟩, rfl, hcur'⟩ := hval
  have hret : Returns smallConfig 1 s (.semRelease 0) s' :=
    ⟨s', _, hs', .here hcur', .inl ⟨_, _, rfl⟩⟩
  have hsch : Schedules s 1 (.semRelease 0) := by
    rw [Schedules, hlist]
    simp
  have hop : Releases (.semRelease 0) := trivial
  have hops : ∀ op ∈ awaited, Permitted smallConfig op := by
    simp [awaited, Permitted, ReadyQueue.Permitted]
  exact ⟨s, s', hs, hret, hsch,
    (no_inversion_after_release trio_initial hops hs hcur hlock hop hret).mpr (.inl hsch)⟩

end RtThread.System
