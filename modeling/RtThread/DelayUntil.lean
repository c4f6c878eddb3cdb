import RtThread.ThreadTimers

/-!
# Periodic delays

A thread that calls `rt_thread_delay_until` in every period keeps its last deadline in a variable
of its own. The call measures the time since then, arms the thread timer for the rest of the
period and moves the deadline on by a whole period, so that a late call shortens the next wait
and nothing accumulates.
-/
namespace RtThread.System

open Scheduler Thread ReadyQueue Rotation
open Timer (Linked)

/-! ## Armed timers -/

/-- The thread is suspended and its timer runs for the given time. -/
structure ArmedFor (c : Config) (k : Kernel) (t : ThreadId) (time : Tick) : Prop where
  suspended : (k.thread t).stat = .suspend
  linked : Linked c.timer k.timers t
  activated : (k.timers.timer t).activated = true
  initTick : (k.timers.timer t).initTick = time
  deadline : (k.timers.timer t).timeoutTick = k.timers.tick + time

section armed

variable {c : Config} {k k' : Kernel} {t : ThreadId} {time : Tick}

theorem ArmedFor.steady (h : ArmedFor c k t time) (hs : Steady k k') : ArmedFor c k' t time := by
  obtain ⟨htimers, hstat⟩ := hs
  exact ⟨hstat t h.suspended, htimers ▸ h.linked, htimers ▸ h.activated, htimers ▸ h.initTick,
    htimers ▸ h.deadline⟩

/-- A timer that is set and started runs for the time it was set to. -/
theorem armedFor_start (h : Discipline c k) (hsus : (k.thread t).stat = .suspend)
    {r : Timer.State × Option Tick}
    (hr : Timer.rtTimerControl k.timers t (.setTime time) = some r) :
    ArmedFor c { k with timers := Timer.rtTimerStart c.timer r.1 t } t time := by
  have hlinkage := h.linkage.control hr
  obtain ⟨-, hr⟩ := Option.ite_none_right_eq_some.mp hr
  cases hr
  constructor
  case suspended => exact hsus
  case linked => exact (Timer.linked_rtTimerStart hlinkage t).mpr (.inl rfl)
  case activated => simp [Timer.rtTimerStart, Timer.setTimer, Timer.timerRemove]
  case initTick => simp [Timer.rtTimerStart, Timer.setTimer, Timer.timerRemove]
  case deadline => simp [Timer.rtTimerStart, Timer.setTimer, Timer.timerRemove]

theorem rtThreadSuspend_suspended {e : RtErr} (hinv : Inv c k)
    (hopen : (k.thread t).stat ≠ .close) (hs : rtThreadSuspend c k t = some (k', e)) :
    (k'.thread t).stat = .suspend := by
  refine (rtThreadSuspend_stat hinv hs).resolve_right fun hclose => ?_
  obtain ⟨-, hs⟩ := Option.ite_none_right_eq_some.mp hs
  split at hs
  · cases hs
    simp [setStat] at hclose
  · cases hs
    exact hopen hclose

theorem stopped_tick (s : Timer.State) (t : ThreadId) : (Timer.rtTimerStop s t).1.tick = s.tick := by
  rw [Timer.rtTimerStop]
  split
  · rfl
  · rfl

theorem started_tick {s : Timer.State} {cmd : Timer.Cmd} {r : Timer.State × Option Tick}
    (hr : Timer.rtTimerControl s t cmd = some r) :
    (Timer.rtTimerStart c.timer r.1 t).tick = s.tick := by
  cases cmd with
  | setTime time =>
    obtain ⟨-, hr⟩ := Option.ite_none_right_eq_some.mp hr
    cases hr
    rfl
  | getTime | setOneshot | setPeriodic | getState | getRemainTime =>
    cases hr
    rfl

theorem rtThreadSuspend_tick {e : RtErr} (hs : rtThreadSuspend c k t = some (k', e)) :
    k'.timers.tick = k.timers.tick := by
  obtain ⟨-, hs⟩ := Option.ite_none_right_eq_some.mp hs
  split at hs
  · cases hs
    rw [stopped_tick]
    exact congrArg Timer.State.tick (remove_timers c k t)
  · cases hs
    rfl

/-- The tail both sleeping functions share arms the timer for the time asked for. -/
theorem sleepFor_armed (h : Discipline c k) (hinv : Inv c k) (hopen : (k.thread t).stat ≠ .close)
    (hs : sleepFor c k t time = some k') :
    ArmedFor c k' t time ∧ k'.timers.tick = k.timers.tick := by
  obtain ⟨⟨k₁, e⟩, h₁, hs⟩ := Option.bind_eq_some_iff.mp hs
  obtain ⟨r, hr, hs⟩ := Option.bind_eq_some_iff.mp hs
  have hsus := rtThreadSuspend_suspended hinv hopen h₁
  have hinv₁ : Inv c { k₁ with timers := Timer.rtTimerStart c.timer r.1 t } :=
    (rtThreadSuspend_inv hinv h₁).congr rfl rfl rfl rfl rfl
  have hsteady := rtSchedule_steady hinv₁ hs
  have harmed := armedFor_start (rtThreadSuspend_discipline h h₁) hsus hr
  refine ⟨harmed.steady hsteady, ?_⟩
  rw [hsteady.timers, ← rtThreadSuspend_tick h₁]
  exact started_tick hr

end armed

/-! ## Rounds -/

/-- A call of `rt_thread_delay_until` that a thread makes in a run. -/
structure Round where
  before : State
  tick : Tick
  incTick : Tick
  after : State
  /-- The value left in `*tick`. -/
  left : Tick

/-- The time since the last deadline, as the call computes it. -/
def Round.elapsed (r : Round) : Tick := r.before.kernel.timers.tick - r.tick

/-- The call of the thread that a step is. -/
def roundOf (c : Config) (t : ThreadId) (s : State) (op : Op) (s' : State) : Option Round :=
  match op with
  | .thread (.delayUntil tick incTick) =>
    if s.kernel.currentThread = some t then
      (rtThreadDelayUntil c s.kernel tick incTick).map fun r => ⟨s, tick, incTick, s', r.2⟩
    else none
  | _ => none

/-- The calls of the thread in a run, in their order. -/
def rounds (c : Config) (t : ThreadId) : State → List Op → List Round
  | _, [] => []
  | s, op :: ops =>
    (step c s op).elim [] fun s' => (roundOf c t s op s').toList ++ rounds c t s' ops

/-- Every call is made for the same period, with the value that the call before it left. -/
def Chained (incTick : Tick) : Tick → List Round → Prop
  | _, [] => True
  | tick, r :: rs => r.tick = tick ∧ r.incTick = incTick ∧ Chained incTick r.left rs

/-- The call sleeps until the deadline it leaves, for a part of the period or all of it. -/
structure Round.Sleeps (c : Config) (t : ThreadId) (r : Round) : Prop where
  armed : ArmedFor c r.after.kernel t (r.incTick - r.elapsed)
  deadline : (r.after.kernel.timers.timer t).timeoutTick = r.left
  pos : 0 < r.incTick - r.elapsed
  le : r.incTick - r.elapsed ≤ r.incTick

/-- The call returns at once, with the current tick. -/
structure Round.Returns (t : ThreadId) (r : Round) : Prop where
  after : r.after = setError r.before t .eok
  left : r.left = r.before.kernel.timers.tick

/-- What one call does. -/
structure Round.Spec (c : Config) (t : ThreadId) (r : Round) : Prop where
  moved : r.elapsed < r.incTick → r.left = r.tick + r.incTick
  sleeps : r.elapsed < r.incTick → r.Sleeps c t
  returns : r.incTick ≤ r.elapsed → r.Returns t

section spec

variable {c : Config} {s s' : State} {t : ThreadId}

/-- A step that leaves every thread in its state of suspension takes no thread out of a list. -/
theorem threadStep_lists {op : Thread.Op} (h : threadStep c s op = some s')
    (hstat : ∀ u, (s'.kernel.thread u).stat = (s.kernel.thread u).stat) :
    s' = { s with kernel := s'.kernel } := by
  obtain ⟨-, -, k, -, rfl⟩ := threadStep_eq h
  have hlist : (fun l => (s.list l).filter fun u =>
      (s.kernel.thread u).stat ≠ .suspend ∨ (k.thread u).stat = .suspend) = s.list := by
    funext l
    refine List.filter_eq_self.mpr fun u _ => ?_
    rw [hstat u]
    simp [em']
  rw [hlist]

theorem roundOf_some {op : Op} {r : Round} (h : roundOf c t s op s' = some r) :
    op = .thread (.delayUntil r.tick r.incTick) ∧ s.kernel.currentThread = some t ∧
      r.before = s ∧ r.after = s' ∧
      ∃ k, rtThreadDelayUntil c s.kernel r.tick r.incTick = some (k, r.left) := by
  unfold roundOf at h
  split at h
  case h_1 tick incTick =>
    obtain ⟨hcur, h⟩ := Option.ite_none_right_eq_some.mp h
    obtain ⟨⟨k, left⟩, hk, rfl⟩ := Option.map_eq_some_iff.mp h
    exact ⟨rfl, hcur, rfl, rfl, k, hk⟩
  case h_2 => cases h

theorem sub_elapsed (now tick inc : Tick) : inc - (now - tick) = tick + inc - now := by
  bv_omega

theorem remaining_between {elapsed inc : Tick} (h : elapsed < inc) :
    0 < inc - elapsed ∧ inc - elapsed ≤ inc := by
  constructor
  · bv_omega
  · bv_omega

theorem round_spec (hok : Ok c s) (hd : Discipline c s.kernel) {op : Op}
    (hs : step c s op = some s') {r : Round} (hr : roundOf c t s op s' = some r) :
    r.Spec c t := by
  obtain ⟨rfl, hcur, rfl, rfl, k, hk⟩ := roundOf_some hr
  replace hs : threadStep c r.before (.delayUntil r.tick r.incTick) = some r.after := hs
  obtain ⟨-, hguard, k', hk', hafter⟩ := threadStep_eq hs
  obtain rfl : k = k' := by
    rw [Thread.step, hk] at hk'
    exact Option.some.inj hk'
  have hkernel : r.after.kernel = k := congrArg State.kernel hafter
  have hsteady : Steady r.before.kernel
      (setThread r.before.kernel t { r.before.kernel.thread t with error := .eok }) :=
    steady_setThread fun h => h
  rw [rtThreadDelayUntil, hcur, Option.bind_eq_bind, Option.bind_some] at hk
  by_cases hlt : r.elapsed < r.incTick
  · replace hk := (if_pos (BitVec.lt_def.mp hlt)).symm.trans hk
    obtain ⟨k₁, hsleep, hk⟩ := Option.bind_eq_some_iff.mp hk
    obtain ⟨rfl, hleft⟩ := pair_inj hk
    have hopen : (r.before.kernel.thread t).stat ≠ .close := by
      refine timerOpen_of_guard hguard ?_ t hcur
      exact decide_eq_true (BitVec.lt_def.mp hlt)
    obtain ⟨harmed, htick⟩ := sleepFor_armed (hd.steady hsteady)
      (hok.inv.setThread rfl rfl rfl rfl rfl) (by simpa using hopen) hsleep
    rw [← sub_elapsed] at harmed
    replace htick : k₁.timers.tick = r.before.kernel.timers.tick := htick
    replace harmed : ArmedFor c r.after.kernel t (r.incTick - r.elapsed) := hkernel ▸ harmed
    have hdeadline := harmed.deadline
    rw [hkernel, htick, Round.elapsed, sub_elapsed, BitVec.add_comm, BitVec.sub_add_cancel]
      at hdeadline
    have hbetween := remaining_between hlt
    exact ⟨fun _ => hleft.symm, fun _ => ⟨harmed, by rw [hkernel, hdeadline, hleft], hbetween.1,
      hbetween.2⟩, fun hle => absurd hlt (BitVec.not_lt.mpr hle)⟩
  · replace hk := (if_neg (fun h => hlt (BitVec.lt_def.mpr h))).symm.trans hk
    obtain ⟨rfl, hleft⟩ := pair_inj hk
    have hstat : ∀ u, (r.after.kernel.thread u).stat = (r.before.kernel.thread u).stat := by
      intro u
      rw [hkernel, setThread_stat]
      split
      · rename_i hu
        rw [hu]
      · rfl
    refine ⟨fun h => absurd h hlt, fun h => absurd h hlt, fun _ => ⟨?_, hleft.symm⟩⟩
    rw [threadStep_lists hs hstat, hkernel]
    rfl

end spec

/-! ## Runs -/

variable {c : Config} {s₀ : State} {t : ThreadId} {ops : List Op} {incTick : Tick}

theorem round_of_run {s : State} (hok : Ok c s) (hd : Discipline c s.kernel)
    (hops : ∀ op ∈ ops, Permitted c op) {r : Round} (hr : r ∈ rounds c t s ops) : r.Spec c t := by
  induction ops generalizing s with
  | nil => exact absurd hr List.not_mem_nil
  | cons op ops ih =>
    rw [rounds] at hr
    cases hs : step c s op with
    | none =>
      rw [hs] at hr
      exact absurd hr List.not_mem_nil
    | some s' =>
      rw [hs] at hr
      obtain hr | hr := List.mem_append.mp hr
      · exact round_spec hok hd hs (Option.mem_toList.mp hr)
      · exact ih (step_ok hok (hops op List.mem_cons_self) hs) (step_discipline hok hd hs)
          (fun o ho => hops o (List.mem_cons_of_mem op ho)) hr

/-- A call that is not late moves the deadline on by one period, whether it sleeps or not. -/
theorem Round.Spec.left_eq {r : Round} (h : r.Spec c t) (hle : r.elapsed ≤ r.incTick) :
    r.left = r.tick + r.incTick := by
  by_cases hlt : r.elapsed < r.incTick
  · exact h.moved hlt
  · have hge := BitVec.not_lt.mp hlt
    rw [(h.returns hge).left, ← BitVec.le_antisymm hle hge, Round.elapsed]
    bv_omega

theorem next_multiple (start inc : Tick) (k : Nat) :
    start + inc + BitVec.ofNat 32 k * inc = start + BitVec.ofNat 32 (k + 1) * inc := by
  rw [BitVec.ofNat_add]
  generalize BitVec.ofNat 32 k = m
  grind

/-- The induction over the rounds: the deadlines are the multiples of the period. -/
theorem chained_left {start : Tick} {rs : List Round} (hchain : Chained incTick start rs)
    (hspec : ∀ r ∈ rs, r.Spec c t) (htime : ∀ r ∈ rs, r.elapsed ≤ incTick) {k : Nat} {r : Round}
    (hr : rs[k]? = some r) :
    r.incTick = incTick ∧ r.left = start + BitVec.ofNat 32 (k + 1) * incTick := by
  induction rs generalizing start k with
  | nil => cases hr
  | cons r₀ rs ih =>
    obtain ⟨htick, hinc, hchain⟩ := hchain
    have hleft := (hspec r₀ List.mem_cons_self).left_eq
      (hinc ▸ htime r₀ List.mem_cons_self)
    rw [htick, hinc] at hleft
    cases k with
    | zero =>
      obtain rfl : r₀ = r := Option.some.inj hr
      refine ⟨hinc, ?_⟩
      rw [hleft, ← next_multiple]
      simp
    | succ k =>
      obtain ⟨hinc', hr'⟩ := ih hchain (fun r hr => hspec r (List.mem_cons_of_mem r₀ hr))
        (fun r hr => htime r (List.mem_cons_of_mem r₀ hr)) hr
      refine ⟨hinc', ?_⟩
      rw [hr', hleft, next_multiple]

/-- Along every run, a thread that delays again and again with the value its last call left, never
more than a period behind its last deadline, keeps to the multiples of its period: a call that
comes within the period arms the timer for the rest of it, with the next multiple as deadline, and
a call at the end of the period finds that multiple to be the current tick. A call that comes a
period late or later returns at once with the current tick. -/
theorem delay_until_no_drift (hinit : Initial c s₀) (hops : ∀ op ∈ ops, Permitted c op)
    (t : ThreadId) :
    (∀ start incTick, Chained incTick start (rounds c t s₀ ops) →
      (∀ r ∈ rounds c t s₀ ops, r.elapsed ≤ incTick) →
      ∀ k r, (rounds c t s₀ ops)[k]? = some r →
        r.left = start + BitVec.ofNat 32 (k + 1) * incTick ∧
        (r.elapsed < incTick → r.Sleeps c t) ∧ (r.elapsed = incTick → r.Returns t)) ∧
    ∀ r ∈ rounds c t s₀ ops, r.incTick ≤ r.elapsed → r.Returns t := by
  have hspec : ∀ r ∈ rounds c t s₀ ops, r.Spec c t := fun r hr =>
    round_of_run hinit.ok hinit.discipline hops hr
  refine ⟨fun start incTick hchain htime k r hr => ?_, fun r hr => (hspec r hr).returns⟩
  have hmem := List.mem_of_getElem? hr
  obtain ⟨rfl, hleft⟩ := chained_left hchain hspec htime hr
  exact ⟨hleft, (hspec r hmem).sleeps, fun heq => (hspec r hmem).returns (BitVec.le_of_eq heq.symm)⟩

/-- Thread 1 delays in steps of three ticks, at tick 0 and at tick 4; thread 2 runs in between. -/
def periodic : List Op :=
  [.thread (.startup 1), .thread (.startup 2), .thread .schedulerStart,
    .thread (.delayUntil 0 3), .thread .tickIncrease, .thread .tickIncrease,
    .thread .tickIncrease, .thread .sleepReturn, .thread .tickIncrease,
    .thread (.delayUntil 3 3), .thread .tickIncrease, .thread .tickIncrease]

theorem delay_until_no_drift_periodic :
    ∃ r, (rounds smallConfig 1 trioState periodic)[1]? = some r ∧ r.elapsed = 1 ∧
      r.left = 0 + 2 * 3 ∧ r.Sleeps smallConfig 1 := by
  have hops : ∀ op ∈ periodic, Permitted smallConfig op := by
    simp [periodic, Permitted, ReadyQueue.Permitted]
  have hvalues : (rounds smallConfig 1 trioState periodic).map
      (fun r => (r.tick, r.incTick, r.elapsed, r.left)) = [(0, 3, 0, 3), (3, 3, 1, 6)] := by
    decide +kernel
  obtain ⟨hdrift, -⟩ := delay_until_no_drift trio_initial hops 1
  generalize rounds smallConfig 1 trioState periodic = rs at hvalues hdrift
  obtain ⟨r₀, rs, rfl, h₀, hrest⟩ := List.map_eq_cons_iff.mp hvalues
  obtain ⟨r₁, rs, rfl, h₁, hrest⟩ := List.map_eq_cons_iff.mp hrest
  obtain rfl := List.map_eq_nil_iff.mp hrest
  simp only [Prod.mk.injEq] at h₀ h₁
  obtain ⟨htick₀, hinc₀, helapsed₀, hleft₀⟩ := h₀
  obtain ⟨htick₁, hinc₁, helapsed₁, -⟩ := h₁
  have hchain : Chained 3 0 [r₀, r₁] :=
    ⟨htick₀, hinc₀, htick₁.trans hleft₀.symm, hinc₁, trivial⟩
  have htime : ∀ r ∈ [r₀, r₁], r.elapsed ≤ 3 := by
    simp [helapsed₀, helapsed₁]
  obtain ⟨hleft, hsleeps, -⟩ := hdrift 0 3 hchain htime 1 r₁ rfl
  exact ⟨r₁, rfl, helapsed₁, hleft, hsleeps (by rw [helapsed₁]; decide)⟩

end RtThread.System
