import RtThread.PosixClockLaw
import RtThread.PosixTimer
import RtThread.TimerExpiry

/-!
# The schedule of a POSIX timer

`timer_settime` computes the ticks of the interval and gives them to the kernel as the address of
the ticks, for the first expiry as for the others, and makes every timer periodic. A timer follows
the schedule that was set where that address happens to hold the ticks of both. `timer_gettime`
multiplies the ticks that are left of a second by the nanoseconds of a second, in 32 bits.
-/
namespace RtThread.PosixTimer

open PosixClock (Timespec nanosecondPerSecond)
open Timer (TimerId Config Linkage Linked Kept Touches Restarts subject timerCheckPop rtTimerStart
  timerCheckFinish timerCheckPop_some own_cases)

/-- The ticks of a time, rounded down. -/
def ticks (tps : Nat) (v : Timespec) : Nat := (v.total * tps / nanosecondPerSecond).toNat

/-- What was set for a timer, and how far it has come: the tick at which it expires next, the
ticks between expiries, the ticks since the call, whether it has expired, and whether its callback
is running. -/
structure Schedule where
  due : Option Tick
  interval : Option Nat
  elapsed : Nat
  expired : Bool
  calling : Bool

/-- The schedule of a value that is set at a tick. -/
def schedule (tps : Nat) (value : Itimerspec) (tick : Tick) : Schedule where
  due := some (tick + BitVec.ofNat 32 (ticks tps value.value))
  interval :=
    if value.interval.sec = 0 ∧ value.interval.nsec = 0 then none
    else some (ticks tps value.interval)
  elapsed := 0
  expired := false
  calling := false

/-- A timer expires when its callback is called, and is due again an interval after its end. -/
def Schedule.next (c : Config) (t : TimerId) (s : Timer.State) (e : Timer.Event) (σ : Schedule) :
    Schedule :=
  match e with
  | .tickIncrease => { σ with elapsed := σ.elapsed + 1 }
  | .checkPop _ =>
    if callee c s e = some t then { σ with expired := true, calling := true } else σ
  | .checkFinish _ =>
    if subject c s e = some t then
      { σ with due := σ.interval.map fun n => s.tick + BitVec.ofNat 32 n, calling := false }
    else σ
  | .start _ | .stop _ | .detach _ | .control _ _ => σ

/-- A step of the kernel beside the schedule. -/
def observed (c : Config) (t : TimerId) (x : State × Schedule) (e : Timer.Event) :
    Option (State × Schedule) :=
  (kernelStep c t x.1 e).map fun s => (s, x.2.next c t x.1.kernel e)

/-- The timer is called only when it is due, and waits in its list for the tick at which it is
due next, if there is one. -/
structure OnSchedule (c : Config) (t : TimerId) (s : Timer.State) (σ : Schedule) : Prop where
  called : ∀ k s', timerCheckPop c s k = some (s', t) →
    ∃ d, σ.due = some d ∧ (s.tick - d).toNat < rtTickMaxHalf
  waits : σ.calling = false → ∀ d, σ.due = some d → Linked c s t ∧ (s.timer t).timeoutTick = d
  ended : σ.calling = false → σ.due = none → ¬ Linked c s t

/-- `timer_gettime` reports the interval that was set and the ticks that are left, as a time. -/
def Reports (tps : Nat) (t : TimerId) (s : State) (value : Itimerspec) (left : Nat) : Prop :=
  timerGettime tps (some t) true s =
    (.eok, some ⟨value.interval,
      ⟨(left / tps : Nat), (left % tps * nanosecondPerSecond / tps : Nat)⟩⟩, s)

/-- In every run of the kernel that leaves the timer alone it is on its schedule, and
`timer_gettime` reports what is left before the first expiry as far as it can. -/
def KeepsSchedule (c : Config) (tps : Nat) (t : TimerId) (value : Itimerspec) (s : State)
    (tick : Tick) : Prop :=
  ∀ es, (∀ e ∈ es, ¬ Touches t e) → ∀ z,
    Runs.run (observed c t) (s, schedule tps value tick) es = some z →
      OnSchedule c t z.1.kernel z.2 ∧
        (z.2.expired = false → z.2.elapsed ≤ ticks tps value.value →
          (Reports tps t z.1 value (ticks tps value.value - z.2.elapsed) ↔
            (ticks tps value.value - z.2.elapsed) % tps * nanosecondPerSecond < 2 ^ 32))

/-- There is a place for the old value, the interval is not zero, and the word at the address of
its ticks holds these ticks and those of the first expiry. -/
structure Arms (tps : Nat) (mem : Tick → Option Tick) (value : Itimerspec) (ovalue : Bool) :
    Prop where
  old : ovalue = true
  repeats : ¬ (value.interval.sec = 0 ∧ value.interval.nsec = 0)
  word : ∃ m : Tick, mem (reloadTicks tps value.interval) = some m ∧ m.toNat < rtTickMaxHalf ∧
    m.toNat = ticks tps value.value ∧ m.toNat = ticks tps value.interval

variable {c : Config} {t : TimerId} {k : Timer.ListKind} {s s' : Timer.State} {e : Timer.Event}

/-! ## A step that keeps the timer -/

theorem callee_of_kept (hs : Timer.step c s e = some s') (hkept : Kept c s s' t) :
    callee c s e ≠ some t := by
  intro hcallee
  cases e with
  | checkPop k =>
    obtain ⟨⟨r, u⟩, hpop, hu⟩ := Option.map_eq_some_iff.mp hcallee
    obtain rfl : u = t := hu
    exact Timer.not_kept_of_call hs (Timer.call_pop hpop) hkept
  | _ => cases hcallee

theorem not_pending_finish (c : Config) (s : Timer.State) (k : Timer.ListKind) (t : TimerId) :
    t ∉ (timerCheckFinish c s k t).pending k := by
  by_cases hrestarts : Restarts s k t
  · rw [Timer.finish_restarts hrestarts]
    simp [rtTimerStart, Timer.setTimer, Timer.timerRemove]
  · rw [Timer.finish_leaves hrestarts]
    simp [Timer.returned]

theorem subject_of_kept {kept : Prop} (h : Linkage kept c s)
    (hs : Timer.step c s (.checkFinish k) = some s') (hkept : Kept c s s' t) :
    subject c s (.checkFinish k) ≠ some t := by
  intro hsubject
  obtain ⟨hne, hcall⟩ := Option.ite_none_left_eq_some.mp hsubject
  obtain ⟨u, hu, rfl⟩ := Option.map_eq_some_iff.mp hs
  obtain rfl : t = u := Option.some.inj (hcall.symm.trans hu)
  have hmem := Timer.mem_pending h hcall hne
  rw [← hkept.pending] at hmem
  exact not_pending_finish c s k t hmem

/-- A started timer is due after its own ticks. -/
theorem timer_started (c : Config) (s : Timer.State) (t : TimerId) :
    (rtTimerStart c s t).timer t =
      { s.timer t with
        activated := true, timeoutTick := s.tick + (s.timer t).initTick } := by
  simp [rtTimerStart, Timer.setTimer, Timer.timerRemove]

/-! ## The run -/

/-- The timer and its schedule after `timer_settime` has put `m` ticks into both. -/
structure Follows (c : Config) (t : TimerId) (m start : Tick) (interval : Timespec) (s : State)
    (σ : Schedule) : Prop where
  link : Linkage False c s.kernel
  periodic : (s.kernel.timer t).periodic = true
  activated : (s.kernel.timer t).activated = true
  initTick : (s.kernel.timer t).initTick = m
  interval : (s.obj t).interval = interval
  every : σ.interval = some m.toNat
  tick : s.kernel.tick = start + BitVec.ofNat 32 σ.elapsed
  active : σ.expired = false → (s.obj t).active = true
  first : σ.expired = false → σ.due = some (start + m) ∧ σ.calling = false
  waits : σ.calling = false →
    Linked c s.kernel t ∧ σ.due = some (s.kernel.timer t).timeoutTick
  calls : σ.calling = true → t ∈ s.kernel.pending (s.kernel.timer t).kind

variable {n tps : Nat} {value : Itimerspec}

section follows

variable {m start : Tick} {interval : Timespec} {x y : State} {σ : Schedule}

theorem Follows.kept (h : Follows c t m start interval x σ) (hlink : Linkage False c y.kernel)
    (hkept : Kept c x.kernel y.kernel t) (hobj : y.obj t = x.obj t)
    (htick : y.kernel.tick = start + BitVec.ofNat 32 n) :
    Follows c t m start interval y { σ with elapsed := n } where
  link := hlink
  periodic := by rw [hkept.timer]; exact h.periodic
  activated := by rw [hkept.timer]; exact h.activated
  initTick := by rw [hkept.timer]; exact h.initTick
  interval := by rw [hobj]; exact h.interval
  every := h.every
  tick := htick
  active := fun hexpired => by rw [hobj]; exact h.active hexpired
  first := h.first
  waits := fun hcalling => by
    obtain ⟨hlinked, hdue⟩ := h.waits hcalling
    rw [Linked, hkept.timer, hkept.linked]
    exact ⟨hlinked, hdue⟩
  calls := fun hcalling => by
    rw [hkept.timer, hkept.pending]
    exact h.calls hcalling

/-- The timer is called: it leaves its list, and its wrapper runs. -/
theorem Follows.pop (h : Follows c t m start interval x σ)
    (hpop : timerCheckPop c x.kernel (x.kernel.timer t).kind = some (s', t))
    (hlink : Linkage False c s') :
    Follows c t m start interval
      (setObj { x with kernel := s' } t (rtthreadTimerWrapper (x.obj t)))
      { σ with expired := true, calling := true } := by
  obtain ⟨hrow, hdue, rfl⟩ := timerCheckPop_some.mp hpop
  have htimer := Timer.expired_timer x.kernel (x.kernel.timer t).kind t
  have hobj : (setObj { x with kernel := Timer.expired x.kernel (x.kernel.timer t).kind t } t
      (rtthreadTimerWrapper (x.obj t))).obj t = rtthreadTimerWrapper (x.obj t) :=
    Function.update_self t _ x.obj
  have hsame : (rtthreadTimerWrapper (x.obj t)).interval = (x.obj t).interval := by
    rw [rtthreadTimerWrapper]
    split <;> rfl
  refine ⟨hlink, ?_, ?_, ?_, ?_, h.every, h.tick, nofun, nofun, nofun, fun _ => ?_⟩
  · show ((Timer.expired x.kernel _ t).timer t).periodic = true
    rw [htimer]
    exact h.periodic
  · show ((Timer.expired x.kernel _ t).timer t).activated = true
    rw [htimer]
    exact Bool.and_eq_true_iff.mpr ⟨h.activated, h.periodic⟩
  · show ((Timer.expired x.kernel _ t).timer t).initTick = m
    rw [htimer]
    exact h.initTick
  · rw [hobj, hsame]
    exact h.interval
  · show t ∈ (Timer.expired x.kernel _ t).pending ((Timer.expired x.kernel _ t).timer t).kind
    rw [htimer, Timer.mem_pending_expired]

/-- The callback has ended: the timer starts again. -/
theorem Follows.finish (h : Follows c t m start interval x σ)
    (hcall : x.kernel.inCallback (x.kernel.timer t).kind = some t)
    (hmem : t ∈ x.kernel.pending (x.kernel.timer t).kind)
    (hlink : Linkage False c (timerCheckFinish c x.kernel (x.kernel.timer t).kind t)) :
    Follows c t m start interval
      { x with kernel := timerCheckFinish c x.kernel (x.kernel.timer t).kind t }
      { σ with
        due := σ.interval.map fun n => x.kernel.tick + BitVec.ofNat 32 n, calling := false } := by
  have hrestarts : Restarts x.kernel (x.kernel.timer t).kind t :=
    ⟨List.ne_nil_of_mem hmem, h.periodic, h.activated⟩
  obtain ⟨hrow, -, -⟩ := Timer.restarted_linked h.link hcall hmem hrestarts
  have hsettled : (Timer.settled x.kernel (x.kernel.timer t).kind t).timer t =
      { x.kernel.timer t with activated := false } := by simp [Timer.settled, Timer.setTimer]
  have htimer : (timerCheckFinish c x.kernel (x.kernel.timer t).kind t).timer t =
      { x.kernel.timer t with
        activated := true, timeoutTick := x.kernel.tick + (x.kernel.timer t).initTick } := by
    rw [Timer.finish_restarts hrestarts, timer_started, hsettled]
    rfl
  have htick : (timerCheckFinish c x.kernel (x.kernel.timer t).kind t).tick = x.kernel.tick := by
    rw [Timer.finish_restarts hrestarts]
    rfl
  refine ⟨hlink, ?_, ?_, ?_, h.interval, h.every, ?_, h.active, ?_, fun _ => ⟨?_, ?_⟩, ?_⟩
  · rw [htimer]
    exact h.periodic
  · rw [htimer]
  · rw [htimer]
    exact h.initTick
  · rw [htick]
    exact h.tick
  · intro hexpired
    exact absurd (h.waits (h.first hexpired).2).1 (h.link.awaiting _ t hmem).2.2
  · rw [Linked, htimer]
    exact hrow
  · rw [htimer, h.initTick, h.every]
    simp
  · intro hcalling
    cases hcalling

variable {z : State × Schedule}

theorem Follows.step (h : Follows c t m start interval x σ) (he : ¬ Touches t e)
    (hobserved : observed c t (x, σ) e = some z) : Follows c t m start interval z.1 z.2 := by
  obtain ⟨y, hkernel, rfl⟩ := Option.map_eq_some_iff.mp hobserved
  obtain ⟨s', hs, hy⟩ := Option.map_eq_some_iff.mp hkernel
  have hlink := h.link.step False.elim hs
  rcases own_cases h.link hs he with hkept | ⟨rfl, hpop⟩ | ⟨rfl, hcall, hmem, rfl⟩
  · rw [if_neg (callee_of_kept hs hkept)] at hy
    subst hy
    have hsame : e ≠ .tickIncrease → Follows c t m start interval { x with kernel := s' } σ := by
      intro hne
      exact h.kept (y := { x with kernel := s' }) hlink hkept rfl
        ((Timer.tick_step hs hne).trans h.tick)
    cases e with
    | start u | stop u | detach u | control u cmd =>
      apply hsame
      intro hne
      cases hne
    | tickIncrease =>
      cases hs
      refine h.kept (y := { x with kernel := { x.kernel with tick := x.kernel.tick + 1 } })
        hlink hkept rfl ?_
      rw [h.tick, BitVec.ofNat_add, BitVec.add_assoc]
      rfl
    | checkPop k =>
      show Follows c t m start interval _ (if _ then _ else σ)
      rw [if_neg (callee_of_kept hs hkept)]
      apply hsame
      intro hne
      cases hne
    | checkFinish k =>
      show Follows c t m start interval _ (if _ then _ else σ)
      rw [if_neg (subject_of_kept h.link hs hkept)]
      apply hsame
      intro hne
      cases hne
  · have hcallee : callee c x.kernel (.checkPop (x.kernel.timer t).kind) = some t := by
      rw [callee, hpop]
      rfl
    rw [if_pos hcallee] at hy
    subst hy
    show Follows c t m start interval _ (if _ then _ else σ)
    rw [if_pos hcallee]
    exact h.pop hpop hlink
  · have hsubject : subject c x.kernel (.checkFinish (x.kernel.timer t).kind) = some t := by
      rw [subject, if_neg (List.ne_nil_of_mem hmem), hcall]
    have hcallee : callee c x.kernel (.checkFinish (x.kernel.timer t).kind) ≠ some t := by
      intro heq
      cases heq
    rw [if_neg hcallee] at hy
    subst hy
    show Follows c t m start interval _ (if _ then _ else σ)
    rw [if_pos hsubject]
    exact h.finish hcall hmem hlink

theorem Follows.run (h : Follows c t m start interval x σ) {es : List Timer.Event}
    (hes : ∀ e ∈ es, ¬ Touches t e) (hrun : Runs.run (observed c t) (x, σ) es = some z) :
    Follows c t m start interval z.1 z.2 := by
  induction es generalizing x σ with
  | nil =>
    cases hrun
    exact h
  | cons e es ih =>
    obtain ⟨mid, he, hrun⟩ := Runs.run_cons_some.mp hrun
    exact ih (h.step (hes e List.mem_cons_self) he)
      (fun e' he' => hes e' (List.mem_cons_of_mem e he')) hrun

/-- A timer that follows its schedule is on it. -/
theorem Follows.onSchedule (h : Follows c t m start interval x σ) :
    OnSchedule c t x.kernel σ where
  called := by
    intro k s' hpop
    obtain ⟨⟨rest, hrow⟩, hdue, -⟩ := timerCheckPop_some.mp hpop
    have hmem : t ∈ x.kernel.rows k (c.level - 1) := by
      rw [hrow]
      exact List.mem_cons_self
    have hlinked : Linked c x.kernel t := by
      rw [Linked, h.link.own k t hmem]
      exact hmem
    have hcalling : σ.calling = false := by
      rw [← Bool.not_eq_true]
      exact fun hcalls => (h.link.awaiting _ t (h.calls hcalls)).2.2 hlinked
    exact ⟨_, (h.waits hcalling).2, of_decide_eq_true hdue⟩
  waits := by
    intro hcalling d hd
    obtain ⟨hlinked, hdue⟩ := h.waits hcalling
    exact ⟨hlinked, Option.some.inj (hdue.symm.trans hd)⟩
  ended := by
    intro hcalling hnone
    rw [(h.waits hcalling).2] at hnone
    cases hnone

end follows

/-! ## The call -/

theorem stopActive_obj (t : TimerId) (x : State) : (stopActive t x).obj = x.obj := by
  rw [stopActive]
  split <;> rfl

theorem stopActive_tick (t : TimerId) (x : State) :
    (stopActive t x).kernel.tick = x.kernel.tick := by
  rw [stopActive]
  split
  · rw [Timer.rtTimerStop]
    split <;> rfl
  · rfl

theorem stopActive_link (t : TimerId) {x : State} (h : Linkage False c x.kernel) :
    Linkage False c (stopActive t x).kernel := by
  rw [stopActive]
  split
  · exact h.stop t
  · exact h

/-- The timer is given its ticks, made periodic and started. -/
theorem rtTimer_armed {s : Timer.State} {m : Tick} (h : Linkage False c s)
    (hless : m.toNat < rtTickMaxHalf) :
    ∃ r₁ r₂, Timer.rtTimerControl s t (.setTime m) = some r₁ ∧
      Timer.rtTimerControl r₁.1 t .setPeriodic = some r₂ ∧
      Linkage False c (rtTimerStart c r₂.1 t) ∧ Linked c (rtTimerStart c r₂.1 t) t ∧
      (rtTimerStart c r₂.1 t).tick = s.tick ∧
      (rtTimerStart c r₂.1 t).timer t =
        { s.timer t with
          activated := true, periodic := true, initTick := m, timeoutTick := s.tick + m } := by
  obtain ⟨k₁, hk₁⟩ : ∃ k, k = Timer.setTimer s t { s.timer t with initTick := m } := ⟨_, rfl⟩
  obtain ⟨k₂, hk₂⟩ : ∃ k, k = Timer.setTimer k₁ t { k₁.timer t with periodic := true } :=
    ⟨_, rfl⟩
  have hset : Timer.rtTimerControl s t (.setTime m) = some (k₁, none) := by
    rw [Timer.rtTimerControl, if_pos hless, hk₁]
  have hperiodic : Timer.rtTimerControl k₁ t .setPeriodic = some (k₂, none) := by
    rw [Timer.rtTimerControl, hk₂]
  have hlink : Linkage False c k₂ := (h.control hset).control hperiodic
  refine ⟨_, _, hset, hperiodic, hlink.start t,
    (Timer.linked_rtTimerStart hlink t).mpr (.inl rfl), ?_, ?_⟩
  · rw [Timer.tick_start, hk₂, hk₁]
    rfl
  · rw [timer_started, hk₂, hk₁]
    simp [Timer.setTimer]

/-- A call that arms the timer starts its schedule. -/
theorem timerSettime_follows {mem : Tick → Option Tick} {x : State} {m : Tick}
    (hlink : Linkage False c x.kernel) (hvalue : value.Accepted)
    (hnonzero : ¬ (value.value.sec = 0 ∧ value.value.nsec = 0))
    (hrepeats : ¬ (value.interval.sec = 0 ∧ value.interval.nsec = 0))
    (hword : mem (reloadTicks tps value.interval) = some m) (hless : m.toNat < rtTickMaxHalf)
    (hfirst : m.toNat = ticks tps value.value) (hevery : m.toNat = ticks tps value.interval) :
    ∃ old y, timerSettime c tps mem (some t) (some value) true x = some (.eok, old, y) ∧
      Follows c t m x.kernel.tick value.interval y (schedule tps value x.kernel.tick) := by
  obtain ⟨y, hy⟩ : ∃ y, y = stopActive t (setObj x t
      { x.obj t with interval := value.interval, reload := reloadTicks tps value.interval }) :=
    ⟨_, rfl⟩
  have hobj : (setObj y t { y.obj t with active := true }).obj t =
      ⟨value.interval, reloadTicks tps value.interval, true⟩ := by
    rw [hy]
    simp [setObj, stopActive_obj]
  have htick : y.kernel.tick = x.kernel.tick := by
    rw [hy]
    exact stopActive_tick t _
  have hlink : Linkage False c y.kernel := by
    rw [hy]
    exact stopActive_link t hlink
  obtain ⟨r₁, r₂, hset, hperiodic, hstarted, hlinked, htick₂, htimer⟩ :=
    rtTimer_armed (t := t) hlink hless
  have hdue : BitVec.ofNat 32 (ticks tps value.value) = m := by
    rw [← hfirst, BitVec.ofNat_toNat, BitVec.setWidth_eq]
  refine ⟨(timerGettime tps (some t) true x).2.1,
    { setObj y t { y.obj t with active := true } with kernel := rtTimerStart c r₂.1 t }, ?_, ?_⟩
  · rw [timerSettime, if_neg (not_not.mpr hvalue), if_neg (by decide), if_neg hnonzero]
    dsimp only
    rw [← hy, hobj]
    rw [hword, Option.bind_some]
    show Option.bind (Timer.rtTimerControl y.kernel t (.setTime m)) _ = _
    rw [hset, Option.bind_some, hperiodic]
    rfl
  · refine ⟨hstarted, ?_, ?_, ?_, ?_, ?_, ?_, ?_, fun _ => ⟨?_, rfl⟩, fun _ => ⟨hlinked, ?_⟩,
      nofun⟩
    · rw [htimer]
    · rw [htimer]
    · rw [htimer]
    · rw [hobj]
    · rw [schedule, if_neg hrepeats, hevery]
    · exact (htick₂.trans htick).trans (BitVec.add_zero _).symm
    · intro _
      rw [hobj]
    · rw [schedule, hdue]
    · rw [htimer, schedule, hdue, htick]

/-! ## Reading the time that is left -/

theorem int32_ofNat (h : n < 2 ^ 31) : int32 n = n :=
  int32_eq (by omega) (by omega)

/-- A quotient loses something when its dividend is cut to a word. -/
theorem cut_div_lt (hpos : 0 < tps) (htps : tps < 2 ^ 31) (h : 2 ^ 32 ≤ n) :
    n % 2 ^ 32 / tps < n / tps := by
  have hsum : n % 2 ^ 32 / tps + 1 = (n % 2 ^ 32 + tps) / tps := (Nat.add_div_right _ hpos).symm
  have hle : n % 2 ^ 32 + tps ≤ n := by
    omega
  have hmono : (n % 2 ^ 32 + tps) / tps ≤ n / tps := Nat.div_le_div_right hle
  omega

/-- The nanoseconds are right where they fit before the division. -/
theorem remainingTime_iff (hpos : 0 < tps) (htps : tps < 2 ^ 31) {left : Tick}
    (hleft : left.toNat < 2 ^ 31) :
    remainingTime tps left =
        ⟨(left.toNat / tps : Nat), (left.toNat % tps * nanosecondPerSecond / tps : Nat)⟩ ↔
      left.toNat % tps * nanosecondPerSecond < 2 ^ 32 := by
  have hrest : left.toNat % tps < tps := Nat.mod_lt _ hpos
  have hseconds : left.toNat / tps < 2 ^ 31 := (Nat.div_le_self _ _).trans_lt hleft
  have hnano : left.toNat % tps * 1000 * 1000000 = left.toNat % tps * nanosecondPerSecond :=
    Nat.mul_assoc _ 1000 1000000
  have hcut : left.toNat % tps * nanosecondPerSecond % 2 ^ 32 / tps < 2 ^ 31 := by
    rw [Nat.div_lt_iff_lt_mul hpos]
    rcases Nat.lt_or_ge 1 tps with hmany | hone
    · have hword : left.toNat % tps * nanosecondPerSecond % 2 ^ 32 < 2 ^ 32 :=
        Nat.mod_lt _ (by decide)
      omega
    · have hzero : left.toNat % tps = 0 := by omega
      omega
  rw [remainingTime, hnano, int32_ofNat hseconds, int32_ofNat hcut, Timespec.mk.injEq]
  constructor
  · rintro ⟨-, heq⟩
    by_contra hlate
    exact (cut_div_lt hpos htps (Nat.le_of_not_lt hlate)).ne (Int.ofNat_inj.mp heq)
  · intro hearly
    rw [Nat.mod_eq_of_lt hearly]
    exact ⟨rfl, rfl⟩

theorem Follows.reports_iff {m start : Tick} {x : State} {σ : Schedule}
    (h : Follows c t m start value.interval x σ) (hpos : 0 < tps) (htps : tps < 2 ^ 31)
    (hless : m.toNat < rtTickMaxHalf) (hexpired : σ.expired = false)
    (helapsed : σ.elapsed ≤ m.toNat) :
    Reports tps t x value (m.toNat - σ.elapsed) ↔
      (m.toNat - σ.elapsed) % tps * nanosecondPerSecond < 2 ^ 32 := by
  obtain ⟨hdue, hcalling⟩ := h.first hexpired
  have hhalf : rtTickMaxHalf = 2147483647 := rfl
  have htimeout : (x.kernel.timer t).timeoutTick = start + m :=
    Option.some.inj ((h.waits hcalling).2.symm.trans hdue)
  have hleft : ((x.kernel.timer t).timeoutTick - x.kernel.tick).toNat = m.toNat - σ.elapsed := by
    rw [htimeout, h.tick]
    bv_omega
  have hiff := @remainingTime_iff tps hpos htps
    ((x.kernel.timer t).timeoutTick - x.kernel.tick) (by omega)
  rw [hleft] at hiff
  rw [← hiff, Reports, timerGettime]
  rw [if_neg (by decide), if_pos (h.active hexpired), h.interval]
  simp only [Prod.mk.injEq, Option.some.injEq, Itimerspec.mk.injEq, true_and, and_true]

/-- From every reachable state of the kernel's timers on, a call that arms a timer returns, and
its timer keeps the schedule that was set. -/
theorem timer_on_schedule {tps : Nat} {mem : Tick → Option Tick} {value : Itimerspec}
    {ovalue : Bool} {x : State} {tick : Tick} {timer : TimerId → Timer.RtTimer}
    (before : List Timer.Event) (hpos : 0 < tps) (htps : tps < 2 ^ 31)
    (hinit : ∀ u, (timer u).activated = false)
    (hreach : Runs.run (Timer.step c) (Timer.rtSystemTimerInit tick timer) before =
      some x.kernel)
    (hvalue : value.Accepted) (hnonzero : ¬ (value.value.sec = 0 ∧ value.value.nsec = 0))
    (harms : Arms tps mem value ovalue) :
    ∃ old y, timerSettime c tps mem (some t) (some value) ovalue x = some (.eok, old, y) ∧
      KeepsSchedule c tps t value y x.kernel.tick := by
  obtain ⟨rfl, hrepeats, m, hword, hless, hfirst, hevery⟩ := harms
  have hlink : Linkage False c x.kernel :=
    Runs.run_invariant (fun _ _ _ h hs => h.step False.elim hs)
      (Timer.linkage_init False c tick hinit) hreach
  obtain ⟨old, y, hcall, hfollows⟩ := timerSettime_follows hlink hvalue hnonzero hrepeats hword
    hless hfirst hevery
  refine ⟨old, y, hcall, fun es hes z hrun => ?_⟩
  have hend := hfollows.run hes hrun
  refine ⟨hend.onSchedule, fun hexpired helapsed => ?_⟩
  rw [← hfirst] at helapsed ⊢
  exact hend.reports_iff hpos htps hless hexpired helapsed

/-- A timer that was created and not set, at tick 7. -/
def created : State where
  kernel := Timer.rtSystemTimerInit 7 fun _ => Timer.timerInit 0 false .soft
  obj := fun _ => ⟨⟨0, 0⟩, 0, false⟩
  errno := none

/-- 30 ms and then every 30 ms, where every address that can be read holds the three ticks. -/
theorem timer_on_schedule_three :
    ∃ old y, timerSettime ⟨1, 3, by decide⟩ 100 (fun _ => some 3) (some 0)
        (some ⟨⟨0, 30000000⟩, ⟨0, 30000000⟩⟩) true created = some (.eok, old, y) ∧
      KeepsSchedule ⟨1, 3, by decide⟩ 100 0 ⟨⟨0, 30000000⟩, ⟨0, 30000000⟩⟩ y 7 :=
  timer_on_schedule [] (by decide) (by decide) (fun _ => rfl) rfl (by decide)
    (by decide) ⟨rfl, by decide, 3, rfl, by decide, by decide, by decide⟩

/-- One second and never again: the word at address zero becomes the time, and the timer is
periodic. -/
theorem timer_not_on_schedule :
    ∃ old y, timerSettime ⟨1, 3, by decide⟩ 100 (fun _ => some 0x20005000) (some 0)
        (some ⟨⟨0, 0⟩, ⟨1, 0⟩⟩) true created = some (.eok, old, y) ∧
      (y.kernel.timer 0).timeoutTick = 7 + 0x20005000 ∧
      (y.kernel.timer 0).periodic = true ∧
      ¬ KeepsSchedule ⟨1, 3, by decide⟩ 100 0 ⟨⟨0, 0⟩, ⟨1, 0⟩⟩ y 7 := by
  refine ⟨_, _, rfl, rfl, rfl, fun hkeeps => ?_⟩
  obtain ⟨⟨-, hwaits, -⟩, -⟩ := hkeeps [] nofun _ rfl
  exact absurd (hwaits rfl _ rfl).2 (by decide)

end RtThread.PosixTimer
