import RtThread.DataQueueFifo

/-!
# The waiting time of a data queue

`rt_data_queue_push` and `rt_data_queue_pop` arm the thread timer in every turn of their loops with
the timeout of the call. The ticks are followed for one thread: those that its timer has left, and
those that its call has waited for.
-/
namespace RtThread.DataQueue

open Ipc

/-- The timeout of the call that a thread waits in. -/
def Call.timeout : Call → BitVec 32
  | .pushing _ timeout | .popping timeout => timeout
  | .outside | .peeking | .resetting _ | .waking _ => 0

/-- The condition of the loop that the thread waits in. -/
def Call.blocked (dq : RtDataQueue) : Call → Bool
  | .pushing _ _ => dq.isFull
  | .popping _ => dq.isEmpty
  | .outside | .peeking | .resetting _ | .waking _ => false

structure Timed where
  queue : State
  left : Nat
  waited : Nat

inductive TimedOp where
  | tick
  | op (op : Op)
  deriving DecidableEq

def Suspended (s : State) (t : ThreadId) : Prop := (s.waiters.thread t).suspended = true

def Armed (s : State) (t : ThreadId) : Prop := (s.waiters.thread t).timerActive = true

instance (s : State) (t : ThreadId) : Decidable (Suspended s t) :=
  inferInstanceAs (Decidable (_ = _))

instance (s : State) (t : ThreadId) : Decidable (Armed s t) := inferInstanceAs (Decidable (_ = _))

/-- The thread begins a call that may wait. -/
def Op.begins (t : ThreadId) : Op → Bool
  | .push u _ _ | .pop u _ => decide (u = t)
  | .switchBack _ | .peek _ | .reset _ | .proceed _ | .timeout _ => false

/-- A turn of the loop of the thread. -/
def Op.turns (t : ThreadId) : Op → Bool
  | .push u _ _ | .pop u _ | .switchBack u => decide (u = t)
  | .peek _ | .reset _ | .proceed _ | .timeout _ => false

/-- One step of the queue or one tick. The timer of the thread expires in the tick in which its
time has run out. -/
def timedStep (t : ThreadId) (x : Timed) : TimedOp → Option Timed
  | .tick =>
    if Armed x.queue t then
      if x.left = 0 then none else some { x with left := x.left - 1, waited := x.waited + 1 }
    else some x
  | .op op =>
    if op = .timeout t ∧ x.left ≠ 0 then none
    else
      (step x.queue op).map fun s =>
        { queue := s
          left := if op.turns t ∧ Armed s t then (s.call t).timeout.toNat else x.left
          waited := if op.begins t then 0 else x.waited }

/-- A call with a finite timeout has not waited for longer than that, and when it waits its timer
ends the wait before. -/
def InTime (t : ThreadId) (x : Timed) : Prop :=
  0 < (x.queue.call t).timeout.toInt →
    x.waited ≤ (x.queue.call t).timeout.toNat ∧
      (Suspended x.queue t →
        Armed x.queue t ∧ x.waited + x.left ≤ (x.queue.call t).timeout.toNat)

/-- The thread is woken and finds nothing, with ticks waited for already. -/
def InVain (t : ThreadId) (x : Timed) (e : TimedOp) : Prop :=
  e = .op (.switchBack t) ∧ ¬ Suspended x.queue t ∧ (x.queue.waiters.thread t).error = .eok ∧
    0 < (x.queue.call t).timeout.toInt ∧ (x.queue.call t).blocked x.queue.dq = true ∧ 0 < x.waited

instance (t : ThreadId) (x : Timed) (e : TimedOp) : Decidable (InVain t x e) :=
  inferInstanceAs (Decidable (_ ∧ _))

/-! ## The timer of the thread -/

/-- The timer runs only while the thread is suspended, and the thread waits in a call with a
timeout that the timer takes. -/
structure Sane (s : State) (t : ThreadId) : Prop where
  suspended : Armed s t → Suspended s t
  accepted : (s.call t).timeout.toInt < rtTickMaxHalf

/-- What the other threads can do to the thread: to leave it as it is, or to end its wait. -/
def KeptOrWoken (x x' : Thread) : Prop :=
  x'.suspended = x.suspended ∧ x'.timerActive = x.timerActive ∨
    x'.suspended = false ∧ x'.timerActive = false

/-- The end of a turn of the loop: the thread leaves, or it waits with its timer armed anew. -/
def Turned (blocked : Bool) (timeout : BitVec 32) (t : ThreadId) (s' : State) : Prop :=
  s'.call t = .outside ∧ ¬ Suspended s' t ∧ ¬ Armed s' t ∨
    blocked = true ∧ (s'.call t).timeout = timeout ∧ timeout.toInt < rtTickMaxHalf ∧
      Suspended s' t ∧ (Armed s' t ↔ 0 < timeout.toInt)

section timers

variable {s s' : State} {op : Op} {ret : Option Ret} {t u : ThreadId} {timeout : BitVec 32}
  {w w' : Waiters Role} {r : Role} {x x' x'' : Thread} {item : RtDataItem}

theorem KeptOrWoken.refl (x : Thread) : KeptOrWoken x x := .inl ⟨rfl, rfl⟩

theorem KeptOrWoken.running (h : KeptOrWoken x x') (hs : x.suspended = false)
    (ht : x.timerActive = false) : x'.suspended = false ∧ x'.timerActive = false := by
  obtain ⟨hs', ht'⟩ | hfree := h
  · exact ⟨hs'.trans hs, ht'.trans ht⟩
  · exact hfree

theorem wake_thread (w : Waiters Role) (r : Role) (t : ThreadId) :
    KeptOrWoken (w.thread t) ((w.wake r).thread t) := by
  rw [Waiters.wake]
  cases w.list r with
  | nil => exact .refl _
  | cons v vs =>
    simp only [ipcListResume]
    split
    · by_cases ht : t = v
      · exact .inr (by simp [ht])
      · exact .inl (by simp [ht])
    · exact .refl _

theorem setError_wake_thread (w : Waiters Role) (r : Role) (u t : ThreadId) (err : RtErr) :
    KeptOrWoken (w.thread t) (((w.setError u err).wake r).thread t) := by
  have h := wake_thread (w.setError u err) r t
  simpa [KeptOrWoken, Waiters.setError] using h

theorem timeout_thread (w : Waiters Role) (u t : ThreadId) :
    KeptOrWoken (w.thread t) ((w.timeout u).thread t) := by
  by_cases ht : t = u
  · exact .inr (by simp [Waiters.timeout, threadTimeout, ht])
  · exact .inl (by simp [Waiters.timeout, threadTimeout, ht])

theorem block_other (hu : (w.thread u).suspended = false)
    (hb : w.block .fifo r u timeout = some w') (ht : t ≠ u) :
    KeptOrWoken (w.thread t) (w'.thread t) := by
  obtain ⟨l, -, rfl⟩ := Waiters.block_eq hu hb
  exact .inl (by simp [ht])

theorem block_self (ht : (w.thread t).suspended = false)
    (hb : w.block .fifo r t timeout = some w') :
    (w'.thread t).suspended = true ∧ ((w'.thread t).timerActive = true ↔ 0 < timeout.toInt) := by
  obtain ⟨l, -, rfl⟩ := Waiters.block_eq ht hb
  simp

/-- A thread can wait with every timeout that its timer takes. -/
theorem block_isSome :
    (∃ w', w.block .fifo r t timeout = some w') ↔ timeout.toInt < rtTickMaxHalf := by
  have hmax : (0 : Int) < rtTickMaxHalf := by decide
  simp only [Waiters.block, ipcListSuspend, startThreadTimer, Option.map_eq_some_iff]
  split
  · split
    · simp_all
    · simp_all
  · constructor
    · intro _
      omega
    · intro _
      exact ⟨_, _, rfl, rfl⟩

/-! ## What a step does to the thread -/

theorem push_turned (ht : ¬ Suspended s t) (hidle : ¬ Armed s t)
    (h : rtDataQueuePush s t item timeout = some (s', ret)) : Turned s.dq.isFull timeout t s' := by
  rw [Suspended, Bool.not_eq_true] at ht
  rw [Armed, Bool.not_eq_true] at hidle
  rw [rtDataQueuePush] at h
  split at h
  · rename_i hfull
    split at h
    · cases h
      exact .inl ⟨by simp [setCall], by simp [Suspended, setCall, ht], by simp [Armed, setCall, hidle]⟩
    · obtain ⟨w, hw, heq⟩ := Option.map_eq_some_iff.mp h
      cases heq
      obtain ⟨hs, harmed⟩ := block_self ht hw
      exact .inr ⟨hfull, by simp [setCall, Call.timeout], block_isSome.mp ⟨w, hw⟩, hs, harmed⟩
  · cases h
    obtain ⟨hs, harmed⟩ := (wake_thread s.waiters .receiver t).running ht hidle
    exact .inl ⟨by simp [setCall], by simp [Suspended, setCall, hs],
      by simp [Armed, setCall, harmed]⟩

theorem pop_turned (ht : ¬ Suspended s t) (hidle : ¬ Armed s t)
    (h : rtDataQueuePop s t timeout = some (s', ret)) : Turned s.dq.isEmpty timeout t s' := by
  rw [Suspended, Bool.not_eq_true] at ht
  rw [Armed, Bool.not_eq_true] at hidle
  rw [rtDataQueuePop] at h
  split at h
  · rename_i hempty
    split at h
    · cases h
      exact .inl ⟨by simp [setCall], by simp [Suspended, setCall, ht], by simp [Armed, setCall, hidle]⟩
    · obtain ⟨w, hw, heq⟩ := Option.map_eq_some_iff.mp h
      cases heq
      obtain ⟨hs, harmed⟩ := block_self ht hw
      exact .inr ⟨hempty, by simp [setCall, Call.timeout], block_isSome.mp ⟨w, hw⟩, hs, harmed⟩
  · cases h
    obtain ⟨hs, harmed⟩ := (wake_thread s.waiters .sender t).running ht hidle
    refine .inl ⟨by simp [setCall], ?_, ?_⟩
    · simp only [Suspended, setCall]
      split
      · simp [hs]
      · simp [ht]
    · simp only [Armed, setCall]
      split
      · simp [harmed]
      · simp [hidle]

/-- A woken thread that goes back to the condition of its loop. -/
theorem switchBack_turned (hs : Sane s t) (ht : ¬ Suspended s t)
    (h : switchBack s t = some (s', ret)) :
    Turned ((s.call t).blocked s.dq && decide ((s.waiters.thread t).error = .eok))
      (s.call t).timeout t s' := by
  have hidle : ¬ Armed s t := fun harmed => ht (hs.suspended harmed)
  have hleave : ∀ blocked timeout, Turned blocked timeout t (setCall s t .outside) :=
    fun _ _ => .inl ⟨by simp [setCall], ht, hidle⟩
  rw [switchBack] at h
  cases hc : s.call t with
  | pushing item timeout =>
    simp only [hc] at h
    split at h
    · cases h
      exact hleave _ _
    · rename_i herr
      have hturned := push_turned ht hidle h
      simpa [Call.blocked, Call.timeout, not_not.mp herr] using hturned
  | popping timeout =>
    simp only [hc] at h
    split at h
    · cases h
      exact hleave _ _
    · rename_i herr
      have hturned := pop_turned ht hidle h
      simpa [Call.blocked, Call.timeout, not_not.mp herr] using hturned
  | outside | peeking | resetting | waking => simp [hc] at h

/-- A woken thread that finds nothing waits again. -/
theorem switchBack_blocks (ht : ¬ Suspended s t) (herr : (s.waiters.thread t).error = .eok)
    (hacc : (s.call t).timeout.toInt < rtTickMaxHalf) (hpos : 0 < (s.call t).timeout.toInt)
    (hb : (s.call t).blocked s.dq = true) :
    ∃ s', step s (.switchBack t) = some s' ∧ (s'.call t).timeout = (s.call t).timeout ∧
      Suspended s' t := by
  rw [Suspended, Bool.not_eq_true] at ht
  cases hc : s.call t with
  | pushing item timeout =>
    rw [hc] at hacc hpos hb
    obtain ⟨w, hw⟩ := (@block_isSome t timeout s.waiters .sender).mpr hacc
    have hpos : 0 < timeout.toInt := hpos
    have hne : timeout ≠ 0#32 := by
      rintro rfl
      exact absurd hpos (by decide)
    refine ⟨setCall { s with waiters := w } t (.pushing item timeout), ?_, ?_, (block_self ht hw).1⟩
    · have hfull : s.dq.isFull = true := hb
      simp [step, call, ht, switchBack, hc, herr, rtDataQueuePush, hfull, if_neg hne, hw]
    · simp [setCall]
  | popping timeout =>
    rw [hc] at hacc hpos hb
    obtain ⟨w, hw⟩ := (@block_isSome t timeout s.waiters .receiver).mpr hacc
    have hne : timeout ≠ 0#32 := by
      rintro rfl
      exact absurd hpos (by decide)
    refine ⟨setCall { s with waiters := w } t (.popping timeout), ?_, ?_, (block_self ht hw).1⟩
    · have hempty : s.dq.isEmpty = true := hb
      simp [step, call, ht, switchBack, hc, herr, rtDataQueuePop, hempty, if_neg hne, hw]
    · simp [setCall]
  | outside | peeking | resetting | waking => simp [hc, Call.blocked] at hb

/-- A turn of the loop of the thread. -/
theorem step_turned (hs : Sane s t) (hop : op.turns t = true) (h : step s op = some s') :
    (op.begins t = true ∧ ∃ blocked timeout, Turned blocked timeout t s') ∨
      op = .switchBack t ∧ ¬ Suspended s t ∧
        Turned ((s.call t).blocked s.dq && decide ((s.waiters.thread t).error = .eok))
          (s.call t).timeout t s' := by
  obtain ⟨⟨s'', ret⟩, hcall, rfl⟩ := Option.map_eq_some_iff.mp h
  cases op with
  | push u item timeout =>
    obtain rfl : u = t := by simpa [Op.turns] using hop
    obtain ⟨hact, hpush⟩ := Option.ite_none_right_eq_some.mp hcall
    have ht : ¬ Suspended s u := by simp [Suspended, hact.1]
    exact .inl ⟨by simp [Op.begins], _, _, push_turned ht (fun ha => ht (hs.suspended ha)) hpush⟩
  | pop u timeout =>
    obtain rfl : u = t := by simpa [Op.turns] using hop
    obtain ⟨hact, hpop⟩ := Option.ite_none_right_eq_some.mp hcall
    have ht : ¬ Suspended s u := by simp [Suspended, hact.1]
    exact .inl ⟨by simp [Op.begins], _, _, pop_turned ht (fun ha => ht (hs.suspended ha)) hpop⟩
  | switchBack u =>
    obtain rfl : u = t := by simpa [Op.turns] using hop
    obtain ⟨hrun, hback⟩ := Option.ite_none_right_eq_some.mp hcall
    have ht : ¬ Suspended s u := by simp [Suspended, hrun]
    exact .inr ⟨rfl, ht, switchBack_turned hs ht hback⟩
  | peek | reset | proceed | timeout => simp [Op.turns] at hop

theorem Tries.turns {o : Operation} (h : Tries s op u o) : op.turns u = true := by
  cases h with
  | push | pop | pushAgain | popAgain => simp [Op.turns]

theorem timeout_of_role {c : Call} (h : c.role = none) : c.timeout = 0 := by
  cases c with
  | pushing | popping => simp [Call.role] at h
  | outside | peeking | resetting | waking => rfl

theorem setCall_timeout {c : Call} (hc : c.role = none) :
    ((setCall s u c).call t).timeout = (s.call t).timeout ∨
      ((setCall s u c).call t).timeout = 0 := by
  by_cases ht : t = u
  · exact .inr (by simp [setCall, ht, timeout_of_role hc])
  · exact .inl (by simp [setCall, ht])

/-- A step that is no turn of the loop of the thread. -/
theorem step_other (hop : op.turns t = false) (h : step s op = some s') :
    KeptOrWoken (s.waiters.thread t) (s'.waiters.thread t) ∧
      ((s'.call t).timeout = (s.call t).timeout ∨ (s'.call t).timeout = 0) := by
  obtain ⟨⟨s'', ret⟩, hcall, rfl⟩ := Option.map_eq_some_iff.mp h
  have hother : ∀ {u : ThreadId} {o : Operation}, Tries s op u o → t ≠ u := by
    rintro u o htries rfl
    rw [htries.turns] at hop
    cases hop
  cases call_result hcall with
  | put ht hroom => exact ⟨wake_thread _ _ _, setCall_timeout rfl⟩
  | take ht hitem =>
    refine ⟨?_, setCall_timeout rfl⟩
    split
    · exact wake_thread _ _ _
    · exact .refl _
  | block ht hun hblock hc =>
    exact ⟨block_other ht.running hblock (hother ht), .inl (by simp [setCall, hother ht])⟩
  | refused | failed | peek | peeked | reset => exact ⟨.refl _, setCall_timeout rfl⟩
  | peekEmpty hempty => exact ⟨.refl _, .inl rfl⟩
  | @tested u r ht hc =>
    obtain ⟨c, heq, hrole, -⟩ := resetTest_eq s u r
    rw [heq]
    exact ⟨.refl _, setCall_timeout hrole⟩
  | wake ht hc hl => exact ⟨setError_wake_thread _ _ _ _ _, setCall_timeout rfl⟩
  | timeout ht => exact ⟨timeout_thread _ _ _, .inl rfl⟩

end timers

/-! ## Runs -/

section runs

variable {x x' : Timed} {e : TimedOp} {op : Op} {s : State} {t : ThreadId}

/-- The state of the thread and the ticks behind a step of the queue. -/
theorem timedStep_op (h : timedStep t x (.op op) = some x') :
    step x.queue op = some x'.queue ∧
      x'.left = (if op.turns t ∧ Armed x'.queue t then (x'.queue.call t).timeout.toNat
        else x.left) ∧
      x'.waited = if op.begins t then 0 else x.waited := by
  obtain ⟨-, h⟩ := Option.ite_none_left_eq_some.mp h
  obtain ⟨s, hs, rfl⟩ := Option.map_eq_some_iff.mp h
  exact ⟨hs, rfl, rfl⟩

theorem timedStep_tick (h : timedStep t x .tick = some x') :
    x' = x ∧ ¬ Armed x.queue t ∨
      Armed x.queue t ∧ x.left ≠ 0 ∧ x' = { x with left := x.left - 1, waited := x.waited + 1 } := by
  simp only [timedStep] at h
  split at h
  · rename_i harmed
    obtain ⟨hleft, h⟩ := Option.ite_none_left_eq_some.mp h
    exact .inr ⟨harmed, hleft, (Option.some.inj h).symm⟩
  · rename_i harmed
    exact .inl ⟨(Option.some.inj h).symm, harmed⟩

theorem Turned.sane {blocked : Bool} {timeout : BitVec 32} (h : Turned blocked timeout t s) :
    Sane s t := by
  obtain ⟨hout, hrun, hidle⟩ | ⟨-, htimeout, hacc, hsusp, harmed⟩ := h
  · refine ⟨fun harmed => absurd harmed hidle, ?_⟩
    rw [hout]
    decide
  · exact ⟨fun _ => hsusp, by rw [htimeout]; exact hacc⟩

/-- A wait that begins with no ticks waited for is in time. -/
theorem Turned.inTime {blocked : Bool} {timeout : BitVec 32} (h : Turned blocked timeout t x.queue)
    (hleft : Armed x.queue t → x.left = (x.queue.call t).timeout.toNat)
    (hwaited : blocked = true → 0 < timeout.toInt → x.waited = 0) : InTime t x := by
  intro hpos
  obtain ⟨hout, -, -⟩ | ⟨hblocked, htimeout, -, -, harmed⟩ := h
  · rw [hout] at hpos
    exact absurd hpos (by decide)
  · rw [htimeout] at hpos
    have ha := harmed.mpr hpos
    rw [hwaited hblocked hpos, hleft ha]
    exact ⟨Nat.zero_le _, fun _ => ⟨ha, by omega⟩⟩

theorem timedStep_sane (hs : Sane x.queue t) (h : timedStep t x e = some x') :
    Sane x'.queue t := by
  cases e with
  | tick =>
    obtain ⟨rfl, -⟩ | ⟨-, -, rfl⟩ := timedStep_tick h
    · exact hs
    · exact hs
  | op op =>
    obtain ⟨hstep, -, -⟩ := timedStep_op h
    cases hop : op.turns t with
    | true =>
      obtain ⟨-, _, _, hturned⟩ | ⟨-, -, hturned⟩ := step_turned hs hop hstep
      · exact hturned.sane
      · exact hturned.sane
    | false =>
      obtain ⟨hthread, htimeout⟩ := step_other hop hstep
      constructor
      · intro harmed
        obtain ⟨hsusp, hactive⟩ | ⟨-, hidle⟩ := hthread
        · exact hsusp.trans (hs.suspended (hactive.symm.trans harmed))
        · exact Bool.noConfusion (hidle.symm.trans harmed)
      · obtain heq | hzero := htimeout
        · rw [heq]
          exact hs.accepted
        · rw [hzero]
          decide

theorem begins_turns (h : op.turns t = false) : op.begins t = false := by
  cases op with
  | push | pop => exact h
  | switchBack | peek | reset | proceed | timeout => rfl

theorem timedStep_inTime (hs : Sane x.queue t) (hin : InTime t x) (hok : ¬ InVain t x e)
    (h : timedStep t x e = some x') : InTime t x' := by
  cases e with
  | tick =>
    obtain ⟨rfl, -⟩ | ⟨harmed, hleft, rfl⟩ := timedStep_tick h
    · exact hin
    · intro hpos
      obtain ⟨-, hends⟩ := hin hpos
      obtain ⟨-, hle⟩ := hends (hs.suspended harmed)
      dsimp only
      exact ⟨by omega, fun _ => ⟨harmed, by omega⟩⟩
  | op op =>
    obtain ⟨hstep, hleft, hwaited⟩ := timedStep_op h
    cases hop : op.turns t with
    | true =>
      have hfull : Armed x'.queue t → x'.left = (x'.queue.call t).timeout.toNat := by
        intro ha
        rw [hleft, if_pos ⟨hop, ha⟩]
      obtain ⟨hbegins, _, _, hturned⟩ | ⟨rfl, hrun, hturned⟩ := step_turned hs hop hstep
      · refine hturned.inTime hfull fun _ _ => ?_
        rw [hwaited, if_pos hbegins]
      · refine hturned.inTime hfull fun hblocked hpos => ?_
        obtain ⟨hblocked, herr⟩ := Bool.and_eq_true_iff.mp hblocked
        have hzero : x.waited = 0 := by
          by_contra hne
          exact hok ⟨rfl, hrun, of_decide_eq_true herr, hpos, hblocked, Nat.pos_of_ne_zero hne⟩
        rw [hwaited]
        exact hzero
    | false =>
      obtain ⟨hthread, htimeout⟩ := step_other hop hstep
      intro hpos
      obtain heq | hzero := htimeout
      · rw [heq] at hpos ⊢
        obtain ⟨hle, hends⟩ := hin hpos
        rw [hwaited, hleft, begins_turns hop, hop]
        refine ⟨hle, fun hsusp => ?_⟩
        obtain ⟨hsusp', hactive⟩ | ⟨hrun, -⟩ := hthread
        · obtain ⟨ha, hsum⟩ := hends (hsusp'.symm.trans hsusp)
          exact ⟨hactive.trans ha, hsum⟩
        · exact Bool.noConfusion (hrun.symm.trans hsusp)
      · rw [hzero] at hpos
        exact absurd hpos (by decide)

/-- A wait in vain is begun again, and with its timeout anew it may end too late. -/
theorem timedStep_late (hs : Sane x.queue t) (h : InVain t x e) :
    ∃ x', timedStep t x e = some x' ∧ ¬ InTime t x' := by
  obtain ⟨rfl, hrun, herr, hpos, hblocked, hwaited⟩ := h
  obtain ⟨s', hs', htimeout, hsusp⟩ := switchBack_blocks hrun herr hs.accepted hpos hblocked
  have hstep : timedStep t x (.op (.switchBack t)) = some
      ⟨s', if Op.turns t (.switchBack t) ∧ Armed s' t then (s'.call t).timeout.toNat else x.left,
        x.waited⟩ := by
    simp [timedStep, hs', Op.begins]
  refine ⟨_, hstep, fun hin => ?_⟩
  rw [← htimeout] at hpos
  obtain ⟨-, hends⟩ := hin hpos
  obtain ⟨ha, hle⟩ := hends hsusp
  simp only [Op.turns, ha, decide_true, and_self, if_true] at hle
  omega

theorem init_sane (queue : Nat → RtDataItem) (size lwm : Nat) (priority : ThreadId → Nat) :
    Sane (init queue size lwm priority) t := by
  constructor
  · intro harmed
    simp [Armed, init, Waiters.init, started] at harmed
  · have hzero : (0 : BitVec 32).toInt < rtTickMaxHalf := by decide
    exact hzero

/-- When its time has run out, the call returns as soon as the thread has the processor. -/
theorem expired_returns (ha : Armed x.queue t) (hrole : (x.queue.call t).role ≠ none)
    (hleft : x.left = 0) :
    ∃ x' s', timedStep t x (.op (.timeout t)) = some x' ∧
      call x'.queue (.switchBack t) = some (s', some ⟨.etimeout, none⟩) := by
  have hactive : (x.queue.waiters.thread t).timerActive = true := ha
  have hstep : timedStep t x (.op (.timeout t)) =
      some { x with queue := { x.queue with waiters := x.queue.waiters.timeout t } } := by
    simp [timedStep, step, call, hactive, hleft, Op.turns, Op.begins]
  refine ⟨_, setCall { x.queue with waiters := x.queue.waiters.timeout t } t .outside, hstep, ?_⟩
  cases hc : x.queue.call t with
  | pushing item timeout | popping timeout =>
    simp [call, switchBack, hc, Waiters.timeout, threadTimeout]
  | outside | peeking | resetting | waking => exact absurd (by rw [hc]; rfl) hrole

/-- The wait of a push or a pop is bounded by its timeout, with whatever is taken before the
thread, as long as the thread has not waited for a tick already whenever it is woken in vain. The
first time it has, its timer is armed beyond the timeout. -/
theorem waiting_inTime_iff (queue : Nat → RtDataItem) (size lwm : Nat) (priority : ThreadId → Nat)
    (left waited : Nat) (t : ThreadId) (es : List TimedOp) :
    Runs.Always (timedStep t) (InTime t) ⟨init queue size lwm priority, left, waited⟩ es ↔
      Runs.Along (timedStep t) (fun x e => ¬ InVain t x e)
        ⟨init queue size lwm priority, left, waited⟩ es := by
  have hstart : InTime t ⟨init queue size lwm priority, left, waited⟩ := by
    intro hpos
    have hzero : ¬ 0 < (0 : BitVec 32).toInt := by decide
    exact absurd hpos hzero
  exact @Runs.always_iff_along_of _ _ (timedStep t) (fun _ _ => True) (fun x e => ¬ InVain t x e)
    (fun x => Sane x.queue t) (InTime t) (fun x e x' hs _ h => timedStep_sane hs h)
    (fun x e x' hs _ hin hok h => timedStep_inTime hs hin hok h)
    (fun x e hs _ _ hvain => timedStep_late hs (not_not.mp hvain)) _ es
    (init_sane queue size lwm priority) (Runs.along_of_forall (fun _ _ => trivial) _) hstart

/-- Thread 0 waits two ticks for an item. After the first of them thread 1 puts an item and takes
it back before thread 0 runs. -/
def takenBack : List TimedOp :=
  [.op (.pop 0 2), .tick, .op (.push 1 ⟨0, 4⟩ 0), .op (.pop 1 0), .op (.switchBack 0), .tick, .tick]

theorem takenBack_overdue :
    ¬ ∀ (queue : Nat → RtDataItem) (size lwm : Nat) (priority : ThreadId → Nat) (t : ThreadId)
      (es : List TimedOp) (x : Timed),
      Runs.run (timedStep t) ⟨init queue size lwm priority, 0, 0⟩ es = some x →
      0 < (x.queue.call t).timeout.toInt → x.waited ≤ (x.queue.call t).timeout.toNat := by
  intro h
  have hvalues : (Runs.run (timedStep 0) ⟨init (fun _ => ⟨0, 0⟩) 1 0 fun _ => 10, 0, 0⟩
      takenBack).map (fun x => ((x.queue.call 0).timeout, x.waited)) = some (2, 3) := by
    decide +kernel
  obtain ⟨x, hx, hvalues⟩ := Option.map_eq_some_iff.mp hvalues
  obtain ⟨htimeout, hwaited⟩ := Prod.mk.inj hvalues
  have hle := h _ _ _ _ _ _ x hx (by rw [htimeout]; decide)
  rw [htimeout, hwaited] at hle
  exact absurd hle (by decide)

end runs

end RtThread.DataQueue
