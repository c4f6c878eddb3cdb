import RtThread.Deadlines

/-!
# Bounded waiting

`rt_mb_send_wait`, `rt_mb_recv`, `rt_mq_send_wait`, `rt_mq_recv` and `rt_mp_alloc` wait in a loop.
A thread that is woken works out how much of its time is left and looks again; when another
thread has been faster it waits once more. A call in progress is modelled beside the kernel: the
thread is asleep in the loop, or it runs again and has the rest of its time in hand. Whatever the
other threads and the interrupts do happens in between.

Two history variables count ticks: those since the thread went to sleep, and those during which
its timer was linked in the whole call.
-/
namespace RtThread.System

open Scheduler Thread ReadyQueue Rotation
open Timer (Linked rel)

/-- The calls that wait in a loop. -/
inductive WaitCall where
  | mbSendWait (i : ObjId) (value : Mailbox.Mail)
  | mbRecv (i : ObjId)
  | mqSendWait (i : ObjId) (data : List MessageQueue.Byte)
  | mqRecv (i : ObjId) (size : Nat)
  | mpAlloc (i : ObjId)
  deriving DecidableEq

/-- The first section of the call. -/
def WaitCall.start : WaitCall → BitVec 32 → Op
  | mbSendWait i value, timeout => .mbSendWait i value timeout
  | mbRecv i, timeout => .mbRecv i timeout
  | mqSendWait i data, timeout => .mqSendWait i data timeout
  | mqRecv i size, timeout => .mqRecv i size timeout
  | mpAlloc i, timeout => .mpAlloc i timeout

/-- A later turn of the loop. -/
def WaitCall.again : WaitCall → BitVec 32 → Op
  | mbSendWait i value, timeout => .mbSendLoop i value timeout
  | mbRecv i, timeout => .mbRecvLoop i timeout
  | mqSendWait i _, timeout => .mqSendLoop i timeout
  | mqRecv i _, timeout => .mqRecvLoop i timeout
  | mpAlloc i, timeout => .mpAlloc i timeout

/-- `rt_mp_alloc` works out the time that is left before it disables interrupts. -/
def WaitCall.interruptible : WaitCall → Bool
  | mpAlloc _ => true
  | _ => false

inductive Phase where
  /-- Suspended in the loop, or woken and not running yet. -/
  | asleep (timeout : BitVec 32) (since : Tick) (passed : Nat)
  /-- Running again, with the time that is left. -/
  | awake (timeout : BitVec 32)
  deriving DecidableEq

def Phase.timeout : Phase → BitVec 32
  | asleep timeout _ _ => timeout
  | awake timeout => timeout

def Phase.isAwake : Phase → Bool
  | asleep _ _ _ => false
  | awake _ => true

structure Waiting where
  system : State
  phase : Phase
  armed : Nat

/-- The thread begins to wait. -/
def enter (c : Config) (t : ThreadId) (w : WaitCall) (timeout : BitVec 32) (s : State) :
    Option Waiting :=
  if s.kernel.currentThread = some t then
    (call c s t (w.start timeout)).bind fun r =>
      if r.2 = .waiting then some ⟨r.1, .asleep timeout s.kernel.timers.tick 0, 0⟩ else none
  else none

inductive WaitStep where
  /-- A step of another thread, or of an interrupt. -/
  | other (op : Op)
  /-- The thread runs again, was not refused, and works out the time that is left. -/
  | resume
  /-- The thread has found nothing and goes on waiting. -/
  | again
  deriving DecidableEq

/-- The history variables of a step. -/
def Waiting.record (c : Config) (t : ThreadId) (x : Waiting) (op : Op) (s : State) : Waiting :=
  let ticks := if op = .thread .tickIncrease then 1 else 0
  { system := s
    phase := match x.phase with
      | .asleep timeout since passed => .asleep timeout since (passed + ticks)
      | .awake timeout => .awake timeout
    armed := x.armed + if Linked c.timer x.system.kernel.timers t then ticks else 0 }

/-- The thread is on the processor, as far as the step finds it there. -/
def Running (s : State) (t : ThreadId) : Prop :=
  s.kernel.currentThread = some t ∧ (s.kernel.thread t).stat ≠ .suspend

instance (s : State) (t : ThreadId) : Decidable (Running s t) :=
  inferInstanceAs (Decidable (_ ∧ _))

/-- One step. While the thread runs inside the call, nothing else suspends it. -/
def waitStep (c : Config) (t : ThreadId) (w : WaitCall) (x : Waiting) : WaitStep → Option Waiting
  | .other op =>
    if x.phase.isAwake && !w.interruptible then none
    else
      (step c x.system op).bind fun s =>
        if x.system.kernel.currentThread = some t ∧ (s.kernel.thread t).stat = .suspend then none
        else some (x.record c t op s)
  | .resume =>
    match x.phase with
    | .asleep timeout since _ =>
      if Running x.system t ∧ (x.system.kernel.thread t).error = .eok then
        some { x with phase := .awake (Ipc.remaining timeout x.system.kernel.timers.tick since) }
      else none
    | .awake _ => none
  | .again =>
    match x.phase with
    | .awake timeout =>
      if x.system.kernel.currentThread = some t then
        (call c x.system t (w.again timeout)).bind fun r =>
          if r.2 = .waiting then
            some { x with
              system := r.1
              phase := .asleep timeout x.system.kernel.timers.tick 0 }
          else none
      else none
    | .asleep _ _ _ => none

/-- A thread that is woken gets the processor within half of the tick range behind the end of its
waiting time. -/
def Prompt (x : Waiting) : WaitStep → Prop
  | .resume =>
    match x.phase with
    | .asleep timeout _ passed => passed ≤ timeout.toInt + 2 ^ 31
    | .awake _ => True
  | _ => True

/-! ## The time that is left -/

theorem toInt_of_pos {timeout : BitVec 32} (h : 0 < timeout.toInt) :
    timeout.toInt = timeout.toNat ∧ timeout.toNat < 2 ^ 31 := by
  rw [BitVec.toInt_eq_toNat_cond] at h ⊢
  split
  · omega
  · rename_i hge
    omega

/-- The clamp at zero keeps the rest of the time from turning into a wait without end. -/
theorem remaining_nonneg {timeout : BitVec 32} (h : 0 < timeout.toInt) (now since : Tick) :
    0 ≤ (Ipc.remaining timeout now since).toInt := by
  rw [Ipc.remaining, if_pos h]
  dsimp only
  split
  · decide
  · omega

theorem remaining_forever {timeout : BitVec 32} (h : timeout.toInt < 0) (now since : Tick) :
    Ipc.remaining timeout now since = timeout := by
  rw [Ipc.remaining, if_neg (by omega)]

/-- As long as the difference is within reach of the signed comparison, the rest of the time is
what the ticks have left of it. -/
theorem remaining_le {timeout : BitVec 32} (h : 0 < timeout.toInt) {passed : Nat}
    (hp : passed ≤ timeout.toInt + 2 ^ 31) (since : Tick) :
    (Ipc.remaining timeout (since + BitVec.ofNat 32 passed) since).toInt +
      min (passed : Int) timeout.toInt = timeout.toInt := by
  obtain ⟨hval, hlt⟩ := toInt_of_pos h
  have hdelta : since + BitVec.ofNat 32 passed - since = BitVec.ofNat 32 passed := by
    rw [BitVec.add_comm, BitVec.add_sub_cancel]
  rw [Ipc.remaining, if_pos h, hdelta]
  dsimp only
  have hdiff : (timeout - BitVec.ofNat 32 passed).toNat =
      (2 ^ 32 - passed % 2 ^ 32 + timeout.toNat) % 2 ^ 32 := by
    rw [BitVec.toNat_sub, BitVec.toNat_ofNat]
  split
  case isTrue hneg =>
    rw [BitVec.toInt_eq_toNat_cond, hdiff] at hneg
    split at hneg
    · omega
    · simp
      omega
  case isFalse hpos =>
    rw [BitVec.toInt_eq_toNat_cond, hdiff] at hpos ⊢
    split at hpos
    · omega
    · omega

/-! ## Going to sleep -/

section sleeping

variable {c : Config} {s s' : State} {t : ThreadId} {timeout : BitVec 32}

/-- The section ends with the thread suspended for the time. -/
def Sleeps (c : Config) (s : State) (t : ThreadId) (timeout : BitVec 32) (s' : State) : Prop :=
  timeout ≠ 0 ∧ ∃ k, suspendFor c s.kernel t timeout = some k ∧ rtSchedule c k = some s'.kernel

theorem sleeps_of_wait {l : WaitList} {insert : List ThreadId → List ThreadId} {p : Progress}
    (htimeout : timeout ≠ 0) (h : wait c s l insert t timeout = some (s', p)) :
    Sleeps c s t timeout s' := by
  obtain ⟨k, hk, h⟩ := Option.bind_eq_some_iff.mp h
  obtain ⟨k', hk', h⟩ := Option.bind_eq_some_iff.mp h
  cases h
  exact ⟨htimeout, k, hk, hk'⟩

theorem wakeFirst_returns {l : WaitList} {out : Out} {p : Progress}
    (h : wakeFirst c s l out = some (s', p)) : p = .returned .eok out := by
  rw [wakeFirst] at h
  split at h
  · exact (pair_inj h).2.symm
  · obtain ⟨s₁, -, h⟩ := Option.map_eq_some_iff.mp h
    exact (Prod.mk.inj h).2.symm

theorem mbSendLoop_sleeps {i : ObjId} {value : Mailbox.Mail}
    (h : mbSendLoop c s t i value timeout = some (s', .waiting)) : Sleeps c s t timeout s' := by
  rw [mbSendLoop] at h
  dsimp only at h
  split at h
  · split at h
    · cases h
    · rename_i htimeout
      exact sleeps_of_wait htimeout h
  · split at h
    · cases wakeFirst_returns h
    · cases h

theorem mbRecvLoop_sleeps {i : ObjId} (h : mbRecvLoop c s t i timeout = some (s', .waiting)) :
    Sleeps c s t timeout s' := by
  rw [mbRecvLoop] at h
  split at h
  · split at h
    · cases h
    · rename_i htimeout
      exact sleeps_of_wait htimeout h
  · cases wakeFirst_returns h

theorem mqSendLoop_sleeps {i : ObjId} (h : mqSendLoop c s t i timeout = some (s', .waiting)) :
    Sleeps c s t timeout s' := by
  rw [mqSendLoop] at h
  split at h
  · split at h
    · cases h
    · rename_i htimeout
      exact sleeps_of_wait htimeout h
  · cases h

theorem mqRecvLoop_sleeps {i : ObjId} (h : mqRecvLoop c s t i timeout = some (s', .waiting)) :
    Sleeps c s t timeout s' := by
  rw [mqRecvLoop] at h
  split at h
  · split at h
    · cases h
    · rename_i htimeout
      exact sleeps_of_wait htimeout h
  · obtain ⟨slot, -, h⟩ := Option.map_eq_some_iff.mp h
    cases h

theorem rtMpAlloc_sleeps {i : ObjId} (h : rtMpAlloc c s t i timeout = some (s', .waiting)) :
    Sleeps c s t timeout s' := by
  rw [rtMpAlloc] at h
  split at h
  · split at h
    · cases h
    · rename_i htimeout
      exact sleeps_of_wait htimeout h
  · obtain ⟨b, -, h⟩ := Option.bind_eq_some_iff.mp h
    split at h
    · cases h
    · cases h

theorem again_sleeps {w : WaitCall} (h : call c s t (w.again timeout) = some (s', .waiting)) :
    Sleeps c s t timeout s' := by
  cases w with
  | mbSendWait i value => exact mbSendLoop_sleeps h
  | mbRecv i => exact mbRecvLoop_sleeps h
  | mqSendWait i data => exact mqSendLoop_sleeps h
  | mqRecv i size => exact mqRecvLoop_sleeps h
  | mpAlloc i => exact rtMpAlloc_sleeps h

theorem start_sleeps {w : WaitCall} (h : call c s t (w.start timeout) = some (s', .waiting)) :
    Sleeps c s t timeout s' := by
  cases w with
  | mbSendWait i value =>
    replace h : rtMbSendWait c s t i value timeout = some (s', .waiting) := h
    rw [rtMbSendWait] at h
    split at h
    · cases h
    · exact mbSendLoop_sleeps h
  | mbRecv i =>
    replace h : rtMbRecv c s t i timeout = some (s', .waiting) := h
    rw [rtMbRecv] at h
    split at h
    · cases h
    · exact mbRecvLoop_sleeps h
  | mqSendWait i data =>
    replace h : rtMqSendWait c s t i data timeout = some (s', .waiting) := h
    rw [rtMqSendWait] at h
    split at h
    · cases h
    · split at h
      · cases h
      · split at h
        · cases h
        · exact mqSendLoop_sleeps h
  | mqRecv i size =>
    replace h : rtMqRecv c s t i size timeout = some (s', .waiting) := h
    rw [rtMqRecv] at h
    split at h
    · cases h
    · split at h
      · cases h
      · exact mqRecvLoop_sleeps h
  | mpAlloc i => exact rtMpAlloc_sleeps h

/-- A thread that goes to sleep with a time to wait has its timer armed for it. -/
theorem Sleeps.armed (h : Sleeps c s t timeout s') (hs : Sound c s) (hpos : 0 < timeout.toInt) :
    ArmedFor c s'.kernel t timeout ∧ s'.kernel.timers.tick = s.kernel.timers.tick := by
  obtain ⟨-, k, hk, hsched⟩ := h
  have hsteady := rtSchedule_steady (suspendFor_inv hs.ok.inv hk) hsched
  have htick := (suspendFor_kept hs.discipline hk).2.tick
  obtain ⟨⟨k₁, e⟩, h₁, hk⟩ := Option.bind_eq_some_iff.mp hk
  replace hk : startThreadTimer c k₁ t timeout = some k := hk
  have hreset : Steady s.kernel (setThread s.kernel t { s.kernel.thread t with error := .eok }) :=
    steady_setThread fun hs => hs
  have hinv : Inv c (setThread s.kernel t { s.kernel.thread t with error := .eok }) :=
    hs.ok.inv.setThread rfl rfl rfl rfl rfl
  rw [startThreadTimer, if_pos hpos] at hk
  obtain ⟨hopen, hk⟩ := Option.ite_none_left_eq_some.mp hk
  obtain ⟨r, hr, rfl⟩ := Option.map_eq_some_iff.mp hk
  have hsus := (rtThreadSuspend_stat hinv h₁).resolve_right hopen
  have harmed := armedFor_start (rtThreadSuspend_discipline (hs.discipline.steady hreset) h₁) hsus hr
  exact ⟨harmed.steady hsteady, (congrArg Timer.State.tick hsteady.timers).trans htick⟩

end sleeping

/-! ## The steps of a call -/

section steps

variable {c : Config} {t : ThreadId} {w : WaitCall} {T timeout : BitVec 32} {x x' : Waiting}
  {s s' : State} {op : Op}

theorem other_some (h : waitStep c t w x (.other op) = some x') :
    ∃ s, step c x.system op = some s ∧
      (x.system.kernel.currentThread = some t → (s.kernel.thread t).stat ≠ .suspend) ∧
      x' = x.record c t op s := by
  obtain ⟨-, h⟩ := Option.ite_none_left_eq_some.mp h
  obtain ⟨s, hs, h⟩ := Option.bind_eq_some_iff.mp h
  obtain ⟨hsus, h⟩ := Option.ite_none_left_eq_some.mp h
  exact ⟨s, hs, fun hcur hstat => hsus ⟨hcur, hstat⟩, (Option.some.inj h).symm⟩

theorem resume_some (h : waitStep c t w x .resume = some x') :
    ∃ timeout since passed, x.phase = .asleep timeout since passed ∧ Running x.system t ∧
      x' = { x with
        phase := .awake (Ipc.remaining timeout x.system.kernel.timers.tick since) } := by
  rw [waitStep] at h
  split at h
  · rename_i timeout since passed hphase
    obtain ⟨⟨hrun, -⟩, h⟩ := Option.ite_none_right_eq_some.mp h
    exact ⟨timeout, since, passed, hphase, hrun, (Option.some.inj h).symm⟩
  · cases h

theorem again_some (h : waitStep c t w x .again = some x') :
    ∃ timeout s, x.phase = .awake timeout ∧ x.system.kernel.currentThread = some t ∧
      call c x.system t (w.again timeout) = some (s, .waiting) ∧
      x' = { x with system := s, phase := .asleep timeout x.system.kernel.timers.tick 0 } := by
  rw [waitStep] at h
  split at h
  · rename_i timeout hphase
    obtain ⟨hcur, h⟩ := Option.ite_none_right_eq_some.mp h
    obtain ⟨⟨s, p⟩, hcall, h⟩ := Option.bind_eq_some_iff.mp h
    obtain ⟨rfl, h⟩ := Option.ite_none_right_eq_some.mp h
    exact ⟨timeout, s, hphase, hcur, hcall, (Option.some.inj h).symm⟩
  · cases h

/-- A section of the waiting functions is a step of the system. -/
theorem step_of_call {r : State × Progress} (hcur : s.kernel.currentThread = some t)
    (hop : op = w.start timeout ∨ op = w.again timeout) (h : call c s t op = some r) :
    step c s op = some r.1 ∧ Permitted c op := by
  have hstep : step c s op = (call c s t op).map Prod.fst := by
    cases w with
    | mbSendWait | mqSendWait | mqRecv | mbRecv | mpAlloc =>
      obtain rfl | rfl := hop <;> simp only [step, WaitCall.start, WaitCall.again, hcur]
  refine ⟨by rw [hstep, h]; rfl, ?_⟩
  cases w with
  | mbSendWait | mbRecv | mqSendWait | mqRecv | mpAlloc => obtain rfl | rfl := hop <;> trivial

/-- The steps that the kernel accepts. -/
def WaitStep.Permitted (c : Config) : WaitStep → Prop
  | .other op => System.Permitted c op
  | .resume | .again => True

theorem waitStep_sound {e : WaitStep} (h : Sound c x.system) (he : e.Permitted c)
    (hx : waitStep c t w x e = some x') : Sound c x'.system := by
  cases e with
  | other op =>
    obtain ⟨s, hs, -, rfl⟩ := other_some hx
    exact h.step he hs
  | resume =>
    obtain ⟨timeout, since, passed, -, -, rfl⟩ := resume_some hx
    exact h
  | again =>
    obtain ⟨timeout, s, -, hcur, hcall, rfl⟩ := again_some hx
    obtain ⟨hstep, hop⟩ := step_of_call hcur (.inr rfl) hcall
    exact h.step hop hstep

/-! ## The rest of the time -/

/-- A wait for ever stays one, and a wait for some time stays bounded. -/
def Bounded (T : BitVec 32) (x : Waiting) : Prop :=
  (0 < T.toInt → match x.phase with
    | .asleep timeout _ _ => 0 < timeout.toInt
    | .awake timeout => 0 ≤ timeout.toInt) ∧
  (T.toInt < 0 → x.phase.timeout = T)

theorem Bounded.nonneg (h : Bounded T x) (hT : 0 < T.toInt) : 0 ≤ x.phase.timeout.toInt := by
  have htime := h.1 hT
  cases hphase : x.phase with
  | asleep timeout since passed =>
    rw [hphase] at htime
    exact htime.le
  | awake timeout =>
    rw [hphase] at htime
    exact htime

theorem waitStep_bounded {e : WaitStep} (h : Bounded T x) (hx : waitStep c t w x e = some x') :
    Bounded T x' := by
  obtain ⟨hfinite, hforever⟩ := h
  cases e with
  | other op =>
    obtain ⟨s, -, -, rfl⟩ := other_some hx
    cases hphase : x.phase with
    | asleep timeout since passed | awake timeout =>
      simpa [Bounded, Waiting.record, hphase, Phase.timeout] using And.intro hfinite hforever
  | resume =>
    obtain ⟨timeout, since, passed, hphase, -, rfl⟩ := resume_some hx
    rw [hphase] at hfinite hforever
    refine ⟨fun hT => remaining_nonneg (hfinite hT) _ _, fun hT => ?_⟩
    have htimeout : timeout = T := hforever hT
    exact (remaining_forever (htimeout ▸ hT) _ _).trans htimeout
  | again =>
    obtain ⟨timeout, s, hphase, -, hcall, rfl⟩ := again_some hx
    obtain ⟨hne, -⟩ := again_sleeps hcall
    rw [hphase] at hfinite hforever
    refine ⟨fun hT => ?_, hforever⟩
    have hzero : timeout.toInt ≠ 0 := fun heq => hne (BitVec.eq_of_toInt_eq heq)
    omega

/-! ## The ticks of the timer -/

/-- While the thread is asleep its timer has been armed for what the ticks since then and the time
of this turn allow. -/
structure Asleep (c : Config) (t : ThreadId) (T : BitVec 32) (s : State) (armed : Nat)
    (timeout : BitVec 32) (since : Tick) (passed : Nat) : Prop where
  pos : 0 < timeout.toInt
  now : s.kernel.timers.tick = since + BitVec.ofNat 32 passed
  timer : Linked c.timer s.kernel.timers t →
    rel s.kernel.timers t = timeout.toInt - passed ∧ 0 < rel s.kernel.timers t
  before : ∃ a : Nat, a + timeout.toInt ≤ T.toInt ∧
    (armed : Int) ≤ a + min (passed : Int) timeout.toInt

/-- While the thread runs its timer is stopped. -/
structure Awake (c : Config) (t : ThreadId) (T : BitVec 32) (s : State) (armed : Nat)
    (timeout : BitVec 32) : Prop where
  nonneg : 0 ≤ timeout.toInt
  stopped : ¬ Linked c.timer s.kernel.timers t
  spent : armed + timeout.toInt ≤ T.toInt

def Budget (c : Config) (t : ThreadId) (T : BitVec 32) (x : Waiting) : Prop :=
  match x.phase with
  | .asleep timeout since passed => Asleep c t T x.system x.armed timeout since passed
  | .awake timeout => Awake c t T x.system x.armed timeout

theorem Budget.armed_le (h : Budget c t T x) : x.armed ≤ T.toInt := by
  rw [Budget] at h
  cases hphase : x.phase with
  | asleep timeout since passed =>
    rw [hphase] at h
    obtain ⟨a, ha, harmed⟩ := h.before
    omega
  | awake timeout =>
    rw [hphase] at h
    obtain ⟨hnonneg, -, hspent⟩ := h
    omega

theorem Sound.not_linked (h : Sound c s) (hstat : (s.kernel.thread t).stat ≠ .suspend) :
    ¬ Linked c.timer s.kernel.timers t := fun hl => hstat (h.discipline.suspended t hl)

theorem sleeps_budget (hs : Sound c s) (h : Sleeps c s t timeout s') {armed : Nat}
    (hpos : 0 < timeout.toInt) (hspent : armed + timeout.toInt ≤ T.toInt) :
    Asleep c t T s' armed timeout s.kernel.timers.tick 0 := by
  obtain ⟨harmed, htick⟩ := h.armed hs hpos
  obtain ⟨hval, hlt⟩ := toInt_of_pos hpos
  have hrel : rel s'.kernel.timers t = timeout.toInt := by
    rw [rel, harmed.deadline, BitVec.add_comm, BitVec.add_sub_cancel]
  constructor
  case pos => exact hpos
  case now => rw [htick]; simp
  case timer =>
    intro _
    rw [hrel]
    exact ⟨by simp, hpos⟩
  case before => exact ⟨armed, hspent, by omega⟩

theorem record_other (hop : op ≠ .thread .tickIncrease) :
    x.record c t op s = { x with system := s } := by
  obtain ⟨system, phase, armed⟩ := x
  rw [Waiting.record, if_neg hop]
  cases phase with
  | asleep | awake => simp

theorem Asleep.tick {since : Tick} {armed passed : Nat}
    (h : Asleep c t T s armed timeout since passed)
    (hticked : Ticked c s.kernel s'.kernel) :
    Asleep c t T s' (armed + if Linked c.timer s.kernel.timers t then 1 else 0) timeout since
      (passed + 1) := by
  obtain ⟨hpos, hnow, htimer, a, ha, harmed⟩ := h
  constructor
  case pos => exact hpos
  case now =>
    rw [hticked.tick, hnow, BitVec.ofNat_add, BitVec.add_assoc]
    rfl
  case timer =>
    intro hl
    obtain ⟨hl₀, -, hahead, hrel⟩ := hticked.kept t hl
    obtain ⟨hleft, -⟩ := htimer hl₀
    refine ⟨?_, hahead⟩
    omega
  case before =>
    refine ⟨a, ha, ?_⟩
    split
    case isTrue hl =>
      obtain ⟨hleft, hahead⟩ := htimer hl
      push_cast
      omega
    case isFalse =>
      push_cast
      omega

theorem other_budget (hs : Sound c x.system) (hstep : step c x.system op = some s)
    (hop : System.Permitted c op)
    (hfree : x.system.kernel.currentThread = some t → (s.kernel.thread t).stat ≠ .suspend)
    (h : Budget c t T x) : Budget c t T (x.record c t op s) := by
  have hs' := hs.step hop hstep
  by_cases htick : op = .thread .tickIncrease
  · subst htick
    have hticked := step_ticked hs.ok hs.discipline hs.punctual hstep
    rw [Budget] at h
    cases hphase : x.phase with
    | asleep timeout since passed =>
      rw [hphase] at h
      simp only [Budget, Waiting.record, hphase, if_true]
      exact h.tick hticked
    | awake timeout =>
      rw [hphase] at h
      obtain ⟨hnonneg, hstopped, hspent⟩ := h
      simp only [Budget, Waiting.record, hphase, if_true, if_neg hstopped]
      exact ⟨hnonneg, fun hl => hstopped (hticked.kept t hl).1, hspent⟩
  · have hkept := step_kept hs.ok hs.discipline htick hstep
    have hlinked : Linked c.timer s.kernel.timers t →
        Linked c.timer x.system.kernel.timers t ∧
          rel s.kernel.timers t = rel x.system.kernel.timers t := by
      intro hl
      have hcur : x.system.kernel.currentThread ≠ some t := fun hcur =>
        hs'.not_linked (hfree hcur) hl
      obtain ⟨hl₀, htimeout⟩ := hkept.kept t hcur hl
      exact ⟨hl₀, rel_congr hkept.tick htimeout⟩
    rw [record_other htick]
    rw [Budget] at h ⊢
    cases hphase : x.phase with
    | asleep timeout since passed =>
      rw [hphase] at h
      obtain ⟨hpos, hnow, htimer, hbefore⟩ := h
      refine ⟨hpos, hkept.tick.trans hnow, fun hl => ?_, hbefore⟩
      obtain ⟨hl₀, hrel⟩ := hlinked hl
      rw [hrel]
      exact htimer hl₀
    | awake timeout =>
      rw [hphase] at h
      exact ⟨h.nonneg, fun hl => h.stopped (hlinked hl).1, h.spent⟩

theorem waitStep_budget {e : WaitStep} (hs : Sound c x.system) (he : e.Permitted c)
    (hprompt : Prompt x e) (h : Budget c t T x) (hx : waitStep c t w x e = some x') :
    Budget c t T x' := by
  cases e with
  | other op =>
    obtain ⟨s, hstep, hfree, rfl⟩ := other_some hx
    exact other_budget hs hstep he hfree h
  | resume =>
    obtain ⟨timeout, since, passed, hphase, hrun, rfl⟩ := resume_some hx
    rw [Prompt, hphase] at hprompt
    rw [Budget, hphase] at h
    obtain ⟨hpos, hnow, -, a, ha, harmed⟩ := h
    have hleft := remaining_le hpos hprompt since
    rw [← hnow] at hleft
    refine ⟨remaining_nonneg hpos _ _, hs.not_linked hrun.2, ?_⟩
    dsimp only
    omega
  | again =>
    obtain ⟨timeout, s, hphase, hcur, hcall, rfl⟩ := again_some hx
    rw [Budget, hphase] at h
    obtain ⟨hnonneg, -, hspent⟩ := h
    have hsleeps := again_sleeps hcall
    have hzero : timeout.toInt ≠ 0 := fun heq => hsleeps.1 (BitVec.eq_of_toInt_eq heq)
    exact sleeps_budget hs hsleeps (by omega) hspent

end steps

/-! ## Runs -/

variable {c : Config} {t : ThreadId} {w : WaitCall} {timeout : BitVec 32} {s₀ s : State}
  {x₀ x : Waiting}

theorem enter_some (h : enter c t w timeout s = some x) :
    ∃ s', s.kernel.currentThread = some t ∧
      call c s t (w.start timeout) = some (s', .waiting) ∧
      x = ⟨s', .asleep timeout s.kernel.timers.tick 0, 0⟩ := by
  obtain ⟨hcur, h⟩ := Option.ite_none_right_eq_some.mp h
  obtain ⟨⟨s', p⟩, hcall, h⟩ := Option.bind_eq_some_iff.mp h
  obtain ⟨rfl, h⟩ := Option.ite_none_right_eq_some.mp h
  exact ⟨s', hcur, hcall, (Option.some.inj h).symm⟩

/-- Whatever the other threads do, and however often a thread is woken in vain: its rest of the
time never turns a bounded wait into an unbounded one, a wait for ever stays one, and as long as
the thread gets the processor in time behind each of its wake-ups, its timer is armed for no more
ticks than it was willing to wait. -/
theorem waiting_bounded {ops : List Op} (hinit : Initial c s₀) (hops : ∀ op ∈ ops, Permitted c op)
    (hrun : Runs.run (step c) s₀ ops = some s) (henter : enter c t w timeout s = some x₀)
    {es : List WaitStep} (hes : ∀ e ∈ es, e.Permitted c)
    (hwait : Runs.run (waitStep c t w) x₀ es = some x) :
    (0 < timeout.toInt → 0 ≤ x.phase.timeout.toInt ∧
      (Runs.Along (waitStep c t w) Prompt x₀ es → x.armed ≤ timeout.toInt)) ∧
    (timeout.toInt < 0 → x.phase.timeout = timeout) := by
  have hsound := run_sound hinit hops hrun
  obtain ⟨s', hcur, hcall, rfl⟩ := enter_some henter
  obtain ⟨hstep, hop⟩ := step_of_call hcur (.inl rfl) hcall
  have hsound₀ := hsound.step hop hstep
  have hpermitted := @Runs.along_of_forall _ _ (waitStep c t w) _ _ hes
    ⟨s', .asleep timeout s.kernel.timers.tick 0, 0⟩
  have hbounded : Bounded timeout x :=
    Runs.run_invariant (fun _ _ _ h hx => waitStep_bounded h hx) ⟨fun h => h, fun _ => rfl⟩ hwait
  refine ⟨fun hpos => ⟨hbounded.nonneg hpos, fun hprompt => ?_⟩, hbounded.2⟩
  have hbudget₀ : Budget c t timeout ⟨s', .asleep timeout s.kernel.timers.tick 0, 0⟩ :=
    sleeps_budget hsound (start_sleeps hcall) hpos (by simp)
  have hboth : Sound c x.system ∧ Budget c t timeout x := by
    refine @Runs.run_invariant_along _ _ (waitStep c t w)
      (fun x e => e.Permitted c ∧ Prompt x e)
      (fun x => Sound c x.system ∧ Budget c t timeout x) ?_ _ _ _ ⟨hsound₀, hbudget₀⟩
      (hpermitted.and hprompt) hwait
    exact fun x e x' h he hx => ⟨waitStep_sound h.1 he.1 hx,
      waitStep_budget h.1 he.1 he.2 h.2 hx⟩
  exact hboth.2.armed_le

/-! ## A thread that starves behind its wake-up -/

/-- The time slice of the current thread at a tick. -/
def sliceTick (x : Thread) : Thread :=
  if x.remainingTick - 1 = 0 then { x with remainingTick := x.initTick, yieldFlag := true }
  else { x with remainingTick := x.remainingTick - 1 }

/-- The state after some ticks during which the scheduler is locked and no timer runs. -/
def later (u : ThreadId) (n : Nat) (s : State) : State :=
  let k := setThread s.kernel u (sliceTick^[n] (s.kernel.thread u))
  { s with kernel := { k with
      timers := { k.timers with tick := k.timers.tick + BitVec.ofNat 32 n } } }

section locked

variable {u : ThreadId} {n : Nat}

theorem sliceTick_stat (x : Thread) : (sliceTick x).stat = x.stat := by
  rw [sliceTick]
  split
  · rfl
  · rfl

theorem later_zero (u : ThreadId) (s : State) : later u 0 s = s := by
  simp [later, setThread]

theorem later_succ (u : ThreadId) (n : Nat) (s : State) :
    later u 1 (later u n s) = later u (n + 1) s := by
  simp only [later, setThread, Function.update_self, Function.update_idem, Function.iterate_one,
    ← Function.iterate_succ_apply' sliceTick, BitVec.ofNat_add, BitVec.add_assoc]

theorem rtSchedule_locked {k : Kernel} (h : k.schedulerLockNest ≠ 0) :
    rtSchedule c k = some k := if_neg h

theorem tick_locked (hcur : s.kernel.currentThread = some u) (hlock : s.kernel.schedulerLockNest ≠ 0)
    (hrow : s.kernel.timers.rows .hard (c.timer.level - 1) = []) :
    step c s (.thread .tickIncrease) = some (later u 1 s) := by
  have hslice : tickSlice c s.kernel = some (later u 1 s).kernel := by
    refine Option.bind_eq_some_iff.mpr ⟨u, hcur, ?_⟩
    rw [later, Function.iterate_one, sliceTick]
    by_cases hz : (s.kernel.thread u).remainingTick - 1 = 0
    · rw [if_pos hz, if_pos hz]
      refine rtSchedule_locked ?_
      exact hlock
    · rw [if_neg hz, if_neg hz]
      rfl
  have hcheck : rtTickIncrease c s.kernel = some (later u 1 s).kernel := by
    have hempty : (later u 1 s).kernel.timers.rows .hard (c.timer.level - 1) = [] := hrow
    rw [rtTickIncrease, hslice, Option.bind_some, rtTimerCheck, hempty]
    rfl
  have hstat : ∀ v, ((later u 1 s).kernel.thread v).stat = (s.kernel.thread v).stat := by
    intro v
    by_cases hv : v = u
    · simp [later, hv, sliceTick_stat]
    · simp [later, setThread, hv]
  obtain ⟨s', hs', hkernel⟩ : ∃ s', threadStep c s .tickIncrease = some s' ∧
      s'.kernel = (later u 1 s).kernel := by
    have hmap : threadStep c s .tickIncrease = (rtTickIncrease c s.kernel).map fun k =>
        { s with
          kernel := k
          list := fun l => (s.list l).filter fun t =>
            (s.kernel.thread t).stat ≠ .suspend ∨ (k.thread t).stat = .suspend } := rfl
    rw [hmap, hcheck]
    exact ⟨_, rfl, rfl⟩
  have hs : s' = { s with kernel := s'.kernel } :=
    threadStep_lists hs' fun v => by rw [hkernel, hstat]
  rw [hkernel] at hs
  exact hs'.trans (congrArg some hs)

/-- While another thread keeps the scheduler locked, the ticks pass over a woken thread. -/
theorem wait_locked {since : Tick} {passed : Nat} (hphase : x.phase = .asleep timeout since passed)
    (hcur : x.system.kernel.currentThread = some u) (hut : u ≠ t)
    (hlock : x.system.kernel.schedulerLockNest ≠ 0)
    (hrow : ∀ l, x.system.kernel.timers.rows l (c.timer.level - 1) = []) (n : Nat) :
    Runs.run (waitStep c t w) x (List.replicate n (.other (.thread .tickIncrease))) =
      some ⟨later u n x.system, .asleep timeout since (passed + n), x.armed⟩ := by
  induction n with
  | zero =>
    obtain ⟨system, phase, armed⟩ := x
    obtain rfl : phase = .asleep timeout since passed := hphase
    simp [later_zero]
  | succ n ih =>
    have hstep := tick_locked (c := c) (s := later u n x.system) hcur hlock (hrow .hard)
    have hstopped : ¬ Linked c.timer (later u n x.system).kernel.timers t := by
      intro hl
      have hempty : (later u n x.system).kernel.timers.rows
          ((later u n x.system).kernel.timers.timer t).kind (c.timer.level - 1) = [] := hrow _
      rw [Linked, hempty] at hl
      exact List.not_mem_nil hl
    have hcur' : (later u n x.system).kernel.currentThread ≠ some t := by
      intro h
      exact hut (Option.some.inj (hcur.symm.trans h))
    rw [List.replicate_succ', Runs.run_append, ih, Option.bind_some, Runs.run_cons, waitStep]
    rw [if_neg (by simp [Phase.isAwake]), hstep, later_succ, Option.bind_some,
      if_neg fun h => hcur' h.1, Option.bind_some, Runs.run_nil]
    simp only [Waiting.record, if_neg hstopped, if_true]
    rfl

/-- The same call some ticks later. -/
def Waiting.skip (n : Nat) (x : Waiting) : Waiting :=
  { x with
    system := { x.system with kernel := { x.system.kernel with
      timers := { x.system.kernel.timers with
        tick := x.system.kernel.timers.tick + BitVec.ofNat 32 n } } }
    phase := match x.phase with
      | .asleep timeout since passed => .asleep timeout since (passed + n)
      | .awake timeout => .awake timeout }

/-- Whole time slices later only the tick has changed. -/
theorem wait_slices {since : Tick} {passed : Nat} (hphase : x.phase = .asleep timeout since passed)
    (hcur : x.system.kernel.currentThread = some u) (hut : u ≠ t)
    (hlock : x.system.kernel.schedulerLockNest ≠ 0)
    (hrow : ∀ l, x.system.kernel.timers.rows l (c.timer.level - 1) = []) {m : Nat}
    (hslice : sliceTick^[m] (x.system.kernel.thread u) = x.system.kernel.thread u) (n : Nat) :
    Runs.run (waitStep c t w) x (List.replicate (m * n) (.other (.thread .tickIncrease))) =
      some (x.skip (m * n)) := by
  have hsame : sliceTick^[m * n] (x.system.kernel.thread u) = x.system.kernel.thread u := by
    rw [Function.iterate_mul]
    exact Function.iterate_fixed hslice n
  have hkernel : setThread x.system.kernel u (x.system.kernel.thread u) = x.system.kernel := by
    simp [setThread]
  rw [wait_locked hphase hcur hut hlock hrow, later, hsame, hkernel]
  simp only [Waiting.skip, hphase]

end locked

/-- Thread 0 waits for a mail for ten ticks. Thread 1 is woken, sends a mail, takes it back and
locks the scheduler. -/
def starving : List Op :=
  [.thread (.startup 0), .thread (.startup 1), .thread (.startup 2), .thread .schedulerStart,
    .semTake 0 (-1)]

def takenBack : List WaitStep :=
  [.other (.semRelease 0), .other (.mbUrgent 0 7), .other (.mbRecv 0 0),
    .other (.thread .enterCritical)] ++ List.replicate 20 (.other (.thread .tickIncrease))

/-- Thread 0 gets the processor 16 ticks before the tick has come round, and waits again. -/
def resumedLate : List WaitStep :=
  [.other (.thread .exitCritical), .other (.semTake 0 (-1)), .resume, .again] ++
    List.replicate 11 (.other (.thread .tickIncrease))

theorem waiting_not_bounded :
    ¬ ∀ (c : Config) (s₀ : State) (ops : List Op) (s : State) (t : ThreadId) (w : WaitCall)
      (timeout : BitVec 32) (x₀ : Waiting) (es : List WaitStep) (x : Waiting), Initial c s₀ →
      (∀ op ∈ ops, Permitted c op) → Runs.run (step c) s₀ ops = some s →
      enter c t w timeout s = some x₀ → (∀ e ∈ es, e.Permitted c) →
      Runs.run (waitStep c t w) x₀ es = some x → 0 < timeout.toInt → x.armed ≤ timeout.toInt := by
  intro h
  have hvalues : (((Runs.run (step smallConfig) trioState starving).bind
      (enter smallConfig 0 (.mbRecv 0) 10)).bind fun x =>
        Runs.run (waitStep smallConfig 0 (.mbRecv 0)) x takenBack).map (fun x =>
          (x.phase, x.system.kernel.currentThread, x.system.kernel.timers.rows .hard 0,
            x.system.kernel.timers.rows .soft 0)) = some (.asleep 10 0 20, some 1, [], []) := by
    decide +kernel
  have hslices : (((Runs.run (step smallConfig) trioState starving).bind
      (enter smallConfig 0 (.mbRecv 0) 10)).bind fun x =>
        Runs.run (waitStep smallConfig 0 (.mbRecv 0)) x takenBack).map (fun x =>
          (x.system.kernel.schedulerLockNest,
            decide (sliceTick^[20] (x.system.kernel.thread 1) = x.system.kernel.thread 1))) =
      some (1, true) := by
    decide +kernel
  have harmed : (((Runs.run (step smallConfig) trioState starving).bind
      (enter smallConfig 0 (.mbRecv 0) 10)).bind fun x =>
        Runs.run (waitStep smallConfig 0 (.mbRecv 0)) x takenBack).bind (fun x =>
          (Runs.run (waitStep smallConfig 0 (.mbRecv 0)) (x.skip (20 * 214748363))
            resumedLate).map Waiting.armed) = some 11 := by
    decide +kernel
  obtain ⟨x₁, hx₁, hvalues⟩ := Option.map_eq_some_iff.mp hvalues
  rw [hx₁, Option.bind_some] at harmed
  rw [hx₁, Option.map_some, Option.some_inj] at hslices
  obtain ⟨x₀, hx₀, hrun₁⟩ := Option.bind_eq_some_iff.mp hx₁
  obtain ⟨s, hs, henter⟩ := Option.bind_eq_some_iff.mp hx₀
  simp only [Prod.mk.injEq, decide_eq_true_eq] at hvalues hslices
  obtain ⟨hphase, hcur, hhard, hsoft⟩ := hvalues
  obtain ⟨hlock, hslice⟩ := hslices
  obtain ⟨x, hx, harmed⟩ := Option.map_eq_some_iff.mp harmed
  have hrows : ∀ l, x₁.system.kernel.timers.rows l (smallConfig.timer.level - 1) = [] := by
    intro l
    cases l with
    | hard => exact hhard
    | soft => exact hsoft
  have hticks := @wait_slices smallConfig 0 (.mbRecv 0) 10 x₁ 1 0 20 hphase hcur (by decide)
    (by rw [hlock]; decide) hrows 20 hslice 214748363
  have hwait : Runs.run (waitStep smallConfig 0 (.mbRecv 0)) x₀ (takenBack ++
      (List.replicate (20 * 214748363) (.other (.thread .tickIncrease)) ++ resumedLate)) =
      some x := by
    rw [Runs.run_append, hrun₁, Option.bind_some, Runs.run_append, hticks, Option.bind_some, hx]
  have hbound := h smallConfig trioState starving s 0 (.mbRecv 0) 10 x₀ _ x trio_initial
    (by simp [starving, Permitted, ReadyQueue.Permitted]) hs henter ?_ hwait (by decide)
  · rw [harmed] at hbound
    exact absurd hbound (by decide)
  · intro e he
    have htick : WaitStep.Permitted smallConfig (.other (.thread .tickIncrease)) := trivial
    obtain he | he := List.mem_append.mp he
    · simp only [takenBack, List.mem_append, List.mem_cons, List.not_mem_nil, or_false] at he
      obtain (rfl | rfl | rfl | rfl) | he := he
      · trivial
      · trivial
      · trivial
      · trivial
      · rw [List.eq_of_mem_replicate he]
        exact htick
    · obtain he | he := List.mem_append.mp he
      · rw [List.eq_of_mem_replicate he]
        exact htick
      · simp only [resumedLate, List.mem_append, List.mem_cons, List.not_mem_nil, or_false] at he
        obtain (rfl | rfl | rfl | rfl) | he := he
        · trivial
        · trivial
        · trivial
        · trivial
        · rw [List.eq_of_mem_replicate he]
          exact htick

/-- The same call, with the processor free: the timer runs for the ten ticks and no longer. -/
theorem waiting_bounded_mail :
    ∃ s x₀ x, Runs.run (step smallConfig) trioState starving = some s ∧
      enter smallConfig 0 (.mbRecv 0) 10 s = some x₀ ∧
      Runs.run (waitStep smallConfig 0 (.mbRecv 0)) x₀
        (List.replicate 11 (.other (.thread .tickIncrease))) = some x ∧ x.armed ≤ 10 := by
  have hvalue : (((Runs.run (step smallConfig) trioState starving).bind
      (enter smallConfig 0 (.mbRecv 0) 10)).bind fun x =>
        Runs.run (waitStep smallConfig 0 (.mbRecv 0)) x
          (List.replicate 11 (.other (.thread .tickIncrease)))).isSome = true := by
    decide +kernel
  obtain ⟨x, hx⟩ := Option.isSome_iff_exists.mp hvalue
  obtain ⟨x₀, hx₀, hwait⟩ := Option.bind_eq_some_iff.mp hx
  obtain ⟨s, hs, henter⟩ := Option.bind_eq_some_iff.mp hx₀
  have hops : ∀ op ∈ starving, Permitted smallConfig op := by
    simp [starving, Permitted, ReadyQueue.Permitted]
  have hticks : ∀ e ∈ List.replicate 11 (WaitStep.other (.thread .tickIncrease)),
      e.Permitted smallConfig := by
    intro e he
    rw [List.eq_of_mem_replicate he]
    trivial
  have hprompt : Runs.Along (waitStep smallConfig 0 (.mbRecv 0)) Prompt x₀
      (List.replicate 11 (.other (.thread .tickIncrease))) := by
    simp [Runs.Along, Prompt, List.replicate]
  obtain ⟨hbound, -⟩ := waiting_bounded trio_initial hops hs henter hticks hwait
  obtain ⟨-, harmed⟩ := hbound (by decide)
  have hle := harmed hprompt
  refine ⟨s, x₀, x, hs, henter, hwait, ?_⟩
  have hten : (10 : BitVec 32).toInt = 10 := rfl
  omega

end RtThread.System
