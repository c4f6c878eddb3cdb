import RtThread.DataQueueFifo

/-!
# Wake-ups of a data queue

A push wakes one consumer. A pop wakes one producer when the length has come down to
the low-water mark. While a consumer is suspended the items are at most the consumers
that have been woken and have not tried again. While a producer is suspended below
the low-water mark, and the queue is not full, at least one producer has been woken and
has not tried again; but a reset empties the queue first and wakes the producers
afterwards.
-/
namespace RtThread.DataQueue

open Function (update_eq_self update_of_ne update_self)
open Ipc Counting

def role (s : State) (t : ThreadId) : Option Role := (s.call t).role

theorem role_of_call {s s' : State} {t : ThreadId} {c : Call}
    (h : s'.call = Function.update s.call t c) : role s' = Function.update (role s) t c.role := by
  funext u
  rw [role, h]
  by_cases hu : u = t
  · subst hu
    simp
  · simp [role, hu]

/-- The items; and the places up to the low-water mark, which are of no account as long as a
reset is on its way. -/
def available (quiet : Bool) (dq : RtDataQueue) : Role → Nat
  | .receiver => rtDataQueueLen dq
  | .sender => if quiet then min (dq.lwm + 1) dq.size - rtDataQueueLen dq else 0

/-- No thread is between the first section of a reset and its return. -/
def NoReset (s : State) : Prop := ∀ t, (s.call t).inReset = false

def Balance (quiet : Bool) (s : State) : Prop :=
  s.waiters.Balanced (role s) (available quiet s.dq)

section steps

variable {n k : Nat} {quiet : Bool} {s s' : State} {op : Op} {ret : Option Ret} {t : ThreadId}

theorem balance_of_call {c : Call} (hcall : s'.call = Function.update s.call t c)
    (h : s'.waiters.Balanced (Function.update (role s) t c.role) (available quiet s'.dq)) :
    Balance quiet s' := by
  rw [Balance, role_of_call hcall]
  exact h

theorem Rep.available_eq_zero (h : Rep n k s.dq) (hn : n ≤ sizeMax) {r : Role}
    (hun : Unavailable s.dq r) : available quiet s.dq r = 0 := by
  cases r with
  | receiver =>
    have hempty : s.dq.isEmpty = true := hun
    rw [h.empty, decide_eq_true_eq] at hempty
    rw [available, h.len hn, hempty]
  | sender =>
    have hfull : s.dq.isFull = true := hun
    rw [h.full, decide_eq_true_eq] at hfull
    rw [available, h.len hn, h.size, hfull]
    split
    · omega
    · rfl

theorem Tries.put_balance {item : RtDataItem} (ht : Tries s op t (.push item))
    (hrep : Rep n k s.dq) (hn : n ≤ sizeMax) (hroom : s.dq.isFull = false)
    (h : Balance quiet s) :
    Balance quiet
      (setCall { s with dq := s.dq.put item, waiters := s.waiters.wake .receiver } t .outside) := by
  have hleave := Waiters.Balanced.leave h ht.running ht.role
  have hlen := hrep.len hn
  have hlen' := (hrep.put_item hn hroom item).1.len hn
  refine balance_of_call rfl ((hleave.wake .receiver).le (forall_role ?_ ?_))
  · simp only [available, setCall, hlen', hlen, Operation.role, update_self, ne_eq,
      reduceCtorEq, not_false_eq_true, update_of_ne]
    omega
  · have hlwm : (s.dq.put item).lwm = s.dq.lwm := rfl
    have hsize : (s.dq.put item).size = s.dq.size := rfl
    simp only [available, setCall, hlen', hlen, hlwm, hsize, Operation.role, update_self,
      ne_eq, reduceCtorEq, not_false_eq_true, update_of_ne]
    split
    · omega
    · omega

theorem Tries.take_balance (ht : Tries s op t .pop) (hrep : Rep n k s.dq) (hn : n ≤ sizeMax)
    (hitem : s.dq.isEmpty = false) (h : Balance quiet s) :
    Balance quiet (setCall { s with
      dq := s.dq.take
      waiters := if rtDataQueueLen s.dq.take ≤ s.dq.take.lwm then s.waiters.wake .sender
        else s.waiters } t .outside) := by
  have hleave := Waiters.Balanced.leave h ht.running ht.role
  have hlen := hrep.len hn
  have hlen' := (hrep.take_item hn hitem).1.len hn
  have hlwm : s.dq.take.lwm = s.dq.lwm := rfl
  have hsize : s.dq.take.size = s.dq.size := rfl
  refine balance_of_call rfl ?_
  split
  · refine (hleave.wake .sender).le (forall_role ?_ ?_)
    · simp only [available, setCall, hlen', hlen, Operation.role, update_self, ne_eq,
        reduceCtorEq, not_false_eq_true, update_of_ne]
      omega
    · simp only [available, setCall, hlen', hlen, hlwm, hsize, Operation.role,
        update_self, ne_eq, reduceCtorEq, not_false_eq_true, update_of_ne]
      split
      · omega
      · omega
  · refine hleave.le (forall_role ?_ ?_)
    · simp only [available, setCall, hlen', hlen, Operation.role, update_self]
      omega
    · simp only [available, setCall, hlen', hlen, hlwm, hsize, Operation.role, ne_eq,
        reduceCtorEq, not_false_eq_true, update_of_ne]
      split
      · omega
      · omega

/-- A step keeps the balance; a reset does as long as the producers are of no account. -/
theorem Result.balance (hres : Result s op s' ret) (hrep : Rep n k s.dq) (hn : n ≤ sizeMax)
    (hquiet : quiet = true → ∀ t, op ≠ .reset t) (h : Balance quiet s) : Balance quiet s' := by
  have hsame : ∀ {t : ThreadId} (c : Call), (s.waiters.thread t).suspended = false →
      (s.call t).role = none → c.role = none → Balance quiet (setCall s t c) := by
    intro t c ht hrole hc
    refine balance_of_call rfl ?_
    rw [hc]
    exact Waiters.Balanced.leave_idle h ht (.inl hrole)
  cases hres with
  | put ht hroom => exact ht.put_balance hrep hn hroom h
  | take ht hitem => exact ht.take_balance hrep hn hitem h
  | block ht hun hblock hc =>
    refine balance_of_call rfl ?_
    rw [hc]
    exact Waiters.Balanced.block h ht.running ht.role (hrep.available_eq_zero hn hun) hblock
  | refused ht hun =>
    have hzero : available quiet s.dq _ = 0 := hrep.available_eq_zero hn hun
    have hleave := Waiters.Balanced.leave h ht.running ht.role
    rw [hzero, Nat.zero_sub, ← hzero, update_eq_self] at hleave
    exact balance_of_call rfl hleave
  | failed ht hrole herr =>
    exact balance_of_call rfl (Waiters.Balanced.leave_idle h ht (.inr herr))
  | peekEmpty hempty => exact h
  | peek ht hitem => exact hsame .peeking ht.1 (by rw [ht.2]; rfl) rfl
  | peeked ht hc => exact hsame .outside ht (by rw [hc]; rfl) rfl
  | @reset t ht =>
    have hfalse : quiet = false := by
      by_contra hne
      exact hquiet (by simpa using hne) t rfl
    have hidle := Waiters.Balanced.leave_idle h ht.1 (.inl (by rw [role, ht.2]; rfl))
    refine balance_of_call rfl (hidle.le (forall_role ?_ ?_))
    · simp [available, rtDataQueueReset, setCall, rtDataQueueLen]
    · simp [available, hfalse]
  | @tested t r ht hc =>
    obtain ⟨c, heq, hrole, -⟩ := resetTest_eq s t r
    rw [heq]
    exact hsame c ht (by rw [hc]; rfl) hrole
  | @wake t u us r ht hc hl =>
    have hok : s.waiters.Ok (role s) := h.ok
    have hsus := (hok.waits r u (by simp [hl])).1
    have hidle := (Waiters.Balanced.expel h hsus .error).leave_idle (t := t) (by
      by_cases htu : t = u
      · simp [Waiters.expel, htu]
      · simpa [Waiters.expel, htu] using ht) (.inl (by rw [role, hc]; rfl))
    rw [hok.wake_error hl]
    exact balance_of_call rfl hidle
  | timeout ht => exact Waiters.Balanced.timeout h ht

/-- A step after which no reset is on its way: there was none before, or the last one has found
that no producer waits. -/
theorem Result.noReset (hres : Result s op s' ret) (h : NoReset s') :
    NoReset s ∧ (∀ t, op ≠ .reset t) ∨ s'.waiters.list .sender = [] := by
  have hback : ∀ {t : ThreadId} {c : Call}, s'.call = Function.update s.call t c →
      (s.call t).inReset = false → NoReset s := by
    intro t c hcall ht u
    by_cases hu : u = t
    · rw [hu]
      exact ht
    · have hsame := h u
      rwa [hcall, update_of_ne hu] at hsame
  have htries : ∀ {t : ThreadId} {o : Operation}, Tries s op t o →
      (s.call t).inReset = false ∧ ∀ t, op ≠ .reset t := by
    intro t o ht
    cases ht with
    | push hact | pop hact => exact ⟨by rw [hact.2]; rfl, by simp⟩
    | pushAgain hrun hc | popAgain hrun hc => exact ⟨by rw [hc]; rfl, by simp⟩
  cases hres with
  | put ht hroom | take ht hitem | block ht hun hblock hc | refused ht hun =>
    exact .inl ⟨hback rfl (htries ht).1, (htries ht).2⟩
  | @failed t ht hrole herr =>
    refine .inl ⟨hback rfl ?_, by simp⟩
    cases hc : s.call t with
    | pushing | popping | outside | peeking => rfl
    | resetting | waking => simp [hc, Call.role] at hrole
  | peekEmpty | timeout => exact .inl ⟨h, by simp⟩
  | peek ht hitem => exact .inl ⟨hback rfl (by rw [ht.2]; rfl), by simp⟩
  | peeked ht hc => exact .inl ⟨hback rfl (by rw [hc]; rfl), by simp⟩
  | @reset t ht =>
    have ht' := h t
    simp [rtDataQueueReset, setCall, Call.inReset] at ht'
  | @tested t r ht hc =>
    obtain ⟨c, heq, -, hin⟩ := resetTest_eq s t r
    have ht' := h t
    rw [heq] at ht' ⊢
    obtain hin | hnil := hin
    · simp [setCall, hin] at ht'
    · exact .inr hnil
  | @wake t u us r ht hc hl =>
    have ht' := h t
    simp [setCall, Call.inReset] at ht'

end steps

/-! ## Runs -/

/-- The invariant of a run: the producers count when no reset is on its way. -/
structure Inv (n : Nat) (s : State) : Prop where
  rep : ∃ k, Rep n k s.dq
  consumers : Balance false s
  all : NoReset s → Balance true s

section runs

variable {n lwm : Nat} {queue : Nat → RtDataItem} {priority : ThreadId → Nat} {s s' : State}
  {op : Op}

/-- Nobody waits for room. -/
theorem Balance.of_nil (h : Balance false s) (hnil : s.waiters.list .sender = []) :
    Balance true s :=
  ⟨h.ok, forall_role (h.served .receiver) fun hne => absurd hnil hne⟩

theorem step_inv (hn : n ≤ sizeMax) (h : Inv n s) (hs : step s op = some s') : Inv n s' := by
  obtain ⟨⟨s', ret⟩, hcall, rfl⟩ := Option.map_eq_some_iff.mp hs
  have hres := call_result hcall
  obtain ⟨k, hrep⟩ := h.rep
  have hconsumers := hres.balance hrep hn (by simp) h.consumers
  refine ⟨(hres.effect hrep hn).2, hconsumers, fun hno => ?_⟩
  obtain ⟨hold, hop⟩ | hnil := hres.noReset hno
  · exact hres.balance hrep hn (fun _ => hop) (h.all hold)
  · exact hconsumers.of_nil hnil

theorem inv_init (hpos : 1 ≤ n) : Inv n (init queue n lwm priority) where
  rep := ⟨0, rep_init hpos⟩
  consumers := (Waiters.ok_init priority).balanced (fun _ => rfl) _
  all := fun _ => (Waiters.ok_init priority).balanced (fun _ => rfl) _

end runs

/-- The thread is suspended in a pop, or in a push. -/
def Waits (s : State) (r : Role) (t : ThreadId) : Prop :=
  (s.waiters.thread t).suspended = true ∧ role s t = some r

/-- In every run of a queue whose size the indices can reach: while a consumer waits the items
are at most the woken consumers; and while a producer waits, the queue is not full, its length is
at most the low-water mark and no reset is on its way, a producer has been woken. -/
theorem data_queue_wake_ups (n lwm : Nat) (hpos : 1 ≤ n) (hn : n ≤ 32768)
    (queue : Nat → RtDataItem) (priority : ThreadId → Nat) (ops : List Op) (s : State)
    (hrun : Runs.run step (init queue n lwm priority) ops = some s) :
    (∀ t, Waits s .receiver t →
      AtLeast (rtDataQueueLen s.dq) (s.waiters.Woken (role s) .receiver)) ∧
    (NoReset s → ∀ t, Waits s .sender t → rtDataQueueLen s.dq ≤ s.dq.lwm →
      rtDataQueueLen s.dq < s.dq.size → ∃ u, s.waiters.Woken (role s) .sender u) := by
  have h : Inv n s :=
    Runs.run_invariant (fun _ _ _ h hs => step_inv hn h hs) (inv_init hpos) hrun
  constructor
  · intro t ht
    exact Waiters.Balanced.atLeast h.consumers ht.1 ht.2
  · intro hno t ht hlwm hsize
    have hwoken := Waiters.Balanced.atLeast (h.all hno) ht.1 ht.2
    refine hwoken.exists ?_
    simp only [available, if_true]
    omega

/-- A consumer waits behind a woken one, with one item in the queue. -/
def itemForOne : List Op := [.pop 1 0xffffffff, .pop 2 0xffffffff, .push 3 ⟨7, 1⟩ 0]

/-- A producer waits behind a woken one, with one item left in a queue of two. -/
def roomForOne : List Op :=
  [.push 1 ⟨1, 1⟩ 0, .push 2 ⟨2, 1⟩ 0, .push 3 ⟨3, 1⟩ 10, .push 4 ⟨4, 1⟩ 10, .pop 5 0]

theorem data_queue_wake_ups_two :
    (∃ s, Runs.run step (init (fun _ => ⟨0, 0⟩) 2 1 fun t => t) itemForOne = some s ∧
      Waits s .receiver 2 ∧
      AtLeast (rtDataQueueLen s.dq) (s.waiters.Woken (role s) .receiver)) ∧
    ∃ s, Runs.run step (init (fun _ => ⟨0, 0⟩) 2 1 fun t => t) roomForOne = some s ∧
      Waits s .sender 4 ∧ rtDataQueueLen s.dq = 1 ∧
      (NoReset s → ∃ u, s.waiters.Woken (role s) .sender u) := by
  constructor
  · have hlast : ((Runs.run step (init (fun _ => ⟨0, 0⟩) 2 1 fun t => t) itemForOne).map fun s =>
        ((s.waiters.thread 2).suspended, role s 2)) = some (true, some .receiver) := by
      decide +kernel
    obtain ⟨s, hrun, hs⟩ := Option.map_eq_some_iff.mp hlast
    simp only [Prod.mk.injEq] at hs
    exact ⟨s, hrun, hs, (data_queue_wake_ups 2 1 (by decide) (by decide) (fun _ => ⟨0, 0⟩)
      (fun t => t) itemForOne s hrun).1 2 hs⟩
  · have hlast : ((Runs.run step (init (fun _ => ⟨0, 0⟩) 2 1 fun t => t) roomForOne).map fun s =>
        ((s.waiters.thread 4).suspended, role s 4, rtDataQueueLen s.dq, s.dq.lwm, s.dq.size)) =
          some (true, some .sender, 1, 1, 2) := by decide +kernel
    obtain ⟨s, hrun, hs⟩ := Option.map_eq_some_iff.mp hlast
    simp only [Prod.mk.injEq] at hs
    obtain ⟨hsus, hrole, hlen, hlwm, hsize⟩ := hs
    refine ⟨s, hrun, ⟨hsus, hrole⟩, hlen, fun hno => ?_⟩
    exact (data_queue_wake_ups 2 1 (by decide) (by decide) (fun _ => ⟨0, 0⟩) (fun t => t)
      roomForOne s hrun).2 hno 4 ⟨hsus, hrole⟩ (by omega) (by omega)

/-- A producer waits for a full queue of one item whose low-water mark is one. -/
theorem full_at_low_water_mark :
    ∃ s, Runs.run step (init (fun _ => ⟨0, 0⟩) 1 1 fun t => t)
        [.push 1 ⟨1, 1⟩ 0, .push 2 ⟨2, 1⟩ 10] = some s ∧
      Waits s .sender 2 ∧ rtDataQueueLen s.dq ≤ s.dq.lwm ∧
      ¬ ∃ u, s.waiters.Woken (role s) .sender u := by
  refine ⟨_, rfl, ⟨rfl, rfl⟩, by decide, ?_⟩
  rintro ⟨u, hrole, hsus, -⟩
  by_cases hu : u = 2
  · subst hu
    cases hsus
  · simp [role, setCall, hu, Call.role, init] at hrole

end RtThread.DataQueue
