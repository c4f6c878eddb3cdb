import RtThread.MailboxDeque
import RtThread.MessageQueueOrder

/-!
# No wake-up is lost

A mailbox or a message queue wakes one receiver for every message and one sender for
every cell or slot that becomes free. The woken thread looks at the object again and
may find nothing, when another thread was faster. While a receiver is suspended, the
messages in the object are at most the receivers that have been woken and have not
looked again; and the same for senders and free places.
-/
namespace RtThread

open Ipc Counting

/-- At least `n` threads are on the way, and so at least one when there is anything to look
for. -/
def OnTheWay (n : Nat) (p : ThreadId → Prop) : Prop := AtLeast n p ∧ (0 < n → ∃ u, p u)

theorem onTheWay_of_atLeast {n : Nat} {p : ThreadId → Prop} (h : AtLeast n p) : OnTheWay n p :=
  ⟨h, h.exists⟩

namespace Mailbox

/-- What the thread may wait for. -/
def role (s : State) (t : ThreadId) : Option Role := (s.call t).role

/-- The mails, and the free cells. -/
def available (mb : RtMailbox) : Role → Nat
  | .receiver => mb.entry
  | .sender => mb.size - mb.entry

theorem role_setCall (s : State) (t : ThreadId) (c : Call) :
    role (setCall s t c) = Function.update (role s) t c.role := by
  funext u
  by_cases hu : u = t
  · subst hu
    simp [role, setCall]
  · simp [role, setCall, hu]

theorem available_eq_zero {mb : RtMailbox} {r : Role} (h : Unavailable mb r) : available mb r = 0 := by
  cases r with
  | receiver => exact h
  | sender =>
    have hfull : mb.entry = mb.size := h
    rw [available, hfull, Nat.sub_self]

variable {n : Nat} {s s' : State} {t : ThreadId}

theorem put_balanced (hrep : Rep n s.mb) (hn : n ≤ entryMax)
    (h : s.waiters.Balanced (role s) (available s.mb)) (ht : In s t .sender)
    (hroom : s.mb.entry ≠ s.mb.size) (value : Mail) :
    (put s t value).1.waiters.Balanced (role (put s t value).1) (available (put s t value).1.mb) := by
  rw [put_eq hrep hn hroom]
  have hrole : role { setCall s t .outside with
      waiters := s.waiters.wake .receiver
      mb := { s.mb with
        msgPool := Function.update s.mb.msgPool s.mb.inOffset value
        inOffset := (s.mb.inOffset + 1) % n
        entry := s.mb.entry + 1 } } = Function.update (role s) t none := role_setCall s t .outside
  rw [hrole]
  refine ((h.leave ht.running ht.role).wake .receiver).le (forall_role ?_ ?_)
  · simp [available]
  · simp only [available, ne_eq, reduceCtorEq, not_false_eq_true, Function.update_of_ne,
      Function.update_self]
    omega

theorem urgent_balanced (hrep : Rep n s.mb) (hn : n ≤ entryMax)
    (h : s.waiters.Balanced (role s) (available s.mb)) (hroom : s.mb.entry ≠ s.mb.size)
    (value : Mail) :
    (rtMbUrgent s value).1.waiters.Balanced (role (rtMbUrgent s value).1)
      (available (rtMbUrgent s value).1.mb) := by
  obtain ⟨out, -, -, heq⟩ := urgent_eq hrep hn hroom value
  rw [heq]
  refine (h.wake .receiver).le (forall_role ?_ ?_)
  · simp [available]
  · simp only [available, ne_eq, reduceCtorEq, not_false_eq_true, Function.update_of_ne]
    omega

theorem take_balanced (h : s.waiters.Balanced (role s) (available s.mb)) (ht : In s t .receiver)
    (hmail : s.mb.entry ≠ 0) :
    (take s t).1.waiters.Balanced (role (take s t).1) (available (take s t).1.mb) := by
  have hpos : 0 < s.mb.entry := by omega
  have hrole : role (take s t).1 = Function.update (role s) t none :=
    role_setCall { s with
      mb := { s.mb with
        outOffset := s.mb.next s.mb.outOffset
        entry := if 0 < s.mb.entry then s.mb.entry - 1 else s.mb.entry }
      waiters := s.waiters.wake .sender } t .outside
  rw [hrole]
  refine ((h.leave ht.running ht.role).wake .sender).le (forall_role ?_ ?_)
  · simp [available, take, setCall, hpos]
  · simp only [available, take, setCall, if_pos hpos, ne_eq, reduceCtorEq, not_false_eq_true,
      Function.update_of_ne, Function.update_self]
    omega

theorem Result.balanced {o : Option Operation} {ret : Option Ret} (hres : Result s o s' ret)
    (hrep : Rep n s.mb) (hn : n ≤ entryMax)
    (h : s.waiters.Balanced (role s) (available s.mb)) :
    s'.waiters.Balanced (role s') (available s'.mb) := by
  cases hres with
  | send ht hroom => exact put_balanced hrep hn h ht hroom _
  | urgent hroom => exact urgent_balanced hrep hn h hroom _
  | recv ht hmail => exact take_balanced h ht hmail
  | block ht hblock hc hun ho =>
    rw [role_setCall, hc]
    exact h.block ht.running ht.role (available_eq_zero hun) hblock
  | refused ht hun herr ho =>
    rw [role_setCall]
    exact h.refuse ht.running ht.role (available_eq_zero hun) _
  | full herr ho => exact h
  | failed ht herr ho =>
    rw [role_setCall]
    exact h.leave_idle ht (.inr herr)
  | reset hrecv hsend =>
    refine Waiters.Ok.balanced ((h.ok.wakeAll hrecv).wakeAll hsend) (forall_role ?_ ?_) _
    · simp [Waiters.wakeAll_list hsend, Waiters.wakeAll_list hrecv]
    · simp [Waiters.wakeAll_list hsend]
  | timeout ht => exact h.timeout ht
  | tick => exact h

theorem run_balanced {flag : Flag} {tick : Tick} {pool : Nat → Mail} {priority : ThreadId → Nat}
    {ops : List Op} (hpos : 1 ≤ n) (hn : n ≤ entryMax)
    (hrun : Runs.run step (init flag tick pool n priority) ops = some s) :
    s.waiters.Balanced (role s) (available s.mb) := by
  have hinv : Rep n s.mb ∧ s.waiters.Balanced (role s) (available s.mb) := by
    refine @Runs.run_invariant _ _ step
      (fun s => Rep n s.mb ∧ s.waiters.Balanced (role s) (available s.mb)) ?_ _ _ _ ?_ hrun
    · intro s op s' h hs
      obtain ⟨⟨s', ret⟩, hcall, rfl⟩ := Option.map_eq_some_iff.mp hs
      exact ⟨(call_result hcall).rep h.1 hn, (call_result hcall).balanced h.1 hn h.2⟩
    · exact ⟨rep_init hpos flag tick pool priority,
        (Waiters.ok_init priority).balanced (fun _ => rfl) _⟩
  exact hinv.2

/-- The thread is suspended on the mailbox, as a receiver or as a sender. -/
def Waits (s : State) (r : Role) (t : ThreadId) : Prop :=
  (s.waiters.thread t).suspended = true ∧ role s t = some r

/-- While a receiver waits there are at most as many mails as woken receivers, and while a
sender waits there are at most as many free cells as woken senders. -/
def NoLostWakeUp (s : State) : Prop :=
  (∀ t, Waits s .receiver t → OnTheWay s.mb.entry (s.waiters.Woken (role s) .receiver)) ∧
    ∀ t, Waits s .sender t →
      OnTheWay (s.mb.size - s.mb.entry) (s.waiters.Woken (role s) .sender)

end Mailbox

namespace MessageQueue

open LinkedChain

/-- What the thread may wait for. -/
def role (s : State) (t : ThreadId) : Option Role := (s.call t).role

/-- The messages, and the free slots. -/
def available (mq : RtMq) (free : List Slot) : Role → Nat
  | .receiver => mq.entry
  | .sender => free.length

theorem role_of_call {s s' : State} {t : ThreadId} {c : Call}
    (h : s'.call = Function.update s.call t c) : role s' = Function.update (role s) t c.role := by
  funext u
  rw [role, h]
  by_cases hu : u = t
  · subst hu
    simp
  · simp [role, hu]

variable {n : Nat} {s s' : State} {a : Deque} {free queue : List Slot} {t : ThreadId}

theorem Inv.available_eq_zero (h : Inv n s a free queue) {r : Role} (hun : Unavailable s.mq r) :
    available s.mq free r = 0 := by
  cases r with
  | receiver => exact hun
  | sender =>
    have hchain := h.slots.freeChain
    have hnone : s.mq.msgQueueFree = none := hun
    rw [hnone] at hchain
    rw [hchain.of_none]
    rfl

/-- The balance after a step, with the free list after it. -/
theorem Result.balanced {o : Option Obs} (hres : Result s o s') (h : Inv n s a free queue)
    (hn : n ≤ entryMax) (hb : s.waiters.Balanced (role s) (available s.mq free)) :
    ∃ a' free' queue', a.after o = some a' ∧ Inv n s' a' free' queue' ∧
      s'.waiters.Balanced (role s') (available s'.mq free') := by
  cases hres with
  | @takeSlot t urgent slot data ht hfree hdata =>
    obtain ⟨free', rfl, hinv⟩ := h.takeSlot ht hfree hdata
    refine ⟨a, free', queue, rfl, hinv, ?_⟩
    rw [role_of_call (s := s) (t := t) rfl]
    refine (hb.leave ht.running ht.role).le (forall_role ?_ ?_)
    · simp [available, setCall, takeFree]
    · simp [available]
  | @unlink t slot size ht hentry hhead =>
    obtain ⟨a', queue', hstep, hinv⟩ := h.unlink ht hhead
    refine ⟨a', free, queue', hstep, hinv, ?_⟩
    rw [role_of_call (s := s) (t := t) rfl]
    refine (hb.leave ht.running ht.role).le (forall_role ?_ ?_)
    · simp [available, setCall]
    · simp [available]
  | @waitSend t timeout w data ht hblock hun hdata =>
    refine ⟨a, free, queue, rfl, h.of_same_mq _ rfl rfl ht.slot.symm (h.fits hdata), ?_⟩
    rw [role_of_call (s := s) (t := t) rfl]
    exact hb.block ht.running ht.role (h.available_eq_zero hun) hblock
  | @waitRecv t timeout w size ht hblock hun =>
    refine ⟨a, free, queue, rfl, h.of_same_mq _ rfl rfl ht.slot.symm trivial, ?_⟩
    rw [role_of_call (s := s) (t := t) rfl]
    exact hb.block ht.running ht.role (h.available_eq_zero hun) hblock
  | @refused r t e ht hun =>
    refine ⟨a, free, queue, rfl, h.of_same_mq _ rfl rfl ht.slot.symm trivial, ?_⟩
    rw [role_of_call (s := s) (t := t) rfl]
    exact hb.refuse ht.running ht.role (h.available_eq_zero hun) e
  | unchanged => exact ⟨a, free, queue, rfl, h, hb⟩
  | @failed t r ht herr =>
    refine ⟨a, free, queue, rfl, h.of_same_mq _ rfl rfl ht.slot.symm trivial, ?_⟩
    rw [role_of_call (s := s) (t := t) rfl]
    exact hb.leave_idle ht.running (.inr herr)
  | @fill t urgent slot data ht hc =>
    refine ⟨a, free, queue, rfl, h.fill hc, ?_⟩
    rw [role_of_call (s := s) (t := t) rfl]
    exact hb.leave_idle ht (.inl (by simp [role, hc, Call.role]))
  | @copyOut t slot size ht hc =>
    refine ⟨a, free, queue, rfl, h.copyOut hc, ?_⟩
    rw [role_of_call (s := s) (t := t) rfl]
    exact hb.leave_idle ht (.inl (by simp [role, hc, Call.role]))
  | @link t urgent slot data _ ret ht hc hs =>
    obtain ⟨-, hwaiters, hcall, hentry, -, a', queue', hstep, hinv⟩ := h.link hn hc hs
    refine ⟨a', free, queue', hstep, hinv, ?_⟩
    rw [role_of_call hcall, hwaiters]
    have hidle := hb.leave_idle ht (.inl (by simp [role, hc, Call.role]))
    refine (hidle.wake .receiver).le (forall_role ?_ ?_)
    · simp [available, hentry]
    · simp [available]
  | @free t slot size bytes ht hc =>
    obtain ⟨a', hstep, hinv⟩ := h.freed hc
    refine ⟨a', _, queue, hstep, hinv, ?_⟩
    rw [role_of_call (s := s) (t := t) rfl]
    have hidle := hb.leave_idle ht (.inl (by simp [role, hc, Call.role]))
    refine (hidle.wake .sender).le (forall_role ?_ ?_)
    · simp [available, setCall, putFree]
    · simp [available]
  | @reset t _ ret ht hs =>
    obtain ⟨a', free', hstep, hinv⟩ := h.reset ht hs
    refine ⟨a', free', [], hstep, hinv, ?_⟩
    rw [rtMqReset] at hs
    obtain ⟨w, hrecv, hs⟩ := Option.bind_eq_some_iff.mp hs
    obtain ⟨w', hsend, hs⟩ := Option.bind_eq_some_iff.mp hs
    obtain ⟨mq, -, hs⟩ := Option.bind_eq_some_iff.mp hs
    cases hs
    refine Waiters.Ok.balanced ((hb.ok.wakeAll hrecv).wakeAll hsend) (forall_role ?_ ?_) _
    · simp [Waiters.wakeAll_list hsend, Waiters.wakeAll_list hrecv]
    · simp [Waiters.wakeAll_list hsend]
  | timeout ht => exact ⟨a, free, queue, rfl, h.of_waiters, hb.timeout ht⟩
  | tick => exact ⟨a, free, queue, rfl, ⟨h.slots, h.max, h.entry, h.queued, h.calls, h.fresh⟩, hb⟩

theorem run_balanced {flag : Flag} {tick : Tick} {next : Slot → Option Slot}
    {bytes : Slot → Nat → Byte} {msgSize : Nat} {priority : ThreadId → Nat} {ops : List Op}
    (hn : n ≤ entryMax)
    (hrun : Runs.run step (init flag tick (rtMqInit next bytes msgSize n) priority) ops = some s) :
    ∃ a free queue, Inv n s a free queue ∧
      s.waiters.Balanced (role s) (available s.mq free) := by
  refine @Runs.run_invariant _ _ step (fun s => ∃ a free queue, Inv n s a free queue ∧
    s.waiters.Balanced (role s) (available s.mq free)) ?_ _ _ _ ?_ hrun
  · intro s op s' h hs
    obtain ⟨a, free, queue, hinv, hb⟩ := h
    obtain ⟨⟨s', ret⟩, hcall, rfl⟩ := Option.map_eq_some_iff.mp hs
    obtain ⟨a', free', queue', -, hinv', hb'⟩ := (call_result hcall).balanced hinv hn hb
    exact ⟨a', free', queue', hinv', hb'⟩
  · exact ⟨_, _, _, inv_init flag tick next bytes msgSize priority,
      (Waiters.ok_init priority).balanced (fun _ => rfl) _⟩

/-- The thread is suspended on the message queue, as a receiver or as a sender. -/
def Waits (s : State) (r : Role) (t : ThreadId) : Prop :=
  (s.waiters.thread t).suspended = true ∧ role s t = some r

/-- While a receiver waits there are at most as many messages as woken receivers, and while a
sender waits there are at most as many free slots as woken senders. -/
def NoLostWakeUp (s : State) : Prop :=
  (∀ t, Waits s .receiver t → OnTheWay s.mq.entry (s.waiters.Woken (role s) .receiver)) ∧
    ∃ free : List Slot, Chain s.mq.next s.mq.msgQueueFree free ∧
      ∀ t, Waits s .sender t → OnTheWay free.length (s.waiters.Woken (role s) .sender)

end MessageQueue

/-- Mailboxes and message queues lose no wake-up, in any run. -/
theorem no_lost_wake_up :
    (∀ (n : Nat) (flag : Flag) (tick : Tick) (pool : Nat → Mailbox.Mail)
      (priority : ThreadId → Nat) (ops : List Mailbox.Op) (s : Mailbox.State),
      1 ≤ n → n ≤ Mailbox.entryMax →
      Runs.run Mailbox.step (Mailbox.init flag tick pool n priority) ops = some s →
      Mailbox.NoLostWakeUp s) ∧
    ∀ (n msgSize : Nat) (flag : Flag) (tick : Tick) (next : Nat → Option Nat)
      (bytes : Nat → Nat → MessageQueue.Byte) (priority : ThreadId → Nat)
      (ops : List MessageQueue.Op) (s : MessageQueue.State),
      n ≤ MessageQueue.entryMax →
      Runs.run MessageQueue.step
        (MessageQueue.init flag tick (MessageQueue.rtMqInit next bytes msgSize n) priority) ops =
          some s →
      MessageQueue.NoLostWakeUp s := by
  constructor
  · intro n flag tick pool priority ops s hpos hn hrun
    have h := Mailbox.run_balanced hpos hn hrun
    exact ⟨fun t ht => onTheWay_of_atLeast (h.atLeast ht.1 ht.2),
      fun t ht => onTheWay_of_atLeast (h.atLeast ht.1 ht.2)⟩
  · intro n msgSize flag tick next bytes priority ops s hn hrun
    obtain ⟨a, free, queue, hinv, h⟩ := MessageQueue.run_balanced hn hrun
    exact ⟨fun t ht => onTheWay_of_atLeast (h.atLeast ht.1 ht.2), free, hinv.slots.freeChain,
      fun t ht => onTheWay_of_atLeast (h.atLeast ht.1 ht.2)⟩

/-- Two receivers wait, and the first of them has been woken by a mail. -/
def twoReceivers : Mailbox.State := Mailbox.init .fifo 0 (fun _ => 0) 2 (fun t => t)

def mailForOne : List Mailbox.Op := [.recv 1 0xffffffff, .recv 2 0xffffffff, .send 3 7 0]

/-- Two senders wait for the only slot, and the first of them has been woken. -/
def oneSlot : MessageQueue.State :=
  MessageQueue.init .prio 0 (MessageQueue.rtMqInit (fun _ => none) (fun _ _ => 0) 4 1) (fun t => t)

def slotForOne : List MessageQueue.Op :=
  [.send 1 [1] 0, .copy 1, .finish 1, .send 2 [2] 10, .send 3 [3] 10, .recv 4 4 0, .copy 4, .finish 4]

theorem no_lost_wake_up_waiting :
    (∃ s, Runs.run Mailbox.step twoReceivers mailForOne = some s ∧
      Mailbox.Waits s .receiver 2 ∧ OnTheWay 1 (s.waiters.Woken (Mailbox.role s) .receiver)) ∧
    ∃ s, Runs.run MessageQueue.step oneSlot slotForOne = some s ∧
      MessageQueue.Waits s .sender 3 ∧ MessageQueue.NoLostWakeUp s := by
  constructor
  · have hlast : ((Runs.run Mailbox.step twoReceivers mailForOne).map fun s =>
        ((s.waiters.thread 2).suspended, Mailbox.role s 2, s.mb.entry)) =
          some (true, some .receiver, 1) := by decide +kernel
    obtain ⟨s, hrun, hs⟩ := Option.map_eq_some_iff.mp hlast
    simp only [Prod.mk.injEq] at hs
    have h := no_lost_wake_up.1 2 .fifo 0 (fun _ => 0) (fun t => t) mailForOne s (by decide)
      (by decide) hrun
    have hrecv := h.1 2 ⟨hs.1, hs.2.1⟩
    rw [hs.2.2] at hrecv
    exact ⟨s, hrun, ⟨hs.1, hs.2.1⟩, hrecv⟩
  · have hlast : ((Runs.run MessageQueue.step oneSlot slotForOne).map fun s =>
        ((s.waiters.thread 3).suspended, MessageQueue.role s 3)) = some (true, some .sender) := by
      decide +kernel
    obtain ⟨s, hrun, hs⟩ := Option.map_eq_some_iff.mp hlast
    simp only [Prod.mk.injEq] at hs
    exact ⟨s, hrun, hs, no_lost_wake_up.2 1 4 .prio 0 (fun _ => none) (fun _ _ => 0) (fun t => t)
      slotForOne s (by decide) hrun⟩

end RtThread
