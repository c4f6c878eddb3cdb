import Mathlib.Data.List.Forall2
import RtThread.MessageQueueSlots

/-!
# The messages of a message queue

What the steps of a run do to the messages is observed: a message is linked, the
first message is unlinked by a receiver, a receiver returns the bytes it copied, and
the queue is reset. These observations are the run of a deque of messages, in which
every message has a number of its own.
-/
namespace RtThread.MessageQueue

open Function (update_eq_self update_of_ne update_self)
open Ipc LinkedChain

/-! ## A deque of numbered messages -/

structure Msg where
  id : Nat
  data : List Byte
  deriving DecidableEq

inductive Obs where
  | link (urgent : Bool) (data : List Byte)
  | unlink (t : ThreadId)
  | received (t : ThreadId) (size : Nat) (bytes : List Byte)
  | reset
  deriving DecidableEq

structure Deque where
  linked : Nat
  queue : List Msg
  /-- The message a receiver has unlinked and not returned yet. -/
  taken : ThreadId → Option Msg
  /-- The numbers of the unlinked messages, in that order. -/
  delivered : List Nat

def Deque.empty : Deque := ⟨0, [], fun _ => none, []⟩

/-- A deque refuses to unlink a message when it is empty, and to return bytes that are not those
of the message, cut to the size of the receiver. -/
def Deque.step (a : Deque) : Obs → Option Deque
  | .link urgent data =>
    let m := ⟨a.linked, data⟩
    some { a with
      linked := a.linked + 1
      queue := if urgent then m :: a.queue else a.queue ++ [m] }
  | .unlink t =>
    match a.queue with
    | [] => none
    | m :: queue =>
      some { a with
        queue := queue
        taken := Function.update a.taken t (some m)
        delivered := a.delivered ++ [m.id] }
  | .received t size bytes =>
    match a.taken t with
    | none => none
    | some m =>
      if bytes.take m.data.length = m.data.take size then
        some { a with taken := Function.update a.taken t none }
      else none
  | .reset => some { a with queue := [] }

/-- No message is delivered twice. -/
structure Fresh (a : Deque) : Prop where
  nodup : (a.delivered ++ a.queue.map Msg.id).Nodup
  bound : ∀ i ∈ a.delivered ++ a.queue.map Msg.id, i < a.linked

theorem fresh_empty : Fresh .empty := ⟨List.nodup_nil, fun _ hi => absurd hi List.not_mem_nil⟩

theorem Fresh.step {a a' : Deque} {o : Obs} (h : Fresh a) (hs : a.step o = some a') : Fresh a' := by
  have hnew : a.linked ∉ a.delivered ++ a.queue.map Msg.id := fun hm =>
    lt_irrefl _ (h.bound _ hm)
  cases o with
  | link urgent data =>
    cases hs
    have hperm : (a.delivered ++ (if urgent then ⟨a.linked, data⟩ :: a.queue
        else a.queue ++ [⟨a.linked, data⟩]).map Msg.id).Perm
          (a.linked :: (a.delivered ++ a.queue.map Msg.id)) := by
      cases urgent with
      | true => simp
      | false =>
        simp only [Bool.false_eq_true, if_false, List.map_append, List.map_cons, List.map_nil]
        rw [← List.append_assoc]
        exact List.perm_append_singleton _ _
    refine ⟨hperm.nodup_iff.mpr (List.nodup_cons.mpr ⟨hnew, h.nodup⟩), fun i hi => ?_⟩
    obtain rfl | hi := List.mem_cons.mp (hperm.mem_iff.mp hi)
    · exact Nat.lt_succ_self _
    · exact Nat.lt_succ_of_lt (h.bound i hi)
  | unlink t =>
    rw [Deque.step] at hs
    cases hq : a.queue with
    | nil => simp [hq] at hs
    | cons m queue =>
      simp only [hq, Option.some.injEq] at hs
      subst hs
      have hsame : a.delivered ++ [m.id] ++ queue.map Msg.id =
          a.delivered ++ a.queue.map Msg.id := by simp [hq]
      exact ⟨hsame ▸ h.nodup, hsame ▸ h.bound⟩
  | received t size bytes =>
    rw [Deque.step] at hs
    split at hs
    · cases hs
    · split at hs
      · cases hs
        exact ⟨h.nodup, h.bound⟩
      · cases hs
  | reset =>
    cases hs
    have hsub : (a.delivered ++ ([] : List Msg).map Msg.id).Sublist
        (a.delivered ++ a.queue.map Msg.id) := by simp
    exact ⟨h.nodup.sublist hsub, fun i hi => h.bound i (hsub.mem hi)⟩

/-! ## What is observed -/

/-- What a step from `s` to `s'` does to the messages. -/
def observe (s s' : State) : Op → Option Obs
  | .finish t =>
    match s.call t with
    | .linking urgent _ data => some (.link urgent data)
    | .freeing _ size bytes => some (.received t size bytes)
    | _ => none
  | .recv t _ _ | .switchBack t =>
    match s'.call t with
    | .copying _ _ => some (.unlink t)
    | _ => none
  | .reset _ => some .reset
  | _ => none

def trace : State → List Op → List Obs
  | _, [] => []
  | s, op :: ops =>
    match step s op with
    | none => []
    | some s' => (observe s s' op).toList ++ trace s' ops

/-! ## What a step can do -/

def Call.role : Call → Option Role
  | .sending _ _ _ => some .sender
  | .receiving _ _ _ => some .receiver
  | _ => none

/-- The thread runs, inside or at the beginning of a function that may wait for the reason, and
holds no slot. -/
structure In (s : State) (t : ThreadId) (r : Role) : Prop where
  running : (s.waiters.thread t).suspended = false
  role : (s.call t).role = none ∨ (s.call t).role = some r
  slot : (s.call t).slot = none

/-- There is no message, or no free slot. -/
def Unavailable (mq : RtMq) : Role → Prop
  | .receiver => mq.entry = 0
  | .sender => mq.msgQueueFree = none

/-- The message fits into a slot, or the check that it does was made when the call began. -/
def Fits (s : State) (t : ThreadId) (data : List Byte) : Prop :=
  data.length ≤ s.mq.msgSize ∨ ∃ timeout since, s.call t = .sending data timeout since

inductive Result (s : State) : Option Obs → State → Prop
  | takeSlot {t : ThreadId} {urgent : Bool} {slot : Slot} {data : List Byte} (ht : In s t .sender)
      (hfree : s.mq.msgQueueFree = some slot) (hdata : Fits s t data) :
    Result s none (setCall { s with mq := takeFree s.mq slot } t (.filling urgent slot data))
  | unlink {t : ThreadId} {slot : Slot} {size : Nat} (ht : In s t .receiver)
      (hentry : 0 < s.mq.entry) (hhead : s.mq.msgQueueHead = some slot) :
    Result s (some (.unlink t))
      (setCall { s with mq := { unlinkHead s.mq slot with entry := s.mq.entry - 1 } } t
        (.copying slot size))
  | waitSend {t : ThreadId} {timeout : BitVec 32} {w : Waiters Role} {data : List Byte}
      (ht : In s t .sender) (hblock : s.waiters.block s.flag .sender t timeout = some w)
      (hun : Unavailable s.mq .sender) (hdata : Fits s t data) :
    Result s none (setCall { s with waiters := w } t (.sending data timeout s.tick))
  | waitRecv {t : ThreadId} {timeout : BitVec 32} {w : Waiters Role} {size : Nat}
      (ht : In s t .receiver) (hblock : s.waiters.block s.flag .receiver t timeout = some w)
      (hun : Unavailable s.mq .receiver) :
    Result s none (setCall { s with waiters := w } t (.receiving size timeout s.tick))
  | refused {r : Role} {t : ThreadId} {e : RtErr} (ht : In s t r) (hun : Unavailable s.mq r) :
    Result s none (setCall { s with waiters := s.waiters.setError t e } t .outside)
  | unchanged : Result s none s
  | failed {t : ThreadId} {r : Role} (ht : In s t r) (herr : (s.waiters.thread t).error ≠ .eok) :
    Result s none (setCall s t .outside)
  | fill {t : ThreadId} {urgent : Bool} {slot : Slot} {data : List Byte}
      (ht : (s.waiters.thread t).suspended = false) (hc : s.call t = .filling urgent slot data) :
    Result s none (setCall { s with mq := { s.mq with
      next := if urgent then s.mq.next else Function.update s.mq.next slot none
      bytes := Function.update s.mq.bytes slot (copyIn data (s.mq.bytes slot)) } } t
        (.linking urgent slot data))
  | copyOut {t : ThreadId} {slot : Slot} {size : Nat} (ht : (s.waiters.thread t).suspended = false)
      (hc : s.call t = .copying slot size) :
    Result s none (setCall s t (.freeing slot size
      (copyOut (s.mq.bytes slot) (if s.mq.msgSize < size then s.mq.msgSize else size))))
  | link {t : ThreadId} {urgent : Bool} {slot : Slot} {data : List Byte} {s' : State}
      {ret : Option Ret} (ht : (s.waiters.thread t).suspended = false)
      (hc : s.call t = .linking urgent slot data) (hs : finish s t = some (s', ret)) :
    Result s (some (.link urgent data)) s'
  | free {t : ThreadId} {slot : Slot} {size : Nat} {bytes : List Byte}
      (ht : (s.waiters.thread t).suspended = false) (hc : s.call t = .freeing slot size bytes) :
    Result s (some (.received t size bytes)) (setCall { s with
      mq := putFree s.mq slot, waiters := s.waiters.wake .sender } t .outside)
  | reset {t : ThreadId} {s' : State} {ret : Option Ret} (ht : Active s t)
      (hs : rtMqReset s = some (s', ret)) : Result s (some .reset) s'
  | timeout {t : ThreadId} (ht : (s.waiters.thread t).timerActive = true) :
    Result s none { s with waiters := s.waiters.timeout t }
  | tick : Result s none { s with tick := s.tick + 1 }

variable {data : List Byte} {size : Nat} {mq mq' : RtMq} {x slot : Slot}

section result

variable {s s' : State} {ret : Option Ret} {t : ThreadId} {timeout : BitVec 32}

theorem sendLoop_result (ht : In s t .sender) (hdata : Fits s t data)
    (h : sendLoop s t data timeout = some (s', ret)) : Result s none s' ∧
      ∀ slot size, s'.call t ≠ .copying slot size := by
  rw [sendLoop] at h
  split at h
  · rename_i hnone
    split at h
    · cases h
      exact ⟨.refused ht hnone, by simp [setCall]⟩
    · obtain ⟨w, hw, heq⟩ := Option.map_eq_some_iff.mp h
      cases heq
      exact ⟨.waitSend ht hw hnone hdata, by simp [setCall]⟩
  · rename_i slot hslot
    cases h
    exact ⟨.takeSlot ht hslot hdata, by simp [setCall]⟩

theorem recvLoop_result (ht : In s t .receiver) (h : recvLoop s t size timeout = some (s', ret)) :
    Result s (match s'.call t with
      | .copying _ _ => some (.unlink t)
      | _ => none) s' := by
  rw [recvLoop] at h
  split at h
  · rename_i hempty
    split at h
    · cases h
      simp only [setCall, update_self]
      exact .refused ht hempty
    · obtain ⟨w, hw, heq⟩ := Option.map_eq_some_iff.mp h
      cases heq
      simp only [setCall, update_self]
      exact .waitRecv ht hw hempty
  · rename_i hentry
    obtain ⟨slot, hslot, heq⟩ := Option.map_eq_some_iff.mp h
    cases heq
    have hpos : 0 < s.mq.entry := Nat.pos_of_ne_zero hentry
    have hdec : (if 0 < (unlinkHead s.mq slot).entry then (unlinkHead s.mq slot).entry - 1
        else (unlinkHead s.mq slot).entry) = s.mq.entry - 1 := if_pos hpos
    simp only [setCall, update_self, hdec]
    exact .unlink ht hpos hslot

theorem switchBack_result (ht : (s.waiters.thread t).suspended = false)
    (h : switchBack s t = some (s', ret)) : Result s (observe s s' (.switchBack t)) s' := by
  simp only [observe]
  rw [switchBack] at h
  split at h
  · rename_i data timeout since hc
    have hin : In s t .sender := ⟨ht, by simp [hc, Call.role], by simp [hc, Call.slot]⟩
    split at h
    · rename_i herr
      cases h
      simp only [setCall, update_self]
      exact .failed hin herr
    · obtain ⟨hres, hnot⟩ := sendLoop_result hin (.inr ⟨timeout, since, hc⟩) h
      split
      · rename_i slot size hcopy
        exact absurd hcopy (hnot slot size)
      · exact hres
  · rename_i size timeout since hc
    have hin : In s t .receiver := ⟨ht, by simp [hc, Call.role], by simp [hc, Call.slot]⟩
    split at h
    · rename_i herr
      cases h
      simp only [setCall, update_self]
      exact .failed hin herr
    · exact recvLoop_result hin h
  · cases h

theorem In.of_active (h : Active s t) (r : Role) : In s t r :=
  ⟨h.1, by simp [h.2, Call.role], by simp [h.2, Call.slot]⟩

theorem call_result {op : Op} (h : call s op = some (s', ret)) : Result s (observe s s' op) s' := by
  cases op with
  | send t data timeout =>
    simp only [call] at h
    split at h
    · rename_i hact
      rw [rtMqSendWait] at h
      split at h
      · cases h
      · split at h
        · cases h
          exact .unchanged
        · split at h
          · cases h
            exact .unchanged
          · exact (sendLoop_result (.of_active hact .sender) (.inl (by omega)) h).1
    · cases h
  | urgent t data =>
    simp only [call] at h
    split at h
    · rename_i hact
      rw [rtMqUrgent] at h
      split at h
      · cases h
      · split at h
        · cases h
          exact .unchanged
        · split at h
          · cases h
            exact .unchanged
          · rename_i slot hslot
            cases h
            exact .takeSlot (.of_active hact .sender) hslot (.inl (by omega))
    · cases h
  | recv t size timeout =>
    simp only [call] at h
    split at h
    · rename_i hact
      rw [rtMqRecv] at h
      split at h
      · cases h
      · split at h
        · cases h
          simp only [observe, hact.2]
          exact .unchanged
        · exact recvLoop_result (.of_active hact .receiver) h
    · cases h
  | switchBack t =>
    simp only [call] at h
    split at h
    · exact switchBack_result (by assumption) h
    · cases h
  | copy t =>
    simp only [call] at h
    split at h
    · rename_i ht
      rw [copy] at h
      split at h
      · rename_i hc
        cases h
        exact .fill ht hc
      · rename_i hc
        cases h
        exact .copyOut ht hc
      · cases h
    · cases h
  | finish t =>
    simp only [call] at h
    split at h
    · rename_i ht
      cases hc : s.call t with
      | linking urgent slot data =>
        simp only [observe, hc]
        exact .link ht hc h
      | freeing slot size bytes =>
        simp only [observe, hc]
        rw [finish, hc] at h
        cases h
        exact .free ht hc
      | _ => simp [finish, hc] at h
    · cases h
  | reset t =>
    simp only [call] at h
    split at h
    · rename_i hact
      exact .reset hact h
    · cases h
  | timeout t =>
    simp only [call] at h
    split at h
    · cases h
      exact .timeout (by assumption)
    · cases h
  | tickIncrease =>
    cases h
    exact .tick

end result

/-! ## Messages in slots -/

/-- The slot holds the bytes of the message. -/
def Stored (mq : RtMq) (slot : Slot) (data : List Byte) : Prop :=
  data.length ≤ mq.msgSize ∧ ∀ i, i < data.length → data[i]? = some (mq.bytes slot i)

/-- What is known of a call, and of the message its thread has taken from the deque. -/
def CallOk (mq : RtMq) (taken : Option Msg) : Call → Prop
  | .outside => True
  | .sending data _ _ => data.length ≤ mq.msgSize
  | .filling _ _ data => data.length ≤ mq.msgSize
  | .linking urgent slot data => Stored mq slot data ∧ (urgent = false → mq.next slot = none)
  | .receiving _ _ _ => True
  | .copying slot _ => ∃ m, taken = some m ∧ Stored mq slot m.data
  | .freeing _ size bytes => ∃ m, taken = some m ∧ bytes.take m.data.length = m.data.take size

def held (s : State) (t : ThreadId) : Option Slot := (s.call t).slot

structure Inv (n : Nat) (s : State) (a : Deque) (free queue : List Slot) : Prop where
  slots : Slots n s.mq (held s) free queue
  max : s.mq.maxMsgs = n
  entry : s.mq.entry = queue.length
  queued : List.Forall₂ (fun slot (m : Msg) => Stored s.mq slot m.data) queue a.queue
  calls : ∀ t, CallOk s.mq (a.taken t) (s.call t)
  fresh : Fresh a

theorem stored_copyIn (hlen : data.length ≤ mq'.msgSize)
    (hbytes : mq'.bytes slot = copyIn data (mq.bytes slot)) : Stored mq' slot data := by
  refine ⟨hlen, fun i hi => ?_⟩
  rw [hbytes, copyIn, List.getD_eq_getElem?_getD, List.getElem?_eq_getElem hi, Option.getD_some]

theorem Stored.copyOut (h : Stored mq slot data) (size : Nat) :
    (copyOut (mq.bytes slot) (if mq.msgSize < size then mq.msgSize else size)).take data.length =
      data.take size := by
  refine List.ext_getElem? fun i => ?_
  rw [MessageQueue.copyOut, List.getElem?_take, List.getElem?_take]
  by_cases hi : i < data.length
  · by_cases hsize : i < size
    · have hmin : i < if mq.msgSize < size then mq.msgSize else size := by
        have := h.1
        split <;> omega
      rw [if_pos hi, if_pos hsize, h.2 i hi, List.getElem?_map, List.getElem?_range hmin]
      rfl
    · have hmin : ¬ i < if mq.msgSize < size then mq.msgSize else size := by
        split <;> omega
      rw [if_pos hi, if_neg hsize, List.getElem?_eq_none]
      simpa using hmin
  · rw [if_neg hi]
    split
    · rw [List.getElem?_eq_none (by omega)]
    · rfl

theorem Stored.congr (h : Stored mq slot data) (hsize : mq'.msgSize = mq.msgSize)
    (hbytes : mq'.bytes slot = mq.bytes slot) : Stored mq' slot data := by
  rw [Stored, hsize, hbytes]
  exact h

/-- A call looks at no slot but its own. -/
theorem CallOk.congr {taken : Option Msg} {c : Call} (h : CallOk mq taken c)
    (hsize : mq'.msgSize = mq.msgSize)
    (hslot : ∀ x, c.slot = some x → mq'.bytes x = mq.bytes x ∧ mq'.next x = mq.next x) :
    CallOk mq' taken c := by
  cases c with
  | outside | receiving => trivial
  | sending | filling =>
    rw [CallOk, hsize]
    exact h
  | linking urgent slot data =>
    obtain ⟨hbytes, hnext⟩ := hslot slot rfl
    refine ⟨h.1.congr hsize hbytes, ?_⟩
    rw [hnext]
    exact h.2
  | copying slot size =>
    obtain ⟨m, hm, hst⟩ := h
    exact ⟨m, hm, hst.congr hsize (hslot slot rfl).1⟩
  | freeing slot size bytes => exact h

theorem held_setCall (s : State) (t : ThreadId) (c : Call) :
    held (setCall s t c) = Function.update (held s) t c.slot := by
  funext u
  by_cases hu : u = t
  · subst hu
    simp [held, setCall]
  · simp [held, setCall, hu]

variable {o : Option Obs}

section inv

variable {n : Nat} {s s' : State} {a a' : Deque} {free queue free' queue' : List Slot}
  {t : ThreadId}

/-- One thread goes on with its call, and the slots of the others are left alone. -/
theorem Inv.of_call (h : Inv n s a free queue) (c : Call)
    (hcall : s'.call = Function.update s.call t c)
    (hslots : Slots n s'.mq (Function.update (held s) t c.slot) free' queue')
    (hsize : s'.mq.msgSize = s.mq.msgSize) (hmax : s'.mq.maxMsgs = s.mq.maxMsgs)
    (hentry : s'.mq.entry = queue'.length)
    (hqueued : List.Forall₂ (fun slot (m : Msg) => Stored s'.mq slot m.data) queue' a'.queue)
    (hself : CallOk s'.mq (a'.taken t) c)
    (hother : ∀ u x, u ≠ t → held s u = some x →
      s'.mq.bytes x = s.mq.bytes x ∧ s'.mq.next x = s.mq.next x)
    (htaken : ∀ u, u ≠ t → a'.taken u = a.taken u) (hfresh : Fresh a') :
    Inv n s' a' free' queue' := by
  have hheld : held s' = Function.update (held s) t c.slot := by
    rw [← held_setCall]
    funext u
    rw [held, held, hcall, setCall]
  refine ⟨by rw [hheld]; exact hslots, by rw [hmax]; exact h.max, hentry, hqueued, ?_, hfresh⟩
  intro u
  rw [hcall]
  by_cases hu : u = t
  · subst hu
    rw [update_self]
    exact hself
  · rw [update_of_ne hu, htaken u hu]
    exact (h.calls u).congr hsize fun x hx => hother u x hu hx

/-- The queue after a step that writes no byte of a queued slot. -/
theorem Inv.queued_congr (h : Inv n s a free queue) (s' : State)
    (hsize : s'.mq.msgSize = s.mq.msgSize) (hbytes : ∀ x ∈ queue, s'.mq.bytes x = s.mq.bytes x) :
    List.Forall₂ (fun slot (m : Msg) => Stored s'.mq slot m.data) queue a.queue := by
  have hq := h.queued
  generalize a.queue = msgs at hq
  clear h
  induction hq with
  | nil => exact .nil
  | @cons x m queue msgs hx _ ih =>
    refine .cons (hx.congr hsize (hbytes x List.mem_cons_self)) (ih fun y hy => ?_)
    exact hbytes y (List.mem_cons_of_mem x hy)

/-- A step that does not change the message queue, and after which the thread holds the slot it
held before. -/
theorem Inv.of_same_mq (h : Inv n s a free queue) (c : Call)
    (hcall : s'.call = Function.update s.call t c) (hmq : s'.mq = s.mq)
    (hslot : c.slot = held s t) (hself : CallOk s.mq (a.taken t) c) :
    Inv n s' a free queue := by
  refine h.of_call c hcall ?_ (by rw [hmq]) (by rw [hmq]) (by rw [hmq]; exact h.entry) ?_ ?_ ?_
    (fun _ _ => rfl) h.fresh
  · rw [hmq, hslot, update_eq_self]
    exact h.slots
  · rw [hmq]
    exact h.queued
  · rw [hmq]
    exact hself
  · intro u x _ _
    rw [hmq]
    exact ⟨rfl, rfl⟩

theorem Inv.fits (h : Inv n s a free queue) (hdata : Fits s t data) :
    data.length ≤ s.mq.msgSize := by
  obtain hlen | ⟨timeout, since, hc⟩ := hdata
  · exact hlen
  · have hok := h.calls t
    rw [hc] at hok
    exact hok

/-- A slot that another thread holds is neither queued nor the one that `t` holds. -/
theorem Inv.held_ne (h : Inv n s a free queue) {u : ThreadId} {y : Slot} (hut : u ≠ t)
    (hu : held s u = some x) (ht : held s t = some y) : x ≠ y := by
  rintro rfl
  exact hut (h.slots.single u t x hu ht)

variable {urgent : Bool} {w : Waiters Role}

section

variable (h : Inv n s a free queue)
include h

theorem Inv.takeSlot {r : Role} (ht : In s t r)
    (hfree : s.mq.msgQueueFree = some slot) (hdata : Fits s t data) :
    ∃ free', free = slot :: free' ∧
      Inv n (setCall { s with mq := takeFree s.mq slot } t (.filling urgent slot data)) a
        free' queue := by
  obtain ⟨free', hcons, hslots⟩ := h.slots.takeFree ht.slot hfree
  exact ⟨free', hcons, h.of_call _ rfl hslots rfl rfl h.entry (h.queued_congr _ rfl fun _ _ => rfl)
    (h.fits hdata) (fun _ _ _ _ => ⟨rfl, rfl⟩) (fun _ _ => rfl) h.fresh⟩

theorem Inv.unlink (ht : In s t .receiver) (hhead : s.mq.msgQueueHead = some slot) :
    ∃ a' queue', a.step (.unlink t) = some a' ∧
      Inv n (setCall { s with mq := { unlinkHead s.mq slot with entry := s.mq.entry - 1 } } t
        (.copying slot size)) a' free queue' := by
  obtain ⟨queue', rfl, hslots⟩ := h.slots.unlinkHead ht.slot hhead
  have hq := h.queued
  cases hmsgs : a.queue with
  | nil =>
    rw [hmsgs] at hq
    cases hq
  | cons m msgs =>
    rw [hmsgs, List.forall₂_cons] at hq
    have hstep : a.step (.unlink t) = some { a with
        queue := msgs
        taken := Function.update a.taken t (some m)
        delivered := a.delivered ++ [m.id] } := by
      simp only [Deque.step, hmsgs]
    refine ⟨_, queue', hstep, h.of_call _ rfl (hslots.of_fields rfl rfl rfl rfl) rfl rfl ?_ hq.2 ?_
      (fun _ _ _ _ => ⟨rfl, rfl⟩) (fun u hu => update_of_ne hu _ _) (h.fresh.step hstep)⟩
    · have hentry := h.entry
      rw [List.length_cons] at hentry
      show s.mq.entry - 1 = queue'.length
      omega
    · exact ⟨m, update_self _ _ _, hq.1⟩

theorem Inv.fill (hc : s.call t = .filling urgent slot data) :
    Inv n (setCall { s with mq := { s.mq with
      next := if urgent then s.mq.next else Function.update s.mq.next slot none
      bytes := Function.update s.mq.bytes slot (copyIn data (s.mq.bytes slot)) } } t
        (.linking urgent slot data)) a free queue := by
  have hheld : held s t = some slot := by rw [held, hc, Call.slot]
  have hnot := h.slots.apart t slot hheld
  rw [List.mem_append, not_or] at hnot
  have hlen : data.length ≤ s.mq.msgSize := by
    have hok := h.calls t
    rw [hc] at hok
    exact hok
  have hnext : ∃ v, (if urgent then s.mq.next else Function.update s.mq.next slot none) =
      Function.update s.mq.next slot v := by
    cases urgent with
    | true => exact ⟨s.mq.next slot, by simp⟩
    | false => exact ⟨none, by simp⟩
  obtain ⟨v, hv⟩ := hnext
  have hslot : (Call.linking urgent slot data).slot = held s t := by rw [hheld, Call.slot]
  refine h.of_call _ rfl ?_ rfl rfl h.entry ?_ ?_ ?_ (fun _ _ => rfl) h.fresh
  · rw [hslot, update_eq_self]
    exact h.slots.write hheld v hv rfl rfl rfl
  · refine h.queued_congr _ rfl fun x hx => ?_
    have hxs : x ≠ slot := by
      rintro rfl
      exact hnot.2 hx
    exact update_of_ne hxs _ _
  · refine ⟨stored_copyIn hlen (update_self _ _ _), ?_⟩
    rintro rfl
    exact update_self _ _ _
  · intro u x hut hu
    have hxs := h.held_ne hut hu hheld
    refine ⟨update_of_ne hxs _ _, ?_⟩
    show (if urgent then s.mq.next else Function.update s.mq.next slot none) x = s.mq.next x
    rw [hv, update_of_ne hxs]

theorem Inv.copyOut (hc : s.call t = .copying slot size) : Inv n (setCall s t (.freeing slot size
      (copyOut (s.mq.bytes slot) (if s.mq.msgSize < size then s.mq.msgSize else size))))
      a free queue := by
  have hok := h.calls t
  rw [hc] at hok
  obtain ⟨m, hm, hst⟩ := hok
  refine h.of_same_mq _ rfl rfl ?_ ⟨m, hm, hst.copyOut size⟩
  rw [held, hc]
  rfl

theorem Inv.freed {bytes : List Byte} (hc : s.call t = .freeing slot size bytes) :
    ∃ a', a.step (.received t size bytes) = some a' ∧
      Inv n (setCall { s with mq := putFree s.mq slot, waiters := w } t .outside) a'
        (slot :: free) queue := by
  have hheld : held s t = some slot := by rw [held, hc, Call.slot]
  have hok := h.calls t
  rw [hc] at hok
  obtain ⟨m, hm, hbytes⟩ := hok
  have hstep : a.step (.received t size bytes) =
      some { a with taken := Function.update a.taken t none } := by
    simp only [Deque.step, hm, if_pos hbytes]
  refine ⟨_, hstep, h.of_call _ rfl (h.slots.putFree hheld) rfl rfl h.entry ?_ trivial ?_
    (fun u hu => update_of_ne hu _ _) (h.fresh.step hstep)⟩
  · exact h.queued_congr _ rfl fun _ _ => rfl
  · intro u x hut hu
    exact ⟨rfl, update_of_ne (h.held_ne hut hu hheld) _ _⟩

/-- The queue after a message has been linked at either end. -/
theorem Inv.linked (hc : s.call t = .linking urgent slot data)
    (hmq : mq = if urgent then linkHead s.mq slot else linkTail s.mq slot) :
    ∃ a', a.step (.link urgent data) = some a' ∧
      Inv n (setCall { s with mq := { mq with entry := s.mq.entry + 1 } } t .outside) a' free
        (if urgent then slot :: queue else queue ++ [slot]) := by
  have hheld : held s t = some slot := by rw [held, hc, Call.slot]
  have hok := h.calls t
  rw [hc] at hok
  obtain ⟨hst, hnext⟩ := hok
  have hsame : mq.bytes = s.mq.bytes ∧ mq.msgSize = s.mq.msgSize ∧ mq.maxMsgs = s.mq.maxMsgs := by
    rw [hmq]
    cases urgent <;> exact ⟨rfl, rfl, rfl⟩
  obtain ⟨hbytes, hsize, hmax⟩ := hsame
  have hslots : Slots n mq (Function.update (held s) t none) free
      (if urgent then slot :: queue else queue ++ [slot]) := by
    rw [hmq]
    cases urgent with
    | true => exact h.slots.linkHead hheld
    | false => exact h.slots.linkTail hheld (hnext rfl)
  have hstep : a.step (.link urgent data) = some { a with
      linked := a.linked + 1
      queue := if urgent then ⟨a.linked, data⟩ :: a.queue else a.queue ++ [⟨a.linked, data⟩] } := rfl
  refine ⟨_, hstep, h.of_call _ rfl (hslots.of_fields rfl rfl rfl rfl) hsize hmax ?_ ?_ trivial ?_
    (fun _ _ => rfl) (h.fresh.step hstep)⟩
  · have hentry := h.entry
    show s.mq.entry + 1 = _
    cases urgent <;> simp [hentry]
  · have hold := h.queued_congr { s with mq := { mq with entry := s.mq.entry + 1 } } hsize
      fun x _ => congrFun hbytes x
    have hnew : Stored { mq with entry := s.mq.entry + 1 } slot data :=
      hst.congr hsize (congrFun hbytes slot)
    cases urgent with
    | true => exact .cons hnew hold
    | false => exact List.rel_append hold (.cons hnew .nil)
  · intro u x hut hu
    refine ⟨congrFun hbytes x, ?_⟩
    have hxs := h.held_ne hut hu hheld
    rw [hmq]
    cases urgent with
    | true => exact update_of_ne hxs _ _
    | false =>
      simp only [Bool.false_eq_true, if_false, linkTail]
      cases htail : s.mq.msgQueueTail with
      | none => rfl
      | some tail =>
        have hmem : tail ∈ queue := List.mem_of_getLast? (h.slots.tail.symm.trans htail)
        have hxt : x ≠ tail := by
          rintro rfl
          exact h.slots.apart u x hu (List.mem_append_right _ hmem)
        exact update_of_ne hxt _ _

/-- Waking a thread, or the value returned, do not concern the messages. -/
theorem Inv.of_waiters : Inv n { s with waiters := w } a free queue :=
  ⟨h.slots, h.max, h.entry, h.queued, h.calls, h.fresh⟩

theorem Inv.entry_lt (hx : held s t = some x) (hn : n ≤ entryMax) : s.mq.entry < entryMax := by
  have hlt := h.slots.length_lt hx
  rw [List.length_append] at hlt
  have := h.entry
  omega

/-- The second section of a send. -/
theorem Inv.link (hn : n ≤ entryMax) (hc : s.call t = .linking urgent slot data) {ret : Option Ret}
    (hs : finish s t = some (s', ret)) :
    ret = some ⟨.eok, none⟩ ∧ s'.waiters = s.waiters.wake .receiver ∧
      s'.call = Function.update s.call t .outside ∧ s'.mq.entry = s.mq.entry + 1 ∧
      s'.mq.msgQueueFree = s.mq.msgQueueFree ∧
      ∃ a' queue', a.step (.link urgent data) = some a' ∧ Inv n s' a' free queue' := by
  have hheld : held s t = some slot := by rw [held, hc, Call.slot]
  have hlt := h.entry_lt hheld hn
  have hentry : (if urgent then linkHead s.mq slot else linkTail s.mq slot).entry = s.mq.entry := by
    cases urgent <;> rfl
  have hfree : (if urgent then linkHead s.mq slot else linkTail s.mq slot).msgQueueFree =
      s.mq.msgQueueFree := by
    cases urgent <;> rfl
  obtain ⟨a', hstep, hinv⟩ := h.linked hc rfl
  simp only [finish, hc, setCall, hentry, if_pos hlt] at hs
  cases hs
  refine ⟨rfl, rfl, rfl, rfl, hfree, a', _, hstep, hinv.of_waiters⟩

theorem Inv.reset (ht : Active s t) {ret : Option Ret} (hs : rtMqReset s = some (s', ret)) :
    ∃ a' free', a.step .reset = some a' ∧ Inv n s' a' free' [] := by
  have hnone : held s t = none := by rw [held, ht.2, Call.slot]
  have hfuel : queue.length ≤ s.mq.maxMsgs := by
    have hle := h.slots.length_le
    rw [List.length_append] at hle
    have := h.max
    omega
  obtain ⟨mq', free', hrel, hslots, hsize, hmax, hbytes, hnext⟩ := h.slots.releaseAll hnone hfuel
  obtain ⟨w, -, hs⟩ := Option.bind_eq_some_iff.mp hs
  obtain ⟨w', -, hs⟩ := Option.bind_eq_some_iff.mp hs
  rw [hrel] at hs
  cases hs
  have hstep : a.step .reset = some { a with queue := [] } := rfl
  refine ⟨_, free', hstep, ⟨hslots.of_fields rfl rfl rfl rfl, hmax.trans h.max, rfl, .nil, ?_,
    h.fresh.step hstep⟩⟩
  intro u
  refine (h.calls u).congr hsize fun x hx => ⟨congrFun hbytes x, hnext x fun hm => ?_⟩
  exact h.slots.apart u x hx (List.mem_append_right _ hm)

end

/-- What a step observes, the deque does. -/
def Deque.after (a : Deque) : Option Obs → Option Deque
  | none => some a
  | some o => a.step o

theorem Result.inv (hres : Result s o s') (h : Inv n s a free queue) (hn : n ≤ entryMax) :
    ∃ a' free' queue', a.after o = some a' ∧ Inv n s' a' free' queue' := by
  cases hres with
  | takeSlot ht hfree hdata =>
    obtain ⟨free', -, hinv⟩ := h.takeSlot ht hfree hdata
    exact ⟨a, free', queue, rfl, hinv⟩
  | unlink ht hentry hhead =>
    obtain ⟨a', queue', hstep, hinv⟩ := h.unlink ht hhead
    exact ⟨a', free, queue', hstep, hinv⟩
  | waitSend ht hblock hun hdata =>
    exact ⟨a, free, queue, rfl, h.of_same_mq _ rfl rfl ht.slot.symm (h.fits hdata)⟩
  | waitRecv ht hblock hun | refused ht hun | failed ht herr =>
    exact ⟨a, free, queue, rfl, h.of_same_mq _ rfl rfl ht.slot.symm trivial⟩
  | unchanged => exact ⟨a, free, queue, rfl, h⟩
  | fill ht hc => exact ⟨a, free, queue, rfl, h.fill hc⟩
  | copyOut ht hc => exact ⟨a, free, queue, rfl, h.copyOut hc⟩
  | link ht hc hs =>
    obtain ⟨-, -, -, -, -, a', queue', hstep, hinv⟩ := h.link hn hc hs
    exact ⟨a', free, queue', hstep, hinv⟩
  | free ht hc =>
    obtain ⟨a', hstep, hinv⟩ := h.freed hc
    exact ⟨a', _, queue, hstep, hinv⟩
  | reset ht hs =>
    obtain ⟨a', free', hstep, hinv⟩ := h.reset ht hs
    exact ⟨a', free', [], hstep, hinv⟩
  | timeout ht => exact ⟨a, free, queue, rfl, h.of_waiters⟩
  | tick => exact ⟨a, free, queue, rfl, ⟨h.slots, h.max, h.entry, h.queued, h.calls, h.fresh⟩⟩

end inv

/-! ## Runs -/

variable {n : Nat}

theorem inv_init (flag : Flag) (tick : Tick) (next : Slot → Option Slot)
    (bytes : Slot → Nat → Byte) (msgSize : Nat) (priority : ThreadId → Nat) :
    Inv n (init flag tick (rtMqInit next bytes msgSize n) priority) .empty
      (List.range n).reverse [] where
  slots := slots_init next bytes msgSize n
  max := rfl
  entry := rfl
  queued := .nil
  calls := fun _ => trivial
  fresh := fresh_empty

theorem run_after {a a' a'' : Deque} {os : List Obs} (h : a.after o = some a')
    (hr : Runs.run Deque.step a' os = some a'') :
    Runs.run Deque.step a (o.toList ++ os) = some a'' := by
  cases o with
  | none =>
    cases h
    exact hr
  | some o => exact Runs.run_cons_some.mpr ⟨a', h, hr⟩

/-- The deque follows every run. -/
theorem run_inv {s s' : State} {a : Deque} {free queue : List Slot} {ops : List Op}
    (hn : n ≤ entryMax) (h : Inv n s a free queue) (hrun : Runs.run step s ops = some s') :
    ∃ a' free' queue', Runs.run Deque.step a (trace s ops) = some a' ∧
      Inv n s' a' free' queue' := by
  induction ops generalizing s a free queue with
  | nil =>
    cases hrun
    exact ⟨a, free, queue, rfl, h⟩
  | cons op ops ih =>
    obtain ⟨s₁, hs, hr⟩ := Runs.run_cons_some.mp hrun
    obtain ⟨⟨s₂, ret⟩, hcall, rfl⟩ := Option.map_eq_some_iff.mp hs
    obtain ⟨a₁, free₁, queue₁, hafter, hinv⟩ := (call_result hcall).inv h hn
    obtain ⟨a', free', queue', hdeque, hinv'⟩ := ih hinv hr
    refine ⟨a', free', queue', ?_, hinv'⟩
    rw [trace, hs]
    exact run_after hafter hdeque

/-- A place where a slot can be. -/
inductive Place where
  | free | queued | inFlight (t : ThreadId)
  deriving DecidableEq

def At (s : State) (free queue : List Slot) (x : Slot) : Place → Prop
  | .free => x ∈ free
  | .queued => x ∈ queue
  | .inFlight t => held s t = some x

theorem Slots.place {s : State} {free queue : List Slot} (h : Slots n s.mq (held s) free queue)
    (hx : x < n) : ∃! p, At s free queue x p := by
  obtain ⟨-, -, hcross⟩ := List.nodup_append.mp h.nodup
  have hapart : ∀ t, held s t = some x → x ∉ free ∧ x ∉ queue := by
    intro t ht
    have := h.apart t x ht
    rwa [List.mem_append, not_or] at this
  obtain hlist | ⟨t, ht⟩ := (h.cover x).mp hx
  · obtain hfree | hqueue := List.mem_append.mp hlist
    · refine ⟨.free, hfree, fun p hp => ?_⟩
      cases p with
      | free => rfl
      | queued => exact absurd rfl (hcross x hfree x hp)
      | inFlight t => exact absurd hfree (hapart t hp).1
    · refine ⟨.queued, hqueue, fun p hp => ?_⟩
      cases p with
      | free => exact absurd rfl (hcross x hp x hqueue)
      | queued => rfl
      | inFlight t => exact absurd hqueue (hapart t hp).2
  · refine ⟨.inFlight t, ht, fun p hp => ?_⟩
    cases p with
    | free => exact absurd hp (hapart t ht).1
    | queued => exact absurd hp (hapart t ht).2
    | inFlight u => rw [h.single u t x hp ht]

/-- Along every run the slots are in the free list, in the queue, or in flight, and the messages
go through the queue as through a deque. -/
theorem messages_conserved (n msgSize : Nat) (hn : n ≤ entryMax) (flag : Flag) (tick : Tick)
    (next : Slot → Option Slot) (bytes : Slot → Nat → Byte) (priority : ThreadId → Nat)
    (ops : List Op) (s : State)
    (hrun : Runs.run step (init flag tick (rtMqInit next bytes msgSize n) priority) ops = some s) :
    ∃ free queue : List Slot,
      Chain s.mq.next s.mq.msgQueueFree free ∧ Chain s.mq.next s.mq.msgQueueHead queue ∧
      s.mq.msgQueueHead = queue.head? ∧ s.mq.msgQueueTail = queue.getLast? ∧
      s.mq.entry = queue.length ∧ free.Nodup ∧ queue.Nodup ∧
      (∀ x, x < n → ∃! p, At s free queue x p) ∧ (∀ x p, At s free queue x p → x < n) ∧
      ∃ a, Runs.run Deque.step .empty
          (trace (init flag tick (rtMqInit next bytes msgSize n) priority) ops) = some a ∧
        List.Forall₂ (fun slot (m : Msg) => Stored s.mq slot m.data) queue a.queue ∧
        a.delivered.Nodup := by
  obtain ⟨a, free, queue, hdeque, h⟩ :=
    run_inv hn (inv_init (n := n) flag tick next bytes msgSize priority) hrun
  obtain ⟨hfree, hqueue, -⟩ := List.nodup_append.mp h.slots.nodup
  refine ⟨free, queue, h.slots.freeChain, h.slots.queueChain, h.slots.queueChain.head, h.slots.tail,
    h.entry, hfree, hqueue, fun x hx => h.slots.place hx, fun x p hp => ?_, a, hdeque, h.queued,
    h.fresh.nodup.sublist (List.sublist_append_left _ _)⟩
  rw [h.slots.cover x, List.mem_append]
  cases p with
  | free => exact .inl (.inl hp)
  | queued => exact .inl (.inr hp)
  | inFlight t => exact .inr ⟨t, hp⟩

/-- An urgent message overtakes one that was linked before it, while a third send is in
flight. -/
def urgentRun : List Op :=
  [.send 1 [10, 11] 0, .copy 1, .send 2 [20, 21] 0, .finish 1, .urgent 3 [30], .copy 3, .finish 3,
    .recv 4 1 0, .copy 4, .finish 4]

def threeSlots : State := init .fifo 0 (rtMqInit (fun _ => none) (fun _ _ => 0) 4 3) (fun t => t)

theorem messages_conserved_urgent :
    ∃ s, Runs.run step threeSlots urgentRun = some s ∧ s.mq.entry = 1 ∧ held s 2 = some 1 ∧
      trace threeSlots urgentRun =
        [.link false [10, 11], .link true [30], .unlink 4, .received 4 1 [30]] ∧
      ∃ queue : List Slot, s.mq.msgQueueHead = queue.head? ∧ s.mq.entry = queue.length := by
  have hlast : ((Runs.run step threeSlots urgentRun).map fun s => (s.mq.entry, held s 2)) =
      some (1, some 1) := by decide +kernel
  obtain ⟨s, hrun, hs⟩ := Option.map_eq_some_iff.mp hlast
  obtain ⟨hentry, hheld⟩ := Prod.mk.inj hs
  refine ⟨s, hrun, hentry, hheld, by decide +kernel, ?_⟩
  obtain ⟨free, queue, -, -, hhead, -, hlen, -⟩ :=
    messages_conserved 3 4 (by decide) .fifo 0 (fun _ => none) (fun _ _ => 0) (fun t => t) urgentRun
      s hrun
  exact ⟨queue, hhead, hlen⟩

end RtThread.MessageQueue
