import RtThread.DataQueue
import RtThread.Lib.Cyclic

/-!
# The data queue as a bounded FIFO

The cells from `get_index` on, as many as `rt_data_queue_len` says, are the items of the
queue in the order in which they will be popped. This holds for every size that the
indices can reach; beyond 32768 items the indices wrap before the size does.
-/
namespace RtThread.DataQueue

open Ipc Cyclic

/-- The items in the queue. -/
def RtDataQueue.items (dq : RtDataQueue) : List RtDataItem :=
  window dq.queue dq.size dq.getIndex (rtDataQueueLen dq)

/-- The indices and the flags of a queue of size `n` that holds `k` items. -/
structure Rep (n k : Nat) (dq : RtDataQueue) : Prop where
  size : dq.size = n
  count : k ≤ n
  get : dq.getIndex < n
  put : dq.putIndex = (dq.getIndex + k) % n
  empty : dq.isEmpty = decide (k = 0)
  full : dq.isFull = decide (k = n)

section rep

variable {n k : Nat} {dq : RtDataQueue}

/-- The largest size whose indices fit into the bit-fields. -/
def sizeMax : Nat := 2 ^ indexBits

section

variable (h : Rep n k dq) (hn : n ≤ sizeMax)
include h hn

theorem Rep.next {index : Nat} (hi : index < n) : dq.next index = (index + 1) % n := by
  rw [sizeMax, indexBits] at hn
  have hwadd : wadd indexBits index 1 = (index + 1) % 2 ^ 15 := rfl
  rw [RtDataQueue.next, h.size, hwadd, succ_mod hi]
  by_cases hlt : index + 1 < 2 ^ 15
  · rw [Nat.mod_eq_of_lt hlt]
    split
    · rw [if_pos (by omega)]
    · rw [if_neg (by omega)]
  · obtain rfl : n = index + 1 := by omega
    obtain rfl : index = 2 ^ 15 - 1 := by omega
    rfl

/-- `rt_data_queue_len` counts the items. -/
theorem Rep.len : rtDataQueueLen dq = k := by
  rw [sizeMax, indexBits] at hn
  have hget := h.get
  have hcount := h.count
  rw [rtDataQueueLen, h.empty, h.put, h.size]
  by_cases hk : k = 0
  · simp [hk]
  · rw [if_neg (by simpa using hk)]
    by_cases hlt : dq.getIndex + k < n
    · rw [Nat.mod_eq_of_lt hlt, if_pos (by omega)]
      omega
    · have hmod : (dq.getIndex + k) % n = dq.getIndex + k - n := by
        rw [Nat.mod_eq_sub_mod (by omega), Nat.mod_eq_of_lt (by omega)]
      rw [hmod, if_neg (by omega), wsub_eq (by omega) (by omega)]
      omega

theorem Rep.length_items : dq.items.length = k := by
  rw [RtDataQueue.items, length_window, h.len hn]

theorem Rep.items_eq : dq.items = window dq.queue n dq.getIndex k := by
  rw [RtDataQueue.items, h.len hn, h.size]

theorem Rep.put_item (hroom : dq.isFull = false) (item : RtDataItem) :
    Rep n (k + 1) (dq.put item) ∧ (dq.put item).items = dq.items ++ [item] := by
  have hget := h.get
  have hcount := h.count
  have hk : k ≠ n := by
    have hfull := h.full
    rw [hroom] at hfull
    simpa using hfull.symm
  have hput : dq.putIndex < n := by
    rw [h.put]
    exact Nat.mod_lt _ (by omega)
  have hnext : dq.next dq.putIndex = (dq.getIndex + (k + 1)) % n := by
    rw [h.next hn hput, h.put, Nat.mod_add_mod, Nat.add_assoc]
  have heq : decide (dq.next dq.putIndex = dq.getIndex) = decide (k + 1 = n) := by
    rw [hnext, decide_eq_decide]
    constructor
    · intro hmod
      by_contra hne
      have hcell : (dq.getIndex + 0) % n ≠ (dq.getIndex + (k + 1)) % n :=
        mod_ne (by omega) (by omega)
      rw [hmod, Nat.add_zero, Nat.mod_eq_of_lt hget] at hcell
      exact hcell rfl
    · intro hkn
      rw [hkn, Nat.add_mod_right, Nat.mod_eq_of_lt hget]
  have hrep : Rep n (k + 1) (dq.put item) := by
    refine ⟨h.size, by omega, hget, hnext, ?_, ?_⟩
    · simp [RtDataQueue.put]
    · simp only [RtDataQueue.put, hroom, Bool.false_or]
      exact heq
  refine ⟨hrep, ?_⟩
  rw [hrep.items_eq hn, h.items_eq hn]
  show window (Function.update dq.queue dq.putIndex item) n dq.getIndex (k + 1) = _
  rw [h.put]
  exact window_push item (by omega)

theorem Rep.take_item (hitem : dq.isEmpty = false) :
    Rep n (k - 1) dq.take ∧ dq.items = dq.queue dq.getIndex :: dq.take.items := by
  have hget := h.get
  have hcount := h.count
  have hk : k ≠ 0 := by
    have hempty := h.empty
    rw [hitem] at hempty
    simpa using hempty.symm
  have hnext : dq.next dq.getIndex = (dq.getIndex + 1) % n := h.next hn hget
  have hput : dq.putIndex = ((dq.getIndex + 1) % n + (k - 1)) % n := by
    rw [h.put, Nat.mod_add_mod, show dq.getIndex + 1 + (k - 1) = dq.getIndex + k by omega]
  have heq : decide (dq.putIndex = dq.next dq.getIndex) = decide (k - 1 = 0) := by
    rw [h.put, hnext, decide_eq_decide]
    constructor
    · intro hmod
      by_contra hne
      have hcell : (dq.getIndex + 1) % n ≠ (dq.getIndex + k) % n := mod_ne (by omega) (by omega)
      exact hcell hmod.symm
    · intro hzero
      rw [show k = 1 by omega]
  have hrep : Rep n (k - 1) dq.take := by
    refine ⟨h.size, by omega, ?_, ?_, ?_, ?_⟩
    · show dq.next dq.getIndex < n
      rw [hnext]
      exact Nat.mod_lt _ (by omega)
    · show dq.putIndex = (dq.next dq.getIndex + (k - 1)) % n
      rw [hnext]
      exact hput
    · simp only [RtDataQueue.take, hitem, Bool.false_or]
      exact heq
    · have hne : k - 1 ≠ n := by omega
      simp [RtDataQueue.take, hne]
  refine ⟨hrep, ?_⟩
  rw [hrep.items_eq hn, h.items_eq hn]
  obtain ⟨m, rfl⟩ : ∃ m, k = m + 1 := ⟨k - 1, by omega⟩
  show _ = dq.queue dq.getIndex :: window dq.queue n (dq.next dq.getIndex) m
  rw [window_cons, hnext, window_mod, Nat.mod_eq_of_lt hget]

end

theorem Rep.reset (h : Rep n k dq) :
    Rep n 0 { dq with getIndex := 0, putIndex := 0, isEmpty := true, isFull := false } := by
  have hpos : 0 < n := Nat.lt_of_le_of_lt (Nat.zero_le _) h.get
  have hn : 0 ≠ n := Nat.ne_of_lt hpos
  exact ⟨h.size, Nat.zero_le n, hpos, (Nat.zero_mod n).symm, by simp, by simp [hn]⟩

end rep

/-! ## What a step can do -/

inductive Operation where
  | push (item : RtDataItem)
  | pop
  deriving DecidableEq

def Operation.role : Operation → Role
  | .push _ => .sender
  | .pop => .receiver

def Call.role : Call → Option Role
  | .pushing _ _ => some .sender
  | .popping _ => some .receiver
  | .outside | .peeking | .resetting _ | .waking _ => none

/-- The thread is between the first section of `rt_data_queue_reset` and its return. -/
def Call.inReset : Call → Bool
  | .resetting _ | .waking _ => true
  | .outside | .pushing _ _ | .popping _ | .peeking => false

/-- The step is the beginning of a push or a pop, or its next try after a switch. -/
inductive Tries (s : State) : Op → ThreadId → Operation → Prop
  | push {t : ThreadId} {item : RtDataItem} {timeout : BitVec 32} (ht : Active s t) :
    Tries s (.push t item timeout) t (.push item)
  | pop {t : ThreadId} {timeout : BitVec 32} (ht : Active s t) : Tries s (.pop t timeout) t .pop
  | pushAgain {t : ThreadId} {item : RtDataItem} {timeout : BitVec 32}
      (ht : (s.waiters.thread t).suspended = false) (hc : s.call t = .pushing item timeout) :
    Tries s (.switchBack t) t (.push item)
  | popAgain {t : ThreadId} {timeout : BitVec 32}
      (ht : (s.waiters.thread t).suspended = false) (hc : s.call t = .popping timeout) :
    Tries s (.switchBack t) t .pop

theorem Tries.running {s : State} {op : Op} {t : ThreadId} {o : Operation} (h : Tries s op t o) :
    (s.waiters.thread t).suspended = false := by
  cases h with
  | push ht => exact ht.1
  | pop ht => exact ht.1
  | pushAgain ht hc => exact ht
  | popAgain ht hc => exact ht

theorem Tries.role {s : State} {op : Op} {t : ThreadId} {o : Operation} (h : Tries s op t o) :
    (s.call t).role = none ∨ (s.call t).role = some o.role := by
  cases h with
  | push ht | pop ht => exact .inl (by rw [ht.2]; rfl)
  | pushAgain ht hc | popAgain ht hc => exact .inr (by rw [hc]; rfl)

/-- There is no item, or no room for one. -/
def Unavailable (dq : RtDataQueue) : Role → Prop
  | .receiver => dq.isEmpty = true
  | .sender => dq.isFull = true

inductive Result (s : State) : Op → State → Option Ret → Prop
  | put {op : Op} {t : ThreadId} {item : RtDataItem} (ht : Tries s op t (.push item))
      (hroom : s.dq.isFull = false) :
    Result s op
      (setCall { s with dq := s.dq.put item, waiters := s.waiters.wake .receiver } t .outside)
      (some ⟨.eok, none⟩)
  | take {op : Op} {t : ThreadId} (ht : Tries s op t .pop) (hitem : s.dq.isEmpty = false) :
    Result s op
      (setCall { s with
        dq := s.dq.take
        waiters := if rtDataQueueLen s.dq.take ≤ s.dq.take.lwm then s.waiters.wake .sender
          else s.waiters } t .outside)
      (some ⟨.eok, some (s.dq.queue s.dq.getIndex)⟩)
  | block {op : Op} {t : ThreadId} {o : Operation} {timeout : BitVec 32} {w : Waiters Role}
      {c : Call} (ht : Tries s op t o) (hun : Unavailable s.dq o.role)
      (hblock : s.waiters.block .fifo o.role t timeout = some w) (hc : c.role = some o.role) :
    Result s op (setCall { s with waiters := w } t c) none
  | refused {op : Op} {t : ThreadId} {o : Operation} (ht : Tries s op t o)
      (hun : Unavailable s.dq o.role) :
    Result s op (setCall s t .outside) (some ⟨.etimeout, none⟩)
  | failed {t : ThreadId} (ht : (s.waiters.thread t).suspended = false)
      (hrole : (s.call t).role ≠ none) (herr : (s.waiters.thread t).error ≠ .eok) :
    Result s (.switchBack t) (setCall s t .outside) (some ⟨(s.waiters.thread t).error, none⟩)
  | peekEmpty {t : ThreadId} (hempty : s.dq.isEmpty = true) :
    Result s (.peek t) s (some ⟨.eempty, none⟩)
  | peek {t : ThreadId} (ht : Active s t) (hitem : s.dq.isEmpty = false) :
    Result s (.peek t) (setCall s t .peeking) none
  | peeked {t : ThreadId} (ht : (s.waiters.thread t).suspended = false)
      (hc : s.call t = .peeking) :
    Result s (.proceed t) (setCall s t .outside) (some ⟨.eok, some (s.dq.queue s.dq.getIndex)⟩)
  | reset {t : ThreadId} (ht : Active s t) : Result s (.reset t) (rtDataQueueReset s t) none
  | tested {t : ThreadId} {r : Role} (ht : (s.waiters.thread t).suspended = false)
      (hc : s.call t = .resetting r) :
    Result s (.proceed t) (resetTest s t r).1 (resetTest s t r).2
  | wake {t u : ThreadId} {us : List ThreadId} {r : Role}
      (ht : (s.waiters.thread t).suspended = false) (hc : s.call t = .waking r)
      (hl : s.waiters.list r = u :: us) :
    Result s (.proceed t)
      (setCall { s with waiters := (s.waiters.setError u .error).wake r } t (.resetting r)) none
  | timeout {t : ThreadId} (ht : (s.waiters.thread t).timerActive = true) :
    Result s (.timeout t) { s with waiters := s.waiters.timeout t } none

section result

variable {s s' : State} {op : Op} {ret : Option Ret} {t : ThreadId} {timeout : BitVec 32}

theorem push_result {item : RtDataItem} (ht : Tries s op t (.push item))
    (h : rtDataQueuePush s t item timeout = some (s', ret)) : Result s op s' ret := by
  rw [rtDataQueuePush] at h
  split at h
  · rename_i hfull
    split at h
    · cases h
      exact .refused ht hfull
    · obtain ⟨w, hw, heq⟩ := Option.map_eq_some_iff.mp h
      cases heq
      exact .block ht hfull hw rfl
  · rename_i hroom
    cases h
    exact .put ht (by simpa using hroom)

theorem pop_result (ht : Tries s op t .pop) (h : rtDataQueuePop s t timeout = some (s', ret)) :
    Result s op s' ret := by
  rw [rtDataQueuePop] at h
  split at h
  · rename_i hempty
    split at h
    · cases h
      exact .refused ht hempty
    · obtain ⟨w, hw, heq⟩ := Option.map_eq_some_iff.mp h
      cases heq
      exact .block ht hempty hw rfl
  · rename_i hitem
    cases h
    exact .take ht (by simpa using hitem)

theorem switchBack_result (ht : (s.waiters.thread t).suspended = false)
    (h : switchBack s t = some (s', ret)) : Result s (.switchBack t) s' ret := by
  rw [switchBack] at h
  cases hc : s.call t with
  | pushing item timeout =>
    simp only [hc] at h
    split at h
    · cases h
      exact .failed ht (by simp [hc, Call.role]) (by assumption)
    · exact push_result (.pushAgain ht hc) h
  | popping timeout =>
    simp only [hc] at h
    split at h
    · cases h
      exact .failed ht (by simp [hc, Call.role]) (by assumption)
    · exact pop_result (.popAgain ht hc) h
  | outside | peeking | resetting | waking => simp [hc] at h

theorem proceed_result (ht : (s.waiters.thread t).suspended = false)
    (h : proceed s t = some (s', ret)) : Result s (.proceed t) s' ret := by
  rw [proceed] at h
  cases hc : s.call t with
  | peeking =>
    simp only [hc] at h
    cases h
    exact .peeked ht hc
  | resetting r =>
    simp only [hc] at h
    have heq := Option.some.inj h
    rw [show s' = (resetTest s t r).1 by rw [heq], show ret = (resetTest s t r).2 by rw [heq]]
    exact .tested ht hc
  | waking r =>
    simp only [hc] at h
    obtain ⟨s'', hs, heq⟩ := Option.map_eq_some_iff.mp h
    cases heq
    rw [resetWake] at hs
    cases hl : s.waiters.list r with
    | nil => simp [hl] at hs
    | cons u us =>
      simp only [hl] at hs
      cases hs
      exact .wake ht hc hl
  | outside | pushing | popping => simp [hc] at h

theorem call_result (h : call s op = some (s', ret)) : Result s op s' ret := by
  cases op with
  | push t item timeout =>
    simp only [call] at h
    split at h
    · exact push_result (.push (by assumption)) h
    · cases h
  | pop t timeout =>
    simp only [call] at h
    split at h
    · exact pop_result (.pop (by assumption)) h
    · cases h
  | switchBack t =>
    simp only [call] at h
    split at h
    · exact switchBack_result (by assumption) h
    · cases h
  | peek t =>
    simp only [call] at h
    split at h
    · rw [rtDataQueuePeek] at h
      split at h
      · cases h
        exact .peekEmpty (by assumption)
      · rename_i hact hitem
        cases h
        exact .peek hact (by simpa using hitem)
    · cases h
  | reset t =>
    simp only [call] at h
    split at h
    · cases h
      exact .reset (by assumption)
    · cases h
  | proceed t =>
    simp only [call] at h
    split at h
    · exact proceed_result (by assumption) h
    · cases h
  | timeout t =>
    simp only [call] at h
    split at h
    · cases h
      exact .timeout (by assumption)
    · cases h

theorem resetTest_eq (s : State) (t : ThreadId) (r : Role) :
    ∃ c, (resetTest s t r).1 = setCall s t c ∧ c.role = none ∧
      (c.inReset = true ∨ s.waiters.list .sender = []) := by
  unfold resetTest
  split
  · exact ⟨_, rfl, rfl, .inl rfl⟩
  · rename_i hl
    cases r with
    | receiver => exact ⟨_, rfl, rfl, .inl rfl⟩
    | sender => exact ⟨_, rfl, rfl, .inr (by simpa using hl)⟩

end result

/-! ## The effect of a step -/

/-- A push of a queue of size `n` appends its item when there is room; otherwise it waits or
fails, and changes nothing. -/
def Pushed (n : Nat) (item : RtDataItem) (ret : Option Ret) (q q' : List RtDataItem) : Prop :=
  q.length < n ∧ ret = some ⟨.eok, none⟩ ∧ q' = q ++ [item] ∨
    q.length = n ∧ (ret = none ∨ ret = some ⟨.etimeout, none⟩) ∧ q' = q

/-- A pop returns the first item and removes it; when there is none it waits or fails. -/
def Popped (ret : Option Ret) (q q' : List RtDataItem) : Prop :=
  (∃ item, q = item :: q' ∧ ret = some ⟨.eok, some item⟩) ∨
    q = [] ∧ (ret = none ∨ ret = some ⟨.etimeout, none⟩) ∧ q' = q

/-- What a step does to the items: `q` before it and `q'` after it. A thread that runs again
after a switch with an error number returns it and changes nothing. -/
def Effect (n : Nat) (s : State) (op : Op) (ret : Option Ret) (q q' : List RtDataItem) : Prop :=
  match op with
  | .push _ item _ => Pushed n item ret q q'
  | .pop _ _ => Popped ret q q'
  | .switchBack t =>
    if (s.waiters.thread t).error ≠ .eok ∧ ret = some ⟨(s.waiters.thread t).error, none⟩ then q' = q
    else
      match s.call t with
      | .pushing item _ => Pushed n item ret q q'
      | .popping _ => Popped ret q q'
      | _ => False
  | .reset _ => q' = []
  | .peek _ | .proceed _ | .timeout _ => q' = q

section effect

variable {n k : Nat} {s s' : State} {op : Op} {ret : Option Ret} {t : ThreadId}
  {q q' : List RtDataItem}

theorem Tries.pushed {item : RtDataItem} (ht : Tries s op t (.push item))
    (h : Pushed n item ret q q') : Effect n s op ret q q' := by
  cases ht with
  | push hact => exact h
  | pushAgain hrun hc =>
    rw [Effect]
    split
    · rename_i hret
      obtain ⟨-, hok, -⟩ | ⟨-, -, heq⟩ := h
      · rw [hok] at hret
        simp only [Option.some.injEq, Ret.mk.injEq, and_true] at hret
        exact absurd hret.2.symm hret.1
      · exact heq
    · rw [hc]
      exact h

theorem Tries.popped (ht : Tries s op t .pop) (h : Popped ret q q') : Effect n s op ret q q' := by
  cases ht with
  | pop hact => exact h
  | popAgain hrun hc =>
    rw [Effect]
    split
    · rename_i hret
      obtain ⟨item, -, hok⟩ | ⟨-, -, heq⟩ := h
      · rw [hok] at hret
        simp at hret
      · exact heq
    · rw [hc]
      exact h

/-- A try that finds no item, or no room, changes nothing. -/
theorem Tries.idle {o : Operation} (ht : Tries s op t o) (h : Rep n k s.dq) (hn : n ≤ sizeMax)
    (hun : Unavailable s.dq o.role) (hret : ret = none ∨ ret = some ⟨.etimeout, none⟩) :
    Effect n s op ret s.dq.items s.dq.items := by
  have hlen := h.length_items hn
  cases o with
  | push item =>
    have hfull : s.dq.isFull = true := hun
    rw [h.full] at hfull
    exact ht.pushed (.inr ⟨hlen.trans (by simpa using hfull), hret, rfl⟩)
  | pop =>
    have hempty : s.dq.isEmpty = true := hun
    rw [h.empty] at hempty
    refine ht.popped (.inr ⟨List.eq_nil_of_length_eq_zero ?_, hret, rfl⟩)
    exact hlen.trans (by simpa using hempty)

/-- One step of a queue whose size the indices can reach. -/
theorem Result.effect (hres : Result s op s' ret) (h : Rep n k s.dq) (hn : n ≤ sizeMax) :
    Effect n s op ret s.dq.items s'.dq.items ∧ ∃ k', Rep n k' s'.dq := by
  cases hres with
  | @put _ t item ht hroom =>
    obtain ⟨hrep, hitems⟩ := h.put_item hn hroom item
    refine ⟨ht.pushed (.inl ⟨?_, rfl, hitems⟩), k + 1, hrep⟩
    rw [h.length_items hn]
    exact hrep.count
  | take ht hitem =>
    obtain ⟨hrep, hitems⟩ := h.take_item hn hitem
    exact ⟨ht.popped (.inl ⟨_, hitems, rfl⟩), k - 1, hrep⟩
  | block ht hun hblock hc => exact ⟨ht.idle h hn hun (.inl rfl), k, h⟩
  | refused ht hun => exact ⟨ht.idle h hn hun (.inr rfl), k, h⟩
  | @failed t ht hrole herr =>
    refine ⟨?_, k, h⟩
    rw [Effect, if_pos ⟨herr, rfl⟩]
    rfl
  | peekEmpty | peek | peeked | wake | timeout => exact ⟨rfl, k, h⟩
  | reset ht =>
    have hrep := h.reset
    exact ⟨List.eq_nil_of_length_eq_zero (hrep.length_items hn), 0, hrep⟩
  | @tested t r ht hc =>
    obtain ⟨c, heq, -⟩ := resetTest_eq s t r
    rw [heq]
    exact ⟨rfl, k, h⟩

end effect

/-! ## Runs -/

/-- The queue holds a sequence of at most `n` items, the flags say whether it is empty or full,
and every step changes it like a bounded FIFO. -/
structure Fifo (n : Nat) (s : State) : Prop where
  length : s.dq.items.length = rtDataQueueLen s.dq
  bound : rtDataQueueLen s.dq ≤ n
  between : s.dq.putIndex = (s.dq.getIndex + rtDataQueueLen s.dq) % n
  full : s.dq.isFull = decide (rtDataQueueLen s.dq = n)
  empty : s.dq.isEmpty = decide (rtDataQueueLen s.dq = 0)
  apart : ¬ (s.dq.isFull = true ∧ s.dq.isEmpty = true)
  effect : ∀ op s' ret, call s op = some (s', ret) → Effect n s op ret s.dq.items s'.dq.items

section runs

variable {n k lwm : Nat} {queue : Nat → RtDataItem} {priority : ThreadId → Nat} {s : State}
  {ops : List Op}

theorem Rep.fifo (h : Rep n k s.dq) (hn : n ≤ sizeMax) : Fifo n s := by
  have hlen := h.len hn
  have hpos : 0 < n := Nat.lt_of_le_of_lt (Nat.zero_le _) h.get
  refine ⟨length_window, ?_, ?_, ?_, ?_, ?_, fun op s' ret hcall =>
    ((call_result hcall).effect h hn).1⟩
  · rw [hlen]
    exact h.count
  · rw [hlen]
    exact h.put
  · rw [hlen]
    exact h.full
  · rw [hlen]
    exact h.empty
  · rintro ⟨hfull, hempty⟩
    rw [h.full, decide_eq_true_eq] at hfull
    rw [h.empty, decide_eq_true_eq] at hempty
    omega

theorem rep_init (hpos : 1 ≤ n) : Rep n 0 (init queue n lwm priority).dq :=
  ⟨rfl, Nat.zero_le n, hpos, (Nat.zero_mod n).symm, rfl, by simp [init, rtDataQueueInit]; omega⟩

theorem run_rep (hpos : 1 ≤ n) (hn : n ≤ sizeMax)
    (hrun : Runs.run step (init queue n lwm priority) ops = some s) : ∃ k, Rep n k s.dq := by
  refine @Runs.run_invariant _ _ step (fun s => ∃ k, Rep n k s.dq) ?_ _ _ _
    ⟨0, rep_init hpos⟩ hrun
  intro s op s' hs hstep
  obtain ⟨k, h⟩ := hs
  obtain ⟨⟨s', ret⟩, hcall, rfl⟩ := Option.map_eq_some_iff.mp hstep
  exact ((call_result hcall).effect h hn).2

/-- A queue into which `k` items have been pushed from the start, fewer than the indices can
count. -/
structure Filled (n k : Nat) (s : State) : Prop where
  size : s.dq.size = n
  put : s.dq.putIndex = k
  get : s.dq.getIndex = 0
  empty : s.dq.isEmpty = decide (k = 0)
  full : s.dq.isFull = false
  idle : ∀ t, Active s t
  alone : ∀ r, s.waiters.list r = []

/-- A push into such a queue, with the item and the index that it ends with. -/
theorem Filled.push (h : Filled n k s) (item : RtDataItem) : call s (.push 0 item 0) = some
      (setCall { s with dq := s.dq.put item, waiters := s.waiters.wake .receiver } 0 .outside,
        some ⟨.eok, none⟩) := by
  rw [call, if_pos (h.idle 0), rtDataQueuePush, if_neg (by simp [h.full])]

theorem Filled.next (h : Filled n k s) (hn : sizeMax < n) (hk : k + 1 < sizeMax)
    (item : RtDataItem) :
    ∃ s', step s (.push 0 item 0) = some s' ∧ Filled n (k + 1) s' := by
  refine ⟨_, by rw [step, h.push]; rfl, ?_⟩
  have hwadd : wadd indexBits k 1 = k + 1 := wadd_eq hk
  have hnext : s.dq.next s.dq.putIndex = k + 1 := by
    rw [RtDataQueue.next, h.put, hwadd, if_neg (by rw [h.size]; omega)]
  rw [Waiters.wake_nil (h.alone .receiver)]
  refine ⟨h.size, hnext, h.get, by simp [setCall, RtDataQueue.put], ?_, fun t => ?_, h.alone⟩
  · simp [setCall, RtDataQueue.put, hnext, h.full, h.get]
  · obtain ⟨hrun, hcall⟩ := h.idle t
    refine ⟨hrun, ?_⟩
    by_cases ht : t = 0
    · simp [setCall, ht]
    · simpa [setCall, ht] using hcall

theorem run_filled (queue : Nat → RtDataItem) (lwm : Nat) (priority : ThreadId → Nat)
    (hn : sizeMax < n) (item : RtDataItem) (hk : k < sizeMax) :
    ∃ s, Runs.run step (init queue n lwm priority) (List.replicate k (.push 0 item 0)) = some s ∧
      Filled n k s := by
  induction k with
  | zero => exact ⟨_, rfl, rfl, rfl, rfl, rfl, rfl, fun t => ⟨rfl, rfl⟩, fun _ => rfl⟩
  | succ k ih =>
    obtain ⟨s, hrun, h⟩ := ih (by omega)
    obtain ⟨s', hstep, h'⟩ := h.next hn hk item
    refine ⟨s', ?_, h'⟩
    rw [List.replicate_succ', Runs.run_append, hrun, Option.bind_some, Runs.run_cons, hstep]
    rfl

/-- The index wraps before the size is reached, and the queue seems to be full. -/
theorem Filled.not_fifo (h : Filled n (sizeMax - 1) s) (hn : sizeMax < n) (hmax : n ≤ 65535) :
    ¬ Fifo n s := by
  intro hfifo
  have hcall := h.push ⟨0, 0⟩
  have heffect := hfifo.effect _ _ _ hcall
  have hwrap : wadd indexBits (sizeMax - 1) 1 = 0 := rfl
  have hnext : s.dq.next s.dq.putIndex = 0 := by
    rw [RtDataQueue.next, h.put, hwrap, ite_self]
  have hlen : rtDataQueueLen (s.dq.put ⟨0, 0⟩) = n := by
    simp only [rtDataQueueLen, RtDataQueue.put, hnext, h.get, h.size]
    have hsub : wsub 16 n 0 = n - 0 := wsub_eq (Nat.zero_le n) (by omega)
    simpa using hsub
  have hold : s.dq.items.length = sizeMax - 1 := by
    rw [hfifo.length, rtDataQueueLen, h.empty, if_neg (by decide), h.get, h.put,
      if_pos (by decide), Nat.sub_zero]
  obtain ⟨-, -, heq⟩ | ⟨-, hret, -⟩ := heffect
  · have hcount := congrArg List.length heq
    rw [List.length_append, List.length_singleton, hold] at hcount
    have hnew : (s.dq.put ⟨0, 0⟩).items.length = n := by
      rw [RtDataQueue.items, length_window, hlen]
    have hcount : n = sizeMax - 1 + 1 := hnew.symm.trans hcount
    have hpow : sizeMax = 32768 := rfl
    omega
  · obtain hret | hret := hret
    · cases hret
    · cases hret

end runs

/-- A data queue is a bounded FIFO in every run if and only if its indices can reach its size. -/
theorem data_queue_fifo (n lwm : Nat) (hpos : 1 ≤ n) (hmax : n ≤ 65535)
    (queue : Nat → RtDataItem) (priority : ThreadId → Nat) :
    (∀ ops s, Runs.run step (init queue n lwm priority) ops = some s → Fifo n s) ↔
      n ≤ 32768 := by
  constructor
  · intro h
    by_contra hn
    have hn : sizeMax < n := by
      rw [sizeMax, indexBits]
      omega
    obtain ⟨s, hrun, hs⟩ := run_filled queue lwm priority hn ⟨0, 0⟩
      (show sizeMax - 1 < sizeMax by decide)
    exact hs.not_fifo hn hmax (h _ s hrun)
  · intro hn ops s hrun
    have hn : n ≤ sizeMax := hn
    obtain ⟨k, hrep⟩ := run_rep hpos hn hrun
    exact hrep.fifo hn

/-- A third push waits for room in a queue of two items, and goes on after a pop. -/
def waitingPush : List Op :=
  [.push 1 ⟨10, 1⟩ 0, .push 2 ⟨20, 1⟩ 0, .push 3 ⟨30, 1⟩ 0xffffffff, .pop 4 0]

theorem data_queue_fifo_two :
    ∃ s, Runs.run step (init (fun _ => ⟨0, 0⟩) 2 1 (fun t => t)) waitingPush = some s ∧
      s.dq.items = [⟨20, 1⟩] ∧ Fifo 2 s := by
  have hlast : (Runs.run step (init (fun _ => ⟨0, 0⟩) 2 1 (fun t => t)) waitingPush).map
      (·.dq.items) = some [⟨20, 1⟩] := by decide +kernel
  obtain ⟨s, hrun, hs⟩ := Option.map_eq_some_iff.mp hlast
  exact ⟨s, hrun, hs, (data_queue_fifo 2 1 (by decide) (by decide) (fun _ => ⟨0, 0⟩)
    (fun t => t)).mpr (by decide) waitingPush s hrun⟩

/-- After 32768 pushes a queue of 40000 items says that it is full. -/
theorem wide_queue_not_fifo :
    ∃ ops s, Runs.run step (init (fun _ => ⟨0, 0⟩) 40000 1 (fun t => t)) ops = some s ∧
      ¬ Fifo 40000 s := by
  obtain ⟨s, hrun, hs⟩ := run_filled (fun _ => ⟨0, 0⟩) 1 (fun t => t)
    (show sizeMax < 40000 by decide) ⟨0, 0⟩ (show sizeMax - 1 < sizeMax by decide)
  exact ⟨_, s, hrun, hs.not_fifo (by decide) (by decide)⟩

end RtThread.DataQueue
