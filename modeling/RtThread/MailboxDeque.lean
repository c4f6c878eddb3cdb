import RtThread.Lib.Cyclic
import RtThread.Mailbox

/-!
# The mailbox as a bounded deque

The cells from `out_offset` on, as many as there are entries, are the mails of the
mailbox in the order in which they will be received. A send that succeeds appends
its mail, an urgent send prepends it, a receive takes the first one, and a call
that fails or waits changes nothing.
-/
namespace RtThread.Mailbox

open Ipc Cyclic

/-- The mails in the mailbox. -/
def RtMailbox.mails (mb : RtMailbox) : List Mail :=
  window mb.msgPool mb.size mb.outOffset mb.entry

/-- The offsets and the number of entries of a mailbox of `n` mails. -/
structure Rep (n : Nat) (mb : RtMailbox) : Prop where
  size : mb.size = n
  entry : mb.entry ≤ n
  out : mb.outOffset < n
  in_eq : mb.inOffset = (mb.outOffset + mb.entry) % n

/-- The function of the mailbox that a step belongs to. -/
inductive Operation where
  | send (value : Mail)
  | urgent (value : Mail)
  | recv
  | reset
  deriving DecidableEq

def operation (s : State) : Op → Option Operation
  | .send _ value _ => some (.send value)
  | .urgent _ value => some (.urgent value)
  | .recv _ _ => some .recv
  | .switchBack t =>
    match s.call t with
    | .outside => none
    | .sending value _ _ => some (.send value)
    | .receiving _ _ => some .recv
  | .reset _ => some .reset
  | .timeout _ | .tickIncrease => none

/-- What a step does to the mails: `q` before it and `q'` after it. -/
def Deque (o : Option Operation) (ret : Option Ret) (q q' : List Mail) : Prop :=
  match o, ret with
  | some (.send value), some ⟨.eok, _⟩ => q' = q ++ [value]
  | some (.urgent value), some ⟨.eok, _⟩ => q' = value :: q
  | some .recv, some ⟨.eok, r⟩ => ∃ value, r = some value ∧ q = value :: q'
  | some .reset, _ => q' = []
  | _, _ => q' = q

/-! ## What a step can do -/

def Call.role : Call → Option Role
  | .outside => none
  | .sending _ _ _ => some .sender
  | .receiving _ _ => some .receiver

/-- The thread runs, inside or at the beginning of a function that may wait for the reason. -/
structure In (s : State) (t : ThreadId) (r : Role) : Prop where
  running : (s.waiters.thread t).suspended = false
  role : (s.call t).role = none ∨ (s.call t).role = some r

/-- There is no mail, or no room for one. -/
def Unavailable (mb : RtMailbox) : Role → Prop
  | .receiver => mb.entry = 0
  | .sender => mb.entry = mb.size

inductive Result (s : State) : Option Operation → State → Option Ret → Prop
  | send {t : ThreadId} {value : Mail} (ht : In s t .sender) (hroom : s.mb.entry ≠ s.mb.size) :
    Result s (some (.send value)) (put s t value).1 (put s t value).2
  | urgent {value : Mail} (hroom : s.mb.entry ≠ s.mb.size) :
    Result s (some (.urgent value)) (rtMbUrgent s value).1 (rtMbUrgent s value).2
  | recv {t : ThreadId} (ht : In s t .receiver) (hmail : s.mb.entry ≠ 0) :
    Result s (some .recv) (take s t).1 (take s t).2
  | block {o : Operation} {r : Role} {t : ThreadId} {timeout : BitVec 32} {w : Waiters Role}
      {c : Call} (ht : In s t r) (hblock : s.waiters.block s.flag r t timeout = some w)
      (hc : c.role = some r) (hun : Unavailable s.mb r) (ho : o ≠ .reset) :
    Result s (some o) (setCall { s with waiters := w } t c) none
  | refused {o : Operation} {r : Role} {t : ThreadId} {err e : RtErr} (ht : In s t r)
      (hun : Unavailable s.mb r) (herr : err ≠ .eok) (ho : o ≠ .reset) :
    Result s (some o) (setCall { s with waiters := s.waiters.setError t e } t .outside)
      (some ⟨err, none⟩)
  | full {o : Operation} {err : RtErr} (herr : err ≠ .eok) (ho : o ≠ .reset) :
    Result s (some o) s (some ⟨err, none⟩)
  | failed {o : Operation} {t : ThreadId} (ht : (s.waiters.thread t).suspended = false)
      (herr : (s.waiters.thread t).error ≠ .eok) (ho : o ≠ .reset) :
    Result s (some o) (setCall s t .outside) (some ⟨(s.waiters.thread t).error, none⟩)
  | reset {w w' : Waiters Role} (hrecv : s.waiters.wakeAll .receiver = some w)
      (hsend : w.wakeAll .sender = some w') :
    Result s (some .reset) { s with
      waiters := w', mb := { s.mb with entry := 0, inOffset := 0, outOffset := 0 } }
      (some ⟨.eok, none⟩)
  | timeout {t : ThreadId} (ht : (s.waiters.thread t).timerActive = true) :
    Result s none { s with waiters := s.waiters.timeout t } none
  | tick : Result s none { s with tick := s.tick + 1 } none

section result

variable {s s' : State} {ret : Option Ret} {t : ThreadId} {value : Mail} {timeout : BitVec 32}

theorem sendLoop_result (ht : In s t .sender) (h : sendLoop s t value timeout = some (s', ret)) :
    Result s (some (.send value)) s' ret := by
  rw [sendLoop] at h
  split at h
  · rename_i hfull
    split at h
    · cases h
      exact .refused ht hfull (by decide) (by simp)
    · obtain ⟨w, hw, heq⟩ := Option.map_eq_some_iff.mp h
      cases heq
      exact .block ht hw rfl hfull (by simp)
  · rename_i hroom
    obtain ⟨rfl, rfl⟩ := pair_inj h
    exact .send ht hroom

theorem recvLoop_result (ht : In s t .receiver) (h : recvLoop s t timeout = some (s', ret)) :
    Result s (some .recv) s' ret := by
  rw [recvLoop] at h
  split at h
  · rename_i hempty
    split at h
    · cases h
      exact .refused ht hempty (by decide) (by simp)
    · obtain ⟨w, hw, heq⟩ := Option.map_eq_some_iff.mp h
      cases heq
      exact .block ht hw rfl hempty (by simp)
  · rename_i hmail
    cases h
    exact .recv ht hmail

theorem switchBack_result (ht : (s.waiters.thread t).suspended = false)
    (h : switchBack s t = some (s', ret)) : Result s (operation s (.switchBack t)) s' ret := by
  rw [switchBack] at h
  cases hc : s.call t with
  | outside => simp [hc] at h
  | sending value timeout since =>
    simp only [hc] at h
    simp only [operation, hc]
    split at h
    · rename_i herr
      cases h
      exact .failed ht herr (by simp)
    · exact sendLoop_result ⟨ht, by simp [hc, Call.role]⟩ h
  | receiving timeout since =>
    simp only [hc] at h
    simp only [operation, hc]
    split at h
    · rename_i herr
      cases h
      exact .failed ht herr (by simp)
    · exact recvLoop_result ⟨ht, by simp [hc, Call.role]⟩ h

theorem call_result {op : Op} (h : call s op = some (s', ret)) :
    Result s (operation s op) s' ret := by
  cases op with
  | send t value timeout =>
    simp only [call] at h
    split at h
    · rename_i hact
      rw [rtMbSendWait] at h
      split at h
      · cases h
        exact .full (by decide) (by simp)
      · exact sendLoop_result ⟨hact.1, by simp [hact.2, Call.role]⟩ h
    · cases h
  | urgent t value =>
    simp only [call] at h
    split at h
    · by_cases hroom : s.mb.entry = s.mb.size
      · rw [rtMbUrgent, if_pos hroom] at h
        cases h
        exact .full (by decide) (by simp)
      · obtain ⟨rfl, rfl⟩ := pair_inj h
        exact .urgent hroom
    · cases h
  | recv t timeout =>
    simp only [call] at h
    split at h
    · rename_i hact
      rw [rtMbRecv] at h
      split at h
      · cases h
        exact .full (by decide) (by simp)
      · exact recvLoop_result ⟨hact.1, by simp [hact.2, Call.role]⟩ h
    · cases h
  | switchBack t =>
    simp only [call] at h
    split at h
    · exact switchBack_result (by assumption) h
    · cases h
  | reset t =>
    simp only [call] at h
    split at h
    · obtain ⟨w, hw, h⟩ := Option.bind_eq_some_iff.mp h
      obtain ⟨w', hw', h⟩ := Option.bind_eq_some_iff.mp h
      cases h
      exact .reset hw hw'
    · cases h
  | timeout t =>
    simp only [call] at h
    split at h
    · cases h
      exact .timeout (by assumption)
    · cases h
  | tickIncrease =>
    cases h
    exact .tick

end result

/-! ## The offsets -/

section offsets

variable {n : Nat} {s : State}

theorem next_eq {mb : RtMailbox} (h : Rep n mb) (hn : n ≤ entryMax) {off : Nat} (hoff : off < n) :
    mb.next off = (off + 1) % n := by
  rw [entryMax] at hn
  rw [RtMailbox.next, wadd_eq (by omega), h.size, succ_mod hoff]

section

variable (h : Rep n s.mb) (hn : n ≤ entryMax) (hroom : s.mb.entry ≠ s.mb.size)
include h hn hroom

theorem put_eq (t : ThreadId) (value : Mail) : put s t value = ({ setCall s t .outside with
      waiters := s.waiters.wake .receiver
      mb := { s.mb with
        msgPool := Function.update s.mb.msgPool s.mb.inOffset value
        inOffset := (s.mb.inOffset + 1) % n
        entry := s.mb.entry + 1 } }, some ⟨.eok, none⟩) := by
  have hlt : s.mb.entry < entryMax := by
    have := h.entry
    have := h.size
    omega
  have hin : s.mb.inOffset < n := by
    rw [h.in_eq]
    exact Nat.mod_lt _ (by have := h.out; omega)
  simp only [put, if_pos hlt, next_eq h hn hin]
  rfl

theorem put_rep (t : ThreadId) (value : Mail) : Rep n (put s t value).1.mb := by
  have hentry := h.entry
  have hsize := h.size
  rw [put_eq h hn hroom]
  refine ⟨h.size, by show s.mb.entry + 1 ≤ n; omega, h.out, ?_⟩
  rw [h.in_eq, Nat.mod_add_mod, Nat.add_assoc]

theorem put_mails
    (t : ThreadId) (value : Mail) : (put s t value).1.mb.mails = s.mb.mails ++ [value] := by
  have hlt : s.mb.entry < s.mb.size := by
    have := h.entry
    have := h.size
    omega
  rw [put_eq h hn hroom, RtMailbox.mails, RtMailbox.mails, ← window_push value hlt, h.size, ← h.in_eq]

theorem urgent_eq (value : Mail) : ∃ out, out < n ∧ (out + 1) % n = s.mb.outOffset ∧
      rtMbUrgent s value = ({ s with
        waiters := s.waiters.wake .receiver
        mb := { s.mb with
          outOffset := out
          msgPool := Function.update s.mb.msgPool out value
          entry := s.mb.entry + 1 } }, some ⟨.eok, none⟩) := by
  have hout := h.out
  have hentry := h.entry
  have hsize := h.size
  rw [entryMax] at hn
  refine ⟨if 0 < s.mb.outOffset then s.mb.outOffset - 1 else n - 1, ?_, ?_, ?_⟩
  · split
    · omega
    · omega
  · split
    · rw [Nat.sub_add_cancel (by omega), Nat.mod_eq_of_lt hout]
    · rw [Nat.sub_add_cancel (by omega), Nat.mod_self]
      omega
  · have hsub : wsub 16 n 1 = n - 1 := wsub_eq (by omega) (by omega)
    have hadd : wadd 16 s.mb.entry 1 = s.mb.entry + 1 := wadd_eq (by omega)
    rw [rtMbUrgent, if_neg hroom]
    simp only [hsize, hsub, hadd]

theorem urgent_rep (value : Mail) : Rep n (rtMbUrgent s value).1.mb := by
  obtain ⟨out, hlt, hnext, heq⟩ := urgent_eq h hn hroom value
  have hentry := h.entry
  have hsize := h.size
  rw [heq]
  refine ⟨h.size, by show s.mb.entry + 1 ≤ n; omega, hlt, ?_⟩
  show s.mb.inOffset = (out + (s.mb.entry + 1)) % n
  rw [h.in_eq, ← hnext, Nat.mod_add_mod]
  congr 1
  omega

theorem urgent_mails (value : Mail) : (rtMbUrgent s value).1.mb.mails = value :: s.mb.mails := by
  obtain ⟨out, hlt, hnext, heq⟩ := urgent_eq h hn hroom value
  have hentry := h.entry
  have hsize := h.size
  rw [heq, RtMailbox.mails, RtMailbox.mails, ← hnext, hsize, window_mod]
  exact window_pushFront value (by omega) hlt

end

theorem take_rep (h : Rep n s.mb) (hn : n ≤ entryMax) (hmail : s.mb.entry ≠ 0) (t : ThreadId) :
    Rep n (take s t).1.mb := by
  have hentry := h.entry
  have hout := h.out
  have hpos : 0 < s.mb.entry := by omega
  refine ⟨h.size, ?_, ?_, ?_⟩
  · simp only [take, setCall, if_pos hpos]
    omega
  · simp only [take, setCall, next_eq h hn hout]
    exact Nat.mod_lt _ (by omega)
  · simp only [take, setCall, if_pos hpos, next_eq h hn hout, Nat.mod_add_mod]
    rw [h.in_eq]
    congr 1
    omega

theorem take_mails (h : Rep n s.mb) (hn : n ≤ entryMax) (hmail : s.mb.entry ≠ 0) (t : ThreadId) :
    ∃ value, (take s t).2 = some ⟨.eok, some value⟩ ∧ s.mb.mails = value :: (take s t).1.mb.mails := by
  have hout := h.out
  have hpos : 0 < s.mb.entry := by omega
  refine ⟨_, rfl, ?_⟩
  simp only [RtMailbox.mails, take, setCall, if_pos hpos, next_eq h hn hout, h.size, window_mod]
  rw [show s.mb.entry = s.mb.entry - 1 + 1 by omega, window_cons, Nat.mod_eq_of_lt hout]
  simp

end offsets

/-! ## Runs -/

theorem deque_error {o : Operation} {err : RtErr} (ho : o ≠ .reset) (herr : err ≠ .eok)
    (q : List Mail) : Deque (some o) (some ⟨err, none⟩) q q := by
  cases o with
  | send | urgent | recv => cases err <;> first | rfl | exact absurd rfl herr
  | reset => exact absurd rfl ho

theorem deque_waiting {o : Operation} (ho : o ≠ .reset) (q : List Mail) :
    Deque (some o) none q q := by
  cases o with
  | send | urgent | recv => rfl
  | reset => exact absurd rfl ho

variable {n : Nat}

theorem Result.rep {s s' : State} {o : Option Operation} {ret : Option Ret} (hres : Result s o s' ret)
    (h : Rep n s.mb) (hn : n ≤ entryMax) : Rep n s'.mb := by
  cases hres with
  | send ht hroom => exact put_rep h hn hroom _ _
  | urgent hroom => exact urgent_rep h hn hroom _
  | recv ht hmail => exact take_rep h hn hmail _
  | reset hrecv hsend =>
    have := h.out
    exact ⟨h.size, Nat.zero_le n, by show 0 < n; omega, (Nat.zero_mod n).symm⟩
  | block | refused | full | failed | timeout | tick => exact h

theorem Result.deque {s s' : State} {o : Option Operation} {ret : Option Ret}
    (hres : Result s o s' ret) (h : Rep n s.mb) (hn : n ≤ entryMax) :
    Deque o ret s.mb.mails s'.mb.mails := by
  cases hres with
  | send ht hroom =>
    rw [put_mails h hn hroom, put_eq h hn hroom]
    rfl
  | urgent hroom =>
    obtain ⟨out, -, -, heq⟩ := urgent_eq h hn hroom (by assumption)
    rw [urgent_mails h hn hroom, heq]
    rfl
  | recv ht hmail =>
    obtain ⟨value, hret, hmails⟩ := take_mails h hn hmail (by assumption)
    rw [hret]
    exact ⟨value, rfl, hmails⟩
  | reset | timeout | tick => rfl
  | block ht hblock hc hun ho => exact deque_waiting ho _
  | refused ht hun herr ho | full herr ho | failed ht herr ho => exact deque_error ho herr _

theorem rep_init (hn : 0 < n) (flag : Flag) (tick : Tick) (pool : Nat → Mail)
    (priority : ThreadId → Nat) : Rep n (init flag tick pool n priority).mb :=
  ⟨rfl, Nat.zero_le n, hn, (Nat.zero_mod n).symm⟩

theorem step_rep {s s' : State} {op : Op} (hn : n ≤ entryMax) (h : Rep n s.mb)
    (hs : step s op = some s') : Rep n s'.mb := by
  obtain ⟨⟨s', ret⟩, hcall, rfl⟩ := Option.map_eq_some_iff.mp hs
  exact (call_result hcall).rep h hn

/-- Along every run the cells from `out_offset` on are a deque of at most `n` mails, and every
step changes it as the function it belongs to, and the value it returns, say. -/
theorem mailbox_deque (n : Nat) (hpos : 1 ≤ n) (hn : n ≤ entryMax) (flag : Flag) (tick : Tick)
    (pool : Nat → Mail) (priority : ThreadId → Nat) (ops : List Op) (s : State)
    (hrun : Runs.run step (init flag tick pool n priority) ops = some s) :
    s.mb.mails.length = s.mb.entry ∧ Rep n s.mb ∧
      ∀ op s' ret, call s op = some (s', ret) →
        Deque (operation s op) ret s.mb.mails s'.mb.mails := by
  have hrep : Rep n s.mb := by
    refine @Runs.run_invariant _ _ step (fun s => Rep n s.mb) ?_ _ _ _ ?_ hrun
    · exact fun _ _ _ h hs => step_rep hn h hs
    · exact rep_init hpos flag tick pool priority
  refine ⟨length_window, hrep, fun op s' ret hcall => ?_⟩
  exact (call_result hcall).deque hrep hn

/-- A sender that has waited for room appends its mail to the one that was sent before it. -/
def waitingSender : List Op :=
  [.send 1 10 0, .send 2 20 0, .send 3 30 0xffffffff, .recv 4 0]

theorem mailbox_deque_two :
    ∃ s, Runs.run step (init .prio 0 (fun _ => 0) 2 (fun t => t)) waitingSender = some s ∧
      s.mb.mails = [20] ∧ s.mb.mails.length = s.mb.entry ∧
      ∃ s', call s (.switchBack 3) = some (s', some ⟨.eok, none⟩) ∧ s'.mb.mails = [20, 30] := by
  refine ⟨_, rfl, by decide, ?_, _, rfl, ?_⟩
  · exact (mailbox_deque 2 (by decide) (by decide) .prio 0 (fun _ => 0) (fun t => t)
      waitingSender _ rfl).1
  · exact (mailbox_deque 2 (by decide) (by decide) .prio 0 (fun _ => 0) (fun t => t)
      waitingSender _ rfl).2.2 (.switchBack 3) _ _ rfl

end RtThread.Mailbox
