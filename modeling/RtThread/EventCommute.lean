import RtThread.EventScan

/-!
# Sending before and after a receive

A receiver that finds its events takes them in `rt_event_recv`; one that waits is given them by
the scan of `rt_event_send`. The two places work the received set and the events to clear out
in different ways, and come to the same.
-/
namespace RtThread.Event

open Ipc

/-! ## The received set -/

/-- The events saved for a waiting thread are those that the receive itself would store. -/
theorem saved_eq {set wanted : EventSet} {info : Info} (h : received set wanted info = some true) :
    saved set wanted info = set &&& wanted := by
  rw [received] at h
  rw [saved, BitVec.and_comm set]
  split
  case isTrue hand =>
    rw [if_pos hand, Option.some_inj, beq_iff_eq] at h
    exact h.symm
  case isFalse => rfl

/-- Clearing the received events or all of the requested ones leaves the same events. -/
theorem and_not_and (set wanted : EventSet) : set &&& ~~~ (set &&& wanted) = set &&& ~~~ wanted := by
  ext i hi
  simp only [BitVec.getElem_and, BitVec.getElem_not]
  cases set[i] with
  | false => rfl
  | true => simp

/-! ## The two orders -/

variable {s s' blocked : State} {t u : ThreadId} {sent set : EventSet} {option : Info}
  {timeout : BitVec 32}

/-- A receive that has to wait: the thread is suspended with its request. -/
structure Blocked (s : State) (t : ThreadId) (set : EventSet) (option : Info) (s' : State) :
    Prop where
  wanted : set ≠ 0
  missing : received s.set set option = some false
  set_eq : s'.set = s.set
  eventSet : s'.eventSet t = set
  eventInfo : s'.eventInfo t = option
  receiving : s'.receiving = Function.update s.receiving t true
  list : s'.waiters.list () = [t]
  suspended : ∀ v, (s'.waiters.thread v).suspended =
    (decide (v = t) || (s.waiters.thread v).suspended)
  error : (s'.waiters.thread t).error = .eok

theorem blocked_of_recv (ht : Active s t) (hempty : s.waiters.list () = [])
    (h : call s (.recv t set option timeout) = some (s', none)) : Blocked s t set option s' := by
  rw [call, if_pos ht, rtEventRecv] at h
  split at h
  case isTrue => cases h
  case isFalse hset =>
    dsimp only at h
    cases hrec : received s.set set option with
    | none =>
      rw [hrec] at h
      cases h
    | some b =>
      rw [hrec] at h
      cases b with
      | true => cases h
      | false =>
        dsimp only at h
        split at h
        case isTrue => cases h
        case isFalse =>
          obtain ⟨w, hw, heq⟩ := Option.map_eq_some_iff.mp h
          cases heq
          have hsus : ((s.waiters.setError t .eok).thread t).suspended = false := by
            simpa [Waiters.setError] using ht.1
          obtain ⟨l, hl, rfl⟩ := Waiters.block_eq hsus hw
          rw [Waiters.setError, hempty] at hl
          constructor
          case wanted => exact hset
          case missing => exact hrec
          case set_eq => rfl
          case eventSet => exact Function.update_self _ _ _
          case eventInfo => exact Function.update_self _ _ _
          case receiving => rfl
          case list => simpa using List.perm_singleton.mp hl
          case suspended =>
            intro v
            by_cases hv : v = t
            · simp [hv]
            · simp [hv, Waiters.setError]
          case error => simp [Waiters.setError]

theorem Blocked.active (h : Blocked s t set option blocked) (hu : Active s u) (htu : u ≠ t) :
    Active blocked u := by
  constructor
  · rw [h.suspended, hu.1]
    simp [htu]
  · rw [h.receiving, Function.update_of_ne htu]
    exact hu.2

/-- The scan of the only waiting thread gives it what a receive behind the send stores. -/
theorem scan_satisfied (h : Blocked s t set option blocked)
    (hrec : received (s.set ||| sent) set option = some true) :
    ∃ s', scan { blocked with set := blocked.set ||| sent } [t] = (s', .eok) ∧
      s'.set = (if option &&& flagClear ≠ 0 then (s.set ||| sent) &&& ~~~ set
        else s.set ||| sent) ∧
      s'.eventSet t = (s.set ||| sent) &&& set ∧ s'.receiving = blocked.receiving ∧
      (s'.waiters.thread t).suspended = false ∧ (s'.waiters.thread t).error = .eok := by
  have hsus : (blocked.waiters.thread t).suspended = true := by
    rw [h.suspended]
    simp
  rw [scan, h.set_eq, h.eventSet, h.eventInfo, hrec]
  refine ⟨_, rfl, ?_, ?_, rfl, ?_, ?_⟩
  · rw [saved_eq hrec, and_not_and]
  · dsimp only
    rw [Function.update_self, saved_eq hrec]
  · simp [Waiters.resume, hsus]
  · simp [Waiters.resume, hsus, h.error]

theorem scan_unsatisfied (h : Blocked s t set option blocked)
    (hrec : received (s.set ||| sent) set option = some false) :
    scan { blocked with set := blocked.set ||| sent } [t] =
      ({ blocked with set := s.set ||| sent }, .eok) := by
  rw [scan, h.set_eq, h.eventSet, h.eventInfo, hrec]
  rfl

/-- A receive that does not wait. -/
theorem recv_now (ht : Active s t) (hset : set ≠ 0) {b : Bool}
    (hrec : received s.set set option = some b) :
    ∃ s', call s (.recv t set option 0) = some (s',
        some (if b then ⟨.eok, some (s.set &&& set)⟩ else ⟨.etimeout, none⟩)) ∧
      s'.set = if b ∧ option &&& flagClear ≠ 0 then s.set &&& ~~~ set else s.set := by
  rw [call, if_pos ht, rtEventRecv, if_neg hset]
  dsimp only
  rw [hrec]
  cases b with
  | true | false => exact ⟨_, rfl, by simp⟩

/-- For one receiver the two orders of a send and a receive come to the same. From any event that
no thread waits for, a receiver that would wait is either satisfied by the send in both orders,
with the same received events, or in none, in which case the receive behind the send times out and
the receiver that waits goes on waiting; and both orders leave the same events. -/
theorem send_recv_commute (hempty : s.waiters.list () = []) (ht : Active s t) (hu : Active s u)
    (htu : u ≠ t) (hsent : sent ≠ 0)
    (hblock : call s (.recv t set option timeout) = some (blocked, none)) :
    ∃ s₁ s₂ ret s₃,
      call s (.send u sent) = some (s₁, some ⟨.eok, none⟩) ∧
      call s₁ (.recv t set option 0) = some (s₂, some ret) ∧
      call blocked (.send u sent) = some (s₃, some ⟨.eok, none⟩) ∧ s₃.set = s₂.set ∧
      ((ret.err = .eok ∧ ∃ s₄, call s₃ (.recvReturn t) = some (s₄, some ret) ∧
          s₄.set = s₂.set) ∨
        ret = ⟨.etimeout, none⟩ ∧ s₃.waiters.list () = [t] ∧
          (s₃.waiters.thread t).suspended = true) := by
  have h := blocked_of_recv ht hempty hblock
  have hsend : call s (.send u sent) =
      some ({ s with set := s.set ||| sent }, some ⟨.eok, none⟩) := by
    rw [call, if_pos hu, rtEventSend, if_neg hsent, hempty]
    rfl
  have hsend' : call blocked (.send u sent) =
      some ((scan { blocked with set := blocked.set ||| sent } [t]).1,
        some ⟨(scan { blocked with set := blocked.set ||| sent } [t]).2, none⟩) := by
    rw [call, if_pos (h.active hu htu), rtEventSend, if_neg hsent, h.list]
  have ht₁ : Active { s with set := s.set ||| sent } t := ht
  obtain ⟨b, hrec⟩ := Option.ne_none_iff_exists'.mp
    (@received_ne_none (s.set ||| sent) set _ (asked_of_received h.missing))
  obtain ⟨s₂, hrecv, hset₂⟩ := recv_now (s := { s with set := s.set ||| sent }) ht₁ h.wanted hrec
  cases b with
  | true =>
    obtain ⟨s₃, hscan, hset₃, hgot, hreceiving, hsus, herr⟩ := scan_satisfied h hrec
    rw [hscan] at hsend'
    have hsame : s₃.set = s₂.set := by
      rw [hset₃, hset₂]
      simp
    refine ⟨_, s₂, _, s₃, hsend, hrecv, hsend', hsame, .inl ⟨rfl,
      { s₃ with receiving := Function.update s₃.receiving t false }, ?_, hsame⟩⟩
    rw [call, if_pos, recvReturn, herr, hgot]
    · rfl
    · rw [hreceiving, h.receiving]
      exact ⟨hsus, Function.update_self _ _ _⟩
  | false =>
    rw [scan_unsatisfied h hrec] at hsend'
    have hsus : (blocked.waiters.thread t).suspended = true := by
      rw [h.suspended]
      simp
    refine ⟨_, s₂, _, _, hsend, hrecv, hsend', ?_, .inr ⟨rfl, h.list, hsus⟩⟩
    rw [hset₂]
    simp

/-- The receiver waits for either of two events, to clear them, and one of them is sent. -/
theorem send_recv_commute_either :
    ∃ s₁ s₂ ret s₃, call (init .fifo fun _ => 10) (.send 1 0b01) = some (s₁, some ⟨.eok, none⟩) ∧
      call s₁ (.recv 0 0b11 (flagOr ||| flagClear) 0) = some (s₂, some ret) ∧
      s₃.set = s₂.set ∧ ret.err = .eok ∧
      ∃ s₄, call s₃ (.recvReturn 0) = some (s₄, some ret) := by
  have hactive : ∀ t, Active (init .fifo fun _ => 10) t := fun t => ⟨rfl, rfl⟩
  obtain ⟨blocked, hblocked⟩ : ∃ blocked, call (init .fifo fun _ => 10)
      (.recv 0 0b11 (flagOr ||| flagClear) 5) = some (blocked, none) := ⟨_, rfl⟩
  obtain ⟨s₁, s₂, ret, s₃, hsend, hrecv, -, hset, hret⟩ :=
    send_recv_commute rfl (hactive 0) (hactive 1) (by decide)
      (show (0b01 : EventSet) ≠ 0 by decide) hblocked
  have herr : ret.err = .eok := by
    cases hsend
    cases hrecv
    rfl
  obtain ⟨-, s₄, hback, -⟩ | ⟨rfl, -⟩ := hret
  · exact ⟨s₁, s₂, ret, s₃, hsend, hrecv, hset, herr, s₄, hback⟩
  · cases herr

end RtThread.Event
