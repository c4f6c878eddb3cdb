import RtThread.Event

/-!
# Waiting for events

No thread waits for events that are there, and the scan of `rt_event_send` resumes
the threads whose events are there when their turn comes. The events of a thread
that asked to clear them are cleared at its turn, before the next thread is looked at.
-/
namespace RtThread.Event

open Ipc

/-! ## The scan -/

variable {set : EventSet}

section turns

variable (wanted : ThreadId → EventSet) (info : ThreadId → Info)

/-- The events that the turn of a thread leaves. -/
def afterTurn (set : EventSet) (t : ThreadId) : EventSet :=
  if received set (wanted t) (info t) = some true ∧ info t &&& flagClear ≠ 0 then
    set &&& ~~~ saved set (wanted t) (info t)
  else set

/-- The events when all threads of the list have had their turn. -/
def turnSet (set : EventSet) (ts : List ThreadId) : EventSet := ts.foldl (afterTurn wanted info) set

/-- The threads whose events are there when their turn comes. -/
def resumed : EventSet → List ThreadId → List ThreadId
  | _, [] => []
  | set, t :: ts =>
    if received set (wanted t) (info t) = some true then
      t :: resumed (afterTurn wanted info set t) ts
    else resumed (afterTurn wanted info set t) ts

theorem resumed_sublist (set : EventSet) (ts : List ThreadId) :
    (resumed wanted info set ts).Sublist ts := by
  induction ts generalizing set with
  | nil => exact List.Sublist.refl _
  | cons t ts ih =>
    rw [resumed]
    split
    · exact (ih _).cons_cons t
    · exact (ih _).cons t

/-- A thread is resumed when its events are there at its turn. -/
theorem mem_resumed {before after : List ThreadId} {t : ThreadId}
    (hnd : (before ++ t :: after).Nodup) :
    t ∈ resumed wanted info set (before ++ t :: after) ↔
      received (turnSet wanted info set before) (wanted t) (info t) = some true := by
  induction before generalizing set with
  | nil =>
    have hnot : t ∉ resumed wanted info (afterTurn wanted info set t) after := fun hm =>
      (List.nodup_cons.mp hnd).1 ((resumed_sublist wanted info _ after).mem hm)
    rw [List.nil_append, resumed, turnSet, List.foldl_nil]
    split
    · rename_i h
      simp [h]
    · rename_i h
      simp [h, hnot]
  | cons u before ih =>
    rw [List.cons_append, List.nodup_cons] at hnd
    have htu : t ≠ u := by
      rintro rfl
      exact hnd.1 (by simp)
    rw [List.cons_append, resumed, turnSet, List.foldl_cons]
    split
    · rw [List.mem_cons, or_iff_right htu]
      exact ih hnd.2
    · exact ih hnd.2

end turns

variable {ts : List ThreadId}

theorem resumed_congr {wanted wanted' : ThreadId → EventSet} (h : ∀ t ∈ ts, wanted' t = wanted t)
    (info : ThreadId → Info) (set : EventSet) :
    resumed wanted' info set ts = resumed wanted info set ts ∧
      turnSet wanted' info set ts = turnSet wanted info set ts := by
  induction ts generalizing set with
  | nil => exact ⟨rfl, rfl⟩
  | cons t ts ih =>
    have ht := h t List.mem_cons_self
    have hafter : afterTurn wanted' info set t = afterTurn wanted info set t := by
      rw [afterTurn, afterTurn, ht]
    obtain ⟨hres, hset⟩ := ih (fun u hu => h u (List.mem_cons_of_mem t hu))
      (afterTurn wanted info set t)
    refine ⟨?_, ?_⟩
    · rw [resumed, resumed, ht, hafter, hres]
    · rw [turnSet, turnSet, List.foldl_cons, List.foldl_cons, hafter]
      exact hset

/-- A receiver asks for all of its events or for one of them. -/
def Asked (info : Info) : Prop := info &&& flagAnd ≠ 0 ∨ info &&& flagOr ≠ 0

theorem received_ne_none {wanted : EventSet} {info : Info} (h : Asked info) :
    received set wanted info ≠ none := by
  rw [received]
  split
  · simp
  · rename_i hand
    rw [if_pos (h.resolve_left hand)]
    simp

theorem asked_of_received {wanted : EventSet} {info : Info} {b : Bool}
    (h : received set wanted info = some b) : Asked info := by
  rw [received] at h
  split at h
  · exact .inl (by assumption)
  · split at h
    · exact .inr (by assumption)
    · cases h

/-- The scan resumes the threads whose events are there at their turn, and leaves the others as
they are. -/
theorem scan_spec {s : State} (hnd : ts.Nodup) (hinfo : ∀ t ∈ ts, Asked (s.eventInfo t))
    (hsus : ∀ t ∈ ts, (s.waiters.thread t).suspended = true) :
    (scan s ts).2 = .eok ∧
      (scan s ts).1.set = turnSet s.eventSet s.eventInfo s.set ts ∧
      (scan s ts).1.waiters.list () =
        (s.waiters.list ()).filter (· ∉ resumed s.eventSet s.eventInfo s.set ts) ∧
      ∀ t, ((scan s ts).1.waiters.thread t).suspended =
        (decide (t ∉ resumed s.eventSet s.eventInfo s.set ts) && (s.waiters.thread t).suspended) := by
  induction ts generalizing s with
  | nil => simp [scan, turnSet, resumed]
  | cons t ts ih =>
    rw [List.nodup_cons] at hnd
    have hrest : ∀ u ∈ ts, u ≠ t := fun u hu heq => hnd.1 (heq ▸ hu)
    rw [scan, resumed, turnSet, List.foldl_cons]
    cases hrec : received s.set (s.eventSet t) (s.eventInfo t) with
    | none => exact absurd hrec (received_ne_none (hinfo t List.mem_cons_self))
    | some b =>
      cases b with
      | false =>
        have hafter : afterTurn s.eventSet s.eventInfo s.set t = s.set := by
          rw [afterTurn, hrec, if_neg (by simp)]
        rw [if_neg (by simp), hafter]
        exact ih hnd.2 (fun u hu => hinfo u (List.mem_cons_of_mem t hu))
          fun u hu => hsus u (List.mem_cons_of_mem t hu)
      | true =>
        have hafter : afterTurn s.eventSet s.eventInfo s.set t =
            if s.eventInfo t &&& flagClear ≠ 0 then
              s.set &&& ~~~ saved s.set (s.eventSet t) (s.eventInfo t) else s.set := by
          rw [afterTurn, hrec]
          simp
        have hresume : s.waiters.resume t = ⟨setWaiting s.waiters.thread t false false,
            fun r => (s.waiters.list r).filter (· ≠ t)⟩ := by
          rw [Waiters.resume, if_pos (hsus t List.mem_cons_self)]
        rw [if_pos rfl, hafter]
        simp only [hresume]
        generalize (if s.eventInfo t &&& flagClear ≠ 0 then
          s.set &&& ~~~ saved s.set (s.eventSet t) (s.eventInfo t) else s.set) = left
        have hsus' : ∀ u ∈ ts, (setWaiting s.waiters.thread t false false u).suspended = true := by
          intro u hu
          simpa [hrest u hu] using hsus u (List.mem_cons_of_mem t hu)
        obtain ⟨herr, hset, hlist, hthread⟩ := ih (s := { s with
            set := left
            eventSet := Function.update s.eventSet t (saved s.set (s.eventSet t) (s.eventInfo t))
            waiters := ⟨setWaiting s.waiters.thread t false false,
              fun r => (s.waiters.list r).filter (· ≠ t)⟩ }) hnd.2
          (fun u hu => hinfo u (List.mem_cons_of_mem t hu)) hsus'
        have hsame : ∀ u ∈ ts, Function.update s.eventSet t
            (saved s.set (s.eventSet t) (s.eventInfo t)) u = s.eventSet u :=
          fun u hu => Function.update_of_ne (hrest u hu) _ _
        obtain ⟨hres, hturn⟩ := resumed_congr hsame s.eventInfo left
        rw [hturn] at hset
        rw [hres] at hlist hthread
        refine ⟨herr, hset, ?_, fun u => ?_⟩
        · rw [hlist, List.filter_filter]
          congr 1
          funext u
          by_cases hut : u = t
          · simp [hut]
          · simp [hut]
        · rw [hthread u]
          by_cases hut : u = t
          · simp [hut]
          · simp [hut]

/-! ## No missed wake-up -/

/-- Events that are not there do not come when others are cleared. -/
theorem received_shrink {wanted : EventSet} {info : Info} (mask : EventSet)
    (h : received set wanted info = some false) :
    received (set &&& mask) wanted info = some false := by
  rw [received] at h ⊢
  split at h
  · rename_i hand
    rw [if_pos hand]
    simp only [Option.some.injEq, beq_eq_false_iff_ne, ne_eq] at h ⊢
    intro heq
    refine h ?_
    rw [← heq]
    ext i hi
    simp only [BitVec.getElem_and]
    cases wanted[i] <;> cases set[i] <;> simp
  · rename_i hand
    rw [if_neg hand]
    split at h
    · rename_i hor
      rw [if_pos hor]
      simp only [Option.some.injEq, bne_eq_false_iff_eq] at h ⊢
      rw [← BitVec.and_assoc, h]
      simp
    · cases h

/-- The events of the thread are not there. -/
def Misses (s : State) (t : ThreadId) : Prop :=
  received s.set (s.eventSet t) (s.eventInfo t) = some false

theorem scan_misses {s : State} (hnd : ts.Nodup) (hinfo : ∀ t ∈ ts, Asked (s.eventInfo t))
    (hsus : ∀ t ∈ ts, (s.waiters.thread t).suspended = true)
    (hpast : ∀ t ∈ s.waiters.list (), t ∉ ts → Misses s t) :
    ∀ t ∈ (scan s ts).1.waiters.list (), Misses (scan s ts).1 t := by
  induction ts generalizing s with
  | nil => exact fun t ht => hpast t ht List.not_mem_nil
  | cons t ts ih =>
    rw [List.nodup_cons] at hnd
    have hrest : ∀ u ∈ ts, u ≠ t := fun u hu heq => hnd.1 (heq ▸ hu)
    rw [scan]
    cases hrec : received s.set (s.eventSet t) (s.eventInfo t) with
    | none => exact absurd hrec (received_ne_none (hinfo t List.mem_cons_self))
    | some b =>
      cases b with
      | false =>
        refine ih hnd.2 (fun u hu => hinfo u (List.mem_cons_of_mem t hu))
          (fun u hu => hsus u (List.mem_cons_of_mem t hu)) fun u hu hnot => ?_
        by_cases hut : u = t
        · rw [hut]
          exact hrec
        · exact hpast u hu (by simp [hut, hnot])
      | true =>
        have hresume : s.waiters.resume t = ⟨setWaiting s.waiters.thread t false false,
            fun r => (s.waiters.list r).filter (· ≠ t)⟩ := by
          rw [Waiters.resume, if_pos (hsus t List.mem_cons_self)]
        simp only [hresume]
        refine ih hnd.2 (fun u hu => hinfo u (List.mem_cons_of_mem t hu)) (fun u hu => ?_)
          fun u hu hnot => ?_
        · simpa [hrest u hu] using hsus u (List.mem_cons_of_mem t hu)
        · obtain ⟨hu, hut⟩ := List.mem_filter.mp hu
          have hut : u ≠ t := by simpa using hut
          have hmiss : Misses s u := hpast u hu (by simp [hut, hnot])
          rw [Misses] at hmiss ⊢
          simp only [Function.update_of_ne hut]
          split
          · exact received_shrink _ hmiss
          · exact hmiss

/-! ## Runs -/

def role (s : State) (t : ThreadId) : Option Unit := if s.receiving t then some () else none

structure Inv (s : State) : Prop where
  ok : s.waiters.Ok (role s)
  misses : ∀ t ∈ s.waiters.list (), Misses s t

theorem role_receiving (s : State) (t : ThreadId) (b : Bool) :
    (fun u => if Function.update s.receiving t b u then some () else none) =
      Function.update (role s) t (if b then some () else none) := by
  funext u
  by_cases hu : u = t
  · subst hu
    simp
  · simp [role, hu]

section inv

variable {s s' : State} {t : ThreadId} {ret : Option Ret}

theorem scan_ok (ts : List ThreadId) {r : ThreadId → Option Unit} (h : s.waiters.Ok r) :
    (scan s ts).1.waiters.Ok r ∧ (scan s ts).1.receiving = s.receiving := by
  induction ts generalizing s with
  | nil => exact ⟨h, rfl⟩
  | cons t ts ih =>
    rw [scan]
    split
    · exact ⟨h, rfl⟩
    · exact ih h
    · exact ih (h.resume t)

/-- What is known of the waiting threads when a scan begins. -/
theorem Inv.waiting (h : Inv s) {t : ThreadId} (ht : t ∈ s.waiters.list ()) :
    Asked (s.eventInfo t) ∧ (s.waiters.thread t).suspended = true :=
  ⟨asked_of_received (h.misses t ht), (h.ok.waits () t ht).1⟩

theorem Inv.send (h : Inv s) (set : EventSet) : Inv (rtEventSend s set).1 := by
  rw [rtEventSend]
  split
  · exact h
  · obtain ⟨hok, hrecv⟩ := scan_ok (s := { s with set := s.set ||| set }) (s.waiters.list ()) h.ok
    refine ⟨?_, ?_⟩
    · have hrole : role (scan { s with set := s.set ||| set } (s.waiters.list ())).1 = role s := by
        funext u
        rw [role, role, hrecv]
      rw [hrole]
      exact hok
    · exact scan_misses (h.ok.nodup ()) (fun t ht => (h.waiting ht).1)
        (fun t ht => (h.waiting ht).2) fun t ht hnot => absurd ht hnot

theorem Inv.recv (h : Inv s) (ht : Active s t) {option : Info} {timeout : BitVec 32}
    (hs : rtEventRecv s t set option timeout = some (s', ret)) : Inv s' := by
  have hnot := h.ok.not_mem ht.1 ()
  have hother : ∀ u ∈ s.waiters.list (), u ≠ t := by
    rintro u hu rfl
    exact hnot hu
  rw [rtEventRecv] at hs
  split at hs
  · cases hs
    exact h
  · cases hrec : received s.set set option with
    | none => simp [hrec] at hs
    | some b =>
      cases b with
      | true =>
        simp only [hrec] at hs
        cases hs
        refine ⟨h.ok.setError ht.1 .eok, fun u hu => ?_⟩
        have hut := hother u hu
        have hmiss := h.misses u hu
        rw [Misses] at hmiss ⊢
        simp only [Function.update_of_ne hut]
        split
        · exact received_shrink _ hmiss
        · exact hmiss
      | false =>
        simp only [hrec] at hs
        split at hs
        · cases hs
          exact ⟨(h.ok.setError ht.1 .eok).setError (by simpa [Waiters.setError] using ht.1) .etimeout,
            h.misses⟩
        · obtain ⟨w, hw, heq⟩ := Option.map_eq_some_iff.mp hs
          cases heq
          have hrun : ((s.waiters.setError t .eok).thread t).suspended = false := by
            simpa [Waiters.setError] using ht.1
          have hok := (h.ok.setError ht.1 .eok).block hrun hw
          refine ⟨?_, fun u hu => ?_⟩
          · have hrole := role_receiving s t true
            rw [if_pos rfl] at hrole
            rw [← hrole] at hok
            exact hok
          · obtain ⟨l, hl, rfl⟩ := Waiters.block_eq hrun hw
            simp only [Function.update_self, hl.mem_iff, List.mem_cons] at hu
            obtain rfl | hu := hu
            · simpa [Misses] using hrec
            · have hmiss := h.misses u hu
              simpa [Misses, hother u hu] using hmiss

theorem Inv.back (h : Inv s) (ht : (s.waiters.thread t).suspended = false) :
    Inv (recvReturn s t).1 := by
  refine ⟨?_, h.misses⟩
  have hok := h.ok.leave ht none
  have hrole := role_receiving s t false
  rw [if_neg (by simp)] at hrole
  rw [← hrole] at hok
  exact hok

theorem Inv.step {op : Op} (h : Inv s) (hs : call s op = some (s', ret)) : Inv s' := by
  cases op with
  | send t set =>
    simp only [call] at hs
    split at hs
    · obtain ⟨rfl, rfl⟩ := pair_inj hs
      exact h.send set
    · cases hs
  | recv t set option timeout =>
    simp only [call] at hs
    split at hs
    · exact h.recv (by assumption) hs
    · cases hs
  | recvReturn t =>
    simp only [call] at hs
    split at hs
    · rename_i ht
      cases hs
      exact h.back ht.1
    · cases hs
  | reset t =>
    simp only [call] at hs
    split at hs
    · obtain ⟨w, hw, heq⟩ := Option.map_eq_some_iff.mp hs
      cases heq
      refine ⟨h.ok.wakeAll hw, fun u hu => ?_⟩
      simp [Waiters.wakeAll_list hw] at hu
    · cases hs
  | timeout t =>
    simp only [call] at hs
    split at hs
    · cases hs
      exact ⟨h.ok.timeout t, fun u hu => h.misses u (List.mem_filter.mp hu).1⟩
    · cases hs

theorem inv_init (flag : Flag) (priority : ThreadId → Nat) : Inv (init flag priority) :=
  ⟨Waiters.ok_init priority, fun _ ht => absurd ht List.not_mem_nil⟩

end inv

/-- What `rt_event_send` does, from a state in which no waiting thread has its events. -/
structure Sent (s : State) (set : EventSet) (s' : State) (ret : Option Ret) : Prop where
  ret : ret = some ⟨.eok, none⟩
  /-- A waiting thread is resumed exactly when its events are there at its turn. -/
  turn : ∀ before t after, s.waiters.list () = before ++ t :: after →
    ((s'.waiters.thread t).suspended = false ↔
      received (turnSet s.eventSet s.eventInfo (s.set ||| set) before) (s.eventSet t)
        (s.eventInfo t) = some true)
  /-- The threads that are not resumed stay in the list in their order. -/
  list : s'.waiters.list () =
    (s.waiters.list ()).filter fun t => (s'.waiters.thread t).suspended
  /-- Events are cleared at the turns of the resumed threads that asked for it. -/
  set : s'.set = turnSet s.eventSet s.eventInfo (s.set ||| set) (s.waiters.list ())

theorem Inv.sent {s : State} (h : Inv s) (hset : set ≠ 0) :
    Sent s set (rtEventSend s set).1 (rtEventSend s set).2 := by
  obtain ⟨herr, hfinal, hlist, hthread⟩ := scan_spec (s := { s with set := s.set ||| set })
    (h.ok.nodup ()) (fun t ht => (h.waiting ht).1) fun t ht => (h.waiting ht).2
  rw [rtEventSend, if_neg hset]
  dsimp only at herr hfinal hlist hthread ⊢
  refine ⟨by rw [herr], fun before t after hl => ?_, ?_, hfinal⟩
  · have hmem : t ∈ s.waiters.list () := by rw [hl]; simp
    have hnd := h.ok.nodup ()
    rw [hl] at hnd
    rw [← mem_resumed s.eventSet s.eventInfo hnd, ← hl, hthread t, (h.waiting hmem).2]
    simp
  · rw [hlist]
    refine List.filter_congr fun t ht => ?_
    rw [hthread t, (h.waiting ht).2, Bool.and_true]

/-- Along every run no thread waits for events that are there, and a send resumes the waiting
threads whose events are there at their turn. -/
theorem no_missed_event (flag : Flag) (priority : ThreadId → Nat) (ops : List Op) (s : State)
    (hrun : Runs.run step (init flag priority) ops = some s) :
    (∀ t, (s.waiters.thread t).suspended = true → Misses s t) ∧
      ∀ t set s' ret, set ≠ 0 → call s (.send t set) = some (s', ret) → Sent s set s' ret := by
  have h : Inv s := by
    refine Runs.run_invariant (fun s op s' h hs => ?_) (inv_init flag priority) hrun
    obtain ⟨⟨s', ret⟩, hcall, rfl⟩ := Option.map_eq_some_iff.mp hs
    exact h.step hcall
  refine ⟨fun t ht => ?_, fun t set s' ret hset hcall => ?_⟩
  · obtain ⟨r, hr⟩ := h.ok.listed t ht
    exact h.misses t hr
  · simp only [call] at hcall
    split at hcall
    · obtain ⟨rfl, rfl⟩ := pair_inj hcall
      exact h.sent hset
    · cases hcall

/-- Two threads wait for the same event and ask to clear it. -/
def twoClearing : List Op :=
  [.recv 1 1 (flagOr ||| flagClear) 0xffffffff, .recv 2 1 (flagOr ||| flagClear) 0xffffffff]

theorem no_missed_event_cleared :
    ∃ s, Runs.run step (init .fifo fun t => t) twoClearing = some s ∧
      ∃ s' ret, call s (.send 3 1) = some (s', ret) ∧ Sent s 1 s' ret ∧
        s'.waiters.list () = [2] ∧ s'.set = 0 := by
  have hlast : ((Runs.run step (init .fifo fun t => t) twoClearing).bind fun s =>
      (call s (.send 3 1)).map fun r => (r.1.waiters.list (), r.1.set)) = some ([2], 0) := by
    decide +kernel
  obtain ⟨s, hrun, hlast⟩ := Option.bind_eq_some_iff.mp hlast
  obtain ⟨⟨s', ret⟩, hcall, hs⟩ := Option.map_eq_some_iff.mp hlast
  simp only [Prod.mk.injEq] at hs
  exact ⟨s, hrun, s', ret, hcall,
    (no_missed_event .fifo (fun t => t) twoClearing s hrun).2 3 1 s' ret (by decide) hcall, hs⟩

/-- The scan with the events cleared behind it only: the second thread would be resumed, too. -/
theorem event_not_kept_for_next :
    ∃ s, Runs.run step (init .fifo fun t => t) twoClearing = some s ∧
      received (s.set ||| 1) (s.eventSet 2) (s.eventInfo 2) = some true ∧
      ∃ s' ret, call s (.send 3 1) = some (s', ret) ∧ (s'.waiters.thread 2).suspended = true := by
  have hlast : ((Runs.run step (init .fifo fun t => t) twoClearing).bind fun s =>
      (call s (.send 3 1)).map fun r =>
        (received (s.set ||| 1) (s.eventSet 2) (s.eventInfo 2),
          (r.1.waiters.thread 2).suspended)) = some (some true, true) := by
    decide +kernel
  obtain ⟨s, hrun, hlast⟩ := Option.bind_eq_some_iff.mp hlast
  obtain ⟨⟨s', ret⟩, hcall, hs⟩ := Option.map_eq_some_iff.mp hlast
  simp only [Prod.mk.injEq] at hs
  exact ⟨s, hrun, hs.1, s', ret, hcall, hs.2⟩

end RtThread.Event
