import RtThread.Lib.Runs
import RtThread.Waiters

/-!
# Completions

`rt_completion_wait` and `rt_completion_done`. A wait that has to be suspended is three
steps: up to the switch, the reading of the error number after the switch back, and the
section that clears the flag. `rt_completion_done` tests the flag before its section, and
is two steps. A call made from an interrupt is the call of a thread of its own.

One thread waits at a time. What the callers see is the history of a box with one
place: a done puts an event into the empty box, a wait that returns `RT_EOK` takes it
out, and a wait that fails leaves the box alone.
-/
namespace RtThread.Completion

open Ipc

/-- How far a suspended call of `rt_completion_wait` has got. -/
inductive Stage where
  | switched
  | woken (result : RtErr)
  deriving DecidableEq

structure State where
  /-- `flag` is `RT_COMPLETED`. -/
  flag : Bool
  waiters : Waiters Unit
  /-- The call of `rt_completion_wait` that has been suspended and has not returned. -/
  waiting : Option (ThreadId × Stage)
  /-- The threads that have found the flag unset in `rt_completion_done`, before its section. -/
  entering : ThreadId → Bool

inductive Event where
  /-- `rt_completion_done` records its event. -/
  | done
  | returned (result : RtErr)
  deriving DecidableEq

/-- `rt_completion_init`, over started threads. -/
def init (priority : ThreadId → Nat) : State :=
  ⟨false, .init priority, none, fun _ => false⟩

/-- `rt_completion_wait` up to its return or to the switch. -/
def rtCompletionWait (s : State) (t : ThreadId) (timeout : BitVec 32) :
    Option (State × Option Event) :=
  if s.flag then some ({ s with flag := false }, some (.returned .eok))
  else if s.waiters.list () ≠ [] then none
  else if timeout = 0 then some (s, some (.returned .etimeout))
  else
    (s.waiters.block .fifo () t timeout).map fun w =>
      ({ s with waiters := w, waiting := some (t, .switched) }, none)

/-- The section of `rt_completion_done`. -/
def doneSection (s : State) (t : ThreadId) : State × Option Event :=
  ({ s with
      flag := true
      waiters := s.waiters.wake ()
      entering := Function.update s.entering t false }, some .done)

/-- The steps of a run. -/
inductive Op where
  | wait (t : ThreadId) (timeout : BitVec 32)
  | readError (t : ThreadId)
  | clear (t : ThreadId)
  | done (t : ThreadId)
  | doneSection (t : ThreadId)
  | timeout (t : ThreadId)
  deriving DecidableEq

/-- The thread runs, outside of the functions of the completion. -/
def Active (s : State) (t : ThreadId) : Prop :=
  (s.waiters.thread t).suspended = false ∧ s.entering t = false ∧
    s.waiting.map Prod.fst ≠ some t

instance (s : State) (t : ThreadId) : Decidable (Active s t) :=
  inferInstanceAs (Decidable (_ ∧ _))

/-- One step, with what the callers see of it. -/
def call (s : State) : Op → Option (State × Option Event)
  | .wait t timeout =>
    if Active s t ∧ s.waiting = none then rtCompletionWait s t timeout else none
  | .readError t =>
    if s.waiting = some (t, .switched) ∧ (s.waiters.thread t).suspended = false then
      some ({ s with waiting := some (t, .woken (s.waiters.thread t).error) }, none)
    else none
  | .clear t =>
    match s.waiting with
    | some (u, .woken result) =>
      if u = t then some ({ s with flag := false, waiting := none }, some (.returned result))
      else none
    | _ => none
  | .done t =>
    if Active s t then
      if s.flag then some (s, none)
      else some ({ s with entering := Function.update s.entering t true }, none)
    else none
  | .doneSection t => if s.entering t then some (doneSection s t) else none
  | .timeout t =>
    if (s.waiters.thread t).timerActive then
      some ({ s with waiters := s.waiters.timeout t }, none)
    else none

/-- A state with what the callers have seen so far. -/
structure Traced where
  state : State
  history : List Event

def step (x : Traced) (op : Op) : Option Traced :=
  (call x.state op).map fun r => ⟨r.1, x.history ++ r.2.toList⟩

/-! ## The box -/

/-- The box after an event; there is none when a done finds the box full, or a wait that returns
`RT_EOK` finds it empty. -/
def box : Bool → Event → Option Bool
  | false, .done => some true
  | true, .returned .eok => some false
  | full, .returned err => if err = .eok then none else some full
  | true, .done => none

/-- The wait has been given up, and has not returned. -/
def expired (s : State) : Bool :=
  match s.waiting with
  | none => false
  | some (t, .switched) =>
    !(s.waiters.thread t).suspended && decide ((s.waiters.thread t).error ≠ .eok)
  | some (_, .woken result) => decide (result ≠ .eok)

/-- The section of a done begins with the flag unset and no wait that has been given up on its
way out. -/
def Timely (x : Traced) : Op → Prop
  | .doneSection _ => x.state.flag = false ∧ expired x.state = false
  | _ => True

instance (x : Traced) : (op : Op) → Decidable (Timely x op)
  | .doneSection _ => inferInstanceAs (Decidable (_ ∧ _))
  | .wait _ _ | .readError _ | .clear _ | .done _ | .timeout _ => .isTrue trivial

/-! ## Steps -/

def role (s : State) (t : ThreadId) : Option Unit :=
  match s.waiting with
  | none => none
  | some (u, _) => if t = u then some () else none

/-- The flag is unset while a thread is suspended, and set when it has been woken by a done. -/
def Agrees (s : State) : Prop :=
  match s.waiting with
  | none => True
  | some (t, .switched) =>
    if (s.waiters.thread t).suspended then s.flag = false
    else s.flag = decide ((s.waiters.thread t).error = .eok)
  | some (t, .woken result) =>
    (s.waiters.thread t).suspended = false ∧ s.flag = decide (result = .eok)

structure Inv (x : Traced) : Prop where
  ok : x.state.waiters.Ok (role x.state)
  agrees : Agrees x.state
  legal : Runs.run box false x.history = some x.state.flag

theorem legal_append {history : List Event} {full full' : Bool} {e : Event}
    (h : Runs.run box false history = some full) (he : box full e = some full') :
    Runs.run box false (history ++ [e]) = some full' := by
  rw [Runs.run_append, h, Option.bind_some, Runs.run_cons, he, Option.bind_some, Runs.run_nil]

section steps

variable {s : State} {history : List Event} {t : ThreadId}

section

variable (h : Inv ⟨s, history⟩)
include h

/-- A thread that is in the list is the one that waits, and it has not been woken. -/
theorem Inv.listed {u : ThreadId} {us : List ThreadId} (hl : s.waiters.list () = u :: us) :
    us = [] ∧ ∃ stage, s.waiting = some (u, stage) ∧ (s.waiters.thread u).suspended = true := by
  have hwaits : ∀ v ∈ s.waiters.list (), ∃ stage, s.waiting = some (v, stage) ∧
      (s.waiters.thread v).suspended = true := by
    intro v hv
    obtain ⟨hsus, -, hrole⟩ := h.ok.waits () v hv
    rw [role] at hrole
    cases hw : s.waiting with
    | none => simp [hw] at hrole
    | some p =>
      obtain ⟨u, stage⟩ := p
      have huv : v = u := by
        by_contra hne
        simp [hw, hne] at hrole
      exact ⟨stage, by rw [huv], hsus⟩
  obtain ⟨stage, hstage, hsus⟩ := hwaits u (by simp [hl])
  refine ⟨?_, stage, hstage, hsus⟩
  cases us with
  | nil => rfl
  | cons v us =>
    obtain ⟨stage', hstage', -⟩ := hwaits v (by simp [hl])
    have huv : u = v := by
      rw [hstage] at hstage'
      exact (pair_inj hstage').1
    have hnd : (s.waiters.list ()).Nodup := h.ok.nodup ()
    rw [hl, List.nodup_cons] at hnd
    exact absurd List.mem_cons_self (huv ▸ hnd.1)

theorem Inv.suspended (ht : (s.waiters.thread t).suspended = true) :
    s.waiters.list () = [t] ∧ s.waiting = some (t, .switched) ∧ s.flag = false := by
  obtain ⟨r, hr⟩ := h.ok.listed t ht
  have hmem : t ∈ s.waiters.list () := hr
  obtain ⟨u, us, hl⟩ := List.exists_cons_of_ne_nil (List.ne_nil_of_mem hmem)
  obtain ⟨rfl, stage, hstage, -⟩ := h.listed hl
  obtain rfl : t = u := by simpa [hl] using hmem
  have hagrees : Agrees s := h.agrees
  simp only [Agrees, hstage] at hagrees
  cases stage with
  | switched => exact ⟨hl, hstage, by simpa [ht] using hagrees⟩
  | woken result => simp [ht] at hagrees

/-- The flag is set while no wait is on its way out with it. -/
theorem Inv.take (hnone : s.waiting = none) (hflag : s.flag = true) :
    Inv ⟨{ s with flag := false }, history ++ [.returned .eok]⟩ := by
  have hlegal : Runs.run box false history = some s.flag := h.legal
  rw [hflag] at hlegal
  refine ⟨h.ok, ?_, legal_append hlegal rfl⟩
  simp [Agrees, hnone]

theorem Inv.refused (hflag : s.flag = false) : Inv ⟨s, history ++ [.returned .etimeout]⟩ := by
  have hlegal : Runs.run box false history = some s.flag := h.legal
  refine ⟨h.ok, h.agrees, legal_append hlegal ?_⟩
  rw [hflag]
  rfl

theorem Inv.block (hnone : s.waiting = none) (hflag : s.flag = false)
    (ht : (s.waiters.thread t).suspended = false) {timeout : BitVec 32} {w : Waiters Unit}
    (hw : s.waiters.block .fifo () t timeout = some w) :
    Inv ⟨{ s with waiters := w, waiting := some (t, .switched) }, history⟩ := by
  have hok : w.Ok (Function.update (role s) t (some ())) := h.ok.block ht hw
  refine ⟨?_, ?_, h.legal⟩
  · have hrole : role { s with waiters := w, waiting := some (t, .switched) } =
        Function.update (role s) t (some ()) := by
      funext u
      by_cases hu : u = t
      · simp [role, hu]
      · simp [role, hu, hnone]
    rw [hrole]
    exact hok
  · obtain ⟨l, -, rfl⟩ := Waiters.block_eq ht hw
    simpa [Agrees] using hflag

theorem Inv.readError (hw : s.waiting = some (t, .switched))
    (ht : (s.waiters.thread t).suspended = false) :
    Inv ⟨{ s with waiting := some (t, .woken (s.waiters.thread t).error) }, history⟩ := by
  have hagrees : Agrees s := h.agrees
  have hok : s.waiters.Ok (role s) := h.ok
  refine ⟨?_, ?_, h.legal⟩
  · have hrole : role { s with waiting := some (t, .woken (s.waiters.thread t).error) } =
        role s := by
      funext u
      simp only [role, hw]
    rw [hrole]
    exact hok
  · simp only [Agrees, hw, ht, Bool.false_eq_true, if_false] at hagrees
    exact ⟨ht, hagrees⟩

theorem Inv.clear {result : RtErr} (hw : s.waiting = some (t, .woken result)) :
    Inv ⟨{ s with flag := false, waiting := none }, history ++ [.returned result]⟩ := by
  have hagrees : Agrees s := h.agrees
  have hlegal : Runs.run box false history = some s.flag := h.legal
  simp only [Agrees, hw] at hagrees
  refine ⟨?_, trivial, legal_append hlegal ?_⟩
  · have hrole : role { s with flag := false, waiting := none } =
        Function.update (role s) t none := by
      funext u
      by_cases hu : u = t
      · simp [role, hu]
      · simp [role, hu, hw]
    rw [hrole]
    exact h.ok.leave hagrees.1 none
  · rw [hagrees.2]
    cases result <;> rfl

/-- The event of a done goes to the thread that waits, or stays in the flag. -/
theorem Inv.done (hflag : s.flag = false) (hexp : expired s = false) (entering : ThreadId → Bool) :
    Inv ⟨{ s with flag := true, waiters := s.waiters.wake (), entering := entering },
      history ++ [.done]⟩ := by
  have hagrees : Agrees s := h.agrees
  have hok : s.waiters.Ok (role s) := h.ok
  have hlegal : Runs.run box false history = some s.flag := h.legal
  rw [hflag] at hlegal
  refine ⟨hok.wake (), ?_, legal_append hlegal rfl⟩
  cases hl : s.waiters.list () with
  | nil =>
    have hsus : ∀ t, (s.waiters.thread t).suspended = false := by
      intro t
      by_contra ht
      simp [(h.suspended (by simpa using ht)).1] at hl
    cases hw : s.waiting with
    | none => simp [Agrees]
    | some p =>
      obtain ⟨t, stage⟩ := p
      cases stage with
      | switched =>
        simp only [Agrees, hw, hsus, Bool.false_eq_true, if_false] at hagrees
        simp only [expired, hw, hsus, Bool.not_false, Bool.true_and, decide_eq_false_iff_not,
          not_not] at hexp
        simp [hexp, hflag] at hagrees
      | woken result =>
        simp only [Agrees, hw] at hagrees
        simp only [expired, hw, decide_eq_false_iff_not, not_not] at hexp
        simp [hexp, hflag] at hagrees
  | cons u us =>
    obtain ⟨-, stage, -, hsus⟩ := h.listed hl
    have hw := (h.suspended hsus).2.1
    have herr := (hok.waits () u (by simp [hl])).2.1
    rw [hok.wake_cons hl]
    simp [Agrees, hw, herr]

theorem Inv.timeout (ht : (s.waiters.thread t).timerActive = true) :
    Inv ⟨{ s with waiters := s.waiters.timeout t }, history⟩ := by
  obtain ⟨-, hw, hflag⟩ := h.suspended (h.ok.timer t ht)
  refine ⟨h.ok.timeout t, ?_, h.legal⟩
  simp [Agrees, hw, hflag, Waiters.timeout, threadTimeout]

end

theorem step_inv {x x' : Traced} {op : Op} (h : Inv x) (hok : Timely x op)
    (hs : step x op = some x') : Inv x' := by
  obtain ⟨s, history⟩ := x
  obtain ⟨⟨s', e⟩, hcall, rfl⟩ := Option.map_eq_some_iff.mp hs
  cases op with
  | wait t timeout =>
    simp only [call] at hcall
    split at hcall
    · rename_i hact
      rw [rtCompletionWait] at hcall
      split at hcall
      · cases hcall
        exact h.take hact.2 (by assumption)
      · rename_i hflag
        have hflag : s.flag = false := by simpa using hflag
        split at hcall
        · cases hcall
        · split at hcall
          · cases hcall
            exact h.refused hflag
          · obtain ⟨w, hw, heq⟩ := Option.map_eq_some_iff.mp hcall
            cases heq
            simpa using h.block hact.2 hflag hact.1.1 hw
    · cases hcall
  | readError t =>
    simp only [call] at hcall
    split at hcall
    · rename_i hact
      cases hcall
      simpa using h.readError hact.1 hact.2
    · cases hcall
  | clear t =>
    simp only [call] at hcall
    split at hcall
    · rename_i u result hw
      split at hcall
      · cases hcall
        exact h.clear hw
      · cases hcall
    · cases hcall
  | done t =>
    simp only [call] at hcall
    split at hcall
    · split at hcall
      · cases hcall
        simpa using h
      · cases hcall
        exact ⟨h.ok, h.agrees, by simpa using h.legal⟩
    · cases hcall
  | doneSection t =>
    simp only [call] at hcall
    split at hcall
    · cases hcall
      exact h.done hok.1 hok.2 _
    · cases hcall
  | timeout t =>
    simp only [call] at hcall
    split at hcall
    · cases hcall
      simpa using h.timeout (by assumption)
    · cases hcall

end steps

/-! ## Runs -/

theorem inv_init (priority : ThreadId → Nat) : Inv ⟨init priority, []⟩ where
  ok := Waiters.ok_init priority
  agrees := trivial
  legal := rfl

/-- In every run of timely steps the callers see the history of a box, and the flag says whether
there is an event in it: each event of a done is taken by one wait that returns `RT_EOK` or is
still there, and a wait that fails takes none. -/
theorem completion_conserves (priority : ThreadId → Nat) (ops : List Op) (x : Traced)
    (hok : Runs.Along step Timely ⟨init priority, []⟩ ops)
    (hrun : Runs.run step ⟨init priority, []⟩ ops = some x) :
    Runs.run box false x.history = some x.state.flag :=
  (Runs.run_invariant_along (fun _ _ _ h hok hs => step_inv h hok hs) (inv_init priority) hok
    hrun).legal

/-- A done wakes a waiting thread, and another one stays in the flag while the timer of a second
wait expires before it. -/
def doneForTwo : List Op :=
  [.wait 1 10, .done 2, .doneSection 2, .readError 1, .clear 1, .wait 1 10, .timeout 1,
    .readError 1, .clear 1, .done 2, .doneSection 2]

theorem completion_conserves_two : Runs.Along step Timely ⟨init fun t => t, []⟩ doneForTwo ∧
      ∃ x, Runs.run step ⟨init fun t => t, []⟩ doneForTwo = some x ∧
        x.history = [.done, .returned .eok, .returned .etimeout, .done] ∧
        Runs.run box false x.history = some x.state.flag := by
  have hok : Runs.Along step Timely ⟨init fun t => t, []⟩ doneForTwo := by decide +kernel
  have hlast : (Runs.run step ⟨init fun t => t, []⟩ doneForTwo).map (·.history) =
      some [.done, .returned .eok, .returned .etimeout, .done] := by decide +kernel
  obtain ⟨x, hrun, hx⟩ := Option.map_eq_some_iff.mp hlast
  exact ⟨hok, x, hrun, hx, completion_conserves (fun t => t) doneForTwo x hok hrun⟩

/-- The timer of the waiting thread expires, and a done lands before the thread runs: the wait
returns `-RT_ETIMEOUT` and clears the flag. -/
def lateDone : List Op := [.wait 1 10, .timeout 1, .done 2, .doneSection 2, .readError 1, .clear 1]

theorem late_done_lost : ∃ x, Runs.run step ⟨init fun t => t, []⟩ lateDone = some x ∧
      x.history = [.done, .returned .etimeout] ∧ x.state.flag = false ∧
      Runs.run box false x.history ≠ some x.state.flag := by
  have hlast : (Runs.run step ⟨init fun t => t, []⟩ lateDone).map
      (fun x => (x.history, x.state.flag)) = some ([.done, .returned .etimeout], false) := by
    decide +kernel
  obtain ⟨x, hrun, hx⟩ := Option.map_eq_some_iff.mp hlast
  simp only [Prod.mk.injEq] at hx
  refine ⟨x, hrun, hx.1, hx.2, ?_⟩
  rw [hx.1, hx.2]
  decide

end RtThread.Completion
