import RtThread.Timer

/-!
# The loop of a timer check

`rt_timer_check` and `rt_soft_timer_check` read the first timer of the list again in every
turn. A turn unlinks an expired timer, calls its timeout function and starts a periodic timer
again. While the callbacks start no timer and the tick stands still, every turn leaves fewer
expired timers in the list, except for one that restarts a timer with a period of zero.
-/
namespace RtThread.Timer

/-- One turn of the loop, with the steps made while the callback runs; `none` when the loop ends
or an assertion fails in the callback. -/
def checkTurn (c : Config) (k : ListKind) (s : State) (body : List Event) :
    Option (TimerId × State) :=
  (timerCheckPop c s k).bind fun (s₁, t) =>
    (Runs.run (step c) s₁ body).map fun s₂ => (t, timerCheckFinish c s₂ k t)

/-- The state after some turns; the body of each callback is given by the number of its turn. -/
def turns (c : Config) (k : ListKind) (callbacks : Nat → List Event) (s : State) :
    Nat → Option State
  | 0 => some s
  | n + 1 => (turns c k callbacks s n).bind fun s' => (checkTurn c k s' (callbacks n)).map Prod.snd

/-- The timer is started again behind its callback. -/
def Restarts (s : State) (k : ListKind) (t : TimerId) : Prop :=
  s.pending k ≠ [] ∧ (s.timer t).periodic = true ∧ (s.timer t).activated = true

/-- The turn starts a timer again whose period is zero. -/
def ZeroRestart (c : Config) (k : ListKind) (s : State) (body : List Event) : Prop :=
  ∃ s₁ t s₂, timerCheckPop c s k = some (s₁, t) ∧ Runs.run (step c) s₁ body = some s₂ ∧
    Restarts s₂ k t ∧ (s₂.timer t).initTick = 0

/-- What a callback may do that starts no timer, while the tick stands still. -/
def Quiet : Event → Prop
  | .stop _ | .detach _ | .control _ _ => True
  | .start _ | .tickIncrease | .checkPop _ | .checkFinish _ => False

/-- Every period is one that the code accepts. -/
def Accepted (s : State) : Prop := ∀ t, (s.timer t).initTick.toNat < rtTickMaxHalf

/-- The timer has expired. -/
def due (s : State) (u : TimerId) : Bool :=
  decide ((s.tick - (s.timer u).timeoutTick).toNat < rtTickMaxHalf)

/-- The expired timers of a list. -/
def dueCount (c : Config) (k : ListKind) (s : State) : Nat :=
  (s.rows k (c.level - 1)).countP (due s)

/-! ## The two parts of a turn -/

/-- The expired timer moves to the temporary list, and its callback runs. -/
def expired (s : State) (k : ListKind) (t : TimerId) : State :=
  { setTimer (timerRemove s t) t { s.timer t with
      activated := (s.timer t).activated && (s.timer t).periodic } with
    pending := Function.update (timerRemove s t).pending k (t :: (timerRemove s t).pending k)
    inCallback := Function.update s.inCallback k (some t) }

/-- The timer whose callback has returned leaves the temporary list. -/
def returned (s : State) (k : ListKind) (t : TimerId) : State :=
  { s with pending := Function.update s.pending k ((s.pending k).filter (· ≠ t))
           inCallback := Function.update s.inCallback k none }

/-- A periodic timer that is not stopped is put down to be started again. -/
def settled (s : State) (k : ListKind) (t : TimerId) : State :=
  setTimer (returned s k t) t { s.timer t with activated := false }

theorem timerCheckPop_some {c : Config} {s s' : State} {k : ListKind} {t : TimerId} :
    timerCheckPop c s k = some (s', t) ↔
      (∃ rest, s.rows k (c.level - 1) = t :: rest) ∧ due s t = true ∧ s' = expired s k t := by
  rw [timerCheckPop, due, decide_eq_true_eq]
  constructor
  · intro h
    split at h
    case h_1 => cases h
    case h_2 u rest hrow =>
      obtain ⟨hdue, rfl, rfl⟩ := guarded_inj h
      exact ⟨⟨rest, hrow⟩, hdue, rfl⟩
  · rintro ⟨⟨rest, hrow⟩, hdue, rfl⟩
    rw [hrow]
    exact if_pos hdue

theorem timerCheckPop_none {c : Config} {s : State} {k : ListKind} :
    timerCheckPop c s k = none ↔
      ∀ t, (∃ rest, s.rows k (c.level - 1) = t :: rest) → due s t = false := by
  constructor
  · rintro h t hrow
    by_contra hdue
    rw [timerCheckPop_some.mpr ⟨hrow, by simpa using hdue, rfl⟩] at h
    cases h
  · intro h
    by_contra hsome
    obtain ⟨⟨s', t⟩, hpop⟩ := Option.ne_none_iff_exists'.mp hsome
    obtain ⟨hrow, hdue, -⟩ := timerCheckPop_some.mp hpop
    rw [h t hrow] at hdue
    cases hdue

theorem finish_restarts {c : Config} {s : State} {k : ListKind} {t : TimerId}
    (h : Restarts s k t) : timerCheckFinish c s k t =
      rtTimerStart c (settled s k t) t := by
  obtain ⟨hpending, hperiodic, hactivated⟩ := h
  rw [timerCheckFinish]
  rw [if_neg hpending]
  exact if_pos (Bool.and_eq_true_iff.mpr ⟨hperiodic, hactivated⟩)

theorem finish_leaves {c : Config} {s : State} {k : ListKind} {t : TimerId}
    (h : ¬ Restarts s k t) : timerCheckFinish c s k t = returned s k t := by
  rw [timerCheckFinish]
  split
  case isTrue hpending =>
    have hsame : Function.update s.pending k ((s.pending k).filter (· ≠ t)) = s.pending := by
      rw [hpending, List.filter_nil, ← hpending, Function.update_eq_self]
    rw [returned, hsame]
  case isFalse hpending =>
    rw [if_neg]
    · rfl
    · intro hrestart
      exact h ⟨hpending, Bool.and_eq_true_iff.mp hrestart⟩

/-! ## The turns of a loop -/

variable {callbacks : Nat → List Event} {n : Nat} {e : Event} {es : List Event}

theorem turns_none {c : Config} {k : ListKind} {s : State} (h : turns c k callbacks s n = none)
    (m : Nat) : turns c k callbacks s (n + m) = none := by
  induction m with
  | zero => exact h
  | succ m ih =>
    rw [Nat.add_succ, turns, ih]
    rfl

/-! ## Periods -/

theorem initTick_setTimer {s : State} {t : TimerId} {x : RtTimer} (h : Accepted s)
    (hx : x.initTick.toNat < rtTickMaxHalf) : Accepted (setTimer s t x) := by
  intro u
  by_cases hu : u = t
  · simpa [setTimer, hu] using hx
  · simpa [setTimer, hu] using h u

theorem initTick_start (c : Config) (s : State) (t u : TimerId) :
    ((rtTimerStart c s t).timer u).initTick = (s.timer u).initTick := by
  by_cases hu : u = t
  · simp [rtTimerStart, setTimer, timerRemove, hu]
  · simp [rtTimerStart, setTimer, timerRemove, hu]

theorem accepted_pop {c : Config} {s s' : State} {k : ListKind} {t : TimerId} (h : Accepted s)
    (hs : timerCheckPop c s k = some (s', t)) : Accepted s' := by
  obtain ⟨-, -, rfl⟩ := timerCheckPop_some.mp hs
  exact initTick_setTimer h (h t)

theorem accepted_finish {c : Config} {s : State} (k : ListKind) (t : TimerId) (h : Accepted s) :
    Accepted (timerCheckFinish c s k t) := by
  by_cases hrestarts : Restarts s k t
  · rw [finish_restarts hrestarts]
    have hsettled : Accepted (settled s k t) := initTick_setTimer (s := returned s k t) h (h t)
    intro u
    rw [initTick_start]
    exact hsettled u
  · rw [finish_leaves hrestarts]
    exact h

/-- No function stores a period that it would not accept. -/
theorem accepted_step {c : Config} {s s' : State} (h : Accepted s) (hs : step c s e = some s') :
    Accepted s' := by
  cases e with
  | start t =>
    cases hs
    intro u
    rw [initTick_start]
    exact h u
  | stop t =>
    cases hs
    rw [rtTimerStop]
    split
    · exact initTick_setTimer h (h t)
    · exact h
  | detach t =>
    cases hs
    exact initTick_setTimer h (h t)
  | control t cmd =>
    obtain ⟨r, hr, rfl⟩ := Option.map_eq_some_iff.mp hs
    cases cmd with
    | setTime time =>
      obtain ⟨htime, hr⟩ := Option.ite_none_right_eq_some.mp hr
      cases hr
      exact initTick_setTimer h htime
    | setOneshot | setPeriodic =>
      cases hr
      exact initTick_setTimer h (h t)
    | getTime | getState | getRemainTime =>
      cases hr
      exact h
  | tickIncrease =>
    cases hs
    exact h
  | checkPop k =>
    obtain ⟨-, hs⟩ := Option.ite_none_right_eq_some.mp hs
    obtain ⟨r, hr, rfl⟩ := Option.map_eq_some_iff.mp hs
    exact accepted_pop h hr
  | checkFinish k =>
    obtain ⟨t, -, rfl⟩ := Option.map_eq_some_iff.mp hs
    exact accepted_finish k t h

theorem accepted_run {c : Config} {s s' : State} (h : Accepted s)
    (hrun : Runs.run (step c) s es = some s') : Accepted s' :=
  Runs.run_invariant (fun _ _ _ h hs => accepted_step h hs) h hrun

/-! ## The expired timers of a list -/

/-- A row that loses timers, with no deadline changed, loses no timer that is not expired. -/
theorem dueCount_filter {c : Config} {k : ListKind} {s s' : State} (p : TimerId → Bool)
    (hrow : s'.rows k (c.level - 1) = (s.rows k (c.level - 1)).filter p)
    (hdue : ∀ u, p u = true → due s' u = due s u) : dueCount c k s' ≤ dueCount c k s := by
  rw [dueCount, dueCount, hrow, List.countP_filter]
  refine List.countP_mono_left fun u _ hu => ?_
  obtain ⟨hd, hp⟩ : due s' u = true ∧ p u = true := by simpa using hu
  rw [← hdue u hp]
  exact hd

theorem dueCount_quiet {c : Config} {k : ListKind} {s s' : State} (he : Quiet e)
    (hs : step c s e = some s') : dueCount c k s' ≤ dueCount c k s := by
  have htimer : ∀ t x, x.timeoutTick = (s.timer t).timeoutTick → ∀ u,
      due (setTimer s t x) u = due s u := by
    intro t x hx u
    by_cases hu : u = t
    · simp [due, setTimer, hu, hx]
    · simp [due, setTimer, hu]
  have hset : ∀ t x, x.timeoutTick = (s.timer t).timeoutTick →
      dueCount c k (setTimer s t x) ≤ dueCount c k s := fun t x hx =>
    dueCount_filter (fun _ => true) (by simp [setTimer]) (fun u _ => htimer t x hx u)
  have hremove : ∀ t x, x.timeoutTick = (s.timer t).timeoutTick →
      dueCount c k (setTimer (timerRemove s t) t x) ≤ dueCount c k s := fun t x hx =>
    dueCount_filter (· ≠ t) rfl (fun u _ => htimer t x hx u)
  cases e with
  | start | tickIncrease | checkPop | checkFinish => exact absurd he id
  | stop t =>
    cases hs
    rw [rtTimerStop]
    split
    · exact hremove t _ rfl
    · exact le_refl _
  | detach t =>
    cases hs
    exact hremove t _ rfl
  | control t cmd =>
    obtain ⟨r, hr, rfl⟩ := Option.map_eq_some_iff.mp hs
    cases cmd with
    | setTime time =>
      obtain ⟨-, hr⟩ := Option.ite_none_right_eq_some.mp hr
      cases hr
      exact hset t _ rfl
    | setOneshot | setPeriodic =>
      cases hr
      exact hset t _ rfl
    | getTime | getState | getRemainTime =>
      cases hr
      exact le_refl _

theorem dueCount_run {c : Config} {k : ListKind} {s s' : State} (hquiet : ∀ e ∈ es, Quiet e)
    (hrun : Runs.run (step c) s es = some s') : dueCount c k s' ≤ dueCount c k s := by
  induction es generalizing s with
  | nil =>
    cases hrun
    exact le_refl _
  | cons e es ih =>
    obtain ⟨mid, he, hrun⟩ := Runs.run_cons_some.mp hrun
    have hfirst := dueCount_quiet (k := k) (hquiet e List.mem_cons_self) he
    have hrest := ih (fun e' he' => hquiet e' (List.mem_cons_of_mem e he')) hrun
    omega

/-- The first timer has expired and leaves the list. -/
theorem dueCount_pop {c : Config} {s s' : State} {k : ListKind} {t : TimerId}
    (hs : timerCheckPop c s k = some (s', t)) : dueCount c k s' < dueCount c k s := by
  obtain ⟨⟨rest, hrow⟩, hdue, rfl⟩ := timerCheckPop_some.mp hs
  have hleft : (expired s k t).rows k (c.level - 1) = rest.filter (· ≠ t) := by
    have hfilter : (expired s k t).rows k (c.level - 1) =
        (s.rows k (c.level - 1)).filter (· ≠ t) := rfl
    rw [hfilter, hrow, List.filter_cons_of_neg (by simp)]
  rw [dueCount, dueCount, hrow, List.countP_cons_of_pos hdue, hleft, List.countP_filter]
  refine Nat.lt_succ_of_le (List.countP_mono_left fun u _ hu => ?_)
  obtain ⟨hd, hne⟩ : due (expired s k t) u = true ∧ u ≠ t := by simpa using hu
  simpa [due, expired, setTimer, timerRemove, hne] using hd

theorem countP_insertAfter {p : TimerId → Bool} {t : TimerId} (ht : p t = false)
    (head : Option TimerId) (row : List TimerId) :
    (insertAfter head t row).countP p = row.countP p := by
  cases head with
  | none => rw [insertAfter, List.countP_cons_of_neg (by simp [ht])]
  | some x =>
    induction row with
    | nil => rfl
    | cons y row ih =>
      rw [insertAfter]
      split
      · rw [List.countP_cons, List.countP_cons_of_neg (by simp [ht]), List.countP_cons]
      · rw [List.countP_cons, ih, List.countP_cons]

/-- A deadline that is one accepted period ahead is not reached. -/
theorem not_due_start {c : Config} {s : State} {t : TimerId} (h : Accepted s)
    (hzero : (s.timer t).initTick ≠ 0) : due (rtTimerStart c s t) t = false := by
  have hlt := h t
  have hpos : (s.timer t).initTick.toNat ≠ 0 := fun heq => hzero (BitVec.eq_of_toNat_eq heq)
  have htick : (rtTimerStart c s t).tick = s.tick := rfl
  have hdeadline : ((rtTimerStart c s t).timer t).timeoutTick = s.tick + (s.timer t).initTick := by
    simp [rtTimerStart, setTimer, timerRemove]
  have hback : s.tick - (s.tick + (s.timer t).initTick) = 0 - (s.timer t).initTick := by
    rw [sub_add_cancel_left, zero_sub]
  rw [due, htick, hdeadline, hback, decide_eq_false_iff_not, BitVec.toNat_sub]
  rw [rtTickMaxHalf] at hlt ⊢
  simp only [BitVec.ofNat_eq_ofNat, BitVec.toNat_ofNat]
  omega

theorem dueCount_start {c : Config} {s : State} {t : TimerId} (k : ListKind) (h : Accepted s)
    (hzero : (s.timer t).initTick ≠ 0) : dueCount c k (rtTimerStart c s t) ≤ dueCount c k s := by
  have hself := not_due_start (c := c) h hzero
  have hother : ∀ u, u ≠ t → due (rtTimerStart c s t) u = due s u := by
    intro u hu
    simp [due, rtTimerStart, setTimer, timerRemove, hu]
  have hrow : ((rtTimerStart c s t).rows k (c.level - 1)).countP (due (rtTimerStart c s t)) =
      ((s.rows k (c.level - 1)).filter (· ≠ t)).countP (due (rtTimerStart c s t)) := by
    by_cases hk : k = (s.timer t).kind
    · subst hk
      rw [show (rtTimerStart c s t).rows (s.timer t).kind (c.level - 1) = Function.update
        (timerRemove s t).rows (s.timer t).kind _ (s.timer t).kind (c.level - 1) from rfl,
        Function.update_self]
      split
      · exact countP_insertAfter hself _ _
      · rfl
    · have hkeep : (rtTimerStart c s t).rows k = (timerRemove s t).rows k :=
        Function.update_of_ne hk _ _
      rw [hkeep, timerRemove]
  rw [dueCount, dueCount, hrow, List.countP_filter]
  refine List.countP_mono_left fun u _ hu => ?_
  obtain ⟨hd, hne⟩ : due (rtTimerStart c s t) u = true ∧ u ≠ t := by simpa using hu
  rw [← hother u hne]
  exact hd

theorem dueCount_finish {c : Config} {s : State} {k : ListKind} {t : TimerId} (h : Accepted s)
    (hok : Restarts s k t → (s.timer t).initTick ≠ 0) :
    dueCount c k (timerCheckFinish c s k t) ≤ dueCount c k s := by
  by_cases hrestarts : Restarts s k t
  · have hinit : ((settled s k t).timer t).initTick = (s.timer t).initTick := by
      simp [settled, setTimer]
    have hacc : Accepted (settled s k t) := initTick_setTimer (s := returned s k t) h (h t)
    have hdue : ∀ u, due (settled s k t) u = due s u := by
      intro u
      by_cases hu : u = t
      · simp [due, settled, setTimer, returned, hu]
      · simp [due, settled, setTimer, returned, hu]
    have hstart := dueCount_start (c := c) k hacc (by rw [hinit]; exact hok hrestarts)
    have hrow : (settled s k t).rows k (c.level - 1) =
        (s.rows k (c.level - 1)).filter (fun _ => true) := by
      rw [List.filter_true]
      rfl
    have hsettled := dueCount_filter (c := c) (k := k) (fun _ => true) hrow fun u _ => hdue u
    rw [finish_restarts hrestarts]
    exact hstart.trans hsettled
  · rw [finish_leaves hrestarts]
    exact le_refl _

/-! ## The loop ends -/

variable {c : Config} {k : ListKind}

/-- A turn that restarts no timer with a period of zero leaves fewer expired timers. -/
theorem dueCount_turn {s s' : State} {t : TimerId} {body : List Event} (h : Accepted s)
    (hquiet : ∀ e ∈ body, Quiet e) (hok : ¬ ZeroRestart c k s body)
    (hs : checkTurn c k s body = some (t, s')) : Accepted s' ∧ dueCount c k s' < dueCount c k s := by
  obtain ⟨⟨s₁, u⟩, hpop, hs⟩ := Option.bind_eq_some_iff.mp hs
  obtain ⟨s₂, hrun, heq⟩ := Option.map_eq_some_iff.mp hs
  obtain ⟨rfl, rfl⟩ := Prod.mk.inj heq
  have hacc := accepted_run (accepted_pop h hpop) hrun
  have hfinish := dueCount_finish (c := c) hacc fun hrestarts hzero =>
    hok ⟨s₁, u, s₂, hpop, hrun, hrestarts, hzero⟩
  have hbody := dueCount_run (k := k) hquiet hrun
  have hfirst := dueCount_pop hpop
  exact ⟨accepted_finish k u hacc, by omega⟩

/-- Turns of that kind are at most as many as there are expired timers. -/
theorem turns_end {s s' : State} (hquiet : ∀ n, ∀ e ∈ callbacks n, Quiet e) (h : Accepted s')
    (hn : turns c k callbacks s n = some s')
    (hok : ∀ m r, n ≤ m → turns c k callbacks s m = some r → ¬ ZeroRestart c k r (callbacks m)) :
    turns c k callbacks s (n + dueCount c k s' + 1) = none := by
  generalize hcount : dueCount c k s' = bound
  induction bound using Nat.strong_induction_on generalizing n s' with
  | _ bound ih =>
    cases hturn : checkTurn c k s' (callbacks n) with
    | none =>
      have hnext : turns c k callbacks s (n + 1) = none := by
        rw [turns, hn, Option.bind_some, hturn]
        rfl
      rw [Nat.add_right_comm]
      exact turns_none hnext bound
    | some r =>
      obtain ⟨t, r⟩ := r
      have hnext : turns c k callbacks s (n + 1) = some r := by
        rw [turns, hn, Option.bind_some, hturn]
        rfl
      obtain ⟨hacc, hlt⟩ := dueCount_turn h (hquiet n) (hok n s' le_rfl hn) hturn
      have hend := ih (dueCount c k r) (by omega) hacc hnext
        (fun m q hm => hok m q (by omega)) rfl
      have hlater := turns_none hend (bound - dueCount c k r - 1)
      rwa [show n + 1 + dueCount c k r + 1 + (bound - dueCount c k r - 1) = n + bound + 1 by omega]
        at hlater

theorem accepted_turns {s s' : State} (h : Accepted s) (hn : turns c k callbacks s n = some s') :
    Accepted s' := by
  induction n generalizing s' with
  | zero =>
    cases hn
    exact h
  | succ n ih =>
    obtain ⟨mid, hmid, hs⟩ := Option.bind_eq_some_iff.mp hn
    obtain ⟨⟨t, r⟩, hturn, rfl⟩ := Option.map_eq_some_iff.mp hs
    obtain ⟨⟨s₁, u⟩, hpop, hs⟩ := Option.bind_eq_some_iff.mp hturn
    obtain ⟨s₂, hrun, heq⟩ := Option.map_eq_some_iff.mp hs
    obtain ⟨rfl, rfl⟩ := Prod.mk.inj heq
    exact accepted_finish k u (accepted_run (accepted_pop (ih hmid) hpop) hrun)

/-- In every state that a run reaches and for all callbacks that start no timer: the loop ends if
and only if it does not restart timers with a period of zero for ever. -/
theorem check_ends_iff (c : Config) (k : ListKind) (tick : Tick) (timer : TimerId → RtTimer)
    (hinit : ∀ t, (timer t).initTick.toNat < rtTickMaxHalf) (es : List Event) (s : State)
    (hrun : Runs.run (step c) (rtSystemTimerInit tick timer) es = some s)
    (callbacks : Nat → List Event) (hquiet : ∀ n, ∀ e ∈ callbacks n, Quiet e) :
    (∃ n, turns c k callbacks s n = none) ↔
      ∃ n, ∀ m s', n ≤ m → turns c k callbacks s m = some s' →
        ¬ ZeroRestart c k s' (callbacks m) := by
  constructor
  · rintro ⟨n, hn⟩
    refine ⟨n, fun m s' hm hs => ?_⟩
    have hnone := turns_none hn (m - n)
    rw [show n + (m - n) = m by omega, hs] at hnone
    cases hnone
  · rintro ⟨n, hok⟩
    cases hn : turns c k callbacks s n with
    | none => exact ⟨n, hn⟩
    | some s' =>
      have hacc := accepted_turns (accepted_run (s := rtSystemTimerInit tick timer) hinit hrun) hn
      exact ⟨_, turns_end hquiet hacc hn hok⟩

/-- Timers with a period of `n` ticks. -/
def period (n : Tick) (_ : TimerId) : RtTimer := timerInit n true .hard

/-- A period of one tick, over one tick. -/
theorem check_ends_iff_one_tick : ∃ s, Runs.run (step ⟨2, 3, by decide⟩)
      (rtSystemTimerInit 0 (period 1)) [.start 0, .tickIncrease] = some s ∧
    ∃ n, ∀ m s', n ≤ m → turns ⟨2, 3, by decide⟩ .hard (fun _ => []) s m = some s' →
      ¬ ZeroRestart ⟨2, 3, by decide⟩ .hard s' [] := by
  refine ⟨_, rfl, ?_⟩
  exact (check_ends_iff ⟨2, 3, by decide⟩ .hard 0 (period 1) (fun _ => show (1 : Tick).toNat < rtTickMaxHalf by decide)
    [.start 0, .tickIncrease] _ rfl (fun _ => []) (fun _ _ h => nomatch h)).mp ⟨2, rfl⟩

/-- A timer with a period of zero is due again. -/
def Spinning (s : State) : Prop :=
  s.rows .hard 0 = [0] ∧ s.timer 0 = ⟨true, true, .hard, 0, s.tick⟩

theorem spinning_turn {s : State} (h : Spinning s) : ∃ s', Spinning s' ∧
    checkTurn ⟨1, 3, by decide⟩ .hard s [] = some (0, s') := by
  obtain ⟨hrow, htimer⟩ := h
  have hdue : due s 0 = true := by simp [due, htimer, rtTickMaxHalf]
  have hpop := (@timerCheckPop_some ⟨1, 3, by decide⟩ s (expired s .hard 0) .hard 0).mpr
    ⟨⟨[], hrow⟩, hdue, rfl⟩
  have hrestarts : Restarts (expired s .hard 0) .hard 0 := by
    simp [Restarts, expired, setTimer, timerRemove, htimer]
  have hfinish := @finish_restarts ⟨1, 3, by decide⟩ _ _ _ hrestarts
  refine ⟨_, ?_, by rw [checkTurn, hpop]; exact congrArg (fun s' => some (0, s')) hfinish⟩
  constructor
  · simp [rtTimerStart, expired, returned, settled, setTimer, timerRemove, htimer, hrow, rowHead,
      scanRow, insertAfter]
  · simp [rtTimerStart, expired, returned, settled, setTimer, timerRemove, htimer]

/-- The loop does not end while the tick stands still. -/
theorem zero_period_never_ends : ∃ s, Runs.run (step ⟨1, 3, by decide⟩)
      (rtSystemTimerInit 0 (period 0)) [.start 0] = some s ∧
    ¬ ∃ n, turns ⟨1, 3, by decide⟩ .hard (fun _ => []) s n = none := by
  have hspin : ∀ s, Spinning s → ∀ n, ∃ s',
      turns ⟨1, 3, by decide⟩ .hard (fun _ => []) s n = some s' ∧ Spinning s' := by
    intro s hs n
    induction n with
    | zero => exact ⟨s, rfl, hs⟩
    | succ n ih =>
      obtain ⟨mid, hmid, hspins⟩ := ih
      obtain ⟨s', hs', hturn⟩ := spinning_turn hspins
      refine ⟨s', ?_, hs'⟩
      rw [turns, hmid, Option.bind_some, hturn]
      rfl
  obtain ⟨s, hs⟩ : ∃ s, Runs.run (step ⟨1, 3, by decide⟩) (rtSystemTimerInit 0 (period 0))
      [.start 0] = some s := ⟨_, rfl⟩
  have hstart : Spinning s := by
    cases hs
    exact ⟨by decide +kernel, by decide +kernel⟩
  refine ⟨s, hs, ?_⟩
  rintro ⟨n, hn⟩
  obtain ⟨s', hs', -⟩ := hspin s hstart n
  rw [hs'] at hn
  cases hn

end RtThread.Timer
