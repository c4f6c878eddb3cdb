import RtThread.TimerCheck
import RtThread.TimerFlags

/-!
# Which timers a check calls

A check is a run of turns: the first timer is popped, the steps made during its callback are
taken, and the turn is finished. A step concerns one timer and keeps every other one, so that
a timer that the callbacks do not touch waits in its list until the check finds it first.
-/
namespace RtThread.Timer

/-- What is not a part of the check of one list: anything else may happen during its callbacks. -/
def Foreign (k : ListKind) : Event → Prop
  | .checkPop j | .checkFinish j => j ≠ k
  | .start _ | .stop _ | .detach _ | .control _ _ | .tickIncrease => True

/-- The steps of a check whose callbacks make the given steps. -/
def checkEvents (k : ListKind) (bodies : List (List Event)) : List Event :=
  bodies.flatMap fun body => .checkPop k :: (body ++ [.checkFinish k])

/-- A whole call of `rt_timer_check` or `rt_soft_timer_check`. -/
structure Check (c : Config) (k : ListKind) (bodies : List (List Event)) (s s' : State) : Prop where
  idle : s.inCallback k = none
  foreign : ∀ body ∈ bodies, ∀ e ∈ body, Foreign k e
  run : Runs.run (step c) s (checkEvents k bodies) = some s'
  ends : timerCheckPop c s' k = none

/-- The timer that a step calls, with the state in which the check finds it first. -/
def call (c : Config) (k : ListKind) (s : State) (e : Event) : Option (TimerId × State) :=
  if e = .checkPop k then (timerCheckPop c s k).map fun r => (r.2, s) else none

/-- The calls of a run, in their order. -/
def calls (c : Config) (k : ListKind) : State → List Event → List (TimerId × State)
  | _, [] => []
  | s, e :: es => (call c k s e).toList ++ (step c s e).elim [] fun s' => calls c k s' es

/-- The timers called. -/
def called (c : Config) (k : ListKind) (s : State) (es : List Event) : List TimerId :=
  (calls c k s es).map Prod.fst

/-- The step is a call of a function on the timer. -/
def Touches (u : TimerId) : Event → Prop
  | .start t | .stop t | .detach t | .control t _ => t = u
  | .tickIncrease | .checkPop _ | .checkFinish _ => False

/-- No callback touches the timer. -/
def Untouched (bodies : List (List Event)) (u : TimerId) : Prop :=
  ∀ body ∈ bodies, ∀ e ∈ body, ¬ Touches u e

/-- What a check does with the timers of its list. -/
structure Expiry (c : Config) (k : ListKind) (bodies : List (List Event)) (s s' : State) : Prop where
  due : ∀ p ∈ calls c k s (checkEvents k bodies), rel p.2 p.1 ≤ 0
  left : ∀ u ∈ s'.rows k (c.level - 1), 0 < rel s' u
  reached : ∀ u ∈ s.rows k (c.level - 1), Untouched bodies u → rel s u ≤ 0 →
    u ∈ called c k s (checkEvents k bodies)
  once : ∀ u, Untouched bodies u → (s.timer u).periodic = false →
    (called c k s (checkEvents k bodies)).count u ≤ 1
  order : ∀ u ∈ s.rows k (c.level - 1), ∀ v ∈ s.rows k (c.level - 1), Untouched bodies u →
    Untouched bodies v → Before s u v → ∀ pre post,
      called c k s (checkEvents k bodies) = pre ++ v :: post → u ∈ pre
  remains : ∀ u, Untouched bodies u → (u ∈ s'.rows k (c.level - 1) ↔ u ∈ s.rows k (c.level - 1) ∧
    (u ∉ called c k s (checkEvents k bodies) ∨ (s.timer u).periodic = true))

/-- No linked timer is overdue by so much that the check takes it for one that is ahead. -/
def Recent (c : Config) (k : ListKind) (s : State) : Prop :=
  ∀ u ∈ s.rows k (c.level - 1), -2 ^ 31 + 1 < rel s u

/-- The deadlines compared by a step lie within half of the tick range. -/
def InTime (c : Config) (k : ListKind) (s : State) (e : Event) : Prop :=
  Window c s e ∧ (e = .checkPop k → Recent c k s)

instance (c : Config) (k : ListKind) (s : State) (e : Event) : Decidable (InTime c k s e) :=
  inferInstanceAs (Decidable (_ ∧ (_ → ∀ u ∈ s.rows k (c.level - 1), -2 ^ 31 + 1 < rel s u)))

/-! ## The timer that a step concerns -/

/-- The timer that a step works on. -/
def subject (c : Config) (s : State) : Event → Option TimerId
  | .start t | .stop t | .detach t | .control t _ => some t
  | .tickIncrease => none
  | .checkPop k => (s.rows k (c.level - 1)).head?
  | .checkFinish k => if s.pending k = [] then none else s.inCallback k

/-- A timer that a step does not concern. -/
structure Kept (c : Config) (s s' : State) (u : TimerId) : Prop where
  timer : s'.timer u = s.timer u
  stamp : s'.stamp u = s.stamp u
  linked : ∀ j, u ∈ s'.rows j (c.level - 1) ↔ u ∈ s.rows j (c.level - 1)
  pending : ∀ j, u ∈ s'.pending j ↔ u ∈ s.pending j

section kept

variable {c : Config} {s s' : State} {t u : TimerId}

theorem Kept.refl (c : Config) (s : State) (u : TimerId) : Kept c s s u :=
  ⟨rfl, rfl, fun _ => Iff.rfl, fun _ => Iff.rfl⟩

theorem Kept.trans {s'' : State} (h : Kept c s s' u) (h' : Kept c s' s'' u) : Kept c s s'' u :=
  ⟨h'.timer.trans h.timer, h'.stamp.trans h.stamp, fun j => (h'.linked j).trans (h.linked j),
    fun j => (h'.pending j).trans (h.pending j)⟩

theorem kept_setTimer (c : Config) (s : State) (x : RtTimer) (hu : u ≠ t) :
    Kept c s (setTimer s t x) u :=
  ⟨Function.update_of_ne hu _ _, rfl, fun _ => Iff.rfl, fun _ => Iff.rfl⟩

theorem kept_remove (c : Config) (s : State) (hu : u ≠ t) : Kept c s (timerRemove s t) u :=
  ⟨rfl, rfl, fun j => by simp [timerRemove, hu], fun j => by simp [timerRemove, hu]⟩

theorem kept_start {kept : Prop} (h : Linkage kept c s) (hu : u ≠ t) :
    Kept c s (rtTimerStart c s t) u := by
  have hpos := c.level_pos
  refine ⟨?_, Function.update_of_ne hu _ _, fun j => ?_, fun j => ?_⟩
  · simp [rtTimerStart, setTimer, timerRemove, hu]
  · rw [mem_rtTimerStart h j (by omega)]
    simp [hu]
  · simp [rtTimerStart, setTimer, timerRemove, hu]

theorem kept_expired (c : Config) (s : State) (k : ListKind) (hu : u ≠ t) :
    Kept c s (expired s k t) u := by
  refine ⟨?_, rfl, fun j => ?_, fun j => ?_⟩
  · simp [expired, setTimer, timerRemove, hu]
  · simp [expired, setTimer, timerRemove, hu]
  · by_cases hj : j = k
    · subst hj
      simp [expired, timerRemove, hu]
    · simp [expired, timerRemove, hu, hj]

theorem kept_returned (c : Config) (s : State) (k : ListKind) (hu : u ≠ t) :
    Kept c s (returned s k t) u := by
  refine ⟨rfl, rfl, fun _ => Iff.rfl, fun j => ?_⟩
  by_cases hj : j = k
  · subst hj
    simp [returned, hu]
  · simp [returned, hj]

/-- Behind a callback that has removed its own timer nothing is left to do. -/
theorem kept_finish_empty (c : Config) (s : State) {k : ListKind} (t : TimerId)
    (h : s.pending k = []) (u : TimerId) : Kept c s (timerCheckFinish c s k t) u := by
  have hleaves := finish_leaves (c := c) (s := s) (k := k) (t := t) fun hrestarts => hrestarts.1 h
  rw [hleaves]
  refine ⟨rfl, rfl, fun _ => Iff.rfl, fun j => ?_⟩
  by_cases hj : j = k
  · subst hj
    simp [returned, h]
  · simp [returned, hj]

theorem linkage_settled {kept : Prop} {k : ListKind} (h : Linkage kept c s)
    (hc : s.inCallback k = some t) (ht : t ∈ s.pending k) : Linkage kept c (settled s k t) :=
  h.settle (x := { s.timer t with activated := false }) hc rfl (fun _ => rfl) ht

/-- The temporary list holds the timer whose callback is running, if any. -/
theorem mem_pending {kept : Prop} (h : Linkage kept c s) {k : ListKind}
    (hc : s.inCallback k = some t) (hp : s.pending k ≠ []) : t ∈ s.pending k := by
  obtain ⟨w, hw⟩ := List.exists_mem_of_ne_nil _ hp
  obtain ⟨-, hcall, -⟩ := h.awaiting k w hw
  rw [hc] at hcall
  rwa [Option.some.inj hcall]

theorem kept_finish {kept : Prop} {k : ListKind} (h : Linkage kept c s)
    (hc : s.inCallback k = some t) (hp : s.pending k ≠ []) (hu : u ≠ t) :
    Kept c s (timerCheckFinish c s k t) u := by
  by_cases hrestarts : Restarts s k t
  · have hlink := linkage_settled h hc (mem_pending h hc hp)
    have hreturned := kept_returned c s k hu
    rw [finish_restarts hrestarts]
    exact (hreturned.trans (kept_setTimer c _ _ hu)).trans (kept_start hlink hu)
  · rw [finish_leaves hrestarts]
    exact kept_returned c s k hu

/-- A step keeps every timer that it does not concern. -/
theorem kept_step {kept : Prop} {e : Event} (h : Linkage kept c s) (hs : step c s e = some s')
    (hu : subject c s e ≠ some u) : Kept c s s' u := by
  cases e with
  | start t =>
    cases hs
    exact kept_start h fun heq => hu (by rw [subject, heq])
  | stop t =>
    have hne : u ≠ t := fun heq => hu (by rw [subject, heq])
    cases hs
    rw [rtTimerStop]
    split
    · exact (kept_remove c s hne).trans (kept_setTimer c _ _ hne)
    · exact Kept.refl c s u
  | detach t =>
    have hne : u ≠ t := fun heq => hu (by rw [subject, heq])
    cases hs
    exact (kept_remove c s hne).trans (kept_setTimer c _ _ hne)
  | control t cmd =>
    have hne : u ≠ t := fun heq => hu (by rw [subject, heq])
    obtain ⟨r, hr, rfl⟩ := Option.map_eq_some_iff.mp hs
    cases cmd with
    | setTime time =>
      obtain ⟨-, hr⟩ := Option.ite_none_right_eq_some.mp hr
      cases hr
      exact kept_setTimer c s _ hne
    | setOneshot | setPeriodic =>
      cases hr
      exact kept_setTimer c s _ hne
    | getTime | getState | getRemainTime =>
      cases hr
      exact Kept.refl c s u
  | tickIncrease =>
    cases hs
    exact ⟨rfl, rfl, fun _ => Iff.rfl, fun _ => Iff.rfl⟩
  | checkPop k =>
    obtain ⟨-, hs⟩ := Option.ite_none_right_eq_some.mp hs
    obtain ⟨⟨r, t⟩, hr, rfl⟩ := Option.map_eq_some_iff.mp hs
    obtain ⟨⟨rest, hrow⟩, -, rfl⟩ := timerCheckPop_some.mp hr
    exact kept_expired c s k fun heq => hu (by rw [subject, hrow, heq]; rfl)
  | checkFinish k =>
    obtain ⟨t, ht, rfl⟩ := Option.map_eq_some_iff.mp hs
    by_cases hp : s.pending k = []
    · exact kept_finish_empty c s t hp u
    · exact kept_finish h ht hp fun heq => hu (by rw [subject, if_neg hp, ht, heq])

end kept

/-! ## A timer that nobody touches -/

section untouched

variable {kept : Prop} {c : Config} {k : ListKind} {s s' : State} {u : TimerId} {e : Event}

/-- A step keeps a timer that it does not touch, or it is the pop of that timer or the end of its
callback. -/
theorem own_cases (h : Linkage kept c s) (hs : step c s e = some s') (hu : ¬ Touches u e) :
    Kept c s s' u ∨
      (e = .checkPop (s.timer u).kind ∧ timerCheckPop c s (s.timer u).kind = some (s', u)) ∨
      (e = .checkFinish (s.timer u).kind ∧ s.inCallback (s.timer u).kind = some u ∧
        u ∈ s.pending (s.timer u).kind ∧ s' = timerCheckFinish c s (s.timer u).kind u) := by
  by_cases hsubject : subject c s e = some u
  · cases e with
    | start t | stop t | detach t | control t _ => exact absurd (Option.some.inj hsubject) hu
    | tickIncrease => cases hsubject
    | checkPop j =>
      obtain ⟨-, hs⟩ := Option.ite_none_right_eq_some.mp hs
      obtain ⟨⟨r, t⟩, hr, rfl⟩ := Option.map_eq_some_iff.mp hs
      obtain ⟨⟨rest, hrow⟩, -, -⟩ := timerCheckPop_some.mp hr
      rw [subject, hrow] at hsubject
      obtain rfl := Option.some.inj hsubject
      have hkind := h.own j t (by rw [hrow]; exact List.mem_cons_self)
      exact Or.inr (Or.inl ⟨by rw [hkind], by rw [hkind]; exact hr⟩)
    | checkFinish j =>
      obtain ⟨hp, hcall⟩ := Option.ite_none_left_eq_some.mp hsubject
      have hmem := mem_pending h hcall hp
      obtain ⟨hkind, -, -⟩ := h.awaiting j u hmem
      obtain ⟨t, ht, rfl⟩ := Option.map_eq_some_iff.mp hs
      rw [hcall] at ht
      cases ht
      exact Or.inr (Or.inr ⟨by rw [hkind], by rw [hkind]; exact hcall, by rw [hkind]; exact hmem,
        by rw [hkind]⟩)
  · exact Or.inl (kept_step h hs hsubject)

theorem expired_timer (s : State) (k : ListKind) (u : TimerId) : (expired s k u).timer u =
    { s.timer u with activated := (s.timer u).activated && (s.timer u).periodic } := by
  simp [expired, setTimer]

theorem not_mem_expired (s : State) (k j : ListKind) (u : TimerId) (r : Nat) :
    u ∉ (expired s k u).rows j r := by
  simp [expired, setTimer, timerRemove]

theorem mem_pending_expired (s : State) (k j : ListKind) (u : TimerId) :
    u ∈ (expired s k u).pending j ↔ j = k := by
  by_cases hj : j = k
  · subst hj
    simp [expired]
  · simp [expired, timerRemove, hj]

/-- An awaited timer is in no list. -/
theorem not_linked_of_pending (h : Linkage kept c s) (hu : u ∈ s.pending (s.timer u).kind)
    (j : ListKind) : u ∉ s.rows j (c.level - 1) := by
  intro hrow
  obtain ⟨-, -, hl⟩ := h.awaiting _ u hu
  have hj := h.own j u hrow
  rw [← hj] at hrow
  exact hl hrow

theorem restarted_linked (h : Linkage kept c s) (hc : s.inCallback (s.timer u).kind = some u)
    (hu : u ∈ s.pending (s.timer u).kind) (hrestarts : Restarts s (s.timer u).kind u) :
    u ∈ (timerCheckFinish c s (s.timer u).kind u).rows (s.timer u).kind (c.level - 1) ∧
      ((timerCheckFinish c s (s.timer u).kind u).timer u).periodic = true ∧
      ((timerCheckFinish c s (s.timer u).kind u).timer u).activated = true := by
  have hpos := c.level_pos
  have hlink := linkage_settled h hc hu
  have hsettled : (settled s (s.timer u).kind u).timer u =
      { s.timer u with activated := false } := by simp [settled, setTimer]
  obtain ⟨-, hperiodic, hactivated⟩ := @timer_rtTimerStart c (settled s (s.timer u).kind u) u u
  rw [finish_restarts hrestarts, mem_rtTimerStart hlink _ (by omega), hperiodic, hactivated, hsettled]
  refine ⟨Or.inl ⟨rfl, rfl, Nat.sub_le _ _⟩, hrestarts.2.1, if_pos rfl⟩

/-! ### One-shot timers -/

theorem call_some {t : TimerId} {s₀ : State} (h : call c k s e = some (t, s₀)) :
    e = .checkPop k ∧ s₀ = s ∧ timerCheckPop c s k = some (expired s k t, t) := by
  obtain ⟨he, hcall⟩ := Option.ite_none_right_eq_some.mp h
  obtain ⟨⟨r, t⟩, hr, heq⟩ := Option.map_eq_some_iff.mp hcall
  cases heq
  obtain ⟨hrow, hdue, rfl⟩ := timerCheckPop_some.mp hr
  exact ⟨he, rfl, hr⟩

theorem call_pop (hpop : timerCheckPop c s k = some (s', u)) :
    call c k s (.checkPop k) = some (u, s) := by
  rw [call, if_pos rfl, hpop]
  rfl

theorem step_pop {r : State × TimerId} (hs : step c s (.checkPop k) = some s')
    (hpop : timerCheckPop c s k = some r) : s' = r.1 := by
  obtain ⟨-, hs⟩ := Option.ite_none_right_eq_some.mp hs
  rw [hpop] at hs
  exact (Option.some.inj hs).symm

/-- A timer that is called is not kept. -/
theorem not_kept_of_call {s₀ : State} (hs : step c s e = some s')
    (h : call c k s e = some (u, s₀)) : ¬ Kept c s s' u := by
  obtain ⟨rfl, rfl, hpop⟩ := call_some h
  obtain ⟨⟨rest, hrow⟩, -, -⟩ := timerCheckPop_some.mp hpop
  obtain rfl := step_pop hs hpop
  intro hkept
  have hmem := (hkept.linked k).mpr (by rw [hrow]; exact List.mem_cons_self)
  exact not_mem_expired s₀ k k u _ hmem

theorem called_cons (hs : step c s e = some s') (es : List Event) :
    called c k s (e :: es) = ((call c k s e).toList.map Prod.fst) ++ called c k s' es := by
  rw [called, calls, hs, List.map_append, called]
  rfl

/-- Whether the timer is in the list, as a number. -/
def place (c : Config) (k : ListKind) (s : State) (u : TimerId) : Nat :=
  if u ∈ s.rows k (c.level - 1) then 1 else 0

/-- A step that calls a one-shot timer takes it out of the list, and nothing else does. -/
theorem place_step (h : Linkage kept c s) (hs : step c s e = some s') (hu : ¬ Touches u e)
    (hoff : (s.timer u).periodic = false) : (s'.timer u).periodic = false ∧
      ((call c k s e).toList.map Prod.fst).count u + place c k s' u = place c k s u := by
  have hother : (∀ s₀, call c k s e ≠ some (u, s₀)) →
      ((call c k s e).toList.map Prod.fst).count u = 0 := by
    intro hne
    cases hcall : call c k s e with
    | none => rfl
    | some p =>
      have hp : p.1 ≠ u := by
        rintro rfl
        exact hne p.2 hcall
      simp [hp]
  rcases own_cases h hs hu with hkept | ⟨rfl, hpop⟩ | ⟨rfl, hcall, hmem, rfl⟩
  · have hnone := hother fun s₀ hcall => not_kept_of_call hs hcall hkept
    refine ⟨by rw [hkept.timer]; exact hoff, ?_⟩
    rw [hnone, place, place]
    simp only [hkept.linked]
    omega
  · obtain ⟨⟨rest, hrow⟩, -, rfl⟩ := timerCheckPop_some.mp hpop
    refine ⟨by rw [expired_timer]; exact hoff, ?_⟩
    rw [place, if_neg (not_mem_expired s _ k u _), place]
    by_cases hk : k = (s.timer u).kind
    · subst hk
      rw [call_pop hpop, if_pos (by rw [hrow]; exact List.mem_cons_self)]
      simp
    · have hnone := hother fun s₀ hcall => by
        obtain ⟨heq, -, -⟩ := call_some hcall
        cases heq
        exact hk rfl
      rw [hnone, if_neg]
      exact fun hu' => hk (h.own k u hu').symm
  · have hleaves := finish_leaves (c := c) (s := s) (k := (s.timer u).kind) (t := u)
      fun hrestarts => by simp [hrestarts.2.1] at hoff
    rw [hleaves]
    refine ⟨hoff, ?_⟩
    have hnone := hother fun s₀ hcall => by
      obtain ⟨heq, -, -⟩ := call_some hcall
      cases heq
    rw [hnone, Nat.zero_add]
    rfl

theorem place_run {es : List Event} (h : Linkage kept c s) (hkept : ¬ kept)
    (hrun : Runs.run (step c) s es = some s') (hu : ∀ e ∈ es, ¬ Touches u e)
    (hoff : (s.timer u).periodic = false) :
    (called c k s es).count u + place c k s' u = place c k s u := by
  induction es generalizing s with
  | nil =>
    cases hrun
    simp [called, calls]
  | cons e es ih =>
    obtain ⟨mid, he, hrun⟩ := Runs.run_cons_some.mp hrun
    obtain ⟨hoff', hplace⟩ := place_step (k := k) h he (hu e List.mem_cons_self) hoff
    have hrest := ih (h.step (fun hk => absurd hk hkept) he) hrun
      (fun e' he' => hu e' (List.mem_cons_of_mem e he')) hoff'
    rw [called_cons he, List.count_append]
    omega

/-! ### Periodic timers -/

/-- The timer is in the list, or its callback is running and it will go back there. -/
def Present (k : ListKind) (c : Config) (s : State) (u : TimerId) : Prop :=
  u ∈ s.rows k (c.level - 1) ∨ u ∈ s.pending k

theorem Present.kind (h : Linkage kept c s) (hp : Present k c s u) : (s.timer u).kind = k := by
  rcases hp with hrow | hpending
  · exact h.own k u hrow
  · exact (h.awaiting k u hpending).1

/-- A periodic timer that is not stopped goes from its list to its callback and back. -/
theorem present_step (h : Linkage kept c s) (hs : step c s e = some s') (hu : ¬ Touches u e)
    (hperiodic : (s.timer u).periodic = true) (hactivated : (s.timer u).activated = true)
    (hp : Present k c s u) : (s'.timer u).periodic = true ∧ (s'.timer u).activated = true ∧
      Present k c s' u := by
  have hkind := hp.kind h
  rcases own_cases h hs hu with hkept | ⟨rfl, hpop⟩ | ⟨rfl, hcall, hmem, rfl⟩
  · rw [hkept.timer]
    refine ⟨hperiodic, hactivated, ?_⟩
    rwa [Present, hkept.linked, hkept.pending]
  · obtain ⟨-, -, rfl⟩ := timerCheckPop_some.mp hpop
    rw [expired_timer]
    refine ⟨hperiodic, by simp [hperiodic, hactivated], Or.inr ?_⟩
    rw [mem_pending_expired, hkind]
  · have hne : s.pending (s.timer u).kind ≠ [] := List.ne_nil_of_mem hmem
    obtain ⟨hrow, hp', ha'⟩ := restarted_linked h hcall hmem ⟨hne, hperiodic, hactivated⟩
    rw [hkind] at hrow hp' ha' ⊢
    exact ⟨hp', ha', Or.inl hrow⟩

/-- A timer that is not in the list does not get there. -/
theorem absent_step (h : Linkage kept c s) (hs : step c s e = some s') (hu : ¬ Touches u e)
    (hp : ¬ Present k c s u) : ¬ Present k c s' u := by
  rcases own_cases h hs hu with hkept | ⟨rfl, hpop⟩ | ⟨rfl, hcall, hmem, rfl⟩
  · rwa [Present, hkept.linked, hkept.pending]
  · obtain ⟨⟨rest, hrow⟩, -, rfl⟩ := timerCheckPop_some.mp hpop
    rintro (hrow' | hpending)
    · exact not_mem_expired s _ k u _ hrow'
    · rw [mem_pending_expired] at hpending
      refine hp (Or.inl ?_)
      rw [hpending, hrow]
      exact List.mem_cons_self
  · have hk : k ≠ (s.timer u).kind := by
      rintro rfl
      exact hp (Or.inr hmem)
    by_cases hrestarts : Restarts s (s.timer u).kind u
    · have hlink := linkage_settled h hcall hmem
      have hpos := c.level_pos
      rw [finish_restarts hrestarts]
      rintro (hrow | hpending)
      · rw [mem_rtTimerStart hlink _ (by omega)] at hrow
        rcases hrow with ⟨-, hk', -⟩ | ⟨hne, -⟩
        · exact hk (by simpa [settled, setTimer] using hk')
        · exact hne rfl
      · simp [rtTimerStart, setTimer, timerRemove] at hpending
    · rw [finish_leaves hrestarts]
      rintro (hrow | hpending)
      · exact hp (Or.inl hrow)
      · refine hp (Or.inr ?_)
        simpa [returned, hk] using hpending

theorem present_run {es : List Event} (h : Linkage False c s)
    (hrun : Runs.run (step c) s es = some s') (hu : ∀ e ∈ es, ¬ Touches u e)
    (hperiodic : (s.timer u).periodic = true) (hactivated : (s.timer u).activated = true)
    (hp : Present k c s u) : Present k c s' u := by
  induction es generalizing s with
  | nil =>
    cases hrun
    exact hp
  | cons e es ih =>
    obtain ⟨mid, he, hrun⟩ := Runs.run_cons_some.mp hrun
    obtain ⟨hper, hact, hpre⟩ := present_step h he (hu e List.mem_cons_self) hperiodic hactivated hp
    exact ih (h.step False.elim he) hrun (fun e' he' => hu e' (List.mem_cons_of_mem e he'))
      hper hact hpre

theorem absent_run {es : List Event} (h : Linkage False c s)
    (hrun : Runs.run (step c) s es = some s') (hu : ∀ e ∈ es, ¬ Touches u e)
    (hp : ¬ Present k c s u) : ¬ Present k c s' u := by
  induction es generalizing s with
  | nil =>
    cases hrun
    exact hp
  | cons e es ih =>
    obtain ⟨mid, he, hrun⟩ := Runs.run_cons_some.mp hrun
    exact ih (h.step False.elim he) hrun (fun e' he' => hu e' (List.mem_cons_of_mem e he'))
      (absent_step h he (hu e List.mem_cons_self) hp)

/-! ### Timers that wait -/

/-- What the clock takes from the distance of a linked timer in a step. -/
def lapse : Event → Int
  | .tickIncrease => 1
  | _ => 0

theorem tick_start (c : Config) (s : State) (t : TimerId) : (rtTimerStart c s t).tick = s.tick := rfl

theorem tick_step (hs : step c s e = some s') (he : e ≠ .tickIncrease) : s'.tick = s.tick := by
  cases e with
  | start | detach =>
    cases hs
    rfl
  | stop t =>
    cases hs
    rw [rtTimerStop]
    split <;> rfl
  | control t cmd =>
    obtain ⟨r, hr, rfl⟩ := Option.map_eq_some_iff.mp hs
    cases cmd with
    | setTime time =>
      obtain ⟨-, hr⟩ := Option.ite_none_right_eq_some.mp hr
      cases hr
      rfl
    | setOneshot | setPeriodic | getTime | getState | getRemainTime =>
      cases hr
      rfl
  | tickIncrease => exact absurd rfl he
  | checkPop j =>
    obtain ⟨-, hs⟩ := Option.ite_none_right_eq_some.mp hs
    obtain ⟨⟨r, t⟩, hr, rfl⟩ := Option.map_eq_some_iff.mp hs
    obtain ⟨-, -, rfl⟩ := timerCheckPop_some.mp hr
    rfl
  | checkFinish j =>
    obtain ⟨t, -, rfl⟩ := Option.map_eq_some_iff.mp hs
    by_cases hrestarts : Restarts s j t
    · rw [finish_restarts hrestarts, tick_start]
      rfl
    · rw [finish_leaves hrestarts]
      rfl

theorem rel_step (hs : step c s e = some s') (hw : Window c s e)
    (hu : u ∈ s.rows k (c.level - 1)) (htimer : s'.timer u = s.timer u) :
    rel s' u = rel s u - lapse e := by
  by_cases he : e = .tickIncrease
  · obtain rfl := he
    cases hs
    exact rel_tick (hw k u hu)
  · have hzero : lapse e = 0 := by
      cases e with
      | tickIncrease => exact absurd rfl he
      | _ => rfl
    rw [rel, rel, htimer, tick_step hs he, hzero, sub_zero]

/-- A timer in the list is called by the step, or it stays there. -/
theorem waits_step (h : Linkage kept c s) (hs : step c s e = some s') (hu : ¬ Touches u e)
    (hrow : u ∈ s.rows k (c.level - 1)) : call c k s e = some (u, s) ∨ Kept c s s' u := by
  have hkind := h.own k u hrow
  rcases own_cases h hs hu with hkept | ⟨rfl, hpop⟩ | ⟨rfl, hcall, hmem, rfl⟩
  · exact Or.inr hkept
  · rw [hkind] at hpop ⊢
    exact Or.inl (call_pop hpop)
  · exact absurd hrow (not_linked_of_pending h hmem k)

/-- A timer that is not called is still there, no further away. -/
theorem waits_run {es : List Event} (h : Linkage False c s)
    (hrun : Runs.run (step c) s es = some s') (hok : Runs.Along (step c) (Window c) s es)
    (hu : ∀ e ∈ es, ¬ Touches u e) (hrow : u ∈ s.rows k (c.level - 1))
    (hnot : u ∉ called c k s es) : u ∈ s'.rows k (c.level - 1) ∧ rel s' u ≤ rel s u := by
  induction es generalizing s with
  | nil =>
    cases hrun
    exact ⟨hrow, le_refl _⟩
  | cons e es ih =>
    obtain ⟨mid, he, hrun⟩ := Runs.run_cons_some.mp hrun
    rw [called_cons he, List.mem_append, not_or] at hnot
    rcases waits_step h he (hu e List.mem_cons_self) hrow with hcall | hkept
    · rw [hcall] at hnot
      simp at hnot
    · have hrel := rel_step he hok.1 hrow hkept.timer
      have hlapse : 0 ≤ lapse e := by
        cases e with
        | tickIncrease => decide
        | _ => exact le_refl _
      obtain ⟨hlast, hle⟩ := ih (h.step False.elim he) hrun (hok.2 mid he)
        (fun e' he' => hu e' (List.mem_cons_of_mem e he')) ((hkept.linked k).mpr hrow) hnot.2
      exact ⟨hlast, by omega⟩

theorem Before.asymm {v : TimerId} (h : Before s u v) : ¬ Before s v u := by
  rintro (hlt | ⟨heq, hlt⟩)
  · have := h.le
    omega
  · rcases h with hlt' | ⟨-, hlt'⟩
    · rw [rel, rel, heq] at hlt'
      exact lt_irrefl _ hlt'
    · omega

/-- Two waiting timers keep their order. -/
theorem before_step {v : TimerId} (hs : step c s e = some s') (hw : Window c s e)
    (hu : u ∈ s.rows k (c.level - 1)) (hv : v ∈ s.rows k (c.level - 1)) (hku : Kept c s s' u)
    (hkv : Kept c s s' v) (h : Before s u v) : Before s' u v := by
  refine h.congr ?_ (by rw [hku.timer]) (by rw [hkv.timer]) hku.stamp hkv.stamp
  rw [rel_step hs hw hu hku.timer, rel_step hs hw hv hkv.timer]
  omega

/-- Of two timers in the list the later one is not called before the earlier one. -/
theorem not_first {v : TimerId} {s₀ : State} (h : Inv c s) (hu : u ∈ s.rows k (c.level - 1))
    (huv : Before s u v) : call c k s e ≠ some (v, s₀) := by
  intro hcall
  obtain ⟨-, -, hpop⟩ := call_some hcall
  obtain ⟨⟨rest, hrow⟩, -, -⟩ := timerCheckPop_some.mp hpop
  have hsorted := h.ordered.sorted k (c.level - 1)
  rw [hrow] at hsorted hu
  rcases List.mem_cons.mp hu with rfl | hu
  · exact huv.asymm huv
  · exact huv.asymm ((List.pairwise_cons.mp hsorted).1 u hu)

theorem order_run {v : TimerId} {es : List Event} (h : Linkage False c s) (hinv : Inv c s)
    (hrun : Runs.run (step c) s es = some s') (hok : Runs.Along (step c) (Window c) s es)
    (hu : ∀ e ∈ es, ¬ Touches u e) (hv : ∀ e ∈ es, ¬ Touches v e)
    (hrowU : u ∈ s.rows k (c.level - 1)) (hrowV : v ∈ s.rows k (c.level - 1))
    (huv : Before s u v) {pre post : List TimerId} (hcalled : called c k s es = pre ++ v :: post) :
    u ∈ pre := by
  induction es generalizing s pre with
  | nil => simp [called, calls] at hcalled
  | cons e es ih =>
    obtain ⟨mid, he, hrun⟩ := Runs.run_cons_some.mp hrun
    have hnotV : ∀ s₀, call c k s e ≠ some (v, s₀) := fun s₀ => not_first hinv hrowU huv
    have hkeptV := (waits_step h he (hv e List.mem_cons_self) hrowV).resolve_left (hnotV s)
    rw [called_cons he] at hcalled
    rcases waits_step h he (hu e List.mem_cons_self) hrowU with hcallU | hkeptU
    · rw [hcallU] at hcalled
      cases pre with
      | nil =>
        obtain ⟨heq, -⟩ := List.cons.inj hcalled
        subst heq
        exact absurd huv (fun hself => hself.asymm hself)
      | cons w pre =>
        obtain ⟨rfl, -⟩ := List.cons.inj hcalled
        exact List.mem_cons_self
    · have hnext : ∀ pre, called c k mid es = pre ++ v :: post → u ∈ pre := fun pre hpre =>
        ih (h.step False.elim he) (hinv.step hok.1 he) hrun (hok.2 mid he)
          (fun e' he' => hu e' (List.mem_cons_of_mem e he'))
          (fun e' he' => hv e' (List.mem_cons_of_mem e he')) ((hkeptU.linked k).mpr hrowU)
          ((hkeptV.linked k).mpr hrowV) (before_step he hok.1 hrowU hrowV hkeptU hkeptV huv) hpre
      cases hcall : call c k s e with
      | none =>
        rw [hcall] at hcalled
        exact hnext pre hcalled
      | some p =>
        rw [hcall] at hcalled
        cases pre with
        | nil =>
          obtain ⟨heq, -⟩ := List.cons.inj hcalled
          obtain ⟨w, s₀⟩ := p
          subst heq
          exact absurd hcall (hnotV s₀)
        | cons w pre =>
          obtain ⟨-, hrest⟩ := List.cons.inj hcalled
          exact List.mem_cons_of_mem w (hnext pre hrest)

end untouched

/-! ## The check -/

theorem due_iff (s : State) (u : TimerId) :
    due s u = true ↔ -2 ^ 31 + 1 < rel s u ∧ rel s u ≤ 0 := by
  have hback : s.tick - (s.timer u).timeoutTick = 0 - ((s.timer u).timeoutTick - s.tick) := by
    rw [zero_sub, neg_sub]
  rw [due, rel, hback, decide_eq_true_eq]
  generalize (s.timer u).timeoutTick - s.tick = v
  rw [BitVec.toInt_eq_toNat_cond, BitVec.toNat_sub, rtTickMaxHalf]
  simp only [BitVec.ofNat_eq_ofNat, BitVec.toNat_ofNat]
  omega

section check

variable {c : Config} {k : ListKind} {bodies : List (List Event)} {s s' : State}

theorem calls_due (c : Config) (k : ListKind) (es : List Event) (s : State) :
    ∀ p ∈ calls c k s es, rel p.2 p.1 ≤ 0 := by
  induction es generalizing s with
  | nil =>
    intro p hp
    cases hp
  | cons e es ih =>
    intro p hp
    rw [calls, List.mem_append] at hp
    rcases hp with hp | hp
    · obtain ⟨t, s₀⟩ := p
      obtain ⟨-, rfl, hpop⟩ := call_some (Option.mem_toList.mp hp)
      obtain ⟨-, hdue, -⟩ := timerCheckPop_some.mp hpop
      exact ((due_iff s₀ t).mp hdue).2
    · cases hstep : step c s e with
      | none =>
        rw [hstep] at hp
        cases hp
      | some mid =>
        rw [hstep] at hp
        exact ih mid p hp

/-- When no first timer has expired, no timer of the list has. -/
theorem nothing_left (hinv : Inv c s) (hrecent : Recent c k s) (hend : timerCheckPop c s k = none) :
    ∀ u ∈ s.rows k (c.level - 1), 0 < rel s u := by
  intro u hu
  have hsorted := hinv.ordered.sorted k (c.level - 1)
  obtain ⟨h, rest, hrow⟩ := List.exists_cons_of_ne_nil (List.ne_nil_of_mem hu)
  have hhead := timerCheckPop_none.mp hend h ⟨rest, hrow⟩
  have hfar := hrecent h (by rw [hrow]; exact List.mem_cons_self)
  have hpos : 0 < rel s h := by
    by_contra hneg
    rw [(due_iff s h).mpr ⟨hfar, by omega⟩] at hhead
    cases hhead
  rw [hrow] at hu hsorted
  rcases List.mem_cons.mp hu with rfl | hu
  · exact hpos
  · have := ((List.pairwise_cons.mp hsorted).1 u hu).le
    omega

theorem mem_checkEvents {e : Event} (h : e ∈ checkEvents k bodies) :
    e = .checkPop k ∨ e = .checkFinish k ∨ ∃ body ∈ bodies, e ∈ body := by
  obtain ⟨body, hbody, he⟩ := List.mem_flatMap.mp h
  rcases List.mem_cons.mp he with he | he
  · exact Or.inl he
  · rcases List.mem_append.mp he with he | he
    · exact Or.inr (Or.inr ⟨body, hbody, he⟩)
    · exact Or.inr (Or.inl (List.mem_singleton.mp he))

theorem Untouched.events {u : TimerId} (h : Untouched bodies u) :
    ∀ e ∈ checkEvents k bodies, ¬ Touches u e := by
  intro e he
  rcases mem_checkEvents he with rfl | rfl | ⟨body, hbody, he⟩
  · exact id
  · exact id
  · exact h body hbody e he

theorem finish_idle (c : Config) (s : State) (k : ListKind) (t : TimerId) :
    (timerCheckFinish c s k t).inCallback k = none := by
  by_cases hrestarts : Restarts s k t
  · rw [finish_restarts hrestarts]
    simp [rtTimerStart, settled, returned, setTimer, timerRemove]
  · rw [finish_leaves hrestarts]
    simp [returned]

/-- Behind the last turn no callback is running. -/
theorem checkEvents_idle (hidle : s.inCallback k = none)
    (hrun : Runs.run (step c) s (checkEvents k bodies) = some s') : s'.inCallback k = none := by
  induction bodies generalizing s with
  | nil =>
    cases hrun
    exact hidle
  | cons body bodies ih =>
    have hsplit : checkEvents k (body :: bodies) =
        (.checkPop k :: body) ++ (.checkFinish k :: checkEvents k bodies) := by
      simp [checkEvents]
    rw [hsplit, Runs.run_append] at hrun
    obtain ⟨mid, -, hrun⟩ := Option.bind_eq_some_iff.mp hrun
    obtain ⟨last, hfinish, hrun⟩ := Runs.run_cons_some.mp hrun
    obtain ⟨t, -, rfl⟩ := Option.map_eq_some_iff.mp hfinish
    exact ih (finish_idle c mid k t) hrun

/-- Outside of callbacks the temporary list is empty. -/
theorem no_pending {kept : Prop} (h : Linkage kept c s) (hidle : s.inCallback k = none)
    (u : TimerId) : u ∉ s.pending k := by
  intro hu
  obtain ⟨-, hcall, -⟩ := h.awaiting k u hu
  rw [hidle] at hcall
  cases hcall

/-- Every check whose steps compare only deadlines within half of the tick range calls each timer
that has expired, in the order of the deadlines, and leaves the others. -/
theorem check_expires (hinv : Inv c s) (hlink : Linkage False c s) (hcheck : Check c k bodies s s')
    (hok : Runs.Along (step c) (InTime c k) s (checkEvents k bodies ++ [.checkPop k])) :
    Expiry c k bodies s s' := by
  obtain ⟨hidle, -, hrun, hend⟩ := hcheck
  obtain ⟨hsteps, hlast⟩ := Runs.along_append.mp hok
  have hwindow : Runs.Along (step c) (Window c) s (checkEvents k bodies) :=
    hsteps.mono fun _ _ h => h.1
  have hinv' : Inv c s' := Runs.run_invariant_along (fun _ _ _ h hok hs => h.step hok hs) hinv
    hwindow hrun
  have hlink' : Linkage False c s' := @Runs.run_invariant _ _ _ (Linkage False c)
    (fun _ _ _ h hs => h.step False.elim hs) _ _ _ hlink hrun
  have hrecent : Recent c k s' := (hlast s' hrun).1.2 rfl
  have hleft := nothing_left hinv' hrecent hend
  have hidle' := checkEvents_idle hidle hrun
  refine ⟨calls_due c k _ s, hleft, ?_, ?_, ?_, ?_⟩
  · intro u hu hunt hrel
    by_contra hnot
    obtain ⟨hrow, hle⟩ := waits_run hlink hrun hwindow hunt.events hu hnot
    have := hleft u hrow
    omega
  · intro u hunt hoff
    have hplace := place_run (k := k) hlink id hrun hunt.events hoff
    have hone : place c k s u ≤ 1 := by
      rw [place]
      split <;> omega
    omega
  · intro u hu v hv huntU huntV huv pre post hcalled
    exact order_run hlink hinv hrun hwindow huntU.events huntV.events hu hv huv hcalled
  · intro u hunt
    cases hmode : (s.timer u).periodic with
    | true =>
      simp only [or_true, and_true]
      constructor
      · intro hrow
        by_contra hnot
        have habsent : ¬ Present k c s u := fun hp =>
          hp.elim hnot (no_pending hlink hidle u)
        exact absent_run hlink hrun hunt.events habsent (Or.inl hrow)
      · intro hrow
        have hflag : (s.timer u).activated = true := by
          refine hlink.flagged u ?_
          rw [Linked, hlink.own k u hrow]
          exact hrow
        exact (present_run hlink hrun hunt.events hmode hflag (Or.inl hrow)).resolve_right
          (no_pending hlink' hidle' u)
    | false =>
      have hplace := place_run (k := k) hlink id hrun hunt.events hmode
      rw [place, place] at hplace
      simp only [Bool.false_eq_true, or_false, ← List.count_eq_zero]
      constructor
      · intro hrow'
        rw [if_pos hrow'] at hplace
        split at hplace
        case isTrue hrow => exact ⟨hrow, by omega⟩
        case isFalse => omega
      · rintro ⟨hrow, hnone⟩
        rw [if_pos hrow, hnone] at hplace
        by_contra hnot
        rw [if_neg hnot] at hplace
        omega

end check

/-- A periodic timer and one-shot timers, over one tick. -/
def oneTick (t : TimerId) : RtTimer := timerInit 1 (t = 0) .hard

theorem inv_of_run {c : Config} {es : List Event} {s : State}
    (hrun : Runs.run (step c) (rtSystemTimerInit 0 oneTick) es = some s)
    (hok : Runs.Along (step c) (Window c) (rtSystemTimerInit 0 oneTick) es) :
    Inv c s ∧ Linkage False c s := by
  have hinit : ∀ t, (oneTick t).initTick.toNat < rtTickMaxHalf := by
    intro t
    show (1 : Tick).toNat < rtTickMaxHalf
    decide
  constructor
  · exact Runs.run_invariant_along (fun _ _ _ h hok hs => h.step hok hs) (inv_init 0 hinit) hok hrun
  · exact @Runs.run_invariant _ _ _ (Linkage False c) (fun _ _ _ h hs => h.step False.elim hs)
      _ _ _ (linkage_init False c 0 fun _ => rfl) hrun

/-- The first timer restarts, and its callback stops the third one. -/
theorem check_expires_one_tick : ∃ s, Runs.run (step ⟨2, 3, by decide⟩)
      (rtSystemTimerInit 0 oneTick) [.start 0, .start 1, .start 2, .tickIncrease] = some s ∧
    called ⟨2, 3, by decide⟩ .hard s (checkEvents .hard [[.stop 2], []]) = [0, 1] ∧
    ∃ s', Expiry ⟨2, 3, by decide⟩ .hard [[.stop 2], []] s s' := by
  refine ⟨_, rfl, by decide +kernel, ?_⟩
  obtain ⟨hinv, hlink⟩ := @inv_of_run ⟨2, 3, by decide⟩
    [.start 0, .start 1, .start 2, .tickIncrease] _ rfl (by decide +kernel)
  refine ⟨_, check_expires hinv hlink ⟨rfl, ?_, rfl, by decide +kernel⟩ (by decide +kernel)⟩
  simp [Foreign]

/-- A periodic timer with the longest period is restarted in front of a timer that is four ticks
overdue, and the check ends. -/
theorem overdue_timer_not_called : ∃ s, Runs.run (step ⟨1, 3, by decide⟩)
      (rtSystemTimerInit 0 oneTick) [.start 0, .control 0 (.setTime 0x7FFFFFFE), .start 1,
        .tickIncrease, .tickIncrease, .tickIncrease, .tickIncrease, .tickIncrease] = some s ∧
    Inv ⟨1, 3, by decide⟩ s ∧ Linkage False ⟨1, 3, by decide⟩ s ∧
    ∃ s', Check ⟨1, 3, by decide⟩ .hard [[]] s s' ∧ ¬ Expiry ⟨1, 3, by decide⟩ .hard [[]] s s' := by
  obtain ⟨hinv, hlink⟩ := @inv_of_run ⟨1, 3, by decide⟩
    [.start 0, .control 0 (.setTime 0x7FFFFFFE), .start 1, .tickIncrease, .tickIncrease,
      .tickIncrease, .tickIncrease, .tickIncrease] _ rfl (by decide +kernel)
  refine ⟨_, rfl, hinv, hlink, _, ⟨rfl, by simp, rfl, by decide +kernel⟩, ?_⟩
  intro h
  exact absurd (h.left 1 (by decide +kernel)) (by decide +kernel)

end RtThread.Timer
