import RtThread.TimerOrder

/-!
# The activation flag and the timer lists

A timer is linked when the bottom row of its list holds it. `rt_timer_start` links
a timer and sets its flag, the functions that stop or detach it undo both. A check
takes an expired timer out of its list and keeps it in a temporary list while its
callback runs; the flag of a periodic timer stays set there, to start it again
afterwards. This does not depend on the order of the lists.
-/
namespace RtThread.Timer

/-- The timer is in its timer list. -/
def Linked (c : Config) (s : State) (t : TimerId) : Prop :=
  t ∈ s.rows (s.timer t).kind (c.level - 1)

/-- The timer has expired and its callback, which is running, has not touched it. -/
def Awaits (s : State) (t : TimerId) : Prop := t ∈ s.pending (s.timer t).kind

instance (c : Config) (s : State) (t : TimerId) : Decidable (Linked c s t) :=
  inferInstanceAs (Decidable (_ ∈ _))

instance (s : State) (t : TimerId) : Decidable (Awaits s t) :=
  inferInstanceAs (Decidable (_ ∈ _))

/-- How the lists and the flags belong together. No flag is left behind while the callbacks keep
the flags of their own timers. -/
structure Linkage (kept : Prop) (c : Config) (s : State) : Prop where
  nested : ∀ k r, r + 1 < c.level → ∀ u ∈ s.rows k r, u ∈ s.rows k (r + 1)
  own : ∀ k, ∀ u ∈ s.rows k (c.level - 1), (s.timer u).kind = k
  flagged : ∀ u, Linked c s u → (s.timer u).activated = true
  found : kept → ∀ u, (s.timer u).activated = true → Linked c s u ∨ Awaits s u
  awaiting : ∀ k, ∀ u ∈ s.pending k,
    (s.timer u).kind = k ∧ s.inCallback k = some u ∧ ¬ Linked c s u

variable {k : ListKind} {r : Nat} {u : TimerId} {head : Option TimerId} {row : List TimerId}
  {x : RtTimer}

/-- The bottom row of its own list holds a timer that is in any row. -/
theorem Linkage.linked_of_mem {kept : Prop} {c : Config} {s : State} (h : Linkage kept c s)
    (hr : r < c.level) (hu : u ∈ s.rows k r) : Linked c s u := by
  have hbelow : ∀ n, r + n < c.level → u ∈ s.rows k (r + n) := by
    intro n
    induction n with
    | zero => exact fun _ => hu
    | succ n ih => exact fun hn => h.nested k (r + n) hn u (ih (by omega))
  have hbottom := hbelow (c.level - 1 - r) (by omega)
  rw [show r + (c.level - 1 - r) = c.level - 1 by omega] at hbottom
  rw [Linked, h.own k u hbottom]
  exact hbottom

/-! ## Linking a timer -/

theorem scanRow_mem {timeout : TimerId → Tick} {deadline : Tick} {x : TimerId}
    (h : scanRow timeout deadline head row = some x) : head = some x ∨ x ∈ row := by
  induction row generalizing head with
  | nil => exact .inl h
  | cons t rest ih =>
    rw [scanRow] at h
    split at h
    · exact .inl h
    · obtain ht | hx := ih h
      · cases ht
        exact .inr List.mem_cons_self
      · exact .inr (List.mem_cons_of_mem t hx)

theorem mem_of_mem_after {x : TimerId} (h : x ∈ after head row) : x ∈ row := by
  cases head with
  | none => exact h
  | some y => exact (List.dropWhile_sublist _).mem (List.mem_of_mem_tail h)

/-- The search ends at the list head or at a timer of its row. -/
theorem rowHead_mem {level : Nat} {rows : Nat → List TimerId}
    (hnested : ∀ r, r + 1 < level → ∀ u ∈ rows r, u ∈ rows (r + 1)) (timeout : TimerId → Tick)
    (deadline : Tick) (hr : r < level) {x : TimerId}
    (h : rowHead timeout deadline rows r = some x) : x ∈ rows r := by
  induction r generalizing x with
  | zero => exact (scanRow_mem h).resolve_left (by simp)
  | succ r ih =>
    obtain hx | hx := scanRow_mem h
    · exact hnested r hr x (ih (by omega) hx)
    · exact mem_of_mem_after hx

theorem mem_insertAfter {t : TimerId} (hx : ∀ x, head = some x → x ∈ row) :
    u ∈ insertAfter head t row ↔ u = t ∨ u ∈ row := by
  cases head with
  | none => simp [insertAfter]
  | some x =>
    replace hx : x ∈ row := hx x rfl
    induction row with
    | nil => exact absurd hx List.not_mem_nil
    | cons y row ih =>
      rw [insertAfter]
      split
      · simp only [List.mem_cons]
        tauto
      · rename_i hyx
        have hx' : x ∈ row := (List.mem_cons.mp hx).resolve_left fun h => hyx h.symm
        have hrow : u ∈ insertAfter (some x) t row ↔ u = t ∨ u ∈ row := ih hx'
        rw [List.mem_cons, hrow, List.mem_cons]
        tauto

variable {kept : Prop} {c : Config} {s : State} {t : TimerId}

/-- A started timer is in its own list from some row on, and the others are where they were. -/
theorem mem_rtTimerStart (h : Linkage kept c s) (k : ListKind) (hr : r < c.level) (u : TimerId) :
    u ∈ (rtTimerStart c s t).rows k r ↔
      u = t ∧ k = (s.timer t).kind ∧ firstRow c s ≤ r ∨ u ≠ t ∧ u ∈ s.rows k r := by
  have hfilter : ∀ k r u, u ∈ (timerRemove s t).rows k r ↔ u ≠ t ∧ u ∈ s.rows k r := by
    intro k r u
    simp [timerRemove, and_comm]
  have hnested : ∀ r, r + 1 < c.level → ∀ u ∈ (timerRemove s t).rows (s.timer t).kind r,
      u ∈ (timerRemove s t).rows (s.timer t).kind (r + 1) := by
    intro r hr u hu
    rw [hfilter] at hu ⊢
    exact ⟨hu.1, h.nested _ r hr u hu.2⟩
  by_cases hk : k = (s.timer t).kind
  · subst hk
    rw [show (rtTimerStart c s t).rows (s.timer t).kind r = Function.update (timerRemove s t).rows
      (s.timer t).kind _ (s.timer t).kind r from rfl, Function.update_self]
    split
    · rename_i hrange
      have hfirst : firstRow c s ≤ r := hrange.1
      refine (mem_insertAfter fun x hx => rowHead_mem hnested _ _ hr hx).trans ?_
      simp only [hfirst, and_true]
      exact or_congr_right (hfilter (s.timer t).kind r u)
    · rename_i hrange
      have hfirst : ¬ firstRow c s ≤ r := fun hle => hrange ⟨hle, hr⟩
      simp only [hfirst, and_false, false_or]
      exact hfilter (s.timer t).kind r u
  · have hrow : (rtTimerStart c s t).rows k r = (timerRemove s t).rows k r := by
      simp only [rtTimerStart, setTimer, timerRemove]
      rw [Function.update_of_ne hk]
    rw [hrow, hfilter]
    simp [hk]

theorem linked_rtTimerStart (h : Linkage kept c s) (u : TimerId) :
    Linked c (rtTimerStart c s t) u ↔ u = t ∨ Linked c s u := by
  have hpos := c.level_pos
  have hkind : ((rtTimerStart c s t).timer u).kind = (s.timer u).kind := by
    by_cases hu : u = t
    · subst hu
      simp [rtTimerStart, setTimer, timerRemove]
    · simp [rtTimerStart, setTimer, timerRemove, hu]
  have hfirst : firstRow c s ≤ c.level - 1 := Nat.sub_le _ _
  rw [Linked, hkind, mem_rtTimerStart h _ (by omega), Linked]
  by_cases hu : u = t
  · subst hu
    simp [hfirst]
  · simp [hu]

/-! ## What each function keeps -/

theorem timer_rtTimerStart (u : TimerId) : ((rtTimerStart c s t).timer u).kind = (s.timer u).kind ∧
      ((rtTimerStart c s t).timer u).periodic = (s.timer u).periodic ∧
      ((rtTimerStart c s t).timer u).activated = if u = t then true else (s.timer u).activated := by
  by_cases hu : u = t
  · subst hu
    simp [rtTimerStart, setTimer, timerRemove]
  · simp [rtTimerStart, setTimer, timerRemove, hu]

section

variable (h : Linkage kept c s)
include h

theorem Linkage.start (t : TimerId) : Linkage kept c (rtTimerStart c s t) := by
  have hpos := c.level_pos
  have hkind := fun u => (timer_rtTimerStart (c := c) (s := s) (t := t) u).1
  have hflag := fun u => (timer_rtTimerStart (c := c) (s := s) (t := t) u).2.2
  have hpending : ∀ k u, u ∈ (rtTimerStart c s t).pending k ↔ u ≠ t ∧ u ∈ s.pending k := by
    intro k u
    simp [rtTimerStart, setTimer, timerRemove, and_comm]
  refine ⟨?_, ?_, ?_, ?_, ?_⟩
  · intro k r hr u hu
    rw [mem_rtTimerStart h k (by omega)] at hu ⊢
    obtain ⟨hut, hk, hfirst⟩ | ⟨hut, hu⟩ := hu
    · exact .inl ⟨hut, hk, by omega⟩
    · exact .inr ⟨hut, h.nested k r hr u hu⟩
  · intro k u hu
    rw [mem_rtTimerStart h k (by omega)] at hu
    rw [hkind]
    obtain ⟨rfl, hk, _⟩ | ⟨_, hu⟩ := hu
    · exact hk.symm
    · exact h.own k u hu
  · intro u hu
    rw [hflag]
    split
    · rfl
    · rename_i hut
      exact h.flagged u (((linked_rtTimerStart h u).mp hu).resolve_left hut)
  · intro hkept u hu
    rw [linked_rtTimerStart h]
    by_cases hut : u = t
    · exact .inl (.inl hut)
    · rw [hflag, if_neg hut] at hu
      obtain hl | ha := h.found hkept u hu
      · exact .inl (.inr hl)
      · refine .inr ?_
        rw [Awaits, hkind, hpending]
        exact ⟨hut, ha⟩
  · intro k u hu
    rw [hpending] at hu
    obtain ⟨hk, hc, hl⟩ := h.awaiting k u hu.2
    refine ⟨(hkind u).trans hk, hc, ?_⟩
    rw [linked_rtTimerStart h]
    exact fun hor => hor.elim hu.1 hl

/-- A timer that is stopped: it leaves every list, and its flag is cleared. -/
theorem Linkage.unlink (hk : x.kind = (s.timer t).kind)
    (ha : x.activated = false) : Linkage kept c (setTimer (timerRemove s t) t x) := by
  have hkind : ∀ u, ((setTimer (timerRemove s t) t x).timer u).kind = (s.timer u).kind := by
    intro u
    by_cases hu : u = t
    · subst hu
      simpa [setTimer] using hk
    · simp [setTimer, timerRemove, hu]
  have hrows : ∀ k r u, u ∈ (setTimer (timerRemove s t) t x).rows k r ↔
      u ∈ s.rows k r ∧ u ≠ t := by
    intro k r u
    simp [setTimer, timerRemove]
  have hpending : ∀ k u, u ∈ (setTimer (timerRemove s t) t x).pending k ↔
      u ∈ s.pending k ∧ u ≠ t := by
    intro k u
    simp [setTimer, timerRemove]
  have hlinked : ∀ u, Linked c (setTimer (timerRemove s t) t x) u ↔ Linked c s u ∧ u ≠ t := by
    intro u
    rw [Linked, hkind, hrows, Linked]
  have hflag : ∀ u, u ≠ t → ((setTimer (timerRemove s t) t x).timer u).activated =
      (s.timer u).activated := by
    intro u hu
    simp [setTimer, timerRemove, hu]
  refine ⟨?_, ?_, ?_, ?_, ?_⟩
  · intro k r hr u hu
    rw [hrows] at hu ⊢
    exact ⟨h.nested k r hr u hu.1, hu.2⟩
  · intro k u hu
    rw [hkind]
    exact h.own k u ((hrows _ _ _).mp hu).1
  · intro u hu
    rw [hlinked] at hu
    rw [hflag u hu.2]
    exact h.flagged u hu.1
  · intro hkept u hu
    have hut : u ≠ t := by
      rintro rfl
      simp [setTimer, ha] at hu
    rw [hflag u hut] at hu
    rw [hlinked, Awaits, hkind, hpending]
    exact (h.found hkept u hu).imp (⟨·, hut⟩) (⟨·, hut⟩)
  · intro k u hu
    rw [hpending] at hu
    obtain ⟨hk', hc, hl⟩ := h.awaiting k u hu.1
    exact ⟨(hkind u).trans hk', hc, fun hl' => hl ((hlinked u).mp hl').1⟩

/-- Changing the time or the mode of a timer. -/
theorem Linkage.setTimer (hk : x.kind = (s.timer t).kind)
    (ha : x.activated = (s.timer t).activated) : Linkage kept c (setTimer s t x) := by
  have hkind : ∀ u, ((Timer.setTimer s t x).timer u).kind = (s.timer u).kind := by
    intro u
    by_cases hu : u = t
    · subst hu
      simpa [Timer.setTimer] using hk
    · simp [Timer.setTimer, hu]
  have hflag : ∀ u, ((Timer.setTimer s t x).timer u).activated = (s.timer u).activated := by
    intro u
    by_cases hu : u = t
    · subst hu
      simpa [Timer.setTimer] using ha
    · simp [Timer.setTimer, hu]
  have hlinked : ∀ u, Linked c (Timer.setTimer s t x) u ↔ Linked c s u := by
    intro u
    rw [Linked, hkind]
    rfl
  refine ⟨h.nested, fun k u hu => (hkind u).trans (h.own k u hu), ?_, ?_, ?_⟩
  · intro u hu
    rw [hflag]
    exact h.flagged u ((hlinked u).mp hu)
  · intro hkept u hu
    rw [hflag] at hu
    rw [hlinked, Awaits, hkind]
    exact h.found hkept u hu
  · intro k u hu
    obtain ⟨hk', hc, hl⟩ := h.awaiting k u hu
    exact ⟨(hkind u).trans hk', hc, fun hl' => hl ((hlinked u).mp hl')⟩

theorem Linkage.stop (t : TimerId) : Linkage kept c (rtTimerStop s t).1 := by
  rw [rtTimerStop]
  split
  · exact h.unlink rfl rfl
  · exact h

theorem Linkage.detach (t : TimerId) : Linkage kept c (rtTimerDetach s t) :=
  h.unlink rfl rfl

theorem Linkage.control {cmd : Cmd} {r : State × Option Tick}
    (hr : rtTimerControl s t cmd = some r) : Linkage kept c r.1 := by
  cases cmd with
  | setTime time =>
    rw [rtTimerControl] at hr
    split at hr
    · cases hr
      exact h.setTimer rfl rfl
    · cases hr
  | setOneshot | setPeriodic =>
    cases hr
    exact h.setTimer rfl rfl
  | getTime | getState | getRemainTime =>
    cases hr
    exact h

/-- A step at a timer that is in no list. -/
theorem Linkage.unlinked {s' : State} (hl : ¬ Linked c s t) (hrows : s'.rows = s.rows)
    (hkind : ∀ u, (s'.timer u).kind = (s.timer u).kind)
    (hflag : ∀ u, u ≠ t → (s'.timer u).activated = (s.timer u).activated)
    (hfound : kept → (s'.timer t).activated = true → Awaits s' t)
    (hawaits : ∀ u, u ≠ t → Awaits s u → Awaits s' u)
    (hawaiting : ∀ j, ∀ u ∈ s'.pending j,
      (s'.timer u).kind = j ∧ s'.inCallback j = some u ∧ ¬ Linked c s u) : Linkage kept c s' := by
  have hlinked : ∀ u, Linked c s' u ↔ Linked c s u := by
    intro u
    rw [Linked, Linked, hkind, hrows]
  refine ⟨?_, fun j u hu => ?_, fun u hu => ?_, fun hkept u hu => ?_, fun j u hu => ?_⟩
  · rw [hrows]
    exact h.nested
  · rw [hrows] at hu
    exact (hkind u).trans (h.own j u hu)
  · have hu := (hlinked u).mp hu
    have hut : u ≠ t := by
      rintro rfl
      exact hl hu
    rw [hflag u hut]
    exact h.flagged u hu
  · by_cases hut : u = t
    · subst hut
      exact .inr (hfound hkept hu)
    · rw [hflag u hut] at hu
      exact (h.found hkept u hu).imp (hlinked u).mpr (hawaits u hut)
  · obtain ⟨hk, hc, hl'⟩ := hawaiting j u hu
    exact ⟨hk, hc, fun hu' => hl' ((hlinked u).mp hu')⟩

/-- An expired timer that has left its list enters the temporary list of the check. -/
theorem Linkage.await (hk : (s.timer t).kind = k) (hl : ¬ Linked c s t)
    (hc : s.inCallback k = none) (hx : x.kind = k) :
    Linkage kept c { Timer.setTimer s t x with
      pending := Function.update s.pending k (t :: s.pending k)
      inCallback := Function.update s.inCallback k (some t) } := by
  set s' : State := { Timer.setTimer s t x with
    pending := Function.update s.pending k (t :: s.pending k)
    inCallback := Function.update s.inCallback k (some t) } with hs'
  have hkind : ∀ u, (s'.timer u).kind = (s.timer u).kind := by
    intro u
    by_cases hu : u = t
    · subst hu
      simp [hs', Timer.setTimer, hx, hk]
    · simp [hs', Timer.setTimer, hu]
  have hnone : ∀ u, u ∉ s.pending k := by
    intro u hu
    have := (h.awaiting k u hu).2.1
    rw [hc] at this
    simp at this
  refine h.unlinked hl rfl hkind (fun u hu => by simp [hs', Timer.setTimer, hu]) ?_ ?_ ?_
  · intro _ _
    rw [Awaits, hkind, hk]
    simp [hs']
  · intro u _ ha
    rw [Awaits, hkind]
    have huk : (s.timer u).kind ≠ k := by
      intro huk
      rw [Awaits, huk] at ha
      exact hnone u ha
    simpa [hs', huk, Awaits] using ha
  · intro j u hu
    by_cases hj : j = k
    · subst hj
      have hut : u = t := by simpa [hs', hnone u] using hu
      subst hut
      exact ⟨(hkind u).trans hk, by simp [hs'], hl⟩
    · have hu' : u ∈ s.pending j := by simpa [hs', hj] using hu
      obtain ⟨hk', hc', hl'⟩ := h.awaiting j u hu'
      exact ⟨(hkind u).trans hk', by simpa [hs', hj] using hc', hl'⟩

theorem Linkage.checkPop (hc : s.inCallback k = none) {r : State × TimerId}
    (hr : timerCheckPop c s k = some r) : Linkage kept c r.1 := by
  rw [timerCheckPop] at hr
  split at hr
  · cases hr
  · rename_i t rest hrow
    split at hr
    · cases hr
      have hk : (s.timer t).kind = k := h.own k t (by rw [hrow]; exact List.mem_cons_self)
      have h₁ : Linkage kept c (Timer.setTimer (timerRemove s t) t
          { s.timer t with activated := false }) := h.unlink rfl rfl
      have hnot : ¬ Linked c (Timer.setTimer (timerRemove s t) t
          { s.timer t with activated := false }) t := by
        simp [Linked, Timer.setTimer, timerRemove]
      have h₂ := h₁.await (k := k) (by simpa [Timer.setTimer] using hk) hnot hc
        (x := { s.timer t with activated := (s.timer t).activated && (s.timer t).periodic }) hk
      simpa [Timer.setTimer, timerRemove] using h₂
    · cases hr

/-- The timer whose callback has ended leaves the temporary list. -/
theorem Linkage.settle (hc : s.inCallback k = some t)
    (hx : x.kind = (s.timer t).kind) (ha : kept → x.activated = false) (ht : t ∈ s.pending k) :
    Linkage kept c (Timer.setTimer { s with
      inCallback := Function.update s.inCallback k none
      pending := Function.update s.pending k ((s.pending k).filter (· ≠ t)) } t x) := by
  obtain ⟨hk, _, hl⟩ := h.awaiting k t ht
  set s' := Timer.setTimer { s with
    inCallback := Function.update s.inCallback k none
    pending := Function.update s.pending k ((s.pending k).filter (· ≠ t)) } t x with hs'
  have hkind : ∀ u, (s'.timer u).kind = (s.timer u).kind := by
    intro u
    by_cases hu : u = t
    · subst hu
      simp [hs', Timer.setTimer, hx]
    · simp [hs', Timer.setTimer, hu]
  have honly : ∀ u ∈ s.pending k, u = t := by
    intro u hu
    exact Option.some.inj ((h.awaiting k u hu).2.1.symm.trans hc)
  refine h.unlinked hl rfl hkind (fun u hu => by simp [hs', Timer.setTimer, hu]) ?_ ?_ ?_
  · intro hkept hu
    simp [hs', Timer.setTimer, ha hkept] at hu
  · intro u hut hw
    have huk : (s.timer u).kind ≠ k := by
      intro huk
      rw [Awaits, huk] at hw
      exact hut (honly u hw)
    rw [Awaits, hkind]
    simpa [hs', Timer.setTimer, huk, Awaits] using hw
  · intro j u hu
    by_cases hj : j = k
    · subst hj
      have hu' : u ∈ s.pending j ∧ u ≠ t := by simpa [hs', Timer.setTimer] using hu
      exact absurd (honly u hu'.1) hu'.2
    · have hu' : u ∈ s.pending j := by simpa [hs', Timer.setTimer, hj] using hu
      obtain ⟨hk', hc', hl'⟩ := h.awaiting j u hu'
      exact ⟨(hkind u).trans hk', by simpa [hs', Timer.setTimer, hj] using hc', hl'⟩

theorem Linkage.leave (hp : s.pending k = []) :
    Linkage kept c { s with inCallback := Function.update s.inCallback k none } := by
  refine ⟨h.nested, h.own, h.flagged, h.found, fun j u hu => ?_⟩
  have hj : j ≠ k := by
    rintro rfl
    have hu' : u ∈ s.pending j := hu
    rw [hp] at hu'
    exact absurd hu' List.not_mem_nil
  obtain ⟨hk, hc, hl⟩ := h.awaiting j u hu
  exact ⟨hk, by simpa [hj] using hc, hl⟩

theorem Linkage.checkFinish (hc : s.inCallback k = some t)
    (hok : kept → ∀ u ∈ s.pending k, (s.timer u).activated = true → (s.timer u).periodic = true) :
    Linkage kept c (timerCheckFinish c s k t) := by
  simp only [timerCheckFinish]
  split
  · rename_i hp
    exact h.leave hp
  · rename_i hp
    obtain ⟨u, hu⟩ := List.exists_mem_of_ne_nil _ hp
    obtain rfl : u = t := Option.some.inj ((h.awaiting k u hu).2.1.symm.trans hc)
    split
    · exact (h.settle (x := { s.timer u with activated := false }) hc rfl (fun _ => rfl) hu).start u
    · rename_i hstop
      have hoff : kept → (s.timer u).activated = false := by
        intro hkept
        by_contra hon
        have hon : (s.timer u).activated = true := by simpa using hon
        exact hstop (by simp [hok hkept u hu hon, hon])
      have h₁ := h.settle (x := s.timer u) hc rfl hoff hu
      simpa [Timer.setTimer] using h₁

end

/-! ## Runs -/

/-- The callback has not turned its own timer, which is still flagged, into a one-shot timer. -/
def FlagKept (s : State) : Event → Prop
  | .checkFinish k =>
    ∀ t ∈ s.pending k, (s.timer t).activated = true → (s.timer t).periodic = true
  | _ => True

instance decidableFlagKept (s : State) : ∀ e, Decidable (FlagKept s e)
  | .checkFinish k => inferInstanceAs (Decidable (∀ t ∈ s.pending k, _ → _))
  | .start _ | .stop _ | .detach _ | .control _ _ | .tickIncrease | .checkPop _ => .isTrue trivial

theorem Linkage.step {s' : State} {e : Event} (h : Linkage kept c s) (hok : kept → FlagKept s e)
    (hs : step c s e = some s') : Linkage kept c s' := by
  cases e with
  | start t =>
    cases hs
    exact h.start t
  | stop t =>
    cases hs
    exact h.stop t
  | detach t =>
    cases hs
    exact h.detach t
  | control t cmd =>
    obtain ⟨r, hr, rfl⟩ := Option.map_eq_some_iff.mp hs
    exact h.control hr
  | tickIncrease =>
    cases hs
    exact ⟨h.nested, h.own, h.flagged, h.found, h.awaiting⟩
  | checkPop k =>
    rw [Timer.step] at hs
    split at hs
    · rename_i hc
      obtain ⟨r, hr, rfl⟩ := Option.map_eq_some_iff.mp hs
      exact h.checkPop hc hr
    · cases hs
  | checkFinish k =>
    obtain ⟨t, ht, rfl⟩ := Option.map_eq_some_iff.mp hs
    exact h.checkFinish ht hok

theorem linkage_init (kept : Prop) (c : Config) (tick : Tick) {timer : TimerId → RtTimer}
    (hinit : ∀ t, (timer t).activated = false) : Linkage kept c (rtSystemTimerInit tick timer) where
  nested := fun _ _ _ _ hu => absurd hu List.not_mem_nil
  own := fun _ _ hu => absurd hu List.not_mem_nil
  flagged := fun _ hu => absurd hu List.not_mem_nil
  found := fun _ t ht => by
    rw [show ((rtSystemTimerInit tick timer).timer t).activated = false from hinit t] at ht
    cases ht
  awaiting := fun _ _ hu => absurd hu List.not_mem_nil

theorem Linkage.flag_iff (h : Linkage True c s) (ht : ¬ Awaits s t) :
    (s.timer t).activated = true ↔ Linked c s t :=
  ⟨fun ha => (h.found trivial t ha).resolve_right ht, h.flagged t⟩

/-- A periodic hard timer with a period of one tick. -/
def ticker (_ : TimerId) : RtTimer := timerInit 1 true .hard

/-- The callback stops its timer and starts it again. -/
def restartInCallback : List Event :=
  [.start 0, .tickIncrease, .checkPop .hard, .stop 0, .start 0, .checkFinish .hard]

end RtThread.Timer
