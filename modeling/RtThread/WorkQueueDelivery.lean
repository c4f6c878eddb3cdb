import RtThread.WorkQueueState

/-!
# Submissions are not lost

A submission that has been accepted is owed until the item is cancelled or its function is
called. While it is owed, the item is in a work list, in a delayed list with its timer
active or in transit, or in the hands of a worker that is about to call its function.

Two steps drop an item: the timeout handler when the item is executing, and an immediate
submission that finds the item executing. The runs considered here make the first one
never, and the second one only for items that are in no list.
-/
namespace RtThread.WorkQueue

open Function (update_of_ne update_self)
open Ipc (ThreadId)

/-- A state with the events so far. -/
structure Traced where
  state : State
  log : List Event

def tracedStep (x : Traced) (op : Op) : Option Traced :=
  (act x.state op).map fun r => ⟨r.1, x.log ++ r.2⟩

/-- An accepted submission of the item has been neither cancelled nor followed by a call. -/
def Owed (log : List Event) (w : WorkId) : Prop :=
  ∃ before after, log = before ++ .submitted w .eok :: after ∧
    (∀ r, .cancelled w r ∉ after) ∧ .called w ∉ after

/-- The item is in a list, or a worker is about to call its function. -/
def Kept (s : State) (w : WorkId) : Prop :=
  (∃ q, w ∈ s.workList q) ∨
    ((∃ q, w ∈ s.delayedList q) ∧ ((s.work w).active = true ∨ InTransit s w)) ∨
    ∃ q, s.worker q = .taken w

/-- The events of a step keep the promise: what has been submitted by it, or has been kept and is
not cancelled or called by it, is kept behind it. -/
def Carries (s s' : State) (evs : List Event) : Prop :=
  ∀ w, .submitted w .eok ∈ evs ∨
    (Kept s w ∧ (∀ r, .cancelled w r ∉ evs) ∧ .called w ∉ evs) → Kept s' w

theorem Owed.of_append {log evs : List Event} {w : WorkId} (h : Owed (log ++ evs) w) :
    .submitted w .eok ∈ evs ∨
      (Owed log w ∧ (∀ r, .cancelled w r ∉ evs) ∧ .called w ∉ evs) := by
  obtain ⟨before, after, heq, hcancel, hcall⟩ := h
  obtain ⟨mid, -, hevs⟩ | ⟨mid, hlog, hafter⟩ := List.append_eq_append_iff.mp heq
  · refine .inl ?_
    rw [hevs]
    exact List.mem_append_right _ List.mem_cons_self
  · cases mid with
    | nil =>
      rw [List.nil_append] at hafter
      refine .inl ?_
      rw [← hafter]
      exact List.mem_cons_self
    | cons e mid =>
      rw [List.cons_append] at hafter
      obtain ⟨rfl, rfl⟩ := List.cons.inj hafter
      simp only [List.mem_append, not_or] at hcancel hcall
      exact .inr ⟨⟨before, mid, hlog, fun r => (hcancel r).1, hcall.1⟩, fun r => (hcancel r).2,
        hcall.2⟩

section carrying

variable {s s' : State} {t : ThreadId} {q : QueueId} {w v : WorkId} {evs : List Event}

theorem Kept.untouched (h : Kept s w) (hu : Untouched s s' w)
    (htaken : ∀ q, s.worker q = .taken w → s'.worker q = .taken w) : Kept s' w := by
  obtain ⟨q, hmem⟩ | ⟨⟨q, hmem⟩, harmed⟩ | ⟨q, hq⟩ := h
  · exact .inl ⟨q, (hu.workList q).mpr hmem⟩
  · refine .inr (.inl ⟨⟨q, (hu.delayedList q).mpr hmem⟩, ?_⟩)
    rw [hu.work]
    exact harmed.imp_right (·.untouched hu)
  · exact .inr (.inr ⟨q, htaken q hq⟩)

/-- A step with no events that touches no item. -/
theorem carries_untouched (hu : ∀ w, Untouched s s' w)
    (htaken : ∀ w q, s.worker q = .taken w → s'.worker q = .taken w) : Carries s s' [] := by
  rintro w (hmem | ⟨hkept, -, -⟩)
  · cases hmem
  · exact hkept.untouched (hu w) (htaken w)

/-- A step on one item. -/
theorem carries_of_item {e : Event} (he : ∀ w, w ≠ v → e ≠ .submitted w .eok)
    (hu : ∀ w, w ≠ v → Untouched s s' w)
    (htaken : ∀ w q, s.worker q = .taken w → s'.worker q = .taken w)
    (hv : e = .submitted v .eok ∨ (Kept s v ∧ (∀ r, e ≠ .cancelled v r) ∧ e ≠ .called v) →
      Kept s' v) : Carries s s' [e] := by
  intro w hw
  simp only [List.mem_singleton] at hw
  by_cases hne : w = v
  · subst hne
    exact hv (hw.imp Eq.symm fun h => ⟨h.1, fun r => (Ne.symm (h.2.1 r)), Ne.symm h.2.2⟩)
  · obtain heq | ⟨hkept, -, -⟩ := hw
    · exact absurd heq.symm (he w hne)
    · exact hkept.untouched (hu w hne) (htaken w)

theorem resumeWorker_taken (h : s.worker q = .taken w) (q' : QueueId) :
    (resumeWorker s q').worker q = .taken w := by
  unfold resumeWorker
  split
  · rename_i hasleep
    have hne : q ≠ q' := by
      rintro rfl
      rw [h] at hasleep
      exact nomatch hasleep.2
    exact (update_of_ne hne _ _).trans h
  · exact h

/-! ## The steps of a call -/

/-- The item is in no list. -/
def Unlinked (s : State) (w : WorkId) : Prop :=
  ∀ q, w ∉ s.workList q ∧ w ∉ s.delayedList q

theorem Kept.of_unlinked (h : Kept s w) (hun : Unlinked s w) : ∃ q, s.worker q = .taken w := by
  obtain ⟨q, hmem⟩ | ⟨⟨q, hmem⟩, -⟩ | hq := h
  · exact absurd hmem (hun q).1
  · exact absurd hmem (hun q).2
  · exact hq

theorem carries_submit {ticks : Nat} (hout : s.call t = .outside) (hticks : ticks < rtTickMaxHalf)
    (hok : ticks = 0 → s.workCurrent q = some v → Unlinked s v)
    (hs : workqueueSubmitWork s t q v ticks = some (s', evs)) : Carries s s' evs := by
  have hu : ∀ w, w ≠ v → Untouched s s' w := fun w hne => untouched_submit hout hne hs
  have hother : ∀ (r : RtErr) (w : WorkId), w ≠ v →
      Event.submitted v r ≠ .submitted w .eok := by
    intro r w hne heq
    exact hne (Event.submitted.inj heq).1.symm
  unfold workqueueSubmitWork at hs
  dsimp only at hs
  split at hs
  · rename_i hzero
    split at hs
    · cases hs
      refine carries_of_item (hother _) hu (fun w q' hq => resumeWorker_taken (by exact hq) q) fun _ => ?_
      exact .inl ⟨q, by simp [setWork]⟩
    · rename_i hcur
      have hcur : s.workCurrent q = some v := by
        by_contra hne
        exact hcur hne
      cases hs
      refine carries_of_item (hother _) hu (fun w q' hq => resumeWorker_taken (by exact hq) q) fun hv => ?_
      obtain heq | ⟨hkept, -, -⟩ := hv
      · cases heq
      · obtain ⟨q', hq'⟩ := hkept.of_unlinked (hok hzero hcur)
        exact .inr (.inr ⟨q', resumeWorker_taken (by exact hq') q⟩)
  · obtain ⟨x, -, heq⟩ := Option.map_eq_some_iff.mp hs
    cases heq
    refine carries_of_item (hother _) hu (fun w q' hq => hq) fun _ => ?_
    exact .inr (.inl ⟨⟨q, by simp [setCall, setWork]⟩,
      .inr (.inl ⟨t, update_self _ _ _⟩)⟩)

theorem carries_urgent :
    Carries s (rtWorkqueueUrgentWork s q v).1 (rtWorkqueueUrgentWork s q v).2 := by
  refine carries_of_item (fun w hne heq => hne (Event.submitted.inj heq).1.symm)
    (fun w hne => untouched_urgent hne) (fun w q' hq => resumeWorker_taken (by exact hq) q) fun _ => ?_
  exact .inl ⟨q, by simp [rtWorkqueueUrgentWork]⟩

theorem carries_cancel (hs : workqueueCancelWork s q v = some (s', evs)) : Carries s s' evs := by
  have hu : ∀ w, w ≠ v → Untouched s s' w := fun w hne => untouched_cancel hne hs
  obtain ⟨x, -, heq⟩ := Option.map_eq_some_iff.mp hs
  cases heq
  refine carries_of_item (fun w hne heq => nomatch heq) hu (fun w q' hq => hq) fun hv => ?_
  obtain heq | ⟨-, hcancel, -⟩ := hv
  · cases heq
  · exact absurd rfl (hcancel _)

/-- The caller goes on behind a step of its call. -/
theorem Carries.setCall {c : Call} (h : Carries s s' evs) (ht : ∀ w, s'.call t ≠ .starting w) :
    Carries s (setCall s' t c) evs :=
  fun w hw => (h w hw).untouched (untouched_setCall (ht w)) fun _ hq => hq

theorem carries_proceed (hs : proceed s t = some (s', evs)) : Carries s s' evs := by
  have hcancel : ∀ {q v c}, (∀ w, s.call t ≠ .starting w) →
      (workqueueCancelWork s q v).map (fun r => (WorkQueue.setCall r.1 t c, r.2)) =
        some (s', evs) → Carries s s' evs := by
    intro q v c hstart hmap
    obtain ⟨⟨s₁, evs₁⟩, hs₁, heq⟩ := Option.map_eq_some_iff.mp hmap
    cases heq
    refine (carries_cancel hs₁).setCall fun w => ?_
    rw [workqueueCancelWork_call hs₁]
    exact hstart w
  have hcall : ∀ c, (∀ w, s.call t ≠ .starting w) → Carries s (WorkQueue.setCall s t c) [] :=
    fun c hstart => carries_untouched (fun w => untouched_setCall (hstart w)) fun w q hq => hq
  unfold WorkQueue.proceed at hs
  split at hs
  · cases hs
  · rename_i v hstart
    obtain ⟨x, hx, heq⟩ := Option.map_eq_some_iff.mp hs
    obtain ⟨-, rfl⟩ := rtTimerStart_some hx
    cases heq
    rintro w (hmem | ⟨hkept, -, -⟩)
    · cases hmem
    · by_cases hne : w = v
      · subst hne
        obtain ⟨q, hmem⟩ | ⟨⟨q, hmem⟩, -⟩ | ⟨q, hq⟩ := hkept
        · exact .inl ⟨q, hmem⟩
        · refine .inr (.inl ⟨⟨q, hmem⟩, .inl ?_⟩)
          show ((setWork s w _).work w).active = true
          rw [setWork_work_same]
        · exact .inr (.inr ⟨q, hq⟩)
      · refine hkept.untouched ((untouched_setWork hne).trans (untouched_setCall ?_))
          fun q hq => hq
        show s.call t ≠ .starting w
        rw [hstart]
        exact fun heq => hne (Call.starting.inj heq).symm
  · rename_i hc
    exact hcancel (by simp [hc]) hs
  · rename_i hc
    cases hs
    refine carries_untouched (fun w => untouched_semTake (by simp [hc])) fun w q' hq => ?_
    rw [semTake_worker]
    exact hq
  · rename_i hc
    split at hs
    · cases hs
    · cases hs
      exact hcall _ (by simp [hc])
  · rename_i hc
    cases hs
    exact hcall _ (by simp [hc])
  · rename_i hc
    exact hcancel (by simp [hc]) hs
  · rename_i hc
    cases hs
    exact hcall _ (by simp [hc])
  · rename_i hc
    exact hcancel (by simp [hc]) hs

/-! ## The soft timer thread and the workers -/

theorem carries_expire (hs : expire s v = some (s', evs)) : Carries s s' evs := by
  unfold WorkQueue.expire at hs
  split at hs
  · rename_i hidle
    cases hs
    rintro w (hmem | ⟨hkept, -, -⟩)
    · cases hmem
    · by_cases hne : w = v
      · subst hne
        obtain ⟨q, hmem⟩ | ⟨⟨q, hmem⟩, -⟩ | ⟨q, hq⟩ := hkept
        · exact .inl ⟨q, hmem⟩
        · exact .inr (.inl ⟨⟨q, hmem⟩, .inr (.inr (.inl rfl))⟩)
        · exact .inr (.inr ⟨q, hq⟩)
      · refine hkept.untouched ⟨setWork_work_of_ne hne, fun _ => Iff.rfl, fun _ => Iff.rfl,
          fun h => h, ?_, fun _ => ?_⟩ fun q hq => hq
        · simp [hidle.1, Ne.symm hne]
        · simp [hidle.1]
  · cases hs

theorem carries_timeout (hok : ∀ v q, s.soft = .handling v q → s.workCurrent q ≠ some v)
    (hs : delayedWorkTimeoutHandler s = some (s', evs)) : Carries s s' evs := by
  unfold delayedWorkTimeoutHandler at hs
  split at hs
  · cases hs
  · rename_i v hsoft
    obtain ⟨q, -, heq⟩ := Option.map_eq_some_iff.mp hs
    cases heq
    rintro w (hmem | ⟨hkept, -, -⟩)
    · cases hmem
    · obtain hmem | ⟨hmem, harmed⟩ | hq := hkept
      · exact .inl hmem
      · refine .inr (.inl ⟨hmem, harmed.imp_right fun htransit => ?_⟩)
        obtain hstart | hexp | ⟨q', hhand⟩ := htransit
        · exact .inl hstart
        · rw [hsoft] at hexp
          cases hexp
          exact .inr (.inr ⟨q, rfl⟩)
        · rw [hsoft] at hhand
          cases hhand
      · exact .inr (.inr hq)
  · rename_i v q hsoft
    obtain ⟨x, -, heq⟩ := Option.map_eq_some_iff.mp hs
    have hcur : (unlink s v).workCurrent q ≠ some v := hok v q hsoft
    have hu : ∀ w, w ≠ v → Untouched s s' w := fun w hne => untouched_section hsoft hne heq
    rw [if_pos hcur] at heq
    cases heq
    rintro w (hmem | ⟨hkept, -, -⟩)
    · cases hmem
    · by_cases hne : w = v
      · subst hne
        exact .inl ⟨q, by simp [setWork]⟩
      · exact hkept.untouched (hu w hne) fun q' hq => resumeWorker_taken (by exact hq) q

theorem carries_worker (hs : workerStep s q = some (s', evs)) : Carries s s' evs := by
  have hmoves : ∀ {w q' new}, s.worker q' = .taken w → s.worker q ≠ .taken w →
      Function.update s.worker q new q' = .taken w := by
    intro w q' new hq' hq
    have hne : q' ≠ q := by
      rintro rfl
      exact hq hq'
    exact (update_of_ne hne _ _).trans hq'
  unfold workerStep at hs
  split at hs
  · rename_i hawake
    split at hs
    · cases hs
      exact carries_untouched (fun w => untouched_same rfl rfl rfl rfl rfl) fun w q' hq' =>
        hmoves hq' (by simp [hawake])
    · rename_i v rest hlist
      cases hs
      rintro w (hmem | ⟨hkept, -, -⟩)
      · cases hmem
      · by_cases hne : w = v
        · subst hne
          exact .inr (.inr ⟨q, update_self _ _ _⟩)
        · exact hkept.untouched (untouched_take hne) fun q' hq' => hmoves hq' (by simp [hawake])
  · cases hs
  · rename_i v htaken
    cases hs
    rintro w (hmem | ⟨hkept, -, hcall⟩)
    · simp at hmem
    · have hne : v ≠ w := by
        rintro rfl
        exact hcall List.mem_cons_self
      exact hkept.untouched (untouched_same rfl rfl rfl rfl rfl) fun q' hq' =>
        hmoves hq' (by simp [htaken, hne])
  · rename_i v hrunning
    cases hs
    exact carries_untouched (fun w => untouched_same rfl rfl rfl rfl rfl) fun w q' hq' =>
      hmoves hq' (by simp [hrunning])
  · rename_i hacking
    cases hs
    exact carries_untouched (fun w => untouched_same rfl rfl rfl rfl rfl) fun w q' hq' =>
      hmoves hq' (by simp [hacking])

/-! ## The workers are awake -/

/-- A worker that is suspended in its loop has an empty list, and only a worker that has taken an
item has a current one. -/
structure Watch (s : State) : Prop where
  asleep : ∀ q, s.worker q = .asleep → s.workList q = []
  current : ∀ q, s.workCurrent q ≠ none → ∃ w, s.worker q = .taken w ∨ s.worker q = .running w

theorem Watch.idle (h : Watch s) (hq : s.worker q = .asleep) : s.workCurrent q = none := by
  by_contra hne
  obtain ⟨w, hw⟩ := h.current q hne
  rw [hq] at hw
  simp at hw

theorem Watch.same (h : Watch s) (hworker : s'.worker = s.worker)
    (hcur : s'.workCurrent = s.workCurrent)
    (hlist : ∀ q, s.workList q = [] → s'.workList q = []) : Watch s' := by
  refine ⟨fun q hq => ?_, fun q hq => ?_⟩
  · rw [hworker] at hq
    exact hlist q (h.asleep q hq)
  · rw [hcur] at hq
    rw [hworker]
    exact h.current q hq

/-- An item may be inserted before the worker of the list is resumed. -/
theorem Watch.resume (h : Watch s) (hworker : s'.worker = s.worker)
    (hcur : s'.workCurrent = s.workCurrent)
    (hlist : ∀ q', q' ≠ q → s.workList q' = [] → s'.workList q' = []) :
    Watch (resumeWorker s' q) := by
  have hcurrent : (resumeWorker s' q).workCurrent = s.workCurrent := by
    unfold resumeWorker
    split <;> exact hcur
  have hother : ∀ q', q' ≠ q → (resumeWorker s' q).worker q' = s.worker q' := by
    intro q' hne
    unfold resumeWorker
    split
    · exact (update_of_ne hne _ _).trans (congrFun hworker q')
    · exact congrFun hworker q'
  have hself : (resumeWorker s' q).worker q = s.worker q ∨
      s.worker q = .asleep ∧ (resumeWorker s' q).worker q = .awake := by
    unfold resumeWorker
    split
    · rename_i hasleep
      rw [hworker] at hasleep
      exact .inr ⟨hasleep.2, update_self _ _ _⟩
    · exact .inl (congrFun hworker q)
  refine ⟨fun q' hq' => ?_, fun q' hq' => ?_⟩
  · rw [resumeWorker_workList]
    by_cases hne : q' = q
    · subst hne
      have hasleep : s.worker q' = .asleep := by
        obtain heq | ⟨hasleep, -⟩ := hself
        · rw [← heq]
          exact hq'
        · exact hasleep
      have hawake : (resumeWorker s' q').worker q' = .awake := by
        unfold resumeWorker
        rw [if_pos ⟨(congrFun hcur q').trans (h.idle hasleep), (congrFun hworker q').trans hasleep⟩]
        exact update_self _ _ _
      rw [hawake] at hq'
      cases hq'
    · rw [hother q' hne] at hq'
      exact hlist q' hne (h.asleep q' hq')
  · rw [hcurrent] at hq'
    obtain ⟨w, hw⟩ := h.current q' hq'
    refine ⟨w, ?_⟩
    by_cases hne : q' = q
    · subst hne
      obtain heq | ⟨hasleep, -⟩ := hself
      · rw [heq]
        exact hw
      · rw [hasleep] at hw
        simp at hw
    · rw [hother q' hne]
      exact hw

theorem unlink_nil (h : s.workList q = []) : (unlink s v).workList q = [] := by
  simp [unlink, h]

theorem appendWork_other {q' : QueueId} (hne : q' ≠ q) (h : s.workList q' = []) :
    (appendWork (unlink s v) q v).workList q' = [] :=
  (update_of_ne hne _ _).trans (unlink_nil h)

theorem Watch.submit {ticks : Nat} (h : Watch s)
    (hs : workqueueSubmitWork s t q v ticks = some (s', evs)) : Watch s' := by
  unfold workqueueSubmitWork at hs
  dsimp only at hs
  split at hs
  · split at hs
    · cases hs
      exact h.resume rfl rfl fun q' hne hnil => appendWork_other hne hnil
    · cases hs
      exact h.resume rfl rfl fun q' _ hnil => unlink_nil hnil
  · split at hs
    · obtain ⟨x, -, heq⟩ := Option.map_eq_some_iff.mp hs
      cases heq
      exact h.same rfl rfl fun q' hnil => unlink_nil hnil
    · cases hs
      exact h.same rfl rfl fun q' hnil => unlink_nil hnil

theorem Watch.urgent (h : Watch s) : Watch (rtWorkqueueUrgentWork s q v).1 :=
  h.resume rfl rfl fun _ hne hnil => (update_of_ne hne _ _).trans (unlink_nil hnil)

theorem Watch.cancel (h : Watch s) (hs : workqueueCancelWork s q v = some (s', evs)) :
    Watch s' := by
  obtain ⟨x, -, heq⟩ := Option.map_eq_some_iff.mp hs
  cases heq
  exact h.same rfl rfl fun q' hnil => unlink_nil hnil

theorem Watch.proceed (h : Watch s) (hs : proceed s t = some (s', evs)) : Watch s' := by
  have hcancel : ∀ {q v c}, (workqueueCancelWork s q v).map
      (fun r => (WorkQueue.setCall r.1 t c, r.2)) = some (s', evs) → Watch s' := by
    intro q v c hmap
    obtain ⟨⟨s₁, evs₁⟩, hs₁, heq⟩ := Option.map_eq_some_iff.mp hmap
    cases heq
    exact (h.cancel hs₁).same rfl rfl fun q' hnil => hnil
  unfold WorkQueue.proceed at hs
  split at hs
  · cases hs
  · obtain ⟨x, -, heq⟩ := Option.map_eq_some_iff.mp hs
    cases heq
    exact h.same rfl rfl fun q' hnil => hnil
  · exact hcancel hs
  · cases hs
    unfold semTake
    split
    · exact h.same rfl rfl fun q' hnil => hnil
    · exact h.same rfl rfl fun q' hnil => hnil
  · split at hs
    · cases hs
    · cases hs
      exact h.same rfl rfl fun q' hnil => hnil
  · cases hs
    exact h.same rfl rfl fun q' hnil => hnil
  · exact hcancel hs
  · cases hs
    exact h.same rfl rfl fun q' hnil => hnil
  · exact hcancel hs

theorem Watch.timeout (h : Watch s) (hs : delayedWorkTimeoutHandler s = some (s', evs)) :
    Watch s' := by
  unfold delayedWorkTimeoutHandler at hs
  split at hs
  · cases hs
  · obtain ⟨q, -, heq⟩ := Option.map_eq_some_iff.mp hs
    cases heq
    exact h.same rfl rfl fun q' hnil => hnil
  · obtain ⟨x, -, heq⟩ := Option.map_eq_some_iff.mp hs
    dsimp only at heq
    split at heq
    · cases heq
      exact h.resume rfl rfl fun q' hne hnil => appendWork_other hne hnil
    · cases heq
      exact h.resume rfl rfl fun q' _ hnil => unlink_nil hnil

/-- The worker of one queue goes on. -/
theorem Watch.move {new : Worker} (h : Watch s)
    (hworker : s'.worker = Function.update s.worker q new)
    (hcur : ∀ q', q' ≠ q → s'.workCurrent q' = s.workCurrent q')
    (hlist : ∀ q', s.workList q' = [] → s'.workList q' = [])
    (hasleep : new = .asleep → s'.workList q = [])
    (hself : s'.workCurrent q ≠ none → ∃ w, new = .taken w ∨ new = .running w) : Watch s' := by
  refine ⟨fun q' hq' => ?_, fun q' hq' => ?_⟩
  · by_cases hne : q' = q
    · subst hne
      rw [hworker, update_self] at hq'
      exact hasleep hq'
    · rw [hworker, update_of_ne hne] at hq'
      exact hlist q' (h.asleep q' hq')
  · by_cases hne : q' = q
    · subst hne
      rw [hworker, update_self]
      exact hself hq'
    · rw [hworker, update_of_ne hne]
      rw [hcur q' hne] at hq'
      exact h.current q' hq'

theorem Watch.workerStep (h : Watch s) (hs : workerStep s q = some (s', evs)) : Watch s' := by
  unfold WorkQueue.workerStep at hs
  split at hs
  · rename_i hawake
    split at hs
    · rename_i hnil
      cases hs
      refine h.move rfl (fun _ _ => rfl) (fun _ hq' => hq') (fun _ => hnil) fun hcur => ?_
      obtain ⟨w, hw⟩ := h.current q hcur
      rw [hawake] at hw
      simp at hw
    · rename_i v rest hlist
      cases hs
      exact h.move rfl (fun _ hne => update_of_ne hne _ _) (fun _ hq' => unlink_nil hq')
        (fun heq => nomatch heq) fun _ => ⟨v, .inl rfl⟩
  · cases hs
  · rename_i v _
    cases hs
    exact h.move rfl (fun _ _ => rfl) (fun _ hq' => hq') (fun heq => nomatch heq)
      fun _ => ⟨v, .inr rfl⟩
  · cases hs
    exact h.move rfl (fun _ hne => update_of_ne hne _ _) (fun _ hq' => hq')
      (fun heq => nomatch heq) fun hcur => absurd (update_self _ _ _) hcur
  · rename_i hacking
    cases hs
    refine h.move rfl (fun _ _ => rfl) (fun _ hq' => hq') (fun heq => nomatch heq) fun hcur => ?_
    obtain ⟨w, hw⟩ := h.current q hcur
    rw [hacking] at hw
    simp at hw

theorem Watch.act {op : Op} (h : Watch s) (hs : act s op = some (s', evs)) : Watch s' := by
  cases op with
  | submit t q v ticks =>
    obtain ⟨-, hs⟩ := enter_some hs
    unfold rtWorkqueueSubmitWork at hs
    split at hs
    · exact h.submit hs
    · cases hs
  | dowork t q v => exact h.submit (enter_some hs).2
  | urgent t q v =>
    obtain ⟨-, hs⟩ := enter_some hs
    cases hs
    exact h.urgent
  | cancel t q v => exact h.cancel (enter_some hs).2
  | cancelSync t q v =>
    obtain ⟨-, hs⟩ := enter_some hs
    cases hs
    unfold rtWorkqueueCancelWorkSync
    split
    · exact h.same rfl rfl fun q' hnil => hnil
    · exact h.same rfl rfl fun q' hnil => hnil
  | cancelAll t q =>
    obtain ⟨-, hs⟩ := enter_some hs
    cases hs
    exact h.same rfl rfl fun q' hnil => hnil
  | proceed t => exact h.proceed hs
  | expire v =>
    simp only [WorkQueue.act, expire] at hs
    split at hs
    · cases hs
      exact h.same rfl rfl fun q' hnil => hnil
    · cases hs
  | timeout => exact h.timeout hs
  | worker q => exact h.workerStep hs

/-! ## The timers of delayed items -/

/-- The timer of an item in a delayed list is an object, and the item has a queue. -/
def Ready (s : State) : Prop :=
  ∀ w q, w ∈ s.delayedList q → (s.work w).object = true ∧ (s.work w).workqueue ≠ none

/-- Other items are left alone, and the item of the step is in no delayed list or ready. -/
theorem Ready.of_item (h : Ready s) (hu : ∀ w, w ≠ v → Untouched s s' w)
    (hv : ∀ q, v ∈ s'.delayedList q → (s'.work v).object = true ∧ (s'.work v).workqueue ≠ none) :
    Ready s' := by
  intro w q hmem
  by_cases hne : w = v
  · subst hne
    exact hv q hmem
  · rw [(hu w hne).work]
    exact h w q (((hu w hne).delayedList q).mp hmem)

theorem Ready.submit {ticks : Nat} (h : Ready s) (hout : s.call t = .outside)
    (hs : workqueueSubmitWork s t q v ticks = some (s', evs)) : Ready s' := by
  refine h.of_item (fun w hne => untouched_submit hout hne hs) fun q' hmem => ?_
  unfold workqueueSubmitWork at hs
  dsimp only at hs
  split at hs
  · split at hs
    · cases hs
      simp [setWork, appendWork] at hmem
    · cases hs
      simp [setWork] at hmem
  · split at hs
    · obtain ⟨x, htimer, heq⟩ := Option.map_eq_some_iff.mp hs
      cases heq
      show ((setWork _ v _).work v).object = true ∧ ((setWork _ v _).work v).workqueue ≠ none
      rw [setWork_work_same]
      refine ⟨?_, Option.some_ne_none q⟩
      split at htimer
      · obtain ⟨hobj, rfl⟩ := rtTimerStop_some htimer
        exact hobj
      · obtain rfl := rtTimerInit_some htimer
        rfl
    · cases hs
      simp [setWork] at hmem

theorem Ready.cancel (h : Ready s) (hs : workqueueCancelWork s q v = some (s', evs)) :
    Ready s' := by
  refine h.of_item (fun w hne => untouched_cancel hne hs) fun q' hmem => ?_
  obtain ⟨x, -, heq⟩ := Option.map_eq_some_iff.mp hs
  cases heq
  simp [setWork] at hmem

theorem Ready.proceed (h : Ready s) (hs : proceed s t = some (s', evs)) : Ready s' := by
  have hcancel : ∀ {q v c}, (workqueueCancelWork s q v).map
      (fun r => (WorkQueue.setCall r.1 t c, r.2)) = some (s', evs) → Ready s' := by
    intro q v c hmap
    obtain ⟨⟨s₁, evs₁⟩, hs₁, heq⟩ := Option.map_eq_some_iff.mp hmap
    cases heq
    have hready : Ready s₁ := h.cancel hs₁
    exact hready
  unfold WorkQueue.proceed at hs
  split at hs
  · cases hs
  · rename_i v _
    obtain ⟨x, hx, heq⟩ := Option.map_eq_some_iff.mp hs
    obtain ⟨hobj, rfl⟩ := rtTimerStart_some hx
    cases heq
    intro w q hmem
    show ((setWork s v _).work w).object = true ∧ ((setWork s v _).work w).workqueue ≠ none
    by_cases hne : w = v
    · subst hne
      rw [setWork_work_same]
      exact h w q hmem
    · rw [setWork_work_of_ne hne]
      exact h w q hmem
  · exact hcancel hs
  · cases hs
    unfold semTake
    split
    · exact h
    · exact h
  · split at hs
    · cases hs
    · cases hs
      exact h
  · cases hs
    exact h
  · exact hcancel hs
  · cases hs
    exact h
  · exact hcancel hs

theorem Ready.timeout (h : Ready s) (hs : delayedWorkTimeoutHandler s = some (s', evs)) :
    Ready s' := by
  unfold delayedWorkTimeoutHandler at hs
  split at hs
  · cases hs
  · obtain ⟨q, -, heq⟩ := Option.map_eq_some_iff.mp hs
    cases heq
    exact h
  · rename_i v q hsoft
    obtain ⟨x, -, heq⟩ := Option.map_eq_some_iff.mp hs
    refine h.of_item (fun w hne => untouched_section hsoft hne heq) fun q' hmem => ?_
    dsimp only at heq
    split at heq
    · cases heq
      simp [setWork, appendWork] at hmem
    · cases heq
      simp [setWork] at hmem

theorem Ready.expire (h : Ready s) (hs : expire s v = some (s', evs)) : Ready s' := by
  unfold WorkQueue.expire at hs
  split at hs
  · cases hs
    intro w q hmem
    by_cases hne : w = v
    · subst hne
      rw [setWork_work_same]
      exact h w q hmem
    · rw [setWork_work_of_ne hne]
      exact h w q hmem
  · cases hs

theorem Ready.workerStep (h : Ready s) (hs : workerStep s q = some (s', evs)) : Ready s' := by
  unfold WorkQueue.workerStep at hs
  split at hs
  · split at hs
    · cases hs
      exact h
    · cases hs
      refine h.of_item (fun w hne => untouched_take hne) fun q' hmem => ?_
      simp [setWork] at hmem
  · cases hs
  · cases hs
    exact h
  · cases hs
    exact h
  · cases hs
    exact h

theorem Ready.act {op : Op} (h : Ready s) (hs : act s op = some (s', evs)) : Ready s' := by
  cases op with
  | submit t q v ticks =>
    obtain ⟨hout, hs⟩ := enter_some hs
    unfold rtWorkqueueSubmitWork at hs
    split at hs
    · exact h.submit hout hs
    · cases hs
  | dowork t q v => exact h.submit (enter_some hs).1 (enter_some hs).2
  | urgent t q v =>
    obtain ⟨-, hs⟩ := enter_some hs
    cases hs
    refine h.of_item (fun w hne => untouched_urgent hne) fun q' hmem => ?_
    simp at hmem
  | cancel t q v => exact h.cancel (enter_some hs).2
  | cancelSync t q v =>
    obtain ⟨-, hs⟩ := enter_some hs
    cases hs
    unfold rtWorkqueueCancelWorkSync
    split
    · exact h
    · exact h
  | cancelAll t q =>
    obtain ⟨-, hs⟩ := enter_some hs
    cases hs
    exact h
  | proceed t => exact h.proceed hs
  | expire v => exact h.expire hs
  | timeout => exact h.timeout hs
  | worker q => exact h.workerStep hs

/-! ## Runs -/

/-- No timeout handler runs its section while the item is executing in the queue it has read, and
an item that is executing is submitted to the same queue without delay only when it is in no
list. -/
def Lossless (s : State) : Op → Prop
  | .submit _ q w ticks => ticks = 0 → s.workCurrent q = some w → Unlinked s w
  | .dowork _ q w => s.workCurrent q = some w → Unlinked s w
  | .timeout => ∀ w q, s.soft = .handling w q → s.workCurrent q ≠ some w
  | _ => True

theorem carries_act {op : Op} (hok : Lossless s op) (hs : act s op = some (s', evs)) :
    Carries s s' evs := by
  cases op with
  | submit t q v ticks =>
    obtain ⟨hout, hs⟩ := enter_some hs
    unfold rtWorkqueueSubmitWork at hs
    split at hs
    · rename_i hticks
      exact carries_submit hout hticks hok hs
    · cases hs
  | dowork t q v =>
    obtain ⟨hout, hs⟩ := enter_some hs
    exact carries_submit hout (by decide) (fun _ => hok) hs
  | urgent t q v =>
    obtain ⟨-, hs⟩ := enter_some hs
    cases hs
    exact carries_urgent
  | cancel t q v =>
    obtain ⟨-, hs⟩ := enter_some hs
    exact carries_cancel hs
  | cancelSync t q v =>
    obtain ⟨hout, hs⟩ := enter_some hs
    cases hs
    unfold rtWorkqueueCancelWorkSync
    split
    · exact carries_untouched (fun w => untouched_setCall (by simp [hout])) fun w q' hq => hq
    · exact carries_untouched (fun w => untouched_setCall (by simp [hout])) fun w q' hq => hq
  | cancelAll t q =>
    obtain ⟨hout, hs⟩ := enter_some hs
    cases hs
    exact carries_untouched (fun w => untouched_setCall (by simp [hout])) fun w q' hq => hq
  | proceed t => exact carries_proceed hs
  | expire v => exact carries_expire hs
  | timeout => exact carries_timeout hok hs
  | worker q => exact carries_worker hs

end carrying

/-- What holds in the runs without a lossy step. -/
structure Safe (x : Traced) : Prop where
  kept : ∀ w, Owed x.log w → Kept x.state w
  watch : Watch x.state
  ready : Ready x.state

theorem step_safe {x x' : Traced} {op : Op} (h : Safe x) (hok : Lossless x.state op)
    (hs : tracedStep x op = some x') : Safe x' := by
  obtain ⟨⟨s', evs⟩, hact, rfl⟩ := Option.map_eq_some_iff.mp hs
  refine ⟨fun w howed => ?_, h.watch.act hact, h.ready.act hact⟩
  refine carries_act hok hact w ?_
  obtain hmem | ⟨howed, hcancel, hcall⟩ := howed.of_append
  · exact .inl hmem
  · exact .inr ⟨h.kept w howed, hcancel, hcall⟩

theorem safe_init : Safe ⟨init, []⟩ := by
  refine ⟨fun w howed => ?_, ⟨fun _ _ => rfl, fun _ h => absurd rfl h⟩,
    fun w q hmem => (nomatch hmem)⟩
  obtain ⟨before, after, heq, -⟩ := howed
  exact absurd heq.symm (by simp)

/-- In every run without a lossy step, every accepted submission that is not cancelled afterwards is
followed by a call of its function or the item is kept; a worker sleeps only while its list is
empty, and the timer of an item in a delayed list can be started and handled. -/
theorem work_queue_keeps_submissions (ops : List Op) (x : Traced)
    (hok : Runs.Along tracedStep (fun x => Lossless x.state) ⟨init, []⟩ ops)
    (hrun : Runs.run tracedStep ⟨init, []⟩ ops = some x) :
    (∀ w before after, x.log = before ++ .submitted w .eok :: after →
      (∀ r, .cancelled w r ∉ after) → .called w ∈ after ∨ Kept x.state w) ∧
    (∀ q, x.state.worker q = .asleep → x.state.workList q = []) ∧
    ∀ w q, w ∈ x.state.delayedList q →
      (x.state.work w).object = true ∧ (x.state.work w).workqueue ≠ none := by
  have hsafe : Safe x :=
    Runs.run_invariant_along (fun _ _ _ h hok hs => step_safe h hok hs) safe_init hok hrun
  refine ⟨fun w before after heq hcancel => ?_, hsafe.watch.asleep, hsafe.ready⟩
  by_cases hcall : .called w ∈ after
  · exact .inl hcall
  · exact .inr (hsafe.kept w ⟨before, after, heq, hcancel, hcall⟩)

/-- A delayed submission of an item that is executing; its timer expires behind the execution. -/
def delayedWhileExecuting : List Op :=
  [.dowork 1 0 7, .worker 0, .worker 0, .submit 1 0 7 5, .proceed 1, .worker 0, .worker 0,
    .expire 7, .timeout, .timeout]

theorem work_queue_keeps_submissions_executing :
    Runs.Along tracedStep (fun x => Lossless x.state) ⟨init, []⟩ delayedWhileExecuting ∧
      ∃ x, Runs.run tracedStep ⟨init, []⟩ delayedWhileExecuting = some x ∧
        x.log = [.submitted 7 .eok, .called 7, .submitted 7 .eok] ∧ Kept x.state 7 := by
  have hidle : Runs.Along tracedStep (fun x op => (match op with
      | .dowork _ q w => decide (x.state.workCurrent q ≠ some w)
      | .submit _ _ _ ticks => decide (ticks ≠ 0)
      | .timeout => decide (x.state.workCurrent 0 = none ∧
          x.state.soft ∈ [.expired 7, .handling 7 0])
      | _ => true) = true) ⟨init, []⟩ delayedWhileExecuting := by decide +kernel
  have hok : Runs.Along tracedStep (fun x => Lossless x.state) ⟨init, []⟩
      delayedWhileExecuting := by
    refine Runs.Along.mono (fun x op hop => ?_) hidle
    cases op with
    | dowork t q w => exact fun hcur => absurd hcur (of_decide_eq_true hop)
    | submit t q w ticks => exact fun hzero => absurd hzero (of_decide_eq_true hop)
    | timeout =>
      intro w q hsoft
      obtain ⟨hcur, hmem⟩ := of_decide_eq_true hop
      simp only [hsoft, List.mem_cons, reduceCtorEq, Soft.handling.injEq, List.not_mem_nil,
        or_false, false_or] at hmem
      rw [hmem.2, hcur]
      exact nofun
    | _ => trivial
  have hlast : (Runs.run tracedStep ⟨init, []⟩ delayedWhileExecuting).map (·.log) =
      some [.submitted 7 .eok, .called 7, .submitted 7 .eok] := by decide +kernel
  obtain ⟨x, hrun, hx⟩ := Option.map_eq_some_iff.mp hlast
  have hkept := (work_queue_keeps_submissions delayedWhileExecuting x hok hrun).1 7
    [.submitted 7 .eok, .called 7] [] hx (by simp)
  exact ⟨hok, x, hrun, hx, hkept.resolve_left (by simp)⟩

/-- A delayed submission of an item that is executing; its timer expires during the execution. -/
def expiredWhileExecuting : List Op :=
  [.dowork 1 0 7, .worker 0, .worker 0, .submit 1 0 7 5, .proceed 1, .expire 7, .timeout, .timeout,
    .worker 0]

/-- The submission has returned `RT_EOK` and the item is neither in a list nor to be called. -/
theorem submission_lost :
    ∃ x, Runs.run tracedStep ⟨init, []⟩ expiredWhileExecuting = some x ∧
      x.log = [.submitted 7 .eok, .called 7] ++ [.submitted 7 .eok] ∧ ¬ Kept x.state 7 := by
  refine ⟨_, rfl, rfl, ?_⟩
  rintro (⟨q, h⟩ | ⟨⟨q, h⟩, -⟩ | ⟨q, h⟩)
  · cases q with
    | zero => exact absurd h (by decide)
    | succ q => exact List.not_mem_nil h
  · cases q with
    | zero => exact absurd h (by decide)
    | succ q => exact List.not_mem_nil h
  · cases q with
    | zero => exact nomatch h
    | succ q => exact nomatch h

end RtThread.WorkQueue
