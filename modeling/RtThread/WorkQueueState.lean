import RtThread.WorkQueue

/-!
# The state of a work item

The flags of an item say in which list its node is, and its timer is active or about to be
handled or started while it is submitting. This is an invariant of the runs in which an
item is marked urgent only while it is pending in the same queue, is not submitted without
delay while its timer runs, and is left alone between the expiry of its timer and the
timeout handler.
-/
namespace RtThread.WorkQueue

open Ipc (ThreadId)

/-! ## The primitives -/

section primitives

variable {s : State} {q q' : QueueId} {w u : WorkId} {x : RtWork}

@[simp] theorem mem_unlink_workList :
    u ∈ (unlink s w).workList q ↔ u ∈ s.workList q ∧ u ≠ w := by
  simp [unlink]

@[simp] theorem mem_unlink_delayedList :
    u ∈ (unlink s w).delayedList q ↔ u ∈ s.delayedList q ∧ u ≠ w := by
  simp [unlink]

@[simp] theorem unlink_work : (unlink s w).work = s.work := rfl

@[simp] theorem mem_appendWork :
    u ∈ (appendWork s q w).workList q' ↔ u ∈ s.workList q' ∨ q' = q ∧ u = w := by
  by_cases h : q' = q
  · subst h
    simp [appendWork]
  · simp [appendWork, h]

@[simp] theorem mem_appendDelayed :
    u ∈ (appendDelayed s q w).delayedList q' ↔ u ∈ s.delayedList q' ∨ q' = q ∧ u = w := by
  by_cases h : q' = q
  · subst h
    simp [appendDelayed]
  · simp [appendDelayed, h]

@[simp] theorem resumeWorker_work : (resumeWorker s q).work = s.work := by
  unfold resumeWorker
  split <;> rfl

@[simp] theorem resumeWorker_workList : (resumeWorker s q).workList = s.workList := by
  unfold resumeWorker
  split <;> rfl

@[simp] theorem resumeWorker_delayedList : (resumeWorker s q).delayedList = s.delayedList := by
  unfold resumeWorker
  split <;> rfl

@[simp] theorem resumeWorker_soft : (resumeWorker s q).soft = s.soft := by
  unfold resumeWorker
  split <;> rfl

@[simp] theorem resumeWorker_call : (resumeWorker s q).call = s.call := by
  unfold resumeWorker
  split <;> rfl

@[simp] theorem setWork_work_same : (setWork s w x).work w = x := Function.update_self _ _ _

theorem setWork_work_of_ne (h : u ≠ w) : (setWork s w x).work u = s.work u :=
  Function.update_of_ne h _ _

variable {y : RtWork}

theorem rtTimerInit_some (h : rtTimerInit x = some y) :
    y = { x with object := true, active := false } := by
  unfold rtTimerInit at h
  split at h
  · cases h
  · exact (Option.some.inj h).symm

theorem rtTimerStart_some (h : rtTimerStart x = some y) :
    x.object = true ∧ y = { x with active := true } := by
  unfold rtTimerStart at h
  split at h
  · rename_i hobj
    exact ⟨hobj, (Option.some.inj h).symm⟩
  · cases h

theorem rtTimerStop_some (h : rtTimerStop x = some y) :
    x.object = true ∧ y = { x with active := false } := by
  unfold rtTimerStop at h
  split at h
  · rename_i hobj
    exact ⟨hobj, (Option.some.inj h).symm⟩
  · cases h

theorem rtTimerDetach_some (h : rtTimerDetach x = some y) :
    x.object = true ∧ y = { x with object := false, active := false } := by
  unfold rtTimerDetach at h
  split at h
  · rename_i hobj
    exact ⟨hobj, (Option.some.inj h).symm⟩
  · cases h

end primitives

/-! ## The invariant of an item -/

/-- A delayed submission has not started the timer of the item yet, or the soft timer thread has
taken the timer out and has not handled it yet. -/
def InTransit (s : State) (w : WorkId) : Prop :=
  (∃ t, s.call t = .starting w) ∨ s.soft = .expired w ∨ ∃ q, s.soft = .handling w q

structure ItemInv (s : State) (w : WorkId) : Prop where
  listed : ∀ q, w ∈ s.workList q ↔
    (s.work w).pending = true ∧ (s.work w).workqueue = some q
  delayed : ∀ q, w ∈ s.delayedList q ↔
    (s.work w).submitting = true ∧ (s.work w).workqueue = some q
  queued : (s.work w).pending = true ∨ (s.work w).submitting = true →
    (s.work w).workqueue ≠ none
  apart : (s.work w).submitting = true → (s.work w).pending = false
  object : (s.work w).object = (s.work w).submitting
  active : (s.work w).active = true → (s.work w).submitting = true
  armed : (s.work w).submitting = true → (s.work w).active = true ∨ InTransit s w
  expired : s.soft = .expired w → (s.work w).submitting = true
  handling : ∀ q, s.soft = .handling w q → (s.work w).submitting = true →
    (s.work w).workqueue = some q

def Inv (s : State) : Prop := ∀ w, ItemInv s w

/-- A step leaves an item alone. -/
structure Untouched (s s' : State) (w : WorkId) : Prop where
  work : s'.work w = s.work w
  workList : ∀ q, w ∈ s'.workList q ↔ w ∈ s.workList q
  delayedList : ∀ q, w ∈ s'.delayedList q ↔ w ∈ s.delayedList q
  starting : (∃ t, s.call t = .starting w) → ∃ t, s'.call t = .starting w
  expired : s'.soft = .expired w ↔ s.soft = .expired w
  handling : ∀ q, s'.soft = .handling w q ↔ s.soft = .handling w q

variable {op : Op}

section items

variable {s s' : State} {t : ThreadId} {q : QueueId} {w v : WorkId} {evs : List Event}

theorem InTransit.untouched (h : InTransit s w) (hu : Untouched s s' w) : InTransit s' w := by
  obtain hstart | hexp | ⟨q, hhand⟩ := h
  · exact .inl (hu.starting hstart)
  · exact .inr (.inl (hu.expired.mpr hexp))
  · exact .inr (.inr ⟨q, (hu.handling q).mpr hhand⟩)

theorem ItemInv.untouched (h : ItemInv s w) (hu : Untouched s s' w) : ItemInv s' w := by
  refine ⟨fun q => ?_, fun q => ?_, ?_, ?_, ?_, ?_, ?_, fun hexp => ?_, fun q hhand => ?_⟩
  · rw [hu.workList, hu.work]
    exact h.listed q
  · rw [hu.delayedList, hu.work]
    exact h.delayed q
  · rw [hu.work]
    exact h.queued
  · rw [hu.work]
    exact h.apart
  · rw [hu.work]
    exact h.object
  · rw [hu.work]
    exact h.active
  · rw [hu.work]
    exact fun hsub => (h.armed hsub).imp_right (·.untouched hu)
  · rw [hu.work]
    exact h.expired (hu.expired.mp hexp)
  · rw [hu.work]
    exact h.handling q ((hu.handling q).mp hhand)

variable {c : Call} {ticks : Nat}

/-- A thread that does not start the timer of the item goes on with its call. -/
theorem starting_setCall (ht : s.call t ≠ .starting w) (h : ∃ t, s.call t = .starting w) :
    ∃ u, (setCall s t c).call u = .starting w := by
  obtain ⟨u, hu⟩ := h
  have hne : u ≠ t := by
    rintro rfl
    exact ht hu
  exact ⟨u, (Function.update_of_ne hne _ _).trans hu⟩

theorem untouched_setCall (ht : s.call t ≠ .starting w) : Untouched s (setCall s t c) w :=
  ⟨rfl, fun _ => Iff.rfl, fun _ => Iff.rfl, starting_setCall ht, Iff.rfl, fun _ => Iff.rfl⟩

theorem Untouched.trans {s'' : State} (h : Untouched s s' w) (h' : Untouched s' s'' w) :
    Untouched s s'' w :=
  ⟨h'.work.trans h.work, fun q => (h'.workList q).trans (h.workList q),
    fun q => (h'.delayedList q).trans (h.delayedList q), fun hs => h'.starting (h.starting hs),
    h'.expired.trans h.expired, fun q => (h'.handling q).trans (h.handling q)⟩

/-- The worker of a queue is woken. -/
theorem untouched_resumeWorker : Untouched s (resumeWorker s q) w := by
  refine ⟨?_, fun _ => ?_, fun _ => ?_, ?_, ?_, fun _ => ?_⟩ <;> simp

/-- The node of another item is moved, and its record written. -/
theorem untouched_unlink (hne : w ≠ v) : Untouched s (unlink s v) w :=
  ⟨rfl, fun _ => by simp [hne], fun _ => by simp [hne], fun h => h, Iff.rfl, fun _ => Iff.rfl⟩

theorem untouched_setWork {x : RtWork} (hne : w ≠ v) : Untouched s (setWork s v x) w :=
  ⟨setWork_work_of_ne hne, fun _ => Iff.rfl, fun _ => Iff.rfl, fun h => h, Iff.rfl,
    fun _ => Iff.rfl⟩

theorem untouched_appendWork (hne : w ≠ v) : Untouched s (appendWork s q v) w :=
  ⟨rfl, fun _ => by simp [hne], fun _ => Iff.rfl, fun h => h, Iff.rfl, fun _ => Iff.rfl⟩

theorem untouched_appendDelayed (hne : w ≠ v) : Untouched s (appendDelayed s q v) w :=
  ⟨rfl, fun _ => Iff.rfl, fun _ => by simp [hne], fun h => h, Iff.rfl, fun _ => Iff.rfl⟩

/-! ## Other items -/

theorem untouched_submit (ht : s.call t = .outside) (hne : w ≠ v)
    (hs : workqueueSubmitWork s t q v ticks = some (s', evs)) : Untouched s s' w := by
  have hbase : Untouched s (unlink s v) w := untouched_unlink hne
  unfold workqueueSubmitWork at hs
  dsimp only at hs
  split at hs
  · split at hs
    · cases hs
      exact ((hbase.trans (untouched_appendWork hne)).trans (untouched_setWork hne)).trans
        untouched_resumeWorker
    · cases hs
      exact (hbase.trans (untouched_setWork hne)).trans untouched_resumeWorker
  · split at hs
    · obtain ⟨x, -, heq⟩ := Option.map_eq_some_iff.mp hs
      cases heq
      refine ((hbase.trans (untouched_setWork hne)).trans (untouched_appendDelayed hne)).trans
        (untouched_setCall fun hstart => ?_)
      rw [show (appendDelayed (setWork (unlink s v) v _) q v).call t = s.call t from rfl, ht]
        at hstart
      cases hstart
    · cases hs
      exact hbase.trans (untouched_setWork hne)

theorem untouched_urgent (hne : w ≠ v) : Untouched s (rtWorkqueueUrgentWork s q v).1 w := by
  refine Untouched.trans ?_ untouched_resumeWorker
  refine ⟨rfl, fun q' => ?_, fun _ => by simp [hne], fun h => h, Iff.rfl, fun _ => Iff.rfl⟩
  by_cases hq : q' = q
  · subst hq
    simp [hne]
  · simp [hne, hq]

theorem untouched_cancel (hne : w ≠ v) (hs : workqueueCancelWork s q v = some (s', evs)) :
    Untouched s s' w := by
  obtain ⟨x, -, heq⟩ := Option.map_eq_some_iff.mp hs
  cases heq
  exact (untouched_unlink hne).trans (untouched_setWork hne)

/-- A step that moves no item and starts no call. -/
theorem untouched_same (hwork : s'.work = s.work) (hlist : s'.workList = s.workList)
    (hdelayed : s'.delayedList = s.delayedList) (hsoft : s'.soft = s.soft)
    (hcall : s'.call = s.call) : Untouched s s' w := by
  refine ⟨?_, fun _ => ?_, fun _ => ?_, ?_, ?_, fun _ => ?_⟩ <;> simp [*]

theorem untouched_semTake (ht : s.call t ≠ .starting w) : Untouched s (semTake s t q) w := by
  unfold semTake
  split
  · exact ⟨rfl, fun _ => Iff.rfl, fun _ => Iff.rfl, starting_setCall ht, Iff.rfl, fun _ => Iff.rfl⟩
  · exact ⟨rfl, fun _ => Iff.rfl, fun _ => Iff.rfl, starting_setCall ht, Iff.rfl, fun _ => Iff.rfl⟩

/-- The section of a worker that takes an item. -/
theorem untouched_take {current : QueueId → Option WorkId} {worker : QueueId → Worker} {x : RtWork}
    (hne : w ≠ v) :
    Untouched s (setWork { unlink s v with workCurrent := current, worker := worker } v x) w := by
  have hbase : Untouched s { unlink s v with workCurrent := current, worker := worker } w :=
    (untouched_unlink hne).trans (untouched_same rfl rfl rfl rfl rfl)
  exact hbase.trans (untouched_setWork hne)

/-- The section of the timeout handler. -/
theorem untouched_section {x : RtWork} (hsoft : s.soft = .handling v q) (hne : w ≠ v)
    (hs : (if (unlink s v).workCurrent q ≠ some v then
        (resumeWorker (setWork (appendWork { unlink s v with soft := .idle } q v) v
          { x with pending := true }) q, [])
      else (resumeWorker (setWork { unlink s v with soft := .idle } v x) q, [])) = (s', evs)) :
    Untouched s s' w := by
  have hbase : Untouched s { unlink s v with soft := .idle } w :=
    ⟨rfl, (untouched_unlink hne).workList, (untouched_unlink hne).delayedList, fun h => h,
      by simp [hsoft], fun q' => by simp [hsoft, Ne.symm hne]⟩
  split at hs
  · cases hs
    exact ((hbase.trans (untouched_appendWork hne)).trans (untouched_setWork hne)).trans
      untouched_resumeWorker
  · cases hs
    exact (hbase.trans (untouched_setWork hne)).trans untouched_resumeWorker

theorem workqueueCancelWork_call (hs : workqueueCancelWork s q v = some (s', evs)) :
    s'.call = s.call := by
  obtain ⟨x, -, heq⟩ := Option.map_eq_some_iff.mp hs
  cases heq
  rfl

theorem semTake_worker : (semTake s t q).worker = s.worker := by
  unfold semTake
  split <;> rfl

/-! ## The item of a call -/

/-- The item waits for the worker of a queue. -/
theorem ItemInv.of_pending (hx : s.work w = ⟨true, false, some q, false, false⟩)
    (hlist : ∀ q', w ∈ s.workList q' ↔ q' = q) (hdelayed : ∀ q', w ∉ s.delayedList q')
    (hexp : s.soft ≠ .expired w) : ItemInv s w := by
  refine ⟨fun q' => ?_, fun q' => ?_, ?_, ?_, ?_, ?_, ?_, fun h => absurd h hexp, fun q' _ => ?_⟩
  · rw [hlist, hx]
    simp [eq_comm]
  · simp [hx, hdelayed]
  all_goals simp [hx]

/-- The item is in no list. -/
theorem ItemInv.of_free {r : Option QueueId}
    (hx : s.work w = ⟨false, false, r, false, false⟩) (hlist : ∀ q', w ∉ s.workList q')
    (hdelayed : ∀ q', w ∉ s.delayedList q') (hexp : s.soft ≠ .expired w) : ItemInv s w := by
  refine ⟨fun q' => ?_, fun q' => ?_, ?_, ?_, ?_, ?_, ?_, fun h => absurd h hexp, fun q' _ => ?_⟩
  · simp [hx, hlist]
  · simp [hx, hdelayed]
  all_goals simp [hx]

/-- The item waits for its timer. -/
theorem ItemInv.of_submitting {b : Bool} (hx : s.work w = ⟨false, true, some q, true, b⟩)
    (hlist : ∀ q', w ∉ s.workList q') (hdelayed : ∀ q', w ∈ s.delayedList q' ↔ q' = q)
    (harmed : b = true ∨ InTransit s w)
    (hhand : ∀ q', s.soft = .handling w q' → q' = q) : ItemInv s w := by
  refine ⟨fun q' => ?_, fun q' => ?_, ?_, ?_, ?_, ?_, fun _ => ?_, fun _ => ?_, fun q' h _ => ?_⟩
  · simp [hx, hlist]
  · rw [hdelayed, hx]
    simp [eq_comm]
  · simp [hx]
  · simp [hx]
  · simp [hx]
  · simp [hx]
  · rw [hx]
    exact harmed
  · rw [hx]
  · rw [hx, hhand q' h]

/-- The timer of an item that is not submitting is not an object. -/
theorem ItemInv.plain (h : ItemInv s w) (hsub : (s.work w).submitting = false) :
    s.work w = ⟨(s.work w).pending, false, (s.work w).workqueue, false, false⟩ ∧
      (∀ q, w ∉ s.delayedList q) ∧ s.soft ≠ .expired w := by
  have hobj : (s.work w).object = false := h.object.trans hsub
  have hact : (s.work w).active = false := by
    cases hact : (s.work w).active with
    | false => rfl
    | true => exact absurd (h.active hact) (by simp [hsub])
  refine ⟨RtWork.ext rfl hsub rfl hobj hact, fun q hmem => ?_, fun hexp => ?_⟩
  · exact absurd ((h.delayed q).mp hmem).1 (by simp [hsub])
  · exact absurd (h.expired hexp) (by simp [hsub])

theorem ItemInv.submit (h : ItemInv s w) (hplain : ticks = 0 → (s.work w).submitting = false)
    (hticks : ticks < rtTickMaxHalf) (hhand : ticks ≠ 0 → ∀ q', s.soft = .handling w q' → q' = q)
    (hs : workqueueSubmitWork s t q w ticks = some (s', evs)) : ItemInv s' w := by
  unfold workqueueSubmitWork at hs
  dsimp only at hs
  split at hs
  · rename_i hzero
    obtain ⟨hx, hdel, hexp⟩ := h.plain (hplain hzero)
    split at hs
    · cases hs
      refine ItemInv.of_pending (q := q) ?_ (fun q' => ?_) (fun q' => ?_) ?_
      · rw [resumeWorker_work, setWork_work_same, unlink_work, hx]
      · simp [setWork]
      · simp [setWork, appendWork]
      · simpa [setWork, appendWork, unlink] using hexp
    · cases hs
      refine ItemInv.of_free (r := (s.work w).workqueue) ?_ (fun q' => ?_) (fun q' => ?_) ?_
      · rw [resumeWorker_work, setWork_work_same, unlink_work, hx]
      · simp [setWork]
      · simp [setWork]
      · simpa [setWork, unlink] using hexp
  · rename_i hzero
    obtain ⟨x, htimer, heq⟩ := Option.map_eq_some_iff.mp hs
    cases heq
    have hx : x.pending = false ∧ x.object = true ∧ x.active = false := by
      split at htimer
      · obtain ⟨hobj, rfl⟩ := rtTimerStop_some htimer
        exact ⟨rfl, hobj, rfl⟩
      · obtain rfl := rtTimerInit_some htimer
        exact ⟨rfl, rfl, rfl⟩
    refine ItemInv.of_submitting (q := q) (b := false) ?_ (fun q' => ?_) (fun q' => ?_)
      (.inr (.inl ⟨t, Function.update_self _ _ _⟩)) (hhand hzero)
    · show (setWork (unlink s w) w { x with submitting := true, workqueue := some q }).work w = _
      rw [setWork_work_same]
      exact RtWork.ext hx.1 rfl rfl hx.2.1 hx.2.2
    · simp [setCall, appendDelayed, setWork]
    · simp [setCall, setWork]

theorem ItemInv.urgent (h : ItemInv s w) (hpend : (s.work w).pending = true)
    (hq : (s.work w).workqueue = some q) : ItemInv (rtWorkqueueUrgentWork s q w).1 w := by
  have hsub : (s.work w).submitting = false := by
    cases hsub : (s.work w).submitting with
    | false => rfl
    | true => exact absurd (h.apart hsub) (by simp [hpend])
  obtain ⟨hx, hdel, hexp⟩ := h.plain hsub
  refine ItemInv.of_pending (q := q) ?_ (fun q' => ?_) (fun q' => ?_) ?_
  · rw [rtWorkqueueUrgentWork, resumeWorker_work]
    show s.work w = _
    rw [hx, hpend, hq]
  · rw [rtWorkqueueUrgentWork, resumeWorker_workList]
    by_cases hqq : q' = q
    · simp [hqq]
    · simp [hqq]
  · simp [rtWorkqueueUrgentWork]
  · simpa [rtWorkqueueUrgentWork, unlink] using hexp

theorem ItemInv.cancel (h : ItemInv s w) (hexp : s.soft ≠ .expired w)
    (hs : workqueueCancelWork s q w = some (s', evs)) : ItemInv s' w := by
  obtain ⟨x, htimer, heq⟩ := Option.map_eq_some_iff.mp hs
  cases heq
  have hx : x.pending = false ∧ x.object = false ∧ x.active = false := by
    split at htimer
    · obtain ⟨y, hstop, hdetach⟩ := Option.bind_eq_some_iff.mp htimer
      obtain ⟨-, rfl⟩ := rtTimerStop_some hstop
      obtain ⟨-, rfl⟩ := rtTimerDetach_some hdetach
      exact ⟨rfl, rfl, rfl⟩
    · rename_i hsub
      obtain ⟨hx, -, -⟩ := h.plain (by simpa using hsub)
      cases htimer
      exact ⟨rfl, congrArg RtWork.object hx, congrArg RtWork.active hx⟩
  refine ItemInv.of_free (r := none) ?_ (fun q' => ?_) (fun q' => ?_) hexp
  · rw [setWork_work_same]
    exact RtWork.ext hx.1 rfl rfl hx.2.1 hx.2.2
  · simp [setWork]
  · simp [setWork]

/-- `rt_timer_start` behind a delayed submission. -/
theorem ItemInv.start (h : ItemInv s w) {x : RtWork} (hx : rtTimerStart (s.work w) = some x) :
    ItemInv (setCall (setWork s w x) t .outside) w := by
  obtain ⟨hobj, rfl⟩ := rtTimerStart_some hx
  have hsub : (s.work w).submitting = true := h.object.symm.trans hobj
  obtain ⟨q, hq⟩ := Option.ne_none_iff_exists'.mp (h.queued (.inr hsub))
  refine ItemInv.of_submitting (q := q) (b := true) ?_ (fun q' => ?_) (fun q' => ?_)
    (.inl rfl) (fun q' hhand => ?_)
  · show (setWork s w _).work w = _
    rw [setWork_work_same]
    exact RtWork.ext (h.apart hsub) hsub hq hobj rfl
  · show w ∉ s.workList q'
    rw [h.listed, h.apart hsub]
    simp
  · show w ∈ s.delayedList q' ↔ q' = q
    rw [h.delayed, hsub, hq]
    simp [eq_comm]
  · exact Option.some.inj ((h.handling q' hhand hsub).symm.trans hq)

/-! ## The soft timer thread -/

theorem Inv.expire (h : Inv s) (hs : expire s v = some (s', evs)) : Inv s' := by
  unfold WorkQueue.expire at hs
  split at hs
  · rename_i hidle
    have hsub : (s.work v).submitting = true := (h v).active hidle.2
    cases hs
    intro w
    by_cases hne : w = v
    · subst hne
      obtain ⟨q, hq⟩ := Option.ne_none_iff_exists'.mp ((h w).queued (.inr hsub))
      refine ItemInv.of_submitting (q := q) (b := false) ?_ (fun q' => ?_) (fun q' => ?_)
        (.inr (.inr (.inl rfl))) (fun q' hhand => ?_)
      · rw [setWork_work_same]
        exact RtWork.ext ((h w).apart hsub) hsub hq ((h w).object.trans hsub) rfl
      · show w ∉ s.workList q'
        rw [(h w).listed, (h w).apart hsub]
        simp
      · show w ∈ s.delayedList q' ↔ q' = q
        rw [(h w).delayed, hsub, hq]
        simp [eq_comm]
      · cases hhand
    · refine (h w).untouched ⟨setWork_work_of_ne hne, fun _ => Iff.rfl, fun _ => Iff.rfl,
        fun h => h, ?_, fun _ => ?_⟩
      · simp [hidle.1, Ne.symm hne]
      · simp [hidle.1]
  · cases hs

/-- The assertion of the timeout handler holds. -/
theorem Inv.timeout (h : Inv s) (hs : delayedWorkTimeoutHandler s = some (s', evs)) : Inv s' := by
  unfold delayedWorkTimeoutHandler at hs
  split at hs
  · cases hs
  · rename_i v hsoft
    obtain ⟨q, hq, heq⟩ := Option.map_eq_some_iff.mp hs
    cases heq
    intro w
    refine ⟨(h w).listed, (h w).delayed, (h w).queued, (h w).apart, (h w).object, (h w).active,
      fun hw => ?_, fun hexp => (nomatch hexp), fun q' hhand hw => ?_⟩
    · obtain hact | hstart | hexp | ⟨q', hhand⟩ := (h w).armed hw
      · exact .inl hact
      · exact .inr (.inl hstart)
      · rw [hsoft] at hexp
        cases hexp
        exact .inr (.inr (.inr ⟨q, rfl⟩))
      · rw [hsoft] at hhand
        cases hhand
    · cases hhand
      exact hq
  · rename_i v q hsoft
    obtain ⟨x, hx, heq⟩ := Option.map_eq_some_iff.mp hs
    obtain ⟨hobj, rfl⟩ := rtTimerDetach_some hx
    have hsub : (s.work v).submitting = true := (h v).object.symm.trans hobj
    intro w
    by_cases hne : w = v
    · subst hne
      dsimp only at heq
      split at heq
      · cases heq
        refine ItemInv.of_pending (q := q) ?_ (fun q' => ?_) (fun q' => ?_) ?_
        · rw [resumeWorker_work, setWork_work_same]
          exact RtWork.ext rfl rfl ((h w).handling q hsoft hsub) rfl rfl
        · simp [setWork]
        · simp [setWork, appendWork]
        · simp [setWork, appendWork]
      · cases heq
        refine ItemInv.of_free (r := some q) ?_ (fun q' => ?_) (fun q' => ?_) ?_
        · rw [resumeWorker_work, setWork_work_same]
          exact RtWork.ext ((h w).apart hsub) rfl ((h w).handling q hsoft hsub) rfl rfl
        · simp [setWork]
        · simp [setWork]
        · simp [setWork]
    · exact (h w).untouched (untouched_section hsoft hne heq)

/-! ## The workers -/

theorem Inv.worker (h : Inv s) (hs : workerStep s q = some (s', evs)) : Inv s' := by
  unfold workerStep at hs
  split at hs
  · split at hs
    · cases hs
      exact fun w => (h w).untouched (untouched_same rfl rfl rfl rfl rfl)
    · rename_i v rest hlist
      cases hs
      intro w
      by_cases hne : w = v
      · subst hne
        have hmem : w ∈ s.workList q := by simp [hlist]
        have hpend : (s.work w).pending = true := (((h w).listed q).mp hmem).1
        have hsub : (s.work w).submitting = false := by
          cases hsub : (s.work w).submitting with
          | false => rfl
          | true => exact absurd ((h w).apart hsub) (by simp [hpend])
        obtain ⟨hx, hdel, hexp⟩ := (h w).plain hsub
        refine ItemInv.of_free (r := none) ?_ (fun q' => ?_) (fun q' => ?_) hexp
        · rw [setWork_work_same, unlink_work, hx]
        · simp [setWork]
        · simp [setWork]
      · exact (h w).untouched (untouched_take hne)
  · cases hs
  · cases hs
    exact fun w => (h w).untouched (untouched_same rfl rfl rfl rfl rfl)
  · cases hs
    exact fun w => (h w).untouched (untouched_same rfl rfl rfl rfl rfl)
  · cases hs
    exact fun w => (h w).untouched (untouched_same rfl rfl rfl rfl rfl)

/-! ## Runs -/

/-- The queue that the timeout handler of the item has read. -/
def Soft.queueRead (w : WorkId) : Soft → Option QueueId
  | .handling v q => if v = w then some q else none
  | _ => none

/-- The item that the next step of a call cancels. -/
def Call.cancels : Call → Option WorkId
  | .cancelling _ w => some w
  | .cancelAllWork _ w => w
  | .cancelAllDelayed _ w => w
  | _ => none

/-- An item is marked urgent only while it is pending in the same queue, is not submitted without
delay while it is submitting, is not cancelled before its timeout handler has read its queue, and
is not submitted to another queue afterwards. -/
def Orderly (s : State) : Op → Prop
  | .submit _ q w ticks =>
    (ticks = 0 → (s.work w).submitting = false) ∧
      (ticks ≠ 0 → ∀ q' ∈ s.soft.queueRead w, q' = q)
  | .dowork _ _ w => (s.work w).submitting = false
  | .urgent _ q w => (s.work w).pending = true ∧ (s.work w).workqueue = some q
  | .cancel _ _ w => s.soft ≠ .expired w
  | .proceed t => ∀ w ∈ (s.call t).cancels, s.soft ≠ .expired w
  | _ => True

instance (s : State) (op : Op) : Decidable (Orderly s op) :=
  match op with
  | .submit _ q w ticks =>
    inferInstanceAs (Decidable ((ticks = 0 → (s.work w).submitting = false) ∧
      (ticks ≠ 0 → ∀ q' ∈ s.soft.queueRead w, q' = q)))
  | .dowork _ _ _ => inferInstanceAs (Decidable (_ = _))
  | .urgent _ _ _ => inferInstanceAs (Decidable (_ ∧ _))
  | .cancel _ _ _ => inferInstanceAs (Decidable (_ ≠ _))
  | .proceed t => inferInstanceAs (Decidable (∀ w ∈ (s.call t).cancels, s.soft ≠ .expired w))
  | .cancelSync _ _ _ => .isTrue trivial
  | .cancelAll _ _ => .isTrue trivial
  | .expire _ => .isTrue trivial
  | .timeout => .isTrue trivial
  | .worker _ => .isTrue trivial

theorem enter_some {r : Option (State × List Event)} (hs : enter s t r = some (s', evs)) :
    s.call t = .outside ∧ r = some (s', evs) := by
  unfold enter at hs
  split at hs
  · rename_i hout
    exact ⟨hout, hs⟩
  · cases hs

/-- A caller that starts no timer goes on. -/
theorem Inv.setCall (h : Inv s) (ht : ∀ w, s.call t ≠ .starting w) : Inv (setCall s t c) :=
  fun w => (h w).untouched (untouched_setCall (ht w))

theorem Inv.submit (h : Inv s) (hout : s.call t = .outside) (hticks : ticks < rtTickMaxHalf)
    (hok : Orderly s (.submit t q v ticks))
    (hs : workqueueSubmitWork s t q v ticks = some (s', evs)) : Inv s' := by
  intro w
  by_cases hne : w = v
  · subst hne
    refine (h w).submit hok.1 hticks (fun hzero q' hhand => ?_) hs
    exact hok.2 hzero q' (by simp [hhand, Soft.queueRead])
  · exact (h w).untouched (untouched_submit hout hne hs)

theorem Inv.cancel (h : Inv s) (hexp : s.soft ≠ .expired v)
    (hs : workqueueCancelWork s q v = some (s', evs)) : Inv s' := by
  intro w
  by_cases hne : w = v
  · subst hne
    exact (h w).cancel hexp hs
  · exact (h w).untouched (untouched_cancel hne hs)

theorem Inv.proceed (h : Inv s) (hok : Orderly s (.proceed t))
    (hs : proceed s t = some (s', evs)) : Inv s' := by
  have hcancel : ∀ {q v c}, (s.call t).cancels = some v → (∀ w, s.call t ≠ .starting w) →
      (workqueueCancelWork s q v).map (fun r => (WorkQueue.setCall r.1 t c, r.2)) =
        some (s', evs) → Inv s' := by
    intro q v c hcall hstart hmap
    obtain ⟨⟨s₁, evs₁⟩, hs₁, heq⟩ := Option.map_eq_some_iff.mp hmap
    cases heq
    refine (h.cancel (hok v hcall) hs₁).setCall fun w => ?_
    rw [workqueueCancelWork_call hs₁]
    exact hstart w
  unfold WorkQueue.proceed at hs
  split at hs
  · cases hs
  · rename_i v hcall
    obtain ⟨x, hx, heq⟩ := Option.map_eq_some_iff.mp hs
    cases heq
    intro w
    by_cases hne : w = v
    · subst hne
      exact (h w).start hx
    · refine (h w).untouched ((untouched_setWork hne).trans (untouched_setCall ?_))
      show s.call t ≠ .starting w
      rw [hcall]
      exact fun heq => hne (Call.starting.inj heq).symm
  · rename_i hcall
    exact hcancel (by rw [hcall]; rfl) (by simp [hcall]) hs
  · rename_i q hcall
    cases hs
    have hstart : ∀ w, s.call t ≠ .starting w := by simp [hcall]
    exact fun w => (h w).untouched (untouched_semTake (hstart w))
  · rename_i hcall
    split at hs
    · cases hs
    · cases hs
      exact h.setCall (by simp [hcall])
  · rename_i hcall
    cases hs
    exact h.setCall (by simp [hcall])
  · rename_i hcall
    exact hcancel (by rw [hcall]; rfl) (by simp [hcall]) hs
  · rename_i hcall
    cases hs
    exact h.setCall (by simp [hcall])
  · rename_i hcall
    exact hcancel (by rw [hcall]; rfl) (by simp [hcall]) hs

theorem Inv.act (h : Inv s) (hok : Orderly s op) (hs : act s op = some (s', evs)) : Inv s' := by
  cases op with
  | submit t q v ticks =>
    obtain ⟨hout, hs⟩ := enter_some hs
    unfold rtWorkqueueSubmitWork at hs
    split at hs
    · rename_i hticks
      exact h.submit hout hticks hok hs
    · cases hs
  | dowork t q v =>
    obtain ⟨hout, hs⟩ := enter_some hs
    exact h.submit hout (by decide) ⟨fun _ => hok, fun hne => absurd rfl hne⟩ hs
  | urgent t q v =>
    obtain ⟨-, hs⟩ := enter_some hs
    cases hs
    intro w
    by_cases hne : w = v
    · subst hne
      exact (h w).urgent hok.1 hok.2
    · exact (h w).untouched (untouched_urgent hne)
  | cancel t q v =>
    obtain ⟨-, hs⟩ := enter_some hs
    exact h.cancel hok hs
  | cancelSync t q v =>
    obtain ⟨hout, hs⟩ := enter_some hs
    cases hs
    unfold rtWorkqueueCancelWorkSync
    split
    · exact h.setCall (by simp [hout])
    · exact h.setCall (by simp [hout])
  | cancelAll t q =>
    obtain ⟨hout, hs⟩ := enter_some hs
    cases hs
    exact h.setCall (by simp [hout])
  | proceed t => exact h.proceed hok hs
  | expire v => exact h.expire hs
  | timeout => exact h.timeout hs
  | worker q => exact h.worker hs

end items

theorem step_inv {s s' : State} (h : Inv s) (hok : Orderly s op) (hs : step s op = some s') :
    Inv s' := by
  obtain ⟨⟨s₁, evs⟩, hact, rfl⟩ := Option.map_eq_some_iff.mp hs
  exact h.act hok hact

theorem inv_init : Inv init :=
  fun _ => ItemInv.of_free rfl (fun _ h => (nomatch h)) (fun _ h => (nomatch h)) (fun h => nomatch h)

/-- In every run of orderly steps the flags, the lists, the timer and the queue of an item agree,
and the timeout handler finds a queue. -/
theorem work_state_consistent (ops : List Op) (s : State) (hok : Runs.Along step Orderly init ops)
    (hrun : Runs.run step init ops = some s) (w : WorkId) :
    ((s.work w).pending = true ↔ ∃ q, (s.work w).workqueue = some q ∧ w ∈ s.workList q) ∧
      (¬ InTransit s w → ((s.work w).submitting = true ↔
        (s.work w).active = true ∧ ∃ q, (s.work w).workqueue = some q ∧ w ∈ s.delayedList q)) ∧
      (((∃ q, w ∈ s.workList q) ∨ (∃ q, w ∈ s.delayedList q) ∨ (s.work w).active = true) →
        (s.work w).workqueue ≠ none) ∧
      (s.soft = .expired w → (s.work w).workqueue ≠ none) := by
  have hinv : Inv s :=
    Runs.run_invariant_along (fun _ _ _ h hok hs => step_inv h hok hs) inv_init hok hrun
  have h := hinv w
  refine ⟨⟨fun hpend => ?_, fun ⟨q, _, hmem⟩ => ((h.listed q).mp hmem).1⟩,
    fun hrest => ⟨fun hsub => ?_, fun ⟨hact, _⟩ => h.active hact⟩, ?_,
    fun hexp => h.queued (.inr (h.expired hexp))⟩
  · obtain ⟨q, hq⟩ := Option.ne_none_iff_exists'.mp (h.queued (.inl hpend))
    exact ⟨q, hq, (h.listed q).mpr ⟨hpend, hq⟩⟩
  · obtain ⟨q, hq⟩ := Option.ne_none_iff_exists'.mp (h.queued (.inr hsub))
    exact ⟨(h.armed hsub).resolve_right hrest, q, hq, (h.delayed q).mpr ⟨hsub, hq⟩⟩
  · rintro (⟨q, hmem⟩ | ⟨q, hmem⟩ | hact)
    · exact h.queued (.inl ((h.listed q).mp hmem).1)
    · exact h.queued (.inr ((h.delayed q).mp hmem).1)
    · exact h.queued (.inr (h.active hact))

/-- A delayed submission, its timeout, an urgent call while the item is pending, and a delayed
submission of a second item. -/
def delayThenUrgent : List Op :=
  [.submit 1 0 7 5, .proceed 1, .expire 7, .timeout, .timeout, .urgent 1 0 7, .submit 1 0 8 5,
    .proceed 1]

theorem work_state_consistent_delayed :
    Runs.Along step Orderly init delayThenUrgent ∧
      ∃ s, Runs.run step init delayThenUrgent = some s ∧ s.workList 0 = [7] ∧
        s.delayedList 0 = [8] ∧
        ((s.work 7).pending = true ↔ ∃ q, (s.work 7).workqueue = some q ∧ 7 ∈ s.workList q) := by
  have hok : Runs.Along step Orderly init delayThenUrgent := by decide +kernel
  have hlast : (Runs.run step init delayThenUrgent).map
      (fun s => (s.workList 0, s.delayedList 0)) = some ([7], [8]) := by decide +kernel
  obtain ⟨s, hrun, hs⟩ := Option.map_eq_some_iff.mp hlast
  simp only [Prod.mk.injEq] at hs
  exact ⟨hok, s, hrun, hs.1, hs.2, (work_state_consistent delayThenUrgent s hok hrun 7).1⟩

/-- An immediate submission over a delayed one leaves the timer active, and the worker clears the
queue of the item. -/
def staleTimer : List Op :=
  [.submit 1 0 7 5, .proceed 1, .dowork 1 0 7, .worker 0, .expire 7]

/-- The timeout handler fails its assertion; an urgent item is linked without a flag or a queue. -/
theorem work_state_inconsistent :
    (∃ s, Runs.run step init staleTimer = some s ∧ s.soft = .expired 7 ∧
      (s.work 7).workqueue = none ∧ (act s .timeout).isNone) ∧
    ∃ s, Runs.run step init [.urgent 1 0 7] = some s ∧ 7 ∈ s.workList 0 ∧
      (s.work 7).pending = false ∧ (s.work 7).workqueue = none := by
  have hstale : (Runs.run step init staleTimer).map (fun s =>
      (s.soft, (s.work 7).workqueue, (act s .timeout).isNone)) =
        some (.expired 7, none, true) := by decide +kernel
  obtain ⟨s, hrun, hs⟩ := Option.map_eq_some_iff.mp hstale
  simp only [Prod.mk.injEq] at hs
  exact ⟨⟨s, hrun, hs.1, hs.2.1, hs.2.2⟩, _, rfl, by decide, rfl, rfl⟩

end RtThread.WorkQueue
