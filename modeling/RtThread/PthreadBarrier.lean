import Mathlib.Algebra.BigOperators.Group.Finset.Basic
import Mathlib.Algebra.Order.BigOperators.Group.Finset
import RtThread.CondWake
import RtThread.Lib.Runs

/-!
# Barriers

`pthread_barrier_wait` on one barrier, over the steps of its mutex and its condition variable. A
round is the next wait of each of the threads. The results of the waits of a thread are kept, the
last one first.
-/
namespace RtThread.PthreadBarrier

open Function (update_of_ne update_self)
open Ipc (ThreadId Waiters)
open Cond (Errno)

/-- Where a thread is in `pthread_barrier_wait`. -/
inductive Stage where
  | outside
  /-- Before the mutex is locked. -/
  | entering
  /-- The thread has counted itself as the last one. -/
  | broadcasting
  /-- The thread has counted itself as one of the others. -/
  | waiting
  /-- In `pthread_cond_wait`, behind the release of the mutex. -/
  | sleeping
  /-- Before the mutex is unlocked. -/
  | leaving (result : Errno)
  deriving DecidableEq

structure State where
  cond : Cond.State
  count : Nat
  stage : ThreadId → Stage
  results : ThreadId → List Errno

/-- `pthread_barrier_init`, over started threads. -/
def init (count : Nat) (priority : ThreadId → Nat) : State :=
  ⟨Cond.init .normal priority, count, fun _ => .outside, fun _ => []⟩

def setStage (s : State) (t : ThreadId) (stage : Stage) : State :=
  { s with stage := Function.update s.stage t stage }

/-- The wait of `t` returns. -/
def finish (s : State) (t : ThreadId) (result : Errno) : State :=
  { s with
    stage := Function.update s.stage t .outside
    results := Function.update s.results t (result :: s.results t) }

/-- The part of `pthread_barrier_wait` behind the lock. -/
def count (s : State) (t : ThreadId) : State :=
  if s.count = 0 then setStage s t (.leaving .einval)
  else
    setStage { s with count := s.count - 1 } t (if s.count = 1 then .broadcasting else .waiting)

/-- The next part of a wait. The results of the functions of the condition variable and of the
unlock are not looked at. -/
def proceed (s : State) (t : ThreadId) : Option State :=
  match s.stage t with
  | .outside => none
  | .entering =>
    (Cond.call s.cond (.lock t)).map fun r =>
      if r.2 = some .ok then count { s with cond := r.1 } t
      else finish { s with cond := r.1 } t .einval
  | .broadcasting =>
    (Cond.call s.cond (.broadcast t)).map fun r =>
      setStage { s with cond := r.1 } t (.leaving .ok)
  | .waiting =>
    (Cond.call s.cond (.wait t none)).map fun r =>
      setStage { s with cond := r.1 } t (if r.2 = none then .sleeping else .leaving .ok)
  | .sleeping =>
    (Cond.call s.cond (.proceed t)).map fun r =>
      setStage { s with cond := r.1 } t (if r.2 = none then .sleeping else .leaving .ok)
  | .leaving result =>
    (Cond.call s.cond (.unlock t)).map fun r => finish { s with cond := r.1 } t result

/-- The steps of a run: a thread calls `pthread_barrier_wait`, or goes on in it. -/
inductive Op where
  | call (t : ThreadId)
  | proceed (t : ThreadId)
  deriving DecidableEq

def Op.thread : Op → ThreadId
  | call t => t
  | proceed t => t

def step (s : State) : Op → Option State
  | .call t => if s.stage t = .outside then some (setStage s t .entering) else none
  | .proceed t => proceed s t

/-! ## What a step can do -/

/-- The ways in which `proceed` goes on, with the state of the condition variable behind it. -/
inductive Proceeds (s : State) (t : ThreadId) : State → Prop
  | failed {c : Cond.State} {r : Option Errno} (hs : s.stage t = .entering)
      (hc : Cond.call s.cond (.lock t) = some (c, r)) (hr : r ≠ some .ok) :
    Proceeds s t (finish { s with cond := c } t .einval)
  | spent {c : Cond.State} (hs : s.stage t = .entering)
      (hc : Cond.call s.cond (.lock t) = some (c, some .ok)) (hcount : s.count = 0) :
    Proceeds s t (setStage { s with cond := c } t (.leaving .einval))
  | last {c : Cond.State} (hs : s.stage t = .entering)
      (hc : Cond.call s.cond (.lock t) = some (c, some .ok)) (hcount : s.count = 1) :
    Proceeds s t (setStage { s with cond := c, count := s.count - 1 } t .broadcasting)
  | counted {c : Cond.State} (hs : s.stage t = .entering)
      (hc : Cond.call s.cond (.lock t) = some (c, some .ok)) (hcount : 1 < s.count) :
    Proceeds s t (setStage { s with cond := c, count := s.count - 1 } t .waiting)
  | broadcast {c : Cond.State} {r : Option Errno} (hs : s.stage t = .broadcasting)
      (hc : Cond.call s.cond (.broadcast t) = some (c, r)) :
    Proceeds s t (setStage { s with cond := c } t (.leaving .ok))
  | released {c : Cond.State} (hs : s.stage t = .waiting)
      (hc : Cond.call s.cond (.wait t none) = some (c, none)) :
    Proceeds s t (setStage { s with cond := c } t .sleeping)
  | refused {c : Cond.State} {e : Errno} (hs : s.stage t = .waiting)
      (hc : Cond.call s.cond (.wait t none) = some (c, some e)) :
    Proceeds s t (setStage { s with cond := c } t (.leaving .ok))
  | asleep {c : Cond.State} (hs : s.stage t = .sleeping)
      (hc : Cond.call s.cond (.proceed t) = some (c, none)) :
    Proceeds s t (setStage { s with cond := c } t .sleeping)
  | woken {c : Cond.State} {e : Errno} (hs : s.stage t = .sleeping)
      (hc : Cond.call s.cond (.proceed t) = some (c, some e)) :
    Proceeds s t (setStage { s with cond := c } t (.leaving .ok))
  | left {c : Cond.State} {r : Option Errno} {result : Errno} (hs : s.stage t = .leaving result)
      (hc : Cond.call s.cond (.unlock t) = some (c, r)) :
    Proceeds s t (finish { s with cond := c } t result)

theorem proceed_proceeds {s s' : State} {t : ThreadId} (h : proceed s t = some s') :
    Proceeds s t s' := by
  unfold proceed at h
  cases hs : s.stage t with
  | outside => simp [hs] at h
  | entering =>
    simp only [hs] at h
    obtain ⟨⟨c, r⟩, hc, rfl⟩ := Option.map_eq_some_iff.mp h
    split
    next hr =>
      obtain rfl : r = some .ok := hr
      unfold count
      split
      next hzero => exact .spent hs hc hzero
      next hpos =>
        split
        next hone => exact .last hs hc hone
        next hmore => exact .counted hs hc (by dsimp only at hpos hmore; omega)
    next hr => exact .failed hs hc hr
  | broadcasting =>
    simp only [hs] at h
    obtain ⟨⟨c, r⟩, hc, rfl⟩ := Option.map_eq_some_iff.mp h
    exact .broadcast hs hc
  | waiting =>
    simp only [hs] at h
    obtain ⟨⟨c, _ | e⟩, hc, rfl⟩ := Option.map_eq_some_iff.mp h
    · exact .released hs hc
    · exact .refused hs hc
  | sleeping =>
    simp only [hs] at h
    obtain ⟨⟨c, _ | e⟩, hc, rfl⟩ := Option.map_eq_some_iff.mp h
    · exact .asleep hs hc
    · exact .woken hs hc
  | leaving result =>
    simp only [hs] at h
    obtain ⟨⟨c, r⟩, hc, rfl⟩ := Option.map_eq_some_iff.mp h
    exact .left hs hc

/-! ## Counted waits -/

/-- The thread has counted itself, or it returns without error. -/
def Stage.passed : Stage → Bool
  | .broadcasting | .waiting | .sleeping | .leaving .ok => true
  | _ => false

/-- How many waits of a thread have counted themselves. -/
def passed (s : State) (t : ThreadId) : Nat :=
  (s.results t).count .ok + (s.stage t).passed.toNat

/-- How many times a thread has called `pthread_barrier_wait`. -/
def called (s : State) (t : ThreadId) : Nat :=
  (s.results t).length + (if s.stage t = .outside then 0 else 1)

theorem passed_le_called (s : State) (t : ThreadId) : passed s t ≤ called s t := by
  have hcount : (s.results t).count .ok ≤ (s.results t).length := List.count_le_length
  have hstage : (s.stage t).passed.toNat ≤ if s.stage t = .outside then 0 else 1 := by
    split
    next h => simp [h, Stage.passed]
    next h => exact Bool.toNat_le _
  unfold passed called
  omega

/-- A step of a thread changes the stage and the results of this thread only. -/
structure Own (s s' : State) (t : ThreadId) : Prop where
  stage : ∀ u, u ≠ t → s'.stage u = s.stage u
  results : ∀ u, u ≠ t → s'.results u = s.results u

variable {s s' : State} {t : ThreadId}

theorem Proceeds.own (h : Proceeds s t s') : Own s s' t := by
  constructor
  · intro u hu
    cases h <;> exact update_of_ne hu _ _
  · intro u hu
    cases h with
    | failed | left => exact update_of_ne hu _ _
    | _ => rfl

theorem Own.passed_eq (h : Own s s' t) {u : ThreadId} (hu : u ≠ t) : passed s' u = passed s u := by
  rw [passed, passed, h.stage u hu, h.results u hu]

theorem Proceeds.called_eq (h : Proceeds s t s') (u : ThreadId) : called s' u = called s u := by
  by_cases hu : u = t
  · subst hu
    cases h <;> simp [called, finish, setStage, *]
  · rw [called, called, h.own.stage u hu, h.own.results u hu]

/-- What a thread takes from the count it has passed. -/
theorem Proceeds.count_add (h : Proceeds s t s') : s'.count + passed s' t = s.count + passed s t := by
  cases h with
  | @left c r result hs hc => cases result <;> simp [passed, finish, Stage.passed, hs]
  | last hs hc hcount =>
    simp only [passed, setStage, update_self, hs, hcount, Stage.passed, Bool.toNat_true,
      Bool.toNat_false]
    omega
  | counted hs hc hcount =>
    simp only [passed, setStage, update_self, hs, Stage.passed, Bool.toNat_true,
      Bool.toNat_false]
    omega
  | _ => simp [passed, finish, setStage, Stage.passed, *]

theorem step_call (h : step s (.call t) = some s') :
    s.stage t = .outside ∧ s' = setStage s t .entering := by
  rw [step] at h
  split at h
  next hs => exact ⟨hs, (Option.some.inj h).symm⟩
  next hs => cases h

theorem step_own {op : Op} (h : step s op = some s') : Own s s' op.thread := by
  cases op with
  | call t =>
    obtain ⟨-, rfl⟩ := step_call h
    exact ⟨fun u hu => update_of_ne hu _ _, fun _ _ => rfl⟩
  | proceed t => exact (proceed_proceeds h).own

theorem step_count_add {op : Op} (h : step s op = some s') :
    s'.count + passed s' op.thread = s.count + passed s op.thread := by
  cases op with
  | call t =>
    obtain ⟨hs, rfl⟩ := step_call h
    simp [passed, setStage, hs, Op.thread, Stage.passed]
  | proceed t => exact (proceed_proceeds h).count_add

/-! ## Runs of some threads -/

/-- A state of a run in which only the threads call the barrier, as many as its count tells. -/
def Reaches (threads : Finset ThreadId) (priority : ThreadId → Nat) (s : State) : Prop :=
  ∃ ops : List Op, (∀ op ∈ ops, op.thread ∈ threads) ∧
    Runs.run step (init threads.card priority) ops = some s

variable {threads : Finset ThreadId} {priority : ThreadId → Nat}

theorem sum_step {f g : ThreadId → Nat} (ht : t ∈ threads) (h : ∀ u, u ≠ t → g u = f u) :
    ∑ u ∈ threads, g u + f t = ∑ u ∈ threads, f u + g t := by
  have hf := Finset.add_sum_erase threads f ht
  have hg := Finset.add_sum_erase threads g ht
  have hrest : ∑ u ∈ threads.erase t, g u = ∑ u ∈ threads.erase t, f u :=
    Finset.sum_congr rfl fun u hu => h u (Finset.ne_of_mem_erase hu)
  omega

/-- The waits that have counted themselves are those that the count has gone down by. -/
theorem Reaches.count_add (h : Reaches threads priority s) :
    s.count + ∑ t ∈ threads, passed s t = threads.card := by
  obtain ⟨ops, hops, hrun⟩ := h
  have hstep : ∀ (s : State) (op : Op) (s' : State),
      s.count + ∑ t ∈ threads, passed s t = threads.card → op.thread ∈ threads →
      step s op = some s' → s'.count + ∑ t ∈ threads, passed s' t = threads.card :=
    fun s op s' hs hop hstep => by
      have hsum := sum_step hop fun u hu => (step_own hstep).passed_eq hu
      have hcount := step_count_add hstep
      omega
  have hinit : (init threads.card priority).count +
      ∑ t ∈ threads, passed (init threads.card priority) t = threads.card := by
    simp [passed, init, Stage.passed]
  exact Runs.run_invariant_along hstep hinit (Runs.along_of_forall hops _) hrun

/-- Not more waits return without error than there are threads, in all rounds together. -/
theorem Reaches.ok_le (h : Reaches threads priority s) :
    ∑ t ∈ threads, (s.results t).count .ok ≤ threads.card := by
  have hle : ∑ t ∈ threads, (s.results t).count .ok ≤ ∑ t ∈ threads, passed s t :=
    Finset.sum_le_sum fun t _ => Nat.le_add_right _ _
  have := h.count_add
  omega

theorem Reaches.append {ops : List Op} (h : Reaches threads priority s)
    (hops : ∀ op ∈ ops, op.thread ∈ threads) (hrun : Runs.run step s ops = some s') :
    Reaches threads priority s' := by
  obtain ⟨ops', hops', hrun'⟩ := h
  refine ⟨ops' ++ ops, List.forall_mem_append.mpr ⟨hops', hops⟩, ?_⟩
  rw [Runs.run_append, hrun']
  exact hrun

/-- All the threads that are outside can call the barrier. -/
theorem run_calls {l : List ThreadId} (hnodup : l.Nodup) (hs : ∀ t ∈ l, s.stage t = .outside) :
    ∃ s', Runs.run step s (l.map .call) = some s' ∧ s'.results = s.results ∧
      ∀ t, s'.stage t = if t ∈ l then .entering else s.stage t := by
  induction l generalizing s with
  | nil => exact ⟨s, rfl, rfl, by simp⟩
  | cons t l ih =>
    obtain ⟨ht, hl⟩ := List.nodup_cons.mp hnodup
    have hl' : ∀ u ∈ l, (setStage s t .entering).stage u = .outside := fun u hu => by
      have hne : u ≠ t := fun h => ht (h ▸ hu)
      simp [setStage, hne, hs u (List.mem_cons_of_mem t hu)]
    obtain ⟨s', hrun, hresults, hstage⟩ := ih hl hl'
    refine ⟨s', ?_, hresults, fun u => ?_⟩
    · rw [List.map_cons, Runs.run_cons, step, if_pos (hs t List.mem_cons_self)]
      exact hrun
    · rw [hstage u]
      by_cases hut : u = t
      · subst hut
        simp [ht, setStage]
      · simp [hut, setStage]

/-- The steps that are no calls leave the number of calls. -/
theorem run_called {ops : List Op} (hops : ∀ op ∈ ops, ∃ t, op = .proceed t)
    (hrun : Runs.run step s ops = some s') (t : ThreadId) : called s' t = called s t := by
  have hstep : ∀ (s₁ : State) (op : Op) (s₂ : State), called s₁ t = called s t →
      (∃ u, op = .proceed u) → step s₁ op = some s₂ → called s₂ t = called s t := by
    rintro s₁ _ s₂ hs ⟨u, rfl⟩ hstep
    exact ((proceed_proceeds hstep).called_eq t).trans hs
  exact Runs.run_invariant_along hstep rfl (Runs.along_of_forall hops s) hrun

/-! ## The first round -/

/-- While threads are missing no thread has a token of the condition variable. -/
structure Fresh (s : State) : Prop where
  stage : ∀ t, s.stage t ≠ .broadcasting ∧ ∀ e, s.stage t ≠ .leaving e
  results : ∀ t, s.results t = []
  type : s.cond.mutex.type = .normal
  held : ∀ t k, s.cond.mutex.held = some (t, k) → k = 1 ∧ s.stage t = .waiting
  owner : ∀ t, s.stage t = .waiting → s.cond.mutex.held = some (t, 1)
  value : s.cond.sem.value = 0
  taking : ∀ t, s.cond.sem.taking t = true → Semaphore.Suspended s.cond.sem t
  sleep : ∀ t, s.cond.stage t = .outside ∨ s.cond.stage t = .released none ∨
    s.cond.stage t = .taking none

theorem fresh_init (count : Nat) (priority : ThreadId → Nat) : Fresh (init count priority) where
  stage _ := ⟨Stage.noConfusion, fun _ => Stage.noConfusion⟩
  results _ := rfl
  type := rfl
  held _ _ h := absurd h.symm (Option.some_ne_none _)
  owner _ h := Stage.noConfusion h
  value := rfl
  taking _ h := Bool.noConfusion h
  sleep _ := .inl rfl

theorem Fresh.lock (hi : Fresh s) (hs : s.stage t = .entering) {c : Cond.State} {r : Option Errno}
    (hc : Cond.call s.cond (.lock t) = some (c, r)) :
    r = some .ok ∧ s.cond.mutex.held = none ∧
      c = { s.cond with mutex := { s.cond.mutex with held := some (t, 1) } } := by
  simp only [Cond.call] at hc
  split at hc
  · unfold Cond.pthreadMutexLock at hc
    cases hheld : s.cond.mutex.held with
    | none =>
      simp only [hheld, Option.map_some, Option.some.injEq, Prod.mk.injEq] at hc
      exact ⟨hc.2.symm, rfl, hc.1.symm⟩
    | some o =>
      obtain ⟨u, k⟩ := o
      have hne : u ≠ t := fun hut => by
        have hwaiting := (hi.held u k hheld).2
        rw [hut, hs] at hwaiting
        cases hwaiting
      simp [hheld, hne] at hc
  · cases hc

theorem Fresh.release (hi : Fresh s) (hs : s.stage t = .waiting) {c : Cond.State}
    {r : Option Errno} (hc : Cond.call s.cond (.wait t none) = some (c, r)) :
    r = none ∧ c = Cond.setStage { s.cond with mutex := { s.cond.mutex with held := none } } t
      (.released none) := by
  have hheld := hi.owner t hs
  simp only [Cond.call] at hc
  split at hc
  · simp only [Cond.condRelease, Cond.pthreadMutexUnlock, hheld, Option.map_some, ne_eq,
      not_true_eq_false, if_false, if_true, Option.some.injEq, Prod.mk.injEq] at hc
    exact ⟨hc.2.symm, hc.1.symm⟩
  · cases hc

/-- A thread that comes to the semaphore is suspended, and stays so. -/
theorem Fresh.sleeps (hi : Fresh s) {c : Cond.State} {r : Option Errno}
    (hc : Cond.call s.cond (.proceed t) = some (c, r)) :
    r = none ∧ ∃ sem, c = Cond.setStage { s.cond with sem := sem } t (.taking none) ∧
      sem.value = 0 ∧ ∀ u, sem.taking u = true → Semaphore.Suspended sem u := by
  simp only [Cond.call, Cond.proceed] at hc
  obtain hs | hs | hs := hi.sleep t
  · simp [hs] at hc
  · simp only [hs, Semaphore.call] at hc
    split at hc
    next hactive =>
      have htime : ¬ (none : Option (BitVec 32)).getD Cond.waitingForever = 0 := by decide
      rw [Semaphore.rtSemTake, if_neg (by rw [hi.value]; exact Nat.lt_irrefl 0), if_neg htime,
        Option.map_map] at hc
      obtain ⟨w, hw, heq⟩ := Option.map_eq_some_iff.mp hc
      cases heq
      refine ⟨rfl, _, rfl, hi.value, fun u hu => ?_⟩
      obtain ⟨l, -, rfl⟩ := Waiters.block_eq hactive.1 hw
      by_cases hut : u = t
      · simp [Semaphore.Suspended, hut]
      · have hsusp := hi.taking u (by simpa [hut] using hu)
        simpa [Semaphore.Suspended, hut] using hsusp
    next => cases hc
  · simp only [hs, Semaphore.call] at hc
    split at hc
    next hback =>
      have hsusp := hi.taking t hback.2
      rw [Semaphore.Suspended, hback.1] at hsusp
      cases hsusp
    next => cases hc

/-- The next stage of a thread in the first round. -/
theorem Fresh.stages (hi : Fresh s) {stage : Stage} (hstage : stage ≠ .broadcasting)
    (hleaving : ∀ e, stage ≠ .leaving e) (u : ThreadId) :
    Function.update s.stage t stage u ≠ .broadcasting ∧
      ∀ e, Function.update s.stage t stage u ≠ .leaving e := by
  by_cases hut : u = t
  · subst hut
    rw [update_self]
    exact ⟨hstage, hleaving⟩
  · rw [update_of_ne hut]
    exact hi.stage u

theorem Fresh.sleep_update (hi : Fresh s) {stage : Cond.Stage}
    (hstage : stage = .outside ∨ stage = .released none ∨ stage = .taking none) (u : ThreadId) :
    Function.update s.cond.stage t stage u = .outside ∨
      Function.update s.cond.stage t stage u = .released none ∨
      Function.update s.cond.stage t stage u = .taking none := by
  by_cases hut : u = t
  · subst hut
    rw [update_self]
    exact hstage
  · rw [update_of_ne hut]
    exact hi.sleep u

theorem update_waiting {stage : Stage} (hs : s.stage t ≠ .waiting) (hstage : stage ≠ .waiting)
    (u : ThreadId) :
    Function.update s.stage t stage u = .waiting ↔ s.stage u = .waiting := by
  by_cases hut : u = t
  · subst hut
    rw [update_self]
    exact iff_of_false hstage hs
  · rw [update_of_ne hut]

theorem Fresh.call (hi : Fresh s) (hs : s.stage t = .outside) : Fresh (setStage s t .entering) where
  stage := hi.stages Stage.noConfusion fun _ => Stage.noConfusion
  results := hi.results
  type := hi.type
  held u k h := ⟨(hi.held u k h).1,
    (update_waiting (by simp [hs]) (by simp) u).mpr (hi.held u k h).2⟩
  owner u h := hi.owner u ((update_waiting (by simp [hs]) (by simp) u).mp h)
  value := hi.value
  taking := hi.taking
  sleep := hi.sleep

theorem Fresh.proceeds (hi : Fresh s) (h : Proceeds s t s') (hcount : 0 < s'.count) : Fresh s' := by
  cases h with
  | failed hs hc hr => exact absurd (hi.lock hs hc).1 hr
  | spent hs hc hzero => exact absurd hcount (by simp [setStage, hzero])
  | last hs hc hone => exact absurd hcount (by simp [setStage, hone])
  | counted hs hc hmore =>
    obtain ⟨-, hfree, rfl⟩ := hi.lock hs hc
    refine ⟨hi.stages Stage.noConfusion fun _ => Stage.noConfusion, hi.results, hi.type,
      fun u k h => ?_, fun u h => ?_, hi.value, hi.taking, hi.sleep⟩
    · cases h
      exact ⟨rfl, update_self _ _ _⟩
    · by_cases hut : u = t
      · rw [hut]
        rfl
      · have hwaiting : s.stage u = .waiting := by simpa [setStage, hut] using h
        exact absurd (hi.owner u hwaiting) (by simp [hfree])
  | broadcast hs hc => exact absurd hs (hi.stage t).1
  | released hs hc =>
    obtain ⟨-, rfl⟩ := hi.release hs hc
    refine ⟨hi.stages Stage.noConfusion fun _ => Stage.noConfusion, hi.results, hi.type,
      fun u k h => absurd h.symm (Option.some_ne_none _), fun u h => ?_, hi.value, hi.taking,
      hi.sleep_update (.inr (.inl rfl))⟩
    by_cases hut : u = t
    · simp [setStage, hut] at h
    · have hwaiting : s.stage u = .waiting := by simpa [setStage, hut] using h
      have hsame := (hi.owner u hwaiting).symm.trans (hi.owner t hs)
      exact absurd (pair_inj hsame).1 hut
  | refused hs hc => exact absurd (hi.release hs hc).1 (by simp)
  | asleep hs hc =>
    obtain ⟨-, sem, rfl, hvalue, htaking⟩ := hi.sleeps hc
    have hmove : ∀ u, Function.update s.stage t .sleeping u = .waiting ↔ s.stage u = .waiting :=
      update_waiting (by simp [hs]) (by simp)
    exact ⟨hi.stages Stage.noConfusion fun _ => Stage.noConfusion, hi.results, hi.type,
      fun u k h => ⟨(hi.held u k h).1, (hmove u).mpr (hi.held u k h).2⟩,
      fun u h => hi.owner u ((hmove u).mp h), hvalue, htaking, hi.sleep_update (.inr (.inr rfl))⟩
  | woken hs hc => exact absurd (hi.sleeps hc).1 (by simp)
  | left hs hc => exact absurd hs ((hi.stage t).2 _)

theorem Proceeds.count_le (h : Proceeds s t s') : s'.count ≤ s.count := by
  cases h with
  | last | counted => exact Nat.sub_le _ _
  | _ => exact Nat.le_refl _

theorem step_fresh {op : Op} (hi : 0 < s.count → Fresh s) (h : step s op = some s')
    (hcount : 0 < s'.count) : Fresh s' := by
  cases op with
  | call t =>
    obtain ⟨hs, rfl⟩ := step_call h
    exact (hi hcount).call hs
  | proceed t =>
    have hproceeds := proceed_proceeds h
    exact (hi (hcount.trans_le hproceeds.count_le)).proceeds hproceeds hcount

/-- No wait of the first round returns before all the threads have called theirs. -/
theorem Reaches.first_round (h : Reaches threads priority s) (hresults : s.results t ≠ []) :
    threads.card ≤ ∑ u ∈ threads, called s u := by
  have hfresh : 0 < s.count → Fresh s := by
    obtain ⟨ops, -, hrun⟩ := h
    exact Runs.run_invariant (fun _ _ _ hi hstep => step_fresh hi hstep)
      (fun _ => fresh_init _ priority) hrun
  have hzero : s.count = 0 := Nat.eq_zero_of_not_pos fun hpos =>
    hresults ((hfresh hpos).results t)
  have hcount := h.count_add
  have hle : ∑ u ∈ threads, passed s u ≤ ∑ u ∈ threads, called s u :=
    Finset.sum_le_sum fun u _ => passed_le_called s u
  omega

/-! ## Rounds -/

/-- What a barrier is for: no wait returns before all the threads have called theirs of the same
round; the waits return without error; they can all return when all the threads have called theirs;
and when they have returned the count is renewed. -/
structure Meets (threads : Finset ThreadId) (priority : ThreadId → Nat) : Prop where
  together : ∀ s, Reaches threads priority s → ∀ t ∈ threads, ∀ u ∈ threads,
    (s.results t).length ≤ called s u
  ok : ∀ s, Reaches threads priority s → ∀ t ∈ threads, ∀ e ∈ s.results t, e = .ok
  returns : ∀ s r, Reaches threads priority s → (∀ t ∈ threads, called s t = r) →
    ∃ ops s', (∀ op ∈ ops, ∃ t ∈ threads, op = .proceed t) ∧ Runs.run step s ops = some s' ∧
      ∀ t ∈ threads, s'.stage t = .outside
  ready : ∀ s r, Reaches threads priority s →
    (∀ t ∈ threads, called s t = r ∧ s.stage t = .outside) → s.count = threads.card

theorem reaches_init : Reaches threads priority (init threads.card priority) :=
  ⟨[], List.forall_mem_nil _, rfl⟩

/-- When all the waits of a round return, so does the next round begin: all the threads call. -/
theorem Meets.round (h : Meets threads priority) {r : Nat} (hs : Reaches threads priority s)
    (hround : ∀ t ∈ threads, called s t = r ∧ s.stage t = .outside) :
    ∃ s', Reaches threads priority s' ∧
      ∀ t ∈ threads, called s' t = r + 1 ∧ s'.stage t = .outside := by
  obtain ⟨s₁, hrun₁, hresults, hstage⟩ := run_calls threads.nodup_toList
    fun t ht => (hround t (Finset.mem_toList.mp ht)).2
  have hs₁ : Reaches threads priority s₁ := hs.append (fun op hop => by
    obtain ⟨t, ht, rfl⟩ := List.mem_map.mp hop
    exact Finset.mem_toList.mp ht) hrun₁
  have hcalled : ∀ t ∈ threads, called s₁ t = r + 1 := fun t ht => by
    have hlen := (hround t ht).1
    rw [called, if_pos (hround t ht).2] at hlen
    rw [called, hresults, hstage t, if_pos (Finset.mem_toList.mpr ht), if_neg (by simp)]
    omega
  obtain ⟨ops, s₂, hops, hrun₂, hout⟩ := h.returns s₁ (r + 1) hs₁ hcalled
  refine ⟨s₂, hs₁.append (fun op hop => ?_) hrun₂, fun t ht => ⟨?_, hout t ht⟩⟩
  · obtain ⟨t, ht, rfl⟩ := hops op hop
    exact ht
  · rw [run_called (fun op hop => (hops op hop).imp fun t ht => ht.2) hrun₂, hcalled t ht]

/-- After the waits of a round the count is used up: those of the next round fail. -/
theorem second_round_fails (hthreads : threads.Nonempty) (hs : Reaches threads priority s)
    (htwo : ∀ t ∈ threads, 2 ≤ (s.results t).length) :
    ∃ t ∈ threads, ∃ e ∈ s.results t, e ≠ .ok := by
  by_contra hnone
  have hall : ∀ t ∈ threads, ∀ e ∈ s.results t, e = .ok := fun t ht e he =>
    not_not.mp fun hne => hnone ⟨t, ht, e, he, hne⟩
  have hsum : ∑ _t ∈ threads, 2 ≤ ∑ t ∈ threads, (s.results t).count .ok :=
    Finset.sum_le_sum fun t ht => by
      rw [List.count_eq_length.mpr fun e he => (hall t ht e he).symm]
      exact htwo t ht
  have hle := hs.ok_le
  have hpos := hthreads.card_pos
  rw [Finset.sum_const_nat fun _ _ => rfl] at hsum
  omega

/-- No number of threads can use a barrier for one round after another. -/
theorem never_renewed (threads : Finset ThreadId) (priority : ThreadId → Nat)
    (hthreads : threads.Nonempty) : ¬ Meets threads priority := by
  intro h
  obtain ⟨s₁, hs₁, hone⟩ := h.round reaches_init (r := 0) fun t _ => ⟨rfl, rfl⟩
  obtain ⟨s₂, hs₂, htwo⟩ := h.round hs₁ hone
  have hlen : ∀ t ∈ threads, 2 ≤ (s₂.results t).length := fun t ht => by
    have hcalled := (htwo t ht).1
    rw [called, if_pos (htwo t ht).2] at hcalled
    omega
  obtain ⟨t, ht, e, he, hne⟩ := second_round_fails hthreads hs₂ hlen
  exact hne (h.ok s₂ hs₂ t ht e he)

theorem never_renewed_three : ¬ Meets {1, 2, 3} fun _ => 20 :=
  never_renewed _ _ (Finset.insert_nonempty 1 _)

/-- A thread that is alone waits two times. -/
def twoWaits : List Op :=
  [.call 1, .proceed 1, .proceed 1, .proceed 1, .call 1, .proceed 1, .proceed 1]

/-- The second wait of a barrier for one thread fails. -/
theorem second_wait_fails :
    (∃ s, Runs.run step (init 1 fun _ => 20) twoWaits = some s ∧ s.results 1 = [.einval, .ok]) ∧
      ¬ Meets {1} fun _ => 20 := by
  have hrun : ∃ s, Runs.run step (init 1 fun _ => 20) twoWaits = some s ∧
      s.results 1 = [.einval, .ok] := by
    have hlast : ((Runs.run step (init 1 fun _ => 20) twoWaits).map fun s => s.results 1) =
        some [.einval, .ok] := by
      decide +kernel
    exact Option.map_eq_some_iff.mp hlast
  refine ⟨hrun, fun h => ?_⟩
  obtain ⟨s, hs, hresults⟩ := hrun
  have hreach : Reaches {1} (fun _ => 20) s := ⟨twoWaits, by decide, hs⟩
  have hok := h.ok s hreach 1 (Finset.mem_singleton_self 1) .einval (by simp [hresults])
  cases hok

end RtThread.PthreadBarrier
