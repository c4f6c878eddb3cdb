import RtThread.MutexSafety

/-!
# Priority inheritance

A thread that waits passes its priority to the owner of the mutex, and the owner
gets back the priority it had when it took the mutex. The priority to return to
is kept with the mutex and not with the thread, so what a thread returns to
depends on the order in which it releases its mutexes.
-/
namespace RtThread.Mutex

open Ipc

/-- A step that changes no priority and no owner; a thread may stop waiting. -/
structure Quiet (s s' : State) : Prop where
  owner : ∀ m, (s'.mutex m).owner = (s.mutex m).owner
  original : ∀ m, (s'.mutex m).originalPriority = (s.mutex m).originalPriority
  waiting : ∀ m t, t ∈ (s'.mutex m).suspendThread → t ∈ (s.mutex m).suspendThread
  current : ∀ t, (s'.thread t).currentPriority = (s.thread t).currentPriority
  initial : ∀ t, (s'.thread t).initPriority = (s.thread t).initPriority

/-- The steps that give a mutex another owner, or a thread another priority. -/
inductive PriorityStep (s : State) : Op → State → Prop
  | quiet {op : Op} {s' : State} (h : Quiet s s') : PriorityStep s op s'
  | first {t : ThreadId} {m : MutexId} {time : Int} {s' : State}
      (ho : (s.mutex m).owner = none) (hl : (s.mutex m).suspendThread = [])
      (hx : ∃ v h, s'.mutex = Function.update s.mutex m
        ⟨v, some t, (s.thread t).currentPriority, h, []⟩)
      (hc : ∀ u, (s'.thread u).currentPriority = (s.thread u).currentPriority)
      (hi : ∀ u, (s'.thread u).initPriority = (s.thread u).initPriority) :
    PriorityStep s (.take t m time) s'
  | wait {t : ThreadId} {m : MutexId} {time : Int} {s' : State} (o : ThreadId)
      (ho : (s.mutex m).owner = some o) (hne : o ≠ t) (htime : time ≠ 0)
      (hsus : ∀ m', t ∉ (s.mutex m').suspendThread)
      (hw : ∀ m', (s'.mutex m').owner = (s.mutex m').owner)
      (hp : ∀ m', (s'.mutex m').originalPriority = (s.mutex m').originalPriority)
      (hl : ∀ m' u, u ∈ (s'.mutex m').suspendThread ↔
        (m' = m ∧ u = t) ∨ u ∈ (s.mutex m').suspendThread)
      (hc : ∀ u, (s'.thread u).currentPriority = if u = o then
        min (s.thread t).currentPriority (s.thread o).currentPriority
        else (s.thread u).currentPriority)
      (hi : ∀ u, (s'.thread u).initPriority = (s.thread u).initPriority) :
    PriorityStep s (.take t m time) s'
  | giveUp {t : ThreadId} {m : MutexId} {s' : State}
      (ho : (s.mutex m).owner = some t) (hh : (s.mutex m).hold = 1)
      (hsus : ∀ m', t ∉ (s.mutex m').suspendThread)
      (hx : ∀ m', m' ≠ m → s'.mutex m' = s.mutex m')
      (hnew : (s.mutex m).suspendThread = [] ∧ (s'.mutex m).owner = none ∧
          (s'.mutex m).suspendThread = [] ∨
        ∃ u us, (s.mutex m).suspendThread = u :: us ∧ u ≠ t ∧ (s'.mutex m).owner = some u ∧
          (s'.mutex m).originalPriority = (s.thread u).currentPriority ∧
          (s'.mutex m).suspendThread = us)
      (hc : ∀ u, (s'.thread u).currentPriority = if u = t then (s.mutex m).originalPriority
        else (s.thread u).currentPriority)
      (hi : ∀ u, (s'.thread u).initPriority = (s.thread u).initPriority) :
    PriorityStep s (.release t m) s'

variable {s s' : State} {o t : ThreadId} {m : MutexId} {r : Option RtErr} {op : Op}

theorem Active.not_waiting (h : Inv s) (ht : Active s t) (m : MutexId) :
    t ∉ (s.mutex m).suspendThread := by
  intro hmem
  have := ((h.waiting t m).mp hmem).1
  rw [ht.1] at this
  simp at this

theorem TakeResult.priority {time : Int} (h : Inv s) (ht : Active s t)
    (hres : TakeResult s t m time s' r) : PriorityStep s (.take t m time) s' := by
  cases hres with
  | again ho hh =>
    refine .quiet ⟨?_, ?_, ?_, ?_, ?_⟩
    · intro m'
      by_cases hm : m' = m <;> simp [entered, hm]
    · intro m'
      by_cases hm : m' = m <;> simp [entered, hm]
    · intro m' u
      by_cases hm : m' = m <;> simp [entered, hm]
    · simp [entered]
    · simp [entered]
  | full ho => exact .quiet ⟨fun _ => rfl, fun _ => rfl, fun _ _ h => h, by simp [entered],
      by simp [entered]⟩
  | first ho =>
    have hl : (s.mutex m).suspendThread = [] := by
      obtain ⟨-, -, -, hl⟩ | ⟨-, hn, -⟩ := h.consistent m
      · exact hl
      · exact absurd ho hn
    exact .first ho hl ⟨0, 1, by rw [← hl]; rfl⟩ (by simp [entered]) (by simp [entered])
  | busy o ho => exact .quiet ⟨fun _ => rfl, fun _ => rfl, fun _ _ h => h, by simp, by simp⟩
  | wait o ho hne htime =>
    refine .wait o ho hne htime (ht.not_waiting h) ?_ ?_ ?_ ?_ ?_
    · intro m'
      by_cases hm : m' = m <;> simp [entered, hm]
    · intro m'
      by_cases hm : m' = m <;> simp [entered, hm]
    · intro m' u
      by_cases hm : m' = m
      · simp [hm, (insertPrio_perm _ _ _).mem_iff, entered]
      · simp [hm, entered]
    · simp [waited, entered]
    · simp [waited, entered]

theorem ReleaseResult.priority (h : Inv s) (ht : Active s t) (hres : ReleaseResult s t m s' r) :
    PriorityStep s (.release t m) s' := by
  cases hres with
  | foreign ho => exact .quiet ⟨fun _ => rfl, fun _ => rfl, fun _ _ h => h, by simp, by simp⟩
  | nested ho hh =>
    refine .quiet ⟨?_, ?_, ?_, fun _ => rfl, fun _ => rfl⟩
    · intro m'
      by_cases hm : m' = m <;> simp [hm]
    · intro m'
      by_cases hm : m' = m <;> simp [hm]
    · intro m' u
      by_cases hm : m' = m <;> simp [hm]
  | free ho hh hl =>
    refine .giveUp ho hh (ht.not_waiting h) ?_ (.inl ⟨hl, by simp, by simp⟩) ?_ ?_
    · intro m' hm
      simp [hm, restored]
    · simp [restored]
    · simp [restored]
  | handOver u us ho hh hl hne =>
    refine .giveUp ho hh (ht.not_waiting h) ?_
      (.inr ⟨u, us, hl, hne, by simp, by simp, by simp⟩) ?_ ?_
    · intro m' hm
      simp [hm, resumed]
    · simp [restored, resumed]
    · simp [restored, resumed]

theorem step_priority (h : Inv s) (hstep : step s op = some s') :
    Inv s' ∧ PriorityStep s op s' := by
  obtain ⟨⟨s', r⟩, hcall, rfl⟩ := Option.map_eq_some_iff.mp hstep
  have hres := call_result h hcall
  refine ⟨hres.inv h, ?_⟩
  cases hres with
  | take ht hres | release ht hres => exact hres.priority h ht
  | takeReturn ht =>
    exact .quiet ⟨fun _ => rfl, fun _ => rfl, fun _ _ h => h, fun _ => rfl, fun _ => rfl⟩
  | timeout ht =>
    refine .quiet ⟨fun _ => rfl, fun _ => rfl, ?_, ?_, ?_⟩
    · intro m u hu
      exact List.mem_of_mem_filter hu
    · simp [timeout, threadTimeout]
    · simp [timeout, threadTimeout]

/-! ## The priority a thread returns to -/

def Owns (s : State) (t : ThreadId) (m : MutexId) : Prop := (s.mutex m).owner = some t

instance (s : State) (t : ThreadId) (m : MutexId) : Decidable (Owns s t m) :=
  inferInstanceAs (Decidable (_ = _))

/-- A thread that gives up a mutex and keeps others keeps one that it took at its own
priority. -/
def KeepsBase (s : State) : Op → Prop
  | .release t m => Owns s t m → (s.mutex m).hold = 1 → (∃ m', m' ≠ m ∧ Owns s t m') →
      ∃ m', m' ≠ m ∧ Owns s t m' ∧ (s.mutex m').originalPriority = (s.thread t).initPriority
  | _ => True

structure BaseInv (s : State) : Prop where
  inv : Inv s
  free : ∀ t, (∀ m, ¬ Owns s t m) → (s.thread t).currentPriority = (s.thread t).initPriority
  anchor : ∀ t m, Owns s t m →
    ∃ m', Owns s t m' ∧ (s.mutex m').originalPriority = (s.thread t).initPriority

theorem BaseInv.quiet (h : BaseInv s) (hinv : Inv s') (hq : Quiet s s') : BaseInv s' := by
  refine ⟨hinv, ?_, ?_⟩
  · intro t ht
    rw [hq.current, hq.initial]
    refine h.free t fun m hm => ht m ?_
    rw [Owns, hq.owner]
    exact hm
  · intro t m hm
    rw [Owns, hq.owner] at hm
    obtain ⟨m', hm', hp⟩ := h.anchor t m hm
    exact ⟨m', by rw [Owns, hq.owner]; exact hm', by rw [hq.original, hq.initial, hp]⟩

/-- A thread that becomes the owner of `m` with its current priority has a mutex it took at its
own priority. -/
theorem BaseInv.anchor_new (h : BaseInv s) (hm : ¬ Owns s t m) (hnew : Owns s' t m)
    (hp : (s'.mutex m).originalPriority = (s.thread t).currentPriority)
    (hx : ∀ m', m' ≠ m → s'.mutex m' = s.mutex m') :
    ∃ m', Owns s' t m' ∧ (s'.mutex m').originalPriority = (s.thread t).initPriority := by
  by_cases hown : ∃ m', Owns s t m'
  · obtain ⟨m₀, hm₀⟩ := hown
    obtain ⟨m', hm', hp'⟩ := h.anchor t m₀ hm₀
    have hne : m' ≠ m := fun heq => hm (heq ▸ hm')
    exact ⟨m', by rw [Owns, hx m' hne]; exact hm', by rw [hx m' hne, hp']⟩
  · exact ⟨m, hnew, by rw [hp, h.free t fun m' hm' => hown ⟨m', hm'⟩]⟩

theorem BaseInv.first (h : BaseInv s) (hinv : Inv s') (ho : (s.mutex m).owner = none)
    (hm : (s'.mutex m).owner = some t)
    (hp : (s'.mutex m).originalPriority = (s.thread t).currentPriority)
    (hx : ∀ m', m' ≠ m → s'.mutex m' = s.mutex m')
    (hc : ∀ u, (s'.thread u).currentPriority = (s.thread u).currentPriority)
    (hi : ∀ u, (s'.thread u).initPriority = (s.thread u).initPriority) : BaseInv s' := by
  have hold : ∀ u m', Owns s u m' → m' ≠ m := by
    rintro u m' hm' rfl
    rw [Owns, ho] at hm'
    simp at hm'
  refine ⟨hinv, ?_, ?_⟩
  · intro u hu
    rw [hc, hi]
    refine h.free u fun m' hm' => hu m' ?_
    rw [Owns, hx m' (hold u m' hm')]
    exact hm'
  · intro u m' hm'
    rw [hi]
    by_cases hut : u = t
    · subst hut
      exact h.anchor_new (fun hmm => hold u m hmm rfl) hm hp hx
    · have hne : m' ≠ m := by
        rintro rfl
        exact hut (Option.some.inj (hm'.symm.trans hm))
      rw [Owns, hx m' hne] at hm'
      obtain ⟨m₀, hm₀, hp₀⟩ := h.anchor u m' hm'
      have hne₀ := hold u m₀ hm₀
      exact ⟨m₀, by rw [Owns, hx m₀ hne₀]; exact hm₀, by rw [hx m₀ hne₀, hp₀]⟩

theorem BaseInv.giveUp (h : BaseInv s) (hinv : Inv s') (ho : Owns s t m)
    (hkeep : (∃ m', m' ≠ m ∧ Owns s t m') →
      ∃ m', m' ≠ m ∧ Owns s t m' ∧ (s.mutex m').originalPriority = (s.thread t).initPriority)
    (hx : ∀ m', m' ≠ m → s'.mutex m' = s.mutex m')
    (hnew : (s'.mutex m).owner = none ∨ ∃ u, u ≠ t ∧ (s'.mutex m).owner = some u ∧
      (s'.mutex m).originalPriority = (s.thread u).currentPriority)
    (hc : ∀ u, (s'.thread u).currentPriority = if u = t then (s.mutex m).originalPriority
      else (s.thread u).currentPriority)
    (hi : ∀ u, (s'.thread u).initPriority = (s.thread u).initPriority) : BaseInv s' := by
  have hm' : ∀ u, Owns s' u m → u ≠ t ∧
      (s'.mutex m).originalPriority = (s.thread u).currentPriority := by
    intro u hu
    obtain hn | ⟨v, hvt, hv, hp⟩ := hnew
    · rw [Owns, hn] at hu
      simp at hu
    · obtain rfl : v = u := Option.some.inj (hv.symm.trans hu)
      exact ⟨hvt, hp⟩
  have hother : ∀ u m', m' ≠ m → (Owns s' u m' ↔ Owns s u m') := by
    intro u m' hne
    rw [Owns, Owns, hx m' hne]
  refine ⟨hinv, ?_, ?_⟩
  · intro u hu
    rw [hc, hi]
    by_cases hut : u = t
    · subst hut
      rw [if_pos rfl]
      obtain ⟨m₀, hm₀, hp₀⟩ := h.anchor u m ho
      by_cases hne : m₀ = m
      · rw [← hne, hp₀]
      · exact absurd ((hother u m₀ hne).mpr hm₀) (hu m₀)
    · rw [if_neg hut]
      refine h.free u fun m₀ hm₀ => ?_
      have hne : m₀ ≠ m := by
        rintro rfl
        exact hut (Option.some.inj (hm₀.symm.trans ho))
      exact hu m₀ ((hother u m₀ hne).mpr hm₀)
  · intro u m₁ hm₁
    rw [hi]
    by_cases hut : u = t
    · subst hut
      have hne : m₁ ≠ m := by
        rintro rfl
        exact (hm' u hm₁).1 rfl
      obtain ⟨m₂, hne₂, hm₂, hp₂⟩ := hkeep ⟨m₁, hne, (hother u m₁ hne).mp hm₁⟩
      exact ⟨m₂, (hother u m₂ hne₂).mpr hm₂, by rw [hx m₂ hne₂, hp₂]⟩
    · have hold : ∀ m₀, Owns s u m₀ → m₀ ≠ m := by
        rintro m₀ hm₀ rfl
        exact hut (Option.some.inj (hm₀.symm.trans ho))
      by_cases hne : m₁ = m
      · subst hne
        exact h.anchor_new (fun hmm => hold _ hmm rfl) hm₁ (hm' u hm₁).2 hx
      · obtain ⟨m₂, hm₂, hp₂⟩ := h.anchor u m₁ ((hother u m₁ hne).mp hm₁)
        have hne₂ := hold m₂ hm₂
        exact ⟨m₂, (hother u m₂ hne₂).mpr hm₂, by rw [hx m₂ hne₂, hp₂]⟩

theorem BaseInv.wait {p : Nat} (h : BaseInv s) (hinv : Inv s') (ho : Owns s o m)
    (hw : ∀ m', (s'.mutex m').owner = (s.mutex m').owner)
    (hp : ∀ m', (s'.mutex m').originalPriority = (s.mutex m').originalPriority)
    (hc : ∀ u, (s'.thread u).currentPriority = if u = o then p else (s.thread u).currentPriority)
    (hi : ∀ u, (s'.thread u).initPriority = (s.thread u).initPriority) : BaseInv s' := by
  have hown : ∀ u m', Owns s' u m' ↔ Owns s u m' := by
    intro u m'
    rw [Owns, Owns, hw]
  refine ⟨hinv, ?_, ?_⟩
  · intro u hu
    have huo : u ≠ o := by
      rintro rfl
      exact hu m ((hown u m).mpr ho)
    rw [hc, hi, if_neg huo]
    exact h.free u fun m' hm' => hu m' ((hown u m').mpr hm')
  · intro u m' hm'
    obtain ⟨m₂, hm₂, hp₂⟩ := h.anchor u m' ((hown u m').mp hm')
    exact ⟨m₂, (hown u m₂).mpr hm₂, by rw [hp, hi, hp₂]⟩

theorem step_baseInv (h : BaseInv s) (hop : KeepsBase s op) (hstep : step s op = some s') :
    BaseInv s' := by
  obtain ⟨hinv, hprio⟩ := step_priority h.inv hstep
  cases hprio with
  | quiet hq => exact h.quiet hinv hq
  | @first t m _ _ ho hl hx hc hi =>
    obtain ⟨v, n, hx⟩ := hx
    refine h.first (t := t) hinv ho (by simp [hx]) (by simp [hx]) ?_ hc hi
    intro m' hm'
    simp [hx, hm']
  | wait o ho hne htime hsus hw hp hl hc hi => exact h.wait hinv ho hw hp hc hi
  | giveUp ho hh hsus hx hnew hc hi =>
    refine h.giveUp hinv ho (hop ho hh) hx ?_ hc hi
    obtain ⟨-, hn, -⟩ | ⟨u, us, -, hne, hu, hp, -⟩ := hnew
    · exact .inl hn
    · exact .inr ⟨u, hne, hu, hp⟩

theorem init_baseInv (priority : ThreadId → Nat) : BaseInv (init priority) := by
  refine ⟨init_inv priority, fun _ _ => rfl, ?_⟩
  intro t m hm
  simp [Owns, init, rtMutexInit] at hm

/-- Priority restoration: as long as every thread that gives up one of several mutexes keeps one
it took at its own priority, a thread without mutexes has its own priority. -/
theorem priority_restored (priority : ThreadId → Nat) (ops : List Op) (s : State)
    (hops : Runs.Along step KeepsBase (init priority) ops)
    (hrun : Runs.run step (init priority) ops = some s) (t : ThreadId)
    (ht : ∀ m, (s.mutex m).owner ≠ some t) :
    (s.thread t).currentPriority = (s.thread t).initPriority :=
  (Runs.run_invariant_along (fun _ _ _ h hop hstep => step_baseInv h hop hstep)
    (init_baseInv priority) hops hrun).free t ht

/-- A thread of priority 10 and one of priority 5. -/
def twoPriorities (t : ThreadId) : Nat := if t = 2 then 5 else 10

/-- Thread 1 takes its second mutex with the priority of thread 2, and gives up the first one
before it. -/
def crossedOps : List Op :=
  [.take 1 0 (-1), .take 2 0 (-1), .take 1 1 (-1), .release 1 0, .takeReturn 2, .release 1 1]

theorem two_or_more (m : Nat) : m = 0 ∨ m = 1 ∨ ∃ k, m = k + 2 := by
  match m with
  | 0 => exact .inl rfl
  | 1 => exact .inr (.inl rfl)
  | k + 2 => exact .inr (.inr ⟨k, rfl⟩)

theorem priority_not_restored : ∃ s, Runs.run step (init twoPriorities) crossedOps = some s ∧
    (∀ m, (s.mutex m).owner ≠ some 1) ∧
      (s.thread 1).currentPriority ≠ (s.thread 1).initPriority := by
  refine ⟨_, rfl, ?_, by decide⟩
  intro m
  obtain rfl | rfl | ⟨k, rfl⟩ := two_or_more m
  · decide
  · decide
  · exact (by decide : (none : Option ThreadId) ≠ some 1)

/-- Thread 1 gives up its mutexes in the reverse order. -/
def orderedOps : List Op :=
  [.take 1 0 (-1), .take 2 0 (-1), .take 1 1 (-1), .release 1 1, .release 1 0, .takeReturn 2]

theorem priority_restored_ordered : ∃ s, Runs.run step (init twoPriorities) orderedOps = some s ∧
    (∀ m, (s.mutex m).owner ≠ some 1) ∧
      (s.thread 1).currentPriority = (s.thread 1).initPriority := by
  have hops : Runs.Along step KeepsBase (init twoPriorities) orderedOps := by
    refine ⟨trivial, ?_⟩
    rintro s₁ ⟨⟩
    refine ⟨trivial, ?_⟩
    rintro s₂ ⟨⟩
    refine ⟨trivial, ?_⟩
    rintro s₃ ⟨⟩
    refine ⟨?_, ?_⟩
    · intro _ _ _
      exact ⟨0, by decide, by decide, by decide⟩
    rintro s₄ ⟨⟩
    refine ⟨?_, ?_⟩
    · rintro _ _ ⟨m', hne, hm'⟩
      obtain rfl | rfl | ⟨k, rfl⟩ := two_or_more m'
      · exact absurd rfl hne
      · exact absurd hm' (by decide)
      · have hnone : (none : Option ThreadId) = some 1 := hm'
        simp at hnone
    rintro s₅ ⟨⟩
    refine ⟨trivial, ?_⟩
    rintro s₆ ⟨⟩
    trivial
  have hfree : ∃ s, Runs.run step (init twoPriorities) orderedOps = some s ∧
      ∀ m, (s.mutex m).owner ≠ some 1 := by
    refine ⟨_, rfl, ?_⟩
    intro m
    obtain rfl | rfl | ⟨k, rfl⟩ := two_or_more m
    · decide
    · decide
    · exact (by decide : (none : Option ThreadId) ≠ some 1)
  obtain ⟨s, hrun, ht⟩ := hfree
  exact ⟨s, hrun, ht, priority_restored twoPriorities orderedOps s hops hrun 1 ht⟩

/-! ## The priorities of owner and waiting threads -/

/-- The priority a thread is given suits every thread that it keeps waiting and every thread it
waits for itself. A take: an owner that inherits the priority and waits for another mutex waits
for a thread that is as urgent. The last release: the priority the thread returns to is as
urgent as the threads that wait for its other mutexes, and the first waiting thread, the next
owner, is as urgent as those behind it. -/
def KeepsBound (s : State) : Op → Prop
  | .take t m time => ∀ o m' o', Owns s o m → o ≠ t → time ≠ 0 →
      (s.thread t).currentPriority < (s.thread o).currentPriority →
      o ∈ (s.mutex m').suspendThread → Owns s o' m' →
      (s.thread o').currentPriority ≤ (s.thread t).currentPriority
  | .release t m => Owns s t m → (s.mutex m).hold = 1 →
      (∀ m', m' ≠ m → Owns s t m' → ∀ w ∈ (s.mutex m').suspendThread,
        (s.mutex m).originalPriority ≤ (s.thread w).currentPriority) ∧
      (∀ u us, (s.mutex m).suspendThread = u :: us → ∀ w ∈ us,
        (s.thread u).currentPriority ≤ (s.thread w).currentPriority)
  | _ => True

/-- Every owner is at least as urgent as the threads that wait for its mutexes. -/
def Bounded (s : State) : Prop :=
  ∀ m t w, Owns s t m → w ∈ (s.mutex m).suspendThread →
    (s.thread t).currentPriority ≤ (s.thread w).currentPriority

theorem Bounded.quiet (h : Bounded s) (hq : Quiet s s') : Bounded s' := by
  intro m t w ht hw
  rw [Owns, hq.owner] at ht
  rw [hq.current, hq.current]
  exact h m t w ht (hq.waiting m w hw)

theorem Bounded.wait (h : Bounded s) (ho : Owns s o m) (hne : o ≠ t)
    (hkeep : ∀ m' o', (s.thread t).currentPriority < (s.thread o).currentPriority →
      o ∈ (s.mutex m').suspendThread → Owns s o' m' →
      (s.thread o').currentPriority ≤ (s.thread t).currentPriority)
    (hw : ∀ m', (s'.mutex m').owner = (s.mutex m').owner)
    (hl : ∀ m' u, u ∈ (s'.mutex m').suspendThread ↔
      (m' = m ∧ u = t) ∨ u ∈ (s.mutex m').suspendThread)
    (hc : ∀ u, (s'.thread u).currentPriority = if u = o then
      min (s.thread t).currentPriority (s.thread o).currentPriority
      else (s.thread u).currentPriority) : Bounded s' := by
  have hle : ∀ u, (s'.thread u).currentPriority ≤ (s.thread u).currentPriority := by
    intro u
    rw [hc]
    split
    · rename_i huo
      rw [huo]
      exact Nat.min_le_right _ _
    · exact Nat.le_refl _
  intro m' v w hv hmem
  rw [Owns, hw] at hv
  obtain ⟨rfl, rfl⟩ | hmem := (hl m' w).mp hmem
  · obtain rfl : o = v := Option.some.inj (ho.symm.trans hv)
    rw [hc, hc, if_pos rfl, if_neg hne.symm]
    exact Nat.min_le_left _ _
  · have hvw := h m' v w hv hmem
    have hlev := hle v
    rw [hc w]
    by_cases hwo : w = o
    · subst hwo
      rw [if_pos rfl]
      by_cases hlt : (s.thread t).currentPriority < (s.thread w).currentPriority
      · have := hkeep m' v hlt hmem hv
        omega
      · omega
    · rw [if_neg hwo]
      omega

theorem Bounded.giveUp (h : Bounded s) (hsus : ∀ m', t ∉ (s.mutex m').suspendThread)
    (hother : ∀ m', m' ≠ m → Owns s t m' → ∀ w ∈ (s.mutex m').suspendThread,
      (s.mutex m).originalPriority ≤ (s.thread w).currentPriority)
    (hfirst : ∀ u us, (s.mutex m).suspendThread = u :: us → ∀ w ∈ us,
      (s.thread u).currentPriority ≤ (s.thread w).currentPriority)
    (hx : ∀ m', m' ≠ m → s'.mutex m' = s.mutex m')
    (hnew : (s.mutex m).suspendThread = [] ∧ (s'.mutex m).owner = none ∧
        (s'.mutex m).suspendThread = [] ∨
      ∃ u us, (s.mutex m).suspendThread = u :: us ∧ u ≠ t ∧ (s'.mutex m).owner = some u ∧
        (s'.mutex m).originalPriority = (s.thread u).currentPriority ∧
        (s'.mutex m).suspendThread = us)
    (hc : ∀ u, (s'.thread u).currentPriority = if u = t then (s.mutex m).originalPriority
      else (s.thread u).currentPriority) : Bounded s' := by
  intro m' v w hv hmem
  by_cases hm : m' = m
  · subst hm
    obtain ⟨-, hn, -⟩ | ⟨u, us, hl, hut, hu, -, hus⟩ := hnew
    · rw [Owns, hn] at hv
      simp at hv
    · obtain rfl : u = v := Option.some.inj (hu.symm.trans hv)
      rw [hus] at hmem
      have hwt : w ≠ t := by
        rintro rfl
        exact hsus m' (hl ▸ List.mem_cons_of_mem u hmem)
      rw [hc, hc, if_neg hut, if_neg hwt]
      exact hfirst u us hl w hmem
  · rw [Owns, hx m' hm] at hv
    rw [hx m' hm] at hmem
    have hwt : w ≠ t := by
      rintro rfl
      exact hsus m' hmem
    rw [hc, hc, if_neg hwt]
    split
    · rename_i hvt
      subst hvt
      exact hother m' hm hv w hmem
    · exact h m' v w hv hmem

theorem step_bounded (hinv : Inv s) (h : Bounded s) (hop : KeepsBound s op)
    (hstep : step s op = some s') : Inv s' ∧ Bounded s' := by
  obtain ⟨hinv', hprio⟩ := step_priority hinv hstep
  refine ⟨hinv', ?_⟩
  cases hprio with
  | quiet hq => exact h.quiet hq
  | @first t m _ _ ho hl hx hc hi =>
    obtain ⟨v, n, hx⟩ := hx
    intro m' u w hu hw
    rw [hc, hc]
    by_cases hm : m' = m
    · simp [hx, hm] at hw
    · simp only [Owns, hx, Function.update_of_ne hm] at hu hw
      exact h m' u w hu hw
  | wait o ho hne htime hsus hw hp hl hc hi =>
    refine h.wait ho hne ?_ hw hl hc
    intro m' o' hlt hmem ho'
    exact hop o m' o' ho hne htime hlt hmem ho'
  | giveUp ho hh hsus hx hnew hc hi =>
    obtain ⟨hother, hfirst⟩ := hop ho hh
    exact h.giveUp hsus hother hfirst hx hnew hc

/-- The inheritance bound: in every run whose takes and releases give no thread a priority that
does not suit the threads it is linked with, owners are as urgent as those that wait. -/
theorem priority_bounded (priority : ThreadId → Nat) (ops : List Op) (s : State)
    (hops : Runs.Along step KeepsBound (init priority) ops)
    (hrun : Runs.run step (init priority) ops = some s) (m : MutexId) (t w : ThreadId)
    (ht : (s.mutex m).owner = some t) (hw : w ∈ (s.mutex m).suspendThread) :
    (s.thread t).currentPriority ≤ (s.thread w).currentPriority := by
  have hinit : Inv (init priority) ∧ Bounded (init priority) := by
    refine ⟨init_inv priority, ?_⟩
    intro m t w ht
    simp [Owns, init, rtMutexInit] at ht
  have hinv := Runs.run_invariant_along
    (fun _ _ _ h hop hstep => step_bounded h.1 h.2 hop hstep) hinit hops hrun
  exact hinv.2 m t w ht hw

/-- Thread 1 gives up a mutex while thread 2 waits for its other one. -/
def droppedOps : List Op := [.take 1 0 (-1), .take 1 1 (-1), .take 2 1 (-1), .release 1 0]

theorem priority_not_bounded : ∃ s, Runs.run step (init twoPriorities) droppedOps = some s ∧
    (s.mutex 1).owner = some 1 ∧ 2 ∈ (s.mutex 1).suspendThread ∧
      ¬ (s.thread 1).currentPriority ≤ (s.thread 2).currentPriority :=
  ⟨_, rfl, by decide, by decide, by decide⟩

/-- Thread 1 inherits the priority of thread 2, and hands the mutex over to it. -/
def inheritedOps : List Op := [.take 1 0 (-1), .take 2 0 (-1), .take 3 0 (-1), .release 1 0]

theorem priority_bounded_inherited :
    ∃ s, Runs.run step (init twoPriorities) inheritedOps = some s ∧
      (s.mutex 0).owner = some 2 ∧ 3 ∈ (s.mutex 0).suspendThread ∧
      (s.thread 2).currentPriority ≤ (s.thread 3).currentPriority := by
  have hops : Runs.Along step KeepsBound (init twoPriorities) inheritedOps := by
    refine ⟨?_, ?_⟩
    · intro o m' o' ho
      simp [Owns, init, rtMutexInit] at ho
    rintro s₁ ⟨⟩
    refine ⟨?_, ?_⟩
    · intro o m' o' _ _ _ _ hmem
      obtain rfl | rfl | ⟨k, rfl⟩ := two_or_more m' <;>
        exact absurd (show o ∈ [] from hmem) List.not_mem_nil
    rintro s₂ ⟨⟩
    refine ⟨?_, ?_⟩
    · intro o m' o' ho _ _ hlt
      obtain rfl : 1 = o := Option.some.inj ho
      exact absurd hlt (by decide)
    rintro s₃ ⟨⟩
    refine ⟨?_, ?_⟩
    · intro _ _
      constructor
      · intro m' hne hm'
        obtain rfl | rfl | ⟨k, rfl⟩ := two_or_more m'
        · exact absurd rfl hne
        · exact absurd hm' (by decide)
        · have hnone : (none : Option ThreadId) = some 1 := hm'
          simp at hnone
      · intro u us hl w hw
        obtain ⟨rfl, rfl⟩ := List.cons.inj (show [2, 3] = u :: us from hl)
        obtain rfl := List.mem_singleton.mp hw
        decide
    rintro s₄ ⟨⟩
    trivial
  exact ⟨_, rfl, by decide, by decide,
    priority_bounded twoPriorities inheritedOps _ hops rfl 0 2 3 (by decide) (by decide)⟩

end RtThread.Mutex
