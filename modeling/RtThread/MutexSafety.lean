import RtThread.Mutex

/-!
# Mutex safety

Ownership, the hold count and the wait list agree in every reachable state. The
invariant follows a thread through `rt_mutex_take`: while it is suspended it is
in the wait list of the mutex, and when it comes back without an error it owns
the mutex.
-/
namespace RtThread.Mutex

open Ipc

/-- A mutex is free, or it is owned and counted. -/
def Consistent (x : RtMutex) : Prop :=
  x.value = 1 ∧ x.owner = none ∧ x.hold = 0 ∧ x.suspendThread = [] ∨
    x.value = 0 ∧ x.owner ≠ none ∧ 1 ≤ x.hold ∧ x.hold ≤ holdMax

structure Inv (s : State) : Prop where
  consistent : ∀ m, Consistent (s.mutex m)
  waiting : ∀ t m, t ∈ (s.mutex m).suspendThread ↔
    (s.thread t).suspended = true ∧ s.taking t = some m
  taking : ∀ t, (s.thread t).suspended = true → s.taking t ≠ none
  nodup : ∀ m, (s.mutex m).suspendThread.Nodup
  foreign : ∀ t m, t ∈ (s.mutex m).suspendThread → (s.mutex m).owner ≠ some t
  clean : ∀ t, (s.thread t).suspended = true → (s.thread t).error = .eok
  granted : ∀ t m, s.taking t = some m → (s.thread t).suspended = false →
    (s.thread t).error = .eok → (s.mutex m).owner = some t
  timer : ∀ t, (s.thread t).timerActive = true → (s.thread t).suspended = true

theorem init_inv (priority : ThreadId → Nat) : Inv (init priority) := by
  constructor <;> simp [init, started, rtMutexInit, Consistent]

/-! ## What the functions do -/

/-- The inherited priority is the smaller of the two. -/
theorem boost_eq (thread : Threads) (t o : ThreadId) :
    (if (thread t).currentPriority < (thread o).currentPriority then
        changePriority thread o (thread t).currentPriority else thread) =
      changePriority thread o (min (thread t).currentPriority (thread o).currentPriority) := by
  split
  · rw [Nat.min_eq_left (by omega)]
  · rw [Nat.min_eq_right (by omega), changePriority, Function.update_eq_self]

theorem restore_eq (thread : Threads) (t : ThreadId) (priority : Nat) :
    (if priority ≠ (thread t).currentPriority then changePriority thread t priority else thread) =
      changePriority thread t priority := by
  split
  · rfl
  · rename_i h
    rw [not_not.mp h, changePriority, Function.update_eq_self]

/-- The thread `t` is suspended for the mutex `m` of `o`. -/
def waited (s : State) (t : ThreadId) (m : MutexId) (time : Int) (o : ThreadId) : State :=
  let thread := setWaiting (changePriority s.thread o
    (min (s.thread t).currentPriority (s.thread o).currentPriority)) t true (decide (0 < time))
  { thread := thread
    mutex := Function.update s.mutex m
      { s.mutex m with suspendThread := insertPrio thread t (s.mutex m).suspendThread }
    taking := Function.update s.taking t (some m) }

variable {s s' : State} {t : ThreadId} {m m' : MutexId} {time : Int} {r : Option RtErr} {op : Op}

theorem waitForOwner_spec (ht : (s.thread t).suspended = false)
    (h : waitForOwner s t m time = some s') :
    ∃ o, (s.mutex m).owner = some o ∧ s' = waited s t m time o := by
  unfold waitForOwner at h
  cases ho : (s.mutex m).owner with
  | none => simp [ho] at h
  | some o =>
    simp only [ho, boost_eq, Option.bind_eq_bind, Option.bind_some, ipcListSuspend] at h
    obtain ⟨thread, htimer, hs'⟩ := Option.bind_eq_some_iff.mp h
    have hthread := startThreadTimer_suspend (by simpa using ht) htimer
    cases hs'
    have hlist : insertWaiting (rtThreadSuspend (changePriority s.thread o
        (min (s.thread t).currentPriority (s.thread o).currentPriority)) t) .prio t
        (s.mutex m).suspendThread = insertPrio thread t (s.mutex m).suspendThread := by
      refine insertPrio_congr (fun u => ?_) t _
      rw [hthread, rtThreadSuspend]
      split <;> simp
    refine ⟨o, rfl, ?_⟩
    simp only [waited, ← hthread, hlist, ho]

/-- The state in which `rt_mutex_take` tests the mutex. -/
def entered (s : State) (t : ThreadId) : State :=
  { s with thread := setError s.thread t .eok }

/-- Every way `rt_mutex_take` can go. -/
inductive TakeResult (s : State) (t : ThreadId) (m : MutexId) (time : Int) :
    State → Option RtErr → Prop
  | again (ho : (s.mutex m).owner = some t) (hh : (s.mutex m).hold < holdMax) :
    TakeResult s t m time
      (setMutex (entered s t) m { s.mutex m with hold := (s.mutex m).hold + 1 }) (some .eok)
  | full (ho : (s.mutex m).owner = some t) :
    TakeResult s t m time (entered s t) (some .efull)
  | first (ho : (s.mutex m).owner = none) :
    TakeResult s t m time
      (setMutex (entered s t) m
        { s.mutex m with
          value := 0
          owner := some t
          originalPriority := (s.thread t).currentPriority
          hold := 1 }) (some .eok)
  | busy (o : ThreadId) (ho : (s.mutex m).owner = some o) :
    TakeResult s t m time { s with thread := setError s.thread t .etimeout } (some .etimeout)
  | wait (o : ThreadId) (ho : (s.mutex m).owner = some o) (hne : o ≠ t) (htime : time ≠ 0) :
    TakeResult s t m time (waited (entered s t) t m time o) none

theorem rtMutexTake_result (hc : Consistent (s.mutex m)) (ht : (s.thread t).suspended = false)
    (h : rtMutexTake s t m time = some (s', r)) : TakeResult s t m time s' r := by
  unfold rtMutexTake at h
  dsimp only at h
  by_cases ho : (s.mutex m).owner = some t
  · rw [if_pos ho] at h
    by_cases hh : (s.mutex m).hold < holdMax
    · rw [if_pos hh] at h
      cases h
      exact .again ho hh
    · rw [if_neg hh] at h
      cases h
      exact .full ho
  · rw [if_neg ho] at h
    obtain ⟨hv, hn, hh, -⟩ | ⟨hv, hn, -⟩ := hc
    · have hsub : wsub 16 1 1 = 0 := by decide
      rw [hv, hh, if_pos (by decide), if_pos (by decide), hsub] at h
      cases h
      have := @TakeResult.first s t m time hn
      simpa [entered, setMutex] using this
    · rw [hv, if_neg (by decide)] at h
      obtain ⟨o, ho'⟩ := Option.ne_none_iff_exists'.mp hn
      by_cases htime : time = 0
      · rw [if_pos htime] at h
        cases h
        have := @TakeResult.busy s t m time o ho'
        simpa [setError] using this
      · rw [if_neg htime] at h
        obtain ⟨s₁, hw, hs'⟩ := Option.map_eq_some_iff.mp h
        cases hs'
        obtain ⟨o', ho₂, rfl⟩ := waitForOwner_spec (by simpa using ht) hw
        obtain rfl : o = o' := Option.some.inj (ho'.symm.trans ho₂)
        exact .wait o ho' (fun heq => ho (heq ▸ ho')) htime

/-- The thread `t` has the priority back it took the mutex with. -/
def restored (s : State) (t : ThreadId) (m : MutexId) : State :=
  { s with thread := changePriority s.thread t (s.mutex m).originalPriority }

/-- The same, and `u` runs again. -/
def resumed (s : State) (t : ThreadId) (m : MutexId) (u : ThreadId) : State :=
  { s with thread := setWaiting (restored s t m).thread u false false }

/-- Every way `rt_mutex_release` can go. -/
inductive ReleaseResult (s : State) (t : ThreadId) (m : MutexId) : State → Option RtErr → Prop
  | foreign (ho : (s.mutex m).owner ≠ some t) :
    ReleaseResult s t m { s with thread := setError s.thread t .error } (some .error)
  | nested (ho : (s.mutex m).owner = some t) (hh : 2 ≤ (s.mutex m).hold) :
    ReleaseResult s t m (setMutex s m { s.mutex m with hold := (s.mutex m).hold - 1 }) (some .eok)
  | free (ho : (s.mutex m).owner = some t) (hh : (s.mutex m).hold = 1)
      (hl : (s.mutex m).suspendThread = []) :
    ReleaseResult s t m
      (setMutex (restored s t m) m ⟨1, none, 0xff, 0, []⟩) (some .eok)
  | handOver (u : ThreadId) (us : List ThreadId) (ho : (s.mutex m).owner = some t)
      (hh : (s.mutex m).hold = 1) (hl : (s.mutex m).suspendThread = u :: us) (hne : u ≠ t) :
    ReleaseResult s t m
      (setMutex (resumed s t m u) m ⟨0, some u, (s.thread u).currentPriority, 1, us⟩) (some .eok)

theorem rtMutexRelease_result (h : Inv s) (t : ThreadId) (m : MutexId) :
    ReleaseResult s t m (rtMutexRelease s t m).1 (rtMutexRelease s t m).2 := by
  rw [rtMutexRelease]
  dsimp only
  by_cases ho : (s.mutex m).owner = some t
  · rw [if_neg (by simpa using ho)]
    obtain ⟨-, hn, -⟩ | ⟨hv, -, hpos, hle⟩ := h.consistent m
    · simp [hn] at ho
    · have hsub : wsub 8 (s.mutex m).hold 1 = (s.mutex m).hold - 1 :=
        wsub_eq hpos (by rw [holdMax] at hle; omega)
      rw [hsub]
      by_cases hone : (s.mutex m).hold = 1
      · rw [if_pos (by omega), giveUp]
        rw [restore_eq]
        cases hl : (s.mutex m).suspendThread with
        | nil =>
          have := ReleaseResult.free ho hone hl
          simpa [hone, hv, valueMax, restored, setMutex] using this
        | cons u us =>
          have hu : u ∈ (s.mutex m).suspendThread := hl ▸ List.mem_cons_self
          have hne : u ≠ t := fun heq => h.foreign u m hu (heq ▸ ho)
          have hsus := ((h.waiting u m).mp hu).1
          have := ReleaseResult.handOver u us ho hone hl hne
          simpa [hone, hv, holdMax, ipcListResume, hsus, hne, restored, resumed, setMutex] using this
      · rw [if_neg (by omega)]
        exact .nested ho (by omega)
  · rw [if_pos (by simpa using ho)]
    exact .foreign ho

/-! ## The invariant -/

@[simp] theorem setMutex_mutex (s : State) (m m' : MutexId) (x : RtMutex) :
    (setMutex s m x).mutex m' = if m' = m then x else s.mutex m' := by
  by_cases h : m' = m <;> simp [setMutex, h]

@[simp] theorem setMutex_thread (s : State) (m : MutexId) (x : RtMutex) :
    (setMutex s m x).thread = s.thread := rfl

@[simp] theorem setMutex_taking (s : State) (m : MutexId) (x : RtMutex) :
    (setMutex s m x).taking = s.taking := rfl

/-- A step of a running thread `t` that moves no waiting thread. -/
theorem Inv.of_active (h : Inv s) (ht : Active s t)
    (hsus : ∀ u, (s'.thread u).suspended = (s.thread u).suspended)
    (herr : ∀ u, u ≠ t → (s'.thread u).error = (s.thread u).error)
    (htimer : ∀ u, (s'.thread u).timerActive = (s.thread u).timerActive)
    (htaking : s'.taking = s.taking) (hcons : ∀ m, Consistent (s'.mutex m))
    (hlist : ∀ m, (s'.mutex m).suspendThread = (s.mutex m).suspendThread)
    (howner : ∀ m u, u ≠ t → ((s'.mutex m).owner = some u ↔ (s.mutex m).owner = some u)) :
    Inv s' := by
  have hne : ∀ u, (s.thread u).suspended = true → u ≠ t := by
    rintro u hu rfl
    rw [ht.1] at hu
    simp at hu
  constructor
  · exact hcons
  · intro u m
    rw [hlist, hsus, htaking]
    exact h.waiting u m
  · intro u
    rw [hsus, htaking]
    exact h.taking u
  · intro m
    rw [hlist]
    exact h.nodup m
  · intro u m hu
    rw [hlist] at hu
    rw [ne_eq, howner m u (hne u ((h.waiting u m).mp hu).1)]
    exact h.foreign u m hu
  · intro u hu
    rw [hsus] at hu
    rw [herr u (hne u hu)]
    exact h.clean u hu
  · intro u m hu hs he
    rw [htaking] at hu
    have hut : u ≠ t := by
      rintro rfl
      rw [ht.2] at hu
      simp at hu
    rw [hsus] at hs
    rw [herr u hut] at he
    exact (howner m u hut).mpr (h.granted u m hu hs he)
  · intro u hu
    rw [htimer] at hu
    rw [hsus]
    exact h.timer u hu

/-- The step changes the mutex `m` only, whose list stays. -/
theorem consistent_setMutex (h : Inv s) {x : RtMutex} (hx : Consistent x) (thread : Threads)
    (m' : MutexId) : Consistent ((setMutex { s with thread := thread } m x).mutex m') := by
  rw [setMutex_mutex]
  split
  · exact hx
  · exact h.consistent m'

@[simp] theorem waited_mutex (s : State) (t : ThreadId) (m : MutexId) (time : Int) (o : ThreadId)
    (m' : MutexId) : (waited s t m time o).mutex m' = if m' = m then { s.mutex m with
      suspendThread := insertPrio (waited s t m time o).thread t (s.mutex m).suspendThread }
      else s.mutex m' := by
  by_cases h : m' = m <;> simp [waited, h]

/-- A thread starts to wait. -/
theorem waited_inv {o : ThreadId} (h : Inv s) (ht : Active s t) (ho : (s.mutex m).owner = some o)
    (hne : o ≠ t) : Inv (waited (entered s t) t m time o) := by
  have hout : ∀ m', t ∉ (s.mutex m').suspendThread := by
    intro m' hmem
    have := ((h.waiting t m').mp hmem).1
    rw [ht.1] at this
    simp at this
  have hsus : ∀ u, ((waited (entered s t) t m time o).thread u).suspended =
      if u = t then true else (s.thread u).suspended := by
    intro u
    by_cases hu : u = t <;> simp [waited, entered, hu]
  have herr : ∀ u, ((waited (entered s t) t m time o).thread u).error =
      if u = t then .eok else (s.thread u).error := by
    intro u
    simp [waited, entered]
  have htaking : ∀ u, (waited (entered s t) t m time o).taking u =
      if u = t then some m else s.taking u := by
    intro u
    by_cases hu : u = t <;> simp [waited, entered, hu]
  have hmem : ∀ u m', u ∈ ((waited (entered s t) t m time o).mutex m').suspendThread ↔
      (m' = m ∧ u = t) ∨ u ∈ (s.mutex m').suspendThread := by
    intro u m'
    by_cases hm : m' = m
    · simp [hm, (insertPrio_perm _ _ _).mem_iff, entered]
    · simp [hm, entered]
  have howner : ∀ m', ((waited (entered s t) t m time o).mutex m').owner = (s.mutex m').owner := by
    intro m'
    by_cases hm : m' = m <;> simp [hm, entered]
  constructor
  · intro m'
    rw [waited_mutex]
    by_cases hm : m' = m
    · rw [if_pos hm]
      obtain ⟨-, hn, -⟩ | hown := h.consistent m
      · simp [hn] at ho
      · exact .inr hown
    · rw [if_neg hm]
      exact h.consistent m'
  · intro u m'
    rw [hmem, hsus, htaking]
    by_cases hu : u = t
    · simp [hu, hout m', eq_comm]
    · simp [hu, h.waiting u m']
  · intro u
    rw [hsus, htaking]
    by_cases hu : u = t
    · simp [hu]
    · simpa [hu] using h.taking u
  · intro m'
    rw [waited_mutex]
    by_cases hm : m' = m
    · rw [if_pos hm]
      exact (insertPrio_perm _ _ _).nodup_iff.mpr (List.nodup_cons.mpr ⟨hout m, h.nodup m⟩)
    · rw [if_neg hm]
      exact h.nodup m'
  · intro u m' hu
    rw [howner]
    obtain ⟨rfl, rfl⟩ | hu := (hmem u m').mp hu
    · rw [ho]
      exact fun heq => hne (Option.some.inj heq)
    · exact h.foreign u m' hu
  · intro u hu
    rw [hsus] at hu
    rw [herr]
    by_cases hut : u = t
    · simp [hut]
    · rw [if_neg hut] at hu ⊢
      exact h.clean u hu
  · intro u m' hu hs he
    rw [hsus] at hs
    by_cases hut : u = t
    · simp [hut] at hs
    · rw [if_neg hut] at hs
      rw [htaking, if_neg hut] at hu
      rw [herr, if_neg hut] at he
      rw [howner]
      exact h.granted u m' hu hs he
  · intro u hu
    rw [hsus]
    by_cases hut : u = t
    · simp [hut]
    · rw [if_neg hut]
      exact h.timer u (by simpa [waited, entered, hut] using hu)

/-- The first waiting thread becomes the owner. -/
theorem handOver_inv {u : ThreadId} {us : List ThreadId} (h : Inv s) (ht : Active s t)
    (ho : (s.mutex m).owner = some t) (hl : (s.mutex m).suspendThread = u :: us) :
    Inv (setMutex (resumed s t m u) m ⟨0, some u, (s.thread u).currentPriority, 1, us⟩) := by
  have hu : u ∈ (s.mutex m).suspendThread := hl ▸ List.mem_cons_self
  obtain ⟨husus, hutaking⟩ := (h.waiting u m).mp hu
  have hnd := h.nodup m
  rw [hl, List.nodup_cons] at hnd
  have hmem : ∀ v m', v ∈ (if m' = m then us else (s.mutex m').suspendThread) ↔
      v ∈ (s.mutex m').suspendThread ∧ v ≠ u := by
    intro v m'
    by_cases hm : m' = m
    · rw [if_pos hm, hm, hl, List.mem_cons]
      constructor
      · exact fun hv => ⟨.inr hv, fun heq => hnd.1 (heq ▸ hv)⟩
      · exact fun hv => hv.1.resolve_left hv.2
    · rw [if_neg hm]
      refine ⟨fun hv => ⟨hv, ?_⟩, fun hv => hv.1⟩
      rintro rfl
      have := ((h.waiting v m').mp hv).2
      rw [hutaking] at this
      exact hm (Option.some.inj this).symm
  have hlist : ∀ m', ((setMutex (resumed s t m u) m
      ⟨0, some u, (s.thread u).currentPriority, 1, us⟩).mutex m').suspendThread =
        if m' = m then us else (s.mutex m').suspendThread := by
    intro m'
    by_cases hm : m' = m <;> simp [resumed, hm]
  have hsus : ∀ v, ((resumed s t m u).thread v).suspended =
      if v = u then false else (s.thread v).suspended := by
    simp [resumed, restored]
  have herr : ∀ v, ((resumed s t m u).thread v).error = (s.thread v).error := by
    simp [resumed, restored]
  constructor
  · refine consistent_setMutex h (.inr ⟨rfl, by simp, by simp, by simp [holdMax]⟩) _
  · intro v m'
    rw [hlist, hmem, setMutex_thread, hsus, h.waiting]
    by_cases hv : v = u <;> simp [hv, resumed]
  · intro v
    rw [setMutex_thread, hsus]
    by_cases hv : v = u
    · simp [hv]
    · rw [if_neg hv]
      exact h.taking v
  · intro m'
    rw [hlist]
    split
    · exact hnd.2
    · exact h.nodup m'
  · intro v m' hv
    rw [hlist, hmem] at hv
    rw [setMutex_mutex]
    by_cases hm : m' = m
    · simpa [hm] using hv.2.symm
    · rw [if_neg hm]
      exact h.foreign v m' hv.1
  · intro v hv
    rw [setMutex_thread] at hv ⊢
    rw [hsus] at hv
    rw [herr]
    by_cases hvu : v = u
    · simp [hvu] at hv
    · rw [if_neg hvu] at hv
      exact h.clean v hv
  · intro v m' hv hs he
    rw [setMutex_thread] at hs he
    rw [setMutex_mutex]
    rw [hsus] at hs
    rw [herr] at he
    change s.taking v = some m' at hv
    by_cases hvu : v = u
    · rw [hvu, hutaking] at hv
      rw [if_pos (Option.some.inj hv).symm, hvu]
    · rw [if_neg hvu] at hs
      have hown := h.granted v m' hv hs he
      by_cases hm : m' = m
      · rw [hm, ho] at hown
        rw [← Option.some.inj hown, ht.2] at hv
        simp at hv
      · rw [if_neg hm]
        exact hown
  · intro v hv
    rw [setMutex_thread] at hv ⊢
    rw [hsus]
    by_cases hvu : v = u
    · simp [resumed, hvu] at hv
    · rw [if_neg hvu]
      exact h.timer v (by simpa [resumed, restored, hvu] using hv)

theorem TakeResult.inv (h : Inv s) (ht : Active s t) (hres : TakeResult s t m time s' r) :
    Inv s' := by
  have hcons := h.consistent m
  cases hres with
  | again ho hh =>
    refine h.of_active ht ?_ ?_ ?_ rfl (consistent_setMutex h ?_ _) ?_ ?_
    · simp [entered]
    · intro u hu
      simp [entered, hu]
    · simp [entered]
    · obtain ⟨-, hn, -⟩ | ⟨hv, hn, hpos, -⟩ := hcons
      · simp [hn] at ho
      · exact .inr ⟨hv, hn, by simp, hh⟩
    · intro m'
      by_cases hm : m' = m <;> simp [entered, hm]
    · intro m' u hu
      by_cases hm : m' = m <;> simp [entered, hm]
  | full ho =>
    refine h.of_active ht ?_ ?_ ?_ rfl h.consistent (fun _ => rfl) (fun _ _ _ => Iff.rfl)
    · simp [entered]
    · intro u hu
      simp [entered, hu]
    · simp [entered]
  | first ho =>
    refine h.of_active ht ?_ ?_ ?_ rfl (consistent_setMutex h ?_ _) ?_ ?_
    · simp [entered]
    · intro u hu
      simp [entered, hu]
    · simp [entered]
    · exact .inr ⟨rfl, by simp, by simp, by simp [holdMax]⟩
    · intro m'
      by_cases hm : m' = m <;> simp [entered, hm]
    · intro m' u hu
      by_cases hm : m' = m
      · simp [hm, ho, hu.symm]
      · simp [entered, hm]
  | busy o ho =>
    refine h.of_active ht ?_ ?_ ?_ rfl h.consistent (fun _ => rfl) (fun _ _ _ => Iff.rfl)
    · simp
    · intro u hu
      simp [hu]
    · simp
  | wait o ho hne htime => exact waited_inv h ht ho hne

theorem ReleaseResult.inv (h : Inv s) (ht : Active s t) (hres : ReleaseResult s t m s' r) :
    Inv s' := by
  have hcons := h.consistent m
  cases hres with
  | foreign ho =>
    refine h.of_active ht ?_ ?_ ?_ rfl h.consistent (fun _ => rfl) (fun _ _ _ => Iff.rfl)
    · simp
    · intro u hu
      simp [hu]
    · simp
  | nested ho hh =>
    refine h.of_active ht (fun _ => rfl) (fun _ _ => rfl) (fun _ => rfl) rfl
      (consistent_setMutex h ?_ s.thread) ?_ ?_
    · obtain ⟨-, hn, -⟩ | ⟨hv, hn, -, hle⟩ := hcons
      · simp [hn] at ho
      · exact .inr ⟨hv, hn, by simp only; omega, by simp only; omega⟩
    · intro m'
      by_cases hm : m' = m <;> simp [hm]
    · intro m' u hu
      by_cases hm : m' = m <;> simp [hm]
  | free ho hh hl =>
    refine h.of_active ht ?_ ?_ ?_ rfl (consistent_setMutex h ?_ _) ?_ ?_
    · simp [restored]
    · simp [restored]
    · simp [restored]
    · exact .inl ⟨rfl, rfl, rfl, rfl⟩
    · intro m'
      by_cases hm : m' = m <;> simp [restored, hm, hl]
    · intro m' u hu
      by_cases hm : m' = m
      · simp [hm, ho, hu.symm]
      · simp [restored, hm]
  | handOver u us ho hh hl hne => exact handOver_inv h ht ho hl

theorem takeReturn_inv (h : Inv s) (ht : (s.thread t).suspended = false) :
    Inv (takeReturn s t).1 := by
  have htaking : ∀ u, (takeReturn s t).1.taking u = if u = t then none else s.taking u := by
    intro u
    by_cases hu : u = t <;> simp [takeReturn, hu]
  refine ⟨h.consistent, ?_, ?_, h.nodup, h.foreign, h.clean, ?_, h.timer⟩
  · intro u m
    rw [htaking]
    by_cases hu : u = t
    · have := h.waiting t m
      simp [hu, takeReturn, ht, this]
    · rw [if_neg hu]
      exact h.waiting u m
  · intro u hsus
    rw [htaking]
    have hu : u ≠ t := by
      rintro rfl
      simp [takeReturn, ht] at hsus
    rw [if_neg hu]
    exact h.taking u hsus
  · intro u m hu
    rw [htaking] at hu
    by_cases hut : u = t
    · simp [hut] at hu
    · rw [if_neg hut] at hu
      exact h.granted u m hu

theorem timeout_inv (h : Inv s) (t : ThreadId) : Inv (timeout s t) := by
  have hmem : ∀ u m, u ∈ ((timeout s t).mutex m).suspendThread ↔
      u ∈ (s.mutex m).suspendThread ∧ u ≠ t := by
    intro u m
    simp [timeout]
  have hsus : ∀ u, ((timeout s t).thread u).suspended =
      if u = t then false else (s.thread u).suspended := by
    simp [timeout, threadTimeout]
  have herr : ∀ u, ((timeout s t).thread u).error =
      if u = t then .etimeout else (s.thread u).error := by
    simp [timeout, threadTimeout]
  constructor
  · intro m
    obtain ⟨hv, hn, hh, hl⟩ | hown := h.consistent m
    · exact .inl ⟨hv, hn, hh, by simp [timeout, hl]⟩
    · exact .inr hown
  · intro u m
    rw [hmem, hsus, h.waiting]
    by_cases hu : u = t <;> simp [hu, timeout]
  · intro u hu
    rw [hsus] at hu
    by_cases hut : u = t
    · simp [hut] at hu
    · rw [if_neg hut] at hu
      exact h.taking u hu
  · intro m
    exact (h.nodup m).filter _
  · intro u m hu
    exact h.foreign u m ((hmem u m).mp hu).1
  · intro u hu
    rw [hsus] at hu
    rw [herr]
    by_cases hut : u = t
    · simp [hut] at hu
    · rw [if_neg hut] at hu ⊢
      exact h.clean u hu
  · intro u m hu hs he
    rw [herr] at he
    by_cases hut : u = t
    · simp [hut] at he
    · rw [hsus, if_neg hut] at hs
      rw [if_neg hut] at he
      exact h.granted u m hu hs he
  · intro u hu
    rw [hsus]
    by_cases hut : u = t
    · simp [hut, timeout, threadTimeout] at hu
    · rw [if_neg hut]
      exact h.timer u (by simpa [timeout, threadTimeout, hut] using hu)

/-- Every step of a run. -/
inductive CallResult (s : State) : Op → State → Option RtErr → Prop
  | take {t : ThreadId} {m : MutexId} {time : Int} {s' : State} {r : Option RtErr}
      (ht : Active s t) (hres : TakeResult s t m time s' r) : CallResult s (.take t m time) s' r
  | takeReturn {t : ThreadId} (ht : (s.thread t).suspended = false) :
    CallResult s (.takeReturn t) (takeReturn s t).1 (some (s.thread t).error)
  | release {t : ThreadId} {m : MutexId} {s' : State} {r : Option RtErr}
      (ht : Active s t) (hres : ReleaseResult s t m s' r) : CallResult s (.release t m) s' r
  | timeout {t : ThreadId} (ht : (s.thread t).timerActive = true) :
    CallResult s (.timeout t) (timeout s t) none

theorem call_result (h : Inv s) (hcall : call s op = some (s', r)) : CallResult s op s' r := by
  cases op with
  | take t m time =>
    rw [call] at hcall
    split at hcall
    · rename_i ht
      exact .take ht (rtMutexTake_result (h.consistent m) ht.1 hcall)
    · simp at hcall
  | takeReturn t =>
    rw [call] at hcall
    split at hcall
    · rename_i ht
      cases hcall
      exact .takeReturn ht.1
    · simp at hcall
  | release t m =>
    rw [call] at hcall
    split at hcall
    · rename_i ht
      have hres := rtMutexRelease_result h t m
      rw [Option.some.inj hcall] at hres
      exact .release ht hres
    · simp at hcall
  | timeout t =>
    rw [call] at hcall
    split at hcall
    · rename_i ht
      cases hcall
      exact .timeout ht
    · simp at hcall

theorem CallResult.inv (h : Inv s) (hres : CallResult s op s' r) : Inv s' := by
  cases hres with
  | take ht hres => exact hres.inv h ht
  | takeReturn ht => exact takeReturn_inv h ht
  | release ht hres => exact hres.inv h ht
  | timeout ht => exact timeout_inv h _

/-! ## The history of an ownership -/

/-- A call of `rt_mutex_take` or `rt_mutex_release` that succeeded. -/
inductive Event where
  | took (t : ThreadId)
  | released (t : ThreadId)
  deriving DecidableEq

def Event.thread : Event → ThreadId
  | took t => t
  | released t => t

/-- The calls on `m` that succeed in a step, the last one first. The take of a waiting thread
succeeds when the mutex is handed over to it. -/
def succeeded (m : MutexId) (s' : State) : Op → Option RtErr → List Event
  | .take t m' _, some .eok => if m' = m then [.took t] else []
  | .release t m', some .eok =>
    if m' = m then
      ((s'.mutex m).owner.toList.filter (· ≠ t)).map .took ++ [.released t]
    else []
  | _, _ => []

structure Traced where
  state : State
  /-- The calls on a mutex that succeeded since its owner became the owner. -/
  since : MutexId → List Event

def record (x : Traced) (s' : State) (op : Op) (r : Option RtErr) (m : MutexId) : List Event :=
  if (s'.mutex m).owner = (x.state.mutex m).owner then succeeded m s' op r ++ x.since m
  else (succeeded m s' op r).filter (fun e => (s'.mutex m).owner = some e.thread)

def tracedStep (x : Traced) (op : Op) : Option Traced :=
  (call x.state op).map fun (s', r) => ⟨s', record x s' op r⟩

def tracedInit (priority : ThreadId → Nat) : Traced := ⟨init priority, fun _ => []⟩

/-- The successful takes of `t` minus its successful releases, as an equation. -/
def Counted (hold : Nat) (es : List Event) (t : ThreadId) : Prop :=
  hold + es.count (.released t) = es.count (.took t)

structure TracedInv (x : Traced) : Prop where
  inv : Inv x.state
  counted : ∀ m t, (x.state.mutex m).owner = some t → Counted (x.state.mutex m).hold (x.since m) t

variable {x : Traced}

/-- No call on `m` succeeds in the step, and the mutex keeps its owner and its count. -/
theorem counted_frame (h : TracedInv x) (ho : (s'.mutex m).owner = (x.state.mutex m).owner)
    (hh : (s'.mutex m).hold = (x.state.mutex m).hold) (hs : succeeded m s' op r = [])
    (ht : (s'.mutex m).owner = some t) : Counted (s'.mutex m).hold (record x s' op r m) t := by
  rw [record, if_pos ho, hs, List.nil_append, hh]
  exact h.counted m t (ho ▸ ht)

theorem TakeResult.other (hres : TakeResult s t m time s' r) (hm : m' ≠ m) :
    s'.mutex m' = s.mutex m' := by
  cases hres <;> simp [hm, entered]

theorem ReleaseResult.other (hres : ReleaseResult s t m s' r) (hm : m' ≠ m) :
    s'.mutex m' = s.mutex m' := by
  cases hres <;> simp [hm, restored, resumed]

theorem TakeResult.counted (h : TracedInv x) (hres : TakeResult x.state t m time s' r)
    (m' : MutexId) (u : ThreadId) (hu : (s'.mutex m').owner = some u) :
    Counted (s'.mutex m').hold (record x s' (.take t m time) r m') u := by
  by_cases hm : m' = m
  · subst hm
    cases hres with
    | again ho hh =>
      have hc := h.counted m' t ho
      simp only [setMutex_mutex, ↓reduceIte, ho, Option.some.injEq] at hu
      subst hu
      simp only [Counted, record, setMutex_mutex, ↓reduceIte, succeeded, List.cons_append,
        List.nil_append, List.count_cons_self] at hc ⊢
      rw [List.count_cons_of_ne (by simp)]
      omega
    | full | busy =>
      refine counted_frame h ?_ ?_ ?_ hu <;> rfl
    | first ho =>
      simp only [setMutex_mutex, ↓reduceIte, Option.some.injEq] at hu
      subst hu
      simp [Counted, record, ho, succeeded, Event.thread]
    | wait o ho hne htime =>
      refine counted_frame h ?_ ?_ rfl hu <;> simp [entered]
  · have heq := hres.other hm
    have hne : m ≠ m' := fun he => hm he.symm
    refine counted_frame h (by rw [heq]) (by rw [heq]) ?_ hu
    unfold succeeded
    split <;> simp_all

theorem ReleaseResult.counted (h : TracedInv x) (hres : ReleaseResult x.state t m s' r)
    (m' : MutexId) (u : ThreadId) (hu : (s'.mutex m').owner = some u) :
    Counted (s'.mutex m').hold (record x s' (.release t m) r m') u := by
  by_cases hm : m' = m
  · subst hm
    cases hres with
    | foreign ho =>
      refine counted_frame h ?_ ?_ ?_ hu <;> rfl
    | nested ho hh =>
      have hc := h.counted m' t ho
      simp only [setMutex_mutex, ↓reduceIte, ho, Option.some.injEq] at hu
      subst hu
      simp only [Counted, record, setMutex_mutex, ↓reduceIte, succeeded, ho] at hc ⊢
      simp only [Option.toList_some, ne_eq, decide_not, List.filter_cons, decide_true,
        Bool.not_true, Bool.false_eq_true, ↓reduceIte, List.filter_nil, List.map_nil,
        List.nil_append, List.cons_append, List.count_cons_self]
      rw [List.count_cons_of_ne (by simp)]
      omega
    | free ho hh hl =>
      simp at hu
    | handOver v us ho hh hl hne =>
      simp only [setMutex_mutex, ↓reduceIte, Option.some.injEq] at hu
      subst hu
      simp [Counted, record, ho, succeeded, Event.thread, hne]
  · have heq := hres.other hm
    have hne : m ≠ m' := fun he => hm he.symm
    refine counted_frame h (by rw [heq]) (by rw [heq]) ?_ hu
    unfold succeeded
    split <;> simp_all

theorem tracedStep_inv {x' : Traced} (h : TracedInv x) (hstep : tracedStep x op = some x') :
    TracedInv x' := by
  obtain ⟨⟨s', r⟩, hcall, rfl⟩ := Option.map_eq_some_iff.mp hstep
  have hres := call_result h.inv hcall
  refine ⟨hres.inv h.inv, ?_⟩
  cases hres with
  | take ht hres => exact hres.counted h
  | takeReturn | timeout =>
    intro m u hu
    refine counted_frame h ?_ ?_ ?_ hu <;> rfl
  | release ht hres => exact hres.counted h

/-! ## Safety -/

/-- What holds of a mutex between two steps. -/
structure Safe (x : Traced) (m : MutexId) : Prop where
  value_one : (x.state.mutex m).value = 1 ↔ (x.state.mutex m).owner = none
  hold_zero : (x.state.mutex m).owner = none ↔ (x.state.mutex m).hold = 0
  value_zero : (x.state.mutex m).value = 0 ↔ ∃ t, (x.state.mutex m).owner = some t ∧
    Counted (x.state.mutex m).hold (x.since m) t
  waiting : (x.state.mutex m).suspendThread ≠ [] → (x.state.mutex m).owner ≠ none

/-- What a step may do: a take that returns `RT_EOK` leaves its thread the owner, and a step in
which no call succeeds leaves the mutexes as they are. -/
structure Sound (s : State) (op : Op) (s' : State) (r : Option RtErr) : Prop where
  taken : ∀ t m time, op = .take t m time → r = some .eok → (s'.mutex m).owner = some t
  returned : ∀ t m, op = .takeReturn t → s.taking t = some m → r = some .eok →
    (s'.mutex m).owner = some t
  failed : r ≠ some .eok → ∀ m, (s'.mutex m).value = (s.mutex m).value ∧
    (s'.mutex m).owner = (s.mutex m).owner ∧ (s'.mutex m).hold = (s.mutex m).hold

theorem TracedInv.safe (h : TracedInv x) (m : MutexId) : Safe x m := by
  have hcount := h.counted m
  obtain ⟨hv, hn, hh, hl⟩ | ⟨hv, hn, hpos, hle⟩ := h.inv.consistent m
  · constructor <;> simp [hv, hn, hh, hl]
  · obtain ⟨t, ht⟩ := Option.ne_none_iff_exists'.mp hn
    constructor
    · simp [hv, hn]
    · simp only [hn, false_iff]
      omega
    · simp [hv, ht, hcount t ht]
    · exact fun _ => hn

theorem TakeResult.sound (hres : TakeResult s t m time s' r) : Sound s (.take t m time) s' r := by
  refine ⟨?_, by simp, ?_⟩
  · intro t' m' time' hop hr
    obtain ⟨rfl, rfl, rfl⟩ := Op.take.inj hop
    cases hres <;> simp_all
  · intro hr m'
    cases hres with
    | again ho hh => simp at hr
    | full | busy => exact ⟨rfl, rfl, rfl⟩
    | first ho => simp at hr
    | wait o ho hne htime => by_cases hm : m' = m <;> simp [entered, hm]

theorem ReleaseResult.sound (hres : ReleaseResult s t m s' r) : Sound s (.release t m) s' r := by
  refine ⟨by simp, by simp, ?_⟩
  intro hr m'
  cases hres with
  | foreign ho => exact ⟨rfl, rfl, rfl⟩
  | nested | free | handOver => simp at hr

theorem CallResult.sound (h : Inv s) (hres : CallResult s op s' r) : Sound s op s' r := by
  cases hres with
  | take ht hres => exact hres.sound
  | takeReturn ht =>
    refine ⟨by simp, ?_, fun _ _ => ⟨rfl, rfl, rfl⟩⟩
    intro t' m hop hm herr
    obtain rfl := Op.takeReturn.inj hop
    exact h.granted _ m hm ht (Option.some.inj herr)
  | release ht hres => exact hres.sound
  | timeout ht => exact ⟨by simp, by simp, fun _ _ => ⟨rfl, rfl, rfl⟩⟩

/-- A call of `rt_mutex_take` with an acceptable time follows no null pointer. -/
theorem Inv.take_some (h : Inv s) (ht : Active s t) (m : MutexId) (htime : time < rtTickMaxHalf) :
    ∃ res, call s (.take t m time) = some res := by
  rw [call, if_pos ht, rtMutexTake]
  dsimp only
  split
  · split <;> exact ⟨_, rfl⟩
  · split
    · split <;> exact ⟨_, rfl⟩
    · split
      · exact ⟨_, rfl⟩
      · obtain ⟨o, ho⟩ : ∃ o, (s.mutex m).owner = some o := by
          rename_i hv _
          obtain ⟨hone, -⟩ | ⟨-, hn, -⟩ := h.consistent m
          · omega
          · exact Option.ne_none_iff_exists'.mp hn
        simp only [waitForOwner, ho, Option.bind_eq_bind, Option.bind_some, startThreadTimer, htime,
          ↓reduceIte]
        split <;> exact ⟨_, rfl⟩

/-- Mutex safety: in every reachable state the fields of every mutex agree with each other and
with the history of its owner, and every step from there is sound. -/
theorem mutex_safe (priority : ThreadId → Nat) (ops : List Op) (x : Traced)
    (hrun : Runs.run tracedStep (tracedInit priority) ops = some x) :
    (∀ m, Safe x m) ∧
      (∀ op s' r, call x.state op = some (s', r) → Sound x.state op s' r) ∧
      ∀ (t : ThreadId) (m : MutexId) (time : Int), Active x.state t → time < rtTickMaxHalf →
        ∃ res, call x.state (.take t m time) = some res := by
  have hinit : TracedInv (tracedInit priority) := by
    refine ⟨init_inv priority, ?_⟩
    intro m t ht
    simp [tracedInit, init, rtMutexInit] at ht
  have h : TracedInv x := Runs.run_invariant (fun _ _ _ => tracedStep_inv) hinit hrun
  refine ⟨h.safe, ?_, ?_⟩
  · intro op s' r hcall
    exact (call_result h.inv hcall).sound h.inv
  · intro t m time ht htime
    exact h.inv.take_some ht m htime

/-- Four threads and two mutexes: nested takes, a refused and a timed-out take, a release by
another thread and a hand-over. -/
def fourOps : List Op :=
  [.take 1 0 (-1), .take 1 0 10, .take 2 0 0, .take 2 0 5, .take 3 0 (-1),
    .release 4 0, .timeout 2,
    .takeReturn 2, .release 2 0, .release 1 0, .release 1 0, .takeReturn 3, .take 3 1 7]

theorem mutex_safe_four : ∃ x, Runs.run tracedStep (tracedInit (fun t => 10 * t)) fourOps = some x ∧
    (∀ m, Safe x m) ∧
      (∀ op s' r, call x.state op = some (s', r) → Sound x.state op s' r) ∧
      ∀ (t : ThreadId) (m : MutexId) (time : Int), Active x.state t → time < rtTickMaxHalf →
        ∃ res, call x.state (.take t m time) = some res := by
  have hsome : (Runs.run tracedStep (tracedInit (fun t => 10 * t)) fourOps).isSome = true := by
    decide +kernel
  obtain ⟨x, hx⟩ := Option.isSome_iff_exists.mp hsome
  exact ⟨x, hx, mutex_safe (fun t => 10 * t) fourOps x hx⟩

end RtThread.Mutex
