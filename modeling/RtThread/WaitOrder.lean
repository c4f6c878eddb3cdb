import Mathlib.Data.Fintype.Basic
import RtThread.Lib.Runs
import RtThread.Waiters

/-!
# The order of waiting threads

All IPC objects at once, seen from the lists of suspended threads: `ρ` names the lists,
and each list has the flag of its object. What the functions of the objects do to
the lists and to the priorities is a sequence of the steps given here. The mutex
functions change the priority of an owner by the same step as `rt_thread_control`.

`suspensions` and `arrival` number the threads in the order in which they are
suspended; no function reads them.
-/
namespace RtThread.WaitOrder

open Ipc

variable {ρ : Type}

structure State (ρ : Type) where
  waiters : Waiters ρ
  suspensions : Nat
  arrival : ThreadId → Nat

def init (priority : ThreadId → Nat) : State ρ := ⟨.init priority, 0, fun _ => 0⟩

inductive Op (ρ : Type) where
  /-- The running thread is suspended. -/
  | block (t : ThreadId) (r : ρ) (timeout : BitVec 32)
  /-- `_ipc_list_resume`. -/
  | wake (r : ρ)
  /-- `_ipc_list_resume_all`. -/
  | wakeAll (r : ρ)
  /-- `rt_thread_resume`. -/
  | resume (t : ThreadId)
  /-- `_thread_timeout`. -/
  | timeout (t : ThreadId)
  /-- `RT_THREAD_CTRL_CHANGE_PRIORITY`, also when a mutex boosts its owner or restores it. -/
  | changePriority (t : ThreadId) (priority : Nat)
  /-- The running thread sets its error number. -/
  | setError (t : ThreadId) (err : RtErr)
  deriving DecidableEq

section step

variable [DecidableEq ρ]

def step (flag : ρ → Flag) (s : State ρ) : Op ρ → Option (State ρ)
  | .block t r timeout =>
    if (s.waiters.thread t).suspended then none
    else (s.waiters.block (flag r) r t timeout).map fun w =>
      ⟨w, s.suspensions + 1, Function.update s.arrival t (s.suspensions + 1)⟩
  | .wake r => some { s with waiters := s.waiters.wake r }
  | .wakeAll r => (s.waiters.wakeAll r).map fun w => { s with waiters := w }
  | .resume t => some { s with waiters := s.waiters.resume t }
  | .timeout t =>
    if (s.waiters.thread t).timerActive then some { s with waiters := s.waiters.timeout t } else none
  | .changePriority t priority => some { s with waiters := s.waiters.changePriority t priority }
  | .setError t err =>
    if (s.waiters.thread t).suspended then none
    else some { s with waiters := s.waiters.setError t err }

end step

def priority (s : State ρ) (t : ThreadId) : Nat := (s.waiters.thread t).currentPriority

/-- `u` is more urgent than `v`, or as urgent and was suspended before it. -/
def Before (s : State ρ) (u v : ThreadId) : Prop :=
  priority s u < priority s v ∨ priority s u = priority s v ∧ s.arrival u < s.arrival v

/-- The lists of the objects with `RT_IPC_FLAG_PRIO` are sorted, and so a wake-up resumes one of
the most urgent threads. -/
structure Sorted (flag : ρ → Flag) (s : State ρ) : Prop where
  sorted : ∀ r, flag r = .prio → (s.waiters.list r).Pairwise (Before s)
  urgent : ∀ r, flag r = .prio → ∀ u us, s.waiters.list r = u :: us →
    ∀ v ∈ us, priority s u ≤ priority s v

/-- A change of the priority of a suspended thread does not move it past another thread of its
list: the threads before it are still to come before it, and those behind it behind it. -/
def KeepsPlace (flag : ρ → Flag) (s : State ρ) : Op ρ → Prop
  | .changePriority t priority =>
    ∀ r, flag r = .prio → t ∈ s.waiters.list r → ∀ u ∈ s.waiters.list r, u ≠ t →
      (Before s u t → Before { s with waiters := s.waiters.changePriority t priority } u t) ∧
      (Before s t u → Before { s with waiters := s.waiters.changePriority t priority } t u)
  | _ => True

instance (s : State ρ) (u v : ThreadId) : Decidable (Before s u v) :=
  inferInstanceAs (Decidable (_ ∨ _))

instance decidableKeepsPlace [Fintype ρ] (flag : ρ → Flag) (s : State ρ) :
    ∀ op, Decidable (KeepsPlace flag s op)
  | .changePriority t priority =>
    inferInstanceAs (Decidable (∀ r, flag r = .prio → t ∈ s.waiters.list r →
      ∀ u ∈ s.waiters.list r, u ≠ t →
        (Before s u t → Before { s with waiters := s.waiters.changePriority t priority } u t) ∧
        (Before s t u → Before { s with waiters := s.waiters.changePriority t priority } t u)))
  | .block _ _ _ | .wake _ | .wakeAll _ | .resume _ | .timeout _ | .setError _ _ => .isTrue trivial

structure Inv (flag : ρ → Flag) (s : State ρ) : Prop where
  ok : ∃ role, s.waiters.Ok role
  sorted : ∀ r, flag r = .prio → (s.waiters.list r).Pairwise (Before s)
  arrival : ∀ t, s.arrival t ≤ s.suspensions

section order

variable {flag : ρ → Flag} {s s' : State ρ} {t u v : ThreadId}

theorem Before.le (h : Before s u v) : priority s u ≤ priority s v := by
  cases h with
  | inl h => exact h.le
  | inr h => exact h.1.le

theorem Before.congr (h : Before s u v) (hp : ∀ x, x = u ∨ x = v → priority s' x = priority s x)
    (ha : ∀ x, x = u ∨ x = v → s'.arrival x = s.arrival x) : Before s' u v := by
  rw [Before, hp u (.inl rfl), hp v (.inr rfl), ha u (.inl rfl), ha v (.inr rfl)]
  exact h

theorem Before.ne (h : Before s u v) : u ≠ v := by
  rintro rfl
  cases h with
  | inl h => exact lt_irrefl _ h
  | inr h => exact lt_irrefl _ h.2

/-- The search of `_ipc_list_suspend` keeps the list sorted. -/
theorem insertPrio_sorted {R : ThreadId → ThreadId → Prop} {thread : Threads} {l : List ThreadId}
    (hl : l.Pairwise R) (hle : ∀ u ∈ l, ∀ v ∈ l, R u v →
      (thread u).currentPriority ≤ (thread v).currentPriority)
    (hbefore : ∀ u ∈ l, (thread t).currentPriority < (thread u).currentPriority → R t u)
    (hafter : ∀ u ∈ l, (thread u).currentPriority ≤ (thread t).currentPriority → R u t) :
    (insertPrio thread t l).Pairwise R := by
  induction l with
  | nil => exact List.pairwise_singleton R t
  | cons u us ih =>
    obtain ⟨hu, hus⟩ := List.pairwise_cons.mp hl
    have hmem : ∀ {x}, x ∈ us → x ∈ u :: us := List.mem_cons_of_mem u
    rw [insertPrio]
    split
    · rename_i hlt
      refine List.pairwise_cons.mpr ⟨fun x hx => hbefore x hx ?_, hl⟩
      obtain rfl | hx := List.mem_cons.mp hx
      · exact hlt
      · exact lt_of_lt_of_le hlt (hle u List.mem_cons_self x (hmem hx) (hu x hx))
    · rename_i hlt
      refine List.pairwise_cons.mpr ⟨fun x hx => ?_, ?_⟩
      · obtain rfl | hx := List.mem_cons.mp ((insertPrio_perm thread t us).mem_iff.mp hx)
        · exact hafter u List.mem_cons_self (by omega)
        · exact hu x hx
      · exact ih hus (fun x hx y hy => hle x (hmem hx) y (hmem hy)) (fun x hx => hbefore x (hmem hx))
          fun x hx => hafter x (hmem hx)

theorem Inv.toSorted (h : Inv flag s) : Sorted flag s := by
  refine ⟨h.sorted, fun r hr u us hl v hv => ?_⟩
  have hsorted := h.sorted r hr
  rw [hl, List.pairwise_cons] at hsorted
  exact (hsorted.1 v hv).le

/-- Threads leave the lists, and no priority changes. -/
theorem Inv.of_sublist {role : ThreadId → Option ρ} (h : Inv flag s) (hok : s'.waiters.Ok role)
    (hlist : ∀ r, (s'.waiters.list r).Sublist (s.waiters.list r))
    (hpriority : ∀ u, priority s' u = priority s u) (harrival : s'.arrival = s.arrival)
    (hcount : s'.suspensions = s.suspensions) : Inv flag s' := by
  refine ⟨⟨role, hok⟩, fun r hr => ?_, fun u => ?_⟩
  · refine ((h.sorted r hr).sublist (hlist r)).imp fun {u v} huv => ?_
    exact huv.congr (fun x _ => hpriority x) fun x _ => by rw [harrival]
  · rw [harrival, hcount]
    exact h.arrival u

/-- A change of priority that keeps the place of the thread. -/
theorem Inv.changePriority (h : Inv flag s) {p : Nat}
    (hkeep : KeepsPlace flag s (.changePriority t p)) :
    Inv flag { s with waiters := s.waiters.changePriority t p } := by
  obtain ⟨role, hok⟩ := h.ok
  refine ⟨⟨role, hok.changePriority t p⟩, fun r hr => ?_, h.arrival⟩
  refine (h.sorted r hr).imp_of_mem fun {u v} hu hv huv => ?_
  by_cases hut : u = t
  · subst hut
    exact (hkeep r hr hu v hv huv.ne.symm).2 huv
  · by_cases hvt : v = t
    · subst hvt
      exact (hkeep r hr hv u hu hut).1 huv
    · refine huv.congr (fun x hx => ?_) fun _ _ => rfl
      have hxt : x ≠ t := by
        rintro rfl
        obtain rfl | rfl := hx
        · exact hut rfl
        · exact hvt rfl
      simp [priority, Waiters.changePriority, hxt]

theorem inv_init (flag : ρ → Flag) (prio : ThreadId → Nat) : Inv flag (init prio) where
  ok := ⟨_, Waiters.ok_init prio⟩
  sorted := fun _ _ => List.Pairwise.nil
  arrival := fun _ => le_refl _

variable [DecidableEq ρ]

theorem Inv.block (h : Inv flag s) {r : ρ} {timeout : BitVec 32} {w : Waiters ρ}
    (ht : (s.waiters.thread t).suspended = false)
    (hb : s.waiters.block (flag r) r t timeout = some w) :
    Inv flag ⟨w, s.suspensions + 1, Function.update s.arrival t (s.suspensions + 1)⟩ := by
  obtain ⟨role, hok⟩ := h.ok
  have hnot := hok.not_mem ht
  have hok' := hok.block ht hb
  obtain ⟨thread, hthread, rfl⟩ := Option.map_eq_some_iff.mp hb
  have hprio : ∀ u, (thread u).currentPriority = (s.waiters.thread u).currentPriority := by
    intro u
    rw [startThreadTimer_suspend (by simpa using ht) hthread]
    simp
  refine ⟨⟨_, hok'⟩, fun r' hr' => ?_, fun u => ?_⟩
  · have hold : ∀ u ∈ s.waiters.list r', ∀ v ∈ s.waiters.list r', Before s u v →
        Before ⟨⟨thread, Function.update s.waiters.list r (insertWaiting
          (rtThreadSuspend (setError s.waiters.thread t .eok) t) (flag r) t (s.waiters.list r))⟩,
          s.suspensions + 1, Function.update s.arrival t (s.suspensions + 1)⟩ u v := by
      intro u hu v hv huv
      refine huv.congr (fun x _ => hprio x) fun x hx => Function.update_of_ne ?_ _ _
      rintro rfl
      obtain rfl | rfl := hx
      · exact hnot r' hu
      · exact hnot r' hv
    have hpw := (h.sorted r' hr').imp_of_mem fun {u v} hu hv huv => hold u hu v hv huv
    by_cases hrr : r' = r
    · subst hrr
      have hsus : ∀ u, (rtThreadSuspend (setError s.waiters.thread t .eok) t u).currentPriority =
          (s.waiters.thread u).currentPriority := by
        intro u
        rw [rtThreadSuspend]
        split <;> simp
      simp only [Function.update_self]
      rw [hr', insertWaiting]
      refine insertPrio_sorted hpw (fun u _ v _ huv => ?_) (fun u hu hlt => ?_) fun u hu hle => ?_
      · have hle := huv.le
        simp only [priority, hprio] at hle
        rw [hsus, hsus]
        exact hle
      · rw [hsus, hsus] at hlt
        refine .inl ?_
        simp only [priority, hprio]
        exact hlt
      · rw [hsus, hsus] at hle
        have hut : u ≠ t := by
          rintro rfl
          exact hnot r' hu
        have harr := h.arrival u
        simp only [Before, priority, hprio, Function.update_self, Function.update_of_ne hut]
        omega
    · simpa [hrr] using hpw
  · by_cases hut : u = t
    · subst hut
      simp
    · have := h.arrival u
      simp only [Function.update_of_ne hut]
      omega

theorem Inv.wake (h : Inv flag s) (r : ρ) : Inv flag { s with waiters := s.waiters.wake r } := by
  obtain ⟨role, hok⟩ := h.ok
  cases hl : s.waiters.list r with
  | nil =>
    rw [Waiters.wake_nil hl]
    exact h
  | cons u us =>
    have hwake := hok.wake r
    rw [hok.wake_cons hl] at hwake ⊢
    refine h.of_sublist hwake (fun r' => ?_) (fun v => by simp [priority]) rfl rfl
    by_cases hr : r' = r
    · subst hr
      simp [hl]
    · simp [hr]

theorem Inv.wakeAll (h : Inv flag s) {r : ρ} {w : Waiters ρ} (hw : s.waiters.wakeAll r = some w) :
    Inv flag { s with waiters := w } := by
  obtain ⟨role, hok⟩ := h.ok
  have hall := hok.wakeAll hw
  obtain ⟨thread, hthread, rfl⟩ := Option.map_eq_some_iff.mp hw
  refine h.of_sublist hall (fun r' => ?_) (fun v => ?_) rfl rfl
  · by_cases hr : r' = r
    · subst hr
      simp
    · simp [hr]
  · simp only [priority]
    rw [Waiters.ipcListResumeAll_eq hthread]
    split <;> rfl

theorem Inv.step {op : Op ρ} (h : Inv flag s) (hkeep : KeepsPlace flag s op)
    (hs : step flag s op = some s') : Inv flag s' := by
  obtain ⟨role, hok⟩ := h.ok
  cases op with
  | block t r timeout =>
    simp only [WaitOrder.step] at hs
    split at hs
    · cases hs
    · rename_i ht
      obtain ⟨w, hw, rfl⟩ := Option.map_eq_some_iff.mp hs
      exact h.block (by simpa using ht) hw
  | wake r =>
    cases hs
    exact h.wake r
  | wakeAll r =>
    obtain ⟨w, hw, rfl⟩ := Option.map_eq_some_iff.mp hs
    exact h.wakeAll hw
  | resume t =>
    cases hs
    refine h.of_sublist (hok.resume t) (fun r => ?_) (fun u => ?_) rfl rfl
    · rw [Waiters.resume]
      split
      · exact List.filter_sublist
      · exact List.Sublist.refl _
    · simp only [priority, Waiters.resume]
      split
      · simp
      · rfl
  | timeout t =>
    simp only [WaitOrder.step] at hs
    split at hs
    · cases hs
      refine h.of_sublist (hok.timeout t) (fun r => List.filter_sublist) (fun u => ?_) rfl rfl
      simp [priority, Waiters.timeout, threadTimeout]
    · cases hs
  | changePriority t p =>
    cases hs
    exact h.changePriority hkeep
  | setError t err =>
    simp only [WaitOrder.step] at hs
    split at hs
    · cases hs
    · rename_i ht
      cases hs
      refine h.of_sublist (hok.setError (by simpa using ht) err) (fun r => List.Sublist.refl _)
        (fun u => ?_) rfl rfl
      simp [priority, Waiters.setError]

end order

/-- Along every run in which no change of priority moves a suspended thread past another one of
its list, the lists with `RT_IPC_FLAG_PRIO` are sorted. -/
theorem wait_lists_sorted [DecidableEq ρ] (flag : ρ → Flag) (prio : ThreadId → Nat) (ops : List (Op ρ)) (s : State ρ)
    (hkeep : Runs.Along (step flag) (KeepsPlace flag) (init prio) ops)
    (hrun : Runs.run (step flag) (init prio) ops = some s) : Sorted flag s :=
  (Runs.run_invariant_along (fun _ _ _ h hk hs => Inv.step h hk hs) (inv_init flag prio) hkeep
    hrun).toSorted

/-- Two threads wait for a semaphore, and the second one is made the more urgent one. -/
def raiseSecond : List (Op Unit) :=
  [.block 1 () 0xffffffff, .block 2 () 0xffffffff, .changePriority 2 5]

theorem wait_lists_not_sorted :
    ∃ s, Runs.run (step fun _ => .prio) (init fun t => 9 + t) raiseSecond = some s ∧
      s.waiters.list () = [1, 2] ∧ priority s 2 < priority s 1 ∧ ¬ Sorted (fun _ => .prio) s := by
  have hlast : ((Runs.run (step fun _ => .prio) (init fun t => 9 + t) raiseSecond).map fun s =>
      (s.waiters.list (), priority s 1, priority s 2)) = some ([1, 2], 10, 5) := by decide +kernel
  obtain ⟨s, hrun, hs⟩ := Option.map_eq_some_iff.mp hlast
  simp only [Prod.mk.injEq] at hs
  obtain ⟨hlist, hone, htwo⟩ := hs
  refine ⟨s, hrun, hlist, by omega, fun h => ?_⟩
  have := h.urgent () rfl 1 [2] hlist 2 (by simp)
  omega

/-- The priority of the second of two waiting threads is changed, but stays the less urgent
one. -/
def lowerSecond : List (Op Unit) :=
  [.block 2 () 0xffffffff, .block 1 () 10, .changePriority 2 30, .setError 3 .eok]

theorem wait_lists_sorted_lowered :
    ∃ s, Runs.run (step fun _ => .prio) (init fun t => 9 + t) lowerSecond = some s ∧
      s.waiters.list () = [1, 2] ∧ Sorted (fun _ => .prio) s := by
  have hlast : ((Runs.run (step fun _ => .prio) (init fun t => 9 + t) lowerSecond).map fun s =>
      s.waiters.list ()) = some [1, 2] := by decide +kernel
  obtain ⟨s, hrun, hs⟩ := Option.map_eq_some_iff.mp hlast
  refine ⟨s, hrun, hs, wait_lists_sorted _ _ lowerSecond s ?_ hrun⟩
  decide +kernel

end RtThread.WaitOrder
