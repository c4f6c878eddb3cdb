import RtThread.Cond

/-!
# The scheduler lock in the pthread layer

`pthread_once`, `pthread_detach`, `pthread_cond_broadcast`, `pthread_cleanup_push` and
`pthread_cleanup_pop` with the calls of `rt_enter_critical` and `rt_exit_critical` that they make.
A callback is given by the calls that it makes. Without `RT_USING_MUTEX` and
`RT_USING_HEAP_ISR` the heap is used in a critical section of its own.
-/
namespace RtThread.PthreadNesting

open Cond (Errno)

/-! ## The lock -/

inductive LockOp where
  | enter | exit
  deriving DecidableEq

/-- The value of `rt_int16_t`. -/
def int16 (x : Int) : Int := x.bmod (2 ^ 16)

/-- The greatest value of `rt_scheduler_lock_nest`. -/
def nestMax : Int := 32767

/-- `rt_enter_critical` and `rt_exit_critical` on `rt_scheduler_lock_nest`. -/
def LockOp.apply : LockOp → Int → Int
  | enter, nest => int16 (nest + 1)
  | exit, nest => if int16 (nest - 1) ≤ 0 then 0 else int16 (nest - 1)

def after (nest : Int) (ops : List LockOp) : Int := ops.foldl (fun nest op => op.apply nest) nest

/-- The depth is `d` again at the end, and it is never less before. -/
structure Kept (d : Int) (ops : List LockOp) : Prop where
  back : after d ops = d
  floor : ∀ pre, pre <+: ops → d ≤ after d pre

/-! ## The functions -/

structure Config where
  /-- Neither `RT_USING_HEAP_ISR` nor `RT_USING_MUTEX` is configured. -/
  heapCritical : Bool

/-- `rt_malloc` or `rt_free`, a number of times. -/
def heapCalls (c : Config) (n : Nat) : List LockOp :=
  (List.replicate n (if c.heapCritical then [.enter, .exit] else [])).flatten

/-- `pthread_once`, with the new value of `once_control`. -/
def pthreadOnce (onceControl : Bool) (initRoutine : List LockOp) : Bool × List LockOp :=
  if !onceControl then (true, [.enter] ++ [.exit] ++ initRoutine ++ [.exit])
  else (onceControl, [.enter] ++ [.exit])

/-- The fields of `struct _pthread_data` that `pthread_detach` uses: `tls` are the destructors of
the keys that have data, `joinableSem` is the value of the semaphore, which a joinable thread has, and
`ownStack` says that `attr.stackaddr` is a null pointer. -/
structure PthreadData where
  detached : Bool
  closed : Bool
  joinableSem : Option Nat
  joinable : detached = false → joinableSem.isSome
  tls : Option (List (List LockOp))
  ownStack : Bool

/-- `_pthread_data_destroy`. -/
def pthreadDataDestroy (c : Config) (ptd : PthreadData) : List LockOp :=
  (match ptd.tls with
    | some destructors => destructors.flatten ++ heapCalls c 1
    | none => []) ++
  (if ptd.joinableSem.isSome then heapCalls c 1 else []) ++
  (if ptd.ownStack then heapCalls c 1 else []) ++ heapCalls c 1 ++ heapCalls c 1

/-- `rt_sem_delete` of `joinable_sem`, if there is one. -/
def deleteSem (c : Config) (ptd : PthreadData) : List LockOp :=
  if ptd.joinableSem.isSome then heapCalls c 1 else []

def PthreadData.detach (ptd : PthreadData) : PthreadData :=
  { ptd with detached := true, joinableSem := none, joinable := fun h => Bool.noConfusion h }

/-- `pthread_detach`, with the data that are left; `none` is no data. -/
def pthreadDetach (c : Config) : Option PthreadData → Errno × Option PthreadData × List LockOp
  | none => (.einval, none, [.exit])
  | some ptd =>
    if ptd.detached then (.einval, some ptd, [.enter] ++ [.exit])
    else if ptd.closed then
      if ptd.joinableSem.getD 0 = 0 then
        (.ok, some ptd.detach, [.enter] ++ deleteSem c ptd ++ [.exit])
      else (.ok, none, [.enter] ++ pthreadDataDestroy c ptd ++ [.exit])
    else (.ok, some ptd.detach, [.enter] ++ deleteSem c ptd ++ [.exit])

/-- The loop of `pthread_cond_broadcast`, by the results of `rt_sem_trytake`. -/
def broadcastLoop : List RtErr → Option Errno
  | [] => none
  | .etimeout :: takes => broadcastLoop takes
  | .eok :: _ => some .ok
  | _ :: _ => some .einval

/-- A condition variable: whether it is initialised, and the results of `rt_sem_trytake`. -/
structure CondVar where
  initialised : Bool
  takes : List RtErr

/-- `pthread_cond_broadcast`; `rt_object_init` has a critical section. -/
def pthreadCondBroadcast : Option CondVar → Option (Errno × List LockOp)
  | none => some (.einval, [])
  | some cond =>
    (broadcastLoop cond.takes).map fun ret =>
      (ret, (if cond.initialised then [] else [.enter, .exit]) ++ [.enter] ++ [.exit])

/-- `pthread_cleanup_push`, with the handlers that are left. -/
def pthreadCleanupPush (c : Config) (self alloc : Bool) (routine : List LockOp)
    (cleanup : List (List LockOp)) : List (List LockOp) × List LockOp :=
  if !self then (cleanup, [])
  else if alloc then (routine :: cleanup, heapCalls c 1 ++ [.enter] ++ [.exit])
  else (cleanup, heapCalls c 1)

/-- `pthread_cleanup_pop`, with the handlers that are left. -/
def pthreadCleanupPop (c : Config) (self execute : Bool) :
    List (List LockOp) → List (List LockOp) × List LockOp
  | cleanup =>
    if !self then (cleanup, [])
    else if execute then
      match cleanup with
      | [] => ([], [.enter] ++ [.exit])
      | handler :: rest => (rest, [.enter] ++ [.exit] ++ handler ++ heapCalls c 1)
    else (cleanup, [])

/-! ## All of the calls -/

inductive Call where
  | once (onceControl : Bool) (initRoutine : List LockOp)
  | detach (ptd : Option PthreadData)
  | condBroadcast (cond : Option CondVar)
  | cleanupPush (self alloc : Bool) (routine : List LockOp) (cleanup : List (List LockOp))
  | cleanupPop (self execute : Bool) (cleanup : List (List LockOp))

/-- What a call does to the lock, if it returns. -/
def Call.lockOps (c : Config) : Call → Option (List LockOp)
  | once onceControl initRoutine => some (pthreadOnce onceControl initRoutine).2
  | detach ptd => some (pthreadDetach c ptd).2.2
  | condBroadcast cond => (pthreadCondBroadcast cond).map Prod.snd
  | cleanupPush self alloc routine cleanup =>
    some (pthreadCleanupPush c self alloc routine cleanup).2
  | cleanupPop self execute cleanup => some (pthreadCleanupPop c self execute cleanup).2

/-- The callbacks are balanced at the depth at which they are called. -/
def Call.Balanced (d : Int) : Call → Prop
  | once _ initRoutine => Kept d initRoutine
  | detach (some ptd) => ∀ ops ∈ ptd.tls.getD [], Kept (d + 1) ops
  | cleanupPop _ _ cleanup => ∀ ops ∈ cleanup, Kept d ops
  | _ => True

/-- Where a call keeps the depth: a first `pthread_once` and a `pthread_detach` without data are
called with the lock open, and every other critical section has room to be entered. -/
def Call.Room (c : Config) (d : Int) : Call → Prop
  | once onceControl _ => if onceControl then d < nestMax else d = 0
  | detach none => d = 0
  | detach (some ptd) =>
    d + 1 + (if ptd.detached = false ∧ c.heapCritical = true then 1 else 0) ≤ nestMax
  | condBroadcast none => True
  | condBroadcast (some _) => d < nestMax
  | cleanupPush self alloc _ _ => self = true → alloc = true ∨ c.heapCritical = true → d < nestMax
  | cleanupPop self execute _ => self = true → execute = true → d < nestMax

section kept

variable {c : Config} {d : Int} {ops more : List LockOp} {n : Nat}

/-! ## Operations on the lock -/

theorem after_append (d : Int) (ops more : List LockOp) :
    after d (ops ++ more) = after (after d ops) more := List.foldl_append

theorem apply_enter (hd : 0 ≤ d) (hlt : d < nestMax) : LockOp.enter.apply d = d + 1 := by
  rw [nestMax] at hlt
  rw [LockOp.apply, int16, Int.bmod_def]
  split <;> omega

theorem apply_exit (hd : 0 ≤ d) (hlt : d ≤ nestMax) : LockOp.exit.apply d = max 0 (d - 1) := by
  have hbmod : int16 (d - 1) = d - 1 := by
    rw [nestMax] at hlt
    rw [int16, Int.bmod_def]
    split <;> omega
  rw [LockOp.apply, hbmod]
  split <;> omega

/-- At the greatest depth the lock is entered into a negative one. -/
theorem apply_enter_max : LockOp.enter.apply nestMax = -32768 := by decide

theorem kept_nil (d : Int) : Kept d [] where
  back := rfl
  floor := by
    intro pre hpre
    rw [List.prefix_nil.mp hpre]
    exact Int.le_refl d

theorem Kept.append (h : Kept d ops) (h' : Kept d more) : Kept d (ops ++ more) where
  back := by rw [after_append, h.back, h'.back]
  floor := by
    intro pre hpre
    rcases List.prefix_or_prefix_of_prefix hpre (List.prefix_append ops more) with hfirst | hsecond
    · exact h.floor pre hfirst
    · obtain ⟨rest, rfl⟩ := hsecond
      rw [after_append, h.back]
      exact h'.floor rest ((List.prefix_append_right_inj ops).mp hpre)

/-- What is kept in front may be left out. -/
theorem kept_append_iff (h : Kept d ops) : Kept d (ops ++ more) ↔ Kept d more := by
  refine ⟨fun hall => ⟨?_, ?_⟩, h.append⟩
  · have hback := hall.back
    rwa [after_append, h.back] at hback
  · intro pre hpre
    have hle := hall.floor (ops ++ pre) ((List.prefix_append_right_inj ops).mpr hpre)
    rwa [after_append, h.back] at hle

theorem kept_flatten {callbacks : List (List LockOp)} (h : ∀ ops ∈ callbacks, Kept d ops) :
    Kept d callbacks.flatten := by
  induction callbacks with
  | nil => exact kept_nil d
  | cons ops callbacks ih =>
    exact (h ops List.mem_cons_self).append (ih fun l hl => h l (List.mem_cons_of_mem _ hl))

theorem prefix_singleton {op : LockOp} {pre : List LockOp} (h : pre <+: [op]) :
    pre = [] ∨ pre = [op] := by
  rcases List.prefix_cons_iff.mp h with rfl | ⟨rest, rfl, hrest⟩
  · exact Or.inl rfl
  · exact Or.inr (by rw [List.prefix_nil.mp hrest])

/-- A critical section around what keeps the depth in it. -/
theorem Kept.critical (h : Kept (d + 1) ops) (hd : 0 ≤ d) (hlt : d < nestMax) :
    Kept d ([.enter] ++ ops ++ [.exit]) := by
  have henter : after d [.enter] = d + 1 := apply_enter hd hlt
  have hexit : after (d + 1) [.exit] = d := by
    show LockOp.exit.apply (d + 1) = d
    rw [apply_exit (by omega) (by omega)]
    omega
  constructor
  · rw [after_append, after_append, henter, h.back, hexit]
  · intro pre hpre
    rcases List.prefix_cons_iff.mp hpre with rfl | ⟨rest, rfl, hrest⟩
    · exact Int.le_refl d
    · rw [← List.singleton_append, after_append, henter]
      rcases List.prefix_or_prefix_of_prefix hrest (List.prefix_append ops [.exit]) with
        hinside | hbehind
      · have hfloor := h.floor rest hinside
        omega
      · obtain ⟨last, rfl⟩ := hbehind
        rw [after_append, h.back]
        rcases prefix_singleton ((List.prefix_append_right_inj ops).mp hrest) with rfl | rfl
        · show d ≤ d + 1
          omega
        · rw [hexit]

/-- There is no room for the first call of `rt_enter_critical`. -/
theorem not_kept_of_enter (pre : List LockOp) (hpre : after d pre = nestMax) (hd : 0 ≤ d) :
    ¬ Kept d (pre ++ .enter :: more) := by
  intro h
  have hle := h.floor (pre ++ [.enter])
    ((List.prefix_append_right_inj pre).mpr (List.cons_prefix_cons.mpr ⟨rfl, List.nil_prefix⟩))
  rw [after_append, hpre] at hle
  have hdown : after nestMax [.enter] = -32768 := apply_enter_max
  omega

theorem kept_pair_iff (hd : 0 ≤ d) (hle : d ≤ nestMax) :
    Kept d ([.enter] ++ [.exit]) ↔ d < nestMax := by
  constructor
  · intro h
    by_contra hge
    exact not_kept_of_enter [] (show d = nestMax by omega) hd h
  · intro hlt
    exact (kept_nil (d + 1)).critical hd hlt

theorem kept_exit_iff (hd : 0 ≤ d) (hle : d ≤ nestMax) : Kept d [.exit] ↔ d = 0 := by
  have hexit : after d [.exit] = max 0 (d - 1) := apply_exit hd hle
  constructor
  · intro h
    have hback := h.back
    omega
  · rintro rfl
    refine ⟨hexit, ?_⟩
    intro pre hpre
    rcases prefix_singleton hpre with rfl | rfl
    · exact Int.le_refl 0
    · exact Int.le_refl 0

theorem heapCalls_add (c : Config) (m n : Nat) :
    heapCalls c m ++ heapCalls c n = heapCalls c (m + n) := by
  rw [heapCalls, heapCalls, heapCalls, List.replicate_add, List.flatten_append]

theorem heapCalls_open (h : c.heapCritical = false) : heapCalls c n = [] := by
  rw [heapCalls, h]
  simp

/-- The first call for the heap enters a critical section. -/
theorem heapCalls_enter (h : c.heapCritical = true) :
    ∃ rest, heapCalls c (n + 1) = .enter :: rest := by
  refine ⟨.exit :: heapCalls c n, ?_⟩
  rw [heapCalls, List.replicate_succ, List.flatten_cons, h, heapCalls, h]
  rfl

theorem kept_heapCalls (hd : 0 ≤ d) (hroom : n ≠ 0 → c.heapCritical = true → d < nestMax) :
    Kept d (heapCalls c n) := by
  cases hcritical : c.heapCritical with
  | false =>
    rw [heapCalls_open hcritical]
    exact kept_nil d
  | true =>
    rw [heapCalls, hcritical]
    apply kept_flatten
    intro ops hops
    obtain ⟨hn, rfl⟩ := List.mem_replicate.mp hops
    exact (kept_nil (d + 1)).critical hd (hroom hn hcritical)

/-- Callbacks and calls for the heap, in a critical section. -/
theorem kept_critical_iff {callbacks : List LockOp} (hd : 0 ≤ d) (hle : d ≤ nestMax)
    (hcallbacks : Kept (d + 1) callbacks) :
    Kept d ([.enter] ++ (callbacks ++ heapCalls c n) ++ [.exit]) ↔
      d + 1 + (if n ≠ 0 ∧ c.heapCritical = true then 1 else 0) ≤ nestMax := by
  constructor
  · intro h
    have hlt : d < nestMax := by
      by_contra hge
      exact not_kept_of_enter [] (show d = nestMax by omega) hd h
    split
    case isTrue hheap =>
      by_contra hfull
      obtain ⟨k, rfl⟩ := Nat.exists_eq_succ_of_ne_zero hheap.1
      obtain ⟨rest, hrest⟩ := heapCalls_enter (n := k) hheap.2
      have hin : after d ([.enter] ++ callbacks) = nestMax := by
        rw [after_append, show after d [.enter] = d + 1 from apply_enter hd hlt, hcallbacks.back]
        omega
      rw [hrest, ← List.append_assoc, List.append_assoc, List.cons_append] at h
      exact not_kept_of_enter _ hin hd h
    case isFalse => omega
  · intro hroom
    refine Kept.critical (hcallbacks.append (kept_heapCalls (by omega) ?_)) hd ?_
    · intro hn hcritical
      rw [if_pos ⟨hn, hcritical⟩] at hroom
      omega
    · split at hroom <;> omega

end kept

/-! ## The calls -/

section calls

variable {c : Config} {d : Int} {ops : List LockOp}

theorem pthreadOnce_kept (hd : 0 ≤ d) (hle : d ≤ nestMax) (onceControl : Bool)
    {initRoutine : List LockOp} (hroutine : Kept d initRoutine) :
    Kept d (pthreadOnce onceControl initRoutine).2 ↔
      if onceControl then d < nestMax else d = 0 := by
  cases onceControl with
  | true => exact kept_pair_iff hd hle
  | false =>
    show Kept d ([.enter] ++ [.exit] ++ initRoutine ++ [.exit]) ↔ d = 0
    by_cases hlt : d < nestMax
    · rw [kept_append_iff (((kept_pair_iff hd hle).mpr hlt).append hroutine), kept_exit_iff hd hle]
    · have hpos : ¬ d = 0 := by
        rw [nestMax] at hlt
        omega
      refine iff_of_false ?_ hpos
      exact not_kept_of_enter [] (show d = nestMax by omega) hd

/-- All memory of the thread is given back behind its destructors. -/
theorem pthreadDataDestroy_eq (c : Config) (ptd : PthreadData) :
    ∃ n, pthreadDataDestroy c ptd = (ptd.tls.getD []).flatten ++ heapCalls c (n + 1) := by
  have hwhen : ∀ b : Bool, ∃ n, (if b then heapCalls c 1 else []) = heapCalls c n := by
    intro b
    cases b with
    | true => exact ⟨1, rfl⟩
    | false => exact ⟨0, rfl⟩
  obtain ⟨j, hj⟩ := hwhen ptd.joinableSem.isSome
  obtain ⟨k, hk⟩ := hwhen ptd.ownStack
  unfold pthreadDataDestroy
  rw [hj, hk]
  cases ptd.tls with
  | none =>
    refine ⟨j + k + 1, ?_⟩
    simp only [List.nil_append, heapCalls_add]
    rfl
  | some destructors =>
    refine ⟨1 + j + k + 1, ?_⟩
    simp only [List.append_assoc, heapCalls_add]
    rfl

theorem pthreadDetach_kept (hd : 0 ≤ d) (hle : d ≤ nestMax) (ptd : PthreadData)
    (htls : ∀ ops ∈ ptd.tls.getD [], Kept (d + 1) ops) :
    Kept d (pthreadDetach c (some ptd)).2.2 ↔
      d + 1 + (if ptd.detached = false ∧ c.heapCritical = true then 1 else 0) ≤ nestMax := by
  cases hdetached : ptd.detached with
  | true =>
    have hops : (pthreadDetach c (some ptd)).2.2 = [.enter] ++ [.exit] := by
      simp only [pthreadDetach, hdetached, if_true]
    rw [hops, kept_pair_iff hd hle, if_neg (by simp)]
    omega
  | false =>
    -- a joinable thread has its semaphore, so that memory is given back on every path
    obtain ⟨callbacks, n, hops, hcallbacks⟩ : ∃ callbacks n, (pthreadDetach c (some ptd)).2.2 =
        [.enter] ++ (callbacks ++ heapCalls c (n + 1)) ++ [.exit] ∧ Kept (d + 1) callbacks := by
      have hsem : deleteSem c ptd = [] ++ heapCalls c 1 := by
        rw [deleteSem, if_pos (ptd.joinable hdetached), List.nil_append]
      simp only [pthreadDetach, hdetached, Bool.false_eq_true, if_false]
      split
      · split
        · exact ⟨[], 0, by rw [hsem], kept_nil _⟩
        · obtain ⟨n, hdestroy⟩ := pthreadDataDestroy_eq c ptd
          exact ⟨_, n, by rw [hdestroy], kept_flatten htls⟩
      · exact ⟨[], 0, by rw [hsem], kept_nil _⟩
    rw [hops, kept_critical_iff hd hle hcallbacks]
    simp

/-- Where there is no room, a first critical section is entered into a negative depth. -/
theorem not_kept_pair (hd : 0 ≤ d) (hge : nestMax ≤ d) (hle : d ≤ nestMax) :
    ¬ Kept d ([.enter] ++ [.exit] ++ ops) := by
  exact not_kept_of_enter [] (show d = nestMax by omega) hd

theorem pthreadCondBroadcast_kept (hd : 0 ≤ d) (hle : d ≤ nestMax) {cond : CondVar}
    {ret : Errno} (h : pthreadCondBroadcast (some cond) = some (ret, ops)) :
    Kept d ops ↔ d < nestMax := by
  obtain ⟨ret', -, heq⟩ := Option.map_eq_some_iff.mp h
  cases heq
  cases hinit : cond.initialised with
  | true => exact kept_pair_iff hd hle
  | false =>
    constructor
    · intro hkept
      by_contra hge
      exact not_kept_pair hd (by omega) hle hkept
    · intro hlt
      have hpair := (kept_pair_iff hd hle).mpr hlt
      exact hpair.append hpair

theorem pthreadCleanupPush_kept (hd : 0 ≤ d) (hle : d ≤ nestMax) (self alloc : Bool)
    (routine : List LockOp) (cleanup : List (List LockOp)) :
    Kept d (pthreadCleanupPush c self alloc routine cleanup).2 ↔
      (self = true → alloc = true ∨ c.heapCritical = true → d < nestMax) := by
  cases self with
  | false => exact iff_of_true (kept_nil d) fun h => Bool.noConfusion h
  | true =>
    constructor
    · intro h _ hneeds
      by_contra hge
      have hmax : after d [] = nestMax := show d = nestMax by omega
      cases hcritical : c.heapCritical with
      | true =>
        -- the heap is the first to enter
        obtain ⟨rest, hrest⟩ := heapCalls_enter (n := 0) hcritical
        cases alloc with
        | true =>
          rw [show (pthreadCleanupPush c true true routine cleanup).2 =
            heapCalls c 1 ++ [.enter] ++ [.exit] from rfl, hrest] at h
          exact not_kept_of_enter [] hmax hd h
        | false =>
          rw [show (pthreadCleanupPush c true false routine cleanup).2 = heapCalls c 1 from rfl,
            hrest] at h
          exact not_kept_of_enter [] hmax hd h
      | false =>
        rw [hcritical] at hneeds
        obtain rfl : alloc = true := by simpa using hneeds
        rw [show (pthreadCleanupPush c true true routine cleanup).2 =
          heapCalls c 1 ++ [.enter] ++ [.exit] from rfl, heapCalls_open hcritical] at h
        exact not_kept_of_enter [] hmax hd h
    · intro hroom
      have hheap : Kept d (heapCalls c 1) :=
        kept_heapCalls hd fun _ hcritical => hroom rfl (Or.inr hcritical)
      cases alloc with
      | false => exact hheap
      | true =>
        show Kept d (heapCalls c 1 ++ [.enter] ++ [.exit])
        rw [List.append_assoc]
        exact hheap.append ((kept_pair_iff hd hle).mpr (hroom rfl (Or.inl rfl)))

theorem pthreadCleanupPop_kept (hd : 0 ≤ d) (hle : d ≤ nestMax) (self execute : Bool)
    {cleanup : List (List LockOp)} (hcleanup : ∀ ops ∈ cleanup, Kept d ops) :
    Kept d (pthreadCleanupPop c self execute cleanup).2 ↔
      (self = true → execute = true → d < nestMax) := by
  cases self with
  | false => exact iff_of_true (kept_nil d) fun h => Bool.noConfusion h
  | true =>
    cases execute with
    | false => exact iff_of_true (kept_nil d) fun _ h => Bool.noConfusion h
    | true =>
      cases cleanup with
      | nil =>
        constructor
        · intro h _ _
          exact (kept_pair_iff hd hle).mp h
        · intro hroom
          exact (kept_pair_iff hd hle).mpr (hroom rfl rfl)
      | cons handler rest =>
        show Kept d ([.enter] ++ [.exit] ++ handler ++ heapCalls c 1) ↔ _
        constructor
        · intro h _ _
          by_contra hge
          exact not_kept_pair hd (by omega) hle h
        · intro hroom
          have hlt := hroom rfl rfl
          have hpair := (kept_pair_iff hd hle).mpr hlt
          exact (hpair.append (hcleanup handler List.mem_cons_self)).append
            (kept_heapCalls hd fun _ _ => hlt)

end calls

/-- A call that returns, with balanced callbacks, keeps the depth of the lock exactly when it has
room for its critical sections and does not leave one that it has not entered. -/
theorem lock_nesting_kept (c : Config) (call : Call) (d : Int) (ops : List LockOp)
    (hd : 0 ≤ d) (hle : d ≤ nestMax) (hcallbacks : call.Balanced d)
    (hops : call.lockOps c = some ops) : Kept d ops ↔ call.Room c d := by
  cases call with
  | once onceControl initRoutine =>
    cases hops
    exact pthreadOnce_kept hd hle onceControl hcallbacks
  | detach ptd =>
    cases hops
    cases ptd with
    | none => exact kept_exit_iff hd hle
    | some ptd => exact pthreadDetach_kept hd hle ptd hcallbacks
  | condBroadcast cond =>
    obtain ⟨⟨ret, ops⟩, hcall, rfl⟩ := Option.map_eq_some_iff.mp hops
    cases cond with
    | none =>
      cases hcall
      exact iff_of_true (kept_nil d) trivial
    | some cond => exact pthreadCondBroadcast_kept hd hle hcall
  | cleanupPush self alloc routine cleanup =>
    cases hops
    exact pthreadCleanupPush_kept hd hle self alloc routine cleanup
  | cleanupPop self execute cleanup =>
    cases hops
    exact pthreadCleanupPop_kept hd hle self execute hcallbacks

/-- A second call of `pthread_once` in a critical section. -/
theorem lock_nesting_kept_once : Kept 1 [.enter, .exit] :=
  (lock_nesting_kept ⟨false⟩ (.once true []) 1 _ (by decide) (by decide) (kept_nil 1) rfl).mpr
    (show (1 : Int) < nestMax by decide)

/-- The first call of `pthread_once` leaves the critical section of its caller, and so does
`pthread_detach` for a thread that does not exist. -/
theorem lock_nesting_lost :
    ¬ Kept 1 (pthreadOnce false []).2 ∧ ¬ Kept 1 (pthreadDetach ⟨false⟩ none).2.2 := by
  constructor
  · intro h
    exact absurd h.back (by decide)
  · intro h
    exact absurd h.back (by decide)

end RtThread.PthreadNesting
