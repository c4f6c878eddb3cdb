import RtThread.RwLockSteps

/-!
# Exclusion of a read-write lock

The counters of the lock agree with the threads that hold it and the threads that wait for it
in every reachable state, whatever the wake-ups and the waits that expire.
-/
namespace RtThread.RwLock

open Function (update_of_ne update_self)
open Ipc (ThreadId)
open Cond (Errno)
open Counting

/-- The thread is inside the wait of this side. -/
def Stage.waits (side : Side) : Stage → Bool
  | .released side' _ => side = side'
  | .taking side' _ => side = side'
  | .taken side' _ _ => side = side'
  | _ => false

def Waits (s : State) (side : Side) (t : ThreadId) : Prop := (s.stage t).waits side = true

/-! ## The holders -/

/-- The lock with the threads that hold it, with one entry for each read lock, and the threads
whose last call has changed `rw_refcount`. -/
structure Traced where
  lock : State
  readers : List ThreadId
  writer : Option ThreadId
  touched : ThreadId → Bool

def start (priority : ThreadId → Nat) : Traced :=
  ⟨pthreadRwlockInit priority, [], none, fun _ => false⟩

def Traced.Holds (x : Traced) (t : ThreadId) : Prop := t ∈ x.readers ∨ x.writer = some t

instance (x : Traced) (t : ThreadId) : Decidable (x.Holds t) := inferInstanceAs (Decidable (_ ∨ _))

/-- The side of a lock call that may succeed in its next step. -/
def Stage.acquires : Stage → Option Side
  | .locking side _ => some side
  | .taken side _ _ => some side
  | _ => none

/-- The thread's call is about to return `0`: it is a new holder, or one less. -/
def Traced.succeed (x : Traced) (s' : State) (t : ThreadId) : Traced :=
  match (x.lock.stage t).acquires with
  | some .reader => { x with lock := s', readers := t :: x.readers }
  | some .writer => { x with lock := s', writer := some t }
  | none =>
    if 0 < x.lock.refcount then { x with lock := s', readers := x.readers.erase t }
    else { x with lock := s', writer := none }

def Traced.after (x : Traced) (op : Op) (s' : State) : Traced :=
  match op with
  | .enter t _ => { x with lock := s', touched := Function.update x.touched t false }
  | .proceed t =>
    let y := if s'.stage t = .leaving .ok then x.succeed s' t else { x with lock := s' }
    { y with touched := Function.update x.touched t (x.touched t || s'.refcount ≠ x.lock.refcount) }
  | .timeout _ => { x with lock := s' }

/-- The step is an unlock by a thread that does not hold the lock. -/
def Traced.intrudes (x : Traced) : Op → Bool
  | .enter t .unlock => decide (¬ x.Holds t)
  | _ => false

/-- A step of a run in which only holders unlock. -/
def tracedStep (x : Traced) (op : Op) : Option Traced :=
  if x.intrudes op then none else (step x.lock op).map (x.after op)

/-- `rw_refcount` is the number of read locks, or -1 when a writer holds the lock. -/
structure Exclusive (x : Traced) : Prop where
  refcount : x.lock.refcount = if x.writer.isSome then -1 else (x.readers.length : Int)
  readers : x.writer.isSome → x.readers = []
  nwait : ∀ side, ∃ n : Nat, x.lock.nwait side = n ∧ Exactly n (Waits x.lock side)
  /-- A lock call that is about to return an error has left `rw_refcount` alone. -/
  failed : ∀ t err, x.lock.stage t = .leaving err → err ≠ .ok → x.touched t = false

/-! ## The mutex, the semaphores and the waiting threads -/

/-- `rw_nwaitreaders` and `rw_nwaitwriters` are the numbers of waiting threads. -/
def Counts (s : State) : Prop := ∀ side, ∃ n : Nat, s.nwait side = n ∧ Exactly n (Waits s side)

structure Core (s : State) : Prop where
  owned : ∃ owner, Owned s owner
  valid : ∀ side, Semaphore.Valid (s.cond side)
  counts : Counts s

section core

variable {s s' : State} {t u : ThreadId} {side : Side} {wait : Wait} {op : Op}

theorem setStage_self (s : State) (t : ThreadId) (stage : Stage) :
    (setStage s t stage).stage t = stage :=
  update_self _ _ _

theorem setStage_ne (s : State) (stage : Stage) (h : u ≠ t) :
    (setStage s t stage).stage u = s.stage u :=
  update_of_ne h _ _

theorem setStage_idem (s : State) (t : ThreadId) (stage stage' : Stage) :
    setStage (setStage s t stage) t stage' = setStage s t stage' := by
  simp [setStage]

/-- Where the thread comes from does not matter to its round. -/
theorem Loop.setStage (h : Loop s t side wait s') (stage : Stage) :
    Loop (RwLock.setStage s t stage) t side wait s' := by
  cases h with
  | refuse hmust hwait =>
    have hloop := Loop.refuse (s := RwLock.setStage s t stage) (t := t) hmust hwait
    rwa [setStage_idem] at hloop
  | join hmust hwait =>
    have hloop := Loop.join (s := RwLock.setStage s t stage) (t := t) hmust hwait
    simpa [RwLock.setStage, setNwait, freeMutex] using hloop
  | acquire hmust hn =>
    have hloop := @Loop.acquire (RwLock.setStage s t stage) t _ wait _ hmust hn
    simpa [RwLock.setStage] using hloop

variable {stage : Stage}

theorem owned_keep {owner : Option ThreadId} (ho : Owned s owner) (hmutex : s'.mutex = s.mutex)
    (hstage : s'.stage = Function.update s.stage t stage)
    (hsame : stage.isLeaving = (s.stage t).isLeaving) : Owned s' owner := by
  refine ⟨hmutex.trans ho.mutex, fun u => ?_⟩
  rw [hstage]
  by_cases hut : u = t
  · subst hut
    rw [update_self, hsame]
    exact ho.leaving u
  · rw [update_of_ne hut]
    exact ho.leaving u

/-- The thread keeps `rw_mutex` until it leaves. -/
theorem owned_enter {err : Errno} (hfree : Free s) (hmutex : s'.mutex = ⟨.normal, some (t, 1)⟩)
    (hstage : s'.stage = Function.update s.stage t (.leaving err)) : Owned s' (some t) := by
  refine ⟨hmutex, fun u => ?_⟩
  rw [hstage]
  by_cases hut : u = t
  · subst hut
    simp [Stage.isLeaving]
  · rw [update_of_ne hut, hfree u]
    simp [Ne.symm hut]

theorem owned_free (hfree : ∀ u, u ≠ t → (s.stage u).isLeaving = false)
    (hmutex : s'.mutex = ⟨.normal, none⟩) (hstage : s'.stage = Function.update s.stage t stage)
    (hnot : stage.isLeaving = false) : Owned s' none := by
  refine ⟨hmutex, fun u => ?_⟩
  rw [hstage]
  by_cases hut : u = t
  · subst hut
    simp [hnot]
  · simp [update_of_ne hut, hfree u hut]

theorem Counts.keep (h : Counts s) (hnwait : s'.nwait = s.nwait)
    (hstage : s'.stage = Function.update s.stage t stage)
    (hsame : ∀ side, stage.waits side = (s.stage t).waits side) : Counts s' := by
  intro side
  obtain ⟨n, hn, hcount⟩ := h side
  refine ⟨n, by rw [hnwait, hn], hcount.congr fun u => ?_⟩
  rw [Waits, Waits, hstage]
  by_cases hut : u = t
  · subst hut
    rw [update_self, hsame]
  · rw [update_of_ne hut]

theorem waits_other (hstage : s'.stage = Function.update s.stage t stage) (side : Side)
    (u : ThreadId) (hut : u ≠ t) : Waits s side u ↔ Waits s' side u := by
  rw [Waits, Waits, hstage, update_of_ne hut]

/-- A thread begins to wait. -/
theorem Counts.join (h : Counts s)
    (hnwait : s'.nwait = Function.update s.nwait side (s.nwait side + 1))
    (hstage : s'.stage = Function.update s.stage t stage)
    (hold : ∀ side, (s.stage t).waits side = false)
    (hnew : ∀ side', stage.waits side' = decide (side' = side)) : Counts s' := by
  intro side'
  obtain ⟨n, hn, hcount⟩ := h side'
  have hnot : ¬ Waits s side' t := by rw [Waits, hold]; exact Bool.false_ne_true
  have hself : Waits s' side' t ↔ side' = side := by
    rw [Waits, hstage, update_self, hnew, decide_eq_true_iff]
  by_cases hside : side' = side
  · subst hside
    refine ⟨n + 1, by rw [hnwait, update_self, hn]; rfl,
      hcount.insert (waits_other hstage _) hnot (hself.mpr rfl)⟩
  · refine ⟨n, by rw [hnwait, update_of_ne hside, hn], hcount.congr fun u => ?_⟩
    by_cases hut : u = t
    · subst hut
      exact iff_of_false hnot fun hw => hside (hself.mp hw)
    · exact waits_other hstage _ u hut

/-- A thread ends its wait. -/
theorem Counts.leave (h : Counts s)
    (hnwait : s'.nwait = Function.update s.nwait side (s.nwait side - 1))
    (hstage : s'.stage = Function.update s.stage t stage)
    (hold : ∀ side', (s.stage t).waits side' = decide (side' = side))
    (hnew : ∀ side, stage.waits side = false) : Counts s' := by
  intro side'
  obtain ⟨n, hn, hcount⟩ := h side'
  have hself : Waits s side' t ↔ side' = side := by
    rw [Waits, hold, decide_eq_true_iff]
  have hnot : ¬ Waits s' side' t := by
    rw [Waits, hstage, update_self, hnew]
    exact Bool.false_ne_true
  by_cases hside : side' = side
  · subst hside
    have hpos := hcount.pos (hself.mpr rfl)
    refine ⟨n - 1, ?_, hcount.erase (waits_other hstage _) (hself.mpr rfl) hnot⟩
    rw [hnwait, update_self, hn]
    omega
  · refine ⟨n, by rw [hnwait, update_of_ne hside, hn], hcount.congr fun u => ?_⟩
    by_cases hut : u = t
    · subst hut
      exact iff_of_false (fun hw => hside (hself.mp hw)) hnot
    · exact waits_other hstage _ u hut

/-- One round of a thread that has `rw_mutex`. -/
theorem Loop.core (h : Loop s t side wait s') (hm : s.mutex = ⟨.normal, some (t, 1)⟩)
    (hfree : Free s) (hv : ∀ side, Semaphore.Valid (s.cond side)) (hcounts : Counts s)
    (ht : s.stage t = .locking side wait) : Core s' := by
  have hno : ∀ side, (s.stage t).waits side = false := fun side => by rw [ht]; rfl
  cases h with
  | refuse | acquire =>
    exact ⟨⟨_, owned_enter hfree hm rfl⟩, hv, hcounts.keep rfl rfl fun side => (hno side).symm⟩
  | join hmust hwait =>
    refine ⟨⟨_, owned_free (fun u _ => hfree u) rfl rfl rfl⟩, hv,
      hcounts.join rfl rfl hno fun side' => ?_⟩
    rfl

theorem valid_setCond {sem : Semaphore.State} (hv : ∀ side, Semaphore.Valid (s.cond side))
    (hsem : Semaphore.Valid sem) (side' : Side) :
    Semaphore.Valid ((setCond s side sem).cond side') := by
  by_cases hside : side' = side
  · subst hside
    simpa [setCond] using hsem
  · simpa [setCond, hside] using hv side'

theorem after_isLeaving (side : Side) (wait : Wait) (ret : Option RtErr) :
    (Stage.after side wait ret).isLeaving = false := by
  cases ret <;> rfl

theorem after_waits (side side' : Side) (wait : Wait) (ret : Option RtErr) :
    (Stage.after side wait ret).waits side' = decide (side' = side) := by
  cases ret <;> rfl

/-- A step in `rt_sem_take`, or of the timer. -/
theorem Core.sem {semOp : Semaphore.Op} {sem : Semaphore.State} {ret : Option RtErr} (h : Core s)
    (hsem : Semaphore.Result (s.cond side) semOp sem ret)
    (hleaving : stage.isLeaving = (s.stage t).isLeaving)
    (hwaits : ∀ side, stage.waits side = (s.stage t).waits side) :
    Core (setStage (setCond s side sem) t stage) := by
  obtain ⟨owner, ho⟩ := h.owned
  exact ⟨⟨owner, owned_keep ho rfl rfl hleaving⟩,
    valid_setCond h.valid ((h.valid side).result hsem), h.counts.keep rfl rfl hwaits⟩

/-- A body of `pthread_rwlock_unlock` that leaves the counters of waiting threads alone. -/
theorem Unlock.core (h : Unlock s t s') (hm : s.mutex = ⟨.normal, some (t, 1)⟩) (hfree : Free s)
    (hv : ∀ side, Semaphore.Valid (s.cond side)) (hcounts : Counts s)
    (ht : s.stage t = .unlocking) : Core s' := by
  have hno : ∀ side, (Stage.leaving .ok).waits side = (s.stage t).waits side :=
    fun side => by rw [ht]; rfl
  cases h with
  | plain hw hr => exact ⟨⟨_, owned_enter hfree hm rfl⟩, hv, hcounts.keep rfl rfl hno⟩
  | signal hw hzero =>
    exact ⟨⟨_, owned_enter hfree hm rfl⟩, valid_setCond hv (hv .writer).release,
      hcounts.keep rfl rfl hno⟩
  | broadcast hw hr hb =>
    exact ⟨⟨_, owned_enter hfree hm rfl⟩, valid_setCond hv hb.valid, hcounts.keep rfl rfl hno⟩

theorem Result.core (h : Result s op s') (hc : Core s) : Core s' := by
  cases h with
  | enter c ht =>
    obtain ⟨owner, ho⟩ := hc.owned
    exact ⟨⟨owner, owned_keep ho rfl rfl (by rw [ht]; cases c <;> rfl)⟩, hc.valid,
      hc.counts.keep rfl rfl fun side => by rw [ht]; cases c <;> rfl⟩
  | lock ht hfree hloop => exact hloop.core rfl hfree hc.valid hc.counts ht
  | take ht hsem =>
    exact hc.sem hsem (by rw [ht, after_isLeaving]; rfl) fun side' => by rw [ht, after_waits]; rfl
  | back ht hsem =>
    exact hc.sem hsem (by rw [ht]; rfl) fun side' => by rw [ht]; rfl
  | @relock t side wait result s' ht hfree hret hloop =>
    refine (hloop.setStage (.locking side wait)).core rfl (fun u => ?_) hc.valid ?_
      (setStage_self _ _ _)
    · by_cases hut : u = t
      · subst hut
        rw [setStage_self]
        rfl
      · rw [setStage_ne _ _ hut]
        exact hfree u
    · exact hc.counts.leave rfl rfl (fun side' => by rw [ht]; rfl) fun side' => rfl
  | gaveUp ht hfree hret =>
    exact ⟨⟨_, owned_enter hfree rfl rfl⟩, hc.valid,
      hc.counts.leave rfl rfl (fun side' => by rw [ht]; rfl) fun side' => rfl⟩
  | unlock ht hfree hbody => exact hbody.core rfl hfree hc.valid hc.counts ht
  | @leave t err ht =>
    obtain ⟨owner, ho⟩ := hc.owned
    have howner : owner = some t := (ho.leaving t).mp (by rw [ht]; rfl)
    have hfree : ∀ u, u ≠ t → (s.stage u).isLeaving = false := by
      intro u hut
      rw [Bool.eq_false_iff]
      intro hu
      have hsome := (ho.leaving u).mp hu
      rw [howner, Option.some.injEq] at hsome
      exact hut hsome.symm
    exact ⟨⟨_, owned_free hfree rfl rfl rfl⟩, hc.valid,
      hc.counts.keep rfl rfl fun side => by rw [ht]; rfl⟩
  | @timeout t side wait sem ret ht hsem =>
    have hcore : Core (setStage (setCond s side sem) t (s.stage t)) :=
      hc.sem hsem rfl fun side' => rfl
    simpa [setStage, setCond] using hcore

/-! ## The count of the holders -/

/-- What a step of a thread does to `rw_refcount`, with the calls that are about to succeed. -/
inductive Change (s : State) (t : ThreadId) (s' : State) : Prop
  | none (hsame : s'.refcount = s.refcount)
      (hret : s'.stage t ≠ .leaving .ok ∧ s'.stage t ≠ .unlocking)
  | read (ht : (s.stage t).acquires = some .reader) (hfree : 0 ≤ s.refcount)
      (hnew : s'.refcount = s.refcount + 1) (hret : s'.stage t = .leaving .ok)
  | write (ht : (s.stage t).acquires = some .writer) (hfree : s.refcount = 0)
      (hnew : s'.refcount = -1) (hret : s'.stage t = .leaving .ok)
  | release (ht : s.stage t = .unlocking) (hnew : s'.refcount = released s.refcount)
      (hret : s'.stage t = .leaving .ok)

theorem Loop.change (h : Loop s t side wait s') {s₀ : State} (hsame : s.refcount = s₀.refcount)
    (ht : (s₀.stage t).acquires = some side) : Change s₀ t s' := by
  cases h with
  | refuse | join =>
    refine .none hsame ?_
    rw [setStage_self]
    simp
  | @acquire n hmust hn =>
    cases side with
    | reader =>
      simp only [mustWait, decide_eq_false_iff_not, not_or, not_lt] at hmust
      simp only [acquired, increment, Option.ite_none_right_eq_some, Option.some.injEq] at hn
      exact .read ht (hsame ▸ hmust.1) (by rw [← hsame]; exact hn.2.symm) (setStage_self _ _ _)
    | writer =>
      simp only [mustWait, decide_eq_false_iff_not, not_not] at hmust
      simp only [acquired, Option.some.injEq] at hn
      exact .write ht (hsame ▸ hmust) hn.symm (setStage_self _ _ _)

theorem Unlock.refcount (h : Unlock s t s') :
    s'.refcount = s.refcount ∧ s'.stage t = .leaving .ok := by
  cases h with
  | plain | signal | broadcast => exact ⟨rfl, setStage_self _ _ _⟩

theorem Result.change (h : Result s (.proceed t) s') : Change s t s' := by
  cases h with
  | lock ht hfree hloop | relock ht hfree hret hloop => exact hloop.change rfl (by rw [ht]; rfl)
  | @take _ side wait time sem ret ht hsem =>
    refine .none rfl ?_
    rw [setStage_self]
    cases ret <;> simp [Stage.after]
  | back | leave =>
    refine .none rfl ?_
    rw [setStage_self]
    simp
  | gaveUp ht hfree hret =>
    refine .none rfl ?_
    rw [setStage_self]
    simpa using hret
  | unlock ht hfree hbody =>
    obtain ⟨hsame, hself⟩ := hbody.refcount
    exact .release ht hsame hself

/-- The thread of a step. -/
def Op.thread : Op → ThreadId
  | .enter t _ => t
  | .proceed t => t
  | .timeout t => t

/-- The others stay where they are. -/
theorem Result.other (h : Result s op s') (hut : u ≠ op.thread) : s'.stage u = s.stage u := by
  cases h with
  | enter | take | back | gaveUp | leave => exact setStage_ne _ _ hut
  | lock ht hfree hloop | relock ht hfree hret hloop =>
    cases hloop with
    | refuse | join | acquire => exact setStage_ne _ _ hut
  | unlock ht hfree hbody =>
    cases hbody with
    | plain | signal | broadcast => exact setStage_ne _ _ hut
  | timeout ht hsem => rfl

end core

/-! ## Runs -/

/-- `rw_refcount` agrees with the holders. -/
structure Held (refcount : Int) (readers : List ThreadId) (writer : Option ThreadId) : Prop where
  refcount : refcount = if writer.isSome then -1 else (readers.length : Int)
  readers : writer.isSome → readers = []

structure Inv (x : Traced) : Prop where
  core : Core x.lock
  held : Held x.lock.refcount x.readers x.writer
  unlocking : ∀ t, x.lock.stage t = .unlocking → x.Holds t
  touched : ∀ t, x.touched t = true → x.lock.stage t = .outside ∨ x.lock.stage t = .leaving .ok

section runs

variable {x : Traced} {s' : State} {t u : ThreadId}

variable {refcount : Int} {readers : List ThreadId}

theorem Held.none {writer : Option ThreadId} (h : Held refcount readers writer)
    (hpos : 0 ≤ refcount) : writer = none ∧ refcount = readers.length := by
  have hrefcount := h.refcount
  cases writer with
  | none => exact ⟨rfl, by simpa using hrefcount⟩
  | some w =>
    simp only [Option.isSome_some, if_true] at hrefcount
    omega

theorem Held.some {w : ThreadId} (h : Held refcount readers (some w)) :
    refcount = -1 ∧ readers = [] :=
  ⟨by simpa using h.refcount, h.readers rfl⟩

/-- A holder gives the lock up. -/
theorem Inv.release (hi : Inv x) (ht : x.lock.stage t = .unlocking)
    (hnew : s'.refcount = released x.lock.refcount) :
    Held s'.refcount (x.succeed s' t).readers (x.succeed s' t).writer ∧
      ∀ u, u ≠ t → x.lock.stage u = .unlocking → (x.succeed s' t).Holds u := by
  have hholds := hi.unlocking t ht
  have hnone : (x.lock.stage t).acquires = none := by rw [ht]; rfl
  simp only [Traced.succeed, hnone]
  cases hwriter : x.writer with
  | none =>
    have hheld := hi.held
    rw [hwriter] at hheld
    have hmem : t ∈ x.readers := by
      obtain hmem | hw := hholds
      · exact hmem
      · rw [hwriter] at hw
        cases hw
    have hcount : x.lock.refcount = x.readers.length := by simpa using hheld.refcount
    have hlength : 0 < x.readers.length := List.length_pos_of_mem hmem
    have hpos : 0 < x.lock.refcount := by omega
    rw [if_pos hpos]
    refine ⟨⟨?_, fun hsome => by simp at hsome⟩, fun u hut hu => ?_⟩
    · rw [hnew, released, if_pos hpos, hcount, List.length_erase_of_mem hmem]
      simp only [Option.isSome_none, Bool.false_eq_true, if_false]
      omega
    · obtain hu | hu := hi.unlocking u hu
      · exact .inl ((List.mem_erase_of_ne hut).mpr hu)
      · exact .inr (hwriter ▸ hu)
  | some w =>
    have hheld := hi.held
    rw [hwriter] at hheld
    obtain ⟨hrefcount, hreaders⟩ := hheld.some
    rw [if_neg (by omega)]
    have hwho : ∀ u, x.lock.stage u = .unlocking → u = w := by
      intro u hu
      obtain hu | hu := hi.unlocking u hu
      · rw [hreaders] at hu
        exact absurd hu List.not_mem_nil
      · rw [hwriter] at hu
        exact (Option.some.inj hu).symm
    refine ⟨⟨?_, fun _ => hreaders⟩, fun u hut hu => ?_⟩
    · simp [hnew, released, hrefcount, hreaders]
    · exact absurd ((hwho u hu).trans (hwho t ht).symm) hut

/-- A thread becomes a holder, or ceases to be one. -/
theorem Inv.succeed (hi : Inv x) (hc : Change x.lock t s') (hret : s'.stage t = .leaving .ok) :
    Held s'.refcount (x.succeed s' t).readers (x.succeed s' t).writer ∧
      ∀ u, u ≠ t → x.lock.stage u = .unlocking → (x.succeed s' t).Holds u := by
  cases hc with
  | none hsame hnot => exact absurd hret hnot.1
  | read ht hfree hnew hret =>
    obtain ⟨hwriter, hcount⟩ := hi.held.none hfree
    simp only [Traced.succeed, ht]
    refine ⟨⟨?_, fun hsome => by simp [hwriter] at hsome⟩, fun u hut hu => ?_⟩
    · simp [hnew, hcount, hwriter]
    · obtain hu | hu := hi.unlocking u hu
      · exact .inl (List.mem_cons_of_mem t hu)
      · exact .inr hu
  | write ht hfree hnew hret =>
    obtain ⟨hwriter, hcount⟩ := hi.held.none (by omega)
    have hnil : x.readers = [] := List.eq_nil_of_length_eq_zero (by omega)
    simp only [Traced.succeed, ht]
    refine ⟨⟨by simpa using hnew, fun _ => hnil⟩, fun u hut hu => ?_⟩
    obtain hu | hu := hi.unlocking u hu
    · rw [hnil] at hu
      exact absurd hu List.not_mem_nil
    · rw [hwriter] at hu
      cases hu
  | release ht hnew hret => exact hi.release ht hnew

theorem succeed_lock (x : Traced) (s' : State) (t : ThreadId) : (x.succeed s' t).lock = s' := by
  rw [Traced.succeed]
  split
  · rfl
  · rfl
  · split
    · rfl
    · rfl

/-- Whose call has changed `rw_refcount` after the step of a thread inside a function. -/
theorem Inv.proceed_touched (hi : Inv x) (hres : Result x.lock (.proceed t) s')
    (hu : Function.update x.touched t (x.touched t || s'.refcount ≠ x.lock.refcount) u = true) :
    s'.stage u = .outside ∨ s'.stage u = .leaving .ok := by
  by_cases hut : u = t
  · subst hut
    rw [update_self, Bool.or_eq_true_iff] at hu
    obtain hold | hnew := hu
    · cases hres with
      | leave ht => exact .inl (setStage_self _ _ _)
      | lock ht hfree hloop | take ht hsem | back ht hsem | relock ht hfree hret hloop
      | gaveUp ht hfree hret | unlock ht hfree hbody => simpa [ht] using hi.touched u hold
    · have hne : s'.refcount ≠ x.lock.refcount := by simpa using hnew
      cases hres.change with
      | none hsame hret => exact absurd hsame hne
      | read ht hfree hnew hret | write ht hfree hnew hret | release ht hnew hret => exact .inr hret
  · rw [update_of_ne hut] at hu
    rw [hres.other hut]
    exact hi.touched u hu

theorem tracedStep_inv {x' : Traced} {op : Op} (hi : Inv x) (hs : tracedStep x op = some x') :
    Inv x' := by
  rw [tracedStep] at hs
  split at hs
  · cases hs
  · rename_i hallowed
    obtain ⟨s', hstep, rfl⟩ := Option.map_eq_some_iff.mp hs
    obtain ⟨owner, ho⟩ := hi.core.owned
    have hres := step_result ho hi.core.valid hstep
    have hcore := hres.core hi.core
    cases op with
    | enter t c =>
      cases hres with
      | enter c ht =>
        refine ⟨hcore, hi.held, fun u hu => ?_, fun u hu => ?_⟩
        · have hu : (setStage x.lock t c.stage).stage u = .unlocking := hu
          by_cases hut : u = t
          · subst hut
            rw [setStage_self] at hu
            cases c with
            | lock side wait => cases hu
            | unlock =>
              have hholds : x.Holds u := by simpa [Traced.intrudes] using hallowed
              exact hholds
          · rw [setStage_ne _ _ hut] at hu
            exact hi.unlocking u hu
        · have hu : Function.update x.touched t false u = true := hu
          show (setStage x.lock t c.stage).stage u = _ ∨ (setStage x.lock t c.stage).stage u = _
          by_cases hut : u = t
          · subst hut
            simp at hu
          · rw [setStage_ne _ _ hut]
            rw [update_of_ne hut] at hu
            exact hi.touched u hu
    | proceed t =>
      have hother : ∀ u, u ≠ t → s'.stage u = x.lock.stage u := fun u hut => hres.other hut
      by_cases hret : s'.stage t = .leaving .ok
      · have hafter : x.after (.proceed t) s' = { x.succeed s' t with
            touched := Function.update x.touched t (x.touched t || s'.refcount ≠ x.lock.refcount) } := by
          rw [Traced.after, if_pos hret]
        have hlock := succeed_lock x s' t
        obtain ⟨hheld, hunlocking⟩ := hi.succeed hres.change hret
        rw [hafter]
        refine ⟨?_, ?_, fun u hu => ?_, fun u hu => ?_⟩
        · rw [hlock]
          exact hcore
        · rw [hlock]
          exact hheld
        · have hstage : (x.succeed s' t).lock.stage u = .unlocking := hu
          rw [hlock] at hstage
          have hut : u ≠ t := by
            rintro rfl
            rw [hret] at hstage
            cases hstage
          exact hunlocking u hut (hother u hut ▸ hstage)
        · rw [hlock]
          exact hi.proceed_touched hres hu
      · have hafter : x.after (.proceed t) s' = { x with
            lock := s'
            touched := Function.update x.touched t (x.touched t || s'.refcount ≠ x.lock.refcount) } := by
          rw [Traced.after, if_neg hret]
        have hsame : s'.refcount = x.lock.refcount ∧ s'.stage t ≠ .unlocking := by
          cases hres.change with
          | none hsame hnot => exact ⟨hsame, hnot.2⟩
          | read ht hfree hnew hok | write ht hfree hnew hok | release ht hnew hok =>
            exact absurd hok hret
        rw [hafter]
        refine ⟨hcore, hsame.1.symm ▸ hi.held, fun u hu => ?_, fun u hu => hi.proceed_touched hres hu⟩
        have hut : u ≠ t := by
          rintro rfl
          exact hsame.2 hu
        exact hi.unlocking u (hother u hut ▸ hu)
    | timeout t =>
      cases hres with
      | timeout ht hsem => exact ⟨hcore, hi.held, hi.unlocking, hi.touched⟩

theorem Inv.exclusive (hi : Inv x) : Exclusive x where
  refcount := hi.held.refcount
  readers := hi.held.readers
  nwait := hi.core.counts
  failed := by
    intro t err ht herr
    rw [Bool.eq_false_iff]
    intro htouched
    obtain hout | hok := hi.touched t htouched
    · rw [ht] at hout
      cases hout
    · rw [ht, Stage.leaving.injEq] at hok
      exact herr hok

end runs

theorem core_init (priority : ThreadId → Nat) : Core (pthreadRwlockInit priority) where
  owned := ⟨none, rfl, fun t => iff_of_false Bool.false_ne_true (by simp)⟩
  valid := fun _ => Semaphore.valid_init .fifo (Nat.zero_le _) priority
  counts := fun side => ⟨0, rfl, exactly_zero fun t => Bool.false_ne_true⟩

theorem inv_start (priority : ThreadId → Nat) : Inv (start priority) where
  core := core_init priority
  held := ⟨rfl, fun h => Bool.noConfusion h⟩
  unlocking := fun _ ht => Stage.noConfusion ht
  touched := fun _ ht => Bool.noConfusion ht

/-- In every state that any steps of any threads lead to, `rw_refcount` is the number of read
locks that are held, or -1 when a writer holds the lock and then nobody else does; the counters of
waiting threads are right; and a call that fails has not changed `rw_refcount`. -/
theorem rwlock_exclusion (priority : ThreadId → Nat) (ops : List Op) :
    Runs.Always tracedStep Exclusive (start priority) ops := by
  have hok : Runs.Along tracedStep (fun _ _ => True) (start priority) ops :=
    Runs.along_of_forall (fun _ _ => trivial) _
  exact hok.always (fun _ _ _ hi _ hs => tracedStep_inv hi hs) (fun _ hi => hi.exclusive)
    (inv_start priority)

end RtThread.RwLock
