import RtThread.RwLockExclusion

/-!
# Waiters of a free read-write lock

When the lock becomes free its unlock wakes the side whose turn it is: a waiting writer, or all
waiting readers when no writer waits. While the lock stays free, a woken thread of that side is
on its way. The turn passes to the readers without a wake-up when the last waiting writer gives
up.
-/
namespace RtThread.RwLock

open Function (update_eq_self update_of_ne update_self)
open Ipc (ThreadId)
open Cond (Errno)
open Semaphore (Suspended)

/-- The thread is blocked in a lock call. -/
def Blocked (s : State) (t : ThreadId) : Prop := ∃ side, Suspended (s.cond side) t

/-- The thread has been resumed, or has taken a token, and has not tried again. -/
def Resumed (s : State) (side : Side) (t : ThreadId) : Prop :=
  (∃ wait, s.stage t = .taking side wait) ∧ ¬ Suspended (s.cond side) t ∨
    ∃ wait result, s.stage t = .taken side wait result

/-- A thread that waits has a token for its condition, or has been resumed. -/
def OnTheWay (s : State) : Prop :=
  ∃ side t, Waits s side t ∧ (0 < (s.cond side).value ∨ Resumed s side t)

/-- A free lock with blocked threads has a wake-up on the way. -/
def NotStranded (s : State) : Prop := s.refcount = 0 → (∃ t, Blocked s t) → OnTheWay s

/-! ## The side whose turn it is -/

/-- The thread has to be woken: it is suspended, or before `rt_sem_take`. -/
def Needs (s : State) (side : Side) (t : ThreadId) : Prop :=
  (∃ wait, s.stage t = .released side wait) ∨
    (∃ wait, s.stage t = .taking side wait) ∧ Suspended (s.cond side) t

/-- The thread has been woken and is going to try again. -/
def Through (s : State) (side : Side) (t : ThreadId) : Prop :=
  ((∃ wait, s.stage t = .taking side wait) ∧ ¬ Suspended (s.cond side) t ∧
      ((s.cond side).waiters.thread t).error = .eok) ∨
    ∃ wait, s.stage t = .taken side wait .eok

/-- While a thread of the side has to be woken, there is a token, or another one is going to try. -/
def Served (s : State) (side : Side) : Prop :=
  (∃ t, Needs s side t) → 0 < (s.cond side).value ∨ ∃ t, Through s side t

/-- Waiting writers come first. -/
def turn (s : State) : Side := if 0 < s.nwait .writer then .writer else .reader

/-- The step is the end of a write lock call that gave up, as the last waiting writer of a free
lock. -/
def lastWriterGivesUp (s : State) : Op → Bool
  | .proceed t =>
    match s.stage t with
    | .taken .writer wait result =>
      decide (Cond.waitResult wait.ticks result ≠ .ok ∧ s.refcount = 0 ∧ s.nwait .writer = 1)
    | _ => false
  | _ => false

/-- The last waiting writer of a free lock gives up only when the readers are served. -/
def TurnPasses (s : State) (op : Op) : Prop := lastWriterGivesUp s op = true → Served s .reader

/-- The threads in `rt_sem_take` are in the wait of that side. -/
def Takes (s : State) : Prop :=
  ∀ side t, (s.cond side).taking t = true → ∃ wait, s.stage t = .taking side wait

structure Watch (s : State) : Prop where
  core : Core s
  takes : Takes s
  served : s.refcount = 0 → Served s (turn s)

section steps

variable {s s' : State} {t : ThreadId} {side : Side} {wait : Wait} {op : Op}

theorem Needs.waits (h : Needs s side t) : Waits s side t := by
  obtain ⟨wait, hw⟩ | ⟨⟨wait, hw⟩, -⟩ := h
  · simp [Waits, hw, Stage.waits]
  · simp [Waits, hw, Stage.waits]

theorem Served.mono (h : Served s side) (hneeds : ∀ u, Needs s' side u → Needs s side u)
    (hvalue : (s.cond side).value ≤ (s'.cond side).value)
    (hthrough : ∀ u, Through s side u → Through s' side u) : Served s' side := by
  rintro ⟨u, hu⟩
  obtain hpos | ⟨v, hv⟩ := h ⟨u, hneeds u hu⟩
  · exact .inl (Nat.lt_of_lt_of_le hpos hvalue)
  · exact .inr ⟨v, hthrough v hv⟩

/-- A thread that is neither to be woken nor woken goes on. -/
theorem Served.stage {stage : Stage} (h : Served s side) (hcond : s'.cond = s.cond)
    (hstage : s'.stage = Function.update s.stage t stage) (ht : ¬ Through s side t)
    (hnew : ∀ wait, stage ≠ .released side wait ∧ stage ≠ .taking side wait) : Served s' side := by
  have hsame : ∀ u, u ≠ t → s'.stage u = s.stage u := fun u hut => by
    rw [hstage, update_of_ne hut]
  refine h.mono (fun u hu => ?_) (by rw [hcond]) fun u hu => ?_
  · have hut : u ≠ t := by
      rintro rfl
      rw [Needs, hstage, update_self] at hu
      obtain ⟨wait, hw⟩ | ⟨⟨wait, hw⟩, -⟩ := hu
      · exact (hnew wait).1 hw
      · exact (hnew wait).2 hw
    rwa [Needs, hsame u hut, hcond] at hu
  · have hut : u ≠ t := by
      rintro rfl
      exact ht hu
    rwa [Through, hsame u hut, hcond]

variable {sem : Semaphore.State} {time : BitVec 32} {ret : Option RtErr} {err : RtErr}

/-- The other side of the lock does not see a step on a semaphore. -/
theorem Served.other {side' : Side} {stage : Stage} (h : Served s side') (hne : side' ≠ side)
    (hold : (s.stage t).waits side' = false) (hnew : stage.waits side' = false) :
    Served (setStage (setCond s side sem) t stage) side' := by
  have hcond : (setStage (setCond s side sem) t stage).cond side' = s.cond side' :=
    update_of_ne hne _ _
  have hneeds : ∀ u, Needs (setStage (setCond s side sem) t stage) side' u → u ≠ t := by
    rintro u hu rfl
    have hw := hu.waits
    rw [Waits, setStage_self, hnew] at hw
    cases hw
  have hthrough : ∀ u, Through s side' u → u ≠ t := by
    rintro u hu rfl
    obtain ⟨⟨wait, hw⟩, -⟩ | ⟨wait, hw⟩ := hu
    · rw [hw] at hold
      simp [Stage.waits] at hold
    · rw [hw] at hold
      simp [Stage.waits] at hold
  refine h.mono (fun u hu => ?_) (by rw [hcond]) fun u hu => ?_
  · have hut := hneeds u hu
    rw [Needs, hcond, setStage_ne _ _ hut] at hu
    exact hu
  · have hut := hthrough u hu
    rw [Through, hcond, setStage_ne _ _ hut]
    exact hu

/-- A thread comes to `rt_sem_take`. -/
theorem Served.take (h : Served s side) (ht : s.stage t = .released side wait)
    (hsem : Semaphore.Result (s.cond side) (.take t time) sem ret) :
    Served (setStage (setCond s side sem) t (.after side wait ret)) side := by
  have hcond : (setStage (setCond s side sem) t (.after side wait ret)).cond side = sem :=
    update_self _ _ _
  have hself := setStage_self (setCond s side sem) t (.after side wait ret)
  cases ret with
  | none =>
    have hvalue : (s.cond side).value ≤ sem.value := by
      cases hsem with
      | wait hact hzero hw => exact Nat.le_refl _
    refine h.mono (fun u hu => ?_) (by rw [hcond]; exact hvalue) fun u hu => ?_
    · by_cases hut : u = t
      · subst hut
        exact .inl ⟨wait, ht⟩
      · rw [Needs, hcond, setStage_ne _ _ hut] at hu
        obtain hrel | ⟨htaking, hsus⟩ := hu
        · exact .inl hrel
        · rw [Suspended, hsem.thread_other rfl hut] at hsus
          exact .inr ⟨htaking, hsus⟩
    · have hut : u ≠ t := by
        rintro rfl
        simp [Through, ht] at hu
      rw [Through, hcond, setStage_ne _ _ hut, Suspended, hsem.thread_other rfl hut]
      exact hu
  | some err =>
    by_cases herr : err = .eok
    · subst herr
      exact fun _ => .inr ⟨t, .inr ⟨wait, hself⟩⟩
    · have hsame : sem = s.cond side := by
        cases hsem with
        | taken hop hpos => exact absurd rfl herr
        | refused hop hzero => rfl
      refine h.mono (fun u hu => ?_) (by rw [hcond, hsame]) fun u hu => ?_
      · have hut : u ≠ t := by
          rintro rfl
          rw [Needs, hself] at hu
          simp [Stage.after] at hu
        rw [Needs, hcond, hsame, setStage_ne _ _ hut] at hu
        exact hu
      · have hut : u ≠ t := by
          rintro rfl
          simp [Through, ht] at hu
        rw [Through, hcond, hsame, setStage_ne _ _ hut]
        exact hu

/-- A resumed thread returns from `rt_sem_take`. -/
theorem Served.back (h : Served s side) (ht : s.stage t = .taking side wait)
    (hsem : Semaphore.Result (s.cond side) (.takeReturn t) sem (some err)) :
    Served (setStage (setCond s side sem) t (.taken side wait err)) side := by
  have hcond : (setStage (setCond s side sem) t (.taken side wait err)).cond side = sem :=
    update_self _ _ _
  have hself := setStage_self (setCond s side sem) t (.taken side wait err)
  obtain ⟨-, rfl, hret⟩ := hsem.takeReturn
  refine h.mono (fun u hu => ?_) (Nat.le_of_eq (by rw [hcond])) fun u hu => ?_
  · have hut : u ≠ t := by
      rintro rfl
      simp [Needs, hself] at hu
    rw [Needs, hcond, setStage_ne _ _ hut] at hu
    exact hu
  · by_cases hut : u = t
    · subst hut
      obtain ⟨-, -, herr⟩ | ⟨wait', hw⟩ := hu
      · exact .inr ⟨wait, by rw [hself, Option.some.inj hret, herr]⟩
      · rw [ht] at hw
        cases hw
    · rw [Through, hcond, setStage_ne _ _ hut]
      exact hu

/-- The timer of a suspended thread expires. -/
theorem Served.timeout (h : Served s side) (hv : Semaphore.Valid (s.cond side))
    (hsem : Semaphore.Result (s.cond side) (.timeout t) sem ret) :
    Served (setCond s side sem) side := by
  have hcond : (setCond s side sem).cond side = sem := update_self _ _ _
  have hvalue := hsem.value_le (by simp)
  obtain ⟨hsus, hnot⟩ := hsem.timer hv
  refine h.mono (fun u hu => ?_) (by rw [hcond]; exact hvalue) fun u hu => ?_
  · rw [Needs, hcond] at hu
    obtain hrel | ⟨htaking, hu⟩ := hu
    · exact .inl hrel
    · have hut : u ≠ t := by
        rintro rfl
        exact hnot hu
      rw [Suspended, hsem.thread_other rfl hut] at hu
      exact .inr ⟨htaking, hu⟩
  · obtain ⟨htaking, hu, herr⟩ | htaken := hu
    · have hut : u ≠ t := by
        rintro rfl
        exact hu hsus
      refine .inl ⟨htaking, ?_⟩
      rw [hcond, Suspended, hsem.thread_other rfl hut]
      exact ⟨hu, herr⟩
    · exact .inr htaken

/-- A signal wakes a suspended thread, or leaves a token. -/
theorem served_signal (hv : Semaphore.Valid (s.cond side))
    (htakes : Takes s) (ht : s.stage t = .unlocking) {stage : Stage} :
    Served (setStage (setCond s side (Semaphore.rtSemRelease (s.cond side)).1) t stage) side := by
  intro _
  have hcond : (setStage (setCond s side (Semaphore.rtSemRelease (s.cond side)).1) t stage).cond
      side = (Semaphore.rtSemRelease (s.cond side)).1 := update_self _ _ _
  rw [hcond]
  obtain hpos | ⟨u, hu, hnot, herr⟩ := hv.release_wakes
  · exact .inl hpos
  · obtain ⟨wait, hw⟩ := htakes side u (hv.taking hu)
    have hut : u ≠ t := by
      rintro rfl
      rw [ht] at hw
      cases hw
    refine .inr ⟨u, .inl ?_⟩
    rw [hcond, setStage_ne _ _ hut]
    exact ⟨⟨wait, hw⟩, hnot, herr⟩

/-- A thread that is not in `rt_sem_take` goes on. -/
theorem Takes.stage {stage : Stage} (h : Takes s)
    (hcond : ∀ side, (s'.cond side).taking = (s.cond side).taking)
    (hstage : s'.stage = Function.update s.stage t stage)
    (ht : ∀ side wait, s.stage t ≠ .taking side wait) : Takes s' := by
  intro side u hu
  rw [hcond] at hu
  obtain ⟨wait, hw⟩ := h side u hu
  have hut : u ≠ t := by
    rintro rfl
    exact ht side wait hw
  exact ⟨wait, by rw [hstage, update_of_ne hut, hw]⟩

theorem Takes.take (h : Takes s) (ht : s.stage t = .released side wait)
    (hsem : Semaphore.Result (s.cond side) (.take t time) sem ret) :
    Takes (setStage (setCond s side sem) t (.after side wait ret)) := by
  intro side' u hu
  have htaking := hsem.taking
  by_cases hut : u = t
  · subst hut
    rw [setStage_self]
    by_cases hside : side' = side
    · subst hside
      cases ret with
      | none => exact ⟨wait, rfl⟩
      | some err =>
        simp only [setStage, setCond, update_self, htaking] at hu
        obtain ⟨wait', hw⟩ := h side' u hu
        rw [ht] at hw
        cases hw
    · simp only [setStage, setCond, update_of_ne hside] at hu
      obtain ⟨wait', hw⟩ := h side' u hu
      rw [ht] at hw
      cases hw
  · rw [setStage_ne _ _ hut]
    refine h side' u ?_
    by_cases hside : side' = side
    · subst hside
      cases ret with
      | none => simpa [setStage, setCond, htaking, hut] using hu
      | some err => simpa [setStage, setCond, htaking] using hu
    · simpa [setStage, setCond, hside] using hu

theorem Takes.back (h : Takes s) (ht : s.stage t = .taking side wait)
    (hsem : Semaphore.Result (s.cond side) (.takeReturn t) sem (some err)) {stage : Stage} :
    Takes (setStage (setCond s side sem) t stage) := by
  intro side' u hu
  obtain ⟨-, rfl, -⟩ := hsem.takeReturn
  have hut : u ≠ t := by
    rintro rfl
    by_cases hside : side' = side
    · subst hside
      simp [setStage, setCond] at hu
    · simp only [setStage, setCond, update_of_ne hside] at hu
      obtain ⟨wait', hw⟩ := h side' u hu
      rw [ht, Stage.taking.injEq] at hw
      exact hside hw.1.symm
  rw [setStage_ne _ _ hut]
  refine h side' u ?_
  by_cases hside : side' = side
  · subst hside
    simpa [setStage, setCond, hut] using hu
  · simpa [setStage, setCond, hside] using hu

theorem taking_setCond (h : sem.taking = (s.cond side).taking) (side' : Side) :
    ((setCond s side sem).cond side').taking = (s.cond side').taking := by
  by_cases hside : side' = side
  · subst hside
    simpa [setCond] using h
  · simp [setCond, hside]

theorem Loop.takes (h : Loop s t side wait s') (htakes : Takes s)
    (ht : ∀ side wait, s.stage t ≠ .taking side wait) : Takes s' := by
  cases h with
  | refuse | join | acquire => exact htakes.stage (fun _ => rfl) rfl ht

theorem Result.takes (h : Result s op s') (htakes : Takes s) : Takes s' := by
  cases h with
  | enter c ht | gaveUp ht hfree hret | leave ht =>
    exact htakes.stage (fun _ => rfl) rfl (by simp [ht])
  | @lock t _ _ _ ht hfree hloop =>
    have hsame : (lockMutex s t).stage = Function.update s.stage t (s.stage t) :=
      (update_eq_self _ _).symm
    exact hloop.takes (htakes.stage (fun _ => rfl) hsame (by simp [ht])) (by simp [lockMutex, ht])
  | take ht hsem => exact htakes.take ht hsem
  | back ht hsem => exact htakes.back ht hsem
  | @relock t _ _ _ _ ht hfree hret hloop =>
    have hsame : s.stage = Function.update s.stage t (s.stage t) :=
      (update_eq_self _ _).symm
    exact hloop.takes (htakes.stage (fun _ => rfl) hsame (by simp [ht]))
      (by simp [setNwait, lockMutex, ht])
  | unlock ht hfree hbody =>
    cases hbody with
    | plain hw hr => exact htakes.stage (fun _ => rfl) rfl (by simp [ht])
    | signal hw hzero =>
      exact htakes.stage (taking_setCond (Semaphore.release_result _ 0).taking) rfl (by simp [ht])
    | broadcast hw hr hb => exact htakes.stage (taking_setCond hb.taking) rfl (by simp [ht])
  | @timeout t side wait sem ret ht hsem =>
    intro side' u hu
    rw [taking_setCond hsem.taking] at hu
    exact htakes side' u hu

/-! ## What the turn needs -/

theorem Served.of_writer (h : Served s .writer) (hw : 0 < s.nwait .writer) : Served s (turn s) := by
  rw [turn, if_pos hw]
  exact h

theorem Served.of_reader (h : Served s .reader) (hw : ¬ 0 < s.nwait .writer) :
    Served s (turn s) := by
  rw [turn, if_neg hw]
  exact h

theorem Served.writer (h : Served s (turn s)) (hw : 0 < s.nwait .writer) : Served s .writer := by
  rwa [turn, if_pos hw] at h

/-- Only a reader goes on waiting for a free lock, and then a writer waits too. -/
theorem Loop.served (h : Loop s t side wait s') (hzero : s'.refcount = 0)
    (hserved : side = .reader → s.refcount = 0 → 0 < s.nwait .writer → Served s .writer)
    (ht : side = .reader → ¬ Through s .writer t) : Served s' (turn s') := by
  cases side with
  | writer =>
    cases h with
    | refuse hmust hwait | join hmust hwait =>
      simp [mustWait, show s.refcount = 0 from hzero] at hmust
    | acquire hmust hn =>
      simp only [acquired, Option.some.injEq] at hn
      subst hn
      cases hzero
  | reader =>
    cases h with
    | refuse hmust hwait | join hmust hwait =>
      have hrefcount : s.refcount = 0 := hzero
      have hw : 0 < s.nwait .writer := by simpa [mustWait, hrefcount] using hmust
      refine Served.of_writer ?_ hw
      exact (hserved rfl hrefcount hw).stage rfl rfl (ht rfl) (by simp)
    | @acquire n hmust hn =>
      have hnonneg : 0 ≤ s.refcount := by
        simp only [mustWait, decide_eq_false_iff_not, not_or, not_lt] at hmust
        exact hmust.1
      simp only [acquired, increment, Option.ite_none_right_eq_some, Option.some.injEq] at hn
      have hn0 : n = 0 := hzero
      omega

/-- The unlock that makes the lock free wakes the side whose turn it is. -/
theorem Unlock.served (h : Unlock s t s') (hzero : s'.refcount = 0)
    (hv : ∀ side, Semaphore.Valid (s.cond side)) (hcounts : Counts s) (htakes : Takes s)
    (ht : s.stage t = .unlocking) : Served s' (turn s') := by
  cases h with
  | plain hw hr =>
    have hw : ¬ 0 < s.nwait .writer := fun hpos => hw hpos hzero
    refine Served.of_reader ?_ hw
    obtain ⟨n, hn, hcount⟩ := hcounts .reader
    have hnone : n = 0 := by
      omega
    subst hnone
    rintro ⟨u, hu⟩
    have hu := hu.waits
    have hut : u ≠ t := by
      rintro rfl
      rw [Waits, setStage_self] at hu
      cases hu
    rw [Waits, setStage_ne _ _ hut] at hu
    exact absurd (hcount.pos hu) (Nat.lt_irrefl 0)
  | signal hw hfree =>
    exact (served_signal (hv .writer) htakes ht).of_writer hw
  | broadcast hw hr hb =>
    refine Served.of_reader (fun _ => .inl ?_) hw
    have hvalue := hb.value
    simp only [setStage, setCond, update_self]
    omega

/-- A write lock call gives up: either another writer waits, or the readers are served. -/
theorem Watch.gaveUp (h : Watch s) {result : RtErr} (ht : s.stage t = .taken side wait result)
    (hret : Cond.waitResult wait.ticks result ≠ .ok) (hpass : TurnPasses s (.proceed t))
    (hzero : s.refcount = 0) {stage : Stage} (hnew : ∀ side, stage.waits side = false) :
    Served (setStage (setNwait (lockMutex s t) side (s.nwait side - 1)) t stage)
      (turn (setStage (setNwait (lockMutex s t) side (s.nwait side - 1)) t stage)) := by
  have hthrough : ∀ side', ¬ Through s side' t := by
    rintro side' (⟨⟨wait', hw⟩, -⟩ | ⟨wait', hw⟩)
    · rw [ht] at hw
      cases hw
    · rw [ht] at hw
      cases hw
      exact hret rfl
  have hgo : ∀ side', Served s side' →
      Served (setStage (setNwait (lockMutex s t) side (s.nwait side - 1)) t stage) side' := by
    intro side' hs
    refine hs.stage rfl rfl (hthrough side') fun wait' => ⟨?_, ?_⟩
    · rintro rfl
      simpa [Stage.waits] using hnew side'
    · rintro rfl
      simpa [Stage.waits] using hnew side'
  have hserved := h.served hzero
  cases side with
  | reader => exact hgo _ hserved
  | writer =>
    obtain ⟨n, hn, hcount⟩ := h.core.counts .writer
    have hpos := hcount.pos (a := t) (by simp [Waits, ht, Stage.waits])
    have hnwait : (setStage (setNwait (lockMutex s t) .writer (s.nwait .writer - 1)) t stage).nwait
        .writer = n - 1 := by
      simp [setStage, setNwait, hn]
    by_cases hlast : n = 1
    · refine (hgo _ (hpass ?_)).of_reader (by omega)
      simp [lastWriterGivesUp, ht, hret, hzero, hn, hlast]
    · exact (hgo _ (hserved.writer (by omega))).of_writer (by omega)

/-- A step on the semaphore of a side keeps what both sides need. -/
theorem Served.both {stage : Stage}
    (hside : Served s side → Served (setStage (setCond s side sem) t stage) side)
    (hold : ∀ side', side' ≠ side → (s.stage t).waits side' = false)
    (hnew : ∀ side', side' ≠ side → stage.waits side' = false)
    (h : s.refcount = 0 → Served s (turn s)) (hzero : s.refcount = 0) :
    Served (setStage (setCond s side sem) t stage) (turn (setStage (setCond s side sem) t stage)) := by
  have hserved := h hzero
  have hturn : turn (setStage (setCond s side sem) t stage) = turn s := rfl
  rw [hturn]
  by_cases hne : turn s = side
  · rw [hne] at hserved ⊢
    exact hside hserved
  · exact hserved.other hne (hold _ hne) (hnew _ hne)

theorem Result.served (h : Result s op s') (hw : Watch s) (hpass : TurnPasses s op)
    (hzero : s'.refcount = 0) : Served s' (turn s') := by
  cases h with
  | @enter t c ht =>
    refine Served.stage (t := t) (hw.served hzero) rfl rfl (by simp [Through, ht]) fun wait => ?_
    cases c <;> simp [Call.stage]
  | lock ht hfree hloop =>
    refine hloop.served hzero (fun _ hrefcount hpos => ?_) fun _ => by simp [Through, lockMutex, ht]
    exact (hw.served hrefcount).writer hpos
  | @take t side wait time sem ret ht hsem =>
    refine Served.both (fun hs => hs.take ht hsem) (fun side' hne => ?_) (fun side' hne => ?_)
      hw.served hzero
    · simpa [ht, Stage.waits] using hne
    · rw [after_waits]
      simpa using hne
  | @back t side wait sem err ht hsem =>
    refine Served.both (fun hs => hs.back ht hsem) (fun side' hne => ?_) (fun side' hne => ?_)
      hw.served hzero
    · simpa [ht, Stage.waits] using hne
    · simpa [Stage.waits] using hne
  | @relock t side wait result s' ht hfree hret hloop =>
    refine hloop.served hzero (fun hside hrefcount hpos => ?_) fun hside => ?_
    · subst hside
      exact (hw.served hrefcount).writer hpos
    · subst hside
      simp [Through, setNwait, lockMutex, ht]
  | gaveUp ht hfree hret => exact hw.gaveUp ht hret hpass hzero fun side' => rfl
  | unlock ht hfree hbody =>
    exact hbody.served hzero hw.core.valid hw.core.counts hw.takes ht
  | @leave t err ht =>
    exact Served.stage (t := t) (hw.served hzero) rfl rfl (by simp [Through, ht]) (by simp)
  | @timeout t side wait sem ret ht hsem =>
    have hsame : setCond s side sem = setStage (setCond s side sem) t (s.stage t) := by
      simp [setStage, setCond]
    have hno : ∀ side', side' ≠ side → (s.stage t).waits side' = false := by
      intro side' hne
      simpa [ht, Stage.waits] using hne
    rw [hsame]
    refine Served.both (fun hs => ?_) hno hno hw.served hzero
    rw [← hsame]
    exact hs.timeout (hw.core.valid side) hsem

/-- A thread that waits has to be woken, or has been resumed. -/
theorem Waits.needs_or_resumed (h : Waits s side t) : Needs s side t ∨ Resumed s side t := by
  cases hstage : s.stage t with
  | released side' wait =>
    have hside : side = side' := by simpa [Waits, hstage, Stage.waits] using h
    subst hside
    exact .inl (.inl ⟨wait, hstage⟩)
  | taking side' wait =>
    have hside : side = side' := by simpa [Waits, hstage, Stage.waits] using h
    subst hside
    by_cases hsus : Suspended (s.cond side) t
    · exact .inl (.inr ⟨⟨wait, hstage⟩, hsus⟩)
    · exact .inr (.inl ⟨⟨wait, hstage⟩, hsus⟩)
  | taken side' wait result =>
    have hside : side = side' := by simpa [Waits, hstage, Stage.waits] using h
    subst hside
    exact .inr (.inr ⟨wait, result, hstage⟩)
  | _ => simp [Waits, hstage, Stage.waits] at h

theorem Through.onTheWay (h : Through s side t) : OnTheWay s := by
  obtain ⟨⟨wait, hw⟩, hnot, -⟩ | ⟨wait, hw⟩ := h
  · exact ⟨side, t, by simp [Waits, hw, Stage.waits], .inr (.inl ⟨⟨wait, hw⟩, hnot⟩)⟩
  · exact ⟨side, t, by simp [Waits, hw, Stage.waits], .inr (.inr ⟨wait, _, hw⟩)⟩

theorem Served.onTheWay (h : Served s side) (ht : Waits s side t) : OnTheWay s := by
  obtain hneeds | hresumed := ht.needs_or_resumed
  · obtain hpos | ⟨u, hu⟩ := h ⟨t, hneeds⟩
    · exact ⟨side, t, ht, .inl hpos⟩
    · exact hu.onTheWay
  · exact ⟨side, t, ht, .inr hresumed⟩

theorem Watch.notStranded (h : Watch s) : NotStranded s := by
  rintro hzero ⟨t, side, hsus⟩
  have hserved := h.served hzero
  obtain ⟨wait, ht⟩ := h.takes side t ((h.core.valid side).taking hsus)
  have hwaits : Waits s side t := by simp [Waits, ht, Stage.waits]
  by_cases hw : 0 < s.nwait .writer
  · obtain ⟨n, hn, hcount⟩ := h.core.counts .writer
    obtain ⟨u, hu⟩ := hcount.exists (by omega)
    exact (hserved.writer hw).onTheWay hu
  · rw [turn, if_neg hw] at hserved
    cases side with
    | reader => exact hserved.onTheWay hwaits
    | writer =>
      obtain ⟨n, hn, hcount⟩ := h.core.counts .writer
      have hpos := hcount.pos hwaits
      omega

theorem step_watch (h : Watch s) (hpass : TurnPasses s op) (hs : step s op = some s') : Watch s' := by
  obtain ⟨owner, ho⟩ := h.core.owned
  have hres := step_result ho h.core.valid hs
  exact ⟨hres.core h.core, hres.takes h.takes, hres.served h hpass⟩

end steps

theorem watch_init (priority : ThreadId → Nat) : Watch (pthreadRwlockInit priority) where
  core := core_init priority
  takes := fun _ _ h => Bool.noConfusion h
  served := by
    rintro - ⟨t, ⟨wait, hw⟩ | ⟨⟨wait, hw⟩, -⟩⟩
    · cases hw
    · cases hw

/-- In every run in which the last waiting writer of a free lock gives up only when the readers
have a wake-up on the way or need none, a free lock with blocked threads always has one. -/
theorem rwlock_not_stranded (priority : ThreadId → Nat) (ops : List Op)
    (hok : Runs.Along step TurnPasses (pthreadRwlockInit priority) ops) :
    Runs.Always step NotStranded (pthreadRwlockInit priority) ops :=
  hok.always (fun _ _ _ h hpass hs => step_watch h hpass hs) (fun _ h => h.notStranded)
    (watch_init priority)

/-- A reader holds the lock, a writer waits for ten ticks and a reader behind it. The writer gives up
before the lock is released, and the reader is woken. -/
def givesUpEarly : List Op :=
  [.enter 1 pthreadRwlockRdlock, .proceed 1, .proceed 1,
    .enter 2 (pthreadRwlockTimedwrlock 10), .proceed 2, .proceed 2,
    .enter 3 pthreadRwlockRdlock, .proceed 3, .proceed 3,
    .timeout 2, .proceed 2, .proceed 2, .proceed 2,
    .enter 1 pthreadRwlockUnlock, .proceed 1, .proceed 1, .proceed 3, .proceed 3]

theorem rwlock_not_stranded_early :
    Runs.Always step NotStranded (pthreadRwlockInit fun _ => 20) givesUpEarly ∧
      (Runs.run step (pthreadRwlockInit fun _ => 20) givesUpEarly).map (fun s => s.refcount) =
        some 1 := by
  have hno : Runs.Along step (fun s op => lastWriterGivesUp s op = false)
      (pthreadRwlockInit fun _ => 20) givesUpEarly := by decide +kernel
  refine ⟨rwlock_not_stranded (fun _ => 20) givesUpEarly (hno.mono fun s op hfalse htrue => ?_), ?_⟩
  · rw [hfalse] at htrue
    cases htrue
  · decide +kernel

/-- The same threads; the lock is released after the time of the writer has run out, and before
the writer has gone on. -/
def givesUpLate : List Op :=
  [.enter 1 pthreadRwlockRdlock, .proceed 1, .proceed 1,
    .enter 2 (pthreadRwlockTimedwrlock 10), .proceed 2, .proceed 2,
    .enter 3 pthreadRwlockRdlock, .proceed 3, .proceed 3,
    .timeout 2, .enter 1 pthreadRwlockUnlock, .proceed 1, .proceed 1,
    .proceed 2, .proceed 2, .proceed 2]

/-- A thread that takes no step stays outside. -/
theorem stage_outside {s s' : State} {ops : List Op} {t : ThreadId} (hc : Core s)
    (hrun : Runs.run step s ops = some s') (ht : ∀ op ∈ ops, t ≠ op.thread) :
    s'.stage t = s.stage t := by
  induction ops generalizing s with
  | nil =>
    cases hrun
    rfl
  | cons op ops ih =>
    obtain ⟨s₁, hs, hrun⟩ := Runs.run_cons_some.mp hrun
    obtain ⟨owner, ho⟩ := hc.owned
    have hres := step_result ho hc.valid hs
    rw [ih (hres.core hc) hrun fun op' h => ht op' (List.mem_cons_of_mem op h)]
    exact hres.other (ht op List.mem_cons_self)

/-- The reader stays blocked on a free lock, and nobody is going to wake it. -/
theorem reader_left_behind : ∃ s,
    Runs.run step (pthreadRwlockInit fun _ => 20) givesUpLate = some s ∧ s.refcount = 0 ∧
      Blocked s 3 ∧ ¬ OnTheWay s := by
  have hlast : (Runs.run step (pthreadRwlockInit fun _ => 20) givesUpLate).map (fun s =>
      (s.refcount, (s.stage 1, s.stage 2, s.stage 3), decide (Suspended (s.cond .reader) 3),
        (s.cond .reader).value)) =
      some (0, (.outside, .outside, .taking .reader .forever), true, 0) := by decide +kernel
  obtain ⟨s, hrun, hs⟩ := Option.map_eq_some_iff.mp hlast
  simp only [Prod.mk.injEq, decide_eq_true_eq] at hs
  obtain ⟨hzero, ⟨hone, htwo, hthree⟩, hsus, hvalue⟩ := hs
  refine ⟨s, hrun, hzero, ⟨.reader, hsus⟩, ?_⟩
  rintro ⟨side, t, hwaits, hway⟩
  have hthread : t = 3 := by
    by_contra hne
    have hout : s.stage t = .outside := by
      by_cases h1 : t = 1
      · rw [h1, hone]
      · by_cases h2 : t = 2
        · rw [h2, htwo]
        · exact stage_outside (core_init _) hrun (by simp [givesUpLate, Op.thread, h1, h2, hne])
    simp [Waits, hout, Stage.waits] at hwaits
  subst hthread
  have hside : side = .reader := by simpa [Waits, hthree, Stage.waits] using hwaits
  subst hside
  obtain hpos | ⟨-, hnot⟩ | ⟨wait, result, htaken⟩ := hway
  · omega
  · exact hnot hsus
  · rw [hthree] at htaken
    cases htaken

end RtThread.RwLock
