import RtThread.CondWake

/-!
# Threads that a broadcast is to reach

A broadcast resumes the threads that are suspended on the semaphore and leaves one token, or
the tokens that are there. The threads that have released the mutex and have not come to
`rt_sem_take` yet have to share these tokens, among them and with the threads that begin to
wait later.
-/
namespace RtThread.Cond

open Ipc (ThreadId)
open Semaphore (Suspended Valid)
open Counting

/-- The thread has released the mutex and has not returned from `rt_sem_take`. -/
def Stage.inWait : Stage → Bool
  | .released _ => true
  | .taking _ => true
  | _ => false

/-- The thread has released the mutex and has not come to `rt_sem_take`. -/
def Stage.isReleased : Stage → Bool
  | .released _ => true
  | _ => false

def Op.isBroadcast : Op → Bool
  | .broadcast _ => true
  | _ => false

/-- A condition variable with the threads that have been in a wait at a broadcast and have not
returned from `rt_sem_take` since. -/
structure Traced where
  state : State
  owed : ThreadId → Bool

def start (type : MutexType) (priority : ThreadId → Nat) : Traced :=
  ⟨init type priority, fun _ => false⟩

def tracedStep (x : Traced) (op : Op) : Option Traced :=
  (step x.state op).map fun s' =>
    ⟨s', fun t => (op.isBroadcast || x.owed t) && (s'.stage t).inWait⟩

/-- No thread that a broadcast was to reach is blocked. -/
def NoneLeft (x : Traced) : Prop := ∀ t, x.owed t = true → ¬ Suspended x.state.sem t

/-- The thread needs a token. -/
def Needs (x : Traced) (t : ThreadId) : Prop :=
  x.owed t = true ∧ (x.state.stage t).isReleased = true

/-- A broadcast leaves a token for each thread that is before `rt_sem_take`, and a thread that
began to wait later takes no token that these need. -/
def Enough (x : Traced) : Op → Prop
  | .broadcast _ =>
    ¬ AtLeast (max x.state.sem.value 1 + 1) fun t => (x.state.stage t).isReleased = true
  | .proceed t =>
    (x.state.stage t).isReleased = true → x.owed t = false → 0 < x.state.sem.value →
      ¬ AtLeast x.state.sem.value (Needs x)
  | _ => True

structure Inv (x : Traced) : Prop where
  valid : Valid x.state.sem
  inside : ∀ t, x.owed t = true → (x.state.stage t).inWait = true
  free : NoneLeft x
  tokens : ¬ AtLeast (x.state.sem.value + 1) (Needs x)

theorem inv_start (type : MutexType) (priority : ThreadId → Nat) : Inv (start type priority) where
  valid := Semaphore.valid_init .fifo (Nat.zero_le _) priority
  inside := fun _ ht => Bool.noConfusion ht
  free := fun _ ht => Bool.noConfusion ht
  tokens := by
    intro h
    obtain ⟨t, ht⟩ := h.exists (Nat.succ_pos _)
    exact Bool.noConfusion ht.1

variable {op : Op} {x' : Traced} {ids : List ThreadId}

section steps

variable {x : Traced} {s' : State} {sem' : Semaphore.State} {t : ThreadId}

/-- The threads that are owed a wake-up after a step that is not a broadcast. -/
def keep (x : Traced) (s' : State) : Traced :=
  ⟨s', fun t => x.owed t && (s'.stage t).inWait⟩

variable {u : ThreadId} {ret : Option RtErr}

theorem keep_owed (h : (keep x s').owed u = true) : x.owed u = true ∧ (s'.stage u).inWait = true :=
  Bool.and_eq_true_iff.mp h

/-- The threads that are owed a wake-up stay where they are or leave, and no token is lost. -/
theorem Inv.quiet (hi : Inv x)
    (hstage : ∀ u, x.owed u = true → (s'.stage u).inWait = true → s'.stage u = x.state.stage u)
    (hvalid : Valid s'.sem)
    (hsus : ∀ u, x.owed u = true → Suspended s'.sem u → Suspended x.state.sem u)
    (hvalue : x.state.sem.value ≤ s'.sem.value) : Inv (keep x s') := by
  refine ⟨hvalid, fun u hu => (keep_owed hu).2, fun u hu hs => ?_, fun hmany => hi.tokens ?_⟩
  · have howed := (keep_owed hu).1
    exact hi.free u howed (hsus u howed hs)
  · refine (hmany.le (Nat.succ_le_succ hvalue)).mono fun u hu => ?_
    obtain ⟨howed, hin⟩ := keep_owed hu.1
    have hrel : (s'.stage u).isReleased = true := hu.2
    rw [hstage u howed hin] at hrel
    exact ⟨howed, hrel⟩

/-- The same for a step on the semaphore that takes no token. -/
theorem Inv.sem (hi : Inv x) {op : Semaphore.Op}
    (hstage : ∀ u, x.owed u = true → (s'.stage u).inWait = true → s'.stage u = x.state.stage u)
    (hres : Semaphore.Result x.state.sem op s'.sem ret)
    (hop : ∀ t, op ≠ .trytake t ∧ ∀ time, op ≠ .take t time) : Inv (keep x s') := by
  refine hi.quiet hstage (hi.valid.result hres) (fun u _ hu => ?_) (hres.value_le hop)
  obtain hs | ⟨⟨time, htake⟩, -⟩ := hres.suspended hi.valid hu
  · exact hs
  · exact absurd htake ((hop u).2 time)

theorem setStage_ne (s : State) (stage : Stage) (h : u ≠ t) :
    (setStage s t stage).stage u = s.stage u :=
  Function.update_of_ne h _ _

theorem setStage_self (s : State) (t : ThreadId) (stage : Stage) :
    (setStage s t stage).stage t = stage :=
  Function.update_self _ _ _

/-- A thread comes to `rt_sem_take`. -/
theorem Inv.take (hi : Inv x) {ticks : Option (BitVec 32)} {time : BitVec 32}
    (ht : x.state.stage t = .released ticks)
    (hres : Semaphore.Result x.state.sem (.take t time) sem' ret)
    (henough : Enough x (.proceed t)) :
    Inv (keep x (setStage { x.state with sem := sem' } t (.after ticks ret))) := by
  have hrel : (x.state.stage t).isReleased = true := by rw [ht]; rfl
  have hsame : ∀ u, u ≠ t →
      (setStage { x.state with sem := sem' } t (.after ticks ret)).stage u = x.state.stage u :=
    fun u hut => setStage_ne _ _ hut
  have hself := setStage_self { x.state with sem := sem' } t (.after ticks ret)
  have hvalid := hi.valid.result hres
  cases hres with
  | @taken t' _ hop hpos =>
    have hvalue : wsub 16 x.state.sem.value 1 = x.state.sem.value - 1 :=
      wsub_eq (by omega) hi.valid.lt
    rw [hvalue] at hvalid hsame hself ⊢
    have hleft : ¬ AtLeast x.state.sem.value fun u => Needs x u ∧ u ≠ t := by
      intro hmany
      cases howed : x.owed t with
      | false => exact henough hrel howed hpos (hmany.mono fun u hu => hu.1)
      | true =>
        refine hi.tokens (hmany.succ (fun u hu => hu.1) (a := t) (fun hu => hu.2 rfl) ?_)
        exact ⟨howed, hrel⟩
    refine ⟨hvalid, fun u hu => (keep_owed hu).2, fun u hu => hi.free u (keep_owed hu).1,
      fun hmany => hleft ?_⟩
    have hmany : AtLeast (x.state.sem.value - 1 + 1) _ := hmany
    rw [Nat.sub_add_cancel hpos] at hmany
    refine hmany.mono fun u hu => ?_
    have hut : u ≠ t := by
      rintro rfl
      have hin := (keep_owed hu.1).2
      rw [hself] at hin
      cases hin
    have hstage := congrArg Stage.isReleased (hsame u hut)
    exact ⟨⟨(keep_owed hu.1).1, hstage.symm.trans hu.2⟩, hut⟩
  | refused hop hzero =>
    refine hi.quiet (fun u _ hin => ?_) hvalid (fun u _ hu => hu) (Nat.le_refl _)
    have hut : u ≠ t := by
      rintro rfl
      rw [hself] at hin
      cases hin
    exact hsame u hut
  | @wait t' time w hact hzero hw =>
    have hnot : ∀ u, x.owed u = true → u ≠ t := by
      rintro u howed rfl
      refine hi.tokens ?_
      rw [hzero]
      exact (atLeast_zero fun _ => False).succ (fun _ h => h.elim) id ⟨howed, hrel⟩
    refine hi.quiet (fun u howed _ => hsame u (hnot u howed)) hvalid (fun u howed hu => ?_)
      (Nat.le_refl _)
    have hresult : Semaphore.Result _ (.take _ time) _ _ := .wait hact hzero hw
    obtain hs | ⟨⟨time', hop⟩, -⟩ := hresult.suspended hi.valid hu
    · exact hs
    · cases hop
      exact absurd rfl (hnot _ howed)

/-- A broadcast wakes the suspended threads, and the tokens it leaves are enough for the others. -/
theorem inv_broadcast (hb : Broadcast x.state.sem sem')
    (henough : Enough x (.broadcast t)) :
    Inv ⟨{ x.state with sem := sem' }, fun u => (x.state.stage u).inWait⟩ := by
  refine ⟨hb.valid, fun u hu => hu, fun u _ => hb.free u, fun hmany => henough ?_⟩
  rw [hb.value] at hmany
  exact hmany.mono fun u hu => hu.2

theorem tracedStep_inv (hi : Inv x) (henough : Enough x op) (hs : tracedStep x op = some x') :
    Inv x' := by
  obtain ⟨s', hstep, rfl⟩ := Option.map_eq_some_iff.mp hs
  obtain ⟨⟨s', ret⟩, hcall, rfl⟩ := Option.map_eq_some_iff.mp hstep
  cases op with
  | lock t =>
    obtain ⟨hout, hcall⟩ := Option.ite_none_right_eq_some.mp hcall
    obtain ⟨⟨m, r⟩, -, heq⟩ := Option.map_eq_some_iff.mp hcall
    cases heq
    exact hi.quiet (fun u _ _ => rfl) hi.valid (fun u _ hu => hu) (Nat.le_refl _)
  | unlock t =>
    obtain ⟨hout, hcall⟩ := Option.ite_none_right_eq_some.mp hcall
    cases hcall
    exact hi.quiet (fun u _ _ => rfl) hi.valid (fun u _ hu => hu) (Nat.le_refl _)
  | wait t ticks =>
    obtain ⟨hout, hcall⟩ := Option.ite_none_right_eq_some.mp hcall
    have hnot : ∀ u, x.owed u = true → u ≠ t := by
      rintro u howed rfl
      have hin := hi.inside u howed
      rw [hout] at hin
      cases hin
    cases hrel : condRelease x.state.mutex t with
    | none =>
      rw [hrel] at hcall
      cases hcall
      exact hi.quiet (fun u _ _ => rfl) hi.valid (fun u _ hu => hu) (Nat.le_refl _)
    | some m =>
      rw [hrel] at hcall
      cases hcall
      exact hi.quiet (fun u howed _ => setStage_ne _ _ (hnot u howed)) hi.valid
        (fun u _ hu => hu) (Nat.le_refl _)
  | signal t =>
    obtain ⟨hout, hcall⟩ := Option.ite_none_right_eq_some.mp hcall
    cases hcall
    have hres := Semaphore.release_result x.state.sem t
    exact hi.sem (fun u _ _ => rfl) hres (by simp)
  | broadcast t =>
    obtain ⟨hout, hcall⟩ := Option.ite_none_right_eq_some.mp hcall
    obtain ⟨sem', hrun, hb⟩ := broadcast_spec hi.valid t
    rw [hrun] at hcall
    cases hcall
    exact inv_broadcast hb henough
  | proceed t =>
    have hcall : proceed x.state t = some (s', ret) := hcall
    cases hstage : x.state.stage t with
    | outside =>
      rw [proceed, hstage] at hcall
      cases hcall
    | released ticks =>
      rw [proceed, hstage] at hcall
      obtain ⟨⟨sem', r⟩, hsem, heq⟩ := Option.map_eq_some_iff.mp hcall
      cases heq
      exact hi.take hstage (Semaphore.call_result hsem) henough
    | taking ticks =>
      rw [proceed, hstage] at hcall
      obtain ⟨⟨sem', r⟩, hsem, heq⟩ := Option.map_eq_some_iff.mp hcall
      cases heq
      refine hi.sem (fun u _ hin => setStage_ne _ _ ?_) (Semaphore.call_result hsem) (by simp)
      rintro rfl
      obtain ⟨-, hret⟩ := Option.ite_none_right_eq_some.mp hsem
      cases hret
      rw [setStage_self] at hin
      cases hin
    | taken ticks result =>
      rw [proceed, hstage] at hcall
      obtain ⟨⟨m, r⟩, -, heq⟩ := Option.map_eq_some_iff.mp hcall
      cases heq
      refine hi.quiet (fun u _ hin => setStage_ne _ _ ?_) hi.valid (fun u _ hu => hu) (Nat.le_refl _)
      rintro rfl
      rw [setStage_self] at hin
      cases hin
  | timeout t =>
    obtain ⟨⟨sem', r⟩, hsem, heq⟩ := Option.map_eq_some_iff.mp hcall
    cases heq
    exact hi.sem (fun u _ _ => rfl) (Semaphore.call_result hsem) (by simp)

end steps

/-- In every run in which each broadcast leaves tokens for the threads before `rt_sem_take`, and
these are not taken by threads that began to wait later, no thread that a broadcast was to reach
is blocked afterwards. -/
theorem broadcast_reaches_all (type : MutexType) (priority : ThreadId → Nat) (ops : List Op)
    (hok : Runs.Along tracedStep Enough (start type priority) ops) :
    Runs.Always tracedStep NoneLeft (start type priority) ops :=
  hok.always (fun _ _ _ hi henough hs => tracedStep_inv hi henough hs) (fun _ hi => hi.free)
    (inv_start type priority)

/-! ## Runs of given threads -/

/-- The condition, where the threads that wait are among the given ones. -/
def EnoughAmong (ids : List ThreadId) (x : Traced) : Op → Bool
  | .wait t _ => ids.contains t
  | .broadcast _ =>
    decide (ids.countP (fun t => (x.state.stage t).isReleased) < max x.state.sem.value 1 + 1)
  | .proceed t =>
    !(x.state.stage t).isReleased || x.owed t || decide (x.state.sem.value = 0) ||
      decide (ids.countP (fun u => x.owed u && (x.state.stage u).isReleased) < x.state.sem.value)
  | _ => true

theorem released_among {x : Traced} (hi : ∀ t, (x.state.stage t).isReleased = true → t ∈ ids)
    (hok : EnoughAmong ids x op = true) (hs : tracedStep x op = some x') (t : ThreadId)
    (ht : (x'.state.stage t).isReleased = true) : t ∈ ids := by
  obtain ⟨s', hstep, rfl⟩ := Option.map_eq_some_iff.mp hs
  obtain ⟨⟨s', ret⟩, hcall, rfl⟩ := Option.map_eq_some_iff.mp hstep
  have hset : ∀ (s : State) (u : ThreadId) (stage : Stage), s.stage = x.state.stage →
      ((setStage s u stage).stage t).isReleased = true →
      (stage.isReleased = true → u ∈ ids) → t ∈ ids := by
    intro s u stage hsame hrel hu
    by_cases htu : t = u
    · subst htu
      rw [setStage_self] at hrel
      exact hu hrel
    · rw [setStage_ne s stage htu, hsame] at hrel
      exact hi t hrel
  cases op with
  | lock u =>
    obtain ⟨-, hcall⟩ := Option.ite_none_right_eq_some.mp hcall
    obtain ⟨⟨m, r⟩, -, heq⟩ := Option.map_eq_some_iff.mp hcall
    cases heq
    exact hi t ht
  | unlock | signal =>
    obtain ⟨-, hcall⟩ := Option.ite_none_right_eq_some.mp hcall
    cases hcall
    exact hi t ht
  | wait u ticks =>
    obtain ⟨-, hcall⟩ := Option.ite_none_right_eq_some.mp hcall
    have hu : u ∈ ids := by simpa [EnoughAmong] using hok
    cases hrel : condRelease x.state.mutex u with
    | none =>
      rw [hrel] at hcall
      cases hcall
      exact hi t ht
    | some m =>
      rw [hrel] at hcall
      cases hcall
      exact hset _ u _ rfl ht fun _ => hu
  | broadcast u =>
    obtain ⟨-, hcall⟩ := Option.ite_none_right_eq_some.mp hcall
    obtain ⟨⟨sem, r⟩, -, heq⟩ := Option.map_eq_some_iff.mp hcall
    cases heq
    exact hi t ht
  | proceed u =>
    have hcall : proceed x.state u = some (s', ret) := hcall
    rw [proceed] at hcall
    split at hcall
    · cases hcall
    · obtain ⟨⟨sem, r⟩, -, heq⟩ := Option.map_eq_some_iff.mp hcall
      cases heq
      exact hset _ u _ rfl ht fun hrel => by cases r <;> exact Bool.noConfusion hrel
    · obtain ⟨⟨sem, r⟩, -, heq⟩ := Option.map_eq_some_iff.mp hcall
      cases heq
      exact hset _ u _ rfl ht fun hrel => by cases r <;> exact Bool.noConfusion hrel
    · obtain ⟨⟨m, r⟩, -, heq⟩ := Option.map_eq_some_iff.mp hcall
      cases heq
      exact hset _ u _ rfl ht fun hrel => Bool.noConfusion hrel
  | timeout u =>
    obtain ⟨⟨sem, r⟩, -, heq⟩ := Option.map_eq_some_iff.mp hcall
    cases heq
    exact hi t ht

/-- Counting the given threads is enough. -/
theorem enough_of_among {type : MutexType} {priority : ThreadId → Nat} {ops : List Op}
    (hok : Runs.Along tracedStep (fun x op => EnoughAmong ids x op = true) (start type priority) ops) :
    Runs.Along tracedStep Enough (start type priority) ops := by
  refine hok.of_invariant (fun _ _ _ hi hok hs => released_among hi hok hs)
    (fun x op hi hok => ?_) (fun t ht => Bool.noConfusion ht)
  cases op with
  | broadcast t =>
    exact not_atLeast_of_countP (fun u hu => ⟨hi u hu, hu⟩) (by simpa [EnoughAmong] using hok)
  | proceed t =>
    intro hrel howed hpos
    refine not_atLeast_of_countP (b := fun u => x.owed u && (x.state.stage u).isReleased)
      (l := ids) (fun u hu => ⟨hi u hu.2, Bool.and_eq_true_iff.mpr hu⟩) ?_
    simpa [EnoughAmong, hrel, howed, Nat.ne_of_gt hpos] using hok
  | _ => trivial

/-- One thread is suspended and another is before `rt_sem_take` when a third one broadcasts. -/
def oneBefore : List Op :=
  [.lock 1, .wait 1 none, .proceed 1, .lock 2, .wait 2 (some 10), .broadcast 3, .proceed 2,
    .proceed 1, .proceed 2]

theorem broadcast_reaches_all_one :
    Runs.Always tracedStep NoneLeft (start .normal fun _ => 20) oneBefore ∧
      (Runs.run tracedStep (start .normal fun _ => 20) oneBefore).isSome = true := by
  have hamong : Runs.Along tracedStep (fun x op => EnoughAmong [1, 2] x op = true)
      (start .normal fun _ => 20) oneBefore := by
    decide +kernel
  exact ⟨broadcast_reaches_all .normal (fun _ => 20) oneBefore (enough_of_among hamong),
    by decide +kernel⟩

/-- Two threads are before `rt_sem_take` when a third one broadcasts. -/
def twoBefore : List Op :=
  [.lock 1, .wait 1 none, .lock 2, .wait 2 none, .broadcast 3, .proceed 1, .proceed 2]

/-- The second one is suspended after the broadcast, and no token is left. -/
theorem second_waiter_left : ∃ x,
    Runs.run tracedStep (start .normal fun _ => 20) twoBefore = some x ∧
      x.owed 2 = true ∧ Suspended x.state.sem 2 ∧ x.state.sem.value = 0 := by
  have hlast : ((Runs.run tracedStep (start .normal fun _ => 20) twoBefore).map fun x =>
      (x.owed 2, decide (Suspended x.state.sem 2), x.state.sem.value)) = some (true, true, 0) := by
    decide +kernel
  obtain ⟨x, hrun, hx⟩ := Option.map_eq_some_iff.mp hlast
  simp only [Prod.mk.injEq, decide_eq_true_eq] at hx
  exact ⟨x, hrun, hx.1, hx.2.1, hx.2.2⟩

end RtThread.Cond
