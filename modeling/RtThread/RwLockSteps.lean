import RtThread.RwLock

/-!
# Steps of a read-write lock

What each step does, once `rw_mutex` is known to belong to the thread that leaves a function
and to nobody else.
-/
namespace RtThread.RwLock

open Ipc (ThreadId)
open Cond (Errno)

def Stage.isLeaving : Stage → Bool
  | .leaving _ => true
  | _ => false

/-- `rw_mutex` belongs to the thread that is about to leave, if there is one. -/
structure Owned (s : State) (owner : Option ThreadId) : Prop where
  mutex : s.mutex = ⟨.normal, owner.map fun t => (t, 1)⟩
  leaving : ∀ t, (s.stage t).isLeaving = true ↔ owner = some t

/-- The thread has taken `rw_mutex`. -/
def lockMutex (s : State) (t : ThreadId) : State := { s with mutex := ⟨.normal, some (t, 1)⟩ }

/-- Nobody has it. -/
def freeMutex (s : State) : State := { s with mutex := ⟨.normal, none⟩ }

inductive Loop (s : State) (t : ThreadId) (side : Side) (wait : Wait) : State → Prop
  | refuse (hmust : mustWait s side = true) (hwait : wait = .trial) :
    Loop s t side wait (setStage s t (.leaving .ebusy))
  | join (hmust : mustWait s side = true) (hwait : wait ≠ .trial) :
    Loop s t side wait
      (setStage (setNwait (freeMutex s) side (s.nwait side + 1)) t (.released side wait))
  | acquire {n : Int} (hmust : mustWait s side = false) (hn : acquired s.refcount side = some n) :
    Loop s t side wait (setStage { s with refcount := n } t (.leaving .ok))

inductive Unlock (s : State) (t : ThreadId) : State → Prop
  | plain (hw : 0 < s.nwait .writer → s.refcount ≠ 0)
      (hr : ¬ 0 < s.nwait .writer → ¬ 0 < s.nwait .reader) :
    Unlock s t (setStage s t (.leaving .ok))
  | signal (hw : 0 < s.nwait .writer) (hfree : s.refcount = 0) :
    Unlock s t
      (setStage (setCond s .writer (Semaphore.rtSemRelease (s.cond .writer)).1) t (.leaving .ok))
  | broadcast {sem : Semaphore.State} (hw : ¬ 0 < s.nwait .writer) (hr : 0 < s.nwait .reader)
      (hb : Cond.Broadcast (s.cond .reader) sem) :
    Unlock s t (setStage (setCond s .reader sem) t (.leaving .ok))

/-- Nobody is about to leave, so `rw_mutex` can be taken. -/
def Free (s : State) : Prop := ∀ u, (s.stage u).isLeaving = false

inductive Result (s : State) : Op → State → Prop
  | enter {t : ThreadId} (c : Call) (ht : s.stage t = .outside) :
    Result s (.enter t c) (setStage s t c.stage)
  | lock {t : ThreadId} {side : Side} {wait : Wait} {s' : State}
      (ht : s.stage t = .locking side wait) (hfree : Free s)
      (hloop : Loop (lockMutex s t) t side wait s') : Result s (.proceed t) s'
  | take {t : ThreadId} {side : Side} {wait : Wait} {time : BitVec 32} {sem : Semaphore.State}
      {ret : Option RtErr} (ht : s.stage t = .released side wait)
      (hsem : Semaphore.Result (s.cond side) (.take t time) sem ret) :
    Result s (.proceed t) (setStage (setCond s side sem) t (.after side wait ret))
  | back {t : ThreadId} {side : Side} {wait : Wait} {sem : Semaphore.State} {err : RtErr}
      (ht : s.stage t = .taking side wait)
      (hsem : Semaphore.Result (s.cond side) (.takeReturn t) sem (some err)) :
    Result s (.proceed t) (setStage (setCond s side sem) t (.taken side wait err))
  | relock {t : ThreadId} {side : Side} {wait : Wait} {result : RtErr} {s' : State}
      (ht : s.stage t = .taken side wait result) (hfree : Free s)
      (hret : Cond.waitResult wait.ticks result = .ok)
      (hloop : Loop (setNwait (lockMutex s t) side (s.nwait side - 1)) t side wait s') :
    Result s (.proceed t) s'
  | gaveUp {t : ThreadId} {side : Side} {wait : Wait} {result : RtErr}
      (ht : s.stage t = .taken side wait result) (hfree : Free s)
      (hret : Cond.waitResult wait.ticks result ≠ .ok) :
    Result s (.proceed t) (setStage (setNwait (lockMutex s t) side (s.nwait side - 1)) t
      (.leaving (Cond.waitResult wait.ticks result)))
  | unlock {t : ThreadId} {s' : State} (ht : s.stage t = .unlocking) (hfree : Free s)
      (hbody : Unlock { lockMutex s t with refcount := released s.refcount } t s') :
    Result s (.proceed t) s'
  | leave {t : ThreadId} {err : Errno} (ht : s.stage t = .leaving err) :
    Result s (.proceed t) (setStage (freeMutex s) t .outside)
  | timeout {t : ThreadId} {side : Side} {wait : Wait} {sem : Semaphore.State}
      {ret : Option RtErr} (ht : s.stage t = .taking side wait)
      (hsem : Semaphore.Result (s.cond side) (.timeout t) sem ret) :
    Result s (.timeout t) (setCond s side sem)

section result

variable {s s' : State} {t : ThreadId} {side : Side} {wait : Wait} {owner : Option ThreadId}

theorem Owned.lock (ho : Owned s owner) (ht : (s.stage t).isLeaving = false)
    {r : Cond.PthreadMutex × Errno} (h : Cond.pthreadMutexLock s.mutex t = some r) :
    Free s ∧ r = (⟨.normal, some (t, 1)⟩, .ok) := by
  cases owner with
  | none =>
    rw [ho.mutex] at h
    cases h
    refine ⟨fun u => ?_, rfl⟩
    rw [Bool.eq_false_iff]
    intro hu
    cases (ho.leaving u).mp hu
  | some v =>
    have hvt : v ≠ t := by
      rintro rfl
      rw [(ho.leaving v).mpr rfl] at ht
      cases ht
    rw [ho.mutex, Cond.pthreadMutexLock] at h
    simp [hvt] at h

theorem lockLoop_result (hm : s.mutex = ⟨.normal, some (t, 1)⟩)
    (h : lockLoop s t side wait = some s') : Loop s t side wait s' := by
  rw [lockLoop] at h
  split at h
  · rename_i hmust
    split at h
    · rename_i hwait
      cases h
      exact .refuse hmust hwait
    · rename_i hwait
      obtain ⟨n, hn, heq⟩ := Option.map_eq_some_iff.mp h
      rw [increment, Option.ite_none_right_eq_some] at hn
      obtain ⟨-, hn⟩ := hn
      cases hn
      have hrel : Cond.condRelease s.mutex t = some ⟨.normal, none⟩ := by
        rw [hm]
        simp [Cond.condRelease, Cond.pthreadMutexUnlock]
      rw [hrel] at heq
      cases heq
      exact .join hmust hwait
  · rename_i hmust
    obtain ⟨n, hn, heq⟩ := Option.map_eq_some_iff.mp h
    cases heq
    exact .acquire (Bool.eq_false_iff.mpr hmust) hn

theorem unlockBody_result (hv : Semaphore.Valid (s.cond .reader)) (h : unlockBody s t = some s') :
    Unlock { s with refcount := released s.refcount } t s' := by
  rw [unlockBody] at h
  split at h
  · rename_i hw
    split at h
    · rename_i hfree
      cases h
      exact .signal hw hfree
    · rename_i hfree
      cases h
      exact .plain (fun _ => hfree) (fun hnot => absurd hw hnot)
  · rename_i hw
    split at h
    · rename_i hr
      obtain ⟨sem, hrun, hb⟩ := Cond.broadcast_spec hv t
      simp only [hrun, Option.map_some, Option.some.injEq] at h
      subst h
      exact .broadcast hw hr hb
    · rename_i hr
      cases h
      exact .plain (fun hpos => absurd hpos hw) (fun _ => hr)

theorem step_result (ho : Owned s owner) (hv : ∀ side, Semaphore.Valid (s.cond side)) {op : Op}
    (h : step s op = some s') : Result s op s' := by
  obtain ⟨⟨s', ret⟩, hcall, rfl⟩ := Option.map_eq_some_iff.mp h
  cases op with
  | enter t c =>
    obtain ⟨ht, hcall⟩ := Option.ite_none_right_eq_some.mp hcall
    cases hcall
    exact .enter c ht
  | proceed t =>
    have hcall : proceed s t = some (s', ret) := hcall
    cases ht : s.stage t with
    | outside =>
      rw [proceed, ht] at hcall
      cases hcall
    | locking side wait =>
      rw [proceed, ht] at hcall
      cases hlock : Cond.pthreadMutexLock s.mutex t with
      | none => simp [withMutex, hlock] at hcall
      | some r =>
        obtain ⟨hfree, rfl⟩ := ho.lock (by rw [ht]; rfl) hlock
        simp only [withMutex, hlock, Option.map_eq_some_iff] at hcall
        obtain ⟨s₁, hbody, heq⟩ := hcall
        cases heq
        exact .lock ht hfree (lockLoop_result rfl hbody)
    | unlocking =>
      rw [proceed, ht] at hcall
      cases hlock : Cond.pthreadMutexLock s.mutex t with
      | none => simp [withMutex, hlock] at hcall
      | some r =>
        obtain ⟨hfree, rfl⟩ := ho.lock (by rw [ht]; rfl) hlock
        simp only [withMutex, hlock, Option.map_eq_some_iff] at hcall
        obtain ⟨s₁, hbody, heq⟩ := hcall
        cases heq
        exact .unlock ht hfree (unlockBody_result (s := lockMutex s t) (hv .reader) hbody)
    | released side wait =>
      rw [proceed, ht] at hcall
      obtain ⟨⟨sem, r⟩, hsem, heq⟩ := Option.map_eq_some_iff.mp hcall
      cases heq
      exact .take ht (Semaphore.call_result hsem)
    | taking side wait =>
      rw [proceed, ht] at hcall
      obtain ⟨⟨sem, r⟩, hsem, heq⟩ := Option.map_eq_some_iff.mp hcall
      cases heq
      have hres := Semaphore.call_result hsem
      cases r with
      | none => exact nomatch hres
      | some err => exact .back ht hres
    | taken side wait result =>
      rw [proceed, ht] at hcall
      obtain ⟨s₁, hend, heq⟩ := Option.map_eq_some_iff.mp hcall
      cases heq
      obtain ⟨r, hlock, hend⟩ := Option.bind_eq_some_iff.mp hend
      obtain ⟨hfree, rfl⟩ := ho.lock (by rw [ht]; rfl) hlock
      cases hret : Cond.waitResult wait.ticks result with
      | ok =>
        simp only [hret] at hend
        exact .relock ht hfree hret (lockLoop_result rfl hend)
      | _ =>
        simp only [hret, Option.some.injEq] at hend
        subst hend
        have := Result.gaveUp ht hfree (by rw [hret]; simp)
        rwa [hret] at this
    | leaving err =>
      rw [proceed, ht] at hcall
      have howner : owner = some t := (ho.leaving t).mp (by rw [ht]; rfl)
      have hm : (Cond.pthreadMutexUnlock s.mutex t).1 = ⟨.normal, none⟩ := by
        rw [ho.mutex, howner]
        simp [Cond.pthreadMutexUnlock]
      rw [hm] at hcall
      cases hcall
      exact .leave ht
  | timeout t =>
    cases ht : s.stage t with
    | taking side wait =>
      simp only [call, ht, Option.map_eq_some_iff] at hcall
      obtain ⟨⟨sem, r⟩, hsem, heq⟩ := hcall
      cases heq
      exact .timeout ht (Semaphore.call_result hsem)
    | _ => simp [call, ht] at hcall

end result

end RtThread.RwLock
