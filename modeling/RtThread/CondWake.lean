import RtThread.Cond

/-!
# Waking the threads of a condition variable

The semaphore of a condition variable between the calls of its functions. A signal wakes the
first suspended thread or leaves a token; a broadcast wakes them all and leaves a token too.
-/
namespace RtThread

open Ipc

namespace Semaphore

/-- A state that the functions keep, whatever the calls before. -/
def Valid (s : State) : Prop := ∃ v h, Inv v ⟨s, h⟩

/-- The thread is in the list of the semaphore. -/
def Suspended (s : State) (t : ThreadId) : Prop := (s.waiters.thread t).suspended = true

instance (s : State) (t : ThreadId) : Decidable (Suspended s t) := inferInstanceAs (Decidable (_ = _))

theorem valid_init (flag : Flag) {v : Nat} (hv : v ≤ valueMax) (priority : ThreadId → Nat) :
    Valid (init flag v priority) :=
  ⟨v, .empty, inv_init hv flag priority⟩

section valid

variable {s s' : State} {op : Op} {ret : Option RtErr} {t u : ThreadId}

theorem Valid.ok (h : Valid s) : s.waiters.Ok (role s) := by
  obtain ⟨v, h, hi⟩ := h
  exact hi.ok

theorem Valid.empty (h : Valid s) (hne : s.waiters.list () ≠ []) : s.value = 0 := by
  obtain ⟨v, h, hi⟩ := h
  exact hi.empty hne

theorem Valid.lt (h : Valid s) : s.value < 2 ^ 16 := by
  obtain ⟨v, h, hi⟩ := h
  have hbound : s.value ≤ valueMax := hi.bound
  rw [valueMax] at hbound
  omega

theorem Valid.result (h : Valid s) (hres : Result s op s' ret) : Valid s' := by
  obtain ⟨v, h, hi⟩ := h
  exact ⟨v, _, hres.inv hi⟩

theorem Valid.listed (h : Valid s) : Suspended s t ↔ t ∈ s.waiters.list () := by
  constructor
  · intro ht
    obtain ⟨r, hr⟩ := h.ok.listed t ht
    exact hr
  · intro ht
    exact (h.ok.waits () t ht).1

/-- A suspended thread is in a call of `rt_sem_take`. -/
theorem Valid.taking (h : Valid s) (ht : Suspended s t) : s.taking t = true := by
  have hrole : role s t = some () := (h.ok.waits () t (h.listed.mp ht)).2.2
  simpa [role] using hrole

theorem Valid.zero (h : Valid s) (ht : Suspended s t) : s.value = 0 :=
  h.empty (List.ne_nil_of_mem (h.listed.mp ht))

theorem release_result (s : State) (t : ThreadId) :
    Result s (.release t) (rtSemRelease s).1 (rtSemRelease s).2 := by
  cases hl : s.waiters.list () with
  | nil =>
    rw [rtSemRelease, hl, if_neg (by simp)]
    split
    · exact .raised hl (by assumption)
    · exact .full
  | cons u us =>
    rw [rtSemRelease, hl, if_pos (by simp)]
    exact .handed hl

theorem Valid.release (h : Valid s) : Valid (rtSemRelease s).1 :=
  h.result (release_result s 0)

/-- Only a take that finds no token suspends a thread. -/
theorem Result.suspended (hv : Valid s) (h : Result s op s' ret) (hu : Suspended s' u) :
    Suspended s u ∨ ((∃ time, op = .take u time) ∧ ret = none ∧ s.value = 0) := by
  cases h with
  | taken hop hpos =>
    have hthread : (s.waiters.thread u).suspended = true := hu
    exact .inl hthread
  | refused | back | raised | full => exact .inl hu
  | @wait t time w ht hzero hw =>
    by_cases hut : u = t
    · subst hut
      exact .inr ⟨⟨time, rfl⟩, rfl, hzero⟩
    · obtain ⟨l, -, rfl⟩ := Waiters.block_eq ht.1 hw
      exact .inl (by simpa [Suspended, hut] using hu)
  | @handed t v vs hl =>
    have hne : u ≠ v := by
      rintro rfl
      rw [Suspended, hv.ok.wake_cons hl] at hu
      simp at hu
    rw [Suspended, hv.ok.wake_cons hl] at hu
    exact .inl (by simpa [Suspended, hne] using hu)
  | @timeout t ht =>
    by_cases hut : u = t
    · subst hut
      exact absurd hu (by simp [Suspended, Waiters.timeout, threadTimeout])
    · exact .inl (by simpa [Suspended, Waiters.timeout, threadTimeout, hut] using hu)

/-- Only a take takes a token away. -/
theorem Result.value_le (h : Result s op s' ret)
    (hop : ∀ t, op ≠ .trytake t ∧ ∀ time, op ≠ .take t time) : s.value ≤ s'.value := by
  cases h with
  | @taken _ t hop' hpos =>
    obtain rfl | ⟨time, rfl⟩ := hop'
    · exact absurd rfl (hop t).1
    · exact absurd rfl ((hop t).2 time)
  | refused | wait | back | handed | full | timeout => exact Nat.le_refl _
  | raised hl hlt => exact Nat.le_succ _

/-- Who is in a call of `rt_sem_take` that has switched. -/
theorem Result.taking (h : Result s op s' ret) :
    s'.taking = match op, ret with
      | .take t _, none => Function.update s.taking t true
      | .takeReturn t, _ => Function.update s.taking t false
      | _, _ => s.taking := by
  cases h with
  | taken hop hpos | refused hop hzero => obtain rfl | ⟨time, rfl⟩ := hop <;> rfl
  | wait | back | handed | raised | full | timeout => rfl

theorem Result.takeReturn (h : Result s (.takeReturn t) s' ret) :
    ¬ Suspended s t ∧ s' = { s with taking := Function.update s.taking t false } ∧
      ret = some (s.waiters.thread t).error := by
  cases h with
  | taken hop hpos => simp at hop
  | refused hop hzero => simp at hop
  | back ht htaking => exact ⟨by simpa [Suspended] using ht, rfl, rfl⟩

theorem Result.timer (hv : Valid s) (h : Result s (.timeout t) s' ret) :
    Suspended s t ∧ ¬ Suspended s' t := by
  cases h with
  | taken hop hpos => simp at hop
  | refused hop hzero => simp at hop
  | timeout ht => exact ⟨hv.ok.timer t ht, by simp [Suspended, Waiters.timeout, threadTimeout]⟩

/-- The thread of an operation that is not a release. -/
def Op.own : Op → Option ThreadId
  | .take t _ => some t
  | .trytake t => some t
  | .takeReturn t => some t
  | .timeout t => some t
  | .release _ => none

/-- The others are left alone. -/
theorem Result.thread_other (h : Result s op s' ret) (hop : op.own = some t) (hut : u ≠ t) :
    s'.waiters.thread u = s.waiters.thread u := by
  cases h with
  | taken | refused | back => rfl
  | wait ht hzero hw =>
    cases hop
    obtain ⟨l, -, rfl⟩ := Waiters.block_eq ht.1 hw
    simp [setWaiting, Ipc.setError, hut]
  | handed | raised | full => cases hop
  | timeout ht =>
    cases hop
    simp [Waiters.timeout, threadTimeout, setWaiting, Ipc.setError, hut]

/-- A release resumes a thread, or there is a token afterwards. -/
theorem Valid.release_wakes (hv : Valid s) :
    0 < (rtSemRelease s).1.value ∨ ∃ u, Suspended s u ∧ ¬ Suspended (rtSemRelease s).1 u ∧
      ((rtSemRelease s).1.waiters.thread u).error = .eok := by
  cases hl : s.waiters.list () with
  | nil =>
    refine .inl ?_
    rw [rtSemRelease, hl, if_neg (by simp)]
    split
    · exact Nat.succ_pos _
    · have hmax : valueMax = 65535 := rfl
      show 0 < s.value
      omega
  | cons u us =>
    have hmem : u ∈ s.waiters.list () := by rw [hl]; exact List.mem_cons_self
    refine .inr ⟨u, hv.listed.mpr hmem, ?_⟩
    rw [rtSemRelease, hl, if_pos (by simp), Suspended, hv.ok.wake_cons hl]
    obtain ⟨-, herr, -⟩ := hv.ok.waits () u hmem
    exact ⟨by simp, by simpa using herr⟩

end valid

end Semaphore

namespace Cond

open Semaphore (Suspended Valid)

/-- What a broadcast leaves. -/
structure Broadcast (sem sem' : Semaphore.State) : Prop where
  valid : Valid sem'
  value : sem'.value = max sem.value 1
  free : ∀ u, ¬ Suspended sem' u
  taking : sem'.taking = sem.taking
  error : ∀ u, (sem'.waiters.thread u).error = (sem.waiters.thread u).error

variable {sem sem' : Semaphore.State} {t : ThreadId}

/-- A round without a token. -/
theorem broadcastLoop_zero (h : sem.value = 0) (n : Nat) :
    broadcastLoop t (n + 1) sem = broadcastLoop t n (Semaphore.rtSemRelease sem).1 := by
  have htry : Semaphore.rtSemTrytake sem t = some (sem, some .etimeout) := by
    rw [Semaphore.rtSemTrytake, Semaphore.rtSemTake, if_neg (by omega), if_pos rfl]
  rw [broadcastLoop, htry]

/-- The trial take of the last round finds a token, which is put back. -/
theorem broadcastLoop_token (hv : Valid sem) (hpos : 0 < sem.value) (n : Nat) :
    broadcastLoop t (n + 1) sem = some (sem, .ok) := by
  have hlt : sem.value < 2 ^ 16 := hv.lt
  have hnil : sem.waiters.list () = [] := by
    by_contra hne
    have := hv.empty hne
    omega
  have hsub : wsub 16 sem.value 1 = sem.value - 1 := wsub_eq (by omega) hlt
  have hback : sem.value - 1 + 1 = sem.value := by omega
  rw [broadcastLoop, Semaphore.rtSemTrytake, Semaphore.rtSemTake, if_pos hpos]
  simp only [Semaphore.rtSemRelease, hnil, ne_eq, not_true_eq_false, if_false, hsub, hback]
  rw [if_pos (show sem.value - 1 < Semaphore.valueMax by rw [Semaphore.valueMax]; omega)]

/-- A broadcast on a semaphore without a token resumes one thread in each round. -/
theorem broadcastLoop_wakes (hv : Valid sem) (hzero : sem.value = 0) (n : Nat)
    (hn : (sem.waiters.list ()).length + 2 ≤ n) :
    ∃ sem', broadcastLoop t n sem = some (sem', .ok) ∧ Broadcast sem sem' := by
  induction n generalizing sem with
  | zero => omega
  | succ n ih =>
    rw [broadcastLoop_zero hzero]
    have hrel : Valid (Semaphore.rtSemRelease sem).1 := hv.release
    cases hl : sem.waiters.list () with
    | nil =>
      obtain ⟨m, rfl⟩ : ∃ m, n = m + 1 := ⟨n - 1, by omega⟩
      have hrelease : (Semaphore.rtSemRelease sem).1 = { sem with value := sem.value + 1 } := by
        rw [Semaphore.rtSemRelease, hl, if_neg (by simp), if_pos (by rw [hzero, Semaphore.valueMax]; omega)]
      rw [hrelease] at hrel ⊢
      refine ⟨_, broadcastLoop_token hrel (Nat.succ_pos _) m, hrel, ?_, fun u hu => ?_, rfl,
        fun u => rfl⟩
      · show sem.value + 1 = max sem.value 1
        omega
      · have hmem : u ∈ sem.waiters.list () := hrel.listed.mp hu
        rw [hl] at hmem
        exact List.not_mem_nil hmem
    | cons u us =>
      have hrelease : (Semaphore.rtSemRelease sem).1 =
          { sem with waiters := ⟨setWaiting sem.waiters.thread u false false,
            Function.update sem.waiters.list () us⟩ } := by
        rw [Semaphore.rtSemRelease, hl, if_pos (by simp), hv.ok.wake_cons hl]
      rw [hrelease] at hrel ⊢
      rw [hl, List.length_cons] at hn
      obtain ⟨sem', hloop, hb⟩ := ih hrel hzero (by
        simp only [Function.update_self]
        omega)
      refine ⟨sem', hloop, hb.valid, hb.value, hb.free, hb.taking, fun v => ?_⟩
      rw [hb.error]
      simp

theorem broadcast_spec (hv : Valid sem) (t : ThreadId) :
    ∃ sem', pthreadCondBroadcast sem t = some (sem', .ok) ∧ Broadcast sem sem' := by
  by_cases hzero : sem.value = 0
  · exact broadcastLoop_wakes hv hzero _ (Nat.le_refl _)
  · refine ⟨sem, broadcastLoop_token hv (Nat.pos_of_ne_zero hzero) _, hv, by omega, fun u hu => ?_,
      rfl, fun u => rfl⟩
    exact hzero (hv.zero hu)

end Cond

end RtThread
