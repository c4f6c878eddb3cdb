import RtThread.Semaphore

/-!
# The tokens of a semaphore

A release either raises the value or hands its token to the first waiting thread. The
history of a run counts the successful takes and releases, with the take of a waiting
thread counted when the thread is handed the token, and says who resumed a thread
that has not returned from its wait yet.
-/
namespace RtThread.Semaphore

open Ipc

inductive Resumer where
  | release | timer
  deriving DecidableEq

structure History where
  takes : Nat
  releases : Nat
  resumed : ThreadId → Option Resumer

def History.empty : History := ⟨0, 0, fun _ => none⟩

/-- The history after a step from `s` that returns `ret`. -/
def History.record (h : History) (s : State) (op : Op) (ret : Option RtErr) : History :=
  match op, ret with
  | .take _ _, some .eok => { h with takes := h.takes + 1 }
  | .trytake _, some .eok => { h with takes := h.takes + 1 }
  | .release _, some .eok =>
    match s.waiters.list () with
    | [] => { h with releases := h.releases + 1 }
    | u :: _ =>
      { h with
        takes := h.takes + 1
        releases := h.releases + 1
        resumed := Function.update h.resumed u (some .release) }
  | .timeout t, _ => { h with resumed := Function.update h.resumed t (some .timer) }
  | .takeReturn t, _ => { h with resumed := Function.update h.resumed t none }
  | _, _ => h

structure Traced where
  state : State
  history : History

def tracedStep (x : Traced) (op : Op) : Option Traced :=
  (call x.state op).map fun r => ⟨r.1, x.history.record x.state op r.2⟩

/-! ## What a step can do -/

inductive Result (s : State) : Op → State → Option RtErr → Prop
  | taken {op : Op} {t : ThreadId} (hop : op = .trytake t ∨ ∃ time, op = .take t time)
      (hpos : 0 < s.value) : Result s op { s with value := wsub 16 s.value 1 } (some .eok)
  | refused {op : Op} {t : ThreadId} (hop : op = .trytake t ∨ ∃ time, op = .take t time)
      (hzero : s.value = 0) : Result s op s (some .etimeout)
  | wait {t : ThreadId} {time : BitVec 32} {w : Waiters Unit} (ht : Active s t)
      (hzero : s.value = 0) (hw : s.waiters.block s.flag () t time = some w) :
    Result s (.take t time)
      { s with waiters := w, taking := Function.update s.taking t true } none
  | back {t : ThreadId} (ht : (s.waiters.thread t).suspended = false) (htaking : s.taking t = true) :
    Result s (.takeReturn t) { s with taking := Function.update s.taking t false }
      (some (s.waiters.thread t).error)
  | handed {t u : ThreadId} {us : List ThreadId} (hl : s.waiters.list () = u :: us) :
    Result s (.release t) { s with waiters := s.waiters.wake () } (some .eok)
  | raised {t : ThreadId} (hl : s.waiters.list () = []) (hlt : s.value < valueMax) :
    Result s (.release t) { s with value := s.value + 1 } (some .eok)
  | full {t : ThreadId} : Result s (.release t) s (some .efull)
  | timeout {t : ThreadId} (ht : (s.waiters.thread t).timerActive = true) :
    Result s (.timeout t) { s with waiters := s.waiters.timeout t } none

section result

variable {s s' : State} {op : Op} {ret : Option RtErr} {t : ThreadId}

theorem call_result (h : call s op = some (s', ret)) : Result s op s' ret := by
  cases op with
  | take t time =>
    simp only [call] at h
    split at h
    · rename_i hact
      rw [rtSemTake] at h
      split at h
      · cases h
        exact .taken (.inr ⟨time, rfl⟩) (by assumption)
      · split at h
        · cases h
          exact .refused (.inr ⟨time, rfl⟩) (by omega)
        · obtain ⟨w, hw, heq⟩ := Option.map_eq_some_iff.mp h
          cases heq
          exact .wait hact (by omega) hw
    · cases h
  | trytake t =>
    simp only [call] at h
    split at h
    · rw [rtSemTrytake, rtSemTake] at h
      split at h
      · cases h
        exact .taken (.inl rfl) (by assumption)
      · cases h
        exact .refused (.inl rfl) (by omega)
    · cases h
  | takeReturn t =>
    simp only [call] at h
    split at h
    · rename_i hact
      cases h
      exact .back hact.1 hact.2
    · cases h
  | release t =>
    simp only [call] at h
    split at h
    · cases hl : s.waiters.list () with
      | nil =>
        rw [rtSemRelease, hl, if_neg (by simp)] at h
        split at h
        · cases h
          exact .raised hl (by assumption)
        · cases h
          exact .full
      | cons u us =>
        rw [rtSemRelease, hl, if_pos (by simp)] at h
        cases h
        exact .handed hl
    · cases h
  | timeout t =>
    simp only [call] at h
    split at h
    · cases h
      exact .timeout (by assumption)
    · cases h

end result

/-! ## Runs -/

def role (s : State) (t : ThreadId) : Option Unit := if s.taking t then some () else none

theorem role_taking (s : State) (t : ThreadId) (b : Bool) (w : Waiters Unit) :
    role { s with waiters := w, taking := Function.update s.taking t b } =
      Function.update (role s) t (if b then some () else none) := by
  funext u
  by_cases hu : u = t
  · subst hu
    simp [role]
  · simp [role, hu]

structure Inv (v : Nat) (x : Traced) : Prop where
  ok : x.state.waiters.Ok (role x.state)
  tokens : x.state.value + x.history.takes = v + x.history.releases
  bound : x.state.value ≤ valueMax
  empty : x.state.waiters.list () ≠ [] → x.state.value = 0
  /-- A thread that has been resumed knows by whom. -/
  resumed : ∀ t, x.state.taking t = true → (x.state.waiters.thread t).suspended = false →
    x.history.resumed t = some .release ∧ (x.state.waiters.thread t).error = .eok ∨
      x.history.resumed t = some .timer ∧ (x.state.waiters.thread t).error = .etimeout

section inv

variable {v : Nat} {s s' : State} {h : History} {op : Op} {ret : Option RtErr} {t : ThreadId}

theorem Inv.taken (hi : Inv v ⟨s, h⟩) (hpos : 0 < s.value) :
    Inv v ⟨{ s with value := wsub 16 s.value 1 }, { h with takes := h.takes + 1 }⟩ := by
  have hbound : s.value ≤ valueMax := hi.bound
  have htokens : s.value + h.takes = v + h.releases := hi.tokens
  rw [valueMax] at hbound
  have hsub : wsub 16 s.value 1 = s.value - 1 := wsub_eq (by omega) (by omega)
  rw [hsub]
  refine ⟨hi.ok, ?_, ?_, fun hne => ?_, hi.resumed⟩
  · show s.value - 1 + (h.takes + 1) = v + h.releases
    omega
  · show s.value - 1 ≤ valueMax
    rw [valueMax]
    omega
  · have hzero : s.value = 0 := hi.empty hne
    omega

theorem Inv.wait (hi : Inv v ⟨s, h⟩) (ht : Active s t) (hzero : s.value = 0) {time : BitVec 32}
    {w : Waiters Unit} (hw : s.waiters.block s.flag () t time = some w) :
    Inv v ⟨{ s with waiters := w, taking := Function.update s.taking t true }, h⟩ := by
  have hok := hi.ok.block ht.1 hw
  refine ⟨?_, hi.tokens, hi.bound, fun _ => hzero, fun u hu hsus => ?_⟩
  · rw [role_taking]
    exact hok
  · obtain ⟨l, -, rfl⟩ := Waiters.block_eq ht.1 hw
    have hut : u ≠ t := by
      rintro rfl
      simp at hsus
    simpa [hut] using hi.resumed u (by simpa [hut] using hu) (by simpa [hut] using hsus)

theorem Inv.back (hi : Inv v ⟨s, h⟩) (ht : (s.waiters.thread t).suspended = false) :
    Inv v ⟨{ s with taking := Function.update s.taking t false },
      { h with resumed := Function.update h.resumed t none }⟩ := by
  refine ⟨?_, hi.tokens, hi.bound, hi.empty, fun u hu hsus => ?_⟩
  · have hrole := role_taking s t false s.waiters
    rw [hrole]
    exact hi.ok.leave ht none
  · have hut : u ≠ t := by
      rintro rfl
      simp at hu
    simpa [hut] using hi.resumed u (by simpa [hut] using hu) hsus

theorem Inv.handed (hi : Inv v ⟨s, h⟩) {u : ThreadId} {us : List ThreadId}
    (hl : s.waiters.list () = u :: us) :
    Inv v ⟨{ s with waiters := s.waiters.wake () },
      { h with
        takes := h.takes + 1
        releases := h.releases + 1
        resumed := Function.update h.resumed u (some .release) }⟩ := by
  have htokens : s.value + h.takes = v + h.releases := hi.tokens
  have hzero : s.value = 0 := hi.empty (by simp [hl])
  have hok : s.waiters.Ok (role s) := hi.ok
  refine ⟨hok.wake (), ?_, hi.bound, fun _ => hzero, fun t ht hsus => ?_⟩
  · show s.value + (h.takes + 1) = v + (h.releases + 1)
    omega
  · rw [hok.wake_cons hl] at hsus ⊢
    by_cases hut : t = u
    · subst hut
      have hwait := hok.waits () t (by simp [hl])
      exact .inl ⟨Function.update_self _ _ _, by simpa using hwait.2.1⟩
    · simpa [hut] using hi.resumed t ht (by simpa [hut] using hsus)

theorem Inv.raised (hi : Inv v ⟨s, h⟩) (hl : s.waiters.list () = []) (hlt : s.value < valueMax) :
    Inv v ⟨{ s with value := s.value + 1 }, { h with releases := h.releases + 1 }⟩ := by
  have htokens : s.value + h.takes = v + h.releases := hi.tokens
  refine ⟨hi.ok, ?_, hlt, fun hne => absurd hl hne, hi.resumed⟩
  show s.value + 1 + h.takes = v + (h.releases + 1)
  omega

theorem Inv.timeout (hi : Inv v ⟨s, h⟩) (ht : (s.waiters.thread t).timerActive = true) :
    Inv v ⟨{ s with waiters := s.waiters.timeout t },
      { h with resumed := Function.update h.resumed t (some .timer) }⟩ := by
  refine ⟨hi.ok.timeout t, hi.tokens, hi.bound, fun hne => ?_, fun u hu hsus => ?_⟩
  · refine hi.empty fun hnil => hne ?_
    have hnil : s.waiters.list () = [] := hnil
    simp [Waiters.timeout, hnil]
  · by_cases hut : u = t
    · subst hut
      exact .inr ⟨Function.update_self _ _ _, by simp [Waiters.timeout, threadTimeout]⟩
    · simpa [Waiters.timeout, threadTimeout, hut] using
        hi.resumed u hu (by simpa [Waiters.timeout, threadTimeout, hut] using hsus)

theorem Result.inv (hres : Result s op s' ret) (hi : Inv v ⟨s, h⟩) :
    Inv v ⟨s', h.record s op ret⟩ := by
  cases hres with
  | taken hop hpos =>
    obtain rfl | ⟨time, rfl⟩ := hop
    · exact hi.taken hpos
    · exact hi.taken hpos
  | refused hop hzero =>
    obtain rfl | ⟨time, rfl⟩ := hop
    · exact hi
    · exact hi
  | wait ht hzero hw => exact hi.wait ht hzero hw
  | back ht htaking => exact hi.back ht
  | handed hl =>
    simp only [History.record, hl]
    exact hi.handed hl
  | raised hl hlt =>
    simp only [History.record, hl]
    exact hi.raised hl hlt
  | full => exact hi
  | timeout ht => exact hi.timeout ht

theorem inv_init {v : Nat} (hv : v ≤ valueMax) (flag : Flag) (priority : ThreadId → Nat) :
    Inv v ⟨init flag v priority, .empty⟩ where
  ok := Waiters.ok_init priority
  tokens := rfl
  bound := hv
  empty := fun hne => absurd rfl hne
  resumed := fun t ht => by simp [init] at ht

theorem tracedStep_inv {x x' : Traced} (hi : Inv v x) (hs : tracedStep x op = some x') :
    Inv v x' := by
  obtain ⟨⟨s', ret⟩, hcall, rfl⟩ := Option.map_eq_some_iff.mp hs
  exact (call_result hcall).inv hi

end inv

/-- What a call that gives up or waits leaves as it was: the value, and the place of the other
threads in the list. -/
structure Unchanged (s s' : State) (t : ThreadId) : Prop where
  value : s'.value = s.value
  list : (s'.waiters.list ()).filter (· ≠ t) = (s.waiters.list ()).filter (· ≠ t)

theorem unchanged_wait {s : State} {t : ThreadId} {time : BitVec 32} {w : Waiters Unit}
    (hw : s.waiters.block s.flag () t time = some w) :
    Unchanged s { s with waiters := w, taking := Function.update s.taking t true } t := by
  refine ⟨rfl, ?_⟩
  obtain ⟨thread, -, rfl⟩ := Option.map_eq_some_iff.mp hw
  exact insertWaiting_filter _ _ _ _

/-- What a step that returns a value does. A step of another thread is never in the way: the list
and the value are as the last step left them. -/
def Effect (x : Traced) (s' : State) : Op → Option RtErr → Prop
  | .take t _, none => Unchanged x.state s' t
  | .take _ _, some .eok => s'.value + 1 = x.state.value
  | .take _ _, some err => err = .etimeout ∧ s' = x.state
  | .trytake _, ret =>
    ret = some .eok ∧ s'.value + 1 = x.state.value ∨ ret = some .etimeout ∧ s' = x.state
  | .takeReturn t, ret =>
    Unchanged x.state s' t ∧
      (x.history.resumed t = some .release ∧ ret = some .eok ∨
        x.history.resumed t = some .timer ∧ ret = some .etimeout)
  | .release _, some .eok =>
    x.state.waiters.list () = [] ∧ s'.value = x.state.value + 1 ∨
      ∃ u us, x.state.waiters.list () = u :: us ∧ s'.value = x.state.value ∧
        s'.waiters.list () = us
  | .release _, ret => ret = some .efull ∧ s' = x.state
  | .timeout t, _ => Unchanged x.state s' t

theorem Result.effect {v : Nat} {x : Traced} {s' : State} {op : Op} {ret : Option RtErr}
    (hi : Inv v x) (hres : Result x.state op s' ret) : Effect x s' op ret := by
  cases hres with
  | taken hop hpos =>
    have hbound := hi.bound
    rw [valueMax] at hbound
    have hsub : wsub 16 x.state.value 1 = x.state.value - 1 := wsub_eq (by omega) (by omega)
    have hval : wsub 16 x.state.value 1 + 1 = x.state.value := by omega
    obtain rfl | ⟨time, rfl⟩ := hop
    · exact .inl ⟨rfl, hval⟩
    · exact hval
  | refused hop hzero =>
    obtain rfl | ⟨time, rfl⟩ := hop
    · exact .inr ⟨rfl, rfl⟩
    · exact ⟨rfl, rfl⟩
  | wait ht hzero hw => exact unchanged_wait hw
  | @back t ht htaking =>
    refine ⟨⟨rfl, rfl⟩, ?_⟩
    obtain ⟨hres, herr⟩ | ⟨hres, herr⟩ := hi.resumed t htaking ht
    · exact .inl ⟨hres, by rw [herr]⟩
    · exact .inr ⟨hres, by rw [herr]⟩
  | @handed t u us hl =>
    refine .inr ⟨u, us, hl, rfl, ?_⟩
    rw [hi.ok.wake_cons hl]
    simp
  | raised hl hlt => exact .inl ⟨hl, rfl⟩
  | full => exact ⟨rfl, rfl⟩
  | @timeout t ht =>
    refine ⟨rfl, ?_⟩
    simp [Waiters.timeout, List.filter_filter]

/-- Along every run no token is lost or doubled: the value and the successful takes make up the
initial value and the successful releases, and every step does to them what its result says. -/
theorem tokens_conserved (v : Nat) (hv : v ≤ valueMax) (flag : Flag) (priority : ThreadId → Nat)
    (ops : List Op) (x : Traced)
    (hrun : Runs.run tracedStep ⟨init flag v priority, .empty⟩ ops = some x) :
    x.state.value + x.history.takes = v + x.history.releases ∧
      (x.state.waiters.list () ≠ [] → x.state.value = 0) ∧
      ∀ op s' ret, call x.state op = some (s', ret) → Effect x s' op ret := by
  have hi : Inv v x :=
    Runs.run_invariant (fun _ _ _ hi hs => tracedStep_inv hi hs) (inv_init hv flag priority) hrun
  exact ⟨hi.tokens, hi.empty, fun op s' ret hcall => (call_result hcall).effect hi⟩

/-- Two threads wait; one is handed the token of a release, and the timer of the other expires. -/
def releaseAndTimeout : List Op :=
  [.trytake 1, .take 2 0xffffffff, .take 3 10, .release 1, .timeout 3]

theorem tokens_conserved_handed :
    ∃ x, Runs.run tracedStep ⟨init .prio 1 (fun t => t), .empty⟩ releaseAndTimeout = some x ∧
      x.history.takes = 2 ∧ x.history.releases = 1 ∧ x.state.value = 0 ∧
      (∀ s' ret, call x.state (.takeReturn 2) = some (s', ret) →
        Effect x s' (.takeReturn 2) ret) ∧
      x.history.resumed 2 = some .release ∧ x.history.resumed 3 = some .timer := by
  have hlast : ((Runs.run tracedStep ⟨init .prio 1 (fun t => t), .empty⟩ releaseAndTimeout).map
      fun x => (x.history.takes, x.history.releases, x.history.resumed 2, x.history.resumed 3)) =
        some (2, 1, some .release, some .timer) := by decide +kernel
  obtain ⟨x, hrun, hx⟩ := Option.map_eq_some_iff.mp hlast
  simp only [Prod.mk.injEq] at hx
  obtain ⟨htokens, -, heffect⟩ :=
    tokens_conserved 1 (by decide) .prio (fun t => t) releaseAndTimeout x hrun
  refine ⟨x, hrun, hx.1, hx.2.1, by omega, fun s' ret => heffect _ s' ret, hx.2.2.1, hx.2.2.2⟩

end RtThread.Semaphore
