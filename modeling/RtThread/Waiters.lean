import RtThread.Ipc
import RtThread.Lib.Counting

/-!
# Waiting in the lists of an object

An IPC object has one list of suspended threads for each reason to wait: a
semaphore or an event one, a mailbox or a message queue one for receivers and
one for senders. The functions of these objects change the lists in four ways
only, which are given here with what each of them keeps. A thread that runs again
after its wait looks at its error number: it is `RT_EOK` when a peer resumed the
thread, and the thread has been woken but has not yet looked at the object again.
-/
namespace RtThread.Ipc

open Counting

variable {ρ : Type}

/-- The two reasons to wait for a mailbox or a message queue: `parent.suspend_thread` lists the
receivers, and `suspend_sender_thread` the senders. -/
inductive Role where
  | receiver | sender
  deriving DecidableEq

theorem forall_role {p : Role → Prop} (hrecv : p .receiver) (hsend : p .sender) : ∀ r, p r := by
  intro r
  cases r with
  | receiver => exact hrecv
  | sender => exact hsend

/-- The threads, and the list of the threads suspended for each reason. -/
structure Waiters (ρ : Type) where
  thread : Threads
  list : ρ → List ThreadId

namespace Waiters

def init (priority : ThreadId → Nat) : Waiters ρ :=
  ⟨fun t => started (priority t), fun _ => []⟩

def setError (w : Waiters ρ) (t : ThreadId) (err : RtErr) : Waiters ρ :=
  { w with thread := Ipc.setError w.thread t err }

section lists

variable [DecidableEq ρ]

/-- The end of every waiting function: the error number is reset, the thread is suspended, and
its timer is started when there is a waiting time. -/
def block (w : Waiters ρ) (flag : Flag) (r : ρ) (t : ThreadId) (timeout : BitVec 32) :
    Option (Waiters ρ) :=
  let (thread, list) := ipcListSuspend (Ipc.setError w.thread t .eok) flag t (w.list r)
  (startThreadTimer thread t timeout.toInt).map fun thread =>
    ⟨thread, Function.update w.list r list⟩

/-- The same where the thread goes to the front of the list, as in `rt_mp_alloc`. -/
def blockFront (w : Waiters ρ) (r : ρ) (t : ThreadId) (timeout : BitVec 32) :
    Option (Waiters ρ) :=
  let thread := rtThreadSuspend (Ipc.setError w.thread t .eok) t
  (startThreadTimer thread t timeout.toInt).map fun thread =>
    ⟨thread, Function.update w.list r (t :: w.list r)⟩

/-- `_ipc_list_resume` of a list that need not be empty. -/
def wake (w : Waiters ρ) (r : ρ) : Waiters ρ :=
  let (thread, list) := ipcListResume w.thread (w.list r)
  ⟨thread, Function.update w.list r list⟩

/-- `_ipc_list_resume_all`. -/
def wakeAll (w : Waiters ρ) (r : ρ) : Option (Waiters ρ) :=
  (ipcListResumeAll w.thread (w.list r)).map fun thread => ⟨thread, Function.update w.list r []⟩

end lists

/-- `_thread_timeout`. -/
def timeout (w : Waiters ρ) (t : ThreadId) : Waiters ρ :=
  ⟨threadTimeout w.thread t, fun r => (w.list r).filter (· ≠ t)⟩

/-- A thread is taken out of the list it waits in, with an error number. -/
def expel (w : Waiters ρ) (t : ThreadId) (err : RtErr) : Waiters ρ :=
  ⟨setWaiting (Ipc.setError w.thread t err) t false false, fun r => (w.list r).filter (· ≠ t)⟩

/-- `rt_thread_resume` of a thread that may be suspended. -/
def resume (w : Waiters ρ) (t : ThreadId) : Waiters ρ :=
  if (w.thread t).suspended then
    ⟨setWaiting w.thread t false false, fun r => (w.list r).filter (· ≠ t)⟩
  else w

/-- `RT_THREAD_CTRL_CHANGE_PRIORITY`; a suspended thread stays where it is in its list. -/
def changePriority (w : Waiters ρ) (t : ThreadId) (priority : Nat) : Waiters ρ :=
  { w with thread := Ipc.changePriority w.thread t priority }

/-- The lists hold the suspended threads, each for the reason it waits for. `role` gives the
reason of a thread that is inside a waiting function. -/
structure Ok (w : Waiters ρ) (role : ThreadId → Option ρ) : Prop where
  nodup : ∀ r, (w.list r).Nodup
  waits : ∀ r, ∀ t ∈ w.list r,
    (w.thread t).suspended = true ∧ (w.thread t).error = .eok ∧ role t = some r
  listed : ∀ t, (w.thread t).suspended = true → ∃ r, t ∈ w.list r
  timer : ∀ t, (w.thread t).timerActive = true → (w.thread t).suspended = true

/-- The thread waited, has been made ready by a peer, and has not run since. -/
def Woken (w : Waiters ρ) (role : ThreadId → Option ρ) (r : ρ) (t : ThreadId) : Prop :=
  role t = some r ∧ (w.thread t).suspended = false ∧ (w.thread t).error = .eok

/-- While a thread waits, at least `n` others have been woken and will look again. -/
def Served (w : Waiters ρ) (role : ThreadId → Option ρ) (r : ρ) (n : Nat) : Prop :=
  w.list r ≠ [] → AtLeast n (Woken w role r)

theorem ok_init (priority : ThreadId → Nat) : Ok (init priority : Waiters ρ) (fun _ => none) where
  nodup := fun _ => List.nodup_nil
  waits := fun _ _ ht => absurd ht List.not_mem_nil
  listed := fun t ht => by simp [init, started] at ht
  timer := fun t ht => by simp [init, started] at ht

variable {w w' : Waiters ρ} {role : ThreadId → Option ρ} {r r' : ρ} {t : ThreadId} {n : Nat}

theorem Ok.not_mem (h : Ok w role) (ht : (w.thread t).suspended = false) (r : ρ) :
    t ∉ w.list r := by
  intro hm
  rw [(h.waits r t hm).1] at ht
  cases ht

/-- What a thread has waited for does not matter once it has left the function. -/
theorem Ok.leave (h : Ok w role) (ht : (w.thread t).suspended = false) (x : Option ρ) :
    Ok w (Function.update role t x) := by
  refine ⟨h.nodup, fun r u hu => ?_, h.listed, h.timer⟩
  have hut : u ≠ t := by
    rintro rfl
    exact h.not_mem ht r hu
  simpa [hut] using h.waits r u hu

theorem Served.leave (hs : Served w role r n) (x : Option ρ) :
    Served w (Function.update role t x) r (n - 1) := by
  intro hne
  refine (hs hne).pred (a := t) fun u hut hu => ?_
  simpa [Woken, hut] using hu

/-- A thread that leaves without having been woken is of no account. -/
theorem Served.leave_idle (hs : Served w role r n) (ht : ¬ Woken w role r t) (x : Option ρ) :
    Served w (Function.update role t x) r n := by
  intro hne
  refine (hs hne).mono fun u hu => ?_
  have hut : u ≠ t := by
    rintro rfl
    exact ht hu
  simpa [Woken, hut] using hu

theorem Served.le {m : Nat} (hs : Served w role r n) (hm : m ≤ n) : Served w role r m :=
  fun hne => (hs hne).le hm

/-- The error number of a thread is of no account to the others. -/
theorem Ok.setError (h : Ok w role) (ht : (w.thread t).suspended = false) (err : RtErr) :
    Ok (w.setError t err) role := by
  refine ⟨h.nodup, fun r u hu => ?_, fun u hu => ?_, fun u hu => ?_⟩
  · have hut : u ≠ t := by
      rintro rfl
      exact h.not_mem ht r hu
    simpa [Waiters.setError, hut] using h.waits r u hu
  · exact h.listed u (by simpa [Waiters.setError] using hu)
  · simpa [Waiters.setError] using h.timer u (by simpa [Waiters.setError] using hu)

theorem Served.setError (hs : Served w role r n) (hrole : role t ≠ some r) (err : RtErr) :
    Served (w.setError t err) role r n := by
  intro hne
  refine (hs hne).mono fun u hu => ?_
  have hut : u ≠ t := by
    rintro rfl
    exact hrole hu.1
  simpa [Woken, Waiters.setError, hut] using hu

/-! ## Timers -/

/-- A thread leaves the list it is in. -/
theorem Ok.detach (h : Ok w role) (hthread : ∀ u, u ≠ t → w'.thread u = w.thread u)
    (ht : (w'.thread t).suspended = false) (htimer : (w'.thread t).timerActive = false)
    (hlist : ∀ r, w'.list r = (w.list r).filter (· ≠ t)) : Ok w' role := by
  refine ⟨fun r => ?_, fun r v hv => ?_, fun v hv => ?_, fun v hv => ?_⟩
  · rw [hlist]
    exact (h.nodup r).filter _
  · rw [hlist] at hv
    obtain ⟨hv, hvt⟩ := List.mem_filter.mp hv
    rw [hthread v (by simpa using hvt)]
    exact h.waits r v hv
  · have hvt : v ≠ t := by
      rintro rfl
      rw [ht] at hv
      cases hv
    rw [hthread v hvt] at hv
    obtain ⟨r, hr⟩ := h.listed v hv
    refine ⟨r, ?_⟩
    rw [hlist]
    exact List.mem_filter.mpr ⟨hr, by simpa using hvt⟩
  · have hvt : v ≠ t := by
      rintro rfl
      rw [htimer] at hv
      cases hv
    rw [hthread v hvt] at hv ⊢
    exact h.timer v hv

theorem Ok.expel (h : Ok w role) (t : ThreadId) (err : RtErr) : Ok (w.expel t err) role := by
  refine h.detach (t := t) (fun u hu => ?_) ?_ ?_ fun _ => rfl
  · simp [Waiters.expel, setWaiting, Ipc.setError, hu]
  · simp [Waiters.expel]
  · simp [Waiters.expel]

theorem Ok.timeout (h : Ok w role) (t : ThreadId) : Ok (w.timeout t) role := h.expel t .etimeout

theorem Ok.resume (h : Ok w role) (t : ThreadId) : Ok (w.resume t) role := by
  rw [Waiters.resume]
  split
  · refine h.detach (t := t) (fun u hu => ?_) ?_ ?_ fun _ => rfl
    · simp [setWaiting, hu]
    · simp
    · simp
  · exact h

theorem Ok.changePriority (h : Ok w role) (t : ThreadId) (priority : Nat) :
    Ok (w.changePriority t priority) role := by
  refine ⟨h.nodup, fun r u hu => ?_, fun u hu => ?_, fun u hu => ?_⟩
  · simpa [Waiters.changePriority] using h.waits r u hu
  · exact h.listed u (by simpa [Waiters.changePriority] using hu)
  · simpa [Waiters.changePriority] using h.timer u (by simpa [Waiters.changePriority] using hu)

/-- A thread that was not woken by a peer leaves the list. -/
theorem Served.expel (hs : Served w role r n) (ht : (w.thread t).suspended = true) (err : RtErr) :
    Served (w.expel t err) role r n := by
  intro hne
  have hold : w.list r ≠ [] := by
    intro hnil
    simp [Waiters.expel, hnil] at hne
  refine (hs hold).mono fun v hv => ?_
  have hvt : v ≠ t := by
    rintro rfl
    exact Bool.noConfusion (ht.symm.trans hv.2.1)
  simpa [Woken, Waiters.expel, hvt] using hv

/-! ## Balance

The threads that have been woken for each reason are at least as many as what they wait for. -/

/-- `count r` of what the threads of the list `r` wait for is there, and is going to be looked at
while a thread waits for it. -/
structure Balanced (w : Waiters ρ) (role : ThreadId → Option ρ) (count : ρ → Nat) : Prop where
  ok : w.Ok role
  served : ∀ r, w.Served role r (count r)

variable {count : ρ → Nat}

theorem Balanced.le {count' : ρ → Nat} (h : Balanced w role count) (hle : ∀ r, count' r ≤ count r) :
    Balanced w role count' :=
  ⟨h.ok, fun r => (h.served r).le (hle r)⟩

/-- A thread that was not woken leaves. -/
theorem Balanced.leave_idle (h : Balanced w role count) (ht : (w.thread t).suspended = false)
    (hidle : role t = none ∨ (w.thread t).error ≠ .eok) :
    Balanced w (Function.update role t none) count := by
  refine ⟨h.ok.leave ht none, fun r' => (h.served r').leave_idle (fun hw => ?_) none⟩
  obtain hnone | herr := hidle
  · exact absurd (hnone.symm.trans hw.1) (by simp)
  · exact herr hw.2.2

theorem Balanced.expel (h : Balanced w role count) (ht : (w.thread t).suspended = true)
    (err : RtErr) : Balanced (w.expel t err) role count :=
  ⟨h.ok.expel t err, fun r => (h.served r).expel ht err⟩

theorem Balanced.timeout (h : Balanced w role count) (ht : (w.thread t).timerActive = true) :
    Balanced (w.timeout t) role count :=
  h.expel (h.ok.timer t ht) .etimeout

/-- Nobody waits. -/
theorem Ok.balanced (h : Ok w role) (hnil : ∀ r, w.list r = []) (count : ρ → Nat) :
    Balanced w role count :=
  ⟨h, fun r hne => absurd (hnil r) hne⟩

/-- A thread that waits is in the list of its reason. -/
theorem Balanced.atLeast (h : Balanced w role count) (ht : (w.thread t).suspended = true)
    (hrole : role t = some r) : AtLeast (count r) (Woken w role r) := by
  obtain ⟨r', hr'⟩ := h.ok.listed t ht
  obtain rfl : r = r' := Option.some.inj (hrole.symm.trans (h.ok.waits r' t hr').2.2)
  exact h.served r (List.ne_nil_of_mem hr')

variable [DecidableEq ρ]

/-! ## Suspending the running thread -/

/-- What suspending a thread does, wherever it takes its place in the list. -/
def Joins (w : Waiters ρ) (r : ρ) (t : ThreadId) (timeout : BitVec 32) (w' : Waiters ρ) : Prop :=
  ∃ l, l.Perm (t :: w.list r) ∧
    w' = ⟨setWaiting (Ipc.setError w.thread t .eok) t true (decide (0 < timeout.toInt)),
      Function.update w.list r l⟩

variable {flag : Flag} {timeout : BitVec 32} {u : ThreadId} {us : List ThreadId}

theorem block_eq (ht : (w.thread t).suspended = false) (hb : w.block flag r t timeout = some w') :
    w.Joins r t timeout w' := by
  obtain ⟨thread, hthread, rfl⟩ := Option.map_eq_some_iff.mp hb
  rw [startThreadTimer_suspend (by simpa using ht) hthread]
  exact ⟨_, insertWaiting_perm _ flag t (w.list r), rfl⟩

theorem blockFront_eq (ht : (w.thread t).suspended = false)
    (hb : w.blockFront r t timeout = some w') : w.Joins r t timeout w' := by
  obtain ⟨thread, hthread, rfl⟩ := Option.map_eq_some_iff.mp hb
  rw [startThreadTimer_suspend (by simpa using ht) hthread]
  exact ⟨_, List.Perm.refl _, rfl⟩

theorem Ok.joins (h : Ok w role) (ht : (w.thread t).suspended = false)
    (hj : w.Joins r t timeout w') : Ok w' (Function.update role t (some r)) := by
  obtain ⟨l, hl, rfl⟩ := hj
  have hnot := h.not_mem ht
  refine ⟨?_, ?_, ?_, ?_⟩
  · intro r'
    by_cases hr : r' = r
    · subst hr
      simpa [hl.nodup_iff, hnot r'] using h.nodup r'
    · simpa [hr] using h.nodup r'
  · intro r' u hu
    by_cases hut : u = t
    · subst hut
      have hr : r' = r := by
        by_contra hr
        exact hnot r' (by simpa [hr] using hu)
      simp [hr]
    · have hu' : u ∈ w.list r' := by
        by_cases hr : r' = r
        · subst hr
          simpa [hl.mem_iff, hut] using hu
        · simpa [hr] using hu
      simpa [hut] using h.waits r' u hu'
  · intro u hu
    by_cases hut : u = t
    · exact ⟨r, by simp [hl.mem_iff, hut]⟩
    · obtain ⟨r', hr'⟩ := h.listed u (by simpa [hut] using hu)
      refine ⟨r', ?_⟩
      by_cases hr : r' = r
      · subst hr
        simp [hl.mem_iff, hr']
      · simpa [hr] using hr'
  · intro u hu
    by_cases hut : u = t
    · simp [hut]
    · simpa [hut] using h.timer u (by simpa [hut] using hu)

theorem Ok.block (h : Ok w role) (ht : (w.thread t).suspended = false)
    (hb : w.block flag r t timeout = some w') : Ok w' (Function.update role t (some r)) :=
  h.joins ht (block_eq ht hb)

/-- A thread that blocks for a reason was in no other function before. -/
theorem Served.joins (hs : Served w role r' n) (hr : r' ≠ r) (hrole : role t ≠ some r')
    (hj : w.Joins r t timeout w') : Served w' (Function.update role t (some r)) r' n := by
  obtain ⟨l, -, rfl⟩ := hj
  intro hne
  refine (hs (by simpa [hr] using hne)).mono fun u hu => ?_
  have hut : u ≠ t := by
    rintro rfl
    exact hrole hu.1
  simpa [Woken, hut] using hu

/-! ## Waking the first thread -/

theorem wake_nil (hl : w.list r = []) : w.wake r = w := by
  have hsame : Function.update w.list r [] = w.list := by
    rw [← hl, Function.update_eq_self]
  simp only [wake, hl, ipcListResume, hsame]

theorem Ok.wake_cons (h : Ok w role) (hl : w.list r = u :: us) :
    w.wake r = ⟨setWaiting w.thread u false false, Function.update w.list r us⟩ := by
  have hu := (h.waits r u (by simp [hl])).1
  simp [wake, hl, ipcListResume, hu]

/-- The first thread is given an error number and made ready. -/
theorem Ok.wake_error (h : Ok w role) (hl : w.list r = u :: us) (err : RtErr) :
    (w.setError u err).wake r = w.expel u err := by
  obtain ⟨hsus, -, hrole⟩ := h.waits r u (by simp [hl])
  have hnd := h.nodup r
  rw [hl, List.nodup_cons] at hnd
  have hlists : Function.update w.list r us = fun r' => (w.list r').filter (· ≠ u) := by
    funext r'
    by_cases hr : r' = r
    · subst hr
      rw [Function.update_self, hl, List.filter_cons_of_neg (by simp), eq_comm, List.filter_eq_self]
      intro v hv
      simpa using fun heq : v = u => hnd.1 (heq ▸ hv)
    · rw [Function.update_of_ne hr, eq_comm, List.filter_eq_self]
      intro v hv
      have hvu : v ≠ u := by
        rintro rfl
        exact hr (Option.some.inj ((h.waits r' v hv).2.2.symm.trans hrole))
      simpa using hvu
  simp only [Waiters.wake, Waiters.setError, hl, ipcListResume, setError_suspended, hsus, if_true,
    Waiters.expel, hlists]

theorem Ok.wake (h : Ok w role) (r : ρ) : Ok (w.wake r) role := by
  cases hl : w.list r with
  | nil =>
    rw [wake_nil hl]
    exact h
  | cons u us =>
    rw [h.wake_cons hl]
    have hnd := h.nodup r
    rw [hl, List.nodup_cons] at hnd
    have hother : ∀ r', r' ≠ r → u ∉ w.list r' := by
      intro r' hr hu
      have := (h.waits r' u hu).2.2.symm.trans (h.waits r u (by simp [hl])).2.2
      exact hr (Option.some.inj this)
    refine ⟨fun r' => ?_, fun r' v hv => ?_, fun v hv => ?_, fun v hv => ?_⟩
    · by_cases hr : r' = r
      · subst hr
        simpa using hnd.2
      · simpa [hr] using h.nodup r'
    · by_cases hr : r' = r
      · subst hr
        have hv : v ∈ us := by simpa using hv
        have hvu : v ≠ u := fun heq => hnd.1 (heq ▸ hv)
        simpa [hvu] using h.waits r' v (by simp [hl, hv])
      · have hv : v ∈ w.list r' := by simpa [hr] using hv
        have hvu : v ≠ u := fun heq => hother r' hr (heq ▸ hv)
        simpa [hvu] using h.waits r' v hv
    · have hvu : v ≠ u := by
        rintro rfl
        simp at hv
      obtain ⟨r', hr'⟩ := h.listed v (by simpa [hvu] using hv)
      refine ⟨r', ?_⟩
      by_cases hr : r' = r
      · subst hr
        simpa [hl, hvu] using hr'
      · simpa [hr] using hr'
    · have hvu : v ≠ u := by
        rintro rfl
        simp at hv
      simpa [hvu] using h.timer v (by simpa [hvu] using hv)

/-- One thread more has been woken when there was one. -/
theorem Served.wake (h : Ok w role) (hs : Served w role r n) : Served (w.wake r) role r (n + 1) := by
  cases hl : w.list r with
  | nil =>
    rw [wake_nil hl]
    exact fun hne => absurd hl hne
  | cons u us =>
    rw [h.wake_cons hl]
    intro _
    obtain ⟨hsus, herr, hrole⟩ := h.waits r u (by simp [hl])
    refine (hs (by simp [hl])).succ (a := u) (fun v hv => ?_) ?_ ?_
    · by_cases hvu : v = u
      · subst hvu
        exact ⟨hrole, by simp, by simpa using herr⟩
      · simpa [Woken, hvu] using hv
    · intro hw
      exact Bool.noConfusion (hsus.symm.trans hw.2.1)
    · exact ⟨hrole, by simp, by simpa using herr⟩

theorem Served.wake_other (h : Ok w role) (hs : Served w role r' n) (hr : r' ≠ r) :
    Served (w.wake r) role r' n := by
  cases hl : w.list r with
  | nil =>
    rw [wake_nil hl]
    exact hs
  | cons u us =>
    rw [h.wake_cons hl]
    intro hne
    refine (hs (by simpa [hr] using hne)).mono fun v hv => ?_
    by_cases hvu : v = u
    · subst hvu
      exact ⟨hv.1, by simp, by simpa using hv.2.2⟩
    · simpa [Woken, hvu] using hv

/-! ## Waking all threads of a list -/

theorem ipcListResumeAll_eq {thread thread' : Threads} {l : List ThreadId}
    (h : ipcListResumeAll thread l = some thread') (u : ThreadId) :
    thread' u = if u ∈ l then { thread u with error := .error, suspended := false, timerActive := false }
      else thread u := by
  induction l generalizing thread with
  | nil =>
    cases h
    simp
  | cons v l ih =>
    rw [ipcListResumeAll] at h
    split at h
    · rw [ih h]
      by_cases huv : u = v
      · subst huv
        simp [setWaiting, Ipc.setError]
      · simp [setWaiting, Ipc.setError, huv]
    · cases h

theorem Ok.wakeAll (h : Ok w role) (hw : w.wakeAll r = some w') : Ok w' role := by
  obtain ⟨thread, hthread, rfl⟩ := Option.map_eq_some_iff.mp hw
  have heq := ipcListResumeAll_eq hthread
  refine ⟨fun r' => ?_, fun r' v hv => ?_, fun v hv => ?_, fun v hv => ?_⟩
  · by_cases hr : r' = r
    · simp [hr]
    · simpa [hr] using h.nodup r'
  · have hr : r' ≠ r := by
      rintro rfl
      simp at hv
    have hv : v ∈ w.list r' := by simpa [hr] using hv
    have hnot : v ∉ w.list r := by
      intro hm
      have := (h.waits r' v hv).2.2.symm.trans (h.waits r v hm).2.2
      exact hr (Option.some.inj this)
    simp only [heq v, if_neg hnot]
    exact h.waits r' v hv
  · have hnot : v ∉ w.list r := by
      intro hm
      simp [heq v, hm] at hv
    simp only [heq v, if_neg hnot] at hv
    obtain ⟨r', hr'⟩ := h.listed v hv
    have hr : r' ≠ r := by
      rintro rfl
      exact hnot hr'
    exact ⟨r', by simpa [hr] using hr'⟩
  · have hnot : v ∉ w.list r := by
      intro hm
      simp [heq v, hm] at hv
    simp only [heq v, if_neg hnot] at hv ⊢
    exact h.timer v hv

theorem wakeAll_list (hw : w.wakeAll r = some w') : w'.list = Function.update w.list r [] := by
  obtain ⟨thread, -, rfl⟩ := Option.map_eq_some_iff.mp hw
  rfl

/-! ## Keeping the balance -/

theorem Balanced.wake (h : Balanced w role count) (r : ρ) :
    Balanced (w.wake r) role (Function.update count r (count r + 1)) := by
  refine ⟨h.ok.wake r, fun r' => ?_⟩
  by_cases hr : r' = r
  · subst hr
    rw [Function.update_self]
    exact (h.served r').wake h.ok
  · rw [Function.update_of_ne hr]
    exact (h.served r').wake_other h.ok hr

section

variable (h : Balanced w role count)
  (ht : (w.thread t).suspended = false)
  (hrole : role t = none ∨ role t = some r)
include h ht hrole

/-- A thread takes one of the things it may have waited for, and leaves. -/
theorem Balanced.leave :
    Balanced w (Function.update role t none) (Function.update count r (count r - 1)) := by
  refine ⟨h.ok.leave ht none, fun r' => ?_⟩
  by_cases hr : r' = r
  · subst hr
    rw [Function.update_self]
    exact (h.served r').leave none
  · rw [Function.update_of_ne hr]
    refine (h.served r').leave_idle (fun hw => ?_) none
    obtain hnone | hsome := hrole
    · exact absurd (hnone.symm.trans hw.1) (by simp)
    · exact hr (Option.some.inj (hw.1.symm.trans hsome))

/-- A thread finds nothing, and returns an error. -/
theorem Balanced.refuse (hzero : count r = 0) (err : RtErr) :
    Balanced (w.setError t err) (Function.update role t none) count := by
  have hleave := h.leave ht hrole
  rw [hzero, Nat.zero_sub, ← hzero, Function.update_eq_self] at hleave
  refine ⟨hleave.ok.setError ht err, fun r' => (hleave.served r').setError ?_ err⟩
  simp

/-- A thread finds nothing, and is suspended. -/
theorem Balanced.joins (hzero : count r = 0) (hj : w.Joins r t timeout w') :
    Balanced w' (Function.update role t (some r)) count := by
  refine ⟨h.ok.joins ht hj, fun r' => ?_⟩
  by_cases hr : r' = r
  · subst hr
    rw [hzero]
    exact fun _ => atLeast_zero _
  · refine (h.served r').joins hr (fun hw => ?_) hj
    obtain hnone | hsome := hrole
    · exact absurd (hnone.symm.trans hw) (by simp)
    · exact hr (Option.some.inj (hw.symm.trans hsome))

theorem Balanced.block (hzero : count r = 0) (hb : w.block flag r t timeout = some w') :
    Balanced w' (Function.update role t (some r)) count :=
  h.joins ht hrole hzero (block_eq ht hb)

end

end Waiters

end RtThread.Ipc
