import RtThread.Pipe
import RtThread.RingbufferFifo

/-!
# Wake-ups of a pipe

A wake-up resumes one thread of a wait queue, or leaves the flag to the next thread that
comes to wait. It is never lost: while a side of the pipe has threads blocked and something to
do, a thread of that side has been woken and has not tried again, or a writer has put bytes
and is still to wake the readers, or the last round of that side since its last wake-up
left something to do. In the last case no wake-up is due, since a round does not pass it on.
-/
namespace RtThread.Pipe

open Function (update_apply update_of_ne update_self)
open Ipc (ThreadId)
open Ringbuffer (Byte RtRingbuffer Holds dataLen spaceLen)

/-! ## What the two sides wait for -/

/-- The bytes for the readers, the space for the writers. -/
def available (rb : RtRingbuffer) : Side → Nat
  | .reader => dataLen rb
  | .writer => spaceLen rb

/-- The fifo is not empty, or it has space. -/
def Ready (s : State) (side : Side) : Prop := ∃ rb ∈ s.fifo, 0 < available rb side

instance (s : State) (side : Side) : Decidable (Ready s side) :=
  inferInstanceAs (Decidable (∃ _ ∈ _, _))

/-- The call is in the loop of this side, at this stage. -/
def Call.At (side : Side) (stage : Stage) : Call → Prop
  | .reading _ _ st => side = .reader ∧ st = stage
  | .writing _ _ _ _ st => side = .writer ∧ st = stage
  | _ => False

instance (side : Side) (stage : Stage) : ∀ c, Decidable (Call.At side stage c)
  | .reading _ _ _ => inferInstanceAs (Decidable (_ ∧ _))
  | .writing _ _ _ _ _ => inferInstanceAs (Decidable (_ ∧ _))
  | .outside => inferInstanceAs (Decidable False)
  | .finishing _ _ => inferInstanceAs (Decidable False)
  | .closing => inferInstanceAs (Decidable False)

theorem Call.At.unique {c : Call} {side side' : Side} {stage stage' : Stage}
    (h : c.At side stage) (h' : c.At side' stage') : side = side' ∧ stage = stage' := by
  cases c with
  | reading | writing => exact ⟨h.1.trans h'.1.symm, h.2.symm.trans h'.2⟩
  | outside | finishing | closing => exact absurd h id

/-- The thread is blocked in the wait queue of the side. -/
def Blocked (s : State) (side : Side) (t : ThreadId) : Prop :=
  s.suspended t = true ∧ (s.call t).At side .switched

/-- A round of a write has been made, and its wake-up of the readers has not. -/
def Call.toWake : Call → Bool
  | .writing _ _ _ _ .wake => true
  | .finishing _ wakeup => wakeup
  | _ => false

/-! ## The history -/

/-- A pipe, with what its past says: whether the last round of a side since its last wake-up
left something to do, and whether a thread before the lock has come there from a wait. -/
structure Watched where
  pipe : State
  left : Side → Bool
  again : ThreadId → Bool

def watched (isNamed : Bool) (bufsz : Nat) : Watched :=
  ⟨rtPipeCreate isNamed bufsz, fun _ => false, fun _ => false⟩

/-- The bytes that a round of a read takes. -/
def roundBytes (s : State) (count : Nat) : List Byte :=
  if s.writers = 0 then [] else (s.fifo.map fun rb => (Ringbuffer.get rb (count % 2 ^ 16)).2).getD []

/-- The step wakes the queue of the side. -/
def wakes (s : State) : Op → Side → Bool
  | .proceed t, .reader => (s.call t).toWake
  | .proceed t, .writer =>
    match s.call t with
    | .reading _ count .lock => !(roundBytes s count).isEmpty
    | .reading _ _ .wake => true
    | _ => false
  | .close _ fd, .reader => decide ((if fd.writes then wsub 8 s.writers 1 else s.writers) = 0)
  | .close _ fd, .writer => decide ((if fd.reads then wsub 8 s.readers 1 else s.readers) = 0)
  | _, _ => false

/-- The step is a round of the side, or gives the writers a new ring buffer. -/
def rounds (s : State) : Op → Side → Bool
  | .proceed t, side => decide ((s.call t).At side .lock)
  | .open _ _ _, side => decide (side = .writer ∧ s.refCount = 0)
  | _, _ => false

def leftAfter (x : Watched) (op : Op) (s' : State) (side : Side) : Bool :=
  if rounds x.pipe op side then decide (Ready s' side)
  else if wakes x.pipe op side then false
  else x.left side

def againAfter (x : Watched) : Op → ThreadId → Bool
  | .proceed t => Function.update x.again t true
  | .read t _ _ => Function.update x.again t false
  | .write t _ _ => Function.update x.again t false
  | _ => x.again

def watchedStep (x : Watched) (op : Op) : Option Watched :=
  (step x.pipe op).map fun s' => ⟨s', leftAfter x op s', againAfter x op⟩

/-- The thread has been woken and has not tried again: it runs behind its switch, or is before
the lock for another round. -/
def Retrying (s : State) (again : ThreadId → Bool) (side : Side) (t : ThreadId) : Prop :=
  s.suspended t = false ∧
    ((s.call t).At side .switched ∨ (s.call t).At side .lock ∧ again t = true)

/-- While a side has something to do and threads that are blocked, a thread of it is about to
try again, or a writer is about to wake the readers, or a round left it something to do. -/
def NoLostWakeUp (x : Watched) : Prop :=
  ∀ side, Ready x.pipe side → (∃ t, Blocked x.pipe side t) →
    (∃ t, Retrying x.pipe x.again side t) ∨
    (side = .reader ∧ ∃ t, (x.pipe.call t).toWake = true) ∨
    x.left side = true

/-! ## Wait queues -/

/-- The threads in the wait queues are those that are blocked, each once. -/
structure Queued (s : State) : Prop where
  nodup : ∀ side, (s.queue side).waitingList.Nodup
  blocked : ∀ side t, t ∈ (s.queue side).waitingList ↔ Blocked s side t

/-- The thread takes the next round of the side, or is about to wake it. -/
def Acts (s : State) (again : ThreadId → Bool) (side : Side) (t : ThreadId) : Prop :=
  Retrying s again side t ∨ side = .reader ∧ (s.call t).toWake = true

/-- A side with something to do that was not left to it has a thread that acts, or the flag is
there for the next one that comes to wait and none is blocked. -/
def Covered (s : State) (left : Side → Bool) (again : ThreadId → Bool) (side : Side) : Prop :=
  Ready s side → left side = false →
    (∃ t, Acts s again side t) ∨
      ((s.queue side).wakeup = true ∧ (s.queue side).waitingList = [])

section Covered

variable {s s' : State} {left left' : Side → Bool} {again again' : ThreadId → Bool} {side : Side}
  {t u : ThreadId}

/-- Seen from the side, the states differ in the thread only. -/
structure Beside (s s' : State) (side : Side) (t : ThreadId) : Prop where
  ready : Ready s' side → Ready s side
  queue : s'.queue side = s.queue side
  call : ∀ u, u ≠ t → s'.call u = s.call u
  runs : ∀ u, u ≠ t → s.suspended u = false → s'.suspended u = false

theorem call_setCall_of_ne (s : State) (c : Call) (hu : u ≠ t) :
    (setCall s t c).call u = s.call u := update_of_ne hu _ _

theorem call_setCall_self (s : State) (t : ThreadId) (c : Call) : (setCall s t c).call t = c :=
  update_self _ _ _

theorem beside_setCall {c : Call} (hready : Ready s' side → Ready s side)
    (hqueue : s'.queue side = s.queue side) (hcall : s'.call = s.call)
    (hruns : ∀ u, s.suspended u = false → s'.suspended u = false) :
    Beside s (setCall s' t c) side t := by
  refine ⟨hready, hqueue, fun u hu => ?_, fun u _ => hruns u⟩
  rw [call_setCall_of_ne _ _ hu, hcall]

/-- A step of a thread that does not act for the side. -/
theorem Covered.frame (h : Covered s left again side) (hidle : ¬ Acts s again side t)
    (hb : Beside s s' side t) (hleft : left' side = false → left side = false)
    (hagain : ∀ u, u ≠ t → again' u = again u) : Covered s' left' again' side := by
  intro hr hl
  rcases h (hb.ready hr) (hleft hl) with ⟨u, hu⟩ | hflag
  · have hne : u ≠ t := by
      rintro rfl
      exact hidle hu
    refine Or.inl ⟨u, ?_⟩
    rcases hu with ⟨hsus, hat⟩ | ⟨hside, hwake⟩
    · refine Or.inl ⟨hb.runs u hne hsus, ?_⟩
      rw [hb.call u hne, hagain u hne]
      exact hat
    · refine Or.inr ⟨hside, ?_⟩
      rw [hb.call u hne]
      exact hwake
  · rw [hb.queue]
    exact Or.inr hflag

theorem Covered.of_acts (h : Acts s again side t) : Covered s left again side :=
  fun _ _ => Or.inl ⟨t, h⟩

theorem Covered.of_left (h : left side = decide (Ready s side)) : Covered s left again side := by
  intro hr hl
  rw [h, decide_eq_false_iff_not] at hl
  exact absurd hr hl

end Covered

/-- The parts of the state that a wake-up leaves alone. -/
theorem rtWqueueWakeup_frame (s : State) (side : Side) :
    (rtWqueueWakeup s side).call = s.call ∧ (rtWqueueWakeup s side).fifo = s.fifo ∧
      (rtWqueueWakeup s side).bufsz = s.bufsz ∧
      ∀ u, s.suspended u = false → (rtWqueueWakeup s side).suspended u = false := by
  unfold rtWqueueWakeup
  split
  · exact ⟨rfl, rfl, rfl, fun u hu => hu⟩
  · refine ⟨rfl, rfl, rfl, fun u hu => ?_⟩
    dsimp only
    rw [update_apply]
    split
    · rfl
    · exact hu

theorem rtWqueueWakeup_queue (s : State) {side other : Side} (h : other ≠ side) :
    (rtWqueueWakeup s side).queue other = s.queue other := by
  unfold rtWqueueWakeup
  split
  · exact update_of_ne h _ _
  · exact update_of_ne h _ _

/-- A wake-up resumes a blocked thread of its queue, or leaves the flag on an empty one. -/
theorem Queued.wakeup_cases {s : State} (h : Queued s) (side : Side) :
    (∃ t, (rtWqueueWakeup s side).suspended t = false ∧ Blocked s side t) ∨
      ((rtWqueueWakeup s side).queue side).wakeup = true ∧
        ((rtWqueueWakeup s side).queue side).waitingList = [] := by
  unfold rtWqueueWakeup
  split
  case h_1 => exact Or.inr (by simp)
  case h_2 u us hlist =>
    have hblocked : Blocked s side u :=
      (h.blocked side u).mp (by rw [hlist]; exact List.mem_cons_self)
    exact Or.inl ⟨u, update_self u false s.suspended, hblocked⟩

theorem Queued.wakeup {s : State} (h : Queued s) (side : Side) :
    Queued (rtWqueueWakeup s side) := by
  unfold rtWqueueWakeup
  split
  case h_1 hlist =>
    have hsame : ∀ other, (Function.update s.queue side ⟨true, []⟩ other).waitingList =
        (s.queue other).waitingList := by
      intro other
      by_cases ho : other = side
      · rw [ho, update_self, hlist]
      · rw [update_of_ne ho]
    constructor
    · intro other
      rw [hsame]
      exact h.nodup other
    · intro other t
      rw [hsame]
      exact h.blocked other t
  case h_2 u us hlist =>
    have hnodup := h.nodup side
    rw [hlist, List.nodup_cons] at hnodup
    have hu : Blocked s side u :=
      (h.blocked side u).mp (by rw [hlist]; exact List.mem_cons_self)
    constructor
    · intro other
      by_cases ho : other = side
      · dsimp only
        rw [ho, update_self]
        exact hnodup.2
      · dsimp only
        rw [update_of_ne ho]
        exact h.nodup other
    · intro other t
      have hiff := h.blocked other t
      unfold Blocked at hiff ⊢
      dsimp only
      by_cases ht : t = u
      · rw [ht, update_self]
        have hnot : u ∉ (Function.update s.queue side ⟨true, us⟩ other).waitingList := by
          by_cases ho : other = side
          · rw [ho, update_self]
            exact hnodup.1
          · rw [update_of_ne ho]
            intro hmem
            exact ho (((h.blocked other u).mp hmem).2.unique hu.2).1
        simp [hnot]
      · rw [update_of_ne ht]
        by_cases ho : other = side
        · rw [ho, hlist] at hiff
          rw [ho, update_self]
          simpa [ht] using hiff
        · rw [update_of_ne ho]
          exact hiff

theorem Queued.setCall {s : State} (h : Queued s) {t : ThreadId} (ht : s.suspended t = false)
    (c : Call) : Queued (setCall s t c) := by
  constructor
  · exact h.nodup
  · intro side u
    rw [show (Pipe.setCall s t c).queue = s.queue from rfl, h.blocked]
    unfold Blocked Pipe.setCall
    dsimp only
    by_cases hu : u = t
    · simp [hu, ht]
    · rw [update_of_ne hu]

theorem Queued.not_mem {s : State} (h : Queued s) {t : ThreadId} (ht : s.suspended t = false)
    (side : Side) : t ∉ (s.queue side).waitingList := by
  intro hmem
  have := ((h.blocked side t).mp hmem).1
  rw [ht] at this
  cases this

/-- The flag of a queue is of no account for who is in it. -/
theorem Queued.setFlag {s : State} (h : Queued s) (side : Side) (wakeup : Bool) :
    Queued { s with
      queue := Function.update s.queue side { s.queue side with wakeup := wakeup } } := by
  have hsame : ∀ other, (Function.update s.queue side
      { s.queue side with wakeup := wakeup } other).waitingList = (s.queue other).waitingList := by
    intro other
    by_cases ho : other = side
    · rw [ho, update_self]
    · rw [update_of_ne ho]
  constructor
  · intro other
    rw [hsame]
    exact h.nodup other
  · intro other t
    rw [hsame]
    exact h.blocked other t

theorem Queued.wait {s : State} (h : Queued s) {t : ThreadId} (ht : s.suspended t = false)
    {side : Side} {again switched : Call} (hat : switched.At side .switched) :
    Queued (rtWqueueWait s side t again switched) := by
  unfold rtWqueueWait
  split
  case isTrue => exact (h.setFlag side false).setCall ht again
  case isFalse =>
    have hnew := h.not_mem ht side
    constructor
    · intro other
      unfold Pipe.setCall
      dsimp only
      by_cases ho : other = side
      · rw [ho, update_self]
        exact List.Nodup.append (h.nodup side) (List.nodup_singleton t)
          (List.disjoint_singleton.mpr hnew)
      · rw [update_of_ne ho]
        exact h.nodup other
    · intro other u
      have hiff := h.blocked other u
      unfold Blocked at hiff ⊢
      unfold Pipe.setCall
      dsimp only
      by_cases hu : u = t
      · rw [hu, update_self, update_self]
        by_cases ho : other = side
        · simp [ho, hat]
        · have hno : ¬ switched.At other .switched := fun h => ho (h.unique hat).1
          rw [update_of_ne ho]
          simp [hno, h.not_mem ht other]
      · rw [update_of_ne hu, update_of_ne hu]
        by_cases ho : other = side
        · rw [ho] at hiff ⊢
          rw [update_self]
          simpa [hu] using hiff
        · rw [update_of_ne ho]
          exact hiff

theorem Queued.clean {s : State} (h : Queued s) {t : ThreadId} (ht : s.suspended t = false)
    (side : Side) (again : Call) : Queued (wqueueClean s side t again) := by
  have hlist : (s.queue side).waitingList.filter (· ≠ t) = (s.queue side).waitingList := by
    rw [List.filter_eq_self]
    intro u hu
    have hne : u ≠ t := fun heq => h.not_mem ht side (heq ▸ hu)
    simpa using hne
  unfold wqueueClean
  rw [hlist]
  exact (h.setFlag side false).setCall ht again

/-- A wake-up of the side by a thread that is not blocked. -/
theorem Covered.of_wakeup {s s' : State} (h : Queued s) {side : Side} {t : ThreadId}
    (ht : s.suspended t = false) (hqueue : s'.queue side = (rtWqueueWakeup s side).queue side)
    (hcall : ∀ u, u ≠ t → s'.call u = s.call u)
    (hrun : ∀ u, (rtWqueueWakeup s side).suspended u = false → s'.suspended u = false)
    (left : Side → Bool) (again : ThreadId → Bool) : Covered s' left again side := by
  intro _ _
  rcases h.wakeup_cases side with ⟨u, hu, hblocked⟩ | hflag
  · have hne : u ≠ t := by
      rintro rfl
      have := hblocked.1
      rw [ht] at this
      cases this
    refine Or.inl ⟨u, Or.inl ⟨hrun u hu, Or.inl ?_⟩⟩
    rw [hcall u hne]
    exact hblocked.2
  · rw [hqueue]
    exact Or.inr hflag

theorem Covered.of_wakeup_setCall {s : State} (h : Queued s) {side : Side} {t : ThreadId}
    (ht : s.suspended t = false) (c : Call) (left : Side → Bool) (again : ThreadId → Bool) :
    Covered (setCall (rtWqueueWakeup s side) t c) left again side := by
  refine Covered.of_wakeup h ht ?_ (fun u hu => ?_) ?_ left again
  · rfl
  · exact (call_setCall_of_ne _ _ hu).trans (congrFun (rtWqueueWakeup_frame s side).1 u)
  · exact fun u => id

/-! ## The invariant -/

/-- The ring buffer is sound. -/
structure SoundFifo (s : State) : Prop where
  holds : ∀ rb ∈ s.fifo, ∃ q, Holds rb q
  size : s.bufsz ≤ 32767

structure WakeInv (x : Watched) : Prop where
  queued : Queued x.pipe
  sound : SoundFifo x.pipe
  covered : ∀ side, Covered x.pipe x.left x.again side

theorem SoundFifo.setCall {s : State} {t : ThreadId} {c : Call} (h : SoundFifo s) :
    SoundFifo (setCall s t c) := ⟨h.holds, h.size⟩

theorem SoundFifo.wakeup {s : State} (h : SoundFifo s) (side : Side) :
    SoundFifo (rtWqueueWakeup s side) := by
  obtain ⟨-, hfifo, hsize, -⟩ := rtWqueueWakeup_frame s side
  constructor
  · rw [hfifo]
    exact h.holds
  · rw [hsize]
    exact h.size

theorem soundFifo_some {s : State} {rb : RtRingbuffer} {q : List Byte} (hfifo : s.fifo = some rb)
    (h : Holds rb q) (hsize : s.bufsz ≤ 32767) : SoundFifo s := by
  refine ⟨fun rb' hrb' => ?_, hsize⟩
  cases hfifo.symm.trans hrb'
  exact ⟨q, h⟩

/-- A read that takes no byte leaves as much of both as there was. -/
theorem available_get {rb : RtRingbuffer} {q : List Byte} (h : Holds rb q) {length : Nat}
    (hnil : (Ringbuffer.get rb length).2 = []) (side : Side) :
    available (Ringbuffer.get rb length).1 side = available rb side := by
  obtain ⟨hrest, hbytes⟩ := Ringbuffer.get_spec h length
  have hlen : (q.drop length).length = q.length := by
    rw [hnil] at hbytes
    have htake := congrArg List.length hbytes
    rw [List.length_take, List.length_nil] at htake
    rw [List.length_drop]
    omega
  have hdata : dataLen (Ringbuffer.get rb length).1 = dataLen rb := by
    rw [hrest.dataLen_eq, h.dataLen_eq, hlen]
  cases side with
  | reader => exact hdata
  | writer =>
    rw [available, available, spaceLen, spaceLen, hdata, Ringbuffer.get_bufferSize]

theorem leftAfter_rounds {x : Watched} {op : Op} {side : Side} (h : rounds x.pipe op side = true)
    (s' : State) : leftAfter x op s' side = decide (Ready s' side) := by
  rw [leftAfter, h, if_pos rfl]

theorem leftAfter_idle {x : Watched} {op : Op} {side : Side} (hr : rounds x.pipe op side = false)
    (hw : wakes x.pipe op side = false) (s' : State) : leftAfter x op s' side = x.left side := by
  rw [leftAfter, hr, hw]
  rfl

section Proceed

variable {x : Watched} {s' : State} {t : ThreadId} {side : Side} {op : Op}

/-- What is watched after a step. -/
def Watched.after (x : Watched) (op : Op) (s' : State) : Watched :=
  ⟨s', leftAfter x op s', againAfter x op⟩

/-- The step of the thread is of no account for the side. -/
def Idle (x : Watched) (op : Op) (t : ThreadId) (side : Side) : Prop :=
  ¬ Acts x.pipe x.again side t ∧ rounds x.pipe op side = false ∧ wakes x.pipe op side = false

/-- A step that is of no account for a side. -/
theorem WakeInv.idle (h : WakeInv x) (hidle : Idle x op t side) (hb : Beside x.pipe s' side t)
    (hagain : ∀ u, u ≠ t → againAfter x op u = x.again u) :
    Covered s' (leftAfter x op s') (againAfter x op) side := by
  obtain ⟨hno, hr, hw⟩ := hidle
  apply (h.covered side).frame hno hb
  · intro hl
    rw [leftAfter_idle hr hw] at hl
    exact hl
  · exact hagain

theorem WakeInv.idleProceed (h : WakeInv x) (hidle : Idle x (.proceed t) t side)
    (hb : Beside x.pipe s' side t) :
    Covered s' (leftAfter x (.proceed t) s') (againAfter x (.proceed t)) side :=
  h.idle hidle hb fun _ hu => update_of_ne hu _ _

theorem WakeInv.of_sides (hq : Queued s') (hsound : SoundFifo s')
    (hreader : Covered s' (leftAfter x op s') (againAfter x op) .reader)
    (hwriter : Covered s' (leftAfter x op s') (againAfter x op) .writer) :
    WakeInv (x.after op s') := by
  refine ⟨hq, hsound, fun side => ?_⟩
  cases side with
  | reader => exact hreader
  | writer => exact hwriter

/-- The round of a read. -/
theorem WakeInv.readRound (h : WakeInv x) (ht : x.pipe.suspended t = false) {fd : Fd} {count : Nat}
    (hcall : x.pipe.call t = .reading fd count .lock) {ret : Option Ret}
    (hs : readRound x.pipe t fd count = some (s', ret)) : WakeInv (x.after (.proceed t) s') := by
  have hrounds : rounds x.pipe (.proceed t) .reader = true := by
    simp [rounds, hcall, Call.At]
  have hreader : Covered s' (leftAfter x (.proceed t) s') (againAfter x (.proceed t)) .reader :=
    .of_left (leftAfter_rounds hrounds s')
  have hidle : roundBytes x.pipe count = [] → Idle x (.proceed t) t .writer := by
    intro hnil
    simp [Idle, Acts, Retrying, rounds, wakes, hcall, Call.At, hnil]
  unfold Pipe.readRound at hs
  split at hs
  case isTrue hzero =>
    cases hs
    have hnil : roundBytes x.pipe count = [] := if_pos hzero
    refine .of_sides (h.queued.setCall ht _) h.sound.setCall hreader ?_
    exact h.idleProceed (hidle hnil) (beside_setCall id rfl rfl fun _ => id)
  case isFalse hzero =>
    obtain ⟨rb, hrb, heq⟩ := Option.map_eq_some_iff.mp hs
    obtain ⟨q, hq⟩ := h.sound.holds rb hrb
    have hholds := (Ringbuffer.get_spec hq (count % 2 ^ 16)).1
    have hbytes : roundBytes x.pipe count = (Ringbuffer.get rb (count % 2 ^ 16)).2 := by
      rw [roundBytes, if_neg hzero, hrb]
      rfl
    have hsame := @available_get _ _ hq (count % 2 ^ 16)
    generalize Ringbuffer.get rb (count % 2 ^ 16) = r at heq hholds hbytes hsame
    obtain ⟨rb', bytes⟩ := r
    dsimp only at heq hholds hbytes hsame
    let s₁ : State := { x.pipe with fifo := some rb', returned := x.pipe.returned ++ bytes }
    have hq₁ : Queued s₁ := ⟨h.queued.nodup, h.queued.blocked⟩
    have hsound : SoundFifo s₁ := soundFifo_some rfl hholds h.sound.size
    have hnone : bytes = [] → ∀ c, s' = setCall s₁ t c → WakeInv (x.after (.proceed t) s') := by
      rintro hnil c rfl
      refine .of_sides (hq₁.setCall ht c) hsound.setCall hreader ?_
      refine h.idleProceed (hidle (hbytes.trans hnil)) (beside_setCall ?_ rfl rfl fun _ => id)
      rintro ⟨rb'', hrb'', hpos⟩
      cases hrb''
      exact ⟨rb, hrb, by rw [← hsame hnil .writer]; exact hpos⟩
    split at heq
    case isTrue hpos =>
      cases heq
      have hrun₁ := (rtWqueueWakeup_frame s₁ .writer).2.2.2
      exact .of_sides ((hq₁.wakeup .writer).setCall (hrun₁ t ht) _)
        (hsound.wakeup .writer).setCall hreader (.of_wakeup_setCall hq₁ ht _ _ _)
    case isFalse hpos =>
      have hnil : bytes = [] := List.eq_nil_of_length_eq_zero (by omega)
      split at heq
      · exact hnone hnil _ (Prod.mk.inj heq).1.symm
      · exact hnone hnil _ (Prod.mk.inj heq).1.symm

/-- The round of a write. -/
theorem WakeInv.writeRound (h : WakeInv x) (ht : x.pipe.suspended t = false) {fd : Fd}
    {rest : List Byte} {n : Nat} {wakeup : Bool}
    (hcall : x.pipe.call t = .writing fd rest n wakeup .lock) {ret : Option Ret}
    (hs : writeRound x.pipe t fd rest n wakeup = some (s', ret)) :
    WakeInv (x.after (.proceed t) s') := by
  have hrounds : rounds x.pipe (.proceed t) .writer = true := by
    simp [rounds, hcall, Call.At]
  have hwriter : Covered s' (leftAfter x (.proceed t) s') (againAfter x (.proceed t)) .writer :=
    .of_left (leftAfter_rounds hrounds s')
  unfold Pipe.writeRound at hs
  split at hs
  case isTrue hzero =>
    cases hs
    have hidle : Idle x (.proceed t) t .reader := by
      simp [Idle, Acts, Retrying, rounds, wakes, hcall, Call.At, Call.toWake]
    refine .of_sides (h.queued.setCall ht _) h.sound.setCall ?_ hwriter
    exact h.idleProceed hidle (beside_setCall id rfl rfl fun _ => id)
  case isFalse hzero =>
    obtain ⟨rb, hrb, heq⟩ := Option.map_eq_some_iff.mp hs
    obtain ⟨q, hq⟩ := h.sound.holds rb hrb
    have hholds := (Ringbuffer.put_spec hq (rest.take (rest.length % 2 ^ 16))).1
    generalize Ringbuffer.put rb (rest.take (rest.length % 2 ^ 16)) = r at heq hholds
    obtain ⟨rb', len⟩ := r
    dsimp only at heq hholds
    let s₁ : State :=
      { x.pipe with fifo := some rb', accepted := x.pipe.accepted ++ rest.take len }
    have hq₁ : Queued s₁ := ⟨h.queued.nodup, h.queued.blocked⟩
    have hsound : SoundFifo s₁ := soundFifo_some rfl hholds h.sound.size
    have hcovered : ∀ c : Call, c.toWake = true → s' = setCall s₁ t c →
        WakeInv (x.after (.proceed t) s') := by
      rintro c hc rfl
      refine .of_sides (hq₁.setCall ht c) hsound.setCall ?_ hwriter
      exact .of_acts (.inr ⟨rfl, by rw [call_setCall_self]; exact hc⟩)
    split at heq
    · exact hcovered _ rfl (Prod.mk.inj heq).1.symm
    · split at heq
      · exact hcovered _ rfl (Prod.mk.inj heq).1.symm
      · exact hcovered _ rfl (Prod.mk.inj heq).1.symm

/-- A step that wakes one side, and is of no account for the other. -/
theorem WakeInv.wakeup (h : WakeInv x) (ht : x.pipe.suspended t = false) (c : Call)
    (hidle : ∀ other, other ≠ side → Idle x (.proceed t) t other) :
    WakeInv (x.after (.proceed t) (setCall (rtWqueueWakeup x.pipe side) t c)) := by
  obtain ⟨hcall, hfifo, -, hrun⟩ := rtWqueueWakeup_frame x.pipe side
  refine ⟨(h.queued.wakeup side).setCall (hrun t ht) c, (h.sound.wakeup side).setCall,
    fun other => ?_⟩
  by_cases ho : other = side
  · rw [ho]
    exact .of_wakeup_setCall h.queued ht c _ _
  · refine h.idleProceed (hidle other ho)
      (beside_setCall ?_ (rtWqueueWakeup_queue x.pipe ho) hcall hrun)
    rw [Ready, hfifo]
    exact id

/-- A step that changes the call of its thread, and is of no account for either side. -/
theorem WakeInv.move (h : WakeInv x) (ht : x.pipe.suspended t = false) (c : Call) (deleted : Bool)
    (hidle : ∀ side, Idle x (.proceed t) t side) :
    WakeInv (x.after (.proceed t) (setCall { x.pipe with deleted := deleted } t c)) := by
  have hq : Queued { x.pipe with deleted := deleted } := ⟨h.queued.nodup, h.queued.blocked⟩
  refine ⟨hq.setCall ht c, ⟨h.sound.holds, h.sound.size⟩, fun side => ?_⟩
  exact h.idleProceed (hidle side) (beside_setCall id rfl rfl fun _ => id)

/-- A thread goes back to the lock: it acts for its side. -/
theorem covered_again {again : Call} (ht : s'.suspended t = false) (hagain : again.At side .lock)
    (hcall : s'.call t = again) (left : Side → Bool) :
    Covered s' left (againAfter x (.proceed t)) side := by
  apply Covered.of_acts
  refine Or.inl ⟨ht, Or.inr ⟨?_, ?_⟩⟩
  · rw [hcall]
    exact hagain
  · rw [againAfter, update_self]

/-- A thread before the section of `rt_wqueue_wait` goes on by the flag, or blocks. -/
theorem WakeInv.wait (h : WakeInv x) (ht : x.pipe.suspended t = false) {again switched : Call}
    (hagain : again.At side .lock) (hswitched : switched.At side .switched)
    (hidle : ∀ side, Idle x (.proceed t) t side) :
    WakeInv (x.after (.proceed t) (rtWqueueWait x.pipe side t again switched)) := by
  have hqueued := @Queued.wait _ h.queued _ ht _ again _ hswitched
  unfold rtWqueueWait at hqueued ⊢
  by_cases hflag : (x.pipe.queue side).wakeup = true
  · rw [if_pos hflag] at hqueued ⊢
    refine ⟨hqueued, ⟨h.sound.holds, h.sound.size⟩, fun other => ?_⟩
    by_cases ho : other = side
    · rw [ho]
      refine covered_again ?_ hagain (call_setCall_self _ _ _) _
      exact ht
    · exact h.idleProceed (hidle other) (beside_setCall id (update_of_ne ho _ _) rfl fun _ => id)
  · rw [if_neg hflag] at hqueued ⊢
    refine ⟨hqueued, ⟨h.sound.holds, h.sound.size⟩, fun other => ?_⟩
    have hrun : ∀ u, u ≠ t → x.pipe.suspended u = false →
        Function.update x.pipe.suspended t true u = false := by
      intro u hu hs
      rw [update_of_ne hu]
      exact hs
    by_cases ho : other = side
    · obtain ⟨hno, hr, hw⟩ := hidle other
      intro hready hleft
      change leftAfter x (.proceed t) _ other = false at hleft
      rw [leftAfter_idle hr hw] at hleft
      rcases h.covered other hready hleft with ⟨u, hu⟩ | ⟨hyes, -⟩
      · have hne : u ≠ t := by
          rintro rfl
          exact hno hu
        refine Or.inl ⟨u, ?_⟩
        unfold Acts Retrying at hu ⊢
        dsimp only [Watched.after]
        rw [call_setCall_of_ne _ _ hne, againAfter, update_of_ne hne]
        exact hu.imp (fun hu => ⟨hrun u hne hu.1, hu.2⟩) id
      · rw [ho] at hyes
        exact absurd hyes hflag
    · exact h.idleProceed (hidle other)
        ⟨id, update_of_ne ho _ _, fun u hu => call_setCall_of_ne _ _ hu, hrun⟩

/-- A thread behind the switch of `rt_wqueue_wait` clears the flag and goes back to the lock. -/
theorem WakeInv.clean (h : WakeInv x) (ht : x.pipe.suspended t = false) {again : Call}
    (hagain : again.At side .lock)
    (hidle : ∀ other, other ≠ side → Idle x (.proceed t) t other) :
    WakeInv (x.after (.proceed t) (wqueueClean x.pipe side t again)) := by
  refine ⟨h.queued.clean ht side again, ⟨h.sound.holds, h.sound.size⟩, fun other => ?_⟩
  by_cases ho : other = side
  · rw [ho]
    refine covered_again ?_ hagain (call_setCall_self _ _ _) _
    exact ht
  · exact h.idleProceed (hidle other ho)
      (beside_setCall id (update_of_ne ho _ _) rfl fun _ => id)

/-- The next step of a thread inside of a call. -/
theorem WakeInv.proceed (h : WakeInv x) (ht : x.pipe.suspended t = false) {ret : Option Ret}
    (hs : proceed x.pipe t = some (s', ret)) : WakeInv (x.after (.proceed t) s') := by
  have hsides : ∀ {P : Side → Prop}, P .reader → P .writer → ∀ side, P side := by
    intro P hr hw side
    cases side with
    | reader => exact hr
    | writer => exact hw
  unfold Pipe.proceed at hs
  split at hs
  case h_1 => cases hs
  case h_2 fd count hcall => exact h.readRound ht hcall hs
  case h_3 fd count hcall =>
    cases hs
    apply h.wakeup ht
    apply hsides
    · simp [Idle, Acts, Retrying, rounds, wakes, hcall, Call.At, Call.toWake]
    · simp
  case h_4 fd count hcall =>
    cases hs
    refine h.wait ht ?_ ?_ (hsides ?_ ?_)
    · exact ⟨rfl, rfl⟩
    · exact ⟨rfl, rfl⟩
    · simp [Idle, Acts, Retrying, rounds, wakes, hcall, Call.At, Call.toWake]
    · simp [Idle, Acts, Retrying, rounds, wakes, hcall, Call.At]
  case h_5 fd count hcall =>
    cases hs
    refine h.clean ht ?_ (hsides ?_ ?_)
    · exact ⟨rfl, rfl⟩
    · simp
    · simp [Idle, Acts, Retrying, rounds, wakes, hcall, Call.At]
  case h_6 fd rest n wakeup hcall => exact h.writeRound ht hcall hs
  case h_7 fd rest n wakeup hcall =>
    cases hs
    apply h.wakeup ht
    apply hsides
    · simp
    · simp [Idle, Acts, Retrying, rounds, wakes, hcall, Call.At]
  case h_8 fd rest n wakeup hcall =>
    cases hs
    refine h.wait ht ?_ ?_ (hsides ?_ ?_)
    · exact ⟨rfl, rfl⟩
    · exact ⟨rfl, rfl⟩
    · simp [Idle, Acts, Retrying, rounds, wakes, hcall, Call.At, Call.toWake]
    · simp [Idle, Acts, Retrying, rounds, wakes, hcall, Call.At]
  case h_9 fd rest n wakeup hcall =>
    cases hs
    refine h.clean ht ?_ (hsides ?_ ?_)
    · exact ⟨rfl, rfl⟩
    · simp [Idle, Acts, Retrying, rounds, wakes, hcall, Call.At, Call.toWake]
    · simp
  case h_10 wret wakeup hcall =>
    cases hs
    cases wakeup with
    | true =>
      apply h.wakeup ht
      apply hsides
      · simp
      · simp [Idle, Acts, Retrying, rounds, wakes, hcall, Call.At]
    | false =>
      apply h.move ht .outside x.pipe.deleted
      apply hsides
      · simp [Idle, Acts, Retrying, rounds, wakes, hcall, Call.At, Call.toWake]
      · simp [Idle, Acts, Retrying, rounds, wakes, hcall, Call.At]
  case h_11 hcall =>
    cases hs
    apply h.move ht .outside
    apply hsides
    · simp [Idle, Acts, Retrying, rounds, wakes, hcall, Call.At, Call.toWake]
    · simp [Idle, Acts, Retrying, rounds, wakes, hcall, Call.At]

/-- A thread that is in no call does not act. -/
theorem idle_outside (hout : x.pipe.call t = .outside) (hr : rounds x.pipe op side = false)
    (hw : wakes x.pipe op side = false) : Idle x op t side := by
  refine ⟨?_, hr, hw⟩
  simp [Acts, Retrying, hout, Call.At, Call.toWake]

theorem rtRingbufferCreate_holds {size : Nat} (hsize : size ≤ 32767) {pool : Option (Nat → Byte)}
    {rb : RtRingbuffer} (h : rtRingbufferCreate size pool = some rb) : Holds rb [] := by
  unfold rtRingbufferCreate at h
  split at h
  · cases h
  · obtain ⟨p, -, rfl⟩ := Option.map_eq_some_iff.mp h
    exact Ringbuffer.rtRingbufferInit_holds p hsize (by omega)

theorem WakeInv.open (h : WakeInv x) (ht : x.pipe.call t = .outside) (fd : Fd)
    (pool : Option (Nat → Byte)) :
    WakeInv (x.after (.open t fd pool) (pipeFopsOpen x.pipe fd pool).1) := by
  have hwakes : ∀ side, wakes x.pipe (.open t fd pool) side = false := fun side => by
    cases side <;> rfl
  unfold pipeFopsOpen
  dsimp only
  split
  case isTrue hzero =>
    have hwriter : rounds x.pipe (.open t fd pool) .writer = true := by simp [rounds, hzero]
    cases hrb : rtRingbufferCreate x.pipe.bufsz pool with
    | none =>
      refine ⟨⟨h.queued.nodup, h.queued.blocked⟩, ⟨?_, h.sound.size⟩, fun side => ?_⟩
      · rintro rb ⟨⟩
      · rintro ⟨rb, ⟨⟩, -⟩
    | some rb =>
      have hholds := rtRingbufferCreate_holds h.sound.size hrb
      refine ⟨⟨h.queued.nodup, h.queued.blocked⟩, ⟨?_, h.sound.size⟩, fun side => ?_⟩
      · intro rb' hrb'
        cases hrb'
        exact ⟨[], hholds⟩
      · cases side with
        | reader =>
          rintro ⟨rb', hrb', hpos⟩
          cases hrb'
          rw [available, hholds.dataLen_eq] at hpos
          cases hpos
        | writer => exact .of_left (leftAfter_rounds hwriter _)
  case isFalse hpos =>
    refine ⟨⟨h.queued.nodup, h.queued.blocked⟩, ⟨h.sound.holds, h.sound.size⟩, fun side => ?_⟩
    have hr : rounds x.pipe (.open t fd pool) side = false := by simp [rounds, hpos]
    exact h.idle (idle_outside ht hr (hwakes side)) ⟨id, rfl, fun _ _ => rfl, fun _ _ => id⟩
      fun _ _ => rfl

end Proceed

/-! ## Closing -/

/-- A wake-up of a side that a condition asks for. -/
def wakeupIf (c : Bool) (s : State) (side : Side) : State :=
  if c then rtWqueueWakeup s side else s

theorem wakeupIf_frame (c : Bool) (s : State) (side : Side) :
    (wakeupIf c s side).call = s.call ∧ (wakeupIf c s side).fifo = s.fifo ∧
      (wakeupIf c s side).bufsz = s.bufsz ∧
      (∀ u, s.suspended u = false → (wakeupIf c s side).suspended u = false) ∧
      ∀ other, other ≠ side → (wakeupIf c s side).queue other = s.queue other := by
  cases c with
  | true =>
    obtain ⟨hcall, hfifo, hsize, hrun⟩ := rtWqueueWakeup_frame s side
    exact ⟨hcall, hfifo, hsize, hrun, fun other ho => rtWqueueWakeup_queue s ho⟩
  | false => exact ⟨rfl, rfl, rfl, fun u hu => hu, fun other _ => rfl⟩

theorem Queued.wakeupIf {s : State} (h : Queued s) (c : Bool) (side : Side) :
    Queued (wakeupIf c s side) := by
  cases c with
  | true => exact h.wakeup side
  | false => exact h

theorem wakeup_readers (s : State) (side : Side) :
    (rtWqueueWakeup s side).readers = s.readers := by
  unfold rtWqueueWakeup
  split <;> rfl

/-- The state of a close between its counting and its wake-ups. -/
def counted (s : State) (fd : Fd) : State := { s with
  readers := if fd.reads then wsub 8 s.readers 1 else s.readers
  writers := if fd.writes then wsub 8 s.writers 1 else s.writers
  fds := s.fds.erase fd }

/-- The two wake-ups of a close. -/
def closeWakeups (s : State) (t : ThreadId) (fd : Fd) : State :=
  wakeupIf (wakes s (.close t fd) .writer)
    (wakeupIf (wakes s (.close t fd) .reader) (counted s fd) .reader) .writer

/-- Behind its wake-ups a close only gives up the ring buffer with the last descriptor. -/
theorem pipeFopsClose_eq (s : State) (t : ThreadId) (fd : Fd) :
    ∃ fifo refCount, (fifo = none ∨ fifo = (closeWakeups s t fd).fifo) ∧
      (pipeFopsClose s t fd).1 = setCall { closeWakeups s t fd with
        fifo := fifo, refCount := refCount } t .closing := by
  have hreaders : (if (counted s fd).writers = 0 then rtWqueueWakeup (counted s fd) .reader
      else counted s fd).readers = (counted s fd).readers := by
    split
    · exact wakeup_readers _ _
    · rfl
  have hwakeups : closeWakeups s t fd =
      let y := if (counted s fd).writers = 0 then rtWqueueWakeup (counted s fd) .reader
        else counted s fd
      if y.readers = 0 then rtWqueueWakeup y .writer else y := by
    simp only [closeWakeups, wakeupIf, wakes, decide_eq_true_eq]
    rw [hreaders]
    rfl
  have hclose : (pipeFopsClose s t fd).1 =
      let z := closeWakeups s t fd
      let z := if z.refCount = 1 then { z with fifo := none } else z
      setCall { z with refCount := wsub 8 z.refCount 1 } t .closing := by
    rw [hwakeups]
    rfl
  rw [hclose]
  dsimp only
  split
  · exact ⟨none, _, Or.inl rfl, rfl⟩
  · exact ⟨_, _, Or.inr rfl, rfl⟩

theorem WakeInv.close {x : Watched} (h : WakeInv x) {t : ThreadId}
    (ht : x.pipe.suspended t = false) (hout : x.pipe.call t = .outside) (fd : Fd) :
    WakeInv (x.after (.close t fd) (pipeFopsClose x.pipe t fd).1) := by
  obtain ⟨fifo, refCount, hfifo, heq⟩ := pipeFopsClose_eq x.pipe t fd
  have hq : Queued (counted x.pipe fd) := ⟨h.queued.nodup, h.queued.blocked⟩
  have hq₁ := hq.wakeupIf (wakes x.pipe (.close t fd) .reader) .reader
  have hq₂ := hq₁.wakeupIf (wakes x.pipe (.close t fd) .writer) .writer
  obtain ⟨hcall₁, hfifo₁, hsize₁, hrun₁, hqueue₁⟩ :=
    wakeupIf_frame (wakes x.pipe (.close t fd) .reader) (counted x.pipe fd) .reader
  obtain ⟨hcall₂, hfifo₂, hsize₂, hrun₂, hqueue₂⟩ :=
    wakeupIf_frame (wakes x.pipe (.close t fd) .writer)
      (wakeupIf (wakes x.pipe (.close t fd) .reader) (counted x.pipe fd) .reader) .writer
  change Queued (closeWakeups x.pipe t fd) at hq₂
  change (closeWakeups x.pipe t fd).call = _ at hcall₂
  change (closeWakeups x.pipe t fd).fifo = _ at hfifo₂
  change (closeWakeups x.pipe t fd).bufsz = _ at hsize₂
  change ∀ u, _ → (closeWakeups x.pipe t fd).suspended u = false at hrun₂
  change ∀ other, _ → (closeWakeups x.pipe t fd).queue other = _ at hqueue₂
  have hkept : fifo = none ∨ fifo = x.pipe.fifo := by
    rw [hfifo₂, hfifo₁] at hfifo
    exact hfifo
  have hready : ∀ side, Ready (setCall { closeWakeups x.pipe t fd with
      fifo := fifo, refCount := refCount } t .closing) side → Ready x.pipe side := by
    rintro side ⟨rb, hrb, hpos⟩
    rcases hkept with hnone | hsame
    · rw [show fifo = some rb from hrb] at hnone
      cases hnone
    · exact ⟨rb, hsame ▸ hrb, hpos⟩
  have hcalls : ∀ u, u ≠ t → (setCall { closeWakeups x.pipe t fd with
      fifo := fifo, refCount := refCount } t .closing).call u = x.pipe.call u := by
    intro u hu
    rw [call_setCall_of_ne _ _ hu]
    rw [hcall₂, hcall₁]
    rfl
  have hrun : ∀ u, x.pipe.suspended u = false → (closeWakeups x.pipe t fd).suspended u = false :=
    fun u hu => hrun₂ u (hrun₁ u hu)
  rw [heq]
  refine ⟨Queued.setCall (s := { closeWakeups x.pipe t fd with
    fifo := fifo, refCount := refCount }) ⟨hq₂.nodup, hq₂.blocked⟩ (hrun t ht) _, ⟨?_, ?_⟩, ?_⟩
  · intro rb hrb
    rcases hkept with hnone | hsame
    · rw [show fifo = some rb from hrb] at hnone
      cases hnone
    · exact h.sound.holds rb (hsame ▸ hrb)
  · show (closeWakeups x.pipe t fd).bufsz ≤ 32767
    rw [hsize₂, hsize₁]
    exact h.sound.size
  · intro side
    cases side with
    | reader =>
      have hqueue : (closeWakeups x.pipe t fd).queue .reader =
          (wakeupIf (wakes x.pipe (.close t fd) .reader) (counted x.pipe fd) .reader).queue
            .reader := hqueue₂ .reader (by decide)
      cases hw : wakes x.pipe (.close t fd) .reader with
      | true =>
        rw [hw] at hqueue hrun₂
        refine Covered.of_wakeup hq ht ?_ hcalls ?_ _ _
        · exact hqueue
        · exact hrun₂
      | false =>
        rw [hw] at hqueue
        exact h.idle (idle_outside hout rfl hw)
          ⟨hready .reader, hqueue, hcalls, fun u _ => hrun u⟩ fun _ _ => rfl
    | writer =>
      cases hw : wakes x.pipe (.close t fd) .writer with
      | true =>
        refine Covered.of_wakeup hq₁ (hrun₁ t ht) ?_ ?_ ?_ _ _
        · rw [closeWakeups, hw]
          rfl
        · intro u hu
          refine (hcalls u hu).trans ?_
          rw [hcall₁]
          rfl
        · intro u hu
          rw [closeWakeups, hw]
          exact hu
      | false =>
        have hqueue : (closeWakeups x.pipe t fd).queue .writer = x.pipe.queue .writer := by
          rw [closeWakeups, hw]
          exact hqueue₁ .writer (by decide)
        exact h.idle (idle_outside hout rfl hw)
          ⟨hready .writer, hqueue, hcalls, fun u _ => hrun u⟩ fun _ _ => rfl

/-! ## Every run -/

theorem watched_inv (isNamed : Bool) {bufsz : Nat} (hsize : bufsz ≤ 32767) :
    WakeInv (watched isNamed bufsz) := by
  constructor
  · constructor
    · exact fun side => List.nodup_nil
    · intro side t
      constructor
      · intro hmem
        cases hmem
      · rintro ⟨hsus, -⟩
        cases hsus
  · constructor
    · rintro rb ⟨⟩
    · exact hsize
  · rintro side ⟨rb, ⟨⟩, -⟩

/-- A call that begins with the tests before the lock. -/
theorem WakeInv.begin {x : Watched} (h : WakeInv x) {t : ThreadId}
    (ht : x.pipe.suspended t = false) (hout : x.pipe.call t = .outside) {op : Op}
    (hquiet : ∀ side, rounds x.pipe op side = false ∧ wakes x.pipe op side = false)
    (hagain : ∀ u, u ≠ t → againAfter x op u = x.again u) {s' : State}
    (hs' : s' = x.pipe ∨ ∃ c, s' = setCall x.pipe t c) :
    WakeInv (x.after op s') := by
  have hidle : ∀ side, Idle x op t side :=
    fun side => idle_outside hout (hquiet side).1 (hquiet side).2
  rcases hs' with rfl | ⟨c, rfl⟩
  · refine ⟨h.queued, h.sound, fun side => ?_⟩
    exact h.idle (hidle side) ⟨id, rfl, fun _ _ => rfl, fun _ _ => id⟩ hagain
  · refine ⟨h.queued.setCall ht c, h.sound.setCall, fun side => ?_⟩
    exact h.idle (hidle side) (beside_setCall id rfl rfl fun _ => id) hagain

theorem WakeInv.step {x x' : Watched} {op : Op} (h : WakeInv x)
    (hs : watchedStep x op = some x') : WakeInv x' := by
  obtain ⟨s', hstep, rfl⟩ := Option.map_eq_some_iff.mp hs
  obtain ⟨⟨s'', ret⟩, hcall, rfl⟩ := Option.map_eq_some_iff.mp hstep
  cases op with
  | «open» t fd pool =>
    simp only [Pipe.call, Option.ite_none_right_eq_some] at hcall
    obtain ⟨⟨-, -, hout⟩, hres⟩ := hcall
    have hopen := h.open hout fd pool
    rw [Option.some.inj hres] at hopen
    exact hopen
  | close t fd =>
    simp only [Pipe.call, Option.ite_none_right_eq_some] at hcall
    obtain ⟨⟨⟨-, ht, hout⟩, -⟩, hres⟩ := hcall
    have hclose := h.close ht hout fd
    rw [Option.some.inj hres] at hclose
    exact hclose
  | read t fd count =>
    simp only [Pipe.call, Option.ite_none_right_eq_some] at hcall
    obtain ⟨⟨⟨-, ht, hout⟩, -⟩, hres⟩ := hcall
    apply h.begin ht hout
    · exact fun side => ⟨by cases side <;> rfl, by cases side <;> rfl⟩
    · exact fun u hu => update_of_ne hu _ _
    · unfold pipeFopsRead at hres
      split at hres
      · exact Or.inl (pair_inj hres).1.symm
      · exact Or.inr ⟨_, (pair_inj hres).1.symm⟩
  | write t fd data =>
    simp only [Pipe.call, Option.ite_none_right_eq_some] at hcall
    obtain ⟨⟨⟨-, ht, hout⟩, -⟩, hres⟩ := hcall
    apply h.begin ht hout
    · exact fun side => ⟨by cases side <;> rfl, by cases side <;> rfl⟩
    · exact fun u hu => update_of_ne hu _ _
    · unfold pipeFopsWrite at hres
      split at hres
      · exact Or.inl (pair_inj hres).1.symm
      · split at hres
        · exact Or.inl (pair_inj hres).1.symm
        · exact Or.inr ⟨_, (pair_inj hres).1.symm⟩
  | proceed t =>
    simp only [Pipe.call, Option.ite_none_right_eq_some] at hcall
    obtain ⟨⟨-, ht⟩, hres⟩ := hcall
    exact h.proceed ht hres

theorem WakeInv.no_lost_wakeup {x : Watched} (h : WakeInv x) : NoLostWakeUp x := by
  rintro side hready ⟨t, hblocked⟩
  cases hleft : x.left side with
  | true => exact Or.inr (Or.inr rfl)
  | false =>
    rcases h.covered side hready hleft with ⟨u, hretry | hwake⟩ | ⟨-, hnil⟩
    · exact Or.inl ⟨u, hretry⟩
    · exact Or.inr (Or.inl ⟨hwake.1, u, hwake.2⟩)
    · have hmem := (h.queued.blocked side t).mpr hblocked
      rw [hnil] at hmem
      cases hmem

/-- In every reachable state a side with something to do and blocked threads has a thread that
has been woken and has not tried again, or a writer is about to wake the readers, or a round
of the side since its last wake-up left it something to do. -/
theorem pipe_no_lost_wakeup (isNamed : Bool) (bufsz : Nat) (hsize : bufsz ≤ 32767)
    (ops : List Op) (x : Watched)
    (hrun : Runs.run watchedStep (watched isNamed bufsz) ops = some x) : NoLostWakeUp x :=
  (Runs.run_invariant (fun _ _ _ h hs => h.step hs) (watched_inv isNamed hsize)
    hrun).no_lost_wakeup

/-! ## Threads that take no step -/

/-- The thread whose step it is. -/
def Op.thread : Op → ThreadId
  | .open t _ _ => t
  | .close t _ => t
  | .read t _ _ => t
  | .write t _ _ => t
  | .proceed t => t

section Others

variable {s s' : State} {t u : ThreadId} {ret : Option Ret}

theorem readRound_others (hu : u ≠ t) {fd : Fd} {count : Nat}
    (h : readRound s t fd count = some (s', ret)) : s'.call u = s.call u := by
  unfold readRound at h
  split at h
  · rw [← (pair_inj h).1, call_setCall_of_ne _ _ hu]
  · obtain ⟨rb, -, heq⟩ := Option.map_eq_some_iff.mp h
    generalize Ringbuffer.get rb (count % 2 ^ 16) = r at heq
    dsimp only at heq
    split at heq
    · rw [← (Prod.mk.inj heq).1, call_setCall_of_ne _ _ hu, (rtWqueueWakeup_frame _ _).1]
    · split at heq
      · rw [← (Prod.mk.inj heq).1, call_setCall_of_ne _ _ hu]
      · rw [← (Prod.mk.inj heq).1, call_setCall_of_ne _ _ hu]

theorem writeRound_others (hu : u ≠ t) {fd : Fd} {rest : List Byte} {n : Nat} {wakeup : Bool}
    (h : writeRound s t fd rest n wakeup = some (s', ret)) : s'.call u = s.call u := by
  unfold writeRound at h
  split at h
  · rw [← (pair_inj h).1, call_setCall_of_ne _ _ hu]
  · obtain ⟨rb, -, heq⟩ := Option.map_eq_some_iff.mp h
    generalize Ringbuffer.put rb (rest.take (rest.length % 2 ^ 16)) = r at heq
    dsimp only at heq
    split at heq
    · rw [← (Prod.mk.inj heq).1, call_setCall_of_ne _ _ hu]
    · split at heq
      · rw [← (Prod.mk.inj heq).1, call_setCall_of_ne _ _ hu]
      · rw [← (Prod.mk.inj heq).1, call_setCall_of_ne _ _ hu]

theorem wait_others (s : State) (side : Side) (again switched : Call) (hu : u ≠ t) :
    (rtWqueueWait s side t again switched).call u = s.call u := by
  unfold rtWqueueWait
  split
  · exact call_setCall_of_ne _ _ hu
  · exact call_setCall_of_ne _ _ hu

theorem proceed_others (hu : u ≠ t) (h : proceed s t = some (s', ret)) :
    s'.call u = s.call u := by
  unfold proceed at h
  split at h
  · cases h
  · exact readRound_others hu h
  · rw [← (pair_inj h).1, call_setCall_of_ne _ _ hu,
      (rtWqueueWakeup_frame _ _).1]
  · rw [← (pair_inj h).1, wait_others _ _ _ _ hu]
  · rw [← (pair_inj h).1, wqueueClean, call_setCall_of_ne _ _ hu]
  · exact writeRound_others hu h
  · rw [← (pair_inj h).1, call_setCall_of_ne _ _ hu,
      (rtWqueueWakeup_frame _ _).1]
  · rw [← (pair_inj h).1, wait_others _ _ _ _ hu]
  · rw [← (pair_inj h).1, wqueueClean, call_setCall_of_ne _ _ hu]
  · rw [← (pair_inj h).1, call_setCall_of_ne _ _ hu]
    split
    · rw [(rtWqueueWakeup_frame _ _).1]
    · rfl
  · cases h
    exact call_setCall_of_ne _ _ hu

theorem pipeFopsOpen_call (s : State) (fd : Fd) (pool : Option (Nat → Byte)) :
    (pipeFopsOpen s fd pool).1.call = s.call := by
  unfold pipeFopsOpen
  dsimp only
  split
  · split <;> rfl
  · rfl

theorem call_others {op : Op} (hu : u ≠ op.thread) (h : call s op = some (s', ret)) :
    s'.call u = s.call u := by
  cases op with
  | «open» t fd pool =>
    simp only [Pipe.call, Option.ite_none_right_eq_some] at h
    have heq : (pipeFopsOpen s fd pool).1 = s' := congrArg Prod.fst (Option.some.inj h.2)
    rw [← heq, pipeFopsOpen_call]
  | close t fd =>
    change u ≠ t at hu
    simp only [Pipe.call, Option.ite_none_right_eq_some] at h
    obtain ⟨fifo, refCount, -, heq⟩ := pipeFopsClose_eq s t fd
    have hs' : (pipeFopsClose s t fd).1 = s' := congrArg Prod.fst (Option.some.inj h.2)
    rw [← hs', heq, call_setCall_of_ne _ _ hu, closeWakeups, (wakeupIf_frame _ _ _).1,
      (wakeupIf_frame _ _ _).1]
    rfl
  | read t fd count =>
    change u ≠ t at hu
    simp only [Pipe.call, Option.ite_none_right_eq_some] at h
    obtain ⟨-, heq⟩ := h
    unfold pipeFopsRead at heq
    split at heq
    · rw [← (pair_inj heq).1]
    · rw [← (pair_inj heq).1, call_setCall_of_ne _ _ hu]
  | write t fd data =>
    change u ≠ t at hu
    simp only [Pipe.call, Option.ite_none_right_eq_some] at h
    obtain ⟨-, heq⟩ := h
    unfold pipeFopsWrite at heq
    split at heq
    · rw [← (pair_inj heq).1]
    · split at heq
      · rw [← (pair_inj heq).1]
      · rw [← (pair_inj heq).1, call_setCall_of_ne _ _ hu]
  | proceed t =>
    simp only [Pipe.call, Option.ite_none_right_eq_some] at h
    exact proceed_others hu h.2

end Others

/-- A thread that takes no step in a run is outside of the file operations behind it. -/
theorem outside_of_not_mem {isNamed : Bool} {bufsz : Nat} {ops : List Op} {x : Watched}
    {u : ThreadId} (hu : ∀ op ∈ ops, op.thread ≠ u)
    (hrun : Runs.run watchedStep (watched isNamed bufsz) ops = some x) :
    x.pipe.call u = .outside := by
  have hstep : ∀ (x : Watched) (op : Op) (x' : Watched), x.pipe.call u = .outside →
      op.thread ≠ u → watchedStep x op = some x' → x'.pipe.call u = .outside := by
    intro x op x' hout hne hs
    obtain ⟨s', hstep, rfl⟩ := Option.map_eq_some_iff.mp hs
    obtain ⟨⟨s'', ret⟩, hcall, rfl⟩ := Option.map_eq_some_iff.mp hstep
    exact (call_others (fun h => hne h.symm) hcall).trans hout
  have hstart : (watched isNamed bufsz).pipe.call u = .outside := rfl
  exact Runs.run_invariant_along hstep hstart (Runs.along_of_forall hu _) hrun

/-- Two readers are blocked when two bytes are written. The one that is woken takes the first
byte, and the other stays blocked. -/
def oneByteEach : List Op :=
  [.open 1 ⟨.rdonly, false⟩ (some fun _ => 0), .open 3 ⟨.rdonly, false⟩ none,
    .open 2 ⟨.wronly, false⟩ none,
    .read 1 ⟨.rdonly, false⟩ 1, .proceed 1, .proceed 1, .proceed 1,
    .read 3 ⟨.rdonly, false⟩ 1, .proceed 3, .proceed 3, .proceed 3,
    .write 2 ⟨.wronly, false⟩ [7, 8], .proceed 2, .proceed 2, .proceed 1, .proceed 1]

theorem reader_left_blocked :
    ∃ x, Runs.run watchedStep (watched true 8) oneByteEach = some x ∧
      Ready x.pipe .reader ∧ Blocked x.pipe .reader 3 ∧
      ¬ ∃ t, Retrying x.pipe x.again .reader t := by
  have hlast : (Runs.run watchedStep (watched true 8) oneByteEach).map (fun x =>
      (decide (Ready x.pipe .reader), x.pipe.suspended 3, x.pipe.call 1, x.pipe.call 2,
        x.pipe.call 3)) =
      some (true, true, .outside, .outside, .reading ⟨.rdonly, false⟩ 1 .switched) := by
    decide +kernel
  obtain ⟨x, hrun, hx⟩ := Option.map_eq_some_iff.mp hlast
  simp only [Prod.mk.injEq, decide_eq_true_eq] at hx
  obtain ⟨hready, hsus, h1, h2, h3⟩ := hx
  refine ⟨x, hrun, hready, ⟨hsus, by rw [h3]; exact ⟨rfl, rfl⟩⟩, ?_⟩
  rintro ⟨t, hrunning, hat⟩
  by_cases ht : t = 3
  · rw [ht, hsus] at hrunning
    cases hrunning
  · have hout : x.pipe.call t = .outside := by
      by_cases ht1 : t = 1
      · rw [ht1, h1]
      · by_cases ht2 : t = 2
        · rw [ht2, h2]
        · apply outside_of_not_mem _ hrun
          simp only [oneByteEach, List.forall_mem_cons, Op.thread]
          simp [Ne.symm ht, Ne.symm ht1, Ne.symm ht2]
    rw [hout] at hat
    rcases hat with hat | hat
    · exact hat
    · exact hat.1

theorem pipe_no_lost_wakeup_two :
    ∃ x, Runs.run watchedStep (watched true 8) oneByteEach = some x ∧ NoLostWakeUp x := by
  have hlast : (Runs.run watchedStep (watched true 8) oneByteEach).isSome = true := by
    decide +kernel
  obtain ⟨x, hrun⟩ := Option.isSome_iff_exists.mp hlast
  exact ⟨x, hrun, pipe_no_lost_wakeup true 8 (by decide) oneByteEach x hrun⟩

end RtThread.Pipe
