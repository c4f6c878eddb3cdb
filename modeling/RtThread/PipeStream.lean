import RtThread.Pipe
import RtThread.RingbufferFifo

/-!
# The byte stream of a pipe

From the open that creates the ring buffer to the close that destroys it, the bytes that
writes have accepted are the bytes that reads have returned followed by the bytes in the
ring buffer. A read returns 0 only when no descriptor is open for writing; it does so
even if there are bytes left.
-/
namespace RtThread.Pipe

open Ipc (ThreadId)
open Ringbuffer (Byte RtRingbuffer Holds)

/-- The bytes that have not been read are in the ring buffer. -/
structure Stream (s : State) : Prop where
  rest : ∀ rb, s.fifo = some rb → ∃ q, Holds rb q ∧ s.accepted = s.returned ++ q
  front : s.returned <+: s.accepted

/-- The counters count the open descriptors. -/
structure Counts (s : State) : Prop where
  readers : s.readers = s.fds.countP Fd.reads
  writers : s.writers = s.fds.countP Fd.writes
  refs : s.refCount = s.fds.length
  few : s.fds.length ≤ 255

structure Inv (s : State) : Prop where
  stream : Stream s
  counts : Counts s
  size : s.bufsz ≤ 32767

/-! ## Steps that leave the stream alone -/

/-- The two states differ in the calls, the wait queues and the suspended threads only. -/
structure Same (s s' : State) : Prop where
  fifo : s'.fifo = s.fifo
  accepted : s'.accepted = s.accepted
  returned : s'.returned = s.returned
  readers : s'.readers = s.readers
  writers : s'.writers = s.writers
  refs : s'.refCount = s.refCount
  fds : s'.fds = s.fds
  bufsz : s'.bufsz = s.bufsz

section same

variable {s s' s'' : State}

theorem Same.trans (h : Same s s') (h' : Same s' s'') : Same s s'' :=
  ⟨h'.fifo.trans h.fifo, h'.accepted.trans h.accepted, h'.returned.trans h.returned,
    h'.readers.trans h.readers, h'.writers.trans h.writers, h'.refs.trans h.refs,
    h'.fds.trans h.fds, h'.bufsz.trans h.bufsz⟩

theorem same_setCall (s : State) (t : ThreadId) (c : Call) : Same s (setCall s t c) :=
  ⟨rfl, rfl, rfl, rfl, rfl, rfl, rfl, rfl⟩

theorem same_wakeup (s : State) (side : Side) : Same s (rtWqueueWakeup s side) := by
  unfold rtWqueueWakeup
  split
  · exact ⟨rfl, rfl, rfl, rfl, rfl, rfl, rfl, rfl⟩
  · exact ⟨rfl, rfl, rfl, rfl, rfl, rfl, rfl, rfl⟩

theorem same_wakeup_if (s : State) (c : Prop) [Decidable c] (side : Side) :
    Same s (if c then rtWqueueWakeup s side else s) := by
  split
  · exact same_wakeup s side
  · exact ⟨rfl, rfl, rfl, rfl, rfl, rfl, rfl, rfl⟩

theorem same_wait (s : State) (side : Side) (t : ThreadId) (again switched : Call) :
    Same s (rtWqueueWait s side t again switched) := by
  unfold rtWqueueWait
  split
  · exact ⟨rfl, rfl, rfl, rfl, rfl, rfl, rfl, rfl⟩
  · exact ⟨rfl, rfl, rfl, rfl, rfl, rfl, rfl, rfl⟩

theorem Stream.same (h : Stream s) (hs : Same s s') : Stream s' := by
  refine ⟨fun rb hrb => ?_, ?_⟩
  · rw [hs.fifo] at hrb
    rw [hs.accepted, hs.returned]
    exact h.rest rb hrb
  · rw [hs.accepted, hs.returned]
    exact h.front

theorem Inv.same (h : Inv s) (hs : Same s s') : Inv s' := by
  refine ⟨h.stream.same hs, ⟨?_, ?_, ?_, ?_⟩, ?_⟩
  · rw [hs.readers, hs.fds]
    exact h.counts.readers
  · rw [hs.writers, hs.fds]
    exact h.counts.writers
  · rw [hs.refs, hs.fds]
    exact h.counts.refs
  · rw [hs.fds]
    exact h.counts.few
  · rw [hs.bufsz]
    exact h.size

end same

/-- The counters are about the descriptors only. -/
theorem Counts.keep {s : State} (h : Counts s) (fifo : Option RtRingbuffer)
    (accepted returned : List Byte) :
    Counts { s with fifo := fifo, accepted := accepted, returned := returned } :=
  ⟨h.readers, h.writers, h.refs, h.few⟩

section steps

variable {s s' : State} {ret : Option Ret} {t : ThreadId} {fd : Fd}

/-! ## Reading and writing -/

theorem Stream.get (h : Stream s) {rb : RtRingbuffer} (hrb : s.fifo = some rb) (length : Nat) :
    Stream { s with
      fifo := some (Ringbuffer.get rb length).1
      returned := s.returned ++ (Ringbuffer.get rb length).2 } := by
  obtain ⟨q, hq, hacc⟩ := h.rest rb hrb
  obtain ⟨hrest, hbytes⟩ := Ringbuffer.get_spec hq length
  have hacc' : s.accepted = s.returned ++ (Ringbuffer.get rb length).2 ++ q.drop length := by
    rw [hbytes, List.append_assoc, List.take_append_drop, hacc]
  refine ⟨fun rb' hrb' => ?_, ⟨_, hacc'.symm⟩⟩
  cases hrb'
  exact ⟨_, hrest, hacc'⟩

theorem Stream.put (h : Stream s) {rb : RtRingbuffer} (hrb : s.fifo = some rb) (data : List Byte) :
    Stream { s with
      fifo := some (Ringbuffer.put rb data).1
      accepted := s.accepted ++ data.take (Ringbuffer.put rb data).2 } := by
  obtain ⟨q, hq, hacc⟩ := h.rest rb hrb
  obtain ⟨hrest, hlen⟩ := Ringbuffer.put_spec hq data
  have htake : data.take (Ringbuffer.put rb data).2 = data.take (rb.bufferSize - q.length) := by
    rw [hlen, Nat.min_comm, ← List.take_eq_take_min]
  have hacc' : s.accepted ++ data.take (Ringbuffer.put rb data).2 =
      s.returned ++ (q ++ data.take (rb.bufferSize - q.length)) := by
    rw [htake, hacc, List.append_assoc]
  refine ⟨fun rb' hrb' => ?_, ⟨_, hacc'.symm⟩⟩
  cases hrb'
  exact ⟨_, hrest, hacc'⟩

theorem Inv.readRound (h : Inv s) {count : Nat} (hs : readRound s t fd count = some (s', ret)) :
    Inv s' ∧ (ret = some (.read []) → s.writers = 0) := by
  unfold Pipe.readRound at hs
  split at hs
  · rename_i hzero
    cases hs
    exact ⟨h.same (same_setCall _ _ _), fun _ => hzero⟩
  · obtain ⟨rb, hrb, heq⟩ := Option.map_eq_some_iff.mp hs
    have hget : Inv { s with
        fifo := some (Ringbuffer.get rb (count % 2 ^ 16)).1
        returned := s.returned ++ (Ringbuffer.get rb (count % 2 ^ 16)).2 } :=
      ⟨h.stream.get hrb _, h.counts.keep _ _ _, h.size⟩
    generalize Ringbuffer.get rb (count % 2 ^ 16) = r at heq hget
    obtain ⟨rb', bytes⟩ := r
    dsimp only at heq hget
    split at heq
    · rename_i hpos
      cases heq
      refine ⟨hget.same ((same_wakeup _ _).trans (same_setCall _ _ _)), fun hret => ?_⟩
      have hnil := Ret.read.inj (Option.some.inj hret)
      rw [hnil] at hpos
      cases hpos
    · split at heq
      · cases heq
        exact ⟨hget.same (same_setCall _ _ _), fun hret => nomatch hret⟩
      · cases heq
        exact ⟨hget.same (same_setCall _ _ _), fun hret => nomatch hret⟩

theorem Inv.writeRound (h : Inv s) {rest : List Byte} {n : Nat} {wakeup : Bool}
    (hs : writeRound s t fd rest n wakeup = some (s', ret)) : Inv s' ∧ ret = none := by
  unfold Pipe.writeRound at hs
  split at hs
  · cases hs
    exact ⟨h.same (same_setCall _ _ _), rfl⟩
  · obtain ⟨rb, hrb, heq⟩ := Option.map_eq_some_iff.mp hs
    generalize hdata : rest.take (rest.length % 2 ^ 16) = data at heq
    have hput : Inv { s with
        fifo := some (Ringbuffer.put rb data).1
        accepted := s.accepted ++ rest.take (Ringbuffer.put rb data).2 } := by
      have hstream := h.stream.put hrb data
      obtain ⟨q, hq, -⟩ := h.stream.rest rb hrb
      have hlen : (Ringbuffer.put rb data).2 ≤ data.length := by
        rw [(Ringbuffer.put_spec hq data).2]
        exact Nat.min_le_left _ _
      have htake : ∀ len, len ≤ data.length → data.take len = rest.take len := by
        intro len hle
        rw [← hdata, List.length_take] at hle
        rw [← hdata, List.take_take, Nat.min_eq_left (by omega)]
      rw [htake _ hlen] at hstream
      exact ⟨hstream, h.counts.keep _ _ _, h.size⟩
    generalize Ringbuffer.put rb data = r at heq hput
    obtain ⟨rb', len⟩ := r
    dsimp only at heq hput
    split at heq
    · cases heq
      exact ⟨hput.same (same_setCall _ _ _), rfl⟩
    · split at heq
      · cases heq
        exact ⟨hput.same (same_setCall _ _ _), rfl⟩
      · cases heq
        exact ⟨hput.same (same_setCall _ _ _), rfl⟩

/-! ## Opening and closing -/

theorem Counts.add (h : Counts s) (hfew : s.fds.length < 255) (fd : Fd) (fifo : Option RtRingbuffer)
    (accepted returned : List Byte) :
    Counts { s with
      fifo := fifo
      accepted := accepted
      returned := returned
      readers := if fd.reads then wadd 8 s.readers 1 else s.readers
      writers := if fd.writes then wadd 8 s.writers 1 else s.writers
      refCount := wadd 8 s.refCount 1
      fds := fd :: s.fds } := by
  have hr : s.fds.countP Fd.reads ≤ s.fds.length := List.countP_le_length
  have hw : s.fds.countP Fd.writes ≤ s.fds.length := List.countP_le_length
  have hadd : ∀ x, x ≤ s.fds.length → wadd 8 x 1 = x + 1 := by
    intro x hx
    exact wadd_eq (by omega)
  refine ⟨?_, ?_, ?_, Nat.succ_le_of_lt hfew⟩
  · rw [h.readers, hadd _ hr, List.countP_cons]
    split <;> rfl
  · show (if fd.writes then wadd 8 s.writers 1 else s.writers) = _
    rw [h.writers, hadd _ hw, List.countP_cons]
    split <;> rfl
  · rw [h.refs, hadd _ (Nat.le_refl _)]
    rfl

/-- A ring buffer that has just been created is empty. -/
theorem created_holds {bufsz : Nat} {pool : Option (Nat → Byte)} {rb : RtRingbuffer}
    (hsize : bufsz ≤ 32767) (hrb : rtRingbufferCreate bufsz pool = some rb) : Holds rb [] := by
  unfold rtRingbufferCreate at hrb
  split at hrb
  · cases hrb
  · obtain ⟨p, -, rfl⟩ := Option.map_eq_some_iff.mp hrb
    exact Ringbuffer.rtRingbufferInit_holds p hsize (by omega)

theorem Inv.opened (h : Inv s) (hfew : s.fds.length < 255) (pool : Option (Nat → Byte)) :
    Inv (pipeFopsOpen s fd pool).1 := by
  unfold pipeFopsOpen
  dsimp only
  split
  · cases hrb : rtRingbufferCreate s.bufsz pool with
    | none =>
      exact ⟨⟨fun _ hnone => (nomatch hnone), h.stream.front⟩, h.counts.keep _ _ _, h.size⟩
    | some rb =>
      have hholds : Holds rb [] := created_holds h.size hrb
      refine ⟨⟨fun rb' hrb' => ?_, List.nil_prefix⟩, h.counts.add hfew fd _ _ _, h.size⟩
      cases hrb'
      exact ⟨[], hholds, rfl⟩
  · exact ⟨⟨h.stream.rest, h.stream.front⟩, h.counts.add hfew fd _ _ _, h.size⟩

theorem countP_erase_of_mem {p : Fd → Bool} {fds : List Fd} (hmem : fd ∈ fds) :
    fds.countP p = (fds.erase fd).countP p + if p fd then 1 else 0 := by
  rw [(List.perm_cons_erase hmem).countP_eq, List.countP_cons]

theorem Counts.remove (h : Counts s) (hmem : fd ∈ s.fds) (fifo : Option RtRingbuffer) :
    Counts { s with
      fifo := fifo
      readers := if fd.reads then wsub 8 s.readers 1 else s.readers
      writers := if fd.writes then wsub 8 s.writers 1 else s.writers
      refCount := wsub 8 s.refCount 1
      fds := s.fds.erase fd } := by
  have hlen := List.length_erase_of_mem hmem
  have hpos : 0 < s.fds.length := List.length_pos_of_mem hmem
  have hfew := h.few
  have hr : s.fds.countP Fd.reads ≤ s.fds.length := List.countP_le_length
  have hw : s.fds.countP Fd.writes ≤ s.fds.length := List.countP_le_length
  have hreads := countP_erase_of_mem (p := Fd.reads) hmem
  have hwrites := countP_erase_of_mem (p := Fd.writes) hmem
  refine ⟨?_, ?_, ?_, ?_⟩
  · show (if fd.reads then wsub 8 s.readers 1 else s.readers) = (s.fds.erase fd).countP Fd.reads
    rw [h.readers]
    split
    · rename_i hfd
      rw [hfd, if_pos rfl] at hreads
      rw [wsub_eq (by omega) (by omega)]
      omega
    · rename_i hfd
      rw [if_neg hfd] at hreads
      omega
  · show (if fd.writes then wsub 8 s.writers 1 else s.writers) = (s.fds.erase fd).countP Fd.writes
    rw [h.writers]
    split
    · rename_i hfd
      rw [hfd, if_pos rfl] at hwrites
      rw [wsub_eq (by omega) (by omega)]
      omega
    · rename_i hfd
      rw [if_neg hfd] at hwrites
      omega
  · show wsub 8 s.refCount 1 = (s.fds.erase fd).length
    rw [h.refs, hlen, wsub_eq (by omega) (by omega)]
  · show (s.fds.erase fd).length ≤ 255
    omega

/-- The last part of a close, on a state whose wait queues may have changed. -/
theorem Same.release {x y : State} (h : Same x y) (t : ThreadId) :
    Same { x with
        fifo := if x.refCount = 1 then none else x.fifo
        refCount := wsub 8 x.refCount 1 }
      (setCall { (if y.refCount = 1 then { y with fifo := none } else y) with
        refCount := wsub 8 (if y.refCount = 1 then { y with fifo := none } else y).refCount 1 } t
          .closing) := by
  obtain ⟨hfifo, hacc, hret, hr, hw, hrefs, hfds, hsize⟩ := h
  by_cases hone : x.refCount = 1
  · rw [if_pos hone, if_pos (hrefs.trans hone)]
    exact ⟨rfl, hacc, hret, hr, hw, congrArg (wsub 8 · 1) hrefs, hfds, hsize⟩
  · rw [if_neg hone, if_neg (fun h => hone (hrefs.symm.trans h))]
    exact ⟨hfifo, hacc, hret, hr, hw, congrArg (wsub 8 · 1) hrefs, hfds, hsize⟩

/-- A close forgets the ring buffer with the last descriptor. -/
theorem Inv.closed (h : Inv s) (hmem : fd ∈ s.fds) : Inv (pipeFopsClose s t fd).1 := by
  have hend : Inv { s with
      fifo := if s.refCount = 1 then none else s.fifo
      readers := if fd.reads then wsub 8 s.readers 1 else s.readers
      writers := if fd.writes then wsub 8 s.writers 1 else s.writers
      refCount := wsub 8 s.refCount 1
      fds := s.fds.erase fd } := by
    refine ⟨⟨fun rb hrb => ?_, h.stream.front⟩, h.counts.remove hmem _, h.size⟩
    by_cases hone : s.refCount = 1
    · simp [hone] at hrb
    · exact h.stream.rest rb (by simpa [hone] using hrb)
  let x : State := { s with
    readers := if fd.reads then wsub 8 s.readers 1 else s.readers
    writers := if fd.writes then wsub 8 s.writers 1 else s.writers
    fds := s.fds.erase fd }
  let y : State := if x.writers = 0 then rtWqueueWakeup x .reader else x
  have hxy : Same x y := same_wakeup_if x (x.writers = 0) .reader
  have hyz := same_wakeup_if y (y.readers = 0) .writer
  exact hend.same ((hxy.trans hyz).release t)

theorem Inv.proceed (h : Inv s) (hs : proceed s t = some (s', ret)) :
    Inv s' ∧ (ret = some (.read []) → s.writers = 0) := by
  unfold Pipe.proceed at hs
  split at hs
  · cases hs
  · exact h.readRound hs
  · cases hs
    exact ⟨h.same ((same_wakeup _ _).trans (same_setCall _ _ _)), fun heq => nomatch heq⟩
  · cases hs
    exact ⟨h.same (same_wait _ _ _ _ _), fun heq => nomatch heq⟩
  · cases hs
    exact ⟨h.same ⟨rfl, rfl, rfl, rfl, rfl, rfl, rfl, rfl⟩, fun heq => nomatch heq⟩
  · obtain ⟨hinv, hret⟩ := h.writeRound hs
    exact ⟨hinv, fun heq => nomatch hret.symm.trans heq⟩
  · cases hs
    exact ⟨h.same ((same_wakeup _ _).trans (same_setCall _ _ _)), fun heq => nomatch heq⟩
  · cases hs
    exact ⟨h.same (same_wait _ _ _ _ _), fun heq => nomatch heq⟩
  · cases hs
    exact ⟨h.same ⟨rfl, rfl, rfl, rfl, rfl, rfl, rfl, rfl⟩, fun heq => nomatch heq⟩
  · cases hs
    refine ⟨?_, fun heq => nomatch heq⟩
    split
    · exact h.same ((same_wakeup _ _).trans (same_setCall _ _ _))
    · exact h.same (same_setCall _ _ _)
  · cases hs
    exact ⟨h.same ⟨rfl, rfl, rfl, rfl, rfl, rfl, rfl, rfl⟩, fun heq => nomatch heq⟩

/-! ## Runs -/

/-- A descriptor is opened while fewer than 255 are open. -/
def Few (s : State) : Op → Prop
  | .open _ _ _ => s.fds.length < 255
  | _ => True

instance (s : State) (op : Op) : Decidable (Few s op) :=
  match op with
  | .open _ _ _ => inferInstanceAs (Decidable (_ < _))
  | .close _ _ => .isTrue trivial
  | .read _ _ _ => .isTrue trivial
  | .write _ _ _ => .isTrue trivial
  | .proceed _ => .isTrue trivial

theorem pipeFopsOpen_ret (s : State) (fd : Fd) (pool : Option (Nat → Byte)) :
    (pipeFopsOpen s fd pool).2 ≠ some (.read []) := by
  unfold pipeFopsOpen
  dsimp only
  split
  · split
    · exact nofun
    · exact nofun
  · exact nofun

/-- A read returns 0 only when the counter of the writers is 0. -/
theorem Inv.call {op : Op} (h : Inv s) (hfew : Few s op) (hs : call s op = some (s', ret)) :
    Inv s' ∧ (ret = some (.read []) → s.writers = 0) := by
  cases op with
  | «open» t fd pool =>
    simp only [Pipe.call] at hs
    split at hs
    · have hinv : Inv (pipeFopsOpen s fd pool).1 := h.opened hfew pool
      have hret := pipeFopsOpen_ret s fd pool
      rw [Option.some.inj hs] at hinv hret
      exact ⟨hinv, fun heq => absurd heq hret⟩
    · cases hs
  | close t fd =>
    simp only [Pipe.call] at hs
    split at hs
    · rename_i hmem
      have hinv := h.closed (t := t) hmem.2
      have hret : (pipeFopsClose s t fd).2 = none := rfl
      rw [Option.some.inj hs] at hinv hret
      exact ⟨hinv, fun heq => nomatch hret.symm.trans heq⟩
    · cases hs
  | read t fd count =>
    simp only [Pipe.call] at hs
    split at hs
    · unfold pipeFopsRead at hs
      split at hs
      · rename_i hzero
        cases hs
        exact ⟨h, fun _ => hzero⟩
      · cases hs
        exact ⟨h.same (same_setCall _ _ _), fun heq => nomatch heq⟩
    · cases hs
  | write t fd data =>
    simp only [Pipe.call] at hs
    split at hs
    · unfold pipeFopsWrite at hs
      split at hs
      · cases hs
        exact ⟨h, fun heq => nomatch heq⟩
      · split at hs
        · cases hs
          exact ⟨h, fun heq => nomatch heq⟩
        · cases hs
          exact ⟨h.same (same_setCall _ _ _), fun heq => nomatch heq⟩
    · cases hs
  | proceed t =>
    simp only [Pipe.call] at hs
    split at hs
    · exact h.proceed hs
    · cases hs

end steps

theorem step_inv {s s' : State} {op : Op} (hs : step s op = some s') (hfew : Few s op)
    (h : Inv s) : Inv s' := by
  obtain ⟨⟨s₁, ret⟩, hcall, rfl⟩ := Option.map_eq_some_iff.mp hs
  exact (h.call hfew hcall).1

theorem inv_create (isNamed : Bool) {bufsz : Nat} (hsize : bufsz ≤ 32767) :
    Inv (rtPipeCreate isNamed bufsz) :=
  ⟨⟨fun _ hnone => (nomatch hnone), List.nil_prefix⟩, ⟨rfl, rfl, rfl, Nat.zero_le _⟩, hsize⟩

/-- A read that returns 0 finds no descriptor that is open for writing. -/
theorem Inv.end_of_file {s s' : State} {op : Op} (h : Inv s)
    (hs : Pipe.call s op = some (s', some (.read []))) : ∀ fd ∈ s.fds, fd.writes = false := by
  have hfew : Few s op := by
    cases op with
    | «open» t fd pool =>
      simp only [Pipe.call] at hs
      split at hs
      · exact absurd (congrArg Prod.snd (Option.some.inj hs)) (pipeFopsOpen_ret s fd pool)
      · cases hs
    | close | read | write | proceed => trivial
  have hzero : s.fds.countP Fd.writes = 0 := by
    rw [← h.counts.writers]
    exact (h.call hfew hs).2 rfl
  intro fd hfd
  exact Bool.eq_false_iff.mpr (List.countP_eq_zero.mp hzero fd hfd)

/-- In every run that never has more than 255 descriptors open, the bytes that reads have returned
are a prefix of the bytes that writes have accepted since the ring buffer was created, the others
are in the ring buffer, and a read returns 0 only when no writer is open. -/
theorem pipe_stream (isNamed : Bool) (bufsz : Nat) (hsize : bufsz ≤ 32767) (ops : List Op)
    (s : State) (hok : Runs.Along step Few (rtPipeCreate isNamed bufsz) ops)
    (hrun : Runs.run step (rtPipeCreate isNamed bufsz) ops = some s) :
    s.returned <+: s.accepted ∧
      (∀ rb, s.fifo = some rb → ∃ q, Holds rb q ∧ s.accepted = s.returned ++ q) ∧
      ∀ op s', call s op = some (s', some (.read [])) → ∀ fd ∈ s.fds, fd.writes = false := by
  have hinv := Runs.run_invariant_along (fun _ _ _ h hfew hs => step_inv hs hfew h)
    (inv_create isNamed hsize) hok hrun
  exact ⟨hinv.stream.front, hinv.stream.rest, fun _ _ hs => hinv.end_of_file hs⟩

def readEnd : Fd := ⟨.rdonly, false⟩

def writeEnd : Fd := ⟨.wronly, false⟩

/-- A write of three bytes into an empty pipe, of which a read takes two. -/
def writeThree : List Op :=
  [.open 1 readEnd (some fun _ => 0), .open 2 writeEnd none, .write 2 writeEnd [1, 2, 3],
    .proceed 2, .proceed 2, .read 1 readEnd 2, .proceed 1]

theorem pipe_stream_three :
    Runs.Along step Few (rtPipeCreate true 8) writeThree ∧
      ∃ s, Runs.run step (rtPipeCreate true 8) writeThree = some s ∧
        s.accepted = [1, 2, 3] ∧ s.returned = [1, 2] ∧
        (∀ rb, s.fifo = some rb → ∃ q, Holds rb q ∧ s.accepted = s.returned ++ q) := by
  have hok : Runs.Along step Few (rtPipeCreate true 8) writeThree := by decide +kernel
  have hlast : (Runs.run step (rtPipeCreate true 8) writeThree).map
      (fun s => (s.accepted, s.returned)) = some ([1, 2, 3], [1, 2]) := by decide +kernel
  obtain ⟨s, hrun, hs⟩ := Option.map_eq_some_iff.mp hlast
  simp only [Prod.mk.injEq] at hs
  exact ⟨hok, s, hrun, hs.1, hs.2,
    (pipe_stream true 8 (by decide) writeThree s hok hrun).2.1⟩

/-- The last writer is closed before the reader takes the three bytes: the read returns 0. -/
def closedUnread : List Op :=
  [.open 1 readEnd (some fun _ => 0), .open 2 writeEnd none, .write 2 writeEnd [1, 2, 3],
    .proceed 2, .proceed 2, .close 2 writeEnd, .proceed 2]

theorem closed_unread_end_of_file :
    ∃ s, Runs.run step (rtPipeCreate true 8) closedUnread = some s ∧
      s.accepted = [1, 2, 3] ∧ s.returned = [] ∧
      (call s (.read 1 readEnd 3)).map Prod.snd = some (some (.read [])) := by
  have hlast : (Runs.run step (rtPipeCreate true 8) closedUnread).map
      (fun s => (s.accepted, s.returned, (call s (.read 1 readEnd 3)).map Prod.snd)) =
        some ([1, 2, 3], [], some (some (.read []))) := by decide +kernel
  obtain ⟨s, hrun, hs⟩ := Option.map_eq_some_iff.mp hlast
  simp only [Prod.mk.injEq] at hs
  exact ⟨s, hrun, hs.1, hs.2.1, hs.2.2⟩

end RtThread.Pipe
