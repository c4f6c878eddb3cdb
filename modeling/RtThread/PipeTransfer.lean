import RtThread.PipeDevice

/-!
# The lengths of pipe transfers

The loops of `rt_pipe_read`, `rt_pipe_write` and `pipe_fops_write` pass what is left of
the count to the ring buffer, whose lengths are half words, and take a transfer of
length zero for the end. So the whole call transfers at most the count modulo 2^16, and a
writer can go to sleep with room in the ring buffer.
-/
namespace RtThread.Pipe

open Ipc (ThreadId)
open Ringbuffer (Byte RtRingbuffer Holds contents dataLen spaceLen)

/-- `rt_pipe_write` takes as many bytes of the data as there is room for, in order. -/
def WritesAll (rb : RtRingbuffer) (data : List Byte) : Prop :=
  (rtPipeWrite rb data).2 = min data.length (spaceLen rb) ∧
    contents (rtPipeWrite rb data).1 = contents rb ++ data.take (rtPipeWrite rb data).2

/-- `rt_pipe_read` gives as many bytes as there are, in order. -/
def ReadsAll (rb : RtRingbuffer) (count : Nat) : Prop :=
  (rtPipeRead rb count).2.length = min count (dataLen rb) ∧
    contents rb = (rtPipeRead rb count).2 ++ contents (rtPipeRead rb count).1

/-- The thread is about to wait for room in the ring buffer. -/
def Sleeps (s : State) (t : ThreadId) : Prop :=
  ∃ fd rest ret wakeup, s.call t = .writing fd rest ret wakeup .wake

/-- A round of `pipe_fops_write` goes to sleep only when the ring buffer is full. -/
def SleepsFull (s : State) (t : ThreadId) : Prop :=
  ∀ s' rb, step s (.proceed t) = some s' → s'.fifo = some rb → Sleeps s' t → spaceLen rb = 0

section transfer

variable {rb : RtRingbuffer} {q : List Byte}

theorem writesAll_iff (h : Holds rb q) (data : List Byte) :
    WritesAll rb data ↔ min data.length (spaceLen rb) ≤ data.length % 2 ^ 16 := by
  have hspace := h.spaceLen_eq
  obtain ⟨hlen, hrest⟩ := writeLoop_spec data 0 h
  rw [Nat.zero_add, Nat.sub_zero, ← hspace] at hlen
  rw [List.drop_zero, Nat.sub_zero, ← hspace, ← hlen] at hrest
  have horder : contents (rtPipeWrite rb data).1 =
      contents rb ++ data.take (rtPipeWrite rb data).2 := by
    rw [h.contents_eq]
    exact hrest.contents_eq
  rw [WritesAll, and_iff_left horder, rtPipeWrite, hlen]
  omega

theorem readsAll_iff (h : Holds rb q) (count : Nat) :
    ReadsAll rb count ↔ min count (dataLen rb) ≤ count % 2 ^ 16 := by
  have hdata := h.dataLen_eq
  obtain ⟨hbytes, hrest⟩ := readLoop_spec count [] h
  rw [List.nil_append, List.length_nil, Nat.sub_zero] at hbytes
  rw [List.length_nil, Nat.sub_zero] at hrest
  have horder : contents rb = (rtPipeRead rb count).2 ++ contents (rtPipeRead rb count).1 := by
    rw [h.contents_eq, rtPipeRead, hbytes, hrest.contents_eq, List.take_append_drop]
  rw [ReadsAll, and_iff_left horder, rtPipeRead, hbytes, List.length_take, hdata]
  omega

variable {s : State} {t : ThreadId} {fd : Fd} {rest : List Byte} {ret : Nat} {wakeup : Bool}

/-- What a round does that has taken `len` bytes. -/
theorem writeRound_eq (hfifo : s.fifo = some rb) (hreaders : s.readers ≠ 0) :
    ∃ s₁ r, writeRound s t fd rest ret wakeup = some (s₁, r) ∧
      s₁.fifo = some (Ringbuffer.put rb (rest.take (rest.length % 2 ^ 16))).1 ∧
      (Sleeps s₁ t ↔ fd.nonblock = false ∧
        (Ringbuffer.put rb (rest.take (rest.length % 2 ^ 16))).2 < rest.length) := by
  unfold writeRound
  rw [if_neg hreaders, hfifo, Option.map_some]
  generalize Ringbuffer.put rb (rest.take (rest.length % 2 ^ 16)) = r
  obtain ⟨rb', len⟩ := r
  dsimp only
  have hdrop : rest.drop len = [] ↔ ¬ len < rest.length := by
    rw [List.drop_eq_nil_iff]
    omega
  by_cases hall : rest.drop len = []
  · rw [if_pos hall]
    refine ⟨_, _, rfl, rfl, ?_⟩
    simp [Sleeps, setCall, hdrop.mp hall]
  · rw [if_neg hall]
    have hlt : len < rest.length := not_not.mp (mt hdrop.mpr hall)
    cases hblock : fd.nonblock with
    | true =>
      refine ⟨_, _, rfl, rfl, ?_⟩
      simp [Sleeps, setCall]
    | false =>
      refine ⟨_, _, rfl, rfl, ?_⟩
      simp [Sleeps, setCall, hlt]

theorem sleepsFull_iff (h : Holds rb q) (hfifo : s.fifo = some rb) (hactive : s.deleted = false)
    (hrun : s.suspended t = false) (hcall : s.call t = .writing fd rest ret wakeup .lock) :
    SleepsFull s t ↔ s.readers = 0 ∨ fd.nonblock = true ∨
      min rest.length (spaceLen rb) ≤ rest.length % 2 ^ 16 := by
  have hstep : step s (.proceed t) = (writeRound s t fd rest ret wakeup).map Prod.fst := by
    rw [step, call, if_pos ⟨hactive, hrun⟩, proceed, hcall]
  by_cases hreaders : s.readers = 0
  · refine iff_of_true (fun s' rb' hs _ hsleeps => ?_) (.inl hreaders)
    rw [hstep, writeRound, if_pos hreaders] at hs
    cases hs
    obtain ⟨fd', rest', ret', wakeup', heq⟩ := hsleeps
    simp [setCall] at heq
  · obtain ⟨s₁, r, hround, hfifo₁, hsleeps⟩ :=
      @writeRound_eq rb s t fd rest ret wakeup hfifo hreaders
    obtain ⟨hrest, hlen⟩ := Ringbuffer.put_spec h (rest.take (rest.length % 2 ^ 16))
    have hcut : (rest.take (rest.length % 2 ^ 16)).length = rest.length % 2 ^ 16 := by
      rw [List.length_take]
      exact Nat.min_eq_left (Nat.mod_le _ _)
    have hspace := hrest.spaceLen_eq
    have hle := hrest.le_size
    rw [List.length_append, List.length_take, hcut, Ringbuffer.put_bufferSize] at hspace hle
    rw [or_iff_right hreaders, h.spaceLen_eq]
    constructor
    · intro hfull
      by_contra hbad
      rw [not_or, Bool.not_eq_true, Nat.not_le] at hbad
      have hzero := hfull s₁ _ (by rw [hstep, hround]; rfl) hfifo₁
        (hsleeps.mpr ⟨hbad.1, by omega⟩)
      omega
    · intro hok s' rb' hs hfifo' hs'
      rw [hstep, hround] at hs
      cases hs
      obtain ⟨hblock, hlt⟩ := hsleeps.mp hs'
      cases hfifo₁.symm.trans hfifo'
      obtain hnonblock | hle' := hok
      · rw [hblock] at hnonblock
        cases hnonblock
      · omega

theorem run_holds {bufsz : Nat} (hsize : bufsz ≤ 32767) {ops : List NodeOp} {n : Node}
    (hrun : Runs.run nodeStep (nodeCreate bufsz) ops = some n) (hfifo : n.pipe.fifo = some rb) :
    ∃ q, Holds rb q := by
  have hsound : n.core.Sound :=
    Runs.run_invariant (fun _ _ _ hn hs => nodeStep_sound hn hs) (nodeCreate_sound bufsz) hrun
  have hbufsz : n.pipe.bufsz ≤ 32767 :=
    @Runs.run_invariant _ _ nodeStep (fun n => n.pipe.bufsz ≤ 32767)
      (fun _ _ _ hn hs => (nodeStep_bufsz hs).trans_le hn) _ _ _ hsize hrun
  exact hsound.fifo hbufsz rb hfifo

/-- In every state of a pipe the transfers are as long as they can be, and a writer leaves no room
behind when it goes to sleep, exactly where the count modulo 2^16 reaches that far. -/
theorem pipe_transfer_length (bufsz : Nat) (hsize : bufsz ≤ 32767) (ops : List NodeOp) (n : Node)
    (hrun : Runs.run nodeStep (nodeCreate bufsz) ops = some n) (hfifo : n.pipe.fifo = some rb) :
    (∀ data, WritesAll rb data ↔ min data.length (spaceLen rb) ≤ data.length % 2 ^ 16) ∧
      (∀ count, ReadsAll rb count ↔ min count (dataLen rb) ≤ count % 2 ^ 16) ∧
      ∀ t fd rest ret wakeup, n.pipe.deleted = false → n.pipe.suspended t = false →
        n.pipe.call t = .writing fd rest ret wakeup .lock →
        (SleepsFull n.pipe t ↔ n.pipe.readers = 0 ∨ fd.nonblock = true ∨
          min rest.length (spaceLen rb) ≤ rest.length % 2 ^ 16) := by
  obtain ⟨q, hq⟩ := run_holds hsize hrun hfifo
  exact ⟨writesAll_iff hq, readsAll_iff hq,
    fun t fd rest ret wakeup hactive hsuspended hcall =>
      sleepsFull_iff hq hfifo hactive hsuspended hcall⟩

def bothWays : Fd := ⟨.rdwr, false⟩

/-- A pipe of 8 bytes that is open by the device and by a descriptor. -/
def opened : State :=
  { rtPipeCreate true 8 with
    fifo := some (Ringbuffer.rtRingbufferInit 4 (fun _ => 0) 8)
    readers := 1
    writers := 1
    refCount := 2
    fds := [bothWays] }

def openedOps : List NodeOp :=
  [.open (some fun _ => 0), .fops (.open 0 bothWays none)]

/-- Nine bytes are cut to the eight that there is room for. -/
theorem pipe_transfer_length_nine :
    ∃ n rb, Runs.run nodeStep (nodeCreate 8) openedOps = some n ∧ n.pipe.fifo = some rb ∧
      WritesAll rb [1, 2, 3, 4, 5, 6, 7, 8, 9] := by
  refine ⟨_, _, rfl, rfl, ?_⟩
  exact ((pipe_transfer_length 8 (by decide) openedOps _ rfl rfl).1 _).mpr (by decide)

/-- Of 2^16 bytes none is written, although there is room for eight, and the thread that writes
them goes to sleep. -/
theorem pipe_transfer_cut :
    (∃ n rb, Runs.run nodeStep (nodeCreate 8) openedOps = some n ∧ n.pipe.fifo = some rb ∧
      spaceLen rb = 8 ∧ ¬ WritesAll rb (List.replicate 65536 0)) ∧
    ∃ n, Runs.run nodeStep (nodeCreate 8)
        (openedOps ++ [.fops (.write 0 bothWays (List.replicate 65536 0))]) = some n ∧
      ¬ SleepsFull n.pipe 0 := by
  have hshort : ¬ min (List.replicate 65536 (0 : Byte)).length 8 ≤
      (List.replicate 65536 (0 : Byte)).length % 2 ^ 16 := by
    rw [List.length_replicate]
    decide
  have hrun : Runs.run nodeStep (nodeCreate 8) openedOps = some ⟨opened, 1⟩ := rfl
  have hfifo : opened.fifo = some (Ringbuffer.rtRingbufferInit 4 (fun _ => 0) 8) := rfl
  obtain ⟨q, hq⟩ := run_holds (by decide) hrun hfifo
  constructor
  · exact ⟨_, _, hrun, hfifo, rfl, fun hall => hshort ((writesAll_iff hq _).mp hall)⟩
  · generalize List.replicate 65536 (0 : Byte) = data at hshort
    have hne : data ≠ [] := by
      rintro rfl
      exact hshort (by decide)
    have hactive : Active opened 0 := ⟨rfl, rfl, rfl⟩
    have hwrite : nodeStep ⟨opened, 1⟩ (.fops (.write 0 bothWays data)) =
        some ⟨setCall opened 0 (.writing bothWays data 0 false .lock), 1⟩ := by
      rw [nodeStep, step, call, if_pos ⟨hactive, List.mem_singleton_self _⟩, pipeFopsWrite,
        if_neg (show opened.readers ≠ 0 by decide), if_neg hne]
      rfl
    refine ⟨⟨setCall opened 0 (.writing bothWays data 0 false .lock), 1⟩, ?_, fun hfull => ?_⟩
    · rw [Runs.run_append, hrun, Option.bind_some, Runs.run_cons, hwrite]
      rfl
    · have hcall : (setCall opened 0 (.writing bothWays data 0 false .lock)).call 0 =
          .writing bothWays data 0 false .lock := by
        simp [setCall]
      have hfifo₁ : (setCall opened 0 (.writing bothWays data 0 false .lock)).fifo = some _ := hfifo
      obtain hzero | hnonblock | hle := (sleepsFull_iff hq hfifo₁ rfl rfl hcall).mp hfull
      · exact absurd hzero Nat.one_ne_zero
      · exact absurd hnonblock (by decide)
      · exact hshort hle

end transfer

end RtThread.Pipe
