import RtThread.PipeStream

/-!
# The device interface of a pipe

`rt_pipe_open`, `rt_pipe_close`, `rt_pipe_read` and `rt_pipe_write`, and the calls of
`device.c` that lead to them: `rt_device_open`, `rt_device_close`, `rt_device_read` and
`rt_device_write`. A call of this interface never waits, and is one step next to the steps
of the file operations. There is no result where an assertion fails.
-/
namespace RtThread.Pipe

open Ipc (ThreadId)
open Ringbuffer (Byte RtRingbuffer Holds)

/-- `rt_pipe_open`, and whether it returns `RT_EOK`. -/
def rtPipeOpen (s : State) (pool : Option (Nat → Byte)) : State × Bool :=
  match s.fifo with
  | some _ => (s, true)
  | none =>
    match rtRingbufferCreate s.bufsz pool with
    | none => (s, false)
    | some rb => ({ s with fifo := some rb, accepted := [], returned := [] }, true)

/-- `rt_device_open`, which counts the references itself. -/
def rtDeviceOpen (s : State) (pool : Option (Nat → Byte)) : Option (State × Bool) :=
  match rtPipeOpen s pool with
  | (s, false) => some (s, false)
  | (s, true) =>
    let s := { s with refCount := wadd 8 s.refCount 1 }
    if s.refCount = 0 then none else some (s, true)

/-- `rt_pipe_close`. -/
def rtPipeClose (s : State) : Option State :=
  if s.refCount = 1 then
    match s.fifo with
    | none => none
    | some _ => some { s with fifo := none }
  else some s

/-- `rt_device_close`, and whether it returns `RT_EOK`. -/
def rtDeviceClose (s : State) : Option (State × Bool) :=
  if s.refCount = 0 then some (s, false)
  else
    let s := { s with refCount := wsub 8 s.refCount 1 }
    if s.refCount ≠ 0 then some (s, true)
    else (rtPipeClose s).map fun s => (s, true)

/-- The loop of `rt_pipe_read`, with the bytes read so far. -/
def readLoop (count : Nat) (rb : RtRingbuffer) (bytes : List Byte) : RtRingbuffer × List Byte :=
  if bytes.length < count then
    let r := Ringbuffer.get rb ((count - bytes.length) % 2 ^ 16)
    if r.2.length = 0 then (r.1, bytes)
    else readLoop count r.1 (bytes ++ r.2)
  else (rb, bytes)
termination_by count - bytes.length
decreasing_by
  have hr : r.2.length ≠ 0 := ‹_›
  simp only [r] at hr
  rw [List.length_append]
  omega

/-- The loop of `rt_pipe_write`, with the number of bytes written so far. -/
def writeLoop (data : List Byte) (rb : RtRingbuffer) (writeBytes : Nat) : RtRingbuffer × Nat :=
  if writeBytes < data.length then
    let rest := data.drop writeBytes
    let r := Ringbuffer.put rb (rest.take ((data.length - writeBytes) % 2 ^ 16))
    if r.2 = 0 then (r.1, writeBytes)
    else writeLoop data r.1 (writeBytes + r.2)
  else (rb, writeBytes)
termination_by data.length - writeBytes
decreasing_by
  have hr : r.2 ≠ 0 := ‹_›
  simp only [r, rest] at hr
  omega

/-- `rt_pipe_read`, with the bytes it stores. -/
def rtPipeRead (rb : RtRingbuffer) (count : Nat) : RtRingbuffer × List Byte := readLoop count rb []

/-- `rt_pipe_write`, with the number of bytes it returns. -/
def rtPipeWrite (rb : RtRingbuffer) (data : List Byte) : RtRingbuffer × Nat :=
  writeLoop data rb 0

/-- `rt_device_read`. -/
def rtDeviceRead (s : State) (count : Nat) : Option (State × List Byte) :=
  if s.refCount = 0 ∨ count = 0 then some (s, [])
  else
    s.fifo.map fun rb =>
      let r := rtPipeRead rb count
      ({ s with fifo := some r.1, returned := s.returned ++ r.2 }, r.2)

/-- `rt_device_write`. -/
def rtDeviceWrite (s : State) (data : List Byte) : Option (State × Nat) :=
  if s.refCount = 0 ∨ data = [] then some (s, 0)
  else
    s.fifo.map fun rb =>
      let r := rtPipeWrite rb data
      ({ s with fifo := some r.1, accepted := s.accepted ++ data.take r.2 }, r.2)

/-- A pipe, with the number of its opens by `rt_device_open` that have not been closed. -/
structure Node where
  pipe : State
  handles : Nat

/-- The descriptors and the device opens. -/
def Node.users (n : Node) : Nat := n.pipe.fds.length + n.handles

inductive NodeOp where
  | fops (op : Op)
  | open (pool : Option (Nat → Byte))
  | close
  | read (count : Nat)
  | write (data : List Byte)

/-- One step; a device is closed by who has opened it. -/
def nodeStep (n : Node) : NodeOp → Option Node
  | .fops op => (step n.pipe op).map fun s => { n with pipe := s }
  | .open pool =>
    (rtDeviceOpen n.pipe pool).map fun r =>
      ⟨r.1, if r.2 then n.handles + 1 else n.handles⟩
  | .close =>
    if n.handles = 0 then none
    else
      (rtDeviceClose n.pipe).map fun r => ⟨r.1, if r.2 then n.handles - 1 else n.handles⟩
  | .read count => (rtDeviceRead n.pipe count).map fun r => { n with pipe := r.1 }
  | .write data => (rtDeviceWrite n.pipe data).map fun r => { n with pipe := r.1 }

/-- A named pipe that has just been created. -/
def nodeCreate (bufsz : Nat) : Node := ⟨rtPipeCreate true bufsz, 0⟩

/-! ## The loops of reading and writing -/

section loops

variable {rb : RtRingbuffer} {q : List Byte}

/-- After the length modulo a half word a multiple of it remains, or nothing is left to read. -/
theorem twice_cut {bytes : List Byte} {count m : Nat} (hm : (count - bytes.length) % 2 ^ 16 = m)
    (q : List Byte) :
    (q.drop m).take ((count - (bytes ++ q.take m).length) % 2 ^ 16) = [] ∧
      (q.drop m).drop ((count - (bytes ++ q.take m).length) % 2 ^ 16) = q.drop m := by
  by_cases hshort : q.length ≤ m
  · rw [List.drop_eq_nil_of_le hshort, List.take_nil, List.drop_nil]
    exact ⟨rfl, rfl⟩
  · have hlen : (q.take m).length = m := by
      rw [List.length_take]
      omega
    have hzero : (count - (bytes ++ q.take m).length) % 2 ^ 16 = 0 := by
      rw [List.length_append, hlen]
      omega
    rw [hzero, List.take_zero, List.drop_zero]
    exact ⟨rfl, rfl⟩

/-- What is read comes from the front, and the length asked for is cut to a half word. -/
theorem readLoop_spec (count : Nat) (bytes : List Byte) (h : Holds rb q) :
    (readLoop count rb bytes).2 = bytes ++ q.take ((count - bytes.length) % 2 ^ 16) ∧
      Holds (readLoop count rb bytes).1 (q.drop ((count - bytes.length) % 2 ^ 16)) := by
  generalize hn : count - bytes.length = n
  induction n using Nat.strong_induction_on generalizing rb bytes q with
  | h n ih =>
    obtain ⟨hrest, hbytes⟩ := Ringbuffer.get_spec h (n % 2 ^ 16)
    rw [readLoop, hn]
    by_cases hlt : bytes.length < count
    · rw [if_pos hlt]
      dsimp only
      rw [hbytes]
      by_cases hnone : (q.take (n % 2 ^ 16)).length = 0
      · rw [if_pos hnone, List.length_eq_zero_iff.mp hnone, List.append_nil]
        exact ⟨rfl, hrest⟩
      · rw [if_neg hnone]
        have hless : count - (bytes ++ q.take (n % 2 ^ 16)).length < n := by
          rw [List.length_append]
          omega
        have hread := ih _ hless _ hrest rfl
        obtain ⟨htake, hdrop⟩ := twice_cut (congrArg (· % 2 ^ 16) hn) q
        rw [htake, hdrop, List.append_nil] at hread
        exact hread
    · have hzero : n = 0 := by omega
      rw [if_neg hlt, hzero, Nat.zero_mod, List.take_zero, List.append_nil, List.drop_zero]
      exact ⟨rfl, h⟩

/-- A chunk fills the buffer, or what it leaves is a multiple of `2 ^ 16`. -/
theorem chunk_rest {n room k : Nat} (hk : min (n % 2 ^ 16) room = k) :
    min ((n - k) % 2 ^ 16) (room - k) = 0 := by
  subst hk
  obtain hle | hle := Nat.le_total (n % 2 ^ 16) room
  · rw [Nat.min_eq_left hle, Nat.mod_eq_zero_of_dvd (Nat.dvd_sub_mod n), Nat.zero_min]
  · rw [Nat.min_eq_right hle, Nat.sub_self, Nat.min_zero]

/-- What is written is the front of the data, as far as there is room, and their length is cut to a
half word. -/
theorem writeLoop_spec (data : List Byte) (writeBytes : Nat) (h : Holds rb q) :
    (writeLoop data rb writeBytes).2 = writeBytes +
        min ((data.length - writeBytes) % 2 ^ 16) (rb.bufferSize - q.length) ∧
      Holds (writeLoop data rb writeBytes).1 (q ++ (data.drop writeBytes).take
        (min ((data.length - writeBytes) % 2 ^ 16) (rb.bufferSize - q.length))) := by
  generalize hn : data.length - writeBytes = n
  induction n using Nat.strong_induction_on generalizing rb writeBytes q with
  | h n ih =>
    obtain ⟨hrest, hlen⟩ :=
      Ringbuffer.put_spec h ((data.drop writeBytes).take (n % 2 ^ 16))
    have hcut : ((data.drop writeBytes).take (n % 2 ^ 16)).length = n % 2 ^ 16 := by
      rw [List.length_take, List.length_drop, hn]
      exact Nat.min_eq_left (Nat.mod_le _ _)
    rw [hcut] at hlen
    rw [List.take_take, Nat.min_comm] at hrest
    rw [writeLoop, hn]
    by_cases hlt : writeBytes < data.length
    · rw [if_pos hlt]
      dsimp only
      rw [hlen]
      generalize hk : min (n % 2 ^ 16) (rb.bufferSize - q.length) = k at hrest ⊢
      by_cases hnone : k = 0
      · rw [if_pos hnone, hnone, Nat.add_zero]
        exact ⟨rfl, hnone ▸ hrest⟩
      · rw [if_neg hnone]
        have hle : k ≤ n := hk ▸ (Nat.min_le_left _ _).trans (Nat.mod_le _ _)
        have hless : data.length - (writeBytes + k) < n := by omega
        have hwrite := ih _ hless _ hrest rfl
        have hend : min ((data.length - (writeBytes + k)) % 2 ^ 16)
            ((Ringbuffer.put rb ((data.drop writeBytes).take (n % 2 ^ 16))).1.bufferSize -
              (q ++ (data.drop writeBytes).take k).length) = 0 := by
          rw [Ringbuffer.put_bufferSize, List.length_append, List.length_take, List.length_drop, hn,
            Nat.min_eq_left hle, ← Nat.sub_sub, hn, ← Nat.sub_sub]
          exact chunk_rest hk
        rw [hend, Nat.add_zero, List.take_zero, List.append_nil] at hwrite
        exact hwrite
    · have hzero : n = 0 := by omega
      rw [if_neg hlt, hzero, Nat.zero_mod, Nat.zero_min, List.take_zero, List.append_nil]
      exact ⟨rfl, h⟩

end loops

/-! ## What a step does to the ring buffer -/

/-- What is left of a pipe without its threads: the ring buffer, the references and the users. -/
structure Core where
  fifo : Option RtRingbuffer
  refCount : Nat
  users : Nat
  bufsz : Nat

def Node.core (n : Node) : Core := ⟨n.pipe.fifo, n.pipe.refCount, n.users, n.pipe.bufsz⟩

inductive Core.Step : Core → Core → Prop
  | idle (c : Core) : Step c c
  | ring {c : Core} {rb rb' : RtRingbuffer} : c.fifo = some rb →
      (∀ q, Holds rb q → ∃ q', Holds rb' q') → Step c { c with fifo := some rb' }
  | created {c : Core} {pool : Option (Nat → Byte)} {rb : RtRingbuffer} :
      rtRingbufferCreate c.bufsz pool = some rb →
      Step c { c with fifo := some rb, refCount := wadd 8 c.refCount 1, users := c.users + 1 }
  | joined (c : Core) :
      Step c { c with refCount := wadd 8 c.refCount 1, users := c.users + 1 }
  | failed (c : Core) : Step c { c with fifo := none }
  | left {c : Core} : 0 < c.users → Step c { c with
      fifo := if c.refCount = 1 then none else c.fifo
      refCount := wsub 8 c.refCount 1
      users := c.users - 1 }

section core

variable {n n' : Node} {s s' : State} {ret : Option Ret} {t : ThreadId} {fd : Fd} {k : Nat}

theorem core_same (h : Same s s') : Node.core ⟨s', k⟩ = Node.core ⟨s, k⟩ := by
  rw [Node.core, Node.core, Node.users, Node.users]
  rw [h.fifo, h.refs, h.fds, h.bufsz]

theorem core_readRound {count : Nat} (hs : readRound s t fd count = some (s', ret)) :
    Core.Step (Node.core ⟨s, k⟩) (Node.core ⟨s', k⟩) := by
  unfold readRound at hs
  split at hs
  · cases hs
    exact .idle _
  · obtain ⟨rb, hrb, heq⟩ := Option.map_eq_some_iff.mp hs
    have hring : ∀ q, Holds rb q → ∃ q', Holds (Ringbuffer.get rb (count % 2 ^ 16)).1 q' :=
      fun q hq => ⟨_, (Ringbuffer.get_spec hq _).1⟩
    generalize Ringbuffer.get rb (count % 2 ^ 16) = r at heq hring
    obtain ⟨rb', bytes⟩ := r
    dsimp only at heq hring
    have hstep : Core.Step (Node.core ⟨s, k⟩) (Node.core ⟨{ s with
        fifo := some rb', returned := s.returned ++ bytes }, k⟩) := .ring hrb hring
    split at heq
    · cases heq
      rw [core_same ((same_wakeup _ _).trans (same_setCall _ _ _))]
      exact hstep
    · split at heq
      · cases heq
        exact hstep
      · cases heq
        exact hstep

theorem core_writeRound {rest : List Byte} {m : Nat} {wakeup : Bool}
    (hs : writeRound s t fd rest m wakeup = some (s', ret)) :
    Core.Step (Node.core ⟨s, k⟩) (Node.core ⟨s', k⟩) := by
  unfold writeRound at hs
  split at hs
  · cases hs
    exact .idle _
  · obtain ⟨rb, hrb, heq⟩ := Option.map_eq_some_iff.mp hs
    generalize rest.take (rest.length % 2 ^ 16) = data at heq
    have hring : ∀ q, Holds rb q → ∃ q', Holds (Ringbuffer.put rb data).1 q' :=
      fun q hq => ⟨_, (Ringbuffer.put_spec hq _).1⟩
    generalize Ringbuffer.put rb data = r at heq hring
    obtain ⟨rb', len⟩ := r
    dsimp only at heq hring
    have hstep : Core.Step (Node.core ⟨s, k⟩) (Node.core ⟨{ s with
        fifo := some rb', accepted := s.accepted ++ rest.take len }, k⟩) := .ring hrb hring
    split at heq
    · cases heq
      exact hstep
    · split at heq
      · cases heq
        exact hstep
      · cases heq
        exact hstep

theorem core_proceed (hs : proceed s t = some (s', ret)) :
    Core.Step (Node.core ⟨s, k⟩) (Node.core ⟨s', k⟩) := by
  have hidle : ∀ {x : State}, Same s x → Core.Step (Node.core ⟨s, k⟩) (Node.core ⟨x, k⟩) := by
    intro x hx
    rw [core_same hx]
    exact .idle _
  unfold proceed at hs
  split at hs
  · cases hs
  · exact core_readRound hs
  · cases hs
    exact hidle ((same_wakeup _ _).trans (same_setCall _ _ _))
  · cases hs
    exact hidle (same_wait _ _ _ _ _)
  · cases hs
    exact .idle _
  · exact core_writeRound hs
  · cases hs
    exact hidle ((same_wakeup _ _).trans (same_setCall _ _ _))
  · cases hs
    exact hidle (same_wait _ _ _ _ _)
  · cases hs
    exact .idle _
  · cases hs
    split
    · exact hidle ((same_wakeup _ _).trans (same_setCall _ _ _))
    · exact .idle _
  · cases hs
    exact .idle _

theorem core_open (s : State) (fd : Fd) (pool : Option (Nat → Byte)) :
    Core.Step (Node.core ⟨s, k⟩) (Node.core ⟨(pipeFopsOpen s fd pool).1, k⟩) := by
  have husers : (fd :: s.fds).length + k = s.fds.length + k + 1 := by
    rw [List.length_cons]
    omega
  unfold pipeFopsOpen
  dsimp only
  split
  · cases hrb : rtRingbufferCreate s.bufsz pool with
    | none => exact .failed _
    | some rb =>
      rw [Node.core, Node.core, Node.users, Node.users]
      rw [husers]
      exact .created (c := ⟨s.fifo, s.refCount, s.fds.length + k, s.bufsz⟩) hrb
  · rw [Node.core, Node.core, Node.users, Node.users]
    rw [husers]
    exact .joined ⟨s.fifo, s.refCount, s.fds.length + k, s.bufsz⟩

theorem core_close (hmem : fd ∈ s.fds) :
    Core.Step (Node.core ⟨s, k⟩) (Node.core ⟨(pipeFopsClose s t fd).1, k⟩) := by
  have hpos := List.length_pos_of_mem hmem
  have husers : (s.fds.erase fd).length + k = s.fds.length + k - 1 := by
    rw [List.length_erase_of_mem hmem]
    omega
  let x : State := { s with
    readers := if fd.reads then wsub 8 s.readers 1 else s.readers
    writers := if fd.writes then wsub 8 s.writers 1 else s.writers
    fds := s.fds.erase fd }
  let y : State := if x.writers = 0 then rtWqueueWakeup x .reader else x
  have hxy : Same x y := same_wakeup_if x (x.writers = 0) .reader
  have hyz := same_wakeup_if y (y.readers = 0) .writer
  have hend := core_same (k := k) ((hxy.trans hyz).release t)
  rw [pipeFopsClose, hend, Node.core, Node.core, Node.users, Node.users]
  rw [husers]
  exact .left (c := ⟨s.fifo, s.refCount, s.fds.length + k, s.bufsz⟩) (by dsimp only; omega)

theorem core_call {op : Op} (hs : call s op = some (s', ret)) :
    Core.Step (Node.core ⟨s, k⟩) (Node.core ⟨s', k⟩) := by
  cases op with
  | «open» t fd pool =>
    simp only [call] at hs
    split at hs
    · have hopen := @core_open k s fd pool
      rw [Option.some.inj hs] at hopen
      exact hopen
    · cases hs
  | close t fd =>
    simp only [call] at hs
    split at hs
    · rename_i hmem
      have hclose := @core_close s t fd k hmem.2
      rw [Option.some.inj hs] at hclose
      exact hclose
    · cases hs
  | read t fd count =>
    simp only [call] at hs
    split at hs
    · unfold pipeFopsRead at hs
      split at hs
      · cases hs
        exact .idle _
      · cases hs
        exact .idle _
    · cases hs
  | write t fd data =>
    simp only [call] at hs
    split at hs
    · unfold pipeFopsWrite at hs
      split at hs
      · cases hs
        exact .idle _
      · split at hs
        · cases hs
          exact .idle _
        · cases hs
          exact .idle _
    · cases hs
  | proceed t =>
    simp only [call] at hs
    split at hs
    · exact core_proceed hs
    · cases hs

theorem core_deviceOpen {pool : Option (Nat → Byte)} {ok : Bool}
    (hs : rtDeviceOpen s pool = some (s', ok)) :
    Core.Step (Node.core ⟨s, k⟩) (Node.core ⟨s', if ok then k + 1 else k⟩) := by
  have husers : s.fds.length + (k + 1) = s.fds.length + k + 1 := by omega
  unfold rtDeviceOpen rtPipeOpen at hs
  cases hfifo : s.fifo with
  | some rb =>
    simp only [hfifo] at hs
    split at hs
    · cases hs
    · cases hs
      rw [Node.core, Node.core, Node.users, Node.users, if_pos rfl]
      rw [husers, hfifo]
      exact .joined ⟨some rb, s.refCount, s.fds.length + k, s.bufsz⟩
  | none =>
    simp only [hfifo] at hs
    cases hrb : rtRingbufferCreate s.bufsz pool with
    | none =>
      simp only [hrb] at hs
      cases hs
      exact .idle _
    | some rb =>
      simp only [hrb] at hs
      split at hs
      · cases hs
      · cases hs
        rw [Node.core, Node.core, Node.users, Node.users, if_pos rfl]
        exact .created (c := ⟨s.fifo, s.refCount, s.fds.length + k, s.bufsz⟩) hrb

/-- Every step but the close of the device. -/
theorem nodeStep_core {op : NodeOp} (hop : op ≠ .close) (hs : nodeStep n op = some n') :
    Core.Step n.core n'.core := by
  cases op with
  | fops op =>
    obtain ⟨s', hstep, rfl⟩ := Option.map_eq_some_iff.mp hs
    obtain ⟨⟨s₁, ret⟩, hcall, rfl⟩ := Option.map_eq_some_iff.mp hstep
    exact core_call hcall
  | «open» pool =>
    obtain ⟨⟨s', ok⟩, hopen, rfl⟩ := Option.map_eq_some_iff.mp hs
    exact core_deviceOpen hopen
  | close => exact absurd rfl hop
  | read count =>
    obtain ⟨⟨s', bytes⟩, hread, rfl⟩ := Option.map_eq_some_iff.mp hs
    unfold rtDeviceRead at hread
    split at hread
    · cases hread
      exact .idle _
    · obtain ⟨rb, hrb, heq⟩ := Option.map_eq_some_iff.mp hread
      cases heq
      exact .ring hrb fun q hq => ⟨_, (readLoop_spec count [] hq).2⟩
  | write data =>
    obtain ⟨⟨s', len⟩, hwrite, rfl⟩ := Option.map_eq_some_iff.mp hs
    unfold rtDeviceWrite at hwrite
    split at hwrite
    · cases hwrite
      exact .idle _
    · obtain ⟨rb, hrb, heq⟩ := Option.map_eq_some_iff.mp hwrite
      cases heq
      exact .ring hrb fun q hq => ⟨_, (writeLoop_spec data 0 hq).2⟩

/-- `rt_device_close` takes the reference away before `rt_pipe_close` tests it, so the ring buffer
is never destroyed there. -/
theorem close_core (hs : nodeStep n .close = some n') :
    n'.core = n.core ∨ (0 < n.handles ∧
      n'.core = ⟨n.pipe.fifo, wsub 8 n.pipe.refCount 1, n.users - 1, n.pipe.bufsz⟩) := by
  simp only [nodeStep] at hs
  split at hs
  · cases hs
  · rename_i hhandles
    obtain ⟨⟨s', ok⟩, hclose, rfl⟩ := Option.map_eq_some_iff.mp hs
    have husers : n.pipe.fds.length + (n.handles - 1) = n.pipe.fds.length + n.handles - 1 := by
      omega
    unfold rtDeviceClose rtPipeClose at hclose
    split at hclose
    · cases hclose
      exact .inl rfl
    · right
      refine ⟨by omega, ?_⟩
      rw [Node.users, ← husers]
      dsimp only at hclose
      split at hclose
      · cases hclose
        rfl
      · rename_i hzero
        rw [not_not] at hzero
        rw [if_neg (by rw [hzero]; decide)] at hclose
        cases hclose
        rfl

/-- What holds in every run: the references are the users modulo 256, and the ring buffer is one
that its functions have left. -/
structure Core.Sound (c : Core) : Prop where
  refs : c.refCount = c.users % 256
  fifo : c.bufsz ≤ 32767 → ∀ rb, c.fifo = some rb → ∃ q, Holds rb q

theorem Core.Step.sound {c c' : Core} (h : Core.Step c c') (hc : c.Sound) : c'.Sound := by
  have hadd : wadd 8 c.refCount 1 = (c.users + 1) % 256 := by
    rw [hc.refs, wadd]
    omega
  cases h with
  | idle => exact hc
  | ring hrb hring =>
    refine ⟨hc.refs, fun hsize rb hrb' => ?_⟩
    cases hrb'
    obtain ⟨q, hq⟩ := hc.fifo hsize _ hrb
    exact hring q hq
  | @created pool rb hrb =>
    refine ⟨hadd, fun hsize rb' hrb' => ?_⟩
    cases hrb'
    exact ⟨[], created_holds hsize hrb⟩
  | joined => exact ⟨hadd, hc.fifo⟩
  | failed => exact ⟨hc.refs, fun _ rb hrb => nomatch hrb⟩
  | left hpos =>
    refine ⟨?_, fun hsize rb hrb => ?_⟩
    · have hsub : wsub 8 c.refCount 1 = (c.users - 1) % 256 := by
        rw [hc.refs, wsub]
        omega
      exact hsub
    · split at hrb
      · cases hrb
      · exact hc.fifo hsize rb hrb

theorem nodeStep_sound {op : NodeOp} (hn : n.core.Sound) (hs : nodeStep n op = some n') :
    n'.core.Sound := by
  by_cases hop : op = .close
  · subst hop
    obtain heq | ⟨hpos, heq⟩ := close_core hs
    · rw [heq]
      exact hn
    · have hrefs : n.pipe.refCount = n.users % 256 := hn.refs
      have husers : 0 < n.users := Nat.lt_of_lt_of_le hpos (Nat.le_add_left _ _)
      rw [heq]
      refine ⟨?_, hn.fifo⟩
      rw [hrefs, wsub]
      dsimp only
      omega
  · exact (nodeStep_core hop hs).sound hn

theorem nodeStep_bufsz {op : NodeOp} (hs : nodeStep n op = some n') :
    n'.pipe.bufsz = n.pipe.bufsz := by
  by_cases hop : op = .close
  · subst hop
    obtain heq | ⟨-, heq⟩ := close_core hs
    · exact congrArg Core.bufsz heq
    · exact congrArg Core.bufsz heq
  · have hstep : ∀ {c c' : Core}, Core.Step c c' → c'.bufsz = c.bufsz := by
      intro c c' h
      cases h <;> rfl
    exact hstep (nodeStep_core hop hs)

theorem nodeCreate_sound (bufsz : Nat) : (nodeCreate bufsz).core.Sound :=
  ⟨rfl, fun _ _ hrb => nomatch hrb⟩

end core

end RtThread.Pipe
