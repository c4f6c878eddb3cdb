import RtThread.PipeDevice

/-!
# Opening a pipe again

The file operations destroy the ring buffer with the reference of the last user.
`rt_device_close` takes the reference away before it calls the driver, so that
`rt_pipe_close`, which waits for a last reference too, never destroys it: what has not
been read is there for whoever opens the device next.
-/
namespace RtThread.Pipe

open Ringbuffer (Byte RtRingbuffer)

def NodeOp.Opens : NodeOp → Prop
  | .fops (.open _ _ _) => True
  | .open _ => True
  | _ => False

/-- When the last user has closed the pipe the ring buffer is gone, and the next one to open it
finds it empty. -/
structure Fresh (n : Node) : Prop where
  gone : n.users = 0 → n.pipe.fifo = none
  empty : n.users = 0 → ∀ (op : NodeOp) n', op.Opens → nodeStep n op = some n' →
    ∀ rb, n'.pipe.fifo = some rb → Ringbuffer.contents rb = []

/-- The last user does not close the pipe by `rt_device_close`. -/
def LastByFops (n : Node) : NodeOp → Prop
  | .close => n.handles = 1 → n.pipe.fds = [] → n.pipe.fifo = none
  | _ => True

section reopen

variable {n n' : Node}

theorem created_contents {bufsz : Nat} {pool : Option (Nat → Byte)} {rb : RtRingbuffer}
    (hrb : rtRingbufferCreate bufsz pool = some rb) : Ringbuffer.contents rb = [] := by
  unfold rtRingbufferCreate at hrb
  split at hrb
  · cases hrb
  · obtain ⟨p, -, rfl⟩ := Option.map_eq_some_iff.mp hrb
    rfl

/-- Every open of a pipe without a ring buffer creates one. -/
theorem opens_empty {op : NodeOp} (hnone : n.pipe.fifo = none) (hop : op.Opens)
    (hs : nodeStep n op = some n') {rb : RtRingbuffer} (hrb : n'.pipe.fifo = some rb) :
    Ringbuffer.contents rb = [] := by
  cases op with
  | fops op =>
    cases op with
    | «open» t fd pool =>
      obtain ⟨s', hstep, rfl⟩ := Option.map_eq_some_iff.mp hs
      obtain ⟨⟨s₁, ret⟩, hcall, rfl⟩ := Option.map_eq_some_iff.mp hstep
      simp only [call] at hcall
      split at hcall
      · unfold pipeFopsOpen at hcall
        dsimp only at hcall
        split at hcall
        · cases hcreate : rtRingbufferCreate n.pipe.bufsz pool with
          | none =>
            simp only [hcreate] at hcall
            cases hcall
            cases hrb
          | some rb' =>
            simp only [hcreate] at hcall
            cases hcall
            cases hrb
            exact created_contents hcreate
        · cases hcall
          rw [hnone] at hrb
          cases hrb
      · cases hcall
    | close | read | write | proceed => exact hop.elim
  | «open» pool =>
    obtain ⟨⟨s', ok⟩, hopen, rfl⟩ := Option.map_eq_some_iff.mp hs
    unfold rtDeviceOpen rtPipeOpen at hopen
    simp only [hnone] at hopen
    cases hcreate : rtRingbufferCreate n.pipe.bufsz pool with
    | none =>
      simp only [hcreate] at hopen
      cases hopen
      rw [hnone] at hrb
      cases hrb
    | some rb' =>
      simp only [hcreate] at hopen
      split at hopen
      · cases hopen
      · cases hopen
        cases hrb
        exact created_contents hcreate
  | close | read | write => exact hop.elim

theorem fresh_of_gone (hgone : n.users = 0 → n.pipe.fifo = none) : Fresh n :=
  ⟨hgone, fun hzero _ _ hop hs _ hrb => opens_empty (hgone hzero) hop hs hrb⟩

/-- The file operations, and the calls of the device but its close, leave no ring buffer behind
the last user. -/
theorem Core.Step.gone {c c' : Core} (h : Core.Step c c') (hc : c.Sound)
    (hgone : c.users = 0 → c.fifo = none) : c'.users = 0 → c'.fifo = none := by
  intro hzero
  cases h with
  | idle => exact hgone hzero
  | ring hrb _ => exact nomatch (hgone hzero).symm.trans hrb
  | created | joined => exact absurd hzero (Nat.succ_ne_zero _)
  | failed => rfl
  | left hpos =>
    have hone : c.refCount = 1 := by
      rw [hc.refs]
      dsimp only at hzero
      omega
    exact if_pos hone

theorem nodeStep_fresh {op : NodeOp} (hn : n.core.Sound) (hfresh : Fresh n)
    (hok : LastByFops n op) (hs : nodeStep n op = some n') : Fresh n' := by
  refine fresh_of_gone ?_
  by_cases hop : op = .close
  · subst hop
    obtain heq | ⟨hpos, heq⟩ := close_core hs
    · have hfifo : n'.pipe.fifo = n.pipe.fifo := congrArg Core.fifo heq
      have husers : n'.users = n.users := congrArg Core.users heq
      rw [hfifo, husers]
      exact hfresh.gone
    · have hfifo : n'.pipe.fifo = n.pipe.fifo := congrArg Core.fifo heq
      have husers : n'.users = n.users - 1 := congrArg Core.users heq
      intro hzero
      rw [husers, Node.users] at hzero
      rw [hfifo]
      exact hok (by omega) (List.length_eq_zero_iff.mp (by omega))
  · exact (nodeStep_core hop hs).gone hn hfresh.gone

/-- The close of the last device handle leaves the ring buffer. -/
theorem close_not_fresh (hn : n.core.Sound) (hhandles : n.handles = 1) (hfds : n.pipe.fds = [])
    (hfifo : n.pipe.fifo ≠ none) : ∃ n', nodeStep n .close = some n' ∧ ¬ Fresh n' := by
  have husers : n.users = 1 := by
    rw [Node.users, hhandles, hfds]
    rfl
  have hrefs : n.pipe.refCount = 1 := by
    have := hn.refs
    rw [Node.core] at this
    dsimp only at this
    rw [this, husers]
  have hclose : rtDeviceClose n.pipe = some ({ n.pipe with refCount := 0 }, true) := by
    rw [rtDeviceClose, hrefs]
    rfl
  refine ⟨⟨{ n.pipe with refCount := 0 }, 0⟩, ?_, fun hfresh => hfifo (hfresh.gone ?_)⟩
  · rw [nodeStep, hclose, hhandles]
    rfl
  · rw [Node.users, hfds]
    rfl

/-- A named pipe starts empty after its last user has closed it, in the runs in which this is
never done by `rt_device_close` and in no other run. -/
theorem pipe_reopen_empty (bufsz : Nat) (ops : List NodeOp) :
    Runs.Always nodeStep Fresh (nodeCreate bufsz) ops ↔
      Runs.Along nodeStep LastByFops (nodeCreate bufsz) ops := by
  refine Runs.always_iff_along_of (fun _ _ _ hn _ hs => nodeStep_sound hn hs)
    (fun _ _ _ hn _ hfresh hok hs => nodeStep_fresh hn hfresh hok hs) (fun n op hn _ _ hbad => ?_)
    (nodeCreate_sound bufsz) (Runs.along_of_forall (fun _ _ => trivial) _)
    (fresh_of_gone fun _ => rfl)
  cases op with
  | close =>
    simp only [LastByFops, Classical.not_imp] at hbad
    exact close_not_fresh hn hbad.1 hbad.2.1 hbad.2.2
  | fops | «open» | read | write => exact absurd trivial hbad

/-- The device is opened, a byte is written by a descriptor, and the device is closed last. -/
def staleOps : List NodeOp :=
  [.open (some fun _ => 0), .fops (.open 0 ⟨.rdwr, false⟩ none),
    .fops (.write 0 ⟨.rdwr, false⟩ [7]), .fops (.proceed 0), .fops (.proceed 0),
    .fops (.close 0 ⟨.rdwr, false⟩), .fops (.proceed 0), .close]

/-- The next open of the device finds the byte of its predecessor. -/
theorem pipe_reopen_stale :
    (∃ n rb, Runs.run nodeStep (nodeCreate 8) (staleOps ++ [.open none]) = some n ∧
      n.pipe.fifo = some rb ∧ Ringbuffer.contents rb = [7]) ∧
    ¬ Runs.Always nodeStep Fresh (nodeCreate 8) staleOps := by
  constructor
  · exact ⟨_, _, rfl, rfl, by decide⟩
  · intro h
    have hlast := ((((((((h.2 _ rfl).2 _ rfl).2 _ rfl).2 _ rfl).2 _ rfl).2 _ rfl).2 _ rfl).2 _ rfl)
    exact nomatch hlast.gone rfl

end reopen

end RtThread.Pipe
