import RtThread.Lib.Runs
import RtThread.RtLinkDelivery

/-!
# What two rt-link peers deliver

As long as the steps of two peers are synced, a message that ends with `RT_LINK_EOK` has been
delivered exactly once, with its bytes and in order. `rt_link_send_timeout` asks for a handshake
that is not: it carries the sequence number of the frame that is still to be received, so that the
frame is refused afterwards, and the confirmation of the handshake is taken for the one of the
frame.
-/
namespace RtThread.RtLink

open Ringbuffer (Byte)

/-! ## Both directions -/

/-- Both directions of the link hold. -/
structure Linked (c : Config) (w : World) : Prop where
  attached : ∀ x, (w.peer x).session.attached = fun s => s = c.service
  direction : ∀ x, Direction c (w.peer x).outgoing (w.peer x.other).incoming (w.net x.other)
    (w.net x)

@[simp] theorem Side.other_other (x : Side) : x.other.other = x := by
  cases x <;> rfl

theorem Side.other_ne (x : Side) : x.other ≠ x := by
  cases x <;> decide

theorem Side.eq_or (x z : Side) : z = x ∨ z = x.other := by
  cases x <;> cases z <;> decide

variable {c : Config} {w w' : World} {x : Side}

theorem linked_init (c : Config) : Linked c (init c) where
  attached := fun _ => rfl
  direction := fun _ =>
    { sender :=
        { seq := show 129 = (129 + 2 ^ 8) % 2 ^ 8 from rfl
          size := nofun
          order := .nil
          last := nofun
          ended := Nat.le_refl _
          started := Nat.zero_le _
          started_le := Nat.le_refl _
          queue := rfl
          chained := trivial
          fits := Nat.zero_le _ }
      seq := show 255 = 255 % 2 ^ 8 from rfl
      mask := rfl
      num_le := show 255 ≤ 129 + 2 ^ 8 by decide
      waiting := nofun
      first := nofun
      data := nofun
      space := nofun
      delivered := nofun
      sorted := .nil
      settled := .inr nofun
      confirms := nofun
      ok := nofun }

/-- A step of the side `x`, which may move the numbers of the other side too. -/
theorem Linked.step (h : Linked c w) {y : Peer} {r : Peer × List Packet}
    (hy : y.session = (w.peer x.other).session)
    (hmoves : Moves c (w.peer x) y (w.net x) (w.net x.other) r) :
    Linked c (put { w with peer := Function.update w.peer x.other y } x r) := by
  have hx : (put { w with peer := Function.update w.peer x.other y } x r).peer x = r.1 :=
    Function.update_self _ _ _
  have hother : (put { w with peer := Function.update w.peer x.other y } x r).peer x.other = y := by
    show Function.update (Function.update w.peer x.other y) x r.1 x.other = y
    rw [Function.update_of_ne x.other_ne, Function.update_self]
  have hnet : (put { w with peer := Function.update w.peer x.other y } x r).net x = w.net x :=
    Function.update_of_ne x.other_ne.symm _ _
  have hnet' : (put { w with peer := Function.update w.peer x.other y } x r).net x.other =
      w.net x.other ++ r.2 := Function.update_self _ _ _
  constructor
  · intro z
    rcases x.eq_or z with rfl | rfl
    · rw [hx, hmoves.attached, h.attached]
    · rw [hother, hy, h.attached]
  · intro z
    rcases x.eq_or z with rfl | rfl
    · rw [hx, hother, hnet, hnet']
      exact hmoves.sends
    · rw [Side.other_other, hx, hother, hnet, hnet']
      exact hmoves.receives

/-- A step of the side `x` alone. -/
theorem Linked.put (h : Linked c w) {r : Peer × List Packet}
    (hmoves : Moves c (w.peer x) (w.peer x.other) (w.net x) (w.net x.other) r) :
    Linked c (put w x r) := by
  have hstep := h.step rfl hmoves
  rw [Function.update_eq_self] at hstep
  exact hstep

/-! ## Synced steps -/

instance (x y : Peer) (f : Frame) : Decidable (HandshakeOk x y f) :=
  decidable_of_iff _ ⟨fun h => ⟨h.1, h.2⟩, fun h => And.intro h.1 h.2⟩

instance (x y : Peer) : Decidable (LongReady x y) :=
  inferInstanceAs (Decidable (∀ f ∈ x.session.txList.head?, _ → _ → _))

/-- What is asked of a frame that is accepted. -/
structure FrameOk (x y : Peer) (p : Packet) : Prop where
  data : isData p.frame.attr → x.rxNum < p.stamp + 252
  confirm : p.frame.attr = .confirm → x.session.txList = [] ∨ x.txNum < p.stamp + 253
  resend : p.frame.attr = .resend → x.started = x.messages.length ∨
    x.session.txList.find? (fun g => g.head.sequence = p.frame.head.sequence) = none
  handshake : p.frame.attr = .handshake → HandshakeOk x y p.frame

instance (x y : Peer) (p : Packet) : Decidable (FrameOk x y p) :=
  decidable_of_iff _ ⟨fun h => ⟨h.1, h.2.1, h.2.2.1, h.2.2.2⟩,
    fun h => And.intro h.1 (And.intro h.2 (And.intro h.3 h.4))⟩

/-- The condition on a step. -/
def Synced (w : World) : LinkOp → Prop
  | .send _ data memory => data = [] ∨ framesMax < frameCount data.length ∨
    frameCount data.length ≤ memory ∨ memory = 0
  | .deliver x i _ _ => ∀ p ∈ (w.net x)[i]?,
    seqAccepted (w.peer x).session p.frame.attr p.frame.head.sequence →
      FrameOk (w.peer x) (w.peer x.other) p
  | .ready x _ => (w.peer x).session.state = .connect →
    (∀ f ∈ (w.peer x).session.txList.head?, f.issent = false) →
      LongReady (w.peer x) (w.peer x.other)
  | _ => True

instance (w : World) : ∀ op, Decidable (Synced w op)
  | .send _ _ _ => inferInstanceAs (Decidable (_ ∨ _))
  | .deliver x i _ _ => inferInstanceAs (Decidable (∀ p ∈ (w.net x)[i]?, _ → _))
  | .ready _ _ => inferInstanceAs (Decidable (_ → _ → _))
  | .attach _ | .sendTimer _ | .longTimer _ | .timeout _ | .longTimeout _ => isTrue trivial

theorem Linked.deliver (h : Linked c w) {p : Packet} {recvLen : Nat}
    {malloc : Nat → Option (Nat → Byte)} (hp : p ∈ w.net x)
    (hok : seqAccepted (w.peer x).session p.frame.attr p.frame.head.sequence →
      FrameOk (w.peer x) (w.peer x.other) p)
    (hs : linkDeliver malloc w x p recvLen = some w') : Linked c w' := by
  have hsends := h.direction x
  have hreceives := h.direction x.other
  rw [Side.other_other] at hreceives
  have hattached := h.attached x
  unfold linkDeliver at hs
  split at hs
  · next haccepted =>
    have hok := hok haccepted
    cases hattr : p.frame.attr with
    | handshake =>
      obtain rfl : _ = w' := Option.some.inj ((if_pos hattr).symm.trans hs)
      refine h.step ?_ (handle_handshake_moves hsends hreceives hattr (hok.handshake hattr))
      unfold resync
      dsimp only
      split <;> rfl
    | resend =>
      obtain rfl : _ = w' := Option.some.inj ((if_neg (by simp [hattr])).symm.trans hs)
      exact h.put (handle_resend_moves hsends hreceives hattr (hok.resend hattr))
    | confirm =>
      obtain rfl : _ = w' := Option.some.inj ((if_neg (by simp [hattr])).symm.trans hs)
      exact h.put (handle_confirm_moves hsends hreceives hp hattr haccepted (hok.confirm hattr))
    | detach =>
      obtain rfl : _ = w' := Option.some.inj ((if_neg (by simp [hattr])).symm.trans hs)
      exact h.put (handle_detach_moves hsends hreceives hattr)
    | sessionEnd =>
      obtain rfl : _ = w' := Option.some.inj ((if_neg (by simp [hattr])).symm.trans hs)
      exact h.put (handle_sessionEnd_moves hsends hreceives hattr)
    | longData =>
      obtain rfl : _ = w' := Option.some.inj ((if_neg (by simp [hattr])).symm.trans hs)
      exact h.put (handle_long_moves hsends hreceives hattached hp hattr haccepted
        (hok.data (by rw [hattr]; rfl)))
    | shortData =>
      obtain rfl : _ = w' := Option.some.inj ((if_neg (by simp [hattr])).symm.trans hs)
      exact h.put (handle_short_moves hsends hreceives hattached hp hattr haccepted
        (hok.data (by rw [hattr]; rfl)))
  · split at hs
    · cases hs
      refine h.put (moves_receiver rfl hsends rfl ?_ nofun)
      rw [List.append_nil]
      exact hreceives.stop 0 0
    · exact nomatch hs

/-- A synced step keeps both directions. -/
theorem linked_step {op : LinkOp} (h : Linked c w) (hok : Synced w op)
    (hs : linkStep c w op = some w') : Linked c w' := by
  have hreceives : ∀ x : Side, Direction c (w.peer x.other).outgoing (w.peer x).incoming (w.net x)
      (w.net x.other) := fun x => by
    have hother := h.direction x.other
    rwa [Side.other_other] at hother
  cases op with
  | attach x =>
    cases hs
    exact h.put (rtLinkServiceAttach_moves (h.direction x) (hreceives x))
  | send x data memory =>
    obtain ⟨_, hs⟩ := Option.ite_none_right_eq_some.mp hs
    cases hs
    exact h.put (rtLinkSend_moves (h.direction x) (hreceives x) hok)
  | deliver x i recvLen malloc =>
    obtain ⟨p, hp, hs⟩ := Option.bind_eq_some_iff.mp hs
    exact h.deliver (List.mem_of_getElem? hp) (hok p hp) hs
  | sendTimer x | longTimer x =>
    obtain ⟨_, hs⟩ := Option.ite_none_right_eq_some.mp hs
    cases hs
    exact h.put (moves_idle rfl (h.direction x) (hreceives x) rfl rfl nofun)
  | ready x io =>
    obtain ⟨_, hs⟩ := Option.ite_none_right_eq_some.mp hs
    cases hs
    have hmoves := rtLinkSendReady_moves (x := { w.peer x with ready := false })
      (h.direction x) (hreceives x) io hok
    exact h.put (hmoves.of_session rfl)
  | timeout x =>
    obtain ⟨_, hs⟩ := Option.ite_none_right_eq_some.mp hs
    cases hs
    have hmoves := rtLinkSendTimeout_moves (x := { w.peer x with timeout := false })
      (h.direction x) (hreceives x)
    exact h.put (hmoves.of_session rfl)
  | longTimeout x =>
    obtain ⟨_, hs⟩ := Option.ite_none_right_eq_some.mp hs
    cases hs
    have hmoves := rtLinkLongRecvTimeout_moves (x := { w.peer x with longTimeout := false })
      (h.direction x) (hreceives x)
    exact h.put (hmoves.of_session rfl)

/-! ## Reliable delivery -/

/-- A message that is sent, received and confirmed. -/
def oneMessage : List LinkOp :=
  let memory : Nat → Option (Nat → Byte) := fun _ => some fun _ => 0
  [.attach .a, .deliver .b 0 0 memory, .deliver .a 0 0 memory, .send .a [7] 1,
    .ready .a fun _ => true, .deliver .b 1 0 memory, .deliver .a 1 0 memory]

/-- The data frame is lost, and the send timer asks for a handshake. -/
def lostMessage : List LinkOp :=
  let memory : Nat → Option (Nat → Byte) := fun _ => some fun _ => 0
  [.attach .a, .deliver .b 0 0 memory, .deliver .a 0 0 memory, .send .a [7] 1,
    .ready .a fun _ => true, .sendTimer .a, .timeout .a, .deliver .b 2 0 memory,
    .deliver .a 1 0 memory]

/-- The handshake and the data frame arrive twice. -/
def repeatedMessage : List LinkOp :=
  let memory : Nat → Option (Nat → Byte) := fun _ => some fun _ => 0
  oneMessage ++ [.deliver .b 0 0 memory, .deliver .b 1 0 memory]

end RtThread.RtLink
