import RtThread.RtLinkDecode

/-!
# The receive buffer of rt-link as a queue

A write puts its bytes behind the unread ones. The read point and the write point are all there
is to tell how many bytes are unread, so a write into the last free byte leaves a buffer that
looks empty.
-/
namespace RtThread.RtLink

open Ringbuffer (Byte)

/-- What `rt_link_hw_copy` reads from the read point on. -/
def readable (b : RxBuffer) : List Byte := rtLinkHwCopy b b.readPoint (rtLinkHwRecvLen b)

/-- The length grows by the bytes that are accepted, and they follow the unread ones. -/
def Conserves (b : RxBuffer) (bytes : List Byte) : Prop :=
  let written := rtLinkHwBufferWrite b bytes
  rtLinkHwRecvLen written.1 = rtLinkHwRecvLen b + written.2 ∧
    readable written.1 = readable b ++ bytes.take written.2

section points

variable {b : RxBuffer} {bytes u : List Byte}

theorem recvLen_lt (hread : b.readPoint < receiveBufferLength)
    (hwrite : b.writePoint < receiveBufferLength) : rtLinkHwRecvLen b < receiveBufferLength := by
  rw [rtLinkHwRecvLen]
  split <;> omega

/-- Any two points in the buffer have unread bytes between them. -/
theorem unread_of_points (hread : b.readPoint < receiveBufferLength)
    (hwrite : b.writePoint < receiveBufferLength) :
    Unread b (Cyclic.window b.data receiveBufferLength b.readPoint (rtLinkHwRecvLen b)) := by
  have hlt := recvLen_lt hread hwrite
  refine ⟨hread, by rwa [Cyclic.length_window], ?_, by rw [Cyclic.length_window]⟩
  rw [Cyclic.length_window, rtLinkHwRecvLen]
  split
  · rename_i hle
    rw [Nat.add_sub_cancel' hle, Nat.mod_eq_of_lt hwrite]
  · rename_i hlt
    rw [show b.readPoint + (receiveBufferLength - (b.readPoint - b.writePoint)) =
      b.writePoint + receiveBufferLength by omega, Nat.add_mod_right, Nat.mod_eq_of_lt hwrite]

theorem Unread.readable (h : Unread b u) : readable b = u := by
  have hcopy := h.copy (i := 0) (n := u.length) (by omega)
  rw [h.readPoint_mod, List.drop_zero, List.take_length] at hcopy
  rw [RtLink.readable, h.recvLen, hcopy]

/-- The bytes that a write accepts. -/
theorem write_count (bytes : List Byte) (hread : b.readPoint < receiveBufferLength) :
    (rtLinkHwBufferWrite b bytes).2 =
      min (receiveBufferLength - rtLinkHwRecvLen b) bytes.length := by
  have hmin : ∀ surplus : Nat, (if surplus < bytes.length then surplus else bytes.length) =
      min surplus bytes.length := by
    intro surplus
    split <;> omega
  rw [rtLinkHwBufferWrite, rtLinkHwRecvLen]
  by_cases hle : b.readPoint ≤ b.writePoint
  · rw [if_pos hle, if_pos hle, ← hmin]
    rw [apply_ite Prod.snd, ite_self]
  · rw [if_neg hle, if_neg hle, show receiveBufferLength -
      (receiveBufferLength - (b.readPoint - b.writePoint)) = b.readPoint - b.writePoint by omega,
      ← hmin]

/-- A write that takes the last free byte moves the write point up to the read point. -/
theorem write_fills (hread : b.readPoint < receiveBufferLength)
    (hwrite : b.writePoint < receiveBufferLength)
    (hfull : receiveBufferLength ≤ rtLinkHwRecvLen b + bytes.length) :
    rtLinkHwRecvLen (rtLinkHwBufferWrite b bytes).1 = 0 := by
  have hpoints : ∀ c : RxBuffer, c.writePoint = c.readPoint → rtLinkHwRecvLen c = 0 := by
    intro c heq
    rw [rtLinkHwRecvLen, if_pos heq.ge, heq, Nat.sub_self]
  apply hpoints
  rw [rtLinkHwRecvLen] at hfull
  have hcount : ∀ surplus : Nat, surplus ≤ bytes.length →
      (if surplus < bytes.length then surplus else bytes.length) = surplus := by
    intro surplus hle
    split <;> omega
  rw [rtLinkHwBufferWrite]
  by_cases hle : b.readPoint ≤ b.writePoint
  · rw [if_pos hle] at hfull ⊢
    dsimp only
    rw [hcount _ (by omega)]
    split
    · dsimp only
      omega
    · omega
  · rw [if_neg hle] at hfull ⊢
    dsimp only
    rw [hcount _ (by omega)]
    omega

/-- A write conserves the bytes exactly when it leaves a byte of the buffer free. -/
theorem receive_buffer_conserves (hread : b.readPoint < receiveBufferLength)
    (hwrite : b.writePoint < receiveBufferLength) :
    Conserves b bytes ↔ rtLinkHwRecvLen b + bytes.length < receiveBufferLength := by
  have hcount := write_count bytes hread
  constructor
  · rintro ⟨hlen, -⟩
    by_contra hfull
    rw [write_fills hread hwrite (by omega), hcount] at hlen
    omega
  · intro hfits
    have hunread := unread_of_points hread hwrite
    have happend : Unread (rtLinkHwBufferWrite b bytes).1 _ :=
      hunread.append (by rwa [Cyclic.length_window])
    have hall : (rtLinkHwBufferWrite b bytes).2 = bytes.length := by
      rw [hcount]
      omega
    constructor
    · rw [happend.recvLen, hall, List.length_append, Cyclic.length_window]
    · rw [happend.readable, hunread.readable, hall, List.take_length]

/-- Fifty bytes written round the end of the buffer. -/
theorem receive_buffer_conserves_fifty :
    Conserves ⟨fun _ => 0, 3000, 3050⟩ (List.replicate 50 7) :=
  (receive_buffer_conserves (b := ⟨fun _ => 0, 3000, 3050⟩) (by decide) (by decide)).mpr (by
    rw [List.length_replicate]
    decide)

/-- An empty buffer takes as many bytes as it has, and is empty again. -/
theorem receive_buffer_not_conserves :
    ¬ Conserves ⟨fun _ => 0, 0, 0⟩ (List.replicate 3080 7) := by
  have hdata : (List.replicate 3080 (7 : Byte)).length = 3080 := List.length_replicate
  generalize List.replicate 3080 (7 : Byte) = bytes at hdata
  rintro ⟨hlen, -⟩
  rw [write_fills (b := ⟨fun _ => 0, 0, 0⟩) (by decide) (by decide) (by rw [hdata]; decide),
    write_count bytes (b := ⟨fun _ => 0, 0, 0⟩) (by decide), hdata] at hlen
  exact absurd hlen (by decide)

end points

end RtThread.RtLink
