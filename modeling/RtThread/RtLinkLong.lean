import RtThread.RingbufferFifo
import RtThread.RtLinkDirection

/-!
# The frames of a long message

`_long_handle_second` copies a frame to its place in the block and sets its bit. With the last
bit the block holds the message, and only then is anything confirmed: a message has no more
frames than the first mask of `ack_mask` has bits.
-/
namespace RtThread.RtLink

open Ringbuffer (Byte)

/-! ## Bits -/

theorem num1_complete : ∀ n ≤ framesMax, ∀ count < 2 ^ n, rtLinkUtilsNum1 count = n →
    ∀ l < n, count.testBit l = true := by decide

theorem num1_group : ∀ n ≤ framesMax, ∀ count < 2 ^ n, count &&& ackMax = ackMax →
    rtLinkUtilsNum1 count = n := by decide

theorem or_bit_lt {count j n : Nat} (hcount : count < 2 ^ n) (hj : j < n) :
    count ||| 1 <<< j < 2 ^ n := by
  refine Nat.or_lt_two_pow hcount ?_
  rw [Nat.one_shiftLeft]
  exact Nat.pow_lt_pow_right (by decide) hj

theorem testBit_or_bit (count j l : Nat) :
    (count ||| 1 <<< j).testBit l = (count.testBit l || decide (j = l)) := by
  rw [Nat.testBit_or, Nat.one_shiftLeft, Nat.testBit_two_pow]

theorem or_bit_ne_zero (count j : Nat) : count ||| 1 <<< j ≠ 0 := by
  intro h
  have hbit := testBit_or_bit count j j
  rw [h, Nat.zero_testBit] at hbit
  simp at hbit

/-! ## The block -/

variable {m : Message} {space : Nat → Byte} {j l : Nat}

/-- The bytes of the frame `j`. -/
def Message.slice (m : Message) (j : Nat) : List Byte :=
  (m.data.drop (maxDataLength * j)).take maxDataLength

theorem Stored.copy (h : Stored m space l) (hne : j ≠ l) :
    Stored m (Ringbuffer.copyTo space (maxDataLength * j) (m.slice j)) l := by
  intro b hlo hhi hb
  have hlen : (m.slice j).length ≤ maxDataLength := List.length_take_le _ _
  rw [← h b hlo hhi hb]
  rcases Nat.lt_or_gt_of_ne hne with hlt | hgt
  · have : maxDataLength * (j + 1) ≤ maxDataLength * l := Nat.mul_le_mul_left _ hlt
    rw [Nat.mul_succ] at this
    exact Ringbuffer.copyTo_of_le (by omega)
  · have : maxDataLength * (l + 1) ≤ maxDataLength * j := Nat.mul_le_mul_left _ hgt
    exact Ringbuffer.copyTo_of_lt (by omega)

theorem Stored.new : Stored m (Ringbuffer.copyTo space (maxDataLength * j) (m.slice j)) j := by
  intro b hlo hhi hb
  obtain ⟨d, rfl⟩ := Nat.exists_eq_add_of_le hlo
  rw [Nat.mul_succ] at hhi
  have hd : d < (m.slice j).length := by
    rw [Message.slice, List.length_take, List.length_drop]
    omega
  rw [Ringbuffer.copyTo_new hd]
  simp [Message.slice]

/-- The block of a complete message. -/
theorem copyFrom_of_stored (hne : m.data ≠ []) (h : ∀ l < m.count, Stored m space l) :
    Ringbuffer.copyFrom space 0 m.data.length = m.data := by
  have hbound : m.data.length ≤ maxDataLength * m.count :=
    (frameCount_bounds (List.length_pos_of_ne_nil hne)).2
  refine List.ext_getElem (by simp [Ringbuffer.copyFrom]) fun b hb hb' => ?_
  have hl : b / maxDataLength < m.count := Nat.div_lt_of_lt_mul (by omega)
  have hlo : maxDataLength * (b / maxDataLength) ≤ b := Nat.mul_div_le _ _
  have hhi : b < maxDataLength * (b / maxDataLength + 1) := Nat.lt_mul_div_succ b (by decide)
  have hget := h _ hl b hlo hhi hb'
  simpa [Ringbuffer.copyFrom] using hget

/-! ## A frame -/

/-- The sequence number of a frame gives its index. -/
theorem index_of_sequence {b : Nat} (hj : j < framesMax) :
    wsub 8 (rtLinkCheckSeq ((b + 1 + j) % 2 ^ 8) (b % 2 ^ 8)) 1 = j := by
  unfold framesMax at hj
  rw [rtLinkCheckSeq, wsub, wsub]
  omega

/-- What `_long_handle_second` does with a frame that is still missing. -/
theorem longHandleSecond_eq {s : Session} {f : Frame} {recvLen n : Nat}
    (hindex : wsub 8 (rtLinkCheckSeq f.head.sequence s.rxSeq) 1 = j) (hj : j < n)
    (hn : n ≤ framesMax) (hspace : s.dataspace = some space) (hmask : s.ackMask = ackMax)
    (htotal : s.rxTotal = n) (hcount : s.longCount < 2 ^ n) (hack : f.head.ack = true)
    (hbit : s.longCount.testBit j = false) :
    longHandleSecond s f recvLen =
      if rtLinkUtilsNum1 (s.longCount ||| 1 <<< j) = n then
        ({ s with
            rxSeq := wadd 8 s.rxSeq n
            dataspace := none
            longCount := 0
            rxTotal := 0
            ackMask := ackMax },
          .send (commandFrame f.head.service (s.rxSeq + n) .confirm 0) :: .stopLongTimer ::
            rtLinkRecvFinish s f.head.service (Ringbuffer.copyFrom
              (Ringbuffer.copyTo space (maxDataLength * j) f.payload) 0 f.extend.parameter))
      else
        ({ s with
            longCount := s.longCount ||| 1 <<< j
            dataspace := some (Ringbuffer.copyTo space (maxDataLength * j) f.payload) },
          if recvLen < f.head.length % maxDataLength then [.startLongTimer] else []) := by
  have hmax : ¬ framesMax < j := by omega
  unfold longHandleSecond
  simp only [hindex, hmax, hbit, hspace, hack, hmask, htotal, false_or, Bool.false_eq_true,
    if_false]
  by_cases hcomplete : rtLinkUtilsNum1 (s.longCount ||| 1 <<< j) = n
  · simp [hcomplete]
  · have hgroup : ¬ (s.longCount ||| 1 <<< j) &&& ackMax = ackMax := fun h =>
      hcomplete (num1_group n hn _ (or_bit_lt hcount hj) h)
    simp [hcomplete, hgroup]

end RtThread.RtLink
