import RtThread.Lib.Incremental
import RtThread.Lib.Runs
import RtThread.RingbufferFifo
import RtThread.RtLinkHw

/-!
# Decoding does not depend on the pieces of the stream

The abstract decoder reads the unread bytes as a list. The receiver of `rt_link_frame_check`
simulates it, wherever its bytes lie in the circular buffer, and the abstract decoder makes
no use of how much of the stream it sees. So the frames that have been handed over are those
of the stream as a whole.
-/
namespace RtThread.RtLink

open Ringbuffer (Byte copyTo copyFrom)

/-! ## The unread bytes -/

/-- The unread bytes of the buffer, from the read point to the write point. -/
structure Unread (b : RxBuffer) (u : List Byte) : Prop where
  read : b.readPoint < receiveBufferLength
  few : u.length < receiveBufferLength
  write : b.writePoint = (b.readPoint + u.length) % receiveBufferLength
  bytes : Cyclic.window b.data receiveBufferLength b.readPoint u.length = u

section buffer

variable {b : RxBuffer} {u : List Byte} {i n : Nat}

theorem Unread.recvLen (h : Unread b u) : rtLinkHwRecvLen b = u.length := by
  obtain ⟨hr, hfew, hw, -⟩ := h
  simp only [receiveBufferLength] at hr hfew hw
  simp only [rtLinkHwRecvLen, receiveBufferLength]
  split <;> omega

/-- The write point wraps round exactly when it is before the read point. -/
theorem Unread.pointShift (h : Unread b u) (hn : i + n ≤ u.length) :
    rtLinkHwBufferPointShift b ((b.readPoint + i) % receiveBufferLength) n =
      (b.readPoint + (i + n)) % receiveBufferLength := by
  obtain ⟨hr, hfew, hw, -⟩ := h
  have hsize : receiveBufferLength = 3080 := rfl
  unfold rtLinkHwBufferPointShift
  dsimp only
  rw [hsize] at hr hfew hw ⊢
  split
  · split <;> omega
  · split
    · split <;> omega
    · omega

theorem Unread.readPoint_mod (h : Unread b u) :
    (b.readPoint + 0) % receiveBufferLength = b.readPoint :=
  Nat.mod_eq_of_lt h.read

theorem Unread.drop (h : Unread b u) (hn : n ≤ u.length) :
    Unread { b with readPoint := rtLinkHwBufferPointShift b b.readPoint n } (u.drop n) := by
  have hshift : rtLinkHwBufferPointShift b b.readPoint n =
      (b.readPoint + n) % receiveBufferLength := by
    have := h.pointShift (i := 0) (n := n) (by omega)
    rwa [h.readPoint_mod, Nat.zero_add] at this
  have hlen : (u.drop n).length = u.length - n := List.length_drop
  refine ⟨?_, ?_, ?_, ?_⟩
  · rw [hshift]
    exact Nat.mod_lt _ (by decide)
  · have := h.few
    omega
  · rw [hshift, hlen, h.write, Nat.mod_add_mod]
    congr 1
    omega
  · rw [hshift, hlen, Cyclic.window_mod, ← Cyclic.window_drop hn, h.bytes]

/-- A copy from the buffer is a part of the unread bytes. -/
theorem Unread.copy (h : Unread b u) (hn : i + n ≤ u.length) :
    rtLinkHwCopy b ((b.readPoint + i) % receiveBufferLength) n = (u.drop i).take n := by
  have hfew := h.few
  have hlt : (b.readPoint + i) % receiveBufferLength < receiveBufferLength :=
    Nat.mod_lt _ (by decide)
  have hcopy : rtLinkHwCopy b ((b.readPoint + i) % receiveBufferLength) n =
      Cyclic.window b.data receiveBufferLength ((b.readPoint + i) % receiveBufferLength) n := by
    unfold rtLinkHwCopy
    split
    · rw [← Ringbuffer.copyFrom_append hlt (by omega) (by omega),
        show (b.readPoint + i) % receiveBufferLength + n - receiveBufferLength =
          n - (receiveBufferLength - (b.readPoint + i) % receiveBufferLength) by omega]
    · exact Ringbuffer.copyFrom_eq_window (by omega)
  have htake : n ≤ u.length - i := by omega
  rw [hcopy, Cyclic.window_mod, ← Cyclic.window_take htake, ← Cyclic.window_drop (by omega),
    h.bytes]

theorem Unread.first {a : Byte} (h : Unread b (a :: u)) : b.data b.readPoint = a := by
  have hwin := h.bytes
  rw [List.length_cons, Cyclic.window_cons, Nat.mod_eq_of_lt h.read] at hwin
  exact (List.cons.inj hwin).1

/-- The checksum of a list of bytes. -/
def crc32 (bytes : List Byte) : BitVec 32 := rtLinkSfCrc32 0xffffffff bytes ^^^ 0xffffffff

theorem Unread.crc (h : Unread b u) (hn : n ≤ u.length) :
    rtLinkGetCrc b b.readPoint n = crc32 (u.take n) := by
  have hfew := h.few
  have hr := h.read
  have hwin : u.take n = Cyclic.window b.data receiveBufferLength b.readPoint n := by
    rw [← Cyclic.window_take hn, h.bytes]
  unfold rtLinkGetCrc crc32
  dsimp only
  split
  · rw [hwin, Ringbuffer.copyFrom_eq_window (n := receiveBufferLength) (by omega)]
  · rw [hwin, ← Ringbuffer.copyFrom_append hr (by omega) (by omega), rtLinkSfCrc32,
      rtLinkSfCrc32, rtLinkSfCrc32, List.foldl_append]

/-- A write behind the unread bytes. -/
theorem Unread.append (h : Unread b u) {bytes : List Byte}
    (hfits : u.length + bytes.length < receiveBufferLength) :
    Unread (rtLinkHwBufferWrite b bytes).1 (u ++ bytes) := by
  have hr := h.read
  have hw := h.write
  have hwlt : b.writePoint < receiveBufferLength := by
    rw [hw]
    exact Nat.mod_lt _ (by decide)
  have hwritten : ∀ c : RxBuffer, c.readPoint = b.readPoint →
      c.data = (Ringbuffer.write ⟨b.data, false, 0, false, b.writePoint, receiveBufferLength⟩
        bytes).buffer →
      c.writePoint = (b.writePoint + bytes.length) % receiveBufferLength → Unread c (u ++ bytes) := by
    intro c hread hdata hpoint
    let rb : Ringbuffer.RtRingbuffer :=
      ⟨b.data, false, 0, false, b.writePoint, receiveBufferLength⟩
    have hcopy := Ringbuffer.written_write (show rb.writeIndex < rb.bufferSize from hwlt)
      (by show bytes.length ≤ receiveBufferLength; omega)
    rw [← hdata] at hcopy
    dsimp only [rb] at hcopy
    rw [hw] at hcopy
    refine ⟨by rw [hread]; exact hr, by rw [List.length_append]; exact hfits, ?_, ?_⟩
    · rw [hpoint, hread, hw, Nat.mod_add_mod, List.length_append, Nat.add_assoc]
    · rw [hread, List.length_append, hcopy.mod.window_append (by omega), h.bytes]
  unfold rtLinkHwBufferWrite
  dsimp only
  split
  · rename_i hle
    have hsurplus : ¬ receiveBufferLength - (b.writePoint - b.readPoint) < bytes.length := by
      have hlen := h.recvLen
      rw [rtLinkHwRecvLen, if_pos hle] at hlen
      omega
    rw [if_neg hsurplus, List.take_length]
    split
    · rename_i hend
      refine hwritten _ rfl ?_ ?_
      · rw [Ringbuffer.write_buffer_of_le (by dsimp only; omega)]
      · show bytes.length - (receiveBufferLength - b.writePoint) = _
        rw [Nat.mod_eq_sub_mod (by omega), Nat.mod_eq_of_lt (by omega)]
        omega
    · rename_i hend
      refine hwritten _ rfl ?_ ?_
      · rw [Ringbuffer.write_buffer_of_lt (by dsimp only; omega)]
      · rw [Nat.mod_eq_of_lt (by omega)]
  · rename_i hlt
    have hsurplus : ¬ b.readPoint - b.writePoint < bytes.length := by
      have hlen := h.recvLen
      rw [rtLinkHwRecvLen, if_neg hlt] at hlen
      omega
    rw [if_neg hsurplus, List.take_length]
    refine hwritten _ rfl ?_ ?_
    · rw [Ringbuffer.write_buffer_of_lt (by dsimp only; omega)]
    · rw [Nat.mod_eq_of_lt (by omega)]

end buffer

/-! ## The abstract decoder -/

/-- What has been read of the next frame. -/
inductive Mode where
  | find
  /-- The first unread byte looks like a frame head. -/
  | head
  /-- The extended field is missing. -/
  | extend (h : Head)
  /-- The sequence number has been accepted. -/
  | body (h : Head) (e : Extend) (a : Attr)

structure Flat where
  mode : Mode
  session : Session

/-- The offset of the payload. -/
def payloadStart (h : Head) : Nat := if h.extend then 8 else 4

def frameLength (h : Head) : Nat := payloadStart h + h.length + if h.crc then 4 else 0

/-- The first byte is thrown away. -/
def refuse (s : Session) : Flat × Nat × List Frame := (⟨.find, rtLinkFrameStopReceive s⟩, 1, [])

def checkSeq (s : Session) (h : Head) (e : Extend) (a : Attr) : Flat × Nat × List Frame :=
  if seqAccepted s a h.sequence then (⟨.body h e a, s⟩, 0, []) else refuse s

/-- One step on a list of unread bytes. -/
def decodeStep (malloc : Nat → Option (Nat → Byte)) : Incremental.Step Flat Byte Frame
  | ⟨.find, s⟩, u =>
    u.head?.map fun a => if isFrameHead a then (⟨.head, s⟩, 0, []) else (⟨.find, s⟩, 1, [])
  | ⟨.head, s⟩, u =>
    if u.length < 4 then none
    else
      let h := parseHead (u.take 4)
      if serviceMax ≤ h.service then some (refuse s)
      else if h.extend then some (⟨.extend h, s⟩, 0, [])
      else some (checkSeq s h ⟨0, 0⟩ .shortData)
  | ⟨.extend h, s⟩, u =>
    if u.length < 8 then none
    else
      let e := parseExtend ((u.drop 4).take 4)
      match Attr.ofCode e.attr with
      | some a => some (checkSeq s h e a)
      | none => some (refuse s)
  | ⟨.body h e a, s⟩, u =>
    if u.length < frameLength h then none
    else
      let size := payloadStart h + h.length
      if h.crc ∧ parseCrc ((u.drop size).take 4) ≠ crc32 (u.take size) then some (refuse s)
      else
        let frame := ⟨h, e, a, (u.drop (payloadStart h)).take h.length⟩
        some (⟨.find, (rtLinkParseFrame malloc s frame 0).1⟩, frameLength h, [frame])

section flat

variable {malloc : Nat → Option (Nat → Byte)} {s : Session} {h : Head} {e : Extend} {a : Attr}
  {u : List Byte}

theorem payloadStart_le (h : Head) : 4 ≤ payloadStart h ∧ payloadStart h ≤ 8 := by
  unfold payloadStart
  split <;> omega

theorem checkSeq_le (hu : 0 < u.length) : (checkSeq s h e a).2.1 ≤ u.length := by
  unfold checkSeq
  split
  · exact Nat.zero_le _
  · exact hu

/-- A part of the bytes that are there does not change when more arrive. -/
theorem part_append {i n : Nat} (hn : i + n ≤ u.length) (more : List Byte) :
    ((u ++ more).drop i).take n = (u.drop i).take n := by
  rw [List.drop_append_of_le_length (by omega), List.take_append_of_le_length]
  rw [List.length_drop]
  omega

theorem decodeStep_stable : Incremental.Stable (decodeStep malloc) := by
  rintro ⟨mode, s⟩ u f' k out hstep
  cases mode with
  | find =>
    cases u with
    | nil => cases hstep
    | cons b u =>
      refine ⟨?_, fun more => hstep⟩
      simp only [decodeStep, List.head?_cons, Option.map_some, Option.some.injEq] at hstep
      split at hstep
      · cases hstep
        exact Nat.zero_le _
      · cases hstep
        exact Nat.le_add_left 1 _
  | head =>
    simp only [decodeStep] at hstep ⊢
    split at hstep
    · cases hstep
    · rename_i hlen
      have hpos : 0 < u.length := by omega
      refine ⟨?_, fun more => ?_⟩
      · split at hstep
        · cases hstep
          exact hpos
        · split at hstep
          · cases hstep
            exact Nat.zero_le _
          · have hle := checkSeq_le (s := s) (h := parseHead (u.take 4)) (e := ⟨0, 0⟩)
              (a := .shortData) hpos
            rw [Option.some.inj hstep] at hle
            exact hle
      · rw [if_neg (by rw [List.length_append]; omega),
          List.take_append_of_le_length (by omega)]
        exact hstep
  | extend h =>
    simp only [decodeStep] at hstep ⊢
    split at hstep
    · cases hstep
    · rename_i hlen
      have hpos : 0 < u.length := by omega
      refine ⟨?_, fun more => ?_⟩
      · split at hstep
        · rename_i a _
          have hle := checkSeq_le (s := s) (h := h) (e := parseExtend ((u.drop 4).take 4))
            (a := a) hpos
          rw [Option.some.inj hstep] at hle
          exact hle
        · cases hstep
          exact hpos
      · rw [if_neg (by rw [List.length_append]; omega), part_append (by omega)]
        exact hstep
  | body h e a =>
    have hstart := payloadStart_le h
    simp only [decodeStep] at hstep ⊢
    split at hstep
    · cases hstep
    · rename_i hlen
      have hsize : payloadStart h + h.length ≤ u.length := by
        unfold frameLength at hlen
        omega
      refine ⟨?_, fun more => ?_⟩
      · split at hstep
        · cases hstep
          omega
        · cases hstep
          omega
      · have hcrc : (h.crc = true ∧
            parseCrc (((u ++ more).drop (payloadStart h + h.length)).take 4) ≠
              crc32 ((u ++ more).take (payloadStart h + h.length))) =
            (h.crc = true ∧ parseCrc ((u.drop (payloadStart h + h.length)).take 4) ≠
              crc32 (u.take (payloadStart h + h.length))) := by
          by_cases hc : h.crc = true
          · have hfour : payloadStart h + h.length + 4 ≤ u.length := by
              rw [frameLength, if_pos hc] at hlen
              omega
            rw [part_append hfour, List.take_append_of_le_length hsize]
          · simp [hc]
        rw [if_neg (by rw [List.length_append]; omega), part_append hsize]
        simp only [hcrc]
        exact hstep

/-- The decoder waits without input. -/
theorem decodeStep_nil (f : Flat) : decodeStep malloc f [] = none := by
  obtain ⟨mode, s⟩ := f
  cases mode with
  | find => rfl
  | head => rfl
  | extend h => rfl
  | body h e a =>
    have hstart := payloadStart_le h
    simp only [decodeStep]
    rw [if_pos]
    unfold frameLength
    simp only [List.length_nil]
    omega

end flat

/-! ## The receiver simulates the abstract decoder -/

/-- The static variables in a mode. -/
def Matches (x : Receiver) : Mode → Prop
  | .find => x.status = .findFrameHead ∧ x.buffLen = 4
  | .head => x.status = .parseFrameHead ∧ x.buffLen = 4
  | .extend h => x.status = .parseFrameExtend ∧ x.buffLen = 8 ∧ x.head = h ∧ h.extend = true ∧
      x.data = (x.buffer.readPoint + 4) % receiveBufferLength
  | .body h e a => x.status = (if h.crc then .checkFrameCrc else .headleFrameData) ∧
      x.buffLen = frameLength h ∧ x.head = h ∧ x.extend = e ∧ x.attr = some a ∧
      x.data = (x.buffer.readPoint + payloadStart h) % receiveBufferLength ∧
      x.realData = (x.buffer.readPoint + payloadStart h) % receiveBufferLength

structure Rel (x : Receiver) (f : Flat) (u : List Byte) : Prop where
  unread : Unread x.buffer u
  session : x.session = f.session
  mode : Matches x f.mode

/-- What a pass through the switch does to the abstract decoder: it waits, or it goes on with fewer
than `n` bytes and looks for the next head. -/
def Follows (malloc : Nat → Option (Nat → Byte)) (n : Nat) (frames : List Frame) (f : Flat)
    (u : List Byte) : Outcome → Prop
  | .ret y => ∃ f', Incremental.Steps (decodeStep malloc) f u f' u [] ∧
      decodeStep malloc f' u = none ∧ Rel y f' u ∧ y.frames = frames
  | .brk y => ∃ s' rest out, Incremental.Steps (decodeStep malloc) f u ⟨.find, s'⟩ rest out ∧
      Rel y ⟨.find, s'⟩ rest ∧ y.frames = frames ++ out ∧ rest.length < n
  | .fall _ => False

section simulation

variable {malloc : Nat → Option (Nat → Byte)} {x : Receiver} {f f' : Flat} {u : List Byte}
  {s : Session} {h : Head} {e : Extend} {a : Attr} {n k : Nat} {frames : List Frame} {o : Outcome}

/-- A step without output before the pass. -/
theorem Follows.step {g : Flat} (hstep : decodeStep malloc f u = some (g, 0, []))
    (ho : Follows malloc n frames g u o) : Follows malloc n frames f u o := by
  cases o with
  | ret y =>
    obtain ⟨f₁, hsteps, hwait, hrel, hframes⟩ := ho
    exact ⟨f₁, .next hstep hsteps, hwait, hrel, hframes⟩
  | brk y =>
    obtain ⟨s', rest, out, hsteps, hrel, hframes, hlt⟩ := ho
    exact ⟨s', rest, out, .next hstep hsteps, hrel, hframes, hlt⟩
  | fall y => exact ho

/-- The jump to `__find_head`. -/
theorem rel_findHead (hu : Unread x.buffer u) (hpos : 0 < u.length) :
    Rel (findHead x) ⟨.find, rtLinkFrameStopReceive x.session⟩ (u.drop 1) :=
  ⟨hu.drop hpos, rfl, rfl, rfl⟩

theorem follows_refuse (hu : Unread x.buffer u) (hpos : 0 < u.length) (hn : u.length ≤ n)
    (hstep : decodeStep malloc f u = some (refuse x.session)) :
    Follows malloc n x.frames f u (.brk (findHead x)) := by
  refine ⟨_, _, [], .next hstep .refl, rel_findHead hu hpos, ?_, ?_⟩
  · rw [List.append_nil]
    rfl
  · rw [List.length_drop]
    omega

/-- `HEADLE_FRAME_DATA` with the whole frame in the buffer. -/
theorem follows_headle (hu : Unread x.buffer u) (hsession : x.session = s)
    (hbuff : x.buffLen = frameLength h) (hhead : x.head = h) (hextend : x.extend = e)
    (hattr : x.attr = some a)
    (hreal : x.realData = (x.buffer.readPoint + payloadStart h) % receiveBufferLength)
    (hlen : frameLength h ≤ u.length)
    (hcrc : ¬ (h.crc = true ∧ parseCrc ((u.drop (payloadStart h + h.length)).take 4) ≠
      crc32 (u.take (payloadStart h + h.length)))) :
    Follows malloc u.length x.frames ⟨.body h e a, s⟩ u (headleFrameData malloc u.length x) := by
  have hstart := payloadStart_le h
  have hpay : payloadStart h + h.length ≤ u.length := by
    unfold frameLength at hlen
    omega
  have hpayload : rtLinkHwCopy x.buffer x.realData x.head.length =
      (u.drop (payloadStart h)).take h.length := by
    rw [hreal, hhead, hu.copy hpay]
  have hdrop := hu.drop hlen
  have hstep : decodeStep malloc ⟨.body h e a, s⟩ u =
      some (⟨.find, (rtLinkParseFrame malloc s
        ⟨h, e, a, (u.drop (payloadStart h)).take h.length⟩ 0).1⟩, frameLength h,
        [⟨h, e, a, (u.drop (payloadStart h)).take h.length⟩]) := by
    simp only [decodeStep]
    rw [if_neg (by omega), if_neg hcrc]
  unfold headleFrameData
  rw [if_neg (by omega), hattr, hpayload, hhead, hextend, hsession]
  refine ⟨_, _, _, .next hstep .refl, ⟨?_, ?_, rfl, rfl⟩, rfl, ?_⟩
  · rw [hbuff]
    exact hdrop
  · exact rtLinkParseFrame_session _ _ _ _ _
  · rw [List.length_drop]
    unfold frameLength at hlen ⊢
    omega

/-- `CHECK_FRAME_CRC` and what follows. -/
theorem follows_body (hrel : Rel x ⟨.body h e a, s⟩ u) :
    Follows malloc u.length x.frames ⟨.body h e a, s⟩ u
      ((checkFrameCrc u.length x).andThen (headleFrameData malloc u.length)) := by
  obtain ⟨hu, hsession, hstatus, hbuff, hhead, hextend, hattr, hdata, hreal⟩ := hrel
  by_cases hlen : u.length < frameLength h
  · have hwait : decodeStep malloc ⟨.body h e a, s⟩ u = none := by
      simp only [decodeStep]
      rw [if_pos hlen]
    unfold checkFrameCrc
    rw [hhead]
    split
    · rw [if_pos (by omega)]
      exact ⟨_, .refl, hwait, ⟨hu, hsession, hstatus, hbuff, hhead, hextend, hattr, hdata, hreal⟩,
        rfl⟩
    · rename_i hc
      simp only [Outcome.andThen, headleFrameData]
      rw [if_pos (by omega)]
      refine ⟨_, .refl, hwait, ⟨hu, hsession, ?_, hbuff, rfl, hextend, hattr, hdata, hreal⟩, rfl⟩
      rw [if_neg hc]
  · have hlen : frameLength h ≤ u.length := by omega
    unfold checkFrameCrc
    rw [hhead]
    split
    · rename_i hc
      have hfour : payloadStart h + h.length + 4 ≤ u.length := by
        rw [frameLength, if_pos hc] at hlen
        exact hlen
      have hpoint : rtLinkHwBufferPointShift x.buffer x.data h.length =
          (x.buffer.readPoint + (payloadStart h + h.length)) % receiveBufferLength := by
        rw [hdata, hu.pointShift (by omega)]
      have hsize : x.buffLen - crcLength = payloadStart h + h.length := by
        rw [hbuff, frameLength, if_pos hc]
        exact Nat.add_sub_cancel _ _
      rw [if_neg (by omega)]
      dsimp only
      rw [hpoint, show crcLength = 4 from rfl, hu.copy hfour]
      rw [show x.buffLen - 4 = payloadStart h + h.length from hsize, hu.crc (by omega)]
      split
      · rename_i hbad
        refine follows_refuse hu (by omega) (Nat.le_refl _) ?_
        simp only [decodeStep]
        rw [if_neg (by omega), if_pos ⟨hc, hbad⟩, hsession]
      · rename_i hgood
        exact follows_headle hu hsession hbuff rfl hextend hattr hreal hlen fun hbad => hgood hbad.2
    · rename_i hc
      exact follows_headle hu hsession hbuff rfl hextend hattr hreal hlen fun hbad => hc hbad.1

/-- `PARSE_FRAME_SEQ` and what follows. -/
theorem follows_seq (hu : Unread x.buffer u) (hpos : 0 < u.length)
    (hbuff : x.buffLen = payloadStart x.head) (hattr : x.attr = some a)
    (hdata : x.data = (x.buffer.readPoint + payloadStart x.head) % receiveBufferLength)
    (hstep : decodeStep malloc f u = some (checkSeq x.session x.head x.extend a)) :
    Follows malloc u.length x.frames f u ((parseFrameSeq x).andThen fun x =>
      (checkFrameCrc u.length x).andThen (headleFrameData malloc u.length)) := by
  unfold checkSeq at hstep
  unfold parseFrameSeq
  rw [hattr]
  dsimp only
  split
  · rename_i hseq
    rw [if_pos hseq] at hstep
    refine Follows.step hstep ?_
    split
    · rename_i hc
      refine follows_body ⟨hu, rfl, ?_, ?_, rfl, rfl, rfl, hdata, hdata⟩
      · rw [if_pos hc]
      · rw [frameLength, if_pos hc, ← hbuff]
        rfl
    · rename_i hc
      refine follows_body ⟨hu, rfl, ?_, ?_, rfl, rfl, rfl, hdata, hdata⟩
      · rw [if_neg hc]
      · rw [frameLength, if_neg hc, ← hbuff]
        rfl
  · rename_i hseq
    rw [if_neg hseq] at hstep
    exact follows_refuse hu hpos (Nat.le_refl _) hstep

/-- `PARSE_FRAME_EXTEND` and what follows. -/
theorem follows_extend (hrel : Rel x ⟨.extend h, s⟩ u) (hpos : 0 < u.length) :
    Follows malloc u.length x.frames ⟨.extend h, s⟩ u ((parseFrameExtend u.length x).andThen
      fun x => (parseFrameSeq x).andThen fun x =>
        (checkFrameCrc u.length x).andThen (headleFrameData malloc u.length)) := by
  obtain ⟨hu, hsession, hstatus, hbuff, hhead, hext, hdata⟩ := hrel
  dsimp only at hsession hext
  have hstart : payloadStart h = 8 := if_pos hext
  unfold parseFrameExtend
  rw [if_pos (by rw [hhead]; exact hext)]
  split
  · rename_i hlen
    refine ⟨_, .refl, ?_, ⟨hu, hsession, hstatus, hbuff, hhead, hext, hdata⟩, rfl⟩
    simp only [decodeStep]
    rw [if_pos (by omega)]
  · rename_i hlen
    have hcopy : rtLinkHwCopy x.buffer x.data extendLength = (u.drop 4).take 4 := by
      rw [hdata]
      exact hu.copy (show 4 + 4 ≤ u.length by omega)
    have hpoint : rtLinkHwBufferPointShift x.buffer x.data extendLength =
        (x.buffer.readPoint + payloadStart x.head) % receiveBufferLength := by
      rw [hdata, hhead, hstart]
      exact hu.pointShift (show 4 + 4 ≤ u.length by omega)
    dsimp only
    rw [hcopy, hpoint]
    split
    · rename_i a ha
      refine follows_seq (x := { x with
          extend := parseExtend ((u.drop 4).take 4)
          data := (x.buffer.readPoint + payloadStart x.head) % receiveBufferLength
          attr := some a
          status := .parseFrameSeq }) hu hpos ?_ rfl rfl ?_
      · rw [hbuff, hhead, hstart]
      · simp only [decodeStep]
        rw [if_neg (by omega), ha, hsession, hhead]
    · rename_i ha
      refine follows_refuse (x := { x with
          extend := parseExtend ((u.drop 4).take 4)
          data := (x.buffer.readPoint + payloadStart x.head) % receiveBufferLength })
        hu hpos (Nat.le_refl _) ?_
      simp only [decodeStep]
      rw [if_neg (by omega), ha, hsession]

/-- `PARSE_FRAME_HEAD` and what follows. -/
theorem follows_head (hrel : Rel x ⟨.head, s⟩ u) (hpos : 0 < u.length) :
    Follows malloc u.length x.frames ⟨.head, s⟩ u ((parseFrameHead u.length x).andThen fun x =>
      (parseFrameExtend u.length x).andThen fun x => (parseFrameSeq x).andThen fun x =>
        (checkFrameCrc u.length x).andThen (headleFrameData malloc u.length)) := by
  obtain ⟨hu, hsession, hstatus, hbuff⟩ := hrel
  unfold parseFrameHead
  split
  · rename_i hlen
    refine ⟨_, .refl, ?_, ⟨hu, hsession, hstatus, hbuff⟩, rfl⟩
    simp only [decodeStep]
    rw [if_pos (by omega)]
  · rename_i hlen
    have hfour : 0 + 4 ≤ u.length := by omega
    have hcopy : rtLinkHwCopy x.buffer x.buffer.readPoint headLength = u.take 4 := by
      have := hu.copy hfour
      rwa [hu.readPoint_mod, List.drop_zero] at this
    have hpoint : rtLinkHwBufferPointShift x.buffer x.buffer.readPoint headLength =
        (x.buffer.readPoint + 4) % receiveBufferLength := by
      have := hu.pointShift hfour
      rwa [hu.readPoint_mod, Nat.zero_add] at this
    dsimp only
    rw [hcopy, hpoint]
    generalize hhead : parseHead (u.take 4) = h
    split
    · rename_i hserv
      refine follows_refuse (x := { x with
          data := (x.buffer.readPoint + 4) % receiveBufferLength
          head := h
          extend := ⟨0, 0⟩
          attr := none
          realData := 0 }) hu hpos (Nat.le_refl _) ?_
      simp only [decodeStep, hhead]
      rw [if_neg (by omega), if_pos hserv, hsession]
    · rename_i hserv
      split
      · rename_i hext
        refine Follows.step (g := ⟨.extend h, s⟩) ?_
          (follows_extend ⟨hu, hsession, rfl, ?_, rfl, hext, rfl⟩ hpos)
        · simp only [decodeStep, hhead]
          rw [if_neg (by omega), if_neg hserv, if_pos hext]
        · rw [hbuff]
          rfl
      · rename_i hext
        have hstart : payloadStart h = 4 := if_neg hext
        simp only [Outcome.andThen, parseFrameExtend]
        rw [if_neg hext]
        refine follows_seq (x := { x with
            data := (x.buffer.readPoint + 4) % receiveBufferLength
            head := h
            extend := ⟨0, 0⟩
            attr := some .shortData
            realData := 0
            status := .parseFrameSeq }) hu hpos ?_ rfl ?_ ?_
        · rw [hbuff, hstart]
        · rw [hstart]
        · simp only [decodeStep, hhead]
          rw [if_neg (by omega), if_neg hserv, if_neg hext, hsession]

/-- `FIND_FRAME_HEAD`. -/
theorem find_spec (malloc : Nat → Option (Nat → Byte)) {b : Byte}
    (hrel : Rel x ⟨.find, s⟩ (b :: u)) :
    ∃ y f' rest, findFrameHead x = .brk y ∧
      Incremental.Steps (decodeStep malloc) ⟨.find, s⟩ (b :: u) f' rest [] ∧ Rel y f' rest ∧
      y.frames = x.frames ∧
      (f' = ⟨.head, s⟩ ∧ rest = b :: u ∨ f' = ⟨.find, s⟩ ∧ rest = u) := by
  obtain ⟨hu, hsession, hstatus, hbuff⟩ := hrel
  unfold findFrameHead
  rw [hu.first]
  by_cases hb : isFrameHead b = true
  · have hstep : decodeStep malloc ⟨.find, s⟩ (b :: u) = some (⟨.head, s⟩, 0, []) := by
      simp only [decodeStep, List.head?_cons, Option.map_some, if_pos hb]
    rw [if_pos hb]
    exact ⟨_, ⟨.head, s⟩, b :: u, rfl, .single hstep, ⟨hu, hsession, rfl, hbuff⟩, rfl,
      .inl ⟨rfl, rfl⟩⟩
  · have hstep : decodeStep malloc ⟨.find, s⟩ (b :: u) = some (⟨.find, s⟩, 1, []) := by
      simp only [decodeStep, List.head?_cons, Option.map_some, if_neg hb]
    have hdrop : Unread _ u := hu.drop (n := 1) (by simp)
    rw [if_neg hb]
    exact ⟨_, ⟨.find, s⟩, u, rfl, .single hstep, ⟨hdrop, hsession, hstatus, hbuff⟩, rfl,
      .inr ⟨rfl, rfl⟩⟩

/-- A pass through the switch that does not look for a head. -/
theorem follows_switch (hrel : Rel x f u) (hpos : 0 < u.length) (hfind : f.mode ≠ .find) :
    Follows malloc u.length x.frames f u (switch malloc u.length x) := by
  obtain ⟨mode, s⟩ := f
  cases mode with
  | find => exact absurd rfl hfind
  | head =>
    have h : Follows malloc u.length x.frames ⟨.head, s⟩ u _ := follows_head hrel hpos
    unfold switch
    rw [hrel.mode.1]
    exact h
  | extend h =>
    have hext : Follows malloc u.length x.frames ⟨.extend h, s⟩ u _ := follows_extend hrel hpos
    unfold switch
    rw [hrel.mode.1]
    exact hext
  | body h e a =>
    have hbody : Follows malloc u.length x.frames ⟨.body h e a, s⟩ u _ := follows_body hrel
    have hstatus : x.status = if h.crc then .checkFrameCrc else .headleFrameData := hrel.mode.1
    by_cases hc : h.crc = true
    · rw [if_pos hc] at hstatus
      unfold switch
      rw [hstatus]
      exact hbody
    · rw [if_neg hc] at hstatus
      have hfall : checkFrameCrc u.length x = .fall x := by
        unfold checkFrameCrc
        rw [if_neg (by rw [hrel.mode.2.2.1]; exact hc), ← hstatus]
      rw [hfall] at hbody
      unfold switch
      rw [hstatus]
      exact hbody

/-- The rounds that the loop may take to read a byte. -/
def Flat.looking (f : Flat) : Nat :=
  match f.mode with
  | .find => 1
  | _ => 0

/-- The loop ends, with the state in which the abstract decoder waits. -/
theorem checkLoop_spec {rounds : Nat} (hrel : Rel x f u)
    (hrounds : 2 * u.length + f.looking < rounds) :
    ∃ y f' rest out, checkLoop malloc rounds x = some y ∧
      Incremental.Drains (decodeStep malloc) f u f' rest out ∧ Rel y f' rest ∧
      y.frames = x.frames ++ out := by
  induction rounds generalizing x f u with
  | zero => omega
  | succ rounds ih =>
    unfold checkLoop
    rw [hrel.unread.recvLen]
    cases u with
    | nil =>
      exact ⟨x, f, [], [], rfl, .wait (decodeStep_nil f), hrel, (List.append_nil _).symm⟩
    | cons b u =>
      by_cases hfind : f.mode = .find
      · obtain ⟨mode, s⟩ := f
        obtain rfl : mode = .find := hfind
        obtain ⟨y, f', rest, hbrk, hsteps, hrel', hframes, hend⟩ := find_spec malloc hrel
        have hswitch : switch malloc (b :: u).length x = .brk y := by
          unfold switch
          rw [hrel.mode.1]
          exact hbrk
        have hless : 2 * rest.length + f'.looking < rounds := by
          simp only [Flat.looking, List.length_cons] at hrounds
          obtain ⟨rfl, rfl⟩ | ⟨rfl, rfl⟩ := hend
          · simp only [Flat.looking, List.length_cons]
            omega
          · simp only [Flat.looking]
            omega
        obtain ⟨z, f'', rest', out, hloop, hdrains, hrel'', hframes'⟩ := ih hrel' hless
        rw [hswitch]
        exact ⟨z, f'', rest', out, hloop, hsteps.drains hdrains, hrel'', by rw [hframes', hframes]⟩
      · have hlook : f.looking = 0 := by
          obtain ⟨mode, s⟩ := f
          cases mode with
          | find => exact absurd rfl hfind
          | _ => rfl
        have hfollows : Follows malloc (b :: u).length x.frames f (b :: u) _ :=
          follows_switch hrel (by simp) hfind
        generalize switch malloc (b :: u).length x = o at hfollows ⊢
        cases o with
        | ret y =>
          obtain ⟨f', hsteps, hwait, hrel', hframes⟩ := hfollows
          exact ⟨y, f', _, [], rfl, hsteps.drains (.wait hwait), hrel',
            by rw [hframes, List.append_nil]⟩
        | brk y =>
          obtain ⟨s', rest, out, hsteps, hrel', hframes, hlt⟩ := hfollows
          have hless : 2 * rest.length + (Flat.mk .find s').looking < rounds := by
            simp only [Flat.looking]
            omega
          obtain ⟨z, f'', rest', out', hloop, hdrains, hrel'', hframes'⟩ := ih hrel' hless
          exact ⟨z, f'', rest', out ++ out', hloop, hsteps.drains hdrains, hrel'',
            by rw [hframes', hframes, List.append_assoc]⟩
        | fall y => exact hfollows.elim

theorem rtLinkFrameCheck_spec (malloc : Nat → Option (Nat → Byte)) (hrel : Rel x f u) :
    ∃ y f' rest out, rtLinkFrameCheck malloc x = some y ∧
      Incremental.Drains (decodeStep malloc) f u f' rest out ∧ Rel y f' rest ∧
      y.frames = x.frames ++ out := by
  refine checkLoop_spec hrel ?_
  rw [hrel.unread.recvLen]
  have hlook : f.looking ≤ 1 := by
    unfold Flat.looking
    split <;> omega
  omega

end simulation

/-! ## Runs -/

/-- The stream that a run writes. -/
def written : List RxOp → List Byte
  | [] => []
  | .write bytes :: ops => bytes ++ written ops
  | .check :: ops => written ops

/-- The frames so far are those of a part of the stream, and the rest of it is unread. -/
def Decoded (malloc : Nat → Option (Nat → Byte)) (session : Session) (stream : List Byte)
    (x : Receiver) : Prop :=
  ∃ seen tail f rest, stream = seen ++ tail ∧
    Incremental.Drains (decodeStep malloc) ⟨.find, session⟩ seen f rest x.frames ∧
    Rel x f (rest ++ tail)

section runs

variable {malloc : Nat → Option (Nat → Byte)} {session : Session} {x : Receiver}
  {stream : List Byte}

theorem rtLinkHwBufferWrite_readPoint (b : RxBuffer) (bytes : List Byte) :
    (rtLinkHwBufferWrite b bytes).1.readPoint = b.readPoint := by
  unfold rtLinkHwBufferWrite
  dsimp only
  split
  · generalize (if receiveBufferLength - (b.writePoint - b.readPoint) < bytes.length then
      receiveBufferLength - (b.writePoint - b.readPoint) else bytes.length) = count
    split <;> rfl
  · rfl

theorem Rel.write {f : Flat} {u bytes : List Byte} (h : Rel x f u)
    (hfits : u.length + bytes.length < receiveBufferLength) :
    Rel { x with buffer := (rtLinkHwBufferWrite x.buffer bytes).1 } f (u ++ bytes) := by
  refine ⟨h.unread.append hfits, h.session, ?_⟩
  have hmode := h.mode
  obtain ⟨mode, s⟩ := f
  cases mode with
  | find => exact hmode
  | head => exact hmode
  | extend | body =>
    simp only [Matches, rtLinkHwBufferWrite_readPoint] at hmode ⊢
    exact hmode

theorem Decoded.write (h : Decoded malloc session stream x) {bytes : List Byte}
    (hfits : rtLinkHwRecvLen x.buffer + bytes.length < receiveBufferLength) :
    Decoded malloc session (stream ++ bytes)
      { x with buffer := (rtLinkHwBufferWrite x.buffer bytes).1 } := by
  obtain ⟨seen, tail, f, rest, rfl, hdrains, hrel⟩ := h
  rw [hrel.unread.recvLen] at hfits
  have hwrite := hrel.write hfits
  rw [List.append_assoc] at hwrite
  exact ⟨seen, tail ++ bytes, f, rest, List.append_assoc _ _ _, hdrains, hwrite⟩

/-- A check decodes the whole of the stream that has been written. -/
theorem Decoded.check (h : Decoded malloc session stream x) :
    ∃ y f rest, rtLinkFrameCheck malloc x = some y ∧
      Incremental.Drains (decodeStep malloc) ⟨.find, session⟩ stream f rest y.frames ∧
      Rel y f rest := by
  obtain ⟨seen, tail, f, rest, rfl, hdrains, hrel⟩ := h
  obtain ⟨y, f', rest', out, hcheck, hmore, hrel', hframes⟩ :=
    rtLinkFrameCheck_spec malloc hrel
  refine ⟨y, f', rest', hcheck, ?_, hrel'⟩
  rw [hframes]
  exact hdrains.append decodeStep_stable hmore

theorem Decoded.run {ops : List RxOp} {z : Receiver} (h : Decoded malloc session stream x)
    (hrun : Runs.run (rxStep malloc) x ops = some z) :
    Decoded malloc session (stream ++ written ops) z := by
  induction ops generalizing x stream with
  | nil =>
    obtain rfl : x = z := Option.some.inj hrun
    simpa [written] using h
  | cons op ops ih =>
    obtain ⟨y, hstep, hrest⟩ := Runs.run_cons_some.mp hrun
    cases op with
    | write bytes =>
      simp only [rxStep] at hstep
      split at hstep
      · rename_i hfits
        cases hstep
        rw [written, ← List.append_assoc]
        exact ih (h.write hfits) hrest
      · cases hstep
    | check =>
      obtain ⟨y', f, rest, hcheck, hdrains, hrel⟩ := h.check
      have hy : y' = y := Option.some.inj (hcheck.symm.trans hstep)
      subst hy
      exact ih ⟨stream, [], f, rest, (List.append_nil _).symm, hdrains,
        by rwa [List.append_nil]⟩ hrest

theorem rel_receiver {memory : Nat → Byte} {p : Nat} (hp : p < receiveBufferLength) :
    Rel (receiver session memory p) ⟨.find, session⟩ [] :=
  ⟨⟨hp, Nat.zero_lt_of_lt hp, (Nat.mod_eq_of_lt hp).symm, rfl⟩, rfl, rfl, rfl⟩

theorem decoded_receiver {memory : Nat → Byte} {p : Nat} (hp : p < receiveBufferLength) :
    Decoded malloc session [] (receiver session memory p) :=
  ⟨[], [], ⟨.find, session⟩, [], rfl, .wait (decodeStep_nil _), rel_receiver hp⟩

end runs

/-- After any run of writes and checks, from any position of the buffer, a check returns, and the
frames that have been handed over by then are those of the stream as a whole: they are the same
after every other run that writes the same stream, in particular in one piece. -/
theorem decoding_independent_of_pieces (malloc : Nat → Option (Nat → Byte)) (session : Session)
    (memory : Nat → Byte) (p : Nat) (hp : p < receiveBufferLength) (ops : List RxOp) (z : Receiver)
    (hrun : Runs.run (rxStep malloc) (receiver session memory p) ops = some z) :
    ∃ x, rxStep malloc z .check = some x ∧
      (∃ f rest, Incremental.Drains (decodeStep malloc) ⟨.find, session⟩ (written ops) f rest
        x.frames) ∧
      ∀ (memory' : Nat → Byte) (p' : Nat) (ops' : List RxOp) (y : Receiver),
        p' < receiveBufferLength → written ops' = written ops →
        Runs.run (rxStep malloc) (receiver session memory' p') (ops' ++ [.check]) = some y →
        y.frames = x.frames := by
  have hz : Decoded malloc session (written ops) z := (decoded_receiver hp).run hrun
  obtain ⟨x, f, rest, hcheck, hdrains, -⟩ := hz.check
  refine ⟨x, hcheck, ⟨f, rest, hdrains⟩, fun memory' p' ops' y hp' hsame hrun' => ?_⟩
  rw [Runs.run_append] at hrun'
  obtain ⟨z', hz', hlast⟩ := Option.bind_eq_some_iff.mp hrun'
  have hdec : Decoded malloc session (written ops') z' := (decoded_receiver hp').run hz'
  rw [hsame] at hdec
  obtain ⟨y', f', rest', hcheck', hdrains', -⟩ := hdec.check
  obtain ⟨y'', hy'', hnil⟩ := Runs.run_cons_some.mp hlast
  obtain rfl : y' = y'' := Option.some.inj (hcheck'.symm.trans hy'')
  obtain rfl : y' = y := Option.some.inj hnil
  exact (hdrains'.unique hdrains).2.2

def idleSession : Session where
  attached := fun _ => true
  serviceState := fun _ => .connect
  err := fun _ => .eok
  state := .connect
  txSeq := 0
  txList := []
  rxSeq := 0
  rxTotal := 0
  longCount := 0
  dataspace := none
  ackMask := ackMax

/-- A short frame for the service 1 with two bytes, of which the first three bytes arrive behind a
byte that is no frame head, two bytes before the end of the buffer. -/
def shortFrameInPieces : List RxOp :=
  [.write [0x00, 0x15, 0x01, 0x41], .check, .check, .write [0x00, 0xaa], .check, .write [0xbb]]

theorem decoding_independent_of_pieces_short :
    ∃ z, Runs.run (rxStep fun _ => some fun _ => 0)
        (receiver idleSession (fun _ => 0) 3078) shortFrameInPieces = some z ∧
      ∃ x, rxStep (fun _ => some fun _ => 0) z .check = some x ∧
        x.frames = [⟨⟨false, false, false, 1, 1, 2⟩, ⟨0, 0⟩, .shortData, [0xaa, 0xbb]⟩] ∧
        ∃ f rest, Incremental.Drains (decodeStep fun _ => some fun _ => 0) ⟨.find, idleSession⟩
          (written shortFrameInPieces) f rest x.frames := by
  have hlast : ((Runs.run (rxStep fun _ => some fun _ => 0)
      (receiver idleSession (fun _ => 0) 3078) shortFrameInPieces).bind fun z =>
        (rxStep (fun _ => some fun _ => 0) z .check).map (·.frames)) =
      some [⟨⟨false, false, false, 1, 1, 2⟩, ⟨0, 0⟩, .shortData, [0xaa, 0xbb]⟩] := by
    decide +kernel
  obtain ⟨z, hrun, hz⟩ := Option.bind_eq_some_iff.mp hlast
  obtain ⟨x, hcheck, hx⟩ := Option.map_eq_some_iff.mp hz
  obtain ⟨x', hcheck', hdrains, -⟩ := decoding_independent_of_pieces (fun _ => some fun _ => 0)
    idleSession (fun _ => 0) 3078 (by decide) shortFrameInPieces z hrun
  obtain rfl : x = x' := Option.some.inj (hcheck.symm.trans hcheck')
  exact ⟨z, hrun, x, hcheck, hx, hdrains⟩

end RtThread.RtLink
