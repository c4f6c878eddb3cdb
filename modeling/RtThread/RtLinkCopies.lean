import RtThread.Lib.Runs
import RtThread.RtLinkDecode
import RtThread.RtLinkLong

/-!
# Where the frames of a long message are copied to

The frame that opens a record gives the size of its block. The frames behind it, and the frame
itself, are copied to the place that their sequence numbers give, with the length of their own
heads: the block is not asked for its size again.
-/
namespace RtThread.RtLink

open Ringbuffer (Byte)

/-- A copy of `_long_handle_second` into a block of some size. -/
structure Copy where
  offset : Nat
  length : Nat
  size : Nat
  deriving DecidableEq

/-- Every byte of the copy lies in the block. -/
def Copy.Inside (c : Copy) : Prop := ∀ k < c.length, c.offset + k < c.size

/-- The session, with the size that `_long_handle_first` has asked for and the copies so far. -/
structure Reception where
  session : Session
  size : Nat
  copies : List Copy

/-- `index` of a received frame. -/
def frameIndex (s : Session) (f : Frame) : Nat :=
  wsub 8 (rtLinkCheckSeq f.head.sequence s.rxSeq) 1

/-- The copy that `_long_handle_second` makes, if it makes one. -/
def longCopies (s : Session) (f : Frame) (size : Nat) : List Copy :=
  if framesMax < frameIndex s f ∨ s.longCount.testBit (frameIndex s f) ∨ s.dataspace.isNone then []
  else [⟨maxDataLength * frameIndex s f, f.payload.length, size⟩]

/-- The session in `_long_handle_second`, and the size of its block; a frame opens the record when
no other one is stored. -/
def openRecord (malloc : Nat → Option (Nat → Byte)) (r : Reception) (f : Frame) : Session × Nat :=
  if r.session.longCount = 0 then (longHandleFirst malloc r.session f, f.extend.parameter)
  else (r.session, r.size)

/-- A whole frame arrives. A frame that `rt_link_frame_check` refuses ends the record. -/
def receive (malloc : Nat → Option (Nat → Byte)) (r : Reception) (f : Frame) : Reception :=
  if seqAccepted r.session f.attr f.head.sequence then
    let session := (rtLinkParseFrame malloc r.session f 0).1
    if f.attr = .longData then
      let opened := openRecord malloc r f
      ⟨session, opened.2,
        r.copies ++ if 0 < opened.1.rxTotal then longCopies opened.1 f opened.2 else []⟩
    else { r with session := session }
  else { r with session := rtLinkFrameStopReceive r.session }

/-- Every copy so far lies in its block. -/
def InBounds (r : Reception) : Prop := ∀ c ∈ r.copies, c.Inside

/-- The frame is missing in its record, and there is memory for the record. -/
def Missing (malloc : Nat → Option (Nat → Byte)) (r : Reception) (f : Frame) : Prop :=
  if r.session.longCount = 0 then 0 < f.extend.parameter ∧ (malloc f.extend.parameter).isSome
  else r.session.longCount.testBit (frameIndex r.session f) = false ∧ 0 < r.session.rxTotal ∧
    r.session.dataspace.isSome

/-- The size in the extended field of the frame that opened the record. -/
def openingParameter (r : Reception) (f : Frame) : Nat :=
  if r.session.longCount = 0 then f.extend.parameter else r.size

/-- A long frame that is accepted and missing ends within the size that its record was opened
with. -/
def EndsWithin (malloc : Nat → Option (Nat → Byte)) (r : Reception) (f : Frame) : Prop :=
  f.attr = .longData → seqAccepted r.session f.attr f.head.sequence → Missing malloc r f →
    f.payload = [] ∨ maxDataLength * frameIndex r.session f + f.payload.length ≤
      openingParameter r f

section copies

variable {malloc : Nat → Option (Nat → Byte)} {s : Session} {f : Frame} {r : Reception}

theorem Copy.inside_iff {c : Copy} : c.Inside ↔ c.length = 0 ∨ c.offset + c.length ≤ c.size := by
  constructor
  · intro h
    rcases Nat.eq_zero_or_pos c.length with hzero | hpos
    · exact .inl hzero
    · have hlast := h (c.length - 1) (Nat.sub_one_lt hpos.ne')
      exact .inr (by omega)
  · intro h k hk
    omega

/-- The copies are what the handler writes into the block. -/
theorem longHandleSecond_writes {space space' : Nat → Byte} {recvLen size : Nat}
    (hspace : s.dataspace = some space)
    (hspace' : (longHandleSecond s f recvLen).1.dataspace = some space') :
    space' = (longCopies s f size).foldl
      (fun space c => Ringbuffer.copyTo space c.offset f.payload) space := by
  rw [longHandleSecond] at hspace'
  rw [longCopies, hspace]
  by_cases hrefused : framesMax < frameIndex s f ∨ s.longCount.testBit (frameIndex s f)
  · rw [if_pos (hrefused.imp_right .inl)]
    rw [frameIndex] at hrefused
    rw [if_pos hrefused, hspace] at hspace'
    exact (Option.some.inj hspace').symm
  · have hcopies : ¬ (framesMax < frameIndex s f ∨ s.longCount.testBit (frameIndex s f) ∨
        (some space).isNone) := by
      rw [← or_assoc, or_iff_left (by simp)]
      exact hrefused
    rw [if_neg hcopies]
    rw [frameIndex] at hrefused
    rw [if_neg hrefused, hspace] at hspace'
    dsimp only at hspace'
    split at hspace'
    · cases hspace'
    · exact (Option.some.inj hspace').symm

theorem longHandleFirst_rxTotal :
    0 < (longHandleFirst malloc s f).rxTotal ↔ 0 < f.extend.parameter := by
  show 0 < (if f.extend.parameter % maxDataLength = 0 then f.extend.parameter / maxDataLength
    else f.extend.parameter / maxDataLength + 1) ↔ _
  rw [maxDataLength]
  split <;> omega

theorem missing_first (hopens : r.session.longCount = 0) (hparameter : 0 < f.extend.parameter)
    (hmemory : (malloc f.extend.parameter).isSome) : Missing malloc r f := by
  rw [Missing, if_pos hopens]
  exact ⟨hparameter, hmemory⟩

/-- A frame that is missing is copied behind those before it. -/
theorem receive_copy (hattr : f.attr = .longData)
    (haccepted : seqAccepted r.session f.attr f.head.sequence) (hmissing : Missing malloc r f) :
    (receive malloc r f).copies = r.copies ++
      [⟨maxDataLength * frameIndex r.session f, f.payload.length, openingParameter r f⟩] := by
  have hindex : ¬ framesMax < frameIndex r.session f := by
    simp only [seqAccepted, hattr, decide_eq_true_eq] at haccepted
    exact Nat.not_lt.mpr haccepted
  rw [receive, if_pos haccepted, openRecord, openingParameter]
  rw [Missing] at hmissing
  dsimp only
  rw [if_pos hattr]
  by_cases hopens : r.session.longCount = 0
  · rw [if_pos hopens] at hmissing
    obtain ⟨hparameter, hmemory⟩ := hmissing
    have hspace : ¬ (framesMax < frameIndex r.session f ∨
        r.session.longCount.testBit (frameIndex r.session f) ∨
        (malloc f.extend.parameter).isNone) := by
      rw [hopens, Nat.zero_testBit, Option.isNone_iff_eq_none]
      rintro (hlt | hbit | hnone)
      · exact hindex hlt
      · cases hbit
      · rw [hnone] at hmemory
        cases hmemory
    rw [if_pos hopens, if_pos hopens, if_pos (longHandleFirst_rxTotal.mpr hparameter)]
    exact congrArg _ (if_neg hspace)
  · rw [if_neg hopens] at hmissing
    obtain ⟨hbit, htotal, hmemory⟩ := hmissing
    have hspace : ¬ (framesMax < frameIndex r.session f ∨
        r.session.longCount.testBit (frameIndex r.session f) ∨ r.session.dataspace.isNone) := by
      rw [hbit, Option.isNone_iff_eq_none]
      rintro (hlt | hset | hnone)
      · exact hindex hlt
      · cases hset
      · rw [hnone] at hmemory
        cases hmemory
    rw [if_neg hopens, if_neg hopens, if_pos htotal]
    exact congrArg _ (if_neg hspace)

/-- Nothing else is copied. -/
theorem receive_no_copy (h : f.attr = .longData →
    seqAccepted r.session f.attr f.head.sequence → ¬ Missing malloc r f) :
    (receive malloc r f).copies = r.copies := by
  rw [receive]
  by_cases haccepted : (seqAccepted r.session f.attr f.head.sequence : Prop)
  · rw [if_pos haccepted]
    by_cases hattr : f.attr = .longData
    · have hmissing := h hattr haccepted
      rw [Missing] at hmissing
      rw [if_pos hattr, openRecord]
      dsimp only
      by_cases hopens : r.session.longCount = 0
      · rw [if_pos hopens] at hmissing
        rw [if_pos hopens]
        split
        · rename_i htotal
          have hmemory : (malloc f.extend.parameter).isNone := by
            cases hm : malloc f.extend.parameter with
            | none => rfl
            | some space =>
              rw [hm] at hmissing
              exact absurd ⟨longHandleFirst_rxTotal.mp htotal, rfl⟩ hmissing
          have hnone : longCopies (longHandleFirst malloc r.session f) f f.extend.parameter = [] :=
            if_pos (.inr (.inr hmemory))
          rw [hnone, List.append_nil]
        · exact List.append_nil _
      · rw [if_neg hopens] at hmissing
        rw [if_neg hopens]
        split
        · rename_i htotal
          have hnone : longCopies r.session f r.size = [] := by
            rw [longCopies, if_pos]
            cases hbit : r.session.longCount.testBit (frameIndex r.session f) with
            | true => exact .inr (.inl rfl)
            | false =>
              cases hspace : r.session.dataspace with
              | none => exact .inr (.inr rfl)
              | some space =>
                rw [hspace] at hmissing
                exact absurd ⟨hbit, htotal, rfl⟩ hmissing
          rw [hnone, List.append_nil]
        · exact List.append_nil _
    · rw [if_neg hattr]
  · rw [if_neg haccepted]

theorem inBounds_receive (h : InBounds r) :
    InBounds (receive malloc r f) ↔ EndsWithin malloc r f := by
  by_cases hcopies : f.attr = .longData ∧
      (seqAccepted r.session f.attr f.head.sequence : Prop) ∧ Missing malloc r f
  · obtain ⟨hattr, haccepted, hmissing⟩ := hcopies
    have hlast : InBounds (receive malloc r f) ↔
        (Copy.mk (maxDataLength * frameIndex r.session f) f.payload.length
          (openingParameter r f)).Inside := by
      rw [InBounds, receive_copy hattr haccepted hmissing, List.forall_mem_append,
        List.forall_mem_singleton]
      exact and_iff_right h
    rw [hlast, Copy.inside_iff]
    rw [List.length_eq_zero_iff]
    exact ⟨fun hin _ _ _ => hin, fun hin => hin hattr haccepted hmissing⟩
  · have hno : f.attr = .longData → seqAccepted r.session f.attr f.head.sequence →
        ¬ Missing malloc r f := fun hattr haccepted hmissing =>
      hcopies ⟨hattr, haccepted, hmissing⟩
    rw [InBounds, receive_no_copy hno]
    exact iff_of_true h fun hattr haccepted hmissing => absurd hmissing (hno hattr haccepted)

/-- In every run of arriving frames, the copies lie in their blocks exactly when every frame that
is stored ends within the size that its record was opened with. -/
theorem reassembly_in_bounds (malloc : Nat → Option (Nat → Byte)) (session : Session) (size : Nat)
    (frames : List Frame) :
    Runs.Always (fun r f => some (receive malloc r f)) InBounds ⟨session, size, []⟩ frames ↔
      Runs.Along (fun r f => some (receive malloc r f)) (EndsWithin malloc) ⟨session, size, []⟩
        frames := by
  apply Runs.always_iff_along
  · intro r f r' hin hends hstep
    cases hstep
    exact (inBounds_receive hin).mpr hends
  · intro r f hin hends
    exact ⟨_, rfl, fun hout => hends ((inBounds_receive hin).mp hout)⟩
  · exact fun c hc => absurd hc List.not_mem_nil

/-- The first frame of a message of 1013 bytes, with more bytes than the whole message. -/
theorem reassembly_out_of_bounds :
    ¬ Runs.Always (fun r f => some (receive (fun _ => some fun _ => 0) r f)) InBounds
      ⟨idleSession, 0, []⟩
      [⟨⟨true, false, true, 1, 1, 2047⟩, ⟨Attr.longData.code, 1013⟩, .longData,
        List.replicate 2047 0⟩] := by
  have hdata : (List.replicate 2047 (0 : Byte)).length = 2047 := List.length_replicate
  generalize List.replicate 2047 (0 : Byte) = payload at hdata
  intro hall
  have hlast := (hall.2 _ rfl).head
  have hcopies := receive_copy (r := ⟨idleSession, 0, []⟩) (f := ⟨⟨true, false, true, 1, 1, 2047⟩,
    ⟨Attr.longData.code, 1013⟩, .longData, payload⟩) rfl
    (show seqAccepted idleSession .longData 1 = true by decide)
    (show Missing (fun _ => some fun _ => 0) _ _ from
      missing_first rfl (show 0 < 1013 by decide) rfl)
  rw [InBounds, hcopies] at hlast
  have hinside := hlast _ (List.mem_append_right _ (List.mem_singleton_self _)) 1013
    (by show 1013 < payload.length; omega)
  exact absurd hinside (by show ¬ _ + 1013 < 1013; omega)

end copies

end RtThread.RtLink
