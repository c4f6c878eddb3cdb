import RtThread.RtLinkDecode
import RtThread.RtLinkFragments

/-!
# The bytes of a frame of rt-link

`frame_send` lays out the head of a frame, its extended field and its payload, and behind them the
checksum; `rt_link_command_frame_send` a head and an extended field. The decoder of the other side
finds the same frames in the stream, in whatever pieces it arrives.
-/
namespace RtThread.RtLink

open Ringbuffer (Byte)

/-- A word of 16 bits, the lowest byte first. -/
def wordBytes (n : Nat) : List Byte := [BitVec.ofNat 8 n, BitVec.ofNat 8 (n / 2 ^ 8)]

/-- `struct rt_link_frame_head` with the magic number. -/
def headBytes (h : Head) : List Byte :=
  [BitVec.ofNat 8 (0x15 + 2 ^ 5 * h.extend.toNat + 2 ^ 6 * h.crc.toNat + 2 ^ 7 * h.ack.toNat),
    BitVec.ofNat 8 h.sequence] ++ wordBytes (h.service % 2 ^ 5 + 2 ^ 5 * (h.length % 2 ^ 11))

def extendBytes (e : Extend) : List Byte := wordBytes e.attr ++ wordBytes e.parameter

def fieldBytes (f : Frame) : List Byte :=
  headBytes f.head ++ if f.head.extend then extendBytes f.extend else []

/-- The part of a frame that the checksum covers. -/
def bodyBytes (f : Frame) : List Byte :=
  fieldBytes f ++ if f.attr = .shortData ∨ f.attr = .longData then f.payload else []

def crcBytes (crc : BitVec 32) : List Byte :=
  wordBytes crc.toNat ++ wordBytes (crc.toNat / 2 ^ 16)

def frameBytes (f : Frame) : List Byte :=
  bodyBytes f ++ if f.head.crc then crcBytes (crc32 (bodyBytes f)) else []

/-- What `frame_send` passes to `rt_link_hw_send`. -/
def frameSend (f : SendFrame) : List Byte := frameBytes f.wire

/-- What `rt_link_command_frame_send` passes to `rt_link_hw_send`. -/
def rtLinkCommandFrameSend (serv sequence : Nat) (attr : Attr) (parameter : Nat) : List Byte :=
  headBytes ⟨true, false, false, sequence, serv, 0⟩ ++ extendBytes ⟨attr.code, parameter⟩

/-- The fields of a frame fit into their bits, and its attribute and its payload are those that
its head announces. -/
structure WellFormed (f : Frame) : Prop where
  sequence : f.head.sequence < 2 ^ 8
  service : f.head.service < serviceMax
  length : f.head.length = f.payload.length
  short : f.payload.length ≤ maxDataLength
  plain : f.head.extend = false → f.extend = ⟨0, 0⟩ ∧ f.attr = .shortData
  extended : f.head.extend = true → f.extend.attr = f.attr.code ∧ f.extend.parameter < 2 ^ 16
  payload : f.attr ≠ .shortData → f.attr ≠ .longData → f.payload = []

section frame

variable {malloc : Nat → Option (Nat → Byte)} {s : Session} {f : Frame}
  {rest left : List Byte} {flat : Flat} {out : List Frame} {n : Nat}

theorem ofCode_code (a : Attr) : Attr.ofCode a.code = some a := by
  cases a <;> rfl

theorem halfWord_wordBytes (n : Nat) (more : List Byte) :
    halfWord (wordBytes n ++ more) 0 = n % 2 ^ 16 := by
  simp only [halfWord, wordBytes, List.cons_append, List.getD_cons_zero, List.getD_cons_succ,
    BitVec.toNat_ofNat]
  omega

/-- The first byte has the magic number and the flags. -/
theorem flags_read : ∀ extend crc ack : Bool,
    let byte := BitVec.ofNat 8 (0x15 + 2 ^ 5 * extend.toNat + 2 ^ 6 * crc.toNat + 2 ^ 7 * ack.toNat)
    isFrameHead byte = true ∧ byte.getLsbD 5 = extend ∧ byte.getLsbD 6 = crc ∧
      byte.getLsbD 7 = ack := by
  decide

theorem parseHead_headBytes (h : WellFormed f) : parseHead (headBytes f.head) = f.head := by
  obtain ⟨hsequence, hservice, hlength, hshort, -⟩ := h
  rw [serviceMax] at hservice
  rw [maxDataLength] at hshort
  obtain ⟨⟨extend, crc, ack, sequence, service, length⟩, e, a, payload⟩ := f
  dsimp only at hsequence hservice hlength hshort
  obtain ⟨-, hextend, hcrc, hack⟩ := flags_read extend crc ack
  have hsequence' : (BitVec.ofNat 8 sequence).toNat = sequence := by
    rw [BitVec.toNat_ofNat, Nat.mod_eq_of_lt hsequence]
  have hword : halfWord (headBytes ⟨extend, crc, ack, sequence, service, length⟩) 2 =
      (service % 2 ^ 5 + 2 ^ 5 * (length % 2 ^ 11)) % 2 ^ 16 := halfWord_wordBytes _ []
  simp only [parseHead, hword, Head.mk.injEq]
  refine ⟨hextend, hcrc, hack, hsequence', ?_, ?_⟩
  · omega
  · omega

theorem parseExtend_extendBytes {e : Extend} (hattr : e.attr < 2 ^ 16)
    (hparameter : e.parameter < 2 ^ 16) : parseExtend (extendBytes e) = e := by
  have hfirst : halfWord (extendBytes e) 0 = e.attr % 2 ^ 16 := halfWord_wordBytes _ _
  have hsecond : halfWord (extendBytes e) 2 = e.parameter % 2 ^ 16 := halfWord_wordBytes _ []
  rw [parseExtend, hfirst, hsecond, Nat.mod_eq_of_lt hattr, Nat.mod_eq_of_lt hparameter]

theorem parseCrc_crcBytes (crc : BitVec 32) : parseCrc (crcBytes crc) = crc := by
  have hfirst : halfWord (crcBytes crc) 0 = crc.toNat % 2 ^ 16 := halfWord_wordBytes _ _
  have hsecond : halfWord (crcBytes crc) 2 = crc.toNat / 2 ^ 16 % 2 ^ 16 := halfWord_wordBytes _ []
  rw [parseCrc, hfirst, hsecond]
  refine BitVec.eq_of_toNat_eq ?_
  rw [BitVec.toNat_ofNat]
  omega

theorem WellFormed.bodyBytes_eq (h : WellFormed f) : bodyBytes f = fieldBytes f ++ f.payload := by
  unfold bodyBytes
  split
  · rfl
  · rename_i hattr
    rw [h.payload (fun hs => hattr (.inl hs)) (fun hl => hattr (.inr hl))]

theorem fieldBytes_length (f : Frame) : (fieldBytes f).length = payloadStart f.head := by
  rw [fieldBytes, List.length_append, payloadStart]
  split <;> rfl

theorem WellFormed.bodyBytes_length (h : WellFormed f) :
    (bodyBytes f).length = payloadStart f.head + f.head.length := by
  rw [h.bodyBytes_eq, List.length_append, fieldBytes_length, h.length]

/-- The decoder has read the fields, and the sequence number has been accepted. -/
theorem fields_spec (h : WellFormed f) (hseq : seqAccepted s f.attr f.head.sequence) :
    Incremental.Steps (decodeStep malloc) ⟨.find, s⟩ (frameBytes f ++ rest)
      ⟨.body f.head f.extend f.attr, s⟩ (frameBytes f ++ rest) [] := by
  have hservice : ¬ serviceMax ≤ f.head.service := Nat.not_le.mpr h.service
  obtain ⟨more, hmore⟩ : ∃ more, frameBytes f ++ rest = fieldBytes f ++ more := by
    simp only [frameBytes, bodyBytes, List.append_assoc]
    exact ⟨_, rfl⟩
  rw [hmore]
  have hfind : decodeStep malloc ⟨.find, s⟩ (fieldBytes f ++ more) = some (⟨.head, s⟩, 0, []) := by
    have hflags := (flags_read f.head.extend f.head.crc f.head.ack).1
    simp only [decodeStep, fieldBytes, headBytes, List.cons_append, List.head?_cons,
      Option.map_some]
    rw [if_pos hflags]
  have hseq' : checkSeq s f.head f.extend f.attr =
      (⟨.body f.head f.extend f.attr, s⟩, 0, []) := if_pos hseq
  cases hextend : f.head.extend with
  | false =>
    obtain ⟨hextend', hattr⟩ := h.plain hextend
    have hfields : fieldBytes f = headBytes f.head := by
      rw [fieldBytes, hextend]
      exact List.append_nil _
    have hhead : decodeStep malloc ⟨.head, s⟩ (fieldBytes f ++ more) =
        some (⟨.body f.head f.extend f.attr, s⟩, 0, []) := by
      have htake : (headBytes f.head ++ more).take 4 = headBytes f.head := rfl
      simp only [decodeStep]
      rw [if_neg (by rw [hfields, List.length_append]; exact Nat.not_lt.mpr (Nat.le_add_right 4 _)),
        hfields, htake, parseHead_headBytes h, if_neg hservice, if_neg (by rw [hextend]; decide),
        ← hseq', hextend', hattr]
    exact .next hfind (.single hhead)
  | true =>
    obtain ⟨hattr, hparameter⟩ := h.extended hextend
    have hfields : fieldBytes f = headBytes f.head ++ extendBytes f.extend := by
      rw [fieldBytes, hextend]
      rfl
    have hlength : ¬ (fieldBytes f ++ more).length < 8 := by
      rw [hfields, List.length_append]
      exact Nat.not_lt.mpr (Nat.le_add_right 8 _)
    have hhead : decodeStep malloc ⟨.head, s⟩ (fieldBytes f ++ more) =
        some (⟨.extend f.head, s⟩, 0, []) := by
      have htake : (fieldBytes f ++ more).take 4 = headBytes f.head := by
        rfl
      simp only [decodeStep]
      rw [if_neg (by omega), htake, parseHead_headBytes h, if_neg hservice, if_pos hextend]
    have hextend' : decodeStep malloc ⟨.extend f.head, s⟩ (fieldBytes f ++ more) =
        some (⟨.body f.head f.extend f.attr, s⟩, 0, []) := by
      have hpart : ((fieldBytes f ++ more).drop 4).take 4 = extendBytes f.extend := by
        rw [hfields]
        rfl
      have hcode : f.attr.code < 2 ^ 16 := by
        cases f.attr <;> decide
      simp only [decodeStep]
      rw [if_neg hlength, hpart, parseExtend_extendBytes (hattr ▸ hcode) hparameter, hattr,
        ofCode_code, ← hseq']
    exact .next hfind (.next hhead (.single hextend'))

/-- The frame is handed over, and the decoder looks for the next one behind it. -/
theorem frame_spec (h : WellFormed f) (hseq : seqAccepted s f.attr f.head.sequence) :
    Incremental.Drains (decodeStep malloc) ⟨.find, (rtLinkParseFrame malloc s f 0).1⟩ rest
      flat left out →
    Incremental.Drains (decodeStep malloc) ⟨.find, s⟩ (frameBytes f ++ rest) flat left
      (f :: out) := by
  intro hrest
  have hsize := h.bodyBytes_length
  have hlength : (frameBytes f).length = frameLength f.head := by
    rw [frameBytes, List.length_append, hsize, frameLength]
    split <;> rfl
  have hbody : (frameBytes f ++ rest).take (payloadStart f.head + f.head.length) = bodyBytes f := by
    rw [frameBytes, List.append_assoc, ← hsize, List.take_left]
  have hpayload : ((frameBytes f ++ rest).drop (payloadStart f.head)).take f.head.length =
      f.payload := by
    rw [frameBytes, h.bodyBytes_eq, List.append_assoc, List.append_assoc, ← fieldBytes_length,
      List.drop_left, h.length, List.take_left]
  have hcrc : ¬ (f.head.crc ∧ parseCrc (((frameBytes f ++ rest).drop
      (payloadStart f.head + f.head.length)).take 4) ≠ crc32 (bodyBytes f)) := by
    rintro ⟨hcrc, hne⟩
    have hdrop : (frameBytes f ++ rest).drop (payloadStart f.head + f.head.length) =
        crcBytes (crc32 (bodyBytes f)) ++ rest := by
      rw [frameBytes, if_pos hcrc, List.append_assoc, ← hsize, List.drop_left]
    rw [hdrop] at hne
    exact hne (parseCrc_crcBytes _)
  have hstep : decodeStep malloc ⟨.body f.head f.extend f.attr, s⟩ (frameBytes f ++ rest) =
      some (⟨.find, (rtLinkParseFrame malloc s f 0).1⟩, frameLength f.head, [f]) := by
    simp only [decodeStep, hbody, hpayload]
    rw [if_neg (by rw [List.length_append]; omega), if_neg hcrc]
  refine (fields_spec h hseq).drains (.next hstep ?_)
  rwa [← hlength, List.drop_left]

theorem wellFormed_commandFrame {serv parameter : Nat} (hserv : serv < serviceMax)
    (hparameter : parameter < 2 ^ 16) (sequence : Nat) (attr : Attr) :
    WellFormed (commandFrame serv sequence attr parameter) :=
  ⟨Nat.mod_lt _ (by decide), hserv, rfl, Nat.zero_le _, nofun, fun _ => ⟨rfl, hparameter⟩,
    fun _ _ => rfl⟩

/-- The frames of a message. -/
theorem wellFormed_roundFrame {v : Fragments.Service} {txSeq len : Nat}
    (hservice : v.service < serviceMax) (hseq : txSeq < 2 ^ 8) (hlen : len ≤ maxDataLength)
    (data : List Byte) (total index offset : Nat) :
    WellFormed (Fragments.roundFrame v data total txSeq index offset len).wire := by
  refine ⟨hseq, hservice, rfl, ?_, fun h => ?_, fun h => ?_, fun hs hl => ?_⟩
  · exact (List.length_take_le _ _).trans ((Nat.mod_le _ _).trans hlen)
  · have hshort : ¬ 1 < total := of_decide_eq_false h
    simp [Fragments.roundFrame, SendFrame.wire, hshort]
  · have hlong : 1 < total := of_decide_eq_true h
    simp [Fragments.roundFrame, SendFrame.wire, hlong, Nat.mod_lt]
  · simp only [Fragments.roundFrame, SendFrame.wire] at hs hl
    by_cases hlong : 1 < total
    · exact absurd (if_pos hlong) hl
    · exact absurd (if_neg hlong) hs

/-- A stream of frames, each of which is accepted in the session that those before it leave, and of
bytes between them that are no frame heads. -/
inductive Carries (malloc : Nat → Option (Nat → Byte)) :
    Session → List Byte → List Frame → Session → Prop where
  | nil {s : Session} : Carries malloc s [] [] s
  | noise {s t : Session} {b : Byte} {stream : List Byte} {frames : List Frame}
    (hb : isFrameHead b = false) (hrest : Carries malloc s stream frames t) :
    Carries malloc s (b :: stream) frames t
  | frame {s t : Session} {f : Frame} {stream : List Byte} {frames : List Frame}
    (hwell : WellFormed f) (hseq : seqAccepted s f.attr f.head.sequence)
    (hrest : Carries malloc (rtLinkParseFrame malloc s f 0).1 stream frames t) :
    Carries malloc s (frameBytes f ++ stream) (f :: frames) t

theorem Carries.drains {t : Session} {stream : List Byte} {frames : List Frame}
    (h : Carries malloc s stream frames t) :
    Incremental.Drains (decodeStep malloc) ⟨.find, s⟩ stream ⟨.find, t⟩ [] frames := by
  induction h with
  | nil => exact .wait (decodeStep_nil _)
  | @noise s t b stream frames hb _ ih =>
    have hstep : decodeStep malloc ⟨.find, s⟩ (b :: stream) = some (⟨.find, s⟩, 1, []) := by
      simp only [decodeStep, List.head?_cons, Option.map_some, hb]
      rfl
    exact .next hstep ih
  | frame hwell hseq _ ih => exact frame_spec hwell hseq ih

/-- A command frame is sent as every other frame. -/
theorem rtLinkCommandFrameSend_eq (serv sequence parameter : Nat) (attr : Attr) :
    rtLinkCommandFrameSend serv sequence attr parameter =
      frameBytes (commandFrame serv sequence attr parameter) := by
  have hsequence : BitVec.ofNat 8 (sequence % 2 ^ 8) = BitVec.ofNat 8 sequence := by
    refine BitVec.eq_of_toNat_eq ?_
    simp
  have hbody : bodyBytes (commandFrame serv sequence attr parameter) =
      rtLinkCommandFrameSend serv sequence attr parameter ++ [] := by
    rw [bodyBytes, fieldBytes, headBytes, rtLinkCommandFrameSend, headBytes]
    congr 1
    · simp only [commandFrame, hsequence]
      rfl
    · split <;> rfl
  rw [frameBytes, hbody, List.append_nil]
  exact (List.append_nil _).symm

end frame

end RtThread.RtLink
