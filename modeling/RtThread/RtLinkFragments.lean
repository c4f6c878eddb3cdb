import RtThread.RtLinkNumbers

/-!
# The frames of `rt_link_send`

`rt_link_send` over a size of any width: the number of frames is a byte, and the length and the
parameter of a frame are half words. A size that needs 256 frames or more can come out with a
number of frames that passes the limit.
-/
namespace RtThread.RtLink.Fragments

open Ringbuffer (Byte)

/-- What `rt_link_send` reads of `struct rt_link_service`. -/
structure Service where
  service : Nat
  crc : Bool
  ack : Bool
  deriving DecidableEq

/-- `err` of the service. -/
inductive Err where
  | eok | err | enomem
  deriving DecidableEq

/-- What is left of a call: the error, the frames that it has queued and `tx_seq`. -/
structure Sent where
  err : Err
  frames : List SendFrame
  txSeq : Nat
  deriving DecidableEq

/-- `RT_LINK_MAX_FRAME_LENGTH`, the size of `sendbuffer`. -/
def maxFrameLength : Nat := 1024

/-- `total`. -/
def sendTotal (size : Nat) : Nat :=
  (if size % maxDataLength = 0 then size / maxDataLength else size / maxDataLength + 1) % 2 ^ 8

/-- The frame of one round of the loop; `len` is assigned to `data_len`. -/
def roundFrame (v : Service) (data : List Byte) (total txSeq index offset len : Nat) : SendFrame :=
  let long := 1 < total
  { head := ⟨long, v.crc, v.ack, txSeq, v.service, 0⟩
    extend := if long then ⟨Attr.longData.code, data.length % 2 ^ 16⟩ else ⟨0, 0⟩
    attr := if long then .longData else .shortData
    data := (data.drop offset).take (len % 2 ^ 16)
    issent := false
    index := index
    total := total }

/-- The loop of `rt_link_send` from a round on; `malloc` tells whether there is memory for the
frame of a round. -/
def sendLoop (malloc : Nat → Bool) (v : Service) (data : List Byte) (total : Nat)
    (txSeq index offset : Nat) : Sent :=
  if malloc index then
    let txSeq := wadd 8 txSeq 1
    let size := data.length
    let partly := size < offset + maxDataLength
    let len := if 1 < total then if partly then size - offset else maxDataLength else size
    let offset' := if 1 < total ∧ ¬ partly then offset + maxDataLength else offset
    let frame := roundFrame v data total txSeq index offset len
    if index + 1 < total then
      let rest := sendLoop malloc v data total txSeq (index + 1) offset'
      { rest with frames := frame :: rest.frames }
    else ⟨.eok, [frame], txSeq⟩
  else ⟨.enomem, [], txSeq⟩
termination_by total - index

/-- `rt_link_send` up to its wait; there are no data for the null pointer. -/
def rtLinkSend (malloc : Nat → Bool) (v : Service) (txSeq : Nat) (data : Option (List Byte)) :
    Sent :=
  match data with
  | none => ⟨.err, [], txSeq⟩
  | some data =>
    if data.length = 0 then ⟨.err, [], txSeq⟩
    else
      let total := sendTotal data.length
      if framesMax < total then ⟨.enomem, [], txSeq⟩
      else sendLoop malloc v data total txSeq 0 0

/-- `tx_data_slist` at the end of the call. -/
def Sent.txDataSlist (sent : Sent) (list : List SendFrame) : List SendFrame := list ++ sent.frames

/-- `send_len` at the end of the call. -/
def Sent.sendLen (sent : Sent) : Nat := (sent.frames.map fun f => f.data.length).sum

/-- The length that `frame_send` gives to `rt_link_hw_send`. -/
def frameSendLength (f : SendFrame) : Nat :=
  4 + (if f.head.crc then 4 else 0) + (if f.head.extend then 4 else 0) + f.data.length

/-- The frames are the data in pieces, numbered one after the other. -/
structure Split (txSeq : Nat) (data : List Byte) (frames : List SendFrame) : Prop where
  count : frames.length = frameCount data.length
  limit : frames.length ≤ framesMax
  sequence : ∀ i f, frames[i]? = some f → f.head.sequence = (txSeq + 1 + i) % 2 ^ 8
  piece : ∀ f ∈ frames, f.data.length ≤ maxDataLength
  whole : (frames.map SendFrame.data).flatten = data
  fits : ∀ f ∈ frames, frameSendLength f ≤ maxFrameLength

/-- The call queues nothing and says so, or it queues the data in pieces. -/
def Splits (txSeq : Nat) (data : Option (List Byte)) (sent : Sent) : Prop :=
  (sent.frames = [] ∧ (sent.err = .enomem ∨ sent.err = .err)) ∨
    ∃ bytes, data = some bytes ∧ Split txSeq bytes sent.frames

/-! ## Pieces -/

/-- The piece `i` of the data. -/
def piece (v : Service) (txSeq : Nat) (data : List Byte) (i : Nat) : SendFrame :=
  { head := ⟨1 < frameCount data.length, v.crc, v.ack, (txSeq + 1 + i) % 2 ^ 8, v.service, 0⟩
    extend :=
      if 1 < frameCount data.length then ⟨Attr.longData.code, data.length⟩ else ⟨0, 0⟩
    attr := if 1 < frameCount data.length then .longData else .shortData
    data := (data.drop (maxDataLength * i)).take maxDataLength
    issent := false
    index := i
    total := frameCount data.length }

theorem sendTotal_eq (size : Nat) : sendTotal size = frameCount size % 2 ^ 8 := rfl

/-- The pieces of a list, in order. -/
theorem flatten_pieces {α : Type} (l : List α) (k n : Nat) :
    ((List.range n).map fun i => (l.drop (k * i)).take k).flatten = l.take (k * n) := by
  induction n with
  | zero => simp
  | succ n ih =>
    rw [List.range_succ, List.map_append, List.flatten_append, ih, List.map_singleton,
      List.flatten_singleton, Nat.mul_succ, List.take_add]

section split

variable {v : Service} {txSeq index : Nat} {data : List Byte} {malloc : Nat → Bool}

/-- A round of the loop queues a piece. -/
theorem roundFrame_eq (hmax : frameCount data.length ≤ framesMax)
    (hindex : index < frameCount data.length) {len : Nat}
    (hlen : min (len % 2 ^ 16) (data.length - maxDataLength * index) =
      min maxDataLength (data.length - maxDataLength * index)) :
    roundFrame v data (frameCount data.length) ((txSeq + 1 + index) % 2 ^ 8) index
      (maxDataLength * index) len = piece v txSeq data index := by
  have hpos : 0 < data.length := by
    by_contra hzero
    rw [Nat.eq_zero_of_not_pos hzero] at hindex
    exact Nat.not_lt_zero _ hindex
  have hbound := (frameCount_bounds hpos).2
  have hmul : maxDataLength * frameCount data.length ≤ maxDataLength * framesMax :=
    Nat.mul_le_mul_left _ hmax
  have hle : data.length ≤ 3036 := hbound.trans (hmul.trans (by decide))
  have hsize : data.length % 2 ^ 16 = data.length := Nat.mod_eq_of_lt (by omega)
  have htake : (data.drop (maxDataLength * index)).take (len % 2 ^ 16) =
      (data.drop (maxDataLength * index)).take maxDataLength := by
    rw [List.take_eq_take_iff, List.length_drop]
    exact hlen
  rw [roundFrame, piece, hsize, htake]

/-- The frames from a round on are the pieces from there on. -/
theorem sendLoop_eq (hmemory : ∀ i, malloc i = true)
    (hmax : frameCount data.length ≤ framesMax) (hindex : index < frameCount data.length) :
    (sendLoop malloc v data (frameCount data.length) ((txSeq + index) % 2 ^ 8) index
      (maxDataLength * index)).frames =
      (List.range' index (frameCount data.length - index)).map (piece v txSeq data) := by
  generalize hn : frameCount data.length - index = n
  induction n generalizing index with
  | zero => omega
  | succ n ih =>
    have hpos : 0 < data.length := by
      by_contra hzero
      rw [Nat.eq_zero_of_not_pos hzero] at hindex
      exact Nat.not_lt_zero _ hindex
    obtain ⟨hlow, hhigh⟩ := frameCount_bounds hpos
    have hseq : wadd 8 ((txSeq + index) % 2 ^ 8) 1 = (txSeq + 1 + index) % 2 ^ 8 := by
      rw [wadd]
      omega
    rw [sendLoop, if_pos (hmemory index), List.range'_succ, List.map_cons]
    rw [hseq]
    by_cases hlast : index + 1 < frameCount data.length
    · have hmul : maxDataLength * (index + 1) ≤ maxDataLength * (frameCount data.length - 1) :=
        Nat.mul_le_mul_left _ (by omega)
      rw [Nat.mul_succ] at hmul
      have hlong : 1 < frameCount data.length := by omega
      have hwhole : ¬ data.length < maxDataLength * index + maxDataLength := by omega
      have hrest := ih hlast (by omega)
      rw [if_pos hlast, if_pos hlong, if_neg hwhole, if_pos ⟨hlong, hwhole⟩,
        roundFrame_eq hmax hindex rfl]
      rw [← Nat.mul_succ, show txSeq + 1 + index = txSeq + (index + 1) by omega]
      exact congrArg _ hrest
    · have hend : index = frameCount data.length - 1 := by omega
      have hzero : n = 0 := by omega
      have hfull : data.length ≤ maxDataLength * index + maxDataLength := by
        rw [← Nat.mul_succ, hend, Nat.succ_eq_add_one, Nat.sub_add_cancel (by omega)]
        exact hhigh
      rw [if_neg hlast, hzero, List.range'_zero, List.map_nil]
      have hlen : ∀ len, len = data.length - maxDataLength * index ∨ len = maxDataLength →
          min (len % 2 ^ 16) (data.length - maxDataLength * index) =
            min maxDataLength (data.length - maxDataLength * index) := by
        rintro len (rfl | rfl)
        · rw [maxDataLength] at hfull ⊢
          omega
        · rfl
      rw [roundFrame_eq hmax hindex]
      refine hlen _ ?_
      by_cases hlong : 1 < frameCount data.length
      · rw [if_pos hlong]
        split
        · exact .inl rfl
        · exact .inr rfl
      · have hfirst : index = 0 := by omega
        rw [if_neg hlong, hfirst, Nat.mul_zero, Nat.sub_zero]
        exact .inl rfl

theorem pieces_split (hpos : 0 < data.length) (hmax : frameCount data.length ≤ framesMax) :
    Split txSeq data ((List.range (frameCount data.length)).map (piece v txSeq data)) := by
  have hlength : ∀ i, (piece v txSeq data i).data.length ≤ maxDataLength :=
    fun i => List.length_take_le _ _
  refine ⟨by simp, by simpa using hmax, fun i f hf => ?_, fun f hf => ?_, ?_, fun f hf => ?_⟩
  · rw [List.getElem?_map] at hf
    obtain ⟨j, hj, rfl⟩ := Option.map_eq_some_iff.mp hf
    obtain ⟨hlt, hj⟩ := List.getElem?_eq_some_iff.mp hj
    rw [List.getElem_range] at hj
    rw [← hj]
    rfl
  · obtain ⟨i, -, rfl⟩ := List.mem_map.mp hf
    exact hlength i
  · rw [List.map_map]
    have hflat := flatten_pieces data maxDataLength (frameCount data.length)
    rw [List.take_of_length_le (frameCount_bounds hpos).2] at hflat
    exact hflat
  · obtain ⟨i, -, rfl⟩ := List.mem_map.mp hf
    have hi := hlength i
    rw [maxDataLength] at hi
    rw [frameSendLength, maxFrameLength]
    split <;> split <;> omega

/-- The loop queues a frame when there is memory for the first one. -/
theorem sendLoop_ne_nil (hmemory : malloc index = true) (total offset : Nat) :
    (sendLoop malloc v data total txSeq index offset).frames ≠ [] := by
  rw [sendLoop, if_pos hmemory]
  dsimp only
  split
  · exact List.cons_ne_nil _ _
  · exact List.cons_ne_nil _ _

/-- A call within the limit queues the pieces of the data. -/
theorem rtLinkSend_frames {bytes : List Byte} (hmemory : ∀ i, malloc i = true)
    (htxSeq : txSeq < 2 ^ 8) (hpos : 0 < bytes.length)
    (hmax : frameCount bytes.length ≤ framesMax) :
    (rtLinkSend malloc v txSeq (some bytes)).frames =
      (List.range (frameCount bytes.length)).map (piece v txSeq bytes) := by
  have hlt : frameCount bytes.length < 2 ^ 8 := Nat.lt_of_le_of_lt hmax (by decide)
  have hloop := @sendLoop_eq v txSeq 0 bytes malloc hmemory hmax (frameCount_pos hpos)
  rw [Nat.add_zero, Nat.mod_eq_of_lt htxSeq, Nat.mul_zero, Nat.sub_zero,
    ← List.range_eq_range'] at hloop
  rw [rtLinkSend, sendTotal_eq, Nat.mod_eq_of_lt hlt]
  rw [if_neg hpos.ne', if_neg (Nat.not_lt.mpr hmax), hloop]

/-- A call splits the data, or queues nothing, exactly when the number of frames is within the
limit, or is beyond it as a byte too. -/
theorem link_send_splits (hmemory : ∀ i, malloc i = true) (data : Option (List Byte))
    (htxSeq : txSeq < 2 ^ 8) :
    Splits txSeq data (rtLinkSend malloc v txSeq data) ↔
      ∀ bytes, data = some bytes → frameCount bytes.length ≤ framesMax ∨
        framesMax < frameCount bytes.length % 2 ^ 8 := by
  cases data with
  | none => exact iff_of_true (.inl ⟨rfl, .inr rfl⟩) nofun
  | some bytes =>
    have hsome : (∀ bytes', some bytes = some bytes' → frameCount bytes'.length ≤ framesMax ∨
        framesMax < frameCount bytes'.length % 2 ^ 8) ↔ frameCount bytes.length ≤ framesMax ∨
        framesMax < frameCount bytes.length % 2 ^ 8 :=
      ⟨fun h => h bytes rfl, fun h bytes' heq => Option.some.inj heq ▸ h⟩
    rw [hsome, rtLinkSend, sendTotal_eq]
    dsimp only
    by_cases hzero : bytes.length = 0
    · rw [if_pos hzero, hzero]
      exact iff_of_true (.inl ⟨rfl, .inr rfl⟩) (.inl (by decide))
    · rw [if_neg hzero]
      by_cases hover : framesMax < frameCount bytes.length % 2 ^ 8
      · rw [if_pos hover]
        exact iff_of_true (.inl ⟨rfl, .inl rfl⟩) (.inr hover)
      · rw [if_neg hover, or_iff_left hover]
        constructor
        · rintro (⟨hnil, -⟩ | ⟨bytes', heq, hsplit⟩)
          · exact absurd hnil (sendLoop_ne_nil (hmemory 0) _ _)
          · cases heq
            rw [← hsplit.count]
            exact hsplit.limit
        · intro hmax
          have hpos : 0 < bytes.length := Nat.pos_of_ne_zero hzero
          have hframes := rtLinkSend_frames (v := v) hmemory htxSeq hpos hmax
          rw [rtLinkSend, sendTotal_eq] at hframes
          dsimp only at hframes
          rw [if_neg hzero, if_neg hover] at hframes
          refine .inr ⟨bytes, rfl, ?_⟩
          rw [hframes]
          exact pieces_split hpos hmax

/-- A message of two frames. -/
theorem link_send_splits_two :
    129 < 2 ^ 8 ∧ Splits 129 (some (List.replicate 2000 0))
      (rtLinkSend (fun _ => true) ⟨1, true, true⟩ 129 (some (List.replicate 2000 0))) := by
  have hdata : (List.replicate 2000 (0 : Byte)).length = 2000 := List.length_replicate
  generalize List.replicate 2000 (0 : Byte) = data at hdata
  refine ⟨by decide, (link_send_splits (fun _ => rfl) _ (by decide)).mpr fun bytes heq => ?_⟩
  rw [← Option.some.inj heq, hdata]
  exact .inl (by decide)

/-- A message of 256 full frames is queued as one frame that is much too long. -/
theorem send_wraps (hdata : data.length = 259072) :
    rtLinkSend (fun _ => true) ⟨1, true, true⟩ 129 (some data) =
        ⟨.eok, [roundFrame ⟨1, true, true⟩ data 0 130 0 0 259072], 130⟩ ∧
      frameSendLength (roundFrame ⟨1, true, true⟩ data 0 130 0 0 259072) = 62472 := by
  have htotal : sendTotal 259072 = 0 := by decide
  have hseq : wadd 8 129 1 = 130 := by decide
  constructor
  · rw [rtLinkSend]
    rw [hdata, if_neg (by decide), htotal, if_neg (by decide), sendLoop, if_pos rfl, hdata]
    rw [if_neg (by decide), if_neg (by decide), hseq]
  · have hlen : (roundFrame ⟨1, true, true⟩ data 0 130 0 0 259072).data.length = 62464 := by
      rw [roundFrame]
      rw [List.drop_zero, List.length_take, hdata]
      decide
    have hcrc : (roundFrame ⟨1, true, true⟩ data 0 130 0 0 259072).head.crc = true := rfl
    have hextend : (roundFrame ⟨1, true, true⟩ data 0 130 0 0 259072).head.extend = false := rfl
    rw [frameSendLength, hlen, hcrc, hextend, if_pos rfl, if_neg Bool.false_ne_true]

theorem link_send_not_split :
    ¬ Splits 129 (some (List.replicate 259072 0))
      (rtLinkSend (fun _ => true) ⟨1, true, true⟩ 129 (some (List.replicate 259072 0))) := by
  have hdata : (List.replicate 259072 (0 : Byte)).length = 259072 := List.length_replicate
  generalize List.replicate 259072 (0 : Byte) = data at hdata
  rw [(send_wraps hdata).1]
  rintro (⟨hnil, -⟩ | ⟨bytes, heq, hsplit⟩)
  · exact List.cons_ne_nil _ _ hnil
  · have hfits := hsplit.fits _ (List.mem_singleton_self _)
    rw [(send_wraps hdata).2] at hfits
    exact absurd hfits (by decide)

/-! ## Memory -/

/-- A call that ends with `RT_LINK_ENOMEM` leaves nothing behind and returns 0. -/
def Atomic (list : List SendFrame) (txSeq : Nat) (sent : Sent) : Prop :=
  sent.err = .enomem → sent.txDataSlist list = list ∧ sent.txSeq = txSeq ∧ sent.sendLen = 0

/-- The loop ends with `RT_LINK_ENOMEM` when the memory for one of its rounds is missing. -/
theorem sendLoop_enomem (total offset : Nat) :
    (sendLoop malloc v data total txSeq index offset).err = .enomem ↔
      ∃ i, index ≤ i ∧ (i = index ∨ i < total) ∧ malloc i = false := by
  generalize hn : total - index = n
  induction n generalizing txSeq index offset with
  | zero =>
    have hlast : ¬ index + 1 < total := by omega
    rw [sendLoop]
    constructor
    · intro h
      cases hm : malloc index with
      | false => exact ⟨index, Nat.le_refl _, .inl rfl, hm⟩
      | true =>
        rw [if_pos hm] at h
        rw [if_neg hlast] at h
        cases h
    · rintro ⟨i, hle, hi, hm⟩
      have heq : i = index := by omega
      rw [heq] at hm
      rw [hm, if_neg Bool.false_ne_true]
  | succ n ih =>
    rw [sendLoop]
    cases hm : malloc index with
    | false =>
      exact iff_of_true rfl ⟨index, Nat.le_refl _, .inl rfl, hm⟩
    | true =>
      rw [if_pos rfl]
      by_cases hlast : index + 1 < total
      · rw [if_pos hlast]
        refine (ih _ (by omega)).trans (exists_congr fun i => ?_)
        constructor
        · rintro ⟨hle, hi, hfail⟩
          exact ⟨by omega, .inr (by omega), hfail⟩
        · rintro ⟨hle, hi, hfail⟩
          have hne : i ≠ index := fun heq => by
            rw [heq, hm] at hfail
            cases hfail
          exact ⟨by omega, by omega, hfail⟩
      · rw [if_neg hlast]
        refine iff_of_false nofun ?_
        rintro ⟨i, hle, hi, hfail⟩
        have heq : i = index := by omega
        rw [heq, hm] at hfail
        cases hfail

/-- A call that runs out of memory is undone exactly when it fails before it has queued a frame:
by the limit, or in the first round. -/
theorem link_send_atomic (list : List SendFrame) (txSeq : Nat) (data : Option (List Byte)) :
    Atomic list txSeq (rtLinkSend malloc v txSeq data) ↔
      ∀ bytes, data = some bytes → sendTotal bytes.length ≤ framesMax → malloc 0 = true →
        ∀ i < sendTotal bytes.length, malloc i = true := by
  cases data with
  | none => exact iff_of_true nofun nofun
  | some bytes =>
    rw [rtLinkSend]
    dsimp only
    constructor
    · intro h bytes' heq hmax hfirst i hi
      cases heq
      have hzero : bytes.length ≠ 0 := by
        intro hzero
        rw [hzero] at hi
        exact Nat.not_lt_zero i hi
      rw [if_neg hzero, if_neg (Nat.not_lt.mpr hmax)] at h
      by_contra hfail
      have hlist := (h ((sendLoop_enomem _ _).mpr
        ⟨i, Nat.zero_le i, .inr hi, Bool.not_eq_true _ ▸ hfail⟩)).1
      exact sendLoop_ne_nil hfirst _ _ (List.append_right_eq_self.mp hlist)
    · intro h
      by_cases hzero : bytes.length = 0
      · rw [if_pos hzero]
        exact nofun
      · rw [if_neg hzero]
        by_cases hmax : framesMax < sendTotal bytes.length
        · rw [if_pos hmax]
          exact fun _ => ⟨List.append_nil _, rfl, rfl⟩
        · rw [if_neg hmax]
          intro herr
          obtain ⟨i, -, hi, hfail⟩ := (sendLoop_enomem _ _).mp herr
          cases hfirst : malloc 0 with
          | true =>
            have hall := h bytes rfl (Nat.not_lt.mp hmax) hfirst
            rcases hi with rfl | hi
            · rw [hfirst] at hfail
              cases hfail
            · rw [hall i hi] at hfail
              cases hfail
          | false =>
            rw [sendLoop, hfirst, if_neg Bool.false_ne_true]
            exact ⟨List.append_nil _, rfl, rfl⟩

/-- The second of two frames fails: the first one stays in the list. -/
theorem link_send_not_atomic :
    ¬ Atomic [] 129 (rtLinkSend (fun i => i = 0) ⟨1, true, true⟩ 129
      (some (List.replicate 2000 0))) := by
  have hdata : (List.replicate 2000 (0 : Byte)).length = 2000 := List.length_replicate
  generalize List.replicate 2000 (0 : Byte) = data at hdata
  have htotal : sendTotal 2000 = 2 := by decide
  rw [rtLinkSend]
  dsimp only
  rw [hdata, if_neg (by decide), htotal, if_neg (by decide)]
  intro h
  have hlist := (h ((sendLoop_enomem _ _).mpr ⟨1, by decide, .inr (by decide), rfl⟩)).1
  exact sendLoop_ne_nil (decide_eq_true rfl) _ _ (List.append_right_eq_self.mp hlist)

end split

end RtThread.RtLink.Fragments
