import RtThread.RtLinkDecode
import RtThread.RtLinkFragments
import RtThread.RtLinkLong

/-!
# Reassembly of a long message

The frames of one message arrive in any order, any of them more than once. Until the last one
is there the record keeps the frames that have arrived, each at its place; with the last one it
is handed over and cleared, and `rt_link_frame_check` refuses the duplicates that come later.
-/
namespace RtThread.RtLink

open Ringbuffer (Byte)

/-- The messages that are handed over, with their services. -/
def handedOver (es : List Effect) : List (Nat × List Byte) :=
  es.filterMap fun
    | .received service data => some (service, data)
    | _ => none

/-- The arguments of `rt_link_recv_finish` when `rt_link_long_handle` calls it: those it hands on
for a service that is attached. -/
def recvFinishCalls (malloc : Nat → Option (Nat → Byte)) (s : Session) (f : Frame) :
    List (Nat × List Byte) :=
  handedOver (rtLinkLongHandle malloc { s with attached := fun _ => true } f 0).2

/-- A long frame arrives: what is left of the session, and the calls of `rt_link_recv_finish`. -/
def arrive (malloc : Nat → Option (Nat → Byte)) (s : Session) (f : Frame) :
    Session × List (Nat × List Byte) :=
  if seqAccepted s f.attr f.head.sequence then
    ((rtLinkParseFrame malloc s f 0).1, recvFinishCalls malloc s f)
  else (rtLinkFrameStopReceive s, [])

/-- Long frames arrive one after the other. -/
def arriveAll (malloc : Nat → Option (Nat → Byte)) :
    Session → List Frame → Session × List (Nat × List Byte)
  | s, [] => (s, [])
  | s, f :: fs =>
    let first := arrive malloc s f
    let rest := arriveAll malloc first.1 fs
    (rest.1, first.2 ++ rest.2)

/-- The frames on the wire of a message that is sent when `tx_seq` has the value of `rx_seq`. -/
def sentFrom (v : Fragments.Service) (s : Session) (data : List Byte) : List Frame :=
  (Fragments.rtLinkSend (fun _ => true) v s.rxSeq (some data)).frames.map SendFrame.wire

/-- Nothing is left of a record. -/
structure Cleared (s : Session) : Prop where
  count : s.longCount = 0
  total : s.rxTotal = 0
  space : s.dataspace = none

/-- Whenever the frames have arrived, in any order and any of them more than once, the message has
been handed over once, and the record is cleared. -/
def Reassembles (malloc : Nat → Option (Nat → Byte)) (v : Fragments.Service) (s : Session)
    (data : List Byte) : Prop :=
  ∀ arrivals : List Frame, (∀ f, f ∈ arrivals ↔ f ∈ sentFrom v s data) →
    (arriveAll malloc s arrivals).2 = [(v.service, data)] ∧
      (arriveAll malloc s arrivals).1.rxSeq = wadd 8 s.rxSeq (sentFrom v s data).length ∧
      Cleared (arriveAll malloc s arrivals).1

variable {call : Nat × List Byte}

section handler

variable {malloc : Nat → Option (Nat → Byte)} {s : Session} {f : Frame} {space : Nat → Byte}
  {j n : Nat}

/-- The calls that `_long_handle_second` makes. -/
def secondCalls (s : Session) (f : Frame) : List (Nat × List Byte) :=
  handedOver (longHandleSecond { s with attached := fun _ => true } f 0).2

theorem handedOver_append (es es' : List Effect) :
    handedOver (es ++ es') = handedOver es ++ handedOver es' := List.filterMap_append

/-- The record as `_long_handle_first` leaves it. -/
def openedRecord (malloc : Nat → Option (Nat → Byte)) (s : Session) (f : Frame) : Session :=
  if s.longCount = 0 then longHandleFirst malloc s f else s

theorem recvFinishCalls_eq : recvFinishCalls malloc s f =
    if 0 < (openedRecord malloc s f).rxTotal then secondCalls (openedRecord malloc s f) f
    else [] := by
  have hopened : (if ({ s with attached := fun _ => true } : Session).longCount = 0 then
      longHandleFirst malloc { s with attached := fun _ => true } f
      else { s with attached := fun _ => true }) =
      { openedRecord malloc s f with attached := fun _ => true } := by
    rw [openedRecord]
    split
    · rfl
    · rfl
  rw [recvFinishCalls, rtLinkLongHandle, hopened]
  split
  · rfl
  · rfl

theorem rtLinkLongHandle_session (htotal : 0 < (openedRecord malloc s f).rxTotal) :
    (rtLinkLongHandle malloc s f 0).1 = (longHandleSecond (openedRecord malloc s f) f 0).1 := by
  have h : rtLinkLongHandle malloc s f 0 =
      if 0 < (openedRecord malloc s f).rxTotal then
        longHandleSecond (openedRecord malloc s f) f 0 else (openedRecord malloc s f, []) := rfl
  rw [h, if_pos htotal]

/-- A frame that is there already changes nothing. -/
theorem longHandleSecond_again (hbit : s.longCount.testBit
      (wsub 8 (rtLinkCheckSeq f.head.sequence s.rxSeq) 1) = true) :
    (longHandleSecond s f 0).1 = s ∧ secondCalls s f = [] := by
  constructor
  · rw [longHandleSecond]
    rw [if_pos (.inr hbit)]
  · rw [secondCalls, longHandleSecond]
    rw [if_pos (.inr hbit)]
    rfl

/-- A frame that is missing is stored, and the last one ends the record. -/
theorem longHandleSecond_missing
    (hindex : wsub 8 (rtLinkCheckSeq f.head.sequence s.rxSeq) 1 = j) (hj : j ≤ framesMax)
    (hspace : s.dataspace = some space) (htotal : s.rxTotal = n)
    (hbit : s.longCount.testBit j = false) :
    if rtLinkUtilsNum1 (s.longCount ||| 1 <<< j) = n then
      (longHandleSecond s f 0).1 =
          { s with
            rxSeq := wadd 8 s.rxSeq n
            dataspace := none
            longCount := 0
            rxTotal := 0
            ackMask := ackMax } ∧
        secondCalls s f = [(f.head.service, Ringbuffer.copyFrom
          (Ringbuffer.copyTo space (maxDataLength * j) f.payload) 0 f.extend.parameter)]
    else
      (∃ mask, (longHandleSecond s f 0).1 =
        { s with
          longCount := s.longCount ||| 1 <<< j
          dataspace := some (Ringbuffer.copyTo space (maxDataLength * j) f.payload)
          ackMask := mask }) ∧ secondCalls s f = [] := by
  have hplace : ¬ (framesMax < j ∨ s.longCount.testBit j = true) := by
    rw [hbit]
    rintro (hlt | hset)
    · omega
    · cases hset
  rw [secondCalls, longHandleSecond, longHandleSecond]
  simp only [hindex, if_neg hplace, hspace, htotal]
  by_cases hcomplete : rtLinkUtilsNum1 (s.longCount ||| 1 <<< j) = n
  · simp only [if_pos hcomplete, handedOver_append, true_and]
    split
    · rfl
    · rfl
  · simp only [if_neg hcomplete, handedOver_append]
    refine ⟨⟨_, rfl⟩, List.append_eq_nil_iff.mpr ⟨?_, ?_⟩⟩
    · split
      · split
        · rfl
        · rfl
      · rfl
    · split
      · rfl
      · rfl

/-- Confirmations and timers, and behind them at most one call, with as many bytes as the extended
field says. -/
theorem longHandleSecond_effects (s : Session) (f : Frame) (recvLen : Nat) :
    ∃ es, handedOver es = [] ∧
      ((longHandleSecond s f recvLen).2 = es ∧ secondCalls s f = [] ∨
        ∃ data, data.length = f.extend.parameter ∧
          (longHandleSecond s f recvLen).2 = es ++ rtLinkRecvFinish s f.head.service data ∧
          secondCalls s f = [(f.head.service, data)]) := by
  rw [secondCalls, longHandleSecond, longHandleSecond]
  by_cases hplace : framesMax < wsub 8 (rtLinkCheckSeq f.head.sequence s.rxSeq) 1 ∨
      s.longCount.testBit (wsub 8 (rtLinkCheckSeq f.head.sequence s.rxSeq) 1) = true
  · simp only [if_pos hplace]
    exact ⟨[], rfl, .inl ⟨rfl, rfl⟩⟩
  · simp only [if_neg hplace]
    cases s.dataspace with
    | none => exact ⟨[], rfl, .inl ⟨rfl, rfl⟩⟩
    | some space =>
      generalize s.longCount ||| 1 <<< wsub 8 (rtLinkCheckSeq f.head.sequence s.rxSeq) 1 = count
      by_cases hcomplete : rtLinkUtilsNum1 count = s.rxTotal
      · have hlength : ∀ place : Nat → Byte,
            (Ringbuffer.copyFrom place 0 f.extend.parameter).length = f.extend.parameter :=
          fun _ => by rw [Ringbuffer.copyFrom, List.length_map, List.length_range]
        simp only [if_pos hcomplete]
        cases f.head.ack with
        | true => exact ⟨[_, .stopLongTimer], rfl, .inr ⟨_, hlength _, rfl, rfl⟩⟩
        | false => exact ⟨[.stopLongTimer], rfl, .inr ⟨_, hlength _, rfl, rfl⟩⟩
      · simp only [if_neg hcomplete, handedOver_append]
        have hconfirm : ∀ n, handedOver (if f.head.ack = true then
            if count &&& s.ackMask = s.ackMask then
              [.send (commandFrame f.head.service n .confirm 0)] else [] else []) = [] := by
          intro n
          split
          · split
            · rfl
            · rfl
          · rfl
        have htimer : ∀ n, handedOver (if n < f.head.length % maxDataLength then
            [.startLongTimer] else []) = [] := by
          intro n
          split
          · rfl
          · rfl
        refine ⟨_, ?_, .inl ⟨rfl, ?_⟩⟩
        · rw [handedOver_append, hconfirm, htimer]
          rfl
        · rw [hconfirm, htimer]
          rfl

/-- The message that is handed over has the length of the extended field. -/
theorem recvFinishCalls_length (h : call ∈ recvFinishCalls malloc s f) :
    call.2.length = f.extend.parameter := by
  rw [recvFinishCalls_eq] at h
  split at h
  · obtain ⟨-, -, ⟨-, hnone⟩ | ⟨data, hlength, -, hcalls⟩⟩ :=
      longHandleSecond_effects (openedRecord malloc s f) f 0
    · rw [hnone] at h
      exact absurd h List.not_mem_nil
    · rw [hcalls, List.mem_singleton] at h
      rw [h]
      exact hlength
  · exact absurd h List.not_mem_nil

end handler

/-! ## The record while frames arrive -/

section record

variable {malloc : Nat → Option (Nat → Byte)} {v : Fragments.Service} {m : Message} {s : Session}
  {seen : List Nat} {j : Nat}

/-- The frame `j` of a message on the wire. -/
def wireFrame (v : Fragments.Service) (m : Message) (j : Nat) : Frame :=
  (Fragments.piece v m.base m.data j).wire

/-- The frames that have arrived are stored, and one is missing. -/
structure Collecting (m : Message) (s : Session) (seen : List Nat) : Prop where
  seq : s.rxSeq = m.base
  bits : s.longCount < 2 ^ m.count
  seen : ∀ j < m.count, s.longCount.testBit j = true ↔ j ∈ seen
  missing : rtLinkUtilsNum1 s.longCount ≠ m.count
  total : s.longCount ≠ 0 → s.rxTotal = m.count
  block : s.longCount ≠ 0 → ∃ space, s.dataspace = some space ∧
    ∀ j, s.longCount.testBit j = true → Stored m space j

/-- The message has been handed over. -/
structure Collected (m : Message) (s : Session) : Prop where
  seq : s.rxSeq = wadd 8 m.base m.count
  cleared : Cleared s

theorem num1_all : ∀ n ≤ framesMax, ∀ count < 2 ^ n, (∀ l < n, count.testBit l = true) →
    rtLinkUtilsNum1 count = n := by decide

theorem wireFrame_long (hlong : 1 < m.count) :
    (wireFrame v m j).attr = .longData ∧ (wireFrame v m j).extend.parameter = m.data.length := by
  have hcount : 1 < frameCount m.data.length := hlong
  constructor
  · show (if 1 < frameCount m.data.length then Attr.longData else .shortData) = _
    rw [if_pos hcount]
  · show (if 1 < frameCount m.data.length then (⟨Attr.longData.code, m.data.length⟩ : Extend)
      else ⟨0, 0⟩).parameter = _
    rw [if_pos hcount]

/-- The sequence number of a frame gives its piece. -/
theorem wireFrame_index (hbase : m.base < 2 ^ 8) (hj : j < framesMax) :
    wsub 8 (rtLinkCheckSeq (wireFrame v m j).head.sequence m.base) 1 = j := by
  have hsequence := index_of_sequence (b := m.base) hj
  rwa [Nat.mod_eq_of_lt hbase] at hsequence

/-- The frame that opens the record finds an empty block, the others find those before them. -/
theorem Collecting.opened (h : Collecting m s seen) (hlong : 1 < m.count)
    (hmemory : ∀ n, 0 < n → (malloc n).isSome) :
    ∃ space, (openedRecord malloc s (wireFrame v m j)).dataspace = some space ∧
      (openedRecord malloc s (wireFrame v m j)).rxTotal = m.count ∧
      (openedRecord malloc s (wireFrame v m j)).rxSeq = m.base ∧
      (openedRecord malloc s (wireFrame v m j)).longCount = s.longCount ∧
      ∀ j, s.longCount.testBit j = true → Stored m space j := by
  obtain ⟨-, hparameter⟩ := wireFrame_long (v := v) (j := j) hlong
  rw [openedRecord]
  by_cases hzero : s.longCount = 0
  · have hpos : 0 < m.data.length := by
      by_contra hempty
      have hcount : m.count = frameCount m.data.length := rfl
      rw [Nat.eq_zero_of_not_pos hempty] at hcount
      rw [hcount] at hlong
      exact absurd hlong (by decide)
    obtain ⟨space, hspace⟩ := Option.isSome_iff_exists.mp (hmemory _ hpos)
    rw [if_pos hzero, longHandleFirst, hparameter]
    refine ⟨space, hspace, rfl, h.seq, rfl, fun l hl => ?_⟩
    rw [hzero, Nat.zero_testBit] at hl
    cases hl
  · obtain ⟨space, hspace, hstored⟩ := h.block hzero
    rw [if_neg hzero]
    exact ⟨space, hspace, h.total hzero, h.seq, rfl, hstored⟩

/-- A frame of the message is stored, or found to be there; the last one hands the message over. -/
theorem Collecting.arrive (h : Collecting m s seen) (hlong : 1 < m.count)
    (hmax : m.count ≤ framesMax) (hbase : m.base < 2 ^ 8)
    (hmemory : ∀ n, 0 < n → (malloc n).isSome) (hj : j < m.count) :
    (Collecting m (RtLink.arrive malloc s (wireFrame v m j)).1 (j :: seen) ∧
        (RtLink.arrive malloc s (wireFrame v m j)).2 = []) ∨
      Collected m (RtLink.arrive malloc s (wireFrame v m j)).1 ∧
        (RtLink.arrive malloc s (wireFrame v m j)).2 = [(v.service, m.data)] := by
  obtain ⟨hattr, hparameter⟩ := wireFrame_long (v := v) (j := j) hlong
  obtain ⟨space, hspace, htotal, hrecord, hcount, hstored⟩ :=
    h.opened (v := v) (j := j) hlong hmemory
  have hne : m.data ≠ [] := by
    rintro hnil
    have hzero : m.count = frameCount m.data.length := rfl
    rw [hnil] at hzero
    rw [hzero] at hlong
    exact absurd hlong (by decide)
  have hindex := wireFrame_index (v := v) hbase (Nat.lt_of_lt_of_le hj hmax)
  have haccepted : seqAccepted s (wireFrame v m j).attr (wireFrame v m j).head.sequence := by
    simp only [seqAccepted, hattr, decide_eq_true_eq]
    rw [h.seq, hindex]
    omega
  have hparse : rtLinkParseFrame malloc s (wireFrame v m j) 0 =
      rtLinkLongHandle malloc s (wireFrame v m j) 0 := by
    simp only [rtLinkParseFrame, hattr]
  have hpos : 0 < (openedRecord malloc s (wireFrame v m j)).rxTotal := by omega
  rw [RtLink.arrive, if_pos haccepted, hparse, rtLinkLongHandle_session hpos,
    recvFinishCalls_eq, if_pos hpos]
  cases hbit : s.longCount.testBit j with
  | true =>
    have hnonzero : s.longCount ≠ 0 := by
      intro hzero
      rw [hzero, Nat.zero_testBit] at hbit
      cases hbit
    have hagain := longHandleSecond_again (s := openedRecord malloc s (wireFrame v m j))
      (f := wireFrame v m j) (by rw [hrecord, hcount, hindex]; exact hbit)
    have hsame : openedRecord malloc s (wireFrame v m j) = s := if_neg hnonzero
    rw [hagain.1, hagain.2, hsame]
    refine .inl ⟨{ h with seen := fun l hl => ?_ }, rfl⟩
    rw [h.seen l hl, List.mem_cons]
    constructor
    · exact .inr
    · rintro (rfl | hmem)
      · exact (h.seen l hl).mp hbit
      · exact hmem
  | false =>
    have hmissing := longHandleSecond_missing (s := openedRecord malloc s (wireFrame v m j))
      (f := wireFrame v m j) (j := j) (by rw [hrecord]; exact hindex) (by omega) hspace htotal
      (by rw [hcount]; exact hbit)
    rw [hcount] at hmissing
    have hplaced : ∀ l, (s.longCount ||| 1 <<< j).testBit l = true →
        Stored m (Ringbuffer.copyTo space (maxDataLength * j) (m.slice j)) l := by
      intro l hl
      rw [testBit_or_bit, Bool.or_eq_true, decide_eq_true_eq] at hl
      by_cases heq : j = l
      · rw [← heq]
        exact Stored.new
      · exact (hstored l (hl.resolve_right heq)).copy heq
    have hbits := or_bit_lt h.bits hj
    split at hmissing
    · rename_i hcomplete
      obtain ⟨hsession, hcalls⟩ := hmissing
      rw [hsession, hcalls]
      refine .inr ⟨⟨by rw [hrecord], rfl, rfl, rfl⟩, ?_⟩
      have hdata := copyFrom_of_stored hne fun l hl =>
        hplaced l (num1_complete m.count hmax _ hbits hcomplete l hl)
      rw [hparameter]
      exact congrArg (fun data => [(v.service, data)]) hdata
    · rename_i hcomplete
      obtain ⟨⟨mask, hsession⟩, hcalls⟩ := hmissing
      rw [hsession, hcalls]
      refine .inl ⟨⟨hrecord, hbits, fun l hl => ?_, hcomplete, fun _ => htotal,
        fun _ => ⟨_, rfl, hplaced⟩⟩, rfl⟩
      rw [testBit_or_bit, Bool.or_eq_true, decide_eq_true_eq, h.seen l hl, List.mem_cons,
        or_comm, eq_comm]

/-- A frame that comes when its message has been handed over is refused. -/
theorem Collected.arrive (malloc : Nat → Option (Nat → Byte)) (h : Collected m s)
    (hlong : 1 < m.count) (hmax : m.count ≤ framesMax) (hj : j < m.count) :
    Collected m (RtLink.arrive malloc s (wireFrame v m j)).1 ∧
      (RtLink.arrive malloc s (wireFrame v m j)).2 = [] := by
  obtain ⟨hattr, -⟩ := wireFrame_long (v := v) (j := j) hlong
  have hsequence : (wireFrame v m j).head.sequence = (m.base + 1 + j) % 2 ^ 8 := rfl
  have hrefused : ¬ (seqAccepted s (wireFrame v m j).attr
      (wireFrame v m j).head.sequence : Prop) := by
    simp only [seqAccepted, hattr, decide_eq_true_eq]
    rw [hsequence, h.seq, rtLinkCheckSeq, wadd, wsub, wsub]
    rw [framesMax] at hmax ⊢
    omega
  rw [RtLink.arrive, if_neg hrefused]
  exact ⟨⟨h.seq, rfl, rfl, rfl⟩, rfl⟩

variable {js : List Nat} {data : List Byte}

/-- Once the message has been handed over, nothing more is. -/
theorem Collected.arriveAll (malloc : Nat → Option (Nat → Byte)) (h : Collected m s)
    (hlong : 1 < m.count) (hmax : m.count ≤ framesMax) (hjs : ∀ j ∈ js, j < m.count) :
    Collected m (RtLink.arriveAll malloc s (js.map (wireFrame v m))).1 ∧
      (RtLink.arriveAll malloc s (js.map (wireFrame v m))).2 = [] := by
  induction js generalizing s with
  | nil => exact ⟨h, rfl⟩
  | cons j js ih =>
    obtain ⟨hnext, hnone⟩ := h.arrive malloc (v := v) hlong hmax
      (hjs j List.mem_cons_self)
    obtain ⟨hlast, hrest⟩ := ih hnext fun l hl => hjs l (List.mem_cons_of_mem j hl)
    rw [List.map_cons, RtLink.arriveAll]
    rw [hnone, hrest]
    exact ⟨hlast, rfl⟩

/-- Frames that arrive while the message is collected: when all have, it has been handed over. -/
theorem Collecting.arriveAll (h : Collecting m s seen) (hlong : 1 < m.count)
    (hmax : m.count ≤ framesMax) (hbase : m.base < 2 ^ 8)
    (hmemory : ∀ n, 0 < n → (malloc n).isSome) (hjs : ∀ j ∈ js, j < m.count)
    (hall : ∀ j < m.count, j ∈ js ∨ j ∈ seen) :
    Collected m (RtLink.arriveAll malloc s (js.map (wireFrame v m))).1 ∧
      (RtLink.arriveAll malloc s (js.map (wireFrame v m))).2 = [(v.service, m.data)] := by
  induction js generalizing s seen with
  | nil =>
    refine absurd (num1_all m.count hmax _ h.bits fun l hl => (h.seen l hl).mpr ?_) h.missing
    exact (hall l hl).resolve_left List.not_mem_nil
  | cons j js ih =>
    have hrest : ∀ l ∈ js, l < m.count := fun l hl => hjs l (List.mem_cons_of_mem j hl)
    rw [List.map_cons, RtLink.arriveAll]
    rcases h.arrive (v := v) hlong hmax hbase hmemory
      (hjs j List.mem_cons_self) with ⟨hnext, hnone⟩ | ⟨hdone, hcall⟩
    · obtain ⟨hlast, hcalls⟩ := ih hnext hrest fun l hl => by
        rcases hall l hl with hmem | hmem
        · rcases List.mem_cons.mp hmem with rfl | hmem
          · exact .inr List.mem_cons_self
          · exact .inl hmem
        · exact .inr (List.mem_cons_of_mem j hmem)
      rw [hnone, hcalls]
      exact ⟨hlast, rfl⟩
    · obtain ⟨hlast, hcalls⟩ := hdone.arriveAll malloc (v := v) hlong hmax hrest
      rw [hcall, hcalls]
      exact ⟨hlast, rfl⟩

/-- The frames of a message within the limit are its pieces. -/
theorem sentFrom_eq (hseq : s.rxSeq = m.base) (hbase : m.base < 2 ^ 8) (hlong : 1 < m.count)
    (hmax : m.count ≤ framesMax) :
    sentFrom v s m.data = (List.range m.count).map (wireFrame v m) := by
  have hpos : 0 < m.data.length := by
    by_contra hzero
    rw [Message.count, Nat.eq_zero_of_not_pos hzero] at hlong
    exact absurd hlong (by decide)
  rw [sentFrom, hseq, Fragments.rtLinkSend_frames (fun _ => rfl) hbase hpos hmax, List.map_map]
  rfl

theorem collecting_nothing (hempty : s.longCount = 0) (hseq : s.rxSeq = m.base)
    (hlong : 1 < m.count) : Collecting m s [] := by
  refine ⟨hseq, ?_, fun j hj => ?_, ?_, fun hne => absurd hempty hne, fun hne => absurd hempty hne⟩
  · rw [hempty]
    exact Nat.two_pow_pos _
  · rw [hempty, Nat.zero_testBit]
    exact iff_of_false Bool.noConfusion List.not_mem_nil
  · have hzero : rtLinkUtilsNum1 0 = 0 := rfl
    rw [hempty, hzero]
    omega

/-- Messages that are not longer than the limit of frames are reassembled. -/
theorem reassembles_of_short (hmemory : ∀ n, 0 < n → (malloc n).isSome) (hseq : s.rxSeq = m.base)
    (hbase : m.base < 2 ^ 8) (hempty : s.longCount = 0) (hlong : 1 < m.count)
    (hmax : m.count ≤ framesMax) (hsent : sentFrom v s m.data =
      (List.range m.count).map (wireFrame v m)) : Reassembles malloc v s m.data := by
  intro arrivals harrivals
  obtain ⟨position, hposition⟩ : ∃ position : Frame → Nat,
      ∀ j < m.count, position (wireFrame v m j) = j :=
    ⟨fun f => wsub 8 (rtLinkCheckSeq f.head.sequence m.base) 1,
      fun j hj => wireFrame_index hbase (Nat.lt_of_lt_of_le hj hmax)⟩
  have hpieces : ∀ f ∈ arrivals, ∃ j < m.count, f = wireFrame v m j := by
    intro f hf
    rw [harrivals, hsent] at hf
    obtain ⟨j, hj, rfl⟩ := List.mem_map.mp hf
    exact ⟨j, List.mem_range.mp hj, rfl⟩
  have hmap : (arrivals.map position).map (wireFrame v m) = arrivals := by
    rw [List.map_map]
    refine (List.map_congr_left fun f hf => ?_).trans (List.map_id _)
    obtain ⟨j, hj, rfl⟩ := hpieces f hf
    show wireFrame v m (position (wireFrame v m j)) = _
    rw [hposition j hj]
    rfl
  have hlt : ∀ j ∈ arrivals.map position, j < m.count := by
    intro j hj
    obtain ⟨f, hf, rfl⟩ := List.mem_map.mp hj
    obtain ⟨l, hl, rfl⟩ := hpieces f hf
    rwa [hposition l hl]
  have hall : ∀ j < m.count, j ∈ arrivals.map position ∨ j ∈ ([] : List Nat) := by
    intro j hj
    refine .inl (List.mem_map.mpr ⟨wireFrame v m j, ?_, hposition j hj⟩)
    rw [harrivals, hsent]
    exact List.mem_map.mpr ⟨j, List.mem_range.mpr hj, rfl⟩
  obtain ⟨hdone, hcalls⟩ := (collecting_nothing hempty hseq hlong).arriveAll (v := v) hlong hmax
    hbase hmemory hlt hall
  rw [hmap] at hdone hcalls
  refine ⟨hcalls, ?_, hdone.cleared⟩
  rw [hdone.seq, hsent, List.length_map, List.length_range, hseq]

/-! ## Messages that are too long -/

theorem sendLoop_parameter {malloc' : Nat → Bool} {total txSeq index offset : Nat} {f : SendFrame}
    (hf : f ∈ (Fragments.sendLoop malloc' v data total txSeq index offset).frames) :
    f.extend.parameter < 2 ^ 16 := by
  have hround : ∀ txSeq index offset len,
      (Fragments.roundFrame v data total txSeq index offset len).extend.parameter < 2 ^ 16 := by
    intro txSeq index offset len
    rw [Fragments.roundFrame]
    split
    · exact Nat.mod_lt _ (by decide)
    · exact Nat.two_pow_pos 16
  generalize hn : total - index = n
  induction n generalizing txSeq index offset with
  | zero =>
    rw [Fragments.sendLoop] at hf
    split at hf
    · rw [if_neg (by omega), List.mem_singleton] at hf
      rw [hf]
      exact hround _ _ _ _
    · exact absurd hf List.not_mem_nil
  | succ n ih =>
    rw [Fragments.sendLoop] at hf
    split at hf
    · dsimp only at hf
      split at hf
      · rcases List.mem_cons.mp hf with rfl | hf
        · exact hround _ _ _ _
        · exact ih hf (by omega)
      · rw [List.mem_singleton] at hf
        rw [hf]
        exact hround _ _ _ _
    · exact absurd hf List.not_mem_nil

theorem sentFrom_parameter {f : Frame} (hf : f ∈ sentFrom v s data) :
    f.extend.parameter < 2 ^ 16 := by
  obtain ⟨g, hg, rfl⟩ := List.mem_map.mp hf
  rw [Fragments.rtLinkSend] at hg
  dsimp only at hg
  split at hg
  · exact absurd hg List.not_mem_nil
  · split at hg
    · exact absurd hg List.not_mem_nil
    · exact sendLoop_parameter hg

/-- Everything that is handed over has the length of an extended field. -/
theorem arriveAll_length {fs : List Frame} (h : call ∈ (arriveAll malloc s fs).2) :
    ∃ f ∈ fs, call.2.length = f.extend.parameter := by
  induction fs generalizing s with
  | nil => exact absurd h List.not_mem_nil
  | cons f fs ih =>
    rcases List.mem_append.mp h with hfirst | hrest
    · refine ⟨f, List.mem_cons_self, ?_⟩
      rw [arrive] at hfirst
      split at hfirst
      · exact recvFinishCalls_length hfirst
      · exact absurd hfirst List.not_mem_nil
    · obtain ⟨g, hg, hlength⟩ := ih hrest
      exact ⟨g, List.mem_cons_of_mem f hg, hlength⟩

/-- No frame can say how long a message of 64 KiB is. -/
theorem not_reassembles (hdata : 2 ^ 16 ≤ data.length) : ¬ Reassembles malloc v s data := by
  intro hall
  have hcalls := (hall (sentFrom v s data) fun _ => Iff.rfl).1
  have hcall : (v.service, data) ∈ (arriveAll malloc s (sentFrom v s data)).2 := by
    rw [hcalls]
    exact List.mem_singleton_self _
  obtain ⟨f, hf, hlength⟩ := arriveAll_length hcall
  have hlt := sentFrom_parameter hf
  rw [← hlength] at hlt
  exact absurd hlt (Nat.not_lt.mpr hdata)

/-- A message that `rt_link_send` splits into long frames is reassembled from them, in any order
and with any duplicates, exactly when it is not longer than the frames of the limit can hold. -/
theorem link_reassembles {data : List Byte} (hmemory : ∀ n, 0 < n → (malloc n).isSome)
    (hseq : s.rxSeq < 2 ^ 8) (hempty : s.longCount = 0)
    (hlong : 1 < Fragments.sendTotal data.length)
    (hlimit : Fragments.sendTotal data.length ≤ framesMax) :
    Reassembles malloc v s data ↔ data.length ≤ maxDataLength * framesMax := by
  have hpos : 0 < data.length := by
    by_contra hzero
    rw [Nat.eq_zero_of_not_pos hzero] at hlong
    exact absurd hlong (by decide)
  rw [Fragments.sendTotal_eq] at hlong hlimit
  obtain ⟨hlow, hhigh⟩ := frameCount_bounds hpos
  rw [framesMax] at hlimit
  constructor
  · intro h
    by_contra hover
    refine not_reassembles ?_ h
    rw [maxDataLength] at hlow hhigh
    rw [maxDataLength, framesMax] at hover
    omega
  · intro hshort
    have hmax : frameCount data.length ≤ framesMax := by
      rw [maxDataLength] at hlow
      rw [maxDataLength] at hshort
      rw [framesMax] at hshort ⊢
      omega
    rw [Nat.mod_eq_of_lt (Nat.lt_of_le_of_lt hmax (by decide))] at hlong
    exact reassembles_of_short (m := ⟨s.rxSeq, data⟩) hmemory rfl hseq hempty hlong hmax
      (sentFrom_eq rfl hseq hlong hmax)

/-- Two frames whose numbers wrap round. -/
theorem link_reassembles_two :
    Reassembles (fun _ => some fun _ => 0) ⟨1, true, true⟩ { idleSession with rxSeq := 255 }
      (List.replicate 2000 7) := by
  have hdata : (List.replicate 2000 (7 : Byte)).length = 2000 := List.length_replicate
  generalize List.replicate 2000 (7 : Byte) = data at hdata
  refine (link_reassembles (fun _ _ => rfl) (by decide) rfl ?_ ?_).mpr ?_
  · rw [hdata]
    decide
  · rw [hdata]
    decide
  · rw [hdata]
    decide

/-- A message of 258 full frames is queued as two. -/
theorem link_not_reassembled :
    (Fragments.sendTotal (List.replicate 261096 (7 : Byte)).length = 2) ∧
      ¬ Reassembles (fun _ => some fun _ => 0) ⟨1, true, true⟩ idleSession
        (List.replicate 261096 7) := by
  have hdata : (List.replicate 261096 (7 : Byte)).length = 261096 := List.length_replicate
  generalize List.replicate 261096 (7 : Byte) = data at hdata
  constructor
  · rw [hdata]
    decide
  · refine not_reassembles ?_
    rw [hdata]
    decide

end record

end RtThread.RtLink
