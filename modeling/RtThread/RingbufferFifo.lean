import RtThread.Ringbuffer
import RtThread.Lib.Cyclic
import Mathlib.Data.List.DropRight
import Mathlib.Data.List.GetD

/-!
# Ring buffers are bounded queues of bytes

`Spans rb d` says how the indices and the mirrors of a ring buffer enclose `d`
bytes: the write index is `d` places behind the read index, and it is in the other
mirror exactly when it has gone round the end of the buffer. Every call either moves
the read index over a number of bytes (`skip`) or writes bytes behind the last one
(`write`), and a forced write skips first what it overwrites.
-/
namespace RtThread.Ringbuffer

variable {rb : RtRingbuffer} {d k : Nat} {q data : List Byte}

/-- The indices enclose `d` bytes. -/
structure Spans (rb : RtRingbuffer) (d : Nat) : Prop where
  size_le : rb.bufferSize ≤ 32767
  read_lt : rb.readIndex < rb.bufferSize
  write_lt : rb.writeIndex < rb.bufferSize
  le_size : d ≤ rb.bufferSize
  same : rb.readMirror = rb.writeMirror → rb.writeIndex = rb.readIndex + d
  other : rb.readMirror ≠ rb.writeMirror → rb.writeIndex + rb.bufferSize = rb.readIndex + d

theorem Spans.dataLen_eq (h : Spans rb d) : dataLen rb = d := by
  unfold dataLen rtRingbufferStatus
  by_cases hm : rb.readMirror = rb.writeMirror
  · have hd := h.same hm
    by_cases hi : rb.readIndex = rb.writeIndex
    · simp only [hi, hm, if_true]
      omega
    · simp only [hi, if_false, if_pos (show rb.readIndex < rb.writeIndex by omega)]
      omega
  · have hd := h.other hm
    have hle := h.le_size
    by_cases hi : rb.readIndex = rb.writeIndex
    · simp only [hi, hm, if_true, if_false]
      omega
    · simp only [hi, if_false, if_neg (show ¬ rb.readIndex < rb.writeIndex by omega)]
      omega

theorem Spans.spaceLen_eq (h : Spans rb d) : spaceLen rb = rb.bufferSize - d := by
  rw [spaceLen, h.dataLen_eq]

theorem Spans.writeIndex_eq (h : Spans rb d) :
    rb.writeIndex = (rb.readIndex + d) % rb.bufferSize := by
  have hw := h.write_lt
  by_cases hm : rb.readMirror = rb.writeMirror
  · rw [← h.same hm, Nat.mod_eq_of_lt hw]
  · rw [← h.other hm, Nat.add_mod_right, Nat.mod_eq_of_lt hw]

/-- The moving on of the read index over `k` bytes. -/
def skip (rb : RtRingbuffer) (k : Nat) : RtRingbuffer :=
  if k < rb.bufferSize - rb.readIndex then { rb with readIndex := rb.readIndex + k }
  else
    { rb with
      readMirror := !rb.readMirror
      readIndex := k - (rb.bufferSize - rb.readIndex) }

@[simp] theorem skip_buffer : (skip rb k).buffer = rb.buffer := by
  unfold skip
  split <;> rfl

@[simp] theorem skip_bufferSize : (skip rb k).bufferSize = rb.bufferSize := by
  unfold skip
  split <;> rfl

theorem bool_not_eq_iff {a b : Bool} : (!a) = b ↔ a ≠ b := by
  cases a <;> cases b <;> decide

theorem Spans.skip (h : Spans rb d) (hk : k ≤ d) : Spans (skip rb k) (d - k) := by
  obtain ⟨hn, hr, hw, hd, hs, ho⟩ := h
  by_cases hm : rb.readMirror = rb.writeMirror
  · have := hs hm
    unfold Ringbuffer.skip
    rw [if_pos (by omega)]
    exact ⟨hn, by dsimp only; omega, hw, by dsimp only; omega, fun _ => by dsimp only; omega,
      fun hne => absurd hm hne⟩
  · have := ho hm
    unfold Ringbuffer.skip
    split
    · exact ⟨hn, by dsimp only; omega, hw, by dsimp only; omega, fun heq => absurd heq hm,
        fun _ => by dsimp only; omega⟩
    · refine ⟨hn, by dsimp only; omega, hw, by dsimp only; omega, fun _ => by dsimp only; omega,
        fun hne => absurd (bool_not_eq_iff.mpr hm) hne⟩

theorem Spans.skip_readIndex (h : Spans rb d) (hk : k ≤ d) :
    (Ringbuffer.skip rb k).readIndex = (rb.readIndex + k) % rb.bufferSize := by
  have hr := h.read_lt
  have hd := h.le_size
  unfold Ringbuffer.skip
  split
  · rw [Nat.mod_eq_of_lt (by omega)]
  · dsimp only
    rw [Nat.mod_eq_sub_mod (by omega), Nat.mod_eq_of_lt (by omega)]
    omega

/-! ## Writing -/

variable {buffer : Nat → Byte} {i n len off : Nat}

theorem copyTo_of_lt (h : i < off) : copyTo buffer off data i = buffer i := if_neg (by omega)

theorem copyTo_of_le (h : off + data.length ≤ i) : copyTo buffer off data i = buffer i := by
  rw [copyTo, if_pos (by omega), List.getD_eq_default _ _ (by omega)]

theorem copyTo_new (h : i < data.length) : copyTo buffer off data (off + i) = data[i] := by
  rw [copyTo, if_pos (by omega), Nat.add_sub_cancel_left, List.getD_eq_getElem _ _ h]

theorem write_buffer_of_lt (h : data.length < rb.bufferSize - rb.writeIndex) :
    (write rb data).buffer = copyTo rb.buffer rb.writeIndex data := by
  simp only [write, if_pos h]

theorem write_buffer_of_le (h : ¬ data.length < rb.bufferSize - rb.writeIndex) :
    (write rb data).buffer =
      copyTo (copyTo rb.buffer rb.writeIndex (data.take (rb.bufferSize - rb.writeIndex))) 0
        (data.drop (rb.bufferSize - rb.writeIndex)) := by
  simp only [write, if_neg h]

/-- The place of a cell behind the write index, before or after the end of the buffer. -/
theorem writeIndex_add_mod (hw : rb.writeIndex < rb.bufferSize) (hi : i < rb.bufferSize) :
    (rb.writeIndex + i < rb.bufferSize ∧
      (rb.writeIndex + i) % rb.bufferSize = rb.writeIndex + i) ∨
    (rb.bufferSize ≤ rb.writeIndex + i ∧
      (rb.writeIndex + i) % rb.bufferSize = 0 + (i - (rb.bufferSize - rb.writeIndex))) := by
  by_cases hend : rb.writeIndex + i < rb.bufferSize
  · exact .inl ⟨hend, Nat.mod_eq_of_lt hend⟩
  · refine .inr ⟨by omega, ?_⟩
    rw [Nat.mod_eq_sub_mod (by omega), Nat.mod_eq_of_lt (by omega)]
    omega

/-- Both copies of a write, seen as one cyclic write. -/
theorem written_write (hw : rb.writeIndex < rb.bufferSize) (hdata : data.length ≤ rb.bufferSize) :
    Cyclic.Written rb.buffer (write rb data).buffer rb.bufferSize rb.writeIndex data := by
  by_cases hlt : data.length < rb.bufferSize - rb.writeIndex
  · rw [write_buffer_of_lt hlt]
    constructor
    · intro i hi
      rw [Nat.mod_eq_of_lt (by omega)]
      exact copyTo_new hi
    · intro i hi hn
      obtain ⟨hend, hmod⟩ | ⟨hend, hmod⟩ := writeIndex_add_mod hw hn
      · exact copyTo_of_le (by omega)
      · exact copyTo_of_lt (by omega)
  · rw [write_buffer_of_le hlt]
    have htake : (data.take (rb.bufferSize - rb.writeIndex)).length =
        rb.bufferSize - rb.writeIndex := by
      rw [List.length_take]
      omega
    have hdrop : (data.drop (rb.bufferSize - rb.writeIndex)).length =
        data.length - (rb.bufferSize - rb.writeIndex) := List.length_drop
    constructor
    · intro i hi
      obtain ⟨hend, hmod⟩ | ⟨hend, hmod⟩ := writeIndex_add_mod hw (by omega : i < rb.bufferSize)
      · rw [hmod, copyTo_of_le (by omega), copyTo_new (by omega), List.getElem_take]
      · rw [hmod, copyTo_new (by omega), List.getElem_drop]
        congr 1
        omega
    · intro i hi hn
      obtain ⟨hend, hmod⟩ | ⟨hend, hmod⟩ := writeIndex_add_mod hw hn
      · omega
      · rw [hmod, copyTo_of_le (by omega), copyTo_of_lt (by omega)]

theorem write_bufferSize : (write rb data).bufferSize = rb.bufferSize := by
  unfold write
  dsimp only
  split <;> rfl

theorem write_readIndex : (write rb data).readIndex = rb.readIndex := by
  unfold write
  dsimp only
  split <;> rfl

theorem Spans.write (h : Spans rb d) (hdata : d + data.length ≤ rb.bufferSize) :
    Spans (write rb data) (d + data.length) := by
  obtain ⟨hn, hr, hw, hd, hs, ho⟩ := h
  unfold Ringbuffer.write
  dsimp only
  split
  · rw [wadd_eq (by omega)]
    refine ⟨hn, hr, by dsimp only; omega, hdata, fun hm => ?_, fun hm => ?_⟩
    · have := hs hm
      dsimp only
      omega
    · have := ho hm
      dsimp only
      omega
  · have hm : rb.readMirror = rb.writeMirror := by
      by_contra hne
      have := ho hne
      omega
    have := hs hm
    refine ⟨hn, hr, by dsimp only; omega, hdata, fun hm' => ?_, fun _ => by dsimp only; omega⟩
    exact absurd hm.symm (bool_not_eq_iff.mp hm'.symm)

/-! ## The bytes of a ring buffer -/

/-- The bytes from the read index on. -/
def contents (rb : RtRingbuffer) : List Byte :=
  Cyclic.window rb.buffer rb.bufferSize rb.readIndex (dataLen rb)

/-- The ring buffer holds the bytes `q`. -/
structure Holds (rb : RtRingbuffer) (q : List Byte) : Prop extends Spans rb q.length where
  bytes : Cyclic.window rb.buffer rb.bufferSize rb.readIndex q.length = q

theorem Holds.contents_eq (h : Holds rb q) : contents rb = q := by
  rw [contents, h.dataLen_eq, h.bytes]

theorem Holds.skip (h : Holds rb q) (hk : k ≤ q.length) :
    Holds (Ringbuffer.skip rb k) (q.drop k) := by
  have hspans := h.toSpans.skip hk
  rw [← List.length_drop] at hspans
  refine ⟨hspans, ?_⟩
  rw [h.toSpans.skip_readIndex hk, skip_buffer, skip_bufferSize, Cyclic.window_mod,
    List.length_drop, ← Cyclic.window_drop hk, h.bytes]

theorem Holds.write (h : Holds rb q) (hdata : q.length + data.length ≤ rb.bufferSize) :
    Holds (Ringbuffer.write rb data) (q ++ data) := by
  have hspans := h.toSpans.write hdata
  rw [← List.length_append] at hspans
  refine ⟨hspans, ?_⟩
  have hw := written_write h.write_lt (show data.length ≤ rb.bufferSize by omega)
  rw [h.writeIndex_eq] at hw
  rw [write_bufferSize, write_readIndex, List.length_append, hw.mod.window_append hdata, h.bytes]

/-! ## The calls -/

theorem put_spec (h : Holds rb q) (data : List Byte) :
    Holds (put rb data).1 (q ++ data.take (rb.bufferSize - q.length)) ∧
      (put rb data).2 = min data.length (rb.bufferSize - q.length) := by
  unfold put
  dsimp only
  rw [h.spaceLen_eq]
  split
  case isTrue hzero =>
    rw [hzero, List.take_zero, List.append_nil, Nat.min_zero]
    exact ⟨h, rfl⟩
  case isFalse hpos =>
    split
    · refine ⟨h.write ?_, by dsimp only; omega⟩
      rw [List.length_take]
      omega
    · rw [List.take_length, List.take_of_length_le (by omega)]
      exact ⟨h.write (by omega), by dsimp only; omega⟩

theorem copyFrom_eq_window (h : off + len ≤ n) :
    copyFrom buffer off len = Cyclic.window buffer n off len := by
  refine List.map_congr_left fun i hi => ?_
  have := List.mem_range.mp hi
  rw [Nat.mod_eq_of_lt (by omega)]

/-- Both copies of a read, seen as one cyclic read. -/
theorem copyFrom_append (hoff : off < n) (h : n - off ≤ len) (hlen : len ≤ n) :
    copyFrom buffer off (n - off) ++ copyFrom buffer 0 (len - (n - off)) =
      Cyclic.window buffer n off len := by
  obtain ⟨m, rfl⟩ := Nat.exists_eq_add_of_le h
  rw [Nat.add_sub_cancel_left, copyFrom_eq_window (by omega : off + (n - off) ≤ n),
    copyFrom_eq_window (by omega : 0 + m ≤ n), Cyclic.window_add,
    show off + (n - off) = n by omega, ← @Cyclic.window_mod _ buffer n n m, Nat.mod_self]

theorem get_spec (h : Holds rb q) (length : Nat) :
    Holds (get rb length).1 (q.drop length) ∧ (get rb length).2 = q.take length := by
  have hr := h.read_lt
  have hn := h.size_le
  have hd := h.le_size
  unfold get
  dsimp only
  rw [h.dataLen_eq]
  split
  case isTrue hzero =>
    obtain rfl := List.length_eq_zero_iff.mp hzero
    rw [List.drop_nil, List.take_nil]
    exact ⟨h, rfl⟩
  case isFalse hpos =>
    have hlen : (if q.length < length then q.length else length) = min length q.length := by
      split <;> omega
    rw [hlen, List.drop_eq_drop_min, List.take_eq_take_min]
    generalize hk : min length q.length = k
    have hkq : k ≤ q.length := by omega
    have hskip := h.skip hkq
    have htake : q.take k = Cyclic.window rb.buffer rb.bufferSize rb.readIndex k := by
      rw [← Cyclic.window_take hkq, h.bytes]
    unfold Ringbuffer.skip at hskip
    rw [htake]
    split
    case isTrue hlt =>
      rw [if_pos hlt] at hskip
      rw [wadd_eq (by omega)]
      exact ⟨hskip, copyFrom_eq_window (by omega)⟩
    case isFalse hge =>
      rw [if_neg hge] at hskip
      rw [Nat.mod_eq_of_lt (by omega)]
      exact ⟨hskip, copyFrom_append hr (by omega) (by omega)⟩

/-- The bytes that a peak removes: the data, up to the end of the buffer. -/
def peakLen (rb : RtRingbuffer) : Nat := min (dataLen rb) (rb.bufferSize - rb.readIndex)

theorem peak_spec (h : Holds rb q) :
    Holds (peak rb).1 (q.drop (peakLen rb)) ∧ (peak rb).2.2 = peakLen rb ∧
      peaked rb = q.take (peakLen rb) := by
  have hr := h.read_lt
  have hn := h.size_le
  unfold peakLen peaked peak
  dsimp only
  rw [h.dataLen_eq]
  split
  case isTrue hzero =>
    obtain rfl := List.length_eq_zero_iff.mp hzero
    exact ⟨h, by simp, rfl⟩
  case isFalse hpos =>
    have hskip := h.skip (show min q.length (rb.bufferSize - rb.readIndex) ≤ q.length by omega)
    have htake : q.take (min q.length (rb.bufferSize - rb.readIndex)) =
        Cyclic.window rb.buffer rb.bufferSize rb.readIndex
          (min q.length (rb.bufferSize - rb.readIndex)) := by
      rw [← Cyclic.window_take (Nat.min_le_left _ _), h.bytes]
    unfold Ringbuffer.skip at hskip
    rw [htake]
    split
    case isTrue hlt =>
      rw [Nat.min_eq_left (by omega)] at hskip ⊢
      rw [if_pos hlt] at hskip
      rw [wadd_eq (by omega)]
      exact ⟨hskip, rfl, copyFrom_eq_window (by omega)⟩
    case isFalse hge =>
      rw [Nat.min_eq_right (by omega)] at hskip ⊢
      rw [if_neg (by omega), Nat.sub_self] at hskip
      exact ⟨hskip, rfl, copyFrom_eq_window (by omega)⟩

/-! ### Forced writes -/

/-- A forced write of at most a whole buffer that does not fit first skips what it overwrites. -/
theorem putForce_overflow (h : Spans rb d) (hle : data.length ≤ rb.bufferSize)
    (hover : rb.bufferSize - d < data.length) :
    putForce rb data = (write (skip rb (d + data.length - rb.bufferSize)) data, data.length) := by
  have hspace := h.spaceLen_eq
  obtain ⟨hn, hr, hw, hd, hs, ho⟩ := h
  unfold putForce
  rw [hspace, if_neg (show ¬ rb.bufferSize < data.length by omega)]
  simp only [if_pos hover]
  split
  case isTrue hlt =>
    have hm : rb.readMirror ≠ rb.writeMirror := by
      intro hm
      have := hs hm
      omega
    have := ho hm
    have hk : rb.readIndex + (d + data.length - rb.bufferSize) = rb.writeIndex + data.length := by
      omega
    have hskip : skip rb (d + data.length - rb.bufferSize) =
        { rb with readIndex := rb.writeIndex + data.length } := by
      rw [skip, if_pos (by omega), hk]
    rw [hskip]
    simp only [write, if_pos hlt]
    rw [wadd_eq (by omega)]
  case isFalse hge =>
    by_cases hm : rb.readMirror = rb.writeMirror
    · have := hs hm
      have hk : rb.readIndex + (d + data.length - rb.bufferSize) =
          data.length - (rb.bufferSize - rb.writeIndex) := by
        omega
      have hskip : skip rb (d + data.length - rb.bufferSize) =
          { rb with readIndex := data.length - (rb.bufferSize - rb.writeIndex) } := by
        rw [skip, if_pos (by omega), hk]
      rw [hskip]
      simp only [write, if_neg hge]
      rw [Nat.mod_eq_of_lt (by omega), if_neg (by omega)]
    · have := ho hm
      have hk : d + data.length - rb.bufferSize - (rb.bufferSize - rb.readIndex) =
          data.length - (rb.bufferSize - rb.writeIndex) := by
        omega
      have hskip : skip rb (d + data.length - rb.bufferSize) =
          { rb with
            readMirror := !rb.readMirror
            readIndex := data.length - (rb.bufferSize - rb.writeIndex) } := by
        rw [skip, if_neg (by omega), hk]
      rw [hskip]
      simp only [write, if_neg hge]
      rw [Nat.mod_eq_of_lt (by omega), if_pos (by omega)]

theorem putForce_fits (h : Spans rb d) (hfits : data.length ≤ rb.bufferSize - d) :
    putForce rb data = (write rb data, data.length) := by
  unfold putForce
  rw [h.spaceLen_eq, if_neg (show ¬ rb.bufferSize < data.length by omega)]
  simp only [if_neg (show ¬ rb.bufferSize - d < data.length by omega), ite_self]

theorem putForce_rtake (h : rb.bufferSize < data.length) :
    putForce rb data = putForce rb (data.rtake rb.bufferSize) := by
  have hlen : (data.rtake rb.bufferSize).length = rb.bufferSize := by
    rw [List.rtake, List.length_drop]
    omega
  unfold putForce
  rw [if_pos h, hlen, if_neg (Nat.lt_irrefl _)]
  rfl

theorem rtake_append (q data : List Byte) (h : data.length ≤ n) :
    (q ++ data).rtake n = q.drop (q.length + data.length - n) ++ data := by
  rw [List.rtake, List.length_append, List.drop_append_of_le_length (by omega)]

theorem rtake_append_rtake (q data : List Byte) (h : n < data.length) :
    (q ++ data.rtake n).rtake n = (q ++ data).rtake n := by
  have hlen : (data.rtake n).length = n := by
    rw [List.rtake, List.length_drop]
    omega
  have hq : (q ++ data).rtake n = data.rtake n := by
    rw [List.rtake, List.length_append, List.drop_append, List.drop_eq_nil_of_le (by omega),
      List.nil_append, List.rtake]
    congr 1
    omega
  rw [hq, rtake_append _ _ hlen.le, hlen, List.drop_eq_nil_of_le (by omega), List.nil_append]

theorem putForce_short (h : Holds rb q) (hle : data.length ≤ rb.bufferSize) :
    Holds (putForce rb data).1 ((q ++ data).rtake rb.bufferSize) ∧
      (putForce rb data).2 = data.length := by
  have hd := h.le_size
  rw [rtake_append _ _ hle]
  by_cases hover : rb.bufferSize - q.length < data.length
  · rw [putForce_overflow h.toSpans hle hover]
    refine ⟨(h.skip (by omega)).write ?_, rfl⟩
    rw [List.length_drop, skip_bufferSize]
    omega
  · rw [putForce_fits h.toSpans (by omega),
      show q.length + data.length - rb.bufferSize = 0 by omega]
    exact ⟨h.write (by omega), rfl⟩

/-- A forced write leaves the newest bytes. -/
theorem putForce_spec (h : Holds rb q) (data : List Byte) :
    Holds (putForce rb data).1 ((q ++ data).rtake rb.bufferSize) ∧
      (putForce rb data).2 = min data.length rb.bufferSize := by
  by_cases hle : data.length ≤ rb.bufferSize
  · rw [Nat.min_eq_left hle]
    exact putForce_short h hle
  · have hlen : (data.rtake rb.bufferSize).length = rb.bufferSize := by
      rw [List.rtake, List.length_drop]
      omega
    rw [putForce_rtake (by omega), ← rtake_append_rtake _ _ (by omega),
      Nat.min_eq_right (by omega)]
    obtain ⟨hholds, hsize⟩ := putForce_short h hlen.le
    exact ⟨hholds, hsize.trans hlen⟩

/-! ### Single bytes -/

theorem copyTo_single (buffer : Nat → Byte) (off : Nat) (ch : Byte) :
    copyTo buffer off [ch] = Function.update buffer off ch := by
  funext i
  by_cases hi : i = off
  · subst hi
    simp [copyTo]
  · rw [Function.update_of_ne hi]
    obtain hlt | hgt := Nat.lt_or_gt_of_ne hi
    · exact copyTo_of_lt hlt
    · exact copyTo_of_le (by simp only [List.length_singleton]; omega)

theorem copyTo_nil (buffer : Nat → Byte) (off : Nat) : copyTo buffer off [] = buffer := by
  funext i
  simp [copyTo]

theorem write_single (hw : rb.writeIndex < rb.bufferSize) (ch : Byte) :
    write rb [ch] =
      if rb.writeIndex + 1 = rb.bufferSize then
        { rb with
          buffer := Function.update rb.buffer rb.writeIndex ch
          writeMirror := !rb.writeMirror
          writeIndex := 0 }
      else
        { rb with
          buffer := Function.update rb.buffer rb.writeIndex ch
          writeIndex := wadd 15 rb.writeIndex 1 } := by
  unfold write
  rw [List.length_singleton]
  by_cases hend : rb.writeIndex + 1 = rb.bufferSize
  · have hrest : rb.bufferSize - rb.writeIndex = 1 := by omega
    rw [if_pos hend, hrest, if_neg (Nat.lt_irrefl 1)]
    simp only [List.take_succ_cons, List.take_zero, List.drop_succ_cons, List.drop_zero,
      copyTo_single, copyTo_nil, Nat.sub_self, Nat.zero_mod]
  · rw [if_neg hend, if_pos (by omega), copyTo_single]

/-- Writing one byte is writing a block of one byte. -/
theorem putchar_eq (h : Spans rb d) (ch : Byte) : putchar rb ch = put rb [ch] := by
  unfold putchar put
  dsimp only
  rw [h.spaceLen_eq]
  split
  · rfl
  case isFalse hpos =>
    have hroom : ¬ rb.bufferSize - d < [ch].length := by
      rw [List.length_singleton]
      omega
    rw [if_neg hroom, List.take_length, write_single h.write_lt]
    split <;> rfl

theorem status_full (h : Spans rb d) :
    rtRingbufferStatus rb = .full ↔ rb.bufferSize - d < 1 := by
  obtain ⟨hn, hr, hw, hd, hs, ho⟩ := h
  unfold rtRingbufferStatus
  by_cases hm : rb.readMirror = rb.writeMirror
  · have := hs hm
    split <;> simp <;> omega
  · have := ho hm
    split
    · simp
      omega
    · simp
      omega

theorem putcharForce_eq (h : Spans rb d) (ch : Byte) : putcharForce rb ch = putForce rb [ch] := by
  have hw := h.write_lt
  unfold putcharForce putForce
  dsimp only
  rw [if_neg (show ¬ rb.bufferSize < [ch].length by rw [List.length_singleton]; omega),
    List.length_singleton, h.spaceLen_eq, write_single hw]
  by_cases hend : rb.writeIndex + 1 = rb.bufferSize
  · simp only [if_pos hend, if_neg (show ¬ 1 < rb.bufferSize - rb.writeIndex by omega),
      status_full h, Nat.zero_le, if_true]
  · simp only [if_neg hend, if_pos (show 1 < rb.bufferSize - rb.writeIndex by omega),
      status_full h]

/-- Reading one byte is reading a block of one byte. -/
theorem getchar_eq (h : Spans rb d) :
    (getchar rb).1 = (get rb 1).1 ∧ (getchar rb).2.toList = (get rb 1).2 := by
  have hr := h.read_lt
  unfold getchar get
  dsimp only
  split
  · exact ⟨rfl, rfl⟩
  case isFalse hpos =>
    rw [if_neg (show ¬ dataLen rb < 1 by omega)]
    by_cases hend : rb.readIndex + 1 = rb.bufferSize
    · have hrest : rb.bufferSize - rb.readIndex = 1 := by omega
      rw [if_pos hend, hrest, if_neg (Nat.lt_irrefl 1)]
      exact ⟨rfl, rfl⟩
    · rw [if_neg hend, if_pos (by omega)]
      exact ⟨rfl, rfl⟩

/-! ## The bounded queue -/

/-- A call on a queue of at most `n` bytes that holds `q`: it leaves `q'` and gives `out`. -/
def Fifo.Step (n : Nat) (q : List Byte) (op : Op) (q' : List Byte) (out : Out) : Prop :=
  match op with
  | .put data =>
    q' = q ++ data.take (n - q.length) ∧ out = ⟨min data.length (n - q.length), []⟩
  | .putForce data => q' = (q ++ data).rtake n ∧ out = ⟨min data.length n, []⟩
  | .get length => q' = q.drop length ∧ out = ⟨min length q.length, q.take length⟩
  | .peak =>
    q' = q.drop out.size ∧ out.bytes = q.take out.size ∧ out.size ≤ q.length ∧
      (q ≠ [] → 0 < out.size)
  | .putchar ch => q' = q ++ [ch].take (n - q.length) ∧ out = ⟨min 1 (n - q.length), []⟩
  | .putcharForce ch => q' = (q ++ [ch]).rtake n ∧ out = ⟨1, []⟩
  | .getchar => q' = q.drop 1 ∧ out = ⟨min 1 q.length, q.take 1⟩
  | .reset => q' = [] ∧ out = ⟨0, []⟩

inductive Fifo.Transitions (n : Nat) : List Byte → List Op → List Out → List Byte → Prop
  | nil (q : List Byte) : Transitions n q [] [] q
  | cons {q q' q'' : List Byte} {op : Op} {ops : List Op} {out : Out} {outs : List Out} :
      Fifo.Step n q op q' out → Transitions n q' ops outs q'' →
      Transitions n q (op :: ops) (out :: outs) q''

theorem put_bufferSize : (put rb data).1.bufferSize = rb.bufferSize := by
  unfold put
  dsimp only
  split
  · rfl
  · exact write_bufferSize

theorem putForce_bufferSize : (putForce rb data).1.bufferSize = rb.bufferSize := by
  unfold putForce
  dsimp only
  generalize (if rb.bufferSize < data.length then data.drop (data.length - rb.bufferSize)
    else data) = l
  split <;> dsimp only <;> split <;> exact write_bufferSize

theorem get_bufferSize : (get rb k).1.bufferSize = rb.bufferSize := by
  unfold get
  dsimp only
  generalize (if dataLen rb < k then dataLen rb else k) = m
  split
  · rfl
  · split <;> rfl

theorem peak_bufferSize : (peak rb).1.bufferSize = rb.bufferSize := by
  unfold peak
  dsimp only
  split
  · rfl
  · split <;> rfl

theorem call_bufferSize (h : Spans rb d) (op : Op) :
    (call rb op).1.bufferSize = rb.bufferSize := by
  cases op with
  | put data => exact put_bufferSize
  | putForce data => exact putForce_bufferSize
  | get length => exact get_bufferSize
  | peak => exact peak_bufferSize
  | putchar ch =>
    rw [call, putchar_eq h]
    exact put_bufferSize
  | putcharForce ch =>
    rw [call, putcharForce_eq h]
    exact putForce_bufferSize
  | getchar =>
    rw [call, (getchar_eq h).1]
    exact get_bufferSize
  | reset => rfl

/-- A buffer whose indices are at its start is empty. -/
theorem holds_nil (hn : rb.bufferSize ≤ 32767) (hpos : 0 < rb.bufferSize)
    (hm : rb.readMirror = rb.writeMirror) (hr : rb.readIndex = 0) (hw : rb.writeIndex = 0) :
    Holds rb [] where
  size_le := hn
  read_lt := by omega
  write_lt := by omega
  le_size := Nat.zero_le _
  same _ := by
    rw [hr, hw]
    rfl
  other hne := absurd hm hne
  bytes := rfl

/-- Every call is a call on the bounded queue. -/
theorem call_spec (h : Holds rb q) (op : Op) :
    ∃ q', Holds (call rb op).1 q' ∧ Fifo.Step rb.bufferSize q op q' (call rb op).2 := by
  have hr := h.read_lt
  cases op with
  | put data =>
    obtain ⟨hholds, hsize⟩ := put_spec h data
    exact ⟨_, hholds, rfl, by rw [call, hsize]⟩
  | putForce data =>
    obtain ⟨hholds, hsize⟩ := putForce_spec h data
    exact ⟨_, hholds, rfl, by rw [call, hsize]⟩
  | get length =>
    obtain ⟨hholds, hbytes⟩ := get_spec h length
    exact ⟨_, hholds, rfl, by rw [call, hbytes, List.length_take]⟩
  | peak =>
    obtain ⟨hholds, hsize, hbytes⟩ := peak_spec h
    refine ⟨_, hholds, ?_⟩
    rw [call]
    refine ⟨by rw [hsize], by rw [hsize, hbytes], ?_, fun hne => ?_⟩
    · rw [hsize, peakLen, h.dataLen_eq]
      exact Nat.min_le_left _ _
    · have := List.length_pos_iff.mpr hne
      rw [hsize, peakLen, h.dataLen_eq]
      dsimp only
      omega
  | putchar ch =>
    obtain ⟨hholds, hsize⟩ := put_spec h [ch]
    rw [call, putchar_eq h.toSpans]
    exact ⟨_, hholds, rfl, by rw [hsize, List.length_singleton]⟩
  | putcharForce ch =>
    obtain ⟨hholds, hsize⟩ := putForce_spec h [ch]
    rw [call, putcharForce_eq h.toSpans]
    refine ⟨_, hholds, rfl, ?_⟩
    rw [hsize, List.length_singleton, Nat.min_eq_left (by omega)]
  | getchar =>
    obtain ⟨hholds, hbytes⟩ := get_spec h 1
    obtain ⟨hrb, hch⟩ := getchar_eq h.toSpans
    rw [call, hrb, hch]
    exact ⟨_, hholds, rfl, by rw [hbytes, List.length_take]⟩
  | reset =>
    have hpos : 0 < rb.bufferSize := by omega
    exact ⟨[], holds_nil h.size_le hpos rfl rfl rfl, rfl, rfl⟩

/-- Every sequence of calls is a sequence of calls on the bounded queue. -/
theorem run_spec (h : Holds rb q) (ops : List Op) :
    ∃ q', Holds (run rb ops).1 q' ∧ (run rb ops).1.bufferSize = rb.bufferSize ∧
      Fifo.Transitions rb.bufferSize q ops (run rb ops).2 q' := by
  induction ops generalizing rb q with
  | nil => exact ⟨q, h, rfl, .nil q⟩
  | cons op ops ih =>
    obtain ⟨q₁, h₁, hstep⟩ := call_spec h op
    have hn := call_bufferSize h.toSpans op
    obtain ⟨q₂, h₂, hn₂, hrest⟩ := ih h₁
    rw [hn] at hn₂ hrest
    exact ⟨q₂, h₂, hn₂, .cons hstep hrest⟩

theorem Spans.mirror_iff (h : Spans rb d) :
    rb.readMirror = rb.writeMirror ↔ rb.readIndex + d < rb.bufferSize := by
  have hw := h.write_lt
  constructor
  · intro hm
    rw [← h.same hm]
    exact hw
  · intro hlt
    by_contra hm
    have := h.other hm
    omega

theorem rtRingbufferInit_holds {align size : Nat} (pool : Nat → Byte) (hsize : size ≤ 32767)
    (hpos : 0 < rtAlignDown size align) : Holds (rtRingbufferInit align pool size) [] :=
  holds_nil ((Nat.div_mul_le_self size align).trans hsize) hpos rfl rfl rfl

/-- A ring buffer is a bounded queue of bytes: whatever calls were made, its bytes lie between its
indices, and the next call does with them what a call on the queue does. -/
theorem ringbuffer_refines_fifo {align size : Nat} (pool : Nat → Byte) (hsize : size ≤ 32767)
    (hpos : 0 < rtAlignDown size align) (ops : List Op) :
    let r := run (rtRingbufferInit align pool size) ops
    let n := rtAlignDown size align
    r.1.bufferSize = n ∧ (contents r.1).length = dataLen r.1 ∧ dataLen r.1 ≤ n ∧
      spaceLen r.1 + dataLen r.1 = n ∧
      r.1.writeIndex = (r.1.readIndex + dataLen r.1) % n ∧
      (r.1.readMirror = r.1.writeMirror ↔ r.1.readIndex + dataLen r.1 < n) ∧
      Fifo.Transitions n [] ops r.2 (contents r.1) ∧
      ∀ op, Fifo.Step n (contents r.1) op (contents (call r.1 op).1) (call r.1 op).2 := by
  intro r n
  obtain ⟨q, hq, hn, htrans⟩ := run_spec (rtRingbufferInit_holds pool hsize hpos) ops
  replace hn : r.1.bufferSize = n := hn
  have hlen := hq.dataLen_eq
  have hle := hq.le_size
  rw [hn] at hle
  refine ⟨hn, Cyclic.length_window, by rw [hlen]; exact hle, ?_, ?_, ?_, ?_, fun op => ?_⟩
  · rw [hq.spaceLen_eq, hlen, hn]
    exact Nat.sub_add_cancel hle
  · rw [hlen, ← hn]
    exact hq.writeIndex_eq
  · rw [hlen, ← hn]
    exact hq.mirror_iff
  · rw [hq.contents_eq]
    exact htrans
  · obtain ⟨q', hq', hstep⟩ := call_spec hq op
    rw [hq.contents_eq, hq'.contents_eq, ← hn]
    exact hstep

/-- A forced write that overruns a ring buffer, and a peak up to its end. -/
def overrun : List Op :=
  [.put [1, 2, 3, 4, 5, 6], .get 4, .putForce [7, 8, 9, 10, 11, 12, 13], .peak]

/-- The same in a buffer of ten bytes, of which eight are used. -/
theorem ringbuffer_refines_fifo_ten :
    let rb := (run (rtRingbufferInit 4 (fun _ => 0) 10) overrun).1
    contents rb = [9, 10, 11, 12, 13] ∧
      ∀ op, Fifo.Step 8 [9, 10, 11, 12, 13] op (contents (call rb op).1) (call rb op).2 := by
  intro rb
  have hcontents : contents rb = [9, 10, 11, 12, 13] := by decide +kernel
  refine ⟨hcontents, ?_⟩
  have h := (ringbuffer_refines_fifo (fun _ => 0) (show 10 ≤ 32767 by decide)
    (show 0 < rtAlignDown 10 4 by decide) overrun).2.2.2.2.2.2.2
  rw [hcontents] at h
  exact h

end RtThread.Ringbuffer
