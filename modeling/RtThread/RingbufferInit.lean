import RtThread.RingbufferFifo

/-!
# The sizes that a ring buffer can be initialised with

`rt_ringbuffer_init` accepts every positive size and rounds it down to the alignment.
A pool that is smaller than the alignment gives a buffer of size zero, in which
`rt_ringbuffer_putchar_force` still writes a byte and moves the write index on. With
every larger pool all calls stay inside the pool.
-/
namespace RtThread.Ringbuffer

variable {rb : RtRingbuffer} {d i : Nat} {q : List Byte}

/-- The index `i` is one of the `length` that the two copies from the offset `off` on go over:
up to the end of a buffer of `size` bytes, and then from its start. -/
def Copied (size off length i : Nat) : Prop :=
  if length < size - off then off ≤ i ∧ i < off + length
  else (off ≤ i ∧ i < size) ∨ i < length - (size - off)

/-- The call reads or writes the buffer at the index `i`. -/
def Accesses (rb : RtRingbuffer) (i : Nat) : Op → Prop
  | .put data =>
    spaceLen rb ≠ 0 ∧ Copied rb.bufferSize rb.writeIndex (min (spaceLen rb) data.length) i
  | .putForce data => Copied rb.bufferSize rb.writeIndex (min rb.bufferSize data.length) i
  | .get length =>
    dataLen rb ≠ 0 ∧ Copied rb.bufferSize rb.readIndex (min (dataLen rb) length) i
  | .peak => ∃ off, (peak rb).2.1 = some off ∧ off ≤ i ∧ i < off + (peak rb).2.2
  | .putchar _ => spaceLen rb ≠ 0 ∧ i = rb.writeIndex
  | .putcharForce _ => i = rb.writeIndex
  | .getchar => dataLen rb ≠ 0 ∧ i = rb.readIndex
  | .reset => False

/-- No more data than the buffer has room for, and no access outside the pool. -/
def Bounded (size : Nat) (rb : RtRingbuffer) : Prop :=
  dataLen rb ≤ rb.bufferSize ∧ ∀ op i, Accesses rb i op → i < size

/-! ## What a call writes is what it accesses -/

variable {data : List Byte} {op : Op} {align size : Nat}

theorem write_untouched (hw : rb.writeIndex < rb.bufferSize)
    (hi : ¬ Copied rb.bufferSize rb.writeIndex data.length i) :
    (write rb data).buffer i = rb.buffer i := by
  unfold Copied at hi
  by_cases hlt : data.length < rb.bufferSize - rb.writeIndex
  · rw [if_pos hlt] at hi
    rw [write_buffer_of_lt hlt]
    by_cases hbelow : i < rb.writeIndex
    · exact copyTo_of_lt hbelow
    · exact copyTo_of_le (by omega)
  · rw [if_neg hlt] at hi
    have htake : (data.take (rb.bufferSize - rb.writeIndex)).length =
        rb.bufferSize - rb.writeIndex := by
      rw [List.length_take]
      omega
    have hdrop : (data.drop (rb.bufferSize - rb.writeIndex)).length =
        data.length - (rb.bufferSize - rb.writeIndex) := List.length_drop
    rw [write_buffer_of_le hlt, copyTo_of_le (by omega)]
    by_cases hbelow : i < rb.writeIndex
    · exact copyTo_of_lt hbelow
    · exact copyTo_of_le (by omega)

theorem put_untouched (h : Spans rb d) (hi : ¬ Accesses rb i (.put data)) :
    (put rb data).1.buffer i = rb.buffer i := by
  unfold put
  dsimp only
  split
  case isTrue => rfl
  case isFalse hpos =>
    have hlen : (data.take (if spaceLen rb < data.length then spaceLen rb
        else data.length)).length = min (spaceLen rb) data.length := by
      rw [List.length_take]
      split <;> omega
    refine write_untouched h.write_lt fun hcopied => hi ⟨hpos, ?_⟩
    rwa [hlen] at hcopied

theorem putForce_buffer (rb : RtRingbuffer) (data : List Byte) :
    (putForce rb data).1.buffer = (write rb (data.rtake rb.bufferSize)).buffer := by
  have hdata : (if rb.bufferSize < data.length then data.drop (data.length - rb.bufferSize)
      else data) = data.rtake rb.bufferSize := by
    unfold List.rtake
    split
    case isTrue => rfl
    case isFalse hle =>
      rw [Nat.sub_eq_zero_of_le (by omega), List.drop_zero]
  unfold putForce
  dsimp only
  rw [hdata]
  split <;> split <;> rfl

theorem putForce_untouched (h : Spans rb d) (hi : ¬ Accesses rb i (.putForce data)) :
    (putForce rb data).1.buffer i = rb.buffer i := by
  have hlen : (data.rtake rb.bufferSize).length = min rb.bufferSize data.length := by
    rw [List.rtake, List.length_drop]
    omega
  rw [putForce_buffer]
  refine write_untouched h.write_lt fun hcopied => hi ?_
  rwa [hlen] at hcopied

/-- A call leaves every byte alone that it does not access. -/
theorem call_untouched (h : Spans rb d) (hi : ¬ Accesses rb i op) :
    (call rb op).1.buffer i = rb.buffer i := by
  cases op with
  | put data => exact put_untouched h hi
  | putForce data => exact putForce_untouched h hi
  | get length =>
    simp only [call, get]
    split
    · rfl
    · split <;> split <;> rfl
  | peak =>
    simp only [call, peak]
    split
    · rfl
    · split <;> rfl
  | putchar ch =>
    simp only [call, putchar]
    split
    · rfl
    case isFalse hpos =>
      have hne : i ≠ rb.writeIndex := fun heq => hi ⟨hpos, heq⟩
      split <;> exact Function.update_of_ne hne _ _
  | putcharForce ch =>
    have hne : i ≠ rb.writeIndex := hi
    simp only [call, putcharForce]
    split <;> split <;> exact Function.update_of_ne hne _ _
  | getchar =>
    simp only [call, getchar]
    split
    · rfl
    · split <;> rfl
  | reset => rfl

/-! ## A buffer with room -/

theorem Copied.lt_size {off length : Nat} (h : Copied size off length i) (hlength : length ≤ size)
    (hoff : off < size) : i < size := by
  unfold Copied at h
  split at h
  · omega
  · omega

theorem Spans.accesses_lt (h : Spans rb d) (hi : Accesses rb i op) : i < rb.bufferSize := by
  have hr := h.read_lt
  have hw := h.write_lt
  have hd := h.le_size
  have hdata := h.dataLen_eq
  have hspace := h.spaceLen_eq
  cases op with
  | put data => exact hi.2.lt_size (by omega) hw
  | putForce data => exact Copied.lt_size hi (by omega) hw
  | get length => exact hi.2.lt_size (by omega) hr
  | peak =>
    obtain ⟨off, hoff, hle, hlt⟩ := hi
    unfold peak at hoff hlt
    dsimp only at hoff hlt
    rw [hdata] at hoff hlt
    by_cases hzero : d = 0
    · rw [if_pos hzero] at hoff
      nomatch hoff
    · rw [if_neg hzero] at hoff hlt
      split at hoff
      case isTrue hfits =>
        rw [if_pos hfits] at hlt
        injection hoff with hoff
        dsimp only at hlt
        omega
      case isFalse hfits =>
        rw [if_neg hfits] at hlt
        injection hoff with hoff
        dsimp only at hlt
        omega
  | putchar ch => exact hi.2 ▸ hw
  | putcharForce ch =>
    have heq : i = rb.writeIndex := hi
    exact heq ▸ hw
  | getchar => exact hi.2 ▸ hr
  | reset => exact hi.elim

theorem Spans.bounded (h : Spans rb d) (hsize : rb.bufferSize ≤ size) : Bounded size rb := by
  refine ⟨?_, fun op i hi => ?_⟩
  · rw [h.dataLen_eq]
    exact h.le_size
  · exact Nat.lt_of_lt_of_le (h.accesses_lt hi) hsize

theorem rtAlignDown_pos_iff (halign : 0 < align) : 0 < rtAlignDown size align ↔ align ≤ size := by
  unfold rtAlignDown
  constructor
  · intro hpos
    by_contra hlt
    rw [Nat.div_eq_of_lt (by omega), Nat.zero_mul] at hpos
    exact Nat.lt_irrefl 0 hpos
  · intro hle
    exact Nat.mul_pos (Nat.div_pos hle halign) halign

/-! ## A buffer of size zero -/

theorem init_empty (pool : Nat → Byte) (h : size < align) :
    rtRingbufferInit align pool size = ⟨pool, false, 0, false, 0, 0⟩ := by
  rw [rtRingbufferInit, rtAlignDown, Nat.div_eq_of_lt h, Nat.zero_mul]

/-- A byte that is forced into a buffer of size zero counts as data. -/
theorem putcharForce_empty (pool : Nat → Byte) (ch : Byte) :
    dataLen (putcharForce ⟨pool, false, 0, false, 0, 0⟩ ch).1 = 1 := rfl

/-- A ring buffer stays inside its pool, and its data inside the buffer, exactly when the pool
is not smaller than the alignment. -/
theorem ringbuffer_init_safe {align size : Nat} (pool : Nat → Byte) (halign : 0 < align)
    (hsize : size ≤ 32767) :
    (∀ ops, Bounded size (run (rtRingbufferInit align pool size) ops).1) ↔ align ≤ size := by
  constructor
  · intro hbounded
    by_contra hlt
    have hle := (hbounded [.putcharForce 0]).1
    rw [init_empty pool (by omega)] at hle
    have hdata := putcharForce_empty pool 0
    have hzero : (run ⟨pool, false, 0, false, 0, 0⟩ [.putcharForce 0]).1.bufferSize = 0 := rfl
    rw [hzero] at hle
    exact absurd (hdata.symm.trans_le hle) (by decide)
  · intro hle ops
    have hpos := (rtAlignDown_pos_iff halign).mpr hle
    obtain ⟨q, hq, hn, -⟩ := run_spec (rtRingbufferInit_holds pool hsize hpos) ops
    refine hq.toSpans.bounded ?_
    rw [hn]
    exact Nat.div_mul_le_self size align

/-- The same for a pool of ten bytes. -/
theorem ringbuffer_init_safe_ten :
    Bounded 10 (run (rtRingbufferInit 4 (fun _ => 0) 10) [.putcharForce 7, .putcharForce 8]).1 :=
  (ringbuffer_init_safe (fun _ => 0) (show 0 < 4 by decide) (show 10 ≤ 32767 by decide)).mpr
    (by decide) [.putcharForce 7, .putcharForce 8]

/-- In a pool of one byte the second forced byte lies outside the pool. -/
theorem ringbuffer_init_unsafe :
    ¬ ∀ ops, Bounded 1 (run (rtRingbufferInit 4 (fun _ => 0) 1) ops).1 := by
  intro hbounded
  have haccess : Accesses (run (rtRingbufferInit 4 (fun _ => 0) 1) [.putcharForce 7]).1 1
      (.putcharForce 8) := rfl
  exact Nat.lt_irrefl 1 ((hbounded [.putcharForce 7]).2 _ 1 haccess)

end RtThread.Ringbuffer
