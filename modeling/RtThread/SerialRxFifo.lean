import RtThread.Lib.Cyclic
import RtThread.SerialRx

/-!
# The receive buffer as a FIFO of the newest bytes

The unread bytes are those from `get_index` on. Interrupt mode keeps one byte of the buffer
free, DMA mode fills it, and tells a full buffer from an empty one by `is_full`. An overflow
drops the oldest bytes. In DMA mode this needs indices that can hold the sum of an index and
the length of a block: up to a size of 32768 bytes.
-/
namespace RtThread.SerialRx

open Ipc (ThreadId)
open Cyclic

/-- The unread bytes. -/
def unread (s : State) : List Byte :=
  window s.rxFifo.buffer s.bufsz s.rxFifo.getIndex (serialFifoCalcRecvedLen s.bufsz s.rxFifo)

/-- The bytes that the buffer keeps. -/
def capacity (mode : Mode) (n : Nat) : Nat :=
  match mode with
  | .interrupt => n - 1
  | .dma => n

/-- The newest bytes of a list. -/
def newest (n : Nat) (l : List Byte) : List Byte := l.drop (l.length - n)

/-- A buffer of `n` bytes with `k` unread ones. -/
structure Rep (mode : Mode) (n k : Nat) (f : RtSerialRxFifo) : Prop where
  count : k ≤ capacity mode n
  get : f.getIndex < n
  put : f.putIndex = if f.getIndex + k < n then f.getIndex + k else f.getIndex + k - n
  full : f.isFull = true → 0 < k ∧ (mode = .dma → k = n)
  dma : mode = .dma → k = n → f.isFull = true

section rep

variable {mode : Mode} {n k : Nat} {f f' : RtSerialRxFifo}

theorem capacity_le (mode : Mode) (n : Nat) : capacity mode n ≤ n := by
  cases mode with
  | interrupt => exact Nat.sub_le n 1
  | dma => exact Nat.le_refl n

theorem Rep.put_mod (h : Rep mode n k f) : f.putIndex = (f.getIndex + k) % n := by
  rw [wrap_mod h.get (Nat.le_trans h.count (capacity_le mode n)), h.put]

theorem Rep.put_lt (h : Rep mode n k f) : f.putIndex < n := by
  rw [h.put_mod]
  exact Nat.mod_lt _ (Nat.lt_of_le_of_lt (Nat.zero_le _) h.get)

theorem Rep.recvedLen (h : Rep mode n k f) : serialFifoCalcRecvedLen n f = k := by
  have hget := h.get
  have hcount := Nat.le_trans h.count (capacity_le mode n)
  have hput := h.put
  rw [serialFifoCalcRecvedLen]
  by_cases hk : k = 0
  · have hnot : f.isFull = false := by
      rw [Bool.eq_false_iff]
      intro hfull
      have := (h.full hfull).1
      omega
    rw [if_pos (by split at hput <;> omega), hnot, hk]
    rfl
  · by_cases hn : k = n
    · have hdma : mode = .dma := by
        cases mode with
        | dma => rfl
        | interrupt =>
          have hle : k ≤ n - 1 := h.count
          omega
      rw [if_pos (by split at hput <;> omega), h.dma hdma hn, hn]
      rfl
    · split at hput
      · rw [if_neg (by omega), if_pos (by omega)]
        omega
      · rw [if_neg (by omega), if_neg (by omega)]
        omega

/-! ## Interrupt mode -/

theorem nextIndex_eq (hn : n < 2 ^ 16) {i : Nat} (hi : i < n) : nextIndex n i = (i + 1) % n := by
  have hwadd : wadd 16 i 1 = i + 1 := wadd_eq (by omega)
  rw [nextIndex, hwadd, succ_mod hi]

/-- A byte is put behind the others; the oldest one goes when there is no room. -/
theorem Rep.rxByte (h : Rep .interrupt n k f) (h2 : 2 ≤ n) (hn : n < 2 ^ 16) (ch : Byte) :
    Rep .interrupt n (min (k + 1) (n - 1)) (rxByte n f ch) ∧
      window (SerialRx.rxByte n f ch).buffer n (SerialRx.rxByte n f ch).getIndex
          (min (k + 1) (n - 1)) =
        newest (n - 1) (window f.buffer n f.getIndex k ++ [ch]) := by
  have hget := h.get
  have hcount : k ≤ n - 1 := h.count
  have hwin : window (Function.update f.buffer f.putIndex ch) n f.getIndex (k + 1) =
      window f.buffer n f.getIndex k ++ [ch] := by
    rw [h.put_mod]
    exact window_push ch (by omega)
  have hnext : nextIndex n f.putIndex = (f.getIndex + (k + 1)) % n := by
    rw [nextIndex_eq hn h.put_lt, h.put_mod, Nat.mod_add_mod, Nat.add_assoc]
  rw [wrap_mod hget (by omega)] at hnext
  have hlength : (window f.buffer n f.getIndex k ++ [ch]).length = k + 1 := by simp
  rw [newest, hlength, SerialRx.rxByte]
  simp only [hnext]
  by_cases hroom : k + 1 ≤ n - 1
  · rw [if_neg (by split <;> omega), Nat.min_eq_left hroom, Nat.sub_eq_zero_of_le hroom,
      List.drop_zero]
    refine ⟨⟨hroom, hget, rfl, fun hfull => ⟨Nat.succ_pos k, fun hmode => ?_⟩, fun hmode => ?_⟩, hwin⟩
    · cases hmode
    · cases hmode
  · have hk : k + 1 = n := by omega
    rw [if_pos (by split <;> omega), Nat.min_eq_right (by omega), ← hwin, hk,
      window_drop (by omega)]
    have hgetnext := nextIndex_eq hn hget
    rw [wrap_mod hget (by omega)] at hgetnext
    refine ⟨⟨Nat.le_refl _, ?_, ?_, fun _ => ⟨by omega, fun hmode => ?_⟩, fun hmode => ?_⟩, ?_⟩
    · show nextIndex n f.getIndex < n
      rw [hgetnext]
      split <;> omega
    · simp only [hgetnext]
      (repeat' split) <;> omega
    · cases hmode
    · cases hmode
    · rw [nextIndex_eq hn hget, window_mod, show n - (n - (n - 1)) = n - 1 by omega,
        show f.getIndex + (n - (n - 1)) = f.getIndex + 1 by omega]

theorem newest_append (m : Nat) (l l' : List Byte) :
    newest m (newest m l ++ l') = newest m (l ++ l') := by
  rw [newest, newest, newest, ← List.drop_append_of_le_length (Nat.sub_le _ _), List.drop_drop,
    List.length_drop, List.length_append]
  congr 1
  omega

/-- The bytes of one interrupt. -/
theorem Rep.rxInd (h : Rep .interrupt n k f) (h2 : 2 ≤ n) (hn : n < 2 ^ 16) (chs : List Byte) :
    ∃ k', Rep .interrupt n k' (chs.foldl (SerialRx.rxByte n) f) ∧
      window (chs.foldl (SerialRx.rxByte n) f).buffer n
          (chs.foldl (SerialRx.rxByte n) f).getIndex k' =
        newest (n - 1) (window f.buffer n f.getIndex k ++ chs) := by
  induction chs generalizing f k with
  | nil =>
    refine ⟨k, h, ?_⟩
    have hcount : k ≤ n - 1 := h.count
    rw [newest, List.append_nil, length_window, Nat.sub_eq_zero_of_le hcount, List.drop_zero]
    rfl
  | cons ch chs ih =>
    obtain ⟨hrep, hwin⟩ := h.rxByte h2 hn ch
    obtain ⟨k', hrep', hwin'⟩ := ih hrep
    refine ⟨k', hrep', ?_⟩
    rw [List.foldl_cons, hwin', hwin, newest_append, List.append_assoc, List.singleton_append]

/-- `rx_length` counts the unread bytes. -/
theorem Rep.rxLength (h : Rep .interrupt n k f) (h2 : 2 ≤ n) : SerialRx.rxLength n f = k := by
  have hcount : k ≤ n - 1 := h.count
  have hput := h.put
  rw [SerialRx.rxLength]
  split at hput
  · rw [if_pos (by omega)]
    omega
  · rw [if_neg (by omega)]
    omega

/-- The oldest byte is taken. -/
theorem Rep.serialIntRx (h : Rep .interrupt n k f) (h2 : 2 ≤ n) (hn : n < 2 ^ 16) :
    (k = 0 ∧ SerialRx.serialIntRx n f = none) ∨
      ∃ ch f' l, SerialRx.serialIntRx n f = some (ch, f') ∧ Rep .interrupt n (k - 1) f' ∧
        window f.buffer n f.getIndex k = ch :: l ∧
        window f'.buffer n f'.getIndex (k - 1) = l := by
  have hget := h.get
  have hcount : k ≤ n - 1 := h.count
  have hput := h.put
  rw [SerialRx.serialIntRx]
  by_cases hk : k = 0
  · have hnot : f.isFull = false := by
      rw [Bool.eq_false_iff]
      intro hfull
      have := (h.full hfull).1
      omega
    exact .inl ⟨hk, if_pos ⟨by split at hput <;> omega, hnot⟩⟩
  · obtain ⟨m, rfl⟩ : ∃ m, k = m + 1 := ⟨k - 1, by omega⟩
    rw [if_neg (by split at hput <;> omega)]
    have hnext := nextIndex_eq hn hget
    refine .inr ⟨_, _, _, rfl, ⟨by show m ≤ n - 1; omega, ?_, ?_, fun hfull => ?_, fun hmode => ?_⟩,
      ?_, rfl⟩
    · rw [hnext]
      exact Nat.mod_lt _ (by omega)
    · rw [wrap_mod hget (by omega)] at hnext
      simp only [hnext, Nat.add_sub_cancel]
      rw [hput]
      (repeat' split) <;> omega
    · cases hfull
    · cases hmode
    · simp only [hnext, Nat.add_sub_cancel, window_mod]
      rw [window_cons, Nat.mod_eq_of_lt hget]

/-! ## DMA mode -/

theorem dmaWrite_written (pool : Nat → Byte) (off : Nat) (l : List Byte) (hl : l.length ≤ n) :
    Written pool (dmaWrite n pool off l) n off l := by
  induction l generalizing pool off with
  | nil => exact ⟨fun i hi => absurd hi (Nat.not_lt_zero i), fun i _ _ => rfl⟩
  | cons b bs ih =>
    rw [List.length_cons] at hl
    have hw := ih (Function.update pool (off % n) b) (off + 1) (by omega)
    refine ⟨fun i hi => ?_, fun i hi hn => ?_⟩
    · cases i with
      | zero =>
        have hold := hw.old (n - 1) (by omega) (by omega)
        rw [show off + 1 + (n - 1) = off + 0 + n by omega, Nat.add_mod_right] at hold
        rw [dmaWrite, hold]
        simp
      | succ i =>
        have hnew := hw.new i (by simpa using hi)
        rwa [show off + 1 + i = off + (i + 1) by omega] at hnew
    · rw [List.length_cons] at hi
      have hold := hw.old (i - 1) (by omega) (by omega)
      rw [show off + 1 + (i - 1) = off + i by omega] at hold
      rw [dmaWrite, hold]
      have hne : (off + 0) % n ≠ (off + i) % n := mod_ne (by omega) (by omega)
      exact Function.update_of_ne (by simpa using hne.symm) _ _

/-- The indices after a block of `len` bytes: an overflow fills the buffer from the put index on. -/
theorem Rep.putIndex_eq (h : Rep .dma n k f) (hn : n ≤ 2 ^ 15) {len : Nat} (hlen : len ≤ n) :
    rtDmaRecvUpdatePutIndex n f len = { f with
      putIndex := (f.putIndex + len) % n
      isFull := decide (n ≤ k + len)
      getIndex := if n ≤ k + len then (f.putIndex + len) % n else f.getIndex } := by
  have hget := h.get
  have hcount : k ≤ n := h.count
  have hput := h.put
  have hlt := h.put_lt
  have hwadd : wadd 16 f.putIndex len = f.putIndex + len := wadd_eq (by omega)
  have hwrap : (if n ≤ f.putIndex + len then (f.putIndex + len) % n else f.putIndex + len) =
      (f.putIndex + len) % n := by
    split
    · rfl
    · exact (Nat.mod_eq_of_lt (by omega)).symm
  have hmod := wrap_mod hlt hlen
  have hflag : f.isFull = decide (k = n) := by
    rw [Bool.eq_iff_iff, decide_eq_true_iff]
    exact ⟨fun hfull => (h.full hfull).2 rfl, h.dma rfl⟩
  simp only [rtDmaRecvUpdatePutIndex, hwadd, hwrap]
  by_cases hle : f.getIndex ≤ f.putIndex
  · have hfull : (f.isFull || decide (n ≤ f.putIndex + len ∧
        f.getIndex ≤ (f.putIndex + len) % n)) = decide (n ≤ k + len) := by
      rw [hflag, Bool.eq_iff_iff, Bool.or_eq_true, decide_eq_true_iff, decide_eq_true_iff,
        decide_eq_true_iff, hmod]
      split at hput <;> split <;> omega
    rw [if_pos hle, hfull]
    by_cases hover : n ≤ k + len
    · simp [hover]
    · simp [hover]
  · rw [if_neg hle]
    by_cases hover : n ≤ k + len
    · have hge : f.getIndex ≤ f.putIndex + len := by split at hput <;> omega
      rw [if_pos hge]
      simp [hover]
    · have hnot : f.isFull = false := by
        rw [hflag, decide_eq_false_iff_not]
        omega
      have hge : ¬ f.getIndex ≤ f.putIndex + len := by split at hput <;> omega
      have hsame : (f.putIndex + len) % n = f.putIndex + len := Nat.mod_eq_of_lt (by omega)
      rw [if_neg hge]
      simp [hover, hnot, hsame]

/-- A block is put behind the others, and the oldest bytes go when there is no room. -/
theorem Rep.putIndex (h : Rep .dma n k f) (hn : n ≤ 2 ^ 15) {len : Nat} (hlen : len ≤ n) :
    Rep .dma n (min (k + len) n) (rtDmaRecvUpdatePutIndex n f len) ∧
      (rtDmaRecvUpdatePutIndex n f len).getIndex = (f.getIndex + (k + len - n)) % n := by
  have hget := h.get
  have hput : (f.putIndex + len) % n = (f.getIndex + (k + len)) % n := by
    rw [h.put_mod, Nat.mod_add_mod, Nat.add_assoc]
  rw [h.putIndex_eq hn hlen]
  by_cases hover : n ≤ k + len
  · have hlast : (f.getIndex + (k + len)) % n = (f.getIndex + (k + len - n)) % n := by
      rw [show f.getIndex + (k + len) = f.getIndex + (k + len - n) + n by omega, Nat.add_mod_right]
    have hlt : (f.putIndex + len) % n < n := Nat.mod_lt _ (by omega)
    rw [Nat.min_eq_right hover]
    refine ⟨⟨Nat.le_refl n, ?_, ?_, fun _ => ⟨by omega, fun _ => rfl⟩, fun _ _ => ?_⟩, ?_⟩
    · simpa [hover] using hlt
    · simp [hover]
    · simpa using hover
    · simp [hover, hput, hlast]
  · rw [Nat.min_eq_left (by omega)]
    refine ⟨⟨by show k + len ≤ n; omega, ?_, ?_, fun hfull => ?_, fun _ heq => by omega⟩, ?_⟩
    · simpa [hover] using hget
    · simp only [hover, if_false, hput]
      exact wrap_mod hget (by omega)
    · simp [hover] at hfull
    · rw [Nat.sub_eq_zero_of_le (by omega), Nat.add_zero, Nat.mod_eq_of_lt hget]
      simp [hover]

/-- The bytes of a block, written behind the put index. -/
theorem window_newest {pool pool' : Nat → Byte} {off : Nat} {l : List Byte}
    (hl : l.length ≤ n) (hw : Written pool pool' n (off + k) l) :
    window pool' n (off + (k + l.length - n)) (min (k + l.length) n) =
      newest n (window pool n off k ++ l) := by
  have hlength : (window pool n off k ++ l).length = k + l.length := by simp
  rw [newest, hlength]
  by_cases hover : n ≤ k + l.length
  · have hold : window pool' n (off + (k + l.length - n)) (n - l.length) =
        window pool n (off + (k + l.length - n)) (n - l.length) := by
      refine window_congr fun i hi => ?_
      have hcell := hw.old (l.length + i) (by omega) (by omega)
      rwa [show off + k + (l.length + i) = off + (k + l.length - n) + i + n by omega,
        Nat.add_mod_right] at hcell
    have hsplit : window pool' n (off + (k + l.length - n)) n =
        window pool' n (off + (k + l.length - n)) (n - l.length) ++ l := by
      have hadd := @window_add _ pool' n (off + (k + l.length - n)) (n - l.length) l.length
      rwa [show off + (k + l.length - n) + (n - l.length) = off + k by omega, hw.window_eq,
        Nat.sub_add_cancel hl] at hadd
    rw [Nat.min_eq_right hover, hsplit, hold,
      List.drop_append_of_le_length (by rw [length_window]; omega), window_drop (by omega),
      show k - (k + l.length - n) = n - l.length by omega]
  · rw [Nat.min_eq_left (by omega), Nat.sub_eq_zero_of_le (by omega), List.drop_zero]
    exact hw.window_append (by omega)

/-- The oldest bytes are taken. -/
theorem Rep.getIndex (h : Rep .dma n k f) (hn : n ≤ 2 ^ 15) {len : Nat} (hlen : len ≤ k) :
    ∃ f', rtDmaRecvUpdateGetIndex n f len = some f' ∧ Rep .dma n (k - len) f' ∧
      f'.buffer = f.buffer ∧ f'.putIndex = f.putIndex ∧
      f'.getIndex = (f.getIndex + len) % n := by
  have hget := h.get
  have hcount : k ≤ n := h.count
  have hput := h.put
  have hwadd : wadd 16 f.getIndex len = f.getIndex + len := wadd_eq (by omega)
  have hwrap : (if n ≤ f.getIndex + len then (f.getIndex + len) % n else f.getIndex + len) =
      (f.getIndex + len) % n := by
    split
    · rfl
    · exact (Nat.mod_eq_of_lt (by omega)).symm
  have hmod := wrap_mod hget (Nat.le_trans hlen hcount)
  refine ⟨{ f with
      isFull := f.isFull && decide (len = 0)
      getIndex := (f.getIndex + len) % n }, ?_, ⟨?_, ?_, ?_, ?_, ?_⟩, rfl, rfl, rfl⟩
  · simp only [rtDmaRecvUpdateGetIndex, h.recvedLen, if_pos hlen, hwadd, hwrap]
  · show k - len ≤ n
    omega
  · exact Nat.mod_lt _ (by omega)
  · simp only [hmod]
    rw [hput]
    (repeat' split) <;> omega
  · intro hfull
    simp only [Bool.and_eq_true, decide_eq_true_eq] at hfull
    obtain ⟨hfull, rfl⟩ := hfull
    exact h.full hfull
  · intro hmode hkn
    obtain rfl : len = 0 := by omega
    simpa using h.dma hmode hkn

/-- The two copies of a read are one piece of the window. -/
theorem copy_window (hget : f.getIndex < n) {len : Nat} (hlen : len ≤ n) :
    (if f.getIndex + len < n then copy f f.getIndex len
      else copy f f.getIndex (n - f.getIndex) ++ copy f 0 (len + f.getIndex - n)) =
        window f.buffer n f.getIndex len := by
  have hplain : ∀ i m, i + m ≤ n → copy f i m = window f.buffer n i m := by
    intro i m him
    refine List.map_congr_left fun j hj => ?_
    rw [Nat.mod_eq_of_lt (by have := List.mem_range.mp hj; omega)]
  split
  · exact hplain _ _ (by omega)
  · have hadd := @window_add _ f.buffer n f.getIndex (n - f.getIndex) (len + f.getIndex - n)
    rw [show n - f.getIndex + (len + f.getIndex - n) = len by omega,
      show f.getIndex + (n - f.getIndex) = n by omega] at hadd
    have hzero : window f.buffer n n (len + f.getIndex - n) =
        window f.buffer n 0 (len + f.getIndex - n) := by
      rw [← @window_mod _ _ _ n, Nat.mod_self]
    rw [hplain _ _ (by omega), hplain _ _ (by omega), hadd, hzero]

end rep

/-! ## Steps -/

/-- What a step does to the unread bytes, and what it tells. -/
def Effect (s : State) (op : Op) (events : List Event) (s' : State) : Prop :=
  match op with
  | .rxInd chs =>
    unread s' = newest (s.bufsz - 1) (unread s ++ chs) ∧
      events = if (unread s').length = 0 then [] else [.indicate (unread s').length]
  | .rxDmaDone bytes =>
    unread s' = newest s.bufsz (unread s ++ bytes) ∧ events = [.indicate (unread s').length]
  | .read t length =>
    match s.mode with
    | .interrupt => unread s' = unread s ∧ events = []
    | .dma =>
      unread s' = (unread s).drop length.toNat ∧ events = [.ret t ((unread s).take length.toNat)]
  | .proceed t => ∃ r, s.reading t = some r ∧
      ((r.length = 0 ∨ unread s = []) ∧ events = [.ret t r.data] ∧ unread s' = unread s ∨
        r.length ≠ 0 ∧ ∃ ch, unread s = ch :: unread s' ∧ events = [] ∧
          s'.reading t = some ⟨r.length - 1, r.data ++ [ch]⟩)

/-- The buffer is a FIFO of the newest bytes, in the state and for every step from it. A read
returns when its length is not negative as an `int`. -/
structure Fifo (s : State) : Prop where
  put : s.rxFifo.putIndex < s.bufsz
  get : s.rxFifo.getIndex < s.bufsz
  count : (unread s).length ≤ capacity s.mode s.bufsz
  effect : ∀ op s' events, call s op = some (s', events) → Effect s op events s'
  returns : ∀ t length, s.reading t = none → 0 ≤ length.toInt → (call s (.read t length)).isSome

/-- The invariant of the runs of a device. -/
structure Inv (mode : Mode) (n : Nat) (s : State) : Prop where
  isMode : s.mode = mode
  bufsz : s.bufsz = n
  rep : ∃ k, Rep mode n k s.rxFifo
  dma : mode = .dma → s.dmaIndex = s.rxFifo.putIndex ∧ ∀ t, s.reading t = none

section steps

variable {mode : Mode} {n k : Nat} {s s' : State} {op : Op} {events : List Event}
variable {t : ThreadId} {length : BitVec 32}

theorem Rep.unread (h : Rep mode s.bufsz k s.rxFifo) :
    unread s = window s.rxFifo.buffer s.bufsz s.rxFifo.getIndex k := by
  rw [SerialRx.unread, h.recvedLen]

theorem Rep.length_unread (h : Rep mode s.bufsz k s.rxFifo) : (SerialRx.unread s).length = k := by
  rw [h.unread, length_window]

/-- A round of a read in interrupt mode. -/
theorem Rep.readRound (hrep : Rep .interrupt s.bufsz k s.rxFifo) (h2 : 2 ≤ s.bufsz)
    (hn : s.bufsz < 2 ^ 16) {t : ThreadId} {r : Reading} (hr : s.reading t = some r) :
    Effect s (.proceed t) (readRound s t r).2 (readRound s t r).1 ∧
      ∃ k', Rep .interrupt s.bufsz k' (SerialRx.readRound s t r).1.rxFifo := by
  have hold := hrep.unread
  rw [SerialRx.readRound]
  by_cases hlen : r.length = 0
  · rw [if_pos hlen]
    exact ⟨⟨r, hr, .inl ⟨.inl hlen, rfl, rfl⟩⟩, k, hrep⟩
  · rw [if_neg hlen]
    obtain ⟨rfl, hnone⟩ | ⟨ch, f', l, hsome, hrep', hwin, hwin'⟩ := hrep.serialIntRx h2 hn
    · rw [hnone]
      exact ⟨⟨r, hr, .inl ⟨.inr hold, rfl, rfl⟩⟩, 0, hrep⟩
    · rw [hsome]
      have hnew := Rep.unread (s := { s with
        rxFifo := f'
        reading := Function.update s.reading t (some ⟨r.length - 1, r.data ++ [ch]⟩) }) hrep'
      refine ⟨⟨r, hr, .inr ⟨hlen, ch, ?_, rfl, Function.update_self _ _ _⟩⟩, k - 1, hrep'⟩
      rw [hold, hwin, hnew, ← hwin']

/-- A step in interrupt mode. -/
theorem Inv.stepInterrupt (hi : Inv .interrupt n s) (h2 : 2 ≤ n) (hn : n < 2 ^ 16)
    (h : call s op = some (s', events)) : Effect s op events s' ∧ Inv .interrupt n s' := by
  obtain ⟨hmode, rfl, ⟨k, hrep⟩, -⟩ := hi
  have hold := hrep.unread
  cases op with
  | rxInd chs =>
    obtain ⟨-, h⟩ := Option.ite_none_right_eq_some.mp h
    obtain ⟨k', hrep', hwin⟩ := hrep.rxInd h2 hn chs
    have hlength := hrep'.rxLength h2
    simp only [hlength, Option.some.injEq, Prod.mk.injEq] at h
    obtain ⟨rfl, rfl⟩ := h
    have hnew := Rep.unread (s := { s with rxFifo := chs.foldl (rxByte s.bufsz) s.rxFifo }) hrep'
    have hlen := Rep.length_unread (s := { s with rxFifo := chs.foldl (rxByte s.bufsz) s.rxFifo }) hrep'
    refine ⟨⟨?_, ?_⟩, hmode, rfl, ⟨k', hrep'⟩, fun h => by cases h⟩
    · rw [hnew, hold]
      exact hwin
    · rw [hlen]
  | rxDmaDone bytes =>
    obtain ⟨⟨hdma, -⟩, -⟩ := Option.ite_none_right_eq_some.mp h
    cases hmode.symm.trans hdma
  | read t length =>
    obtain ⟨-, h⟩ := Option.ite_none_right_eq_some.mp h
    simp only [hmode, Option.some.injEq, Prod.mk.injEq] at h
    obtain ⟨rfl, rfl⟩ := h
    refine ⟨?_, rfl, rfl, ⟨k, hrep⟩, fun h => by cases h⟩
    simp only [Effect, hmode]
    exact ⟨rfl, trivial⟩
  | proceed t =>
    cases hr : s.reading t with
    | none => simp [call, hr] at h
    | some r =>
      simp only [call, hr, Option.some.injEq] at h
      obtain ⟨heffect, k', hrep'⟩ := hrep.readRound h2 hn hr
      have hsame : (SerialRx.readRound s t r).1.mode = s.mode ∧
          (SerialRx.readRound s t r).1.bufsz = s.bufsz := by
        rw [SerialRx.readRound]
        split
        · exact ⟨rfl, rfl⟩
        · split
          · exact ⟨rfl, rfl⟩
          · exact ⟨rfl, rfl⟩
      rw [h] at heffect hrep' hsame
      exact ⟨heffect, hsame.1.trans hmode, hsame.2, ⟨k', hrep'⟩, fun h => by cases h⟩

/-- A step in DMA mode, with indices that hold the sums. -/
theorem Inv.stepDma (hi : Inv .dma n s) (hn : n ≤ 2 ^ 15) (h : call s op = some (s', events)) :
    Effect s op events s' ∧ Inv .dma n s' := by
  obtain ⟨hmode, rfl, ⟨k, hrep⟩, hdma⟩ := hi
  obtain ⟨hindex, hreading⟩ := hdma rfl
  have hold := hrep.unread
  have hcount : k ≤ s.bufsz := hrep.count
  cases op with
  | rxInd chs =>
    obtain ⟨hint, -⟩ := Option.ite_none_right_eq_some.mp h
    cases hmode.symm.trans hint
  | rxDmaDone bytes =>
    obtain ⟨⟨-, hlen⟩, h⟩ := Option.ite_none_right_eq_some.mp h
    have hbuffer : Rep .dma s.bufsz k
        { s.rxFifo with buffer := dmaWrite s.bufsz s.rxFifo.buffer s.dmaIndex bytes } :=
      ⟨hrep.count, hrep.get, hrep.put, hrep.full, hrep.dma⟩
    obtain ⟨hrep', hget'⟩ := hbuffer.putIndex hn hlen
    have heq := hbuffer.putIndex_eq hn hlen
    obtain ⟨rfl, rfl⟩ := h
    have hwritten : Written s.rxFifo.buffer
        (dmaWrite s.bufsz s.rxFifo.buffer s.dmaIndex bytes) s.bufsz (s.rxFifo.getIndex + k) bytes := by
      have hw := dmaWrite_written s.rxFifo.buffer s.dmaIndex bytes hlen
      rw [hindex, hrep.put_mod] at hw ⊢
      exact hw.mod
    have hwin := window_newest (k := k) hlen hwritten
    let s' : State := { s with
      rxFifo := rtDmaRecvUpdatePutIndex s.bufsz { s.rxFifo with
        buffer := dmaWrite s.bufsz s.rxFifo.buffer s.dmaIndex bytes } bytes.length
      dmaIndex := (s.dmaIndex + bytes.length) % s.bufsz }
    have hnew : SerialRx.unread s' = newest s.bufsz (SerialRx.unread s ++ bytes) := by
      have hfields := Rep.unread (s := s') hrep'
      simp only [s', hget', window_mod] at hfields
      rw [hold, ← hwin, hfields, heq]
    have hlength : (SerialRx.unread s').length = _ := length_window
    refine ⟨⟨hnew, by rw [hlength]⟩, hmode, rfl, ⟨_, hrep'⟩, fun _ => ⟨?_, hreading⟩⟩
    have hput := congrArg RtSerialRxFifo.putIndex heq
    exact (congrArg (fun i => (i + bytes.length) % s.bufsz) hindex).trans hput.symm
  | read t length =>
    obtain ⟨-, h⟩ := Option.ite_none_right_eq_some.mp h
    simp only [hmode] at h
    obtain ⟨⟨data, f⟩, hread, heq⟩ := Option.map_eq_some_iff.mp h
    cases heq
    simp only [serialDmaRx, hrep.recvedLen] at hread
    obtain ⟨f', hget, heq⟩ := Option.map_eq_some_iff.mp hread
    generalize hrecv : (if length.toInt < (k : Int) then length.toNat else k) = recvLen at hget heq
    have hle : recvLen ≤ k := by
      rw [rtDmaRecvUpdateGetIndex, hrep.recvedLen, Option.ite_none_right_eq_some] at hget
      exact hget.1
    obtain ⟨f₁, hsome, hrep', hbuffer, hput, hindex'⟩ := hrep.getIndex hn hle
    obtain rfl : f₁ = f' := Option.some.inj (hsome.symm.trans hget)
    rw [copy_window hrep.get (Nat.le_trans hle hcount), Prod.mk.injEq] at heq
    obtain ⟨rfl, rfl⟩ := heq
    have hnew := Rep.unread (s := { s with mode := .dma, rxFifo := f₁ }) hrep'
    have hlast : recvLen = min length.toNat k := by
      have hint : length.toInt = length.toNat ∨ length.toInt < 0 := by
        rw [BitVec.toInt_eq_toNat_cond]
        split <;> omega
      split at hrecv <;> omega
    refine ⟨?_, rfl, rfl, ⟨_, hrep'⟩, fun _ => ⟨?_, hreading⟩⟩
    · have htake : (SerialRx.unread s).take length.toNat = (SerialRx.unread s).take recvLen := by
        rw [hlast, List.take_eq_take_iff, hrep.length_unread]
        omega
      have hdrop : (SerialRx.unread s).drop length.toNat = (SerialRx.unread s).drop recvLen := by
        rw [hlast, List.drop_eq_drop_iff, hrep.length_unread]
        omega
      simp only [Effect, hmode]
      rw [htake, hdrop, hold, window_take hle, window_drop hle, hnew]
      simp only [hbuffer, hindex', window_mod]
      exact ⟨trivial, trivial⟩
    · exact hindex.trans hput.symm
  | proceed t => simp [call, hreading t] at h

/-- One step of a device whose indices hold the sums. -/
theorem Inv.step (hi : Inv mode n s) (h2 : 2 ≤ n) (hmax : n ≤ 65535)
    (hn : mode = .interrupt ∨ n ≤ 32768) (h : call s op = some (s', events)) :
    Effect s op events s' ∧ Inv mode n s' := by
  cases mode with
  | interrupt => exact hi.stepInterrupt h2 (by omega) h
  | dma =>
    obtain hmode | hn := hn
    · cases hmode
    · exact hi.stepDma hn h

/-- A read of a length that is not negative asks for no more than there is. -/
theorem Inv.returns (hi : Inv mode n s) (hn : mode = .interrupt ∨ n ≤ 32768)
    (hnone : s.reading t = none) (hlength : 0 ≤ length.toInt) :
    (call s (.read t length)).isSome := by
  obtain ⟨hmode, rfl, ⟨k, hrep⟩, -⟩ := hi
  subst hmode
  rw [call, if_pos hnone]
  cases hmode : s.mode with
  | interrupt => rfl
  | dma =>
    rw [hmode] at hrep hn
    obtain hn | hn := hn
    · cases hn
    have hle : (if length.toInt < (k : Int) then length.toNat else k) ≤ k := by
      have hint : length.toInt = length.toNat := by
        rw [BitVec.toInt_eq_toNat_cond] at hlength ⊢
        split at hlength <;> omega
      split <;> omega
    obtain ⟨f, hsome, -⟩ := hrep.getIndex hn hle
    simp only [serialDmaRx, hrep.recvedLen, hsome]
    rfl

theorem Inv.fifo (hi : Inv mode n s) (h2 : 2 ≤ n) (hmax : n ≤ 65535)
    (hn : mode = .interrupt ∨ n ≤ 32768) : Fifo s := by
  have heffect : ∀ op s' events, call s op = some (s', events) → Effect s op events s' :=
    fun op s' events h => (hi.step h2 hmax hn h).1
  have hreturns : ∀ t length, s.reading t = none → 0 ≤ length.toInt →
      (call s (.read t length)).isSome := fun t length => hi.returns hn
  obtain ⟨hmode, rfl, ⟨k, hrep⟩, -⟩ := hi
  subst hmode
  refine ⟨hrep.put_lt, hrep.get, ?_, heffect, hreturns⟩
  rw [hrep.length_unread]
  exact hrep.count

theorem inv_open (mode : Mode) (h2 : 2 ≤ n) (buffer : Nat → Byte) :
    Inv mode n (rtSerialOpen mode n buffer) where
  isMode := rfl
  bufsz := rfl
  rep := by
    have hput : 0 = if 0 + 0 < n then 0 + 0 else 0 + 0 - n := by rw [if_pos (by omega)]
    have hpos : 0 < n := by omega
    refine ⟨0, Nat.zero_le _, hpos, hput, ?_, fun _ h => by omega⟩
    intro hfull
    cases hfull
  dma := fun _ => ⟨rfl, fun _ => rfl⟩

theorem run_inv {buffer : Nat → Byte} {ops : List Op} (h2 : 2 ≤ n) (hmax : n ≤ 65535)
    (hn : mode = .interrupt ∨ n ≤ 32768)
    (hrun : Runs.run SerialRx.step (rtSerialOpen mode n buffer) ops = some s) : Inv mode n s := by
  refine Runs.run_invariant (fun s op s' hi hs => ?_) (inv_open mode h2 buffer) hrun
  obtain ⟨⟨s', events⟩, hcall, rfl⟩ := Option.map_eq_some_iff.mp hs
  exact (hi.step h2 hmax hn hcall).2

end steps

/-! ## Wide buffers -/

section wide

variable {n : Nat} {buffer : Nat → Byte}

/-- A block that leaves one byte of the buffer free, and a read of it. -/
def almostFull (n : Nat) : List Op :=
  [.rxDmaDone (List.replicate (n - 1) 0), .read 0 (BitVec.ofNat 32 (n - 1))]

/-- Both indices are at the last byte of the buffer. -/
theorem run_almostFull (h2 : 2 ≤ n) (hmax : n ≤ 65535) :
    ∃ s, Runs.run step (rtSerialOpen .dma n buffer) (almostFull n) = some s ∧ s.mode = .dma ∧
      s.bufsz = n ∧ s.rxFifo.putIndex = n - 1 ∧ s.rxFifo.getIndex = n - 1 ∧
      s.rxFifo.isFull = false := by
  have hput : wadd 16 0 (n - 1) = n - 1 := by
    have hadd : wadd 16 0 (n - 1) = 0 + (n - 1) := wadd_eq (by omega)
    omega
  have hint : (BitVec.ofNat 32 (n - 1)).toInt = n - 1 := by
    rw [BitVec.toInt_eq_toNat_of_lt (by simp; omega), BitVec.toNat_ofNat, Nat.mod_eq_of_lt (by omega)]
    omega
  refine ⟨⟨.dma, n, ⟨dmaWrite n buffer 0 (List.replicate (n - 1) 0), n - 1, n - 1, false⟩,
    (n - 1) % n, fun _ => none⟩, ?_, rfl, rfl, rfl, rfl, rfl⟩
  have hblock : step (rtSerialOpen .dma n buffer) (.rxDmaDone (List.replicate (n - 1) 0)) =
      some ⟨.dma, n, ⟨dmaWrite n buffer 0 (List.replicate (n - 1) 0), n - 1, 0, false⟩,
        (n - 1) % n, fun _ => none⟩ := by
    have hnot : ¬ n ≤ n - 1 := by omega
    simp [step, call, rtSerialOpen, rtDmaRecvUpdatePutIndex, hput, hnot]
  have hread : step ⟨.dma, n, ⟨dmaWrite n buffer 0 (List.replicate (n - 1) 0), n - 1, 0, false⟩,
      (n - 1) % n, fun _ => none⟩ (.read 0 (BitVec.ofNat 32 (n - 1))) =
      some ⟨.dma, n, ⟨dmaWrite n buffer 0 (List.replicate (n - 1) 0), n - 1, n - 1, false⟩,
        (n - 1) % n, fun _ => none⟩ := by
    have hnot : ¬ n ≤ n - 1 := by omega
    have hne : n - 1 ≠ 0 := by omega
    have hpos : 0 < n - 1 := by omega
    have hsame : ¬ (n : Int) - 1 < ((n - 1 : Nat) : Int) := by omega
    simp [step, call, serialDmaRx, serialFifoCalcRecvedLen, rtDmaRecvUpdateGetIndex, hput, hnot, hne,
      hpos, hint, hsame]
  rw [almostFull, Runs.run_cons, hblock, Option.bind_some, Runs.run_cons, hread]
  rfl

/-- The sum of the index and a block of the size of the buffer wraps, and the length that is
reported is not the size. -/
theorem not_fifo_of_wide {s : State} (hwide : 32768 < n) (hmax : n ≤ 65535) (hmode : s.mode = .dma)
    (hbufsz : s.bufsz = n) (hput : s.rxFifo.putIndex = n - 1) (hget : s.rxFifo.getIndex = n - 1)
    (hfull : s.rxFifo.isFull = false) : ¬ Fifo s := by
  intro hfifo
  have hsum : wadd 16 (n - 1) n = 2 * n - 65537 := by
    rw [wadd]
    omega
  have hold : unread s = [] := by
    have hlen : serialFifoCalcRecvedLen s.bufsz s.rxFifo = 0 := by
      rw [serialFifoCalcRecvedLen, hput, hget, if_pos rfl, hfull]
      rfl
    rw [unread, hlen]
    rfl
  obtain ⟨hnewest, -⟩ := hfifo.effect (.rxDmaDone (List.replicate n 0)) _ _
    (if_pos ⟨hmode, by simp [hbufsz]⟩)
  have hlength := congrArg List.length hnewest
  have hnot : ¬ 2 * n - 65537 = n - 1 := by omega
  have hround : ¬ n ≤ 2 * n - 65537 := by omega
  have hbehind : ¬ n - 1 < 2 * n - 65537 := by omega
  rw [hold] at hlength
  simp only [unread, length_window, newest, List.nil_append, List.length_replicate, hbufsz,
    Nat.sub_self, List.drop_zero] at hlength
  simp [rtDmaRecvUpdatePutIndex, serialFifoCalcRecvedLen, hput, hget, hfull, hsum, hnot, hround,
    hbehind] at hlength
  omega

end wide

/-- The receive buffer is a FIFO of the newest bytes in every run if and only if it is filled
byte by byte, or its half-word indices can hold the sum of an index and a block. -/
theorem serial_rx_fifo (mode : Mode) (n : Nat) (h2 : 2 ≤ n) (hmax : n ≤ 65535)
    (buffer : Nat → Byte) :
    (∀ ops s, Runs.run step (rtSerialOpen mode n buffer) ops = some s → Fifo s) ↔
      mode = .interrupt ∨ n ≤ 32768 := by
  constructor
  · intro h
    cases mode with
    | interrupt => exact .inl rfl
    | dma =>
      by_contra hn
      have hwide : 32768 < n := by
        by_contra hle
        exact hn (.inr (by omega))
      obtain ⟨s, hrun, hmode, hbufsz, hput, hget, hfull⟩ := run_almostFull h2 hmax
      exact not_fifo_of_wide hwide hmax hmode hbufsz hput hget hfull (h _ s hrun)
  · intro hn ops s hrun
    exact (run_inv h2 hmax hn hrun).fifo h2 hmax hn

/-- The second block overwrites the two oldest bytes of a buffer of four, and a read takes three
of the others. -/
def overrun : List Op := [.rxDmaDone [1, 2, 3], .rxDmaDone [4, 5, 6], .read 0 3]

theorem serial_rx_fifo_four :
    ∃ s, Runs.run step (rtSerialOpen .dma 4 (fun _ => 0)) overrun = some s ∧ unread s = [6] ∧
      Fifo s := by
  have hlast : (Runs.run step (rtSerialOpen .dma 4 (fun _ => 0)) overrun).map unread =
      some [6] := by
    decide +kernel
  obtain ⟨s, hrun, hs⟩ := Option.map_eq_some_iff.mp hlast
  have hfifo := (serial_rx_fifo .dma 4 (by decide) (by decide) (fun _ => 0)).mpr
    (.inr (by decide)) overrun s hrun
  exact ⟨s, hrun, hs, hfifo⟩

/-- After a block and a read of 39999 bytes, a block of 40000 bytes is reported as one of 14464. -/
theorem wide_buffer_not_fifo :
    ∃ ops s, Runs.run step (rtSerialOpen .dma 40000 (fun _ => 0)) ops = some s ∧ ¬ Fifo s := by
  obtain ⟨s, hrun, hmode, hbufsz, hput, hget, hfull⟩ :=
    @run_almostFull 40000 (fun _ => 0) (by decide) (by decide)
  have hnot := not_fifo_of_wide (by decide) (by decide) hmode hbufsz hput hget hfull
  exact ⟨_, s, hrun, hnot⟩

end RtThread.SerialRx
