import Mathlib.Logic.Function.Iterate
import RtThread.Lib.Words

/-!
# `rt_memset`, `rt_memcpy` and `rt_memmove`

The memory primitives of `kservice.c` with their loops over words, and with
`RT_KSERVICE_USING_TINY_SIZE`. A `long` has four or eight bytes in either order. The counter of
`rt_memcpy` is an `int`, which loses the upper half of a count that is a `long` of eight bytes;
compared with a size it is an unsigned long again.
-/
namespace RtThread.Kservice

open Words

structure Arch where
  /-- `sizeof(long)`. -/
  long : Nat
  long_eq : long = 4 ∨ long = 8
  order : Order

theorem Arch.long_pos (c : Arch) : 0 < c.long := by
  rcases c.long_eq with h | h <;> omega

/-- The words that a turn of a loop moves: one, or the four of an unrolled loop. -/
inductive Block where
  | little | big
  deriving DecidableEq

def Block.words : Block → Nat
  | little => 1
  | big => 4

/-- `LITTLEBLOCKSIZE` and `BIGBLOCKSIZE`. -/
def Arch.blockSize (c : Arch) (block : Block) : Nat := block.words * c.long

theorem Arch.blockSize_pos (c : Arch) (block : Block) : 0 < c.blockSize block := by
  have hpos := c.long_pos
  cases block <;> simp only [blockSize, Block.words] <;> omega

theorem Arch.blockSize_le (c : Arch) (block : Block) : c.blockSize block ≤ 32 := by
  rcases c.long_eq with h | h <;> cases block <;> simp only [blockSize, Block.words] <;> omega

/-! ## `rt_memset` -/

/-- The memory with the pointer that is written through, and what is left to write. -/
structure Fill where
  mem : Mem
  addr : Nat
  count : Nat

/-- `while (count--) *m++ = b`. -/
def fillBytes (b : Byte) (mem : Mem) (m : Nat) : Nat → Mem
  | 0 => mem
  | count + 1 => fillBytes b (Function.update mem m b) (m + 1) count

/-- The word with the byte `d` in every place. -/
def fillBuffer (c : Arch) (d : Nat) : Nat :=
  if c.long = 4 then
    let buffer := d <<< 8 ||| d
    (buffer ||| buffer <<< 16) % 2 ^ 32
  else (fun buffer => (buffer <<< 8 ||| d) % 2 ^ (8 * c.long))^[c.long] 0

/-- `*aligned_addr++ = buffer`. -/
def fillLong (c : Arch) (buffer : Nat) (x : Fill) : Fill :=
  { x with mem := store c.order c.long x.mem x.addr buffer, addr := x.addr + c.long }

/-- A loop of `rt_memset` over words. -/
def fillLongs (c : Arch) (buffer : Nat) (block : Block) (x : Fill) : Fill :=
  if c.blockSize block ≤ x.count then
    fillLongs c buffer block
      { (fillLong c buffer)^[block.words] x with count := x.count - c.blockSize block }
  else x
termination_by x.count
decreasing_by
  have hpos := c.blockSize_pos block
  omega

def rtMemset (c : Arch) (mem : Mem) (s : Nat) (v : BitVec 32) (count : Nat) : Mem :=
  let d := v &&& 0xff
  if c.long ≤ count ∧ s % c.long = 0 then
    let x := fillLongs c (fillBuffer c d.toNat) .little
      (fillLongs c (fillBuffer c d.toNat) .big ⟨mem, s, count⟩)
    fillBytes (d.setWidth 8) x.mem x.addr x.count
  else fillBytes (d.setWidth 8) mem s count

/-- `rt_memset` with `RT_KSERVICE_USING_TINY_SIZE`. -/
def tinyRtMemset (mem : Mem) (s : Nat) (v : BitVec 32) (count : Nat) : Mem :=
  fillBytes (v.setWidth 8) mem s count

section memset

variable {c : Arch} {b : Byte} {mem : Mem} {x y z : Fill} {m n count j k : Nat}

theorem update_eq_filled : Function.update mem m b = filled mem m 1 b := by
  funext x
  rw [Function.update_apply, filled]
  exact if_congr (by omega) rfl rfl

theorem fillBytes_eq : fillBytes b mem m count = filled mem m count b := by
  induction count generalizing mem m with
  | zero => exact filled_zero.symm
  | succ count ih => rw [fillBytes, ih, update_eq_filled, filled_append, Nat.add_comm 1 count]

/-- `k` bytes have been written since `x`. -/
structure Filled (b : Byte) (x y : Fill) (k : Nat) : Prop where
  mem : y.mem = filled x.mem x.addr k b
  addr : y.addr = x.addr + k

theorem Filled.trans (h : Filled b x y j) (h' : Filled b y z k) : Filled b x z (j + k) where
  mem := by rw [h'.mem, h.mem, h.addr, filled_append]
  addr := by rw [h'.addr, h.addr, Nat.add_assoc]

/-- One byte more, shifted in from below. -/
theorem shifted_in (n : Nat) :
    (value (fun _ => b) n <<< 8 ||| b.toNat) = value (fun _ => b) (n + 1) := by
  rw [value_const_succ, ← Nat.shiftLeft_add_eq_or_of_lt b.isLt, Nat.shiftLeft_eq]

theorem fillBuffer_eq (c : Arch) (b : Byte) : fillBuffer c b.toNat = value (fun _ => b) c.long := by
  have hone : value (fun _ => b) 1 = b.toNat := by rw [value_const_succ]; simp
  unfold fillBuffer
  split
  case isTrue hfour =>
    have htwo : (b.toNat <<< 8 ||| b.toNat) = value (fun _ => b) 2 := by
      rw [← shifted_in 1, hone]
    have hlt := value_lt (f := fun _ => b) (n := 4)
    have hdouble : (value (fun _ => b) 2 ||| value (fun _ => b) 2 <<< 16) =
        value (fun _ => b) 4 := by
      rw [Nat.or_comm, ← Nat.shiftLeft_add_eq_or_of_lt (value_lt (n := 2)), Nat.shiftLeft_eq]
      simp only [value_const_succ, value_zero]
      omega
    dsimp only
    rw [htwo, hdouble, hfour]
    exact Nat.mod_eq_of_lt hlt
  case isFalse =>
    -- every turn shifts one byte more in, and none is lost
    have hturns : ∀ n ≤ c.long,
        (fun buffer => (buffer <<< 8 ||| b.toNat) % 2 ^ (8 * c.long))^[n] 0 =
          value (fun _ => b) n := by
      intro n hn
      induction n with
      | zero => rfl
      | succ n ih =>
        have hlt := (value_lt (f := fun _ => b) (n := n + 1)).trans_le
          (Nat.pow_le_pow_right Nat.two_pos (show 8 * (n + 1) ≤ 8 * c.long by omega))
        rw [Function.iterate_succ_apply', ih (by omega), shifted_in]
        exact Nat.mod_eq_of_lt hlt
    exact hturns c.long (Nat.le_refl _)

theorem filled_long : Filled b x (fillLong c (fillBuffer c b.toNat) x) c.long where
  mem := by rw [fillBuffer_eq]; exact store_const
  addr := rfl

theorem filled_turn :
    Filled b x ((fillLong c (fillBuffer c b.toNat))^[n] x) (n * c.long) := by
  induction n with
  | zero =>
    rw [Nat.zero_mul]
    exact ⟨filled_zero.symm, rfl⟩
  | succ n ih =>
    rw [Function.iterate_succ_apply', Nat.succ_mul]
    exact ih.trans filled_long

/-- What the loop has taken from the count it has written. -/
theorem filled_longs (block : Block) (x : Fill) :
    ∃ k, Filled b x (fillLongs c (fillBuffer c b.toNat) block x) k ∧
      k + (fillLongs c (fillBuffer c b.toNat) block x).count = x.count := by
  induction x using fillLongs.induct c (fillBuffer c b.toNat) block with
  | case1 x hle ih =>
    obtain ⟨k, hfilled, hcount⟩ := ih
    rw [fillLongs, if_pos hle]
    refine ⟨c.blockSize block + k, Filled.trans ?_ hfilled, ?_⟩
    · exact ⟨filled_turn.mem, filled_turn.addr⟩
    · rw [Nat.add_assoc, hcount]
      exact Nat.add_sub_cancel' hle
  | case2 x hgt =>
    rw [fillLongs, if_neg hgt]
    exact ⟨0, ⟨filled_zero.symm, rfl⟩, Nat.zero_add _⟩

theorem rtMemset_eq (c : Arch) (mem : Mem) (s : Nat) (v : BitVec 32) (count : Nat) :
    rtMemset c mem s v count = filled mem s count (v.setWidth 8) := by
  have hnat : (v &&& 0xff).toNat = (v.setWidth 8).toNat := by
    exact Nat.and_two_pow_sub_one_eq_mod v.toNat 8
  have hbyte : (v &&& 0xff).setWidth 8 = v.setWidth 8 := by
    apply BitVec.eq_of_toNat_eq
    rw [BitVec.toNat_setWidth, hnat]
    exact Nat.mod_eq_of_lt (v.setWidth 8).isLt
  unfold rtMemset
  dsimp only
  rw [hbyte, hnat]
  split
  · obtain ⟨j, hblocks, hj⟩ := filled_longs (c := c) (b := v.setWidth 8) .big ⟨mem, s, count⟩
    obtain ⟨k, hlongs, hk⟩ := filled_longs (c := c) (b := v.setWidth 8) .little
      (fillLongs c (fillBuffer c (v.setWidth 8).toNat) .big ⟨mem, s, count⟩)
    have hboth := hblocks.trans hlongs
    rw [fillBytes_eq, hboth.mem, hboth.addr, filled_append]
    congr 1
    simp only at hj
    omega
  · exact fillBytes_eq

end memset

/-! ## `rt_memcpy` -/

/-- The memory with the two pointers and the counter. -/
structure Copy where
  mem : Mem
  dst : Nat
  src : Nat
  len : BitVec 32

def Copy.setLen (x : Copy) (len : BitVec 32) : Copy := { x with len := len }

@[simp] theorem Copy.setLen_dst (x : Copy) (len : BitVec 32) : (x.setLen len).dst = x.dst := rfl

@[simp] theorem Copy.setLen_src (x : Copy) (len : BitVec 32) : (x.setLen len).src = x.src := rfl

@[simp] theorem Copy.setLen_len (x : Copy) (len : BitVec 32) : (x.setLen len).len = len := rfl

/-- The counter as an unsigned long. -/
def ulong (c : Arch) (len : BitVec 32) : Nat := (len.signExtend (8 * c.long)).toNat

/-- A negative counter is greater than any size. -/
theorem le_ulong (c : Arch) (len : BitVec 32) {n : Nat} (hn : n ≤ 2 ^ 31) :
    n ≤ ulong c len ↔ n ≤ len.toNat := by
  have hwide : 2 ^ 32 ≤ 2 ^ (8 * c.long) :=
    Nat.pow_le_pow_right Nat.two_pos (by rcases c.long_eq with h | h <;> omega)
  have hsign : len.msb = true ↔ 2 ^ 31 ≤ len.toNat := by
    rw [BitVec.msb_eq_decide, decide_eq_true_iff]
  rw [ulong, BitVec.toNat_signExtend, BitVec.toNat_setWidth, Nat.mod_eq_of_lt (by omega)]
  split
  case isTrue hneg =>
    have := hsign.mp hneg
    omega
  case isFalse hpos => rw [Nat.add_zero]

theorem toNat_sub_one {len : BitVec 32} (hne : len ≠ 0) : (len - 1).toNat + 1 = len.toNat := by
  have hpos : len.toNat ≠ 0 := fun h => hne (BitVec.eq_of_toNat_eq h)
  have hone : (1 : BitVec 32).toNat = 1 := rfl
  rw [BitVec.toNat_sub_of_le (by rw [BitVec.le_def, hone]; omega), hone]
  omega

/-- `while (len--) *dst_ptr++ = *src_ptr++`. -/
def copyBytes (mem : Mem) (dst src : Nat) (len : BitVec 32) : Mem :=
  if len = 0 then mem
  else copyBytes (Function.update mem dst (mem src)) (dst + 1) (src + 1) (len - 1)
termination_by len.toNat
decreasing_by
  have hlen := toNat_sub_one ‹¬ len = 0›
  omega

/-- `*aligned_dst++ = *aligned_src++`. -/
def copyLong (c : Arch) (x : Copy) : Copy :=
  { x with
    mem := store c.order c.long x.mem x.dst (load c.order c.long x.mem x.src)
    dst := x.dst + c.long
    src := x.src + c.long }

theorem toNat_sub_blockSize (c : Arch) (block : Block) {len : BitVec 32}
    (hle : c.blockSize block ≤ ulong c len) :
    (len - BitVec.ofNat 32 (c.blockSize block)).toNat + c.blockSize block = len.toNat := by
  have hsize := c.blockSize_le block
  have hlen := (le_ulong c len (by omega)).mp hle
  have hmod : (BitVec.ofNat 32 (c.blockSize block)).toNat = c.blockSize block :=
    Nat.mod_eq_of_lt (by omega)
  rw [BitVec.toNat_sub_of_le (by rwa [BitVec.le_def, hmod]), hmod]
  omega

/-- A loop of `rt_memcpy` over words. -/
def copyLongs (c : Arch) (block : Block) (x : Copy) : Copy :=
  if c.blockSize block ≤ ulong c x.len then
    copyLongs c block
      (((copyLong c)^[block.words] x).setLen (x.len - BitVec.ofNat 32 (c.blockSize block)))
  else x
termination_by x.len.toNat
decreasing_by
  have hpos := c.blockSize_pos block
  have hlen := toNat_sub_blockSize c block ‹_›
  rw [Copy.setLen_len]
  omega

def rtMemcpy (c : Arch) (mem : Mem) (dst src count : Nat) : Mem :=
  let len := BitVec.ofNat 32 count
  if c.blockSize .big ≤ ulong c len ∧ src % c.long = 0 ∧ dst % c.long = 0 then
    let x := copyLongs c .little (copyLongs c .big ⟨mem, dst, src, len⟩)
    copyBytes x.mem x.dst x.src x.len
  else copyBytes mem dst src len

/-- `while (count--) *tmp++ = *s++`. -/
def copyUp (mem : Mem) (tmp s : Nat) : Nat → Mem
  | 0 => mem
  | n + 1 => copyUp (Function.update mem tmp (mem s)) (tmp + 1) (s + 1) n

/-- `tmp[len - 1] = s[len - 1]` for `len` from `n` down to one. -/
def copyDown (mem : Mem) (tmp s : Nat) : Nat → Mem
  | 0 => mem
  | n + 1 => copyDown (Function.update mem (tmp + n) (mem (s + n))) tmp s n

/-- `rt_memcpy` with `RT_KSERVICE_USING_TINY_SIZE`. -/
def tinyRtMemcpy (mem : Mem) (dst src count : Nat) : Mem :=
  if dst ≤ src ∨ src + count < dst then copyUp mem dst src count else copyDown mem dst src count

section memcpy

variable {c : Arch} {mem : Mem} {x y z : Copy} {dst src n j k : Nat}

theorem update_eq_copied : Function.update mem dst (mem src) = copied mem dst src 1 := by
  funext a
  rw [Function.update_apply, copied]
  by_cases ha : a = dst
  · rw [if_pos ha, if_pos (by omega), ha, Nat.sub_self, Nat.add_zero]
  · rw [if_neg ha, if_neg (by omega)]

theorem copyUp_eq (h : dst ≤ src ∨ src + n ≤ dst) :
    copyUp mem dst src n = copied mem dst src n := by
  induction n generalizing mem dst src with
  | zero => exact copied_zero.symm
  | succ n ih =>
    rw [copyUp, ih (by omega), update_eq_copied, copied_append (by omega), Nat.add_comm 1 n]

theorem copyDown_eq (h : src ≤ dst) : copyDown mem dst src n = copied mem dst src n := by
  induction n generalizing mem with
  | zero => exact copied_zero.symm
  | succ n ih => rw [copyDown, ih, update_eq_copied, copied_prepend h]

theorem copyBytes_eq (mem : Mem) (dst src : Nat) (len : BitVec 32) :
    copyBytes mem dst src len = copyUp mem dst src len.toNat := by
  induction mem, dst, src, len using copyBytes.induct with
  | case1 mem dst src => rw [copyBytes, if_pos rfl]; rfl
  | case2 mem dst src len hne ih =>
    have hpos : len.toNat = (len - 1).toNat + 1 := (toNat_sub_one hne).symm
    rw [copyBytes, if_neg hne, ih, hpos, copyUp]

/-- `k` bytes have been copied since `x`. -/
structure Copied (x y : Copy) (k : Nat) : Prop where
  mem : y.mem = copied x.mem x.dst x.src k
  dst : y.dst = x.dst + k
  src : y.src = x.src + k

theorem Copied.trans (h : Copied x y j) (h' : Copied y z k)
    (hapart : x.dst ≤ x.src ∨ x.src + (j + k) ≤ x.dst) : Copied x z (j + k) where
  mem := by rw [h'.mem, h.mem, h.dst, h.src, copied_append hapart]
  dst := by rw [h'.dst, h.dst, Nat.add_assoc]
  src := by rw [h'.src, h.src, Nat.add_assoc]

theorem Copied.setLen (h : Copied x y k) (len : BitVec 32) : Copied x (y.setLen len) k :=
  ⟨h.mem, h.dst, h.src⟩

theorem copied_turn (hapart : x.dst ≤ x.src ∨ x.src + n * c.long ≤ x.dst) :
    Copied x ((copyLong c)^[n] x) (n * c.long) := by
  induction n with
  | zero =>
    rw [Nat.zero_mul]
    exact ⟨copied_zero.symm, rfl, rfl⟩
  | succ n ih =>
    rw [Nat.succ_mul] at hapart ⊢
    rw [Function.iterate_succ_apply']
    exact (ih (by omega)).trans ⟨store_load, rfl, rfl⟩ hapart

/-- What the loop has taken from the counter it has copied. -/
theorem copied_longs (block : Block) (x : Copy)
    (hapart : x.dst ≤ x.src ∨ x.src + x.len.toNat ≤ x.dst) :
    ∃ k, Copied x (copyLongs c block x) k ∧ k + (copyLongs c block x).len.toNat = x.len.toNat := by
  induction x using copyLongs.induct c block with
  | case1 x hle ih =>
    have hlen := toNat_sub_blockSize c block hle
    have hturn : Copied x ((copyLong c)^[block.words] x) (c.blockSize block) := by
      apply copied_turn
      show _ ∨ x.src + c.blockSize block ≤ x.dst
      omega
    obtain ⟨k, hcopied, hcount⟩ := ih (by
      rw [Copy.setLen_dst, Copy.setLen_src, Copy.setLen_len, hturn.dst, hturn.src]
      omega)
    rw [Copy.setLen_len] at hcount
    rw [copyLongs, if_pos hle]
    refine ⟨c.blockSize block + k, ?_, by omega⟩
    exact (hturn.setLen _).trans hcopied (by omega)
  | case2 x hgt =>
    rw [copyLongs, if_neg hgt]
    exact ⟨0, ⟨copied_zero.symm, rfl, rfl⟩, Nat.zero_add _⟩

/-- The bytes that are copied are as many as the lower half of the count says. -/
theorem rtMemcpy_eq (hapart : dst + n ≤ src ∨ src + n ≤ dst) :
    rtMemcpy c mem dst src n = copied mem dst src (n % 2 ^ 32) := by
  have hlen : (BitVec.ofNat 32 n).toNat = n % 2 ^ 32 := BitVec.toNat_ofNat n 32
  unfold rtMemcpy
  dsimp only
  split
  · obtain ⟨j, hblocks, hj⟩ := copied_longs (c := c) .big ⟨mem, dst, src, BitVec.ofNat 32 n⟩
      (by simp only [hlen]; omega)
    obtain ⟨k, hlongs, hk⟩ := copied_longs (c := c) .little _ (by
      rw [hblocks.dst, hblocks.src]
      simp only at hj ⊢
      omega)
    have hboth := hblocks.trans hlongs (by simp only at hj ⊢; omega)
    simp only [hlen] at hj
    rw [copyBytes_eq, copyUp_eq (by rw [hboth.dst, hboth.src]; simp only; omega), hboth.mem,
      hboth.dst, hboth.src, copied_append (by simp only; omega)]
    congr 1
    omega
  · rw [copyBytes_eq, hlen]
    exact copyUp_eq (by omega)

theorem tinyRtMemcpy_eq : tinyRtMemcpy mem dst src n = copied mem dst src n := by
  unfold tinyRtMemcpy
  split
  case isTrue h => exact copyUp_eq (by omega)
  case isFalse h => exact copyDown_eq (by omega)

end memcpy

/-! ## `rt_memmove` -/

/-- `while (n--) *(--tmp) = *(--s)`. -/
def moveDown (mem : Mem) (tmp s : Nat) : Nat → Mem
  | 0 => mem
  | n + 1 => moveDown (Function.update mem (tmp - 1) (mem (s - 1))) (tmp - 1) (s - 1) n

def rtMemmove (mem : Mem) (dest src n : Nat) : Mem :=
  if src < dest ∧ dest < src + n then moveDown mem (dest + n) (src + n) n
  else copyUp mem dest src n

theorem moveDown_eq {mem : Mem} {dest src n : Nat} :
    moveDown mem (dest + n) (src + n) n = copyDown mem dest src n := by
  induction n generalizing mem with
  | zero => rfl
  | succ n ih => exact ih

theorem rtMemmove_eq {mem : Mem} {dest src n : Nat} :
    rtMemmove mem dest src n = copied mem dest src n := by
  unfold rtMemmove
  split
  case isTrue h => rw [moveDown_eq, copyDown_eq (by omega)]
  case isFalse h => exact copyUp_eq (by omega)

/-! ## All of them -/

/-- A region is filled, and a region is moved from a snapshot, whatever the addresses, the count
and the contents are. A region apart from its source is copied when the count is less than
`2 ^ 32`, and for no other count. -/
theorem memory_primitives (c : Arch) :
    (∀ mem s v count, rtMemset c mem s v count = filled mem s count (v.setWidth 8) ∧
      tinyRtMemset mem s v count = filled mem s count (v.setWidth 8)) ∧
    (∀ mem dest src n, rtMemmove mem dest src n = copied mem dest src n) ∧
    (∀ mem dst src count, tinyRtMemcpy mem dst src count = copied mem dst src count) ∧
    ∀ dst src count, dst + count ≤ src ∨ src + count ≤ dst →
      ((∀ mem, rtMemcpy c mem dst src count = copied mem dst src count) ↔ count < 2 ^ 32) := by
  refine ⟨?_, ?_, ?_, ?_⟩
  · intro mem s v count
    exact ⟨rtMemset_eq c mem s v count, fillBytes_eq⟩
  · intro mem dest src n
    exact rtMemmove_eq
  · intro mem dst src count
    exact tinyRtMemcpy_eq
  · intro dst src count hapart
    constructor
    · intro hcopied
      have hall : count % 2 ^ 32 = count :=
        copied_inj hapart (Nat.mod_le _ _) fun mem => (rtMemcpy_eq hapart).symm.trans (hcopied mem)
      rw [← hall]
      exact Nat.mod_lt _ (Nat.two_pow_pos 32)
    · intro hlt mem
      rw [rtMemcpy_eq hapart, Nat.mod_eq_of_lt hlt]

/-- Bytes of an odd address are copied to the word behind them. -/
theorem memory_primitives_copies (mem : Mem) :
    rtMemcpy ⟨8, Or.inr rfl, .little⟩ mem 104 11 93 = copied mem 104 11 93 :=
  ((memory_primitives ⟨8, Or.inr rfl, .little⟩).2.2.2 104 11 93 (Or.inr (by decide))).mpr
    (by decide) mem

/-- A copy of `2 ^ 32` bytes copies none. -/
theorem memcpy_lost : ∃ mem, rtMemcpy ⟨8, Or.inr rfl, .little⟩ mem (2 ^ 32) 0 (2 ^ 32) ≠
    copied mem (2 ^ 32) 0 (2 ^ 32) := by
  refine ⟨fun x => if x = 0 then 1 else 0, ?_⟩
  intro heq
  rw [rtMemcpy_eq (Or.inr (by decide)), Nat.mod_self, copied_zero] at heq
  have hbyte := congrFun heq (2 ^ 32)
  simp [copied] at hbyte

end RtThread.Kservice
