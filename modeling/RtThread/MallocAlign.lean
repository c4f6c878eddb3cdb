import RtThread.RtDef
import Mathlib.Logic.Function.Basic

/-!
# Aligned allocation

`rt_malloc_align` and `rt_free_align` of `kservice.c` over any heap. The request is enlarged by the
alignment, and the pointer of the heap is kept in the word before the address that is returned.
Memory holds bytes; words are stored with the low byte first.
-/
namespace RtThread.MallocAlign

/-- `sizeof(void *)`. -/
structure Machine where
  pointerSize : Nat
  pointerSize_eq : pointerSize = 4 ∨ pointerSize = 8

/-- The width of `rt_size_t` and of `rt_ubase_t`. -/
def Machine.bits (c : Machine) : Nat := 8 * c.pointerSize

abbrev Memory := Nat → BitVec 8

/-- A word of `n` bytes at the address `a`. -/
def load (m : Memory) : Nat → Nat → Nat
  | 0, _ => 0
  | n + 1, a => (m a).toNat + 256 * load m n (a + 1)

def store : Memory → Nat → Nat → Nat → Memory
  | m, 0, _, _ => m
  | m, n + 1, a, v => store (Function.update m a (BitVec.ofNat 8 v)) n (a + 1) (v / 256)

/-- `x & ~mask`. -/
def clear (x mask : Nat) : Nat := x - (x &&& mask)

/-- The size that `rt_malloc_align` requests. -/
def alignSize (c : Machine) (size align : Nat) : Nat :=
  wadd c.bits (rtAlign c.bits size c.pointerSize) (rtAlign c.bits align c.pointerSize)

/-- `align_ptr`, for the rounded alignment. -/
def alignPtr (c : Machine) (ptr align : Nat) : Nat :=
  if ptr &&& wsub c.bits align 1 = 0 then wadd c.bits ptr align
  else clear (wadd c.bits ptr (wsub c.bits align 1)) (wsub c.bits align 1)

variable {Heap : Type}

/-- `rt_malloc_align`, for a heap with `rt_malloc`. -/
def rtMallocAlign (c : Machine) (rtMalloc : Heap → Nat → Heap × Option Nat) (heap : Heap)
    (m : Memory) (size align : Nat) : Heap × Memory × Option Nat :=
  match rtMalloc heap (alignSize c size align) with
  | (heap, none) => (heap, m, none)
  | (heap, some ptr) =>
    let align := alignPtr c ptr (rtAlign c.bits align c.pointerSize)
    (heap, store m c.pointerSize (wsub c.bits align c.pointerSize) ptr, some align)

/-- `rt_free_align`, for a heap with `rt_free`. -/
def rtFreeAlign (c : Machine) (rtFree : Heap → Nat → Heap) (heap : Heap) (m : Memory)
    (ptr : Nat) : Heap :=
  rtFree heap (load m c.pointerSize (wsub c.bits ptr c.pointerSize))

/-! ## Words in memory -/

variable {m m' : Memory} {n a v : Nat}

theorem load_congr (h : ∀ b, a ≤ b → b < a + n → m' b = m b) : load m' n a = load m n a := by
  induction n generalizing a with
  | zero => rfl
  | succ n ih =>
    rw [load, load, h a (Nat.le_refl a) (by omega),
      ih fun b hb hb' => h b (by omega) (by omega)]

/-- A store changes its own bytes only. -/
theorem store_of_outside {b : Nat} (h : b < a ∨ a + n ≤ b) : store m n a v b = m b := by
  induction n generalizing m a v with
  | zero => rfl
  | succ n ih =>
    rw [store, ih (by omega)]
    exact Function.update_of_ne (by omega) _ _

theorem load_store : load (store m n a v) n a = v % 256 ^ n := by
  induction n generalizing m a v with
  | zero => exact (Nat.mod_one v).symm
  | succ n ih =>
    have hself : store (Function.update m a (BitVec.ofNat 8 v)) n (a + 1) (v / 256) a =
        BitVec.ofNat 8 v := by
      rw [store_of_outside (by omega), Function.update_self]
    have hpow : 256 ^ (n + 1) = 256 * 256 ^ n := by rw [Nat.pow_succ, Nat.mul_comm]
    rw [store, load, hself, ih, BitVec.toNat_ofNat, hpow, Nat.mod_mul]

/-! ## Where the aligned address lies -/

variable {c : Machine} {size align ptr : Nat}

theorem pointerSize_pos (c : Machine) : 0 < c.pointerSize := by
  obtain h | h := c.pointerSize_eq <;> omega

theorem bytes_of_bits (c : Machine) : 256 ^ c.pointerSize = 2 ^ c.bits := by
  rw [Machine.bits, Nat.pow_mul]

/-- A power of two, rounded to the size of a pointer, is the larger of the two. -/
theorem rtAlign_power {k : Nat} (hsum : 2 ^ k + c.pointerSize - 1 < 2 ^ c.bits) :
    ∃ j, rtAlign c.bits (2 ^ k) c.pointerSize = 2 ^ j ∧ 2 ^ k ∣ 2 ^ j ∧ c.pointerSize ∣ 2 ^ j := by
  obtain ⟨i, hi⟩ : ∃ i, c.pointerSize = 2 ^ i := by
    obtain h | h := c.pointerSize_eq
    · exact ⟨2, h⟩
    · exact ⟨3, h⟩
  have hpos := pointerSize_pos c
  rw [rtAlign_eq hsum]
  obtain hle | hle := Nat.le_total i k
  · have hdvd : c.pointerSize ∣ 2 ^ k := by
      rw [hi]
      exact Nat.pow_dvd_pow 2 hle
    refine ⟨k, ?_, Nat.dvd_refl _, hdvd⟩
    obtain ⟨q, hq⟩ := hdvd
    rw [hq, Nat.add_sub_assoc hpos, Nat.mul_add_div hpos, Nat.div_eq_of_lt (by omega),
      Nat.add_zero, Nat.mul_comm]
  · have hpow : 2 ^ k ≤ c.pointerSize := by
      rw [hi]
      exact Nat.pow_le_pow_right (by decide) hle
    have hone : 0 < 2 ^ k := Nat.two_pow_pos k
    have hdiv : (2 ^ k + c.pointerSize - 1) / c.pointerSize = 1 :=
      Nat.div_eq_of_lt_le (by omega) (by omega)
    refine ⟨i, ?_, Nat.pow_dvd_pow 2 hle, ?_⟩
    · rw [hdiv, Nat.one_mul, hi]
    · rw [hi]

/-- For a power of two the address is the next multiple behind the pointer. -/
theorem alignPtr_eq {j : Nat} (htop : ptr + 2 ^ j < 2 ^ c.bits) :
    alignPtr c ptr (2 ^ j) = (ptr / 2 ^ j + 1) * 2 ^ j := by
  have hpos : 0 < 2 ^ j := Nat.two_pow_pos j
  have hmask : wsub c.bits (2 ^ j) 1 = 2 ^ j - 1 := wsub_eq hpos (by omega)
  have hdiv := Nat.div_add_mod ptr (2 ^ j)
  unfold alignPtr clear
  rw [hmask, Nat.and_two_pow_sub_one_eq_mod, wadd_eq htop, wadd_eq (by omega),
    Nat.and_two_pow_sub_one_eq_mod, Nat.add_mul, Nat.one_mul, Nat.mul_comm (ptr / 2 ^ j)]
  split
  case isTrue hzero => omega
  case isFalse hne =>
    have hsum : ptr + (2 ^ j - 1) = 2 ^ j * (ptr / 2 ^ j + 1) + (ptr % 2 ^ j - 1) := by
      rw [Nat.mul_add, Nat.mul_one]
      omega
    have hrest : (ptr + (2 ^ j - 1)) % 2 ^ j = ptr % 2 ^ j - 1 := by
      rw [hsum, Nat.mul_add_mod]
      exact Nat.mod_eq_of_lt (by omega)
    omega

/-- The address is aligned, and the word of the pointer and the bytes of the caller are in the block
of the heap. -/
structure Placed (c : Machine) (ptr size align at' : Nat) : Prop where
  aligned : align ∣ at'
  word : ptr + c.pointerSize ≤ at'
  bytes : at' + size ≤ ptr + alignSize c size align

theorem alignPtr_placed {k : Nat} (hsize : size + c.pointerSize - 1 < 2 ^ c.bits)
    (halign : 2 ^ k + c.pointerSize - 1 < 2 ^ c.bits)
    (hsum : rtAlign c.bits size c.pointerSize + rtAlign c.bits (2 ^ k) c.pointerSize < 2 ^ c.bits)
    (hptr : c.pointerSize ∣ ptr) (htop : ptr + alignSize c size (2 ^ k) < 2 ^ c.bits) :
    Placed c ptr size (2 ^ k) (alignPtr c ptr (rtAlign c.bits (2 ^ k) c.pointerSize)) := by
  obtain ⟨j, hj, hdvd, hpointer⟩ := rtAlign_power halign
  have hge := le_rtAlign (pointerSize_pos c) hsize
  have htotal : alignSize c size (2 ^ k) = rtAlign c.bits size c.pointerSize + 2 ^ j := by
    rw [alignSize, wadd_eq hsum, hj]
  rw [hj, alignPtr_eq (by omega)]
  have hdiv := Nat.div_add_mod ptr (2 ^ j)
  have hnext : (ptr / 2 ^ j + 1) * 2 ^ j = 2 ^ j * (ptr / 2 ^ j) + 2 ^ j := by
    rw [Nat.add_mul, Nat.one_mul, Nat.mul_comm]
  refine ⟨Nat.dvd_trans hdvd (Nat.dvd_mul_left _ _), ?_, ?_⟩
  · have hgap : c.pointerSize ∣ 2 ^ j - ptr % 2 ^ j :=
      Nat.dvd_sub hpointer ((Nat.dvd_mod_iff hpointer).mpr hptr)
    have hle := Nat.le_of_dvd (by omega) hgap
    omega
  · omega

/-- For a power of two, sums that do not wrap, and a pointer of the heap that is aligned to the size
of a pointer: the address that is returned is a multiple of the alignment, its bytes and the word
before it are in the block of the heap, nothing but that word is written, and `rt_free_align` frees
the pointer of the heap, whatever the caller has written to its bytes and the rest of the program
elsewhere. -/
theorem malloc_align_sound (c : Machine) (rtMalloc : Heap → Nat → Heap × Option Nat)
    (rtFree : Heap → Nat → Heap) (heap heap₁ : Heap) (m : Memory) (size k ptr : Nat)
    (hsize : size + c.pointerSize - 1 < 2 ^ c.bits)
    (halign : 2 ^ k + c.pointerSize - 1 < 2 ^ c.bits)
    (hsum : rtAlign c.bits size c.pointerSize + rtAlign c.bits (2 ^ k) c.pointerSize < 2 ^ c.bits)
    (hmalloc : rtMalloc heap (alignSize c size (2 ^ k)) = (heap₁, some ptr))
    (hptr : c.pointerSize ∣ ptr) (htop : ptr + alignSize c size (2 ^ k) < 2 ^ c.bits) :
    ∃ m' at', rtMallocAlign c rtMalloc heap m size (2 ^ k) = (heap₁, m', some at') ∧
      Placed c ptr size (2 ^ k) at' ∧
        (∀ b, b < at' - c.pointerSize ∨ at' ≤ b → m' b = m b) ∧
          ∀ heap' m'', (∀ b, at' - c.pointerSize ≤ b → b < at' → m'' b = m' b) →
            rtFreeAlign c rtFree heap' m'' at' = rtFree heap' ptr := by
  have hplaced := alignPtr_placed hsize halign hsum hptr htop
  refine ⟨_, _, by rw [rtMallocAlign, hmalloc], hplaced, ?_, ?_⟩
  all_goals
    generalize alignPtr c ptr (rtAlign c.bits (2 ^ k) c.pointerSize) = at' at hplaced ⊢
    have hword := hplaced.word
    have hbytes := hplaced.bytes
    have hback : wsub c.bits at' c.pointerSize = at' - c.pointerSize :=
      wsub_eq (by omega) (by omega)
    rw [hback]
  · intro b hb
    exact store_of_outside (by omega)
  · intro heap' m'' hkept
    have hload := load_congr (n := c.pointerSize) fun b hb hb' => hkept b hb (by omega)
    rw [rtFreeAlign, hback, hload, load_store, bytes_of_bits, Nat.mod_eq_of_lt (by omega)]

/-- A heap that hands out one block. -/
def oneBlock (_ : Unit) (_ : Nat) : Unit × Option Nat := ((), some 0x20000004)

/-- 10 bytes at a multiple of 16 on a 32-bit machine. -/
theorem malloc_align_sound_16 :
    ∃ m' at', rtMallocAlign ⟨4, by decide⟩ oneBlock () (fun _ => 0) 10 16 = ((), m', some at') ∧
      Placed ⟨4, by decide⟩ 0x20000004 10 16 at' := by
  obtain ⟨m', at', hcall, hplaced, -⟩ := malloc_align_sound ⟨4, by decide⟩ oneBlock
    (fun _ _ => ()) () () (fun _ => 0) 10 4 0x20000004 (by decide) (by decide) (by decide) rfl
    (by decide) (by decide)
  exact ⟨m', at', hcall, hplaced⟩

end RtThread.MallocAlign
