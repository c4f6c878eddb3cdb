import Mathlib.Data.BitVec

/-!
# Words in a memory of bytes

A word of `n` bytes is the number with these digits. Its bytes lie in the memory from the lowest
or from the highest on, and a store writes to the places that a load reads from. The contents of a
whole region are those of a snapshot, or one byte everywhere.
-/
namespace Words

abbrev Byte := BitVec 8

abbrev Mem := Nat → Byte

/-- The number with the lowest byte `f 0`. -/
def value (f : Nat → Byte) : Nat → Nat
  | 0 => 0
  | n + 1 => value f n + (f n).toNat <<< (8 * n)

def digit (w i : Nat) : Byte := BitVec.ofNat 8 (w >>> (8 * i))

section value

variable {f : Nat → Byte} {b : Byte} {n i : Nat}

@[simp] theorem value_zero : value f 0 = 0 := rfl

theorem value_succ : value f (n + 1) = value f n + (f n).toNat * 2 ^ (8 * n) := by
  rw [value, Nat.shiftLeft_eq]

theorem value_lt : value f n < 2 ^ (8 * n) := by
  induction n with
  | zero => exact Nat.one_pos
  | succ n ih =>
    have hbyte : (f n).toNat + 1 ≤ 2 ^ 8 := (f n).isLt
    have hmul := Nat.mul_le_mul_right (2 ^ (8 * n)) hbyte
    rw [Nat.add_mul, Nat.one_mul, ← Nat.pow_add] at hmul
    rw [value_succ, show 8 * (n + 1) = 8 + 8 * n by omega]
    omega

theorem digit_value (hi : i < n) : digit (value f n) i = f i := by
  induction n with
  | zero => cases hi
  | succ n ih =>
    rw [digit, value_succ, Nat.shiftRight_eq_div_pow]
    rcases Nat.lt_or_eq_of_le (Nat.le_of_lt_succ hi) with hlt | rfl
    · -- the bytes above are a multiple of the next power
      rw [show 2 ^ (8 * n) = 2 ^ (8 * (n - i - 1)) * 2 ^ 8 * 2 ^ (8 * i) by
          rw [← Nat.pow_add, ← Nat.pow_add]
          congr 1
          omega,
        ← Nat.mul_assoc, Nat.add_mul_div_right _ _ (Nat.two_pow_pos _), ← Nat.mul_assoc,
        ← ih hlt, digit, Nat.shiftRight_eq_div_pow]
      apply BitVec.eq_of_toNat_eq
      rw [BitVec.toNat_ofNat, BitVec.toNat_ofNat, Nat.add_mul_mod_self_right]
    · rw [Nat.add_mul_div_right _ _ (Nat.two_pow_pos _), Nat.div_eq_of_lt value_lt, Nat.zero_add,
        BitVec.ofNat_toNat, BitVec.setWidth_eq]

/-- Equal bytes may be put in from below. -/
theorem value_const_succ : value (fun _ => b) (n + 1) = value (fun _ => b) n * 2 ^ 8 + b.toNat := by
  induction n with
  | zero => rw [value_succ]; simp
  | succ n ih =>
    rw [value_succ, ih, show 8 * (n + 1) = 8 * n + 8 by omega, Nat.pow_add, ← Nat.mul_assoc,
      Nat.add_right_comm, ← Nat.add_mul, ← value_succ (f := fun _ => b), ← ih]

end value

/-! ## Loads and stores -/

inductive Order where
  | little | big
  deriving DecidableEq

/-- Where the byte with the weight `i` lies in a word of `n` bytes. -/
def Order.place (n i : Nat) : Order → Nat
  | .little => i
  | .big => n - 1 - i

def load (o : Order) (n : Nat) (m : Mem) (a : Nat) : Nat := value (fun i => m (a + o.place n i)) n

def store (o : Order) (n : Nat) (m : Mem) (a w : Nat) : Mem :=
  fun x => if a ≤ x ∧ x < a + n then digit w (o.place n (x - a)) else m x

/-- The region from `dst` on with the bytes that were in the region from `src` on. -/
def copied (m : Mem) (dst src n : Nat) : Mem :=
  fun x => if dst ≤ x ∧ x < dst + n then m (src + (x - dst)) else m x

def filled (m : Mem) (dst n : Nat) (b : Byte) : Mem :=
  fun x => if dst ≤ x ∧ x < dst + n then b else m x

section regions

variable {m : Mem} {o : Order} {b : Byte} {dst src n k : Nat}

theorem Order.place_lt (hk : k < n) : o.place n k < n := by
  cases o with
  | little => exact hk
  | big =>
    show n - 1 - k < n
    omega

theorem Order.place_place (hk : k < n) : o.place n (o.place n k) = k := by
  cases o with
  | little => rfl
  | big =>
    show n - 1 - (n - 1 - k) = k
    omega

/-- A word that is stored where it was not loaded copies its bytes. -/
theorem store_load : store o n m dst (load o n m src) = copied m dst src n := by
  funext x
  unfold store copied load
  by_cases hx : dst ≤ x ∧ x < dst + n
  · have hlt : x - dst < n := by omega
    rw [if_pos hx, if_pos hx, digit_value (o.place_lt hlt), o.place_place hlt]
  · rw [if_neg hx, if_neg hx]

theorem store_const : store o n m dst (value (fun _ => b) n) = filled m dst n b := by
  funext x
  unfold store filled
  by_cases hx : dst ≤ x ∧ x < dst + n
  · rw [if_pos hx, if_pos hx, digit_value (o.place_lt (by omega))]
  · rw [if_neg hx, if_neg hx]

@[simp] theorem copied_zero : copied m dst src 0 = m := by
  funext x
  rw [copied, if_neg (by omega)]

@[simp] theorem filled_zero : filled m dst 0 b = m := by
  funext x
  rw [filled, if_neg (by omega)]

theorem filled_append : filled (filled m dst n b) (dst + n) k b = filled m dst (n + k) b := by
  funext x
  unfold filled
  by_cases hlow : dst ≤ x ∧ x < dst + n
  · rw [if_neg (by omega), if_pos hlow, if_pos (by omega)]
  · by_cases hhigh : dst + n ≤ x ∧ x < dst + n + k
    · rw [if_pos hhigh, if_pos (by omega)]
    · rw [if_neg hhigh, if_neg hlow, if_neg (by omega)]

/-- The next bytes above are still those of the snapshot. -/
theorem copied_append (h : dst ≤ src ∨ src + (n + k) ≤ dst) :
    copied (copied m dst src n) (dst + n) (src + n) k = copied m dst src (n + k) := by
  funext x
  unfold copied
  by_cases hlow : dst ≤ x ∧ x < dst + n
  · rw [if_neg (by omega), if_pos hlow, if_pos (by omega)]
  · by_cases hhigh : dst + n ≤ x ∧ x < dst + n + k
    · rw [if_pos hhigh, if_neg (by omega), if_pos (by omega),
        show src + n + (x - (dst + n)) = src + (x - dst) by omega]
    · rw [if_neg hhigh, if_neg hlow, if_neg (by omega)]

/-- The next bytes below are still those of the snapshot. -/
theorem copied_prepend (h : src ≤ dst) :
    copied (copied m (dst + n) (src + n) k) dst src n = copied m dst src (n + k) := by
  funext x
  unfold copied
  by_cases hlow : dst ≤ x ∧ x < dst + n
  · rw [if_pos hlow, if_neg (by omega), if_pos (by omega)]
  · rw [if_neg hlow]
    by_cases hhigh : dst + n ≤ x ∧ x < dst + n + k
    · rw [if_pos hhigh, if_pos (by omega),
        show src + n + (x - (dst + n)) = src + (x - dst) by omega]
    · rw [if_neg hhigh, if_neg (by omega)]

/-- Where the regions are apart, the contents decide how many bytes have been copied. -/
theorem copied_inj (h : dst + n ≤ src ∨ src + n ≤ dst) (hk : k ≤ n)
    (heq : ∀ m, copied m dst src k = copied m dst src n) : k = n := by
  by_contra hne
  have hx := congrFun (heq fun x => if dst ≤ x ∧ x < dst + n then 0 else 1) (dst + k)
  unfold copied at hx
  rw [if_neg (by omega), if_pos (by omega)] at hx
  dsimp only at hx
  rw [if_pos (by omega), if_neg (by omega)] at hx
  cases hx

end regions

end Words
