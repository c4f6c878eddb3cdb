import Mathlib.Data.BitVec

/-!
# Common definitions

The error codes and limits of `rtdef.h`. A function of the source that returns
`-RT_ETIMEOUT` returns `.etimeout` here: the code is negative in the source and
the sign carries no information.
-/
namespace RtThread

inductive RtErr where
  | eok | error | etimeout | efull | eempty | enomem | enosys | ebusy | eio | eintr | einval
  deriving DecidableEq

abbrev Tick := BitVec 32

/-- `RT_TICK_MAX / 2`. -/
def rtTickMaxHalf : Nat := 0xffffffff / 2

/-- Unsigned addition on `bits`-wide words. -/
def wadd (bits a b : Nat) : Nat := (a + b) % 2 ^ bits

/-- Unsigned subtraction on `bits`-wide words. -/
def wsub (bits a b : Nat) : Nat := (a + 2 ^ bits - b) % 2 ^ bits

/-- The value of a signed word. -/
def int32 (x : Int) : Int := x.bmod (2 ^ 32)

theorem pair_inj {σ ρ : Type*} {s s' : σ} {r r' : ρ} (h : some (s, r) = some (s', r')) :
    s = s' ∧ r = r' :=
  Prod.mk.inj (Option.some.inj h)

theorem guarded_inj {σ ρ : Type*} {p : Prop} [Decidable p] {s s' : σ} {r r' : ρ}
    (h : (if p then some (s, r) else none) = some (s', r')) : p ∧ s = s' ∧ r = r' :=
  (Option.ite_none_right_eq_some.mp h).imp_right pair_inj

theorem int32_eq {x : Int} (hmin : -2 ^ 31 ≤ x) (hmax : x < 2 ^ 31) : int32 x = x := by
  rw [int32, Int.bmod_def]
  split <;> omega

variable {a b m n align bits size : Nat}

theorem wadd_eq (h : a + b < 2 ^ bits) : wadd bits a b = a + b :=
  Nat.mod_eq_of_lt h

theorem wsub_eq (h : b ≤ a) (ha : a < 2 ^ bits) : wsub bits a b = a - b := by
  unfold wsub
  rw [show a + 2 ^ bits - b = a - b + 2 ^ bits by omega, Nat.add_mod_right]
  exact Nat.mod_eq_of_lt (by omega)

/-- `RT_ALIGN` on `bits`-wide words, for an alignment that is a power of two: the sum is
cut to the word before its low bits are cleared. -/
def rtAlign (bits size align : Nat) : Nat := (size + align - 1) % 2 ^ bits / align * align

/-- `RT_ALIGN_DOWN`, for an alignment that is a power of two. -/
def rtAlignDown (size align : Nat) : Nat := size / align * align

theorem dvd_rtAlign (bits size align : Nat) : align ∣ rtAlign bits size align :=
  Dvd.intro_left _ rfl

theorem rtAlign_lt (bits size align : Nat) : rtAlign bits size align < 2 ^ bits :=
  (Nat.div_mul_le_self _ _).trans_lt (Nat.mod_lt _ (Nat.two_pow_pos bits))

/-- Without a wrap the aligned size is the next multiple. -/
theorem rtAlign_eq (h : size + align - 1 < 2 ^ bits) :
    rtAlign bits size align = (size + align - 1) / align * align := by
  rw [rtAlign, Nat.mod_eq_of_lt h]

theorem le_rtAlign (hpos : 0 < align) (h : size + align - 1 < 2 ^ bits) :
    size ≤ rtAlign bits size align := by
  rw [rtAlign_eq h]
  have := Nat.div_add_mod (size + align - 1) align
  have := Nat.mod_lt (size + align - 1) hpos
  rw [Nat.mul_comm]
  omega

theorem rtAlign_mono (hmn : m ≤ n) (h : n + align - 1 < 2 ^ bits) :
    rtAlign bits m align ≤ rtAlign bits n align := by
  rw [rtAlign_eq h, rtAlign_eq (by omega)]
  exact Nat.mul_le_mul_right _ (Nat.div_le_div_right (by omega))

/-- An aligned size that does not wrap fits below every larger multiple. -/
theorem rtAlign_le (hpos : 0 < align) (hm : align ∣ m) (hle : size ≤ m) :
    rtAlign bits size align ≤ m := by
  obtain ⟨q, rfl⟩ := hm
  have h₁ : (size + align - 1) % 2 ^ bits ≤ size + align - 1 := Nat.mod_le _ _
  have h₂ : (size + align - 1) % 2 ^ bits / align < q + 1 := by
    rw [Nat.div_lt_iff_lt_mul hpos, Nat.add_mul, Nat.one_mul, Nat.mul_comm q]
    omega
  rw [rtAlign, Nat.mul_comm align q]
  exact Nat.mul_le_mul_right _ (by omega)

/-- An aligned size stays what it is. -/
theorem rtAlign_self (hpos : 0 < align) (h : n + align ≤ 2 ^ bits) (hd : align ∣ n) :
    rtAlign bits n align = n :=
  Nat.le_antisymm (rtAlign_le hpos hd (Nat.le_refl n)) (le_rtAlign hpos (by omega))

/-- A size that the word is too short for is rounded up to zero. -/
theorem rtAlign_wrapped (hdvd : align ∣ 2 ^ bits) (hword : size < 2 ^ bits)
    (hwrap : 2 ^ bits < size + align) : rtAlign bits size align = 0 := by
  have hle := Nat.le_of_dvd (Nat.two_pow_pos bits) hdvd
  rw [rtAlign, Nat.mod_eq_sub_mod (by omega), Nat.mod_eq_of_lt (by omega),
    Nat.div_eq_of_lt (by omega), Nat.zero_mul]

theorem rtAlign_idem (hpos : 0 < align) (hdvd : align ∣ 2 ^ bits) (size : Nat) :
    rtAlign bits (rtAlign bits size align) align = rtAlign bits size align := by
  have hal : align ∣ rtAlign bits size align := dvd_rtAlign _ _ _
  have hlt := rtAlign_lt bits size align
  have hgap := Nat.le_of_dvd (Nat.sub_pos_of_lt hlt) (Nat.dvd_sub hdvd hal)
  exact rtAlign_self hpos (by omega) hal

end RtThread
