import RtThread.IsoConversions
import Mathlib.Data.Nat.Digits.Lemmas

/-!
# Conversions against ISO C

Where the characters that `rt_vsnprintf` appends for a directive are the ones of ISO C.
-/
namespace RtThread.Vsnprintf

open Iso (field)

/-! ## Fields -/

variable {zero left : Bool} {fill : Nat} {sign special ds : List Char}

theorem length_field : (field zero left fill sign special ds).length =
    fill + (sign.length + special.length + ds.length) := by
  unfold field
  repeat' split
  all_goals
    simp only [List.length_append, List.length_replicate]
    omega

theorem field_and_left : field (zero && !left) left fill sign special ds =
    field zero left fill sign special ds := by
  cases left <;> simp [field]

theorem field_full : field zero left 0 sign special ds = sign ++ (special ++ ds) := by
  cases left <;> cases zero <;> simp [field]

/-- Zeros and spaces pad to the same characters where there is nothing to pad. -/
theorem field_zeros : field true false fill sign special ds = field false false fill sign special ds ↔
    fill = 0 := by
  constructor
  · intro h
    have hcount := congrArg (List.count '0') h
    simp only [field, Bool.false_eq_true, if_true, if_false, List.count_append,
      List.count_replicate, beq_iff_eq] at hcount
    simpa using hcount
  · rintro rfl
    rw [field_full, field_full]

/-! ## The field of `print_number` -/

/-- The digits that `print_number` makes of the precision. -/
def leastDigits (precision : Int) (tmp : List Char) : Int :=
  if precision < tmp.length then tmp.length else precision

/-- What `print_number` puts around the digits `tmp`. -/
def numberField (zeropad left : Bool) (s precision : Int) (sign : Option Char)
    (special tmp : List Char) : List Char :=
  numberText
    (numberPads zeropad left sign.isSome
      (int32 (s - special.length - leastDigits precision tmp)))
    sign.toList special (if zeropad then '0' else ' ')
    (leastDigits precision tmp - tmp.length).toNat (if precision ≠ 0 then tmp.reverse else [])

theorem numberSize_eq (base : Nat) (type : Flags) {s : Int} (hmin : -1 ≤ s) (hmax : s < 2 ^ 31)
    (precision : Int) : numberSize base type.special s precision =
      int32 (s - (specialChars base type).length - precision) := by
  have hone : int32 (s - 1) = s - 1 := int32_eq (by omega) (by omega)
  have htwo : int32 (s - 2) = s - 2 := int32_eq (by omega) (by omega)
  unfold numberSize specialChars
  by_cases hspecial : type.special
  · by_cases h8 : base = 8
    · simp [hspecial, h8, hone]
    · by_cases h16 : base = 16 <;> simp [hspecial, h8, h16, htwo]
  · simp [hspecial]

theorem numberChars_eq (num : BitVec 32) (base : Nat) (type : Flags) {s : Int} (hmin : -1 ≤ s)
    (hmax : s < 2 ^ 31) (precision : Int) :
    numberChars num base s precision type =
      numberField (type.zeropad && !type.left) type.left s precision (numberSign num type).1
        (specialChars base type) (numberDigits type.large base (numberSign num type).2.toNat) := by
  unfold numberChars numberField
  simp only [numberSize_eq base type hmin hmax]
  rfl

/-- What is put before the padding and between it and the end of the number. -/
def taken (precision : Int) (sgn : Option Char) (special tmp : List Char) : Int :=
  sgn.toList.length + special.length + leastDigits precision tmp

section counted

variable {z : Bool} {s precision : Int} {sgn : Option Char} {tmp : List Char}

theorem isSome_length (sgn : Option Char) :
    (if sgn.isSome then (1 : Int) else 0) = sgn.toList.length := by
  cases sgn <;> rfl

/-- The counter of `print_number` stays an `int`. -/
def Counted (z left : Bool) (s taken : Int) : Prop := countedBelow z left - 2 ^ 31 ≤ s - taken

theorem numberField_counted (hmin : -1 ≤ s) (hmax : s < 2 ^ 31) (hspecial : special.length ≤ 2)
    (hleast : 0 ≤ leastDigits precision tmp)
    (hfits : special.length + leastDigits precision tmp < 2 ^ 31)
    (hcount : Counted z left s (taken precision sgn special tmp)) :
    numberField z left s precision sgn special tmp =
      field z left (s - taken precision sgn special tmp).toNat sgn.toList special
        (List.replicate (leastDigits precision tmp - tmp.length).toNat '0' ++
          if precision ≠ 0 then tmp.reverse else []) := by
  unfold Counted taken at hcount
  rw [numberField, int32_eq (by omega) (by omega), pads_counted z left _ (by omega)
    (by rw [isSome_length]; omega)]
  have hpad : padding sgn.isSome (s - special.length - leastDigits precision tmp) =
      (s - taken precision sgn special tmp).toNat := by
    rw [padding, isSome_length, taken]
    omega
  rw [hpad]
  cases left <;> cases z <;> simp [numberText, field]

theorem numberField_wrapped (hmin : -1 ≤ s) (hmax : s < 2 ^ 31) (hspecial : special.length ≤ 2)
    (hprecision : precision ≠ 0) (hleast : tmp.length ≤ leastDigits precision tmp)
    (hfits : special.length + leastDigits precision tmp < 2 ^ 31)
    (hcount : ¬ Counted z left s (taken precision sgn special tmp)) :
    2 ^ 31 - 2 + taken precision sgn special tmp ≤
      (numberField z left s precision sgn special tmp).length := by
  unfold Counted taken at hcount
  have hpads := @pads_wrapped z left sgn.isSome (s - special.length - leastDigits precision tmp) (by omega)
    (by rw [isSome_length]; omega)
  rw [numberField, int32_eq (by omega) (by omega), if_pos hprecision, numberText, taken]
  simp only [List.length_append, List.length_replicate, List.length_reverse]
  push_cast
  omega

/-- A number of at most 32 digits is counted where the precision is no larger than that. -/
theorem counted_short (hmin : -1 ≤ s) (hspecial : special.length ≤ 2)
    (hleast : leastDigits precision tmp ≤ 32) :
    Counted z left s (taken precision sgn special tmp) := by
  have hsign : sgn.toList.length ≤ 1 := by cases sgn <;> simp
  unfold Counted countedBelow taken
  split
  · omega
  · split <;> omega

/-- Without a precision. -/
theorem numberField_default (hmin : -1 ≤ s) (hmax : s < 2 ^ 31) (hspecial : special.length ≤ 2)
    (htmp : tmp.length ≤ 32) :
    numberField z left s (-1) sgn special tmp =
      field z left (s - (sgn.toList.length + special.length + tmp.length)).toNat sgn.toList special
        tmp.reverse := by
  have hleast : leastDigits (-1) tmp = tmp.length := if_pos (by omega)
  rw [numberField_counted hmin hmax hspecial (by omega) (by omega)
    (counted_short hmin hspecial (by omega)), taken, hleast]
  simp

/-- A precision of zero leaves out the digits, and keeps their place out of the padding. -/
theorem numberField_zero (hmin : -1 ≤ s) (hmax : s < 2 ^ 31) (hspecial : special.length ≤ 2)
    (htmp : 1 ≤ tmp.length) (hlen : tmp.length ≤ 32) :
    numberField z left s 0 sgn special tmp =
      field z left (s - (sgn.toList.length + special.length + tmp.length)).toNat sgn.toList special
        [] := by
  have hleast : leastDigits 0 tmp = tmp.length := if_pos (by omega)
  rw [numberField_counted hmin hmax hspecial (by omega) (by omega)
    (counted_short hmin hspecial (by omega)), taken, hleast]
  simp

theorem leastDigits_nat (p : Nat) (tmp : List Char) :
    leastDigits p tmp = (max p tmp.length : Nat) := by
  unfold leastDigits
  split <;> omega

/-- With a precision that is not zero, the padding must be of spaces, and must have been counted. -/
theorem numberField_precise {p w : Nat} (hp : p ≠ 0) (hmin : -1 ≤ s) (hmax : s < 2 ^ 31)
    (hw : w = s.toNat) (hspecial : special.length ≤ 2)
    (hfits : sgn.toList.length + special.length + max p tmp.length < 2 ^ 31) :
    numberField z left s p sgn special tmp =
        field false left (w - (sgn.toList.length + special.length + max p tmp.length))
          sgn.toList special (List.replicate (p - tmp.length) '0' ++ tmp.reverse) ↔
      (z = true ∧ left = false → w ≤ sgn.toList.length + special.length + max p tmp.length) ∧
        Counted z left s (sgn.toList.length + special.length + max p tmp.length : Nat) := by
  have htaken : taken p sgn special tmp =
      (sgn.toList.length + special.length + max p tmp.length : Nat) := by
    rw [taken, leastDigits_nat]
    push_cast
    rfl
  have hleast := leastDigits_nat p tmp
  by_cases hcount : Counted z left s (sgn.toList.length + special.length + max p tmp.length : Nat)
  · rw [numberField_counted hmin hmax hspecial (by omega) (by omega) (by rwa [htaken]), htaken,
      hleast, if_pos (by omega)]
    have hzeros : (((max p tmp.length : Nat) : Int) - tmp.length).toNat = p - tmp.length := by
      omega
    have hfill : (s - ((sgn.toList.length + special.length + max p tmp.length : Nat) : Int)).toNat =
        w - (sgn.toList.length + special.length + max p tmp.length) := by
      omega
    rw [hzeros, hfill, and_iff_left hcount]
    cases left with
    | true => simp [field]
    | false =>
      cases z with
      | false => simp
      | true =>
        rw [field_zeros]
        simp only [and_self, forall_const]
        omega
  · have hwrap := @numberField_wrapped left special z s p sgn tmp hmin hmax hspecial
      (by omega) (by omega) (by omega) (by rwa [htaken])
    rw [htaken] at hwrap
    have hs : s ≤ 0 := by
      unfold Counted countedBelow at hcount
      split at hcount
      · omega
      · split at hcount <;> omega
    simp only [hcount, and_false, iff_false]
    intro h
    have hlength := congrArg List.length h
    rw [length_field, List.length_append, List.length_replicate, List.length_reverse] at hlength
    omega

end counted

/-! ## Digits -/

theorem digits_one (base : Nat) (large : Bool) {least value : Nat} (hleast : 1 ≤ least) :
    Iso.digits base large least value =
      List.replicate (least - (Iso.digits base large 1 value).length) '0' ++
        Iso.digits base large 1 value := by
  unfold Iso.digits
  cases hds : Nat.digits base value with
  | nil =>
    obtain ⟨least, rfl⟩ : ∃ k, least = k + 1 := ⟨least - 1, by omega⟩
    simp [List.replicate_succ']
  | cons d ds => simp

theorem digits_none (base : Nat) (large : Bool) : Iso.digits base large 0 0 = [] := by
  simp [Iso.digits]

theorem digits_zero (base : Nat) (large : Bool) {value : Nat} (hvalue : value ≠ 0) :
    Iso.digits base large 0 value = Iso.digits base large 1 value := by
  have hne : Nat.digits base value ≠ [] := Nat.digits_ne_nil_iff_ne_zero.2 hvalue
  have hpos := List.length_pos_of_ne_nil hne
  simp only [Iso.digits, List.length_reverse, List.length_map]
  rw [Nat.sub_eq_zero_of_le hpos, Nat.zero_sub]

theorem length_digits_one (base : Nat) (large : Bool) (value : Nat) :
    1 ≤ (Iso.digits base large 1 value).length := by
  simp only [Iso.digits, List.length_append, List.length_replicate]
  omega

/-! ## The parts of a directive -/

namespace Directive

variable (d : Directive)

/-- The zero flag has not been overridden by a left justification. -/
def zeroPads : Bool := decide (.zero ∈ d.flags) && !d.leftFlag

/-- The precision has the effect that ISO C gives it, for a number of `digits` digits with
`before` characters before them. -/
def PrecisionKept (value before digits : Nat) : Prop :=
  match Iso.precision d with
  | none => d.precision = none
  | some 0 => value = 0 ∧ Iso.width d ≤ before
  | some (p + 1) =>
    (d.zeroPads → Iso.width d ≤ before + max (p + 1) digits) ∧
      Counted d.zeroPads d.leftFlag d.fieldWidth (before + max (p + 1) digits : Nat)

theorem width_given (hwidth : Iso.width d < 2 ^ 31) :
    d.width = none ∧ d.fieldWidth = -1 ∧ Iso.width d = 0 ∨
      d.width ≠ none ∧ d.fieldWidth = Iso.width d := by
  unfold Iso.width at hwidth ⊢
  unfold fieldWidth
  cases hw : d.width with
  | none => exact .inl ⟨rfl, rfl, rfl⟩
  | some a =>
    rw [hw] at hwidth
    refine .inr ⟨by simp, ?_⟩
    cases a with
    | number l =>
      simp only at hwidth ⊢
      rw [int32_eq (by omega) (by omega)]
    | star n =>
      simp only at hwidth ⊢
      split
      · rw [int32_eq (by omega) (by omega)]
        omega
      · omega

theorem width_kept (hwidth : Iso.width d < 2 ^ 31) :
    -1 ≤ d.fieldWidth ∧ d.fieldWidth < 2 ^ 31 ∧ Iso.width d = d.fieldWidth.toNat := by
  have hgiven := d.width_given hwidth
  omega

theorem precisionBak_some {p : Nat} (hp : Iso.precision d = some p) (hmax : p < 2 ^ 31) :
    d.precisionBak = p := by
  unfold Iso.precision at hp
  unfold precisionBak
  cases hprecision : d.precision with
  | none => simp [hprecision] at hp
  | some a =>
    rw [hprecision] at hp
    cases a with
    | number l =>
      cases hp
      cases l with
      | nil => rfl
      | cons c l =>
        show max (int32 (numeral (c :: l))) 0 = _
        rw [int32_eq (by omega) (by omega)]
        omega
    | star n =>
      simp only at hp ⊢
      split at hp
      · cases hp
      · cases hp
        have hnat : (n.toNat : Int) = n.toInt := by
          rw [BitVec.toInt_eq_toNat_cond] at *
          split <;> omega
        omega

/-- A precision that ISO C takes as omitted is omitted, or is a negative number for an asterisk. -/
theorem precisionBak_none (hp : Iso.precision d = none) :
    d.precision = none ∧ d.precisionBak = -1 ∨ d.precision ≠ none ∧ d.precisionBak = 0 := by
  unfold Iso.precision at hp
  unfold precisionBak
  cases hprecision : d.precision with
  | none => exact .inl ⟨rfl, rfl⟩
  | some a =>
    rw [hprecision] at hp
    cases a with
    | number l => simp at hp
    | star n =>
      refine .inr ⟨by simp, ?_⟩
      simp only at hp ⊢
      split at hp
      · omega
      · simp at hp

end Directive

/-! ## Numbers whose digits are right -/

/-- The digits and what stands before them are the ones of ISO C: it depends on the precision
whether the whole field is. -/
theorem precision_kept_iff (d : Directive) {sgn : Option Char} {special tmp : List Char}
    {base : Nat} {large : Bool} {value : Nat} (hspecial : special.length ≤ 2)
    (htmp : tmp.reverse = Iso.digits base large 1 value) (hlen : tmp.length ≤ 32)
    (hvalue : special ≠ [] → value ≠ 0) (hmeaning : ∀ p, Iso.precision d = some p → p < 2 ^ 31)
    {ds : List Char} (hds : ds = Iso.digits base large ((Iso.precision d).getD 1) value)
    (hwidth : Iso.width d < 2 ^ 31)
    (hfits : sgn.toList.length + special.length + ds.length < 2 ^ 31) :
    numberField d.zeroPads d.leftFlag d.fieldWidth d.precisionBak sgn special tmp =
        field (decide (.zero ∈ d.flags ∧ Iso.precision d = none)) d.leftFlag
          (Iso.width d - (sgn.toList.length + special.length + ds.length)) sgn.toList special ds ↔
      d.PrecisionKept value (sgn.toList.length + special.length) tmp.length := by
  obtain ⟨hmin, hmax, hw⟩ := d.width_kept hwidth
  have hone : 1 ≤ tmp.length := by
    rw [← List.length_reverse, htmp]
    exact length_digits_one base large value
  have hlength : (Iso.digits base large 1 value).length = tmp.length := by
    rw [← htmp, List.length_reverse]
  unfold Directive.PrecisionKept
  cases hp : Iso.precision d with
  | none =>
    rw [hp, Option.getD_none, ← htmp] at hds
    subst hds
    rw [List.length_reverse] at hfits ⊢
    obtain ⟨hprecision, hbak⟩ | ⟨hprecision, hbak⟩ := d.precisionBak_none hp
    · have hfill : (d.fieldWidth - (sgn.toList.length + special.length + tmp.length)).toNat =
          Iso.width d - (sgn.toList.length + special.length + tmp.length) := by omega
      rw [hbak, numberField_default hmin hmax hspecial hlen, hfill, Directive.zeroPads,
        field_and_left]
      simp [hprecision]
    · rw [hbak, numberField_zero hmin hmax hspecial hone hlen]
      simp only [hprecision, iff_false]
      intro h
      have hcount := congrArg List.length h
      rw [length_field, length_field, List.length_reverse, List.length_nil] at hcount
      omega
  | some p =>
    have hbak := d.precisionBak_some hp (hmeaning p hp)
    rw [hp, Option.getD_some] at hds
    simp only [reduceCtorEq, and_false, decide_false]
    cases p with
    | zero =>
      rw [hbak]
      rw [Nat.cast_zero, numberField_zero hmin hmax hspecial hone hlen]
      by_cases hzero : value = 0
      · subst hzero
        rw [digits_none] at hds
        subst hds
        have hnil : special = [] := by
          by_contra hne
          exact hvalue hne rfl
        subst hnil
        simp only [true_and]
        constructor
        · intro h
          have hcount := congrArg List.length h
          rw [length_field, length_field] at hcount
          simp only [List.length_nil] at hcount ⊢
          omega
        · intro h
          rw [Int.toNat_eq_zero.2 (by simp only [List.length_nil] at h ⊢; omega),
            Nat.sub_eq_zero_of_le (Nat.le_add_right_of_le h), field_full, field_full]
      · rw [digits_zero base large hzero, ← htmp] at hds
        subst hds
        simp only [hzero, false_and, iff_false]
        intro h
        have hcount := congrArg List.length h
        rw [length_field, length_field, List.length_reverse, List.length_nil] at hcount
        omega
    | succ p =>
      rw [digits_one base large (by omega), hlength, ← htmp] at hds
      subst hds
      rw [List.length_append, List.length_replicate, List.length_reverse] at hfits ⊢
      have hsum : p + 1 - tmp.length + tmp.length = max (p + 1) tmp.length := by omega
      rw [hsum] at hfits ⊢
      rw [hbak, numberField_precise (by omega) hmin hmax hw hspecial hfits]
      have hpads : d.zeroPads = true ∧ d.leftFlag = false ↔ d.zeroPads = true := by
        simp [Directive.zeroPads]
      rw [hpads]

/-! ## The conversions -/

/-- The digits of a value, at least one. -/
def digitCount (base value : Nat) : Nat := (Iso.digits base false 1 value).length

theorem numberDigits_reverse (large : Bool) (base value : Nat) :
    (numberDigits large base value).reverse = Iso.digits (divisor base) large 1 value := by
  unfold numberDigits Iso.digits
  split
  · next h =>
    subst h
    cases large <;> simp
  · next h =>
    have hne : Nat.digits (divisor base) value ≠ [] := Nat.digits_ne_nil_iff_ne_zero.2 h
    have hpos := List.length_pos_of_ne_nil hne
    simp only [List.length_reverse, List.length_map]
    rw [Nat.sub_eq_zero_of_le hpos]
    simp

theorem length_numberDigits_le (large : Bool) (base : Nat) (n : BitVec 32) :
    (numberDigits large base n.toNat).length ≤ 32 := by
  have hbase : 2 ≤ divisor base := by
    unfold divisor
    split <;> decide
  have hdigits : (Nat.digits (divisor base) n.toNat).length ≤ 32 := by
    rw [Nat.digits_length_le_iff hbase]
    exact n.isLt.trans_le (Nat.pow_le_pow_left hbase 32)
  unfold numberDigits
  split <;> simp [hdigits]

theorem numberSign_signed (d : Directive) (n : BitVec 32) {type : Flags} (hsign : type.sign = true)
    (hplus : type.plus = decide (.plus ∈ d.flags)) (hspace : type.space = decide (.space ∈ d.flags)) :
    (numberSign n type).1.toList = Iso.sign d n.toInt ∧
      (numberSign n type).2.toNat = n.toInt.natAbs := by
  unfold numberSign Iso.sign
  rw [if_pos hsign, hplus, hspace]
  have hnat := BitVec.toInt_eq_toNat_cond n
  split
  · next hneg =>
    refine ⟨rfl, ?_⟩
    rw [BitVec.toNat_neg]
    omega
  · next hneg =>
    have habs : n.toNat = n.toInt.natAbs := by omega
    clear hnat
    by_cases hp : .plus ∈ d.flags
    · simp [hp, habs]
    · by_cases hs : .space ∈ d.flags <;> simp [hp, hs, habs]

theorem numberSign_unsigned (n : BitVec 32) {type : Flags} (hsign : type.sign = false) :
    numberSign n type = (none, n) := by
  simp [numberSign, hsign]

theorem specialChars_length (base : Nat) (type : Flags) : (specialChars base type).length ≤ 2 := by
  unfold specialChars
  repeat' split
  all_goals simp

theorem length_integer (d : Directive) (n : BitVec 32) :
    Iso.width d ≤ (Iso.integer d n).length ∧
      (Iso.number d n).1.length + (Iso.number d n).2.1.length + (Iso.number d n).2.2.length ≤
        (Iso.integer d n).length := by
  rw [Iso.integer, length_field]
  omega

/-- A conversion whose sign, prefix and digits are the ones of ISO C. -/
theorem number_iff (d : Directive) (n : BitVec 32) {base value : Nat} {large : Bool}
    (hconv : d.conversion ≠ .s) (hm : Iso.Meaningful d)
    (hfits : (Iso.integer d n).length < 2 ^ 31)
    (hparts : Iso.number d n = ((numberSign n d.numberFlags).1.toList,
      specialChars d.conversion.base d.numberFlags,
      Iso.digits base large ((Iso.precision d).getD 1) value))
    (htmp : (numberDigits d.conversion.large d.conversion.base
      (numberSign n d.numberFlags).2.toNat).reverse = Iso.digits base large 1 value)
    (hvalue : specialChars d.conversion.base d.numberFlags ≠ [] → value ≠ 0) :
    d.chars (.int n) = some (Iso.integer d n) ↔
      d.PrecisionKept value ((numberSign n d.numberFlags).1.toList.length +
        (specialChars d.conversion.base d.numberFlags).length) (digitCount base value) := by
  obtain ⟨hwidth, hlength⟩ := length_integer d n
  obtain ⟨hmin, hmax, -⟩ := d.width_kept (by omega)
  have hcount := congrArg List.length htmp
  rw [List.length_reverse] at hcount
  have hdigits : digitCount base value = (numberDigits d.conversion.large d.conversion.base
      (numberSign n d.numberFlags).2.toNat).length := by
    rw [hcount]
    simp [digitCount, Iso.digits]
  rw [hparts] at hlength
  have hkept := @precision_kept_iff d (numberSign n d.numberFlags).1 _ _ _ _ _
    (specialChars_length d.conversion.base d.numberFlags) htmp (length_numberDigits_le _ _ _) hvalue
    hm.2.2 _ rfl (by omega) (by simp only at hlength; omega)
  rw [hdigits, ← hkept, Directive.chars, if_neg hconv, Option.some_inj,
    numberChars_eq _ _ _ hmin hmax, Iso.integer, hparts]
  rfl

theorem signed_iff (d : Directive) (n : BitVec 32)
    (hconv : d.conversion = .d ∨ d.conversion = .i) (hm : Iso.Meaningful d)
    (hfits : (Iso.integer d n).length < 2 ^ 31) :
    d.chars (.int n) = some (Iso.integer d n) ↔
      d.PrecisionKept n.toInt.natAbs (Iso.sign d n.toInt).length (digitCount 10 n.toInt.natAbs) := by
  have hsigned : d.conversion.signed = true ∧ d.conversion.base = 10 ∧
      d.conversion.large = false ∧ d.conversion ≠ .s := by
    rcases hconv with h | h <;> simp [h, Conversion.signed, Conversion.base, Conversion.large]
  obtain ⟨hsign, hbase, hlarge, hs⟩ := hsigned
  obtain ⟨hsgn, hvalue⟩ := @numberSign_signed d n d.numberFlags hsign rfl rfl
  have hspecial : specialChars 10 d.numberFlags = [] := by simp [specialChars]
  have hnumber : Iso.number d n = (Iso.sign d n.toInt, [],
      Iso.digits 10 false ((Iso.precision d).getD 1) n.toInt.natAbs) := by
    rcases hconv with h | h <;> simp [Iso.number, h]
  have h := @number_iff d n 10 n.toInt.natAbs false hs hm hfits
    (by rw [hnumber, hsgn, hbase, hspecial])
    (by rw [hbase, hlarge, hvalue, numberDigits_reverse]; rfl)
    (by rw [hbase, hspecial]; simp)
  rw [h, hsgn, hbase, hspecial]
  rfl

/-- A conversion of an unsigned number whose digits `print_number` makes in the right base. -/
theorem unsigned_iff (d : Directive) (n : BitVec 32) {base : Nat}
    (hsigned : d.conversion.signed = false) (hconv : d.conversion ≠ .s) (hm : Iso.Meaningful d)
    (hfits : (Iso.integer d n).length < 2 ^ 31)
    (hnumber : Iso.number d n = ([], specialChars d.conversion.base d.numberFlags,
      Iso.digits base d.conversion.large ((Iso.precision d).getD 1) n.toNat))
    (htmp : (numberDigits d.conversion.large d.conversion.base n.toNat).reverse =
      Iso.digits base d.conversion.large 1 n.toNat)
    (hvalue : specialChars d.conversion.base d.numberFlags ≠ [] → n.toNat ≠ 0) :
    d.chars (.int n) = some (Iso.integer d n) ↔
      d.PrecisionKept n.toNat (specialChars d.conversion.base d.numberFlags).length
        (digitCount base n.toNat) := by
  have hsgn : numberSign n d.numberFlags = (none, n) := numberSign_unsigned n hsigned
  have h := @number_iff d n base n.toNat d.conversion.large hconv hm
    hfits (by rw [hnumber, hsgn]; rfl) (by rw [hsgn]; exact htmp) hvalue
  rw [h, hsgn, Option.toList_none, List.length_nil, Nat.zero_add]

theorem decimal_iff (d : Directive) (n : BitVec 32) (hconv : d.conversion = .u)
    (hm : Iso.Meaningful d) (hfits : (Iso.integer d n).length < 2 ^ 31) :
    d.chars (.int n) = some (Iso.integer d n) ↔
      d.PrecisionKept n.toNat 0 (digitCount 10 n.toNat) := by
  have hspecial : specialChars d.conversion.base d.numberFlags = [] := by
    simp [specialChars, hconv, Conversion.base]
  have h := @unsigned_iff d n 10 (by simp [hconv, Conversion.signed]) (by simp [hconv]) hm
    hfits (by rw [hspecial]; simp [Iso.number, hconv, Conversion.large])
    (by rw [hconv, numberDigits_reverse]; rfl) (by simp [hspecial])
  rw [h, hspecial, List.length_nil]

end RtThread.Vsnprintf
