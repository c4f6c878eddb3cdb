import RtThread.VsnprintfIso

/-!
# The conversions of `rt_vsnprintf`

For each conversion, when the field is the one of ISO C. Signed and unsigned decimal numbers
go by their precision. Hexadecimal ones do so too, where a prefix is not put before a zero.
Octal numbers have hexadecimal digits, and their prefix is put whatever the precision is.
-/
namespace RtThread.Vsnprintf

open Iso (field)

/-! ## Hexadecimal numbers -/

theorem mem_numberField (z left : Bool) (s precision : Int) (sgn : Option Char)
    {special tmp : List Char} {c : Char} (hc : c ∈ special) :
    c ∈ numberField z left s precision sgn special tmp := by
  simp [numberField, numberText, hc]

theorem mem_digits_none {base : Nat} {large : Bool} {least : Nat} {c : Char}
    (hc : c ∈ Iso.digits base large least 0) : c = '0' := by
  simp only [Iso.digits, Nat.digits_zero, List.map_nil, List.reverse_nil, List.length_nil,
    Nat.sub_zero, List.append_nil] at hc
  exact List.eq_of_mem_replicate hc

theorem mem_field {zero left : Bool} {fill : Nat} {sign special ds : List Char} {c : Char}
    (hc : c ∈ field zero left fill sign special ds) :
    c ∈ sign ∨ c ∈ special ∨ c ∈ ds ∨ c = '0' ∨ c = ' ' := by
  unfold field at hc
  repeat' split at hc
  all_goals
    simp only [List.mem_append, List.mem_replicate] at hc
    tauto

/-- The prefix is put before a zero, too. -/
theorem prefix_of_zero (d : Directive) (n : BitVec 32)
    (hconv : d.conversion = .x ∨ d.conversion = .X) (hspecial : .special ∈ d.flags)
    (hn : n.toNat = 0) (hfits : (Iso.integer d n).length < 2 ^ 31) :
    d.chars (.int n) ≠ some (Iso.integer d n) := by
  obtain ⟨hwidth, -⟩ := length_integer d n
  obtain ⟨hmin, hmax, -⟩ := d.width_kept (by omega)
  obtain ⟨c, hc, hput, hwrong⟩ : ∃ c, c ∈ specialChars d.conversion.base d.numberFlags ∧
      c ≠ '0' ∧ c ≠ ' ' := by
    rcases hconv with h | h
    · exact ⟨'x', by simp [h, specialChars, Directive.numberFlags, Directive.bits, hspecial,
        Conversion.base, Conversion.large], by decide, by decide⟩
    · exact ⟨'X', by simp [h, specialChars, Directive.numberFlags, Directive.bits, hspecial,
        Conversion.base, Conversion.large], by decide, by decide⟩
  have hnumber : Iso.number d n = ([], [],
      Iso.digits 16 d.conversion.large ((Iso.precision d).getD 1) 0) := by
    rcases hconv with h | h <;> simp [Iso.number, h, hn, Conversion.large]
  have hs : d.conversion ≠ .s := by rcases hconv with h | h <;> simp [h]
  rw [Directive.chars, if_neg hs, numberChars_eq _ _ _ hmin hmax]
  intro h
  have hmem := @mem_numberField (d.numberFlags.zeropad && !d.numberFlags.left) d.numberFlags.left
    d.fieldWidth d.precisionBak (numberSign n d.numberFlags).1 _
    (numberDigits d.numberFlags.large d.conversion.base (numberSign n d.numberFlags).2.toNat) _ hc
  rw [Option.some.inj h, Iso.integer, hnumber] at hmem
  rcases mem_field hmem with hmem | hmem | hmem | hmem | hmem
  · cases hmem
  · cases hmem
  · exact hput (mem_digits_none hmem)
  · exact hput hmem
  · exact hwrong hmem

theorem hex_iff (d : Directive) (n : BitVec 32) (hconv : d.conversion = .x ∨ d.conversion = .X)
    (hm : Iso.Meaningful d) (hfits : (Iso.integer d n).length < 2 ^ 31) :
    d.chars (.int n) = some (Iso.integer d n) ↔
      (.special ∈ d.flags → n.toNat ≠ 0) ∧
        d.PrecisionKept n.toNat (if .special ∈ d.flags then 2 else 0) (digitCount 16 n.toNat) := by
  have hsigned : d.conversion.signed = false ∧ d.conversion.base = 16 ∧ d.conversion ≠ .s := by
    rcases hconv with h | h <;> simp [h, Conversion.signed, Conversion.base]
  obtain ⟨hsign, hbase, hs⟩ := hsigned
  have htmp : (numberDigits d.conversion.large d.conversion.base n.toNat).reverse =
      Iso.digits 16 d.conversion.large 1 n.toNat := by
    rw [hbase, numberDigits_reverse]
    rfl
  by_cases hspecial : .special ∈ d.flags
  · by_cases hn : n.toNat = 0
    · have hnever := prefix_of_zero d n hconv hspecial hn hfits
      tauto
    · have hchars : specialChars d.conversion.base d.numberFlags =
          ['0', if d.conversion.large then 'X' else 'x'] := by
        rw [hbase]
        simp [specialChars, Directive.numberFlags, Directive.bits, hspecial]
      have hnumber : Iso.number d n = ([], ['0', if d.conversion.large then 'X' else 'x'],
          Iso.digits 16 d.conversion.large ((Iso.precision d).getD 1) n.toNat) := by
        rcases hconv with h | h
        · simp only [Iso.number, h, if_pos (And.intro hspecial hn)]
          rfl
        · simp only [Iso.number, h, if_pos (And.intro hspecial hn)]
          rfl
      have h := @unsigned_iff d n 16 hsign hs hm hfits (by rw [hnumber, hchars]) htmp
        fun _ => hn
      rw [h, hchars, if_pos hspecial]
      exact (and_iff_right fun _ => hn).symm
  · have hchars : specialChars d.conversion.base d.numberFlags = [] := by
      simp [specialChars, Directive.numberFlags, Directive.bits, hspecial]
    have h := @unsigned_iff d n 16 hsign hs hm hfits
      (by
        rw [hchars]
        rcases hconv with h | h <;> simp [Iso.number, h, hspecial, Conversion.large])
      htmp (by simp [hchars])
    rw [h, hchars]
    simp [hspecial]

/-! ## Octal numbers of more than one digit -/

/-- The digits behind the leading zeros. -/
def significant (l : List Char) : List Char :=
  (l.dropWhile fun c => c = ' ' || c = '0').filter (· ≠ ' ')

theorem significant_append {a : List Char} (ha : ∀ c ∈ a, c = ' ' ∨ c = '0') (l : List Char) :
    significant (a ++ l) = significant l := by
  rw [significant, significant, List.dropWhile_append_of_pos (by simpa using ha)]

theorem significant_zeros (n : Nat) (l : List Char) :
    significant (List.replicate n '0' ++ l) = significant l :=
  significant_append (fun _ hc => .inr (List.eq_of_mem_replicate hc)) l

theorem significant_spaces (n : Nat) (l : List Char) :
    significant (List.replicate n ' ' ++ l) = significant l :=
  significant_append (fun _ hc => .inl (List.eq_of_mem_replicate hc)) l

theorem digitChar_space : ∀ k < 16, digitChar false k ≠ ' ' := by decide

theorem digitChar_zero : ∀ k < 16, digitChar false k = '0' → k = 0 := by decide

theorem digitChar_inj : ∀ j < 16, ∀ k < 16, digitChar false j = digitChar false k → j = k := by
  decide

theorem significant_digits {base value : Nat} (hbase : 1 < base) (hmax : base ≤ 16)
    (hvalue : value ≠ 0) (fill : Nat) :
    significant (Iso.digits base false 0 value ++ List.replicate fill ' ') =
      Iso.digits base false 0 value := by
  have hne : Nat.digits base value ≠ [] := Nat.digits_ne_nil_iff_ne_zero.2 hvalue
  have hlt (k) (hk : k ∈ Nat.digits base value) : k < 16 :=
    (Nat.digits_lt_base hbase hk).trans_le hmax
  obtain ⟨c, rest, hdigits⟩ : ∃ c rest, Iso.digits base false 0 value = c :: rest :=
    List.exists_cons_of_ne_nil (by simp [Iso.digits, hne])
  have hfirst : c ≠ '0' := by
    have hlast := Nat.getLast_digit_ne_zero base hvalue
    have hc : digitChar false ((Nat.digits base value).getLast hne) = c := by
      have hhead := congrArg List.head? hdigits
      simp only [Iso.digits, Nat.zero_sub, List.replicate_zero, List.nil_append,
        List.head?_reverse, List.getLast?_map, List.getLast?_eq_some_getLast hne,
        Option.map_some, List.head?_cons, Option.some.injEq] at hhead
      exact hhead
    intro h
    exact hlast (digitChar_zero _ (hlt _ (List.getLast_mem hne)) (hc.trans h))
  have hspaces : ∀ k ∈ Iso.digits base false 0 value, k ≠ ' ' := by
    intro k hk
    simp only [Iso.digits, Nat.zero_sub, List.replicate_zero, List.nil_append, List.mem_reverse,
      List.mem_map] at hk
    obtain ⟨j, hj, rfl⟩ := hk
    exact digitChar_space j (hlt j hj)
  have hkeep : (Iso.digits base false 0 value ++ List.replicate fill ' ').dropWhile
      (fun c => c = ' ' || c = '0') = Iso.digits base false 0 value ++ List.replicate fill ' ' := by
    rw [hdigits] at hspaces ⊢
    simp [hfirst, hspaces c]
  rw [significant, hkeep, List.filter_append, List.filter_eq_self.2 (by simpa using hspaces)]
  simp

theorem map_digitChar_inj {l l' : List Nat} (hl : ∀ k ∈ l, k < 16) (hl' : ∀ k ∈ l', k < 16)
    (h : l.map (digitChar false) = l'.map (digitChar false)) : l = l' := by
  induction l generalizing l' with
  | nil => exact (List.map_eq_nil_iff.1 h.symm).symm
  | cons j l ih =>
    cases l' with
    | nil => cases h
    | cons k l' =>
      obtain ⟨hhead, htail⟩ := List.cons.inj h
      have hjk := digitChar_inj j (hl j (by simp)) k (hl' k (by simp)) hhead
      have hrest := ih (fun m hm => hl m (List.mem_cons_of_mem j hm))
        (fun m hm => hl' m (List.mem_cons_of_mem k hm)) htail
      rw [hjk, hrest]

/-- No number of more than one digit has the same digits in both bases. -/
theorem octal_digits_differ {value : Nat} (hvalue : 8 ≤ value) :
    Iso.digits 8 false 0 value ≠ Iso.digits 16 false 0 value := by
  intro h
  have hlists : Nat.digits 8 value = Nat.digits 16 value := by
    simp only [Iso.digits, Nat.zero_sub, List.replicate_zero, List.nil_append,
      List.reverse_inj] at h
    exact map_digitChar_inj
      (fun k hk => (Nat.digits_lt_base (by decide) hk).trans (by decide))
      (fun k hk => Nat.digits_lt_base (by decide) hk) h
  rw [@Nat.digits_def' 8 (by decide) _ (by omega), @Nat.digits_def' 16 (by decide) _ (by omega)]
    at hlists
  have htail := (List.cons.inj hlists).2
  have hle := Nat.ofDigits_monotone (Nat.digits 8 (value / 8)) (by decide : 8 ≤ 16)
  rw [Nat.ofDigits_digits, htail, Nat.ofDigits_digits] at hle
  omega

/-! ## Octal numbers -/

theorem specialChars_octal (type : Flags) :
    specialChars 8 type = if type.special then ['0'] else [] := by
  unfold specialChars
  split <;> rfl

theorem significant_numberField (z left : Bool) (s precision : Int) (type : Flags) {value : Nat}
    (hvalue : value ≠ 0) :
    significant (numberField z left s precision none (specialChars 8 type)
      (numberDigits false 8 value)) =
      if precision ≠ 0 then Iso.digits 16 false 0 value else [] := by
  have hdigits : (numberDigits false 8 value).reverse = Iso.digits 16 false 0 value := by
    rw [numberDigits_reverse, digits_zero 16 false hvalue]
    rfl
  have hspecial (l : List Char) : significant (specialChars 8 type ++ l) = significant l := by
    rw [specialChars_octal]
    split
    · exact significant_zeros 1 l
    · rfl
  have hpad (n : Nat) (l : List Char) :
      significant (List.replicate n (if z then '0' else ' ') ++ l) = significant l := by
    cases z
    · exact significant_spaces n l
    · exact significant_zeros n l
  rw [numberField, numberText, hdigits, Option.toList_none, List.nil_append, significant_spaces,
    hspecial, hpad, significant_zeros]
  split
  · exact significant_digits (by decide) (by decide) hvalue _
  · rw [List.nil_append, ← List.append_nil (List.replicate _ ' '), significant_spaces]
    rfl

theorem significant_octal (d : Directive) (n : BitVec 32) (hconv : d.conversion = .o)
    (hn : n.toNat ≠ 0) : significant (Iso.integer d n) = Iso.digits 8 false 0 n.toNat := by
  obtain ⟨zeros, hzeros, hnumber⟩ : ∃ zeros, (∀ c ∈ zeros, c = ' ' ∨ c = '0') ∧
      Iso.number d n = ([], [], zeros ++ Iso.digits 8 false 0 n.toNat) := by
    have hleast (least : Nat) : Iso.digits 8 false least n.toNat =
        List.replicate (least - (Iso.digits 8 false 0 n.toNat).length) '0' ++
          Iso.digits 8 false 0 n.toNat := by
      simp [Iso.digits]
    simp only [Iso.number, hconv]
    rw [hleast]
    split
    · exact ⟨'0' :: List.replicate _ '0', by simp, rfl⟩
    · exact ⟨List.replicate _ '0', by simp, rfl⟩
  have hends (fill : Nat) : significant (zeros ++ (Iso.digits 8 false 0 n.toNat ++
      List.replicate fill ' ')) = Iso.digits 8 false 0 n.toNat := by
    rw [significant_append hzeros, significant_digits (by decide) (by decide) hn]
  have hplain := hends 0
  rw [List.replicate_zero, List.append_nil] at hplain
  rw [Iso.integer, hnumber, field]
  simp only [List.nil_append]
  split
  · rw [List.append_assoc]
    exact hends _
  · split
    · rw [significant_zeros, hplain]
    · rw [significant_spaces, hplain]

/-- The digits of an octal number are the hexadecimal ones. -/
theorem octal_wrong (d : Directive) (n : BitVec 32) (hconv : d.conversion = .o)
    (hn : 8 ≤ n.toNat) (hfits : (Iso.integer d n).length < 2 ^ 31) :
    d.chars (.int n) ≠ some (Iso.integer d n) := by
  obtain ⟨hwidth, -⟩ := length_integer d n
  obtain ⟨hmin, hmax, -⟩ := d.width_kept (by omega)
  have hbase : d.conversion.base = 8 := by simp [hconv, Conversion.base]
  have hlarge : d.numberFlags.large = false := by
    simp [Directive.numberFlags, hconv, Conversion.large]
  have hsgn : numberSign n d.numberFlags = (none, n) :=
    numberSign_unsigned n (by simp [Directive.numberFlags, hconv, Conversion.signed])
  rw [Directive.chars, if_neg (by simp [hconv]), numberChars_eq _ _ _ hmin hmax, hbase, hlarge,
    hsgn]
  intro h
  have hsig := congrArg significant (Option.some.inj h)
  rw [significant_numberField _ _ _ _ _ (show n.toNat ≠ 0 by omega), significant_octal d n hconv (by omega)] at hsig
  split at hsig
  · exact octal_digits_differ hn hsig.symm
  · have hempty := congrArg List.length hsig
    rw [digits_zero 8 false (by omega)] at hempty
    have hone := length_digits_one 8 false n.toNat
    rw [← hempty] at hone
    simp at hone

theorem octal_digit : ∀ v < 8, Iso.digits 8 false 1 v = [digitChar false v] := by decide

theorem octal_tmp : ∀ v < 8, numberDigits false 8 v = [digitChar false v] := by decide

/-- An octal number of one digit, without a prefix. -/
theorem octal_plain (d : Directive) (n : BitVec 32) (hconv : d.conversion = .o)
    (hspecial : .special ∉ d.flags) (hn : n.toNat < 8) (hm : Iso.Meaningful d)
    (hfits : (Iso.integer d n).length < 2 ^ 31) :
    d.chars (.int n) = some (Iso.integer d n) ↔ d.PrecisionKept n.toNat 0 1 := by
  have hchars : specialChars d.conversion.base d.numberFlags = [] := by
    simp [specialChars, Directive.numberFlags, Directive.bits, hspecial]
  have htmp : (numberDigits d.conversion.large d.conversion.base n.toNat).reverse =
      Iso.digits 8 d.conversion.large 1 n.toNat := by
    simp only [hconv, Conversion.large, Conversion.base]
    rw [octal_tmp _ hn, octal_digit _ hn, List.reverse_singleton]
  have h := @unsigned_iff d n 8 (by simp [hconv, Conversion.signed]) (by simp [hconv]) hm
    hfits (by rw [hchars]; simp [Iso.number, hconv, hspecial, Conversion.large]) htmp
    (by simp [hchars])
  rw [h, hchars, digitCount, octal_digit _ hn]
  rfl

/-- The prefix of an octal number of one digit is what ISO C makes of it. -/
def Directive.OctalKept (d : Directive) (value : Nat) : Prop :=
  match Iso.precision d with
  | none =>
    if d.precision = none then value = 0 → d.zeroPads ∧ 2 ≤ Iso.width d
    else value = 0 ∧ Iso.width d ≤ 1
  | some 0 => value = 0 ∧ Iso.width d ≤ 1
  | some 1 => value ≠ 0 ∧ (d.zeroPads → Iso.width d ≤ 2)
  | some _ => False

/-- The digits with the flag that forces a zero at their front. -/
def octalDigits (least value : Nat) : List Char :=
  if value = 0 then List.replicate (max least 1) '0'
  else if least ≤ 1 then ['0', digitChar false value]
  else List.replicate (least - 1) '0' ++ [digitChar false value]

theorem octal_number (d : Directive) (n : BitVec 32) (hconv : d.conversion = .o)
    (hspecial : .special ∈ d.flags) (hn : n.toNat < 8) :
    Iso.number d n = ([], [], octalDigits ((Iso.precision d).getD 1) n.toNat) := by
  simp only [Iso.number, hconv, hspecial, true_and]
  generalize (Iso.precision d).getD 1 = least
  congr 2
  unfold octalDigits
  by_cases hzero : n.toNat = 0
  · rw [if_pos hzero, hzero]
    cases least with
    | zero => rfl
    | succ least =>
      have hds : Iso.digits 8 false (least + 1) 0 = List.replicate (least + 1) '0' := by
        simp [Iso.digits]
      rw [hds, if_neg (by simp [List.replicate_succ]), Nat.max_eq_left (by omega)]
  · rw [if_neg hzero]
    have hfirst : digitChar false n.toNat ≠ '0' := fun h =>
      hzero (digitChar_zero _ (by omega) h)
    rcases Nat.lt_or_ge 1 least with hleast | hleast
    · have hhead : (List.replicate (least - 1) '0' ++ [digitChar false n.toNat]).head? =
          some '0' := by
        obtain ⟨k, hk⟩ : ∃ k, least - 1 = k + 1 := ⟨least - 2, by omega⟩
        simp [hk, List.replicate_succ]
      rw [digits_one 8 false (by omega), octal_digit _ hn, List.length_singleton,
        if_neg (not_not.2 hhead), if_neg (by omega)]
    · have hds : Iso.digits 8 false least n.toNat = [digitChar false n.toNat] := by
        rcases Nat.le_one_iff_eq_zero_or_eq_one.1 hleast with rfl | rfl
        · rw [digits_zero 8 false hzero, octal_digit _ hn]
        · exact octal_digit _ hn
      rw [hds, if_pos hleast, if_pos (by simpa using hfirst)]

/-- How many zeros a number has, whatever its padding is. -/
theorem count_numberField (z left : Bool) (s : Int) (p : Nat) (hp : p ≠ 0) (sgn : Option Char)
    (special tmp : List Char) :
    List.count '0' special + (p - tmp.length) + List.count '0' tmp ≤
      List.count '0' (numberField z left s p sgn special tmp) := by
  have hleast : (leastDigits p tmp - tmp.length).toNat = p - tmp.length := by
    rw [leastDigits_nat]
    omega
  have hne : (p : Int) ≠ 0 := by omega
  rw [numberField, numberText, hleast, if_pos hne]
  simp only [List.count_append, List.count_replicate_self, List.count_reverse]
  omega

theorem count_field_spaces (left : Bool) (fill : Nat) (ds : List Char) :
    List.count '0' (field false left fill [] [] ds) = List.count '0' ds := by
  cases left <;> simp [field, List.count_replicate]

theorem count_octalDigits {p value : Nat} (hlarge : value = 0 ∨ 1 < p) :
    List.count '0' (octalDigits p value) < 1 + (p - 1) + List.count '0' [digitChar false value] := by
  unfold octalDigits
  by_cases hzero : value = 0
  · subst hzero
    have hone : List.count '0' [digitChar false 0] = 1 := by decide
    rw [if_pos rfl, List.count_replicate_self, hone]
    omega
  · rw [if_neg hzero, if_neg (by omega), List.count_append, List.count_replicate_self]
    omega

/-- Without digits the prefix alone stands for a zero. -/
theorem octal_short_iff {zero z left : Bool} {least value w : Nat} {s : Int} (hleast : least ≤ 1)
    (hw : w = s.toNat) :
    field z left (s - ((Option.toList (none : Option Char)).length + ['0'].length +
        [digitChar false value].length)).toNat (none : Option Char).toList ['0'] [] =
      field zero left (w - (octalDigits least value).length) [] [] (octalDigits least value) ↔
      value = 0 ∧ w ≤ 1 := by
  unfold octalDigits
  by_cases hzero : value = 0
  · rw [if_pos hzero, Nat.max_eq_right hleast]
    simp only [hzero, true_and]
    constructor
    · intro h
      have hlength := congrArg List.length h
      rw [length_field, length_field] at hlength
      simp at hlength
      omega
    · intro h
      rw [Int.toNat_eq_zero.2 (by simp; omega), Nat.sub_eq_zero_of_le (by simpa using h),
        field_full, field_full]
      rfl
  · rw [if_neg hzero, if_pos hleast]
    simp only [hzero, false_and, iff_false]
    intro h
    have hlength := congrArg List.length h
    rw [length_field, length_field] at hlength
    simp at hlength
    omega

/-- A zero that stands before the digits is one of the digits. -/
theorem field_zero_digit {zero left : Bool} {fill : Nat} {c : Char} :
    field zero left fill [] ['0'] [c] = field zero left fill [] [] ['0', c] := by
  have hzeros : '0' :: (List.replicate fill '0' ++ [c]) = List.replicate fill '0' ++ ['0', c] := by
    rw [← List.cons_append, ← List.replicate_succ, List.replicate_succ', List.append_assoc,
      List.singleton_append]
  cases left <;> cases zero <;> simp [field, hzeros]

/-- The prefix and the digit of a number without a precision. -/
theorem octal_default_iff {zero left : Bool} {value w : Nat} {s : Int} (hw : w = s.toNat) :
    field (zero && !left) left (s - ((Option.toList (none : Option Char)).length + ['0'].length +
        [digitChar false value].length)).toNat (none : Option Char).toList ['0']
        [digitChar false value].reverse =
      field zero left (w - (octalDigits 1 value).length) [] [] (octalDigits 1 value) ↔
      (value = 0 → (zero && !left) = true ∧ 2 ≤ w) := by
  have hfill : (s - ((Option.toList (none : Option Char)).length + ['0'].length +
      [digitChar false value].length)).toNat = w - 2 := by
    simp
    omega
  rw [hfill, field_and_left, Option.toList_none, List.reverse_singleton, field_zero_digit]
  unfold octalDigits
  by_cases hzero : value = 0
  · subst hzero
    have hzero : digitChar false 0 = '0' := by decide
    have hone : List.replicate (max 1 1) '0' = ['0'] := rfl
    rw [if_pos rfl, hzero, hone]
    by_cases hpads : (zero && !left) = true
    · obtain ⟨rfl, rfl⟩ : zero = true ∧ left = false := by simpa using hpads
      have htwo : List.replicate (w - 2) '0' ++ ['0', '0'] = List.replicate (w - 2 + 2) '0' := by
        rw [List.replicate_add]
        rfl
      simp only [field, Bool.false_eq_true, if_false, if_true, List.nil_append, htwo,
        List.length_singleton, ← List.replicate_succ', List.replicate_inj]
      simp
      omega
    · refine iff_of_false (fun h => ?_) fun h => hpads (h rfl).1
      have hcount := congrArg (List.count '0') h
      rw [← field_and_left, ← @field_and_left zero] at hcount
      simp only [Bool.not_eq_true] at hpads
      rw [hpads, count_field_spaces, count_field_spaces] at hcount
      simp at hcount
  · simp [hzero]

/-- An octal number of one digit, with its prefix. -/
theorem octal_special (d : Directive) (n : BitVec 32) (hconv : d.conversion = .o)
    (hspecial : .special ∈ d.flags) (hn : n.toNat < 8) (hm : Iso.Meaningful d)
    (hfits : (Iso.integer d n).length < 2 ^ 31) :
    d.chars (.int n) = some (Iso.integer d n) ↔ d.OctalKept n.toNat := by
  obtain ⟨hwidth, -⟩ := length_integer d n
  obtain ⟨hmin, hmax, hw⟩ := d.width_kept (by omega)
  have hbase : d.conversion.base = 8 := by simp [hconv, Conversion.base]
  have hlarge : d.numberFlags.large = false := by
    simp [Directive.numberFlags, hconv, Conversion.large]
  have hsgn : numberSign n d.numberFlags = (none, n) :=
    numberSign_unsigned n (by simp [Directive.numberFlags, hconv, Conversion.signed])
  have hchars : specialChars 8 d.numberFlags = ['0'] := by
    simp [specialChars, Directive.numberFlags, Directive.bits, hspecial]
  have hcode : d.chars (.int n) = some (numberField d.zeroPads d.leftFlag d.fieldWidth
      d.precisionBak none ['0'] [digitChar false n.toNat]) := by
    rw [Directive.chars, if_neg (by simp [hconv]), numberChars_eq _ _ _ hmin hmax, hbase, hlarge,
      hsgn, hchars, octal_tmp _ hn]
    rfl
  rw [hcode, Option.some_inj, Iso.integer, octal_number d n hconv hspecial hn]
  unfold Directive.OctalKept
  simp only [List.length_nil, Nat.zero_add]
  cases hp : Iso.precision d with
  | none =>
    obtain ⟨hprecision, hbak⟩ | ⟨hprecision, hbak⟩ := d.precisionBak_none hp
    · rw [hbak, numberField_default hmin hmax (by simp) (by simp), if_pos hprecision,
        Directive.zeroPads]
      simpa using @octal_default_iff (decide (.zero ∈ d.flags)) _ _ _ _ hw
    · rw [hbak, numberField_zero hmin hmax (by simp) (by simp) (by simp), if_neg hprecision]
      exact octal_short_iff (by simp) hw
  | some p =>
    have hbak := d.precisionBak_some hp (hm.2.2 p hp)
    rw [hbak]
    cases p with
    | zero =>
      rw [Nat.cast_zero, numberField_zero hmin hmax (by simp) (by simp) (by simp)]
      exact octal_short_iff (by simp) hw
    | succ p =>
      by_cases hlarge : n.toNat = 0 ∨ 1 < p + 1
      · have hzeros := count_octalDigits hlarge
        have hcount := count_numberField d.zeroPads d.leftFlag d.fieldWidth (p + 1) (by omega) none
          ['0'] [digitChar false n.toNat]
        constructor
        · intro h
          rw [h, decide_eq_false (by simp), count_field_spaces] at hcount
          simp at hcount hzeros
          omega
        · intro h
          cases p with
          | zero => exact absurd hlarge (by simp [h.1])
          | succ p => exact h.elim
      · obtain rfl : p = 0 := by omega
        have hzero : n.toNat ≠ 0 := fun h => hlarge (.inl h)
        have hcount : Counted d.zeroPads d.leftFlag d.fieldWidth
            (taken 1 none ['0'] [digitChar false n.toNat]) :=
          counted_short hmin (by simp) (by simp [leastDigits])
        have hprecise := @numberField_precise d.leftFlag ['0'] d.zeroPads d.fieldWidth none
          [digitChar false n.toNat] 1 _ (by decide)
          hmin hmax hw (by simp) (by simp)
        have htaken : taken 1 none ['0'] [digitChar false n.toNat] = 2 := rfl
        have hdigits : octalDigits 1 n.toNat = ['0', digitChar false n.toNat] := by
          rw [octalDigits, if_neg hzero, if_pos le_rfl]
        have hpads : d.zeroPads = true ∧ d.leftFlag = false ↔ d.zeroPads = true := by
          simp [Directive.zeroPads]
        simp only [zero_add, Option.getD_some, hdigits, reduceCtorEq, and_false, decide_false]
        rw [hpads] at hprecise
        rw [← field_zero_digit]
        exact hprecise.trans ⟨fun h => ⟨hzero, h.1⟩, fun h => ⟨h.2, hcount⟩⟩

end RtThread.Vsnprintf
