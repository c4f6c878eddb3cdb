import RtThread.VsnprintfConversions

/-!
# Strings, and the conversions together

The width of a string conversion cuts the string, and a precision of zero is taken as if it were
omitted. The end is one condition for each directive and argument for which ISO C prescribes a
field.
-/
namespace RtThread.Vsnprintf

open Iso (field)

/-! ## The length that is taken from a string -/

theorem lenLoop_unbounded (k : Nat) (s : List Char) : lenLoop (-1) k s = (k + s.length : Nat) := by
  induction s generalizing k with
  | nil => simp [lenLoop]
  | cons c s ih =>
    have hstep := ih (k + 1)
    rw [lenLoop, if_neg (by omega), List.length_cons]
    push_cast at hstep ⊢
    omega

theorem lenLoop_bounded {w k : Nat} (hk : k ≤ w) (s : List Char) :
    lenLoop w k s = (min w (k + s.length) : Nat) := by
  induction s generalizing k with
  | nil => simp [lenLoop, hk]
  | cons c s ih =>
    rw [lenLoop]
    split
    · rw [List.length_cons]
      omega
    · have hstep := ih (k := k + 1) (by omega)
      rw [List.length_cons]
      push_cast at hstep ⊢
      omega

/-- How many characters of `s` the case `'s'` puts. -/
def takenLength (fieldWidth precision : Int) (s : List Char) : Nat :=
  let len := if fieldWidth < 0 then s.length else min fieldWidth.toNat s.length
  if 0 < precision then min len precision.toNat else len

theorem printString_field {w p : Int} (hmin : -1 ≤ w) (hmax : w < 2 ^ 31) (s : List Char)
    (flags : Flags) :
    printString pushBack [] (some s) w p flags =
      field false flags.left (w - takenLength w p s).toNat [] [] (s.take (takenLength w p s)) := by
  have hlen : (if 0 < p ∧ p < lenLoop w 0 s then p else lenLoop w 0 s) = takenLength w p s := by
    unfold takenLength
    by_cases hw : w < 0
    · obtain rfl : w = -1 := by omega
      have hloop := lenLoop_unbounded 0 s
      rw [Nat.cast_zero] at hloop
      simp only [if_pos hw, hloop]
      split <;> split <;> omega
    · obtain ⟨k, rfl⟩ : ∃ k : Nat, w = k := ⟨w.toNat, by omega⟩
      have hloop := lenLoop_bounded (Nat.zero_le k) s
      rw [Nat.cast_zero] at hloop
      simp only [if_neg hw, hloop, Int.toNat_natCast]
      split <;> split <;> omega
  unfold printString
  simp only [Option.getD_some, hlen]
  generalize takenLength w p s = len
  have hbound : int32 (min w len - 1) = min w len - 1 := int32_eq (by omega) (by omega)
  have hrest : (min w len - 1 - (len : Int)).toNat = 0 := by omega
  cases hleft : flags.left
  · simp [countDownTo, hbound, hrest, field]
  · simp [countDownTo, field]

namespace Directive

variable (d : Directive)

/-- Neither the width nor the precision does more to the string than ISO C says. -/
def StringKept (s : List Char) : Prop :=
  match Iso.precision d with
  | none => d.width = none ∨ s.length ≤ Iso.width d
  | some 0 => if d.width = none then s = [] else ∀ c ∈ s.take (Iso.width d), c = ' '
  | some p => d.width = none ∨ min s.length p ≤ Iso.width d

end Directive

theorem length_string (d : Directive) (s : List Char) :
    Iso.width d ≤ (Iso.string d s).length := by
  simp only [Iso.string, length_field]
  omega

/-- The width cuts the string where fewer characters fit than are taken. -/
theorem cut_iff {left : Bool} {w len : Nat} {s : List Char} (hs : len ≤ s.length) :
    field false left (w - min w len) [] [] (s.take (min w len)) =
      field false left (w - len) [] [] (s.take len) ↔ len ≤ w := by
  constructor
  · intro h
    have hlength := congrArg List.length h
    rw [length_field, length_field, List.length_take, List.length_take] at hlength
    omega
  · intro h
    rw [Nat.min_eq_right h]

/-- A width without characters. -/
theorem spaces_iff {left : Bool} {w : Nat} {s : List Char} :
    field false left (w - (s.take w).length) [] [] (s.take w) = field false left w [] [] [] ↔
      ∀ c ∈ s.take w, c = ' ' := by
  have hempty : field false left w [] [] [] = List.replicate w ' ' := by
    cases left <;> simp [field]
  have hlength : (s.take w).length ≤ w := by simp
  generalize s.take w = l at hlength ⊢
  rw [hempty, List.eq_replicate_iff]
  constructor
  · rintro ⟨-, h⟩ c hc
    exact h c (by cases left <;> simp [field, hc])
  · intro h
    refine ⟨by rw [length_field]; simp; omega, fun c hc => ?_⟩
    cases left <;> simp [field] at hc
    · rcases hc with ⟨-, rfl⟩ | hc
      · rfl
      · exact h c hc
    · rcases hc with hc | ⟨-, rfl⟩
      · exact h c hc
      · rfl

theorem string_iff (d : Directive) (s : List Char) (hconv : d.conversion = .s)
    (hm : Iso.Meaningful d) (hfits : (Iso.string d s).length < 2 ^ 31) :
    d.chars (.str (some s)) = some (Iso.string d s) ↔ d.StringKept s := by
  have hwidth : Iso.width d < 2 ^ 31 := (length_string d s).trans_lt hfits
  obtain ⟨hmin, hmax, -⟩ := d.width_kept hwidth
  rw [Directive.chars, if_pos hconv, Option.some_inj, printString_field hmin hmax]
  show field false d.leftFlag _ [] [] _ = _ ↔ _
  unfold Directive.StringKept Iso.string
  obtain ⟨hnone, hw, hzero⟩ | ⟨hsome, hw⟩ := d.width_given hwidth
  · have hfill (len : Nat) : ((-1 : Int) - len).toNat = 0 := by omega
    rw [hw, hzero, hfill]
    cases hp : Iso.precision d with
    | none =>
      have htaken : takenLength (-1) d.precisionBak s = s.length := by
        obtain ⟨-, hbak⟩ | ⟨-, hbak⟩ := d.precisionBak_none hp <;>
          simp [hbak, takenLength]
      simp [htaken, hnone]
    | some p =>
      have hbak := d.precisionBak_some hp (hm.2.2 p hp)
      cases p with
      | zero =>
        have htaken : takenLength (-1) d.precisionBak s = s.length := by simp [hbak, takenLength]
        simp [htaken, hnone, field_full]
      | succ p =>
        have htaken : takenLength (-1) d.precisionBak s = min s.length (p + 1) := by
          have hpos : (0 : Int) < (p + 1 : Nat) := by omega
          simp only [hbak, takenLength, if_pos hpos, Int.toNat_natCast]
          rfl
        simp [htaken, hnone, field_full, List.take_eq_take_iff, Nat.min_comm]
  · have hfill (len : Nat) : ((Iso.width d : Int) - len).toNat = Iso.width d - len := by omega
    rw [hw, hfill]
    have hbounded (q : Int) (hq : q ≤ 0) :
        takenLength (Iso.width d) q s = min (Iso.width d) s.length := by
      rw [takenLength, if_neg (by omega), if_neg (by omega), Int.toNat_natCast]
    cases hp : Iso.precision d with
    | none =>
      have htaken : takenLength (Iso.width d) d.precisionBak s = min (Iso.width d) s.length := by
        obtain ⟨-, hbak⟩ | ⟨-, hbak⟩ := d.precisionBak_none hp <;>
          exact hbounded _ (by omega)
      have hcut := @cut_iff d.leftFlag (Iso.width d) _ _ (le_refl s.length)
      rw [List.take_length] at hcut
      simpa [htaken, hsome] using hcut
    | some p =>
      have hbak := d.precisionBak_some hp (hm.2.2 p hp)
      cases p with
      | zero =>
        have htaken : takenLength (Iso.width d) d.precisionBak s =
            min (Iso.width d) s.length := hbounded _ (by omega)
        have htake : s.take (min (Iso.width d) s.length) = s.take (Iso.width d) := by
          rw [← List.take_take, List.take_length]
        have hspaces := @spaces_iff d.leftFlag (Iso.width d) s
        rw [List.length_take] at hspaces
        simpa [htaken, hsome, htake] using hspaces
      | succ p =>
        have htaken : takenLength (Iso.width d) d.precisionBak s =
            min (Iso.width d) (min s.length (p + 1)) := by
          have hpos : (0 : Int) < (p + 1 : Nat) := by omega
          have hnat : ¬ (Iso.width d : Int) < 0 := by omega
          simp only [hbak, takenLength, if_pos hpos, if_neg hnat, Int.toNat_natCast]
          omega
        have hcut := @cut_iff d.leftFlag (Iso.width d) _ _
          (Nat.min_le_left s.length (p + 1))
        have htake : s.take (min s.length (p + 1)) = s.take (p + 1) := by
          rw [Nat.min_comm, ← List.take_take, List.take_length]
        rw [htake] at hcut
        simpa [htaken, hsome, Nat.min_comm] using hcut

/-! ## All the conversions -/

/-- When the field of a directive is the one of ISO C. -/
def Directive.Kept (d : Directive) : Arg → Prop
  | .int n =>
    match d.conversion with
    | .d | .i =>
      d.PrecisionKept n.toInt.natAbs (Iso.sign d n.toInt).length (digitCount 10 n.toInt.natAbs)
    | .u => d.PrecisionKept n.toNat 0 (digitCount 10 n.toNat)
    | .x | .X =>
      (.special ∈ d.flags → n.toNat ≠ 0) ∧
        d.PrecisionKept n.toNat (if .special ∈ d.flags then 2 else 0) (digitCount 16 n.toNat)
    | .o =>
      n.toNat < 8 ∧
        if .special ∈ d.flags then d.OctalKept n.toNat else d.PrecisionKept n.toNat 0 1
    | .s => False
  | .str none => False
  | .str (some s) => d.StringKept s

theorem octal_iff (d : Directive) (n : BitVec 32) (hconv : d.conversion = .o)
    (hm : Iso.Meaningful d) (hfits : (Iso.integer d n).length < 2 ^ 31) :
    d.chars (.int n) = some (Iso.integer d n) ↔
      n.toNat < 8 ∧
        if .special ∈ d.flags then d.OctalKept n.toNat else d.PrecisionKept n.toNat 0 1 := by
  rcases Nat.lt_or_ge n.toNat 8 with hn | hn
  · rw [and_iff_right hn]
    split
    · next hspecial => exact octal_special d n hconv hspecial hn hm hfits
    · next hspecial => exact octal_plain d n hconv hspecial hn hm hfits
  · exact iff_of_false (octal_wrong d n hconv hn hfits) fun h => absurd h.1 (by omega)

/-- Wherever ISO C prescribes the field of a directive, that field is what `rt_vsnprintf`
appends if and only if the condition on the directive and its argument holds. -/
theorem conversion_follows_iso (d : Directive) (arg : Arg) (l : List Char)
    (h : Iso.Prescribes d arg l) : d.Appends arg l ↔ d.Kept arg := by
  obtain ⟨hm, hfits, harg⟩ := h
  rw [appends_iff]
  cases arg with
  | int n =>
    obtain ⟨hs, rfl⟩ := harg
    unfold Directive.Kept
    cases hconv : d.conversion with
    | d => exact signed_iff d n (.inl hconv) hm hfits
    | i => exact signed_iff d n (.inr hconv) hm hfits
    | u => exact decimal_iff d n hconv hm hfits
    | x => exact hex_iff d n (.inl hconv) hm hfits
    | X => exact hex_iff d n (.inr hconv) hm hfits
    | o => exact octal_iff d n hconv hm hfits
    | s => exact absurd hconv hs
  | str s =>
    cases s with
    | none => exact harg.elim
    | some s =>
      obtain ⟨hconv, rfl⟩ := harg
      exact string_iff d s hconv hm hfits

/-- `%+5d` -/
def plusFive : Directive where
  flags := [.plus]
  width := some (.number [5])
  precision := none
  conversion := .d
  width_starts := by
    rintro _ ⟨⟩
    exact ⟨5, [], rfl, by decide⟩

theorem conversion_follows_iso_plus :
    plusFive.Appends (.int 42) [' ', ' ', '+', '4', '2'] ↔ plusFive.Kept (.int 42) :=
  conversion_follows_iso plusFive (.int 42) [' ', ' ', '+', '4', '2']
    ⟨⟨by decide, by decide, by rintro p ⟨⟩⟩, by decide, by decide, by decide⟩

/-- `%o` -/
def octal : Directive where
  flags := []
  width := none
  precision := none
  conversion := .o
  width_starts := by rintro _ ⟨⟩

/-- The octal number 10 is printed with the digit 8. -/
theorem octal_not_iso : Iso.Prescribes octal (.int 8) ['1', '0'] ∧
    octal.Appends (.int 8) ['8'] ∧ ¬ octal.Appends (.int 8) ['1', '0'] := by
  have hchars : octal.chars (.int 8) = some ['8'] := by decide
  refine ⟨⟨⟨by decide, by decide, by rintro p ⟨⟩⟩, by decide, by decide, by decide⟩, ?_, ?_⟩
  · exact (appends_iff _ _ _).2 hchars
  · rw [appends_iff, hchars]
    decide

end RtThread.Vsnprintf
