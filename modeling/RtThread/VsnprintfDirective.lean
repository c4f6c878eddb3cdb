import RtThread.VsnprintfNumber
import Mathlib.Data.List.OfFn

/-!
# Conversion specifications

A directive as its parts: the flags in any order, the field width and the precision as a
numeral or an asterisk, and the conversion. What `rt_vsnprintf` reads from the text of a
directive are these parts again.
-/
namespace RtThread.Vsnprintf

/-! ## Directives and their text -/

inductive Flag where
  | minus
  | plus
  | space
  | special
  | zero
  deriving DecidableEq

def Flag.char : Flag → Char
  | minus => '-'
  | plus => '+'
  | space => ' '
  | special => '#'
  | zero => '0'

/-- A field width or a precision. -/
inductive Amount where
  | number (digits : List (Fin 10))
  | star (n : BitVec 32)
  deriving DecidableEq

inductive Conversion where
  | d
  | i
  | u
  | x
  | X
  | o
  | s
  deriving DecidableEq

def Conversion.char : Conversion → Char
  | d => 'd'
  | i => 'i'
  | u => 'u'
  | x => 'x'
  | X => 'X'
  | o => 'o'
  | s => 's'

/-- A directive without a length modifier. The numeral of a width does not begin with a zero,
which would be a flag; that of a precision may have no digits at all. -/
structure Directive where
  flags : List Flag
  width : Option Amount
  precision : Option Amount
  conversion : Conversion
  width_starts : ∀ l, width = some (.number l) → ∃ c rest, l = c :: rest ∧ c ≠ 0

def digitText (l : List (Fin 10)) : List Char := l.map fun d : Fin 10 => Char.ofNat (48 + d)

def Amount.text : Amount → List Char
  | number digits => digitText digits
  | star _ => ['*']

def Amount.args : Amount → List Arg
  | number _ => []
  | star n => [.int n]

/-- The value of a numeral. -/
def numeral (l : List (Fin 10)) : Nat := l.foldl (fun v (d : Fin 10) => v * 10 + d) 0

namespace Directive

variable (d : Directive)

def widthText : List Char := (d.width.map Amount.text).getD []

def precisionText : List Char := (d.precision.map fun a => '.' :: a.text).getD []

/-- What follows the percent sign. -/
def text : List Char :=
  d.flags.map Flag.char ++ (d.widthText ++ (d.precisionText ++ [d.conversion.char]))

/-- The arguments for the asterisks. -/
def args : List Arg :=
  (d.width.map Amount.args).getD [] ++ (d.precision.map Amount.args).getD []

/-! ## The parts as `rt_vsnprintf` has them -/

def fieldWidth : Int :=
  match d.width with
  | none => -1
  | some (.number l) => int32 (numeral l)
  | some (.star n) => if n.toInt < 0 then int32 (-n.toInt) else n.toInt

def leftFlag : Bool :=
  decide (.minus ∈ d.flags) ||
    match d.width with
    | some (.star n) => decide (n.toInt < 0)
    | _ => false

def precisionBak : Int :=
  match d.precision with
  | none => -1
  | some (.number []) => 0
  | some (.number (c :: l)) => max (int32 (numeral (c :: l))) 0
  | some (.star n) => max n.toInt 0

/-- The bits of `flags` behind the directive's flags and width. -/
def bits : Flags where
  zeropad := decide (.zero ∈ d.flags)
  sign := false
  plus := decide (.plus ∈ d.flags)
  space := decide (.space ∈ d.flags)
  left := d.leftFlag
  special := decide (.special ∈ d.flags)
  large := false

end Directive

/-! ## Reading the text -/

/-- The text does not begin with one of the flags. -/
def NoFlag (fmt : List Char) : Prop := ∀ c rest, fmt = c :: rest → ∀ f : Flag, f.char ≠ c

/-- The text does not begin with a digit. -/
def NoDigit (fmt : List Char) : Prop := ∀ c rest, fmt = c :: rest → isDigit c = false

def withFlags (flags : Flags) (l : List Flag) : Flags :=
  { flags with
    zeropad := flags.zeropad || decide (.zero ∈ l)
    plus := flags.plus || decide (.plus ∈ l)
    space := flags.space || decide (.space ∈ l)
    left := flags.left || decide (.minus ∈ l)
    special := flags.special || decide (.special ∈ l) }

theorem parseFlags_text (l : List Flag) (flags : Flags) {fmt : List Char} (hfmt : NoFlag fmt) :
    parseFlags flags (l.map Flag.char ++ fmt) = (withFlags flags l, fmt) := by
  induction l generalizing flags with
  | nil =>
    cases fmt with
    | nil => simp [parseFlags, withFlags]
    | cons c fmt =>
      have hc := hfmt c fmt rfl
      have hminus := hc .minus
      have hplus := hc .plus
      have hspace := hc .space
      have hspecial := hc .special
      have hzero := hc .zero
      simp only [Flag.char] at hminus hplus hspace hspecial hzero
      simp [parseFlags, withFlags, hminus.symm, hplus.symm, hspace.symm, hspecial.symm,
        hzero.symm]
  | cons f l ih =>
    cases f <;> simp [Flag.char, parseFlags, ih, withFlags]

theorem isDigit_digit (c : Fin 10) : isDigit (Char.ofNat (48 + c)) = true := by
  revert c
  decide

theorem toNat_digit (c : Fin 10) : (Char.ofNat (48 + c)).toNat - 48 = c := by
  revert c
  decide

theorem int32_step (v : Int) (c : Nat) : int32 (int32 v * 10 + c) = int32 (v * 10 + c) := by
  simp only [int32, Int.bmod_def]
  split <;> omega

theorem skipAtoi_text (l : List (Fin 10)) (v : Nat) {fmt : List Char} (hfmt : NoDigit fmt) :
    skipAtoi (int32 v) (digitText l ++ fmt) =
      (int32 (l.foldl (fun v (d : Fin 10) => v * 10 + d) v : Nat), fmt) := by
  induction l generalizing v with
  | nil =>
    cases fmt with
    | nil => rfl
    | cons c fmt =>
      have hc := hfmt c fmt rfl
      simp [digitText, skipAtoi, hc]
  | cons c l ih =>
    have hih := ih (v * 10 + c)
    push_cast at hih
    rw [digitText, List.map_cons, List.cons_append, skipAtoi, if_pos (isDigit_digit c),
      toNat_digit, int32_step, ← digitText]
    exact hih

theorem skipAtoi_numeral (l : List (Fin 10)) {fmt : List Char} (hfmt : NoDigit fmt) :
    skipAtoi 0 (digitText l ++ fmt) = (int32 (numeral l), fmt) :=
  skipAtoi_text l 0 hfmt

/-! ## Reading the parts -/

section reading

variable (d : Directive) (rest : List Char)

/-- What follows the width. -/
def afterWidth : List Char := d.precisionText ++ d.conversion.char :: rest

theorem noDigit_conversion (c : Conversion) : NoDigit (c.char :: rest) := by
  intro _ _ h
  cases h
  cases c <;> decide

theorem noDigit_afterWidth : NoDigit (afterWidth d rest) := by
  unfold afterWidth Directive.precisionText
  cases d.precision with
  | none => exact noDigit_conversion rest d.conversion
  | some a =>
    intro _ _ h
    cases h
    decide

theorem noFlag_afterWidth : NoFlag (afterWidth d rest) := by
  unfold afterWidth Directive.precisionText
  cases d.precision with
  | none =>
    intro _ _ h f
    cases h
    cases d.conversion <;> cases f <;> decide
  | some a =>
    intro _ _ h f
    cases h
    cases f <;> decide

theorem noFlag_widthText : NoFlag (d.widthText ++ afterWidth d rest) := by
  unfold Directive.widthText
  cases hwidth : d.width with
  | none => exact noFlag_afterWidth d rest
  | some a =>
    cases a with
    | number l =>
      obtain ⟨c, l, rfl, hc⟩ := d.width_starts l hwidth
      have hdigit (f : Flag) : ∀ c : Fin 10, c ≠ 0 → f.char ≠ Char.ofNat (48 + c) := by
        cases f <;> decide
      intro _ _ h f
      cases h
      exact hdigit f c hc
    | star n =>
      intro _ _ h f
      cases h
      cases f <;> decide

theorem parseWidth_text (flags : Flags) (precision : Int) (args : List Arg) :
    parseWidth ⟨flags, -1, precision, none, d.widthText ++ afterWidth d rest,
        (d.width.map Amount.args).getD [] ++ args⟩ =
      some ⟨{ flags with left := flags.left || match d.width with
          | some (.star n) => decide (n.toInt < 0)
          | _ => false },
        d.fieldWidth, precision, none, afterWidth d rest, args⟩ := by
  unfold Directive.widthText Directive.fieldWidth
  cases hwidth : d.width with
  | none =>
    obtain ⟨c, fmt, hfmt, hdigit, hstar⟩ : ∃ c fmt, afterWidth d rest = c :: fmt ∧
        isDigit c = false ∧ c ≠ '*' := by
      unfold afterWidth Directive.precisionText
      cases d.precision with
      | none => exact ⟨_, _, rfl, noDigit_conversion rest d.conversion _ _ rfl, by
          cases d.conversion <;> decide⟩
      | some a => exact ⟨_, _, rfl, by decide, by decide⟩
    simp [parseWidth, hfmt, hdigit, hstar]
  | some a =>
    cases a with
    | number l =>
      obtain ⟨c, l, rfl, -⟩ := d.width_starts l hwidth
      have hskip := skipAtoi_numeral (c :: l) (noDigit_afterWidth d rest)
      simp only [digitText, List.map_cons, List.cons_append] at hskip
      simp [parseWidth, Amount.text, Amount.args, digitText, isDigit_digit, hskip]
    | star n =>
      by_cases hn : n.toInt < 0 <;>
        simp [parseWidth, Amount.text, Amount.args, intArg, isDigit, hn]

theorem parsePrecision_text (flags : Flags) (fieldWidth : Int) (args : List Arg) :
    parsePrecision ⟨flags, fieldWidth, -1, none, afterWidth d rest,
        (d.precision.map Amount.args).getD [] ++ args⟩ =
      some ⟨flags, fieldWidth, d.precisionBak, none, d.conversion.char :: rest, args⟩ := by
  have hconversion : d.conversion.char ≠ '.' ∧ d.conversion.char ≠ '*' := by
    cases d.conversion <;> decide
  have hdigit := noDigit_conversion rest d.conversion _ _ rfl
  unfold afterWidth Directive.precisionText Directive.precisionBak
  cases d.precision with
  | none => simp [parsePrecision, hconversion.1]
  | some a =>
    cases a with
    | number l =>
      cases l with
      | nil =>
        simp [parsePrecision, parseNumber, Amount.text, Amount.args, digitText, hdigit,
          hconversion.2]
      | cons c l =>
        have hskip := skipAtoi_numeral (c :: l) (noDigit_conversion rest d.conversion)
        simp only [digitText, List.map_cons, List.cons_append] at hskip
        simp only [parsePrecision, parseNumber, Amount.text, Amount.args, digitText, List.map_cons,
          Option.map_some, Option.getD_some, List.cons_append, List.nil_append, if_true,
          isDigit_digit, hskip]
        by_cases hn : int32 (numeral (c :: l)) < 0
        · rw [if_pos hn, max_eq_right (by omega)]
        · rw [if_neg hn, max_eq_left (by omega)]
    | star n =>
      simp only [parsePrecision, parseNumber, Amount.text, Amount.args, isDigit, intArg,
        Option.map_some, Option.getD_some, List.cons_append, List.nil_append, if_true]
      by_cases hn : n.toInt < 0
      · simp [hn, max_eq_right (le_of_lt hn)]
      · simp [hn, max_eq_left (by omega : 0 ≤ n.toInt)]

theorem withFlags_bits : { withFlags noFlags d.flags with
    left := (withFlags noFlags d.flags).left || match d.width with
      | some (.star n) => decide (n.toInt < 0)
      | _ => false } = d.bits := by
  simp [withFlags, noFlags, Directive.bits, Directive.leftFlag]

/-- The parts that are read from the text of a directive are its parts. -/
theorem parseDirective_text (args : List Arg) :
    parseDirective (d.text ++ rest) (d.args ++ args) =
      some ⟨d.bits, d.fieldWidth, d.precisionBak, none, d.conversion.char :: rest, args⟩ := by
  have htext : d.text ++ rest = d.flags.map Flag.char ++ (d.widthText ++ afterWidth d rest) := by
    simp [Directive.text, afterWidth]
  have hqualifier : ¬ (d.conversion.char = 'h' ∨ d.conversion.char = 'l') := by
    cases d.conversion <;> decide
  rw [parseDirective, htext, parseFlags_text _ _ (noFlag_widthText d rest), Directive.args,
    List.append_assoc, parseWidth_text, withFlags_bits, Option.bind_some, parsePrecision_text,
    Option.map_some, parseQualifier]
  simp only [if_neg hqualifier]

end reading

/-! ## What a directive appends -/

def Conversion.base : Conversion → Nat
  | x | X => 16
  | o => 8
  | _ => 10

def Conversion.signed : Conversion → Bool
  | d | i => true
  | _ => false

def Conversion.large : Conversion → Bool
  | X => true
  | _ => false

namespace Directive

variable (d : Directive)

/-- The flags that `print_number` gets. -/
def numberFlags : Flags :=
  { d.bits with sign := d.conversion.signed, large := d.conversion.large }

/-- The characters that `rt_vsnprintf` appends for an argument. -/
def chars : Arg → Option (List Char)
  | .int n =>
    if d.conversion = .s then none
    else some (numberChars n d.conversion.base d.fieldWidth d.precisionBak d.numberFlags)
  | .str s =>
    if d.conversion = .s then some (printString pushBack [] s d.fieldWidth d.precisionBak d.bits)
    else none

/-- Wherever the directive stands in a format, `l` is what it appends. -/
def Appends (arg : Arg) (l : List Char) : Prop :=
  ∀ (before rest : List Char) (args : List Arg),
    formatLoop pushBack before ('%' :: (d.text ++ rest)) (d.args ++ arg :: args) =
      formatLoop pushBack (before ++ l) rest args

end Directive

theorem printString_pushBack (before : List Char) (str : Option (List Char)) (w p : Int)
    (flags : Flags) :
    printString pushBack before str w p flags =
      before ++ printString pushBack [] str w p flags := by
  have hbefore : Follows pushBack pushBack fun l x => x = before ++ l := by
    intro l x c hx
    rw [hx, pushBack, pushBack, List.append_assoc]
  exact printString_follows hbefore str w p flags (List.append_nil before).symm

theorem directive_text (d : Directive) (arg : Arg) (before rest : List Char) (args : List Arg) :
    directive pushBack before (d.text ++ rest) (d.args ++ arg :: args) =
      (d.chars arg).map fun l => (before ++ l, rest, args) := by
  rw [directive, parseDirective_text, Option.bind_some]
  unfold Directive.chars Directive.numberFlags
  cases hc : d.conversion <;> cases arg <;>
    simp [convert, Conversion.char, Conversion.base, Conversion.signed, Conversion.large, printInt,
      intArg, strArg, numberArg, printNumber_pushBack, printString_pushBack before, Directive.bits]

theorem appends_iff (d : Directive) (arg : Arg) (l : List Char) :
    d.Appends arg l ↔ d.chars arg = some l := by
  constructor
  · intro h
    have hsingle := h [] [] []
    rw [formatLoop_cons, if_pos rfl, directive_text] at hsingle
    cases hchars : d.chars arg with
    | none => simp [hchars] at hsingle
    | some k => simpa [hchars] using hsingle
  · intro h before rest args
    rw [formatLoop_cons, if_pos rfl, directive_text, h]
    rfl

end RtThread.Vsnprintf
