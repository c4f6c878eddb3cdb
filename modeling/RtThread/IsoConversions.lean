import RtThread.VsnprintfDirective

/-!
# Conversions as ISO C has them

The field that ISO C prescribes for an argument of a directive. Nothing is prescribed for a
flag that has no meaning with its conversion, for the null pointer as a string, for a precision
that is no `int`, and where the field has more characters than an `int` counts.
-/
namespace RtThread.Vsnprintf.Iso

/-- A field with `fill` characters of padding. -/
def field (zero left : Bool) (fill : Nat) (sign special digits : List Char) : List Char :=
  if left then sign ++ (special ++ (digits ++ List.replicate fill ' '))
  else if zero then sign ++ (special ++ (List.replicate fill '0' ++ digits))
  else List.replicate fill ' ' ++ (sign ++ (special ++ digits))

/-- At least `least` digits: none for the value 0 without a least number of them. -/
def digits (base : Nat) (large : Bool) (least value : Nat) : List Char :=
  let ds := ((Nat.digits base value).map (digitChar large)).reverse
  List.replicate (least - ds.length) '0' ++ ds

variable (d : Directive)

/-- The least number of characters in the field. -/
def width : Nat :=
  match d.width with
  | none => 0
  | some (.number l) => numeral l
  | some (.star n) => n.toInt.natAbs

/-- A negative precision is taken as if it were omitted. -/
def precision : Option Nat :=
  match d.precision with
  | none => none
  | some (.number l) => some (numeral l)
  | some (.star n) => if n.toInt < 0 then none else some n.toNat

/-- The result of a signed conversion begins with a sign, or with a space in its place, where
the flags ask for one. -/
def sign (value : Int) : List Char :=
  if value < 0 then ['-']
  else if .plus ∈ d.flags then ['+']
  else if .space ∈ d.flags then [' ']
  else []

/-- The sign, the prefix and the digits. -/
def number (n : BitVec 32) : List Char × List Char × List Char :=
  let least := (precision d).getD 1
  match d.conversion with
  | .d | .i => (sign d n.toInt, [], digits 10 false least n.toInt.natAbs)
  | .x => ([], if .special ∈ d.flags ∧ n.toNat ≠ 0 then ['0', 'x'] else [],
      digits 16 false least n.toNat)
  | .X => ([], if .special ∈ d.flags ∧ n.toNat ≠ 0 then ['0', 'X'] else [],
      digits 16 true least n.toNat)
  | .o =>
    let ds := digits 8 false least n.toNat
    ([], [], if .special ∈ d.flags ∧ ds.head? ≠ some '0' then '0' :: ds else ds)
  | _ => ([], [], digits 10 false least n.toNat)

/-- Zeros take the place of the spaces where no precision is given. -/
def integer (n : BitVec 32) : List Char :=
  let parts := number d n
  let length := parts.1.length + parts.2.1.length + parts.2.2.length
  field (decide (.zero ∈ d.flags ∧ precision d = none)) d.leftFlag (width d - length)
    parts.1 parts.2.1 parts.2.2

/-- The precision is the largest number of characters that is taken from the string. -/
def string (s : List Char) : List Char :=
  let taken := match precision d with
    | none => s
    | some p => s.take p
  field false d.leftFlag (width d - taken.length) [] [] taken

/-- The flags have a meaning with the conversion. -/
def Meaningful : Prop :=
  (.special ∈ d.flags → d.conversion = .x ∨ d.conversion = .X ∨ d.conversion = .o) ∧
    (.zero ∈ d.flags → d.conversion ≠ .s) ∧ ∀ p, precision d = some p → p < 2 ^ 31

/-- What ISO C prescribes to be `l`. -/
def Prescribes (arg : Arg) (l : List Char) : Prop :=
  Meaningful d ∧ l.length < 2 ^ 31 ∧
    match arg with
    | .int n => d.conversion ≠ .s ∧ l = integer d n
    | .str none => False
    | .str (some s) => d.conversion = .s ∧ l = string d s

end RtThread.Vsnprintf.Iso
