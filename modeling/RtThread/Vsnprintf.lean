import RtThread.RtDef
import Mathlib.Data.Nat.Digits.Defs

/-!
# Formatted output

`print_number` and `rt_vsnprintf` of `kservice.c`, with `RT_PRINTF_PRECISION` and
`RT_PRINTF_SPECIAL` and without `RT_PRINTF_LONGLONG`, for a `long` of 32 bits. The place
that is written to is a parameter: `put` is the store of one character at the cursor,
which every loop of the source makes in the same three lines.

A format is the list of its characters before the null character, and so is a string argument.
Signed differences wrap. There is no result where an argument is missing or of another kind
than its conversion asks for.
-/
namespace RtThread.Vsnprintf

/-- The bits of `flags`. -/
structure Flags where
  zeropad : Bool
  sign : Bool
  plus : Bool
  space : Bool
  left : Bool
  special : Bool
  large : Bool
  deriving DecidableEq

def noFlags : Flags := ⟨false, false, false, false, false, false, false⟩

/-- An argument: a word, or a string that may be the null pointer. -/
inductive Arg where
  | int (n : BitVec 32)
  | str (s : Option (List Char))
  deriving DecidableEq

section sink

variable {σ : Type} (put : σ → Char → σ)

def putMany (c : Char) : Nat → σ → σ
  | 0, o => o
  | n + 1, o => putMany c n (put o c)

def putAll (l : List Char) (o : σ) : σ := l.foldl put o

/-- `while (size-- > 0)` around a store. -/
def countDown (c : Char) (o : σ) (size : Int) : σ × Int :=
  (putMany put c size.toNat o, int32 (min size 0 - 1))

/-- `while (--field_width > 0)` around a store. -/
def countDownFirst (c : Char) (o : σ) (fieldWidth : Int) : σ × Int :=
  let fieldWidth := int32 (fieldWidth - 1)
  (putMany put c fieldWidth.toNat o, min fieldWidth 0)

/-- `while (len < field_width--)` around a store. -/
def countDownTo (len : Int) (c : Char) (o : σ) (fieldWidth : Int) : σ × Int :=
  (putMany put c (fieldWidth - len).toNat o, int32 (min fieldWidth len - 1))

/-! ## Numbers -/

/-- The divisor of `divide`. -/
def divisor (base : Nat) : Nat := if base = 10 then 10 else 16

/-- `small_digits` and `large_digits`. -/
def digitChar (large : Bool) (d : Nat) : Char :=
  (if large then "0123456789ABCDEF" else "0123456789abcdef").toList.getD d '0'

/-- `tmp`, the digits from the last one on. -/
def numberDigits (large : Bool) (base num : Nat) : List Char :=
  if num = 0 then ['0'] else (Nat.digits (divisor base) num).map (digitChar large)

/-- `sign`, and the number without it. -/
def numberSign (num : BitVec 32) (type : Flags) : Option Char × BitVec 32 :=
  if type.sign then
    if num.toInt < 0 then (some '-', -num)
    else if type.plus then (some '+', num)
    else if type.space then (some ' ', num)
    else (none, num)
  else (none, num)

/-- `size` before the first loop, for a precision that is no smaller than the digits. -/
def numberSize (base : Nat) (special : Bool) (s precision : Int) : Int :=
  let size := if special then
      if base = 16 then int32 (s - 2) else if base = 8 then int32 (s - 1) else s
    else s
  int32 (size - precision)

/-- The spaces before the sign. -/
def padFront (zeropad left : Bool) (sign : Option Char) (x : σ × Int) : σ × Int :=
  if !(zeropad || left) then
    countDown put ' ' x.1 (if sign.isSome && decide (0 < x.2) then x.2 - 1 else x.2)
  else x

def putSign (sign : Option Char) (x : σ × Int) : σ × Int :=
  match sign with
  | some sign => (put x.1 sign, int32 (x.2 - 1))
  | none => x

/-- What `SPECIAL` puts before the number. -/
def putSpecial (base : Nat) (type : Flags) (o : σ) : σ :=
  if type.special then
    if base = 8 then put o '0'
    else if base = 16 then put (put o '0') (if type.large then 'X' else 'x')
    else o
  else o

/-- The padding between the sign and the number. -/
def padInner (left : Bool) (c : Char) (x : σ × Int) : σ × Int :=
  if !left then countDown put c x.1 x.2 else x

/-- The zeros that fill the precision, and the digits. -/
def putDigits (precisionBak precision : Int) (tmp : List Char) (o : σ) : σ :=
  let o := putMany put '0' (precision - tmp.length).toNat o
  if precisionBak ≠ 0 then putAll put tmp.reverse o else o

/-- `print_number`. -/
def printNumber (o : σ) (num : BitVec 32) (base : Nat) (s precision : Int) (type : Flags) : σ :=
  let zeropad := type.zeropad && !type.left
  let c := if zeropad then '0' else ' '
  let (sign, num) := numberSign num type
  let tmp := numberDigits type.large base num.toNat
  let precisionBak := precision
  let precision := if precision < tmp.length then (tmp.length : Int) else precision
  let size := numberSize base type.special s precision
  let (o, size) := putSign put sign (padFront put zeropad type.left sign (o, size))
  let o := putSpecial put base type o
  let (o, size) := padInner put type.left c (o, size)
  let o := putDigits put precisionBak precision tmp o
  (countDown put ' ' o size).1

/-! ## Strings and characters -/

/-- The loop over the string for its length. -/
def lenLoop (fieldWidth : Int) : Int → List Char → Int
  | len, [] => len
  | len, _ :: s => if len = fieldWidth then len else lenLoop fieldWidth (len + 1) s

/-- The case `'s'`. -/
def printString (o : σ) (s : Option (List Char)) (fieldWidth precision : Int) (flags : Flags) : σ :=
  let s := s.getD "(NULL)".toList
  let len := lenLoop fieldWidth 0 s
  let len := if 0 < precision ∧ precision < len then precision else len
  let (o, fieldWidth) :=
    if !flags.left then countDownTo put len ' ' o fieldWidth else (o, fieldWidth)
  let o := putAll put (s.take len.toNat) o
  (countDownTo put len ' ' o fieldWidth).1

/-- The case `'c'`. -/
def printChar (o : σ) (c : BitVec 32) (fieldWidth : Int) (flags : Flags) : σ :=
  let (o, fieldWidth) :=
    if !flags.left then countDownFirst put ' ' o fieldWidth else (o, fieldWidth)
  let o := put o (Char.ofNat (c.toNat % 2 ^ 8))
  (countDownFirst put ' ' o fieldWidth).1

/-! ## Directives -/

/-- `_ISDIGIT`. -/
def isDigit (c : Char) : Bool := '0' ≤ c && c ≤ '9'

/-- `skip_atoi`, with what is left of the format. -/
def skipAtoi : Int → List Char → Int × List Char
  | i, [] => (i, [])
  | i, c :: fmt =>
    if isDigit c then skipAtoi (int32 (i * 10 + (c.toNat - 48 : Nat))) fmt else (i, c :: fmt)

/-- The loop over the flags. -/
def parseFlags : Flags → List Char → Flags × List Char
  | flags, [] => (flags, [])
  | flags, c :: fmt =>
    if c = '-' then parseFlags { flags with left := true } fmt
    else if c = '+' then parseFlags { flags with plus := true } fmt
    else if c = ' ' then parseFlags { flags with space := true } fmt
    else if c = '#' then parseFlags { flags with special := true } fmt
    else if c = '0' then parseFlags { flags with zeropad := true } fmt
    else (flags, c :: fmt)

/-- `va_arg(args, int)`. -/
def intArg : List Arg → Option (BitVec 32 × List Arg)
  | .int n :: args => some (n, args)
  | _ => none

/-- `va_arg(args, char *)`. -/
def strArg : List Arg → Option (Option (List Char) × List Arg)
  | .str s :: args => some (s, args)
  | _ => none

/-- How far a directive has been read. -/
structure Parse where
  flags : Flags
  fieldWidth : Int
  precision : Int
  qualifier : Option Char
  fmt : List Char
  args : List Arg
  deriving DecidableEq

/-- The field width. -/
def parseWidth (p : Parse) : Option Parse :=
  match p.fmt with
  | [] => some p
  | c :: fmt =>
    if isDigit c then
      let r := skipAtoi 0 (c :: fmt)
      some { p with fieldWidth := r.1, fmt := r.2 }
    else if c = '*' then
      (intArg p.args).map fun r =>
        if r.1.toInt < 0 then
          { p with
            fieldWidth := int32 (-r.1.toInt)
            flags := { p.flags with left := true }
            fmt := fmt
            args := r.2 }
        else { p with fieldWidth := r.1.toInt, fmt := fmt, args := r.2 }
    else some p

/-- The number behind the point. -/
def parseNumber (p : Parse) : Option Parse :=
  match p.fmt with
  | [] => some p
  | c :: fmt =>
    if isDigit c then
      let r := skipAtoi 0 (c :: fmt)
      some { p with precision := r.1, fmt := r.2 }
    else if c = '*' then
      (intArg p.args).map fun r => { p with precision := r.1.toInt, fmt := fmt, args := r.2 }
    else some p

/-- The precision. -/
def parsePrecision (p : Parse) : Option Parse :=
  match p.fmt with
  | [] => some p
  | c :: fmt =>
    if c = '.' then
      (parseNumber { p with fmt := fmt }).map fun p =>
        if p.precision < 0 then { p with precision := 0 } else p
    else some p

def parseQualifier (p : Parse) : Parse :=
  match p.fmt with
  | [] => p
  | c :: fmt => if c = 'h' ∨ c = 'l' then { p with qualifier := some c, fmt := fmt } else p

/-- What stands between the percent sign and the conversion. -/
def parseDirective (fmt : List Char) (args : List Arg) : Option Parse :=
  let r := parseFlags noFlags fmt
  ((parseWidth ⟨r.1, -1, -1, none, r.2, args⟩).bind parsePrecision).map parseQualifier

/-- The number that is printed for an argument. -/
def numberArg (qualifier : Option Char) (sign : Bool) (n : BitVec 32) : BitVec 32 :=
  if qualifier = some 'h' then
    if sign then (n.truncate 16).signExtend 32 else (n.truncate 16).zeroExtend 32
  else n

/-- The integer conversions behind the switch. -/
def printInt (o : σ) (p : Parse) (base : Nat) (flags : Flags) : Option (σ × List Arg) :=
  (intArg p.args).map fun r =>
    (printNumber put o (numberArg p.qualifier flags.sign r.1) base p.fieldWidth p.precision flags,
      r.2)

/-- The switch over the conversion `c`. -/
def convert (o : σ) (p : Parse) (c : Char) : Option (σ × List Arg) :=
  if c = 'c' then
    (intArg p.args).map fun r => (printChar put o r.1 p.fieldWidth p.flags, r.2)
  else if c = 's' then
    (strArg p.args).map fun r => (printString put o r.1 p.fieldWidth p.precision p.flags, r.2)
  else if c = 'p' then
    let p' := if p.fieldWidth = -1 then
        { p with fieldWidth := 8, flags := { p.flags with zeropad := true } }
      else p
    (intArg p.args).map fun r =>
      (printNumber put o r.1 16 p'.fieldWidth p'.precision p'.flags, r.2)
  else if c = '%' then some (put o '%', p.args)
  else if c = 'o' then printInt put o p 8 p.flags
  else if c = 'X' then printInt put o p 16 { p.flags with large := true }
  else if c = 'x' then printInt put o p 16 p.flags
  else if c = 'd' ∨ c = 'i' then printInt put o p 10 { p.flags with sign := true }
  else if c = 'u' then printInt put o p 10 p.flags
  else some (put (put o '%') c, p.args)

/-- A directive behind its percent sign, with what is left of the format and of the arguments. -/
def directive (o : σ) (fmt : List Char) (args : List Arg) : Option (σ × List Char × List Arg) :=
  (parseDirective fmt args).bind fun p =>
    match p.fmt with
    | [] => some (put o '%', [], p.args)
    | c :: fmt => (convert put o p c).map fun r => (r.1, fmt, r.2)

/-! ## The loop over the format -/

theorem skipAtoi_length (i : Int) (fmt : List Char) :
    (skipAtoi i fmt).2.length ≤ fmt.length := by
  induction fmt generalizing i with
  | nil => simp [skipAtoi]
  | cons c fmt ih =>
    rw [skipAtoi]
    split
    · exact (ih _).trans (by simp)
    · simp

theorem parseFlags_length (flags : Flags) (fmt : List Char) :
    (parseFlags flags fmt).2.length ≤ fmt.length := by
  induction fmt generalizing flags with
  | nil => simp [parseFlags]
  | cons c fmt ih =>
    have hc (flags) : (parseFlags flags fmt).2.length ≤ (c :: fmt).length :=
      (ih flags).trans (by simp)
    rw [parseFlags]
    repeat' split
    all_goals first | exact hc _ | exact le_rfl

variable {p q : Parse} {fmt : List Char} {args : List Arg}

theorem parseWidth_length (h : parseWidth p = some q) : q.fmt.length ≤ p.fmt.length := by
  unfold parseWidth at h
  split at h
  · cases h
    simp
  · next c fmt hfmt =>
    have hskip := skipAtoi_length 0 (c :: fmt)
    split at h
    · cases h
      simpa [hfmt] using hskip
    · split at h
      · obtain ⟨r, -, rfl⟩ := Option.map_eq_some_iff.1 h
        rw [hfmt]
        split <;> simp
      · cases h
        simp

theorem parseNumber_length (h : parseNumber p = some q) : q.fmt.length ≤ p.fmt.length := by
  unfold parseNumber at h
  split at h
  · cases h
    simp
  · next c fmt hfmt =>
    have hskip := skipAtoi_length 0 (c :: fmt)
    split at h
    · cases h
      simpa [hfmt] using hskip
    · split at h
      · obtain ⟨r, -, rfl⟩ := Option.map_eq_some_iff.1 h
        simp [hfmt]
      · cases h
        simp

theorem parsePrecision_length (h : parsePrecision p = some q) : q.fmt.length ≤ p.fmt.length := by
  unfold parsePrecision at h
  split at h
  · cases h
    simp
  · next c fmt hfmt =>
    split at h
    · obtain ⟨r, hr, rfl⟩ := Option.map_eq_some_iff.1 h
      have hlen : r.fmt.length ≤ fmt.length := parseNumber_length hr
      rw [hfmt, List.length_cons]
      split <;> exact hlen.trans (by omega)
    · cases h
      simp

theorem parseQualifier_length (p : Parse) : (parseQualifier p).fmt.length ≤ p.fmt.length := by
  unfold parseQualifier
  split
  · simp
  · next c fmt hfmt =>
    split <;> simp [hfmt]

theorem parseDirective_length (h : parseDirective fmt args = some p) :
    p.fmt.length ≤ fmt.length := by
  obtain ⟨r, hr, rfl⟩ := Option.map_eq_some_iff.1 h
  obtain ⟨q, hq, hr⟩ := Option.bind_eq_some_iff.1 hr
  calc (parseQualifier r).fmt.length
      ≤ r.fmt.length := parseQualifier_length r
    _ ≤ q.fmt.length := parsePrecision_length hr
    _ ≤ (parseFlags noFlags fmt).2.length := parseWidth_length hq
    _ ≤ fmt.length := parseFlags_length noFlags fmt

theorem directive_length {o : σ} {r : σ × List Char × List Arg}
    (h : directive put o fmt args = some r) : r.2.1.length ≤ fmt.length := by
  obtain ⟨p, hp, h⟩ := Option.bind_eq_some_iff.1 h
  have hlen := parseDirective_length hp
  split at h
  · cases h
    simp
  · next c rest hrest =>
    obtain ⟨q, -, rfl⟩ := Option.map_eq_some_iff.1 h
    rw [hrest, List.length_cons] at hlen
    show rest.length ≤ fmt.length
    omega

/-- The loop over the format, from the place `o` on. -/
def formatLoop (o : σ) (fmt : List Char) (args : List Arg) : Option σ :=
  match fmt with
  | [] => some o
  | c :: fmt =>
    if c = '%' then
      match _ : directive put o fmt args with
      | none => none
      | some (o, rest, args) => formatLoop o rest args
    else formatLoop (put o c) fmt args
termination_by fmt.length
decreasing_by
  · have hlen : rest.length ≤ fmt.length := directive_length put ‹_›
    simp only [List.length_cons]
    omega
  · simp

@[simp] theorem formatLoop_nil (o : σ) (args : List Arg) : formatLoop put o [] args = some o := by
  rw [formatLoop]

theorem formatLoop_cons (o : σ) (c : Char) (fmt : List Char) (args : List Arg) :
    formatLoop put o (c :: fmt) args =
      if c = '%' then
        (directive put o fmt args).bind fun r => formatLoop put r.1 r.2.1 r.2.2
      else formatLoop put (put o c) fmt args := by
  rw [formatLoop]
  split
  · split
    · next h => simp [h]
    · next h => simp [h]
  · rfl

end sink

/-! ## Two places that are written to alike -/

section follow

variable {σ τ β : Type} {put : σ → Char → σ} {put' : τ → Char → τ} {R : σ → τ → Prop}

/-- Places that stay related while the same characters are put to both. -/
def Follows (put : σ → Char → σ) (put' : τ → Char → τ) (R : σ → τ → Prop) : Prop :=
  ∀ o o' c, R o o' → R (put o c) (put' o' c)

/-- A related place, and the same of everything else. -/
def Beside (R : σ → τ → Prop) (x : σ × β) (y : τ × β) : Prop := R x.1 y.1 ∧ x.2 = y.2

variable (hR : Follows put put' R)
include hR

theorem putMany_follows (c : Char) (n : Nat) {o : σ} {o' : τ} (h : R o o') :
    R (putMany put c n o) (putMany put' c n o') := by
  induction n generalizing o o' with
  | zero => exact h
  | succ n ih => exact ih (hR o o' c h)

theorem putAll_follows (l : List Char) {o : σ} {o' : τ} (h : R o o') :
    R (putAll put l o) (putAll put' l o') := by
  induction l generalizing o o' with
  | nil => exact h
  | cons c l ih => exact ih (hR o o' c h)

theorem countDown_follows (c : Char) {o : σ} {o' : τ} {size size' : Int} (h : R o o')
    (hsize : size = size') : Beside R (countDown put c o size) (countDown put' c o' size') := by
  subst hsize
  exact ⟨putMany_follows hR c _ h, rfl⟩

variable {x : σ × Int} {y : τ × Int}

theorem padFront_follows (zeropad left : Bool) (sign : Option Char) (h : Beside R x y) :
    Beside R (padFront put zeropad left sign x) (padFront put' zeropad left sign y) := by
  rw [padFront, padFront, ← h.2]
  split
  · exact countDown_follows hR ' ' h.1 rfl
  · exact h

theorem putSign_follows (sign : Option Char) (h : Beside R x y) :
    Beside R (putSign put sign x) (putSign put' sign y) := by
  cases sign with
  | none => exact h
  | some sign => exact ⟨hR _ _ sign h.1, by rw [putSign, putSign, h.2]⟩

theorem putSpecial_follows (base : Nat) (type : Flags) {o : σ} {o' : τ} (h : R o o') :
    R (putSpecial put base type o) (putSpecial put' base type o') := by
  unfold putSpecial
  split
  · split
    · exact hR _ _ _ h
    · split
      · exact hR _ _ _ (hR _ _ _ h)
      · exact h
  · exact h

theorem padInner_follows (left : Bool) (c : Char) (h : Beside R x y) :
    Beside R (padInner put left c x) (padInner put' left c y) := by
  rw [padInner, padInner, ← h.2]
  split
  · exact countDown_follows hR c h.1 rfl
  · exact h

theorem putDigits_follows (precisionBak precision : Int) (tmp : List Char) {o : σ} {o' : τ}
    (h : R o o') :
    R (putDigits put precisionBak precision tmp o) (putDigits put' precisionBak precision tmp o') := by
  have hzeros := putMany_follows hR '0' (precision - tmp.length).toNat h
  unfold putDigits
  split
  · exact putAll_follows hR _ hzeros
  · exact hzeros

theorem printNumber_follows (num : BitVec 32) (base : Nat) (s precision : Int) (type : Flags)
    {o : σ} {o' : τ} (h : R o o') :
    R (printNumber put o num base s precision type)
      (printNumber put' o' num base s precision type) := by
  have hfront (size : Int) := padFront_follows hR (type.zeropad && !type.left) type.left
    (numberSign num type).1 (x := (o, size)) (y := (o', size)) ⟨h, rfl⟩
  have hsign (size : Int) := putSign_follows hR (numberSign num type).1 (hfront size)
  have hspecial (size : Int) := putSpecial_follows hR base type (hsign size).1
  have hinner (size : Int) := padInner_follows hR type.left
    (if type.zeropad && !type.left then '0' else ' ')
    (x := (putSpecial put base type _, _)) (y := (putSpecial put' base type _, _))
    ⟨hspecial size, (hsign size).2⟩
  have hdigits (size p : Int) := putDigits_follows hR precision p
    (numberDigits type.large base (numberSign num type).2.toNat) (hinner size).1
  exact (countDown_follows hR ' ' (hdigits _ _) (hinner _).2).1

theorem countDownTo_follows (len : Int) (c : Char) (h : Beside R x y) :
    Beside R (countDownTo put len c x.1 x.2) (countDownTo put' len c y.1 y.2) := by
  rw [countDownTo, countDownTo, ← h.2]
  exact ⟨putMany_follows hR c _ h.1, rfl⟩

theorem countDownFirst_follows (c : Char) (h : Beside R x y) :
    Beside R (countDownFirst put c x.1 x.2) (countDownFirst put' c y.1 y.2) := by
  rw [countDownFirst, countDownFirst, ← h.2]
  exact ⟨putMany_follows hR c _ h.1, rfl⟩

theorem printString_follows (str : Option (List Char)) (fieldWidth precision : Int) (flags : Flags)
    {o : σ} {o' : τ} (h : R o o') :
    R (printString put o str fieldWidth precision flags)
      (printString put' o' str fieldWidth precision flags) := by
  have hfront (len : Int) : Beside R
      (if !flags.left then countDownTo put len ' ' o fieldWidth else (o, fieldWidth))
      (if !flags.left then countDownTo put' len ' ' o' fieldWidth else (o', fieldWidth)) := by
    split
    · exact countDownTo_follows hR len ' ' (x := (o, fieldWidth)) (y := (o', fieldWidth)) ⟨h, rfl⟩
    · exact ⟨h, rfl⟩
  have hall (len : Int) (l : List Char) := putAll_follows hR l (hfront len).1
  exact (countDownTo_follows hR _ ' ' (x := (putAll put _ _, _)) (y := (putAll put' _ _, _))
    ⟨hall _ _, (hfront _).2⟩).1

theorem printChar_follows (c : BitVec 32) (fieldWidth : Int) (flags : Flags) {o : σ} {o' : τ}
    (h : R o o') :
    R (printChar put o c fieldWidth flags) (printChar put' o' c fieldWidth flags) := by
  have hfront : Beside R
      (if !flags.left then countDownFirst put ' ' o fieldWidth else (o, fieldWidth))
      (if !flags.left then countDownFirst put' ' ' o' fieldWidth else (o', fieldWidth)) := by
    split
    · exact countDownFirst_follows hR ' ' (x := (o, fieldWidth)) (y := (o', fieldWidth)) ⟨h, rfl⟩
    · exact ⟨h, rfl⟩
  exact (countDownFirst_follows hR ' ' (x := (put _ _, _)) (y := (put' _ _, _))
    ⟨hR _ _ _ hfront.1, hfront.2⟩).1

theorem printInt_follows (p : Parse) (base : Nat) (flags : Flags) {o : σ} {o' : τ} (h : R o o') :
    Option.Rel (Beside R) (printInt put o p base flags) (printInt put' o' p base flags) := by
  unfold printInt
  cases intArg p.args with
  | none => exact .none
  | some r => exact .some ⟨printNumber_follows hR _ _ _ _ _ h, rfl⟩

theorem convert_follows (p : Parse) (c : Char) {o : σ} {o' : τ} (h : R o o') :
    Option.Rel (Beside R) (convert put o p c) (convert put' o' p c) := by
  unfold convert
  split
  · cases intArg p.args with
    | none => exact .none
    | some r => exact .some ⟨printChar_follows hR _ _ _ h, rfl⟩
  split
  · cases strArg p.args with
    | none => exact .none
    | some r => exact .some ⟨printString_follows hR _ _ _ _ h, rfl⟩
  split
  · cases intArg p.args with
    | none => exact .none
    | some r => exact .some ⟨printNumber_follows hR _ _ _ _ _ h, rfl⟩
  split
  · exact .some ⟨hR _ _ _ h, rfl⟩
  repeat (split; exact printInt_follows hR p _ _ h)
  exact .some ⟨hR _ _ _ (hR _ _ _ h), rfl⟩

theorem directive_follows (fmt : List Char) (args : List Arg) {o : σ} {o' : τ} (h : R o o') :
    Option.Rel (Beside R) (directive put o fmt args) (directive put' o' fmt args) := by
  unfold directive
  cases parseDirective fmt args with
  | none => exact .none
  | some p =>
    rw [Option.bind_some, Option.bind_some]
    split
    · exact .some ⟨hR _ _ _ h, rfl⟩
    · next c rest _ =>
      have hc := convert_follows hR p c h
      revert hc
      cases convert put o p c <;> cases convert put' o' p c <;> intro hc <;> cases hc
      · exact .none
      · next hc => exact .some ⟨hc.1, congrArg (rest, ·) hc.2⟩

theorem formatLoop_follows (fmt : List Char) (args : List Arg) {o : σ} {o' : τ} (h : R o o') :
    Option.Rel R (formatLoop put o fmt args) (formatLoop put' o' fmt args) := by
  induction hn : fmt.length using Nat.strong_induction_on generalizing fmt args o o' with
  | h n ih =>
    cases fmt with
    | nil =>
      rw [formatLoop_nil, formatLoop_nil]
      exact .some h
    | cons c fmt =>
      rw [formatLoop_cons, formatLoop_cons]
      rw [List.length_cons] at hn
      split
      · have hd := directive_follows hR fmt args h
        have hlen (r) (hr : directive put o fmt args = some r) := directive_length put hr
        revert hd hlen
        cases directive put o fmt args <;> cases directive put' o' fmt args <;>
          intro hd hlen <;> cases hd
        · exact .none
        · next r r' hd =>
          have hlen := hlen r rfl
          simp only [Option.bind_some, ← hd.2]
          exact ih _ (by omega) _ _ hd.1 rfl
      · exact ih fmt.length (by omega) fmt args (hR _ _ c h) rfl

end follow

/-! ## The buffer -/

/-- The memory and the cursor `str`. -/
structure Cursor where
  mem : Nat → Char
  str : Nat

/-- `if (str < end) *str = c; ++ str;`. -/
def Cursor.store (stop : Nat) (o : Cursor) (c : Char) : Cursor :=
  ⟨if o.str < stop then Function.update o.mem o.str c else o.mem, (o.str + 1) % 2 ^ 32⟩

/-- The null character at the end. -/
def Cursor.terminate (stop size : Nat) (o : Cursor) : Nat → Char :=
  if 0 < size then
    if o.str < stop then Function.update o.mem o.str '\x00'
    else Function.update o.mem (stop - 1) '\x00'
  else o.mem

/-- `rt_vsnprintf`: the memory behind it, and what it returns. -/
def rtVsnprintf (mem : Nat → Char) (buf size : Nat) (fmt : List Char) (args : List Arg) :
    Option ((Nat → Char) × Int) :=
  let stop := (buf + size) % 2 ^ 32
  let (stop, size) := if stop < buf then (2 ^ 32 - 1, 2 ^ 32 - 1 - buf) else (stop, size)
  (formatLoop (Cursor.store stop) ⟨mem, buf⟩ fmt args).map fun o =>
    (o.terminate stop size, int32 ((o.str : Int) - buf))

/-- A place that is never full: what has been written to it. -/
def pushBack (l : List Char) (c : Char) : List Char := l ++ [c]

/-- The string that is produced with an unlimited buffer. -/
def printed (fmt : List Char) (args : List Arg) : Option (List Char) :=
  formatLoop pushBack [] fmt args

/-- Whatever is written to, it gets the characters of the string that is produced with an
unlimited buffer, in their order. -/
theorem formatLoop_eq {σ : Type} (put : σ → Char → σ) (o : σ) (fmt : List Char)
    (args : List Arg) :
    formatLoop put o fmt args = (printed fmt args).map fun l => putAll put l o := by
  have hput : Follows pushBack put fun l x => x = putAll put l o := by
    intro l x c hx
    rw [pushBack, putAll, List.foldl_append, hx]
    rfl
  have h := @formatLoop_follows _ _ _ _ _ hput fmt args [] o rfl
  unfold printed
  revert h
  cases formatLoop pushBack [] fmt args <;> cases formatLoop put o fmt args <;> intro h <;> cases h
  · rfl
  · next h => rw [h, Option.map_some]

end RtThread.Vsnprintf
