import RtThread.Vsnprintf

/-!
# The characters of a number

`print_number` as one list: the padding before the sign, behind it and behind the digits is
counted by one variable that all the loops share. While that variable does not run below the
least `int`, only one of the three paddings is there.
-/
namespace RtThread.Vsnprintf

@[simp] theorem putMany_pushBack (c : Char) (n : Nat) (l : List Char) :
    putMany pushBack c n l = l ++ List.replicate n c := by
  induction n generalizing l with
  | zero => simp [putMany]
  | succ n ih => simp [putMany, ih, pushBack, List.replicate_succ]

@[simp] theorem putAll_pushBack (l o : List Char) : putAll pushBack l o = o ++ l := by
  induction l generalizing o with
  | nil => simp [putAll]
  | cons c l ih =>
    have hstep := ih (pushBack o c)
    rw [putAll] at hstep ⊢
    rw [List.foldl_cons, hstep, pushBack, List.append_assoc, List.singleton_append]

/-! ## The paddings -/

/-- How many characters the three loops over `size` put, in their order. -/
def numberPads (zeropad left sign : Bool) (size : Int) : Nat × Nat × Nat :=
  let front := if sign && decide (0 < size) then size - 1 else size
  let size := if zeropad || left then size else int32 (min front 0 - 1)
  let inner := if sign then int32 (size - 1) else size
  let trail := if left then inner else int32 (min inner 0 - 1)
  (if zeropad || left then 0 else front.toNat, if left then 0 else inner.toNat, trail.toNat)

/-- What is put before the number in the presence of `SPECIAL`. -/
def specialChars (base : Nat) (type : Flags) : List Char :=
  if type.special then
    if base = 8 then ['0']
    else if base = 16 then ['0', if type.large then 'X' else 'x']
    else []
  else []

/-- A number with its paddings. -/
def numberText (pads : Nat × Nat × Nat) (sign special : List Char) (c : Char) (zeros : Nat)
    (digits : List Char) : List Char :=
  List.replicate pads.1 ' ' ++ (sign ++ (special ++ (List.replicate pads.2.1 c ++
    (List.replicate zeros '0' ++ (digits ++ List.replicate pads.2.2 ' ')))))

/-- What `print_number` puts. -/
def numberChars (num : BitVec 32) (base : Nat) (s precision : Int) (type : Flags) : List Char :=
  let zeropad := type.zeropad && !type.left
  let sign := (numberSign num type).1
  let tmp := numberDigits type.large base (numberSign num type).2.toNat
  let least := if precision < tmp.length then (tmp.length : Int) else precision
  numberText
    (numberPads zeropad type.left sign.isSome (numberSize base type.special s least))
    sign.toList (specialChars base type) (if zeropad then '0' else ' ')
    (least - tmp.length).toNat (if precision ≠ 0 then tmp.reverse else [])

theorem putSpecial_pushBack (base : Nat) (type : Flags) (o : List Char) :
    putSpecial pushBack base type o = o ++ specialChars base type := by
  unfold putSpecial specialChars
  repeat' split
  all_goals simp [pushBack]

theorem putDigits_pushBack (precisionBak precision : Int) (tmp o : List Char) :
    putDigits pushBack precisionBak precision tmp o =
      o ++ (List.replicate (precision - tmp.length).toNat '0' ++
        if precisionBak ≠ 0 then tmp.reverse else []) := by
  unfold putDigits
  split <;> simp

theorem printNumber_pushBack (o : List Char) (num : BitVec 32) (base : Nat) (s precision : Int)
    (type : Flags) :
    printNumber pushBack o num base s precision type =
      o ++ numberChars num base s precision type := by
  unfold printNumber numberChars
  generalize numberSign num type = signed
  obtain ⟨sign, num⟩ := signed
  generalize (type.zeropad && !type.left) = zeropad
  simp only [putSpecial_pushBack, putDigits_pushBack, padFront, padInner, countDown,
    putMany_pushBack]
  cases zeropad <;> cases hleft : type.left <;> cases sign <;>
    simp [putSign, numberPads, numberText, pushBack]

/-! ## The shared counter -/

/-- How far the loops count below zero after the padding. -/
def countedBelow (zeropad left : Bool) : Int := if left then 0 else if zeropad then 1 else 2

/-- The room that is left for the padding, where the sign takes its place. -/
def padding (sign : Bool) (size : Int) : Nat := (size - if sign then 1 else 0).toNat

/-- The counter stays an `int`: one of the loops puts the padding. -/
theorem pads_counted (zeropad left sign : Bool) {size : Int} (hmax : size < 2 ^ 31)
    (hmin : countedBelow zeropad left - 2 ^ 31 ≤ size - if sign then 1 else 0) :
    numberPads zeropad left sign size =
      if left then (0, 0, padding sign size)
      else if zeropad then (0, padding sign size, 0)
      else (padding sign size, 0, 0) := by
  unfold numberPads padding
  unfold countedBelow at hmin
  cases zeropad <;> cases left <;> cases sign <;>
    simp only [Bool.or_true, Bool.or_false, Bool.true_and, Bool.false_and, Bool.false_eq_true,
      if_true, if_false, decide_eq_true_eq, Prod.mk.injEq, true_and, Int.sub_zero] at hmin ⊢
  all_goals try split
  -- the counters are in range
  all_goals try simp (disch := omega) only [int32_eq, true_and]
  all_goals omega

/-- The counter runs below the least `int`: some loop puts almost all there is. -/
theorem pads_wrapped (zeropad left sign : Bool) {size : Int} (hmin : -2 ^ 31 ≤ size)
    (hwrap : size - (if sign then 1 else 0) < countedBelow zeropad left - 2 ^ 31) :
    2 ^ 31 - 2 ≤ (numberPads zeropad left sign size).1 +
      (numberPads zeropad left sign size).2.1 + (numberPads zeropad left sign size).2.2 := by
  unfold numberPads
  unfold countedBelow at hwrap
  cases zeropad <;> cases left <;> cases sign <;>
    simp [int32, Int.bmod_def] at hwrap ⊢ <;> (repeat' split) <;> omega

end RtThread.Vsnprintf
