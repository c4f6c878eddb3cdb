import Mathlib.Data.BitVec
import Mathlib.Logic.Function.Iterate

/-!
# Checksums by bits and by bytes

A checksum register is shifted by one place for each bit, and the polynomial is added to it when
a one falls out. Such a step is linear, so the steps for a whole byte are those for the byte that
falls out and a plain shift of what stays: a table with an entry for each byte does the same.
-/
namespace Crc

variable {w : Nat}

def Linear (f : BitVec w → BitVec w) : Prop := ∀ x y, f (x ^^^ y) = f x ^^^ f y

theorem Linear.iterate {f : BitVec w → BitVec w} (h : Linear f) (n : Nat) : Linear f^[n] := by
  intro x y
  induction n generalizing x y with
  | zero => rfl
  | succ n ih => rw [Function.iterate_succ_apply, h, ih]; rfl

/-- A linear shift, with the polynomial added where a linear bit is set. -/
theorem linear_addIf {out : BitVec w → Bool} {shift : BitVec w → BitVec w} (poly : BitVec w)
    (hout : ∀ x y, out (x ^^^ y) = (out x ^^ out y)) (hshift : Linear shift) :
    Linear fun x => if out x then shift x ^^^ poly else shift x := by
  intro x y
  have hcancel : ∀ a b : BitVec w, a ^^^ poly ^^^ (b ^^^ poly) = a ^^^ b := by
    intro a b
    rw [BitVec.xor_assoc, ← BitVec.xor_assoc poly, BitVec.xor_comm poly, BitVec.xor_assoc,
      BitVec.xor_self, BitVec.xor_zero]
  simp only [hout, hshift x y]
  cases out x <;> cases out y
  · rfl
  · simp [BitVec.xor_assoc]
  · simp only [Bool.xor_false, if_true, Bool.false_eq_true, if_false]
    rw [BitVec.xor_assoc, BitVec.xor_comm _ poly, ← BitVec.xor_assoc]
  · simp [hcancel]

/-! ## Shifts to the left -/

/-- The step for a bit that falls out at the top. -/
def leftBit (poly x : BitVec w) : BitVec w := if x.msb then x <<< 1 ^^^ poly else x <<< 1

theorem linear_leftBit (poly : BitVec w) : Linear (leftBit poly) :=
  linear_addIf poly (fun _ _ => BitVec.msb_xor) fun x y => BitVec.shiftLeft_xor_distrib x y 1

/-- Zeros that fall out leave a plain shift. -/
theorem leftBit_iterate_clear (poly : BitVec w) {x : BitVec w} {n : Nat}
    (h : ∀ i, w - n ≤ i → x.getLsbD i = false) : (leftBit poly)^[n] x = x <<< n := by
  induction n with
  | zero => rw [BitVec.shiftLeft_zero]; rfl
  | succ n ih =>
    have hclear : (x <<< n).msb = false := by
      rw [BitVec.msb_eq_getLsbD_last, BitVec.getLsbD_shiftLeft, h _ (by omega), Bool.and_false]
    rw [Function.iterate_succ_apply', ih fun i hi => h i (by omega), leftBit, hclear,
      if_neg Bool.false_ne_true, ← BitVec.shiftLeft_add]

/-- The steps for the `n` bits at the top of the register. -/
theorem leftBit_iterate (poly x : BitVec w) {n : Nat} (hn : n ≤ w) :
    (leftBit poly)^[n] x =
      x <<< n ^^^ (leftBit poly)^[n] (x >>> (w - n) <<< (w - n)) := by
  have hsplit : x = x <<< n >>> n ^^^ x >>> (w - n) <<< (w - n) := by
    apply BitVec.eq_of_getLsbD_eq
    intro i hi
    by_cases htop : w - n ≤ i
    · simp [hi, show ¬ n + i < w by omega, show ¬ i < w - n by omega,
        show w - n + (i - (w - n)) = i by omega]
    · simp [hi, show n + i < w by omega, show i < w - n by omega]
  have hlow : ∀ i, w - n ≤ i → (x <<< n >>> n).getLsbD i = false := by
    intro i hi
    simp [show ¬ n + i < w by omega]
  have hshift : x <<< n >>> n <<< n = x <<< n := by
    apply BitVec.eq_of_getLsbD_eq
    intro i hi
    by_cases hni : i < n
    · simp [hni]
    · simp [hni, hi, show n + (i - n) = i by omega]
  calc (leftBit poly)^[n] x
      = (leftBit poly)^[n] (x <<< n >>> n ^^^ x >>> (w - n) <<< (w - n)) := by rw [← hsplit]
    _ = (leftBit poly)^[n] (x <<< n >>> n) ^^^
          (leftBit poly)^[n] (x >>> (w - n) <<< (w - n)) := (linear_leftBit poly).iterate n _ _
    _ = _ := by rw [leftBit_iterate_clear poly hlow, hshift]

/-! ## Shifts to the right -/

/-- The step for a bit that falls out at the bottom. -/
def rightBit (poly x : BitVec w) : BitVec w :=
  if x.getLsbD 0 then x >>> 1 ^^^ poly else x >>> 1

theorem linear_rightBit (poly : BitVec w) : Linear (rightBit poly) :=
  linear_addIf poly (fun _ _ => BitVec.getLsbD_xor) fun x y => BitVec.ushiftRight_xor_distrib x y 1

theorem rightBit_iterate_clear (poly : BitVec w) {x : BitVec w} {n : Nat}
    (h : ∀ i, i < n → x.getLsbD i = false) : (rightBit poly)^[n] x = x >>> n := by
  induction n with
  | zero => rw [BitVec.ushiftRight_zero]; rfl
  | succ n ih =>
    have hclear : (x >>> n).getLsbD 0 = false := by
      exact h n (by omega)
    rw [Function.iterate_succ_apply', ih fun i hi => h i (by omega), rightBit, hclear,
      if_neg Bool.false_ne_true, ← BitVec.shiftRight_add]

/-- The steps for the `n` bits at the bottom of the register. -/
theorem rightBit_iterate (poly x : BitVec w) (n : Nat) :
    (rightBit poly)^[n] x = x >>> n ^^^ (rightBit poly)^[n] ((x.setWidth n).setWidth w) := by
  have hsplit : x = x >>> n <<< n ^^^ (x.setWidth n).setWidth w := by
    apply BitVec.eq_of_getLsbD_eq
    intro i hi
    simp only [BitVec.getLsbD_xor, BitVec.getLsbD_ushiftRight, BitVec.getLsbD_shiftLeft,
      BitVec.getLsbD_setWidth]
    by_cases hni : i < n
    · simp [hi, hni]
    · simp [hi, hni, show n + (i - n) = i by omega]
  have hhigh : ∀ i, i < n → (x >>> n <<< n).getLsbD i = false := by
    intro i hi
    simp [hi]
  have hshift : x >>> n <<< n >>> n = x >>> n := by
    apply BitVec.eq_of_getLsbD_eq
    intro i hi
    by_cases hin : n + i < w
    · simp [hin]
    · simp [BitVec.getLsbD_of_ge x (n + i) (by omega)]
  calc (rightBit poly)^[n] x
      = (rightBit poly)^[n] (x >>> n <<< n ^^^ (x.setWidth n).setWidth w) := by rw [← hsplit]
    _ = (rightBit poly)^[n] (x >>> n <<< n) ^^^
          (rightBit poly)^[n] ((x.setWidth n).setWidth w) := (linear_rightBit poly).iterate n _ _
    _ = _ := by rw [rightBit_iterate_clear poly hhigh, hshift]

/-! ## Bursts of errors -/

variable {β : Type*} {poly : BitVec w} {e : β → BitVec w} {n : Nat}

/-- Where the steps leave zeros at the top, a polynomial that reaches the top has not been added,
and a shift undoes the steps. -/
theorem rightBit_iterate_undo (hpoly : poly.msb = true) {x : BitVec w} {j : Nat} (hn : j + n ≤ w)
    (h : ∀ i, j ≤ i → ((rightBit poly)^[n] x).getLsbD i = false) :
    x = (rightBit poly)^[n] x <<< n := by
  induction n generalizing x with
  | zero => exact (BitVec.shiftLeft_zero _).symm
  | succ n ih =>
    rw [Function.iterate_succ_apply] at h ⊢
    have hshift := ih (by omega) h
    have hmsb : (rightBit poly x).msb = false := by
      rw [hshift, BitVec.msb_eq_getLsbD_last, BitVec.getLsbD_shiftLeft, h _ (by omega),
        Bool.and_false]
    have hclear : x.getLsbD 0 = false := by
      by_contra hset
      rw [Bool.not_eq_false] at hset
      rw [rightBit, if_pos hset, BitVec.msb_xor, hpoly, BitVec.msb_eq_getLsbD_last,
        BitVec.getLsbD_ushiftRight, BitVec.getLsbD_of_ge _ _ (by omega)] at hmsb
      cases hmsb
    have hone : x = rightBit poly x <<< 1 := by
      rw [rightBit, hclear, if_neg Bool.false_ne_true]
      apply BitVec.eq_of_getLsbD_eq
      intro i hi
      rcases i with _ | i
      · simp [hclear]
      · simp [hi, Nat.add_comm 1 i]
    rw [BitVec.shiftLeft_add, ← hshift]
    exact hone

/-- The steps for an item, whose bits are added to the lowest `n` of the register. -/
def rightItem (poly : BitVec w) (n : Nat) (e : β → BitVec w) (c : BitVec w) (b : β) : BitVec w :=
  (rightBit poly)^[n] (c ^^^ e b)

theorem rightItem_xor (c c' : BitVec w) (b b' : β) :
    rightItem poly n e c b ^^^ rightItem poly n e c' b' =
      (rightBit poly)^[n] (c ^^^ c' ^^^ (e b ^^^ e b')) := by
  rw [rightItem, rightItem, ← (linear_rightBit poly).iterate n]
  congr 1
  ac_rfl

/-- Items lead from different registers to different ones. -/
theorem foldl_rightItem_injective (hpoly : poly.msb = true) (hn : n ≤ w) (l : List β)
    {c c' : BitVec w} (h : l.foldl (rightItem poly n e) c = l.foldl (rightItem poly n e) c') :
    c = c' := by
  induction l generalizing c c' with
  | nil => exact h
  | cons b l ih =>
    have hzero : rightItem poly n e c b ^^^ rightItem poly n e c' b = _ := rightItem_xor c c' b b
    rw [ih h, BitVec.xor_self, BitVec.xor_self, BitVec.xor_zero] at hzero
    have hundo := rightBit_iterate_undo hpoly (x := c ^^^ c') (n := n) (j := 0) (by omega)
      fun i _ => by rw [← hzero, BitVec.getLsbD_zero]
    rw [← hzero, BitVec.zero_shiftLeft] at hundo
    exact BitVec.xor_eq_zero_iff.mp hundo

/-- As long as the items fit into the register, the registers that they lead to the same one from
differ in the places of the items only, and different items start from different ones. -/
theorem foldl_rightItem_burst (hpoly : poly.msb = true) (he : Function.Injective e)
    (hlow : ∀ b i, n ≤ i → (e b).getLsbD i = false) {l l' : List β} (hlen : l.length = l'.length)
    (hw : n * l.length ≤ w) {c c' : BitVec w}
    (h : l.foldl (rightItem poly n e) c = l'.foldl (rightItem poly n e) c') :
    (∀ i, n * l.length ≤ i → (c ^^^ c').getLsbD i = false) ∧ (c = c' → l = l') := by
  induction l generalizing l' c c' with
  | nil =>
    obtain rfl := List.eq_nil_of_length_eq_zero hlen.symm
    obtain rfl : c = c' := h
    simp
  | cons b l ih =>
    obtain ⟨b', l', rfl⟩ := List.exists_cons_of_length_eq_add_one hlen.symm
    rw [List.length_cons, Nat.mul_succ] at hw ⊢
    obtain ⟨hz, hrest⟩ := ih (Nat.succ.inj hlen) (by omega) h
    rw [rightItem_xor] at hz
    have hundo := rightBit_iterate_undo hpoly hw hz
    refine ⟨fun i hi => ?_, ?_⟩
    · have hbit := congrArg (BitVec.getLsbD · i) hundo
      simp only [BitVec.getLsbD_shiftLeft, hz (i - n) (by omega), Bool.and_false] at hbit
      simpa only [BitVec.getLsbD_xor, hlow b i (by omega), hlow b' i (by omega),
        Bool.xor_false] using hbit
    · rintro rfl
      have hsame : e b = e b' := by
        apply BitVec.eq_of_getLsbD_eq
        intro i hi
        by_cases hin : i < n
        · have hbit := congrArg (BitVec.getLsbD · i) hundo
          simpa [hin] using hbit
        · rw [hlow b i (by omega), hlow b' i (by omega)]
      obtain rfl := he hsame
      rw [hrest rfl]

end Crc
