import Mathlib.Logic.Function.Iterate

/-!
# The proleptic Gregorian calendar

A date has a successor, and the date a number of days after another one is reached by that many
successors. The days before a date are counted by the lengths of the years and months before it:
this number goes up by one with every day, so it tells dates apart.

Months count from zero, days from one.
-/
namespace Calendar

/-- Every fourth year, but of the centuries only every fourth. -/
def leap (y : Nat) : Bool := y % 4 = 0 ∧ (y % 100 = 0 → y % 400 = 0)

def yearLength (y : Nat) : Nat := if leap y then 366 else 365

def monthLength (y : Nat) : Nat → Nat
  | 1 => if leap y then 29 else 28
  | 3 | 5 | 8 | 10 => 30
  | _ => 31

structure Date where
  year : Nat
  month : Nat
  day : Nat
  deriving DecidableEq

structure Date.Valid (d : Date) : Prop where
  month : d.month < 12
  day : 0 < d.day
  length : d.day ≤ monthLength d.year d.month

/-- The date of the next day. -/
def Date.next (d : Date) : Date :=
  if d.day < monthLength d.year d.month then { d with day := d.day + 1 }
  else if d.month < 11 then ⟨d.year, d.month + 1, 1⟩
  else ⟨d.year + 1, 0, 1⟩

/-- The date a number of days later. -/
def Date.later (d : Date) (days : Nat) : Date := Date.next^[days] d

def daysBeforeYear : Nat → Nat
  | 0 => 0
  | y + 1 => daysBeforeYear y + yearLength y

def daysBeforeMonth (y : Nat) : Nat → Nat
  | 0 => 0
  | m + 1 => daysBeforeMonth y m + monthLength y m

/-- The days of the year before a date. -/
def Date.yearDay (d : Date) : Nat := daysBeforeMonth d.year d.month + (d.day - 1)

/-- All days before a date. -/
def Date.ordinal (d : Date) : Nat := daysBeforeYear d.year + d.yearDay

variable {d e : Date} {y m n : Nat}

theorem yearLength_pos (y : Nat) : 365 ≤ yearLength y := by
  rw [yearLength]
  split <;> omega

theorem monthLength_pos (y m : Nat) : 28 ≤ monthLength y m := by
  rw [monthLength.eq_def]
  split
  · split <;> omega
  all_goals omega

theorem monthLength_le (y m : Nat) : monthLength y m ≤ 31 := by
  rw [monthLength.eq_def]
  split
  · split <;> omega
  all_goals omega

theorem daysBeforeMonth_last (y : Nat) :
    daysBeforeMonth y 11 + monthLength y 11 = yearLength y := by
  rw [yearLength]
  simp only [daysBeforeMonth, monthLength]
  split <;> rfl

theorem Date.next_valid (h : d.Valid) : d.next.Valid := by
  rw [Date.next]
  split
  · rename_i hday
    exact ⟨h.month, Nat.succ_pos _, hday⟩
  · split
    · rename_i hmonth
      have hlength := monthLength_pos d.year (d.month + 1)
      exact ⟨by dsimp only; omega, Nat.one_pos, by dsimp only; omega⟩
    · have hlength := monthLength_pos (d.year + 1) 0
      exact ⟨Nat.succ_pos 11, Nat.one_pos, by dsimp only; omega⟩

theorem Date.ordinal_next (h : d.Valid) : d.next.ordinal = d.ordinal + 1 := by
  obtain ⟨hmonth, hpos, hlength⟩ := h
  rw [Date.next]
  split
  · simp only [Date.ordinal, Date.yearDay]
    omega
  · split
    · simp only [Date.ordinal, Date.yearDay, daysBeforeMonth]
      omega
    · have hlast : d.month = 11 := by omega
      have hyear := daysBeforeMonth_last d.year
      have hsame : monthLength d.year d.month = monthLength d.year 11 := by rw [hlast]
      simp only [Date.ordinal, Date.yearDay, daysBeforeMonth, daysBeforeYear]
      rw [hlast]
      omega

theorem Date.later_succ (d : Date) (n : Nat) : d.later (n + 1) = (d.later n).next :=
  Function.iterate_succ_apply' _ _ _

theorem Date.later_valid (h : d.Valid) (n : Nat) : (d.later n).Valid := by
  induction n with
  | zero => exact h
  | succ n ih =>
    rw [later_succ]
    exact next_valid ih

theorem Date.ordinal_later (h : d.Valid) (n : Nat) : (d.later n).ordinal = d.ordinal + n := by
  induction n with
  | zero => rfl
  | succ n ih => rw [later_succ, ordinal_next (later_valid h n), ih, Nat.add_assoc]

theorem daysBeforeYear_mono {y y' : Nat} (h : y ≤ y') : daysBeforeYear y ≤ daysBeforeYear y' := by
  induction h with
  | refl => exact Nat.le_refl _
  | step _ ih => exact Nat.le_add_right_of_le ih

theorem daysBeforeMonth_mono {m m' : Nat} (h : m ≤ m') :
    daysBeforeMonth y m ≤ daysBeforeMonth y m' := by
  induction h with
  | refl => exact Nat.le_refl _
  | step _ ih => exact Nat.le_add_right_of_le ih

/-- A date lies before the end of its year. -/
theorem Date.yearDay_lt (h : d.Valid) : d.yearDay < yearLength d.year := by
  obtain ⟨hmonth, hpos, hlength⟩ := h
  have hmono : daysBeforeMonth d.year (d.month + 1) ≤ daysBeforeMonth d.year 12 :=
    daysBeforeMonth_mono hmonth
  have hyear := daysBeforeMonth_last d.year
  rw [daysBeforeMonth] at hmono
  have htwelve : daysBeforeMonth d.year 12 = yearLength d.year := hyear
  rw [Date.yearDay]
  omega

theorem Date.year_le_of_ordinal (hd : d.Valid) (h : d.ordinal = e.ordinal) : e.year ≤ d.year := by
  by_contra hlt
  have hmono : daysBeforeYear (d.year + 1) ≤ daysBeforeYear e.year :=
    daysBeforeYear_mono (by omega)
  have hyear := yearDay_lt hd
  rw [daysBeforeYear] at hmono
  rw [Date.ordinal, Date.ordinal] at h
  omega

theorem Date.month_le_of_yearDay (hd : d.Valid) (hyear : d.year = e.year)
    (h : d.yearDay = e.yearDay) : e.month ≤ d.month := by
  obtain ⟨-, hpos, hlength⟩ := hd
  by_contra hlt
  have hmono : daysBeforeMonth e.year (d.month + 1) ≤ daysBeforeMonth e.year e.month :=
    daysBeforeMonth_mono (by omega)
  rw [daysBeforeMonth] at hmono
  rw [Date.yearDay, Date.yearDay, hyear] at h
  rw [hyear] at hlength
  omega

/-- The days before a date determine it. -/
theorem Date.ordinal_injective (hd : d.Valid) (he : e.Valid) (h : d.ordinal = e.ordinal) :
    d = e := by
  have hyear : d.year = e.year :=
    Nat.le_antisymm (year_le_of_ordinal he h.symm) (year_le_of_ordinal hd h)
  have hday : d.yearDay = e.yearDay := by
    rw [Date.ordinal, Date.ordinal, hyear] at h
    exact Nat.add_left_cancel h
  have hmonth : d.month = e.month :=
    Nat.le_antisymm (month_le_of_yearDay he hyear.symm hday.symm)
      (month_le_of_yearDay hd hyear hday)
  obtain ⟨y, m, a⟩ := d
  obtain ⟨y', m', b⟩ := e
  obtain rfl : y = y' := hyear
  obtain rfl : m = m' := hmonth
  have hpos : 0 < a := hd.day
  have hpos' : 0 < b := he.day
  have heq : daysBeforeMonth y m + (a - 1) = daysBeforeMonth y m + (b - 1) := hday
  rw [show a = b by omega]

/-- The date a number of days later is the one with so many more days before it. -/
theorem Date.later_eq (hd : d.Valid) (he : e.Valid) (h : e.ordinal = d.ordinal + n) :
    d.later n = e :=
  ordinal_injective (later_valid hd n) he ((ordinal_later hd n).trans h.symm)

end Calendar
