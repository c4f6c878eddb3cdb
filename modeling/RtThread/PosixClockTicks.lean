import RtThread.PosixClockLaw

/-!
# An absolute time in ticks

`rt_timespec_to_tick` takes the difference to the current time with a borrow. The nanoseconds
that are left are multiplied by the tick rate as an `int`, which holds the product for the first
`2 ^ 31 / tps` nanoseconds of a second only.
-/
namespace RtThread.PosixClock

/-- The range of an `int`. -/
def Fits (x : Int) : Prop := -2 ^ 31 ≤ x ∧ x < 2 ^ 31

/-- The ticks from `tp` to `time`, rounded down. -/
def ticksUntil (tps : Nat) (tp time : Timespec) : Int :=
  (time.total - tp.total) * tps / nanosecondPerSecond

/-- The result is the number of ticks, or zero for a time that is over, and no signed
intermediate value overflows. -/
structure Converts (tps : Nat) (tp time : Timespec) : Prop where
  value : rtTimespecToTick tps tp time = max 0 (ticksUntil tps tp time)
  seconds : Fits (time.sec - tp.sec)
  borrow : time.nsec < tp.nsec → Fits (time.sec - tp.sec - 1)
  product : Fits ((timespecDiff time tp).2 * tps)
  fraction : Fits ((timespecDiff time tp).1 * tps)

/-- All times convert, and no result is below that of an earlier time. -/
def TickLaw (tps : Nat) (tp : Timespec) (times : List Timespec) : Prop :=
  (∀ time ∈ times, Converts tps tp time) ∧
    (times.map (rtTimespecToTick tps tp)).Pairwise (· ≤ ·)

/-- The nanoseconds of the difference come to few ticks, and a time that is over is not too long
over. -/
structure InRange (tps : Nat) (tp time : Timespec) : Prop where
  fraction : (time.nsec - tp.nsec) % nanosecondPerSecond * tps < 2 ^ 31
  past : -2 ^ 31 ≤ (time.total - tp.total) / nanosecondPerSecond * tps
  seconds : time.sec - tp.sec < 2 ^ 31

variable {tps : Nat} {tp time : Timespec}

/-- The difference with its borrow is the quotient and the remainder by the nanoseconds of a
second. -/
theorem difference (htime : time.Normalised) (htp : tp.Normalised) :
    (time.total - tp.total) / nanosecondPerSecond =
        (if time.nsec < tp.nsec then time.sec - tp.sec - 1 else time.sec - tp.sec) ∧
      (time.nsec - tp.nsec) % nanosecondPerSecond =
        if time.nsec < tp.nsec then nanosecondPerSecond - (tp.nsec - time.nsec)
        else time.nsec - tp.nsec := by
  obtain ⟨htimeLow, htimeHigh⟩ := htime
  obtain ⟨htpLow, htpHigh⟩ := htp
  have hsecond : (nanosecondPerSecond : Int) = 1000000000 := rfl
  rw [Timespec.total, Timespec.total, hsecond]
  split
  · exact ⟨by omega, by omega⟩
  · exact ⟨by omega, by omega⟩

/-- The difference as the source holds it. -/
theorem timespecDiff_eq (htime : time.Normalised) (htp : tp.Normalised)
    (hseconds : Fits (time.sec - tp.sec))
    (hborrow : time.nsec < tp.nsec → Fits (time.sec - tp.sec - 1)) :
    timespecDiff time tp =
      ((time.nsec - tp.nsec) % nanosecondPerSecond,
        (time.total - tp.total) / nanosecondPerSecond) := by
  obtain ⟨hquotient, hremainder⟩ := difference htime htp
  obtain ⟨htimeLow, htimeHigh⟩ := htime
  obtain ⟨htpLow, htpHigh⟩ := htp
  have hsecond : (nanosecondPerSecond : Int) = 1000000000 := rfl
  rw [hquotient, hremainder, timespecDiff, hsecond]
  by_cases hless : time.nsec < tp.nsec
  · obtain ⟨hlow, hhigh⟩ := hborrow hless
    rw [if_pos (by omega), if_pos hless, if_pos hless, int32_eq (by omega) (by omega),
      int32_eq hlow hhigh]
  · rw [if_neg (by omega), if_neg hless, if_neg hless, int32_eq hseconds.1 hseconds.2]

/-- The ticks of the difference are those of its seconds and those of its nanoseconds. -/
theorem ticksUntil_eq (tps : Nat) (tp time : Timespec) :
    ticksUntil tps tp time =
      (time.total - tp.total) / nanosecondPerSecond * tps +
        (time.nsec - tp.nsec) % nanosecondPerSecond * tps / nanosecondPerSecond := by
  have hpositive : (nanosecondPerSecond : Int) ≠ 0 := by decide
  have hsplit : (time.total - tp.total) * tps =
      (time.total - tp.total) % nanosecondPerSecond * tps +
        (time.total - tp.total) / nanosecondPerSecond * tps * nanosecondPerSecond := by
    calc (time.total - tp.total) * tps
        = ((time.total - tp.total) % nanosecondPerSecond +
            nanosecondPerSecond * ((time.total - tp.total) / nanosecondPerSecond)) * tps := by
          rw [Int.emod_add_mul_ediv]
      _ = _ := by ring
  have hrest : (time.total - tp.total) % nanosecondPerSecond =
      (time.nsec - tp.nsec) % nanosecondPerSecond := by
    have htotal : time.total - tp.total =
        time.nsec - tp.nsec + nanosecondPerSecond * (time.sec - tp.sec) := by
      rw [Timespec.total, Timespec.total]
      ring
    rw [htotal, Int.add_mul_emod_self_left]
  rw [ticksUntil, hsplit, Int.add_mul_ediv_right _ _ hpositive, hrest, Int.add_comm]

/-- The seconds of a time in range fit, before and after the borrow. -/
theorem InRange.fits (hpos : 0 < tps) (htime : time.Normalised) (htp : tp.Normalised)
    (h : InRange tps tp time) :
    Fits (time.sec - tp.sec) ∧ (time.nsec < tp.nsec → Fits (time.sec - tp.sec - 1)) := by
  obtain ⟨-, hpast, hseconds⟩ := h
  obtain ⟨hquotient, -⟩ := difference htime htp
  have htps : (1 : Int) ≤ tps := by exact_mod_cast hpos
  generalize (time.total - tp.total) / nanosecondPerSecond = q at *
  have hleast : -2 ^ 31 ≤ q := by
    by_contra hless
    have hproduct : q * tps ≤ q * 1 := Int.mul_le_mul_of_nonpos_left (by omega) htps
    omega
  split at hquotient
  · exact ⟨⟨by omega, hseconds⟩, fun _ => ⟨by omega, by omega⟩⟩
  · rename_i hnot
    exact ⟨⟨by omega, hseconds⟩, fun hless => absurd hless hnot⟩

/-- Without an overflow the sum is the one of the two products. -/
theorem tick_sum {p r : Int} (hp : Fits p) (hr : Fits r) (hnonneg : 0 ≤ r)
    (hsum : p + r / nanosecondPerSecond < 2 ^ 31) :
    int32 (int32 p + int32 r % 2 ^ 32 / nanosecondPerSecond) = p + r / nanosecondPerSecond := by
  obtain ⟨hlow, hhigh⟩ := hp
  have hsecond : (nanosecondPerSecond : Int) = 1000000000 := rfl
  have hword : r % 2 ^ 32 = r := Int.emod_eq_of_lt hnonneg (by have hless := hr.2; omega)
  rw [int32_eq hlow hhigh, int32_eq hr.1 hr.2, hword]
  rw [hsecond] at hsum ⊢
  exact int32_eq (by omega) hsum

/-- A time in range converts. -/
theorem converts_of_inRange (hpos : 0 < tps) (htime : time.Normalised) (htp : tp.Normalised)
    (hticks : ticksUntil tps tp time < 2 ^ 31) (h : InRange tps tp time) :
    Converts tps tp time := by
  obtain ⟨hseconds, hborrow⟩ := h.fits hpos htime htp
  have hdiff := timespecDiff_eq htime htp hseconds hborrow
  have hsum := ticksUntil_eq tps tp time
  have hnonneg : 0 ≤ (time.nsec - tp.nsec) % nanosecondPerSecond * tps :=
    Int.mul_nonneg (Int.emod_nonneg _ (by decide)) (Int.natCast_nonneg tps)
  have hquotient := Int.ediv_nonneg hnonneg (Int.natCast_nonneg nanosecondPerSecond)
  have hproduct : Fits ((time.total - tp.total) / nanosecondPerSecond * tps) :=
    ⟨h.past, by omega⟩
  have hfraction : Fits ((time.nsec - tp.nsec) % nanosecondPerSecond * tps) :=
    ⟨by omega, h.fraction⟩
  refine ⟨?_, hseconds, hborrow, by rwa [hdiff], by rwa [hdiff]⟩
  rw [hsum] at hticks
  rw [rtTimespecToTick, hdiff]
  dsimp only
  rw [tick_sum hproduct hfraction hnonneg hticks, ← hsum]
  split <;> omega

theorem inRange_of_converts (htime : time.Normalised) (htp : tp.Normalised)
    (h : Converts tps tp time) : InRange tps tp time := by
  obtain ⟨-, hseconds, hborrow, hproduct, hfraction⟩ := h
  rw [timespecDiff_eq htime htp hseconds hborrow] at hproduct hfraction
  exact ⟨hfraction.2, hproduct.1, hseconds.2⟩

/-- Later times have no fewer ticks. -/
theorem ticksUntil_mono {time' : Timespec} (h : time.total ≤ time'.total) :
    ticksUntil tps tp time ≤ ticksUntil tps tp time' :=
  Int.ediv_le_ediv (by decide)
    (Int.mul_le_mul_of_nonneg_right (by omega) (Int.natCast_nonneg tps))

/-- The ticks keep the law for exactly the times in range. -/
theorem tick_law {times : List Timespec} (hpos : 0 < tps) (htp : tp.Normalised)
    (htimes : ∀ time ∈ times, time.Normalised ∧ ticksUntil tps tp time < 2 ^ 31)
    (hsorted : times.Pairwise fun a b => a.total ≤ b.total) :
    TickLaw tps tp times ↔ ∀ time ∈ times, InRange tps tp time := by
  constructor
  · rintro ⟨hall, -⟩ time htime
    exact inRange_of_converts (htimes time htime).1 htp (hall time htime)
  · intro hrange
    have hall : ∀ time ∈ times, Converts tps tp time := by
      intro time htime
      obtain ⟨hnormalised, hticks⟩ := htimes time htime
      exact converts_of_inRange hpos hnormalised htp hticks (hrange time htime)
    refine ⟨hall, ?_⟩
    rw [List.pairwise_map]
    refine hsorted.imp_of_mem fun {a b} ha hb hab => ?_
    rw [(hall a ha).value, (hall b hb).value]
    exact max_le_max (le_refl 0) (ticksUntil_mono hab)

/-- The first 21 milliseconds of a second, one second later and a time that is over. -/
theorem tick_law_hundred : TickLaw 100 ⟨1, 0⟩ [⟨0, 5000000⟩, ⟨1, 21000000⟩, ⟨2, 0⟩] := by
  refine (tick_law (by decide) (by decide) (by decide) (by decide)).mpr ?_
  intro time htime
  simp only [List.mem_cons, List.not_mem_nil, or_false] at htime
  rcases htime with rfl | rfl | rfl
  all_goals exact ⟨by decide, by decide, by decide⟩

/-- 999999999 ns come to one tick instead of 99, and 43 ms to none after the two of 20 ms. -/
theorem not_tick_law :
    rtTimespecToTick 100 ⟨0, 0⟩ ⟨0, 999999999⟩ = 1 ∧
      ticksUntil 100 ⟨0, 0⟩ ⟨0, 999999999⟩ = 99 ∧
      rtTimespecToTick 100 ⟨0, 0⟩ ⟨0, 20000000⟩ = 2 ∧
      rtTimespecToTick 100 ⟨0, 0⟩ ⟨0, 43000000⟩ = 0 ∧
      ¬ TickLaw 100 ⟨0, 0⟩ [⟨0, 999999999⟩] := by
  refine ⟨by decide, by decide, by decide, by decide, fun ⟨hall, _⟩ => ?_⟩
  exact absurd (hall _ List.mem_cons_self).value (by decide)

end RtThread.PosixClock
