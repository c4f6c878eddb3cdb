import RtThread.PosixClock
import Mathlib.Tactic.Linarith
import Mathlib.Tactic.Ring

/-!
# The law of the POSIX clock

`clock_settime` keeps the time at tick zero as seconds and microseconds, and has already taken a
second from the first to put it to the second. `clock_gettime` adds the microseconds of the tick
and does not take a full second back, so the nanoseconds are those of a time only while the tick
is at an earlier point of its second than the tick of the setting was.
-/
namespace RtThread.PosixClock

/-- The nanoseconds that a time stands for. -/
def Timespec.total (t : Timespec) : Int := t.sec * nanosecondPerSecond + t.nsec

def Timespec.Normalised (t : Timespec) : Prop := 0 ≤ t.nsec ∧ t.nsec < nanosecondPerSecond

instance (t : Timespec) : Decidable t.Normalised :=
  inferInstanceAs (Decidable (0 ≤ t.nsec ∧ t.nsec < nanosecondPerSecond))

def nanosecondPerTick (tps : Nat) : Nat := nanosecondPerSecond / tps

/-- The time that `clock_gettime` reads `n` ticks after a tick. -/
def reading (tps tick : Nat) (s : State) (n : Nat) : Timespec :=
  realtime tps ((tick + n) % 2 ^ 32) s.timevalue

/-- The reading is there, and is a normalised time, those ticks later than `tp`. -/
structure KeepsTime (tps tick : Nat) (tp : Timespec) (s : State) (n : Nat) : Prop where
  read : clockGettime tps ((tick + n) % 2 ^ 32) clockRealtime true s =
    (0, some (reading tps tick s n), s)
  normalised : (reading tps tick s n).Normalised
  total : (reading tps tick s n).total =
    tp.sec * nanosecondPerSecond + n * nanosecondPerTick tps

/-- All readings keep the time, and none is before one that it follows. -/
def ClockLaw (tps tick : Nat) (tp : Timespec) (s : State) (ns : List Nat) : Prop :=
  (∀ n ∈ ns, KeepsTime tps tick tp s n) ∧
    (ns.map (reading tps tick s)).Pairwise fun a b => a.total ≤ b.total

/-- The tick of a reading, as an `int`. -/
def signedTick (tick n : Nat) : Int := int32 ((tick + n) % 2 ^ 32 : Nat)

/-- The ticks of a second that the reading is ahead of the setting. -/
def ahead (tps tick n : Nat) : Int := (signedTick tick n).tmod tps - (tick % tps : Nat)

/-- The reading is at an earlier point of its second than the setting, the `int` has wrapped no
time at all or a number of whole seconds of ticks, and the seconds fit. -/
structure Kept (tps tick : Nat) (tp : Timespec) (n : Nat) : Prop where
  phase : -(tps : Int) ≤ ahead tps tick n ∧ ahead tps tick n < 0
  wraps : tps ∣ (tick + n + 2 ^ 31) / 2 ^ 32
  seconds : tp.sec + (n / tps : Nat) < 2 ^ 31

variable {tps tick n : Nat} {tp : Timespec} {s s' : State} {rtc : Option (Int → RtErr)}

/-! ## Wrapping -/

theorem int32_add_wraps (x : Int) : x = int32 x + 2 ^ 32 * ((x + 2 ^ 31) / 2 ^ 32) := by
  rw [int32, Int.bmod_def]
  split <;> omega

theorem int32_lt (x : Int) : int32 x < 2 ^ 31 := Int.bmod_lt (by decide)

theorem int32_add_mul (x k : Int) : int32 (x + 2 ^ 32 * k) = int32 x :=
  Int.add_mul_bmod_self_left x (2 ^ 32) k

theorem int32_add (x y : Int) : int32 (int32 x + y) = int32 (x + y) := Int.bmod_add_bmod

theorem signedTick_wraps (tick n : Nat) :
    (tick + n : Int) = signedTick tick n + 2 ^ 32 * ((tick + n + 2 ^ 31) / 2 ^ 32 : Nat) := by
  have hwraps := int32_add_wraps (tick + n)
  have hsplit : (((tick + n) % 2 ^ 32 : Nat) : Int) + 2 ^ 32 * ((tick + n) / 2 ^ 32 : Nat) =
      tick + n := by
    exact_mod_cast Nat.mod_add_div (tick + n) (2 ^ 32)
  have hsame : signedTick tick n = int32 (tick + n) := by
    rw [signedTick, ← int32_add_mul _ ((tick + n) / 2 ^ 32 : Nat), hsplit]
  rw [hsame]
  push_cast
  exact hwraps

/-! ## The reading -/

/-- What a successful setting keeps. -/
theorem clockSettime_timevalue (h : clockSettime tps tick rtc clockRealtime (some tp) s = (0, s')) :
    s'.timevalue =
      ⟨int32 (tp.sec - (tick / tps : Nat) - 1),
        int32 ((microsecondPerSecond : Int) - (tick % tps * microsecondPerTick tps : Nat))⟩ := by
  simp only [clockSettime, ne_eq, not_true_eq_false, if_false] at h
  cases rtc with
  | none =>
    rw [Prod.mk.injEq] at h
    exact absurd h.1 (by decide)
  | some control =>
    dsimp only at h
    split at h
    · rw [Prod.mk.injEq] at h
      rw [← h.2]
    · rw [Prod.mk.injEq] at h
      exact absurd h.1 (by decide)

theorem microseconds_of_second (hdvd : tps ∣ microsecondPerSecond) :
    tps * microsecondPerTick tps = microsecondPerSecond :=
  Nat.mul_div_cancel' hdvd

theorem nanoseconds_of_second (hdvd : tps ∣ microsecondPerSecond) :
    (tps : Int) * nanosecondPerTick tps = nanosecondPerSecond := by
  have hnano : microsecondPerSecond * 1000 = nanosecondPerSecond := rfl
  have hdiv : tps * nanosecondPerTick tps = nanosecondPerSecond :=
    Nat.mul_div_cancel' (hdvd.trans (Dvd.intro 1000 hnano))
  rw [← hdiv, Int.natCast_mul]

theorem nanoseconds_of_tick (hdvd : tps ∣ microsecondPerSecond) :
    nanosecondPerTick tps = 1000 * microsecondPerTick tps := by
  rw [nanosecondPerTick, microsecondPerTick, ← Nat.mul_div_assoc 1000 hdvd]
  rfl

theorem nanosecondPerTick_pos (hdvd : tps ∣ microsecondPerSecond) :
    (0 : Int) < nanosecondPerTick tps := by
  have hsecond := nanoseconds_of_second hdvd
  have hpositive : (0 : Int) < nanosecondPerSecond := by decide
  rw [← hsecond] at hpositive
  exact pos_of_mul_pos_right hpositive (Int.natCast_nonneg tps)

/-- The seconds and the nanoseconds of a reading. -/
theorem reading_eq (hpos : 0 < tps) (hdvd : tps ∣ microsecondPerSecond)
    (h : clockSettime tps tick rtc clockRealtime (some tp) s = (0, s')) (n : Nat) :
    reading tps tick s' n =
      ⟨int32 (tp.sec - (tick / tps : Nat) - 1 + (signedTick tick n).tdiv tps),
        nanosecondPerSecond + ahead tps tick n * nanosecondPerTick tps⟩ := by
  have hlength := microseconds_of_second hdvd
  have hset : tick % tps * microsecondPerTick tps ≤ microsecondPerSecond := by
    rw [← hlength]
    exact Nat.mul_le_mul_right _ (Nat.mod_lt _ hpos).le
  have hnanosecond : nanosecondPerSecond = 1000000000 := rfl
  have htps : (0 : Int) < tps := by exact_mod_cast hpos
  have hlow := Int.lt_tmod_of_pos (signedTick tick n) htps
  have hhigh := Int.tmod_lt_of_pos (signedTick tick n) htps
  have hlengthInt : (tps : Int) * microsecondPerTick tps = 1000000 := by exact_mod_cast hlength
  have hlowest : -(1000000 : Int) ≤ (signedTick tick n).tmod tps * microsecondPerTick tps := by
    rw [← hlengthInt, ← Int.neg_mul]
    exact Int.mul_le_mul_of_nonneg_right hlow.le (Int.natCast_nonneg _)
  have hhighest : (signedTick tick n).tmod tps * microsecondPerTick tps ≤ 1000000 := by
    rw [← hlengthInt]
    exact Int.mul_le_mul_of_nonneg_right hhigh.le (Int.natCast_nonneg _)
  have hahead : ahead tps tick n * nanosecondPerTick tps =
      1000 * ((signedTick tick n).tmod tps * microsecondPerTick tps) -
        1000 * (tick % tps * microsecondPerTick tps : Nat) := by
    rw [ahead, nanoseconds_of_tick hdvd]
    push_cast
    ring
  have husec := @int32_eq
    ((microsecondPerSecond : Int) - (tick % tps * microsecondPerTick tps : Nat))
    (by omega) (by omega)
  have hnsec : int32 ((microsecondPerSecond - (tick % tps * microsecondPerTick tps : Nat) +
      (signedTick tick n).tmod tps * microsecondPerTick tps) * 1000) =
        nanosecondPerSecond + ahead tps tick n * nanosecondPerTick tps := by
    rw [hahead, int32_eq (by omega) (by omega)]
    omega
  rw [reading, clockSettime_timevalue h, realtime, ← signedTick, int32_add, husec, hnsec]

/-- The reading is a normalised time where its tick is at an earlier point of the second. -/
theorem normalised_iff (hdvd : tps ∣ microsecondPerSecond) {a : Int} :
    0 ≤ (nanosecondPerSecond : Int) + a * nanosecondPerTick tps ∧
        (nanosecondPerSecond : Int) + a * nanosecondPerTick tps < nanosecondPerSecond ↔
      -(tps : Int) ≤ a ∧ a < 0 := by
  have hpositive := nanosecondPerTick_pos hdvd
  rw [← nanoseconds_of_second hdvd, ← Int.add_mul]
  constructor
  · rintro ⟨hlow, hhigh⟩
    have hnonneg := nonneg_of_mul_nonneg_left hlow hpositive
    have hless := lt_of_mul_lt_mul_right hhigh hpositive.le
    exact ⟨by omega, by omega⟩
  · rintro ⟨hlow, hhigh⟩
    exact ⟨Int.mul_nonneg (by omega) hpositive.le,
      Int.mul_lt_mul_of_pos_right (by omega) hpositive⟩

/-- The seconds since `tp` that the ticks count, and the tick that is left. -/
theorem elapsed (tps tick n : Nat) :
    (n : Int) = tps * ((signedTick tick n).tdiv tps - (tick / tps : Nat)) + ahead tps tick n +
      2 ^ 32 * ((tick + n + 2 ^ 31) / 2 ^ 32 : Nat) := by
  have hsigned := Int.mul_tdiv_add_tmod (signedTick tick n) tps
  have hset : ((tps * (tick / tps) : Nat) : Int) + (tick % tps : Nat) = tick := by
    exact_mod_cast Nat.div_add_mod tick tps
  have hwraps := signedTick_wraps tick n
  rw [ahead, Int.mul_sub]
  push_cast at hset hwraps ⊢
  omega

/-! ## The law -/

/-- The seconds that a reading gives before they are cut to an `int`. -/
def rawSeconds (tps tick : Nat) (tp : Timespec) (n : Nat) : Int :=
  tp.sec - (tick / tps : Nat) - 1 + (signedTick tick n).tdiv tps

/-- The cut has to make up for what the tick has lost by wrapping. -/
theorem total_iff (hdvd : tps ∣ microsecondPerSecond) :
    Timespec.total ⟨int32 (rawSeconds tps tick tp n),
        nanosecondPerSecond + ahead tps tick n * nanosecondPerTick tps⟩ =
        tp.sec * nanosecondPerSecond + n * nanosecondPerTick tps ↔
      (int32 (rawSeconds tps tick tp n) - rawSeconds tps tick tp n) * tps =
        2 ^ 32 * ((tick + n + 2 ^ 31) / 2 ^ 32 : Nat) := by
  have hpositive := nanosecondPerTick_pos hdvd
  have helapsed := elapsed tps tick n
  rw [Timespec.total, ← nanoseconds_of_second hdvd]
  generalize hraw : rawSeconds tps tick tp n = raw
  rw [rawSeconds] at hraw
  generalize (((tick + n + 2 ^ 31) / 2 ^ 32 : Nat) : Int) = wraps at *
  generalize (signedTick tick n).tdiv tps = quotient at *
  generalize ((tick / tps : Nat) : Int) = set at *
  generalize ahead tps tick n = ahead at *
  have hdifference : int32 raw * (tps * nanosecondPerTick tps) +
      (tps * nanosecondPerTick tps + ahead * nanosecondPerTick tps) -
      (tp.sec * (tps * nanosecondPerTick tps) + n * nanosecondPerTick tps) =
      ((int32 raw - raw) * tps - 2 ^ 32 * wraps) * nanosecondPerTick tps := by
    rw [helapsed, ← hraw]
    ring
  rw [← Int.sub_eq_zero, hdifference, Int.mul_eq_zero]
  constructor
  · rintro (hzero | hzero)
    · omega
    · omega
  · intro heq
    exact .inl (by omega)

/-- The seconds since the setting, where the borrowed second is due. -/
theorem elapsed_seconds (hpos : 0 < tps) (hlow : -(tps : Int) ≤ ahead tps tick n)
    (hhigh : ahead tps tick n < 0) {m : Int}
    (hwraps : (((tick + n + 2 ^ 31) / 2 ^ 32 : Nat) : Int) = tps * m) :
    tp.sec + (n / tps : Nat) = rawSeconds tps tick tp n + 2 ^ 32 * m := by
  have htps : (0 : Int) < tps := by exact_mod_cast hpos
  have helapsed := elapsed tps tick n
  have hdiv : (n : Int) / tps =
      (signedTick tick n).tdiv tps - (tick / tps : Nat) - 1 + 2 ^ 32 * m := by
    have hproduct : ((signedTick tick n).tdiv tps - (tick / tps : Nat) - 1 + 2 ^ 32 * m) * tps =
        tps * ((signedTick tick n).tdiv tps - (tick / tps : Nat)) - tps + 2 ^ 32 * (tps * m) := by
      ring
    rw [Int.ediv_eq_iff_of_pos htps, hproduct]
    omega
  rw [Int.natCast_div, hdiv, rawSeconds]
  omega

/-- A reading keeps the time exactly where it is kept by the ticks. -/
theorem keepsTime_iff (hpos : 0 < tps) (hdvd : tps ∣ microsecondPerSecond)
    (hsec : -2 ^ 31 ≤ tp.sec)
    (h : clockSettime tps tick rtc clockRealtime (some tp) s = (0, s')) :
    KeepsTime tps tick tp s' n ↔ Kept tps tick tp n := by
  have hreading := reading_eq hpos hdvd h n
  rw [← rawSeconds] at hreading
  constructor
  · rintro ⟨-, hnormalised, htotal⟩
    rw [hreading] at hnormalised htotal
    obtain ⟨hlow, hhigh⟩ := (normalised_iff hdvd).mp hnormalised
    rw [total_iff hdvd] at htotal
    obtain ⟨m, hcut⟩ : ∃ m, int32 (rawSeconds tps tick tp n) =
        rawSeconds tps tick tp n + 2 ^ 32 * m :=
      ⟨-((rawSeconds tps tick tp n + 2 ^ 31) / 2 ^ 32), by
        have hwraps := int32_add_wraps (rawSeconds tps tick tp n)
        omega⟩
    have hwraps : (((tick + n + 2 ^ 31) / 2 ^ 32 : Nat) : Int) = tps * m := by
      rw [hcut, add_sub_cancel_left, Int.mul_assoc] at htotal
      rw [Int.mul_comm (tps : Int)]
      omega
    refine ⟨⟨hlow, hhigh⟩, Int.natCast_dvd_natCast.mp (Dvd.intro m hwraps.symm), ?_⟩
    rw [elapsed_seconds hpos hlow hhigh hwraps, ← hcut]
    exact int32_lt _
  · rintro ⟨⟨hlow, hhigh⟩, ⟨m, hm⟩, hseconds⟩
    have hwraps : (((tick + n + 2 ^ 31) / 2 ^ 32 : Nat) : Int) = tps * m := by
      rw [hm, Int.natCast_mul]
    have helapsed := @elapsed_seconds _ _ _ tp hpos hlow hhigh _ hwraps
    have hnonneg := Int.natCast_nonneg (n / tps)
    have hcut : int32 (rawSeconds tps tick tp n) = rawSeconds tps tick tp n + 2 ^ 32 * m := by
      rw [← int32_add_mul _ m, int32_eq (by omega) (by omega)]
    refine ⟨rfl, ?_, ?_⟩
    · rw [hreading]
      exact (normalised_iff hdvd).mpr ⟨hlow, hhigh⟩
    · rw [hreading, total_iff hdvd, hcut, hwraps]
      ring

/-- Before the tick no longer fits an `int`, the point of the second decides. -/
theorem kept_early (hpos : 0 < tps) (h : tick + n < 2 ^ 31) :
    Kept tps tick tp n ↔
      (tick + n) % tps < tick % tps ∧ tp.sec + (n / tps : Nat) < 2 ^ 31 := by
  have hahead : ahead tps tick n = ((tick + n) % tps : Nat) - (tick % tps : Nat) := by
    rw [ahead, signedTick, Nat.mod_eq_of_lt (by omega), int32_eq (by omega) (by omega)]
    rfl
  have hset : tick % tps < tps := Nat.mod_lt tick hpos
  constructor
  · rintro ⟨⟨-, hhigh⟩, -, hseconds⟩
    exact ⟨by omega, hseconds⟩
  · rintro ⟨hless, hseconds⟩
    refine ⟨⟨by omega, by omega⟩, ?_, hseconds⟩
    rw [Nat.div_eq_of_lt (by omega)]
    exact Nat.dvd_zero tps

/-- The clock keeps the law in exactly the readings that the ticks keep. -/
theorem clock_law {ns : List Nat} (hpos : 0 < tps) (hdvd : tps ∣ microsecondPerSecond)
    (hsec : -2 ^ 31 ≤ tp.sec)
    (h : clockSettime tps tick rtc clockRealtime (some tp) s = (0, s'))
    (hns : ns.Pairwise (· ≤ ·)) :
    ClockLaw tps tick tp s' ns ↔ ∀ n ∈ ns, Kept tps tick tp n := by
  have hkeeps := fun n => @keepsTime_iff _ _ n _ _ _ _ hpos hdvd hsec h
  constructor
  · rintro ⟨hall, -⟩ n hn
    exact (hkeeps n).mp (hall n hn)
  · intro hkept
    have hall : ∀ n ∈ ns, KeepsTime tps tick tp s' n := fun n hn => (hkeeps n).mpr (hkept n hn)
    refine ⟨hall, ?_⟩
    rw [List.pairwise_map]
    refine hns.imp_of_mem fun {a b} ha hb hab => ?_
    have hticks : (a : Int) * nanosecondPerTick tps ≤ b * nanosecondPerTick tps :=
      Int.mul_le_mul_of_nonneg_right (by exact_mod_cast hab) (Int.natCast_nonneg _)
    rw [(hall a ha).total, (hall b hb).total]
    omega

/-- Five seconds set just before a full second, and read half a second later. -/
theorem clock_law_hundred :
    ClockLaw 100 99 ⟨5, 0⟩ ⟨⟨4, 10000⟩, .eok⟩ [1, 51, 101] := by
  have hset : clockSettime 100 99 (some fun _ => .eok) clockRealtime (some ⟨5, 0⟩)
      ⟨⟨0, 0⟩, .eok⟩ = (0, ⟨⟨4, 10000⟩, .eok⟩) := by decide
  refine (clock_law (by decide) (by decide) (by decide) hset (by decide)).mpr ?_
  intro n hn
  have hearly : 99 + n < 2 ^ 31 := by
    simp only [List.mem_cons, List.not_mem_nil, or_false] at hn
    omega
  rw [kept_early (by decide) hearly]
  revert n
  decide

/-- Five seconds set at a full second and read at once: 4 s and 1000000000 ns. -/
theorem not_clock_law :
    clockSettime 100 0 (some fun _ => .eok) clockRealtime (some ⟨5, 0⟩) ⟨⟨0, 0⟩, .eok⟩ =
        (0, ⟨⟨4, 1000000⟩, .eok⟩) ∧
      clockGettime 100 0 clockRealtime true ⟨⟨4, 1000000⟩, .eok⟩ =
        (0, some ⟨4, 1000000000⟩, ⟨⟨4, 1000000⟩, .eok⟩) ∧
      ¬ ClockLaw 100 0 ⟨5, 0⟩ ⟨⟨4, 1000000⟩, .eok⟩ [0] := by
  refine ⟨by decide, by decide, fun ⟨hall, _⟩ => ?_⟩
  have hnormalised := (hall 0 List.mem_cons_self).normalised
  exact absurd hnormalised.2 (by decide)

end RtThread.PosixClock
