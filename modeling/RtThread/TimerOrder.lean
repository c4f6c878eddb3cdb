import RtThread.Lib.Splits
import RtThread.Timer

/-!
# The order of the timer lists

The deadline of a timer is compared with the current tick as a signed distance.
The search of `rt_timer_start` compares deadlines by an unsigned difference with
half of the tick range instead, and finds the place between the earlier and the
later deadlines when no linked timer is further away than that.
-/
namespace RtThread.Timer

open Function (update_of_ne update_self)

/-- The ticks until the deadline, negative when it is overdue. -/
def rel (s : State) (u : TimerId) : Int := ((s.timer u).timeoutTick - s.tick).toInt

/-- `u` has the earlier deadline, or the same one and was started earlier. -/
def Before (s : State) (u v : TimerId) : Prop :=
  rel s u < rel s v ∨ (s.timer u).timeoutTick = (s.timer v).timeoutTick ∧ s.stamp u < s.stamp v

structure Ordered (c : Config) (s : State) : Prop where
  sorted : ∀ k r, (s.rows k r).Pairwise (Before s)
  sublist : ∀ k r, r + 1 < c.level → (s.rows k r).Sublist (s.rows k (r + 1))

structure Inv (c : Config) (s : State) : Prop where
  ordered : Ordered c s
  initTick : ∀ t, (s.timer t).initTick.toNat < rtTickMaxHalf
  bound : ∀ k r, ∀ u ∈ s.rows k r, rel s u < rtTickMaxHalf
  stamp : ∀ u, s.stamp u ≤ s.starts
  outside : ∀ k r, c.level ≤ r → s.rows k r = []

/-! ## The search -/

variable {u v : TimerId} {s' : State} {r : Nat} {k : ListKind}

theorem rel_eq {s : State} (h : rel s u = rel s v) :
    (s.timer u).timeoutTick = (s.timer v).timeoutTick := by
  have := BitVec.eq_of_toInt_eq h
  simpa using this

/-- The comparison of the search, for a deadline of `r` ticks from now. -/
theorem stops_iff {tick timeout r : Tick} (hr : r.toNat < rtTickMaxHalf)
    (hu : (timeout - tick).toInt < rtTickMaxHalf)
    (hw : (r.toNat : Int) - (timeout - tick).toInt ≤ 2 ^ 31 + 1) :
    stops (tick + r) timeout = true ↔ (r.toNat : Int) < (timeout - tick).toInt := by
  have hdiff : timeout - (tick + r) = timeout - tick - r := sub_add_eq_sub_sub _ _ _
  rw [stops, hdiff]
  generalize timeout - tick = v at *
  have hsub := BitVec.toNat_sub v r
  rw [BitVec.toInt_eq_toNat_cond] at hu hw ⊢
  simp only [ne_eq, BitVec.ofNat_eq_ofNat, ← BitVec.toNat_inj, hsub, BitVec.toNat_ofNat,
    Bool.and_eq_true, decide_eq_true_eq, rtTickMaxHalf] at *
  omega

open Splits

/-- The search for `deadline` stops in front of the timer. -/
def stopsAt (timeout : TimerId → Tick) (deadline : Tick) (u : TimerId) : Bool :=
  stops deadline (timeout u)

section search

variable {timeout : TimerId → Tick} {deadline : Tick} {row : List TimerId}

variable {l l' : List TimerId}

/-- Walking along timers that do not stop the search, up to one that does. -/
theorem scanRow_append (head : Option TimerId) (hl : ∀ u ∈ l, stopsAt timeout deadline u = false)
    (hl' : ∀ u ∈ l', stopsAt timeout deadline u = true) :
    scanRow timeout deadline head (l ++ l') = l.getLast?.or head := by
  induction l generalizing head with
  | nil =>
    cases l' with
    | nil => rfl
    | cons u l' =>
      have hu := hl' u List.mem_cons_self
      rw [stopsAt] at hu
      simp [scanRow, hu]
  | cons u l ih =>
    have hu := hl u List.mem_cons_self
    rw [stopsAt] at hu
    rw [List.cons_append, scanRow, hu, if_neg (by simp),
      ih _ fun v hv => hl v (List.mem_cons_of_mem u hv), List.getLast?_cons]
    cases l.getLast? <;> rfl

theorem scanRow_first
    (hrow : before (stopsAt timeout deadline) row ++ row.filter (stopsAt timeout deadline) = row) :
    scanRow timeout deadline none row = (before (stopsAt timeout deadline) row).getLast? := by
  conv_lhs => rw [← hrow]
  rw [scanRow_append, Option.or_none]
  · exact fun u hu => (mem_before.mp hu).2
  · exact fun u hu => (List.mem_filter.mp hu).2

/-- The walk goes on behind a timer that does not stop the search. -/
theorem scanRow_after {h : TimerId} (hnd : row.Nodup)
    (hrow : before (stopsAt timeout deadline) row ++ row.filter (stopsAt timeout deadline) = row)
    (hh : h ∈ before (stopsAt timeout deadline) row) :
    scanRow timeout deadline (some h) (after (some h) row) =
      (before (stopsAt timeout deadline) row).getLast? := by
  obtain ⟨l₁, l₂, hl⟩ := List.append_of_mem hh
  have hl₁ : ∀ u ∈ l₁, u ≠ h := by
    rintro u hu rfl
    rw [← hrow, hl] at hnd
    simp only [List.append_assoc, List.nodup_append] at hnd
    exact hnd.2.2 u hu u (by simp) rfl
  have hafter : after (some h) row = l₂ ++ row.filter (stopsAt timeout deadline) := by
    conv_lhs => rw [← hrow, hl]
    rw [after, List.append_assoc, List.dropWhile_append_of_pos (by simpa using hl₁)]
    simp
  rw [hafter, scanRow_append, hl, List.getLast?_append]
  · cases l₂ with
    | nil => simp
    | cons u l₂ => simp [List.getLast?_cons]
  · intro u hu
    have : u ∈ before (stopsAt timeout deadline) row := by
      rw [hl]
      simp [hu]
    exact (mem_before.mp this).2
  · exact fun u hu => (List.mem_filter.mp hu).2

/-- The search reaches in every row the last timer that does not stop it. -/
theorem rowHead_eq {level : Nat} {rows : Nat → List TimerId} (hnd : ∀ r, (rows r).Nodup)
    (hrow : ∀ r, before (stopsAt timeout deadline) (rows r) ++
      (rows r).filter (stopsAt timeout deadline) = rows r)
    (hsub : ∀ r, r + 1 < level → (rows r).Sublist (rows (r + 1))) (r : Nat) (hr : r < level) :
    rowHead timeout deadline rows r =
      (before (stopsAt timeout deadline) (rows r)).getLast? := by
  induction r with
  | zero => exact scanRow_first (hrow 0)
  | succ r ih =>
    rw [rowHead, ih (by omega)]
    cases hlast : (before (stopsAt timeout deadline) (rows r)).getLast? with
    | none => exact scanRow_first (hrow (r + 1))
    | some h =>
      obtain ⟨hmem, hstop⟩ := mem_before.mp (List.mem_of_getLast? hlast)
      exact scanRow_after (hnd (r + 1)) (hrow (r + 1))
        (mem_before.mpr ⟨(hsub r hr).mem hmem, hstop⟩)

theorem insertAfter_last {x t : TimerId} (hx : x ∉ l) :
    insertAfter (some x) t (l ++ x :: l') = l ++ x :: t :: l' := by
  induction l with
  | nil => simp [insertAfter]
  | cons y l ih =>
    rw [List.mem_cons, not_or] at hx
    rw [List.cons_append, insertAfter, if_neg (fun heq => hx.1 heq.symm), ih hx.2,
      List.cons_append]

/-- The timer is put between the two parts of the row. -/
theorem insertAfter_eq {t : TimerId} (hnd : row.Nodup)
    (hrow : before (stopsAt timeout deadline) row ++ row.filter (stopsAt timeout deadline) = row) :
    insertAfter (before (stopsAt timeout deadline) row).getLast? t row =
      insertSplit (stopsAt timeout deadline) t row := by
  rw [insertSplit]
  generalize hb : before (stopsAt timeout deadline) row = l at *
  generalize row.filter (stopsAt timeout deadline) = l' at *
  subst hrow
  obtain rfl | ⟨l, x, rfl⟩ := List.eq_nil_or_concat l
  · simp [insertAfter]
  · rw [List.concat_eq_append] at hnd ⊢
    have hx : x ∉ l := by
      intro hx
      simp only [List.append_assoc, List.nodup_append] at hnd
      exact hnd.2.2 x hx x (by simp) rfl
    rw [List.getLast?_append, List.append_assoc, List.append_assoc]
    exact insertAfter_last hx

end search

/-! ## What the operations keep -/

theorem Before.le {s : State} (h : Before s u v) : rel s u ≤ rel s v := by
  cases h with
  | inl h => exact h.le
  | inr h =>
    rw [rel, h.1]
    exact le_refl _

theorem Before.congr {s : State} (hu : rel s' u - rel s u = rel s' v - rel s v)
    (htu : (s'.timer u).timeoutTick = (s.timer u).timeoutTick)
    (htv : (s'.timer v).timeoutTick = (s.timer v).timeoutTick) (hsu : s'.stamp u = s.stamp u)
    (hsv : s'.stamp v = s.stamp v) (h : Before s u v) : Before s' u v := by
  rw [Before, htu, htv, hsu, hsv]
  cases h with
  | inl h => exact .inl (by omega)
  | inr h => exact .inr h

theorem Ordered.sublist_below {c : Config} {s : State} (h : Ordered c s) (k : ListKind)
    (r n : Nat) (hn : r + n < c.level) : (s.rows k r).Sublist (s.rows k (r + n)) := by
  induction n with
  | zero => exact List.Sublist.refl _
  | succ n ih => exact (ih (by omega)).trans (h.sublist k (r + n) hn)

/-- The bottom row holds the timers of every row. -/
theorem Inv.mem_bottom {c : Config} {s : State} (h : Inv c s) (hu : u ∈ s.rows k r) :
    u ∈ s.rows k (c.level - 1) := by
  have hr : r < c.level := by
    by_contra hr
    rw [h.outside k r (by omega)] at hu
    exact absurd hu List.not_mem_nil
  have hsub := h.ordered.sublist_below k r (c.level - 1 - r) (by omega)
  rw [show r + (c.level - 1 - r) = c.level - 1 by omega] at hsub
  exact hsub.mem hu

/-- Unlinking timers, in every row the same ones, and changing no deadline. -/
theorem Inv.filter {c : Config} {s : State} (h : Inv c s) (p : TimerId → Bool)
    (hrows : ∀ k r, s'.rows k r = (s.rows k r).filter p) (htick : s'.tick = s.tick)
    (htimer : ∀ u, (s'.timer u).timeoutTick = (s.timer u).timeoutTick)
    (hinit : ∀ u, (s'.timer u).initTick.toNat < rtTickMaxHalf) (hstamp : s'.stamp = s.stamp)
    (hstarts : s'.starts = s.starts) : Inv c s' := by
  have hrel : ∀ u, rel s' u = rel s u := by
    intro u
    rw [rel, rel, htimer, htick]
  refine ⟨⟨?_, ?_⟩, hinit, ?_, ?_, ?_⟩
  · intro k r
    rw [hrows]
    refine ((h.ordered.sorted k r).filter p).imp fun {u v} huv => ?_
    exact huv.congr (by rw [hrel, hrel]; omega) (htimer u) (htimer v) (by rw [hstamp]) (by rw [hstamp])
  · intro k r hr
    rw [hrows, hrows]
    exact (h.ordered.sublist k r hr).filter p
  · intro k r u hu
    rw [hrows, List.mem_filter] at hu
    rw [hrel]
    exact h.bound k r u hu.1
  · intro u
    rw [hstamp, hstarts]
    exact h.stamp u
  · intro k r hr
    rw [hrows, h.outside k r hr, List.filter_nil]

/-- Changing fields of one timer other than its deadline. -/
theorem Inv.keep {c : Config} {s : State} (h : Inv c s) (hrows : s'.rows = s.rows)
    (htick : s'.tick = s.tick) (htimer : ∀ u, (s'.timer u).timeoutTick = (s.timer u).timeoutTick)
    (hinit : ∀ u, (s'.timer u).initTick.toNat < rtTickMaxHalf) (hstamp : s'.stamp = s.stamp)
    (hstarts : s'.starts = s.starts) : Inv c s' :=
  h.filter (fun _ => true) (by simp [hrows]) htick htimer hinit hstamp hstarts

/-- The temporary lists hold no linked timer. -/
theorem Inv.temporary {c : Config} {s : State} (h : Inv c s) (pending : ListKind → List TimerId)
    (inCallback : ListKind → Option TimerId) :
    Inv c { s with pending := pending, inCallback := inCallback } :=
  h.keep rfl rfl (fun _ => rfl) h.initTick rfl rfl

/-- Unlinking one timer. -/
theorem Inv.remove {c : Config} {s : State} (h : Inv c s) (t : TimerId) : Inv c (timerRemove s t) :=
  h.filter (· ≠ t) (fun _ _ => rfl) rfl (fun _ => rfl) h.initTick rfl rfl

theorem Inv.setTimer {c : Config} {s : State} (h : Inv c s) (t : TimerId) {x : RtTimer}
    (htimeout : x.timeoutTick = (s.timer t).timeoutTick) (hinit : x.initTick.toNat < rtTickMaxHalf) :
    Inv c (setTimer s t x) := by
  refine h.keep rfl rfl (fun u => ?_) (fun u => ?_) rfl rfl
  · by_cases hu : u = t
    · subst hu
      simpa [Timer.setTimer] using htimeout
    · simp [Timer.setTimer, hu]
  · by_cases hu : u = t
    · subst hu
      simpa [Timer.setTimer] using hinit
    · simpa [Timer.setTimer, hu] using h.initTick u

theorem rel_tick {timeout tick : Tick} (h : (timeout - tick).toInt ≠ -2 ^ 31) :
    (timeout - (tick + 1)).toInt = (timeout - tick).toInt - 1 := by
  have hdiff : timeout - (tick + 1) = timeout - tick - 1 := sub_add_eq_sub_sub _ _ _
  rw [hdiff]
  generalize timeout - tick = v at *
  have hsub := BitVec.toNat_sub v 1
  rw [BitVec.toInt_eq_toNat_cond] at h ⊢
  rw [BitVec.toInt_eq_toNat_cond, hsub]
  simp only [BitVec.ofNat_eq_ofNat, BitVec.toNat_ofNat] at *
  omega

/-- The tick moves on while no linked timer is overdue by half of the tick range. -/
theorem Inv.tick {c : Config} {s : State} (h : Inv c s)
    (hw : ∀ k, ∀ u ∈ s.rows k (c.level - 1), rel s u ≠ -2 ^ 31) :
    Inv c { s with tick := s.tick + 1 } := by
  have hrel : ∀ k r, ∀ u ∈ s.rows k r, rel { s with tick := s.tick + 1 } u = rel s u - 1 :=
    fun k r u hu => rel_tick (hw k u (h.mem_bottom hu))
  refine ⟨⟨?_, h.ordered.sublist⟩, h.initTick, ?_, h.stamp, h.outside⟩
  · intro k r
    refine (h.ordered.sorted k r).imp_of_mem fun {u v} hu hv huv => ?_
    refine Before.congr (s := s) ?_ rfl rfl rfl rfl huv
    rw [hrel k r u hu, hrel k r v hv]
    omega
  · intro k r u hu
    rw [hrel k r u hu]
    have := h.bound k r u hu
    omega

/-! ## Starting a timer -/

/-- No linked timer of the list that `t` enters is so far overdue that the search takes it
for a later one. -/
def StartOk (c : Config) (s : State) (t : TimerId) : Prop :=
  ∀ u ∈ s.rows (s.timer t).kind (c.level - 1), u ≠ t →
    ((s.timer t).initTick.toNat : Int) - rel s u ≤ 2 ^ 31 + 1

/-- The first row that `rt_timer_start` puts the timer in. -/
def firstRow (c : Config) (s : State) : Nat :=
  c.level - 1 - extraRows c.mask (c.level - 1) (BitVec.ofNat 32 (s.starts + 1))

/-- The deadlines that the search of `rt_timer_start` compares. -/
def searched (s : State) (t : TimerId) (u : TimerId) : Tick :=
  if u = t then s.tick + (s.timer t).initTick else (s.timer u).timeoutTick

section start

variable {c : Config} {s : State} {t : TimerId}

theorem stopsAt_iff (h : Inv c s) (hok : StartOk c s t)
    (hu : u ∈ (timerRemove s t).rows (s.timer t).kind r) :
    stopsAt (searched s t) (s.tick + (s.timer t).initTick) u = true ↔
      ((s.timer t).initTick.toNat : Int) < rel s u := by
  simp only [timerRemove, List.mem_filter, decide_eq_true_eq] at hu
  have hb := h.bound _ r u hu.1
  rw [stopsAt, searched, if_neg hu.2]
  exact stops_iff (h.initTick t) hb (hok u (h.mem_bottom hu.1) hu.2)

theorem row_split (h : Inv c s) (hok : StartOk c s t) (r : Nat) :
    ((timerRemove s t).rows (s.timer t).kind r).Pairwise fun u v =>
      stopsAt (searched s t) (s.tick + (s.timer t).initTick) u = true →
        stopsAt (searched s t) (s.tick + (s.timer t).initTick) v = true := by
  refine ((h.remove t).ordered.sorted _ r).imp_of_mem fun {u v} hu hv huv => ?_
  rw [stopsAt_iff h hok hu, stopsAt_iff h hok hv]
  have : rel s u ≤ rel s v := huv.le
  omega

theorem nodup_of_sorted (hs : ∀ k r, (s.rows k r).Pairwise (Before s)) (k : ListKind) (r : Nat) :
    (s.rows k r).Nodup := by
  refine (hs k r).imp fun {u v} huv => ?_
  rintro rfl
  cases huv with
  | inl h => exact lt_irrefl _ h
  | inr h => exact lt_irrefl _ h.2

/-- The rows after `rt_timer_start`. -/
theorem rtTimerStart_rows (h : Inv c s) (hok : StartOk c s t) (k : ListKind) (r : Nat) :
    (rtTimerStart c s t).rows k r =
      if k = (s.timer t).kind ∧ firstRow c s ≤ r ∧ r < c.level then
        insertSplit (stopsAt (searched s t) (s.tick + (s.timer t).initTick)) t
          ((timerRemove s t).rows k r)
      else (timerRemove s t).rows k r := by
  by_cases hk : k = (s.timer t).kind
  · subst hk
    have hsearched : (fun u => (Function.update s.timer t { s.timer t with
        activated := false, timeoutTick := s.tick + (s.timer t).initTick } u).timeoutTick) =
        searched s t := by
      funext u
      by_cases hu : u = t
      · simp [searched, hu]
      · simp [searched, hu]
    simp only [rtTimerStart, setTimer, timerRemove, update_self, true_and, firstRow]
    by_cases hr : c.level - 1 - extraRows c.mask (c.level - 1) (BitVec.ofNat 32 (s.starts + 1)) ≤ r ∧
        r < c.level
    · have hrow := fun r => before_append (row_split h hok r)
      have hnd := nodup_of_sorted (h.remove t).ordered.sorted (s.timer t).kind
      have hhead := rowHead_eq hnd hrow ((h.remove t).ordered.sublist (s.timer t).kind) r hr.2
      have hins := insertAfter_eq (t := t) (hnd r) (hrow r)
      rw [← hhead] at hins
      rw [if_pos hr, hsearched]
      exact (if_pos hr).trans hins
    · rw [if_neg hr]
      exact if_neg hr
  · rw [if_neg (fun hc => hk hc.1)]
    simp only [rtTimerStart, setTimer, timerRemove, update_of_ne hk]

theorem rtTimerStart_timer (u : TimerId) :
    ((rtTimerStart c s t).timer u).initTick = (s.timer u).initTick ∧
      ((rtTimerStart c s t).timer u).timeoutTick = searched s t u := by
  by_cases hu : u = t
  · subst hu
    simp [rtTimerStart, setTimer, timerRemove, searched]
  · simp [rtTimerStart, setTimer, timerRemove, searched, hu]

theorem rtTimerStart_rel (hu : u ≠ t) : rel (rtTimerStart c s t) u = rel s u := by
  rw [rel, (rtTimerStart_timer u).2, searched, if_neg hu]
  rfl

theorem rtTimerStart_rel_self (hinit : (s.timer t).initTick.toNat < rtTickMaxHalf) :
    rel (rtTimerStart c s t) t = (s.timer t).initTick.toNat := by
  have htick : (rtTimerStart c s t).tick = s.tick := rfl
  rw [rel, (rtTimerStart_timer t).2, searched, if_pos rfl, htick, add_sub_cancel_left,
    BitVec.toInt_eq_toNat_cond, if_pos]
  rw [rtTickMaxHalf] at hinit
  omega

/-- Two other linked timers keep their order. -/
theorem before_start (hu : u ≠ t) (hv : v ≠ t) (huv : Before s u v) :
    Before (rtTimerStart c s t) u v := by
  refine huv.congr ?_ ?_ ?_ ?_ ?_
  · rw [rtTimerStart_rel hu, rtTimerStart_rel hv]
    omega
  · rw [(rtTimerStart_timer u).2, searched, if_neg hu]
  · rw [(rtTimerStart_timer v).2, searched, if_neg hv]
  · exact update_of_ne hu _ _
  · exact update_of_ne hv _ _

/-- The row with the new timer between the earlier and the later deadlines. -/
theorem insertSplit_sorted (h : Inv c s) (hok : StartOk c s t) (r : Nat) :
    (insertSplit (stopsAt (searched s t) (s.tick + (s.timer t).initTick)) t
      ((timerRemove s t).rows (s.timer t).kind r)).Pairwise (Before (rtTimerStart c s t)) := by
  have hself := rtTimerStart_rel_self (c := c) (h.initTick t)
  have hne : ∀ u ∈ (timerRemove s t).rows (s.timer t).kind r, u ≠ t := by
    intro u hu
    simp only [timerRemove, List.mem_filter, decide_eq_true_eq] at hu
    exact hu.2
  have hstop : ∀ u ∈ (timerRemove s t).rows (s.timer t).kind r,
      (stopsAt (searched s t) (s.tick + (s.timer t).initTick) u = true ↔
        rel (rtTimerStart c s t) t < rel (rtTimerStart c s t) u) := by
    intro u hu
    rw [stopsAt_iff h hok hu, hself, rtTimerStart_rel (hne u hu)]
  refine insertSplit_pairwise ?_ ?_ ?_ ?_
  · refine ((h.remove t).ordered.sorted _ r).imp_of_mem fun {u v} hu hv huv => ?_
    exact before_start (hne u hu) (hne v hv) huv
  · intro u hu hp
    have hle : rel (rtTimerStart c s t) u ≤ rel (rtTimerStart c s t) t := by
      rw [← not_lt, ← hstop u hu, hp]
      simp
    obtain hlt | heq := hle.lt_or_eq
    · exact .inl hlt
    · refine .inr ⟨rel_eq heq, ?_⟩
      have hstamp : (rtTimerStart c s t).stamp u = s.stamp u := update_of_ne (hne u hu) _ _
      have hnew : (rtTimerStart c s t).stamp t = s.starts + 1 := update_self _ _ _
      have := h.stamp u
      omega
  · intro u hu hp
    exact .inl ((hstop u hu).mp hp)
  · intro u hu v hv hpu hpv
    have hle : rel (rtTimerStart c s t) u ≤ rel (rtTimerStart c s t) t := by
      rw [← not_lt, ← hstop u hu, hpu]
      simp
    exact .inl (lt_of_le_of_lt hle ((hstop v hv).mp hpv))

theorem Inv.start (h : Inv c s) (hok : StartOk c s t) : Inv c (rtTimerStart c s t) := by
  have hrem := h.remove t
  have hrows := rtTimerStart_rows h hok
  have hne : ∀ k r, ∀ u ∈ (timerRemove s t).rows k r, u ≠ t := by
    intro k r u hu
    simp only [timerRemove, List.mem_filter, decide_eq_true_eq] at hu
    exact hu.2
  refine ⟨⟨?_, ?_⟩, ?_, ?_, ?_, ?_⟩
  · intro k r
    rw [hrows]
    split
    · rename_i hc
      rw [hc.1]
      exact insertSplit_sorted h hok r
    · refine (hrem.ordered.sorted k r).imp_of_mem fun {u v} hu hv huv => ?_
      exact before_start (hne k r u hu) (hne k r v hv) huv
  · intro k r hr
    have hsub := hrem.ordered.sublist k r hr
    rw [hrows, hrows]
    by_cases hk : k = (s.timer t).kind
    · subst hk
      by_cases hfirst : firstRow c s ≤ r
      · rw [if_pos ⟨rfl, hfirst, by omega⟩, if_pos ⟨rfl, by omega, hr⟩]
        exact insertSplit_sublist hsub
      · rw [if_neg (fun hc => hfirst hc.2.1)]
        split
        · exact sublist_insertSplit hsub (row_split h hok r)
        · exact hsub
    · rw [if_neg (fun hc => hk hc.1), if_neg (fun hc => hk hc.1)]
      exact hsub
  · intro u
    rw [(rtTimerStart_timer u).1]
    exact h.initTick u
  · intro k r u hu
    by_cases hut : u = t
    · subst hut
      rw [rtTimerStart_rel_self (h.initTick u)]
      exact_mod_cast h.initTick u
    · rw [rtTimerStart_rel hut]
      refine hrem.bound k r u ?_
      rw [hrows] at hu
      split at hu
      · exact (mem_insertSplit.mp hu).resolve_left hut
      · exact hu
  · intro u
    by_cases hut : u = t
    · subst hut
      exact (update_self (f := s.stamp) u (s.starts + 1)).le
    · have hstamp : (rtTimerStart c s t).stamp u = s.stamp u := update_of_ne hut _ _
      have hstarts : (rtTimerStart c s t).starts = s.starts + 1 := rfl
      have := h.stamp u
      omega
  · intro k r hr
    rw [hrows, if_neg (by omega)]
    exact hrem.outside k r hr

end start

/-! ## Runs -/

/-- The deadlines a step compares lie in one half of the tick range: no linked timer is
overdue by so much that it would count as a later one. -/
def Window (c : Config) (s : State) : Event → Prop
  | .start t => StartOk c s t
  | .tickIncrease => ∀ k, ∀ u ∈ s.rows k (c.level - 1), rel s u ≠ -2 ^ 31
  | .checkFinish k =>
    match s.inCallback k with
    | none => True
    | some t =>
      s.pending k ≠ [] → ((s.timer t).periodic && (s.timer t).activated) = true → StartOk c s t
  | _ => True

instance decidableStartOk (c : Config) (s : State) (t : TimerId) : Decidable (StartOk c s t) :=
  inferInstanceAs (Decidable (∀ u ∈ s.rows (s.timer t).kind (c.level - 1), u ≠ t →
    ((s.timer t).initTick.toNat : Int) - rel s u ≤ 2 ^ 31 + 1))

theorem forall_kind {p : ListKind → Prop} : (p .hard ∧ p .soft) ↔ ∀ k, p k := by
  refine ⟨fun h k => ?_, fun h => ⟨h .hard, h .soft⟩⟩
  cases k with
  | hard => exact h.1
  | soft => exact h.2

instance decidableWindow (c : Config) (s : State) : ∀ e, Decidable (Window c s e)
  | .start t => decidableStartOk c s t
  | .tickIncrease => decidable_of_iff _ forall_kind
  | .checkFinish k =>
    match h : s.inCallback k with
    | none => .isTrue (by simp [Window, h])
    | some t => decidable_of_iff
        (s.pending k ≠ [] → ((s.timer t).periodic && (s.timer t).activated) = true → StartOk c s t)
        (by simp only [Window, h])
  | .stop _ | .detach _ | .control _ _ | .checkPop _ => .isTrue trivial

theorem Inv.stop {c : Config} {s : State} (h : Inv c s) (t : TimerId) : Inv c (rtTimerStop s t).1 := by
  rw [rtTimerStop]
  split
  · exact (h.remove t).setTimer t rfl (h.initTick t)
  · exact h

theorem Inv.control {c : Config} {s : State} (h : Inv c s) (t : TimerId) {cmd : Cmd}
    {r : State × Option Tick} (hr : rtTimerControl s t cmd = some r) : Inv c r.1 := by
  cases cmd with
  | setTime time =>
    rw [rtTimerControl] at hr
    split at hr
    · rename_i htime
      cases hr
      exact h.setTimer t rfl htime
    · cases hr
  | setOneshot | setPeriodic =>
    cases hr
    exact h.setTimer t rfl (h.initTick t)
  | getTime | getState | getRemainTime =>
    cases hr
    exact h

theorem Inv.checkPop {c : Config} {s : State} (h : Inv c s) {r : State × TimerId}
    (hr : timerCheckPop c s k = some r) : Inv c r.1 := by
  rw [timerCheckPop] at hr
  split at hr
  · cases hr
  · rename_i t _ _
    split at hr
    · cases hr
      refine Inv.temporary ?_ _ _
      exact (h.remove t).setTimer t rfl (h.initTick t)
    · cases hr

theorem Inv.checkFinish {c : Config} {s : State} (h : Inv c s) {t : TimerId}
    (hok : s.pending k ≠ [] → ((s.timer t).periodic && (s.timer t).activated) = true →
      StartOk c s t) : Inv c (timerCheckFinish c s k t) := by
  simp only [timerCheckFinish]
  split
  · exact h.temporary _ _
  · rename_i hpending
    split
    · rename_i hrestart
      refine Inv.start (Inv.setTimer (h.temporary _ _) t ?_ (h.initTick t)) ?_
      · rfl
      intro u hu hut
      have hold := hok hpending hrestart
      simp only [Timer.setTimer, update_self] at hu
      simpa [rel, Timer.setTimer, hut] using hold u hu hut
    · exact h.temporary _ _

theorem Inv.step {c : Config} {s : State} {e : Event} (h : Inv c s) (hok : Window c s e)
    (hs : step c s e = some s') : Inv c s' := by
  cases e with
  | start t =>
    cases hs
    exact h.start hok
  | stop t =>
    cases hs
    exact h.stop t
  | detach t =>
    cases hs
    exact (h.remove t).setTimer t rfl (h.initTick t)
  | control t cmd =>
    obtain ⟨r, hr, rfl⟩ := Option.map_eq_some_iff.mp hs
    exact h.control t hr
  | tickIncrease =>
    cases hs
    exact h.tick hok
  | checkPop k =>
    rw [Timer.step] at hs
    split at hs
    · obtain ⟨r, hr, rfl⟩ := Option.map_eq_some_iff.mp hs
      exact h.checkPop hr
    · cases hs
  | checkFinish k =>
    obtain ⟨t, ht, rfl⟩ := Option.map_eq_some_iff.mp hs
    rw [Window, ht] at hok
    exact h.checkFinish hok

theorem inv_init {c : Config} (tick : Tick) {timer : TimerId → RtTimer}
    (hinit : ∀ t, (timer t).initTick.toNat < rtTickMaxHalf) :
    Inv c (rtSystemTimerInit tick timer) where
  ordered := ⟨fun _ _ => List.Pairwise.nil, fun _ _ _ => List.Sublist.refl _⟩
  initTick := hinit
  bound := fun _ _ _ hu => absurd hu List.not_mem_nil
  stamp := fun _ => le_refl _
  outside := fun _ _ _ => rfl

/-- Along every run whose steps compare deadlines within half of the tick range, every row
is ordered by deadline and starting order, and is a part of the row below it. -/
theorem timer_lists_ordered (c : Config) (tick : Tick) (timer : TimerId → RtTimer)
    (hinit : ∀ t, (timer t).initTick.toNat < rtTickMaxHalf) (es : List Event) (s : State)
    (hok : Runs.Along (step c) (Window c) (rtSystemTimerInit tick timer) es)
    (hrun : Runs.run (step c) (rtSystemTimerInit tick timer) es = some s) : Ordered c s := by
  have hstep : ∀ s e s', Inv c s → Window c s e → step c s e = some s' → Inv c s' :=
    fun _ _ _ h hok hs => h.step hok hs
  exact (Runs.run_invariant_along hstep (inv_init tick hinit) hok hrun).ordered

/-- Two soft timers, one of them with the longest time that may be asked for. -/
def shortAndLong (t : TimerId) : RtTimer :=
  timerInit (if t = 0 then 1 else 0x7ffffffe) false .soft

def overdueRun : List Event :=
  [.start 0, .tickIncrease, .tickIncrease, .tickIncrease, .tickIncrease, .tickIncrease, .start 1]

theorem timer_lists_not_ordered :
    (∀ t, (shortAndLong t).initTick.toNat < rtTickMaxHalf) ∧
      ∃ s, Runs.run (step ⟨1, 3, by decide⟩) (rtSystemTimerInit 0 shortAndLong) overdueRun = some s ∧
        rel s 0 < rel s 1 ∧ s.rows .soft 0 = [1, 0] ∧ ¬ Ordered ⟨1, 3, by decide⟩ s := by
  refine ⟨?_, _, rfl, by decide +kernel, by decide +kernel, fun h => ?_⟩
  · intro t
    rw [shortAndLong, timerInit]
    split
    · decide
    · decide
  · have hrow : [1, 0].Pairwise (Before _) := h.sorted .soft 0
    have hle := (List.pairwise_pair.mp hrow).le
    revert hle
    decide +kernel

/-- A periodic timer that is started again behind a timer with the same deadline. -/
def pairOfTimers (t : TimerId) : RtTimer := timerInit 2 (t = 0) .hard

def restartRun : List Event :=
  [.start 0, .tickIncrease, .tickIncrease, .start 1, .checkPop .hard, .checkFinish .hard]

theorem timer_lists_ordered_restart :
    ∃ s, Runs.run (step ⟨2, 3, by decide⟩) (rtSystemTimerInit 0xfffffffe pairOfTimers) restartRun =
        some s ∧
      s.rows .hard 1 = [1, 0] ∧ (s.timer 0).timeoutTick = (s.timer 1).timeoutTick ∧
      Ordered ⟨2, 3, by decide⟩ s := by
  refine ⟨_, rfl, by decide +kernel, by decide +kernel, ?_⟩
  refine timer_lists_ordered _ 0xfffffffe pairOfTimers (fun t => ?_) restartRun _ ?_ rfl
  · show (2 : Tick).toNat < rtTickMaxHalf
    decide
  · decide +kernel

end RtThread.Timer
