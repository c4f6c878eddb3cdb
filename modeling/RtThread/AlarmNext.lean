import Mathlib.Data.Int.Order.Basic
import Mathlib.Data.List.Induction
import Mathlib.Data.List.Nodup
import RtThread.AlarmService

/-!
# Which alarm the device is set to

An alarm comes due at its time of day, and when this is the present second, a day later. The
service compares with the current alarm without looking whether it is still started: a one-shot
alarm stops itself and stays the current one.
-/
namespace RtThread.AlarmService

/-- The seconds until an alarm comes due, from 1 to those of a day. -/
def secondsUntil (now : Nat) (t : Tm) : Int :=
  let second : Int := (now % 86400 : Nat)
  if second < alarmMkdaysec t then alarmMkdaysec t - second
  else alarmMkdaysec t + 24 * 3600 - second

/-- If an alarm is started, the current one is, and no other comes due earlier. -/
def Next (s : State) : Prop :=
  (∃ a ∈ s.container.head, a.start = true) →
    ∃ a ∈ s.container.head, a.start = true ∧ s.container.current = some a.id ∧
      ∀ b ∈ s.container.head, b.start = true →
        secondsUntil s.now a.wktime ≤ secondsUntil s.now b.wktime

instance (s : State) : Decidable (Next s) :=
  inferInstanceAs (Decidable (_ → _))

/-- The service before its first call. -/
def initial : State := ⟨rtAlarmSystemInit, 0⟩

/-- The alarm that an operation stops. -/
def Op.stopped : Op → Option Nat
  | .stop id | .delete id | .control id _ _ _ => some id
  | .create _ _ _ | .start _ | .update => none

/-- The alarm that an operation starts. -/
def Op.starts : Op → Option Nat
  | .start id => some id
  | .create _ _ _ | .stop _ | .delete _ | .control _ _ _ _ | .update => none

/-- The operation scans all alarms again. -/
def Op.rescans (c : Container) : Op → Bool
  | .update => true
  | .stop id | .control id _ _ _ => (c.find id).any (·.start)
  | .delete id => c.current = some id
  | .create _ _ _ | .start _ => false

/-- The alarm of a call exists, and the one that is created does not yet. -/
def Op.valid (c : Container) : Op → Bool
  | .create id _ _ => (c.find id).isNone
  | .start id | .stop id | .delete id | .control id _ _ _ => (c.find id).isSome
  | .update => true

variable (softRtc : Bool) (device : RtRtcWkalarm → RtRtcWkalarm)

/-- The alarms that stay started when the overtime ones have been woken up. -/
def remaining (c : Container) (stopped : Option Nat) (waking : Nat) : List RtAlarm :=
  ((c.head.filter fun a => some a.id ≠ stopped).map
    fun a => (alarmWakeup softRtc device (gmtimeR waking) a).1).filter (·.start)

/-- Where all alarms that stay started are a whole day away, the current one is among them. -/
def Settles (c : Container) (call : Call) : Prop :=
  let alarms := remaining softRtc device c call.op.stopped call.before
  alarms = [] ∨ (∃ a ∈ alarms, secondsUntil call.now a.wktime < 24 * 3600) ∨
    ∃ a ∈ alarms, c.current = some a.id

/-- No started alarm has come due since the last step. -/
def Idle (s : State) (now : Nat) : Prop :=
  ∀ a ∈ s.container.head, a.start = true → (now : Int) - s.now < secondsUntil s.now a.wktime

/-- An alarm that becomes started is compared with one that is, and that is not a whole day
away. -/
def Comparable (c : Container) (call : Call) : Prop :=
  ∀ a ∈ c.head, call.op.starts = some a.id → a.start = false →
    (alarmSetup softRtc a.flag (gmtimeR call.before) a.wktime).2 = true →
    c.current = none ∨ ∃ b ∈ c.head, c.current = some b.id ∧ b.start = true ∧
      secondsUntil call.now b.wktime < 24 * 3600

/-- The calls that leave the service with the next alarm. -/
def Permitted (s : State) (call : Call) : Prop :=
  s.now ≤ call.before ∧ call.op.valid s.container = true ∧
    if call.op.rescans s.container then Settles softRtc device s.container call
    else Idle s call.now ∧ Comparable softRtc s.container call

instance (s : State) (now : Nat) : Decidable (Idle s now) :=
  inferInstanceAs (Decidable (∀ a ∈ s.container.head, a.start = true →
    (now : Int) - s.now < secondsUntil s.now a.wktime))

instance (c : Container) (call : Call) : Decidable (Comparable softRtc c call) :=
  inferInstanceAs (Decidable (∀ a ∈ c.head, call.op.starts = some a.id → a.start = false →
    (alarmSetup softRtc a.flag (gmtimeR call.before) a.wktime).2 = true →
    c.current = none ∨ ∃ b ∈ c.head, c.current = some b.id ∧ b.start = true ∧
      secondsUntil call.now b.wktime < 24 * 3600))

instance (c : Container) (call : Call) : Decidable (Settles softRtc device c call) :=
  inferInstanceAs (Decidable (_ ∨ _ ∨ _))

instance (s : State) (call : Call) : Decidable (Permitted softRtc device s call) :=
  inferInstanceAs (Decidable (s.now ≤ call.before ∧ call.op.valid s.container = true ∧
    if call.op.rescans s.container then Settles softRtc device s.container call
    else Idle s call.now ∧ Comparable softRtc s.container call))

/-- A time of day that an alarm is set up with. -/
structure InDay (t : Tm) : Prop where
  sec : 0 ≤ t.tmSec ∧ t.tmSec ≤ 60
  min : 0 ≤ t.tmMin ∧ t.tmMin ≤ 59
  hour : 0 ≤ t.tmHour ∧ t.tmHour ≤ 23

variable {t now : Tm} {n n' scanning waking : Nat} {a b : RtAlarm} {c : Container}
  {f : RtAlarm → RtAlarm}

theorem InDay.daysec (h : InDay t) : 0 ≤ alarmMkdaysec t ∧ alarmMkdaysec t ≤ 86400 := by
  have hs := h.sec
  have hm := h.min
  have hh := h.hour
  unfold alarmMkdaysec
  omega

theorem gmtimeR_daysec (now : Nat) : alarmMkdaysec (gmtimeR now) = (now % 86400 : Nat) := by
  unfold alarmMkdaysec gmtimeR
  dsimp only
  omega

/-- The second of a time is a second of the clock. -/
theorem gmtimeR_sec (now : Nat) : 0 ≤ (gmtimeR now).tmSec ∧ (gmtimeR now).tmSec ≤ 59 := by
  unfold gmtimeR
  dsimp only
  omega

theorem inDay_gmtimeR (now : Nat) : InDay (gmtimeR now) := by
  unfold gmtimeR
  constructor
  · dsimp only
    omega
  · dsimp only
    omega
  · dsimp only
    omega

theorem inDay_hourAfter (hn : InDay now) (ht : InDay t) : InDay (hourAfter now t) := by
  have hh := hn.hour
  refine ⟨ht.sec, ht.min, ?_⟩
  unfold hourAfter
  dsimp only
  split_ifs <;> omega

theorem inDay_minuteAfter (hn : InDay now) (ht : InDay t) : InDay (minuteAfter now t) := by
  have hm := hn.min
  unfold minuteAfter
  split_ifs with h
  · exact ⟨ht.sec, by simp, (inDay_hourAfter hn ht).hour⟩
  · exact ⟨ht.sec, by dsimp only; omega, hn.hour⟩

theorem inDay_secondAfter (hn : InDay now) (ht : InDay t) : InDay (secondAfter now t) := by
  have hs := hn.sec
  unfold secondAfter
  split_ifs with h
  · exact ⟨by simp, (inDay_minuteAfter hn ht).min, (inDay_minuteAfter hn ht).hour⟩
  · exact ⟨by dsimp only; omega, hn.min, hn.hour⟩

theorem inDay_setupTime (now : Nat) (t : Tm) : InDay (setupTime (gmtimeR now) t) := by
  have hn := inDay_gmtimeR now
  have hs := gmtimeR_sec now
  have hm := hn.min
  have hh := hn.hour
  unfold setupTime orNow
  constructor
  · dsimp only
    split_ifs <;> omega
  · dsimp only
    split_ifs <;> omega
  · dsimp only
    split_ifs <;> omega

/-- Whatever kind of alarm is set up, its time is in the day. -/
theorem inDay_alarmSetup (flag : AlarmFlag) (now : Nat) (t : Tm) :
    InDay (alarmSetup softRtc flag (gmtimeR now) t).1 := by
  have hn := inDay_gmtimeR now
  have ht := inDay_setupTime now t
  have hflag : InDay (setupFlag flag (gmtimeR now) (setupTime (gmtimeR now) t)).1 := by
    cases flag with
    | second => exact inDay_secondAfter hn ht
    | minute => exact inDay_minuteAfter hn ht
    | hour => exact inDay_hourAfter hn ht
    | daily => exact ht
    | oneshot | weekly | monthly | yearly => exact ⟨ht.sec, ht.min, ht.hour⟩
    | other => exact ht
  unfold alarmSetup
  dsimp only
  split_ifs
  · refine ⟨?_, hflag.min, hflag.hour⟩
    unfold rtAlarmDelay
    dsimp only
    split_ifs <;> omega
  · exact hflag

/-- A time that lies ahead comes nearer. -/
theorem secondsUntil_later (hle : n ≤ n') (h : (n' : Int) - n < secondsUntil n t) (ht : InDay t) :
    secondsUntil n' t = secondsUntil n t - (n' - n) := by
  have hday := ht.daysec
  unfold secondsUntil at h ⊢
  dsimp only at h ⊢
  generalize alarmMkdaysec t = sec at hday h ⊢
  split_ifs at h ⊢ <;> omega

section Scanning

variable {secNow : Int} {head : List RtAlarm} {scan : Scan}

/-- What a scan has found of some alarms: the least distance after now and before it. -/
structure Scanned (secNow : Int) (head : List RtAlarm) (scan : Scan) : Prop where
  next_bound : scan.secNext ≤ 24 * 3600
  next_le : ∀ a ∈ head, a.start = true → 0 < alarmMkdaysec a.wktime - secNow →
    scan.secNext ≤ alarmMkdaysec a.wktime - secNow
  next : scan.secNext < 24 * 3600 → ∃ a ∈ head, a.start = true ∧ scan.almNext = some a.id ∧
    0 < scan.secNext ∧ alarmMkdaysec a.wktime - secNow = scan.secNext
  prev_le : ∀ a ∈ head, a.start = true → alarmMkdaysec a.wktime - secNow ≤ 0 →
    scan.secPrev ≤ alarmMkdaysec a.wktime - secNow
  prev : scan.secPrev < 0 → ∃ a ∈ head, a.start = true ∧ scan.almPrev = some a.id ∧
    alarmMkdaysec a.wktime - secNow = scan.secPrev

/-- One alarm more is scanned. -/
theorem Scanned.add (h : Scanned secNow head scan) (a : RtAlarm) :
    Scanned secNow (head ++ [a]) (scanAlarm secNow scan a) := by
  obtain ⟨hbound, hnle, hnext, hple, hprev⟩ := h
  have hold : ∀ {p : RtAlarm → Prop}, (∃ b ∈ head, p b) → ∃ b ∈ head ++ [a], p b := by
    rintro p ⟨b, hb, hp⟩
    exact ⟨b, List.mem_append_left _ hb, hp⟩
  have ha : a ∈ head ++ [a] := by simp
  unfold scanAlarm
  dsimp only
  split_ifs with hstart hpos hless hless
  · refine ⟨by dsimp only; omega, ?_, ?_, ?_, ?_⟩
    · exact List.forall_mem_append.mpr ⟨fun b hb hs hp => le_trans (le_of_lt hless) (hnle b hb hs hp),
        List.forall_mem_singleton.mpr fun _ _ => le_refl _⟩
    · intro _
      exact ⟨a, ha, hstart, rfl, hpos, rfl⟩
    · exact List.forall_mem_append.mpr ⟨hple,
        List.forall_mem_singleton.mpr fun _ hn => absurd hpos (not_lt.mpr hn)⟩
    · exact fun hlt => hold (hprev hlt)
  · refine ⟨hbound, ?_, fun hlt => hold (hnext hlt), ?_, fun hlt => hold (hprev hlt)⟩
    · exact List.forall_mem_append.mpr ⟨hnle,
        List.forall_mem_singleton.mpr fun _ _ => not_lt.mp hless⟩
    · exact List.forall_mem_append.mpr ⟨hple,
        List.forall_mem_singleton.mpr fun _ hn => absurd hpos (not_lt.mpr hn)⟩
  · refine ⟨hbound, ?_, fun hlt => hold (hnext hlt), ?_, ?_⟩
    · exact List.forall_mem_append.mpr ⟨hnle,
        List.forall_mem_singleton.mpr fun _ hp => absurd hp hpos⟩
    · exact List.forall_mem_append.mpr ⟨fun b hb hs hn => le_trans (le_of_lt hless) (hple b hb hs hn),
        List.forall_mem_singleton.mpr fun _ _ => le_refl _⟩
    · intro _
      exact ⟨a, ha, hstart, rfl, rfl⟩
  · refine ⟨hbound, ?_, fun hlt => hold (hnext hlt), ?_, fun hlt => hold (hprev hlt)⟩
    · exact List.forall_mem_append.mpr ⟨hnle,
        List.forall_mem_singleton.mpr fun _ hp => absurd hp hpos⟩
    · exact List.forall_mem_append.mpr ⟨hple,
        List.forall_mem_singleton.mpr fun _ _ => not_lt.mp hless⟩
  · refine ⟨hbound, ?_, fun hlt => hold (hnext hlt), ?_, fun hlt => hold (hprev hlt)⟩
    · exact List.forall_mem_append.mpr ⟨hnle,
        List.forall_mem_singleton.mpr fun hs => absurd hs hstart⟩
    · exact List.forall_mem_append.mpr ⟨hple,
        List.forall_mem_singleton.mpr fun hs => absurd hs hstart⟩

theorem scanned (secNow : Int) (head : List RtAlarm) :
    Scanned secNow head (scanAlarms secNow head) := by
  induction head using List.reverseRecOn with
  | nil => exact ⟨le_refl _, by simp, fun h => absurd h (lt_irrefl _), by simp,
      fun h => absurd h (lt_irrefl _)⟩
  | append_singleton head a ih =>
    have hstep : scanAlarms secNow (head ++ [a]) = scanAlarm secNow (scanAlarms secNow head) a :=
      List.foldl_append
    rw [hstep]
    exact ih.add a

end Scanning

/-- The alarm that a scan finds comes due before all others. -/
theorem found_some {now id : Nat} {head : List RtAlarm}
    (hday : ∀ a ∈ head, a.start = true → InDay a.wktime)
    (h : (scanAlarms (now % 86400 : Nat) head).found = some id) :
    ∃ a ∈ head, a.start = true ∧ id = a.id ∧
      ∀ b ∈ head, b.start = true → secondsUntil now a.wktime ≤ secondsUntil now b.wktime := by
  have hs := scanned (now % 86400 : Nat) head
  unfold Scan.found at h
  split_ifs at h with hnext hprev
  · obtain ⟨a, ha, hstart, hid, hpos, hsec⟩ := hs.next hnext
    refine ⟨a, ha, hstart, Option.some.inj (h.symm.trans hid), fun b hb hbs => ?_⟩
    have haday := (hday a ha hstart).daysec
    have hbday := (hday b hb hbs).daysec
    have hle := hs.next_le b hb hbs
    unfold secondsUntil
    dsimp only
    split_ifs <;> omega
  · obtain ⟨a, ha, hstart, hid, hsec⟩ := hs.prev hprev
    refine ⟨a, ha, hstart, Option.some.inj (h.symm.trans hid), fun b hb hbs => ?_⟩
    have hle := hs.next_le b hb hbs
    have hple := hs.prev_le b hb hbs
    unfold secondsUntil
    dsimp only
    split_ifs <;> omega

/-- A scan that finds nothing leaves out only alarms that are a whole day away. -/
theorem found_none {now : Nat} {head : List RtAlarm}
    (hday : ∀ a ∈ head, a.start = true → InDay a.wktime)
    (h : (scanAlarms (now % 86400 : Nat) head).found = none) (ha : a ∈ head)
    (hstart : a.start = true) : secondsUntil now a.wktime = 24 * 3600 := by
  have hs := scanned (now % 86400 : Nat) head
  unfold Scan.found at h
  split_ifs at h with hnext hprev
  · obtain ⟨b, -, -, hid, -⟩ := hs.next hnext
    exact absurd (h.symm.trans hid) (by simp)
  · obtain ⟨b, -, -, hid, -⟩ := hs.prev hprev
    exact absurd (h.symm.trans hid) (by simp)
  · have haday := (hday a ha hstart).daysec
    have hle := hs.next_le a ha hstart
    have hple := hs.prev_le a ha hstart
    unfold secondsUntil
    dsimp only
    split_ifs <;> omega

section Changes

variable {softRtc device}

/-- A device that reports the alarm it is set to leaves it as it is. -/
theorem alarmSet_eq (hdev : ∀ w, device w = w) (a : RtAlarm) : alarmSet device a = a := by
  unfold alarmSet
  split_ifs with hstart
  · rw [hdev]
  · rfl

theorem change_alarmSet (hdev : ∀ w, device w = w) (c : Container) (id : Nat) :
    c.change id (alarmSet device) = c := by
  have hmap : (c.head.map fun a => if a.id = id then alarmSet device a else a) = c.head := by
    conv_rhs => rw [← List.map_id c.head]
    apply List.map_congr_left
    intro a _
    rw [alarmSet_eq hdev, ite_self]
    rfl
  rw [Container.change, hmap]

theorem arm_eq (hdev : ∀ w, device w = w) (c : Container) (id : Nat) :
    c.arm device id = { c with current := some id } := by
  rw [Container.arm, change_alarmSet hdev]

/-- An alarm that has been woken up is the same one, it is not newly started, and its time stays
in the day. -/
theorem alarmWakeup_spec (hdev : ∀ w, device w = w) (now : Nat) (a : RtAlarm) :
    (alarmWakeup softRtc device (gmtimeR now) a).1.id = a.id ∧
      ((alarmWakeup softRtc device (gmtimeR now) a).1.start = true → a.start = true) ∧
      (InDay a.wktime → InDay (alarmWakeup softRtc device (gmtimeR now) a).1.wktime) := by
  have hn := inDay_gmtimeR now
  by_cases hstart : a.start = true
  · unfold alarmWakeup
    rw [if_pos hstart]
    cases a.flag with
    | oneshot =>
      simp only [alarmSet_eq hdev]
      split_ifs
      · exact ⟨rfl, fun _ => hstart, id⟩
      · exact ⟨rfl, fun _ => hstart, id⟩
    | second => exact ⟨rfl, fun _ => hstart, inDay_secondAfter hn⟩
    | minute =>
      dsimp only
      split_ifs
      · exact ⟨rfl, fun _ => hstart, inDay_minuteAfter hn⟩
      · exact ⟨rfl, fun _ => hstart, fun h => ⟨h.sec, h.min, hn.hour⟩⟩
    | hour =>
      dsimp only
      split_ifs
      · exact ⟨rfl, fun _ => hstart, inDay_hourAfter hn⟩
      · exact ⟨rfl, fun _ => hstart, id⟩
    | daily | weekly | monthly | yearly | other => exact ⟨rfl, fun _ => hstart, id⟩
  · rw [alarmWakeup, if_neg hstart]
    exact ⟨rfl, fun hs => absurd hs hstart, id⟩

/-- What `alarm_update` does to the alarms and to the current one. -/
theorem alarmUpdate_eq (hdev : ∀ w, device w = w) (c : Container) (waking scanning : Nat) :
    (alarmUpdate softRtc device c waking scanning).head =
        c.head.map (fun a => (alarmWakeup softRtc device (gmtimeR waking) a).1) ∧
      (alarmUpdate softRtc device c waking scanning).current =
        ((scanAlarms (scanning % 86400 : Nat) (c.head.map
          fun a => (alarmWakeup softRtc device (gmtimeR waking) a).1)).found).or c.current := by
  by_cases hnil : c.head = []
  · rw [alarmUpdate, if_pos hnil, hnil]
    exact ⟨rfl, rfl⟩
  · have hmap : (c.head.map (alarmWakeup softRtc device (gmtimeR waking))).map Prod.fst =
        c.head.map fun a => (alarmWakeup softRtc device (gmtimeR waking) a).1 := by
      rw [List.map_map]
      rfl
    rw [alarmUpdate, if_neg hnil, gmtimeR_daysec]
    simp only [Container.rearm, Container.wake, hmap]
    cases (scanAlarms (scanning % 86400 : Nat) (c.head.map
        fun a => (alarmWakeup softRtc device (gmtimeR waking) a).1)).found with
    | some id => simp [arm_eq hdev]
    | none => cases c.current with
      | none => simp
      | some id => simp [change_alarmSet hdev]

theorem release_eq (hdev : ∀ w, device w = w) (c : Container) (id : Nat) :
    (c.release device id).head =
        c.head.map (fun a => if a.id = id then { a with start := false } else a) ∧
      (c.release device id).current = if c.current = some id then none else c.current := by
  unfold Container.release
  dsimp only
  rw [change_alarmSet hdev]
  by_cases hcur : c.current = some id
  · rw [if_pos hcur, if_pos (by exact hcur)]
    exact ⟨rfl, rfl⟩
  · rw [if_neg hcur, if_neg (by exact hcur)]
    exact ⟨rfl, rfl⟩

end Changes

/-- What every run keeps, besides the current alarm being the next one. -/
structure Kept (c : Container) : Prop where
  ids : (c.head.map (·.id)).Nodup
  inDay : ∀ a ∈ c.head, a.start = true → InDay a.wktime
  current : ∀ id, c.current = some id → ∃ a ∈ c.head, a.id = id

theorem Kept.inj (h : Kept c) (ha : a ∈ c.head) (hb : b ∈ c.head) (hid : a.id = b.id) : a = b :=
  List.inj_on_of_nodup_map h.ids ha hb hid

theorem Kept.find (h : Kept c) (ha : a ∈ c.head) : c.find a.id = some a := by
  have hsome : (c.find a.id).isSome := List.find?_isSome.mpr ⟨a, ha, by simp⟩
  obtain ⟨b, hb⟩ := Option.isSome_iff_exists.mp hsome
  have hid : b.id = a.id := by simpa using List.find?_some hb
  rw [hb, h.inj (List.mem_of_find?_eq_some hb) ha hid]

theorem find_some {id : Nat} (h : c.find id = some a) : a ∈ c.head ∧ a.id = id :=
  ⟨List.mem_of_find?_eq_some h, by simpa using List.find?_some h⟩

/-- The alarms may change as long as they stay the same ones and in the day. -/
theorem Kept.map {c' : Container} (h : Kept c) (hhead : c'.head = c.head.map f)
    (hid : ∀ a ∈ c.head, (f a).id = a.id)
    (hday : ∀ a ∈ c.head, (f a).start = true → InDay (f a).wktime)
    (hcur : ∀ id, c'.current = some id → ∃ a ∈ c.head, a.id = id) : Kept c' := by
  refine ⟨?_, ?_, ?_⟩
  · have hids : c'.head.map (·.id) = c.head.map (·.id) := by
      rw [hhead, List.map_map]
      exact List.map_congr_left hid
    rw [hids]
    exact h.ids
  · rw [hhead]
    exact List.forall_mem_map.mpr hday
  · intro id hc
    obtain ⟨a, ha, rfl⟩ := hcur id hc
    exact ⟨f a, by rw [hhead]; exact List.mem_map_of_mem ha, hid a ha⟩

section Rescanning

variable {softRtc device}

/-- The alarms that stay started are those of the list that `alarm_update` leaves. -/
theorem remaining_eq (c : Container) (waking : Nat) :
    remaining softRtc device c none waking =
      (c.head.map fun a => (alarmWakeup softRtc device (gmtimeR waking) a).1).filter (·.start) := by
  simp [remaining]

theorem remaining_release (hdev : ∀ w, device w = w) (c : Container) (id waking : Nat) :
    remaining softRtc device (c.release device id) none waking =
      remaining softRtc device c (some id) waking := by
  rw [remaining_eq, (release_eq hdev c id).1, remaining]
  induction c.head with
  | nil => rfl
  | cons a head ih =>
    by_cases ha : a.id = id
    · have hstop : (alarmWakeup softRtc device (gmtimeR waking) { a with start := false }).1.start =
          false := by
        by_contra hs
        have hstart := (@alarmWakeup_spec softRtc device hdev waking
          { a with start := false }).2.1 (by simpa using hs)
        cases hstart
      rw [List.map_cons, if_pos ha, List.map_cons, List.filter_cons_of_neg (by simp [hstop]), ih,
        List.filter_cons_of_neg (by simp [ha])]
    · rw [List.map_cons, if_neg ha, List.map_cons, List.filter_cons, ih,
        List.filter_cons_of_pos (by simp [ha]), List.map_cons, List.filter_cons]

/-- A scan leaves the next alarm, where its alarms settle. -/
theorem Kept.update (h : Kept c) (hdev : ∀ w, device w = w)
    (hset : remaining softRtc device c none waking = [] ∨
      (∃ a ∈ remaining softRtc device c none waking,
        secondsUntil scanning a.wktime < 24 * 3600) ∨
      ∃ a ∈ remaining softRtc device c none waking, c.current = some a.id) :
    Kept (alarmUpdate softRtc device c waking scanning) ∧
      Next ⟨alarmUpdate softRtc device c waking scanning, scanning⟩ := by
  obtain ⟨hhead, hcur⟩ := @alarmUpdate_eq softRtc device hdev c waking scanning
  have hwake := @alarmWakeup_spec softRtc device hdev waking
  rw [remaining_eq, ← hhead] at hset
  rw [← hhead] at hcur
  have hday : ∀ a ∈ c.head, (alarmWakeup softRtc device (gmtimeR waking) a).1.start = true →
      InDay (alarmWakeup softRtc device (gmtimeR waking) a).1.wktime := by
    intro a ha hs
    exact (hwake a).2.2 (h.inDay a ha ((hwake a).2.1 hs))
  have hday' : ∀ a ∈ (alarmUpdate softRtc device c waking scanning).head, a.start = true →
      InDay a.wktime := by
    rw [hhead]
    exact List.forall_mem_map.mpr hday
  constructor
  · refine h.map hhead (fun a _ => (hwake a).1) hday fun id hid => ?_
    rw [hcur] at hid
    cases hfound : (scanAlarms (scanning % 86400 : Nat)
        (alarmUpdate softRtc device c waking scanning).head).found with
    | none =>
      rw [hfound, Option.none_or] at hid
      exact h.current id hid
    | some found =>
      obtain ⟨a, ha, -, hfid, -⟩ := found_some hday' hfound
      rw [hfound, Option.some_or] at hid
      rw [hhead] at ha
      obtain ⟨b, hb, rfl⟩ := List.mem_map.mp ha
      exact ⟨b, hb, by rw [← (hwake b).1, ← hfid, Option.some.inj hid]⟩
  · rintro ⟨s, hs, hstart⟩
    dsimp only at hs ⊢
    rw [hcur]
    cases hfound : (scanAlarms (scanning % 86400 : Nat)
        (alarmUpdate softRtc device c waking scanning).head).found with
    | some found =>
      obtain ⟨a, ha, has, rfl, hle⟩ := found_some hday' hfound
      exact ⟨a, ha, has, by rw [Option.some_or], hle⟩
    | none =>
      have hfar : ∀ a ∈ (alarmUpdate softRtc device c waking scanning).head, a.start = true →
          secondsUntil scanning a.wktime = 24 * 3600 :=
        fun a ha has => found_none hday' hfound ha has
      rcases hset with hnil | ⟨a, ha, hlt⟩ | ⟨a, ha, hc⟩
      · exact absurd hstart (List.filter_eq_nil_iff.mp hnil s hs)
      · obtain ⟨ha, has⟩ := List.mem_filter.mp ha
        exact absurd (hfar a ha has) (ne_of_lt hlt)
      · obtain ⟨ha, has⟩ := List.mem_filter.mp ha
        refine ⟨a, ha, has, by rw [Option.none_or, hc], fun b hb hbs => ?_⟩
        rw [hfar a ha has, hfar b hb hbs]

theorem Kept.release (h : Kept c) (hdev : ∀ w, device w = w) (id : Nat) :
    Kept (c.release device id) := by
  obtain ⟨hhead, hcur⟩ := release_eq hdev c id
  refine h.map hhead (fun a _ => ?_) (fun a ha hs => ?_) fun i hi => ?_
  · split_ifs <;> rfl
  · split_ifs at hs ⊢ with hid
    exact h.inDay a ha hs
  · rw [hcur] at hi
    split_ifs at hi
    exact h.current i hi

/-- An alarm that is stopped leaves the next one of the others, where they settle. -/
theorem Kept.stopped (h : Kept c) (hdev : ∀ w, device w = w) {id : Nat}
    (hset : remaining softRtc device c (some id) waking = [] ∨
      (∃ a ∈ remaining softRtc device c (some id) waking,
        secondsUntil scanning a.wktime < 24 * 3600) ∨
      ∃ a ∈ remaining softRtc device c (some id) waking, c.current = some a.id) :
    Kept (alarmUpdate softRtc device (c.release device id) waking scanning) ∧
      Next ⟨alarmUpdate softRtc device (c.release device id) waking scanning, scanning⟩ := by
  refine (h.release hdev id).update hdev ?_
  rw [remaining_release hdev]
  refine hset.imp_right (Or.imp_right ?_)
  rintro ⟨a, ha, hc⟩
  refine ⟨a, ha, ?_⟩
  have hne : some a.id ≠ some id := by
    obtain ⟨b, hb, rfl⟩ := List.mem_map.mp (List.mem_filter.mp ha).1
    rw [(alarmWakeup_spec hdev waking b).1]
    simpa using (List.mem_filter.mp hb).2
  rw [(release_eq hdev c id).2, hc, if_neg hne]

/-- An alarm that has been stopped is not started after the scan. -/
theorem start_update_release (hdev : ∀ w, device w = w) {id : Nat}
    (ha : a ∈ (alarmUpdate softRtc device (c.release device id) waking scanning).head)
    (hid : a.id = id) : a.start = false := by
  rw [(alarmUpdate_eq hdev _ waking scanning).1, (release_eq hdev c id).1, List.map_map] at ha
  obtain ⟨b, hb, rfl⟩ := List.mem_map.mp ha
  have hspec := @alarmWakeup_spec softRtc device hdev waking
    (if b.id = id then { b with start := false } else b)
  by_contra hs
  have hstart := hspec.2.1 (by simpa using hs)
  have hbid : b.id = id := by
    have hsame := hspec.1.symm.trans hid
    split_ifs at hsame with hb'
    · exact hb'
    · exact hsame
  rw [if_pos hbid] at hstart
  cases hstart

end Rescanning

/-- Time goes on to before the next alarm. -/
theorem Next.later (h : Next ⟨c, n⟩) (hday : ∀ a ∈ c.head, a.start = true → InDay a.wktime)
    (hle : n ≤ n') (hidle : Idle ⟨c, n⟩ n') : Next ⟨c, n'⟩ := by
  intro hany
  obtain ⟨a, ha, hs, hcur, hmin⟩ := h hany
  refine ⟨a, ha, hs, hcur, fun b hb hbs => ?_⟩
  have hab := hmin b hb hbs
  have hla := secondsUntil_later hle (hidle a ha hs) (hday a ha hs)
  have hlb := secondsUntil_later hle (hidle b hb hbs) (hday b hb hbs)
  dsimp only at hab ⊢
  omega

/-- An alarm that is not started is changed, and stays so. -/
theorem Next.change (h : Next ⟨c, n⟩) {id : Nat}
    (hoff : ∀ a ∈ c.head, a.id = id → a.start = false) (hf : ∀ a, (f a).start = false) :
    Next ⟨c.change id f, n⟩ := by
  have hmem : ∀ a, a.start = true → (a ∈ (c.change id f).head ↔ a ∈ c.head) := by
    intro a hs
    unfold Container.change
    rw [List.mem_map]
    constructor
    · rintro ⟨b, hb, rfl⟩
      split_ifs at hs ⊢ with hid
      · rw [hf] at hs
        cases hs
      · exact hb
    · intro ha
      refine ⟨a, ha, if_neg fun hid => ?_⟩
      rw [hoff a ha hid] at hs
      cases hs
  rintro ⟨s, hs, hstart⟩
  obtain ⟨a, ha, has, hcur, hmin⟩ := h ⟨s, (hmem s hstart).mp hs, hstart⟩
  exact ⟨a, (hmem a has).mpr ha, has, hcur, fun b hb hbs => hmin b ((hmem b hbs).mp hb) hbs⟩

theorem Kept.change (h : Kept c) {id : Nat} (hid : ∀ a, (f a).id = a.id)
    (hday : ∀ a ∈ c.head, a.id = id → (f a).start = true → InDay (f a).wktime) :
    Kept (c.change id f) := by
  refine h.map rfl (fun a _ => ?_) (fun a ha hs => ?_) h.current
  · split_ifs
    · exact hid a
    · rfl
  · split_ifs at hs ⊢ with hi
    · exact hday a ha hi hs
    · exact h.inDay a ha hs

/-- The comparison puts first what comes due first. -/
theorem comesFirst_spec {now : Nat} {old new : Tm} (ho : InDay old) (hn : InDay new)
    (hlt : secondsUntil now old < 24 * 3600) :
    if comesFirst (alarmMkdaysec (gmtimeR now)) (alarmMkdaysec old) (alarmMkdaysec new) then
      secondsUntil now new ≤ secondsUntil now old
    else secondsUntil now old ≤ secondsUntil now new := by
  have hod := ho.daysec
  have hnd := hn.daysec
  rw [gmtimeR_daysec]
  unfold secondsUntil at hlt ⊢
  unfold comesFirst
  dsimp only at hlt ⊢
  generalize alarmMkdaysec old = secOld at hod hlt ⊢
  generalize alarmMkdaysec new = secNew at hnd ⊢
  simp only [decide_eq_true_eq]
  split_ifs at hlt ⊢ <;> omega

section Starting

variable {softRtc device}

/-- The alarms of a container in which one alarm has been started. -/
theorem mem_started {id : Nat}
    (hb : b ∈ (c.change id fun a => { a with wktime := t, start := true }).head) :
    b.wktime = t ∧ b.id = id ∨ b ∈ c.head ∧ b.id ≠ id := by
  obtain ⟨a, ha, rfl⟩ := List.mem_map.mp hb
  by_cases hid : a.id = id
  · rw [if_pos hid]
    exact Or.inl ⟨rfl, hid⟩
  · rw [if_neg hid]
    exact Or.inr ⟨ha, hid⟩

/-- An alarm that is started and comes due first becomes the current one, and no other does. -/
theorem start_next (h : Kept c) (hnext : Next ⟨c, n⟩) {x : RtAlarm} (hx : x ∈ c.head)
    (hoff : x.start = false) (ht : InDay t) (hdev : ∀ w, device w = w)
    (hcmp : c.current = none ∨ ∃ b ∈ c.head, c.current = some b.id ∧ b.start = true ∧
      secondsUntil n b.wktime < 24 * 3600) :
    ∃ c', (match c.current with
        | none => some ((c.change x.id fun a => { a with wktime := t, start := true }).arm device
            x.id)
        | some cur =>
          ((c.change x.id fun a => { a with wktime := t, start := true }).find cur).bind fun b =>
            if comesFirst (alarmMkdaysec (gmtimeR n)) (alarmMkdaysec b.wktime) (alarmMkdaysec t) then
              some ((c.change x.id fun a => { a with wktime := t, start := true }).arm device x.id)
            else some (c.change x.id fun a => { a with wktime := t, start := true })) = some c' ∧
      Kept c' ∧ Next ⟨c', n⟩ := by
  obtain ⟨started, hstarted⟩ : ∃ started, started =
      c.change x.id fun a => { a with wktime := t, start := true } := ⟨_, rfl⟩
  have hkept : Kept started := by
    rw [hstarted]
    exact h.change (fun _ => rfl) fun a ha hid _ => ht
  have hxmem : ({ x with wktime := t, start := true } : RtAlarm) ∈ started.head := by
    rw [hstarted]
    exact List.mem_map.mpr ⟨x, hx, if_pos rfl⟩
  have harm : Kept { started with current := some x.id } :=
    ⟨hkept.ids, hkept.inDay, fun i hi => ⟨_, hxmem, Option.some.inj hi⟩⟩
  have hold : ∀ {b : RtAlarm}, b ∈ started.head →
      b.wktime = t ∧ b.id = x.id ∨ b ∈ c.head ∧ b.id ≠ x.id := by
    intro b hb
    rw [hstarted] at hb
    exact mem_started hb
  rw [← hstarted]
  rcases hcmp with hnone | ⟨b, hb, hcur, hbs, hlt⟩
  · rw [hnone]
    refine ⟨_, rfl, by rw [arm_eq hdev]; exact harm, ?_⟩
    rw [arm_eq hdev]
    intro _
    refine ⟨_, hxmem, rfl, rfl, fun a ha has => ?_⟩
    rcases hold ha with ⟨hat, -⟩ | ⟨ha, -⟩
    · rw [hat]
    · obtain ⟨a', -, -, hac, -⟩ := hnext ⟨a, ha, has⟩
      exact absurd (hnone.symm.trans hac) (by simp)
  · obtain ⟨a, ha, has, hac, hmin⟩ := hnext ⟨b, hb, hbs⟩
    obtain rfl : a = b := h.inj ha hb (Option.some.inj (hac.symm.trans hcur))
    have hne : a.id ≠ x.id := by
      intro hid
      rw [h.inj ha hx hid, hoff] at has
      cases has
    have hamem : a ∈ started.head := by
      rw [hstarted]
      exact List.mem_map.mpr ⟨a, ha, if_neg hne⟩
    have hspec := comesFirst_spec (h.inDay a ha has) ht hlt
    rw [hcur]
    dsimp only
    rw [hkept.find hamem, Option.bind_some]
    split_ifs with hfirst
    · rw [if_pos hfirst] at hspec
      refine ⟨_, rfl, by rw [arm_eq hdev]; exact harm, ?_⟩
      rw [arm_eq hdev]
      intro _
      refine ⟨_, hxmem, rfl, rfl, fun b' hb' hbs' => ?_⟩
      rcases hold hb' with ⟨hbt, -⟩ | ⟨hb', -⟩
      · rw [hbt]
      · exact le_trans hspec (hmin b' hb' hbs')
    · rw [if_neg hfirst] at hspec
      refine ⟨_, rfl, hkept, ?_⟩
      intro _
      refine ⟨a, hamem, has, by rw [hstarted]; exact hcur, fun b' hb' hbs' => ?_⟩
      rcases hold hb' with ⟨hbt, -⟩ | ⟨hb', -⟩
      · rw [hbt]
        exact hspec
      · exact hmin b' hb' hbs'

end Starting

variable {softRtc device}

theorem start_kept (h : Kept c) (hdev : ∀ w, device w = w) {id setting : Nat}
    (hnext : Next ⟨c, n⟩) (hid : (c.find id).isSome = true)
    (hcmp : ∀ a ∈ c.head, a.id = id → a.start = false →
      (alarmSetup softRtc a.flag (gmtimeR setting) a.wktime).2 = true →
      c.current = none ∨ ∃ b ∈ c.head, c.current = some b.id ∧ b.start = true ∧
        secondsUntil n b.wktime < 24 * 3600) :
    ∃ c', rtAlarmStart softRtc device c id setting n = some c' ∧ Kept c' ∧ Next ⟨c', n⟩ := by
  obtain ⟨x, hx⟩ := Option.isSome_iff_exists.mp hid
  obtain ⟨hmem, rfl⟩ := find_some hx
  unfold rtAlarmStart
  simp only [hx, Option.bind_eq_bind, Option.bind_some]
  by_cases hstart : x.start = true
  · rw [if_pos hstart]
    exact ⟨c, rfl, h, hnext⟩
  · have hoff : x.start = false := by simpa using hstart
    have hday := inDay_alarmSetup softRtc x.flag setting x.wktime
    rw [if_neg hstart]
    cases hvalid : (alarmSetup softRtc x.flag (gmtimeR setting) x.wktime).2 with
    | true =>
      exact start_next h hnext hmem hoff hday hdev (hcmp x hmem rfl hoff hvalid)
    | false =>
      refine ⟨_, rfl, h.change (fun _ => rfl) (fun a _ _ hs => absurd hs (by simp)),
        hnext.change (fun a ha hai => ?_) fun _ => rfl⟩
      rw [h.inj ha hmem hai, hoff]

theorem create_kept (h : Kept c) {id : Nat} (flag : AlarmFlag) (t : Tm) (hnext : Next ⟨c, n⟩)
    (hid : (c.find id).isNone = true) :
    ∃ c', rtAlarmCreate c id flag t = some c' ∧ Kept c' ∧ Next ⟨c', n⟩ := by
  have hnone : c.find id = none := Option.isNone_iff_eq_none.mp hid
  have hnew : ∀ a ∈ c.head, a.id ≠ id := by simpa using List.find?_eq_none.mp hnone
  refine ⟨_, by rw [rtAlarmCreate, hnone]; rfl, ⟨?_, ?_, ?_⟩, ?_⟩
  · rw [List.map_cons, List.nodup_cons]
    refine ⟨fun hm => ?_, h.ids⟩
    obtain ⟨a, ha, hai⟩ := List.mem_map.mp hm
    exact hnew a ha hai
  · exact List.forall_mem_cons.mpr ⟨fun hs => absurd hs (by simp), h.inDay⟩
  · intro i hi
    obtain ⟨a, ha, hai⟩ := h.current i hi
    exact ⟨a, List.mem_cons_of_mem _ ha, hai⟩
  · rintro ⟨s, hs, hstart⟩
    obtain rfl | hs := List.mem_cons.mp hs
    · cases hstart
    · obtain ⟨a, ha, has, hcur, hmin⟩ := hnext ⟨s, hs, hstart⟩
      refine ⟨a, List.mem_cons_of_mem _ ha, has, hcur, List.forall_mem_cons.mpr ⟨?_, hmin⟩⟩
      exact fun hs => absurd hs (by simp)

/-- A call of `rt_alarm_stop` leaves the next alarm, and the one it stops is not started. -/
theorem stop_kept (h : Kept c) (hdev : ∀ w, device w = w) {id : Nat}
    (hid : (c.find id).isSome = true)
    (hnext : (c.find id).any (·.start) = false → Next ⟨c, scanning⟩)
    (hset : (c.find id).any (·.start) = true → remaining softRtc device c (some id) waking = [] ∨
      (∃ a ∈ remaining softRtc device c (some id) waking,
        secondsUntil scanning a.wktime < 24 * 3600) ∨
      ∃ a ∈ remaining softRtc device c (some id) waking, c.current = some a.id) :
    ∃ c', rtAlarmStop softRtc device c id waking scanning = some c' ∧ Kept c' ∧
      Next ⟨c', scanning⟩ ∧ ∀ a ∈ c'.head, a.id = id → a.start = false := by
  obtain ⟨x, hx⟩ := Option.isSome_iff_exists.mp hid
  obtain ⟨hmem, hxid⟩ := find_some hx
  unfold rtAlarmStop
  simp only [hx, Option.any_some, Option.bind_eq_bind, Option.bind_some] at hnext hset ⊢
  cases hstart : x.start with
  | true =>
    obtain ⟨hkept, hn⟩ := h.stopped hdev (hset hstart)
    exact ⟨_, rfl, hkept, hn, fun a ha hai => start_update_release hdev ha hai⟩
  | false =>
    refine ⟨c, rfl, h, hnext hstart, fun a ha hai => ?_⟩
    rw [h.inj ha hmem (hai.trans hxid.symm), hstart]

/-- An alarm that is not the current one is removed. -/
theorem Kept.filter (h : Kept c) {id : Nat} (hnext : Next ⟨c, n⟩) (hcur : c.current ≠ some id) :
    Kept { c with head := c.head.filter (·.id ≠ id) } ∧
      Next ⟨{ c with head := c.head.filter (·.id ≠ id) }, n⟩ := by
  have hsub : ∀ a ∈ c.head, c.current = some a.id → a ∈ c.head.filter (·.id ≠ id) := by
    intro a ha hac
    exact List.mem_filter.mpr ⟨ha, decide_eq_true fun hid => hcur (by rw [hac, hid])⟩
  refine ⟨⟨h.ids.sublist (List.filter_sublist.map _),
    fun a ha => h.inDay a (List.mem_of_mem_filter ha), fun i hi => ?_⟩, ?_⟩
  · obtain ⟨a, ha, rfl⟩ := h.current i hi
    exact ⟨a, hsub a ha hi, rfl⟩
  · rintro ⟨s, hs, hstart⟩
    obtain ⟨a, ha, has, hac, hmin⟩ := hnext ⟨s, List.mem_of_mem_filter hs, hstart⟩
    exact ⟨a, hsub a ha hac, has, hac, fun b hb => hmin b (List.mem_of_mem_filter hb)⟩

/-- The current alarm, once it has been stopped, is not the current one after the scan. -/
theorem current_update_release (h : Kept c) (hdev : ∀ w, device w = w) {id : Nat}
    (hcur : c.current = some id) (waking scanning : Nat) :
    (alarmUpdate softRtc device (c.release device id) waking scanning).current ≠ some id := by
  obtain ⟨hhead, hnew⟩ := @alarmUpdate_eq softRtc device hdev (c.release device id) waking
    scanning
  have hnone : (c.release device id).current = none := by
    rw [(release_eq hdev c id).2, if_pos hcur]
  have hday : ∀ a ∈ (alarmUpdate softRtc device (c.release device id) waking scanning).head,
      a.start = true → InDay a.wktime := by
    rw [hhead]
    refine List.forall_mem_map.mpr fun a ha hs => ?_
    have hspec := @alarmWakeup_spec softRtc device hdev waking a
    exact hspec.2.2 ((h.release hdev id).inDay a ha (hspec.2.1 hs))
  rw [hnew, hnone, Option.or_none, ← hhead]
  intro hfound
  obtain ⟨a, ha, has, hai, -⟩ := found_some hday hfound
  rw [start_update_release hdev ha hai.symm] at has
  cases has

theorem delete_kept (h : Kept c) (hdev : ∀ w, device w = w) {id : Nat}
    (hid : (c.find id).isSome = true) (hnext : c.current ≠ some id → Next ⟨c, scanning⟩)
    (hset : c.current = some id → remaining softRtc device c (some id) waking = [] ∨
      (∃ a ∈ remaining softRtc device c (some id) waking,
        secondsUntil scanning a.wktime < 24 * 3600) ∨
      ∃ a ∈ remaining softRtc device c (some id) waking, c.current = some a.id) :
    ∃ c', rtAlarmDelete softRtc device c id waking scanning = some c' ∧ Kept c' ∧
      Next ⟨c', scanning⟩ := by
  obtain ⟨x, hx⟩ := Option.isSome_iff_exists.mp hid
  unfold rtAlarmDelete
  simp only [hx, Option.bind_eq_bind, Option.bind_some]
  by_cases hcur : c.current = some id
  · obtain ⟨hkept, hn⟩ := h.stopped hdev (hset hcur)
    rw [if_pos hcur]
    exact ⟨_, rfl, hkept.filter hn (current_update_release h hdev hcur waking scanning)⟩
  · obtain ⟨hhead, hsame⟩ := release_eq hdev c id
    have hrest : (c.release device id).head.filter (·.id ≠ id) = c.head.filter (·.id ≠ id) := by
      rw [hhead]
      induction c.head with
      | nil => rfl
      | cons a head ih =>
        by_cases ha : a.id = id
        · rw [List.map_cons, if_pos ha, List.filter_cons_of_neg (by simp [ha]), ih,
            List.filter_cons_of_neg (by simp [ha])]
        · rw [List.map_cons, if_neg ha, List.filter_cons_of_pos (by simp [ha]), ih,
            List.filter_cons_of_pos (by simp [ha])]
    obtain ⟨hkept, hn⟩ := h.filter (hnext hcur) hcur
    rw [if_neg hcur] at hsame
    rw [if_neg hcur, hrest]
    refine ⟨_, rfl, ⟨hkept.ids, hkept.inDay, fun i hi => hkept.current i ?_⟩, ?_⟩
    · rw [← hsame]
      exact hi
    · intro hany
      obtain ⟨a, ha, has, hac, hmin⟩ := hn hany
      exact ⟨a, ha, has, hsame.trans hac, hmin⟩

/-- A permitted call is carried out, and leaves the next alarm. -/
theorem perform_kept {s : State} (h : Kept s.container) (hnext : Next s)
    (hdev : ∀ w, device w = w) {call : Call} (hp : Permitted softRtc device s call) :
    ∃ c', perform softRtc device s.container call = some c' ∧ Kept c' ∧ Next ⟨c', call.now⟩ := by
  obtain ⟨op, before, now, hle⟩ := call
  obtain ⟨htime, hvalid, hp⟩ := hp
  have hset : op.rescans s.container = true →
      Settles softRtc device s.container ⟨op, before, now, hle⟩ := by
    intro hyes
    rw [if_pos hyes] at hp
    exact hp
  have hrest : op.rescans s.container = false →
      Next ⟨s.container, now⟩ ∧ Comparable softRtc s.container ⟨op, before, now, hle⟩ := by
    intro hno
    rw [if_neg (by simp [hno])] at hp
    exact ⟨hnext.later h.inDay (Nat.le_trans htime hle) hp.1, hp.2⟩
  cases op with
  | create id flag t => exact create_kept h flag t (hrest rfl).1 hvalid
  | start id =>
    exact start_kept h hdev (hrest rfl).1 hvalid fun a ha hid =>
      (hrest rfl).2 a ha (congrArg some hid.symm)
  | stop id =>
    obtain ⟨c', hc, hkept, hn, -⟩ := stop_kept h hdev hvalid (fun hno => (hrest hno).1) hset
    exact ⟨c', hc, hkept, hn⟩
  | delete id =>
    exact delete_kept h hdev hvalid (fun hno => (hrest (decide_eq_false hno)).1)
      fun hyes => hset (decide_eq_true hyes)
  | control id flag t setting =>
    obtain ⟨c', hc, hkept, hn, hoff⟩ := stop_kept h hdev hvalid (fun hno => (hrest hno).1) hset
    have hmodified : Kept (c'.change id fun a => { a with
        flag, start := false, wktime := (alarmSetup softRtc flag (gmtimeR setting) t).1 }) :=
      hkept.change (fun _ => rfl) fun a _ _ hs => absurd hs (by simp)
    exact ⟨_, congrArg (Option.map _) hc, hmodified, hn.change hoff fun _ => rfl⟩
  | update => exact ⟨_, rfl, h.update hdev (hset rfl)⟩

/-- On a device that keeps an alarm to the second, the calls are carried out and the current
alarm is always the next one, if every call finds what `Permitted` asks for. -/
theorem alarm_next (hdev : ∀ w, device w = w) (calls : List Call)
    (h : Runs.Along (step softRtc device) (Permitted softRtc device) initial calls) :
    (∃ s, Runs.run (step softRtc device) initial calls = some s) ∧
      Runs.Always (step softRtc device) Next initial calls := by
  have hstart : Kept initial.container ∧ Next initial := by
    refine ⟨⟨List.nodup_nil, by simp [initial, rtAlarmSystemInit], fun id hid => ?_⟩, ?_⟩
    · exact absurd hid (by simp [initial, rtAlarmSystemInit])
    · rintro ⟨a, ha, -⟩
      exact absurd ha List.not_mem_nil
  have hstep : ∀ s call, Kept s.container ∧ Next s → Permitted softRtc device s call →
      ∃ s', step softRtc device s call = some s' ∧ Kept s'.container ∧ Next s' := by
    rintro s call ⟨hkept, hnext⟩ hp
    obtain ⟨c', hc, hkept', hn⟩ := perform_kept hkept hnext hdev hp
    exact ⟨⟨c', call.now⟩, by rw [step, if_pos hp.1, hc]; rfl, hkept', hn⟩
  constructor
  · obtain ⟨s, hs, -⟩ := Runs.run_total_along hstep hstart h
    exact ⟨s, hs⟩
  · have hinv : ∀ s call s', Kept s.container ∧ Next s → Permitted softRtc device s call →
        step softRtc device s call = some s' → Kept s'.container ∧ Next s' := by
      intro s call s' hs hp hcall
      obtain ⟨s₁, hs₁, hinv⟩ := hstep s call hs hp
      obtain rfl : s₁ = s' := Option.some.inj (hs₁.symm.trans hcall)
      exact hinv
    exact h.always hinv (fun s hs => hs.2) hstart

/-- Two alarms on a day: a one-shot alarm at 9:00 that stops itself, and a daily one at 10:00. -/
theorem alarm_next_day :
    Runs.Always (step true id) Next initial
      [Op.atTime (.create 1 .daily ⟨0, 0, 10, 1, 0, 70, 0⟩) 28800,
        Op.atTime (.create 2 .oneshot ⟨0, 0, 9, 1, 0, 70, 0⟩) 28800,
        Op.atTime (.start 1) 28800, Op.atTime (.start 2) 28810, Op.atTime .update 32400,
        Op.atTime (.delete 2) 32500, Op.atTime .update 36000, Op.atTime (.stop 1) 36001] :=
  (@alarm_next true id (fun _ => rfl) _ (by decide +kernel)).2

/-- A one-shot alarm at 10:00 has stopped itself, and on the next day at 9:00 a daily alarm at
11:00 is started. -/
theorem stopped_alarm_stays_current :
    ¬ Runs.Always (step true id) Next initial
      [Op.atTime (.create 1 .oneshot ⟨0, 0, 10, 1, 0, 70, 0⟩) 32400,
        Op.atTime (.create 2 .daily ⟨0, 0, 11, 1, 0, 70, 0⟩) 32400,
        Op.atTime (.start 1) 32400, Op.atTime .update 36000,
        Op.atTime (.start 2) (86400 + 32400)] := by
  decide +kernel

end RtThread.AlarmService
