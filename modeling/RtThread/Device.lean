import RtThread.Lib.Runs
import Mathlib.Data.BitVec

/-!
# Opening and closing a device

`rt_device_init`, `rt_device_open` and `rt_device_close` over the two flag words and the
reference count of a device. Which callbacks the driver has is fixed; what a callback
returns is an input of the call. A failed assertion refuses the step.
-/
namespace RtThread.Device

/-! ## Error codes and flags -/

def rtEok : Int := 0
def rtError : Int := 1
def rtEnosys : Int := 6
def rtEbusy : Int := 7

def rtDeviceFlagStandalone : BitVec 16 := 0x008
def rtDeviceFlagActivated : BitVec 16 := 0x010
def rtDeviceOflagClose : BitVec 16 := 0x000
def rtDeviceOflagOpen : BitVec 16 := 0x008
def rtDeviceOflagMask : BitVec 16 := 0xf0f

/-! ## The device -/

/-- The callbacks that are not `RT_NULL`. -/
structure Driver where
  deviceInit : Bool
  deviceOpen : Bool
  deviceClose : Bool

structure RtDevice where
  flag : BitVec 16
  openFlag : BitVec 16
  refCount : BitVec 8
  deriving DecidableEq

/-- A callback's result that the device layer goes on with. -/
def Succeeded (result : Int) : Prop := result = rtEok ∨ result = -rtEnosys

instance (result : Int) : Decidable (Succeeded result) := inferInstanceAs (Decidable (_ ∨ _))

def RtDevice.Activated (dev : RtDevice) : Prop := dev.flag &&& rtDeviceFlagActivated ≠ 0

def RtDevice.Standalone (dev : RtDevice) : Prop := dev.flag &&& rtDeviceFlagStandalone ≠ 0

def RtDevice.Opened (dev : RtDevice) : Prop := dev.openFlag &&& rtDeviceOflagOpen ≠ 0

instance (dev : RtDevice) : Decidable dev.Activated := inferInstanceAs (Decidable (_ ≠ _))
instance (dev : RtDevice) : Decidable dev.Standalone := inferInstanceAs (Decidable (_ ≠ _))
instance (dev : RtDevice) : Decidable dev.Opened := inferInstanceAs (Decidable (_ ≠ _))

/-- The fields that `rt_device_register` sets. -/
def rtDeviceRegister (flags : BitVec 16) : RtDevice := ⟨flags, 0, 0⟩

def RtDevice.activate (dev : RtDevice) : RtDevice :=
  { dev with flag := dev.flag ||| rtDeviceFlagActivated }

def rtDeviceInit (drv : Driver) (dev : RtDevice) (initResult : Int) : RtDevice × Int :=
  if drv.deviceInit then
    if ¬ dev.Activated then
      if initResult ≠ rtEok then (dev, initResult) else (dev.activate, initResult)
    else (dev, rtEok)
  else (dev, rtEok)

/-- The end of `rt_device_open`; the assertion is that of the count not having wrapped. -/
def setOpenFlag (dev : RtDevice) (result : Int) : Option (RtDevice × Int) :=
  if Succeeded result then
    if dev.refCount + 1 ≠ 0 then
      some ({ dev with
        openFlag := dev.openFlag ||| rtDeviceOflagOpen
        refCount := dev.refCount + 1 }, result)
    else none
  else some (dev, result)

/-- `rt_device_open` behind the initialization. -/
def openActivated (drv : Driver) (dev : RtDevice) (oflag : BitVec 16) (openResult : Int) :
    Option (RtDevice × Int) :=
  if dev.Standalone ∧ dev.Opened then some (dev, -rtEbusy)
  else if drv.deviceOpen then setOpenFlag dev openResult
  else setOpenFlag { dev with openFlag := oflag &&& rtDeviceOflagMask } rtEok

def rtDeviceOpen (drv : Driver) (dev : RtDevice) (oflag : BitVec 16) (initResult openResult : Int) :
    Option (RtDevice × Int) :=
  if ¬ dev.Activated then
    if drv.deviceInit ∧ initResult ≠ rtEok then some (dev, initResult)
    else openActivated drv dev.activate oflag openResult
  else openActivated drv dev oflag openResult

/-- The end of `rt_device_close`. -/
def setCloseFlag (dev : RtDevice) (result : Int) : RtDevice × Int :=
  if Succeeded result then ({ dev with openFlag := rtDeviceOflagClose }, result) else (dev, result)

/-- `rt_device_close` behind the test of the count. -/
def dropReference (drv : Driver) (dev : RtDevice) (closeResult : Int) : RtDevice × Int :=
  let dev := { dev with refCount := dev.refCount - 1 }
  if dev.refCount ≠ 0 then (dev, rtEok)
  else setCloseFlag dev (if drv.deviceClose then closeResult else rtEok)

def rtDeviceClose (drv : Driver) (dev : RtDevice) (closeResult : Int) : RtDevice × Int :=
  if dev.refCount = 0 then (dev, -rtError) else dropReference drv dev closeResult

/-! ## Runs -/

/-- A call that went through: a device whose initialization has failed is not open, even when
that result is one the rest of the call would go on with. -/
def Successful (r : RtDevice × Int) : Prop := r.1.Activated ∧ Succeeded r.2

instance (r : RtDevice × Int) : Decidable (Successful r) := inferInstanceAs (Decidable (_ ∧ _))

/-- The calls, each with what the callbacks return in it. -/
inductive Op where
  | init (initResult : Int)
  | opening (oflag : BitVec 16) (initResult openResult : Int)
  | closing (closeResult : Int)
  deriving DecidableEq

/-- A device with the numbers of its successful opens and closes. -/
structure Counted where
  dev : RtDevice
  opens : Nat
  closes : Nat
  deriving DecidableEq

def registered (flags : BitVec 16) : Counted := ⟨rtDeviceRegister flags, 0, 0⟩

def step (drv : Driver) (x : Counted) : Op → Option Counted
  | .init initResult => some { x with dev := (rtDeviceInit drv x.dev initResult).1 }
  | .opening oflag initResult openResult =>
    (rtDeviceOpen drv x.dev oflag initResult openResult).map fun r =>
      { x with dev := r.1, opens := if Successful r then x.opens + 1 else x.opens }
  | .closing closeResult =>
    let r := rtDeviceClose drv x.dev closeResult
    some { x with dev := r.1, closes := if Succeeded r.2 then x.closes + 1 else x.closes }

/-! ## The accounting -/

/-- The flag and the count agree, the count is that of the opens not yet closed, and a
stand-alone device that nobody holds can be opened by callbacks that succeed. -/
structure Accounted (drv : Driver) (x : Counted) : Prop where
  closed_iff : x.dev.refCount = 0 ↔ ¬ x.dev.Opened
  count : x.dev.refCount.toNat + x.closes = x.opens
  reopens : x.dev.Standalone → x.dev.refCount = 0 → ∀ oflag openResult, Succeeded openResult →
    ∃ r, rtDeviceOpen drv x.dev oflag rtEok openResult = some r ∧ Successful r

/-- The close callback succeeds when it is called, that is by the last close. -/
def CloseSucceeds (drv : Driver) (x : Counted) : Op → Prop
  | .closing closeResult => drv.deviceClose → x.dev.refCount = 1 → Succeeded closeResult
  | _ => True

instance (drv : Driver) (x : Counted) : (op : Op) → Decidable (CloseSucceeds drv x op)
  | .closing _ => inferInstanceAs (Decidable (_ → _ → _))
  | .init _ | .opening _ _ _ => .isTrue trivial

theorem or_and_self (x m : BitVec 16) : (x ||| m) &&& m = m := by
  ext i h
  simp only [BitVec.getElem_and, BitVec.getElem_or]
  cases x[i] <;> simp

theorem activate_activated (dev : RtDevice) : dev.activate.Activated := by
  simp [RtDevice.Activated, RtDevice.activate, or_and_self, rtDeviceFlagActivated]

theorem opened_or (dev : RtDevice) (flags : BitVec 16) (n : BitVec 8) :
    ({ dev with openFlag := flags ||| rtDeviceOflagOpen, refCount := n } : RtDevice).Opened := by
  simp [RtDevice.Opened, or_and_self, rtDeviceOflagOpen]

theorem not_opened_close (dev : RtDevice) :
    ¬ ({ dev with openFlag := rtDeviceOflagClose } : RtDevice).Opened := by
  simp [RtDevice.Opened, rtDeviceOflagClose]

theorem succeeded_eok : Succeeded rtEok := .inl rfl

/-- An open counts one holder more and leaves the device open, or keeps the count and the
flag. -/
def Opens (dev : RtDevice) (r : RtDevice × Int) : Prop :=
  (Successful r ∧ r.1.Opened ∧ r.1.refCount = dev.refCount + 1 ∧ r.1.refCount ≠ 0) ∨
    ¬ Successful r ∧ r.1.refCount = dev.refCount ∧ r.1.openFlag = dev.openFlag

variable {dev : RtDevice} {closeResult openResult result : Int} {r : RtDevice × Int}
  {drv : Driver} {oflag : BitVec 16} {x : Counted} {n : BitVec 8} {op : Op}

theorem setOpenFlag_opens (hact : dev.Activated) (h : setOpenFlag dev result = some r) :
    Opens dev r := by
  simp only [setOpenFlag] at h
  split at h
  · rename_i hs
    obtain ⟨hn, hr⟩ := Option.ite_none_right_eq_some.mp h
    cases hr
    exact .inl ⟨⟨hact, hs⟩, opened_or _ _ _, rfl, hn⟩
  · rename_i hs
    cases h
    exact .inr ⟨fun hr => hs hr.2, rfl, rfl⟩

theorem openActivated_opens (hact : dev.Activated)
    (h : openActivated drv dev oflag openResult = some r) : Opens dev r := by
  simp only [openActivated] at h
  split at h
  · cases h
    have hbusy : ¬ Succeeded (-rtEbusy) := by decide
    exact .inr ⟨fun hr => hbusy hr.2, rfl, rfl⟩
  · split at h
    · exact setOpenFlag_opens hact h
    · obtain ⟨hn, hr⟩ := Option.ite_none_right_eq_some.mp h
      cases hr
      exact .inl ⟨⟨hact, succeeded_eok⟩, opened_or _ _ _, rfl, hn⟩

theorem rtDeviceOpen_opens {initResult : Int}
    (h : rtDeviceOpen drv dev oflag initResult openResult = some r) : Opens dev r := by
  simp only [rtDeviceOpen] at h
  split at h
  · rename_i hidle
    split at h
    · cases h
      exact .inr ⟨fun hr => hidle hr.1, rfl, rfl⟩
    · have hr : Opens dev.activate r := openActivated_opens (activate_activated dev) h
      exact hr
  · rename_i hact
    exact openActivated_opens (not_not.mp hact) h

theorem setOpenFlag_successful (hact : dev.Activated) (hcount : dev.refCount = 0)
    (hs : Succeeded result) : ∃ r, setOpenFlag dev result = some r ∧ Successful r := by
  have hn : dev.refCount + 1 ≠ 0 := by simp [hcount]
  rw [setOpenFlag, if_pos hs, if_pos hn]
  exact ⟨_, rfl, hact, hs⟩

theorem openActivated_successful (oflag : BitVec 16) (hact : dev.Activated)
    (hclosed : ¬ dev.Opened) (hcount : dev.refCount = 0) (hs : Succeeded openResult) :
    ∃ r, openActivated drv dev oflag openResult = some r ∧ Successful r := by
  rw [openActivated, if_neg fun h => hclosed h.2]
  split
  · exact setOpenFlag_successful hact hcount hs
  · exact setOpenFlag_successful hact hcount succeeded_eok

theorem rtDeviceOpen_successful (oflag : BitVec 16) (hclosed : ¬ dev.Opened)
    (hcount : dev.refCount = 0) (hs : Succeeded openResult) :
    ∃ r, rtDeviceOpen drv dev oflag rtEok openResult = some r ∧ Successful r := by
  simp only [rtDeviceOpen]
  split
  · rw [if_neg fun h => h.2 rfl]
    exact openActivated_successful oflag (activate_activated dev) hclosed hcount hs
  · rename_i hact
    exact openActivated_successful oflag (not_not.mp hact) hclosed hcount hs

/-- The reopening is a consequence of the agreement of flag and count. -/
theorem Accounted.of_agreement (hiff : x.dev.refCount = 0 ↔ ¬ x.dev.Opened)
    (hcount : x.dev.refCount.toNat + x.closes = x.opens) : Accounted drv x :=
  ⟨hiff, hcount, fun _ h0 oflag _ hs => rtDeviceOpen_successful oflag (hiff.mp h0) h0 hs⟩

theorem toNat_succ (h : n + 1 ≠ 0) : (n + 1).toNat = n.toNat + 1 := by
  have hne : (n + 1).toNat ≠ 0 := fun h0 => h (BitVec.eq_of_toNat_eq h0)
  rw [BitVec.toNat_add] at hne ⊢
  have hone : (1 : BitVec 8).toNat = 1 := rfl
  omega

theorem toNat_pred (h : n ≠ 0) : (n - 1).toNat + 1 = n.toNat := by
  have hne : n.toNat ≠ 0 := fun h0 => h (BitVec.eq_of_toNat_eq h0)
  have hone : (1 : BitVec 8).toNat = 1 := rfl
  rw [BitVec.toNat_sub]
  omega

theorem rtDeviceInit_same (drv : Driver) (dev : RtDevice) (initResult : Int) :
    (rtDeviceInit drv dev initResult).1.refCount = dev.refCount ∧
      (rtDeviceInit drv dev initResult).1.openFlag = dev.openFlag := by
  unfold rtDeviceInit
  split
  · split
    · split <;> exact ⟨rfl, rfl⟩
    · exact ⟨rfl, rfl⟩
  · exact ⟨rfl, rfl⟩

/-! ## The steps -/

theorem Accounted.opening (hx : Accounted drv x) (h : Opens x.dev r) :
    Accounted drv { x with
      dev := r.1
      opens := if Successful r then x.opens + 1 else x.opens } := by
  have hcount := hx.count
  rcases h with ⟨hs, hopen, hn, hne⟩ | ⟨hs, hn, hflag⟩
  · refine .of_agreement ⟨fun h0 => absurd h0 hne, fun hclosed => absurd hopen hclosed⟩ ?_
    have hsucc : r.1.refCount.toNat = x.dev.refCount.toNat + 1 := by
      rw [hn] at hne ⊢
      exact toNat_succ hne
    rw [if_pos hs]
    simp only [hsucc]
    omega
  · have hiff : r.1.Opened ↔ x.dev.Opened := by rw [RtDevice.Opened, RtDevice.Opened, hflag]
    rw [if_neg hs]
    refine .of_agreement ?_ ?_
    · rw [hn, hx.closed_iff, hiff]
    · rw [hn]
      exact hcount

theorem closeResult_succeeds (h : drv.deviceClose → Succeeded closeResult) :
    Succeeded (if drv.deviceClose then closeResult else rtEok) := by
  split
  · rename_i hc
    exact h hc
  · exact succeeded_eok

/-- The count behind a close is zero only behind the close of the only holder. -/
theorem pred_eq_zero : n - 1 = 0 ↔ n = 1 := by
  constructor
  · intro h
    have hadd : n - 1 + 1 = n := BitVec.sub_add_cancel n 1
    rw [h] at hadd
    exact hadd.symm
  · intro h
    simp [h]

def closed (x : Counted) (r : RtDevice × Int) : Counted :=
  { x with dev := r.1, closes := if Succeeded r.2 then x.closes + 1 else x.closes }

theorem Accounted.closing (hx : Accounted drv x)
    (hok : CloseSucceeds drv x (.closing closeResult)) :
    Accounted drv (closed x (rtDeviceClose drv x.dev closeResult)) := by
  have hcount := hx.count
  by_cases h0 : x.dev.refCount = 0
  · have hno : ¬ Succeeded (-rtError) := by decide
    rw [rtDeviceClose, if_pos h0, closed, if_neg hno]
    exact hx
  · have hpred := toNat_pred h0
    rw [rtDeviceClose, if_neg h0]
    by_cases h1 : x.dev.refCount = 1
    · have hs := closeResult_succeeds fun hc => hok hc h1
      rw [dropReference, if_neg (not_not.mpr (pred_eq_zero.mpr h1)), setCloseFlag, if_pos hs,
        closed, if_pos hs]
      have hzero : x.dev.refCount - 1 = 0 := pred_eq_zero.mpr h1
      refine .of_agreement ⟨fun _ => not_opened_close _, fun _ => hzero⟩ ?_
      simp only
      omega
    · have hne : x.dev.refCount - 1 ≠ 0 := fun h => h1 (pred_eq_zero.mp h)
      have hopen : x.dev.Opened := not_not.mp fun h => h0 (hx.closed_iff.mpr h)
      rw [dropReference, if_pos hne, closed, if_pos succeeded_eok]
      refine .of_agreement ⟨fun h => absurd h hne, fun h => absurd hopen h⟩ ?_
      simp only
      omega

/-- A close callback that fails leaves an open device without a holder. -/
theorem Accounted.close_fails (hx : Accounted drv x) (hc : drv.deviceClose)
    (h1 : x.dev.refCount = 1) (hfail : ¬ Succeeded closeResult) :
    ¬ Accounted drv (closed x (rtDeviceClose drv x.dev closeResult)) := by
  have h0 : x.dev.refCount ≠ 0 := by
    rw [h1]
    decide
  have hopen : x.dev.Opened := not_not.mp fun h => h0 (hx.closed_iff.mpr h)
  have hzero : x.dev.refCount - 1 = 0 := pred_eq_zero.mpr h1
  rw [rtDeviceClose, if_neg h0, dropReference, if_neg (not_not.mpr hzero), if_pos hc,
    setCloseFlag, if_neg hfail]
  intro hbad
  exact hbad.closed_iff.mp hzero hopen

theorem step_keeps {x' : Counted} (hx : Accounted drv x) (hok : CloseSucceeds drv x op)
    (h : step drv x op = some x') : Accounted drv x' := by
  cases op with
  | init initResult =>
    cases h
    obtain ⟨hn, hflag⟩ := rtDeviceInit_same drv x.dev initResult
    refine .of_agreement ?_ ?_
    · simp only [RtDevice.Opened, hn, hflag]
      exact hx.closed_iff
    · simp only [hn]
      exact hx.count
  | opening oflag initResult openResult =>
    obtain ⟨r, hr, rfl⟩ := Option.map_eq_some_iff.mp h
    exact hx.opening (rtDeviceOpen_opens hr)
  | closing closeResult =>
    cases h
    exact hx.closing hok

theorem step_loses (hx : Accounted drv x) (hno : ¬ CloseSucceeds drv x op) :
    ∃ x', step drv x op = some x' ∧ ¬ Accounted drv x' := by
  cases op with
  | init | opening => exact absurd trivial hno
  | closing closeResult =>
    simp only [CloseSucceeds, not_forall] at hno
    obtain ⟨hc, h1, hfail⟩ := hno
    exact ⟨_, rfl, hx.close_fails hc h1 hfail⟩

theorem accounted_registered (drv : Driver) (flags : BitVec 16) :
    Accounted drv (registered flags) := by
  refine .of_agreement ⟨fun _ => ?_, fun _ => rfl⟩ rfl
  simp [registered, rtDeviceRegister, RtDevice.Opened]

/-- From its registration on, a device is accounted for in every state of a run exactly when
no close callback of the run fails. -/
theorem device_accounting (drv : Driver) (flags : BitVec 16) (ops : List Op) :
    Runs.Always (step drv) (Accounted drv) (registered flags) ops ↔
      Runs.Along (step drv) (CloseSucceeds drv) (registered flags) ops :=
  Runs.always_iff_along (fun _ _ _ => step_keeps) (fun _ _ => step_loses)
    (accounted_registered drv flags)

/-- A stand-alone device whose only close fails: nobody holds it, and it stays busy. -/
theorem close_failure_keeps_device_busy :
    ∃ x, Runs.run (step ⟨false, false, true⟩) (registered rtDeviceFlagStandalone)
        [.opening 0x003 0 0, .closing (-8)] = some x ∧
      x.dev.refCount = 0 ∧ ¬ Accounted ⟨false, false, true⟩ x ∧
      ∀ oflag initResult openResult,
        rtDeviceOpen ⟨false, false, true⟩ x.dev oflag initResult openResult =
          some (x.dev, -rtEbusy) := by
  have hopen : (⟨0x018, 0x00b, 0⟩ : RtDevice).Opened := by decide
  refine ⟨⟨⟨0x018, 0x00b, 0⟩, 1, 0⟩, by decide, rfl, ?_, fun _ _ _ => rfl⟩
  intro h
  exact h.closed_iff.mp rfl hopen

end RtThread.Device
