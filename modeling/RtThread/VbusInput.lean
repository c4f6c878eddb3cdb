import RtThread.Lib.Runs
import RtThread.RtDef
import RtThread.VbusChannels

/-!
# The input of the virtual bus

`_bus_in_entry` and `_chn0_actor` of `vbus.c` on the blocks that the other side puts into the ring,
with the indices that they use into the tables of the channels and the bytes that they read of a
packet of channel 0. The memory behind a packet is that of the ring: a list of bytes, with zeros
behind its end. A session that is in use has a request, and `rt_malloc` and `_chn0_post` have the
outcomes that are given with the block. Between two blocks the tables may change in any way.
-/
namespace RtThread.VbusInput

open VbusChannels (Byte ChnStatus SessionSt rtVbusChannelNr sessions rtEio)

inductive Table where
  | chnStatus | busInAction | chnRecvWm | vbusRxIndi | chnWmQue | chnSuspendedThreads
  deriving DecidableEq

/-- An index into a table, or a read of bytes of the packet. -/
inductive Access where
  | table (t : Table) (i : Nat)
  | packet (off len : Nat)
  deriving DecidableEq

/-- The access is inside of its table, or of a packet of so many bytes. -/
def Access.InBounds (size : Nat) : Access → Prop
  | table _ i => i < rtVbusChannelNr
  | packet off len => off + len ≤ size

/-- An entry of `_sess`; `name` is that of its request. -/
structure Session where
  chnr : Int
  st : SessionSt
  name : Option (List Byte)

structure State where
  /-- `_chn_status`, and the memory behind it. -/
  status : Nat → ChnStatus
  sess : Nat → Session

def setStatus (s : State) (chnr : Nat) (st : ChnStatus) : State :=
  { s with status := Function.update s.status chnr st }

def setSess (s : State) (i : Nat) (sess : Session) : State :=
  { s with sess := Function.update s.sess i sess }

/-- A block of the ring: its head, and the memory from its data on. -/
structure Block where
  id : Byte
  len : Byte
  mem : List Byte
  malloc : Bool
  post : Bool

/-! ## Strings of a packet -/

/-- `rt_strcmp` is zero. -/
def strEq : List Byte → List Byte → Bool
  | [], mem => mem.headD 0 = 0
  | b :: name, mem =>
    if b = 0 ∨ b ≠ mem.headD 0 then b = mem.headD 0 else strEq name mem.tail

/-- How many bytes of the second string `rt_strcmp` reads. -/
def strcmpReads : List Byte → List Byte → Nat
  | [], _ => 1
  | b :: name, mem => if b = 0 ∨ b ≠ mem.headD 0 then 1 else strcmpReads name mem.tail + 1

def strlen (mem : List Byte) : Nat := (mem.takeWhile (· ≠ 0)).length

/-- `_sess_find` for the name at `off`, on the sessions that are left to look at. -/
def sessFind (s : State) (mem : List Byte) (off : Nat) (st : SessionSt) :
    List Nat → Option Nat × List Access
  | [] => (none, [])
  | i :: is =>
    if (s.sess i).st = st then
      match (s.sess i).name with
      | none => sessFind s mem off st is
      | some name =>
        let reads := Access.packet off (strcmpReads name (mem.drop off))
        if strEq name (mem.drop off) then (some i, [reads])
        else ((sessFind s mem off st is).1, reads :: (sessFind s mem off st is).2)
    else sessFind s mem off st is

/-! ## `_chn0_actor` -/

/-- `_chn0_ack` and `_chn0_nak` copy the packet. -/
def echo (b : Block) : List Access := if b.malloc then [.packet 0 b.len.toNat] else []

/-- `rt_vbus_set_recv_wm` and `rt_vbus_set_post_wm`. -/
def setWm (chnr : Nat) : List Access := [.table .chnRecvWm chnr, .table .chnWmQue chnr]

/-- `_vbus_indicate` and `rt_vbus_notify_chn` for a channel that is closed. -/
def disconnect (chnr : Nat) : List Access :=
  [.table .vbusRxIndi chnr, .table .chnSuspendedThreads chnr]

def enable (s : State) (b : Block) : State × List Access :=
  let size := b.len.toNat
  let found := sessFind s b.mem 1 .listening sessions
  match found.1 with
  | none => (s, found.2 ++ echo b)
  | some i =>
    match (List.range rtVbusChannelNr).find? fun chnr => s.status chnr = .available with
    | none => (s, found.2 ++ (List.range rtVbusChannelNr).map (.table .chnStatus) ++ echo b)
    | some chnr =>
      let search := (List.range (chnr + 1)).map (.table .chnStatus)
      if b.malloc then
        let copied := found.2 ++ search ++ [.packet 1 (wsub 32 size 1)] ++ setWm chnr
        if b.post then
          (setStatus (setSess s i { s.sess i with st := .establishing, chnr := chnr }) chnr
            .establishing, copied ++ [.table .chnStatus chnr])
        else (s, copied)
      else (s, found.2 ++ search)

def set (s : State) (b : Block) : State × List Access :=
  let found := sessFind s b.mem 1 .establishing sessions
  match found.1 with
  | none => (s, found.2)
  | some i =>
    let len := strlen (b.mem.drop 1)
    let chnr := (b.mem.getD (1 + len + 1) 0).toNat
    let number := found.2 ++ [.packet 1 (len + 1), .packet (1 + len + 1) 1]
    if chnr = 0 ∨ rtVbusChannelNr ≤ chnr then (s, number)
    else if s.status chnr ≠ .available then (s, number ++ [.table .chnStatus chnr] ++ echo b)
    else
      let acked := number ++ [.table .chnStatus chnr] ++ setWm chnr ++ echo b
      if b.malloc ∧ b.post then
        (setStatus (setSess s i { s.sess i with chnr := chnr }) chnr .established,
          acked ++ [.table .chnStatus chnr])
      else (s, acked)

def ackSet (s : State) (b : Block) : State × List Access :=
  let found := sessFind s b.mem 2 .establishing sessions
  match found.1 with
  | none => (s, found.2)
  | some i =>
    let len := strlen (b.mem.drop 2)
    let chnr := (b.mem.getD (1 + len + 2) 0).toNat
    (setStatus (setSess s i { s.sess i with chnr := chnr }) chnr .established,
      found.2 ++ [.packet 2 (len + 1), .packet (1 + len + 2) 1, .table .chnStatus chnr])

/-- `ackDisable`, `disable`, `suspend` and `resume`: the number is at `off`, and `act` is done for a
channel that has one. -/
def numbered (s : State) (b : Block) (off : Nat) (act : Nat → State × List Access) :
    State × List Access :=
  let chnr := (b.mem.getD off 0).toNat
  if chnr = 0 ∨ rtVbusChannelNr ≤ chnr then (s, [.packet off 1])
  else ((act chnr).1, .packet off 1 :: (act chnr).2)

def ackDisable (s : State) (b : Block) : State × List Access :=
  numbered s b 2 fun chnr =>
    (setStatus s chnr .available, [.table .chnStatus chnr] ++ disconnect chnr)

def disable (s : State) (b : Block) : State × List Access :=
  numbered s b 1 fun chnr =>
    (setStatus s chnr .closing, [.table .chnStatus chnr] ++ echo b ++ disconnect chnr)

def suspend (s : State) (b : Block) : State × List Access :=
  numbered s b 1 fun chnr =>
    if s.status chnr ≠ .established then (s, [.table .chnStatus chnr])
    else (setStatus s chnr .suspend, [.table .chnStatus chnr])

def resume (s : State) (b : Block) : State × List Access :=
  numbered s b 1 fun chnr =>
    if s.status chnr ≠ .suspend then (s, [.table .chnStatus chnr])
    else
      (setStatus s chnr .established,
        [.table .chnStatus chnr, .table .chnSuspendedThreads chnr])

def nakEnable (s : State) (b : Block) : State × List Access :=
  let found := sessFind s b.mem 2 .establishing sessions
  match found.1 with
  | none => (s, found.2)
  | some i => (setSess s i { s.sess i with chnr := rtEio }, found.2)

/-- The commands of `_chn0_actor` behind the first byte. -/
def chn0Command (s : State) (b : Block) : State × List Access :=
  match b.mem.getD 0 0 with
  | 0 => enable s b
  | 1 => disable s b
  | 2 => set s b
  | 3 =>
    let r := match b.mem.getD 1 0 with
      | 2 => ackSet s b
      | 1 => ackDisable s b
      | _ => (s, [])
    (r.1, .packet 1 1 :: r.2)
  | 4 =>
    let r := match b.mem.getD 1 0 with
      | 0 => nakEnable s b
      | _ => (s, [])
    (r.1, .packet 1 1 :: r.2)
  | 5 => suspend s b
  | 6 => resume s b
  | _ => (s, [])

/-- `_chn0_actor`. -/
def chn0Actor (s : State) (b : Block) : State × List Access :=
  ((chn0Command s b).1, .packet 0 1 :: (chn0Command s b).2)

/-! ## `_bus_in_entry` -/

/-- `_chn_connected`. -/
def chnConnected (s : State) (chnr : Nat) : Prop :=
  s.status chnr = .established ∨ s.status chnr = .suspend

instance (s : State) (chnr : Nat) : Decidable (chnConnected s chnr) :=
  inferInstanceAs (Decidable (_ ∨ _))

/-- `rt_vbus_data_push` and `_vbus_indicate`. -/
def dataPush (id : Nat) : List Access :=
  [.table .busInAction id, .table .chnRecvWm id, .table .vbusRxIndi id]

/-- A turn of the loop of `_bus_in_entry`. -/
def busIn (s : State) (b : Block) : State × List Access :=
  let id := b.id.toNat
  if rtVbusChannelNr < id then (s, [])
  else if ¬ chnConnected s id then (s, [.table .chnStatus id])
  else if id = 0 then
    if 60 < b.len.toNat then (s, [.table .chnStatus id])
    else ((chn0Actor s b).1, .table .chnStatus id :: (chn0Actor s b).2)
  else if b.malloc then (s, .table .chnStatus id :: dataPush id)
  else (s, [.table .chnStatus id])

/-- The loop takes a block, or the tables are changed by others. -/
inductive Event where
  | block (b : Block)
  | others (s : State)

def step (s : State) : Event → Option State
  | .block b => some (busIn s b).1
  | .others s' => some s'

/-- The tables after `rt_vbus_init`. -/
def rtVbusInit : State where
  status := fun chnr => if chnr = 0 then .established else .available
  sess := fun _ => ⟨0, .available, none⟩

/-! ## Safe accesses -/

def Inside (size : Nat) (accesses : List Access) : Prop := ∀ a ∈ accesses, a.InBounds size

instance (size : Nat) : DecidablePred (Access.InBounds size)
  | .table _ _ => inferInstanceAs (Decidable (_ < _))
  | .packet _ _ => inferInstanceAs (Decidable (_ ≤ _))

instance (size : Nat) : DecidablePred (Inside size) :=
  fun _ => inferInstanceAs (Decidable (∀ _ ∈ _, _))

variable {chnr size : Nat} {accesses : List Access}

@[simp] theorem inside_nil : Inside size [] := List.forall_mem_nil _

@[simp] theorem inside_table {i : Nat} {t : Table} :
    Inside size (.table t i :: accesses) ↔ i < rtVbusChannelNr ∧ Inside size accesses :=
  List.forall_mem_cons

@[simp] theorem inside_packet {off len : Nat} :
    Inside size (.packet off len :: accesses) ↔ off + len ≤ size ∧ Inside size accesses :=
  List.forall_mem_cons

@[simp] theorem inside_append {as as' : List Access} :
    Inside size (as ++ as') ↔ Inside size as ∧ Inside size as' :=
  List.forall_mem_append

@[simp] theorem echo_inside (b : Block) : Inside b.len.toNat (echo b) := by
  unfold echo
  split <;> simp

@[simp] theorem setWm_inside : Inside size (setWm chnr) ↔ chnr < rtVbusChannelNr := by
  simp [setWm]

@[simp] theorem disconnect_inside : Inside size (disconnect chnr) ↔ chnr < rtVbusChannelNr := by
  simp [disconnect]

theorem search_inside {n : Nat} (h : n ≤ rtVbusChannelNr) :
    Inside size ((List.range n).map (.table .chnStatus)) := by
  intro a ha
  obtain ⟨i, hi, rfl⟩ := List.mem_map.mp ha
  exact (List.mem_range.mp hi).trans_le h

/-- What `_bus_in_entry` does with a block uses no index and no byte that is not its own. -/
def Safe (s : State) : Event → Prop
  | .block b => Inside b.len.toNat (busIn s b).2
  | .others _ => True

instance (s : State) : DecidablePred (Safe s)
  | .block _ => inferInstanceAs (Decidable (Inside _ _))
  | .others _ => inferInstanceAs (Decidable True)

/-! ## Packets that fit -/

/-- The names that `_sess_find` compares with that of the packet: those of the sessions in the
state, up to the first that is the same. -/
def compared (s : State) (mem : List Byte) (off : Nat) (st : SessionSt) :
    List Nat → List (List Byte)
  | [] => []
  | i :: is =>
    if (s.sess i).st = st then
      match (s.sess i).name with
      | none => compared s mem off st is
      | some name =>
        name :: if strEq name (mem.drop off) then [] else compared s mem off st is
    else compared s mem off st is

theorem sessFind_accesses (s : State) (mem : List Byte) (off : Nat) (st : SessionSt)
    (is : List Nat) :
    (sessFind s mem off st is).2 = (compared s mem off st is).map fun name =>
      .packet off (strcmpReads name (mem.drop off)) := by
  induction is with
  | nil => rfl
  | cons i is ih =>
    unfold sessFind compared
    split
    · cases (s.sess i).name with
      | none => exact ih
      | some name =>
        by_cases heq : strEq name (mem.drop off)
        · simp [heq]
        · simp [heq, ih]
    · exact ih

/-- The name at `off` differs inside of the packet from every name that it is compared with, or
ends there. -/
def NameFits (s : State) (b : Block) (off : Nat) (st : SessionSt) : Prop :=
  ∀ name ∈ compared s b.mem off st sessions,
    off + strcmpReads name (b.mem.drop off) ≤ b.len.toNat

theorem sessFind_inside (s : State) (b : Block) (off : Nat) (st : SessionSt) :
    Inside b.len.toNat (sessFind s b.mem off st sessions).2 ↔ NameFits s b off st := by
  rw [sessFind_accesses]
  exact List.forall_mem_map

/-- A session in the state has the name at `off`. -/
def Found (s : State) (b : Block) (off : Nat) (st : SessionSt) : Prop :=
  (sessFind s b.mem off st sessions).1 ≠ none

/-- The bytes of the command are in the packet, and the number of an acknowledged channel is one. -/
def CommandFits (s : State) (b : Block) : Prop :=
  match b.mem.getD 0 0 with
  | 0 => NameFits s b 1 .listening
  | 2 =>
    NameFits s b 1 .establishing ∧
      (Found s b 1 .establishing → strlen (b.mem.drop 1) + 3 ≤ b.len.toNat)
  | 3 =>
    2 ≤ b.len.toNat ∧
      match b.mem.getD 1 0 with
      | 2 =>
        NameFits s b 2 .establishing ∧
          (Found s b 2 .establishing →
            strlen (b.mem.drop 2) + 4 ≤ b.len.toNat ∧
              (b.mem.getD (strlen (b.mem.drop 2) + 3) 0).toNat < rtVbusChannelNr)
      | 1 => 3 ≤ b.len.toNat
      | _ => True
  | 4 => 2 ≤ b.len.toNat ∧ (b.mem.getD 1 0 = 0 → NameFits s b 2 .establishing)
  | 1 | 5 | 6 => 2 ≤ b.len.toNat
  | _ => True

def Fits (s : State) : Event → Prop
  | .block b =>
    b.id.toNat ≠ rtVbusChannelNr ∧
      (b.id.toNat = 0 → chnConnected s 0 → b.len.toNat ≤ 60 →
        1 ≤ b.len.toNat ∧ CommandFits s b)
  | .others _ => True

/-! ## The commands -/

section

variable (s : State) (b : Block)

theorem enable_inside (hlen : 1 ≤ b.len.toNat) :
    Inside b.len.toNat (enable s b).2 ↔ NameFits s b 1 .listening := by
  rw [← sessFind_inside]
  unfold enable
  dsimp only
  cases (sessFind s b.mem 1 .listening sessions).1 with
  | none => simp
  | some i =>
    dsimp only
    split
    · simp [search_inside le_rfl]
    next chnr hfind =>
      have hchnr : chnr < rtVbusChannelNr := List.mem_range.mp (List.mem_of_find?_eq_some hfind)
      have hcopy : 1 + wsub 32 b.len.toNat 1 ≤ b.len.toNat := by
        unfold wsub
        omega
      split
      · split <;> simp [search_inside (Nat.succ_le_of_lt hchnr), hchnr, hcopy]
      · simp [search_inside (Nat.succ_le_of_lt hchnr)]

theorem set_inside : Inside b.len.toNat (set s b).2 ↔ NameFits s b 1 .establishing ∧
        (Found s b 1 .establishing → strlen (b.mem.drop 1) + 3 ≤ b.len.toNat) := by
  rw [← sessFind_inside]
  unfold set Found
  dsimp only
  cases (sessFind s b.mem 1 .establishing sessions).1 with
  | none => simp
  | some i =>
    have hnumber : Inside b.len.toNat [.packet 1 (strlen (b.mem.drop 1) + 1),
        .packet (1 + strlen (b.mem.drop 1) + 1) 1] ↔
        strlen (b.mem.drop 1) + 3 ≤ b.len.toNat := by
      simp
      omega
    simp only [ne_eq, reduceCtorEq, not_false_eq_true, forall_const]
    split
    · rw [inside_append, hnumber]
    next hchnr =>
      have hlt : (b.mem.getD (1 + strlen (b.mem.drop 1) + 1) 0).toNat < rtVbusChannelNr := by
        omega
      split
      · simp only [inside_append, inside_table, inside_nil, echo_inside, hnumber, hlt, and_true]
      · split <;>
          simp only [inside_append, inside_table, inside_nil, echo_inside, setWm_inside, hnumber,
            hlt, and_true]

theorem ackSet_inside : Inside b.len.toNat (ackSet s b).2 ↔ NameFits s b 2 .establishing ∧
        (Found s b 2 .establishing →
          strlen (b.mem.drop 2) + 4 ≤ b.len.toNat ∧
            (b.mem.getD (strlen (b.mem.drop 2) + 3) 0).toNat < rtVbusChannelNr) := by
  rw [← sessFind_inside]
  unfold ackSet Found
  dsimp only
  cases (sessFind s b.mem 2 .establishing sessions).1 with
  | none => simp
  | some i =>
    have hoff : 1 + strlen (b.mem.drop 2) + 2 = strlen (b.mem.drop 2) + 3 := by omega
    simp only [ne_eq, reduceCtorEq, not_false_eq_true, forall_const, inside_append,
      inside_packet, inside_table, inside_nil, and_true, hoff]
    constructor
    · intro ⟨hname, _, hnumber, hchnr⟩
      exact ⟨hname, by omega, hchnr⟩
    · intro ⟨hname, hnumber, hchnr⟩
      exact ⟨hname, by omega, by omega, hchnr⟩

theorem nakEnable_inside : Inside b.len.toNat (nakEnable s b).2 ↔ NameFits s b 2 .establishing := by
  rw [← sessFind_inside]
  unfold nakEnable
  dsimp only
  cases (sessFind s b.mem 2 .establishing sessions).1 <;> rfl

theorem numbered_inside (off : Nat) {act : Nat → State × List Access}
    (hact : ∀ chnr < rtVbusChannelNr, Inside b.len.toNat (act chnr).2) :
    Inside b.len.toNat (numbered s b off act).2 ↔ off + 1 ≤ b.len.toNat := by
  unfold numbered
  dsimp only
  split
  · simp
  next hchnr =>
    have hlt : (b.mem.getD off 0).toNat < rtVbusChannelNr := by omega
    rw [inside_packet]
    exact and_iff_left (hact _ hlt)

theorem ackDisable_inside : Inside b.len.toNat (ackDisable s b).2 ↔ 3 ≤ b.len.toNat :=
  numbered_inside s b 2 fun chnr hchnr => by simp [hchnr]

theorem disable_inside : Inside b.len.toNat (disable s b).2 ↔ 2 ≤ b.len.toNat :=
  numbered_inside s b 1 fun chnr hchnr => by simp [hchnr]

theorem suspend_inside : Inside b.len.toNat (suspend s b).2 ↔ 2 ≤ b.len.toNat :=
  numbered_inside s b 1 fun chnr hchnr => by split <;> simp [hchnr]

theorem resume_inside : Inside b.len.toNat (resume s b).2 ↔ 2 ≤ b.len.toNat :=
  numbered_inside s b 1 fun chnr hchnr => by split <;> simp [hchnr]

theorem chn0Command_inside (hlen : 1 ≤ b.len.toNat) :
    Inside b.len.toNat (chn0Command s b).2 ↔ CommandFits s b := by
  unfold chn0Command CommandFits
  generalize b.mem.getD 0 0 = command, b.mem.getD 1 0 = kind
  split
  · exact enable_inside s b hlen
  · exact disable_inside s b
  · exact set_inside s b
  · rw [inside_packet]
    apply and_congr Iff.rfl
    split
    · exact ackSet_inside s b
    · exact ackDisable_inside s b
    · simp
  · rw [inside_packet]
    apply and_congr Iff.rfl
    split
    · simp [nakEnable_inside]
    next hkind => exact iff_of_true inside_nil fun hzero => absurd hzero hkind
  · exact suspend_inside s b
  · exact resume_inside s b
  · simp

theorem chn0Actor_inside :
    Inside b.len.toNat (chn0Actor s b).2 ↔ 1 ≤ b.len.toNat ∧ CommandFits s b := by
  unfold chn0Actor
  rw [inside_packet, Nat.zero_add]
  exact and_congr_right (chn0Command_inside s b)

end

/-! ## The loop -/

theorem dataPush_inside {id : Nat} : Inside size (dataPush id) ↔ id < rtVbusChannelNr := by
  simp [dataPush]

theorem busIn_inside (s : State) (b : Block) : Inside b.len.toNat (busIn s b).2 ↔
      b.id.toNat ≠ rtVbusChannelNr ∧
        (b.id.toNat = 0 → chnConnected s 0 → b.len.toNat ≤ 60 →
          1 ≤ b.len.toNat ∧ CommandFits s b) := by
  unfold busIn
  dsimp only
  split
  next hid =>
    have hne : b.id.toNat ≠ 0 := by omega
    simp [hne, ne_of_gt hid]
  next hid =>
    rw [← (Nat.le_of_not_lt hid).lt_iff_ne]
    split
    next hclosed =>
      simp only [inside_table, inside_nil, and_true, iff_self_and]
      intro _ hzero hconnected
      exact absurd (hzero ▸ hconnected) hclosed
    next hconnected =>
      split
      next hzero =>
        rw [hzero] at hconnected ⊢
        split
        next hbig => simp [Nat.not_le_of_lt hbig]
        next hsmall =>
          rw [inside_table, chn0Actor_inside]
          simp [not_not.mp hconnected, Nat.le_of_not_lt hsmall]
      next hne =>
        split <;> simp [hne, dataPush_inside]

/-- A block of the ring is handled inside of the tables and of its packet when its number is not
that of the entry behind the last, and a packet of channel 0 is as long as its command. Nothing else
is tested by the loop. -/
theorem indices_safe (s : State) (events : List Event) :
    Runs.Along step Safe s events ↔ Runs.Along step Fits s events := by
  have hstep : ∀ s e, Safe s e ↔ Fits s e := fun s e => by
    cases e with
    | block b => exact busIn_inside s b
    | others t => exact Iff.rfl
  exact ⟨.mono fun s e => (hstep s e).mp, .mono fun s e => (hstep s e).mpr⟩

/-- The number 32 is not dropped; an empty packet and one of a byte are read; and the number of an
acknowledged channel is not tested. -/
theorem indices_escape : ¬ Runs.Along step Safe rtVbusInit [.block ⟨32, 0, [], false, false⟩] ∧
      ¬ Runs.Along step Safe rtVbusInit [.block ⟨0, 0, [], false, false⟩] ∧
      ¬ Runs.Along step Safe rtVbusInit [.block ⟨0, 1, [5], false, false⟩] ∧
      ¬ Runs.Along step Safe rtVbusInit
          [.others { rtVbusInit with sess := fun _ => ⟨0, .establishing, some [97]⟩ },
            .block ⟨0, 5, [3, 2, 97, 0, 200], false, false⟩] := by
  decide

end RtThread.VbusInput
