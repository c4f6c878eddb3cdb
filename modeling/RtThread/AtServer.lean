import RtThread.AtClientLines
import RtThread.Lib.Runs

/-!
# The parser of the server of AT commands

`server_parser` of `at_server.c` over the bytes that it reads. An access outside of `recv_buffer`
or of `cur_cmd_name` is refused, as is the search for a NUL that is not there. What the server
prints is left out, and of what a command does to the server only its echo mode remains.
-/
namespace RtThread.AtServer

open AtClient

/-- `AT_SERVER_RECV_BUFF_LEN`. -/
def recvBuffLen : Nat := 256

/-- `AT_CMD_NAME_LEN`. -/
def cmdNameLen : Nat := 16

def escKey : Byte := 0x1b

def backspaceKey : Byte := 0x08

def delectKey : Byte := 0x7f

/-- `AT_CMD_END_MARK`. -/
inductive EndMark where
  | crlf | cr | lf
  deriving DecidableEq

def EndMark.bytes : EndMark → List Byte
  | crlf => [AtClient.cr, AtClient.lf]
  | cr => [AtClient.cr]
  | lf => [AtClient.lf]

/-- `struct at_server`, and whether the parser has not left its loop. -/
structure Server where
  recvBuffer : List Byte
  curRecvLen : Nat
  echoMode : Bool
  running : Bool
  deriving DecidableEq

/-- A character, and the echo mode that a command leaves. -/
structure Input where
  ch : Byte
  echo : Bool

/-- The parser of a server that has been set up. -/
def start (echo : Bool) : Server := ⟨List.replicate recvBuffLen 0, 0, echo, true⟩

/-- The characters at which the name of a command ends. -/
def endsName (b : Byte) : Bool := b = 0x3f ∨ b = 0x3d ∨ b = cr ∨ (0x30 ≤ b ∧ b ≤ 0x39)

/-- `cmd_name_len` of `at_cmd_get_name`. -/
def cmdNameLength (cmdBuffer : List Byte) : Option Nat := (cString cmdBuffer).findIdx? endsName

/-- `at_cmd_get_name`: the name, or no name, with the NUL written inside of `cmd_name`. -/
def atCmdGetName (cmdBuffer : List Byte) : Option (Option (List Byte)) :=
  match cmdNameLength cmdBuffer with
  | none => some none
  | some len => if len < cmdNameLen then some (some (cmdBuffer.take len)) else none

def setByte (s : Server) (i : Nat) (b : Byte) : Option (List Byte) :=
  if i < recvBuffLen then some (s.recvBuffer.set i b) else none

/-- The loop up to the search of the end mark, and whether it gets there. -/
def receive (s : Server) (ch : Byte) : Option (Server × Bool) :=
  if s.running = false then some (s, false)
  else if ch = escKey then some ({ s with running := false }, false)
  else if s.echoMode = true ∧ (ch = backspaceKey ∨ ch = delectKey) then
    if s.curRecvLen ≠ 0 then
      (setByte s (s.curRecvLen - 1) 0).map fun buf =>
        ({ s with recvBuffer := buf, curRecvLen := s.curRecvLen - 1 }, false)
    else some (s, false)
  else
    (setByte s s.curRecvLen ch).map fun buf =>
      ({ s with recvBuffer := buf, curRecvLen := s.curRecvLen + 1 }, true)

/-- The loop from the search of the end mark on. -/
def process (m : EndMark) (echo : Bool) (s : Server) : Option Server :=
  if 0 ∉ s.recvBuffer then none
  else if m.bytes <:+: cString s.recvBuffer then
    (atCmdGetName s.recvBuffer).map fun name =>
      { s with
        recvBuffer := List.replicate recvBuffLen 0
        curRecvLen := 0
        echoMode := if name.isSome then echo else s.echoMode }
  else some s

/-- A turn of the loop of `server_parser`. -/
def serverParser (m : EndMark) (s : Server) (input : Input) : Option Server :=
  (receive s input.ch).bind fun x => if x.2 then process m input.echo x.1 else some x.1

/-! ## What is asked of the parser -/

/-- The buffer holds a string. -/
def Terminated (s : Server) : Prop := s.curRecvLen < recvBuffLen ∧ 0 ∈ s.recvBuffer

/-- It also does where the end mark is searched. -/
def TerminatedAtSearch (s : Server) (input : Input) : Prop :=
  ∀ x, receive s input.ch = some x → Terminated x.1

/-- The character goes to the buffer. -/
def Stores (s : Server) (ch : Byte) : Prop :=
  s.running = true ∧ ch ≠ escKey ∧ ¬ (s.echoMode = true ∧ (ch = backspaceKey ∨ ch = delectKey))

def Server.text (s : Server) : List Byte := s.recvBuffer.take s.curRecvLen

/-- A character that is stored leaves room for the NUL, and one that completes the end mark does
so behind a name that fits. -/
def Fits (m : EndMark) (s : Server) (input : Input) : Prop :=
  Stores s input.ch → s.curRecvLen + 1 < recvBuffLen ∧
    (m.bytes <:+: cString (s.text ++ [input.ch]) →
      ∀ len, cmdNameLength (s.text ++ [input.ch]) = some len → len < cmdNameLen)

/-- The buffer holds the text that has been received, and zeros behind it. -/
def Holds (s : Server) (text : List Byte) : Prop :=
  s.recvBuffer = text ++ List.replicate (recvBuffLen - text.length) 0 ∧
    s.curRecvLen = text.length ∧ text.length < recvBuffLen

section steps

variable {m : EndMark} {s : Server} {text : List Byte} {ch : Byte} {input : Input}

theorem Holds.text_eq (h : Holds s text) : s.text = text := by
  rw [Server.text, h.1, h.2.1, List.take_left]

theorem mem_zeros (text : List Byte) {n : Nat} (hn : 0 < n) :
    (0 : Byte) ∈ text ++ List.replicate n 0 :=
  List.mem_append_right text (List.mem_replicate.mpr ⟨by omega, rfl⟩)

theorem cString_zeros (text : List Byte) (n : Nat) :
    cString (text ++ List.replicate n 0) = cString text := by
  cases n with
  | zero => rw [List.replicate_zero, List.append_nil]
  | succ n => rw [List.replicate_succ, cString_append]

theorem Holds.terminated (h : Holds s text) : Terminated s := by
  obtain ⟨hbuf, hlen, hroom⟩ := h
  refine ⟨by omega, ?_⟩
  rw [hbuf]
  exact mem_zeros text (by omega)

/-- The buffer after a store. -/
theorem Holds.set (h : Holds s text) :
    s.recvBuffer.set s.curRecvLen ch =
      (text ++ [ch]) ++ List.replicate (recvBuffLen - (text ++ [ch]).length) 0 := by
  obtain ⟨hbuf, hlen, hroom⟩ := h
  rw [hbuf, hlen, List.set_append_right _ _ (Nat.le_refl _), Nat.sub_self,
    show recvBuffLen - text.length = recvBuffLen - (text ++ [ch]).length + 1 by
      rw [List.length_append, List.length_singleton]; omega,
    List.replicate_succ, List.set_cons_zero, List.append_assoc]
  rfl

/-- The server after a character that has been stored. -/
def Server.stored (s : Server) (ch : Byte) : Server :=
  { s with recvBuffer := s.recvBuffer.set s.curRecvLen ch, curRecvLen := s.curRecvLen + 1 }

theorem Holds.stored (h : Holds s text) (hroom : s.curRecvLen + 1 < recvBuffLen) :
    Holds (s.stored ch) (text ++ [ch]) := by
  refine ⟨h.set, ?_, ?_⟩
  · rw [List.length_append, List.length_singleton, ← h.2.1]
    rfl
  · rw [List.length_append, List.length_singleton, ← h.2.1]
    exact hroom

theorem Holds.receive_stores (h : Holds s text) (hs : Stores s ch) :
    receive s ch = some (s.stored ch, true) := by
  obtain ⟨hrun, hesc, hedit⟩ := hs
  have hlen := h.2.1
  have hroom := h.2.2
  rw [receive, if_neg (by simp [hrun]), if_neg hesc, if_neg hedit, setByte, if_pos (by omega)]
  rfl

/-- Every other character ends the loop, or takes one back. -/
theorem Holds.receive_other (h : Holds s text) (hs : ¬ Stores s ch) :
    ∃ x text', receive s ch = some (x, false) ∧ Holds x text' := by
  by_cases hrun : s.running = false
  · exact ⟨s, text, by rw [receive, if_pos hrun], h⟩
  · by_cases hesc : ch = escKey
    · exact ⟨{ s with running := false }, text, by rw [receive, if_neg hrun, if_pos hesc], h⟩
    · have hedit : s.echoMode = true ∧ (ch = backspaceKey ∨ ch = delectKey) := by
        by_contra hno
        exact hs ⟨by simpa using hrun, hesc, hno⟩
      obtain ⟨hbuf, hlen, hroom⟩ := h
      rcases List.eq_nil_or_concat text with rfl | ⟨front, last, rfl⟩
      · refine ⟨s, [], ?_, hbuf, hlen, hroom⟩
        rw [receive, if_neg hrun, if_neg hesc, if_pos hedit, if_neg (by simp [hlen])]
      · simp only [List.concat_eq_append] at hbuf hlen hroom
        rw [List.length_append, List.length_singleton] at hlen hroom
        refine ⟨{ s with
          recvBuffer := s.recvBuffer.set (s.curRecvLen - 1) 0
          curRecvLen := s.curRecvLen - 1 }, front, ?_, ?_, ?_, by omega⟩
        · rw [receive, if_neg hrun, if_neg hesc, if_pos hedit, if_pos (by omega), setByte,
            if_pos (by omega)]
          rfl
        · rw [hbuf, hlen, Nat.add_sub_cancel, List.append_assoc,
            List.set_append_right _ _ (Nat.le_refl _), Nat.sub_self,
            show recvBuffLen - front.length = recvBuffLen - (front ++ [last]).length + 1 by
              rw [List.length_append, List.length_singleton]; omega]
          rfl
        · show s.curRecvLen - 1 = _
          omega

/-- The search finds the NUL. It fails only behind a name that does not fit. -/
theorem Holds.process (h : Holds s text) (echo : Bool) :
    if m.bytes <:+: cString text ∧ ∃ len, cmdNameLength text = some len ∧ cmdNameLen ≤ len then
      process m echo s = none
    else ∃ y text', process m echo s = some y ∧ Holds y text' := by
  have hstring : cString s.recvBuffer = cString text := by rw [h.1, cString_zeros]
  have hname : cmdNameLength s.recvBuffer = cmdNameLength text := by
    rw [cmdNameLength, hstring, cmdNameLength]
  have hprocess : AtServer.process m echo s = if m.bytes <:+: cString text then
      (atCmdGetName s.recvBuffer).map fun name =>
        { s with
          recvBuffer := List.replicate recvBuffLen 0
          curRecvLen := 0
          echoMode := if name.isSome then echo else s.echoMode }
      else some s := by
    rw [AtServer.process, if_neg (not_not.mpr h.terminated.2), hstring]
  have hclear : ∀ name : Option (List Byte), Holds
      { s with
        recvBuffer := List.replicate recvBuffLen 0
        curRecvLen := 0
        echoMode := if name.isSome then echo else s.echoMode } [] := by
    intro name
    exact ⟨rfl, rfl, Nat.two_pow_pos 8⟩
  rw [hprocess]
  by_cases hmark : m.bytes <:+: cString text
  · rw [if_pos hmark, atCmdGetName, hname]
    cases hlen : cmdNameLength text with
    | none =>
      rw [if_neg (by simp)]
      exact ⟨_, [], rfl, hclear none⟩
    | some len =>
      by_cases hfits : len < cmdNameLen
      · rw [if_neg (by rintro ⟨-, l, hl, hge⟩; cases hl; omega)]
        dsimp only
        rw [if_pos hfits]
        exact ⟨_, [], rfl, hclear (some _)⟩
      · rw [if_pos ⟨hmark, len, rfl, by omega⟩]
        dsimp only
        rw [if_neg hfits]
        rfl
  · rw [if_neg fun h => hmark h.1, if_neg hmark]
    exact ⟨s, text, rfl, h⟩

theorem serverParser_stores (h : Holds s text) (hs : Stores s input.ch) :
    serverParser m s input = process m input.echo (s.stored input.ch) := by
  rw [serverParser, h.receive_stores hs]
  rfl

/-- A good character leaves a string, and the parser goes on. -/
theorem Holds.good (h : Holds s text) (hfits : Fits m s input) :
    TerminatedAtSearch s input ∧ ∃ y, serverParser m s input = some y ∧ ∃ text', Holds y text' := by
  by_cases hs : Stores s input.ch
  · obtain ⟨hroom, hname⟩ := hfits hs
    have hstored : Holds (s.stored input.ch) (text ++ [input.ch]) := h.stored hroom
    constructor
    · intro x hx
      rw [h.receive_stores hs] at hx
      cases hx
      exact hstored.terminated
    · have hprocess := hstored.process (m := m) input.echo
      rw [if_neg] at hprocess
      · obtain ⟨y, text', hy, hholds⟩ := hprocess
        exact ⟨y, (serverParser_stores h hs).trans hy, text', hholds⟩
      · rintro ⟨hmark, len, hlen, hlong⟩
        rw [h.text_eq] at hname
        have hshort := hname hmark len hlen
        omega
  · obtain ⟨x, text', hreceive, hholds⟩ := h.receive_other hs
    constructor
    · intro y hy
      rw [hreceive] at hy
      cases hy
      exact hholds.terminated
    · refine ⟨x, ?_, text', hholds⟩
      rw [serverParser, hreceive]
      rfl

/-- After a bad character there is no room for the NUL, or the name does not fit. -/
theorem Holds.bad (h : Holds s text) (hfits : ¬ Fits m s input)
    (hterm : TerminatedAtSearch s input) : serverParser m s input = none := by
  obtain ⟨hs, hbad⟩ := Classical.not_imp.mp hfits
  have hroom : s.curRecvLen + 1 < recvBuffLen := (hterm _ (h.receive_stores hs)).1
  obtain ⟨hmark, hname⟩ := Classical.not_imp.mp fun himp => hbad ⟨hroom, himp⟩
  obtain ⟨len, hname⟩ := not_forall.mp hname
  obtain ⟨hlen, hlong⟩ := Classical.not_imp.mp hname
  rw [h.text_eq] at hmark hlen
  have hstored : Holds (s.stored input.ch) (text ++ [input.ch]) := h.stored hroom
  have hprocess := hstored.process (m := m) input.echo
  rw [if_pos ⟨hmark, len, hlen, Nat.le_of_not_lt hlong⟩] at hprocess
  rw [serverParser_stores h hs, hprocess]

end steps

theorem holds_start (echo : Bool) : Holds (start echo) [] := ⟨rfl, rfl, Nat.two_pow_pos 8⟩

/-- Whatever is received, the parser goes on to the end, the buffer holds a string whenever the end
mark is searched and after every turn, and the name of a command fits, exactly when every
character that is stored leaves room for the NUL and every command begins with a short name. -/
theorem server_parser_safe (m : EndMark) (echo : Bool) (inputs : List Input) :
    ((∃ s, Runs.run (serverParser m) (start echo) inputs = some s) ∧
        Runs.Always (serverParser m) Terminated (start echo) inputs ∧
        Runs.Along (serverParser m) TerminatedAtSearch (start echo) inputs) ↔
      Runs.Along (serverParser m) (Fits m) (start echo) inputs := by
  have hterminated : ∀ s, (∃ text, Holds s text) → Terminated s := by
    rintro s ⟨text, h⟩
    exact h.terminated
  refine Runs.complete_iff_along hterminated ?_ ?_ ⟨[], holds_start echo⟩
  · rintro s input ⟨text, h⟩ hfits
    exact h.good hfits
  · rintro s input ⟨text, h⟩ hfits hterm y hy
    rw [h.bad hfits hterm] at hy
    cases hy

/-- A NUL and 256 letters are stored behind the buffer, and a name of 16 letters behind
`cur_cmd_name`. -/
theorem server_parser_overflows :
    Runs.run (serverParser .crlf) (start false)
      ((0 :: List.replicate 256 0x41).map fun ch => ⟨ch, false⟩) = none ∧
    Runs.run (serverParser .crlf) (start false)
      ((List.replicate 16 0x41 ++ [0x3d, 0x31, 0x0d, 0x0a]).map fun ch => ⟨ch, false⟩) = none := by
  decide +kernel

end RtThread.AtServer
