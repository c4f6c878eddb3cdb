import RtThread.Lib.Runs
import RtThread.RtDef

/-!
# The line editor of the shell

The loop of `finsh_thread_entry` over the characters it receives, with the history and the
completion of `msh_auto_complete`. The array `line` is a list of bytes, and an access outside of
it is refused, as is the search for a NUL that is not there. A completion finds the entries of
the directory it opens in its input. A command that `msh_exec` runs works on a line that is
cleared behind it, and of what it does to the shell only the echo mode remains.
-/
namespace RtThread.Shell

abbrev Byte := BitVec 8

/-- `FINSH_CMD_SIZE`. -/
def finshCmdSize : Nat := 80

/-- `FINSH_HISTORY_LINES`. -/
def finshHistoryLines : Nat := 5

/-- The characters of a C string, its NUL left out. -/
abbrev CString := {text : List Byte // (0 : Byte) ∉ text}

inductive InputStat where
  | waitNormal | waitSpecKey | waitFuncKey
  deriving DecidableEq

structure FinshShell where
  stat : InputStat
  echoMode : Bool
  currentHistory : Nat
  historyCount : Nat
  cmdHistory : List (List Byte)
  line : List Byte
  linePosition : Nat
  lineCurpos : Nat
  deriving DecidableEq

/-- A shell of `finsh_system_init`: the memory is zero, the echo is on. -/
def finshSystemInit : FinshShell where
  stat := .waitNormal
  echoMode := true
  currentHistory := 0
  historyCount := 0
  cmdHistory := List.replicate finshHistoryLines (List.replicate finshCmdSize 0)
  line := List.replicate (finshCmdSize + 1) 0
  linePosition := 0
  lineCurpos := 0

/-- A character, and what the rest of the system answers to it. -/
structure Input where
  ch : Byte
  /-- The entries of the directory of a completion, `none` if it is not read. -/
  dirents : Option (List CString)
  /-- The echo mode that a command leaves. -/
  echo : Bool

/-- The string at the start of some bytes. -/
def cString (bytes : List Byte) : Option (List Byte) :=
  if 0 ∈ bytes then some (bytes.takeWhile (· ≠ 0)) else none

def store (line : List Byte) (i : Nat) (b : Byte) : Option (List Byte) :=
  if i < line.length then some (line.set i b) else none

def copyTo (line : List Byte) (i : Nat) (bytes : List Byte) : Option (List Byte) :=
  if i + bytes.length ≤ line.length then
    some (line.take i ++ bytes ++ line.drop (i + bytes.length))
  else none

/-- `rt_memmove` inside of the line. -/
def rtMemmove (line : List Byte) (dst src n : Nat) : Option (List Byte) :=
  if src + n ≤ line.length then copyTo line dst ((line.drop src).take n) else none

/-- The keys that the control sequences stand for. -/
inductive Key where
  | up | down | left | right | tab | backspace | enter
  | char (c : Byte)
  deriving DecidableEq

/-- The key of a character outside of a control sequence. -/
def plainKey (ch : Byte) : Option Key :=
  if ch = 0 ∨ ch = 0xFF then none
  else if ch = 9 then some .tab
  else if ch = 0x7f ∨ ch = 0x08 then some .backspace
  else if ch = 13 ∨ ch = 10 then some .enter
  else some (.char ch)

/-- The control keys: `0x1b 0x5b` and one character more. -/
def decodeKey (stat : InputStat) (ch : Byte) : InputStat × Option Key :=
  if ch = 0x1b then (.waitSpecKey, none)
  else
    match stat with
    | .waitNormal => (.waitNormal, plainKey ch)
    | .waitSpecKey => if ch = 0x5b then (.waitFuncKey, none) else (.waitNormal, plainKey ch)
    | .waitFuncKey =>
      if ch = 0x41 then (.waitNormal, some .up)
      else if ch = 0x42 then (.waitNormal, some .down)
      else if ch = 0x44 then (.waitNormal, some .left)
      else if ch = 0x43 then (.waitNormal, some .right)
      else (.waitNormal, plainKey ch)

/-- `str_common`. -/
def strCommon : List Byte → List Byte → Nat
  | a :: as, b :: bs => if a = b then strCommon as bs + 1 else 0
  | _, _ => 0

/-- One candidate: the name that is kept and `min_length`. -/
def scanName (word : List Byte) (kept : List Byte × Nat) (name : CString) : List Byte × Nat :=
  if word.isPrefixOf name.val then
    let kept := if kept.2 = 0 then (name.val, name.val.length) else kept
    (kept.1, min kept.2 (strCommon name.val kept.1))
  else kept

/-- What is found for a word: the first `min_length` characters of the name that is kept. -/
def scanNames (word : List Byte) (names : List CString) : List Byte :=
  let kept := names.foldl (scanName word) ([], 0)
  kept.1.take kept.2

/-- The index behind the last `/` of a path, and 0 without one. -/
def nameIndex : Nat → Nat → List Byte → Nat
  | index, _, [] => index
  | index, ptr, c :: path => nameIndex (if c = 0x2f then ptr + 1 else index) (ptr + 1) path

/-- The index of the last space of a line that is not its first character, below a bound. -/
def spaceIndex (text : List Byte) : Nat → Option Nat
  | 0 => none
  | ptr + 1 => if text[ptr + 1]? = some 0x20 then some (ptr + 1) else spaceIndex text ptr

/-- `msh_auto_complete_path` for the path at an index of the line. -/
def mshAutoCompletePath (dirents : Option (List CString)) (line : List Byte) (start : Nat) :
    Option (List Byte) :=
  match dirents with
  | none => some line
  | some names => do
    let path ← cString (line.drop start)
    let index := nameIndex 0 0 path
    let found := scanNames (path.drop index) names
    if path.drop index = [] ∨ found = [] then some line
    else do
      let line ← copyTo line (start + index) found
      store line (start + index + found.length) 0

/-- The name of a file behind a space is completed before the command. -/
def completeFile (dirents : Option (List CString)) (line text : List Byte) :
    Option (List Byte) :=
  match spaceIndex text text.length with
  | none => some line
  | some ptr => mshAutoCompletePath dirents line (ptr + 1)

/-- `msh_auto_complete`. -/
def mshAutoComplete (commands : List CString) (dirents : Option (List CString))
    (line : List Byte) : Option (List Byte) := do
  let text ← cString line
  if text = [] then some line
  else do
    let line ← completeFile dirents line text
    let text ← cString line
    copyTo line 0 (scanNames text commands)

/-- The position and the cursor behind the string in the line. -/
def recalculate (s : FinshShell) (line : List Byte) : Option FinshShell := do
  let text ← cString line
  some { s with line, linePosition := text.length, lineCurpos := text.length }

def tabKey (commands : List CString) (dirents : Option (List CString)) (s : FinshShell) :
    Option FinshShell := do
  let line ← mshAutoComplete commands dirents s.line
  recalculate s line

/-- The command of the history that is current becomes the line. -/
def recallHistory (s : FinshShell) : Option FinshShell := do
  let entry ← s.cmdHistory[s.currentHistory]?
  let line ← copyTo s.line 0 entry
  recalculate s line

def upKey (s : FinshShell) : Option FinshShell :=
  if 0 < s.currentHistory then
    recallHistory { s with currentHistory := s.currentHistory - 1 }
  else some { s with currentHistory := 0 }

def downKey (s : FinshShell) : Option FinshShell :=
  if s.currentHistory + 1 < s.historyCount then
    recallHistory { s with currentHistory := s.currentHistory + 1 }
  else if s.historyCount ≠ 0 then
    recallHistory { s with currentHistory := s.historyCount - 1 }
  else some s

def leftKey (s : FinshShell) : Option FinshShell :=
  if s.lineCurpos ≠ 0 then some { s with lineCurpos := wsub 16 s.lineCurpos 1 } else some s

def rightKey (s : FinshShell) : Option FinshShell :=
  if s.lineCurpos < s.linePosition then do
    let _ ← s.line[s.lineCurpos]?
    some { s with lineCurpos := wadd 16 s.lineCurpos 1 }
  else some s

/-- The line without the character before the cursor, for the new position and cursor. -/
def deleteAt (line : List Byte) (position curpos : Nat) : Option (List Byte) :=
  if curpos < position then do
    let line ← rtMemmove line curpos (curpos + 1) (position - curpos)
    let line ← store line position 0
    let _ ← cString (line.drop curpos)
    some line
  else store line position 0

def backspaceKey (s : FinshShell) : Option FinshShell :=
  if s.lineCurpos = 0 then some s
  else do
    let position := wsub 16 s.linePosition 1
    let curpos := wsub 16 s.lineCurpos 1
    let line ← deleteAt s.line position curpos
    some { s with line, linePosition := position, lineCurpos := curpos }

/-- A row of the history with the line in it. -/
def historyEntry (s : FinshShell) : Option (List Byte) :=
  if s.linePosition ≤ finshCmdSize then
    some (s.line.take s.linePosition ++ List.replicate (finshCmdSize - s.linePosition) 0)
  else none

/-- The new history of `shell_push_history`, unless the line is the last command again. -/
def pushEntry (s : FinshShell) : Option FinshShell :=
  if finshHistoryLines ≤ s.historyCount then
    if s.cmdHistory[finshHistoryLines - 1]? ≠ some (s.line.take finshCmdSize) then do
      let entry ← historyEntry s
      some { s with cmdHistory := s.cmdHistory.tail ++ [entry], historyCount := finshHistoryLines }
    else some s
  else if s.historyCount = 0 ∨
      s.cmdHistory[s.historyCount - 1]? ≠ some (s.line.take finshCmdSize) then do
    let entry ← historyEntry s
    some { s with
      cmdHistory := s.cmdHistory.set s.historyCount entry, historyCount := s.historyCount + 1 }
  else some s

/-- `shell_push_history`. -/
def shellPushHistory (s : FinshShell) : Option FinshShell :=
  (if s.linePosition ≠ 0 then pushEntry s else some s).map fun s =>
    { s with currentHistory := s.historyCount }

/-- The command is kept and run, and the line is cleared. -/
def enterKey (echo : Bool) (s : FinshShell) : Option FinshShell := do
  let s ← shellPushHistory s
  some { s with
    echoMode := echo
    line := List.replicate (finshCmdSize + 1) 0
    linePosition := 0
    lineCurpos := 0 }

/-- The line with a character at the cursor. -/
def insertAt (echo : Bool) (line : List Byte) (position curpos : Nat) (ch : Byte) :
    Option (List Byte) :=
  if curpos < position then do
    let line ← rtMemmove line (curpos + 1) curpos (position - curpos)
    let line ← store line curpos ch
    if echo then do
      let _ ← cString (line.drop curpos)
      some line
    else some line
  else store line position ch

def charKey (ch : Byte) (s : FinshShell) : Option FinshShell := do
  let position := if finshCmdSize ≤ s.linePosition then 0 else s.linePosition
  let line ← insertAt s.echoMode s.line position s.lineCurpos ch
  if finshCmdSize ≤ wadd 16 position 1 then
    some { s with line, linePosition := 0, lineCurpos := 0 }
  else
    some { s with
      line, linePosition := wadd 16 position 1, lineCurpos := wadd 16 s.lineCurpos 1 }

def handleKey (commands : List CString) (input : Input) (s : FinshShell) :
    Key → Option FinshShell
  | .up => upKey s
  | .down => downKey s
  | .left => leftKey s
  | .right => rightKey s
  | .tab => tabKey commands input.dirents s
  | .backspace => backspaceKey s
  | .enter => enterKey input.echo s
  | .char c => charKey c s

/-- One round of the loop of `finsh_thread_entry`. -/
def handleInput (commands : List CString) (s : FinshShell) (input : Input) : Option FinshShell :=
  let (stat, key) := decodeKey s.stat input.ch
  match key with
  | none => some { s with stat }
  | some key => handleKey commands input { s with stat } key

end RtThread.Shell
