import RtThread.Lib.Prefixes
import RtThread.Shell

/-!
# What the line of the shell holds

The line is compared with an editor that has a text, a cursor and a history, and no buffer. They
agree while the text stays below the size of the buffer, for a line that becomes too long takes
the position back to 0 and leaves its characters behind.
-/
namespace RtThread.Shell

open Prefixes

/-- The text that is edited. -/
structure Editor where
  text : List Byte
  cursor : Nat
  /-- The commands kept, the last one behind. -/
  history : List (List Byte)
  current : Nat
  deriving DecidableEq

def Editor.empty : Editor := ⟨[], 0, [], 0⟩

/-- The names that begin with a word. -/
def candidates (names : List CString) (word : List Byte) : List (List Byte) :=
  (names.map Subtype.val).filter word.isPrefixOf

/-- A word as far as every name that begins with it goes on in the same way. -/
def completeWord (names : List CString) (word : List Byte) : List Byte :=
  if candidates names word = [] then word else commonAll (candidates names word)

/-- Where the name begins that ends the line: behind the last space and the last `/` of it. -/
def nameStart (text : List Byte) : Option Nat :=
  (spaceIndex text text.length).map fun ptr =>
    ptr + 1 + nameIndex 0 0 (text.drop (ptr + 1))

/-- The name of a file at the end of the line is completed. -/
def completePath (dirents : Option (List CString)) (text : List Byte) : List Byte :=
  match nameStart text, dirents with
  | some start, some names =>
    if text.drop start = [] then text
    else text.take start ++ completeWord names (text.drop start)
  | _, _ => text

/-- The line with the name of a file at its end completed, and then with the command. -/
def complete (commands : List CString) (dirents : Option (List CString)) (text : List Byte) :
    List Byte :=
  if text = [] then [] else completeWord commands (completePath dirents text)

/-- Another text, with the cursor behind it. -/
def Editor.replace (e : Editor) (text : List Byte) : Editor :=
  { e with text, cursor := text.length }

def Editor.recall (e : Editor) (current : Nat) : Editor :=
  { e with current }.replace (e.history.getD current [])

/-- A character at the cursor. A line that reaches the size of the buffer is discarded. -/
def Editor.insert (e : Editor) (c : Byte) : Editor :=
  if finshCmdSize ≤ e.text.length then e.replace [c]
  else if finshCmdSize ≤ e.text.length + 1 then e.replace []
  else
    { e with text := e.text.take e.cursor ++ c :: e.text.drop e.cursor, cursor := e.cursor + 1 }

/-- A command that is not the last one again is kept, with the last ones before it. -/
def Editor.push (e : Editor) : List (List Byte) :=
  if e.text = [] ∨ e.history.getLast? = some e.text then e.history
  else
    let commands := e.history ++ [e.text]
    commands.drop (commands.length - finshHistoryLines)

def Editor.up (e : Editor) : Editor := if 0 < e.current then e.recall (e.current - 1) else e

def Editor.down (e : Editor) : Editor :=
  if e.current + 1 < e.history.length then e.recall (e.current + 1)
  else if e.history = [] then e
  else e.recall (e.history.length - 1)

def Editor.left (e : Editor) : Editor := { e with cursor := e.cursor - 1 }

def Editor.right (e : Editor) : Editor := { e with cursor := min (e.cursor + 1) e.text.length }

def Editor.backspace (e : Editor) : Editor :=
  { e with text := e.text.take (e.cursor - 1) ++ e.text.drop e.cursor, cursor := e.cursor - 1 }

def Editor.enter (e : Editor) : Editor :=
  { text := [], cursor := 0, history := e.push, current := e.push.length }

/-- What a key does to the text. -/
def Editor.edit (commands : List CString) (dirents : Option (List CString)) (e : Editor) :
    Key → Editor
  | .up => e.up
  | .down => e.down
  | .left => e.left
  | .right => e.right
  | .tab => e.replace (complete commands dirents e.text)
  | .backspace => e.backspace
  | .enter => e.enter
  | .char c => e.insert c

/-- A shell and the editor that has received the same characters. -/
structure Session where
  shell : FinshShell
  editor : Editor
  deriving DecidableEq

def session : Session := ⟨finshSystemInit, .empty⟩

def receive (commands : List CString) (x : Session) (input : Input) : Option Session :=
  (handleInput commands x.shell input).map fun shell =>
    match (decodeKey x.shell.stat input.ch).2 with
    | none => ⟨shell, x.editor⟩
    | some key => ⟨shell, x.editor.edit commands input.dirents key⟩

/-- The position and the cursor are inside of the line, the line ends at the position, and what
is before it has been edited. -/
def Sound (x : Session) : Prop :=
  x.shell.lineCurpos ≤ x.shell.linePosition ∧ x.shell.linePosition ≤ finshCmdSize ∧
    x.shell.line[x.shell.linePosition]? = some 0 ∧
    x.shell.line.take x.shell.linePosition = x.editor.text

instance (x : Session) : Decidable (Sound x) :=
  inferInstanceAs (Decidable (_ ∧ _ ∧ _ ∧ _))

/-- The key leaves a text that the buffer holds: a character stays below its size, and a
completion does not go beyond it. -/
def fits (commands : List CString) (dirents : Option (List CString)) (e : Editor) : Key → Bool
  | .char _ => e.text.length + 1 < finshCmdSize
  | .tab => (complete commands dirents e.text).length ≤ finshCmdSize
  | _ => true

def Fits (commands : List CString) (x : Session) (input : Input) : Prop :=
  ∀ key, (decodeKey x.shell.stat input.ch).2 = some key →
    fits commands input.dirents x.editor key = true

theorem strCommon_eq (xs ys : List Byte) : strCommon xs ys = (common xs ys).length := by
  induction xs generalizing ys with
  | nil => cases ys <;> rfl
  | cons x xs ih =>
    cases ys with
    | nil => rfl
    | cons y ys =>
      by_cases h : x = y
      · simp [strCommon, common, h, ih]
      · simp [strCommon, common, h]

variable {a b bytes text word : List Byte} {i n ptr : Nat} {s s' : FinshShell} {e : Editor}
  {c : Byte} {rows : List (List Byte)} {x : Session} {commands : List CString} {input : Input}

/-- Once a candidate is kept, what is kept of it is common to all candidates so far. -/
theorem scan_kept (hword : word ≠ []) (names : List CString) (kept : List Byte × Nat)
    (hk : word <+: kept.1.take kept.2) :
    (names.foldl (scanName word) kept).1.take (names.foldl (scanName word) kept).2 =
      (candidates names word).foldl common (kept.1.take kept.2) := by
  induction names generalizing kept with
  | nil => rfl
  | cons name names ih =>
    have hpos : kept.2 ≠ 0 := by
      intro h0
      rw [h0, List.take_zero, List.prefix_nil] at hk
      exact hword hk
    by_cases hn : word.isPrefixOf name.val
    · have hcut : kept.1.take (min kept.2 (strCommon name.val kept.1)) =
          common (kept.1.take kept.2) name.val := by
        rw [common_take, strCommon_eq, common_comm, List.take_take]
      have hk' : word <+: kept.1.take (min kept.2 (strCommon name.val kept.1)) := by
        rw [hcut]
        exact prefix_common_iff.mpr ⟨hk, List.isPrefixOf_iff_prefix.mp hn⟩
      have hstep : scanName word kept name =
          (kept.1, min kept.2 (strCommon name.val kept.1)) := by
        simp [scanName, hn, hpos]
      have hlist : candidates (name :: names) word = name.val :: candidates names word := by
        simp [candidates, hn]
      rw [List.foldl_cons, hstep, ih _ hk', hlist, List.foldl_cons, hcut]
    · have hstep : scanName word kept name = kept := by simp [scanName, hn]
      have hlist : candidates (name :: names) word = candidates names word := by
        simp [candidates, hn]
      rw [List.foldl_cons, hstep, hlist]
      exact ih kept hk

/-- The scan of the names finds the longest common prefix of the candidates. -/
theorem scanNames_eq (hword : word ≠ []) (names : List CString) :
    scanNames word names = commonAll (candidates names word) := by
  unfold scanNames
  induction names with
  | nil => rfl
  | cons name names ih =>
    by_cases hn : word.isPrefixOf name.val
    · have hstep : scanName word ([], 0) name = (name.val, name.val.length) := by
        simp [scanName, hn, strCommon_eq, common_self]
      have hlist : candidates (name :: names) word = name.val :: candidates names word := by
        simp [candidates, hn]
      have hk := scan_kept hword names (name.val, name.val.length)
        (by simpa using List.isPrefixOf_iff_prefix.mp hn)
      rw [List.foldl_cons, hstep, hlist, commonAll, hk, List.take_length]
    · have hstep : scanName word ([], 0) name = ([], 0) := by simp [scanName, hn]
      have hlist : candidates (name :: names) word = candidates names word := by
        simp [candidates, hn]
      rw [List.foldl_cons, hstep, hlist]
      exact ih

theorem prefix_candidate {names : List CString} {x : List Byte} (h : x ∈ candidates names word) :
    word <+: x ∧ (0 : Byte) ∉ x := by
  obtain ⟨hx, hp⟩ := List.mem_filter.mp h
  obtain ⟨name, -, rfl⟩ := List.mem_map.mp hx
  exact ⟨List.isPrefixOf_iff_prefix.mp hp, name.property⟩

/-- A completion goes on from the word. -/
theorem prefix_completeWord (names : List CString) (word : List Byte) :
    word <+: completeWord names word := by
  unfold completeWord
  split_ifs with hne
  · exact List.prefix_refl word
  · exact (prefix_commonAll_iff hne).mpr fun x hx => (prefix_candidate hx).1

theorem zero_notMem_completeWord (names : List CString) (h : (0 : Byte) ∉ word) :
    (0 : Byte) ∉ completeWord names word := by
  unfold completeWord
  split_ifs with hne
  · exact h
  · obtain ⟨x, hx⟩ := List.exists_mem_of_ne_nil _ hne
    have hpre := (prefix_commonAll_iff hne).mp (List.prefix_refl _) x hx
    exact fun h0 => (prefix_candidate hx).2 (hpre.subset h0)

/-- What is found for a word is its completion, and nothing if there are no candidates. -/
theorem completeWord_eq (hword : word ≠ []) (names : List CString) :
    completeWord names word =
      if scanNames word names = [] then word else scanNames word names := by
  have hpre := prefix_completeWord names word
  rw [scanNames_eq hword]
  unfold completeWord at hpre ⊢
  by_cases hne : candidates names word = []
  · rw [if_pos hne, hne, commonAll, if_pos rfl]
  · rw [if_neg hne] at hpre ⊢
    have hfound : commonAll (candidates names word) ≠ [] := by
      intro h0
      rw [h0, List.prefix_nil] at hpre
      exact hword hpre
    rw [if_neg hfound]

/-- A line that holds a text. -/
def buffer (text : List Byte) : List Byte :=
  text ++ List.replicate (finshCmdSize + 1 - text.length) 0

theorem length_buffer (h : text.length ≤ finshCmdSize + 1) :
    (buffer text).length = finshCmdSize + 1 := by
  rw [buffer, List.length_append, List.length_replicate]
  omega

theorem buffer_eq (h : text.length ≤ finshCmdSize) :
    buffer text = text ++ 0 :: List.replicate (finshCmdSize - text.length) 0 := by
  have hn : finshCmdSize + 1 - text.length = finshCmdSize - text.length + 1 := by omega
  rw [buffer, hn, List.replicate_succ]

theorem cString_append {rest : List Byte} (h0 : (0 : Byte) ∉ text) :
    cString (text ++ 0 :: rest) = some text := by
  have hall : ∀ b ∈ text, decide (b ≠ 0) = true := by
    intro b hb
    exact decide_eq_true fun hz => h0 (hz ▸ hb)
  have hmem : (0 : Byte) ∈ text ++ 0 :: rest := by simp
  rw [cString, if_pos hmem, List.takeWhile_append_of_pos hall]
  simp

/-- The string at an index of a line is the rest of its text. -/
theorem cString_drop (h0 : (0 : Byte) ∉ text) (h : text.length ≤ finshCmdSize)
    (hi : i ≤ text.length) : cString ((buffer text).drop i) = some (text.drop i) := by
  rw [buffer_eq h, List.drop_append_of_le_length hi]
  exact cString_append fun hz => h0 (List.mem_of_mem_drop hz)

theorem cString_buffer (h0 : (0 : Byte) ∉ text) (h : text.length ≤ finshCmdSize) :
    cString (buffer text) = some text := by
  simpa using cString_drop h0 h (Nat.zero_le _)

/-- Characters copied into a line up to the end of its text or beyond. -/
theorem copyTo_buffer (hi : i ≤ text.length) (hend : text.length ≤ i + bytes.length)
    (h : i + bytes.length ≤ finshCmdSize + 1) :
    copyTo (buffer text) i bytes = some (buffer (text.take i ++ bytes)) := by
  have hlen : (buffer text).length = finshCmdSize + 1 := length_buffer (by omega)
  have htake : (buffer text).take i = text.take i := List.take_append_of_le_length hi
  have hdrop : (buffer text).drop (i + bytes.length) =
      List.replicate (finshCmdSize + 1 - (text.take i ++ bytes).length) 0 := by
    rw [buffer, List.drop_append, List.drop_eq_nil_of_le hend, List.nil_append,
      List.drop_replicate, List.length_append, List.length_take]
    congr 1
    omega
  rw [copyTo, hlen, if_pos h, htake, hdrop]
  rfl

theorem copyTo_buffer_none (ht : text.length ≤ finshCmdSize)
    (h : finshCmdSize + 1 < i + bytes.length) : copyTo (buffer text) i bytes = none := by
  have hlen : (buffer text).length = finshCmdSize + 1 := length_buffer (by omega)
  rw [copyTo, hlen, if_neg (by omega)]

/-- The NUL behind a text is there already. -/
theorem store_end (text : List Byte) :
    store (buffer text) text.length 0 =
      if text.length ≤ finshCmdSize then some (buffer text) else none := by
  by_cases h : text.length ≤ finshCmdSize
  · have hlen : (buffer text).length = finshCmdSize + 1 := length_buffer (by omega)
    rw [if_pos h, store, if_pos (by omega), buffer_eq h, List.set_append_right _ _ (le_refl _)]
    simp
  · have hlen : (buffer text).length = text.length := by
      rw [buffer, List.length_append, List.length_replicate]
      omega
    rw [if_neg h, store, if_neg (by omega)]

theorem spaceIndex_lt (h : spaceIndex text n = some ptr) : ptr < text.length := by
  induction n with
  | zero => exact absurd h (by simp [spaceIndex])
  | succ n ih =>
    rw [spaceIndex] at h
    split_ifs at h with hs
    · obtain rfl : n + 1 = ptr := Option.some.inj h
      exact (List.getElem?_eq_some_iff.mp hs).1
    · exact ih h

theorem nameIndex_le (index ptr : Nat) (path : List Byte) (h : index ≤ ptr) :
    nameIndex index ptr path ≤ ptr + path.length := by
  induction path generalizing index ptr with
  | nil => exact h
  | cons c path ih =>
    rw [nameIndex, List.length_cons]
    have hnext := ih (if c = 0x2f then ptr + 1 else index) (ptr + 1) (by split_ifs <;> omega)
    omega

theorem nameStart_le {start : Nat} (h : nameStart text = some start) : start ≤ text.length := by
  obtain ⟨ptr, hptr, rfl⟩ := Option.map_eq_some_iff.mp h
  have hlt := spaceIndex_lt hptr
  have hle := nameIndex_le 0 0 (text.drop (ptr + 1)) (le_refl 0)
  rw [List.length_drop] at hle
  omega

theorem length_le_completePath (dirents : Option (List CString)) (text : List Byte) :
    text.length ≤ (completePath dirents text).length := by
  unfold completePath
  cases hstart : nameStart text with
  | none => exact le_refl _
  | some start =>
    cases dirents with
    | none => exact le_refl _
    | some names =>
      have hword := (prefix_completeWord names (text.drop start)).length_le
      rw [List.length_drop] at hword
      dsimp only
      split_ifs with hnil
      · exact le_refl _
      · rw [List.length_append, List.length_take]
        omega

theorem zero_notMem_completePath (dirents : Option (List CString)) (h : (0 : Byte) ∉ text) :
    (0 : Byte) ∉ completePath dirents text := by
  unfold completePath
  cases nameStart text with
  | none => exact h
  | some start =>
    cases dirents with
    | none => exact h
    | some names =>
      have hdrop : (0 : Byte) ∉ text.drop start := fun hz => h (List.mem_of_mem_drop hz)
      dsimp only
      split_ifs with hnil
      · exact h
      · rw [List.mem_append, not_or]
        exact ⟨fun hz => h (List.mem_of_mem_take hz), zero_notMem_completeWord names hdrop⟩

theorem zero_notMem_complete (commands : List CString) (dirents : Option (List CString))
    (h : (0 : Byte) ∉ text) : (0 : Byte) ∉ complete commands dirents text := by
  unfold complete
  split_ifs
  · simp
  · exact zero_notMem_completeWord commands (zero_notMem_completePath dirents h)

/-- The completion of a path in the buffer: it is refused if the buffer does not hold it. -/
theorem mshAutoCompletePath_eq (h0 : (0 : Byte) ∉ text) (h : text.length ≤ finshCmdSize)
    (dirents : Option (List CString)) (hptr : spaceIndex text text.length = some ptr) :
    mshAutoCompletePath dirents (buffer text) (ptr + 1) =
      if (completePath dirents text).length ≤ finshCmdSize then
        some (buffer (completePath dirents text))
      else none := by
  have hstart : nameStart text = some (ptr + 1 + nameIndex 0 0 (text.drop (ptr + 1))) := by
    rw [nameStart, hptr, Option.map_some]
  have hle := nameStart_le hstart
  cases dirents with
  | none => simp [mshAutoCompletePath, completePath, h]
  | some names =>
    have hpath := cString_drop h0 h (i := ptr + 1) (by omega)
    simp only [mshAutoCompletePath, hpath, Option.bind_eq_bind, Option.bind_some, completePath,
      hstart, List.drop_drop]
    generalize ptr + 1 + nameIndex 0 0 (text.drop (ptr + 1)) = start at hle ⊢
    by_cases hnil : text.drop start = []
    · simp [hnil, h]
    · rw [completeWord_eq hnil, if_neg hnil]
      by_cases hfound : scanNames (text.drop start) names = []
      · simp [hnil, hfound, h]
      · have hword : (text.drop start).length ≤ (scanNames (text.drop start) names).length := by
          have hpre := (prefix_completeWord names (text.drop start)).length_le
          rwa [completeWord_eq hnil, if_neg hfound] at hpre
        rw [if_neg (by simp [hnil, hfound]), if_neg hfound]
        generalize scanNames (text.drop start) names = found at hword ⊢
        rw [List.length_drop] at hword
        have hlen : (text.take start ++ found).length = start + found.length := by
          rw [List.length_append, List.length_take]
          omega
        by_cases hroom : start + found.length ≤ finshCmdSize + 1
        · rw [copyTo_buffer hle (by omega) hroom, Option.bind_some, ← hlen, store_end]
        · rw [copyTo_buffer_none h (by omega), Option.bind_none, hlen, if_neg (by omega)]

theorem completeFile_eq (h0 : (0 : Byte) ∉ text) (h : text.length ≤ finshCmdSize)
    (dirents : Option (List CString)) :
    completeFile dirents (buffer text) text =
      if (completePath dirents text).length ≤ finshCmdSize then
        some (buffer (completePath dirents text))
      else none := by
  unfold completeFile
  cases hptr : spaceIndex text text.length with
  | none =>
    have hstart : nameStart text = none := by simp [nameStart, hptr]
    have hsame : completePath dirents text = text := by simp [completePath, hstart]
    rw [hsame, if_pos h]
  | some ptr => exact mshAutoCompletePath_eq h0 h dirents hptr

theorem recalculate_buffer (h0 : (0 : Byte) ∉ text) (s : FinshShell) :
    recalculate s (buffer text) =
      if text.length ≤ finshCmdSize then
        some { s with line := buffer text, linePosition := text.length, lineCurpos := text.length }
      else none := by
  by_cases h : text.length ≤ finshCmdSize
  · rw [recalculate, cString_buffer h0 h, if_pos h]
    rfl
  · have hnone : cString (buffer text) = none := by
      have hb : buffer text = text := by
        have hn : finshCmdSize + 1 - text.length = 0 := by omega
        rw [buffer, hn, List.replicate_zero, List.append_nil]
      rw [hb, cString, if_neg h0]
    rw [recalculate, hnone, if_neg h]
    rfl

/-- The completion of a word in the buffer, with the position taken again behind it. -/
theorem complete_command (h0 : (0 : Byte) ∉ text) (hne : text ≠ [])
    (h : text.length ≤ finshCmdSize) (commands : List CString) (s : FinshShell) :
    (copyTo (buffer text) 0 (scanNames text commands)).bind (recalculate s) =
      recalculate s (buffer (completeWord commands text)) := by
  have hz := zero_notMem_completeWord commands h0
  have hpre := (prefix_completeWord commands text).length_le
  rw [completeWord_eq hne] at hz hpre ⊢
  by_cases hfound : scanNames text commands = []
  · rw [if_pos hfound, hfound]
    simp [copyTo]
  · rw [if_neg hfound] at hz hpre ⊢
    by_cases hroom : 0 + (scanNames text commands).length ≤ finshCmdSize + 1
    · rw [copyTo_buffer (Nat.zero_le _) (by omega) hroom]
      rfl
    · rw [copyTo_buffer_none h (by omega), recalculate_buffer hz, if_neg (by omega)]
      rfl

/-- The tab key completes the text if the buffer holds the result, and else leaves the line. -/
theorem tabKey_eq (h0 : (0 : Byte) ∉ text) (h : text.length ≤ finshCmdSize)
    (commands : List CString) (dirents : Option (List CString)) (s : FinshShell)
    (hline : s.line = buffer text) :
    tabKey commands dirents s = recalculate s (buffer (complete commands dirents text)) := by
  rw [tabKey, mshAutoComplete, hline, cString_buffer h0 h]
  by_cases hnil : text = []
  · simp [hnil, complete]
  have hpath := zero_notMem_completePath dirents h0
  have hlonger := length_le_completePath dirents text
  have hpos := List.length_pos_iff.mpr hnil
  have hne : completePath dirents text ≠ [] := by
    rw [← List.length_pos_iff]
    omega
  simp only [Option.bind_eq_bind, Option.bind_some, if_neg hnil, complete,
    completeFile_eq h0 h dirents]
  by_cases hfit : (completePath dirents text).length ≤ finshCmdSize
  · rw [if_pos hfit, Option.bind_some, cString_buffer hpath hfit, Option.bind_some]
    exact complete_command hpath hne hfit commands s
  · have hpre := (prefix_completeWord commands (completePath dirents text)).length_le
    rw [if_neg hfit, Option.bind_none, Option.bind_none,
      recalculate_buffer (zero_notMem_completeWord commands hpath), if_neg (by omega)]

/-- A row of the history that holds a command. -/
def row (text : List Byte) : List Byte :=
  text ++ List.replicate (finshCmdSize - text.length) 0

theorem take_buffer (h : text.length ≤ finshCmdSize) :
    (buffer text).take finshCmdSize = row text := by
  have hb : buffer text = row text ++ [0] := by
    rw [buffer_eq h, row, List.append_assoc, ← List.replicate_succ', List.replicate_succ]
  have hlen : (row text).length = finshCmdSize := by
    rw [row, List.length_append, List.length_replicate]
    omega
  rw [hb, ← hlen, List.take_left]

theorem row_injective {t u : List Byte} (ht : (0 : Byte) ∉ t) (hu : (0 : Byte) ∉ u)
    (h : row t = row u) : t = u := by
  have hend : ∀ v : List Byte, row v ++ [0] =
      v ++ 0 :: List.replicate (finshCmdSize - v.length) 0 := by
    intro v
    rw [row, List.append_assoc, ← List.replicate_succ', List.replicate_succ]
  have hs : cString (row t ++ [0]) = cString (row u ++ [0]) := by rw [h]
  rw [hend, hend, cString_append ht, cString_append hu] at hs
  exact Option.some.inj hs

/-- The shell holds the text and the history of the editor. -/
structure Holds (s : FinshShell) (e : Editor) : Prop where
  line : s.line = buffer e.text
  position : s.linePosition = e.text.length
  curpos : s.lineCurpos = e.cursor
  cursor_le : e.cursor ≤ e.text.length
  length_le : e.text.length ≤ finshCmdSize
  no_nul : (0 : Byte) ∉ e.text
  count : s.historyCount = e.history.length
  count_le : e.history.length ≤ finshHistoryLines
  current : s.currentHistory = e.current
  rows : s.cmdHistory.length = finshHistoryLines
  history : s.cmdHistory.take e.history.length = e.history.map row
  commands : ∀ t ∈ e.history, t.length ≤ finshCmdSize ∧ (0 : Byte) ∉ t
  current_le : e.current ≤ e.history.length

theorem Holds.start : Holds finshSystemInit .empty where
  line := rfl
  position := rfl
  curpos := rfl
  cursor_le := le_refl 0
  length_le := Nat.zero_le _
  no_nul := List.not_mem_nil
  count := rfl
  count_le := Nat.zero_le _
  current := rfl
  rows := rfl
  history := rfl
  commands := by simp [Editor.empty]
  current_le := le_refl 0

theorem Holds.sound (h : Holds s e) : Sound ⟨s, e⟩ := by
  unfold Sound
  rw [h.line, h.position, h.curpos]
  refine ⟨h.cursor_le, h.length_le, ?_, ?_⟩
  · rw [buffer_eq h.length_le]
    simp
  · rw [buffer]
    simp

/-- Another text in the line, with the position and the cursor behind it. -/
theorem Holds.replace (h : Holds s e) (h0 : (0 : Byte) ∉ text) (hlen : text.length ≤ finshCmdSize) :
    Holds { s with line := buffer text, linePosition := text.length, lineCurpos := text.length }
      (e.replace text) :=
  { h with
    line := rfl, position := rfl, curpos := rfl, cursor_le := le_refl _, length_le := hlen
    no_nul := h0 }

/-- A command of the history becomes the line. -/
theorem Holds.recall (h : Holds s e) (hi : i < e.history.length) :
    ∃ s', recallHistory { s with currentHistory := i } = some s' ∧ Holds s' (e.recall i) := by
  have hlt : i < (s.cmdHistory.take e.history.length).length := by
    rw [h.history, List.length_map]
    exact hi
  have hrow : s.cmdHistory[i]? = some (row e.history[i]) := by
    rw [← List.getElem?_take_of_lt hi, h.history, List.getElem?_map,
      List.getElem?_eq_getElem hi, Option.map_some]
  obtain ⟨hlen, h0⟩ := h.commands _ (List.getElem_mem hi)
  have hcopy : copyTo s.line 0 (row e.history[i]) = some (buffer e.history[i]) := by
    have hsize : (row e.history[i]).length = finshCmdSize := by
      rw [row, List.length_append, List.length_replicate]
      omega
    have hkept := h.length_le
    rw [h.line, copyTo_buffer (Nat.zero_le _) (by omega) (by omega), List.take_zero,
      List.nil_append]
    rw [buffer, hsize, row, List.append_assoc, ← List.replicate_add, buffer]
    congr 3
    omega
  have hreplace := Holds.replace (s := { s with currentHistory := i })
    (e := { e with current := i }) { h with current := rfl, current_le := hi.le } h0 hlen
  have hget : e.history.getD i [] = e.history[i] := by
    rw [List.getD_eq_getElem?_getD, List.getElem?_eq_getElem hi, Option.getD_some]
  rw [← hget] at hcopy hreplace
  refine ⟨_, ?_, hreplace⟩
  rw [recallHistory, hrow]
  simp only [Option.bind_eq_bind, Option.bind_some, ← hget, hcopy]
  rw [recalculate_buffer (hget ▸ h0), if_pos (hget ▸ hlen)]

theorem Holds.up (h : Holds s e) : ∃ s', upKey s = some s' ∧ Holds s' e.up := by
  have hcur := h.current
  have hle := h.current_le
  unfold upKey Editor.up
  rw [hcur]
  split_ifs with hpos
  · exact h.recall (by omega)
  · refine ⟨_, rfl, ?_⟩
    have hzero : e.current = 0 := by omega
    exact { h with current := hzero.symm }

theorem Holds.down (h : Holds s e) : ∃ s', downKey s = some s' ∧ Holds s' e.down := by
  have hcount := h.count
  have hcurrent := h.current
  unfold downKey Editor.down
  by_cases hnext : e.current + 1 < e.history.length
  · rw [if_pos (by omega), if_pos hnext, hcurrent]
    exact h.recall hnext
  · rw [if_neg (by omega), if_neg hnext]
    by_cases hnil : e.history = []
    · rw [if_pos hnil, if_neg (by simp [hcount, hnil])]
      exact ⟨s, rfl, h⟩
    · have hpos := List.length_pos_iff.mpr hnil
      have hlast : s.historyCount - 1 = e.history.length - 1 := by omega
      rw [if_pos (by omega), if_neg hnil, hlast]
      exact h.recall (by omega)

theorem Holds.left (h : Holds s e) : ∃ s', leftKey s = some s' ∧ Holds s' e.left := by
  have hle := h.cursor_le
  have hlen : e.text.length ≤ 80 := h.length_le
  have hcur := h.curpos
  unfold leftKey Editor.left
  by_cases hpos : s.lineCurpos ≠ 0
  · have hmoved : wsub 16 s.lineCurpos 1 = e.cursor - 1 := by
      rw [hcur]
      exact wsub_eq (by omega) (by omega)
    have hcursor : e.cursor - 1 ≤ e.text.length := by omega
    rw [if_pos hpos, hmoved]
    exact ⟨_, rfl, { h with curpos := rfl, cursor_le := hcursor }⟩
  · have hsame : e.cursor - 1 = e.cursor := by omega
    rw [if_neg hpos, hsame]
    exact ⟨s, rfl, h⟩

theorem Holds.right (h : Holds s e) : ∃ s', rightKey s = some s' ∧ Holds s' e.right := by
  have hle := h.cursor_le
  have hlen : e.text.length ≤ 80 := h.length_le
  have hcur := h.curpos
  have hpos := h.position
  unfold rightKey Editor.right
  by_cases hlt : s.lineCurpos < s.linePosition
  · have hread : s.lineCurpos < s.line.length := by
      rw [h.line, length_buffer (Nat.le_succ_of_le h.length_le)]
      exact Nat.lt_succ_of_lt (by rw [hcur]; exact Nat.lt_of_lt_of_le (by omega) h.length_le)
    have hmoved : wadd 16 s.lineCurpos 1 = e.cursor + 1 := by
      rw [hcur]
      exact wadd_eq (by omega)
    have hnext : e.cursor + 1 ≤ e.text.length := by omega
    rw [if_pos hlt, List.getElem?_eq_getElem hread, hmoved, min_eq_left hnext]
    exact ⟨_, rfl, { h with curpos := rfl, cursor_le := hnext }⟩
  · have hcursor : min (e.cursor + 1) e.text.length = e.cursor := by omega
    rw [if_neg hlt, hcursor]
    exact ⟨s, rfl, h⟩

theorem Holds.tab (h : Holds s e) (commands : List CString) (dirents : Option (List CString))
    (hfit : fits commands dirents e .tab = true) :
    ∃ s', tabKey commands dirents s = some s' ∧ Holds s' (e.edit commands dirents .tab) := by
  have h0 := zero_notMem_complete commands dirents h.no_nul
  have hlen : (complete commands dirents e.text).length ≤ finshCmdSize := of_decide_eq_true hfit
  refine ⟨_, ?_, h.replace h0 hlen⟩
  rw [tabKey_eq h.no_nul h.length_le commands dirents s h.line, recalculate_buffer h0,
    if_pos hlen]

/-- A line that holds a text in two parts. -/
theorem buffer_append (h : a.length + b.length + n = finshCmdSize) :
    buffer (a ++ b) = a ++ b ++ 0 :: List.replicate n 0 := by
  have hlen : (a ++ b).length ≤ finshCmdSize := by
    rw [List.length_append]
    omega
  have hn : finshCmdSize - (a ++ b).length = n := by
    rw [List.length_append]
    omega
  rw [buffer_eq hlen, hn]

theorem copyTo_append (x y z bytes : List Byte) (h : y.length = bytes.length) :
    copyTo (x ++ (y ++ z)) x.length bytes = some (x ++ (bytes ++ z)) := by
  have hlen : x.length + bytes.length ≤ (x ++ (y ++ z)).length := by
    simp only [List.length_append]
    omega
  rw [copyTo, if_pos hlen, List.take_left, ← h, ← List.append_assoc x y z,
    ← List.length_append, List.drop_left, List.append_assoc]

theorem store_append (x z : List Byte) (b c : Byte) :
    store (x ++ b :: z) x.length c = some (x ++ c :: z) := by
  rw [store, if_pos (by simp), List.set_append_right _ _ (le_refl _)]
  simp

/-- The bytes behind the cursor are moved up by one and the character is put before them. -/
theorem insertAt_append (echo : Bool) (c : Byte)
    (h : a.length + b.length + (n + 1) = finshCmdSize) (h0 : (0 : Byte) ∉ a ++ c :: b) :
    insertAt echo (buffer (a ++ b)) (a.length + b.length) a.length c =
      some (buffer (a ++ c :: b)) := by
  have hnew : buffer (a ++ c :: b) = a ++ c :: b ++ 0 :: List.replicate n 0 :=
    buffer_append (by rw [List.length_cons]; omega)
  have hold : buffer (a ++ b) = a ++ (b ++ 0 :: 0 :: List.replicate n 0) := by
    rw [buffer_append h, List.append_assoc, List.replicate_succ]
  unfold insertAt
  rw [hnew, hold]
  cases b with
  | nil =>
    simpa using store_append a (0 :: List.replicate n 0) 0 c
  | cons d b =>
    have hn : a.length + (d :: b).length - a.length = (d :: b).length := by omega
    have hread : ((a ++ (d :: b ++ 0 :: 0 :: List.replicate n 0)).drop a.length).take
        (d :: b).length = d :: b := by
      rw [List.drop_left, List.take_left]
    have hmove := copyTo_append (a ++ [d]) (b ++ [0]) (0 :: List.replicate n 0) (d :: b)
      (by simp)
    have hput := store_append a (d :: b ++ 0 :: List.replicate n 0) d c
    have hend : cString ((a ++ c :: (d :: b ++ 0 :: List.replicate n 0)).drop a.length) =
        some (c :: d :: b) := by
      rw [List.drop_left]
      exact @cString_append (c :: d :: b) _ fun hz => h0 (List.mem_append_right a hz)
    rw [if_pos (by simp), hn, rtMemmove, hread, if_pos (by simp)]
    simp only [List.append_assoc, List.cons_append, List.nil_append, List.length_append,
      List.length_cons, List.length_nil, Nat.zero_add] at hmove hput hend ⊢
    rw [hmove]
    simp only [Option.bind_eq_bind, Option.bind_some, hput, hend, ite_self]

/-- The bytes behind the cursor are moved down by one and the line ends one byte earlier. -/
theorem deleteAt_append (d : Byte) (h : a.length + b.length + n + 1 = finshCmdSize)
    (h0 : (0 : Byte) ∉ b) :
    deleteAt (buffer (a ++ d :: b)) (a.length + b.length) a.length = some (buffer (a ++ b)) := by
  have hold : buffer (a ++ d :: b) = a ++ (d :: b ++ 0 :: List.replicate n 0) := by
    rw [buffer_append (n := n) (by rw [List.length_cons]; omega), List.append_assoc]
  have hnew : buffer (a ++ b) = a ++ (b ++ 0 :: 0 :: List.replicate n 0) := by
    rw [buffer_append (n := n + 1) (by omega), List.append_assoc, List.replicate_succ]
  unfold deleteAt
  rw [hnew, hold]
  obtain rfl | ⟨b, c, rfl⟩ := List.eq_nil_or_concat' b
  · simpa using store_append a (0 :: List.replicate n 0) d 0
  · have hn : a.length + (b ++ [c]).length - a.length = (b ++ [c]).length := by omega
    have hread : ((a ++ (d :: (b ++ [c]) ++ 0 :: List.replicate n 0)).drop (a.length + 1)).take
        (b ++ [c]).length = b ++ [c] := by
      rw [List.drop_append, List.drop_eq_nil_of_le (by omega), Nat.add_sub_cancel_left,
        List.nil_append, List.cons_append, List.drop_succ_cons, List.drop_zero, List.take_left]
    have hmove := copyTo_append a (d :: b) (c :: 0 :: List.replicate n 0) (b ++ [c]) (by simp)
    have hput := store_append (a ++ (b ++ [c])) (0 :: List.replicate n 0) c 0
    have hend : cString ((a ++ (b ++ [c] ++ 0 :: 0 :: List.replicate n 0)).drop a.length) =
        some (b ++ [c]) := by
      rw [List.drop_left]
      exact cString_append h0
    rw [if_pos (by simp), hn, rtMemmove, hread, if_pos (by simp; omega)]
    simp only [List.append_assoc, List.cons_append, List.nil_append, List.length_append,
      List.length_cons, List.length_nil, Nat.zero_add] at hmove hput hend ⊢
    rw [hmove]
    simp only [Option.bind_eq_bind, Option.bind_some, hput, hend]

theorem Holds.backspace (h : Holds s e) :
    ∃ s', backspaceKey s = some s' ∧ Holds s' e.backspace := by
  have hle := h.cursor_le
  have hlen := h.length_le
  have hsize : finshCmdSize = 80 := rfl
  unfold backspaceKey
  rw [h.curpos, h.position, h.line]
  by_cases hcur : e.cursor = 0
  · rw [if_pos hcur, Editor.backspace, hcur, Nat.zero_sub, List.take_zero, List.drop_zero,
      List.nil_append, ← hcur]
    exact ⟨s, rfl, h⟩
  · obtain ⟨a, ha⟩ : ∃ a, a = e.text.take (e.cursor - 1) := ⟨_, rfl⟩
    obtain ⟨b, hb⟩ : ∃ b, b = e.text.drop e.cursor := ⟨_, rfl⟩
    have halen : a.length = e.cursor - 1 := by
      rw [ha, List.length_take]
      omega
    have hblen : b.length = e.text.length - e.cursor := by rw [hb, List.length_drop]
    have hsplit : e.text = a ++ e.text[e.cursor - 1] :: b := by
      have hdrop := List.drop_eq_getElem_cons (i := e.cursor - 1) (l := e.text) (by omega)
      rw [Nat.sub_add_cancel (Nat.pos_of_ne_zero hcur)] at hdrop
      rw [ha, hb, ← hdrop, List.take_append_drop]
    have h0 : (0 : Byte) ∉ a ++ b := by
      rw [ha, hb, List.mem_append, not_or]
      exact ⟨fun hz => h.no_nul (List.mem_of_mem_take hz),
        fun hz => h.no_nul (List.mem_of_mem_drop hz)⟩
    have hpos' : wsub 16 e.text.length 1 = a.length + b.length := by
      rw [wsub_eq (by omega) (by omega)]
      omega
    have hcur' : wsub 16 e.cursor 1 = a.length := by
      rw [wsub_eq (by omega) (by omega)]
      omega
    have hdelete : deleteAt (buffer e.text) (a.length + b.length) a.length =
        some (buffer (a ++ b)) := by
      rw [hsplit]
      exact deleteAt_append (n := finshCmdSize - e.text.length) _ (by omega)
        fun hz => h0 (List.mem_append_right a hz)
    have hnew : e.backspace = { e with text := a ++ b, cursor := a.length } := by
      rw [Editor.backspace, ha, hb, ← ha, halen]
    rw [if_neg hcur, hpos', hcur', hnew]
    dsimp only
    rw [hdelete]
    have hab : (a ++ b).length = a.length + b.length := List.length_append
    have hcursor : a.length ≤ (a ++ b).length := by omega
    have hroom : (a ++ b).length ≤ finshCmdSize := by omega
    refine ⟨_, rfl, ?_⟩
    exact { h with
      line := rfl, position := hab.symm, curpos := rfl, cursor_le := hcursor, length_le := hroom
      no_nul := h0 }

/-- A character at the cursor of a line with room for it and a NUL. -/
theorem Holds.inserted (h : Holds s e) (hc : c ≠ 0) (hroom : e.text.length < finshCmdSize) :
    ∃ text, text = e.text.take e.cursor ++ c :: e.text.drop e.cursor ∧
      text.length = e.text.length + 1 ∧ (0 : Byte) ∉ text ∧
      insertAt s.echoMode (buffer e.text) e.text.length e.cursor c = some (buffer text) := by
  have hle := h.cursor_le
  obtain ⟨a, ha⟩ : ∃ a, a = e.text.take e.cursor := ⟨_, rfl⟩
  obtain ⟨b, hb⟩ : ∃ b, b = e.text.drop e.cursor := ⟨_, rfl⟩
  have halen : a.length = e.cursor := by
    rw [ha, List.length_take]
    omega
  have hsplit : e.text = a ++ b := by rw [ha, hb, List.take_append_drop]
  have htotal : e.text.length = a.length + b.length := by rw [hsplit, List.length_append]
  have h0 : (0 : Byte) ∉ a ++ c :: b := by
    have hz : (0 : Byte) ∉ a ++ b := hsplit ▸ h.no_nul
    simp only [List.mem_append, List.mem_cons, not_or] at hz ⊢
    exact ⟨hz.1, hc.symm, hz.2⟩
  refine ⟨a ++ c :: b, by rw [ha, hb], ?_, h0, ?_⟩
  · rw [List.length_append, List.length_cons]
    omega
  · rw [htotal, hsplit, ← halen]
    exact insertAt_append (n := finshCmdSize - e.text.length - 1) _ c (by omega) h0

theorem Holds.char (h : Holds s e) (hc : c ≠ 0) (hfit : e.text.length + 1 < finshCmdSize) :
    ∃ s', charKey c s = some s' ∧ Holds s' (e.insert c) := by
  have hle := h.cursor_le
  have hsize : finshCmdSize = 80 := rfl
  obtain ⟨text, htext, hlen, h0, hinsert⟩ := h.inserted hc (by omega)
  have hnew : e.insert c = { e with text, cursor := e.cursor + 1 } := by
    rw [Editor.insert, if_neg (by omega), if_neg (by omega), ← htext]
  have hcursor : e.cursor + 1 ≤ text.length := by omega
  have hroom : text.length ≤ finshCmdSize := by omega
  unfold charKey
  rw [h.position, h.curpos, h.line, if_neg (by omega), hnew]
  dsimp only
  rw [hinsert, wadd_eq (by omega), wadd_eq (by omega)]
  simp only [Option.bind_eq_bind, Option.bind_some]
  rw [if_neg (by omega)]
  refine ⟨_, rfl, ?_⟩
  exact { h with
    line := rfl, position := hlen.symm, curpos := rfl, cursor_le := hcursor, length_le := hroom
    no_nul := h0 }

theorem historyEntry_eq (h : Holds s e) : historyEntry s = some (row e.text) := by
  have hlen := h.length_le
  rw [historyEntry, h.position, if_pos hlen, h.line, buffer, List.take_left, row]

/-- The last command is the line again where their bytes are the same. -/
theorem Holds.last_iff (h : Holds s e) (hnil : e.history ≠ []) :
    s.cmdHistory[e.history.length - 1]? = some (s.line.take finshCmdSize) ↔
      e.history.getLast? = some e.text := by
  have hpos := List.length_pos_iff.mpr hnil
  have hi : e.history.length - 1 < e.history.length := by omega
  rw [h.line, take_buffer h.length_le, ← List.getElem?_take_of_lt hi, h.history,
    List.getElem?_map, ← List.getLast?_eq_getElem?, Option.map_eq_some_iff]
  constructor
  · rintro ⟨t, ht, hrow⟩
    have hmem : t ∈ e.history := List.mem_of_getLast? ht
    rw [ht, row_injective (h.commands t hmem).2 h.no_nul hrow]
  · intro ht
    exact ⟨e.text, ht, rfl⟩

/-- The rows hold these commands. -/
structure Rows (rows commands : List (List Byte)) : Prop where
  length : rows.length = finshHistoryLines
  le : commands.length ≤ finshHistoryLines
  holds : rows.take commands.length = commands.map row
  commands : ∀ t ∈ commands, t.length ≤ finshCmdSize ∧ (0 : Byte) ∉ t

theorem Holds.toRows (h : Holds s e) : Rows s.cmdHistory e.history :=
  ⟨h.rows, h.count_le, h.history, h.commands⟩

/-- A command is added to rows that are not full. -/
theorem Rows.add {commands : List (List Byte)} (h : Rows rows commands)
    (hlt : commands.length < finshHistoryLines)
    (ht : text.length ≤ finshCmdSize ∧ (0 : Byte) ∉ text) :
    Rows (rows.set commands.length (row text)) (commands ++ [text]) := by
  have hlen := h.length
  have hcount : (commands ++ [text]).length ≤ finshHistoryLines := by
    rw [List.length_append]
    exact hlt
  refine ⟨by rw [List.length_set, hlen], hcount, ?_, ?_⟩
  · have hsplit : rows.set commands.length (row text) =
        rows.take commands.length ++ [row text] ++ rows.drop (commands.length + 1) := by
      rw [List.set_eq_take_append_cons_drop, if_pos (by omega), List.append_assoc]
      rfl
    have hnew : rows.take commands.length ++ [row text] = (commands ++ [text]).map row := by
      rw [h.holds, List.map_append, List.map_singleton]
    have hcount : (commands ++ [text]).length = ((commands ++ [text]).map row).length := by
      rw [List.length_map]
    rw [hsplit, hnew, hcount, List.take_left]
  · exact List.forall_mem_append.mpr ⟨h.commands, List.forall_mem_singleton.mpr ht⟩

/-- A command is added to rows that are full, and the first one goes. -/
theorem Rows.shift {commands : List (List Byte)} (h : Rows rows commands)
    (hfull : commands.length = finshHistoryLines)
    (ht : text.length ≤ finshCmdSize ∧ (0 : Byte) ∉ text) :
    Rows (rows.tail ++ [row text]) (commands.tail ++ [text]) := by
  have hlen := h.length
  have hrows : rows = commands.map row := by
    rw [← h.holds, hfull, ← hlen, List.take_length]
  have hcount : (commands.tail ++ [text]).length = finshHistoryLines := by
    rw [List.length_append, List.length_tail, hfull]
    rfl
  have hnew : rows.tail ++ [row text] = (commands.tail ++ [text]).map row := by
    rw [hrows, List.map_append, List.map_tail, List.map_singleton]
  have hsize : ((commands.tail ++ [text]).map row).length = finshHistoryLines := by
    rw [List.length_map, hcount]
  refine ⟨by rw [hnew, hsize], hcount.le, ?_, ?_⟩
  · rw [hnew, hcount, ← hsize, List.take_length]
  · exact List.forall_mem_append.mpr
      ⟨fun t hm => h.commands t (List.mem_of_mem_tail hm), List.forall_mem_singleton.mpr ht⟩

/-- A command that is not the last one again becomes the last one. -/
theorem Holds.push (h : Holds s e) (hne : e.text ≠ []) :
    ∃ rows, pushEntry s = some { s with cmdHistory := rows, historyCount := e.push.length } ∧
      Rows rows e.push := by
  have hle := h.count_le
  have hsize : finshHistoryLines = 5 := rfl
  have hentry := historyEntry_eq h
  have htext : e.text.length ≤ finshCmdSize ∧ (0 : Byte) ∉ e.text := ⟨h.length_le, h.no_nul⟩
  unfold pushEntry
  rw [h.count, hentry]
  by_cases hlast : e.history.getLast? = some e.text
  · have hnil : e.history ≠ [] := by
      intro hnil
      rw [hnil] at hlast
      cases hlast
    have hpush : e.push = e.history := by rw [Editor.push, if_pos (Or.inr hlast)]
    have hsame := (h.last_iff hnil).mpr hlast
    have hpos := List.length_pos_iff.mpr hnil
    refine ⟨s.cmdHistory, ?_, hpush.symm ▸ h.toRows⟩
    rw [hpush, ← h.count] at *
    split_ifs with hfull hdiff hdiff
    · have hrow : finshHistoryLines - 1 = s.historyCount - 1 := by omega
      rw [hrow] at hdiff
      exact absurd hsame hdiff
    · rfl
    · rcases hdiff with hzero | hdiff
      · omega
      · exact absurd hsame hdiff
    · rfl
  · have hpush : e.push = (e.history ++ [e.text]).drop (e.history.length + 1 - 5) := by
      have hlen : (e.history ++ [e.text]).length = e.history.length + 1 := List.length_append
      rw [← hlen, ← hsize]
      exact if_neg (not_or.mpr ⟨hne, hlast⟩)
    by_cases hfull : finshHistoryLines ≤ e.history.length
    · have hnil : e.history ≠ [] := by
        rw [← List.length_pos_iff]
        omega
      have hcount : e.history.length = finshHistoryLines := by omega
      have htail : e.push = e.history.tail ++ [e.text] := by
        have hone : e.history.length + 1 - 5 = 1 := by omega
        rw [hpush, hone, List.drop_one, List.tail_append_of_ne_nil hnil]
      have hrows := h.toRows.shift hcount htext
      rw [htail]
      refine ⟨_, ?_, hrows⟩
      have hdiff : s.cmdHistory[finshHistoryLines - 1]? ≠ some (s.line.take finshCmdSize) := by
        rw [← hcount]
        exact fun hs => hlast ((h.last_iff hnil).mp hs)
      have hnew : (e.history.tail ++ [e.text]).length = finshHistoryLines := by
        rw [List.length_append, List.length_tail, hcount]
        rfl
      rw [if_pos hfull, if_pos hdiff, hnew]
      rfl
    · have hall : e.push = e.history ++ [e.text] := by
        have hzero : e.history.length + 1 - 5 = 0 := by omega
        rw [hpush, hzero, List.drop_zero]
      have hrows := h.toRows.add (by omega) htext
      rw [hall]
      refine ⟨_, ?_, hrows⟩
      have hdiff : e.history.length = 0 ∨
          s.cmdHistory[e.history.length - 1]? ≠ some (s.line.take finshCmdSize) := by
        by_cases hnil : e.history = []
        · exact Or.inl (by rw [hnil, List.length_nil])
        · exact Or.inr fun hs => hlast ((h.last_iff hnil).mp hs)
      rw [if_neg hfull, if_pos hdiff, List.length_append]
      rfl

theorem Holds.enter (h : Holds s e) (echo : Bool) :
    ∃ s', enterKey echo s = some s' ∧ Holds s' e.enter := by
  obtain ⟨rows, hpush, hrows⟩ : ∃ rows,
      (if s.linePosition ≠ 0 then pushEntry s else some s) =
        some { s with cmdHistory := rows, historyCount := e.push.length } ∧
      Rows rows e.push := by
    have hpos := h.position
    by_cases hnil : e.text = []
    · have hsame : e.push = e.history := by rw [Editor.push, if_pos (Or.inl hnil)]
      rw [hsame, ← h.count, if_neg (by simp [hpos, hnil])]
      exact ⟨s.cmdHistory, rfl, h.toRows⟩
    · rw [if_pos (by simp [hpos, hnil])]
      exact h.push hnil
  unfold enterKey shellPushHistory
  rw [hpush]
  refine ⟨_, rfl, ?_⟩
  exact {
    line := rfl, position := rfl, curpos := rfl, cursor_le := le_refl 0
    length_le := Nat.zero_le _, no_nul := List.not_mem_nil, count := rfl
    count_le := hrows.le, current := rfl, rows := hrows.length, history := hrows.holds
    commands := hrows.commands, current_le := le_refl _ }

/-- A character that is typed is not the NUL. -/
theorem decodeKey_char {stat : InputStat} {ch : Byte} (h : (decodeKey stat ch).2 = some (.char c)) :
    c ≠ 0 := by
  cases stat <;> grind [decodeKey, plainKey]

/-- A key that fits does to the shell what it does to the editor. -/
theorem Holds.key (h : Holds s e) (commands : List CString) (input : Input) (key : Key)
    (hkey : ∀ c, key = .char c → c ≠ 0) (hfit : fits commands input.dirents e key = true) :
    ∃ s', handleKey commands input s key = some s' ∧
      Holds s' (e.edit commands input.dirents key) := by
  cases key with
  | up => exact h.up
  | down => exact h.down
  | left => exact h.left
  | right => exact h.right
  | tab => exact h.tab commands input.dirents hfit
  | backspace => exact h.backspace
  | enter => exact h.enter input.echo
  | char c => exact h.char (hkey c rfl) (of_decide_eq_true hfit)

/-- The bytes of a text that the line still holds at an index are not the NUL. -/
theorem getElem_ne_zero (h0 : (0 : Byte) ∉ text) (i : Nat) : text[i]? ≠ some 0 :=
  fun h => h0 (List.mem_of_getElem? h)

/-- A line that becomes too long stays in the buffer without a NUL at the new position. -/
theorem Holds.overlong (h : Holds s e) (hc : c ≠ 0) (hlong : ¬ e.text.length + 1 < finshCmdSize)
    (hs : charKey c s = some s') (e' : Editor) : ¬ Sound ⟨s', e'⟩ := by
  have hsize : finshCmdSize = 80 := rfl
  have hlen := h.length_le
  unfold charKey at hs
  rw [h.position, h.curpos, h.line] at hs
  dsimp only at hs
  rintro ⟨-, -, hnul, -⟩
  by_cases hfull : finshCmdSize ≤ e.text.length
  · have hput : insertAt s.echoMode (buffer e.text) 0 e.cursor c =
        some ((buffer e.text).set 0 c) := by
      rw [insertAt, if_neg (by omega), store, length_buffer (by omega), if_pos (by omega)]
    rw [if_pos hfull, hput, wadd_eq (by omega)] at hs
    simp only [Option.bind_eq_bind, Option.bind_some] at hs
    cases hs
    have hnext : (buffer e.text)[1]? = some 0 := by
      rw [← List.getElem?_set_ne (l := buffer e.text) (a := c) Nat.zero_ne_one]
      exact hnul
    rw [buffer, List.getElem?_append_left (by omega)] at hnext
    exact getElem_ne_zero h.no_nul 1 hnext
  · obtain ⟨text, -, htext, h0, hinsert⟩ := h.inserted hc (by omega)
    rw [if_neg hfull, hinsert, wadd_eq (by omega)] at hs
    simp only [Option.bind_eq_bind, Option.bind_some] at hs
    rw [if_pos (by omega)] at hs
    cases hs
    have hfirst : (buffer text)[0]? = some 0 := hnul
    rw [buffer, List.getElem?_append_left (by omega)] at hfirst
    exact getElem_ne_zero h0 0 hfirst

/-- A key that does not fit is refused, or the line is not sound behind it. -/
theorem Holds.misfit (h : Holds s e) (commands : List CString) (input : Input) (key : Key)
    (hkey : ∀ c, key = .char c → c ≠ 0) (hfit : ¬ fits commands input.dirents e key = true)
    (hs : handleKey commands input s key = some s') (e' : Editor) : ¬ Sound ⟨s', e'⟩ := by
  cases key with
  | up | down | left | right | backspace | enter => exact absurd rfl hfit
  | char c => exact h.overlong (hkey c rfl) (fun hlt => hfit (decide_eq_true hlt)) hs e'
  | tab =>
    have hlong : ¬ (complete commands input.dirents e.text).length ≤ finshCmdSize :=
      fun hle => hfit (decide_eq_true hle)
    have h0 := zero_notMem_complete commands input.dirents h.no_nul
    have hnone : handleKey commands input s .tab = none := by
      rw [handleKey, tabKey_eq h.no_nul h.length_le commands input.dirents s h.line,
        recalculate_buffer h0, if_neg hlong]
    rw [hnone] at hs
    cases hs

theorem receive_some {key : Key} (hkey : (decodeKey x.shell.stat input.ch).2 = some key) :
    receive commands x input =
      (handleKey commands input { x.shell with stat := (decodeKey x.shell.stat input.ch).1 }
        key).map fun shell => ⟨shell, x.editor.edit commands input.dirents key⟩ := by
  simp only [receive, handleInput, hkey]

theorem receive_none (hkey : (decodeKey x.shell.stat input.ch).2 = none) :
    receive commands x input =
      some ⟨{ x.shell with stat := (decodeKey x.shell.stat input.ch).1 }, x.editor⟩ := by
  simp only [receive, handleInput, hkey]
  rfl

/-- A character that fits is received, and the shell goes on holding what the editor does. -/
theorem Holds.receive (h : Holds x.shell x.editor) (input : Input) (hfit : Fits commands x input) :
    ∃ y, receive commands x input = some y ∧ Holds y.shell y.editor := by
  have hstat : Holds { x.shell with stat := (decodeKey x.shell.stat input.ch).1 } x.editor :=
    { h with }
  cases hkey : (decodeKey x.shell.stat input.ch).2 with
  | none => exact ⟨_, receive_none hkey, hstat⟩
  | some key =>
    obtain ⟨s', hs, hholds⟩ := hstat.key commands input key
      (fun c hc => decodeKey_char (hc ▸ hkey)) (hfit key hkey)
    rw [receive_some hkey, hs]
    exact ⟨_, rfl, hholds⟩

/-- The shell receives a list of characters and keeps its line sound exactly when none of them
makes the line too long. -/
theorem shell_line_edits (commands : List CString) (inputs : List Input) :
    ((∃ x, Runs.run (receive commands) session inputs = some x) ∧
        Runs.Always (receive commands) Sound session inputs) ↔
      Runs.Along (receive commands) (Fits commands) session inputs := by
  have hsound : ∀ x : Session, Holds x.shell x.editor → Sound x := fun _ h => h.sound
  have hgood : ∀ (x : Session) (input : Input), Holds x.shell x.editor → Fits commands x input →
      True ∧ ∃ y, receive commands x input = some y ∧ Holds y.shell y.editor :=
    fun _ input h hfit => ⟨trivial, h.receive input hfit⟩
  have hbad : ∀ (x : Session) (input : Input), Holds x.shell x.editor →
      ¬ Fits commands x input → True → ∀ y, receive commands x input = some y → ¬ Sound y := by
    intro x input h hbad _ y hy
    obtain ⟨key, hkey⟩ := not_forall.mp hbad
    obtain ⟨hkey, hfit⟩ := Classical.not_imp.mp hkey
    rw [receive_some hkey] at hy
    obtain ⟨s', hs, rfl⟩ := Option.map_eq_some_iff.mp hy
    have hstat : Holds { x.shell with stat := (decodeKey x.shell.stat input.ch).1 } x.editor :=
      { h with }
    exact hstat.misfit commands input key (fun c hc => decodeKey_char (hc ▸ hkey)) hfit hs _
  rw [← Runs.complete_iff_along hsound hgood hbad Holds.start]
  constructor
  · rintro ⟨hrun, hall⟩
    exact ⟨hrun, hall, Runs.along_of_forall (fun _ _ => trivial) session⟩
  · rintro ⟨hrun, hall, -⟩
    exact ⟨hrun, hall⟩

/-- Eighty characters are typed. -/
theorem long_line_stays :
    ¬ Runs.Always (receive []) Sound session (List.replicate 80 ⟨0x61, none, true⟩) := by
  decide +kernel

end RtThread.Shell
