import RtThread.Shell

/-!
# The arguments of a command line

`msh_split` of `msh.c` cuts a command into its arguments where it stands: it writes a NUL behind
each of them and keeps pointers to their first characters. The pointer `ptr` of the source is
`cmd` and `position` bytes more all the time. A read has to be inside of the command and its NUL,
and a write inside of the command.
-/
namespace RtThread.Msh

open Shell

def quoteMark : Byte := 0x22

def backslash : Byte := 0x5c

def isBlank (b : Byte) : Bool := b = 0x20 || b = 0x09

/-! ## The grammar -/

/-- The text up to the quote that ends it, and what follows. -/
def quoted : List Byte → List Byte × List Byte
  | [] => ([], [])
  | [b] => if b = quoteMark then ([], [b]) else ([b], [])
  | b :: c :: text =>
    if b = quoteMark then ([], b :: c :: text)
    else if b = backslash ∧ c = quoteMark then
      (b :: c :: (quoted text).1, (quoted text).2)
    else (b :: (quoted (c :: text)).1, (quoted (c :: text)).2)

theorem quoted_append (text : List Byte) : (quoted text).1 ++ (quoted text).2 = text := by
  induction text using quoted.induct with
  | case1 => rfl
  | case2 | case4 => rw [quoted, if_pos rfl]; rfl
  | case3 b hquote => rw [quoted, if_neg hquote]; rfl
  | case5 b c text hquote hpair ih => rw [quoted, if_neg hquote, if_pos hpair]; simp [ih]
  | case6 b c text hquote hpair ih => rw [quoted, if_neg hquote, if_neg hpair]; simp [ih]

/-- The text ends at a quote, or there is none. -/
theorem quoted_end (text : List Byte) :
    (quoted text).2 = [] ∨ ∃ rest, (quoted text).2 = quoteMark :: rest := by
  induction text using quoted.induct with
  | case1 => exact Or.inl rfl
  | case2 => rw [quoted, if_pos rfl]; exact Or.inr ⟨[], rfl⟩
  | case3 b hquote => rw [quoted, if_neg hquote]; exact Or.inl rfl
  | case4 c text => rw [quoted, if_pos rfl]; exact Or.inr ⟨_, rfl⟩
  | case5 b c text hquote hpair ih => rw [quoted, if_neg hquote, if_pos hpair]; exact ih
  | case6 b c text hquote hpair ih => rw [quoted, if_neg hquote, if_neg hpair]; exact ih

theorem length_quoted_le (text : List Byte) : (quoted text).2.length ≤ text.length := by
  have hlen := congrArg List.length (quoted_append text)
  rw [List.length_append] at hlen
  omega

/-- Words between blanks, and texts in quotes. -/
def tokens : List Byte → List (List Byte)
  | [] => []
  | b :: text =>
    if isBlank b then tokens text
    else if b = quoteMark then (quoted text).1 :: tokens (quoted text).2.tail
    else (b :: text.takeWhile (!isBlank ·)) :: tokens (text.dropWhile (!isBlank ·))
termination_by text => text.length
decreasing_by
  · exact Nat.lt_succ_self _
  · have hle := length_quoted_le text
    rw [List.length_tail, List.length_cons]
    omega
  · exact Nat.lt_succ_of_le (List.dropWhile_sublist _).length_le

theorem tokens_strip (text : List Byte) : tokens (text.dropWhile isBlank) = tokens text := by
  induction text with
  | nil => rfl
  | cons b text ih =>
    by_cases hb : isBlank b
    · rw [List.dropWhile_cons_of_pos hb, ih, tokens, if_pos hb]
    · rw [List.dropWhile_cons_of_neg hb]

/-! ## `msh_split` -/

/-- The buffer, how far it has been read, and the offsets in `argv`. -/
structure Split where
  buf : List Byte
  position : Nat
  argv : List Nat
  deriving DecidableEq

/-- `*ptr = '\0'`. -/
def putNul (length : Nat) (buf : List Byte) (position : Nat) : Option (List Byte) :=
  if position < length then some (buf.set position 0) else none

/-- The loop that strips blanks and tabs. -/
def stripBlanks (length : Nat) (buf : List Byte) (position : Nat) : Option (List Byte × Nat) :=
  match buf[position]? with
  | none => none
  | some b =>
    if isBlank b ∧ position < length then
      (putNul length buf position).bind fun buf => stripBlanks length buf (position + 1)
    else some (buf, position)
termination_by length - position

/-- The loop over a string, up to its quote. -/
def skipString (length : Nat) (buf : List Byte) (position : Nat) : Option Nat :=
  match buf[position]? with
  | none => none
  | some b =>
    if b ≠ quoteMark ∧ position < length then
      if b = backslash then
        match buf[position + 1]? with
        | none => none
        | some c =>
          if c = quoteMark then skipString length buf (position + 2)
          else skipString length buf (position + 1)
      else skipString length buf (position + 1)
    else some position
termination_by length - position

/-- The loop over a word. -/
def skipWord (length : Nat) (buf : List Byte) (position : Nat) : Option Nat :=
  match buf[position]? with
  | none => none
  | some b =>
    if isBlank b = false ∧ position < length then skipWord length buf (position + 1)
    else some position
termination_by length - position

/-- A turn of the main loop, and whether it is not left by a `break`. -/
def splitTurn (argMax length : Nat) (x : Split) : Option (Split × Bool) := do
  let (buf, position) ← stripBlanks length x.buf x.position
  if argMax ≤ x.argv.length then
    some (⟨buf, position, x.argv⟩, false)
  else if length ≤ position then
    some (⟨buf, position, x.argv⟩, false)
  else
    let b ← buf[position]?
    if b = quoteMark then
      let argv := x.argv ++ [position + 1]
      let last ← skipString length buf (position + 1)
      if length ≤ last then
        some (⟨buf, last, argv⟩, false)
      else
        let buf ← putNul length buf last
        some (⟨buf, last + 1, argv⟩, true)
    else
      let argv := x.argv ++ [position]
      let last ← skipWord length buf position
      some (⟨buf, last, argv⟩, decide (last < length))

/-- The main loop for at most so many turns. -/
def splitLoop (argMax length : Nat) : Nat → Split → Option Split
  | 0, x => if x.position < length then none else some x
  | turns + 1, x =>
    if x.position < length then
      (splitTurn argMax length x).bind fun y =>
        if y.2 then splitLoop argMax length turns y.1 else some y.1
    else some x

/-- `msh_split` on a command and its NUL, with `FINSH_ARG_MAX` for `argMax`. Every turn moves the
position, so that the length bounds their number. -/
def mshSplit (argMax : Nat) (cmd : List Byte) : Option Split :=
  splitLoop argMax cmd.length cmd.length ⟨cmd ++ [0], 0, []⟩

/-! ## The loops over one token -/

section loops

variable {buf buf' cmd text rest tok : List Byte} {b : Byte} {length p : Nat}

theorem read_of_drop (h : buf.drop p = b :: rest) : buf[p]? = some b := by
  rw [← Nat.add_zero p, ← List.getElem?_drop, h]
  rfl

theorem drop_succ (h : buf.drop p = b :: rest) : buf.drop (p + 1) = rest := by
  rw [← List.drop_drop, h]
  rfl

theorem drop_token {l : List Byte} (h : l.drop p = tok ++ rest) :
    l.drop (p + tok.length) = rest := by
  rw [← List.drop_drop, h, List.drop_left]

/-- The NUL behind the command has been reached. -/
theorem read_end (h : buf.drop p = [] ++ [0]) : buf[p]? = some 0 := read_of_drop h

theorem stripBlanks_spec (hdrop : buf.drop p = text ++ [0]) (hlen : p + text.length = length) :
    ∃ buf' p', stripBlanks length buf p = some (buf', p') ∧
      buf'.drop p' = text.dropWhile isBlank ++ [0] ∧
      p' + (text.dropWhile isBlank).length = length ∧ p ≤ p' ∧
      buf'.length = buf.length ∧
      (∀ i < p, buf'[i]? = buf[i]?) ∧ (p < p' → buf'[p]? = some 0) := by
  induction text generalizing buf p with
  | nil =>
    refine ⟨buf, p, ?_, hdrop, hlen, Nat.le_refl p, rfl, fun _ _ => rfl,
      fun h => absurd h (by omega)⟩
    rw [stripBlanks, read_end hdrop]
    rfl
  | cons b text ih =>
    have hread := read_of_drop hdrop
    have hlt : p < length := by
      rw [List.length_cons] at hlen
      omega
    by_cases hb : isBlank b
    · have hbound : p < buf.length := (List.getElem?_eq_some_iff.mp hread).1
      have hset : (buf.set p 0).drop (p + 1) = text ++ [0] := by
        rw [List.drop_set_of_lt (Nat.lt_succ_self p)]
        exact drop_succ hdrop
      obtain ⟨buf', p', hstrip, hdrop', hlen', hle, hsize, hkept, -⟩ := ih hset (by
        rw [List.length_cons] at hlen
        omega)
      rw [List.dropWhile_cons_of_pos hb]
      refine ⟨buf', p', ?_, hdrop', hlen', by omega, hsize.trans List.length_set, ?_, ?_⟩
      · rw [stripBlanks, hread]
        dsimp only
        rw [if_pos ⟨hb, hlt⟩, putNul, if_pos hlt]
        exact hstrip
      · intro i hi
        rw [hkept i (by omega), List.getElem?_set_ne (by omega)]
      · intro _
        rw [hkept p (by omega), List.getElem?_set_self hbound]
    · rw [List.dropWhile_cons_of_neg hb]
      refine ⟨buf, p, ?_, hdrop, hlen, Nat.le_refl p, rfl, fun _ _ => rfl,
        fun h => absurd h (by omega)⟩
      rw [stripBlanks, hread]
      dsimp only
      rw [if_neg fun h => hb h.1]

/-- A character of a string, with the one behind it. -/
theorem skipString_step {c : Byte} (hdrop : buf.drop p = b :: c :: rest) (hlt : p < length)
    (hquote : b ≠ quoteMark) :
    skipString length buf p =
      if b = backslash ∧ c = quoteMark then skipString length buf (p + 2)
      else skipString length buf (p + 1) := by
  rw [skipString, read_of_drop hdrop]
  dsimp only
  rw [if_pos ⟨hquote, hlt⟩, read_of_drop (drop_succ hdrop)]
  by_cases hb : b = backslash
  · rw [if_pos hb]
    by_cases hc : c = quoteMark
    · rw [if_pos ⟨hb, hc⟩]
      exact if_pos hc
    · rw [if_neg fun h => hc h.2]
      exact if_neg hc
  · rw [if_neg hb, if_neg fun h => hb h.1]

theorem skipString_stop (hdrop : buf.drop p = b :: rest) (h : b = quoteMark ∨ length ≤ p) :
    skipString length buf p = some p := by
  rw [skipString, read_of_drop hdrop]
  dsimp only
  rw [if_neg]
  intro hgo
  rcases h with hquote | hend
  · exact hgo.1 hquote
  · omega

theorem skipString_spec (hdrop : buf.drop p = text ++ [0]) (hlen : p + text.length = length) :
    skipString length buf p = some (p + (quoted text).1.length) := by
  induction text using quoted.induct generalizing p with
  | case1 =>
    rw [List.length_nil] at hlen
    exact skipString_stop hdrop (Or.inr (by omega))
  | case2 | case4 =>
    exact skipString_stop hdrop (Or.inl rfl)
  | case3 b hquote =>
    rw [List.length_singleton] at hlen
    rw [skipString_step hdrop (by omega) hquote, if_neg fun h => absurd h.2 (by decide), quoted,
      if_neg hquote]
    exact skipString_stop (drop_succ hdrop) (Or.inr (by omega))
  | case5 b c text hquote hpair ih =>
    rw [List.length_cons, List.length_cons] at hlen
    rw [skipString_step hdrop (by omega) hquote, if_pos hpair, quoted, if_neg hquote,
      if_pos hpair, ih (drop_succ (drop_succ hdrop)) (by omega)]
    simp only [List.length_cons]
    congr 1
    omega
  | case6 b c text hquote hpair ih =>
    rw [List.length_cons] at hlen
    rw [skipString_step hdrop (by omega) hquote, if_neg hpair, quoted, if_neg hquote,
      if_neg hpair, ih (drop_succ hdrop) (by omega)]
    simp only [List.length_cons]
    congr 1
    omega

theorem skipWord_spec (hdrop : buf.drop p = text ++ [0]) (hlen : p + text.length = length) :
    skipWord length buf p = some (p + (text.takeWhile (!isBlank ·)).length) := by
  induction text generalizing p with
  | nil =>
    rw [List.length_nil] at hlen
    rw [skipWord, read_end hdrop]
    exact if_neg fun h => absurd h.2 (by omega)
  | cons b text ih =>
    rw [List.length_cons] at hlen
    rw [skipWord, read_of_drop hdrop]
    dsimp only
    cases hb : isBlank b with
    | false =>
      rw [if_pos ⟨rfl, by omega⟩, ih (drop_succ hdrop) (by omega),
        List.takeWhile_cons_of_pos (by simp [hb]), List.length_cons]
      congr 1
      omega
    | true =>
      rw [if_neg fun h => Bool.noConfusion h.1, List.takeWhile_cons_of_neg (by simp [hb])]
      rfl

end loops

end RtThread.Msh
