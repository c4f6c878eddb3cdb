import Mathlib.Data.List.TakeWhile
import RtThread.MshSplit

/-!
# The arguments are the tokens

A turn of the loop of `msh_split` finds one token and leaves the rest of the command as it was.
The NUL behind a word is written by the turn that follows it, and the last one is that of the
command.
-/
namespace RtThread.Msh

open Shell

/-- The token is at the offset in the command, and a NUL behind it in the buffer. -/
def Placed (cmd buf : List Byte) (off : Nat) (tok : List Byte) : Prop :=
  tok <+: cmd.drop off ∧ tok ++ [0] <+: buf.drop off

section turns

variable {cmd buf buf' rest tok : List Byte} {x y : Split} {argMax p turns : Nat}

/-- A token stays where it is when nothing before its end is written, and the end is a NUL. -/
theorem placed_of_kept (hdrop : buf.drop p = tok ++ rest)
    (hkept : ∀ i < p + tok.length, buf'[i]? = buf[i]?) (hend : buf'[p + tok.length]? = some 0) :
    tok ++ [0] <+: buf'.drop p := by
  rw [List.prefix_iff_getElem?]
  intro i hi
  rw [List.length_append, List.length_singleton] at hi
  rw [List.getElem?_drop]
  rcases Nat.lt_or_ge i tok.length with hlt | hge
  · rw [hkept _ (by omega), ← List.getElem?_drop, hdrop, List.getElem?_append_left hlt,
      List.getElem_append_left hlt, List.getElem?_eq_getElem]
  · obtain rfl : i = tok.length := by omega
    rw [hend]
    simp

/-- What has not been read yet is as it was. -/
structure Unread (cmd : List Byte) (x : Split) : Prop where
  le : x.position ≤ cmd.length
  drop : x.buf.drop x.position = cmd.drop x.position ++ [0]

/-- What the loop does from `x` on. The blank that it stands on ends the token before it. -/
structure Splits (argMax : Nat) (cmd : List Byte) (x y : Split) : Prop where
  kept : ∀ i < x.position, y.buf[i]? = x.buf[i]?
  length : y.buf.length = x.buf.length
  ended : ∀ b rest, cmd.drop x.position = b :: rest → isBlank b → y.buf[x.position]? = some 0
  last : y.buf[cmd.length]? = some 0
  args : ∃ offs, y.argv = x.argv ++ offs ∧ List.Forall₂ (Placed cmd y.buf) offs
    ((tokens (cmd.drop x.position)).take (argMax - x.argv.length))

/-- The state after the blanks before a token. -/
structure Stripped (cmd : List Byte) (x : Split) (buf : List Byte) (p : Nat) : Prop where
  le : p ≤ cmd.length
  drop : buf.drop p = cmd.drop p ++ [0]
  text : cmd.drop p = (cmd.drop x.position).dropWhile isBlank
  past : x.position ≤ p
  length : buf.length = x.buf.length
  kept : ∀ i < x.position, buf[i]? = x.buf[i]?
  ended : ∀ b rest, cmd.drop x.position = b :: rest → isBlank b →
    x.position < p ∧ buf[x.position]? = some 0

theorem Unread.strip (h : Unread cmd x) :
    ∃ buf p, stripBlanks cmd.length x.buf x.position = some (buf, p) ∧ Stripped cmd x buf p := by
  have hle := h.le
  have hend : x.position + (cmd.drop x.position).length = cmd.length := by
    rw [List.length_drop]
    omega
  obtain ⟨buf, p, hstrip, hdrop, hlen, hpast, hsize, hkept, hended⟩ := stripBlanks_spec h.drop hend
  have htext : cmd.drop p = (cmd.drop x.position).dropWhile isBlank := by
    have hsuffix := ((cmd.drop x.position).dropWhile_suffix isBlank).trans
      (List.drop_suffix x.position cmd)
    rw [List.suffix_iff_eq_drop] at hsuffix
    rw [hsuffix]
    congr 1
    omega
  refine ⟨buf, p, hstrip, by omega, htext ▸ hdrop, htext, hpast, hsize, hkept, ?_⟩
  intro b rest htextx hb
  have hlt : x.position < p := by
    have hshort := ((rest.dropWhile_suffix isBlank).sublist).length_le
    have hx := congrArg List.length htextx
    rw [htextx, List.dropWhile_cons_of_pos hb] at hlen
    rw [List.length_drop, List.length_cons] at hx
    omega
  exact ⟨hlt, hended hlt⟩

/-- The buffer ends with the NUL. -/
theorem Stripped.last (h : Stripped cmd x buf p) : buf[cmd.length]? = some 0 := by
  have hle := h.le
  rw [show cmd.length = p + (cmd.drop p).length by rw [List.length_drop]; omega,
    ← List.getElem?_drop, h.drop]
  simp

theorem Stripped.tokens_eq (h : Stripped cmd x buf p) :
    tokens (cmd.drop x.position) = tokens (cmd.drop p) := by
  rw [h.text, tokens_strip]

/-- The loop ends at `p`, with the arguments it has found. -/
theorem Stripped.splits (h : Stripped cmd x buf p) {q : Nat} {offs : List Nat}
    (hargs : List.Forall₂ (Placed cmd buf) offs
      ((tokens (cmd.drop p)).take (argMax - x.argv.length))) :
    Splits argMax cmd x ⟨buf, q, x.argv ++ offs⟩ where
  kept := h.kept
  length := h.length
  ended b rest htext hb := (h.ended b rest htext hb).2
  last := h.last
  args := ⟨offs, rfl, by rw [h.tokens_eq]; exact hargs⟩

/-- A turn after which the loop goes on: it has found one token. -/
structure Turn (argMax : Nat) (cmd : List Byte) (x y : Split) : Prop where
  unread : Unread cmd y
  past : x.position < y.position
  room : x.argv.length < argMax
  kept : ∀ i < x.position, y.buf[i]? = x.buf[i]?
  length : y.buf.length = x.buf.length
  ended : ∀ b rest, cmd.drop x.position = b :: rest → isBlank b → y.buf[x.position]? = some 0
  token : ∃ off tok, y.argv = x.argv ++ [off] ∧
    tokens (cmd.drop x.position) = tok :: tokens (cmd.drop y.position) ∧
    ∀ z, Splits argMax cmd y z → Placed cmd z.buf off tok

theorem Turn.splits {z : Split} (h : Turn argMax cmd x y) (hy : Splits argMax cmd y z) :
    Splits argMax cmd x z where
  kept i hi := (hy.kept i (hi.trans h.past)).trans (h.kept i hi)
  length := hy.length.trans h.length
  ended b rest htext hb := (hy.kept _ h.past).trans (h.ended b rest htext hb)
  last := hy.last
  args := by
    obtain ⟨off, tok, hargv, htokens, hplaced⟩ := h.token
    obtain ⟨offs, hoffs, hall⟩ := hy.args
    refine ⟨off :: offs, ?_, ?_⟩
    · rw [hoffs, hargv, List.append_assoc, List.singleton_append]
    · have hroom : argMax - x.argv.length = argMax - y.argv.length + 1 := by
        have hlt := h.room
        rw [hargv, List.length_append, List.length_singleton]
        omega
      rw [htokens, hroom, List.take_succ_cons]
      exact List.Forall₂.cons (hplaced z hy) hall

/-- The turn at a quote. -/
theorem Stripped.stringTurn (h : Stripped cmd x buf p) (hroom : x.argv.length < argMax)
    {text : List Byte} (htext : cmd.drop p = quoteMark :: text) :
    ∃ last, skipString cmd.length buf (p + 1) = some last ∧
      if cmd.length ≤ last then Splits argMax cmd x ⟨buf, last, x.argv ++ [p + 1]⟩
      else Turn argMax cmd x ⟨buf.set last 0, last + 1, x.argv ++ [p + 1]⟩ := by
  have hdrop : buf.drop (p + 1) = text ++ [0] := by
    apply drop_succ (b := quoteMark)
    rw [h.drop, htext, List.cons_append]
  have hcmd : cmd.drop (p + 1) = text := drop_succ htext
  have hlt : p < cmd.length := by
    have hlen := congrArg List.length htext
    rw [List.length_drop, List.length_cons] at hlen
    omega
  have hlen : p + 1 + text.length = cmd.length := by
    rw [← hcmd, List.length_drop]
    omega
  have hparts := quoted_append text
  have hsum : (quoted text).1.length + (quoted text).2.length = text.length := by
    rw [← List.length_append, hparts]
  have htokens : tokens (cmd.drop p) = (quoted text).1 :: tokens (quoted text).2.tail := by
    rw [htext, tokens, if_neg (by decide), if_pos rfl]
  have hpre : (quoted text).1 <+: cmd.drop (p + 1) := by
    rw [hcmd]
    exact ⟨_, hparts⟩
  refine ⟨_, skipString_spec hdrop hlen, ?_⟩
  rcases quoted_end text with hend | ⟨rest, hend⟩
  · rw [hend, List.length_nil] at hsum
    rw [if_pos (by omega)]
    apply h.splits
    rw [htokens, hend, List.tail_nil, tokens,
      show argMax - x.argv.length = argMax - x.argv.length - 1 + 1 by omega, List.take_succ_cons,
      List.take_nil]
    rw [hend, List.append_nil] at hparts
    exact List.Forall₂.cons ⟨hpre, by rw [hdrop, hparts]⟩ List.Forall₂.nil
  · rw [hend, List.length_cons] at hsum
    rw [if_neg (by omega)]
    have hpast := h.past
    have hbound : p + 1 + (quoted text).1.length < buf.length := by
      have hbuf := congrArg List.length hdrop
      rw [List.length_drop, List.length_append, List.length_singleton] at hbuf
      omega
    have hcmdlast : cmd.drop (p + 1 + (quoted text).1.length) = quoteMark :: rest := by
      apply drop_token
      rw [hcmd, ← hend, hparts]
    have hbuf : buf.drop (p + 1) = (quoted text).1 ++ (quoteMark :: rest ++ [0]) := by
      rw [hdrop, ← hend, ← List.append_assoc, hparts]
    have hbuflast : buf.drop (p + 1 + (quoted text).1.length) = quoteMark :: (rest ++ [0]) :=
      drop_token hbuf
    refine ⟨⟨?_, ?_⟩, ?_, hroom, ?_, ?_, ?_, ⟨p + 1, (quoted text).1, rfl, ?_, ?_⟩⟩
    · simp only
      omega
    · simp only
      rw [List.drop_set_of_lt (Nat.lt_succ_self _), drop_succ hbuflast, drop_succ hcmdlast]
    · simp only
      omega
    · intro i hi
      simp only
      rw [List.getElem?_set_ne (by omega), h.kept i hi]
    · simp only
      rw [List.length_set, h.length]
    · intro b tail hx hb
      obtain ⟨hp, hnul⟩ := h.ended b tail hx hb
      simp only
      rw [List.getElem?_set_ne (by omega), hnul]
    · simp only
      rw [h.tokens_eq, htokens, hend, List.tail_cons, drop_succ hcmdlast]
    · intro z hz
      have hkept := hz.kept
      simp only at hkept
      refine ⟨hpre, placed_of_kept hbuf ?_ ?_⟩
      · intro i hi
        rw [hkept i (by omega), List.getElem?_set_ne (by omega)]
      · rw [hkept _ (by omega), List.getElem?_set_self hbound]

/-- The turn at a word. -/
theorem Stripped.wordTurn (h : Stripped cmd x buf p) (hroom : x.argv.length < argMax)
    {text : List Byte} {b : Byte} (htext : cmd.drop p = b :: text) (hblank : isBlank b = false)
    (hquote : b ≠ quoteMark) :
    ∃ last, skipWord cmd.length buf p = some last ∧
      if last < cmd.length then Turn argMax cmd x ⟨buf, last, x.argv ++ [p]⟩
      else Splits argMax cmd x ⟨buf, last, x.argv ++ [p]⟩ := by
  have hpast := h.past
  have hword : (cmd.drop p).takeWhile (!isBlank ·) = b :: text.takeWhile (!isBlank ·) := by
    rw [htext, List.takeWhile_cons_of_pos (by simp [hblank])]
  have hbehind : (cmd.drop p).dropWhile (!isBlank ·) = text.dropWhile (!isBlank ·) := by
    rw [htext, List.dropWhile_cons_of_pos (by simp [hblank])]
  have hparts := List.takeWhile_append_dropWhile (p := (!isBlank ·)) (l := cmd.drop p)
  have htokens : tokens (cmd.drop p) = (cmd.drop p).takeWhile (!isBlank ·) ::
      tokens ((cmd.drop p).dropWhile (!isBlank ·)) := by
    rw [hword, hbehind, htext, tokens, if_neg (by simp [hblank]), if_neg hquote]
  have hsum := congrArg List.length hparts
  rw [List.length_append, List.length_drop] at hsum
  have hlast : cmd.drop (p + ((cmd.drop p).takeWhile (!isBlank ·)).length) =
      (cmd.drop p).dropWhile (!isBlank ·) := drop_token hparts.symm
  have hfirst : 0 < ((cmd.drop p).takeWhile (!isBlank ·)).length := by
    rw [hword]
    exact Nat.succ_pos _
  have hdrop : buf.drop p = (cmd.drop p).takeWhile (!isBlank ·) ++
      ((cmd.drop p).dropWhile (!isBlank ·) ++ [0]) := by
    rw [← List.append_assoc, hparts, h.drop]
  have hpre : (cmd.drop p).takeWhile (!isBlank ·) <+: cmd.drop p := ⟨_, hparts⟩
  refine ⟨_, skipWord_spec h.drop (by rw [List.length_drop]; omega), ?_⟩
  generalize (cmd.drop p).takeWhile (!isBlank ·) = word at *
  cases hend : (cmd.drop p).dropWhile (!isBlank ·) with
  | nil =>
    rw [hend] at hsum hdrop htokens
    rw [List.length_nil] at hsum
    rw [if_neg (by omega)]
    apply h.splits
    rw [htokens, tokens,
      show argMax - x.argv.length = argMax - x.argv.length - 1 + 1 by omega, List.take_succ_cons,
      List.take_nil]
    refine List.Forall₂.cons ⟨hpre, ?_⟩ List.Forall₂.nil
    rw [hdrop, List.nil_append]
  | cons e rest =>
    have hblank' : isBlank e = true := by
      have hhead := List.head_dropWhile_not (!isBlank ·) (l := cmd.drop p) (by rw [hend]; simp)
      simpa [hend] using hhead
    rw [hend] at hsum hlast
    rw [List.length_cons] at hsum
    rw [if_pos (by omega)]
    refine ⟨⟨?_, ?_⟩, ?_, hroom, h.kept, h.length, ?_, ⟨p, word, rfl, ?_, ?_⟩⟩
    · simp only
      omega
    · simp only
      rw [drop_token hdrop, hlast, hend]
    · simp only
      omega
    · intro c tail hx hc
      exact (h.ended c tail hx hc).2
    · simp only
      rw [h.tokens_eq, htokens, hlast, hend]
    · intro z hz
      refine ⟨hpre, placed_of_kept hdrop (fun i hi => hz.kept i hi) ?_⟩
      exact hz.ended e rest hlast hblank'

/-- A turn ends the loop, or finds one token. -/
theorem splitTurn_cases (h : Unread cmd x) :
    (∃ y, splitTurn argMax cmd.length x = some (y, false) ∧ Splits argMax cmd x y) ∨
    ∃ y, splitTurn argMax cmd.length x = some (y, true) ∧ Turn argMax cmd x y := by
  obtain ⟨buf, p, hstrip, hs⟩ := h.strip
  have hdroplen : (cmd.drop p).length = cmd.length - p := List.length_drop
  by_cases hroom : argMax ≤ x.argv.length
  · left
    refine ⟨⟨buf, p, x.argv⟩, ?_, ?_⟩
    · simp only [splitTurn, hstrip, Option.bind_eq_bind, Option.bind_some, if_pos hroom]
    · have hsplits : Splits argMax cmd x ⟨buf, p, x.argv ++ []⟩ := hs.splits (by
        rw [Nat.sub_eq_zero_of_le hroom, List.take_zero]
        exact List.Forall₂.nil)
      rwa [List.append_nil] at hsplits
  · cases htext : cmd.drop p with
    | nil =>
      left
      rw [htext, List.length_nil] at hdroplen
      refine ⟨⟨buf, p, x.argv⟩, ?_, ?_⟩
      · simp only [splitTurn, hstrip, Option.bind_eq_bind, Option.bind_some, if_neg hroom]
        rw [if_pos (by omega)]
      · have hsplits : Splits argMax cmd x ⟨buf, p, x.argv ++ []⟩ := hs.splits (by
          rw [htext, tokens, List.take_nil]
          exact List.Forall₂.nil)
        rwa [List.append_nil] at hsplits
    | cons b text =>
      have hblank : isBlank b = false := by
        have hhead := List.head_dropWhile_not isBlank (l := cmd.drop x.position)
          (by rw [← hs.text, htext]; simp)
        simpa [← hs.text, htext] using hhead
      rw [htext, List.length_cons] at hdroplen
      have hread : buf[p]? = some b := read_of_drop (hs.drop.trans (by rw [htext]; rfl))
      have hturn : splitTurn argMax cmd.length x =
          if b = quoteMark then
            (skipString cmd.length buf (p + 1)).bind fun last =>
              if cmd.length ≤ last then some (⟨buf, last, x.argv ++ [p + 1]⟩, false)
              else (putNul cmd.length buf last).bind fun buf =>
                some (⟨buf, last + 1, x.argv ++ [p + 1]⟩, true)
          else (skipWord cmd.length buf p).bind fun last =>
            some (⟨buf, last, x.argv ++ [p]⟩, decide (last < cmd.length)) := by
        simp only [splitTurn, hstrip, Option.bind_eq_bind, Option.bind_some, if_neg hroom]
        rw [if_neg (by omega), hread, Option.bind_some]
      rw [hturn]
      by_cases hquote : b = quoteMark
      · subst hquote
        obtain ⟨last, hskip, hsplits⟩ := hs.stringTurn (Nat.lt_of_not_le hroom) htext
        rw [if_pos rfl, hskip, Option.bind_some]
        by_cases hlast : cmd.length ≤ last
        · left
          rw [if_pos hlast] at hsplits ⊢
          exact ⟨_, rfl, hsplits⟩
        · right
          rw [if_neg hlast] at hsplits ⊢
          rw [putNul, if_pos (by omega)]
          exact ⟨_, rfl, hsplits⟩
      · obtain ⟨last, hskip, hsplits⟩ :=
          hs.wordTurn (Nat.lt_of_not_le hroom) htext hblank hquote
        rw [if_neg hquote, hskip, Option.bind_some]
        by_cases hlast : last < cmd.length
        · right
          rw [if_pos hlast] at hsplits
          rw [decide_eq_true hlast]
          exact ⟨_, rfl, hsplits⟩
        · left
          rw [if_neg hlast] at hsplits
          rw [decide_eq_false hlast]
          exact ⟨_, rfl, hsplits⟩

theorem Unread.splits_self (h : Unread cmd x) (hend : cmd.length ≤ x.position) :
    Splits argMax cmd x x := by
  have htext : cmd.drop x.position = [] := List.drop_eq_nil_of_le hend
  have hdrop := h.drop
  rw [htext] at hdrop
  obtain hpos : x.position = cmd.length := Nat.le_antisymm h.le hend
  refine ⟨fun _ _ => rfl, rfl, ?_, ?_, [], (List.append_nil _).symm, ?_⟩
  · intro b rest hcons
    rw [htext] at hcons
    cases hcons
  · rw [← hpos]
    exact read_end hdrop
  · rw [htext, tokens, List.take_nil]
    exact List.Forall₂.nil

/-- There are turns enough for the rest of the command. -/
theorem splitLoop_spec (h : Unread cmd x) (hturns : cmd.length ≤ x.position + turns) :
    ∃ y, splitLoop argMax cmd.length turns x = some y ∧ Splits argMax cmd x y := by
  induction turns generalizing x with
  | zero => exact ⟨x, if_neg (by omega), h.splits_self hturns⟩
  | succ turns ih =>
    by_cases hlt : x.position < cmd.length
    · rw [splitLoop, if_pos hlt]
      rcases @splitTurn_cases cmd x argMax h with ⟨y, hturn, hsplits⟩ | ⟨y, hturn, ht⟩
      · exact ⟨y, by rw [hturn]; rfl, hsplits⟩
      · have hpast := ht.past
        obtain ⟨z, hloop, hz⟩ := ih ht.unread (by omega)
        exact ⟨z, by rw [hturn]; exact hloop, ht.splits hz⟩
    · rw [splitLoop, if_neg hlt]
      exact ⟨x, rfl, h.splits_self (by omega)⟩

end turns

/-! ## The whole command -/

/-- The strings that `argv` points to. -/
def arguments (x : Split) : List (List Byte) :=
  x.argv.map fun off => (x.buf.drop off).takeWhile (· ≠ 0)

/-- The quoted form of every string, with a blank between them. -/
def quotedLine (strs : List (List Byte)) : List Byte :=
  [0x20].intercalate (strs.map fun str => quoteMark :: (str ++ [quoteMark]))

section command

variable {cmd str text rest : List Byte} {strs toks : List (List Byte)} {x : Split} {argMax : Nat}

theorem mshSplit_spec (argMax : Nat) (cmd : List Byte) :
    ∃ x, mshSplit argMax cmd = some x ∧ x.buf.length = cmd.length + 1 ∧
      List.Forall₂ (Placed cmd x.buf) x.argv ((tokens cmd).take argMax) := by
  have hunread : Unread cmd ⟨cmd ++ [0], 0, []⟩ := ⟨Nat.zero_le _, rfl⟩
  obtain ⟨x, hsplit, hx⟩ := @splitLoop_spec cmd _ argMax _ hunread (Nat.le_add_left _ _)
  obtain ⟨offs, hargv, hplaced⟩ := hx.args
  refine ⟨x, hsplit, ?_, ?_⟩
  · rw [hx.length, List.length_append, List.length_singleton]
  · rw [hargv]
    exact hplaced

theorem takeWhile_nul (str rest : List Byte) :
    (str ++ 0 :: rest).takeWhile (· ≠ 0) = str.takeWhile (· ≠ 0) := by
  induction str with
  | nil => rfl
  | cons b str ih =>
    rw [List.cons_append, List.takeWhile_cons, List.takeWhile_cons]
    exact if_congr Iff.rfl (congrArg _ ih) rfl

/-- Up to its first NUL a placed token is what the pointer points to. -/
theorem Placed.cString {buf tok : List Byte} {off : Nat} (h : Placed cmd buf off tok) :
    (buf.drop off).takeWhile (· ≠ 0) = tok.takeWhile (· ≠ 0) := by
  obtain ⟨rest, hrest⟩ := h.2
  rw [← hrest, List.append_assoc, List.singleton_append, takeWhile_nul]

theorem arguments_eq {argv : List Nat} {buf : List Byte}
    (h : List.Forall₂ (Placed cmd buf) argv toks) :
    argv.map (fun off => (buf.drop off).takeWhile (· ≠ 0)) = toks.map (·.takeWhile (· ≠ 0)) := by
  induction h with
  | nil => rfl
  | cons hplaced _ ih => rw [List.map_cons, List.map_cons, hplaced.cString, ih]

theorem quoted_plain (hstr : ∀ b ∈ str, b ≠ quoteMark ∧ b ≠ backslash) :
    quoted (str ++ quoteMark :: rest) = (str, quoteMark :: rest) := by
  induction str with
  | nil => cases rest <;> rw [List.nil_append, quoted, if_pos rfl]
  | cons b str ih =>
    obtain ⟨hquote, hback⟩ := hstr b List.mem_cons_self
    have hrest := ih fun c hc => hstr c (List.mem_cons_of_mem _ hc)
    obtain ⟨c, text, htext⟩ : ∃ c text, str ++ quoteMark :: rest = c :: text := by
      cases str with
      | nil | cons => exact ⟨_, _, rfl⟩
    rw [List.cons_append, htext, quoted, if_neg hquote, if_neg fun h => hback h.1, ← htext, hrest]

/-- A string in quotes is the first token. -/
theorem tokens_plain (hstr : ∀ b ∈ str, b ≠ quoteMark ∧ b ≠ backslash) :
    tokens (quoteMark :: (str ++ quoteMark :: rest)) = str :: tokens rest := by
  rw [tokens, if_neg (by decide), if_pos rfl, quoted_plain hstr, List.tail_cons]

theorem tokens_quotedLine (hstrs : ∀ str ∈ strs, ∀ b ∈ str, b ≠ quoteMark ∧ b ≠ backslash) :
    tokens (quotedLine strs) = strs := by
  induction strs with
  | nil => rw [quotedLine, List.map_nil, List.intercalate_nil, tokens]
  | cons str strs ih =>
    have hstr := hstrs str List.mem_cons_self
    have hrest := ih fun s hs => hstrs s (List.mem_cons_of_mem _ hs)
    cases strs with
    | nil =>
      rw [quotedLine, List.map_singleton, List.intercalate_singleton, tokens_plain hstr, tokens]
    | cons str' strs =>
      rw [quotedLine, List.map_cons, List.map_cons, List.intercalate_cons_cons,
        ← List.map_cons (f := fun str => quoteMark :: (str ++ [quoteMark])), ← quotedLine,
        List.cons_append, List.cons_append, List.append_assoc, List.append_assoc,
        List.singleton_append, List.singleton_append, tokens_plain hstr, tokens,
        if_pos (by decide), hrest]

end command

/-- The call stays inside of the command and its NUL; the arguments are the first tokens of the
command, each of them with a NUL behind it. Quoted strings come back as they are. -/
theorem mshSplit_tokens (argMax : Nat) :
    (∀ cmd, ∃ x, mshSplit argMax cmd = some x ∧ x.buf.length = cmd.length + 1 ∧
      x.argv.length ≤ argMax ∧ List.Forall₂ (Placed cmd x.buf) x.argv ((tokens cmd).take argMax) ∧
      arguments x = ((tokens cmd).take argMax).map (·.takeWhile (· ≠ 0))) ∧
    ∀ strs : List CString, strs.length ≤ argMax →
      (∀ str ∈ strs, ∀ b ∈ str.val, b ≠ quoteMark ∧ b ≠ backslash) →
      (mshSplit argMax (quotedLine (strs.map (·.val)))).map arguments =
        some (strs.map (·.val)) := by
  have hsplits : ∀ cmd, ∃ x, mshSplit argMax cmd = some x ∧ x.buf.length = cmd.length + 1 ∧
      x.argv.length ≤ argMax ∧ List.Forall₂ (Placed cmd x.buf) x.argv ((tokens cmd).take argMax) ∧
      arguments x = ((tokens cmd).take argMax).map (·.takeWhile (· ≠ 0)) := by
    intro cmd
    obtain ⟨x, hsplit, hlen, hplaced⟩ := mshSplit_spec argMax cmd
    refine ⟨x, hsplit, hlen, ?_, hplaced, arguments_eq hplaced⟩
    rw [hplaced.length_eq, List.length_take]
    exact Nat.min_le_left _ _
  refine ⟨hsplits, ?_⟩
  intro strs hcount hplain
  obtain ⟨x, hsplit, -, -, -, hargs⟩ := hsplits (quotedLine (strs.map (·.val)))
  have htokens : tokens (quotedLine (strs.map (·.val))) = strs.map (·.val) := by
    apply tokens_quotedLine
    intro str hstr
    obtain ⟨s, hs, rfl⟩ := List.mem_map.mp hstr
    exact hplain s hs
  rw [hsplit, Option.map_some, hargs, htokens, List.take_of_length_le (by rwa [List.length_map]),
    List.map_map]
  congr 1
  apply List.map_congr_left
  intro str _
  -- a string has no NUL
  exact List.takeWhile_eq_self_iff.mpr fun b hb => decide_eq_true fun hnul => str.2 (hnul ▸ hb)

/-- `"a b" ""` has two arguments. -/
theorem mshSplit_tokens_two :
    (mshSplit 8 (quotedLine [[0x61, 0x20, 0x62], []])).map arguments =
      some [[0x61, 0x20, 0x62], []] :=
  (mshSplit_tokens 8).2 [⟨[0x61, 0x20, 0x62], by decide⟩, ⟨[], by decide⟩] (by decide) (by decide)

end RtThread.Msh
