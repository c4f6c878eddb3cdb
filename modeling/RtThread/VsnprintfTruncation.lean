import RtThread.VsnprintfNumber

/-!
# Formatted output into a buffer

What `rt_vsnprintf` leaves of the string that is produced with an unlimited buffer. Every
store is guarded by the end of the buffer, and the end is kept behind its start. The cursor
runs on behind the end, and nothing keeps it from running through the end of the addresses.
-/
namespace RtThread.Vsnprintf

/-- A call with a buffer of `n` characters returns the length of `l`, writes only into the
buffer, and leaves as much of `l` there as fits, with the null character behind it. -/
def Truncates (buf n : Nat) (fmt : List Char) (args : List Arg) (l : List Char) : Prop :=
  ∀ mem, ∃ mem', rtVsnprintf mem buf n fmt args = some (mem', (l.length : Int)) ∧
    (∀ a, ¬ (buf ≤ a ∧ a < buf + n) → mem' a = mem a) ∧
    (0 < n → (∀ i, i < min l.length (n - 1) → some (mem' (buf + i)) = l[i]?) ∧
      mem' (buf + min l.length (n - 1)) = '\x00')

/-! ## The cursor -/

variable {buf n stop : Nat} {mem : Nat → Char} {fmt : List Char} {args : List Arg}
  {l : List Char}

theorem store_cursor (o : Cursor) (ho : o.str < 2 ^ 32) (l : List Char) :
    (putAll (Cursor.store stop) l o).str = (o.str + l.length) % 2 ^ 32 := by
  induction l generalizing o with
  | nil => exact (Nat.mod_eq_of_lt ho).symm
  | cons c l ih =>
    have hstep := ih (o.store stop c) (Nat.mod_lt _ (by decide))
    rw [putAll, List.foldl_cons]
    rw [putAll, Cursor.store] at hstep
    rw [Cursor.store, hstep, Nat.mod_add_mod, List.length_cons, Nat.add_right_comm, Nat.add_assoc]

theorem store_apply (o : Cursor) (c : Char) (a : Nat) :
    (o.store stop c).mem a = if a = o.str ∧ o.str < stop then c else o.mem a := by
  unfold Cursor.store
  by_cases hroom : o.str < stop
  · simp [hroom, Function.update_apply]
  · simp [hroom]

/-- Up to the end of the addresses the characters go to one place each. -/
theorem store_mem (o : Cursor) (l : List Char) (hfits : o.str + l.length ≤ 2 ^ 32) (a : Nat) :
    (putAll (Cursor.store stop) l o).mem a =
      if o.str ≤ a ∧ a < o.str + l.length ∧ a < stop then l[a - o.str]?.getD '\x00'
      else o.mem a := by
  induction l using List.reverseRecOn with
  | nil =>
    rw [List.length_nil, if_neg (by omega)]
    rfl
  | append_singleton l c ih =>
    rw [List.length_append, List.length_singleton] at hfits ⊢
    have hstr := @store_cursor stop o (by omega) l
    rw [Nat.mod_eq_of_lt (by omega)] at hstr
    have hlast : putAll (Cursor.store stop) (l ++ [c]) o =
        (putAll (Cursor.store stop) l o).store stop c := by
      rw [putAll, List.foldl_append]
      rfl
    rw [hlast, store_apply, hstr, ih (by omega)]
    by_cases ha : a = o.str + l.length ∧ o.str + l.length < stop
    · rw [if_pos ha, if_pos (by omega), ha.1, Nat.add_sub_cancel_left,
        List.getElem?_concat_length, Option.getD_some]
    · rw [if_neg ha]
      by_cases hin : o.str ≤ a ∧ a < o.str + l.length ∧ a < stop
      · rw [if_pos hin, if_pos (by omega), List.getElem?_append_left (by omega)]
      · rw [if_neg hin, if_neg (by omega)]

/-! ## Whole calls -/

theorem rtVsnprintf_eq (hbuf : buf + n < 2 ^ 32) (mem : Nat → Char)
    (hl : printed fmt args = some l) :
    rtVsnprintf mem buf n fmt args =
      some ((putAll (Cursor.store (buf + n)) l ⟨mem, buf⟩).terminate (buf + n) n,
        int32 (((buf + l.length) % 2 ^ 32 : Nat) - (buf : Int))) := by
  have hend : ¬ buf + n < buf := by omega
  have hstr := @store_cursor (buf + n) ⟨mem, buf⟩ (by show buf < _; omega) l
  simp only [rtVsnprintf, Nat.mod_eq_of_lt hbuf, if_neg hend, formatLoop_eq, hl, Option.map_some,
    hstr]

/-- The difference of the cursor and the start, as a signed word. -/
theorem length_returned (buf len : Nat) :
    int32 (((buf + len) % 2 ^ 32 : Nat) - (buf : Int)) = len ↔ len < 2 ^ 31 := by
  rw [int32, Int.bmod_def]
  split <;> omega

/-- What is left in memory when the cursor has not run through the end of the addresses. -/
theorem terminate_mem (hn : 0 < n) (hbuf : buf + n < 2 ^ 32) (hfits : buf + l.length < 2 ^ 32)
    (a : Nat) :
    (putAll (Cursor.store (buf + n)) l ⟨mem, buf⟩).terminate (buf + n) n a =
      if a = buf + min l.length (n - 1) then '\x00'
      else if buf ≤ a ∧ a < buf + l.length ∧ a < buf + n then l[a - buf]?.getD '\x00'
      else mem a := by
  have hstr : (putAll (Cursor.store (buf + n)) l ⟨mem, buf⟩).str = buf + l.length := by
    rw [store_cursor _ (by show buf < _; omega), Nat.mod_eq_of_lt hfits]
  have hmem := @store_mem (buf + n) ⟨mem, buf⟩ l (by show buf + _ ≤ _; omega) a
  rw [Cursor.terminate, if_pos hn, hstr]
  by_cases hroom : buf + l.length < buf + n
  · rw [if_pos hroom, Function.update_apply, hmem, Nat.min_eq_left (by omega)]
  · rw [if_neg hroom, Function.update_apply, hmem, Nat.min_eq_right (by omega),
      Nat.add_sub_assoc (by omega)]

/-- The cursor has run through the end of the addresses: one of the characters is written to
the address 0. -/
theorem wrapped_mem (hbuf : buf + n < 2 ^ 32) (hlen : l.length < 2 ^ 31)
    (hwrap : 2 ^ 32 < buf + l.length) :
    ∃ c, ∀ mem, (putAll (Cursor.store (buf + n)) l ⟨mem, buf⟩).terminate (buf + n) n 0 = c := by
  obtain ⟨c, rest, hrest⟩ : ∃ c rest, l.drop (2 ^ 32 - buf) = c :: rest :=
    List.exists_cons_of_length_pos (by rw [List.length_drop]; omega)
  refine ⟨c, fun mem => ?_⟩
  have hstr : (putAll (Cursor.store (buf + n)) l ⟨mem, buf⟩).str = buf + l.length - 2 ^ 32 := by
    rw [store_cursor _ (by show buf < _; omega), Nat.mod_eq_sub_mod (by show _ ≤ buf + _; omega)]
    exact Nat.mod_eq_of_lt (by show buf + _ - _ < _; omega)
  have hlast : (putAll (Cursor.store (buf + n)) l ⟨mem, buf⟩).mem 0 = c := by
    obtain ⟨o, ho⟩ : ∃ o, o = putAll (Cursor.store (buf + n)) (l.take (2 ^ 32 - buf)) ⟨mem, buf⟩ :=
      ⟨_, rfl⟩
    have hsplit : putAll (Cursor.store (buf + n)) l ⟨mem, buf⟩ =
        putAll (Cursor.store (buf + n)) rest (o.store (buf + n) c) := by
      conv_lhs => rw [← List.take_append_drop (2 ^ 32 - buf) l, hrest]
      rw [ho, putAll, List.foldl_append]
      rfl
    have hzero : o.str = 0 := by
      rw [ho, store_cursor _ (by show buf < _; omega), List.length_take,
        Nat.min_eq_left (by omega)]
      show (buf + (2 ^ 32 - buf)) % 2 ^ 32 = 0
      rw [Nat.add_sub_cancel' (by omega), Nat.mod_self]
    have hone : (o.store (buf + n) c).str = 1 := by
      rw [Cursor.store, hzero]
      rfl
    have hlength := congrArg List.length hrest
    rw [List.length_drop, List.length_cons] at hlength
    rw [hsplit, store_mem _ _ (by rw [hone]; omega), if_neg (by omega), store_apply,
      if_pos ⟨hzero.symm, by omega⟩]
  have hother (k : Nat) (hk : 0 < k) :
      Function.update (putAll (Cursor.store (buf + n)) l ⟨mem, buf⟩).mem k '\x00' 0 = c := by
    rw [Function.update_of_ne (by omega), hlast]
  unfold Cursor.terminate
  rw [hstr]
  split
  · split
    · exact hother _ (by omega)
    · exact hother _ (by omega)
  · exact hlast

/-- The cursor has just reached the end: the null character is written to the address 0. -/
theorem wrapped_end (hn : 0 < n) (hbuf : buf + n < 2 ^ 32) (hwrap : 2 ^ 32 = buf + l.length) :
    (putAll (Cursor.store (buf + n)) l ⟨mem, buf⟩).terminate (buf + n) n 0 = '\x00' := by
  have hstr : (putAll (Cursor.store (buf + n)) l ⟨mem, buf⟩).str = 0 := by
    rw [store_cursor _ (by show buf < _; omega)]
    rw [← hwrap, Nat.mod_self]
  rw [Cursor.terminate, if_pos hn, hstr, if_pos (by omega), Function.update_self]

theorem truncates_of_fits (hbuf : buf + n < 2 ^ 32) (hl : printed fmt args = some l)
    (hlen : l.length < 2 ^ 31)
    (hfits : buf + l.length < 2 ^ 32 ∨ n = 0 ∧ buf + l.length = 2 ^ 32) :
    Truncates buf n fmt args l := by
  intro mem
  have hcall := rtVsnprintf_eq hbuf mem hl
  rw [(length_returned buf _).2 hlen] at hcall
  refine ⟨_, hcall, fun a ha => ?_, fun hn => ?_⟩
  · cases n with
    | zero =>
      rw [Cursor.terminate, if_neg (by omega),
        store_mem _ _ (by show buf + _ ≤ _; omega), if_neg (by show ¬ (buf ≤ a ∧ _); omega)]
    | succ n =>
      rw [terminate_mem (by omega) hbuf (by omega), if_neg (by omega), if_neg (by omega)]
  · have hmem := @terminate_mem buf n mem l hn hbuf (by omega)
    constructor
    · intro i hi
      rw [hmem, if_neg (by omega), if_pos (by omega), Nat.add_sub_cancel_left,
        List.getElem?_eq_getElem (by omega), Option.getD_some]
    · rw [hmem, if_pos rfl]

/-- A call that keeps to the law has not run through the end of the addresses. -/
theorem fits_of_truncates (hbuf : buf + n < 2 ^ 32) (hl : printed fmt args = some l)
    (h : Truncates buf n fmt args l) :
    l.length < 2 ^ 31 ∧ (buf + l.length < 2 ^ 32 ∨ n = 0 ∧ buf + l.length = 2 ^ 32) := by
  have hkept (mem : Nat → Char) :
      int32 (((buf + l.length) % 2 ^ 32 : Nat) - (buf : Int)) = l.length ∧
        (0 < buf → (putAll (Cursor.store (buf + n)) l ⟨mem, buf⟩).terminate (buf + n) n 0 =
          mem 0) := by
    obtain ⟨mem', hcall, hout, -⟩ := h mem
    rw [rtVsnprintf_eq hbuf mem hl] at hcall
    obtain ⟨rfl, hlength⟩ := Prod.mk.inj (Option.some.inj hcall)
    exact ⟨hlength, fun hpos => hout 0 (by omega)⟩
  have hlen : l.length < 2 ^ 31 := (length_returned buf _).1 (hkept fun _ => ' ').1
  refine ⟨hlen, ?_⟩
  by_contra hbad
  have hchanged : ∃ c, ∀ mem,
      (putAll (Cursor.store (buf + n)) l ⟨mem, buf⟩).terminate (buf + n) n 0 = c := by
    rcases Nat.lt_or_ge (2 ^ 32) (buf + l.length) with hwrap | hwrap
    · exact wrapped_mem hbuf hlen hwrap
    · exact ⟨'\x00', fun mem => wrapped_end (by omega) hbuf (by omega)⟩
  obtain ⟨c, hc⟩ := hchanged
  have hspace := (hkept fun _ => ' ').2 (by omega)
  have hdot := (hkept fun _ => '.').2 (by omega)
  rw [hc] at hspace hdot
  exact absurd (hspace.symm.trans hdot) (by decide)

/-- The truncation law of `rt_vsnprintf`: it is kept where the whole string can be counted in
an `int` and ends before the last address, and nowhere else. -/
theorem vsnprintf_truncates (buf n : Nat) (fmt : List Char) (args : List Arg) (l : List Char)
    (hbuf : buf + n < 2 ^ 32) (hl : printed fmt args = some l) :
    Truncates buf n fmt args l ↔
      l.length < 2 ^ 31 ∧ (buf + l.length < 2 ^ 32 ∨ n = 0 ∧ buf + l.length = 2 ^ 32) :=
  ⟨fits_of_truncates hbuf hl, fun h => truncates_of_fits hbuf hl h.1 h.2⟩

theorem vsnprintf_truncates_number :
    Truncates 0x20000000 3 "<%d>".toList [.int 7] ['<', '7', '>'] ↔
      ['<', '7', '>'].length < 2 ^ 31 ∧ (0x20000000 + ['<', '7', '>'].length < 2 ^ 32 ∨
        3 = 0 ∧ 0x20000000 + ['<', '7', '>'].length = 2 ^ 32) := by
  have hd : directive pushBack ['<'] ['d', '>'] [.int 7] = some (['<', '7'], ['>'], []) := by
    decide
  have hl : printed "<%d>".toList [.int 7] = some ['<', '7', '>'] := by
    rw [printed, show "<%d>".toList = ['<', '%', 'd', '>'] from rfl, formatLoop_cons,
      if_neg (by decide), formatLoop_cons, if_pos rfl]
    show (directive pushBack ['<'] ['d', '>'] [.int 7]).bind _ = _
    rw [hd, Option.bind_some, formatLoop_cons, if_neg (by decide), formatLoop_nil]
    rfl
  exact vsnprintf_truncates 0x20000000 3 "<%d>".toList [.int 7] _ (by decide) hl

/-- A digit at the end of a wide field. -/
theorem numberChars_wide (w : Int) (hw : 1 ≤ w) (hmax : w < 2 ^ 31) :
    numberChars 7 10 w (-1) { noFlags with sign := true } =
      List.replicate (w - 1).toNat ' ' ++ ['7'] := by
  have htext : numberChars 7 10 w (-1) { noFlags with sign := true } =
      numberText (numberPads false false false (numberSize 10 false w 1)) [] [] ' ' 0 ['7'] := rfl
  have hsize : numberSize 10 false w 1 = w - 1 := int32_eq (by omega) (by omega)
  have hpads := @pads_counted false false false (w - 1) (by omega)
    (by simp [countedBelow]; omega)
  rw [htext, hsize, hpads]
  simp [numberText, padding]

/-- A width of a thousand million takes the cursor from a buffer in the last quarter of the
addresses to their start. -/
theorem vsnprintf_not_truncates : ∃ l, printed "%1000000000d".toList [.int 7] = some l ∧
    ¬ Truncates 0xd0000000 16 "%1000000000d".toList [.int 7] l := by
  have hparse : parseDirective "1000000000d".toList [.int 7] =
      some ⟨noFlags, 1000000000, -1, none, ['d'], [.int 7]⟩ := by decide
  have hd : directive pushBack [] "1000000000d".toList [.int 7] =
      some (numberChars 7 10 1000000000 (-1) { noFlags with sign := true }, [], []) := by
    rw [directive, hparse, ← List.nil_append (numberChars _ _ _ _ _), ← printNumber_pushBack]
    rfl
  have hl : printed "%1000000000d".toList [.int 7] =
      some (List.replicate (1000000000 - 1 : Int).toNat ' ' ++ ['7']) := by
    rw [printed, show "%1000000000d".toList = '%' :: "1000000000d".toList from rfl,
      formatLoop_cons, if_pos rfl, hd, Option.bind_some, formatLoop_nil,
      numberChars_wide _ (by decide) (by decide)]
  refine ⟨_, hl, fun h => ?_⟩
  have hfits := fits_of_truncates (by decide) hl h
  rw [List.length_append, List.length_replicate, List.length_singleton] at hfits
  omega

end RtThread.Vsnprintf
