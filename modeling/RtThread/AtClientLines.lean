import Mathlib.Data.List.TakeWhile
import RtThread.AtClient

/-!
# The lines of a response

The response keeps a line where the line fits the buffer of the parser and the response has room
for it. A line that does not fit the buffer is lost without a trace, and the status of a response
that was full is that of its last line, so a command can succeed with lines missing. A line that
contains a NUL is read back as two.
-/
namespace RtThread.AtClient

/-- The lines since the command that are not URCs. -/
def received (c : Client) (s : State) : List (List Byte) :=
  s.lines.filter fun line => (getUrcObj c line).isNone

/-- The response holds these lines, without the byte that ended each of them. -/
structure Intact (c : Client) (s : State) : Prop where
  count : s.resp.lineCounts = (received c s).length
  lines : ∀ k, 1 ≤ k → k ≤ s.resp.lineCounts →
    atRespGetLine s.resp k = (received c s)[k - 1]?.map List.dropLast

/-- The lines fit the buffer of the parser, all of them fit the response, and they are strings. -/
structure Storable (c : Client) (s : State) : Prop where
  fits : ∀ line ∈ received c s, line.length ≤ c.recvBufsz
  room : ((received c s).map List.length).sum < s.resp.bufSize
  strings : ∀ line ∈ received c s, 0 ∉ line.dropLast

/-- A line as the response keeps it. -/
def stored (line : List Byte) : List Byte := line.dropLast ++ [0]

/-- The lines kept, with another one where there is room for it. -/
def keep (c : Client) (size : Nat) (kept : List (List Byte)) (line : List Byte) :
    List (List Byte) :=
  if line.length ≤ c.recvBufsz ∧ (kept.map List.length).sum + line.length < size then
    kept ++ [line]
  else kept

variable {c : Client} {s : State} {size : Nat} {kept lines : List (List Byte)} {line : List Byte}

/-! ## Reading a line back -/

theorem cString_append (text rest : List Byte) :
    cString (text ++ 0 :: rest) = cString text := by
  induction text with
  | nil => rfl
  | cons ch text ih =>
    rw [cString, List.cons_append, List.takeWhile_cons, cString, List.takeWhile_cons]
    split
    · rw [← cString, ih, cString]
    · rfl

theorem cString_eq_iff (text : List Byte) : cString text = text ↔ 0 ∉ text := by
  rw [cString, List.takeWhile_eq_self_iff]
  constructor
  · intro h hzero
    exact absurd (h 0 hzero) (by decide)
  · intro h ch hch
    exact decide_eq_true fun heq => h (heq ▸ hch)

theorem flatMap_stored (line : List Byte) (lines : List (List Byte)) :
    (line :: lines).flatMap stored = line.dropLast ++ 0 :: lines.flatMap stored := by
  rw [List.flatMap_cons, stored, List.append_assoc, List.singleton_append]

/-- Behind lines that are strings the next ones are found. -/
theorem skipStrings_stored (n : Nat) (h : ∀ line ∈ lines.take n, 0 ∉ line.dropLast) :
    skipStrings n (lines.flatMap stored) = (lines.drop n).flatMap stored := by
  induction n generalizing lines with
  | zero => rfl
  | succ n ih =>
    cases lines with
    | nil =>
      have hnil := @ih [] (by simp)
      simpa [skipStrings] using hnil
    | cons line lines =>
      have hstring := (cString_eq_iff _).mpr (h line (by simp))
      rw [skipStrings, flatMap_stored, cString_append, hstring, List.drop_succ_cons,
        List.drop_length_add_append]
      exact ih fun l hl => h l (by simp [hl])

/-- The lines are read back where all of them are strings. -/
theorem strings_iff :
    (∀ n < lines.length,
        cString (skipStrings n (lines.flatMap stored)) = (lines[n]?.map List.dropLast).getD []) ↔
      ∀ line ∈ lines, 0 ∉ line.dropLast := by
  have hhead : ∀ n (hn : n < lines.length), (∀ line ∈ lines.take n, 0 ∉ line.dropLast) →
      cString (skipStrings n (lines.flatMap stored)) = cString lines[n].dropLast := by
    intro n hn h
    rw [skipStrings_stored n h, List.drop_eq_getElem_cons hn, flatMap_stored, cString_append]
  have hget : ∀ n (hn : n < lines.length),
      (lines[n]?.map List.dropLast).getD [] = lines[n].dropLast := by
    intro n hn
    rw [List.getElem?_eq_getElem hn]
    rfl
  constructor
  · intro hback
    have hall : ∀ n ≤ lines.length, ∀ line ∈ lines.take n, 0 ∉ line.dropLast := by
      intro n
      induction n with
      | zero => simp
      | succ n ih =>
        intro hn line hline
        have hbefore := ih (by omega)
        rw [List.take_succ_eq_append_getElem hn, List.mem_append, List.mem_singleton] at hline
        rcases hline with hline | rfl
        · exact hbefore line hline
        · rw [← cString_eq_iff, ← hhead n hn hbefore, hback n hn, hget n hn]
    intro line hline
    exact hall lines.length (Nat.le_refl _) line (by rwa [List.take_length])
  · intro h n hn
    rw [hhead n hn fun line hline => h line (List.mem_of_mem_take hline), hget n hn]
    exact (cString_eq_iff _).mpr (h _ (List.getElem_mem hn))

/-! ## Which lines are kept -/

theorem foldl_keep_le (c : Client) (size : Nat) (kept lines : List (List Byte)) :
    (lines.foldl (keep c size) kept).length ≤ kept.length + lines.length := by
  induction lines generalizing kept with
  | nil => exact Nat.le_refl _
  | cons line lines ih =>
    have hrest := ih (keep c size kept line)
    have hone : (keep c size kept line).length ≤ kept.length + 1 := by
      rw [keep]
      split
      · rw [List.length_append, List.length_singleton]
      · omega
    rw [List.foldl_cons, List.length_cons]
    omega

/-- All lines are kept, in their order, where they fit. -/
theorem foldl_keep_eq (hfits : ∀ line ∈ lines, line.length ≤ c.recvBufsz)
    (hroom : (kept.map List.length).sum + (lines.map List.length).sum < size) :
    lines.foldl (keep c size) kept = kept ++ lines := by
  induction lines generalizing kept with
  | nil => exact (List.append_nil kept).symm
  | cons line lines ih =>
    rw [List.map_cons, List.sum_cons] at hroom
    have hkeep : keep c size kept line = kept ++ [line] :=
      if_pos ⟨hfits line List.mem_cons_self, by omega⟩
    rw [List.foldl_cons, hkeep, ih (fun l hl => hfits l (List.mem_cons_of_mem _ hl))]
    · rw [List.append_assoc, List.singleton_append]
    · rw [List.map_append, List.sum_append, List.map_singleton, List.sum_singleton]
      omega

/-- As many lines are kept as there are only where they fit. -/
theorem fits_of_foldl_keep (hne : lines ≠ [])
    (h : (lines.foldl (keep c size) kept).length = kept.length + lines.length) :
    (∀ line ∈ lines, line.length ≤ c.recvBufsz) ∧
      (kept.map List.length).sum + (lines.map List.length).sum < size := by
  induction lines generalizing kept with
  | nil => exact absurd rfl hne
  | cons line lines ih =>
    rw [List.foldl_cons, List.length_cons] at h
    by_cases hroom : line.length ≤ c.recvBufsz ∧ (kept.map List.length).sum + line.length < size
    · have hkeep : keep c size kept line = kept ++ [line] := if_pos hroom
      rw [hkeep] at h
      cases lines with
      | nil =>
        refine ⟨?_, ?_⟩
        · intro l hl
          rw [List.mem_singleton.mp hl]
          exact hroom.1
        · simpa using hroom.2
      | cons next lines =>
        obtain ⟨hfits, hsum⟩ := @ih (kept ++ [line]) (List.cons_ne_nil _ _)
          (by rw [h, List.length_append, List.length_singleton]; omega)
        rw [List.map_append, List.sum_append, List.map_singleton, List.sum_singleton] at hsum
        refine ⟨?_, ?_⟩
        · intro l hl
          rcases List.mem_cons.mp hl with rfl | hl
          · exact hroom.1
          · exact hfits l hl
        · rw [List.map_cons, List.sum_cons]
          omega
    · have hkeep : keep c size kept line = kept := if_neg hroom
      rw [hkeep] at h
      have hle := foldl_keep_le c size kept lines
      omega

/-! ## A byte -/

/-- The buffer holds the beginning of the line, and is full where the line is longer. -/
structure Reading (c : Client) (r : Reader) : Prop where
  buffer : r.recvLineBuf = r.raw.take c.recvBufsz
  full : r.isFull = decide (c.recvBufsz < r.raw.length)

theorem reading_fresh (c : Client) : Reading c Reader.fresh := ⟨List.take_nil.symm, rfl⟩

theorem readByte_reading {r : Reader} (h : Reading c r) (ch : Byte) :
    Reading c (readByte c r ch).1 ∧ (readByte c r ch).1.raw = r.raw ++ [ch] := by
  obtain ⟨hbuffer, hfull⟩ := h
  have hlength : r.recvLineBuf.length = min c.recvBufsz r.raw.length := by
    rw [hbuffer, List.length_take]
  rw [readByte]
  by_cases hroom : r.recvLineBuf.length < c.recvBufsz
  · have hread : Reading c
        { r with recvLineBuf := r.recvLineBuf ++ [ch], raw := r.raw ++ [ch] } := by
      refine ⟨?_, ?_⟩
      · rw [hbuffer, List.take_of_length_le (by omega), List.take_of_length_le (by simp; omega)]
      · rw [hfull, decide_eq_decide, List.length_append, List.length_singleton]
        omega
    rw [if_pos hroom]
    split
    · exact ⟨hread, rfl⟩
    · exact ⟨⟨hread.buffer, hread.full⟩, rfl⟩
  · have hread : Reading c { r with isFull := true, raw := r.raw ++ [ch] } := by
      refine ⟨?_, ?_⟩
      · rw [hbuffer, List.take_append_of_le_length (by omega)]
      · rw [eq_comm, decide_eq_true_eq, List.length_append, List.length_singleton]
        omega
    rw [if_neg hroom]
    split
    · exact ⟨hread, rfl⟩
    · exact ⟨⟨hread.buffer, hread.full⟩, rfl⟩

theorem storeLine_keeps (s : State) (line : List Byte) :
    (storeLine s line).reader = s.reader ∧ (storeLine s line).lines = s.lines ∧
      (storeLine s line).waiting = s.waiting ∧
      (storeLine s line).resp.bufSize = s.resp.bufSize := by
  rw [storeLine]
  split <;> exact ⟨rfl, rfl, rfl, rfl⟩

/-- What the parser does with a line that it is given. -/
theorem clientParser_spec (c : Client) (s : State) (line : List Byte) :
    (clientParser c s line).reader = s.reader ∧ (clientParser c s line).lines = s.lines ∧
      (clientParser c s line).resp =
        (if (getUrcObj c line).isNone ∧ s.waiting = true then (storeLine s line).resp
        else s.resp) ∧
      ((getUrcObj c line).isNone = false ∨ s.waiting = false →
        (clientParser c s line).waiting = s.waiting) := by
  obtain ⟨hreader, hlines, hwaiting, -⟩ := storeLine_keeps s line
  have hnone : (getUrcObj c line).isNone = !(getUrcObj c line).isSome := by
    cases getUrcObj c line <;> rfl
  rw [clientParser, hnone]
  by_cases hurc : (getUrcObj c line).isSome = true
  · rw [if_pos hurc, if_neg (by simp [hurc])]
    exact ⟨rfl, rfl, rfl, fun _ => rfl⟩
  · rw [Bool.not_eq_true] at hurc
    by_cases hwait : s.waiting = true
    · have hgiven : (!(getUrcObj c line).isSome) = true ∧ s.waiting = true :=
        ⟨by rw [hurc]; rfl, hwait⟩
      have hneither : ¬ ((!(getUrcObj c line).isSome) = false ∨ s.waiting = false) := by
        simp [hurc, hwait]
      rw [if_neg (by simp [hurc]), if_pos hwait, if_pos hgiven]
      dsimp only
      repeat' split
      all_goals exact ⟨hreader, hlines, rfl, fun h => absurd h hneither⟩
    · rw [if_neg (by simp [hurc]), if_neg hwait, if_neg fun h => hwait h.2]
      exact ⟨rfl, rfl, rfl, fun _ => rfl⟩

/-! ## The run -/

/-- The response after the lines that were received. -/
structure Recorded (c : Client) (s : State) : Prop where
  ended : ∀ line ∈ s.lines, line ≠ []
  buf : s.resp.buf = ((received c s).foldl (keep c s.resp.bufSize) []).flatMap stored
  count : s.resp.lineCounts = ((received c s).foldl (keep c s.resp.bufSize) []).length
  noticed : s.waiting = false → received c s ≠ []

theorem receive_reading (h : Reading c s.reader) (ch : Byte) :
    Reading c (receive c s ch).reader := by
  obtain ⟨hread, -⟩ := readByte_reading h ch
  rw [receive]
  dsimp only
  split
  · split
    · exact reading_fresh c
    · rw [(clientParser_spec c _ _).1]
      exact reading_fresh c
  · exact hread

theorem length_stored (h : line ≠ []) : (stored line).length = line.length := by
  have hpos := List.length_pos_of_ne_nil h
  rw [stored, List.length_append, List.length_dropLast, List.length_singleton]
  omega

theorem length_flatMap_stored (h : ∀ line ∈ lines, line ≠ []) :
    (lines.flatMap stored).length = (lines.map List.length).sum := by
  induction lines with
  | nil => rfl
  | cons line lines ih =>
    rw [List.flatMap_cons, List.length_append, length_stored (h line List.mem_cons_self),
      ih fun l hl => h l (List.mem_cons_of_mem _ hl), List.map_cons, List.sum_cons]

theorem mem_foldl_keep {l : List Byte} (h : l ∈ lines.foldl (keep c size) kept) :
    l ∈ kept ∨ l ∈ lines := by
  induction lines generalizing kept with
  | nil => exact .inl h
  | cons line lines ih =>
    rcases ih h with hkept | hlines
    · rw [keep] at hkept
      split at hkept
      · rcases List.mem_append.mp hkept with hold | hnew
        · exact .inl hold
        · rw [List.mem_singleton.mp hnew]
          exact .inr List.mem_cons_self
      · exact .inl hkept
    · exact .inr (List.mem_cons_of_mem line hlines)

theorem received_append (c : Client) (s : State) (line : List Byte) :
    received c { s with lines := s.lines ++ [line] } =
      received c s ++ if (getUrcObj c line).isNone then [line] else [] := by
  rw [received, received, List.filter_append, List.filter_cons, List.filter_nil]

theorem Recorded.length_buf (h : Recorded c s) :
    s.resp.buf.length =
      (((received c s).foldl (keep c s.resp.bufSize) []).map List.length).sum := by
  rw [h.buf]
  refine length_flatMap_stored fun l hl => h.ended l ?_
  have hmem := (mem_foldl_keep hl).resolve_left List.not_mem_nil
  exact (List.mem_filter.mp hmem).1

/-- The response has room for a line where the lines that are kept leave it. -/
theorem storeLine_keep (hbuf : s.resp.buf = kept.flatMap stored)
    (hcount : s.resp.lineCounts = kept.length)
    (hlength : s.resp.buf.length = (kept.map List.length).sum)
    (hfits : line.length ≤ c.recvBufsz) :
    (storeLine s line).resp.buf = (keep c s.resp.bufSize kept line).flatMap stored ∧
      (storeLine s line).resp.lineCounts = (keep c s.resp.bufSize kept line).length := by
  rw [storeLine, keep, ← hlength]
  by_cases hroom : s.resp.buf.length + line.length < s.resp.bufSize
  · rw [if_pos hroom, if_pos ⟨hfits, hroom⟩]
    refine ⟨?_, ?_⟩
    · rw [List.flatMap_append, List.flatMap_singleton, ← hbuf, stored]
    · rw [List.length_append, List.length_singleton, ← hcount]
  · rw [if_neg hroom, if_neg fun h => hroom h.2]
    exact ⟨hbuf, hcount⟩

/-- A line that fits the buffer of the parser is kept where the response has room for it. -/
theorem Recorded.given (h : Recorded c s) (hwaiting : s.waiting = true) (hne : line ≠ [])
    (hfits : line.length ≤ c.recvBufsz) :
    Recorded c (clientParser c { s with lines := s.lines ++ [line] } line) := by
  obtain ⟨-, hlines, hresp, hnotice⟩ :=
    clientParser_spec c { s with lines := s.lines ++ [line] } line
  have happend := received_append c s line
  have hreceived : received c (clientParser c { s with lines := s.lines ++ [line] } line) =
      received c { s with lines := s.lines ++ [line] } := by rw [received, received, hlines]
  have hended : ∀ l ∈ s.lines ++ [line], l ≠ [] := by
    intro l hl
    rcases List.mem_append.mp hl with hold | hnew
    · exact h.ended l hold
    · rwa [List.mem_singleton.mp hnew]
  cases hurc : (getUrcObj c line).isNone with
  | false =>
    rw [hurc, if_neg (by simp)] at hresp
    rw [hurc, if_neg (by decide), List.append_nil] at happend
    refine ⟨by rwa [hlines], ?_, ?_, ?_⟩
    · rw [hreceived, happend, hresp]
      exact h.buf
    · rw [hreceived, happend, hresp]
      exact h.count
    · rw [hnotice (.inl hurc)]
      intro hfalse
      exact absurd (hwaiting.symm.trans hfalse) (by decide)
  | true =>
    rw [hurc, if_pos ⟨rfl, hwaiting⟩] at hresp
    rw [hurc, if_pos rfl] at happend
    obtain ⟨hbuf, hcount⟩ := @storeLine_keep c { s with lines := s.lines ++ [line] } _ line
      h.buf h.count h.length_buf hfits
    have hsize := (storeLine_keeps { s with lines := s.lines ++ [line] } line).2.2.2
    refine ⟨by rwa [hlines], ?_, ?_, ?_⟩
    · rw [hreceived, happend, hresp, hsize, List.foldl_append]
      exact hbuf
    · rw [hreceived, happend, hresp, hsize, List.foldl_append]
      exact hcount
    · rw [hreceived, happend]
      exact fun _ => List.append_ne_nil_of_right_ne_nil _ (List.cons_ne_nil _ _)

/-- A line that does not fit it leaves no trace. -/
theorem Recorded.lost (h : Recorded c s) (hwaiting : s.waiting = true) (hne : line ≠ [])
    (hlong : c.recvBufsz < line.length) :
    Recorded c { s with lines := s.lines ++ [line] } := by
  have happend := received_append c s line
  have hsame : (received c { s with lines := s.lines ++ [line] }).foldl
      (keep c s.resp.bufSize) [] = (received c s).foldl (keep c s.resp.bufSize) [] := by
    rw [happend, List.foldl_append]
    split
    · exact if_neg fun hroom => Nat.not_le_of_lt hlong hroom.1
    · rfl
  refine ⟨?_, ?_, ?_, ?_⟩
  · intro l hl
    rcases List.mem_append.mp hl with hold | hnew
    · exact h.ended l hold
    · rwa [List.mem_singleton.mp hnew]
  · rw [hsame]
    exact h.buf
  · rw [hsame]
    exact h.count
  · intro hfalse
    exact absurd (hwaiting.symm.trans hfalse) (by decide)

theorem receive_recorded (hread : Reading c s.reader) (h : Recorded c s) (ch : Byte) :
    Recorded c (receive c s ch) := by
  obtain ⟨⟨hbuffer, hfull⟩, hraw⟩ := readByte_reading hread ch
  have hne : (readByte c s.reader ch).1.raw ≠ [] := by
    rw [hraw]
    exact List.append_ne_nil_of_right_ne_nil _ (List.cons_ne_nil _ _)
  have hfresh : Recorded c { s with reader := Reader.fresh } :=
    ⟨h.ended, h.buf, h.count, h.noticed⟩
  rw [receive]
  dsimp only
  split
  · by_cases hwaiting : s.waiting = true
    · split
      · rename_i hlost
        rw [hlost, eq_comm, decide_eq_true_eq] at hfull
        exact hfresh.lost hwaiting hne hfull
      · rename_i hgiven
        rw [Bool.not_eq_true] at hgiven
        rw [hgiven, eq_comm, decide_eq_false_iff_not, Nat.not_lt] at hfull
        rw [List.take_of_length_le hfull] at hbuffer
        rw [hbuffer]
        exact hfresh.given hwaiting hne hfull
    · rw [if_neg hwaiting]
      split
      · exact hfresh
      · obtain ⟨-, hlines, hresp, hnotice⟩ := clientParser_spec c
          { s with reader := Reader.fresh } (readByte c s.reader ch).1.recvLineBuf
        rw [if_neg fun hboth => hwaiting hboth.2] at hresp
        have hreceived : received c (clientParser c { s with reader := Reader.fresh }
            (readByte c s.reader ch).1.recvLineBuf) = received c s := by
          rw [received, received, hlines]
        refine ⟨by rw [hlines]; exact h.ended, ?_, ?_, ?_⟩
        · rw [hreceived, hresp]
          exact h.buf
        · rw [hreceived, hresp]
          exact h.count
        · rw [hreceived]
          exact fun _ => h.noticed (Bool.eq_false_of_not_eq_true hwaiting)
  · exact ⟨h.ended, h.buf, h.count, h.noticed⟩

theorem receiveAll_recorded (stream : List Byte) (hread : Reading c s.reader)
    (h : Recorded c s) : Recorded c (receiveAll c s stream) := by
  induction stream generalizing s with
  | nil => exact h
  | cons ch stream ih => exact ih (receive_reading hread ch) (receive_recorded hread h ch)

theorem receiveAll_reading (stream : List Byte) (hread : Reading c s.reader) :
    Reading c (receiveAll c s stream).reader := by
  induction stream generalizing s with
  | nil => exact hread
  | cons ch stream ih => exact ih (receive_reading hread ch)

/-! ## A command -/

theorem exec_ok {resp : Response} {stream : List Byte} {s' : State} (hread : Reading c s.reader)
    (h : atObjExecCmd c s resp stream = (.eok, s')) :
    Recorded c s' ∧ s'.waiting = false := by
  rw [atObjExecCmd] at h
  split at h
  · cases h
  · have hrecorded : Recorded c (receiveAll c
        { s with
          respStatus := .ok, resp := { resp with buf := [], lineCounts := 0 }, waiting := true
          lines := [] } stream) :=
      receiveAll_recorded stream hread ⟨nofun, rfl, rfl, nofun⟩
    dsimp only at h
    split at h
    · cases h
    · rename_i hwaiting
      split at h
      · cases h
      · obtain rfl := (Prod.mk.inj h).2
        exact ⟨hrecorded, Bool.eq_false_of_not_eq_true hwaiting⟩

/-- The response of a command that succeeds, whatever the parser had read before, is intact
exactly where its lines can be stored. -/
theorem response_intact (before : List Byte) {resp old : Response} {stream : List Byte}
    {s' : State}
    (h : atObjExecCmd c (receiveAll c (idle old) before) resp stream = (.eok, s')) :
    Intact c s' ↔ Storable c s' := by
  obtain ⟨⟨-, hbuf, hcount, hnoticed⟩, hwaiting⟩ :=
    exec_ok (receiveAll_reading before (reading_fresh c)) h
  have hne := hnoticed hwaiting
  have hstrings := @strings_iff (received c s')
  constructor
  · rintro ⟨hnumber, hlines⟩
    obtain ⟨hfits, hroom⟩ := @fits_of_foldl_keep c s'.resp.bufSize [] _ hne
      (by rw [← hcount, hnumber, List.length_nil, Nat.zero_add])
    rw [List.map_nil, List.sum_nil, Nat.zero_add] at hroom
    rw [foldl_keep_eq hfits (by simpa using hroom), List.nil_append] at hbuf
    refine ⟨hfits, hroom, hstrings.mp fun n hn => ?_⟩
    have hget := hlines (n + 1) (by omega) (by omega)
    rw [atRespGetLine, if_neg (by omega), Nat.add_sub_cancel, hbuf,
      List.getElem?_eq_getElem hn] at hget
    rw [List.getElem?_eq_getElem hn]
    exact Option.some.inj hget
  · rintro ⟨hfits, hroom, hnoNul⟩
    rw [foldl_keep_eq hfits (by simpa using hroom), List.nil_append] at hbuf hcount
    refine ⟨hcount, fun k hpos hle => ?_⟩
    have hk : k - 1 < (received c s').length := by omega
    have hget := hstrings.mpr hnoNul (k - 1) hk
    rw [List.getElem?_eq_getElem hk] at hget
    rw [atRespGetLine, if_neg (by omega), hbuf, hget, List.getElem?_eq_getElem hk]
    rfl

/-- A client with 32 bytes for a line and one URC. -/
def modem : Client := ⟨false, 0, 32, [⟨bytes "+RING", bytes "\r\n"⟩]⟩

/-- What a command leaves that is answered with a line behind a URC, where the response has this
many bytes. -/
def answered (size : Nat) : RtErr × State :=
  atObjExecCmd modem (idle ⟨0, 0, 0, []⟩) ⟨size, 0, 0, []⟩ (bytes "+RING\r\nv 2.1\r\nOK\r\n")

theorem answered_eok {size : Nat} (h : (answered size).1 = .eok) :
    atObjExecCmd modem (receiveAll modem (idle ⟨0, 0, 0, []⟩) []) ⟨size, 0, 0, []⟩
      (bytes "+RING\r\nv 2.1\r\nOK\r\n") = (.eok, (answered size).2) := by
  rw [receiveAll, List.foldl_nil, ← answered, ← h]

theorem response_intact_modem : Intact modem (answered 20).2 :=
  (response_intact [] (answered_eok (by decide +kernel))).mpr
    ⟨by decide +kernel, by decide +kernel, by decide +kernel⟩

/-- With six bytes the command succeeds as well, and its line is missing. -/
theorem response_not_intact :
    (answered 6).1 = .eok ∧ atRespGetLine (answered 6).2.resp 1 = some (bytes "OK\r") ∧
      ¬ Intact modem (answered 6).2 :=
  ⟨by decide +kernel, by decide +kernel, fun h => absurd h.count (by decide +kernel)⟩

end RtThread.AtClient
