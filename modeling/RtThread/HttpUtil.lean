import Mathlib.Data.List.TakeWhile
import RtThread.RtDef

/-!
# URL coding

`http_urlencode` and `http_urldecode` of `http_util.c` write the result into a work buffer and
copy it over their argument. A read behind the NUL of the string and a write behind the work
buffer are refused. A `char` is signed, and `alloc` says whether `rt_calloc` has returned memory.
-/
namespace RtThread.HttpUtil

abbrev Byte := BitVec 8

/-- The characters of a C string, its NUL left out. -/
abbrev CString := {text : List Byte // (0 : Byte) ∉ text}

/-- `BURSIZE`. -/
def bursize : Nat := 1024

def percent : Byte := 0x25

/-! ## Characters -/

def hex2dec (c : Byte) : Int :=
  if 0x30 ≤ c.toInt ∧ c.toInt ≤ 0x39 then c.toInt - 0x30
  else if 0x61 ≤ c.toInt ∧ c.toInt ≤ 0x66 then c.toInt - 0x61 + 10
  else if 0x41 ≤ c.toInt ∧ c.toInt ≤ 0x46 then c.toInt - 0x41 + 10
  else -1

def dec2hex (c : Int) : Byte :=
  if 0 ≤ c ∧ c ≤ 9 then BitVec.ofInt 8 (c + 0x30)
  else if 10 ≤ c ∧ c ≤ 15 then BitVec.ofInt 8 (c + 0x41 - 10)
  else BitVec.ofInt 8 (-1)

/-- The characters that are written as they are. -/
def isPlain (c : Byte) : Bool :=
  (0x30 ≤ c.toInt ∧ c.toInt ≤ 0x39) ∨ (0x61 ≤ c.toInt ∧ c.toInt ≤ 0x7a) ∨
    (0x41 ≤ c.toInt ∧ c.toInt ≤ 0x5a) ∨ c = 0x2f ∨ c = 0x2e

/-- The three characters of an escape. -/
def escape (c : Byte) : List Byte :=
  let j := if c.toInt < 0 then c.toInt + 256 else c.toInt
  let i1 := j / 16
  let i0 := j - i1 * 16
  [percent, dec2hex i1, dec2hex i0]

/-- The character of an escape. -/
def unescape (c1 c0 : Byte) : Byte := BitVec.ofInt 8 (hex2dec c1 * 16 + hex2dec c0)

theorem unescape_escape : ∀ i : Fin 256, ∃ c1 c0, escape (BitVec.ofFin i) = [percent, c1, c0] ∧
    c1 ≠ 0 ∧ c0 ≠ 0 ∧ unescape c1 c0 = BitVec.ofFin i := by
  have hround : ∀ i : Fin 256, (escape (BitVec.ofFin i)).getD 1 0 ≠ 0 ∧
      (escape (BitVec.ofFin i)).getD 2 0 ≠ 0 ∧
      unescape ((escape (BitVec.ofFin i)).getD 1 0) ((escape (BitVec.ofFin i)).getD 2 0) =
        BitVec.ofFin i := by decide +kernel
  intro i
  exact ⟨_, _, rfl, hround i⟩

theorem plain_ne {c : Byte} (h : isPlain c) : c ≠ percent ∧ c ≠ 0 := by
  constructor
  · rintro rfl
    exact absurd h (by decide)
  · rintro rfl
    exact absurd h (by decide)

/-! ## The functions -/

/-- `res[res_len++] = b`. -/
def put (res : List Byte) (b : Byte) : Option (List Byte) :=
  if res.length < bursize then some (res ++ [b]) else none

/-- The body of the loop of `http_urlencode`. -/
def encodeChar (res : List Byte) (c : Byte) : Option (List Byte) :=
  if isPlain c then put res c else (escape c).foldlM put res

/-- The loop of `http_urlencode`. -/
def encodeLoop (url : List Byte) (len : Int) (i : Nat) (res : List Byte) : Option (List Byte) :=
  if i < len then
    url[i]?.bind fun c => (encodeChar res c).bind (encodeLoop url len (i + 1))
  else some res
termination_by (len - i).toNat

/-- The work buffer of `http_urlencode` with its NUL. -/
def encodeWork (alloc : Bool) (url : CString) : Option (List Byte) :=
  if alloc then
    (encodeLoop (url.val ++ [0]) (int32 url.val.length) 0 []).bind fun res => put res 0
  else none

/-- The loop of `http_urldecode`. -/
def decodeLoop (url : List Byte) (len : Int) (i : Nat) (res : List Byte) : Option (List Byte) :=
  if i < len then
    url[i]?.bind fun c =>
      if c ≠ percent then (put res c).bind (decodeLoop url len (i + 1))
      else
        url[i + 1]?.bind fun c1 => url[i + 2]?.bind fun c0 =>
          (put res (unescape c1 c0)).bind (decodeLoop url len (i + 3))
  else some res
termination_by (len - i).toNat

/-- The work buffer of `http_urldecode` with its NUL. -/
def decodeWork (alloc : Bool) (url : CString) : Option (List Byte) :=
  if alloc then
    (decodeLoop (url.val ++ [0]) (int32 url.val.length) 0 []).bind fun res => put res 0
  else none

/-- The string at the start of some bytes. -/
def cString (bytes : List Byte) : CString :=
  ⟨bytes.takeWhile (· ≠ 0), by
    intro hmem
    have hnul := List.mem_takeWhile_imp hmem
    simp at hnul⟩

/-- `strcpy` to a buffer of `size` bytes. -/
def strcpy (size : Nat) (res : List Byte) : Option CString :=
  if (cString res).val.length < size then some (cString res) else none

/-- `http_urlencode` on a string in a buffer of `size` bytes. -/
def httpUrlencode (alloc : Bool) (size : Nat) (url : CString) : Option CString :=
  (encodeWork alloc url).bind (strcpy size)

def httpUrldecode (alloc : Bool) (size : Nat) (url : CString) : Option CString :=
  (decodeWork alloc url).bind (strcpy size)

/-! ## What the loops write -/

/-- The encoded form. -/
def encoded (text : List Byte) : List Byte :=
  text.flatMap fun c => if isPlain c then [c] else escape c

def encodedLength (text : List Byte) : Nat := (text.map fun c => if isPlain c then 1 else 3).sum

/-- The characters that are decoded while `n` have not been reached, `none` when the two
characters of an escape are not both there. -/
def decoded : Nat → List Byte → Option (List Byte)
  | 0, _ => some []
  | _, [] => some []
  | n + 1, c :: text =>
    if c ≠ percent then (decoded n text).map (c :: ·)
    else
      match text with
      | [] => none
      | [c1] => some [unescape c1 0]
      | c1 :: c0 :: text => (decoded (n - 2) text).map (unescape c1 c0 :: ·)

theorem decoded_nil (n : Nat) : decoded n [] = some [] := by
  cases n <;> rfl

theorem decoded_char {c : Byte} (hc : c ≠ percent) (n : Nat) (text : List Byte) :
    decoded (n + 1) (c :: text) = (decoded n text).map (c :: ·) := by
  rw [decoded.eq_def]
  exact if_pos hc

theorem decoded_end (n : Nat) : decoded (n + 1) [percent] = none := rfl

theorem decoded_cut (n : Nat) (c1 : Byte) :
    decoded (n + 1) [percent, c1] = some [unescape c1 0] := rfl

theorem decoded_escape (n : Nat) (c1 c0 : Byte) (text : List Byte) :
    decoded (n + 1) (percent :: c1 :: c0 :: text) =
      (decoded (n - 2) text).map (unescape c1 c0 :: ·) := rfl

/-- No escape begins at the last character. -/
def Complete : Nat → List Byte → Prop
  | 0, _ => True
  | _, [] => True
  | n + 1, c :: text =>
    if c ≠ percent then Complete n text else text ≠ [] ∧ Complete (n - 2) (text.drop 2)

section loops

variable {url text res : List Byte} {len : Int} {i n : Nat}

theorem length_encoded (text : List Byte) : (encoded text).length = encodedLength text := by
  induction text with
  | nil => rfl
  | cons c text ih =>
    rw [encoded, List.flatMap_cons, List.length_append, ← encoded, ih, encodedLength, encodedLength,
      List.map_cons, List.sum_cons]
    congr 1
    split <;> rfl

/-- Some characters behind the others, when there is room for them. -/
def within (res bs : List Byte) : Option (List Byte) :=
  if res.length + bs.length ≤ bursize then some (res ++ bs) else none

theorem put_eq (res : List Byte) (b : Byte) : put res b = within res [b] := rfl

theorem within_nil (h : res.length ≤ bursize) : within res [] = some res := by
  rw [within, List.length_nil, Nat.add_zero, if_pos h, List.append_nil]

theorem within_append (bs cs : List Byte) :
    (within res bs).bind (fun res => within res cs) = within res (bs ++ cs) := by
  unfold within
  rw [List.length_append]
  by_cases hbs : res.length + bs.length ≤ bursize
  · rw [if_pos hbs, Option.bind_some, List.length_append, List.append_assoc]
    exact if_congr (by omega) rfl rfl
  · rw [if_neg hbs, if_neg (by omega)]
    rfl

/-- One character in front of what is written. -/
theorem bind_within (b : Byte) (d : Option (List Byte)) :
    (d.map (b :: ·)).bind (within res) =
      (within res [b]).bind fun res => d.bind (within res) := by
  cases d with
  | none => cases within res [b] <;> rfl
  | some bs => exact (within_append [b] bs).symm

theorem length_of_within {bs res' : List Byte} (h : within res bs = some res') :
    res'.length ≤ bursize := by
  unfold within at h
  split at h
  case isTrue hroom =>
    cases h
    rwa [List.length_append]
  case isFalse => cases h

theorem encodeChar_eq (c : Byte) :
    encodeChar res c = within res (if isPlain c then [c] else escape c) := by
  unfold encodeChar
  split
  · rfl
  · obtain ⟨c1, c0, hescape, -⟩ := unescape_escape c.toFin
    rw [hescape]
    show (put res percent).bind (fun res => (put res c1).bind fun res => (put res c0).bind some) = _
    simp only [put_eq, Option.bind_fun_some, within_append]
    rfl

theorem read_of_drop {c : Byte} {rest : List Byte} (h : url.drop i = c :: rest) :
    url[i]? = some c := by
  rw [← Nat.add_zero i, ← List.getElem?_drop, h]
  rfl

theorem drop_succ {c : Byte} {rest : List Byte} (h : url.drop i = c :: rest) :
    url.drop (i + 1) = rest := by
  rw [← List.drop_drop, h]
  rfl

/-- The loop writes the encoded form of the characters that it takes. -/
theorem encodeLoop_eq (hdrop : url.drop i = text ++ [0]) (hn : (len - i).toNat = n)
    (htext : n ≤ text.length) (hres : res.length ≤ bursize) :
    encodeLoop url len i res = within res (encoded (text.take n)) := by
  induction n generalizing i text res with
  | zero =>
    rw [encodeLoop, if_neg (by omega), List.take_zero]
    exact (within_nil hres).symm
  | succ n ih =>
    cases text with
    | nil => cases htext
    | cons c text =>
      rw [encodeLoop, if_pos (by omega), read_of_drop hdrop, Option.bind_some, encodeChar_eq,
        List.take_succ_cons, encoded, List.flatMap_cons, ← encoded, ← within_append]
      cases hwritten : within res (if isPlain c then [c] else escape c) with
      | none => rfl
      | some res' =>
        rw [List.length_cons] at htext
        exact ih (drop_succ hdrop) (by omega) (by omega) (length_of_within hwritten)

theorem decodeLoop_eq (hdrop : url.drop i = text ++ [0]) (hn : (len - i).toNat = n)
    (htext : n ≤ text.length) (hres : res.length ≤ bursize) :
    decodeLoop url len i res = (decoded n text).bind (within res) := by
  induction n, text using decoded.induct generalizing i res with
  | case1 text =>
    rw [decodeLoop, if_neg (by omega), decoded]
    exact (within_nil hres).symm
  | case2 n hzero =>
    exact absurd (Nat.eq_zero_of_le_zero htext) hzero
  | case3 n c text hc ih =>
    rw [List.length_cons] at htext
    rw [decodeLoop, if_pos (by omega), read_of_drop hdrop, Option.bind_some, if_pos hc,
      decoded_char hc, put_eq, bind_within]
    cases hwritten : within res [c] with
    | none => rfl
    | some res' => exact ih (drop_succ hdrop) (by omega) (by omega) (length_of_within hwritten)
  | case4 n c hc =>
    obtain rfl : c = percent := not_ne_iff.mp hc
    have hnext := drop_succ hdrop
    rw [decodeLoop, if_pos (by omega), read_of_drop hdrop, Option.bind_some, if_neg hc,
      decoded_end, read_of_drop hnext, Option.bind_some, List.getElem?_eq_none_iff.mpr]
    · rfl
    · exact List.drop_eq_nil_iff.mp (drop_succ hnext)
  | case5 n c hc c1 =>
    obtain rfl : c = percent := not_ne_iff.mp hc
    have hnext := drop_succ hdrop
    rw [List.length_cons, List.length_singleton] at htext
    rw [decodeLoop, if_pos (by omega), read_of_drop hdrop, Option.bind_some, if_neg hc,
      decoded_cut, read_of_drop hnext, Option.bind_some, read_of_drop (drop_succ hnext),
      Option.bind_some, Option.bind_some, put_eq]
    cases hwritten : within res [unescape c1 0] with
    | none => rfl
    | some res' => rw [Option.bind_some, decodeLoop, if_neg (by omega)]
  | case6 n c hc c1 c0 text ih =>
    obtain rfl : c = percent := not_ne_iff.mp hc
    have hnext := drop_succ hdrop
    have hlast := drop_succ hnext
    simp only [List.length_cons] at htext
    rw [decodeLoop, if_pos (by omega), read_of_drop hdrop, Option.bind_some, if_neg hc,
      decoded_escape, read_of_drop hnext, Option.bind_some, read_of_drop hlast, Option.bind_some,
      put_eq, bind_within]
    cases hwritten : within res [unescape c1 c0] with
    | none => rfl
    | some res' => exact ih (drop_succ hlast) (by omega) (by omega) (length_of_within hwritten)

end loops

/-! ## The work buffer -/

/-- How many characters the counter `len` lets a loop reach: the length as an `int`. -/
def taken (url : CString) : Nat := (int32 url.val.length).toNat

theorem taken_le (url : CString) : taken url ≤ url.val.length := by
  unfold taken int32
  rw [Int.bmod_def]
  split <;> omega

theorem taken_eq {url : CString} (h : url.val.length < 2 ^ 31) : taken url = url.val.length := by
  rw [taken, int32_eq (by omega) (by omega), Int.toNat_natCast]

section work

variable {alloc : Bool} {url : CString} {text : List Byte} {n : Nat}

theorem encodeWork_eq (alloc : Bool) (url : CString) :
    encodeWork alloc url =
      if alloc then within [] (encoded (url.val.take (taken url)) ++ [0]) else none := by
  unfold encodeWork
  rw [encodeLoop_eq (n := taken url) rfl (by rw [Int.natCast_zero, Int.sub_zero, taken]) (taken_le url)
    (Nat.zero_le _)]
  simp only [put_eq, within_append]

theorem decodeWork_eq (alloc : Bool) (url : CString) :
    decodeWork alloc url =
      if alloc then (decoded (taken url) url.val).bind fun d => within [] (d ++ [0]) else none := by
  unfold decodeWork
  rw [decodeLoop_eq (n := taken url) rfl (by rw [Int.natCast_zero, Int.sub_zero, taken]) (taken_le url)
    (Nat.zero_le _), Option.bind_assoc]
  simp only [put_eq, within_append]

theorem isSome_within_nul (bs : List Byte) :
    (within [] (bs ++ [0])).isSome ↔ bs.length < bursize := by
  unfold within
  rw [List.length_append, List.length_singleton, List.length_nil, Nat.zero_add]
  split
  case isTrue h => simp only [Option.isSome_some, true_iff]; omega
  case isFalse h => simp only [Option.isSome_none, Bool.false_eq_true, false_iff]; omega

theorem isSome_decoded (n : Nat) (text : List Byte) :
    (decoded n text).isSome ↔ Complete n text := by
  induction n, text using decoded.induct with
  | case1 | case2 => simp [decoded, Complete]
  | case3 n c text hc ih =>
    rw [decoded_char hc, Option.isSome_map, ih, Complete, if_pos hc]
  | case4 n c hc =>
    obtain rfl : c = percent := not_ne_iff.mp hc
    rw [decoded_end, Complete, if_neg hc]
    simp
  | case5 n c hc c1 =>
    obtain rfl : c = percent := not_ne_iff.mp hc
    rw [decoded_cut, Complete, if_neg hc]
    cases n - 2 <;> simp [Complete]
  | case6 n c hc c1 c0 text ih =>
    obtain rfl : c = percent := not_ne_iff.mp hc
    rw [decoded_escape, Option.isSome_map, ih, Complete, if_neg hc]
    simp

/-- Decoding makes nothing longer. -/
theorem length_decoded_le {d : List Byte} (h : decoded n text = some d) :
    d.length ≤ min n text.length := by
  induction n, text using decoded.induct generalizing d with
  | case1 text =>
    rw [decoded] at h
    cases h
    exact Nat.zero_le _
  | case2 n hzero =>
    rw [decoded_nil] at h
    cases h
    exact Nat.zero_le _
  | case3 n c text hc ih =>
    rw [decoded_char hc] at h
    obtain ⟨d', hd', rfl⟩ := Option.map_eq_some_iff.mp h
    have hle := ih hd'
    simp only [List.length_cons]
    omega
  | case4 n c hc =>
    obtain rfl : c = percent := not_ne_iff.mp hc
    cases h
  | case5 n c hc c1 =>
    obtain rfl : c = percent := not_ne_iff.mp hc
    cases h
    simp only [List.length_cons, List.length_nil]
    omega
  | case6 n c hc c1 c0 text ih =>
    obtain rfl : c = percent := not_ne_iff.mp hc
    obtain ⟨d', hd', rfl⟩ := Option.map_eq_some_iff.mp h
    have hle := ih hd'
    simp only [List.length_cons]
    omega

theorem length_le_encodedLength (text : List Byte) : text.length ≤ encodedLength text := by
  induction text with
  | nil => exact Nat.le_refl 0
  | cons c text ih =>
    rw [encodedLength, List.map_cons, List.sum_cons, ← encodedLength, List.length_cons]
    split <;> omega

theorem nul_notMem_encoded (text : List Byte) : (0 : Byte) ∉ encoded text := by
  intro hmem
  obtain ⟨c, hc, hnul⟩ := List.mem_flatMap.mp hmem
  cases hplain : isPlain c with
  | true =>
    rw [if_pos hplain, List.mem_singleton] at hnul
    exact (plain_ne hplain).2 hnul.symm
  | false =>
    obtain ⟨c1, c0, hescape, hc1, hc0, -⟩ := unescape_escape c.toFin
    rw [hplain, if_neg Bool.false_ne_true, hescape] at hnul
    rcases List.mem_cons.mp hnul with hnul | hnul
    · exact absurd hnul (by decide)
    · rcases List.mem_pair.mp hnul with hnul | hnul
      · exact hc1 hnul.symm
      · exact hc0 hnul.symm

theorem decoded_encoded (text : List Byte) :
    decoded (encoded text).length (encoded text) = some text := by
  induction text with
  | nil => rfl
  | cons c text ih =>
    rw [encoded, List.flatMap_cons, ← encoded]
    cases hplain : isPlain c with
    | true =>
      rw [if_pos rfl, List.singleton_append, List.length_cons, decoded_char (plain_ne hplain).1, ih]
      rfl
    | false =>
      obtain ⟨c1, c0, hescape, -, -, hback⟩ := unescape_escape c.toFin
      rw [if_neg Bool.false_ne_true, hescape]
      show decoded ((encoded text).length + 2 + 1) (percent :: c1 :: c0 :: encoded text) = _
      rw [decoded_escape, Nat.add_sub_cancel, ih, hback]
      rfl

theorem cString_append_nul (h : (0 : Byte) ∉ text) : cString (text ++ [0]) = ⟨text, h⟩ := by
  apply Subtype.ext
  show (text ++ [0]).takeWhile (· ≠ 0) = text
  have hall : ∀ b ∈ text, decide (b ≠ 0) = true :=
    fun b hb => decide_eq_true fun hnul => h (hnul ▸ hb)
  rw [List.takeWhile_append_of_pos hall]
  exact List.append_nil text

/-- The encoded form comes back as the text. -/
theorem roundTrip (url : CString) {size : Nat} (hwork : encodedLength url.val < bursize)
    (hsize : encodedLength url.val < size) :
    (httpUrlencode true size url).bind (httpUrldecode true size) = some url := by
  have hlen := length_le_encodedLength url.val
  have hbur : bursize = 1024 := rfl
  have henc : (encoded url.val).length < bursize := by rwa [length_encoded]
  have hwhole : url.val.take (taken url) = url.val := by
    rw [taken_eq (by omega), List.take_length]
  have hfirst : httpUrlencode true size url =
      some ⟨encoded url.val, nul_notMem_encoded url.val⟩ := by
    rw [httpUrlencode, encodeWork_eq, if_pos rfl, hwhole, within, if_pos (by simp; omega),
      Option.bind_some, List.nil_append, strcpy, cString_append_nul (nul_notMem_encoded url.val),
      if_pos (by rwa [length_encoded])]
  rw [hfirst, Option.bind_some, httpUrldecode, decodeWork_eq, if_pos rfl,
    taken_eq (by simp only; omega), decoded_encoded, Option.bind_some, within,
    if_pos (by simp; omega), Option.bind_some, List.nil_append, strcpy,
    cString_append_nul url.2, if_pos (by simp only; omega)]

end work

/-- Nothing is read behind the string, and nothing is written behind the work buffer. -/
def Safe (alloc : Bool) (url : CString) : Prop :=
  (encodeWork alloc url).isSome ∧ (decodeWork alloc url).isSome

/-- Where the encoded form fits into both buffers, decoding it gives back the string. -/
def RoundTrips (alloc : Bool) (url : CString) : Prop :=
  ∀ size, encodedLength url.val < bursize → encodedLength url.val < size →
    (httpUrlencode alloc size url).bind (httpUrldecode alloc size) = some url

theorem safe_iff (alloc : Bool) (url : CString) :
    Safe alloc url ↔ alloc = true ∧ encodedLength (url.val.take (taken url)) < bursize ∧
      Complete (taken url) url.val := by
  unfold Safe
  rw [encodeWork_eq, decodeWork_eq]
  cases alloc with
  | false => simp
  | true =>
    rw [if_pos rfl, if_pos rfl, isSome_within_nul, length_encoded, ← isSome_decoded]
    constructor
    · rintro ⟨henc, hdec⟩
      refine ⟨rfl, henc, ?_⟩
      cases hd : decoded (taken url) url.val with
      | none =>
        rw [hd] at hdec
        cases hdec
      | some d => rfl
    · rintro ⟨-, henc, hdec⟩
      obtain ⟨d, hd⟩ := Option.isSome_iff_exists.mp hdec
      refine ⟨henc, ?_⟩
      have hshort := length_decoded_le hd
      have hlong := length_le_encodedLength (url.val.take (taken url))
      rw [List.length_take] at hlong
      rw [hd, Option.bind_some, isSome_within_nul]
      omega

/-- The functions keep to their buffers when the work buffer has been allocated, the encoded form
is shorter than the work buffer, and no escape begins at the last character. -/
theorem url_coding (alloc : Bool) (url : CString) :
    (Safe alloc url ∧ RoundTrips alloc url) ↔
      alloc = true ∧ encodedLength (url.val.take (taken url)) < bursize ∧
        Complete (taken url) url.val := by
  constructor
  · rintro ⟨hsafe, -⟩
    exact (safe_iff alloc url).mp hsafe
  · intro h
    refine ⟨(safe_iff alloc url).mpr h, ?_⟩
    obtain ⟨rfl, -, -⟩ := h
    intro size hwork hsize
    exact roundTrip url hwork hsize

/-- A string of 342 blanks is too long, and one that ends in a percent sign is read too far. -/
theorem url_coding_fails :
    ¬ Safe true ⟨List.replicate 342 0x20, by decide⟩ ∧ ¬ Safe true ⟨[percent], by decide⟩ := by
  rw [safe_iff, safe_iff]
  constructor
  · rintro ⟨-, hshort, -⟩
    have hblank : isPlain 0x20 = false := by decide
    rw [taken_eq (by rw [List.length_replicate]; decide), List.take_length] at hshort
    simp only [encodedLength, List.map_replicate, List.sum_replicate_nat, hblank] at hshort
    exact absurd hshort (by decide)
  · rintro ⟨-, -, hcomplete⟩
    rw [taken_eq (by decide)] at hcomplete
    simp [Complete] at hcomplete

end RtThread.HttpUtil
