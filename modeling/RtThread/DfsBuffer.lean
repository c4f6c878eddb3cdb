import RtThread.DfsPath

/-!
# Normal paths in their buffer

The loop of `dfs_normalize_path` with its buffer and its two cursors. The text
behind `src` is a string that ends with NUL, and the text in front of `dst` is
the path so far, so that a turn of the loop is a turn on these two strings. Every
access is checked against the size of the buffer.
-/
namespace RtThread.Dfs

/-- The character that ends a string. -/
def nul : Char := Char.ofNat 0

inductive Fault where
  /-- An access outside of the buffer. -/
  | outside
  /-- A loop that does not end. -/
  | endless
  deriving DecidableEq

abbrev Buffer := List Char

def readAt (b : Buffer) (i : Nat) : Except Fault Char :=
  match b[i]? with
  | some c => .ok c
  | none => .error .outside

def writeAt (b : Buffer) (i : Nat) (c : Char) : Except Fault Buffer :=
  if i < b.length then .ok (b.set i c) else .error .outside

/-- `while ((*src == '/') && (*src != '\0')) src ++;` -/
def skipFrom (b : Buffer) : Nat → Nat → Except Fault Nat
  | 0, _ => .error .endless
  | n + 1, src => (readAt b src).bind fun c =>
    if c = '/' ∧ c ≠ nul then skipFrom b n (src + 1) else .ok src

/-- `while ((c = *src++) != '\0' && c != '/') *dst ++ = c;`, with the last `c`. -/
def copyFrom : Nat → Buffer → Nat → Nat → Except Fault (Buffer × Nat × Nat × Char)
  | 0, _, _, _ => .error .endless
  | n + 1, b, src, dst => (readAt b src).bind fun c =>
    if c ≠ nul ∧ c ≠ '/' then (writeAt b dst c).bind fun b => copyFrom n b (src + 1) (dst + 1)
    else .ok (b, src + 1, dst, c)

/-- `while (c == '/') c = *src++;` -/
def skipBehind (b : Buffer) : Nat → Nat → Char → Except Fault Nat
  | 0, _, _ => .error .endless
  | n + 1, src, c =>
    if c = '/' then (readAt b src).bind fun c => skipBehind b n (src + 1) c else .ok src

/-- `while (dst0 < dst && dst[-1] != '/') dst --;` -/
def backTo (b : Buffer) : Nat → Except Fault Nat
  | 0 => .ok 0
  | dst + 1 => (readAt b dst).bind fun c => if c ≠ '/' then backTo b dst else .ok (dst + 1)

/-- What a turn of the loop in the buffer does: `break`, `continue` or `goto up_one`. -/
inductive Round where
  | done (b : Buffer) (dst : Nat)
  | next (b : Buffer) (src dst : Nat)
  | up (src : Nat)

/-- The end of a turn: copy up to the next separator and skip the separators behind it. -/
def copyRound (b : Buffer) (src dst : Nat) : Except Fault Round :=
  (copyFrom (b.length + 1) b src dst).bind fun (b, src, dst, c) =>
    if c = '/' then
      (writeAt b dst '/').bind fun b =>
        (skipBehind b (b.length + 1) src c).bind fun src => .ok (.next b (src - 1) (dst + 1))
    else if c = nul then .ok (.done b dst)
    else .ok (.next b src dst)

def round (b : Buffer) (src dst : Nat) : Except Fault Round :=
  (readAt b src).bind fun c =>
    if c = '.' then
      (readAt b (src + 1)).bind fun c₁ =>
        if c₁ = nul then copyRound b (src + 1) dst
        else if c₁ = '/' then
          (skipFrom b (b.length + 1) (src + 2)).bind fun src => .ok (.next b src dst)
        else if c₁ = '.' then
          (readAt b (src + 2)).bind fun c₂ =>
            if c₂ = nul then .ok (.up (src + 2))
            else if c₂ = '/' then
              (skipFrom b (b.length + 1) (src + 3)).bind fun src => .ok (.up src)
            else copyRound b src dst
        else copyRound b src dst
    else copyRound b src dst

/-- The loop, with `up_one`; `none` when the function returns a null pointer. -/
def rounds : Nat → Buffer → Nat → Nat → Except Fault (Option (Buffer × Nat))
  | 0, _, _, _ => .error .endless
  | n + 1, b, src, dst => (round b src dst).bind fun
    | .done b dst => .ok (some (b, dst))
    | .next b src dst => rounds n b src dst
    | .up src =>
      if dst = 0 then .ok none
      else (backTo b (dst - 1)).bind fun dst => rounds n b src dst

/-- `dst --; if ((dst != fullpath) && (*dst == '/')) *dst = '\0';` With `dst` at the start of
the buffer the character in front of it is read. -/
def trimEnd (b : Buffer) : Nat → Except Fault Buffer
  | 0 => .error .outside
  | 1 => .ok b
  | dst + 1 => (readAt b dst).bind fun c => if c = '/' then writeAt b dst nul else .ok b

/-- The end of the function. -/
def finish (b : Buffer) (dst : Nat) : Except Fault Buffer :=
  (writeAt b dst nul).bind fun b => (trimEnd b dst).bind fun b => (readAt b 0).bind fun c =>
    if c = nul then (writeAt b 0 '/').bind fun b => writeAt b 1 nul else .ok b

/-- `dfs_normalize_path` of a directory that is not null, with every access checked. -/
def normalizePath (allocated : Bool) (directory filename : Path) : Except Fault (Option Path) :=
  if allocated then
    let fullpath := if Absolute filename then filename else directory ++ '/' :: filename
    (rounds (fullpath.length + 1) (fullpath ++ [nul]) 0 0).bind fun
      | none => .ok none
      | some (b, dst) => (finish b dst).bind fun b => .ok (some (b.takeWhile (· ≠ nul)))
  else .ok none

/-! ## The two strings of a buffer -/

/-- The path `dst` so far, the characters between the cursors, and the rest `src`. -/
def tape (dst gap src : Path) : Buffer := dst.reverse ++ (gap ++ (src ++ [nul]))

theorem tape_length (dst gap src : Path) :
    (tape dst gap src).length = dst.length + gap.length + src.length + 1 := by
  simp [tape]
  omega

/-- The character behind `src` is read at the second cursor. -/
theorem readAt_tape (dst gap src : Path) (i : Nat) {c : Char} (h : (src ++ [nul])[i]? = some c) :
    readAt (tape dst gap src) (dst.length + gap.length + i) = .ok c := by
  have hcell : (tape dst gap src)[dst.length + gap.length + i]? = some c := by
    rw [tape, List.getElem?_append_right (by simp; omega), List.getElem?_append_right (by simp; omega),
      ← h]
    congr 1
    simp
    omega
  rw [readAt, hcell]

theorem readAt_back (c : Char) (dst gap src : Path) :
    readAt (tape (c :: dst) gap src) dst.length = .ok c := by
  have hcell : (tape (c :: dst) gap src)[dst.length]? = some c := by
    rw [tape, List.getElem?_append_left (by simp), List.getElem?_reverse (by simp)]
    simp
  rw [readAt, hcell]

/-- The character at the first cursor is overwritten. -/
theorem writeAt_tape (x c : Char) (dst gap src : Path) : ∃ gap', gap'.length = gap.length ∧
    writeAt (tape dst gap (c :: src)) dst.length x = .ok (tape (x :: dst) gap' src) := by
  refine ⟨(gap ++ [c]).tail, by simp, ?_⟩
  rw [writeAt, if_pos (by rw [tape_length]; omega)]
  congr 1
  cases gap with
  | nil => simp [tape]
  | cons g gap => simp [tape]

/-- The first cursor moves back over some characters. -/
theorem tape_back (pre dst gap src : Path) :
    tape (pre ++ dst) gap src = tape dst (pre.reverse ++ gap) src := by
  simp [tape]

/-- The second cursor moves on over some characters. -/
theorem tape_skip (dst gap pre src : Path) : tape dst gap (pre ++ src) = tape dst (gap ++ pre) src := by
  simp [tape]

/-! ## The inner loops -/

theorem nul_ne_separator : nul ≠ '/' := by decide

theorem bind_ok {α β : Type} (x : α) (f : α → Except Fault β) : (Except.ok x).bind f = f x := rfl

variable {n : Nat} {p directory dst filename rest : Path}

theorem skipFrom_spec (dst src : Path) (gap : Path) (hn : src.length < n) :
    ∃ gap', skipFrom (tape dst gap src) n (dst.length + gap.length) =
        .ok (dst.length + gap'.length) ∧ tape dst gap src = tape dst gap' (skipSeparators src) := by
  induction src generalizing gap n with
  | nil =>
    obtain ⟨n, rfl⟩ : ∃ k, n = k + 1 := ⟨n - 1, by omega⟩
    refine ⟨gap, ?_, rfl⟩
    have hread := readAt_tape dst gap [] 0 (c := nul) rfl
    rw [Nat.add_zero] at hread
    rw [skipFrom, hread, bind_ok, if_neg (by simp)]
  | cons c src ih =>
    obtain ⟨n, rfl⟩ : ∃ k, n = k + 1 := ⟨n - 1, by omega⟩
    have hread := readAt_tape dst gap (c :: src) 0 (c := c) rfl
    rw [Nat.add_zero] at hread
    rw [skipFrom, hread, bind_ok]
    by_cases hc : c = '/'
    · rw [if_pos ⟨hc, hc ▸ nul_ne_separator.symm⟩]
      obtain ⟨gap', hskip, htape⟩ := ih (gap ++ [c]) (by simp at hn; omega)
      have hsplit := tape_skip dst gap [c] src
      rw [List.singleton_append] at hsplit
      rw [hsplit]
      refine ⟨gap', ?_, ?_⟩
      · rw [← hskip, List.length_append]
        rfl
      · rw [htape, skipSeparators, skipSeparators, List.dropWhile_cons_of_pos (by simp [hc])]
    · rw [if_neg fun h => hc h.1]
      refine ⟨gap, rfl, ?_⟩
      rw [skipSeparators, List.dropWhile_cons_of_neg (by simp [hc])]

theorem skipBehind_of_skipFrom {b : Buffer} {src src' : Nat} (h : skipFrom b n src = .ok src') :
    skipBehind b (n + 1) src '/' = .ok (src' + 1) := by
  induction n generalizing src with
  | zero => cases h
  | succ n ih =>
    rw [skipFrom] at h
    rw [skipBehind, if_pos rfl]
    cases hread : readAt b src with
    | error e =>
      rw [hread] at h
      cases h
    | ok c =>
      rw [hread, bind_ok] at h
      rw [bind_ok]
      by_cases hc : c = '/'
      · rw [if_pos ⟨hc, hc ▸ nul_ne_separator.symm⟩] at h
        rw [hc]
        exact ih h
      · rw [if_neg fun h => hc h.1] at h
        cases h
        rw [skipBehind, if_neg hc]

/-- The loop behind a separator has read one character too many. -/
theorem skipBehind_spec (dst src : Path) (gap : Path) (hn : src.length + 1 < n) :
    ∃ gap', skipBehind (tape dst gap src) n (dst.length + gap.length) '/' =
        .ok (dst.length + gap'.length + 1) ∧
      tape dst gap src = tape dst gap' (skipSeparators src) := by
  obtain ⟨n, rfl⟩ : ∃ k, n = k + 1 := ⟨n - 1, by omega⟩
  obtain ⟨gap', hskip, htape⟩ := skipFrom_spec dst src gap (Nat.lt_of_succ_lt_succ hn)
  exact ⟨gap', skipBehind_of_skipFrom hskip, htape⟩

/-- The copy stops at the first separator or at the end. -/
theorem copyFrom_spec (src : Path) (dst gap : Path) (hn : src.length < n) (hnul : nul ∉ src) :
    ∃ gap' c,
      copyFrom n (tape dst gap src) (dst.length + gap.length) dst.length =
        .ok (tape ((src.takeWhile (· ≠ '/')).reverse ++ dst) gap' (src.dropWhile (· ≠ '/')),
          ((src.takeWhile (· ≠ '/')).reverse ++ dst).length + gap'.length + 1,
          ((src.takeWhile (· ≠ '/')).reverse ++ dst).length, c) ∧
      (src.dropWhile (· ≠ '/') ++ [nul])[0]? = some c := by
  induction src generalizing dst gap n with
  | nil =>
    obtain ⟨n, rfl⟩ : ∃ k, n = k + 1 := ⟨n - 1, by omega⟩
    have hread := readAt_tape dst gap [] 0 (c := nul) rfl
    rw [Nat.add_zero] at hread
    refine ⟨gap, nul, ?_, rfl⟩
    rw [copyFrom, hread, bind_ok, if_neg (by simp)]
    rfl
  | cons c src ih =>
    obtain ⟨n, rfl⟩ : ∃ k, n = k + 1 := ⟨n - 1, by omega⟩
    have hc := List.ne_of_not_mem_cons hnul
    have hsrc := List.not_mem_of_not_mem_cons hnul
    have hread := readAt_tape dst gap (c :: src) 0 (c := c) rfl
    rw [Nat.add_zero] at hread
    rw [copyFrom, hread, bind_ok]
    by_cases hsep : c = '/'
    · rw [if_neg fun h => h.2 hsep, hsep, List.takeWhile_cons_of_neg (by simp),
        List.dropWhile_cons_of_neg (by simp)]
      exact ⟨gap, '/', rfl, rfl⟩
    · rw [if_pos ⟨Ne.symm hc, hsep⟩, List.takeWhile_cons_of_pos (by simp [hsep]),
        List.dropWhile_cons_of_pos (by simp [hsep])]
      obtain ⟨gap₁, hlen, hwrite⟩ := writeAt_tape c c dst gap src
      obtain ⟨gap', last, hcopy, hlast⟩ := ih (c :: dst) gap₁ (by simp at hn; omega) hsrc
      rw [hwrite, bind_ok, List.reverse_cons, List.append_assoc, List.singleton_append]
      refine ⟨gap', last, ?_, hlast⟩
      rw [← hcopy, hlen, List.length_cons, Nat.add_right_comm]

/-- The loop of `up_one` stops behind a separator or at the start. -/
theorem backTo_spec (dst gap src : Path) :
    backTo (tape dst gap src) dst.length = .ok (dst.dropWhile (· ≠ '/')).length := by
  induction dst generalizing gap with
  | nil => rfl
  | cons c dst ih =>
    rw [List.length_cons, backTo, readAt_back, bind_ok]
    by_cases hc : c = '/'
    · rw [if_neg (by simp [hc]), List.dropWhile_cons_of_neg (by simp [hc])]
      rfl
    · have hback := tape_back [c] dst gap src
      rw [List.singleton_append] at hback
      rw [if_pos hc, List.dropWhile_cons_of_pos (by simp [hc]), hback]
      exact ih _

/-! ## The loop -/

/-- A turn in the buffer does what the turn on the two strings does. -/
def Refines (dst gap src : Path) (r : Except Fault Round) : Turn → Prop
  | .done dst' => ∃ gap' src', r = .ok (.done (tape dst' gap' src') dst'.length)
  | .next src' dst' => ∃ gap', r =
      .ok (.next (tape dst' gap' src') (dst'.length + gap'.length) dst'.length)
  | .up src' => ∃ gap', r = .ok (.up (dst.length + gap'.length)) ∧
      tape dst gap src = tape dst gap' src'

theorem dropWhile_separator {src : Path} {x : Char} (h : src.dropWhile (· ≠ '/') = x :: rest) :
    x = '/' := by
  induction src with
  | nil => simp at h
  | cons c src ih =>
    by_cases hc : c = '/'
    · rw [List.dropWhile_cons_of_neg (by simp [hc])] at h
      rw [← (List.cons.inj h).1, hc]
    · rw [List.dropWhile_cons_of_pos (by simp [hc])] at h
      exact ih h

theorem copyRound_refines (dst gap src : Path) (hnul : nul ∉ src) :
    Refines dst gap src (copyRound (tape dst gap src) (dst.length + gap.length) dst.length)
      (copyComponent src dst) := by
  obtain ⟨gap₁, c, hcopy, hc⟩ := copyFrom_spec src dst gap
    (n := (tape dst gap src).length + 1) (by rw [tape_length]; omega) hnul
  rw [copyRound, hcopy, bind_ok]
  dsimp only
  unfold copyComponent
  generalize hname : (src.takeWhile (· ≠ '/')).reverse ++ dst = dst₁ at *
  cases hrest : src.dropWhile (· ≠ '/') with
  | nil =>
    rw [hrest] at hc
    obtain rfl : nul = c := by simpa using hc
    exact ⟨gap₁, [], rfl⟩
  | cons x rest =>
    rw [hrest] at hc
    obtain rfl : x = c := by simpa using hc
    have hx : x = '/' := dropWhile_separator hrest
    obtain ⟨gap₂, hlen, hwrite⟩ := writeAt_tape '/' x dst₁ gap₁ rest
    rw [if_pos hx, hwrite, bind_ok, hx]
    have hsrc : dst₁.length + gap₁.length + 1 = ('/' :: dst₁).length + gap₂.length := by
      rw [List.length_cons]
      omega
    obtain ⟨gap₃, hskip, htape⟩ := skipBehind_spec ('/' :: dst₁) rest gap₂
      (n := (tape ('/' :: dst₁) gap₂ rest).length + 1)
      (by rw [tape_length, List.length_cons]; omega)
    rw [hsrc, hskip, bind_ok, htape]
    exact ⟨gap₃, rfl⟩

/-- The second cursor has read some characters and skips the separators behind them. -/
theorem skipFrom_behind (dst gap pre src : Path) (hn : src.length < n) :
    ∃ gap', skipFrom (tape dst gap (pre ++ src)) n (dst.length + gap.length + pre.length) =
        .ok (dst.length + gap'.length) ∧
      tape dst gap (pre ++ src) = tape dst gap' (skipSeparators src) := by
  have hskip := skipFrom_spec dst src (gap ++ pre) hn
  rwa [← tape_skip, List.length_append, ← Nat.add_assoc] at hskip

theorem round_refines (dst gap src : Path) (hnul : nul ∉ src) :
    Refines dst gap src (round (tape dst gap src) (dst.length + gap.length) dst.length)
      (normalizeTurn src dst) := by
  have hfirst : ∀ c, (src ++ [nul])[0]? = some c →
      readAt (tape dst gap src) (dst.length + gap.length) = .ok c :=
    fun c => readAt_tape dst gap src 0
  have hread : ∀ i c, (src ++ [nul])[i]? = some c →
      readAt (tape dst gap src) (dst.length + gap.length + i) = .ok c :=
    fun i c => readAt_tape dst gap src i
  have hcopy := copyRound_refines dst gap src hnul
  have hdot : nul ≠ '.' := by decide
  have hdot' : '.' ≠ '/' := by decide
  rw [round]
  unfold normalizeTurn
  split
  case h_1 =>
    have hskip := tape_skip dst gap ['.'] []
    have hend := copyRound_refines dst (gap ++ ['.']) [] (by simp)
    rw [List.append_nil] at hskip
    rw [List.length_append] at hend
    rw [hfirst '.' rfl, bind_ok, if_pos rfl, hread 1 nul rfl, bind_ok, if_pos rfl, hskip]
    exact hend
  case h_2 rest =>
    obtain ⟨gap', hskip, hrest⟩ := skipFrom_behind dst gap ['.', '/'] rest
      (n := (tape dst gap ('.' :: '/' :: rest)).length + 1) (by rw [tape_length]; simp; omega)
    rw [hfirst '.' rfl, bind_ok, if_pos rfl, hread 1 '/' rfl, bind_ok,
      if_neg nul_ne_separator.symm, if_pos rfl]
    change ∃ gap', _
    refine ⟨gap', ?_⟩
    rw [← hrest]
    exact congrArg (fun r => Except.bind r _) hskip
  case h_3 =>
    rw [hfirst '.' rfl, bind_ok, if_pos rfl, hread 1 '.' rfl, bind_ok, if_neg hdot.symm,
      if_neg hdot', if_pos rfl, hread 2 nul rfl, bind_ok, if_pos rfl]
    refine ⟨gap ++ ['.', '.'], ?_, tape_skip dst gap ['.', '.'] []⟩
    rw [List.length_append]
    rfl
  case h_4 rest =>
    obtain ⟨gap', hskip, hrest⟩ := skipFrom_behind dst gap ['.', '.', '/'] rest
      (n := (tape dst gap ('.' :: '.' :: '/' :: rest)).length + 1)
      (by rw [tape_length]; simp; omega)
    rw [hfirst '.' rfl, bind_ok, if_pos rfl, hread 1 '.' rfl, bind_ok, if_neg hdot.symm,
      if_neg hdot', if_pos rfl, hread 2 '/' rfl, bind_ok, if_neg nul_ne_separator.symm,
      if_pos rfl]
    refine ⟨gap', ?_, hrest⟩
    exact congrArg (fun r => Except.bind r _) hskip
  case h_5 hone hsep htwo hup =>
    cases src with
    | nil =>
      rw [hfirst nul rfl, bind_ok, if_neg hdot]
      exact hcopy
    | cons c rest =>
      rw [hfirst c rfl, bind_ok]
      by_cases hc : c = '.'
      · subst hc
        cases rest with
        | nil => exact absurd rfl hone
        | cons d rest =>
          have hd : d ≠ nul := by
            rintro rfl
            simp at hnul
          have hd' : d ≠ '/' := by
            rintro rfl
            exact hsep rest rfl
          rw [if_pos rfl, hread 1 d rfl, bind_ok, if_neg hd, if_neg hd']
          by_cases hdd : d = '.'
          · subst hdd
            cases rest with
            | nil => exact absurd rfl htwo
            | cons e rest =>
              have he : e ≠ nul := by
                rintro rfl
                simp at hnul
              have he' : e ≠ '/' := by
                rintro rfl
                exact hup rest rfl
              rw [if_pos rfl, hread 2 e rfl, bind_ok, if_neg he, if_neg he']
              exact hcopy
          · rw [if_neg hdd]
            exact hcopy
      · rw [if_neg hc]
        exact hcopy

/-! ## Strings without NUL -/

/-- The strings behind a turn hold no NUL. -/
def Turn.NulFree : Turn → Prop
  | .done dst => nul ∉ dst
  | .next src dst => nul ∉ src ∧ nul ∉ dst
  | .up src => nul ∉ src

theorem nul_not_mem_skip {src : Path} (h : nul ∉ src) : nul ∉ skipSeparators src :=
  fun hmem => h ((List.dropWhile_sublist _).subset hmem)

theorem copyComponent_nulFree {src : Path} (hs : nul ∉ src) (hd : nul ∉ dst) :
    (copyComponent src dst).NulFree := by
  have htake : nul ∉ (src.takeWhile (· ≠ '/')).reverse ++ dst := by
    rw [List.mem_append, List.mem_reverse, not_or]
    exact ⟨fun hmem => hs ((List.takeWhile_sublist _).subset hmem), hd⟩
  unfold copyComponent
  split
  case h_1 => exact htake
  case h_2 c rest hrest =>
    have hrest' : nul ∉ rest := by
      intro hmem
      have hmem' : nul ∈ src.dropWhile (· ≠ '/') := by
        rw [hrest]
        exact List.mem_cons_of_mem c hmem
      exact hs ((List.dropWhile_sublist _).subset hmem')
    exact ⟨nul_not_mem_skip hrest', List.not_mem_cons_of_ne_of_not_mem nul_ne_separator htake⟩

theorem normalizeTurn_nulFree {src : Path} (hs : nul ∉ src) (hd : nul ∉ dst) :
    (normalizeTurn src dst).NulFree := by
  unfold normalizeTurn
  split
  case h_1 => exact hd
  case h_2 rest =>
    exact ⟨nul_not_mem_skip fun hmem => hs (by simp [hmem]), hd⟩
  case h_3 => simp [Turn.NulFree]
  case h_4 rest => exact nul_not_mem_skip fun hmem => hs (by simp [hmem])
  case h_5 => exact copyComponent_nulFree hs hd

/-- The loop in the buffer does what the loop on the two strings does. -/
theorem rounds_refines {gap src : Path} (hn : src.length < n) (hs : nul ∉ src) (hd : nul ∉ dst) :
    match normalizeLoop n src dst with
    | none => rounds n (tape dst gap src) (dst.length + gap.length) dst.length = .ok none
    | some dst' => nul ∉ dst' ∧ ∃ gap' src',
        rounds n (tape dst gap src) (dst.length + gap.length) dst.length =
          .ok (some (tape dst' gap' src', dst'.length)) := by
  induction n generalizing dst gap src with
  | zero => omega
  | succ n ih =>
    have hround := round_refines dst gap src hs
    have hshort := normalizeTurn_shorter src dst
    have hfree := normalizeTurn_nulFree hs hd
    rw [normalizeLoop, rounds]
    cases hturn : normalizeTurn src dst with
    | done dst' =>
      rw [hturn] at hround hfree
      obtain ⟨gap', src', hround⟩ := hround
      rw [hround]
      exact ⟨hfree, gap', src', rfl⟩
    | next src' dst' =>
      rw [hturn] at hround hfree hshort
      obtain ⟨gap', hround⟩ := hround
      rw [hround]
      simp only [Turn.Shorter] at hshort
      exact ih (by omega) hfree.1 hfree.2
    | up src' =>
      rw [hturn] at hround hfree hshort
      obtain ⟨gap', hround, htape⟩ := hround
      simp only [Turn.Shorter] at hshort
      rw [hround, bind_ok, htape]
      cases dst with
      | nil => rfl
      | cons c dst =>
        have hsplit : dst.takeWhile (· ≠ '/') ++ dst.dropWhile (· ≠ '/') = dst :=
          List.takeWhile_append_dropWhile
        have hfirst := tape_back [c] dst gap' src'
        have hto := backTo_spec dst ([c].reverse ++ gap') src'
        have hdrop : nul ∉ dst.dropWhile (· ≠ '/') := fun hmem =>
          hd (List.mem_cons_of_mem c ((List.dropWhile_sublist _).subset hmem))
        have hback := tape_back (dst.takeWhile (· ≠ '/')) (dst.dropWhile (· ≠ '/'))
          ([c].reverse ++ gap') src'
        rw [hsplit] at hback
        have hsrc : (c :: dst).length + gap'.length = (dst.dropWhile (· ≠ '/')).length +
            ((dst.takeWhile (· ≠ '/')).reverse ++ ([c].reverse ++ gap')).length := by
          have hlen := congrArg List.length hsplit
          simp only [List.length_append, List.length_reverse, List.length_cons, List.length_nil]
            at hlen ⊢
          omega
        rw [List.singleton_append] at hfirst
        dsimp only
        rw [if_neg (by simp), List.length_cons, Nat.add_sub_cancel, hfirst, hto, bind_ok,
          ← List.length_cons, hsrc, hback, upOne, Option.bind_some]
        exact ih (by omega) hfree hdrop

/-! ## The end of the function -/

theorem takeWhile_nul (h : nul ∉ p) : (p ++ nul :: rest).takeWhile (· ≠ nul) = p := by
  rw [List.takeWhile_append_of_pos]
  · simp
  · intro c hc
    simp only [decide_eq_true_eq]
    rintro rfl
    exact h hc

theorem writeAt_end (dst gap src : Path) (x : Char) :
    ∃ rest, writeAt (tape dst gap src) dst.length x = .ok (dst.reverse ++ x :: rest) := by
  refine ⟨(gap ++ (src ++ [nul])).tail, ?_⟩
  rw [writeAt, if_pos (by rw [tape_length]; omega), tape, List.set_append_right _ _ (by simp)]
  cases gap with
  | nil => cases src <;> simp
  | cons g gap => simp

theorem trimEnd_add_two (b : Buffer) (n : Nat) : trimEnd b (n + 2) =
    (readAt b (n + 1)).bind fun c => if c = '/' then writeAt b (n + 1) nul else .ok b := rfl

/-- A path that is not empty passes the final check. -/
theorem first_check (hne : p ≠ []) (hp : nul ∉ p) :
    ((readAt (p ++ rest) 0).bind fun c =>
      if c = nul then (writeAt (p ++ rest) 0 '/').bind fun b => writeAt b 1 nul
      else .ok (p ++ rest)) = .ok (p ++ rest) := by
  obtain ⟨c, p, rfl⟩ := List.exists_cons_of_ne_nil hne
  have hc : c ≠ nul := by
    rintro rfl
    exact hp List.mem_cons_self
  rw [show readAt (c :: p ++ rest) 0 = .ok c from rfl, bind_ok, if_neg hc]

/-- An empty path is tested in front of the buffer; every other one is finished in it. -/
theorem finish_spec (dst gap src : Path) (hd : nul ∉ dst) :
    (dst = [] → finish (tape dst gap src) dst.length = .error .outside) ∧
      (dst ≠ [] → ∃ b, finish (tape dst gap src) dst.length = .ok b ∧
        b.takeWhile (· ≠ nul) = finishPath dst) := by
  obtain ⟨rest, hwrite⟩ := writeAt_end dst gap src nul
  have hrev : nul ∉ dst.reverse := by rwa [List.mem_reverse]
  rw [finish, hwrite, bind_ok]
  match dst with
  | [] => exact ⟨fun _ => rfl, fun h => absurd rfl h⟩
  | [c] =>
    refine ⟨fun h => absurd h (by simp), fun _ => ⟨[c].reverse ++ nul :: rest, ?_, ?_⟩⟩
    · exact first_check (by simp) hrev
    · exact takeWhile_nul hrev
  | c :: d :: ds =>
    refine ⟨fun h => absurd h (by simp), fun _ => ?_⟩
    have hread : readAt ((c :: d :: ds).reverse ++ nul :: rest) (ds.length + 1) = .ok c := by
      have hcell : ((c :: d :: ds).reverse ++ nul :: rest)[ds.length + 1]? = some c := by
        simp
      rw [readAt, hcell]
    have htrim : writeAt ((c :: d :: ds).reverse ++ nul :: rest) (ds.length + 1) nul =
        .ok ((d :: ds).reverse ++ nul :: nul :: rest) := by
      rw [writeAt, if_pos (by simp), List.reverse_cons, List.append_assoc,
        List.set_append_right _ _ (by simp)]
      simp
    rw [List.length_cons, List.length_cons, trimEnd_add_two, hread, bind_ok, finishPath]
    by_cases hc : c = '/'
    · have hrev' : nul ∉ (d :: ds).reverse := by
        rw [List.mem_reverse]
        exact List.not_mem_of_not_mem_cons hd
      rw [if_pos hc, if_pos hc, htrim, bind_ok]
      exact ⟨_, first_check (by simp) hrev', takeWhile_nul hrev'⟩
    · rw [if_neg hc, if_neg hc, bind_ok]
      exact ⟨_, first_check (by simp) hrev, takeWhile_nul hrev⟩

/-- The path that is normalised. -/
def joined (directory filename : Path) : Path :=
  if Absolute filename then filename else directory ++ '/' :: filename

theorem nul_not_mem_joined (hdir : nul ∉ directory) (hfile : nul ∉ filename) :
    nul ∉ joined directory filename := by
  rw [joined]
  split
  case isTrue => exact hfile
  case isFalse => simp [hdir, hfile, nul_ne_separator]

theorem dfsNormalizePath_joined (directory filename : Path) :
    dfsNormalizePath true directory filename = (normalizeLoop
      ((joined directory filename).length + 1) (joined directory filename) []).map finishPath :=
  rfl

/-- The whole function in its buffer: the access in front of the buffer happens when the loop ends
with an empty path, and apart from it the function is the one on strings. -/
theorem normalizePath_eq (hdir : nul ∉ directory) (hfile : nul ∉ filename) :
    match normalizeLoop ((joined directory filename).length + 1) (joined directory filename) [] with
    | some [] => normalizePath true directory filename = .error .outside
    | _ => normalizePath true directory filename = .ok (dfsNormalizePath true directory filename) := by
  have hnul := nul_not_mem_joined hdir hfile
  have hfull : normalizePath true directory filename =
      (rounds ((joined directory filename).length + 1) (joined directory filename ++ [nul]) 0 0).bind
        fun
        | none => .ok none
        | some (b, dst) =>
          (finish b dst).bind fun b => .ok (some (b.takeWhile (· ≠ nul))) := rfl
  rw [hfull, dfsNormalizePath_joined]
  generalize joined directory filename = full at *
  have hloop := @rounds_refines (full.length + 1) [] [] full (by omega) hnul (by simp)
  cases hres : normalizeLoop (full.length + 1) full [] with
  | none =>
    rw [hres] at hloop
    have hrounds : rounds (full.length + 1) (full ++ [nul]) 0 0 = .ok none := hloop
    rw [hrounds, bind_ok]
    rfl
  | some dst =>
    rw [hres] at hloop
    obtain ⟨hdst, gap, src, hrounds⟩ := hloop
    obtain ⟨hempty, hfinish⟩ := finish_spec dst gap src hdst
    have hrounds' : rounds (full.length + 1) (full ++ [nul]) 0 0 =
        .ok (some (tape dst gap src, dst.length)) := hrounds
    rw [hrounds', bind_ok]
    dsimp only
    cases dst with
    | nil =>
      rw [hempty rfl]
      rfl
    | cons c dst =>
      obtain ⟨b, hb, htake⟩ := hfinish (by simp)
      rw [hb, bind_ok, htake]
      rfl

end RtThread.Dfs
