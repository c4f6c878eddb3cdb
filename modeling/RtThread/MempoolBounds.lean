import RtThread.MempoolPartition

/-!
# The region of a memory pool

`rt_mp_init` divides the region by the size of a block with its header, and `rt_mp_create`
multiplies the number of blocks by that size. Both end the list at an index that is one below the
number of blocks. All of this is done on 32-bit words.
-/
namespace RtThread.Mempool

open Ipc

/-- The `size` bytes at the address lie in the region. -/
def Inside (start len a size : Nat) : Prop := start ≤ a ∧ a + size ≤ start + len

/-- The header of the `i`-th block. -/
def blockAt (mp : RtMempool) (i : Nat) : Addr := wadd 32 mp.startAddress (i * mp.stride)

/-- The aligned size of a block with its header, of any width. -/
def wholeBlock (blockSize : Nat) : Nat :=
  (blockSize + alignSize - 1) / alignSize * alignSize + pointerSize

/-- The size that `rt_mp_create` asks for. -/
def poolBytes (blockCount blockSize : Nat) : Nat :=
  wadd 32 (rtAlign 32 blockSize alignSize) pointerSize * blockCount % 2 ^ 32

/-- The pool keeps to its region: when it is made, with all of its blocks, and in every run. -/
structure Bounded (word : Addr → Option Addr) (start len blockSize : Nat) (s : State) : Prop where
  made : ∀ a, s.word a ≠ word a → Inside start len a pointerSize
  block : ∀ i < s.mp.blockTotalCount, Inside start len (blockAt s.mp i) pointerSize ∧
    Inside start len (wadd 32 (blockAt s.mp i) pointerSize) blockSize
  written : ∀ ops s' op s'', Runs.run step s ops = some s' → step s' op = some s'' →
    ∀ a, s''.word a ≠ s'.word a → Inside start len a pointerSize
  handed : ∀ ops s' b, Runs.run step s ops = some s' → Live s' b →
    Inside start len (header b) pointerSize ∧ Inside start len b blockSize

/-! ## The size of a block -/

section sizes

variable {blockSize : Nat}

theorem wholeBlock_bounds (blockSize : Nat) :
    blockSize + pointerSize ≤ wholeBlock blockSize ∧
      wholeBlock blockSize < blockSize + pointerSize + alignSize ∧
      alignSize ∣ wholeBlock blockSize := by
  simp only [wholeBlock, alignSize, pointerSize]
  omega

theorem stride_whole (h : wholeBlock blockSize < 2 ^ 32) :
    rtAlign 32 blockSize alignSize + pointerSize = wholeBlock blockSize ∧
      wadd 32 (rtAlign 32 blockSize alignSize) pointerSize = wholeBlock blockSize := by
  obtain ⟨hle, -, -⟩ := wholeBlock_bounds blockSize
  have hal : rtAlign 32 blockSize alignSize + pointerSize = wholeBlock blockSize := by
    rw [rtAlign_eq (by simp only [alignSize, pointerSize] at *; omega), wholeBlock]
  exact ⟨hal, (wadd_eq (by rw [hal]; exact h)).trans hal⟩

/-- A block that is too large for a word is none at all, or has no room for data. -/
theorem stride_wrapped (hsize : blockSize < 2 ^ 32) (h : 2 ^ 32 ≤ wholeBlock blockSize) :
    wadd 32 (rtAlign 32 blockSize alignSize) pointerSize = 0 ∨
      wadd 32 (rtAlign 32 blockSize alignSize) pointerSize = 4 ∧ 2 ^ 32 - 4 < blockSize := by
  obtain hlt | hge := Nat.lt_or_ge (2 ^ 32) (blockSize + alignSize)
  · rw [rtAlign_wrapped (by decide) hsize hlt]
    simp only [alignSize] at hlt
    exact .inr ⟨rfl, by omega⟩
  · have hal : rtAlign 32 blockSize alignSize = 2 ^ 32 - 4 := by
      rw [rtAlign_eq (by simp only [alignSize] at *; omega)]
      simp only [wholeBlock, alignSize, pointerSize] at *
      omega
    rw [hal]
    exact .inl rfl

theorem align_dvd_stride (blockSize : Nat) :
    alignSize ∣ wadd 32 (rtAlign 32 blockSize alignSize) pointerSize := by
  have hal : alignSize ∣ rtAlign 32 blockSize alignSize := dvd_rtAlign _ _ _
  rw [wadd, Nat.dvd_mod_iff (by decide)]
  exact Nat.dvd_add hal (by decide)

end sizes

/-! ## The memory of a new pool -/

section list

variable {word : Addr → Option Addr} {start stride count a : Nat}

theorem linkBlocks_ne (h : linkBlocks start stride count word a ≠ word a) :
    ∃ i < count, a = wadd 32 start (i * stride) := by
  induction count with
  | zero => exact absurd rfl h
  | succ n ih =>
    rw [linkBlocks] at h
    by_cases ha : a = wadd 32 start (n * stride)
    · exact ⟨n, Nat.lt_succ_self n, ha⟩
    · rw [Function.update_of_ne ha] at h
      obtain ⟨i, hi, heq⟩ := ih h
      exact ⟨i, Nat.lt_succ_of_lt hi, heq⟩

/-- Only the headers are written, and the end of the list. -/
theorem newList_ne (h : newList start stride count word a ≠ word a) :
    (∃ i < count, a = wadd 32 start (i * stride)) ∨
      a = wsub 32 (wadd 32 start (count * stride)) stride := by
  by_cases ha : a = wsub 32 (wadd 32 start (count * stride)) stride
  · exact .inr ha
  · rw [newList, Function.update_of_ne ha] at h
    exact .inl (linkBlocks_ne h)

theorem newList_end (word : Addr → Option Addr) (start stride count : Nat) :
    newList start stride count word (wsub 32 (wadd 32 start (count * stride)) stride) = none :=
  Function.update_self _ _ _

end list

/-! ## Runs -/

/-- A state of the pool `mp`: what threads hold are the data areas of its blocks. -/
structure Placed (mp : RtMempool) (s : State) : Prop where
  usable : Usable s
  same : blocks s.mp = blocks mp
  live : ∀ b, Live s b → ∃ c ∈ blocks mp, c + pointerSize < 2 ^ 32 ∧ b = c + pointerSize

section runs

variable {mp : RtMempool} {s s' : State} {ret : Option (Option Addr)} {a b : Addr}

theorem Result.same_blocks (hres : Result s s' ret) : Mempool.blocks s'.mp = Mempool.blocks s.mp := by
  cases hres with
  | taken ht hcount hs =>
    obtain ⟨b, -, -, rfl⟩ := take_eq hs
    rfl
  | freed hlive hs =>
    rw [rtMpFree_eq hs]
    rfl
  | refused | wait | failed | timeout | tick => rfl

/-- The first block of the list, while there are free blocks. -/
theorem Placed.first (h : Placed mp s) (hcount : s.mp.blockFreeCount ≠ 0)
    (hb : s.mp.blockList = some b) : b ∈ blocks mp ∧ b + pointerSize < 2 ^ 32 := by
  obtain ⟨free, hinv⟩ | ⟨hzero, -⟩ := h.usable.pool
  · have hchain := hinv.part.chain
    rw [hb] at hchain
    obtain ⟨rest, rfl, -⟩ := hchain.of_some
    have hmem : b ∈ blocks s.mp := hinv.mem_blocks (by simp)
    exact ⟨h.same ▸ hmem, hinv.bound b hmem⟩
  · exact absurd hzero hcount

theorem Placed.header_mem (h : Placed mp s) (hlive : Live s b) :
    header b ∈ blocks mp ∧ b = header b + pointerSize := by
  obtain ⟨c, hc, hlt, rfl⟩ := h.live b hlive
  have hheader : header (c + pointerSize) = c := by
    rw [header, wsub_eq (Nat.le_add_left _ _) hlt, Nat.add_sub_cancel]
  rw [hheader]
  exact ⟨hc, rfl⟩

theorem Placed.result (h : Placed mp s) (hres : Result s s' ret) : Placed mp s' where
  usable := h.usable.result hres
  same := hres.same_blocks.trans h.same
  live := by
    intro b hb
    obtain hold | ⟨c, hcount, hc, rfl⟩ := hres.live hb
    · exact h.live b hold
    · obtain ⟨hmem, hlt⟩ := h.first hcount hc
      exact ⟨c, hmem, hlt, wadd_eq hlt⟩

/-- A step writes to the headers of blocks only. -/
theorem Placed.written (h : Placed mp s) (hres : Result s s' ret) (ha : s'.word a ≠ s.word a) :
    a ∈ blocks mp := by
  cases hres with
  | taken ht hcount hs =>
    obtain ⟨b, hb, -, rfl⟩ := take_eq hs
    by_cases hab : a = b
    · rw [hab]
      exact (h.first hcount hb).1
    · exact absurd (Function.update_of_ne hab _ _) ha
  | @freed block s' hlive hs =>
    rw [rtMpFree_eq hs] at ha
    by_cases hab : a = header block
    · rw [hab]
      exact (h.header_mem hlive).1
    · simp only [Function.update_of_ne hab] at ha
      exact absurd rfl ha
  | refused | wait | failed | timeout | tick => exact absurd rfl ha

theorem Placed.run {ops : List Op} (h : Placed mp s) (hrun : Runs.run step s ops = some s') :
    Placed mp s' := by
  refine Runs.run_invariant (fun s op s' hs hstep => ?_) h hrun
  obtain ⟨⟨s', ret⟩, hcall, rfl⟩ := Option.map_eq_some_iff.mp hstep
  exact hs.result (call_result hcall)

/-- A pool whose blocks lie in the region keeps to it. -/
theorem Placed.bounded {word : Addr → Option Addr} {start len blockSize : Nat}
    (h : Placed s.mp s) (hmade : ∀ a, s.word a ≠ word a → Inside start len a pointerSize)
    (hat : ∀ i < s.mp.blockTotalCount,
      blockAt s.mp i = s.mp.startAddress + i * s.mp.stride ∧
        wadd 32 (blockAt s.mp i) pointerSize = blockAt s.mp i + pointerSize)
    (hblock : ∀ c ∈ blocks s.mp, Inside start len c pointerSize ∧
      Inside start len (c + pointerSize) blockSize) : Bounded word start len blockSize s where
  made := hmade
  block := by
    intro i hi
    obtain ⟨heq, hdata⟩ := hat i hi
    rw [hdata, heq]
    exact hblock _ (List.mem_map.mpr ⟨i, List.mem_range.mpr hi, rfl⟩)
  written := by
    intro ops s' op s'' hrun hstep a ha
    obtain ⟨⟨s'', ret⟩, hcall, rfl⟩ := Option.map_eq_some_iff.mp hstep
    exact (hblock a ((h.run hrun).written (call_result hcall) ha)).1
  handed := by
    intro ops s' b hrun hb
    obtain ⟨hmem, heq⟩ := (h.run hrun).header_mem hb
    obtain ⟨hheader, hdata⟩ := hblock _ hmem
    rw [← heq] at hdata
    exact ⟨hheader, hdata⟩

end runs

/-! ## New pools -/

section pools

variable {mp : RtMempool} {self start len blockSize : Nat} {word : Addr → Option Addr}
  {tick : Tick} {priority : ThreadId → Nat}

/-- The blocks of a pool of the region one behind the other. -/
structure Packed (mp : RtMempool) (start len blockSize : Nat) : Prop where
  origin : mp.startAddress = start
  list : mp.blockList = some start
  count : mp.blockFreeCount = mp.blockTotalCount
  pos : 0 < mp.blockTotalCount
  room : pointerSize + blockSize ≤ mp.stride
  fit : mp.blockTotalCount * mp.stride ≤ len

theorem Packed.sum_lt (h : Packed mp start len blockSize) (hregion : start + len < 2 ^ 32) :
    mp.startAddress + mp.blockTotalCount * mp.stride < 2 ^ 32 := by
  rw [h.origin]
  exact Nat.lt_of_le_of_lt (Nat.add_le_add_left h.fit start) hregion

theorem Packed.inside (h : Packed mp start len blockSize) {c : Addr} (hc : c ∈ blocks mp) :
    Inside start len c pointerSize ∧ Inside start len (c + pointerSize) blockSize := by
  obtain ⟨i, hi, rfl⟩ := List.mem_map.mp hc
  have hle := Nat.mul_le_mul_right mp.stride (Nat.succ_le_of_lt (List.mem_range.mp hi))
  have hroom := h.room
  have hfit := h.fit
  rw [Nat.succ_mul] at hle
  rw [h.origin]
  simp only [Inside]
  omega

theorem Packed.placed (h : Packed mp start len blockSize) (hregion : start + len < 2 ^ 32) :
    Placed mp (fresh self tick priority
      (mp, newList mp.startAddress mp.stride mp.blockTotalCount word)) where
  usable := by
    have hlist : mp.blockList = some mp.startAddress := by
      rw [h.origin]
      exact h.list
    have hinv := @partition_fresh self word tick priority mp (Nat.le_of_add_right_le h.room) h.pos
      (h.sum_lt hregion) hlist h.count
    exact ⟨(Waiters.ok_init priority).balanced (fun _ => rfl) _, .inl ⟨_, hinv⟩,
      fun b hb => absurd hb List.not_mem_nil⟩
  same := rfl
  live := fun b hb => absurd hb List.not_mem_nil

theorem Packed.bounded (h : Packed mp start len blockSize) (hregion : start + len < 2 ^ 32) :
    Bounded word start len blockSize (fresh self tick priority
      (mp, newList mp.startAddress mp.stride mp.blockTotalCount word)) := by
  have hsum := h.sum_lt hregion
  have hmem : ∀ i < mp.blockTotalCount, wadd 32 mp.startAddress (i * mp.stride) ∈ blocks mp := by
    intro i hi
    rw [block_eq hsum (Nat.le_of_lt hi)]
    exact List.mem_map.mpr ⟨i, List.mem_range.mpr hi, rfl⟩
  refine (h.placed hregion).bounded (fun a ha => ?_) (fun i hi => ?_) fun c hc => h.inside hc
  · obtain ⟨i, hi, rfl⟩ | rfl := newList_ne ha
    · exact (h.inside (hmem i hi)).1
    · have hpos := h.pos
      obtain ⟨n, hn⟩ : ∃ n, mp.blockTotalCount = n + 1 := ⟨_, (Nat.succ_pred_eq_of_pos hpos).symm⟩
      have hlast := hmem n (by omega)
      rw [block_eq hsum (by omega)] at hlast
      have hend : wsub 32 (wadd 32 mp.startAddress (mp.blockTotalCount * mp.stride)) mp.stride =
          mp.startAddress + n * mp.stride := by
        rw [wadd_eq hsum, wsub_eq (by rw [hn, Nat.succ_mul]; omega) hsum, hn, Nat.succ_mul,
          ← Nat.add_assoc, Nat.add_sub_cancel]
      rw [hend]
      exact (h.inside hlast).1
  · have heq : blockAt mp i = mp.startAddress + i * mp.stride := block_eq hsum (Nat.le_of_lt hi)
    refine ⟨heq, wadd_eq ?_⟩
    obtain ⟨-, hdata⟩ := h.inside (hmem i hi)
    have hle := hdata.2
    show wadd 32 mp.startAddress (i * mp.stride) + pointerSize < 2 ^ 32
    omega

variable {s : State} {size blockCount : Nat} {rtMalloc : Nat → Option Addr}

theorem fresh_block (h : Bounded word start len blockSize (fresh self tick priority
    (mp, newList start mp.stride mp.blockTotalCount word))) {i : Nat}
    (hi : i < mp.blockTotalCount) :
    Inside start len (blockAt mp i) pointerSize ∧
      Inside start len (wadd 32 (blockAt mp i) pointerSize) blockSize :=
  h.block i hi

/-- A block of no data cannot hold one of the largest sizes. -/
theorem not_inside_whole {a : Addr} (hregion : start + len < 2 ^ 32) (hsize : 2 ^ 32 - 4 < blockSize)
    (hheader : Inside start len a pointerSize) :
    ¬ Inside start len (wadd 32 a pointerSize) blockSize := by
  rintro ⟨hle, hdata⟩
  simp only [Inside, pointerSize] at *
  rw [wadd_eq (by omega)] at hdata
  omega

/-- Where the region has no room for a block, the end of the list is written outside of it. -/
theorem not_made {stride : Nat} (hpos : 0 < stride) (hword : stride < 2 ^ 32)
    (hstart : start < 2 ^ 32)
    (h : Inside start size (wsub 32 (wadd 32 start (0 * stride)) stride) pointerSize) :
    2 ^ 32 + pointerSize ≤ size + stride := by
  rw [Nat.zero_mul, wadd_eq hstart, Nat.add_zero] at h
  obtain ⟨hle, hend⟩ := h
  obtain hge | hlt := Nat.lt_or_ge start stride
  · have heq : wsub 32 start stride = start + 2 ^ 32 - stride := Nat.mod_eq_of_lt (by omega)
    omega
  · rw [wsub_eq hlt hstart] at hle
    omega

theorem init_some (hstart : start ≠ 0) (hsize : 0 < size) (hblock : 0 < blockSize)
    (hstride : (newPool start size blockSize).stride ≠ 0) :
    init self word start size blockSize tick priority = some (fresh self tick priority
      (newPool start size blockSize, newList start (newPool start size blockSize).stride
        (newPool start size blockSize).blockTotalCount word)) := by
  have hassert : ¬ (start = 0 ∨ size = 0 ∨ blockSize = 0) := by omega
  have hstride : ¬ wadd 32 (rtAlign 32 blockSize alignSize) pointerSize = 0 := hstride
  simp only [init, rtMpInit, if_neg hassert, if_neg hstride, Option.map_some]
  rfl

theorem init_bounded_iff (hstart : start ≠ 0) (hsize : 0 < size) (hblock : 0 < blockSize)
    (hword : blockSize < 2 ^ 32) (hregion : start + size < 2 ^ 32) :
    (∀ word, ∃ s, init self word start size blockSize tick priority = some s ∧
        Bounded word start size blockSize s) ↔
      wholeBlock blockSize < 2 ^ 32 ∧ (wholeBlock blockSize ≤ size ∨
        2 ^ 32 + pointerSize ≤ size + wholeBlock blockSize) := by
  obtain ⟨hle, -, hdvd⟩ := wholeBlock_bounds blockSize
  have hdown : alignSize ∣ rtAlignDown size alignSize ∧ rtAlignDown size alignSize ≤ size ∧
      size < rtAlignDown size alignSize + alignSize := by
    simp only [rtAlignDown, alignSize]
    omega
  constructor
  · intro h
    obtain ⟨s, hinit, hb⟩ := h fun _ => some 0
    obtain ⟨hstride, rfl⟩ := init_eq hinit
    have hend : (newPool start size blockSize).blockTotalCount = 0 →
        Inside start size (wsub 32 (wadd 32 start (0 * (newPool start size blockSize).stride))
          (newPool start size blockSize).stride) pointerSize := by
      intro hzero
      refine hb.made _ ?_
      have hnone := newList_end (fun _ => some 0) start (newPool start size blockSize).stride 0
      simp only [fresh, hzero]
      rw [hnone]
      exact (Option.some_ne_none 0).symm
    obtain hlt | hge := Nat.lt_or_ge (wholeBlock blockSize) (2 ^ 32)
    · refine ⟨hlt, ?_⟩
      by_contra hno
      obtain ⟨hroom, hno⟩ := not_or.mp hno
      have hwhole : (newPool start size blockSize).stride = wholeBlock blockSize :=
        (stride_whole hlt).2
      have hzero : (newPool start size blockSize).blockTotalCount = 0 := by
        refine Nat.eq_zero_of_not_pos fun hpos => hroom ?_
        have hfit := (blockTotalCount_pos hstride).mp hpos
        rw [(stride_whole hlt).1] at hfit
        exact hfit.trans hdown.2.1
      have hlast := hend hzero
      rw [hwhole] at hlast
      exact hno (not_made (Nat.lt_of_lt_of_le hblock (Nat.le_of_add_right_le hle)) hlt (by omega)
        hlast)
    · obtain hzero | ⟨hfour, hlarge⟩ := stride_wrapped hword hge
      · exact absurd hzero hstride
      · have hfour : (newPool start size blockSize).stride = 4 := hfour
        obtain hzero | hpos := Nat.eq_zero_or_pos (newPool start size blockSize).blockTotalCount
        · have hlast := hend hzero
          have hroom : size < 4 := by
            by_contra hge
            have hcount : (newPool start size blockSize).blockTotalCount =
                rtAlignDown size alignSize / (newPool start size blockSize).stride := rfl
            rw [hzero, hfour] at hcount
            simp only [alignSize] at hdown hcount
            omega
          rw [hfour] at hlast
          have hcontra := not_made (by decide) (by decide) (by omega) hlast
          omega
        · obtain ⟨hheader, hdata⟩ := fresh_block hb hpos
          exact absurd hdata (not_inside_whole hregion hlarge hheader)
  · rintro ⟨hlt, hroom⟩ word
    obtain ⟨hal, hwhole⟩ := stride_whole hlt
    have hwhole : (newPool start size blockSize).stride = wholeBlock blockSize := hwhole
    have hstride : (newPool start size blockSize).stride ≠ 0 := by
      omega
    refine ⟨_, init_some hstart hsize hblock hstride, ?_⟩
    obtain hpos | hzero := Nat.eq_zero_or_pos (newPool start size blockSize).blockTotalCount |>.symm
    · have hpacked : Packed (newPool start size blockSize) start size blockSize :=
        ⟨rfl, rfl, rfl, hpos, by rw [hwhole]; omega,
          (Nat.div_mul_le_self _ _).trans (Nat.div_mul_le_self _ _)⟩
      exact hpacked.bounded hregion
    · have hsmall : size < wholeBlock blockSize := by
        by_contra hge
        have hno := (blockTotalCount_pos hstride).not.mp (by omega)
        rw [hal] at hno
        simp only [alignSize] at hdown hdvd hno
        omega
      have hplaced : Placed (newPool start size blockSize) (fresh self tick priority
          (newPool start size blockSize, newList start (newPool start size blockSize).stride
            (newPool start size blockSize).blockTotalCount word)) :=
        ⟨⟨(Waiters.ok_init priority).balanced (fun _ => rfl) _, .inr ⟨hzero, rfl⟩,
          fun b hb => absurd hb List.not_mem_nil⟩, rfl, fun b hb => absurd hb List.not_mem_nil⟩
      have hnone : blocks (newPool start size blockSize) = [] := by
        rw [blocks, hzero]
        rfl
      refine hplaced.bounded (fun a ha => ?_) (fun i hi => ?_) fun c hc => ?_
      · rw [hzero, hwhole] at ha
        obtain ⟨i, hi, -⟩ | rfl := newList_ne ha
        · omega
        · have heq : wsub 32 (wadd 32 start (0 * wholeBlock blockSize)) (wholeBlock blockSize) =
              start + 2 ^ 32 - wholeBlock blockSize := by
            rw [Nat.zero_mul, wadd_eq (by omega), wsub, Nat.mod_eq_of_lt (by omega)]
            rfl
          rw [heq, Inside]
          omega
      · have hi : i < (newPool start size blockSize).blockTotalCount := hi
        omega
      · have hc : c ∈ blocks (newPool start size blockSize) := hc
        rw [hnone] at hc
        exact absurd hc List.not_mem_nil

/-- Where the sizes of the blocks go round, some block lies outside of what was allocated. -/
theorem not_packed (hcount : 0 < blockCount) (hword : blockSize < 2 ^ 32)
    (hregion : start + poolBytes blockCount blockSize < 2 ^ 32)
    (hstride : mp.stride = wadd 32 (rtAlign 32 blockSize alignSize) pointerSize)
    (hstart : mp.startAddress = start) (hwrap : 2 ^ 32 ≤ wholeBlock blockSize * blockCount)
    (h : ∀ i < blockCount, Inside start (poolBytes blockCount blockSize) (blockAt mp i) pointerSize ∧
      Inside start (poolBytes blockCount blockSize) (wadd 32 (blockAt mp i) pointerSize)
        blockSize) : False := by
  obtain ⟨-, hbelow, -⟩ := wholeBlock_bounds blockSize
  have hmultiple : alignSize ∣ poolBytes blockCount blockSize := by
    rw [poolBytes, Nat.dvd_mod_iff (by decide)]
    exact (align_dvd_stride blockSize).mul_right _
  simp only [alignSize] at hbelow hmultiple
  obtain hlt | hge := Nat.lt_or_ge (wholeBlock blockSize) (2 ^ 32)
  · obtain ⟨-, hwhole⟩ := stride_whole hlt
    rw [hwhole] at hstride
    have hpos : 0 < wholeBlock blockSize := Nat.pos_of_mul_pos_right (Nat.lt_of_lt_of_le
      (Nat.two_pow_pos 32) hwrap)
    have hlast : (2 ^ 32 - 1) / wholeBlock blockSize < blockCount := by
      rw [Nat.div_lt_iff_lt_mul hpos, Nat.mul_comm]
      omega
    obtain ⟨hheader, hdata⟩ := h _ hlast
    have hbound : (2 ^ 32 - 1) / wholeBlock blockSize * wholeBlock blockSize ≤ 2 ^ 32 - 1 :=
      Nat.div_mul_le_self _ _
    have hnext : 2 ^ 32 - 1 <
        (2 ^ 32 - 1) / wholeBlock blockSize * wholeBlock blockSize + wholeBlock blockSize :=
      Nat.lt_div_mul_add hpos
    rw [blockAt, hstart, hstride] at hheader hdata
    generalize (2 ^ 32 - 1) / wholeBlock blockSize * wholeBlock blockSize = offset at *
    obtain hfit | hround := Nat.lt_or_ge (start + offset) (2 ^ 32)
    · rw [wadd_eq hfit] at hheader hdata
      simp only [Inside, pointerSize] at hheader hdata hbelow
      rw [wadd_eq (by omega)] at hdata
      omega
    · have heq : wadd 32 start offset = start + offset - 2 ^ 32 := by
        rw [wadd, Nat.mod_eq_sub_mod hround, Nat.mod_eq_of_lt (by omega)]
      rw [heq] at hheader
      have hbefore := hheader.1
      omega
  · obtain ⟨hheader, hdata⟩ := h 0 hcount
    obtain hzero | ⟨-, hlarge⟩ := stride_wrapped hword hge
    · have hnone : poolBytes blockCount blockSize = 0 := by
        rw [poolBytes, hzero, Nat.zero_mul, Nat.zero_mod]
      rw [hnone] at hheader
      simp only [Inside, pointerSize] at hheader
      omega
    · exact absurd hdata (not_inside_whole hregion hlarge hheader)

theorem create_bounded_iff (hcount : 0 < blockCount) (hblock : 0 < blockSize)
    (hword : blockSize < 2 ^ 32) (hmalloc : rtMalloc (poolBytes blockCount blockSize) = some start)
    (hregion : start + poolBytes blockCount blockSize < 2 ^ 32) :
    (∀ word, ∃ s, create self rtMalloc word blockCount blockSize tick priority = some s ∧
        Bounded word start (poolBytes blockCount blockSize) blockSize s) ↔
      wholeBlock blockSize * blockCount < 2 ^ 32 := by
  have hassert : ¬ (blockCount = 0 ∨ blockSize = 0) := by omega
  have hmalloc' : rtMalloc (wadd 32 (rtAlign 32 blockSize alignSize) pointerSize * blockCount %
      2 ^ 32) = some start := hmalloc
  have hcreate : ∀ word, create self rtMalloc word blockCount blockSize tick priority =
      some (fresh self tick priority (⟨start, poolBytes blockCount blockSize,
        rtAlign 32 blockSize alignSize, some start, blockCount, blockCount⟩,
        newList start (wadd 32 (rtAlign 32 blockSize alignSize) pointerSize) blockCount word)) := by
    intro word
    simp only [create, rtMpCreate, if_neg hassert, hmalloc', Option.map_some]
    rfl
  constructor
  · intro h
    by_contra hno
    obtain ⟨s, hs, hb⟩ := h fun _ => none
    rw [hcreate] at hs
    cases hs
    exact not_packed hcount hword hregion rfl rfl (Nat.le_of_not_lt hno) fun i hi => hb.block i hi
  · intro hfit word
    have hlt : wholeBlock blockSize < 2 ^ 32 :=
      Nat.lt_of_le_of_lt (Nat.le_mul_of_pos_right _ hcount) hfit
    obtain ⟨hal, hwhole⟩ := stride_whole hlt
    obtain ⟨hle, -, -⟩ := wholeBlock_bounds blockSize
    have hbytes : poolBytes blockCount blockSize = blockCount * wholeBlock blockSize := by
      rw [poolBytes, hwhole, Nat.mod_eq_of_lt hfit, Nat.mul_comm]
    refine ⟨_, hcreate word, ?_⟩
    have hpacked : Packed ⟨start, poolBytes blockCount blockSize, rtAlign 32 blockSize alignSize,
        some start, blockCount, blockCount⟩ start (poolBytes blockCount blockSize) blockSize := by
      refine ⟨rfl, rfl, rfl, hcount, ?_, ?_⟩
      · simp only [RtMempool.stride, hwhole]
        omega
      · simp only [RtMempool.stride, hwhole]
        exact Nat.le_of_eq hbytes.symm
    exact hpacked.bounded hregion

/-- A pool keeps to its region in every run if and only if the size of a whole block fits into a
word and the region holds a block, for `rt_mp_init`, and if and only if the size of all blocks
fits into a word, for `rt_mp_create`. A region without a block is harmless only where the end of
the list comes round into it. -/
theorem pool_bounded_iff (self blockSize : Nat) (tick : Tick) (priority : ThreadId → Nat)
    (hblock : 0 < blockSize) (hword : blockSize < 2 ^ 32) :
    (∀ start size, start ≠ 0 → 0 < size → start + size < 2 ^ 32 →
      ((∀ word, ∃ s, init self word start size blockSize tick priority = some s ∧
          Bounded word start size blockSize s) ↔
        wholeBlock blockSize < 2 ^ 32 ∧ (wholeBlock blockSize ≤ size ∨
          2 ^ 32 + pointerSize ≤ size + wholeBlock blockSize))) ∧
    ∀ (rtMalloc : Nat → Option Addr) (blockCount start : Nat), 0 < blockCount →
      rtMalloc (poolBytes blockCount blockSize) = some start →
      start + poolBytes blockCount blockSize < 2 ^ 32 →
      ((∀ word, ∃ s, create self rtMalloc word blockCount blockSize tick priority = some s ∧
          Bounded word start (poolBytes blockCount blockSize) blockSize s) ↔
        wholeBlock blockSize * blockCount < 2 ^ 32) :=
  ⟨fun _ _ hstart hsize hregion => init_bounded_iff hstart hsize hblock hword hregion,
    fun _ _ _ hcount hmalloc hregion =>
      create_bounded_iff hcount hblock hword hmalloc hregion⟩

/-- Blocks of four bytes in a region of 20 bytes, and two of them from the heap. -/
theorem pool_bounded_small :
    (∀ word, ∃ s, init 8 word 100 20 4 0 id = some s ∧ Bounded word 100 20 4 s) ∧
      ∀ word, ∃ s, create 8 (fun _ => some 200) word 2 4 0 id = some s ∧
        Bounded word 200 16 4 s := by
  obtain ⟨hinit, hcreate⟩ := pool_bounded_iff 8 4 0 id (by decide) (by decide)
  exact ⟨(hinit 100 20 (by decide) (by decide) (by decide)).mpr (by decide),
    (hcreate (fun _ => some 200) 2 200 (by decide) rfl (by decide)).mpr (by decide)⟩

/-- A region of four bytes for blocks of four bytes, and `2 ^ 29 + 1` blocks of four bytes, for
which eight bytes are allocated. -/
theorem pool_not_bounded :
    (¬ ∀ start size blockSize : Nat, start ≠ 0 → 0 < size → start + size < 2 ^ 32 → 0 < blockSize →
      blockSize < 2 ^ 32 → ∀ word, ∃ s, init 8 word start size blockSize 0 id = some s ∧
        Bounded word start size blockSize s) ∧
    ¬ ∀ (rtMalloc : Nat → Option Addr) (blockCount blockSize start : Nat), 0 < blockCount →
      0 < blockSize → blockSize < 2 ^ 32 → rtMalloc (poolBytes blockCount blockSize) = some start →
      start + poolBytes blockCount blockSize < 2 ^ 32 →
      ∀ word, ∃ s, create 8 rtMalloc word blockCount blockSize 0 id = some s ∧
        Bounded word start (poolBytes blockCount blockSize) blockSize s := by
  constructor
  · intro h
    have hall := h 100 4 4 (by decide) (by decide) (by decide) (by decide) (by decide)
    exact absurd ((init_bounded_iff (by decide) (by decide) (by decide) (by decide)
      (by decide)).mp hall) (by decide)
  · intro h
    have hall := h (fun _ => some 100) (2 ^ 29 + 1) 4 100 (by decide) (by decide) (by decide) rfl
      (by decide)
    have hround : ¬ wholeBlock 4 * (2 ^ 29 + 1) < 2 ^ 32 := by decide
    exact hround ((create_bounded_iff (by decide) (by decide) (by decide) (by rfl)
      (by decide)).mp hall)

end pools

end RtThread.Mempool
