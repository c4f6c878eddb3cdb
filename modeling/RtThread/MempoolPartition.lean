import RtThread.Lib.Chain
import RtThread.Mempool

/-!
# The blocks of a memory pool

Every block of a pool is in `block_list` once or in the hands of one thread. A block
that is freed wakes the first waiting thread but is not handed over to it; while a
thread waits, the free blocks are at most the threads that have been woken and have not
looked again.
-/
namespace RtThread.Mempool

open Function (update_eq_self update_of_ne update_self)
open Ipc Counting LinkedChain

def RtMempool.stride (mp : RtMempool) : Nat := wadd 32 mp.blockSize pointerSize

/-- The addresses of the blocks. -/
def blocks (mp : RtMempool) : List Addr :=
  (List.range mp.blockTotalCount).map fun i => mp.startAddress + i * mp.stride

/-- The block of a pointer that `rt_mp_alloc` has returned. -/
def header (block : Addr) : Addr := wsub 32 block pointerSize

/-- The blocks in the hands of threads. -/
def handed (s : State) : List Addr := s.hands.map fun p => header p.2

/-- `free` is `block_list`; together with the blocks that have been handed out it makes up the
pool. -/
structure Partition (s : State) (free : List Addr) : Prop where
  chain : Chain s.word s.mp.blockList free
  count : s.mp.blockFreeCount = free.length
  all : (free ++ handed s).Perm (blocks s.mp)
  nodup : (free ++ handed s).Nodup
  back : ∀ b ∈ handed s, s.word b = some s.self

/-! ## The blocks of a new pool -/

section init

variable {word : Addr → Option Addr} {start stride n i : Nat}

/-- The blocks of a region that does not go round lie one behind the other. -/
theorem block_eq (hfit : start + n * stride < 2 ^ 32) (hi : i ≤ n) :
    wadd 32 start (i * stride) = start + i * stride :=
  wadd_eq (Nat.lt_of_le_of_lt (Nat.add_le_add_left (Nat.mul_le_mul_right stride hi) start) hfit)

theorem linkBlocks_eq (hstride : 0 < stride) (hfit : start + n * stride < 2 ^ 32) (hi : i < n) :
    linkBlocks start stride n word (start + i * stride) = some (start + (i + 1) * stride) := by
  induction n with
  | zero => omega
  | succ n ih =>
    rw [linkBlocks, block_eq hfit (Nat.le_succ n)]
    by_cases hin : i = n
    · subst hin
      rw [update_self, block_eq hfit (Nat.le_refl _)]
    · have hne : start + i * stride ≠ start + n * stride := by
        intro heq
        exact hin (Nat.eq_of_mul_eq_mul_right hstride (Nat.add_left_cancel heq))
      rw [update_of_ne hne]
      rw [Nat.succ_mul] at hfit
      exact ih (by omega) (by omega)

/-- The blocks from the `i`-th one on, when the link of the last one has been cut. -/
theorem chain_linkBlocks (word : Addr → Option Addr) (start : Nat) (hstride : 0 < stride)
    (hfit : start + (n + 1) * stride < 2 ^ 32) (k : Nat) (hk : i + k = n) :
    Chain (Function.update (linkBlocks start stride (n + 1) word) (start + n * stride) none)
      (some (start + i * stride))
      ((List.range' i (k + 1)).map fun j => start + j * stride) := by
  induction k generalizing i with
  | zero =>
    obtain rfl : i = n := hk
    refine ⟨rfl, ?_⟩
    rw [update_self]
    exact chain_nil
  | succ k ih =>
    have hne : start + i * stride ≠ start + n * stride := by
      intro heq
      have := Nat.eq_of_mul_eq_mul_right hstride (Nat.add_left_cancel heq)
      omega
    refine ⟨rfl, ?_⟩
    rw [update_of_ne hne, linkBlocks_eq hstride hfit (by omega)]
    exact ih (by omega)

theorem nodup_blocks {mp : RtMempool} (hstride : 0 < mp.stride) : (blocks mp).Nodup := by
  refine List.Nodup.map (fun i j heq => ?_) List.nodup_range
  exact Nat.eq_of_mul_eq_mul_right hstride (Nat.add_left_cancel heq)

/-- The last byte of the header of a block is in the region. -/
theorem blocks_bound {mp : RtMempool} {top : Nat} (hstride : pointerSize ≤ mp.stride)
    (hfit : mp.startAddress + mp.blockTotalCount * mp.stride ≤ top) :
    ∀ b ∈ blocks mp, b + pointerSize ≤ top := by
  intro b hb
  obtain ⟨i, hi, rfl⟩ := List.mem_map.mp hb
  have hi := List.mem_range.mp hi
  have hle : (i + 1) * mp.stride ≤ mp.blockTotalCount * mp.stride :=
    Nat.mul_le_mul_right _ hi
  calc mp.startAddress + i * mp.stride + pointerSize
      ≤ mp.startAddress + (i * mp.stride + mp.stride) := by
        rw [Nat.add_assoc]
        exact Nat.add_le_add_left (Nat.add_le_add_left hstride _) _
    _ = mp.startAddress + (i + 1) * mp.stride := by rw [Nat.succ_mul]
    _ ≤ mp.startAddress + mp.blockTotalCount * mp.stride := Nat.add_le_add_left hle _
    _ ≤ top := hfit

end init

/-! ## Taking and freeing a block -/

/-- The invariant of a run: the partition, with what keeps the arithmetic of the pool within a
word. -/
structure Inv (s : State) (free : List Addr) : Prop where
  part : Partition s free
  total : s.mp.blockTotalCount < 2 ^ 32
  bound : ∀ b ∈ blocks s.mp, b + pointerSize < 2 ^ 32

section steps

variable {s s' : State} {free : List Addr} {t : ThreadId} {b : Addr}

theorem header_wadd (hb : b + pointerSize < 2 ^ 32) : header (wadd 32 b pointerSize) = b := by
  rw [header, wadd_eq hb, wsub_eq (Nat.le_add_left _ _) hb, Nat.add_sub_cancel]

theorem Inv.length_lt (h : Inv s free) : free.length < 2 ^ 32 := by
  have hlen := h.part.all.length_eq
  rw [List.length_append, blocks, List.length_map, List.length_range] at hlen
  have := h.total
  omega

theorem Inv.mem_blocks (h : Inv s free) (hb : b ∈ free ++ handed s) : b ∈ blocks s.mp :=
  h.part.all.mem_iff.mp hb

theorem Inv.count_lt (h : Inv s free) : s.mp.blockFreeCount < 2 ^ 32 := by
  rw [h.part.count]
  exact h.length_lt

/-- The first block of the list goes into the hands of a thread. -/
theorem Inv.take (h : Inv s free) (hb : s.mp.blockList = some b) :
    ∃ free', free = b :: free' ∧
      Inv { s with
        mp := { s.mp with
          blockFreeCount := wsub 32 s.mp.blockFreeCount 1
          blockList := s.word b }
        word := Function.update s.word b (some s.self)
        hands := (t, wadd 32 b pointerSize) :: s.hands } free' := by
  have hchain := h.part.chain
  rw [hb] at hchain
  obtain ⟨free', rfl, hrest⟩ := hchain.of_some
  have hnd := h.part.nodup
  rw [List.cons_append, List.nodup_cons, List.mem_append, not_or] at hnd
  obtain ⟨⟨hfree, hhanded⟩, hnd⟩ := hnd
  have hbound : b + pointerSize < 2 ^ 32 := h.bound b (h.mem_blocks (by simp))
  have hlt := h.length_lt
  have hcount : wsub 32 s.mp.blockFreeCount 1 = free'.length := by
    rw [h.part.count, wsub_eq (by simp) hlt, List.length_cons, Nat.add_sub_cancel]
  have hperm : (free' ++ (b :: handed s)).Perm (b :: free' ++ handed s) := List.perm_middle
  have hhands : ∀ w mp, handed ⟨s.self, mp, w, s.tick, s.waiters, s.call,
      (t, wadd 32 b pointerSize) :: s.hands⟩ = b :: handed s := by
    intro w mp
    rw [handed, List.map_cons, header_wadd hbound, handed]
  refine ⟨free', rfl, ⟨hrest.update hfree _, hcount, ?_, ?_, ?_⟩, h.total, h.bound⟩
  · rw [hhands]
    exact hperm.trans h.part.all
  · rw [hhands]
    exact hperm.nodup_iff.mpr h.part.nodup
  · rw [hhands]
    intro c hc
    obtain rfl | hc := List.mem_cons.mp hc
    · exact update_self _ _ _
    · have hcb : c ≠ b := fun heq => hhanded (heq ▸ hc)
      exact (update_of_ne hcb _ _).trans (h.part.back c hc)

theorem handed_erase {hands : List (ThreadId × Addr)} {block : Addr}
    (hlive : block ∈ hands.map Prod.snd) :
    (hands.map fun p => header p.2).Perm
      (header block :: (hands.eraseP (·.2 = block)).map fun p => header p.2) := by
  obtain ⟨p, hp, rfl⟩ := List.mem_map.mp hlive
  obtain ⟨q, l₁, l₂, -, hq, heq, herase⟩ :=
    List.exists_of_eraseP (p := fun q => decide (q.2 = p.2)) hp (by simp)
  have hq : q.2 = p.2 := by simpa using hq
  rw [herase, heq, List.map_append, List.map_append, List.map_cons, hq]
  exact List.perm_middle

theorem Inv.header_eq (h : Inv s free) {block : Addr} (hlive : Live s block) :
    s.word (header block) = some s.self := by
  obtain ⟨p, hp, rfl⟩ := List.mem_map.mp hlive
  exact h.part.back _ (List.mem_map_of_mem (f := fun p : ThreadId × Addr => header p.2) hp)

/-- A block in the hands of a thread goes to the front of the list. -/
theorem Inv.freed (h : Inv s free) {block : Addr} (hlive : Live s block) (w : Waiters Unit) :
    Inv { s with
      mp := { s.mp with
        blockFreeCount := wadd 32 s.mp.blockFreeCount 1
        blockList := some (header block) }
      word := Function.update s.word (header block) s.mp.blockList
      waiters := w
      hands := s.hands.eraseP (·.2 = block) } (header block :: free) := by
  have herase := handed_erase hlive
  generalize hb : header block = b at *
  have hperm : (free ++ handed s).Perm
      (b :: free ++ (s.hands.eraseP (·.2 = block)).map fun p => header p.2) :=
    (herase.append_left free).trans List.perm_middle
  have hnd := hperm.nodup_iff.mp h.part.nodup
  have hmem : b ∉ free ∧ b ∉ (s.hands.eraseP (·.2 = block)).map fun p => header p.2 := by
    rw [List.cons_append, List.nodup_cons, List.mem_append, not_or] at hnd
    exact hnd.1
  have hlen : free.length + 1 < 2 ^ 32 := by
    have hlen := (hperm.symm.trans h.part.all).length_eq
    simp only [List.length_append, List.length_cons, blocks, List.length_map,
      List.length_range] at hlen
    have := h.total
    omega
  have hcount : wadd 32 s.mp.blockFreeCount 1 = (b :: free).length := by
    rw [h.part.count, wadd_eq hlen, List.length_cons]
  refine ⟨⟨h.part.chain.push hmem.1, hcount, hperm.symm.trans h.part.all, hnd, ?_⟩, h.total,
    h.bound⟩
  intro c hc
  have hcb : c ≠ b := fun heq => hmem.2 (heq ▸ hc)
  refine (update_of_ne hcb _ _).trans (h.part.back c ?_)
  exact herase.mem_iff.mpr (List.mem_cons_of_mem b hc)

/-- The partition is about the pool and the memory only. -/
theorem Inv.same (h : Inv s free) (tick : Tick) (w : Waiters Unit) (call : ThreadId → Call) :
    Inv { s with tick := tick, waiters := w, call := call } free :=
  ⟨⟨h.part.chain, h.part.count, h.part.all, h.part.nodup, h.part.back⟩, h.total, h.bound⟩

end steps

/-! ## Steps -/

/-- What a thread in `rt_mp_alloc` waits for. -/
def Call.role : Call → Option Unit
  | .outside => none
  | .allocating _ _ => some ()

def role (s : State) (t : ThreadId) : Option Unit := (s.call t).role

theorem role_of_call {s s' : State} {t : ThreadId} {c : Call}
    (h : s'.call = Function.update s.call t c) : role s' = Function.update (role s) t c.role := by
  funext u
  rw [role, h]
  by_cases hu : u = t
  · subst hu
    simp
  · simp [role, hu]

theorem unit_role (x : Option Unit) : x = none ∨ x = some () := by
  cases x with
  | none => exact .inl rfl
  | some u => exact .inr rfl

/-- What a step can do. -/
inductive Result (s : State) : State → Option (Option Addr) → Prop
  | taken {t : ThreadId} {s' : State} {ret : Option (Option Addr)}
      (ht : (s.waiters.thread t).suspended = false) (hcount : s.mp.blockFreeCount ≠ 0)
      (hs : take s t = some (s', ret)) : Result s s' ret
  | refused {t : ThreadId} (ht : (s.waiters.thread t).suspended = false)
      (hcount : s.mp.blockFreeCount = 0) :
    Result s (setCall { s with waiters := s.waiters.setError t .etimeout } t .outside) (some none)
  | wait {t : ThreadId} {time : BitVec 32} {w : Waiters Unit}
      (ht : (s.waiters.thread t).suspended = false) (hcount : s.mp.blockFreeCount = 0)
      (hw : s.waiters.blockFront () t time = some w) :
    Result s (setCall { s with waiters := w } t (.allocating time s.tick)) none
  | failed {t : ThreadId} (ht : (s.waiters.thread t).suspended = false)
      (herr : (s.waiters.thread t).error ≠ .eok) :
    Result s (setCall s t .outside) (some none)
  | freed {block : Addr} {s' : State} (hlive : Live s block) (hs : rtMpFree s block = some s') :
    Result s s' none
  | timeout {t : ThreadId} (ht : (s.waiters.thread t).timerActive = true) :
    Result s { s with waiters := s.waiters.timeout t } none
  | tick : Result s { s with tick := s.tick + 1 } none

section results

variable {s s' : State} {ret : Option (Option Addr)} {t : ThreadId} {free : List Addr} {b : Addr}

theorem rtMpAlloc_result {time : BitVec 32} (ht : (s.waiters.thread t).suspended = false)
    (h : rtMpAlloc s t time = some (s', ret)) : Result s s' ret := by
  rw [rtMpAlloc] at h
  split at h
  · rename_i hcount
    split at h
    · cases h
      exact .refused ht hcount
    · obtain ⟨w, hw, heq⟩ := Option.map_eq_some_iff.mp h
      cases heq
      exact .wait ht hcount hw
  · exact .taken ht (by assumption) h

theorem call_result {op : Op} (h : call s op = some (s', ret)) : Result s s' ret := by
  cases op with
  | alloc t time =>
    simp only [call] at h
    split at h
    · rename_i hact
      exact rtMpAlloc_result hact.1 h
    · cases h
  | switchBack t =>
    simp only [call] at h
    split at h
    · rename_i ht
      rw [switchBack] at h
      cases hc : s.call t with
      | outside => simp [hc] at h
      | allocating time since =>
        simp only [hc] at h
        split at h
        · cases h
          exact .failed ht (by assumption)
        · exact rtMpAlloc_result ht h
    · cases h
  | free t block =>
    simp only [call] at h
    split at h
    · rename_i hact
      obtain ⟨s'', hs, heq⟩ := Option.map_eq_some_iff.mp h
      cases heq
      exact .freed hact.2 hs
    · cases h
  | timeout t =>
    simp only [call] at h
    split at h
    · cases h
      exact .timeout (by assumption)
    · cases h
  | tickIncrease =>
    cases h
    exact .tick

theorem take_eq (h : take s t = some (s', ret)) :
    ∃ b, s.mp.blockList = some b ∧ ret = some (some (wadd 32 b pointerSize)) ∧
      s' = { s with
        mp := { s.mp with
          blockFreeCount := wsub 32 s.mp.blockFreeCount 1
          blockList := s.word b }
        word := Function.update s.word b (some s.self)
        call := Function.update s.call t .outside
        hands := (t, wadd 32 b pointerSize) :: s.hands } := by
  obtain ⟨b, hb, heq⟩ := Option.map_eq_some_iff.mp h
  obtain ⟨hs, hret⟩ := Prod.mk.inj heq
  exact ⟨b, hb, hret.symm, hs.symm⟩

theorem rtMpFree_eq {block : Addr} (h : rtMpFree s block = some s') :
    s' = { s with
      mp := { s.mp with
        blockFreeCount := wadd 32 s.mp.blockFreeCount 1
        blockList := some (header block) }
      word := Function.update s.word (header block) s.mp.blockList
      waiters := resumeFirst s.waiters
      hands := s.hands.eraseP (·.2 = block) } := by
  simp only [rtMpFree] at h
  split at h
  · exact (Option.some.inj h).symm
  · cases h

theorem Result.inv (hres : Result s s' ret) (h : Inv s free) : ∃ free', Inv s' free' := by
  cases hres with
  | taken ht hcount hs =>
    obtain ⟨b, hb, -, rfl⟩ := take_eq hs
    obtain ⟨free', -, hinv⟩ := h.take hb
    exact ⟨free', hinv.same _ _ _⟩
  | refused | wait | failed | timeout | tick => exact ⟨free, h.same _ _ _⟩
  | freed hlive hs =>
    rw [rtMpFree_eq hs]
    exact ⟨_, h.freed hlive _⟩

/-- The first thread of the list has the error number `RT_EOK` already. -/
theorem resumeFirst_eq {w : Waiters Unit} {role : ThreadId → Option Unit} (h : w.Ok role) :
    resumeFirst w = w.wake () := by
  rw [resumeFirst]
  cases hl : w.list () with
  | nil => exact (Waiters.wake_nil hl).symm
  | cons u us =>
    have herr := (h.waits () u (by simp [hl])).2.1
    have hsame : w.setError u .eok = w := by
      rw [Waiters.setError, Ipc.setError, ← herr, update_eq_self]
    show (w.setError u .eok).wake () = w.wake ()
    rw [hsame]

/-- While a thread waits there are at most as many free blocks as woken threads. -/
def Balance (s : State) : Prop :=
  s.waiters.Balanced (role s) fun _ => s.mp.blockFreeCount

theorem balance_of_call {c : Call} (hcall : s'.call = Function.update s.call t c)
    (h : s'.waiters.Balanced (Function.update (role s) t c.role) fun _ => s'.mp.blockFreeCount) :
    Balance s' := by
  rw [Balance, role_of_call hcall]
  exact h

theorem Result.balance (hres : Result s s' ret) (hlt : s.mp.blockFreeCount < 2 ^ 32)
    (hb : Balance s) : Balance s' := by
  cases hres with
  | taken ht hcount hs =>
    obtain ⟨b, -, -, rfl⟩ := take_eq hs
    have hsub : wsub 32 s.mp.blockFreeCount 1 = s.mp.blockFreeCount - 1 :=
      wsub_eq (by omega) hlt
    refine balance_of_call rfl ((Waiters.Balanced.leave hb ht (unit_role _)).le fun r => ?_)
    rw [hsub, update_self]
  | refused ht hcount =>
    exact balance_of_call rfl (Waiters.Balanced.refuse hb ht (unit_role _) hcount .etimeout)
  | wait ht hcount hw =>
    exact balance_of_call rfl
      (Waiters.Balanced.joins hb ht (unit_role _) hcount (Waiters.blockFront_eq ht hw))
  | failed ht herr =>
    exact balance_of_call rfl (Waiters.Balanced.leave_idle hb ht (.inr herr))
  | freed hlive hs =>
    rw [rtMpFree_eq hs, resumeFirst_eq (Waiters.Balanced.ok hb)]
    refine Waiters.Balanced.le (Waiters.Balanced.wake hb ()) fun r => ?_
    exact Nat.mod_le _ _
  | timeout ht => exact Waiters.Balanced.timeout hb ht
  | tick => exact hb

/-- A block that is handed out was in nobody's hands. -/
theorem Result.once (hres : Result s s' (some (some b))) (h : Inv s free) : ¬ Live s b := by
  cases hres with
  | taken ht hcount hs =>
    obtain ⟨c, hc, hret, -⟩ := take_eq hs
    obtain rfl : b = wadd 32 c pointerSize := Option.some.inj (Option.some.inj hret)
    obtain ⟨free', rfl, -⟩ := h.take (t := 0) hc
    have hbound : c + pointerSize < 2 ^ 32 := h.bound c (h.mem_blocks (by simp))
    intro hlive
    obtain ⟨p, hp, heq⟩ := List.mem_map.mp hlive
    have hmem : c ∈ handed s := by
      refine List.mem_map.mpr ⟨p, hp, ?_⟩
      rw [heq, header_wadd hbound]
    exact (List.nodup_append.mp h.part.nodup).2.2 c List.mem_cons_self c hmem rfl

end results

/-! ## Runs -/

section runs

variable {self start size blockSize : Nat} {word : Addr → Option Addr} {tick : Tick}
  {priority : ThreadId → Nat} {s : State}

/-- The pool that `rt_mp_init` makes. -/
def newPool (start size blockSize : Nat) : RtMempool :=
  let stride := wadd 32 (rtAlign 32 blockSize alignSize) pointerSize
  let count := rtAlignDown size alignSize / stride
  ⟨start, rtAlignDown size alignSize, rtAlign 32 blockSize alignSize, some start, count, count⟩

theorem init_eq (h : init self word start size blockSize tick priority = some s) :
    (newPool start size blockSize).stride ≠ 0 ∧
      s = fresh self tick priority (newPool start size blockSize,
        newList start (newPool start size blockSize).stride
          (newPool start size blockSize).blockTotalCount word) := by
  obtain ⟨r, hr, rfl⟩ := Option.map_eq_some_iff.mp h
  simp only [rtMpInit] at hr
  split at hr
  · cases hr
  · split at hr
    · cases hr
    · rename_i hstride
      exact ⟨hstride, by rw [← Option.some.inj hr]; rfl⟩

/-- A stride that is not zero has not wrapped. -/
theorem stride_eq (h : (newPool start size blockSize).stride ≠ 0) :
    (newPool start size blockSize).stride = rtAlign 32 blockSize alignSize + pointerSize := by
  have hle : rtAlign 32 blockSize alignSize ≤ 2 ^ 32 - 4 := by
    rw [rtAlign, alignSize] at *
    omega
  have hstride : (newPool start size blockSize).stride =
      wadd 32 (rtAlign 32 blockSize alignSize) pointerSize := rfl
  rw [hstride] at h ⊢
  refine wadd_eq (Nat.lt_of_le_of_ne ?_ fun heq => h ?_)
  · rw [pointerSize]
    omega
  · rw [wadd, heq, Nat.mod_self]

theorem blockTotalCount_pos (h : (newPool start size blockSize).stride ≠ 0) :
    0 < (newPool start size blockSize).blockTotalCount ↔
      rtAlign 32 blockSize alignSize + pointerSize ≤ rtAlignDown size alignSize := by
  rw [← stride_eq h]
  have hcount : (newPool start size blockSize).blockTotalCount =
      rtAlignDown size alignSize / (newPool start size blockSize).stride := rfl
  rw [hcount, Nat.div_pos_iff]
  exact ⟨fun h => h.2, fun hle => ⟨Nat.pos_of_ne_zero h, hle⟩⟩

/-- The new blocks are all in the list. -/
theorem partition_fresh {mp : RtMempool} (hge : pointerSize ≤ mp.stride)
    (hpos : 0 < mp.blockTotalCount)
    (hsum : mp.startAddress + mp.blockTotalCount * mp.stride < 2 ^ 32)
    (hlist : mp.blockList = some mp.startAddress)
    (hfree : mp.blockFreeCount = mp.blockTotalCount) :
    Inv (fresh self tick priority
      (mp, newList mp.startAddress mp.stride mp.blockTotalCount word)) (blocks mp) := by
  have hstride : 0 < mp.stride := Nat.lt_of_lt_of_le (by decide) hge
  have hcount : mp.blockTotalCount < 2 ^ 32 :=
    calc mp.blockTotalCount ≤ mp.blockTotalCount * mp.stride := Nat.le_mul_of_pos_right _ hstride
      _ ≤ mp.startAddress + mp.blockTotalCount * mp.stride := Nat.le_add_left _ _
      _ < 2 ^ 32 := hsum
  refine ⟨⟨?_, ?_, ?_, ?_, fun b hb => absurd hb List.not_mem_nil⟩, hcount, fun b hb => ?_⟩
  · obtain ⟨n, hn⟩ : ∃ n, mp.blockTotalCount = n + 1 := ⟨_, (Nat.succ_pred_eq_of_pos hpos).symm⟩
    rw [hn] at hsum
    have hlast : wsub 32 (wadd 32 mp.startAddress ((n + 1) * mp.stride)) mp.stride =
        mp.startAddress + n * mp.stride := by
      rw [wadd_eq hsum, wsub_eq (by rw [Nat.succ_mul]; omega) hsum, Nat.succ_mul,
        ← Nat.add_assoc, Nat.add_sub_cancel]
    have hchain := chain_linkBlocks word mp.startAddress hstride hsum n (Nat.zero_add n)
    rw [Nat.zero_mul, Nat.add_zero] at hchain
    simp only [fresh, newList, blocks, hlist, hn, List.range_eq_range', hlast]
    exact hchain
  · simp only [fresh]
    rw [hfree, blocks, List.length_map, List.length_range]
  · simp only [handed, fresh, List.map_nil, List.append_nil]
    exact List.Perm.refl _
  · simp only [handed, fresh, List.map_nil, List.append_nil]
    exact nodup_blocks hstride
  · exact Nat.lt_of_le_of_lt (blocks_bound hge (Nat.le_refl _) b hb) hsum

theorem partition_init (hfit : start + size < 2 ^ 32)
    (hinit : init self word start size blockSize tick priority = some s)
    (hpos : 0 < (newPool start size blockSize).blockTotalCount) :
    Inv s (blocks (newPool start size blockSize)) := by
  obtain ⟨hstride, rfl⟩ := init_eq hinit
  have hge : pointerSize ≤ (newPool start size blockSize).stride := by
    rw [stride_eq hstride]
    exact Nat.le_add_left _ _
  have htotal : (newPool start size blockSize).blockTotalCount *
      (newPool start size blockSize).stride ≤ size :=
    (Nat.div_mul_le_self _ _).trans (Nat.div_mul_le_self _ _)
  have hsum : start + (newPool start size blockSize).blockTotalCount *
      (newPool start size blockSize).stride < 2 ^ 32 :=
    Nat.lt_of_le_of_lt (Nat.add_le_add_left htotal start) hfit
  exact partition_fresh hge hpos hsum rfl rfl

/-- `rt_mp_init` leaves `block_list` at the start of a region that holds no block. -/
theorem not_partition_init (hinit : init self word start size blockSize tick priority = some s)
    (hzero : (newPool start size blockSize).blockTotalCount = 0) (free : List Addr) :
    ¬ Partition s free := by
  obtain ⟨-, rfl⟩ := init_eq hinit
  intro h
  have hnil : free = [] := by
    refine List.eq_nil_of_length_eq_zero ?_
    rw [← h.count]
    exact hzero
  have hchain := h.chain
  rw [hnil] at hchain
  cases hchain

theorem run_inv {ops : List Op} {s' : State} {free : List Addr} (h : Inv s free)
    (hb : Balance s) (hrun : Runs.run step s ops = some s') :
    ∃ free', Inv s' free' ∧ Balance s' := by
  refine @Runs.run_invariant _ _ step (fun s => ∃ free, Inv s free ∧ Balance s) ?_ _ _ _
    ⟨free, h, hb⟩ hrun
  intro s op s' hs hstep
  obtain ⟨free, h, hb⟩ := hs
  obtain ⟨⟨s', ret⟩, hcall, rfl⟩ := Option.map_eq_some_iff.mp hstep
  obtain ⟨free', h'⟩ := (call_result hcall).inv h
  exact ⟨free', h', (call_result hcall).balance h.count_lt hb⟩

end runs

/-- The thread is suspended on the pool. -/
def Waits (s : State) (t : ThreadId) : Prop :=
  (s.waiters.thread t).suspended = true ∧ role s t = some ()

/-- The pool is parted into free and live blocks, the next block to be handed out is not live,
and while a thread waits the free blocks are at most the woken threads. -/
structure Sound (s : State) : Prop where
  partition : ∃ free, Partition s free
  once : ∀ op s' b, call s op = some (s', some (some b)) → ¬ Live s b
  served : ∀ t, Waits s t → AtLeast s.mp.blockFreeCount (s.waiters.Woken (role s) ())

theorem Inv.sound {s : State} {free : List Addr} (h : Inv s free) (hb : Balance s) : Sound s where
  partition := ⟨free, h.part⟩
  once := fun _ _ _ hcall => (call_result hcall).once h
  served := fun _ ht => Waiters.Balanced.atLeast hb ht.1 ht.2

/-! ## The users of a pool -/

/-- What a pool keeps for its users, also when its region holds no block. -/
structure Usable (s : State) : Prop where
  balance : Balance s
  pool : (∃ free, Inv s free) ∨ s.mp.blockFreeCount = 0 ∧ s.hands = []
  place : ∀ b, Live s b → ∃ i, b = s.mp.startAddress + i * s.mp.stride + pointerSize

section users

variable {s s' : State} {t : ThreadId} {ret : Option (Option Addr)} {b : Addr}

theorem usable_init {self start size blockSize : Nat} {word : Addr → Option Addr} {tick : Tick}
    {priority : ThreadId → Nat} (hfit : start + size < 2 ^ 32)
    (hinit : init self word start size blockSize tick priority = some s) : Usable s where
  balance := by
    obtain ⟨-, rfl⟩ := init_eq hinit
    exact (Waiters.ok_init priority).balanced (fun _ => rfl) _
  pool := by
    obtain hzero | hpos := Nat.eq_zero_or_pos (newPool start size blockSize).blockTotalCount
    · obtain ⟨-, rfl⟩ := init_eq hinit
      exact .inr ⟨hzero, rfl⟩
    · exact .inl ⟨_, partition_init hfit hinit hpos⟩
  place := by
    obtain ⟨-, rfl⟩ := init_eq hinit
    exact fun b hb => absurd hb List.not_mem_nil

/-- The blocks stay where they are. -/
theorem Result.blocks (hres : Result s s' ret) :
    s'.mp.startAddress = s.mp.startAddress ∧ s'.mp.stride = s.mp.stride := by
  cases hres with
  | taken ht hcount hs =>
    obtain ⟨b, -, -, rfl⟩ := take_eq hs
    exact ⟨rfl, rfl⟩
  | freed hlive hs =>
    rw [rtMpFree_eq hs]
    exact ⟨rfl, rfl⟩
  | refused | wait | failed | timeout | tick => exact ⟨rfl, rfl⟩

theorem Result.live (hres : Result s s' ret) (hlive : Live s' b) :
    Live s b ∨ ∃ c, s.mp.blockFreeCount ≠ 0 ∧ s.mp.blockList = some c ∧
      b = wadd 32 c pointerSize := by
  cases hres with
  | taken ht hcount hs =>
    obtain ⟨c, hc, -, rfl⟩ := take_eq hs
    obtain heq | hmem := List.mem_cons.mp hlive
    · exact .inr ⟨c, hcount, hc, heq⟩
    · exact .inl hmem
  | freed hlive' hs =>
    rw [rtMpFree_eq hs] at hlive
    exact .inl (List.map_subset _ (List.eraseP_subset) hlive)
  | refused | wait | failed | timeout | tick => exact .inl hlive

theorem Usable.place_result (h : Usable s) (hres : Result s s' ret) (hlive : Live s' b) :
    ∃ i, b = s'.mp.startAddress + i * s'.mp.stride + pointerSize := by
  rw [hres.blocks.1, hres.blocks.2]
  obtain hold | ⟨c, hcount, hc, rfl⟩ := hres.live hlive
  · exact h.place b hold
  · obtain ⟨free, hinv⟩ | ⟨hzero, -⟩ := h.pool
    · have hchain := hinv.part.chain
      rw [hc] at hchain
      obtain ⟨rest, rfl, -⟩ := hchain.of_some
      have hmem : c ∈ blocks s.mp := hinv.mem_blocks (by simp)
      rw [wadd_eq (hinv.bound c hmem)]
      obtain ⟨i, -, rfl⟩ := List.mem_map.mp hmem
      exact ⟨i, rfl⟩
    · exact absurd hzero hcount

/-- Two live blocks are a whole block apart. -/
theorem Usable.apart (h : Usable s) {b c : Nat} (hb : Live s b) (hc : Live s c) (hne : b ≠ c) :
    b + s.mp.stride ≤ c ∨ c + s.mp.stride ≤ b := by
  obtain ⟨i, rfl⟩ := h.place b hb
  obtain ⟨j, rfl⟩ := h.place c hc
  obtain hij | hij | hij := Nat.lt_trichotomy i j
  · have hle := Nat.mul_le_mul_right s.mp.stride (Nat.succ_le_of_lt hij)
    rw [Nat.succ_mul] at hle
    exact .inl (by omega)
  · exact absurd (by rw [hij]) hne
  · have hle := Nat.mul_le_mul_right s.mp.stride (Nat.succ_le_of_lt hij)
    rw [Nat.succ_mul] at hle
    exact .inr (by omega)

theorem Usable.result (h : Usable s) (hres : Result s s' ret) : Usable s' := by
  have hplace := fun b => h.place_result hres (b := b)
  obtain ⟨hb, ⟨free, hinv⟩ | ⟨hzero, hnil⟩, -⟩ := h
  · obtain ⟨free', hinv'⟩ := hres.inv hinv
    exact ⟨hres.balance hinv.count_lt hb, .inl ⟨free', hinv'⟩, hplace⟩
  · have hlt : s.mp.blockFreeCount < 2 ^ 32 := by
      rw [hzero]
      exact Nat.two_pow_pos 32
    refine ⟨hres.balance hlt hb, .inr ?_, hplace⟩
    cases hres with
    | taken ht hcount hs => exact absurd hzero hcount
    | freed hlive hs =>
      rw [Live, hnil] at hlive
      exact absurd hlive List.not_mem_nil
    | refused | wait | failed | timeout | tick => exact ⟨hzero, hnil⟩

theorem Usable.once (h : Usable s) (hres : Result s s' (some (some b))) : ¬ Live s b := by
  obtain ⟨-, ⟨free, hinv⟩ | ⟨-, hnil⟩, -⟩ := h
  · exact hres.once hinv
  · rw [Live, hnil]
    exact List.not_mem_nil

/-- A thread outside of `rt_mp_alloc` does not wait. -/
theorem Usable.active (h : Usable s) (hcall : s.call t = .outside) : Active s t := by
  refine ⟨?_, hcall⟩
  rw [Bool.eq_false_iff]
  intro hsus
  obtain ⟨r, hr⟩ := h.balance.ok.listed t hsus
  have hrole := (h.balance.ok.waits r t hr).2.2
  rw [role, hcall] at hrole
  cases hrole

/-- What an allocation leaves as it was. -/
structure Allocates (s : State) (t : ThreadId) (s' : State) (ret : Option (Option Addr)) :
    Prop where
  other : ∀ u, u ≠ t → s'.call u = s.call u
  returns : ret ≠ none → s'.call t = .outside
  live : ∀ b, Live s' b ↔ ret = some (some b) ∨ Live s b

theorem rtMpAlloc_allocates {time : BitVec 32} (h : rtMpAlloc s t time = some (s', ret)) :
    Allocates s t s' ret := by
  rw [rtMpAlloc] at h
  split at h
  · split at h
    · cases h
      exact ⟨fun u hu => update_of_ne hu _ _, fun _ => update_self _ _ _,
        fun b => by simp [Live, setCall]⟩
    · obtain ⟨w, -, heq⟩ := Option.map_eq_some_iff.mp h
      cases heq
      exact ⟨fun u hu => update_of_ne hu _ _, fun hne => absurd rfl hne,
        fun b => by simp [Live, setCall]⟩
  · obtain ⟨b, -, rfl, rfl⟩ := take_eq h
    refine ⟨fun u hu => update_of_ne hu _ _, fun _ => update_self _ _ _,
      fun b' => ?_⟩
    simp only [Live, List.map_cons, List.mem_cons, Option.some.injEq]
    exact or_congr_left eq_comm

theorem allocates_of_alloc {time : BitVec 32} (h : call s (.alloc t time) = some (s', ret)) :
    Allocates s t s' ret :=
  rtMpAlloc_allocates (Option.ite_none_right_eq_some.mp h).2

theorem allocates_of_switchBack (h : call s (.switchBack t) = some (s', ret)) :
    Allocates s t s' ret := by
  have h := (Option.ite_none_right_eq_some.mp h).2
  rw [switchBack] at h
  cases hc : s.call t with
  | outside => simp [hc] at h
  | allocating time since =>
    simp only [hc] at h
    split at h
    · cases h
      exact ⟨fun u hu => update_of_ne hu _ _, fun _ => update_self _ _ _,
        fun b => by simp [Live, setCall]⟩
    · exact rtMpAlloc_allocates h

/-- A block can be freed, and the others stay live. -/
theorem Usable.free (h : Usable s) (ht : Active s t) (hlive : Live s b) :
    ∃ s', call s (.free t b) = some (s', none) ∧ s'.call = s.call ∧
      ∀ c, c ≠ b → Live s c → Live s' c := by
  obtain ⟨-, ⟨free, hinv⟩ | ⟨-, hnil⟩, -⟩ := h
  · have hword : s.word (wsub 32 b pointerSize) = some s.self := hinv.header_eq hlive
    obtain ⟨s', hfree⟩ : ∃ s', rtMpFree s b = some s' := ⟨_, if_pos hword⟩
    have hcall : call s (.free t b) = some (s', none) := by
      rw [call, if_pos ⟨ht, hlive⟩, hfree]
      rfl
    obtain rfl := rtMpFree_eq hfree
    refine ⟨_, hcall, rfl, fun c hc hlive' => ?_⟩
    obtain ⟨p, hp, rfl⟩ := List.mem_map.mp hlive'
    exact List.mem_map_of_mem ((List.mem_eraseP_of_neg (by simpa using hc)).mpr hp)
  · rw [Live, hnil] at hlive
    exact absurd hlive List.not_mem_nil

end users

/-- A pool is sound in every run if and only if its region holds a block. -/
theorem mempool_partitioned (self : Addr) (word : Addr → Option Addr) (start size blockSize : Nat)
    (tick : Tick) (priority : ThreadId → Nat) (s₀ : State) (hfit : start + size < 2 ^ 32)
    (hinit : init self word start size blockSize tick priority = some s₀) :
    (∀ ops s, Runs.run step s₀ ops = some s → Sound s) ↔
      rtAlign 32 blockSize alignSize + pointerSize ≤ rtAlignDown size alignSize := by
  rw [← blockTotalCount_pos (init_eq hinit).1]
  constructor
  · intro h
    obtain ⟨free, hpart⟩ := (h [] s₀ rfl).partition
    refine Nat.pos_of_ne_zero fun hzero => not_partition_init hinit hzero free hpart
  · intro hpos ops s hrun
    have hinv := partition_init hfit hinit hpos
    have hb : Balance s₀ := by
      rw [(init_eq hinit).2]
      exact (Waiters.ok_init priority).balanced (fun _ => rfl) _
    obtain ⟨free, hinv', hb'⟩ := run_inv hinv hb hrun
    exact hinv'.sound hb'

/-- A region of 20 bytes with blocks of 4 bytes. -/
def smallPool : Option State := init 8 (fun _ => none) 100 20 4 0 fun t => t

/-- Both blocks are taken, two threads wait, and one block is freed. -/
def twoWait : List Op :=
  [.alloc 1 0, .alloc 2 0, .alloc 3 0xffffffff, .alloc 4 10, .free 1 104]

theorem mempool_partitioned_small :
    ∃ s₀ s, smallPool = some s₀ ∧ Runs.run step s₀ twoWait = some s ∧ Waits s 3 ∧
      s.mp.blockFreeCount = 1 ∧ Sound s := by
  have hlast : (smallPool.map fun s₀ => (Runs.run step s₀ twoWait).map fun s =>
      ((s.waiters.thread 3).suspended, role s 3, s.mp.blockFreeCount)) =
        some (some (true, some (), 1)) := by decide +kernel
  obtain ⟨s₀, hinit, hs₀⟩ := Option.map_eq_some_iff.mp hlast
  obtain ⟨s, hrun, hs⟩ := Option.map_eq_some_iff.mp hs₀
  simp only [Prod.mk.injEq] at hs
  have h := mempool_partitioned 8 (fun _ => none) 100 20 4 0 (fun t => t) s₀ (by decide) hinit
  exact ⟨s₀, s, hinit, hrun, ⟨hs.1, hs.2.1⟩, hs.2.2, h.mpr (by decide) twoWait s hrun⟩

/-- `rt_mp_init` accepts a region of 4 bytes for blocks of 4 bytes; the new pool has no block,
and `block_list` is not empty. -/
theorem pool_without_blocks_unsound :
    ∃ s₀, init 8 (fun _ => none) 100 4 4 0 (fun t => t) = some s₀ ∧
      s₀.mp.blockFreeCount = 0 ∧ s₀.mp.blockList = some 100 ∧
      ∀ free, Chain s₀.word s₀.mp.blockList free → s₀.mp.blockFreeCount ≠ free.length := by
  have hinit : ((init 8 (fun _ => none) 100 4 4 0 (fun t => t)).map fun s =>
      (s.mp.blockFreeCount, s.mp.blockList)) = some (0, some 100) := by decide +kernel
  obtain ⟨s₀, hinit, hs⟩ := Option.map_eq_some_iff.mp hinit
  simp only [Prod.mk.injEq] at hs
  refine ⟨s₀, hinit, hs.1, hs.2, fun free hchain hlen => ?_⟩
  rw [hs.1] at hlen
  rw [hs.2, List.eq_nil_of_length_eq_zero hlen.symm] at hchain
  cases hchain

end RtThread.Mempool
