import RtThread.RingBlkRuns

/-!
# Failed allocations of a ring block buffer

In every run, also in one whose allocations fail or overrun the memory, the free
descriptors are unused and the used ones are the nodes of `blk_list`. An allocation that
finds no room has taken a descriptor off `free_list` by then, and this descriptor is in
neither list from there on.
-/
namespace RtThread.RingBlk

/-- What holds of the two lists in every run. -/
structure Listed (s : State) : Prop where
  free : s.freeList.Nodup
  list : s.blkList.Nodup
  unused : ∀ b ∈ s.freeList, (s.blk b).status = .unused
  used : ∀ b, (s.blk b).status ≠ .unused ↔ b ∈ s.blkList
  tail : s.tail = s.blkList.getLast?

/-- The tests of `rt_rbb_blk_alloc`. -/
def room (s : State) (size : Nat) : Bool :=
  match s.blkList, s.tail with
  | [], _ => true
  | _ :: _, none => false
  | h :: _, some t =>
    let behind := wadd 32 (s.blk t).buf (s.blk t).size
    if (s.blk h).buf ≤ (s.blk t).buf then
      decide (size ≤ wsub 32 (wadd 32 s.buf s.bufSize) behind ∨ size ≤ wsub 32 (s.blk h).buf s.buf)
    else decide (size ≤ wsub 32 (s.blk h).buf behind)

section alloc

variable {s s' : State} {size : Nat} {ret : Option Id} {n : Id} {free : List Id}

/-- What an allocation does with a descriptor at hand. -/
theorem alloc_cons (hfree : s.freeList = n :: free)
    (hs : rtRbbBlkAlloc s size = some (s', ret)) :
    (room s size = false ∧ ret = none ∧ s' = { s with freeList := free }) ∨
      (room s size = true ∧ ret = some n ∧
        ∃ buf, s' = place { s with freeList := free } n buf size) := by
  rw [rtRbbBlkAlloc, hfree] at hs
  dsimp only at hs
  split at hs
  · cases hs
  split at hs
  · cases hs
  split at hs
  case h_1 hlist =>
    cases hs
    have hroom : room s size = true := by rw [room, hlist]
    exact .inr ⟨hroom, rfl, _, rfl⟩
  case h_2 => cases hs
  case h_3 h rest t hlist htail =>
    have hroom : room s size = if (s.blk h).buf ≤ (s.blk t).buf then
        decide (size ≤ wsub 32 (wadd 32 s.buf s.bufSize) (wadd 32 (s.blk t).buf (s.blk t).size) ∨
          size ≤ wsub 32 (s.blk h).buf s.buf)
        else decide (size ≤ wsub 32 (s.blk h).buf (wadd 32 (s.blk t).buf (s.blk t).size)) := by
      rw [room, hlist, htail]
    rw [hroom]
    split at hs
    case isTrue hle =>
      rw [if_pos hle]
      split at hs
      case isTrue hbehind =>
        cases hs
        exact .inr ⟨decide_eq_true (.inl hbehind), rfl, _, rfl⟩
      case isFalse hbehind =>
        split at hs
        case isTrue hstart =>
          cases hs
          exact .inr ⟨decide_eq_true (.inr hstart), rfl, _, rfl⟩
        case isFalse hstart =>
          cases hs
          exact .inl ⟨decide_eq_false (not_or.mpr ⟨hbehind, hstart⟩), rfl, rfl⟩
    case isFalse hgt =>
      rw [if_neg hgt]
      split at hs
      case isTrue hbetween =>
        cases hs
        exact .inr ⟨decide_eq_true hbetween, rfl, _, rfl⟩
      case isFalse hbetween =>
        cases hs
        exact .inl ⟨decide_eq_false hbetween, rfl, rfl⟩

/-- Without a descriptor nothing happens. -/
theorem alloc_nil (hfree : s.freeList = []) (hs : rtRbbBlkAlloc s size = some (s', ret)) :
    ret = none ∧ s' = s := by
  rw [rtRbbBlkAlloc, hfree] at hs
  split at hs
  · cases hs
  · cases hs
    exact ⟨rfl, rfl⟩

/-- The assertions of an allocation hold in every run. -/
theorem Listed.alloc_isSome (h : Listed s) (hsize : size < 2 ^ 24) :
    ∃ s' ret, rtRbbBlkAlloc s size = some (s', ret) := by
  rw [rtRbbBlkAlloc, if_neg (by omega)]
  cases hfree : s.freeList with
  | nil => exact ⟨_, _, rfl⟩
  | cons n free =>
    have hunused := h.unused n (by rw [hfree]; exact List.mem_cons_self)
    dsimp only
    rw [if_neg (not_not.mpr hunused)]
    cases hlist : s.blkList with
    | nil => exact ⟨_, _, rfl⟩
    | cons a rest =>
      cases htail : s.tail with
      | none =>
        have hlast := h.tail
        rw [htail, hlist, List.getLast?_cons] at hlast
        cases hlast
      | some t =>
        dsimp only
        split
        · split
          · exact ⟨_, _, rfl⟩
          · split <;> exact ⟨_, _, rfl⟩
        · split <;> exact ⟨_, _, rfl⟩

/-- There is always room for an empty block. -/
theorem Listed.room_zero (h : Listed s) : room s 0 = true := by
  rw [room]
  cases hlist : s.blkList with
  | nil => rfl
  | cons a rest =>
    cases htail : s.tail with
    | none =>
      have hlast := h.tail
      rw [htail, hlist, List.getLast?_cons] at hlast
      cases hlast
    | some t =>
      dsimp only
      split
      · exact decide_eq_true (.inl (Nat.zero_le _))
      · exact decide_eq_true (Nat.zero_le _)

end alloc

/-! ## The lists in a run -/

section steps

variable {s s' : State} {b n : Id} {size : Nat}

theorem Listed.relabel (h : Listed s) {blk : Id → Blk}
    (hstatus : ∀ b, (blk b).status = .unused ↔ (s.blk b).status = .unused) :
    Listed { s with blk := blk } where
  free := h.free
  list := h.list
  unused b hb := (hstatus b).mpr (h.unused b hb)
  used b := (not_congr (hstatus b)).trans (h.used b)
  tail := h.tail

/-- A descriptor that is lost. -/
theorem Listed.lose (h : Listed s) {free : List Id} (hfree : s.freeList = n :: free) :
    Listed { s with freeList := free } where
  free := (List.nodup_cons.mp (hfree ▸ h.free)).2
  list := h.list
  unused b hb := h.unused b (by rw [hfree]; exact List.mem_cons_of_mem n hb)
  used := h.used
  tail := h.tail

theorem Listed.place (h : Listed s) {free : List Id} (hfree : s.freeList = n :: free)
    (buf size : Nat) : Listed (place { s with freeList := free } n buf size) := by
  have hn : n ∉ free := (List.nodup_cons.mp (hfree ▸ h.free)).1
  have hunused := h.unused n (by rw [hfree]; exact List.mem_cons_self)
  have hnlist : n ∉ s.blkList := fun hmem => (h.used n).mpr hmem hunused
  rw [@place_eq { s with freeList := free } h.list h.tail]
  refine ⟨(h.lose hfree).free, ?_, fun b hb => ?_, fun b => ?_, by simp⟩
  · exact List.nodup_append.mpr ⟨h.list, List.nodup_singleton n,
      fun a ha b hb hab => hnlist (List.mem_singleton.mp hb ▸ hab ▸ ha)⟩
  · have hbn : b ≠ n := fun heq => hn (heq ▸ hb)
    simpa [hbn] using (h.lose hfree).unused b hb
  · by_cases hbn : b = n
    · simp [hbn]
    · simpa [hbn] using h.used b

theorem Listed.alloc (h : Listed s) {ret : Option Id}
    (hs : rtRbbBlkAlloc s size = some (s', ret)) : Listed s' := by
  cases hfree : s.freeList with
  | nil =>
    obtain ⟨-, rfl⟩ := alloc_nil hfree hs
    exact h
  | cons n free =>
    obtain ⟨-, -, rfl⟩ | ⟨-, -, buf, rfl⟩ := alloc_cons hfree hs
    · exact h.lose hfree
    · exact h.place hfree buf size

theorem Listed.freeBlk (h : Listed s) (hs : rtRbbBlkFree s b = some s') : Listed s' := by
  rw [rtRbbBlkFree] at hs
  split at hs
  case isTrue => cases hs
  case isFalse hused =>
    have hmem := (h.used b).mp hused
    have hbfree : b ∉ s.freeList := fun hb => hused (h.unused b hb)
    rw [listRemove_eq h.list h.tail hmem] at hs
    cases hs
    refine ⟨List.nodup_cons.mpr ⟨hbfree, h.free⟩, h.list.erase b, fun c hc => ?_, fun c => ?_,
      rfl⟩
    · obtain rfl | hc := List.mem_cons.mp hc
      · simp [setStatus]
      · have hcb : c ≠ b := fun heq => hbfree (heq ▸ hc)
        simpa [setStatus, hcb] using h.unused c hc
    · rw [h.list.mem_erase_iff]
      by_cases hcb : c = b
      · simp [setStatus, hcb]
      · simpa [setStatus, hcb] using h.used c

theorem Listed.queueFree (h : Listed s) {next : Option Id} {num : Nat}
    (hs : rtRbbBlkQueueFree s next num = some s') : Listed s' := by
  induction num generalizing s next with
  | zero =>
    cases hs
    exact h
  | succ num ih =>
    cases next with
    | none => simp [rtRbbBlkQueueFree] at hs
    | some b =>
      obtain ⟨s₁, hfree, hs⟩ := Option.bind_eq_some_iff.mp hs
      exact ih (h.freeBlk hfree) hs

theorem step_listed {op : Op} (h : Listed s) (hs : step s op = some s') : Listed s' := by
  cases op with
  | alloc size =>
    obtain ⟨⟨s₁, ret⟩, halloc, rfl⟩ := Option.map_eq_some_iff.mp hs
    exact h.alloc halloc
  | put b =>
    simp only [step] at hs
    split at hs
    · rw [rtRbbBlkPut] at hs
      split at hs
      case isTrue hst =>
        cases hs
        exact h.relabel (setStatus_unused (by simp [hst]) (by simp))
      case isFalse => cases hs
    · cases hs
  | get =>
    cases hs
    rw [rtRbbBlkGet]
    cases hfind : s.blkList.find? fun b => (s.blk b).status = .put with
    | none => exact h
    | some b =>
      have hst : (s.blk b).status = .put := by simpa using List.find?_some hfind
      exact h.relabel (setStatus_unused (by simp [hst]) (by simp))
  | free b =>
    simp only [step] at hs
    split at hs
    · exact h.freeBlk hs
    · cases hs
  | queueGet len =>
    cases hs
    exact h.relabel fun c => (queueLoop_blk len s.blkList s.blk none 0 none c).2
  | queueFree queue =>
    simp only [step] at hs
    split at hs
    · exact h.queueFree hs
    · cases hs

theorem listed_init (blk : Id → Blk) (buf bufSize blkMaxNum : Nat) :
    Listed (rtRbbInit blk buf bufSize blkMaxNum) where
  free := List.nodup_reverse.mpr List.nodup_range
  list := List.nodup_nil
  unused _ _ := rfl
  used b := by simp [rtRbbInit]
  tail := rfl

theorem run_listed {blk : Id → Blk} {buf bufSize blkMaxNum : Nat} {ops : List Op}
    (hrun : Runs.run step (rtRbbInit blk buf bufSize blkMaxNum) ops = some s) : Listed s :=
  Runs.run_invariant (fun _ _ _ h hs => step_listed h hs) (listed_init blk buf bufSize blkMaxNum)
    hrun

end steps

/-! ## Failures -/

section failures

variable {s s' : State} {size : Nat} {sizes : List Nat}

/-- A failed allocation changes nothing. -/
def Keeps (s : State) (size : Nat) : Prop :=
  ∀ s', rtRbbBlkAlloc s size = some (s', none) → s' = s

/-- A sequence of failed allocations. -/
inductive Failed : State → List Nat → State → Prop
  | nil (s : State) : Failed s [] s
  | cons {s s₁ s₂ : State} {size : Nat} {sizes : List Nat} :
      rtRbbBlkAlloc s size = some (s₁, none) → Failed s₁ sizes s₂ → Failed s (size :: sizes) s₂

/-- Blocks of these sizes can be allocated one after the other. -/
def Allocs : State → List Nat → Prop
  | _, [] => True
  | s, size :: sizes => ∃ s' n, rtRbbBlkAlloc s size = some (s', some n) ∧ Allocs s' sizes

theorem Listed.keeps_iff (h : Listed s) (hsize : size < 2 ^ 24) :
    Keeps s size ↔ s.freeList = [] ∨ room s size = true := by
  obtain ⟨s', ret, hs⟩ := h.alloc_isSome hsize
  cases hfree : s.freeList with
  | nil =>
    refine iff_of_true (fun t ht => (alloc_nil hfree ht).2) (.inl rfl)
  | cons n free =>
    constructor
    · intro hkeeps
      obtain ⟨-, rfl, rfl⟩ | ⟨hroom, -⟩ := alloc_cons hfree hs
      · have heq := congrArg State.freeList (hkeeps _ hs)
        rw [hfree] at heq
        exact absurd heq.symm (List.cons_ne_self n free)
      · exact .inr hroom
    · rintro (hnil | hroom) t ht
      · exact absurd hnil (List.cons_ne_nil n free)
      · obtain ⟨hfull, -⟩ | ⟨-, hret, -⟩ := alloc_cons hfree ht
        · rw [hroom] at hfull
          cases hfull
        · cases hret

/-- Every failure takes one descriptor off `free_list`, as long as there is one. -/
theorem Failed.freeList_eq (hf : Failed s sizes s') :
    s'.freeList = s.freeList.drop sizes.length ∧ (s.freeList = [] → s' = s) := by
  induction hf with
  | nil s => exact ⟨rfl, fun _ => rfl⟩
  | @cons s s₁ s₂ size sizes halloc _ ih =>
    cases hfree : s.freeList with
    | nil =>
      obtain ⟨-, rfl⟩ := alloc_nil hfree halloc
      exact ⟨by rw [ih.1, hfree, List.drop_nil, List.drop_nil], fun _ => ih.2 hfree⟩
    | cons n free =>
      obtain ⟨-, -, rfl⟩ | ⟨-, hret, -⟩ := alloc_cons hfree halloc
      · exact ⟨ih.1, fun hnil => absurd hnil (List.cons_ne_nil n free)⟩
      · cases hret

theorem Failed.listed (hf : Failed s sizes s') (h : Listed s) : Listed s' := by
  induction hf with
  | nil s => exact h
  | cons halloc _ ih => exact ih (h.alloc halloc)

/-- There are as many empty blocks to be had as free descriptors. -/
theorem Listed.allocs_zeros (h : Listed s) (k : Nat) :
    Allocs s (List.replicate k 0) ↔ k ≤ s.freeList.length := by
  induction k generalizing s with
  | zero => exact iff_of_true trivial (Nat.zero_le _)
  | succ k ih =>
    cases hfree : s.freeList with
    | nil =>
      refine iff_of_false ?_ (Nat.not_succ_le_zero k)
      rintro ⟨s', n, hs, -⟩
      cases (alloc_nil hfree hs).1
    | cons n free =>
      obtain ⟨s₁, ret, hs₁⟩ := h.alloc_isSome (show 0 < 2 ^ 24 by decide)
      obtain ⟨hfull, -⟩ | ⟨-, rfl, buf, rfl⟩ := alloc_cons hfree hs₁
      · rw [h.room_zero] at hfull
        cases hfull
      · have hlength : (RingBlk.place { s with freeList := free } n buf 0).freeList = free := by
          rw [@place_eq { s with freeList := free } h.list h.tail]
        rw [List.length_cons, Nat.succ_le_succ_iff, ← hlength, ← ih (h.alloc hs₁)]
        constructor
        · rintro ⟨s', m, hs, hrest⟩
          rw [hs₁] at hs
          cases hs
          exact hrest
        · exact fun hrest => ⟨_, _, hs₁, hrest⟩

theorem Listed.allocs_iff (h : Listed s) (hf : Failed s sizes s') :
    (∀ later, Allocs s' later ↔ Allocs s later) ↔ s.freeList = [] ∨ sizes = [] := by
  constructor
  · intro hsame
    have hzeros := hsame (List.replicate s.freeList.length 0)
    rw [(hf.listed h).allocs_zeros, h.allocs_zeros, hf.freeList_eq.1, List.length_drop] at hzeros
    have hzero : s.freeList.length = 0 ∨ sizes.length = 0 := by omega
    exact hzero.imp List.length_eq_zero_iff.mp List.length_eq_zero_iff.mp
  · rintro (hnil | rfl) later
    · rw [hf.freeList_eq.2 hnil]
    · cases hf
      exact Iff.rfl

/-- A failed allocation changes nothing exactly when there is no free descriptor, and failures
leave the later allocations as they are only then. -/
theorem failed_alloc_keeps (blk : Id → Blk) (buf bufSize blkMaxNum : Nat) (ops : List Op)
    (hrun : Runs.run step (rtRbbInit blk buf bufSize blkMaxNum) ops = some s) :
    (∀ size, size < 2 ^ 24 → (Keeps s size ↔ s.freeList = [] ∨ room s size = true)) ∧
      ∀ sizes s', Failed s sizes s' →
        ((∀ later, Allocs s' later ↔ Allocs s later) ↔ s.freeList = [] ∨ sizes = []) :=
  ⟨fun _ hsize => (run_listed hrun).keeps_iff hsize,
    fun _ _ hf => (run_listed hrun).allocs_iff hf⟩

/-- In a memory of 12 bytes that is half used a block of 6 bytes can be had. -/
theorem failed_alloc_keeps_half :
    ∃ s, Runs.run step smallRing [.alloc 6] = some s ∧ Keeps s 6 := by
  refine ⟨_, rfl, ?_⟩
  exact ((failed_alloc_keeps _ 100 12 4 [.alloc 6] rfl).1 6 (by decide)).mpr (.inr (by decide))

/-- In a full memory the failure loses a descriptor. -/
theorem failed_alloc_loses :
    ∃ s, Runs.run step smallRing [.alloc 12] = some s ∧ ¬ Keeps s 1 := by
  have hrun : Runs.run step smallRing [.alloc 12] = some _ := rfl
  refine ⟨_, hrun, fun hkeeps => ?_⟩
  exact absurd (((run_listed hrun).keeps_iff (by decide)).mp hkeeps) (by decide)

end failures

end RtThread.RingBlk
