import RtThread.RingBlkLayout

/-!
# Runs of a ring block buffer

The allocation takes a descriptor from `free_list` before it looks for room and does not
put it back when there is none; it does not compare the first block of an empty list
with the size of the memory; and it cannot tell a list that has come round to its head
with an empty block from one that has not. In every run whose allocations keep clear of
these three cases the listed blocks are in the memory and apart, every descriptor is in
one of the two lists, and `tail` is the last node.
-/
namespace RtThread.RingBlk

/-- The invariant of a run. -/
structure Inv (s : State) : Prop where
  layout : ∃ upper lower, Layout s upper lower
  parted : (s.freeList ++ s.blkList).Perm (List.range s.blkMaxNum)
  tail : s.tail = s.blkList.getLast?
  unused : ∀ b ∈ s.freeList, (s.blk b).status = .unused
  used : ∀ b ∈ s.blkList, (s.blk b).status ≠ .unused
  memory : s.buf + s.bufSize < 2 ^ 32

section lists

variable {t n : Id} {l : List Id} {prev : Option Id}

theorem upTo_last (hnd : l.Nodup) (ht : l.getLast? = some t) : upTo t l = l := by
  obtain ⟨l', rfl⟩ := List.getLast?_eq_some_iff.mp ht
  clear ht
  induction l' with
  | nil => simp [upTo]
  | cons b l' ih =>
    rw [List.cons_append, List.nodup_cons] at hnd
    have hbt : b ≠ t := by
      rintro rfl
      exact hnd.1 (by simp)
    rw [List.cons_append, upTo, if_neg hbt, ih hnd.2]

theorem before_last (hn : n ∉ l) : before n prev (l ++ [n]) = l.getLast?.or prev := by
  induction l generalizing prev with
  | nil => simp [before]
  | cons b l ih =>
    have hbn : b ≠ n := by
      rintro rfl
      exact hn List.mem_cons_self
    rw [List.cons_append, before, if_neg hbn, ih fun h => hn (List.mem_cons_of_mem b h)]
    cases l with
    | nil => rfl
    | cons c l => simp [List.getLast?_cons]

/-- The last node of a list from which one has been taken. -/
theorem getLast?_erase_of_ne (hnd : l.Nodup) (ht : l.getLast? = some t) (htn : t ≠ n) :
    (l.erase n).getLast? = some t := by
  obtain ⟨l', rfl⟩ := List.getLast?_eq_some_iff.mp ht
  rw [hnd.erase_eq_filter, List.filter_append]
  simp [htn]

theorem mem_of_after {b : Id} (h : after n l = some b) : b ∈ l := by
  induction l with
  | nil => simp [after] at h
  | cons c l ih =>
    rw [after] at h
    split at h
    · exact List.mem_cons_of_mem c (List.mem_of_mem_head? h)
    · exact List.mem_cons_of_mem c (ih h)

end lists

section steps

variable {s s' : State} {b n : Id} {size : Nat}

theorem Inv.nodup (h : Inv s) : (s.freeList ++ s.blkList).Nodup :=
  h.parted.nodup_iff.mpr List.nodup_range

theorem Inv.nodup_list (h : Inv s) : s.blkList.Nodup := (List.nodup_append.mp h.nodup).2.1

/-- The descriptors change their status, and none becomes used or unused. -/
theorem Inv.relabel (h : Inv s) {blk : Id → Blk}
    (hmem : ∀ b, (blk b).buf = (s.blk b).buf ∧ (blk b).size = (s.blk b).size)
    (hstatus : ∀ b, (blk b).status = .unused ↔ (s.blk b).status = .unused) :
    Inv { s with blk := blk } := by
  obtain ⟨upper, lower, hl⟩ := h.layout
  refine ⟨⟨upper, lower, hl.congr rfl rfl rfl fun b _ => hmem b⟩, h.parted, h.tail, ?_, ?_,
    h.memory⟩
  · exact fun b hb => (hstatus b).mpr (h.unused b hb)
  · exact fun b hb hun => h.used b hb ((hstatus b).mp hun)

theorem setStatus_memory (blk : Id → Blk) (b c : Id) (status : Status) :
    (setStatus blk b status c).buf = (blk c).buf ∧
      (setStatus blk b status c).size = (blk c).size := by
  by_cases hc : c = b
  · simp [setStatus, hc]
  · simp [setStatus, hc]

theorem setStatus_unused {blk : Id → Blk} {status : Status} (hold : (blk b).status ≠ .unused)
    (hnew : status ≠ .unused) (c : Id) :
    (setStatus blk b status c).status = .unused ↔ (blk c).status = .unused := by
  by_cases hc : c = b
  · simp [setStatus, hc, hold, hnew]
  · simp [setStatus, hc]

/-- A block is taken out of the list. -/
theorem listRemove_eq (hnd : s.blkList.Nodup) (htail : s.tail = s.blkList.getLast?)
    (hmem : b ∈ s.blkList) :
    listRemove s b =
      { s with blkList := s.blkList.erase b, tail := (s.blkList.erase b).getLast? } := by
  have hlast : (if s.tail = some b then before b none s.blkList else s.tail) =
      (s.blkList.erase b).getLast? := by
    rw [htail]
    split
    · rename_i hb
      obtain ⟨l, hl⟩ := List.getLast?_eq_some_iff.mp hb
      have hbl : b ∉ l := by
        rw [hl] at hnd
        exact fun hm => (List.nodup_append.mp hnd).2.2 b hm b (by simp) rfl
      rw [hl, before_last hbl, Option.or_none, List.erase_append_right _ hbl]
      simp
    · rename_i hb
      cases ht : s.blkList.getLast? with
      | none => simp [List.getLast?_eq_none_iff.mp ht] at hmem
      | some t =>
        have htb : t ≠ b := by
          rintro rfl
          exact hb ht
        exact (getLast?_erase_of_ne hnd ht htb).symm
  rw [listRemove, if_pos hmem, hlast]

/-- A block goes from the list to the front of `free_list`. -/
theorem Inv.free (h : Inv s) (hb : b < s.blkMaxNum) (hs : rtRbbBlkFree s b = some s') :
    Inv s' ∧ s'.blkMaxNum = s.blkMaxNum := by
  rw [rtRbbBlkFree] at hs
  split at hs
  · cases hs
  · rename_i hused
    have hmem : b ∈ s.blkList := by
      have hall : b ∈ s.freeList ++ s.blkList := h.parted.mem_iff.mpr (List.mem_range.mpr hb)
      obtain hfree | hlist := List.mem_append.mp hall
      · exact absurd (h.unused b hfree) hused
      · exact hlist
    have hnd := h.nodup_list
    obtain ⟨upper, lower, hl⟩ := h.layout
    rw [listRemove_eq hnd h.tail hmem] at hs
    cases hs
    have hperm : (b :: s.freeList ++ s.blkList.erase b).Perm (s.freeList ++ s.blkList) :=
      List.perm_middle.symm.trans ((List.perm_cons_erase hmem).symm.append_left s.freeList)
    refine ⟨⟨hl.erase hnd rfl rfl rfl fun c => setStatus_memory _ _ _ _, hperm.trans h.parted, rfl,
      ?_, ?_, h.memory⟩, rfl⟩
    · intro c hc
      obtain rfl | hfree := List.mem_cons.mp hc
      · simp [setStatus]
      · have hcb : c ≠ b := (List.nodup_append.mp h.nodup).2.2 c hfree b hmem
        simpa [setStatus, hcb] using h.unused c hfree
    · intro c hc
      obtain ⟨hcb, hc⟩ := hnd.mem_erase_iff.mp hc
      simpa [setStatus, hcb] using h.used c hc

theorem Inv.queueFree (h : Inv s) {next : Option Id} {num : Nat}
    (hnext : ∀ b, next = some b → b < s.blkMaxNum)
    (hs : rtRbbBlkQueueFree s next num = some s') : Inv s' := by
  induction num generalizing s next with
  | zero =>
    cases hs
    exact h
  | succ num ih =>
    cases next with
    | none => simp [rtRbbBlkQueueFree] at hs
    | some b =>
      obtain ⟨s₁, hfree, hs⟩ := Option.bind_eq_some_iff.mp hs
      obtain ⟨h₁, hmax⟩ := h.free (hnext b rfl) hfree
      refine ih h₁ (fun c hc => ?_) hs
      rw [hmax]
      have hmem : c ∈ s.freeList ++ s.blkList := List.mem_append_right _ (mem_of_after hc)
      exact List.mem_range.mp (h.parted.mem_iff.mp hmem)

/-- The blocks of a queue change from put to get. -/
theorem queueLoop_blk (len : Nat) (l : List Id) (blk : Id → Blk) (last : Option Id) (total : Nat)
    (queue : Option BlkQueue) (b : Id) :
    (((queueLoop len l blk last total queue).1 b).buf = (blk b).buf ∧
        ((queueLoop len l blk last total queue).1 b).size = (blk b).size) ∧
      (((queueLoop len l blk last total queue).1 b).status = .unused ↔
        (blk b).status = .unused) := by
  have hset : ∀ (blk : Id → Blk) (c : Id), (blk c).status = .put →
      ((setStatus blk c .get b).buf = (blk b).buf ∧
        (setStatus blk c .get b).size = (blk b).size) ∧
      ((setStatus blk c .get b).status = .unused ↔ (blk b).status = .unused) := by
    intro blk c hput
    exact ⟨setStatus_memory _ _ _ _, setStatus_unused (by simp [hput]) (by simp) b⟩
  induction l generalizing blk last total queue with
  | nil => cases last <;> exact ⟨⟨rfl, rfl⟩, Iff.rfl⟩
  | cons c l ih =>
    cases last with
    | none =>
      rw [queueLoop]
      split
      · rename_i hput
        have hrest := ih (setStatus blk c .get) (some c) (wadd 32 total (blk c).size) (some ⟨c, 1⟩)
        have hc := hset blk c hput
        exact ⟨⟨hrest.1.1.trans hc.1.1, hrest.1.2.trans hc.1.2⟩, hrest.2.trans hc.2⟩
      · exact ih blk none total queue
    | some last =>
      rw [queueLoop]
      split
      · exact ⟨⟨rfl, rfl⟩, Iff.rfl⟩
      · rename_i hput
        rw [not_or, not_not] at hput
        have hrest := ih (setStatus blk c .get) (some c) (wadd 32 total (blk c).size)
          (queue.map fun q => { q with blkNum := q.blkNum + 1 })
        have hc := hset blk c hput.1
        exact ⟨⟨hrest.1.1.trans hc.1.1, hrest.1.2.trans hc.1.2⟩, hrest.2.trans hc.2⟩

/-! ## Allocation -/

theorem place_eq (hnd : s.blkList.Nodup) (htail : s.tail = s.blkList.getLast?) (n buf size : Nat) :
    place s n buf size = { s with
      blkList := s.blkList ++ [n]
      tail := some n
      blk := Function.update s.blk n ⟨.inited, size, buf⟩ } := by
  rw [place, listAppend]
  cases hlast : s.blkList.getLast? with
  | none =>
    simp only [htail]
    rw [List.getLast?_eq_none_iff.mp hlast]
    rfl
  | some t =>
    rw [hlast] at htail
    simp only [htail]
    rw [upTo_last hnd hlast]

/-- A descriptor goes from the front of `free_list` to the end of the list. -/
theorem Inv.place (h : Inv s) {free : List Id} (hfree : s.freeList = n :: free) (buf size : Nat) :
    Placed s (place { s with freeList := free } n buf size) n buf size ∧
      ((∃ upper lower, Layout (place { s with freeList := free } n buf size) upper lower) →
        Inv (place { s with freeList := free } n buf size)) := by
  have hnd := h.nodup
  rw [hfree, List.cons_append, List.nodup_cons, List.mem_append, not_or] at hnd
  obtain ⟨⟨hnfree, hnlist⟩, hnd⟩ := hnd
  have hne : ∀ b ∈ s.blkList, b ≠ n := fun b hb heq => hnlist (heq ▸ hb)
  have heq := @place_eq { s with freeList := free } h.nodup_list h.tail n buf size
  rw [heq]
  refine ⟨⟨rfl, rfl, rfl, by simp, fun b hb => Function.update_of_ne (hne b hb) _ _⟩, ?_⟩
  intro hlayout
  have hperm : (free ++ (s.blkList ++ [n])).Perm (s.freeList ++ s.blkList) := by
    rw [hfree, ← List.append_assoc]
    exact List.perm_append_singleton n (free ++ s.blkList)
  refine ⟨hlayout, hperm.trans h.parted, by simp, fun b hb => ?_, fun b hb => ?_, h.memory⟩
  · have hbn : b ≠ n := fun heq => hnfree (heq ▸ hb)
    simpa [hbn] using h.unused b (by rw [hfree]; exact List.mem_cons_of_mem n hb)
  · obtain hb | hb := List.mem_append.mp hb
    · simpa [hne b hb] using h.used b hb
    · obtain rfl : b = n := by simpa using hb
      simp

end steps

/-- The allocation keeps clear of the three cases: there is no free descriptor; or there is room
behind the last block or before the first one, and an empty block does not close the gap between
the end of the list and its head. -/
def fits (s : State) (size : Nat) : Bool :=
  s.freeList.isEmpty ||
    match s.blkList, s.tail with
    | [], _ => decide (size ≤ s.bufSize)
    | _ :: _, none => false
    | h :: _, some t =>
      if (s.blk h).buf ≤ (s.blk t).buf then
        decide ((s.blk t).stop + size ≤ s.buf + s.bufSize ∨ s.buf + size ≤ (s.blk h).buf)
      else
        decide ((s.blk t).stop + size ≤ (s.blk h).buf ∧
          (0 < size ∨ (s.blk t).stop < (s.blk h).buf))

section alloc

variable {s s' : State} {n a t : Id} {free rest : List Id} {size : Nat} {ret : Option Id}

/-- The gaps are computed without a wrap. -/
theorem Inv.gaps (h : Inv s) (hh : s.blkList.head? = some a) (ht : s.blkList.getLast? = some t) :
    wadd 32 (s.blk t).buf (s.blk t).size = (s.blk t).stop ∧
      wsub 32 (wadd 32 s.buf s.bufSize) (s.blk t).stop = s.buf + s.bufSize - (s.blk t).stop ∧
      wsub 32 (s.blk a).buf s.buf = (s.blk a).buf - s.buf ∧
      ((s.blk t).stop ≤ (s.blk a).buf →
        wsub 32 (s.blk a).buf (s.blk t).stop = (s.blk a).buf - (s.blk t).stop) := by
  have hmemory := h.memory
  obtain ⟨upper, lower, hl⟩ := h.layout
  obtain ⟨habuf, hastop⟩ := hl.inside a (List.mem_of_mem_head? hh)
  obtain ⟨-, htstop⟩ := hl.inside t (List.mem_of_getLast? ht)
  have hle : (s.blk a).buf ≤ (s.blk a).stop := Nat.le_add_right _ _
  have habove : (s.blk a).buf < 2 ^ 32 := by omega
  refine ⟨wadd_eq (Nat.lt_of_le_of_lt htstop hmemory), ?_, wsub_eq habuf habove,
    fun hst => wsub_eq hst habove⟩
  rw [wadd_eq hmemory]
  exact wsub_eq htstop hmemory

/-- The allocation when there are blocks already. -/
theorem Inv.alloc_behind (h : Inv s) (hfree : s.freeList = n :: free)
    (hlist : s.blkList = a :: rest) (htail : s.tail = some t) (hfits : fits s size = true)
    (hs : rtRbbBlkAlloc s size = some (s', ret)) : Inv s' := by
  have hh : s.blkList.head? = some a := by rw [hlist]; rfl
  have ht : s.blkList.getLast? = some t := by rw [← h.tail, htail]
  obtain ⟨hbehind, hempty1, hempty2, hgap⟩ := h.gaps hh ht
  obtain ⟨upper, lower, hl⟩ := h.layout
  obtain ⟨habuf, -⟩ := hl.inside a (List.mem_of_mem_head? hh)
  have hwrap := hl.wrapped_iff hh ht
  simp only [fits, hfree, List.isEmpty_cons, Bool.false_or, hlist, htail] at hfits
  simp only [rtRbbBlkAlloc, hfree, hlist, htail, hbehind, hempty1, hempty2] at hs
  split at hs
  · cases hs
  split at hs
  · cases hs
  by_cases hle : (s.blk a).buf ≤ (s.blk t).buf
  · obtain rfl := hwrap.mp hle
    simp only [if_pos hle, decide_eq_true_eq] at hs hfits
    by_cases hsize : size ≤ s.buf + s.bufSize - (s.blk t).stop
    · rw [if_pos hsize] at hs
      cases hs
      obtain ⟨hplaced, hinv⟩ := h.place hfree (s.blk t).stop size
      have htop := (hl.inside t (List.mem_of_getLast? ht)).2
      have hinv' := hinv ⟨_, _, hl.place_behind ht hplaced (by omega)⟩
      simpa only [hlist, htail] using hinv'
    · rw [if_neg hsize, if_pos (by omega)] at hs
      cases hs
      obtain ⟨hplaced, hinv⟩ := h.place hfree s.buf size
      have hinv' := hinv ⟨_, _, hl.place_start hh hplaced (by omega) (by omega)⟩
      simpa only [hlist, htail] using hinv'
  · have hne : lower ≠ [] := fun hnil => hle (hwrap.mpr hnil)
    simp only [if_neg hle, decide_eq_true_eq] at hs hfits
    rw [hgap (by omega), if_pos (by omega)] at hs
    cases hs
    obtain ⟨hplaced, hinv⟩ := h.place hfree (s.blk t).stop size
    have hinv' := hinv ⟨_, _, hl.place_between hne hh ht hplaced hfits.1 hfits.2⟩
    simpa only [hlist, htail] using hinv'

theorem Inv.alloc (h : Inv s) (hfits : fits s size = true)
    (hs : rtRbbBlkAlloc s size = some (s', ret)) : Inv s' := by
  cases hfree : s.freeList with
  | nil =>
    simp only [rtRbbBlkAlloc, hfree] at hs
    split at hs
    · cases hs
    · cases hs
      exact h
  | cons n free =>
    cases hlist : s.blkList with
    | nil =>
      simp only [fits, hfree, List.isEmpty_cons, Bool.false_or, hlist, decide_eq_true_eq] at hfits
      simp only [rtRbbBlkAlloc, hfree, hlist] at hs
      split at hs
      · cases hs
      split at hs
      · cases hs
      cases hs
      obtain ⟨hplaced, hinv⟩ := h.place hfree s.buf size
      have hinv' := hinv ⟨_, _, Layout.place_only hlist hplaced hfits⟩
      simpa only [hlist] using hinv'
    | cons a rest =>
      cases htail : s.tail with
      | none =>
        have hlast := h.tail
        rw [htail, hlist, List.getLast?_cons] at hlast
        cases hlast
      | some t => exact h.alloc_behind hfree hlist htail hfits hs

end alloc

/-! ## Runs -/

/-- Every allocation keeps clear of the three cases. -/
def Clear (s : State) : Op → Prop
  | .alloc size => fits s size = true
  | _ => True

instance (s : State) : (op : Op) → Decidable (Clear s op)
  | .alloc size => inferInstanceAs (Decidable (fits s size = true))
  | .put _ | .get | .free _ | .queueGet _ | .queueFree _ => .isTrue trivial

theorem step_inv {s s' : State} {op : Op} (h : Inv s) (hok : Clear s op)
    (hs : step s op = some s') : Inv s' := by
  cases op with
  | alloc size =>
    obtain ⟨⟨s₁, ret⟩, halloc, rfl⟩ := Option.map_eq_some_iff.mp hs
    exact h.alloc hok halloc
  | put b =>
    simp only [step] at hs
    split at hs
    · rw [rtRbbBlkPut] at hs
      split at hs
      · rename_i hst
        cases hs
        exact h.relabel (fun c => setStatus_memory _ _ _ _)
          (setStatus_unused (by simp [hst]) (by simp))
      · cases hs
    · cases hs
  | get =>
    cases hs
    rw [rtRbbBlkGet]
    cases hfind : s.blkList.find? fun b => (s.blk b).status = .put with
    | none => exact h
    | some b =>
      have hst := List.find?_some hfind
      have hst : (s.blk b).status = .put := by simpa using hst
      exact h.relabel (fun c => setStatus_memory _ _ _ _)
        (setStatus_unused (by simp [hst]) (by simp))
  | free b =>
    simp only [step] at hs
    split at hs
    · exact (h.free (by assumption) hs).1
    · cases hs
  | queueGet len =>
    cases hs
    exact h.relabel (fun c => (queueLoop_blk len s.blkList s.blk none 0 none c).1)
      fun c => (queueLoop_blk len s.blkList s.blk none 0 none c).2
  | queueFree queue =>
    simp only [step] at hs
    split at hs
    · rename_i hb
      refine h.queueFree (fun b hb' => ?_) hs
      obtain rfl : queue.blocks = b := Option.some.inj hb'
      exact hb
    · cases hs

theorem inv_init (blk : Id → Blk) {buf bufSize : Nat} (blkMaxNum : Nat)
    (hmemory : buf + bufSize < 2 ^ 32) : Inv (rtRbbInit blk buf bufSize blkMaxNum) where
  layout := ⟨[], [], rfl, fun _ => rfl, .nil, .nil, by simp [rtRbbInit], by simp⟩
  parted := by
    rw [rtRbbInit, List.append_nil]
    exact List.reverse_perm _
  tail := rfl
  unused := fun _ _ => rfl
  used := by simp [rtRbbInit]
  memory := hmemory

/-- The listed blocks are in the memory and apart, every descriptor is in one of the two lists,
and `tail` is the last node. -/
structure Safe (s : State) : Prop where
  inside : ∀ b ∈ s.blkList, s.buf ≤ (s.blk b).buf ∧ (s.blk b).stop ≤ s.buf + s.bufSize
  disjoint : s.blkList.Pairwise fun a b =>
    (s.blk a).stop ≤ (s.blk b).buf ∨ (s.blk b).stop ≤ (s.blk a).buf
  parted : (s.freeList ++ s.blkList).Perm (List.range s.blkMaxNum)
  tail : s.tail = s.blkList.getLast?

theorem ring_blk_safe (blk : Id → Blk) (buf bufSize blkMaxNum : Nat)
    (hmemory : buf + bufSize < 2 ^ 32) (ops : List Op) (s : State)
    (hok : Runs.Along step Clear (rtRbbInit blk buf bufSize blkMaxNum) ops)
    (hrun : Runs.run step (rtRbbInit blk buf bufSize blkMaxNum) ops = some s) : Safe s := by
  have h : Inv s := Runs.run_invariant_along (fun _ _ _ h hok hs => step_inv h hok hs)
    (inv_init blk blkMaxNum hmemory) hok hrun
  obtain ⟨upper, lower, hl⟩ := h.layout
  exact ⟨hl.inside, hl.disjoint, h.parted, h.tail⟩

/-- Three blocks of 4 bytes in a memory of 12, of which the first two are put, got as a queue and
freed; the next block begins the memory again. -/
def comeRound : List Op :=
  [.alloc 4, .alloc 4, .alloc 4, .put 3, .put 2, .queueGet 8, .queueFree ⟨3, 2⟩, .alloc 6]

def smallRing : State := rtRbbInit (fun _ => ⟨.unused, 0, 0⟩) 100 12 4

theorem ring_blk_safe_round :
    Runs.Along step Clear smallRing comeRound ∧
      ∃ s, Runs.run step smallRing comeRound = some s ∧ s.blkList = [1, 2] ∧
        s.blk 1 = ⟨.inited, 4, 108⟩ ∧ s.blk 2 = ⟨.inited, 6, 100⟩ ∧ Safe s := by
  have hok : Runs.Along step Clear smallRing comeRound := by decide +kernel
  have hlast : (Runs.run step smallRing comeRound).map (fun s => (s.blkList, s.blk 1, s.blk 2)) =
      some ([1, 2], ⟨.inited, 4, 108⟩, ⟨.inited, 6, 100⟩) := by decide +kernel
  obtain ⟨s, hrun, hs⟩ := Option.map_eq_some_iff.mp hlast
  simp only [Prod.mk.injEq] at hs
  exact ⟨hok, s, hrun, hs.1, hs.2.1, hs.2.2,
    ring_blk_safe _ 100 12 4 (by decide) comeRound s hok hrun⟩

/-- The first block is larger than the memory; an allocation that finds no room loses its
descriptor; and an empty block at the head of a list that has come round makes the next block
overlap the first one. -/
theorem ring_blk_unsafe :
    (∃ s, Runs.run step smallRing [.alloc 20] = some s ∧ s.blkList = [3] ∧
      s.blk 3 = ⟨.inited, 20, 100⟩ ∧ ¬ Safe s) ∧
    (∃ s, Runs.run step smallRing [.alloc 12, .alloc 1] = some s ∧ s.blkList = [3] ∧
      s.freeList = [1, 0] ∧ ¬ Safe s) ∧
    ∃ s, Runs.run step smallRing
        [.alloc 6, .alloc 6, .free 3, .alloc 6, .alloc 0, .alloc 6] = some s ∧
      s.blkList = [2, 3, 1, 0] ∧ s.blk 2 = ⟨.inited, 6, 106⟩ ∧ s.blk 0 = ⟨.inited, 6, 106⟩ ∧
      ¬ Safe s := by
  refine ⟨⟨_, rfl, rfl, rfl, fun h => ?_⟩, ⟨_, rfl, rfl, rfl, fun h => ?_⟩,
    ⟨_, rfl, rfl, rfl, rfl, fun h => ?_⟩⟩
  · exact absurd (h.inside 3 (by decide)).2 (by decide)
  · exact absurd h.parted.length_eq (by decide)
  · exact absurd h.disjoint (by decide)

end RtThread.RingBlk
