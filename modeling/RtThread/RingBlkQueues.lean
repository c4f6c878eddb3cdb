import RtThread.RingBlkLists
import Mathlib.Data.List.Chain

/-!
# Block queues of a ring block buffer

`rt_rbb_blk_queue_get` takes the first block that is put and those behind it that are put
too, until the addresses fall or the size is reached. It does not compare the first block
with the size, takes blocks on both sides of a hole, and reads through the null pointer
when it comes to the end of the list.
-/
namespace RtThread.RingBlk

/-- The blocks are got. -/
def getAll (blk : Id → Blk) (l : List Id) : Id → Blk :=
  fun b => if b ∈ l then { blk b with status := .get } else blk b

/-- The memory of each block ends where that of the next one begins. -/
def Adjacent (blk : Id → Blk) (l : List Id) : Prop :=
  l.IsChain fun a b => (blk a).stop = (blk b).buf

def dataLen (blk : Id → Blk) (l : List Id) : Nat := (l.map fun b => (blk b).size).sum

/-- The blocks that the caller finds in a queue. -/
def queueBlocks (s : State) : Option BlkQueue → List Id
  | none => []
  | some queue => (s.blkList.dropWhile (· != queue.blocks)).take queue.blkNum

/-- A queue is a run of blocks without a gap, whose data are not longer than was asked for. -/
structure QueueOk (s : State) (len : Nat) : Prop where
  follows : none ∉ queueFollows s len
  put : ∀ b ∈ queueBlocks s (rtRbbBlkQueueGet s len).2.2, (s.blk b).status = .put
  count : ∀ queue, (rtRbbBlkQueueGet s len).2.2 = some queue →
    (queueBlocks s (some queue)).length = queue.blkNum
  marked : (rtRbbBlkQueueGet s len).1 =
    { s with blk := getAll s.blk (queueBlocks s (rtRbbBlkQueueGet s len).2.2) }
  adjacent : Adjacent s.blk (queueBlocks s (rtRbbBlkQueueGet s len).2.2)
  size : (rtRbbBlkQueueGet s len).2.1 =
    dataLen s.blk (queueBlocks s (rtRbbBlkQueueGet s len).2.2)
  bound : (rtRbbBlkQueueGet s len).2.1 ≤ len
  next : len = 2 ^ 32 - 1 → (rtRbbBlkQueueGet s len).2.1 = rtRbbNextBlkQueueLen s

/-- The block `c` ends a queue with the last block `last` and `total` bytes. -/
def Ends (blk : Id → Blk) (len : Nat) (last : Id) (total : Nat) (c : Id) : Prop :=
  (blk c).status ≠ .put ∨ (blk c).buf < (blk last).buf ∨ len < wadd 32 total (blk c).size

instance (blk : Id → Blk) (len : Nat) (last : Id) (total : Nat) (c : Id) :
    Decidable (Ends blk len last total c) :=
  inferInstanceAs (Decidable (_ ∨ _ ∨ _))

/-- Behind the first block that is put there are blocks without a gap that fit, and then one that
ends the queue. -/
def Ready (s : State) (len : Nat) : Prop :=
  s.blkList = [] ∨ ∃ pre b bs c post, s.blkList = pre ++ b :: (bs ++ c :: post) ∧
    (∀ a ∈ pre, (s.blk a).status ≠ .put) ∧ (∀ a ∈ b :: bs, (s.blk a).status = .put) ∧
    Adjacent s.blk (b :: bs) ∧ dataLen s.blk (b :: bs) ≤ len ∧
    Ends s.blk len (bs.getLastD b) (dataLen s.blk (b :: bs)) c

/-- The blocks that are taken behind the block `last`. -/
def taken (blk : Id → Blk) (len : Nat) : Id → Nat → List Id → List Id
  | _, _, [] => []
  | last, total, c :: cs =>
    if Ends blk len last total c then []
    else c :: taken blk len c (wadd 32 total (blk c).size) cs

/-- The total after some more blocks, in words. -/
def totalAfter (blk : Id → Blk) (total : Nat) (l : List Id) : Nat :=
  l.foldl (fun total b => wadd 32 total (blk b).size) total

/-! ## The loops -/

section loops

variable {blk blk' : Id → Blk} {len total : Nat} {last b : Id} {l pre : List Id}
  {queue : Option BlkQueue}

theorem getAll_cons (b : Id) (l : List Id) :
    getAll (setStatus blk b .get) l = getAll blk (b :: l) := by
  funext c
  by_cases hc : c = b
  · subst hc
    by_cases hl : c ∈ l <;> simp [getAll, setStatus, hl]
  · by_cases hl : c ∈ l <;> simp [getAll, setStatus, hl, hc]

/-- Only the memory of the last block and the blocks to come matter. -/
theorem taken_congr (hlast : (blk' last).buf = (blk last).buf) (heq : ∀ b ∈ l, blk' b = blk b) :
    taken blk' len last total l = taken blk len last total l := by
  induction l generalizing last total with
  | nil => rfl
  | cons c l ih =>
    have hc := heq c List.mem_cons_self
    have hends : Ends blk' len last total c ↔ Ends blk len last total c := by
      rw [Ends, Ends, hc, hlast]
    rw [taken, taken, hc]
    simp only [hends]
    rw [ih (by rw [hc]) fun b hb => heq b (List.mem_cons_of_mem c hb)]

theorem totalAfter_congr (heq : ∀ b ∈ l, blk' b = blk b) :
    totalAfter blk' total l = totalAfter blk total l := by
  induction l generalizing total with
  | nil => rfl
  | cons c l ih =>
    rw [totalAfter, totalAfter, List.foldl_cons, List.foldl_cons, heq c List.mem_cons_self]
    exact ih fun b hb => heq b (List.mem_cons_of_mem c hb)

theorem taken_isFront : taken blk len last total l <+: l := by
  induction l generalizing last total with
  | nil => exact List.prefix_refl _
  | cons c l ih =>
    rw [taken]
    split
    · exact List.nil_prefix
    · exact (List.prefix_cons_inj c).mpr ih

theorem setStatus_of_ne {c : Id} {status : Status} (h : c ≠ b) :
    setStatus blk b status c = blk c := Function.update_of_ne h _ _

/-- The loop of `rt_rbb_blk_queue_get` behind the first block. -/
theorem queueLoop_some (hnd : l.Nodup) :
    queueLoop len l blk (some last) total queue =
      (getAll blk (taken blk len last total l), totalAfter blk total (taken blk len last total l),
        queue.map fun q => { q with blkNum := q.blkNum + (taken blk len last total l).length }) := by
  induction l generalizing blk last total queue with
  | nil =>
    have hall : getAll blk [] = blk := by
      funext b
      simp [getAll]
    simp [queueLoop, taken, totalAfter, hall]
  | cons c l ih =>
    obtain ⟨hc, hnd⟩ := List.nodup_cons.mp hnd
    have heq : ∀ b ∈ l, setStatus blk c .get b = blk b := fun b hb =>
      setStatus_of_ne fun h => hc (h ▸ hb)
    rw [queueLoop, taken]
    by_cases hends : Ends blk len last total c
    · have hall : getAll blk [] = blk := by
        funext b
        simp [getAll]
      rw [if_pos hends]
      rw [Ends] at hends
      rw [if_pos hends]
      simp [totalAfter, hall]
    · rw [if_neg hends]
      rw [Ends] at hends
      rw [if_neg hends, ih hnd, taken_congr (setStatus_memory blk c c .get).1 heq, getAll_cons]
      have hsub : ∀ b ∈ taken blk len c (wadd 32 total (blk c).size) l,
          setStatus blk c .get b = blk b := fun b hb => heq b (taken_isFront.subset hb)
      rw [totalAfter_congr hsub, Option.map_map]
      refine Prod.ext rfl (Prod.ext rfl ?_)
      dsimp only
      congr 1
      funext q
      simp only [Function.comp, List.length_cons]
      congr 1
      omega

/-- It comes to the end of the list when it takes all blocks. -/
theorem followLoop_some (hnd : l.Nodup) :
    none ∈ followLoop len l blk (some last) total ↔
      l ≠ [] ∧ taken blk len last total l = l := by
  induction l generalizing blk last total with
  | nil => simp [followLoop]
  | cons c l ih =>
    obtain ⟨hc, hnd⟩ := List.nodup_cons.mp hnd
    have heq : ∀ b ∈ l, setStatus blk c .get b = blk b := fun b hb =>
      setStatus_of_ne fun h => hc (h ▸ hb)
    rw [followLoop, taken]
    by_cases hends : Ends blk len last total c
    · rw [if_pos hends]
      rw [Ends] at hends
      rw [if_pos hends]
      simp
    · rw [if_neg hends]
      rw [Ends] at hends
      rw [if_neg hends, List.mem_cons, ih hnd, taken_congr (setStatus_memory blk c c .get).1 heq]
      cases l with
      | nil => simp [taken]
      | cons d l => simp

theorem nextLoop_some :
    nextLoop blk l (some last) total =
      totalAfter blk total (taken blk (2 ^ 32 - 1) last total l) := by
  induction l generalizing last total with
  | nil => rfl
  | cons c l ih =>
    have hword : wadd 32 total (blk c).size < 2 ^ 32 := Nat.mod_lt _ (by decide)
    have hends : Ends blk (2 ^ 32 - 1) last total c ↔
        (blk c).status ≠ .put ∨ (blk c).buf < (blk last).buf := by
      rw [Ends, or_congr_right (or_iff_left (by omega))]
    rw [nextLoop, taken]
    simp only [hends]
    split
    · rfl
    · rw [ih]
      rfl

/-! ### Before the first block -/

theorem queueLoop_skip (hpre : ∀ a ∈ pre, (blk a).status ≠ .put) :
    queueLoop len (pre ++ l) blk none total queue = queueLoop len l blk none total queue := by
  induction pre with
  | nil => rfl
  | cons a pre ih =>
    rw [List.cons_append, queueLoop, if_neg (hpre a List.mem_cons_self)]
    exact ih fun b hb => hpre b (List.mem_cons_of_mem a hb)

theorem followLoop_skip (hpre : ∀ a ∈ pre, (blk a).status ≠ .put) :
    none ∈ followLoop len (pre ++ l) blk none total ↔
      (pre ≠ [] ∧ l = []) ∨ none ∈ followLoop len l blk none total := by
  induction pre with
  | nil => simp
  | cons a pre ih =>
    rw [List.cons_append, followLoop, if_neg (hpre a List.mem_cons_self), List.mem_cons,
      ih fun b hb => hpre b (List.mem_cons_of_mem a hb)]
    cases pre <;> cases l <;> simp

theorem nextLoop_skip (hpre : ∀ a ∈ pre, (blk a).status ≠ .put) :
    nextLoop blk (pre ++ l) none total = nextLoop blk l none total := by
  induction pre with
  | nil => rfl
  | cons a pre ih =>
    rw [List.cons_append, nextLoop, if_pos (hpre a List.mem_cons_self)]
    exact ih fun b hb => hpre b (List.mem_cons_of_mem a hb)

/-! ### The blocks that are taken -/

theorem dataLen_cons (b : Id) (l : List Id) :
    dataLen blk (b :: l) = (blk b).size + dataLen blk l := by
  rfl

theorem taken_stops {c : Id} {post : List Id}
    (htaken : taken blk len last total (l ++ c :: post) = l) :
    Ends blk len (l.getLastD last) (totalAfter blk total l) c := by
  induction l generalizing last total with
  | nil =>
    by_contra hends
    have hgoes : ¬ Ends blk len last total c := hends
    rw [List.nil_append, taken, if_neg hgoes] at htaken
    exact List.cons_ne_nil _ _ htaken
  | cons d l ih =>
    rw [List.cons_append, taken] at htaken
    split at htaken
    · exact absurd htaken.symm (List.cons_ne_nil d l)
    · rw [List.getLastD_cons]
      exact ih (List.cons.inj htaken).2

/-- Adjacent blocks that fit are all taken, and their sizes are added without a wrap. -/
theorem taken_adjacent {c : Id} {post : List Id} (hlen : len < 2 ^ 32)
    (hput : ∀ a ∈ l, (blk a).status = .put) (hadj : Adjacent blk (last :: l))
    (hfits : total + dataLen blk l ≤ len)
    (hends : Ends blk len (l.getLastD last) (total + dataLen blk l) c) :
    taken blk len last total (l ++ c :: post) = l ∧
      totalAfter blk total l = total + dataLen blk l := by
  induction l generalizing last total with
  | nil => exact ⟨if_pos hends, rfl⟩
  | cons d l ih =>
    obtain ⟨hstop, hadj⟩ := List.isChain_cons_cons.mp hadj
    rw [dataLen_cons] at hfits
    rw [List.getLastD_cons, dataLen_cons, ← Nat.add_assoc] at hends
    have hwadd : wadd 32 total (blk d).size = total + (blk d).size := wadd_eq (by omega)
    have hgoes : ¬ Ends blk len last total d := by
      have hd := hput d List.mem_cons_self
      rw [Ends, hwadd, ← hstop, Blk.stop]
      rintro (hne | hlt | hlong)
      · exact hne hd
      · omega
      · omega
    obtain ⟨htaken, htotal⟩ := ih (fun a ha => hput a (List.mem_cons_of_mem d ha)) hadj
      (show total + (blk d).size + dataLen blk l ≤ len by omega) hends
    constructor
    · rw [List.cons_append, taken, if_neg hgoes, hwadd, htaken]
    · rw [totalAfter, List.foldl_cons, hwadd, ← totalAfter, htotal, dataLen_cons]
      omega

/-- The first block that is put. -/
theorem exists_put (blk : Id → Blk) (l : List Id) :
    (∀ a ∈ l, (blk a).status ≠ .put) ∨ ∃ pre b rest, l = pre ++ b :: rest ∧
      (∀ a ∈ pre, (blk a).status ≠ .put) ∧ (blk b).status = .put := by
  induction l with
  | nil => exact .inl fun a ha => absurd ha List.not_mem_nil
  | cons c l ih =>
    by_cases hc : (blk c).status = .put
    · exact .inr ⟨[], c, l, rfl, fun a ha => absurd ha List.not_mem_nil, hc⟩
    · obtain hnone | ⟨pre, b, rest, rfl, hpre, hb⟩ := ih
      · exact .inl (List.forall_mem_cons.mpr ⟨hc, hnone⟩)
      · exact .inr ⟨c :: pre, b, rest, rfl, List.forall_mem_cons.mpr ⟨hc, hpre⟩, hb⟩

end loops

/-! ## The calls -/

section calls

variable {s : State} {len : Nat} {b : Id} {pre rest : List Id}

/-- An empty buffer gives no queue. -/
theorem queueOk_nil (hnil : s.blkList = []) : QueueOk s len := by
  have hget : rtRbbBlkQueueGet s len = (s, 0, none) := by
    have hloop : queueLoop len s.blkList s.blk none 0 none = (s.blk, 0, none) := by
      rw [hnil]
      rfl
    rw [rtRbbBlkQueueGet, hloop]
  have hall : getAll s.blk [] = s.blk := by
    funext b
    simp [getAll]
  refine ⟨?_, ?_, ?_, ?_, ?_, ?_, ?_, fun _ => ?_⟩
  · rw [queueFollows, if_pos hnil]
    exact List.not_mem_nil
  · rw [hget]
    exact fun b hb => absurd hb List.not_mem_nil
  · rw [hget]
    exact fun queue hq => nomatch hq
  · rw [hget, queueBlocks, hall]
  · rw [hget]
    exact List.IsChain.nil
  · rw [hget]
    rfl
  · rw [hget]
    exact Nat.zero_le _
  · rw [hget, rtRbbNextBlkQueueLen, hnil]
    rfl

/-- Without a block that is put the loop comes to the end of the list. -/
theorem follows_none (hnone : ∀ a ∈ s.blkList, (s.blk a).status ≠ .put) (hne : s.blkList ≠ []) :
    none ∈ queueFollows s len := by
  have hskip := (@followLoop_skip s.blk len 0 [] s.blkList hnone).mpr (.inl ⟨hne, rfl⟩)
  rw [List.append_nil] at hskip
  rw [queueFollows, if_neg hne]
  exact List.mem_cons_of_mem _ hskip

/-- The queue begins with the first block that is put. -/
theorem get_run (hnd : s.blkList.Nodup) (hlist : s.blkList = pre ++ b :: rest)
    (hpre : ∀ a ∈ pre, (s.blk a).status ≠ .put) (hb : (s.blk b).status = .put)
    {l : List Id} (hl : taken s.blk len b (wadd 32 0 (s.blk b).size) rest = l) :
    rtRbbBlkQueueGet s len =
      ({ s with blk := getAll s.blk (b :: l) }, totalAfter s.blk 0 (b :: l),
        some ⟨b, l.length + 1⟩) ∧
      (none ∈ queueFollows s len ↔ l = rest) ∧
      queueBlocks s (some ⟨b, l.length + 1⟩) = b :: l := by
  rw [hlist] at hnd
  obtain ⟨-, hnd, hdisj⟩ := List.nodup_append.mp hnd
  obtain ⟨hbrest, hnd⟩ := List.nodup_cons.mp hnd
  have heq : ∀ a ∈ rest, setStatus s.blk b .get a = s.blk a := fun a ha =>
    setStatus_of_ne fun h => hbrest (h ▸ ha)
  have hcongr := fun total => @taken_congr s.blk (setStatus s.blk b .get) len total b rest
    (setStatus_memory s.blk b b .get).1 heq
  have hfront : l <+: rest := hl ▸ taken_isFront
  refine ⟨?_, ?_, ?_⟩
  · rw [rtRbbBlkQueueGet, hlist, queueLoop_skip hpre, queueLoop, if_pos hb, queueLoop_some hnd,
      hcongr, hl, getAll_cons, totalAfter_congr fun a ha => heq a (hfront.subset ha),
      Option.map_some, Nat.add_comm 1]
    rfl
  · rw [queueFollows, if_neg (by rw [hlist]; simp), hlist, List.mem_cons, followLoop_skip hpre,
      followLoop, if_pos hb, List.mem_cons, followLoop_some hnd, hcongr, hl]
    cases rest with
    | nil =>
      rw [List.prefix_nil.mp hfront]
      simp
    | cons c rest =>
      cases pre <;> simp
  · have hdrop : (pre ++ b :: rest).dropWhile (· != b) = b :: rest := by
      rw [List.dropWhile_append_of_pos]
      · simp
      · intro a ha
        have hab : a ≠ b := hdisj a ha b List.mem_cons_self
        simpa using hab
    rw [queueBlocks, hlist, hdrop, List.take_succ_cons, ← List.prefix_iff_eq_take.mp hfront]

theorem next_run (hlist : s.blkList = pre ++ b :: rest)
    (hpre : ∀ a ∈ pre, (s.blk a).status ≠ .put) (hb : (s.blk b).status = .put) :
    rtRbbNextBlkQueueLen s = totalAfter s.blk 0
      (b :: taken s.blk (2 ^ 32 - 1) b (wadd 32 0 (s.blk b).size) rest) := by
  rw [rtRbbNextBlkQueueLen, hlist, nextLoop_skip hpre, nextLoop, if_neg (not_not.mpr hb),
    nextLoop_some]
  rfl

theorem Listed.queueOk_iff (h : Listed s) (hlen : len < 2 ^ 32) :
    QueueOk s len ↔ Ready s len := by
  constructor
  · intro hok
    by_cases hnil : s.blkList = []
    · exact .inl hnil
    obtain hnone | ⟨pre, b, rest, hlist, hpre, hb⟩ := exists_put s.blk s.blkList
    · exact absurd (follows_none hnone hnil) hok.follows
    obtain ⟨l, hl⟩ : ∃ l, taken s.blk len b (wadd 32 0 (s.blk b).size) rest = l := ⟨_, rfl⟩
    obtain ⟨hget, hfollows, hblocks⟩ := get_run h.list hlist hpre hb hl
    obtain ⟨post, hpost⟩ : l <+: rest := hl ▸ taken_isFront
    have hput := hok.put
    have hadj := hok.adjacent
    have hsize := hok.size
    have hbound := hok.bound
    rw [hget] at hput hadj hsize hbound
    dsimp only at hput hadj hsize hbound
    rw [hblocks] at hput hadj hsize
    cases post with
    | nil =>
      rw [List.append_nil] at hpost
      exact absurd (hfollows.mpr hpost) hok.follows
    | cons c post =>
      rw [← hpost] at hl hlist
      refine .inr ⟨pre, b, l, c, post, hlist, hpre, hput, hadj, by rw [← hsize]; exact hbound, ?_⟩
      rw [← hsize]
      exact taken_stops hl
  · rintro (hnil | ⟨pre, b, l, c, post, hlist, hpre, hput, hadj, hfits, hends⟩)
    · exact queueOk_nil hnil
    have hb := hput b List.mem_cons_self
    rw [dataLen_cons] at hfits hends
    have hzero : wadd 32 0 (s.blk b).size = (s.blk b).size := by
      rw [wadd_eq (by omega), Nat.zero_add]
    obtain ⟨hl, htotal⟩ := @taken_adjacent s.blk len (s.blk b).size b l c post hlen
      (fun a ha => hput a (List.mem_cons_of_mem b ha)) hadj hfits hends
    rw [← hzero] at hl
    obtain ⟨hget, hfollows, hblocks⟩ := get_run h.list hlist hpre hb hl
    have hsum : totalAfter s.blk 0 (b :: l) = dataLen s.blk (b :: l) := by
      rw [totalAfter, List.foldl_cons, hzero, ← totalAfter, htotal, dataLen_cons]
    rw [hsum] at hget
    refine ⟨fun hnull => ?_, ?_, ?_, ?_, ?_, ?_, ?_, fun hmax => ?_⟩
    · have hself := congrArg List.length (hfollows.mp hnull)
      rw [List.length_append, List.length_cons] at hself
      omega
    · rw [hget]
      rw [hblocks]
      exact hput
    · rw [hget]
      intro queue hqueue
      cases hqueue
      rw [hblocks, List.length_cons]
    · rw [hget]
      rw [hblocks]
    · rw [hget]
      rw [hblocks]
      exact hadj
    · rw [hget]
      rw [hblocks]
    · rw [hget]
      rw [dataLen_cons]
      exact hfits
    · rw [hget, next_run hlist hpre hb, ← hmax, hl]
      exact hsum.symm

/-- A queue is a run of blocks without a gap, exactly when the blocks that are put have no hole
between them, fit, and do not come to the end of the list. -/
theorem queue_get_exact (blk : Id → Blk) (buf bufSize blkMaxNum : Nat) (ops : List Op)
    (hrun : Runs.run step (rtRbbInit blk buf bufSize blkMaxNum) ops = some s)
    (hlen : len < 2 ^ 32) : QueueOk s len ↔ Ready s len :=
  (run_listed hrun).queueOk_iff hlen

/-- Two blocks of 4 bytes that are put, before one that is not. -/
theorem queue_get_exact_two :
    ∃ s, Runs.run step smallRing [.alloc 4, .alloc 4, .alloc 4, .put 3, .put 2] = some s ∧
      QueueOk s 8 := by
  have hrun : Runs.run step smallRing [.alloc 4, .alloc 4, .alloc 4, .put 3, .put 2] = some _ := rfl
  refine ⟨_, hrun, (queue_get_exact _ 100 12 4 _ hrun (by decide)).mpr ?_⟩
  exact .inr ⟨[], 3, [2], 1, [], rfl, by decide, by decide,
    List.isChain_pair.mpr (by decide), by decide, by decide⟩

/-- A queue that comes to the end of the list, one with a hole, and one that is longer than was
asked for. -/
theorem queue_get_not_exact :
    (∃ s, Runs.run step smallRing [.alloc 4, .put 3] = some s ∧ none ∈ queueFollows s 4 ∧
      ¬ QueueOk s 4) ∧
    (∃ s, Runs.run step smallRing [.alloc 3, .alloc 3, .alloc 3, .alloc 3, .put 3, .put 2, .put 1,
        .free 2] = some s ∧ (rtRbbBlkQueueGet s 12).2 = (6, some ⟨3, 2⟩) ∧
        (s.blk 3).buf = 100 ∧ (s.blk 1).buf = 106 ∧ ¬ QueueOk s 12) ∧
    ∃ s, Runs.run step smallRing [.alloc 4, .alloc 4, .put 3] = some s ∧
      (rtRbbBlkQueueGet s 2).2.1 = 4 ∧ ¬ QueueOk s 2 := by
  refine ⟨⟨_, rfl, by decide, fun hok => hok.follows (by decide)⟩,
    ⟨_, rfl, rfl, rfl, rfl, fun hok => ?_⟩, ⟨_, rfl, rfl, fun hok => ?_⟩⟩
  · have hadj := hok.adjacent
    exact absurd (List.isChain_pair.mp hadj) (by decide)
  · exact absurd hok.bound (by decide)

end calls

end RtThread.RingBlk
