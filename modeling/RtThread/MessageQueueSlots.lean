import RtThread.Lib.Chain
import RtThread.MessageQueue

/-!
# The slots of a message queue

Every slot is in the free list, in the queue, or held by one thread that is between
the two sections of a call. The functions of the message queue move one slot at a
time from one of these places to another.
-/
namespace RtThread.MessageQueue

open Ipc LinkedChain

/-- The slot that a call between its two sections works on. -/
def Call.slot : Call → Option Slot
  | .filling _ slot _ => some slot
  | .linking _ slot _ => some slot
  | .copying slot _ => some slot
  | .freeing slot _ _ => some slot
  | .outside => none
  | .sending _ _ _ => none
  | .receiving _ _ _ => none

/-- The two lists of the `n` slots, and the slots held by threads. -/
structure Slots (n : Nat) (mq : RtMq) (held : ThreadId → Option Slot) (free queue : List Slot) :
    Prop where
  freeChain : Chain mq.next mq.msgQueueFree free
  queueChain : Chain mq.next mq.msgQueueHead queue
  tail : mq.msgQueueTail = queue.getLast?
  nodup : (free ++ queue).Nodup
  apart : ∀ t x, held t = some x → x ∉ free ++ queue
  single : ∀ t u x, held t = some x → held u = some x → t = u
  cover : ∀ x, x < n ↔ x ∈ free ++ queue ∨ ∃ t, held t = some x

section slots

variable {n : Nat} {mq : RtMq} {held : ThreadId → Option Slot} {free queue : List Slot} {x : Slot}
  {t : ThreadId}

variable {mq' : RtMq} {free' queue' : List Slot}

section

variable (h : Slots n mq held free queue)
include h

theorem Slots.of_fields (hnext : mq'.next = mq.next)
    (hhead : mq'.msgQueueHead = mq.msgQueueHead) (htail : mq'.msgQueueTail = mq.msgQueueTail)
    (hfree : mq'.msgQueueFree = mq.msgQueueFree) : Slots n mq' held free queue :=
  ⟨by rw [hnext, hfree]; exact h.freeChain, by rw [hnext, hhead]; exact h.queueChain,
    by rw [htail]; exact h.tail, h.nodup, h.apart, h.single, h.cover⟩

theorem Slots.length_le : (free ++ queue).length ≤ n := by
  have hsub : free ++ queue ⊆ List.range n := by
    intro y hy
    exact List.mem_range.mpr ((h.cover y).mpr (.inl hy))
  simpa using (List.subperm_of_subset h.nodup hsub).length_le

/-- A thread that holds a slot keeps one slot out of the lists. -/
theorem Slots.length_lt (hx : held t = some x) : (free ++ queue).length < n := by
  have hnd : (x :: (free ++ queue)).Nodup := List.nodup_cons.mpr ⟨h.apart t x hx, h.nodup⟩
  have hsub : x :: (free ++ queue) ⊆ List.range n := by
    intro y hy
    refine List.mem_range.mpr ((h.cover y).mpr ?_)
    obtain rfl | hy := List.mem_cons.mp hy
    · exact .inr ⟨t, hx⟩
    · exact .inl hy
  have hle := (List.subperm_of_subset hnd hsub).length_le
  rw [List.length_cons, List.length_range] at hle
  exact hle

/-- The thread takes a slot that is in one of the lists. -/
theorem Slots.hold (ht : held t = none) (hperm : (free ++ queue).Perm (x :: (free' ++ queue')))
    (hfree : Chain mq'.next mq'.msgQueueFree free')
    (hqueue : Chain mq'.next mq'.msgQueueHead queue') (htail : mq'.msgQueueTail = queue'.getLast?) :
    Slots n mq' (Function.update held t (some x)) free' queue' := by
  have hnd := (hperm.nodup_iff).mp h.nodup
  rw [List.nodup_cons] at hnd
  have hne : ∀ u y, held u = some y → u ≠ t := by
    rintro u y hu rfl
    rw [ht] at hu
    cases hu
  have hold : ∀ u y, held u = some y → y ≠ x ∧ y ∉ free' ++ queue' := by
    intro u y hu
    have := h.apart u y hu
    rw [hperm.mem_iff, List.mem_cons, not_or] at this
    exact this
  refine ⟨hfree, hqueue, htail, hnd.2, ?_, ?_, ?_⟩
  · intro u y hu
    by_cases hut : u = t
    · subst hut
      obtain rfl : x = y := by simpa using hu
      exact hnd.1
    · exact (hold u y (by simpa [hut] using hu)).2
  · intro u v y hu hv
    by_cases hut : u = t
    · by_cases hvt : v = t
      · rw [hut, hvt]
      · subst hut
        obtain rfl : x = y := by simpa using hu
        exact absurd rfl (hold v x (by simpa [hvt] using hv)).1
    · by_cases hvt : v = t
      · subst hvt
        obtain rfl : x = y := by simpa using hv
        exact absurd rfl (hold u x (by simpa [hut] using hu)).1
      · exact h.single u v y (by simpa [hut] using hu) (by simpa [hvt] using hv)
  · intro y
    rw [h.cover y, hperm.mem_iff, List.mem_cons]
    constructor
    · rintro ((rfl | hy) | ⟨u, hu⟩)
      · exact .inr ⟨t, by simp⟩
      · exact .inl hy
      · exact .inr ⟨u, by simpa [hne u y hu] using hu⟩
    · rintro (hy | ⟨u, hu⟩)
      · exact .inl (.inr hy)
      · by_cases hut : u = t
        · subst hut
          have hxy : x = y := by simpa using hu
          exact .inl (.inl hxy.symm)
        · exact .inr ⟨u, by simpa [hut] using hu⟩

/-- The thread puts the slot it holds into one of the lists. -/
theorem Slots.drop (ht : held t = some x) (hperm : (free' ++ queue').Perm (x :: (free ++ queue)))
    (hfree : Chain mq'.next mq'.msgQueueFree free')
    (hqueue : Chain mq'.next mq'.msgQueueHead queue') (htail : mq'.msgQueueTail = queue'.getLast?) :
    Slots n mq' (Function.update held t none) free' queue' := by
  have hnd : (x :: (free ++ queue)).Nodup := List.nodup_cons.mpr ⟨h.apart t x ht, h.nodup⟩
  have hother : ∀ u y, Function.update held t none u = some y → u ≠ t ∧ held u = some y := by
    intro u y hu
    by_cases hut : u = t
    · subst hut
      simp at hu
    · exact ⟨hut, by simpa [hut] using hu⟩
  refine ⟨hfree, hqueue, htail, hperm.nodup_iff.mpr hnd, ?_, ?_, ?_⟩
  · intro u y hu
    obtain ⟨hut, hu⟩ := hother u y hu
    rw [hperm.mem_iff, List.mem_cons, not_or]
    refine ⟨?_, h.apart u y hu⟩
    rintro rfl
    exact hut (h.single u t y hu ht)
  · intro u v y hu hv
    exact h.single u v y (hother u y hu).2 (hother v y hv).2
  · intro y
    rw [h.cover y, hperm.mem_iff, List.mem_cons]
    constructor
    · rintro (hy | ⟨u, hu⟩)
      · exact .inl (.inr hy)
      · by_cases hut : u = t
        · subst hut
          exact .inl (.inl (Option.some.inj (hu.symm.trans ht)))
        · exact .inr ⟨u, by simpa [hut] using hu⟩
    · rintro ((rfl | hy) | ⟨u, hu⟩)
      · exact .inr ⟨t, ht⟩
      · exact .inl hy
      · exact .inr ⟨u, (hother u y hu).2⟩

/-- Writing the slot a thread holds. -/
theorem Slots.write (ht : held t = some x) (v : Option Slot)
    (hnext : mq'.next = Function.update mq.next x v) (hhead : mq'.msgQueueHead = mq.msgQueueHead)
    (htail : mq'.msgQueueTail = mq.msgQueueTail) (hfree : mq'.msgQueueFree = mq.msgQueueFree) :
    Slots n mq' held free queue := by
  have hx := h.apart t x ht
  rw [List.mem_append, not_or] at hx
  refine ⟨?_, ?_, ?_, h.nodup, h.apart, h.single, h.cover⟩
  · rw [hnext, hfree]
    exact h.freeChain.update hx.1 v
  · rw [hnext, hhead]
    exact h.queueChain.update hx.2 v
  · rw [htail]
    exact h.tail

theorem Slots.takeFree (ht : held t = none) (hx : mq.msgQueueFree = some x) :
    ∃ free', free = x :: free' ∧
      Slots n (takeFree mq x) (Function.update held t (some x)) free' queue := by
  have hchain := h.freeChain
  rw [hx] at hchain
  obtain ⟨free', rfl, hrest⟩ := hchain.of_some
  exact ⟨free', rfl, h.hold ht (List.Perm.refl _) hrest h.queueChain h.tail⟩

theorem Slots.putFree (ht : held t = some x) :
    Slots n (putFree mq x) (Function.update held t none) (x :: free) queue := by
  have hx := h.apart t x ht
  rw [List.mem_append, not_or] at hx
  exact h.drop ht (List.Perm.refl _) (h.freeChain.push hx.1) (h.queueChain.update hx.2 _) h.tail

theorem Slots.unlinkHead (ht : held t = none) (hx : mq.msgQueueHead = some x) :
    ∃ queue', queue = x :: queue' ∧
      Slots n (unlinkHead mq x) (Function.update held t (some x)) free queue' := by
  have hchain := h.queueChain
  rw [hx] at hchain
  obtain ⟨queue', rfl, hrest⟩ := hchain.of_some
  have hnd := (List.nodup_append.mp h.nodup).2.1
  rw [List.nodup_cons] at hnd
  refine ⟨queue', rfl, h.hold ht List.perm_middle h.freeChain hrest ?_⟩
  simp only [MessageQueue.unlinkHead, h.tail]
  cases queue' with
  | nil => simp
  | cons y queue' =>
    have hlast : (x :: y :: queue').getLast? = (y :: queue').getLast? := rfl
    rw [hlast, if_neg]
    intro heq
    exact hnd.1 (List.mem_of_getLast? heq)

theorem Slots.linkHead (ht : held t = some x) :
    Slots n (linkHead mq x) (Function.update held t none) free (x :: queue) := by
  have hx := h.apart t x ht
  rw [List.mem_append, not_or] at hx
  refine h.drop ht List.perm_middle (h.freeChain.update hx.1 _) (h.queueChain.push hx.2) ?_
  simp only [MessageQueue.linkHead, h.tail]
  cases queue with
  | nil => simp
  | cons y queue =>
    have hlast : (x :: y :: queue).getLast? = (y :: queue).getLast? := rfl
    simp

theorem Slots.linkTail (ht : held t = some x) (hnext : mq.next x = none) :
    Slots n (linkTail mq x) (Function.update held t none) free (queue ++ [x]) := by
  have hx := h.apart t x ht
  rw [List.mem_append, not_or] at hx
  have hperm : (free ++ (queue ++ [x])).Perm (x :: (free ++ queue)) := by
    rw [← List.append_assoc]
    exact List.perm_append_singleton x _
  obtain ⟨-, hndq, hcross⟩ := List.nodup_append.mp h.nodup
  obtain rfl | ⟨q, y, rfl⟩ := List.eq_nil_or_concat queue
  · have hhead : mq.msgQueueHead = none := h.queueChain
    have htail : mq.msgQueueTail = none := h.tail
    refine h.drop ht hperm ?_ ?_ ?_
    · simpa [MessageQueue.linkTail, htail] using h.freeChain
    · simpa [MessageQueue.linkTail, htail, hhead, Chain] using hnext
    · simp [MessageQueue.linkTail]
  · rw [List.concat_eq_append] at *
    have htail : mq.msgQueueTail = some y := by simpa using h.tail
    have hhead : mq.msgQueueHead ≠ none := by
      intro hnone
      have hchain := h.queueChain
      rw [hnone] at hchain
      simpa using hchain.of_none
    have hyfree : y ∉ free := fun hy => hcross y hy y (by simp) rfl
    refine h.drop ht hperm ?_ ?_ ?_
    · simp only [MessageQueue.linkTail, htail]
      exact h.freeChain.update hyfree _
    · simp only [MessageQueue.linkTail, htail, if_neg hhead]
      rw [List.append_assoc]
      exact h.queueChain.append hndq hx.2 hnext
    · simp [MessageQueue.linkTail]

/-- The loop of the reset puts all queued slots into the free list. -/
theorem Slots.releaseAll {fuel : Nat} (ht : held t = none) (hfuel : queue.length ≤ fuel) :
    ∃ mq' free', releaseAll fuel mq = some mq' ∧ Slots n mq' held free' [] ∧
      mq'.msgSize = mq.msgSize ∧ mq'.maxMsgs = mq.maxMsgs ∧ mq'.bytes = mq.bytes ∧
      ∀ x, x ∉ queue → mq'.next x = mq.next x := by
  induction fuel generalizing mq free queue with
  | zero =>
    obtain rfl : queue = [] := List.eq_nil_of_length_eq_zero (by omega)
    have hhead : mq.msgQueueHead = none := h.queueChain
    exact ⟨mq, free, by rw [MessageQueue.releaseAll, hhead], h, rfl, rfl, rfl, fun _ _ => rfl⟩
  | succ fuel ih =>
    rw [MessageQueue.releaseAll]
    cases hhead : mq.msgQueueHead with
    | none =>
      have hchain := h.queueChain
      rw [hhead] at hchain
      obtain rfl := hchain.of_none
      exact ⟨mq, free, rfl, h, rfl, rfl, rfl, fun _ _ => rfl⟩
    | some x =>
      obtain ⟨queue', rfl, hun⟩ := h.unlinkHead ht hhead
      have hput := hun.putFree (Function.update_self t (some x) held)
      rw [Function.update_idem, ← ht, Function.update_eq_self] at hput
      obtain ⟨mq', free', hrel, hslots, hsize, hmax, hbytes, hnext⟩ := ih hput (by simpa using hfuel)
      refine ⟨mq', free', hrel, hslots, hsize, hmax, hbytes, fun y hy => ?_⟩
      rw [List.mem_cons, not_or] at hy
      rw [hnext y hy.2]
      exact Function.update_of_ne hy.1 _ _

end

/-- The lists after `rt_mq_init`. -/
theorem initFree_chain (next : Slot → Option Slot) (n : Nat) :
    Chain (initFree next n).1 (initFree next n).2 (List.range n).reverse := by
  induction n with
  | zero => exact chain_nil
  | succ n ih =>
    rw [List.range_succ, List.reverse_append]
    exact ih.push (by simp)

theorem slots_init (next : Slot → Option Slot) (bytes : Slot → Nat → Byte) (msgSize n : Nat) :
    Slots n (rtMqInit next bytes msgSize n) (fun _ => none) (List.range n).reverse [] where
  freeChain := initFree_chain next n
  queueChain := chain_nil
  tail := rfl
  nodup := by simpa using List.nodup_range
  apart := fun _ _ hx => by cases hx
  single := fun _ _ _ hx => by cases hx
  cover := fun x => by simp

end slots

end RtThread.MessageQueue
