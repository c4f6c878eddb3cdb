import RtThread.RtLinkPeers

/-!
# The frames a peer has queued

What a peer sends with is its outgoing half: `tx_seq`, the list of frames, and the messages
behind it. The list holds the frames of the messages that have not ended, in order, and their
sequence numbers are the ones that end with `tx_seq`.
-/
namespace RtThread.RtLink

open Ringbuffer (Byte)

/-- The part of a peer that sends. -/
structure Outgoing where
  seq : Nat
  queue : List SendFrame
  num : Nat
  messages : List Message
  ended : List LinkErr
  started : Nat

/-- The part of a peer that receives. -/
structure Incoming where
  seq : Nat
  total : Nat
  count : Nat
  space : Option (Nat → Byte)
  mask : Nat
  num : Nat
  delivered : List (Nat × List Byte)

def Peer.outgoing (x : Peer) : Outgoing :=
  ⟨x.session.txSeq, x.session.txList, x.txNum, x.messages, x.ended, x.started⟩

def Peer.incoming (x : Peer) : Incoming :=
  ⟨x.session.rxSeq, x.session.rxTotal, x.session.longCount, x.session.dataspace,
    x.session.ackMask, x.rxNum, x.delivered⟩

/-- The number of frames of a message. -/
def Message.count (m : Message) : Nat := frameCount m.data.length

/-- The number of the last frame of a message. -/
def Message.last (m : Message) : Nat := m.base + m.count

/-- A frame as it was queued, whether it has been sent or not. -/
def SendFrame.unsent (f : SendFrame) : SendFrame := { f with issent := false }

/-- The messages that have not ended. -/
def Outgoing.queued (o : Outgoing) : List Message := o.messages.drop o.ended.length

/-- The number before the first frame of the list. -/
def Outgoing.base (o : Outgoing) : Nat := o.num - o.queue.length

/-- The messages follow each other from a number on. -/
def Chained : Nat → List Message → Prop
  | _, [] => True
  | b, m :: ms => m.base = b ∧ Chained (b + m.count) ms

/-- The list holds the frames of the messages that have not ended. -/
structure Outgoing.Ok (c : Config) (o : Outgoing) : Prop where
  seq : o.seq = o.num % 2 ^ 8
  size : ∀ m ∈ o.messages, m.data ≠ [] ∧ m.count ≤ framesMax
  order : o.messages.Pairwise fun m n => m.last ≤ n.base
  last : ∀ m ∈ o.messages, m.last ≤ o.num
  ended : o.ended.length ≤ o.messages.length
  started : o.started ≤ o.ended.length + 1
  started_le : o.started ≤ o.messages.length
  queue : o.queue.map SendFrame.unsent = o.queued.flatMap (messageFrames c)
  chained : Chained o.base o.queued
  fits : o.queue.length ≤ o.num

/-! ## The frames of a message -/

variable {c : Config} {m : Message} {o : Outgoing}

variable {b j n : Nat} {f : SendFrame} {l : List SendFrame} {ms : List Message}

theorem frameCount_pos (h : 0 < n) : 0 < frameCount n := by
  unfold frameCount maxDataLength
  split <;> omega

/-- The frames of a message hold all of its bytes, and the last frame one at least. -/
theorem frameCount_bounds (h : 0 < n) :
    maxDataLength * (frameCount n - 1) < n ∧ n ≤ maxDataLength * frameCount n := by
  unfold frameCount maxDataLength
  split <;> omega

theorem Message.count_pos (h : m.data ≠ []) : 0 < m.count :=
  frameCount_pos (List.length_pos_of_ne_nil h)

@[simp] theorem length_messageFrames : (messageFrames c m).length = m.count := by
  simp [messageFrames, Message.count]

theorem messageFrames_getElem? (h : j < m.count) :
    (messageFrames c m)[j]? = some (messageFrame c m j) := by
  unfold Message.count at h
  simp [messageFrames, h]

theorem mem_messageFrames (h : f ∈ messageFrames c m) : ∃ j < m.count, f = messageFrame c m j := by
  obtain ⟨j, hj, rfl⟩ := List.mem_map.mp h
  exact ⟨j, List.mem_range.mp hj, rfl⟩

theorem messageFrame_attr (j : Nat) :
    (messageFrame c m j).attr = .shortData ∨ (messageFrame c m j).attr = .longData := by
  unfold messageFrame
  dsimp only
  split
  · exact .inr rfl
  · exact .inl rfl

@[simp] theorem unsent_wire (f : SendFrame) : f.unsent.wire = f.wire := rfl

@[simp] theorem messageFrame_unsent (j : Nat) :
    (messageFrame c m j).unsent = messageFrame c m j := rfl

theorem map_unsent_messageFrames :
    (messageFrames c m).map SendFrame.unsent = messageFrames c m := by
  simp [messageFrames, Function.comp_def]

theorem removeFrames_eq_drop {service : Nat} (h : ∀ f ∈ l, f.head.service = service) :
    removeFrames service n l = l.drop n := by
  induction l generalizing n with
  | nil => cases n <;> rfl
  | cons f l ih =>
    cases n with
    | zero => rfl
    | succ n =>
      rw [removeFrames, if_pos (h f List.mem_cons_self), List.drop_succ_cons]
      exact ih fun g hg => h g (List.mem_cons_of_mem f hg)

/-! ## Sequence numbers -/

theorem range_sequences (b n k : Nat) : (List.range (n + k)).map (fun i => (b + 1 + i) % 2 ^ 8) =
      (List.range n).map (fun i => (b + 1 + i) % 2 ^ 8) ++
        (List.range k).map fun i => (b + n + 1 + i) % 2 ^ 8 := by
  rw [List.range_add, List.map_append, List.map_map]
  congr 1
  apply List.map_congr_left
  intro i _
  show (b + 1 + (n + i)) % 2 ^ 8 = (b + n + 1 + i) % 2 ^ 8
  congr 1
  omega

/-- The frames of messages that follow each other have successive sequence numbers. -/
theorem Chained.sequences (h : Chained b ms) :
    (ms.flatMap (messageFrames c)).map (fun f => f.head.sequence) =
      (List.range (ms.flatMap (messageFrames c)).length).map fun i => (b + 1 + i) % 2 ^ 8 := by
  induction ms generalizing b with
  | nil => rfl
  | cons m ms ih =>
    obtain ⟨rfl, hms⟩ := h
    rw [List.flatMap_cons, List.map_append, List.length_append, range_sequences, ih hms,
      length_messageFrames]
    congr 1
    rw [messageFrames, List.map_map]
    rfl

theorem Chained.append {n : Message} (h : Chained b ms)
    (hn : n.base = b + (ms.flatMap (messageFrames c)).length) : Chained b (ms ++ [n]) := by
  induction ms generalizing b with
  | nil => exact ⟨by simpa using hn, trivial⟩
  | cons m ms ih =>
    refine ⟨h.1, ih h.2 ?_⟩
    rw [List.flatMap_cons, List.length_append, length_messageFrames] at hn
    omega

theorem Outgoing.queued_eq_cons (hm : o.messages[o.ended.length]? = some m) :
    o.queued = m :: o.messages.drop (o.ended.length + 1) := by
  obtain ⟨hlt, rfl⟩ := List.getElem?_eq_some_iff.mp hm
  exact List.drop_eq_getElem_cons hlt

namespace Outgoing.Ok

theorem length_queue (h : o.Ok c) :
    o.queue.length = (o.queued.flatMap (messageFrames c)).length := by
  rw [← h.queue, List.length_map]

theorem base_add (h : o.Ok c) : o.base + o.queue.length = o.num :=
  Nat.sub_add_cancel h.fits

/-- The sequence number of the frame at a place of the list. -/
theorem sequence (h : o.Ok c) {i : Nat} (hf : o.queue[i]? = some f) :
    f.head.sequence = (o.base + 1 + i) % 2 ^ 8 := by
  have hi : i < o.queue.length := (List.getElem?_eq_some_iff.mp hf).1
  have hseq := congrArg (fun l => l[i]?) (h.chained.sequences (c := c))
  rw [← h.queue] at hseq
  simp only [List.map_map, List.length_map, List.getElem?_map, hf, List.getElem?_range hi,
    Option.map_some, Option.some.injEq] at hseq
  exact hseq

variable {k : Nat}

section

variable (h : o.Ok c)
include h

/-- Messages in the order of their numbers. -/
theorem last_le_base {m n : Message} (hm : o.messages[j]? = some m)
    (hn : o.messages[k]? = some n) (hjk : j < k) : m.last ≤ n.base := by
  obtain ⟨hj, rfl⟩ := List.getElem?_eq_some_iff.mp hm
  obtain ⟨hk, rfl⟩ := List.getElem?_eq_some_iff.mp hn
  exact List.pairwise_iff_getElem.mp h.order j k hj hk hjk

theorem base_lt_last {m : Message} (hm : o.messages[k]? = some m) : m.base < m.last := by
  have := Message.count_pos (h.size m (List.mem_of_getElem? hm)).1
  unfold Message.last
  omega

/-- Two messages that share a number are the same. -/
theorem index_unique {m m' : Message} (hm : o.messages[j]? = some m)
    (hm' : o.messages[k]? = some m') (hlo : m.base < n) (hhi : n ≤ m.last) (hlo' : m'.base < n)
    (hhi' : n ≤ m'.last) : j = k := by
  rcases Nat.lt_trichotomy j k with hlt | heq | hgt
  · have := h.last_le_base hm hm' hlt
    omega
  · exact heq
  · have := h.last_le_base hm' hm hgt
    omega

/-- The list starts with the frames of the first message that has not ended. -/
theorem queue_eq (hm : o.messages[o.ended.length]? = some m) :
    o.queue.map SendFrame.unsent = messageFrames c m ++
      (o.messages.drop (o.ended.length + 1)).flatMap (messageFrames c) := by
  rw [h.queue, Outgoing.queued_eq_cons hm, List.flatMap_cons]

theorem base_eq (hm : o.messages[o.ended.length]? = some m) : o.base = m.base := by
  have hchain := h.chained
  rw [Outgoing.queued_eq_cons hm] at hchain
  exact hchain.1.symm

theorem count_le (hm : o.messages[o.ended.length]? = some m) : m.count ≤ o.queue.length := by
  have := congrArg List.length (h.queue_eq hm)
  rw [List.length_map, List.length_append, length_messageFrames] at this
  omega

/-- A frame at one of the first places of the list. -/
theorem frame_eq (hm : o.messages[o.ended.length]? = some m)
    (hf : o.queue[j]? = some f) (hj : j < m.count) : f.unsent = messageFrame c m j := by
  have heq := congrArg (fun l => l[j]?) (h.queue_eq hm)
  simp only [List.getElem?_map, hf, Option.map_some] at heq
  rw [List.getElem?_append_left (by simpa using hj), messageFrames_getElem? hj] at heq
  exact Option.some.inj heq

/-- Where there is a frame, there is a message that has not ended. -/
theorem exists_message (hne : o.queue ≠ []) : ∃ m, o.messages[o.ended.length]? = some m := by
  by_contra hcon
  have hge : o.messages.length ≤ o.ended.length := by
    by_contra hlt
    exact hcon ⟨_, List.getElem?_eq_getElem (Nat.lt_of_not_le hlt)⟩
  have hlen := h.length_queue
  rw [Outgoing.queued, List.drop_eq_nil_of_le hge] at hlen
  exact hne (List.length_eq_zero_iff.mp hlen)

/-- Without a frame in the list, every message has ended. -/
theorem ended_of_nil (hnil : o.queue = []) : o.ended.length = o.messages.length := by
  refine Nat.le_antisymm h.ended (Nat.le_of_not_lt fun hlt => ?_)
  have hm := List.getElem?_eq_getElem hlt
  have hle := h.count_le hm
  have hpos := Message.count_pos (h.size _ (List.getElem_mem hlt)).1
  rw [hnil, List.length_nil] at hle
  omega

/-- Every frame of the list belongs to the service. -/
theorem service (hf : f ∈ o.queue) : f.head.service = c.service := by
  have hmem : f.unsent ∈ o.queued.flatMap (messageFrames c) :=
    h.queue ▸ List.mem_map_of_mem hf
  obtain ⟨m, _, hm⟩ := List.mem_flatMap.mp hmem
  obtain ⟨j, _, heq⟩ := mem_messageFrames hm
  exact congrArg (fun f => f.head.service) heq

/-- `rt_link_frame_remove` takes the frames of the first message out of the list. -/
theorem removeFrames_head (hq : o.queue = f :: l) (hm : o.messages[o.ended.length]? = some m) :
    removeFrames f.head.service f.total o.queue = o.queue.drop m.count := by
  have hf : o.queue[0]? = some f := by rw [hq]; rfl
  have heq := h.frame_eq hm hf (Message.count_pos (h.size m (List.mem_of_getElem? hm)).1)
  have htotal : f.total = m.count := congrArg SendFrame.total heq
  rw [htotal, h.service (hq ▸ List.mem_cons_self)]
  exact removeFrames_eq_drop fun g hg => h.service hg

/-! ## The steps of the sender -/

/-- `rt_link_send` queues the frames of one more message. -/
theorem send {data : List Byte} (hne : data ≠ []) (hmax : frameCount data.length ≤ framesMax) :
    Outgoing.Ok c
      ⟨wadd 8 o.seq (frameCount data.length), o.queue ++ messageFrames c ⟨o.num, data⟩,
        o.num + frameCount data.length, o.messages ++ [⟨o.num, data⟩], o.ended, o.started⟩ := by
  have hlen : (messageFrames c ⟨o.num, data⟩).length = frameCount data.length :=
    length_messageFrames
  have hdrop : (o.messages ++ [(⟨o.num, data⟩ : Message)]).drop o.ended.length =
      o.queued ++ [(⟨o.num, data⟩ : Message)] :=
    List.drop_append_of_le_length h.ended
  have hbase : o.num + frameCount data.length -
      (o.queue ++ messageFrames c ⟨o.num, data⟩).length = o.base := by
    rw [List.length_append, hlen, Outgoing.base]
    omega
  constructor
  case seq =>
    show (o.seq + _) % 2 ^ 8 = _
    rw [h.seq, Nat.mod_add_mod]
  case size =>
    intro m hm
    rcases List.mem_append.mp hm with hm | hm
    · exact h.size m hm
    · obtain rfl := List.mem_singleton.mp hm
      exact ⟨hne, hmax⟩
  case order =>
    refine List.pairwise_append.mpr ⟨h.order, List.pairwise_singleton _ _, ?_⟩
    intro m hm n hn
    obtain rfl := List.mem_singleton.mp hn
    exact h.last m hm
  case last =>
    intro m hm
    rcases List.mem_append.mp hm with hm | hm
    · exact Nat.le_add_right_of_le (h.last m hm)
    · obtain rfl := List.mem_singleton.mp hm
      exact Nat.le_refl _
  case ended =>
    rw [List.length_append]
    exact Nat.le_add_right_of_le h.ended
  case started => exact h.started
  case started_le =>
    rw [List.length_append]
    exact Nat.le_add_right_of_le h.started_le
  case queue =>
    show (o.queue ++ _).map SendFrame.unsent = ((o.messages ++ [_]).drop o.ended.length).flatMap _
    rw [hdrop, List.map_append, map_unsent_messageFrames, h.queue, List.flatMap_append,
      List.flatMap_singleton]
  case chained =>
    show Chained (o.num + _ - (o.queue ++ _).length) ((o.messages ++ [_]).drop o.ended.length)
    rw [hbase, hdrop]
    refine h.chained.append (c := c) ?_
    rw [← h.length_queue]
    exact h.base_add.symm
  case fits =>
    rw [List.length_append, hlen]
    exact Nat.add_le_add_right h.fits _

/-- The flags of the frames do not matter. -/
theorem flag {queue : List SendFrame}
    (hq : queue.map SendFrame.unsent = o.queue.map SendFrame.unsent) :
    Outgoing.Ok c { o with queue := queue } := by
  have hlen : queue.length = o.queue.length := by simpa using congrArg List.length hq
  have hbase : Outgoing.base { o with queue := queue } = o.base := by
    show o.num - queue.length = o.num - o.queue.length
    rw [hlen]
  exact
    { h with
      queue := hq.trans h.queue
      chained := hbase ▸ h.chained
      fits := hlen ▸ h.fits }

/-- The frames of the first message are sent. -/
theorem start (hm : o.messages[o.ended.length]? = some m) :
    Outgoing.Ok c { o with started := o.ended.length + 1 } :=
  { h with
    started := Nat.le_refl _
    started_le := (List.getElem?_eq_some_iff.mp hm).1 }

/-- The frames of the first message leave the list when it ends. -/
theorem finish (hm : o.messages[o.ended.length]? = some m) (err : LinkErr) :
    Outgoing.Ok c { o with queue := o.queue.drop m.count, ended := o.ended ++ [err] } := by
  have hcount := h.count_le hm
  have hended : (o.ended ++ [err]).length = o.ended.length + 1 := by simp
  have hbase : o.num - (o.queue.drop m.count).length = o.base + m.count := by
    have := h.base_add
    rw [List.length_drop]
    omega
  constructor
  case seq => exact h.seq
  case size => exact h.size
  case order => exact h.order
  case last => exact h.last
  case ended =>
    rw [hended]
    exact (List.getElem?_eq_some_iff.mp hm).1
  case started =>
    show o.started ≤ (o.ended ++ [err]).length + 1
    have := h.started
    omega
  case started_le => exact h.started_le
  case queue =>
    show (o.queue.drop m.count).map _ = (o.messages.drop (o.ended ++ [err]).length).flatMap _
    rw [List.map_drop, h.queue_eq hm, hended]
    exact List.drop_left' length_messageFrames
  case chained =>
    show Chained (o.num - (o.queue.drop m.count).length)
      (o.messages.drop (o.ended ++ [err]).length)
    have hchain := h.chained
    rw [Outgoing.queued_eq_cons hm] at hchain
    rw [hbase, hended]
    exact hchain.2
  case fits =>
    show (o.queue.drop m.count).length ≤ o.num
    have := h.fits
    rw [List.length_drop]
    omega

/-- An idle sender may go on with other numbers behind all of its old ones. -/
theorem reset (hnil : o.queue = []) {seq : Nat} (hn : o.num ≤ n)
    (hseq : seq = n % 2 ^ 8) : Outgoing.Ok c { o with seq := seq, num := n } :=
  { h with
    seq := hseq
    last := fun m hm => Nat.le_trans (h.last m hm) hn
    chained := by
      rw [Outgoing.queued, h.ended_of_nil hnil, List.drop_length]
      trivial
    fits := by
      exact Nat.le_trans h.fits hn }

end

end Outgoing.Ok

end RtThread.RtLink
