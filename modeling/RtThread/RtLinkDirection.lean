import RtThread.RtLinkNumbers

/-!
# One direction of a link

What holds between the sending half of a peer and the receiving half of the other one, with the
data frames on the way to the receiver and the confirmations on the way back. The number that
has been received last never passes the one that has been used last, and a confirmation stands
for a message that has been delivered, or for no message that is still to end.
-/
namespace RtThread.RtLink

open Ringbuffer (Byte)

def isData (attr : Attr) : Bool := attr = .shortData ∨ attr = .longData

/-- A packet is the frame `j` of a message that has been sent. A long message has been sent to a
receiver that had all the numbers before it. -/
structure SentAs (c : Config) (o : Outgoing) (i : Incoming) (p : Packet) (m : Message)
    (j : Nat) : Prop where
  message : o.messages[p.message]? = some m
  started : p.message < o.started
  index : j < m.count
  frame : p.frame = (messageFrame c m j).wire
  stamp : p.stamp = m.base + 1 + j
  last : p.last = m.last
  long : 1 < m.count → i.num = m.base ∨ m.last ≤ i.num

/-- The number is the last one of a delivered message, or no message that has not ended has a
frame with it or with an earlier one. -/
def Settled (o : Outgoing) (i : Incoming) (n : Nat) : Prop :=
  (∃ (k : Nat) (m : Message),
      o.messages[k]? = some m ∧ (k, m.data) ∈ i.delivered ∧ m.last = n) ∨
    ∀ (k : Nat) (m : Message), o.messages[k]? = some m → o.ended.length ≤ k → n ≤ m.base

structure Confirms (o : Outgoing) (i : Incoming) (p : Packet) : Prop where
  sequence : p.frame.head.sequence = p.stamp % 2 ^ 8
  stamp : p.stamp ≤ i.num
  settled : Settled o i p.stamp

/-- The bytes of the frame `j` are in their place. -/
def Stored (m : Message) (space : Nat → Byte) (j : Nat) : Prop :=
  ∀ b, maxDataLength * j ≤ b → b < maxDataLength * (j + 1) → ∀ h : b < m.data.length,
    space b = m.data[b]

/-- A long message is on the way into its block. -/
structure Storing (i : Incoming) (m : Message) (space : Nat → Byte) : Prop where
  num : i.num = m.base
  long : 1 < m.count
  total : i.total = m.count
  nonempty : i.count ≠ 0
  bits : i.count < 2 ^ m.count
  stored : ∀ j, i.count.testBit j → Stored m space j

structure Direction (c : Config) (o : Outgoing) (i : Incoming) (net back : List Packet) :
    Prop where
  sender : o.Ok c
  seq : i.seq = i.num % 2 ^ 8
  mask : i.mask = ackMax
  num_le : i.num ≤ o.num
  waiting : ∀ (k : Nat) (m : Message), o.messages[k]? = some m → o.started ≤ k →
    o.ended.length ≤ k → i.num ≤ m.base
  first : ∀ m, o.messages[o.ended.length]? = some m → o.ended.length < o.started →
    1 < m.count → i.num = m.base ∨ m.last ≤ i.num
  data : ∀ p ∈ net, isData p.frame.attr → ∃ m j, SentAs c o i p m j
  space : ∀ space, i.space = some space →
    ∃ (k : Nat) (m : Message), o.messages[k]? = some m ∧ Storing i m space
  delivered : ∀ e ∈ i.delivered, ∃ m, o.messages[e.1]? = some m ∧ e.1 < o.started ∧
    e.2 = m.data ∧ m.last ≤ i.num
  sorted : (i.delivered.map Prod.fst).Pairwise (· < ·)
  settled : Settled o i i.num
  confirms : ∀ p ∈ back, p.frame.attr = .confirm → Confirms o i p
  ok : ∀ k : Nat, o.ended[k]? = some LinkErr.eok → ∃ e ∈ i.delivered, e.1 = k

/-- The sender goes on: its messages stay, and new ones have new numbers. -/
structure Outgoing.Extends (o o' : Outgoing) : Prop where
  messages : ∀ (k : Nat) (m : Message), o.messages[k]? = some m → o'.messages[k]? = some m
  new : ∀ (k : Nat) (m : Message), o'.messages[k]? = some m → o.messages[k]? = some m ∨ o.num ≤ m.base
  num : o.num ≤ o'.num
  ended : o.ended.length ≤ o'.ended.length
  started : o.started ≤ o'.started

variable {c : Config} {o o' : Outgoing} {i : Incoming} {net back : List Packet} {p : Packet}
  {m : Message} {j : Nat}

theorem SentAs.extends (h : SentAs c o i p m j) (ho : o.Extends o') : SentAs c o' i p m j :=
  { h with
    message := ho.messages _ _ h.message
    started := Nat.lt_of_lt_of_le h.started ho.started }

theorem SentAs.stamp_le (h : SentAs c o i p m j) : p.stamp ≤ m.last := by
  have := h.index
  have := h.stamp
  unfold Message.last
  omega

theorem SentAs.sequence (h : SentAs c o i p m j) : p.frame.head.sequence = p.stamp % 2 ^ 8 := by
  rw [h.frame, h.stamp]
  rfl

theorem SentAs.service (h : SentAs c o i p m j) : p.frame.head.service = c.service := by
  rw [h.frame]
  rfl

theorem SentAs.ack (h : SentAs c o i p m j) : p.frame.head.ack = true := by
  rw [h.frame]
  rfl

theorem SentAs.payload (h : SentAs c o i p m j) :
    p.frame.payload = (m.data.drop (maxDataLength * j)).take maxDataLength := by
  rw [h.frame]
  rfl

theorem SentAs.attr (h : SentAs c o i p m j) :
    p.frame.attr = if 1 < m.count then .longData else .shortData := by
  rw [h.frame]
  rfl

variable {n : Nat}

theorem Settled.extends (h : Settled o i n) (hn : n ≤ o.num) (ho : o.Extends o') :
    Settled o' i n := by
  rcases h with ⟨k, m, hm, hd, hl⟩ | h
  · exact .inl ⟨k, m, ho.messages k m hm, hd, hl⟩
  · refine .inr fun k m hm hk => ?_
    rcases ho.new k m hm with hold | hnew
    · exact h k m hold (Nat.le_trans ho.ended hk)
    · exact Nat.le_trans hn hnew

/-- What has been delivered stays delivered. -/
theorem Settled.mono {i' : Incoming} (h : Settled o i n) (hi : i.delivered ⊆ i'.delivered) :
    Settled o i' n :=
  h.imp (fun ⟨k, m, hm, hd, hl⟩ => ⟨k, m, hm, hi hd, hl⟩) id

/-- A list whose keys increase holds one entry for a key. -/
theorem filter_key {α : Type} {l : List (Nat × α)} (hl : (l.map Prod.fst).Pairwise (· < ·))
    {e : Nat × α} (he : e ∈ l) : (l.filter fun e' => e'.1 = e.1) = [e] := by
  induction l with
  | nil => exact nomatch he
  | cons a l ih =>
    rw [List.map_cons, List.pairwise_cons] at hl
    rcases List.mem_cons.mp he with rfl | he
    · rw [List.filter_cons_of_pos (by simp), List.filter_eq_nil_iff.mpr]
      intro b hb
      have hlt : e.1 < b.1 := hl.1 _ (List.mem_map_of_mem hb)
      simpa using Nat.ne_of_gt hlt
    · have hlt : a.1 < e.1 := hl.1 _ (List.mem_map_of_mem he)
      rw [List.filter_cons_of_neg (by simpa using Nat.ne_of_lt hlt)]
      exact ih hl.2 he

namespace Direction

/-! ## Packets -/

variable {packets : List Packet} {k count seq total : Nat}

section

variable (h : Direction c o i net back)
include h

theorem append_net (hp : ∀ p ∈ packets, isData p.frame.attr → ∃ m j, SentAs c o i p m j) :
    Direction c o i (net ++ packets) back :=
  { h with data := fun p hmem => (List.mem_append.mp hmem).elim (h.data p) (hp p) }

theorem append_back (hp : ∀ p ∈ packets, p.frame.attr = .confirm → Confirms o i p) :
    Direction c o i net (back ++ packets) :=
  { h with confirms := fun p hmem => (List.mem_append.mp hmem).elim (h.confirms p) (hp p) }

/-- The receiver confirms the number that it has received last. -/
theorem confirm {serv : Nat} (hseq : seq % 2 ^ 8 = i.num % 2 ^ 8) :
    Direction c o i net (back ++ [⟨commandFrame serv seq .confirm 0, i.num, 0, 0⟩]) :=
  h.append_back fun p hp _ => by
    obtain rfl := List.mem_singleton.mp hp
    exact ⟨hseq, Nat.le_refl _, h.settled⟩

/-! ## The sender -/

/-- The sender goes on, and the receiver has not moved. -/
theorem extend (hok : o'.Ok c) (ho : o.Extends o')
    (hwaiting : ∀ (k : Nat) (m : Message), o'.messages[k]? = some m → o'.started ≤ k →
      o'.ended.length ≤ k → i.num ≤ m.base)
    (hfirst : ∀ m, o'.messages[o'.ended.length]? = some m → o'.ended.length < o'.started →
      1 < m.count → i.num = m.base ∨ m.last ≤ i.num)
    (hended : ∀ k : Nat, o'.ended[k]? = some LinkErr.eok → ∃ e ∈ i.delivered, e.1 = k) :
    Direction c o' i net back where
  sender := hok
  seq := h.seq
  mask := h.mask
  num_le := Nat.le_trans h.num_le ho.num
  waiting := hwaiting
  first := hfirst
  data := fun p hp hattr => by
    obtain ⟨m, j, hs⟩ := h.data p hp hattr
    exact ⟨m, j, hs.extends ho⟩
  space := fun space hspace => by
    obtain ⟨k, m, hm, hs⟩ := h.space space hspace
    exact ⟨k, m, ho.messages k m hm, hs⟩
  delivered := fun e he => by
    obtain ⟨m, hm, hst, hd, hl⟩ := h.delivered e he
    exact ⟨m, ho.messages _ _ hm, Nat.lt_of_lt_of_le hst ho.started, hd, hl⟩
  sorted := h.sorted
  settled := h.settled.extends h.num_le ho
  confirms := fun p hp hattr =>
    have hc := h.confirms p hp hattr
    { hc with settled := hc.settled.extends (Nat.le_trans hc.stamp h.num_le) ho }
  ok := hended

theorem send (data : List Byte) (hne : data ≠ []) (hmax : frameCount data.length ≤ framesMax) :
    Direction c
      ⟨wadd 8 o.seq (frameCount data.length), o.queue ++ messageFrames c ⟨o.num, data⟩,
        o.num + frameCount data.length, o.messages ++ [⟨o.num, data⟩], o.ended, o.started⟩
      i net back := by
  have hnew : ∀ (k : Nat) (m : Message), (o.messages ++ [⟨o.num, data⟩])[k]? = some m →
      o.messages[k]? = some m ∨ o.num = m.base ∧ o.messages.length ≤ k := by
    intro k m hm
    rcases Nat.lt_or_ge k o.messages.length with hk | hk
    · rw [List.getElem?_append_left hk] at hm
      exact .inl hm
    · rw [List.getElem?_append_right hk] at hm
      obtain rfl := List.mem_singleton.mp (List.mem_of_getElem? hm)
      exact .inr ⟨rfl, hk⟩
  refine h.extend (h.sender.send hne hmax) ⟨?_, ?_, ?_, ?_, ?_⟩ ?_ ?_ h.ok
  · exact fun k m hm => by
      rw [List.getElem?_append_left (List.getElem?_eq_some_iff.mp hm).1]
      exact hm
  · exact fun k m hm => (hnew k m hm).imp id fun hk => Nat.le_of_eq hk.1
  · exact Nat.le_add_right _ _
  · exact Nat.le_refl _
  · exact Nat.le_refl _
  · intro k m hm hst hend
    rcases hnew k m hm with hold | ⟨hbase, _⟩
    · exact h.waiting k m hold hst hend
    · exact hbase ▸ h.num_le
  · intro m hm hlt hlong
    rcases hnew _ m hm with hold | ⟨hbase, hk⟩
    · exact h.first m hold hlt hlong
    · exact absurd (Nat.lt_of_lt_of_le hlt h.sender.started_le) (Nat.not_lt.mpr hk)

theorem flag {q : List SendFrame} (hq : q.map SendFrame.unsent = o.queue.map SendFrame.unsent) :
    Direction c { o with queue := q } i net back :=
  h.extend (h.sender.flag hq)
    ⟨fun _ _ hm => hm, fun _ _ hm => .inl hm, Nat.le_refl _, Nat.le_refl _, Nat.le_refl _⟩
    h.waiting h.first h.ok

/-- The frames of the first message are sent; a long one needs a receiver that has all the numbers
before it. -/
theorem start (hm : o.messages[o.ended.length]? = some m)
    (hlong : o.started ≤ o.ended.length → 1 < m.count → i.num = m.base) :
    Direction c { o with started := o.ended.length + 1 } i net back := by
  refine h.extend (h.sender.start hm)
    ⟨fun _ _ hm => hm, fun _ _ hm => .inl hm, Nat.le_refl _, Nat.le_refl _, h.sender.started⟩
    ?_ ?_ h.ok
  · intro k n hn hst hend
    refine h.waiting k n hn (Nat.le_trans h.sender.started hst) hend
  · intro n hn _ hcount
    obtain rfl : m = n := Option.some.inj (hm.symm.trans hn)
    rcases Nat.lt_or_ge o.ended.length o.started with hlt | hge
    · exact h.first m hm hlt hcount
    · exact .inl (hlong hge hcount)

/-- The first message ends, with `RT_LINK_EOK` only when it has been delivered. -/
theorem finish (hm : o.messages[o.ended.length]? = some m)
    {err : LinkErr} (herr : err = .eok → ∃ e ∈ i.delivered, e.1 = o.ended.length) :
    Direction c { o with queue := o.queue.drop m.count, ended := o.ended ++ [err] } i net back := by
  have hlen : (o.ended ++ [err]).length = o.ended.length + 1 := by simp
  refine h.extend (h.sender.finish hm err)
    ⟨fun _ _ hm => hm, fun _ _ hm => .inl hm, Nat.le_refl _, ?_, Nat.le_refl _⟩ ?_ ?_ ?_
  · exact hlen ▸ Nat.le_succ _
  · intro k n hn hst hend
    have hend : (o.ended ++ [err]).length ≤ k := hend
    exact h.waiting k n hn hst (by omega)
  · intro n _ hlt
    have hlt : (o.ended ++ [err]).length < o.started := hlt
    have := h.sender.started
    omega
  · intro k hk
    have hk : (o.ended ++ [err])[k]? = some .eok := hk
    rcases Nat.lt_or_ge k o.ended.length with hlt | hge
    · rw [List.getElem?_append_left hlt] at hk
      exact h.ok k hk
    · have hlt := (List.getElem?_eq_some_iff.mp hk).1
      obtain rfl : k = o.ended.length := by omega
      rw [List.getElem?_concat_length] at hk
      exact herr (Option.some.inj hk)

/-! ## The receiver -/

/-- What becomes of the blocks of a message does not matter while its bytes are in place. -/
theorem store {space : Option (Nat → Byte)}
    (hs : ∀ sp, space = some sp → ∃ (k : Nat) (m : Message), o.messages[k]? = some m ∧
      Storing { i with total := total, count := count, space := space } m sp) :
    Direction c o { i with total := total, count := count, space := space } net back where
  sender := h.sender
  seq := h.seq
  mask := h.mask
  num_le := h.num_le
  waiting := h.waiting
  first := h.first
  data := fun p hp hattr => by
    obtain ⟨m, j, hsent⟩ := h.data p hp hattr
    exact ⟨m, j, { hsent with }⟩
  space := hs
  delivered := h.delivered
  sorted := h.sorted
  settled := h.settled
  confirms := fun p hp hattr => { h.confirms p hp hattr with }
  ok := h.ok

/-- The receiver gives up its block. -/
theorem stop (total count : Nat) :
    Direction c o { i with total := total, count := count, space := none } net back :=
  h.store nofun

/-- A frame behind the number that has been received last belongs to a message behind all of those
that are over. -/
theorem last_le (hp : SentAs c o i p m j) (hnew : i.num < p.stamp)
    {n : Message} (hn : o.messages[k]? = some n) (hover : i.num = n.base ∨ n.last ≤ i.num) :
    n.last ≤ m.last := by
  have hstamp := hp.stamp_le
  rcases hover with hbase | hlast
  · rcases Nat.lt_trichotomy k p.message with hlt | heq | hgt
    · have := h.sender.last_le_base hn hp.message hlt
      have := h.sender.base_lt_last hp.message
      omega
    · obtain rfl : n = m := Option.some.inj (hn.symm.trans (heq ▸ hp.message))
      exact Nat.le_refl _
    · have := h.sender.last_le_base hp.message hn hgt
      omega
  · omega

theorem sent_le (hp : SentAs c o i p m j) : m.last ≤ o.num :=
  h.sender.last m (List.mem_of_getElem? hp.message)

/-- A message is delivered: the messages before it can not come any more. -/
theorem receive (hp : SentAs c o i p m j) (hnew : i.num < p.stamp) (hseq : seq = m.last % 2 ^ 8) :
    Direction c o ⟨seq, total, count, none, ackMax, m.last, i.delivered ++ [(p.message, m.data)]⟩
      net back := by
  have hlt : i.num < m.last := Nat.lt_of_lt_of_le hnew hp.stamp_le
  constructor
  case sender => exact h.sender
  case seq => exact hseq
  case mask => rfl
  case num_le => exact h.sent_le hp
  case waiting =>
    intro k n hn hst _
    exact h.sender.last_le_base hp.message hn (Nat.lt_of_lt_of_le hp.started hst)
  case first =>
    intro n hn hst hlong
    exact .inr (h.last_le hp hnew hn (h.first n hn hst hlong))
  case data =>
    intro q hq hattr
    obtain ⟨n, l, hs⟩ := h.data q hq hattr
    exact ⟨n, l, { hs with long := fun hlong => .inr (h.last_le hp hnew hs.message (hs.long hlong)) }⟩
  case space => exact nofun
  case delivered =>
    intro e he
    rcases List.mem_append.mp he with he | he
    · obtain ⟨n, hn, hst, hd, hl⟩ := h.delivered e he
      exact ⟨n, hn, hst, hd, Nat.le_trans hl (Nat.le_of_lt hlt)⟩
    · obtain rfl := List.mem_singleton.mp he
      exact ⟨m, hp.message, hp.started, rfl, Nat.le_refl _⟩
  case sorted =>
    rw [List.map_append]
    refine List.pairwise_append.mpr ⟨h.sorted, List.pairwise_singleton _ _, ?_⟩
    intro k hk l hl
    obtain ⟨e, he, rfl⟩ := List.mem_map.mp hk
    obtain rfl : l = p.message := List.mem_singleton.mp hl
    obtain ⟨n, hn, _, _, hlast⟩ := h.delivered e he
    refine Nat.lt_of_not_le fun hge => ?_
    rcases Nat.lt_or_eq_of_le hge with hgt | heq
    · have := h.sender.last_le_base hp.message hn hgt
      have := h.sender.base_lt_last hn
      omega
    · obtain rfl : m = n := Option.some.inj (hp.message.symm.trans (heq ▸ hn))
      omega
  case settled =>
    exact .inl ⟨p.message, m, hp.message, List.mem_append_right _ (List.mem_singleton_self _), rfl⟩
  case confirms =>
    intro q hq hattr
    have hc := h.confirms q hq hattr
    exact
      { hc with
        stamp := Nat.le_trans hc.stamp (Nat.le_of_lt hlt)
        settled := hc.settled.mono (List.subset_append_left _ _) }
  case ok =>
    intro k hk
    obtain ⟨e, he, hek⟩ := h.ok k hk
    exact ⟨e, List.mem_append_left _ he, hek⟩

/-! ## A handshake -/

/-- An idle sender and a receiver that waits for nothing go on with new numbers. -/
theorem reset (hnil : o.queue = []) (hspace : i.space = none)
    {so si : Nat} (hn : o.num ≤ n) (hso : so = n % 2 ^ 8) (hsi : si = n % 2 ^ 8) :
    Direction c { o with seq := so, num := n } { i with seq := si, num := n } net back := by
  have hended := h.sender.ended_of_nil hnil
  have hover : ∀ (k : Nat) (m : Message), o.messages[k]? = some m → ¬ o.ended.length ≤ k := by
    intro k m hm hk
    have := (List.getElem?_eq_some_iff.mp hm).1
    omega
  have hlast : ∀ (k : Nat) (m : Message), o.messages[k]? = some m → m.last ≤ n := fun k m hm =>
    Nat.le_trans (h.sender.last m (List.mem_of_getElem? hm)) hn
  constructor
  case sender => exact h.sender.reset hnil hn hso
  case seq => exact hsi
  case mask => exact h.mask
  case num_le => exact Nat.le_refl _
  case waiting => exact fun k m hm _ hk => absurd hk (hover k m hm)
  case first => exact fun m hm => absurd (Nat.le_refl _) (hover _ m hm)
  case data =>
    intro p hp hattr
    obtain ⟨m, j, hs⟩ := h.data p hp hattr
    exact ⟨m, j, { hs with long := fun _ => .inr (hlast _ m hs.message) }⟩
  case space =>
    intro sp hsp
    exact nomatch hspace.symm.trans hsp
  case delivered =>
    intro e he
    obtain ⟨m, hm, hst, hd, _⟩ := h.delivered e he
    exact ⟨m, hm, hst, hd, hlast _ m hm⟩
  case sorted => exact h.sorted
  case settled => exact .inr fun k m hm hk => absurd hk (hover k m hm)
  case confirms =>
    intro p hp hattr
    have hc := h.confirms p hp hattr
    exact
      { hc with
        stamp := Nat.le_trans hc.stamp (Nat.le_trans h.num_le hn)
        settled := .inr fun k m hm hk => absurd hk (hover k m hm) }
  case ok => exact h.ok

/-! ## Deliveries -/

/-- A confirmation of the last number that has been used stands for the first message. -/
theorem first_delivered (hm : o.messages[o.ended.length]? = some m)
    (hs : Settled o i o.num) : ∃ e ∈ i.delivered, e.1 = o.ended.length := by
  have hlast := h.sender.last m (List.mem_of_getElem? hm)
  have hpos := h.sender.base_lt_last hm
  rcases hs with ⟨k, n, hn, hd, hl⟩ | hover
  · refine ⟨_, hd, ?_⟩
    obtain ⟨_, _, hst, _, _⟩ := h.delivered _ hd
    have := h.sender.started
    by_contra hne
    have := h.sender.last_le_base hn hm (by omega)
    omega
  · have := hover _ m hm (Nat.le_refl _)
    omega

/-- A message that ends with `RT_LINK_EOK` has been delivered once, with its bytes. -/
theorem delivered_once (hk : o.ended[k]? = some .eok)
    (hm : o.messages[k]? = some m) : (i.delivered.filter fun e => e.1 = k) = [(k, m.data)] := by
  obtain ⟨e, he, rfl⟩ := h.ok k hk
  obtain ⟨n, hn, _, hd, _⟩ := h.delivered e he
  obtain rfl : m = n := Option.some.inj (hm.symm.trans hn)
  rw [filter_key h.sorted he, ← hd]

end

end Direction

end RtThread.RtLink
