import RtThread.RtLinkLong

/-!
# The steps of an rt-link peer

Both directions of a link hold behind every step of a peer, if the step is synced: a handshake
leaves the numbers of its receiver as they are, or carries the ones of an idle side, a long message
meets a receiver that waits for it, and what is accepted is not too old.
-/
namespace RtThread.RtLink

open Ringbuffer (Byte)

/-! ## Effects -/

/-- The ends of messages among the effects. -/
def finishedErrs : List Effect → List LinkErr
  | [] => []
  | .finished _ err :: es => err :: finishedErrs es
  | _ :: es => finishedErrs es

/-- The data of the calls of `recv_cb` among the effects. -/
def receivedData : List Effect → List (List Byte)
  | [] => []
  | .received _ data :: es => data :: receivedData es
  | _ :: es => receivedData es

variable {c : Config} {x y : Peer} {message : Nat} {es : List Effect}

theorem perform_session : (perform message x es).1.session = x.session := by
  unfold perform
  induction es generalizing x with
  | nil => rfl
  | cons e es ih =>
    rw [List.foldl_cons, ih]
    cases e <;> rfl

theorem perform_outgoing : (perform message x es).1.outgoing =
    { x.outgoing with ended := x.ended ++ finishedErrs es } := by
  unfold perform
  induction es generalizing x with
  | nil => simp [finishedErrs, Peer.outgoing]
  | cons e es ih =>
    rw [List.foldl_cons, ih]
    cases e <;> simp [applyEffect, finishedErrs, Peer.outgoing]

theorem perform_incoming : (perform message x es).1.incoming = { x.incoming with
      delivered := x.delivered ++ (receivedData es).map fun data => (message, data) } := by
  unfold perform
  induction es generalizing x with
  | nil => simp [receivedData, Peer.incoming]
  | cons e es ih =>
    rw [List.foldl_cons, ih]
    cases e <;> simp [applyEffect, receivedData, Peer.incoming]

variable {es' : List Effect} {m : Message} {j : Nat} {f : Frame}

theorem finishedErrs_append : finishedErrs (es ++ es') = finishedErrs es ++ finishedErrs es' := by
  induction es with
  | nil => rfl
  | cons e es ih => cases e <;> simp [finishedErrs, ih]

theorem receivedData_append : receivedData (es ++ es') = receivedData es ++ receivedData es' := by
  induction es with
  | nil => rfl
  | cons e es ih => cases e <;> simp [receivedData, ih]

theorem sentFrames_append : sentFrames (es ++ es') = sentFrames es ++ sentFrames es' := by
  induction es with
  | nil => rfl
  | cons e es ih => cases e <;> simp [sentFrames, ih]

theorem any_isReceived (h : receivedData es = []) : es.any isReceived = false := by
  induction es with
  | nil => rfl
  | cons e es ih =>
    cases e with
    | received _ _ => exact nomatch h
    | _ => exact ih h

theorem sendReadyIfQueued_effects (s : Session) : finishedErrs (sendReadyIfQueued s) = [] ∧
    receivedData (sendReadyIfQueued s) = [] ∧ sentFrames (sendReadyIfQueued s) = [] := by
  unfold sendReadyIfQueued
  split <;> exact ⟨rfl, rfl, rfl⟩

/-! ## Packets -/

@[simp] theorem packet_frame (f : Frame) : (packet x f).frame = f := by
  unfold packet
  split <;> try rfl
  all_goals
    dsimp only
    split <;> rfl

/-- A frame of the first message that has not ended, on the way. -/
theorem packet_messageFrame (h : x.outgoing.Ok c) (hm : x.messages[x.ended.length]? = some m)
    (hj : j < m.count) :
    packet x (messageFrame c m j).wire =
      ⟨(messageFrame c m j).wire, m.base + 1 + j, m.last, x.ended.length⟩ := by
  have hlen : m.count ≤ x.session.txList.length := h.count_le hm
  have hbase : x.txNum - x.session.txList.length = m.base := h.base_eq hm
  have hmax := (h.size m (List.mem_of_getElem? hm)).2
  have hseq : ∀ (i : Nat) (hi : i < x.session.txList.length),
      x.session.txList[i].head.sequence = (m.base + 1 + i) % 2 ^ 8 := fun i hi => by
    have := h.sequence (List.getElem?_eq_getElem hi)
    rwa [h.base_eq hm] at this
  have hfind : (x.session.txList.findIdx fun g =>
      g.head.sequence = (messageFrame c m j).wire.head.sequence) = j := by
    refine (List.findIdx_eq (Nat.lt_of_lt_of_le hj hlen)).mpr ⟨?_, ?_⟩
    · rw [hseq j (Nat.lt_of_lt_of_le hj hlen)]
      exact decide_eq_true rfl
    · intro i hi
      rw [hseq i (by omega)]
      refine decide_eq_false ?_
      show ¬ (m.base + 1 + i) % 2 ^ 8 = (m.base + 1 + j) % 2 ^ 8
      unfold framesMax at hmax
      omega
  have hget := List.getElem?_eq_getElem (Nat.lt_of_lt_of_le hj hlen)
  have hframe : x.session.txList[j].unsent = messageFrame c m j := h.frame_eq hm hget hj
  have hindex : x.session.txList[j].index = j := congrArg SendFrame.index hframe
  have htotal : x.session.txList[j].total = m.count := congrArg SendFrame.total hframe
  have hdata : (messageFrame c m j).wire.attr = .shortData ∨
      (messageFrame c m j).wire.attr = .longData := messageFrame_attr (c := c) j
  have hlast : m.base + 1 + j - (j + 1) + m.count = m.last := by
    unfold Message.last
    omega
  unfold packet
  rcases hdata with hdata | hdata <;> rw [hdata] <;>
    simp only [hfind, hget, hbase, hindex, htotal, hlast]

theorem sentAs_packet {i : Incoming} (h : x.outgoing.Ok c)
    (hm : x.messages[x.ended.length]? = some m) (hj : j < m.count)
    (hstarted : x.ended.length < x.started)
    (hlong : 1 < m.count → i.num = m.base ∨ m.last ≤ i.num) :
    SentAs c x.outgoing i (packet x (messageFrame c m j).wire) m j := by
  rw [packet_messageFrame h hm hj]
  exact ⟨hm, hstarted, hj, rfl, rfl, rfl, hlong⟩

/-! ## Sending -/

theorem frameSendLoop_unsent (io : Nat → Bool) (sendMax : Nat) (l : List SendFrame) :
    (frameSendLoop io sendMax l).1.map SendFrame.unsent = l.map SendFrame.unsent := by
  induction l generalizing sendMax with
  | nil => rfl
  | cons f l ih =>
    unfold frameSendLoop
    split
    · rfl
    · split
      · rfl
      · simp only [List.map_cons, ih]
        rfl

/-- The loop ends with the last frame of a message. -/
theorem frameSendLoop_sent (io : Nat → Bool) {n k sendMax : Nat} {l : List SendFrame}
    (hl : ∀ j g, l[j]? = some g → k + j < n → g.index = k + j ∧ g.total = n) (hk : k < n) :
    ∀ f ∈ (frameSendLoop io sendMax l).2.1, ∃ j, k + j < n ∧ l[j]? = some f := by
  induction l generalizing k sendMax with
  | nil => exact nofun
  | cons g l ih =>
    intro f hf
    unfold frameSendLoop at hf
    split at hf
    · exact nomatch hf
    · split at hf
      · obtain rfl := List.mem_singleton.mp hf
        exact ⟨0, hk, rfl⟩
      · next hmore =>
        obtain ⟨hindex, htotal⟩ := hl 0 g rfl hk
        rcases List.mem_cons.mp hf with rfl | hf
        · exact ⟨0, hk, rfl⟩
        · have hnext : k + 1 < n := by omega
          have hrest : ∀ j g, l[j]? = some g → k + 1 + j < n →
              g.index = k + 1 + j ∧ g.total = n := fun j g hg hj => by
            have := hl (j + 1) g hg (by omega)
            omega
          obtain ⟨j, hj, hget⟩ := ih hrest hnext f hf
          exact ⟨j + 1, by omega, hget⟩

variable {i : Incoming} {net back : List Packet}

/-- `rt_link_service_send_finish` ends the first message. -/
theorem serviceSendFinish_direction (err : LinkErr) (h : Direction c x.outgoing i net back)
    (hdelivered : err = .eok → x.session.txList ≠ [] →
      ∃ e ∈ i.delivered, e.1 = x.ended.length) :
    Direction c
      { x.outgoing with
        queue := (rtLinkServiceSendFinish x.session err).1.txList
        ended := x.ended ++ finishedErrs (rtLinkServiceSendFinish x.session err).2 }
      i net back := by
  cases hq : x.session.txList with
  | nil =>
    have heq : rtLinkServiceSendFinish x.session err = (x.session, []) := by
      rw [rtLinkServiceSendFinish, hq]
    rw [heq]
    simpa [finishedErrs, Peer.outgoing] using h
  | cons f l =>
    obtain ⟨m, hm⟩ := h.sender.exists_message (o := x.outgoing) (by
      rw [Peer.outgoing, hq]
      exact List.cons_ne_nil f l)
    have heq : rtLinkServiceSendFinish x.session err =
        ({ x.session with
            err := Function.update x.session.err f.head.service err
            txList := removeFrames f.head.service f.total x.session.txList },
          [.clearSendCount, .finished f.head.service err]) := by
      rw [rtLinkServiceSendFinish, hq]
    have hremove : removeFrames f.head.service f.total x.session.txList =
      x.session.txList.drop m.count := h.sender.removeFrames_head hq hm
    rw [heq]
    show Direction c
      { x.outgoing with
        queue := removeFrames f.head.service f.total x.session.txList
        ended := x.ended ++ [err] } i net back
    rw [hremove]
    exact h.finish hm fun herr => hdelivered herr (by rw [hq]; exact List.cons_ne_nil f l)

theorem serviceSendFinish_session (s : Session) (err : LinkErr) : ∃ errs l,
    (rtLinkServiceSendFinish s err).1 = { s with err := errs, txList := l } ∧
      receivedData (rtLinkServiceSendFinish s err).2 = [] ∧
      sentFrames (rtLinkServiceSendFinish s err).2 = [] := by
  unfold rtLinkServiceSendFinish
  split
  · exact ⟨s.err, s.txList, rfl, rfl, rfl⟩
  · exact ⟨_, _, rfl, rfl, rfl⟩

theorem finish_incoming (err : LinkErr) : (finish x err).incoming = x.incoming ∧
    (finish x err).session.attached = x.session.attached := by
  obtain ⟨errs, l, hs, hr, _⟩ := serviceSendFinish_session x.session err
  constructor
  · show (perform 0 _ _).1.incoming = _
    rw [perform_incoming, hs, hr]
    simp [Peer.incoming]
  · show (perform 0 _ _).1.session.attached = _
    rw [perform_session, hs]

theorem finish_direction {err : LinkErr} (h : Direction c x.outgoing i net back)
    (herr : err ≠ .eok) : Direction c (finish x err).outgoing i net back := by
  have hfinish := serviceSendFinish_direction err h fun heq => absurd heq herr
  obtain ⟨errs, l, hs, _, _⟩ := serviceSendFinish_session x.session err
  have heq : (finish x err).outgoing =
      { x.outgoing with
        queue := (rtLinkServiceSendFinish x.session err).1.txList
        ended := x.ended ++ finishedErrs (rtLinkServiceSendFinish x.session err).2 } := by
    show (perform 0 _ _).1.outgoing = _
    rw [perform_outgoing, hs]
    rfl
  rw [heq]
  exact hfinish

/-! ## A step of one peer -/

/-- Both directions hold behind a step of the peer `x`. -/
structure Moves (c : Config) (x y : Peer) (toX toY : List Packet) (r : Peer × List Packet) :
    Prop where
  attached : r.1.session.attached = x.session.attached
  sends : Direction c r.1.outgoing y.incoming (toY ++ r.2) toX
  receives : Direction c y.outgoing r.1.incoming toX (toY ++ r.2)

variable {toX toY : List Packet} {r : Peer × List Packet}

/-- The events of a peer do not matter. -/
theorem Moves.of_session {x' : Peer} (h : Moves c x' y toX toY r) (hs : x'.session = x.session) :
    Moves c x y toX toY r :=
  { h with attached := hs ▸ h.attached }

/-- A step that does not receive anything. -/
theorem moves_sender (hattached : r.1.session.attached = x.session.attached)
    (hsends : Direction c r.1.outgoing y.incoming (toY ++ r.2) toX)
    (hreceives : Direction c y.outgoing x.incoming toX toY) (hin : r.1.incoming = x.incoming)
    (hconfirm : ∀ p ∈ r.2, p.frame.attr ≠ .confirm) : Moves c x y toX toY r where
  attached := hattached
  sends := hsends
  receives := hin ▸ hreceives.append_back fun p hp hattr => absurd hattr (hconfirm p hp)

/-- A step that does not send any data. -/
theorem moves_receiver (hattached : r.1.session.attached = x.session.attached)
    (hsends : Direction c x.outgoing y.incoming toY toX) (hout : r.1.outgoing = x.outgoing)
    (hreceives : Direction c y.outgoing r.1.incoming toX (toY ++ r.2))
    (hdata : ∀ p ∈ r.2, isData p.frame.attr = false) : Moves c x y toX toY r where
  attached := hattached
  sends := hout ▸ hsends.append_net fun p hp hattr => by
    rw [hdata p hp] at hattr
    exact nomatch hattr
  receives := hreceives

/-- A step that sends commands only. -/
theorem moves_idle (hattached : r.1.session.attached = x.session.attached)
    (hsends : Direction c x.outgoing y.incoming toY toX)
    (hreceives : Direction c y.outgoing x.incoming toX toY) (hout : r.1.outgoing = x.outgoing)
    (hin : r.1.incoming = x.incoming)
    (hattr : ∀ p ∈ r.2, isData p.frame.attr = false ∧ p.frame.attr ≠ .confirm) :
    Moves c x y toX toY r :=
  moves_receiver hattached hsends hout
    (hin ▸ hreceives.append_back fun p hp h => absurd h (hattr p hp).2) fun p hp => (hattr p hp).1

theorem resendRequests_attr (s : Session) (n : Nat) :
    ∀ f ∈ resendRequests s n, f.attr = .resend := by
  induction n with
  | zero => exact nofun
  | succ n ih =>
    intro f hf
    rcases List.mem_append.mp hf with hf | hf
    · split at hf
      · exact nomatch hf
      · obtain rfl := List.mem_singleton.mp hf
        rfl
    · exact ih f hf

/-! ## A frame that is handled -/

variable {malloc : Nat → Option (Nat → Byte)} {p : Packet} {recvLen : Nat} {s : Session}

section

variable (hparse : rtLinkParseFrame malloc x.session p.frame recvLen = (s, es))
include hparse

theorem handle_session : (handle malloc x p recvLen).1.session = s := by
  unfold handle
  rw [hparse]
  exact perform_session

theorem handle_outgoing : (handle malloc x p recvLen).1.outgoing =
      ⟨s.txSeq, s.txList, x.txNum, x.messages, x.ended ++ finishedErrs es, x.started⟩ := by
  unfold handle
  rw [hparse]
  exact perform_outgoing

theorem handle_incoming : (handle malloc x p recvLen).1.incoming =
      ⟨s.rxSeq, s.rxTotal, s.longCount, s.dataspace, s.ackMask,
        if es.any isReceived then p.last else x.rxNum,
        x.delivered ++ (receivedData es).map fun data => (p.message, data)⟩ := by
  unfold handle
  rw [hparse]
  exact perform_incoming

theorem handle_packets : (handle malloc x p recvLen).2 = (sentFrames es).map (packet { x with
        session := s
        rxNum := if es.any isReceived then p.last else x.rxNum }) := by
  unfold handle
  rw [hparse]
  rfl

end

/-- Among the confirmations that are not too old, only the one of the last number is accepted. -/
theorem stamp_of_accepted (hsends : Direction c x.outgoing y.incoming toY toX) (hp : p ∈ toX)
    (hattr : p.frame.attr = .confirm)
    (haccepted : seqAccepted x.session p.frame.attr p.frame.head.sequence)
    (hfresh : x.txNum < p.stamp + 253) (hm : x.messages[x.ended.length]? = some m) :
    p.stamp = x.txNum := by
  have hconfirms := hsends.confirms p hp hattr
  obtain ⟨hne, hmax⟩ := hsends.sender.size m (List.mem_of_getElem? hm)
  have hpos := Message.count_pos hne
  have hseq : x.session.txSeq = x.txNum % 2 ^ 8 := hsends.sender.seq
  have hle : p.stamp ≤ x.txNum := Nat.le_trans hconfirms.stamp hsends.num_le
  cases hq : x.session.txList with
  | nil =>
    have hcount : m.count ≤ x.session.txList.length := hsends.sender.count_le hm
    rw [hq, List.length_nil] at hcount
    omega
  | cons g l =>
    have hget : x.session.txList[0]? = some g := by rw [hq]; rfl
    have heq : g.unsent = messageFrame c m 0 := hsends.sender.frame_eq hm hget hpos
    have htotal : g.total = m.count := congrArg SendFrame.total heq
    have hcheck : rtLinkCheckSeq p.frame.head.sequence x.session.txSeq ≤ g.total := by
      simpa only [seqAccepted, hattr, hq, decide_eq_true_eq] using haccepted
    rw [hconfirms.sequence, hseq, htotal, rtLinkCheckSeq, wsub] at hcheck
    unfold framesMax at hmax
    omega

/-- A data frame that is not too old is accepted only when it is new. -/
theorem num_lt_of_accepted (hnum : x.session.rxSeq = x.rxNum % 2 ^ 8)
    (hsent : SentAs c y.outgoing x.incoming p m j) (hdata : isData p.frame.attr)
    (haccepted : seqAccepted x.session p.frame.attr p.frame.head.sequence)
    (hfresh : x.rxNum < p.stamp + 252) : x.rxNum < p.stamp := by
  have hcheck : wsub 8 (rtLinkCheckSeq p.frame.head.sequence x.session.rxSeq) 1 ≤ framesMax := by
    rcases of_decide_eq_true hdata with hattr | hattr <;>
      simpa only [seqAccepted, hattr, decide_eq_true_eq] using haccepted
  rw [hsent.sequence, hnum, rtLinkCheckSeq, wsub, wsub] at hcheck
  unfold framesMax at hcheck
  omega

/-- A confirmation ends the first message, or changes nothing but the states of the link. -/
theorem rtLinkConfirmHandle_cases (s : Session) (f : Frame) : ∃ states state es,
    receivedData es = [] ∧ sentFrames es = [] ∧
      (rtLinkConfirmHandle s f = ({ s with serviceState := states, state := state }, es) ∧
          finishedErrs es = [] ∨
        s.txList ≠ [] ∧
          rtLinkConfirmHandle s f = ((rtLinkServiceSendFinish
            { s with serviceState := states, state := state } .eok).1, es) ∧
          finishedErrs es = finishedErrs (rtLinkServiceSendFinish
            { s with serviceState := states, state := state } .eok).2) := by
  have hstates : ∃ states, (if s.attached f.head.service then
      { s with serviceState := Function.update s.serviceState f.head.service .connect }
      else s) = { s with serviceState := states } := by
    split
    · exact ⟨_, rfl⟩
    · exact ⟨_, rfl⟩
  obtain ⟨states, hstates⟩ := hstates
  unfold rtLinkConfirmHandle
  rw [hstates]
  dsimp only
  split
  · obtain ⟨hf, hr, hs⟩ := sendReadyIfQueued_effects { s with serviceState := states }
    exact ⟨states, .connect, .stopSendTimer :: sendReadyIfQueued { s with serviceState := states },
      hr, hs, .inl ⟨rfl, hf⟩⟩
  · split
    · exact ⟨states, s.state, [.stopSendTimer], rfl, rfl, .inl ⟨rfl, rfl⟩⟩
    · next g l hq =>
      let s' := { s with serviceState := states }
      let r := rtLinkServiceSendFinish s' .eok
      split
      · obtain ⟨_, _, _, hr, hs⟩ := serviceSendFinish_session s' .eok
        obtain ⟨hf', hr', hs'⟩ := sendReadyIfQueued_effects r.1
        refine ⟨states, s.state, .stopSendTimer :: r.2 ++ sendReadyIfQueued r.1, ?_, ?_,
          .inr ⟨by rw [hq]; exact List.cons_ne_nil g l, rfl, ?_⟩⟩
        · simp [receivedData, receivedData_append, hr, hr', r]
        · simp [sentFrames, sentFrames_append, hs, hs', r]
        · simp [finishedErrs, finishedErrs_append, hf', r, s']
      · exact ⟨states, s.state, [.stopSendTimer], rfl, rfl, .inl ⟨rfl, rfl⟩⟩

/-- The block that a frame of a long message finds: the one of its own message. -/
theorem longBlock (malloc : Nat → Option (Nat → Byte))
    (hreceives : Direction c y.outgoing x.incoming toX toY)
    (hsent : SentAs c y.outgoing x.incoming p m j) (hnum : x.rxNum = m.base)
    (hparameter : p.frame.extend.parameter = m.data.length) : ∃ total space,
      (if x.session.longCount = 0 then longHandleFirst malloc x.session p.frame
        else x.session) = { x.session with rxTotal := total, dataspace := space } ∧
      ∀ sp, space = some sp → total = m.count ∧ x.session.longCount < 2 ^ m.count ∧
        ∀ l, x.session.longCount.testBit l → Stored m sp l := by
  by_cases hzero : x.session.longCount = 0
  · refine ⟨m.count, malloc p.frame.extend.parameter, ?_, fun sp _ => ⟨rfl, ?_, fun l hl => ?_⟩⟩
    · rw [if_pos hzero, longHandleFirst, hparameter]
      rfl
    · rw [hzero]
      exact Nat.two_pow_pos _
    · rw [hzero, Nat.zero_testBit] at hl
      exact nomatch hl
  · refine ⟨x.session.rxTotal, x.session.dataspace, if_neg hzero, fun sp hsp => ?_⟩
    obtain ⟨k, n, hn, hs⟩ := hreceives.space sp hsp
    have hbase : x.rxNum = n.base := hs.num
    have := hreceives.sender.base_lt_last hn
    have := hreceives.sender.base_lt_last hsent.message
    obtain rfl : k = p.message := hreceives.sender.index_unique (n := x.rxNum + 1) hn hsent.message
      (by omega) (by omega) (by omega) (by omega)
    obtain rfl : n = m := Option.some.inj (hn.symm.trans hsent.message)
    exact ⟨hs.total, hs.bits, hs.stored⟩

/-! ## Handshakes -/

/-- A handshake leaves the numbers of the side `x` that handles it, or the numbers of an idle side
are the ones it carries, and its receiver waits for no rest of a message. -/
structure HandshakeOk (x y : Peer) (f : Frame) : Prop where
  sequence : f.head.sequence = x.session.rxSeq ∨
    y.session.txList = [] ∧ f.head.sequence = y.session.txSeq ∧ x.session.dataspace = none
  parameter : f.extend.parameter % 2 ^ 8 = x.session.txSeq ∨
    x.session.txList = [] ∧ f.extend.parameter % 2 ^ 8 = y.session.rxSeq ∧
      y.session.dataspace = none

/-- The numbers of the frames to the side that handles a handshake. -/
theorem resync_receives (hreceives : Direction c y.outgoing x.incoming toX toY)
    (hok : HandshakeOk x y f) :
    Direction c y.outgoing
      { x.incoming with seq := f.head.sequence, num := (resync x y f).1.rxNum } toX toY := by
  have hnum : (resync x y f).1.rxNum =
      if f.head.sequence = x.session.rxSeq then x.rxNum else y.txNum := by
    unfold resync
    dsimp only
    split <;> rfl
  rw [hnum]
  split
  · next hsame =>
    rw [hsame]
    exact hreceives
  · next hnew =>
    obtain ⟨hnil, hseq, hspace⟩ := hok.sequence.resolve_left hnew
    have htx : y.session.txSeq = y.txNum % 2 ^ 8 := hreceives.sender.seq
    exact hreceives.reset hnil hspace (Nat.le_refl y.txNum) htx (hseq.trans htx)

/-- The numbers of the frames to the side that has requested the handshake. -/
theorem resync_sends (hsends : Direction c x.outgoing y.incoming toY toX)
    (hok : HandshakeOk x y f) :
    Direction c
      { x.outgoing with seq := f.extend.parameter % 2 ^ 8, num := (resync x y f).1.txNum }
      (resync x y f).2.incoming toY toX := by
  have hrx : y.session.rxSeq = y.rxNum % 2 ^ 8 := hsends.seq
  unfold resync
  dsimp only
  split
  · next hsame =>
    rw [hsame]
    exact hsends
  · next hnew =>
    obtain ⟨hnil, hseq, hspace⟩ := hok.parameter.resolve_left hnew
    have hmod : y.session.rxSeq = (y.rxNum + 2 ^ 8 * (x.txNum + 2)) % 2 ^ 8 := by
      rw [Nat.add_mul_mod_self_left, hrx]
    have hle : x.outgoing.num ≤ y.rxNum + 2 ^ 8 * (x.txNum + 2) := by
      show x.txNum ≤ _
      omega
    exact hsends.reset hnil hspace hle (hseq.trans hmod) hmod

/-! ## The steps -/

section

variable (hsends : Direction c x.outgoing y.incoming toY toX)
  (hreceives : Direction c y.outgoing x.incoming toX toY)
include hsends hreceives

/-- The frames of the first message are sent, and it may end at once. -/
theorem rtLinkFrameSend_moves {io : Nat → Bool} (hne : x.session.txList ≠ [])
    (hlong : ∀ m, x.messages[x.ended.length]? = some m → x.started ≤ x.ended.length →
      1 < m.count → y.rxNum = m.base) :
    Moves c x y toX toY (rtLinkFrameSend x io) := by
  obtain ⟨m, hm⟩ := hsends.sender.exists_message (o := x.outgoing) hne
  have hpos := Message.count_pos (hsends.sender.size m (List.mem_of_getElem? hm)).1
  let r := frameSendLoop io ackMax x.session.txList
  let z := { x with
    session := { x.session with txList := r.1 }
    started := x.ended.length + 1 }
  have hz : Direction c z.outgoing y.incoming toY toX :=
    (hsends.flag (frameSendLoop_unsent io ackMax x.session.txList)).start hm fun hst hcount =>
      hlong m hm hst hcount
  have hframes : ∀ j g, x.session.txList[j]? = some g → 0 + j < m.count →
      g.index = 0 + j ∧ g.total = m.count := fun j g hg hj => by
    have heq : g.unsent = messageFrame c m j := hsends.sender.frame_eq hm hg (by omega)
    rw [Nat.zero_add]
    exact ⟨congrArg SendFrame.index heq, congrArg SendFrame.total heq⟩
  have hsent : ∀ p ∈ r.2.1.map (fun f => packet z f.wire),
      ∃ j, SentAs c z.outgoing y.incoming p m j := by
    intro p hp
    obtain ⟨f, hf, rfl⟩ := List.mem_map.mp hp
    obtain ⟨j, hj, hget⟩ := frameSendLoop_sent io hframes hpos f hf
    have heq : f.unsent = messageFrame c m j := hsends.sender.frame_eq hm hget (by omega)
    rw [← unsent_wire, heq]
    exact ⟨j, sentAs_packet hz.sender hm (by omega) (Nat.lt_succ_self _)
      (hz.first m hm (Nat.lt_succ_self _))⟩
  have hconfirm : ∀ p ∈ r.2.1.map (fun f => packet z f.wire), p.frame.attr ≠ .confirm := by
    intro p hp
    obtain ⟨j, hj⟩ := hsent p hp
    have hattr : p.frame.attr = (messageFrame c m j).attr := congrArg Frame.attr hj.frame
    rw [hattr]
    rcases messageFrame_attr (c := c) (m := m) j with h | h <;> rw [h] <;> decide
  have hz := hz.append_net fun p hp _ => ⟨m, hsent p hp⟩
  unfold rtLinkFrameSend
  dsimp only
  split
  · exact moves_sender rfl hz hreceives rfl hconfirm
  · have hin := finish_incoming (x := { z with session := { z.session with state := .disconn } })
      LinkErr.eio
    exact moves_sender hin.2 (finish_direction hz nofun) hreceives hin.1 hconfirm

/-- The number of the receiver is the one before a long message that is sent for the first time. -/
def LongReady (x y : Peer) : Prop :=
  ∀ f ∈ x.session.txList.head?, x.started ≤ x.ended.length → 1 < f.total →
    y.rxNum = x.txNum - x.session.txList.length

theorem rtLinkSendReady_moves (io : Nat → Bool) (hlong : x.session.state = .connect →
      (∀ f ∈ x.session.txList.head?, f.issent = false) → LongReady x y) :
    Moves c x y toX toY (rtLinkSendReady x io) := by
  unfold rtLinkSendReady
  split
  · exact moves_idle rfl hsends hreceives rfl rfl fun p hp => by
      obtain rfl := List.mem_singleton.mp hp
      simp [commandFrame, isData]
  · next hstate =>
    split
    · exact moves_idle rfl hsends hreceives rfl rfl nofun
    · next f l hq =>
      split
      · exact moves_idle rfl hsends hreceives rfl rfl nofun
      · next hsent =>
        refine rtLinkFrameSend_moves hsends hreceives (by simp [hq]) fun m hm hst hcount => ?_
        have hf : x.outgoing.queue[0]? = some f := by
          show x.session.txList[0]? = _
          rw [hq]
          rfl
        have hpos := Message.count_pos (hsends.sender.size m (List.mem_of_getElem? hm)).1
        have heq : f.unsent = messageFrame c m 0 := hsends.sender.frame_eq hm hf hpos
        have htotal : f.total = m.count := congrArg SendFrame.total heq
        have hbase : x.txNum - x.session.txList.length = m.base := hsends.sender.base_eq hm
        rw [← hbase]
        refine hlong (by simpa using hstate) ?_ f (by simp [hq]) hst (htotal ▸ hcount)
        simpa [hq] using hsent

theorem rtLinkSendTimeout_moves : Moves c x y toX toY (rtLinkSendTimeout x) := by
  unfold rtLinkSendTimeout
  split
  · have hin := finish_incoming (x := { x with sendActive := false, sendCount := 0 })
      LinkErr.etimeout
    refine moves_sender hin.2 ?_ hreceives hin.1 nofun
    rw [List.append_nil]
    exact finish_direction (x := { x with sendActive := false, sendCount := 0 }) hsends nofun
  · split
    · exact moves_idle rfl hsends hreceives rfl rfl nofun
    · next f l hq =>
      refine moves_sender rfl ?_ hreceives rfl fun p hp => ?_
      · refine Direction.append_net (hsends.flag (q := { f with issent := false } :: l) ?_) ?_
        · show _ = x.session.txList.map SendFrame.unsent
          rw [hq]
          rfl
        · intro p hp hattr
          obtain rfl := List.mem_singleton.mp hp
          simp [commandFrame, isData] at hattr
      · obtain rfl := List.mem_singleton.mp hp
        simp [commandFrame]

theorem rtLinkLongRecvTimeout_moves : Moves c x y toX toY (rtLinkLongRecvTimeout x) := by
  unfold rtLinkLongRecvTimeout
  split
  · refine moves_receiver rfl hsends rfl ?_ nofun
    rw [List.append_nil]
    exact hreceives.stop 0 0
  · refine moves_idle rfl hsends hreceives rfl rfl fun p hp => ?_
    obtain ⟨f, hf, rfl⟩ := List.mem_map.mp hp
    have hattr := resendRequests_attr x.session _ f hf
    simp [isData, hattr]

theorem rtLinkServiceAttach_moves : Moves c x y toX toY (rtLinkServiceAttach c x) :=
  moves_idle rfl hsends hreceives rfl rfl fun p hp => by
    obtain rfl := List.mem_singleton.mp hp
    simp [commandFrame, isData]

/-- All frames of a message find memory, or the first one does not. -/
theorem rtLinkSend_moves {data : List Byte} {memory : Nat}
    (hmemory : data = [] ∨ framesMax < frameCount data.length ∨
      frameCount data.length ≤ memory ∨ memory = 0) :
    Moves c x y toX toY (rtLinkSend c x data memory, []) := by
  unfold rtLinkSend
  dsimp only
  split
  · exact moves_idle rfl hsends hreceives rfl rfl nofun
  · next hsize =>
    split
    · next hfew =>
      obtain rfl : memory = 0 := by
        rcases hmemory with h | h | h | h
        · exact absurd (.inl h) hsize
        · exact absurd (.inr h) hsize
        · omega
        · exact h
      refine moves_idle rfl hsends hreceives ?_ rfl nofun
      have hseq : x.session.txSeq = x.txNum % 2 ^ 8 := hsends.sender.seq
      simp [queueFrames, Peer.outgoing, wadd, hseq]
    · refine moves_sender rfl ?_ hreceives rfl nofun
      rw [List.append_nil]
      have hsend := hsends.send data (fun h => hsize (.inl h))
        (Nat.le_of_not_lt fun h => hsize (.inr h))
      have htake : (messageFrames c ⟨x.txNum, data⟩).take (frameCount data.length) =
          messageFrames c ⟨x.txNum, data⟩ :=
        List.take_of_length_le (Nat.le_of_eq length_messageFrames)
      unfold queueFrames
      rw [htake]
      exact hsend

/-- A resend request is answered while no message waits for its first frame to be sent. -/
theorem handle_resend_moves (hattr : p.frame.attr = .resend) (hok : x.started = x.messages.length ∨
      x.session.txList.find? (fun g => g.head.sequence = p.frame.head.sequence) = none) :
    Moves c x y toX toY (handle malloc x p recvLen) := by
  cases hfind : x.session.txList.find? (fun g => g.head.sequence = p.frame.head.sequence) with
  | none =>
    have hparse : rtLinkParseFrame malloc x.session p.frame recvLen =
        (x.session, [.send (commandFrame p.frame.head.service p.frame.head.sequence
          .sessionEnd 0)]) := by
      simp only [rtLinkParseFrame, hattr, rtLinkResendHandle, hfind]
    refine moves_idle ?_ hsends hreceives ?_ ?_ ?_
    · rw [handle_session hparse]
    · rw [handle_outgoing hparse]
      simp [finishedErrs, Peer.outgoing]
    · rw [handle_incoming hparse]
      simp [receivedData, isReceived, Peer.incoming]
    · rw [handle_packets hparse]
      simp [sentFrames, commandFrame, isData]
  | some g =>
    have hparse : rtLinkParseFrame malloc x.session p.frame recvLen =
        (x.session, [.send g.wire]) := by
      simp only [rtLinkParseFrame, hattr, rtLinkResendHandle, hfind]
    have hstarted : x.started = x.messages.length := by
      rcases hok with h | h
      · exact h
      · exact nomatch hfind.symm.trans h
    obtain ⟨j, hget⟩ := List.getElem?_of_mem (List.mem_of_find?_eq_some hfind)
    obtain ⟨m, hm⟩ := hsends.sender.exists_message (o := x.outgoing)
      (List.ne_nil_of_mem (List.mem_of_find?_eq_some hfind))
    have hlt : x.ended.length < x.messages.length := (List.getElem?_eq_some_iff.mp hm).1
    have hle : x.started ≤ x.ended.length + 1 := hsends.sender.started
    have hlen := congrArg List.length (hsends.sender.queue_eq hm)
    have hdrop : x.messages.drop (x.ended.length + 1) = [] :=
      List.drop_eq_nil_of_le (by omega)
    have hlen : (x.session.txList.map SendFrame.unsent).length = (messageFrames c m ++
        (x.messages.drop (x.ended.length + 1)).flatMap (messageFrames c)).length := hlen
    rw [hdrop] at hlen
    have hj : j < m.count := by
      have := (List.getElem?_eq_some_iff.mp hget).1
      simp at hlen
      omega
    have heq : g.unsent = messageFrame c m j := hsends.sender.frame_eq hm hget hj
    have hpackets : (handle malloc x p recvLen).2 = [packet x (messageFrame c m j).wire] := by
      rw [handle_packets hparse, ← heq, unsent_wire]
      rfl
    refine moves_sender ?_ ?_ hreceives ?_ ?_
    · rw [handle_session hparse]
    · rw [hpackets, handle_outgoing hparse]
      simp only [finishedErrs, List.append_nil]
      refine Direction.append_net hsends fun q hq _ => ?_
      obtain rfl := List.mem_singleton.mp hq
      exact ⟨m, j, sentAs_packet hsends.sender hm hj (by omega) (hsends.first m hm (by
        show x.ended.length < x.started
        omega))⟩
    · rw [handle_incoming hparse]
      simp [receivedData, isReceived, Peer.incoming]
    · rw [hpackets]
      intro q hq
      obtain rfl := List.mem_singleton.mp hq
      rw [packet_frame]
      rcases messageFrame_attr (c := c) (m := m) j with h | h
      · exact fun hc => nomatch h.symm.trans hc
      · exact fun hc => nomatch h.symm.trans hc

variable {count total : Nat}

/-- A frame changes the block for a message at most. -/
theorem handle_store_moves {space : Option (Nat → Byte)}
    (hparse : rtLinkParseFrame malloc x.session p.frame recvLen =
      ({ x.session with rxTotal := total, longCount := count, dataspace := space }, es))
    (hfinished : finishedErrs es = []) (hreceived : receivedData es = [])
    (hsent : sentFrames es = []) (hspace : ∀ sp, space = some sp → ∃ (k : Nat) (m : Message),
      y.outgoing.messages[k]? = some m ∧
        Storing { x.incoming with total := total, count := count, space := space } m sp) :
    Moves c x y toX toY (handle malloc x p recvLen) := by
  refine moves_receiver ?_ hsends ?_ ?_ ?_
  · rw [handle_session hparse]
  · rw [handle_outgoing hparse, hfinished, List.append_nil]
    rfl
  · rw [handle_incoming hparse, handle_packets hparse, hreceived, hsent, any_isReceived hreceived,
      List.map_nil, List.append_nil, List.map_nil, List.append_nil]
    exact hreceives.store hspace
  · rw [handle_packets hparse, hsent]
    exact nofun

/-- A message is complete: it is confirmed and delivered. -/
theorem handle_receive_moves {seq confirmed : Nat}
    (hparse : rtLinkParseFrame malloc x.session p.frame recvLen =
      ({ x.session with
          rxSeq := seq
          rxTotal := total
          longCount := count
          dataspace := none
          ackMask := ackMax }, es)) (hsent : SentAs c y.outgoing x.incoming p m j)
    (hnew : x.rxNum < p.stamp) (hfinished : finishedErrs es = [])
    (hreceived : receivedData es = [m.data])
    (hframes : sentFrames es = [commandFrame c.service confirmed .confirm 0])
    (hany : es.any isReceived) (hseq : seq = m.last % 2 ^ 8)
    (hconfirmed : confirmed % 2 ^ 8 = m.last % 2 ^ 8) :
    Moves c x y toX toY (handle malloc x p recvLen) := by
  refine moves_receiver ?_ hsends ?_ ?_ ?_
  · rw [handle_session hparse]
  · rw [handle_outgoing hparse, hfinished, List.append_nil]
    rfl
  · rw [handle_incoming hparse, handle_packets hparse, hreceived, hframes, hany, hsent.last]
    exact (hreceives.receive hsent hnew hseq).confirm hconfirmed
  · rw [handle_packets hparse, hframes]
    intro q hq
    obtain rfl := List.mem_singleton.mp hq
    rfl

theorem handle_sessionEnd_moves (hattr : p.frame.attr = .sessionEnd) :
    Moves c x y toX toY (handle malloc x p recvLen) := by
  have hparse : rtLinkParseFrame malloc x.session p.frame recvLen =
      ({ x.session with rxTotal := 0, longCount := 0, dataspace := none }, []) := by
    simp only [rtLinkParseFrame, hattr]
    rfl
  refine handle_store_moves hsends hreceives hparse rfl rfl rfl fun sp hsp => ?_
  exact nomatch hsp

theorem handle_detach_moves (hattr : p.frame.attr = .detach) :
    Moves c x y toX toY (handle malloc x p recvLen) := by
  have hparse : rtLinkParseFrame malloc x.session p.frame recvLen =
      (rtLinkDetachHandle x.session p.frame, []) := by
    simp only [rtLinkParseFrame, hattr]
  have hdetach : ∃ states, rtLinkDetachHandle x.session p.frame =
      { x.session with serviceState := states } := by
    unfold rtLinkDetachHandle
    split
    · exact ⟨_, rfl⟩
    · exact ⟨_, rfl⟩
  obtain ⟨states, hstates⟩ := hdetach
  rw [hstates] at hparse
  refine moves_idle ?_ hsends hreceives ?_ ?_ ?_
  · rw [handle_session hparse]
  · rw [handle_outgoing hparse]
    simp [finishedErrs, Peer.outgoing]
  · rw [handle_incoming hparse]
    simp [receivedData, Peer.incoming]
  · rw [handle_packets hparse]
    exact nofun

/-- A confirmation that is not too old is one of the last number, so that the first message has been
delivered. -/
theorem handle_confirm_moves (hp : p ∈ toX) (hattr : p.frame.attr = .confirm)
    (haccepted : seqAccepted x.session p.frame.attr p.frame.head.sequence)
    (hfresh : x.session.txList = [] ∨ x.txNum < p.stamp + 253) :
    Moves c x y toX toY (handle malloc x p recvLen) := by
  have hparse : rtLinkParseFrame malloc x.session p.frame recvLen =
      rtLinkConfirmHandle x.session p.frame := by
    simp only [rtLinkParseFrame, hattr]
  obtain ⟨states, state, es, hr, hsent, hcases⟩ := rtLinkConfirmHandle_cases x.session p.frame
  have hany := any_isReceived hr
  rcases hcases with ⟨heq, hf⟩ | ⟨hne, heq, hf⟩
  · rw [heq] at hparse
    refine moves_idle ?_ hsends hreceives ?_ ?_ ?_
    · rw [handle_session hparse]
    · rw [handle_outgoing hparse, hf]
      simp [Peer.outgoing]
    · rw [handle_incoming hparse, hr, hany]
      simp [Peer.incoming]
    · rw [handle_packets hparse, hsent]
      exact nofun
  · let x' : Peer := { x with session :=
      { x.session with serviceState := states, state := state } }
    have hparse : rtLinkParseFrame malloc x.session p.frame recvLen =
      ((rtLinkServiceSendFinish x'.session .eok).1, es) := hparse.trans heq
    obtain ⟨m, hm⟩ := hsends.sender.exists_message (o := x.outgoing) hne
    have hconfirms := hsends.confirms p hp hattr
    have hstamp : p.stamp = x.outgoing.num :=
      stamp_of_accepted hsends hp hattr haccepted (hfresh.resolve_left hne) hm
    have hfinish := serviceSendFinish_direction (x := x') .eok hsends fun _ _ =>
      hsends.first_delivered hm (hstamp ▸ hconfirms.settled)
    obtain ⟨errs, l, hs, _, _⟩ := serviceSendFinish_session x'.session .eok
    rw [hs] at hparse hfinish
    refine moves_sender ?_ ?_ hreceives ?_ ?_
    · rw [handle_session hparse]
    · rw [handle_outgoing hparse, handle_packets hparse, hsent, hf, List.map_nil, List.append_nil]
      exact hfinish
    · rw [handle_incoming hparse, hr, hany, List.map_nil, List.append_nil]
      rfl
    · rw [handle_packets hparse, hsent]
      exact nofun

/-! ### Data -/

/-- The step of a short message. -/
theorem handle_short_moves (hattached : x.session.attached = fun s => s = c.service)
    (hp : p ∈ toX) (hattr : p.frame.attr = .shortData)
    (haccepted : seqAccepted x.session p.frame.attr p.frame.head.sequence)
    (hfresh : x.rxNum < p.stamp + 252) :
    Moves c x y toX toY (handle malloc x p recvLen) := by
  have hdata : isData p.frame.attr := by rw [hattr]; rfl
  obtain ⟨m, j, hsent⟩ := hreceives.data p hp hdata
  have hnew : x.rxNum < p.stamp :=
    num_lt_of_accepted hreceives.seq hsent hdata haccepted hfresh
  have hne := (hreceives.sender.size m (List.mem_of_getElem? hsent.message)).1
  have hcount : m.count = 1 := by
    have hshort := hsent.attr
    rw [hattr] at hshort
    have hpos := Message.count_pos hne
    split at hshort
    · exact nomatch hshort
    · omega
  have hj : j = 0 := by
    have := hsent.index
    omega
  have hpayload : p.frame.payload = m.data := by
    have hlen : m.data.length ≤ maxDataLength * m.count :=
      (frameCount_bounds (List.length_pos_of_ne_nil hne)).2
    rw [hcount, Nat.mul_one] at hlen
    rw [hsent.payload, hj]
    exact List.take_of_length_le hlen
  have hseq : p.frame.head.sequence = m.last % 2 ^ 8 := by
    rw [hsent.sequence, hsent.stamp, Message.last, hcount, hj]
  cases hmalloc : (malloc p.frame.head.length).isSome with
  | false =>
    have hparse : rtLinkParseFrame malloc x.session p.frame recvLen =
        ({ x.session with dataspace := none }, []) := by
      simp only [rtLinkParseFrame, hattr, rtLinkShortHandle, hmalloc, Bool.false_eq_true, if_false]
    refine handle_store_moves hsends hreceives hparse rfl rfl rfl fun sp hsp => ?_
    exact nomatch hsp
  | true =>
    have hparse : rtLinkParseFrame malloc x.session p.frame recvLen =
        ({ x.session with rxSeq := p.frame.head.sequence, dataspace := none },
          [.send (commandFrame c.service p.frame.head.sequence .confirm 0),
            .received c.service m.data]) := by
      simp only [rtLinkParseFrame, hattr, rtLinkShortHandle, hmalloc, if_true, hsent.ack,
        rtLinkRecvFinish, hattached, hsent.service, decide_true, hpayload]
      rfl
    have hmask : x.session.ackMask = ackMax := hreceives.mask
    have hsession : { x.session with rxSeq := p.frame.head.sequence, dataspace := none } =
        { x.session with
          rxSeq := p.frame.head.sequence
          dataspace := none
          ackMask := ackMax } := by
      rw [← hmask]
    rw [hsession] at hparse
    refine handle_receive_moves hsends hreceives hparse hsent hnew rfl rfl rfl rfl hseq ?_
    rw [hseq, Nat.mod_mod]

/-- The step of a frame of a long message. -/
theorem handle_long_moves (hattached : x.session.attached = fun s => s = c.service)
    (hp : p ∈ toX) (hattr : p.frame.attr = .longData)
    (haccepted : seqAccepted x.session p.frame.attr p.frame.head.sequence)
    (hfresh : x.rxNum < p.stamp + 252) :
    Moves c x y toX toY (handle malloc x p recvLen) := by
  have hdata : isData p.frame.attr := by rw [hattr]; rfl
  obtain ⟨m, j, hsent⟩ := hreceives.data p hp hdata
  have hnew : x.rxNum < p.stamp :=
    num_lt_of_accepted hreceives.seq hsent hdata haccepted hfresh
  obtain ⟨hne, hmax⟩ := hreceives.sender.size m (List.mem_of_getElem? hsent.message)
  have hlong : 1 < m.count := by
    have h := hsent.attr
    rw [hattr] at h
    split at h
    · assumption
    · exact nomatch h
  have hnum : x.rxNum = m.base := by
    have hstamp := hsent.stamp_le
    rcases hsent.long hlong with h | h
    · exact h
    · have h : m.last ≤ x.rxNum := h
      omega
  have hparameter : p.frame.extend.parameter = m.data.length := by
    have hcount : 1 < frameCount m.data.length := hlong
    rw [hsent.frame]
    simp [messageFrame, SendFrame.wire, hcount]
  have hseq : x.session.rxSeq = m.base % 2 ^ 8 := hnum ▸ hreceives.seq
  have hmask : x.session.ackMask = ackMax := hreceives.mask
  have hindex : wsub 8 (rtLinkCheckSeq p.frame.head.sequence x.session.rxSeq) 1 = j := by
    rw [hsent.sequence, hsent.stamp, hseq]
    exact index_of_sequence (Nat.lt_of_lt_of_le hsent.index hmax)
  obtain ⟨total, space, hblock, hspace⟩ := longBlock malloc hreceives hsent hnum hparameter
  have hhandle : rtLinkParseFrame malloc x.session p.frame recvLen =
      if 0 < total then
        longHandleSecond { x.session with rxTotal := total, dataspace := space } p.frame recvLen
      else ({ x.session with rxTotal := total, dataspace := space }, []) := by
    simp only [rtLinkParseFrame, hattr, rtLinkLongHandle, hblock]
  cases space with
  | none =>
    have hparse : rtLinkParseFrame malloc x.session p.frame recvLen =
        ({ x.session with rxTotal := total, dataspace := none }, []) := by
      rw [hhandle, longHandleSecond]
      simp
    refine handle_store_moves hsends hreceives hparse rfl rfl rfl fun sp hsp => ?_
    exact nomatch hsp
  | some sp =>
    obtain ⟨rfl, hbits, hstored⟩ := hspace sp rfl
    rw [if_pos (by omega)] at hhandle
    cases hbit : x.session.longCount.testBit j with
    | true =>
      have hparse : rtLinkParseFrame malloc x.session p.frame recvLen =
          ({ x.session with rxTotal := m.count, dataspace := some sp }, []) := by
        rw [hhandle, longHandleSecond]
        simp [hindex, hbit]
      refine handle_store_moves hsends hreceives hparse rfl rfl rfl fun sp' hsp => ?_
      obtain rfl : sp = sp' := Option.some.inj hsp
      refine ⟨_, m, hsent.message, hnum, hlong, rfl, fun hzero => ?_, hbits, hstored⟩
      have hzero : x.session.longCount = 0 := hzero
      rw [hzero, Nat.zero_testBit] at hbit
      exact nomatch hbit
    | false =>
      have hpayload : p.frame.payload = m.slice j := hsent.payload
      have hstored' : ∀ l, (x.session.longCount ||| 1 <<< j).testBit l →
          Stored m (Ringbuffer.copyTo sp (maxDataLength * j) (m.slice j)) l := by
        intro l hl
        by_cases hjl : j = l
        · exact hjl ▸ Stored.new
        · rw [testBit_or_bit, decide_eq_false hjl, Bool.or_false] at hl
          exact (hstored l hl).copy hjl
      have heq := hhandle.trans (longHandleSecond_eq hindex hsent.index hmax rfl hmask rfl hbits
        hsent.ack hbit)
      rw [hpayload, hparameter, hsent.service] at heq
      split at heq
      · next hcomplete =>
        have hall : ∀ l < m.count, Stored m
            (Ringbuffer.copyTo sp (maxDataLength * j) (m.slice j)) l := fun l hl =>
          hstored' l (num1_complete m.count hmax _ (or_bit_lt hbits hsent.index) hcomplete l hl)
        rw [copyFrom_of_stored hne hall] at heq
        have hrecv : rtLinkRecvFinish { x.session with rxTotal := m.count, dataspace := some sp }
            c.service m.data = [.received c.service m.data] := by
          simp [rtLinkRecvFinish, hattached]
        rw [hrecv] at heq
        refine handle_receive_moves hsends hreceives heq hsent hnew rfl rfl rfl rfl ?_ ?_
        · show (x.session.rxSeq + m.count) % 2 ^ 8 = _
          rw [hseq, Nat.mod_add_mod]
          rfl
        · rw [hseq, Nat.mod_add_mod]
          rfl
      · refine handle_store_moves hsends hreceives heq ?_ ?_ ?_ ?_
        · split <;> rfl
        · split <;> rfl
        · split <;> rfl
        · rintro _ ⟨⟩
          exact ⟨_, m, hsent.message, hnum, hlong, rfl, or_bit_ne_zero _ _,
            or_bit_lt hbits hsent.index, hstored'⟩

theorem handle_handshake_moves (hattr : p.frame.attr = .handshake) (hok : HandshakeOk x y p.frame) :
    Moves c x (resync x y p.frame).2 toX toY
      (handle malloc (resync x y p.frame).1 p recvLen) := by
  have hin := resync_receives hreceives hok
  have hout := resync_sends hsends hok
  have hhandshake : ∃ states f, rtLinkHandshakeHandle x.session p.frame =
      ({ x.session with
          serviceState := states
          state := .connect
          rxSeq := p.frame.head.sequence
          txSeq := p.frame.extend.parameter % 2 ^ 8 }, [.send f]) ∧
      (f = commandFrame p.frame.head.service p.frame.head.sequence .confirm 0 ∨
        f.attr = .detach) := by
    unfold rtLinkHandshakeHandle
    dsimp only
    split
    · exact ⟨_, _, rfl, .inl rfl⟩
    · exact ⟨x.session.serviceState, _, rfl, .inr rfl⟩
  obtain ⟨states, f, hhandshake, hf⟩ := hhandshake
  have hsame : (∃ rx tx, (resync x y p.frame).1 = { x with rxNum := rx, txNum := tx }) ∧
      (resync x y p.frame).2.outgoing = y.outgoing := by
    unfold resync
    dsimp only
    split <;> exact ⟨⟨_, _, rfl⟩, rfl⟩
  generalize (resync x y p.frame).2 = y' at hsame hout ⊢
  generalize (resync x y p.frame).1 = x' at hsame hin hout ⊢
  obtain ⟨⟨rx, tx, rfl⟩, hy⟩ := hsame
  have hparse : rtLinkParseFrame malloc ({ x with rxNum := rx, txNum := tx } : Peer).session
      p.frame recvLen = ({ x.session with
        serviceState := states
        state := .connect
        rxSeq := p.frame.head.sequence
        txSeq := p.frame.extend.parameter % 2 ^ 8 }, [.send f]) := by
    simp only [rtLinkParseFrame, hattr, hhandshake]
  have hdata : isData f.attr = false := by
    rcases hf with rfl | hf
    · rfl
    · rw [hf]
      rfl
  refine ⟨?_, ?_, ?_⟩
  · rw [handle_session hparse]
  · rw [handle_outgoing hparse, handle_packets hparse]
    simp only [finishedErrs, List.append_nil]
    refine hout.append_net fun q hq hattr' => ?_
    obtain rfl := List.mem_singleton.mp hq
    rw [packet_frame, hdata] at hattr'
    exact nomatch hattr'
  · rw [handle_incoming hparse, handle_packets hparse, hy]
    simp only [receivedData, List.map_nil, List.append_nil]
    rcases hf with rfl | hf
    · exact hin.confirm (congrArg (· % 2 ^ 8) hin.seq |>.trans
        (Nat.mod_mod _ _))
    · refine hin.append_back fun q hq hattr' => ?_
      obtain rfl := List.mem_singleton.mp hq
      rw [packet_frame, hf] at hattr'
      exact nomatch hattr'

end

end RtThread.RtLink
