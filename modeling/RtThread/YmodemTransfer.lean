import Mathlib.Data.List.GetD
import RtThread.Ymodem

/-!
# A transfer

Where no wait of the receiver ends by its time limit, every run of the two sides ends with both of
them successful and all blocks received. Once the sender has the receiver's `C`, both sides are
processes that only wait, so one run that ends stands for all of them. A receiver that has waited
in vain sends a second `C`, which the sender reads where it expects the `ACK` for its packet.
-/
namespace RtThread.Ymodem

open Channels

variable {s : Session} {blocks : List Block} {z : Net Send Recv Byte}

/-- The sender's callbacks supply these blocks, and the empty block at the end. -/
structure Supplies (s : Session) (blocks : List Block) : Prop where
  nonempty : blocks ≠ []
  begins : s.send.onBegin.2 = rymCodeSoh
  data : ∀ k (hk : k < blocks.length),
    s.send.onData k = ⟨blocks[k], rymCodeSoh, decide (k + 1 = blocks.length)⟩
  ends : s.send.onEnd.2 = rymCodeSoh
  null : s.send.onEnd.1.bytes = List.replicate 128 0

def contents (blocks : List Block) : List (List Byte) := blocks.map Block.bytes

/-- The receiver's callbacks accept what the sender supplies. -/
structure Accepts (s : Session) (blocks : List Block) : Prop where
  begins : s.recv.onBegin s.send.onBegin.1.bytes = rymCodeAck
  data : ∀ k (hk : k < blocks.length),
    s.recv.onData (contents (blocks.take k)) blocks[k].bytes = rymCodeAck

/-- Both sides have returned `RT_EOK`, and `on_data` was called with these blocks. -/
structure Agree (s : Session) (blocks : List Block) (n : Net Send Recv Byte) : Prop where
  sent : (doSend s n.left).result = some .eok
  received : (doRecv s n.right).result = some .eok
  blocks : n.right.received = contents blocks

/-- No wait of the receiver ends by its time limit, and the sender's last handshake wait does
not. -/
def InTime (s : Session) (n : Net Send Recv Byte) : Event → Prop
  | .go _ => True
  | .expire .left => n.left ≠ .handshake (s.sendTm - 1)
  | .expire .right => False

/-! ## Packets -/

theorem packetRest_length (index : Byte) (block : Block) :
    (packetRest index block).length = 132 := by
  simp [packetRest, block.size]

@[simp] theorem packetRest_zero (index : Byte) (block : Block) :
    (packetRest index block).getD 0 0 = index := rfl

@[simp] theorem packetRest_one (index : Byte) (block : Block) :
    (packetRest index block).getD 1 0 = ~~~index := rfl

theorem packetData_packetRest (index : Byte) (block : Block) :
    packetData 128 (packetRest index block) = block.bytes := by
  rw [packetData, packetRest, List.drop_succ_cons, List.drop_succ_cons, List.drop_zero,
    List.take_append_of_le_length (Nat.le_of_eq block.size.symm),
    List.take_of_length_le (Nat.le_of_eq block.size)]

theorem bytes_joined (crc : BitVec 16) :
    ((crc >>> 8).setWidth 8).setWidth 16 <<< 8 ||| (crc.setWidth 8).setWidth 16 = crc := by
  apply BitVec.eq_of_getLsbD_eq
  intro i hi
  by_cases hlow : i < 8
  · simp [hlow, hi]
  · have hshift : 8 + (i - 8) = i := by omega
    have hhigh : i - 8 < 8 := by omega
    simp [hlow, hi, hhigh, hshift]

theorem recvCrc_packetRest (index : Byte) (block : Block) :
    recvCrc 128 (packetRest index block) = crc16 block.bytes := by
  have hhigh : (packetRest index block).getD 130 0 = (crc16 block.bytes >>> 8).setWidth 8 := by
    rw [packetRest, List.getD_cons_succ, List.getD_cons_succ,
      List.getD_append_right _ _ _ _ (Nat.le_of_eq block.size), block.size]
    rfl
  have hlow : (packetRest index block).getD 131 0 = (crc16 block.bytes).setWidth 8 := by
    rw [packetRest, List.getD_cons_succ, List.getD_cons_succ,
      List.getD_append_right _ _ _ _ (by rw [block.size]; decide), block.size]
    rfl
  rw [recvCrc, hhigh, hlow, bytes_joined]

theorem toNat_add_not (index : Byte) : index.toNat + (~~~index).toNat = 0xFF := by
  rw [BitVec.toNat_not]
  omega

/-! ## The steps of both sides -/

variable {l next : Send} {r : Recv} {toRight : List Byte} {late : Option Recv} {code index : Byte}
  {block : Block} {side : Side} {i : Nat} {sent : Bool}

theorem reaches_send {items toLeft : List Byte} (hact : doSend s l = .write items next)
    (h : Reaches (doSend s) (doRecv s) ⟨next, r, toRight ++ items, toLeft⟩ z) :
    Reaches (doSend s) (doRecv s) ⟨l, r, toRight, toLeft⟩ z :=
  Reaches.writeLeft hact h

theorem reaches_reply {next : Recv} {items toLeft : List Byte}
    (hact : doRecv s r = .write items next)
    (h : Reaches (doSend s) (doRecv s) ⟨l, next, toRight, toLeft ++ items⟩ z) :
    Reaches (doSend s) (doRecv s) ⟨l, r, toRight, toLeft⟩ z :=
  Reaches.writeRight hact h

/-- The receiver reads the character `code`. -/
theorem reaches_code {next : Byte → Recv} {toLeft : List Byte}
    (hact : doRecv s r = .read next late)
    (h : Reaches (doSend s) (doRecv s) ⟨l, next code, toRight, toLeft⟩ z) :
    Reaches (doSend s) (doRecv s) ⟨l, r, code :: toRight, toLeft⟩ z :=
  Reaches.readRight hact h

/-- The receiver reads a packet to its end. -/
theorem run_packet {received : List (List Byte)} {part : Part} {buf items toLeft : List Byte}
    (hlength : buf.length + items.length = part.size + 4) (hne : items ≠ []) :
    Runs.run (go (doSend s) (doRecv s)) ⟨l, ⟨.packet part buf, received⟩, items, toLeft⟩
        (List.replicate items.length .right) =
      some ⟨l, checkPacket s received (buf ++ items) part, [], toLeft⟩ := by
  induction items generalizing buf with
  | nil => exact absurd rfl hne
  | cons c items ih =>
    rw [List.length_cons] at hlength
    rw [List.length_cons, List.replicate_succ, Runs.run_cons]
    simp only [go, doRecv, Action.go, Option.map_some, Option.bind_some, List.append_nil]
    cases items with
    | nil =>
      rw [List.length_nil] at hlength
      rw [if_neg (by omega)]
      rfl
    | cons c' items =>
      rw [List.length_cons] at hlength
      rw [if_pos (by omega), Recv.enter, ih (by simp; omega) (List.cons_ne_nil _ _),
        List.append_assoc, List.singleton_append]

/-- The receiver reads what `_rym_send_packet` has written. -/
theorem run_sent {part : Part} {next : Byte → Recv} {toLeft : List Byte}
    (hread : doRecv s r = .read next late)
    (hnext : next rymCodeSoh = ⟨.packet part [], r.received⟩) (hsize : part.size = 128) :
    Runs.run (go (doSend s) (doRecv s)) ⟨l, r, sendPacket rymCodeSoh index block, toLeft⟩
        (List.replicate 133 .right) =
      some ⟨l, checkPacket s r.received (packetRest index block) part, [], toLeft⟩ := by
  have hrest := @run_packet s l r.received part [] (packetRest index block) toLeft
    (by rw [packetRest_length, hsize]; rfl) (List.cons_ne_nil _ _)
  have hcode : go (doSend s) (doRecv s) ⟨l, r, sendPacket rymCodeSoh index block, toLeft⟩ .right =
      some ⟨l, ⟨.packet part [], r.received⟩, packetRest index block, toLeft⟩ := by
    rw [go, hread]
    simp only [sendPacket, Action.go, Option.map_some, hnext, List.append_nil]
  rw [packetRest_length] at hrest
  exact Runs.run_cons_some.mpr ⟨_, hcode, hrest⟩

theorem reaches_sent {part : Part} {next : Byte → Recv} {toLeft : List Byte}
    (hread : doRecv s r = .read next late)
    (hnext : next rymCodeSoh = ⟨.packet part [], r.received⟩) (hsize : part.size = 128)
    (h : Reaches (doSend s) (doRecv s)
      ⟨l, checkPacket s r.received (packetRest index block) part, [], toLeft⟩ z) :
    Reaches (doSend s) (doRecv s) ⟨l, r, sendPacket rymCodeSoh index block, toLeft⟩ z :=
  .of_run (run_sent hread hnext hsize) h

/-- The sender reads the character that it expects. -/
theorem reaches_getchar {toLeft : List Byte} (hact : doSend s l = getchar code next)
    (h : Reaches (doSend s) (doRecv s) ⟨next, r, toRight, toLeft⟩ z) :
    Reaches (doSend s) (doRecv s) ⟨l, r, toRight, code :: toLeft⟩ z := by
  apply Reaches.readLeft hact
  rwa [if_pos rfl]

/-- Both sides once the sender has read the `C`. -/
def begun : Net Send Recv Byte := ⟨.packetZero, ⟨.handshakeCode 0, []⟩, [], []⟩

/-- Both sides behind a transfer; the sender does not read the last `ACK`. -/
def finished (blocks : List Block) : Net Send Recv Byte :=
  ⟨.ret .eok, ⟨.ret .eok, contents blocks⟩, [], [rymCodeAck]⟩

theorem checkPacket_zero (ha : Accepts s blocks) :
    checkPacket s [] (packetRest 0 s.send.onBegin.1) (.handshake 128) = ⟨.trans, []⟩ := by
  rw [checkPacket, packetRest_zero, packetRest_one, if_neg (by decide), recvCrc_packetRest,
    packetData_packetRest, if_neg (not_not_intro rfl), if_neg (not_not_intro ha.begins)]

theorem reaches_begun (hs : Supplies s blocks) (ha : Accepts s blocks)
    (h : Reaches (doSend s) (doRecv s) ⟨.trans 1, ⟨.transCode true, []⟩, [], []⟩ z) :
    Reaches (doSend s) (doRecv s) begun z := by
  have hact : doSend s .packetZero =
      .write (sendPacket rymCodeSoh 0 s.send.onBegin.1) .zeroAck :=
    if_neg (not_not_intro hs.begins)
  rw [begun]
  apply reaches_send hact
  apply reaches_sent rfl rfl rfl
  rw [checkPacket_zero ha]
  apply reaches_reply rfl
  apply reaches_getchar rfl
  exact reaches_getchar rfl h

/-- The sender's next block reaches the receiver. -/
theorem reaches_block (hs : Supplies s blocks) (ha : Accepts s blocks) {k : Nat}
    {established : Bool} (hk : k < blocks.length) (hfirst : established = true → k = 0)
    (h : Reaches (doSend s) (doRecv s)
      ⟨if k + 1 = blocks.length then .fin else .trans (k + 2),
        ⟨.transCode false, contents (blocks.take (k + 1))⟩, [], []⟩ z) :
    Reaches (doSend s) (doRecv s)
      ⟨.trans (k + 1), ⟨.transCode established, contents (blocks.take k)⟩, [], []⟩ z := by
  have hact : doSend s (.trans (k + 1)) =
      .write (sendPacket rymCodeSoh (BitVec.ofNat 8 (k + 1)) blocks[k])
        (.transAck (k + 2) (decide (k + 1 = blocks.length))) := by
    simp only [doSend, Nat.add_sub_cancel, hs.data k hk]
    exact if_neg (not_not_intro rfl)
  have hindex : ¬ (established = true ∧ BitVec.ofNat 8 (k + 1) = 0) := by
    rintro ⟨hstage, hzero⟩
    rw [hfirst hstage] at hzero
    exact absurd hzero (by decide)
  have htake : contents (blocks.take (k + 1)) = contents (blocks.take k) ++ [blocks[k].bytes] := by
    rw [contents, List.take_succ_eq_append_getElem hk, List.map_append]
    rfl
  have hcheck : checkPacket s (contents (blocks.take k))
      (packetRest (BitVec.ofNat 8 (k + 1)) blocks[k]) (.trans established 128) =
        ⟨.transReply false rymCodeAck, contents (blocks.take (k + 1))⟩ := by
    rw [checkPacket, packetRest_zero, packetRest_one, toNat_add_not, if_neg (not_not_intro rfl),
      if_neg hindex, recvCrc_packetRest, packetData_packetRest, if_neg (not_not_intro rfl), ha.data k hk, htake]
  have hreply : doRecv s ⟨.transReply false rymCodeAck, contents (blocks.take (k + 1))⟩ =
      .write [rymCodeAck] ⟨.transCode false, contents (blocks.take (k + 1))⟩ := rfl
  apply reaches_send hact
  apply reaches_sent rfl rfl rfl
  rw [hcheck]
  apply reaches_reply hreply
  apply reaches_getchar rfl
  by_cases hlast : k + 1 = blocks.length
  · rw [if_pos hlast] at h
    rwa [if_pos (decide_eq_true hlast)]
  · rw [if_neg hlast] at h
    rwa [if_neg (by simpa using hlast)]

theorem reaches_blocks (hs : Supplies s blocks) (ha : Accepts s blocks) {k left : Nat}
    {established : Bool} (hk : k + 1 + left = blocks.length)
    (hfirst : established = true → k = 0)
    (h : Reaches (doSend s) (doRecv s)
      ⟨.fin, ⟨.transCode false, contents blocks⟩, [], []⟩ z) :
    Reaches (doSend s) (doRecv s)
      ⟨.trans (k + 1), ⟨.transCode established, contents (blocks.take k)⟩, [], []⟩ z := by
  induction left generalizing k established with
  | zero =>
    apply reaches_block hs ha (by omega) hfirst
    rw [if_pos (by omega), List.take_of_length_le (by omega)]
    exact h
  | succ left ih =>
    apply reaches_block hs ha (by omega) hfirst
    rw [if_neg (by omega)]
    exact ih (by omega) nofun

theorem reaches_fin (hs : Supplies s blocks) :
    Reaches (doSend s) (doRecv s) ⟨.fin, ⟨.transCode false, contents blocks⟩, [], []⟩
      (finished blocks) := by
  have hcheck : checkPacket s (contents blocks) (packetRest 0 s.send.onEnd.1) .fin =
      ⟨.finLast, contents blocks⟩ := by
    rw [checkPacket, packetRest_zero, packetRest_one, if_neg (by decide), recvCrc_packetRest,
      packetData_packetRest, if_neg (not_not_intro rfl), hs.null, if_neg (by simp)]
  have hnull : doSend s .packetNull =
      .write (sendPacket rymCodeSoh 0 s.send.onEnd.1) (.ret .eok) :=
    if_neg (not_not_intro hs.ends)
  have hlast : Reaches (doSend s) (doRecv s)
      ⟨.packetNull, ⟨.finCode, contents blocks⟩, [], []⟩ (finished blocks) := by
    apply reaches_send hnull
    apply reaches_sent rfl rfl rfl
    rw [hcheck]
    exact reaches_reply rfl (Reaches.refl _)
  have hagain : Reaches (doSend s) (doRecv s)
      ⟨.finAgain, ⟨.finEot, contents blocks⟩, [], []⟩ (finished blocks) := by
    apply reaches_send rfl
    apply reaches_code rfl
    change Reaches (doSend s) (doRecv s) ⟨.finAck, ⟨.finAck, contents blocks⟩, [], []⟩ _
    apply reaches_reply rfl
    apply reaches_getchar rfl
    exact reaches_getchar rfl hlast
  apply reaches_send rfl
  apply reaches_code rfl
  change Reaches (doSend s) (doRecv s) ⟨.finNak, ⟨.fin, contents blocks⟩, [], []⟩ _
  apply reaches_reply rfl
  exact reaches_getchar rfl hagain

theorem begun_reaches (hs : Supplies s blocks) (ha : Accepts s blocks) :
    Reaches (doSend s) (doRecv s) begun (finished blocks) := by
  have hpos := List.length_pos_of_ne_nil hs.nonempty
  apply reaches_begun hs ha
  exact @reaches_blocks s blocks _ hs ha 0 (blocks.length - 1) true (by omega) (fun _ => rfl)
    (reaches_fin hs)

theorem finished_rests : Rests (doSend s) (doRecv s) (finished blocks)
  | .left => rfl
  | .right => rfl

/-! ## Every run in time -/

/-- The sender waits for its `C` in this turn, and the receiver has sent it or has not begun. -/
def waiting (i : Nat) : Bool → Net Send Recv Byte
  | false => ⟨.handshake i, ⟨.handshake 0, []⟩, [], []⟩
  | true => ⟨.handshake i, ⟨.handshakeCode 0, []⟩, [], [rymCodeC]⟩

/-- What a run in time has reached after this number of steps. -/
inductive After (s : Session) : Nat → Net Send Recv Byte → Prop where
  | waiting {count i : Nat} (sent : Bool) (hi : i < s.sendTm) (hcount : count ≤ i + sent.toNat) :
    After s count (waiting i sent)
  | begun {count : Nat} {sides : List Side} {n : Net Send Recv Byte}
    (hrun : Runs.run (go (doSend s) (doRecv s)) begun sides = some n)
    (hcount : count ≤ s.sendTm + 1 + sides.length) : After s count n

variable {n m : Net Send Recv Byte}

/-- What the sender does behind its handshake, to which it does not come back. -/
theorem doSend_cases (hl : ∀ i, l ≠ .handshake i) :
    (∃ err, doSend s l = .done err) ∨
      (∃ items next, doSend s l = .write items next ∧ ∀ i, next ≠ .handshake i) ∨
      ∃ code next, doSend s l = getchar code next ∧ ∀ i, next ≠ .handshake i := by
  cases l with
  | handshake i => exact absurd rfl (hl i)
  | packetZero =>
    rw [doSend]
    split
    · exact .inl ⟨_, rfl⟩
    · exact .inr (.inl ⟨_, .zeroAck, rfl, nofun⟩)
  | trans index =>
    simp only [doSend]
    split
    · exact .inl ⟨_, rfl⟩
    · exact .inr (.inl ⟨_, .transAck _ _, rfl, nofun⟩)
  | packetNull =>
    rw [doSend]
    split
    · exact .inl ⟨_, rfl⟩
    · exact .inr (.inl ⟨_, .ret _, rfl, nofun⟩)
  | transAck index finishing =>
    refine .inr (.inr ⟨_, _, rfl, fun i => ?_⟩)
    split <;> nofun
  | zeroAck => exact .inr (.inr ⟨_, .zeroC, rfl, nofun⟩)
  | zeroC => exact .inr (.inr ⟨_, .trans 1, rfl, nofun⟩)
  | fin => exact .inr (.inl ⟨_, .finNak, rfl, nofun⟩)
  | finNak => exact .inr (.inr ⟨_, .finAgain, rfl, nofun⟩)
  | finAgain => exact .inr (.inl ⟨_, .finAck, rfl, nofun⟩)
  | finAck => exact .inr (.inr ⟨_, .finC, rfl, nofun⟩)
  | finC => exact .inr (.inr ⟨_, .packetNull, rfl, nofun⟩)
  | ret err => exact .inl ⟨err, rfl⟩

theorem doSend_go {inbox rest items : List Byte} (hl : ∀ i, l ≠ .handshake i)
    (h : (doSend s l).go inbox = some (next, rest, items)) (i : Nat) : next ≠ .handshake i := by
  obtain ⟨err, hact⟩ | ⟨sent, behind, hact, hbehind⟩ | ⟨code, behind, hact, hbehind⟩ :=
    doSend_cases hl
  · rw [hact] at h
    cases h
  · rw [hact] at h
    cases h
    exact hbehind i
  · rw [hact] at h
    cases inbox with
    | nil => cases h
    | cons c inbox =>
      rw [← (Prod.mk.inj (Option.some.inj h)).1]
      dsimp only
      split
      · exact hbehind i
      · nofun

theorem doSend_expire (hl : ∀ i, l ≠ .handshake i) : (doSend s l).expire = none := by
  obtain ⟨err, hact⟩ | ⟨sent, behind, hact, -⟩ | ⟨code, behind, hact, -⟩ := doSend_cases hl
  all_goals
    rw [hact]
    rfl

theorem go_left (hn : ∀ i, n.left ≠ .handshake i) (h : go (doSend s) (doRecv s) n side = some m)
    (i : Nat) : m.left ≠ .handshake i := by
  cases side with
  | left =>
    obtain ⟨⟨next, inbox, items⟩, hnext, rfl⟩ := Option.map_eq_some_iff.mp h
    exact doSend_go hn hnext i
  | right =>
    obtain ⟨⟨next, inbox, items⟩, -, rfl⟩ := Option.map_eq_some_iff.mp h
    exact hn i

theorem begun_left {sides : List Side}
    (h : Runs.run (go (doSend s) (doRecv s)) begun sides = some n) : ∀ i, n.left ≠ .handshake i :=
  @Runs.run_invariant _ _ _ (fun n => ∀ i, n.left ≠ .handshake i) (fun _ _ _ => go_left) _ _ _
    nofun h

theorem waiting_left (i : Nat) (sent : Bool) : (waiting i sent).left = .handshake i := by
  cases sent <;> rfl

/-- A turn of the sender's handshake ends, and another one begins. -/
theorem waiting_expire (hi : i < s.sendTm) :
    step s (waiting i sent) (.expire .left) = some (waiting (i + 1) sent) := by
  rw [step, Channels.step, waiting_left, doSend, if_neg (Nat.ne_of_lt hi)]
  cases sent <;> rfl

theorem waiting_sends (i : Nat) (hr : 0 < s.recvTm) :
    go (doSend s) (doRecv s) (waiting i false) .right = some (waiting i true) := by
  have hact : doRecv s ⟨.handshake 0, []⟩ = .write [rymCodeC] ⟨.handshakeCode 0, []⟩ :=
    if_neg (Nat.ne_of_lt hr)
  rw [go, waiting, hact]
  rfl

theorem waiting_begins (hi : i < s.sendTm) :
    go (doSend s) (doRecv s) (waiting i true) .left = some begun := by
  rw [go, waiting_left, doSend, if_neg (Nat.ne_of_lt hi)]
  rfl

/-- In the handshake the receiver sends its `C` and the sender reads it. -/
theorem waiting_go (hr : 0 < s.recvTm) (hi : i < s.sendTm)
    (h : go (doSend s) (doRecv s) (waiting i sent) side = some m) :
    (sent = false ∧ m = waiting i true) ∨ (sent = true ∧ m = begun) := by
  cases sent with
  | false =>
    cases side with
    | left =>
      rw [go, waiting_left, doSend, if_neg (Nat.ne_of_lt hi)] at h
      cases h
    | right => exact .inl ⟨rfl, Option.some.inj (h.symm.trans (waiting_sends i hr))⟩
  | true =>
    cases side with
    | left => exact .inr ⟨rfl, Option.some.inj (h.symm.trans (waiting_begins hi))⟩
    | right => cases h

theorem After.step {count : Nat} {e : Event} (hr : 0 < s.recvTm) (h : After s count n)
    (hok : InTime s n e) (hstep : step s n e = some m) : After s (count + 1) m := by
  cases e with
  | go side =>
    cases h with
    | waiting sent hi hcount =>
      obtain ⟨rfl, rfl⟩ | ⟨rfl, rfl⟩ := waiting_go hr hi hstep
      · exact .waiting true hi (Nat.add_le_add_right hcount 1)
      · apply @After.begun s (count + 1) [] Ymodem.begun rfl
        rw [Bool.toNat_true] at hcount
        rw [List.length_nil]
        omega
    | @begun sides n hrun hcount =>
      apply @After.begun s (count + 1) (sides ++ [side]) m _ (by simp; omega)
      rw [Runs.run_append, hrun]
      exact Runs.run_cons_some.mpr ⟨m, hstep, rfl⟩
  | expire side =>
    cases side with
    | right => exact hok.elim
    | left =>
      cases h with
      | waiting sent hi hcount =>
        rw [waiting_expire hi] at hstep
        cases hstep
        rw [InTime, waiting_left, ne_eq, Send.handshake.injEq] at hok
        exact .waiting sent (by omega) (by omega)
      | begun hrun hcount =>
        rw [Ymodem.step, Channels.step, doSend_expire (begun_left hrun)] at hstep
        cases hstep

theorem After.run {count : Nat} {es : List Event} (hr : 0 < s.recvTm) (h : After s count n)
    (hok : Runs.Along (Ymodem.step s) (InTime s) n es)
    (hrun : Runs.run (Ymodem.step s) n es = some m) : After s (count + es.length) m := by
  induction es generalizing n count with
  | nil =>
    obtain rfl : n = m := Option.some.inj hrun
    exact h
  | cons e es ih =>
    obtain ⟨n', hstep, hrest⟩ := Runs.run_cons_some.mp hrun
    have hafter := ih (h.step hr hok.1 hstep) (hok.2 n' hstep) hrest
    rwa [List.length_cons, Nat.add_comm es.length, ← Nat.add_assoc]

/-- The runs in time have at most so many steps, and the two sides agree where neither of them can
go on. -/
theorem transfer_agrees (hs : Supplies s blocks) (ha : Accepts s blocks) (hsend : 0 < s.sendTm)
    (hrecv : 0 < s.recvTm) :
    ∃ bound, ∀ es n, Runs.run (step s) start es = some n →
      Runs.Along (step s) (InTime s) start es →
        es.length ≤ bound ∧ (Rests (doSend s) (doRecv s) n → Agree s blocks n) := by
  obtain ⟨sides, hsides⟩ := begun_reaches hs ha
  refine ⟨s.sendTm + 1 + sides.length, fun es n hrun hok => ?_⟩
  have hafter := @After.run s start n 0 es hrecv (.waiting false hsend (Nat.le_refl _)) hok hrun
  rw [Nat.zero_add] at hafter
  cases hafter with
  | @waiting i sent hi hcount =>
    have hone := Bool.toNat_le sent
    refine ⟨by omega, fun hrests => ?_⟩
    cases sent with
    | false => exact absurd ((hrests .right).symm.trans (waiting_sends i hrecv)) nofun
    | true => exact absurd ((hrests .left).symm.trans (waiting_begins hi)) nofun
  | @begun since n hsince hcount =>
    obtain ⟨rest, -, hlength⟩ := run_completes hsides finished_rests hsince
    refine ⟨by omega, fun hrests => ?_⟩
    obtain rfl := eq_of_rests hsides finished_rests hsince hrests
    exact ⟨rfl, rfl, rfl⟩

def filled (byte : Byte) : Block := ⟨List.replicate 128 byte, List.length_replicate⟩

/-- One block is sent. -/
def session : Session where
  sendTm := 1000
  recvTm := 1000
  send := ⟨(filled 0x61, rymCodeSoh), fun _ => ⟨filled 0x1A, rymCodeSoh, true⟩,
    (filled 0, rymCodeSoh)⟩
  recv := ⟨fun _ => rymCodeAck, fun _ _ => rymCodeAck⟩

theorem session_supplies : Supplies session [filled 0x1A] where
  nonempty := List.cons_ne_nil _ _
  begins := rfl
  data := fun k hk => by
    obtain rfl : k = 0 := Nat.lt_one_iff.mp hk
    rfl
  ends := rfl
  null := rfl

theorem session_accepts : Accepts session [filled 0x1A] := ⟨rfl, fun _ _ => rfl⟩

theorem transfer_agrees_session :
    ∃ bound, ∀ es n, Runs.run (step session) start es = some n →
      Runs.Along (step session) (InTime session) start es → es.length ≤ bound ∧
        (Rests (doSend session) (doRecv session) n → Agree session [filled 0x1A] n) :=
  transfer_agrees session_supplies session_accepts (by decide) (by decide)

/-- The sender begins when the receiver has waited for it once. -/
def lateStart : List Event :=
  [.go .right, .expire .right, .go .right, .go .left, .go .left] ++
    (List.replicate 133 .right).map .go ++ [.go .right, .go .left, .expire .right]

theorem transfer_disagrees :
    ∃ n, Runs.run (step session) start lateStart = some n ∧ n.left = .ret .errAck ∧
      n.right = ⟨.ret .errCode, []⟩ ∧ Rests (doSend session) (doRecv session) n ∧
        ¬ Agree session [filled 0x1A] n := by
  have hwaited : Runs.run (step session) start
      [.go .right, .expire .right, .go .right, .go .left, .go .left] =
        some ⟨.zeroAck, ⟨.handshakeCode 1, []⟩, sendPacket rymCodeSoh 0 (filled 0x61),
          [rymCodeC]⟩ := rfl
  have hread : Runs.run (step session)
      ⟨.zeroAck, ⟨.handshakeCode 1, []⟩, sendPacket rymCodeSoh 0 (filled 0x61), [rymCodeC]⟩
        ((List.replicate 133 .right).map .go) =
          some ⟨.zeroAck, ⟨.trans, []⟩, [], [rymCodeC]⟩ := by
    rw [step, run_go, run_sent rfl rfl rfl]
    have hcheck : checkPacket session [] (packetRest 0 (filled 0x61)) (.handshake 128) =
        ⟨.trans, []⟩ := checkPacket_zero session_accepts
    rw [hcheck]
  refine ⟨⟨.ret .errAck, ⟨.ret .errCode, []⟩, [], [rymCodeAck, rymCodeC]⟩, ?_, rfl, rfl, ?_,
    fun h => absurd h.sent nofun⟩
  · rw [lateStart, Runs.run_append, Runs.run_append, hwaited, Option.bind_some, hread]
    rfl
  · rintro (_ | _) <;> rfl

end RtThread.Ymodem
