import RtThread.RtLinkRing

/-!
# The receive timeout of rt-link

`rt_link_frame_recv_timeout` throws the unread bytes away and leaves the static variables of
`rt_link_frame_check` as they are. What is decoded afterwards is what a new decoder decodes only
when the old one was looking for a frame head.
-/
namespace RtThread.RtLink

open Ringbuffer (Byte)

/-- `rt_link_frame_recv_timeout`. -/
def rtLinkFrameRecvTimeout (x : Receiver) : Receiver := shiftRead x (rtLinkHwRecvLen x.buffer)

/-- What happens to a receiver: the operations of a run, the timeout of a frame, and anything that
the other parts of the link do to the session. -/
inductive RxEvent where
  | op (op : RxOp)
  | timeout
  | session (s : Session)

def rxEvent (malloc : Nat → Option (Nat → Byte)) (x : Receiver) : RxEvent → Option Receiver
  | .op op => rxStep malloc x op
  | .timeout => some (rtLinkFrameRecvTimeout x)
  | .session s => some { x with session := s }

/-- After a timeout the frames are those of a new decoder with the same session, for everything
that is received from then on. -/
def Resynchronises (malloc : Nat → Option (Nat → Byte)) (x : Receiver) : Prop :=
  ∀ (memory : Nat → Byte) (p : Nat) (ops : List RxOp) (z : Receiver), p < receiveBufferLength →
    Runs.run (rxStep malloc) (receiver x.session memory p) ops = some z →
    ∃ y, Runs.run (rxStep malloc) (rtLinkFrameRecvTimeout x) ops = some y ∧
      y.frames = x.frames ++ z.frames

/-! ## Between two calls -/

/-- The length that each case of the switch waits for. -/
def Waiting (x : Receiver) : Prop :=
  match x.status with
  | .findFrameHead | .parseFrameHead => x.buffLen = headLength
  | .parseFrameExtend => x.head.extend = true ∧ x.buffLen = headLength + extendLength
  | .parseFrameSeq => False
  | .checkFrameCrc | .headleFrameData => headLength < x.buffLen

/-- Both points lie in the buffer. -/
structure Points (b : RxBuffer) : Prop where
  read : b.readPoint < receiveBufferLength
  write : b.writePoint < receiveBufferLength

/-- A receiver between two calls. -/
structure Resting (x : Receiver) : Prop where
  points : Points x.buffer
  waiting : Waiting x

/-- The switch ends in a receiver with the property `P`. -/
def Outcome.Ends (P : Receiver → Prop) : Outcome → Prop
  | .ret y => P y
  | .brk y => P y
  | .fall _ => False

section resting

variable {malloc : Nat → Option (Nat → Byte)} {x y : Receiver} {recvLen : Nat}

theorem pointShift_lt {b : RxBuffer} (hwrite : b.writePoint < receiveBufferLength)
    (point length : Nat) : rtLinkHwBufferPointShift b point length < receiveBufferLength := by
  rw [rtLinkHwBufferPointShift]
  split
  · split <;> omega
  · split
    · split <;> omega
    · omega

theorem Points.shift (h : Points x.buffer) (length : Nat) : Points (shiftRead x length).buffer :=
  ⟨pointShift_lt h.write _ _, h.write⟩

theorem resting_findHead (h : Points x.buffer) : Resting (findHead x) := ⟨h.shift 1, rfl⟩

theorem ends_headle (h : Points x.buffer) (hstatus : x.status = .headleFrameData)
    (hlen : headLength < x.buffLen ∨ x.buffLen ≤ recvLen) :
    (headleFrameData malloc recvLen x).Ends Resting := by
  rw [headleFrameData]
  split
  · refine ⟨h, ?_⟩
    rw [Waiting, hstatus]
    omega
  · split
    · exact ⟨h.shift _, rfl⟩
    · exact ⟨h.shift _, rfl⟩

theorem ends_crc (h : Points x.buffer) (hstatus : x.head.crc = true → x.status = .checkFrameCrc)
    (hlen : headLength < x.buffLen ∨ x.buffLen ≤ recvLen) :
    ((checkFrameCrc recvLen x).andThen (headleFrameData malloc recvLen)).Ends Resting := by
  rw [checkFrameCrc]
  split
  · rename_i hcrc
    split
    · refine ⟨h, ?_⟩
      rw [Waiting, hstatus hcrc]
      omega
    · dsimp only
      split
      · exact resting_findHead h
      · exact ends_headle h rfl hlen
  · exact ends_headle h rfl hlen

theorem ends_seq (h : Points x.buffer) (hhead : headLength ≤ x.buffLen)
    (hlen : headLength < x.buffLen ∨ x.buffLen ≤ recvLen) :
    ((parseFrameSeq x).andThen fun x =>
      (checkFrameCrc recvLen x).andThen (headleFrameData malloc recvLen)).Ends Resting := by
  rw [parseFrameSeq]
  split
  · exact resting_findHead h
  · split
    · dsimp only
      split
      · refine ends_crc h (fun _ => rfl) (.inl ?_)
        show headLength < x.buffLen + x.head.length + crcLength
        have : 0 < crcLength := by decide
        omega
      · rename_i hcrc
        refine ends_crc h (fun heq => absurd heq hcrc) ?_
        show headLength < x.buffLen + x.head.length ∨ x.buffLen + x.head.length ≤ recvLen
        omega
    · exact resting_findHead h

theorem ends_extend (h : Points x.buffer)
    (hwait : x.head.extend = true → x.status = .parseFrameExtend ∧
      x.buffLen = headLength + extendLength)
    (hgo : x.head.extend = false → x.buffLen = headLength ∧ headLength ≤ recvLen) :
    ((parseFrameExtend recvLen x).andThen fun x => (parseFrameSeq x).andThen fun x =>
      (checkFrameCrc recvLen x).andThen (headleFrameData malloc recvLen)).Ends Resting := by
  rw [parseFrameExtend]
  split
  · rename_i hextend
    obtain ⟨hstatus, hlen⟩ := hwait hextend
    split
    · refine ⟨h, ?_⟩
      rw [Waiting, hstatus]
      exact ⟨hextend, hlen⟩
    · dsimp only
      split
      · refine ends_seq h ?_ ?_
        · show headLength ≤ x.buffLen
          omega
        · omega
      · exact resting_findHead h
  · rename_i hextend
    obtain ⟨hlen, hrecv⟩ := hgo (Bool.not_eq_true _ ▸ hextend)
    refine ends_seq h ?_ ?_
    · show headLength ≤ x.buffLen
      omega
    · omega

theorem ends_head (h : Points x.buffer) (hstatus : x.status = .parseFrameHead)
    (hlen : x.buffLen = headLength) :
    ((parseFrameHead recvLen x).andThen fun x => (parseFrameExtend recvLen x).andThen fun x =>
      (parseFrameSeq x).andThen fun x =>
        (checkFrameCrc recvLen x).andThen (headleFrameData malloc recvLen)).Ends Resting := by
  rw [parseFrameHead]
  split
  · refine ⟨h, ?_⟩
    rw [Waiting, hstatus]
    exact hlen
  · rename_i hrecv
    dsimp only
    split
    · exact resting_findHead h
    · split
      · rename_i hextend
        refine ends_extend h (fun _ => ⟨rfl, ?_⟩) fun hno => ?_
        · rw [hlen]
        · exact absurd (hextend.symm.trans hno) Bool.noConfusion
      · rename_i hextend
        refine ends_extend h (fun hyes => absurd hyes hextend) fun _ => ⟨hlen, ?_⟩
        omega

/-- Every pass through the switch ends with a receiver that can rest. -/
theorem switch_ends (malloc : Nat → Option (Nat → Byte)) (recvLen : Nat) (h : Resting x) :
    (switch malloc recvLen x).Ends Resting := by
  obtain ⟨hpoints, hwaiting⟩ := h
  rw [Waiting] at hwaiting
  rw [switch]
  cases hstatus : x.status with
  | findFrameHead =>
    rw [hstatus] at hwaiting
    dsimp only
    rw [findFrameHead]
    split
    · exact ⟨hpoints, hwaiting⟩
    · refine ⟨hpoints.shift 1, ?_⟩
      rw [Waiting, show (shiftRead x 1).status = .findFrameHead from hstatus]
      exact hwaiting
  | parseFrameHead =>
    rw [hstatus] at hwaiting
    exact ends_head hpoints hstatus hwaiting
  | parseFrameExtend =>
    rw [hstatus] at hwaiting
    exact ends_extend hpoints (fun _ => ⟨hstatus, hwaiting.2⟩)
      fun hno => absurd (hwaiting.1.symm.trans hno) Bool.noConfusion
  | parseFrameSeq =>
    rw [hstatus] at hwaiting
    exact hwaiting.elim
  | checkFrameCrc =>
    rw [hstatus] at hwaiting
    exact ends_crc hpoints (fun _ => hstatus) (.inl hwaiting)
  | headleFrameData =>
    rw [hstatus] at hwaiting
    exact ends_headle hpoints hstatus (.inl hwaiting)

theorem checkLoop_resting {rounds : Nat} (h : Resting x)
    (hloop : checkLoop malloc rounds x = some y) : Resting y := by
  induction rounds generalizing x with
  | zero => cases hloop
  | succ rounds ih =>
    rw [checkLoop] at hloop
    split at hloop
    · have hends := switch_ends malloc (rtLinkHwRecvLen x.buffer) h
      split at hloop
      · rename_i hret
        rw [hret] at hends
        rwa [← Option.some.inj hloop]
      · rename_i hbrk
        rw [hbrk] at hends
        exact ih hends hloop
      · rename_i hfall
        rw [hfall] at hends
        exact hends.elim
    · rwa [← Option.some.inj hloop]

theorem rxEvent_resting {e : RxEvent} (h : Resting x) (hstep : rxEvent malloc x e = some y) :
    Resting y := by
  cases e with
  | op op =>
    cases op with
    | write bytes =>
      simp only [rxEvent, rxStep] at hstep
      split at hstep
      · rename_i hfits
        cases hstep
        have hunread := unread_of_points h.points.read h.points.write
        have happend : Unread (rtLinkHwBufferWrite x.buffer bytes).1 _ :=
          hunread.append (by rwa [Cyclic.length_window])
        refine ⟨⟨happend.read, ?_⟩, h.waiting⟩
        rw [happend.write]
        exact Nat.mod_lt _ (by decide)
      · cases hstep
    | check => exact checkLoop_resting h hstep
  | timeout =>
    cases hstep
    exact ⟨h.points.shift _, h.waiting⟩
  | session s =>
    cases hstep
    exact ⟨h.points, h.waiting⟩

theorem resting_receiver {session : Session} {memory : Nat → Byte} {p : Nat}
    (hp : p < receiveBufferLength) : Resting (receiver session memory p) := ⟨⟨hp, hp⟩, rfl⟩

/-- Nothing is left to read after a timeout. -/
theorem unread_timeout (h : Points x.buffer) :
    Unread (rtLinkFrameRecvTimeout x).buffer [] := by
  have hunread := unread_of_points h.read h.write
  have hdrop := hunread.drop (n := rtLinkHwRecvLen x.buffer) (by rw [Cyclic.length_window])
  rwa [List.drop_eq_nil_of_le (by rw [Cyclic.length_window])] at hdrop

end resting

/-! ## After the timeout -/

section timeout

variable {malloc : Nat → Option (Nat → Byte)} {x y z : Receiver} {f : Flat} {u : List Byte}

/-- Two receivers in one state of the abstract decoder hand over the same frames. -/
theorem run_same {ops : List RxOp} {frames : List Frame} (hx : Rel x f u) (hy : Rel y f u)
    (hframes : x.frames = frames ++ y.frames)
    (hrun : Runs.run (rxStep malloc) y ops = some z) :
    ∃ w, Runs.run (rxStep malloc) x ops = some w ∧ w.frames = frames ++ z.frames := by
  induction ops generalizing x y f u with
  | nil =>
    obtain rfl : y = z := Option.some.inj hrun
    exact ⟨x, rfl, hframes⟩
  | cons op ops ih =>
    obtain ⟨y', hstep, hrest⟩ := Runs.run_cons_some.mp hrun
    cases op with
    | write bytes =>
      simp only [rxStep, hy.unread.recvLen] at hstep
      split at hstep
      · rename_i hfits
        cases hstep
        obtain ⟨w, hw, heq⟩ := ih (hx.write hfits) (hy.write hfits) hframes hrest
        refine ⟨w, Runs.run_cons_some.mpr ⟨_, ?_, hw⟩, heq⟩
        rw [rxStep, hx.unread.recvLen, if_pos hfits]
      · cases hstep
    | check =>
      obtain ⟨x₁, f₁, rest₁, out₁, hcheck₁, hdrains₁, hrel₁, hout₁⟩ :=
        rtLinkFrameCheck_spec malloc hx
      obtain ⟨y₁, f₂, rest₂, out₂, hcheck₂, hdrains₂, hrel₂, hout₂⟩ :=
        rtLinkFrameCheck_spec malloc hy
      obtain ⟨rfl, rfl, rfl⟩ := hdrains₁.unique hdrains₂
      obtain rfl : y₁ = y' := Option.some.inj (hcheck₂.symm.trans hstep)
      have hnext : x₁.frames = frames ++ y₁.frames := by
        rw [hout₁, hout₂, hframes, List.append_assoc]
      obtain ⟨w, hw, heq⟩ := ih hrel₁ hrel₂ hnext hrest
      exact ⟨w, Runs.run_cons_some.mpr ⟨x₁, hcheck₁, hw⟩, heq⟩

theorem finding_resynchronises (h : Resting x) (hstatus : x.status = .findFrameHead) :
    Resynchronises malloc x := by
  intro memory p ops z hp hrun
  have hwaiting := h.waiting
  rw [Waiting, hstatus] at hwaiting
  have hrel : Rel (rtLinkFrameRecvTimeout x) ⟨.find, x.session⟩ [] :=
    ⟨unread_timeout h.points, rfl, hstatus, hwaiting⟩
  exact run_same hrel (rel_receiver hp) (List.append_nil _).symm hrun

/-- A few bytes for an empty decoder. -/
theorem run_write_check (malloc : Nat → Option (Nat → Byte)) {bytes : List Byte}
    (hrel : Rel x f []) (hfits : bytes.length < receiveBufferLength) :
    ∃ y f' rest out, Runs.run (rxStep malloc) x [.write bytes, .check] = some y ∧
      Incremental.Drains (decodeStep malloc) f bytes f' rest out ∧ y.frames = x.frames ++ out := by
  have hlen : ([] : List Byte).length + bytes.length < receiveBufferLength := by
    rwa [List.length_nil, Nat.zero_add]
  obtain ⟨y, f', rest, out, hcheck, hdrains, -, hframes⟩ :=
    rtLinkFrameCheck_spec malloc (hrel.write hlen)
  refine ⟨y, f', rest, out, ?_, hdrains, hframes⟩
  rw [Runs.run_cons, rxStep, hrel.unread.recvLen, if_pos hlen]
  exact Runs.run_cons_some.mpr ⟨y, hcheck, rfl⟩

/-- A short frame without data, with the next sequence number and some first byte. -/
def shortFrame (first : Byte) (s : Session) : List Byte :=
  [first, BitVec.ofNat 8 (s.rxSeq + 1), 1, 0]

theorem parseHead_shortFrame {first : Byte} {s : Session} (hextend : first.getLsbD 5 = false)
    (hcrc : first.getLsbD 6 = false) :
    parseHead (shortFrame first s) =
      ⟨false, false, first.getLsbD 7, (s.rxSeq + 1) % 2 ^ 8, 1, 0⟩ := by
  have hseq : (BitVec.ofNat 8 (s.rxSeq + 1)).toNat = (s.rxSeq + 1) % 2 ^ 8 := BitVec.toNat_ofNat _ _
  have hword : halfWord (shortFrame first s) 2 = 1 := rfl
  show (⟨first.getLsbD 5, first.getLsbD 6, first.getLsbD 7, (BitVec.ofNat 8 (s.rxSeq + 1)).toNat,
    halfWord (shortFrame first s) 2 % 2 ^ 5, halfWord (shortFrame first s) 2 / 2 ^ 5⟩ : Head) = _
  rw [hextend, hcrc, hseq, hword]
  rfl

/-- Behind a first byte that has been taken for a frame head, the frame is decoded. -/
theorem head_decodes (malloc : Nat → Option (Nat → Byte)) (first : Byte) {s : Session}
    (hextend : first.getLsbD 5 = false)
    (hcrc : first.getLsbD 6 = false) (hseq : s.rxSeq < 2 ^ 8) :
    ∃ f' frame, Incremental.Drains (decodeStep malloc) ⟨.head, s⟩ (shortFrame first s) f' []
      [frame] := by
  have htake : (shortFrame first s).take 4 = shortFrame first s := rfl
  have hhead := parseHead_shortFrame (s := s) hextend hcrc
  generalize hh : parseHead (shortFrame first s) = h at hhead
  have haccepted : seqAccepted s .shortData h.sequence = true := by
    rw [hhead, seqAccepted, decide_eq_true_eq, rtLinkCheckSeq, wsub, wsub, framesMax]
    dsimp only
    omega
  have hshort : h.extend = false ∧ h.service = 1 ∧ h.crc = false ∧ h.length = 0 := by
    rw [hhead]
    exact ⟨rfl, rfl, rfl, rfl⟩
  obtain ⟨hnone, hservice, hplain, hempty⟩ := hshort
  have hlen : frameLength h = 4 := by
    rw [frameLength, payloadStart, hnone, hplain, hempty]
    rfl
  have hstep : decodeStep malloc ⟨.head, s⟩ (shortFrame first s) =
      some (⟨.body h ⟨0, 0⟩ .shortData, s⟩, 0, []) := by
    simp only [decodeStep, htake, hh, hservice, hnone]
    rw [checkSeq, if_pos haccepted]
    rfl
  have hbody : ∃ f' frame, decodeStep malloc ⟨.body h ⟨0, 0⟩ .shortData, s⟩ (shortFrame first s) =
      some (f', 4, [frame]) := by
    simp only [decodeStep, hlen, hplain]
    exact ⟨_, _, rfl⟩
  obtain ⟨f', frame, hbody⟩ := hbody
  exact ⟨f', frame, .next hstep (.next hbody (.wait (decodeStep_nil f')))⟩

/-- Less than a frame head is not decoded. -/
theorem few_bytes {f' : Flat} {rest : List Byte} {out : List Frame} (hfew : u.length < 4)
    (hmode : f.mode = .find ∨ f.mode = .head)
    (h : Incremental.Drains (decodeStep malloc) f u f' rest out) : out = [] := by
  induction h with
  | wait _ => rfl
  | @next f g t u rest k out out' hstep _ ih =>
    obtain ⟨mode, s⟩ := f
    rcases hmode with rfl | rfl
    · cases u with
      | nil => cases hstep
      | cons b u =>
        simp only [decodeStep, List.head?_cons, Option.map_some, Option.some.injEq] at hstep
        split at hstep
        · cases hstep
          exact ih hfew (.inr rfl)
        · cases hstep
          refine ih ?_ (.inl rfl)
          rw [List.length_drop]
          omega
    · simp only [decodeStep, if_pos hfew] at hstep
      cases hstep

/-- A decoder that waits for a frame does not see that its bytes are gone. -/
theorem waits_on (malloc : Nat → Option (Nat → Byte)) (h : Resting x)
    (hstatus : x.status ≠ .findFrameHead) (hhead : x.status ≠ .parseFrameHead) {recvLen : Nat}
    (hlen : recvLen ≤ headLength) :
    ∃ y, switch malloc recvLen x = .ret y ∧ y.frames = x.frames := by
  have hwaiting := h.waiting
  rw [Waiting] at hwaiting
  have hheadle : ∀ y : Receiver, headLength < y.buffLen →
      headleFrameData malloc recvLen y = .ret y := by
    intro y hbuff
    rw [headleFrameData, if_pos (by omega)]
  rw [switch]
  cases hs : x.status with
  | findFrameHead => exact absurd hs hstatus
  | parseFrameHead => exact absurd hs hhead
  | parseFrameExtend =>
    rw [hs] at hwaiting
    have hpos : 0 < extendLength := by decide
    dsimp only
    rw [parseFrameExtend, if_pos hwaiting.1, if_pos (by omega)]
    exact ⟨x, rfl, rfl⟩
  | parseFrameSeq =>
    rw [hs] at hwaiting
    exact hwaiting.elim
  | checkFrameCrc =>
    rw [hs] at hwaiting
    dsimp only
    rw [checkFrameCrc]
    split
    · rw [if_pos (by omega)]
      exact ⟨x, rfl, rfl⟩
    · exact ⟨{ x with status := .headleFrameData }, hheadle _ hwaiting, rfl⟩
  | headleFrameData =>
    rw [hs] at hwaiting
    exact ⟨x, hheadle x hwaiting, rfl⟩

/-- After a timeout in the middle of a frame, four bytes are not looked at. -/
theorem stuck_frames {bytes : List Byte} (h : Resting x) (hstatus : x.status ≠ .findFrameHead)
    (hhead : x.status ≠ .parseFrameHead) (hlen : bytes.length = headLength)
    (hrun : Runs.run (rxStep malloc) (rtLinkFrameRecvTimeout x) [.write bytes, .check] = some y) :
    y.frames = x.frames := by
  obtain ⟨w, hwrite, hrest⟩ := Runs.run_cons_some.mp hrun
  obtain ⟨y', hcheck, hnil⟩ := Runs.run_cons_some.mp hrest
  obtain rfl : y' = y := Option.some.inj hnil
  have hold : Resting (rtLinkFrameRecvTimeout x) := ⟨h.points.shift _, h.waiting⟩
  have hwaiting : Resting w := rxEvent_resting hold
    (show rxEvent malloc _ (.op (.write bytes)) = some w from hwrite)
  have hunread := unread_timeout h.points
  have hlt : ([] : List Byte).length + bytes.length < receiveBufferLength := by
    rw [hlen]
    decide
  rw [rxStep, hunread.recvLen, if_pos hlt] at hwrite
  have hw := Option.some.inj hwrite
  have hrecv : rtLinkHwRecvLen w.buffer = headLength := by
    rw [← hw, (hunread.append hlt).recvLen]
    exact hlen
  have hsame : w.status = x.status ∧ w.frames = x.frames := by
    rw [← hw]
    exact ⟨rfl, rfl⟩
  obtain ⟨v, hswitch, hframes⟩ := waits_on malloc hwaiting (hsame.1 ▸ hstatus)
    (hsame.1 ▸ hhead) (Nat.le_refl _)
  have hloop : rtLinkFrameCheck malloc w = some v := by
    rw [rtLinkFrameCheck, checkLoop, hrecv, if_pos (by decide), hswitch]
  rw [← Option.some.inj (hloop.symm.trans hcheck), hframes, hsame.2]

/-- A frame that a new decoder decodes, or does not decode, tells the two apart. -/
theorem stuck_not_resynchronises (h : Resting x) (hseq : x.session.rxSeq < 2 ^ 8)
    (hstatus : x.status ≠ .findFrameHead) : ¬ Resynchronises malloc x := by
  intro hsame
  have hpos : 0 < receiveBufferLength := by decide
  have hlength : ∀ first, (shortFrame first x.session).length < receiveBufferLength := by
    intro first
    show 4 < receiveBufferLength
    decide
  have hnew : Rel (receiver x.session (fun _ => 0) 0) ⟨.find, x.session⟩ [] := rel_receiver hpos
  by_cases hhead : x.status = .parseFrameHead
  · have hwaiting := h.waiting
    rw [Waiting, hhead] at hwaiting
    have hold : Rel (rtLinkFrameRecvTimeout x) ⟨.head, x.session⟩ [] :=
      ⟨unread_timeout h.points, rfl, hhead, hwaiting⟩
    obtain ⟨z, f₁, rest₁, out₁, hz, hdrains₁, hframes₁⟩ :=
      run_write_check malloc hnew (hlength 0)
    obtain ⟨y, f₂, rest₂, out₂, hy, hdrains₂, hframes₂⟩ :=
      run_write_check malloc hold (hlength 0)
    have hskip : decodeStep malloc ⟨.find, x.session⟩ (shortFrame 0 x.session) =
        some (⟨.find, x.session⟩, 1, []) := rfl
    obtain ⟨f', frame, hdecodes⟩ := head_decodes malloc 0 rfl rfl hseq
    obtain ⟨-, -, rfl⟩ := hdrains₂.unique hdecodes
    have hnone : out₁ = [] := by
      cases hdrains₁ with
      | wait hwait => rfl
      | next hstep hrest =>
        cases hskip.symm.trans hstep
        refine few_bytes ?_ (.inl rfl) hrest
        exact Nat.lt_succ_self 3
    obtain ⟨y', hy', hframes⟩ := hsame (fun _ => 0) 0 _ z hpos hz
    obtain rfl : y' = y := Option.some.inj (hy'.symm.trans hy)
    rw [hframes₂, hframes₁, hnone] at hframes
    exact List.cons_ne_nil _ _ (List.append_cancel_left hframes)
  · obtain ⟨z, f₁, rest₁, out₁, hz, hdrains₁, hframes₁⟩ :=
      run_write_check malloc hnew (hlength 0x15)
    have hfound : decodeStep malloc ⟨.find, x.session⟩ (shortFrame 0x15 x.session) =
        some (⟨.head, x.session⟩, 0, []) := rfl
    obtain ⟨f', frame, hdecodes⟩ := head_decodes malloc 0x15 rfl rfl hseq
    obtain ⟨-, -, rfl⟩ := hdrains₁.unique (.next hfound hdecodes)
    obtain ⟨y, hy, hframes⟩ := hsame (fun _ => 0) 0 _ z hpos hz
    rw [stuck_frames h hstatus hhead rfl hy, hframes₁] at hframes
    exact List.cons_ne_nil _ _ (List.append_right_eq_self.mp hframes.symm)

/-- In every state that a receiver reaches, with any session, a timeout is followed by what a new
decoder decodes exactly when a frame head is looked for. -/
theorem receive_timeout_resynchronises (malloc : Nat → Option (Nat → Byte)) (session : Session)
    (memory : Nat → Byte) (p : Nat) (hp : p < receiveBufferLength) (events : List RxEvent)
    (x : Receiver)
    (hrun : Runs.run (rxEvent malloc) (receiver session memory p) events = some x)
    (hseq : x.session.rxSeq < 2 ^ 8) :
    Resynchronises malloc x ↔ x.status = .findFrameHead := by
  have hresting : Resting x :=
    Runs.run_invariant (fun _ _ _ => rxEvent_resting) (resting_receiver hp) hrun
  constructor
  · intro hsame
    by_contra hstatus
    exact stuck_not_resynchronises hresting hseq hstatus hsame
  · exact finding_resynchronises hresting

/-- The first half of a frame has arrived and has not been looked at. -/
theorem receive_timeout_resynchronises_early :
    ∃ x, Runs.run (rxEvent fun _ => none) (receiver idleSession (fun _ => 0) 3079)
        [.op (.write [0x15, 1])] = some x ∧ Resynchronises (fun _ => none) x :=
  ⟨_, rfl, (receive_timeout_resynchronises (fun _ => none) idleSession (fun _ => 0) 3079
    (by decide) [.op (.write [0x15, 1])] _ rfl (by decide)).mpr rfl⟩

/-- The first half of an extended frame has been looked at. -/
theorem receive_timeout_stuck :
    ∃ x, Runs.run (rxEvent fun _ => none) (receiver idleSession (fun _ => 0) 0)
        [.op (.write [0x35, 1, 1, 0, 6]), .op .check] = some x ∧
      ¬ Resynchronises (fun _ => none) x := by
  have hstuck : (Runs.run (rxEvent fun _ => none) (receiver idleSession (fun _ => 0) 0)
      [.op (.write [0x35, 1, 1, 0, 6]), .op .check]).map
        (fun x => (x.status, x.session.rxSeq)) = some (.parseFrameExtend, 0) := by
    decide +kernel
  obtain ⟨x, hrun, hx⟩ := Option.map_eq_some_iff.mp hstuck
  obtain ⟨hstatus, hseq⟩ := Prod.mk.inj hx
  have hresting : Resting x :=
    Runs.run_invariant (fun _ _ _ => rxEvent_resting) (resting_receiver (by decide)) hrun
  refine ⟨x, hrun, stuck_not_resynchronises hresting ?_ ?_⟩
  · rw [hseq]
    decide
  · rw [hstatus]
    decide

end timeout

end RtThread.RtLink
