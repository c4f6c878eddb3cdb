import RtThread.Signal

/-!
# The outcome of waiting for a signal

`rt_signal_wait` decides by the error number of the thread, once it runs again, whether its time
has run out, and by the list of nodes what it has waited for. The thread is followed together with
what became of its timer, and with the error number that it had when it began to wait.
-/
namespace RtThread.Signal

structure Watch where
  thread : State
  /-- `thread_timer` may expire while the thread is suspended. -/
  timer : Bool
  /-- It has, in the wait that is in progress. -/
  expired : Bool
  /-- The thread had the error number `-RT_ETIMEOUT` when it began to wait. -/
  stale : Bool

/-- `RT_WAITING_FOREVER`. -/
def rtWaitingForever : Int := -1

/-- What a step does to the timer. There is no result where `rt_timer_start` fails its assertion. -/
def Watch.next (w : Watch) (s : State) (out : Option Out) : Op → Option Watch
  | .wait _ _ timeout =>
    if out ≠ none then some { w with thread := s }
    else if timeout = rtWaitingForever ∨ 0 < timeout ∧ timeout < rtTickMaxHalf then
      some ⟨s, decide (timeout ≠ rtWaitingForever), false, decide (w.thread.error = .etimeout)⟩
    else none
  | .suspend _ => some { w with thread := s, timer := true }
  | .timeout => if w.timer then some { w with thread := s, expired := true } else none
  | _ => some { w with thread := s }

def watchCall (w : Watch) (op : Op) : Option (Watch × Option Out) :=
  (call w.thread op).bind fun r => (w.next r.1 r.2 op).map fun w' => (w', r.2)

def watchStep (w : Watch) (op : Op) : Option Watch := (watchCall w op).map Prod.fst

def watchInit : Watch := ⟨init, false, false, false⟩

/-- The set of the `rt_signal_wait` that returns in this step, if one does. -/
def requested (s : State) : Op → BitVec 32
  | .wait set _ _ => set
  | _ =>
    match s.frames with
    | .waiting set :: _ => set
    | _ => 0

/-- The signal belongs to the set, and one node of it has been removed from the list. -/
def Taken (s s' : State) (set : BitVec 32) (signo : Nat) : Prop :=
  set.getLsbD signo = true ∧ s'.sigPending.getLsbD signo = false ∧
    ∃ l₁ l₂, s.siList = l₁ ++ signo :: l₂ ∧ s'.siList = l₁ ++ l₂

/-- The time of the wait has run out: its timer has expired, or there was no time. -/
def TimeOut (w : Watch) : Op → Prop
  | .wait _ _ timeout => timeout = 0
  | _ => w.expired = true

/-- A `rt_signal_wait` that returns in this step returns `RT_EOK` exactly when it stores a signal
of its set that it has taken, and `-RT_ETIMEOUT` only when its time has run out. -/
def Outcome (w : Watch) (op : Op) : Prop :=
  ∀ w' result si, watchCall w op = some (w', some (.waited result si)) →
    (result = .eok ↔ ∃ signo, si = some signo ∧
      Taken w.thread w'.thread (requested w.thread op) signo) ∧
    (result = .etimeout → TimeOut w op)

/-- When a thread that has waited for a signal runs again, its timer has expired; or it had no
`-RT_ETIMEOUT` left over when it began to wait, and a signal of its set is queued. -/
def Answerable (w : Watch) : Op → Prop
  | .proceed _ =>
    match w.thread.frames with
    | .waiting set :: _ =>
      w.thread.suspended = false → w.thread.statSignalPending = false →
        w.expired = true ∨ w.stale = false ∧ ∃ signo ∈ w.thread.siList, set.getLsbD signo = true
    | _ => True
  | _ => True

/-! ## The list and the set -/

/-- Every pending signal has a node. -/
def Listed (s : State) : Prop := ∀ signo, s.sigPending.getLsbD signo = true → signo ∈ s.siList

section listed

variable {s s' : State} {set : BitVec 32} {sig signo : Nat} {l₁ l₂ : List Nat}

theorem Listed.same (h : Listed s) (hlist : s'.siList = s.siList)
    (hpending : s'.sigPending = s.sigPending) : Listed s' := by
  intro signo hset
  rw [hpending] at hset
  rw [hlist]
  exact h signo hset

theorem sigBit_of_le (h : rtSigMax ≤ sig) : sigBit sig = 0#32 :=
  BitVec.shiftLeft_eq_zero h

theorem Listed.append (h : Listed s) (hlist : s'.siList = s.siList ++ [sig])
    (hpending : s'.sigPending = s.sigPending ||| sigBit sig) : Listed s' := by
  intro signo hset
  rw [hpending] at hset
  rw [hlist]
  by_cases hvalid : sigValid sig
  · rw [getLsbD_or_sigBit _ hvalid, Bool.or_eq_true, decide_eq_true_eq] at hset
    obtain hold | rfl := hset
    · exact List.mem_append_left _ (h signo hold)
    · simp
  · rw [sigBit_of_le (Nat.le_of_not_lt hvalid), BitVec.or_zero] at hset
    exact List.mem_append_left _ (h signo hset)

/-- The bit of a node that is removed is cleared. -/
theorem getLsbD_removed (p : BitVec 32) (sig : Nat) :
    (p &&& ~~~sigBit sig).getLsbD sig = false := by
  by_cases hvalid : sigValid sig
  · rw [getLsbD_and_not_sigBit p hvalid hvalid]
    simp
  · exact BitVec.getLsbD_of_ge _ _ (Nat.le_of_not_lt hvalid)

theorem Listed.remove (h : Listed s) (hlist : s.siList = l₁ ++ sig :: l₂)
    (hrest : s'.siList = l₁ ++ l₂) (hpending : s'.sigPending = s.sigPending &&& ~~~sigBit sig) :
    Listed s' := by
  intro signo hset
  rw [hpending] at hset
  have hne : signo ≠ sig := by
    rintro rfl
    rw [getLsbD_removed] at hset
    cases hset
  rw [BitVec.getLsbD_and, Bool.and_eq_true] at hset
  have hmem := h signo hset.1
  rw [hlist] at hmem
  rw [hrest]
  simpa [hne] using hmem

/-- What `rt_signal_wait` takes from the list. -/
theorem waitDone_cases (s : State) (set : BitVec 32) :
    (∃ signo, (waitDone s set).2 = some (.waited .eok (some signo)) ∧
      set.getLsbD signo = true ∧
      (waitDone s set).1.sigPending = s.sigPending &&& ~~~sigBit signo ∧
      ∃ l₁ l₂, s.siList = l₁ ++ signo :: l₂ ∧ (waitDone s set).1.siList = l₁ ++ l₂) ∨
    (∀ signo ∈ s.siList, set.getLsbD signo = false) ∧
      waitDone s set = (s, some (.waited .eok none)) := by
  rw [waitDone]
  cases hfind : s.siList.find? fun signo => set.getLsbD signo with
  | none =>
    refine .inr ⟨fun signo hmem => ?_, rfl⟩
    simpa using List.find?_eq_none.mp hfind signo hmem
  | some signo =>
    obtain ⟨hset, l₁, l₂, hlist, hfirst⟩ := List.find?_eq_some_iff_append.mp hfind
    refine .inl ⟨signo, rfl, hset, rfl, l₁, l₂, hlist, ?_⟩
    have hfirst : ∀ x ∈ l₁, ¬ set.getLsbD x = true := by simpa using hfirst
    simp only [hlist]
    rw [List.eraseP_append_right _ hfirst, List.eraseP_cons_of_pos hset]

theorem Listed.waitDone (h : Listed s) (set : BitVec 32) : Listed (waitDone s set).1 := by
  obtain ⟨signo, -, -, hpending, l₁, l₂, hlist, hrest⟩ | ⟨-, heq⟩ := waitDone_cases s set
  · exact h.remove hlist hrest hpending
  · rw [heq]
    exact h

end listed

/-! ## A thread that does not wait for a signal -/

def Frame.waits : Frame → Bool
  | .waiting _ => true
  | _ => false

structure Calm (s : State) : Prop where
  flag : s.statSignalWait = false
  frames : ∀ f ∈ s.frames, f.waits = false

/-- What every step keeps that does not begin a wait. -/
structure Effect (s s' : State) : Prop where
  listed : Listed s → Listed s'
  calm : Calm s → Calm s'

section effect

variable {s s' t : State} {f g : Frame} {below : List Frame} {cleanState alloc current : Bool}
  {out : Option Out} {op : Op} {set : BitVec 32} {context : Nat}

theorem Effect.refl (s : State) : Effect s s := ⟨id, id⟩

theorem Effect.trans (h : Effect s s') (h' : Effect s' t) : Effect s t :=
  ⟨h'.listed ∘ h.listed, h'.calm ∘ h.calm⟩

/-- A step that changes neither list nor set, and puts other frames on the stack. -/
theorem effect_frames (hlist : s'.siList = s.siList) (hpending : s'.sigPending = s.sigPending)
    (hflag : s'.statSignalWait = s.statSignalWait)
    (hframes : ∀ f ∈ s'.frames, f ∈ s.frames ∨ f.waits = false) : Effect s s' := by
  refine ⟨fun h => h.same hlist hpending, fun h => ⟨hflag.trans h.flag, fun f hf => ?_⟩⟩
  obtain hold | hnew := hframes f hf
  · exact h.frames f hold
  · exact hnew

theorem effect_same (hlist : s'.siList = s.siList) (hpending : s'.sigPending = s.sigPending)
    (hflag : s'.statSignalWait = s.statSignalWait) (hframes : s'.frames = s.frames) :
    Effect s s' :=
  effect_frames hlist hpending hflag fun _ hf => .inl (hframes ▸ hf)

theorem mem_push (hf : f ∈ g :: below) (hg : g.waits = false) : f ∈ below ∨ f.waits = false := by
  obtain rfl | hf := List.mem_cons.mp hf
  · exact .inr hg
  · exact .inl hf

theorem mem_top (htop : s.frames = g :: below) (hf : f ∈ below) : f ∈ s.frames := by
  rw [htop]
  exact List.mem_cons_of_mem g hf

/-- The frame on top is replaced. -/
theorem effect_top {g' : Frame} (hlist : s'.siList = s.siList)
    (hpending : s'.sigPending = s.sigPending) (hflag : s'.statSignalWait = s.statSignalWait)
    (htop : s.frames = g :: below) (hframes : s'.frames = g' :: below) (hg : g'.waits = false) :
    Effect s s' := by
  refine effect_frames hlist hpending hflag fun f hf => ?_
  rw [hframes] at hf
  exact (mem_push hf hg).imp_left (mem_top htop)

theorem effect_pop (hlist : s'.siList = s.siList) (hpending : s'.sigPending = s.sigPending)
    (hflag : s'.statSignalWait = s.statSignalWait) (htop : s.frames = g :: below)
    (hframes : s'.frames = below) : Effect s s' := by
  refine effect_frames hlist hpending hflag fun f hf => ?_
  rw [hframes] at hf
  exact .inl (mem_top htop hf)

theorem effect_push (hlist : s'.siList = s.siList) (hpending : s'.sigPending = s.sigPending)
    (hflag : s'.statSignalWait = s.statSignalWait) (hframes : s'.frames = g :: s.frames)
    (hg : g.waits = false) : Effect s s' := by
  refine effect_frames hlist hpending hflag fun f hf => ?_
  rw [hframes] at hf
  exact mem_push hf hg

theorem effect_killAppend (s : State) (sig : Nat) (alloc : Bool) :
    Effect s (killAppend s sig alloc) := by
  cases alloc with
  | false => exact .refl s
  | true => exact ⟨fun h => h.append rfl rfl, fun h => ⟨h.flag, h.frames⟩⟩

theorem effect_signalDeliver (s : State) (place : Place) : Effect s (signalDeliver s place) := by
  unfold signalDeliver
  split
  · exact .refl s
  · split
    · exact effect_same rfl rfl rfl rfl
    · cases place with
      | self => exact effect_push rfl rfl rfl rfl rfl
      | interrupt => exact effect_same rfl rfl rfl rfl
      | other =>
        dsimp only
        split
        · exact .refl s
        · exact effect_push rfl rfl rfl rfl rfl

theorem effect_handleRound (htop : s.frames = g :: below)
    (h : handleRound s cleanState below = some s') : Effect s s' := by
  unfold handleRound at h
  split at h
  · cases hl : s.siList with
    | nil =>
      simp only [hl] at h
      cases h
      exact effect_pop hl.symm rfl rfl htop rfl
    | cons signo rest =>
      simp only [hl] at h
      obtain ⟨vectors, -, rfl⟩ := Option.map_eq_some_iff.mp h
      refine ⟨fun h => @Listed.remove _ _ _ [] _ h hl rfl rfl, fun h => ⟨h.flag, fun f hf => ?_⟩⟩
      obtain hold | hnew := mem_push hf rfl
      · exact h.frames f (mem_top htop hold)
      · exact hnew
  · cases h
    exact effect_pop rfl rfl rfl htop rfl

theorem effect_handleSig (htop : s.frames = g :: below)
    (h : handleSig s cleanState below = some s') : Effect s s' := by
  unfold handleSig at h
  split at h
  · exact effect_handleRound htop h
  · cases h
    cases cleanState with
    | true => exact effect_pop rfl rfl rfl htop rfl
    | false => exact effect_top rfl rfl rfl htop rfl rfl

theorem effect_handlerReturned (htop : s.frames = g :: below)
    (h : handlerReturned s cleanState below = some s') : Effect s s' := by
  have hround : Effect { s with error := .eintr } s' := effect_handleRound htop h
  have herror : Effect s { s with error := .eintr } := effect_same rfl rfl rfl rfl
  exact herror.trans hround

theorem waitDone_frames (s : State) (set : BitVec 32) :
    (waitDone s set).1.frames = s.frames ∧
      (waitDone s set).1.statSignalWait = s.statSignalWait := by
  rw [waitDone]
  split
  · exact ⟨rfl, rfl⟩
  · exact ⟨rfl, rfl⟩

theorem effect_waitDone (s : State) (set : BitVec 32) : Effect s (waitDone s set).1 := by
  obtain ⟨hframes, hflag⟩ := waitDone_frames s set
  refine ⟨fun h => h.waitDone set, fun h => ⟨hflag.trans h.flag, ?_⟩⟩
  rw [hframes]
  exact h.frames

theorem effect_killTest (hgo : Effect s t) (sig : Nat) : Effect s (killTest s sig t).1 := by
  unfold killTest
  split
  · split
    · exact .refl s
    · exact hgo
  · exact .refl s

theorem effect_rtSignalUnmask (s : State) (signo : Nat) : Effect s (rtSignalUnmask s signo) := by
  simp only [rtSignalUnmask]
  split
  · exact effect_push rfl rfl rfl rfl rfl
  · exact effect_same rfl rfl rfl rfl

/-- The section behind `rt_schedule` is not reached by a thread that does not wait. -/
theorem effect_waitReturned (s : State) (set : BitVec 32) (below : List Frame)
    (htop : s.frames = .waiting set :: below) : Effect s (waitReturned s set below).1 := by
  refine ⟨fun h => ?_, fun h => ?_⟩
  · simp only [waitReturned]
    split
    · exact h.same rfl rfl
    · refine Listed.waitDone ?_ set
      exact h.same rfl rfl
  · have hwaits := h.frames (.waiting set) (by rw [htop]; exact List.mem_cons_self)
    cases hwaits

theorem effect_proceed (h : proceed s alloc = some (s', out)) : Effect s s' := by
  unfold proceed at h
  split at h
  · cases h
  · rename_i sig below htop
    cases h
    have htop' : (killAppend s sig alloc).frames = .killing sig :: below := by
      rw [killAppend_frames, htop]
    exact (effect_killAppend s sig alloc).trans (effect_top rfl rfl rfl htop' rfl rfl)
  · rename_i below htop
    cases h
    have hpop : Effect s { s with frames := below } := effect_pop rfl rfl rfl htop rfl
    exact hpop.trans (effect_signalDeliver _ _)
  · rename_i recorded below htop
    cases h
    have hnext : Effect s { s with frames := .returning recorded :: below } :=
      effect_top rfl rfl rfl htop rfl rfl
    exact hnext.trans (effect_signalDeliver _ _)
  · rename_i recorded below htop
    cases h
    exact effect_pop rfl rfl rfl htop rfl
  · rename_i cleanState below htop
    obtain ⟨t, ht, heq⟩ := Option.map_eq_some_iff.mp h
    cases heq
    exact effect_handleSig htop ht
  · rename_i cleanState signo handler below htop
    cases handler with
    | none =>
      obtain ⟨t, ht, heq⟩ := Option.map_eq_some_iff.mp h
      cases heq
      exact effect_handlerReturned htop ht
    | some handler =>
      cases h
      exact effect_top rfl rfl rfl htop rfl rfl
  · rename_i cleanState below htop
    obtain ⟨t, ht, heq⟩ := Option.map_eq_some_iff.mp h
    cases heq
    exact effect_handlerReturned htop ht
  · rename_i below htop
    cases h
    exact effect_pop rfl rfl rfl htop rfl
  · rename_i set below htop
    obtain ⟨-, hr⟩ := Option.ite_none_left_eq_some.mp h
    have heffect := effect_waitReturned s set below htop
    rw [Option.some.inj hr] at heffect
    exact heffect

theorem effect_proceedBy (h : proceedBy s context alloc current = some (s', out)) :
    Effect s s' := by
  have hkills : ∀ (t : State) (kill : Option Kill), Effect t (setKill t context kill) :=
    fun _ _ => effect_same rfl rfl rfl rfl
  unfold proceedBy at h
  split at h
  · cases h
  · cases h
    exact (effect_killAppend _ _ _).trans (hkills _ _)
  · cases h
    exact (effect_signalDeliver _ _).trans (hkills _ _)

/-- The suspended state of `rt_signal_wait`. -/
def suspendWait (s : State) (set : BitVec 32) : State :=
  { s with suspended := true, statSignalWait := true, frames := .waiting set :: s.frames }

theorem rtSignalWait_cases (s : State) (set : BitVec 32) (siGiven : Bool) (timeout : Int) :
    rtSignalWait s set siGiven timeout = (s, some (.waited .einval none)) ∨
      s.sigPending &&& set ≠ 0 ∧ rtSignalWait s set siGiven timeout = waitDone s set ∨
      timeout = 0 ∧ rtSignalWait s set siGiven timeout = (s, some (.waited .etimeout none)) ∨
      rtSignalWait s set siGiven timeout = (suspendWait s set, none) := by
  rw [rtSignalWait]
  split
  · exact .inl rfl
  · split
    · exact .inr (.inl ⟨by assumption, rfl⟩)
    · split
      · exact .inr (.inr (.inl ⟨by assumption, rfl⟩))
      · exact .inr (.inr (.inr rfl))

theorem call_effect (h : call s op = some (s', out)) :
    Effect s s' ∨ ∃ set siGiven timeout, op = .wait set siGiven timeout ∧ out = none ∧
      s' = suspendWait s set := by
  cases op with
  | install signo action =>
    obtain ⟨-, hr⟩ := Option.ite_none_right_eq_some.mp h
    unfold rtSignalInstall at hr
    split at hr
    · cases hr
      exact .inl (effect_same rfl rfl rfl rfl)
    · cases hr
      exact .inl (.refl s)
  | mask | suspend | setError | resume | timeout =>
    obtain ⟨-, rfl, -⟩ := guarded_inj h
    exact .inl (effect_same rfl rfl rfl rfl)
  | unmask signo =>
    obtain ⟨-, rfl, -⟩ := guarded_inj h
    exact .inl (effect_rtSignalUnmask s signo)
  | kill sig =>
    obtain ⟨-, hr⟩ := Option.ite_none_right_eq_some.mp h
    have hgo : Effect s { s with frames := .killing sig :: s.frames } :=
      effect_push rfl rfl rfl rfl rfl
    have heffect := effect_killTest hgo sig
    rw [Option.some.inj hr] at heffect
    exact .inl heffect
  | wait set siGiven timeout =>
    obtain ⟨-, hr⟩ := Option.ite_none_right_eq_some.mp h
    have hr := Option.some.inj hr
    obtain heq | ⟨-, heq⟩ | ⟨-, heq⟩ | heq := rtSignalWait_cases s set siGiven timeout
    · obtain ⟨rfl, -⟩ := Prod.mk.inj (heq.symm.trans hr)
      exact .inl (.refl s)
    · have heffect := effect_waitDone s set
      rw [heq.symm.trans hr] at heffect
      exact .inl heffect
    · obtain ⟨rfl, -⟩ := Prod.mk.inj (heq.symm.trans hr)
      exact .inl (.refl s)
    · obtain ⟨rfl, rfl⟩ := Prod.mk.inj (heq.symm.trans hr)
      exact .inr ⟨set, siGiven, timeout, rfl, rfl, rfl⟩
  | proceed alloc =>
    obtain ⟨-, hr⟩ := Option.ite_none_right_eq_some.mp h
    exact .inl (effect_proceed hr)
  | scheduled =>
    obtain ⟨-, rfl, -⟩ := guarded_inj h
    exact .inl (effect_push rfl rfl rfl rfl rfl)
  | killBy context sig =>
    obtain ⟨-, hr⟩ := Option.ite_none_right_eq_some.mp h
    have hgo : Effect s (setKill s context (some (.killing sig))) :=
      effect_same rfl rfl rfl rfl
    have heffect := effect_killTest hgo sig
    rw [Option.some.inj hr] at heffect
    exact .inl heffect
  | proceedBy context alloc current => exact .inl (effect_proceedBy h)

end effect

/-! ## A thread that waits for a signal -/

/-- A frame that `_signal_deliver` puts on top of a wait. -/
def Frame.idle : Frame → Bool
  | .handling _ | .leaving => true
  | _ => false

/-- The wait is in progress, and its error number tells whether its time has run out. -/
structure Waits (w : Watch) (top below : List Frame) (set : BitVec 32) : Prop where
  flag : w.thread.statSignalWait = true
  frames : w.thread.frames = top ++ .waiting set :: below
  idle : ∀ f ∈ top, f.idle = true
  below : ∀ f ∈ below, f.waits = false
  error : w.thread.error = .etimeout ↔ w.stale = true ∨ w.expired = true

section waits

variable {w w' : Watch} {s s' : State} {top below : List Frame} {set : BitVec 32} {op : Op}
  {out : Option Out} {f : Frame} {alloc : Bool}

theorem Waits.not_userCode (h : Waits w top below set) : userCode w.thread.frames = false := by
  rw [h.frames]
  cases top with
  | nil => rfl
  | cons f top =>
    have hidle := h.idle f List.mem_cons_self
    cases f with
    | handling cleanState => rfl
    | leaving => rfl
    | killing | delivering | returning | calling | running | waiting => cases hidle

/-- The same wait, with other frames on top of it. -/
theorem Waits.stack (h : Waits w top below set) {top' : List Frame}
    (hflag : s.statSignalWait = w.thread.statSignalWait)
    (hframes : s.frames = top' ++ .waiting set :: below) (hidle : ∀ f ∈ top', f.idle = true)
    (herror : s.error = w.thread.error) : Waits { w with thread := s } top' below set :=
  ⟨hflag.trans h.flag, hframes, hidle, h.below, by rw [herror]; exact h.error⟩

theorem Waits.same (h : Waits w top below set)
    (hflag : s.statSignalWait = w.thread.statSignalWait) (hframes : s.frames = w.thread.frames)
    (herror : s.error = w.thread.error) : Waits { w with thread := s } top below set :=
  h.stack hflag (hframes.trans h.frames) h.idle herror

theorem Waits.push (h : Waits w top below set)
    (hflag : s.statSignalWait = w.thread.statSignalWait) (hframes : s.frames = f :: w.thread.frames)
    (hidle : f.idle = true) (herror : s.error = w.thread.error) :
    Waits { w with thread := s } (f :: top) below set := by
  refine h.stack hflag (by rw [hframes, h.frames]; rfl) (fun g hg => ?_) herror
  obtain rfl | hg := List.mem_cons.mp hg
  · exact hidle
  · exact h.idle g hg

theorem Waits.signalDeliver (h : Waits w top below set) (place : Place) (hplace : place ≠ .self) :
    ∃ top', Waits { w with thread := signalDeliver w.thread place } top' below set := by
  unfold Signal.signalDeliver
  split
  · exact ⟨top, h⟩
  · split
    · exact ⟨top, h.same rfl rfl rfl⟩
    · cases place with
      | self => exact absurd rfl hplace
      | interrupt => exact ⟨top, h.same rfl rfl rfl⟩
      | other =>
        dsimp only
        split
        · exact ⟨top, h⟩
        · exact ⟨_, h.push rfl rfl rfl rfl⟩

theorem Waits.killAppend (h : Waits w top below set) (sig : Nat) (alloc : Bool) :
    Waits { w with thread := killAppend w.thread sig alloc } top below set := by
  cases alloc with
  | false => exact h
  | true => exact h.same rfl rfl rfl

/-- The frames on top of a wait do nothing. -/
theorem Waits.proceed_idle (h : Waits w (f :: top) below set)
    (hp : proceed w.thread alloc = some (s, out)) :
    ∃ top', Waits { w with thread := s } top' below set := by
  have htop := h.frames
  rw [List.cons_append] at htop
  have hrest : ∀ g ∈ top, g.idle = true := fun g hg => h.idle g (List.mem_cons_of_mem f hg)
  have hidle := h.idle f List.mem_cons_self
  rw [proceed] at hp
  cases f with
  | handling cleanState =>
    simp only [htop, handleSig, h.flag, Bool.true_eq_false, and_false, if_false,
      Option.map_some, Option.some.injEq, Prod.mk.injEq] at hp
    obtain ⟨rfl, -⟩ := hp
    cases cleanState with
    | true => exact ⟨top, h.stack h.flag.symm rfl hrest rfl⟩
    | false =>
      refine ⟨.leaving :: top, h.stack h.flag.symm rfl (fun g hg => ?_) rfl⟩
      obtain rfl | hg := List.mem_cons.mp hg
      · rfl
      · exact hrest g hg
  | leaving =>
    simp only [htop, Option.some.injEq, Prod.mk.injEq] at hp
    obtain ⟨rfl, -⟩ := hp
    exact ⟨top, h.stack rfl rfl hrest rfl⟩
  | killing | delivering | returning | calling | running | waiting => cases hidle

theorem proceed_waiting (htop : s.frames = .waiting set :: below)
    (hp : proceed s alloc = some (s', out)) :
    s.statSignalPending = false ∧ (s', out) = waitReturned s set below := by
  simp only [proceed, htop] at hp
  obtain ⟨hpending, hr⟩ := Option.ite_none_left_eq_some.mp hp
  exact ⟨by simpa using hpending, (Option.some.inj hr).symm⟩

theorem waitReturned_calm (hbelow : ∀ f ∈ below, f.waits = false) :
    Calm (waitReturned s set below).1 := by
  simp only [waitReturned]
  split
  · exact ⟨rfl, hbelow⟩
  · exact (effect_waitDone _ set).calm ⟨rfl, hbelow⟩

/-- A step of a thread that waits, or around it, goes on with the wait or returns from it. -/
theorem Waits.step (h : Waits w top below set) (hw : watchCall w op = some (w', out)) :
    (∃ top', Waits w' top' below set) ∨ Calm w'.thread := by
  obtain ⟨⟨s, o⟩, hcall, hw⟩ := Option.bind_eq_some_iff.mp hw
  obtain ⟨w', hnext, heq⟩ := Option.map_eq_some_iff.mp hw
  cases heq
  have huser := h.not_userCode
  cases op with
  | install | mask | unmask | kill | wait | suspend | setError => simp [call, huser] at hcall
  | proceed alloc =>
    cases hnext
    obtain ⟨-, hp⟩ := Option.ite_none_right_eq_some.mp hcall
    cases top with
    | nil =>
      obtain ⟨-, heq⟩ := proceed_waiting h.frames hp
      obtain ⟨rfl, -⟩ := Prod.mk.inj heq
      exact .inr (waitReturned_calm h.below)
    | cons f top => exact .inl (h.proceed_idle hp)
  | scheduled =>
    cases hnext
    obtain ⟨-, rfl, -⟩ := guarded_inj hcall
    exact .inl ⟨_, h.push rfl rfl rfl rfl⟩
  | resume =>
    cases hnext
    obtain ⟨-, rfl, -⟩ := guarded_inj hcall
    exact .inl ⟨top, h.same rfl rfl rfl⟩
  | timeout =>
    obtain ⟨-, rfl, -⟩ := guarded_inj hcall
    obtain ⟨-, hnext⟩ := Option.ite_none_right_eq_some.mp hnext
    cases hnext
    exact .inl ⟨top, h.flag, h.frames, h.idle, h.below, by simp⟩
  | killBy context sig =>
    cases hnext
    obtain ⟨-, hr⟩ := Option.ite_none_right_eq_some.mp hcall
    have hs : s = w.thread ∨ s = setKill w.thread context (some (.killing sig)) := by
      have hr := Option.some.inj hr
      rw [killTest] at hr
      split at hr
      · split at hr
        · exact .inl (Prod.mk.inj hr).1.symm
        · exact .inr (Prod.mk.inj hr).1.symm
      · exact .inl (Prod.mk.inj hr).1.symm
    obtain rfl | rfl := hs
    · exact .inl ⟨top, h⟩
    · exact .inl ⟨top, h.same rfl rfl rfl⟩
  | proceedBy context alloc current =>
    cases hnext
    have hr : proceedBy w.thread context alloc current = some (s, o) := hcall
    rw [proceedBy] at hr
    split at hr
    · cases hr
    · rename_i sig hkill
      cases hr
      have happend := h.killAppend sig alloc
      exact .inl ⟨top, happend.same rfl rfl rfl⟩
    · cases hr
      obtain ⟨top', hdeliver⟩ := h.signalDeliver (if current then .interrupt else .other)
        (by split <;> simp)
      exact .inl ⟨top', hdeliver.same rfl rfl rfl⟩

end waits

/-! ## Runs -/

structure WatchInv (w : Watch) : Prop where
  listed : Listed w.thread
  mode : Calm w.thread ∨ ∃ top below set, Waits w top below set

section runs

variable {w w' : Watch} {s s' : State} {op : Op} {out : Option Out} {set : BitVec 32}
  {below : List Frame} {result : RtErr} {si : Option Nat} {alloc : Bool}

theorem next_thread (h : w.next s out op = some w') : w'.thread = s := by
  cases op with
  | wait set siGiven timeout =>
    simp only [Watch.next] at h
    split at h
    · rw [← Option.some.inj h]
    · obtain ⟨-, h⟩ := Option.ite_none_right_eq_some.mp h
      rw [← Option.some.inj h]
  | timeout =>
    obtain ⟨-, h⟩ := Option.ite_none_right_eq_some.mp h
    rw [← Option.some.inj h]
  | install | mask | unmask | kill | suspend | setError | proceed | scheduled | resume | killBy
  | proceedBy => rw [← Option.some.inj h]

theorem watchCall_some (h : watchCall w op = some (w', out)) :
    call w.thread op = some (w'.thread, out) ∧ w.next w'.thread out op = some w' := by
  obtain ⟨⟨s, o⟩, hcall, hw⟩ := Option.bind_eq_some_iff.mp h
  obtain ⟨w', hnext, heq⟩ := Option.map_eq_some_iff.mp hw
  cases heq
  rw [next_thread hnext]
  exact ⟨hcall, hnext⟩

theorem WatchInv.call (h : WatchInv w) (hw : watchCall w op = some (w', out)) : WatchInv w' := by
  obtain ⟨hcall, hnext⟩ := watchCall_some hw
  obtain heffect | ⟨set, siGiven, timeout, rfl, rfl, hs⟩ := call_effect hcall
  · refine ⟨heffect.listed h.listed, ?_⟩
    obtain hcalm | ⟨top, below, set, hwaits⟩ := h.mode
    · exact .inl (heffect.calm hcalm)
    · obtain ⟨top', hwaits'⟩ | hcalm := hwaits.step hw
      · exact .inr ⟨top', below, set, hwaits'⟩
      · exact .inl hcalm
  · have hlisted : Listed w'.thread := by
      rw [hs]
      exact h.listed.same rfl rfl
    refine ⟨hlisted, .inr ?_⟩
    obtain hcalm | ⟨top, below, set', hwaits⟩ := h.mode
    · rw [hs] at hnext
      obtain ⟨-, hnext⟩ := Option.ite_none_right_eq_some.mp hnext
      cases hnext
      exact ⟨[], w.thread.frames, set, rfl, rfl, fun f hf => absurd hf List.not_mem_nil,
        hcalm.frames, by simp [suspendWait]⟩
    · simp [Signal.call, hwaits.not_userCode] at hcall

theorem proceed_returns (hp : proceed s alloc = some (s', some (.waited result si))) :
    ∃ set below, s.frames = .waiting set :: below := by
  unfold proceed at hp
  split at hp
  · cases hp
  · cases hp
  · cases hp
  · cases hp
  · cases hp
  · obtain ⟨t, -, heq⟩ := Option.map_eq_some_iff.mp hp
    exact absurd (Prod.mk.inj heq).2 (by simp)
  · split at hp
    · cases hp
    · obtain ⟨t, -, heq⟩ := Option.map_eq_some_iff.mp hp
      exact absurd (Prod.mk.inj heq).2 (by simp)
  · obtain ⟨t, -, heq⟩ := Option.map_eq_some_iff.mp hp
    exact absurd (Prod.mk.inj heq).2 (by simp)
  · cases hp
  · rename_i set below htop
    exact ⟨set, below, htop⟩

/-- Only `rt_signal_wait` itself returns from waiting for a signal. -/
theorem call_returns (hcall : call s op = some (s', some (.waited result si))) :
    (∃ set siGiven timeout, op = .wait set siGiven timeout) ∨
      ∃ alloc set below, op = .proceed alloc ∧ s.frames = .waiting set :: below := by
  have hkill : ∀ (sig : Nat) (t : State), killTest s sig t ≠ (s', some (.waited result si)) := by
    intro sig t
    rw [killTest]
    split
    · split
      · exact fun heq => absurd (Prod.mk.inj heq).2 (by simp)
      · exact fun heq => absurd (Prod.mk.inj heq).2 (by simp)
    · exact fun heq => absurd (Prod.mk.inj heq).2 (by simp)
  cases op with
  | install signo action =>
    obtain ⟨-, hr⟩ := Option.ite_none_right_eq_some.mp hcall
    have hr := Option.some.inj hr
    unfold rtSignalInstall at hr
    split at hr
    · exact absurd (Prod.mk.inj hr).2 (by simp)
    · exact absurd (Prod.mk.inj hr).2 (by simp)
  | mask | unmask | suspend | setError | scheduled | resume | timeout => simp [call] at hcall
  | kill | killBy =>
    obtain ⟨-, hr⟩ := Option.ite_none_right_eq_some.mp hcall
    exact absurd (Option.some.inj hr) (hkill _ _)
  | wait set siGiven timeout => exact .inl ⟨set, siGiven, timeout, rfl⟩
  | proceed alloc =>
    obtain ⟨-, hp⟩ := Option.ite_none_right_eq_some.mp hcall
    obtain ⟨set, below, htop⟩ := proceed_returns hp
    exact .inr ⟨alloc, set, below, rfl, htop⟩
  | proceedBy context alloc current =>
    have hr : proceedBy s context alloc current = some (s', some (.waited result si)) := hcall
    unfold proceedBy at hr
    split at hr
    · cases hr
    · cases hr
    · cases hr

/-- A signal of the set that is pending is taken. -/
theorem waitDone_taken (h : ∃ signo ∈ s.siList, set.getLsbD signo = true) :
    ∃ signo, (waitDone s set).2 = some (.waited .eok (some signo)) ∧
      Taken s (waitDone s set).1 set signo := by
  obtain ⟨signo, hout, hset, hpending, hlist⟩ | ⟨hnone, -⟩ := waitDone_cases s set
  · exact ⟨signo, hout, hset, by rw [hpending]; exact getLsbD_removed _ _, hlist⟩
  · obtain ⟨signo, hmem, hset⟩ := h
    rw [hnone signo hmem] at hset
    cases hset

theorem Listed.queued (h : Listed s) (hpending : s.sigPending &&& set ≠ 0) :
    ∃ signo ∈ s.siList, set.getLsbD signo = true := by
  by_contra hno
  refine hpending (BitVec.eq_of_getLsbD_eq fun i hi => ?_)
  have hzero : (0 : BitVec 32).getLsbD i = false := BitVec.getLsbD_zero
  rw [BitVec.getLsbD_and, hzero, Bool.and_eq_false_iff]
  cases hset : s.sigPending.getLsbD i with
  | false => exact .inl rfl
  | true =>
    refine .inr ?_
    by_contra hmem
    exact hno ⟨i, h i hset, by simpa using hmem⟩

/-- What `rt_signal_wait` returns at once is right. -/
theorem outcome_wait {siGiven : Bool} {timeout : Int} (h : WatchInv w) :
    Outcome w (.wait set siGiven timeout) := by
  intro w' result si hw
  obtain ⟨hcall, -⟩ := watchCall_some hw
  obtain ⟨-, hr⟩ := Option.ite_none_right_eq_some.mp hcall
  have hr := Option.some.inj hr
  obtain heq | ⟨hpending, heq⟩ | ⟨rfl, heq⟩ | heq :=
    rtSignalWait_cases w.thread set siGiven timeout
  · obtain ⟨-, hout⟩ := Prod.mk.inj (heq.symm.trans hr)
    obtain ⟨rfl, rfl⟩ := Out.waited.inj (Option.some.inj hout)
    simp
  · have hr := heq.symm.trans hr
    obtain ⟨signo, hout, htaken⟩ := waitDone_taken (h.listed.queued hpending)
    rw [hr] at hout htaken
    obtain ⟨rfl, rfl⟩ := Out.waited.inj (Option.some.inj hout)
    exact ⟨⟨fun _ => ⟨signo, rfl, htaken⟩, fun _ => rfl⟩, fun hno => RtErr.noConfusion hno⟩
  · obtain ⟨-, hout⟩ := Prod.mk.inj (heq.symm.trans hr)
    obtain ⟨rfl, rfl⟩ := Out.waited.inj (Option.some.inj hout)
    exact ⟨by simp, fun _ => rfl⟩
  · exact absurd (Prod.mk.inj (heq.symm.trans hr)).2 (by simp)

theorem WatchInv.error (h : WatchInv w) (htop : w.thread.frames = .waiting set :: below) :
    w.thread.error = .etimeout ↔ w.stale = true ∨ w.expired = true := by
  obtain hcalm | ⟨top, below', set', hwaits⟩ := h.mode
  · have hno := hcalm.frames (.waiting set) (by rw [htop]; exact List.mem_cons_self)
    cases hno
  · exact hwaits.error

/-- The section behind `rt_schedule` returns what it should exactly when it can. -/
theorem outcome_returned (h : WatchInv w) (htop : w.thread.frames = .waiting set :: below) :
    Outcome w (.proceed alloc) ↔ Answerable w (.proceed alloc) := by
  have herror := h.error htop
  have hset : requested w.thread (.proceed alloc) = set := by simp [requested, htop]
  have hanswer : Answerable w (.proceed alloc) ↔ (w.thread.suspended = false →
      w.thread.statSignalPending = false → w.expired = true ∨
        w.stale = false ∧ ∃ signo ∈ w.thread.siList, set.getLsbD signo = true) := by
    simp only [Answerable, htop]
  have hlist : ∀ t : State, t = { w.thread with statSignalWait := false, frames := below } →
      t.siList = w.thread.siList := by
    rintro t rfl
    rfl
  rw [hanswer]
  constructor
  · intro hout hrun hpending
    have hwatch : ∀ r, waitReturned w.thread set below = r →
        watchCall w (.proceed alloc) = some ({ w with thread := r.1 }, r.2) := by
      rintro r rfl
      simp [watchCall, call, hrun, proceed, htop, hpending, Watch.next]
    by_cases htime : w.thread.error = .etimeout
    · have hr : waitReturned w.thread set below = ({ w.thread with
          statSignalWait := false, frames := below, error := .eok },
          some (.waited .etimeout none)) := by
        simp [waitReturned, htime]
      obtain ⟨-, hexpired⟩ := hout _ _ _ (hwatch _ hr)
      exact .inl (hexpired rfl)
    · by_cases hqueued : ∃ signo ∈ w.thread.siList, set.getLsbD signo = true
      · have hfresh : w.stale = false := by
          by_contra hstale
          exact htime (herror.mpr (.inl (by simpa using hstale)))
        exact .inr ⟨hfresh, hqueued⟩
      · obtain ⟨signo, hdone, hset', -, l₁, l₂, hsplit, -⟩ | ⟨-, hdone⟩ := waitDone_cases
            { w.thread with statSignalWait := false, frames := below } set
        · exact absurd ⟨signo, by rw [hsplit]; simp, hset'⟩ hqueued
        · have hr : waitReturned w.thread set below =
              ({ w.thread with statSignalWait := false, frames := below },
                some (.waited .eok none)) := by
            simp only [waitReturned, if_neg htime]
            exact hdone
          obtain ⟨heok, -⟩ := hout _ _ _ (hwatch _ hr)
          obtain ⟨signo, hno, -⟩ := heok.mp rfl
          cases hno
  · intro hready w' result si hw
    obtain ⟨hcall, -⟩ := watchCall_some hw
    obtain ⟨hrun, hp⟩ := Option.ite_none_right_eq_some.mp hcall
    obtain ⟨hpending, hr⟩ := proceed_waiting htop hp
    rw [hset]
    by_cases htime : w.thread.error = .etimeout
    · simp only [waitReturned, if_pos htime, Prod.mk.injEq, Option.some.injEq,
        Out.waited.injEq] at hr
      obtain ⟨-, rfl, rfl⟩ := hr
      refine ⟨by simp, fun _ => ?_⟩
      obtain hexpired | ⟨hfresh, -⟩ := hready hrun hpending
      · exact hexpired
      · obtain hstale | hexpired := herror.mp htime
        · exact Bool.noConfusion (hfresh.symm.trans hstale)
        · exact hexpired
    · simp only [waitReturned, if_neg htime] at hr
      obtain hexpired | ⟨-, hqueued⟩ := hready hrun hpending
      · exact absurd (herror.mpr (.inr hexpired)) htime
      · obtain ⟨signo, hdone, htaken⟩ := @waitDone_taken
          { w.thread with statSignalWait := false, frames := below } set hqueued
        rw [← hr] at hdone htaken
        obtain ⟨rfl, rfl⟩ := Out.waited.inj (Option.some.inj hdone)
        exact ⟨⟨fun _ => ⟨signo, rfl, htaken⟩, fun _ => rfl⟩, fun hno => RtErr.noConfusion hno⟩

theorem outcome_iff (h : WatchInv w) : Outcome w op ↔ Answerable w op := by
  by_cases hreturns : ∃ alloc set below, op = .proceed alloc ∧ w.thread.frames = .waiting set :: below
  · obtain ⟨alloc, set, below, rfl, htop⟩ := hreturns
    exact outcome_returned h htop
  · have hanswer : Answerable w op := by
      cases op with
      | proceed alloc =>
        simp only [Answerable]
        split
        · rename_i set below htop
          exact absurd ⟨alloc, set, below, rfl, htop⟩ hreturns
        · trivial
      | _ => trivial
    refine ⟨fun _ => hanswer, fun _ w' result si hw => ?_⟩
    obtain ⟨hcall, -⟩ := watchCall_some hw
    obtain ⟨set, siGiven, timeout, rfl⟩ | hno := call_returns hcall
    · exact outcome_wait h w' result si hw
    · exact absurd hno hreturns

theorem watchStep_inv (h : WatchInv w) (hw : watchStep w op = some w') : WatchInv w' := by
  obtain ⟨⟨w', out⟩, hcall, rfl⟩ := Option.map_eq_some_iff.mp hw
  exact h.call hcall

theorem watchInit_inv : WatchInv watchInit :=
  ⟨fun signo hset => absurd hset (by simp [watchInit, init]),
    .inl ⟨rfl, fun f hf => absurd hf List.not_mem_nil⟩⟩

/-- In a run, every `rt_signal_wait` returns what it should if and only if, whenever the thread runs
again behind its wait, its timer has expired, or a signal of its set is queued and it had no
`-RT_ETIMEOUT` left over from an earlier call. -/
theorem signal_wait_outcome (ops : List Op) :
    Runs.Along watchStep Outcome watchInit ops ↔ Runs.Along watchStep Answerable watchInit ops := by
  constructor
  · intro h
    exact h.of_invariant (fun _ _ _ hinv _ hw => watchStep_inv hinv hw)
      (fun _ _ hinv hout => (outcome_iff hinv).mp hout) watchInit_inv
  · intro h
    exact h.of_invariant (fun _ _ _ hinv _ hw => watchStep_inv hinv hw)
      (fun _ _ hinv hready => (outcome_iff hinv).mpr hready) watchInit_inv

/-- A thread that has unmasked signal 2 waits for signal 1, and signal 2 is sent to it. -/
def otherSignal : List Op :=
  [.install 2 (.user 8), .unmask 2, .wait 0b10 true (-1), .killBy 0 2, .proceedBy 0 true false,
    .proceedBy 0 true false, .scheduled, .proceed true]

/-- A call of another kind has timed out; then the thread waits for signal 1 for ever, and
signal 1 is sent to it. -/
def leftOver : List Op :=
  [.install 1 (.user 8), .unmask 1, .suspend .eok, .timeout, .wait 0b10 true (-1), .killBy 0 1,
    .proceedBy 0 true false, .proceedBy 0 true false, .scheduled, .proceed true]

theorem signal_wait_misled :
    ¬ Runs.Along watchStep Outcome watchInit (otherSignal ++ [.proceed true]) ∧
      ¬ Runs.Along watchStep Outcome watchInit (leftOver ++ [.proceed true]) := by
  have hlast : ∀ (ops : List Op) (result : RtErr),
      ((Runs.run watchStep watchInit ops).bind fun w =>
        (watchCall w (.proceed true)).map fun r => (w.expired, r.2)) =
          some (false, some (.waited result none)) →
      (result = .eok ∨ result = .etimeout) →
      ¬ Runs.Along watchStep Outcome watchInit (ops ++ [.proceed true]) := by
    intro ops result hvalue hresult halong
    obtain ⟨w, hrun, hvalue⟩ := Option.bind_eq_some_iff.mp hvalue
    obtain ⟨⟨w', out⟩, hcall, hvalue⟩ := Option.map_eq_some_iff.mp hvalue
    obtain ⟨hexpired, rfl⟩ := Prod.mk.inj hvalue
    obtain ⟨heok, htime⟩ := ((Runs.along_append.mp halong).2 w hrun).1 w' result none hcall
    obtain rfl | rfl := hresult
    · obtain ⟨signo, hno, -⟩ := heok.mp rfl
      cases hno
    · exact Bool.noConfusion (hexpired.symm.trans (htime rfl))
  constructor
  · exact hlast otherSignal .eok (by decide +kernel) (.inl rfl)
  · exact hlast leftOver .etimeout (by decide +kernel) (.inr rfl)

end runs

end RtThread.Signal
