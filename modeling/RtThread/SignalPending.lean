import RtThread.Signal

/-!
# Pending signals and queued nodes

A bit of the pending set stands for one node of the list. The test of `rt_thread_kill` for a
node that is there, the allocation and the appending are three steps, between which another
kill of the signal can append its node.
-/
namespace RtThread.Signal

/-- A signal is pending exactly when one node of it is queued. -/
def Booked (s : State) : Prop :=
  ∀ signo, sigValid signo → (s.sigPending.getLsbD signo = true ↔ s.siList.count signo = 1)

/-- A kill that returns `RT_EOK` in this step has its signal recorded. -/
def KillsRecorded (s : State) (op : Op) : Prop :=
  ∀ s' recorded, call s op = some (s', some (.killed .eok recorded)) → recorded = true

/-- The signal that the next section of the call appends. -/
def Frame.appends : Frame → Option Nat
  | .killing sig => some sig
  | _ => none

def Kill.appends : Kill → Option Nat
  | .killing sig => some sig
  | .delivering _ => none

/-- A kill that reaches its appending finds its signal not pending and gets a node; or another
kill has recorded the signal, and it gets none. -/
def Single (s : State) : Op → Prop
  | .proceed alloc => ∀ sig ∈ s.frames.head?.bind Frame.appends,
      alloc = !s.sigPending.getLsbD sig
  | .proceedBy context alloc _ => ∀ sig ∈ (s.kills context).bind Kill.appends,
      alloc = !s.sigPending.getLsbD sig
  | _ => True

instance (s : State) : (op : Op) → Decidable (Single s op)
  | .proceed _ | .proceedBy _ _ _ => by unfold Single; infer_instance
  | .install _ _ | .mask _ | .unmask _ | .kill _ | .wait _ _ _ | .suspend _ | .setError _
  | .scheduled | .resume | .timeout | .killBy _ _ => .isTrue trivial

/-! ## The list and the set -/

/-- The nodes of the list are those of the set, one for each. -/
structure Matches (l : List Nat) (p : BitVec 32) : Prop where
  valid : ∀ signo ∈ l, sigValid signo
  count : ∀ signo, sigValid signo → l.count signo = (p.getLsbD signo).toNat

variable {l : List Nat} {p : BitVec 32} {sig : Nat} {s s' : State} {alloc cleanState : Bool}
  {f : Frame} {below : List Frame} {out : Option Out} {op : Op}

theorem Matches.append (h : Matches l p) (hvalid : sigValid sig) (hnew : p.getLsbD sig = false) :
    Matches (l ++ [sig]) (p ||| sigBit sig) := by
  constructor
  · intro signo hmem
    rcases List.mem_append.mp hmem with hold | hlast
    · exact h.valid signo hold
    · rw [List.mem_singleton.mp hlast]
      exact hvalid
  · intro signo hs
    have hcount := h.count signo hs
    rw [List.count_append, List.count_singleton, hcount, getLsbD_or_sigBit _ hvalid]
    by_cases heq : signo = sig
    · subst heq
      simp [hnew]
    · simp [heq, Ne.symm heq]

theorem Matches.remove {l₁ l₂ : List Nat} (h : Matches (l₁ ++ sig :: l₂) p) :
    Matches (l₁ ++ l₂) (p &&& ~~~sigBit sig) := by
  have hvalid : sigValid sig := h.valid sig (by simp)
  constructor
  · intro signo hmem
    refine h.valid signo ?_
    rcases List.mem_append.mp hmem with hfirst | hlast
    · exact List.mem_append_left _ hfirst
    · exact List.mem_append_right _ (List.mem_cons_of_mem sig hlast)
  · intro signo hs
    have hcount := h.count signo hs
    have hle : (p.getLsbD signo).toNat ≤ 1 := Bool.toNat_le _
    rw [getLsbD_and_not_sigBit _ hvalid hs, List.count_append]
    rw [List.count_append, List.count_cons] at hcount
    by_cases heq : signo = sig
    · subst heq
      simp only [beq_self_eq_true, if_true] at hcount
      simp only [decide_true, Bool.not_true, Bool.and_false, Bool.toNat_false]
      omega
    · simp only [beq_iff_eq, Ne.symm heq, if_false] at hcount
      simp only [heq, decide_false, Bool.not_false, Bool.and_true]
      omega

theorem Matches.mem (h : Matches l p) (hvalid : sigValid sig) (hset : p.getLsbD sig = true) :
    sig ∈ l := by
  have hcount := h.count sig hvalid
  rw [hset] at hcount
  exact List.count_pos_iff.mp (by rw [hcount]; decide)

theorem Matches.booked (h : Matches s.siList s.sigPending) : Booked s := by
  intro signo hvalid
  rw [h.count signo hvalid]
  cases s.sigPending.getLsbD signo <;> simp

/-! ## The invariant -/

def Frame.Sound : Frame → Prop
  | .killing sig => sigValid sig
  | .delivering (.kill recorded) => recorded = true
  | .returning recorded => recorded = true
  | _ => True

def Kill.Sound : Kill → Prop
  | .killing sig => sigValid sig
  | .delivering recorded => recorded = true

/-- The bookkeeping, and what the kills in progress have recorded. -/
structure Recorded (s : State) : Prop where
  list : Matches s.siList s.sigPending
  frames : ∀ f ∈ s.frames, f.Sound
  kills : ∀ context k, s.kills context = some k → k.Sound

/-- The kill behind its appending. -/
theorem Recorded.killAppend (h : Recorded s) (hvalid : sigValid sig)
    (halloc : alloc = !s.sigPending.getLsbD sig) :
    Recorded (killAppend s sig alloc) ∧ queued (killAppend s sig alloc) sig = true := by
  cases hp : s.sigPending.getLsbD sig with
  | true =>
    rw [hp] at halloc
    subst halloc
    have hmem : sig ∈ s.siList := h.list.mem hvalid hp
    exact ⟨h, by simp [Signal.killAppend, queued, hp, hmem]⟩
  | false =>
    rw [hp] at halloc
    subst halloc
    refine ⟨⟨h.list.append hvalid hp, h.frames, h.kills⟩, ?_⟩
    simp [Signal.killAppend, queued, getLsbD_or_sigBit _ hvalid]

/-- The list and the set stay, and new calls are sound. -/
structure Steady (s s' : State) : Prop where
  list : s'.siList = s.siList
  pending : s'.sigPending = s.sigPending
  frames : ∀ f ∈ s'.frames, f ∈ s.frames ∨ f.Sound
  kills : ∀ context k, s'.kills context = some k → s.kills context = some k ∨ k.Sound

theorem Steady.recorded (h : Steady s s') (hs : Recorded s) : Recorded s' := by
  refine ⟨by rw [h.list, h.pending]; exact hs.list, ?_, ?_⟩
  · intro f hf
    rcases h.frames f hf with hold | hsound
    · exact hs.frames f hold
    · exact hsound
  · intro context k hk
    rcases h.kills context k hk with hold | hsound
    · exact hs.kills context k hold
    · exact hsound

theorem Steady.refl (s : State) : Steady s s := ⟨rfl, rfl, fun _ h => .inl h, fun _ _ h => .inl h⟩

theorem steady_push (hlist : s'.siList = s.siList) (hpending : s'.sigPending = s.sigPending)
    (hkills : s'.kills = s.kills) (hframes : s'.frames = f :: s.frames) (hf : f.Sound) :
    Steady s s' := by
  refine ⟨hlist, hpending, ?_, fun _ _ h => .inl (hkills ▸ h)⟩
  intro g hg
  rw [hframes] at hg
  rcases List.mem_cons.mp hg with rfl | hmem
  · exact .inr hf
  · exact .inl hmem

theorem steady_pop (hlist : s'.siList = s.siList) (hpending : s'.sigPending = s.sigPending)
    (hkills : s'.kills = s.kills) (htop : s.frames = f :: s'.frames) : Steady s s' := by
  refine ⟨hlist, hpending, ?_, fun _ _ h => .inl (hkills ▸ h)⟩
  intro g hg
  rw [htop]
  exact .inl (List.mem_cons_of_mem f hg)

theorem Steady.trans {t : State} (h : Steady s s') (h' : Steady s' t) : Steady s t := by
  refine ⟨h'.list.trans h.list, h'.pending.trans h.pending, ?_, ?_⟩
  · intro f hf
    rcases h'.frames f hf with hold | hsound
    · exact h.frames f hold
    · exact .inr hsound
  · intro context k hk
    rcases h'.kills context k hk with hold | hsound
    · exact h.kills context k hold
    · exact .inr hsound

theorem steady_top {g : Frame} (hlist : s'.siList = s.siList)
    (hpending : s'.sigPending = s.sigPending) (hkills : s'.kills = s.kills)
    (htop : s.frames = f :: below) (hframes : s'.frames = g :: below) (hg : g.Sound) :
    Steady s s' := by
  have hpop : Steady s { s with frames := below } := steady_pop rfl rfl rfl htop
  exact hpop.trans (steady_push hlist hpending hkills hframes hg)

theorem steady_setKill (s : State) (context : Nat) {kill : Option Kill}
    (hkill : ∀ k ∈ kill, k.Sound) : Steady s (setKill s context kill) := by
  refine ⟨rfl, rfl, fun _ h => .inl h, ?_⟩
  intro c k hk
  by_cases hc : c = context
  · subst hc
    simp only [setKill, Function.update_self] at hk
    exact .inr (hkill k hk)
  · simp only [setKill, Function.update_of_ne hc] at hk
    exact .inl hk

theorem steady_signalDeliver (s : State) (place : Place) : Steady s (signalDeliver s place) := by
  unfold signalDeliver
  split
  · exact .refl s
  split
  · exact ⟨rfl, rfl, fun _ h => .inl h, fun _ _ h => .inl h⟩
  cases place with
  | self => exact steady_push rfl rfl rfl rfl trivial
  | interrupt => exact ⟨rfl, rfl, fun _ h => .inl h, fun _ _ h => .inl h⟩
  | other =>
    simp only
    split
    · exact .refl s
    · exact steady_push rfl rfl rfl rfl trivial

theorem Recorded.handleRound (hs : Recorded s) (htop : s.frames = f :: below)
    (h : handleRound s cleanState below = some s') : Recorded s' := by
  have hend : Steady s { s with statSignal := false, frames := below } :=
    steady_pop rfl rfl rfl htop
  simp only [Signal.handleRound] at h
  split at h
  · split at h
    · cases h
      exact hend.recorded hs
    · rename_i signo rest hlist
      obtain ⟨vectors, -, rfl⟩ := Option.map_eq_some_iff.mp h
      have hmatch : Matches ([] ++ signo :: rest) s.sigPending := by
        rw [List.nil_append, ← hlist]
        exact hs.list
      refine ⟨hmatch.remove, ?_, hs.kills⟩
      intro g hg
      rcases List.mem_cons.mp hg with rfl | hmem
      · exact trivial
      · refine hs.frames g ?_
        rw [htop]
        exact List.mem_cons_of_mem f hmem
  · cases h
    exact hend.recorded hs

theorem Recorded.handleSig (hs : Recorded s) (htop : s.frames = f :: below)
    (h : handleSig s cleanState below = some s') : Recorded s' := by
  simp only [Signal.handleSig] at h
  split at h
  · exact hs.handleRound htop h
  · cases h
    cases cleanState with
    | true =>
      have hpop : Steady s { s with frames := below } := steady_pop rfl rfl rfl htop
      exact hpop.recorded hs
    | false =>
      have hnext : Steady s { s with frames := .leaving :: below } :=
        steady_top rfl rfl rfl htop rfl trivial
      exact hnext.recorded hs

theorem Recorded.handlerReturned (hs : Recorded s) (htop : s.frames = f :: below)
    (h : handlerReturned s cleanState below = some s') : Recorded s' := by
  have herr : Recorded { s with error := .eintr } := ⟨hs.list, hs.frames, hs.kills⟩
  exact herr.handleRound htop h

theorem Recorded.waitDone (hs : Recorded s) (set : BitVec 32) : Recorded (waitDone s set).1 := by
  unfold Signal.waitDone
  split
  · rename_i signo hfound
    obtain ⟨hin, before, behind, hlist, hbefore⟩ := List.find?_eq_some_iff_append.mp hfound
    have hmatch : Matches (before ++ signo :: behind) s.sigPending := by
      rw [← hlist]
      exact hs.list
    have herase : (s.siList.eraseP fun signo => set.getLsbD signo) = before ++ behind := by
      rw [hlist, List.eraseP_append_right _ fun n hn => by simpa using hbefore n hn,
        List.eraseP_cons_of_pos hin]
    refine ⟨?_, hs.frames, hs.kills⟩
    simp only [herase]
    exact hmatch.remove
  · exact hs

theorem Recorded.waitReturned {set : BitVec 32} (hs : Recorded s) (htop : s.frames = f :: below) :
    Recorded (waitReturned s set below).1 := by
  have hpop : Steady s { s with statSignalWait := false, frames := below } :=
    steady_pop rfl rfl rfl htop
  have hrec := hpop.recorded hs
  simp only [Signal.waitReturned]
  split
  · exact ⟨hrec.list, hrec.frames, hrec.kills⟩
  · exact hrec.waitDone set

/-! ## The calls -/

/-- The state a call leaves, and what a kill returns. -/
structure Answered (s : State) (out : Option Out) : Prop where
  state : Recorded s
  kill : ∀ recorded, out = some (.killed .eok recorded) → recorded = true

theorem Recorded.answered (h : Recorded s) (hout : ∀ recorded, out ≠ some (.killed .eok recorded)) :
    Answered s out :=
  ⟨h, fun recorded heq => absurd heq (hout recorded)⟩

theorem waitDone_out (s : State) (set : BitVec 32) (recorded : Bool) :
    (waitDone s set).2 ≠ some (.killed .eok recorded) := by
  unfold waitDone
  split <;> simp

theorem waitReturned_out (s : State) (set : BitVec 32) (below : List Frame) (recorded : Bool) :
    (waitReturned s set below).2 ≠ some (.killed .eok recorded) := by
  simp only [waitReturned]
  split
  · simp
  · exact waitDone_out _ set recorded

theorem answered_killTest {goOn : State} (hs : Recorded s) (sig : Nat)
    (hgo : sigValid sig → Recorded goOn) :
    Answered (killTest s sig goOn).1 (killTest s sig goOn).2 := by
  unfold killTest
  split
  · rename_i hvalid
    split
    · rename_i hq
      refine ⟨hs, fun recorded heq => ?_⟩
      obtain ⟨-, rfl⟩ := Out.killed.inj (Option.some.inj heq)
      exact hq
    · exact (hgo hvalid).answered (by simp)
  · exact hs.answered (by simp)

theorem answered_rtSignalWait (hs : Recorded s) (set : BitVec 32) (siGiven : Bool) (timeout : Int) :
    Answered (rtSignalWait s set siGiven timeout).1 (rtSignalWait s set siGiven timeout).2 := by
  unfold rtSignalWait
  split
  · exact hs.answered (by simp)
  split
  · exact (hs.waitDone set).answered (waitDone_out s set)
  split
  · exact hs.answered (by simp)
  · have hpush : Steady s
        { s with suspended := true, statSignalWait := true, frames := .waiting set :: s.frames } :=
      steady_push rfl rfl rfl rfl trivial
    exact (hpush.recorded hs).answered (by simp)

theorem steady_rtSignalUnmask (s : State) (signo : Nat) : Steady s (rtSignalUnmask s signo) := by
  simp only [rtSignalUnmask]
  split
  · exact steady_push rfl rfl rfl rfl trivial
  · exact ⟨rfl, rfl, fun _ h => .inl h, fun _ _ h => .inl h⟩

theorem answered_proceed (hs : Recorded s) (hok : Single s (.proceed alloc))
    (h : proceed s alloc = some (s', out)) : Answered s' out := by
  unfold proceed at h
  split at h
  · cases h
  · rename_i sig below htop
    cases h
    have hvalid : sigValid sig := hs.frames (.killing sig) (by simp [htop])
    obtain ⟨hrec, hqueued⟩ := hs.killAppend hvalid (hok sig (by rw [htop]; rfl))
    have htop' : (killAppend s sig alloc).frames = .killing sig :: below := by
      rw [killAppend_frames, htop]
    have hnext : Steady (killAppend s sig alloc)
        { killAppend s sig alloc with
          frames := .delivering (.kill (queued (killAppend s sig alloc) sig)) :: below } :=
      steady_top rfl rfl rfl htop' rfl hqueued
    exact (hnext.recorded hrec).answered (by simp)
  · rename_i below htop
    cases h
    have hpop : Steady s { s with frames := below } := steady_pop rfl rfl rfl htop
    exact ((hpop.trans (steady_signalDeliver _ _)).recorded hs).answered (by simp)
  · rename_i recorded below htop
    cases h
    have hsound : recorded = true := hs.frames (.delivering (.kill recorded)) (by simp [htop])
    have hnext : Steady s { s with frames := .returning recorded :: below } :=
      steady_top rfl rfl rfl htop rfl hsound
    exact ((hnext.trans (steady_signalDeliver _ _)).recorded hs).answered (by simp)
  · rename_i recorded below htop
    cases h
    have hsound : recorded = true := hs.frames (.returning recorded) (by simp [htop])
    have hpop : Steady s { s with frames := below } := steady_pop rfl rfl rfl htop
    refine ⟨hpop.recorded hs, fun r heq => ?_⟩
    obtain ⟨-, rfl⟩ := Out.killed.inj (Option.some.inj heq)
    exact hsound
  · rename_i cleanState below htop
    obtain ⟨t, ht, heq⟩ := Option.map_eq_some_iff.mp h
    cases heq
    exact (hs.handleSig htop ht).answered (by simp)
  · rename_i cleanState signo handler below htop
    cases handler with
    | none =>
      obtain ⟨t, ht, heq⟩ := Option.map_eq_some_iff.mp h
      cases heq
      exact (hs.handlerReturned htop ht).answered (by simp)
    | some handler =>
      cases h
      have hnext : Steady s { s with frames := .running cleanState :: below } :=
        steady_top rfl rfl rfl htop rfl trivial
      exact (hnext.recorded hs).answered (by simp)
  · rename_i cleanState below htop
    obtain ⟨t, ht, heq⟩ := Option.map_eq_some_iff.mp h
    cases heq
    exact (hs.handlerReturned htop ht).answered (by simp)
  · rename_i below htop
    cases h
    have hpop : Steady s { s with statSignal := false, frames := below } :=
      steady_pop rfl rfl rfl htop
    exact (hpop.recorded hs).answered (by simp)
  · rename_i set below htop
    obtain ⟨-, hr⟩ := Option.ite_none_left_eq_some.mp h
    have hanswer : Answered (waitReturned s set below).1 (waitReturned s set below).2 :=
      (hs.waitReturned htop).answered (waitReturned_out s set below)
    rw [Option.some.inj hr] at hanswer
    exact hanswer

theorem answered_proceedBy {context : Nat} {current : Bool} (hs : Recorded s)
    (hok : Single s (.proceedBy context alloc current))
    (h : proceedBy s context alloc current = some (s', out)) : Answered s' out := by
  unfold proceedBy at h
  split at h
  · cases h
  · rename_i sig hkill
    cases h
    have hvalid : sigValid sig := hs.kills context _ hkill
    obtain ⟨hrec, hqueued⟩ := hs.killAppend hvalid (hok sig (by rw [hkill]; rfl))
    have hnext : Steady (killAppend s sig alloc)
        (setKill (killAppend s sig alloc) context
          (some (.delivering (queued (killAppend s sig alloc) sig)))) := by
      refine steady_setKill _ context fun k hk => ?_
      cases hk
      exact hqueued
    exact (hnext.recorded hrec).answered (by simp)
  · rename_i recorded hkill
    cases h
    have hsound : recorded = true := hs.kills context _ hkill
    have hnone : ∀ k ∈ (none : Option Kill), k.Sound := by simp
    have hdone := (steady_signalDeliver s (if current then .interrupt else .other)).trans
      (steady_setKill _ context hnone)
    refine ⟨hdone.recorded hs, fun r heq => ?_⟩
    obtain ⟨-, rfl⟩ := Out.killed.inj (Option.some.inj heq)
    exact hsound

theorem answered_call (hs : Recorded s) (hok : Single s op) (h : call s op = some (s', out)) :
    Answered s' out := by
  have hsame : ∀ (t : State) (o : Option Out), t.siList = s.siList →
      t.sigPending = s.sigPending → t.frames = s.frames → t.kills = s.kills →
      (∀ recorded, o ≠ some (.killed .eok recorded)) → Answered t o := by
    intro t o hlist hpending hframes hkills hout
    have hsteady : Steady s t :=
      ⟨hlist, hpending, fun _ hf => .inl (hframes ▸ hf), fun _ _ hk => .inl (hkills ▸ hk)⟩
    exact (hsteady.recorded hs).answered hout
  cases op with
  | install signo action =>
    obtain ⟨-, hr⟩ := Option.ite_none_right_eq_some.mp h
    unfold rtSignalInstall at hr
    split at hr
    · cases hr
      exact hsame _ _ rfl rfl rfl rfl (by simp)
    · cases hr
      exact hs.answered (by simp)
  | mask | suspend | setError | resume | timeout =>
    obtain ⟨-, rfl, rfl⟩ := guarded_inj h
    exact hsame _ _ rfl rfl rfl rfl (by simp)
  | unmask signo =>
    obtain ⟨-, rfl, rfl⟩ := guarded_inj h
    exact ((steady_rtSignalUnmask s signo).recorded hs).answered (by simp)
  | kill sig =>
    obtain ⟨-, hr⟩ := Option.ite_none_right_eq_some.mp h
    have hgo : sigValid sig → Recorded { s with frames := .killing sig :: s.frames } := by
      intro hvalid
      have hpush : Steady s { s with frames := .killing sig :: s.frames } :=
        steady_push rfl rfl rfl rfl hvalid
      exact hpush.recorded hs
    have hanswer := answered_killTest hs sig hgo
    rw [Option.some.inj hr] at hanswer
    exact hanswer
  | wait set siGiven timeout =>
    obtain ⟨-, hr⟩ := Option.ite_none_right_eq_some.mp h
    have hanswer := answered_rtSignalWait hs set siGiven timeout
    rw [Option.some.inj hr] at hanswer
    exact hanswer
  | proceed alloc =>
    obtain ⟨-, hr⟩ := Option.ite_none_right_eq_some.mp h
    exact answered_proceed hs hok hr
  | scheduled =>
    obtain ⟨-, rfl, rfl⟩ := guarded_inj h
    have hpush : Steady s
        { s with statSignalPending := false, frames := .handling true :: s.frames } :=
      steady_push rfl rfl rfl rfl trivial
    exact (hpush.recorded hs).answered (by simp)
  | killBy context sig =>
    obtain ⟨-, hr⟩ := Option.ite_none_right_eq_some.mp h
    have hgo : sigValid sig → Recorded (setKill s context (some (.killing sig))) := by
      intro hvalid
      refine (steady_setKill s context fun k hk => ?_).recorded hs
      cases hk
      exact hvalid
    have hanswer := answered_killTest hs sig hgo
    rw [Option.some.inj hr] at hanswer
    exact hanswer
  | proceedBy context alloc current => exact answered_proceedBy hs hok h

theorem step_recorded (hs : Recorded s) (hok : Single s op) (h : step s op = some s') :
    Recorded s' := by
  obtain ⟨r, hr, rfl⟩ := Option.map_eq_some_iff.mp h
  exact (answered_call hs hok hr).state

theorem recorded_init : Recorded init :=
  ⟨⟨by simp [init], by simp [init]⟩, by simp [init], by simp [init]⟩

/-- In a run whose kills each append the only node of their signal, a signal is pending exactly
when one node of it is queued, and a kill that returns `RT_EOK` has recorded its signal. -/
theorem pending_signals_booked (ops : List Op) (hok : Runs.Along step Single init ops) :
    Runs.Always step Booked init ops ∧ Runs.Along step KillsRecorded init ops := by
  constructor
  · exact hok.always (fun _ _ _ => step_recorded) (fun _ hs => hs.list.booked) recorded_init
  · refine hok.of_invariant (fun _ _ _ => step_recorded) ?_ recorded_init
    intro s op hs hsingle s' recorded h
    exact (answered_call hs hsingle h).kill recorded rfl

theorem pending_signals_booked_two :
    Runs.Always step Booked init
        [.killBy 0 3, .proceedBy 0 true false, .killBy 1 3, .proceedBy 0 true false] ∧
      Runs.Along step KillsRecorded init
        [.killBy 0 3, .proceedBy 0 true false, .killBy 1 3, .proceedBy 0 true false] :=
  pending_signals_booked _ (by decide +kernel)

/-- Two kills that both find the signal not pending append two nodes; the kill that gets no node
returns `RT_EOK`. -/
theorem pending_signals_not_booked :
    (∃ s, Runs.run step init
        [.killBy 0 3, .killBy 1 3, .proceedBy 0 true false, .proceedBy 1 true false] = some s ∧
      s.sigPending.getLsbD 3 = true ∧ s.siList = [3, 3] ∧ ¬ Booked s) ∧
    ∃ s s', Runs.run step init [.killBy 0 3, .proceedBy 0 false false] = some s ∧
      call s (.proceedBy 0 true false) = some (s', some (.killed .eok false)) ∧
      ¬ KillsRecorded s (.proceedBy 0 true false) := by
  constructor
  · have hrun : ((Runs.run step init
        [.killBy 0 3, .killBy 1 3, .proceedBy 0 true false, .proceedBy 1 true false]).map
          fun s => (s.sigPending.getLsbD 3, s.siList)) = some (true, [3, 3]) := by decide +kernel
    obtain ⟨s, hs, heq⟩ := Option.map_eq_some_iff.mp hrun
    obtain ⟨hset, hlist⟩ := Prod.mk.inj heq
    refine ⟨s, hs, hset, hlist, fun hbooked => ?_⟩
    have hone := (hbooked 3 (by decide)).mp hset
    rw [hlist] at hone
    exact absurd hone (by decide)
  · have hrun : ((Runs.run step init [.killBy 0 3, .proceedBy 0 false false]).bind fun s =>
        (call s (.proceedBy 0 true false)).map Prod.snd) =
          some (some (.killed .eok false)) := by decide +kernel
    obtain ⟨s, hs, hcall⟩ := Option.bind_eq_some_iff.mp hrun
    obtain ⟨⟨s', out⟩, hr, rfl⟩ := Option.map_eq_some_iff.mp hcall
    exact ⟨s, s', hs, hr, fun hrec => absurd (hrec s' false hr) (by decide)⟩

end RtThread.Signal
