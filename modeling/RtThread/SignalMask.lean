import RtThread.Signal

/-!
# Masked signals

Which handlers are called, and which nodes stay in the list, seen against the mask.
`rt_thread_handle_sig` removes the first node whatever its signal, so the order of the
queue decides; between the removal and the call of the handler the mask has to stay.
-/
namespace RtThread.Signal

def Unmasked (s : State) (signo : Nat) : Prop := s.sigMask.getLsbD signo = true

instance (s : State) (signo : Nat) : Decidable (Unmasked s signo) :=
  inferInstanceAs (Decidable (_ = _))

/-- The nodes of masked signals, in the order of the list. -/
def masked (s : State) : List Nat := s.siList.filter fun signo => decide (¬ Unmasked s signo)

/-- The step calls no handler of a masked signal, and takes no node of a masked signal out of
the list unless `rt_signal_wait` returns it. -/
def Respects (s : State) (op : Op) : Prop :=
  ∀ s' out, call s op = some (s', out) →
    (∀ signo handler, out = some (.invoked signo handler) → Unmasked s signo) ∧
      ((∀ signo, out ≠ some (.waited .eok (some signo))) → (masked s).Sublist s'.siList)

/-- The signal whose handler is about to be called. -/
def Frame.called : Frame → Option Nat
  | .calling _ signo (some _) => some signo
  | _ => none

/-- The next section is a test of the loop of `rt_thread_handle_sig`. -/
def startsRound (s : State) : Bool :=
  match s.frames with
  | .handling _ :: _ => !s.statSignalWait
  | .calling _ _ none :: _ => true
  | .running _ :: _ => true
  | _ => false

/-- When the loop is about to remove a node, the signal queued first is unmasked; and no signal
is masked between the removal of its node and the call of its handler. -/
def Orderly (s : State) : Op → Prop
  | .proceed _ => startsRound s → s.sigPending &&& s.sigMask ≠ 0 →
      ∀ signo ∈ s.siList.head?, Unmasked s signo
  | .mask signo => ∀ f ∈ s.frames, f.called ≠ some signo
  | _ => True

instance (s : State) : (op : Op) → Decidable (Orderly s op)
  | .proceed _ => by unfold Orderly; infer_instance
  | .mask _ => by unfold Orderly; infer_instance
  | .install _ _ | .unmask _ | .kill _ | .wait _ _ _ | .suspend _ | .setError _ | .scheduled
  | .resume | .timeout | .killBy _ _ | .proceedBy _ _ _ => .isTrue trivial

/-- Every handler about to be called is that of an unmasked signal. -/
def Inv (s : State) : Prop := ∀ f ∈ s.frames, ∀ signo, f.called = some signo → Unmasked s signo

/-! ## The sections -/

/-- A section that takes nothing out of the list and makes no handler about to be called. -/
structure Keeps (s s' : State) : Prop where
  mask : ∀ signo, Unmasked s signo → Unmasked s' signo
  list : s.siList.Sublist s'.siList
  frames : ∀ f ∈ s'.frames, f ∈ s.frames ∨ f.called = none

/-- What the step has to show, behind the call that returned `s'` and `out`. -/
structure Good (s s' : State) (out : Option Out) : Prop where
  invoked : ∀ signo handler, out = some (.invoked signo handler) → Unmasked s signo
  stays : (∀ signo, out ≠ some (.waited .eok (some signo))) → (masked s).Sublist s'.siList
  inv : Inv s'

theorem masked_sublist (s : State) : (masked s).Sublist s.siList := List.filter_sublist

variable {s t s' : State} {out : Option Out} {f : Frame} {below : List Frame}
  {alloc cleanState : Bool} {signo : Nat} {op : Op}

theorem Keeps.inv (h : Keeps s s') (hs : Inv s) : Inv s' := by
  intro f hf signo hcalled
  rcases h.frames f hf with hmem | hnone
  · exact h.mask signo (hs f hmem signo hcalled)
  · rw [hnone] at hcalled
    cases hcalled

theorem Keeps.good (h : Keeps s s') (hs : Inv s)
    (hout : ∀ signo handler, out ≠ some (.invoked signo handler)) : Good s s' out :=
  ⟨fun signo handler heq => absurd heq (hout signo handler),
    fun _ => (masked_sublist s).trans h.list, h.inv hs⟩

theorem Keeps.refl (s : State) : Keeps s s :=
  ⟨fun _ h => h, List.Sublist.refl _, fun _ h => .inl h⟩

theorem Keeps.trans (h : Keeps s s') (h' : Keeps s' t) : Keeps s t := by
  refine ⟨fun signo hu => h'.mask signo (h.mask signo hu), h.list.trans h'.list, ?_⟩
  intro f hf
  rcases h'.frames f hf with hmem | hnone
  · exact h.frames f hmem
  · exact .inr hnone

/-- A call that begins. -/
theorem keeps_push (hmask : s'.sigMask = s.sigMask) (hlist : s'.siList = s.siList)
    (hframes : s'.frames = f :: s.frames) (hf : f.called = none) : Keeps s s' := by
  refine ⟨fun signo h => by rw [Unmasked, hmask]; exact h, by rw [hlist], ?_⟩
  intro g hg
  rw [hframes] at hg
  rcases List.mem_cons.mp hg with rfl | hmem
  · exact .inr hf
  · exact .inl hmem

/-- The call on top returns. -/
theorem keeps_pop (hmask : s'.sigMask = s.sigMask) (hlist : s'.siList = s.siList)
    (htop : s.frames = f :: s'.frames) : Keeps s s' := by
  refine ⟨fun signo h => by rw [Unmasked, hmask]; exact h, by rw [hlist], ?_⟩
  intro g hg
  rw [htop]
  exact .inl (List.mem_cons_of_mem f hg)

/-- The call on top goes on. -/
theorem keeps_top {g : Frame} (hmask : s'.sigMask = s.sigMask) (hlist : s'.siList = s.siList)
    (htop : s.frames = f :: below) (hframes : s'.frames = g :: below) (hg : g.called = none) :
    Keeps s s' := by
  have hpop : Keeps s { s with frames := below } := keeps_pop rfl rfl htop
  exact hpop.trans (keeps_push hmask hlist hframes hg)

theorem keeps_killAppend (s : State) (sig : Nat) (alloc : Bool) :
    Keeps s (killAppend s sig alloc) := by
  cases alloc with
  | false => exact .refl s
  | true => exact ⟨fun _ h => h, List.sublist_append_left _ _, fun _ h => .inl h⟩

theorem keeps_signalDeliver (s : State) (place : Place) : Keeps s (signalDeliver s place) := by
  unfold signalDeliver
  split
  · exact .refl s
  · split
    · exact ⟨fun _ h => h, List.Sublist.refl _, fun _ h => .inl h⟩
    · cases place with
      | self => exact keeps_push rfl rfl rfl rfl
      | interrupt => exact ⟨fun _ h => h, List.Sublist.refl _, fun _ h => .inl h⟩
      | other =>
        simp only
        split
        · exact .refl s
        · exact keeps_push rfl rfl rfl rfl

theorem good_handleRound (hs : Inv s) (htop : s.frames = f :: below)
    (hhead : s.sigPending &&& s.sigMask ≠ 0 → ∀ signo ∈ s.siList.head?, Unmasked s signo)
    (h : handleRound s cleanState below = some s') : Good s s' none := by
  have hend : Good s { s with statSignal := false, frames := below } none := by
    have hkeep : Keeps s { s with statSignal := false, frames := below } :=
      keeps_pop rfl rfl htop
    exact hkeep.good hs (by simp)
  simp only [handleRound] at h
  split at h
  · rename_i hpending
    split at h
    · cases h
      exact hend
    · rename_i signo rest hlist
      obtain ⟨vectors, -, rfl⟩ := Option.map_eq_some_iff.mp h
      have hun : Unmasked s signo := hhead hpending signo (by rw [hlist]; rfl)
      refine ⟨by simp, fun _ => ?_, ?_⟩
      · rw [masked, hlist, List.filter_cons_of_neg (by simpa using hun)]
        exact List.filter_sublist
      · intro g hg n hcalled
        rcases List.mem_cons.mp hg with rfl | hmem
        · have hn : n = signo := by
            cases hv : vectors signo with
            | none => simp [Frame.called, hv] at hcalled
            | some handler => simpa [Frame.called, hv] using hcalled.symm
          rw [hn]
          exact hun
        · have hin : g ∈ s.frames := by
            rw [htop]
            exact List.mem_cons_of_mem f hmem
          exact hs g hin n hcalled
  · cases h
    exact hend

theorem good_handleSig (hs : Inv s) (htop : s.frames = f :: below)
    (hhead : s.statSignalWait = false → s.sigPending &&& s.sigMask ≠ 0 →
      ∀ signo ∈ s.siList.head?, Unmasked s signo) (h : handleSig s cleanState below = some s') :
    Good s s' none := by
  simp only [handleSig] at h
  split at h
  · rename_i hloop
    exact good_handleRound hs htop (hhead hloop.2) h
  · cases h
    cases cleanState with
    | true =>
      have hkeep : Keeps s { s with frames := below } := keeps_pop rfl rfl htop
      exact hkeep.good hs (by simp)
    | false =>
      have hkeep : Keeps s { s with frames := .leaving :: below } :=
        keeps_top rfl rfl htop rfl rfl
      exact hkeep.good hs (by simp)

theorem good_handlerReturned (hs : Inv s) (htop : s.frames = f :: below)
    (hhead : s.sigPending &&& s.sigMask ≠ 0 → ∀ signo ∈ s.siList.head?, Unmasked s signo)
    (h : handlerReturned s cleanState below = some s') : Good s s' none := by
  have hgood : Good { s with error := .eintr } s' none :=
    good_handleRound hs htop hhead h
  exact ⟨hgood.invoked, hgood.stays, hgood.inv⟩

/-- `rt_signal_wait` only takes the node it returns. -/
theorem good_waitDone (hkeep : Keeps s t) (hs : Inv s) (set : BitVec 32) :
    Good s (waitDone t set).1 (waitDone t set).2 := by
  unfold waitDone
  split
  · rename_i signo hfound
    have hinv : Inv t := hkeep.inv hs
    exact ⟨by simp, fun hno => absurd rfl (hno signo), hinv⟩
  · exact hkeep.good hs (by simp)

theorem good_waitReturned (hs : Inv s) (set : BitVec 32) (htop : s.frames = f :: below) :
    Good s (waitReturned s set below).1 (waitReturned s set below).2 := by
  have hkeep : Keeps s { s with statSignalWait := false, frames := below } :=
    keeps_pop rfl rfl htop
  simp only [waitReturned]
  split
  · have hreset : Keeps s { s with error := .eok, statSignalWait := false, frames := below } :=
      keeps_pop rfl rfl htop
    exact hreset.good hs (by simp)
  · exact good_waitDone hkeep hs set

theorem good_rtSignalWait (hs : Inv s) (set : BitVec 32) (siGiven : Bool) (timeout : Int) :
    Good s (rtSignalWait s set siGiven timeout).1 (rtSignalWait s set siGiven timeout).2 := by
  unfold rtSignalWait
  split
  · exact (Keeps.refl s).good hs (by simp)
  split
  · exact good_waitDone (.refl s) hs set
  split
  · exact (Keeps.refl s).good hs (by simp)
  · have hkeep : Keeps s
        { s with suspended := true, statSignalWait := true, frames := .waiting set :: s.frames } :=
      keeps_push rfl rfl rfl rfl
    exact hkeep.good hs (by simp)

theorem keeps_rtSignalUnmask (s : State) (hvalid : sigValid signo) :
    Keeps s (rtSignalUnmask s signo) := by
  have hunmask : Keeps s { s with sigMask := s.sigMask ||| sigBit signo } := by
    refine ⟨fun n hn => ?_, List.Sublist.refl _, fun _ h => .inl h⟩
    rw [Unmasked] at hn ⊢
    simp only
    rw [getLsbD_or_sigBit _ hvalid, hn, Bool.true_or]
  simp only [rtSignalUnmask]
  split
  · exact hunmask.trans (keeps_push rfl rfl rfl rfl)
  · exact hunmask

/-- Masking a signal whose handler is not about to be called. -/
theorem good_rtSignalMask (hs : Inv s) (hvalid : sigValid signo)
    (hfree : ∀ f ∈ s.frames, f.called ≠ some signo) : Good s (rtSignalMask s signo) none := by
  refine ⟨by simp, fun _ => masked_sublist s, ?_⟩
  intro f hf n hcalled
  have hne : n ≠ signo := fun heq => hfree f hf (heq ▸ hcalled)
  have hun : s.sigMask.getLsbD n = true := hs f hf n hcalled
  have hlt : n < 32 := BitVec.lt_of_getLsbD hun
  rw [Unmasked, rtSignalMask]
  simp only
  rw [getLsbD_and_not_sigBit _ hvalid hlt, hun]
  simp [hne]

theorem good_killTest {goOn : State} (hs : Inv s) (hgo : Keeps s goOn) (sig : Nat) :
    Good s (killTest s sig goOn).1 (killTest s sig goOn).2 := by
  unfold killTest
  split
  · split
    · exact (Keeps.refl s).good hs (by simp)
    · exact hgo.good hs (by simp)
  · exact (Keeps.refl s).good hs (by simp)

theorem good_proceed (hs : Inv s) (hok : Orderly s (.proceed alloc))
    (h : proceed s alloc = some (s', out)) : Good s s' out := by
  unfold proceed at h
  split at h
  · cases h
  · rename_i sig below htop
    cases h
    have htop' : (killAppend s sig alloc).frames = .killing sig :: below := by
      rw [killAppend_frames, htop]
    have hnext : Keeps (killAppend s sig alloc)
        { killAppend s sig alloc with
          frames := .delivering (.kill (queued (killAppend s sig alloc) sig)) :: below } :=
      keeps_top rfl rfl htop' rfl rfl
    exact ((keeps_killAppend s sig alloc).trans hnext).good hs (by simp)
  · rename_i below htop
    cases h
    have hpop : Keeps s { s with frames := below } := keeps_pop rfl rfl htop
    exact (hpop.trans (keeps_signalDeliver _ _)).good hs (by simp)
  · rename_i recorded below htop
    cases h
    have htop' : Keeps s { s with frames := .returning recorded :: below } :=
      keeps_top rfl rfl htop rfl rfl
    exact (htop'.trans (keeps_signalDeliver _ _)).good hs (by simp)
  · rename_i recorded below htop
    cases h
    have hpop : Keeps s { s with frames := below } := keeps_pop rfl rfl htop
    exact hpop.good hs (by simp)
  · rename_i cleanState below htop
    obtain ⟨t, ht, heq⟩ := Option.map_eq_some_iff.mp h
    cases heq
    refine good_handleSig hs htop (fun hwait => hok ?_) ht
    simp [startsRound, htop, hwait]
  · rename_i cleanState signo handler below htop
    cases handler with
    | none =>
      obtain ⟨t, ht, heq⟩ := Option.map_eq_some_iff.mp h
      cases heq
      refine good_handlerReturned hs htop (hok ?_) ht
      simp [startsRound, htop]
    | some handler =>
      cases h
      have hkeep : Keeps s { s with frames := .running cleanState :: below } :=
        keeps_top rfl rfl htop rfl rfl
      have hun : Unmasked s signo := by
        refine hs (.calling cleanState signo (some handler)) ?_ signo rfl
        rw [htop]
        exact List.mem_cons_self
      refine ⟨fun n g heq => ?_, fun _ => masked_sublist s, hkeep.inv hs⟩
      obtain ⟨rfl, rfl⟩ := Out.invoked.inj (Option.some.inj heq)
      exact hun
  · rename_i cleanState below htop
    obtain ⟨t, ht, heq⟩ := Option.map_eq_some_iff.mp h
    cases heq
    refine good_handlerReturned hs htop (hok ?_) ht
    simp [startsRound, htop]
  · rename_i below htop
    cases h
    have hpop : Keeps s { s with statSignal := false, frames := below } := keeps_pop rfl rfl htop
    exact hpop.good hs (by simp)
  · rename_i set below htop
    obtain ⟨-, hr⟩ := Option.ite_none_left_eq_some.mp h
    have hgood := good_waitReturned hs set htop
    rw [Option.some.inj hr] at hgood
    exact hgood

theorem keeps_setKill (s : State) (context : Nat) (kill : Option Kill) :
    Keeps s (setKill s context kill) :=
  ⟨fun _ h => h, List.Sublist.refl _, fun _ h => .inl h⟩

theorem good_proceedBy {context : Nat} {current : Bool} (hs : Inv s)
    (h : proceedBy s context alloc current = some (s', out)) : Good s s' out := by
  unfold proceedBy at h
  split at h
  · cases h
  · rename_i sig hkill
    cases h
    exact ((keeps_killAppend s sig alloc).trans (keeps_setKill _ _ _)).good hs (by simp)
  · rename_i recorded hkill
    cases h
    exact ((keeps_signalDeliver s _).trans (keeps_setKill _ _ _)).good hs (by simp)

theorem good_call (hs : Inv s) (hok : Orderly s op) (h : call s op = some (s', out)) :
    Good s s' out := by
  have hsame : ∀ (t : State) (o : Option Out), t.sigMask = s.sigMask → t.siList = s.siList →
      t.frames = s.frames → (∀ signo handler, o ≠ some (.invoked signo handler)) → Good s t o := by
    intro t o hmask hlist hframes hout
    have hkeep : Keeps s t :=
      ⟨fun signo h => by rw [Unmasked, hmask]; exact h, by rw [hlist],
        fun f hf => .inl (hframes ▸ hf)⟩
    exact hkeep.good hs hout
  cases op with
  | install signo action =>
    obtain ⟨-, hr⟩ := Option.ite_none_right_eq_some.mp h
    unfold rtSignalInstall at hr
    split at hr
    · cases hr
      exact hsame _ _ rfl rfl rfl (by simp)
    · cases hr
      exact (Keeps.refl s).good hs (by simp)
  | mask signo =>
    obtain ⟨⟨-, -, hvalid⟩, hr⟩ := Option.ite_none_right_eq_some.mp h
    cases hr
    exact good_rtSignalMask hs hvalid hok
  | unmask signo =>
    obtain ⟨⟨-, -, hvalid⟩, hr⟩ := Option.ite_none_right_eq_some.mp h
    cases hr
    exact (keeps_rtSignalUnmask s hvalid).good hs (by simp)
  | kill sig =>
    obtain ⟨-, hr⟩ := Option.ite_none_right_eq_some.mp h
    have hpush : Keeps s { s with frames := .killing sig :: s.frames } :=
      keeps_push rfl rfl rfl rfl
    have hgood := good_killTest hs hpush sig
    rw [Option.some.inj hr] at hgood
    exact hgood
  | wait set siGiven timeout =>
    obtain ⟨-, hr⟩ := Option.ite_none_right_eq_some.mp h
    have hgood := good_rtSignalWait hs set siGiven timeout
    rw [Option.some.inj hr] at hgood
    exact hgood
  | suspend | setError | resume | timeout =>
    obtain ⟨-, rfl, rfl⟩ := guarded_inj h
    exact hsame _ _ rfl rfl rfl (by simp)
  | proceed alloc =>
    obtain ⟨-, hr⟩ := Option.ite_none_right_eq_some.mp h
    exact good_proceed hs hok hr
  | scheduled =>
    obtain ⟨-, rfl, rfl⟩ := guarded_inj h
    have hpush : Keeps s
        { s with statSignalPending := false, frames := .handling true :: s.frames } :=
      keeps_push rfl rfl rfl rfl
    exact hpush.good hs (by simp)
  | killBy context sig =>
    obtain ⟨-, hr⟩ := Option.ite_none_right_eq_some.mp h
    have hgood := good_killTest hs (keeps_setKill s context (some (.killing sig))) sig
    rw [Option.some.inj hr] at hgood
    exact hgood
  | proceedBy context alloc current => exact good_proceedBy hs h

theorem inv_init : Inv init := fun _ h => absurd h (by simp [init])

theorem respects_of_inv (hs : Inv s) (hok : Orderly s op) : Respects s op := by
  intro s' out h
  have hgood := good_call hs hok h
  exact ⟨hgood.invoked, hgood.stays⟩

theorem step_inv (hs : Inv s) (hok : Orderly s op) (h : step s op = some s') : Inv s' := by
  obtain ⟨r, hr, rfl⟩ := Option.map_eq_some_iff.mp h
  exact (good_call hs hok hr).inv

/-- In a run whose deliveries find an unmasked signal first in the queue, no handler of a masked
signal is called, and the nodes of masked signals stay queued. -/
theorem signal_mask_respected (ops : List Op) (hok : Runs.Along step Orderly init ops) :
    Runs.Along step Respects init ops :=
  hok.of_invariant (fun _ _ _ => step_inv) (fun _ _ => respects_of_inv) inv_init

theorem signal_mask_respected_unmasked :
    Runs.Along step Respects init
      [.install 1 (.user 100), .unmask 1, .kill 1, .proceed true, .proceed false, .proceed false,
        .proceed false, .proceed false, .proceed false] :=
  signal_mask_respected _ (by decide +kernel)

/-- A masked signal queued in front of an unmasked one: its handler is called. -/
theorem masked_handler_called :
    ∃ s s', Runs.run step init
        [.install 1 (.user 100), .install 2 (.user 200), .unmask 2, .kill 1, .proceed true,
          .proceed false, .proceed false, .kill 2, .proceed true, .proceed false,
          .proceed false] = some s ∧
      call s (.proceed false) = some (s', some (.invoked 1 (.user 100))) ∧
      ¬ Unmasked s 1 ∧ ¬ Respects s (.proceed false) := by
  have hrun : ((Runs.run step init
      [.install 1 (.user 100), .install 2 (.user 200), .unmask 2, .kill 1, .proceed true,
        .proceed false, .proceed false, .kill 2, .proceed true, .proceed false,
        .proceed false]).bind fun s =>
          (call s (.proceed false)).map fun r => (r.2, decide (Unmasked s 1))) =
      some (some (.invoked 1 (.user 100)), false) := by decide +kernel
  obtain ⟨s, hs, hcall⟩ := Option.bind_eq_some_iff.mp hrun
  obtain ⟨⟨s', out⟩, hr, heq⟩ := Option.map_eq_some_iff.mp hcall
  obtain ⟨rfl, hmask⟩ := Prod.mk.inj heq
  have hno : ¬ Unmasked s 1 := of_decide_eq_false hmask
  exact ⟨s, s', hs, hr, hno, fun hresp => hno ((hresp s' _ hr).1 1 _ rfl)⟩

end RtThread.Signal
