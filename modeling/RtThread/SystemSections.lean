import RtThread.Rotation
import RtThread.System

/-!
# What a section does

Every section of an IPC function changes the kernel by a few actions on single
threads and ends, or does not end, with a schedule. What the actions and the
schedule preserve, every section preserves.
-/
namespace RtThread.System

open Scheduler Thread ReadyQueue

/-- The thread asked for all of its events or for one of them. -/
def Asked (info : Event.Info) : Prop := info &&& Event.flagAnd ≠ 0 ∨ info &&& Event.flagOr ≠ 0

/-- The states differ in the data of the objects only. -/
structure SameControl (s s' : State) : Prop where
  kernel : s'.kernel = s.kernel
  list : s'.list = s.list
  mutex : s'.mutex = s.mutex
  eventInfo : s'.eventInfo = s.eventInfo

/-- The priority of a thread, or the one recorded in a mutex that is taken. -/
def Known (s : State) (p : Nat) : Prop :=
  (∃ u, p = (s.kernel.thread u).currentPriority) ∨
    ∃ i, (s.mutex i).owner ≠ none ∧ p = (s.mutex i).originalPriority

/-- The actions of a section before its schedule. -/
inductive Acts (c : Config) (s : State) : State → Prop where
  | refl : Acts c s s
  | data {s₁ s₂ : State} : Acts c s s₁ → SameControl s₁ s₂ → Acts c s s₂
  | setMutex {s₁ : State} (i : ObjId) (x : RtMutex) : Acts c s s₁ →
      (x.owner ≠ none → Known s₁ x.originalPriority) → Acts c s (setMutex s₁ i x)
  | setEventInfo {s₁ : State} (t : ThreadId) (set : Event.EventSet) (info : Event.Info) :
      Acts c s s₁ → Asked info → Acts c s (setEventInfo s₁ t set info)
  | setError {s₁ : State} (t : ThreadId) (err : RtErr) : Acts c s s₁ → Acts c s (setError s₁ t err)
  | setPriority {s₁ : State} (t : ThreadId) (p : Nat) : Acts c s s₁ → Known s₁ p →
      Acts c s (setPriority c s₁ t p)
  | resume {s₁ : State} (t : ThreadId) : Acts c s s₁ → Acts c s (resume c s₁ t)
  | suspendFor {s₁ : State} {k : Kernel} {l : WaitList} {ts : List ThreadId} {t : ThreadId}
      {timeout : BitVec 32} : Acts c s s₁ → suspendFor c s₁.kernel t timeout = some k →
      (∀ u ∈ ts, u = t ∨ u ∈ s₁.list l) → (∀ i, l = .event i → Asked (s₁.eventInfo t)) →
      Acts c s { s₁ with kernel := k, list := Function.update s₁.list l ts }

/-- Some actions and a schedule. -/
def Scheduled (c : Config) (s s' : State) : Prop := ∃ s₁, Acts c s s₁ ∧ schedule c s₁ = some s'

/-- A section: some actions, and perhaps a schedule. -/
def Section (c : Config) (s s' : State) : Prop :=
  ∃ s₁, Acts c s s₁ ∧ (s' = s₁ ∨ schedule c s₁ = some s')

variable {c : Config} {s s₁ s' : State} {t : ThreadId} {p : Progress}

theorem Acts.section (h : Acts c s s') : Section c s s' := ⟨s', h, .inl rfl⟩

theorem Acts.returns {r r' : Progress} (h : Acts c s s₁) (hs : some (s₁, r) = some (s', r')) :
    Section c s s' := by
  cases hs
  exact h.section

theorem Acts.schedule (h : Acts c s s₁) (hs : schedule c s₁ = some s') : Section c s s' :=
  ⟨s₁, h, .inr hs⟩

theorem Scheduled.section (h : Scheduled c s s') : Section c s s' := by
  obtain ⟨s₁, ha, hs⟩ := h
  exact ha.schedule hs

theorem schedule_eq (hs : schedule c s = some s') :
    ∃ k, rtSchedule c s.kernel = some k ∧ s' = { s with kernel := k } := by
  obtain ⟨k, hk, rfl⟩ := Option.map_eq_some_iff.mp hs
  exact ⟨k, hk, rfl⟩

/-! ## The parts the functions share -/

theorem Acts.setSem (h : Acts c s s₁) (i : ObjId) (value : Nat) : Acts c s (setSem s₁ i value) :=
  h.data ⟨rfl, rfl, rfl, rfl⟩

theorem Acts.setEvent (h : Acts c s s₁) (i : ObjId) (set : Event.EventSet) :
    Acts c s (setEvent s₁ i set) :=
  h.data ⟨rfl, rfl, rfl, rfl⟩

theorem Acts.setMb (h : Acts c s s₁) (i : ObjId) (mb : Mailbox.RtMailbox) :
    Acts c s (setMb s₁ i mb) :=
  h.data ⟨rfl, rfl, rfl, rfl⟩

theorem Acts.setMq (h : Acts c s s₁) (i : ObjId) (mq : MessageQueue.RtMq) :
    Acts c s (setMq s₁ i mq) :=
  h.data ⟨rfl, rfl, rfl, rfl⟩

theorem Acts.setBlock (h : Acts c s s₁) (i : ObjId) (x : RtMempool) (b : Block) (y : Header) :
    Acts c s (setHeader (setMempool s₁ i x) b y) :=
  h.data ⟨rfl, rfl, rfl, rfl⟩

variable {l : WaitList} {insert : List ThreadId → List ThreadId} {time timeout : BitVec 32}
  {k k' : Kernel} {ts : List ThreadId} {out : Out} {set : Event.EventSet} {i : ObjId}
  {value : Mailbox.Mail} {data : List MessageQueue.Byte} {slot : MessageQueue.Slot} {size : Nat}
  {op : Op}

theorem scheduled_wait (h : Acts c s s₁) (hmem : ∀ u ∈ insert (s₁.list l), u = t ∨ u ∈ s₁.list l)
    (hevent : ∀ i, l = .event i → Asked (s₁.eventInfo t))
    (hw : wait c s₁ l insert t timeout = some (s', p)) : Scheduled c s s' := by
  obtain ⟨k, hk, hw⟩ := Option.bind_eq_some_iff.mp hw
  obtain ⟨k', hk', hw⟩ := Option.bind_eq_some_iff.mp hw
  cases hw
  refine ⟨_, h.suspendFor hk hmem hevent, ?_⟩
  rw [System.schedule, hk']
  rfl

theorem Acts.wait (h : Acts c s s₁) (hmem : ∀ u ∈ insert (s₁.list l), u = t ∨ u ∈ s₁.list l)
    (hevent : ∀ i, l = .event i → Asked (s₁.eventInfo t))
    (hw : wait c s₁ l insert t timeout = some (s', p)) : Section c s s' :=
  (scheduled_wait h hmem hevent hw).section

theorem mem_insertWaiting {flag : Ipc.Flag} : ∀ u ∈ insertWaiting k flag t ts, u = t ∨ u ∈ ts :=
  fun _ hu => Ipc.mem_insertWaiting.mp hu

theorem Acts.ipcListResume (h : Acts c s s₁) (l : WaitList) :
    Acts c s (ipcListResume c s₁ l) := by
  unfold System.ipcListResume
  split
  · exact h
  · exact h.resume _

theorem scheduled_wakeFirst (h : Acts c s s₁) (hl : s₁.list l ≠ [])
    (hw : wakeFirst c s₁ l out = some (s', p)) : Scheduled c s s' := by
  rw [System.wakeFirst, if_neg hl] at hw
  obtain ⟨s₂, hs, hw⟩ := Option.map_eq_some_iff.mp hw
  cases hw
  exact ⟨_, h.ipcListResume l, hs⟩

theorem wakeFirst_nil (hl : s₁.list l = []) (hw : wakeFirst c s₁ l out = some (s', p)) :
    s' = s₁ := by
  rw [System.wakeFirst, if_pos hl] at hw
  exact (pair_inj hw).1.symm

theorem Acts.wakeFirst (h : Acts c s s₁) (hw : wakeFirst c s₁ l out = some (s', p)) :
    Section c s s' := by
  by_cases hl : s₁.list l = []
  · rw [wakeFirst_nil hl hw]
    exact h.section
  · exact (scheduled_wakeFirst h hl hw).section

theorem Acts.ipcListResumeAll (h : Acts c s s₁) (hr : ipcListResumeAll c s₁ ts = some s') :
    Acts c s s' := by
  induction ts generalizing s₁ with
  | nil =>
    cases hr
    exact h
  | cons t ts ih =>
    rw [System.ipcListResumeAll] at hr
    split at hr
    · exact ih ((h.setError t .error).resume t) hr
    · simp at hr

theorem Acts.resumeLists (h : Acts c s s₁) {ls : List WaitList}
    (hr : resumeLists c s₁ ls = some s') : Acts c s s' := by
  induction ls generalizing s₁ with
  | nil =>
    cases hr
    exact h
  | cons l ls ih =>
    obtain ⟨s₂, hs₂, hr⟩ := Option.bind_eq_some_iff.mp hr
    exact ih (h.ipcListResumeAll hs₂) hr

theorem asked_of_received {wanted : Event.EventSet} {info : Event.Info} {b : Bool}
    (h : Event.received set wanted info = some b) : Asked info := by
  unfold Event.received at h
  split at h
  · rename_i ha
    exact .inl ha
  · split at h
    · rename_i ho
      exact .inr ho
    · simp at h

theorem Acts.eventScan (h : Acts c s s₁) {need : Bool} : Acts c s (eventScan c i s₁ need ts).1 := by
  induction ts generalizing s₁ need with
  | nil => exact h
  | cons t ts ih =>
    rw [System.eventScan]
    split
    · exact h
    · exact ih h
    · refine ih (Acts.resume t (h.data ?_))
      split
      · exact ⟨rfl, rfl, rfl, rfl⟩
      · exact ⟨rfl, rfl, rfl, rfl⟩

/-! ## The functions -/

theorem rtSemTake_section (h : rtSemTake c s t i time = some (s', p)) : Section c s s' := by
  unfold rtSemTake at h
  split at h
  · exact (Acts.refl.setSem i _).returns h
  · split at h
    · exact Acts.refl.returns h
    · exact Acts.refl.wait mem_insertWaiting (by simp) h

theorem rtSemRelease_section (h : rtSemRelease c s i = some (s', p)) : Section c s s' := by
  unfold rtSemRelease at h
  split at h
  · exact Acts.refl.wakeFirst h
  · split at h
    · exact (Acts.refl.setSem i _).returns h
    · exact Acts.refl.returns h

theorem rtSemReset_section {value : Nat} (h : rtSemReset c s i value = some (s', p)) :
    Section c s s' := by
  obtain ⟨s₁, h₁, h⟩ := Option.bind_eq_some_iff.mp h
  obtain ⟨s₂, h₂, h⟩ := Option.bind_eq_some_iff.mp h
  cases h
  exact ((Acts.refl.resumeLists h₁).setSem i _).schedule h₂

theorem rtMutexTake_section (h : rtMutexTake c s t i time = some (s', p)) : Section c s s' := by
  have h₀ : Acts c s (setError s t .eok) := Acts.refl.setError t .eok
  unfold rtMutexTake at h
  dsimp only at h
  set s₀ := setError s t .eok with hs₀
  have htaken : Known s₀ (s₀.kernel.thread t).currentPriority := .inl ⟨t, rfl⟩
  split at h
  · rename_i hown
    split at h
    · refine (h₀.setMutex i _ ?_).returns h
      exact fun ho => .inr ⟨i, ho, rfl⟩
    · exact h₀.returns h
  · split at h
    · split at h
      · exact (h₀.setMutex i _ fun _ => htaken).returns h
      · exact (h₀.setMutex i _ fun _ => htaken).returns h
    · split at h
      · exact (h₀.setError t .etimeout).returns h
      · obtain ⟨owner, _, h⟩ := Option.bind_eq_some_iff.mp h
        split at h
        · exact (h₀.setPriority owner _ htaken).wait mem_insertWaiting (by simp) h
        · exact h₀.wait mem_insertWaiting (by simp) h

theorem giveUp_section {x : RtMutex} (hx : (s.mutex i).owner ≠ none)
    (hp : x.originalPriority = (s.mutex i).originalPriority) (h : giveUp c s t i x = some (s', p)) :
    Section c s s' := by
  unfold giveUp at h
  dsimp only at h
  have hknown : Known s x.originalPriority := .inr ⟨i, hx, hp⟩
  obtain ⟨s₁, h₁, hm, hs₁⟩ : ∃ s₁, Acts c s s₁ ∧ s₁.mutex = s.mutex ∧
      (if x.originalPriority ≠ (s.kernel.thread t).currentPriority then
        setPriority c s t x.originalPriority else s) = s₁ := by
    refine ⟨_, ?_, ?_, rfl⟩
    · split
      · exact Acts.refl.setPriority t _ hknown
      · exact Acts.refl
    · split
      · rfl
      · rfl
  rw [hs₁] at h
  split at h
  · rename_i u us hlist
    have hu : Known s₁ (s₁.kernel.thread u).currentPriority := .inl ⟨u, rfl⟩
    split at h
    · exact (h₁.setMutex i _ fun _ => hu).wakeFirst h
    · exact (h₁.setMutex i _ fun _ => hu).returns h
  · split at h
    · exact (h₁.setMutex i _ (by simp)).returns h
    · refine (h₁.setMutex i _ fun _ => .inr ⟨i, ?_, ?_⟩).returns h
      · rw [hm]
        exact hx
      · rw [hm]
        exact hp

theorem rtMutexRelease_section (h : rtMutexRelease c s t i = some (s', p)) : Section c s s' := by
  unfold rtMutexRelease at h
  dsimp only at h
  split at h
  · exact (Acts.refl.setError t .error).returns h
  · rename_i hown
    have howner : (s.mutex i).owner ≠ none := by
      rw [not_not.mp hown]
      simp
    split at h
    · refine giveUp_section howner ?_ h
      rfl
    · refine (Acts.refl.setMutex i _ fun _ => ?_).returns h
      exact .inr ⟨i, howner, rfl⟩

theorem rtEventSend_section (h : rtEventSend c s i set = some (s', p)) : Section c s s' := by
  unfold rtEventSend at h
  split at h
  · exact Acts.refl.returns h
  · have hscan : Acts c s (eventScan c i (setEvent s i ((s.event i).set ||| set)) false
        (s.list (.event i))).1 := (Acts.refl.setEvent i _).eventScan
    split at h
    · rename_i heq
      rw [heq] at hscan
      exact hscan.returns h
    · rename_i heq
      rw [heq] at hscan
      obtain ⟨s₂, hs₂, h⟩ := Option.map_eq_some_iff.mp h
      cases h
      exact hscan.schedule hs₂
    · rename_i heq
      rw [heq] at hscan
      exact hscan.returns h

theorem rtEventRecv_section {option : Event.Info}
    (h : rtEventRecv c s t i set option timeout = some (s', p)) : Section c s s' := by
  unfold rtEventRecv at h
  split at h
  · exact Acts.refl.returns h
  · have h₀ : Acts c s (setError s t .eok) := Acts.refl.setError t .eok
    dsimp only at h
    split at h
    · simp at h
    · rename_i hrec
      cases h
      have h₁ := h₀.setEventInfo t ((setError s t .eok |>.event i).set &&& set) option
        (asked_of_received hrec)
      refine (h₁.data ?_).section
      split
      · exact ⟨rfl, rfl, rfl, rfl⟩
      · exact ⟨rfl, rfl, rfl, rfl⟩
    · rename_i hrec
      have hasked := asked_of_received hrec
      split at h
      · exact (h₀.setError t .etimeout).returns h
      · refine (h₀.setEventInfo t set option hasked).wait mem_insertWaiting ?_ h
        intro _ _
        simpa [setEventInfo] using hasked

theorem rtEventReset_section (h : rtEventReset c s i = some (s', p)) : Section c s s' := by
  obtain ⟨s₁, h₁, h⟩ := Option.bind_eq_some_iff.mp h
  obtain ⟨s₂, h₂, h⟩ := Option.bind_eq_some_iff.mp h
  cases h
  exact ((Acts.refl.resumeLists h₁).setEvent i _).schedule h₂

theorem mbSendLoop_section (h : mbSendLoop c s t i value timeout = some (s', p)) :
    Section c s s' := by
  unfold mbSendLoop at h
  dsimp only at h
  split at h
  · split at h
    · exact (Acts.refl.setError t .eok).returns h
    · exact Acts.refl.wait mem_insertWaiting (by simp) h
  · split at h
    · exact (Acts.refl.setMb i _).wakeFirst h
    · exact (Acts.refl.setMb i _).returns h

theorem rtMbSendWait_section (h : rtMbSendWait c s t i value timeout = some (s', p)) :
    Section c s s' := by
  unfold rtMbSendWait at h
  split at h
  · exact Acts.refl.returns h
  · exact mbSendLoop_section h

theorem rtMbUrgent_section (h : rtMbUrgent c s i value = some (s', p)) : Section c s s' := by
  unfold rtMbUrgent at h
  dsimp only at h
  split at h
  · exact Acts.refl.returns h
  · exact (Acts.refl.setMb i _).wakeFirst h

theorem mbRecvLoop_section (h : mbRecvLoop c s t i timeout = some (s', p)) : Section c s s' := by
  unfold mbRecvLoop at h
  dsimp only at h
  split at h
  · split at h
    · exact (Acts.refl.setError t .etimeout).returns h
    · exact Acts.refl.wait mem_insertWaiting (by simp) h
  · exact (Acts.refl.setMb i _).wakeFirst h

theorem rtMbRecv_section (h : rtMbRecv c s t i timeout = some (s', p)) : Section c s s' := by
  unfold rtMbRecv at h
  split at h
  · exact Acts.refl.returns h
  · exact mbRecvLoop_section h

theorem rtMbReset_section (h : rtMbReset c s i = some (s', p)) : Section c s s' := by
  obtain ⟨s₁, h₁, h⟩ := Option.bind_eq_some_iff.mp h
  obtain ⟨s₂, h₂, h⟩ := Option.bind_eq_some_iff.mp h
  cases h
  exact ((Acts.refl.resumeLists h₁).setMb i _).schedule h₂

theorem mqSendLoop_section (h : mqSendLoop c s t i timeout = some (s', p)) : Section c s s' := by
  unfold mqSendLoop at h
  split at h
  · split at h
    · exact (Acts.refl.setError t .eok).returns h
    · exact Acts.refl.wait mem_insertWaiting (by simp) h
  · exact (Acts.refl.setMq i _).returns h

theorem rtMqSendWait_section (h : rtMqSendWait c s t i data timeout = some (s', p)) :
    Section c s s' := by
  unfold rtMqSendWait at h
  dsimp only at h
  split at h
  · simp at h
  · split at h
    · exact Acts.refl.returns h
    · split at h
      · exact Acts.refl.returns h
      · exact mqSendLoop_section h

theorem rtMqUrgent_section (h : rtMqUrgent s i data = some (s', p)) : Section c s s' := by
  unfold rtMqUrgent at h
  dsimp only at h
  split at h
  · simp at h
  · split at h
    · exact Acts.refl.returns h
    · split at h
      · exact Acts.refl.returns h
      · exact (Acts.refl.setMq i _).returns h

theorem mqSendFinish_section {urgent : Bool}
    (h : mqSendFinish c s i urgent slot data = some (s', p)) : Section c s s' := by
  unfold mqSendFinish at h
  dsimp only at h
  split at h
  · exact (Acts.refl.setMq i _).wakeFirst h
  · exact (Acts.refl.setMq i _).returns h

theorem mqRecvLoop_section (h : mqRecvLoop c s t i timeout = some (s', p)) : Section c s s' := by
  unfold mqRecvLoop at h
  dsimp only at h
  split at h
  · split at h
    · exact (Acts.refl.setError t .etimeout).returns h
    · exact Acts.refl.wait mem_insertWaiting (by simp) h
  · obtain ⟨slot, _, h⟩ := Option.map_eq_some_iff.mp h
    cases h
    exact (Acts.refl.setMq i _).section

theorem rtMqRecv_section (h : rtMqRecv c s t i size timeout = some (s', p)) : Section c s s' := by
  unfold rtMqRecv at h
  split at h
  · simp at h
  · split at h
    · exact Acts.refl.returns h
    · exact mqRecvLoop_section h

theorem mqRecvFinish_section (h : mqRecvFinish c s i slot size = some (s', p)) : Section c s s' :=
  (Acts.refl.setMq i _).wakeFirst h

theorem rtMqReset_section (h : rtMqReset c s i = some (s', p)) : Section c s s' := by
  obtain ⟨s₁, h₁, h⟩ := Option.bind_eq_some_iff.mp h
  obtain ⟨mq, _, h⟩ := Option.bind_eq_some_iff.mp h
  obtain ⟨s₂, h₂, h⟩ := Option.bind_eq_some_iff.mp h
  cases h
  exact ((Acts.refl.resumeLists h₁).setMq i _).schedule h₂

theorem rtMpAlloc_section (h : rtMpAlloc c s t i time = some (s', p)) : Section c s s' := by
  unfold rtMpAlloc at h
  dsimp only at h
  split at h
  · split at h
    · exact (Acts.refl.setError t .etimeout).returns h
    · refine Acts.refl.wait ?_ (by simp) h
      exact fun u hu => List.mem_cons.mp hu
  · obtain ⟨b, _, h⟩ := Option.bind_eq_some_iff.mp h
    split at h
    · exact (Acts.refl.setBlock i _ b _).returns h
    · simp at h

theorem rtMpFree_section {block : Option Block} (h : rtMpFree c s block = some (s', p)) :
    Section c s s' := by
  unfold rtMpFree at h
  split at h
  · exact Acts.refl.returns h
  · split at h
    · simp at h
    · rename_i b _ i _
      dsimp only at h
      have h₀ := Acts.refl (c := c) (s := s) |>.setBlock i
        ⟨(s.mempool i).blockFreeCount + 1, some b⟩ b (.next (s.mempool i).blockList)
      split at h
      · exact h₀.returns h
      · rename_i u us _
        obtain ⟨s₂, hs₂, h⟩ := Option.map_eq_some_iff.mp h
        cases h
        exact ((h₀.setError u .eok).resume u).schedule hs₂

/-- A call of an IPC function is a section. -/
theorem call_section (hop : ∀ o, op ≠ .thread o) (h : call c s t op = some (s', p)) :
    Section c s s' := by
  cases op with
  | thread o => exact absurd rfl (hop o)
  | semTake i time => exact rtSemTake_section h
  | semRelease i => exact rtSemRelease_section h
  | semReset i value => exact rtSemReset_section h
  | mutexTake i time => exact rtMutexTake_section h
  | mutexRelease i => exact rtMutexRelease_section h
  | eventSend i set => exact rtEventSend_section h
  | eventRecv i set option timeout => exact rtEventRecv_section h
  | eventReset i => exact rtEventReset_section h
  | mbSendWait i value timeout => exact rtMbSendWait_section h
  | mbSendLoop i value timeout => exact mbSendLoop_section h
  | mbUrgent i value => exact rtMbUrgent_section h
  | mbRecv i timeout => exact rtMbRecv_section h
  | mbRecvLoop i timeout => exact mbRecvLoop_section h
  | mbReset i => exact rtMbReset_section h
  | mqSendWait i data timeout => exact rtMqSendWait_section h
  | mqSendLoop i timeout => exact mqSendLoop_section h
  | mqUrgent i data => exact rtMqUrgent_section h
  | mqSendFinish i urgent slot data => exact mqSendFinish_section h
  | mqRecv i size timeout => exact rtMqRecv_section h
  | mqRecvLoop i timeout => exact mqRecvLoop_section h
  | mqRecvFinish i slot size => exact mqRecvFinish_section h
  | mqReset i => exact rtMqReset_section h
  | mpAlloc i time => exact rtMpAlloc_section h
  | mpFree block => exact rtMpFree_section h
  | resumeAll l =>
    obtain ⟨s₁, h₁, h⟩ := Option.map_eq_some_iff.mp h
    cases h
    exact (Acts.refl.resumeLists h₁).section

/-! ## The invariant of all runs -/

/-- The ready queue is in order, a mutex that is taken records a priority of the system, and the
threads waiting for an event have asked for it properly. -/
structure Ok (c : Config) (s : State) : Prop where
  inv : Inv c s.kernel
  original : ∀ i, (s.mutex i).owner ≠ none → (s.mutex i).originalPriority < c.priorityMax
  asked : ∀ i, ∀ t ∈ s.list (.event i), Asked (s.eventInfo t)

theorem Ok.known (h : Ok c s) {q : Nat} (hq : Known s q) : q < c.priorityMax := by
  obtain ⟨u, rfl⟩ | ⟨i, hi, rfl⟩ := hq
  · exact h.inv.base.queued.lt u
  · exact h.original i hi

theorem startThreadTimer_eq (h : startThreadTimer c k t timeout = some k') :
    ∃ timers, k' = { k with timers := timers } := by
  unfold startThreadTimer at h
  split at h
  · split at h
    · simp at h
    · obtain ⟨r, _, rfl⟩ := Option.map_eq_some_iff.mp h
      exact ⟨_, rfl⟩
  · exact ⟨k.timers, (Option.some.inj h).symm⟩

theorem suspendFor_inv (h : Inv c k) (hs : suspendFor c k t timeout = some k') : Inv c k' := by
  obtain ⟨⟨k₁, e⟩, h₁, hs⟩ := Option.bind_eq_some_iff.mp hs
  obtain ⟨timers, rfl⟩ := startThreadTimer_eq hs
  have h₀ : Inv c (setThread k t { k.thread t with error := .eok }) :=
    h.setThread rfl rfl rfl rfl rfl
  exact (rtThreadSuspend_inv h₀ h₁).congr rfl rfl rfl rfl rfl

theorem Acts.ok (h : Ok c s) (ha : Acts c s s') : Ok c s' := by
  induction ha with
  | refl => exact h
  | data _ hd ih =>
    obtain ⟨hk, hl, hm, he⟩ := hd
    exact ⟨hk ▸ ih.inv, hm ▸ ih.original, hl ▸ he ▸ ih.asked⟩
  | setMutex i x _ hx ih =>
    refine ⟨ih.inv, fun j hj => ?_, ih.asked⟩
    by_cases hji : j = i
    · subst hji
      simp only [System.setMutex, Function.update_self] at hj ⊢
      exact ih.known (hx hj)
    · simp only [System.setMutex, Function.update_of_ne hji] at hj ⊢
      exact ih.original j hj
  | setEventInfo u set info _ hinfo ih =>
    refine ⟨ih.inv, ih.original, fun i t ht => ?_⟩
    by_cases htu : t = u
    · subst htu
      simpa [System.setEventInfo] using hinfo
    · simpa [System.setEventInfo, htu] using ih.asked i t ht
  | setError u err _ ih =>
    exact ⟨ih.inv.setThread rfl rfl rfl rfl rfl, ih.original, ih.asked⟩
  | setPriority u q _ hq ih =>
    exact ⟨changePriority_inv ih.inv (ih.known hq), ih.original, ih.asked⟩
  | resume u _ ih =>
    unfold System.resume
    split
    · refine ⟨rtThreadResume_inv ih.inv u, ih.original, fun i t ht => ?_⟩
      exact ih.asked i t (List.mem_of_mem_filter ht)
    · exact ih
  | @suspendFor s₁ k l ts u timeout _ hk hmem hevent ih =>
    refine ⟨suspendFor_inv ih.inv hk, ih.original, fun i t ht => ?_⟩
    by_cases hl : WaitList.event i = l
    · rw [← hl] at hevent hmem
      dsimp only at ht
      rw [← hl, Function.update_self] at ht
      obtain rfl | ht := hmem t ht
      · exact hevent i rfl
      · exact ih.asked i t ht
    · dsimp only at ht
      rw [Function.update_of_ne hl] at ht
      exact ih.asked i t ht

theorem Section.ok (h : Ok c s) (hs : Section c s s') : Ok c s' := by
  obtain ⟨s₁, ha, rfl | hs⟩ := hs
  · exact ha.ok h
  · obtain ⟨k, hk, rfl⟩ := schedule_eq hs
    have h₁ := ha.ok h
    exact ⟨rtSchedule_inv h₁.inv hk, h₁.original, h₁.asked⟩

/-- The calls whose arguments the kernel accepts. -/
def Permitted (c : Config) : Op → Prop
  | .thread op => ReadyQueue.Permitted c op
  | _ => True

theorem threadStep_eq {op : Thread.Op} (h : threadStep c s op = some s') :
    (∀ u, op ≠ .timeout u) ∧ (setsTimer s.kernel op && currentClosed s.kernel) = false ∧
    ∃ k, Thread.step c s.kernel op = some k ∧
      s' = { s with
        kernel := k
        list := fun l => (s.list l).filter fun t =>
          (s.kernel.thread t).stat ≠ .suspend ∨ (k.thread t).stat = .suspend } := by
  unfold threadStep at h
  split at h
  · simp at h
  · rename_i hop
    split at h
    · simp at h
    · rename_i hclosed
      obtain ⟨k, hk, rfl⟩ := Option.map_eq_some_iff.mp h
      exact ⟨hop, by simpa using hclosed, k, hk, rfl⟩

/-- A step is a call of the thread functions, or a section of another function. -/
theorem step_cases (h : step c s op = some s') :
    (∃ o, op = .thread o ∧ threadStep c s o = some s') ∨
    (∀ o, op ≠ .thread o) ∧ ∃ t p, s.kernel.currentThread = some t ∧
      call c s t op = some (s', p) := by
  unfold step at h
  split at h
  · exact .inl ⟨_, rfl, h⟩
  · rename_i t hop ht
    obtain ⟨⟨s₁, p⟩, h₁, rfl⟩ := Option.map_eq_some_iff.mp h
    exact .inr ⟨fun o ho => hop o ho, t, p, ht, h₁⟩
  · simp at h

theorem step_ok (h : Ok c s) (hop : Permitted c op) (hs : step c s op = some s') : Ok c s' := by
  obtain ⟨o, rfl, ho⟩ | ⟨hne, t, p, _, hcall⟩ := step_cases hs
  · obtain ⟨_, _, k, hk, rfl⟩ := threadStep_eq ho
    refine ⟨step_inv h.inv hop hk, h.original, fun i t ht => ?_⟩
    exact h.asked i t (List.mem_of_mem_filter ht)
  · exact (call_section hne hcall).ok h

/-- The state in which the scheduler starts: `_thread_init` and the initialisation of every object
have been called. The data of the objects other than mutexes may be anything. -/
structure Initial (c : Config) (s : State) : Prop where
  kernel : ∃ thread tick, Initialised c thread ∧ s.kernel = rtSystemSchedulerInit thread
    (Timer.rtSystemTimerInit tick fun _ => Timer.timerInit 0 false .hard)
  list : ∀ l, s.list l = []
  mutex : ∀ i, s.mutex i = ⟨1, none, 0xff, 0⟩

theorem Initial.ok (h : Initial c s) : Ok c s := by
  obtain ⟨thread, tick, hinit, hk⟩ := h.kernel
  refine ⟨hk ▸ init_inv hinit _, fun i hi => ?_, fun i t ht => ?_⟩
  · rw [h.mutex i] at hi
    exact absurd rfl hi
  · rw [h.list] at ht
    exact absurd ht List.not_mem_nil

theorem run_ok {s₀ : State} (h : Initial c s₀) {ops : List Op} (hops : ∀ op ∈ ops, Permitted c op)
    (hrun : Runs.run (step c) s₀ ops = some s) : Ok c s :=
  Runs.run_invariant_along (fun _ _ _ h hop hs => step_ok h hop hs) h.ok
    (Runs.along_of_forall hops _) hrun

/-! ## A small system -/

/-- Objects that have just been initialised. -/
def freshState (k : Kernel) : State where
  kernel := k
  list := fun _ => []
  sem := fun _ => ⟨.prio, 0⟩
  mutex := fun _ => ⟨1, none, 0xff, 0⟩
  event := fun _ => ⟨.prio, 0⟩
  eventSet := fun _ => 0
  eventInfo := fun _ => 0
  mailbox := fun _ => ⟨.prio, Mailbox.rtMbInit (fun _ => 0) 1⟩
  messageQueue := fun _ => ⟨.prio, MessageQueue.rtMqInit (fun _ => none) (fun _ _ => 0) 4 1⟩
  mempool := fun _ => ⟨0, none⟩
  header := fun _ => .next none

/-- Threads 0, 1 and 2 have the priorities 10, 5 and 31. -/
def trio : ThreadId → Thread := fun t =>
  ⟨.init, false, if t = 0 then 10 else if t = 1 then 5 else 31, 0, 0, 0, 20, 20, .eok, true⟩

def trioState : State :=
  freshState (rtSystemSchedulerInit trio
    (Timer.rtSystemTimerInit 0 fun _ => Timer.timerInit 0 false .hard))

theorem trio_initialised : Initialised smallConfig trio := by
  intro t
  refine ⟨if t = 0 then 10 else if t = 1 then 5 else 31, 20, true, ?_⟩
  have hlt : (if t = 0 then 10 else if t = 1 then 5 else 31) < smallConfig.priorityMax := by
    show _ < 32
    split
    · omega
    · split <;> omega
  rw [threadInit, if_pos hlt]
  rfl

theorem trio_initial : Initial smallConfig trioState :=
  ⟨⟨trio, 0, trio_initialised, rfl⟩, fun _ => rfl, fun _ => rfl⟩

end RtThread.System
