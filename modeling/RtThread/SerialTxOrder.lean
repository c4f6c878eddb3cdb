import RtThread.SerialTx

/-!
# The order of DMA transfers

The buffers that have been accepted are handed to the device one after the other as long as a
writer that finds `activated` clear has pushed the oldest buffer of the queue. Between the push
and the test another writer, or the interrupt, can make it a different one.
-/
namespace RtThread.SerialTx

open Ipc (ThreadId)
open DataQueue (RtDataItem Rep)

/-! ## The history -/

/-- The transmitter, with the buffers of the events in their order. -/
structure Traced where
  serial : State
  accepted : List RtDataItem
  transmitted : List RtDataItem
  finished : List RtDataItem
  completed : List (Option RtDataItem)
  /-- The buffers that the interrupt has taken from the queue. -/
  popped : Nat
  /-- The place of the last accepted buffer of a thread. -/
  ticket : ThreadId → Nat

def start (queue : Nat → RtDataItem) (priority : ThreadId → Nat) : Traced :=
  ⟨rtSerialOpen queue priority, [], [], [], [], 0, fun _ => 0⟩

def Traced.record (x : Traced) : Event → Traced
  | .accept t item =>
    { x with
      accepted := x.accepted ++ [item]
      ticket := Function.update x.ticket t x.accepted.length }
  | .transmit item => { x with transmitted := x.transmitted ++ [item] }
  | .finish item => { x with finished := x.finished ++ [item] }
  | .complete last =>
    { x with
      completed := x.completed ++ [last]
      popped := if last.isSome then x.popped + 1 else x.popped }
  | .ret _ _ => x

def tracedStep (x : Traced) (op : Op) : Option Traced :=
  (call x.serial op).map fun r => r.2.foldl Traced.record { x with serial := r.1 }

/-- A thread between its push and the end of its write. -/
def Stage.inProgress : Stage → Bool
  | .pushed _ => true
  | .starting _ => true
  | _ => false

/-- The buffers that were accepted are handed over once each and in their order, one at a time; the
callback gets the buffer of the transfer that is finished; and there is a transfer, or a writer
on its way, while a buffer is left. -/
structure InOrder (x : Traced) : Prop where
  order : x.transmitted = x.accepted.take x.transmitted.length
  single : x.serial.active.length ≤ 1
  complete : x.completed = x.finished.map some
  left : x.transmitted.length < x.accepted.length →
    x.serial.active ≠ [] ∨ ∃ t, (x.serial.stage t).inProgress = true

/-- A writer that finds `activated` clear has pushed the oldest buffer of the queue. -/
def OwnFirst (x : Traced) : Op → Prop
  | .proceed t =>
    match x.serial.stage t with
    | .pushed _ => x.serial.activated = false → x.ticket t = x.popped
    | _ => True
  | _ => True

instance (x : Traced) : ∀ op, Decidable (OwnFirst x op)
  | .proceed t =>
    match h : x.serial.stage t with
    | .pushed _ =>
      decidable_of_iff (x.serial.activated = false → x.ticket t = x.popped) (by simp [OwnFirst, h])
    | .outside => .isTrue (by simp [OwnFirst, h])
    | .pushing _ => .isTrue (by simp [OwnFirst, h])
    | .starting _ => .isTrue (by simp [OwnFirst, h])
  | .write _ _ => .isTrue trivial
  | .interrupt => .isTrue trivial

/-! ## The queue under the transmitter -/

section queue

variable {q q' : DataQueue.State} {t u : ThreadId} {item : RtDataItem} {k : Nat}
  {ret : Option DataQueue.Ret} {timeout : BitVec 32}

/-- What a push of a buffer returns, and what it does to the queue. -/
structure Pushes (q : DataQueue.State) (t : ThreadId) (item : RtDataItem) (q' : DataQueue.State)
    (ret : Option DataQueue.Ret) : Prop where
  rep : ∃ k, Rep queueSize k q'.dq
  call : q'.call = Function.update q.call t
    (if ret = none then .pushing item waitingForever else .outside)
  effect : ret = some ⟨.eok, none⟩ ∧ q'.dq.items = q.dq.items ++ [item] ∨
    (ret = none ∨ ∃ err, err ≠ .eok ∧ ret = some ⟨err, none⟩) ∧ q'.dq.items = q.dq.items

theorem push_call (h : DataQueue.rtDataQueuePush q t item timeout = some (q', ret)) :
    q'.call = Function.update q.call t (if ret = none then .pushing item timeout else .outside) := by
  rw [DataQueue.rtDataQueuePush] at h
  split at h
  · split at h
    · cases h
      rfl
    · obtain ⟨w, -, heq⟩ := Option.map_eq_some_iff.mp h
      cases heq
      rfl
  · cases h
    rfl

theorem queueSize_le : queueSize ≤ DataQueue.sizeMax := by decide

theorem pushed_effect {l l' : List RtDataItem} (h : DataQueue.Pushed queueSize item ret l l') :
    ret = some ⟨.eok, none⟩ ∧ l' = l ++ [item] ∨
      (ret = none ∨ ∃ err, err ≠ .eok ∧ ret = some ⟨err, none⟩) ∧ l' = l := by
  obtain ⟨-, hret, hl⟩ | ⟨-, hret, hl⟩ := h
  · exact .inl ⟨hret, hl⟩
  · obtain hret | hret := hret
    · exact .inr ⟨.inl hret, hl⟩
    · exact .inr ⟨.inr ⟨.etimeout, by decide, hret⟩, hl⟩

theorem push_pushes (hrep : Rep queueSize k q.dq)
    (h : DataQueue.call q (.push t item waitingForever) = some (q', ret)) :
    Pushes q t item q' ret := by
  obtain ⟨heffect, hrep'⟩ := (DataQueue.call_result h).effect hrep queueSize_le
  obtain ⟨-, hpush⟩ := Option.ite_none_right_eq_some.mp h
  exact ⟨hrep', push_call hpush, pushed_effect heffect⟩

theorem switchBack_pushes (hrep : Rep queueSize k q.dq)
    (hc : q.call t = .pushing item waitingForever)
    (h : DataQueue.call q (.switchBack t) = some (q', ret)) : Pushes q t item q' ret := by
  obtain ⟨heffect, hrep'⟩ := (DataQueue.call_result h).effect hrep queueSize_le
  obtain ⟨-, hback⟩ := Option.ite_none_right_eq_some.mp h
  rw [DataQueue.switchBack, hc] at hback
  simp only at hback
  refine ⟨hrep', ?_, ?_⟩
  · split at hback
    · cases hback
      rfl
    · exact push_call hback
  · rw [DataQueue.Effect] at heffect
    split at heffect
    · rename_i herr
      exact .inr ⟨.inr ⟨_, herr.1, herr.2⟩, heffect⟩
    · rw [hc] at heffect
      exact pushed_effect heffect

/-- The interrupt takes the oldest buffer, if there is one. -/
theorem isrPop_spec (hrep : Rep queueSize k q.dq) :
    ∃ q', isrPop q = some (q', q.dq.items.head?) ∧ (∃ k, Rep queueSize k q'.dq) ∧
      q'.call = q.call ∧ q'.dq.items = q.dq.items.tail := by
  rw [isrPop, DataQueue.rtDataQueuePop]
  by_cases hempty : q.dq.isEmpty = true
  · have hk : k = 0 := by simpa [hrep.empty] using hempty
    have hnil : q.dq.items = [] :=
      List.eq_nil_of_length_eq_zero ((hrep.length_items queueSize_le).trans hk)
    rw [if_pos hempty, if_pos rfl, hnil]
    exact ⟨_, rfl, ⟨k, hrep⟩, rfl, hnil⟩
  · obtain ⟨hrep', hitems⟩ := hrep.take_item queueSize_le (Bool.eq_false_iff.mpr hempty)
    rw [if_neg hempty, hitems]
    exact ⟨_, rfl, ⟨_, hrep'⟩, rfl, rfl⟩

theorem isrPeek_spec (hrep : Rep queueSize k q.dq) : isrPeek q = q.dq.items.head? := by
  rw [isrPeek]
  by_cases hempty : q.dq.isEmpty = true
  · have hk : k = 0 := by simpa [hrep.empty] using hempty
    have hnil : q.dq.items = [] :=
      List.eq_nil_of_length_eq_zero ((hrep.length_items queueSize_le).trans hk)
    rw [if_pos hempty, hnil]
    rfl
  · obtain ⟨-, hitems⟩ := hrep.take_item queueSize_le (Bool.eq_false_iff.mpr hempty)
    rw [if_neg hempty, hitems]
    rfl

end queue

/-! ## What the transmitter is at -/

/-- No writer is about to call `dma_transmit`, apart from `t`. -/
def NoOther (s : State) (t : ThreadId) : Prop := ∀ u, u ≠ t → ∀ item, s.stage u ≠ .starting item

inductive Phase (x : Traced) : Prop
  /-- The writers of all the buffers in the queue have not tested `activated` yet. -/
  | idle (hact : x.serial.activated = false) (hactive : x.serial.active = [])
      (hsent : x.transmitted = x.accepted.take x.popped)
      (hno : ∀ t item, x.serial.stage t ≠ .starting item)
      (hto : ∀ i, x.popped ≤ i → i < x.accepted.length →
        ∃ t item, x.serial.stage t = .pushed item ∧ x.ticket t = i)
  | starting (t : ThreadId) (item : RtDataItem) (hact : x.serial.activated = true)
      (hactive : x.serial.active = []) (hsent : x.transmitted = x.accepted.take x.popped)
      (ht : x.serial.stage t = .starting item) (hitem : x.accepted[x.popped]? = some item)
      (hno : NoOther x.serial t)
  | busy (item : RtDataItem) (hact : x.serial.activated = true)
      (hactive : x.serial.active = [item]) (hsent : x.transmitted = x.accepted.take (x.popped + 1))
      (hitem : x.accepted[x.popped]? = some item)
      (hno : ∀ t item, x.serial.stage t ≠ .starting item)

structure Inv (x : Traced) : Prop where
  rep : ∃ k, Rep queueSize k x.serial.queue.dq
  calls : ∀ t item, x.serial.stage t = .pushing item →
    x.serial.queue.call t = .pushing item waitingForever
  popped : x.popped ≤ x.accepted.length
  items : x.serial.queue.dq.items = x.accepted.drop x.popped
  tickets : ∀ t item, x.serial.stage t = .pushed item → x.accepted[x.ticket t]? = some item
  finished : x.finished = x.accepted.take x.popped
  completed : x.completed = x.finished.map some
  phase : Phase x

section inv

variable {x : Traced} {t u : ThreadId} {item : RtDataItem} {q : DataQueue.State}
  {ret : Option DataQueue.Ret}

theorem setStage_self (s : State) (t : ThreadId) (stage : Stage) :
    (setStage s t stage).stage t = stage :=
  Function.update_self _ _ _

theorem setStage_ne (s : State) (stage : Stage) (h : u ≠ t) :
    (setStage s t stage).stage u = s.stage u :=
  Function.update_of_ne h _ _

/-- A stage that is not `starting` was there before, or the thread is another one. -/
theorem not_starting {s : State} {stage : Stage} (hstage : ∀ item, stage ≠ .starting item)
    (h : s.stage u ≠ .starting item) : (setStage s t stage).stage u ≠ .starting item := by
  by_cases hut : u = t
  · subst hut
    rw [setStage_self]
    exact hstage item
  · rw [setStage_ne _ _ hut]
    exact h

/-- A thread that was not about to start is suspended in its push, or leaves. -/
theorem Inv.stays (hi : Inv x) (hrep : ∃ k, Rep queueSize k q.dq)
    (hitems : q.dq.items = x.serial.queue.dq.items) {stage : Stage}
    (hother : ∀ u, u ≠ t → q.call u = x.serial.queue.call u)
    (hself : ∀ item, stage = .pushing item → q.call t = .pushing item waitingForever)
    (hold : ∀ item, x.serial.stage t ≠ .starting item)
    (hlast : x.serial.activated = false → ∀ item, x.serial.stage t ≠ .pushed item)
    (hnew : ∀ item, stage ≠ .starting item ∧ stage ≠ .pushed item) :
    Inv { x with serial := setStage { x.serial with queue := q } t stage } := by
  have hpushed : ∀ u item, (setStage { x.serial with queue := q } t stage).stage u = .pushed item →
      u ≠ t := by
    rintro u item hu rfl
    rw [setStage_self] at hu
    exact (hnew item).2 hu
  refine ⟨hrep, fun u item hu => ?_, hi.popped, hitems.trans hi.items, fun u item hu => ?_,
    hi.finished, hi.completed, ?_⟩
  · by_cases hut : u = t
    · subst hut
      rw [setStage_self] at hu
      exact hself item hu
    · rw [setStage_ne _ _ hut] at hu
      exact (hother u hut).trans (hi.calls u item hu)
  · have hut := hpushed u item hu
    refine hi.tickets u item ?_
    rwa [← setStage_ne { x.serial with queue := q } stage hut]
  · have hkeep : ∀ u item, x.serial.stage u ≠ .starting item →
        (setStage { x.serial with queue := q } t stage).stage u ≠ .starting item :=
      fun u item h => not_starting (fun item => (hnew item).1) h
    cases hi.phase with
    | idle hact hactive hsent hno hto =>
      refine .idle hact hactive hsent (fun u item => hkeep u item (hno u item)) fun i hi₁ hi₂ => ?_
      obtain ⟨u, item, hu, hticket⟩ := hto i hi₁ hi₂
      have hut : u ≠ t := by
        rintro rfl
        exact hlast hact item hu
      exact ⟨u, item, (setStage_ne _ _ hut).trans hu, hticket⟩
    | starting v item hact hactive hsent ht hitem hno =>
      have hvt : v ≠ t := by
        rintro rfl
        exact hold item ht
      exact .starting v item hact hactive hsent ((setStage_ne _ _ hvt).trans ht) hitem
        fun u huv item => hkeep u item (hno u huv item)
    | busy item hact hactive hsent hitem hno =>
      exact .busy item hact hactive hsent hitem fun u item => hkeep u item (hno u item)

theorem getElem?_append {l : List RtDataItem} {i : Nat} {a b : RtDataItem} (h : l[i]? = some a) :
    (l ++ [b])[i]? = some a := by
  rw [List.getElem?_append_left ((List.getElem?_eq_some_iff.mp h).1), h]

/-- A buffer is accepted. -/
theorem Inv.accept (hi : Inv x) (hrep : ∃ k, Rep queueSize k q.dq)
    (hitems : q.dq.items = x.serial.queue.dq.items ++ [item])
    (hother : ∀ u, u ≠ t → q.call u = x.serial.queue.call u)
    (hold : ∀ item, x.serial.stage t ≠ .starting item ∧ x.serial.stage t ≠ .pushed item) :
    Inv ({ x with serial := setStage { x.serial with queue := q } t (.pushed item) }.record
      (.accept t item)) := by
  have hpopped := hi.popped
  have htake : (x.accepted ++ [item]).take x.popped = x.accepted.take x.popped :=
    List.take_append_of_le_length hpopped
  have hkeep : ∀ u item', x.serial.stage u ≠ .starting item' →
      (setStage { x.serial with queue := q } t (.pushed item)).stage u ≠ .starting item' :=
    fun u item' h => not_starting (fun _ => by simp) h
  refine ⟨hrep, fun u item' hu => ?_, ?_, ?_, fun u item' hu => ?_, ?_, hi.completed, ?_⟩
  · have hu : (setStage { x.serial with queue := q } t (.pushed item)).stage u = .pushing item' := hu
    have hut : u ≠ t := by
      rintro rfl
      rw [setStage_self] at hu
      cases hu
    rw [setStage_ne _ _ hut] at hu
    exact (hother u hut).trans (hi.calls u item' hu)
  · show x.popped ≤ (x.accepted ++ [item]).length
    rw [List.length_append]
    omega
  · show q.dq.items = (x.accepted ++ [item]).drop x.popped
    rw [hitems, hi.items, List.drop_append_of_le_length hpopped]
  · have hu : (setStage { x.serial with queue := q } t (.pushed item)).stage u = .pushed item' := hu
    show (x.accepted ++ [item])[Function.update x.ticket t x.accepted.length u]? = some item'
    by_cases hut : u = t
    · subst hut
      rw [setStage_self, Stage.pushed.injEq] at hu
      simp [hu]
    · rw [setStage_ne _ _ hut] at hu
      rw [Function.update_of_ne hut]
      exact getElem?_append (hi.tickets u item' hu)
  · show x.finished = (x.accepted ++ [item]).take x.popped
    rw [htake, hi.finished]
  · cases hi.phase with
    | idle hact hactive hsent hno hto =>
      refine .idle hact hactive (hsent.trans htake.symm) (fun u item' => hkeep u item' (hno u item'))
        fun i hi₁ hi₂ => ?_
      have hi₂ : i < (x.accepted ++ [item]).length := hi₂
      rw [List.length_append, List.length_singleton] at hi₂
      by_cases hlast : i = x.accepted.length
      · exact ⟨t, item, setStage_self _ _ _, by rw [hlast]; exact Function.update_self _ _ _⟩
      · obtain ⟨u, item', hu, hticket⟩ := hto i hi₁ (by omega)
        have hut : u ≠ t := by
          rintro rfl
          exact (hold item').2 hu
        refine ⟨u, item', (setStage_ne _ _ hut).trans hu, ?_⟩
        show Function.update x.ticket t x.accepted.length u = i
        rw [Function.update_of_ne hut, hticket]
    | starting v item' hact hactive hsent ht hitem hno =>
      have hvt : v ≠ t := by
        rintro rfl
        exact (hold item').1 ht
      exact .starting v item' hact hactive (hsent.trans htake.symm) ((setStage_ne _ _ hvt).trans ht)
        (getElem?_append hitem) fun u huv item' => hkeep u item' (hno u huv item')
    | busy item' hact hactive hsent hitem hno =>
      have hlt : x.popped < x.accepted.length := (List.getElem?_eq_some_iff.mp hitem).1
      refine .busy item' hact hactive (hsent.trans ?_) (getElem?_append hitem)
        fun u item' => hkeep u item' (hno u item')
      exact (List.take_append_of_le_length (Nat.succ_le_of_lt hlt)).symm

/-- A writer finds `activated` clear, and sets it. -/
theorem Inv.activate (hi : Inv x) (hact : x.serial.activated = false)
    (ht : x.serial.stage t = .pushed item) (hown : x.ticket t = x.popped) :
    Inv { x with serial := setStage { x.serial with activated := true } t (.starting item) } := by
  have hkept : ∀ u stage, (setStage { x.serial with activated := true } t (.starting item)).stage u =
      stage → stage ≠ .starting item → x.serial.stage u = stage := by
    intro u stage hu hne
    have hut : u ≠ t := by
      rintro rfl
      rw [setStage_self] at hu
      exact hne hu.symm
    rwa [setStage_ne _ _ hut] at hu
  refine ⟨hi.rep, fun u item' hu => hi.calls u item' (hkept u _ hu (by simp)), hi.popped, hi.items,
    fun u item' hu => hi.tickets u item' (hkept u _ hu (by simp)), hi.finished, hi.completed, ?_⟩
  have hticket := hi.tickets t item ht
  rw [hown] at hticket
  cases hi.phase with
  | idle _ hactive hsent hno hto =>
    refine .starting t item rfl hactive hsent (setStage_self _ _ _) hticket fun u hut item' => ?_
    rw [setStage_ne _ _ hut]
    exact hno u item'
  | starting v item' hact' hactive hsent hv hitem hno | busy item' hact' hactive hsent hitem hno =>
    exact absurd (hact.symm.trans hact') (by simp)

/-- The writer that has set `activated` begins the transfer. -/
theorem Inv.transmit (hi : Inv x) (ht : x.serial.stage t = .starting item) :
    Inv (Traced.record { x with serial := setStage { x.serial with
      active := x.serial.active ++ [item] } t .outside } (.transmit item)) := by
  cases hi.phase with
  | idle hact hactive hsent hno hto | busy item' hact hactive hsent hitem hno =>
    exact absurd ht (hno t item)
  | starting v item' hact hactive hsent hv hitem hno =>
    have hvt : t = v := by
      by_contra hne
      exact hno t hne item ht
    subst hvt
    obtain rfl : item' = item := by simpa using hv.symm.trans ht
    have hkept : ∀ u stage,
        (setStage { x.serial with active := x.serial.active ++ [item'] } t .outside).stage u = stage →
          stage ≠ .outside → x.serial.stage u = stage := by
      intro u stage hu hne
      have hut : u ≠ t := by
        rintro rfl
        rw [setStage_self] at hu
        exact hne hu.symm
      rwa [setStage_ne _ _ hut] at hu
    refine ⟨hi.rep, fun u item hu => hi.calls u item (hkept u _ hu (by simp)), hi.popped, hi.items,
      fun u item hu => hi.tickets u item (hkept u _ hu (by simp)), hi.finished, hi.completed, ?_⟩
    refine .busy item' hact ?_ ?_ hitem fun u item hu => ?_
    · show x.serial.active ++ [item'] = [item']
      rw [hactive, List.nil_append]
    · show x.transmitted ++ [item'] = x.accepted.take (x.popped + 1)
      rw [List.take_add_one, hitem, hsent]
      rfl
    · have hold := hkept u _ hu (by simp)
      refine hno u ?_ item hold
      rintro rfl
      cases (setStage_self { x.serial with active := x.serial.active ++ [item'] } u
        .outside).symm.trans hu

/-- A transfer is finished, and the next one is begun if there is a buffer. -/
theorem Inv.interrupt (hi : Inv x) {r : State × List Event} (hr : rtHwSerialIsr x.serial = some r) :
    Inv (r.2.foldl Traced.record { x with serial := r.1 }) := by
  obtain ⟨k, hrep⟩ := hi.rep
  cases hi.phase with
  | idle hact hactive hsent hno hto | starting v item' hact hactive hsent ht hitem hno =>
    simp [rtHwSerialIsr, hactive] at hr
  | busy item hact hactive hsent hitem hno =>
    have hlt : x.popped < x.accepted.length := (List.getElem?_eq_some_iff.mp hitem).1
    have hhead : x.serial.queue.dq.items.head? = some item := by
      rw [hi.items, List.head?_drop, hitem]
    obtain ⟨q, hpop, ⟨k', hrep'⟩, hcall, htail⟩ := isrPop_spec hrep
    rw [hhead] at hpop
    have hitems : q.dq.items = x.accepted.drop (x.popped + 1) := by
      rw [htail, hi.items, List.tail_drop]
    have hpeek : isrPeek q = x.accepted[x.popped + 1]? := by
      rw [isrPeek_spec hrep', hitems, List.head?_drop]
    have hcalls : ∀ t item, x.serial.stage t = .pushing item →
        q.call t = .pushing item waitingForever := by
      intro t item ht
      rw [hcall]
      exact hi.calls t item ht
    have hfinished : x.finished ++ [item] = x.accepted.take (x.popped + 1) := by
      rw [List.take_add_one, hitem, hi.finished]
      rfl
    have hcompleted : x.completed ++ [some item] = (x.finished ++ [item]).map some := by
      rw [List.map_append, hi.completed]
      rfl
    simp only [rtHwSerialIsr, hactive, hpop, Option.map_some, Option.some.injEq] at hr
    cases hnext : x.accepted[x.popped + 1]? with
    | none =>
      rw [hpeek, hnext] at hr
      subst hr
      refine ⟨⟨k', hrep'⟩, hcalls, hlt, hitems, hi.tickets, hfinished, hcompleted, ?_⟩
      refine .idle rfl rfl hsent hno fun i hi₁ hi₂ => ?_
      have hle : x.accepted.length ≤ x.popped + 1 := List.getElem?_eq_none_iff.mp hnext
      exact absurd (Nat.lt_of_lt_of_le hi₂ hle) (Nat.not_lt.mpr hi₁)
    | some next =>
      rw [hpeek, hnext] at hr
      subst hr
      refine ⟨⟨k', hrep'⟩, hcalls, hlt, hitems, hi.tickets, hfinished, hcompleted, ?_⟩
      refine .busy next rfl rfl ?_ hnext hno
      show x.transmitted ++ [next] = x.accepted.take (x.popped + 1 + 1)
      rw [List.take_add_one, hnext, hsent]
      rfl

/-- What follows a part of the push keeps the invariant. -/
theorem Inv.afterPush (hi : Inv x) (hp : Pushes x.serial.queue t item q ret)
    (hold : ∀ item, x.serial.stage t ≠ .starting item ∧ x.serial.stage t ≠ .pushed item) :
    Inv ((SerialTx.afterPush x.serial t item (q, ret)).2.foldl Traced.record
      { x with serial := (SerialTx.afterPush x.serial t item (q, ret)).1 }) := by
  have hother : ∀ u, u ≠ t → q.call u = x.serial.queue.call u := by
    intro u hut
    rw [hp.call, Function.update_of_ne hut]
  obtain ⟨rfl, hitems⟩ | ⟨rfl | ⟨err, herr, rfl⟩, hitems⟩ := hp.effect
  · exact hi.accept hp.rep hitems hother hold
  · refine hi.stays hp.rep hitems hother (fun item' heq => ?_) (fun item => (hold item).1)
      (fun _ item => (hold item).2) (by simp)
    cases heq
    rw [hp.call, Function.update_self, if_pos rfl]
  · have hafter : SerialTx.afterPush x.serial t item (q, some ⟨err, none⟩) =
        (setStage { x.serial with queue := q } t .outside, [.ret t 0]) := by
      cases err with
      | eok => exact absurd rfl herr
      | _ => rfl
    rw [hafter]
    exact hi.stays hp.rep hitems hother (by simp) (fun item => (hold item).1)
      (fun _ item => (hold item).2) (by simp)

theorem tracedStep_inv {x' : Traced} {op : Op} (hi : Inv x) (hown : OwnFirst x op)
    (hs : tracedStep x op = some x') : Inv x' := by
  obtain ⟨r, hcall, rfl⟩ := Option.map_eq_some_iff.mp hs
  obtain ⟨k, hrep⟩ := hi.rep
  cases op with
  | write t item =>
    obtain ⟨hout, hcall⟩ := Option.ite_none_right_eq_some.mp hcall
    obtain ⟨⟨q, ret⟩, hpush, rfl⟩ := Option.map_eq_some_iff.mp hcall
    exact hi.afterPush (push_pushes hrep hpush) fun item' => by simp [hout]
  | interrupt => exact hi.interrupt hcall
  | proceed t =>
    cases ht : x.serial.stage t with
    | outside => simp [call, ht] at hcall
    | pushing item =>
      simp only [call, ht, Option.map_eq_some_iff] at hcall
      obtain ⟨⟨q, ret⟩, hback, rfl⟩ := hcall
      exact hi.afterPush (switchBack_pushes hrep (hi.calls t item ht) hback) fun item' => by simp [ht]
    | pushed item =>
      simp only [call, ht, Option.some.injEq] at hcall
      subst hcall
      simp only [OwnFirst, ht] at hown
      rw [test]
      split
      · rename_i hact
        refine hi.stays (q := x.serial.queue) hi.rep rfl (fun _ _ => rfl) (by simp)
          (by simp [ht]) (fun hfalse => ?_) (by simp)
        rw [hact] at hfalse
        cases hfalse
      · rename_i hact
        have hact : x.serial.activated = false := Bool.eq_false_iff.mpr hact
        exact hi.activate hact ht (hown hact)
    | starting item =>
      simp only [call, ht, Option.some.injEq] at hcall
      subst hcall
      exact hi.transmit ht

theorem Inv.inOrder (hi : Inv x) : InOrder x := by
  have htake : ∀ n, x.transmitted = x.accepted.take n →
      x.transmitted = x.accepted.take x.transmitted.length := by
    intro n hn
    rw [hn, List.length_take, List.take_eq_take_iff]
    omega
  cases hi.phase with
  | idle hact hactive hsent hno hto =>
    refine ⟨htake _ hsent, by simp [hactive], hi.completed, fun hlt => .inr ?_⟩
    rw [hsent, List.length_take] at hlt
    obtain ⟨t, item, ht, -⟩ := hto x.popped (Nat.le_refl _) (by omega)
    exact ⟨t, by rw [ht]; rfl⟩
  | starting t item hact hactive hsent ht hitem hno =>
    exact ⟨htake _ hsent, by simp [hactive], hi.completed, fun _ => .inr ⟨t, by rw [ht]; rfl⟩⟩
  | busy item hact hactive hsent hitem hno =>
    exact ⟨htake _ hsent, by simp [hactive], hi.completed, fun _ => .inl (by simp [hactive])⟩

end inv

theorem inv_start (queue : Nat → RtDataItem) (priority : ThreadId → Nat) :
    Inv (start queue priority) where
  rep := ⟨0, DataQueue.rep_init (by decide)⟩
  calls := fun _ _ ht => Stage.noConfusion ht
  popped := Nat.le_refl _
  items := List.eq_nil_of_length_eq_zero
    (((DataQueue.rep_init (by decide)).length_items queueSize_le))
  tickets := fun _ _ ht => Stage.noConfusion ht
  finished := rfl
  completed := rfl
  phase := .idle rfl rfl rfl (fun _ _ ht => Stage.noConfusion ht)
    fun i _ hi => absurd hi (Nat.not_lt_zero i)

/-- In every run in which each writer that finds `activated` clear has pushed the oldest buffer of
the queue, the transfers are in order. -/
theorem serial_dma_tx_in_order (queue : Nat → RtDataItem) (priority : ThreadId → Nat)
    (ops : List Op) (hok : Runs.Along tracedStep OwnFirst (start queue priority) ops) :
    Runs.Always tracedStep InOrder (start queue priority) ops :=
  hok.always (fun _ _ _ hi hown hs => tracedStep_inv hi hown hs) (fun _ hi => hi.inOrder)
    (inv_start queue priority)

/-- The second writer tests `activated` when the first transfer is on its way. -/
def oneAfterTheOther : List Op :=
  [.write 1 ⟨1, 16⟩, .proceed 1, .write 2 ⟨2, 16⟩, .proceed 1, .proceed 2, .interrupt, .interrupt]

theorem serial_dma_tx_in_order_two :
    Runs.Always tracedStep InOrder (start (fun _ => ⟨0, 0⟩) fun _ => 20) oneAfterTheOther ∧
      (Runs.run tracedStep (start (fun _ => ⟨0, 0⟩) fun _ => 20) oneAfterTheOther).map
        (fun x => x.transmitted) = some [⟨1, 16⟩, ⟨2, 16⟩] :=
  ⟨serial_dma_tx_in_order _ _ oneAfterTheOther (by decide +kernel), by decide +kernel⟩

/-- Both writers push before the second one tests `activated`. -/
def twoPushes : List Op :=
  [.write 1 ⟨1, 16⟩, .write 2 ⟨2, 16⟩, .proceed 2, .proceed 2, .proceed 1, .interrupt]

/-- The second buffer is handed over twice and the first one never, and the callback is given the
first one when the second one is finished. -/
theorem second_buffer_first : ∃ x,
    Runs.run tracedStep (start (fun _ => ⟨0, 0⟩) fun _ => 20) twoPushes = some x ∧
      x.accepted = [⟨1, 16⟩, ⟨2, 16⟩] ∧ x.transmitted = [⟨2, 16⟩, ⟨2, 16⟩] ∧
      x.finished = [⟨2, 16⟩] ∧ x.completed = [some ⟨1, 16⟩] ∧ ¬ InOrder x := by
  have hlast : (Runs.run tracedStep (start (fun _ => ⟨0, 0⟩) fun _ => 20) twoPushes).map
      (fun x => (x.accepted, x.transmitted, x.finished, x.completed)) =
        some ([⟨1, 16⟩, ⟨2, 16⟩], [⟨2, 16⟩, ⟨2, 16⟩], [⟨2, 16⟩], [some ⟨1, 16⟩]) := by
    decide +kernel
  obtain ⟨x, hrun, hx⟩ := Option.map_eq_some_iff.mp hlast
  simp only [Prod.mk.injEq] at hx
  obtain ⟨haccepted, htransmitted, hfinished, hcompleted⟩ := hx
  refine ⟨x, hrun, haccepted, htransmitted, hfinished, hcompleted, fun h => ?_⟩
  have horder := h.order
  rw [htransmitted, haccepted] at horder
  revert horder
  decide

end RtThread.SerialTx
