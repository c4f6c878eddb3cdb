import RtThread.Lib.Buckets
import RtThread.Lib.BitSets
import RtThread.MempoolPartition
import RtThread.PrioQueue

/-!
# A priority queue as one FIFO for each priority

Every item belongs to the list of a priority, or to the thread that is filling or emptying it,
or to the pool. The lists are chains from `head` to `tail`; the `tail` of an empty one is of no
account. A pusher resumes a popper without giving it the item, so another popper may be first;
while a popper is suspended, the items are at most the poppers that have been resumed and have
not looked again.
-/
namespace RtThread.PrioQueue

open Function (update_eq_self update_of_ne update_self)
open Ipc Counting LinkedChain
open Mempool (Addr Live Usable)

/-- A queue, with the data that have been pushed with each priority, how many of them have been
popped, and the data that the pops which have an item are going to return. -/
structure Traced where
  que : State
  pushed : Nat → List (List Byte)
  popped : Nat → Nat
  taken : ThreadId → Option (List Byte)

/-- The FIFO of a priority. -/
def Traced.queue (x : Traced) (p : Nat) : List (List Byte) := (x.pushed p).drop (x.popped p)

def Traced.push (x : Traced) (que : State) (prio : Nat) (data : List Byte) : Traced :=
  { x with que := que, pushed := Function.update x.pushed prio (x.pushed prio ++ [data]) }

/-- The oldest data of the most urgent priority go to a thread that has got an item. -/
def Traced.pop (x : Traced) (que : State) (t : ThreadId) : Traced :=
  match que.stage t, Buckets.least rtPrioQueuePrioMax x.queue with
  | .emptying _, some p =>
    { x with
      que := que
      popped := Function.update x.popped p (x.popped p + 1)
      taken := Function.update x.taken t (x.queue p).head? }
  | _, _ => { x with que := que }

def Traced.after (x : Traced) (que : State) : Op → Traced
  | .pop t _ => x.pop que t
  | .proceed t =>
    match x.que.stage t with
    | .linking prio _ data => x.push que prio data
    | .waiting _ => x.pop que t
    | .freeing _ _ => { x with que := que, taken := Function.update x.taken t none }
    | _ => { x with que := que }
  | _ => { x with que := que }

def tracedStep (x : Traced) (op : Op) : Option Traced :=
  (call x.que op).map fun r => x.after r.1 op

def start (s : State) : Traced := ⟨s, fun _ => [], fun _ => 0, fun _ => none⟩

/-- What a thread in a pop waits for. -/
def Stage.role : Stage → Option Unit
  | .waiting _ => some ()
  | _ => none

def role (s : State) (t : ThreadId) : Option Unit := (s.stage t).role

/-- The thread is suspended in `rt_prio_queue_pop`. -/
def Waits (s : State) (t : ThreadId) : Prop :=
  (s.waiters.thread t).suspended = true ∧ role s t = some ()

/-- The item with its data ends before the block of the other begins. -/
def Before (s : State) (a b : Nat) : Prop := a + itemSize + s.itemSz + Mempool.pointerSize ≤ b

/-- The queue holds the FIFOs of the priorities in its lists; an item is only taken when it is
the oldest one of the most urgent priority, and returned with the data it was pushed with; no
assertion is going to fail; and while a thread waits there are at most as many items as resumed
threads. Items that are in use do not overlap, unless their size is cut to the word. -/
structure Sound (x : Traced) : Prop where
  list : ∀ p, ∃ items, Chain x.que.next (x.que.head p) items ∧
    items.map x.que.data = x.queue p
  bitmap : ∀ p < rtPrioQueuePrioMax, x.que.bitmap.getLsbD p = true ↔ x.que.head p ≠ none
  kept : ∀ p, x.popped p ≤ (x.pushed p).length
  takes : ∀ op s' ret t item, call x.que op = some (s', ret) → s'.stage t = .emptying item →
    x.que.stage t = .emptying item ∨
      ∃ p rest, x.queue p = s'.data item :: rest ∧ ∀ i < p, x.queue i = []
  returns : ∀ op s' data, call x.que op = some (s', some (.pop data)) →
    ∃ t, op = .proceed t ∧ x.taken t = some data
  links : ∀ t prio item data, x.que.stage t = .linking prio item data →
    (call x.que (.proceed t)).isSome
  frees : ∀ t item data, x.que.stage t = .freeing item data → (call x.que (.proceed t)).isSome
  pops : (doPop x.que).isSome
  served : ∀ t, Waits x.que t →
    AtLeast (Buckets.total rtPrioQueuePrioMax x.queue) (x.que.waiters.Woken (role x.que) ())
  apart : x.que.itemSz + 8 ≤ 2 ^ 32 → ∀ a b, Live x.que.pool a → Live x.que.pool b → a ≠ b →
    Before x.que a b ∨ Before x.que b a

/-! ## The lists -/

/-- Whom an item belongs to. -/
inductive Owner where
  | list (p : Nat)
  | thread (t : ThreadId)

/-- `items p` is the list of the priority `p`. -/
structure Heap (s : State) (own : Addr → Option Owner) (items : Nat → List Addr) : Prop where
  chain : ∀ p, Chain s.next (s.head p) (items p)
  tail : ∀ p, items p ≠ [] → s.tail p = (items p).getLast?
  nodup : ∀ p, (items p).Nodup
  own : ∀ p, ∀ a ∈ items p, own a = some (.list p)
  bit : ∀ p, s.bitmap.getLsbD p = true ↔ items p ≠ []

section heap

variable {s s' : State} {own own' : Addr → Option Owner} {items : Nat → List Addr} {t : ThreadId}
  {p prio : Nat} {item : Addr}

theorem Heap.lt (h : Heap s own items) (hne : items p ≠ []) : p < rtPrioQueuePrioMax :=
  BitVec.lt_of_getLsbD ((h.bit p).mpr hne)

theorem Heap.not_mem (h : Heap s own items) (hown : own item = some (.thread t)) (p : Nat) :
    item ∉ items p := by
  intro hm
  have hlist := h.own p item hm
  rw [hown] at hlist
  cases hlist

/-- The items that are in no list may change. -/
theorem Heap.frame (h : Heap s own items) (hhead : s'.head = s.head) (htail : s'.tail = s.tail)
    (hbitmap : s'.bitmap = s.bitmap)
    (hsame : ∀ p, ∀ a ∈ items p, own' a = own a ∧ s'.next a = s.next a) :
    Heap s' own' items where
  chain := fun p => by
    rw [hhead]
    exact (h.chain p).congr fun a ha => (hsame p a ha).2
  tail := fun p hne => by
    rw [htail]
    exact h.tail p hne
  nodup := h.nodup
  own := fun p a ha => (hsame p a ha).1.trans (h.own p a ha)
  bit := fun p => by
    rw [hbitmap]
    exact h.bit p

/-- What the sections leave alone. -/
structure SameCalls (s s' : State) : Prop where
  itemSz : s'.itemSz = s.itemSz
  pool : s'.pool = s.pool
  waiters : s'.waiters = s.waiters
  data : s'.data = s.data
  stage : s'.stage = s.stage

/-- An item goes behind the last one of its priority. -/
theorem Heap.doPush (h : Heap s own items) (hp : prio < rtPrioQueuePrioMax)
    (hown : own item = some (.thread t)) (hnext : s.next item = none) :
    ∃ s', doPush s prio item = some s' ∧ SameCalls s s' ∧
      (∀ a u, own a = some (.thread u) → s'.next a = s.next a) ∧
      Heap s' (Function.update own item (some (.list prio)))
        (Function.update items prio (items prio ++ [item])) := by
  have hnot := h.not_mem hown
  have hnodup : ∀ p, (Function.update items prio (items prio ++ [item]) p).Nodup := by
    intro p
    by_cases hpp : p = prio
    · subst hpp
      rw [update_self, List.nodup_append]
      refine ⟨h.nodup p, List.nodup_singleton _, fun a ha b hb => ?_⟩
      obtain rfl := List.mem_singleton.mp hb
      rintro rfl
      exact hnot p ha
    · rw [update_of_ne hpp]
      exact h.nodup p
  have howner : ∀ p, ∀ a ∈ Function.update items prio (items prio ++ [item]) p,
      Function.update own item (some (.list prio)) a = some (.list p) := by
    intro p a ha
    by_cases hpp : p = prio
    · subst hpp
      rw [update_self, List.mem_append, List.mem_singleton] at ha
      by_cases hai : a = item
      · rw [hai, update_self]
      · rw [update_of_ne hai]
        exact h.own p a (ha.resolve_right hai)
    · rw [update_of_ne hpp] at ha
      have hai : a ≠ item := by
        rintro rfl
        exact hnot p ha
      rw [update_of_ne hai]
      exact h.own p a ha
  have htail : ∀ p, Function.update items prio (items prio ++ [item]) p ≠ [] →
      Function.update s.tail prio (some item) p =
        (Function.update items prio (items prio ++ [item]) p).getLast? := by
    intro p hne
    by_cases hpp : p = prio
    · subst hpp
      simp
    · rw [update_of_ne hpp] at hne ⊢
      rw [update_of_ne hpp]
      exact h.tail p hne
  rw [PrioQueue.doPush]
  cases hhead : s.head prio with
  | none =>
    have hnil : items prio = [] := by
      have hc := h.chain prio
      rw [hhead] at hc
      exact hc.of_none
    refine ⟨_, rfl, ⟨rfl, rfl, rfl, rfl, rfl⟩, fun _ _ _ => rfl,
      fun p => ?_, htail, hnodup, howner, fun p => ?_⟩
    · by_cases hpp : p = prio
      · subst hpp
        rw [hnil, List.nil_append, update_self]
        exact ⟨update_self _ _ _, hnext⟩
      · simp only [update_of_ne hpp]
        exact h.chain p
    · have hset := BitSets.getLsbD_set s.bitmap (show prio < 32 from hp) p
      rw [show _ = _ from hset, Bool.or_eq_true, h.bit, decide_eq_true_iff]
      by_cases hpp : p = prio
      · simp [hpp]
      · simp [hpp]
  | some first =>
    have hne : items prio ≠ [] := by
      intro hnil
      have hc := h.chain prio
      rw [hnil, hhead] at hc
      cases hc
    obtain ⟨l, last, hl⟩ := List.eq_nil_or_concat' (items prio) |>.resolve_left hne
    have hlast : s.tail prio = some last := by
      rw [h.tail prio hne, hl]
      simp
    have hmem : last ∈ items prio := by simp [hl]
    refine ⟨{ s with
        next := Function.update s.next last (some item)
        tail := Function.update s.tail prio (some item) }, by rw [hlast]; rfl,
      ⟨rfl, rfl, rfl, rfl, rfl⟩, fun a u ha => ?_, fun p => ?_, htail, hnodup, howner, fun p => ?_⟩
    · have hal : a ≠ last := by
        rintro rfl
        exact h.not_mem ha prio hmem
      exact update_of_ne hal _ _
    · by_cases hpp : p = prio
      · subst hpp
        have hc := h.chain p
        have hnd := h.nodup p
        have hi := hnot p
        rw [hl] at hc hnd hi
        rw [update_self, hl, List.append_assoc]
        exact hc.append hnd hi hnext
      · rw [update_of_ne hpp]
        refine (h.chain p).update (fun hm => ?_) _
        have howner := h.own p last hm
        rw [h.own prio last hmem] at howner
        cases howner
        exact hpp rfl
    · rw [h.bit]
      by_cases hpp : p = prio
      · simp [hpp, hne]
      · simp [hpp]

/-- The oldest item of the most urgent priority is taken off its list. -/
theorem Heap.doPop (h : Heap s own items) (t : ThreadId) :
    ((∀ p, items p = []) ∧ doPop s = some (none, s)) ∨
      ∃ p item rest s', items p = item :: rest ∧ (∀ i < p, items i = []) ∧
        doPop s = some (some item, s') ∧ SameCalls s s' ∧ s'.next = s.next ∧
        Heap s' (Function.update own item (some (.thread t))) (Function.update items p rest) := by
  by_cases hzero : s.bitmap = 0
  · refine .inl ⟨fun p => ?_, ?_⟩
    · by_contra hne
      have hbit := (h.bit p).mpr hne
      rw [hzero] at hbit
      simp at hbit
    · rw [PrioQueue.doPop, hzero]
      rfl
  · obtain ⟨p, hffs, hset, hbelow⟩ := Kservice.rtFfs_lowest s.bitmap hzero
    have hlow : ∀ i < p, items i = [] := by
      intro i hi
      by_contra hne
      have hclear := hbelow i hi
      rw [(h.bit i).mpr hne] at hclear
      cases hclear
    obtain ⟨item, rest, hitems⟩ := List.exists_cons_of_ne_nil ((h.bit p).mp hset)
    have hlt : p < 32 := h.lt ((h.bit p).mp hset)
    have hc := h.chain p
    rw [hitems] at hc
    obtain ⟨hhead, hrest⟩ := hc
    have hnd := h.nodup p
    rw [hitems, List.nodup_cons] at hnd
    have hitem : item ∈ items p := by simp [hitems]
    have hnone : s.next item = none ↔ rest = [] := by
      constructor
      · intro hnone
        rw [hnone] at hrest
        exact hrest.of_none
      · rintro rfl
        exact hrest
    refine .inr ⟨p, item, rest, { s with
        head := Function.update s.head p (s.next item)
        bitmap := if s.next item = none then s.bitmap &&& ~~~(1#32 <<< p) else s.bitmap },
      hitems, hlow, ?_, ⟨rfl, rfl, rfl, rfl, rfl⟩, rfl,
      fun i => ?_, fun i hne => ?_, fun i => ?_, fun i a ha => ?_, fun i => ?_⟩
    · simp only [PrioQueue.doPop, hffs, Nat.add_sub_cancel, hhead]
      rfl
    · by_cases hip : i = p
      · subst hip
        simp only [update_self]
        exact hrest
      · simp only [update_of_ne hip]
        exact h.chain i
    · by_cases hip : i = p
      · subst hip
        rw [update_self] at hne ⊢
        have htail := h.tail i ((h.bit i).mp hset)
        rw [hitems, List.getLast?_cons_of_ne_nil hne] at htail
        exact htail
      · rw [update_of_ne hip] at hne ⊢
        exact h.tail i hne
    · by_cases hip : i = p
      · subst hip
        rw [update_self]
        exact hnd.2
      · rw [update_of_ne hip]
        exact h.nodup i
    · have hai : a ≠ item := by
        rintro rfl
        by_cases hip : i = p
        · subst hip
          rw [update_self] at ha
          exact hnd.1 ha
        · rw [update_of_ne hip] at ha
          have hown := h.own i a ha
          rw [h.own p a hitem] at hown
          cases hown
          exact hip rfl
      rw [update_of_ne hai]
      refine h.own i a ?_
      by_cases hip : i = p
      · subst hip
        rw [update_self] at ha
        rw [hitems]
        exact List.mem_cons_of_mem item ha
      · rwa [update_of_ne hip] at ha
    · by_cases hip : i = p
      · subst hip
        rw [update_self]
        by_cases hrest : rest = []
        · simp only [hnone.mpr hrest, if_true]
          rw [BitSets.getLsbD_clear s.bitmap hlt hlt]
          simp [hrest]
        · have hnot : s.next item ≠ none := fun heq => hrest (hnone.mp heq)
          simp only [hnot, if_false]
          simp [hset, hrest]
      · rw [update_of_ne hip, ← h.bit i]
        by_cases hnext : s.next item = none
        · simp only [hnext, if_true]
          by_cases hi : i < 32
          · rw [BitSets.getLsbD_clear s.bitmap hlt hi]
            simp [hip]
          · simp [BitVec.getLsbD_of_ge _ _ (Nat.le_of_not_lt hi)]
        · simp only [hnext, if_false]

end heap

/-! ## The threads -/

/-- What a thread has in its hands. -/
def Holds (x : Traced) (own : Addr → Option Owner) (t : ThreadId) : Prop :=
  match x.que.stage t with
  | .outside | .waiting _ => x.taken t = none
  | .allocating prio _ => prio < rtPrioQueuePrioMax ∧ x.taken t = none
  | .filling prio item _ =>
    prio < rtPrioQueuePrioMax ∧ own item = some (.thread t) ∧ x.taken t = none
  | .linking prio item data =>
    prio < rtPrioQueuePrioMax ∧ own item = some (.thread t) ∧ x.que.next item = none ∧
      x.que.data item = data ∧ x.taken t = none
  | .emptying item => own item = some (.thread t) ∧ x.taken t = some (x.que.data item)
  | .freeing item data => own item = some (.thread t) ∧ x.taken t = some data

/-- The blocks of the pool have room for the items. -/
structure PoolOk (pool : Mempool.State) (itemSz : Nat) : Prop where
  usable : Usable pool
  room : itemSz + 8 ≤ 2 ^ 32 → itemSize + itemSz + Mempool.pointerSize ≤ pool.mp.stride

theorem PoolOk.result {pool pool' : Mempool.State} {itemSz : Nat} {ret : Option (Option Addr)}
    (h : PoolOk pool itemSz) (hres : Mempool.Result pool pool' ret) : PoolOk pool' itemSz where
  usable := h.usable.result hres
  room := by
    rw [hres.blocks.2]
    exact h.room

structure Inv (x : Traced) (own : Addr → Option Owner) (items : Nat → List Addr) : Prop where
  heap : Heap x.que own items
  data : ∀ p, (items p).map x.que.data = x.queue p
  kept : ∀ p, x.popped p ≤ (x.pushed p).length
  holds : ∀ t, Holds x own t
  live : ∀ a, own a ≠ none → Live x.que.pool a
  pool : PoolOk x.que.pool x.que.itemSz
  calls : ∀ t, x.que.pool.call t ≠ .outside → ∃ prio data, x.que.stage t = .allocating prio data
  waiters : x.que.waiters.Balanced (role x.que) fun _ => Buckets.total rtPrioQueuePrioMax x.queue

section threads

variable {x x' : Traced} {own own' : Addr → Option Owner} {items : Nat → List Addr}
  {s : State} {t u : ThreadId} {stage : Stage} {p prio : Nat} {data : List Byte}

theorem Holds.frame (h : Holds x own t) (hstage : x'.que.stage t = x.que.stage t)
    (htaken : x'.taken t = x.taken t)
    (hsame : ∀ a, own a = some (.thread t) →
      own' a = own a ∧ x'.que.next a = x.que.next a ∧ x'.que.data a = x.que.data a) :
    Holds x' own' t := by
  rw [Holds] at h ⊢
  rw [hstage, htaken]
  cases hs : x.que.stage t with
  | outside | waiting | allocating =>
    rw [hs] at h
    exact h
  | filling prio item data =>
    rw [hs] at h
    exact ⟨h.1, (hsame item h.2.1).1.trans h.2.1, h.2.2⟩
  | linking prio item data =>
    rw [hs] at h
    obtain ⟨hprio, hown, hnext, hdata, htaken⟩ := h
    obtain ⟨hown', hnext', hdata'⟩ := hsame item hown
    exact ⟨hprio, hown'.trans hown, hnext'.trans hnext, hdata'.trans hdata, htaken⟩
  | emptying item =>
    rw [hs] at h
    obtain ⟨hown', -, hdata'⟩ := hsame item h.1
    exact ⟨hown'.trans h.1, h.2.trans (congrArg some hdata'.symm)⟩
  | freeing item data =>
    rw [hs] at h
    exact ⟨(hsame item h.1).1.trans h.1, h.2⟩

theorem role_setStage (s : State) (t : ThreadId) (stage : Stage) :
    role (setStage s t stage) = Function.update (role s) t stage.role := by
  funext u
  by_cases hut : u = t
  · subst hut
    simp [role, setStage]
  · simp [role, setStage, hut]

/-- A thread that neither was waiting nor is. -/
theorem role_same (hold : (s.stage t).role = none) (hnew : stage.role = none) :
    role (setStage s t stage) = role s := by
  rw [role_setStage, hnew, ← hold]
  exact update_eq_self t (role s)

theorem queue_push (hkept : x.popped prio ≤ (x.pushed prio).length) (s : State) :
    (x.push s prio data).queue = Function.update x.queue prio (x.queue prio ++ [data]) := by
  funext p
  by_cases hpp : p = prio
  · subst hpp
    simp [Traced.queue, Traced.push, List.drop_append_of_le_length hkept]
  · simp [Traced.queue, Traced.push, hpp]

/-- What a pop does that gets an item. -/
theorem pop_eq {rest : List (List Byte)} {item : Addr} (hstage : s.stage t = .emptying item)
    (hp : p < rtPrioQueuePrioMax) (hqueue : x.queue p = data :: rest)
    (hlow : ∀ i < p, x.queue i = []) :
    x.pop s t = { x with
        que := s
        popped := Function.update x.popped p (x.popped p + 1)
        taken := Function.update x.taken t (some data) } ∧
      (x.pop s t).queue = Function.update x.queue p rest ∧
      x.popped p + 1 ≤ (x.pushed p).length := by
  have hne : x.queue p ≠ [] := by simp [hqueue]
  have heq : x.pop s t = { x with
      que := s
      popped := Function.update x.popped p (x.popped p + 1)
      taken := Function.update x.taken t (some data) } := by
    simp only [Traced.pop, hstage, Buckets.least_eq_some hp hne hlow, hqueue]
    rfl
  refine ⟨heq, ?_, ?_⟩
  · rw [heq]
    funext i
    by_cases hip : i = p
    · subst hip
      rw [update_self, Traced.queue]
      simp only [update_self]
      rw [← List.drop_drop]
      show (x.queue i).drop 1 = rest
      rw [hqueue]
      rfl
    · simp [Traced.queue, hip]
  · by_contra hover
    have hnil : x.queue p = [] := by
      rw [Traced.queue, List.drop_eq_nil_iff]
      omega
    exact hne hnil

theorem Inv.queue_eq_nil (hi : Inv x own items) : x.queue p = [] ↔ items p = [] := by
  rw [← hi.data, List.map_eq_nil_iff]

theorem Inv.notSuspended (hi : Inv x own items) (hrole : (x.que.stage t).role = none) :
    (x.que.waiters.thread t).suspended = false := by
  rw [Bool.eq_false_iff]
  intro hsus
  obtain ⟨r, hr⟩ := hi.waiters.ok.listed t hsus
  have hsome := (hi.waiters.ok.waits r t hr).2.2
  rw [role, hrole] at hsome
  cases hsome

end threads

/-! ## Steps -/

/-- What a step keeps, with what it takes and what it returns. -/
structure Kept (x x' : Traced) (op : Op) (ret : Option Ret) : Prop where
  inv : ∃ own items, Inv x' own items
  takes : ∀ t item, x'.que.stage t = .emptying item → x.que.stage t = .emptying item ∨
    ∃ p rest, x.queue p = x'.que.data item :: rest ∧ ∀ i < p, x.queue i = []
  returns : ∀ data, ret = some (.pop data) → ∃ t, op = .proceed t ∧ x.taken t = some data

section steps

variable {x x' : Traced} {own own' : Addr → Option Owner} {items : Nat → List Addr}
  {s : State} {t u : ThreadId} {stage : Stage} {p prio : Nat} {data : List Byte} {item : Addr}
  {op : Op} {ret : Option Ret}

/-- The hands of the threads after a step that leaves those of the others alone. -/
theorem Inv.holds_of (hi : Inv x own items) (ht : Holds x' own' t)
    (hstage : ∀ u, u ≠ t → x'.que.stage u = x.que.stage u)
    (htaken : ∀ u, u ≠ t → x'.taken u = x.taken u)
    (hsame : ∀ u, u ≠ t → ∀ a, own a = some (.thread u) →
      own' a = own a ∧ x'.que.next a = x.que.next a ∧ x'.que.data a = x.que.data a) :
    ∀ u, Holds x' own' u := by
  intro u
  by_cases hut : u = t
  · rw [hut]
    exact ht
  · exact (hi.holds u).frame (hstage u hut) (htaken u hut) (hsame u hut)

/-- A step that gets no item. -/
theorem takes_of_stage (hstage : x'.que.stage = Function.update x.que.stage t stage)
    (hnot : ∀ item, stage ≠ .emptying item) (u : ThreadId) (item : Addr)
    (hu : x'.que.stage u = .emptying item) : x.que.stage u = .emptying item := by
  rw [hstage] at hu
  by_cases hut : u = t
  · subst hut
    rw [update_self] at hu
    exact absurd hu (hnot item)
  · rwa [update_of_ne hut] at hu

theorem Kept.silent (hinv : Inv x' own items)
    (hstage : x'.que.stage = Function.update x.que.stage t stage)
    (hnot : ∀ item, stage ≠ .emptying item) (hret : ∀ data, ret ≠ some (.pop data)) :
    Kept x x' op ret :=
  ⟨⟨own, items, hinv⟩, fun u item hu => .inl (takes_of_stage hstage hnot u item hu),
    fun data h => absurd h (hret data)⟩

/-- The calls of the pool, when the thread of the step is in none. -/
theorem Inv.calls_of (hi : Inv x own items)
    (hnot : ∀ prio data, x.que.stage t ≠ .allocating prio data)
    (hcall : s.pool.call = x.que.pool.call) (hstage : ∀ u, u ≠ t → s.stage u = x.que.stage u)
    (hu : s.pool.call u ≠ .outside) : ∃ prio data, s.stage u = .allocating prio data := by
  rw [hcall] at hu
  obtain ⟨prio, data, hu'⟩ := hi.calls u hu
  have hut : u ≠ t := by
    rintro rfl
    exact hnot prio data hu'
  exact ⟨prio, data, (hstage u hut).trans hu'⟩

/-- `rt_mp_alloc` returns, or the thread waits in it. -/
theorem Inv.allocate (hi : Inv x own items) {poolOp : Mempool.Op} (hprio : prio < rtPrioQueuePrioMax)
    (htaken : x.taken t = none) (hrole : (x.que.stage t).role = none)
    (hop : ∀ pool ret, Mempool.call x.que.pool poolOp = some (pool, ret) →
      Mempool.Allocates x.que.pool t pool ret)
    (h : allocate x.que t poolOp prio data = some (s, ret)) :
    Kept x { x with que := s } op ret := by
  obtain ⟨⟨pool, poolRet⟩, hcall, heq⟩ := Option.map_eq_some_iff.mp h
  have halloc := hop pool poolRet hcall
  have hpool := hi.pool.result (Mempool.call_result hcall)
  have hlive : ∀ a, Live x.que.pool a → Live pool a := fun a ha => (halloc.live a).mpr (.inr ha)
  have hframe : ∀ stage, Heap (setStage { x.que with pool := pool } t stage) own items :=
    fun _ => hi.heap.frame rfl rfl rfl fun _ _ _ => ⟨rfl, rfl⟩
  have hcalls : ∀ stage : Stage, (pool.call t ≠ .outside → ∃ prio data, stage = .allocating prio data) →
      ∀ u, pool.call u ≠ .outside →
        ∃ prio data, Function.update x.que.stage t stage u = .allocating prio data := by
    intro stage ht u hu
    by_cases hut : u = t
    · subst hut
      rw [update_self]
      exact ht hu
    · rw [update_of_ne hut]
      rw [halloc.other u hut] at hu
      exact hi.calls u hu
  have hwaiters : ∀ stage : Stage, stage.role = none →
      x.que.waiters.Balanced (role (setStage { x.que with pool := pool } t stage))
        fun _ => Buckets.total rtPrioQueuePrioMax x.queue := by
    intro stage hstage
    have hsame : role (setStage { x.que with pool := pool } t stage) = role x.que :=
      role_same hrole hstage
    rw [hsame]
    exact hi.waiters
  match poolRet with
  | none =>
    cases heq
    refine .silent ⟨hframe _, hi.data, hi.kept, ?_, fun a ha => hlive a (hi.live a ha), hpool,
      hcalls _ fun _ => ⟨_, _, rfl⟩, hwaiters _ rfl⟩ rfl (by simp) (by simp)
    refine hi.holds_of (t := t) ?_ (fun u hut => update_of_ne hut _ _) (fun _ _ => rfl)
      fun _ _ _ _ => ⟨rfl, rfl, rfl⟩
    simp [Holds, setStage, hprio, htaken]
  | some none =>
    cases heq
    refine .silent ⟨hframe _, hi.data, hi.kept, ?_, fun a ha => hlive a (hi.live a ha), hpool,
      hcalls _ fun hne => absurd (halloc.returns (by simp)) hne, hwaiters _ rfl⟩ rfl (by simp)
      (by simp)
    refine hi.holds_of (t := t) ?_ (fun u hut => update_of_ne hut _ _) (fun _ _ => rfl)
      fun _ _ _ _ => ⟨rfl, rfl, rfl⟩
    simp [Holds, setStage, htaken]
  | some (some item) =>
    cases heq
    have hfree : own item = none := by
      by_contra hown
      exact hi.pool.usable.once (Mempool.call_result hcall) (hi.live item hown)
    have hother : ∀ a, own a ≠ none → Function.update own item (some (.thread t)) a = own a := by
      intro a ha
      have hai : a ≠ item := by
        rintro rfl
        exact ha hfree
      exact update_of_ne hai _ _
    refine .silent
      ⟨hi.heap.frame rfl rfl rfl fun p a ha => ⟨hother a (by simp [hi.heap.own p a ha]), rfl⟩,
        hi.data, hi.kept, ?_, fun a ha => ?_, hpool,
        hcalls _ fun hne => absurd (halloc.returns (by simp)) hne, hwaiters _ rfl⟩ rfl (by simp)
      (by simp)
    · refine hi.holds_of (t := t) ?_ (fun u hut => update_of_ne hut _ _) (fun _ _ => rfl)
        fun _ _ a ha => ⟨hother a (by simp [ha]), rfl, rfl⟩
      simp [Holds, setStage, hprio, htaken]
    · by_cases hai : a = item
      · exact (halloc.live a).mpr (.inl (by rw [hai]))
      · rw [update_of_ne hai] at ha
        exact hlive a (hi.live a ha)

/-- The data are copied into the item. -/
theorem Inv.fill (hi : Inv x own items) (hstage : x.que.stage t = .filling prio item data) :
    Inv { x with que := setStage { x.que with
      data := Function.update x.que.data item data
      next := Function.update x.que.next item none } t (.linking prio item data) } own items := by
  have ht := hi.holds t
  rw [Holds, hstage] at ht
  obtain ⟨hprio, hown, htaken⟩ := ht
  have hother : ∀ a, own a ≠ own item → a ≠ item := by
    rintro a ha rfl
    exact ha rfl
  have hlisted : ∀ p, ∀ a ∈ items p, a ≠ item := by
    rintro p a ha rfl
    exact hi.heap.not_mem hown p ha
  refine ⟨hi.heap.frame rfl rfl rfl fun p a ha =>
      ⟨rfl, update_of_ne (hlisted p a ha) _ _⟩, fun p => ?_, hi.kept, ?_, hi.live, hi.pool,
    fun u hu => ?_, ?_⟩
  · show (items p).map (Function.update x.que.data item data) = x.queue p
    rw [← hi.data p]
    exact List.map_congr_left fun a ha => update_of_ne (hlisted p a ha) _ _
  · refine hi.holds_of (t := t) ?_ (fun u hut => update_of_ne hut _ _) (fun _ _ => rfl)
      fun u hut a ha => ?_
    · simp [Holds, setStage, hprio, hown, htaken]
    · have hai : a ≠ item := by
        refine hother a ?_
        rw [ha, hown]
        simpa using hut
      exact ⟨rfl, update_of_ne hai _ _, update_of_ne hai _ _⟩
  · exact hi.calls_of (t := t) (by simp [hstage]) rfl (fun _ hvt => update_of_ne hvt _ _) hu
  · have hsame : role (setStage { x.que with
        data := Function.update x.que.data item data
        next := Function.update x.que.next item none } t (.linking prio item data)) = role x.que :=
      role_same (by simp [hstage, Stage.role]) rfl
    rw [hsame]
    exact hi.waiters

/-- The item goes behind the others of its priority, and a popper is resumed. -/
theorem Inv.link (hi : Inv x own items) (hstage : x.que.stage t = .linking prio item data) :
    ∃ s own' items', link x.que t prio item = some (s, some (.push .eok)) ∧
      s.stage = Function.update x.que.stage t .outside ∧ Inv (x.push s prio data) own' items' := by
  have ht := hi.holds t
  rw [Holds, hstage] at ht
  obtain ⟨hprio, hown, hnext, hdata, htaken⟩ := ht
  obtain ⟨s, hpush, hsame, hnexts, hheap⟩ := hi.heap.doPush hprio hown hnext
  have hqueue := @queue_push _ _ data (hi.kept prio)
    (setStage { s with waiters := s.waiters.wake () } t .outside)
  refine ⟨setStage { s with waiters := s.waiters.wake () } t .outside, _, _,
    by rw [PrioQueue.link, hpush]; rfl, ?_,
    hheap.frame rfl rfl rfl fun _ _ _ => ⟨rfl, rfl⟩, fun p => ?_, fun p => ?_, ?_, fun a ha => ?_,
    ?_, fun u hu => ?_, ?_⟩
  · simp [setStage, hsame.stage]
  · show (Function.update items prio (items prio ++ [item]) p).map s.data = _
    rw [hqueue, hsame.data]
    by_cases hpp : p = prio
    · subst hpp
      simp [hi.data p, hdata]
    · simp [hpp, hi.data p]
  · show x.popped p ≤ (Function.update x.pushed prio (x.pushed prio ++ [data]) p).length
    by_cases hpp : p = prio
    · subst hpp
      rw [update_self, List.length_append]
      exact Nat.le_add_right_of_le (hi.kept p)
    · rw [update_of_ne hpp]
      exact hi.kept p
  · refine hi.holds_of (t := t) ?_ (fun u hut => ?_) (fun _ _ => rfl) fun u hut a ha => ?_
    · simp [Holds, setStage, Traced.push, htaken]
    · show Function.update s.stage t .outside u = _
      rw [update_of_ne hut, hsame.stage]
    · have hai : a ≠ item := by
        rintro rfl
        rw [hown] at ha
        exact hut (by simpa using ha.symm)
      exact ⟨update_of_ne hai _ _, hnexts a u ha, congrFun hsame.data a⟩
  · rw [hsame.pool]
    refine hi.live a ?_
    by_cases hai : a = item
    · simp [hai, hown]
    · rwa [update_of_ne hai] at ha
  · rw [hsame.pool, hsame.itemSz]
    exact hi.pool
  · refine hi.calls_of (t := t) (by simp [hstage]) (congrArg _ hsame.pool) (fun v hvt => ?_) hu
    exact (update_of_ne hvt _ _).trans (congrFun hsame.stage v)
  · have hrole : role (setStage { s with waiters := s.waiters.wake () } t .outside) = role x.que := by
      rw [role_same (by simp [hsame.stage, hstage, Stage.role]) rfl]
      funext u
      simp [role, hsame.stage]
    rw [hqueue]
    show (s.waiters.wake ()).Balanced (role (setStage _ t .outside)) _
    rw [hrole, hsame.waiters]
    refine (hi.waiters.wake ()).le fun r => ?_
    have htotal := Buckets.total_update hprio (x.queue prio ++ [data]) (q := x.queue)
    rw [update_self]
    rw [List.length_append, List.length_singleton] at htotal
    omega

theorem pop_of_stage (hstage : ∀ item, s.stage t ≠ .emptying item) : x.pop s t = { x with que := s } := by
  rw [Traced.pop]
  split
  · rename_i item _ hs _
    exact absurd hs (hstage item)
  · rfl

/-- A thread without an item leaves the queue as it is. -/
theorem Inv.leave (hi : Inv x own items) {w : Waiters Unit} (htaken : x.taken t = none)
    (hidle : ∀ prio data, x.que.stage t ≠ .allocating prio data)
    (hstage : stage = .outside ∨ ∃ timeout, stage = .waiting timeout)
    (hw : w.Balanced (Function.update (role x.que) t stage.role)
      fun _ => Buckets.total rtPrioQueuePrioMax x.queue) :
    Inv { x with que := setStage { x.que with waiters := w } t stage } own items := by
  refine ⟨hi.heap.frame rfl rfl rfl fun _ _ _ => ⟨rfl, rfl⟩, hi.data, hi.kept, ?_, hi.live, hi.pool,
    fun u hu => ?_, ?_⟩
  · refine hi.holds_of (t := t) ?_ (fun u hut => update_of_ne hut _ _) (fun _ _ => rfl)
      fun _ _ _ _ => ⟨rfl, rfl, rfl⟩
    obtain rfl | ⟨timeout, rfl⟩ := hstage
    · simp [Holds, setStage, htaken]
    · simp [Holds, setStage, htaken]
  · exact hi.calls_of hidle rfl (fun _ hvt => update_of_ne hvt _ _) hu
  · have hrole : role (setStage { x.que with waiters := w } t stage) =
        Function.update (role x.que) t stage.role := role_setStage _ t stage
    rw [hrole]
    exact hw

/-- A pop looks at the lists. -/
theorem Inv.popLoop (hi : Inv x own items) {timeout : BitVec 32} (htaken : x.taken t = none)
    (ht : (x.que.waiters.thread t).suspended = false)
    (hidle : ∀ prio data, x.que.stage t ≠ .allocating prio data)
    (h : popLoop x.que t timeout = some (s, ret)) : Kept x (x.pop s t) op ret := by
  rw [PrioQueue.popLoop] at h
  obtain ⟨hnil, hpop⟩ | ⟨p, item, rest, s₁, hitems, hlow, hpop, hsame, hnext, hheap⟩ :=
    hi.heap.doPop t
  · have hzero : Buckets.total rtPrioQueuePrioMax x.queue = 0 :=
      Buckets.total_eq_zero fun p _ => hi.queue_eq_nil.mpr (hnil p)
    rw [hpop, Option.bind_some] at h
    by_cases htime : timeout = 0
    · simp only [htime, if_true, Option.some.injEq, Prod.mk.injEq] at h
      obtain ⟨rfl, rfl⟩ := h
      have hnot : ∀ item, (setStage x.que t .outside).stage t ≠ .emptying item := by
        simp [setStage]
      rw [pop_of_stage hnot]
      have hleave : x.que.waiters.Balanced (Function.update (role x.que) t none)
          fun _ => Buckets.total rtPrioQueuePrioMax x.queue :=
        (hi.waiters.leave ht (Mempool.unit_role _)).le fun r => by simp [hzero]
      exact .silent (hi.leave htaken hidle (.inl rfl) hleave) rfl (by simp) (by simp)
    · simp only [htime, if_false] at h
      obtain ⟨w, hw, heq⟩ := Option.map_eq_some_iff.mp h
      cases heq
      have hnot : ∀ item,
          (setStage { x.que with waiters := w } t (.waiting timeout)).stage t ≠ .emptying item := by
        simp [setStage]
      rw [pop_of_stage hnot]
      have hblock := hi.waiters.block ht (Mempool.unit_role _) hzero hw
      exact .silent (hi.leave htaken hidle (.inr ⟨timeout, rfl⟩) hblock) rfl (by simp) (by simp)
  · rw [hpop] at h
    cases h
    have hp : p < rtPrioQueuePrioMax := hi.heap.lt (by simp [hitems])
    have hmap : x.queue p = x.que.data item :: rest.map x.que.data := by
      rw [← hi.data p, hitems, List.map_cons]
    have hlowq : ∀ i < p, x.queue i = [] := fun i hip => hi.queue_eq_nil.mpr (hlow i hip)
    have hown : own item = some (.list p) := hi.heap.own p item (by simp [hitems])
    have hstage : (setStage s₁ t (.emptying item)).stage t = .emptying item :=
      update_self _ _ _
    obtain ⟨heq, hqueue, hkept⟩ := pop_eq hstage hp hmap hlowq
    refine ⟨⟨Function.update own item (some (.thread t)), Function.update items p rest, ?_⟩,
      fun u item' hu => ?_, fun _ hret => by cases hret⟩
    · refine ⟨?_, fun i => ?_, fun i => ?_, ?_, fun a ha => ?_, ?_, fun u hu => ?_, ?_⟩
      · rw [heq]
        exact hheap.frame rfl rfl rfl fun _ _ _ => ⟨rfl, rfl⟩
      · rw [hqueue, heq]
        show (Function.update items p rest i).map s₁.data = _
        rw [hsame.data]
        by_cases hip : i = p
        · subst hip
          rw [update_self, update_self]
        · rw [update_of_ne hip, update_of_ne hip]
          exact hi.data i
      · rw [heq]
        show Function.update x.popped p (x.popped p + 1) i ≤ (x.pushed i).length
        by_cases hip : i = p
        · subst hip
          rw [update_self]
          exact hkept
        · rw [update_of_ne hip]
          exact hi.kept i
      · rw [heq]
        refine hi.holds_of (t := t) ?_ (fun u hut => ?_) (fun u hut => ?_) fun u hut a ha => ?_
        · simp [Holds, setStage, hsame.data]
        · show Function.update s₁.stage t _ u = _
          rw [update_of_ne hut, hsame.stage]
        · exact update_of_ne hut _ _
        · have hai : a ≠ item := by
            rintro rfl
            rw [hown] at ha
            cases ha
          exact ⟨update_of_ne hai _ _, congrFun hnext a, congrFun hsame.data a⟩
      · rw [heq]
        show Live s₁.pool a
        rw [hsame.pool]
        refine hi.live a ?_
        by_cases hai : a = item
        · simp [hai, hown]
        · rwa [update_of_ne hai] at ha
      · rw [heq]
        show PoolOk s₁.pool s₁.itemSz
        rw [hsame.pool, hsame.itemSz]
        exact hi.pool
      · rw [heq] at hu ⊢
        refine hi.calls_of hidle (congrArg _ hsame.pool) (fun v hvt => ?_) hu
        exact (update_of_ne hvt _ _).trans (congrFun hsame.stage v)
      · rw [hqueue, heq]
        have hrole : role (setStage s₁ t (.emptying item)) = Function.update (role x.que) t none := by
          rw [role_setStage]
          have hold : role s₁ = role x.que := by
            funext u
            simp [role, hsame.stage]
          rw [hold]
          rfl
        show s₁.waiters.Balanced (role (setStage s₁ t (.emptying item))) _
        rw [hrole, hsame.waiters]
        refine (hi.waiters.leave ht (Mempool.unit_role _)).le fun r => ?_
        have htotal := Buckets.total_update hp (rest.map x.que.data) (q := x.queue)
        rw [hmap, List.length_cons] at htotal
        rw [update_self]
        omega
    · by_cases hut : u = t
      · subst hut
        rw [heq] at hu ⊢
        rw [show _ = _ from hstage] at hu
        cases hu
        refine .inr ⟨p, rest.map x.que.data, ?_, hlowq⟩
        show x.queue p = s₁.data item :: _
        rw [hsame.data, hmap]
      · rw [heq] at hu
        have hold : (setStage s₁ t (.emptying item)).stage u = x.que.stage u := by
          simp [setStage, hut, hsame.stage]
        exact .inl (hold.symm.trans hu)

/-- The data are copied out of the item. -/
theorem Inv.empty (hi : Inv x own items) (hstage : x.que.stage t = .emptying item) :
    Inv { x with que := setStage x.que t (.freeing item (x.que.data item)) } own items := by
  have ht := hi.holds t
  rw [Holds, hstage] at ht
  refine ⟨hi.heap.frame rfl rfl rfl fun _ _ _ => ⟨rfl, rfl⟩, hi.data, hi.kept, ?_, hi.live, hi.pool,
    fun u hu => ?_, ?_⟩
  · refine hi.holds_of (t := t) ?_ (fun u hut => update_of_ne hut _ _) (fun _ _ => rfl)
      fun _ _ _ _ => ⟨rfl, rfl, rfl⟩
    simp [Holds, setStage, ht]
  · exact hi.calls_of (t := t) (by simp [hstage]) rfl (fun _ hvt => update_of_ne hvt _ _) hu
  · have hsame : role (setStage x.que t (.freeing item (x.que.data item))) = role x.que :=
      role_same (by simp [hstage, Stage.role]) rfl
    rw [hsame]
    exact hi.waiters

/-- The item goes back to the pool, and the pop returns. -/
theorem Inv.free (hi : Inv x own items) (hstage : x.que.stage t = .freeing item data) :
    ∃ pool, Mempool.call x.que.pool (.free t item) = some (pool, none) ∧
      Inv { x with
        que := setStage { x.que with pool := pool } t .outside
        taken := Function.update x.taken t none } (Function.update own item none) items := by
  have ht := hi.holds t
  rw [Holds, hstage] at ht
  have houtside : x.que.pool.call t = .outside := by
    by_contra hne
    obtain ⟨prio', data', hu⟩ := hi.calls t hne
    rw [hstage] at hu
    cases hu
  obtain ⟨pool, hcall, hcalls, hlive⟩ :=
    hi.pool.usable.free (hi.pool.usable.active houtside) (hi.live item (by simp [ht.1]))
  have hlisted : ∀ p, ∀ a ∈ items p, a ≠ item := by
    rintro p a ha rfl
    exact hi.heap.not_mem ht.1 p ha
  refine ⟨pool, hcall, hi.heap.frame rfl rfl rfl fun p a ha =>
      ⟨update_of_ne (hlisted p a ha) _ _, rfl⟩, hi.data, hi.kept, ?_, fun a ha => ?_,
    hi.pool.result (Mempool.call_result hcall), fun u hu => ?_, ?_⟩
  · refine hi.holds_of (t := t) ?_ (fun u hut => update_of_ne hut _ _)
      (fun u hut => update_of_ne hut _ _) fun u hut a ha => ?_
    · simp [Holds, setStage]
    · have hai : a ≠ item := by
        rintro rfl
        rw [ht.1] at ha
        exact hut (by simpa using ha.symm)
      exact ⟨update_of_ne hai _ _, rfl, rfl⟩
  · by_cases hai : a = item
    · rw [hai, update_self] at ha
      exact absurd rfl ha
    · rw [update_of_ne hai] at ha
      exact hlive a hai (hi.live a ha)
  · exact hi.calls_of (t := t) (by simp [hstage]) hcalls (fun _ hvt => update_of_ne hvt _ _) hu
  · have hsame : role (setStage { x.que with pool := pool } t .outside) = role x.que :=
      role_same (by simp [hstage, Stage.role]) rfl
    rw [hsame]
    exact hi.waiters

/-- Neither the lists nor the threads change. -/
theorem Inv.elsewhere (hi : Inv x own items) {pool : Mempool.State} {w : Waiters Unit}
    (hlive : ∀ a, Live x.que.pool a → Live pool a) (hpool : PoolOk pool x.que.itemSz)
    (hcall : pool.call = x.que.pool.call)
    (hw : w.Balanced (role x.que) fun _ => Buckets.total rtPrioQueuePrioMax x.queue) :
    Inv { x with que := { x.que with pool := pool, waiters := w } } own items where
  heap := hi.heap.frame rfl rfl rfl fun _ _ _ => ⟨rfl, rfl⟩
  data := hi.data
  kept := hi.kept
  holds := fun u => (hi.holds u).frame rfl rfl fun _ _ => ⟨rfl, rfl, rfl⟩
  live := fun a ha => hlive a (hi.live a ha)
  pool := hpool
  calls := fun u hu => by
    rw [hcall] at hu
    exact hi.calls u hu
  waiters := hw

theorem call_kept (hi : Inv x own items) (h : call x.que op = some (s, ret)) :
    Kept x (x.after s op) op ret := by
  cases op with
  | push t prio data timeout =>
    obtain ⟨⟨hstage, -⟩, h⟩ := Option.ite_none_right_eq_some.mp h
    have ht := hi.holds t
    rw [Holds, hstage] at ht
    split at h
    · cases h
      exact ⟨⟨own, items, hi⟩, fun u item hu => .inl hu, fun _ hret => by cases hret⟩
    · rename_i hprio
      exact hi.allocate (Nat.lt_of_not_le hprio) ht (by simp [hstage, Stage.role])
        (fun _ _ hcall => Mempool.allocates_of_alloc hcall) h
  | pop t timeout =>
    obtain ⟨hstage, h⟩ := Option.ite_none_right_eq_some.mp h
    have ht := hi.holds t
    rw [Holds, hstage] at ht
    exact hi.popLoop ht (hi.notSuspended (by simp [hstage, Stage.role])) (by simp [hstage]) h
  | proceed t =>
    have ht := hi.holds t
    rw [Holds] at ht
    simp only [call, proceed] at h
    cases hstage : x.que.stage t with
    | outside =>
      rw [hstage] at h
      cases h
    | allocating prio data =>
      simp only [hstage] at h ht
      simp only [Traced.after, hstage]
      exact hi.allocate ht.1 ht.2 (by simp [hstage, Stage.role])
        (fun _ _ hcall => Mempool.allocates_of_switchBack hcall) h
    | filling prio item data =>
      simp only [hstage] at h
      cases h
      simp only [Traced.after, hstage]
      exact .silent (hi.fill hstage) rfl (by simp) (by simp)
    | linking prio item data =>
      simp only [hstage] at h
      obtain ⟨s', own', items', hlink, hs, hinv⟩ := hi.link hstage
      rw [hlink] at h
      cases h
      simp only [Traced.after, hstage]
      exact .silent hinv hs (by simp) (by simp)
    | waiting timeout =>
      simp only [hstage] at h ht
      simp only [Traced.after, hstage]
      split at h
      · cases h
      · rename_i hsus
        rw [Bool.not_eq_true] at hsus
        split at h
        · rename_i herr
          cases h
          have hnot : ∀ item, (setStage x.que t .outside).stage t ≠ .emptying item := by
            simp [setStage]
          rw [pop_of_stage hnot]
          have hleave := hi.waiters.leave_idle hsus (.inr herr)
          exact .silent (hi.leave ht (by simp [hstage]) (.inl rfl) hleave) rfl (by simp) (by simp)
        · exact hi.popLoop ht hsus (by simp [hstage]) h
    | emptying item =>
      simp only [hstage] at h
      cases h
      simp only [Traced.after, hstage]
      exact .silent (hi.empty hstage) rfl (by simp) (by simp)
    | freeing item data =>
      simp only [hstage] at h ht
      obtain ⟨pool, hcall, hinv⟩ := hi.free hstage
      rw [hcall] at h
      cases h
      simp only [Traced.after, hstage]
      refine ⟨⟨_, items, hinv⟩,
        fun u item hu => .inl (takes_of_stage rfl (by simp) u item hu), fun data' hret => ?_⟩
      cases hret
      exact ⟨t, rfl, ht.2⟩
  | timeout t =>
    simp only [call] at h
    split at h
    · rename_i htimer
      have hcall : Mempool.call x.que.pool (.timeout t) =
          some ({ x.que.pool with waiters := x.que.pool.waiters.timeout t }, none) := if_pos htimer
      rw [hcall] at h
      cases h
      exact ⟨⟨own, items, hi.elsewhere (fun _ ha => ha)
          (hi.pool.result (Mempool.call_result hcall)) rfl hi.waiters⟩,
        fun u item hu => .inl hu, fun _ hret => by cases hret⟩
    · split at h
      · rename_i htimer
        cases h
        exact ⟨⟨own, items, hi.elsewhere (fun _ ha => ha) hi.pool rfl
            (hi.waiters.timeout htimer)⟩,
          fun u item hu => .inl hu, fun _ hret => by cases hret⟩
      · cases h
  | tickIncrease =>
    cases h
    exact ⟨⟨own, items, hi.elsewhere (fun _ ha => ha) (hi.pool.result .tick) rfl hi.waiters⟩,
      fun u item hu => .inl hu, fun _ hret => by cases hret⟩

theorem pop_que (x : Traced) (s : State) (t : ThreadId) : (x.pop s t).que = s := by
  rw [Traced.pop]
  split
  · rfl
  · rfl

theorem after_que (x : Traced) (s : State) (op : Op) : (x.after s op).que = s := by
  cases op with
  | pop t timeout => exact pop_que x s t
  | proceed t =>
    simp only [Traced.after]
    split
    · rfl
    · exact pop_que x s t
    · rfl
    · rfl
  | push | timeout | tickIncrease => rfl

theorem Inv.sound (hi : Inv x own items) : Sound x where
  list := fun p => ⟨items p, hi.heap.chain p, hi.data p⟩
  bitmap := fun p _ => by
    rw [hi.heap.bit p]
    refine not_congr ⟨fun hnil => ?_, fun hnone => ?_⟩
    · have hc := hi.heap.chain p
      rw [hnil] at hc
      exact hc
    · have hc := hi.heap.chain p
      rw [hnone] at hc
      exact hc.of_none
  kept := hi.kept
  takes := fun op s' ret t item hcall hstage => by
    have hque : (x.after s' op).que = s' := after_que x s' op
    have hkept := (call_kept hi hcall).takes t item
    rw [hque] at hkept
    exact hkept hstage
  returns := fun op s' data hcall => (call_kept hi hcall).returns data rfl
  links := fun t prio item data hstage => by
    obtain ⟨s', -, -, hlink, -⟩ := hi.link hstage
    simp only [call, proceed, hstage, hlink]
    rfl
  frees := fun t item data hstage => by
    obtain ⟨pool, hcall, -⟩ := hi.free hstage
    simp only [call, proceed, hstage, hcall]
    rfl
  pops := by
    obtain ⟨-, hpop⟩ | ⟨p, item, rest, s', -, -, hpop, -⟩ := hi.heap.doPop 0
    · rw [hpop]
      rfl
    · rw [hpop]
      rfl
  served := fun t ht => hi.waiters.atLeast ht.1 ht.2
  apart := fun hsz a b ha hb hne => by
    have hroom := hi.pool.room hsz
    rw [Before, Before]
    obtain hab | hba := hi.pool.usable.apart ha hb hne
    · exact .inl (by omega)
    · exact .inr (by omega)

theorem tracedStep_inv {op : Op} (hi : ∃ own items, Inv x own items)
    (hstep : tracedStep x op = some x') : ∃ own items, Inv x' own items := by
  obtain ⟨own, items, hi⟩ := hi
  obtain ⟨⟨s, ret⟩, hcall, rfl⟩ := Option.map_eq_some_iff.mp hstep
  exact (call_kept hi hcall).inv

end steps

/-! ## Runs -/

section runs

variable {self buf bufsz itemsz : Nat} {word next : Addr → Option Addr} {tick : Tick}
  {priority : ThreadId → Nat} {data : Addr → List Byte} {s : State}

theorem inv_start (hfit : buf + bufsz < 2 ^ 32)
    (hinit : rtPrioQueueInit self word buf bufsz itemsz tick priority next data = some s) :
    Inv (start s) (fun _ => none) (fun _ => []) := by
  obtain ⟨pool, hpool, rfl⟩ := Option.map_eq_some_iff.mp hinit
  have hroom : itemsz + 8 ≤ 2 ^ 32 →
      itemSize + itemsz + Mempool.pointerSize ≤ pool.mp.stride := by
    intro hsz
    obtain ⟨hstride, rfl⟩ := Mempool.init_eq hpool
    have hadd : wadd 32 itemSize itemsz = itemSize + itemsz := wadd_eq (by rw [itemSize]; omega)
    have hle : itemSize + itemsz ≤ rtAlign 32 (itemSize + itemsz) Mempool.alignSize :=
      le_rtAlign (by decide) (by rw [itemSize, Mempool.alignSize]; omega)
    show _ ≤ (Mempool.newPool buf bufsz _).stride
    rw [Mempool.stride_eq hstride, hadd]
    exact Nat.add_le_add_right hle _
  refine ⟨⟨fun p => rfl, fun p hne => absurd rfl hne, fun p => List.nodup_nil,
      fun p a ha => absurd ha List.not_mem_nil, fun p => ?_⟩, fun p => rfl, fun p => Nat.le_refl 0,
    fun t => rfl, fun a ha => absurd rfl ha, ⟨Mempool.usable_init hfit hpool, hroom⟩,
    fun t ht => ?_, (Waiters.ok_init priority).balanced (fun _ => rfl) _⟩
  · simp [start]
  · obtain ⟨-, rfl⟩ := Mempool.init_eq hpool
    exact absurd rfl ht

end runs

/-- Whatever the threads do, the queue is one FIFO for each priority. -/
theorem prio_queue_refines (self : Addr) (word : Addr → Option Addr) (buf bufsz itemsz : Nat)
    (tick : Tick) (priority : ThreadId → Nat) (next : Addr → Option Addr)
    (data : Addr → List Byte) (s₀ : State) (hfit : buf + bufsz < 2 ^ 32)
    (hinit : rtPrioQueueInit self word buf bufsz itemsz tick priority next data = some s₀)
    (ops : List Op) : Runs.Always tracedStep Sound (start s₀) ops := by
  have hok : Runs.Along tracedStep (fun _ _ => True) (start s₀) ops :=
    Runs.along_of_forall (fun _ _ => trivial) _
  exact hok.always (fun _ _ _ hi _ hs => tracedStep_inv hi hs) (fun _ ⟨_, _, hi⟩ => hi.sound)
    ⟨_, _, inv_start hfit hinit⟩

/-- A popper waits, is resumed by a push, and finds the data of a more urgent second push. -/
def overtaken : List Op :=
  [.pop 1 0xffffffff, .push 2 5 [50] 0, .proceed 2, .proceed 2, .push 3 2 [20] 0, .proceed 3,
    .proceed 3, .proceed 1, .proceed 1, .proceed 1]

def smallQueue : Option State :=
  rtPrioQueueInit 8 (fun _ => none) 100 40 1 0 (fun t => t) (fun _ => none) (fun _ => [])

theorem prio_queue_refines_small :
    ∃ s₀, smallQueue = some s₀ ∧ Runs.Always tracedStep Sound (start s₀) overtaken ∧
      ∃ x, Runs.run tracedStep (start s₀) overtaken = some x ∧ x.queue 2 = [] ∧
        x.queue 5 = [[50]] := by
  have hlast : (smallQueue.bind fun s₀ => (Runs.run tracedStep (start s₀) overtaken).map
      fun x => (x.queue 2, x.queue 5)) = some ([], [[50]]) := by decide +kernel
  obtain ⟨s₀, hinit, hrun⟩ := Option.bind_eq_some_iff.mp hlast
  obtain ⟨x, hrun, hx⟩ := Option.map_eq_some_iff.mp hrun
  simp only [Prod.mk.injEq] at hx
  exact ⟨s₀, hinit, prio_queue_refines _ _ _ _ _ _ _ _ _ s₀ (by decide) hinit overtaken, x, hrun,
    hx.1, hx.2⟩

end RtThread.PrioQueue
