import RtThread.MemheapShape

/-!
# The headers that the memheap writes

Headers are rewritten one field at a time. `Writes` says which headers a step may have touched; the
steps compose, so a call is bounded by the addresses that its parts pass on.
-/
namespace RtThread.Memheap

/-- All fields of the header at `off` are as before. -/
structure SameItem (m m' : Memory) (off : Nat) : Prop where
  magic : m'.magic off = m.magic off
  poolPtr : m'.poolPtr off = m.poolPtr off
  next : m'.next off = m.next off
  prev : m'.prev off = m.prev off
  nextFree : m'.nextFree off = m.nextFree off
  prevFree : m'.prevFree off = m.prevFree off

/-- Of the memory, only headers at addresses in `P` may have changed. -/
structure Writes (s s' : State) (P : Nat → Prop) : Prop where
  item : ∀ off, ¬ P off → SameItem s.memory s'.memory off
  data : s'.data = s.data

variable {c : Config} {s s₁ s' : State} {l l' fl out : List Nat} {P Q : Nat → Prop} {x y n v : Nat}

theorem SameItem.trans {m m₁ m' : Memory} {off : Nat} (h : SameItem m m₁ off)
    (h' : SameItem m₁ m' off) : SameItem m m' off :=
  ⟨h'.magic.trans h.magic, h'.poolPtr.trans h.poolPtr, h'.next.trans h.next, h'.prev.trans h.prev,
    h'.nextFree.trans h.nextFree, h'.prevFree.trans h.prevFree⟩

theorem Writes.refl (s : State) : Writes s s P :=
  ⟨fun _ _ => ⟨rfl, rfl, rfl, rfl, rfl, rfl⟩, rfl⟩

theorem Writes.trans (h : Writes s s₁ P) (h' : Writes s₁ s' P) : Writes s s' P :=
  ⟨fun off hoff => (h.item off hoff).trans (h'.item off hoff), h'.data.trans h.data⟩

theorem Writes.mono (h : Writes s s' P) (hsub : ∀ off, P off → Q off) : Writes s s' Q :=
  ⟨fun off hoff => h.item off fun hp => hoff (hsub off hp), h.data⟩

theorem account_writes (s : State) (a m : Nat) :
    Writes s { s with availableSize := a, maxUsedSize := m } P :=
  ⟨fun _ _ => ⟨rfl, rfl, rfl, rfl, rfl, rfl⟩, rfl⟩

theorem charge_writes (s : State) (n : Nat) : Writes s (charge s n) P := account_writes s n _

/-! ## One field -/

theorem update_ne {f : Nat → Nat} {off : Nat} (hx : P x) (hoff : ¬ P off) :
    Function.update f x v off = f off := by
  refine Function.update_of_ne ?_ v f
  rintro rfl
  exact hoff hx

theorem setMagic_writes (s : State) (hx : P x) : Writes s (setMagic s x v) P :=
  ⟨fun _ hoff => ⟨update_ne hx hoff, rfl, rfl, rfl, rfl, rfl⟩, rfl⟩

theorem setPoolPtr_writes (s : State) (hx : P x) : Writes s (setPoolPtr s x v) P :=
  ⟨fun _ hoff => ⟨rfl, update_ne hx hoff, rfl, rfl, rfl, rfl⟩, rfl⟩

theorem setNext_writes (s : State) (hx : P x) : Writes s (setNext s x v) P :=
  ⟨fun _ hoff => ⟨rfl, rfl, update_ne hx hoff, rfl, rfl, rfl⟩, rfl⟩

theorem setPrev_writes (s : State) (hx : P x) : Writes s (setPrev s x v) P :=
  ⟨fun _ hoff => ⟨rfl, rfl, rfl, update_ne hx hoff, rfl, rfl⟩, rfl⟩

theorem setNextFree_writes (s : State) (hx : P x) : Writes s (setNextFree s x v) P :=
  ⟨fun _ hoff => ⟨rfl, rfl, rfl, rfl, update_ne hx hoff, rfl⟩, rfl⟩

theorem setPrevFree_writes (s : State) (hx : P x) : Writes s (setPrevFree s x v) P :=
  ⟨fun _ hoff => ⟨rfl, rfl, rfl, rfl, rfl, update_ne hx hoff⟩, rfl⟩

/-! ## The lists -/

theorem newItem_writes (s : State) (hx : P x) (hy : P y) (hn : P (s.next x)) :
    Writes s (newItem s x y) P := by
  refine (setMagic_writes s hy).trans <| (setPoolPtr_writes _ hy).trans <|
    (setPrev_writes _ hy).trans <| (setNext_writes _ hy).trans <|
    Writes.trans (setPrev_writes _ ?_) (setNext_writes _ hx)
  simp only [setNext, setPrev, setPoolPtr, setMagic, Function.update_apply]
  split <;> exact hn

theorem mergeNext_writes (s : State) (hx : P x) (hn : P (s.next y)) :
    Writes s (mergeNext s x y) P :=
  (setPrev_writes s hn).trans (setNext_writes _ hx)

theorem insertFree_writes (s : State) (hx : P x) (hl : P s.freeList)
    (hn : P (s.nextFree s.freeList)) : Writes s (insertFree s x) P := by
  refine (setNextFree_writes s hx).trans <| (setPrevFree_writes _ hx).trans <|
    Writes.trans (setPrevFree_writes _ ?_) (setNextFree_writes _ hl)
  simp only [setNextFree, setPrevFree, Function.update_apply]
  split <;> exact hn

theorem removeFree_writes (s : State) (hn : P (s.nextFree x)) (hp : P (s.prevFree x)) :
    Writes s (removeFree s x) P := by
  refine (setPrevFree_writes s hn).trans (setNextFree_writes _ ?_)
  simp only [setPrevFree, Function.update_apply]
  split <;> exact hp

theorem detachFree_writes (s : State) (hx : P x) (hn : P (s.nextFree x)) (hp : P (s.prevFree x)) :
    Writes s (detachFree s x) P :=
  (removeFree_writes s hn hp).trans <| (setNextFree_writes _ hx).trans (setPrevFree_writes _ hx)

theorem insertFreeBefore_writes (s : State) (hx : P x) (hn : P n) (hp : P (s.prevFree n)) :
    Writes s (insertFreeBefore s n x) P := by
  refine (setNextFree_writes s hx).trans <| (setPrevFree_writes _ hx).trans <|
    Writes.trans (setNextFree_writes _ ?_) (setPrevFree_writes _ hn)
  simp only [setNextFree, setPrevFree, Function.update_apply]
  split <;> exact hp

/-! ## Known headers -/

/-- The headers that the two lists link: the items, the tail item, and the head of the free
list. -/
def Known (c : Config) (s : State) (l : List Nat) (off : Nat) : Prop :=
  off ∈ l ∨ off = tailItem c s ∨ off = s.freeList

theorem Known.of_same {off : Nat} (h : Known c s' l' off) (hs : Same s s')
    (hsub : ∀ z ∈ l', z ∈ l) : Known c s l off := by
  rw [Known, hs.tailItem, hs.freeList] at h
  exact h.imp_left (hsub off)

theorem Items.known_next (h : Items c s l) (hx : x ∈ l) : Known c s l (s.next x) := by
  obtain htail | hmem := h.linked.path.next_mem hx
  · exact .inr (.inl htail)
  · exact .inl hmem

theorem Lists.known_free (h : Lists c s l fl out) (hx : x ∈ s.freeList :: fl) :
    Known c s l x := by
  obtain rfl | hx := List.mem_cons.mp hx
  · exact .inr (.inr rfl)
  · exact .inl ((h.free x).mp hx).1

theorem Lists.known_nextFree (h : Lists c s l fl out) (hx : x ∈ s.freeList :: fl) :
    Known c s l (s.nextFree x) := h.known_free (Ring.Linked.next_mem h.ring hx)

theorem Lists.known_prevFree (h : Lists c s l fl out) (hx : x ∈ s.freeList :: fl) :
    Known c s l (s.prevFree x) := h.known_free (Ring.Linked.prev_mem h.ring hx).1

end RtThread.Memheap
