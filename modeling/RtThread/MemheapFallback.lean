import RtThread.MemheapSystemRuns

/-!
# What a change of the size of a block keeps

`rt_memheap_realloc` on the heap of the block, and `_memheap_realloc`, which falls back to the other
heaps of the system.
-/
namespace RtThread.Memheap

/-- The container is empty, and the memory holds anything. -/
def noHeaps (object : Nat → Object) (memory : Memory) : System := ⟨[], object, memory⟩

theorem noHeaps_inv (c : Config) (object : Nat → Object) (memory : Memory) :
    SystemInv c (noHeaps object memory) := by
  constructor
  · exact fun a ha => absurd ha List.not_mem_nil
  · exact fun a ha => absurd ha List.not_mem_nil

/-- The call returns. A null pointer leaves the system as it was; any other pointer takes the place
of `p`, with its first bytes, and the other blocks are kept. -/
def Preserves (c : Config) (sys : System) (p newsize : Nat)
    (result : Option (System × Option Nat)) : Prop :=
  ∃ sys' r, result = some (sys', r) ∧ (r = none → sys' = sys) ∧ ∀ q, r = some q →
    Preserved c (Live sys) sys.memory sys'.memory p newsize q ∧
      ∀ o, Live sys' o ↔ Live sys o ∧ o ≠ p ∨ o = q

theorem ReallocOutcome.preserves {c : Config} {sys sys' : System} {p newsize : Nat}
    {r : Option Nat} {result : Option (System × Option Nat)} (hresult : result = some (sys', r))
    (h : ReallocOutcome c sys p newsize sys' r) (hwrap : newsize + c.align ≤ 2 ^ 32) :
    Preserves c sys p newsize result :=
  ⟨sys', r, hresult, h.failed, fun q hq => ⟨h.preserved q hq hwrap, h.live q hq⟩⟩

instance (c : Config) (freeHeader startAddr size : Nat) :
    Decidable (Provided c freeHeader startAddr size) :=
  decidable_of_iff (size < 2 ^ 32 ∧ startAddr + size ≤ 2 ^ 32 ∧
      2 * c.memheapSize ≤ rtAlignDown size c.align ∧
      (freeHeader < startAddr ∨ startAddr + size ≤ freeHeader))
    ⟨fun h => ⟨h.1, h.2.1, h.2.2.1, h.2.2.2⟩, fun h => ⟨h.lt, h.top, h.room, h.header⟩⟩

instance (o o' : Object) : Decidable (Beside o o') :=
  decidable_of_iff ((o.startAddr + o.poolSize ≤ o'.startAddr ∨
      o'.startAddr + o'.poolSize ≤ o.startAddr) ∧
      (o.freeList < o'.startAddr ∨ o'.startAddr + o'.poolSize ≤ o.freeList) ∧
      (o'.freeList < o.startAddr ∨ o.startAddr + o.poolSize ≤ o'.freeList) ∧
      o.freeList ≠ o'.freeList)
    ⟨fun h => ⟨h.1, h.2.1, h.2.2.1, h.2.2.2⟩,
      fun h => ⟨h.regions, h.header, h.header', h.heads⟩⟩

instance (sys : System) (p : Nat) : Decidable (Live sys p) :=
  inferInstanceAs (Decidable (∃ a ∈ sys.objectList, p ∈ (sys.object a).live))

instance (c : Config) (sys : System) : ∀ op, Decidable (SystemAllowed c sys op)
  | .init _ _ _ _ => inferInstanceAs (Decidable (_ ∧ _ ∧ _))
  | .alloc heap _ | .memheapAlloc heap _ => inferInstanceAs (Decidable (heap ∈ sys.objectList))
  | .realloc heap ptr _ => inferInstanceAs
      (Decidable (heap ∈ sys.objectList ∧ ∀ p ∈ ptr, p ∈ (sys.object heap).live))
  | .free ptr => inferInstanceAs (Decidable (∀ p ∈ ptr, Live sys p))
  | .memheapRealloc heap rmem _ => inferInstanceAs
      (Decidable (heap ∈ sys.objectList ∧ ∀ p ∈ rmem, Live sys p))
  | .write addr _ => inferInstanceAs (Decidable (∃ b ∈ sys.objectList,
      ∃ p ∈ (sys.object b).live, p ≤ addr ∧ addr < dataEnd c sys.memory p))

instance (c : Config) (sys : System) : ∀ op, Decidable (SystemUnwrapped c sys op)
  | .realloc heap ptr newsize => inferInstanceAs
      (Decidable (Unwrapped c (view sys heap) (.realloc ptr newsize)))
  | .memheapRealloc _ (some p) newsize => inferInstanceAs (Decidable
      (Unwrapped c (view sys (sys.memory.poolPtr (sub p c.memheapSize)))
        (.realloc (some p) newsize)))
  | .memheapRealloc _ none _ | .init _ _ _ _ | .alloc _ _ | .free _ | .memheapAlloc _ _
  | .write _ _ => inferInstanceAs (Decidable True)

/-- In every state that a run of calls over any number of heaps reaches in which no call of
`rt_memheap_realloc` wraps, a call with a size above zero that does not wrap preserves the block,
both in its heap and with the way over another heap. -/
theorem memheap_realloc_preserves (c : Config) (autoBinding : Bool) (object : Nat → Object)
    (memory : Memory) (ops : List SystemOp)
    (hops : Runs.Along (systemStep c autoBinding) (SystemAllowed c) (noHeaps object memory) ops)
    (hfits : Runs.Along (systemStep c autoBinding) (SystemUnwrapped c) (noHeaps object memory) ops)
    (sys : System)
    (hrun : Runs.run (systemStep c autoBinding) (noHeaps object memory) ops = some sys)
    (newsize : Nat) (hnew : 0 < newsize) (hwrap : newsize + c.align ≤ 2 ^ 32)
    (htest : request c newsize + minialloc < 2 ^ 32) :
    (∀ a ∈ sys.objectList, ∀ p ∈ (sys.object a).live,
      Preserves c sys p newsize (systemRealloc c sys a (some p) newsize)) ∧
    ∀ heap ∈ sys.objectList, ∀ p, Live sys p →
      Preserves c sys p newsize (memheapRealloc c autoBinding sys heap (some p) newsize) := by
  obtain ⟨t, hrun', hs⟩ := Runs.run_total_along
    (fun _ _ h hop => h.step hop.1 hop.2) (noHeaps_inv c object memory) (hops.and hfits)
  obtain rfl := Option.some.inj (hrun'.symm.trans hrun)
  have hunwrapped : ∀ a p, Unwrapped c (view t a) (.realloc (some p) newsize) :=
    fun a p _ => .inl htest
  constructor
  · intro a ha p hp
    obtain ⟨sys', r, hre, hout⟩ := hs.realloc ha hp (by omega) (hunwrapped a p)
    exact hout.preserves hre hwrap
  · intro heap hheap p hp
    obtain ⟨sys', r, hre, hout⟩ := hs.memheapRealloc hheap autoBinding hp (by omega)
      (hunwrapped _ p)
    exact hout.preserves hre hwrap

def blankMemory : Memory := blank.memory

def blankObject : Object := blank.object

/-- Two heaps of 256 and of 1024 bytes; a block of the first one is written to. -/
def fallbackOps : List SystemOp :=
  [.init 0x20000000 0x20000028 0x20001000 256, .init 0x20000080 0x200000a8 0x20002000 1024,
    .memheapAlloc 0x20000000 100, .write 0x20001018 7]

theorem memheap_realloc_preserves_ram : ∃ sys, Runs.run (systemStep config4 true)
    (noHeaps (fun _ => blankObject) blankMemory) fallbackOps = some sys ∧
      ∃ sys' q, memheapRealloc config4 true sys 0x20000000 (some 0x20001018) 300 =
        some (sys', some q) ∧
        Preserved config4 (Live sys) sys.memory sys'.memory 0x20001018 300 q ∧
        sys'.memory.data q = 7 := by
  have hcheck : decide (Runs.Along (systemStep config4 true) (SystemAllowed config4)
        (noHeaps (fun _ => blankObject) blankMemory) fallbackOps ∧
      Runs.Along (systemStep config4 true) (SystemUnwrapped config4)
        (noHeaps (fun _ => blankObject) blankMemory) fallbackOps) = true := by decide +kernel
  have hvalue : ((Runs.run (systemStep config4 true) (noHeaps (fun _ => blankObject) blankMemory)
      fallbackOps).bind fun sys =>
        (memheapRealloc config4 true sys 0x20000000 (some 0x20001018) 300).map fun r =>
          decide (0x20000000 ∈ sys.objectList ∧ Live sys 0x20001018 ∧ r.2 = some 0x20002018 ∧
            r.1.memory.data 0x20002018 = 7)) = some true := by decide +kernel
  obtain ⟨hops, hfits⟩ := of_decide_eq_true hcheck
  obtain ⟨sys, hrun, hrest⟩ := Option.bind_eq_some_iff.mp hvalue
  obtain ⟨⟨sys', r⟩, hre, hdec⟩ := Option.map_eq_some_iff.mp hrest
  obtain ⟨hheap, hp, rfl, hbyte⟩ := of_decide_eq_true hdec
  obtain ⟨t, r, hre', -, hkept⟩ := (memheap_realloc_preserves config4 true (fun _ => blankObject)
    blankMemory fallbackOps hops hfits sys hrun 300 (by decide) (by decide) (by decide)).2
    0x20000000 hheap 0x20001018 hp
  obtain ⟨rfl, rfl⟩ := pair_inj (hre'.symm.trans hre)
  exact ⟨sys, hrun, t, 0x20002018, hre, (hkept 0x20002018 rfl).1, hbyte⟩

/-- The block is cut by a request that wraps, so that the next item begins inside its header. -/
def cutOps : List SystemOp :=
  [.init 0x20000000 0x20000028 0x20001000 1024, .alloc 0x20000000 100,
    .realloc 0x20000000 (some 0x20001018) 0xfffffff4]

/-- Cutting the block again writes the `prev` of that item, which is in the first bytes of the
block. -/
theorem memheap_realloc_not_preserves :
    ¬ ∀ (c : Config) (autoBinding : Bool) (object : Nat → Object) (memory : Memory)
        (ops : List SystemOp) (sys : System),
      Runs.Along (systemStep c autoBinding) (SystemAllowed c) (noHeaps object memory) ops →
      Runs.run (systemStep c autoBinding) (noHeaps object memory) ops = some sys →
      ∀ newsize, 0 < newsize → newsize + c.align ≤ 2 ^ 32 →
        request c newsize + minialloc < 2 ^ 32 →
        ∀ a ∈ sys.objectList, ∀ p ∈ (sys.object a).live,
          Preserves c sys p newsize (systemRealloc c sys a (some p) newsize) := by
  intro h
  have hops : Runs.Along (systemStep config4 true) (SystemAllowed config4)
      (noHeaps (fun _ => blankObject) blankMemory) cutOps := by decide +kernel
  have hvalue : ((Runs.run (systemStep config4 true) (noHeaps (fun _ => blankObject) blankMemory)
      cutOps).bind fun sys =>
        (systemRealloc config4 sys 0x20000000 (some 0x20001018) 50).map fun r =>
          decide (0x20000000 ∈ sys.objectList ∧ 0x20001018 ∈ (sys.object 0x20000000).live ∧
            r.2 = some 0x20001018 ∧ r.1.memory.prev 0x2000100c ≠ sys.memory.prev 0x2000100c ∧
            r.1.memory.next 0x20001000 = 0x2000104c)) = some true := by decide +kernel
  obtain ⟨sys, hrun, hrest⟩ := Option.bind_eq_some_iff.mp hvalue
  obtain ⟨⟨sys', r⟩, hre, hdec⟩ := Option.map_eq_some_iff.mp hrest
  obtain ⟨hheap, hp, rfl, hprev, hnext⟩ := of_decide_eq_true hdec
  obtain ⟨t, r, hre', -, hkept⟩ := h config4 true (fun _ => blankObject) blankMemory cutOps sys hops
    hrun 50 (by decide) (by decide) (by decide) 0x20000000 hheap 0x20001018 hp
  obtain ⟨rfl, rfl⟩ := pair_inj (hre'.symm.trans hre)
  have hsize : config4.memheapSize = 24 := by decide
  have hheaders := (hkept 0x20001018 rfl).1.headers 0x2000100c fun hsame => hprev hsame.prev
  rw [dataEnd, hsize] at hheaders
  change _ ∨ t.memory.next 0x20001000 ≤ _ at hheaders
  rw [hnext] at hheaders
  omega

end RtThread.Memheap
