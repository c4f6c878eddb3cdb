import RtThread.MemheapRequests
import RtThread.SmallMemRequests

/-!
# The requested size is delivered

`mem.c`, `memheap.c` and `rt_calloc` together: on every heap that calls with live
pointers reach, a result holds the bytes that were asked for exactly when the
request survives the arithmetic of the word, or is refused.
-/
namespace RtThread.HeapRequests

theorem small_delivers_iff {a : SmallMem.Arch} {beginAddr size : Nat} {item : Nat → SmallMem.Item}
    {data : Nat → BitVec 8} {s₀ s : SmallMem.State}
    (hinit : SmallMem.rtSmemInit a beginAddr size item data = some s₀) {calls : List SmallMem.Call}
    (hcalls : Runs.Along (SmallMem.call a) (SmallMem.CallAllowed a) s₀ calls)
    (hrun : Runs.run (SmallMem.call a) s₀ calls = some s) {x : SmallMem.Call}
    (hx : SmallMem.CallAllowed a s x) :
    SmallMem.Delivers a s x ↔ SmallMem.Fitting a s x := by
  have hsound : SmallMem.Sound a s := Runs.run_invariant_along
    (fun _ _ _ h hcall hs => h.call hcall hs) (SmallMem.init_fresh hinit).sound hcalls hrun
  exact hsound.delivers_iff hx

theorem memheap_delivers_iff {c : Memheap.Config} {heap freeHeader startAddr size : Nat}
    {s₀ s : Memheap.State} (hinit : Memheap.Provided c freeHeader startAddr size)
    {ops : List Memheap.Op}
    (hops : Runs.Along (Memheap.step c) (Memheap.CallAllowed c)
      (Memheap.rtMemheapInit c heap freeHeader startAddr size s₀) ops)
    (hfits : Runs.Along (Memheap.step c) (Memheap.Unwrapped c)
      (Memheap.rtMemheapInit c heap freeHeader startAddr size s₀) ops)
    (hrun : Runs.run (Memheap.step c)
      (Memheap.rtMemheapInit c heap freeHeader startAddr size s₀) ops = some s) {op : Memheap.Op}
    (hop : Memheap.CallAllowed c s op) : Memheap.Delivers c s op ↔ Memheap.Fitting c s op := by
  have hstart := Memheap.Sized.of_live (Memheap.init_inv s₀ hinit)
    (rfl : (Memheap.rtMemheapInit c heap freeHeader startAddr size s₀).live = [])
  have hsized : Memheap.Sized c s := Runs.run_invariant_along
    (fun _ _ _ h hstep hs => h.step hstep.1.1 hstep.2 hs) hstart (hops.and hfits) hrun
  exact hsized.delivers_iff hop

/-- On every heap that calls with live pointers reach from the initialisation of the heap, and for
every further call, a returned pointer is that of a block in use with the requested bytes exactly
when the request is fitting. A memheap is out of order behind a call of `rt_memheap_realloc` whose
test for growing in place wraps. -/
theorem requests_delivered_iff (a : SmallMem.Arch) (c : Memheap.Config) :
    (∀ beginAddr size item data s₀, SmallMem.rtSmemInit a beginAddr size item data = some s₀ →
      ∀ calls, Runs.Along (SmallMem.call a) (SmallMem.CallAllowed a) s₀ calls →
        ∀ s, Runs.run (SmallMem.call a) s₀ calls = some s →
          ∀ x, SmallMem.CallAllowed a s x → (SmallMem.Delivers a s x ↔ SmallMem.Fitting a s x)) ∧
      ∀ heap freeHeader startAddr size s₀, Memheap.Provided c freeHeader startAddr size →
        ∀ ops, Runs.Along (Memheap.step c) (Memheap.CallAllowed c)
            (Memheap.rtMemheapInit c heap freeHeader startAddr size s₀) ops →
          Runs.Along (Memheap.step c) (Memheap.Unwrapped c)
            (Memheap.rtMemheapInit c heap freeHeader startAddr size s₀) ops →
          ∀ s, Runs.run (Memheap.step c)
              (Memheap.rtMemheapInit c heap freeHeader startAddr size s₀) ops = some s →
            ∀ op, Memheap.CallAllowed c s op →
              (Memheap.Delivers c s op ↔ Memheap.Fitting c s op) :=
  ⟨fun _ _ _ _ _ hinit _ hcalls _ hrun _ hx => small_delivers_iff hinit hcalls hrun hx,
    fun _ _ _ _ _ hinit _ hops hfits _ hrun _ hop =>
      memheap_delivers_iff hinit hops hfits hrun hop⟩

theorem requests_delivered_iff_ram :
    (∃ s₀, SmallMem.ramHeap = some s₀ ∧
      (SmallMem.Delivers SmallMem.arch32 s₀ (.calloc 5 8) ↔
        SmallMem.Fitting SmallMem.arch32 s₀ (.calloc 5 8))) ∧
      ∃ s, Runs.run (Memheap.step Memheap.config4) Memheap.ramHeap [.alloc 100] = some s ∧
        (Memheap.Delivers Memheap.config4 s (.realloc (some 0x20001018) 60) ↔
          Memheap.Fitting Memheap.config4 s (.realloc (some 0x20001018) 60)) := by
  obtain ⟨hsmall, hmemheap⟩ := requests_delivered_iff SmallMem.arch32 Memheap.config4
  constructor
  · obtain ⟨s₀, hs₀⟩ : ∃ s₀, SmallMem.ramHeap = some s₀ :=
      Option.isSome_iff_exists.mp (by decide +kernel)
    exact ⟨s₀, hs₀, hsmall 0x20000000 512 (fun _ => ⟨0, 0, 0⟩) (fun _ => 0) s₀ hs₀ [] trivial s₀
      rfl (.calloc 5 8) ⟨by decide, by decide⟩⟩
  · have hcheck : ((Runs.run (Memheap.step Memheap.config4) Memheap.ramHeap [.alloc 100]).map
        fun s => decide (0x20001018 ∈ s.live)) = some true := by decide +kernel
    obtain ⟨s, hrun, hlive⟩ := Option.map_eq_some_iff.mp hcheck
    refine ⟨s, hrun, hmemheap 0x20000000 0x20000028 0x20001000 1024 Memheap.blank
      ⟨by decide, by decide, by decide, by decide⟩ [.alloc 100] ?_ ?_ s hrun
      (.realloc (some 0x20001018) 60) ⟨?_, by decide⟩⟩
    · exact ⟨⟨trivial, by decide⟩, fun _ _ => trivial⟩
    · exact ⟨trivial, fun _ _ => trivial⟩
    · rintro p ⟨⟩
      exact of_decide_eq_true hlive

/-- The largest request gets a block of 12 bytes from `rt_smem_alloc` and from
`rt_memheap_alloc`, and so does `rt_calloc` for a product behind the end of the word. -/
theorem largest_request_gets_smallest_block : ∃ s₀, SmallMem.ramHeap = some s₀ ∧
    ¬ SmallMem.Delivers SmallMem.arch32 s₀ (.op (.alloc 0xffffffff)) ∧
      ¬ SmallMem.Delivers SmallMem.arch32 s₀ (.calloc 2 0x80000001) ∧
        ¬ Memheap.Delivers Memheap.config4 Memheap.ramHeap (.alloc 0xffffffff) := by
  have hsmall : (SmallMem.ramHeap.bind fun s =>
      (SmallMem.call SmallMem.arch32 s (.op (.alloc 0xffffffff))).bind fun _ =>
        (SmallMem.call SmallMem.arch32 s (.calloc 2 0x80000001)).map fun _ =>
          decide (SmallMem.returned SmallMem.arch32 s (.op (.alloc 0xffffffff)) = some (some 12) ∧
            SmallMem.returned SmallMem.arch32 s (.calloc 2 0x80000001) = some (some 12))) =
      some true := by decide +kernel
  have hmemheap : ((Memheap.step Memheap.config4 Memheap.ramHeap (.alloc 0xffffffff)).map fun _ =>
      decide (Memheap.returned Memheap.config4 Memheap.ramHeap (.alloc 0xffffffff) =
        some (some 0x20001018))) = some true := by decide +kernel
  obtain ⟨s₀, hs₀, halloc⟩ := Option.bind_eq_some_iff.mp hsmall
  obtain ⟨s₁, hcall₁, hcalloc⟩ := Option.bind_eq_some_iff.mp halloc
  obtain ⟨s₂, hcall₂, hret⟩ := Option.map_eq_some_iff.mp hcalloc
  obtain ⟨hret₁, hret₂⟩ := of_decide_eq_true hret
  obtain ⟨s₃, hstep, hret₃⟩ := Option.map_eq_some_iff.mp hmemheap
  have hsound : SmallMem.Sound SmallMem.arch32 s₀ := (SmallMem.init_fresh hs₀).sound
  have hsized : Memheap.Sized Memheap.config4 Memheap.ramHeap :=
    .of_live (Memheap.init_inv Memheap.blank ⟨by decide, by decide, by decide, by decide⟩) rfl
  have hword : 0xffffffff < 2 ^ 32 := by decide
  exact ⟨s₀, hs₀, hsound.not_delivers hword (by decide) hcall₁ hret₁,
    hsound.not_delivers ⟨by decide, by decide⟩ (by decide) hcall₂ hret₂,
    hsized.not_delivers trivial trivial (by decide) hstep (of_decide_eq_true hret₃)⟩

end RtThread.HeapRequests
