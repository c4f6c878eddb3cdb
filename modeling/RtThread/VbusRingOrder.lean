import Mathlib.Data.List.Nodup
import RtThread.Lib.Cyclic
import RtThread.VbusRing

/-!
# The packets of a ring in their order

The unread packets lie one behind the other from `get_idx` to `put_idx`, with at least one block
left over. The stores of the writer go to the blocks behind them, so the reader finds what has
been written, and moves `get_idx` by as many blocks as the writer has moved `put_idx`.
-/
namespace RtThread.VbusRing

open Cyclic

/-! ## Blocks and bytes -/

section bytes

variable {nr idx blk len i : Nat} {blks blks' : Nat → Byte} {p : RtVbusPkg} {q : List RtVbusPkg}

theorem le_len2bnr (len : Nat) : len + rtVbusBlkHeadSz ≤ len2bnr len * blkSize := by
  rw [len2bnr, rtVbusBlkHeadSz, blkSize]
  omega

theorem len2bnr_pos (len : Nat) : 0 < len2bnr len := by
  rw [len2bnr, rtVbusBlkHeadSz, blkSize]
  omega

theorem len2bnr_le (p : RtVbusPkg) : len2bnr p.data.length ≤ len2bnr rtVbusMaxPktSz :=
  Nat.div_le_div_right (by have := p.len_le; omega)

/-- The byte of a block that is counted on past the end of the ring. -/
def cell (nr blk i : Nat) : Nat := (blk * blkSize + i) % (nr * blkSize)

theorem cell_mod (nr blk i : Nat) : cell nr (blk % nr) i = cell nr blk i := by
  rw [cell, cell, ← Nat.mul_mod_mul_right blkSize blk nr, Nat.mod_add_mod]

theorem cell_lt (hnr : 0 < nr) : cell nr blk i < nr * blkSize :=
  Nat.mod_lt _ (Nat.mul_pos hnr (by decide))

theorem cell_add (nr blk bnr i : Nat) : cell nr (blk + bnr) i = cell nr blk (bnr * blkSize + i) := by
  rw [cell, cell, Nat.add_mul, Nat.add_assoc]

theorem cell_ne {j : Nat} (hij : i < j) (hj : j < i + nr * blkSize) : cell nr blk i ≠ cell nr blk j :=
  mod_ne hij hj

theorem byteOf_eq (hi : idx * blkSize + i < nr * blkSize) :
    byteOf idx i = cell nr idx i :=
  (Nat.mod_eq_of_lt hi).symm

theorem byteOf_block (hidx : idx < nr) (hi : i < blkSize) : byteOf idx i = cell nr idx i := by
  have hle : (idx + 1) * blkSize ≤ nr * blkSize := Nat.mul_le_mul_right _ hidx
  rw [Nat.add_mul, Nat.one_mul] at hle
  exact byteOf_eq (by omega)

/-- The two copies of either side go round the ring. -/
theorem dataBytes_eq (hidx : idx < nr) (hlen : len2bnr len ≤ nr) :
    dataBytes nr idx len = (List.range len).map fun i => cell nr idx (rtVbusBlkHeadSz + i) := by
  have hle := le_len2bnr len
  have hsub : (nr - idx) * blkSize = nr * blkSize - idx * blkSize := Nat.sub_mul _ _ _
  have hidxle : idx * blkSize + blkSize ≤ nr * blkSize := by
    have h := Nat.mul_le_mul_right blkSize (Nat.succ_le_of_lt hidx)
    rwa [Nat.succ_mul] at h
  have hlenle : len2bnr len * blkSize ≤ nr * blkSize := Nat.mul_le_mul_right _ hlen
  rw [dataBytes]
  split
  · have hhead : rtVbusBlkHeadSz ≤ blkSize := by decide
    rw [hsub]
    generalize htailsz : min (nr * blkSize - idx * blkSize - rtVbusBlkHeadSz) len = tailsz
    have hsum : List.range len =
        List.range tailsz ++ (List.range (len - tailsz)).map (tailsz + ·) := by
      rw [← List.range_add]
      congr 1
      omega
    rw [hsum, List.map_append, List.map_map]
    refine congrArg₂ _ (List.map_congr_left fun i hi => ?_) ?_
    · have hi := List.mem_range.mp hi
      exact byteOf_eq (by omega)
    · refine (List.map_id _).symm.trans (List.map_congr_left fun i hi => ?_)
      have hi := List.mem_range.mp hi
      show i = cell nr idx (rtVbusBlkHeadSz + (tailsz + i))
      rw [cell, Nat.mod_eq_sub_mod (by omega), Nat.mod_eq_of_lt (by omega)]
      omega
  · rename_i hfit
    have hfit : (idx + len2bnr len) * blkSize ≤ nr * blkSize := Nat.mul_le_mul_right _ (by omega)
    rw [Nat.add_mul] at hfit
    refine List.map_congr_left fun i hi => ?_
    have hi := List.mem_range.mp hi
    exact byteOf_eq (by omega)

theorem addBnr_eq {bnr : Nat} (hnr : 0 < nr) (hbnr : bnr ≤ nr) :
    addBnr nr (blk % nr) bnr = (blk + bnr) % nr := by
  rw [addBnr, ← Nat.mod_add_mod, wrap_mod (Nat.mod_lt _ hnr) hbnr]
  split
  · rw [if_neg (by omega)]
  · rw [if_pos (by omega)]

/-- One block is kept free. -/
theorem busRingSpaceNr_eq {rg : RtVbusRing} {used : Nat} (hget : rg.getIdx = blk % nr)
    (hput : rg.putIdx = (blk + used) % nr) (hused : used + 1 ≤ nr) :
    busRingSpaceNr nr rg = (nr : Int) - 1 - used := by
  have hlt : blk % nr < nr := Nat.mod_lt _ (by omega)
  rw [← Nat.mod_add_mod, wrap_mod hlt (by omega)] at hput
  rw [busRingSpaceNr, hget, hput]
  split <;> split <;> omega

/-! ## Packets in the ring -/

/-- The packet begins at a block. -/
structure At (nr : Nat) (blks : Nat → Byte) (blk : Nat) (p : RtVbusPkg) : Prop where
  id : blks (cell nr blk 0) = p.id
  len : blks (cell nr blk 2) = BitVec.ofNat 8 p.data.length
  data : (List.range p.data.length).map (fun i => blks (cell nr blk (rtVbusBlkHeadSz + i))) = p.data

/-- The number of blocks of some packets. -/
def blocks (q : List RtVbusPkg) : Nat := (q.map fun p => len2bnr p.data.length).sum

/-- The packets lie one behind the other. -/
def Layout (nr : Nat) (blks : Nat → Byte) : Nat → List RtVbusPkg → Prop
  | _, [] => True
  | blk, p :: q => At nr blks blk p ∧ Layout nr blks (blk + len2bnr p.data.length) q

@[simp] theorem blocks_nil : blocks [] = 0 := rfl

@[simp] theorem blocks_cons : blocks (p :: q) = len2bnr p.data.length + blocks q := by
  simp [blocks]

@[simp] theorem blocks_append (q q' : List RtVbusPkg) : blocks (q ++ q') = blocks q + blocks q' := by
  simp [blocks]

theorem At.congr (h : At nr blks blk p)
    (hsame : ∀ i < len2bnr p.data.length * blkSize, blks' (cell nr blk i) = blks (cell nr blk i)) :
    At nr blks' blk p := by
  have hle := le_len2bnr p.data.length
  have hhead : rtVbusBlkHeadSz = 4 := rfl
  refine ⟨(hsame 0 (by omega)).trans h.id, (hsame 2 (by omega)).trans h.len, ?_⟩
  refine (List.map_congr_left fun i hi => ?_).trans h.data
  have hi := List.mem_range.mp hi
  exact hsame _ (by omega)

/-- Stores to other blocks. -/
theorem Layout.congr (h : Layout nr blks blk q)
    (hsame : ∀ i < blocks q * blkSize, blks' (cell nr blk i) = blks (cell nr blk i)) :
    Layout nr blks' blk q := by
  induction q generalizing blk with
  | nil => trivial
  | cons p q ih =>
    rw [blocks_cons, Nat.add_mul] at hsame
    refine ⟨h.1.congr fun i hi => hsame i (by omega), ih h.2 fun i hi => ?_⟩
    rw [cell_add]
    exact hsame _ (by omega)

/-- A packet behind the last one. -/
theorem Layout.append (h : Layout nr blks blk q) (hp : At nr blks (blk + blocks q) p) :
    Layout nr blks blk (q ++ [p]) := by
  induction q generalizing blk with
  | nil => exact ⟨hp, trivial⟩
  | cons p' q ih =>
    rw [blocks_cons, ← Nat.add_assoc] at hp
    exact ⟨h.1, ih h.2 hp⟩

/-- Only the place in the ring matters. -/
theorem Layout.of_mod {blk' : Nat} (h : Layout nr blks blk q) (heq : blk' % nr = blk % nr) :
    Layout nr blks blk' q := by
  induction q generalizing blk blk' with
  | nil => trivial
  | cons p q ih =>
    have hcell : ∀ i, cell nr blk' i = cell nr blk i := fun i => by
      rw [← cell_mod, heq, cell_mod]
    refine ⟨⟨?_, ?_, ?_⟩, ih h.2 ?_⟩
    · rw [hcell]
      exact h.1.id
    · rw [hcell]
      exact h.1.len
    · simp only [hcell]
      exact h.1.data
    · rw [← Nat.mod_add_mod, heq, Nat.mod_add_mod]

/-! ## The stores of a packet -/

/-- The offsets of the bytes of a packet that are stored. -/
def offsets (len : Nat) : List Nat := [0, 1, 2] ++ (List.range len).map (rtVbusBlkHeadSz + ·)

theorem offsets_lt {o : Nat} (ho : o ∈ offsets len) : o < len2bnr len * blkSize := by
  have hle := le_len2bnr len
  have hhead : rtVbusBlkHeadSz = 4 := rfl
  obtain ho | ho := List.mem_append.mp ho
  · simp only [List.mem_cons, List.not_mem_nil, or_false] at ho
    omega
  · obtain ⟨i, hi, rfl⟩ := List.mem_map.mp ho
    have hi := List.mem_range.mp hi
    omega

theorem nodup_offsets (len : Nat) : (offsets len).Nodup := by
  refine List.nodup_append.mpr ⟨by decide, ?_, fun a ha b hb => ?_⟩
  · exact List.Nodup.map (fun i j hij => Nat.add_left_cancel hij) List.nodup_range
  · obtain ⟨i, -, rfl⟩ := List.mem_map.mp hb
    simp only [List.mem_cons, List.not_mem_nil, or_false] at ha
    rw [rtVbusBlkHeadSz]
    omega

theorem stores_fst (hidx : idx < nr) (hlen : len2bnr p.data.length ≤ nr) :
    (stores nr idx p).map Prod.fst = (offsets p.data.length).map (cell nr idx) := by
  rw [stores, offsets, List.map_append, List.map_append, List.map_fst_zip, dataBytes_eq hidx hlen,
    List.map_map]
  · refine congrArg₂ _ ?_ rfl
    have hbyte : ∀ i < blkSize, byteOf idx i = cell nr idx i := fun i hi => byteOf_block hidx hi
    simp only [List.map_cons, List.map_nil, hbyte 0 (by decide), hbyte 1 (by decide),
      hbyte 2 (by decide)]
  · rw [dataBytes_eq hidx hlen]
    simp

theorem nodup_stores (hidx : idx < nr) (hlen : len2bnr p.data.length ≤ nr) :
    ((stores nr idx p).map Prod.fst).Nodup := by
  rw [stores_fst hidx hlen]
  refine List.Nodup.map_on (fun i hi j hj heq => ?_) (nodup_offsets _)
  have hle : len2bnr p.data.length * blkSize ≤ nr * blkSize := Nat.mul_le_mul_right _ hlen
  have hi := offsets_lt hi
  have hj := offsets_lt hj
  obtain hij | hij | hij := Nat.lt_trichotomy i j
  · exact absurd heq (cell_ne hij (by omega))
  · exact hij
  · exact absurd heq.symm (cell_ne hij (by omega))

/-- Once every store has been made, the packet is in the ring. -/
theorem at_of_stores (hlen : len2bnr p.data.length ≤ nr) (hidx : blk % nr < nr)
    (hall : ∀ st ∈ stores nr (blk % nr) p, blks st.1 = st.2) : At nr blks blk p := by
  have hfield : ∀ i < blkSize, byteOf (blk % nr) i = cell nr blk i := fun i hi => by
    rw [byteOf_block hidx hi, cell_mod]
  refine ⟨?_, ?_, ?_⟩
  · rw [← hfield 0 (by decide)]
    exact hall (byteOf (blk % nr) 0, p.id) (by simp [stores])
  · rw [← hfield 2 (by decide)]
    exact hall (byteOf (blk % nr) 2, BitVec.ofNat 8 p.data.length) (by simp [stores])
  · refine List.ext_getElem (by simp) fun i hi hi' => ?_
    have hbytes := dataBytes_eq hidx hlen
    have hlength : (dataBytes nr (blk % nr) p.data.length).length = p.data.length := by
      rw [hbytes]
      simp
    have hmem : (dataBytes nr (blk % nr) p.data.length)[i] =
        cell nr blk (rtVbusBlkHeadSz + i) := by
      simp [hbytes, cell_mod]
    have hzip : (cell nr blk (rtVbusBlkHeadSz + i), p.data[i]) ∈
        (dataBytes nr (blk % nr) p.data.length).zip p.data := by
      rw [← hmem, ← @List.getElem_zip _ _ _ _ i (by rw [List.length_zip]; omega)]
      exact List.getElem_mem _
    have hstore := hall _ (List.mem_append_right _ hzip)
    simpa using hstore

end bytes

/-! ## Runs -/

/-- A ring with the packets that the writer has put into it so far, and what the reader has
found. -/
structure Traced where
  state : State
  written : List RtVbusPkg
  events : List Event

/-- The packet that a step makes visible to the reader. -/
def published (s : State) : Op → List RtVbusPkg
  | .write =>
    match s.writer with
    | .storing p [] => [p]
    | _ => []
  | _ => []

def tracedStep (nr : Nat) (x : Traced) (op : Op) : Option Traced :=
  (call nr x.state op).map fun r =>
    ⟨r.1, x.written ++ published x.state op, x.events ++ r.2⟩

def start : Traced := ⟨rtVbusInit, [], []⟩

/-- The packets that the reader has not taken from the ring. -/
def Traced.unread (x : Traced) : List RtVbusPkg := x.written.drop x.events.length

/-- The reader has found the packet. -/
def Event.Matches : Event → RtVbusPkg → Prop
  | .packet id data, p => id = p.id ∧ data = p.data
  | .drop id size, p => id = p.id ∧ size = p.data.length

/-- The reader finds the packets in the order they were written; the unread ones are in the
ring, which is empty when there are none; a store leaves their blocks alone; all accesses are
inside the ring; and an empty ring has room for every packet. -/
structure Sound (nr : Nat) (x : Traced) : Prop where
  order : List.Forall₂ Event.Matches x.events (x.written.take x.events.length)
  put : x.state.ring.putIdx < nr
  get : x.state.ring.getIdx < nr
  empty : x.state.ring.putIdx = x.state.ring.getIdx ↔ x.unread = []
  holds : Layout nr x.state.ring.blks x.state.ring.getIdx x.unread
  stores : ∀ p a b pending, x.state.writer = .storing p ((a, b) :: pending) →
    a < nr * blkSize ∧ ∀ i < blocks x.unread * blkSize, cell nr x.state.ring.getIdx i ≠ a
  loads : ∀ size id a pending data, x.state.reader = .loading size id (a :: pending) data →
    a < nr * blkSize
  fits : x.unread = [] → ∀ p : RtVbusPkg,
    (len2bnr p.data.length : Int) ≤ busRingSpaceNr nr x.state.ring

/-- The writer is making the stores of a packet that has room behind the unread blocks. -/
def WriterOk (nr : Nat) (s : State) (used : Nat) : Prop :=
  match s.writer with
  | .storing p pending => used + len2bnr p.data.length + 1 ≤ nr ∧
    ∃ done, stores nr s.ring.putIdx p = done ++ pending ∧ ∀ st ∈ done, s.ring.blks st.1 = st.2
  | _ => True

/-- What the reader knows of the first unread packet. -/
def Knows (nr : Nat) (s : State) (p : RtVbusPkg) : Prop :=
  match s.reader with
  | .idle | .size => True
  | .id size => size = p.data.length
  | .choosing size id => size = p.data.length ∧ id = p.id
  | .loading size id pending data => size = p.data.length ∧ id = p.id ∧
    data ++ pending.map s.ring.blks = p.data ∧
      ∀ a ∈ pending, ∃ i < len2bnr p.data.length * blkSize, a = cell nr s.ring.getIdx i
  | .advancing size event => size = p.data.length ∧ event.Matches p

/-- `blk` is `get_idx`, counted on past the end of the ring, and `q` are the unread packets. -/
structure Inv (nr : Nat) (x : Traced) (blk : Nat) (q : List RtVbusPkg) : Prop where
  split : ∃ found, x.written = found ++ q ∧ List.Forall₂ Event.Matches x.events found
  get : x.state.ring.getIdx = blk % nr
  put : x.state.ring.putIdx = (blk + blocks q) % nr
  room : blocks q + 1 ≤ nr
  layout : Layout nr x.state.ring.blks blk q
  writer : WriterOk nr x.state (blocks q)
  reader : x.state.reader = .idle ∨ ∃ p q', q = p :: q' ∧ Knows nr x.state p

section runs

variable {nr blk : Nat} {x : Traced} {q : List RtVbusPkg} {s : State} {p : RtVbusPkg}

theorem Inv.unread (hi : Inv nr x blk q) : x.unread = q := by
  obtain ⟨found, hwritten, hmatch⟩ := hi.split
  rw [Traced.unread, hwritten, hmatch.length_eq, List.drop_left]

theorem Inv.store_ne (hi : Inv nr x blk q) {pending : List (Nat × Byte)} {a : Nat} {b : Byte}
    (hw : x.state.writer = .storing p ((a, b) :: pending)) :
    ∃ o < len2bnr p.data.length * blkSize, a = cell nr blk (blocks q * blkSize + o) := by
  have hok := hi.writer
  rw [WriterOk, hw] at hok
  obtain ⟨hroom, done, hstores, -⟩ := hok
  have hnr : 0 < nr := by omega
  have hlen : len2bnr p.data.length ≤ nr := by omega
  rw [hi.put] at hstores
  have hfst := stores_fst (Nat.mod_lt (blk + blocks q) hnr) hlen
  rw [hstores, List.map_append, List.map_cons] at hfst
  have hmem : a ∈ (offsets p.data.length).map (cell nr ((blk + blocks q) % nr)) := by
    rw [← hfst]
    simp
  obtain ⟨o, ho, rfl⟩ := List.mem_map.mp hmem
  exact ⟨o, offsets_lt ho, by rw [cell_mod, cell_add]⟩

/-- A store leaves the blocks of the unread packets alone. -/
theorem Inv.store_unread (hi : Inv nr x blk q) {pending : List (Nat × Byte)} {a : Nat} {b : Byte}
    (hw : x.state.writer = .storing p ((a, b) :: pending)) {i : Nat}
    (hlt : i < blocks q * blkSize) : cell nr blk i ≠ a := by
  obtain ⟨o, ho, rfl⟩ := hi.store_ne hw
  have hok := hi.writer
  rw [WriterOk, hw] at hok
  have hle : (blocks q + len2bnr p.data.length) * blkSize ≤ nr * blkSize :=
    Nat.mul_le_mul_right _ (by omega)
  rw [Nat.add_mul] at hle
  exact cell_ne (by omega) (by omega)

theorem Inv.fits (hi : Inv nr x blk q) : busRingSpaceNr nr x.state.ring = (nr : Int) - 1 - blocks q :=
  busRingSpaceNr_eq hi.get hi.put hi.room

theorem Inv.sound (hi : Inv nr x blk q) (hnr : len2bnr rtVbusMaxPktSz + 1 < nr) : Sound nr x := by
  have hpos : 0 < nr := by omega
  obtain ⟨found, hwritten, hmatch⟩ := hi.split
  refine ⟨?_, ?_, ?_, ?_, ?_, fun p a b pending hw => ⟨?_, fun i hlt => ?_⟩,
    fun size id a pending data hr => ?_, fun hnil p => ?_⟩
  · rw [hwritten, hmatch.length_eq, List.take_left]
    exact hmatch
  · rw [hi.put]
    exact Nat.mod_lt _ hpos
  · rw [hi.get]
    exact Nat.mod_lt _ hpos
  · rw [hi.unread, hi.put, hi.get]
    constructor
    · intro heq
      by_contra hne
      obtain ⟨p, q', rfl⟩ := List.exists_cons_of_ne_nil hne
      have hbnr := len2bnr_pos p.data.length
      have hroom := hi.room
      rw [blocks_cons] at heq hroom
      exact @mod_ne nr blk 0 _ (by omega) (by omega) heq.symm
    · rintro rfl
      rfl
  · rw [hi.unread, hi.get]
    exact hi.layout.of_mod (Nat.mod_mod _ _)
  · obtain ⟨o, -, rfl⟩ := hi.store_ne hw
    exact cell_lt hpos
  · rw [hi.unread] at hlt
    rw [hi.get, cell_mod]
    exact hi.store_unread hw hlt
  · obtain hidle | ⟨p, q', -, hknows⟩ := hi.reader
    · rw [hr] at hidle
      cases hidle
    · rw [Knows, hr] at hknows
      obtain ⟨i, -, rfl⟩ := hknows.2.2.2 a List.mem_cons_self
      exact cell_lt hpos
  · rw [hi.unread] at hnil
    rw [hi.fits, hnil, blocks_nil]
    have hle := len2bnr_le p
    omega

theorem Knows.frame {s' : State} (h : Knows nr s p) (hreader : s'.reader = s.reader)
    (hget : s'.ring.getIdx = s.ring.getIdx)
    (hblks : ∀ i < len2bnr p.data.length * blkSize,
      s'.ring.blks (cell nr s.ring.getIdx i) = s.ring.blks (cell nr s.ring.getIdx i)) :
    Knows nr s' p := by
  rw [Knows] at h ⊢
  rw [hreader]
  cases hr : s.reader with
  | loading size id pending data =>
    rw [hr] at h
    obtain ⟨hsize, hid, hdata, hin⟩ := h
    refine ⟨hsize, hid, ?_, fun a ha => ?_⟩
    · rw [← hdata]
      refine congrArg _ (List.map_congr_left fun a ha => ?_)
      obtain ⟨i, hi, rfl⟩ := hin a ha
      exact hblks i hi
    · rw [hget]
      exact hin a ha
  | idle => trivial
  | size => trivial
  | id | choosing | advancing =>
    rw [hr] at h
    exact h

/-- A step of the writer that stores nothing. -/
theorem Inv.writer_only (hi : Inv nr x blk q) {blocked : Bool} {writer : Writer}
    (hok : WriterOk nr ⟨{ x.state.ring with blocked := blocked }, writer, x.state.reader⟩ (blocks q)) :
    Inv nr { x with state := ⟨{ x.state.ring with blocked := blocked }, writer, x.state.reader⟩ }
      blk q where
  split := hi.split
  get := hi.get
  put := hi.put
  room := hi.room
  layout := hi.layout
  writer := hok
  reader := by
    obtain hidle | ⟨p, q', hq, hknows⟩ := hi.reader
    · exact .inl hidle
    · exact .inr ⟨p, q', hq, hknows.frame rfl rfl fun _ _ => rfl⟩

theorem Inv.write (hi : Inv nr x blk q) (h : write nr x.state = some s) :
    ∃ q', Inv nr ⟨s, x.written ++ published x.state .write, x.events⟩ blk q' := by
  rw [VbusRing.write] at h
  simp only [published]
  cases hw : x.state.writer with
  | idle =>
    rw [hw] at h
    cases h
  | checking p =>
    simp only [hw, List.append_nil] at h ⊢
    split at h
    · cases h
      exact ⟨q, hi.writer_only trivial⟩
    · rename_i hspace
      cases h
      rw [hi.fits] at hspace
      exact ⟨q, hi.writer_only ⟨by omega, [], rfl, by simp⟩⟩
  | waiting p =>
    simp only [hw, List.append_nil, Option.some.injEq] at h ⊢
    subst h
    exact ⟨q, hi.writer_only trivial⟩
  | storing p pending =>
    have hok := hi.writer
    rw [WriterOk, hw] at hok
    obtain ⟨hroom, done, hstores, hdone⟩ := hok
    have hpos : 0 < nr := by omega
    have hlen : len2bnr p.data.length ≤ nr := by omega
    rw [hi.put] at hstores
    cases pending with
    | nil =>
      simp only [hw, Option.some.injEq] at h ⊢
      subst h
      have hat : At nr x.state.ring.blks (blk + blocks q) p := by
        refine at_of_stores hlen (Nat.mod_lt _ hpos) fun st hst => hdone st ?_
        rwa [hstores, List.append_nil] at hst
      refine ⟨q ++ [p], ?_, hi.get, ?_, ?_, hi.layout.append hat, trivial, ?_⟩
      · obtain ⟨found, hwritten, hmatch⟩ := hi.split
        exact ⟨found, by rw [hwritten, List.append_assoc], hmatch⟩
      · rw [hi.put, addBnr_eq hpos hlen, blocks_append, blocks_cons, blocks_nil, Nat.add_zero,
          Nat.add_assoc]
      · rw [blocks_append, blocks_cons, blocks_nil]
        omega
      · obtain hidle | ⟨p', q', rfl, hknows⟩ := hi.reader
        · exact .inl hidle
        · exact .inr ⟨p', q' ++ [p], rfl, hknows.frame rfl rfl fun _ _ => rfl⟩
    | cons st pending =>
      obtain ⟨a, b⟩ := st
      simp only [hw, Option.some.injEq, List.append_nil] at h ⊢
      subst h
      have hold : ∀ i < blocks q * blkSize,
          Function.update x.state.ring.blks a b (cell nr blk i) = x.state.ring.blks (cell nr blk i) :=
        fun i hlt => Function.update_of_ne (hi.store_unread hw hlt) _ _
      refine ⟨q, hi.split, hi.get, hi.put, hi.room, hi.layout.congr hold,
        ⟨hroom, done ++ [(a, b)], ?_, fun st hst => ?_⟩, ?_⟩
      · rw [hi.put, hstores, List.append_assoc]
        rfl
      · show Function.update x.state.ring.blks a b st.1 = st.2
        obtain hst | hst := List.mem_append.mp hst
        · have hnd := nodup_stores (Nat.mod_lt (blk + blocks q) hpos) hlen
          rw [hstores, List.map_append, List.map_cons, List.nodup_append] at hnd
          have hne : st.1 ≠ a :=
            hnd.2.2 st.1 (List.mem_map_of_mem hst) a List.mem_cons_self
          rw [Function.update_of_ne hne]
          exact hdone st hst
        · obtain rfl := List.mem_singleton.mp hst
          exact Function.update_self _ _ _
      · obtain hidle | ⟨p', q', rfl, hknows⟩ := hi.reader
        · exact .inl hidle
        · refine .inr ⟨p', q', rfl, hknows.frame rfl rfl fun i hlt => ?_⟩
          rw [hi.get, cell_mod]
          rw [blocks_cons, Nat.add_mul] at hold
          exact hold i (by omega)

theorem toNat_length (p : RtVbusPkg) : (BitVec.ofNat 8 p.data.length).toNat = p.data.length := by
  have hle := p.len_le
  rw [rtVbusMaxPktSz, rtVbusBlkHeadSz] at hle
  rw [BitVec.toNat_ofNat, Nat.mod_eq_of_lt (by omega)]

/-- A step of the reader that leaves `get_idx` alone. -/
theorem Inv.reader_only (hi : Inv nr x blk q) {reader : Reader}
    (hok : reader = .idle ∨ ∃ p q', q = p :: q' ∧ Knows nr { x.state with reader := reader } p) :
    Inv nr ⟨{ x.state with reader := reader }, x.written ++ [], x.events ++ []⟩ blk q := by
  rw [List.append_nil, List.append_nil]
  exact ⟨hi.split, hi.get, hi.put, hi.room, hi.layout, hi.writer, hok⟩

/-- The loads of the data give the data. -/
theorem Inv.loads {q' : List RtVbusPkg} (hi : Inv nr x blk (p :: q')) {pending : List Nat}
    (hpending : pending = (List.range p.data.length).map fun i =>
      cell nr x.state.ring.getIdx (rtVbusBlkHeadSz + i)) :
    Knows nr { x.state with reader := .loading p.data.length p.id pending [] } p := by
  refine ⟨rfl, rfl, ?_, fun a ha => ?_⟩
  · rw [List.nil_append, hpending, List.map_map]
    refine Eq.trans ?_ hi.layout.1.data
    refine List.map_congr_left fun i _ => ?_
    show x.state.ring.blks (cell nr x.state.ring.getIdx (rtVbusBlkHeadSz + i)) = _
    rw [hi.get, cell_mod]
  · rw [hpending] at ha
    obtain ⟨i, hlt, rfl⟩ := List.mem_map.mp ha
    have hlt := List.mem_range.mp hlt
    have hle := le_len2bnr p.data.length
    exact ⟨_, by omega, rfl⟩

theorem Inv.read (hi : Inv nr x blk q) (connected memory : Bool) :
    ∃ blk' q', Inv nr ⟨(read nr x.state connected memory).1, x.written ++ [],
      x.events ++ (read nr x.state connected memory).2⟩ blk' q' := by
  have hpos : 0 < nr := by
    have := hi.room
    omega
  have hget : x.state.ring.getIdx < nr := by
    rw [hi.get]
    exact Nat.mod_lt _ hpos
  rw [VbusRing.read]
  cases hr : x.state.reader with
  | idle =>
    refine ⟨blk, q, hi.reader_only ?_⟩
    split
    · rename_i hne
      obtain _ | ⟨p, q'⟩ := q
      · rw [hi.get, hi.put] at hne
        exact absurd rfl hne
      · exact .inr ⟨p, q', rfl, trivial⟩
    · exact .inl rfl
  | size =>
    obtain hidle | ⟨p, q', rfl, -⟩ := hi.reader
    · rw [hr] at hidle
      cases hidle
    · refine ⟨blk, _, hi.reader_only (.inr ⟨p, q', rfl, ?_⟩)⟩
      show (x.state.ring.blks (byteOf x.state.ring.getIdx 2)).toNat = p.data.length
      rw [byteOf_block hget (by decide), hi.get, cell_mod, hi.layout.1.len, toNat_length]
  | id size =>
    obtain hidle | ⟨p, q', rfl, hknows⟩ := hi.reader
    · rw [hr] at hidle
      cases hidle
    · rw [Knows, hr] at hknows
      refine ⟨blk, _, hi.reader_only (.inr ⟨p, q', rfl, hknows, ?_⟩)⟩
      rw [byteOf_block hget (by decide), hi.get, cell_mod, hi.layout.1.id]
  | choosing size id =>
    obtain hidle | ⟨p, q', rfl, hknows⟩ := hi.reader
    · rw [hr] at hidle
      cases hidle
    · rw [Knows, hr] at hknows
      obtain ⟨rfl, rfl⟩ := hknows
      refine ⟨blk, _, hi.reader_only (.inr ⟨p, q', rfl, ?_⟩)⟩
      rw [choose]
      split
      · exact ⟨rfl, rfl, rfl⟩
      · split
        · split
          · exact ⟨rfl, rfl, rfl⟩
          · rename_i hsize
            refine hi.loads (List.map_congr_left fun i hlt => ?_)
            have hlt := List.mem_range.mp hlt
            exact byteOf_block hget (by rw [rtVbusBlkHeadSz, blkSize]; omega)
        · split
          · exact ⟨rfl, rfl, rfl⟩
          · have hroom := hi.room
            rw [blocks_cons] at hroom
            exact hi.loads (dataBytes_eq hget (by omega))
  | loading size id pending data =>
    obtain hidle | ⟨p, q', rfl, hknows⟩ := hi.reader
    · rw [hr] at hidle
      cases hidle
    · rw [Knows, hr] at hknows
      obtain ⟨hsize, hid, hdata, hin⟩ := hknows
      cases pending with
      | nil =>
        rw [List.map_nil, List.append_nil] at hdata
        exact ⟨blk, _, hi.reader_only (.inr ⟨p, q', rfl, hsize, hid, hdata⟩)⟩
      | cons a pending =>
        refine ⟨blk, _, hi.reader_only (.inr ⟨p, q', rfl, hsize, hid, ?_, fun a' ha' =>
          hin a' (List.mem_cons_of_mem a ha')⟩)⟩
        rw [List.append_assoc]
        exact hdata
  | advancing size event =>
    obtain hidle | ⟨p, q', rfl, hknows⟩ := hi.reader
    · rw [hr] at hidle
      cases hidle
    · rw [Knows, hr] at hknows
      obtain ⟨rfl, hevent⟩ := hknows
      have hroom := hi.room
      rw [blocks_cons] at hroom
      obtain ⟨found, hwritten, hmatch⟩ := hi.split
      refine ⟨blk + len2bnr p.data.length, q', ⟨found ++ [p], ?_, ?_⟩, ?_, ?_, by omega, hi.layout.2,
        ?_, .inl rfl⟩
      · rw [List.append_nil, hwritten, List.append_assoc]
        rfl
      · exact List.rel_append hmatch (.cons hevent .nil)
      · show addBnr nr x.state.ring.getIdx _ = _
        rw [hi.get, addBnr_eq hpos (by omega)]
      · rw [Nat.add_assoc, ← blocks_cons]
        exact hi.put
      · have hok := hi.writer
        rw [WriterOk] at hok ⊢
        cases hw : x.state.writer with
        | storing p' pending =>
          simp only [hw, blocks_cons] at hok ⊢
          exact ⟨by omega, hok.2⟩
        | idle | checking | waiting => trivial

theorem tracedStep_inv {x' : Traced} {op : Op} (hi : ∃ blk q, Inv nr x blk q)
    (hstep : tracedStep nr x op = some x') : ∃ blk q, Inv nr x' blk q := by
  obtain ⟨blk, q, hi⟩ := hi
  obtain ⟨⟨s, events⟩, hcall, rfl⟩ := Option.map_eq_some_iff.mp hstep
  cases op with
  | pop p =>
    rw [call] at hcall
    cases hw : x.state.writer with
    | idle =>
      rw [hw] at hcall
      cases hcall
      have hinv : Inv nr { x with state := ⟨{ x.state.ring with blocked := x.state.ring.blocked },
          .checking p, x.state.reader⟩ } blk q := hi.writer_only trivial
      simp only [published, List.append_nil]
      exact ⟨blk, q, hinv⟩
    | checking | waiting | storing => simp [hw] at hcall
  | write =>
    obtain ⟨s', hwrite, heq⟩ := Option.map_eq_some_iff.mp hcall
    cases heq
    obtain ⟨q', hinv⟩ := hi.write hwrite
    rw [List.append_nil]
    exact ⟨blk, q', hinv⟩
  | read connected memory =>
    have hread := hi.read connected memory
    rw [show VbusRing.read nr x.state connected memory = _ from Option.some.inj hcall] at hread
    exact hread

theorem inv_start (hpos : 0 < nr) : Inv nr start 0 [] where
  split := ⟨[], rfl, .nil⟩
  get := (Nat.zero_mod nr).symm
  put := (Nat.zero_mod nr).symm
  room := hpos
  layout := trivial
  writer := trivial
  reader := .inl rfl

end runs

/-- In every interleaving of the steps of the two sides, the reader finds what the writer has
written, in order, and no unread block is stored to. -/
theorem vbus_ring_agrees (nr : Nat) (hnr : len2bnr rtVbusMaxPktSz + 1 < nr) (ops : List Op) :
    Runs.Always (tracedStep nr) (Sound nr) start ops := by
  have hok : Runs.Along (tracedStep nr) (fun _ _ => True) start ops :=
    Runs.along_of_forall (fun _ _ => trivial) _
  exact hok.always (fun _ _ _ hi _ hs => tracedStep_inv hi hs) (fun _ ⟨_, _, hi⟩ => hi.sound hnr)
    ⟨0, [], inv_start (by omega)⟩

/-- A packet of two bytes on channel 1. -/
def twoBytes : RtVbusPkg := ⟨1, 0, [10, 20], by decide, by decide⟩

/-- The reader looks between the stores and after them. -/
def oneSent : List Op :=
  [.pop twoBytes, .write, .write, .write, .read true true, .write, .write, .write, .write,
    .read true true, .read true true, .read true true, .read true true, .read true true,
    .read true true, .read true true, .read true true]

theorem vbus_ring_agrees_six :
    Runs.Always (tracedStep 6) (Sound 6) start oneSent ∧
      (Runs.run (tracedStep 6) start oneSent).map (·.events) = some [.packet 1 [10, 20]] :=
  ⟨vbus_ring_agrees 6 (by decide) oneSent, by decide +kernel⟩

end RtThread.VbusRing
