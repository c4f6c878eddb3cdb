import Mathlib.Data.List.Induction
import Mathlib.Data.List.Nodup
import RtThread.VarExport

/-!
# Lookup of exported variables

When the range of a module is that of its entries, and when the search finds each of them. Modules
are told apart by the comparison of the splices only as far as these go: the entries of a module
whose name begins that of another need not be neighbours.
-/
namespace RtThread.VarExport

/-! ## The range of a module -/

/-- `bs` is the part of the table from the first entry of the module to the last. -/
structure Range (module : CString) (tab as bs cs : List (VeExporter × Nat)) : Prop where
  split : tab = as ++ bs ++ cs
  before : ∀ a ∈ as, a.1.module ≠ module
  after : ∀ c ∈ cs, c.1.module ≠ module
  first : ∃ x l, bs = x :: l ∧ x.1.module = module
  last : ∃ l x, bs = l ++ [x] ∧ x.1.module = module

theorem Range.pos {module : CString} {tab as bs cs : List (VeExporter × Nat)}
    (h : Range module tab as bs cs) : 0 < bs.length := by
  obtain ⟨x, l, rfl, -⟩ := h.first
  exact Nat.succ_pos _

theorem veModuleInit_append (tab : List VeExporter) (e : VeExporter) (module : CString) :
    veModuleInit (tab ++ [e]) module =
      if e.module = module then
        some ⟨(veModuleInit tab module).elim tab.length VeModule.begin, tab.length⟩
      else veModuleInit tab module := by
  simp [veModuleInit, List.zipIdx_append, moduleTurn, rtStrcmp_eq_zero]

theorem veModuleInit_range (tab : List (VeExporter × Nat)) (module : CString) :
    veModuleInit (tab.map Prod.fst) module = none ∧ (∀ a ∈ tab, a.1.module ≠ module) ∨
      ∃ as bs cs, Range module tab as bs cs ∧
        veModuleInit (tab.map Prod.fst) module =
          some ⟨as.length, as.length + bs.length - 1⟩ := by
  induction tab using List.reverseRecOn with
  | nil => exact .inl ⟨rfl, List.forall_mem_nil _⟩
  | append_singleton tab a ih =>
    rw [List.map_append, List.map_singleton, veModuleInit_append, List.length_map]
    by_cases ha : a.1.module = module
    · rw [if_pos ha]
      apply Or.inr
      obtain ⟨hnone, hall⟩ | ⟨as, bs, cs, h, hsome⟩ := ih
      · refine ⟨tab, [a], [], ⟨by simp, hall, List.forall_mem_nil _, ⟨a, [], rfl, ha⟩,
          ⟨[], a, rfl, ha⟩⟩, ?_⟩
        simp [hnone]
      · obtain ⟨x, l, hbs, hx⟩ := h.first
        refine ⟨as, bs ++ cs ++ [a], [], ⟨by simp [h.split], h.before, List.forall_mem_nil _,
          ⟨x, l ++ cs ++ [a], by simp [hbs], hx⟩, ⟨bs ++ cs, a, rfl, ha⟩⟩, ?_⟩
        have hlen : tab.length = as.length + bs.length + cs.length := by
          rw [h.split, List.length_append, List.length_append]
        rw [hsome]
        simp only [Option.elim, hlen, List.length_append, List.length_singleton, Option.some.injEq,
          VeModule.mk.injEq, true_and]
        omega
    · rw [if_neg ha]
      obtain ⟨hnone, hall⟩ | ⟨as, bs, cs, h, hsome⟩ := ih
      · exact .inl ⟨hnone, List.forall_mem_append.mpr ⟨hall, List.forall_mem_singleton.mpr ha⟩⟩
      · exact .inr ⟨as, bs, cs ++ [a], ⟨by simp [h.split], h.before,
          List.forall_mem_append.mpr ⟨h.after, List.forall_mem_singleton.mpr ha⟩, h.first,
          h.last⟩, hsome⟩

/-- The iterator returns the entries of its range. -/
theorem iterate_eq (as bs cs : List VeExporter) (hbs : 0 < bs.length) :
    iterate (as ++ bs ++ cs) ⟨as.length, as.length + bs.length - 1⟩ = bs := by
  induction bs generalizing as with
  | nil => exact absurd hbs (Nat.lt_irrefl 0)
  | cons b bs ih =>
    have hb : (as ++ b :: bs ++ cs)[as.length]? = some b := by simp
    have hle : as.length ≤ as.length + (b :: bs).length - 1 := by simp
    rw [iterate, if_pos hle]
    simp only [veIterNext, if_pos hle, hb]
    congr 1
    cases bs with
    | nil =>
      rw [iterate, if_neg]
      simp
    | cons b' bs =>
      have h := ih (as ++ [b]) (Nat.succ_pos _)
      simpa [Nat.add_assoc, Nat.add_comm, Nat.add_left_comm] using h

/-! ## Conditions on the entries -/

/-- The entries of the module with their indices. -/
def exports (entries : List VeExporter) (module : CString) : List (VeExporter × Nat) :=
  entries.zipIdx.filter fun a => a.1.module = module

variable {a : VeExporter × Nat} {k p : Nat}

theorem mem_exports {entries : List VeExporter} {module : CString} :
    a ∈ exports entries module ↔ a ∈ entries.zipIdx ∧ a.1.module = module := by
  simp [exports]

/-- No entry of another module comes between two of the module. -/
def Contiguous (entries : List VeExporter) (module : CString) : Prop :=
  ∀ a ∈ exports entries module, ∀ c ∈ exports entries module, ∀ b ∈ entries.zipIdx,
    Before a b → Before b c → b.1.module = module

/-- The number of entries of the module that come before. -/
def rank (entries : List VeExporter) (module : CString) (a : VeExporter × Nat) : Nat :=
  (exports entries module).countP fun b => Before b a

/-- The search for `a` looks at `b`. -/
def Probed (entries : List VeExporter) (module : CString) (a b : VeExporter × Nat) : Prop :=
  rank entries module b ∈
    BinarySearch.probes (rank entries module a) 0 (exports entries module).length

/-- The search for an entry finds it: the entries that it looks at are on the sides of it that their
identifiers tell. An entry whose value is `VE_NOT_FOUND` may be missed. -/
def Searchable (entries : List VeExporter) (module : CString) : Prop :=
  ∀ a ∈ exports entries module, a.1.value ≠ veNotFound →
    ∀ b ∈ exports entries module, Probed entries module a b →
      (Before b a → rtStrcmp b.1.identifier a.1.identifier < 0) ∧
        (Before a b → 0 < rtStrcmp b.1.identifier a.1.identifier)

/-- The module is found in the table when it has entries, the values of its entries are got and no
others, and the iterator returns the entries of the module. -/
def Answers (entries : List VeExporter) (module : CString) (tab : List VeExporter) : Prop :=
  match veModuleInit tab module with
  | none => ∀ e ∈ entries, e.module ≠ module
  | some mod =>
    (∀ e ∈ entries, e.module = module → veValueGet tab mod e.identifier = e.value) ∧
      (∀ identifier, (∀ e ∈ entries, e.module = module → e.identifier ≠ identifier) →
        veValueGet tab mod identifier = veNotFound) ∧
      (iterate tab (veIterInit mod)).Perm (entries.filter fun e => e.module = module)

/-- The lookup of the module after `var_export_init`. -/
def LooksUp (entries : List VeExporter) (module : CString) : Prop :=
  ∃ tab, varExportInit entries = some tab ∧ Answers entries module tab

/-! ## Contiguous modules -/

variable {entries : List VeExporter} {module : CString} {as bs cs : List (VeExporter × Nat)}

theorem Range.perm (h : Range module (sorted entries) as bs cs)
    (hbs : ∀ b ∈ bs, b.1.module = module) : bs.Perm (exports entries module) := by
  have hfilter : (sorted entries).filter (fun a => a.1.module = module) = bs := by
    rw [h.split, List.filter_append, List.filter_append, List.filter_eq_nil_iff.mpr,
      List.filter_eq_self.mpr, List.filter_eq_nil_iff.mpr, List.nil_append, List.append_nil]
    · simpa using h.after
    · simpa using hbs
    · simpa using h.before
  exact hfilter ▸ (sorted_perm entries).filter _

theorem Range.iterate_perm_iff (h : Range module (sorted entries) as bs cs) :
    (bs.map Prod.fst).Perm (entries.filter fun e => e.module = module) ↔
      ∀ b ∈ bs, b.1.module = module := by
  constructor
  · intro hperm b hb
    have hmem := hperm.mem_iff.mp (List.mem_map_of_mem hb)
    simpa using (List.mem_filter.mp hmem).2
  · intro hbs
    have hfst : (exports entries module).map Prod.fst =
        entries.filter fun e => e.module = module := by
      conv_rhs => rw [← List.zipIdx_map_fst 0 entries]
      rw [List.filter_map]
      rfl
    exact hfst ▸ (h.perm hbs).map Prod.fst

theorem Range.contiguous_iff (h : Range module (sorted entries) as bs cs) :
    Contiguous entries module ↔ ∀ b ∈ bs, b.1.module = module := by
  have hmem : ∀ a, a ∈ entries.zipIdx ↔ a ∈ as ++ bs ++ cs := fun a => by
    rw [← h.split, (sorted_perm entries).mem_iff]
  have hbefore : (as ++ bs ++ cs).Pairwise Before := h.split ▸ sorted_before entries
  constructor
  · intro hcont b hb
    obtain ⟨x, l, hfirst, hx⟩ := h.first
    obtain ⟨l', y, hlast, hy⟩ := h.last
    have hpair : bs.Pairwise Before :=
      (List.pairwise_append.mp (List.pairwise_append.mp hbefore).1).2.1
    have hxb : b = x ∨ Before x b := by
      rw [hfirst] at hb hpair
      exact (List.mem_cons.mp hb).imp_right (List.rel_of_pairwise_cons hpair)
    have hby : b = y ∨ Before b y := by
      rw [hlast] at hb hpair
      exact (List.mem_append.mp hb).symm.imp List.mem_singleton.mp
        fun hb => (List.pairwise_append.mp hpair).2.2 b hb y (List.mem_singleton_self y)
    have hin : ∀ z ∈ bs, z ∈ entries.zipIdx := fun z hz => (hmem z).mpr (by simp [hz])
    obtain rfl | hxb := hxb
    · exact hx
    obtain rfl | hby := hby
    · exact hy
    exact hcont x (mem_exports.mpr ⟨hin x (by simp [hfirst]), hx⟩) y
      (mem_exports.mpr ⟨hin y (by simp [hlast]), hy⟩) b (hin b hb) hxb hby
  · intro hbs a ha c hc b hb hab hbc
    have hmid : ∀ z ∈ exports entries module, z ∈ bs := fun z hz => by
      obtain ⟨hz, hzm⟩ := mem_exports.mp hz
      obtain hz | hz := List.mem_append.mp ((hmem z).mp hz)
      · exact (List.mem_append.mp hz).resolve_left fun hz => h.before z hz hzm
      · exact absurd hzm (h.after z hz)
    obtain hb | hb := List.mem_append.mp ((hmem b).mp hb)
    · obtain hb | hb := List.mem_append.mp hb
      · have := (List.pairwise_append.mp (List.pairwise_append.mp hbefore).1).2.2 b hb a (hmid a ha)
        exact absurd this hab.asymm
      · exact hbs b hb
    · have := (List.pairwise_append.mp hbefore).2.2 c
        (List.mem_append_right as (hmid c hc)) b hb
      exact absurd this hbc.asymm

/-! ## The search in a contiguous module -/

/-- The comparisons of the search in the range. -/
def compared (bs : List (VeExporter × Nat)) (identifier : CString) (k : Nat) : Int :=
  (bs[k]?.map fun b => rtStrcmp b.1.identifier identifier).getD 0

theorem compared_of_lt (hk : k < bs.length) (identifier : CString) :
    compared bs identifier k = rtStrcmp bs[k].1.identifier identifier := by
  simp [compared, hk]

/-- A turn of the loop, as one of the search in the indices of the range. -/
theorem binarySearchFrom_turn (as bs cs : List (VeExporter × Nat)) (identifier : CString)
    (last : Nat) {lo hi : Nat} (hlt : lo < hi) (hhi : hi ≤ bs.length) :
    let tab := (as ++ bs ++ cs).map Prod.fst
    let k := BinarySearch.mid lo hi
    binarySearchFrom tab ⟨as.length, last⟩ identifier lo (hi - 1) =
      if compared bs identifier k = 0 then bs[k]?.map Prod.fst
      else if 0 < compared bs identifier k then
        binarySearchFrom tab ⟨as.length, last⟩ identifier lo (k - 1)
      else binarySearchFrom tab ⟨as.length, last⟩ identifier (k + 1 : Nat) (hi - 1) := by
  intro tab k
  have hk : k < bs.length := (BinarySearch.mid_lt hlt).trans_le hhi
  have hmid : ((hi : Int) - 1 + lo) / 2 = k := by
    simp only [k, BinarySearch.mid]
    omega
  have hget : tab[as.length + k]? = some bs[k].1 := by
    simp [tab, List.getElem?_append, hk]
  rw [binarySearchFrom, if_pos (by omega), hmid]
  simp only [Int.toNat_natCast, hget, compared_of_lt hk, List.getElem?_eq_getElem hk,
    Option.map_some, Int.natCast_add, Int.cast_ofNat_Int]

theorem binarySearchFrom_eq (as bs cs : List (VeExporter × Nat)) (identifier : CString)
    (last lo hi : Nat) (hhi : hi ≤ bs.length) :
    binarySearchFrom ((as ++ bs ++ cs).map Prod.fst) ⟨as.length, last⟩ identifier lo (hi - 1) =
      (BinarySearch.search (compared bs identifier) lo hi).bind fun k => bs[k]?.map Prod.fst := by
  fun_induction BinarySearch.search (compared bs identifier) lo hi with
  | case1 lo hi hlt hle hmid hzero =>
    rw [binarySearchFrom_turn as bs cs identifier last hlt hhi, if_pos hzero]
    rfl
  | case2 lo hi hlt hle hmid hne hpos ih =>
    rw [binarySearchFrom_turn as bs cs identifier last hlt hhi, if_neg hne, if_pos hpos]
    exact ih (hmid.le.trans hhi)
  | case3 lo hi hlt hle hmid hne hneg ih =>
    rw [binarySearchFrom_turn as bs cs identifier last hlt hhi, if_neg hne, if_neg hneg]
    exact ih hhi
  | case4 lo hi hge =>
    rw [binarySearchFrom, if_neg (by omega)]
    rfl

theorem veBinarySearch_eq (as bs cs : List (VeExporter × Nat)) (identifier : CString)
    (hbs : 0 < bs.length) :
    veBinarySearch ((as ++ bs ++ cs).map Prod.fst) ⟨as.length, as.length + bs.length - 1⟩
        identifier =
      (BinarySearch.search (compared bs identifier) 0 bs.length).bind
        fun k => bs[k]?.map Prod.fst := by
  rw [← binarySearchFrom_eq as bs cs identifier (as.length + bs.length - 1) 0 _ le_rfl]
  unfold veBinarySearch
  congr 1
  simp only
  omega

/-- In a sorted list the entries before one are those in front of it. -/
theorem countP_before (hbs : bs.Pairwise Before) (hp : p < bs.length) :
    bs.countP (fun b => Before b bs[p]) = p := by
  have hsplit : bs = bs.take p ++ bs[p] :: bs.drop (p + 1) := by simp
  have hpair := hsplit ▸ hbs
  obtain ⟨-, htail, hfront⟩ := List.pairwise_append.mp hpair
  have hfirst : (bs.take p).countP (fun b => Before b bs[p]) = p := by
    rw [List.countP_eq_length.mpr, List.length_take_of_le hp.le]
    intro b hb
    simpa using hfront b hb _ List.mem_cons_self
  have hlast : (bs[p] :: bs.drop (p + 1)).countP (fun b => Before b bs[p]) = 0 := by
    rw [List.countP_eq_zero]
    intro b hb
    simp only [decide_eq_true_eq]
    obtain rfl | hb := List.mem_cons.mp hb
    · exact Before.irrefl _
    · exact (List.rel_of_pairwise_cons htail hb).asymm
  calc bs.countP (fun b => Before b bs[p])
      = (bs.take p ++ bs[p] :: bs.drop (p + 1)).countP (fun b => Before b bs[p]) := by
        rw [← hsplit]
    _ = p := by rw [List.countP_append, hfirst, hlast, Nat.add_zero]

theorem before_iff (hbs : bs.Pairwise Before) (hk : k < bs.length) (hp : p < bs.length) :
    Before bs[k] bs[p] ↔ k < p := by
  have hlt := List.pairwise_iff_getElem.mp hbs
  constructor
  · intro h
    apply Nat.lt_of_not_le
    intro hle
    obtain rfl | hpk := hle.eq_or_lt
    · exact Before.irrefl _ h
    · exact h.asymm (hlt p k hp hk hpk)
  · exact hlt k p hk hp

theorem Range.pairwise (h : Range module (sorted entries) as bs cs) : bs.Pairwise Before := by
  have hbefore := h.split ▸ sorted_before entries
  exact (List.pairwise_append.mp (List.pairwise_append.mp hbefore).1).2.1

section Contiguous

variable (h : Range module (sorted entries) as bs cs) (hbs : ∀ b ∈ bs, b.1.module = module)
include h hbs

theorem Range.rank_eq (hp : p < bs.length) : rank entries module bs[p] = p := by
  unfold rank
  rw [← (h.perm hbs).countP_eq]
  exact countP_before h.pairwise hp

theorem Range.mem_exports_iff :
    a ∈ exports entries module ↔ ∃ (p : Nat) (hp : p < bs.length), bs[p] = a := by
  rw [← (h.perm hbs).mem_iff, List.mem_iff_getElem]

theorem Range.probed_iff (hp : p < bs.length) (hk : k < bs.length) :
    Probed entries module bs[p] bs[k] ↔ k ∈ BinarySearch.probes p 0 bs.length := by
  unfold Probed
  rw [h.rank_eq hbs hp, h.rank_eq hbs hk, (h.perm hbs).length_eq]

variable (hdistinct : (entries.map fun e => (e.module, e.identifier)).Nodup)
include hdistinct

theorem Range.identifier_inj (hp : p < bs.length) (hk : k < bs.length)
    (heq : bs[k].1.identifier = bs[p].1.identifier) : k = p := by
  have hnodup : (bs.map fun b => (b.1.module, b.1.identifier)).Nodup := by
    rw [((h.perm hbs).map _).nodup_iff]
    have hidx : (entries.zipIdx.map fun b => (b.1.module, b.1.identifier)).Nodup := by
      rw [← List.zipIdx_map_fst 0 entries, List.map_map] at hdistinct
      exact hdistinct
    exact hidx.sublist (List.filter_sublist.map _)
  have hk' : k < (bs.map fun b => (b.1.module, b.1.identifier)).length := by simpa using hk
  have hp' : p < (bs.map fun b => (b.1.module, b.1.identifier)).length := by simpa using hp
  have hname : (bs.map fun b => (b.1.module, b.1.identifier))[k] =
      (bs.map fun b => (b.1.module, b.1.identifier))[p] := by
    simp [heq, hbs _ (List.getElem_mem hk), hbs _ (List.getElem_mem hp)]
  exact hnodup.getElem_inj_iff.mp hname

theorem Range.compared_eq_zero (hp : p < bs.length) (hk : k < bs.length) :
    compared bs bs[p].1.identifier k = 0 ↔ k = p := by
  rw [compared_of_lt hk, rtStrcmp_eq_zero]
  constructor
  · exact h.identifier_inj hbs hdistinct hp hk
  · rintro rfl
    rfl

theorem Range.search_iff (hp : p < bs.length) :
    BinarySearch.search (compared bs bs[p].1.identifier) 0 bs.length = some p ↔
      ∀ b ∈ exports entries module, Probed entries module bs[p] b →
        (Before b bs[p] → rtStrcmp b.1.identifier bs[p].1.identifier < 0) ∧
          (Before bs[p] b → 0 < rtStrcmp b.1.identifier bs[p].1.identifier) := by
  rw [BinarySearch.search_eq_some_iff (Nat.zero_le p) hp
    fun k _ hk => h.compared_eq_zero hbs hdistinct hp hk]
  constructor
  · intro hprobes b hb hprobed
    obtain ⟨k, hk, rfl⟩ := (h.mem_exports_iff hbs).mp hb
    rw [before_iff h.pairwise hk hp, before_iff h.pairwise hp hk, ← compared_of_lt hk]
    exact hprobes k ((h.probed_iff hbs hp hk).mp hprobed)
  · intro hexports k hprobe
    have hk : k < bs.length := (BinarySearch.probes_bounds hprobe).2
    rw [← before_iff h.pairwise hk hp, ← before_iff h.pairwise hp hk, compared_of_lt hk]
    exact hexports bs[k] ((h.mem_exports_iff hbs).mpr ⟨k, hk, rfl⟩)
      ((h.probed_iff hbs hp hk).mpr hprobe)

/-- An entry that the search misses has its value only by chance. -/
theorem Range.value_iff (hp : p < bs.length) :
    veValueGet ((as ++ bs ++ cs).map Prod.fst) ⟨as.length, as.length + bs.length - 1⟩
        bs[p].1.identifier = bs[p].1.value ↔
      (bs[p].1.value ≠ veNotFound →
        BinarySearch.search (compared bs bs[p].1.identifier) 0 bs.length = some p) := by
  unfold veValueGet
  rw [veBinarySearch_eq as bs cs _ h.pos]
  cases hs : BinarySearch.search (compared bs bs[p].1.identifier) 0 bs.length with
  | none =>
    simp only [Option.bind_none, reduceCtorEq, imp_false, not_not]
    exact eq_comm
  | some k =>
    obtain ⟨-, hk, hzero⟩ := BinarySearch.search_bounds hs
    obtain rfl := (h.compared_eq_zero hbs hdistinct hp hk).mp hzero
    simp [hk]

theorem Range.values_iff :
    (∀ e ∈ entries, e.module = module →
      veValueGet ((as ++ bs ++ cs).map Prod.fst) ⟨as.length, as.length + bs.length - 1⟩
        e.identifier = e.value) ↔ Searchable entries module := by
  constructor
  · intro hvalues a ha hvalue
    obtain ⟨p, hp, rfl⟩ := (h.mem_exports_iff hbs).mp ha
    apply (h.search_iff hbs hdistinct hp).mp
    apply (h.value_iff hbs hdistinct hp).mp _ hvalue
    have hmem := (mem_exports.mp ha).1
    exact hvalues _ (List.fst_mem_of_mem_zipIdx hmem) (hbs _ (List.getElem_mem hp))
  · intro hsearch e he hmodule
    obtain ⟨i, hi⟩ : ∃ i, (e, i) ∈ entries.zipIdx := by
      obtain ⟨i, hi, rfl⟩ := List.getElem_of_mem he
      exact ⟨i, List.mk_mem_zipIdx_iff_getElem?.mpr (by simp [hi])⟩
    have ha := mem_exports.mpr ⟨hi, hmodule⟩
    obtain ⟨p, hp, hpe⟩ := (h.mem_exports_iff hbs).mp ha
    obtain rfl : bs[p].1 = e := congrArg Prod.fst hpe
    apply (h.value_iff hbs hdistinct hp).mpr
    intro hvalue
    exact (h.search_iff hbs hdistinct hp).mpr
      (hsearch _ ((h.mem_exports_iff hbs).mpr ⟨p, hp, rfl⟩) hvalue)

omit hdistinct

/-- An identifier that is not exported is not found. -/
theorem Range.not_found {identifier : CString}
    (hnone : ∀ e ∈ entries, e.module = module → e.identifier ≠ identifier) :
    veValueGet ((as ++ bs ++ cs).map Prod.fst) ⟨as.length, as.length + bs.length - 1⟩
      identifier = veNotFound := by
  unfold veValueGet
  rw [veBinarySearch_eq as bs cs identifier h.pos, BinarySearch.search_eq_none]
  · rfl
  intro k _ hk hzero
  rw [compared_of_lt hk, rtStrcmp_eq_zero] at hzero
  have hmem := (mem_exports.mp ((h.mem_exports_iff hbs).mpr ⟨k, hk, rfl⟩)).1
  exact hnone _ (List.fst_mem_of_mem_zipIdx hmem) (hbs _ (List.getElem_mem hk)) hzero

end Contiguous

/-! ## The lookup -/

theorem exports_eq_nil (hnone : ∀ e ∈ entries, e.module ≠ module) :
    exports entries module = [] := by
  apply List.filter_eq_nil_iff.mpr
  intro a ha
  simpa using hnone a.1 (List.fst_mem_of_mem_zipIdx ha)

theorem answers_iff (hdistinct : (entries.map fun e => (e.module, e.identifier)).Nodup) :
    Answers entries module ((sorted entries).map Prod.fst) ↔
      Contiguous entries module ∧ Searchable entries module := by
  unfold Answers
  obtain ⟨hnone, hall⟩ | ⟨as, bs, cs, h, hsome⟩ := veModuleInit_range (sorted entries) module
  · have habsent : ∀ e ∈ entries, e.module ≠ module := fun e he => by
      rw [← List.zipIdx_map_fst 0 entries] at he
      obtain ⟨a, ha, rfl⟩ := List.mem_map.mp he
      exact hall a ((sorted_perm entries).mem_iff.mpr ha)
    rw [hnone]
    apply iff_of_true habsent
    simp [Contiguous, Searchable, exports_eq_nil habsent]
  · have hiterate : iterate ((as ++ bs ++ cs).map Prod.fst)
        (veIterInit ⟨as.length, as.length + bs.length - 1⟩) = bs.map Prod.fst := by
      have hiter := iterate_eq (as.map Prod.fst) (bs.map Prod.fst) (cs.map Prod.fst)
        (by simpa using h.pos)
      simpa [veIterInit] using hiter
    rw [hsome, h.split]
    simp only [hiterate, h.iterate_perm_iff, h.contiguous_iff]
    constructor
    · intro ⟨hvalues, _, hbs⟩
      exact ⟨hbs, (h.values_iff hbs hdistinct).mp hvalues⟩
    · intro ⟨hbs, hsearch⟩
      exact ⟨(h.values_iff hbs hdistinct).mpr hsearch, fun _ => h.not_found hbs, hbs⟩

theorem eq_of_same_name {b : VeExporter × Nat}
    (hdistinct : (entries.map fun e => (e.module, e.identifier)).Nodup)
    (ha : a ∈ exports entries module) (hb : b ∈ exports entries module)
    (heq : a.1.identifier = b.1.identifier) : a.2 = b.2 := by
  obtain ⟨ha, hma⟩ := mem_exports.mp ha
  obtain ⟨hb, hmb⟩ := mem_exports.mp hb
  obtain ⟨hia, hga⟩ := List.getElem?_eq_some_iff.mp (List.mem_zipIdx_iff_getElem?.mp ha)
  obtain ⟨hib, hgb⟩ := List.getElem?_eq_some_iff.mp (List.mem_zipIdx_iff_getElem?.mp hb)
  have hia' : a.2 < (entries.map fun e => (e.module, e.identifier)).length := by simpa using hia
  have hib' : b.2 < (entries.map fun e => (e.module, e.identifier)).length := by simpa using hib
  have hname : (entries.map fun e => (e.module, e.identifier))[a.2] =
      (entries.map fun e => (e.module, e.identifier))[b.2] := by
    simp [hga, hgb, hma, hmb, heq]
  exact hdistinct.getElem_inj_iff.mp hname

/-- Names that are not cut are in the order of the identifiers in a module. -/
theorem searchable_of_short (hdistinct : (entries.map fun e => (e.module, e.identifier)).Nodup)
    (hshort : ∀ e ∈ entries, e.module = module → e.module.length + e.identifier.length ≤ 1023) :
    Searchable entries module := by
  have hname : ∀ a ∈ exports entries module, spliced a.1 = module ++ a.1.identifier :=
    fun a ha => by
      obtain ⟨ha, hmodule⟩ := mem_exports.mp ha
      have hlen := hshort a.1 (List.fst_mem_of_mem_zipIdx ha) hmodule
      rw [spliced, List.take_of_length_le (by simpa using hlen), hmodule]
  have hbefore : ∀ a ∈ exports entries module, ∀ b ∈ exports entries module, Before a b →
      rtStrcmp a.1.identifier b.1.identifier < 0 := fun a ha b hb h => by
    rw [Before, hname a ha, hname b hb, rtStrcmp_append] at h
    obtain h | ⟨h, hidx⟩ := h
    · exact h
    · rw [rtStrcmp_eq_zero] at h
      exact absurd (eq_of_same_name hdistinct ha hb h) hidx.ne
  intro a ha _ b hb _
  constructor
  · exact hbefore b hb a ha
  · intro h
    have := hbefore a ha b hb h
    rw [rtStrcmp_neg a.1.identifier]
    omega

/-- The lookup is right for a module when no entry of another module comes between its own in the
order of the spliced names, and its search is not misled by names that are cut. The table may be
neither empty nor full. -/
theorem lookup_exact (entries : List VeExporter) (module : CString)
    (hdistinct : (entries.map fun e => (e.module, e.identifier)).Nodup) :
    LooksUp entries module ↔
      0 < entries.length ∧ entries.length < 2048 ∧
        Contiguous entries module ∧ Searchable entries module := by
  unfold LooksUp
  rw [varExportInit_eq]
  by_cases hlen : 0 < entries.length ∧ entries.length < 2048
  · rw [if_pos hlen, ← and_assoc, and_iff_right hlen, ← answers_iff hdistinct]
    simp
  · rw [if_neg hlen]
    simp only [reduceCtorEq, false_and, exists_false, false_iff]
    exact fun hcond => hlen ⟨hcond.1, hcond.2.1⟩

/-- A character that is not the terminator. -/
def letter (n : Nat) : { c : Int // c ≠ 0 } := ⟨(n + 1 : Nat), Int.natCast_ne_zero.mpr (Nat.succ_ne_zero n)⟩

instance (entries : List VeExporter) (module : CString) : Decidable (Contiguous entries module) :=
  inferInstanceAs (Decidable (∀ _ ∈ _, _))

/-- Entries `b` and `c` of a module `a`, and the entry `a` of a module `ab`. -/
def abEntries : List VeExporter :=
  [⟨[letter 96], [letter 97], 1⟩, ⟨[letter 96, letter 97], [letter 96], 2⟩,
    ⟨[letter 96], [letter 98], 3⟩]

/-- The name `aba` stands between `ab` and `ac`. -/
theorem lookup_confused :
    (abEntries.map fun e => (e.module, e.identifier)).Nodup ∧ ¬ LooksUp abEntries [letter 96] := by
  have hdistinct : (abEntries.map fun e => (e.module, e.identifier)).Nodup := by decide
  refine ⟨hdistinct, ?_⟩
  rintro ⟨tab, htab, hanswers⟩
  rw [varExportInit_eq, if_pos (by decide)] at htab
  cases htab
  have hcont := ((answers_iff hdistinct).mp hanswers).1
  revert hcont
  decide

theorem lookup_exact_single :
    LooksUp [⟨[letter 96], [letter 97], 1⟩, ⟨[letter 96], [letter 98], 3⟩] [letter 96] :=
  (lookup_exact _ _ (by decide)).mpr
    ⟨by decide, by decide, by decide, searchable_of_short (by decide) (by decide)⟩

end RtThread.VarExport
