import Mathlib.Algebra.Order.Group.Int
import RtThread.Lib.BinarySearch
import RtThread.Lib.BubbleSort

/-!
# Exported variables

The table of `var_export.c` with the sort of `var_export_init`, the range that `ve_module_init`
finds for a module, and the lookup and the iterator on it. Entries and modules point into the table
by index. The order of the sorted table is that of the spliced names, and of entries that agree in
these, that of the sections.
-/
namespace RtThread.VarExport

/-- A string up to its terminator. The characters are the numbers that `rt_strcmp` subtracts. -/
abbrev CString := List { c : Int // c ≠ 0 }

structure VeExporter where
  module : CString
  identifier : CString
  value : BitVec 32
  deriving DecidableEq

def veNotFound : BitVec 32 := 0xFFFFFFFF

/-! ## Strings -/

def rtStrcmp : CString → CString → Int
  | [], [] => 0
  | [], b :: _ => 0 - b
  | a :: _, [] => a - 0
  | a :: cs, b :: ct => if a = b then rtStrcmp cs ct else a - b

@[simp] theorem rtStrcmp_self (s : CString) : rtStrcmp s s = 0 := by
  induction s with
  | nil => rfl
  | cons a s ih => rw [rtStrcmp, if_pos rfl, ih]

theorem rtStrcmp_eq_zero {s t : CString} : rtStrcmp s t = 0 ↔ s = t := by
  constructor
  · intro h
    fun_induction rtStrcmp s t with
    | case1 => rfl
    | case2 b t => exact absurd h (by have := b.2; omega)
    | case3 a s => exact absurd h (by have := a.2; omega)
    | case4 a s t ih => rw [ih h]
    | case5 a s b t hne => exact absurd (Subtype.ext (by omega)) hne
  · rintro rfl
    exact rtStrcmp_self s

theorem rtStrcmp_neg (s t : CString) : rtStrcmp t s = -rtStrcmp s t := by
  fun_induction rtStrcmp s t with
  | case1 => rfl
  | case2 b t =>
    rw [rtStrcmp]
    omega
  | case3 a s =>
    rw [rtStrcmp]
    omega
  | case4 a s t ih => rw [rtStrcmp, if_pos rfl, ih]
  | case5 a s b t hne =>
    rw [rtStrcmp, if_neg (Ne.symm hne)]
    omega

theorem rtStrcmp_trans {s t u : CString} (hst : rtStrcmp s t < 0) (htu : rtStrcmp t u < 0) :
    rtStrcmp s u < 0 := by
  induction s generalizing t u with
  | nil =>
    match t, u with
    | [], _ => exact htu
    | b :: _, [] =>
      simp only [rtStrcmp] at hst htu
      omega
    | b :: t, c :: u =>
      by_cases hbc : b = c
      · exact hbc ▸ hst
      · simp only [rtStrcmp, if_neg hbc] at hst htu ⊢
        omega
  | cons a s ih =>
    match t, u with
    | [], [] => exact hst
    | [], c :: u =>
      by_cases hac : a = c
      · subst hac
        simp only [rtStrcmp] at hst htu
        omega
      · simp only [rtStrcmp, if_neg hac] at hst htu ⊢
        omega
    | b :: t, [] =>
      by_cases hab : a = b
      · exact hab ▸ htu
      · simp only [rtStrcmp, if_neg hab] at hst htu ⊢
        omega
    | b :: t, c :: u =>
      by_cases hab : a = b
      · subst hab
        by_cases hac : a = c
        · subst hac
          simp only [rtStrcmp, if_pos] at hst htu ⊢
          exact ih hst htu
        · simpa only [rtStrcmp, if_neg hac] using htu
      · by_cases hbc : b = c
        · subst hbc
          simpa only [rtStrcmp, if_neg hab] using hst
        · simp only [rtStrcmp, if_neg hab, if_neg hbc] at hst htu
          have hac : a ≠ c := fun h => by
            rw [h] at hst
            omega
          rw [rtStrcmp, if_neg hac]
          omega

/-- A common beginning is passed over. -/
theorem rtStrcmp_append (p s t : CString) : rtStrcmp (p ++ s) (p ++ t) = rtStrcmp s t := by
  induction p with
  | nil => rfl
  | cons a p ih => rw [List.cons_append, List.cons_append, rtStrcmp, if_pos rfl, ih]

/-! ## The table -/

/-- `__vexp_strbuf1` and `__vexp_strbuf2`: `rt_snprintf` cuts the text to the buffer. -/
def spliced (e : VeExporter) : CString := (e.module ++ e.identifier).take 1023

/-- The test of the sort. -/
def exchanged (a b : VeExporter) : Bool := 0 < rtStrcmp (spliced a) (spliced b)

/-- `var_export_init` on the objects of the segment. There is no result when the table is full; and
when it is empty, `ve_exporter_num - 1` is the largest number and the loops leave the table. -/
def varExportInit (entries : List VeExporter) : Option (List VeExporter) :=
  if 0 < entries.length ∧ entries.length < 2048 then some (BubbleSort.sort exchanged entries)
  else none

/-- `struct ve_module`; `last` is its `end`. -/
structure VeModule where
  begin : Nat
  last : Nat
  deriving DecidableEq

/-- A turn of the loop of `ve_module_init`; `first_exist` is true when there is a module. -/
def moduleTurn (module : CString) (mod : Option VeModule) (exporter : VeExporter × Nat) :
    Option VeModule :=
  if rtStrcmp exporter.1.module module = 0 then
    some ⟨mod.elim exporter.2 VeModule.begin, exporter.2⟩
  else mod

/-- `ve_module_init`; there is no module when it returns an error. -/
def veModuleInit (tab : List VeExporter) (module : CString) : Option VeModule :=
  tab.zipIdx.foldl (moduleTurn module) none

structure VeIterator where
  expIndex : Nat
  expEnd : Nat
  deriving DecidableEq

def veIterInit (mod : VeModule) : VeIterator := ⟨mod.begin, mod.last⟩

def veIterNext (tab : List VeExporter) (iter : VeIterator) : Option VeExporter × VeIterator :=
  if iter.expIndex ≤ iter.expEnd then
    (tab[iter.expIndex]?, { iter with expIndex := iter.expIndex + 1 })
  else (none, iter)

/-- What `ve_iter_next` returns until it is `RT_NULL`. -/
def iterate (tab : List VeExporter) (iter : VeIterator) : List VeExporter :=
  if iter.expIndex ≤ iter.expEnd then
    match (veIterNext tab iter).1 with
    | none => []
    | some e => e :: iterate tab (veIterNext tab iter).2
  else []
termination_by iter.expEnd + 1 - iter.expIndex
decreasing_by
  unfold veIterNext
  split <;> dsimp only <;> omega

/-- The loop of `ve_binary_search`. -/
def binarySearchFrom (tab : List VeExporter) (mod : VeModule) (identifier : CString)
    (low high : Int) : Option VeExporter :=
  if low ≤ high ∧ 0 ≤ high ∧ 0 ≤ low then
    match tab[mod.begin + ((high + low) / 2).toNat]? with
    | none => none
    | some e =>
      if rtStrcmp e.identifier identifier = 0 then some e
      else if 0 < rtStrcmp e.identifier identifier then
        binarySearchFrom tab mod identifier low ((high + low) / 2 - 1)
      else binarySearchFrom tab mod identifier ((high + low) / 2 + 1) high
  else none
termination_by (high + 1 - low).toNat

def veBinarySearch (tab : List VeExporter) (mod : VeModule) (identifier : CString) :
    Option VeExporter :=
  binarySearchFrom tab mod identifier 0 (mod.last - mod.begin)

def veValueGet (tab : List VeExporter) (mod : VeModule) (identifier : CString) : BitVec 32 :=
  match veBinarySearch tab mod identifier with
  | some exporter => exporter.value
  | none => veNotFound

/-! ## The order of the table -/

/-- An entry with its index comes before another in the table. -/
def Before (a b : VeExporter × Nat) : Prop :=
  rtStrcmp (spliced a.1) (spliced b.1) < 0 ∨
    rtStrcmp (spliced a.1) (spliced b.1) = 0 ∧ a.2 < b.2

instance : DecidableRel Before := fun _ _ => inferInstanceAs (Decidable (_ ∨ _))

theorem Before.trans {a b c : VeExporter × Nat} (hab : Before a b) (hbc : Before b c) :
    Before a c := by
  unfold Before at *
  obtain hab | ⟨hab, hab'⟩ := hab
  · obtain hbc | ⟨hbc, -⟩ := hbc
    · exact .inl (rtStrcmp_trans hab hbc)
    · exact .inl (rtStrcmp_eq_zero.mp hbc ▸ hab)
  · rw [rtStrcmp_eq_zero.mp hab]
    obtain hbc | ⟨hbc, hbc'⟩ := hbc
    · exact .inl hbc
    · exact .inr ⟨hbc, hab'.trans hbc'⟩

theorem Before.irrefl (a : VeExporter × Nat) : ¬ Before a a := by
  simp [Before]

theorem Before.asymm {a b : VeExporter × Nat} (hab : Before a b) : ¬ Before b a :=
  fun hba => Before.irrefl a (hab.trans hba)

theorem exchanged_asymm (a b : VeExporter) (h : exchanged a b) : ¬ exchanged b a := by
  simp only [exchanged, decide_eq_true_eq] at h ⊢
  rw [rtStrcmp_neg (spliced a)]
  omega

theorem exchanged_trans (a b c : VeExporter) (hab : ¬ exchanged a b) (hbc : ¬ exchanged b c) :
    ¬ exchanged a c := by
  simp only [exchanged, decide_eq_true_eq, not_lt] at *
  obtain hab | hab := hab.lt_or_eq
  · obtain hbc | hbc := hbc.lt_or_eq
    · exact (rtStrcmp_trans hab hbc).le
    · exact rtStrcmp_eq_zero.mp hbc ▸ hab.le
  · exact rtStrcmp_eq_zero.mp hab ▸ hbc

/-- The table with the indices that the entries have had. -/
def sorted (entries : List VeExporter) : List (VeExporter × Nat) :=
  BubbleSort.sort (fun a b => exchanged a.1 b.1) entries.zipIdx

theorem sorted_perm (entries : List VeExporter) : (sorted entries).Perm entries.zipIdx :=
  BubbleSort.sort_perm _ _

theorem varExportInit_eq (entries : List VeExporter) :
    varExportInit entries =
      if 0 < entries.length ∧ entries.length < 2048 then some ((sorted entries).map Prod.fst)
      else none := by
  unfold varExportInit sorted
  rw [← BubbleSort.sort_map, List.zipIdx_map_fst]

/-- The sort does not exchange entries that agree in the spliced name. -/
theorem sorted_before (entries : List VeExporter) : (sorted entries).Pairwise Before := by
  have hidx : entries.zipIdx.Pairwise fun a b => a.2 < b.2 := by
    rw [← List.pairwise_map (f := Prod.snd) (R := (· < ·))]
    simpa using List.pairwise_lt_range'
  have hstart : entries.zipIdx.Pairwise fun a b => exchanged a.1 b.1 ∨ Before a b :=
    hidx.imp fun {a b} hlt => by
      simp only [exchanged, decide_eq_true_eq, Before]
      omega
  have hkept : (sorted entries).Pairwise fun a b => exchanged a.1 b.1 ∨ Before a b :=
    BubbleSort.sort_pairwise _ (fun a b h => .inr (.inl (by
      simp only [exchanged, decide_eq_true_eq] at h
      rw [rtStrcmp_neg (spliced a.1)]
      omega))) hstart
  have hsorted : (sorted entries).Pairwise fun a b => ¬ exchanged a.1 b.1 :=
    BubbleSort.sort_sorted (fun a b => exchanged_asymm a.1 b.1)
      (fun a b c => exchanged_trans a.1 b.1 c.1) _
  exact (hkept.and hsorted).imp fun h => h.1.resolve_left h.2

end RtThread.VarExport
