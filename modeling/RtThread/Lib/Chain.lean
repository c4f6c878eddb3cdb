import Mathlib.Data.List.Nodup
import Mathlib.Logic.Function.Basic

/-!
# Null-terminated linked lists

`Chain next h l` says that following `next` from the pointer `h` visits the nodes
of `l` in order and ends at the null pointer. Nodes are put in front of a chain,
taken from its front, and appended behind its last node.
-/
namespace LinkedChain

variable {α : Type*} {next next' : α → Option α} {h : Option α} {l l' : List α} {x y : α}

def Chain (next : α → Option α) : Option α → List α → Prop
  | h, [] => h = none
  | h, x :: l => h = some x ∧ Chain next (next x) l

theorem chain_nil : Chain next none [] := rfl

theorem Chain.head (hc : Chain next h l) : h = l.head? := by
  cases l with
  | nil => exact hc
  | cons x l => exact hc.1

theorem Chain.congr (hc : Chain next h l) (heq : ∀ x ∈ l, next' x = next x) :
    Chain next' h l := by
  induction l generalizing h with
  | nil => exact hc
  | cons x l ih =>
    refine ⟨hc.1, ?_⟩
    rw [heq x List.mem_cons_self]
    exact ih hc.2 fun y hy => heq y (List.mem_cons_of_mem x hy)

/-- A chain that is not empty begins with the node its pointer points to. -/
theorem Chain.of_some (hc : Chain next (some x) l) :
    ∃ l', l = x :: l' ∧ Chain next (next x) l' := by
  cases l with
  | nil => exact absurd hc (by simp [Chain])
  | cons y l =>
    obtain rfl : x = y := Option.some.inj hc.1
    exact ⟨l, rfl, hc.2⟩

theorem Chain.of_none (hc : Chain next none l) : l = [] := by
  cases l with
  | nil => rfl
  | cons y l => exact absurd hc.1 (by simp)

variable [DecidableEq α]

theorem Chain.update (hc : Chain next h l) (hx : x ∉ l) (v : Option α) :
    Chain (Function.update next x v) h l := by
  refine hc.congr fun y hy => ?_
  have hyx : y ≠ x := by
    rintro rfl
    exact hx hy
  exact Function.update_of_ne hyx _ _

/-- A node in front of the chain. -/
theorem Chain.push (hc : Chain next h l) (hx : x ∉ l) :
    Chain (Function.update next x h) (some x) (x :: l) := by
  refine ⟨rfl, ?_⟩
  rw [Function.update_self]
  exact hc.update hx h

/-- A node behind the last one. -/
theorem Chain.append (hc : Chain next h (l ++ [x])) (hnd : (l ++ [x]).Nodup) (hy : y ∉ l ++ [x])
    (hlast : next y = none) : Chain (Function.update next x (some y)) h (l ++ [x, y]) := by
  induction l generalizing h with
  | nil =>
    have hyx : y ≠ x := by simpa using hy
    refine ⟨hc.1, ?_, ?_⟩
    · exact Function.update_self _ _ _
    · rw [Function.update_of_ne hyx]
      exact hlast
  | cons z l ih =>
    rw [List.cons_append, List.nodup_cons] at hnd
    have hzx : z ≠ x := by
      rintro rfl
      exact hnd.1 (by simp)
    refine ⟨hc.1, ?_⟩
    rw [Function.update_of_ne hzx]
    exact ih hc.2 hnd.2 fun hm => hy (List.mem_cons_of_mem z hm)

end LinkedChain
