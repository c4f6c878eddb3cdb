import Mathlib.Data.List.Basic

/-!
# Decoders of a growing input

A decoder makes its steps on a state and the unread input: a step reads some items and
yields some output, and no step means that it waits for more input. If a step that can be
made does not depend on input that arrives later, it does not matter in which pieces the
input arrives.
-/
namespace Incremental

variable {σ α ω : Type*}

/-- The new state, the number of items that are read and the output. -/
abbrev Step (σ α ω : Type*) := σ → List α → Option (σ × Nat × List ω)

/-- A step that can be made reads what is there, and is made in the same way with more input. -/
def Stable (step : Step σ α ω) : Prop :=
  ∀ s input s' k out, step s input = some (s', k, out) →
    k ≤ input.length ∧ ∀ more, step s (input ++ more) = some (s', k, out)

/-- From the state `s` the decoder reads `input` up to `rest`, yields `out` and waits in the state
`t`. -/
inductive Drains (step : Step σ α ω) : σ → List α → σ → List α → List ω → Prop where
  | wait {s : σ} {input : List α} (h : step s input = none) : Drains step s input s input []
  | next {s s' t : σ} {input rest : List α} {k : Nat} {out out' : List ω}
    (h : step s input = some (s', k, out)) (hrest : Drains step s' (input.drop k) t rest out') :
    Drains step s input t rest (out ++ out')

/-- Some steps, up to a state in which the decoder need not wait. -/
inductive Steps (step : Step σ α ω) : σ → List α → σ → List α → List ω → Prop where
  | refl {s : σ} {input : List α} : Steps step s input s input []
  | next {s s' t : σ} {input rest : List α} {k : Nat} {out out' : List ω}
    (h : step s input = some (s', k, out)) (hrest : Steps step s' (input.drop k) t rest out') :
    Steps step s input t rest (out ++ out')

variable {step : Step σ α ω} {s t u : σ} {input rest more rest' : List α} {out out' : List ω}

/-- The decoder is deterministic. -/
theorem Drains.unique (h : Drains step s input t rest out)
    (h' : Drains step s input u rest' out') : t = u ∧ rest = rest' ∧ out = out' := by
  induction h generalizing u rest' out' with
  | wait hnone =>
    cases h' with
    | wait _ => exact ⟨rfl, rfl, rfl⟩
    | next hsome _ => exact nomatch hnone.symm.trans hsome
  | next hsome _ ih =>
    cases h' with
    | wait hnone => exact nomatch hnone.symm.trans hsome
    | next hsome' hrest =>
      cases hsome.symm.trans hsome'
      obtain ⟨rfl, rfl, rfl⟩ := ih hrest
      exact ⟨rfl, rfl, rfl⟩

/-- The input may arrive in two pieces. -/
theorem Drains.append (hstable : Stable step) (h : Drains step s input t rest out)
    (h' : Drains step t (rest ++ more) u rest' out') :
    Drains step s (input ++ more) u rest' (out ++ out') := by
  induction h with
  | wait _ => exact h'
  | @next s s' t input rest k out₁ out₂ hsome _ ih =>
    obtain ⟨hk, hmore⟩ := hstable _ _ _ _ _ hsome
    rw [List.append_assoc]
    refine .next (hmore more) ?_
    rw [List.drop_append_of_le_length hk]
    exact ih h'

theorem Steps.single {k : Nat} (h : step s input = some (t, k, out)) :
    Steps step s input t (input.drop k) out := by
  have hsteps := Steps.next h .refl
  rwa [List.append_nil] at hsteps

theorem Steps.drains (h : Steps step s input t rest out) (h' : Drains step t rest u rest' out') :
    Drains step s input u rest' (out ++ out') := by
  induction h with
  | refl => exact h'
  | next hsome _ ih =>
    rw [List.append_assoc]
    exact .next hsome (ih h')

end Incremental
