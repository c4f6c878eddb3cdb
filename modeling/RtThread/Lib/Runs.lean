import Mathlib.Data.List.Basic

/-!
# Finite runs of a partial step function

A component is a step function `σ → ε → Option σ`; `none` is a refused step
(a failed assertion, or a call its caller may not make). A run feeds a finite
list of events to the step function. Invariants of all reachable states are
proved from one step lemma, with or without a condition on the steps taken.
-/
namespace Runs

variable {σ ε : Type*}

/-- The state after a list of events, or `none` once a step is refused. -/
def run (step : σ → ε → Option σ) : σ → List ε → Option σ
  | s, [] => some s
  | s, e :: es => (step s e).bind (fun s' => run step s' es)

@[simp] theorem run_nil (step : σ → ε → Option σ) (s : σ) : run step s [] = some s := rfl

@[simp] theorem run_cons (step : σ → ε → Option σ) (s : σ) (e : ε) (es : List ε) :
    run step s (e :: es) = (step s e).bind (fun s' => run step s' es) := rfl

variable {step : σ → ε → Option σ} {perm ok ok' : σ → ε → Prop} {inv P : σ → Prop}

theorem run_cons_some {s t : σ} {e : ε} {es : List ε} :
    run step s (e :: es) = some t ↔ ∃ s', step s e = some s' ∧ run step s' es = some t := by
  simp [Option.bind_eq_some_iff]

theorem run_append (s : σ) (es es' : List ε) :
    run step s (es ++ es') = (run step s es).bind fun t => run step t es' := by
  induction es generalizing s with
  | nil => rfl
  | cons e es ih =>
    rw [List.cons_append, run_cons, run_cons, Option.bind_assoc]
    exact congrArg _ (funext fun s' => ih s')

/-- Every step of the run satisfies the condition `ok` in the state it starts from. -/
def Along (step : σ → ε → Option σ) (ok : σ → ε → Prop) : σ → List ε → Prop
  | _, [] => True
  | s, e :: es => ok s e ∧ ∀ s', step s e = some s' → Along step ok s' es

/-- The condition can be checked by running the steps. -/
instance decidableAlong [∀ s e, Decidable (ok s e)] : ∀ s es, Decidable (Along step ok s es)
  | _, [] => .isTrue trivial
  | s, e :: es =>
    match hs : step s e with
    | none => decidable_of_iff (ok s e) (by simp [Along, hs])
    | some s' =>
      have : Decidable (Along step ok s' es) := decidableAlong s' es
      decidable_of_iff (ok s e ∧ Along step ok s' es) (by simp [Along, hs])

theorem Along.and {s : σ} {es : List ε} (h : Along step ok s es) (h' : Along step ok' s es) :
    Along step (fun s e => ok s e ∧ ok' s e) s es := by
  induction es generalizing s with
  | nil => trivial
  | cons e es ih => exact ⟨⟨h.1, h'.1⟩, fun s' hs => ih (h.2 s' hs) (h'.2 s' hs)⟩

theorem Along.mono (himp : ∀ s e, ok s e → ok' s e) {s : σ} {es : List ε} (h : Along step ok s es) :
    Along step ok' s es := by
  induction es generalizing s with
  | nil => trivial
  | cons e es ih => exact ⟨himp s e h.1, fun s' hs => ih (h.2 s' hs)⟩

theorem along_append {s : σ} {es es' : List ε} :
    Along step ok s (es ++ es') ↔
      Along step ok s es ∧ ∀ t, run step s es = some t → Along step ok t es' := by
  induction es generalizing s with
  | nil => simp [Along]
  | cons e es ih =>
    constructor
    · rintro ⟨hok, hrest⟩
      refine ⟨⟨hok, fun s' he => (ih.mp (hrest s' he)).1⟩, fun t ht => ?_⟩
      obtain ⟨s', he, hr⟩ := run_cons_some.mp ht
      exact (ih.mp (hrest s' he)).2 t hr
    · rintro ⟨⟨hok, hrest⟩, hlast⟩
      exact ⟨hok, fun s' he => ih.mpr ⟨hrest s' he, fun t ht =>
        hlast t (run_cons_some.mpr ⟨s', he, ht⟩)⟩⟩

/-- A condition on the events alone, met by every event of the list. -/
theorem along_of_forall {ok : ε → Prop} {es : List ε} (h : ∀ e ∈ es, ok e) (s : σ) :
    Along step (fun _ => ok) s es := by
  induction es generalizing s with
  | nil => trivial
  | cons e es ih =>
    exact ⟨h e List.mem_cons_self, fun s' _ => ih (fun e' h' => h e' (List.mem_cons_of_mem e h')) s'⟩

/-- What every permitted step preserves, every run of permitted steps preserves. -/
theorem run_invariant_along (hstep : ∀ s e s', inv s → ok s e → step s e = some s' → inv s')
    {s t : σ} {es : List ε} (hs : inv s) (hok : Along step ok s es)
    (hrun : run step s es = some t) : inv t := by
  induction es generalizing s with
  | nil =>
    obtain rfl : s = t := by simpa using hrun
    exact hs
  | cons e es ih =>
    obtain ⟨s', he, hr⟩ := run_cons_some.mp hrun
    exact ih (hstep s e s' hs hok.1 he) (hok.2 s' he) hr

/-- A property of the steps that permitted steps have in the states they keep. -/
theorem Along.of_invariant (hinv : ∀ s e s', inv s → ok s e → step s e = some s' → inv s')
    (hok' : ∀ s e, inv s → ok s e → ok' s e) {s : σ} {es : List ε} (hs : inv s)
    (hok : Along step ok s es) : Along step ok' s es := by
  induction es generalizing s with
  | nil => trivial
  | cons e es ih =>
    exact ⟨hok' s e hs hok.1, fun s' he => ih (hinv s e s' hs hok.1 he) (hok.2 s' he)⟩

/-- When permitted steps are never refused, runs of them are not, and keep the invariant. -/
theorem run_total_along (hstep : ∀ s e, inv s → ok s e → ∃ s', step s e = some s' ∧ inv s')
    {s : σ} {es : List ε} (hs : inv s) (hok : Along step ok s es) :
    ∃ t, run step s es = some t ∧ inv t := by
  induction es generalizing s with
  | nil => exact ⟨s, rfl, hs⟩
  | cons e es ih =>
    obtain ⟨s', he, hs'⟩ := hstep s e hs hok.1
    obtain ⟨t, hr, ht⟩ := ih hs' (hok.2 s' he)
    exact ⟨t, run_cons_some.mpr ⟨s', he, hr⟩, ht⟩

/-- What every step preserves, every run preserves. -/
theorem run_invariant (hstep : ∀ s e s', inv s → step s e = some s' → inv s')
    {s t : σ} {es : List ε} (hs : inv s) (hrun : run step s es = some t) : inv t :=
  @run_invariant_along σ ε step (fun _ _ => True) inv (fun s e s' h _ => hstep s e s' h) s t es hs
    (along_of_forall (fun _ _ => trivial) s) hrun

/-- Every state of the run satisfies `P`, the first and the last included. -/
def Always (step : σ → ε → Option σ) (P : σ → Prop) : σ → List ε → Prop
  | s, [] => P s
  | s, e :: es => P s ∧ ∀ s', step s e = some s' → Always step P s' es

/-- The property can be checked by running the steps. -/
instance decidableAlways [∀ s, Decidable (P s)] : ∀ s es, Decidable (Always step P s es)
  | s, [] => inferInstanceAs (Decidable (P s))
  | s, e :: es =>
    match hs : step s e with
    | none => decidable_of_iff (P s) (by simp [Always, hs])
    | some s' =>
      have : Decidable (Always step P s' es) := decidableAlways s' es
      decidable_of_iff (P s ∧ Always step P s' es) (by simp [Always, hs])

theorem Always.head {s : σ} {es : List ε} (h : Always step P s es) : P s := by
  cases es with
  | nil => exact h
  | cons e es => exact h.1

/-- A property that an invariant of the permitted steps implies. -/
theorem Along.always (hinv : ∀ s e s', inv s → ok s e → step s e = some s' → inv s')
    (hP : ∀ s, inv s → P s)
    {s : σ} {es : List ε} (hs : inv s) (hok : Along step ok s es) : Always step P s es := by
  induction es generalizing s with
  | nil => exact hP s hs
  | cons e es ih => exact ⟨hP s hs, fun s' he => ih (hinv s e s' hs hok.1 he) (hok.2 s' he)⟩

/-- Among the runs of permitted steps, which keep an invariant: where a good step keeps `P` and
every other step is taken and loses it, the runs that keep `P` are those of good steps. -/
theorem always_iff_along_of
    (hinv : ∀ s e s', inv s → perm s e → step s e = some s' → inv s')
    (hkeep : ∀ s e s', inv s → perm s e → P s → ok s e → step s e = some s' → P s')
    (hlose : ∀ s e, inv s → perm s e → P s → ¬ ok s e → ∃ s', step s e = some s' ∧ ¬ P s')
    {s : σ} {es : List ε} (hs : inv s) (hperm : Along step perm s es) (hP : P s) :
    Always step P s es ↔ Along step ok s es := by
  induction es generalizing s with
  | nil => exact ⟨fun _ => trivial, fun _ => hP⟩
  | cons e es ih =>
    have hrest : ∀ s', ok s e → step s e = some s' →
        (Always step P s' es ↔ Along step ok s' es) := fun s' hok he =>
      ih (hinv s e s' hs hperm.1 he) (hperm.2 s' he) (hkeep s e s' hs hperm.1 hP hok he)
    constructor
    · intro h
      have hok : ok s e := by
        by_contra hno
        obtain ⟨s', he, hbad⟩ := hlose s e hs hperm.1 hP hno
        exact hbad (h.2 s' he).head
      exact ⟨hok, fun s' he => (hrest s' hok he).mp (h.2 s' he)⟩
    · intro h
      exact ⟨hP, fun s' he => (hrest s' h.1 he).mpr (h.2 s' he)⟩

/-- Where a good step keeps `P` and every other step is taken and loses it, the runs that keep
`P` are those of good steps. -/
theorem always_iff_along (hkeep : ∀ s e s', P s → ok s e → step s e = some s' → P s')
    (hlose : ∀ s e, P s → ¬ ok s e → ∃ s', step s e = some s' ∧ ¬ P s')
    {s : σ} {es : List ε} (hs : P s) : Always step P s es ↔ Along step ok s es :=
  @always_iff_along_of σ ε step (fun _ _ => True) ok (fun _ => True) P (fun _ _ _ _ _ _ => trivial)
    (fun s e s' _ _ => hkeep s e s') (fun s e _ _ => hlose s e) s es trivial
    (along_of_forall (fun _ _ => trivial) s) hs

/-- Where permitted steps are taken and keep an invariant, and every other step is refused or
loses `P` or `ok'`, the runs that end and keep both are those whose steps are all permitted. -/
theorem complete_iff_along (hP : ∀ s, inv s → P s)
    (hgood : ∀ s e, inv s → ok s e → ok' s e ∧ ∃ s', step s e = some s' ∧ inv s')
    (hbad : ∀ s e, inv s → ¬ ok s e → ok' s e → ∀ s', step s e = some s' → ¬ P s')
    {s : σ} {es : List ε} (hs : inv s) :
    ((∃ t, run step s es = some t) ∧ Always step P s es ∧ Along step ok' s es) ↔
      Along step ok s es := by
  induction es generalizing s with
  | nil => exact ⟨fun _ => trivial, fun _ => ⟨⟨s, rfl⟩, hP s hs, trivial⟩⟩
  | cons e es ih =>
    constructor
    · rintro ⟨⟨t, hrun⟩, hall, hq⟩
      obtain ⟨s', he, hr⟩ := run_cons_some.mp hrun
      have hok : ok s e := by
        by_contra hno
        exact hbad s e hs hno hq.1 s' he (hall.2 s' he).head
      obtain ⟨-, s₁, he₁, hs₁⟩ := hgood s e hs hok
      obtain rfl : s' = s₁ := Option.some.inj (he.symm.trans he₁)
      have hrest := (ih hs₁).mp ⟨⟨t, hr⟩, hall.2 s' he, hq.2 s' he⟩
      refine ⟨hok, fun s₂ he₂ => ?_⟩
      obtain rfl : s' = s₂ := Option.some.inj (he.symm.trans he₂)
      exact hrest
    · intro h
      obtain ⟨hq, s', he, hs'⟩ := hgood s e hs h.1
      obtain ⟨⟨t, hr⟩, hall, hrest⟩ := (ih hs').mpr (h.2 s' he)
      have hnext : ∀ s₂, step s e = some s₂ → s' = s₂ :=
        fun s₂ he₂ => Option.some.inj (he.symm.trans he₂)
      exact ⟨⟨t, run_cons_some.mpr ⟨s', he, hr⟩⟩,
        ⟨hP s hs, fun s₂ he₂ => hnext s₂ he₂ ▸ hall⟩, hq, fun s₂ he₂ => hnext s₂ he₂ ▸ hrest⟩

end Runs
