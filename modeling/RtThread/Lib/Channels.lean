import RtThread.Lib.Runs

/-!
# Two processes and two channels

Each process is a deterministic machine that writes to the channel of the other one and reads from
its own. Channels lose nothing and keep the order of what is written; how long an item takes is
left open, since a process may read it at any later time. A process that looks at its channel can
only wait for an item, so the order in which the two processes are run does not matter: where one
run ends, every run ends, in the same state and after as many steps.
-/
namespace Channels

variable {σ τ β ρ : Type*}

/-- What a process does next. One that reads with a time limit gives up in the state `late`. -/
inductive Action (σ β ρ : Type*) where
  | done (result : ρ)
  | write (items : List β) (next : σ)
  | read (next : β → σ) (late : Option σ)

/-- The process goes on: its next state, what is left in its channel and what it has written. -/
def Action.go : Action σ β ρ → List β → Option (σ × List β × List β)
  | .done _, _ => none
  | .write items next, inbox => some (next, inbox, items)
  | .read _ _, [] => none
  | .read next _, item :: inbox => some (next item, inbox, [])

/-- The process gives up. -/
def Action.expire : Action σ β ρ → Option σ
  | .read _ late => late
  | _ => none

def Action.result : Action σ β ρ → Option ρ
  | .done result => some result
  | _ => none

/-- Both processes with the items that are under way. -/
structure Net (σ τ β : Type*) where
  left : σ
  right : τ
  toRight : List β
  toLeft : List β

inductive Side where
  | left | right
  deriving DecidableEq

/-- A process goes on, or gives up. -/
inductive Event where
  | go (side : Side)
  | expire (side : Side)
  deriving DecidableEq

variable (actLeft : σ → Action σ β ρ) (actRight : τ → Action τ β ρ)

def go (n : Net σ τ β) : Side → Option (Net σ τ β)
  | .left => ((actLeft n.left).go n.toLeft).map fun (s, inbox, items) =>
      ⟨s, n.right, n.toRight ++ items, inbox⟩
  | .right => ((actRight n.right).go n.toRight).map fun (t, inbox, items) =>
      ⟨n.left, t, inbox, n.toLeft ++ items⟩

def step (n : Net σ τ β) : Event → Option (Net σ τ β)
  | .go side => go actLeft actRight n side
  | .expire .left => (actLeft n.left).expire.map fun s => { n with left := s }
  | .expire .right => (actRight n.right).expire.map fun t => { n with right := t }

/-- Neither process can go on. -/
def Rests (n : Net σ τ β) : Prop := ∀ side, go actLeft actRight n side = none

/-- A state that is reached where no process gives up. -/
def Reaches (n m : Net σ τ β) : Prop :=
  ∃ sides, Runs.run (go actLeft actRight) n sides = some m

variable {actLeft actRight} {n m z : Net σ τ β}

/-! ## Reaching a state -/

theorem run_go (n : Net σ τ β) (sides : List Side) :
    Runs.run (step actLeft actRight) n (sides.map .go) =
      Runs.run (go actLeft actRight) n sides := by
  induction sides generalizing n with
  | nil => rfl
  | cons side sides ih => exact congrArg _ (funext ih)

variable {sides sides' : List Side} {side : Side} {s : σ} {t : τ} {items toLeft toRight : List β}
  {item : β}

theorem Reaches.of_run (hrun : Runs.run (go actLeft actRight) n sides = some m)
    (h : Reaches actLeft actRight m z) : Reaches actLeft actRight n z := by
  obtain ⟨sides', hm⟩ := h
  refine ⟨sides ++ sides', ?_⟩
  rw [Runs.run_append, hrun]
  exact hm

theorem Reaches.refl (n : Net σ τ β) : Reaches actLeft actRight n n := ⟨[], rfl⟩

theorem Reaches.head (h : go actLeft actRight n side = some m) (h' : Reaches actLeft actRight m z) :
    Reaches actLeft actRight n z :=
  .of_run (Runs.run_cons_some.mpr ⟨m, h, Runs.run_nil _ m⟩) h'

theorem Reaches.writeLeft {next : σ} (h : actLeft s = .write items next)
    (h' : Reaches actLeft actRight ⟨next, t, toRight ++ items, toLeft⟩ z) :
    Reaches actLeft actRight ⟨s, t, toRight, toLeft⟩ z := by
  apply @Reaches.head _ _ _ _ _ _ _ _ _ .left _ h'
  rw [go, h]
  rfl

theorem Reaches.writeRight {next : τ} (h : actRight t = .write items next)
    (h' : Reaches actLeft actRight ⟨s, next, toRight, toLeft ++ items⟩ z) :
    Reaches actLeft actRight ⟨s, t, toRight, toLeft⟩ z := by
  apply @Reaches.head _ _ _ _ _ _ _ _ _ .right _ h'
  rw [go, h]
  rfl

theorem Reaches.readLeft {next : β → σ} {late : Option σ} (h : actLeft s = .read next late)
    (h' : Reaches actLeft actRight ⟨next item, t, toRight, toLeft⟩ z) :
    Reaches actLeft actRight ⟨s, t, toRight, item :: toLeft⟩ z := by
  apply @Reaches.head _ _ _ _ _ _ _ _ _ .left _ h'
  simp only [go, h, Action.go, Option.map_some, List.append_nil]

theorem Reaches.readRight {next : β → τ} {late : Option τ} (h : actRight t = .read next late)
    (h' : Reaches actLeft actRight ⟨s, next item, toRight, toLeft⟩ z) :
    Reaches actLeft actRight ⟨s, t, item :: toRight, toLeft⟩ z := by
  apply @Reaches.head _ _ _ _ _ _ _ _ _ .right _ h'
  simp only [go, h, Action.go, Option.map_some, List.append_nil]

/-! ## The order does not matter -/

/-- More items in the channel do not change what a process does. -/
theorem Action.go_append {a : Action σ β ρ} {inbox rest : List β}
    (h : a.go inbox = some (s, rest, items)) (more : List β) :
    a.go (inbox ++ more) = some (s, rest ++ more, items) := by
  cases a with
  | done result => cases h
  | write sent next =>
    cases h
    rfl
  | read next late =>
    cases inbox with
    | nil => cases h
    | cons item inbox =>
      cases h
      rfl

theorem go_commute {l r : Net σ τ β} (hl : go actLeft actRight n .left = some l)
    (hr : go actLeft actRight n .right = some r) :
    ∃ d, go actLeft actRight l .right = some d ∧ go actLeft actRight r .left = some d := by
  obtain ⟨⟨s, toLeft, items⟩, hs, rfl⟩ := Option.map_eq_some_iff.mp hl
  obtain ⟨⟨t, toRight, sent⟩, ht, rfl⟩ := Option.map_eq_some_iff.mp hr
  refine ⟨⟨s, t, toRight ++ items, toLeft ++ sent⟩, ?_, ?_⟩
  · rw [go, Action.go_append ht, Option.map_some]
  · rw [go, Action.go_append hs, Option.map_some]

theorem go_diamond {side' : Side} {m' : Net σ τ β} (h : go actLeft actRight n side = some m)
    (h' : go actLeft actRight n side' = some m') (hne : side ≠ side') :
    ∃ d, go actLeft actRight m side' = some d ∧ go actLeft actRight m' side = some d := by
  cases side with
  | left =>
    cases side' with
    | left => exact absurd rfl hne
    | right => exact go_commute h h'
  | right =>
    cases side' with
    | left =>
      obtain ⟨d, hd, hd'⟩ := go_commute h' h
      exact ⟨d, hd', hd⟩
    | right => exact absurd rfl hne

/-- A run that ends can begin with every step that can be taken. -/
theorem run_behind (hrun : Runs.run (go actLeft actRight) n sides = some z)
    (hrests : Rests actLeft actRight z) (h : go actLeft actRight n side = some m) :
    ∃ sides', Runs.run (go actLeft actRight) m sides' = some z ∧
      sides'.length + 1 = sides.length := by
  induction sides generalizing n m with
  | nil =>
    obtain rfl : n = z := Option.some.inj hrun
    rw [hrests side] at h
    cases h
  | cons first sides ih =>
    obtain ⟨n', hfirst, hrest⟩ := Runs.run_cons_some.mp hrun
    by_cases hside : side = first
    · subst hside
      obtain rfl : m = n' := Option.some.inj (h.symm.trans hfirst)
      exact ⟨sides, hrest, rfl⟩
    · obtain ⟨d, hm, hn'⟩ := go_diamond h hfirst hside
      obtain ⟨sides', hd, hlength⟩ := ih hrest hn'
      refine ⟨first :: sides', Runs.run_cons_some.mpr ⟨d, hm, hd⟩, ?_⟩
      rw [List.length_cons, List.length_cons, hlength]

/-- Where one run ends, every run is the beginning of one that ends there after as many steps. -/
theorem run_completes (hrun : Runs.run (go actLeft actRight) n sides = some z)
    (hrests : Rests actLeft actRight z) (h : Runs.run (go actLeft actRight) n sides' = some m) :
    ∃ rest, Runs.run (go actLeft actRight) m rest = some z ∧
      sides'.length + rest.length = sides.length := by
  induction sides' generalizing n sides with
  | nil =>
    obtain rfl : n = m := Option.some.inj h
    exact ⟨sides, hrun, Nat.zero_add _⟩
  | cons side sides' ih =>
    obtain ⟨n', hstep, hrest⟩ := Runs.run_cons_some.mp h
    obtain ⟨behind, hbehind, hlength⟩ := run_behind hrun hrests hstep
    obtain ⟨rest, hend, htotal⟩ := ih hbehind hrest
    refine ⟨rest, hend, ?_⟩
    rw [List.length_cons, ← hlength, ← htotal]
    omega

theorem eq_of_rests (hrun : Runs.run (go actLeft actRight) n sides = some z)
    (hz : Rests actLeft actRight z) (h : Runs.run (go actLeft actRight) n sides' = some m)
    (hm : Rests actLeft actRight m) : m = z := by
  obtain ⟨rest, hrest, -⟩ := run_completes hrun hz h
  cases rest with
  | nil => exact Option.some.inj hrest
  | cons side rest =>
    obtain ⟨m', hside, -⟩ := Runs.run_cons_some.mp hrest
    rw [hm side] at hside
    cases hside

end Channels
