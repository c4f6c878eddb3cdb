import RtThread.VbusChannels

/-!
# Who writes to the channel table

A request that fails while its session is being established gives back the channel of the
session. The number in the session is that of a channel which the session has been given when an
ENABLE or a SET has come since the request was made, and nothing has replaced it. Otherwise it
is left over from an earlier use, and 0 at first.
-/
namespace RtThread.VbusChannels

open Function (update_of_ne update_self)
open Ipc (ThreadId)

/-- The tables, with the channels that the sessions have been given for their present requests. -/
structure Traced where
  state : State
  given : Nat → Option Nat

def start : Traced := ⟨rtVbusInit, fun _ => none⟩

/-- The packet gives a channel to a session. -/
def Packet.gives : Packet → Bool
  | .enable _ | .set _ _ => true
  | _ => false

/-- The session of the request that a thread is in. -/
def Stage.session : Stage → Option Nat
  | .posting i | .waiting i | .failed i | .cleaning i | .leaving i | .detaching i => some i
  | .outside | .closing _ _ => none

/-- The channels given, after a step to `s`. -/
def Traced.after (x : Traced) (s : State) : Op → Nat → Option Nat
  | .request t _ _ =>
    match (s.stage t).session with
    | some i => Function.update x.given i none
    | none => x.given
  | .actor =>
    match x.state.actor with
    | .writing p (.chnr i chnr :: _) =>
      if p.gives then Function.update x.given i (some chnr.toNat) else x.given
    | _ => x.given
  | _ => x.given

def tracedStep (x : Traced) (op : Op) : Option Traced :=
  (step x.state op).map fun s => ⟨s, x.after s op⟩

/-- A request is given a channel before it gives one back; the acknowledgement of a SET names the
channel of the session it finds; and no ENABLE is refused after it has been answered. -/
def permitted (x : Traced) : Op → Bool
  | .proceed t =>
    match x.state.stage t with
    | .cleaning i => (x.given i).isSome
    | _ => true
  | .packet dp _ =>
    match decode dp with
    | some (.ackSet name chnr) =>
      match sessFind x.state name .establishing sessions with
      | some (some i) => x.given i = some chnr
      | _ => true
    | some (.nakEnable name) =>
      match sessFind x.state name .establishing sessions with
      | some (some i) => x.given i = none
      | _ => true
    | _ => true
  | _ => true

/-- The comment of `_chn_status`: channel 0 is always connected. -/
def Connected (x : Traced) : Prop := x.state.status 0 = .established

/-- A step of a request changes the status of no channel but the one its session has been
given. -/
def OwnOnly (x : Traced) (op : Op) : Prop :=
  ∀ t i, op = .posted t true ∨ op = .posted t false ∨ op = .completed t ∨ op = .timedOut t ∨
      op = .proceed t → (x.state.stage t).session = some i →
    ∀ x', tracedStep x op = some x' → ∀ chnr, x'.state.status chnr ≠ x.state.status chnr →
      x.given i = some chnr

/-- What is known of a write that is going to be made for a packet. -/
def WriteOk (x : Traced) (p : Packet) : Write → Prop
  | .status chnr _ => 0 < chnr
  | .chnr i chnr =>
    if p.gives then 0 < chnr ∧ chnr < rtVbusChannelNr
    else ∀ own, x.given i = some own → chnr = own
  | _ => True

/-- What is known of the writes of `_chn0_actor`. -/
def ActorOk (x : Traced) : Prop :=
  match x.state.actor with
  | .idle => True
  | .posting p pending => p.gives = true ∧ ∀ w ∈ pending, WriteOk x p w
  | .writing p pending => ∀ w ∈ pending, WriteOk x p w

structure Inv (x : Traced) : Prop where
  connected : Connected x
  given : ∀ i own, x.given i = some own → 0 < own ∧ (x.state.sess i).chnr = own
  closing : ∀ t chnr st, x.state.stage t = .closing chnr st → 0 < chnr
  actor : ActorOk x

section steps

variable {x : Traced} {s : State} {t : ThreadId} {p : Packet} {w : Write} {i : Nat}

variable {chnr : Int} {st : ChnStatus} {op : Op}

theorem setStatus_zero (h : setStatus x.state chnr st = some s) (hpos : 0 < chnr)
    (hzero : Connected x) : s.status 0 = .established := by
  obtain ⟨-, h⟩ := Option.ite_none_right_eq_some.mp h
  cases h
  have hne : 0 ≠ chnr.toNat := by omega
  show Function.update x.state.status chnr.toNat st 0 = _
  rw [update_of_ne hne]
  exact hzero

theorem setStatus_eq {s₀ : State} (h : setStatus s₀ chnr st = some s) :
    s = { s₀ with status := Function.update s₀.status chnr.toNat st } := by
  obtain ⟨-, h⟩ := Option.ite_none_right_eq_some.mp h
  exact (Option.some.inj h).symm

/-- Only the stage of a thread changes. -/
theorem Inv.setStage (hi : Inv x) {stage : Stage}
    (hclosing : ∀ chnr st, stage = .closing chnr st → 0 < chnr) :
    Inv ⟨VbusChannels.setStage x.state t stage, x.given⟩ where
  connected := hi.connected
  given := hi.given
  closing := fun u chnr st hu => by
    by_cases hut : u = t
    · subst hut
      exact hclosing chnr st ((update_self _ _ _).symm.trans hu)
    · exact hi.closing u chnr st ((update_of_ne hut _ _).symm.trans hu)
  actor := hi.actor

/-- A session changes that keeps its number. -/
theorem Inv.setSess (hi : Inv x) {sess : RtVbusConnSession}
    (hchnr : sess.chnr = (x.state.sess i).chnr) :
    Inv ⟨VbusChannels.setSess x.state i sess, x.given⟩ where
  connected := hi.connected
  given := fun j own hown => by
    refine ⟨(hi.given j own hown).1, ?_⟩
    by_cases hji : j = i
    · subst hji
      show (Function.update x.state.sess j sess j).chnr = _
      rw [update_self, hchnr]
      exact (hi.given j own hown).2
    · show (Function.update x.state.sess i sess j).chnr = _
      rw [update_of_ne hji]
      exact (hi.given j own hown).2
  closing := hi.closing
  actor := hi.actor

theorem given_of_forget {given : Nat → Option Nat} {j own : Nat}
    (h : Function.update given i none j = some own) : given j = some own := by
  by_cases hji : j = i
  · subst hji
    rw [update_self] at h
    cases h
  · rwa [update_of_ne hji] at h

/-- A session has no channel yet. -/
theorem Inv.forget (hi : Inv x) (i : Nat) : Inv ⟨x.state, Function.update x.given i none⟩ where
  connected := hi.connected
  given := fun j own hown => hi.given j own (given_of_forget hown)
  closing := hi.closing
  actor := by
    have hwrite : ∀ p w, WriteOk x p w → WriteOk ⟨x.state, Function.update x.given i none⟩ p w := by
      intro p w hw
      cases w with
      | chnr j chnr =>
        rw [WriteOk] at hw ⊢
        split
        · rename_i hgives
          rwa [if_pos hgives] at hw
        · rename_i hgives
          rw [if_neg hgives] at hw
          exact fun own hown => hw own (given_of_forget hown)
      | status chnr st => exact hw
      | session j st => trivial
      | done j => trivial
    have hactor := hi.actor
    rw [ActorOk] at hactor ⊢
    cases ha : x.state.actor with
    | idle => trivial
    | posting p pending =>
      rw [ha] at hactor
      exact ⟨hactor.1, fun w hw => hwrite p w (hactor.2 w hw)⟩
    | writing p pending =>
      rw [ha] at hactor
      exact fun w hw => hwrite p w (hactor w hw)

/-- A channel above 0 changes its status. -/
theorem Inv.setStatus (hi : Inv x) (hpos : 0 < chnr) (h : setStatus x.state chnr st = some s) :
    Inv ⟨s, x.given⟩ := by
  have hzero := setStatus_zero h hpos hi.connected
  obtain rfl := setStatus_eq h
  exact ⟨hzero, hi.given, hi.closing, hi.actor⟩

/-- The first section of a request. -/
theorem Inv.request (hi : Inv x) (ht : x.state.stage t = .outside) (req : RtVbusRequest)
    (malloc : Bool) :
    Inv ⟨rtVbusRequestChn x.state t req malloc,
      x.after (rtVbusRequestChn x.state t req malloc) (.request t req malloc)⟩ := by
  rw [rtVbusRequestChn, Traced.after]
  split
  · simp only [ht, Stage.session]
    exact hi
  · rename_i i _
    split
    · simp only [VbusChannels.setStage, update_self, Stage.session]
      have hlisten : Inv ⟨VbusChannels.setSess x.state i
          { x.state.sess i with done := false, req := some req, st := .listening },
          Function.update x.given i none⟩ := (hi.forget i).setSess rfl
      exact hlisten.setStage (by simp)
    · split
      · simp only [VbusChannels.setStage, update_self, Stage.session]
        have hestablish : Inv ⟨VbusChannels.setSess x.state i
            { x.state.sess i with done := false, req := some req, st := .establishing },
            Function.update x.given i none⟩ := (hi.forget i).setSess rfl
        exact hestablish.setStage (by simp)
      · simp only [VbusChannels.setSess, ht, Stage.session]
        exact hi.setSess rfl

/-- The next write of a thread; a request that has failed gives its own channel back. -/
theorem Inv.proceed (hi : Inv x) (hok : permitted x (.proceed t) = true)
    (h : VbusChannels.proceed x.state t = some s) :
    Inv ⟨s, x.given⟩ ∧ ∀ i, (x.state.stage t).session = some i →
      ∀ chnr, s.status chnr ≠ x.state.status chnr → x.given i = some chnr := by
  rw [VbusChannels.proceed] at h
  rw [permitted] at hok
  cases ht : x.state.stage t with
  | outside | posting | waiting => simp [ht] at h
  | failed i =>
    simp only [ht, Option.some.injEq] at h
    subst h
    refine ⟨hi.setStage ?_, fun _ _ _ hne => absurd rfl hne⟩
    split <;> simp
  | cleaning i =>
    simp only [ht] at h hok
    obtain ⟨own, hown⟩ := Option.isSome_iff_exists.mp hok
    obtain ⟨hpos, hchnr⟩ := hi.given i own hown
    obtain ⟨s', hset, rfl⟩ := Option.map_eq_some_iff.mp h
    refine ⟨(hi.setStatus (by omega) hset).setStage (by simp), fun j hj chnr hne => ?_⟩
    obtain rfl : i = j := Option.some.inj hj
    obtain rfl := setStatus_eq hset
    rw [hown, Option.some.injEq]
    by_contra hother
    refine hne (update_of_ne ?_ _ _)
    rw [hchnr]
    intro heq
    exact hother (by simpa using heq.symm)
  | leaving i =>
    simp only [ht, Option.some.injEq] at h
    subst h
    have hsess : Inv ⟨VbusChannels.setSess x.state i { x.state.sess i with st := .available },
      x.given⟩ := hi.setSess rfl
    exact ⟨hsess.setStage (by simp), fun _ _ _ hne => absurd rfl hne⟩
  | detaching i =>
    simp only [ht, Option.some.injEq] at h
    subst h
    have hsess : Inv ⟨VbusChannels.setSess x.state i { x.state.sess i with req := none },
      x.given⟩ := hi.setSess rfl
    exact ⟨hsess.setStage (by simp), fun _ _ _ hne => absurd rfl hne⟩
  | closing chnr st =>
    simp only [ht] at h
    obtain ⟨s', hset, rfl⟩ := Option.map_eq_some_iff.mp h
    have hpos := hi.closing t chnr st ht
    exact ⟨(hi.setStatus (by omega) hset).setStage (by simp), fun _ hj => by cases hj⟩

theorem Inv.close (hi : Inv x) {chnr : Nat} (h : rtVbusCloseChn x.state t chnr = some s) :
    Inv ⟨s, x.given⟩ := by
  obtain ⟨hrange, h⟩ := Option.ite_none_right_eq_some.mp h
  split at h
  · cases h
    refine hi.setStage fun c st heq => ?_
    cases heq
    exact hrange.1
  · split at h
    · cases h
      refine hi.setStage fun c st heq => ?_
      cases heq
      exact hrange.1
    · cases h
      exact hi

/-! ## The packets -/

theorem actorOk_status (x : Traced) (st : ChnStatus) {chnr : Nat} (hpos : 0 < chnr) :
    ActorOk ⟨{ x.state with actor := .writing p [.status chnr st] }, x.given⟩ := by
  intro w hw
  obtain rfl := List.mem_singleton.mp hw
  rw [WriteOk]
  omega

/-- The writes for a packet are those of a channel above 0. -/
theorem Inv.chn0Actor (hi : Inv x) {dp : List Byte} {malloc : Bool} {actor : Actor}
    (hok : permitted x (.packet dp malloc) = true) (hp : decode dp = some p)
    (h : VbusChannels.chn0Actor x.state p malloc = some actor) :
    Inv ⟨{ x.state with actor := actor }, x.given⟩ := by
  suffices hactor : ActorOk ⟨{ x.state with actor := actor }, x.given⟩ from
    ⟨hi.connected, hi.given, hi.closing, hactor⟩
  rw [permitted] at hok
  simp only [hp] at hok
  cases p with
  | enable name =>
    obtain ⟨found, hfind, rfl⟩ := Option.map_eq_some_iff.mp h
    cases found with
    | none => trivial
    | some i =>
      simp only
      split
      · trivial
      · rename_i chnr hfirst
        split
        · obtain ⟨hst, hmem, -⟩ := List.find?_range_eq_some.mp hfirst
          have hpos : 0 < chnr := by
            rw [Nat.pos_iff_ne_zero]
            rintro rfl
            rw [show x.state.status 0 = .established from hi.connected] at hst
            simp at hst
          have hlt := List.mem_range.mp hmem
          refine ⟨rfl, fun w hw => ?_⟩
          simp only [List.mem_cons, List.not_mem_nil, or_false] at hw
          obtain rfl | rfl | rfl := hw
          · trivial
          · exact ⟨by omega, by omega⟩
          · rw [WriteOk]
            omega
        · trivial
  | set name chnr =>
    obtain ⟨found, hfind, rfl⟩ := Option.map_eq_some_iff.mp h
    cases found with
    | none => trivial
    | some i =>
      simp only
      split
      · trivial
      · rename_i hrange
        split
        · trivial
        · refine ⟨rfl, fun w hw => ?_⟩
          simp only [List.mem_cons, List.not_mem_nil, or_false] at hw
          obtain rfl | rfl | rfl := hw
          · exact ⟨by omega, by omega⟩
          · rw [WriteOk]
            omega
          · trivial
  | ackSet name chnr =>
    obtain ⟨found, hfind, rfl⟩ := Option.map_eq_some_iff.mp h
    cases found with
    | none => trivial
    | some i =>
      simp only [hfind, decide_eq_true_iff] at hok
      intro w hw
      simp only [List.mem_cons, List.not_mem_nil, or_false] at hw
      obtain rfl | rfl | rfl := hw
      · intro own hown
        rw [show x.given i = some own from hown, Option.some.injEq] at hok
        rw [hok]
      · have hpos := (hi.given i chnr hok).1
        rw [WriteOk]
        omega
      · trivial
  | ackDisable | disable =>
    cases h
    split
    · trivial
    · exact actorOk_status x _ (by omega)
  | suspend | resume =>
    cases h
    split
    · trivial
    · split
      · trivial
      · exact actorOk_status x _ (by omega)
  | nakEnable name =>
    obtain ⟨found, hfind, rfl⟩ := Option.map_eq_some_iff.mp h
    cases found with
    | none => trivial
    | some i =>
      simp only [hfind, decide_eq_true_iff] at hok
      intro w hw
      simp only [List.mem_cons, List.not_mem_nil, or_false] at hw
      obtain rfl | rfl := hw
      · rw [WriteOk, if_neg (by simp [Packet.gives])]
        intro own hown
        rw [show x.given i = some own from hown] at hok
        cases hok
      · trivial
  | other =>
    cases h
    trivial

/-- The next write of `_chn0_actor`. -/
theorem Inv.perform (hi : Inv x) {pending : List Write}
    (hactor : x.state.actor = .writing p (w :: pending)) (h : perform x.state w = some s) :
    Inv ⟨{ s with actor := .writing p pending }, x.after { s with actor := .writing p pending } .actor⟩ := by
  have hall := hi.actor
  rw [ActorOk, hactor] at hall
  have hw := hall w List.mem_cons_self
  have hrest : ∀ w' ∈ pending, WriteOk x p w' := fun w' hw' => hall w' (List.mem_cons_of_mem w hw')
  rw [Traced.after, hactor]
  cases w with
  | status chnr st =>
    have hinv := hi.setStatus hw h
    exact ⟨hinv.connected, hinv.given, hinv.closing, hrest⟩
  | session i st =>
    cases h
    have hinv : Inv ⟨VbusChannels.setSess x.state i { x.state.sess i with st := st }, x.given⟩ :=
      hi.setSess rfl
    exact ⟨hinv.connected, hinv.given, hinv.closing, hrest⟩
  | done i =>
    cases h
    have hinv : Inv ⟨VbusChannels.setSess x.state i { x.state.sess i with done := true }, x.given⟩ :=
      hi.setSess rfl
    exact ⟨hinv.connected, hinv.given, hinv.closing, hrest⟩
  | chnr i chnr =>
    cases h
    rw [WriteOk] at hw
    simp only
    by_cases hgives : p.gives = true
    · rw [if_pos hgives] at hw ⊢
      refine ⟨hi.connected, fun j own hown => ?_, hi.closing, fun w' hw' => ?_⟩
      · by_cases hji : j = i
        · subst hji
          have hown : Function.update x.given j (some chnr.toNat) j = some own := hown
          rw [update_self] at hown
          cases hown
          show 0 < chnr.toNat ∧ (Function.update x.state.sess j _ j).chnr = _
          rw [update_self]
          exact ⟨by omega, by show chnr = _; omega⟩
        · have hown : x.given j = some own := (update_of_ne hji _ _).symm.trans hown
          show 0 < own ∧ (Function.update x.state.sess i _ j).chnr = _
          rw [update_of_ne hji]
          exact hi.given j own hown
      · have hold := hrest w' hw'
        cases w' with
        | chnr j chnr' =>
          rw [WriteOk, if_pos hgives] at hold ⊢
          exact hold
        | status chnr' st => exact hold
        | session j st => trivial
        | done j => trivial
    · rw [if_neg hgives] at hw ⊢
      refine ⟨hi.connected, fun j own hown => ?_, hi.closing, hrest⟩
      refine ⟨(hi.given j own hown).1, ?_⟩
      by_cases hji : j = i
      · subst hji
        show (Function.update x.state.sess j _ j).chnr = _
        rw [update_self]
        exact hw own hown
      · show (Function.update x.state.sess i _ j).chnr = _
        rw [update_of_ne hji]
        exact (hi.given j own hown).2

theorem tracedStep_inv {x' : Traced} (hi : Inv x) (hok : permitted x op = true)
    (h : tracedStep x op = some x') : Inv x' := by
  obtain ⟨s, hstep, rfl⟩ := Option.map_eq_some_iff.mp h
  cases op with
  | request t req malloc =>
    obtain ⟨ht, hs⟩ := Option.ite_none_right_eq_some.mp hstep
    cases hs
    exact hi.request ht req malloc
  | posted t ok =>
    simp only [step] at hstep
    split at hstep
    · cases hstep
      refine hi.setStage ?_
      split <;> simp
    · cases hstep
  | completed t =>
    simp only [step] at hstep
    split at hstep
    · obtain ⟨-, hs⟩ := Option.ite_none_right_eq_some.mp hstep
      cases hs
      exact hi.setStage (by simp)
    · cases hstep
  | timedOut t =>
    simp only [step] at hstep
    split at hstep
    · cases hstep
      exact hi.setStage (by simp)
    · cases hstep
  | proceed t => exact (hi.proceed hok hstep).1
  | close t chnr =>
    obtain ⟨-, hs⟩ := Option.ite_none_right_eq_some.mp hstep
    exact hi.close hs
  | packet dp malloc =>
    simp only [step] at hstep
    split at hstep
    · obtain ⟨p, hp, hs⟩ := Option.bind_eq_some_iff.mp hstep
      obtain ⟨actor, hactor, rfl⟩ := Option.map_eq_some_iff.mp hs
      exact hi.chn0Actor hok hp hactor
    · cases hstep
  | actorPosted ok =>
    simp only [step] at hstep
    split at hstep
    · rename_i p pending hactor
      cases hstep
      have hall := hi.actor
      rw [ActorOk, hactor] at hall
      refine ⟨hi.connected, hi.given, hi.closing, ?_⟩
      cases ok with
      | true => exact hall.2
      | false => trivial
    · cases hstep
  | actor =>
    simp only [step] at hstep
    split at hstep
    · rename_i p hactor
      cases hstep
      simp only [Traced.after, hactor]
      exact ⟨hi.connected, hi.given, hi.closing, trivial⟩
    · rename_i p w pending hactor
      obtain ⟨s', hs, rfl⟩ := Option.map_eq_some_iff.mp hstep
      exact hi.perform hactor hs
    · cases hstep

theorem Inv.ownOnly (hi : Inv x) (hok : permitted x op = true) : OwnOnly x op := by
  intro t i hop hsession x' h chnr hne
  obtain ⟨s, hstep, rfl⟩ := Option.map_eq_some_iff.mp h
  obtain rfl | rfl | rfl | rfl | rfl := hop
  · simp only [step] at hstep
    split at hstep
    · cases hstep
      exact absurd rfl hne
    · cases hstep
  · simp only [step] at hstep
    split at hstep
    · cases hstep
      exact absurd rfl hne
    · cases hstep
  · simp only [step] at hstep
    split at hstep
    · obtain ⟨-, hs⟩ := Option.ite_none_right_eq_some.mp hstep
      cases hs
      exact absurd rfl hne
    · cases hstep
  · simp only [step] at hstep
    split at hstep
    · cases hstep
      exact absurd rfl hne
    · cases hstep
  · exact (hi.proceed hok hstep).2 i hsession chnr hne

theorem inv_start : Inv start where
  connected := rfl
  given := fun i own hown => by cases hown
  closing := fun t chnr st ht => by cases ht
  actor := trivial

end steps

/-- In a run of permitted steps channel 0 stays connected, and a request changes the status of
no channel but its own. -/
theorem vbus_channel_table (ops : List Op)
    (hok : Runs.Along tracedStep (fun x op => permitted x op = true) start ops) :
    Runs.Always tracedStep Connected start ops ∧ Runs.Along tracedStep OwnOnly start ops :=
  ⟨hok.always (fun _ _ _ hi hok hs => tracedStep_inv hi hok hs) (fun _ hi => hi.connected) inv_start,
    hok.of_invariant (fun _ _ _ hi hok hs => tracedStep_inv hi hok hs)
      (fun _ _ hi hok => hi.ownOnly hok) inv_start⟩

/-- A server is given channel 1 and gives it back when no acknowledgement comes. -/
def unanswered : List Op :=
  [.request 1 ⟨[97], true⟩ true, .packet [0, 97, 0] true, .actorPosted true, .actor, .actor, .actor,
    .actor, .timedOut 1, .proceed 1, .proceed 1, .proceed 1, .proceed 1]

theorem vbus_channel_table_server :
    (Runs.Always tracedStep Connected start unanswered ∧
      Runs.Along tracedStep OwnOnly start unanswered) ∧
      (Runs.run tracedStep start unanswered).map (·.state.status 1) = some .available :=
  ⟨vbus_channel_table unanswered (by decide +kernel), by decide +kernel⟩

/-- The first request of a client is not answered in time. -/
def clientTimesOut : List Op :=
  [.request 1 ⟨[97], false⟩ true, .posted 1 true, .timedOut 1, .proceed 1, .proceed 1]

/-- The session has the number 0, and channel 0 is no longer connected. -/
theorem channel_zero_lost :
    ∃ x, Runs.run tracedStep start clientTimesOut = some x ∧ x.state.status 0 = .available ∧
      ¬ Connected x := by
  have hlast : (Runs.run tracedStep start clientTimesOut).map (·.state.status 0) =
      some .available := by
    decide +kernel
  obtain ⟨x, hrun, hx⟩ := Option.map_eq_some_iff.mp hlast
  refine ⟨x, hrun, hx, fun hconnected => ?_⟩
  rw [Connected, hx] at hconnected
  cases hconnected

end RtThread.VbusChannels
