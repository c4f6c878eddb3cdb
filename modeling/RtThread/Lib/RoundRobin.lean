import Mathlib.Data.List.Nodup

/-!
# Round robin

A queue whose first element is being served. A turn sends it to the back and
serves the next one; new elements join at the back. `Turns q out q'` says that
the queue `q` became `q'` and that `out` were the elements served on the way.
-/
namespace RoundRobin

variable {α : Type*}

inductive Turns (q : List α) : List α → List α → Prop where
  | refl : Turns q [] q
  | rotate {out rest : List α} {a b : α} (h : Turns q out (a :: b :: rest)) :
      Turns q (out ++ [b]) (b :: (rest ++ [a]))
  | join {out q' : List α} {u : α} (h : Turns q out q') (hu : u ∉ q') : Turns q out (q' ++ [u])

variable {d q out q' rest : List α} {i : Nat} {a b v w : α}

theorem Turns.trans {q'' out' : List α} (h : Turns q out q') (h' : Turns q' out' q'') :
    Turns q (out ++ out') q'' := by
  induction h' with
  | refl => simpa using h
  | rotate _ ih =>
    rw [← List.append_assoc]
    exact ih.rotate
  | join _ hu ih => exact ih.join hu

theorem Turns.nodup (h : Turns q out q') (hq : q.Nodup) : q'.Nodup := by
  induction h with
  | refl => exact hq
  | rotate _ ih =>
    rw [← List.cons_append]
    refine List.nodup_append_comm.mp ?_
    simpa using ih
  | join _ hu ih =>
    exact List.nodup_append_comm.mp (by simpa using ⟨hu, ih⟩)

theorem Turns.mem (h : Turns q out q') {u : α} (hu : u ∈ q) : u ∈ q' := by
  induction h with
  | refl => exact hu
  | rotate _ ih => simp only [List.mem_cons, List.mem_append] at ih ⊢; tauto
  | join _ _ ih => exact List.mem_append_left _ ih

/-- Strict rotation: between two services of one element every element of `q` is served. -/
def Strict (q d : List α) : Prop :=
  ∀ (i j : Nat) (v : α), i < j → d[i]? = some v → d[j]? = some v →
    ∀ u ∈ q, u ≠ v → ∃ m, i < m ∧ m < j ∧ d[m]? = some u

/-- An element served at position `i` waits for every other one: those are served later
than `i`, or stand before it, unless it is still being served. -/
def Waits (q d : List α) (h : α) (rest : List α) : Prop :=
  ∀ (i : Nat) (v : α), d[i]? = some v → ∀ u ∈ q, u ≠ v →
    (∃ m, i < m ∧ d[m]? = some u) ∨ v = h ∨ [u, v].Sublist rest

theorem getElem?_append_left (h : d[i]? = some v) : (d ++ [w])[i]? = some v := by
  rw [List.getElem?_append_left (List.getElem?_eq_some_iff.mp h).1]
  exact h

/-- A position of the longer record is an old one or the new last one. -/
theorem getElem?_append_cases (h : (d ++ [w])[i]? = some v) :
    d[i]? = some v ∨ i = d.length ∧ v = w := by
  by_cases hi : i < d.length
  · left
    rwa [List.getElem?_append_left hi] at h
  · right
    rw [List.getElem?_append_right (Nat.le_of_not_lt hi)] at h
    have h0 : i - d.length = 0 := by
      by_contra hne
      rw [List.getElem?_eq_none (by simp; omega)] at h
      simp at h
    rw [h0] at h
    exact ⟨by omega, by simpa using h.symm⟩

theorem Waits.rotate (h : Waits q d a (b :: rest)) (hq : ∀ u ∈ q, u ∈ a :: b :: rest) :
    Waits q (d ++ [b]) b (rest ++ [a]) := by
  intro i v hlog u hu huv
  obtain hv | ⟨_, rfl⟩ := getElem?_append_cases hlog
  · have hlast : u = b → ∃ m, i < m ∧ (d ++ [b])[m]? = some u := by
      rintro rfl
      exact ⟨d.length, (List.getElem?_eq_some_iff.mp hv).1, by simp⟩
    obtain ⟨m, him, hm⟩ | rfl | hsub := h i v hv u hu huv
    · exact .inl ⟨m, him, getElem?_append_left hm⟩
    · by_cases hub : u = b
      · exact .inl (hlast hub)
      · have hrest : u ∈ rest := by simpa [huv, hub] using hq u hu
        exact .inr (.inr ((List.singleton_sublist.mpr hrest).append (List.Sublist.refl [v])))
    · by_cases hub : u = b
      · exact .inl (hlast hub)
      · have hrest : [u, v].Sublist rest := by
          cases hsub with
          | cons _ hs => exact hs
          | cons_cons _ hs => exact absurd rfl hub
        exact .inr (.inr (hrest.trans (List.sublist_append_left rest [a])))
  · exact .inr (.inl rfl)

theorem Strict.rotate (hs : Strict q d) (h : Waits q d a (b :: rest))
    (hnd : (a :: b :: rest).Nodup) : Strict q (d ++ [b]) := by
  intro i j v hij hi hj u hu huv
  obtain hj | ⟨rfl, rfl⟩ := getElem?_append_cases hj
  · have hlt := (List.getElem?_eq_some_iff.mp hj).1
    rw [List.getElem?_append_left (by omega)] at hi
    obtain ⟨m, him, hmj, hm⟩ := hs i j v hij hi hj u hu huv
    exact ⟨m, him, hmj, getElem?_append_left hm⟩
  · rw [List.getElem?_append_left hij] at hi
    obtain ⟨m, him, hm⟩ | rfl | hsub := h i v hi u hu huv
    · exact ⟨m, him, (List.getElem?_eq_some_iff.mp hm).1, getElem?_append_left hm⟩
    · simp at hnd
    · exfalso
      have hv : v ∈ rest := by
        cases hsub with
        | cons _ hs => exact hs.subset (by simp)
        | cons_cons _ hs => exact absurd rfl huv
      simp only [List.nodup_cons] at hnd
      exact hnd.2.1 hv

/-- The elements served, beginning with the first of the queue, come in strict rotation. -/
theorem Turns.strict (h : Turns (a :: q) out q') (hq : (a :: q).Nodup) :
    Strict (a :: q) (a :: out) := by
  have hwaits : Strict (a :: q) (a :: out) ∧
      ∃ b rest, q' = b :: rest ∧ Waits (a :: q) (a :: out) b rest := by
    induction h with
    | refl =>
      refine ⟨?_, a, q, rfl, ?_⟩
      · intro i j v hij hi hj
        have := (List.getElem?_eq_some_iff.mp hj).1
        simp only [List.length_cons, List.length_nil] at this
        omega
      · intro i v hv u _ _
        have := (List.getElem?_eq_some_iff.mp hv).1
        obtain rfl : i = 0 := by simpa using this
        exact .inr (.inl (by simpa using hv.symm))
    | rotate h ih =>
      obtain ⟨hs, b', rest', heq, hw⟩ := ih
      obtain ⟨rfl, rfl⟩ := List.cons.inj heq
      exact ⟨hs.rotate hw (h.nodup hq), _, _, rfl, hw.rotate (fun u hu => h.mem hu)⟩
    | join h hu ih =>
      obtain ⟨hs, b, rest, rfl, hw⟩ := ih
      refine ⟨hs, b, rest ++ [_], rfl, ?_⟩
      intro i v hv u hu huv
      obtain hm | hb | hsub := hw i v hv u hu huv
      · exact .inl hm
      · exact .inr (.inl hb)
      · exact .inr (.inr (hsub.trans (List.sublist_append_left rest _)))
  exact hwaits.1

end RoundRobin
