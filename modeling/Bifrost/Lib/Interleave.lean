import Bifrost.Lib.Run

/-!
# Interleaving

Components `step i` that share no state, one of which moves at a time. A label
of the system is one of a component with its index. Each component of a run of
the system runs by itself, with the labels that are its own (`Run.component`),
so what every run of a component keeps holds of it in every interleaving.
-/

namespace Bifrost.Lib

variable {ι σ ℓ : Type} [DecidableEq ι]

inductive Interleave (step : ι → σ → List ℓ → σ → Prop) :
    (ι → σ) → List (ι × ℓ) → (ι → σ) → Prop where
  | move {g : ι → σ} {s' : σ} {l : List ℓ} (i : ι) : step i (g i) l s' →
      Interleave step g (l.map (i, ·)) (Function.update g i s')

/-- The labels of the component `i`. -/
def labelsOf (i : ι) (ls : List (ι × ℓ)) : List ℓ :=
  ls.filterMap fun l => if l.1 = i then some l.2 else none

@[simp] theorem labelsOf_nil (i : ι) : labelsOf i ([] : List (ι × ℓ)) = [] := rfl

@[simp] theorem labelsOf_append (i : ι) (ls ms : List (ι × ℓ)) :
    labelsOf i (ls ++ ms) = labelsOf i ls ++ labelsOf i ms :=
  List.filterMap_append ..

@[simp] theorem labelsOf_map_self (i : ι) (ls : List ℓ) : labelsOf i (ls.map (i, ·)) = ls := by
  induction ls with
  | nil => rfl
  | cons l ls ih => simp [labelsOf]

theorem labelsOf_map_of_ne {i j : ι} (h : i ≠ j) (ls : List ℓ) :
    labelsOf j (ls.map (i, ·)) = [] := by
  induction ls with
  | nil => rfl
  | cons l ls ih => simp [labelsOf, h]

@[simp] theorem mem_labelsOf {i : ι} {l : ℓ} {ls : List (ι × ℓ)} :
    l ∈ labelsOf i ls ↔ (i, l) ∈ ls := by
  unfold labelsOf
  rw [List.mem_filterMap]
  constructor
  · rintro ⟨⟨j, m⟩, hm, h⟩
    split at h
    · next hj =>
      cases h
      rwa [← show j = i from hj]
    · cases h
  · intro h
    exact ⟨(i, l), h, if_pos rfl⟩

variable {step : ι → σ → List ℓ → σ → Prop}

theorem Run.component {g g' : ι → σ} {ls : List (ι × ℓ)} (hrun : Run (Interleave step) g ls g')
    (i : ι) : Run (step i) (g i) (labelsOf i ls) (g' i) := by
  induction hrun with
  | nil => exact .nil _
  | cons hs _ ih =>
    rw [labelsOf_append]
    cases hs with
    | move j hstep =>
      by_cases hj : j = i
      · subst hj
        rw [labelsOf_map_self]
        rw [Function.update_self] at ih
        exact .cons hstep ih
      · rw [labelsOf_map_of_ne hj, List.nil_append]
        rwa [Function.update_of_ne (Ne.symm hj)] at ih

theorem Run.mono {step' : σ → List ℓ → σ → Prop} {step : σ → List ℓ → σ → Prop} {s s' : σ}
    {ls : List ℓ} (hrun : Run step s ls s') (h : ∀ s ls s', step s ls s' → step' s ls s') :
    Run step' s ls s' := by
  induction hrun with
  | nil => exact .nil _
  | cons hs _ ih => exact .cons (h _ _ _ hs) ih

end Bifrost.Lib
