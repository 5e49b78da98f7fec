import Bifrost.Lib.Proc

/-!
# Triples

A `Policy` says what a procedure may raise and emit. `Triple A r P x Q`: from
every state in `P`, in the environment `r`, the run of `x` raises and emits what
the policy `A` allows, and a value `a` leaves a state in `Q a`. With a policy
that raises nothing the triple is total correctness (`Triple.total`). An
assertion that no step of a procedure changes goes along as `P` and in `Q`.
-/

namespace Bifrost.Lib

structure Policy (ε ω : Type) where
  raises : ε → Prop
  emits : ω → Prop

namespace Proc

variable {ρ ε σ ω α β : Type}

def Triple (A : Policy ε ω) (r : ρ) (P : σ → Prop) (x : Proc ρ ε σ ω α) (Q : α → σ → Prop) :
    Prop :=
  ∀ s, P s → (∀ o ∈ (x r s).out, A.emits o) ∧
    match (x r s).val with
    | .ok a => Q a (x r s).st
    | .error e => A.raises e

namespace Triple

variable {A : Policy ε ω} {r : ρ} {P P' : σ → Prop} {x : Proc ρ ε σ ω α}
  {f : α → Proc ρ ε σ ω β} {Q Q' : α → σ → Prop} {R : β → σ → Prop}

/-! ## What a triple gives -/

theorem out (h : Triple A r P x Q) {s : σ} (hs : P s) : ∀ o ∈ (x r s).out, A.emits o := (h s hs).1

theorem ok (h : Triple A r P x Q) {s s' : σ} {a : α} {w : List ω} (hs : P s)
    (hrun : x r s = ⟨.ok a, s', w⟩) : Q a s' ∧ ∀ o ∈ w, A.emits o := by
  obtain ⟨hout, hval⟩ := h s hs
  rw [hrun] at hout hval
  exact ⟨hval, hout⟩

/-- Where nothing may be raised, the procedure returns. -/
theorem total (h : Triple A r P x Q) (hA : ∀ e, ¬ A.raises e) {s : σ} (hs : P s) :
    ∃ a s' w, x r s = ⟨.ok a, s', w⟩ ∧ Q a s' := by
  have hval := (h s hs).2
  rcases hx : x r s with ⟨e | a, s', w⟩
  · rw [hx] at hval
    exact absurd hval (hA e)
  · rw [hx] at hval
    exact ⟨a, s', w, rfl, hval⟩

/-! ## Rules -/

theorem conseq (h : Triple A r P x Q) (hP : ∀ s, P' s → P s) (hQ : ∀ a s, Q a s → Q' a s) :
    Triple A r P' x Q' := by
  intro s hs
  obtain ⟨hout, hval⟩ := h s (hP s hs)
  refine ⟨hout, ?_⟩
  rcases hx : x r s with ⟨e | a, s', w⟩
  · rwa [hx] at hval
  · rw [hx] at hval
    exact hQ a s' hval

/-- Two procedures that run alike from the precondition. -/
theorem congr {y : Proc ρ ε σ ω α} (h : Triple A r P x Q) (hrun : ∀ s, P s → y r s = x r s) :
    Triple A r P y Q := by
  intro s hs
  rw [hrun s hs]
  exact h s hs

theorem weaken (h : Triple A r P x Q) (hQ : ∀ a s, Q a s → Q' a s) : Triple A r P x Q' :=
  h.conseq (fun _ hs => hs) hQ

/-- Under a policy that allows more. -/
theorem mono {A' : Policy ε ω} (h : Triple A r P x Q) (hraises : ∀ e, A.raises e → A'.raises e)
    (hemits : ∀ o, A.emits o → A'.emits o) : Triple A' r P x Q := by
  intro s hs
  obtain ⟨hout, hval⟩ := h s hs
  refine ⟨fun o ho => hemits o (hout o ho), ?_⟩
  rcases hx : x r s with ⟨e | a, s', w⟩
  · rw [hx] at hval
    exact hraises e hval
  · rwa [hx] at hval

/-- From a state whose run is known. -/
theorem of_run (h : ∀ s, P s → ∃ a s' w, x r s = ⟨.ok a, s', w⟩ ∧ Q a s' ∧ ∀ o ∈ w, A.emits o) :
    Triple A r P x Q := by
  intro s hs
  obtain ⟨a, s', w, hx, hQ, hw⟩ := h s hs
  rw [hx]
  exact ⟨hw, hQ⟩

/-- A reader: its outcome does not depend on the state, and it leaves no trace. -/
theorem of_reader {v : Except ε α} (h : ∀ s, x r s = ⟨v, s, []⟩)
    (herror : ∀ e, v = .error e → A.raises e) (hok : ∀ a s, v = .ok a → P s → Q a s) :
    Triple A r P x Q := by
  intro s hs
  rw [h s]
  refine ⟨List.forall_mem_nil _, ?_⟩
  cases v with
  | error e => exact herror e rfl
  | ok a => exact hok a s rfl hs

theorem pure {a : α} (h : ∀ s, P s → Q a s) : Triple A r P (pure a) Q :=
  fun s hs => ⟨List.forall_mem_nil _, h s hs⟩

theorem throw {e : ε} (h : A.raises e) : Triple A r P (throw e : Proc ρ ε σ ω α) Q :=
  fun _ _ => ⟨List.forall_mem_nil _, h⟩

theorem ask {Q : ρ → σ → Prop} (h : ∀ s, P s → Q r s) :
    Triple A r P (ask : Proc ρ ε σ ω ρ) Q :=
  fun s hs => ⟨List.forall_mem_nil _, h s hs⟩

theorem get {Q : σ → σ → Prop} (h : ∀ s, P s → Q s s) : Triple A r P (get : Proc ρ ε σ ω σ) Q :=
  fun s hs => ⟨List.forall_mem_nil _, h s hs⟩

theorem modify {g : σ → σ} {Q : Unit → σ → Prop} (h : ∀ s, P s → Q () (g s)) :
    Triple A r P (modify g : Proc ρ ε σ ω Unit) Q :=
  fun s hs => ⟨List.forall_mem_nil _, h s hs⟩

theorem emit {o : ω} {Q : Unit → σ → Prop} (ho : A.emits o) (h : ∀ s, P s → Q () s) :
    Triple A r P (emit o : Proc ρ ε σ ω Unit) Q := by
  intro s hs
  refine ⟨fun o' ho' => ?_, h s hs⟩
  rw [List.mem_singleton.mp ho']
  exact ho

theorem ofOption {e : ε} {o : Option α} (hnone : o = none → A.raises e)
    (hsome : ∀ a s, o = some a → P s → Q a s) :
    Triple A r P (ofOption e o : Proc ρ ε σ ω α) Q := by
  cases o with
  | none => exact throw (hnone rfl)
  | some a => exact pure fun s hs => hsome a s rfl hs

theorem bind (hx : Triple A r P x Q) (hf : ∀ a, Triple A r (Q a) (f a) R) :
    Triple A r P (x >>= f) R := by
  intro s hs
  obtain ⟨hout, hval⟩ := hx s hs
  rw [bind_run]
  rcases h : x r s with ⟨e | a, s', w⟩
  · rw [h] at hout hval
    exact ⟨hout, hval⟩
  · rw [h] at hout hval
    obtain ⟨hout', hval'⟩ := hf a s' hval
    rw [Res.andThen_ok]
    exact ⟨List.forall_mem_append.mpr ⟨hout, hout'⟩, hval'⟩

theorem ite {c : Prop} [Decidable c] {y : Proc ρ ε σ ω α} (hx : c → Triple A r P x Q)
    (hy : ¬ c → Triple A r P y Q) : Triple A r P (if c then x else y) Q := by
  split
  · next h => exact hx h
  · next h => exact hy h

/-- A fact of the precondition that does not depend on the state. -/
theorem pull {p : Prop} (h : p → Triple A r P x Q) : Triple A r (fun s => p ∧ P s) x Q :=
  fun s hs => h hs.1 s hs.2

theorem choose {γ : Type} {P : γ → σ → Prop} (h : ∀ c, Triple A r (P c) x Q) :
    Triple A r (fun s => ∃ c, P c s) x Q :=
  fun s ⟨c, hs⟩ => h c s hs

end Triple

end Proc

end Bifrost.Lib
