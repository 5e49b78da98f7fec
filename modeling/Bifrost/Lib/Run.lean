import Mathlib.Algebra.BigOperators.Group.List.Basic

/-!
# Labelled runs

A step relation `step s ls s'` emits a list of labels. `Run step s ls s'` is a
finite run with the labels of all its steps in order. An invariant may speak of
the labels emitted so far (`Run.invariant`); `Run.label` says what one step
gives to each label of a run, and `Run.balance` adds up what its labels add to a
potential of the state. `Run.at_label` cuts a run at one of its labels, and
`Run.forget` takes the runs of one relation to those of another.
`Precedes P Q ls`: before each `Q` there is a `P`. `Inevitably next P k s`:
whichever way the states follow each other from `s`, there is a next one until `P`
holds, after `k` of them at most.
-/

namespace Bifrost.Lib

variable {σ ℓ : Type}

inductive Run (step : σ → List ℓ → σ → Prop) : σ → List ℓ → σ → Prop where
  | nil (s : σ) : Run step s [] s
  | cons {s s' s'' : σ} {ls ms : List ℓ} : step s ls s' → Run step s' ms s'' →
      Run step s (ls ++ ms) s''

namespace Run

variable {step : σ → List ℓ → σ → Prop}

theorem single {s s' : σ} {ls : List ℓ} (h : step s ls s') : Run step s ls s' := by
  simpa using Run.cons h (.nil s')

theorem trans {s s' s'' : σ} {ls ms : List ℓ} (h₁ : Run step s ls s') (h₂ : Run step s' ms s'') :
    Run step s (ls ++ ms) s'' := by
  induction h₁ with
  | nil => exact h₂
  | cons hs _ ih => rw [List.append_assoc]; exact .cons hs (ih h₂)

theorem invariant_from {P : List ℓ → σ → Prop}
    (hstep : ∀ {hist s ls s'}, P hist s → step s ls s' → P (hist ++ ls) s')
    {s s' : σ} {ls : List ℓ} (hrun : Run step s ls s') :
    ∀ hist, P hist s → P (hist ++ ls) s' := by
  induction hrun with
  | nil => intro hist h; rwa [List.append_nil]
  | cons hs _ ih =>
    intro hist h
    rw [← List.append_assoc]
    exact ih _ (hstep h hs)

/-- An invariant of the labels so far and the state holds after every run. -/
theorem invariant {P : List ℓ → σ → Prop} {s s' : σ} {ls : List ℓ} (hrun : Run step s ls s')
    (h0 : P [] s) (hstep : ∀ {hist s ls s'}, P hist s → step s ls s' → P (hist ++ ls) s') :
    P ls s' := by
  simpa using invariant_from hstep hrun [] h0

/-- In a run of labels `Q`, along an invariant, a potential changes by what the labels add. -/
theorem balance {M : Type} [AddMonoid M] {P : List ℓ → σ → Prop} {Q : ℓ → Prop}
    {s s' : σ} {ls : List ℓ} (hrun : Run step s ls s') (potential : σ → M) (flow : ℓ → M)
    (hQ : ∀ l ∈ ls, Q l) (h0 : P [] s)
    (hstep : ∀ {hist s ls s'}, P hist s → (∀ l ∈ ls, Q l) → step s ls s' →
      P (hist ++ ls) s' ∧ potential s' = potential s + (ls.map flow).sum) :
    P ls s' ∧ potential s' = potential s + (ls.map flow).sum := by
  refine hrun.invariant (P := fun hist s' => (∀ l ∈ hist, Q l) → P hist s' ∧
    potential s' = potential s + (hist.map flow).sum) (fun _ => ⟨h0, by simp⟩) ?_ hQ
  intro hist t ls t' ih h hQ
  obtain ⟨hP, heq⟩ := ih fun l hl => hQ l (List.mem_append_left _ hl)
  obtain ⟨hP', heq'⟩ := hstep hP (fun l hl => hQ l (List.mem_append_right _ hl)) h
  refine ⟨hP', ?_⟩
  rw [heq', heq, List.map_append, List.sum_append, add_assoc]

/-- What one step gives to each of its labels, a run gives to each of its own. -/
theorem label {Q : ℓ → Prop} (hstep : ∀ {s ls s'}, step s ls s' → ∀ l ∈ ls, Q l)
    {s s' : σ} {ls : List ℓ} (hrun : Run step s ls s') : ∀ l ∈ ls, Q l := by
  induction hrun with
  | nil => intro l hl; cases hl
  | cons hs _ ih =>
    intro l hl
    rcases List.mem_append.mp hl with h | h
    · exact hstep hs l h
    · exact ih l h

/-- Where a step emits one label at most, each label of a run is that of a step between two runs. -/
theorem at_label (hone : ∀ {s ls s'}, step s ls s' → ls.length ≤ 1) {s s' : σ} {ls : List ℓ}
    (hrun : Run step s ls s') {before rest : List ℓ} {l : ℓ} (hls : ls = before ++ l :: rest) :
    ∃ t t', Run step s before t ∧ step t [l] t' ∧ Run step t' rest s' := by
  induction hrun generalizing before with
  | nil => simp at hls
  | @cons s₀ s₁ s₂ ks ms hs hrun ih =>
    have hlen := hone hs
    rcases ks with _ | ⟨k, _ | ⟨k', ks⟩⟩
    · obtain ⟨t, t', hbefore, hstep, hrest⟩ := ih hls
      exact ⟨t, t', .cons hs hbefore, hstep, hrest⟩
    · rcases before with _ | ⟨b, before⟩
      · obtain ⟨rfl, rfl⟩ := List.cons.inj hls
        exact ⟨_, _, .nil _, hs, hrun⟩
      · obtain ⟨rfl, hms⟩ := List.cons.inj hls
        obtain ⟨t, t', hbefore, hstep, hrest⟩ := ih hms
        exact ⟨t, t', .cons hs hbefore, hstep, hrest⟩
    · simp at hlen

/-- Where `f` takes the states of each step, and `g` its labels, to a run of another relation, it
takes runs to runs. -/
theorem forget {τ κ : Type} {step' : τ → List κ → τ → Prop} (f : σ → τ) (g : ℓ → Option κ)
    (hstep : ∀ {s ls s'}, step s ls s' → Run step' (f s) (ls.filterMap g) (f s'))
    {s s' : σ} {ls : List ℓ} (hrun : Run step s ls s') :
    Run step' (f s) (ls.filterMap g) (f s') := by
  induction hrun with
  | nil => exact .nil _
  | cons hs _ ih =>
    rw [List.filterMap_append]
    exact (hstep hs).trans ih

/-- A partial step function on a list of inputs. -/
def exec {ι : Type} (f : ι → σ → Option (ℓ × σ)) : List ι → σ → Option (List ℓ × σ)
  | [], s => some ([], s)
  | i :: is, s => (f i s).bind fun p => (exec f is p.2).map fun r => (p.1 :: r.1, r.2)

theorem of_exec {ι : Type} {f : ι → σ → Option (ℓ × σ)}
    (hf : ∀ i s l s', f i s = some (l, s') → step s [l] s') {is : List ι} {s s' : σ}
    {ls : List ℓ} (h : exec f is s = some (ls, s')) : Run step s ls s' := by
  induction is generalizing s ls with
  | nil =>
    obtain ⟨rfl, rfl⟩ := Prod.mk.inj (Option.some.inj h)
    exact .nil _
  | cons i is ih =>
    obtain ⟨⟨l, s₁⟩, hi, h⟩ := Option.bind_eq_some_iff.mp h
    obtain ⟨⟨ls', s₂⟩, hr, heq⟩ := Option.map_eq_some_iff.mp h
    cases heq
    exact .cons (hf _ _ _ _ hi) (ih hr)

end Run

/-! ## Order of labels -/

/-- Every `Q` among the labels has a `P` before it. -/
def Precedes (P Q : ℓ → Prop) (ls : List ℓ) : Prop :=
  ∀ before l rest, ls = before ++ l :: rest → Q l → ∃ k ∈ before, P k

namespace Precedes

variable {P Q : ℓ → Prop} {ls : List ℓ}

theorem nil : Precedes P Q [] := by
  intro before l rest h
  cases before <;> cases h

theorem snoc {l : ℓ} (h : Precedes P Q ls) (hl : Q l → ∃ k ∈ ls, P k) :
    Precedes P Q (ls ++ [l]) := by
  intro before l' rest heq hQ
  rcases List.eq_nil_or_concat rest with rfl | ⟨rest, x, rfl⟩
  · obtain ⟨rfl, hx⟩ := List.append_inj' heq rfl
    cases hx
    exact hl hQ
  · rw [List.concat_eq_append, ← List.cons_append, ← List.append_assoc] at heq
    obtain ⟨rfl, -⟩ := List.append_inj' heq rfl
    exact h before l' rest rfl hQ

end Precedes

/-! ## Inevitability -/

inductive Inevitably (next : σ → σ → Prop) (P : σ → Prop) : Nat → σ → Prop where
  | now (k : Nat) {s : σ} : P s → Inevitably next P k s
  | later {k : Nat} {s : σ} : (∃ s', next s s') → (∀ s', next s s' → Inevitably next P k s') →
      Inevitably next P (k + 1) s

/-- Along an invariant, where there is a next state until `P` holds and each one lowers the
measure, the measure bounds the way to `P`. -/
theorem inevitably_of_measure {next : σ → σ → Prop} {P I : σ → Prop} {measure : σ → Nat}
    (hprogress : ∀ s, I s → ¬ P s → ∃ s', next s s')
    (hnext : ∀ s s', I s → next s s' → I s' ∧ measure s' < measure s) {s : σ} (hs : I s) {k : Nat}
    (hk : measure s ≤ k) : Inevitably next P k s := by
  induction k generalizing s with
  | zero =>
    by_cases hP : P s
    · exact .now 0 hP
    · obtain ⟨s', hs'⟩ := hprogress s hs hP
      have hlt := (hnext s s' hs hs').2
      omega
  | succ k ih =>
    by_cases hP : P s
    · exact .now (k + 1) hP
    · refine .later (hprogress s hs hP) fun s' hs' => ?_
      obtain ⟨hI, hlt⟩ := hnext s s' hs hs'
      exact ih hI (by omega)

end Bifrost.Lib
