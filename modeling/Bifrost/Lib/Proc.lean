import Mathlib.Tactic.Basic

/-!
# Effectful procedures

`Proc ρ ε σ ω α` is a procedure with an environment `ρ`, exceptions `ε`, a
mutable state `σ` and a log of emitted effects `ω`. An exception keeps the
state and the log of what ran before it. `bind_ok` takes a sequence that ran
to its end apart. `Keeps P x`: whatever its outcome, `x` keeps `P` of the state;
`Emits P x`: whatever its outcome, every effect of `x` satisfies `P`;
`Returns Q x`: whatever the run, a value of `x` satisfies `Q`.
-/

namespace Bifrost.Lib

/-- The outcome of a procedure: its value or exception, the state it leaves, its effects. -/
structure Res (ε σ ω α : Type) where
  val : Except ε α
  st : σ
  out : List ω

namespace Res

variable {ε σ ω α β : Type}

/-- The outcome with earlier effects in front. -/
def after (w : List ω) (x : Res ε σ ω α) : Res ε σ ω α := ⟨x.val, x.st, w ++ x.out⟩

/-- Goes on from a value; an exception ends the sequence. -/
def andThen (x : Res ε σ ω α) (k : α → σ → Res ε σ ω β) : Res ε σ ω β :=
  match x with
  | ⟨.ok a, s, w⟩ => (k a s).after w
  | ⟨.error e, s, w⟩ => ⟨.error e, s, w⟩

@[simp] theorem after_mk (w w' : List ω) (v : Except ε α) (s : σ) :
    (⟨v, s, w'⟩ : Res ε σ ω α).after w = ⟨v, s, w ++ w'⟩ := rfl

@[simp] theorem after_nil (x : Res ε σ ω α) : x.after [] = x := rfl

@[simp] theorem after_st (w : List ω) (x : Res ε σ ω α) : (x.after w).st = x.st := rfl

@[simp] theorem after_out (w : List ω) (x : Res ε σ ω α) : (x.after w).out = w ++ x.out := rfl

@[simp] theorem andThen_ok (a : α) (s : σ) (w : List ω) (k : α → σ → Res ε σ ω β) :
    (⟨.ok a, s, w⟩ : Res ε σ ω α).andThen k = (k a s).after w := rfl

@[simp] theorem andThen_error (e : ε) (s : σ) (w : List ω) (k : α → σ → Res ε σ ω β) :
    (⟨.error e, s, w⟩ : Res ε σ ω α).andThen k = ⟨.error e, s, w⟩ := rfl

theorem eq_of_val {x : Res ε σ ω α} {v : Except ε α} (h : x.val = v) : x = ⟨v, x.st, x.out⟩ := by
  subst h
  rfl

theorem ok_of_toOption {x : Res ε σ ω α} {a : α} (h : x.val.toOption = some a) :
    ∃ s w, x = ⟨.ok a, s, w⟩ := by
  obtain ⟨v, s, w⟩ := x
  cases v with
  | error e => cases h
  | ok b =>
    cases h
    exact ⟨s, w, rfl⟩

end Res

def Proc (ρ ε σ ω α : Type) := ρ → σ → Res ε σ ω α

namespace Proc

variable {ρ ε σ ω α β : Type}

instance : Monad (Proc ρ ε σ ω) where
  pure a := fun _ s => ⟨.ok a, s, []⟩
  bind x f := fun r s => (x r s).andThen fun a s' => f a r s'

def ask : Proc ρ ε σ ω ρ := fun r s => ⟨.ok r, s, []⟩

def get : Proc ρ ε σ ω σ := fun _ s => ⟨.ok s, s, []⟩

def modify (f : σ → σ) : Proc ρ ε σ ω Unit := fun _ s => ⟨.ok (), f s, []⟩

def throw (e : ε) : Proc ρ ε σ ω α := fun _ s => ⟨.error e, s, []⟩

def emit (o : ω) : Proc ρ ε σ ω Unit := fun _ s => ⟨.ok (), s, [o]⟩

/-- The value of an `Option`, or the exception `e`. -/
def ofOption (e : ε) : Option α → Proc ρ ε σ ω α
  | some a => pure a
  | none => throw e

/-- `x` in an environment that has its own as a part, its effects among others. -/
def lift {ρ' ω' : Type} (f : ρ' → ρ) (g : ω → ω') (x : Proc ρ ε σ ω α) : Proc ρ' ε σ ω' α :=
  fun r s => ⟨(x (f r) s).val, (x (f r) s).st, (x (f r) s).out.map g⟩

section Run

variable (r : ρ) (s : σ)

@[simp] theorem pure_run (a : α) : (pure a : Proc ρ ε σ ω α) r s = ⟨.ok a, s, []⟩ := rfl

@[simp] theorem bind_run (x : Proc ρ ε σ ω α) (f : α → Proc ρ ε σ ω β) :
    (x >>= f) r s = (x r s).andThen fun a s' => f a r s' := rfl

@[simp] theorem ask_run : (ask : Proc ρ ε σ ω ρ) r s = ⟨.ok r, s, []⟩ := rfl

@[simp] theorem get_run : (get : Proc ρ ε σ ω σ) r s = ⟨.ok s, s, []⟩ := rfl

@[simp] theorem modify_run (f : σ → σ) :
    (modify f : Proc ρ ε σ ω Unit) r s = ⟨.ok (), f s, []⟩ := rfl

@[simp] theorem throw_run (e : ε) : (throw e : Proc ρ ε σ ω α) r s = ⟨.error e, s, []⟩ := rfl

@[simp] theorem emit_run (o : ω) : (emit o : Proc ρ ε σ ω Unit) r s = ⟨.ok (), s, [o]⟩ := rfl

@[simp] theorem ite_run (c : Prop) [Decidable c] (x y : Proc ρ ε σ ω α) :
    (if c then x else y) r s = if c then x r s else y r s := by
  split <;> rfl

@[simp] theorem lift_run {ρ' ω' : Type} (f : ρ' → ρ) (g : ω → ω') (x : Proc ρ ε σ ω α)
    (r' : ρ') : lift f g x r' s = ⟨(x (f r') s).val, (x (f r') s).st, (x (f r') s).out.map g⟩ :=
  rfl

@[simp] theorem ofOption_some (e : ε) (a : α) :
    (ofOption e (some a) : Proc ρ ε σ ω α) = pure a := rfl

@[simp] theorem ofOption_none (e : ε) : (ofOption e none : Proc ρ ε σ ω α) = throw e := rfl

end Run

variable {x : Proc ρ ε σ ω α} {f : α → Proc ρ ε σ ω β} {r : ρ} {s s' : σ} {w : List ω}

theorem pure_ok {a b : α} (h : (pure a : Proc ρ ε σ ω α) r s = ⟨.ok b, s', w⟩) :
    b = a ∧ s' = s ∧ w = [] := by
  cases h; exact ⟨rfl, rfl, rfl⟩

theorem ofOption_ok {e : ε} {o : Option α} {a : α}
    (h : (ofOption e o : Proc ρ ε σ ω α) r s = ⟨.ok a, s', w⟩) :
    o = some a ∧ s' = s ∧ w = [] := by
  cases o with
  | none => cases h
  | some b => cases h; exact ⟨rfl, rfl, rfl⟩

/-- A sequence ran to its end: so did its two parts. -/
theorem bind_ok {b : β} (h : (x >>= f) r s = ⟨.ok b, s', w⟩) :
    ∃ a t w₁ w₂, x r s = ⟨.ok a, t, w₁⟩ ∧ f a r t = ⟨.ok b, s', w₂⟩ ∧ w = w₁ ++ w₂ := by
  rw [bind_run] at h
  rcases hx : x r s with ⟨e | a, t, w₁⟩
  · rw [hx, Res.andThen_error] at h
    cases h
  · rw [hx, Res.andThen_ok] at h
    rcases hf : f a r t with ⟨v, u, w₂⟩
    rw [hf] at h
    cases h
    exact ⟨a, t, w₁, w₂, rfl, hf, rfl⟩

theorem bind_returns_iff : (∃ b s' w, (x >>= f) r s = ⟨.ok b, s', w⟩) ↔
    ∃ a t w, x r s = ⟨.ok a, t, w⟩ ∧ ∃ b s' w', f a r t = ⟨.ok b, s', w'⟩ := by
  constructor
  · rintro ⟨b, s', w, h⟩
    obtain ⟨a, t, w₁, w₂, hx, hf, -⟩ := bind_ok h
    exact ⟨a, t, w₁, hx, b, s', w₂, hf⟩
  · rintro ⟨a, t, w₁, hx, b, s', w₂, hf⟩
    refine ⟨b, s', w₁ ++ w₂, ?_⟩
    rw [bind_run, hx, Res.andThen_ok, hf, Res.after_mk]

/-- An effect of a sequence is one of its first part, or one of its second part behind a value of
the first. -/
theorem mem_out_bind {o : ω} (h : o ∈ ((x >>= f) r s).out) :
    o ∈ (x r s).out ∨ ∃ a t w, x r s = ⟨.ok a, t, w⟩ ∧ o ∈ (f a r t).out := by
  rw [bind_run] at h
  rcases hx : x r s with ⟨e | a, t, w⟩
  · rw [hx] at h
    exact .inl h
  · rw [hx, Res.andThen_ok, Res.after_out] at h
    exact (List.mem_append.mp h).imp_right fun h => ⟨a, t, w, rfl, h⟩

/-! ## Invariants -/

/-- Whatever its outcome, `x` keeps `P` of the state. -/
def Keeps (P : ρ → σ → Prop) (x : Proc ρ ε σ ω α) : Prop := ∀ r s, P r s → P r (x r s).st

namespace Keeps

variable {P : ρ → σ → Prop}

theorem pure (a : α) : Keeps P (pure a : Proc ρ ε σ ω α) := fun _ _ h => h

theorem throw (e : ε) : Keeps P (throw e : Proc ρ ε σ ω α) := fun _ _ h => h

theorem emit (o : ω) : Keeps P (emit o : Proc ρ ε σ ω Unit) := fun _ _ h => h

theorem ask : Keeps P (ask : Proc ρ ε σ ω ρ) := fun _ _ h => h

theorem get : Keeps P (get : Proc ρ ε σ ω σ) := fun _ _ h => h

theorem ofOption (e : ε) (o : Option α) : Keeps P (ofOption e o : Proc ρ ε σ ω α) := by
  cases o with
  | none => exact .throw e
  | some a => exact .pure a

theorem modify {f : σ → σ} (h : ∀ r s, P r s → P r (f s)) :
    Keeps P (modify f : Proc ρ ε σ ω Unit) := h

theorem bind (hx : Keeps P x) (hf : ∀ a, Keeps P (f a)) : Keeps P (x >>= f) := by
  intro r s hs
  have hx' := hx r s hs
  rw [bind_run]
  rcases h : x r s with ⟨e | a, t, w⟩
  · rwa [h] at hx'
  · rw [h] at hx'
    exact hf a r t hx'

theorem ite {c : Prop} [Decidable c] {y : Proc ρ ε σ ω α} (hx : Keeps P x) (hy : Keeps P y) :
    Keeps P (if c then x else y) := by
  split
  · exact hx
  · exact hy

end Keeps

/-! ## Effects -/

/-- Whatever its outcome, every effect of `x` satisfies `P`. -/
def Emits (P : ω → Prop) (x : Proc ρ ε σ ω α) : Prop := ∀ r s, ∀ o ∈ (x r s).out, P o

namespace Emits

variable {P Q : ω → Prop}

theorem run {v : Except ε α} (hx : Emits P x) (h : x r s = ⟨v, s', w⟩) : ∀ o ∈ w, P o := by
  have hem := hx r s
  rwa [h] at hem

theorem mono (h : ∀ o, P o → Q o) (hx : Emits P x) : Emits Q x :=
  fun r s o ho => h o (hx r s o ho)

theorem pure (a : α) : Emits P (pure a : Proc ρ ε σ ω α) := fun _ _ _ h => by cases h

theorem throw (e : ε) : Emits P (throw e : Proc ρ ε σ ω α) := fun _ _ _ h => by cases h

theorem ask : Emits P (ask : Proc ρ ε σ ω ρ) := fun _ _ _ h => by cases h

theorem get : Emits P (get : Proc ρ ε σ ω σ) := fun _ _ _ h => by cases h

theorem modify (f : σ → σ) : Emits P (modify f : Proc ρ ε σ ω Unit) := fun _ _ _ h => by cases h

theorem emit {o : ω} (h : P o) : Emits P (emit o : Proc ρ ε σ ω Unit) := by
  intro r s o' ho'
  rw [List.mem_singleton.mp ho']
  exact h

theorem ofOption (e : ε) (o : Option α) : Emits P (ofOption e o : Proc ρ ε σ ω α) := by
  cases o with
  | none => exact .throw e
  | some a => exact .pure a

theorem bind (hx : Emits P x) (hf : ∀ a, Emits P (f a)) : Emits P (x >>= f) := by
  intro r s o ho
  rcases mem_out_bind ho with ho | ⟨a, t, w, -, ho⟩
  · exact hx r s o ho
  · exact hf a r t o ho

theorem ite {c : Prop} [Decidable c] {y : Proc ρ ε σ ω α} (hx : Emits P x) (hy : Emits P y) :
    Emits P (if c then x else y) := by
  split
  · exact hx
  · exact hy

end Emits

/-! ## Values -/

/-- Whatever the run, a value of `x` satisfies `Q`. -/
def Returns (Q : α → Prop) (x : Proc ρ ε σ ω α) : Prop := ∀ r s a, (x r s).val = .ok a → Q a

namespace Returns

variable {Q : α → Prop} {Q' : β → Prop}

theorem run {a : α} (hx : Returns Q x) (h : x r s = ⟨.ok a, s', w⟩) : Q a := by
  refine hx r s a ?_
  rw [h]

theorem pure {a : α} (h : Q a) : Returns Q (pure a : Proc ρ ε σ ω α) := by
  intro r s b hb
  cases hb
  exact h

theorem bind (hf : ∀ a, Returns Q' (f a)) : Returns Q' (x >>= f) := by
  intro r s b hb
  rw [bind_run] at hb
  rcases hx : x r s with ⟨e | a, t, w⟩
  · rw [hx] at hb
    cases hb
  · rw [hx] at hb
    exact hf a r t b hb

theorem ite {c : Prop} [Decidable c] {y : Proc ρ ε σ ω α} (hx : Returns Q x) (hy : Returns Q y) :
    Returns Q (if c then x else y) := by
  split
  · exact hx
  · exact hy

end Returns

end Proc

end Bifrost.Lib
