import Bifrost.Loop

/-!
# Executing the loop

`exec` runs the loop on the head of its queue with given transaction outcomes;
what it computes is a run (`run_of_exec`).
-/

namespace Bifrost

open Bifrost.Lib

def handleHead (env : Env) (outcome : TxOutcome) (σ : LoopState) : Option (Handling × LoopState) :=
  match σ.queue with
  | [] => none
  | q :: queue =>
    match process outcome q env σ.st with
    | ⟨.ok next, st, out⟩ =>
      some (⟨q, outcome, out, next⟩, ⟨st, queue ++ (enqueuedOf out ++ next.toList)⟩)
    | ⟨.error _, _, _⟩ => none

def exec (env : Env) : List TxOutcome → LoopState → Option (List Handling × LoopState)
  | [], σ => some ([], σ)
  | outcome :: outcomes, σ =>
    (handleHead env outcome σ).bind fun p =>
      (exec env outcomes p.2).map fun r => (p.1 :: r.1, r.2)

theorem handleHead_some {env : Env} {outcome : TxOutcome} {σ σ' : LoopState} {h : Handling}
    (hh : handleHead env outcome σ = some (h, σ')) :
    ∃ queue, σ = ⟨σ.st, h.event :: queue⟩ ∧ σ' = ⟨σ'.st, queue ++ h.queued⟩ ∧
      process h.outcome h.event env σ.st = ⟨.ok h.next, σ'.st, h.out⟩ := by
  obtain ⟨st, queue⟩ := σ
  unfold handleHead at hh
  cases queue with
  | nil => cases hh
  | cons q queue =>
    rcases hp : process outcome q env st with ⟨e | next, st', out⟩
    · simp [hp] at hh
    · simp only [hp, Option.some.injEq, Prod.mk.injEq] at hh
      obtain ⟨rfl, rfl⟩ := hh
      exact ⟨queue, rfl, rfl, hp⟩

theorem step_of_handleHead {env : Env} {outcome : TxOutcome} {σ σ' : LoopState} {h : Handling}
    (hh : handleHead env outcome σ = some (h, σ')) : LoopStep env σ [h] σ' := by
  obtain ⟨queue, hσ, hσ', hp⟩ := handleHead_some hh
  rw [hσ, hσ']
  exact .handle [] queue h hp

theorem exec_eq (env : Env) (outcomes : List TxOutcome) :
    exec env outcomes = Run.exec (handleHead env) outcomes := by
  induction outcomes with
  | nil => rfl
  | cons outcome outcomes ih =>
    funext σ
    simp only [exec, Run.exec, ih]

theorem run_of_exec {env : Env} {outcomes : List TxOutcome} {σ σ' : LoopState}
    {hist : List Handling} (h : exec env outcomes σ = some (hist, σ')) : LoopRun env σ hist σ' := by
  rw [exec_eq] at h
  exact Run.of_exec (f := handleHead env) (fun _ _ _ _ => step_of_handleHead) h

/-- What `exec` computes is a run, of which a decidable property can be evaluated. -/
theorem exists_run {env : Env} {outcomes : List TxOutcome} {σ : LoopState}
    (P : List Handling → LoopState → Prop) [∀ hist σ', Decidable (P hist σ')]
    (h : (exec env outcomes σ).any fun p => P p.1 p.2) :
    ∃ hist σ', LoopRun env σ hist σ' ∧ P hist σ' := by
  obtain ⟨⟨hist, σ'⟩, hr, hP⟩ := (Option.any_eq_true _ _).mp h
  exact ⟨hist, σ', run_of_exec hr, by simpa using hP⟩

/-- The loop with one queued event, whose log is the one it was made from. -/
def Sample.loopState (e : RbcEvent) : LoopState := ⟨Sample.state e.msg, [.socket e]⟩

end Bifrost
