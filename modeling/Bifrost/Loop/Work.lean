import Bifrost.Lib.WorkQueue
import Bifrost.Loop

/-!
# The loop as a work queue

`ObservedRun` is a run of the loop whose labels also hold the states before and
after each handling; it says the same of the loop (`run_iff_observed`). On its
queue the loop is a work queue (`work_of_observed`), whose runs are counted with
the budgets of `Lib/WorkQueue.lean`.
-/

namespace Bifrost

open Bifrost.Lib

/-- A handling between two states. -/
structure Observed where
  before : RState
  handling : Handling
  after : RState

namespace Observed

variable (o : Observed)

def event : Queued := o.handling.event

def queued : List Queued := o.handling.queued

def sent : List SendTx := o.handling.sent

def Valid (env : Env) : Prop :=
  process o.handling.outcome o.handling.event env o.before =
    ⟨.ok o.handling.next, o.after, o.handling.out⟩

end Observed

inductive ObservedStep (env : Env) : LoopState → List Observed → LoopState → Prop where
  | handle (l₁ l₂ : List Queued) (o : Observed) : o.Valid env →
      ObservedStep env ⟨o.before, l₁ ++ o.event :: l₂⟩ [o] ⟨o.after, l₁ ++ l₂ ++ o.queued⟩
  | period (st : RState) (queue : List Queued) (outcome : TxOutcome) :
      ObservedStep env ⟨st, queue⟩ [] ⟨(VSPFeed.period outcome env st).st, queue⟩
  | wait (st : RState) (queue : List Queued) : ObservedStep env ⟨st, queue⟩ [] ⟨st.tick, queue⟩

abbrev ObservedRun (env : Env) := Run (ObservedStep env)

variable {env : Env} {σ σ' : LoopState}

theorem run_iff_observed {hs : List Handling} :
    LoopRun env σ hs σ' ↔ ∃ os, ObservedRun env σ os σ' ∧ os.map Observed.handling = hs := by
  constructor
  · intro hrun
    induction hrun with
    | nil => exact ⟨[], .nil _, rfl⟩
    | cons hstep _ ih =>
      obtain ⟨os, hos, rfl⟩ := ih
      cases hstep with
      | handle l₁ l₂ h hp => exact ⟨_, .cons (.handle l₁ l₂ ⟨_, h, _⟩ hp) hos, rfl⟩
      | period st queue outcome => exact ⟨_, .cons (.period st queue outcome) hos, rfl⟩
      | wait st queue => exact ⟨_, .cons (.wait st queue) hos, rfl⟩
  · rintro ⟨os, hrun, rfl⟩
    induction hrun with
    | nil => exact .nil _
    | cons hstep _ ih =>
      rw [List.map_append]
      refine .cons ?_ ih
      cases hstep with
      | handle l₁ l₂ o hp => exact .handle l₁ l₂ o.handling hp
      | period st queue outcome => exact .period st queue outcome
      | wait st queue => exact .wait st queue

/-- What the loop takes from its queue and leaves there. -/
def loopWorker (env : Env) : Worker Queued Observed where
  entry := Observed.event
  left := Observed.queued
  ok := fun o => o.Valid env

theorem work_of_observed {os : List Observed} (hrun : ObservedRun env σ os σ') :
    Run (loopWorker env).Step σ.queue os σ'.queue := by
  induction hrun with
  | nil => exact .nil _
  | cons hstep _ ih =>
    refine .cons ?_ ih
    cases hstep with
    | handle l₁ l₂ o hp => exact .take l₁ l₂ o hp
    | period st queue outcome => exact .idle queue
    | wait st queue => exact .idle queue

end Bifrost
