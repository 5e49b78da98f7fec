import Bifrost.Events.RbcSpec
import Bifrost.Events.RoundUp
import Bifrost.Lib.Run
import Bifrost.Periodic.Vsp

/-!
# The event loop

The loop takes one entry from the queue, in any order. In send mode it builds a
transaction, in call mode a call; without parameters the event is dropped,
otherwise the answer or the outcome of the transaction goes to its handler,
whose event is queued again. Between handlings the periodic feed runs, and
other reads of the process pass. A handling that raises ends the run.
-/

namespace Bifrost

open Bifrost.Lib

inductive TxOutcome where
  | success | fail | noReceipt
  deriving DecidableEq, Repr

namespace RbcEvent

variable (self : RbcEvent)

def handleTxResult : TxOutcome → RM (Option RbcEvent)
  | .success => self.handleTxResultSuccess
  | .fail => self.handleTxResultFail
  | .noReceipt => self.handleTxResultNoReceipt

def processSend (outcome : TxOutcome) : RM (Option RbcEvent) := do
  let params ← self.buildTransactionParams
  match params with
  | none => pure none
  | some tx => do
    Proc.emit (.sent tx)
    self.handleTxResult outcome

def processCall : RM (Option RbcEvent) := do
  let params ← self.buildCallTransactionParams
  match params with
  | none => pure none
  | some tx => do
    let result ← RM.getRequest tx
    self.handleCallResult result

def process (outcome : TxOutcome) : RM (Option RbcEvent) :=
  match self.mode with
  | .send => self.processSend outcome
  | .call => self.processCall

end RbcEvent

namespace RoundUpEvent

variable (self : RoundUpEvent)

def handleTxResult : TxOutcome → RM (Option RoundUpEvent)
  | .success => handleTxResultSuccess
  | .fail => handleTxResultFail
  | .noReceipt => handleTxResultNoReceipt

def process (outcome : TxOutcome) : RM (Option RoundUpEvent) :=
  match self.mode with
  | .send => do
    let params ← self.buildTransactionParams
    match params with
    | none => pure none
    | some tx => do
      Proc.emit (.sent tx)
      handleTxResult outcome
  -- its call builder returns `None`, which is no parameter tuple
  | .call => Proc.throw .typeError

end RoundUpEvent

/-- One handling of a queued event. -/
def process (outcome : TxOutcome) : Queued → RM (Option Queued)
  | .socket e => do
    let next ← e.process outcome
    pure (next.map .socket)
  | .roundUp e => do
    let next ← e.process outcome
    pure (next.map .roundUp)

/-- One period of the feed. -/
def VSPFeed.period (outcome : TxOutcome) : RM Unit := do
  let params ← VSPFeed.buildTransactionParams
  match params with
  | none => pure ()
  | some tx => do
    Proc.emit (.sent tx)
    match outcome with
    | .success => VSPFeed.handleTxResultSuccess
    | .fail => VSPFeed.handleTxResultFail
    | .noReceipt => VSPFeed.handleTxResultNoReceipt

/-- The handlers of the feed do nothing. -/
theorem VSPFeed.period_st {env : Env} {s : RState} (outcome : TxOutcome) :
    (VSPFeed.period outcome env s).st = (VSPFeed.buildTransactionParams env s).st := by
  unfold VSPFeed.period
  rw [Proc.bind_run]
  rcases VSPFeed.buildTransactionParams env s with ⟨e | p, t, w⟩
  · rfl
  · cases p with
    | none => rfl
    | some tx => cases outcome <;> rfl

/-! ## Runs -/

/-- What one handling did: the event it took, its effects, and the event it returned. -/
structure Handling where
  event : Queued
  outcome : TxOutcome
  out : List Effect
  next : Option Queued

namespace Handling

/-- The queue entries that the handling leaves. -/
def queued (h : Handling) : List Queued := enqueuedOf h.out ++ h.next.toList

def requests (h : Handling) : List (ChainEnum × RequestId × RequestInfo) := requestsOf h.out

def sent (h : Handling) : List SendTx := sentOf h.out

end Handling

structure LoopState where
  st : RState
  queue : List Queued

inductive LoopStep (env : Env) : LoopState → List Handling → LoopState → Prop where
  | handle {st st' : RState} (l₁ l₂ : List Queued) (h : Handling) :
      process h.outcome h.event env st = ⟨.ok h.next, st', h.out⟩ →
      LoopStep env ⟨st, l₁ ++ h.event :: l₂⟩ [h] ⟨st', l₁ ++ l₂ ++ h.queued⟩
  | period (st : RState) (queue : List Queued) (outcome : TxOutcome) :
      LoopStep env ⟨st, queue⟩ [] ⟨(VSPFeed.period outcome env st).st, queue⟩
  | wait (st : RState) (queue : List Queued) : LoopStep env ⟨st, queue⟩ [] ⟨st.tick, queue⟩

abbrev LoopRun (env : Env) := Run (LoopStep env)

end Bifrost
