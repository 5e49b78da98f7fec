import Bifrost.Relayer.Fetch
import Bifrost.Submits.Submit

/-!
# Handlers of Socket events

`rbclib/events/rbc_event.py`. The methods of each class stand in a namespace of
its name; the subclasses that only inherit a method have none of their own, and
the dispatch on the class comes at the end. Log lines are left out, except for
what evaluating them can raise.
-/

namespace Bifrost

open Bifrost.Lib

/-- The text of a log line is left out; what `summary()` evaluates is not. -/
def RM.logged {α : Type} (x : RM α) : RM Unit := do
  let _ ← x
  pure ()

/-- `detected_event.data = change_status_of_data(detected_event, status)`. -/
def RState.setStatus (s : RState) (ref : Ref) (status : ChainEventStatus) : RState :=
  { s with heap := Function.update s.heap ref ((s.heap ref).setStatus status) }

/-- `exporting_request_metric`, with the exporter on or off. -/
def RM.exportingRequestMetric (chain : ChainEnum) (status : ChainEventStatus) : RM Unit := do
  let cfg ← RM.getConfig
  if cfg.prometheusOn then Proc.emit (.metric chain status) else pure ()

namespace RbcEvent

variable (self : RbcEvent)

/-! ## Decoded fields -/

/-- Raises on a chain id that is no member of `chain_enum`. -/
def reqId : RM (ChainEnum × Nat × Nat) := do
  let cfg ← RM.getConfig
  let chain ← Proc.ofOption .valueError (self.srcChain? cfg.network)
  pure (chain, self.msg.roundId.val, self.msg.sequence.val)

def srcChain : RM ChainEnum := do
  let (chain, _, _) ← self.reqId
  pure chain

def rnd : RM Nat := do
  let (_, rnd, _) ← self.reqId
  pure rnd

def inst : RM (ChainEnum × RBCMethodV1) := do
  let cfg ← RM.getConfig
  Proc.ofOption .valueError (self.inst? cfg.network)

def dstChain : RM ChainEnum := do
  let (chain, _) ← self.inst
  pure chain

def isInbound : RM Bool := do
  let src ← self.srcChain
  pure (src ≠ .bifrost)

def summary : RM Unit := RM.logged self.reqId

/-- `(chain.formatted_bytes(), rnd, seq)`. -/
def requestId : RM RequestId := do
  let (chain, rnd, seq) ← self.reqId
  let cfg ← RM.getConfig
  pure ⟨chain.formattedBytes cfg.network, rnd, seq⟩

/-! ## Construction -/

/-- The constructor of the class `cls`. -/
def construct (cls : EventClass) (detectedEvent : Ref) (timeLock : Nat) : RM RbcEvent := do
  let log ← RM.detectedEvent detectedEvent
  if h : log.decoded.status.val = cls.status.value then
    pure ⟨cls, detectedEvent, log.decoded, timeLock, .send, true, h⟩
  else RM.raise "Event status not matches"

/-- The status in the data of the log. -/
def statusOfLog (detectedEvent : Ref) : RM ChainEventStatus := do
  let log ← RM.detectedEvent detectedEvent
  Proc.ofOption .valueError (ChainEventStatus.ofValue? (statusData log.data))

def init (detectedEvent : Ref) (timeLock : Nat) : RM RbcEvent := do
  let cfg ← RM.getConfig
  let status ← statusOfLog detectedEvent
  -- `None` is not callable
  let castingType ← Proc.ofOption .typeError (selectChild status)
  if timeLock = 0 then construct castingType detectedEvent timeLock
  else if cfg.relayerRole = .slowRelayer ∧ castingType.isAggregated then do
    let delaySec ← Proc.ofOption .typeError cfg.slowRelayerDelaySec
    let ret ← construct castingType detectedEvent (timeLock + delaySec * 1000)
    ret.summary
    pure ret
  else construct castingType detectedEvent timeLock

/-- `ExternalRbcEvent.init`. -/
def externalInit (detectedEvent : Ref) (timeLock : Nat) : RM (Option RbcEvent) := do
  let status ← statusOfLog detectedEvent
  if status ∈ [.accepted, .rejected, .committed, .rollbacked] then do
    let castingType ← Proc.ofOption .typeError (selectChild status)
    let ret ← construct castingType detectedEvent timeLock
    pure (some ret)
  else pure none

/-- The clone shares the log, which is overwritten in place. -/
def cloneWithOtherStatus (nextStatus : ChainEventStatus) (timeLock : Option Nat) :
    RM RbcEvent := do
  let timeLock ← match timeLock with
    | some t => pure t
    | none => RM.timestampMsec
  Proc.modify fun s => s.setStatus self.detectedEvent nextStatus
  init self.detectedEvent timeLock

/-! ## Authority -/

def checkMyEvent : RM Bool := do
  let cfg ← RM.getConfig
  if cfg.isFastRelayer then pure true
  else do
    let src ← self.srcChain
    if src ∉ cfg.supportedChainList then pure false
    else do
      let rnd ← self.rnd
      let cachedIndex ← RM.getValueByKey rnd
      if cachedIndex.isSome then pure true
      else do
        let relayerIndex ← RM.fetchRelayerIndex .bifrost (some rnd) none
        match relayerIndex with
        | some i => do
          RM.setValueByKey rnd (some i)
          pure true
        | none => pure false

/-- `if not self.check_my_event(): return None`, and the rest of a handler. -/
def guarded {α : Type} (body : RM (Option α)) : RM (Option α) := do
  let mine ← self.checkMyEvent
  if mine then body else pure none

def isPrimaryRelayer : RM Bool := do
  let cfg ← RM.getConfig
  if cfg.isFastRelayer then pure true
  else do
    let totalValidatorNum ← RM.fetchRelayerNum .bifrost true
    let log ← RM.detectedEvent self.detectedEvent
    if totalValidatorNum = 0 then Proc.throw .zeroDivision
    else do
      let primaryIndex := log.blockNumber % totalValidatorNum
      let rnd ← self.rnd
      let myIndex ← RM.getValueByKey rnd
      pure (some primaryIndex = myIndex)

/-! ## Votes -/

/-- Signs `msg` and builds the poll with this one signature, a tail that three builders share. -/
def pollWithSig (msg : Bytes) : RM SendParamTuple := do
  let env ← Proc.ask
  let sig ← RM.sign msg
  let sigs ← Proc.ofOption (.exception "Not matched list size")
    (SocketSignature.init.addSingleSig sig.r sig.s (env.lib.toEthV sig.v))
  let submitData ← PollSubmit.submitTuple self sigs false
  pure (some ⟨.bifrost, SOCKET_CONTRACT_NAME, SUBMIT_FUNCTION_NAME, submitData⟩)

/-- The data of the event's log with the status `s`. -/
def dataWithStatus (s : ChainEventStatus) : RM Bytes := do
  let log ← RM.detectedEvent self.detectedEvent
  pure (changeStatusOfData log.data s)

def buildTransactionParamWithSig : RM SendParamTuple := do
  let nextStatus ← Proc.ofOption .valueError (ChainEventStatus.ofValue? (self.status.value + 2))
  let dataWithNextStatus ← self.dataWithStatus nextStatus
  self.pollWithSig dataWithNextStatus

/-! ## Handlers of the base class -/

namespace Base

def buildCallTransactionParams : RM CallParamTuple :=
  self.guarded do
    self.summary
    pure none

def handleCallResult : RM (Option RbcEvent) :=
  self.guarded do
    self.summary
    pure none

def handleTxResultFail : RM (Option RbcEvent) :=
  self.guarded do
    self.summary
    pure none

def handleTxResultSuccess : RM (Option RbcEvent) :=
  self.guarded do
    let src ← self.srcChain
    RM.exportingRequestMetric src self.status
    pure none

end Base

end RbcEvent

/-- `get_request` of the event's request on `chain`. -/
def RbcEvent.getRequestCall (self : RbcEvent) (chain : RM ChainEnum) : RM CallParamTuple := do
  let chain ← chain
  let rid ← self.requestId
  pure (some ⟨chain, SOCKET_CONTRACT_NAME, GET_REQ_INFO_FUNCTION_NAME, rid⟩)

/-! ## Votes on a request -/

def ChainFailedEvent.buildTransactionParams (self : RbcEvent) : RM SendParamTuple :=
  self.guarded do
    let inbound ← self.isInbound
    if !inbound then pure none
    else do
      let log ← RM.detectedEvent self.detectedEvent
      self.pollWithSig log.data

namespace ChainRequestedEvent

variable (self : RbcEvent)

def buildCallTransactionParams : RM CallParamTuple :=
  self.guarded (self.getRequestCall self.dstChain)

def buildTransactionParams : RM SendParamTuple :=
  self.guarded do
    let inbound ← self.isInbound
    if inbound then do
      let submitData ← PollSubmit.submitTuple self .init false
      pure (some ⟨.bifrost, SOCKET_CONTRACT_NAME, SUBMIT_FUNCTION_NAME, submitData⟩)
    else do
      let statusChangedData ← self.dataWithStatus .accepted
      self.pollWithSig statusChangedData

def handleTxResultFail : RM (Option RbcEvent) :=
  self.guarded do
    let clone ← self.cloneWithOtherStatus .failed (some self.timeLock)
    pure (some clone)

/-- `voting_list[status]`. -/
def votingNum (info : RequestInfo) (status : ChainEventStatus) : Nat :=
  (info.field ⟨status.value, status.value_lt_fields⟩).val

def handleCallResult (info : RequestInfo) : RM (Option RbcEvent) :=
  self.guarded do
    let rnd ← self.rnd
    let quorum ← RM.fetchQuorum .bifrost (some rnd) true
    if quorum = 0 then pure none
    else if quorum ≤ votingNum info self.status then pure none
    else handleTxResultFail self

def handleTxResultSuccess : RM (Option RbcEvent) :=
  self.guarded do
    let src ← self.srcChain
    RM.exportingRequestMetric src self.status
    let inbound ← self.isInbound
    if inbound then do
      let cfg ← RM.getConfig
      pure (some (self.switchToCall (self.timeLock + 1000 * cfg.rbcEventCallDelaySec)))
    else pure none

end ChainRequestedEvent

def ChainExecutedEvent.buildTransactionParams (self : RbcEvent) : RM SendParamTuple :=
  self.guarded self.buildTransactionParamWithSig

def ChainRevertedEvent.buildTransactionParams (self : RbcEvent) : RM SendParamTuple :=
  self.guarded self.buildTransactionParamWithSig

/-! ## Relays of a settled vote -/

namespace AggregatedRelayEvent

variable (self : RbcEvent)

/-- The chain that is asked, and relayed to. -/
def targetChain : RM ChainEnum := do
  let inbound ← self.isInbound
  if inbound then self.srcChain else self.dstChain

def buildCallTransactionParams : RM CallParamTuple :=
  self.guarded (self.getRequestCall (targetChain self))

/-- The status that `check_already_done` waits for. -/
def expectedStatus (status : ChainEventStatus) (inbound : Bool) : ChainEventStatus :=
  if status = .accepted then
    if inbound then .committed else .executed
  else
    if inbound then .rollbacked else .reverted

def checkAlreadyDone (info : RequestInfo) : RM (ChainEventStatus × ChainEventStatus) := do
  let status ← Proc.ofOption .valueError (ChainEventStatus.ofValue? info.status)
  let inbound ← self.isInbound
  pure (status, expectedStatus self.status inbound)

def aggregatedRelay (target : ChainEnum) : RM SendParamTuple := do
  let rid ← self.requestId
  let sigs ← RM.fetchSocketRbcSigs rid self.status
  let sigs ← Proc.ofOption (.exception "Not matched list size")
    (SocketSignature.init.addTupleSigs sigs)
  let submitData ← PollSubmit.submitTuple self sigs false
  pure (some ⟨target, SOCKET_CONTRACT_NAME, SUBMIT_FUNCTION_NAME, submitData⟩)

/-- The event as it is queued when another relayer is the primary one. -/
def deferred (cfg : Config) : RbcEvent :=
  self.switchToCall (self.timeLock + 1000 * cfg.rbcEventCallDelaySec)

/-- What follows a read that does not show the expected status. -/
def relayOrDefer : RM SendParamTuple := do
  let primary ← self.isPrimaryRelayer
  if primary || !self.aggregated then do
    let chainToSend ← targetChain self
    aggregatedRelay self chainToSend
  else do
    let cfg ← RM.getConfig
    RM.enqueue (.socket (deferred self cfg))
    pure none

def buildTransactionParams : RM SendParamTuple :=
  self.guarded do
    let call ← buildCallTransactionParams self
    -- `NoneParams` names no chain
    let tx ← Proc.ofOption .keyError call
    let result ← RM.getRequest tx
    let (status, expected) ← checkAlreadyDone self result
    if status = expected then pure none else relayOrDefer self

def handleCallResult (info : RequestInfo) : RM (Option RbcEvent) :=
  self.guarded do
    let (status, expected) ← checkAlreadyDone self info
    if status = expected then pure none
    else do
      RM.logged (targetChain self)
      let now ← RM.timestampMsec
      pure (some { self.switchToSend now with aggregated := false })

end AggregatedRelayEvent

def ChainAcceptedEvent.handleTxResultFail (self : RbcEvent) : RM (Option RbcEvent) :=
  self.guarded do
    let inbound ← self.isInbound
    if inbound then do
      self.summary
      pure none
    else do
      let clone ← self.cloneWithOtherStatus .rejected (some self.timeLock)
      pure (some { clone with aggregated := false })

def FinalStatusEvent.buildTransactionParams (self : RbcEvent) : RM SendParamTuple :=
  self.guarded do
    let src ← self.srcChain
    RM.exportingRequestMetric src self.status
    pure none

/-! ## Dispatch -/

namespace RbcEvent

variable (self : RbcEvent)

def buildTransactionParams : RM SendParamTuple :=
  match self.cls with
  | .failed => ChainFailedEvent.buildTransactionParams self
  | .requested => ChainRequestedEvent.buildTransactionParams self
  | .executed => ChainExecutedEvent.buildTransactionParams self
  | .reverted => ChainRevertedEvent.buildTransactionParams self
  | .accepted | .rejected => AggregatedRelayEvent.buildTransactionParams self
  | .committed | .rollbacked => FinalStatusEvent.buildTransactionParams self

def buildCallTransactionParams : RM CallParamTuple :=
  match self.cls with
  | .requested => ChainRequestedEvent.buildCallTransactionParams self
  | .accepted | .rejected => AggregatedRelayEvent.buildCallTransactionParams self
  | _ => Base.buildCallTransactionParams self

def handleCallResult (info : RequestInfo) : RM (Option RbcEvent) :=
  match self.cls with
  | .requested => ChainRequestedEvent.handleCallResult self info
  | .accepted | .rejected => AggregatedRelayEvent.handleCallResult self info
  | _ => Base.handleCallResult self

def handleTxResultSuccess : RM (Option RbcEvent) :=
  match self.cls with
  | .requested => ChainRequestedEvent.handleTxResultSuccess self
  | _ => Base.handleTxResultSuccess self

def handleTxResultFail : RM (Option RbcEvent) :=
  match self.cls with
  | .requested => ChainRequestedEvent.handleTxResultFail self
  | .accepted => ChainAcceptedEvent.handleTxResultFail self
  | _ => Base.handleTxResultFail self

/-- Only the base class has it; it calls the class's own `handle_tx_result_fail`. -/
def handleTxResultNoReceipt : RM (Option RbcEvent) :=
  self.guarded do
    self.summary
    self.handleTxResultFail

end RbcEvent

end Bifrost
