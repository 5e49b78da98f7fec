import Bifrost.Relayer.Fetch
import Bifrost.Submits.Submit

/-!
# Handlers of RoundUp events

`rbclib/events/roundup_event.py`. A `RoundUpEvent` carries the decoded data of
its log, the chains it was made to update and, in a clone, the one it updates.
-/

namespace Bifrost

open Bifrost.Lib

/-- The decoded data of a `RoundUp` log: its status and `(round, validators, sigs)`. -/
structure RoundUpLog where
  statusData : Nat
  round : Nat
  validatorList : List Str
  sigs : SigTuple
  blockNumber : Nat

namespace RoundUpEvent

/-- The constructor; `list.remove` raises when BIFROST is not supported. -/
def construct (log : RoundUpLog) (timeLock : Nat) : RM RoundUpEvent := do
  let cfg ← RM.getConfig
  if .bifrost ∉ cfg.supportedChainList then Proc.throw .valueError
  else pure {
    statusData := log.statusData
    round := log.round
    validatorList := log.validatorList
    sigs := log.sigs
    blockNumber := log.blockNumber
    timeLock := timeLock
    mode := .send
    updatingChains := cfg.supportedChainList.erase .bifrost
    selectedChain := .none
    aggregated := true }

def init (log : RoundUpLog) (timeLock : Nat) : RM RoundUpEvent := do
  let cfg ← RM.getConfig
  if timeLock = 0 ∨ cfg.isFastRelayer then construct log 0
  else do
    let now ← RM.timestampMsec
    let delaySec ← Proc.ofOption .typeError cfg.slowRelayerDelaySec
    construct log (now + delaySec * 1000)

variable (self : RoundUpEvent)

/-- `self.detected_event`, decoded. -/
def log : RoundUpLog where
  statusData := self.statusData
  round := self.round
  validatorList := self.validatorList
  sigs := self.sigs
  blockNumber := self.blockNumber

def status : RM ChainEventStatus :=
  Proc.ofOption .valueError (ChainEventStatus.ofValue? self.statusData)

/-- The validators as address objects, sorted; `none` where `EthAddress` raises. -/
def sortedValidatorList : Option (List Address) :=
  (self.validatorList.mapM Address.ofHex?).map sorted

def clone (selectedChain : ChainEnum) : RM RoundUpEvent := do
  let e ← construct self.log self.timeLock
  pure { e with selectedChain }

def isPreviousRelayer : RM Bool := do
  let cfg ← RM.getConfig
  if cfg.isFastRelayer then pure true else RM.isInCache (self.round - 1)

def isPrimaryRelayer : RM Bool := do
  let cfg ← RM.getConfig
  if cfg.isFastRelayer then pure true
  else do
    let previousValidatorList ←
      RM.fetchSortedRelayerListLower .bifrost (some (self.round - 1)) true
    let previousValidatorList ← Proc.ofOption .valueError
      (previousValidatorList.mapM Address.ofHex?)
    if previousValidatorList.length = 0 then Proc.throw .zeroDivision
    else do
      let primaryIndex := self.blockNumber % previousValidatorList.length
      let myIndex ← RM.getValueByKey (self.round - 1)
      pure (some primaryIndex = myIndex)

/-- The first handling queues one clone for each chain to update. -/
def enqueueClones : List ChainEnum → RM Unit
  | [] => pure ()
  | chain :: chains => do
    let clone ← self.clone chain
    RM.enqueue (.roundUp clone)
    enqueueClones chains

/-- `self.switch_to_send(next_time_lock); self.aggregated = False`. -/
def deferred (timeLock : Nat) : RoundUpEvent :=
  { self with mode := .send, timeLock, aggregated := false }

def relayOrDefer : RM SendParamTuple := do
  let primary ← self.isPrimaryRelayer
  if primary || !self.aggregated then do
    let result ← RM.fetchSocketVspSigs self.round
    let sigs ← Proc.ofOption (.exception "Not matched list size")
      (SocketSignature.init.addTupleSigs result)
    let submitData ← AggregatedRoundUpSubmit.submitTuple self sigs
    pure (some ⟨self.selectedChain, SOCKET_CONTRACT_NAME, ROUND_UP_VOTING_FUNCTION_NAME,
      submitData⟩)
  else do
    let now ← RM.timestampMsec
    let cfg ← RM.getConfig
    let nextTimeLock :=
      now + cfg.txCommitTimeSec self.selectedChain + 1000 * cfg.roundupEventCallDelaySec
    RM.enqueue (.roundUp (self.deferred nextTimeLock))
    pure none

def buildTransactionParams : RM SendParamTuple := do
  let status ← self.status
  if status ≠ .nextAuthorityCommitted then pure none
  else do
    let mine ← self.isPreviousRelayer
    if !mine then pure none
    else if self.selectedChain = .none then do
      self.enqueueClones self.updatingChains
      pure none
    else do
      let targetRound ← RM.fetchLatestRound self.selectedChain
      if self.round ≤ targetRound then pure none else self.relayOrDefer

def handleTxResultSuccess : RM (Option RoundUpEvent) := pure none

def handleTxResultFail : RM (Option RoundUpEvent) := pure none

def handleTxResultNoReceipt : RM (Option RoundUpEvent) := pure none

/-- The bytes whose hash `decoded_dict` reports as the signed message. -/
def dataToSig : Option Bytes :=
  self.sortedValidatorList.bind (encodeRoundObjs self.round)

end RoundUpEvent

end Bifrost
