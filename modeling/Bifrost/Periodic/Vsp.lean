import Bifrost.Relayer.Fetch
import Bifrost.Submits.Submit

/-!
# The validator-set feed

`rbclib/periodic/vsp_feed.py`: every period reads the round of BIFROST and, when
it has moved on, caches the relayer's index and votes for the validator set of
the new round. The reads are separate calls, so the chain can move between them.
-/

namespace Bifrost

open Bifrost.Lib

/-- What a feed has of its own; the round it has cached is `currentRound` of the process. -/
structure VSPFeed where
  periodSec : Nat
  timeLock : Nat

namespace VSPFeed

/-- `validator_set_check_period_sec`, as `Relayer.init_from_dicts` sets it. -/
def validatorSetCheckPeriodSec : Nat := 60

/-- The rounds of all chains, for the exporter. -/
def exportRounds : List ChainEnum → RM Unit
  | [] => pure ()
  | chain :: chains => do
    let _ ← RM.fetchLatestRound chain
    exportRounds chains

/-- `current_round = rnd`. -/
def setCurrentRound (rnd : Nat) : RM Unit :=
  Proc.modify fun s => { s with currentRound := rnd }

/-- `VSPFeed.__init__`. -/
def construct (periodSec timeLock : Nat) (rnd : Option Nat) : RM VSPFeed := do
  let cfg ← RM.getConfig
  let self : VSPFeed := ⟨if periodSec = 0 then validatorSetCheckPeriodSec else periodSec, timeLock⟩
  match rnd with
  | some rnd => do
    setCurrentRound rnd
    pure self
  | none =>
    -- BIFROST is removed from a copy of the list; `fetch_bottom_round` reads the list itself
    if .bifrost ∉ cfg.supportedChainList then Proc.throw .valueError
    else do
      let bottomRound ← RM.fetchBottomRound
      setCurrentRound bottomRound
      pure self

/-- The feed of the next period, which takes the cached round over. -/
def cloneNext (self : VSPFeed) : RM VSPFeed := do
  let s ← Proc.get
  construct self.periodSec (self.timeLock + self.periodSec * 1000) (some s.currentRound)

/-- Caches the relayer's index in round `rnd`, when it has one. -/
def updateIndex (rnd : Nat) : RM Unit := do
  let relayerIndex ← RM.fetchRelayerIndex .bifrost (some rnd) none
  match relayerIndex with
  | some i => do
    RM.setValueByKey rnd (some i)
    pure ()
  | none => pure ()

/-- The vote for the current relayer list as the validators of round `rnd`. -/
def vote (rnd : Nat) : RM SendParamTuple := do
  let validatorList ← RM.fetchSortedRelayerListLower .bifrost none true
  let dataToSig ← Proc.ofOption .valueError (encodeRound rnd validatorList)
  let sig ← RM.sign dataToSig
  let socketSig ← Proc.ofOption (.exception "Not matched list size")
    (SocketSignature.fromSingleSig sig.r sig.s (sig.v + 27))
  pure (some ⟨.bifrost, SOCKET_CONTRACT_NAME, ROUND_UP_FUNCTION_NAME,
    .roundControlPoll rnd validatorList socketSig.tuple⟩)

def buildTransactionParams : RM SendParamTuple := do
  let roundFromBn ← RM.fetchLatestRound .bifrost
  let cfg ← RM.getConfig
  exportRounds cfg.supportedChainList
  let s ← Proc.get
  if roundFromBn ≤ s.currentRound then pure none
  else do
    setCurrentRound roundFromBn
    updateIndex roundFromBn
    let env ← Proc.ask
    let selected ← RM.isSelectedRelayer .bifrost (some (roundFromBn - 1)) env.account.address true
    if !selected then pure none else vote roundFromBn

def buildCallTransactionParams : RM CallParamTuple := pure none

def handleTxResultSuccess : RM Unit := pure ()

def handleTxResultFail : RM Unit := pure ()

def handleTxResultNoReceipt : RM Unit := pure ()

end VSPFeed

end Bifrost
