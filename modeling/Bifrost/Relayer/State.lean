import Bifrost.Events.Event
import Bifrost.Lib.Proc

/-!
# The relayer process

A handler is a procedure `RM`: it reads the environment `Env` (configuration,
account, the answers of the chains) and changes the state `RState`. The `n`-th
remote read of the process is answered from `view n`, or fails where `down n`
holds, so an environment fixes what every read at every time returns and its
quantification ranges over all histories of the chains. What a handler does
beyond its state is in its effects: reads, signatures, queue entries, metrics.
-/

namespace Bifrost

open Bifrost.Lib

inductive RelayerRole where
  | generalRelayer | slowRelayer | fastRelayer
  deriving DecidableEq, Repr

/-- `relayer_config_global`, the network and the configuration of the chain managers. -/
structure Config where
  network : Network
  relayerRole : RelayerRole
  supportedChainList : List ChainEnum
  slowRelayerDelaySec : Option Nat
  rbcEventCallDelaySec : Nat
  roundupEventCallDelaySec : Nat
  txCommitTimeSec : ChainEnum → Nat
  prometheusOn : Bool

def Config.isFastRelayer (c : Config) : Bool := c.relayerRole = .fastRelayer

/-- The answers of the contracts at one moment, under the names of their functions. -/
structure View where
  latestRound : ChainEnum → Nat
  selectedRelayers : ChainEnum → Bool → List Str
  previousSelectedRelayers : ChainEnum → Int → Bool → List Str
  isSelectedRelayer : ChainEnum → Str → Bool → Bool
  isPreviousSelectedRelayer : ChainEnum → Int → Str → Bool → Bool
  majority : ChainEnum → Bool → Nat
  previousMajority : ChainEnum → Int → Bool → Nat
  getRequest : ChainEnum → RequestId → RequestInfo
  getSignatures : RequestId → Nat → SigTuple
  getRoundSignatures : Nat → SigTuple

structure Env where
  cfg : Config
  account : Account
  lib : EthLib
  view : Nat → View
  down : Nat → Bool
  /-- `timestamp_msec()` before the `n`-th read. -/
  msec : Nat → Nat

inductive Exn where
  | rpc | valueError | typeError | keyError | zeroDivision
  | exception (msg : String)
  deriving DecidableEq, Repr

/-- chainpy's cache: a map from keys to stored values, where `None` can be stored too. -/
abbrev Cache := Int → Option (Option Nat)

structure RState where
  cache : Cache
  /-- The detected logs. -/
  heap : Ref → DetectedEvent
  /-- `__current_round` of the live `VSPFeed`. -/
  currentRound : Nat
  roundCache : Option Nat
  /-- The number of remote reads so far. -/
  now : Nat

inductive Effect where
  | called (chain : ChainEnum) (method : String)
  | request (chain : ChainEnum) (rid : RequestId) (info : RequestInfo)
  | signed (msg : Bytes)
  | enqueued (q : Queued)
  | metric (chain : ChainEnum) (status : ChainEventStatus)
  | sent (tx : SendTx)

abbrev RM := Proc Env Exn RState Effect

namespace RM

def raise {α : Type} (msg : String) : RM α := .throw (.exception msg)

/-- `world_call`: one remote read. -/
def worldCall {α : Type} (chain : ChainEnum) (method : String) (answer : View → α) : RM α := do
  let env ← Proc.ask
  let s ← Proc.get
  Proc.modify fun s => { s with now := s.now + 1 }
  Proc.emit (.called chain method)
  if env.down s.now then Proc.throw .rpc else pure (answer (env.view s.now))

def timestampMsec : RM Nat := do
  let env ← Proc.ask
  let s ← Proc.get
  pure (env.msec s.now)

def getConfig : RM Config := do
  let env ← Proc.ask
  pure env.cfg

/-- `active_account.ecdsa_recoverable_sign`. -/
def sign (msg : Bytes) : RM Sig := do
  let env ← Proc.ask
  Proc.emit (.signed msg)
  pure (env.account.sign msg)

def enqueue (q : Queued) : RM Unit := Proc.emit (.enqueued q)

/-! ## The relayer's cache -/

/-- The stored value; `None` for an absent key. -/
def getValueByKey (k : Int) : RM (Option Nat) := do
  let s ← Proc.get
  pure ((s.cache k).join)

def setValueByKey (k : Int) (v : Option Nat) : RM Unit :=
  Proc.modify fun s => { s with cache := Function.update s.cache k (some v) }

def isInCache (k : Int) : RM Bool := do
  let s ← Proc.get
  pure (s.cache k).isSome

end RM

/-! ## One read -/

section Read

variable {α : Type} {env : Env} {s : RState}

@[simp] theorem getConfig_run : RM.getConfig env s = ⟨.ok env.cfg, s, []⟩ := by
  simp [RM.getConfig]

@[simp] theorem getValueByKey_run (k : Int) :
    RM.getValueByKey k env s = ⟨.ok (s.cache k).join, s, []⟩ := by
  simp [RM.getValueByKey]

@[simp] theorem isInCache_run (k : Int) :
    RM.isInCache k env s = ⟨.ok (s.cache k).isSome, s, []⟩ := by
  simp [RM.isInCache]

@[simp] theorem setValueByKey_run (k : Int) (v : Option Nat) : RM.setValueByKey k v env s =
    ⟨.ok (), { s with cache := Function.update s.cache k (some v) }, []⟩ := rfl

@[simp] theorem sign_run (msg : Bytes) :
    RM.sign msg env s = ⟨.ok (env.account.sign msg), s, [.signed msg]⟩ := by
  simp [RM.sign]

@[simp] theorem timestampMsec_run : RM.timestampMsec env s = ⟨.ok (env.msec s.now), s, []⟩ := by
  simp [RM.timestampMsec]

@[simp] theorem enqueue_run (q : Queued) : RM.enqueue q env s = ⟨.ok (), s, [.enqueued q]⟩ := rfl

/-- The state after a remote read. -/
def RState.tick (s : RState) : RState := { s with now := s.now + 1 }

@[simp] theorem RState.tick_cache (s : RState) : s.tick.cache = s.cache := rfl

@[simp] theorem RState.tick_heap (s : RState) : s.tick.heap = s.heap := rfl

@[simp] theorem RState.tick_now (s : RState) : s.tick.now = s.now + 1 := rfl

theorem worldCall_run (chain : ChainEnum) (method : String) (answer : View → α) :
    RM.worldCall chain method answer env s =
      ⟨if env.down s.now then .error .rpc else .ok (answer (env.view s.now)), s.tick,
        [.called chain method]⟩ := by
  unfold RM.worldCall
  cases h : env.down s.now <;> simp [h, RState.tick]

theorem worldCall_ok {chain : ChainEnum} {method : String} {answer : View → α} {a : α}
    {s' : RState} {w : List Effect}
    (h : RM.worldCall chain method answer env s = ⟨.ok a, s', w⟩) :
    a = answer (env.view s.now) ∧ s' = s.tick ∧ w = [.called chain method] := by
  rw [worldCall_run] at h
  split at h <;> simp_all

end Read

/-! ## A sample process

The values of the concrete runs in the other modules: one relayer, one message, one state. -/

namespace Sample

def address (b : Byte) : Address := ⟨List.replicate 20 b, by simp⟩

def account : Account := ⟨address 1, fun _ => ⟨0, 0, 0⟩⟩

def cfg : Config where
  network := .mainnet
  relayerRole := .generalRelayer
  supportedChainList := [.bifrost, .ethereum]
  slowRelayerDelaySec := some 180
  rbcEventCallDelaySec := 600
  roundupEventCallDelaySec := 200
  txCommitTimeSec := fun _ => 1
  prometheusOn := false

/-- The relayers of every round are `relayers`, and every request has the status `status`. -/
def view (relayers : List Str) (status : ChainEventStatus) : View where
  latestRound := fun _ => 6
  selectedRelayers := fun _ _ => relayers
  previousSelectedRelayers := fun _ _ _ => relayers
  isSelectedRelayer := fun _ a _ => a ∈ relayers
  isPreviousSelectedRelayer := fun _ _ a _ => a ∈ relayers
  majority := fun _ _ => 1
  previousMajority := fun _ _ _ => 1
  getRequest := fun _ _ => ⟨fun _ => ⟨status.value, status.value_lt⟩⟩
  getSignatures := fun _ _ => ⟨[], [], []⟩
  getRoundSignatures := fun _ => ⟨[], [], []⟩

/-- `view` at every read. -/
def env (view : Nat → View) : Env where
  cfg := cfg
  account := account
  lib := ⟨fun _ _ _ _ => address 1, fun v => v + 27⟩
  view := view
  down := fun _ => false
  msec := fun t => 1000 * t

/-- A message of round 5 from `src` to `dst`. -/
def msg (src dst : ChainEnum) (status : ChainEventStatus) : SocketMsg where
  chain := src.formattedBytes .mainnet
  roundId := 5
  sequence := 1
  status := ⟨status.value, status.value_lt⟩
  insChain := dst.formattedBytes .mainnet
  method := ⟨toBE 3 0x020201 ++ List.replicate 13 0, by simp⟩
  tokenIDX0 := ethHashBytes 0
  tokenIDX1 := ethHashBytes 0
  refund := address 2
  toAddr := address 3
  amount := 1000
  variants := []
  variants_lt := by decide

def event (cls : EventClass) (src dst : ChainEnum) : RbcEvent where
  cls := cls
  detectedEvent := 0
  msg := msg src dst cls.status
  timeLock := 1
  mode := .send
  aggregated := true
  status_eq := rfl

/-- The ACCEPTED event of an outbound request. -/
def outbound : RbcEvent := event .accepted .bifrost .ethereum

theorem outbound_srcChain : outbound.srcChain? .mainnet = some .bifrost := by decide +kernel

/-- The sample relayer is the only one, and every request has the status `status`. -/
def soleEnv (status : ChainEventStatus) : Env := env fun _ => view [account.address.hex] status

/-- The relayer with the address of `b`, one of those with the addresses of `members`. -/
def memberEnv (members : List Byte) (b : Byte) (status : ChainEventStatus) : Env :=
  { env fun _ => view (members.map fun b => (address b).hex) status with
    account := ⟨address b, fun _ => ⟨0, 0, 0⟩⟩ }

/-- The round after the one that the sample has read. -/
def nextRound : Fin (2 ^ 256) := 6

/-- The state before the first read, with the log of `m`. -/
def state (m : SocketMsg) : RState where
  cache := fun _ => none
  heap := fun _ => .ofMsg m 7
  currentRound := 5
  roundCache := none
  now := 0

/-- An account of `address b`, whose signatures `recovering` recovers. -/
def voter (b : Byte) : Account :=
  ⟨address b, fun _ => ⟨⟨b.val, lt_trans b.isLt (by decide)⟩, 0, 0⟩⟩

def recovering : EthLib where
  recover := fun r _ _ _ => address (byteOf r)
  toEthV := fun v => v + 27

theorem recovers_voter (b : Byte) : recovering.Recovers recovering.toEthV (voter b) := by
  refine fun msg => ⟨?_, by show 27 < 256; omega⟩
  show address (byteOf b.val) = address b
  rw [byteOf_of_lt b.isLt]

end Sample

end Bifrost
