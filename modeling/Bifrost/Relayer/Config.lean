import Bifrost.Lib.Json
import Bifrost.Relayer.State

/-!
# Loading a configuration

`Relayer.init_from_dicts` of `relayer/relayer.py` and `relayer/global_config.py`. The loader
merges the two config files, settles the relayer's role and the delay of a slow relayer, resets
the global configuration and constructs the event bridge. What it calls of chainpy is `ConfigLib`.
`FastRelayerConfig.config` is the configuration that the handlers of the process read.
-/

namespace Bifrost

open Bifrost.Lib

namespace RelayerRole

def name : RelayerRole → Str
  | generalRelayer => "GENERAL_RELAYER".toList
  | slowRelayer => "SLOW_RELAYER".toList
  | fastRelayer => "FAST_RELAYER".toList

def all : List RelayerRole := [generalRelayer, slowRelayer, fastRelayer]

/-- `RelayerRole[name]`: `none` where the lookup raises. -/
def ofName? (name : Str) : Option RelayerRole := all.find? fun role => role.name = name

/-- No member's name is capitalised. -/
theorem ofName?_capitalize (s : Str) : ofName? (capitalize s) = none := by
  rw [ofName?, List.find?_eq_none]
  intro role _ h
  have hname : role.name = capitalize s := of_decide_eq_true h
  have hupper : ∃ c ∈ role.name.tail, c.isUpper = true := by
    cases role with
    | generalRelayer => exact ⟨'E', by decide +kernel, rfl⟩
    | slowRelayer => exact ⟨'L', by decide +kernel, rfl⟩
    | fastRelayer => exact ⟨'A', by decide +kernel, rfl⟩
  obtain ⟨c, hc, hup⟩ := hupper
  rw [hname] at hc
  rw [isUpper_of_mem_capitalize hc] at hup
  cases hup

end RelayerRole

/-- `FastRelayerConfig`; a `None` of a config file is the value `null`. -/
structure FastRelayerConfig where
  relayerRole : RelayerRole
  isTestnet : Bool
  slowRelayerDelaySec : Json
  rbcEventCallDelaySec : Nat
  roundupEventCallDelaySec : Nat
  priceOracleAssets : Json
  priceSourceUrlDict : Json
  priceSourceCollectionPeriodSec : Nat
  btcHashSourceUrl : Json
  btcHashSourceCollectionPeriodSec : Nat
  validatorSetCheckPeriodSec : Nat
  heartBeatPeriodSec : Nat := 30

/-- What the handlers use of the constructed event bridge. -/
structure Bridge where
  supportedChainList : List ChainEnum
  txCommitTimeSec : ChainEnum → Nat

/-- What the loader calls of other packages. -/
structure ConfigLib where
  mergeDict : Json → Option Json → Except PyExn Json
  /-- `hex(EthAccount.from_secret(private_key).priv)`. -/
  secretHex : Str → Except PyExn Str
  configSanityCheck : Json → Except PyExn Unit
  isMeaningful : Json → Except PyExn Bool
  /-- `cls(merged_dict)`. -/
  construct : Json → Except PyExn Bridge

namespace Relayer

variable (lib : ConfigLib)

/-- The config the loader goes on with: that of the files, with the key of the command line. -/
def mergedDict (relayerConfigDict : Json) (privateConfigDict : Option Json)
    (privateKey : Option Str) : Except PyExn Json := do
  let merged ← lib.mergeDict relayerConfigDict privateConfigDict
  match privateKey with
  | none => pure merged
  | some key => do
    let secret ← lib.secretHex key
    let entity ← merged.getItem "entity".toList
    let entity ← entity.setItem "secret_hex".toList (.str secret)
    merged.setItem "entity".toList entity

/-- `RelayerRole[merged_dict["entity"]["role"].replace("-", "_").capitalize()]`. -/
def configuredRole (merged : Json) : Except PyExn RelayerRole := do
  let entity ← merged.getItem "entity".toList
  let role ← entity.getItem "role".toList
  let role ← role.asStr
  let name := capitalize (role.map fun c => if c = '-' then '_' else c)
  match RelayerRole.ofName? name with
  | some role => pure role
  | none => .error (.keyError name)

/-- The given role, or else the one of the config. -/
def roleOf (merged : Json) : Option RelayerRole → Except PyExn RelayerRole
  | some role => pure role
  | none => configuredRole merged

/-- `merged_dict["entity"]["slow_relayer_delay_sec"]`. -/
def configuredDelay (merged : Json) : Except PyExn Json := do
  let entity ← merged.getItem "entity".toList
  entity.getItem "slow_relayer_delay_sec".toList

/-- `oracle_config is not None and is_meaningful(oracle_config[source])`. -/
def isOracleRelayer (oracleConfig : Json) (source : Str) : Except PyExn Bool :=
  match oracleConfig with
  | .null => pure false
  | _ => do
    let source ← oracleConfig.getItem source
    lib.isMeaningful source

/-- `oracle_config[source][field] if cond else None`. -/
def oracleField (cond : Bool) (oracleConfig : Json) (source field : Str) : Except PyExn Json :=
  if cond then do
    let source ← oracleConfig.getItem source
    source.getItem field
  else pure .null

/-- The delay of the global configuration; only a slow relayer looks for it in the config. -/
def slowDelay (merged : Json) (role : RelayerRole) (slowRelayerDelaySec : Option Nat) :
    Except PyExn Json :=
  match slowRelayerDelaySec with
  | some n => pure (.int n)
  | none =>
    if role = .slowRelayer then
      -- a missing entry is a `KeyError`, which passes through
      exceptValueError (configuredDelay merged) "Slow relayer, but no delay in config file"
    else pure .null

def initFromDicts (relayerConfigDict : Json) (privateConfigDict : Option Json)
    (privateKey : Option Str) (role : Option RelayerRole) (slowRelayerDelaySec : Option Nat)
    (isTestnet : Bool) : Except PyExn (Bridge × FastRelayerConfig) := do
  let merged ← mergedDict lib relayerConfigDict privateConfigDict privateKey
  lib.configSanityCheck merged
  let role ← roleOf merged role
  let delay ← slowDelay merged role slowRelayerDelaySec
  let oracleConfig ← merged.get "oracle_config".toList
  let isPriceOracleRelayer ← isOracleRelayer lib oracleConfig "asset_prices".toList
  let isBtcOracleRelayer ← isOracleRelayer lib oracleConfig "bitcoin_block_hash".toList
  let assets ← oracleField isPriceOracleRelayer oracleConfig "asset_prices".toList "names".toList
  let urls ← oracleField isPriceOracleRelayer oracleConfig "asset_prices".toList "urls".toList
  let btcUrl ← oracleField isBtcOracleRelayer oracleConfig "bitcoin_block_hash".toList "url".toList
  let bridge ← lib.construct merged
  pure (bridge, {
    relayerRole := role
    isTestnet := isTestnet
    slowRelayerDelaySec := delay
    rbcEventCallDelaySec := 600
    roundupEventCallDelaySec := 200
    priceOracleAssets := assets
    priceSourceUrlDict := urls
    priceSourceCollectionPeriodSec := 300
    btcHashSourceUrl := btcUrl
    btcHashSourceCollectionPeriodSec := 300
    validatorSetCheckPeriodSec := 60 })

/-! ## Accepted configurations -/

variable {lib} {relayerConfigDict : Json} {privateConfigDict : Option Json}
  {privateKey : Option Str} {role : Option RelayerRole} {slowRelayerDelaySec : Option Nat}
  {isTestnet : Bool} {bridge : Bridge} {g : FastRelayerConfig}

/-- The lookup of the role in the config always raises. -/
theorem configuredRole_ne_ok (merged : Json) (r : RelayerRole) : configuredRole merged ≠ .ok r := by
  intro h
  obtain ⟨entity, -, h⟩ := bind_eq_ok.mp h
  obtain ⟨v, -, h⟩ := bind_eq_ok.mp h
  obtain ⟨s, -, h⟩ := bind_eq_ok.mp h
  dsimp only at h
  rw [RelayerRole.ofName?_capitalize] at h
  cases h

/-- An accepted configuration was given its role; its delay is settled from the merged config. -/
theorem initFromDicts_ok
    (h : initFromDicts lib relayerConfigDict privateConfigDict privateKey role slowRelayerDelaySec
      isTestnet = .ok (bridge, g)) :
    role = some g.relayerRole ∧ ∃ merged,
      mergedDict lib relayerConfigDict privateConfigDict privateKey = .ok merged ∧
      slowDelay merged g.relayerRole slowRelayerDelaySec = .ok g.slowRelayerDelaySec := by
  obtain ⟨merged, hmerged, h⟩ := bind_eq_ok.mp h
  obtain ⟨-, -, h⟩ := bind_eq_ok.mp h
  obtain ⟨r, hrole, h⟩ := bind_eq_ok.mp h
  obtain ⟨delay, hdelay, h⟩ := bind_eq_ok.mp h
  obtain ⟨oracleConfig, -, h⟩ := bind_eq_ok.mp h
  obtain ⟨isPrice, -, h⟩ := bind_eq_ok.mp h
  obtain ⟨isBtc, -, h⟩ := bind_eq_ok.mp h
  obtain ⟨assets, -, h⟩ := bind_eq_ok.mp h
  obtain ⟨urls, -, h⟩ := bind_eq_ok.mp h
  obtain ⟨btcUrl, -, h⟩ := bind_eq_ok.mp h
  obtain ⟨bridge', -, h⟩ := bind_eq_ok.mp h
  cases h
  cases role with
  | none => exact absurd hrole (configuredRole_ne_ok merged r)
  | some role =>
    cases hrole
    exact ⟨rfl, merged, hmerged, hdelay⟩

end Relayer

/-! ## The configuration of the handlers -/

/-- A delay, where given, is a non-negative integer; `none` for any other value. -/
def Json.delay? : Json → Option (Option Nat)
  | .null => some none
  | .int (.ofNat n) => some (some n)
  | _ => none

/-- What the handlers read of the global configuration and of the bridge. The network and the
exporter are chosen on the command line. -/
def FastRelayerConfig.config? (g : FastRelayerConfig) (bridge : Bridge) (network : Network)
    (prometheusOn : Bool) : Option Config :=
  (Json.delay? g.slowRelayerDelaySec).map fun delay => {
    network := network
    relayerRole := g.relayerRole
    supportedChainList := bridge.supportedChainList
    slowRelayerDelaySec := delay
    rbcEventCallDelaySec := g.rbcEventCallDelaySec
    roundupEventCallDelaySec := g.roundupEventCallDelaySec
    txCommitTimeSec := bridge.txCommitTimeSec
    prometheusOn := prometheusOn }

end Bifrost
