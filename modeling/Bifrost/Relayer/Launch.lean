import Bifrost.Relayer.Config

/-!
# Launching a relayer

`relayer-launcher.py`: the options of the command line with their defaults, the
role and the config files they choose, and the classes that are registered for
the role. `--slow-relayer` and `--testnet` are on by default and have no option
that turns them off, so a launch that gets through is that of a slow relayer with
the delay of its config (`setupRelayer_ok`).
-/

namespace Bifrost

open Bifrost.Lib

/-- The options on a command line: the given values, and whether a flag is there. -/
structure CommandLine where
  privateKey : Option Str
  configPath : Option Str
  privateConfigPath : Option Str
  noHeartbeat : Bool
  prometheus : Bool
  slowRelayer : Bool
  fastRelayer : Bool
  testnet : Bool

/-- `vars(parser.parse_args())` -/
structure LaunchConfig where
  privateKey : Option Str
  configPath : Option Str
  privateConfigPath : Option Str
  noHeartbeat : Bool
  prometheus : Bool
  slowRelayer : Bool
  fastRelayer : Bool
  testnet : Bool

/-- An argument with the action `store_true`. -/
def storeTrue (default given : Bool) : Bool := given || default

def parseArgs (c : CommandLine) : LaunchConfig where
  privateKey := c.privateKey
  configPath := c.configPath
  privateConfigPath := c.privateConfigPath
  noHeartbeat := storeTrue false c.noHeartbeat
  prometheus := storeTrue false c.prometheus
  slowRelayer := storeTrue true c.slowRelayer
  fastRelayer := storeTrue false c.fastRelayer
  testnet := storeTrue true c.testnet

inductive ChainEventClass where
  | rbcEvent | externalRbcEvent | roundUpEvent
  deriving DecidableEq

inductive OffchainEventClass where
  | vspFeed | priceUpOracle | relayerHeartBeat
  deriving DecidableEq

/-- A relayer that is set up: its bridge, the global configuration and the registered classes. -/
structure Launched where
  bridge : Bridge
  config : FastRelayerConfig
  chainEvents : List (String × ChainEventClass)
  offchainEvents : List (String × OffchainEventClass)
  prometheusOn : Bool

/-- What the launcher calls of other packages, with the files of the system. -/
structure LaunchLib extends ConfigLib where
  /-- `json.load(open(path, "r"))` -/
  loadJson : Str → Except PyExn Json
  /-- The text of `EthHexBytes(private_key)`, where this is one. -/
  secretKey : Option Str → Except PyExn (Option Str)

def DEFAULT_RELAYER_CONFIG_PATH : Str := "configs/entity.relayer.json".toList

def DEFAULT_PRIVATE_CONFIG_PATH : Str := "configs/entity.relayer.private.json".toList

def DEFAULT_TEST_RELAYER_CONFIG_PATH : Str := "configs-testnet/entity.relayer.json".toList

def DEFAULT_TEST_RELAYER_PRIVATE_CONFIG_PATH : Str :=
  "configs-testnet/entity.relayer.private.json".toList

/-- `Relayer.init_from_config_files` -/
def Relayer.initFromConfigFiles (lib : LaunchLib) (relayerConfigPath : Str)
    (privateConfigPath privateKey : Option Str) (role : Option RelayerRole)
    (slowRelayerDelaySec : Option Nat) : Except PyExn (Bridge × FastRelayerConfig) := do
  let relayerConfigDict ← lib.loadJson relayerConfigPath
  let privateConfigDict ← match privateConfigPath with
    | some path => do
      let dict ← lib.loadJson path
      pure (some dict)
    | none => pure none
  Relayer.initFromDicts lib.toConfigLib relayerConfigDict privateConfigDict privateKey role
    slowRelayerDelaySec false

def configRelayer (bridge : Bridge) (config : FastRelayerConfig)
    (heartBeatOpt prometheusOn : Bool) : Launched where
  bridge := bridge
  config := config
  chainEvents := [("Socket", .rbcEvent), ("RoundUp", .roundUpEvent)]
  offchainEvents := [("sync_validator", .vspFeed), ("price", .priceUpOracle)] ++
    if heartBeatOpt then [("heart_beat", .relayerHeartBeat)] else []
  prometheusOn := prometheusOn

def configFastRelayer (bridge : Bridge) (config : FastRelayerConfig) (prometheusOn : Bool) :
    Launched where
  bridge := bridge
  config := { config with relayerRole := .fastRelayer }
  chainEvents := [("Socket", .externalRbcEvent), ("RoundUp", .roundUpEvent)]
  offchainEvents := []
  prometheusOn := prometheusOn

def determineRelayerRole (config : LaunchConfig) : Except PyExn RelayerRole :=
  if config.fastRelayer ∧ config.slowRelayer then
    .error (.exception "launch relayer with not both options: -f and -s")
  else if config.slowRelayer then pure .slowRelayer
  else if config.fastRelayer then pure .fastRelayer
  else pure .generalRelayer

/-- `path if path else default`, for an option that may be absent. -/
def pathOr (path : Option Str) (default : Str) : Str :=
  match path with
  | some (c :: cs) => c :: cs
  | _ => default

def setupRelayer (lib : LaunchLib) (config : LaunchConfig) : Except PyExn Launched := do
  let secretKey ← lib.secretKey config.privateKey
  let publicConfigPath := pathOr config.configPath
    (if config.testnet then DEFAULT_TEST_RELAYER_CONFIG_PATH else DEFAULT_RELAYER_CONFIG_PATH)
  let privateConfigPath := pathOr config.privateConfigPath
    (if config.testnet then DEFAULT_TEST_RELAYER_PRIVATE_CONFIG_PATH
      else DEFAULT_PRIVATE_CONFIG_PATH)
  let role ← determineRelayerRole config
  let (bridge, g) ← Relayer.initFromConfigFiles lib publicConfigPath (some privateConfigPath)
    secretKey (some role) none
  if config.fastRelayer then pure (configFastRelayer bridge g config.prometheus)
  else pure (configRelayer bridge g (!config.noHeartbeat) config.prometheus)

/-! ## What can be launched -/

variable {lib : LaunchLib} {c : CommandLine} {l : Launched}

/-- No command line starts a general or a fast relayer. -/
theorem determineRelayerRole_parseArgs (c : CommandLine) : determineRelayerRole (parseArgs c) =
    if c.fastRelayer then .error (.exception "launch relayer with not both options: -f and -s")
    else .ok .slowRelayer := by
  obtain ⟨_, _, _, _, _, slow, fast, _⟩ := c
  cases slow <;> cases fast <;> rfl

/-- What a launch that gets through has started. -/
structure Launched.FromCommandLine (lib : LaunchLib) (c : CommandLine) (l : Launched) : Prop where
  notFast : c.fastRelayer = false
  role : l.config.relayerRole = .slowRelayer
  chainEvents : l.chainEvents = [("Socket", .rbcEvent), ("RoundUp", .roundUpEvent)]
  offchainEvents : l.offchainEvents = [("sync_validator", .vspFeed), ("price", .priceUpOracle)] ++
    if c.noHeartbeat then [] else [("heart_beat", .relayerHeartBeat)]
  prometheusOn : l.prometheusOn = c.prometheus
  /-- The delay is that of the merged config files, which are those of the testnet by default. -/
  delay : ∃ dict privateDict key merged,
    lib.loadJson (pathOr c.configPath DEFAULT_TEST_RELAYER_CONFIG_PATH) = .ok dict ∧
    lib.loadJson (pathOr c.privateConfigPath DEFAULT_TEST_RELAYER_PRIVATE_CONFIG_PATH) =
      .ok privateDict ∧
    Relayer.mergedDict lib.toConfigLib dict (some privateDict) key = .ok merged ∧
    Relayer.configuredDelay merged = .ok l.config.slowRelayerDelaySec

theorem setupRelayer_ok (h : setupRelayer lib (parseArgs c) = .ok l) :
    l.FromCommandLine lib c := by
  obtain ⟨key, -, h⟩ := bind_eq_ok.mp h
  have htestnet : (parseArgs c).testnet = true := Bool.or_true c.testnet
  dsimp only at h
  rw [htestnet, if_pos rfl, if_pos rfl, determineRelayerRole_parseArgs] at h
  cases hfast : c.fastRelayer with
  | true =>
    rw [hfast] at h
    cases h
  | false =>
    have hfast' : (parseArgs c).fastRelayer = false := (Bool.or_false _).trans hfast
    rw [hfast] at h
    obtain ⟨role, hrole, h⟩ := bind_eq_ok.mp h
    cases hrole
    obtain ⟨⟨bridge, g⟩, hinit, h⟩ := bind_eq_ok.mp h
    obtain ⟨dict, hdict, hinit⟩ := bind_eq_ok.mp hinit
    obtain ⟨privateDict, hprivate, hinit⟩ := bind_eq_ok.mp hinit
    obtain ⟨hrole, merged, hmerged, hdelay⟩ := Relayer.initFromDicts_ok hinit
    have hrole : g.relayerRole = .slowRelayer := (Option.some.inj hrole).symm
    rw [hfast', if_neg Bool.false_ne_true] at h
    cases h
    refine ⟨hfast, hrole, rfl, ?_, Bool.or_false _,
      dict, privateDict, key, merged, hdict, hprivate, hmerged, ?_⟩
    · have hheart : (parseArgs c).noHeartbeat = c.noHeartbeat := Bool.or_false _
      cases hc : c.noHeartbeat <;> simp [configRelayer, hheart, hc]
    · rw [Relayer.slowDelay, hrole, if_pos rfl] at hdelay
      exact exceptValueError_eq_ok.mp hdelay

end Bifrost
