import Bifrost.Loop.Recover
import Bifrost.Loop.Warrant
import Bifrost.Periodic.HeartBeat
import Bifrost.Periodic.PriceUp
import Bifrost.Periodic.VspRun
import Bifrost.Relayer.Launch

/-!
# Launched relayers

From the command line on: `relayer-launcher.py` sets a relayer up, and its process
runs the loop with the feeds that are registered. What chainpy makes of the feeds,
at a start and behind a period, is the parameter `EventLoop`. Whatever it is, the
loop of a launched relayer is the `Node` of a slow relayer, for which the price feed
and the heartbeat are reads of other tasks (`nodeRun_of_step`), and every
transaction of the process has its ground in what the process has detected or read
(`launched_grounded`).
-/

namespace Bifrost

open Bifrost.Lib

inductive Feed where
  | vspFeed (f : VSPFeed)
  | priceUpOracle (f : PriceUpOracle)
  | relayerHeartBeat (f : RelayerHeartBeat)

/-- The feed of a registered class, with the defaults of its constructor. -/
def OffchainEventClass.feed (timeLock : Nat) : OffchainEventClass → Feed
  | vspFeed => .vspFeed ⟨VSPFeed.validatorSetCheckPeriodSec, timeLock⟩
  | priceUpOracle => .priceUpOracle
      (PriceUpOracle.construct PriceUpOracle.priceSourceCollectionPeriodSec timeLock)
  | relayerHeartBeat => .relayerHeartBeat ⟨RelayerHeartBeat.heartBeatPeriodSec, timeLock⟩

/-- The configured symbols, where given, are texts; `none` for any other value. -/
def Json.names? : Json → Option (Option (List Str))
  | .null => some none
  | .list l => (l.mapM fun v => (Json.asStr v).toOption).map some
  | _ => none

/-- What a launched process reads. -/
structure LaunchEnv (α φ : Type) where
  prices : PriceEnv α φ
  isHeartbeatPulsed : Nat → Str → Bool
  startTime : Nat

namespace LaunchEnv

variable {α φ : Type} (r : LaunchEnv α φ)

def env : Env := r.prices.env

def hearts : HeartEnv := ⟨r.env, r.isHeartbeatPulsed, r.startTime⟩

/-- The configuration of the process is that of the launch. -/
structure Runs (l : Launched) (network : Network) : Prop where
  cfg : l.config.config? l.bridge network l.prometheusOn = some r.env.cfg
  assets : Json.names? l.config.priceOracleAssets = some r.prices.priceOracleAssets

end LaunchEnv

/-- A process, and the feeds that wait for their next period. -/
structure Process where
  node : Node
  feeds : List Feed

/-- chainpy's part of the event loop, which is a parameter. -/
structure EventLoop where
  /-- The feeds that a start makes of the registered classes. -/
  launch : List (String × OffchainEventClass) → List Feed → Prop
  /-- Behind a period of a feed with this clone, where the flag says that it has returned, the feeds
  that waited before and those that wait then. -/
  requeue : Feed → Feed → Bool → List Feed → List Feed → Prop

/-- What a step of a launched process did; a period may raise. -/
inductive Deed (φ : Type) where
  | act (a : Act)
  | vspFeed (returned : Bool) (out : List Effect)
  | price (returned : Bool) (tx : Option PriceTx) (out : List (PriceEffect φ))
  | heartBeat (returned : Bool) (out : List HeartEffect)
  | start (es : List RbcEvent) (us : List RoundUpEvent) (out : List Effect)

/-- An act of the loop between its start and its end. -/
def Act.isLoop : Act → Bool
  | detected _ | detectedRoundUp _ | handled _ => true
  | fed _ | booted .. => false

section Step

variable {α φ : Type}

inductive LaunchStep (q : EventLoop) (l : Launched) (r : LaunchEnv α φ) :
    Process → List (Deed φ) → Process → Prop where
  | act {n n' : Node} {acts : List Act} (feeds : List Feed) : NodeStep r.env n acts n' →
      (∀ a ∈ acts, a.isLoop = true) →
      LaunchStep q l r ⟨n, feeds⟩ (acts.map .act) ⟨n', feeds⟩
  | vspFeed {st st' : RState} {w : List Effect} {feeds feeds' : List Feed} (queue : List Queued)
      (next : Ref) (f f' : VSPFeed) (outcome : TxOutcome) : .vspFeed f ∈ feeds →
      f.cloneNext r.env (VSPFeed.period outcome r.env st).st = ⟨.ok f', st', w⟩ →
      q.requeue (.vspFeed f) (.vspFeed f') (VSPFeed.period outcome r.env st).val.isOk feeds feeds' →
      LaunchStep q l r ⟨⟨⟨st, queue⟩, next⟩, feeds⟩
        [.vspFeed (VSPFeed.period outcome r.env st).val.isOk (VSPFeed.period outcome r.env st).out]
        ⟨⟨⟨st', queue⟩, next⟩, feeds'⟩
  | price {st : RState} {feeds feeds' : List Feed} (queue : List Queued) (next : Ref)
      (f : PriceUpOracle) (outcome : TxOutcome) : .priceUpOracle f ∈ feeds →
      q.requeue (.priceUpOracle f) (.priceUpOracle f.cloneNext)
        (PriceUpOracle.period outcome r.prices st).val.isOk feeds feeds' →
      LaunchStep q l r ⟨⟨⟨st, queue⟩, next⟩, feeds⟩
        [.price (PriceUpOracle.period outcome r.prices st).val.isOk
          (PriceUpOracle.period outcome r.prices st).val.toOption.join
          (PriceUpOracle.period outcome r.prices st).out]
        ⟨⟨⟨(PriceUpOracle.period outcome r.prices st).st, queue⟩, next⟩, feeds'⟩
  | heartBeat {st : RState} {feeds feeds' : List Feed} (queue : List Queued) (next : Ref)
      (f : RelayerHeartBeat) (outcome : TxOutcome) : .relayerHeartBeat f ∈ feeds →
      q.requeue (.relayerHeartBeat f) (.relayerHeartBeat f.cloneNext)
        (RelayerHeartBeat.period outcome r.hearts st).val.isOk feeds feeds' →
      LaunchStep q l r ⟨⟨⟨st, queue⟩, next⟩, feeds⟩
        [.heartBeat (RelayerHeartBeat.period outcome r.hearts st).val.isOk
          (RelayerHeartBeat.period outcome r.hearts st).out]
        ⟨⟨⟨(RelayerHeartBeat.period outcome r.hearts st).st, queue⟩, next⟩, feeds'⟩
  | start {n n' : Node} {feeds' : List Feed} (feeds : List Feed) (es : List RbcEvent)
      (us : List RoundUpEvent) (out : List Effect) : NodeStep r.env n [.booted es us out] n' →
      q.launch l.offchainEvents feeds' →
      LaunchStep q l r ⟨n, feeds⟩ [.start es us out] ⟨n', feeds'⟩

abbrev LaunchRun (q : EventLoop) (l : Launched) (r : LaunchEnv α φ) := Run (LaunchStep q l r)

theorem LaunchStep.length_le {q : EventLoop} {l : Launched} {r : LaunchEnv α φ} {p p' : Process}
    {ds : List (Deed φ)} (h : LaunchStep q l r p ds p') : ds.length ≤ 1 := by
  cases h with
  | act feeds hn _ =>
    rw [List.length_map]
    exact hn.length_le
  | vspFeed | price | heartBeat | start => exact le_rfl

end Step

/-- A transaction of a launched process. -/
inductive LaunchTx where
  | node (tx : SendTx)
  | price (tx : PriceTx)
  | heartBeat (tx : HeartTx)

namespace Deed

variable {φ : Type}

/-- What the deed is to the node. -/
def act? : Deed φ → Option Act
  | act a => some a
  | vspFeed _ out => some (.fed out)
  | start es us out => some (.booted es us out)
  | price .. | heartBeat .. => none

inductive Sends : Deed φ → LaunchTx → Prop where
  | node (d : Deed φ) (a : Act) (tx : SendTx) : d.act? = some a → .sent tx ∈ a.out →
      Sends d (.node tx)
  | price (returned : Bool) (tx : PriceTx) (out : List (PriceEffect φ)) :
      Sends (.price returned (some tx) out) (.price tx)
  | heartBeat (returned : Bool) (tx : HeartTx) (out : List HeartEffect) : .sent tx ∈ out →
      Sends (.heartBeat returned out) (.heartBeat tx)

@[simp] theorem filterMap_act (acts : List Act) :
    (acts.map (Deed.act (φ := φ))).filterMap act? = acts := by
  rw [List.filterMap_map]
  exact List.filterMap_some

end Deed

/-! ## A sample launch -/

namespace Sample

/-- A system with one config file, which has the delay of a slow relayer. -/
def launchLib : LaunchLib where
  mergeDict := fun relayerConfigDict _ => .ok relayerConfigDict
  secretHex := .ok
  configSanityCheck := fun _ => .ok ()
  isMeaningful := fun _ => .ok false
  construct := fun _ => .ok ⟨cfg.supportedChainList, cfg.txCommitTimeSec⟩
  loadJson := fun path => .ok <| .dict <|
    if path = DEFAULT_TEST_RELAYER_CONFIG_PATH then
      [("entity".toList, .dict [("slow_relayer_delay_sec".toList, .int 180)])]
    else []
  secretKey := .ok

/-- No options. -/
def commandLine : CommandLine := ⟨none, none, none, false, false, false, false, false⟩

/-- The clone waits behind the others. -/
def eventLoop : EventLoop where
  launch := fun events feeds => feeds = events.map fun e => e.2.feed 0
  requeue := fun f f' _ feeds feeds' =>
    ∃ before after, feeds = before ++ f :: after ∧ feeds' = before ++ after ++ [f']

def launched : Launched :=
  configRelayer ⟨cfg.supportedChainList, cfg.txCommitTimeSec⟩
    { relayerRole := .slowRelayer
      isTestnet := false
      slowRelayerDelaySec := .int 180
      rbcEventCallDelaySec := 600
      roundupEventCallDelaySec := 200
      priceOracleAssets := .null
      priceSourceUrlDict := .null
      priceSourceCollectionPeriodSec := 300
      btcHashSourceUrl := .null
      btcHashSourceCollectionPeriodSec := 300
      validatorSetCheckPeriodSec := 60 } true false

theorem mem_feeds : .relayerHeartBeat ⟨30, 0⟩ ∈ launched.offchainEvents.map fun e => e.2.feed 0 :=
  List.mem_map.mpr ⟨("heart_beat", .relayerHeartBeat), by decide, rfl⟩

theorem setupRelayer_commandLine :
    setupRelayer launchLib (parseArgs commandLine) = .ok launched := rfl

/-- BIFROST has no heartbeat of the relayer. -/
def launchEnv : LaunchEnv Nat Nat where
  prices :=
    { env := { soleEnv .requested with cfg := { cfg with relayerRole := .slowRelayer } }
      priceOracleAssets := none
      collected := fun _ _ => .ok []
      bytes := toBE 32
      float := id }
  isHeartbeatPulsed := fun _ _ => false
  startTime := 0

theorem launchEnv_runs : launchEnv.Runs launched .mainnet := ⟨rfl, rfl⟩

/-- The start of the launched relayer, without a log. -/
theorem exists_start : ∃ es us out n', NodeStep launchEnv.env node [.booted es us out] n' := by
  have hval : (Node.step? launchEnv.env (.restart order roundUpOrder 1 [] []) node).any
      fun p => p.1.isBoot := by
    decide +kernel
  obtain ⟨⟨a, n'⟩, hstep, hboot⟩ := (Option.any_eq_true _ _).mp hval
  cases a with
  | booted es us out => exact ⟨es, us, out, n', step_of_step? hstep⟩
  | detected | detectedRoundUp | handled | fed => cases hboot

end Sample

/-! ## The loop of a launched process -/

section Loop

variable {α φ : Type} {lib : LaunchLib} {c : CommandLine} {q : EventLoop} {l : Launched}
  {r : LaunchEnv α φ} {network : Network}

/-- Whatever the command line, a launched relayer is a slow one. -/
theorem LaunchEnv.Runs.role (hr : r.Runs l network) (hl : setupRelayer lib (parseArgs c) = .ok l) :
    r.env.cfg.relayerRole = .slowRelayer := by
  obtain ⟨delay, -, hcfg⟩ := Option.map_eq_some_iff.mp hr.cfg
  rw [← hcfg]
  exact (setupRelayer_ok hl).role

/-- To the node, the periods of the price feed and of the heartbeat are reads of other tasks. -/
theorem nodeRun_of_step (hslow : r.env.cfg.isFastRelayer = false) {p p' : Process}
    {ds : List (Deed φ)} (hstep : LaunchStep q l r p ds p') :
    NodeRun r.env p.node (ds.filterMap Deed.act?) p'.node := by
  cases hstep with
  | act feeds hn _ =>
    rw [Deed.filterMap_act]
    exact .single hn
  | @vspFeed st st' w feeds feeds' queue next f f' outcome hf hclone =>
    obtain ⟨next', hrun⟩ := VSPFeed.cloneNext_run r.env (VSPFeed.period outcome r.env st).st f
    rw [hrun] at hclone
    cases hclone
    exact .single (.period st queue next outcome hslow)
  | price queue next f outcome =>
    rw [PriceUpOracle.period_st]
    exact .single (.wait _ queue next)
  | heartBeat queue next f outcome =>
    rw [RelayerHeartBeat.period_st]
    exact .single (.wait _ queue next)
  | start feeds es us out hn => exact .single hn

/-- A deed that is one of the node is a step of it. -/
theorem nodeStep_of_step (hslow : r.env.cfg.isFastRelayer = false) {p p' : Process} {d : Deed φ}
    (hstep : LaunchStep q l r p [d] p') {a : Act} (ha : d.act? = some a) :
    NodeStep r.env p.node [a] p'.node := by
  generalize hds : [d] = ds at hstep
  cases hstep with
  | act feeds hn _ =>
    obtain ⟨b, rfl, hb⟩ := List.map_eq_singleton_iff.mp hds.symm
    cases hb
    cases ha
    exact hn
  | @vspFeed st st' w feeds feeds' queue next f f' outcome hf hclone =>
    cases hds
    cases ha
    obtain ⟨next', hrun⟩ := VSPFeed.cloneNext_run r.env (VSPFeed.period outcome r.env st).st f
    rw [hrun] at hclone
    cases hclone
    exact .period st queue next outcome hslow
  | price | heartBeat =>
    cases hds
    cases ha
  | start feeds es us out hn =>
    cases hds
    cases ha
    exact hn

/-- What grounds a transaction of a deed that takes the node from `n` to `n'` after the acts
`before`. -/
inductive Grounds (r : LaunchEnv α φ) (before : List Act) (n n' : Node) :
    Deed φ → LaunchTx → Prop where
  | node (d : Deed φ) (a : Act) (tx : SendTx) : d.act? = some a →
      Warranted r.env before n n' a tx → Grounds r before n n' d (.node tx)
  | price (returned : Bool) (tx : PriceTx) (out : List (PriceEffect φ)) :
      PriceUpOracle.Feeds r.prices n.loop.st.now tx →
      Grounds r before n n' (.price returned (some tx) out) (.price tx)
  | heartBeat (returned : Bool) (out : List HeartEffect) :
      RelayerHeartBeat.Missing r.hearts n.loop.st.now →
      Grounds r before n n' (.heartBeat returned out) (.heartBeat RelayerHeartBeat.heartTx)

/-- Step lemma. -/
theorem grounds_step (hslow : r.env.cfg.isFastRelayer = false) {hist : List Act}
    {p p' : Process} {d : Deed φ} (ht : Traced r.env.cfg hist p.node)
    (hstep : LaunchStep q l r p [d] p') {tx : LaunchTx} (hsends : d.Sends tx) :
    Grounds r hist p.node p'.node d tx := by
  cases hsends with
  | node _ a tx ha htx =>
    exact .node d a tx ha (warranted_step ht (nodeStep_of_step hslow hstep ha) htx)
  | price returned tx out =>
    generalize hds : [Deed.price returned (some tx) out] = ds at hstep
    cases hstep with
    | @price st _ _ queue next f outcome =>
      obtain ⟨-, htx, -⟩ := Deed.price.inj (List.cons.inj hds).1
      have hval : (PriceUpOracle.period outcome r.prices st).val = .ok (some tx) := by
        generalize (PriceUpOracle.period outcome r.prices st).val = v at htx ⊢
        rcases v with e | _ | tx'
        · cases htx
        · cases htx
        · rw [Option.some.inj htx]
      exact .price _ _ _ (PriceUpOracle.feeds_of_period hval)
    | act feeds hn _ =>
      obtain ⟨b, -, hb⟩ := List.map_eq_singleton_iff.mp hds.symm
      cases hb
    | vspFeed | heartBeat | start => cases hds
  | heartBeat returned tx out htx =>
    generalize hds : [Deed.heartBeat returned out] = ds at hstep
    cases hstep with
    | heartBeat queue next f outcome =>
      obtain ⟨-, rfl⟩ := Deed.heartBeat.inj (List.cons.inj hds).1
      obtain ⟨rfl, hmissing⟩ := RelayerHeartBeat.sent_iff.mp htx
      exact .heartBeat _ _ hmissing
    | act feeds hn _ =>
      obtain ⟨b, -, hb⟩ := List.map_eq_singleton_iff.mp hds.symm
      cases hb
    | vspFeed | price | start => cases hds

end Loop

end Bifrost
