import Bifrost.Events.RbcSpec
import Bifrost.Events.RoundUp
import Bifrost.Relayer.Config

/-!
# Time locks of detected events

The factories `RbcEvent.init`, `ExternalRbcEvent.init` and `RoundUpEvent.init` turn the time lock
of a detected log into the one of its event, with the delay that the loader left in the
configuration. They use it for all roles but the fast one, where the log is a live RoundUp;
the loader requires it of slow relayers only.
-/

namespace Bifrost

open Bifrost.Lib

variable {env : Env} {s : RState}

/-- The constructor, and the log line of a slow relayer. -/
def RbcEvent.constructLogged (cls : EventClass) (ref : Ref) (timeLock : Nat) : RM RbcEvent := do
  let ret ← construct cls ref timeLock
  ret.summary
  pure ret

/-- Under the configuration every factory computes a lock and goes on to construct the event.
A log without a class has no event. -/
structure SuppliesDelays (cfg : Config) : Prop where
  socket : ∀ (env : Env) (s : RState) (ref : Ref) (cls : EventClass) (t : Nat), env.cfg = cfg →
    cfg.relayerRole ≠ .fastRelayer → t ≤ env.msec s.now →
    (s.heap ref).decoded.status.val = cls.status.value →
    ∃ lock, t ≤ lock ∧ (RbcEvent.init ref t env s = RbcEvent.construct cls ref lock env s ∨
      RbcEvent.init ref t env s = RbcEvent.constructLogged cls ref lock env s)
  external : ∀ (env : Env) (s : RState) (ref : Ref) (cls : EventClass) (t : Nat), env.cfg = cfg →
    cfg.relayerRole = .fastRelayer → t ≤ env.msec s.now →
    (s.heap ref).decoded.status.val = cls.status.value →
    ∃ e, RbcEvent.externalInit ref t env s = ⟨.ok e, s, []⟩ ∧ ∀ e' ∈ e, t ≤ e'.timeLock
  roundUp : ∀ (env : Env) (s : RState) (log : RoundUpLog) (t : Nat), env.cfg = cfg →
    t ≤ env.msec s.now →
    ∃ lock, RoundUpEvent.init log t env s = RoundUpEvent.construct log lock env s ∧
      if t = 0 ∨ cfg.relayerRole = .fastRelayer then lock = 0 else t ≤ lock

/-! ## One factory -/

namespace RbcEvent

/-- The lock of a Socket event is the given one, or later by the delay of a slow relayer. -/
theorem init_lock {ref : Ref} {cls : EventClass} {t : Nat}
    (hdelay : env.cfg.relayerRole = .slowRelayer → env.cfg.slowRelayerDelaySec.isSome)
    (h : (s.heap ref).decoded.status.val = cls.status.value) :
    ∃ lock, t ≤ lock ∧ (init ref t env s = construct cls ref lock env s ∨
      init ref t env s = constructLogged cls ref lock env s) := by
  by_cases hslow : t ≠ 0 ∧ env.cfg.relayerRole = .slowRelayer ∧ cls.isAggregated
  · obtain ⟨ht, hrole, hagg⟩ := hslow
    obtain ⟨d, hd⟩ := Option.isSome_iff_exists.mp (hdelay hrole)
    refine ⟨t + d * 1000, by omega, .inr ?_⟩
    simp [init, statusOfLog_run h, ht, hrole, hagg, hd, constructLogged]
  · exact ⟨t, le_rfl, .inl (init_undelayed (fun ht hrest => hslow ⟨ht, hrest⟩) h)⟩

/-- A fast relayer's Socket event keeps the given lock. -/
theorem externalInit_lock {ref : Ref} {cls : EventClass} {t : Nat}
    (h : (s.heap ref).decoded.status.val = cls.status.value) :
    ∃ e, externalInit ref t env s = ⟨.ok e, s, []⟩ ∧ ∀ e' ∈ e, t ≤ e'.timeLock := by
  rw [externalInit_run t h]
  split
  · refine ⟨_, rfl, fun e' he' => ?_⟩
    cases he'
    exact le_rfl
  · exact ⟨none, rfl, fun e' he' => by cases he'⟩

end RbcEvent

namespace RoundUpEvent

/-- Bootstrap and fast relayers take the lock zero, the other roles delay from now. -/
theorem init_lock {log : RoundUpLog} {t : Nat} (ht : t ≤ env.msec s.now)
    (hdelay : env.cfg.relayerRole = .fastRelayer ∨ env.cfg.slowRelayerDelaySec.isSome) :
    ∃ lock, init log t env s = construct log lock env s ∧
      if t = 0 ∨ env.cfg.relayerRole = .fastRelayer then lock = 0 else t ≤ lock := by
  by_cases hzero : t = 0 ∨ env.cfg.relayerRole = .fastRelayer
  · refine ⟨0, ?_, by rw [if_pos hzero]⟩
    simp [init, Config.isFastRelayer, hzero]
  · rw [not_or] at hzero
    obtain ⟨d, hd⟩ := Option.isSome_iff_exists.mp (hdelay.resolve_left hzero.2)
    refine ⟨env.msec s.now + d * 1000, ?_, ?_⟩
    · simp [init, Config.isFastRelayer, hzero, hd]
    · rw [if_neg (not_or.mpr hzero)]
      omega

/-- Without a delay, the other roles raise on every live log. -/
theorem init_without_delay {log : RoundUpLog} {t : Nat} (ht : t ≠ 0)
    (hrole : env.cfg.relayerRole ≠ .fastRelayer) (hdelay : env.cfg.slowRelayerDelaySec = none) :
    init log t env s = ⟨.error .typeError, s, []⟩ := by
  simp [init, Config.isFastRelayer, ht, hrole, hdelay]

theorem construct_ne_typeError {log : RoundUpLog} {lock : Nat} :
    (construct log lock env s).val ≠ .error .typeError := by
  unfold construct
  rw [Proc.bind_run, getConfig_run, Res.andThen_ok, Res.after_nil]
  split <;> simp

end RoundUpEvent

namespace Sample

/-- A process with the configuration `cfg` at the first millisecond. -/
def configEnv (cfg : Config) : Env := { soleEnv .none with cfg := cfg, msec := fun _ => 1 }

def roundUpLog : RoundUpLog := ⟨10, 5, [], ⟨[], [], []⟩, 7⟩

end Sample

/-! ## All factories -/

theorem suppliesDelays_iff {cfg : Config} :
    SuppliesDelays cfg ↔ cfg.relayerRole = .fastRelayer ∨ cfg.slowRelayerDelaySec.isSome := by
  constructor
  · intro h
    by_contra hno
    rw [not_or, Option.not_isSome_iff_eq_none] at hno
    -- a live RoundUp log tells them apart
    obtain ⟨lock, hinit, -⟩ := h.roundUp (Sample.configEnv cfg) (Sample.state Sample.outbound.msg)
      Sample.roundUpLog 1 rfl le_rfl
    rw [RoundUpEvent.init_without_delay Nat.one_ne_zero hno.1 hno.2] at hinit
    exact RoundUpEvent.construct_ne_typeError (congrArg Res.val hinit).symm
  · intro h
    refine ⟨?_, ?_, ?_⟩
    · rintro env s ref cls t rfl hrole - hcls
      exact RbcEvent.init_lock (fun _ => h.resolve_left hrole) hcls
    · rintro env s ref cls t rfl - - hcls
      exact RbcEvent.externalInit_lock hcls
    · rintro env s log t rfl ht
      exact RoundUpEvent.init_lock ht h

namespace Relayer

variable {lib : ConfigLib} {relayerConfigDict : Json} {privateConfigDict : Option Json}
  {privateKey : Option Str} {role : Option RelayerRole} {slowRelayerDelaySec : Option Nat}
  {isTestnet : Bool} {bridge : Bridge} {g : FastRelayerConfig} {network : Network}
  {prometheusOn : Bool} {cfg : Config}

theorem delay?_isSome {v : Json} {delay : Option Nat} (h : Json.delay? v = some delay) :
    delay.isSome ↔ ∃ n : Nat, v = .int n := by
  unfold Json.delay? at h
  split at h
  · cases h
    simp
  · next n =>
    cases h
    exact ⟨fun _ => ⟨n, rfl⟩, fun _ => rfl⟩
  · cases h

/-- The settled delay is a number where it was given as one, or a slow relayer's config has one. -/
theorem slowDelay_isSome {merged v : Json} {r : RelayerRole} {delay : Option Nat}
    (h : slowDelay merged r slowRelayerDelaySec = .ok v) (hv : Json.delay? v = some delay) :
    delay.isSome ↔ slowRelayerDelaySec.isSome ∨
      r = .slowRelayer ∧ ∃ n : Nat, configuredDelay merged = .ok (.int n) := by
  rw [delay?_isSome hv]
  cases slowRelayerDelaySec with
  | some n =>
    cases h
    exact ⟨fun _ => .inl rfl, fun _ => ⟨n, rfl⟩⟩
  | none =>
    rw [slowDelay] at h
    split at h
    · next hr =>
      rw [exceptValueError_eq_ok] at h
      rw [h]
      simp [hr]
    · next hr =>
      cases h
      simp [hr]

/-- An accepted configuration supplies the delays where the relayer is fast, the delay was given
as an argument, or the relayer is slow and its config has a number. -/
theorem suppliesDelays_iff_of_accepted
    (hload : initFromDicts lib relayerConfigDict privateConfigDict privateKey role
      slowRelayerDelaySec isTestnet = .ok (bridge, g))
    (hcfg : g.config? bridge network prometheusOn = some cfg) :
    SuppliesDelays cfg ↔ role = some .fastRelayer ∨ slowRelayerDelaySec.isSome ∨
      role = some .slowRelayer ∧ ∃ n : Nat,
        (mergedDict lib relayerConfigDict privateConfigDict privateKey).bind configuredDelay =
          .ok (.int n) := by
  obtain ⟨hrole, merged, hmerged, hslow⟩ := initFromDicts_ok hload
  obtain ⟨delay, hdelay, rfl⟩ := Option.map_eq_some_iff.mp hcfg
  have hsome := slowDelay_isSome hslow hdelay
  rw [suppliesDelays_iff, hrole, hmerged, Option.some_inj, Option.some_inj]
  exact or_congr_right hsome

end Relayer

namespace Sample

/-- The entity of the shipped config, with its delay. -/
def relayerConfigDict : Json :=
  .dict [("entity".toList, .dict [("role".toList, .str "slow-relayer".toList),
    ("slow_relayer_delay_sec".toList, .int 1000)])]

def bridge : Bridge := ⟨[.bifrost, .ethereum], fun _ => 1⟩

def configLib : ConfigLib where
  mergeDict := fun relayerConfig _ => .ok relayerConfig
  secretHex := .ok
  configSanityCheck := fun _ => .ok ()
  isMeaningful := fun _ => .ok true
  construct := fun _ => .ok bridge

/-- The global configuration without oracles. -/
def globalConfig (role : RelayerRole) (delay : Json) : FastRelayerConfig where
  relayerRole := role
  isTestnet := false
  slowRelayerDelaySec := delay
  rbcEventCallDelaySec := 600
  roundupEventCallDelaySec := 200
  priceOracleAssets := .null
  priceSourceUrlDict := .null
  priceSourceCollectionPeriodSec := 300
  btcHashSourceUrl := .null
  btcHashSourceCollectionPeriodSec := 300
  validatorSetCheckPeriodSec := 60

end Sample

namespace Relayer

/-- A slow relayer with the shipped config. -/
theorem suppliesDelays_iff_of_accepted_slow :
    initFromDicts Sample.configLib Sample.relayerConfigDict none none (some .slowRelayer) none
      false = .ok (Sample.bridge, Sample.globalConfig .slowRelayer (.int 1000)) ∧
    SuppliesDelays
      { Sample.cfg with relayerRole := .slowRelayer, slowRelayerDelaySec := some 1000 } := by
  have hload : initFromDicts Sample.configLib Sample.relayerConfigDict none none
      (some .slowRelayer) none false =
      .ok (Sample.bridge, Sample.globalConfig .slowRelayer (.int 1000)) := rfl
  have hcfg : (Sample.globalConfig .slowRelayer (.int 1000)).config? Sample.bridge .mainnet false =
      some { Sample.cfg with relayerRole := .slowRelayer, slowRelayerDelaySec := some 1000 } := rfl
  exact ⟨hload, (suppliesDelays_iff_of_accepted hload hcfg).mpr
    (.inr (.inr ⟨rfl, 1000, rfl⟩))⟩

/-- A general relayer with the shipped config is accepted, has no delay, and raises on a live
RoundUp log. -/
theorem general_without_delay :
    initFromDicts Sample.configLib Sample.relayerConfigDict none none (some .generalRelayer) none
      false = .ok (Sample.bridge, Sample.globalConfig .generalRelayer .null) ∧
    (Sample.globalConfig .generalRelayer .null).config? Sample.bridge .mainnet false =
      some { Sample.cfg with slowRelayerDelaySec := none } ∧
    (RoundUpEvent.init Sample.roundUpLog 1
      (Sample.configEnv { Sample.cfg with slowRelayerDelaySec := none })
      (Sample.state Sample.outbound.msg)).val = .error .typeError ∧
    ¬ SuppliesDelays { Sample.cfg with slowRelayerDelaySec := none } := by
  refine ⟨rfl, rfl, ?_, ?_⟩
  · rw [RoundUpEvent.init_without_delay Nat.one_ne_zero (by decide) rfl]
  · rw [suppliesDelays_iff]
    decide

end Relayer

end Bifrost
