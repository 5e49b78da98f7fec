import Bifrost.Loop

/-!
# The heartbeat

`rbclib/periodic/heartbeat.py`. Every period reads whether BIFROST has a heartbeat
of the relayer in this session, and sends one if it has none; a success counts in
the exporter, which also measures its running time then. The read is one that no
other handler makes, so its answers are given beside the relayer's environment.
-/

namespace Bifrost

open Bifrost.Lib

structure HeartEnv where
  env : Env
  /-- `is_heartbeat_pulsed`, as the `n`-th remote read answers it. -/
  isHeartbeatPulsed : Nat → Str → Bool
  /-- `START_TIME` of the exporter. -/
  startTime : Nat

/-- A transaction tuple of the heartbeat, which has no parameters. -/
structure HeartTx where
  chain : ChainEnum
  contract : String
  method : String
  deriving DecidableEq

inductive HeartEffect where
  | relayer (o : Effect)
  | sent (tx : HeartTx)
  /-- `HEARTBEAT_COUNTER.inc()` -/
  | heartbeat
  /-- `RUNNING_SESSIONS.set`, of the milliseconds since the start of the exporter. -/
  | runningTime (elapsed : Int)

abbrev HM := Proc HeartEnv Exn RState HeartEffect

structure RelayerHeartBeat where
  periodSec : Nat
  timeLock : Nat
  deriving DecidableEq

namespace RelayerHeartBeat

def ofRM {α : Type} (x : RM α) : HM α := Proc.lift HeartEnv.env .relayer x

/-- `is_heart_beat_pulsed`: one remote read. -/
def isHeartBeatPulsed : HM Bool := do
  let r ← Proc.ask
  let s ← Proc.get
  ofRM (RM.worldCall .bifrost "is_heartbeat_pulsed" fun _ =>
    r.isHeartbeatPulsed s.now r.env.account.address.hex)

def exportingRunningTimeMetric : HM Unit := do
  let r ← Proc.ask
  if r.env.cfg.prometheusOn then do
    let now ← ofRM RM.timestampMsec
    Proc.emit (.runningTime (now - r.startTime))
  else pure ()

def exportingHeartbeatMetric : HM Unit := do
  let r ← Proc.ask
  if r.env.cfg.prometheusOn then do
    exportingRunningTimeMetric
    Proc.emit .heartbeat
  else pure ()

/-- The default of `heart_beat_period_sec`, which the class reads when it is defined. -/
def heartBeatPeriodSec : Nat := 30

/-- The heartbeat of the next period. -/
def cloneNext (self : RelayerHeartBeat) : RelayerHeartBeat :=
  ⟨self.periodSec, self.timeLock + self.periodSec * 1000⟩

/-- The transaction of a heartbeat. -/
def heartTx : HeartTx := ⟨.bifrost, "relayer_authority", "heartbeat"⟩

def buildTransactionParams : HM (Option HeartTx) := do
  let pulsed ← isHeartBeatPulsed
  if !pulsed then pure (some heartTx) else pure none

def handleTxResultSuccess : HM Unit := exportingHeartbeatMetric

def handleTxResultFail : HM Unit := pure ()

def handleTxResultNoReceipt : HM Unit := pure ()

def handleTxResult : TxOutcome → HM Unit
  | .success => handleTxResultSuccess
  | .fail => handleTxResultFail
  | .noReceipt => handleTxResultNoReceipt

/-- One period of the heartbeat. -/
def period (outcome : TxOutcome) : HM Unit := do
  let params ← buildTransactionParams
  match params with
  | none => pure ()
  | some tx => do
    Proc.emit (.sent tx)
    handleTxResult outcome

/-! ## Periods -/

variable {r : HeartEnv} {s : RState} {outcome : TxOutcome}

/-- BIFROST answers the `n`-th read, and has no heartbeat of the relayer. -/
def Missing (r : HeartEnv) (n : Nat) : Prop :=
  r.env.down n = false ∧ r.isHeartbeatPulsed n r.env.account.address.hex = false

theorem buildTransactionParams_run : buildTransactionParams r s =
    ⟨if r.env.down s.now then .error .rpc
      else .ok (if r.isHeartbeatPulsed s.now r.env.account.address.hex then none
        else some heartTx), s.tick, [.relayer (.called .bifrost "is_heartbeat_pulsed")]⟩ := by
  unfold buildTransactionParams isHeartBeatPulsed ofRM
  simp only [Proc.bind_run, Proc.ask_run, Proc.get_run, Res.andThen_ok, Res.after_nil,
    Proc.lift_run, worldCall_run, List.map_cons, List.map_nil]
  cases hdown : r.env.down s.now with
  | true => rfl
  | false => cases hpulsed : r.isHeartbeatPulsed s.now r.env.account.address.hex <;> simp

theorem exportingHeartbeatMetric_run : exportingHeartbeatMetric r s =
    ⟨.ok (), s, if r.env.cfg.prometheusOn then
      [.runningTime (r.env.msec s.now - r.startTime), .heartbeat] else []⟩ := by
  unfold exportingHeartbeatMetric exportingRunningTimeMetric ofRM
  cases hon : r.env.cfg.prometheusOn <;> simp [hon]

theorem handleTxResult_run : handleTxResult outcome r s = ⟨.ok (), s,
    if outcome = .success ∧ r.env.cfg.prometheusOn = true then
      [.runningTime (r.env.msec s.now - r.startTime), .heartbeat] else []⟩ := by
  cases outcome with
  | success =>
    rw [handleTxResult, handleTxResultSuccess, exportingHeartbeatMetric_run]
    simp
  | fail | noReceipt => rfl

/-- A period is one read. -/
theorem period_st (r : HeartEnv) (s : RState) (outcome : TxOutcome) :
    (period outcome r s).st = s.tick := by
  rw [period, Proc.bind_run, buildTransactionParams_run]
  cases r.env.down s.now with
  | true => rfl
  | false =>
    cases r.isHeartbeatPulsed s.now r.env.account.address.hex with
    | true => rfl
    | false => simp [handleTxResult_run]

/-- It sends the heartbeat if and only if it is missing. -/
theorem sent_iff {tx : HeartTx} :
    .sent tx ∈ (period outcome r s).out ↔ tx = heartTx ∧ Missing r s.now := by
  rw [period, Proc.bind_run, buildTransactionParams_run, Missing]
  cases hdown : r.env.down s.now with
  | true => simp
  | false =>
    cases hpulsed : r.isHeartbeatPulsed s.now r.env.account.address.hex with
    | true => simp
    | false => cases outcome <;> simp [handleTxResult_run]

end RelayerHeartBeat

end Bifrost
