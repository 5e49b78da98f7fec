import Bifrost.Periodic.VspRun

/-!
# Failed periods

The marker is written before the reads for the vote, the handlers of a failed
transaction leave it, and the clone takes it over. So a period that raises after
the round reads, or whose vote does not go through, has given up the vote of its
round: every later period finds the round at the marker and returns nothing.
-/

namespace Bifrost

open Bifrost.Lib

namespace VSPFeed

variable {env : Env} {s : RState}

/-- A new round is the marker after the period, whatever becomes of the rest. -/
theorem currentRound_of_new (hup : RoundsUp env s) (hnew : s.currentRound < readRound env s) :
    (buildTransactionParams env s).st.currentRound = readRound env s := by
  rw [period_fresh hup hnew, Res.after_st, newRound_st]

/-- A round that is the marker is not voted for. -/
theorem val_of_marker (hup : RoundsUp env s) (hold : readRound env s = s.currentRound) :
    (buildTransactionParams env s).val = .ok none := by
  rw [period_stale hup hold.le]

/-- **A failed period loses its vote.** A period that finds a new round and raises has moved the
marker; and the clone of a period whose vote failed or had no receipt does not vote for the round
again, whenever and with whatever answers it is handled while BIFROST is in that round. -/
theorem failed_period_loses_vote (hup : RoundsUp env s)
    (hnew : s.currentRound < readRound env s) :
    (∀ e, (buildTransactionParams env s).val = .error e →
      (buildTransactionParams env s).st.currentRound ≠ s.currentRound) ∧
    ∀ tx outcome, (buildTransactionParams env s).val = .ok (some tx) → outcome ≠ .success →
      ∀ (self next : VSPFeed) (env' : Env) (t t' : RState) (w : List Effect),
        self.cloneNext env (VSPFeed.period outcome env s).st = ⟨.ok next, t, w⟩ →
        t'.currentRound = t.currentRound → RoundsUp env' t' →
        readRound env' t' = readRound env s → (buildTransactionParams env' t').val = .ok none := by
  have hmark := currentRound_of_new hup hnew
  refine ⟨fun e _ => ?_, fun tx outcome _ _ self next env' t t' w hclone ht' hup' hround => ?_⟩
  · rw [hmark]
    exact hnew.ne'
  · obtain ⟨next', hrun⟩ := cloneNext_run env (VSPFeed.period outcome env s).st self
    rw [hrun] at hclone
    cases hclone
    apply val_of_marker hup'
    rw [hround, ht', period_st, hmark]

end VSPFeed

/-! ## One lost round -/

namespace Sample

/-- BIFROST is in round 6, with a marker at 5, and the read of the relayer list fails. -/
def listDownEnv : Env := { Sample.env (changingView 9) with down := fun n => n = 5 }

/-- The same chain without a failure. -/
def steadyEnv : Env := Sample.env (changingView 100)

/-- The state behind a vote for round 6 without a receipt. -/
def unreceipted : RState := (VSPFeed.period .noReceipt steadyEnv (state outbound.msg)).st

end Sample

namespace VSPFeed

/-- A list read that fails, and a transaction without a receipt. -/
theorem failed_period_loses_vote_sample :
    (buildTransactionParams Sample.listDownEnv (Sample.state Sample.outbound.msg)).st.currentRound ≠
        5 ∧
      (buildTransactionParams Sample.steadyEnv Sample.unreceipted).val = .ok none := by
  have hup : ∀ env : Env, env.cfg = Sample.cfg → (∀ i ≤ 2, env.down i = false) →
      RoundsUp env (Sample.state Sample.outbound.msg) := by
    intro env hcfg hdown i hi
    rw [hcfg] at hi
    show env.down (0 + i) = false
    rw [Nat.zero_add]
    exact hdown i hi
  have hlist := failed_period_loses_vote (hup Sample.listDownEnv rfl (by decide)) (by decide)
  have hvote := failed_period_loses_vote (hup Sample.steadyEnv rfl fun _ _ => rfl) (by decide)
  exact ⟨hlist.1 .rpc (by decide +kernel), hvote.2 (Sample.voteTx [Sample.account.address.hex])
    .noReceipt (by decide +kernel) (by decide) ⟨60, 1⟩ ⟨60, 60001⟩ Sample.steadyEnv
    Sample.unreceipted Sample.unreceipted [] rfl rfl (fun _ _ => rfl) rfl⟩

/-- A failed read moves the marker, and after a failed transaction there is no second vote though
every read succeeds and BIFROST is in the same round. -/
theorem failed_period_not_retried :
    (¬ ∀ (env : Env) (s : RState) (e : Exn), RoundsUp env s → s.currentRound < readRound env s →
      (buildTransactionParams env s).val = .error e →
      (buildTransactionParams env s).st.currentRound = s.currentRound) ∧
    ¬ ∀ (env : Env) (s t : RState) (tx : SendTx) (outcome : TxOutcome) (self next : VSPFeed)
      (w : List Effect), (∀ n, env.down n = false) → s.currentRound < readRound env s →
      (buildTransactionParams env s).val = .ok (some tx) → outcome ≠ .success →
      self.cloneNext env (VSPFeed.period outcome env s).st = ⟨.ok next, t, w⟩ →
      readRound env t = readRound env s →
      ∃ tx', (buildTransactionParams env t).val = .ok (some tx') ∧
        votedRound tx' = some (readRound env s) := by
  refine ⟨fun hall => ?_, fun hall => ?_⟩
  · have h := hall Sample.listDownEnv (Sample.state Sample.outbound.msg) .rpc
      (fun i hi => by revert i; decide) (by decide) (by decide +kernel)
    revert h
    decide +kernel
  · obtain ⟨tx', h, -⟩ := hall Sample.steadyEnv (Sample.state Sample.outbound.msg)
      Sample.unreceipted (Sample.voteTx [Sample.account.address.hex]) .noReceipt ⟨60, 1⟩
      ⟨60, 60001⟩ [] (fun _ => rfl) (by decide) (by decide +kernel) (by decide) rfl rfl
    have hnone : (buildTransactionParams Sample.steadyEnv Sample.unreceipted).val = .ok none := by
      decide +kernel
    rw [hnone] at h
    cases h

end VSPFeed

end Bifrost
