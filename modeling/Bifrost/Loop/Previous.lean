import Bifrost.Loop.AuthCache
import Bifrost.Periodic.VspCase

/-!
# Serving relayers

`is_previous_relayer` looks for the key of the round before in the cache and
reads nothing. A relayer that served in that round has the key if some step has
observed the round: a period of the feed that read exactly this round as the
latest one, or the check of a Socket event of the round (`previous_recognised`).
When the chain goes through the round between two periods, nothing does.
-/

namespace Bifrost

open Bifrost.Lib

variable {env : Env} {s s' : RState}

/-- Every answer lists the relayer among the relayers of round `k`. -/
def SelectedThroughout (env : Env) (k : Int) : Prop :=
  ∀ t, env.account.address.hex ∈
    ((env.view t).previousSelectedRelayers .bifrost k true).map lower

theorem SelectedThroughout.rank {k : Int} (h : SelectedThroughout env k) (t : Nat) :
    ∃ i, rank ((env.view t).previousSelectedRelayers .bifrost k true) env.account.address =
      some i := by
  apply Option.isSome_iff_exists.mp
  rw [Bifrost.rank, index?_isSome, sortedLower, mem_sorted]
  exact h t

/-- The check of an event of round `k`, from a supported chain, with its read up. -/
def RbcEvent.ObservesRound (env : Env) (s : RState) (e : RbcEvent) (k : Int) : Prop :=
  (e.msg.roundId.val : Int) = k ∧
    (∃ c ∈ env.cfg.supportedChainList, e.srcChain? env.cfg.network = some c) ∧
    env.down s.now = false

/-- A period that reads `k` as a new round, with its reads up to the relayer's index up. -/
def VSPFeed.ObservesRound (env : Env) (s : RState) (k : Int) : Prop :=
  (VSPFeed.readRound env s : Int) = k ∧ s.currentRound < VSPFeed.readRound env s ∧
    VSPFeed.RoundsUp env s ∧ env.down (VSPFeed.afterRounds env s).now = false

/-- The step observes round `k`. -/
def Taken.ObservesRound (env : Env) (l : Taken) (k : Int) : Prop :=
  match l.action with
  | .period _ => VSPFeed.ObservesRound env l.before k
  | .check e | .handle _ e => e.ObservesRound env l.before k
  | .start | .register | .roundUp .. | .detect .. | .wait => False

/-! ## One step -/

namespace VSPFeed

theorem newRound_key {rnd : Nat} (hsel : SelectedThroughout env rnd)
    (hup : env.down s.now = false) : ((newRound rnd env s).st.cache rnd).isSome := by
  obtain ⟨i, hi⟩ := hsel.rank s.now
  have hindex : updateIndex rnd env s = ⟨.ok (),
      { s.tick with cache := Function.update s.cache rnd (some (some i)) },
      [.called .bifrost "previous_selected_relayers"]⟩ := by
    have hread : env.read s (fun v => rank (v.relayers .bifrost (some rnd) true)
        env.account.address) = .ok (some i) := by
      rw [read_up hup, ← hi]
      rfl
    unfold updateIndex
    rw [Proc.bind_run, fetchRelayerIndex_run]
    dsimp only [Option.getD_none]
    rw [hread]
    rfl
  have hrest : Quiet (do
      let env ← Proc.ask
      let selected ← RM.isSelectedRelayer .bifrost (some (rnd - 1)) env.account.address true
      if !selected then pure none else vote rnd : RM SendParamTuple) := by
    exact .bind .ask fun _ => .bind (.isSelectedRelayer ..) fun _ =>
      .ite (.pure _) (quiet_vote rnd)
  unfold newRound
  rw [Proc.bind_run, hindex, Res.andThen_ok, Res.after_st]
  apply hrest.cache _ (CacheProp.key rnd)
  dsimp only
  rw [Function.update_self]
  rfl

theorem key_of_period {k : Int} (outcome : TxOutcome) (hsel : SelectedThroughout env k)
    (h : ObservesRound env s k) : (((VSPFeed.period outcome env s).st).cache k).isSome := by
  obtain ⟨rfl, hnew, hup, hindex⟩ := h
  rw [VSPFeed.period_st, period_fresh hup hnew, Res.after_st]
  exact newRound_key hsel hindex

end VSPFeed

namespace RbcEvent

variable {e : RbcEvent} {k : Int}

/-- A check that observes the round of a serving relayer is True. -/
theorem check_of_observed (hrole : env.cfg.isFastRelayer = false) (hsel : SelectedThroughout env k)
    (h : e.ObservesRound env s k) : ∃ t w, e.checkMyEvent env s = ⟨.ok true, t, w⟩ := by
  obtain ⟨rfl, ⟨c, hm, hc⟩, hup⟩ := h
  by_cases hv : (s.cache e.msg.roundId.val).join.isSome
  · exact ⟨s, [], Passed.check (.inr ⟨⟨c, hm, hc⟩, hv⟩)⟩
  · obtain ⟨i, hi⟩ := hsel.rank s.now
    have hread : env.read s (fun v => rank (v.relayers .bifrost (some e.msg.roundId.val) true)
        env.account.address) = .ok (some i) := by
      rw [read_up hup, ← hi]
      rfl
    unfold checkMyEvent
    rw [Proc.bind_run, getConfig_run, Res.andThen_ok, Res.after_nil, if_neg (by simp [hrole]),
      Proc.bind_run, srcChain_run hc, Res.andThen_ok, Res.after_nil, if_neg (not_not.mpr hm),
      Proc.bind_run, rnd_run hc, Res.andThen_ok, Res.after_nil, Proc.bind_run, getValueByKey_run,
      Res.andThen_ok, Res.after_nil, if_neg hv, Proc.bind_run, fetchRelayerIndex_run]
    dsimp only [Option.getD_none]
    rw [hread]
    exact ⟨_, _, rfl⟩

/-- A True check leaves the key. -/
theorem key_of_check {t : RState} {w : List Effect} (hrole : env.cfg.isFastRelayer = false)
    (h : e.checkMyEvent env s = ⟨.ok true, t, w⟩) : (t.cache e.msg.roundId.val).isSome := by
  rcases passed_of_check h with hf | ⟨-, hv⟩
  · rw [hrole] at hf
    cases hf
  · cases hc : t.cache e.msg.roundId.val with
    | none =>
      rw [hc] at hv
      cases hv
    | some v => rfl

/-- Behind its check, a handler runs as if it began there. -/
theorem handler_after_check {t : RState} {w : List Effect} (h : Handler)
    (hcheck : e.checkMyEvent env s = ⟨.ok true, t, w⟩) :
    (h.run e env s).st = (h.run e env t).st := by
  obtain ⟨α, f, body, heq⟩ := h.exists_guarded e
  have hagain := (passed_of_check hcheck).check
  rw [heq]
  unfold RM.reply guarded
  simp only [Proc.bind_run, hcheck, hagain, Res.andThen_ok, if_true]
  rcases body env t with ⟨_ | _, _, _⟩ <;> rfl

theorem key_of_handler (hrole : env.cfg.isFastRelayer = false) (hsel : SelectedThroughout env k)
    (hobs : e.ObservesRound env s k) (h : Handler) : (((h.run e env s).st).cache k).isSome := by
  obtain ⟨t, w, hcheck⟩ := check_of_observed hrole hsel hobs
  rw [handler_after_check h hcheck, ← hobs.1]
  exact h.keepsCache_run e _ (CacheProp.key _) env t (key_of_check hrole hcheck)

end RbcEvent

theorem key_of_step {l : Taken} {k : Int} (hrole : env.cfg.isFastRelayer = false)
    (hsel : SelectedThroughout env k) (h : l.ObservesRound env k) :
    ((l.action.run env l.before).cache k).isSome := by
  obtain ⟨s, a⟩ := l
  cases a with
  | period outcome => exact VSPFeed.key_of_period outcome hsel h
  | check e =>
    obtain ⟨t, w, hcheck⟩ := RbcEvent.check_of_observed hrole hsel h
    show (((e.checkMyEvent env s).st).cache k).isSome
    rw [hcheck, ← h.1]
    exact RbcEvent.key_of_check hrole hcheck
  | handle h' e => exact RbcEvent.key_of_handler hrole hsel h h'
  | _ => exact h.elim

/-- A registration leaves the key of every round, with or without an index. -/
theorem key_of_action {a : Action} {k : Int} (h : (s.cache k).isSome) :
    ((a.run env s).cache k).isSome := by
  refine cacheProp_action (CacheProp.key k) (fun k' _ s t v _ hs => ?_) h
  dsimp only
  by_cases hk : k = k'
  · rw [hk, Function.update_self]
    rfl
  · rwa [Function.update_of_ne hk]

/-! ## Runs -/

/-- Run lemma: from the step that observes it on, the round has its key. -/
theorem key_of_run {ls : List Taken} {k : Int} (hrole : env.cfg.isFastRelayer = false)
    (hsel : SelectedThroughout env k) (hrun : AuthRun env s ls s')
    (hobs : ∃ l ∈ ls, l.ObservesRound env k) : (s'.cache k).isSome := by
  refine hrun.invariant (P := fun hist s => (∃ l ∈ hist, l.ObservesRound env k) →
    (s.cache k).isSome) ?_ ?_ hobs
  · rintro ⟨l, hl, -⟩
    cases hl
  · rintro hist s ls s' ih ⟨a⟩ ⟨l, hl, hobs⟩
    rcases List.mem_append.mp hl with hl | hl
    · exact key_of_action (ih ⟨l, hl, hobs⟩)
    · obtain rfl := List.mem_singleton.mp hl
      exact key_of_step hrole hsel hobs

/-- **Recognised when observed.** In every run in which some step before the handling has observed
the round before, a relayer of that round is recognised by `is_previous_relayer`. -/
theorem previous_recognised {ls : List Taken} {e : RoundUpEvent}
    (hsel : SelectedThroughout env (e.round - 1)) (hrun : AuthRun env s ls s')
    (hobs : env.cfg.isFastRelayer = true ∨ ∃ l ∈ ls, l.ObservesRound env (e.round - 1)) :
    (e.isPreviousRelayer env s').val = .ok true := by
  cases hrole : env.cfg.isFastRelayer with
  | true =>
    simp [RoundUpEvent.isPreviousRelayer, hrole]
  | false =>
    have hobs := hobs.resolve_left (by simp [hrole])
    rw [isPreviousRelayer_run hrole, key_of_run hrole hsel hrun hobs]

/-! ## A round between two periods -/

namespace Sample

/-- BIFROST is in round 3 at the start, goes on to round 4 behind its four reads, and is in round
5 for one read only. The sample relayer is the only one in every round. -/
def hastyEnv : Env := Sample.env fun t =>
  { view [account.address.hex] .accepted with
    latestRound := fun _ => if t < 4 then 3 else if t < 10 then 4 else if t = 10 then 5 else 6 }

theorem selected_hasty (k : Int) : SelectedThroughout hastyEnv k := by
  intro t
  show account.address.hex ∈ [account.address.hex].map lower
  decide +kernel

theorem monotone_hasty {t t' : Nat} (h : t ≤ t') :
    (hastyEnv.view t).latestRound .bifrost ≤ (hastyEnv.view t').latestRound .bifrost := by
  show (if t < 4 then 3 else if t < 10 then 4 else if t = 10 then 5 else 6) ≤
    if t' < 4 then 3 else if t' < 10 then 4 else if t' = 10 then 5 else 6
  split_ifs <;> omega

/-- Before the first period, with nothing cached for a round. -/
def newborn : RState := { fresh with currentRound := 3 }

/-- A start, and a period in round 4. -/
def served : RState := (Action.period .success).run hastyEnv (Action.start.run hastyEnv newborn)

def servedRun : List Taken :=
  [⟨newborn, .start⟩, ⟨Action.start.run hastyEnv newborn, .period .success⟩]

theorem served_run : AuthRun hastyEnv newborn servedRun served :=
  .cons (.take newborn .start) (.single (AuthStep.take _ (.period .success)))

end Sample

/-- The next period begins in round 5, and the event of round 6 finds the key. -/
theorem previous_recognised_sample :
    (Sample.roundUp.isPreviousRelayer Sample.hastyEnv
      ((Action.period .success).run Sample.hastyEnv Sample.served)).val = .ok true := by
  refine previous_recognised (Sample.selected_hasty _)
    (Sample.served_run.trans (.single (AuthStep.take _ (.period .success)))) (.inr ?_)
  refine ⟨⟨Sample.served, .period .success⟩, by simp, ?_, ?_, ?_, rfl⟩
  · decide +kernel
  · decide +kernel
  · exact fun _ _ => rfl

/-- One read later the chain has gone through round 5, and the event of round 6 finds no key,
though the relayer has run since round 3, every read has succeeded, and the chain lists the
relayer in every round. -/
theorem previous_not_recognised : ∃ (env : Env) (s s' : RState) (ls : List Taken),
    env.cfg.isFastRelayer = false ∧ (∀ t, env.down t = false) ∧
    (∀ k, SelectedThroughout env k) ∧
    (∀ t t', t ≤ t' → (env.view t).latestRound .bifrost ≤ (env.view t').latestRound .bifrost) ∧
    ls.head? = some ⟨s, .start⟩ ∧
    ((env.view s.now).latestRound .bifrost : Int) < Sample.roundUp.round - 1 ∧
    AuthRun env s ls s' ∧ (env.view s'.now).latestRound .bifrost = Sample.roundUp.round ∧
    Sample.roundUp.statusData = ChainEventStatus.nextAuthorityCommitted.value ∧
    (Sample.roundUp.isPreviousRelayer env s').val = .ok false := by
  have hrun := (Sample.served_run.trans (.single (AuthStep.take _ .wait))).trans
    (.single (AuthStep.take _ (.period .success)))
  refine ⟨Sample.hastyEnv, Sample.newborn, _, _, rfl, fun _ => rfl, Sample.selected_hasty,
    fun _ _ => Sample.monotone_hasty, rfl, by decide +kernel, hrun, ?_, rfl, ?_⟩
  · decide +kernel
  · have hkey : (((Action.period .success).run Sample.hastyEnv (Action.wait.run
        Sample.hastyEnv Sample.served)).cache 5) = none := by decide +kernel
    rw [isPreviousRelayer_run rfl]
    have hround : (Sample.roundUp.round : Int) - 1 = 5 := rfl
    rw [hround, hkey]
    rfl

end Bifrost
