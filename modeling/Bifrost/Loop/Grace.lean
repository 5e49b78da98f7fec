import Bifrost.Events.RoundUpPrimary
import Bifrost.Loop.FanOut

/-!
# The grace of a primary relayer

A secondary relayer that finds a chain behind defers its clone once, and the
clone reads `latest_round` again when it comes back. So a primary relayer whose
relay reaches the chain before the first deferred clone may run silences all
secondaries, and one whose relay is later does not (`silenced_iff`). The commit
time is in seconds, but the time lock adds it to milliseconds, so a relay that
takes as long as the configuration allows may be relayed again (`not_silenced`).
-/

namespace Bifrost

open Bifrost.Lib

/-- What the relayers of a clone race for: the round of the log reaches the chain in the
millisecond `reached`, and the primary one handles its clone in the millisecond `handledAt`. -/
structure Race where
  log : RoundUpLog
  chain : ChainEnum
  /-- `latest_round` of the chain in each millisecond. -/
  latest : Nat → Nat
  reached : Nat
  handledAt : Nat
  txCommitTimeSec : Nat
  callDelaySec : Nat
  committed : log.statusData = ChainEventStatus.nextAuthorityCommitted.value
  round_lt : log.round < 2 ^ 256
  decoded : ∃ addrs : List Address, log.validatorList = addrs.map Address.hex
  chain_ne : chain ≠ .none
  reached_iff : ∀ m, log.round ≤ latest m ↔ reached ≤ m

namespace Race

variable (R : Race)

/-- The run of a secondary relayer, whose clones wait for their time locks. -/
structure Secondary where
  env : Env
  start : LoopState
  os : List Observed
  stop : LoopState
  run : ObservedRun env start os stop
  clock : Monotone env.msec
  reads : ∀ n, (env.view n).latestRound R.chain = R.latest (env.msec n)
  commitTime : env.cfg.txCommitTimeSec R.chain = R.txCommitTimeSec
  delay : env.cfg.roundupEventCallDelaySec = R.callDelaySec
  /-- No clone has been handled yet. -/
  fresh : ∀ e, .roundUp e ∈ start.queue → e.log = R.log → e.aggregated = true
  after : ∀ o ∈ os, o.event.updates R.log R.chain → R.handledAt ≤ env.msec o.before.now
  due : ∀ o ∈ os, ∀ e, o.event = .roundUp e → o.event.updates R.log R.chain →
    e.timeLock ≤ env.msec o.before.now
  secondary : ∀ o ∈ os, ∀ e, o.event = .roundUp e → o.event.updates R.log R.chain →
    (e.isPrimaryRelayer env o.before.tick).val ≠ .ok true

/-- No secondary relayer, however many there are, relays to the chain. -/
def Silenced : Prop :=
  ∀ secondaries : List R.Secondary, ∀ S ∈ secondaries, relaysTo R.log R.chain S.os = []

/-- When the first deferred clone may run. -/
def resumesAt : Nat := R.handledAt + R.txCommitTimeSec + 1000 * R.callDelaySec

/-- A clone of the chain that was deferred waits for `resumesAt`. -/
def Guarded (q : Queued) : Prop :=
  ∀ e, q = .roundUp e → q.updates R.log R.chain → e.aggregated = true ∨ R.resumesAt ≤ e.timeLock

variable {R}

namespace Secondary

variable (S : R.Secondary) {o : Observed}

theorem valid (ho : o ∈ S.os) : o.Valid S.env :=
  Worker.ok_of_run (work_of_observed S.run) o ho

theorem targetRound_eq (o : Observed) :
    o.targetRound S.env R.chain = R.latest (S.env.msec o.before.now) :=
  S.reads o.before.now

theorem guarded_queued (ho : o ∈ S.os) {q : Queued} (hq : q ∈ o.queued) : R.Guarded q := by
  rintro e rfl hup
  have hon : (Queued.roundUp e).onLog R.log := Queued.onLog_of_updates hup
  obtain ⟨hlog, hchain⟩ := Queued.updates_iff.mp hup
  cases hoff : o.event.onLog R.log with
  | false =>
    rw [RoundUpEvent.not_onLog_of_queued (S.valid ho) hoff _ hq] at hon
    cases hon
  | true =>
    obtain ⟨e', hev, hlog'⟩ := Queued.exists_of_onLog hoff
    rcases (roundUpCase_of_valid (S.valid ho) hev).of_queued hq with ⟨c, heq⟩ | ⟨heq, hnow⟩
    · -- a clone as it is made
      cases heq
      exact .inl rfl
    · cases heq
      have hev' : o.event.updates R.log R.chain := by
        rw [hev]
        exact Queued.updates_iff.mpr ⟨hlog', hchain⟩
      have hafter := S.after o ho hev'
      have hclock := S.clock hnow
      have hchain' : e'.selectedChain = R.chain := hchain
      refine .inr ?_
      show R.resumesAt ≤ e'.nextTimeLock S.env o.after
      rw [resumesAt, RoundUpEvent.nextTimeLock, hchain', S.commitTime, S.delay]
      omega

/-- Every clone that is handled again is handled after `resumesAt`. -/
theorem guarded (ho : o ∈ S.os) : R.Guarded o.event := by
  have hstart : ∀ q ∈ S.start.queue, R.Guarded q := by
    rintro q hq e rfl hup
    exact .inl (S.fresh e hq (Queued.updates_iff.mp hup).1)
  exact (Worker.entries_of_run (work_of_observed S.run)
    (fun o ho _ _ q hq => S.guarded_queued ho hq) hstart).1 o ho

theorem relaysTo_nil (h : R.reached ≤ R.resumesAt) : relaysTo R.log R.chain S.os = [] := by
  refine List.filter_eq_nil_iff.mpr fun tx htx hrelay => ?_
  obtain ⟨o, ho, hsent⟩ := List.mem_flatMap.mp htx
  obtain ⟨ho, hon⟩ := List.mem_filter.mp ho
  obtain ⟨e, hev, hlog⟩ := Queued.exists_of_onLog hon
  obtain ⟨hchain, -, hlt, hprim⟩ := (roundUpCase_of_valid (S.valid ho) hev).of_sent hsent
  have hsel : e.selectedChain = R.chain := hchain.symm.trans (of_decide_eq_true hrelay).1
  have hup : o.event.updates R.log R.chain := by
    rw [hev]
    exact Queued.updates_iff.mpr ⟨hlog, hsel⟩
  have hround : e.round = R.log.round := congrArg RoundUpLog.round hlog
  rw [hsel, S.targetRound_eq, hround] at hlt
  have hbehind : ¬ R.reached ≤ S.env.msec o.before.now := by
    rw [← R.reached_iff]
    omega
  -- neither the primary relayer nor a deferred clone that the round has not overtaken
  rcases hprim with hprim | hagg
  · exact S.secondary o ho e hev hup hprim
  · rcases S.guarded ho e hev hup with hagg' | hlock
    · rw [hagg] at hagg'
      cases hagg'
    · have hdue := S.due o ho e hev hup
      omega

end Secondary

/-! ## A secondary relayer after the grace -/

variable (R)

/-- A secondary relayer defers its clone when the primary one handles its own, and handles it again
in the last millisecond in which the chain is behind. -/
def lateMsec (n : Nat) : Nat := if n ≤ 2 then R.handledAt else R.reached - 1

def lateAddrs : List Address := [Sample.address 1, Sample.address 2]

def lateView (n : Nat) : View :=
  { Sample.view (lateAddrs.map Address.hex) .accepted with
    latestRound := fun _ => R.latest (R.lateMsec n) }

def lateEnv : Env :=
  { Sample.env R.lateView with
    cfg := { Sample.cfg with
      txCommitTimeSec := fun _ => R.txCommitTimeSec
      roundupEventCallDelaySec := R.callDelaySec }
    msec := R.lateMsec }

/-- The relayer is the other one of two. -/
def lateState (n : Nat) : RState :=
  { Sample.state Sample.outbound.msg with
    cache := fun _ => some (some ((R.log.blockNumber + 1) % 2))
    now := n }

def lateClone : RoundUpEvent :=
  (RoundUpEvent.made R.lateEnv.cfg R.log 0).cloned R.lateEnv.cfg R.chain

theorem lateMsec_mono (h : R.handledAt < R.reached) : Monotone R.lateMsec := by
  intro m n hmn
  unfold lateMsec
  split <;> split <;> omega

section Late

/-- What was built is sent, and the outcome leaves no event. -/
theorem process_of_build {e : RoundUpEvent} {p : SendParamTuple} {env : Env} {s s' : RState}
    {w : List Effect} (hmode : e.mode = .send)
    (hb : e.buildTransactionParams env s = ⟨.ok p, s', w⟩) :
    process .success (.roundUp e) env s = ⟨.ok none, s', w ++ (p.map Effect.sent).toList⟩ := by
  have hproc : e.process .success env s = ⟨.ok none, s', w ++ (p.map Effect.sent).toList⟩ := by
    unfold RoundUpEvent.process
    rw [hmode]
    dsimp only
    rw [Proc.bind_run, hb]
    cases p <;> rfl
  show (e.process .success >>= fun next => pure (next.map Queued.roundUp)) env s = _
  rw [Proc.bind_run, hproc]
  simp

variable {R} {e : RoundUpEvent} {n : Nat}

theorem notPrimary_late (hblock : e.blockNumber = R.log.blockNumber) :
    e.isPrimaryRelayer R.lateEnv (R.lateState n) = ⟨.ok false, R.lateState (n + 1),
      [.called .bifrost "previous_selected_relayers"]⟩ := by
  have hlower : ((((R.lateEnv.view n).previousSelectedRelayers .bifrost (e.round - 1) true).map
      lower).Perm (lateAddrs.map Address.hex)) := by
    show ((lateAddrs.map Address.hex).map lower).Perm _
    simp [lateAddrs]
  rw [RoundUpEvent.isPrimaryRelayer_run rfl rfl (by simp [lateAddrs]) hlower]
  have hne : ¬ some (e.blockNumber % lateAddrs.length) =
      ((R.lateState n).cache (e.round - 1)).join := by
    show ¬ some (e.blockNumber % 2) = some ((R.log.blockNumber + 1) % 2)
    rw [hblock, Option.some.injEq]
    omega
  rw [decide_eq_false hne]
  rfl

theorem build_late (hst : e.statusData = ChainEventStatus.nextAuthorityCommitted.value)
    (hchain : e.selectedChain ≠ .none) (hlt : R.latest (R.lateMsec n) < e.round) :
    e.buildTransactionParams R.lateEnv (R.lateState n) =
      (e.relayOrDefer R.lateEnv (R.lateState (n + 1))).after
        [.called e.selectedChain "latest_round"] := by
  have hstatus : e.status = pure .nextAuthorityCommitted := by
    rw [RoundUpEvent.status, hst, ChainEventStatus.ofValue?_value]
    rfl
  have hmine : e.isPreviousRelayer R.lateEnv (R.lateState n) = ⟨.ok true, R.lateState n, []⟩ := rfl
  have hread : RM.fetchLatestRound e.selectedChain R.lateEnv (R.lateState n) =
      ⟨.ok (R.latest (R.lateMsec n)), R.lateState (n + 1),
        [.called e.selectedChain "latest_round"]⟩ := by
    rw [fetchLatestRound_run]
    rfl
  unfold RoundUpEvent.buildTransactionParams
  rw [hstatus, Proc.bind_run, Proc.pure_run, Res.andThen_ok, Res.after_nil, if_neg (by simp),
    Proc.bind_run, hmine, Res.andThen_ok, Res.after_nil, if_neg (by simp), if_neg hchain,
    Proc.bind_run, hread, Res.andThen_ok, if_neg (not_le.mpr hlt)]

theorem deferral_late (hst : e.statusData = ChainEventStatus.nextAuthorityCommitted.value)
    (hchain : e.selectedChain ≠ .none) (hlt : R.latest (R.lateMsec n) < e.round)
    (hblock : e.blockNumber = R.log.blockNumber) (hmode : e.mode = .send)
    (hagg : e.aggregated = true) :
    process .success (.roundUp e) R.lateEnv (R.lateState n) = ⟨.ok none, R.lateState (n + 2),
      [.called e.selectedChain "latest_round", .called .bifrost "previous_selected_relayers",
        .enqueued (.roundUp (e.deferred (e.nextTimeLock R.lateEnv (R.lateState (n + 2)))))]⟩ := by
  have hdefer : e.relayOrDefer R.lateEnv (R.lateState (n + 1)) = ⟨.ok none, R.lateState (n + 2),
      [.called .bifrost "previous_selected_relayers",
        .enqueued (.roundUp (e.deferred (e.nextTimeLock R.lateEnv (R.lateState (n + 2)))))]⟩ := by
    unfold RoundUpEvent.relayOrDefer
    rw [Proc.bind_run, notPrimary_late hblock, Res.andThen_ok, if_neg (by simp [hagg])]
    rfl
  rw [process_of_build hmode (by rw [build_late hst hchain hlt, hdefer]; rfl)]
  rfl

theorem submit_late (hround : e.round < 2 ^ 256)
    (hlist : ∃ addrs : List Address, e.validatorList = addrs.map Address.hex) (env : Env)
    (s : RState) : ∃ args, AggregatedRoundUpSubmit.submitTuple e (.ofSigs []) env s =
      ⟨.ok args, s, []⟩ := by
  obtain ⟨addrs, haddrs⟩ := hlist
  have henc : ∃ msg, encodeRound e.round (AggregatedRoundUpSubmit.validatorList e) = some msg := by
    rw [AggregatedRoundUpSubmit.validatorList, haddrs, sorted_hex, encodeRound_hex, encodeRoundObjs,
      dif_pos hround]
    exact ⟨_, rfl⟩
  obtain ⟨msg, hmsg⟩ := henc
  have hsort : SubmitWithSig.sortSigs env.lib msg (.ofSigs []) = some (.ofSigs []) := rfl
  unfold AggregatedRoundUpSubmit.submitTuple
  rw [hmsg, Proc.ofOption_some, Proc.bind_run, Proc.pure_run, Res.andThen_ok, Res.after_nil,
    Proc.bind_run, sortSigs_run hsort]
  exact ⟨_, rfl⟩

/-- The clone comes back, and the relayer builds its transaction. -/
theorem relay_late (hst : e.statusData = ChainEventStatus.nextAuthorityCommitted.value)
    (hchain : e.selectedChain ≠ .none) (hlt : R.latest (R.lateMsec n) < e.round)
    (hblock : e.blockNumber = R.log.blockNumber) (hmode : e.mode = .send)
    (hagg : e.aggregated = false) (hround : e.round < 2 ^ 256)
    (hlist : ∃ addrs : List Address, e.validatorList = addrs.map Address.hex) :
    (process .success (.roundUp e) R.lateEnv (R.lateState n)).val = .ok none := by
  obtain ⟨args, hargs⟩ := submit_late hround hlist R.lateEnv (R.lateState (n + 3))
  have hfetch : RM.fetchSocketVspSigs e.round R.lateEnv (R.lateState (n + 2)) =
      ⟨.ok ⟨[], [], []⟩, R.lateState (n + 3), [.called .bifrost "get_round_signatures"]⟩ := rfl
  have hsigs : SocketSignature.init.addTupleSigs ⟨[], [], []⟩ = some (.ofSigs []) := rfl
  have hrelay : ∃ p w, e.relayOrDefer R.lateEnv (R.lateState (n + 1)) =
      ⟨.ok p, R.lateState (n + 3), w⟩ := by
    unfold RoundUpEvent.relayOrDefer
    rw [Proc.bind_run, notPrimary_late hblock, Res.andThen_ok, if_pos (by simp [hagg]),
      Proc.bind_run, hfetch, Res.andThen_ok, hsigs, Proc.ofOption_some, Proc.bind_run,
      Proc.pure_run, Res.andThen_ok, Proc.bind_run, hargs]
    exact ⟨_, _, rfl⟩
  obtain ⟨p, w, hp⟩ := hrelay
  rw [process_of_build hmode (by rw [build_late hst hchain hlt, hp]; rfl)]

variable (R)

/-- The clone as it comes back. -/
def lateResumed : RoundUpEvent :=
  R.lateClone.deferred (R.lateClone.nextTimeLock R.lateEnv (R.lateState 2))

def lateDeferral : Observed where
  before := R.lateState 0
  handling :=
    { event := .roundUp R.lateClone
      outcome := .success
      out := [.called R.chain "latest_round", .called .bifrost "previous_selected_relayers",
        .enqueued (.roundUp R.lateResumed)]
      next := none }
  after := R.lateState 2

def lateRelay : Observed where
  before := R.lateState 3
  handling :=
    { event := .roundUp R.lateResumed
      outcome := .success
      out := (process .success (.roundUp R.lateResumed) R.lateEnv (R.lateState 3)).out
      next := none }
  after := (process .success (.roundUp R.lateResumed) R.lateEnv (R.lateState 3)).st

variable {R}

theorem resumed_timeLock : R.lateResumed.timeLock = R.resumesAt := rfl

theorem behind_late (h : R.resumesAt < R.reached) (n : Nat) :
    R.latest (R.lateMsec n) < R.log.round := by
  refine not_le.mp fun hle => ?_
  have hreached := (R.reached_iff _).mp hle
  unfold lateMsec at hreached
  unfold resumesAt at h
  split at hreached <;> omega

theorem valid_lateDeferral (h : R.resumesAt < R.reached) : R.lateDeferral.Valid R.lateEnv :=
  deferral_late R.committed R.chain_ne (behind_late h 0) rfl rfl rfl

theorem valid_lateRelay (h : R.resumesAt < R.reached) : R.lateRelay.Valid R.lateEnv := by
  have hval := relay_late (e := R.lateResumed) (n := 3) R.committed R.chain_ne (behind_late h 3) rfl
    rfl rfl R.round_lt R.decoded
  show process .success (.roundUp R.lateResumed) R.lateEnv (R.lateState 3) =
    ⟨.ok none, R.lateRelay.after, R.lateRelay.handling.out⟩
  rw [← hval]
  rfl

theorem run_late (h : R.resumesAt < R.reached) :
    ObservedRun R.lateEnv ⟨R.lateState 0, [.roundUp R.lateClone]⟩ [R.lateDeferral, R.lateRelay]
      ⟨R.lateRelay.after, R.lateRelay.queued⟩ := by
  have hdefer : ObservedStep R.lateEnv ⟨R.lateState 0, [.roundUp R.lateClone]⟩ [R.lateDeferral]
      ⟨R.lateState 2, [.roundUp R.lateResumed]⟩ :=
    .handle [] [] R.lateDeferral (valid_lateDeferral h)
  have hwait : ObservedStep R.lateEnv ⟨R.lateState 2, [.roundUp R.lateResumed]⟩ []
      ⟨R.lateState 3, [.roundUp R.lateResumed]⟩ := .wait _ _
  have hrelay : ObservedStep R.lateEnv ⟨R.lateState 3, [.roundUp R.lateResumed]⟩ [R.lateRelay]
      ⟨R.lateRelay.after, R.lateRelay.queued⟩ :=
    .handle [] [] R.lateRelay (valid_lateRelay h)
  exact .cons hdefer (.cons hwait (.cons hrelay (.nil _)))

/-- A secondary relayer that relays, in a run of two handlings. -/
def lateSecondary (h : R.resumesAt < R.reached) : R.Secondary where
  env := R.lateEnv
  start := ⟨R.lateState 0, [.roundUp R.lateClone]⟩
  os := [R.lateDeferral, R.lateRelay]
  stop := ⟨R.lateRelay.after, R.lateRelay.queued⟩
  run := run_late h
  clock := lateMsec_mono R (by unfold resumesAt at h; omega)
  reads := fun n => rfl
  commitTime := rfl
  delay := rfl
  fresh := by
    intro e he _
    cases List.mem_singleton.mp he
    rfl
  after := by
    have hle : ∀ n, R.handledAt ≤ R.lateMsec n := by
      intro n
      unfold lateMsec
      unfold resumesAt at h
      split <;> omega
    intro o _ _
    exact hle _
  due := by
    intro o ho e hev _
    rcases List.mem_pair.mp ho with rfl | rfl
    · cases hev
      exact Nat.zero_le _
    · cases hev
      rw [resumed_timeLock]
      show R.resumesAt ≤ R.reached - 1
      omega
  secondary := by
    intro o ho e hev _
    rcases List.mem_pair.mp ho with rfl | rfl
    · cases hev
      show (R.lateClone.isPrimaryRelayer R.lateEnv (R.lateState 1)).val ≠ _
      rw [notPrimary_late rfl]
      simp
    · cases hev
      show (R.lateResumed.isPrimaryRelayer R.lateEnv (R.lateState 4)).val ≠ _
      rw [notPrimary_late rfl]
      simp

theorem relaysTo_late (h : R.resumesAt < R.reached) :
    relaysTo R.log R.chain (lateSecondary h).os ≠ [] := by
  have hmem : R.lateRelay ∈ (lateSecondary h).os := List.mem_pair.mpr (.inr rfl)
  have hsel : R.lateResumed.selectedChain = R.chain := rfl
  intro hnil
  have hnone : ∀ tx ∈ R.lateRelay.sent, tx.isRoundRelay R.chain → False := by
    intro tx htx hrelay
    refine List.filter_eq_nil_iff.mp hnil tx (List.mem_flatMap.mpr ⟨R.lateRelay, ?_, htx⟩) hrelay
    exact List.mem_filter.mpr ⟨hmem, decide_eq_true rfl⟩
  cases roundUpCase_of_valid (valid_lateRelay h) rfl with
  | otherStatus hst => exact hst R.committed
  | notMine hmine => cases hmine
  | split hchain => exact R.chain_ne hchain
  | processed _ _ hle => exact absurd hle (not_le.mpr (behind_late h 3))
  | deferred _ _ _ _ hagg => cases hagg
  | relayed tx _ _ _ _ hchain hmethod hs =>
    exact hnone tx (by simp [hs]) (decide_eq_true ⟨hchain.trans hsel, hmethod⟩)

end Late

/-- **The grace of a primary relayer.** Its relay silences all secondary relayers exactly when it
reaches the chain before the first deferred clone may run. -/
theorem silenced_iff : R.Silenced ↔
    R.reached ≤ R.handledAt + R.txCommitTimeSec + 1000 * R.callDelaySec := by
  constructor
  · intro hsilent
    refine not_lt.mp fun h => ?_
    exact relaysTo_late h (hsilent [lateSecondary h] _ (List.mem_singleton_self _))
  · intro h secondaries S _
    exact S.relaysTo_nil h

end Race

/-- A commit in 12 seconds, as long as the configuration allows, and a delay of 200 seconds. -/
def Sample.race : Race where
  log := Sample.committedLog
  chain := .ethereum
  latest := fun m => if m < 212000 then 6 else 7
  reached := 212000
  handledAt := 0
  txCommitTimeSec := 12
  callDelaySec := 200
  committed := rfl
  round_lt := by decide
  decoded := ⟨[Sample.account.address], rfl⟩
  chain_ne := by decide
  reached_iff := by
    intro m
    show 7 ≤ (if m < 212000 then 6 else 7) ↔ _
    split <;> omega

/-- A primary relayer that is in time does not silence the others: the time lock adds the seconds of
the commit time as milliseconds. -/
theorem not_silenced : ¬ ∀ R : Race,
    R.reached ≤ R.handledAt + 1000 * (R.txCommitTimeSec + R.callDelaySec) → R.Silenced := by
  intro hall
  have hlate : Sample.race.resumesAt < Sample.race.reached := by decide
  exact Race.relaysTo_late hlate
    (hall Sample.race (by decide) [Race.lateSecondary hlate] _ (List.mem_singleton_self _))

end Bifrost
