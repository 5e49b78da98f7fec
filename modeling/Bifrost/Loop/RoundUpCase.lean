import Bifrost.Loop.Coherent
import Bifrost.Loop.Work

/-!
# What a handling of a RoundUp event does

`roundUpCase_of_valid` is the inversion lemma of a handling of a RoundUp event.
The event may be of another status or not this relayer's; the original splits
into clones; a clone reads `latest_round` of its chain first, and is then done,
relayed or queued again.
-/

namespace Bifrost

open Bifrost.Lib

variable {env : Env} {s s' : RState} {w : List Effect}

namespace RoundUpEvent

/-- What the constructor makes. -/
def made (cfg : Config) (log : RoundUpLog) (timeLock : Nat) : RoundUpEvent where
  statusData := log.statusData
  round := log.round
  validatorList := log.validatorList
  sigs := log.sigs
  blockNumber := log.blockNumber
  timeLock := timeLock
  mode := .send
  updatingChains := cfg.supportedChainList.erase .bifrost
  selectedChain := .none
  aggregated := true

/-- The clone for a chain. -/
def cloned (cfg : Config) (self : RoundUpEvent) (selectedChain : ChainEnum) : RoundUpEvent :=
  { made cfg self.log self.timeLock with selectedChain }

variable {self e : RoundUpEvent}

theorem construct_ok {log : RoundUpLog} {t : Nat}
    (h : construct log t env s = ⟨.ok e, s', w⟩) :
    e = made env.cfg log t ∧ s' = s ∧ w = [] := by
  unfold construct at h
  rw [Proc.bind_run, getConfig_run, Res.andThen_ok, Res.after_nil, Proc.ite_run] at h
  split at h
  · cases h
  · exact Proc.pure_ok h

theorem init_ok {log : RoundUpLog} {t : Nat} (h : init log t env s = ⟨.ok e, s', w⟩) :
    ∃ t', e = made env.cfg log t' := by
  unfold init at h
  rw [Proc.bind_run, getConfig_run, Res.andThen_ok, Res.after_nil, Proc.ite_run] at h
  split at h
  · exact ⟨0, (construct_ok h).1⟩
  · obtain ⟨now, s₁, w₁, w₂, -, h₂, -⟩ := Proc.bind_ok h
    obtain ⟨delaySec, s₂, w₃, w₄, -, h₄, -⟩ := Proc.bind_ok h₂
    exact ⟨_, (construct_ok h₄).1⟩

theorem clone_ok {c : ChainEnum} (h : self.clone c env s = ⟨.ok e, s', w⟩) :
    e = self.cloned env.cfg c ∧ s' = s ∧ w = [] := by
  obtain ⟨e', s₁, w₁, w₂, h₁, h₂, rfl⟩ := Proc.bind_ok h
  obtain ⟨rfl, rfl, rfl⟩ := construct_ok h₁
  obtain ⟨rfl, rfl, rfl⟩ := Proc.pure_ok h₂
  exact ⟨rfl, rfl, rfl⟩

theorem isPreviousRelayer_val (e : RoundUpEvent) (env : Env) (s : RState) :
    (e.isPreviousRelayer env s).val =
      .ok (env.cfg.isFastRelayer || (s.cache (e.round - 1)).isSome) := by
  unfold isPreviousRelayer
  rw [Proc.bind_run, getConfig_run, Res.andThen_ok, Res.after_nil, Proc.ite_run, isInCache_run]
  cases env.cfg.isFastRelayer <;> rfl

theorem isPreviousRelayer_ok {b : Bool} (h : self.isPreviousRelayer env s = ⟨.ok b, s', w⟩) :
    s' = s ∧ w = [] := by
  unfold isPreviousRelayer at h
  rw [Proc.bind_run, getConfig_run, Res.andThen_ok, Res.after_nil, Proc.ite_run, isInCache_run] at h
  split at h
  · exact (Proc.pure_ok h).2
  · cases h
    exact ⟨rfl, rfl⟩

theorem isPrimaryRelayer_now {v : Except Exn Bool}
    (h : self.isPrimaryRelayer env s = ⟨v, s', w⟩) : s.now ≤ s'.now := by
  have hread : ∀ {α : Type} chain method (answer : View → α),
      Proc.Keeps (fun _ t => s.now ≤ t.now) (RM.worldCall chain method answer) :=
    fun chain method answer => .bind .ask fun _ => .bind .get fun _ =>
      .bind (.modify fun _ _ ht => Nat.le_succ_of_le ht) fun _ =>
        .bind (.emit _) fun _ => .ite (.throw _) (.pure _)
  have hkeeps : Proc.Keeps (fun _ t => s.now ≤ t.now) self.isPrimaryRelayer :=
    .bind (.bind .ask fun _ => .pure _) fun _ => .ite (.pure _) <|
      .bind (.bind (hread _ _ _) fun _ => .pure _) fun _ => .bind (.ofOption _ _) fun _ =>
        .ite (.throw _) (.bind (.bind .get fun _ => .pure _) fun _ => .pure _)
  have hst := hkeeps env s (Nat.le_refl _)
  rwa [h] at hst

theorem enqueueClones_ok {chains : List ChainEnum} {u : Unit}
    (h : self.enqueueClones chains env s = ⟨.ok u, s', w⟩) :
    s' = s ∧ w = chains.map fun c => .enqueued (.roundUp (self.cloned env.cfg c)) := by
  induction chains generalizing s' w with
  | nil =>
    obtain ⟨-, rfl, rfl⟩ := Proc.pure_ok h
    exact ⟨rfl, rfl⟩
  | cons c chains ih =>
    obtain ⟨e, s₁, w₁, w₂, h₁, h₂, rfl⟩ := Proc.bind_ok h
    obtain ⟨rfl, rfl, rfl⟩ := clone_ok h₁
    obtain ⟨u', s₂, w₃, w₄, h₃, h₄, rfl⟩ := Proc.bind_ok h₂
    rw [enqueue_run] at h₃
    cases h₃
    obtain ⟨rfl, rfl⟩ := ih h₄
    exact ⟨rfl, rfl⟩

end RoundUpEvent

namespace Observed

/-- The answer of the handling's first read, when that is `latest_round` of the chain. -/
def targetRound (env : Env) (o : Observed) (chain : ChainEnum) : Nat :=
  (env.view o.before.now).latestRound chain

/-- The first read of the handling is `latest_round` of the chain. -/
def AsksRound (o : Observed) (chain : ChainEnum) : Prop :=
  o.handling.out.head? = some (.called chain "latest_round")

end Observed

/-- When a deferred clone comes back. -/
def RoundUpEvent.nextTimeLock (env : Env) (self : RoundUpEvent) (s : RState) : Nat :=
  env.msec s.now + env.cfg.txCommitTimeSec self.selectedChain +
    1000 * env.cfg.roundupEventCallDelaySec

open RoundUpEvent in
inductive RoundUpCase (env : Env) (e : RoundUpEvent) (o : Observed) : Prop where
  | otherStatus : e.statusData ≠ ChainEventStatus.nextAuthorityCommitted.value → o.sent = [] →
      o.queued = [] → RoundUpCase env e o
  | notMine : (e.isPreviousRelayer env o.before).val = .ok false → o.sent = [] → o.queued = [] →
      RoundUpCase env e o
  | split : e.selectedChain = .none → o.sent = [] →
      o.queued = e.updatingChains.map (fun c => .roundUp (e.cloned env.cfg c)) →
      RoundUpCase env e o
  | processed : e.selectedChain ≠ .none → o.AsksRound e.selectedChain →
      e.round ≤ o.targetRound env e.selectedChain → o.sent = [] → o.queued = [] →
      RoundUpCase env e o
  | relayed (tx : SendTx) : e.selectedChain ≠ .none → o.AsksRound e.selectedChain →
      o.targetRound env e.selectedChain < e.round →
      (e.isPrimaryRelayer env o.before.tick).val = .ok true ∨ e.aggregated = false →
      tx.chain = e.selectedChain → tx.method = ROUND_UP_VOTING_FUNCTION_NAME → o.sent = [tx] →
      o.queued = [] → RoundUpCase env e o
  | deferred : e.selectedChain ≠ .none → o.AsksRound e.selectedChain →
      o.targetRound env e.selectedChain < e.round →
      (e.isPrimaryRelayer env o.before.tick).val = .ok false → e.aggregated = true →
      o.before.now ≤ o.after.now → o.sent = [] →
      o.queued = [.roundUp (e.deferred (e.nextTimeLock env o.after))] → RoundUpCase env e o

section Case

variable {e : RoundUpEvent} {p : SendParamTuple}

theorem effects_of_clones (f : ChainEnum → RoundUpEvent) :
    (∀ chains : List ChainEnum, sentOf (chains.map fun c => .enqueued (.roundUp (f c))) = []) ∧
      ∀ chains : List ChainEnum, enqueuedOf (chains.map fun c => .enqueued (.roundUp (f c))) =
        chains.map fun c => .roundUp (f c) := by
  constructor
  · intro chains
    induction chains with
    | nil => rfl
    | cons c chains ih => exact ih
  · intro chains
    induction chains with
    | nil => rfl
    | cons c chains ih => exact congrArg (List.cons _) ih

/-- A relay is built, or the clone is queued again. -/
theorem RoundUpEvent.relayOrDefer_ok (h : e.relayOrDefer env s = ⟨.ok p, s', w⟩) :
    sentOf w = [] ∧
      ((∃ tx, p = some tx ∧ ((e.isPrimaryRelayer env s).val = .ok true ∨ e.aggregated = false) ∧
          tx.chain = e.selectedChain ∧ tx.method = ROUND_UP_VOTING_FUNCTION_NAME ∧
          enqueuedOf w = []) ∨
        p = none ∧ (e.isPrimaryRelayer env s).val = .ok false ∧ e.aggregated = true ∧
          s.now ≤ s'.now ∧ enqueuedOf w = [.roundUp (e.deferred (e.nextTimeLock env s'))]) := by
  unfold RoundUpEvent.relayOrDefer at h
  obtain ⟨primary, s₁, w₁, w₂, h₁, h₂, rfl⟩ := Proc.bind_ok h
  obtain ⟨-, hw₁⟩ := RoundUpEvent.quiet_isPrimaryRelayer.run h₁
  rw [sentOf_append, enqueuedOf_append, sentOf_local hw₁, enqueuedOf_local hw₁]
  split at h₂
  · rename_i hrelay
    obtain ⟨result, s₂, w₃, w₄, h₃, h₄, rfl⟩ := Proc.bind_ok h₂
    obtain ⟨-, hw₃⟩ := (Quiet.fetchSocketVspSigs e.round).run h₃
    obtain ⟨sigs, s₃, w₅, w₆, h₅, h₆, rfl⟩ := Proc.bind_ok h₄
    obtain ⟨-, rfl, rfl⟩ := Proc.ofOption_ok h₅
    obtain ⟨submitData, s₄, w₇, w₈, h₇, h₈, rfl⟩ := Proc.bind_ok h₆
    obtain ⟨-, hw₇⟩ := (RoundUpEvent.quiet_submitTuple sigs).run h₇
    obtain ⟨rfl, rfl, rfl⟩ := Proc.pure_ok h₈
    have hquiet : sentOf (w₃ ++ ([] ++ (w₇ ++ []))) = [] ∧
        enqueuedOf (w₃ ++ ([] ++ (w₇ ++ []))) = [] := by
      simp [sentOf_local hw₃, enqueuedOf_local hw₃, sentOf_local hw₇, enqueuedOf_local hw₇]
    refine ⟨hquiet.1, .inl ⟨_, rfl, ?_, rfl, rfl, hquiet.2⟩⟩
    rw [h₁]
    cases primary with
    | true => exact .inl rfl
    | false => exact .inr (by simpa using hrelay)
  · rename_i hdefer
    obtain ⟨hp, ha⟩ : primary = false ∧ e.aggregated = true := by simpa using hdefer
    simp only [Proc.bind_run, timestampMsec_run, Res.andThen_ok, getConfig_run, enqueue_run,
      Proc.pure_run, Res.after_mk, List.append_nil] at h₂
    cases h₂
    refine ⟨rfl, .inr ⟨rfl, ?_, ha, RoundUpEvent.isPrimaryRelayer_now h₁, rfl⟩⟩
    rw [h₁, hp]

/-- No outcome of the transaction leaves an event. -/
theorem RoundUpEvent.process_ok {outcome : TxOutcome} {n : Option RoundUpEvent}
    (h : e.process outcome env s = ⟨.ok n, s', w⟩) :
    n = none ∧ ∃ p w₁, e.buildTransactionParams env s = ⟨.ok p, s', w₁⟩ ∧
      w = w₁ ++ (p.map Effect.sent).toList := by
  unfold RoundUpEvent.process at h
  cases hmode : e.mode with
  | call =>
    rw [hmode] at h
    cases h
  | send =>
    rw [hmode] at h
    obtain ⟨p, s₁, w₁, w₂, h₁, h₂, rfl⟩ := Proc.bind_ok h
    cases p with
    | none =>
      obtain ⟨rfl, rfl, rfl⟩ := Proc.pure_ok h₂
      exact ⟨rfl, none, w₁, h₁, rfl⟩
    | some tx =>
      have hres : (do Proc.emit (.sent tx); RoundUpEvent.handleTxResult outcome :
          RM (Option RoundUpEvent)) env s₁ = ⟨.ok none, s₁, [.sent tx]⟩ := by
        cases outcome <;> rfl
      cases hres.symm.trans h₂
      exact ⟨rfl, some tx, w₁, h₁, rfl⟩

/-- The branches of the builder. -/
theorem RoundUpEvent.buildTransactionParams_ok
    (h : e.buildTransactionParams env s = ⟨.ok p, s', w⟩) :
    p = none ∧ w = [] ∧ (e.statusData ≠ ChainEventStatus.nextAuthorityCommitted.value ∨
        (e.isPreviousRelayer env s).val = .ok false) ∨
      e.selectedChain = .none ∧ p = none ∧
        w = e.updatingChains.map (fun c => .enqueued (.roundUp (e.cloned env.cfg c))) ∨
      e.selectedChain ≠ .none ∧ ∃ w', w = .called e.selectedChain "latest_round" :: w' ∧
        (e.round ≤ (env.view s.now).latestRound e.selectedChain ∧ p = none ∧ w' = [] ∨
          (env.view s.now).latestRound e.selectedChain < e.round ∧
            e.relayOrDefer env s.tick = ⟨.ok p, s', w'⟩) := by
  unfold RoundUpEvent.buildTransactionParams at h
  obtain ⟨status, s₁, w₁, w₂, h₁, h₂, rfl⟩ := Proc.bind_ok h
  obtain ⟨hst, rfl, rfl⟩ := Proc.ofOption_ok h₁
  split at h₂
  · rename_i hne
    obtain ⟨rfl, -, rfl⟩ := Proc.pure_ok h₂
    refine .inl ⟨rfl, rfl, .inl fun heq => hne ?_⟩
    rw [heq, ChainEventStatus.ofValue?_value] at hst
    exact (Option.some.inj hst).symm
  obtain ⟨mine, s₂, w₃, w₄, h₃, h₄, rfl⟩ := Proc.bind_ok h₂
  obtain ⟨rfl, rfl⟩ := RoundUpEvent.isPreviousRelayer_ok h₃
  split at h₄
  · rename_i hmine
    obtain ⟨rfl, -, rfl⟩ := Proc.pure_ok h₄
    refine .inl ⟨rfl, rfl, .inr ?_⟩
    rw [h₃]
    simpa using hmine
  split at h₄
  · rename_i hchain
    obtain ⟨u, s₃, w₅, w₆, h₅, h₆, rfl⟩ := Proc.bind_ok h₄
    obtain ⟨-, rfl⟩ := RoundUpEvent.enqueueClones_ok h₅
    obtain ⟨rfl, -, rfl⟩ := Proc.pure_ok h₆
    exact .inr (.inl ⟨hchain, rfl, List.append_nil _⟩)
  · rename_i hchain
    obtain ⟨targetRound, s₃, w₅, w₆, h₅, h₆, rfl⟩ := Proc.bind_ok h₄
    obtain ⟨rfl, rfl, rfl⟩ := worldCall_ok h₅
    refine .inr (.inr ⟨hchain, w₆, rfl, ?_⟩)
    split at h₆
    · rename_i hle
      obtain ⟨rfl, -, rfl⟩ := Proc.pure_ok h₆
      exact .inl ⟨hle, rfl, rfl⟩
    · rename_i hlt
      exact .inr ⟨not_le.mp hlt, h₆⟩

/-- The inversion lemma of a handling of a RoundUp event. -/
theorem roundUpCase_of_valid {o : Observed} (hok : o.Valid env) (hev : o.event = .roundUp e) :
    RoundUpCase env e o := by
  have hproc : process o.handling.outcome o.event env o.before = _ := hok
  rw [hev] at hproc
  obtain ⟨n, hnext, hproc⟩ := process_roundUp_ok hproc
  obtain ⟨rfl, p, w₃, hb, hout⟩ := RoundUpEvent.process_ok hproc
  have hsent : o.sent = sentOf w₃ ++ p.toList := by
    rw [Observed.sent, Handling.sent, hout, sentOf_append]
    cases p <;> rfl
  have hqueued : o.queued = enqueuedOf w₃ := by
    rw [Observed.queued, Handling.queued, hout, hnext, enqueuedOf_append]
    cases p <;> simp [enqueuedOf, Effect.enqueued?]
  rcases RoundUpEvent.buildTransactionParams_ok hb with
    ⟨rfl, rfl, hst | hmine⟩ | ⟨hchain, rfl, rfl⟩ | ⟨hchain, w', rfl, hread⟩
  · exact .otherStatus hst hsent hqueued
  · exact .notMine hmine hsent hqueued
  · obtain ⟨hs, henq⟩ := effects_of_clones fun c => e.cloned env.cfg c
    refine .split hchain ?_ (hqueued.trans (henq _))
    rw [hsent, hs]
    rfl
  · have hasks : o.AsksRound e.selectedChain := by
      rw [Observed.AsksRound, hout]
      rfl
    rcases hread with ⟨hle, rfl, rfl⟩ | ⟨hlt, hrelay⟩
    · exact .processed hchain hasks hle hsent hqueued
    · obtain ⟨hs, ⟨tx, rfl, hprim, htx, hmethod, henq⟩ | ⟨rfl, hprim, ha, hnow, henq⟩⟩ :=
        RoundUpEvent.relayOrDefer_ok hrelay
      · refine .relayed tx hchain hasks hlt hprim htx hmethod ?_ (hqueued.trans henq)
        exact hsent.trans (congrArg (· ++ [tx]) hs)
      · refine .deferred hchain hasks hlt hprim ha (Nat.le_of_succ_le hnow) ?_
          (hqueued.trans henq)
        exact hsent.trans (congrArg (· ++ []) hs)

/-- What a handling leaves is a clone, or the event with a new time lock. -/
theorem RoundUpCase.of_queued {o : Observed} {q : Queued} (h : RoundUpCase env e o)
    (hq : q ∈ o.queued) : (∃ c, q = .roundUp (e.cloned env.cfg c)) ∨
      q = .roundUp (e.deferred (e.nextTimeLock env o.after)) ∧ o.before.now ≤ o.after.now := by
  have hnil : o.queued = [] → False := by
    intro hl
    rw [hl] at hq
    cases hq
  cases h with
  | otherStatus _ _ hl => exact (hnil hl).elim
  | notMine _ _ hl => exact (hnil hl).elim
  | processed _ _ _ _ hl => exact (hnil hl).elim
  | relayed _ _ _ _ _ _ _ _ hl => exact (hnil hl).elim
  | split _ _ hl =>
    rw [hl] at hq
    obtain ⟨c, -, rfl⟩ := List.mem_map.mp hq
    exact .inl ⟨c, rfl⟩
  | deferred _ _ _ _ _ hnow _ hl =>
    rw [hl, List.mem_singleton] at hq
    exact .inr ⟨hq, hnow⟩

/-- What a handling sends is a relay to the chain of the clone, where the round is not yet. -/
theorem RoundUpCase.of_sent {o : Observed} {tx : SendTx} (h : RoundUpCase env e o)
    (htx : tx ∈ o.sent) : tx.chain = e.selectedChain ∧ o.AsksRound e.selectedChain ∧
      o.targetRound env e.selectedChain < e.round ∧
      ((e.isPrimaryRelayer env o.before.tick).val = .ok true ∨ e.aggregated = false) := by
  have hnil : o.sent = [] → False := by
    intro hs
    rw [hs] at htx
    cases htx
  cases h with
  | otherStatus _ hs => exact (hnil hs).elim
  | notMine _ hs => exact (hnil hs).elim
  | split _ hs => exact (hnil hs).elim
  | processed _ _ _ hs => exact (hnil hs).elim
  | deferred _ _ _ _ _ _ hs => exact (hnil hs).elim
  | relayed tx' _ hask hlt hprim hchain _ hs =>
    rw [hs, List.mem_singleton] at htx
    exact ⟨htx ▸ hchain, hask, hlt, hprim⟩

end Case

end Bifrost
