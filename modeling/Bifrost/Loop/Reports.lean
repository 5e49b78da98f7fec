import Bifrost.Events.Emits
import Bifrost.Loop.Lifecycle
import Bifrost.Relayer.Metric

/-!
# What a handling reports

A metric is reported where a transaction of an event succeeds, and where the
event of a final status is built; RoundUp events and the feed report none.
`reports_of_process` is the inversion lemma of a handling of a Socket event, as
far as metrics go: what it reports, next to what it leaves.
-/

namespace Bifrost

open Bifrost.Lib

variable {env : Env} {s s' : RState} {w : List Effect}

/-! ## Parts without a metric -/

def Effect.NoMetric : Effect → Prop
  | .metric .. => False
  | _ => True

theorem Effect.BuildsIn.noMetric {P : ChainEnum → Prop} :
    ∀ o : Effect, o.BuildsIn P → o.NoMetric := by
  intro o ho
  cases o with
  | metric => exact ho
  | _ => trivial

theorem metricsOf_noMetric (h : ∀ o ∈ w, o.NoMetric) : metricsOf w = [] := by
  refine List.filterMap_eq_nil_iff.mpr fun o ho => ?_
  have ho' := h o ho
  cases o with
  | metric => exact absurd ho' id
  | _ => rfl

theorem metrics_of_emits {α : Type} {x : RM α} {v : Except Exn α}
    (hx : Proc.Emits Effect.NoMetric x) (h : x env s = ⟨v, s', w⟩) : metricsOf w = [] :=
  metricsOf_noMetric (hx.run h)

theorem scoreOf_noMetric (c : ChainEnum) (h : ∀ o ∈ w, o.NoMetric) : scoreOf c w = 0 := by
  rw [scoreOf, metricsOf_noMetric h]
  rfl

section RoundUp

open RbcEvent (builds_worldCall builds_getConfig)

variable {e : RoundUpEvent}

theorem noMetric_worldCall {α : Type} (chain : ChainEnum) (method : String) (answer : View → α) :
    Proc.Emits Effect.NoMetric (RM.worldCall chain method answer) :=
  (builds_worldCall (P := fun _ => True) trivial method answer).mono Effect.BuildsIn.noMetric

theorem noMetric_getConfig : Proc.Emits Effect.NoMetric RM.getConfig :=
  (builds_getConfig (P := fun _ => True)).mono Effect.BuildsIn.noMetric

theorem noMetric_init (log : RoundUpLog) (timeLock : Nat) :
    Proc.Emits Effect.NoMetric (RoundUpEvent.init log timeLock) := by
  have hconstruct : ∀ t, Proc.Emits Effect.NoMetric (RoundUpEvent.construct log t) := fun _ =>
    .bind noMetric_getConfig fun _ => .ite (.throw _) (.pure _)
  refine .bind noMetric_getConfig fun _ => .ite (hconstruct _) ?_
  exact .bind (.bind .ask fun _ => .bind .get fun _ => .pure _) fun _ =>
    .bind (.ofOption _ _) fun _ => hconstruct _

theorem noMetric_enqueueClones (chains : List ChainEnum) :
    Proc.Emits Effect.NoMetric (e.enqueueClones chains) := by
  induction chains with
  | nil => exact .pure _
  | cons c chains ih =>
    exact .bind (.bind (.bind noMetric_getConfig fun _ => .ite (.throw _) (.pure _)) fun _ =>
      .pure _) fun _ => .bind (.emit trivial) fun _ => ih

theorem noMetric_relayOrDefer : Proc.Emits Effect.NoMetric e.relayOrDefer := by
  have hprimary : Proc.Emits Effect.NoMetric e.isPrimaryRelayer := by
    refine .bind noMetric_getConfig fun _ => .ite (.pure _) ?_
    refine .bind (.bind (noMetric_worldCall _ _ _) fun _ => .pure _) fun _ => ?_
    exact .bind (.ofOption _ _) fun _ => .ite (.throw _) (.bind (.bind .get fun _ => .pure _)
      fun _ => .pure _)
  refine .bind hprimary fun _ => .ite ?_ ?_
  · refine .bind (noMetric_worldCall _ _ _) fun _ => .bind (.ofOption _ _) fun _ => ?_
    exact .bind (.bind (.ofOption _ _) fun _ => .bind (.bind .ask fun _ => .ofOption _ _)
      fun _ => .pure _) fun _ => .pure _
  · exact .bind (.bind .ask fun _ => .bind .get fun _ => .pure _) fun _ =>
      .bind noMetric_getConfig fun _ => .bind (.emit trivial) fun _ => .pure _

theorem noMetric_roundUp (outcome : TxOutcome) :
    Proc.Emits Effect.NoMetric (e.process outcome) := by
  unfold RoundUpEvent.process
  split
  · refine .bind ?_ fun p => ?_
    · refine .bind (.ofOption _ _) fun _ => .ite (.pure _) (.bind ?_ fun _ => .ite (.pure _) ?_)
      · exact .bind noMetric_getConfig fun _ => .ite (.pure _) (.bind .get fun _ => .pure _)
      · exact .ite (.bind (noMetric_enqueueClones _) fun _ => .pure _)
          (.bind (noMetric_worldCall _ _ _) fun _ => .ite (.pure _) noMetric_relayOrDefer)
    · cases p with
      | none => exact .pure _
      | some tx => exact .bind (.emit trivial) fun _ => by cases outcome <;> exact .pure _
  · exact .throw _

end RoundUp

namespace VSPFeed

theorem noMetric_exportRounds (chains : List ChainEnum) :
    Proc.Emits Effect.NoMetric (exportRounds chains) := by
  induction chains with
  | nil => exact .pure _
  | cons c chains ih => exact .bind (noMetric_worldCall _ _ _) fun _ => ih

theorem noMetric_period (outcome : TxOutcome) :
    Proc.Emits Effect.NoMetric (VSPFeed.period outcome) := by
  have hlist : ∀ rnd b, Proc.Emits Effect.NoMetric
      (RM.fetchSortedRelayerListLower .bifrost rnd b) := fun _ _ =>
    .bind (noMetric_worldCall _ _ _) fun _ => .pure _
  have hvote : ∀ rnd, Proc.Emits Effect.NoMetric (vote rnd) := fun rnd =>
    .bind (hlist _ _) fun _ => .bind (.ofOption _ _) fun _ =>
      .bind (.bind .ask fun _ => .bind (.emit trivial) fun _ => .pure _) fun _ =>
        .bind (.ofOption _ _) fun _ => .pure _
  refine .bind (.bind (noMetric_worldCall _ _ _) fun rnd => .bind noMetric_getConfig fun _ =>
    .bind (noMetric_exportRounds _) fun _ => .bind .get fun _ => .ite (.pure _) ?_) fun p => ?_
  · refine .bind (.modify _) fun _ => .bind (.bind (.bind (hlist _ _) fun _ => .bind .ask fun _ =>
      .pure _) fun i => ?_) fun _ => .bind .ask fun _ => .bind (noMetric_worldCall _ _ _) fun _ =>
        .ite (.pure _) (hvote _)
    cases i with
    | none => exact .pure _
    | some i => exact .bind (.modify _) fun _ => .pure _
  · cases p with
    | none => exact .pure _
    | some tx => exact .bind (.emit trivial) fun _ => by cases outcome <;> exact .pure _

end VSPFeed

theorem metrics_of_roundUp {e : RoundUpEvent} {h : Handling}
    (hp : process h.outcome (.roundUp e) env s = ⟨.ok h.next, s', h.out⟩) :
    metricsOf h.out = [] := by
  obtain ⟨n, -, hp⟩ := process_roundUp_ok hp
  exact metrics_of_emits (noMetric_roundUp h.outcome) hp

/-! ## Builders and handlers of a success -/

namespace RbcEvent

variable {self : RbcEvent} {src : ChainEnum}

theorem metrics_checkMyEvent {b : Bool} (h : self.checkMyEvent env s = ⟨.ok b, s', w⟩) :
    metricsOf w = [] :=
  metrics_of_emits ((builds_checkMyEvent (P := fun _ => True) trivial).mono
    Effect.BuildsIn.noMetric) h

theorem exportingRequestMetric_run (hon : env.cfg.prometheusOn = true) (c : ChainEnum)
    (t : ChainEventStatus) :
    RM.exportingRequestMetric c t env s = ⟨.ok (), s, [.metric c t]⟩ := by
  simp [RM.exportingRequestMetric, hon]

/-- A handler of an event that is the relayer's reports its status, and goes on. -/
theorem guarded_reports {α : Type} {body : RM (Option α)} {p : Option α}
    (hon : env.cfg.prometheusOn = true) (hs : Serves env self)
    (hsrc : self.srcChain? env.cfg.network = some src)
    (h : self.guarded (do
      let src ← self.srcChain
      RM.exportingRequestMetric src self.status
      body) env s = ⟨.ok p, s', w⟩) :
    ∃ s₁ w₁, body env s₁ = ⟨.ok p, s', w₁⟩ ∧ metricsOf w = (src, self.status) :: metricsOf w₁ := by
  obtain ⟨s₁, w₁, w₂, h₁, h₂, rfl⟩ := hs.guarded_ok h
  rw [Proc.bind_run, srcChain_run hsrc, Res.andThen_ok, Res.after_nil] at h₂
  obtain ⟨_, s₂, w₃, w₄, h₃, h₄, rfl⟩ := Proc.bind_ok h₂
  rw [exportingRequestMetric_run hon] at h₃
  cases h₃
  refine ⟨_, w₄, h₄, ?_⟩
  rw [metricsOf_append, metrics_checkMyEvent h₁]
  rfl

/-- The handler of a success reports the status of the event; a REQUESTED event of an external
chain then waits for a call. -/
theorem handleTxResultSuccess_reports (hon : env.cfg.prometheusOn = true) (hs : Serves env self)
    (hsrc : self.srcChain? env.cfg.network = some src) {n : Option RbcEvent}
    (h : self.handleTxResultSuccess env s = ⟨.ok n, s', w⟩) :
    metricsOf w = [(src, self.status)] ∧
      (n = none ∨
        self.cls = .requested ∧ src ≠ .bifrost ∧ ∃ t, n = some (self.switchToCall t)) := by
  cases hcls : self.cls with
  | requested =>
    simp only [handleTxResultSuccess, hcls] at h
    obtain ⟨s₁, w₁, hbody, hw⟩ := guarded_reports hon hs hsrc h
    rw [Proc.bind_run, isInbound_run hsrc, Res.andThen_ok, Res.after_nil] at hbody
    rw [hw]
    by_cases hb : src = .bifrost
    · rw [if_neg (by simpa using hb)] at hbody
      cases hbody
      exact ⟨rfl, .inl rfl⟩
    · rw [if_pos (by simpa using hb), Proc.bind_run, getConfig_run, Res.andThen_ok] at hbody
      cases hbody
      exact ⟨rfl, .inr ⟨rfl, hb, _, rfl⟩⟩
  | _ =>
    simp only [handleTxResultSuccess, hcls] at h
    obtain ⟨s₁, w₁, hbody, hw⟩ := guarded_reports hon hs hsrc h
    cases hbody
    exact ⟨hw, .inl rfl⟩

/-! ### Builders -/

theorem returns_pollWithSig (msg : Bytes) :
    Proc.Returns (fun p => p ≠ none) (self.pollWithSig msg) :=
  .bind fun _ => .bind fun _ => .bind fun _ => .bind fun _ => .pure (Option.some_ne_none _)

/-- A vote that is the relayer's is cast, unless it is that of an outbound FAILED event. -/
theorem build_eq_none_iff {p : SendParamTuple} (hs : Serves env self)
    (hsrc : self.srcChain? env.cfg.network = some src) (hagg : self.cls.isAggregated = false)
    (hfinal : self.cls.isFinal = false)
    (h : self.buildTransactionParams env s = ⟨.ok p, s', w⟩) :
    p = none ↔ self.cls = .failed ∧ src = .bifrost := by
  have hbody : ∀ {body : RM SendParamTuple}, Proc.Returns (fun p => p ≠ none) body →
      self.guarded body env s = ⟨.ok p, s', w⟩ → p ≠ none := by
    intro body hret h
    obtain ⟨s₁, w₁, w₂, -, h₂, -⟩ := hs.guarded_ok h
    exact hret.run h₂
  unfold buildTransactionParams at h
  cases hcls : self.cls with
  | failed =>
    simp only [hcls] at h
    obtain ⟨s₁, w₁, w₂, -, h₂, -⟩ := hs.guarded_ok h
    rw [Proc.bind_run, isInbound_run hsrc, Res.andThen_ok, Res.after_nil] at h₂
    by_cases hb : src = .bifrost
    · rw [if_pos (by simpa using hb)] at h₂
      exact ⟨fun _ => ⟨rfl, hb⟩, fun _ => (Proc.pure_ok h₂).1⟩
    · rw [if_neg (by simpa using hb)] at h₂
      have hret : Proc.Returns (fun p => p ≠ none) (do
          let log ← RM.detectedEvent self.detectedEvent
          self.pollWithSig log.data : RM SendParamTuple) := .bind fun _ => returns_pollWithSig _
      exact ⟨fun hp => absurd hp (hret.run h₂), fun hc => absurd hc.2 hb⟩
  | requested =>
    simp only [hcls] at h
    refine ⟨fun hp => absurd hp (hbody (.bind fun _ => .ite ?_ ?_) h), fun hc => by cases hc.1⟩
    · exact .bind fun _ => .pure (Option.some_ne_none _)
    · exact .bind fun _ => returns_pollWithSig _
  | executed | reverted =>
    simp only [hcls] at h
    refine ⟨fun hp => absurd hp (hbody ?_ h), fun hc => by cases hc.1⟩
    exact .bind fun _ => .bind fun _ => returns_pollWithSig _
  | accepted | rejected =>
    rw [hcls] at hagg
    cases hagg
  | committed | rollbacked =>
    rw [hcls] at hfinal
    cases hfinal

/-- Only the builder of a final status reports a metric, and it builds nothing. -/
theorem build_reports (hon : env.cfg.prometheusOn = true) (hs : Serves env self)
    (hsrc : self.srcChain? env.cfg.network = some src) {p : SendParamTuple}
    (h : self.buildTransactionParams env s = ⟨.ok p, s', w⟩) :
    (self.cls.isFinal = true ∧ p = none ∧ metricsOf w = [(src, self.status)]) ∨
      (self.cls.isFinal = false ∧ metricsOf w = []) := by
  cases hfin : self.cls.isFinal with
  | true =>
    have hdisp : self.buildTransactionParams = FinalStatusEvent.buildTransactionParams self := by
      unfold buildTransactionParams
      split <;> simp_all [EventClass.isFinal]
    rw [hdisp] at h
    obtain ⟨s₁, w₁, hbody, hw⟩ := guarded_reports hon hs hsrc h
    cases hbody
    exact .inl ⟨rfl, rfl, hw⟩
  | false =>
    refine .inr ⟨rfl, ?_⟩
    cases hagg : self.cls.isAggregated with
    | false =>
      exact metrics_of_emits ((builds_vote (P := fun _ => True) trivial hagg hfin).mono
        Effect.BuildsIn.noMetric) h
    | true =>
      rw [build_of_aggregated hagg] at h
      obtain ⟨s₁, w₁, w₂, hcheck, -, -⟩ := hs.guarded_ok h
      have hem := builds_relay (P := fun _ => True) trivial (fun _ _ => trivial) ⟨s₁, w₁, hcheck⟩
      rw [h] at hem
      exact metricsOf_noMetric fun o ho => Effect.BuildsIn.noMetric o (hem o ho)

end RbcEvent

/-! ## One handling -/

/-- What a handling of `e`, an event of the chain `src`, reports and leaves, when its transaction
succeeds. -/
inductive Reports (src : ChainEnum) (e : RbcEvent) :
    List (ChainEnum × ChainEventStatus) → List Queued → Prop where
  | reported : e.mode = .send → ¬ (e.cls = .failed ∧ src = .bifrost) →
      Reports src e [(src, e.status)] []
  | awaited (t : Nat) : e.cls = .requested → e.mode = .send → src ≠ .bifrost →
      Reports src e [(src, e.status)] [.socket (e.switchToCall t)]
  | silent : e.mode = .send → (e.cls.isAggregated ∨ e.cls = .failed ∧ src = .bifrost) →
      Reports src e [] []
  | deferred (e' : RbcEvent) : e.cls.isAggregated → e.mode = .send → e.Same e' →
      e'.mode = .call → Reports src e [] [.socket e']
  | called : e.mode = .call → Reports src e [] []
  | resumed (e' : RbcEvent) : e.cls.isAggregated → e.mode = .call → e.Same e' →
      e'.mode = .send → Reports src e [] [.socket e']
  | noQuorum (e' : RbcEvent) : e.cls = .requested → e.mode = .call → Cloned e e' →
      Reports src e [] [.socket e']

section Handling

variable {e : RbcEvent} {h : Handling} {src : ChainEnum} {n : Option RbcEvent}
  (hon : env.cfg.prometheusOn = true) (hs : e.Serves env)
  (hsrc : e.srcChain? env.cfg.network = some src)

include hon hs hsrc

theorem reports_of_send (hmode : e.mode = .send) (hn : h.next = n.map .socket)
    (hp : e.processSend h.outcome env s = ⟨.ok n, s', h.out⟩)
    (hout : h.sent ≠ [] → h.outcome = .success) : Reports src e (metricsOf h.out) h.queued := by
  rcases processSend_ok hp with ⟨hb, rfl⟩ | ⟨tx, s₁, w₁, w₂, hb, hr, hw⟩
  · rw [Handling.queued, hn]
    rcases RbcEvent.build_reports hon hs hsrc hb with ⟨hfin, -, hm⟩ | ⟨hfin, hm⟩
    · obtain ⟨-, henq | ⟨-, hagg, -⟩⟩ := build_effects hb
      · rw [hm, henq]
        refine .reported hmode fun hc => ?_
        rw [hc.1] at hfin
        cases hfin
      · cases hcls : e.cls <;> simp [hcls, EventClass.isFinal, EventClass.isAggregated] at hfin hagg
    · obtain ⟨-, henq | ⟨-, hagg, -, henq⟩⟩ := build_effects hb
      · rw [hm, henq]
        refine .silent hmode ?_
        cases hagg : e.cls.isAggregated with
        | true => exact .inl rfl
        | false => exact .inr ((RbcEvent.build_eq_none_iff hs hsrc hagg hfin hb).mp rfl)
      · rw [hm, henq]
        exact .deferred _ hagg hmode (AggregatedRelayEvent.same_deferred e env.cfg) rfl
  · obtain ⟨-, henq | ⟨hnone, -⟩⟩ := build_effects hb
    · obtain ⟨-, hsent', hq⟩ := effects_of_send hw (handleTxResult_ok hr).2
      have hsucc : h.outcome = .success := by
        refine hout ?_
        rw [hsent']
        simp
      rw [hsucc] at hr
      obtain ⟨hm₂, hnext⟩ := RbcEvent.handleTxResultSuccess_reports hon hs hsrc hr
      rcases RbcEvent.build_reports hon hs hsrc hb with ⟨-, hnone, -⟩ | ⟨hfin, hm⟩
      · cases hnone
      have hne : ¬ (e.cls = .failed ∧ src = .bifrost) := by
        intro hc
        have hagg : e.cls.isAggregated = false := by rw [hc.1]; rfl
        cases (RbcEvent.build_eq_none_iff hs hsrc hagg hfin hb).mpr hc
      rw [hw, metricsOf_append, metricsOf_sent, hm, hm₂, hq, henq, hn]
      rcases hnext with rfl | ⟨hreq, hne', t, rfl⟩
      · exact .reported hmode hne
      · exact .awaited t hreq hmode hne'
    · cases hnone

omit hs hsrc hon in
theorem reports_of_call (hmode : e.mode = .call) (hn : h.next = n.map .socket)
    (hp : e.processCall env s = ⟨.ok n, s', h.out⟩) : Reports src e (metricsOf h.out) h.queued := by
  have hmetrics : metricsOf h.out = [] := by
    have hbuild : Proc.Emits Effect.NoMetric e.buildCallTransactionParams :=
      (RbcEvent.builds_buildCall (P := fun _ => True) trivial).mono Effect.BuildsIn.noMetric
    have hresult : ∀ info, Proc.Emits Effect.NoMetric (e.handleCallResult info) := fun info =>
      (RbcEvent.builds_handleCallResult (P := fun _ => True) trivial info).mono
        Effect.BuildsIn.noMetric
    rcases processCall_ok hp with ⟨hb, -⟩ | ⟨tx, info, s₁, w₁, w₂, hb, hr, hw⟩
    · exact metrics_of_emits hbuild hb
    · rw [hw, metricsOf_append, metricsOf_append, metrics_of_emits hbuild hb,
        metrics_of_emits (hresult info) hr]
      rfl
  rw [hmetrics]
  have hmoves := moves_of_call hmode hn hp
  have hsend : e.mode ≠ .send := by
    rw [hmode]
    decide
  generalize h.queued = l at hmoves ⊢
  generalize h.sent = txs at hmoves
  cases hmoves with
  | dropped => exact .called hmode
  | sent _ hm => exact absurd hm hsend
  | awaited _ _ _ hm => exact absurd hm hsend
  | deferred _ _ hm => exact absurd hm hsend
  | resumed e' hagg hm hsame hm' => exact .resumed e' hagg hm hsame hm'
  | failed _ _ hm => exact absurd hm hsend
  | noQuorum e' hcls hm hclone => exact .noQuorum e' hcls hm hclone

/-- The inversion lemma of a handling of a Socket event that is the relayer's. -/
theorem reports_of_process (hp : process h.outcome (.socket e) env s = ⟨.ok h.next, s', h.out⟩)
    (hout : h.sent ≠ [] → h.outcome = .success) : Reports src e (metricsOf h.out) h.queued := by
  obtain ⟨n, hn, hp⟩ := process_socket_ok hp
  unfold RbcEvent.process at hp
  cases hmode : e.mode with
  | send =>
    rw [hmode] at hp
    exact reports_of_send hon hs hsrc hmode hn hp hout
  | call =>
    rw [hmode] at hp
    exact reports_of_call hmode hn hp

end Handling

end Bifrost
