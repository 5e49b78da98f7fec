import Bifrost.Events.Emits

/-!
# Where an event is routed

The check of an event asks whether its source chain is supported. Votes go to
BIFROST, a settled inbound request goes to its source chain; but the builders of
a REQUESTED event and of a settled outbound request use the destination chain,
which nothing checks. `routed_iff` says when every chain that the two builders
name or read is supported.
-/

namespace Bifrost

open Bifrost.Lib

/-- A remote read is on a chain of `P`. -/
def Effect.CallsIn (P : ChainEnum → Prop) : Effect → Prop
  | .called chain _ => P chain
  | _ => True

theorem Effect.BuildsIn.callsIn {P : ChainEnum → Prop} :
    ∀ o : Effect, o.BuildsIn P → o.CallsIn P := by
  intro o ho
  cases o with
  | called => exact ho
  | _ => trivial

namespace RbcEvent

/-- Every chain that the two builders name or read is one of `P`. -/
structure RoutedIn (P : ChainEnum → Prop) (env : Env) (s : RState) (e : RbcEvent) : Prop where
  call : ∀ tx, (e.buildCallTransactionParams env s).val = .ok (some tx) → P tx.chain
  send : ∀ tx, (e.buildTransactionParams env s).val = .ok (some tx) → P tx.chain
  calls_call : ∀ o ∈ (e.buildCallTransactionParams env s).out, o.CallsIn P
  calls_send : ∀ o ∈ (e.buildTransactionParams env s).out, o.CallsIn P

/-- The builders use the destination chain. -/
def RoutesToDst (net : Network) (self : RbcEvent) : Prop :=
  self.cls = .requested ∨ self.cls.isAggregated ∧ self.srcChain? net = some .bifrost

instance (net : Network) (self : RbcEvent) : Decidable (self.RoutesToDst net) :=
  inferInstanceAs (Decidable (_ ∨ _ ∧ _))

variable {self : RbcEvent} {env : Env} {s s' : RState} {w : List Effect} {P : ChainEnum → Prop}

/-! ## Reads -/

/-- A vote reads BIFROST only. -/
theorem calls_vote (hb : P .bifrost) (hagg : self.cls.isAggregated = false) :
    Proc.Emits (Effect.CallsIn P) self.buildTransactionParams := by
  cases hfin : self.cls.isFinal with
  | false => exact (builds_vote hb hagg hfin).mono Effect.BuildsIn.callsIn
  | true =>
    have hfinal : Proc.Emits (Effect.CallsIn P) (FinalStatusEvent.buildTransactionParams self) :=
      emits_guarded hb Effect.BuildsIn.callsIn
        (.bind (builds_srcChain.mono Effect.BuildsIn.callsIn) fun _ =>
          .bind (.bind (builds_getConfig.mono Effect.BuildsIn.callsIn) fun _ =>
            .ite (.emit trivial) (.pure _)) fun _ => .pure _)
    unfold buildTransactionParams
    cases hcls : self.cls with
    | committed => exact hfinal
    | rollbacked => exact hfinal
    | _ =>
      rw [hcls] at hfin
      cases hfin

/-! ## Tuples -/

theorem returns_guarded {α : Type} {body : RM (Option α)} {Q : α → Prop}
    (h : Proc.Returns (fun p => ∀ a, p = some a → Q a) body) :
    Proc.Returns (fun p => ∀ a, p = some a → Q a) (self.guarded body) :=
  .bind fun _ => .ite h (.pure fun _ ha => by cases ha)

/-- A vote goes to BIFROST. -/
theorem returns_vote (hagg : self.cls.isAggregated = false) :
    Proc.Returns (fun p => ∀ tx : SendTx, p = some tx → tx.chain = .bifrost)
      self.buildTransactionParams := by
  have hnone : Proc.Returns (fun p => ∀ tx : SendTx, p = some tx → tx.chain = .bifrost)
      (pure none : RM SendParamTuple) := .pure fun _ h => by cases h
  have hpoll : ∀ msg, Proc.Returns (fun p => ∀ tx : SendTx, p = some tx → tx.chain = .bifrost)
      (self.pollWithSig msg) := fun _ => .bind fun _ => .bind fun _ => .bind fun _ =>
    .bind fun _ => .pure fun _ h => by cases h; rfl
  have hsig : Proc.Returns (fun p => ∀ tx : SendTx, p = some tx → tx.chain = .bifrost)
      self.buildTransactionParamWithSig := .bind fun _ => .bind fun _ => hpoll _
  have hfinal : Proc.Returns (fun p => ∀ tx : SendTx, p = some tx → tx.chain = .bifrost)
      (FinalStatusEvent.buildTransactionParams self) :=
    returns_guarded (.bind fun _ => .bind fun _ => hnone)
  unfold buildTransactionParams
  cases hcls : self.cls with
  | failed => exact returns_guarded (.bind fun _ => .ite hnone (.bind fun _ => hpoll _))
  | requested =>
    refine returns_guarded (.bind fun _ => .ite ?_ (.bind fun _ => hpoll _))
    exact .bind fun _ => .pure fun _ h => by cases h; rfl
  | executed => exact returns_guarded hsig
  | reverted => exact returns_guarded hsig
  | accepted | rejected =>
    rw [hcls] at hagg
    cases hagg
  | committed => exact hfinal
  | rollbacked => exact hfinal

/-- A settled event goes to its target chain. -/
theorem relay_chain {tx : SendTx} (hagg : self.cls.isAggregated)
    (h : (self.buildTransactionParams env s).val = .ok (some tx)) :
    self.targetChain? env.cfg.network = some tx.chain := by
  rw [build_of_aggregated hagg] at h
  have hrun := Res.eq_of_val h
  obtain ⟨-, -, hcase⟩ := AggregatedRelayEvent.buildTransactionParams_ok hrun
  rcases hcase with ⟨_, _, -, hp, -⟩ | ⟨_, _, _, _, _, -, -, -, -, -, ⟨-, hp, -⟩ |
    ⟨-, ⟨_, hp, ⟨c, sigs, hc, rfl⟩, -⟩ | ⟨hp, -⟩⟩⟩
  · cases hp
  · cases hp
  · cases hp
    exact hc
  · cases hp

theorem dstChain_ok {c : ChainEnum} (h : self.dstChain env s = ⟨.ok c, s', w⟩) :
    ∃ m, self.inst? env.cfg.network = some (c, m) := by
  cases hi : self.inst? env.cfg.network with
  | none => simp [dstChain, inst, hi] at h
  | some i =>
    rw [dstChain_run hi] at h
    cases h
    exact ⟨i.2, rfl⟩

/-- The chain of a call is the one its builder computes. -/
theorem call_chain {chain : RM ChainEnum} {tx : CallTx}
    (h : (self.guarded (self.getRequestCall chain) env s).val = .ok (some tx)) :
    ∃ s₁ s₂ w, chain env s₁ = ⟨.ok tx.chain, s₂, w⟩ := by
  rcases guarded_ok (Res.eq_of_val h) with ⟨-, hp⟩ | ⟨s₁, w₁, w₂, -, h₂, -⟩
  · cases hp
  · obtain ⟨c, rid, s₂, hc, -, hp, -⟩ := AggregatedRelayEvent.getRequestCall_ok h₂
    cases hp
    exact ⟨s₁, s₂, w₂, hc⟩

theorem call_val {chain : RM ChainEnum} {d src : ChainEnum} {t : RState}
    (hcheck : self.checkMyEvent env s = ⟨.ok true, t, w⟩)
    (hsrc : self.srcChain? env.cfg.network = some src) (hd : chain env t = ⟨.ok d, t, []⟩) :
    ∃ rid, (self.guarded (self.getRequestCall chain) env s).val =
      .ok (some ⟨d, SOCKET_CONTRACT_NAME, GET_REQ_INFO_FUNCTION_NAME, rid⟩) := by
  unfold guarded getRequestCall
  rw [Proc.bind_run, hcheck, Res.andThen_ok, if_pos rfl, Proc.bind_run, hd, Res.andThen_ok,
    Proc.bind_run, requestId_run hsrc]
  exact ⟨_, rfl⟩

theorem targetChain_of_outbound {i : ChainEnum × RBCMethodV1}
    (hsrc : self.srcChain? env.cfg.network = some .bifrost)
    (hi : self.inst? env.cfg.network = some i) :
    AggregatedRelayEvent.targetChain self env s = ⟨.ok i.1, s, []⟩ := by
  unfold AggregatedRelayEvent.targetChain
  rw [Proc.bind_run, isInbound_run hsrc, Res.andThen_ok, Res.after_nil, if_neg (by simp),
    dstChain_run hi]

/-- The chain of a call: the destination of a REQUESTED event, the target of a settled one. -/
theorem buildCall_chain {tx : CallTx}
    (h : (self.buildCallTransactionParams env s).val = .ok (some tx)) :
    (self.cls = .requested ∧ ∃ m, self.inst? env.cfg.network = some (tx.chain, m)) ∨
      self.cls.isAggregated ∧ self.targetChain? env.cfg.network = some tx.chain := by
  cases hagg : self.cls.isAggregated with
  | true =>
    rw [buildCall_of_aggregated hagg] at h
    obtain ⟨_, _, _, hc⟩ := call_chain h
    exact .inr ⟨rfl, (targetChain_ok hc).1⟩
  | false =>
    by_cases hreq : self.cls = .requested
    · simp only [buildCallTransactionParams, hreq] at h
      obtain ⟨_, _, _, hc⟩ := call_chain h
      exact .inl ⟨hreq, dstChain_ok hc⟩
    · have hdisp : self.buildCallTransactionParams = Base.buildCallTransactionParams self := by
        unfold buildCallTransactionParams
        split <;> simp_all [EventClass.isAggregated]
      rw [hdisp] at h
      rcases guarded_ok (Res.eq_of_val h) with ⟨-, hp⟩ | ⟨s₁, w₁, w₂, -, h₂, -⟩
      · cases hp
      · obtain ⟨_, _, _, _, -, h₄, -⟩ := Proc.bind_ok h₂
        cases (Proc.pure_ok h₄).1

/-- A builder of an event that routes to its destination names it in a call. -/
theorem buildCall_of_routesToDst {t : RState} {d src : ChainEnum} {m : RBCMethodV1}
    (hcheck : self.checkMyEvent env s = ⟨.ok true, t, w⟩)
    (hsrc : self.srcChain? env.cfg.network = some src)
    (hr : self.RoutesToDst env.cfg.network) (hi : self.inst? env.cfg.network = some (d, m)) :
    ∃ rid, (self.buildCallTransactionParams env s).val =
      .ok (some ⟨d, SOCKET_CONTRACT_NAME, GET_REQ_INFO_FUNCTION_NAME, rid⟩) := by
  rcases hr with hreq | ⟨hagg, hout⟩
  · obtain ⟨rid, hval⟩ := call_val hcheck hsrc (dstChain_run hi)
    refine ⟨rid, ?_⟩
    simp only [buildCallTransactionParams, hreq]
    exact hval
  · obtain ⟨rid, hval⟩ := call_val hcheck hsrc (targetChain_of_outbound hout hi)
    refine ⟨rid, ?_⟩
    rw [buildCall_of_aggregated hagg]
    exact hval

/-! ## Supported chains -/

/-- The target of a relay is the source chain, or a destination chain that the builders use. -/
theorem target_supported {src c : ChainEnum} (hsrc : self.srcChain? env.cfg.network = some src)
    (hsup : src ∈ env.cfg.supportedChainList)
    (hdst : self.RoutesToDst env.cfg.network → ∀ d m, self.inst? env.cfg.network = some (d, m) →
      d ∈ env.cfg.supportedChainList)
    (hagg : self.cls.isAggregated) (hc : self.targetChain? env.cfg.network = some c) :
    c ∈ env.cfg.supportedChainList := by
  rw [targetChain?, hsrc, Option.bind_some] at hc
  split at hc
  · next hout =>
    obtain ⟨⟨d, m⟩, hi, rfl⟩ := Option.map_eq_some_iff.mp hc
    exact hdst (.inr ⟨hagg, by rw [hsrc, hout]⟩) d m hi
  · cases hc
    exact hsup

/-- **Routing.** For an event that passes its check, every chain that the builders name or read is
supported if and only if the builders do not use the destination chain or it is supported. -/
theorem routed_iff (hrole : env.cfg.isFastRelayer = false)
    (hb : .bifrost ∈ env.cfg.supportedChainList)
    (hcheck : (self.checkMyEvent env s).val = .ok true) :
    self.RoutedIn (· ∈ env.cfg.supportedChainList) env s ↔
      (self.RoutesToDst env.cfg.network → ∀ d m, self.inst? env.cfg.network = some (d, m) →
        d ∈ env.cfg.supportedChainList) := by
  have hrun := Res.eq_of_val hcheck
  obtain ⟨src, hsup, hsrc⟩ : ∃ c ∈ env.cfg.supportedChainList,
      self.srcChain? env.cfg.network = some c := by
    rcases passed_of_check hrun with hf | ⟨h, -⟩
    · rw [hrole] at hf
      cases hf
    · exact h
  constructor
  · intro h hr d m hi
    obtain ⟨rid, hval⟩ := buildCall_of_routesToDst hrun hsrc hr hi
    exact h.call _ hval
  · intro h
    have htarget : self.cls.isAggregated → ∀ c, self.targetChain? env.cfg.network = some c →
        c ∈ env.cfg.supportedChainList := fun hagg _ => target_supported hsrc hsup h hagg
    refine ⟨fun tx hval => ?_, fun tx hval => ?_,
      (builds_buildCall hb).mono Effect.BuildsIn.callsIn env s, ?_⟩
    · rcases buildCall_chain hval with ⟨hreq, m, hi⟩ | ⟨hagg, hc⟩
      · exact h (.inl hreq) _ m hi
      · exact htarget hagg _ hc
    · cases hagg : self.cls.isAggregated with
      | false =>
        rw [returns_vote hagg env s _ hval tx rfl]
        exact hb
      | true => exact htarget hagg _ (relay_chain hagg hval)
    · cases hagg : self.cls.isAggregated with
      | false => exact calls_vote hb hagg env s
      | true =>
        rw [build_of_aggregated hagg]
        exact fun o ho => (builds_relay hb (htarget hagg) ⟨_, _, hrun⟩ o ho).callsIn

end RbcEvent

/-! ## A destination that is not supported -/

/-- A settled request from BIFROST to MATIC, which the sample relayer does not support. -/
def Sample.toMatic : RbcEvent := event .accepted .bifrost .matic

namespace RbcEvent

/-- A settled request from ETHEREUM goes back to ETHEREUM. -/
theorem routed_iff_inbound :
    (Sample.event .accepted .ethereum .matic).RoutedIn (· ∈ Sample.cfg.supportedChainList)
      (Sample.soleEnv .accepted) (Sample.state Sample.outbound.msg) := by
  have hcheck : ((Sample.event .accepted .ethereum .matic).checkMyEvent (Sample.soleEnv .accepted)
      (Sample.state Sample.outbound.msg)).val = .ok true := by decide +kernel
  exact (routed_iff rfl (by decide) hcheck).mpr fun hr => absurd hr (by decide +kernel)

/-- The event passes its check, and its call names MATIC. -/
theorem not_routed_outbound :
    (Sample.toMatic.checkMyEvent (Sample.soleEnv .accepted)
      (Sample.state Sample.toMatic.msg)).val = .ok true ∧
    Sample.cfg.isFastRelayer = false ∧ .bifrost ∈ Sample.cfg.supportedChainList ∧
    .matic ∉ Sample.cfg.supportedChainList ∧
    ¬ Sample.toMatic.RoutedIn (· ∈ Sample.cfg.supportedChainList) (Sample.soleEnv .accepted)
      (Sample.state Sample.toMatic.msg) := by
  refine ⟨by decide +kernel, rfl, by decide, by decide, fun h => ?_⟩
  have hval : (Sample.toMatic.buildCallTransactionParams (Sample.soleEnv .accepted)
      (Sample.state Sample.toMatic.msg)).val = .ok (some ⟨.matic, SOCKET_CONTRACT_NAME,
        GET_REQ_INFO_FUNCTION_NAME, ⟨ChainEnum.bifrost.formattedBytes .mainnet, 5, 1⟩⟩) := by
    decide +kernel
  exact absurd (h.call _ hval) (by decide)

end RbcEvent

end Bifrost
