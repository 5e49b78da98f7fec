import Bifrost.Events.RbcSpec

/-!
# What a builder emits

The parts of a handler read chains, sign and queue events. `Effect.BuildsIn P`
says so of an effect, with the chains that are read in `P`: it is neither a
transaction, which the loop sends, nor a metric, which the handlers of a success
and of a final status report.
-/

namespace Bifrost

open Bifrost.Lib

/-- No transaction and no metric; a remote read is on a chain of `P`. -/
def Effect.BuildsIn (P : ChainEnum → Prop) : Effect → Prop
  | .called chain _ => P chain
  | .metric .. | .sent _ => False
  | _ => True

/-- `_FinalStatusEvent`. -/
def EventClass.isFinal : EventClass → Bool
  | .committed | .rollbacked => true
  | _ => false

namespace RbcEvent

variable {self : RbcEvent} {env : Env} {s s' : RState} {w : List Effect} {P : ChainEnum → Prop}

/-! ## Reads -/

section Reads

variable {α : Type}

theorem builds_worldCall {chain : ChainEnum} (h : P chain) (method : String) (answer : View → α) :
    Proc.Emits (Effect.BuildsIn P) (RM.worldCall chain method answer) := by
  intro env s o ho
  rw [worldCall_run, List.mem_singleton] at ho
  rw [ho]
  exact h

theorem builds_getConfig : Proc.Emits (Effect.BuildsIn P) RM.getConfig :=
  .bind .ask fun _ => .pure _

theorem builds_reqId : Proc.Emits (Effect.BuildsIn P) self.reqId :=
  .bind builds_getConfig fun _ => .bind (.ofOption _ _) fun _ => .pure _

theorem builds_srcChain : Proc.Emits (Effect.BuildsIn P) self.srcChain :=
  .bind builds_reqId fun _ => .pure _

theorem builds_rnd : Proc.Emits (Effect.BuildsIn P) self.rnd := .bind builds_reqId fun _ => .pure _

theorem builds_isInbound : Proc.Emits (Effect.BuildsIn P) self.isInbound :=
  .bind builds_srcChain fun _ => .pure _

theorem builds_dstChain : Proc.Emits (Effect.BuildsIn P) self.dstChain :=
  .bind (.bind builds_getConfig fun _ => .ofOption _ _) fun _ => .pure _

theorem builds_targetChain :
    Proc.Emits (Effect.BuildsIn P) (AggregatedRelayEvent.targetChain self) :=
  .bind builds_isInbound fun _ => .ite builds_srcChain builds_dstChain

theorem builds_summary : Proc.Emits (Effect.BuildsIn P) self.summary :=
  .bind builds_reqId fun _ => .pure _

theorem builds_requestId : Proc.Emits (Effect.BuildsIn P) self.requestId :=
  .bind builds_reqId fun _ => .bind builds_getConfig fun _ => .pure _

theorem builds_detectedEvent (ref : Ref) : Proc.Emits (Effect.BuildsIn P) (RM.detectedEvent ref) :=
  .bind .get fun _ => .pure _

theorem builds_submitTuple (sigs : SocketSignature) (b : Bool) :
    Proc.Emits (Effect.BuildsIn P) (PollSubmit.submitTuple self sigs b) :=
  .bind (builds_detectedEvent _) fun _ => .bind (.bind .ask fun _ => .ofOption _ _) fun _ => .pure _

theorem builds_pollWithSig (msg : Bytes) :
    Proc.Emits (Effect.BuildsIn P) (self.pollWithSig msg) :=
  .bind .ask fun _ => .bind (.bind .ask fun _ => .bind (.emit trivial) fun _ => .pure _) fun _ =>
    .bind (.ofOption _ _) fun _ => .bind (builds_submitTuple _ _) fun _ => .pure _

theorem builds_dataWithStatus (t : ChainEventStatus) :
    Proc.Emits (Effect.BuildsIn P) (self.dataWithStatus t) :=
  .bind (builds_detectedEvent _) fun _ => .pure _

theorem builds_getRequestCall {chain : RM ChainEnum} (h : Proc.Emits (Effect.BuildsIn P) chain) :
    Proc.Emits (Effect.BuildsIn P) (self.getRequestCall chain) :=
  .bind h fun _ => .bind builds_requestId fun _ => .pure _

theorem builds_getRequest {tx : CallTx} (h : P tx.chain) :
    Proc.Emits (Effect.BuildsIn P) (RM.getRequest tx) :=
  .bind (builds_worldCall h _ _) fun _ => .bind (.emit trivial) fun _ => .pure _

theorem builds_checkAlreadyDone {info : RequestInfo} :
    Proc.Emits (Effect.BuildsIn P) (AggregatedRelayEvent.checkAlreadyDone self info) :=
  .bind (.ofOption _ _) fun _ => .bind builds_isInbound fun _ => .pure _

theorem builds_construct (cls : EventClass) (ref : Ref) (t : Nat) :
    Proc.Emits (Effect.BuildsIn P) (construct cls ref t) := by
  refine .bind (builds_detectedEvent _) fun log => ?_
  split
  · exact .pure _
  · exact .throw _

theorem builds_init (ref : Ref) (t : Nat) : Proc.Emits (Effect.BuildsIn P) (init ref t) := by
  refine .bind builds_getConfig fun _ => .bind (.bind (builds_detectedEvent _) fun _ =>
    .ofOption _ _) fun _ => .bind (.ofOption _ _) fun _ => ?_
  refine .ite (builds_construct _ _ _) (.ite (.bind (.ofOption _ _) fun _ => ?_)
    (builds_construct _ _ _))
  exact .bind (builds_construct _ _ _) fun _ => .bind (.bind builds_reqId fun _ => .pure _) fun _ =>
    .pure _

theorem builds_clone (t : ChainEventStatus) (timeLock : Nat) :
    Proc.Emits (Effect.BuildsIn P) (self.cloneWithOtherStatus t (some timeLock)) :=
  .bind (.pure _) fun _ => .bind (.modify _) fun _ => builds_init _ _

end Reads

section Bifrost

variable (hb : P .bifrost)

include hb

theorem builds_checkMyEvent : Proc.Emits (Effect.BuildsIn P) self.checkMyEvent := by
  refine reads_checkMyEvent.mono fun o ho => ?_
  obtain ⟨method, rfl⟩ := ho
  exact hb

/-- What a body may emit next to its check. -/
theorem emits_guarded {α : Type} {Q : Effect → Prop} {body : RM (Option α)}
    (hQ : ∀ o : Effect, o.BuildsIn P → Q o) (h : Proc.Emits Q body) :
    Proc.Emits Q (self.guarded body) :=
  .bind ((builds_checkMyEvent hb).mono hQ) fun _ => .ite h (.pure _)

theorem builds_guarded {α : Type} {body : RM (Option α)}
    (h : Proc.Emits (Effect.BuildsIn P) body) :
    Proc.Emits (Effect.BuildsIn P) (self.guarded body) :=
  emits_guarded hb (fun _ ho => ho) h

theorem builds_isPrimaryRelayer : Proc.Emits (Effect.BuildsIn P) self.isPrimaryRelayer := by
  have hnum : Proc.Emits (Effect.BuildsIn P) (RM.fetchRelayerNum .bifrost true) :=
    .bind (.bind (builds_worldCall hb _ _) fun _ => .pure _) fun _ => .pure _
  refine .bind builds_getConfig fun _ => .ite (.pure _) (.bind hnum fun _ => ?_)
  refine .bind (builds_detectedEvent _) fun _ => .ite (.throw _) (.bind builds_rnd fun _ => ?_)
  exact .bind (.bind .get fun _ => .pure _) fun _ => .pure _

theorem builds_relayOrDefer : Proc.Emits (Effect.BuildsIn P)
    (AggregatedRelayEvent.relayOrDefer self) := by
  refine .bind (builds_isPrimaryRelayer hb) fun _ => .ite ?_ ?_
  · refine .bind builds_targetChain fun _ => .bind builds_requestId fun _ => ?_
    exact .bind (builds_worldCall hb _ _) fun _ => .bind (.ofOption _ _) fun _ =>
      .bind (builds_submitTuple _ _) fun _ => .pure _
  · exact .bind builds_getConfig fun _ => .bind (.emit trivial) fun _ => .pure _

/-- A vote reads BIFROST only; the event of a final status votes for nothing. -/
theorem builds_vote (hagg : self.cls.isAggregated = false) (hfinal : self.cls.isFinal = false) :
    Proc.Emits (Effect.BuildsIn P) self.buildTransactionParams := by
  have hsig : Proc.Emits (Effect.BuildsIn P) self.buildTransactionParamWithSig :=
    .bind (.ofOption _ _) fun _ => .bind (builds_dataWithStatus _) fun _ => builds_pollWithSig _
  unfold buildTransactionParams
  cases hcls : self.cls with
  | failed =>
    refine builds_guarded hb (.bind builds_isInbound fun _ => .ite (.pure _) ?_)
    exact .bind (builds_detectedEvent _) fun _ => builds_pollWithSig _
  | requested =>
    refine builds_guarded hb (.bind builds_isInbound fun _ => .ite ?_ ?_)
    · exact .bind (builds_submitTuple _ _) fun _ => .pure _
    · exact .bind (builds_dataWithStatus _) fun _ => builds_pollWithSig _
  | executed => exact builds_guarded hb hsig
  | reverted => exact builds_guarded hb hsig
  | accepted | rejected =>
    rw [hcls] at hagg
    cases hagg
  | committed | rollbacked =>
    rw [hcls] at hfinal
    cases hfinal

/-- The call builders read BIFROST only. -/
theorem builds_buildCall : Proc.Emits (Effect.BuildsIn P) self.buildCallTransactionParams := by
  have hbase : Proc.Emits (Effect.BuildsIn P) (Base.buildCallTransactionParams self) :=
    builds_guarded hb (.bind builds_summary fun _ => .pure _)
  unfold buildCallTransactionParams
  split
  · exact builds_guarded hb (builds_getRequestCall builds_dstChain)
  · exact builds_guarded hb (builds_getRequestCall builds_targetChain)
  · exact builds_guarded hb (builds_getRequestCall builds_targetChain)
  · exact hbase

/-- A settled event reads its target chain as well. -/
theorem builds_relay (ht : ∀ c, self.targetChain? env.cfg.network = some c → P c)
    (hcheck : ∃ t w, self.checkMyEvent env s = ⟨.ok true, t, w⟩) :
    ∀ o ∈ (AggregatedRelayEvent.buildTransactionParams self env s).out, o.BuildsIn P := by
  intro o ho
  obtain ⟨t, w, hcheck⟩ := hcheck
  unfold AggregatedRelayEvent.buildTransactionParams guarded at ho
  rcases Proc.mem_out_bind ho with ho | ⟨b, t', w', hb', ho⟩
  · exact builds_checkMyEvent hb env s o ho
  rw [hcheck] at hb'
  cases hb'
  rw [if_pos rfl] at ho
  rcases Proc.mem_out_bind ho with ho | ⟨p, t', w', hp, ho'⟩
  · exact builds_guarded hb (builds_getRequestCall builds_targetChain) env t o ho
  -- behind its builder the call is one to the target chain
  obtain ⟨c, rid, hc, -, rfl, rfl, rfl⟩ :=
    AggregatedRelayEvent.buildCall_passed (passed_of_check hcheck) hp
  have hrest : Proc.Emits (Effect.BuildsIn P) (do
      let result ← RM.getRequest
        ⟨c, SOCKET_CONTRACT_NAME, GET_REQ_INFO_FUNCTION_NAME, rid⟩
      let p ← AggregatedRelayEvent.checkAlreadyDone self result
      if p.1 = p.2 then pure none else AggregatedRelayEvent.relayOrDefer self :
        RM SendParamTuple) := by
    refine .bind (builds_getRequest (ht c hc)) fun info => .bind builds_checkAlreadyDone fun _ =>
      .ite (.pure _) (builds_relayOrDefer hb)
  exact hrest env t' o ho'

theorem builds_handleCallResult (info : RequestInfo) :
    Proc.Emits (Effect.BuildsIn P) (self.handleCallResult info) := by
  have hfail : Proc.Emits (Effect.BuildsIn P) (ChainRequestedEvent.handleTxResultFail self) :=
    builds_guarded hb (.bind (builds_clone _ _) fun _ => .pure _)
  have hrelay : Proc.Emits (Effect.BuildsIn P) (AggregatedRelayEvent.handleCallResult self info) :=
    builds_guarded hb (.bind builds_checkAlreadyDone fun _ => .ite (.pure _)
      (.bind (.bind builds_targetChain fun _ => .pure _) fun _ =>
        .bind (.bind .ask fun _ => .bind .get fun _ => .pure _) fun _ => .pure _))
  unfold handleCallResult
  split
  · exact builds_guarded hb (.bind builds_rnd fun _ => .bind (builds_worldCall hb _ _) fun _ =>
      .ite (.pure _) (.ite (.pure _) hfail))
  · exact hrelay
  · exact hrelay
  · exact builds_guarded hb (.bind builds_summary fun _ => .pure _)

end Bifrost

end RbcEvent

end Bifrost
