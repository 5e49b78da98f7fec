import Bifrost.Events.RbcSpec

/-!
# The six handlers of a Socket event

`Handler.run` is the method of the event's class under its name. Every class
guards every handler with `check_my_event` (`exists_guarded`), and no handler
stores anything but the relayer's own index (`keepsCache_run`).
-/

namespace Bifrost

open Bifrost.Lib

inductive Handler where
  | buildCallTransactionParams | buildTransactionParams | handleCallResult (result : RequestInfo)
  | handleTxResultSuccess | handleTxResultFail | handleTxResultNoReceipt

/-- What a handler returns when it is neither `None` nor `NoneParams`. -/
inductive Reply where
  | call (params : CallTx) | send (params : SendTx) | event (next : RbcEvent)

/-- The result of `x`, as a reply. -/
def RM.reply {α : Type} (f : α → Reply) (x : RM (Option α)) : RM (Option Reply) := do
  let r ← x
  pure (r.map f)

namespace Handler

def run (self : RbcEvent) : Handler → RM (Option Reply)
  | buildCallTransactionParams => RM.reply .call self.buildCallTransactionParams
  | buildTransactionParams => RM.reply .send self.buildTransactionParams
  | handleCallResult result => RM.reply .event (self.handleCallResult result)
  | handleTxResultSuccess => RM.reply .event self.handleTxResultSuccess
  | handleTxResultFail => RM.reply .event self.handleTxResultFail
  | handleTxResultNoReceipt => RM.reply .event self.handleTxResultNoReceipt

/-- Every handler of every class runs under the check. -/
theorem exists_guarded (self : RbcEvent) (h : Handler) :
    ∃ (α : Type) (f : α → Reply) (body : RM (Option α)),
      h.run self = RM.reply f (self.guarded body) := by
  cases h with
  | buildCallTransactionParams =>
    refine ⟨_, .call, ?_⟩
    unfold run RbcEvent.buildCallTransactionParams
    cases self.cls <;> exact ⟨_, rfl⟩
  | buildTransactionParams =>
    refine ⟨_, .send, ?_⟩
    unfold run RbcEvent.buildTransactionParams
    cases self.cls <;> exact ⟨_, rfl⟩
  | handleCallResult result =>
    refine ⟨_, .event, ?_⟩
    unfold run RbcEvent.handleCallResult
    cases self.cls <;> exact ⟨_, rfl⟩
  | handleTxResultSuccess =>
    refine ⟨_, .event, ?_⟩
    unfold run RbcEvent.handleTxResultSuccess
    cases self.cls <;> exact ⟨_, rfl⟩
  | handleTxResultFail =>
    refine ⟨_, .event, ?_⟩
    unfold run RbcEvent.handleTxResultFail
    cases self.cls <;> exact ⟨_, rfl⟩
  | handleTxResultNoReceipt => exact ⟨_, .event, _, rfl⟩

end Handler

/-! ## Handlers and the cache -/

namespace KeepsCache

variable {α : Type} {self : RbcEvent}

theorem pure (a : α) : KeepsCache (Pure.pure a : RM α) := fun _ _ => .pure a

theorem emit (o : Effect) : KeepsCache (Proc.emit o : RM Unit) := fun _ _ => .emit o

theorem ofOption (e : Exn) (o : Option α) : KeepsCache (Proc.ofOption e o : RM α) :=
  fun _ _ => .ofOption e o

theorem guarded {body : RM (Option α)} (h : KeepsCache body) : KeepsCache (self.guarded body) :=
  .bind RbcEvent.quiet_checkMyEvent.cache fun _ => .ite h (.pure _)

end KeepsCache

namespace RbcEvent

variable {self : RbcEvent}

theorem quiet_construct (cls : EventClass) (ref : Ref) (t : Nat) :
    Quiet (construct cls ref t) := by
  refine .bind (quiet_detectedEvent ref) fun _ => ?_
  split
  · exact .pure _
  · exact .throw _

theorem quiet_init (ref : Ref) (t : Nat) : Quiet (init ref t) := by
  refine .bind .getConfig fun _ => .bind ?_ fun _ => .bind (.ofOption ..) fun _ => ?_
  · exact .bind (quiet_detectedEvent ref) fun _ => .ofOption ..
  · refine .ite (quiet_construct ..) (.ite ?_ (quiet_construct ..))
    exact .bind (.ofOption ..) fun _ => .bind (quiet_construct ..) fun _ =>
      .bind (.bind quiet_reqId fun _ => .pure _) fun _ => .pure _

theorem keepsCache_clone (t : ChainEventStatus) (timeLock : Nat) :
    KeepsCache (self.cloneWithOtherStatus t (some timeLock)) :=
  .bind (.pure _) fun _ => .bind (.modify fun _ => rfl) fun _ => (quiet_init ..).cache

theorem keepsCache_handleTxResultFail : KeepsCache self.handleTxResultFail := by
  unfold handleTxResultFail
  split
  · exact .guarded (.bind (keepsCache_clone _ _) fun _ => .pure _)
  · refine .guarded (.bind quiet_isInbound.cache fun _ => .ite ?_ ?_)
    · exact .bind quiet_summary.cache fun _ => .pure _
    · exact .bind (keepsCache_clone _ _) fun _ => .pure _
  · exact quiet_baseFail.cache

theorem keepsCache_handleTxResultNoReceipt : KeepsCache self.handleTxResultNoReceipt :=
  .guarded (.bind quiet_summary.cache fun _ => keepsCache_handleTxResultFail)

theorem quiet_checkAlreadyDone (info : RequestInfo) :
    Quiet (AggregatedRelayEvent.checkAlreadyDone self info) :=
  .bind (.ofOption ..) fun _ => .bind quiet_isInbound fun _ => .pure _

theorem keepsCache_handleCallResult (info : RequestInfo) :
    KeepsCache (self.handleCallResult info) := by
  have hrelay : KeepsCache (AggregatedRelayEvent.handleCallResult self info) := by
    refine .guarded (.bind (quiet_checkAlreadyDone info).cache fun _ => .ite (.pure _) ?_)
    refine .bind (.bind quiet_targetChain.cache fun _ => .pure _) fun _ => ?_
    exact .bind Quiet.timestampMsec.cache fun _ => .pure _
  unfold handleCallResult
  cases hcls : self.cls with
  | requested =>
    have hfail : ChainRequestedEvent.handleTxResultFail self = self.handleTxResultFail := by
      simp only [handleTxResultFail, hcls]
    refine .guarded (.bind quiet_rnd.cache fun _ => .bind (Quiet.fetchQuorum ..).cache fun _ => ?_)
    refine .ite (.pure _) (.ite (.pure _) ?_)
    rw [hfail]
    exact keepsCache_handleTxResultFail
  | accepted => exact hrelay
  | rejected => exact hrelay
  | _ => exact .guarded (.bind quiet_summary.cache fun _ => .pure _)

theorem keepsCache_buildTransactionParams : KeepsCache self.buildTransactionParams := by
  cases hagg : self.cls.isAggregated with
  | false => exact (quiet_buildTransactionParams hagg).cache
  | true =>
    have hrelay : KeepsCache (AggregatedRelayEvent.buildTransactionParams self) := by
      have hcall : Quiet (AggregatedRelayEvent.buildCallTransactionParams self) :=
        quiet_guarded (quiet_getRequestCall quiet_targetChain)
      refine .guarded (.bind hcall.cache fun _ => .bind (.ofOption _ _) fun _ => ?_)
      refine .bind (.bind (Quiet.worldCall ..).cache fun _ => .bind (.emit _) fun _ => .pure _)
        fun _ => .bind (quiet_checkAlreadyDone _).cache fun _ => .ite (.pure _) ?_
      refine .bind quiet_isPrimaryRelayer.cache fun _ => .ite ?_ ?_
      · exact .bind quiet_targetChain.cache fun _ => (quiet_aggregatedRelay _).cache
      · exact .bind Quiet.getConfig.cache fun _ => .bind (.emit _) fun _ => .pure _
    unfold buildTransactionParams
    cases hcls : self.cls with
    | accepted => exact hrelay
    | rejected => exact hrelay
    | _ => rw [hcls] at hagg; cases hagg

end RbcEvent

/-- The relayer's own indices are all that a handler stores. -/
theorem Handler.keepsCache_run (self : RbcEvent) (h : Handler) : KeepsCache (h.run self) := by
  have hreply : ∀ {α : Type} {f : α → Reply} {x : RM (Option α)}, KeepsCache x →
      KeepsCache (RM.reply f x) := fun hx => .bind hx fun _ => .pure _
  cases h with
  | buildCallTransactionParams => exact hreply RbcEvent.quiet_buildCallTransactionParams.cache
  | buildTransactionParams => exact hreply RbcEvent.keepsCache_buildTransactionParams
  | handleCallResult result => exact hreply (RbcEvent.keepsCache_handleCallResult result)
  | handleTxResultSuccess => exact hreply RbcEvent.quiet_handleTxResultSuccess.cache
  | handleTxResultFail => exact hreply RbcEvent.keepsCache_handleTxResultFail
  | handleTxResultNoReceipt => exact hreply RbcEvent.keepsCache_handleTxResultNoReceipt

end Bifrost
