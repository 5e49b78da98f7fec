import Bifrost.Events.RoundUp
import Bifrost.Events.Triples

/-!
# Triples of the RoundUp handlers

A handling of a RoundUp event signs nothing and keeps the logs and the marker of
the feed, whatever it raises; what it sends is the relay of the event's round to
the chain of a clone (`RoundUpEvent.Sends`). `RoundUpCopes env X e` lists what can
go wrong.
-/

namespace Bifrost

open Bifrost.Lib Proc

/-- What can go wrong in a handling of `e`, and the exceptions it gives. -/
structure RoundUpCopes (env : Env) (X : Exn → Prop) (e : RoundUpEvent) : Prop where
  rpc : ∀ t, env.down t = true → X .rpc
  status : ChainEventStatus.ofValue? e.statusData = none → X .valueError
  /-- The constructor removes BIFROST from the supported chains. -/
  supported : .bifrost ∉ env.cfg.supportedChainList → X .valueError
  /-- A relayer that is no address. -/
  address : ∀ t, (sortedLower ((env.view t).previousSelectedRelayers .bifrost (e.round - 1)
    true)).mapM Address.ofHex? = none → X .valueError
  relayers : ∀ t, (env.view t).previousSelectedRelayers .bifrost (e.round - 1) true = [] →
    X .zeroDivision
  batch : ∀ t, SocketSignature.ofTuple ((env.view t).getRoundSignatures e.round) = none →
    X (.exception "Not matched list size")
  encode : encodeRound e.round (sorted e.validatorList) = none → X .valueError
  /-- A RoundUp event has no call to build. -/
  mode : e.mode = .call → X .typeError

theorem RoundUpCopes.any (env : Env) (e : RoundUpEvent) : RoundUpCopes env (fun _ => True) e :=
  ⟨fun _ _ => trivial, fun _ => trivial, fun _ => trivial, fun _ _ => trivial, fun _ _ => trivial,
    fun _ _ => trivial, fun _ => trivial, fun _ => trivial⟩

namespace RoundUpEvent

/-- The relay of the event's round, with the signatures that BIFROST has answered to a read between
`l` and `hi`. -/
inductive Sends (env : Env) (self : RoundUpEvent) (l hi : Nat) : SendTx → Prop where
  | relay (k : Nat) (msg : Bytes) (a b : SocketSignature) : self.selectedChain ≠ .none →
      encodeRound self.round (sorted self.validatorList) = some msg → ReadIn env l hi k →
      SocketSignature.ofTuple ((env.view k).getRoundSignatures self.round) = some a →
      SubmitWithSig.sortSigs env.lib msg a = some b →
      Sends env self l hi ⟨self.selectedChain, SOCKET_CONTRACT_NAME, ROUND_UP_VOTING_FUNCTION_NAME,
        .roundControlRelay self.round (sorted self.validatorList) b.tuple⟩

/-- What a builder returns is sent for the event. -/
def Built (env : Env) (self : RoundUpEvent) (n l : Nat) (p : SendParamTuple) (s : RState) :
    Prop :=
  (∀ tx, p = some tx → Sends env self l s.now tx) ∧ Marked n l s

theorem built_none {env : Env} {self : RoundUpEvent} {n l : Nat} {s : RState}
    (hs : Marked n l s) : Built env self n l none s :=
  ⟨fun _ htx => (Option.some_ne_none _ htx.symm).elim, hs⟩

variable {X : Exn → Prop} {S : Bytes → Prop} {T : SendTx → Prop} {env : Env} {self : RoundUpEvent}
  {I : RState → Prop} {n l : Nat} (hc : RoundUpCopes env X self)

theorem triple_isPreviousRelayer : Triple (issuing X S T) env I self.isPreviousRelayer fun _ => I :=
  .bind triple_getConfig fun _ => .pull fun _ => .ite (fun _ => .pure fun _ hs => hs)
    fun _ => .of_run fun _ hs => ⟨_, _, _, isInCache_run _, hs, List.forall_mem_nil _⟩

include hc

theorem triple_enqueueClones (chains : List ChainEnum) :
    Triple (issuing X S T) env I (self.enqueueClones chains) fun _ => I := by
  induction chains with
  | nil => exact .pure fun _ hs => hs
  | cons c chains ih =>
    refine .bind (.bind (.bind triple_getConfig fun cfg => .pull ?_) fun e =>
      .pure (Q := fun _ => I) fun _ hs => hs) fun e => ?_
    · rintro rfl
      exact .ite (fun h => .throw (hc.supported h)) fun _ => .pure fun _ hs => hs
    · exact .bind (.emit (Q := fun _ => I) trivial fun _ hs => hs) fun _ => ih

theorem triple_submitTuple (sigs : SocketSignature) :
    Triple (issuing X S T) env I (AggregatedRoundUpSubmit.submitTuple self sigs) fun args s =>
      (∃ msg b, encodeRound self.round (sorted self.validatorList) = some msg ∧
        SubmitWithSig.sortSigs env.lib msg sigs = some b ∧
        args = .roundControlRelay self.round (sorted self.validatorList) b.tuple) ∧ I s :=
  .bind (.ofOption (Q := fun msg s => encodeRound self.round (sorted self.validatorList) =
    some msg ∧ I s) hc.encode fun _ _ hmsg hs => ⟨hmsg, hs⟩) fun msg => .pull fun hmsg =>
      .bind (triple_sortSigs msg sigs) fun b => .pure fun _ hs => ⟨⟨msg, b, hmsg, hs.1, rfl⟩, hs.2⟩

variable [Framed I]

theorem triple_isPrimaryRelayer :
    Triple (issuing X S T) env I self.isPrimaryRelayer fun _ => I := by
  refine .bind triple_getConfig fun _ => .pull fun _ => .ite (fun _ => .pure fun _ hs => hs)
    fun _ => .bind (triple_fetchList hc.rpc _ _ _) fun l => .pull ?_
  rintro ⟨t, rfl⟩
  refine .bind (.ofOption (Q := fun l s => (sortedLower ((env.view t).previousSelectedRelayers
    .bifrost (self.round - 1) true)).mapM Address.ofHex? = some l ∧ I s) (hc.address t)
    fun l s hl hs => ⟨hl, hs⟩) fun l => .pull fun hl => ?_
  refine .ite (fun hlen => .throw (hc.relayers t ?_)) fun _ =>
    .bind (triple_getValueByKey _) fun _ => .pure fun _ hs => hs
  rw [List.length_eq_zero_iff.mp hlen] at hl
  have hnil := (length_of_mapM hl).trans (sortedLower_length _)
  exact List.length_eq_zero_iff.mp hnil.symm

theorem triple_relayOrDefer (hchain : self.selectedChain ≠ .none) :
    Triple (issuing X S T) env (Marked n l) self.relayOrDefer (Built env self n l) := by
  refine .bind (triple_isPrimaryRelayer hc) fun _ => .ite (fun _ => ?_) fun _ => ?_
  · refine .bind (triple_answer (I := Marked n) hc.rpc _ _ _) fun sigs => .choose fun k => .pull ?_
    rintro ⟨rfl, hle, hup⟩
    refine .bind (.ofOption (Q := fun a s => SocketSignature.ofTuple
      ((env.view k).getRoundSignatures self.round) = some a ∧ Marked n (k + 1) s)
        (fun h => hc.batch k ?_)
        fun a s h hs => ⟨?_, hs⟩) fun a => .pull fun ha => .bind (triple_submitTuple hc _)
          fun args => .pure fun s hs =>
            ⟨fun tx htx => ?_, hs.2.1, hle.trans ((Nat.le_succ k).trans hs.2.2)⟩
    · rwa [SocketSignature.addTupleSigs, Option.map_eq_none_iff] at h
    · obtain ⟨b, hb, rfl⟩ := Option.map_eq_some_iff.mp h
      rw [SocketSignature.init_mergeSigs]
      exact hb
    · obtain ⟨⟨msg, b, hmsg, hsort, rfl⟩, -, hlt⟩ := hs
      rw [← Option.some.inj htx]
      exact .relay k msg a b hchain hmsg ⟨hle, hlt, hup⟩ ha hsort
  · exact .bind triple_timestampMsec fun _ => .bind triple_getConfig fun _ =>
      .bind (.emit (Q := fun _ => Marked n l) trivial fun _ hs => hs.2)
        fun _ => .pure fun _ => built_none

theorem triple_build :
    Triple (issuing X S T) env (Marked n l) self.buildTransactionParams (Built env self n l) := by
  refine .bind (.ofOption (Q := fun _ => Marked n l) hc.status fun _ _ _ hs => hs) fun _ =>
    .ite (fun _ => .pure fun _ => built_none) fun _ => .bind triple_isPreviousRelayer fun _ => ?_
  refine .ite (fun _ => .pure fun _ => built_none) fun _ => .ite (fun _ => ?_) fun hchain => ?_
  · exact .bind (triple_enqueueClones hc _) fun _ => .pure fun _ => built_none
  · exact .bind (triple_worldCall hc.rpc _ _ _) fun _ => .pull fun _ =>
      .ite (fun _ => .pure fun _ => built_none) fun _ => triple_relayOrDefer hc hchain

end RoundUpEvent

end Bifrost
