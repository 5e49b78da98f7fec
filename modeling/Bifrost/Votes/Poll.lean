import Bifrost.Events.RbcSpec

/-!
# Votes on a request and their relay

A voter splices the status of the vote into the log it has detected and signs
the result; the relayer of the ACCEPTED or REJECTED event recovers the signers
over the log of that event. Both are the encoding of one message
(`PollVote.signed`), so the batch that is relayed is the canonical one of the
voters, in whatever order and however often their signatures come in.
-/

namespace Bifrost

open Bifrost.Lib SubmitWithSig

namespace RbcEvent

variable {self : RbcEvent} {env : Env} {s s' : RState} {w : List Effect}

/-- The status in the data that a voter signs for the event. -/
def votedStatus? (self : RbcEvent) (net : Network) : Option ChainEventStatus :=
  match self.cls with
  | .requested => if self.srcChain? net = some .bifrost then some .accepted else none
  | .executed => some .accepted
  | .reverted => some .rejected
  | _ => none

/-- The poll with one signature of this relayer over `msg`, the only thing it signs. -/
theorem pollWithSig_ok {msg : Bytes} {p : SendParamTuple}
    (hrec : env.lib.Recovers env.lib.toEthV env.account)
    (h : self.pollWithSig msg env s = ⟨.ok p, s', w⟩) :
    p = some ⟨.bifrost, SOCKET_CONTRACT_NAME, SUBMIT_FUNCTION_NAME,
      .poll (s.heap self.detectedEvent).decoded (.ofSigs [wireSig env.lib.toEthV env.account msg])
        0⟩ ∧ w = [.signed msg] := by
  have hsort : sortSigs env.lib (s.heap self.detectedEvent).data
      (.ofSigs [wireSig env.lib.toEthV env.account msg]) =
        some (.ofSigs [wireSig env.lib.toEthV env.account msg]) := rfl
  unfold pollWithSig at h
  rw [Proc.bind_run, Proc.ask_run, Res.andThen_ok, Res.after_nil, Proc.bind_run, sign_run,
    Res.andThen_ok, addSingleSig_wireSig hrec, Proc.ofOption_some, Proc.bind_run, Proc.pure_run,
    Res.andThen_ok, Res.after_nil, Proc.bind_run, pollSubmit_run hsort, Res.andThen_ok] at h
  cases h
  exact ⟨rfl, rfl⟩

/-- What the builders of the voting classes do behind the check. -/
def voteBody (self : RbcEvent) (t : ChainEventStatus) : RM SendParamTuple := do
  let statusChangedData ← self.dataWithStatus t
  self.pollWithSig statusChangedData

theorem voteBody_ok {t : ChainEventStatus} {p : SendParamTuple}
    (hrec : env.lib.Recovers env.lib.toEthV env.account)
    (h : self.voteBody t env s = ⟨.ok p, s', w⟩) :
    p = some ⟨.bifrost, SOCKET_CONTRACT_NAME, SUBMIT_FUNCTION_NAME,
      .poll (s.heap self.detectedEvent).decoded (.ofSigs [wireSig env.lib.toEthV env.account
        ((s.heap self.detectedEvent).decoded.withStatus t).encode]) 0⟩ ∧
      w = [.signed ((s.heap self.detectedEvent).decoded.withStatus t).encode] := by
  have hdata : self.dataWithStatus t env s =
      ⟨.ok ((s.heap self.detectedEvent).decoded.withStatus t).encode, s, []⟩ := by
    unfold dataWithStatus
    rw [Proc.bind_run, RM.detectedEvent_run, Res.andThen_ok, Proc.pure_run, DetectedEvent.data_eq,
      changeStatusOfData_encode]
    rfl
  rw [voteBody, Proc.bind_run, hdata, Res.andThen_ok, Res.after_nil] at h
  exact pollWithSig_ok hrec h

theorem buildTransactionParamWithSig_eq {t : ChainEventStatus}
    (ht : ChainEventStatus.ofValue? (self.status.value + 2) = some t) :
    self.buildTransactionParamWithSig = self.voteBody t := by
  unfold buildTransactionParamWithSig
  rw [ht]
  rfl

/-- Each class that votes runs the same body behind the check. -/
theorem exists_voteBody {t : ChainEventStatus}
    (ht : self.votedStatus? env.cfg.network = some t) :
    ∃ body, self.buildTransactionParams = self.guarded body ∧
      ∀ s, body env s = self.voteBody t env s := by
  unfold votedStatus? at ht
  unfold buildTransactionParams
  cases hcls : self.cls with
  | requested =>
    refine ⟨_, rfl, fun s => ?_⟩
    rw [hcls] at ht
    dsimp only at ht
    split at ht
    · next hsrc =>
      cases ht
      rw [Proc.bind_run, isInbound_run hsrc, Res.andThen_ok, Res.after_nil]
      rfl
    · cases ht
  | executed =>
    rw [hcls] at ht
    cases ht
    exact ⟨_, rfl, fun s => by
      rw [buildTransactionParamWithSig_eq (t := .accepted) (by rw [status, hcls]; rfl)]⟩
  | reverted =>
    rw [hcls] at ht
    cases ht
    exact ⟨_, rfl, fun s => by
      rw [buildTransactionParamWithSig_eq (t := .rejected) (by rw [status, hcls]; rfl)]⟩
  | _ => rw [hcls] at ht; cases ht

/-- A vote is the poll of the detected message, with a signature of the message in the status
that is voted for. -/
theorem vote_ok {t : ChainEventStatus} {tx : SendTx}
    (hrec : env.lib.Recovers env.lib.toEthV env.account)
    (ht : self.votedStatus? env.cfg.network = some t)
    (h : self.buildTransactionParams env s = ⟨.ok (some tx), s', w⟩) :
    tx.args = .poll (s.heap self.detectedEvent).decoded (.ofSigs [wireSig env.lib.toEthV
        env.account ((s.heap self.detectedEvent).decoded.withStatus t).encode]) 0 ∧
      ∀ b, .signed b ∈ w ↔ b = ((s.heap self.detectedEvent).decoded.withStatus t).encode := by
  obtain ⟨body, heq, hbody⟩ := exists_voteBody ht
  rw [heq] at h
  rcases guarded_ok h with ⟨-, hnone⟩ | ⟨s₁, w₁, w₂, h₁, h₂, rfl⟩
  · cases hnone
  · obtain ⟨hheap, -⟩ := quiet_checkMyEvent.run h₁
    have hcalls : ∀ o ∈ (self.checkMyEvent env s).out, o.IsCall := emits_checkMyEvent env s
    rw [h₁] at hcalls
    rw [hbody] at h₂
    obtain ⟨htx, rfl⟩ := voteBody_ok hrec h₂
    rw [hheap] at htx
    refine ⟨by rw [Option.some.inj htx], fun b => ?_⟩
    rw [hheap, List.mem_append, List.mem_singleton, Effect.signed.injEq]
    exact or_iff_right fun hb => hcalls _ hb

end RbcEvent

/-- A voter of the message `m` in the status `t`: its process and the vote it built. -/
structure PollVote (lib : EthLib) (m : SocketMsg) (t : ChainEventStatus) where
  env : Env
  event : RbcEvent
  before : RState
  after : RState
  out : List Effect
  tx : SendTx
  sig : SingleSig
  env_lib : env.lib = lib
  recovers : lib.Recovers lib.toEthV env.account
  votes : event.votedStatus? env.cfg.network = some t
  /-- The log it has detected carries `m` in the status of the event. -/
  log : (before.heap event.detectedEvent).decoded = m.withStatus event.status
  run : event.buildTransactionParams env before = ⟨.ok (some tx), after, out⟩
  sent : ∃ msg option, tx.args = .poll msg (.ofSigs [sig]) option

namespace PollVote

variable {lib : EthLib} {m : SocketMsg} {t : ChainEventStatus}

def address (v : PollVote lib m t) : Address := v.env.account.address

/-- The voter signs the encoding of `m` in the status it votes for, and sends this signature. -/
theorem sig_eq (v : PollVote lib m t) :
    v.sig = wireSig lib.toEthV v.env.account (m.withStatus t).encode ∧
      ∀ b, .signed b ∈ v.out ↔ b = (m.withStatus t).encode := by
  have hrec : v.env.lib.Recovers v.env.lib.toEthV v.env.account := by
    rw [v.env_lib]
    exact v.recovers
  obtain ⟨hargs, hsigned⟩ := RbcEvent.vote_ok hrec v.votes v.run
  rw [v.log, SocketMsg.withStatus_withStatus] at hargs hsigned
  obtain ⟨msg, option, hsent⟩ := v.sent
  rw [hargs, v.env_lib] at hsent
  refine ⟨?_, hsigned⟩
  obtain ⟨-, hsigs, -⟩ := SendArgs.poll.inj hsent
  exact (List.singleton_inj.mp (SigTuple.ofSigs_inj.mp hsigs)).symm

theorem signer_sig (v : PollVote lib m t) :
    signer lib (m.withStatus t).encode v.sig = v.address := by
  rw [v.sig_eq.1]
  exact signer_wireSig v.recovers

end PollVote

/-- **One batch for all orders.** The voters sign the data of the event that is relayed, and the
relay carries the canonical batch of their signatures. -/
theorem aggregatedRelay_canonical {lib : EthLib} {m : SocketMsg} {t : ChainEventStatus}
    {voters order : List (PollVote lib m t)} (hv : (voters.map PollVote.address).Nodup)
    (ho : ∀ v, v ∈ order ↔ v ∈ voters) {env : Env} {s : RState} {e : RbcEvent} {rid : RequestId}
    (hlib : env.lib = lib) (ht : e.status = t)
    (hlog : (s.heap e.detectedEvent).decoded = m.withStatus t)
    (hrid : e.requestId? env.cfg.network = some rid)
    (hread : env.read s (fun v => v.getSignatures rid t.value) =
      .ok (.ofSigs (order.map PollVote.sig))) (target : ChainEnum) :
    (∀ v ∈ voters, ∀ b, .signed b ∈ v.out ↔ b = (s.heap e.detectedEvent).data) ∧
    ∃ sigs, (AggregatedRelayEvent.aggregatedRelay e target env s).val =
        .ok (some ⟨target, SOCKET_CONTRACT_NAME, SUBMIT_FUNCTION_NAME,
          .poll (m.withStatus t) sigs 0⟩) ∧
      IsCanonical lib (s.heap e.detectedEvent).data PollVote.address PollVote.sig voters sigs := by
  have hdata : (s.heap e.detectedEvent).data = (m.withStatus t).encode := by
    rw [DetectedEvent.data_eq, hlog]
  rw [hdata]
  refine ⟨fun v _ => v.sig_eq.2, ?_⟩
  obtain ⟨b, hsort, hcanon⟩ := exists_sortSigs (fun v _ => v.signer_sig) hv ho
  refine ⟨b.tuple, ?_, hcanon⟩
  have hsort' : sortSigs env.lib (s.tick.heap e.detectedEvent).data
      (.ofSigs (order.map PollVote.sig)) = some b := by
    rw [hlib, RState.tick_heap, hdata, hsort]
  unfold AggregatedRelayEvent.aggregatedRelay
  rw [Proc.bind_run, RbcEvent.requestId_of hrid, Res.andThen_ok, Res.after_nil, Proc.bind_run,
    fetchSocketRbcSigs_run, ht, hread, Res.andThen_ok, SocketSignature.addTupleSigs_ofSigs,
    Proc.ofOption_some, Proc.bind_run, Proc.pure_run, Res.andThen_ok, Res.after_nil,
    Proc.bind_run, pollSubmit_run hsort', Res.andThen_ok, RState.tick_heap, hlog]
  rfl

/-! ## Two voters of one request -/

namespace Sample

def voterEnv (b : Byte) : Env :=
  { env fun _ => view [(address b).hex] .requested with account := voter b, lib := recovering }

def request : RbcEvent := event .requested .bifrost .ethereum

def pollTx (b : Byte) : SendTx :=
  ⟨.bifrost, SOCKET_CONTRACT_NAME, SUBMIT_FUNCTION_NAME, .poll request.msg
    (.ofSigs [wireSig recovering.toEthV (voter b) (request.msg.withStatus .accepted).encode]) 0⟩

/-- The vote that `voter b` builds, where it does. -/
def pollVote (b : Byte) (h : (request.buildTransactionParams (voterEnv b)
    (state request.msg)).val.toOption = some (some (pollTx b))) :
    PollVote recovering request.msg .accepted where
  env := voterEnv b
  event := request
  before := state request.msg
  after := (request.buildTransactionParams (voterEnv b) (state request.msg)).st
  out := (request.buildTransactionParams (voterEnv b) (state request.msg)).out
  tx := pollTx b
  sig := wireSig recovering.toEthV (voter b) (request.msg.withStatus .accepted).encode
  env_lib := rfl
  recovers := recovers_voter b
  votes := by
    show request.votedStatus? .mainnet = some .accepted
    decide +kernel
  log := DetectedEvent.decoded_ofMsg _ _
  run := by
    obtain ⟨s, w, hx⟩ := Res.ok_of_toOption h
    rw [hx]
  sent := ⟨_, _, rfl⟩

def vote1 : PollVote recovering request.msg .accepted := pollVote 1 (by decide +kernel)

def vote2 : PollVote recovering request.msg .accepted := pollVote 2 (by decide +kernel)

/-- `get_signatures` answers with the second voter's signature, twice, and the first voter's. -/
def relayEnv : Env :=
  { env fun _ => { view [(address 1).hex] .accepted with
      getSignatures := fun _ _ => .ofSigs ([vote2, vote1, vote2].map PollVote.sig) } with
    lib := recovering }

end Sample

theorem aggregatedRelay_canonical_two : ∃ sigs,
    (AggregatedRelayEvent.aggregatedRelay Sample.outbound .ethereum Sample.relayEnv
      (Sample.state Sample.outbound.msg)).val = .ok (some ⟨.ethereum, SOCKET_CONTRACT_NAME,
        SUBMIT_FUNCTION_NAME, .poll (Sample.request.msg.withStatus .accepted) sigs 0⟩) ∧
    IsCanonical Sample.recovering
      ((Sample.state Sample.outbound.msg).heap Sample.outbound.detectedEvent).data
      PollVote.address PollVote.sig [Sample.vote1, Sample.vote2] sigs := by
  have hv : ([Sample.vote1, Sample.vote2].map PollVote.address).Nodup := by
    show [Sample.address 1, Sample.address 2].Nodup
    decide +kernel
  have ho : ∀ v, v ∈ [Sample.vote2, Sample.vote1, Sample.vote2] ↔
      v ∈ [Sample.vote1, Sample.vote2] := by
    intro v
    simp only [List.mem_cons, List.not_mem_nil, or_false]
    tauto
  have hlog : ((Sample.state Sample.outbound.msg).heap Sample.outbound.detectedEvent).decoded =
      Sample.request.msg.withStatus .accepted := by
    rw [Sample.state, DetectedEvent.decoded_ofMsg]
    rfl
  have hlib : Sample.relayEnv.lib = Sample.recovering := rfl
  have hrid : Sample.outbound.requestId? Sample.relayEnv.cfg.network =
      some ⟨ChainEnum.bifrost.formattedBytes .mainnet, 5, 1⟩ := by decide +kernel
  exact (aggregatedRelay_canonical hv ho hlib rfl hlog hrid rfl .ethereum).2

end Bifrost
