import Bifrost.Loop.AuthCache

/-!
# Authority

A stored index is the relayer's own position in the list of the round, or the
`None` of a registration, which the check does not take for an index. So for a
relayer without authority over an event the check is False in every reachable
state (`check_of_unauthorised`), and each handler does no more than read.
-/

namespace Bifrost

open Bifrost.Lib

variable {env : Env} {relayers : Int → List Str} {s s' : RState}

/-- The relayer supports the source chain and is a relayer of the event's round. -/
def Authorised (env : Env) (relayers : Int → List Str) (e : RbcEvent) : Prop :=
  (∃ c ∈ env.cfg.supportedChainList, e.srcChain? env.cfg.network = some c) ∧
    SelectedIn env relayers e.msg.roundId.val

/-- Every stored index is the relayer's own. -/
def IndexSound (env : Env) (relayers : Int → List Str) (s : RState) : Prop :=
  ∀ k i, s.cache k = some (some i) → rank (relayers k) env.account.address = some i

theorem indexSound_run {ls : List Taken} (hst : Stable env relayers)
    (h0 : ∀ k, s.cache k = none) (hrun : AuthRun env s ls s') : IndexSound env relayers s' := by
  let I : Int → Option Nat → Prop := fun k v =>
    ∀ i, v = some i → rank (relayers k) env.account.address = some i
  have hI : Admits env I := by
    intro t k i hi j hj
    rw [hst t k] at hi
    rwa [← hj]
  -- a registration stores the answer of the chain, also when it is `None`
  have hreg : ∀ k, AdmitsRound env I k := by
    intro k t i hi
    rwa [hst t k] at hi
  have hinv := cacheInv_run hI h0 hrun fun _ _ k _ => hreg k
  exact fun k i hk => hinv.2 k _ hk i rfl

namespace RbcEvent

variable {self : RbcEvent}

theorem check_of_unauthorised {b : Bool} {w : List Effect} (hst : Stable env relayers)
    (hrole : env.cfg.isFastRelayer = false) (hs : IndexSound env relayers s)
    (hun : ¬ Authorised env relayers self)
    (h : self.checkMyEvent env s = ⟨.ok b, s', w⟩) : b = false := by
  cases checkMyEvent_ok h with
  | unsupported _ _ _ _ => rfl
  | notSelected _ _ _ _ _ => rfl
  | fast hf =>
    rw [hrole] at hf
    cases hf
  | cached c i _ hc hm hv =>
    -- a cached index is the position of a selected relayer
    refine absurd ⟨⟨c, hm, hc⟩, selectedIn_iff_rank.mpr ?_⟩ hun
    rw [hs _ i hv]
    rfl
  | fetched c i _ hc hm hi =>
    refine absurd ⟨⟨c, hm, hc⟩, selectedIn_iff_rank.mpr ?_⟩ hun
    rw [ownIndex, hst] at hi
    rw [hi]
    rfl

theorem guarded_of_unauthorised {α : Type} (body : RM (Option α)) (hst : Stable env relayers)
    (hrole : env.cfg.isFastRelayer = false) (hs : IndexSound env relayers s)
    (hun : ¬ Authorised env relayers self) :
    (∀ o ∈ (self.guarded body env s).out, o.IsCall) ∧
      ∀ r, (self.guarded body env s).val = .ok r → r = none := by
  have hcalls : ∀ o ∈ (self.checkMyEvent env s).out, o.IsCall := emits_checkMyEvent env s
  unfold guarded
  rw [Proc.bind_run]
  rcases hcheck : self.checkMyEvent env s with ⟨e | b, t, w⟩
  · rw [hcheck] at hcalls
    exact ⟨hcalls, fun r hr => by cases hr⟩
  · rw [hcheck] at hcalls
    obtain rfl := check_of_unauthorised hst hrole hs hun hcheck
    refine ⟨?_, fun r hr => ?_⟩
    · simpa using hcalls
    · exact (Except.ok.inj hr).symm

end RbcEvent

/-- **Only selected relayers act.** Whatever the process has done since its start, a handler of
an event that is not this relayer's only reads, and returns nothing. -/
theorem unauthorised_inert {ls : List Taken} (hrole : env.cfg.isFastRelayer = false)
    (hst : Stable env relayers) (h0 : ∀ k, s.cache k = none) (hrun : AuthRun env s ls s')
    {e : RbcEvent} (hun : ¬ Authorised env relayers e) (h : Handler) :
    (∀ o ∈ (h.run e env s').out, o.IsCall) ∧
      ∀ r, (h.run e env s').val = .ok r → r = none := by
  obtain ⟨α, f, body, heq⟩ := h.exists_guarded e
  obtain ⟨hcalls, hnone⟩ := RbcEvent.guarded_of_unauthorised body hst hrole
    (indexSound_run hst h0 hrun) hun
  rw [heq]
  unfold RM.reply
  rw [Proc.bind_run]
  rcases hg : e.guarded body env s' with ⟨x | r, t, w⟩
  · rw [hg] at hcalls
    exact ⟨hcalls, fun r hr => by cases hr⟩
  · rw [hg] at hcalls hnone
    obtain rfl := hnone r rfl
    refine ⟨?_, fun r hr => ?_⟩
    · simpa using hcalls
    · exact (Except.ok.inj hr).symm

/-- Another relayer was selected in every round, and this one has started and registered. -/
theorem unauthorised_inert_other :
    (∀ o ∈ (Handler.buildTransactionParams.run Sample.outbound
        (Sample.roundEnv [(Sample.address 2).hex])
        (Sample.started [(Sample.address 2).hex])).out, o.IsCall) ∧
      ∀ r, (Handler.buildTransactionParams.run Sample.outbound
        (Sample.roundEnv [(Sample.address 2).hex])
        (Sample.started [(Sample.address 2).hex])).val = .ok r → r = none := by
  refine unauthorised_inert rfl (Sample.stable_roundEnv _) (fun _ => rfl) (Sample.started_run _)
    ?_ _
  rintro ⟨-, hsel⟩
  revert hsel
  show ¬ Sample.account.address.hex ∈ [(Sample.address 2).hex].map lower
  decide +kernel

end Bifrost
