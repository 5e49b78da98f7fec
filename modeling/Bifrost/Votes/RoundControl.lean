import Bifrost.Events.RoundUp
import Bifrost.Periodic.VspSpec

/-!
# Votes on a validator set and their relay

A validator set is encoded in three places: the feed sorts the lower-cased
answer of the chain, the relay the strings of the RoundUp log, and the event
itself the addresses of the log as objects. The order of fixed-width hex strings
is the order of the bytes, so all three encode the sorted addresses
(`encodeRound_sortedLower`, `encodeRound_validatorList`, `dataToSig_eq`).
-/

namespace Bifrost

open Bifrost.Lib SubmitWithSig

/-! ## One list in three forms -/

section Lists

variable {addrs : List Address}

theorem encodeRound_sortedLower (round : Nat) {answer : List Str}
    (h : (answer.map lower).Perm (addrs.map Address.hex)) :
    encodeRound round (sortedLower answer) = encodeRoundObjs round (sorted addrs) := by
  rw [sortedLower_eq h, encodeRound_hex]

variable {reported : List Address} {e : RoundUpEvent}

theorem validatorList_eq (hlist : e.validatorList = reported.map Address.hex)
    (hperm : reported.Perm addrs) :
    AggregatedRoundUpSubmit.validatorList e = (sorted addrs).map Address.hex := by
  rw [AggregatedRoundUpSubmit.validatorList, hlist, sorted_hex, sorted_eq_iff.mpr hperm]

theorem encodeRound_validatorList (hlist : e.validatorList = reported.map Address.hex)
    (hperm : reported.Perm addrs) :
    encodeRound e.round (AggregatedRoundUpSubmit.validatorList e) =
      encodeRoundObjs e.round (sorted addrs) := by
  rw [validatorList_eq hlist hperm, encodeRound_hex]

theorem dataToSig_eq (hlist : e.validatorList = reported.map Address.hex)
    (hperm : reported.Perm addrs) : e.dataToSig = encodeRoundObjs e.round (sorted addrs) := by
  rw [RoundUpEvent.dataToSig, RoundUpEvent.sortedValidatorList, hlist, mapM_ofHex?_hex,
    Option.map_some, Option.bind_some, sorted_eq_iff.mpr hperm]

/-- The sorted list of distinct addresses is strictly increasing as numbers. -/
theorem pairwise_num_sorted (h : addrs.Nodup) :
    (sorted addrs).Pairwise fun a b => a.num < b.num := by
  have hhex : (sorted (addrs.map Address.hex)).Pairwise (· < ·) :=
    pairwise_lt_sorted (h.map fun _ _ => Address.hex_inj)
  rw [sorted_hex] at hhex
  exact (List.pairwise_map.mp hhex).imp fun hab => (Address.hex_lt_iff _ _).mp hab

end Lists

/-! ## Votes -/

/-- A voter for `addrs` as the validators of `round`: its process, and the vote that a period of
its feed built. -/
structure RoundVote (lib : EthLib) (round : Nat) (addrs : List Address) where
  env : Env
  before : RState
  after : RState
  out : List Effect
  tx : SendTx
  sig : SingleSig
  env_lib : env.lib = lib
  recovers : lib.Recovers (fun v => v + 27) env.account
  /-- The reads that the vote is made of give the round and its relayers. -/
  latest : (env.view before.now).latestRound .bifrost = round
  selected : (((env.view (VSPFeed.listRead env.cfg before.now)).selectedRelayers .bifrost
    true).map lower).Perm (addrs.map Address.hex)
  run : VSPFeed.buildTransactionParams env before = ⟨.ok (some tx), after, out⟩
  sent : ∃ rnd validators, tx.args = .roundControlPoll rnd validators (.ofSigs [sig])

namespace RoundVote

variable {lib : EthLib} {round : Nat} {addrs : List Address}

def address (v : RoundVote lib round addrs) : Address := v.env.account.address

/-- The voter signs the encoding of the round and the sorted addresses. -/
theorem sig_eq (v : RoundVote lib round addrs) :
    ∃ msg, encodeRoundObjs round (sorted addrs) = some msg ∧
      v.sig = wireSig (fun v => v + 27) v.env.account msg ∧ ∀ b, .signed b ∈ v.out ↔ b = msg := by
  obtain ⟨-, msg, sigs, hmsg, hsigs, htx, hsigned⟩ := VSPFeed.buildTransactionParams_ok v.run
  rw [v.latest, encodeRound_sortedLower round v.selected] at hmsg
  refine ⟨msg, hmsg, ?_, hsigned⟩
  have hwire : sigs = .ofSigs [wireSig (fun v => v + 27) v.env.account msg] := by
    rw [VSPFeed.voteSig, fromSingleSig_wireSig v.recovers] at hsigs
    exact (Option.some.inj hsigs).symm
  obtain ⟨rnd, validators, hsent⟩ := v.sent
  rw [htx, hwire] at hsent
  obtain ⟨-, -, hinj⟩ := SendArgs.roundControlPoll.inj hsent
  exact (List.singleton_inj.mp (SigTuple.ofSigs_inj.mp hinj)).symm

end RoundVote

/-- **One message in three places.** The feed, the relay and the event encode the same bytes;
they are what the voters sign, so the relay carries the canonical batch of their signatures and
the addresses in increasing order. -/
theorem roundControl_agrees {lib : EthLib} {round : Fin (2 ^ 256)} {addrs reported : List Address}
    (hnodup : addrs.Nodup) (hperm : reported.Perm addrs) {e : RoundUpEvent}
    (hround : e.round = round.val) (hlist : e.validatorList = reported.map Address.hex)
    {voters order : List (RoundVote lib round.val addrs)}
    (hv : (voters.map RoundVote.address).Nodup) (ho : ∀ v, v ∈ order ↔ v ∈ voters)
    {env : Env} (hlib : env.lib = lib) (s : RState) :
    ∃ msg, (∀ answer, (answer.map lower).Perm (addrs.map Address.hex) →
        encodeRound round.val (sortedLower answer) = some msg) ∧
      encodeRound e.round (AggregatedRoundUpSubmit.validatorList e) = some msg ∧
      e.dataToSig = some msg ∧ (∀ v ∈ voters, ∀ b, .signed b ∈ v.out ↔ b = msg) ∧
      ∃ (validators : List Address) (sigs : SigTuple), AggregatedRoundUpSubmit.submitTuple e
          (.ofSigs (order.map RoundVote.sig)) env s =
            ⟨.ok (.roundControlRelay round.val (validators.map Address.hex) sigs), s, []⟩ ∧
        validators.Perm addrs ∧ (validators.Pairwise fun a b => a.num < b.num) ∧
        IsCanonical lib msg RoundVote.address RoundVote.sig voters sigs := by
  have hmsg : ∃ msg, encodeRoundObjs round.val (sorted addrs) = some msg :=
    ⟨_, dif_pos round.isLt⟩
  obtain ⟨msg, hmsg⟩ := hmsg
  have hrelay : encodeRound e.round (AggregatedRoundUpSubmit.validatorList e) = some msg := by
    rw [encodeRound_validatorList hlist hperm, hround, hmsg]
  have hsig : ∀ v : RoundVote lib round.val addrs, signer lib msg v.sig = v.address ∧
      ∀ b, .signed b ∈ v.out ↔ b = msg := by
    intro v
    obtain ⟨msg', hmsg', heq, hsigned⟩ := v.sig_eq
    obtain rfl : msg' = msg := Option.some.inj (hmsg'.symm.trans hmsg)
    exact ⟨by rw [heq]; exact signer_wireSig v.recovers, hsigned⟩
  obtain ⟨b, hsort, hcanon⟩ := exists_sortSigs (fun v _ => (hsig v).1) hv ho
  refine ⟨msg, fun answer h => ?_, hrelay, ?_, fun v _ => (hsig v).2, sorted addrs, b.tuple, ?_,
    sorted_perm addrs, pairwise_num_sorted hnodup, hcanon⟩
  · rw [encodeRound_sortedLower _ h, hmsg]
  · rw [dataToSig_eq hlist hperm, hround, hmsg]
  · have hsort' : SubmitWithSig.sortSigs env.lib msg (.ofSigs (order.map RoundVote.sig)) =
        some b := by
      rw [hlib, hsort]
    unfold AggregatedRoundUpSubmit.submitTuple
    rw [hrelay, Proc.ofOption_some, Proc.bind_run, Proc.pure_run, Res.andThen_ok, Res.after_nil,
      Proc.bind_run, sortSigs_run hsort', Res.andThen_ok, Res.after_nil, Proc.pure_run, hround,
      validatorList_eq hlist hperm]

/-! ## Two voters for one set -/

namespace Sample

/-- The two validators of round 6. -/
def validators : List Address := [address 1, address 2]

def feedEnv (b : Byte) : Env :=
  { env fun _ => view (validators.reverse.map Address.hex) .accepted with
    account := voter b, lib := recovering }

def feedTx (b : Byte) : SendTx :=
  ⟨.bifrost, SOCKET_CONTRACT_NAME, ROUND_UP_FUNCTION_NAME, .roundControlPoll 6
    (validators.map Address.hex) (.ofSigs [wireSig (fun v => v + 27) (voter b) []])⟩

/-- The vote that the feed of `voter b` builds, where it does. -/
def roundVote (b : Byte) (h : (VSPFeed.buildTransactionParams (feedEnv b)
    (state outbound.msg)).val.toOption = some (some (feedTx b))) :
    RoundVote recovering 6 validators where
  env := feedEnv b
  before := state outbound.msg
  after := (VSPFeed.buildTransactionParams (feedEnv b) (state outbound.msg)).st
  out := (VSPFeed.buildTransactionParams (feedEnv b) (state outbound.msg)).out
  tx := feedTx b
  sig := wireSig (fun v => v + 27) (voter b) []
  env_lib := rfl
  recovers := recovers_voter b
  latest := rfl
  selected := by
    show ((validators.reverse.map Address.hex).map lower).Perm (validators.map Address.hex)
    decide +kernel
  run := by
    obtain ⟨s, w, hx⟩ := Res.ok_of_toOption h
    rw [hx]
  sent := ⟨_, _, rfl⟩

def roundVote1 : RoundVote recovering 6 validators := roundVote 1 (by decide +kernel)

def roundVote2 : RoundVote recovering 6 validators := roundVote 2 (by decide +kernel)

/-- The log of round 6, which reports the set in another order. -/
def setLog : RoundUpEvent where
  statusData := 10
  round := 6
  validatorList := validators.reverse.map Address.hex
  sigs := ⟨[], [], []⟩
  blockNumber := 7
  timeLock := 0
  mode := .send
  updatingChains := [.ethereum]
  selectedChain := .ethereum
  aggregated := true

end Sample

theorem roundControl_agrees_two : ∃ msg, Sample.setLog.dataToSig = some msg ∧
    ∃ (validators : List Address) (sigs : SigTuple), AggregatedRoundUpSubmit.submitTuple
        Sample.setLog (.ofSigs ([Sample.roundVote2, Sample.roundVote1, Sample.roundVote2].map
          RoundVote.sig)) (Sample.feedEnv 1) (Sample.state Sample.outbound.msg) =
          ⟨.ok (.roundControlRelay 6 (validators.map Address.hex) sigs),
            Sample.state Sample.outbound.msg, []⟩ ∧
      validators.Perm Sample.validators ∧
      IsCanonical Sample.recovering msg RoundVote.address RoundVote.sig
        [Sample.roundVote1, Sample.roundVote2] sigs := by
  have hv : ([Sample.roundVote1, Sample.roundVote2].map RoundVote.address).Nodup := by
    show [Sample.address 1, Sample.address 2].Nodup
    decide +kernel
  have ho : ∀ v, v ∈ [Sample.roundVote2, Sample.roundVote1, Sample.roundVote2] ↔
      v ∈ [Sample.roundVote1, Sample.roundVote2] := by
    intro v
    simp only [List.mem_cons, List.not_mem_nil, or_false]
    tauto
  have hnodup : Sample.validators.Nodup := by decide +kernel
  have hround : Sample.setLog.round = (⟨6, by decide⟩ : Fin (2 ^ 256)).val := rfl
  have hlib : (Sample.feedEnv 1).lib = Sample.recovering := rfl
  obtain ⟨msg, -, -, hdata, -, validators, sigs, hrun, hperm, -, hcanon⟩ :=
    roundControl_agrees hnodup (List.reverse_perm Sample.validators) hround rfl hv ho hlib
      (Sample.state Sample.outbound.msg)
  exact ⟨msg, hdata, validators, sigs, hrun, hperm, hcanon⟩

end Bifrost
