import Bifrost.Relayer.State

/-!
# Submits

The arguments of the transactions. `PollSubmit` decodes the log of its event
and sorts the signatures against the data of that same log;
`AggregatedRoundUpSubmit` sorts them against the encoding of the round and the
sorted validator list (`encodeRound`), which is also what `VSPFeed` signs.
-/

namespace Bifrost

open Bifrost.Lib Bifrost.Lib.Abi

/-! ## The signed validator list -/

/-- `["uint256", "address[]"]`. -/
def roundCodec : Codec (Fin (2 ^ 256) × List Address × Unit) :=
  .tuple <| .cons uint256 <| .cons (array address rfl) .nil

/-- `eth_abi.encode(["uint256", "address[]"], [round, list])` of a list of address objects. -/
def encodeRoundObjs (round : Nat) (validators : List Address) : Option Bytes :=
  if h : round < 2 ^ 256 then some (roundCodec.enc (⟨round, h⟩, validators, ())) else none

/-- The same of a list of hex strings; `none` where the encoder raises. -/
def encodeRound (round : Nat) (validators : List Str) : Option Bytes :=
  (validators.mapM Address.ofHex?).bind (encodeRoundObjs round)

theorem mapM_ofHex?_hex (l : List Address) : (l.map Address.hex).mapM Address.ofHex? = some l :=
  mapM_eq_some_iff.mpr (List.forall₂_map_left_iff.mpr
    (List.forall₂_same.mpr fun a _ => Address.ofHex?_hex a))

/-- The hex strings of addresses encode as the addresses do. -/
theorem encodeRound_hex (round : Nat) (l : List Address) :
    encodeRound round (l.map Address.hex) = encodeRoundObjs round l := by
  rw [encodeRound, mapM_ofHex?_hex, Option.bind_some]

/-! ## Submit tuples -/

namespace RM

/-- `SubmitWithSig._sort_sigs`. -/
def sortSigs (msg : Bytes) (sigs : SocketSignature) : RM SocketSignature := do
  let env ← Proc.ask
  Proc.ofOption (.exception "Not matched list size") (SubmitWithSig.sortSigs env.lib msg sigs)

/-- The event's log, as it is now. -/
def detectedEvent (ref : Ref) : RM DetectedEvent := do
  let s ← Proc.get
  pure (s.heap ref)

@[simp] theorem detectedEvent_run (ref : Ref) (env : Env) (s : RState) :
    detectedEvent ref env s = ⟨.ok (s.heap ref), s, []⟩ := by
  simp [detectedEvent]

end RM

/-- `PollSubmit(event)` with the signatures added so far; the tuple of `submit_tuple`. -/
def PollSubmit.submitTuple (event : RbcEvent) (sigs : SocketSignature) (failOption : Bool) :
    RM SendArgs := do
  let log ← RM.detectedEvent event.detectedEvent
  let sigs ← RM.sortSigs log.data sigs
  pure (.poll log.decoded sigs.tuple (if failOption then 1 else 0))

namespace AggregatedRoundUpSubmit

/-- The validator list, sorted as strings. -/
def validatorList (event : RoundUpEvent) : List Str := sorted event.validatorList

def submitTuple (event : RoundUpEvent) (sigs : SocketSignature) : RM SendArgs := do
  let dataToSig ← Proc.ofOption .valueError (encodeRound event.round (validatorList event))
  let sigs ← RM.sortSigs dataToSig sigs
  pure (.roundControlRelay event.round (validatorList event) sigs.tuple)

end AggregatedRoundUpSubmit

/-! ## Runs -/

section Run

variable {env : Env} {s : RState}

theorem sortSigs_run {msg : Bytes} {a b : SocketSignature}
    (h : SubmitWithSig.sortSigs env.lib msg a = some b) :
    RM.sortSigs msg a env s = ⟨.ok b, s, []⟩ := by
  simp [RM.sortSigs, h]

theorem pollSubmit_run {event : RbcEvent} {a b : SocketSignature} {failOption : Bool}
    (h : SubmitWithSig.sortSigs env.lib (s.heap event.detectedEvent).data a = some b) :
    PollSubmit.submitTuple event a failOption env s =
      ⟨.ok (.poll (s.heap event.detectedEvent).decoded b.tuple (if failOption then 1 else 0)), s,
        []⟩ := by
  simp [PollSubmit.submitTuple, sortSigs_run h]

/-- Whatever the signatures, the message of the poll is the one the log holds. -/
theorem pollSubmit_ok {event : RbcEvent} {a : SocketSignature} {failOption : Bool}
    {args : SendArgs} {s' : RState} {w : List Effect}
    (h : PollSubmit.submitTuple event a failOption env s = ⟨.ok args, s', w⟩) :
    (∃ sigs, args = .poll (s.heap event.detectedEvent).decoded sigs
      (if failOption then 1 else 0)) ∧ s' = s ∧ w = [] := by
  unfold PollSubmit.submitTuple at h
  obtain ⟨log, s₁, w₁, w₂, h₁, h₂, rfl⟩ := Proc.bind_ok h
  rw [RM.detectedEvent_run] at h₁
  cases h₁
  obtain ⟨b, s₂, w₃, w₄, h₃, h₄, rfl⟩ := Proc.bind_ok h₂
  unfold RM.sortSigs at h₃
  rw [Proc.bind_run, Proc.ask_run, Res.andThen_ok, Res.after_nil] at h₃
  obtain ⟨-, rfl, rfl⟩ := Proc.ofOption_ok h₃
  obtain ⟨rfl, rfl, rfl⟩ := Proc.pure_ok h₄
  exact ⟨⟨b.tuple, rfl⟩, rfl, rfl⟩

end Run

end Bifrost
