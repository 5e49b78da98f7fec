import Bifrost.Submits.Submit

/-!
# What a relayer signs

A relayer signs two kinds of byte strings, with one key and no tag in front: the
data of a `Socket` log with the status it votes for, and the encoding of a round
with its validator list. `Payload` is what such a string says and `encode` the
string. No two payloads share a string (`Payload.encode_injective`), so a
signature binds the whole of the request or the whole of the list, and none
collected for one kind counts for the other.
-/

namespace Bifrost

open Bifrost.Lib Bifrost.Lib.Abi

inductive Payload where
  | request (m : SocketMsg)
  | validators (round : Fin (2 ^ 256)) (list : List Address)

namespace Payload

def encode : Payload → Bytes
  | .request m => m.encode
  | .validators round list => roundCodec.enc (round, list, ())

/-- The words of a round and its list. -/
theorem encode_validators (round : Fin (2 ^ 256)) (list : List Address) :
    (validators round list).encode =
      toBE 32 round.val ++ (toBE 32 64 ++ (toBE 32 list.length ++ list.flatMap address.enc)) := by
  show roundCodec.enc (round, list, ()) = _
  simp [roundCodec, uint256, Codec.head, Codec.tail, Codec.headSize, array]

/-! ## The second word -/

/-- The chain id of the request, padded on the right. -/
theorem secondWord_request (m : SocketMsg) :
    slice (request m).encode 32 64 = m.chain.val ++ zeros 28 := by
  have hlen : (m.chain.val ++ zeros 28).length = 32 := by
    rw [List.length_append, m.chain.property, length_zeros]
  show slice m.encode 32 64 = _
  rw [m.encode_eq, SocketMsg.beforeStatus, List.append_assoc, List.append_assoc]
  exact slice_window (length_toBE 32 32) (by rw [hlen])

/-- The offset of the list, padded on the left. -/
theorem secondWord_validators (round : Fin (2 ^ 256)) (list : List Address) :
    slice (validators round list).encode 32 64 = toBE 32 64 := by
  rw [encode_validators]
  exact slice_window (length_toBE 32 _) (by rw [length_toBE])

theorem request_ne_validators (m : SocketMsg) (round : Fin (2 ^ 256)) (list : List Address) :
    (request m).encode ≠ (validators round list).encode := by
  intro h
  have hword : m.chain.val ++ zeros 28 = toBE 32 64 := by
    rw [← secondWord_request, h, secondWord_validators]
  -- a padded chain id ends in a zero byte, the offset in the byte 64
  have hlast := congrArg List.getLast? hword
  have hz : (zeros 28).getLast? = some 0 := by decide
  have ho : (toBE 32 64).getLast? = some 64 := by decide
  rw [List.getLast?_append, hz, ho, Option.some_or] at hlast
  exact absurd hlast (by decide)

/-! ## Injectivity -/

theorem validators_inj {round round' : Fin (2 ^ 256)} {list list' : List Address}
    (h : (validators round list).encode = (validators round' list').encode) :
    round = round' ∧ list = list' := by
  rw [encode_validators, encode_validators] at h
  have hlt : ∀ r : Fin (2 ^ 256), r.val < 256 ^ 32 := fun r => by rw [word_pow]; exact r.isLt
  obtain ⟨hround, h⟩ := List.append_inj h (by rw [length_toBE, length_toBE])
  obtain ⟨-, h⟩ := List.append_inj h rfl
  obtain ⟨-, h⟩ := List.append_inj h (by rw [length_toBE, length_toBE])
  refine ⟨Fin.ext ?_, flatMap_enc_inj rfl (by decide) (fun _ _ => trivial) (fun _ _ => trivial) h⟩
  rw [← ofBE_toBE (hlt round), hround, ofBE_toBE (hlt round')]

theorem encode_injective : Function.Injective encode := by
  intro p q h
  cases p with
  | request m =>
    cases q with
    | request m' => exact congrArg request (SocketMsg.encode_inj h)
    | validators round list => exact absurd h (request_ne_validators m round list)
  | validators round list =>
    cases q with
    | request m => exact absurd h.symm (request_ne_validators m round list)
    | validators round' list' =>
      obtain ⟨rfl, rfl⟩ := validators_inj h
      rfl

end Payload

/-! ## The strings of the source -/

/-- The data a voter signs is the payload of its message with the status. -/
theorem DetectedEvent.changeStatus_payload (d : DetectedEvent) (s : ChainEventStatus) :
    changeStatusOfData d.data s = (Payload.request (d.decoded.withStatus s)).encode := by
  rw [d.data_eq, changeStatusOfData_encode]
  rfl

/-- What `encodeRound` encodes is the payload of the round and the addresses. -/
theorem encodeRound_payload {round : Nat} {validators : List Str} {b : Bytes} :
    encodeRound round validators = some b ↔
      ∃ (r : Fin (2 ^ 256)) (list : List Address), r.val = round ∧
        validators.mapM Address.ofHex? = some list ∧ b = (Payload.validators r list).encode := by
  unfold encodeRound encodeRoundObjs
  rw [Option.bind_eq_some_iff]
  constructor
  · rintro ⟨list, hlist, h⟩
    split at h
    · next hlt =>
      rw [Option.some_inj] at h
      exact ⟨⟨round, hlt⟩, list, rfl, hlist, h.symm⟩
    · cases h
  · rintro ⟨r, list, hr, hlist, hb⟩
    subst hr
    exact ⟨list, hlist, by rw [dif_pos r.isLt, hb]; rfl⟩

/-- **Binding.** The data of a log with the status of a vote is exactly the payload of its message
in this status, and what the feed encodes exactly the payload of its round and addresses. The
strings of two votes on requests agree exactly when the messages do in every field, status included;
the strings of two votes on validator lists only when the rounds and the addresses in their order
do; and no string is of both kinds. -/
theorem signedBytes_bind (d d' : DetectedEvent) (s s' : ChainEventStatus) :
    changeStatusOfData d.data s = (Payload.request (d.decoded.withStatus s)).encode ∧
      (∀ round validators b, encodeRound round validators = some b ↔
        ∃ (r : Fin (2 ^ 256)) (list : List Address), r.val = round ∧
          validators.mapM Address.ofHex? = some list ∧ b = (Payload.validators r list).encode) ∧
      (changeStatusOfData d.data s = changeStatusOfData d'.data s' ↔
        d.decoded.withStatus s = d'.decoded.withStatus s') ∧
      (∀ round round' validators validators' b, encodeRound round validators = some b →
        encodeRound round' validators' = some b → round = round' ∧
          validators.mapM Address.ofHex? = validators'.mapM Address.ofHex?) ∧
      ∀ round validators, encodeRound round validators ≠ some (changeStatusOfData d.data s) := by
  refine ⟨d.changeStatus_payload s, fun _ _ _ => encodeRound_payload, ?_,
    fun round round' validators validators' b h h' => ?_, fun round validators h => ?_⟩
  · rw [d.changeStatus_payload, d'.changeStatus_payload, Payload.encode_injective.eq_iff,
      Payload.request.injEq]
  · obtain ⟨r, list, hr, hlist, hb⟩ := encodeRound_payload.mp h
    obtain ⟨r', list', hr', hlist', hb'⟩ := encodeRound_payload.mp h'
    rw [hb] at hb'
    obtain ⟨rfl, rfl⟩ := Payload.validators_inj hb'
    exact ⟨hr.symm.trans hr', hlist.trans hlist'.symm⟩
  · obtain ⟨r, list, -, -, hb⟩ := encodeRound_payload.mp h
    rw [d.changeStatus_payload] at hb
    exact Payload.request_ne_validators _ _ _ hb

end Bifrost
