import Bifrost.Lib.Abi
import Bifrost.Primitives.Chain
import Bifrost.Primitives.Method

/-!
# Socket messages and the log data that carries them

`SocketMsg` is the tuple of the `Socket` event, `encode` its standard ABI event
encoding and `decode` the decoder. The status word of the encoding is bytes
`[128, 160)`: one word for the offset of the message, three for the request id.
`changeStatusOfData` overwrites that window, which is the encoding of the
message with the other status (`changeStatusOfData_encode`).
-/

namespace Bifrost

open Bifrost.Lib Bifrost.Lib.Abi

structure SocketMsg where
  chain : BytesN 4
  roundId : Fin (2 ^ 64)
  sequence : Fin (2 ^ 128)
  status : Fin (2 ^ 8)
  insChain : BytesN 4
  method : BytesN 16
  tokenIDX0 : BytesN 32
  tokenIDX1 : BytesN 32
  refund : BytesN 20
  toAddr : BytesN 20
  amount : Fin (2 ^ 256)
  variants : Bytes
  variants_lt : variants.length < 2 ^ 256
  deriving DecidableEq

namespace SocketMsg

def withStatus (m : SocketMsg) (s : ChainEventStatus) : SocketMsg :=
  { m with status := ⟨s.value, s.value_lt⟩ }

@[simp] theorem withStatus_status (m : SocketMsg) (s : ChainEventStatus) :
    (m.withStatus s).status.val = s.value := rfl

@[simp] theorem withStatus_withStatus (m : SocketMsg) (s t : ChainEventStatus) :
    (m.withStatus s).withStatus t = m.withStatus t := rfl

end SocketMsg

/-! ## The event encoding -/

abbrev RequestIDTuple := BytesN 4 × Fin (2 ^ 64) × Fin (2 ^ 128) × Unit

abbrev InstructionTuple := BytesN 4 × BytesN 16 × Unit

abbrev ParamsTuple :=
  BytesN 32 × BytesN 32 × BytesN 20 × BytesN 20 × Fin (2 ^ 256) × Bytes × Unit

abbrev MsgTuple := (RequestIDTuple × Fin (2 ^ 8) × InstructionTuple × ParamsTuple × Unit) × Unit

def requestIDCodec : Codec RequestIDTuple :=
  .tuple <| .cons (fixedBytes 4 (by decide)) <| .cons (uint 64 (by decide)) <|
    .cons (uint 128 (by decide)) .nil

def instructionCodec : Codec InstructionTuple :=
  .tuple <| .cons (fixedBytes 4 (by decide)) <| .cons (fixedBytes 16 (by decide)) .nil

def paramsCodec : Codec ParamsTuple :=
  .tuple <| .cons (fixedBytes 32 (by decide)) <| .cons (fixedBytes 32 (by decide)) <|
    .cons address <| .cons address <| .cons uint256 <| .cons bytes .nil

def msgCodec : Codec (RequestIDTuple × Fin (2 ^ 8) × InstructionTuple × ParamsTuple × Unit) :=
  .tuple <| .cons requestIDCodec <| .cons (uint 8 (by decide)) <| .cons instructionCodec <|
    .cons paramsCodec .nil

section Codecs

@[simp] theorem requestIDCodec_isDynamic : requestIDCodec.isDynamic = false := rfl

@[simp] theorem requestIDCodec_size : requestIDCodec.size = 96 := rfl

theorem requestIDCodec_enc (a : RequestIDTuple) : requestIDCodec.enc a =
    a.1.val ++ zeros 28 ++ (toBE 32 a.2.1.val ++ toBE 32 a.2.2.1.val) := by
  simp [requestIDCodec, Codec.head, Codec.tail]

@[simp] theorem requestIDCodec_ok (a : RequestIDTuple) : requestIDCodec.ok a := by
  simp [requestIDCodec]

@[simp] theorem instructionCodec_isDynamic : instructionCodec.isDynamic = false := rfl

@[simp] theorem instructionCodec_size : instructionCodec.size = 64 := rfl

theorem instructionCodec_enc (a : InstructionTuple) : instructionCodec.enc a =
    a.1.val ++ zeros 28 ++ (a.2.1.val ++ zeros 16) := by
  simp [instructionCodec, Codec.head, Codec.tail]

@[simp] theorem instructionCodec_ok (a : InstructionTuple) : instructionCodec.ok a := by
  simp [instructionCodec]

@[simp] theorem paramsCodec_isDynamic : paramsCodec.isDynamic = true := rfl

@[simp] theorem paramsCodec_ok (a : ParamsTuple) :
    paramsCodec.ok a ↔ a.2.2.2.2.2.1.length < 2 ^ 256 := by
  simp [paramsCodec, Codec.headSize, Codec.tail]

@[simp] theorem msgCodec_isDynamic : msgCodec.isDynamic = true := rfl

variable (a : RequestIDTuple × Fin (2 ^ 8) × InstructionTuple × ParamsTuple × Unit)

@[simp] theorem msgCodec_ok : msgCodec.ok a ↔ a.2.2.2.1.2.2.2.2.2.1.length < 2 ^ 256 := by
  simp [msgCodec, Codec.headSize, Codec.tail]

/-- The words of a message, and its parameters seven words behind its start. -/
theorem msgCodec_enc : msgCodec.enc a = requestIDCodec.enc a.1 ++ (toBE 32 a.2.1.val ++
    (instructionCodec.enc a.2.2.1 ++ (toBE 32 224 ++ paramsCodec.enc a.2.2.2.1))) := by
  simp [msgCodec, Codec.head, Codec.tail, Codec.headSize]

end Codecs

def SocketMsg.toTuple (m : SocketMsg) : MsgTuple :=
  (((m.chain, m.roundId, m.sequence, ()), m.status, (m.insChain, m.method, ()),
    (m.tokenIDX0, m.tokenIDX1, m.refund, m.toAddr, m.amount, m.variants, ()), ()), ())

def SocketMsg.ofTuple : MsgTuple → Option SocketMsg
  | (((c, r, q, _), s, (ic, me, _), (t0, t1, rf, ta, am, v, _), _), _) =>
    if h : v.length < 2 ^ 256 then some ⟨c, r, q, s, ic, me, t0, t1, rf, ta, am, v, h⟩ else none

/-- The data of a `Socket` log: the one-component tuple of the message. -/
def socketCodec : Codec SocketMsg :=
  (Codec.tuple (.cons msgCodec .nil)).map SocketMsg.ofTuple SocketMsg.toTuple fun m => by
    simp only [SocketMsg.toTuple, SocketMsg.ofTuple, m.variants_lt, ↓reduceDIte]

namespace SocketMsg

def encode (m : SocketMsg) : Bytes := socketCodec.enc m

def decode (d : Bytes) : Option SocketMsg := socketCodec.dec d

theorem encodable (m : SocketMsg) : socketCodec.ok m := by
  have hv := m.variants_lt
  show (Codec.tuple (.cons msgCodec .nil)).ok m.toTuple
  simpa [Codec.headSize, toTuple] using hv

@[simp] theorem decode_encode (m : SocketMsg) : decode m.encode = some m := by
  have := socketCodec.dec_enc m [] m.encodable
  rwa [List.append_nil] at this

theorem encode_inj {m m' : SocketMsg} (h : m.encode = m'.encode) : m = m' := by
  have := decode_encode m
  rw [h, decode_encode] at this
  exact (Option.some.inj this).symm

/-- The words before the status: the offset of the message and the request id. -/
def beforeStatus (m : SocketMsg) : Bytes :=
  toBE 32 32 ++ (m.chain.val ++ zeros 28 ++ (toBE 32 m.roundId.val ++ toBE 32 m.sequence.val))

/-- The words after the status: the instruction, the offset of the parameters (seven words
into the message) and the parameters. -/
def afterStatus (m : SocketMsg) : Bytes :=
  m.insChain.val ++ zeros 28 ++ (m.method.val ++ zeros 16) ++ (toBE 32 224 ++
    paramsCodec.enc (m.tokenIDX0, m.tokenIDX1, m.refund, m.toAddr, m.amount, m.variants, ()))

theorem length_beforeStatus (m : SocketMsg) : m.beforeStatus.length = 128 := by
  simp [beforeStatus, m.chain.property]

theorem encode_eq (m : SocketMsg) :
    m.encode = m.beforeStatus ++ (toBE 32 m.status.val ++ m.afterStatus) := by
  have h : m.encode = toBE 32 32 ++ msgCodec.enc m.toTuple.1 := by
    show (Codec.tuple (.cons msgCodec .nil)).enc m.toTuple = _
    simp [Codec.head, Codec.tail, Codec.headSize]
  rw [h, msgCodec_enc, requestIDCodec_enc, instructionCodec_enc]
  simp only [beforeStatus, afterStatus, toTuple, List.append_assoc]

@[simp] theorem beforeStatus_withStatus (m : SocketMsg) (s : ChainEventStatus) :
    (m.withStatus s).beforeStatus = m.beforeStatus := rfl

@[simp] theorem afterStatus_withStatus (m : SocketMsg) (s : ChainEventStatus) :
    (m.withStatus s).afterStatus = m.afterStatus := rfl

end SocketMsg

/-! ## The status window -/

def statusStartIndex : Nat := 128

def statusEndIndex : Nat := 160

/-- `EthHashBytes(n)`: the 32-byte big-endian word of `n`. -/
def ethHashBytes (n : Nat) : BytesN 32 := ⟨toBE 32 n, length_toBE 32 n⟩

/-- The status that `init` reads from the data of a log, as a number. -/
def statusData (data : Bytes) : Nat := ofBE (slice data statusStartIndex statusEndIndex)

def changeStatusOfData (data : Bytes) (s : ChainEventStatus) : Bytes :=
  splice data statusStartIndex statusEndIndex (ethHashBytes s.value).val

/-- The status word starts behind the words before it and ends 32 bytes later. -/
theorem statusWindow (m : SocketMsg) : m.beforeStatus.length = statusStartIndex ∧
    statusStartIndex + (toBE 32 m.status.val).length = statusEndIndex :=
  ⟨m.length_beforeStatus, by rw [length_toBE]; rfl⟩

theorem statusData_encode (m : SocketMsg) : statusData m.encode = m.status.val := by
  have hlt : m.status.val < 256 ^ 32 := lt_trans m.status.isLt (by decide)
  obtain ⟨hi, hj⟩ := statusWindow m
  rw [statusData, m.encode_eq, slice_window hi hj, ofBE_toBE hlt]

theorem changeStatusOfData_encode (m : SocketMsg) (s : ChainEventStatus) :
    changeStatusOfData m.encode s = (m.withStatus s).encode := by
  obtain ⟨hi, hj⟩ := statusWindow m
  rw [changeStatusOfData, m.encode_eq, splice_window _ hi hj, (m.withStatus s).encode_eq,
    SocketMsg.beforeStatus_withStatus, SocketMsg.afterStatus_withStatus]
  rfl

theorem length_changeStatusOfData_encode (m : SocketMsg) (s : ChainEventStatus) :
    (changeStatusOfData m.encode s).length = m.encode.length := by
  rw [changeStatusOfData_encode, SocketMsg.encode_eq, SocketMsg.encode_eq]
  simp

/-- The window that the class of an event is read from agrees with the decoder, and
overwriting it is encoding the message with the other status. -/
theorem statusWindow_agrees (m : SocketMsg) :
    SocketMsg.decode m.encode = some m ∧ statusData m.encode = m.status.val ∧
      ∀ s, changeStatusOfData m.encode s = (m.withStatus s).encode ∧
        (changeStatusOfData m.encode s).length = m.encode.length ∧
        SocketMsg.decode (changeStatusOfData m.encode s) = some (m.withStatus s) ∧
        ∀ t, changeStatusOfData (changeStatusOfData m.encode s) t =
          changeStatusOfData m.encode t := by
  refine ⟨m.decode_encode, statusData_encode m, fun s => ?_⟩
  have hs := changeStatusOfData_encode m s
  refine ⟨hs, length_changeStatusOfData_encode m s, ?_, fun t => ?_⟩
  · rw [hs, SocketMsg.decode_encode]
  · rw [hs, changeStatusOfData_encode, changeStatusOfData_encode, SocketMsg.withStatus_withStatus]

/-! ## Detected logs -/

/-- A detected `Socket` log. Its data is the encoding of a message: the contract emits
nothing else. -/
structure DetectedEvent where
  data : Bytes
  blockNumber : Nat
  isLog : ∃ m : SocketMsg, data = m.encode

namespace DetectedEvent

def ofMsg (m : SocketMsg) (blockNumber : Nat) : DetectedEvent := ⟨m.encode, blockNumber, m, rfl⟩

theorem decodes (d : DetectedEvent) : (SocketMsg.decode d.data).isSome := by
  obtain ⟨m, hm⟩ := d.isLog
  rw [hm, SocketMsg.decode_encode]
  rfl

/-- `decode_event(detected_event)[0]`. -/
def decoded (d : DetectedEvent) : SocketMsg := (SocketMsg.decode d.data).get d.decodes

theorem data_eq (d : DetectedEvent) : d.data = d.decoded.encode := by
  obtain ⟨m, hm⟩ := d.isLog
  have : d.decoded = m := by simp [decoded, hm]
  rw [hm, this]

@[simp] theorem decoded_ofMsg (m : SocketMsg) (n : Nat) : (ofMsg m n).decoded = m := by
  simp [decoded, ofMsg]

/-- The log after `detected_event.data = change_status_of_data(detected_event, s)`. -/
def setStatus (d : DetectedEvent) (s : ChainEventStatus) : DetectedEvent where
  data := changeStatusOfData d.data s
  blockNumber := d.blockNumber
  isLog := ⟨d.decoded.withStatus s, by rw [d.data_eq, changeStatusOfData_encode]⟩

@[simp] theorem decoded_setStatus (d : DetectedEvent) (s : ChainEventStatus) :
    (d.setStatus s).decoded = d.decoded.withStatus s := by
  apply SocketMsg.encode_inj
  rw [← data_eq, setStatus]
  simp only
  rw [d.data_eq, changeStatusOfData_encode]

/-- Overwriting the status keeps the rest of the data. -/
theorem sameOutside_setStatus (d : DetectedEvent) (s : ChainEventStatus) :
    SameOutside statusStartIndex statusEndIndex d.data (d.setStatus s).data := by
  refine .splice (by rw [(ethHashBytes s.value).property]; rfl) ?_
  rw [d.data_eq, SocketMsg.encode_eq, List.length_append, SocketMsg.length_beforeStatus,
    List.length_append, length_toBE]
  simp only [statusEndIndex]
  omega

theorem statusData_eq (d : DetectedEvent) : statusData d.data = d.decoded.status.val := by
  rw [d.data_eq, statusData_encode]

end DetectedEvent

end Bifrost
