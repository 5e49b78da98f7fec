import Bifrost.Socket.Message
import Bifrost.Submits.Signature
import Mathlib.Data.Fintype.Pi

/-!
# Event objects

The objects the event bridge queues. A `RbcEvent` refers to its detected log by
a reference, since a clone shares the log of its original and the log is
overwritten in place; its decoded message is what the log held when the object
was made. The constructors of the source reject a log whose status is not the
one of the class, which is the field `status_eq`. An object has at most one
queue entry, so entries carry their objects by value.
-/

namespace Bifrost

open Bifrost.Lib

/-- The subclasses of `RbcEvent` that are instantiated. -/
inductive EventClass where
  | failed | requested | executed | reverted | accepted | rejected | committed | rollbacked
  deriving DecidableEq, Repr

namespace EventClass

/-- The status that the constructor of the class asks for. -/
def status : EventClass → ChainEventStatus
  | failed => .failed
  | requested => .requested
  | executed => .executed
  | reverted => .reverted
  | accepted => .accepted
  | rejected => .rejected
  | committed => .committed
  | rollbacked => .rollbacked

/-- `_AggregatedRelayEvent`. -/
def isAggregated : EventClass → Bool
  | accepted | rejected => true
  | _ => false

end EventClass

/-- `select_child`: `none` for a status without a class. -/
def selectChild : ChainEventStatus → Option EventClass
  | .requested => some .requested
  | .failed => some .failed
  | .executed => some .executed
  | .reverted => some .reverted
  | .accepted => some .accepted
  | .rejected => some .rejected
  | .committed => some .committed
  | .rollbacked => some .rollbacked
  | _ => none

@[simp] theorem selectChild_status (c : EventClass) : selectChild c.status = some c := by
  cases c <;> rfl

/-- The builder the event bridge calls for a queued event. -/
inductive Mode where
  | send | call
  deriving DecidableEq, Repr

/-- A reference to a detected log. -/
abbrev Ref := Nat

structure RbcEvent where
  cls : EventClass
  detectedEvent : Ref
  msg : SocketMsg
  timeLock : Nat
  mode : Mode
  /-- The attribute of the same name; only the aggregated relay events use it. -/
  aggregated : Bool
  status_eq : msg.status.val = cls.status.value
  deriving DecidableEq

namespace RbcEvent

def status (self : RbcEvent) : ChainEventStatus := self.cls.status

def switchToCall (self : RbcEvent) (timeLock : Nat) : RbcEvent :=
  { self with mode := .call, timeLock }

def switchToSend (self : RbcEvent) (timeLock : Nat) : RbcEvent :=
  { self with mode := .send, timeLock }

/-- `chain_enum.from_bytes` of the source chain id. -/
def srcChain? (self : RbcEvent) (net : Network) : Option ChainEnum :=
  ChainEnum.fromBytes net self.msg.chain.val

/-- Both parts of `inst()`; an id or a method that is no member makes the call raise. -/
def inst? (self : RbcEvent) (net : Network) : Option (ChainEnum × RBCMethodV1) :=
  match ChainEnum.fromBytes net self.msg.insChain.val,
    RBCMethodV1.fromBytes self.msg.method.val with
  | some c, some m => some (c, m)
  | _, _ => none

/-- The same event object, up to the attributes the handlers change. -/
def Same (e e' : RbcEvent) : Prop :=
  e'.cls = e.cls ∧ e'.detectedEvent = e.detectedEvent ∧ e'.msg = e.msg

instance (e e' : RbcEvent) : Decidable (e.Same e') := inferInstanceAs (Decidable (_ ∧ _ ∧ _))

theorem Same.refl (e : RbcEvent) : e.Same e := ⟨rfl, rfl, rfl⟩

theorem Same.trans {e e' e'' : RbcEvent} (h : e.Same e') (h' : e'.Same e'') : e.Same e'' :=
  ⟨h'.1.trans h.1, h'.2.1.trans h.2.1, h'.2.2.trans h.2.2⟩

end RbcEvent

structure RoundUpEvent where
  /-- `decoded_data[0]`, the status as the log has it. -/
  statusData : Nat
  round : Nat
  /-- `decoded_data[1][1]`: lower-case hex strings. -/
  validatorList : List Str
  sigs : SigTuple
  blockNumber : Nat
  timeLock : Nat
  mode : Mode
  updatingChains : List ChainEnum
  selectedChain : ChainEnum
  aggregated : Bool
  deriving DecidableEq

inductive Queued where
  | socket (e : RbcEvent)
  | roundUp (e : RoundUpEvent)
  deriving DecidableEq

/-! ## Call and transaction tuples -/

def SOCKET_CONTRACT_NAME : String := "socket"

def SUBMIT_FUNCTION_NAME : String := "poll"

def GET_REQ_INFO_FUNCTION_NAME : String := "get_request"

def ROUND_UP_VOTING_FUNCTION_NAME : String := "round_control_relay"

def ROUND_UP_FUNCTION_NAME : String := "round_control_poll"

/-- `(chain.formatted_bytes(), rnd, seq)`. -/
structure RequestId where
  chain : BytesN 4
  rnd : Nat
  seq : Nat
  deriving DecidableEq

/-- The answer of `get_request`: a status and the votes for each status. -/
structure RequestInfo where
  field : Fin 32 → Fin 256
  deriving DecidableEq

/-- `result[0][0][0]`. -/
def RequestInfo.status (info : RequestInfo) : Nat := (info.field 0).val

inductive SendArgs where
  | poll (msg : SocketMsg) (sigs : SigTuple) (option : Nat)
  | roundControlRelay (round : Nat) (validators : List Str) (sigs : SigTuple)
  | roundControlPoll (round : Nat) (validators : List Str) (sigs : SigTuple)
  deriving DecidableEq

structure SendTx where
  chain : ChainEnum
  contract : String
  method : String
  args : SendArgs
  deriving DecidableEq

structure CallTx where
  chain : ChainEnum
  contract : String
  method : String
  rid : RequestId
  deriving DecidableEq

/-- `none` is `NoneParams`. -/
abbrev SendParamTuple := Option SendTx

/-- `none` is `NoneParams`. -/
abbrev CallParamTuple := Option CallTx

end Bifrost
