import Bifrost.Lib.Bytes

/-!
# Chains and event statuses

`ChainEventStatus` is the status of a Socket request or of a round-up;
`ChainEnum` names a chain, whose four-byte id depends on the network the
process was started on (`chain_enum` is `MainnetPrimitives` or
`TestnetPrimitives`).
-/

namespace Bifrost

open Bifrost.Lib

inductive ChainEventStatus where
  | none | requested | failed | executed | reverted | accepted | rejected | committed | rollbacked
  | nextAuthorityRelayed | nextAuthorityCommitted
  deriving DecidableEq, Repr

namespace ChainEventStatus

def value : ChainEventStatus → Nat
  | none => 0
  | requested => 1
  | failed => 2
  | executed => 3
  | reverted => 4
  | accepted => 5
  | rejected => 6
  | committed => 7
  | rollbacked => 8
  | nextAuthorityRelayed => 9
  | nextAuthorityCommitted => 10

/-- `ChainEventStatus(n)`: `none` where the call raises `ValueError`. -/
def ofValue? : Nat → Option ChainEventStatus
  | 0 => some none
  | 1 => some requested
  | 2 => some failed
  | 3 => some executed
  | 4 => some reverted
  | 5 => some accepted
  | 6 => some rejected
  | 7 => some committed
  | 8 => some rollbacked
  | 9 => some nextAuthorityRelayed
  | 10 => some nextAuthorityCommitted
  | _ => Option.none

@[simp] theorem ofValue?_value (s : ChainEventStatus) : ofValue? s.value = some s := by
  cases s <;> rfl

theorem value_of_ofValue? {n : Nat} {s : ChainEventStatus} (h : ofValue? n = some s) :
    s.value = n := by
  unfold ofValue? at h
  split at h <;> cases h <;> rfl

theorem value_inj {s t : ChainEventStatus} (h : s.value = t.value) : s = t := by
  have := ofValue?_value s
  rw [h, ofValue?_value] at this
  exact (Option.some.inj this).symm

theorem value_lt (s : ChainEventStatus) : s.value < 2 ^ 8 := by cases s <;> decide

/-- A status indexes the 32 fields of a request's info. -/
theorem value_lt_fields (s : ChainEventStatus) : s.value < 32 := by cases s <;> decide

end ChainEventStatus

inductive Network where
  | mainnet | testnet
  deriving DecidableEq, Repr

inductive ChainEnum where
  | none | bifrost | ethereum | binance | matic | avalanche | base
  deriving DecidableEq, Repr

namespace ChainEnum

def value : Network → ChainEnum → Nat
  | _, none => 0
  | .mainnet, bifrost => 0x0bfc
  | .mainnet, ethereum => 1
  | .mainnet, binance => 56
  | .mainnet, matic => 137
  | .mainnet, avalanche => 43114
  | .mainnet, base => 8453
  | .testnet, bifrost => 0xbfc0
  | .testnet, ethereum => 5
  | .testnet, binance => 97
  | .testnet, matic => 80001
  | .testnet, avalanche => 43113
  | .testnet, base => 84531

def all : List ChainEnum := [none, bifrost, ethereum, binance, matic, avalanche, base]

/-- Bytes of a chain id. -/
def size : Nat := 4

/-- `from_bytes`: `none` where the source raises (wrong length, or no such chain). -/
def fromBytes (net : Network) (b : Bytes) : Option ChainEnum :=
  if b.length ≠ size then Option.none else all.find? fun c => c.value net = ofBE b

def formattedBytes (net : Network) (c : ChainEnum) : BytesN 4 :=
  ⟨toBE size (c.value net), length_toBE _ _⟩

theorem value_lt (net : Network) (c : ChainEnum) : c.value net < 256 ^ size := by
  cases net <;> cases c <;> decide

theorem find?_value (net : Network) (c : ChainEnum) :
    (all.find? fun d => d.value net = c.value net) = some c := by
  cases net <;> cases c <;> decide

@[simp] theorem fromBytes_formattedBytes (net : Network) (c : ChainEnum) :
    fromBytes net (c.formattedBytes net).val = some c := by
  rw [fromBytes, if_neg (by simp [formattedBytes, size])]
  simp only [formattedBytes, ofBE_toBE (value_lt net c), find?_value]

/-- A chain id that is read as `c` is the id of `c`. -/
theorem formattedBytes_of_fromBytes {net : Network} {b : BytesN 4} {c : ChainEnum}
    (h : fromBytes net b.val = some c) : c.formattedBytes net = b := by
  unfold fromBytes at h
  rw [if_neg (by simp [b.property, size])] at h
  have hv : c.value net = ofBE b.val := by simpa using List.find?_some h
  apply Subtype.ext
  simp only [formattedBytes, hv]
  exact toBE_ofBE_of_length b.property

end ChainEnum

end Bifrost
