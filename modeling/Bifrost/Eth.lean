import Bifrost.Lib.Hex
import Mathlib.Data.Nat.Log

/-!
# Addresses, accounts and signatures

The parts of chainpy's `ethtype` the relayer rests on. Addresses are twenty
bytes with a fixed-width lower-case hex form. Signing and recovery are not part
of the repository: an `Account` carries its signing function, `EthLib` the
recovery and the conversion of the recovery id; what is known of them is stated
where it is used (`Recovers`).
-/

namespace Bifrost

open Bifrost.Lib

/-- `EthAddress`: compared as its twenty bytes. -/
abbrev Address := BytesN 20

namespace Address

def hex (a : Address) : Str := hexOf a.val

theorem hex_inj {a b : Address} (h : a.hex = b.hex) : a = b := Subtype.ext (hexOf_inj h)

@[simp] theorem lower_hex (a : Address) : lower a.hex = a.hex := lower_hexOf a.val

/-- The address as a number. -/
def num (a : Address) : Nat := ofBE a.val

/-- The order of the hex strings is the order of the numbers. -/
theorem hex_lt_iff (a b : Address) : a.hex < b.hex ↔ a.num < b.num := by
  rw [hex, hex, hexOf_lt_iff, num, num, ofBE_lt_iff (a.property.trans b.property.symm)]

theorem hex_le_iff (a b : Address) : a.hex ≤ b.hex ↔ a ≤ b := hexOf_le_iff a.val b.val

/-- The address of a `0x`-prefixed lower-case hex string. -/
def ofHex? (s : Str) : Option Address :=
  (Lib.ofHex? s).bind fun b => if h : b.length = 20 then some ⟨b, h⟩ else none

@[simp] theorem ofHex?_hex (a : Address) : ofHex? a.hex = some a := by
  simp only [ofHex?, hex, Lib.ofHex?_hexOf, Option.bind_some, a.property, ↓reduceDIte]

end Address

/-- A recoverable ECDSA signature; `v` is the recovery id. -/
structure Sig where
  r : Fin (2 ^ 256)
  s : Fin (2 ^ 256)
  v : Nat
  deriving DecidableEq

structure Account where
  address : Address
  /-- `ecdsa_recoverable_sign`. -/
  sign : Bytes → Sig

structure EthLib where
  /-- `EthAccount.ecdsa_recover_address(r, s, v, msg)`. -/
  recover : Nat → Nat → Nat → Bytes → Address
  toEthV : Nat → Nat

/-- The signatures of `a`, sent with the recovery id `v`, recover to `a`'s address. -/
def EthLib.Recovers (lib : EthLib) (v : Nat → Nat) (a : Account) : Prop :=
  ∀ msg, lib.recover (a.sign msg).r (a.sign msg).s (v (a.sign msg).v) msg = a.address ∧
    v (a.sign msg).v < 256

/-- `EthHexBytes(n)` of an integer: its shortest big-endian form, one byte at least. -/
def ethHexBytes (n : Nat) : Bytes := toBE (Nat.log2 n / 8 + 1) n

theorem ethHexBytes_byte {n : Nat} (h : n < 256) : ethHexBytes n = [⟨n, h⟩] := by
  have hlog : Nat.log2 n / 8 = 0 := by
    have : Nat.log2 n < 8 := by
      rcases Nat.eq_zero_or_pos n with rfl | hn
      · decide
      · exact (Nat.log2_lt (by omega)).mpr h
    omega
  simp only [ethHexBytes, hlog, toBE, List.nil_append, byteOf_of_lt h]

/-- Only an integer below 256 makes a single byte. -/
theorem lt_of_length_ethHexBytes {n : Nat} (h : (ethHexBytes n).length = 1) : n < 256 := by
  rw [ethHexBytes, length_toBE] at h
  rcases Nat.eq_zero_or_pos n with rfl | hn
  · decide
  · have hlog : Nat.log2 n < 8 := by omega
    exact (Nat.log2_lt (by omega)).mp hlog

end Bifrost
