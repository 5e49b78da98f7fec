import Bifrost.Lib.Numeral
import Bifrost.Lib.Bytes

/-!
# Packed hex strings

The hex helpers of `utils.py`: numbers and strings are turned into `0x` hex
strings of even length and concatenated, and a packed string is cut into its
elements again. `none` is an exception of the source.
-/

namespace Bifrost

open Bifrost.Lib

/-- `hex(n)`. -/
def hexInt : Int → Str
  | .ofNat n => '0' :: 'x' :: Nat.toDigits 16 n
  | .negSucc n => '-' :: '0' :: 'x' :: Nat.toDigits 16 (n + 1)

/-- `s.replace("0x", "")`. -/
def replace0x : Str → Str
  | '0' :: 'x' :: s => replace0x s
  | c :: s => c :: replace0x s
  | [] => []

/-- `s.zfill(n)`: the zeros stand behind a sign. -/
def zfill (s : Str) (n : Nat) : Str :=
  if s.head? = some '-' ∨ s.head? = some '+' then
    s.take 1 ++ List.replicate (n - s.length) '0' ++ s.drop 1
  else List.replicate (n - s.length) '0' ++ s

/-- An argument of `concat_as_hex`: an enum member with its value and size in bytes, an
integer or a string. -/
inductive HexArg where
  | enum (value size : Nat)
  | int (n : Int)
  | str (s : Str)

def evenHex (s : Str) : Str :=
  if s.length % 2 = 1 then '0' :: 'x' :: '0' :: replace0x s else s

/-- `to_even_hex` of an integer. -/
def toEvenHex (n : Int) : Str := evenHex (hexInt n)

/-- `to_even_hex` of a string. -/
def toEvenHexStr (s : Str) : Str :=
  evenHex (if ['0', 'x'].isPrefixOf s then s else '0' :: 'x' :: s)

def zeroFilledHex (a : Int) (size : Nat) : Option Str :=
  if 2 ^ (8 * size) - 1 < a then none
  else some ('0' :: 'x' :: zfill (replace0x (hexInt a)) (size * 2))

def concatHexes (args : List Str) : Str :=
  args.foldl (fun ret arg => if ret = [] then toEvenHexStr arg else ret ++ replace0x arg) []

def HexArg.hex : HexArg → Option Str
  | .enum value size => zeroFilledHex value size
  | .int n => some (toEvenHex n)
  | .str s => some (toEvenHexStr s)

def concatAsHex (args : List HexArg) : Option Str := (args.mapM HexArg.hex).map concatHexes

def concatAsInt (args : List HexArg) : Option Int := (concatAsHex args).bind intOfHex?

/-- `concat_as_hex` with the text of its exception: on arguments of these types only
`zero_filled_hex` raises. -/
def concatAsHexOrRaise (args : List HexArg) : Except String Str :=
  (concatAsHex args).elim (.error "overflow") .ok

/-! ## The parser -/

/-- A subclass of `Enum` with a `size()` in bytes and the values of its members. -/
structure EnumClass where
  size : Nat
  values : List Nat
  deriving DecidableEq

/-- What is packed: a member of an enum class or a hex string. -/
inductive Element where
  | member (cls : EnumClass) (value : Nat) (h : value ∈ cls.values)
  | hex (s : Str)
  deriving DecidableEq

/-- What the parser is told of an element: its enum class or its size in bytes. -/
inductive ElementType where
  | enum (cls : EnumClass)
  | bytes (size : Nat)
  deriving DecidableEq

namespace ElementType

def size : ElementType → Nat
  | enum cls => cls.size
  | bytes size => size

/-- `enc`: the member with the value `x`, or `x` as a hex string of the size. -/
def enc : ElementType → Int → Option Element
  | enum cls, x =>
    if h : 0 ≤ x ∧ x.toNat ∈ cls.values then some (.member cls x.toNat h.2) else none
  | bytes size, x => (zeroFilledHex x size).map .hex

end ElementType

/-- The loop of `parser`, behind the element that ended at `start`. -/
def parseFrom (hexWithout0x : Str) (start : Nat) : List ElementType → Option (List Element)
  | [] => some []
  | type :: types => do
    let stop := start + type.size * 2
    let x ← intOfHex? ((hexWithout0x.drop start).take (stop - start))
    let element ← type.enc x
    let elements ← parseFrom hexWithout0x stop types
    pure (element :: elements)

def parser (hexStr : Str) (elementTypes : List ElementType) : Option (List Element) :=
  parseFrom (replace0x hexStr) 0 elementTypes

end Bifrost
