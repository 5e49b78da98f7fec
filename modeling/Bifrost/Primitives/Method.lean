import Bifrost.Utils.Packing

/-!
# RBC methods

A method is packed as its length, its direction and its operation codes, one
byte each. `RBCMethodV1.formattedHex` pads it to sixteen bytes;
`RBCMethodV1.fromBytes` reads the length byte, then that many bytes after it,
and looks the number up among the members.
-/

namespace Bifrost

open Bifrost.Lib

inductive OPCode where
  | none | warp | unify | split | unifySplit | deposit | withdraw | borrow | repay
  | xOpen | xEnd | swap | call
  deriving DecidableEq, Repr

namespace OPCode

def value : OPCode → Nat
  | none => 0x00
  | warp => 0x01
  | unify => 0x02
  | split => 0x03
  | unifySplit => 0x04
  | deposit => 0x05
  | withdraw => 0x06
  | borrow => 0x07
  | repay => 0x08
  | xOpen => 0x09
  | xEnd => 0x0a
  | swap => 0x0b
  | call => 0x0c

def size : Nat := 1

end OPCode

inductive RBCMethodDirection where
  | none | inbound | outbound | inAndOutbound
  deriving DecidableEq, Repr

namespace RBCMethodDirection

def value : RBCMethodDirection → Nat
  | none => 0x00
  | inbound => 0x01
  | outbound => 0x02
  | inAndOutbound => 0x03

def size : Nat := OPCode.size

end RBCMethodDirection

inductive RBCMethodV1 where
  | none
  | warpIn | warpUnify | warpUnifySplit | warpUnifyDeposit | warpUnifySplitDeposit
  | warpUnifyRepay | warpUnifySplitRepay | warpUnifySwap | warpUnifySplitSwap
  | warpUnifyXopen | warpUnifySplitXopen | warpCall
  | warpOut | splitWarp | unifySplitWarp | borrowSplitWarp | borrowUnifySplitWarp
  | withdrawSplitWarp | withdrawUnifySplitWarp | swapSplitWarp | swapUnifySplitWarp
  | xendSplitWarp | xendUnifySplitWarp | callWarp
  | warpSwapWarp | warpUnifySplitWarp | warpUnifySwapSplitWarp | warpUnifySplitSwapSplitWarp
  | warpUnifySwapUnifySplitWarp
  deriving DecidableEq, Repr

namespace RBCMethodV1

/-- `concat_as_int(n, d, *ops)`. -/
def pack (n : Nat) (d : RBCMethodDirection) (ops : List OPCode) : Option Int :=
  concatAsInt (.int n :: .enum d.value RBCMethodDirection.size ::
    ops.map fun op => .enum op.value OPCode.size)

def value : RBCMethodV1 → Option Int
  | none => some 0
  | warpIn => pack 2 .inbound [.warp]
  | warpUnify => pack 3 .inbound [.warp, .unify]
  | warpUnifySplit => pack 3 .inbound [.warp, .unifySplit]
  | warpUnifyDeposit => pack 4 .inbound [.warp, .unify, .deposit]
  | warpUnifySplitDeposit => pack 4 .inbound [.warp, .unifySplit, .deposit]
  | warpUnifyRepay => pack 4 .inbound [.warp, .unify, .repay]
  | warpUnifySplitRepay => pack 4 .inbound [.warp, .unifySplit, .repay]
  | warpUnifySwap => pack 4 .inbound [.warp, .unify, .swap]
  | warpUnifySplitSwap => pack 4 .inbound [.warp, .unifySplit, .swap]
  | warpUnifyXopen => pack 4 .inbound [.warp, .unify, .xOpen]
  | warpUnifySplitXopen => pack 4 .inbound [.warp, .unifySplit, .xOpen]
  | warpCall => pack 3 .inbound [.warp, .call]
  | warpOut => pack 2 .outbound [.warp]
  | splitWarp => pack 3 .outbound [.split, .warp]
  | unifySplitWarp => pack 3 .outbound [.unifySplit, .warp]
  | borrowSplitWarp => pack 4 .outbound [.borrow, .split, .warp]
  | borrowUnifySplitWarp => pack 4 .outbound [.borrow, .unifySplit, .warp]
  | withdrawSplitWarp => pack 4 .outbound [.withdraw, .split, .warp]
  | withdrawUnifySplitWarp => pack 4 .outbound [.withdraw, .unifySplit, .warp]
  | swapSplitWarp => pack 4 .outbound [.swap, .split, .warp]
  | swapUnifySplitWarp => pack 4 .outbound [.swap, .unifySplit, .warp]
  | xendSplitWarp => pack 4 .outbound [.xEnd, .split, .warp]
  | xendUnifySplitWarp => pack 4 .outbound [.xEnd, .unifySplit, .warp]
  | callWarp => pack 3 .outbound [.call, .warp]
  | warpSwapWarp => pack 4 .inAndOutbound [.warp, .swap, .warp]
  | warpUnifySplitWarp => pack 4 .inAndOutbound [.warp, .unifySplit, .warp]
  | warpUnifySwapSplitWarp => pack 6 .inAndOutbound [.warp, .unify, .swap, .split, .warp]
  | warpUnifySplitSwapSplitWarp => pack 6 .inAndOutbound [.warp, .unifySplit, .swap, .split, .warp]
  | warpUnifySwapUnifySplitWarp => pack 6 .inAndOutbound [.warp, .unify, .swap, .unifySplit, .warp]

def all : List RBCMethodV1 :=
  [none, warpIn, warpUnify, warpUnifySplit, warpUnifyDeposit, warpUnifySplitDeposit,
    warpUnifyRepay, warpUnifySplitRepay, warpUnifySwap, warpUnifySplitSwap, warpUnifyXopen,
    warpUnifySplitXopen, warpCall, warpOut, splitWarp, unifySplitWarp, borrowSplitWarp,
    borrowUnifySplitWarp, withdrawSplitWarp, withdrawUnifySplitWarp, swapSplitWarp,
    swapUnifySplitWarp, xendSplitWarp, xendUnifySplitWarp, callWarp, warpSwapWarp,
    warpUnifySplitWarp, warpUnifySwapSplitWarp, warpUnifySplitSwapSplitWarp,
    warpUnifySwapUnifySplitWarp]

def size : Nat := 16

def RBC_METHOD_LENGTH_SIZE : Nat := 1

/-- `"00" * n`, empty for a negative number. -/
def zeroBytes (n : Int) : Str := List.replicate (n.toNat * 2) '0'

/-- `formatted_hex` of a member with the number `v`: its bytes and zeros behind them. The
length byte is read back from the digits. -/
def formattedHexOf (v : Int) : Option Str :=
  if v = 0 then some ('0' :: 'x' :: zeroBytes size)
  else do
    let hexWithout0x := replace0x (toEvenHex v)
    let opNum ← intOfHex? (hexWithout0x.take (RBC_METHOD_LENGTH_SIZE * 2))
    let zeroPad := zeroBytes (size - opNum * OPCode.size - RBC_METHOD_LENGTH_SIZE)
    pure ('0' :: 'x' :: (hexWithout0x ++ zeroPad))

def formattedHex (self : RBCMethodV1) : Option Str := self.value.bind formattedHexOf

/-- The number `from_bytes` looks up: the length byte and the bytes it counts. -/
def numberOf (b : Bytes) : Nat := ofBE (b.take (ofBE (b.take 1) + 1))

/-- `from_bytes`: `none` where the number is no member and the source raises `ValueError`. -/
def fromBytes (b : Bytes) : Option RBCMethodV1 := all.find? fun m => m.value = some (numberOf b)

example : warpIn.value = some 0x020101 := by decide

end RBCMethodV1

end Bifrost
