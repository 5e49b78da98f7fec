import Bifrost.Lib.Hex

/-!
# Oracle ids

`rbclib/primitives/oracle.py`: the assets whose prices are fed, and the block
hash feed. Name and id each determine the member.
-/

namespace Bifrost

open Bifrost.Lib

inductive Oracle where
  | eth | bfc | bnb | matic | usdc | usdt | bifi | dai | bitcoinBlockHash
  deriving DecidableEq, Repr

namespace Oracle

def name : Oracle → Str
  | eth => "ETH".toList
  | bfc => "BFC".toList
  | bnb => "BNB".toList
  | matic => "MATIC".toList
  | usdc => "USDC".toList
  | usdt => "USDT".toList
  | bifi => "BIFI".toList
  | dai => "DAI".toList
  | bitcoinBlockHash => "BITCOIN_BLOCK_HASH".toList

def number : Oracle → Nat
  | eth => 0x0100010000000000000000000000000000000000000000000000000000000004
  | bfc => 0x0100010000000000000000000000000000000000000000000000000000000001
  | bnb => 0x0100010000000000000000000000000000000000000000000000000000000005
  | matic => 0x0100010000000000000000000000000000000000000000000000000000000006
  | usdc => 0x0100010000000000000000000000000000000000000000000000000000000008
  | usdt => 0x010001000000000000000000000000000000000000000000000000000000000a
  | bifi => 0x0100010000000000000000000000000000000000000000000000000000000002
  | dai => 0x010001000000000000000000000000000000000000000000000000000000000b
  | bitcoinBlockHash => 0x0200020000000000000000000000000000000000000000000000000000000003

def value (o : Oracle) : BytesN 32 := ⟨toBE 32 o.number, length_toBE _ _⟩

def all : List Oracle := [eth, bfc, bnb, matic, usdc, usdt, bifi, dai, bitcoinBlockHash]

/-- `Oracle[name]`: `none` where the lookup raises. -/
def ofName? (name : Str) : Option Oracle := all.find? fun o => o.name = name

theorem name_of_ofName? {symbol : Str} {o : Oracle} (h : ofName? symbol = some o) :
    o.name = symbol := by
  simpa using List.find?_some h

theorem number_lt (o : Oracle) : o.number < 256 ^ 32 := by cases o <;> decide

theorem number_inj {o o' : Oracle} (h : o.number = o'.number) : o = o' := by
  cases o <;> cases o' <;> first | rfl | exact absurd h (by decide)

theorem value_inj {o o' : Oracle} (h : o.value = o'.value) : o = o' := by
  have hbe := congrArg (fun b => ofBE b.val) h
  dsimp only [value] at hbe
  rw [ofBE_toBE o.number_lt, ofBE_toBE o'.number_lt] at hbe
  exact number_inj hbe

/-- Distinct symbols have distinct ids. -/
theorem symbol_inj {symbol symbol' : Str} {o o' : Oracle} (h : ofName? symbol = some o)
    (h' : ofName? symbol' = some o') (hv : o.value = o'.value) : symbol = symbol' := by
  obtain rfl := value_inj hv
  rw [← name_of_ofName? h, name_of_ofName? h']

end Oracle

end Bifrost
