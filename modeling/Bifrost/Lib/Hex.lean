import Mathlib.Data.Char
import Mathlib.Order.Fin.Basic
import Bifrost.Lib.Bytes

/-!
# Hex strings

Strings are lists of characters, compared by code point. `hexOf b` is the
`0x`-prefixed lower-case hex form of a byte string, `ofHex?` reads it back, and
`lower` is `str.lower` on ASCII. Hex digits are ordered as the numbers they
stand for, so `hexOf` is strictly increasing (`hexOf_lt_iff`): sorting hex
strings and sorting the byte strings give one order.
-/

namespace Bifrost.Lib

abbrev Str := List Char

def lower (s : Str) : Str := s.map Char.toLower

def hexDigits : Str := "0123456789abcdef".toList

/-- The lower-case hex digit of `d`. -/
def hexDigit (d : Fin 16) : Char := hexDigits.get d

theorem hexDigit_lt_iff : ∀ c d : Fin 16, hexDigit c < hexDigit d ↔ c < d := by decide

theorem hexDigit_inj {c d : Fin 16} (h : hexDigit c = hexDigit d) : c = d := by
  revert c d; decide

theorem toLower_hexDigit : ∀ d : Fin 16, (hexDigit d).toLower = hexDigit d := by decide

/-- The high and the low half of a byte. -/
def hi (x : Byte) : Fin 16 := ⟨x.val / 16, by omega⟩

def lo (x : Byte) : Fin 16 := ⟨x.val % 16, by omega⟩

def hexByte (x : Byte) : Str := [hexDigit (hi x), hexDigit (lo x)]

def hexStr (b : Bytes) : Str := b.flatMap hexByte

/-- `.hex()` of a byte string: `0x` and two digits for each byte. -/
def hexOf (b : Bytes) : Str := '0' :: 'x' :: hexStr b

@[simp] theorem hexStr_nil : hexStr [] = [] := rfl

@[simp] theorem hexStr_cons (x : Byte) (b : Bytes) :
    hexStr (x :: b) = hexDigit (hi x) :: hexDigit (lo x) :: hexStr b := rfl

theorem byte_lt_iff (x y : Byte) : x < y ↔ hi x < hi y ∨ (hi x = hi y ∧ lo x < lo y) := by
  simp only [Fin.lt_def, Fin.ext_iff, hi, lo]
  omega

theorem byte_eq_iff (x y : Byte) : x = y ↔ hi x = hi y ∧ lo x = lo y := by
  simp only [Fin.ext_iff, hi, lo]
  omega

theorem hexStr_lt_iff (a b : Bytes) : hexStr a < hexStr b ↔ a < b := by
  induction a generalizing b with
  | nil =>
    cases b with
    | nil => simp
    | cons y b => simp
  | cons x a ih =>
    cases b with
    | nil => simp
    | cons y b =>
      have heq : ∀ c d : Fin 16, hexDigit c = hexDigit d ↔ c = d :=
        fun c d => ⟨hexDigit_inj, fun h => h ▸ rfl⟩
      simp only [hexStr_cons, List.cons_lt_cons_iff, hexDigit_lt_iff, heq, ih]
      rw [byte_lt_iff, byte_eq_iff]
      tauto

/-- `hexOf` is strictly increasing. -/
theorem hexOf_lt_iff (a b : Bytes) : hexOf a < hexOf b ↔ a < b := by
  simp [hexOf, hexStr_lt_iff]

theorem hexOf_le_iff (a b : Bytes) : hexOf a ≤ hexOf b ↔ a ≤ b := by
  rw [← not_lt, hexOf_lt_iff, not_lt]

theorem hexOf_inj {a b : Bytes} (h : hexOf a = hexOf b) : a = b :=
  le_antisymm ((hexOf_le_iff a b).mp h.le) ((hexOf_le_iff b a).mp h.ge)

@[simp] theorem lower_hexOf (b : Bytes) : lower (hexOf b) = hexOf b := by
  have h : ∀ b : Bytes, lower (hexStr b) = hexStr b := by
    intro b
    induction b with
    | nil => rfl
    | cons x b ih =>
      rw [hexStr_cons]
      simp only [lower, List.map_cons, toLower_hexDigit]
      rw [← lower, ih]
  have hp : ('0' : Char).toLower = '0' ∧ ('x' : Char).toLower = 'x' := by decide
  simp only [hexOf, lower, List.map_cons, hp]
  rw [← lower, h]

/-! ## Reading hex -/

def unhexDigit (c : Char) : Option (Fin 16) := (List.finRange 16).find? fun d => hexDigit d = c

def unhexStr : Str → Option Bytes
  | [] => some []
  | [_] => none
  | c :: d :: s =>
    match unhexDigit c, unhexDigit d, unhexStr s with
    | some x, some y, some b => some (⟨16 * x.val + y.val, by omega⟩ :: b)
    | _, _, _ => none

/-- The bytes of a `0x`-prefixed lower-case hex string. -/
def ofHex? : Str → Option Bytes
  | '0' :: 'x' :: s => unhexStr s
  | _ => none

theorem unhexDigit_hexDigit : ∀ d : Fin 16, unhexDigit (hexDigit d) = some d := by decide

theorem unhexStr_hexStr (b : Bytes) : unhexStr (hexStr b) = some b := by
  induction b with
  | nil => rfl
  | cons x b ih =>
    have hx : 16 * (hi x).val + (lo x).val = x.val := by simp only [hi, lo]; omega
    simp only [hexStr_cons, unhexStr, unhexDigit_hexDigit, ih, hx]

theorem ofHex?_hexOf (b : Bytes) : ofHex? (hexOf b) = some b := unhexStr_hexStr b

end Bifrost.Lib
