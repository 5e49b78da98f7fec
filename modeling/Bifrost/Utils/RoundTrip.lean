import Bifrost.Lib.Collections
import Bifrost.Utils.Packing

/-!
# Packing and parsing

An element of at least one byte is packed as the hex form of its bytes
(`PackedAs`), a list of elements as the hex form of all bytes in order
(`concatAsHex_eq`), and the parser's window over the types gives the elements
back (`parser_packed`). The packer raises exactly on a member that does not fit
(`concatAsHex_eq_none_iff`).
-/

namespace Bifrost

open Bifrost.Lib

/-! ## The helpers on hex forms -/

theorem replace0x_of_not_mem {s : Str} (h : 'x' ∉ s) : replace0x s = s := by
  induction s with
  | nil => rfl
  | cons c s ih =>
    have hs : 'x' ∉ s := fun hmem => h (List.mem_cons_of_mem c hmem)
    unfold replace0x
    split
    · next heq =>
      obtain ⟨-, rfl⟩ := List.cons.inj heq
      exact absurd List.mem_cons_self hs
    · next heq =>
      obtain ⟨rfl, rfl⟩ := List.cons.inj heq
      rw [ih hs]
    · next heq => cases heq

theorem not_mem_of_digits {s : Str} (h : ∀ c ∈ s, c ∈ hexDigits) : 'x' ∉ s :=
  fun hx => absurd (h 'x' hx) (by decide)

theorem replace0x_digits {s : Str} (h : ∀ c ∈ s, c ∈ hexDigits) :
    replace0x ('0' :: 'x' :: s) = s := by
  rw [replace0x, replace0x_of_not_mem (not_mem_of_digits h)]

@[simp] theorem replace0x_hexOf (b : Bytes) : replace0x (hexOf b) = hexStr b :=
  replace0x_digits fun _ hc => mem_hexStr hc

theorem hexInt_ofNat (n : Nat) : hexInt n = '0' :: 'x' :: Nat.toDigits 16 n := rfl

@[simp] theorem replace0x_hexInt (n : Nat) : replace0x (hexInt n) = Nat.toDigits 16 n :=
  replace0x_digits fun _ hc => mem_toDigits hc

theorem length_hexOf (b : Bytes) : (hexOf b).length = 2 * (b.length + 1) := by
  simp only [hexOf, List.length_cons, length_hexStr]
  omega

theorem evenHex_hexOf (b : Bytes) : evenHex (hexOf b) = hexOf b := by
  have h : ¬ (hexOf b).length % 2 = 1 := by rw [length_hexOf]; omega
  rw [evenHex, if_neg h]

theorem toEvenHexStr_hexOf (b : Bytes) : toEvenHexStr (hexOf b) = hexOf b := by
  have h : ['0', 'x'].isPrefixOf (hexOf b) = true := rfl
  rw [toEvenHexStr, if_pos h, evenHex_hexOf]

/-- A leading byte below 16 has one digit in the numeral, and the repair of the odd length
puts the other one back. -/
theorem toEvenHex_ofBE {x : Byte} (hx : x ≠ 0) (b : Bytes) :
    toEvenHex (ofBE (x :: b)) = hexOf (x :: b) := by
  have hnum := toDigits_ofBE_cons hx b
  rw [toDigits_byte] at hnum
  unfold toEvenHex evenHex
  split at hnum
  · next hlt =>
    have hhi : hexDigit (hi x) = '0' := by
      rw [show hi x = 0 from Fin.ext (Nat.div_eq_of_lt hlt)]
      rfl
    have hodd : (hexInt (ofBE (x :: b))).length % 2 = 1 := by
      simp only [hexInt_ofNat, hnum, List.length_cons, List.length_append, length_hexStr,
        List.length_nil]
      omega
    rw [if_pos hodd, replace0x_hexInt, hnum, hexOf, hexStr_cons, hhi]
    rfl
  · have heven : ¬ (hexInt (ofBE (x :: b))).length % 2 = 1 := by
      simp only [hexInt_ofNat, hnum, List.length_cons, List.length_append, length_hexStr, hexByte,
        List.length_nil]
      omega
    rw [if_neg heven, hexInt_ofNat, hnum]
    rfl

theorem two_pow_eq (w : Nat) : 2 ^ (8 * w) = 256 ^ w := by
  rw [show (256 : Nat) = 2 ^ 8 from rfl, ← pow_mul]

theorem zfill_digits {s : Str} (h : ∀ c ∈ s, c ∈ hexDigits) (n : Nat) :
    zfill s n = padZeros n s := by
  have hsign (c : Char) (hc : c ∉ hexDigits) : s.head? ≠ some c :=
    fun heq => hc (h c (List.mem_of_head? heq))
  rw [zfill, if_neg (not_or.mpr ⟨hsign '-' (by decide), hsign '+' (by decide)⟩)]
  rfl

theorem overflow_iff (a size : Nat) :
    (2 : Int) ^ (8 * size) - 1 < a ↔ 2 ^ (8 * size) - 1 < a := by
  have hpos := Nat.two_pow_pos (8 * size)
  have hcast : (2 : Int) ^ (8 * size) = ((2 ^ (8 * size) : Nat) : Int) := by push_cast; rfl
  rw [hcast]
  omega

theorem zeroFilledHex_ofBE {b : Bytes} (hb : b ≠ []) :
    zeroFilledHex (ofBE b) b.length = some (hexOf b) := by
  have hlt : ofBE b < 2 ^ (8 * b.length) := by
    rw [two_pow_eq]
    exact ofBE_lt b
  have hfill : zfill (Nat.toDigits 16 (ofBE b)) (b.length * 2) = hexStr b := by
    rw [zfill_digits fun _ hc => mem_toDigits hc, Nat.mul_comm]
    exact pad_toDigits hb
  rw [zeroFilledHex, if_neg (by rw [overflow_iff]; omega), replace0x_hexInt, hfill]
  rfl

/-! ## Packed lists -/

theorem concatHexes_hexOf {bs : List Bytes} (hbs : bs ≠ []) :
    concatHexes (bs.map hexOf) = hexOf bs.flatten := by
  have hfold : ∀ (bs : List Bytes) (b : Bytes), (bs.map hexOf).foldl
      (fun ret arg => if ret = [] then toEvenHexStr arg else ret ++ replace0x arg) (hexOf b) =
        hexOf (b ++ bs.flatten) := by
    intro bs
    induction bs with
    | nil => intro b; simp
    | cons c bs ih =>
      intro b
      have hstep : hexOf b ++ hexStr c = hexOf (b ++ c) := by simp [hexOf]
      have hne : ¬ hexOf b = [] := List.cons_ne_nil _ _
      rw [List.map_cons, List.foldl_cons, if_neg hne, replace0x_hexOf, hstep, ih,
        List.flatten_cons, List.append_assoc]
  cases bs with
  | nil => exact absurd rfl hbs
  | cons b bs =>
    rw [concatHexes, List.map_cons, List.foldl_cons, if_pos rfl, toEvenHexStr_hexOf, hfold,
      List.flatten_cons]

/-- Arguments that are each the hex form of some bytes are packed as the hex form of all. -/
theorem concatAsHex_eq {args : List HexArg} {bs : List Bytes} (hne : bs ≠ [])
    (h : List.Forall₂ (fun a b => a.hex = some (hexOf b)) args bs) :
    concatAsHex args = some (hexOf bs.flatten) := by
  have hhexes : args.mapM HexArg.hex = some (bs.map hexOf) :=
    mapM_eq_some_iff.mpr (List.forall₂_map_right_iff.mpr h)
  rw [concatAsHex, hhexes, Option.map_some, concatHexes_hexOf hne]

theorem HexArg.hex_eq_none_iff (a : HexArg) : a.hex = none ↔
    ∃ value size, a = .enum value size ∧ 2 ^ (8 * size) - 1 < value := by
  cases a with
  | enum value size =>
    show zeroFilledHex value size = none ↔ _
    unfold zeroFilledHex
    by_cases hlt : (2 : Int) ^ (8 * size) - 1 < value
    · rw [if_pos hlt]
      exact ⟨fun _ => ⟨value, size, rfl, (overflow_iff value size).mp hlt⟩, fun _ => rfl⟩
    · rw [if_neg hlt]
      refine ⟨fun h => absurd h (Option.some_ne_none _), ?_⟩
      rintro ⟨_, _, heq, hlt'⟩
      cases heq
      exact absurd ((overflow_iff value size).mpr hlt') hlt
  | int n => simp [hex]
  | str s => simp [hex]

/-- Only a member that does not fit makes the packer raise. -/
theorem concatAsHex_eq_none_iff (args : List HexArg) : concatAsHex args = none ↔
    ∃ value size, .enum value size ∈ args ∧ 2 ^ (8 * size) - 1 < value := by
  rw [concatAsHex, Option.map_eq_none_iff, mapM_eq_none_iff]
  constructor
  · rintro ⟨a, ha, hnone⟩
    obtain ⟨value, size, rfl, hlt⟩ := a.hex_eq_none_iff.mp hnone
    exact ⟨value, size, ha, hlt⟩
  · rintro ⟨value, size, ha, hlt⟩
    exact ⟨_, ha, (HexArg.hex_eq_none_iff _).mpr ⟨value, size, rfl, hlt⟩⟩

/-! ## The parser behind the packer -/

namespace Element

/-- The element as an argument of `concat_as_hex`. -/
def arg : Element → HexArg
  | member cls value _ => .enum value cls.size
  | hex s => .str s

/-- What the parser is told of the element. -/
def type : Element → ElementType
  | member cls _ _ => .enum cls
  | hex s => .bytes ((s.length - 2) / 2)

/-- A member whose value fits its size, or a `0x`-prefixed string of `2 * k` lower-case digits. -/
def Packable : Element → Prop
  | member cls value _ => value ≤ 2 ^ (8 * cls.size) - 1
  | hex s => ∃ k digits, 1 ≤ k ∧ s = '0' :: 'x' :: digits ∧ digits.length = 2 * k ∧
      ∀ c ∈ digits, c ∈ hexDigits

/-- An enum class of at least one byte. -/
def Sized : Element → Prop
  | member cls _ _ => 1 ≤ cls.size
  | hex _ => True

/-- The element is packed as the bytes `b`, and their number gives it back. -/
structure PackedAs (e : Element) (b : Bytes) : Prop where
  ne_nil : b ≠ []
  length : b.length = e.type.size
  arg : e.arg.hex = some (hexOf b)
  enc : e.type.enc (ofBE b) = some e

theorem exists_packedAs {e : Element} (h : e.Packable) (hs : e.Sized) : ∃ b, e.PackedAs b := by
  cases e with
  | member cls value hmem =>
    have hlt : value < 256 ^ cls.size := by
      rw [← two_pow_eq]
      exact lt_of_le_of_lt h (Nat.sub_lt (Nat.two_pow_pos _) one_pos)
    have hb : toBE cls.size value ≠ [] := by
      rw [← List.length_pos_iff, length_toBE]
      exact hs
    have hfill := zeroFilledHex_ofBE hb
    rw [length_toBE, ofBE_toBE hlt] at hfill
    refine ⟨toBE cls.size value, hb, length_toBE _ _, hfill, ?_⟩
    rw [ofBE_toBE hlt]
    exact dif_pos ⟨Int.natCast_nonneg value, hmem⟩
  | hex s =>
    obtain ⟨k, digits, hk, rfl, hlen, hdigits⟩ := h
    obtain ⟨b, rfl, rfl⟩ := exists_hexStr hlen hdigits
    have hb : b ≠ [] := List.length_pos_iff.mp hk
    have hsize : (hex (hexOf b)).type = .bytes b.length := by
      simp only [type, length_hexOf]
      congr 1
      omega
    refine ⟨b, hb, ?_, congrArg some (toEvenHexStr_hexOf b), ?_⟩
    · exact (congrArg ElementType.size hsize).symm
    · show (hex (hexOf b)).type.enc (ofBE b) = _
      rw [hsize, ElementType.enc, zeroFilledHex_ofBE hb]
      rfl

theorem exists_forall₂_packedAs {es : List Element} (h : ∀ e ∈ es, e.Packable)
    (hs : ∀ e ∈ es, e.Sized) : ∃ bs, List.Forall₂ PackedAs es bs := by
  induction es with
  | nil => exact ⟨[], .nil⟩
  | cons e es ih =>
    obtain ⟨b, hb⟩ := exists_packedAs (h e List.mem_cons_self) (hs e List.mem_cons_self)
    obtain ⟨bs, hbs⟩ := ih (fun e' he' => h e' (List.mem_cons_of_mem e he'))
      fun e' he' => hs e' (List.mem_cons_of_mem e he')
    exact ⟨b :: bs, .cons hb hbs⟩

end Element

/-- The window of the loop moves over the bytes of the elements. -/
theorem parseFrom_packed {es : List Element} {bs : List Bytes}
    (h : List.Forall₂ Element.PackedAs es bs) (before : Bytes) :
    parseFrom (hexStr (before ++ bs.flatten)) (2 * before.length) (es.map Element.type) =
      some es := by
  induction h generalizing before with
  | nil => rfl
  | @cons e b es bs hb _ ih =>
    have hwindow : ((hexStr (before ++ (b :: bs).flatten)).drop (2 * before.length)).take
        (2 * before.length + e.type.size * 2 - 2 * before.length) = hexStr b := by
      rw [hexStr_append, List.drop_left' (length_hexStr before), List.flatten_cons, hexStr_append]
      refine List.take_left' ?_
      rw [length_hexStr, hb.length]
      omega
    have hnext : 2 * before.length + e.type.size * 2 = 2 * (before ++ b).length := by
      rw [List.length_append, hb.length]
      omega
    have hrest : (before ++ (b :: bs).flatten) = (before ++ b) ++ bs.flatten := by simp
    have hnum := intOfHex?_hexStr hb.ne_nil
    have ih' := ih (before ++ b)
    simp only [List.map_cons, parseFrom, hwindow, hnum, hb.enc, Option.bind_eq_bind,
      Option.bind_some]
    rw [hnext, hrest, ih']
    rfl

/-- Parsing with the types of the elements gives back what was packed. -/
theorem parser_packed {es : List Element} (hne : es ≠ []) (h : ∀ e ∈ es, e.Packable)
    (hs : ∀ e ∈ es, e.Sized) :
    (concatAsHex (es.map Element.arg)).bind (fun s => parser s (es.map Element.type)) =
      some es := by
  obtain ⟨bs, hbs⟩ := Element.exists_forall₂_packedAs h hs
  have hne' : bs ≠ [] := by
    rintro rfl
    cases hbs
    exact hne rfl
  have hargs : List.Forall₂ (fun a b => a.hex = some (hexOf b)) (es.map Element.arg) bs :=
    List.forall₂_map_left_iff.mpr (hbs.imp fun _ _ hb => hb.arg)
  rw [concatAsHex_eq hne' hargs, Option.bind_some, parser, replace0x_hexOf]
  exact parseFrom_packed hbs []

/-- **Parsing inverts packing.** Elements of at least one byte come back in order, whatever
stands around them, and the packer raises on a member that does not fit instead of shifting
what follows. -/
theorem parser_inverts_packer {es : List Element} (hne : es ≠ []) (h : ∀ e ∈ es, e.Packable)
    (hs : ∀ e ∈ es, e.Sized) :
    (concatAsHex (es.map Element.arg)).bind (fun s => parser s (es.map Element.type)) = some es ∧
      ∀ args, concatAsHexOrRaise args = .error "overflow" ↔
        ∃ value size, .enum value size ∈ args ∧ 2 ^ (8 * size) - 1 < value := by
  refine ⟨parser_packed hne h hs, fun args => ?_⟩
  rw [← concatAsHex_eq_none_iff, concatAsHexOrRaise]
  cases concatAsHex args <;> simp

namespace Sample

/-- A status of one byte and two bytes as a string. -/
def elements : List Element := [.member ⟨1, [0, 5]⟩ 5 (by decide), .hex "0x0a0b".toList]

theorem elements_packable : ∀ e ∈ elements, e.Packable ∧ e.Sized := by
  intro e he
  rcases List.mem_cons.mp he with rfl | he
  · exact ⟨show 5 ≤ 2 ^ (8 * 1) - 1 by decide, le_refl 1⟩
  · have hdigits : "0a0b".toList.all (fun c => decide (c ∈ hexDigits)) = true := by decide
    rw [List.mem_singleton.mp he]
    exact ⟨⟨2, "0a0b".toList, by decide, rfl, rfl, fun c hc =>
      of_decide_eq_true (List.all_eq_true.mp hdigits c hc)⟩, trivial⟩

end Sample

theorem parser_inverts_packer_sample :
    (concatAsHex (Sample.elements.map Element.arg)).bind (fun s =>
      parser s (Sample.elements.map Element.type)) = some Sample.elements ∧
    ∀ args, concatAsHexOrRaise args = .error "overflow" ↔
      ∃ value size, .enum value size ∈ args ∧ 2 ^ (8 * size) - 1 < value :=
  parser_inverts_packer (List.cons_ne_nil _ _) (fun e he => (Sample.elements_packable e he).1)
    fun e he => (Sample.elements_packable e he).2

/-- A member of no bytes is packed as one zero byte, of which the parser reads nothing. -/
theorem parser_not_inverts_packer : ¬ ∀ es : List Element, es ≠ [] → (∀ e ∈ es, e.Packable) →
    (concatAsHex (es.map Element.arg)).bind (fun s => parser s (es.map Element.type)) =
      some es := by
  intro hall
  have h := hall [.member ⟨0, [0]⟩ 0 (by decide)] (List.cons_ne_nil _ _) fun e he => by
    rw [List.mem_singleton.mp he]
    exact le_refl 0
  revert h
  decide

end Bifrost
