import Bifrost.Primitives.Method
import Bifrost.Utils.RoundTrip

/-!
# The codec of RBC methods

`packed n d ops` are the bytes of a method: its length, its direction and its
operations. `concat_as_int` gives their number (`pack_eq`), which the numeral
writes without the leading zero of the length byte; `formatted_hex` restores it
and pads to sixteen bytes (`formattedHexOf_packed`), of which `from_bytes` reads
the number back. Nothing here depends on the list of members.
-/

namespace Bifrost

open Bifrost.Lib

theorem OPCode.value_lt (op : OPCode) : op.value < 256 := by cases op <;> decide

theorem OPCode.value_inj {op op' : OPCode} (h : op.value = op'.value) : op = op' := by
  cases op <;> cases op' <;> first | rfl | cases h

theorem RBCMethodDirection.value_lt (d : RBCMethodDirection) : d.value < 256 := by
  cases d <;> decide

theorem RBCMethodDirection.value_inj {d d' : RBCMethodDirection} (h : d.value = d'.value) :
    d = d' := by
  cases d <;> cases d' <;> first | rfl | cases h

namespace RBCMethodV1

/-! ## The bytes of a method -/

def codeByte (op : OPCode) : Byte := ⟨op.value, op.value_lt⟩

def directionByte (d : RBCMethodDirection) : Byte := ⟨d.value, d.value_lt⟩

theorem codeByte_inj {op op' : OPCode} (h : codeByte op = codeByte op') : op = op' :=
  OPCode.value_inj (congrArg Fin.val h)

theorem directionByte_inj {d d' : RBCMethodDirection} (h : directionByte d = directionByte d') :
    d = d' :=
  RBCMethodDirection.value_inj (congrArg Fin.val h)

/-- The bytes behind the length. -/
def body (d : RBCMethodDirection) (ops : List OPCode) : Bytes := directionByte d :: ops.map codeByte

@[simp] theorem length_body (d : RBCMethodDirection) (ops : List OPCode) :
    (body d ops).length = ops.length + 1 := by
  simp [body]

theorem body_inj {d d' : RBCMethodDirection} {ops ops' : List OPCode}
    (h : body d ops = body d' ops') : d = d' ∧ ops = ops' := by
  obtain ⟨hd, hops⟩ := List.cons.inj h
  exact ⟨directionByte_inj hd, List.map_injective_iff.mpr (fun _ _ => codeByte_inj) hops⟩

/-- The length byte, the direction and the operations. -/
def packed (d : RBCMethodDirection) (ops : List OPCode) : Bytes :=
  byteOf (ops.length + 1) :: body d ops

section Length

variable {d : RBCMethodDirection} {ops : List OPCode} (hle : ops.length ≤ 14)

include hle in
theorem val_lengthByte : (byteOf (ops.length + 1)).val = ops.length + 1 :=
  Nat.mod_eq_of_lt (by omega)

include hle in
theorem lengthByte_ne_zero : byteOf (ops.length + 1) ≠ 0 := by
  intro h
  have hval := val_lengthByte hle
  rw [h] at hval
  cases hval

/-! ## The encoder -/

theorem enum_hex (x : Byte) : (HexArg.enum x.val 1).hex = some (hexOf [x]) := by
  have h := zeroFilledHex_ofBE (List.cons_ne_nil x [])
  have hx : ofBE [x] = x.val := by simp [ofBE]
  rwa [hx] at h

include hle in
/-- The number that `concat_as_int` gives. -/
theorem pack_eq : pack (ops.length + 1) d ops = some (ofBE (packed d ops) : Int) := by
  have hlen : (HexArg.int ((ops.length + 1 : Nat) : Int)).hex =
      some (hexOf [byteOf (ops.length + 1)]) := by
    have h := toEvenHex_ofBE (lengthByte_ne_zero hle) []
    rw [show ofBE [byteOf (ops.length + 1)] = ops.length + 1 by
      simpa [ofBE] using val_lengthByte hle] at h
    exact congrArg some h
  have hops : List.Forall₂ (fun (a : HexArg) b => a.hex = some (hexOf b))
      (ops.map fun op => .enum op.value OPCode.size) (ops.map fun op => [codeByte op]) := by
    rw [List.forall₂_map_left_iff, List.forall₂_map_right_iff, List.forall₂_same]
    exact fun op _ => enum_hex (codeByte op)
  have hargs : List.Forall₂ (fun (a : HexArg) b => a.hex = some (hexOf b))
      (.int ((ops.length + 1 : Nat) : Int) :: .enum d.value RBCMethodDirection.size ::
        ops.map fun op => .enum op.value OPCode.size)
      ([byteOf (ops.length + 1)] :: [directionByte d] :: ops.map fun op => [codeByte op]) :=
    .cons hlen (.cons (enum_hex (directionByte d)) hops)
  have hflat : (ops.map fun op => [codeByte op]).flatten = ops.map codeByte := by
    rw [← List.flatMap_def, ← List.map_eq_flatMap]
  rw [pack, concatAsInt, concatAsHex_eq (List.cons_ne_nil _ _) hargs, List.flatten_cons,
    List.flatten_cons, hflat]
  exact intOfHex?_hexOf (List.cons_ne_nil _ _)

theorem zeroBytes_eq (n : Nat) : zeroBytes n = hexStr (List.replicate n 0) := by
  show List.replicate (n * 2) '0' = _
  induction n with
  | zero => rfl
  | succ n ih =>
    have hn : (n + 1) * 2 = n * 2 + 1 + 1 := by omega
    rw [hn, List.replicate_succ, List.replicate_succ, ih, List.replicate_succ, hexStr_cons]
    rfl

/-- The sixteen-byte form of a method. -/
def padded (d : RBCMethodDirection) (ops : List OPCode) : Bytes :=
  packed d ops ++ List.replicate (14 - ops.length) 0

include hle in
theorem length_padded : (padded d ops).length = 16 := by
  simp only [padded, packed, List.length_append, List.length_cons, length_body,
    List.length_replicate]
  omega

include hle in
/-- The numeral lacks the leading zero of the length byte, the even form has it, and the
padding is counted from the length that is read back. -/
theorem formattedHexOf_packed :
    formattedHexOf (ofBE (packed d ops)) = some (hexOf (padded d ops)) := by
  have hne := lengthByte_ne_zero hle
  have hpos : ¬ (ofBE (packed d ops) : Int) = 0 :=
    Int.natCast_ne_zero.mpr (ofBE_pos hne (body d ops)).ne'
  have heven : replace0x (toEvenHex (ofBE (packed d ops))) = hexStr (packed d ops) := by
    rw [packed, toEvenHex_ofBE hne, replace0x_hexOf]
  have hread : intOfHex? ((hexStr (packed d ops)).take (RBC_METHOD_LENGTH_SIZE * 2)) =
      some ((ops.length + 1 : Nat) : Int) := by
    have htake : (hexStr (packed d ops)).take (RBC_METHOD_LENGTH_SIZE * 2) =
        hexStr [byteOf (ops.length + 1)] := rfl
    rw [htake, intOfHex?_hexStr (List.cons_ne_nil _ _)]
    have hval : ofBE [byteOf (ops.length + 1)] = ops.length + 1 := by
      simpa [ofBE] using val_lengthByte hle
    rw [hval]
  have hpad : (size : Int) - (ops.length + 1 : Nat) * OPCode.size - RBC_METHOD_LENGTH_SIZE =
      (14 - ops.length : Nat) := by
    simp only [size, OPCode.size, RBC_METHOD_LENGTH_SIZE]
    omega
  rw [formattedHexOf, if_neg hpos]
  simp only [heven, hread, hpad, Option.bind_eq_bind, Option.bind_some]
  rw [zeroBytes_eq, ← hexStr_append]
  rfl

/-! ## The decoder -/

include hle in
theorem numberOf_padded : numberOf (padded d ops) = ofBE (packed d ops) := by
  have hfirst : ofBE ((padded d ops).take 1) = ops.length + 1 := by
    have htake : (padded d ops).take 1 = [byteOf (ops.length + 1)] := rfl
    rw [htake]
    simpa [ofBE] using val_lengthByte hle
  have htake : (padded d ops).take (ops.length + 1 + 1) = packed d ops :=
    List.take_left' (by simp [packed])
  rw [numberOf, hfirst, htake]

include hle in
theorem padded_inj {d' : RBCMethodDirection} {ops' : List OPCode} (hle' : ops'.length ≤ 14)
    (h : padded d ops = padded d' ops') : d = d' ∧ ops = ops' := by
  have hbyte : byteOf (ops.length + 1) = byteOf (ops'.length + 1) := (List.cons.inj h).1
  have hlen : ops.length + 1 = ops'.length + 1 := by
    rw [← val_lengthByte hle, ← val_lengthByte hle', hbyte]
  have hpacked : packed d ops = packed d' ops' :=
    (List.append_inj h (by simp [packed]; omega)).1
  exact body_inj (List.cons.inj hpacked).2

end Length

/-- The form of a method that the contracts read: `formatted_hex` of its packed number, as
bytes. -/
def methodForm (d : RBCMethodDirection) (ops : List OPCode) : Option Bytes :=
  ((pack (ops.length + 1) d ops).bind formattedHexOf).bind ofHex?

theorem methodForm_eq {d : RBCMethodDirection} {ops : List OPCode} (hle : ops.length ≤ 14) :
    methodForm d ops = some (padded d ops) := by
  rw [methodForm, pack_eq hle, Option.bind_some, formattedHexOf_packed hle, Option.bind_some,
    ofHex?_hexOf]

/-- **Round trip of the method codec.** Up to fourteen operations fit the form; its prefix is
the packed number, it determines the method, and the form of zeros is `NONE`. -/
theorem method_roundTrip {d : RBCMethodDirection} {ops : List OPCode} (hle : ops.length ≤ 14) :
    (∃ v form, pack (ops.length + 1) d ops = some v ∧ formattedHexOf v = some (hexOf form) ∧
      form.length = size ∧ numberOf form = v) ∧
    (∀ d' ops', ops'.length ≤ 14 → (d, ops) ≠ (d', ops') →
      methodForm d ops ≠ methodForm d' ops') ∧
    none.formattedHex = some (hexOf (List.replicate size 0)) ∧
    fromBytes (List.replicate size 0) = some none := by
  refine ⟨⟨_, padded d ops, pack_eq hle, formattedHexOf_packed hle, length_padded hle,
    congrArg Int.ofNat (numberOf_padded hle)⟩, fun d' ops' hle' hne heq => hne ?_, by decide,
    by decide⟩
  rw [methodForm_eq hle, methodForm_eq hle', Option.some.injEq] at heq
  obtain ⟨rfl, rfl⟩ := padded_inj hle hle' heq
  rfl

theorem method_roundTrip_full :
    (∃ v form, pack 15 .outbound (List.replicate 14 .call) = some v ∧
      formattedHexOf v = some (hexOf form) ∧ form.length = size ∧ numberOf form = v) ∧
    (∀ d' ops', ops'.length ≤ 14 → (.outbound, List.replicate 14 .call) ≠ (d', ops') →
      methodForm .outbound (List.replicate 14 .call) ≠ methodForm d' ops') ∧
    none.formattedHex = some (hexOf (List.replicate size 0)) ∧
    fromBytes (List.replicate size 0) = some none :=
  @method_roundTrip _ (List.replicate 14 .call) (by decide)

end RBCMethodV1

end Bifrost
