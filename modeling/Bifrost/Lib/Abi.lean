import Bifrost.Lib.Bytes

/-!
# The contract ABI: head/tail encoding

A `Codec α` is one ABI type: its encoder, its decoder and the law that the
decoder reads back what the encoder wrote. `ok a` says that every offset and
every length in the encoding of `a` fits a 32-byte word, which is when the
encoding exists. `Comps α` is a list of tuple components: `heads off` writes
the head words (a static component in place, a dynamic one as the offset of
its tail, the tails starting at `off`), `tails` the tails, and `read` follows
the head words of a frame. `Codec.tuple` closes a component list into a type.
-/

namespace Bifrost.Lib.Abi

open Bifrost.Lib

structure Codec (α : Type) where
  isDynamic : Bool
  /-- Bytes of a static encoding. -/
  size : Nat
  enc : α → Bytes
  dec : Bytes → Option α
  ok : α → Prop
  length_enc : isDynamic = false → ∀ a, (enc a).length = size
  dec_enc : ∀ a rest, ok a → dec (enc a ++ rest) = some a

/-! ## Words -/

theorem word_pow : (256 : Nat) ^ 32 = 2 ^ 256 := by norm_num

/-- The word at the front of a frame, as a number; `none` when the frame is too short. -/
def word? (b : Bytes) : Option Nat := if 32 ≤ b.length then some (ofBE (b.take 32)) else none

theorem word?_toBE {n : Nat} (rest : Bytes) (h : n < 2 ^ 256) :
    word? (toBE 32 n ++ rest) = some n := by
  rw [word?, if_pos (by simp), List.take_left' (length_toBE 32 n), ofBE_toBE (word_pow ▸ h)]

/-- `uint<n>`: a left-padded word. -/
def uint (n : Nat) (hn : n ≤ 256) : Codec (Fin (2 ^ n)) where
  isDynamic := false
  size := 32
  enc x := toBE 32 x.val
  dec b := (word? b).bind fun w => if h : w < 2 ^ n then some ⟨w, h⟩ else none
  ok _ := True
  length_enc _ _ := length_toBE 32 _
  dec_enc x rest _ := by
    have hx : x.val < 2 ^ 256 := lt_of_lt_of_le x.isLt (Nat.pow_le_pow_right (by decide) hn)
    rw [word?_toBE rest hx, Option.bind_some, dif_pos x.isLt]

/-- `uint256`. -/
def uint256 : Codec (Fin (2 ^ 256)) := uint 256 (by decide)

def zeros (n : Nat) : Bytes := List.replicate n 0

@[simp] theorem length_zeros (n : Nat) : (zeros n).length = n := List.length_replicate

/-- `bytes<n>`: a right-padded word; the padding must be zero. -/
def fixedBytes (n : Nat) (hn : n ≤ 32) : Codec (BytesN n) where
  isDynamic := false
  size := 32
  enc b := b.val ++ zeros (32 - n)
  dec b := if h : (b.take n).length = n ∧ slice b n 32 = zeros (32 - n) then
    some ⟨b.take n, h.1⟩ else none
  ok _ := True
  length_enc _ b := by simp only [List.length_append, b.property, length_zeros]; omega
  dec_enc b rest _ := by
    have ht : (b.val ++ zeros (32 - n) ++ rest).take n = b.val := by
      rw [List.append_assoc, List.take_left' b.property]
    have hs : slice (b.val ++ zeros (32 - n) ++ rest) n 32 = zeros (32 - n) := by
      rw [List.append_assoc]
      exact slice_window b.property (by simp; omega)
    simp only [ht, hs, b.property, and_self, ↓reduceDIte]

/-- `address`: twenty bytes behind twelve zero bytes. -/
def address : Codec (BytesN 20) where
  isDynamic := false
  size := 32
  enc b := zeros 12 ++ b.val
  dec b := if h : (slice b 12 32).length = 20 ∧ b.take 12 = zeros 12 then
    some ⟨slice b 12 32, h.1⟩ else none
  ok _ := True
  length_enc _ b := by simp only [List.length_append, b.property, length_zeros]
  dec_enc b rest _ := by
    have ht : (zeros 12 ++ b.val ++ rest).take 12 = zeros 12 := by
      rw [List.append_assoc, List.take_left' (length_zeros 12)]
    have hs : slice (zeros 12 ++ b.val ++ rest) 12 32 = b.val := by
      rw [List.append_assoc]
      exact slice_window (length_zeros 12) (by rw [b.property])
    simp only [ht, hs, b.property, and_self, ↓reduceDIte]

/-- `bytes`: a length word, the bytes, zero padding to a whole word. -/
def bytes : Codec Bytes where
  isDynamic := true
  size := 0
  enc b := toBE 32 b.length ++ b ++ zeros ((32 - b.length % 32) % 32)
  dec b := (word? b).bind fun n =>
    if n ≤ (b.drop 32).length then some ((b.drop 32).take n) else none
  ok b := b.length < 2 ^ 256
  length_enc h := by cases h
  dec_enc b rest hb := by
    rw [List.append_assoc, List.append_assoc, word?_toBE _ hb, Option.bind_some,
      List.drop_left' (length_toBE 32 _), if_pos (by simp only [List.length_append]; omega),
      List.take_left' rfl]

/-! ## Arrays -/

variable {α β γ : Type}

/-- Reads `n` consecutive static elements. -/
def decN (c : Codec α) : Nat → Bytes → Option (List α)
  | 0, _ => some []
  | n + 1, b =>
    match c.dec b, decN c n (b.drop c.size) with
    | some a, some as => some (a :: as)
    | _, _ => none

theorem decN_flatMap (c : Codec α) (hc : c.isDynamic = false) (as : List α) (rest : Bytes)
    (h : ∀ a ∈ as, c.ok a) : decN c as.length (as.flatMap c.enc ++ rest) = some as := by
  induction as with
  | nil => rfl
  | cons a as ih =>
    have ha := h a List.mem_cons_self
    have has := fun x hx => h x (List.mem_cons_of_mem a hx)
    rw [List.length_cons, List.flatMap_cons, List.append_assoc, decN, c.dec_enc a _ ha,
      List.drop_left' (c.length_enc hc a), ih has]

/-- Static elements behind each other are told apart by their size. -/
theorem flatMap_enc_inj {c : Codec α} (hc : c.isDynamic = false) (hsize : 0 < c.size)
    {as bs : List α} (has : ∀ a ∈ as, c.ok a) (hbs : ∀ b ∈ bs, c.ok b)
    (h : as.flatMap c.enc = bs.flatMap c.enc) : as = bs := by
  have hlen : ∀ l : List α, (l.flatMap c.enc).length = l.length * c.size := fun l => by
    induction l with
    | nil => simp
    | cons a l ih =>
      rw [List.flatMap_cons, List.length_append, ih, c.length_enc hc, List.length_cons]
      ring
  have hl : as.length = bs.length := by
    have := hlen as
    rw [h, hlen] at this
    exact (Nat.eq_of_mul_eq_mul_right hsize this).symm
  have hda := decN_flatMap c hc as [] has
  have hdb := decN_flatMap c hc bs [] hbs
  rw [h, hl] at hda
  exact Option.some.inj (hda.symm.trans hdb)

/-- `T[]` for a static element type `T`. -/
def array (c : Codec α) (hc : c.isDynamic = false) : Codec (List α) where
  isDynamic := true
  size := 0
  enc as := toBE 32 as.length ++ as.flatMap c.enc
  dec b := (word? b).bind fun n => decN c n (b.drop 32)
  ok as := as.length < 2 ^ 256 ∧ ∀ a ∈ as, c.ok a
  length_enc h := by cases h
  dec_enc as rest h := by
    rw [List.append_assoc, word?_toBE _ h.1, Option.bind_some, List.drop_left' (length_toBE 32 _)]
    exact decN_flatMap c hc as rest h.2

/-! ## Tuples -/

structure Comps (α : Type) where
  isDynamic : Bool
  headSize : Nat
  heads : Nat → α → Bytes
  tails : α → Bytes
  read : Bytes → Nat → Option α
  ok : Nat → α → Prop
  length_heads : ∀ off a, (heads off a).length = headSize
  tails_nil : isDynamic = false → ∀ a, tails a = []
  read_spec : ∀ {frame pos off a q r}, ok off a → frame.drop pos = heads off a ++ q →
    frame.drop off = tails a ++ r → read frame pos = some a

namespace Codec

/-- Bytes a component takes in the head of a tuple. -/
def headSize (c : Codec α) : Nat := if c.isDynamic then 32 else c.size

def head (c : Codec α) (off : Nat) (a : α) : Bytes := if c.isDynamic then toBE 32 off else c.enc a

def tail (c : Codec α) (a : α) : Bytes := if c.isDynamic then c.enc a else []

/-- The value of the component whose head word is at `pos`. -/
def readAt (c : Codec α) (frame : Bytes) (pos : Nat) : Option α :=
  if c.isDynamic then (word? (frame.drop pos)).bind fun off => c.dec (frame.drop off)
  else c.dec (frame.drop pos)

theorem length_head (c : Codec α) (off : Nat) (a : α) : (c.head off a).length = c.headSize := by
  unfold head headSize
  cases h : c.isDynamic with
  | true => exact length_toBE 32 off
  | false => exact c.length_enc h a

theorem readAt_spec (c : Codec α) {frame q r : Bytes} {pos off : Nat} {a : α}
    (hoff : c.isDynamic = true → off < 2 ^ 256) (hok : c.ok a)
    (hh : frame.drop pos = c.head off a ++ q) (ht : frame.drop off = c.tail a ++ r) :
    c.readAt frame pos = some a := by
  unfold readAt
  unfold head at hh
  unfold tail at ht
  cases h : c.isDynamic with
  | true =>
    simp only [h, ↓reduceIte] at hh ht ⊢
    rw [hh, word?_toBE q (hoff h), Option.bind_some, ht, c.dec_enc a r hok]
  | false =>
    simp only [h, Bool.false_eq_true, ↓reduceIte] at hh ⊢
    rw [hh, c.dec_enc a q hok]

end Codec

namespace Comps

def nil : Comps Unit where
  isDynamic := false
  headSize := 0
  heads _ _ := []
  tails _ := []
  read _ _ := some ()
  ok _ _ := True
  length_heads _ _ := rfl
  tails_nil _ _ := rfl
  read_spec _ _ _ := rfl

def cons (c : Codec α) (cs : Comps β) : Comps (α × β) where
  isDynamic := c.isDynamic || cs.isDynamic
  headSize := c.headSize + cs.headSize
  heads off a := c.head off a.1 ++ cs.heads (off + (c.tail a.1).length) a.2
  tails a := c.tail a.1 ++ cs.tails a.2
  read frame pos :=
    match c.readAt frame pos, cs.read frame (pos + c.headSize) with
    | some a, some b => some (a, b)
    | _, _ => none
  ok off a := (c.isDynamic = true → off < 2 ^ 256) ∧ c.ok a.1 ∧
    cs.ok (off + (c.tail a.1).length) a.2
  length_heads off a := by rw [List.length_append, c.length_head, cs.length_heads]
  tails_nil h a := by
    obtain ⟨hc, hcs⟩ := Bool.or_eq_false_iff.mp h
    simp [Codec.tail, hc, cs.tails_nil hcs]
  read_spec := by
    intro frame pos off a q r ⟨hoff, hok, hoks⟩ hh ht
    rw [List.append_assoc] at hh ht
    have hhead : frame.drop (pos + c.headSize) =
        cs.heads (off + (c.tail a.1).length) a.2 ++ q := by
      rw [← List.drop_drop, hh, List.drop_left' (c.length_head off a.1)]
    have htail : frame.drop (off + (c.tail a.1).length) = cs.tails a.2 ++ r := by
      rw [← List.drop_drop, ht, List.drop_left' rfl]
    rw [c.readAt_spec hoff hok hh ht, cs.read_spec hoks hhead htail]

end Comps

/-- The tuple type of a component list. -/
def Codec.tuple (cs : Comps α) : Codec α where
  isDynamic := cs.isDynamic
  size := cs.headSize
  enc a := cs.heads cs.headSize a ++ cs.tails a
  dec b := cs.read b 0
  ok a := cs.ok cs.headSize a
  length_enc h a := by rw [cs.tails_nil h, List.append_nil, cs.length_heads]
  dec_enc a rest hok := by
    refine cs.read_spec hok (q := cs.tails a ++ rest) (r := rest) ?_ ?_
    · rw [List.drop_zero, List.append_assoc]
    · rw [List.append_assoc, List.drop_left' (cs.length_heads _ a)]

section Equations

variable (c : Codec α) (cs : Comps β) (off : Nat) (a : α × β)

@[simp] theorem Comps.cons_headSize : (cons c cs).headSize = c.headSize + cs.headSize := rfl

@[simp] theorem Comps.cons_heads : (cons c cs).heads off a =
    c.head off a.1 ++ cs.heads (off + (c.tail a.1).length) a.2 := rfl

@[simp] theorem Comps.cons_tails : (cons c cs).tails a = c.tail a.1 ++ cs.tails a.2 := rfl

@[simp] theorem Comps.cons_ok : (cons c cs).ok off a ↔ (c.isDynamic = true → off < 2 ^ 256) ∧
    c.ok a.1 ∧ cs.ok (off + (c.tail a.1).length) a.2 := Iff.rfl

@[simp] theorem Comps.nil_headSize : nil.headSize = 0 := rfl

@[simp] theorem Comps.nil_heads (u : Unit) : nil.heads off u = [] := rfl

@[simp] theorem Comps.nil_tails (u : Unit) : nil.tails u = [] := rfl

@[simp] theorem Comps.nil_ok (u : Unit) : nil.ok off u := trivial

@[simp] theorem Codec.tuple_enc (b : β) :
    (tuple cs).enc b = cs.heads cs.headSize b ++ cs.tails b := rfl

@[simp] theorem Codec.tuple_ok (b : β) : (tuple cs).ok b ↔ cs.ok cs.headSize b := Iff.rfl

variable {n : Nat}

@[simp] theorem uint_isDynamic (hn : n ≤ 256) : (uint n hn).isDynamic = false := rfl

@[simp] theorem uint_size (hn : n ≤ 256) : (uint n hn).size = 32 := rfl

@[simp] theorem uint_enc (hn : n ≤ 256) (x : Fin (2 ^ n)) :
    (uint n hn).enc x = toBE 32 x.val := rfl

@[simp] theorem uint_ok (hn : n ≤ 256) (x : Fin (2 ^ n)) : (uint n hn).ok x := trivial

@[simp] theorem uint256_isDynamic : uint256.isDynamic = false := rfl

@[simp] theorem uint256_size : uint256.size = 32 := rfl

@[simp] theorem uint256_ok (x : Fin (2 ^ 256)) : uint256.ok x := trivial

@[simp] theorem fixedBytes_isDynamic (hn : n ≤ 32) : (fixedBytes n hn).isDynamic = false := rfl

@[simp] theorem fixedBytes_size (hn : n ≤ 32) : (fixedBytes n hn).size = 32 := rfl

@[simp] theorem fixedBytes_enc (hn : n ≤ 32) (b : BytesN n) :
    (fixedBytes n hn).enc b = b.val ++ zeros (32 - n) := rfl

@[simp] theorem fixedBytes_ok (hn : n ≤ 32) (b : BytesN n) : (fixedBytes n hn).ok b := trivial

@[simp] theorem address_isDynamic : address.isDynamic = false := rfl

@[simp] theorem address_size : address.size = 32 := rfl

@[simp] theorem address_ok (b : BytesN 20) : address.ok b := trivial

@[simp] theorem bytes_isDynamic : bytes.isDynamic = true := rfl

@[simp] theorem bytes_ok (b : Bytes) : bytes.ok b ↔ b.length < 2 ^ 256 := Iff.rfl

end Equations

/-- A type under the names of a structure: `f` builds the structure where it can. -/
def Codec.map (c : Codec α) (f : α → Option β) (g : β → α) (hfg : ∀ b, f (g b) = some b) :
    Codec β where
  isDynamic := c.isDynamic
  size := c.size
  enc b := c.enc (g b)
  dec b := (c.dec b).bind f
  ok b := c.ok (g b)
  length_enc h b := c.length_enc h (g b)
  dec_enc b rest hok := by rw [c.dec_enc (g b) rest hok, Option.bind_some, hfg]

end Bifrost.Lib.Abi
