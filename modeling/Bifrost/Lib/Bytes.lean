import Mathlib.Data.List.Induction
import Mathlib.Data.List.Lex
import Mathlib.Data.Fin.Basic
import Mathlib.Tactic.Ring
import Mathlib.Algebra.Order.Ring.Nat

/-!
# Byte strings and big-endian numbers

`toBE w n` is the `w`-byte big-endian form of `n`, `ofBE` reads a byte string
as a number. The two are inverse on numbers below `256 ^ w` and on strings of
length `w`. On strings of one length the lexicographic order is the order of
the numbers (`ofBE_lt_iff`). `splice` overwrites the window `[a, b)`.
-/

namespace Bifrost.Lib

abbrev Byte := Fin 256

instance byte_neZero : NeZero 256 := ⟨by decide⟩

/-- The low byte of a number. -/
def byteOf (n : Nat) : Byte := ⟨n % 256, Nat.mod_lt _ (by decide)⟩

@[simp] theorem val_byteOf (n : Nat) : (byteOf n).val = n % 256 := rfl

theorem byteOf_of_lt {n : Nat} (h : n < 256) : byteOf n = ⟨n, h⟩ := Fin.ext (Nat.mod_eq_of_lt h)

abbrev Bytes := List Byte

/-- Byte strings of length `n`. -/
abbrev BytesN (n : Nat) := { b : Bytes // b.length = n }

def toBE : Nat → Nat → Bytes
  | 0, _ => []
  | w + 1, n => toBE w (n / 256) ++ [byteOf n]

def ofBE (b : Bytes) : Nat := b.foldl (fun a x => a * 256 + x.val) 0

@[simp] theorem length_toBE (w n : Nat) : (toBE w n).length = w := by
  induction w generalizing n with
  | zero => rfl
  | succ w ih => simp [toBE, ih]

@[simp] theorem ofBE_nil : ofBE [] = 0 := rfl

theorem ofBE_concat (b : Bytes) (x : Byte) : ofBE (b ++ [x]) = ofBE b * 256 + x.val := by
  simp [ofBE]

theorem foldl_be (b : Bytes) (n : Nat) :
    b.foldl (fun a x => a * 256 + x.val) n = n * 256 ^ b.length + ofBE b := by
  induction b generalizing n with
  | nil => simp
  | cons x b ih =>
    have h0 : ofBE (x :: b) = x.val * 256 ^ b.length + ofBE b := by
      rw [← ih, ofBE, List.foldl_cons, Nat.zero_mul, Nat.zero_add]
    rw [List.foldl_cons, ih, h0, List.length_cons, pow_succ]
    ring

theorem ofBE_cons (x : Byte) (b : Bytes) : ofBE (x :: b) = x.val * 256 ^ b.length + ofBE b := by
  rw [← foldl_be, ofBE, List.foldl_cons, Nat.zero_mul, Nat.zero_add]

theorem ofBE_lt (b : Bytes) : ofBE b < 256 ^ b.length := by
  induction b with
  | nil => simp
  | cons x b ih =>
    rw [ofBE_cons, List.length_cons, pow_succ]
    have hx : x.val + 1 ≤ 256 := x.isLt
    calc x.val * 256 ^ b.length + ofBE b
        < x.val * 256 ^ b.length + 256 ^ b.length := by omega
      _ = (x.val + 1) * 256 ^ b.length := by ring
      _ ≤ 256 * 256 ^ b.length := Nat.mul_le_mul_right _ hx
      _ = 256 ^ b.length * 256 := by ring

theorem ofBE_toBE {w n : Nat} (h : n < 256 ^ w) : ofBE (toBE w n) = n := by
  induction w generalizing n with
  | zero =>
    have : n = 0 := by simpa using h
    subst this; rfl
  | succ w ih =>
    have hd : n / 256 < 256 ^ w := by
      rw [pow_succ] at h
      exact Nat.div_lt_of_lt_mul (by rwa [Nat.mul_comm] at h)
    rw [toBE, ofBE_concat, ih hd, val_byteOf]
    omega

theorem toBE_ofBE (b : Bytes) : toBE b.length (ofBE b) = b := by
  induction b using List.reverseRecOn with
  | nil => rfl
  | append_singleton b x ih =>
    have hx := x.isLt
    have hdiv : ofBE (b ++ [x]) / 256 = ofBE b := by rw [ofBE_concat]; omega
    have hmod : ofBE (b ++ [x]) % 256 = x.val := by rw [ofBE_concat]; omega
    have hbyte : byteOf (ofBE (b ++ [x])) = x := Fin.ext hmod
    rw [List.length_append, List.length_singleton, toBE, hdiv, ih, hbyte]

theorem toBE_ofBE_of_length {b : Bytes} {w : Nat} (h : b.length = w) : toBE w (ofBE b) = b := by
  subst h; exact toBE_ofBE b

/-- On byte strings of one length, the lexicographic order is the numeric one. -/
theorem ofBE_lt_iff {a b : Bytes} (hl : a.length = b.length) : ofBE a < ofBE b ↔ a < b := by
  induction a generalizing b with
  | nil =>
    cases b with
    | nil => simp
    | cons y b => simp at hl
  | cons x a ih =>
    cases b with
    | nil => simp at hl
    | cons y b =>
      have hl' : a.length = b.length := by simpa using hl
      have ha := ofBE_lt a
      have hb := ofBE_lt b
      rw [ofBE_cons, ofBE_cons, List.cons_lt_cons_iff, ← ih hl', hl']
      rw [hl'] at ha
      generalize 256 ^ b.length = p at ha hb
      rcases lt_trichotomy x.val y.val with h | h | h
      · have hp : (x.val + 1) * p ≤ y.val * p := Nat.mul_le_mul_right _ h
        have hx : (x.val + 1) * p = x.val * p + p := by ring
        exact iff_of_true (by omega) (.inl h)
      · have hxy : x = y := Fin.ext h
        subst hxy
        simp
      · have hp : (y.val + 1) * p ≤ x.val * p := Nat.mul_le_mul_right _ h
        have hy : (y.val + 1) * p = y.val * p + p := by ring
        refine iff_of_false (by omega) ?_
        rintro (h' | ⟨h', -⟩)
        · exact absurd (Fin.lt_def.mp h') (by omega)
        · subst h'; omega

/-! ## Slices -/

/-- `b[i:j]` of a byte string. -/
def slice (b : Bytes) (i j : Nat) : Bytes := (b.drop i).take (j - i)

/-- `b[:i] + w + b[j:]`. -/
def splice (b : Bytes) (i j : Nat) (w : Bytes) : Bytes := b.take i ++ w ++ b.drop j

theorem slice_window {p w q : Bytes} {i j : Nat} (hi : p.length = i) (hj : i + w.length = j) :
    slice (p ++ (w ++ q)) i j = w := by
  subst hi
  have hw : j - p.length = w.length := by omega
  rw [slice, hw, List.drop_left, List.take_left]

theorem splice_window {p w q : Bytes} {i j : Nat} (v : Bytes) (hi : p.length = i)
    (hj : i + w.length = j) : splice (p ++ (w ++ q)) i j v = p ++ (v ++ q) := by
  subst hi hj
  rw [splice, List.take_left, ← List.append_assoc p w q, ← List.length_append, List.drop_left,
    List.append_assoc]

/-- The strings agree in all bytes outside the window `[i, j)`. -/
def SameOutside (i j : Nat) (b b' : Bytes) : Prop := b'.take i = b.take i ∧ b'.drop j = b.drop j

namespace SameOutside

variable {i j : Nat} {b b' b'' : Bytes}

theorem refl (i j : Nat) (b : Bytes) : SameOutside i j b b := ⟨rfl, rfl⟩

theorem trans (h : SameOutside i j b b') (h' : SameOutside i j b' b'') : SameOutside i j b b'' :=
  ⟨h'.1.trans h.1, h'.2.trans h.2⟩

theorem splice {w : Bytes} (hj : i + w.length = j) (hb : j ≤ b.length) :
    SameOutside i j b (splice b i j w) := by
  have hi : (b.take i).length = i := by
    rw [List.length_take]
    omega
  refine ⟨?_, ?_⟩
  · rw [Lib.splice, List.append_assoc, List.take_left' hi]
  · refine List.drop_left' ?_
    rw [List.length_append, hi, hj]

end SameOutside

end Bifrost.Lib
