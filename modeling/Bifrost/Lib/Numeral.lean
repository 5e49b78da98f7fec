import Bifrost.Lib.Hex
import Mathlib.Data.List.DropRight
import Mathlib.Tactic.Ring

/-!
# Hex numerals

`Nat.toDigits 16` writes a number without leading zeros, `hexStr` writes every
byte with two digits. The numeral of a number whose leading byte is not zero is
the digits of that byte and the hex form of the rest (`toDigits_ofBE_cons`), and
padded with zeros to the full length it is the hex form (`pad_toDigits`).
`intOfHex?` reads a numeral back (`intOfHex?_hexStr`).
-/

namespace Bifrost.Lib

theorem digitChar_eq : ∀ d : Fin 16, Nat.digitChar d.val = hexDigit d := by decide

theorem hexDigit_mem : ∀ d : Fin 16, hexDigit d ∈ hexDigits := by decide

theorem exists_hexDigit {c : Char} (h : c ∈ hexDigits) : ∃ d, c = hexDigit d := by
  obtain ⟨i, hi, rfl⟩ := List.getElem_of_mem h
  exact ⟨⟨i, hi⟩, rfl⟩

/-! ## Hex strings of bytes -/

@[simp] theorem hexStr_append (a b : Bytes) : hexStr (a ++ b) = hexStr a ++ hexStr b :=
  List.flatMap_append

@[simp] theorem length_hexStr (b : Bytes) : (hexStr b).length = 2 * b.length := by
  induction b with
  | nil => rfl
  | cons x b ih => simp only [hexStr_cons, List.length_cons, ih]; omega

theorem mem_hexStr {b : Bytes} {c : Char} (h : c ∈ hexStr b) : c ∈ hexDigits := by
  obtain ⟨x, -, hx⟩ := List.mem_flatMap.mp h
  rcases List.mem_cons.mp hx with rfl | hx
  · exact hexDigit_mem _
  · rw [List.mem_singleton.mp hx]
    exact hexDigit_mem _

theorem halves_lt (c d : Fin 16) : 16 * c.val + d.val < 256 := by omega

/-- The byte with the given halves. -/
def ofHalves (c d : Fin 16) : Byte := ⟨16 * c.val + d.val, halves_lt c d⟩

theorem hi_ofHalves (c d : Fin 16) : hi (ofHalves c d) = c := by
  apply Fin.ext
  simp only [hi, ofHalves]
  omega

theorem lo_ofHalves (c d : Fin 16) : lo (ofHalves c d) = d := by
  apply Fin.ext
  simp only [lo, ofHalves]
  omega

/-- Every string of `2 * k` digits is the hex form of `k` bytes. -/
theorem exists_hexStr {k : Nat} {s : Str} (hl : s.length = 2 * k) (hs : ∀ c ∈ s, c ∈ hexDigits) :
    ∃ b : Bytes, b.length = k ∧ s = hexStr b := by
  induction k generalizing s with
  | zero => exact ⟨[], rfl, List.eq_nil_of_length_eq_zero hl⟩
  | succ k ih =>
    obtain ⟨c, d, s, rfl⟩ : ∃ c d t, s = c :: d :: t := by
      match s, hl with
      | c :: d :: t, _ => exact ⟨c, d, t, rfl⟩
    obtain ⟨x, rfl⟩ := exists_hexDigit (hs c (by simp))
    obtain ⟨y, rfl⟩ := exists_hexDigit (hs d (by simp))
    have hl' : s.length = 2 * k := by
      simp only [List.length_cons] at hl
      omega
    obtain ⟨b, hb, rfl⟩ := ih hl' fun c hc => hs c (by simp [hc])
    refine ⟨ofHalves x y :: b, by simp [hb], ?_⟩
    rw [hexStr_cons, hi_ofHalves, lo_ofHalves]

/-! ## Numerals of numbers -/

theorem toDigits_byte (x : Byte) : Nat.toDigits 16 x.val =
    if x.val < 16 then [hexDigit (lo x)] else hexByte x := by
  split
  · next h =>
    rw [Nat.toDigits_of_lt_base h, ← digitChar_eq]
    simp only [lo, Nat.mod_eq_of_lt h]
  · next h =>
    have hlt : x.val / 16 < 16 := by omega
    rw [Nat.toDigits_of_base_le (by decide) (by omega), Nat.toDigits_of_lt_base hlt, hexByte,
      ← digitChar_eq, ← digitChar_eq]
    rfl

theorem mem_toDigits {n : Nat} {c : Char} (h : c ∈ Nat.toDigits 16 n) : c ∈ hexDigits := by
  have hdigit : ∀ {d : Nat}, d < 16 → Nat.digitChar d ∈ hexDigits := fun {d} hd => by
    rw [digitChar_eq ⟨d, hd⟩]
    exact hexDigit_mem _
  induction n using Nat.strongRecOn with
  | _ n ih =>
    rw [Nat.toDigits_eq_if (by decide)] at h
    split at h
    · next hlt =>
      rw [List.mem_singleton.mp h]
      exact hdigit hlt
    · rcases List.mem_append.mp h with h | h
      · exact ih (n / 16) (by omega) h
      · rw [List.mem_singleton.mp h]
        exact hdigit (Nat.mod_lt n (by decide))

/-- A byte behind a number that is not zero adds its two digits. -/
theorem toDigits_concat {m : Nat} (hm : 0 < m) (x : Byte) :
    Nat.toDigits 16 (m * 256 + x.val) = Nat.toDigits 16 m ++ hexByte x := by
  have hq : (m * 256 + x.val) / 16 = 16 * m + x.val / 16 := by omega
  have hr : (m * 256 + x.val) % 16 = x.val % 16 := by omega
  have hhi : x.val / 16 < 16 := by omega
  rw [Nat.toDigits_of_base_le (by decide) (by omega), hq, hr,
    ← Nat.toDigits_append_toDigits (by decide) hm hhi, Nat.toDigits_of_lt_base hhi,
    List.append_assoc, hexByte, ← digitChar_eq, ← digitChar_eq]
  rfl

theorem ofBE_pos {x : Byte} (hx : x ≠ 0) (b : Bytes) : 0 < ofBE (x :: b) := by
  have hx' : 0 < x.val := Nat.pos_of_ne_zero fun h => hx (Fin.ext h)
  rw [ofBE_cons]
  have := Nat.mul_pos hx' (Nat.pow_pos (n := b.length) (show 0 < 256 by decide))
  omega

/-- The numeral of a byte string that does not start with zero. -/
theorem toDigits_ofBE_cons {x : Byte} (hx : x ≠ 0) (b : Bytes) :
    Nat.toDigits 16 (ofBE (x :: b)) = Nat.toDigits 16 x.val ++ hexStr b := by
  induction b using List.reverseRecOn with
  | nil => simp [ofBE]
  | append_singleton b y ih =>
    rw [← List.cons_append, ofBE_concat, toDigits_concat (ofBE_pos hx b), ih, hexStr_append,
      List.append_assoc]
    simp [hexByte]

/-- The string with zeros in front up to length `n`. -/
def padZeros (n : Nat) (s : Str) : Str := List.replicate (n - s.length) '0' ++ s

theorem padZeros_of_length {n : Nat} {s : Str} (h : s.length = n) : padZeros n s = s := by
  simp [padZeros, h]

theorem padZeros_succ {n : Nat} {s : Str} (h : s.length ≤ n) :
    padZeros (n + 1) s = '0' :: padZeros n s := by
  have hn : n + 1 - s.length = (n - s.length) + 1 := by omega
  rw [padZeros, hn, List.replicate_succ, List.cons_append, padZeros]

theorem length_toDigits_ofBE {b : Bytes} (hb : b ≠ []) :
    (Nat.toDigits 16 (ofBE b)).length ≤ 2 * b.length := by
  have hpos : 0 < b.length := List.length_pos_iff.mpr hb
  have hlt := ofBE_lt b
  rw [show (256 : Nat) = 16 ^ 2 from rfl, ← pow_mul] at hlt
  exact (Nat.length_toDigits_le_iff (by decide) (by omega)).mpr hlt

/-- Padded to two digits for each byte, the numeral of a byte string is its hex form. -/
theorem pad_toDigits {b : Bytes} (hb : b ≠ []) :
    padZeros (2 * b.length) (Nat.toDigits 16 (ofBE b)) = hexStr b := by
  induction b with
  | nil => exact absurd rfl hb
  | cons x b ih =>
    have hlen : 2 * (x :: b).length = 2 * b.length + 1 + 1 := by simp only [List.length_cons]; omega
    by_cases hx : x = 0
    · subst hx
      have hzero : hexDigit (hi 0) = '0' ∧ hexDigit (lo 0) = '0' := by decide
      have hval : ofBE (0 :: b) = ofBE b := by simp [ofBE_cons]
      rw [hexStr_cons, hzero.1, hzero.2, hval]
      cases b with
      | nil => rfl
      | cons y b =>
        -- both zeros of the byte are padding of the rest
        have hle := length_toDigits_ofBE (List.cons_ne_nil y b)
        rw [hlen, padZeros_succ (by omega), padZeros_succ hle, ih (List.cons_ne_nil y b)]
    · rw [toDigits_ofBE_cons hx, toDigits_byte]
      split
      · next hlt =>
        have hhi : hexDigit (hi x) = '0' := by
          have : hi x = 0 := Fin.ext (Nat.div_eq_of_lt hlt)
          rw [this]
          rfl
        rw [hlen, padZeros_succ (by simp), padZeros_of_length (by simp),
          hexStr_cons, hhi]
        rfl
      · rw [padZeros_of_length (by simp [hexByte]; omega)]
        rfl

/-! ## Reading a numeral -/

/-- The number of a hex digit of either case. -/
def digitValue? (c : Char) : Option (Fin 16) := unhexDigit c.toLower

/-- Digits behind the number `n`, with single underscores between them: `behind` says that a
digit stands in front, so that an underscore may follow, or the end. -/
def digits? : Bool → Nat → Str → Option Nat
  | behind, n, [] => if behind then some n else none
  | behind, n, c :: s =>
    if c = '_' then if behind then digits? false n s else none
    else (digitValue? c).bind fun d => digits? true (16 * n + d.val) s

/-- The string without the prefix of base 16, which one underscore may follow. -/
def unprefixed : Str → Str
  | '0' :: 'x' :: s | '0' :: 'X' :: s => if s.head? = some '_' then s.tail else s
  | s => s

/-- A blank of ASCII. -/
def isBlank (c : Char) : Bool := c.toNat ∈ [9, 10, 11, 12, 13, 32]

/-- `int(s, 16)` of an ASCII string: blanks around it, a sign, a prefix, and digits of either
case with underscores between them. -/
def intOfHex? (s : Str) : Option Int :=
  match (s.dropWhile isBlank).rdropWhile isBlank with
  | '-' :: s => (digits? false 0 (unprefixed s)).map fun n => -(n : Int)
  | '+' :: s => (digits? false 0 (unprefixed s)).map Int.ofNat
  | s => (digits? false 0 (unprefixed s)).map Int.ofNat

example : intOfHex? " -0X_1f_Ab ".toList = some (-8107) := by decide

example : intOfHex? "0x".toList = none ∧ intOfHex? "1__f".toList = none := by decide

theorem digitValue?_hexDigit : ∀ d : Fin 16, digitValue? (hexDigit d) = some d := by decide

theorem digits?_hexDigit (behind : Bool) (n : Nat) (d : Fin 16) (s : Str) :
    digits? behind n (hexDigit d :: s) = digits? true (16 * n + d.val) s := by
  have hne : hexDigit d ≠ '_' := by
    revert d
    decide
  rw [digits?, if_neg hne, digitValue?_hexDigit, Option.bind_some]

theorem digits?_hexStr (b : Bytes) (n : Nat) :
    digits? true n (hexStr b) = some (n * 256 ^ b.length + ofBE b) := by
  induction b generalizing n with
  | nil => simp [digits?, ofBE]
  | cons x b ih =>
    have hx : 16 * (16 * n + (hi x).val) + (lo x).val = n * 256 + x.val := by
      simp only [hi, lo]
      omega
    rw [hexStr_cons, digits?_hexDigit, digits?_hexDigit, hx, ih, ofBE_cons, List.length_cons,
      pow_succ]
    congr 1
    ring

theorem digits?_hexStr_zero {b : Bytes} (hb : b ≠ []) :
    digits? false 0 (hexStr b) = some (ofBE b) := by
  cases b with
  | nil => exact absurd rfl hb
  | cons x b =>
    have h := digits?_hexStr (x :: b) 0
    rw [hexStr_cons, digits?_hexDigit, Nat.zero_mul, Nat.zero_add (ofBE _)] at h
    rwa [hexStr_cons, digits?_hexDigit]

/-- Without blanks and a sign, the digits are all that is read. -/
theorem intOfHex?_unsigned {s : Str} (h : ∀ c ∈ s, isBlank c = false ∧ c ≠ '-' ∧ c ≠ '+') :
    intOfHex? s = (digits? false 0 (unprefixed s)).map Int.ofNat := by
  have hleft : s.dropWhile isBlank = s :=
    List.dropWhile_eq_self_iff.mpr fun hl => by simp [(h _ (List.getElem_mem hl)).1]
  have hright : s.rdropWhile isBlank = s :=
    List.rdropWhile_eq_self_iff.mpr fun hl => by simp [(h _ (List.getLast_mem hl)).1]
  unfold intOfHex?
  rw [hleft, hright]
  split
  · exact absurd rfl (h '-' List.mem_cons_self).2.1
  · exact absurd rfl (h '+' List.mem_cons_self).2.2
  · rfl

theorem plain_hexDigit {c : Char} (h : c ∈ hexDigits) :
    isBlank c = false ∧ c ≠ '-' ∧ c ≠ '+' := by
  obtain ⟨d, rfl⟩ := exists_hexDigit h
  revert d
  decide

theorem intOfHex?_hexStr {b : Bytes} (hb : b ≠ []) :
    intOfHex? (hexStr b) = some (ofBE b : Int) := by
  have hplain : unprefixed (hexStr b) = hexStr b := by
    cases b with
    | nil => exact absurd rfl hb
    | cons x b =>
      have hlo : hexDigit (lo x) ≠ 'x' ∧ hexDigit (lo x) ≠ 'X' := by
        generalize lo x = d
        revert d
        decide
      rw [hexStr_cons, unprefixed]
      · exact fun _ h => hlo.1 (List.cons.inj (List.cons.inj h).2).1
      · exact fun _ h => hlo.2 (List.cons.inj (List.cons.inj h).2).1
  rw [intOfHex?_unsigned fun c hc => plain_hexDigit (mem_hexStr hc), hplain,
    digits?_hexStr_zero hb]
  rfl

theorem intOfHex?_hexOf {b : Bytes} (hb : b ≠ []) :
    intOfHex? (hexOf b) = some (ofBE b : Int) := by
  have hplain : unprefixed (hexOf b) = hexStr b := by
    cases b with
    | nil => exact absurd rfl hb
    | cons x b =>
      have hhi : hexDigit (hi x) ≠ '_' := by
        generalize hi x = d
        revert d
        decide
      exact if_neg fun h => hhi (Option.some.inj h)
  rw [intOfHex?_unsigned, hplain, digits?_hexStr_zero hb]
  · rfl
  · intro c hc
    rcases List.mem_cons.mp hc with rfl | hc
    · exact plain_hexDigit (hexDigit_mem 0)
    · rcases List.mem_cons.mp hc with rfl | hc
      · exact ⟨rfl, by decide, by decide⟩
      · exact plain_hexDigit (mem_hexStr hc)

end Bifrost.Lib
