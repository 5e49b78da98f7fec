import Mathlib.Data.Finset.Card
import Mathlib.Data.Fintype.Card

/-!
# Quorums

Of the members `ι` some are faulty and may back anything. Two sets that together
outnumber everybody by more than the faulty share an honest member
(`exists_honest_common`).
`Certified faulty votes t v`: at least `t` members back `v`, where an honest one
backs only what it votes for. Where no honest member votes for two values, two
certified values are one (`Certified.unique`).
-/

namespace Bifrost.Lib

variable {ι V : Type} {faulty A B : Finset ι}

theorem exists_honest_common [Fintype ι] [DecidableEq ι]
    (h : Fintype.card ι + faulty.card < A.card + B.card) :
    ∃ i ∈ A, i ∈ B ∧ i ∉ faulty := by
  have hinter := Finset.card_union_add_card_inter A B
  have hunion : (A ∪ B).card ≤ Fintype.card ι := Finset.card_le_univ _
  have hcard : faulty.card < (A ∩ B).card := by omega
  obtain ⟨i, hi, hf⟩ := Finset.exists_mem_notMem_of_card_lt_card hcard
  obtain ⟨hA, hB⟩ := Finset.mem_inter.mp hi
  exact ⟨i, hA, hB, hf⟩

/-- At least `t` members back `v`. -/
def Certified (faulty : Finset ι) (votes : ι → V → Prop) (t : Nat) (v : V) : Prop :=
  ∃ A : Finset ι, t ≤ A.card ∧ ∀ i ∈ A, i ∉ faulty → votes i v

namespace Certified

variable {votes : ι → V → Prop} {t : Nat} {v v' : V}

/-- Some honest member votes for what is certified. -/
theorem exists_votes (h : Certified faulty votes t v) (ht : faulty.card < t) :
    ∃ i, i ∉ faulty ∧ votes i v := by
  obtain ⟨A, hA, h⟩ := h
  obtain ⟨i, hi, hf⟩ := Finset.exists_mem_notMem_of_card_lt_card (lt_of_lt_of_le ht hA)
  exact ⟨i, hf, h i hi hf⟩

variable [Fintype ι]

/-- One honest member votes for both of two certified values. -/
theorem exists_both {votes' : ι → V → Prop} (h : Certified faulty votes t v)
    (h' : Certified faulty votes' t v') (ht : Fintype.card ι + faulty.card < 2 * t) :
    ∃ i, i ∉ faulty ∧ votes i v ∧ votes' i v' := by
  classical
  obtain ⟨A, hA, h⟩ := h
  obtain ⟨B, hB, h'⟩ := h'
  have hcard : Fintype.card ι + faulty.card < A.card + B.card := by omega
  obtain ⟨i, hiA, hiB, hf⟩ := exists_honest_common hcard
  exact ⟨i, hf, h i hiA hf, h' i hiB hf⟩

theorem unique (hone : ∀ i, i ∉ faulty → votes i v → votes i v' → v = v')
    (h : Certified faulty votes t v) (h' : Certified faulty votes t v')
    (ht : Fintype.card ι + faulty.card < 2 * t) : v = v' := by
  obtain ⟨i, hf, hv, hv'⟩ := h.exists_both h' ht
  exact hone i hf hv hv'

end Certified

end Bifrost.Lib
