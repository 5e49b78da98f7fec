import Mathlib.Data.List.Sort
import Mathlib.Order.Defs.LinearOrder

/-!
# Sorting tuples

`(key, element)` tuples compare by the key first and, for equal keys, by a
comparison of the elements that is total and transitive. Of the tuples sorted so
the last one has the greatest key (`getLast?_sorted`).
-/

namespace Bifrost.Lib

/-- A total and transitive comparison. -/
structure Comparison (ε : Type) where
  le : ε → ε → Bool
  total : ∀ a b, le a b ∨ le b a
  trans : ∀ a b c, le a b → le b c → le a c

namespace Comparison

variable {κ ε : Type} [LinearOrder κ] (order : Comparison ε)

def tupleLe (a b : κ × ε) : Prop := a.1 < b.1 ∨ a.1 = b.1 ∧ order.le a.2 b.2

instance : DecidableRel (order.tupleLe (κ := κ)) := fun _ _ => inferInstanceAs (Decidable (_ ∨ _))

theorem tupleLe_total (a b : κ × ε) : order.tupleLe a b ∨ order.tupleLe b a := by
  rcases lt_trichotomy a.1 b.1 with h | h | h
  · exact .inl (.inl h)
  · exact (order.total a.2 b.2).imp (fun hle => .inr ⟨h, hle⟩) fun hle => .inr ⟨h.symm, hle⟩
  · exact .inr (.inl h)

theorem tupleLe_trans {a b c : κ × ε} (hab : order.tupleLe a b) (hbc : order.tupleLe b c) :
    order.tupleLe a c := by
  rcases hab with hab | ⟨hab, hle⟩
  · rcases hbc with hbc | ⟨hbc, -⟩
    · exact .inl (hab.trans hbc)
    · exact .inl (hbc ▸ hab)
  · rcases hbc with hbc | ⟨hbc, hle'⟩
    · exact .inl (hab ▸ hbc)
    · exact .inr ⟨hab.trans hbc, order.trans a.2 b.2 c.2 hle hle'⟩

def sorted (l : List (κ × ε)) : List (κ × ε) := l.insertionSort order.tupleLe

variable {l : List (κ × ε)}

theorem perm_sorted (l : List (κ × ε)) : (order.sorted l).Perm l := List.perm_insertionSort _ l

theorem getLast?_sorted {p : κ × ε} (h : (order.sorted l).getLast? = some p) :
    p ∈ l ∧ ∀ q ∈ l, q.1 ≤ p.1 := by
  have : Std.Total (order.tupleLe (κ := κ)) := ⟨order.tupleLe_total⟩
  have : IsTrans (κ × ε) order.tupleLe := ⟨fun _ _ _ => order.tupleLe_trans⟩
  have hperm := order.perm_sorted l
  have hpair : (order.sorted l).Pairwise order.tupleLe := List.pairwise_insertionSort _ l
  obtain ⟨before, hbefore⟩ := List.getLast?_eq_some_iff.mp h
  rw [hbefore] at hperm hpair
  refine ⟨hperm.mem_iff.mp (List.mem_append_right _ (List.mem_singleton_self p)), fun q hq => ?_⟩
  rcases List.mem_append.mp (hperm.mem_iff.mpr hq) with hq | hq
  · rcases (List.pairwise_append.mp hpair).2.2 q hq p (List.mem_singleton_self p) with hlt | heq
    · exact hlt.le
    · exact heq.1.le
  · rw [List.mem_singleton.mp hq]

theorem getLast?_sorted_eq_none : (order.sorted l).getLast? = none ↔ l = [] := by
  have hlength := (order.perm_sorted l).length_eq
  rw [List.getLast?_eq_none_iff, ← List.length_eq_zero_iff, hlength, List.length_eq_zero_iff]

end Comparison

end Bifrost.Lib
