import Mathlib.Logic.Function.Basic

/-!
# Stores

A store hands out locations in order and takes none back: those below `next`
are allocated. `alloc` writes the next one, `set` overwrites. `Holds s live loc`:
the live owners hold allocated locations of `s`, no two of them the same one; an
owner's write is then seen by no other.
-/

namespace Bifrost.Lib

structure Store (α : Type) where
  get : Nat → α
  next : Nat

namespace Store

variable {α β ι : Type}

def empty (a : α) : Store α := ⟨fun _ => a, 0⟩

/-- Writes `a` to the next location. -/
def alloc (s : Store α) (a : α) : Store α := ⟨Function.update s.get s.next a, s.next + 1⟩

def set (s : Store α) (l : Nat) (a : α) : Store α := ⟨Function.update s.get l a, s.next⟩

section Get

variable (s : Store α) (a : α) {l i : Nat}

@[simp] theorem next_empty : (empty a).next = 0 := rfl

@[simp] theorem next_alloc : (s.alloc a).next = s.next + 1 := rfl

@[simp] theorem next_set : (s.set l a).next = s.next := rfl

@[simp] theorem get_alloc_self : (s.alloc a).get s.next = a := Function.update_self ..

theorem get_alloc_of_lt (h : i < s.next) : (s.alloc a).get i = s.get i :=
  Function.update_of_ne (Nat.ne_of_lt h) ..

@[simp] theorem get_set_self : (s.set l a).get l = a := Function.update_self ..

theorem get_set_of_ne (h : i ≠ l) : (s.set l a).get i = s.get i := Function.update_of_ne h ..

/-- A write that keeps a part of the value keeps it everywhere. -/
theorem get_set_part {f : α → β} (h : f a = f (s.get l)) (i : Nat) :
    f ((s.set l a).get i) = f (s.get i) := by
  by_cases hi : i = l
  · subst hi
    rw [get_set_self, h]
  · rw [get_set_of_ne s a hi]

end Get

/-! ## Owners -/

/-- The live owners hold allocated locations, each its own. -/
structure Holds (s : Store α) (live : ι → Prop) (loc : ι → Nat) : Prop where
  lt : ∀ i, live i → loc i < s.next
  inj : ∀ i j, live i → live j → loc i = loc j → i = j

namespace Holds

variable {s t : Store α} {live live' : ι → Prop} {loc loc' : ι → Nat}

theorem mono (h : Holds s live loc) (hnext : s.next ≤ t.next) (hlive : ∀ i, live' i → live i)
    (hloc : ∀ i, live i → loc' i = loc i) : Holds t live' loc' where
  lt i hi := by
    rw [hloc i (hlive i hi)]
    exact Nat.lt_of_lt_of_le (h.lt i (hlive i hi)) hnext
  inj i j hi hj heq := by
    rw [hloc i (hlive i hi), hloc j (hlive j hj)] at heq
    exact h.inj i j (hlive i hi) (hlive j hj) heq

/-- A new owner takes the next location. -/
theorem alloc {a : α} {o : ι} (h : Holds s live loc) (hlive : ∀ i, live' i → live i ∨ i = o)
    (hloc : ∀ i, live i → loc' i = loc i) (ho : loc' o = s.next) :
    Holds (s.alloc a) live' loc' := by
  refine ⟨fun i hi => ?_, fun i j hi hj heq => ?_⟩
  · rw [next_alloc]
    rcases hlive i hi with hi | rfl
    · have := h.lt i hi
      rw [hloc i hi]
      omega
    · omega
  · rcases hlive i hi with hi | rfl <;> rcases hlive j hj with hj | rfl
    · rw [hloc i hi, hloc j hj] at heq
      exact h.inj i j hi hj heq
    · have := h.lt i hi
      rw [hloc i hi, ho] at heq
      omega
    · have := h.lt j hj
      rw [hloc j hj, ho] at heq
      omega
    · rfl

/-- What one owner writes, another does not see. -/
theorem get_set_of_ne {i j : ι} (h : Holds s live loc) (hi : live i) (hj : live j) (hne : i ≠ j)
    (a : α) : (s.set (loc j) a).get (loc i) = s.get (loc i) :=
  Store.get_set_of_ne s a fun heq => hne (h.inj i j hi hj heq)

end Holds

end Store

end Bifrost.Lib
