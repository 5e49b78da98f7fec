import Mathlib.Order.Nat
import Mathlib.Data.Nat.Init
import Mathlib.Tactic.Basic

/-!
# Bisection that keeps the midpoint

`bisect probe fuel front rear` probes the midpoint of an interval: `.eq` is a
hit, `.lt` makes the midpoint the new front, `.gt` the new rear. The midpoint
stays an end of the interval, so an interval of length one need not shrink, and
the rear is never probed. With probes in order the search hits exactly when one
of the half-open interval does (`bisect_isSome_iff`); otherwise it goes on for
ever.
-/

namespace Bifrost.Lib

/-- `none`: no hit with this fuel. -/
def bisect (probe : Nat → Ordering) : Nat → Nat → Nat → Option Nat
  | 0, _, _ => none
  | fuel + 1, front, rear =>
    match probe ((front + rear) / 2) with
    | .eq => some ((front + rear) / 2)
    | .lt => bisect probe fuel ((front + rear) / 2) rear
    | .gt => bisect probe fuel front ((front + rear) / 2)

/-- The points that a search of the interval can probe. -/
def Probed (front rear x : Nat) : Prop := front ≤ x ∧ (x < rear ∨ x = front)

/-- The probes between the two ends are in order. -/
def Ordered (probe : Nat → Ordering) (front rear : Nat) : Prop :=
  ∀ a b, front ≤ a → a ≤ b → b ≤ rear →
    (probe b = .lt → probe a = .lt) ∧ (probe a = .gt → probe b = .gt)

section Bisect

variable {probe : Nat → Ordering} {fuel front rear : Nat}

theorem probed_mid (h : front ≤ rear) : Probed front rear ((front + rear) / 2) := by
  unfold Probed
  omega

theorem Probed.of_right {m x : Nat} (hm : Probed front rear m) (hx : Probed m rear x) :
    Probed front rear x := by
  unfold Probed at *
  omega

theorem Probed.of_left {m x : Nat} (hm : Probed front rear m) (hx : Probed front m x) :
    Probed front rear x := by
  unfold Probed at *
  omega

theorem Probed.le (h : front ≤ rear) {x : Nat} (hx : Probed front rear x) : x ≤ rear := by
  unfold Probed at hx
  omega

/-- A hit is one, at a point that can be probed. -/
theorem bisect_hit (hle : front ≤ rear) {x : Nat} (h : bisect probe fuel front rear = some x) :
    Probed front rear x ∧ probe x = .eq := by
  induction fuel generalizing front rear with
  | zero => cases h
  | succ fuel ih =>
    have hm := probed_mid hle
    unfold bisect at h
    split at h
    · rename_i heq
      obtain rfl := Option.some.inj h
      exact ⟨hm, heq⟩
    · obtain ⟨hx, heq⟩ := ih (hm.le hle) h
      exact ⟨hm.of_right hx, heq⟩
    · obtain ⟨hx, heq⟩ := ih hm.1 h
      exact ⟨hm.of_left hx, heq⟩

/-- A hit of the half-open interval is found with fuel for its length. -/
theorem bisect_isSome (hord : Ordered probe front rear) {x : Nat} (hfront : front ≤ x)
    (hrear : x < rear) (hx : probe x = .eq) (hfuel : rear - front ≤ fuel) :
    (bisect probe fuel front rear).isSome := by
  induction fuel generalizing front rear with
  | zero => omega
  | succ fuel ih =>
    have hm : Probed front rear ((front + rear) / 2) := probed_mid (by omega)
    unfold bisect
    split
    · rfl
    · -- the hit is above the midpoint, which is then not the front
      rename_i hlt
      have hmx : (front + rear) / 2 < x := by
        by_contra hge
        have := (hord x _ hfront (by omega) (by omega)).1 hlt
        rw [hx] at this
        cases this
      exact ih (fun a b ha hab hb => hord a b (by omega) hab hb) hmx.le hrear (by omega)
    · rename_i hgt
      have hmx : x < (front + rear) / 2 := by
        by_contra hge
        have := (hord _ x hm.1 (by omega) hrear.le).2 hgt
        rw [hx] at this
        cases this
      exact ih (fun a b ha hab hb => hord a b ha hab (by omega)) hfront hmx (by omega)

/-- More fuel changes no result. -/
theorem bisect_mono {x : Nat} (h : bisect probe fuel front rear = some x) {fuel' : Nat}
    (hle : fuel ≤ fuel') : bisect probe fuel' front rear = some x := by
  induction fuel generalizing front rear fuel' with
  | zero => cases h
  | succ fuel ih =>
    obtain ⟨n, rfl⟩ : ∃ n, fuel' = n + 1 := ⟨fuel' - 1, by omega⟩
    unfold bisect at h ⊢
    split at h
    · exact h
    · exact ih h (by omega)
    · exact ih h (by omega)

/-- **Bisection**: the search of an interval ends if and only if it has a hit before its rear. -/
theorem bisect_isSome_iff (hlt : front < rear) (hord : Ordered probe front rear) :
    (∃ fuel, (bisect probe fuel front rear).isSome) ↔
      ∃ x, front ≤ x ∧ x < rear ∧ probe x = .eq := by
  constructor
  · rintro ⟨fuel, h⟩
    obtain ⟨x, hx⟩ := Option.isSome_iff_exists.mp h
    obtain ⟨hp, heq⟩ := bisect_hit hlt.le hx
    unfold Probed at hp
    exact ⟨x, hp.1, by omega, heq⟩
  · rintro ⟨x, hf, hr, hx⟩
    exact ⟨rear - front, bisect_isSome hord hf hr hx le_rfl⟩

/-- The search of any interval ends if and only if it has a hit that can be probed. -/
theorem bisect_ends_iff (hle : front ≤ rear) (hord : Ordered probe front rear) :
    (∃ fuel x, bisect probe fuel front rear = some x) ↔
      ∃ x, Probed front rear x ∧ probe x = .eq := by
  constructor
  · rintro ⟨fuel, x, h⟩
    exact ⟨x, bisect_hit hle h⟩
  · rintro ⟨x, ⟨hf, hr | rfl⟩, hx⟩
    · exact ⟨_, Option.isSome_iff_exists.mp (bisect_isSome hord hf hr hx le_rfl)⟩
    · rcases hle.eq_or_lt with rfl | hlt
      · -- the interval is the one point, which is its midpoint
        refine ⟨1, x, ?_⟩
        have hmid : (x + x) / 2 = x := by omega
        simp [bisect, hmid, hx]
      · exact ⟨_, Option.isSome_iff_exists.mp (bisect_isSome hord le_rfl hlt hx le_rfl)⟩

end Bisect

/-- A property of one end and not of the other is lost at some step between them. -/
theorem exists_lost {p : Nat → Prop} {a b : Nat} (hab : a ≤ b) (ha : p a) (hb : ¬ p b) :
    ∃ x, a ≤ x ∧ x < b ∧ p x ∧ ¬ p (x + 1) := by
  induction b, hab using Nat.le_induction with
  | base => exact absurd ha hb
  | succ b hab ih =>
    by_cases hpb : p b
    · exact ⟨b, hab, by omega, hpb, hb⟩
    · obtain ⟨x, hax, hxb, hx⟩ := ih hpb
      exact ⟨x, hax, by omega, hx⟩

end Bifrost.Lib
