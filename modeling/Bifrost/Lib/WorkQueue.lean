import Bifrost.Lib.Collections
import Bifrost.Lib.Run
import Mathlib.Algebra.BigOperators.Group.List.Basic
import Mathlib.Algebra.Order.Ring.Nat
import Mathlib.Data.List.Pairwise

/-!
# Work queues

A `Worker` takes one entry of a queue at a time, in any order, and leaves
others at its end. What all entries of its queue have and hand down, all entries
of a run have (`entries_of_run`). What a run can do is counted with budgets:
where every label pays its cost and the budgets of what it leaves out of the
budget of what it takes (`Pays`), a run costs at most the budget of its queue
(`cost_le`); where it pays exactly (`Settles`), the books balance (`cost_eq`).
`pairwise_entries` is for a queue with one entry of a kind, each of which leaves
at most one other.
-/

namespace Bifrost.Lib

variable {ε η : Type}

/-- The weight of a list. -/
def total (w : ε → Nat) (l : List ε) : Nat := (l.map w).sum

section Total

variable (w : ε → Nat) (l m : List ε)

@[simp] theorem total_nil : total w [] = 0 := rfl

@[simp] theorem total_cons (a : ε) : total w (a :: l) = w a + total w l := by
  simp [total]

@[simp] theorem total_append : total w (l ++ m) = total w l + total w m := by
  simp [total]

@[simp] theorem total_map {α : Type} (f : α → ε) (l : List α) :
    total w (l.map f) = total (fun a => w (f a)) l := by
  simp [total, Function.comp_def]

theorem total_eq_zero {w : ε → Nat} {l : List ε} (h : ∀ a ∈ l, w a = 0) : total w l = 0 := by
  induction l with
  | nil => rfl
  | cons a l ih =>
    have ha := h a List.mem_cons_self
    have hl := ih fun b hb => h b (List.mem_cons_of_mem a hb)
    rw [total_cons]
    omega

theorem total_indicator (p : ε → Bool) : total (fun a => if p a then 1 else 0) l = l.countP p := by
  induction l with
  | nil => rfl
  | cons a l ih => rw [total_cons, List.countP_cons, ih, Nat.add_comm]

/-- What weighs nothing may be left out. -/
theorem total_filter {w : ε → Nat} {p : ε → Bool} (h : ∀ a, p a = false → w a = 0) :
    total w (l.filter p) = total w l := by
  induction l with
  | nil => rfl
  | cons a l ih =>
    rw [List.filter_cons, total_cons]
    split
    · rw [total_cons, ih]
    · rename_i hp
      rw [h a (by simpa using hp), ih, Nat.zero_add]

theorem countP_le_total {w : ε → Nat} {p : ε → Bool} (h : ∀ a ∈ l, p a → 1 ≤ w a) :
    l.countP p ≤ total w l := by
  induction l with
  | nil => exact Nat.le_refl 0
  | cons a l ih =>
    have ih' := ih fun b hb => h b (List.mem_cons_of_mem a hb)
    rw [List.countP_cons, total_cons]
    split
    · rename_i hp
      have := h a List.mem_cons_self hp
      omega
    · omega

theorem total_flatMap {α : Type} (f : α → List ε) (l : List α) :
    total w (l.flatMap f) = total (fun a => total w (f a)) l := by
  induction l with
  | nil => rfl
  | cons a l ih => rw [List.flatMap_cons, total_append, total_cons, ih]

theorem total_add (v : ε → Nat) : total (fun a => v a + w a) l = total v l + total w l := by
  induction l with
  | nil => rfl
  | cons a l ih =>
    simp only [total_cons, ih]
    omega

/-- Where every item has an owner with its key, and no two owners share a key, the owners account
for the items. -/
theorem total_owned {ι ρ : Type} [DecidableEq ρ] {owners : List ε} {items : List ι} {key : ε → ρ}
    {of : ι → ρ} {f : ε → Nat} {g : ι → Nat} (hkeys : (owners.map key).Nodup)
    (hown : ∀ i ∈ items, ∃ a ∈ owners, key a = of i ∧ f a = g i) :
    total (fun a => f a * items.countP (of · = key a)) owners = total g items := by
  induction items with
  | nil => exact total_eq_zero fun a _ => Nat.mul_zero _
  | cons i items ih =>
    obtain ⟨b, hb, hkey, hf⟩ := hown i List.mem_cons_self
    have hone : total (fun a => if of i = key a then f a else 0) owners = g i := by
      have hfilter := filter_of_nodup_map hkeys hb
      calc total (fun a => if of i = key a then f a else 0) owners
          = total (fun a => if of i = key a then f a else 0)
              (owners.filter (key · = key b)) := by
            refine (total_filter _ fun a ha => if_neg fun h => ?_).symm
            exact absurd (h.symm.trans hkey.symm) (of_decide_eq_false ha)
        _ = g i := by rw [hfilter, total_cons, total_nil, if_pos hkey.symm, hf, Nat.add_zero]
    have hrest := ih fun i' hi' => hown i' (List.mem_cons_of_mem i hi')
    rw [total_cons, ← hone, ← hrest, ← total_add]
    refine congrArg (total · owners) (funext fun a => ?_)
    rw [List.countP_cons, Nat.mul_add, Nat.add_comm]
    by_cases h : of i = key a
    · simp [h]
    · simp [h]

theorem length_flatMap_le_total {α : Type} {w : ε → Nat} {p : ε → Bool} {f : ε → List α}
    (h : ∀ a ∈ l, p a → (f a).length ≤ w a) : ((l.filter p).flatMap f).length ≤ total w l := by
  induction l with
  | nil => exact Nat.le_refl 0
  | cons a l ih =>
    have ih' := ih fun b hb => h b (List.mem_cons_of_mem a hb)
    rw [List.filter_cons, total_cons]
    split
    · rename_i hp
      have := h a List.mem_cons_self hp
      rw [List.flatMap_cons, List.length_append]
      omega
    · omega

end Total

/-- What a label `h` of a queue takes and leaves; `ok h` where there is such a label. -/
structure Worker (ε η : Type) where
  entry : η → ε
  left : η → List ε
  ok : η → Prop

namespace Worker

variable (W : Worker ε η)

inductive Step : List ε → List η → List ε → Prop where
  | take (l₁ l₂ : List ε) (h : η) : W.ok h → Step (l₁ ++ W.entry h :: l₂) [h] (l₁ ++ l₂ ++ W.left h)
  | idle (q : List ε) : Step q [] q

def Pays (cost : η → Nat) (budget : ε → Nat) (h : η) : Prop :=
  cost h + total budget (W.left h) ≤ budget (W.entry h)

def Settles (cost : η → Nat) (budget : ε → Nat) (h : η) : Prop :=
  cost h + total budget (W.left h) = budget (W.entry h)

variable {W} {cost : η → Nat} {budget : ε → Nat} {q q' : List ε} {hs : List η}

/-- Every label of a run is one. -/
theorem ok_of_run (hrun : Run W.Step q hs q') : ∀ h ∈ hs, W.ok h := by
  refine Run.label (fun hstep h hh => ?_) hrun
  cases hstep with
  | take l₁ l₂ h' hok =>
    obtain rfl := List.mem_singleton.mp hh
    exact hok
  | idle q => cases hh

/-- What all entries of a queue have, and what labels hand down, all entries of a run have. -/
theorem entries_of_run {P : ε → Prop} (hrun : Run W.Step q hs q')
    (hleft : ∀ h ∈ hs, W.ok h → P (W.entry h) → ∀ a ∈ W.left h, P a) (hq : ∀ a ∈ q, P a) :
    (∀ h ∈ hs, P (W.entry h)) ∧ ∀ a ∈ q', P a := by
  induction hrun with
  | nil => exact ⟨List.forall_mem_nil _, hq⟩
  | cons hstep _ ih =>
    have ih' := ih fun h hh => hleft h (List.mem_append_right _ hh)
    cases hstep with
    | idle q => exact ih' hq
    | take l₁ l₂ h hok =>
      have hentry : P (W.entry h) := hq _ (by simp)
      obtain ⟨hms, hq'⟩ := ih' (by
        intro a ha
        rcases List.mem_append.mp ha with ha | ha
        · exact hq a (List.mem_append.mpr
            ((List.mem_append.mp ha).imp_right (List.mem_cons_of_mem _)))
        · exact hleft h (List.mem_append_left _ (List.mem_singleton_self h)) hok hentry a ha)
      refine ⟨fun h' hh => ?_, hq'⟩
      rcases List.mem_append.mp hh with hh | hh
      · rw [List.mem_singleton.mp hh]
        exact hentry
      · exact hms h' hh

/-- A run costs at most the budget of its queue. -/
theorem cost_le (hrun : Run W.Step q hs q') (hpay : ∀ h ∈ hs, W.Pays cost budget h) :
    total cost hs + total budget q' ≤ total budget q := by
  induction hrun with
  | nil => simp
  | cons hstep _ ih =>
    have ih' := ih fun h hh => hpay h (List.mem_append_right _ hh)
    cases hstep with
    | take l₁ l₂ h hok =>
      have hh := hpay h (List.mem_append_left _ (List.mem_singleton_self h))
      unfold Pays at hh
      simp only [total_append, total_cons, total_nil] at ih' ⊢
      omega
    | idle q => simpa using ih'

theorem cost_eq (hrun : Run W.Step q hs q') (hpay : ∀ h ∈ hs, W.Settles cost budget h) :
    total cost hs + total budget q' = total budget q := by
  induction hrun with
  | nil => simp
  | cons hstep _ ih =>
    have ih' := ih fun h hh => hpay h (List.mem_append_right _ hh)
    cases hstep with
    | take l₁ l₂ h hok =>
      have hh := hpay h (List.mem_append_left _ (List.mem_singleton_self h))
      unfold Settles at hh
      simp only [total_append, total_cons, total_nil] at ih' ⊢
      omega
    | idle q => simpa using ih'

/-- The one entry of its kind. -/
theorem filter_eq_toList {F : ε → Bool} {l₁ l₂ : List ε} {a : ε} {o : Option ε} (ha : F a = true)
    (h : (l₁ ++ a :: l₂).filter F = o.toList) :
    l₁.filter F = [] ∧ l₂.filter F = [] ∧ o = some a := by
  rw [List.filter_append, List.filter_cons, if_pos ha] at h
  cases o with
  | none => simp at h
  | some b =>
    rw [Option.toList_some, List.append_eq_singleton_iff] at h
    rcases h with ⟨h₁, h₂⟩ | ⟨-, h₂⟩
    · rw [List.cons.injEq] at h₂
      exact ⟨h₁, h₂.2, by rw [h₂.1]⟩
    · cases h₂

/-- A queue with at most one entry of the kind `F`, each of which leaves at most one other, in
relation `R`: the entries of the kind are taken in the order of `R`. -/
theorem pairwise_entries {F : ε → Bool} {R : ε → ε → Prop} (hrefl : ∀ a, R a a)
    (htrans : ∀ {a b c}, R a b → R b c → R a c)
    (hleft : ∀ h, W.ok h → F (W.entry h) = true →
      ∃ o : Option ε, (W.left h).filter F = o.toList ∧ ∀ a ∈ o, R (W.entry h) a)
    (hother : ∀ h, W.ok h → F (W.entry h) = false → (W.left h).filter F = [])
    (hrun : Run W.Step q hs q') {o : Option ε} (hq : q.filter F = o.toList) :
    ((hs.map W.entry).filter F).Pairwise R ∧
      ∀ a ∈ (hs.map W.entry).filter F, ∃ b ∈ o, R b a := by
  induction hrun generalizing o with
  | nil => exact ⟨.nil, fun a ha => by cases ha⟩
  | @cons _ _ _ _ ms hstep _ ih =>
    cases hstep with
    | idle q => exact ih hq
    | take l₁ l₂ h hok =>
      rw [List.map_append, List.filter_append, List.map_cons, List.map_nil]
      cases hF : F (W.entry h) with
      | false =>
        have hskip : [W.entry h].filter F = [] := by simp [hF]
        rw [hskip, List.nil_append]
        refine ih ?_
        rw [List.filter_append, List.filter_append, hother h hok hF, List.append_nil]
        simpa [hF] using hq
      | true =>
        -- the entry is the one of its kind, and what it leaves takes its place
        obtain ⟨h₁, h₂, rfl⟩ := filter_eq_toList hF hq
        obtain ⟨o', ho', hR⟩ := hleft h hok hF
        have hq' : (l₁ ++ l₂ ++ W.left h).filter F = o'.toList := by
          rw [List.filter_append, List.filter_append, h₁, h₂, ho']
          rfl
        obtain ⟨hpair, hfrom⟩ := ih hq'
        have hfrom' : ∀ a ∈ (ms.map W.entry).filter F, R (W.entry h) a := by
          intro a ha
          obtain ⟨b, hb, hba⟩ := hfrom a ha
          exact htrans (hR b hb) hba
        have hkeep : [W.entry h].filter F = [W.entry h] := by simp [hF]
        rw [hkeep, List.singleton_append]
        refine ⟨List.pairwise_cons.mpr ⟨hfrom', hpair⟩, fun a ha => ⟨_, rfl, ?_⟩⟩
        rcases List.mem_cons.mp ha with rfl | ha
        · exact hrefl _
        · exact hfrom' a ha

end Worker

end Bifrost.Lib
