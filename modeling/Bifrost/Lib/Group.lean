import Bifrost.Lib.Collections

/-!
# Grouping by a key

`push k a d` is `d[k] = [a]` where the key is absent and `d[k].append(a)` where
it is present; `group key l` groups a list with it. The group of a key is the
sublist of the elements that have it (`mem_group_iff`), and every key has one
group (`nodup_group`).
-/

namespace Bifrost.Lib.Dict

variable {α κ ν : Type} [LinearOrder κ]

/-! ## Looking a key up -/

theorem lookup_cons (k : κ) (p : κ × ν) (d : Dict κ ν) :
    List.lookup k (p :: d) = if k = p.1 then some p.2 else d.lookup k := by
  rw [List.lookup_cons]
  by_cases h : k = p.1
  · rw [if_pos h, beq_iff_eq.mpr h]
  · rw [if_neg h, beq_eq_false_iff_ne.mpr h]

theorem lookup_insert (k k' : κ) (v : ν) (d : Dict κ ν) :
    (insert k v d).lookup k' = if k' = k then some v else d.lookup k' := by
  induction d with
  | nil => exact lookup_cons k' (k, v) []
  | cons p d ih =>
    rw [insert]
    by_cases hp : p.1 = k
    · rw [if_pos hp, lookup_cons, lookup_cons, hp]
      split <;> rfl
    · rw [if_neg hp, lookup_cons, lookup_cons, ih]
      by_cases h : k' = p.1
      · have hk : k' ≠ k := fun he => hp (h ▸ he)
        rw [if_pos h, if_neg hk, if_pos h]
      · rw [if_neg h, if_neg h]

omit [LinearOrder κ] in
theorem lookup_eq_some [BEq κ] [LawfulBEq κ] {k : κ} {v : ν} {d : Dict κ ν}
    (hd : (d.map Prod.fst).Nodup) : d.lookup k = some v ↔ (k, v) ∈ d := by
  induction d with
  | nil => simp
  | cons p d ih =>
    rw [List.map_cons, List.nodup_cons] at hd
    rw [List.lookup_cons, List.mem_cons, Prod.ext_iff]
    by_cases h : k = p.1
    · subst h
      have hk : (p.1, v) ∉ d := fun hm => hd.1 (List.mem_map.mpr ⟨_, hm, rfl⟩)
      simp [hk, eq_comm]
    · rw [beq_eq_false_iff_ne.mpr h]
      simp [h, ih hd.2]

/-! ## Groups -/

def push (k : κ) (a : α) (d : Dict κ (List α)) : Dict κ (List α) :=
  match d.lookup k with
  | none => insert k [a] d
  | some xs => insert k (xs ++ [a]) d

def group (key : α → κ) (l : List α) : Dict κ (List α) :=
  l.foldl (fun d a => push (key a) a d) []

theorem push_eq (k : κ) (a : α) (d : Dict κ (List α)) :
    push k a d = insert k ((d.lookup k).getD [] ++ [a]) d := by
  unfold push
  split
  · rename_i h
    rw [h, Option.getD_none, List.nil_append]
  · rename_i h
    rw [h, Option.getD_some]

theorem group_concat (key : α → κ) (l : List α) (a : α) :
    group key (l ++ [a]) = push (key a) a (group key l) := by
  simp [group]

theorem nodup_group (key : α → κ) (l : List α) : ((group key l).map Prod.fst).Nodup := by
  induction l using List.reverseRecOn with
  | nil => exact List.nodup_nil
  | append_singleton l a ih =>
    rw [group_concat, push_eq]
    exact nodup_insert ih

theorem lookup_group (key : α → κ) (l : List α) (k : κ) : (group key l).lookup k =
    if l.filter (key · = k) = [] then none else some (l.filter (key · = k)) := by
  induction l using List.reverseRecOn with
  | nil => rfl
  | append_singleton l a ih =>
    rw [group_concat, push_eq, lookup_insert, List.filter_append]
    by_cases h : k = key a
    · subst h
      have hget : ((group key l).lookup (key a)).getD [] = l.filter (key · = key a) := by
        rw [ih]
        split
        · rename_i hnil
          rw [hnil, Option.getD_none]
        · rfl
      simp [hget]
    · have hskip : [a].filter (key · = k) = [] := by simp [Ne.symm h]
      rw [if_neg h, ih, hskip, List.append_nil]

/-- **Grouping**: the groups are the non-empty sublists of the elements with one key. -/
theorem mem_group_iff {key : α → κ} {l : List α} {k : κ} {xs : List α} :
    (k, xs) ∈ group key l ↔ xs ≠ [] ∧ xs = l.filter (key · = k) := by
  rw [← lookup_eq_some (nodup_group key l), lookup_group]
  split
  · rename_i h
    rw [h]
    simp
  · rename_i h
    rw [Option.some_inj, eq_comm]
    exact ⟨fun he => ⟨he ▸ h, he⟩, And.right⟩

theorem mem_of_mem_group {key : α → κ} {l : List α} {p : κ × List α} (hp : p ∈ group key l) :
    p.2 ≠ [] ∧ ∀ a, a ∈ p.2 ↔ a ∈ l ∧ key a = p.1 := by
  obtain ⟨hne, heq⟩ := mem_group_iff.mp hp
  refine ⟨hne, fun a => ?_⟩
  rw [heq, List.mem_filter, decide_eq_true_eq]

/-- Every element has its group. -/
theorem exists_mem_group (key : α → κ) {l : List α} {a : α} (ha : a ∈ l) :
    ∃ p ∈ group key l, p.1 = key a := by
  refine ⟨(key a, l.filter (key · = key a)), mem_group_iff.mpr ⟨?_, rfl⟩, rfl⟩
  exact List.ne_nil_of_mem (List.mem_filter.mpr ⟨ha, decide_eq_true rfl⟩)

end Bifrost.Lib.Dict
