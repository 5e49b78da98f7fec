import Mathlib.Data.List.Forall2
import Mathlib.Data.List.Induction
import Mathlib.Data.List.Sort
import Mathlib.Data.List.Nodup
import Mathlib.Data.List.Pairwise

/-!
# `sorted`, `list.index` and `dict`

`sorted l` is the stable ascending sort. Two lists with the same elements sort
to the same list. `index? l a` is `list.index`, `none` where the call raises.
A `Dict` keeps its items in insertion order; `insert` overwrites in place or
appends. `sortedItems` is `sorted(d.items())`: the keys of a dict are distinct,
so the items compare by key. A loop that raises at an element is `List.mapM` into
`Option`.
-/

namespace Bifrost.Lib

variable {α κ ν : Type}

section Sorted

variable [LinearOrder α]

def sorted (l : List α) : List α := l.insertionSort (· ≤ ·)

theorem sorted_perm (l : List α) : (sorted l).Perm l := List.perm_insertionSort _ l

@[simp] theorem length_sorted (l : List α) : (sorted l).length = l.length :=
  (sorted_perm l).length_eq

@[simp] theorem mem_sorted {l : List α} {a : α} : a ∈ sorted l ↔ a ∈ l := (sorted_perm l).mem_iff

theorem pairwise_sorted (l : List α) : (sorted l).Pairwise (· ≤ ·) :=
  List.pairwise_insertionSort _ l

theorem sorted_eq_iff {l m : List α} : sorted l = sorted m ↔ l.Perm m := by
  constructor
  · intro h
    have hm := sorted_perm m
    rw [← h] at hm
    exact (sorted_perm l).symm.trans hm
  · intro h
    exact List.Perm.eq_of_pairwise (fun a b _ _ => le_antisymm) (pairwise_sorted l)
      (pairwise_sorted m) (((sorted_perm l).trans h).trans (sorted_perm m).symm)

theorem nodup_sorted {l : List α} : (sorted l).Nodup ↔ l.Nodup := (sorted_perm l).nodup_iff

/-- A sorted list without repetitions is strictly increasing. -/
theorem pairwise_lt_sorted {l : List α} (h : l.Nodup) : (sorted l).Pairwise (· < ·) := by
  have hn := nodup_sorted.mpr h
  exact (pairwise_sorted l).imp₂ (fun _ _ => lt_of_le_of_ne) hn

/-- An order embedding may be applied before or after the sort. -/
theorem map_sorted {β : Type} [LinearOrder β] {f : α → β} (hf : ∀ a b, f a ≤ f b ↔ a ≤ b)
    (l : List α) : (sorted l).map f = sorted (l.map f) := by
  have hf' : ((sorted l).map f).Pairwise (· ≤ ·) :=
    List.pairwise_map.mpr ((pairwise_sorted l).imp fun h => (hf _ _).mpr h)
  refine List.Perm.eq_of_pairwise (fun a b _ _ => le_antisymm) hf' (pairwise_sorted _) ?_
  exact ((sorted_perm l).map f).trans (sorted_perm _).symm

end Sorted

section Index

variable [DecidableEq α]

def index? (l : List α) (a : α) : Option Nat := l.idxOf? a

theorem index?_isSome {l : List α} {a : α} : (index? l a).isSome ↔ a ∈ l := List.isSome_idxOf?

theorem getElem?_of_index? {l : List α} {a : α} {i : Nat} (h : index? l a = some i) :
    l[i]? = some a := by
  obtain ⟨hi, ha, -⟩ := List.idxOf?_eq_some_iff.mp h
  rw [List.getElem?_eq_getElem hi, ha]

/-- In a list without repetitions, the index of an element is its only position. -/
theorem index?_eq_some {l : List α} (hl : l.Nodup) {a : α} {i : Nat} :
    index? l a = some i ↔ l[i]? = some a := by
  constructor
  · exact getElem?_of_index?
  · intro h
    obtain ⟨hi, rfl⟩ := List.getElem?_eq_some_iff.mp h
    refine List.idxOf?_eq_some_iff.mpr ⟨hi, rfl, fun j hj heq => ?_⟩
    exact absurd ((hl.getElem_inj_iff).mp heq) (by omega)

theorem index?_lt {l : List α} {a : α} {i : Nat} (h : index? l a = some i) : i < l.length :=
  (List.getElem?_eq_some_iff.mp (getElem?_of_index? h)).1

end Index

/-- Elements with the same value under `f` are one where the values have no repetition. -/
theorem eq_of_nodup_filterMap {β : Type} {f : α → Option β} {l : List α}
    (hl : (l.filterMap f).Nodup) {a a' : α} (ha : a ∈ l) (ha' : a' ∈ l) {b : β}
    (hb : f a = some b) (hb' : f a' = some b) : a = a' := by
  have hpair := List.pairwise_filterMap.mp hl
  have : Std.Symm fun a a' => ∀ b, f a = some b → ∀ b', f a' = some b' → b ≠ b' :=
    ⟨fun a a' h b hb b' hb' => (h b' hb' b hb).symm⟩
  by_contra hne
  exact hpair.forall ha ha' hne b hb b hb' rfl

/-- Where the values of `f` have no repetition, one element has the value of `a`. -/
theorem filter_of_nodup_map {β : Type} [DecidableEq β] {f : α → β} {l : List α}
    (hl : (l.map f).Nodup) {a : α} (ha : a ∈ l) : l.filter (f · = f a) = [a] := by
  induction l with
  | nil => cases ha
  | cons b l ih =>
    rw [List.map_cons, List.nodup_cons] at hl
    rcases List.mem_cons.mp ha with rfl | ha
    · have hrest : l.filter (f · = f a) = [] := by
        rw [List.filter_eq_nil_iff]
        intro b hb hf
        exact hl.1 (of_decide_eq_true hf ▸ List.mem_map_of_mem hb)
      rw [List.filter_cons_of_pos (by simp), hrest]
    · have hb : f b ≠ f a := fun h => hl.1 (h ▸ List.mem_map_of_mem ha)
      rw [List.filter_cons_of_neg (by simpa using hb), ih hl.2 ha]

/-- Where `f` decreases along a list, the first element with a property is the greatest. -/
theorem find?_greatest {f : α → Nat} {l : List α} (hl : l.Pairwise fun a b => f b < f a)
    {p : α → Bool} {a : α} (h : l.find? p = some a) : ∀ b ∈ l, p b → f b ≤ f a := by
  obtain ⟨-, l₁, l₂, rfl, hnot⟩ := List.find?_eq_some_iff_append.mp h
  intro b hb hp
  rw [List.pairwise_append, List.pairwise_cons] at hl
  rcases List.mem_append.mp hb with hb | hb
  · have := hnot b hb
    rw [hp] at this
    cases this
  · rcases List.mem_cons.mp hb with rfl | hb
    · exact le_rfl
    · exact (hl.2.1.1 b hb).le

section MapM

variable {β : Type} {f : α → Option β} {l : List α} {m : List β}

theorem mapM_eq_some_iff : l.mapM f = some m ↔ List.Forall₂ (fun a b => f a = some b) l m := by
  constructor
  · intro h
    induction l generalizing m with
    | nil =>
      cases h
      exact .nil
    | cons a l ih =>
      rw [List.mapM_cons] at h
      obtain ⟨b, hb, h⟩ := Option.bind_eq_some_iff.mp h
      obtain ⟨m, hm, h⟩ := Option.bind_eq_some_iff.mp h
      cases h
      exact .cons hb (ih hm)
  · intro h
    induction h with
    | nil => rfl
    | cons hb _ ih => simp [hb, ih]

theorem length_of_mapM (h : l.mapM f = some m) : m.length = l.length :=
  (mapM_eq_some_iff.mp h).length_eq.symm

theorem getElem?_of_mapM (h : l.mapM f = some m) (i : Nat) : m[i]? = l[i]?.bind f := by
  induction mapM_eq_some_iff.mp h generalizing i with
  | nil => rfl
  | cons hb hrest ih =>
    cases i with
    | zero => exact hb.symm
    | succ i => exact ih (mapM_eq_some_iff.mpr hrest) i

theorem mapM_eq_none_iff : l.mapM f = none ↔ ∃ a ∈ l, f a = none := by
  induction l with
  | nil => simp
  | cons a l ih =>
    have hcons : (a :: l).mapM f = none ↔ f a = none ∨ l.mapM f = none := by
      rw [List.mapM_cons]
      cases f a <;> cases l.mapM f <;> simp
    simp only [hcons, ih, List.exists_mem_cons_iff]

end MapM

abbrev Dict (κ ν : Type) := List (κ × ν)

namespace Dict

variable [LinearOrder κ]

/-- `d[k] = v`. -/
def insert (k : κ) (v : ν) : Dict κ ν → Dict κ ν
  | [] => [(k, v)]
  | p :: d => if p.1 = k then (k, v) :: d else p :: insert k v d

/-- The dict after the assignments `d[k] = v` of a list, in order. -/
def ofList (l : List (κ × ν)) : Dict κ ν := l.foldl (fun d p => insert p.1 p.2 d) []

def sortedItems (d : Dict κ ν) : List (κ × ν) := List.insertionSort (fun p q => p.1 ≤ q.1) d

theorem keys_insert (k : κ) (v : ν) (d : Dict κ ν) :
    (insert k v d).map Prod.fst = if k ∈ d.map Prod.fst then d.map Prod.fst
      else d.map Prod.fst ++ [k] := by
  induction d with
  | nil => simp [insert]
  | cons p d ih =>
    rw [insert]
    by_cases h : p.1 = k
    · simp [h]
    · have h' : ¬ k = p.1 := fun e => h e.symm
      by_cases hm : k ∈ d.map Prod.fst <;> simp_all

theorem nodup_insert {k : κ} {v : ν} {d : Dict κ ν} (h : (d.map Prod.fst).Nodup) :
    ((insert k v d).map Prod.fst).Nodup := by
  rw [keys_insert]
  split
  · exact h
  · next hk =>
    refine List.nodup_append.mpr ⟨h, List.nodup_singleton k, ?_⟩
    intro a ha b hb hab
    rw [List.mem_singleton] at hb
    exact hk (by rwa [← hb, ← hab])

theorem nodup_foldl (l : List (κ × ν)) {d : Dict κ ν} (h : (d.map Prod.fst).Nodup) :
    ((l.foldl (fun d p => insert p.1 p.2 d) d).map Prod.fst).Nodup := by
  induction l generalizing d with
  | nil => exact h
  | cons p l ih => exact ih (nodup_insert h)

theorem nodup_ofList (l : List (κ × ν)) : ((ofList l).map Prod.fst).Nodup :=
  nodup_foldl l List.nodup_nil

/-- Where the keys are distinct, an assignment takes the place of the old item of its key. -/
theorem mem_insert_of_nodup {k : κ} {v : ν} {d : Dict κ ν} (hd : (d.map Prod.fst).Nodup)
    (q : κ × ν) : q ∈ insert k v d ↔ q = (k, v) ∨ q ∈ d ∧ q.1 ≠ k := by
  induction d with
  | nil => simp [insert]
  | cons p d ih =>
    rw [List.map_cons, List.nodup_cons] at hd
    have ih' := ih hd.2
    rw [insert]
    by_cases h : p.1 = k
    · subst h
      have hne : ∀ q ∈ d, q.1 ≠ p.1 := fun q hq he => hd.1 (he ▸ List.mem_map_of_mem hq)
      rw [if_pos rfl, List.mem_cons, List.mem_cons]
      constructor
      · rintro (hq | hq)
        · exact .inl hq
        · exact .inr ⟨.inr hq, hne q hq⟩
      · rintro (hq | ⟨rfl | hq, hk⟩)
        · exact .inl hq
        · exact absurd rfl hk
        · exact .inr hq
    · rw [if_neg h, List.mem_cons, List.mem_cons, ih']
      constructor
      · rintro (rfl | hq | hq)
        · exact .inr ⟨.inl rfl, h⟩
        · exact .inl hq
        · exact .inr ⟨.inr hq.1, hq.2⟩
      · rintro (hq | ⟨hq | hq, hk⟩)
        · exact .inr (.inl hq)
        · exact .inl hq
        · exact .inr (.inr ⟨hq, hk⟩)

theorem ofList_concat (l : List (κ × ν)) (p : κ × ν) :
    ofList (l ++ [p]) = insert p.1 p.2 (ofList l) := by
  simp [ofList]

/-- A dict holds the last assignment to each key. -/
theorem mem_ofList_iff {l : List (κ × ν)} {q : κ × ν} :
    q ∈ ofList l ↔ ∃ l₁ l₂, l = l₁ ++ q :: l₂ ∧ ∀ p ∈ l₂, p.1 ≠ q.1 := by
  induction l using List.reverseRecOn with
  | nil => simp [ofList]
  | append_singleton l p ih =>
    rw [ofList_concat, mem_insert_of_nodup (nodup_ofList l), ih]
    constructor
    · rintro (rfl | ⟨⟨l₁, l₂, rfl, hl⟩, hk⟩)
      · exact ⟨l, [], rfl, fun _ h => by cases h⟩
      · refine ⟨l₁, l₂ ++ [p], by simp, fun p' hp' => ?_⟩
        rcases List.mem_append.mp hp' with hp' | hp'
        · exact hl p' hp'
        · rw [List.mem_singleton.mp hp']
          exact hk.symm
    · rintro ⟨l₁, l₂, heq, hl⟩
      rcases List.eq_nil_or_concat l₂ with rfl | ⟨l₂, x, rfl⟩
      · exact .inl (List.singleton_inj.mp (List.append_inj' heq rfl).2.symm)
      · rw [List.concat_eq_append, ← List.cons_append, ← List.append_assoc] at heq
        obtain ⟨rfl, hx⟩ := List.append_inj' heq rfl
        obtain rfl : p = x := by simpa using hx
        exact .inr ⟨⟨l₁, l₂, rfl, fun p' hp' => hl p' (by simp [hp'])⟩, (hl p (by simp)).symm⟩

/-- A dict has the keys that were assigned to. -/
theorem mem_keys_ofList {l : List (κ × ν)} {k : κ} :
    k ∈ (ofList l).map Prod.fst ↔ k ∈ l.map Prod.fst := by
  induction l using List.reverseRecOn with
  | nil => rfl
  | append_singleton l p ih =>
    rw [ofList_concat, keys_insert, List.map_append, List.mem_append, ← ih]
    split
    · rename_i hp
      constructor
      · exact .inl
      · rintro (hk | hk)
        · exact hk
        · rw [List.mem_singleton.mp hk]
          exact hp
    · rw [List.mem_append]
      simp

/-- When a key determines its item, a dict has the items it was built from. -/
theorem mem_ofList {l : List (κ × ν)} (hl : ∀ p ∈ l, ∀ q ∈ l, p.1 = q.1 → p = q) (q : κ × ν) :
    q ∈ ofList l ↔ q ∈ l := by
  have hsub : ∀ p ∈ ofList l, p ∈ l := by
    intro p hp
    obtain ⟨l₁, l₂, rfl, -⟩ := mem_ofList_iff.mp hp
    simp
  refine ⟨hsub q, fun hq => ?_⟩
  obtain ⟨p, hp, hk⟩ := List.mem_map.mp (mem_keys_ofList.mpr (List.mem_map_of_mem hq))
  rwa [← hl p (hsub p hp) q hq hk]

/-- Assignments to distinct keys are the items of the dict. -/
theorem ofList_of_nodup {l : List (κ × ν)} (hl : (l.map Prod.fst).Nodup) : ofList l = l := by
  induction l using List.reverseRecOn with
  | nil => rfl
  | append_singleton l p ih =>
    rw [List.map_append, List.nodup_append] at hl
    obtain ⟨hl, -, hp⟩ := hl
    have hnew : ∀ q ∈ l, q.1 ≠ p.1 := fun q hq => hp q.1 (List.mem_map_of_mem hq) p.1 (by simp)
    rw [ofList_concat, ih hl]
    clear ih hl hp
    induction l with
    | nil => rfl
    | cons q l ih =>
      rw [insert, if_neg (hnew q List.mem_cons_self),
        ih fun q' hq' => hnew q' (List.mem_cons_of_mem _ hq')]
      rfl

theorem sortedItems_perm (d : Dict κ ν) : (sortedItems d).Perm d := List.perm_insertionSort _ d

theorem pairwise_sortedItems (d : Dict κ ν) :
    (sortedItems d).Pairwise fun p q => p.1 ≤ q.1 := by
  have : Std.Total (fun p q : κ × ν => p.1 ≤ q.1) := ⟨fun p q => le_total p.1 q.1⟩
  have : IsTrans (κ × ν) (fun p q => p.1 ≤ q.1) := ⟨fun _ _ _ => le_trans⟩
  exact List.pairwise_insertionSort _ d

/-- The items of a dict stand in strictly increasing order of their keys. -/
theorem pairwise_lt_sortedItems {d : Dict κ ν} (hd : (d.map Prod.fst).Nodup) :
    (sortedItems d).Pairwise fun p q => p.1 < q.1 := by
  have hn : (sortedItems d).Pairwise fun p q => p.1 ≠ q.1 :=
    List.pairwise_map.mp (((sortedItems_perm d).map Prod.fst).nodup_iff.mpr hd)
  exact (pairwise_sortedItems d).imp₂ (fun _ _ => lt_of_le_of_ne) hn

theorem sortedItems_of_pairwise {d : Dict κ ν} (hd : d.Pairwise fun p q => p.1 ≤ q.1) :
    sortedItems d = d :=
  List.Pairwise.insertionSort_eq hd

/-- The order in which the keys were inserted does not matter to the sort. -/
theorem sortedItems_congr {d d' : Dict κ ν} (hperm : d.Perm d') (hd : (d.map Prod.fst).Nodup) :
    sortedItems d = sortedItems d' := by
  have hperm' := ((sortedItems_perm d).trans hperm).trans (sortedItems_perm d').symm
  refine hperm'.eq_of_pairwise (fun p q hp hq hpq hqp => ?_) (pairwise_sortedItems d)
    (pairwise_sortedItems d')
  exact List.inj_on_of_nodup_map hd ((sortedItems_perm d).mem_iff.mp hp)
    (hperm.mem_iff.mpr ((sortedItems_perm d').mem_iff.mp hq)) (le_antisymm hpq hqp)

end Dict

end Bifrost.Lib
