import Bifrost.Submits.Signature
import Mathlib.Data.List.Dedup

/-!
# What `_sort_sigs` leaves of any batch

Whatever the recovery function, the sorted batch has one signature for each
address the batch recovers to, the last one that came in, in strictly increasing
order of the addresses (`sortSigs_strict`). Sorting it again changes nothing.
-/

namespace Bifrost

open Bifrost.Lib

/-- The signatures of a batch, in order. -/
def SocketSignature.list (a : SocketSignature) : List SingleSig :=
  List.ofFn fun i : Fin a.size =>
    ⟨a.sigs.rs.get ⟨i, i.isLt.trans_eq a.size_rs.symm⟩,
      a.sigs.ss.get ⟨i, i.isLt.trans_eq a.size_ss.symm⟩,
      a.sigs.vs.get ⟨i, i.isLt.trans_eq a.size_vs.symm⟩⟩

@[simp] theorem SocketSignature.list_ofSigs (l : List SingleSig) : (ofSigs l).list = l := by
  apply List.ext_getElem
  · simp [list]
  · intro i h₁ h₂
    simp [list, ofSigs, SigTuple.ofSigs]

/-- Every batch is the batch of its signatures. -/
theorem SocketSignature.ofSigs_list (a : SocketSignature) : ofSigs a.list = a := by
  obtain ⟨⟨rs, ss, vs⟩, n, hr, hs, hv⟩ := a
  apply ext
  simp only [ofSigs, SigTuple.ofSigs, list, List.map_ofFn, SigTuple.mk.injEq]
  refine ⟨?_, ?_, ?_⟩
  · apply List.ext_getElem
    · simpa using hr.symm
    · intro i h₁ h₂
      simp
  · apply List.ext_getElem
    · simpa using hs.symm
    · intro i h₁ h₂
      simp
  · apply List.ext_getElem
    · simpa using hv.symm
    · intro i h₁ h₂
      simp

namespace SubmitWithSig

variable (lib : EthLib) (msg : Bytes)

/-- Sorting never raises. -/
theorem sortSigs_ne_none (a : SocketSignature) : sortSigs lib msg a ≠ none := by
  rw [← a.ofSigs_list]
  by_cases hl : a.list.length = 1
  · rw [sortSigs, if_pos (by simpa using hl)]
    exact Option.some_ne_none _
  · rw [sortSigs_ofSigs lib msg hl]
    exact Option.some_ne_none _

/-- The addresses that the signatures of a batch recover to. -/
def signers (a : SocketSignature) : List Address := a.list.map (signer lib msg)

/-- The items of the dict of `_sort_sigs`, in the order of their keys. -/
def sortedSigs (l : List SingleSig) : List (Str × SingleSig) :=
  (Dict.ofList (l.map fun g => (sigKey lib msg g, g))).sortedItems

variable {lib msg} {l m : List SingleSig}

theorem sigKey_inj {g g' : SingleSig} (h : sigKey lib msg g = sigKey lib msg g') :
    signer lib msg g = signer lib msg g' :=
  Address.hex_inj h

theorem fst_sortedSigs {p : Str × SingleSig} (hp : p ∈ sortedSigs lib msg l) :
    p.1 = sigKey lib msg p.2 := by
  have hmem := (Dict.sortedItems_perm _).mem_iff.mp hp
  obtain ⟨l₁, l₂, heq, -⟩ := Dict.mem_ofList_iff.mp hmem
  have hin : p ∈ l.map fun g => (sigKey lib msg g, g) := by
    rw [heq]
    exact List.mem_append_right _ List.mem_cons_self
  obtain ⟨g, -, rfl⟩ := List.mem_map.mp hin
  rfl

/-- The keys of the sorted items strictly increase, and so do the addresses. -/
theorem pairwise_sortedSigs (l : List SingleSig) :
    (((sortedSigs lib msg l).map Prod.snd).map (signer lib msg)).Pairwise
      fun x y => x.num < y.num := by
  rw [List.map_map, List.pairwise_map]
  refine (Dict.pairwise_lt_sortedItems (Dict.nodup_ofList _)).imp_of_mem ?_
  intro p q hp hq hlt
  rw [fst_sortedSigs hp, fst_sortedSigs hq] at hlt
  exact (Address.hex_lt_iff _ _).mp hlt

theorem mem_signers_sortedSigs {x : Address} :
    x ∈ ((sortedSigs lib msg l).map Prod.snd).map (signer lib msg) ↔
      x ∈ l.map (signer lib msg) := by
  have hkeys : ∀ k, k ∈ (sortedSigs lib msg l).map Prod.fst ↔ k ∈ l.map (sigKey lib msg) := by
    intro k
    rw [sortedSigs, ((Dict.sortedItems_perm _).map Prod.fst).mem_iff, Dict.mem_keys_ofList,
      List.map_map]
    rfl
  constructor
  · intro hx
    obtain ⟨g, hg, rfl⟩ := List.mem_map.mp hx
    obtain ⟨p, hp, rfl⟩ := List.mem_map.mp hg
    have hk := (hkeys p.1).mp (List.mem_map_of_mem hp)
    obtain ⟨g, hg, hgk⟩ := List.mem_map.mp hk
    rw [fst_sortedSigs hp] at hgk
    exact List.mem_map.mpr ⟨g, hg, sigKey_inj hgk⟩
  · intro hx
    obtain ⟨g, hg, rfl⟩ := List.mem_map.mp hx
    have hk := (hkeys (sigKey lib msg g)).mpr (List.mem_map_of_mem hg)
    obtain ⟨p, hp, hpk⟩ := List.mem_map.mp hk
    rw [fst_sortedSigs hp] at hpk
    refine List.mem_map.mpr ⟨p.2, List.mem_map_of_mem hp, sigKey_inj hpk⟩

/-- Each signature left is the last one of its signer. -/
theorem last_of_mem_sortedSigs {g : SingleSig} (hg : g ∈ (sortedSigs lib msg l).map Prod.snd) :
    ∃ l₁ l₂, l = l₁ ++ g :: l₂ ∧ ∀ g' ∈ l₂, signer lib msg g' ≠ signer lib msg g := by
  obtain ⟨p, hp, rfl⟩ := List.mem_map.mp hg
  have hmem := (Dict.sortedItems_perm _).mem_iff.mp hp
  obtain ⟨m₁, m₂, heq, hlast⟩ := Dict.mem_ofList_iff.mp hmem
  obtain ⟨l₁, l', rfl, rfl, h'⟩ := List.map_eq_append_iff.mp heq
  obtain ⟨g, l₂, rfl, rfl, rfl⟩ := List.map_eq_cons_iff.mp h'
  refine ⟨l₁, l₂, rfl, fun g' hg' hsame => ?_⟩
  refine hlast (sigKey lib msg g', g') (List.mem_map_of_mem hg') ?_
  show (signer lib msg g').hex = (signer lib msg g).hex
  rw [hsame]

/-- Distinct signers: the dict is the batch, and its order does not matter. -/
theorem sortedSigs_congr (hperm : m.Perm l) (hnodup : (l.map (signer lib msg)).Nodup) :
    sortedSigs lib msg m = sortedSigs lib msg l := by
  have hkeys : ∀ {k : List SingleSig}, (k.map (signer lib msg)).Nodup →
      ((k.map fun g => (sigKey lib msg g, g)).map Prod.fst).Nodup := by
    intro k hk
    rw [List.map_map]
    have := hk.map fun _ _ => Address.hex_inj
    rwa [List.map_map] at this
  have hm := hkeys ((hperm.map (signer lib msg)).nodup_iff.mpr hnodup)
  have hl := hkeys hnodup
  rw [sortedSigs, sortedSigs, Dict.ofList_of_nodup hm, Dict.ofList_of_nodup hl]
  exact Dict.sortedItems_congr (hperm.map _) hm

/-- A batch that is sorted stays as it is. -/
theorem sortSigs_sorted (h : (l.map (signer lib msg)).Pairwise fun x y => x.num < y.num) :
    sortSigs lib msg (.ofSigs l) = some (.ofSigs l) := by
  by_cases h1 : l.length = 1
  · rw [sortSigs, if_pos (by simpa using h1)]
  · have hlt : (l.map fun g => (sigKey lib msg g, g)).Pairwise fun p q => p.1 < q.1 := by
      rw [List.pairwise_map] at h ⊢
      exact h.imp fun hn => (Address.hex_lt_iff _ _).mpr hn
    have hnodup : ((l.map fun g => (sigKey lib msg g, g)).map Prod.fst).Nodup :=
      List.pairwise_map.mpr (hlt.imp fun h => h.ne)
    rw [sortSigs_ofSigs lib msg h1, Dict.ofList_of_nodup hnodup,
      Dict.sortedItems_of_pairwise (hlt.imp fun h => h.le), List.map_map]
    simp [Function.comp_def]

/-- **Canonical signatures.** On a batch of another size than one, `_sort_sigs` leaves the last
signature of each signer, in strictly increasing order of the addresses. -/
theorem sortSigs_strict (lib : EthLib) (msg : Bytes) {a : SocketSignature} (ha : a.size ≠ 1) :
    ∃ b, sortSigs lib msg a = some b ∧
      ((signers lib msg b).Pairwise fun x y => x.num < y.num) ∧
      (∀ x, x ∈ signers lib msg b ↔ x ∈ signers lib msg a) ∧
      (∀ g ∈ b.list, ∃ l₁ l₂, a.list = l₁ ++ g :: l₂ ∧
        ∀ g' ∈ l₂, signer lib msg g' ≠ signer lib msg g) ∧
      b.size = (signers lib msg a).dedup.length ∧
      ((signers lib msg a).Nodup → ∀ a' : SocketSignature, a'.list.Perm a.list →
        sortSigs lib msg a' = some b) ∧
      sortSigs lib msg b = some b := by
  have hlen : a.list.length ≠ 1 := by simpa [SocketSignature.list] using ha
  let b : List SingleSig := (sortedSigs lib msg a.list).map Prod.snd
  have hsort : sortSigs lib msg a = some (.ofSigs b) := by
    rw [← a.ofSigs_list, sortSigs_ofSigs lib msg hlen]
    rfl
  have hstrict : (b.map (signer lib msg)).Pairwise fun x y => x.num < y.num :=
    pairwise_sortedSigs a.list
  have hmem : ∀ x, x ∈ b.map (signer lib msg) ↔ x ∈ signers lib msg a :=
    fun x => mem_signers_sortedSigs
  refine ⟨.ofSigs b, hsort, ?_, ?_, ?_, ?_, ?_, sortSigs_sorted hstrict⟩
  · simpa [signers] using hstrict
  · simpa [signers] using hmem
  · rw [SocketSignature.list_ofSigs]
    exact fun g hg => last_of_mem_sortedSigs hg
  · have hnodup : (b.map (signer lib msg)).Nodup := hstrict.imp fun h heq => by
      rw [heq] at h
      exact lt_irrefl _ h
    have hperm : (b.map (signer lib msg)).Perm (signers lib msg a).dedup :=
      (List.perm_ext_iff_of_nodup hnodup (List.nodup_dedup _)).mpr fun x => by
        rw [hmem, List.mem_dedup]
    rw [SocketSignature.size_ofSigs, ← hperm.length_eq, List.length_map (signer lib msg)]
  · intro hnodup a' hperm
    have hlen' : a'.list.length ≠ 1 := by rwa [hperm.length_eq]
    rw [← a'.ofSigs_list, sortSigs_ofSigs lib msg hlen']
    show some (SocketSignature.ofSigs ((sortedSigs lib msg a'.list).map Prod.snd)) = _
    rw [sortedSigs_congr hperm hnodup]

end SubmitWithSig

namespace Sample

/-- Recovers to the address whose bytes are all `r`. -/
def byR : EthLib := ⟨fun r _ _ _ => ⟨List.replicate 20 (byteOf r), by simp⟩, id⟩

def threeSigs : SocketSignature :=
  .ofSigs [⟨ethHashBytes 2, ethHashBytes 7, byteOf 27⟩, ⟨ethHashBytes 1, ethHashBytes 8, byteOf 28⟩,
    ⟨ethHashBytes 2, ethHashBytes 9, byteOf 27⟩]

end Sample

open SubmitWithSig in
/-- Two signatures of one signer, and one of a signer with a smaller address. -/
theorem SubmitWithSig.sortSigs_strict_three : ∃ b,
    sortSigs Sample.byR [] Sample.threeSigs = some b ∧
      b.size = (signers Sample.byR [] Sample.threeSigs).dedup.length := by
  obtain ⟨b, hb, -, -, -, hsize, -⟩ := sortSigs_strict Sample.byR [] (a := Sample.threeSigs)
    (by decide)
  exact ⟨b, hb, hsize⟩

end Bifrost
