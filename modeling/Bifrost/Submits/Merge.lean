import Bifrost.Submits.Canonical
import Bifrost.Submits.Objects

/-!
# What `merge_sigs` does to shared objects

`SigSpec` says what the calls are for: a store of batches as values, where
`merge` replaces one of them. `Refines` connects it to the heap: every object has
a `__sigs` list of its own, every such list two lists of its own, and these hold
the batch. Each call keeps it (`SigStep.refines`), whatever was called before and
whether it returns or raises.
-/

namespace Bifrost

open Bifrost.Lib

structure SigSpec where
  objs : Store SocketSignature
  submits : Store Nat

/-- `([EthHashBytes(r)], [EthHashBytes(s)], EthHexBytes(v))`, where the conversions return. -/
def HexLib.single (lib : HexLib) (r s v : Int) : Option SigTuple :=
  (lib.ethHashBytes r).bind fun r => (lib.ethHashBytes s).bind fun s =>
    (lib.ethHexBytes v).map fun v => ⟨[r], [s], v⟩

namespace SigSpec

def empty : SigSpec := ⟨.empty .init, .empty 0⟩

def new (A : SigSpec) (g : SocketSignature) : SigSpec := { A with objs := A.objs.alloc g }

def merge (A : SigSpec) (a b : Nat) : SigSpec :=
  { A with objs := A.objs.set a ((A.objs.get a).mergeSigs (A.objs.get b)) }

/-- A construction, which leaves everything as it was where it raises. -/
def construct (A : SigSpec) (t : Option SigTuple) : SigSpec :=
  (t.bind SocketSignature.ofTuple).elim A A.new

/-- A construction that is merged into the batch of `u`. -/
def add (A : SigSpec) (u : Nat) (t : Option SigTuple) : SigSpec :=
  (t.bind SocketSignature.ofTuple).elim A fun g => (A.new g).merge (A.submits.get u) A.objs.next

def read (A : SigSpec) : Decoded → SigTuple
  | .data t => t
  | .tupleOf a => (A.objs.get a).sigs

def exec (lib : HexLib) (A : SigSpec) : SigOp → SigSpec
  | .construct d => A.construct (some (A.read d))
  | .init => A.new .init
  | .fromSingleSig r s v => A.construct (lib.single r s v)
  | .mergeSigs a b => A.merge a b
  | .submit => { A.new .init with submits := A.submits.alloc A.objs.next }
  | .addSingleSig u r s v => A.add u (lib.single r s v)
  | .addSigs u b => A.merge (A.submits.get u) b
  | .addTupleSigs u d => A.add u (some (A.read d))

end SigSpec

/-! ## Values -/

namespace SocketSignature

theorem ofTuple_some {t : SigTuple} {g : SocketSignature} (h : ofTuple t = some g) :
    g.sigs = t ∧ g.size = t.rs.length := by
  unfold ofTuple at h
  split at h
  · cases h
    exact ⟨rfl, rfl⟩
  · cases h

theorem ofTuple_none {t : SigTuple} :
    ofTuple t = none ↔ t.rs.length ≠ t.ss.length ∨ t.rs.length ≠ t.vs.length := by
  unfold ofTuple
  split
  · next h => simp [h.1, h.2]
  · next h =>
    refine ⟨fun _ => ?_, fun _ => rfl⟩
    by_contra hc
    omega

theorem getSingleSig_eq_none {a : SocketSignature} {i : Nat} :
    a.getSingleSig i = none ↔ a.size ≤ i := by
  unfold getSingleSig
  split <;> simp <;> omega

/-- The entries of a merged batch: first those of `a`, then those of `b`. -/
theorem getSingleSig_mergeSigs (a b : SocketSignature) (i : Nat) :
    (a.mergeSigs b).getSingleSig i =
      if i < a.size then a.getSingleSig i else b.getSingleSig (i - a.size) := by
  rw [← ofSigs_list a, ← ofSigs_list b, mergeSigs_ofSigs]
  simp only [getSingleSig_ofSigs, size_ofSigs]
  exact List.getElem?_append

end SocketSignature

/-! ## Ownership -/

namespace SigHeap

/-- The two lists of a `__sigs` list. -/
def listOf (h : SigHeap) (p : Nat × Bool) : Nat :=
  bif p.2 then (h.cells.get p.1).rs else (h.cells.get p.1).ss

/-- Every object has a `__sigs` list of its own, and every such list two lists of its own. -/
structure Owned (h : SigHeap) : Prop where
  cells : h.cells.Holds (· < h.objs.next) fun a => (h.objs.get a).sigs
  lists : h.lists.Holds (fun p : Nat × Bool => p.1 < h.cells.next) h.listOf

/-- The heap after `recursive_tuple_to_list`. -/
def copied (h : SigHeap) (t : SigTuple) : SigHeap :=
  { h with
    lists := (h.lists.alloc t.rs).alloc t.ss
    cells := h.cells.alloc ⟨h.lists.next, h.lists.next + 1, t.vs⟩ }

variable {h : SigHeap}

theorem listOf_copied (t : SigTuple) {p : Nat × Bool} (hp : p.1 < h.cells.next) :
    (h.copied t).listOf p = h.listOf p := by
  simp only [listOf, copied, Store.get_alloc_of_lt _ _ hp]

namespace Owned

theorem copied (ho : h.Owned) (t : SigTuple) : (h.copied t).Owned where
  cells := ho.cells.mono (Nat.le_succ _) (fun _ hi => hi) fun _ _ => rfl
  lists := by
    -- the `rs` of the new list take the first new location, its `ss` the second
    have hrs : (h.lists.alloc t.rs).Holds
        (fun p : Nat × Bool => p.1 < h.cells.next ∨ p = (h.cells.next, true))
        (h.copied t).listOf :=
      ho.lists.alloc (o := (h.cells.next, true)) (fun _ hp => hp)
        (fun p hp => listOf_copied t hp) (by simp [listOf, SigHeap.copied])
    refine hrs.alloc (o := (h.cells.next, false)) (fun p hp => ?_) (fun _ _ => rfl)
      (by simp [listOf, SigHeap.copied])
    obtain ⟨c, b⟩ := p
    have hc : c < h.cells.next + 1 := hp
    rcases Nat.lt_succ_iff_lt_or_eq.mp hc with hc | rfl
    · exact .inl (.inl hc)
    · cases b with
      | true => exact .inl (.inr rfl)
      | false => exact .inr rfl

theorem tuple_copied (ho : h.Owned) (t : SigTuple) {a : Nat} (ha : a < h.objs.next) :
    (h.copied t).tuple a = h.tuple a := by
  have hc : (h.objs.get a).sigs < h.cells.next := ho.cells.lt a ha
  have hrs : (h.cells.get (h.objs.get a).sigs).rs < h.lists.next := ho.lists.lt (_, true) hc
  have hss : (h.cells.get (h.objs.get a).sigs).ss < h.lists.next := ho.lists.lt (_, false) hc
  simp only [SigHeap.tuple, SigHeap.copied, Store.get_alloc_of_lt _ _ hc, SigTuple.mk.injEq]
  refine ⟨?_, ?_, trivial⟩
  · rw [Store.get_alloc_of_lt _ _ (Nat.lt_succ_of_lt hrs), Store.get_alloc_of_lt _ _ hrs]
  · rw [Store.get_alloc_of_lt _ _ (Nat.lt_succ_of_lt hss), Store.get_alloc_of_lt _ _ hss]

end Owned

/-- The heap after a construction from `t` that returns. -/
def constructed (h : SigHeap) (t : SigTuple) : SigHeap :=
  { h.copied t with objs := h.objs.alloc ⟨h.cells.next, t.rs.length⟩ }

/-- The heap after `a.merge_sigs(b)`. -/
def merged (h : SigHeap) (a b : Nat) : SigHeap :=
  let c := h.cells.get (h.objs.get a).sigs
  let d := h.cells.get (h.objs.get b).sigs
  let h' := (h.extend c.rs d.rs).extend c.ss d.ss
  { h' with
    cells := h.cells.set (h.objs.get a).sigs { c with vs := c.vs ++ d.vs }
    objs := h.objs.set a { h.objs.get a with sigNum := h.size a + h.size b } }

namespace Owned

theorem constructed (ho : h.Owned) (t : SigTuple) : (h.constructed t).Owned where
  cells := by
    refine ho.cells.alloc (o := h.objs.next) (fun a ha => ?_) (fun a ha => ?_) ?_
    · exact Nat.lt_succ_iff_lt_or_eq.mp ha
    · simp only [SigHeap.constructed, Store.get_alloc_of_lt _ _ ha]
    · simp only [SigHeap.constructed, Store.get_alloc_self]
  lists := (ho.copied t).lists

theorem tuple_constructed (ho : h.Owned) (t : SigTuple) {a : Nat} (ha : a < h.objs.next) :
    (h.constructed t).tuple a = h.tuple a := by
  rw [← ho.tuple_copied t ha]
  simp only [SigHeap.tuple, SigHeap.constructed, Store.get_alloc_of_lt _ _ ha]
  rfl

end Owned

theorem tuple_constructed_self (t : SigTuple) : (h.constructed t).tuple h.objs.next = t := by
  have hrs : ((h.lists.alloc t.rs).alloc t.ss).get h.lists.next = t.rs := by
    rw [Store.get_alloc_of_lt _ _ (Nat.lt_succ_self _), Store.get_alloc_self]
  have hss : ((h.lists.alloc t.rs).alloc t.ss).get (h.lists.next + 1) = t.ss :=
    Store.get_alloc_self ..
  simp only [tuple, constructed, copied, Store.get_alloc_self, hrs, hss]

theorem sigs_merged (a b i : Nat) :
    ((h.merged a b).objs.get i).sigs = (h.objs.get i).sigs :=
  Store.get_set_part (f := SigObj.sigs) h.objs (l := a)
    { h.objs.get a with sigNum := h.size a + h.size b } rfl i

theorem listOf_merged (a b : Nat) : (h.merged a b).listOf = h.listOf := by
  funext p
  have hrs := Store.get_set_part (f := SigCell.rs) h.cells (l := (h.objs.get a).sigs)
    { h.cells.get (h.objs.get a).sigs with
      vs := (h.tuple a).vs ++ (h.tuple b).vs } rfl p.1
  have hss := Store.get_set_part (f := SigCell.ss) h.cells (l := (h.objs.get a).sigs)
    { h.cells.get (h.objs.get a).sigs with
      vs := (h.tuple a).vs ++ (h.tuple b).vs } rfl p.1
  simp only [tuple] at hrs hss
  simp only [listOf, merged, hrs, hss]

theorem Owned.merged (ho : h.Owned) (a b : Nat) : (h.merged a b).Owned where
  cells := ho.cells.mono (Nat.le_refl _) (fun _ hi => hi) fun i _ => sigs_merged a b i
  lists := by
    rw [listOf_merged]
    exact ho.lists.mono (Nat.le_refl _) (fun _ hp => hp) fun _ _ => rfl

/-- An extension shows in the list it extends and in no other. -/
theorem Owned.get_extend (ho : h.Owned) {p r : Nat × Bool} (hp : p.1 < h.cells.next)
    (hr : r.1 < h.cells.next) (m : Nat) :
    (h.extend (h.listOf p) m).lists.get (h.listOf r) =
      if r = p then h.lists.get (h.listOf p) ++ h.lists.get m else h.lists.get (h.listOf r) := by
  split
  · next heq =>
    rw [heq]
    exact Store.get_set_self ..
  · next hne => exact ho.lists.get_set_of_ne hr hp hne _

theorem Owned.extend (ho : h.Owned) (l m : Nat) : (h.extend l m).Owned where
  cells := ho.cells
  lists := ho.lists.mono (Nat.le_refl _) (fun _ hp => hp) fun _ _ => rfl

/-- The lists after a merge, also where `a` and `b` are one object. -/
theorem Owned.lists_merged (ho : h.Owned) {a b c : Nat} (ha : a < h.objs.next)
    (hb : b < h.objs.next) (hc : c < h.cells.next) (k : Bool) :
    (h.merged a b).lists.get (h.listOf (c, k)) =
      if c = (h.objs.get a).sigs then
        h.lists.get (h.listOf ((h.objs.get a).sigs, k)) ++
          h.lists.get (h.listOf ((h.objs.get b).sigs, k))
      else h.lists.get (h.listOf (c, k)) := by
  have hca := ho.cells.lt a ha
  have hcb := ho.cells.lt b hb
  let p : Nat × Bool := ((h.objs.get a).sigs, true)
  let q : Nat × Bool := ((h.objs.get b).sigs, true)
  have hrs : ∀ r : Nat × Bool, r.1 < h.cells.next → _ := fun r hr =>
    ho.get_extend (p := p) (r := r) hca hr (h.listOf q)
  have hss := (ho.extend (h.listOf p) (h.listOf q)).get_extend
    (p := ((h.objs.get a).sigs, false)) (r := (c, k)) hca hc (h.listOf ((h.objs.get b).sigs, false))
  refine hss.trans ?_
  cases k with
  | true =>
    -- the second extension does not show, the first does where `c` is the list of `a`
    rw [if_neg (by simp)]
    refine (hrs _ hc).trans ?_
    simp only [p, q, Prod.mk.injEq, and_true]
  | false =>
    -- the first extension shows in none of the lists that the second reads
    simp only [Prod.mk.injEq, and_true]
    split
    · exact congrArg₂ (· ++ ·) ((hrs (_, false) hca).trans (if_neg (by simp [p])))
        ((hrs (_, false) hcb).trans (if_neg (by simp [p])))
    · exact (hrs _ hc).trans (if_neg (by simp [p]))

variable {a b i : Nat}

theorem Owned.tuple_merged_self (ho : h.Owned) (ha : a < h.objs.next) (hb : b < h.objs.next) :
    (h.merged a b).tuple a =
      ⟨(h.tuple a).rs ++ (h.tuple b).rs, (h.tuple a).ss ++ (h.tuple b).ss,
        (h.tuple a).vs ++ (h.tuple b).vs⟩ := by
  have hl := fun k => ho.lists_merged ha hb (ho.cells.lt a ha) k
  have hcell : (h.merged a b).cells.get (h.objs.get a).sigs = _ := Store.get_set_self ..
  simp only [if_true] at hl
  simp only [tuple, sigs_merged, hcell]
  exact congrArg₂ (SigTuple.mk · · _) (hl true) (hl false)

theorem Owned.tuple_merged (ho : h.Owned) (ha : a < h.objs.next) (hb : b < h.objs.next)
    (hi : i < h.objs.next) (hne : i ≠ a) : (h.merged a b).tuple i = h.tuple i := by
  have hsigs : (h.objs.get i).sigs ≠ (h.objs.get a).sigs := fun heq =>
    hne (ho.cells.inj i a hi ha heq)
  have hl := fun k => ho.lists_merged ha hb (ho.cells.lt i hi) k
  have hcell : (h.merged a b).cells.get (h.objs.get i).sigs = h.cells.get (h.objs.get i).sigs :=
    Store.get_set_of_ne _ _ hsigs
  simp only [if_neg hsigs] at hl
  simp only [tuple, sigs_merged, hcell]
  exact congrArg₂ (SigTuple.mk · · _) (hl true) (hl false)

theorem size_merged_self (a b : Nat) : (h.merged a b).size a = h.size a + h.size b := by
  simp only [size, merged, Store.get_set_self]

theorem size_merged (hne : i ≠ a) : (h.merged a b).size i = h.size i := by
  simp only [size, merged, Store.get_set_of_ne _ _ hne]

end SigHeap

/-! ## Refinement -/

/-- The objects of the heap hold the batches of the specification. -/
structure Refines (h : SigHeap) (A : SigSpec) : Prop where
  owned : h.Owned
  next : h.objs.next = A.objs.next
  rep : ∀ a < h.objs.next, h.tuple a = (A.objs.get a).sigs ∧ h.size a = (A.objs.get a).size
  submits : h.submits = A.submits
  submit_lt : ∀ u < h.submits.next, h.submits.get u < h.objs.next

namespace Refines

variable {lib : HexLib} {h : SigHeap} {A : SigSpec} {t : SigTuple} {g : SocketSignature}
  {a b u : Nat}

theorem empty : Refines .empty .empty where
  owned :=
    ⟨⟨fun a ha => absurd ha (Nat.not_lt_zero a), fun a _ ha => absurd ha (Nat.not_lt_zero a)⟩,
    ⟨fun p hp => absurd hp (Nat.not_lt_zero p.1), fun p _ hp => absurd hp (Nat.not_lt_zero p.1)⟩⟩
  next := rfl
  rep a ha := absurd ha (Nat.not_lt_zero a)
  submits := rfl
  submit_lt u hu := absurd hu (Nat.not_lt_zero u)

theorem copied (hR : Refines h A) (t : SigTuple) : Refines (h.copied t) A where
  owned := hR.owned.copied t
  next := hR.next
  rep a ha := by
    rw [hR.owned.tuple_copied t ha]
    exact hR.rep a ha
  submits := hR.submits
  submit_lt := hR.submit_lt

theorem constructed (hR : Refines h A) (ht : SocketSignature.ofTuple t = some g) :
    Refines (h.constructed t) (A.new g) where
  owned := hR.owned.constructed t
  next := congrArg (· + 1) hR.next
  rep a ha := by
    obtain ⟨hsigs, hsize⟩ := SocketSignature.ofTuple_some ht
    rcases Nat.lt_succ_iff_lt_or_eq.mp ha with ha | rfl
    · have hget : (A.new g).objs.get a = A.objs.get a :=
        Store.get_alloc_of_lt _ _ (hR.next ▸ ha)
      have hsz : (h.constructed t).size a = h.size a :=
        congrArg SigObj.sigNum (Store.get_alloc_of_lt _ _ ha)
      rw [hR.owned.tuple_constructed t ha, hget, hsz]
      exact hR.rep a ha
    · have hget : (A.new g).objs.get h.objs.next = g := by
        rw [hR.next]
        exact Store.get_alloc_self ..
      have hsz : (h.constructed t).size h.objs.next = t.rs.length :=
        congrArg SigObj.sigNum (Store.get_alloc_self ..)
      rw [SigHeap.tuple_constructed_self, hget, hsz]
      exact ⟨hsigs.symm, hsize.symm⟩
  submits := hR.submits
  submit_lt u hu := Nat.lt_succ_of_lt (hR.submit_lt u hu)

theorem merged (hR : Refines h A) (ha : a < h.objs.next) (hb : b < h.objs.next) :
    Refines (h.merged a b) (A.merge a b) where
  owned := hR.owned.merged a b
  next := hR.next
  rep i hi := by
    obtain ⟨htb, hsb⟩ := hR.rep b hb
    by_cases hia : i = a
    · subst hia
      obtain ⟨hti, hsi⟩ := hR.rep i ha
      rw [hR.owned.tuple_merged_self ha hb, SigHeap.size_merged_self, hti, htb, hsi, hsb]
      simp only [SigSpec.merge, Store.get_set_self]
      exact ⟨rfl, rfl⟩
    · have hget : (A.merge a b).objs.get i = A.objs.get i := Store.get_set_of_ne _ _ hia
      rw [hR.owned.tuple_merged ha hb hi hia, SigHeap.size_merged hia, hget]
      exact hR.rep i hi
  submits := hR.submits
  submit_lt := hR.submit_lt

theorem submit (hR : Refines h A) {o : Nat} (ho : o < h.objs.next) :
    Refines { h with submits := h.submits.alloc o } { A with submits := A.submits.alloc o } where
  owned := ⟨hR.owned.cells, hR.owned.lists⟩
  next := hR.next
  rep := hR.rep
  submits := congrArg (·.alloc o) hR.submits
  submit_lt u hu := by
    rcases Nat.lt_succ_iff_lt_or_eq.mp hu with hu | rfl
    · exact (Store.get_alloc_of_lt h.submits o hu).symm ▸ hR.submit_lt u hu
    · exact (Store.get_alloc_self h.submits o).symm ▸ ho

end Refines

/-! ## Calls -/

variable {lib : HexLib} {h : SigHeap} {A : SigSpec} {a b u : Nat}

namespace SigObj

theorem mergeSigs_run (a b : Nat) : mergeSigs a b lib h = ⟨.ok (), h.merged a b, []⟩ := rfl

theorem construct_run (t : SigTuple) :
    construct t lib h =
      if t.rs.length ≠ t.ss.length ∨ t.rs.length ≠ t.vs.length then
        ⟨.error (.exception "Not matched list size"), (h.copied t).copied t, []⟩
      else ⟨.ok h.objs.next, (h.copied t).constructed t, []⟩ :=
  Proc.ite_run ..

/-- A construction: a new object of its batch, or an exception and no new object. -/
theorem construct_cases (lib : HexLib) (hR : Refines h A) (t : SigTuple) :
    (∃ g h', SocketSignature.ofTuple t = some g ∧
      construct t lib h = ⟨.ok h.objs.next, h', []⟩ ∧ Refines h' (A.new g) ∧
      h'.submits = h.submits) ∨
    (SocketSignature.ofTuple t = none ∧ ∃ h',
      construct t lib h = ⟨.error (.exception "Not matched list size"), h', []⟩ ∧
      Refines h' A) := by
  rw [construct_run]
  split
  · next hne => exact .inr ⟨SocketSignature.ofTuple_none.mpr hne, _, rfl, (hR.copied t).copied t⟩
  · next heq =>
    cases hg : SocketSignature.ofTuple t with
    | none => exact absurd (SocketSignature.ofTuple_none.mp hg) heq
    | some g => exact .inl ⟨g, _, rfl, rfl, (hR.copied t).constructed hg, rfl⟩

theorem singleTuple_run (r s v : Int) :
    singleTuple r s v lib h =
      match lib.single r s v with
      | some t => ⟨.ok t, h, []⟩
      | none => ⟨.error .library, h, []⟩ := by
  unfold singleTuple HexLib.single
  cases hr : lib.ethHashBytes r with
  | none => simp [hr]
  | some r =>
    cases hs : lib.ethHashBytes s with
    | none => simp [hr, hs]
    | some s => cases hv : lib.ethHexBytes v <;> simp [hr, hs, hv]

/-- An entry of a batch as `get_single_sig` gives it. -/
def entry : Option SingleSig → Except SigExn SingleSig
  | some g => .ok g
  | none => .error (.exception "Out of bound signature")

theorem getSingleSig_run (hR : Refines h A) (ha : a < h.objs.next) (i : Nat) :
    getSingleSig a i lib h = ⟨entry ((A.objs.get a).getSingleSig i), h, []⟩ := by
  obtain ⟨ht, hs⟩ := hR.rep a ha
  unfold getSingleSig SocketSignature.getSingleSig
  simp only [size, Proc.bind_run, Proc.get_run, Proc.pure_run, Res.andThen_ok, Res.after_nil,
    Proc.ite_run, hs]
  by_cases hi : i < (A.objs.get a).size
  · have hr : i < (A.objs.get a).sigs.rs.length := (A.objs.get a).size_rs ▸ hi
    have hss : i < (A.objs.get a).sigs.ss.length := (A.objs.get a).size_ss ▸ hi
    have hv : i < (A.objs.get a).sigs.vs.length := (A.objs.get a).size_vs ▸ hi
    rw [if_neg (by omega), dif_pos hi]
    simp only [Res.andThen_ok, Res.after_nil, ht,
      List.getElem?_eq_getElem hr, List.getElem?_eq_getElem hss, List.getElem?_eq_getElem hv,
      Proc.ofOption_some, Proc.pure_run]
    rfl
  · rw [if_pos (by omega), dif_neg hi]
    rfl

end SigObj

namespace SubmitObj

/-- A construction from `t` that is merged into the batch of `u`, or that raises. -/
theorem addTupleSigs_refines (hR : Refines h A) (hu : u < h.submits.next) (t : SigTuple) :
    Refines (addTupleSigs u t lib h).st (A.add u (some t)) := by
  unfold addTupleSigs
  rw [Proc.bind_run]
  rcases SigObj.construct_cases lib hR t with
    ⟨g, h', hg, hrun, hR', hsub⟩ | ⟨hnone, h', hrun, hR'⟩
  · have ho : h.objs.next < h'.objs.next := by
      rw [hR'.next, hR.next]
      exact Nat.lt_succ_self _
    have hmerge := hR'.merged (hR'.submit_lt u (hsub ▸ hu)) ho
    rw [hR'.submits, hR.next] at hmerge
    have hadd : A.add u (some t) = (A.new g).merge (A.submits.get u) A.objs.next := by
      simp only [SigSpec.add, Option.bind_some, hg, Option.elim_some]
    rw [hrun, hadd]
    show Refines (h'.merged (h'.submits.get u) h.objs.next) _
    rw [hR'.submits, hR.next]
    exact hmerge
  · have hadd : A.add u (some t) = A := by
      simp only [SigSpec.add, Option.bind_some, hnone, Option.elim_none]
    rw [hrun, hadd]
    exact hR'

end SubmitObj

theorem Decoded.read_run (hR : Refines h A) {d : Decoded} (hd : d.Live h) :
    d.read lib h = ⟨.ok (A.read d), h, []⟩ := by
  cases d with
  | data t => rfl
  | tupleOf a =>
    have ht : h.tuple a = (A.objs.get a).sigs := (hR.rep a hd).1
    rw [SigSpec.read, ← ht]
    rfl

theorem SigObj.construct_refines (hR : Refines h A) (t : SigTuple) :
    Refines ((do let _ ← construct t : SigProc Unit) lib h).st (A.construct (some t)) := by
  rw [Proc.bind_run, SigSpec.construct, Option.bind_some]
  rcases construct_cases lib hR t with ⟨g, h', hg, hrun, hR', -⟩ | ⟨hnone, h', hrun, hR'⟩
  · rw [hrun, hg]
    exact hR'
  · rw [hrun, hnone]
    exact hR'

/-- **One call** does to the heap what it is for, whether it returns or raises. -/
theorem SigOp.exec_refines (hR : Refines h A) {op : SigOp} (hop : op.Live h) :
    Refines (op.exec lib h).st (A.exec lib op) := by
  cases op with
  | construct d =>
    rw [exec, Proc.bind_run, d.read_run hR hop]
    exact SigObj.construct_refines hR (A.read d)
  | init => exact (hR.copied ⟨[], [], []⟩).constructed rfl
  | fromSingleSig r s v =>
    rw [exec, Proc.bind_run, SigObj.fromSingleSig, Proc.bind_run, SigObj.singleTuple_run,
      SigSpec.exec]
    cases lib.single r s v with
    | none => exact hR
    | some t =>
      rw [Res.andThen_ok, Res.after_nil]
      exact SigObj.construct_refines hR t
  | mergeSigs a b => exact hR.merged hop.1 hop.2
  | submit =>
    have hnew := (hR.copied ⟨[], [], []⟩).constructed (g := .init) (t := ⟨[], [], []⟩) rfl
    have hsub := hnew.submit (o := h.objs.next) (Nat.lt_succ_self _)
    rw [SigSpec.exec, ← hR.next]
    exact hsub
  | addSingleSig u r s v =>
    rw [exec, SubmitObj.addSingleSig, Proc.bind_run, SigObj.singleTuple_run, SigSpec.exec]
    cases lib.single r s v with
    | none => exact hR
    | some t =>
      rw [Res.andThen_ok, Res.after_nil]
      exact SubmitObj.addTupleSigs_refines hR hop t
  | addSigs u b =>
    show Refines (h.merged (h.submits.get u) b) (A.merge (A.submits.get u) b)
    rw [← hR.submits]
    exact hR.merged (hR.submit_lt u hop.1) hop.2
  | addTupleSigs u d =>
    rw [exec, Proc.bind_run, d.read_run hR hop.2]
    exact SubmitObj.addTupleSigs_refines hR hop.1 (A.read d)

/-- A run whose calls are on objects that exist. -/
theorem run_execs {ops : List SigOp} {h : SigHeap} (hops : SigOp.AllLive lib h ops) :
    Run (SigStep lib) h ops (SigOp.execs lib ops h) := by
  induction ops generalizing h with
  | nil => exact .nil h
  | cons op ops ih => exact .cons (.call op hops.1) (ih hops.2)

/-- Every run of calls from the empty heap keeps the objects to their specification. -/
theorem run_refines {ops : List SigOp} (hrun : Run (SigStep lib) .empty ops h) :
    Refines h (ops.foldl (SigSpec.exec lib) .empty) := by
  refine hrun.invariant (P := fun ops h => Refines h (ops.foldl (SigSpec.exec lib) .empty))
    .empty fun hR hstep => ?_
  cases hstep with
  | call op hop =>
    rw [List.foldl_append]
    exact SigOp.exec_refines hR hop

/-! ## The laws of the objects -/

/-- The three sequences have one length. -/
def SigTuple.Even (t : SigTuple) : Prop := t.ss.length = t.rs.length ∧ t.vs.length = t.rs.length

/-- A construction from `t` gives an object of these sequences where they have one length;
elsewhere it raises and no object comes of it. -/
def ConstructLaw (lib : HexLib) (h : SigHeap) (t : SigTuple) : Prop :=
  (t.Even ∧ ∃ o, (SigObj.construct t lib h).val = .ok o ∧
    (SigObj.construct t lib h).st.tuple o = t ∧
    (SigObj.construct t lib h).st.size o = t.rs.length) ∨
  (¬ t.Even ∧ ∃ e, (SigObj.construct t lib h).val = .error e ∧
    (SigObj.construct t lib h).st.objs = h.objs)

/-- `get_single_sig(i)` raises past the last entry, and only there. -/
def RaisesPast (lib : HexLib) (h : SigHeap) (a : Nat) : Prop :=
  ∀ i, (∃ e, (SigObj.getSingleSig a i lib h).val = .error e) ↔ h.size a ≤ i

/-- What `a.merge_sigs(b)` does to two objects: `b` stays, `a` has its own entries and then
those of `b`. -/
structure MergeLaw (lib : HexLib) (h : SigHeap) (a b : Nat) (h' : SigHeap) : Prop where
  returns : SigObj.mergeSigs a b lib h = ⟨.ok (), h', []⟩
  others : ∀ i < h.objs.next, i ≠ a → h'.tuple i = h.tuple i ∧ h'.size i = h.size i
  unchanged : h'.tuple b = h.tuple b ∧ h'.size b = h.size b
  size : h'.size a = h.size a + h.size b
  entries : ∀ i, (SigObj.getSingleSig a i lib h').val =
    if i < h.size a then (SigObj.getSingleSig a i lib h).val
    else (SigObj.getSingleSig b (i - h.size a) lib h).val
  raises : RaisesPast lib h' a

theorem Refines.raisesPast (hR : Refines h A) (ha : a < h.objs.next) : RaisesPast lib h a := by
  intro i
  rw [SigObj.getSingleSig_run hR ha, (hR.rep a ha).2, ← SocketSignature.getSingleSig_eq_none]
  cases (A.objs.get a).getSingleSig i with
  | none => exact ⟨fun _ => rfl, fun _ => ⟨_, rfl⟩⟩
  | some g => exact ⟨fun ⟨e, he⟩ => (by cases he), fun hc => (by cases hc)⟩

theorem Refines.even (hR : Refines h A) (ha : a < h.objs.next) :
    (h.tuple a).Even ∧ (h.tuple a).rs.length = h.size a := by
  obtain ⟨ht, hs⟩ := hR.rep a ha
  rw [ht, hs]
  have hr := (A.objs.get a).size_rs
  exact ⟨⟨(A.objs.get a).size_ss.trans hr.symm, (A.objs.get a).size_vs.trans hr.symm⟩, hr⟩

theorem SigObj.constructLaw (t : SigTuple) : ConstructLaw lib h t := by
  unfold ConstructLaw
  rw [construct_run]
  split
  · next hne =>
    refine .inr ⟨fun he => ?_, _, rfl, rfl⟩
    rcases hne with hne | hne
    · exact hne he.1.symm
    · exact hne he.2.symm
  · next heq =>
    have hsize : ((h.copied t).constructed t).size h.objs.next = t.rs.length :=
      congrArg SigObj.sigNum (Store.get_alloc_self ..)
    refine .inl ⟨?_, _, rfl, SigHeap.tuple_constructed_self t, hsize⟩
    rw [not_or, not_not, not_not] at heq
    exact ⟨heq.1.symm, heq.2.symm⟩

theorem Refines.mergeLaw (hR : Refines h A) (ha : a < h.objs.next) (hb : b < h.objs.next)
    (hne : a ≠ b) : MergeLaw lib h a b (h.merged a b) where
  returns := SigObj.mergeSigs_run a b
  others i hi hia := ⟨hR.owned.tuple_merged ha hb hi hia, SigHeap.size_merged hia⟩
  unchanged := ⟨hR.owned.tuple_merged ha hb hb hne.symm, SigHeap.size_merged hne.symm⟩
  size := SigHeap.size_merged_self a b
  entries i := by
    have hm : (A.merge a b).objs.get a = (A.objs.get a).mergeSigs (A.objs.get b) :=
      Store.get_set_self ..
    rw [SigObj.getSingleSig_run (hR.merged ha hb) ha, SigObj.getSingleSig_run hR ha,
      SigObj.getSingleSig_run hR hb, hm, SocketSignature.getSingleSig_mergeSigs, (hR.rep a ha).2]
    exact apply_ite SigObj.entry ..
  raises := (hR.merged ha hb).raisesPast ha

theorem SigObj.fromSingleSig_raises (r s v : Int) :
    (∃ e, (fromSingleSig r s v lib h).val = .error e) ↔
      ∀ t, lib.single r s v = some t → t.vs.length ≠ 1 := by
  rw [fromSingleSig, Proc.bind_run, singleTuple_run]
  cases hs : lib.single r s v with
  | none => exact ⟨fun _ t ht => (by cases ht), fun _ => ⟨_, rfl⟩⟩
  | some t =>
    obtain ⟨hrs, hss⟩ : t.rs.length = 1 ∧ t.ss.length = 1 := by
      unfold HexLib.single at hs
      obtain ⟨r', -, hs⟩ := Option.bind_eq_some_iff.mp hs
      obtain ⟨s', -, hs⟩ := Option.bind_eq_some_iff.mp hs
      obtain ⟨v', -, rfl⟩ := Option.map_eq_some_iff.mp hs
      exact ⟨rfl, rfl⟩
    rw [Res.andThen_ok, Res.after_nil, construct_run, hrs, hss]
    by_cases hv : t.vs.length = 1
    · rw [if_neg (by omega)]
      exact ⟨fun ⟨e, he⟩ => (by cases he), fun hall => absurd hv (hall t rfl)⟩
    · rw [if_pos (by omega)]
      refine ⟨fun _ t' ht' => ?_, fun _ => ⟨_, rfl⟩⟩
      cases ht'
      exact hv

/-- **The objects of every run of calls**: the three sequences of each have `size` entries,
`get_single_sig` raises past them only, a construction that would break this raises, and a
merge of two objects joins their entries. -/
theorem socketSignature_laws (lib : HexLib) {ops : List SigOp} {h : SigHeap}
    (hrun : Run (SigStep lib) .empty ops h) :
    (∀ a < h.objs.next, (h.tuple a).Even ∧ (h.tuple a).rs.length = h.size a ∧
      RaisesPast lib h a) ∧
    (∀ t, ConstructLaw lib h t) ∧
    (∀ r s v, (∃ e, (SigObj.fromSingleSig r s v lib h).val = .error e) ↔
      ∀ t, lib.single r s v = some t → t.vs.length ≠ 1) ∧
    ∀ a < h.objs.next, ∀ b < h.objs.next, a ≠ b → ∃ h', MergeLaw lib h a b h' := by
  have hR := run_refines hrun
  refine ⟨fun a ha => ?_, SigObj.constructLaw, SigObj.fromSingleSig_raises, fun a ha b hb hne => ?_⟩
  · obtain ⟨heven, hsize⟩ := hR.even ha
    exact ⟨heven, hsize, hR.raisesPast ha⟩
  · exact ⟨_, hR.mergeLaw ha hb hne⟩

/-! ### A run -/

/-- The conversions of chainpy on integers of their range. -/
def HexLib.eth : HexLib where
  ethHashBytes n := if 0 ≤ n ∧ n < 2 ^ 256 then some (Bifrost.ethHashBytes n.toNat) else none
  ethHexBytes n := if 0 ≤ n then some (Bifrost.ethHexBytes n.toNat) else none

/-- Two batches, one merged into a submit and one with itself. -/
def mergeOps : List SigOp :=
  [.construct (.data ⟨[ethHashBytes 1], [ethHashBytes 2], [27]⟩), .fromSingleSig 3 4 28, .submit,
    .addTupleSigs 0 (.tupleOf 0), .mergeSigs 1 1, .construct (.data ⟨[], [], [27]⟩)]

def mergeHeap : SigHeap := SigOp.execs .eth mergeOps .empty

theorem run_mergeHeap : Run (SigStep .eth) .empty mergeOps mergeHeap :=
  run_execs (by decide)

theorem socketSignature_laws_mergeHeap :
    ∃ h', MergeLaw .eth mergeHeap 2 1 h' ∧ h'.size 2 = 3 := by
  obtain ⟨h', hm⟩ := (socketSignature_laws .eth run_mergeHeap).2.2.2 2 (by decide) 1 (by decide)
    (by decide)
  refine ⟨h', hm, ?_⟩
  rw [hm.size]
  decide

end Bifrost
