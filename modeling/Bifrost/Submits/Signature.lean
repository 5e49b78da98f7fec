import Bifrost.Eth
import Bifrost.Lib.Collections
import Bifrost.Socket.Message

/-!
# Signature lists

`SocketSignature` keeps the r's, the s's and the v bytes of a batch of
signatures in three parallel sequences; its invariant is that all three have
`size` entries. `sortSigs` is `SubmitWithSig._sort_sigs`: it re-keys the
signatures by the hex form of the address they recover to, which drops
repetitions, and writes them back in the order of the keys. A `none` is an
exception of the source.
-/

namespace Bifrost

open Bifrost.Lib

/-- The decoded ABI tuple `(bytes32[] r, bytes32[] s, bytes v)`. -/
structure SigTuple where
  rs : List (BytesN 32)
  ss : List (BytesN 32)
  vs : Bytes
  deriving DecidableEq

/-- One signature of a batch. -/
structure SingleSig where
  r : BytesN 32
  s : BytesN 32
  v : Byte
  deriving DecidableEq

namespace SigTuple

/-- The batch of a list of signatures. -/
def ofSigs (l : List SingleSig) : SigTuple := ⟨l.map (·.r), l.map (·.s), l.map (·.v)⟩

theorem ofSigs_inj {l m : List SingleSig} : ofSigs l = ofSigs m ↔ l = m := by
  refine ⟨fun h => ?_, fun h => h ▸ rfl⟩
  obtain ⟨hr, hs, hv⟩ := SigTuple.mk.inj h
  induction l generalizing m with
  | nil => simpa using hr
  | cons g l ih =>
    cases m with
    | nil => cases hr
    | cons g' m =>
      simp only [List.map_cons, List.cons.injEq] at hr hs hv
      obtain ⟨r, s, v⟩ := g
      obtain ⟨r', s', v'⟩ := g'
      obtain ⟨rfl, hr⟩ := hr
      obtain ⟨rfl, hs⟩ := hs
      obtain ⟨rfl, hv⟩ := hv
      rw [ih (by simp only [ofSigs, hr, hs, hv]) hr hs hv]

end SigTuple

structure SocketSignature where
  sigs : SigTuple
  size : Nat
  size_rs : sigs.rs.length = size
  size_ss : sigs.ss.length = size
  size_vs : sigs.vs.length = size
  deriving DecidableEq

namespace SocketSignature

/-- The constructor: raises "Not matched list size" on sequences of different lengths. -/
def ofTuple (t : SigTuple) : Option SocketSignature :=
  if h : t.ss.length = t.rs.length ∧ t.vs.length = t.rs.length then
    some ⟨t, t.rs.length, rfl, h.1, h.2⟩
  else none

def init : SocketSignature := ⟨⟨[], [], []⟩, 0, rfl, rfl, rfl⟩

def fromSingleSig (r s v : Nat) : Option SocketSignature :=
  ofTuple ⟨[ethHashBytes r], [ethHashBytes s], ethHexBytes v⟩

def tuple (a : SocketSignature) : SigTuple := a.sigs

def mergeSigs (a b : SocketSignature) : SocketSignature where
  sigs := ⟨a.sigs.rs ++ b.sigs.rs, a.sigs.ss ++ b.sigs.ss, a.sigs.vs ++ b.sigs.vs⟩
  size := a.size + b.size
  size_rs := by rw [List.length_append, a.size_rs, b.size_rs]
  size_ss := by rw [List.length_append, a.size_ss, b.size_ss]
  size_vs := by rw [List.length_append, a.size_vs, b.size_vs]

/-- Raises "Out of bound signature" past the last one. -/
def getSingleSig (a : SocketSignature) (i : Nat) : Option SingleSig :=
  if h : i < a.size then
    some ⟨a.sigs.rs.get ⟨i, a.size_rs ▸ h⟩, a.sigs.ss.get ⟨i, a.size_ss ▸ h⟩,
      a.sigs.vs.get ⟨i, a.size_vs ▸ h⟩⟩
  else none

/-- `SubmitWithSig.add_single_sig`. -/
def addSingleSig (a : SocketSignature) (r s v : Nat) : Option SocketSignature :=
  (fromSingleSig r s v).map a.mergeSigs

/-- `SubmitWithSig.add_tuple_sigs`. -/
def addTupleSigs (a : SocketSignature) (t : SigTuple) : Option SocketSignature :=
  (ofTuple t).map a.mergeSigs

end SocketSignature

namespace SubmitWithSig

/-- The address a signature recovers to. -/
def signer (lib : EthLib) (msg : Bytes) (g : SingleSig) : Address :=
  lib.recover (ofBE g.r.val) (ofBE g.s.val) g.v.val msg

def sigKey (lib : EthLib) (msg : Bytes) (g : SingleSig) : Str := (signer lib msg g).hex

/-- The dict of `_sort_sigs`: the signatures of `a` under the addresses they recover to. -/
def sigDict (lib : EthLib) (msg : Bytes) (a : SocketSignature) : Option (Dict Str SingleSig) :=
  (List.range a.size).foldlM
    (fun d i => (a.getSingleSig i).map fun g => d.insert (sigKey lib msg g) g) []

/-- `_sort_sigs`: the signatures it leaves in `self.sigs`. -/
def sortSigs (lib : EthLib) (msg : Bytes) (a : SocketSignature) : Option SocketSignature :=
  if a.size = 1 then some a
  else (sigDict lib msg a).bind fun d =>
    d.sortedItems.foldlM (fun b p => b.addSingleSig (ofBE p.2.r.val) (ofBE p.2.s.val) p.2.v.val)
      SocketSignature.init

end SubmitWithSig

/-! ## The lists behind a batch -/

namespace SocketSignature

/-- The batch of a list of signatures, as an object. -/
def ofSigs (l : List SingleSig) : SocketSignature where
  sigs := .ofSigs l
  size := l.length
  size_rs := List.length_map _
  size_ss := List.length_map _
  size_vs := List.length_map _

@[simp] theorem tuple_ofSigs (l : List SingleSig) : (ofSigs l).tuple = .ofSigs l := rfl

@[simp] theorem size_ofSigs (l : List SingleSig) : (ofSigs l).size = l.length := rfl

theorem init_eq : init = ofSigs [] := rfl

theorem ofTuple_ofSigs (l : List SingleSig) : ofTuple (.ofSigs l) = some (ofSigs l) := by
  simp [ofTuple, SigTuple.ofSigs, ofSigs]

@[ext] theorem ext {a b : SocketSignature} (h : a.sigs = b.sigs) : a = b := by
  obtain ⟨s, n, h1, h2, h3⟩ := a
  obtain ⟨s', n', h1', h2', h3'⟩ := b
  simp only at h
  subst h
  obtain rfl : n = n' := h1.symm.trans h1'
  rfl

theorem mergeSigs_ofSigs (l m : List SingleSig) :
    (ofSigs l).mergeSigs (ofSigs m) = ofSigs (l ++ m) := by
  apply ext
  simp [mergeSigs, ofSigs, SigTuple.ofSigs]

theorem getSingleSig_ofSigs (l : List SingleSig) (i : Nat) :
    (ofSigs l).getSingleSig i = l[i]? := by
  unfold getSingleSig
  split
  · next h =>
    rw [size_ofSigs] at h
    rw [List.getElem?_eq_getElem h]
    simp [ofSigs, SigTuple.ofSigs]
  · next h =>
    rw [size_ofSigs] at h
    rw [List.getElem?_eq_none (by omega)]

theorem addTupleSigs_ofSigs (l : List SingleSig) :
    init.addTupleSigs (.ofSigs l) = some (ofSigs l) := by
  rw [addTupleSigs, ofTuple_ofSigs, Option.map_some, init_eq, mergeSigs_ofSigs, List.nil_append]

theorem fromSingleSig_byte (r s : Nat) {v : Nat} (h : v < 256) :
    fromSingleSig r s v = some (ofSigs [⟨ethHashBytes r, ethHashBytes s, ⟨v, h⟩⟩]) := by
  rw [fromSingleSig, ethHexBytes_byte h]
  exact ofTuple_ofSigs [⟨ethHashBytes r, ethHashBytes s, ⟨v, h⟩⟩]

/-- A recovery id of more than one byte does not match. -/
theorem lt_of_fromSingleSig {r s v : Nat} {a : SocketSignature}
    (h : fromSingleSig r s v = some a) : v < 256 := by
  unfold fromSingleSig ofTuple at h
  split at h
  · next hlen => exact lt_of_length_ethHexBytes hlen.2
  · cases h

theorem init_mergeSigs (a : SocketSignature) : init.mergeSigs a = a := by
  apply ext
  simp [mergeSigs, init]

/-- Writing a signature back through its integers leaves it as it was. -/
theorem addSingleSig_ofSigs (l : List SingleSig) (g : SingleSig) :
    (ofSigs l).addSingleSig (ofBE g.r.val) (ofBE g.s.val) g.v.val = some (ofSigs (l ++ [g])) := by
  have hr : ethHashBytes (ofBE g.r.val) = g.r :=
    Subtype.ext (toBE_ofBE_of_length g.r.property)
  have hs : ethHashBytes (ofBE g.s.val) = g.s :=
    Subtype.ext (toBE_ofBE_of_length g.s.property)
  rw [addSingleSig, fromSingleSig_byte _ _ g.v.isLt, Option.map_some, mergeSigs_ofSigs, hr, hs]

end SocketSignature

namespace SubmitWithSig

variable (lib : EthLib) (msg : Bytes)

theorem foldlM_get_range {σ : Type} (l : List SingleSig) (f : σ → SingleSig → σ) (d : σ) :
    (List.range l.length).foldlM (fun d i => (l[i]?).map (f d)) d = some (l.foldl f d) := by
  have hmap : (List.range l.length).map (fun i => l[i]?) = l.map some := by
    apply List.ext_getElem
    · simp
    · intro i h1 h2
      simp only [List.length_map, List.length_range] at h1
      simp [h1]
  have hsome : ∀ (l : List SingleSig) (d : σ),
      (l.map some).foldlM (fun d o => o.map (f d)) d = some (l.foldl f d) := by
    intro l
    induction l with
    | nil => intro d; rfl
    | cons g l ih => intro d; simpa using ih (f d g)
  rw [← hsome, ← hmap, List.foldlM_map]

theorem sigDict_ofSigs (l : List SingleSig) :
    sigDict lib msg (.ofSigs l) = some (Dict.ofList (l.map fun g => (sigKey lib msg g, g))) := by
  unfold sigDict
  simp only [SocketSignature.getSingleSig_ofSigs, SocketSignature.size_ofSigs]
  rw [foldlM_get_range l (fun d g => Dict.insert (sigKey lib msg g) g d), Dict.ofList,
    List.foldl_map]

theorem foldlM_addSingleSig (l : List (Str × SingleSig)) (m : List SingleSig) :
    l.foldlM (fun b p => b.addSingleSig (ofBE p.2.r.val) (ofBE p.2.s.val) p.2.v.val)
      (SocketSignature.ofSigs m) = some (.ofSigs (m ++ l.map Prod.snd)) := by
  induction l generalizing m with
  | nil => simp
  | cons p l ih =>
    rw [List.foldlM_cons, SocketSignature.addSingleSig_ofSigs]
    simpa using ih (m ++ [p.2])

/-- On a batch of another size than one, `_sort_sigs` leaves the values of its dict in the
order of the keys. -/
theorem sortSigs_ofSigs {l : List SingleSig} (hl : l.length ≠ 1) :
    sortSigs lib msg (.ofSigs l) = some (.ofSigs
      ((Dict.ofList (l.map fun g => (sigKey lib msg g, g))).sortedItems.map Prod.snd)) := by
  rw [sortSigs, if_neg (by simpa using hl), sigDict_ofSigs, Option.bind_some,
    SocketSignature.init_eq, foldlM_addSingleSig, List.nil_append]

/-! ## Canonical batches -/

section Canonical

variable {ι : Type} (addr : ι → Address) (sg : ι → SingleSig)

/-- Signers in the order of their addresses. -/
def byAddress (l : List ι) : List ι := l.insertionSort fun a b => (addr a).hex ≤ (addr b).hex

theorem byAddress_perm (l : List ι) : (byAddress addr l).Perm l := List.perm_insertionSort _ l

theorem pairwise_byAddress_le (l : List ι) :
    (byAddress addr l).Pairwise fun a b => (addr a).hex ≤ (addr b).hex := by
  have : Std.Total (fun a b : ι => (addr a).hex ≤ (addr b).hex) := ⟨fun a b => le_total _ _⟩
  have : IsTrans ι (fun a b => (addr a).hex ≤ (addr b).hex) := ⟨fun _ _ _ => le_trans⟩
  exact List.pairwise_insertionSort _ l

/-- Signers of different addresses stand in strictly increasing numeric order. -/
theorem pairwise_byAddress {l : List ι} (hl : (l.map addr).Nodup) :
    (byAddress addr l).Pairwise fun a b => (addr a).num < (addr b).num := by
  have hn : (byAddress addr l).Pairwise fun a b => addr a ≠ addr b :=
    List.pairwise_map.mp (((byAddress_perm addr l).map addr).nodup_iff.mpr hl)
  refine (pairwise_byAddress_le addr l).imp₂ (fun a b hle hne => ?_) hn
  exact (Address.hex_lt_iff _ _).mp (lt_of_le_of_ne hle fun h => hne (Address.hex_inj h))

variable {addr sg} {lib msg} {voters order : List ι}

/-- **Canonical form**: however often and in whatever order the signatures of some voters
come in, `_sort_sigs` leaves one for each voter, in the order of their addresses. -/
theorem sortSigs_canonical (hkey : ∀ a ∈ voters, sigKey lib msg (sg a) = (addr a).hex)
    (hv : (voters.map addr).Nodup) (ho : ∀ a, a ∈ order ↔ a ∈ voters) :
    sortSigs lib msg (.ofSigs (order.map sg)) =
      some (.ofSigs ((byAddress addr voters).map sg)) := by
  by_cases h1 : order.length = 1
  · -- a single signature is left alone, and is the batch of its one voter
    obtain ⟨a, rfl⟩ := List.length_eq_one_iff.mp h1
    have hva : voters = [a] := by
      refine List.perm_singleton.mp ((List.perm_ext_iff_of_nodup hv.of_map (by simp)).mpr ?_)
      exact fun b => (ho b).symm
    rw [sortSigs, if_pos (by simp), hva]
    rfl
  · rw [sortSigs_ofSigs lib msg (by simpa using h1), List.map_map]
    let item : ι → Str × SingleSig := fun a => ((addr a).hex, sg a)
    have hinj : ∀ a ∈ voters, ∀ b ∈ voters, (addr a).hex = (addr b).hex → a = b :=
      fun a ha b hb h => List.inj_on_of_nodup_map hv ha hb (Address.hex_inj h)
    have hitems : order.map ((fun g => (sigKey lib msg g, g)) ∘ sg) = order.map item := by
      refine List.map_congr_left fun a ha => ?_
      simp only [Function.comp_apply, item, hkey a ((ho a).mp ha)]
    have hmem : ∀ q, q ∈ Dict.ofList (order.map item) ↔ q ∈ voters.map item := by
      intro q
      rw [Dict.mem_ofList, List.mem_map, List.mem_map]
      · simp only [ho]
      · intro p hp q hq hk
        obtain ⟨a, ha, rfl⟩ := List.mem_map.mp hp
        obtain ⟨b, hb, rfl⟩ := List.mem_map.mp hq
        rw [hinj a ((ho a).mp ha) b ((ho b).mp hb) hk]
    have hnd : (voters.map item).Nodup :=
      (List.nodup_map_iff_inj_on hv.of_map).mpr fun a ha b hb h =>
        hinj a ha b hb (congrArg Prod.fst h)
    have hperm : (Dict.ofList (order.map item)).Perm (voters.map item) :=
      (List.perm_ext_iff_of_nodup (Dict.nodup_ofList _).of_map hnd).mpr hmem
    have hsort : (Dict.ofList (order.map item)).sortedItems = (byAddress addr voters).map item := by
      refine List.Perm.eq_of_pairwise ?_ (Dict.pairwise_sortedItems _)
        (List.pairwise_map.mpr (pairwise_byAddress_le addr voters))
        (((Dict.sortedItems_perm _).trans hperm).trans ((byAddress_perm addr voters).map item).symm)
      intro p q hp hq hpq hqp
      have hp' := (hmem p).mp ((Dict.sortedItems_perm _).mem_iff.mp hp)
      obtain ⟨a, ha, rfl⟩ := List.mem_map.mp hp'
      obtain ⟨b, hb, rfl⟩ := List.mem_map.mp hq
      rw [hinj a ha b ((byAddress_perm addr voters).mem_iff.mp hb) (le_antisymm hpq hqp)]
    rw [hitems, hsort, List.map_map]
    rfl

/-- The batch `t` has the signature of each voter once, in strictly increasing order of the
addresses they recover to. -/
def IsCanonical (lib : EthLib) (msg : Bytes) (addr : ι → Address) (sg : ι → SingleSig)
    (voters : List ι) (t : SigTuple) : Prop :=
  ∃ ranked : List ι, ranked.Perm voters ∧ t = .ofSigs (ranked.map sg) ∧
    (∀ a ∈ ranked, signer lib msg (sg a) = addr a) ∧
    ranked.Pairwise fun a b => (addr a).num < (addr b).num

/-- `_sort_sigs` makes the canonical batch of the voters whose signatures come in. -/
theorem exists_sortSigs (hrec : ∀ a ∈ voters, signer lib msg (sg a) = addr a)
    (hv : (voters.map addr).Nodup) (ho : ∀ a, a ∈ order ↔ a ∈ voters) :
    ∃ b, sortSigs lib msg (.ofSigs (order.map sg)) = some b ∧
      IsCanonical lib msg addr sg voters b.tuple := by
  refine ⟨_, sortSigs_canonical (fun a ha => by rw [sigKey, hrec a ha]) hv ho, ?_⟩
  have hperm := byAddress_perm addr voters
  exact ⟨_, hperm, rfl, fun a ha => hrec a (hperm.mem_iff.mp ha), pairwise_byAddress addr hv⟩

end Canonical

end SubmitWithSig

/-! ## Signatures of accounts -/

section Wire

variable {lib : EthLib} {v : Nat → Nat} {a : Account} {msg : Bytes}

/-- The signature of `a`, as it is sent with the recovery id `v`. -/
def wireSig (v : Nat → Nat) (a : Account) (msg : Bytes) : SingleSig where
  r := ethHashBytes (a.sign msg).r
  s := ethHashBytes (a.sign msg).s
  v := byteOf (v (a.sign msg).v)

theorem signer_wireSig (h : lib.Recovers v a) :
    SubmitWithSig.signer lib msg (wireSig v a msg) = a.address := by
  obtain ⟨hrec, hlt⟩ := h msg
  have hint : ∀ n : Fin (2 ^ 256), ofBE (ethHashBytes n).val = n := fun n =>
    ofBE_toBE (lt_of_lt_of_eq n.isLt (by decide))
  rw [SubmitWithSig.signer, wireSig, hint, hint, ← hrec]
  simp only [byteOf_of_lt hlt]

theorem fromSingleSig_wireSig (h : lib.Recovers v a) :
    SocketSignature.fromSingleSig (a.sign msg).r (a.sign msg).s (v (a.sign msg).v) =
      some (.ofSigs [wireSig v a msg]) := by
  obtain ⟨-, hlt⟩ := h msg
  rw [SocketSignature.fromSingleSig_byte _ _ hlt]
  simp only [wireSig, byteOf_of_lt hlt]

theorem addSingleSig_wireSig (h : lib.Recovers v a) :
    SocketSignature.init.addSingleSig (a.sign msg).r (a.sign msg).s (v (a.sign msg).v) =
      some (.ofSigs [wireSig v a msg]) := by
  rw [SocketSignature.addSingleSig, fromSingleSig_wireSig h, Option.map_some,
    SocketSignature.init_eq, SocketSignature.mergeSigs_ofSigs, List.nil_append]

end Wire

end Bifrost
