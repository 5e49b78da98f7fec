import Bifrost.Lib.Proc
import Bifrost.Lib.Run
import Bifrost.Lib.Store
import Bifrost.Submits.Signature

/-!
# Signature batches as shared objects

`SocketSignature` and `SubmitWithSig` with their references. An object has a
`__sigs` list of its own, which holds two lists of its own and a byte string;
`tuple()` hands that list out, `merge_sigs` extends the two lists in place,
rebinds the byte string and then adds to `__sig_num`, one statement after the
other. A `SigStep` is one call on objects that exist, with the state it leaves
whether it returns or raises. Conversions of integers are chainpy's and may raise.
-/

namespace Bifrost

open Bifrost.Lib

/-- `EthHashBytes(n)` and `EthHexBytes(n)` of an integer, `none` where they raise. -/
structure HexLib where
  ethHashBytes : Int → Option (BytesN 32)
  ethHexBytes : Int → Option Bytes

inductive SigExn where
  | exception (msg : String)
  | indexError
  | library
  deriving DecidableEq

/-- A `__sigs` list: the references of its two lists and its byte string. -/
structure SigCell where
  rs : Nat
  ss : Nat
  vs : Bytes

/-- A `SocketSignature`: the reference of `__sigs`, and `__sig_num`. -/
structure SigObj where
  sigs : Nat
  sigNum : Nat

structure SigHeap where
  lists : Store (List (BytesN 32))
  cells : Store SigCell
  objs : Store SigObj
  /-- `sigs` of each `SubmitWithSig`. -/
  submits : Store Nat

namespace SigHeap

def empty : SigHeap := ⟨.empty [], .empty ⟨0, 0, []⟩, .empty ⟨0, 0⟩, .empty 0⟩

/-- The three sequences of the object `a`. -/
def tuple (h : SigHeap) (a : Nat) : SigTuple :=
  let c := h.cells.get (h.objs.get a).sigs
  ⟨h.lists.get c.rs, h.lists.get c.ss, c.vs⟩

def size (h : SigHeap) (a : Nat) : Nat := (h.objs.get a).sigNum

/-- `l += m` on lists, which extends `l` in place. -/
def extend (h : SigHeap) (l m : Nat) : SigHeap :=
  { h with lists := h.lists.set l (h.lists.get l ++ h.lists.get m) }

end SigHeap

abbrev SigProc := Proc HexLib SigExn SigHeap Empty

namespace SigObj

def newList (l : List (BytesN 32)) : SigProc Nat := do
  let h ← Proc.get
  Proc.modify fun h => { h with lists := h.lists.alloc l }
  pure h.lists.next

/-- `recursive_tuple_to_list`: a new list with new lists in it; byte strings stay. -/
def recursiveTupleToList (t : SigTuple) : SigProc Nat := do
  let rs ← newList t.rs
  let ss ← newList t.ss
  let h ← Proc.get
  Proc.modify fun h => { h with cells := h.cells.alloc ⟨rs, ss, t.vs⟩ }
  pure h.cells.next

/-- `__init__` on a decoded triple. -/
def construct (t : SigTuple) : SigProc Nat := do
  -- the first copy serves the arity check, which a triple passes
  let _ ← recursiveTupleToList t
  let sigs ← recursiveTupleToList t
  let sigNum := t.rs.length
  if sigNum ≠ t.ss.length ∨ sigNum ≠ t.vs.length then
    Proc.throw (.exception "Not matched list size")
  else
    let h ← Proc.get
    Proc.modify fun h => { h with objs := h.objs.alloc ⟨sigs, sigNum⟩ }
    pure h.objs.next

def init : SigProc Nat := construct ⟨[], [], []⟩

/-- `([EthHashBytes(r)], [EthHashBytes(s)], EthHexBytes(v))`. -/
def singleTuple (r s v : Int) : SigProc SigTuple := do
  let lib ← Proc.ask
  let r ← Proc.ofOption .library (lib.ethHashBytes r)
  let s ← Proc.ofOption .library (lib.ethHashBytes s)
  let v ← Proc.ofOption .library (lib.ethHexBytes v)
  pure ⟨[r], [s], v⟩

def fromSingleSig (r s v : Int) : SigProc Nat := do
  let t ← singleTuple r s v
  construct t

def size (a : Nat) : SigProc Nat := do
  let h ← Proc.get
  pure (h.size a)

/-- `tuple()`: the reference of `__sigs`, not a copy. -/
def tuple (a : Nat) : SigProc Nat := do
  let h ← Proc.get
  pure (h.objs.get a).sigs

def mergeSigs (a b : Nat) : SigProc Unit := do
  let otherSigs ← tuple b
  let sigs ← tuple a
  Proc.modify fun h => h.extend (h.cells.get sigs).rs (h.cells.get otherSigs).rs
  Proc.modify fun h => h.extend (h.cells.get sigs).ss (h.cells.get otherSigs).ss
  Proc.modify fun h =>
    let c := h.cells.get sigs
    { h with cells := h.cells.set sigs { c with vs := c.vs ++ (h.cells.get otherSigs).vs } }
  let n ← size b
  Proc.modify fun h =>
    let o := h.objs.get a
    { h with objs := h.objs.set a { o with sigNum := o.sigNum + n } }

/-- `EthHexBytes` of a list entry is these bytes, of an entry of a byte string this byte. -/
def getSingleSig (a i : Nat) : SigProc SingleSig := do
  let n ← size a
  if n ≤ i then Proc.throw (.exception "Out of bound signature")
  else
    let h ← Proc.get
    let r ← Proc.ofOption .indexError (h.tuple a).rs[i]?
    let s ← Proc.ofOption .indexError (h.tuple a).ss[i]?
    let v ← Proc.ofOption .indexError (h.tuple a).vs[i]?
    pure ⟨r, s, v⟩

end SigObj

/-- What the constructor is called on: a decoded triple, or `tuple()` of an object. -/
inductive Decoded where
  | data (t : SigTuple)
  | tupleOf (a : Nat)

def Decoded.read : Decoded → SigProc SigTuple
  | .data t => pure t
  | .tupleOf a => do
    let h ← Proc.get
    pure (h.tuple a)

namespace SubmitObj

/-- `SubmitWithSig.__init__`. -/
def construct : SigProc Nat := do
  let sigs ← SigObj.init
  let h ← Proc.get
  Proc.modify fun h => { h with submits := h.submits.alloc sigs }
  pure h.submits.next

/-- `self.sigs`. -/
def sigs (u : Nat) : SigProc Nat := do
  let h ← Proc.get
  pure (h.submits.get u)

def addSingleSig (u : Nat) (r s v : Int) : SigProc Unit := do
  let t ← SigObj.singleTuple r s v
  let b ← SigObj.construct t
  let a ← sigs u
  SigObj.mergeSigs a b

def addSigs (u b : Nat) : SigProc Unit := do
  let a ← sigs u
  SigObj.mergeSigs a b

def addTupleSigs (u : Nat) (t : SigTuple) : SigProc Unit := do
  let b ← SigObj.construct t
  let a ← sigs u
  SigObj.mergeSigs a b

end SubmitObj

/-! ## Calls -/

inductive SigOp where
  | construct (d : Decoded)
  | init
  | fromSingleSig (r s v : Int)
  | mergeSigs (a b : Nat)
  | submit
  | addSingleSig (u : Nat) (r s v : Int)
  | addSigs (u b : Nat)
  | addTupleSigs (u : Nat) (d : Decoded)

def Decoded.Live (h : SigHeap) : Decoded → Prop
  | .data _ => True
  | .tupleOf a => a < h.objs.next

instance (h : SigHeap) : (d : Decoded) → Decidable (d.Live h)
  | .data _ => inferInstanceAs (Decidable True)
  | .tupleOf a => inferInstanceAs (Decidable (a < h.objs.next))

namespace SigOp

/-- The objects of the call exist. -/
def Live (h : SigHeap) : SigOp → Prop
  | construct d => d.Live h
  | init | fromSingleSig .. | submit => True
  | mergeSigs a b => a < h.objs.next ∧ b < h.objs.next
  | addSingleSig u _ _ _ => u < h.submits.next
  | addSigs u b => u < h.submits.next ∧ b < h.objs.next
  | addTupleSigs u d => u < h.submits.next ∧ d.Live h

instance (h : SigHeap) : (op : SigOp) → Decidable (op.Live h)
  | construct d => inferInstanceAs (Decidable (d.Live h))
  | init | fromSingleSig .. | submit => inferInstanceAs (Decidable True)
  | mergeSigs a b => inferInstanceAs (Decidable (a < h.objs.next ∧ b < h.objs.next))
  | addSingleSig u _ _ _ => inferInstanceAs (Decidable (u < h.submits.next))
  | addSigs u b => inferInstanceAs (Decidable (u < h.submits.next ∧ b < h.objs.next))
  | addTupleSigs u d => inferInstanceAs (Decidable (u < h.submits.next ∧ d.Live h))

def exec : SigOp → SigProc Unit
  | construct d => do
    let t ← d.read
    let _ ← SigObj.construct t
  | init => do
    let _ ← SigObj.init
  | fromSingleSig r s v => do
    let _ ← SigObj.fromSingleSig r s v
  | mergeSigs a b => SigObj.mergeSigs a b
  | submit => do
    let _ ← SubmitObj.construct
  | addSingleSig u r s v => SubmitObj.addSingleSig u r s v
  | addSigs u b => SubmitObj.addSigs u b
  | addTupleSigs u d => do
    let t ← d.read
    SubmitObj.addTupleSigs u t

/-- The heap after calls one after the other. -/
def execs (lib : HexLib) (ops : List SigOp) (h : SigHeap) : SigHeap :=
  ops.foldl (fun h op => (op.exec lib h).st) h

/-- Each of the calls is on objects that exist when it is made. -/
def AllLive (lib : HexLib) : SigHeap → List SigOp → Prop
  | _, [] => True
  | h, op :: ops => op.Live h ∧ AllLive lib (op.exec lib h).st ops

instance instDecidableAllLive (lib : HexLib) :
    (ops : List SigOp) → (h : SigHeap) → Decidable (AllLive lib h ops)
  | [], _ => inferInstanceAs (Decidable True)
  | op :: ops, h =>
    let _ : Decidable (AllLive lib (op.exec lib h).st ops) := instDecidableAllLive lib ops _
    inferInstanceAs (Decidable (op.Live h ∧ AllLive lib (op.exec lib h).st ops))

end SigOp

/-- One call on objects that exist, with the state it leaves, returning or raising. -/
inductive SigStep (lib : HexLib) : SigHeap → List SigOp → SigHeap → Prop where
  | call {h : SigHeap} (op : SigOp) : op.Live h → SigStep lib h [op] (op.exec lib h).st

end Bifrost
