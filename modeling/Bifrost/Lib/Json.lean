import Bifrost.Lib.Collections
import Bifrost.Lib.Hex

/-!
# JSON documents

What `json.load` returns: `None`, `bool`, `int`, `float`, `str`, `list` and `dict`, the last with
its items in insertion order. `getItem`, `setItem` and `get` are `v[key]`, `v[key] = x` and
`v.get(key)` for a string key; they raise what the value's type makes of them.
-/

namespace Bifrost.Lib

/-- The exceptions of plain code; `exception` has the text it was raised with. -/
inductive PyExn where
  | keyError (key : Str) | valueError | typeError | attributeError
  | exception (msg : String)
  deriving DecidableEq

/-- `float` keeps the numeral. -/
inductive Json where
  | null
  | bool (b : Bool)
  | int (n : Int)
  | float (numeral : Str)
  | str (s : Str)
  | list (l : List Json)
  | dict (d : List (Str × Json))

namespace Json

def getItem (key : Str) : Json → Except PyExn Json
  | .dict d => match d.lookup key with
    | some v => .ok v
    | none => .error (.keyError key)
  | _ => .error .typeError

def setItem (key : Str) (v : Json) : Json → Except PyExn Json
  | .dict d => .ok (.dict (Dict.insert key v d))
  | _ => .error .typeError

/-- `None` for an absent key. -/
def get (key : Str) : Json → Except PyExn Json
  | .dict d => .ok ((d.lookup key).getD .null)
  | _ => .error .attributeError

/-- The text of a `str`; other values have none of its methods. -/
def asStr : Json → Except PyExn Str
  | .str s => .ok s
  | _ => .error .attributeError

end Json

/-! ## Sequencing -/

theorem bind_eq_ok {ε α β : Type} {x : Except ε α} {f : α → Except ε β} {b : β} :
    (x >>= f) = .ok b ↔ ∃ a, x = .ok a ∧ f a = .ok b := by
  cases x with
  | error e =>
    constructor
    · intro h
      cases h
    · rintro ⟨a, h, -⟩
      cases h
  | ok a =>
    constructor
    · exact fun h => ⟨a, rfl, h⟩
    · rintro ⟨a', h, hf⟩
      cases h
      exact hf

/-- `try: x except ValueError: raise Exception(msg)`. -/
def exceptValueError {α : Type} (x : Except PyExn α) (msg : String) : Except PyExn α :=
  match x with
  | .error .valueError => .error (.exception msg)
  | r => r

theorem exceptValueError_eq_ok {α : Type} {x : Except PyExn α} {msg : String} {a : α} :
    exceptValueError x msg = .ok a ↔ x = .ok a := by
  rcases x with e | b
  · cases e <;> simp [exceptValueError]
  · rfl

/-! ## Letter case -/

/-- `str.capitalize`; letters outside ASCII are left as they are. -/
def capitalize : Str → Str
  | [] => []
  | c :: s => c.toUpper :: s.map Char.toLower

theorem isUpper_toLower (c : Char) : c.toLower.isUpper = false := by
  delta Char.isUpper Char.toLower
  split
  · next h => grind [UInt32.toNat_add, Char.toNat_val]
  · next h => exact decide_eq_false h

/-- Only the first letter of a capitalised string can be a capital. -/
theorem isUpper_of_mem_capitalize {s : Str} {c : Char} (h : c ∈ (capitalize s).tail) :
    c.isUpper = false := by
  cases s with
  | nil => cases h
  | cons a s =>
    rw [capitalize, List.tail_cons, List.mem_map] at h
    obtain ⟨b, -, rfl⟩ := h
    exact isUpper_toLower b

end Bifrost.Lib
