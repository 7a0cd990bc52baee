import TensorGraph.Number.Binary64

/-!
# JSON values

A number without fraction and exponent that fits a 64-bit word, signed or not, is an `int`; every
other one is a `real`. The fields of an object are a list: a reader puts them in the order of their
keys, a writer takes the order it is given.
-/

namespace TensorGraph

/-- A JSON value. -/
inductive Json where
  | null
  | bool (value : Bool)
  | int (value : Int)
  | real (value : Binary64)
  | str (value : String)
  | arr (items : List Json)
  | obj (fields : List (String × Json))
  deriving Inhabited

namespace Json

/-- A natural number. -/
def nat (n : Nat) : Json :=
  .int n

/-- A list of texts. -/
def strs (items : List String) : Json :=
  .arr (items.map .str)

/-- A value, or null. -/
def option {α : Type} (f : α → Json) : Option α → Json
  | none => .null
  | some a => f a

/-- The value of an object's field. -/
def get? (key : String) : Json → Option Json
  | .obj fields => fields.lookup key
  | _ => none

end Json

end TensorGraph
