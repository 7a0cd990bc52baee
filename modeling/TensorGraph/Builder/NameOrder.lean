import TensorGraph.Text.Blank
import TensorGraph.Text.Numeral

/-!
# The order of generated names

Names are compared by their stem first, then by the number behind the last underscore, so that
`const_9` comes before `const_10`. A name without such a number is its own stem and comes before the
numbered ones.
-/

namespace TensorGraph

/-- What names are compared by. -/
structure NameKey where
  stem : String
  number : Option Nat
  name : String
  deriving DecidableEq, Repr

namespace NameKey

/-- The key of a name. -/
def ofName (name : String) : NameKey :=
  match Text.cutLast '_' name.toList with
  | none => ⟨name, none, name⟩
  | some (stem, suffix) =>
    match Text.readNumeral? Text.wordMax suffix with
    | none => ⟨name, none, name⟩
    | some n => ⟨String.ofList stem, some n, name⟩

/-- A missing number comes before every number. -/
def numberLt : Option Nat → Option Nat → Bool
  | _, none => false
  | none, some _ => true
  | some m, some n => m < n

/-- Does one key come before another? -/
def lt (a b : NameKey) : Bool :=
  if a.stem == b.stem then
    if a.number == b.number then a.name < b.name else numberLt a.number b.number
  else a.stem < b.stem

end NameKey

/-- Does one name come before another, or is it the same? -/
def nameLe (a b : String) : Bool :=
  !(NameKey.ofName b).lt (NameKey.ofName a)

example : nameLe "const_9" "const_10" = true := by decide +kernel
example : nameLe "const_10" "const_9" = false := by decide +kernel
example : nameLe "w" "w_0" = true := by decide +kernel

end TensorGraph
