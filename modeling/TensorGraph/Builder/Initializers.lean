import TensorGraph.Model.Basic

/-!
# The table of constants

All graph levels of a conversion share one table of named constants. A name keeps the tensor that it
was first given.
-/

namespace TensorGraph

/-- Named constants in the order in which they were added. -/
structure InitializerTable where
  entries : List Initializer
  deriving DecidableEq, Repr

namespace InitializerTable

/-- No constants. -/
def empty : InitializerTable := ⟨[]⟩

/-- The tensor of a name. -/
def get? (table : InitializerTable) (name : String) : Option Tensor :=
  (table.entries.find? fun i => i.name == name).map Initializer.tensor

/-- Is the name that of a constant? -/
def contains (table : InitializerTable) (name : String) : Bool :=
  (table.get? name).isSome

/-- The earliest name that holds exactly this tensor. -/
def find? (table : InitializerTable) (tensor : Tensor) : Option String :=
  (table.entries.find? fun i => i.tensor == tensor).map Initializer.name

/-- Add a constant. To add the same tensor under the same name again changes nothing; another tensor
is refused. -/
def add (table : InitializerTable) (name : String) (tensor : Tensor) :
    Except Failure InitializerTable :=
  match table.get? name with
  | none => .ok ⟨table.entries ++ [⟨name, tensor⟩]⟩
  | some old => if old = tensor then .ok table else .error (.duplicate "initializer" name)

end InitializerTable

end TensorGraph
