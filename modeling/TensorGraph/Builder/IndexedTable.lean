import TensorGraph.Builder.Initializers

/-!
# The table of constants with its indices

Constants are looked up by name and by content. An `IndexedTable` keeps beside its entries the place
of each name and the place where each tensor first occurs, and answers from these. To add a constant
is a step on the table, which can fail.
-/

namespace TensorGraph

/-- Named constants in the order in which they were added, with the places where they are found. -/
structure IndexedTable where
  entries : List Initializer
  /-- The place of each name. -/
  byName : List (String × Nat)
  /-- The first place of each tensor. -/
  byContent : List (Tensor × Nat)
  deriving DecidableEq, Repr

namespace IndexedTable

/-- No constants. -/
def empty : IndexedTable := ⟨[], [], []⟩

/-- The tensor at a place. -/
def tensorAt? (table : IndexedTable) (place : Nat) : Option Tensor :=
  table.entries[place]?.map Initializer.tensor

/-- The name at a place. -/
def nameAt? (table : IndexedTable) (place : Nat) : Option String :=
  table.entries[place]?.map Initializer.name

/-- The tensor of a name. -/
def get? (table : IndexedTable) (name : String) : Option Tensor :=
  (table.byName.lookup name).bind table.tensorAt?

/-- Is the name that of a constant? -/
def contains (table : IndexedTable) (name : String) : Bool :=
  (table.byName.lookup name).isSome

/-- The earliest name that holds exactly this tensor. -/
def find? (table : IndexedTable) (tensor : Tensor) : Option String :=
  (table.byContent.lookup tensor).bind table.nameAt?

/-- The number of constants. -/
def length (table : IndexedTable) : Nat :=
  table.entries.length

/-- Is there no constant? -/
def isEmpty (table : IndexedTable) : Bool :=
  table.entries.isEmpty

/-- Append a constant with a new name. The place of its tensor is kept if there is an earlier
one. -/
def push (table : IndexedTable) (name : String) (tensor : Tensor) : IndexedTable where
  entries := table.entries ++ [⟨name, tensor⟩]
  byName := (name, table.length) :: table.byName
  byContent :=
    match table.byContent.lookup tensor with
    | some _ => table.byContent
    | none => (tensor, table.length) :: table.byContent

/-- Add a constant. To add the same tensor under the same name again changes nothing; another tensor
is refused. -/
def add (name : String) (tensor : Tensor) : EStateM Failure IndexedTable Unit := fun table =>
  match table.byName.lookup name with
  | some place =>
    if table.tensorAt? place = some tensor then .ok () table
    else .error (.duplicate "initializer" name) table
  | none => .ok () (table.push name tensor)

end IndexedTable

end TensorGraph
