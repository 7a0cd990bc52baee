import TensorGraph.Record
import TensorGraph.Shape.Dim

/-!
# The table of symbolic dimensions

Symbols are numbered by 32-bit words in the order in which their names first occur, and the number
of each name is kept beside the names. The numbers of more than `2 ^ 32` names wrap around. The
table turns a dimension of a traced value back into a dimension of the graph; a symbol that it never
numbered has no name and cannot be rendered.
-/

namespace TensorGraph

/-- The names of symbols, each once, and the number that each was given. -/
structure SymbolTable where
  names : List String
  numbers : List (String × UInt32)
  deriving DecidableEq, Repr

namespace SymbolTable

/-- No symbols. -/
def empty : SymbolTable := ⟨[], []⟩

/-- The name of a symbol. -/
def name? (table : SymbolTable) (id : UInt32) : Option String :=
  table.names[id.toNat]?

/-- The symbol with a name. -/
def lookup? (table : SymbolTable) (name : String) : Option UInt32 :=
  table.numbers.lookup name

/-- The number that the next name is given. -/
def next (table : SymbolTable) : UInt32 :=
  .ofNat table.names.length

/-- Number a new name. -/
def push (table : SymbolTable) (name : String) : SymbolTable :=
  ⟨table.names ++ [name], (name, table.next) :: table.numbers⟩

/-- The symbol with a name, numbered now if it is new. -/
def intern (table : SymbolTable) (name : String) : SymbolTable × UInt32 :=
  match table.lookup? name with
  | some id => (table, id)
  | none => (table.push name, table.next)

/-- A dimension of a traced value as a dimension of the graph. -/
def renderDim? (table : SymbolTable) : Dim → Option ShapeDim
  | .known n => some (.fixed n)
  | .symbolic id => (table.name? id).map .named

/-- The shape of a traced value as a shape of the graph. -/
def renderShape? (table : SymbolTable) (v : AbstractValue) : Option (List ShapeDim) :=
  v.shape.mapM table.renderDim?

end SymbolTable

end TensorGraph
